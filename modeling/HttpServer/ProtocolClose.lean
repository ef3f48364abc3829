/-
Closes the server decides on: a 400, a 429, or a response that ends the
connection.  A rejection removes the connection whatever its flush left
behind, so queued bytes survive when the kernel takes them in that pass and
nothing stays unsent between the decision and the removal.
-/
import HttpServer.EventLoop

namespace HttpServer

open ByteText GuardedRun

/-- A removal for a protocol reason, undisturbed, leaves nothing unsent. -/
def NothingDiscarded (s : ClientState) : Prop :=
  ∀ removal ∈ s.history.removal, removal.cause.isProtocol = true →
    removal.disturbed = false → removal.sent = removal.queued

instance (s : ClientState) : Decidable (NothingDiscarded s) :=
  inferInstanceAs (Decidable (∀ removal ∈ s.history.removal, _ → _ → _))

/-- A removal for a protocol reason, decided and not yet made. -/
def Task.isProtocolRemoval : Task → Bool
  | .remove cause => cause.isProtocol
  | _ => false

section Guard

variable (router : HttpRouter) (order : HeaderOrder)

/-- `send` does not block in a pass that is answered by 400 or 429, nor in one
that starts while a removal for a protocol reason is under way. -/
def drainsBeforeClose (s : ClientState) : Action → Prop
  | .read input =>
      (readPass router order s.loop input s.conn).ending.isRejection = true ∨
          (∃ task ∈ s.tasks, task.isProtocolRemoval = true) →
        blocks input.sends
          (readPass router order s.loop input s.conn).conn.writeBuffer.length = false
  | _ => True

instance (s : ClientState) (action : Action) :
    Decidable (drainsBeforeClose router order s action) :=
  match action with
  | .read _ => inferInstanceAs (Decidable (_ ∨ (∃ task ∈ s.tasks, _) → _))
  | .deliver _ | .dispatch | .write _ | .resubmitted | .updateEpoll _ | .remove _
  | .unregister | .idleTimeout | .stop | .shutdown => isTrue trivial

end Guard

/-- Sent and unsent bytes are all that was ever queued, and a protocol removal
under way finds nothing unsent. -/
structure NothingOwed (s : ClientState) : Prop where
  accounted : s.history.sent ++ s.conn.writeBuffer = s.history.queued
  closing : s.history.disturbed = false → ∀ cause, .remove cause ∈ s.tasks →
    cause.isProtocol = true → s.conn.writeBuffer = []
  discarded : NothingDiscarded s

namespace NothingOwed

variable {s : ClientState}

theorem start : NothingOwed {} where
  accounted := rfl
  closing := fun _ _ _ _ => rfl
  discarded := by simp [NothingDiscarded]

/-- Steps that leave buffers and history alone and start no removal. -/
theorem frame {s' : ClientState} (howed : NothingOwed s) (hconn : s'.conn = s.conn)
    (hhistory : s'.history = s.history)
    (htasks : ∀ cause, cause.isProtocol = true → .remove cause ∈ s'.tasks →
      .remove cause ∈ s.tasks) : NothingOwed s' where
  accounted := by
    rw [hconn, hhistory]
    exact howed.accounted
  closing := by
    intro hdisturbed cause hremove hprotocol
    rw [hhistory] at hdisturbed
    rw [hconn]
    exact howed.closing hdisturbed cause (htasks cause hprotocol hremove) hprotocol
  discarded := by
    rw [NothingDiscarded, hhistory]
    exact howed.discarded

theorem finish (howed : NothingOwed s) (task : Task) : NothingOwed (s.finish task) :=
  howed.frame rfl rfl fun _ _ => List.mem_of_mem_erase

theorem disturb (howed : NothingOwed s) : NothingOwed s.disturb where
  accounted := howed.accounted
  closing := fun hdisturbed => absurd hdisturbed (by simp [ClientState.disturb])
  discarded := howed.discarded

theorem handleClientRead (howed : NothingOwed s) : NothingOwed s.handleClientRead := by
  rw [ClientState.handleClientRead]
  split
  · exact howed.frame rfl rfl fun _ _ hremove => by simpa using hremove
  · exact howed

theorem handleClientWrite (howed : NothingOwed s) : NothingOwed s.handleClientWrite := by
  rw [ClientState.handleClientWrite]
  split
  · exact howed.frame rfl rfl fun _ _ hremove => by simpa using hremove
  · exact howed

/-- The map is left with the account settled. -/
theorem eraseFromMap (howed : NothingOwed s) {cause : RemovalCause}
    (hsettled : cause.isProtocol = true → s.history.disturbed = false →
      s.conn.writeBuffer = []) : NothingOwed (s.eraseFromMap cause) := by
  rw [ClientState.eraseFromMap]
  split
  · constructor
    · exact howed.accounted
    · intro hdisturbed other hremove hprotocol
      exact howed.closing hdisturbed other (by simpa using hremove) hprotocol
    · intro removal hremoval hprotocol hdisturbed
      obtain rfl := Option.some.inj hremoval
      have hempty := hsettled hprotocol hdisturbed
      have haccounted := howed.accounted
      rw [hempty, List.append_nil] at haccounted
      exact haccounted
  · exact howed

/-- A critical section that leaves the buffer empty when it decides on a
removal for a protocol reason or when one is under way. -/
theorem enact {work : TaskSection} (howed : NothingOwed s) (hsound : work.Sound s.conn)
    (hpending : s.history.disturbed = false → work.decision.isDisturbance = false →
      ∀ cause, .remove cause ∈ s.tasks → cause.isProtocol = true →
        work.conn.writeBuffer = [])
    (hnew : ∀ cause, work.decision = .remove cause → cause.isProtocol = true →
      work.conn.writeBuffer = []) : NothingOwed (s.enact work) := by
  obtain ⟨armed, interest, heq, _⟩ := s.enact_eq work
  rw [heq]
  constructor
  · have hsplit := hsound.split
    have haccounted := howed.accounted
    simp only [History.record, List.append_assoc, hsplit]
    rw [← List.append_assoc, haccounted]
  · intro hdisturbed cause hremove hprotocol
    simp only [History.record, Bool.or_eq_false_iff] at hdisturbed
    rcases List.mem_append.mp hremove with hfresh | hold
    · apply hnew cause _ hprotocol
      cases hdecision : work.decision with
      | remove other => simpa [hdecision, Decision.followUps, eq_comm] using hfresh
      | updateEpoll fullyFlushed => simp [hdecision, Decision.followUps] at hfresh
      | rearmed asked resubmit =>
          cases resubmit <;> simp [hdecision, Decision.followUps] at hfresh
    · exact hpending hdisturbed.1 hdisturbed.2 cause hold hprotocol
  · exact howed.discarded

theorem updateEpoll (howed : NothingOwed s) (fullyFlushed : Bool) :
    NothingOwed (s.updateEpoll fullyFlushed) := by
  rw [ClientState.updateEpoll]
  split
  · split
    · exact howed.frame (by simp) (by simp) (by simp)
    · refine howed.frame rfl rfl ?_
      intro cause hprotocol hremove
      rcases List.mem_cons.mp hremove with heq | hold
      · obtain rfl := Task.remove.inj heq
        contradiction
      · exact hold
  · exact howed.frame (by simp) (by simp) (by simp)

theorem read {router : HttpRouter} {order : HeaderOrder} {input : ReadInput}
    (howed : NothingOwed s) (hguard : drainsBeforeClose router order s (.read input)) :
    NothingOwed ((s.finish .read).enact (readSection router order s.loop input s.conn)) := by
  have hdrains : (readSection router order s.loop input s.conn).decision.isDisturbance =
      false → blocks input.sends
        (readPass router order s.loop input s.conn).conn.writeBuffer.length = false →
      (readSection router order s.loop input s.conn).conn.writeBuffer = [] := by
    intro hcalm hroom
    obtain ⟨hbuffer, herror⟩ := readSection_calm hcalm
    rw [hbuffer]
    rcases flushWrites_of_not_blocks _ _ hroom with hempty | hfailed
    · exact hempty
    · rw [herror] at hfailed
      contradiction
  refine NothingOwed.enact (howed.finish .read) (readSection_sound _ _ _) ?_ ?_
  · intro _ hcalm cause hremove hprotocol
    exact hdrains hcalm (hguard (Or.inr
      ⟨.remove cause, List.mem_of_mem_erase hremove, hprotocol⟩))
  · intro cause hdecision hprotocol
    rcases readSection_protocol hprotocol hdecision with hrejection | rfl
    · apply hdrains _ (hguard (Or.inl hrejection))
      rw [hdecision]
      exact isDisturbance_of_isProtocol hprotocol
    · exact (readSection_sound _ _ _).closeEmpty hdecision

theorem write (howed : NothingOwed s) (sends : List SendResult) :
    NothingOwed ((s.finish .write).enact (writeSection sends s.conn)) := by
  have hsound := writeSection_sound sends s.conn
  refine NothingOwed.enact (howed.finish .write) hsound ?_ ?_
  · intro hdisturbed _ cause hremove hprotocol
    have hsplit := hsound.split
    rw [howed.closing hdisturbed cause (List.mem_of_mem_erase hremove) hprotocol] at hsplit
    exact (List.append_eq_nil_iff.mp hsplit).2
  · intro cause hdecision hprotocol
    simp only [writeSection] at hdecision
    split at hdecision
    · obtain rfl := Decision.remove.inj hdecision
      contradiction
    · split at hdecision
      · next hflushed =>
          simp only [Bool.and_eq_true] at hflushed
          exact (flushWrites_fullyFlushed _ _).mp hflushed.1
      · contradiction

theorem step {router : HttpRouter} {order : HeaderOrder} {s' : ClientState}
    {action : Action} (howed : NothingOwed s)
    (hguard : drainsBeforeClose router order s action)
    (hstep : HttpServer.step router order s action = some s') : NothingOwed s' := by
  cases steps_of_step hstep with
  | deliver _ => exact howed.frame rfl rfl fun _ _ hremove => hremove
  | @dispatch first rest _ =>
      have hpopped : NothingOwed { s with fetched := rest } :=
        howed.frame rfl rfl fun _ _ hremove => hremove
      cases first with
      | hangUp => exact hpopped.disturb.eraseFromMap (by simp [RemovalCause.isProtocol])
      | readable => exact hpopped.handleClientRead
      | writable => exact hpopped.handleClientWrite
  | read _ => exact howed.read hguard
  | write _ => exact howed.write _
  | resubmitted _ => exact (howed.finish _).handleClientRead
  | updateEpoll _ => exact (howed.finish _).updateEpoll _
  | @remove cause hmem =>
      refine NothingOwed.eraseFromMap (howed.finish _) ?_
      intro hprotocol hdisturbed
      exact howed.closing hdisturbed cause hmem hprotocol
  | unregister _ => exact howed.frame rfl rfl fun _ _ => List.mem_of_mem_erase
  | idleTimeout _ => exact howed.disturb.eraseFromMap (by simp [RemovalCause.isProtocol])
  | stop _ => exact howed.frame rfl rfl fun _ _ hremove => hremove
  | shutdown _ =>
      have herased : NothingOwed (s.disturb.eraseFromMap .shutdown) :=
        howed.disturb.eraseFromMap (by simp [RemovalCause.isProtocol])
      exact herased.frame rfl rfl fun _ _ hremove => hremove

end NothingOwed

/-- In every run in which no read task is blocked that rejects a request or
overlaps a protocol close, such a close discards nothing. -/
theorem protocolClose_discards_nothing {router : HttpRouter} {order : HeaderOrder}
    {actions : List Action} {s : ClientState}
    (hguard : Guarded (step router order) (drainsBeforeClose router order) {} actions)
    (hrun : run (step router order) {} actions = some s) : NothingDiscarded s := by
  have hinvariant := @invariant _ _ (step router order) (drainsBeforeClose router order)
    NothingOwed (fun _ _ _ howed hmeets hstep => howed.step hmeets hstep) actions
  exact (hinvariant NothingOwed.start hguard hrun).discarded

/-- A good request and a bad one in one read, answered within one pass. -/
def rejectedAfterGet (sends : List SendResult) : List Action :=
  [.deliver { epollIn := true }, .dispatch,
    .read { recvs := [.data (ascii "GET / HTTP/1.1\r\n\r\nBAD\r\n")], sends },
    .remove .badRequest]

/-- The removal recorded at the end of the run, with these byte counts. -/
def RemovedWith (cause : RemovalCause) (queued sent : Nat) (s : ClientState) : Prop :=
  s.history.removal.map (fun removal =>
    (removal.cause, removal.queued.length, removal.sent.length, removal.disturbed)) =
      some (cause, queued, sent, false)

instance (cause : RemovalCause) (queued sent : Nat) :
    DecidablePred (RemovedWith cause queued sent) :=
  fun _ => inferInstanceAs (Decidable (_ = _))

theorem protocolClose_with_room :
    ∃ s, run (step {} sortedOrder) {} (rejectedAfterGet [.accepted 199, .accepted 199]) =
        some s ∧ RemovedWith .badRequest 317 317 s ∧ NothingDiscarded s := by
  obtain ⟨s, hrun, hremoved⟩ := @exists_reached _ _ (step {} sortedOrder) {}
    (rejectedAfterGet [.accepted 199, .accepted 199]) (RemovedWith .badRequest 317 317) _
    (by decide +kernel)
  exact ⟨s, hrun, hremoved, protocolClose_discards_nothing (by decide +kernel) hrun⟩

/-- The kernel takes ten bytes; the other 307 are gone with the connection. -/
theorem rejection_discards_bytes :
    ∃ s, run (step {} sortedOrder) {} (rejectedAfterGet [.accepted 9]) = some s ∧
      RemovedWith .badRequest 317 10 s ∧ ¬ NothingDiscarded s :=
  exists_reached (by decide +kernel)

end HttpServer
