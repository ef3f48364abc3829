/-
Write interest.  A write task decides under the mutex and updates epoll after
releasing it; a read task that leaves a response unsent in between loses its
own update.  Without that overlap a connection with unsent bytes is always
registered for `EPOLLOUT` or has a task that will see to it.
-/
import HttpServer.EventLoop

namespace HttpServer

open ByteText GuardedRun

/-- Tasks behind their critical section. -/
def Task.isFollowUp : Task → Bool
  | .updateEpoll _ | .remove _ | .unregister => true
  | _ => false

/-- With no task left, unsent bytes are waited for. -/
def WriteInterestKept (s : ClientState) : Prop :=
  s.loop = .running → s.inMap = true → s.tasks = [] → s.conn.writeBuffer ≠ [] →
    s.interest.epollOut = true

instance (s : ClientState) : Decidable (WriteInterestKept s) :=
  inferInstanceAs (Decidable (_ → _ → _ → _ → _))

section Guard

variable (router : HttpRouter) (order : HeaderOrder)

/-- No read task is blocked by `send` between the critical section of a write
task that emptied the buffer and the epoll update of that task. -/
def noUnsentBeforeUpdate (s : ClientState) : Action → Prop
  | .read input =>
      .updateEpoll true ∈ s.tasks →
        blocks input.sends
          (readPass router order s.loop input s.conn).conn.writeBuffer.length = false
  | _ => True

instance (s : ClientState) (action : Action) :
    Decidable (noUnsentBeforeUpdate router order s action) :=
  match action with
  | .read input =>
      inferInstanceAs (Decidable (.updateEpoll true ∈ s.tasks →
        blocks input.sends
          (readPass router order s.loop input s.conn).conn.writeBuffer.length = false))
  | .deliver _ | .dispatch | .write _ | .resubmitted | .updateEpoll _ | .remove _
  | .unregister | .idleTimeout | .stop | .shutdown => isTrue trivial

end Guard

/-- `remove_connection` has been called and has not reached the map. -/
def RemovalPending (s : ClientState) : Prop := ∃ cause, .remove cause ∈ s.tasks

/-- An emptied buffer stays empty until its update is made, and unsent bytes
are registered for or have a task that will see to them, unless the connection
is about to be removed. -/
structure WaitsForWrites (s : ClientState) : Prop where
  flushedUpdate : s.inMap = true → .updateEpoll true ∈ s.tasks →
    s.conn.writeBuffer = [] ∨ RemovalPending s
  unsent : s.inMap = true → s.conn.writeBuffer ≠ [] →
    s.interest.epollOut = true ∨ .updateEpoll false ∈ s.tasks ∨ RemovalPending s

theorem WaitsForWrites.kept {s : ClientState} (hwaits : WaitsForWrites s) :
    WriteInterestKept s := by
  intro _ hinMap htasks hunsent
  rcases hwaits.unsent hinMap hunsent with hout | hupdate | ⟨cause, hremove⟩
  · exact hout
  · simp [htasks] at hupdate
  · simp [htasks] at hremove

namespace WaitsForWrites

variable {s : ClientState}

/-- Steps that touch neither the buffers nor the registration, and no task
behind its critical section. -/
theorem frame {s' : ClientState} (hwaits : WaitsForWrites s) (hconn : s'.conn = s.conn)
    (hinterest : s'.interest = s.interest) (hinMap : s'.inMap = s.inMap)
    (htasks : ∀ task, task.isFollowUp = true → (task ∈ s'.tasks ↔ task ∈ s.tasks)) :
    WaitsForWrites s' := by
  have hpending : RemovalPending s' ↔ RemovalPending s :=
    exists_congr fun cause => htasks (.remove cause) rfl
  constructor
  · rw [hconn, hinMap, hpending, htasks (.updateEpoll true) rfl]
    exact hwaits.flushedUpdate
  · rw [hconn, hinterest, hinMap, hpending, htasks (.updateEpoll false) rfl]
    exact hwaits.unsent

theorem handleClientRead (hwaits : WaitsForWrites s) :
    WaitsForWrites s.handleClientRead := by
  rw [ClientState.handleClientRead]
  split
  · refine hwaits.frame rfl rfl rfl ?_
    intro task hfollow
    cases task <;> simp_all [Task.isFollowUp]
  · exact hwaits

theorem handleClientWrite (hwaits : WaitsForWrites s) :
    WaitsForWrites s.handleClientWrite := by
  rw [ClientState.handleClientWrite]
  split
  · refine hwaits.frame rfl rfl rfl ?_
    intro task hfollow
    cases task <;> simp_all [Task.isFollowUp]
  · exact hwaits

/-- Once out of the map nothing is owed to the connection. -/
theorem of_gone (hgone : s.inMap = false) : WaitsForWrites s where
  flushedUpdate := by simp [hgone]
  unsent := by simp [hgone]

theorem eraseFromMap (s : ClientState) (cause : RemovalCause) :
    WaitsForWrites (s.eraseFromMap cause) := by
  rw [ClientState.eraseFromMap]
  split
  · exact of_gone rfl
  · next hout => exact of_gone (by simpa using hout)

theorem finish (hwaits : WaitsForWrites s) {task : Task} (hfollow : task.isFollowUp = false) :
    WaitsForWrites (s.finish task) := by
  refine hwaits.frame rfl rfl rfl ?_
  intro other hother
  apply List.mem_erase_of_ne
  rintro rfl
  rw [hother] at hfollow
  contradiction

/-- A critical section that leaves an emptied buffer empty until its update is
made, or goes to remove the connection. -/
theorem enact {work : TaskSection} (hregistered : RegisteredInMap s)
    (hsound : work.Sound s.conn)
    (hquiet : s.inMap = true → .updateEpoll true ∈ s.tasks →
      work.conn.writeBuffer = [] ∨ RemovalPending s ∨ work.decision.removes = true) :
    WaitsForWrites (s.enact work) := by
  obtain ⟨armed, interest, heq, hinterest, _⟩ := s.enact_eq work
  rw [heq]
  constructor
  · intro hinMap hupdate
    rcases List.mem_append.mp hupdate with hnew | hold
    · left
      apply hsound.updateEmpty
      cases hdecision : work.decision with
      | remove cause => simp [hdecision, Decision.followUps] at hnew
      | updateEpoll fullyFlushed =>
          simpa [hdecision, Decision.followUps, eq_comm] using hnew
      | rearmed asked resubmit =>
          cases resubmit <;> simp [hdecision, Decision.followUps] at hnew
    · rcases hquiet hinMap hold with hempty | ⟨cause, hpending⟩ | hremoves
      · exact Or.inl hempty
      · exact Or.inr ⟨cause, List.mem_append_right _ hpending⟩
      · cases hdecision : work.decision with
        | remove cause => exact Or.inr ⟨cause, by simp [Decision.followUps]⟩
        | updateEpoll fullyFlushed => simp [hdecision, Decision.removes] at hremoves
        | rearmed asked resubmit => simp [hdecision, Decision.removes] at hremoves
  · intro hinMap hunsent
    cases hdecision : work.decision with
    | remove cause => exact Or.inr (Or.inr ⟨cause, by simp [Decision.followUps]⟩)
    | updateEpoll fullyFlushed =>
        cases fullyFlushed with
        | true => exact absurd (hsound.updateEmpty hdecision) hunsent
        | false => exact Or.inr (Or.inl (by simp [Decision.followUps]))
    | rearmed asked resubmit =>
        have hasked := hinterest asked resubmit hdecision (hregistered hinMap).1
        left
        rw [hasked]
        exact hsound.rearmsOut asked resubmit hdecision hunsent

theorem read {router : HttpRouter} {order : HeaderOrder} {input : ReadInput}
    (hregistered : RegisteredInMap s)
    (hguard : noUnsentBeforeUpdate router order s (.read input)) :
    WaitsForWrites ((s.finish .read).enact (readSection router order s.loop input s.conn)) := by
  refine WaitsForWrites.enact (hregistered.finish .read) (readSection_sound _ _ _) ?_
  intro _ hupdate
  have hroom := hguard (List.mem_of_mem_erase hupdate)
  cases hremoves : (readSection router order s.loop input s.conn).decision.removes with
  | true => exact Or.inr (Or.inr rfl)
  | false =>
      left
      have hcalm : (readSection router order s.loop input s.conn).decision.isDisturbance =
          false := by
        cases hdecision : (readSection router order s.loop input s.conn).decision with
        | remove cause => simp [hdecision, Decision.removes] at hremoves
        | updateEpoll fullyFlushed => rfl
        | rearmed asked resubmit => rfl
      obtain ⟨hbuffer, herror⟩ := readSection_calm hcalm
      rw [hbuffer]
      rcases flushWrites_of_not_blocks _ _ hroom with hempty | hfailed
      · exact hempty
      · rw [herror] at hfailed
        contradiction

theorem write (hwaits : WaitsForWrites s) (hregistered : RegisteredInMap s)
    (sends : List SendResult) :
    WaitsForWrites ((s.finish .write).enact (writeSection sends s.conn)) := by
  have hsound := writeSection_sound sends s.conn
  refine WaitsForWrites.enact (hregistered.finish .write) hsound ?_
  intro hinMap hupdate
  rcases hwaits.flushedUpdate hinMap (List.mem_of_mem_erase hupdate) with
    hempty | ⟨cause, hpending⟩
  · left
    have hsplit := hsound.split
    rw [hempty] at hsplit
    exact (List.append_eq_nil_iff.mp hsplit).2
  · exact Or.inr (Or.inl ⟨cause, (List.mem_erase_of_ne (by simp)).mpr hpending⟩)

theorem updateEpoll (hwaits : WaitsForWrites s) (hregistered : RegisteredInMap s)
    {fullyFlushed : Bool} (hmem : .updateEpoll fullyFlushed ∈ s.tasks) :
    WaitsForWrites ((s.finish (.updateEpoll fullyFlushed)).updateEpoll fullyFlushed) := by
  have hkeep : RemovalPending s → RemovalPending
      ((s.finish (.updateEpoll fullyFlushed)).updateEpoll fullyFlushed) := by
    rintro ⟨cause, hpending⟩
    have hmade : Task.remove cause ∈ (s.finish (.updateEpoll fullyFlushed)).tasks :=
      (List.mem_erase_of_ne (by simp)).mpr hpending
    refine ⟨cause, ?_⟩
    rw [ClientState.updateEpoll]
    split
    · split
      · simpa using hmade
      · exact List.mem_cons_of_mem _ hmade
    · simpa using hmade
  cases fullyFlushed with
  | true =>
      have hsettled : s.inMap = true → s.conn.writeBuffer = [] ∨ RemovalPending
          ((s.finish (.updateEpoll true)).updateEpoll true) :=
        fun hinMap => (hwaits.flushedUpdate hinMap hmem).imp id hkeep
      have hsame : ((s.finish (.updateEpoll true)).updateEpoll true).conn = s.conn ∧
          ((s.finish (.updateEpoll true)).updateEpoll true).inMap = s.inMap := by
        simp only [ClientState.updateEpoll, ↓reduceIte]
        split <;> simp [ClientState.finish]
      constructor
      · rw [hsame.1, hsame.2]
        exact fun hinMap _ => hsettled hinMap
      · rw [hsame.1, hsame.2]
        intro hinMap hunsent
        rcases hsettled hinMap with hempty | hpending
        · exact absurd hempty hunsent
        · exact Or.inr (Or.inr hpending)
  | false =>
      constructor
      · intro hinMap hupdate
        simp only [ClientState.updateEpoll, Bool.false_eq_true, ↓reduceIte,
          ClientState.modifyEpoll_inMap, ClientState.modifyEpoll_tasks] at hinMap hupdate
        rcases hwaits.flushedUpdate hinMap (List.mem_of_mem_erase hupdate) with
          hempty | hpending
        · left
          simpa [ClientState.updateEpoll, ClientState.finish] using hempty
        · exact Or.inr (hkeep hpending)
      · intro hinMap _
        simp only [ClientState.updateEpoll, Bool.false_eq_true, ↓reduceIte,
          ClientState.modifyEpoll_inMap] at hinMap ⊢
        left
        rw [ClientState.modifyEpoll_interest (s.finish _) (hregistered hinMap).1]

/-- Every step outside the race keeps the write interest. -/
theorem step {router : HttpRouter} {order : HeaderOrder} {s' : ClientState}
    {action : Action} (hwaits : WaitsForWrites s) (hregistered : RegisteredInMap s)
    (hguard : noUnsentBeforeUpdate router order s action)
    (hstep : HttpServer.step router order s action = some s') : WaitsForWrites s' := by
  cases steps_of_step hstep with
  | deliver _ => exact hwaits.frame rfl rfl rfl fun _ _ => Iff.rfl
  | @dispatch first rest _ =>
      have hpopped : WaitsForWrites { s with fetched := rest } :=
        hwaits.frame rfl rfl rfl fun _ _ => Iff.rfl
      cases first with
      | hangUp => exact eraseFromMap _ .hangUp
      | readable => exact hpopped.handleClientRead
      | writable => exact hpopped.handleClientWrite
  | read _ => exact read hregistered hguard
  | write _ => exact hwaits.write hregistered _
  | resubmitted _ => exact (hwaits.finish rfl).handleClientRead
  | updateEpoll hmem => exact hwaits.updateEpoll hregistered hmem
  | remove _ => exact eraseFromMap _ _
  | unregister hmem =>
      apply of_gone
      cases hinMap : s.inMap with
      | true => exact absurd hmem (hregistered hinMap).2
      | false => exact hinMap
  | idleTimeout _ => exact eraseFromMap _ .idleTimeout
  | stop _ => exact hwaits.frame rfl rfl rfl fun _ _ => Iff.rfl
  | shutdown _ => exact (eraseFromMap s.disturb .shutdown).frame rfl rfl rfl fun _ _ => Iff.rfl

theorem start : WaitsForWrites {} where
  flushedUpdate := fun _ _ => Or.inl rfl
  unsent := fun _ hunsent => absurd rfl hunsent

end WaitsForWrites

/-- In every run in which no read task leaves bytes unsent between a flushing
write task and its epoll update, write interest is never lost. -/
theorem writeInterest_kept {router : HttpRouter} {order : HeaderOrder}
    {actions : List Action} {s : ClientState}
    (hguard : Guarded (step router order) (noUnsentBeforeUpdate router order) {} actions)
    (hrun : run (step router order) {} actions = some s) : WriteInterestKept s := by
  have hinvariant := @invariant _ _ (step router order) (noUnsentBeforeUpdate router order)
    (fun s => RegisteredInMap s ∧ WaitsForWrites s)
    (fun _ _ _ hholds hmeets hstep =>
      ⟨hholds.1.step hstep, hholds.2.step hholds.1 hmeets hstep⟩) actions
  exact (hinvariant ⟨RegisteredInMap.start, WaitsForWrites.start⟩ hguard hrun).2.kept

def plainGet : Bytes := ascii "GET / HTTP/1.1\r\n\r\n"

/-- One request whose response the kernel takes in two parts. -/
def sentInTwoParts : List Action :=
  [.deliver { epollIn := true }, .dispatch,
    .read { recvs := [.data plainGet], sends := [.accepted 9] },
    .deliver { epollOut := true }, .dispatch, .write [.accepted 99], .updateEpoll false]

theorem writeInterest_kept_sentInTwoParts :
    ∃ s, run (step {} sortedOrder) {} sentInTwoParts = some s ∧
      s.conn.writeBuffer ≠ [] ∧ WriteInterestKept s := by
  obtain ⟨s, hrun, hunsent⟩ :=
    @exists_reached _ _ (step {} sortedOrder) {} sentInTwoParts
      (fun s => s.conn.writeBuffer ≠ []) _ (by decide +kernel)
  exact ⟨s, hrun, hunsent, writeInterest_kept (by decide +kernel) hrun⟩

/-- Both bits of one event: the write task empties the buffer, the read task
queues another response that stays in part and registers for it, and the write
task's update takes the write interest away. -/
def lostInterest : List Action :=
  [.deliver { epollIn := true }, .dispatch,
    .read { recvs := [.data plainGet], sends := [.accepted 9] },
    .deliver { epollIn := true, epollOut := true }, .dispatch, .dispatch,
    .write [.accepted 999], .read { recvs := [.data plainGet] }, .updateEpoll true]

theorem writeInterest_lost :
    ∃ s, run (step {} sortedOrder) {} lostInterest = some s ∧ ¬ WriteInterestKept s :=
  exists_reached (by decide +kernel)

end HttpServer
