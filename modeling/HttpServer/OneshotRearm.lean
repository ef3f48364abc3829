/-
With EPOLLONESHOT a delivered event disarms the descriptor, so every way out of
a task has to arm it again or remove the connection.  Calls that were meant for
an earlier connection with the same descriptor number may reach this one at
any time.
-/
import HttpServer.EventLoop

namespace HttpServer

open GuardedRun

/-- A step of the connection's own, or a call that reaches it only because its
descriptor number was used before. -/
inductive LoopAction where
  | own (action : Action)
  | strayRead
  | strayWrite
  | strayRemove (cause : RemovalCause)

/-- `step`, with stray calls. -/
def loopStep (router : HttpRouter) (order : HeaderOrder) (s : ClientState) :
    LoopAction → Option ClientState
  | .own action => step router order s action
  | .strayRead => some s.handleClientRead
  | .strayWrite => some s.handleClientWrite
  | .strayRemove cause => some (s.eraseFromMap cause)

/-- `epoll_ctl(EPOLL_CTL_ADD)` has just succeeded.  Stray calls may already have
left tasks behind. -/
structure JustRegistered (s : ClientState) : Prop where
  registered : s.registered = true
  armed : s.armed = true
  interest : s.interest = ⟨true, false⟩
  fetched : s.fetched = []
  inMap : s.inMap = true → .unregister ∉ s.tasks

def Interest.nonempty (interest : Interest) : Bool := interest.epollIn || interest.epollOut

/-- Somebody will look at the connection again. -/
def Attended (s : ClientState) : Prop :=
  (s.registered = true ∧ s.armed = true ∧ s.interest.nonempty = true) ∨
    s.fetched ≠ [] ∨ ∃ task ∈ s.tasks, task ≠ .unregister

/-- What is kept about a connection whose registration is complete. -/
structure Watched (s : ClientState) : Prop where
  registered : RegisteredInMap s
  attended : s.loop = .running → s.inMap = true → Attended s

theorem TaskSection.rearmed_nonempty {router : HttpRouter} {order : HeaderOrder}
    {loop : LoopState} {input : ReadInput} {conn : Connection} {interest : Interest}
    {resubmit : Bool}
    (hdecision : (readSection router order loop input conn).decision =
      .rearmed interest resubmit) : interest.nonempty = true := by
  simp only [readSection] at hdecision
  split at hdecision
  · contradiction
  · simp only [finishPass] at hdecision
    repeat' split at hdecision
    all_goals
      first
      | contradiction
      | obtain ⟨rfl, -⟩ := Decision.rearmed.inj hdecision
        rfl

namespace Watched

variable {s : ClientState}

/-- The task that has just been queued attends to the connection. -/
theorem attended_of_task {task : Task} (hmem : task ∈ s.tasks) (hne : task ≠ .unregister) :
    Attended s :=
  .inr (.inr ⟨task, hmem, hne⟩)

theorem handleClientRead_attended (hloop : s.handleClientRead.loop = .running)
    (hinMap : s.handleClientRead.inMap = true) : Attended s.handleClientRead := by
  unfold ClientState.handleClientRead at hloop hinMap ⊢
  split
  · exact attended_of_task List.mem_cons_self (by simp)
  · next hnot => simp_all

theorem handleClientWrite_attended (hinMap : s.handleClientWrite.inMap = true) :
    Attended s.handleClientWrite := by
  unfold ClientState.handleClientWrite at hinMap ⊢
  split
  · exact attended_of_task List.mem_cons_self (by simp)
  · next hnot => simp_all

theorem modifyEpoll_attended {interest : Interest} (hregistered : s.registered = true)
    (hinterest : interest.nonempty = true) : Attended (s.modifyEpoll interest) := by
  rw [ClientState.modifyEpoll, if_pos hregistered]
  exact .inl ⟨hregistered, rfl, hinterest⟩

theorem eraseFromMap_inMap (s : ClientState) (cause : RemovalCause) :
    (s.eraseFromMap cause).inMap = false := by
  rw [ClientState.eraseFromMap]
  split
  · rfl
  · next hnot => simpa using hnot

/-- A task section ends by arming the descriptor or by leaving work behind. -/
theorem enact_attended {work : TaskSection} (hregistered : s.registered = true)
    (hnonempty : ∀ interest resubmit, work.decision = .rearmed interest resubmit →
      interest.nonempty = true) : Attended (s.enact work) := by
  simp only [ClientState.enact]
  cases hdecision : work.decision with
  | remove cause => exact attended_of_task List.mem_cons_self (by simp)
  | updateEpoll fullyFlushed => exact attended_of_task List.mem_cons_self (by simp)
  | rearmed interest resubmit =>
      exact modifyEpoll_attended hregistered (hnonempty interest resubmit hdecision)

theorem updateEpoll_attended {fullyFlushed : Bool} (hregistered : s.registered = true)
    (hloop : s.loop = .running) : Attended (s.updateEpoll fullyFlushed) := by
  simp only [ClientState.updateEpoll, hloop, if_true]
  split
  · exact modifyEpoll_attended hregistered rfl
  · exact modifyEpoll_attended hregistered rfl

theorem dispatches_ne_nil {event : EpollEvent} (hcan : s.canDeliver event = true) :
    event.dispatches ≠ [] := by
  unfold EpollEvent.dispatches
  cases hup : event.hangUp with
  | true => simp
  | false =>
      cases hin : event.epollIn <;> cases hout : event.epollOut <;>
        simp_all [ClientState.canDeliver]

theorem enact_inMap (work : TaskSection) : (s.enact work).inMap = s.inMap := by
  obtain ⟨armed, interest, heq, -⟩ := s.enact_eq work
  rw [heq]

theorem updateEpoll_loop (fullyFlushed : Bool) :
    (s.updateEpoll fullyFlushed).loop = s.loop := by
  simp only [ClientState.updateEpoll]
  split
  · split <;> simp
  · simp

theorem updateEpoll_inMap (fullyFlushed : Bool) :
    (s.updateEpoll fullyFlushed).inMap = s.inMap := by
  simp only [ClientState.updateEpoll]
  split
  · split <;> simp
  · simp

/-- One case per kind of step. -/
theorem step_attended {router : HttpRouter} {order : HeaderOrder} {s' : ClientState}
    {action : Action} (hwatched : Watched s)
    (hstep : HttpServer.step router order s action = some s') (hloop : s'.loop = .running)
    (hinMap : s'.inMap = true) : Attended s' := by
  cases steps_of_step hstep with
  | deliver hcan => exact .inr (.inl (dispatches_ne_nil hcan))
  | @dispatch first rest _ =>
      cases first with
      | hangUp =>
          simp only [ClientState.handleDispatch] at hinMap
          rw [eraseFromMap_inMap] at hinMap
          contradiction
      | readable => exact handleClientRead_attended hloop hinMap
      | writable => exact handleClientWrite_attended hinMap
  | read _ =>
      rw [enact_inMap] at hinMap
      exact enact_attended (hwatched.registered hinMap).1
        (fun _ _ hdecision => TaskSection.rearmed_nonempty hdecision)
  | write _ =>
      rw [enact_inMap] at hinMap
      refine enact_attended (hwatched.registered hinMap).1 ?_
      intro interest resubmit hdecision
      simp only [writeSection] at hdecision
      repeat' split at hdecision
      all_goals contradiction
  | resubmitted _ => exact handleClientRead_attended hloop hinMap
  | updateEpoll _ =>
      rw [updateEpoll_inMap] at hinMap
      rw [updateEpoll_loop] at hloop
      exact updateEpoll_attended (hwatched.registered hinMap).1 hloop
  | remove _ =>
      rw [eraseFromMap_inMap] at hinMap
      contradiction
  | unregister hmem => exact absurd hmem (hwatched.registered hinMap).2
  | idleTimeout _ =>
      rw [eraseFromMap_inMap] at hinMap
      contradiction
  | stop _ => contradiction
  | shutdown _ => contradiction

theorem loopStep {router : HttpRouter} {order : HeaderOrder} (s : ClientState)
    (action : LoopAction) (s' : ClientState) (hwatched : Watched s)
    (hstep : HttpServer.loopStep router order s action = some s') : Watched s' := by
  cases action with
  | own action =>
      exact ⟨hwatched.registered.step hstep, fun hloop hinMap =>
        hwatched.step_attended hstep hloop hinMap⟩
  | strayRead =>
      obtain rfl := Option.some.inj hstep
      exact ⟨hwatched.registered.handleClientRead, handleClientRead_attended⟩
  | strayWrite =>
      obtain rfl := Option.some.inj hstep
      exact ⟨hwatched.registered.handleClientWrite, fun _ => handleClientWrite_attended⟩
  | strayRemove cause =>
      obtain rfl := Option.some.inj hstep
      refine ⟨hwatched.registered.eraseFromMap cause, fun _ hinMap => ?_⟩
      rw [eraseFromMap_inMap] at hinMap
      contradiction

theorem start (hregistered : JustRegistered s) : Watched s where
  registered hinMap := ⟨hregistered.registered, hregistered.inMap hinMap⟩
  attended _ _ := by
    refine .inl ⟨hregistered.registered, hregistered.armed, ?_⟩
    rw [hregistered.interest]
    rfl

end Watched

/-- While the loop runs, a connection in the map that has been registered is
armed, has a fetched event or has work queued or in progress. -/
theorem connection_attended {router : HttpRouter} {order : HeaderOrder}
    {s s' : ClientState} (hregistered : JustRegistered s) {actions : List LoopAction}
    (hrun : run (loopStep router order) s actions = some s')
    (hloop : s'.loop = .running) (hinMap : s'.inMap = true) : Attended s' :=
  (run_invariant Watched.loopStep (Watched.start hregistered) hrun).attended hloop hinMap

/-- A request in two parts, with a stray read in between. -/
def splitRequest : List LoopAction :=
  [.own (.deliver { epollIn := true }), .own .dispatch,
    .own (.read { recvs := [.data (ByteText.ascii "GET / HT")] }), .strayRead,
    .own (.deliver { epollIn := true }), .own .dispatch,
    .own (.read { recvs := [.data (ByteText.ascii "TP/1.1\r\n\r\n")] })]

theorem connection_attended_splitRequest :
    ∃ s, run (loopStep {} sortedOrder) {} splitRequest = some s ∧
      s.loop = .running ∧ s.inMap = true ∧ Attended s := by
  obtain ⟨s, hrun, hloop, hinMap⟩ := @exists_reached _ _ (loopStep {} sortedOrder) {}
    splitRequest (fun s => s.loop = .running ∧ s.inMap = true) _ (by decide +kernel)
  have hstart : JustRegistered {} := ⟨rfl, rfl, rfl, rfl, by simp⟩
  exact ⟨s, hrun, hloop, hinMap, connection_attended hstart hrun hloop hinMap⟩

end HttpServer
