/-
What is left of a connection that has been removed.  The second half of the
removal is due exactly once, and the tasks still around come to an end whatever
they meet, so that nothing holds the connection any more.
-/
import HttpServer.EventLoop

namespace HttpServer

open ByteText GuardedRun

/-- The steps a task can still lead to once the connection is out of the map, an event
of the descriptor it may arm again included. -/
def Task.effort : Task → Nat
  | .read | .write => 5
  | .updateEpoll _ => 4
  | .resubmitted | .remove _ | .unregister => 1

def LoopState.effort : LoopState → Nat
  | .running => 2
  | .stopping => 1
  | .stopped => 0

namespace ClientState

/-- An armed descriptor can still deliver an event, which is dispatched twice at most. -/
def effort (s : ClientState) : Nat :=
  (s.tasks.map Task.effort).sum + s.fetched.length + 3 * s.armed.toNat + s.loop.effort

variable {s : ClientState}

theorem finish_effort {task : Task} (hmem : task ∈ s.tasks) :
    (s.finish task).effort + task.effort = s.effort := by
  have hsum := ((List.perm_cons_erase hmem).map Task.effort).sum_eq
  rw [List.map_cons, List.sum_cons] at hsum
  simp only [effort, finish, hsum]
  omega

theorem modifyEpoll_effort_le (s : ClientState) (interest : Interest) :
    (s.modifyEpoll interest).effort ≤ s.effort + 3 := by
  rw [modifyEpoll]
  split
  · simp only [effort, Bool.toNat_true]
    omega
  · omega

theorem updateEpoll_effort_le (s : ClientState) (fullyFlushed : Bool) :
    (s.updateEpoll fullyFlushed).effort ≤ s.effort + 3 := by
  rw [updateEpoll]
  split
  · split
    · exact s.modifyEpoll_effort_le _
    · simp only [effort, List.map_cons, List.sum_cons, Task.effort]
      omega
  · exact s.modifyEpoll_effort_le _

theorem enact_effort_le (s : ClientState) (work : TaskSection) :
    (s.enact work).effort ≤ s.effort + 4 := by
  simp only [enact]
  cases work.decision with
  | remove cause =>
      simp only [effort, Decision.followUps, List.cons_append, List.nil_append, List.map_cons,
        List.sum_cons, Task.effort]
      omega
  | updateEpoll fullyFlushed =>
      simp only [effort, Decision.followUps, List.cons_append, List.nil_append, List.map_cons,
        List.sum_cons, Task.effort]
      omega
  | rearmed interest resubmit =>
      apply (modifyEpoll_effort_le _ interest).trans
      cases resubmit <;>
        simp only [effort, Decision.followUps, Bool.false_eq_true, if_true, if_false,
          List.cons_append, List.nil_append, List.map_cons, List.sum_cons, Task.effort] <;>
        omega

/-- Outside the map the functions that start tasks and removals do nothing. -/
theorem eraseFromMap_of_gone (hgone : s.inMap = false) (cause : RemovalCause) :
    s.eraseFromMap cause = s := by
  simp [eraseFromMap, hgone]

theorem handleClientRead_of_gone (hgone : s.inMap = false) : s.handleClientRead = s := by
  simp [handleClientRead, hgone]

theorem handleClientWrite_of_gone (hgone : s.inMap = false) : s.handleClientWrite = s := by
  simp [handleClientWrite, hgone]

theorem dispatches_length_le (event : EpollEvent) : event.dispatches.length ≤ 2 := by
  unfold EpollEvent.dispatches
  cases event.hangUp <;> cases event.epollIn <;> cases event.epollOut <;> decide

end ClientState

/-- A removal that has been made: it stays as it was. -/
structure Gone (removal : Option Removal) (s : ClientState) : Prop where
  inMap : s.inMap = false
  removal : s.history.removal = removal

namespace Gone

variable {removal : Option Removal} {s : ClientState}

theorem enact (hgone : Gone removal s) {task : Task} (work : TaskSection) :
    Gone removal ((s.finish task).enact work) := by
  obtain ⟨armed, interest, heq, _⟩ := (s.finish task).enact_eq work
  rw [heq]
  exact ⟨hgone.inMap, hgone.removal⟩

theorem updateEpoll (hgone : Gone removal s) {task : Task} (fullyFlushed : Bool) :
    Gone removal ((s.finish task).updateEpoll fullyFlushed) := by
  constructor
  · rw [ClientState.updateEpoll]
    split
    · split
      · exact (ClientState.modifyEpoll_inMap _ _).trans hgone.inMap
      · exact hgone.inMap
    · exact (ClientState.modifyEpoll_inMap _ _).trans hgone.inMap
  · rw [ClientState.updateEpoll_history]
    exact hgone.removal

end Gone

section Steps

variable {router : HttpRouter} {order : HeaderOrder} {s s' : ClientState} {action : Action}

theorem Gone.step {removal : Option Removal} (hgone : Gone removal s)
    (hstep : step router order s action = some s') : Gone removal s' ∧ s'.effort < s.effort := by
  have hout := hgone.inMap
  have hremoval := hgone.removal
  cases steps_of_step hstep with
  | @deliver event hcan =>
      refine ⟨⟨hout, hremoval⟩, ?_⟩
      simp only [ClientState.canDeliver, Bool.and_eq_true, List.isEmpty_iff] at hcan
      obtain ⟨⟨⟨⟨⟨⟨_, harmed⟩, hfetched⟩, _⟩, _⟩, _⟩, _⟩ := hcan
      have hshort := ClientState.dispatches_length_le event
      simp only [ClientState.effort, harmed, hfetched, Bool.toNat_true, Bool.toNat_false,
        List.length_nil]
      omega
  | @dispatch first rest hfetched =>
      have hpopped : ClientState.effort { s with fetched := rest } < s.effort := by
        simp only [ClientState.effort, hfetched, List.length_cons]
        omega
      cases first with
      | hangUp =>
          simp only [ClientState.handleDispatch]
          rw [ClientState.eraseFromMap_of_gone (by exact hout)]
          exact ⟨⟨hout, hremoval⟩, hpopped⟩
      | readable =>
          simp only [ClientState.handleDispatch]
          rw [ClientState.handleClientRead_of_gone (by exact hout)]
          exact ⟨⟨hout, hremoval⟩, hpopped⟩
      | writable =>
          simp only [ClientState.handleDispatch]
          rw [ClientState.handleClientWrite_of_gone (by exact hout)]
          exact ⟨⟨hout, hremoval⟩, hpopped⟩
  | @read input hmem =>
      have hspent := ClientState.finish_effort hmem
      have hleft := ClientState.enact_effort_le (s.finish .read)
        (readSection router order s.loop input s.conn)
      refine ⟨hgone.enact _, ?_⟩
      simp only [Task.effort] at hspent
      omega
  | @write sends hmem =>
      have hspent := ClientState.finish_effort hmem
      have hleft := ClientState.enact_effort_le (s.finish .write) (writeSection sends s.conn)
      refine ⟨hgone.enact _, ?_⟩
      simp only [Task.effort] at hspent
      omega
  | resubmitted hmem =>
      have hspent := ClientState.finish_effort hmem
      rw [ClientState.handleClientRead_of_gone (by exact hout)]
      refine ⟨⟨hout, hremoval⟩, ?_⟩
      simp only [Task.effort] at hspent
      omega
  | @updateEpoll fullyFlushed hmem =>
      have hspent := ClientState.finish_effort hmem
      have hleft := (s.finish (.updateEpoll fullyFlushed)).updateEpoll_effort_le fullyFlushed
      refine ⟨hgone.updateEpoll fullyFlushed, ?_⟩
      simp only [Task.effort] at hspent
      omega
  | @remove cause hmem =>
      have hspent := ClientState.finish_effort hmem
      rw [ClientState.eraseFromMap_of_gone (by exact hout)]
      refine ⟨⟨hout, hremoval⟩, ?_⟩
      simp only [Task.effort] at hspent
      omega
  | unregister hmem =>
      have hspent := ClientState.finish_effort hmem
      refine ⟨⟨hout, hremoval⟩, ?_⟩
      simp only [ClientState.effort, ClientState.finish, Task.effort, Bool.toNat_false] at hspent ⊢
      omega
  | idleTimeout hinMap =>
      rw [hout] at hinMap
      contradiction
  | stop hloop =>
      refine ⟨⟨hout, hremoval⟩, ?_⟩
      simp only [ClientState.effort, hloop, LoopState.effort]
      omega
  | shutdown hloop =>
      rw [ClientState.eraseFromMap_of_gone (by exact hout)]
      refine ⟨⟨hout, hremoval⟩, ?_⟩
      simp only [ClientState.effort, ClientState.disturb, hloop, LoopState.effort]
      omega

end Steps

/-- The second half of a removal is due or has been made exactly when the first has
been made, and then once. -/
structure UnregistersOnce (s : ClientState) : Prop where
  due : s.tasks.count .unregister + (!s.registered).toNat = (!s.inMap).toNat
  recorded : s.history.removal.isSome = !s.inMap

namespace UnregistersOnce

variable {s s' : ClientState}

theorem start : UnregistersOnce {} where
  due := rfl
  recorded := rfl

/-- Steps that neither make nor finish a removal. -/
theorem frame (honce : UnregistersOnce s)
    (hcount : s'.tasks.count .unregister = s.tasks.count .unregister)
    (hregistered : s'.registered = s.registered) (hinMap : s'.inMap = s.inMap)
    (hremoval : s'.history.removal = s.history.removal) : UnregistersOnce s' where
  due := by
    rw [hcount, hregistered, hinMap]
    exact honce.due
  recorded := by
    rw [hremoval, hinMap]
    exact honce.recorded

theorem finish (honce : UnregistersOnce s) {task : Task} (hother : task ≠ .unregister) :
    UnregistersOnce (s.finish task) :=
  honce.frame (List.count_erase_of_ne hother.symm) rfl rfl rfl

theorem eraseFromMap (honce : UnregistersOnce s) (cause : RemovalCause) :
    UnregistersOnce (s.eraseFromMap cause) := by
  rw [ClientState.eraseFromMap]
  split
  · next hinMap =>
      have hdue := honce.due
      simp only [hinMap, Bool.not_true, Bool.toNat_false] at hdue
      constructor
      · simp only [List.count_cons_self, Bool.not_false, Bool.toNat_true]
        omega
      · rfl
  · exact honce

theorem disturb (honce : UnregistersOnce s) : UnregistersOnce s.disturb :=
  honce.frame rfl rfl rfl rfl

theorem handleClientRead (honce : UnregistersOnce s) : UnregistersOnce s.handleClientRead := by
  rw [ClientState.handleClientRead]
  split
  · exact honce.frame (List.count_cons_of_ne (by simp)) rfl rfl rfl
  · exact honce

theorem handleClientWrite (honce : UnregistersOnce s) :
    UnregistersOnce s.handleClientWrite := by
  rw [ClientState.handleClientWrite]
  split
  · exact honce.frame (List.count_cons_of_ne (by simp)) rfl rfl rfl
  · exact honce

theorem enact (honce : UnregistersOnce s) (work : TaskSection) :
    UnregistersOnce (s.enact work) := by
  obtain ⟨armed, interest, heq, _⟩ := s.enact_eq work
  rw [heq]
  refine honce.frame ?_ rfl rfl rfl
  rw [List.count_append]
  cases work.decision with
  | remove cause => simp [Decision.followUps]
  | updateEpoll fullyFlushed => simp [Decision.followUps]
  | rearmed asked resubmit => cases resubmit <;> simp [Decision.followUps]

theorem updateEpoll (honce : UnregistersOnce s) (fullyFlushed : Bool) :
    UnregistersOnce (s.updateEpoll fullyFlushed) := by
  rw [ClientState.updateEpoll]
  split
  · split
    · exact honce.frame (by simp) (by simp) (by simp) (by simp)
    · exact honce.frame (List.count_cons_of_ne (by simp)) rfl rfl rfl
  · exact honce.frame (by simp) (by simp) (by simp) (by simp)

theorem unregister (honce : UnregistersOnce s) (hmem : .unregister ∈ s.tasks) :
    UnregistersOnce { s.finish .unregister with registered := false, armed := false } where
  due := by
    have hdue := honce.due
    have hcount := List.count_pos_iff.mpr hmem
    have herase : (s.tasks.erase .unregister).count .unregister =
        s.tasks.count .unregister - 1 := List.count_erase_self
    simp only [ClientState.finish, Bool.not_false, Bool.toNat_true]
    cases hregistered : s.registered <;> cases hinMap : s.inMap <;>
      simp only [hregistered, hinMap, Bool.not_true, Bool.not_false, Bool.toNat_true,
        Bool.toNat_false] at hdue ⊢ <;>
      omega
  recorded := honce.recorded

theorem step {router : HttpRouter} {order : HeaderOrder} {action : Action}
    (honce : UnregistersOnce s)
    (hstep : HttpServer.step router order s action = some s') : UnregistersOnce s' := by
  cases steps_of_step hstep with
  | deliver _ => exact honce.frame rfl rfl rfl rfl
  | @dispatch first rest _ =>
      have hpopped : UnregistersOnce { s with fetched := rest } := honce.frame rfl rfl rfl rfl
      cases first with
      | hangUp => exact hpopped.disturb.eraseFromMap .hangUp
      | readable => exact hpopped.handleClientRead
      | writable => exact hpopped.handleClientWrite
  | read _ => exact (honce.finish (by simp)).enact _
  | write _ => exact (honce.finish (by simp)).enact _
  | resubmitted _ => exact (honce.finish (by simp)).handleClientRead
  | updateEpoll _ => exact (honce.finish (by simp)).updateEpoll _
  | @remove cause _ => exact (honce.finish (by simp)).eraseFromMap cause
  | unregister hmem => exact honce.unregister hmem
  | idleTimeout _ => exact honce.disturb.eraseFromMap .idleTimeout
  | stop _ => exact honce.frame rfl rfl rfl rfl
  | shutdown _ =>
      exact (honce.disturb.eraseFromMap .shutdown).frame rfl rfl rfl rfl

end UnregistersOnce

/-- Steps of the event loop as a whole, not of this connection. -/
def Action.ofLoop : Action → Bool
  | .stop | .shutdown => true
  | _ => false

/-- Nothing is left that refers to the connection. -/
def ClientState.Released (s : ClientState) : Prop :=
  s.tasks = [] ∧ s.fetched = [] ∧ s.registered = false

instance (s : ClientState) : Decidable s.Released :=
  inferInstanceAs (Decidable (_ = [] ∧ _ = [] ∧ _ = false))

section Release

variable {router : HttpRouter} {order : HeaderOrder} {s : ClientState}

theorem task_possible {task : Task} (hmem : task ∈ s.tasks) :
    ∃ action : Action, action.ofLoop = false ∧ (step router order s action).isSome := by
  cases task with
  | read => exact ⟨.read {}, rfl, by simp [step, hmem]⟩
  | write => exact ⟨.write [], rfl, by simp [step, hmem]⟩
  | resubmitted => exact ⟨.resubmitted, rfl, by simp [step, hmem]⟩
  | updateEpoll fullyFlushed => exact ⟨.updateEpoll fullyFlushed, rfl, by simp [step, hmem]⟩
  | remove cause => exact ⟨.remove cause, rfl, by simp [step, hmem]⟩
  | unregister => exact ⟨.unregister, rfl, by simp [step, hmem]⟩

/-- A connection out of the map can take a step or is released. -/
theorem released_or_possible (honce : UnregistersOnce s) (hgone : s.inMap = false) :
    s.Released ∨
      ∃ action : Action, action.ofLoop = false ∧ (step router order s action).isSome := by
  cases htasks : s.tasks with
  | cons task tasks =>
      right
      have hmem : task ∈ s.tasks := by
        rw [htasks]
        exact List.mem_cons_self
      exact task_possible hmem
  | nil =>
      cases hfetched : s.fetched with
      | cons first rest => exact Or.inr ⟨.dispatch, rfl, by simp [step, hfetched]⟩
      | nil =>
          left
          have hdue := honce.due
          simp only [htasks, hgone, List.count_nil, Bool.not_false, Bool.toNat_true] at hdue
          refine ⟨htasks, hfetched, ?_⟩
          cases hregistered : s.registered
          · rfl
          · simp [hregistered] at hdue

end Release

/-- A read and a write task have been submitted when the idle sweep removes the
connection. -/
def removedBeforeTasks : List Action :=
  [.deliver { epollIn := true }, .dispatch,
    .read { recvs := [.data (ascii "GET / HTTP/1.1\r\n\r\n")], sends := [.accepted 9] },
    .deliver { epollIn := true, epollOut := true }, .dispatch, .dispatch, .idleTimeout]

/-- The tasks still answer a request and arm the descriptor; its event comes to
nothing. -/
def tasksLeft : List Action :=
  [.read { recvs := [.data (ascii "GET /b HTTP/1.1\r\n\r\n")] }, .deliver { epollIn := true },
    .write [], .dispatch, .updateEpoll false, .unregister]

end HttpServer
