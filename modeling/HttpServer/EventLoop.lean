/-
One connection under the event loop: the epoll thread delivers and dispatches
events, worker threads run the submitted tasks.  A critical section of the
connection's mutex, an epoll update made outside of it and an update of the
connection map are one step each; every order of steps is a run.
-/
import HttpServer.ClientTasks
import HttpServer.GuardedRun

namespace HttpServer

open ByteText

/-- Work of this connection that is queued or running. -/
inductive Task where
  /-- A read lambda that has not entered its critical section. -/
  | read
  | write
  /-- The resubmitted closure, which calls `handle_client_read` again. -/
  | resubmitted
  /-- A write lambda behind its critical section, before its epoll update. -/
  | updateEpoll (fullyFlushed : Bool)
  /-- A call of `remove_connection` that has not reached the map. -/
  | remove (cause : RemovalCause)
  /-- The rest of `remove_connection`, behind the map. -/
  | unregister
deriving Repr, DecidableEq

/-- `remove_connection` has been called, its map update is outstanding. -/
def Task.isRemoval : Task → Bool
  | .remove _ => true
  | _ => false

/-- What the epoll thread still has to do for a fetched event. -/
inductive Dispatch where
  | hangUp
  | readable
  | writable
deriving Repr, DecidableEq

/-- The bits of a delivered event. -/
structure EpollEvent where
  hangUp : Bool := false
  epollIn : Bool := false
  epollOut : Bool := false
deriving Repr, DecidableEq

/-- A hang-up or an error ends the treatment of an event. -/
def EpollEvent.dispatches (event : EpollEvent) : List Dispatch :=
  if event.hangUp then [.hangUp]
  else
    (if event.epollIn then [.readable] else []) ++
      (if event.epollOut then [.writable] else [])

/-- What is known of a close commitment: everything queued and routed when it
was made, and whether the first task that found the buffer empty from then on
went to remove the connection. -/
structure Commitment where
  queued : Bytes
  routed : List HttpRequest
  firstFlush : Option Bool := none
deriving DecidableEq

/-- The moment the connection leaves the map. -/
structure Removal where
  cause : RemovalCause
  queued : Bytes
  sent : Bytes
  disturbed : Bool
deriving DecidableEq

/-- What has passed through the connection so far. -/
structure History where
  received : Bytes := []
  queued : Bytes := []
  sent : Bytes := []
  routed : List HttpRequest := []
  log : List LogRecord := []
  commitment : Option Commitment := none
  removal : Option Removal := none
  /-- A socket error, a peer close, an exception, an idle timeout or a shutdown
  has happened. -/
  disturbed : Bool := false
deriving DecidableEq

structure ClientState where
  loop : LoopState := .running
  inMap : Bool := true
  registered : Bool := true
  armed : Bool := true
  interest : Interest := ⟨true, false⟩
  fetched : List Dispatch := []
  tasks : List Task := []
  conn : Connection := {}
  history : History := {}
deriving DecidableEq

inductive Action where
  | deliver (event : EpollEvent)
  | dispatch
  | read (input : ReadInput)
  | write (sends : List SendResult)
  | resubmitted
  | updateEpoll (fullyFlushed : Bool)
  | remove (cause : RemovalCause)
  | unregister
  | idleTimeout
  | stop
  | shutdown

namespace Commitment

/-- A later task finds the buffer empty, or not. -/
def observe (commitment : Commitment) (flushed removes : Bool) : Commitment :=
  if flushed && commitment.firstFlush.isNone then
    { commitment with firstFlush := some removes }
  else commitment

end Commitment

namespace Decision

/-- The work a task leaves behind. -/
def followUps : Decision → List Task
  | .remove cause => [.remove cause]
  | .updateEpoll fullyFlushed => [.updateEpoll fullyFlushed]
  | .rearmed _ resubmit => if resubmit then [.resubmitted] else []

end Decision

namespace History

/-- The history after a critical section. -/
def record (history : History) (work : TaskSection) : History :=
  let queued := history.queued ++ work.queued
  let routed := history.routed ++ work.routed
  let known :=
    match history.commitment with
    | some commitment => some commitment
    | none => if work.committed then some { queued, routed } else none
  { history with
    received := history.received ++ work.received
    queued
    sent := history.sent ++ work.sent
    routed
    log := history.log ++ work.log
    commitment := known.map fun commitment =>
      commitment.observe work.flushed work.decision.removes
    disturbed := history.disturbed || work.decision.isDisturbance }

end History

namespace ClientState

/-- `epoll_ctl(EPOLL_CTL_MOD)` on a descriptor that is still registered arms
it again. -/
def modifyEpoll (s : ClientState) (interest : Interest) : ClientState :=
  if s.registered then { s with interest, armed := true } else s

/-- `remove_connection` up to and including the erasure from the map. -/
def eraseFromMap (s : ClientState) (cause : RemovalCause) : ClientState :=
  if s.inMap then
    { s with
      inMap := false
      tasks := .unregister :: s.tasks
      history :=
        { s.history with
          removal := some ⟨cause, s.history.queued, s.history.sent, s.history.disturbed⟩ } }
  else s

/-- `handle_client_read`. -/
def handleClientRead (s : ClientState) : ClientState :=
  if s.loop = .running && s.inMap then { s with tasks := .read :: s.tasks } else s

/-- `handle_client_write`. -/
def handleClientWrite (s : ClientState) : ClientState :=
  if s.inMap then { s with tasks := .write :: s.tasks } else s

/-- The effect of a critical section and of what its decision leaves to do. -/
def enact (s : ClientState) (work : TaskSection) : ClientState :=
  let after : ClientState :=
    { s with
      conn := work.conn
      history := s.history.record work
      tasks := work.decision.followUps ++ s.tasks }
  match work.decision with
  | .rearmed interest _ => after.modifyEpoll interest
  | _ => after

def finish (s : ClientState) (task : Task) : ClientState := { s with tasks := s.tasks.erase task }

/-- The end of the write lambda. -/
def updateEpoll (s : ClientState) (fullyFlushed : Bool) : ClientState :=
  if fullyFlushed then
    if s.loop = .running then s.modifyEpoll ⟨true, false⟩
    else { s with tasks := .remove .drained :: s.tasks }
  else s.modifyEpoll ⟨s.loop = .running, true⟩

def disturb (s : ClientState) : ClientState :=
  { s with history := { s.history with disturbed := true } }

/-- One dispatch on the epoll thread. -/
def handleDispatch (s : ClientState) : Dispatch → ClientState
  | .hangUp => s.disturb.eraseFromMap .hangUp
  | .readable => s.handleClientRead
  | .writable => s.handleClientWrite

/-- An event needs an armed registration and carries bits that were asked
for; hang-ups and errors are always reported. -/
def canDeliver (s : ClientState) (event : EpollEvent) : Bool :=
  s.registered && s.armed && s.fetched.isEmpty && s.loop ≠ .stopped &&
    (event.hangUp || event.epollIn || event.epollOut) &&
    (!event.epollIn || s.interest.epollIn) && (!event.epollOut || s.interest.epollOut)

section Fields

variable (s : ClientState)

@[simp] theorem modifyEpoll_loop (interest : Interest) :
    (s.modifyEpoll interest).loop = s.loop := by
  rw [modifyEpoll]
  split <;> rfl

@[simp] theorem modifyEpoll_inMap (interest : Interest) :
    (s.modifyEpoll interest).inMap = s.inMap := by
  rw [modifyEpoll]
  split <;> rfl

@[simp] theorem modifyEpoll_registered (interest : Interest) :
    (s.modifyEpoll interest).registered = s.registered := by
  rw [modifyEpoll]
  split <;> rfl

@[simp] theorem modifyEpoll_fetched (interest : Interest) :
    (s.modifyEpoll interest).fetched = s.fetched := by
  rw [modifyEpoll]
  split <;> rfl

@[simp] theorem modifyEpoll_tasks (interest : Interest) :
    (s.modifyEpoll interest).tasks = s.tasks := by
  rw [modifyEpoll]
  split <;> rfl

@[simp] theorem modifyEpoll_conn (interest : Interest) :
    (s.modifyEpoll interest).conn = s.conn := by
  rw [modifyEpoll]
  split <;> rfl

@[simp] theorem modifyEpoll_history (interest : Interest) :
    (s.modifyEpoll interest).history = s.history := by
  rw [modifyEpoll]
  split <;> rfl

theorem modifyEpoll_interest (hregistered : s.registered = true) (interest : Interest) :
    (s.modifyEpoll interest).interest = interest := by
  rw [modifyEpoll, if_pos hregistered]

@[simp] theorem updateEpoll_history (fullyFlushed : Bool) :
    (s.updateEpoll fullyFlushed).history = s.history := by
  rw [updateEpoll]
  split
  · split <;> simp
  · simp

theorem enact_eq (work : TaskSection) :
    ∃ armed interest, s.enact work =
      { s with
        conn := work.conn
        history := s.history.record work
        tasks := work.decision.followUps ++ s.tasks
        armed
        interest } ∧
      (∀ asked resubmit, work.decision = .rearmed asked resubmit →
        s.registered = true → interest = asked) ∧
      (work.decision.removes = true → interest = s.interest) := by
  simp only [enact]
  cases hdecision : work.decision with
  | remove cause => exact ⟨s.armed, s.interest, rfl, by simp, fun _ => rfl⟩
  | updateEpoll fullyFlushed => exact ⟨s.armed, s.interest, rfl, by simp, fun _ => rfl⟩
  | rearmed asked resubmit =>
      simp only [modifyEpoll]
      split
      · refine ⟨true, asked, rfl, ?_, by simp [Decision.removes]⟩
        intro other _ heq _
        exact (Decision.rearmed.inj heq).1
      · next hnot => exact ⟨s.armed, s.interest, rfl, by simp [hnot], by simp [Decision.removes]⟩

end Fields

end ClientState

section Step

variable (router : HttpRouter) (order : HeaderOrder)

/-- One step of the system, where it is possible. -/
def step (s : ClientState) : Action → Option ClientState
  | .deliver event =>
      if s.canDeliver event then
        some { s with armed := false, fetched := event.dispatches }
      else none
  | .dispatch =>
      match s.fetched with
      | [] => none
      | first :: rest => some ({ s with fetched := rest }.handleDispatch first)
  | .read input =>
      if .read ∈ s.tasks then
        some ((s.finish .read).enact (readSection router order s.loop input s.conn))
      else none
  | .write sends =>
      if .write ∈ s.tasks then
        some ((s.finish .write).enact (writeSection sends s.conn))
      else none
  | .resubmitted =>
      if .resubmitted ∈ s.tasks then some (s.finish .resubmitted).handleClientRead
      else none
  | .updateEpoll fullyFlushed =>
      if .updateEpoll fullyFlushed ∈ s.tasks then
        some ((s.finish (.updateEpoll fullyFlushed)).updateEpoll fullyFlushed)
      else none
  | .remove cause =>
      if .remove cause ∈ s.tasks then some ((s.finish (.remove cause)).eraseFromMap cause)
      else none
  | .unregister =>
      if .unregister ∈ s.tasks then
        some { s.finish .unregister with registered := false, armed := false }
      else none
  | .idleTimeout => if s.inMap then some (s.disturb.eraseFromMap .idleTimeout) else none
  | .stop => if s.loop = .running then some { s with loop := .stopping } else none
  | .shutdown =>
      if s.loop = .stopping then
        some { s.disturb.eraseFromMap .shutdown with loop := .stopped }
      else none

/-- What a step can be: its kind, when it is possible and where it leads. -/
inductive Steps : ClientState → Action → ClientState → Prop
  | deliver {s : ClientState} {event : EpollEvent} (hcan : s.canDeliver event = true) :
      Steps s (.deliver event) { s with armed := false, fetched := event.dispatches }
  | dispatch {s : ClientState} {first : Dispatch} {rest : List Dispatch}
      (hfetched : s.fetched = first :: rest) :
      Steps s .dispatch ({ s with fetched := rest }.handleDispatch first)
  | read {s : ClientState} {input : ReadInput} (hmem : .read ∈ s.tasks) :
      Steps s (.read input)
        ((s.finish .read).enact (readSection router order s.loop input s.conn))
  | write {s : ClientState} {sends : List SendResult} (hmem : .write ∈ s.tasks) :
      Steps s (.write sends) ((s.finish .write).enact (writeSection sends s.conn))
  | resubmitted {s : ClientState} (hmem : .resubmitted ∈ s.tasks) :
      Steps s .resubmitted (s.finish .resubmitted).handleClientRead
  | updateEpoll {s : ClientState} {fullyFlushed : Bool}
      (hmem : .updateEpoll fullyFlushed ∈ s.tasks) :
      Steps s (.updateEpoll fullyFlushed)
        ((s.finish (.updateEpoll fullyFlushed)).updateEpoll fullyFlushed)
  | remove {s : ClientState} {cause : RemovalCause} (hmem : .remove cause ∈ s.tasks) :
      Steps s (.remove cause) ((s.finish (.remove cause)).eraseFromMap cause)
  | unregister {s : ClientState} (hmem : .unregister ∈ s.tasks) :
      Steps s .unregister { s.finish .unregister with registered := false, armed := false }
  | idleTimeout {s : ClientState} (hinMap : s.inMap = true) :
      Steps s .idleTimeout (s.disturb.eraseFromMap .idleTimeout)
  | stop {s : ClientState} (hloop : s.loop = .running) :
      Steps s .stop { s with loop := .stopping }
  | shutdown {s : ClientState} (hloop : s.loop = .stopping) :
      Steps s .shutdown { s.disturb.eraseFromMap .shutdown with loop := .stopped }

variable {router order}

theorem steps_of_step {s s' : ClientState} {action : Action}
    (hstep : step router order s action = some s') : Steps router order s action s' := by
  cases action with
  | dispatch =>
      simp only [step] at hstep
      split at hstep
      · contradiction
      · next hfetched =>
          obtain rfl := Option.some.inj hstep
          exact .dispatch hfetched
  | _ =>
      simp only [step, Option.ite_none_right_eq_some] at hstep
      obtain ⟨hpossible, heq⟩ := hstep
      obtain rfl := Option.some.inj heq
      constructor
      exact hpossible

end Step

/-- A connection in the map is registered with epoll. -/
def RegisteredInMap (s : ClientState) : Prop :=
  s.inMap = true → s.registered = true ∧ .unregister ∉ s.tasks

namespace RegisteredInMap

variable {s : ClientState}

theorem start : RegisteredInMap {} := fun _ => ⟨rfl, by simp⟩

theorem eraseFromMap (hreg : RegisteredInMap s) (cause : RemovalCause) :
    RegisteredInMap (s.eraseFromMap cause) := by
  rw [ClientState.eraseFromMap]
  split
  · simp [RegisteredInMap]
  · exact hreg

theorem disturb (hreg : RegisteredInMap s) : RegisteredInMap s.disturb := hreg

theorem handleClientRead (hreg : RegisteredInMap s) :
    RegisteredInMap s.handleClientRead := by
  rw [ClientState.handleClientRead]
  split
  · simpa [RegisteredInMap] using hreg
  · exact hreg

theorem handleClientWrite (hreg : RegisteredInMap s) :
    RegisteredInMap s.handleClientWrite := by
  rw [ClientState.handleClientWrite]
  split
  · simpa [RegisteredInMap] using hreg
  · exact hreg

theorem finish (hreg : RegisteredInMap s) (task : Task) : RegisteredInMap (s.finish task) :=
  fun hinMap => ⟨(hreg hinMap).1, fun hmem => (hreg hinMap).2 (List.mem_of_mem_erase hmem)⟩

theorem enact (hreg : RegisteredInMap s) (work : TaskSection) :
    RegisteredInMap (s.enact work) := by
  obtain ⟨armed, interest, heq, _⟩ := s.enact_eq work
  rw [heq]
  intro hinMap
  refine ⟨(hreg hinMap).1, ?_⟩
  cases hdecision : work.decision with
  | remove cause => simpa [Decision.followUps] using (hreg hinMap).2
  | updateEpoll fullyFlushed => simpa [Decision.followUps] using (hreg hinMap).2
  | rearmed asked resubmit =>
      cases resubmit <;> simpa [Decision.followUps] using (hreg hinMap).2

theorem updateEpoll (hreg : RegisteredInMap s) (fullyFlushed : Bool) :
    RegisteredInMap (s.updateEpoll fullyFlushed) := by
  rw [ClientState.updateEpoll]
  split
  · split <;> simpa [RegisteredInMap] using hreg
  · simpa [RegisteredInMap] using hreg

theorem step {router : HttpRouter} {order : HeaderOrder} {s' : ClientState}
    {action : Action} (hreg : RegisteredInMap s)
    (hstep : HttpServer.step router order s action = some s') : RegisteredInMap s' := by
  cases steps_of_step hstep with
  | deliver _ => exact hreg
  | @dispatch first rest _ =>
      have hpopped : RegisteredInMap { s with fetched := rest } := hreg
      cases first with
      | hangUp => exact hpopped.disturb.eraseFromMap .hangUp
      | readable => exact hpopped.handleClientRead
      | writable => exact hpopped.handleClientWrite
  | read _ => exact (hreg.finish .read).enact _
  | write _ => exact (hreg.finish .write).enact _
  | resubmitted _ => exact (hreg.finish .resubmitted).handleClientRead
  | updateEpoll _ => exact (hreg.finish _).updateEpoll _
  | remove _ => exact (hreg.finish _).eraseFromMap _
  | unregister hmem => exact fun hinMap => absurd hmem (hreg hinMap).2
  | idleTimeout _ => exact hreg.disturb.eraseFromMap .idleTimeout
  | stop _ => exact hreg
  | shutdown _ => exact hreg.disturb.eraseFromMap .shutdown

end RegisteredInMap

end HttpServer
