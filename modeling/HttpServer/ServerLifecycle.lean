/-
The server from `start` to the end of `run`, with calls of `stop` that a signal
may make on any thread.  `stop` and `run` share two flags and a start time, and
every test and every write of one of them is a step of its own; the steps of
the event loop and of the worker tasks are those of the connection model.
-/
import HttpServer.Admission

namespace HttpServer

open GuardedRun

/-- `SHUTDOWN_TIMEOUT` in ticks of the steady clock. -/
def shutdownTimeout : Nat := 5000 * 1000000

/-- Where `TcpServer::run` is. -/
inductive RunPc where
  | notCalled
  /-- `is_running` was seen true, `state.store(RUNNING)` is next. -/
  | tested
  | looping
  /-- `STOPPING` was seen behind a batch, the look at the map is next. -/
  | draining
  /-- The look at the clock is next. -/
  | counted (noActiveConnections : Bool)
  /-- `state.store(STOPPED)` is next. -/
  | exiting (noActiveConnections : Bool)
  | left
deriving DecidableEq

/-- `run` has not reached its `state.store(RUNNING)`. -/
def RunPc.early : RunPc → Bool
  | notCalled | tested => true
  | _ => false

theorem RunPc.ne_tested_of_early {pc : RunPc} (hearly : pc.early = false) : pc ≠ .tested := by
  rintro rfl
  contradiction

/-- `run` has seen `STOPPING` and is about to decide. -/
def RunPc.deciding : RunPc → Bool
  | draining | counted _ | exiting _ => true
  | _ => false

/-- Where a call of `TcpServer::stop` is. -/
inductive StopPc where
  /-- The test of `is_running` is next. -/
  | testing
  | clearing
  /-- In `EventLoop::stop`, before the compare-exchange. -/
  | exchanging
  /-- Before the write of `shutdown_start`. -/
  | writing
  | waking
deriving DecidableEq

structure StopCall where
  pc : StopPc := .testing
  /-- The call was made after `start` had succeeded. -/
  afterStart : Bool
  /-- When `EventLoop::stop` was entered. -/
  began : Nat := 0
deriving DecidableEq

/-- The moment `STOPPED` is stored: the connections still in the map, the time, and when
the `stop` that left `RUNNING` began. -/
structure Transition where
  connections : List ConnRef
  time : Nat
  began : Option Nat
deriving DecidableEq

structure Lifecycle where
  clock : Nat
  server : ServerState := { loop := .stopped, listening := false, epollOpen := false }
  started : Bool := false
  isRunning : Bool := false
  /-- The epoch of the clock until it is written. -/
  shutdownStart : Nat := 0
  runPc : RunPc := .notCalled
  stops : List StopCall := []
  /-- A call made after `start` had succeeded has returned. -/
  stopReturned : Bool := false
  /-- When the call whose compare-exchange left `RUNNING` began. -/
  leftRunning : Option Nat := none
  transition : Option Transition := none

inductive LifecycleAction where
  | tick (elapsed : Nat)
  | start
  | callRun
  | storeRunning
  | serve (action : ServerAction)
  | seeStopping
  | countMap
  | compareTime
  | storeStopped
  | leaveLoop
  | callStop
  | stopStep (call : StopCall)
deriving DecidableEq

/-- Steps that only the thread of `run` makes, inside its loop. -/
def ServerAction.inLoop : ServerAction → Bool
  | .fetch _ | .dispatch | .collectIdle _ | .removeIdle | .closeListener => true
  | _ => false

/-- Steps that are taken apart here. -/
def ServerAction.isLifecycle : ServerAction → Bool
  | .stop | .finishStopping => true
  | _ => false

/-- The cleanup follows the loop. -/
def ServerAction.allowed (action : ServerAction) (pc : RunPc) : Bool :=
  !action.isLifecycle && (!action.inLoop || pc = .looping) &&
    (action ≠ .cleanup || pc = .left)

namespace Lifecycle

def withLoop (s : Lifecycle) (loop : LoopState) : Lifecycle :=
  { s with server := { s.server with loop } }

/-- A call of `stop` moves on. -/
def replaceStop (s : Lifecycle) (call moved : StopCall) : Lifecycle :=
  { s with stops := moved :: s.stops.erase call }

/-- A call of `stop` returns. -/
def returnStop (s : Lifecycle) (call : StopCall) : Lifecycle :=
  { s with stops := s.stops.erase call, stopReturned := s.stopReturned || call.afterStart }

/-- The next step of a call of `stop`. -/
def stopStep (s : Lifecycle) (call : StopCall) : Lifecycle :=
  match call.pc with
  | .testing =>
      if s.isRunning then s.replaceStop call { call with pc := .clearing }
      else s.returnStop call
  | .clearing =>
      { s.replaceStop call { call with pc := .exchanging, began := s.clock } with
        isRunning := false }
  | .exchanging =>
      if s.server.loop = .running then
        { (s.withLoop .stopping).replaceStop call { call with pc := .writing } with
          leftRunning := some call.began }
      else s.returnStop call
  | .writing =>
      { s.replaceStop call { call with pc := .waking } with shutdownStart := s.clock }
  | .waking => s.returnStop call

def step (s : Lifecycle) : LifecycleAction → Option Lifecycle
  | .tick elapsed => some { s with clock := s.clock + elapsed }
  | .start =>
      if s.started then none
      else
        some { s with
          started := true
          isRunning := true
          server := { s.server with listening := true, epollOpen := true } }
  | .callRun =>
      if s.started ∧ s.runPc = .notCalled then
        some { s with runPc := if s.isRunning then .tested else .left }
      else none
  | .storeRunning =>
      if s.runPc = .tested then some { s.withLoop .running with runPc := .looping } else none
  | .serve action =>
      if s.started ∧ action.allowed s.runPc then
        (s.server.step action).map fun server => { s with server }
      else none
  | .seeStopping =>
      if s.runPc = .looping ∧ s.server.waiting ∧ s.server.loop = .stopping then
        some { s with runPc := .draining }
      else none
  | .countMap =>
      if s.runPc = .draining then
        some { s with runPc := .counted s.server.connections.isEmpty }
      else none
  | .compareTime =>
      match s.runPc with
      | .counted noActiveConnections =>
          some { s with
            runPc :=
              if noActiveConnections ∨ shutdownTimeout ≤ s.clock - s.shutdownStart then
                .exiting noActiveConnections
              else .looping }
      | _ => none
  | .storeStopped =>
      match s.runPc with
      | .exiting _ =>
          some { s.withLoop .stopped with
            runPc := .looping
            transition := some ⟨s.server.connections, s.clock, s.leftRunning⟩ }
      | _ => none
  | .leaveLoop =>
      -- the loop condition is false, or `epoll_wait` has failed
      if s.runPc = .looping ∧ s.server.waiting then some { s with runPc := .left } else none
  | .callStop => some { s with stops := { afterStart := s.started } :: s.stops }
  | .stopStep call => if call ∈ s.stops then some (s.stopStep call) else none

/-- What a step of a call of `stop` can be, and where it leads. -/
inductive Stops (s : Lifecycle) (call : StopCall) : Lifecycle → Prop
  | tested (hpc : call.pc = .testing) (hrunning : s.isRunning = true) :
      Stops s call (s.replaceStop call { call with pc := .clearing })
  | refused (hpc : call.pc = .testing) (hrunning : s.isRunning = false) :
      Stops s call (s.returnStop call)
  | cleared (hpc : call.pc = .clearing) :
      Stops s call
        { s.replaceStop call { call with pc := .exchanging, began := s.clock } with
          isRunning := false }
  | exchanged (hpc : call.pc = .exchanging) (hloop : s.server.loop = .running) :
      Stops s call
        { (s.withLoop .stopping).replaceStop call { call with pc := .writing } with
          leftRunning := some call.began }
  | failed (hpc : call.pc = .exchanging) (hloop : s.server.loop ≠ .running) :
      Stops s call (s.returnStop call)
  | written (hpc : call.pc = .writing) :
      Stops s call
        { s.replaceStop call { call with pc := .waking } with shutdownStart := s.clock }
  | woken (hpc : call.pc = .waking) : Stops s call (s.returnStop call)

theorem stops_stopStep (s : Lifecycle) (call : StopCall) : Stops s call (s.stopStep call) := by
  rw [stopStep]
  cases hpc : call.pc with
  | testing =>
      dsimp only
      split
      · next hrunning => exact .tested hpc hrunning
      · next hrunning => exact .refused hpc (by simpa using hrunning)
  | clearing => exact .cleared hpc
  | exchanging =>
      dsimp only
      split
      · next hloop => exact .exchanged hpc hloop
      · next hloop => exact .failed hpc hloop
  | writing => exact .written hpc
  | waking => exact .woken hpc

/-- What a step can be, and where it leads. -/
inductive Moves (s : Lifecycle) : LifecycleAction → Lifecycle → Prop
  | tick (elapsed : Nat) : Moves s (.tick elapsed) { s with clock := s.clock + elapsed }
  | start (hstarted : s.started = false) :
      Moves s .start
        { s with
          started := true
          isRunning := true
          server := { s.server with listening := true, epollOpen := true } }
  | callRun (hstarted : s.started = true) (hpc : s.runPc = .notCalled) :
      Moves s .callRun { s with runPc := if s.isRunning then .tested else .left }
  | storeRunning (hpc : s.runPc = .tested) :
      Moves s .storeRunning { s.withLoop .running with runPc := .looping }
  | serve (action : ServerAction) (server : ServerState) (hstarted : s.started = true)
      (hlifecycle : action.isLifecycle = false)
      (hsteps : ServerState.Steps s.server action server) :
      Moves s (.serve action) { s with server }
  | seeStopping (hpc : s.runPc = .looping) (hloop : s.server.loop = .stopping) :
      Moves s .seeStopping { s with runPc := .draining }
  | countMap (hpc : s.runPc = .draining) :
      Moves s .countMap { s with runPc := .counted s.server.connections.isEmpty }
  | exit (noActiveConnections : Bool) (hpc : s.runPc = .counted noActiveConnections)
      (hexit : noActiveConnections = true ∨ shutdownTimeout ≤ s.clock - s.shutdownStart) :
      Moves s .compareTime { s with runPc := .exiting noActiveConnections }
  | stay (noActiveConnections : Bool) (hpc : s.runPc = .counted noActiveConnections)
      (hstay : ¬ (noActiveConnections = true ∨ shutdownTimeout ≤ s.clock - s.shutdownStart)) :
      Moves s .compareTime { s with runPc := .looping }
  | storeStopped (noActiveConnections : Bool) (hpc : s.runPc = .exiting noActiveConnections) :
      Moves s .storeStopped
        { s.withLoop .stopped with
          runPc := .looping
          transition := some ⟨s.server.connections, s.clock, s.leftRunning⟩ }
  | leaveLoop (hpc : s.runPc = .looping) : Moves s .leaveLoop { s with runPc := .left }
  | callStop : Moves s .callStop { s with stops := { afterStart := s.started } :: s.stops }
  | stopStep (call : StopCall) (s' : Lifecycle) (hmem : call ∈ s.stops)
      (hstops : Stops s call s') : Moves s (.stopStep call) s'

theorem moves_of_step {s s' : Lifecycle} {action : LifecycleAction}
    (hstep : s.step action = some s') : Moves s action s' := by
  cases action with
  | tick elapsed =>
      obtain rfl := Option.some.inj hstep
      exact .tick elapsed
  | start =>
      rw [step] at hstep
      split at hstep
      · contradiction
      · next hstarted =>
          obtain rfl := Option.some.inj hstep
          exact .start (by simpa using hstarted)
  | callRun =>
      rw [step, Option.ite_none_right_eq_some] at hstep
      obtain ⟨⟨hstarted, hpc⟩, heq⟩ := hstep
      obtain rfl := Option.some.inj heq
      exact .callRun hstarted hpc
  | storeRunning =>
      rw [step, Option.ite_none_right_eq_some] at hstep
      obtain ⟨hpc, heq⟩ := hstep
      obtain rfl := Option.some.inj heq
      exact .storeRunning hpc
  | serve action =>
      rw [step, Option.ite_none_right_eq_some] at hstep
      obtain ⟨⟨hstarted, hallowed⟩, heq⟩ := hstep
      obtain ⟨server, hserver, rfl⟩ := Option.map_eq_some_iff.mp heq
      simp only [ServerAction.allowed, Bool.and_eq_true, Bool.not_eq_true'] at hallowed
      exact .serve action server hstarted hallowed.1.1 (ServerState.steps_of_step hserver)
  | seeStopping =>
      rw [step, Option.ite_none_right_eq_some] at hstep
      obtain ⟨⟨hpc, _, hloop⟩, heq⟩ := hstep
      obtain rfl := Option.some.inj heq
      exact .seeStopping hpc hloop
  | countMap =>
      rw [step, Option.ite_none_right_eq_some] at hstep
      obtain ⟨hpc, heq⟩ := hstep
      obtain rfl := Option.some.inj heq
      exact .countMap hpc
  | compareTime =>
      rw [step] at hstep
      split at hstep
      · next noActiveConnections hpc =>
          obtain rfl := Option.some.inj hstep
          split
          · next hexit => exact .exit noActiveConnections hpc hexit
          · next hstay => exact .stay noActiveConnections hpc hstay
      · contradiction
  | storeStopped =>
      rw [step] at hstep
      split at hstep
      · next noActiveConnections hpc =>
          obtain rfl := Option.some.inj hstep
          exact .storeStopped noActiveConnections hpc
      · contradiction
  | leaveLoop =>
      rw [step, Option.ite_none_right_eq_some] at hstep
      obtain ⟨⟨hpc, _⟩, heq⟩ := hstep
      obtain rfl := Option.some.inj heq
      exact .leaveLoop hpc
  | callStop =>
      obtain rfl := Option.some.inj hstep
      exact .callStop
  | stopStep call =>
      rw [step, Option.ite_none_right_eq_some] at hstep
      obtain ⟨hmem, heq⟩ := hstep
      obtain rfl := Option.some.inj heq
      exact .stopStep call _ hmem (stops_stopStep s call)

section Flags

variable {s s' : Lifecycle} {action : LifecycleAction} {call : StopCall}

/-- The other steps of the event loop and its workers leave the state of the loop alone. -/
theorem loop_of_serve {server server' : ServerState} {action : ServerAction}
    (hlifecycle : action.isLifecycle = false)
    (hsteps : ServerState.Steps server action server') : server'.loop = server.loop := by
  cases hsteps with
  | advance e outcome _ hmem hadvances =>
      cases hadvances with
      | unregistered conn hpc hremoved =>
          simp only [ServerState.unregister]
          split <;> rfl
      | _ => rfl
  | stop hloop => contradiction
  | finishStopping => contradiction
  | _ => rfl

/-- What is known of a call from the place it has reached. -/
def CallFits (s : Lifecycle) (call : StopCall) : Prop :=
  match call.pc with
  | .testing => call.afterStart = true → s.started = true
  | .clearing => s.started = true
  | .exchanging => s.started = true ∧ s.isRunning = false
  | .writing | .waking =>
      s.started = true ∧ s.isRunning = false ∧ s.server.loop ≠ .running ∧
        s.runPc.early = false

/-- What no later step takes back. -/
structure Follows (s s' : Lifecycle) : Prop where
  started : s.started = true → s'.started = true
  cleared : s.started = true → s.isRunning = false → s'.isRunning = false
  settled : s.server.loop ≠ .running → s.runPc.early = false →
    s'.server.loop ≠ .running ∧ s'.runPc.early = false

theorem follows_of_stops (hstops : Stops s call s') : Follows s s' := by
  cases hstops with
  | cleared hpc => exact ⟨id, fun _ _ => rfl, fun hloop hearly => ⟨hloop, hearly⟩⟩
  | exchanged hpc hloop =>
      exact ⟨id, fun _ hcleared => hcleared, fun hother _ => absurd hloop hother⟩
  | _ => exact ⟨id, fun _ hcleared => hcleared, fun hloop hearly => ⟨hloop, hearly⟩⟩

theorem follows_of_moves (hmoves : Moves s action s') : Follows s s' := by
  cases hmoves with
  | start hstarted =>
      refine ⟨fun _ => rfl, fun hother => ?_, fun hloop hearly => ⟨hloop, hearly⟩⟩
      rw [hstarted] at hother
      contradiction
  | callRun hstarted hpc =>
      refine ⟨id, fun _ hcleared => hcleared, fun _ hearly => ?_⟩
      rw [hpc] at hearly
      contradiction
  | storeRunning hpc =>
      refine ⟨id, fun _ hcleared => hcleared, fun _ hearly => ?_⟩
      rw [hpc] at hearly
      contradiction
  | serve action server hstarted hlifecycle hsteps =>
      refine ⟨id, fun _ hcleared => hcleared, fun hloop hearly => ⟨?_, hearly⟩⟩
      rw [loop_of_serve hlifecycle hsteps]
      exact hloop
  | storeStopped noActiveConnections hpc =>
      exact ⟨id, fun _ hcleared => hcleared, fun _ _ => ⟨nofun, rfl⟩⟩
  | stopStep call s' hmem hstops => exact follows_of_stops hstops
  | tick | callStop =>
      exact ⟨id, fun _ hcleared => hcleared, fun hloop hearly => ⟨hloop, hearly⟩⟩
  | seeStopping | countMap | exit | stay | leaveLoop =>
      exact ⟨id, fun _ hcleared => hcleared, fun hloop _ => ⟨hloop, rfl⟩⟩

theorem CallFits.follow (hfits : s.CallFits call) (hfollows : Follows s s') :
    s'.CallFits call := by
  unfold CallFits at hfits ⊢
  split at hfits
  · exact fun hafter => hfollows.started (hfits hafter)
  · exact hfollows.started hfits
  · exact ⟨hfollows.started hfits.1, hfollows.cleared hfits.1 hfits.2⟩
  all_goals
    obtain ⟨hstarted, hcleared, hloop, hearly⟩ := hfits
    exact ⟨hfollows.started hstarted, hfollows.cleared hstarted hcleared,
      hfollows.settled hloop hearly⟩

/-- What holds of the two flags and of the calls under way in every state. -/
structure StopsFit (s : Lifecycle) : Prop where
  early : s.runPc.early = true → s.server.loop = .stopped
  running : s.isRunning = true → s.started = true
  returned : s.stopReturned = true → s.started = true ∧ s.isRunning = false
  calls : ∀ call ∈ s.stops, s.CallFits call

theorem stopsFit_initial (clock : Nat) : StopsFit { clock } :=
  ⟨fun _ => rfl, nofun, nofun, nofun⟩

theorem StopsFit.early_of_running (hfits : s.StopsFit) (hloop : s.server.loop = .running) :
    s.runPc.early = false := by
  rw [Bool.eq_false_iff]
  intro hearly
  have hstopped := hfits.early hearly
  rw [hloop] at hstopped
  contradiction

/-- Every call still fits after one of them has moved. -/
theorem calls_of_stops (hfits : s.StopsFit) (hmem : call ∈ s.stops)
    (hstops : Stops s call s') : ∀ other ∈ s'.stops, s'.CallFits other := by
  have hfollows := follows_of_stops hstops
  have hkept : ∀ other ∈ s.stops.erase call, s'.CallFits other := fun other hother =>
    (hfits.calls other (List.mem_of_mem_erase hother)).follow hfollows
  have hcall := hfits.calls call hmem
  unfold CallFits at hcall
  cases hstops with
  | refused | failed | woken => exact hkept
  | tested hpc hrunning =>
      refine List.forall_mem_cons.mpr ⟨?_, hkept⟩
      exact hfits.running hrunning
  | cleared hpc =>
      rw [hpc] at hcall
      refine List.forall_mem_cons.mpr ⟨?_, hkept⟩
      exact ⟨hcall, rfl⟩
  | exchanged hpc hloop =>
      rw [hpc] at hcall
      refine List.forall_mem_cons.mpr ⟨⟨hcall.1, hcall.2, nofun, ?_⟩, hkept⟩
      exact hfits.early_of_running hloop
  | written hpc =>
      rw [hpc] at hcall
      exact List.forall_mem_cons.mpr ⟨hcall, hkept⟩

theorem stopsFit_of_stops (hfits : s.StopsFit) (hmem : call ∈ s.stops)
    (hstops : Stops s call s') : s'.StopsFit := by
  have hcalls := calls_of_stops hfits hmem hstops
  have hcall := hfits.calls call hmem
  unfold CallFits at hcall
  cases hstops with
  | tested hpc hrunning => exact ⟨hfits.early, hfits.running, hfits.returned, hcalls⟩
  | refused hpc hrunning =>
      rw [hpc] at hcall
      refine ⟨hfits.early, hfits.running, fun hreturned => ?_, hcalls⟩
      rcases (Bool.or_eq_true _ _).mp hreturned with hreturned | hafter
      · exact hfits.returned hreturned
      · exact ⟨hcall hafter, hrunning⟩
  | cleared hpc =>
      exact ⟨hfits.early, nofun, fun hreturned => ⟨(hfits.returned hreturned).1, rfl⟩, hcalls⟩
  | exchanged hpc hloop =>
      refine ⟨fun hearly => ?_, hfits.running, hfits.returned, hcalls⟩
      exact absurd hearly (Bool.eq_false_iff.mp (hfits.early_of_running hloop))
  | failed hpc hloop =>
      rw [hpc] at hcall
      exact ⟨hfits.early, hfits.running, fun _ => hcall, hcalls⟩
  | written hpc => exact ⟨hfits.early, hfits.running, hfits.returned, hcalls⟩
  | woken hpc =>
      rw [hpc] at hcall
      exact ⟨hfits.early, hfits.running, fun _ => ⟨hcall.1, hcall.2.1⟩, hcalls⟩

theorem stopsFit_step (s : Lifecycle) (action : LifecycleAction) (s' : Lifecycle)
    (hfits : s.StopsFit) (hstep : s.step action = some s') : s'.StopsFit := by
  have hmoves := moves_of_step hstep
  have hfollows := follows_of_moves hmoves
  have hkept : ∀ call ∈ s.stops, s'.CallFits call := fun call hmem =>
    (hfits.calls call hmem).follow hfollows
  cases hmoves with
  | tick elapsed => exact ⟨hfits.early, hfits.running, hfits.returned, hkept⟩
  | start hstarted =>
      refine ⟨hfits.early, fun _ => rfl, fun hreturned => ?_, hkept⟩
      have hother := (hfits.returned hreturned).1
      rw [hstarted] at hother
      contradiction
  | callRun hstarted hpc =>
      refine ⟨fun _ => hfits.early ?_, hfits.running, hfits.returned, hkept⟩
      rw [hpc]
      rfl
  | storeRunning hpc => exact ⟨nofun, hfits.running, hfits.returned, hkept⟩
  | serve action server hstarted hlifecycle hsteps =>
      refine ⟨fun hearly => ?_, hfits.running, hfits.returned, hkept⟩
      rw [loop_of_serve hlifecycle hsteps]
      exact hfits.early hearly
  | callStop =>
      refine ⟨hfits.early, hfits.running, hfits.returned, ?_⟩
      exact List.forall_mem_cons.mpr ⟨id, hkept⟩
  | stopStep call s' hmem hstops => exact stopsFit_of_stops hfits hmem hstops
  | seeStopping | countMap | exit | stay | storeStopped | leaveLoop =>
      exact ⟨nofun, hfits.running, hfits.returned, hkept⟩

end Flags

/-- A call of `stop` made after `start`, from its test through its compare-exchange. -/
def stopExchanges (began : Nat) : List LifecycleAction :=
  [.callStop, .stopStep { afterStart := true }, .stopStep { pc := .clearing, afterStart := true },
    .stopStep { pc := .exchanging, afterStart := true, began }]

end Lifecycle

end HttpServer
