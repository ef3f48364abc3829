/-
The body of the event loop in the order of its statements.  The lifecycle lets
the thread of `run` take its steps in any order; here each has its place, and
every run in that order is a run of the lifecycle.
-/
import HttpServer.IdleReaping
import HttpServer.ServerLifecycle

namespace HttpServer

open GuardedRun

/-- Where `EventLoop::run` is. -/
inductive LoopPlace where
  /-- `last_timeout_check` is still to be set. -/
  | begun
  /-- The loop condition is next. -/
  | top
  /-- The test of `STOPPING` that closes the listening socket is next. -/
  | listener
  /-- `epoll_wait` is next. -/
  | polling
  | dispatching
  /-- The test of `STOPPING` behind the batch, and what follows it. -/
  | checking
  /-- `check_idle_timeouts` has been called. -/
  | sweeping
  /-- The interval has passed, the map is looked through next. -/
  | collecting
  | purging
deriving DecidableEq

/-- A step of the thread of `run` inside `EventLoop::run`. -/
inductive LoopStep where
  | noteTime
  | enter
  | leave
  | closeListener
  | keepListener
  /-- `epoll_wait` fails with `EINTR`. -/
  | interrupted
  | pollFailed
  | fetch (batch : List Fetched)
  | dispatch
  | execute (e : Exec) (outcome : Outcome)
  | endBatch
  | seeStopping
  | skipCheck
  | countMap
  | compareTime
  | storeStopped
  | checkInterval
  | notDue
  | collectIdle (targets : List Target)
  | removeIdle
  | endSweep
deriving DecidableEq

/-- What the step does to the flags and the connections. -/
def LoopStep.action? : LoopStep → Option LifecycleAction
  | leave | pollFailed => some .leaveLoop
  | closeListener => some (.serve .closeListener)
  | fetch batch => some (.serve (.fetch batch))
  | dispatch => some (.serve .dispatch)
  | execute e outcome => some (.serve (.advance e outcome))
  | seeStopping => some .seeStopping
  | countMap => some .countMap
  | compareTime => some .compareTime
  | storeStopped => some .storeStopped
  | collectIdle targets => some (.serve (.collectIdle targets))
  | removeIdle => some (.serve .removeIdle)
  | noteTime | enter | keepListener | interrupted | endBatch | skipCheck | checkInterval | notDue
  | endSweep => none

def LoopStep.effect (step : LoopStep) (life : Lifecycle) : Option Lifecycle :=
  match step.action? with
  | some action => life.step action
  | none => if life.runPc = .looping then some life else none

/-- Steps of the lifecycle that only the body of the loop makes. -/
def LifecycleAction.inBody : LifecycleAction → Bool
  | .serve (.advance e _) => e.task.isNone
  | .serve action => action.inLoop
  | .seeStopping | .countMap | .compareTime | .storeStopped | .leaveLoop => true
  | _ => false

inductive PassAction where
  | own (step : LoopStep)
  /-- A step of another thread, of the clock, or of this one outside the loop. -/
  | other (action : LifecycleAction)
deriving DecidableEq

def PassAction.isOwn : PassAction → Bool
  | own _ => true
  | other _ => false

def PassAction.lifecycle : PassAction → List LifecycleAction
  | own step => step.action?.toList
  | other action => [action]

structure LoopPass where
  life : Lifecycle
  place : LoopPlace := .begun
  lastTimeoutCheck : Nat := 0

namespace LoopPass

/-- `state == STOPPING && server_fd >= 0`. -/
def closesListener (s : LoopPass) : Bool :=
  s.life.server.loop = .stopping && s.life.server.listening

/-- `CHECK_INTERVAL_SECONDS` have passed since the last sweep. -/
def sweepDue (s : LoopPass) : Bool :=
  !(s.life.clock - s.lastTimeoutCheck < checkInterval)

/-- The step is the next statement, or the branch that its test selects. -/
def permits (s : LoopPass) : LoopStep → Bool
  | .noteTime => s.place = .begun
  | .enter => s.place = .top && s.life.server.loop ≠ .stopped
  | .leave => s.place = .top && s.life.server.loop = .stopped
  | .closeListener => s.place = .listener && s.closesListener
  | .keepListener => s.place = .listener && !s.closesListener
  | .interrupted | .pollFailed | .fetch _ => s.place = .polling
  | .dispatch => s.place = .dispatching
  | .execute e _ => (s.place = .dispatching || s.place = .purging) && e.task.isNone
  | .endBatch => s.place = .dispatching && s.life.server.fetched.isEmpty && !s.life.server.busy
  | .seeStopping | .countMap | .compareTime | .storeStopped => s.place = .checking
  | .skipCheck => s.place = .checking && s.life.server.loop ≠ .stopping
  | .checkInterval => s.place = .sweeping && s.sweepDue
  | .notDue => s.place = .sweeping && !s.sweepDue
  | .collectIdle targets => s.place = .collecting && targets.Nodup
  | .removeIdle => s.place = .purging
  | .endSweep => s.place = .purging && s.life.server.idle.isEmpty && !s.life.server.busy

/-- Where the step leads, with what it has done. -/
def follow (s : LoopPass) (life : Lifecycle) : LoopStep → LoopPass
  | .noteTime => { life, place := .top, lastTimeoutCheck := life.clock }
  | .enter => { s with life, place := .listener }
  | .leave | .pollFailed => { s with life, place := .top }
  | .closeListener | .keepListener => { s with life, place := .polling }
  | .interrupted | .notDue | .endSweep => { s with life, place := .top }
  | .fetch _ => { s with life, place := .dispatching }
  | .endBatch | .seeStopping | .countMap => { s with life, place := .checking }
  | .compareTime =>
      { s with life, place := if life.runPc = .looping then .sweeping else .checking }
  | .skipCheck | .storeStopped => { s with life, place := .sweeping }
  | .checkInterval => { life, place := .collecting, lastTimeoutCheck := life.clock }
  | .collectIdle _ => { s with life, place := .purging }
  | .dispatch | .execute _ _ | .removeIdle => { s with life }

def step (s : LoopPass) : PassAction → Option LoopPass
  | .own step =>
      if s.permits step then (step.effect s.life).map fun life => s.follow life step else none
  | .other action =>
      if action.inBody then none else (s.life.step action).map fun life => { s with life }

variable {s s' : LoopPass} {action : PassAction}

theorem follow_life (s : LoopPass) (life : Lifecycle) (step : LoopStep) :
    (s.follow life step).life = life := by
  cases step <;> rfl

theorem own_of_step {step : LoopStep} (hstep : s.step (.own step) = some s') :
    s.permits step = true ∧ ∃ life, step.effect s.life = some life ∧ s' = s.follow life step := by
  rw [LoopPass.step, Option.ite_none_right_eq_some] at hstep
  obtain ⟨life, heffect, rfl⟩ := Option.map_eq_some_iff.mp hstep.2
  exact ⟨hstep.1, life, heffect, rfl⟩

theorem other_of_step {action : LifecycleAction} (hstep : s.step (.other action) = some s') :
    action.inBody = false ∧ ∃ life, s.life.step action = some life ∧ s' = { s with life } := by
  rw [LoopPass.step, Option.ite_none_left_eq_some] at hstep
  obtain ⟨life, hlife, rfl⟩ := Option.map_eq_some_iff.mp hstep.2
  exact ⟨by simpa using hstep.1, life, hlife, rfl⟩

/-- Each step is one of the lifecycle, or none. -/
theorem lifecycle_step (hstep : s.step action = some s') :
    run Lifecycle.step s.life action.lifecycle = some s'.life := by
  cases action with
  | other action =>
      obtain ⟨-, life, hlife, rfl⟩ := other_of_step hstep
      exact run_of_step hlife []
  | own step =>
      obtain ⟨-, life, heffect, rfl⟩ := own_of_step hstep
      rw [follow_life, PassAction.lifecycle]
      unfold LoopStep.effect at heffect
      cases hact : step.action? with
      | some action =>
          simp only [hact] at heffect
          exact run_of_step heffect []
      | none =>
          simp only [hact, Option.ite_none_right_eq_some] at heffect
          exact heffect.2

theorem lifecycle_run {actions : List PassAction} (hrun : run step s actions = some s') :
    run Lifecycle.step s.life (actions.flatMap PassAction.lifecycle) = some s'.life :=
  run_projected (fun _ _ _ hstep => lifecycle_step hstep) hrun

/-- What a step of the body can be, and where it leads. -/
inductive Owns (s : LoopPass) : LoopStep → LoopPass → Prop
  | noteTime (hplace : s.place = .begun) (hpc : s.life.runPc = .looping) :
      Owns s .noteTime { s with place := .top, lastTimeoutCheck := s.life.clock }
  | enter (hplace : s.place = .top) (hpc : s.life.runPc = .looping)
      (hloop : s.life.server.loop ≠ .stopped) : Owns s .enter { s with place := .listener }
  | leave (hplace : s.place = .top) (hpc : s.life.runPc = .looping)
      (hloop : s.life.server.loop = .stopped) :
      Owns s .leave { s with life := { s.life with runPc := .left }, place := .top }
  | closeListener (server : ServerState) (hplace : s.place = .listener)
      (hpc : s.life.runPc = .looping)
      (hsteps : ServerState.Steps s.life.server .closeListener server) :
      Owns s .closeListener { s with life := { s.life with server }, place := .polling }
  | keepListener (hplace : s.place = .listener) (hpc : s.life.runPc = .looping) :
      Owns s .keepListener { s with place := .polling }
  | interrupted (hplace : s.place = .polling) (hpc : s.life.runPc = .looping) :
      Owns s .interrupted { s with place := .top }
  | pollFailed (hplace : s.place = .polling) (hpc : s.life.runPc = .looping) :
      Owns s .pollFailed { s with life := { s.life with runPc := .left }, place := .top }
  | fetch (batch : List Fetched) (server : ServerState) (hplace : s.place = .polling)
      (hpc : s.life.runPc = .looping) (hlength : batch.length ≤ 2 * maxEvents)
      (hsteps : ServerState.Steps s.life.server (.fetch batch) server) :
      Owns s (.fetch batch) { s with life := { s.life with server }, place := .dispatching }
  | dispatch (server : ServerState) (hplace : s.place = .dispatching)
      (hpc : s.life.runPc = .looping)
      (hsteps : ServerState.Steps s.life.server .dispatch server) :
      Owns s .dispatch { s with life := { s.life with server } }
  | execute (e : Exec) (outcome : Outcome) (server : ServerState)
      (hplace : s.place = .dispatching ∨ s.place = .purging) (hown : e.task.isNone = true)
      (hmem : e ∈ s.life.server.execs)
      (hadvances : ServerState.Advances s.life.server e outcome server) :
      Owns s (.execute e outcome) { s with life := { s.life with server } }
  | endBatch (hplace : s.place = .dispatching) (hpc : s.life.runPc = .looping)
      (hfetched : s.life.server.fetched = []) (hfree : s.life.server.busy = false) :
      Owns s .endBatch { s with place := .checking }
  | seeStopping (hplace : s.place = .checking) (hpc : s.life.runPc = .looping)
      (hloop : s.life.server.loop = .stopping) :
      Owns s .seeStopping { s with life := { s.life with runPc := .draining }, place := .checking }
  | skipCheck (hplace : s.place = .checking) (hpc : s.life.runPc = .looping)
      (hloop : s.life.server.loop ≠ .stopping) : Owns s .skipCheck { s with place := .sweeping }
  | countMap (hplace : s.place = .checking) (hpc : s.life.runPc = .draining) :
      Owns s .countMap
        { s with
          life := { s.life with runPc := .counted s.life.server.connections.isEmpty }
          place := .checking }
  | exit (empty : Bool) (hplace : s.place = .checking) (hpc : s.life.runPc = .counted empty) :
      Owns s .compareTime
        { s with life := { s.life with runPc := .exiting empty }, place := .checking }
  | stay (empty : Bool) (hplace : s.place = .checking) (hpc : s.life.runPc = .counted empty)
      (hstay : ¬ shutdownTimeout ≤ s.life.clock - s.life.shutdownStart) :
      Owns s .compareTime { s with life := { s.life with runPc := .looping }, place := .sweeping }
  | storeStopped (empty : Bool) (hplace : s.place = .checking)
      (hpc : s.life.runPc = .exiting empty) :
      Owns s .storeStopped
        { s with
          life :=
            { s.life.withLoop .stopped with
              runPc := .looping
              transition := some ⟨s.life.server.connections, s.life.clock, s.life.leftRunning⟩ }
          place := .sweeping }
  | checkInterval (hplace : s.place = .sweeping) (hpc : s.life.runPc = .looping) :
      Owns s .checkInterval { s with place := .collecting, lastTimeoutCheck := s.life.clock }
  | notDue (hplace : s.place = .sweeping) (hpc : s.life.runPc = .looping) :
      Owns s .notDue { s with place := .top }
  | collectIdle (targets : List Target) (server : ServerState) (hplace : s.place = .collecting)
      (hpc : s.life.runPc = .looping) (hnodup : targets.Nodup)
      (hsteps : ServerState.Steps s.life.server (.collectIdle targets) server) :
      Owns s (.collectIdle targets) { s with life := { s.life with server }, place := .purging }
  | removeIdle (server : ServerState) (hplace : s.place = .purging)
      (hpc : s.life.runPc = .looping)
      (hsteps : ServerState.Steps s.life.server .removeIdle server) :
      Owns s .removeIdle { s with life := { s.life with server } }
  | endSweep (hplace : s.place = .purging) (hpc : s.life.runPc = .looping)
      (hidle : s.life.server.idle = []) (hfree : s.life.server.busy = false) :
      Owns s .endSweep { s with place := .top }

section Own

variable {life : Lifecycle} {step : LoopStep}

theorem quiet_of_effect (hnone : step.action? = none)
    (heffect : step.effect s.life = some life) : s.life.runPc = .looping ∧ s.life = life := by
  simp only [LoopStep.effect, hnone, Option.ite_none_right_eq_some] at heffect
  exact ⟨heffect.1, Option.some.inj heffect.2⟩

theorem action_of_effect {action : LifecycleAction} (hact : step.action? = some action)
    (heffect : step.effect s.life = some life) : s.life.step action = some life := by
  simpa only [LoopStep.effect, hact] using heffect

/-- A step that the event loop makes only inside its loop. -/
theorem serve_of_effect {action : ServerAction} (hact : step.action? = some (.serve action))
    (hinLoop : action.inLoop = true) (heffect : step.effect s.life = some life) :
    s.life.runPc = .looping ∧ ∃ server, s.life.server.step action = some server ∧
      life = { s.life with server } := by
  have hstep := action_of_effect hact heffect
  rw [Lifecycle.step, Option.ite_none_right_eq_some] at hstep
  obtain ⟨⟨-, hallowed⟩, heq⟩ := hstep
  obtain ⟨server, hserver, rfl⟩ := Option.map_eq_some_iff.mp heq
  refine ⟨?_, server, hserver, rfl⟩
  simp only [ServerAction.allowed, hinLoop, Bool.not_true, Bool.false_or, Bool.and_eq_true,
    decide_eq_true_eq] at hallowed
  exact hallowed.1.2

theorem owns_of_step (hstep : s.step (.own step) = some s') : Owns s step s' := by
  obtain ⟨hpermits, life, heffect, rfl⟩ := own_of_step hstep
  cases step with
  | noteTime =>
      obtain ⟨hpc, rfl⟩ := quiet_of_effect rfl heffect
      exact .noteTime (by simpa [permits] using hpermits) hpc
  | enter =>
      obtain ⟨hpc, rfl⟩ := quiet_of_effect rfl heffect
      simp only [permits, Bool.and_eq_true, decide_eq_true_eq] at hpermits
      exact .enter hpermits.1 hpc hpermits.2
  | leave =>
      simp only [permits, Bool.and_eq_true, decide_eq_true_eq] at hpermits
      cases Lifecycle.moves_of_step (action_of_effect rfl heffect) with
      | leaveLoop hpc => exact .leave hpermits.1 hpc hpermits.2
  | closeListener =>
      simp only [permits, Bool.and_eq_true, decide_eq_true_eq] at hpermits
      obtain ⟨hpc, server, hserver, rfl⟩ := serve_of_effect rfl rfl heffect
      exact .closeListener server hpermits.1 hpc (ServerState.steps_of_step hserver)
  | keepListener =>
      obtain ⟨hpc, rfl⟩ := quiet_of_effect rfl heffect
      simp only [permits, Bool.and_eq_true, decide_eq_true_eq] at hpermits
      exact .keepListener hpermits.1 hpc
  | interrupted =>
      obtain ⟨hpc, rfl⟩ := quiet_of_effect rfl heffect
      exact .interrupted (by simpa [permits] using hpermits) hpc
  | pollFailed =>
      cases Lifecycle.moves_of_step (action_of_effect rfl heffect) with
      | leaveLoop hpc => exact .pollFailed (by simpa [permits] using hpermits) hpc
  | fetch batch =>
      obtain ⟨hpc, server, hserver, rfl⟩ := serve_of_effect rfl rfl heffect
      have hlength : batch.length ≤ 2 * maxEvents := by
        rw [ServerState.step, Option.ite_none_right_eq_some] at hserver
        exact hserver.1.2.2.1
      exact .fetch batch server (by simpa [permits] using hpermits) hpc hlength
        (ServerState.steps_of_step hserver)
  | dispatch =>
      obtain ⟨hpc, server, hserver, rfl⟩ := serve_of_effect rfl rfl heffect
      exact .dispatch server (by simpa [permits] using hpermits) hpc
        (ServerState.steps_of_step hserver)
  | execute e outcome =>
      simp only [permits, Bool.and_eq_true, Bool.or_eq_true, decide_eq_true_eq] at hpermits
      cases Lifecycle.moves_of_step (action_of_effect rfl heffect) with
      | serve _ server hstarted hlifecycle hsteps =>
          cases hsteps with
          | advance _ _ _ hmem hadvances =>
              exact .execute e outcome server hpermits.1 hpermits.2 hmem hadvances
  | endBatch =>
      obtain ⟨hpc, rfl⟩ := quiet_of_effect rfl heffect
      simp only [permits, Bool.and_eq_true, decide_eq_true_eq, List.isEmpty_iff,
        Bool.not_eq_true'] at hpermits
      exact .endBatch hpermits.1.1 hpc hpermits.1.2 hpermits.2
  | seeStopping =>
      cases Lifecycle.moves_of_step (action_of_effect rfl heffect) with
      | seeStopping hpc hloop => exact .seeStopping (by simpa [permits] using hpermits) hpc hloop
  | skipCheck =>
      obtain ⟨hpc, rfl⟩ := quiet_of_effect rfl heffect
      simp only [permits, Bool.and_eq_true, decide_eq_true_eq] at hpermits
      exact .skipCheck hpermits.1 hpc hpermits.2
  | countMap =>
      cases Lifecycle.moves_of_step (action_of_effect rfl heffect) with
      | countMap hpc => exact .countMap (by simpa [permits] using hpermits) hpc
  | compareTime =>
      have hplace : s.place = .checking := by simpa [permits] using hpermits
      cases Lifecycle.moves_of_step (action_of_effect rfl heffect) with
      | exit empty hpc hexit => exact .exit empty hplace hpc
      | stay empty hpc hstay => exact .stay empty hplace hpc fun hover => hstay (.inr hover)
  | storeStopped =>
      cases Lifecycle.moves_of_step (action_of_effect rfl heffect) with
      | storeStopped empty hpc => exact .storeStopped empty (by simpa [permits] using hpermits) hpc
  | checkInterval =>
      obtain ⟨hpc, rfl⟩ := quiet_of_effect rfl heffect
      simp only [permits, Bool.and_eq_true, decide_eq_true_eq] at hpermits
      exact .checkInterval hpermits.1 hpc
  | notDue =>
      obtain ⟨hpc, rfl⟩ := quiet_of_effect rfl heffect
      simp only [permits, Bool.and_eq_true, decide_eq_true_eq] at hpermits
      exact .notDue hpermits.1 hpc
  | collectIdle targets =>
      obtain ⟨hpc, server, hserver, rfl⟩ := serve_of_effect rfl rfl heffect
      simp only [permits, Bool.and_eq_true, decide_eq_true_eq] at hpermits
      exact .collectIdle targets server hpermits.1 hpc hpermits.2
        (ServerState.steps_of_step hserver)
  | removeIdle =>
      obtain ⟨hpc, server, hserver, rfl⟩ := serve_of_effect rfl rfl heffect
      exact .removeIdle server (by simpa [permits] using hpermits) hpc
        (ServerState.steps_of_step hserver)
  | endSweep =>
      obtain ⟨hpc, rfl⟩ := quiet_of_effect rfl heffect
      simp only [permits, Bool.and_eq_true, decide_eq_true_eq, List.isEmpty_iff,
        Bool.not_eq_true'] at hpermits
      exact .endSweep hpermits.1.1 hpc hpermits.1.2 hpermits.2

end Own

end LoopPass

end HttpServer
