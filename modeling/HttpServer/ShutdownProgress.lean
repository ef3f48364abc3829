/-
The thread of `run` gets to the end of the drain period.  Until it has left its
loop one of its steps is possible, and once the period is over it makes at most
as many as the state still holds, and three for each interrupted `epoll_wait`.
-/
import HttpServer.DrainPeriod
import HttpServer.LoopPlaces
import HttpServer.ShutdownDecision

namespace HttpServer

open GuardedRun

namespace LoopPass

variable {s s' : LoopPass} {life : Lifecycle}

/-- A pass from `epoll_wait` to `STOPPED`, and from there out of the loop. -/
def pollingSteps (mappable : Nat) : Nat := 12 * maxEvents + 6 * mappable + 10

def topSteps (loop : LoopState) (mappable : Nat) : Nat :=
  if loop = .stopped then 1 else pollingSteps mappable + 2

/-- Steps of the thread until it has left its loop, but for what it has taken up. -/
def placeSteps (place : LoopPlace) (pc : RunPc) (loop : LoopState) (mappable : Nat) : Nat :=
  if pc = .left then 0
  else
    match place, pc with
    | .begun, _ | .purging, _ => topSteps loop mappable + 1
    | .top, _ => topSteps loop mappable
    | .listener, _ => pollingSteps mappable + 1
    | .polling, _ => pollingSteps mappable
    | .dispatching, _ => 6 * mappable + 9
    | .checking, .draining => 6 * mappable + 7
    | .checking, .counted _ => 6 * mappable + 6
    | .checking, .exiting _ => 6 * mappable + 5
    | .checking, _ => 6 * mappable + 8
    | .sweeping, _ => 6 * mappable + topSteps loop mappable + 3
    | .collecting, _ => 6 * mappable + topSteps loop mappable + 2

/-- Steps of the thread until it has left its loop. -/
def stepsLeft (s : LoopPass) : Nat :=
  s.life.server.taskWork +
    placeSteps s.place s.life.runPc s.life.server.loop s.life.server.mappable

theorem topSteps_mono (loop : LoopState) {m n : Nat} (hle : m ≤ n) :
    topSteps loop m ≤ topSteps loop n := by
  unfold topSteps pollingSteps
  split <;> omega

theorem placeSteps_mono (place : LoopPlace) (pc : RunPc) (loop : LoopState) {m n : Nat}
    (hle : m ≤ n) : placeSteps place pc loop m ≤ placeSteps place pc loop n := by
  have htop := topSteps_mono loop hle
  unfold placeSteps pollingSteps
  split
  · exact Nat.le_refl _
  · split <;> omega

/-- A step of another thread brings the end no further away. -/
theorem stepsLeft_other {start : Nat} {action : LifecycleAction} (hoverdue : s.life.Overdue start)
    (hbody : action.inBody = false) (hstep : s.life.step action = some life) :
    stepsLeft { s with life } ≤ s.stepsLeft := by
  have hcalled := hoverdue.called
  cases Lifecycle.moves_of_step hstep with
  | serve action server hstarted hlifecycle hsteps =>
      have haside := ServerState.aside_of_steps hbody hsteps
      rw [stepsLeft, stepsLeft, haside.taskWork_eq, Lifecycle.loop_of_serve hlifecycle hsteps]
      exact Nat.add_le_add_left (placeSteps_mono _ _ _ (haside.room hoverdue.left)) _
  | stopStep call _ hmem hstops =>
      cases hstops with
      | exchanged hpc hloop => exact absurd hloop hoverdue.left
      | _ => exact Nat.le_refl _
  | callRun hstarted hpc | storeRunning hpc =>
      rw [hpc] at hcalled
      contradiction
  | tick | start | callStop => exact Nat.le_refl _
  | seeStopping | countMap | exit | stay | storeStopped | leaveLoop => contradiction

theorem topSteps_pos (loop : LoopState) (mappable : Nat) : 0 < topSteps loop mappable := by
  unfold topSteps
  split <;> omega

/-- While the loop has not stopped, its condition leads to another pass. -/
theorem topSteps_of_going {loop : LoopState} (hloop : loop ≠ .stopped) (mappable : Nat) :
    topSteps loop mappable = pollingSteps mappable + 2 := if_neg hloop

/-- What has been taken up gets less, and the place stays. -/
theorem stepsLeft_served {server : ServerState} (hless : server.taskWork < s.life.server.taskWork)
    (hloop : server.loop = s.life.server.loop) (hroom : server.mappable ≤ s.life.server.mappable) :
    stepsLeft { s with life := { s.life with server } } + 1 ≤ s.stepsLeft := by
  have hplace := placeSteps_mono s.place s.life.runPc server.loop hroom
  simp only [stepsLeft]
  rw [hloop] at hplace ⊢
  omega

/-- Every step of the thread uses one up; an interrupted `epoll_wait` is repeated. -/
theorem stepsLeft_owns {start : Nat} {step : LoopStep} (hplaced : Placed s)
    (hoverdue : s.life.Overdue start) (howns : Owns s step s') :
    s'.stepsLeft + 1 ≤ s.stepsLeft + if step = .interrupted then 3 else 0 := by
  have hloop := hoverdue.left
  have hgoing := hplaced.going
  cases howns with
  | dispatch server hplace hpc hsteps =>
      have hkept : server.loop = s.life.server.loop := by cases hsteps <;> rfl
      obtain ⟨hless, hroom⟩ := ServerState.taskWork_dispatch hsteps hloop
      exact stepsLeft_served hless hkept hroom
  | removeIdle server hplace hpc hsteps =>
      have hkept : server.loop = s.life.server.loop := by
        cases hsteps
        rfl
      obtain ⟨hless, hroom⟩ := ServerState.taskWork_removeIdle hsteps
      exact stepsLeft_served hless hkept hroom
  | execute e outcome server hplace hown hmem hadvances =>
      obtain ⟨next, hreplaces⟩ := ServerState.exists_replaces hadvances
      exact stepsLeft_served (hreplaces.taskWork_lt hmem hown hloop)
        (Lifecycle.loop_of_serve rfl (.advance e outcome server hmem hadvances))
        (hreplaces.mappable_le hmem hloop)
  | closeListener server hplace hpc hsteps =>
      cases hsteps with
      | closeListener hstopping =>
          show s.life.server.taskWork + placeSteps .polling s.life.runPc s.life.server.loop
            s.life.server.mappable + 1 ≤ s.stepsLeft
          simp only [stepsLeft, hplace, hpc, placeSteps, reduceCtorEq, ↓reduceIte]
          omega
  | fetch batch server hplace hpc hlength hsteps =>
      cases hsteps with
      | fetch _ hfetched hreports =>
          show 6 * batch.length + 6 * s.life.server.idle.length +
              (s.life.server.loopExecs.map fun e => e.pc.stepsLeft).sum +
              placeSteps .dispatching s.life.runPc s.life.server.loop s.life.server.mappable + 1 ≤
            s.stepsLeft
          simp only [stepsLeft, hplace, hpc, placeSteps, pollingSteps, ServerState.taskWork,
            reduceCtorEq, ↓reduceIte]
          omega
  | collectIdle targets server hplace hpc hnodup hsteps =>
      have hidle := (hplaced.clear (by rw [hplace]; rfl)).2.1
      cases hsteps with
      | collectIdle _ hmapped =>
          have hlength := s.life.server.length_le_mappable hnodup hmapped
          show 6 * s.life.server.fetched.length + 6 * targets.length +
              (s.life.server.loopExecs.map fun e => e.pc.stepsLeft).sum +
              placeSteps .purging s.life.runPc s.life.server.loop s.life.server.mappable + 1 ≤
            s.stepsLeft
          simp only [stepsLeft, hplace, hpc, placeSteps, ServerState.taskWork, hidle,
            List.length_nil, reduceCtorEq, ↓reduceIte]
          omega
  | stay empty hplace hpc hstay => exact absurd hoverdue.passed hstay
  | skipCheck hplace hpc hother =>
      rw [hplace] at hgoing
      cases hstate : s.life.server.loop with
      | running => exact absurd hstate hloop
      | stopping => exact absurd hstate hother
      | stopped => exact absurd hstate (hgoing rfl)
  | storeStopped empty hplace hpc =>
      show s.life.server.taskWork + placeSteps .sweeping .looping .stopped
        s.life.server.mappable + 1 ≤ s.stepsLeft
      simp only [stepsLeft, hplace, hpc, placeSteps, topSteps, reduceCtorEq, ↓reduceIte]
      omega
  | enter hplace hpc hother =>
      simp only [stepsLeft, hplace, hpc, placeSteps, topSteps_of_going hother, reduceCtorEq,
        ↓reduceIte]
      omega
  | interrupted hplace hpc =>
      rw [hplace] at hgoing
      simp only [stepsLeft, hplace, hpc, placeSteps, topSteps_of_going (hgoing rfl), reduceCtorEq,
        ↓reduceIte]
      omega
  | leave hplace hpc hstopped =>
      have hpos := topSteps_pos s.life.server.loop s.life.server.mappable
      simp only [stepsLeft, hplace, hpc, placeSteps, reduceCtorEq, ↓reduceIte]
      omega
  | noteTime hplace hpc | checkInterval hplace hpc | notDue hplace hpc | endSweep hplace hpc _ _
  | pollFailed hplace hpc | countMap hplace hpc | exit _ hplace hpc
  | seeStopping hplace hpc _ | keepListener hplace hpc | endBatch hplace hpc =>
      simp only [stepsLeft, hplace, hpc, placeSteps, pollingSteps, reduceCtorEq, ↓reduceIte]
      omega

section Possible

variable {step : LoopStep}

theorem own_possible (hpermits : s.permits step = true) (heffect : step.effect s.life = some life) :
    ∃ next, s.step (.own step) = some next :=
  ⟨s.follow life step, by rw [LoopPass.step, if_pos hpermits, heffect, Option.map_some]⟩

theorem quiet_possible (hpc : s.life.runPc = .looping) (hnone : step.action? = none)
    (hpermits : s.permits step = true) : ∃ next, s.step (.own step) = some next :=
  own_possible hpermits (by rw [LoopStep.effect, hnone]; exact if_pos hpc)

theorem serve_possible {action : ServerAction} {server : ServerState} (hplaced : Placed s)
    (hpc : s.life.runPc = .looping) (hact : step.action? = some (.serve action))
    (hallowed : action.allowed .looping = true) (hserver : s.life.server.step action = some server)
    (hpermits : s.permits step = true) : ∃ next, s.step (.own step) = some next := by
  have hstarted := hplaced.started (by simp [hpc])
  have heffect : step.effect s.life = some { s.life with server } := by
    simp only [LoopStep.effect, hact, Lifecycle.step, hpc, hstarted, hallowed, hserver, and_self,
      ↓reduceIte, Option.map_some]
  exact own_possible hpermits heffect

theorem Placed.waiting (hplaced : Placed s) (hpc : s.life.runPc = .looping)
    (hworks : s.place.works = false) : s.life.server.waiting = true := by
  obtain ⟨hfetched, hidle, hexecs⟩ := hplaced.clear hworks
  have hopen := hplaced.opened (hplaced.started (by simp [hpc])) (by simp [hpc])
  simp [ServerState.waiting, hopen, hfetched, hidle, ServerState.busy_eq_false_iff.mpr hexecs]

/-- An execution of the thread is taken on. -/
theorem execute_possible (hplaced : Placed s) (hworks : s.place.works = true)
    (hbusy : s.life.server.busy = true) :
    ∃ e outcome next, s.step (.own (.execute e outcome)) = some next := by
  obtain ⟨e, hmem, hown⟩ := List.any_eq_true.mp hbusy
  obtain ⟨outcome, server, hadvance⟩ := ServerState.exists_advance (hplaced.named e hmem)
  have hpermits : s.permits (.execute e outcome) = true := by
    cases hplace : s.place <;> simp_all [permits, LoopPlace.works]
  have hserver : s.life.server.step (.advance e outcome) = some server := by
    rw [ServerState.step, if_pos hmem, hadvance]
  exact ⟨e, outcome, serve_possible hplaced (hplaced.looping hworks) rfl rfl hserver hpermits⟩

/-- Some step of the thread is possible that is neither an interruption nor a failure. -/
def CanGoOn (s : LoopPass) : Prop :=
  ∃ step next, s.step (.own step) = some next ∧ step ≠ .interrupted ∧ step ≠ .pollFailed

theorem CanGoOn.of_possible (hpossible : ∃ next, s.step (.own step) = some next)
    (hinterrupted : step ≠ .interrupted) (hfailed : step ≠ .pollFailed) : s.CanGoOn := by
  obtain ⟨next, hstep⟩ := hpossible
  exact ⟨step, next, hstep, hinterrupted, hfailed⟩

theorem canGoOn_working (hplaced : Placed s) (hworks : s.place.works = true) : s.CanGoOn := by
  have hpc := hplaced.looping hworks
  by_cases hbusy : s.life.server.busy = true
  · obtain ⟨e, outcome, hpossible⟩ := execute_possible hplaced hworks hbusy
    exact .of_possible hpossible (by simp) (by simp)
  · have hfree : s.life.server.busy = false := by simpa using hbusy
    cases hplace : s.place with
    | dispatching =>
        cases hfetched : s.life.server.fetched with
        | nil =>
            have hpermits : s.permits .endBatch = true := by
              simp [permits, hplace, hfetched, hfree]
            exact .of_possible (quiet_possible hpc rfl hpermits) (by simp) (by simp)
        | cons first rest =>
            have hserver : s.life.server.step .dispatch =
                some ({ s.life.server with fetched := rest }.dispatch first) := by
              rw [ServerState.step, hfetched]
              exact if_neg hbusy
            have hpermits : s.permits .dispatch = true := by simp [permits, hplace]
            exact .of_possible (serve_possible hplaced hpc rfl rfl hserver hpermits) (by simp)
              (by simp)
    | purging =>
        cases hidle : s.life.server.idle with
        | nil =>
            have hpermits : s.permits .endSweep = true := by
              simp [permits, hplace, hidle, hfree]
            exact .of_possible (quiet_possible hpc rfl hpermits) (by simp) (by simp)
        | cons first rest =>
            have hserver : s.life.server.step .removeIdle =
                some { s.life.server with
                  idle := rest
                  execs := { pc := .removing first } :: s.life.server.execs } := by
              rw [ServerState.step, hidle]
              exact if_neg hbusy
            have hpermits : s.permits .removeIdle = true := by simp [permits, hplace]
            exact .of_possible (serve_possible hplaced hpc rfl rfl hserver hpermits) (by simp)
              (by simp)
    | _ =>
        rw [hplace] at hworks
        contradiction

theorem canGoOn_checking (hplaced : Placed s) (hplace : s.place = .checking)
    (hearly : s.life.runPc.early = false) (hinside : s.life.runPc ≠ .left) : s.CanGoOn := by
  cases hpc : s.life.runPc with
  | notCalled | tested =>
      rw [hpc] at hearly
      contradiction
  | left => exact absurd hpc hinside
  | looping =>
      have hwaiting := hplaced.waiting hpc (by rw [hplace]; rfl)
      by_cases hloop : s.life.server.loop = .stopping
      · have hpermits : s.permits .seeStopping = true := by simp [permits, hplace]
        exact .of_possible (own_possible hpermits (if_pos ⟨hpc, hwaiting, hloop⟩)) (by simp)
          (by simp)
      · have hpermits : s.permits .skipCheck = true := by simp [permits, hplace, hloop]
        exact .of_possible (quiet_possible hpc rfl hpermits) (by simp) (by simp)
  | draining =>
      have hpermits : s.permits .countMap = true := by simp [permits, hplace]
      exact .of_possible (own_possible hpermits (if_pos hpc)) (by simp) (by simp)
  | counted empty =>
      have hpermits : s.permits .compareTime = true := by simp [permits, hplace]
      exact .of_possible (own_possible hpermits
        (by simp only [LoopStep.effect, LoopStep.action?, Lifecycle.step, hpc]; rfl)) (by simp)
        (by simp)
  | exiting empty =>
      have hpermits : s.permits .storeStopped = true := by simp [permits, hplace]
      exact .of_possible (own_possible hpermits
        (by simp only [LoopStep.effect, LoopStep.action?, Lifecycle.step, hpc]; rfl)) (by simp)
        (by simp)

theorem canGoOn (hplaced : Placed s) (hearly : s.life.runPc.early = false)
    (hinside : s.life.runPc ≠ .left) : s.CanGoOn := by
  by_cases hworks : s.place.works = true
  · exact canGoOn_working hplaced hworks
  by_cases hcheck : s.place = .checking
  · exact canGoOn_checking hplaced hcheck hearly hinside
  have hidle : s.place.works = false := by simpa using hworks
  have hpc : s.life.runPc = .looping := by
    cases hpc : s.life.runPc with
    | looping => rfl
    | left => exact absurd hpc hinside
    | notCalled | tested =>
        rw [hpc] at hearly
        contradiction
    | draining | counted | exiting => exact absurd (hplaced.deciding (by rw [hpc]; rfl)) hcheck
  have hwaiting := hplaced.waiting hpc hidle
  cases hplace : s.place with
  | begun =>
      have hpermits : s.permits .noteTime = true := by simp [permits, hplace]
      exact .of_possible (quiet_possible hpc rfl hpermits) (by simp) (by simp)
  | top =>
      by_cases hloop : s.life.server.loop = .stopped
      · have hpermits : s.permits .leave = true := by simp [permits, hplace, hloop]
        exact .of_possible (own_possible hpermits (if_pos ⟨hpc, hwaiting⟩)) (by simp) (by simp)
      · have hpermits : s.permits .enter = true := by simp [permits, hplace, hloop]
        exact .of_possible (quiet_possible hpc rfl hpermits) (by simp) (by simp)
  | listener =>
      by_cases hcloses : s.closesListener = true
      · have hloop : s.life.server.loop = .stopping := by
          simp only [closesListener, Bool.and_eq_true, decide_eq_true_eq] at hcloses
          exact hcloses.1
        have hpermits : s.permits .closeListener = true := by simp [permits, hplace, hcloses]
        have hserver : s.life.server.step .closeListener =
            some { s.life.server with listening := false } := if_pos ⟨hloop, hwaiting⟩
        exact .of_possible (serve_possible hplaced hpc rfl rfl hserver hpermits) (by simp)
          (by simp)
      · have hpermits : s.permits .keepListener = true := by simp [permits, hplace, hcloses]
        exact .of_possible (quiet_possible hpc rfl hpermits) (by simp) (by simp)
  | polling =>
      have hgoing := hplaced.going (by rw [hplace]; rfl)
      have hpermits : s.permits (.fetch []) = true := by simp [permits, hplace]
      obtain ⟨server, hserver⟩ : ∃ server, s.life.server.step (.fetch []) = some server :=
        ⟨_, if_pos ⟨hwaiting, hgoing, Nat.zero_le _, rfl⟩⟩
      exact .of_possible (serve_possible hplaced hpc rfl rfl hserver hpermits) (by simp) (by simp)
  | sweeping =>
      by_cases hdue : s.sweepDue = true
      · have hpermits : s.permits .checkInterval = true := by simp [permits, hplace, hdue]
        exact .of_possible (quiet_possible hpc rfl hpermits) (by simp) (by simp)
      · have hpermits : s.permits .notDue = true := by simp [permits, hplace, hdue]
        exact .of_possible (quiet_possible hpc rfl hpermits) (by simp) (by simp)
  | collecting =>
      have hpermits : s.permits (.collectIdle []) = true := by simp [permits, hplace]
      have hserver : s.life.server.step (.collectIdle []) =
          some { s.life.server with idle := [] } := if_pos ⟨hwaiting, rfl⟩
      exact .of_possible (serve_possible hplaced hpc rfl rfl hserver hpermits) (by simp) (by simp)
  | checking => exact absurd hplace hcheck
  | dispatching | purging =>
      rw [hplace] at hidle
      contradiction

end Possible

/-- The thread leaves its loop with `STOPPED` stored, or because `epoll_wait` has failed. -/
structure Exits (s : LoopPass) (taken : List PassAction) : Prop where
  fits : s.life.StopsFit
  left : s.life.runPc = .left → s.life.server.loop = .stopped ∨ .own .pollFailed ∈ taken

theorem exits_initial (clock : Nat) : Exits { life := { clock } } [] :=
  ⟨Lifecycle.stopsFit_initial clock, nofun⟩

theorem exits_step (s : LoopPass) (action : PassAction) (s' : LoopPass) (taken : List PassAction)
    (hexits : s.Exits taken) (hstep : s.step action = some s') :
    s'.Exits (taken ++ [action]) := by
  refine ⟨run_invariant Lifecycle.stopsFit_step hexits.fits (lifecycle_step hstep), ?_⟩
  have hkept : s'.life.runPc = s.life.runPc → s'.life.server.loop = s.life.server.loop →
      s'.life.runPc = .left →
        s'.life.server.loop = .stopped ∨ .own .pollFailed ∈ taken ++ [action] := by
    intro hpc hloop hleft
    rw [hpc] at hleft
    rw [hloop]
    exact (hexits.left hleft).imp_right (List.mem_append_left _)
  have hinside : s'.life.runPc ≠ .left → s'.life.runPc = .left →
      s'.life.server.loop = .stopped ∨ .own .pollFailed ∈ taken ++ [action] :=
    fun hne hleft => absurd hleft hne
  cases action with
  | own step =>
      cases owns_of_step hstep with
      | leave hplace hpc hloop => exact fun _ => .inl hloop
      | pollFailed hplace hpc => exact fun _ => .inr (List.mem_append_right _ (by simp))
      | execute e outcome server hplace hown hmem hadvances =>
          exact hkept rfl (Lifecycle.loop_of_serve rfl (.advance e outcome server hmem hadvances))
      | noteTime _ hpc | enter _ hpc _ | keepListener _ hpc | interrupted _ hpc | endBatch _ hpc
      | skipCheck _ hpc _ | checkInterval _ hpc | notDue _ hpc | endSweep _ hpc
      | closeListener _ _ hpc | fetch _ _ _ hpc | dispatch _ _ hpc | collectIdle _ _ _ hpc
      | removeIdle _ _ hpc => exact hinside (by simp [hpc])
      | seeStopping | countMap | exit | stay | storeStopped => exact hinside nofun
  | other action =>
      obtain ⟨hbody, life, hlife, rfl⟩ := other_of_step hstep
      cases Lifecycle.moves_of_step hlife with
      | callRun hstarted hpc => exact fun _ => .inl (hexits.fits.early (by rw [hpc]; rfl))
      | storeRunning hpc => exact hinside nofun
      | serve action server hstarted hlifecycle hsteps =>
          exact hkept rfl (Lifecycle.loop_of_serve hlifecycle hsteps)
      | stopStep call _ hmem hstops =>
          cases hstops with
          | exchanged hpc hloop =>
              intro hleft
              refine (hexits.left hleft).elim (fun hstopped => ?_) fun hfailed =>
                .inr (List.mem_append_left _ hfailed)
              rw [hloop] at hstopped
              contradiction
          | _ => exact hkept rfl rfl
      | tick | start | callStop => exact hkept rfl rfl
      | seeStopping | countMap | exit | stay | storeStopped | leaveLoop => contradiction

/-- The steps of the thread of `run` in a continuation, with those that are left. -/
structure Counts (s : LoopPass) (start budget : Nat) (taken : List PassAction) : Prop where
  placed : s.Placed
  overdue : s.life.Overdue start
  counted : taken.countP PassAction.isOwn + s.stepsLeft ≤
    budget + 3 * taken.count (.own .interrupted)

theorem counts_step {start budget : Nat} (s : LoopPass) (action : PassAction) (s' : LoopPass)
    (taken : List PassAction) (hcounts : s.Counts start budget taken)
    (hstep : s.step action = some s') : s'.Counts start budget (taken ++ [action]) := by
  refine ⟨placed_step s action s' hcounts.placed hstep,
    Lifecycle.overdue_run hcounts.overdue (lifecycle_step hstep), ?_⟩
  have hcounted := hcounts.counted
  rw [List.countP_append, List.count_append]
  cases action with
  | own step =>
      have hless := stepsLeft_owns hcounts.placed hcounts.overdue (owns_of_step hstep)
      by_cases hinterrupted : step = .interrupted
      · subst hinterrupted
        simp only [↓reduceIte] at hless
        simp [PassAction.isOwn]
        omega
      · simp only [hinterrupted, ↓reduceIte] at hless
        simp [PassAction.isOwn, hinterrupted]
        omega
  | other action =>
      obtain ⟨hbody, life, hlife, rfl⟩ := other_of_step hstep
      have hless := stepsLeft_other hcounts.overdue hbody hlife
      simp [PassAction.isOwn]
      omega

theorem count_lifecycle (step : LoopStep) {action : LifecycleAction}
    (hact : step.action? = some action) (actions : List PassAction) :
    actions.count (.own step) ≤ (actions.flatMap PassAction.lifecycle).count action := by
  induction actions with
  | nil => exact Nat.le_refl 0
  | cons first actions ih =>
      rw [List.flatMap_cons, List.count_append, List.count_cons]
      split
      · next heq =>
          obtain rfl := eq_of_beq heq
          simp [PassAction.lifecycle, hact]
          omega
      · omega

theorem mem_lifecycle {step : LoopStep} {action : LifecycleAction} {actions : List PassAction}
    (hact : step.action? = some action) (hmem : .own step ∈ actions) :
    action ∈ actions.flatMap PassAction.lifecycle :=
  List.mem_flatMap.mpr ⟨_, hmem, by simp [PassAction.lifecycle, hact]⟩

/-- A step of the connections, taken by the thread it belongs to. -/
def ofServer : ServerAction → PassAction
  | .fetch batch => .own (.fetch batch)
  | .dispatch => .own .dispatch
  | .advance e outcome =>
      if e.task.isNone then .own (.execute e outcome) else .other (.serve (.advance e outcome))
  | action => .other (.serve action)

/-- A client is accepted, a signal stops the loop, and the period passes with the client
still there. -/
def periodPasses : List PassAction :=
  [.other .start, .other .callRun, .other .storeRunning, .own .noteTime, .own .enter,
    .own .keepListener] ++
    (ServerState.acceptsClient { id := 0, fd := 7, ip := [1] }).map ofServer ++
    [.own .endBatch, .own .skipCheck, .own .notDue, .own .enter, .own .keepListener] ++
    (Lifecycle.stopExchanges Lifecycle.bootTime).map .other ++
    [.other (.stopStep { pc := .writing, afterStart := true, began := Lifecycle.bootTime }),
      .other (.tick shutdownTimeout)]

/-- One more signal interrupts `epoll_wait`, another lands in the middle of the check. -/
def decidesUnderSignal : List PassAction :=
  [.own .interrupted, .own .enter, .own .closeListener, .own (.fetch []), .own .endBatch,
    .own .seeStopping, .other .callStop, .own .countMap, .other (.stopStep { afterStart := true }),
    .other (.tick 1), .own .compareTime, .own .storeStopped, .own .notDue, .own .leave]

end LoopPass

end HttpServer
