/-
What is known at each place of the event loop's body: which part of the batch or
of the sweep may be under way there, and that nobody but the thread of `run`
stores `STOPPED`.
-/
import HttpServer.LoopWork

namespace HttpServer

/-- Between the loop condition and the decision. -/
def LoopPlace.inPass : LoopPlace → Bool
  | listener | polling | dispatching | checking => true
  | _ => false

/-- Events or timed-out connections are being worked off. -/
def LoopPlace.works : LoopPlace → Bool
  | dispatching | purging => true
  | _ => false

/-- Nothing is taken up by the epoll thread. -/
def ServerState.Clear (s : ServerState) : Prop :=
  s.fetched = [] ∧ s.idle = [] ∧ s.loopExecs = []

/-- What the epoll thread may have taken up at a place. -/
def LoopPlace.Holds (place : LoopPlace) (s : ServerState) : Prop :=
  match place with
  | .dispatching => s.idle = []
  | .purging => s.fetched = []
  | _ => s.Clear

theorem LoopPlace.holds_of_clear {s : ServerState} (place : LoopPlace) (hclear : s.Clear) :
    place.Holds s := by
  cases place with
  | dispatching => exact hclear.2.1
  | purging => exact hclear.1
  | _ => exact hclear

theorem LoopPlace.Holds.congr {place : LoopPlace} {s s' : ServerState} (hholds : place.Holds s)
    (hfetched : s'.fetched = s.fetched) (hidle : s'.idle = s.idle)
    (hexecs : s'.loopExecs = s.loopExecs) : place.Holds s' := by
  cases place <;> simpa only [LoopPlace.Holds, ServerState.Clear, hfetched, hidle, hexecs]
    using hholds

namespace Lifecycle

variable {s s' : Lifecycle}

theorem serve_of_step {action : ServerAction} (hstep : s.step (.serve action) = some s') :
    s.started = true ∧ action.allowed s.runPc = true ∧
      ∃ server, ServerState.Steps s.server action server ∧ s' = { s with server } := by
  rw [step, Option.ite_none_right_eq_some] at hstep
  obtain ⟨⟨hstarted, hallowed⟩, heq⟩ := hstep
  obtain ⟨server, hserver, rfl⟩ := Option.map_eq_some_iff.mp heq
  exact ⟨hstarted, hallowed, server, ServerState.steps_of_step hserver, rfl⟩

/-- Only the cleanup closes epoll, and it follows the loop. -/
theorem epollOpen_of_serve {action : ServerAction} {server server' : ServerState} {pc : RunPc}
    (hallowed : action.allowed pc = true) (hpc : pc ≠ .left)
    (hsteps : ServerState.Steps server action server') :
    server'.epollOpen = server.epollOpen := by
  cases hsteps with
  | advance e outcome _ hmem hadvances =>
      obtain ⟨next, hreplaces⟩ := ServerState.exists_replaces hadvances
      exact hreplaces.epollOpen
  | cleanup hwaiting =>
      have hleft : pc = .left := by simpa [ServerAction.allowed, ServerAction.inLoop,
        ServerAction.isLifecycle] using hallowed
      exact absurd hleft hpc
  | _ => rfl

end Lifecycle

namespace LoopPass

variable {s s' : LoopPass} {life : Lifecycle}

/-- What holds wherever the thread of `run` is. -/
structure Placed (s : LoopPass) : Prop where
  started : s.life.runPc ≠ .notCalled → s.life.started = true
  opened : s.life.started = true → s.life.runPc ≠ .left → s.life.server.epollOpen = true
  outside : s.life.runPc.early = true → s.place = .begun
  deciding : s.life.runPc.deciding = true → s.place = .checking
  left : s.life.runPc = .left → s.place = .begun ∨ s.place = .top
  holds : s.place.Holds s.life.server
  going : s.place.inPass = true → s.life.server.loop ≠ .stopped
  named : ∀ e ∈ s.life.server.execs, e.Named

theorem placed_initial (clock : Nat) : Placed { life := { clock } } :=
  ⟨fun hpc => absurd rfl hpc, nofun, fun _ => rfl, nofun, nofun, ⟨rfl, rfl, rfl⟩, nofun, nofun⟩

/-- Steps that are not the body's leave it where it is. -/
theorem placed_other {action : LifecycleAction} (hplaced : Placed s)
    (hbody : action.inBody = false) (hstep : s.life.step action = some life) :
    Placed { s with life } := by
  cases action with
  | serve action =>
      obtain ⟨hstarted, hallowed, server, hsteps, rfl⟩ := Lifecycle.serve_of_step hstep
      have haside := ServerState.aside_of_steps hbody hsteps
      have hlifecycle : action.isLifecycle = false := by
        simp only [ServerAction.allowed, Bool.and_eq_true, Bool.not_eq_true'] at hallowed
        exact hallowed.1.1
      have hloop := Lifecycle.loop_of_serve hlifecycle hsteps
      refine ⟨hplaced.started, fun _ hpc => ?_, hplaced.outside, hplaced.deciding, hplaced.left,
        hplaced.holds.congr haside.fetched haside.idle haside.loopExecs, fun hpass => ?_,
        ServerState.named_of_steps hplaced.named hsteps⟩
      · exact (Lifecycle.epollOpen_of_serve hallowed hpc hsteps).trans (hplaced.opened hstarted hpc)
      · exact hloop ▸ hplaced.going hpass
  | stopStep call =>
      cases Lifecycle.moves_of_step hstep with
      | stopStep _ _ hmem hstops =>
          cases hstops with
          | exchanged hpc hloop =>
              have hgoing : LoopState.stopping ≠ .stopped := by decide
              exact { hplaced with going := fun _ => hgoing }
          | _ => exact { hplaced with }
  | start =>
      cases Lifecycle.moves_of_step hstep with
      | start hstarted =>
          exact { hplaced with started := fun _ => rfl, opened := fun _ _ => rfl }
  | callRun =>
      cases Lifecycle.moves_of_step hstep with
      | callRun hstarted hpc =>
          have hplace : s.place = .begun := hplaced.outside (by rw [hpc]; rfl)
          refine ⟨fun _ => hstarted, fun _ _ => hplaced.opened hstarted ?_, fun _ => hplace,
            fun hdeciding => ?_, fun _ => .inl hplace, hplaced.holds, hplaced.going,
            hplaced.named⟩
          · simp [hpc]
          · revert hdeciding
            dsimp only
            split <;> simp [RunPc.deciding]
  | storeRunning =>
      cases Lifecycle.moves_of_step hstep with
      | storeRunning hpc =>
          have hstarted : s.life.started = true := hplaced.started (by simp [hpc])
          have hopen := hplaced.opened hstarted (by simp [hpc])
          have hgoing : LoopState.running ≠ .stopped := by decide
          exact ⟨fun _ => hstarted, fun _ _ => hopen, by simp [RunPc.early],
            by simp [RunPc.deciding], by simp, hplaced.holds, fun _ => hgoing, hplaced.named⟩
  | tick elapsed =>
      obtain rfl := Option.some.inj hstep
      exact { hplaced with }
  | callStop =>
      obtain rfl := Option.some.inj hstep
      exact { hplaced with }
  | seeStopping | countMap | compareTime | storeStopped | leaveLoop => contradiction

theorem Placed.clear (hplaced : Placed s) (hworks : s.place.works = false) :
    s.life.server.Clear := by
  have hholds := hplaced.holds
  cases hplace : s.place with
  | dispatching | purging =>
      rw [hplace] at hworks
      contradiction
  | _ =>
      rw [hplace] at hholds
      exact hholds

theorem Placed.looping (hplaced : Placed s) (hworks : s.place.works = true) :
    s.life.runPc = .looping := by
  cases hpc : s.life.runPc with
  | looping => rfl
  | notCalled | tested =>
      rw [hplaced.outside (by rw [hpc]; rfl)] at hworks
      contradiction
  | draining | counted | exiting =>
      rw [hplaced.deciding (by rw [hpc]; rfl)] at hworks
      contradiction
  | left =>
      rcases hplaced.left hpc with hplace | hplace
      all_goals
        rw [hplace] at hworks
        contradiction

/-- The body goes on to `place`. -/
theorem Placed.moved (hplaced : Placed s) {place : LoopPlace} {last : Nat}
    (hcalled : s.life.runPc ≠ .notCalled) (hinside : s.life.runPc ≠ .left)
    (hstarted : life.started = s.life.started)
    (hepoll : life.server.epollOpen = s.life.server.epollOpen)
    (hearly : life.runPc.early = false)
    (hdeciding : life.runPc.deciding = true → place = .checking)
    (hleft : life.runPc = .left → place = .top) (hholds : place.Holds life.server)
    (hgoing : place.inPass = true → life.server.loop ≠ .stopped)
    (hnamed : ∀ e ∈ life.server.execs, e.Named) : Placed ⟨life, place, last⟩ where
  started _ := hstarted.trans (hplaced.started hcalled)
  opened _ _ := hepoll.trans (hplaced.opened (hplaced.started hcalled) hinside)
  outside hother := absurd hother (Bool.eq_false_iff.mp hearly)
  deciding := hdeciding
  left hpc := .inr (hleft hpc)
  holds := hholds
  going := hgoing
  named := hnamed

/-- A test, or a step that only the thread itself sees. -/
theorem Placed.quiet (hplaced : Placed s) {place : LoopPlace} {last : Nat}
    (hpc : s.life.runPc = .looping) (hclear : s.life.server.Clear)
    (hgoing : place.inPass = true → s.life.server.loop ≠ .stopped) :
    Placed ⟨s.life, place, last⟩ :=
  hplaced.moved (by simp [hpc]) (by simp [hpc]) rfl rfl (congrArg RunPc.early hpc)
    (by simp [hpc, RunPc.deciding]) (by simp [hpc]) (place.holds_of_clear hclear) hgoing
    hplaced.named

theorem Placed.served (hplaced : Placed s) {place : LoopPlace} {last : Nat}
    {action : ServerAction} {server : ServerState} (hpc : s.life.runPc = .looping)
    (hsteps : ServerState.Steps s.life.server action server)
    (hepoll : server.epollOpen = s.life.server.epollOpen) (hholds : place.Holds server)
    (hgoing : place.inPass = true → server.loop ≠ .stopped) :
    Placed ⟨{ s.life with server }, place, last⟩ :=
  hplaced.moved (by simp [hpc]) (by simp [hpc]) rfl hepoll (congrArg RunPc.early hpc)
    (by simp [hpc, RunPc.deciding]) (by simp [hpc]) hholds hgoing
    (ServerState.named_of_steps hplaced.named hsteps)

/-- A step of the decision, or one that leaves the loop. -/
theorem Placed.turned (hplaced : Placed s) {place : LoopPlace} {last : Nat} {pc : RunPc}
    (hcalled : s.life.runPc ≠ .notCalled) (hinside : s.life.runPc ≠ .left)
    (hworks : s.place.works = false) (hearly : pc.early = false)
    (hdeciding : pc.deciding = true → place = .checking) (hleft : pc = .left → place = .top)
    (hgoing : place.inPass = true → s.life.server.loop ≠ .stopped) :
    Placed ⟨{ s.life with runPc := pc }, place, last⟩ :=
  hplaced.moved hcalled hinside rfl rfl hearly hdeciding hleft
    (place.holds_of_clear (hplaced.clear hworks)) hgoing hplaced.named

theorem placed_owns {step : LoopStep} (hplaced : Placed s) (howns : Owns s step s') :
    Placed s' := by
  have hgoing : s.place.inPass = true → s.life.server.loop ≠ .stopped := hplaced.going
  cases howns with
  | noteTime hplace hpc | checkInterval hplace hpc | notDue hplace hpc =>
      exact hplaced.quiet hpc (hplaced.clear (by rw [hplace]; rfl)) nofun
  | enter hplace hpc hloop =>
      exact hplaced.quiet hpc (hplaced.clear (by rw [hplace]; rfl)) fun _ => hloop
  | keepListener hplace hpc | interrupted hplace hpc | skipCheck hplace hpc =>
      rw [hplace] at hgoing
      exact hplaced.quiet hpc (hplaced.clear (by rw [hplace]; rfl)) fun _ => hgoing rfl
  | endBatch hplace hpc hfetched hfree =>
      have hidle := hplaced.holds
      rw [hplace] at hgoing hidle
      exact hplaced.quiet hpc ⟨hfetched, hidle, ServerState.busy_eq_false_iff.mp hfree⟩
        fun _ => hgoing rfl
  | endSweep hplace hpc hidle hfree =>
      have hfetched := hplaced.holds
      rw [hplace] at hfetched
      exact hplaced.quiet hpc ⟨hfetched, hidle, ServerState.busy_eq_false_iff.mp hfree⟩ nofun
  | leave hplace hpc | pollFailed hplace hpc =>
      exact hplaced.turned (by simp [hpc]) (by simp [hpc]) (by rw [hplace]; rfl) rfl nofun
        (fun _ => rfl) nofun
  | seeStopping hplace hpc | countMap hplace hpc | exit empty hplace hpc =>
      rw [hplace] at hgoing
      exact hplaced.turned (by simp [hpc]) (by simp [hpc]) (by rw [hplace]; rfl) rfl
        (fun _ => rfl) nofun fun _ => hgoing rfl
  | stay empty hplace hpc hstay =>
      exact hplaced.turned (by simp [hpc]) (by simp [hpc]) (by rw [hplace]; rfl) rfl nofun nofun
        nofun
  | storeStopped empty hplace hpc =>
      exact hplaced.moved (by simp [hpc]) (by simp [hpc]) rfl rfl rfl nofun nofun
        (hplaced.clear (by rw [hplace]; rfl)) nofun hplaced.named
  | closeListener server hplace hpc hsteps =>
      have hclear := hplaced.clear (by rw [hplace]; rfl)
      rw [hplace] at hgoing
      cases hsteps with
      | closeListener hloop =>
          exact hplaced.served hpc (.closeListener hloop) rfl hclear fun _ => hgoing rfl
  | fetch batch server hplace hpc hlength hsteps =>
      have hclear := hplaced.clear (by rw [hplace]; rfl)
      rw [hplace] at hgoing
      cases hsteps with
      | fetch _ hfetched hreports =>
          exact hplaced.served hpc (.fetch batch hfetched hreports) rfl hclear.2.1
            fun _ => hgoing rfl
  | collectIdle targets server hplace hpc hnodup hsteps =>
      have hclear := hplaced.clear (by rw [hplace]; rfl)
      cases hsteps with
      | collectIdle _ hmapped =>
          exact hplaced.served hpc (.collectIdle targets hmapped) rfl hclear.1 nofun
  | dispatch server hplace hpc hsteps =>
      have hkept : server.epollOpen = s.life.server.epollOpen ∧
          server.idle = s.life.server.idle ∧ server.loop = s.life.server.loop := by
        cases hsteps <;> exact ⟨rfl, rfl, rfl⟩
      have hidle := hplaced.holds
      rw [hplace] at hidle
      refine hplaced.served hpc hsteps hkept.1 ?_ fun hpass => hkept.2.2 ▸ hgoing hpass
      rw [hplace]
      exact hkept.2.1.trans hidle
  | removeIdle server hplace hpc hsteps =>
      have hfetched := hplaced.holds
      rw [hplace] at hfetched
      cases hsteps with
      | removeIdle first rest hidle hfree =>
          refine hplaced.served hpc (.removeIdle first rest hidle hfree) rfl ?_ hgoing
          rw [hplace]
          exact hfetched
  | execute e outcome server hplace hown hmem hadvances =>
      obtain ⟨next, hreplaces⟩ := ServerState.exists_replaces hadvances
      have hsteps := ServerState.Steps.advance e outcome server hmem hadvances
      have hpc := hplaced.looping (by rcases hplace with hplace | hplace <;> rw [hplace] <;> rfl)
      refine hplaced.served hpc hsteps hreplaces.epollOpen ?_ fun hpass => ?_
      · have hholds := hplaced.holds
        rcases hplace with hplace | hplace
        · rw [hplace] at hholds ⊢
          exact hreplaces.idle.trans hholds
        · rw [hplace] at hholds ⊢
          exact hreplaces.fetched.trans hholds
      · rw [Lifecycle.loop_of_serve rfl hsteps]
        exact hgoing hpass

theorem placed_step (s : LoopPass) (action : PassAction) (s' : LoopPass) (hplaced : Placed s)
    (hstep : s.step action = some s') : Placed s' := by
  cases action with
  | own step => exact placed_owns hplaced (owns_of_step hstep)
  | other action =>
      obtain ⟨hbody, life, hlife, rfl⟩ := other_of_step hstep
      exact placed_other hplaced hbody hlife

end LoopPass

end HttpServer
