/-
Whether a request to stop reaches the loop.  A call of `stop` may be turned away
twice, where it finds `is_running` cleared and where its compare-exchange finds
that the loop does not run.  Both are harmless unless the loop runs nevertheless,
or `run` has passed its own test and is about to store `RUNNING`.
-/
import HttpServer.ServerLifecycle

namespace HttpServer

open GuardedRun

namespace Lifecycle

variable {s s' : Lifecycle} {action : LifecycleAction} {call : StopCall}

/-- The request of a call that has returned is respected. -/
def StopHonoured (s : Lifecycle) : Prop := s.stopReturned = true → s.server.loop ≠ .running

/-- And it still is when `run` has made its store of `RUNNING`. -/
def StopKept (s : Lifecycle) : Prop :=
  s.StopHonoured ∧ ∀ next, s.step .storeRunning = some next → next.StopHonoured

/-- A call made after `start` is turned away only from a loop that does not run and that
`run` is not about to enter. -/
def turnsAwaySafely (s : Lifecycle) : LifecycleAction → Prop
  | .stopStep call =>
      match call.pc with
      | .testing => call.afterStart = true → s.isRunning = false →
          s.server.loop ≠ .running ∧ s.runPc ≠ .tested
      | .exchanging => call.afterStart = true → s.runPc ≠ .tested
      | _ => True
  | _ => True

instance : ∀ s action, Decidable (turnsAwaySafely s action) := by
  intro s action
  unfold turnsAwaySafely
  split
  · split <;> infer_instance
  · exact isTrue trivial

theorem stopKept_iff :
    StopKept s ↔ (s.stopReturned = true → s.server.loop ≠ .running ∧ s.runPc ≠ .tested) := by
  constructor
  · rintro ⟨hhere, hlater⟩ hreturned
    refine ⟨hhere hreturned, fun htested => ?_⟩
    exact hlater _ (if_pos htested) hreturned rfl
  · intro hkept
    refine ⟨fun hreturned => (hkept hreturned).1, fun next hnext hreturned => ?_⟩
    rw [step, Option.ite_none_right_eq_some] at hnext
    obtain ⟨htested, heq⟩ := hnext
    obtain rfl := Option.some.inj heq
    exact absurd htested (hkept hreturned).2

theorem turnsAway_exact_of_stops (hfits : s.StopsFit) (hkept : s.StopKept)
    (hmem : call ∈ s.stops) (hstops : Stops s call s') :
    s'.StopKept ↔ s.turnsAwaySafely (.stopStep call) := by
  rw [stopKept_iff] at hkept
  rw [stopKept_iff, turnsAwaySafely]
  have hcall := hfits.calls call hmem
  unfold CallFits at hcall
  cases hstops with
  | tested hpc hrunning =>
      rw [hpc]
      refine iff_of_true hkept fun _ hcleared => ?_
      rw [hrunning] at hcleared
      contradiction
  | refused hpc hrunning =>
      rw [hpc]
      constructor
      · exact fun hsafe hafter _ => hsafe ((Bool.or_eq_true _ _).mpr (.inr hafter))
      · intro hsafe hreturned
        rcases (Bool.or_eq_true _ _).mp hreturned with hreturned | hafter
        · exact hkept hreturned
        · exact hsafe hafter hrunning
  | cleared hpc =>
      rw [hpc]
      exact iff_of_true hkept trivial
  | exchanged hpc hloop =>
      have htested := RunPc.ne_tested_of_early (hfits.early_of_running hloop)
      rw [hpc]
      exact iff_of_true (fun _ => ⟨nofun, htested⟩) fun _ => htested
  | failed hpc hloop =>
      rw [hpc]
      constructor
      · exact fun hsafe hafter => (hsafe ((Bool.or_eq_true _ _).mpr (.inr hafter))).2
      · intro hsafe hreturned
        rcases (Bool.or_eq_true _ _).mp hreturned with hreturned | hafter
        · exact hkept hreturned
        · exact ⟨hloop, hsafe hafter⟩
  | written hpc =>
      rw [hpc]
      exact iff_of_true hkept trivial
  | woken hpc =>
      rw [hpc] at hcall ⊢
      obtain ⟨_, _, hloop, hearly⟩ := hcall
      exact iff_of_true (fun _ => ⟨hloop, RunPc.ne_tested_of_early hearly⟩) trivial

/-- The condition says exactly whether a step loses a request. -/
theorem turnsAway_exact (hfits : s.StopsFit) (hkept : s.StopKept)
    (hstep : s.step action = some s') : s'.StopKept ↔ s.turnsAwaySafely action := by
  have hthere := stopKept_iff.mp hkept
  have hmoves := moves_of_step hstep
  cases hmoves with
  | stopStep call s' hmem hstops => exact turnsAway_exact_of_stops hfits hkept hmem hstops
  | tick | start | callStop => exact iff_of_true (stopKept_iff.mpr hthere) trivial
  | callRun hstarted hpc =>
      refine iff_of_true (stopKept_iff.mpr fun hreturned => ?_) trivial
      refine ⟨(hthere hreturned).1, ?_⟩
      simp [(hfits.returned hreturned).2]
  | storeRunning hpc =>
      refine iff_of_true (stopKept_iff.mpr fun hreturned => ?_) trivial
      exact absurd hpc (hthere hreturned).2
  | serve action server hstarted hlifecycle hsteps =>
      refine iff_of_true (stopKept_iff.mpr fun hreturned => ?_) trivial
      rw [loop_of_serve hlifecycle hsteps]
      exact hthere hreturned
  | storeStopped noActiveConnections hpc =>
      exact iff_of_true (stopKept_iff.mpr fun _ => ⟨nofun, nofun⟩) trivial
  | seeStopping | countMap | exit | stay | leaveLoop =>
      refine iff_of_true (stopKept_iff.mpr fun hreturned => ?_) trivial
      exact ⟨(hthere hreturned).1, nofun⟩

/-- In every state of a run, and after the store of `RUNNING` that `run` may make in it, a
request that was made after `start` and has returned is respected, exactly when every step
of the run turns calls away safely. -/
theorem stopKept_throughout_iff {clock : Nat} {actions : List LifecycleAction}
    {final : Lifecycle} (hrun : run step { clock } actions = some final) :
    Throughout step StopKept { clock } actions ↔
      Guarded step turnsAwaySafely { clock } actions := by
  have hstart : StopKept { clock } := stopKept_iff.mpr nofun
  exact throughout_iff_guarded stopsFit_step
    (fun _ _ _ hfits hkept hstep => turnsAway_exact hfits hkept hstep)
    (stopsFit_initial clock) hstart hrun

/-- One signal finds the loop running, and a second one is turned away. -/
def stoppedTwice : List LifecycleAction :=
  [.start, .callRun, .storeRunning] ++ stopExchanges 7 ++
    [.callStop, .stopStep { afterStart := true },
      .stopStep { pc := .writing, afterStart := true, began := 7 },
      .stopStep { pc := .waking, afterStart := true, began := 7 }, .seeStopping, .countMap,
      .compareTime, .storeStopped, .leaveLoop]

theorem stoppedTwice_kept :
    ∃ s, run step { clock := 7 } stoppedTwice = some s ∧ s.stopReturned = true ∧
      Throughout step StopKept { clock := 7 } stoppedTwice := by
  obtain ⟨s, hrun, hreturned⟩ := @exists_reached _ _ step { clock := 7 } stoppedTwice
    (fun s => s.stopReturned = true) _ (by decide +kernel)
  exact ⟨s, hrun, hreturned, (stopKept_throughout_iff hrun).mpr (by decide +kernel)⟩

/-- A signal lands when `run` has tested `is_running` and has not yet stored `RUNNING`. -/
def stopLost : List LifecycleAction :=
  [.start, .callRun] ++ stopExchanges 0 ++ [.storeRunning]

/-- The request has returned and the loop runs. -/
theorem stopLost_running :
    ∃ s, run step { clock := 0 } stopLost = some s ∧ ¬ s.StopHonoured := by
  obtain ⟨s, hrun, hreturned, hloop⟩ := @exists_reached _ _ step { clock := 0 } stopLost
    (fun s => s.stopReturned = true ∧ s.server.loop = .running) _ (by decide +kernel)
  exact ⟨s, hrun, fun hhonoured => hhonoured hreturned hloop⟩

end Lifecycle

end HttpServer
