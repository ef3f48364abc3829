/-
The end of the drain period.  Once the time has passed, calls of `stop` put
nothing off, and a check of the loop stores `STOPPED`, which stays.
-/
import HttpServer.ServerLifecycle

namespace HttpServer

open GuardedRun

namespace Lifecycle

variable {s s' : Lifecycle} {action : LifecycleAction} {call : StopCall}

/-- The loop has been told to stop, the start of the drain period is written, and the
period is over. -/
structure Overdue (s : Lifecycle) (start : Nat) : Prop where
  left : s.server.loop ≠ .running
  called : s.runPc.early = false
  written : ∀ call ∈ s.stops, call.pc ≠ .writing
  since : s.shutdownStart = start
  passed : shutdownTimeout ≤ s.clock - s.shutdownStart

/-- A check that has begun ends in `STOPPED`, and one more may begin while the loop is
still `STOPPING`. -/
def checksLeft (s : Lifecycle) : Nat :=
  if s.runPc = .looping ∧ s.server.loop = .stopping then 1 else 0

/-- What the checks that were made have led to. -/
structure Decided (s : Lifecycle) (taken : List LifecycleAction) : Prop where
  begun : taken.count .seeStopping + s.checksLeft ≤ 1
  compared : .compareTime ∈ taken → (∃ empty, s.runPc = .exiting empty) ∨ s.server.loop = .stopped
  stored : .storeStopped ∈ taken → s.server.loop = .stopped

theorem overdue_of_stops {start : Nat} (hoverdue : s.Overdue start) (hmem : call ∈ s.stops)
    (hstops : Stops s call s') :
    s'.Overdue start ∧ s'.runPc = s.runPc ∧ s'.server.loop = s.server.loop := by
  have hkept : ∀ other ∈ s.stops.erase call, other.pc ≠ .writing :=
    fun other hother => hoverdue.written other (List.mem_of_mem_erase hother)
  have hmoved : ∀ moved : StopCall, moved.pc ≠ .writing →
      ∀ other ∈ moved :: s.stops.erase call, other.pc ≠ .writing :=
    fun moved hmoved => List.forall_mem_cons.mpr ⟨hmoved, hkept⟩
  cases hstops with
  | tested hpc hrunning =>
      exact ⟨{ hoverdue with written := hmoved _ (by simp) }, rfl, rfl⟩
  | cleared hpc => exact ⟨{ hoverdue with written := hmoved _ (by simp) }, rfl, rfl⟩
  | exchanged hpc hloop => exact absurd hloop hoverdue.left
  | written hpc => exact absurd hpc (hoverdue.written call hmem)
  | refused | failed | woken => exact ⟨{ hoverdue with written := hkept }, rfl, rfl⟩

theorem overdue_of_moves {start : Nat} (hoverdue : s.Overdue start)
    (hmoves : Moves s action s') : s'.Overdue start := by
  cases hmoves with
  | tick elapsed =>
      refine { hoverdue with passed := ?_ }
      have hover := hoverdue.passed
      show shutdownTimeout ≤ s.clock + elapsed - s.shutdownStart
      omega
  | start hstarted => exact { hoverdue with }
  | callRun hstarted hpc =>
      have hcalled := hoverdue.called
      rw [hpc] at hcalled
      contradiction
  | storeRunning hpc =>
      have hcalled := hoverdue.called
      rw [hpc] at hcalled
      contradiction
  | serve action server hstarted hlifecycle hsteps =>
      refine { hoverdue with left := ?_ }
      rw [loop_of_serve hlifecycle hsteps]
      exact hoverdue.left
  | storeStopped empty hpc => exact { hoverdue with left := nofun, called := rfl }
  | callStop =>
      exact { hoverdue with written := List.forall_mem_cons.mpr ⟨nofun, hoverdue.written⟩ }
  | stopStep call s' hmem hstops => exact (overdue_of_stops hoverdue hmem hstops).1
  | seeStopping | countMap | exit | stay | leaveLoop => exact { hoverdue with called := rfl }

/-- The thread of `run` is somewhere behind the test of `STOPPING`. -/
theorem Decided.begun_later {taken : List LifecycleAction} (hdecided : s.Decided taken)
    (hsee : action ≠ .seeStopping)
    (hlater : ¬ (s'.runPc = .looping ∧ s'.server.loop = .stopping)) :
    (taken ++ [action]).count .seeStopping + s'.checksLeft ≤ 1 := by
  have hbegun := hdecided.begun
  rw [List.count_append, List.count_singleton, checksLeft, if_neg hlater]
  simp only [beq_iff_eq, hsee, if_false]
  omega

theorem Decided.same {taken : List LifecycleAction} (hdecided : s.Decided taken)
    (hpc : s'.runPc = s.runPc) (hloop : s'.server.loop = s.server.loop)
    (hsee : action ≠ .seeStopping) (hcompare : action ≠ .compareTime)
    (hstore : action ≠ .storeStopped) : s'.Decided (taken ++ [action]) where
  begun := by
    rw [List.count_append, List.count_singleton, checksLeft, hpc, hloop]
    simpa [hsee, checksLeft] using hdecided.begun
  compared hmem := by
    rw [hpc, hloop]
    exact hdecided.compared (by simpa [Ne.symm hcompare] using hmem)
  stored hmem := by
    rw [hloop]
    exact hdecided.stored (by simpa [Ne.symm hstore] using hmem)

theorem decided_of_moves {start : Nat} {taken : List LifecycleAction} (hoverdue : s.Overdue start)
    (hdecided : s.Decided taken) (hmoves : Moves s action s') :
    s'.Decided (taken ++ [action]) := by
  have hcalled := hoverdue.called
  cases hmoves with
  | tick | start | callStop => exact hdecided.same rfl rfl nofun nofun nofun
  | callRun hstarted hpc | storeRunning hpc =>
      rw [hpc] at hcalled
      contradiction
  | serve action server hstarted hlifecycle hsteps =>
      exact hdecided.same rfl (loop_of_serve hlifecycle hsteps) nofun nofun nofun
  | stopStep call s' hmem hstops =>
      obtain ⟨-, hpc, hloop⟩ := overdue_of_stops hoverdue hmem hstops
      exact hdecided.same hpc hloop nofun nofun nofun
  | seeStopping hpc hloop =>
      have hbegun := hdecided.begun
      simp only [checksLeft, hpc, hloop, and_self, if_true] at hbegun
      refine ⟨?_, fun hmem => ?_, fun hmem => hdecided.stored (by simpa using hmem)⟩
      · simp only [List.count_append, List.count_singleton, checksLeft]
        simp
        omega
      · rcases hdecided.compared (by simpa using hmem) with ⟨empty, hexiting⟩ | hstopped
        · simp [hpc] at hexiting
        · simp [hloop] at hstopped
  | countMap hpc =>
      refine ⟨hdecided.begun_later nofun nofun, fun hmem => ?_,
        fun hmem => hdecided.stored (by simpa using hmem)⟩
      rcases hdecided.compared (by simpa using hmem) with ⟨empty, hexiting⟩ | hstopped
      · simp [hpc] at hexiting
      · exact .inr hstopped
  | exit empty hpc hexit =>
      exact ⟨hdecided.begun_later nofun nofun, fun _ => .inl ⟨empty, rfl⟩,
        fun hmem => hdecided.stored (by simpa using hmem)⟩
  | stay empty hpc hstay => exact absurd (.inr hoverdue.passed) hstay
  | storeStopped empty hpc =>
      exact ⟨hdecided.begun_later nofun nofun, fun _ => .inr rfl, fun _ => rfl⟩
  | leaveLoop hpc =>
      refine ⟨hdecided.begun_later nofun nofun, fun hmem => ?_,
        fun hmem => hdecided.stored (by simpa using hmem)⟩
      rcases hdecided.compared (by simpa using hmem) with ⟨empty, hexiting⟩ | hstopped
      · simp [hpc] at hexiting
      · exact .inr hstopped

theorem overdue_start {clock : Nat} {before : List LifecycleAction}
    (hbefore : run step { clock } before = some s) (hstopping : s.server.loop = .stopping)
    (hwritten : ∀ call ∈ s.stops, call.pc ≠ .writing)
    (hover : shutdownTimeout ≤ s.clock - s.shutdownStart) : s.Overdue s.shutdownStart := by
  have hfits := run_invariant stopsFit_step (stopsFit_initial clock) hbefore
  have hcalled : s.runPc.early = false := by
    rw [Bool.eq_false_iff]
    intro hearly
    have hstopped := hfits.early hearly
    rw [hstopping] at hstopped
    contradiction
  exact ⟨by simp [hstopping], hcalled, hwritten, rfl, hover⟩

theorem overdue_run {start : Nat} {actions : List LifecycleAction} (hoverdue : s.Overdue start)
    (hrun : run step s actions = some s') : s'.Overdue start :=
  run_invariant (fun _ _ _ hhere hstep => overdue_of_moves hhere (moves_of_step hstep)) hoverdue
    hrun

theorem decided_run {start : Nat} {actions : List LifecycleAction} (hoverdue : s.Overdue start)
    (hrun : run step s actions = some s') : s'.Decided actions := by
  have hstart : s.Decided [] := by
    refine ⟨?_, nofun, nofun⟩
    rw [List.count_nil, Nat.zero_add, checksLeft]
    split <;> omega
  have hend := @observed_invariant _ _ step _ (fun _ action => [action])
    (fun state taken => state.Overdue start ∧ state.Decided taken)
    (fun _ _ _ _ htracks hstep => ⟨overdue_of_moves htracks.1 (moves_of_step hstep),
      decided_of_moves htracks.1 htracks.2 (moves_of_step hstep)⟩) _ _ _ _ ⟨hoverdue, hstart⟩ hrun
  rw [List.nil_append, observed_actions hrun] at hend
  exact hend.2

end Lifecycle

end HttpServer
