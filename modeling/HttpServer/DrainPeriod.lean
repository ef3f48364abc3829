/-
The drain period between `STOPPING` and `STOPPED`.  The loop compares the clock
with a start time that `stop` writes in a step of its own, behind the
compare-exchange, and it looks at the connection map before it decides.
-/
import HttpServer.ServerLifecycle

namespace HttpServer

open GuardedRun

namespace Lifecycle

variable {s s' : Lifecycle} {action : LifecycleAction} {call : StopCall}

/-- `SHUTDOWN_TIMEOUT` has elapsed since the call that left `RUNNING` began. -/
def PeriodOver (s : Lifecycle) : Prop :=
  ∃ began ∈ s.leftRunning, began + shutdownTimeout ≤ s.clock

/-- The last move to `STOPPED` found no connections, or came when the period was over. -/
def DrainHonoured (s : Lifecycle) : Prop :=
  ∀ t ∈ s.transition, t.connections = [] ∨ ∃ began ∈ t.began, began + shutdownTimeout ≤ t.time

/-- And the one that `run` is about to make would. -/
def DrainKept (s : Lifecycle) : Prop :=
  s.DrainHonoured ∧ ∀ next, s.step .storeStopped = some next → next.DrainHonoured

/-- `run` does not look at the clock after the map has been filled again, nor while the start
time is still to be written and the old one lies far enough back; and once it has decided
no client is inserted.  Both are harmless without connections, or when the period is over. -/
def decidesSafely (s : Lifecycle) : LifecycleAction → Prop
  | .compareTime =>
      s.runPc = .counted true ∨
          (∃ call ∈ s.stops, call.pc = .writing) ∧
            shutdownTimeout ≤ s.clock - s.shutdownStart →
        s.server.connections = [] ∨ s.PeriodOver
  | .serve (.advance e .proceed) =>
      match e.pc, s.runPc with
      | .inserting _, .exiting _ => s.PeriodOver
      | _, _ => True
  | _ => True

instance (s : Lifecycle) : Decidable s.PeriodOver :=
  inferInstanceAs (Decidable (∃ began ∈ s.leftRunning, began + shutdownTimeout ≤ s.clock))

/-- An insertion after the decision, told by comparisons. -/
theorem insertsAfterDecision_iff (pc : Pc) (runPc : RunPc) (elapsed : Prop) :
    (∀ conn ∈ pc.conn?, pc = .inserting conn →
        runPc = .exiting true ∨ runPc = .exiting false → elapsed) ↔
      match pc, runPc with
      | .inserting _, .exiting _ => elapsed
      | _, _ => True := by
  split
  · next conn noActiveConnections => cases noActiveConnections <;> simp
  · next hother =>
      constructor
      · exact fun _ => trivial
      · rintro _ conn _ hpc (hrun | hrun)
        · exact absurd hrun (hother conn true hpc)
        · exact absurd hrun (hother conn false hpc)

instance : ∀ s action, Decidable (decidesSafely s action) := by
  intro s action
  unfold decidesSafely
  split
  · infer_instance
  · next e => exact decidable_of_iff _ (insertsAfterDecision_iff e.pc s.runPc s.PeriodOver)
  · exact isTrue trivial

theorem drainKept_iff :
    DrainKept s ↔ s.DrainHonoured ∧
      ∀ noActiveConnections, s.runPc = .exiting noActiveConnections →
        s.server.connections = [] ∨ s.PeriodOver := by
  constructor
  · rintro ⟨hhere, hlater⟩
    refine ⟨hhere, fun noActiveConnections hpc => ?_⟩
    have hnext := hlater _ (by rw [step, hpc])
    exact hnext _ rfl
  · rintro ⟨hhere, hready⟩
    refine ⟨hhere, fun next hnext => ?_⟩
    cases moves_of_step hnext with
    | storeStopped noActiveConnections hpc =>
        intro t ht
        obtain rfl := Option.some.inj ht
        exact hready noActiveConnections hpc

/-- What is known of the moment at which the call that left `RUNNING` began. -/
structure LeftAt (s : Lifecycle) (began : Nat) : Prop where
  past : began ≤ s.clock
  loop : s.server.loop ≠ .running
  early : s.runPc.early = false
  timed : began ≤ s.shutdownStart ∨ ∃ call ∈ s.stops, call.pc = .writing ∧ call.began = began

structure DrainFits (s : Lifecycle) : Prop where
  stops : s.StopsFit
  began : ∀ call ∈ s.stops, call.began ≤ s.clock
  left : ∀ began ∈ s.leftRunning, s.LeftAt began
  seen : s.server.loop = .stopping ∨ s.runPc.deciding = true → s.leftRunning.isSome = true

theorem drainFits_initial (clock : Nat) : DrainFits { clock } :=
  ⟨stopsFit_initial clock, nofun, nofun, nofun⟩

/-- A step that is not a call's keeps the start time and the calls. -/
theorem LeftAt.follow {began : Nat} (hleft : s.LeftAt began) (hfollows : Follows s s')
    (hclock : s.clock ≤ s'.clock) (hstart : s'.shutdownStart = s.shutdownStart)
    (hstops : s.stops ⊆ s'.stops) : s'.LeftAt began := by
  obtain ⟨hloop, hearly⟩ := hfollows.settled hleft.loop hleft.early
  refine ⟨hleft.past.trans hclock, hloop, hearly, ?_⟩
  rcases hleft.timed with htimed | ⟨call, hmem, hwriting⟩
  · exact .inl (hstart ▸ htimed)
  · exact .inr ⟨call, hstops hmem, hwriting⟩

/-- A call that moves on from elsewhere leaves the one that is about to write. -/
theorem timed_of_erase {began : Nat} {moved : List StopCall}
    (htimed : began ≤ s.shutdownStart ∨
      ∃ other ∈ s.stops, other.pc = .writing ∧ other.began = began)
    (hpc : call.pc ≠ .writing) :
    began ≤ s.shutdownStart ∨
      ∃ other ∈ moved ++ s.stops.erase call, other.pc = .writing ∧ other.began = began := by
  rcases htimed with htimed | ⟨other, hmem, hwriting⟩
  · exact .inl htimed
  · have hne : other ≠ call := by
      rintro rfl
      exact hpc hwriting.1
    exact .inr ⟨other, List.mem_append_right _ ((List.mem_erase_of_ne hne).mpr hmem), hwriting⟩

theorem leftAt_of_stops (hfits : s.DrainFits) (hmem : call ∈ s.stops)
    (hstops : Stops s call s') : ∀ began ∈ s'.leftRunning, s'.LeftAt began := by
  intro began hbegan
  cases hstops with
  | exchanged hpc hloop =>
      obtain rfl := Option.some.inj hbegan
      exact ⟨hfits.began call hmem, nofun, hfits.stops.early_of_running hloop,
        .inr ⟨_, List.mem_cons_self, rfl, rfl⟩⟩
  | written hpc =>
      obtain ⟨hpast, hloop, hearly, _⟩ := hfits.left began hbegan
      exact ⟨hpast, hloop, hearly, .inl hpast⟩
  | refused hpc | failed hpc | woken hpc =>
      obtain ⟨hpast, hloop, hearly, htimed⟩ := hfits.left began hbegan
      exact ⟨hpast, hloop, hearly, @timed_of_erase s call _ [] htimed (by simp [hpc])⟩
  | tested hpc | cleared hpc =>
      obtain ⟨hpast, hloop, hearly, htimed⟩ := hfits.left began hbegan
      exact ⟨hpast, hloop, hearly, @timed_of_erase s call _ [_] htimed (by simp [hpc])⟩

theorem drainFits_of_stops (hfits : s.DrainFits) (hmem : call ∈ s.stops)
    (hstops : Stops s call s') : s'.DrainFits := by
  have hfits' := stopsFit_of_stops hfits.stops hmem hstops
  have hleft := leftAt_of_stops hfits hmem hstops
  have hcall := hfits.began call hmem
  have hothers : ∀ other ∈ s.stops.erase call, other.began ≤ s.clock := fun other hother =>
    hfits.began other (List.mem_of_mem_erase hother)
  cases hstops with
  | refused | failed | woken => exact ⟨hfits', hothers, hleft, hfits.seen⟩
  | exchanged => exact ⟨hfits', List.forall_mem_cons.mpr ⟨hcall, hothers⟩, hleft, fun _ => rfl⟩
  | cleared =>
      exact ⟨hfits', List.forall_mem_cons.mpr ⟨Nat.le_refl _, hothers⟩, hleft, hfits.seen⟩
  | tested | written =>
      exact ⟨hfits', List.forall_mem_cons.mpr ⟨hcall, hothers⟩, hleft, hfits.seen⟩

theorem drainFits_step (s : Lifecycle) (action : LifecycleAction) (s' : Lifecycle)
    (hfits : s.DrainFits) (hstep : s.step action = some s') : s'.DrainFits := by
  have hfits' := stopsFit_step s action s' hfits.stops hstep
  have hmoves := moves_of_step hstep
  have hfollows := follows_of_moves hmoves
  have hkept (hclock : s.clock ≤ s'.clock) (hstart : s'.shutdownStart = s.shutdownStart)
      (hstops : s.stops ⊆ s'.stops) (began : Nat) (hbegan : began ∈ s.leftRunning) :
      s'.LeftAt began := (hfits.left began hbegan).follow hfollows hclock hstart hstops
  cases hmoves with
  | stopStep call s' hmem hstops => exact drainFits_of_stops hfits hmem hstops
  | tick elapsed =>
      have hlater : s.clock ≤ s.clock + elapsed := Nat.le_add_right _ _
      exact ⟨hfits', fun call hmem => (hfits.began call hmem).trans hlater,
        hkept hlater rfl (List.Subset.refl _), hfits.seen⟩
  | callStop =>
      exact ⟨hfits', List.forall_mem_cons.mpr ⟨Nat.zero_le _, hfits.began⟩,
        hkept (Nat.le_refl _) rfl (List.subset_cons_self ..), hfits.seen⟩
  | serve action server hstarted hlifecycle hsteps =>
      refine ⟨hfits', hfits.began, hkept (Nat.le_refl _) rfl (List.Subset.refl _), ?_⟩
      rw [loop_of_serve hlifecycle hsteps]
      exact hfits.seen
  | callRun hstarted hpc =>
      refine ⟨hfits', hfits.began, hkept (Nat.le_refl _) rfl (List.Subset.refl _), ?_⟩
      rintro (hloop | hdeciding)
      · exact hfits.seen (.inl hloop)
      · dsimp only at hdeciding
        split at hdeciding <;> contradiction
  | seeStopping hpc hloop =>
      exact ⟨hfits', hfits.began, hkept (Nat.le_refl _) rfl (List.Subset.refl _),
        fun _ => hfits.seen (.inl hloop)⟩
  | countMap hpc | exit _ hpc =>
      refine ⟨hfits', hfits.began, hkept (Nat.le_refl _) rfl (List.Subset.refl _), fun _ => ?_⟩
      exact hfits.seen (.inr (by rw [hpc]; rfl))
  | start =>
      exact ⟨hfits', hfits.began, hkept (Nat.le_refl _) rfl (List.Subset.refl _), hfits.seen⟩
  | storeRunning | storeStopped =>
      exact ⟨hfits', hfits.began, hkept (Nat.le_refl _) rfl (List.Subset.refl _), nofun⟩
  | stay | leaveLoop =>
      refine ⟨hfits', hfits.began, hkept (Nat.le_refl _) rfl (List.Subset.refl _), ?_⟩
      rintro (hloop | hdeciding)
      · exact hfits.seen (.inl hloop)
      · contradiction

/-- Only the insertion of a client fills the map. -/
theorem connections_of_serve {server server' : ServerState} {action : ServerAction}
    (hempty : server.connections = [])
    (hother : ∀ e, action = .advance e .proceed → ∀ conn, e.pc ≠ .inserting conn)
    (hsteps : ServerState.Steps server action server') : server'.connections = [] := by
  cases hsteps with
  | advance e outcome _ hmem hadvances =>
      cases hadvances with
      | erased target conn hpc hfind =>
          simp [ServerState.others, hempty]
      | inserted conn hpc => exact absurd hpc (hother e rfl conn)
      | undoErased conn hpc =>
          simp [ServerState.undoErase, ServerState.drop, ServerState.closeFd, ServerState.others,
            hempty]
      | unregistered conn hpc hremoved =>
          simp only [ServerState.unregister]
          split <;> exact hempty
      | _ => exact hempty
  | cleanup => rfl
  | _ => exact hempty

theorem PeriodOver.follow (hover : s.PeriodOver) (hleft : s'.leftRunning = s.leftRunning)
    (hclock : s.clock ≤ s'.clock) : s'.PeriodOver := by
  obtain ⟨began, hbegan, hover⟩ := hover
  exact ⟨began, hleft ▸ hbegan, hover.trans hclock⟩

/-- Once the start time has been written, the comparison measures the period. -/
theorem periodOver_of_elapsed (hfits : s.DrainFits) (hdeciding : s.runPc.deciding = true)
    (hwritten : ¬ ∃ call ∈ s.stops, call.pc = .writing)
    (helapsed : shutdownTimeout ≤ s.clock - s.shutdownStart) : s.PeriodOver := by
  obtain ⟨began, hbegan⟩ := Option.isSome_iff_exists.mp (hfits.seen (.inr hdeciding))
  refine ⟨began, hbegan, ?_⟩
  rcases (hfits.left began hbegan).timed with htimed | ⟨call, hmem, hpc, _⟩
  · have hpositive : 0 < shutdownTimeout := by decide
    omega
  · exact absurd ⟨call, hmem, hpc⟩ hwritten

/-- The look at the clock. -/
theorem compareTime_exact (hfits : s.DrainFits) (hkept : s.DrainKept)
    (hmoves : Moves s .compareTime s') : s'.DrainKept ↔ s.decidesSafely .compareTime := by
  have hhonoured := hkept.1
  rw [drainKept_iff, decidesSafely]
  cases hmoves with
  | stay noActiveConnections hpc hstay =>
      refine iff_of_true ⟨hhonoured, nofun⟩ fun hrisk => ?_
      rcases hrisk with hcounted | ⟨_, helapsed⟩
      · obtain rfl := RunPc.counted.inj (hpc.symm.trans hcounted)
        exact absurd (.inl rfl) hstay
      · exact absurd (.inr helapsed) hstay
  | exit noActiveConnections hpc hexit =>
      constructor
      · exact fun hready _ => hready.2 noActiveConnections rfl
      · refine fun hsafe => ⟨hhonoured, fun _ _ => ?_⟩
        by_cases hrisk : s.runPc = .counted true ∨
            (∃ call ∈ s.stops, call.pc = .writing) ∧ shutdownTimeout ≤ s.clock - s.shutdownStart
        · exact hsafe hrisk
        · simp only [not_or, not_and, hpc, RunPc.counted.injEq, Bool.not_eq_true] at hrisk
          have helapsed := hexit.resolve_left (by simp [hrisk.1])
          have hover : s.PeriodOver := by
            apply periodOver_of_elapsed hfits _ (fun hwriting => hrisk.2 hwriting helapsed) helapsed
            rw [hpc]
            rfl
          exact .inr hover

/-- A step of the event loop or a worker. -/
theorem serve_exact (hkept : s.DrainKept) {action : ServerAction} {server : ServerState}
    (hsteps : ServerState.Steps s.server action server) :
    ({ s with server } : Lifecycle).DrainKept ↔ s.decidesSafely (.serve action) := by
  obtain ⟨hhonoured, hready⟩ := drainKept_iff.mp hkept
  rw [drainKept_iff]
  by_cases hinserts : ∃ e conn, action = .advance e .proceed ∧ e.pc = .inserting conn
  · obtain ⟨e, conn, rfl, hpc⟩ := hinserts
    have hfilled : server.connections ≠ [] := by
      cases hsteps with
      | advance _ _ _ hmem hadvances =>
          cases hadvances <;> simp_all [ServerState.insert, ServerState.drop, ServerState.closeFd]
    rw [decidesSafely, hpc]
    constructor
    · intro hnext
      split
      · next noActiveConnections _ hexiting =>
          exact (hnext.2 noActiveConnections hexiting).resolve_left hfilled
      · trivial
    · refine fun hsafe => ⟨hhonoured, fun noActiveConnections hexiting => ?_⟩
      have hexiting : s.runPc = .exiting noActiveConnections := hexiting
      rw [hexiting] at hsafe
      exact .inr hsafe
  · have hother : ∀ e, action = .advance e .proceed → ∀ conn, e.pc ≠ .inserting conn :=
      fun e haction conn hpc => hinserts ⟨e, conn, haction, hpc⟩
    refine iff_of_true ⟨hhonoured, fun noActiveConnections hexiting => ?_⟩ ?_
    · rcases hready noActiveConnections hexiting with hempty | hover
      · exact .inl (connections_of_serve hempty hother hsteps)
      · exact .inr hover
    · unfold decidesSafely
      split
      · contradiction
      · next e heq =>
          obtain rfl := LifecycleAction.serve.inj heq
          split
          · next conn _ hpc _ => exact absurd hpc (hother e rfl conn)
          · trivial
      · trivial

/-- A call of `stop` does not touch what the decision rests on. -/
theorem drainKept_of_stops (hfits : s.DrainFits) (hkept : s.DrainKept)
    (hstops : Stops s call s') : s'.DrainKept := by
  rw [drainKept_iff] at hkept ⊢
  cases hstops with
  | exchanged hpc hloop =>
      refine ⟨hkept.1, fun noActiveConnections hexiting => ?_⟩
      -- a loop that is about to store `STOPPED` does not run
      have hseen : s.leftRunning.isSome = true := by
        apply hfits.seen
        right
        rw [show s.runPc = .exiting noActiveConnections from hexiting]
        rfl
      obtain ⟨began, hbegan⟩ := Option.isSome_iff_exists.mp hseen
      exact absurd hloop (hfits.left began hbegan).loop
  | _ => exact hkept

/-- The condition says exactly whether a step cuts the period short. -/
theorem decidesSafely_exact (hfits : s.DrainFits) (hkept : s.DrainKept)
    (hstep : s.step action = some s') : s'.DrainKept ↔ s.decidesSafely action := by
  obtain ⟨hhonoured, hready⟩ := drainKept_iff.mp hkept
  have hmoves := moves_of_step hstep
  cases hmoves with
  | exit | stay => exact compareTime_exact hfits hkept (moves_of_step hstep)
  | serve action server hstarted hlifecycle hsteps => exact serve_exact hkept hsteps
  | stopStep call s' hmem hstops =>
      exact iff_of_true (drainKept_of_stops hfits hkept hstops) trivial
  | tick elapsed =>
      refine iff_of_true (drainKept_iff.mpr ⟨hhonoured, fun noActiveConnections hexiting => ?_⟩)
        trivial
      rcases hready noActiveConnections hexiting with hempty | hover
      · exact .inl hempty
      · exact .inr (hover.follow rfl (Nat.le_add_right _ _))
  | start | callStop => exact iff_of_true (drainKept_iff.mpr ⟨hhonoured, hready⟩) trivial
  | callRun hstarted hpc =>
      refine iff_of_true (drainKept_iff.mpr ⟨hhonoured, fun noActiveConnections hexiting => ?_⟩)
        trivial
      dsimp only at hexiting
      split at hexiting <;> contradiction
  | storeStopped noActiveConnections hpc =>
      refine iff_of_true (drainKept_iff.mpr ⟨?_, nofun⟩) trivial
      exact hkept.2 _ hstep
  | storeRunning | seeStopping | countMap | leaveLoop =>
      exact iff_of_true (drainKept_iff.mpr ⟨hhonoured, nofun⟩) trivial

/-- Every move to `STOPPED` in a run, and the one that `run` may be about to make, finds no
connections or comes when the period is over, exactly when the run decides safely. -/
theorem drainKept_throughout_iff {clock : Nat} {actions : List LifecycleAction}
    {final : Lifecycle} (hrun : run step { clock } actions = some final) :
    Throughout step DrainKept { clock } actions ↔
      Guarded step decidesSafely { clock } actions := by
  have hstart : DrainKept { clock } := drainKept_iff.mpr ⟨nofun, nofun⟩
  exact throughout_iff_guarded drainFits_step
    (fun _ _ _ hfits hkept hstep => decidesSafely_exact hfits hkept hstep)
    (drainFits_initial clock) hstart hrun

/-- The server runs and has one client. -/
def servesClient : List LifecycleAction :=
  [.start, .callRun, .storeRunning] ++
    (ServerState.acceptsClient { id := 0, fd := 7, ip := [1] }).map .serve

/-- `run` sees `STOPPING`, looks at the map and the clock, and stores `STOPPED`. -/
def decides : List LifecycleAction := [.seeStopping, .countMap, .compareTime, .storeStopped]

/-- The clock at the start of the run: past the epoch by twice the drain period. -/
def bootTime : Nat := 2 * shutdownTimeout

/-- The start time is written, and the period passes with the client still there. -/
def drained : List LifecycleAction :=
  servesClient ++ stopExchanges bootTime ++
    [.stopStep { pc := .writing, afterStart := true, began := bootTime },
      .tick shutdownTimeout] ++ decides

theorem drained_kept :
    ∃ s, run step { clock := bootTime } drained = some s ∧ s.transition.isSome = true ∧
      Throughout step DrainKept { clock := bootTime } drained := by
  obtain ⟨s, hrun, hstored⟩ := @exists_reached _ _ step { clock := bootTime } drained
    (fun s => s.transition.isSome = true) _ (by decide +kernel)
  exact ⟨s, hrun, hstored, (drainKept_throughout_iff hrun).mpr (by decide +kernel)⟩

/-- The loop decides between the compare-exchange of `stop` and its write of the start
time, which is still the epoch. -/
def cutShort : List LifecycleAction := servesClient ++ stopExchanges bootTime ++ decides

/-- The client is cut off at once. -/
theorem cutShort_notHonoured :
    ∃ s, run step { clock := bootTime } cutShort = some s ∧ ¬ s.DrainHonoured := by
  obtain ⟨s, hrun, htransition⟩ := @exists_reached _ _ step { clock := bootTime } cutShort
    (fun s => s.transition =
      some ⟨[{ id := 0, fd := 7, ip := [1] }], bootTime, some bootTime⟩) _ (by decide +kernel)
  refine ⟨s, hrun, fun hhonoured => ?_⟩
  obtain hempty | ⟨began, hbegan, hover⟩ := hhonoured _ htransition
  · contradiction
  · obtain rfl := Option.some.inj hbegan
    have hlate : bootTime + shutdownTimeout ≤ bootTime := hover
    exact absurd hlate (by decide)

end Lifecycle

end HttpServer
