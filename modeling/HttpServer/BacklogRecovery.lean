/-
The listening socket is edge-triggered: clients left in the backlog are not
reported again.  They are accepted later because whoever brings the counter
below the limit still has a capacity check ahead.
-/
import HttpServer.Admission

namespace HttpServer

open GuardedRun

/-- The execution has a capacity check ahead of it while the loop runs. -/
def Pc.rechecks : Pc → Bool
  | .removing _ | .done => false
  | _ => true

namespace ServerState

/-- Somebody will look at the backlog again. -/
def Recovering (s : ServerState) : Prop :=
  s.edge = true ∨ .listener ∈ s.fetched ∨ ∃ e ∈ s.execs, e.pc.rechecks = true

/-- While the loop runs, a backlog below the limit is not forgotten. -/
def BacklogWatched (s : ServerState) : Prop :=
  s.loop = .running → s.listening = true ∧
    (0 < s.backlog → s.activeConnections < maxTotalConnections → Recovering s)

/-- `accept` fails with `EAGAIN` or a transient error only, and the final cleanup
waits for the end of the loop. -/
def acceptRetries (s : ServerState) : ServerAction → Prop
  | .advance _ .fatal => False
  | .cleanup => s.loop = .stopped
  | _ => True

instance : ∀ s action, Decidable (acceptRetries s action) := by
  intro s action
  unfold acceptRetries
  split <;> infer_instance

section Recovery

variable {s s' : ServerState} {e : Exec}

theorem recovering_of_exec {other : Exec} (hmem : other ∈ s.execs)
    (hrechecks : other.pc.rechecks = true) : Recovering s :=
  .inr (.inr ⟨other, hmem, hrechecks⟩)

/-- Edges, events and executions that are kept go on being watched. -/
theorem Recovering.mono (hrecovering : Recovering s) (hedge : s'.edge = s.edge)
    (hfetched : .listener ∈ s.fetched → .listener ∈ s'.fetched)
    (hexecs : ∀ other ∈ s.execs, other ∈ s'.execs) : Recovering s' := by
  rcases hrecovering with hset | hlistener | ⟨other, hmem, hrechecks⟩
  · exact .inl (hedge.trans hset)
  · exact .inr (.inl (hfetched hlistener))
  · exact recovering_of_exec (hexecs other hmem) hrechecks

/-- An execution without a check ahead is not missed. -/
theorem Recovering.erase (hrecovering : Recovering s) (hpc : e.pc.rechecks = false)
    (hedge : s'.edge = s.edge) (hfetched : s'.fetched = s.fetched)
    (hexecs : ∀ other ∈ s.execs.erase e, other ∈ s'.execs) : Recovering s' := by
  rcases hrecovering with hset | hlistener | ⟨other, hmem, hrechecks⟩
  · exact .inl (hedge.trans hset)
  · exact .inr (.inl (by rwa [hfetched]))
  · have hne : other ≠ e := by
      rintro rfl
      simp [hpc] at hrechecks
    exact recovering_of_exec (hexecs other ((List.mem_erase_of_ne hne).mpr hmem)) hrechecks

/-- A step of an execution: it goes on to a capacity check, or has just made one,
or found the backlog empty. -/
theorem backlogWatched_advance {outcome : Outcome} (hwatched : BacklogWatched s)
    (hretries : acceptRetries s (.advance e outcome))
    (hadvances : Advances s e outcome s') : BacklogWatched s' := by
  cases hadvances with
  | notFound target hpc hfind =>
      intro hloop
      refine ⟨(hwatched hloop).1, fun hbacklog hroom => ?_⟩
      refine ((hwatched hloop).2 hbacklog hroom).erase (e := e) (by rw [hpc]; rfl) rfl rfl ?_
      exact fun other hother => List.mem_cons_of_mem _ hother
  | returned hpc =>
      intro hloop
      refine ⟨(hwatched hloop).1, fun hbacklog hroom => ?_⟩
      refine ((hwatched hloop).2 hbacklog hroom).erase (e := e) (by rw [hpc]; rfl) rfl rfl ?_
      exact fun other hother => hother
  | full hpc hfull =>
      intro hloop
      refine ⟨(hwatched hloop).1, fun _ hroom => ?_⟩
      exact absurd hroom (Nat.not_lt.mpr (hfull hloop))
  | drained hpc hempty =>
      intro hloop
      refine ⟨(hwatched hloop).1, fun hbacklog _ => ?_⟩
      exact absurd hempty (Nat.ne_of_gt hbacklog)
  | failed hpc => exact absurd hretries id
  | unregistered conn hpc hremoved =>
      intro hloop
      have hrunning : s.loop = .running := by
        simp only [unregister] at hloop
        split at hloop <;> exact hloop
      have hlistening := (hwatched hrunning).1
      rw [unregister, if_pos ⟨hrunning, hlistening⟩]
      exact ⟨hlistening, fun _ _ => recovering_of_exec List.mem_cons_self rfl⟩
  | acquired conn hpc =>
      intro hloop
      refine ⟨(hwatched hloop).1, fun _ _ => recovering_of_exec List.mem_cons_self ?_⟩
      dsimp only
      split <;> rfl
  | _ =>
      intro hloop
      exact ⟨(hwatched hloop).1, fun _ _ => recovering_of_exec List.mem_cons_self rfl⟩

/-- A step that is not an execution's keeps the watch, as long as the loop, the
counter and the executions stay. -/
theorem BacklogWatched.kept (hwatched : BacklogWatched s) (hloop : s'.loop = s.loop)
    (hlistening : s'.listening = s.listening) (hbacklog : s'.backlog = s.backlog)
    (hcounter : s'.activeConnections = s.activeConnections)
    (hrecovering : Recovering s → Recovering s') : BacklogWatched s' := by
  intro hrunning
  rw [hloop] at hrunning
  refine ⟨hlistening.trans (hwatched hrunning).1, fun hwaiting hroom => ?_⟩
  rw [hbacklog] at hwaiting
  rw [hcounter] at hroom
  exact hrecovering ((hwatched hrunning).2 hwaiting hroom)

theorem backlogWatched_step (s : ServerState) (action : ServerAction) (s' : ServerState)
    (hwatched : BacklogWatched s) (hretries : acceptRetries s action)
    (hstep : s.step action = some s') : BacklogWatched s' := by
  -- popping another event keeps the one of the listening socket
  have hpop : ∀ {event : Fetched} {rest : List Fetched}, s.fetched = event :: rest →
      event ≠ .listener → .listener ∈ s.fetched → .listener ∈ rest := by
    intro event rest hfetched hne hmem
    rw [hfetched] at hmem
    rcases List.mem_cons.mp hmem with heq | hrest
    · exact absurd heq.symm hne
    · exact hrest
  cases steps_of_step hstep with
  | advance e outcome _ hmem hadvances =>
      exact backlogWatched_advance hwatched hretries hadvances
  | arrive =>
      intro hloop
      exact ⟨(hwatched hloop).1, fun _ _ => .inl rfl⟩
  | fetch batch hfetched hreports =>
      refine hwatched.kept rfl rfl rfl rfl ?_
      rintro (hset | hlistener | hexec)
      · by_cases hbatch : .listener ∈ batch
        · exact .inr (.inl hbatch)
        · exact .inl (by simp [hset, hbatch])
      · simp [hfetched] at hlistener
      · exact .inr (.inr hexec)
  | dispatchAccept rest hfetched hfree hloop =>
      intro hrunning
      exact ⟨(hwatched hrunning).1, fun _ _ => recovering_of_exec List.mem_cons_self rfl⟩
  | dispatchIgnored rest hfetched hloop => exact fun hrunning => absurd hrunning hloop
  | dispatchHangUp target rest hfetched hfree =>
      exact hwatched.kept rfl rfl rfl rfl fun hrecovering =>
        hrecovering.mono rfl (hpop hfetched (by simp)) fun _ => List.mem_cons_of_mem _
  | dispatchRead target rest hfetched =>
      exact hwatched.kept rfl rfl rfl rfl fun hrecovering =>
        hrecovering.mono rfl (hpop hfetched (by simp)) fun _ => id
  | dispatchWrite target rest hfetched =>
      exact hwatched.kept rfl rfl rfl rfl fun hrecovering =>
        hrecovering.mono rfl (hpop hfetched (by simp)) fun _ => id
  | removeIdle first rest hidle hfree =>
      exact hwatched.kept rfl rfl rfl rfl fun hrecovering =>
        hrecovering.mono rfl id fun _ => List.mem_cons_of_mem _
  | remove task hmem =>
      exact hwatched.kept rfl rfl rfl rfl fun hrecovering =>
        hrecovering.mono rfl id fun _ => List.mem_cons_of_mem _
  | stop hloop => exact fun hrunning => LoopState.noConfusion hrunning
  | closeListener hloop =>
      intro hrunning
      rw [hloop] at hrunning
      exact LoopState.noConfusion hrunning
  | finishStopping => exact fun hrunning => LoopState.noConfusion hrunning
  | cleanup hwaiting =>
      intro hrunning
      rw [show s.cleanupAllConnections.loop = s.loop from rfl, hretries] at hrunning
      exact LoopState.noConfusion hrunning
  | _ => exact hwatched.kept rfl rfl rfl rfl id

/-- When nothing is left to be done about it, a backlog means that the server is
full, and the removal that makes room goes on to accept. -/
theorem backlog_recovered {actions : List ServerAction}
    (hguarded : Guarded step acceptRetries {} actions) (hrun : run step {} actions = some s)
    (hloop : s.loop = .running) :
    ((∀ e ∈ s.execs, e.pc = .done) → s.edge = false → .listener ∉ s.fetched →
      0 < s.backlog → maxTotalConnections ≤ s.activeConnections) ∧
    ∀ e ∈ s.execs, ∀ conn, e.pc = .unregistering → e.removed = some conn →
      ∃ s', s.step (.advance e .proceed) = some s' ∧
        { e with pc := .loading } ∈ s'.execs := by
  have hstart : BacklogWatched {} := fun _ => ⟨rfl, fun hbacklog => absurd hbacklog (by simp)⟩
  obtain ⟨hlistening, hwatched⟩ :=
    GuardedRun.invariant backlogWatched_step hstart hguarded hrun hloop
  constructor
  · intro hidle hedge hfetched hbacklog
    by_contra hroom
    rcases hwatched hbacklog (Nat.lt_of_not_le hroom) with hset | hlistener | ⟨e, hmem, hpc⟩
    · simp [hedge] at hset
    · exact hfetched hlistener
    · simp [hidle e hmem, Pc.rechecks] at hpc
  · intro e hmem conn hpc hremoved
    refine ⟨s.unregister e conn, by simp [step, advance, hmem, hpc, hremoved], ?_⟩
    rw [unregister, if_pos ⟨hloop, hlistening⟩]
    exact List.mem_cons_self

/-- A worker has given up the slot of one client while another arrives. -/
def slotFreed : List ServerAction :=
  let conn : ConnRef := { id := 0, fd := 5, ip := [1] }
  acceptsClient conn ++
    [.fetch [.readable conn.target], .dispatch, .remove { conn := conn, reading := true }] ++
    subtractsClient { task := some conn, pc := .loading } conn ++ [.arrive]

theorem backlog_recovered_slotFreed :
    let conn : ConnRef := { id := 0, fd := 5, ip := [1] }
    let e : Exec := { task := some conn, removed := some conn, pc := .unregistering }
    ∃ s, run step {} slotFreed = some s ∧ s.backlog = 1 ∧
      ∃ s', s.step (.advance e .proceed) = some s' ∧
        { e with pc := .loading } ∈ s'.execs := by
  intro conn e
  obtain ⟨s, hrun, hloop, hbacklog, hmem⟩ := @exists_reached _ _ step {} slotFreed
    (fun s => s.loop = .running ∧ s.backlog = 1 ∧ e ∈ s.execs) _ (by decide +kernel)
  have hguarded : Guarded step acceptRetries {} slotFreed := by decide +kernel
  exact ⟨s, hrun, hbacklog, (backlog_recovered hguarded hrun hloop).2 e hmem conn rfl rfl⟩

end Recovery

end ServerState

end HttpServer
