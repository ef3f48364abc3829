/-
Events, the idle list and resubmitted closures identify a connection by its
descriptor number.  A call by number reaches the connection it was meant for as
long as `accept` returns no number that is still mentioned somewhere.
-/
import HttpServer.DescriptorNames

namespace HttpServer

open GuardedRun

def Pc.target? : Pc → Option Target
  | .removing target => some target
  | _ => none

namespace ServerState

/-- Every descriptor number that is held or mentioned. -/
def numbers (s : ServerState) : List Nat :=
  (s.fetched.filterMap Fetched.target? ++ s.idle ++ s.resubmitted ++
      s.execs.filterMap fun e => e.pc.target?).map Target.fd ++
    (s.registered ++ s.connections ++ s.tasks.map WorkerTask.conn ++
      s.execs.flatMap Exec.shares ++ s.execs.filterMap fun e => e.pc.private?).map ConnRef.fd

/-- `accept` returns a number that nothing holds or mentions. -/
def numberUnused (s : ServerState) : ServerAction → Prop
  | .advance _ (.client fd _) => fd ∉ s.numbers
  | _ => True

instance : ∀ s action, Decidable (numberUnused s action) := by
  intro s action
  unfold numberUnused
  split <;> infer_instance

/-- Each number stands for one object. -/
def OneEach (owner : Nat → Nat) (target : Target) : Prop := target.meant = owner target.fd

def NumbersOwned (owner : Nat → Nat) (s : ServerState) : Prop :=
  AllNamed (OneEach owner) (OneEach owner) (OneEach owner) s

section Reuse

variable {s s' : ServerState}

theorem allNamed_numbers (s : ServerState) :
    AllNamed (fun target => target.fd ∈ s.numbers) (fun target => target.fd ∈ s.numbers)
      (fun target => target.fd ∈ s.numbers) s where
  inBatch event hevent target htarget := by
    refine List.mem_append_left _ (List.mem_map_of_mem ?_)
    simp only [List.mem_append, List.mem_filterMap]
    exact .inl (.inl (.inl ⟨event, hevent, htarget⟩))
  inIdle target htarget := by
    refine List.mem_append_left _ (List.mem_map_of_mem ?_)
    simp [htarget]
  inResubmitted target htarget := by
    refine List.mem_append_left _ (List.mem_map_of_mem ?_)
    simp [htarget]
  inEpoll conn hconn := by
    refine List.mem_append_right _ (List.mem_map.mpr ⟨conn, ?_, rfl⟩)
    simp [hconn]
  inMap conn hconn := by
    refine List.mem_append_right _ (List.mem_map.mpr ⟨conn, ?_, rfl⟩)
    simp [hconn]
  inTasks task htask := by
    refine List.mem_append_right _ (List.mem_map.mpr ⟨task.conn, ?_, rfl⟩)
    simp only [List.mem_append]
    exact .inl (.inl (.inr (List.mem_map_of_mem htask)))
  inExecs e he conn hconn := by
    refine List.mem_append_right _ (List.mem_map.mpr ⟨conn, ?_, rfl⟩)
    simp only [List.mem_append]
    exact .inl (.inr (List.mem_flatMap.mpr ⟨e, he, hconn⟩))
  inCalls e he target hpc := by
    refine List.mem_append_left _ (List.mem_map_of_mem ?_)
    refine List.mem_append_right _ (List.mem_filterMap.mpr ⟨e, he, ?_⟩)
    rw [hpc]
    rfl
  inPrivate e he conn hconn := by
    refine List.mem_append_right _ (List.mem_map.mpr ⟨conn, ?_, rfl⟩)
    exact List.mem_append_right _ (List.mem_filterMap.mpr ⟨e, he, hconn⟩)

/-- A new owner for a number that is not in use changes nothing. -/
theorem allNamed_update {owner : Nat → Nat} {fd : Nat}
    (hnamed : NumbersOwned owner s) (hunused : fd ∉ s.numbers) (id : Nat) :
    NumbersOwned (Function.update owner fd id) s := by
  have hchange : ∀ target : Target, OneEach owner target → target.fd ∈ s.numbers →
      OneEach (Function.update owner fd id) target := by
    intro target howner hnumber
    have hne : target.fd ≠ fd := fun heq => hunused (heq ▸ hnumber)
    rw [OneEach, Function.update_of_ne hne]
    exact howner
  exact hnamed.both (allNamed_numbers s) hchange hchange hchange

/-- A call by number finds the object it was meant for. -/
theorem acts_step {owner : Nat → Nat} {action : ServerAction}
    (hnamed : NumbersOwned owner s)
    (hacts : ∀ act ∈ s.acts, act.1 = act.2) (hsteps : Steps s action s') :
    ∀ act ∈ s'.acts, act.1 = act.2 := by
  have hmeant : ∀ {target : Target} {conn : ConnRef}, OneEach owner target →
      s.find target.fd = some conn → target.meant = conn.id := by
    intro target conn htarget hfind
    obtain ⟨hconn, hfd⟩ := mem_of_find hfind
    have hobject := hnamed.inMap conn hconn
    rw [htarget, ← hfd]
    exact hobject.symm
  have hread : ∀ {target : Target}, OneEach owner target →
      ∀ act ∈ ((if s.loop = .running then s.find target.fd else none).map
        fun conn => (target.meant, conn.id)).toList ++ s.acts, act.1 = act.2 := by
    intro target htarget act hact
    rcases List.mem_append.mp hact with hnew | hold
    · simp only [Option.mem_toList, Option.map_eq_some_iff] at hnew
      obtain ⟨conn, hfind, rfl⟩ := hnew
      split at hfind
      · exact hmeant htarget hfind
      · contradiction
    · exact hacts act hold
  cases hsteps with
  | advance e outcome _ hmem hadvances =>
      cases hadvances with
      | erased target conn hpc hfind =>
          intro act hact
          rcases List.mem_cons.mp hact with rfl | hold
          · exact hmeant (hnamed.inCalls e hmem target hpc) hfind
          · exact hacts act hold
      | unregistered conn hpc hremoved =>
          simp only [unregister]
          split <;> exact hacts
      | _ => exact hacts
  | dispatchRead target rest hfetched =>
      exact hread (hnamed.inBatch (.readable target) (by simp [hfetched]) target rfl)
  | runResubmitted target hmem => exact hread (hnamed.inResubmitted target hmem)
  | _ => exact hacts

/-- All calls so far have found what they were meant for, and all numbers in use
are unambiguous. -/
def Unambiguous (s : ServerState) : Prop :=
  (∃ owner, NumbersOwned owner s) ∧ ∀ act ∈ s.acts, act.1 = act.2

theorem unambiguous_step (s : ServerState) (action : ServerAction) (s' : ServerState)
    (hunambiguous : Unambiguous s) (hunused : numberUnused s action)
    (hstep : s.step action = some s') : Unambiguous s' := by
  obtain ⟨⟨owner, hnamed⟩, hacts⟩ := hunambiguous
  have hsteps := steps_of_step hstep
  refine ⟨?_, acts_step hnamed hacts hsteps⟩
  by_cases haccept : ∃ e fd ip, action = .advance e (.client fd ip)
  · obtain ⟨e, fd, ip, rfl⟩ := haccept
    refine ⟨Function.update owner fd s.nextId, ?_⟩
    have hupdated := allNamed_update hnamed hunused s.nextId
    refine allNamed_step (fun _ => id) hupdated ?_ ?_ hsteps
    · intro e fd ip heq
      simp only [ServerAction.advance.injEq, Outcome.client.injEq] at heq
      obtain ⟨-, rfl, -⟩ := heq
      simp [OneEach]
    · intro other hmem _ conn _ hpc
      exact hupdated.inPrivate other hmem conn (by simp [hpc])
  · refine ⟨owner, allNamed_step (fun _ => id) hnamed ?_ ?_ hsteps⟩
    · intro e fd ip heq
      exact absurd ⟨e, fd, ip, heq⟩ haccept
    · intro other hmem _ conn _ hpc
      exact hnamed.inPrivate other hmem conn (by simp [hpc])

/-- Removals and reads by number act on the connection they were meant for, in
every run where `accept` reuses no number that is still mentioned. -/
theorem calls_meant {actions : List ServerAction}
    (hguarded : Guarded step numberUnused {} actions) (hrun : run step {} actions = some s) :
    ∀ act ∈ s.acts, act.1 = act.2 := by
  have hstart : Unambiguous {} := by
    refine ⟨⟨fun _ => 0, ?_⟩, by simp⟩
    constructor <;> simp
  exact (GuardedRun.invariant unambiguous_step hstart hguarded hrun).2

/-- A hang-up of the first client has been fetched.  One worker removes that
client, another removes the second one and accepts a third with number `fd`;
then the hang-up is dispatched. -/
def fetchedHangUp (fd : Nat) : List ServerAction :=
  let first : ConnRef := { id := 0, fd := 5, ip := [1] }
  let second : ConnRef := { id := 1, fd := 6, ip := [2] }
  let third : ConnRef := { id := 2, fd := fd, ip := [3] }
  let worker : Exec := { task := some first, removed := some first, pc := .unregistering }
  let other : Exec := { task := some second, removed := some second, pc := .unregistering }
  acceptsClient first ++ acceptsClient second ++
    [.fetch [.readable first.target, .readable second.target], .dispatch, .dispatch,
      .use { conn := first, reading := true }, .resubmit { conn := first, reading := true },
      .finish { conn := first, reading := true }, .runResubmitted first.target,
      .fetch [.hangUp first.target], .remove { conn := first, reading := true }] ++
    subtractsClient { worker with removed := none } first ++
    [.advance worker .proceed, .advance { worker with pc := .loading } .proceed,
      .advance { worker with pc := .accepting } .wouldBlock,
      .advance { worker with removed := none, pc := .done } .proceed,
      .arrive, .remove { conn := second, reading := true }] ++
    subtractsClient { other with removed := none } second ++ [.advance other .proceed] ++
    registersClient other third ++
    [.dispatch, .advance { pc := .removing first.target } .proceed]

/-- With a number of its own, the third client is left alone. -/
theorem calls_meant_ownNumber :
    ∃ s, run step {} (fetchedHangUp 7) = some s ∧ s.acts.length = 5 ∧
      ∀ act ∈ s.acts, act.1 = act.2 := by
  obtain ⟨s, hrun, hlength⟩ := @exists_reached _ _ step {} (fetchedHangUp 7)
    (fun s => s.acts.length = 5) _ (by decide +kernel)
  have hguarded : Guarded step numberUnused {} (fetchedHangUp 7) := by decide +kernel
  exact ⟨s, hrun, hlength, calls_meant hguarded hrun⟩

/-- With the number of the first client, it is removed in its place. -/
theorem calls_meant_reusedNumber :
    ∃ s, run step {} (fetchedHangUp 5) = some s ∧ (0, 2) ∈ s.acts ∧
      ¬ ∀ act ∈ s.acts, act.1 = act.2 := by
  obtain ⟨s, hrun, hact⟩ := @exists_reached _ _ step {} (fetchedHangUp 5)
    (fun s => (0, 2) ∈ s.acts) _ (by decide +kernel)
  exact ⟨s, hrun, hact, fun hall => absurd (hall _ hact) (by decide)⟩

end Reuse

end ServerState

end HttpServer
