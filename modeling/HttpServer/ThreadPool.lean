/-
The worker threads around the task queue.  A task may call `submit` while it
runs, so the consumers of the bounded queue are also producers into it.  A
locked section of the queue and every move of a worker between two of them is
one step; a section whose wait predicate is false is not possible.
-/
import HttpServer.TaskQueue

namespace HttpServer

open GuardedRun

universe u

variable {α : Type u}

def workerThreads : Nat := 64

instance : NeZero workerThreads := ⟨by decide⟩

/-- Where a worker is in its loop. -/
inductive Worker (α : Type u) where
  /-- At `remove`. -/
  | removing
  | running (task : α)
  /-- Inside a call of `submit` that its task has made. -/
  | submitting (task inner : α)
  /-- `remove` has returned the empty function. -/
  | exited

structure PoolState (α : Type u) where
  queue : TaskQueue α := {}
  workers : Fin workerThreads → Worker α := fun _ => .removing

inductive PoolAction (α : Type u) where
  /-- The event loop's call of `submit` returns. -/
  | produce (task : α)
  | remove (worker : Fin workerThreads) (leftover : Option α)
  | callSubmit (worker : Fin workerThreads) (inner : α)
  | submitReturns (worker : Fin workerThreads)
  | finishTask (worker : Fin workerThreads)
  | stop

namespace PoolState

def move (s : PoolState α) (worker : Fin workerThreads) (place : Worker α) : PoolState α :=
  { s with workers := Function.update s.workers worker place }

@[simp] theorem move_self (s : PoolState α) (worker : Fin workerThreads) (place : Worker α) :
    (s.move worker place).workers worker = place :=
  Function.update_self ..

theorem move_other (s : PoolState α) {worker other : Fin workerThreads} (place : Worker α)
    (hother : other ≠ worker) : (s.move worker place).workers other = s.workers other :=
  Function.update_of_ne hother ..

def step (s : PoolState α) : PoolAction α → Option (PoolState α)
  | .produce task => (s.queue.submit (some task)).map fun result => { s with queue := result.1 }
  | .remove worker leftover =>
      match s.workers worker with
      | .removing =>
          (s.queue.remove leftover).map fun result =>
            { s with queue := result.1 }.move worker
              (match result.2 with
                | some task => .running task
                | none => .exited)
      | _ => none
  | .callSubmit worker inner =>
      match s.workers worker with
      | .running task => some (s.move worker (.submitting task inner))
      | _ => none
  | .submitReturns worker =>
      match s.workers worker with
      | .submitting task inner =>
          (s.queue.submit (some inner)).map fun result =>
            { s with queue := result.1 }.move worker (.running task)
      | _ => none
  | .finishTask worker =>
      match s.workers worker with
      | .running _ => some (s.move worker .removing)
      | _ => none
  | .stop => some { s with queue := s.queue.stop }

end PoolState

def Worker.isSubmitting : Worker α → Bool
  | .submitting _ _ => true
  | _ => false

/-- Inside `submit`, and its wait predicate is false. -/
def PoolState.Blocked (s : PoolState α) (worker : Fin workerThreads) : Prop :=
  (s.workers worker).isSubmitting = true ∧
    ¬ (s.queue.bufferLen < queueCapacity ∨ s.queue.shutdown = true)

/-- Open with a task to be run: some worker does not wait for queue space. -/
def HasFreeWorker (s : PoolState α) : Prop :=
  s.queue.shutdown = false → 0 < s.queue.bufferLen → ∃ worker, ¬ s.Blocked worker

/-- The last worker outside `submit` enters it only while there is room in the queue, and
while all are inside the event loop leaves them a slot. -/
def leavesRoom (s : PoolState α) : PoolAction α → Prop
  | .callSubmit worker _ =>
      (∀ other, other ≠ worker → (s.workers other).isSubmitting = true) →
        s.queue.bufferLen < queueCapacity ∨ s.queue.shutdown = true
  | .produce _ =>
      (∀ worker, (s.workers worker).isSubmitting = true) →
        s.queue.bufferLen + 1 < queueCapacity ∨ s.queue.shutdown = true
  | _ => True

section Steps

variable {s next : PoolState α} {worker : Fin workerThreads}

theorem hasFreeWorker_of_outside (houtside : (s.workers worker).isSubmitting = false) :
    HasFreeWorker s := by
  refine fun _ _ => ⟨worker, fun hblocked => ?_⟩
  rw [hblocked.1] at houtside
  contradiction

/-- A worker that has moved somewhere else is free. -/
theorem hasFreeWorker_move {place : Worker α} (houtside : place.isSubmitting = false) :
    HasFreeWorker (s.move worker place) := by
  apply hasFreeWorker_of_outside
  rw [s.move_self]
  exact houtside

/-- The pool is stuck when every worker is inside `submit` and the queue is full. -/
theorem hasFreeWorker_iff :
    HasFreeWorker s ↔ ((∀ worker, (s.workers worker).isSubmitting = true) →
      s.queue.bufferLen < queueCapacity ∨ s.queue.shutdown = true) := by
  constructor
  · intro hfree hall
    by_contra hfull
    have hopen : s.queue.shutdown = false := by simpa using fun h => hfull (Or.inr h)
    have hlong : queueCapacity ≤ s.queue.bufferLen := Nat.not_lt.mp fun h => hfull (Or.inl h)
    obtain ⟨worker, hworker⟩ := hfree hopen (Nat.lt_of_lt_of_le (by decide) hlong)
    exact hworker ⟨hall worker, hfull⟩
  · intro hroom
    by_cases hall : ∀ worker, (s.workers worker).isSubmitting = true
    · exact fun _ _ => ⟨0, fun hblocked => hblocked.2 (hroom hall)⟩
    · simp only [not_forall, Bool.not_eq_true] at hall
      obtain ⟨worker, houtside⟩ := hall
      exact hasFreeWorker_of_outside houtside

/-- A worker enters `submit`. -/
theorem callSubmit_iff {inner : α} (hstep : s.step (.callSubmit worker inner) = some next) :
    HasFreeWorker next ↔ leavesRoom s (.callSubmit worker inner) := by
  rw [PoolState.step] at hstep
  split at hstep
  · next task _ =>
      obtain rfl := Option.some.inj hstep
      rw [hasFreeWorker_iff, leavesRoom]
      have hall : (∀ other, ((s.move worker (.submitting task inner)).workers
          other).isSubmitting = true) ↔
            ∀ other, other ≠ worker → (s.workers other).isSubmitting = true := by
        constructor
        · intro hsubmitting other hother
          have hthere := hsubmitting other
          rwa [s.move_other _ hother] at hthere
        · intro hothers other
          by_cases hother : other = worker
          · subst hother
            rw [s.move_self]
            rfl
          · rw [s.move_other _ hother]
            exact hothers other hother
      rw [hall]
      rfl
  · contradiction

/-- The event loop puts a task into the queue, or is turned away. -/
theorem produce_iff {task : α} (hstep : s.step (.produce task) = some next) :
    HasFreeWorker next ↔ leavesRoom s (.produce task) := by
  obtain ⟨result, hsubmit, rfl⟩ := Option.map_eq_some_iff.mp hstep
  rw [hasFreeWorker_iff, leavesRoom]
  rw [TaskQueue.submit] at hsubmit
  split at hsubmit
  · split at hsubmit
    · next hshut =>
        obtain rfl := Option.some.inj hsubmit
        simp [hshut]
    · next hopen =>
        obtain rfl := Option.some.inj hsubmit
        rfl
  · contradiction

/-- The condition says exactly whether a step leaves a worker free. -/
theorem leavesRoom_exact {action : PoolAction α} (hstep : s.step action = some next) :
    HasFreeWorker next ↔ leavesRoom s action := by
  cases action with
  | produce task => exact produce_iff hstep
  | callSubmit worker inner => exact callSubmit_iff hstep
  | remove worker leftover =>
      rw [PoolState.step] at hstep
      split at hstep
      · obtain ⟨result, _, rfl⟩ := Option.map_eq_some_iff.mp hstep
        refine iff_of_true (hasFreeWorker_move ?_) trivial
        split <;> rfl
      · contradiction
  | submitReturns worker =>
      rw [PoolState.step] at hstep
      split at hstep
      · obtain ⟨result, _, rfl⟩ := Option.map_eq_some_iff.mp hstep
        exact iff_of_true (hasFreeWorker_move rfl) trivial
      · contradiction
  | finishTask worker =>
      rw [PoolState.step] at hstep
      split at hstep
      · obtain rfl := Option.some.inj hstep
        exact iff_of_true (hasFreeWorker_move rfl) trivial
      · contradiction
  | stop =>
      obtain rfl := Option.some.inj hstep
      exact iff_of_true (fun hopen => nomatch hopen) trivial

end Steps

/-- In every state of a run that is open and has a task queued some worker does not wait
for queue space, exactly when every step of the run leaves room. -/
theorem hasFreeWorker_throughout_iff {actions : List (PoolAction α)} {final : PoolState α}
    (hrun : run PoolState.step {} actions = some final) :
    Throughout PoolState.step HasFreeWorker {} actions ↔
      Guarded PoolState.step leavesRoom {} actions := by
  have hstart : HasFreeWorker ({} : PoolState α) := @hasFreeWorker_of_outside _ _ 0 rfl
  exact @throughout_iff_guarded _ _ PoolState.step leavesRoom (fun _ => True) HasFreeWorker
    (fun _ _ _ _ _ => trivial) (fun _ _ _ _ _ hstep => leavesRoom_exact hstep)
    actions {} final trivial hstart hrun

/-- One task that submits another, with room in the queue. -/
def resubmittingTask : List (PoolAction Nat) :=
  [.produce 1, .remove 0 none, .callSubmit 0 2, .submitReturns 0, .finishTask 0]

theorem resubmittingTask_hasFreeWorker :
    (run PoolState.step {} resubmittingTask).isSome ∧
      Throughout PoolState.step HasFreeWorker {} resubmittingTask := by
  have hrun : (run PoolState.step {} resubmittingTask).isSome := rfl
  obtain ⟨final, hfinal⟩ := Option.isSome_iff_exists.mp hrun
  refine ⟨hrun, (hasFreeWorker_throughout_iff hfinal).mpr ?_⟩
  exact ⟨fun _ => Or.inl (by decide), trivial, fun _ => Or.inl (by decide), trivial, trivial,
    trivial⟩

section Deadlock

variable (task : α)

/-- The queue is open and empty, and its two indices agree. -/
def PoolState.Drained (s : PoolState α) : Prop :=
  s.queue.bufferLen = 0 ∧ s.queue.shutdown = false ∧ s.queue.head = s.queue.tail

/-- Hand a task to each of these workers. -/
def startAll (workers : List (Fin workerThreads)) : List (PoolAction α) :=
  workers.flatMap fun worker => [.produce task, .remove worker none]

theorem run_startOne {s : PoolState α} (hdrained : s.Drained) {worker : Fin workerThreads}
    (hworker : s.workers worker = .removing) :
    ∃ next, run PoolState.step s [.produce task, .remove worker none] = some next ∧
      next.Drained ∧ next.workers = Function.update s.workers worker (.running task) := by
  obtain ⟨hempty, hopen, haligned⟩ := hdrained
  have hroom : (0 : Nat) < queueCapacity := by decide
  let full : TaskQueue α :=
    { s.queue with
      tasks := Function.update s.queue.tasks (Fin.ofNat queueCapacity s.queue.tail) (some task)
      tail := (s.queue.tail + 1) % queueCapacity
      bufferLen := 1 }
  let left : TaskQueue α :=
    { full with
      tasks := Function.update full.tasks (Fin.ofNat queueCapacity full.head) none
      head := (full.head + 1) % queueCapacity
      bufferLen := 0 }
  have hsubmit : s.queue.submit (some task) = some (full, true) := by
    simp only [TaskQueue.submit, hempty, hopen, hroom, true_or, Bool.false_eq_true, ↓reduceIte,
      Nat.zero_add, full]
  have hstored : full.tasks (Fin.ofNat queueCapacity full.head) = some task := by
    simp only [full, haligned, Function.update_self]
  have hremove : full.remove none = some (left, some task) := by
    rw [TaskQueue.remove, if_pos (Or.inl Nat.one_pos), hstored]
    rfl
  refine ⟨{ s with queue := left }.move worker (.running task), ?_, ⟨rfl, hopen, ?_⟩, rfl⟩
  · simp only [run, PoolState.step, hsubmit, Option.map_some, hworker, hremove]
  · simp only [PoolState.move, left, full, haligned]

theorem run_startAll (workers : List (Fin workerThreads)) :
    ∀ s : PoolState α, workers.Nodup → s.Drained →
      (∀ worker ∈ workers, s.workers worker = .removing) →
        ∃ next, run PoolState.step s (startAll task workers) = some next ∧ next.Drained ∧
          (∀ worker ∈ workers, next.workers worker = .running task) ∧
          ∀ worker, worker ∉ workers → next.workers worker = s.workers worker := by
  induction workers with
  | nil => exact fun s _ hdrained _ => ⟨s, rfl, hdrained, nofun, fun _ _ => rfl⟩
  | cons worker workers ih =>
      intro s hnodup hdrained hremoving
      obtain ⟨hnew, hnodup⟩ := List.nodup_cons.mp hnodup
      obtain ⟨first, hfirst, hdrained', hworkers⟩ :=
        run_startOne task hdrained (hremoving worker List.mem_cons_self)
      have hothers : ∀ other ∈ workers, first.workers other = .removing := by
        intro other hother
        have hne : other ≠ worker := fun h => hnew (h ▸ hother)
        rw [hworkers, Function.update_of_ne hne]
        exact hremoving other (List.mem_cons_of_mem _ hother)
      obtain ⟨next, hnext, hdrained'', hrunning, hsame⟩ := ih first hnodup hdrained' hothers
      refine ⟨next, ?_, hdrained'', ?_, ?_⟩
      · rw [startAll, List.flatMap_cons, run_append, hfirst]
        exact hnext
      · intro other hother
        rcases List.mem_cons.mp hother with rfl | hother
        · rw [hsame other hnew, hworkers, Function.update_self]
        · exact hrunning other hother
      · intro other hother
        simp only [List.mem_cons, not_or] at hother
        rw [hsame other hother.2, hworkers, Function.update_of_ne hother.1]

/-- The event loop fills the queue. -/
theorem run_produce (count : Nat) :
    ∀ s : PoolState α, s.queue.shutdown = false →
      s.queue.bufferLen + count ≤ queueCapacity →
        ∃ next, run PoolState.step s (List.replicate count (.produce task)) = some next ∧
          next.queue.bufferLen = s.queue.bufferLen + count ∧ next.queue.shutdown = false ∧
          next.workers = s.workers := by
  induction count with
  | zero => exact fun s hopen _ => ⟨s, rfl, rfl, hopen, rfl⟩
  | succ count ih =>
      intro s hopen hroom
      have hfree : s.queue.bufferLen < queueCapacity := by omega
      obtain ⟨full, hsubmit, hlength, hstill⟩ : ∃ full : TaskQueue α,
          s.queue.submit (some task) = some (full, true) ∧
            full.bufferLen = s.queue.bufferLen + 1 ∧ full.shutdown = false := by
        simp only [TaskQueue.submit, hfree, hopen, true_or, Bool.false_eq_true, ↓reduceIte]
        exact ⟨_, rfl, rfl, rfl⟩
      obtain ⟨next, hnext, hlength', hopen', hworkers⟩ :=
        ih { s with queue := full } hstill (by simp only [hlength]; omega)
      refine ⟨next, ?_, ?_, hopen', hworkers⟩
      · simp only [List.replicate_succ, run, PoolState.step, hsubmit, Option.map_some]
        exact hnext
      · rw [hlength', hlength]
        omega

/-- Each of these workers calls `submit`. -/
theorem run_callSubmit (workers : List (Fin workerThreads)) :
    ∀ s : PoolState α, workers.Nodup →
      (∀ worker ∈ workers, s.workers worker = .running task) →
        ∃ next, run PoolState.step s (workers.map fun worker => .callSubmit worker task) =
            some next ∧ next.queue = s.queue ∧
          (∀ worker ∈ workers, next.workers worker = .submitting task task) ∧
          ∀ worker, worker ∉ workers → next.workers worker = s.workers worker := by
  induction workers with
  | nil => exact fun s _ _ => ⟨s, rfl, rfl, nofun, fun _ _ => rfl⟩
  | cons worker workers ih =>
      intro s hnodup hrunning
      obtain ⟨hnew, hnodup⟩ := List.nodup_cons.mp hnodup
      have hothers : ∀ other ∈ workers,
          (s.move worker (.submitting task task)).workers other = .running task := by
        intro other hother
        have hne : other ≠ worker := fun h => hnew (h ▸ hother)
        rw [s.move_other _ hne]
        exact hrunning other (List.mem_cons_of_mem _ hother)
      obtain ⟨next, hnext, hqueue, hsubmitting, hsame⟩ := ih _ hnodup hothers
      refine ⟨next, ?_, hqueue, ?_, ?_⟩
      · simp only [List.map_cons, run, PoolState.step, hrunning worker List.mem_cons_self]
        exact hnext
      · intro other hother
        rcases List.mem_cons.mp hother with rfl | hother
        · rw [hsame other hnew, s.move_self]
        · exact hsubmitting other hother
      · intro other hother
        simp only [List.mem_cons, not_or] at hother
        rw [hsame other hother.2, s.move_other _ hother.1]

end Deadlock

/-- Every worker has a task, the event loop fills the queue, and every task submits
another one. -/
def floodedPool : List (PoolAction Unit) :=
  startAll () (List.finRange workerThreads) ++
    (List.replicate queueCapacity (.produce ()) ++
      (List.finRange workerThreads).map fun worker => .callSubmit worker ())

/-- All workers wait for queue space, and nobody else takes tasks out. -/
theorem floodedPool_deadlocked :
    ∃ s, run PoolState.step {} floodedPool = some s ∧ ¬ HasFreeWorker s := by
  obtain ⟨started, hstarted, hdrained, hrunning, _⟩ := run_startAll () (List.finRange workerThreads)
    {} (List.nodup_finRange _) ⟨rfl, rfl, rfl⟩ (fun _ _ => rfl)
  obtain ⟨full, hfull, hlength, hopen, hworkers⟩ := run_produce () queueCapacity started
    hdrained.2.1 (by rw [hdrained.1, Nat.zero_add])
  have hstill : ∀ worker ∈ List.finRange workerThreads, full.workers worker = .running () := by
    rw [hworkers]
    exact hrunning
  obtain ⟨stuck, hstuck, hqueue, hsubmitting, _⟩ := run_callSubmit ()
    (List.finRange workerThreads) full (List.nodup_finRange _) hstill
  refine ⟨stuck, ?_, fun hfree => ?_⟩
  · rw [floodedPool, run_append, hstarted, Option.bind_some, run_append, hfull,
      Option.bind_some, hstuck]
  · have hroom := hasFreeWorker_iff.mp hfree fun worker => by
      rw [hsubmitting worker (List.mem_finRange _)]
      rfl
    rw [hqueue, hlength, hdrained.1, hopen] at hroom
    simp at hroom

end HttpServer
