/-
The task queue of the thread pool: a ring buffer under one mutex, with two wait
predicates and a shutdown flag.  Each locked section is one step; a section
whose wait predicate is false is not possible.
-/
import HttpServer.BoundedFifo
import HttpServer.GuardedRun

namespace HttpServer

open BoundedFifo GuardedRun

universe u

variable {α : Type u}

def queueCapacity : Nat := 1024

instance : NeZero queueCapacity := ⟨by decide⟩

/-- A `std::function<void()>` is a callable of type `α` or empty. -/
structure TaskQueue (α : Type u) where
  tasks : Fin queueCapacity → Option α := fun _ => none
  head : Nat := 0
  tail : Nat := 0
  bufferLen : Nat := 0
  shutdown : Bool := false

namespace TaskQueue

/-- `none` while the wait predicate is false. -/
def submit (q : TaskQueue α) (task : Option α) : Option (TaskQueue α × Bool) :=
  if q.bufferLen < queueCapacity ∨ q.shutdown then
    if q.shutdown then some (q, false)
    else
      some ({ q with
        tasks := Function.update q.tasks (Fin.ofNat queueCapacity q.tail) task
        tail := (q.tail + 1) % queueCapacity
        bufferLen := q.bufferLen + 1 }, true)
  else none

/-- `none` while the wait predicate is false; `leftover` is what the moved-from
slot holds. -/
def remove (q : TaskQueue α) (leftover : Option α) : Option (TaskQueue α × Option α) :=
  if 0 < q.bufferLen ∨ q.shutdown then
    if q.bufferLen = 0 ∧ q.shutdown then some (q, none)
    else
      some ({ q with
        tasks := Function.update q.tasks (Fin.ofNat queueCapacity q.head) leftover
        head := (q.head + 1) % queueCapacity
        bufferLen := q.bufferLen - 1 }, q.tasks (Fin.ofNat queueCapacity q.head))
  else none

def stop (q : TaskQueue α) : TaskQueue α := { q with shutdown := true }

/-- The tasks stored at `head`, `head + 1`, and so on. -/
def stored (q : TaskQueue α) : List (Option α) := window q.tasks q.head q.bufferLen

end TaskQueue

/-- The queue and what producers and workers have seen of it. -/
structure QueueRun (α : Type u) where
  queue : TaskQueue α := {}
  /-- Tasks for which `submit` has returned true. -/
  accepted : List (Option α) := []
  /-- Tasks that `remove` has taken out. -/
  returned : List (Option α) := []
  /-- What had been accepted when `stop` was first called. -/
  acceptedAtStop : Option (List (Option α)) := none
  /-- The queue at each `remove` that has returned the empty function. -/
  emptyReturns : List (TaskQueue α) := []

inductive QueueOp (α : Type u) where
  | submit (task : Option α)
  | remove (leftover : Option α)
  | stop

def queueStep (s : QueueRun α) : QueueOp α → Option (QueueRun α)
  | .submit task =>
      (s.queue.submit task).map fun result =>
        { s with
          queue := result.1
          accepted := if result.2 then s.accepted ++ [task] else s.accepted }
  | .remove leftover =>
      (s.queue.remove leftover).map fun result =>
        { s with
          queue := result.1
          returned :=
            if s.queue.bufferLen = 0 then s.returned else s.returned ++ [result.2]
          emptyReturns :=
            if result.2.isNone then s.queue :: s.emptyReturns else s.emptyReturns }
  | .stop =>
      some
        { s with
          queue := s.queue.stop
          acceptedAtStop := s.acceptedAtStop.or (some s.accepted) }

def QueueOp.abstract : QueueOp α → Fifo.Op (Option α)
  | .submit task => .put task
  | .remove _ => .take
  | .stop => .close

/-- The ring stands for the list. -/
structure Represents (q : TaskQueue α) (f : Fifo (Option α)) : Prop where
  items : q.stored = f.items
  tailAt : q.tail = (q.head + q.bufferLen) % queueCapacity
  closed : q.shutdown = f.closed

namespace Represents

variable {q : TaskQueue α} {f : Fifo (Option α)}

theorem start : Represents ({} : TaskQueue α) {} := ⟨rfl, rfl, rfl⟩

theorem length (hrep : Represents q f) : f.items.length = q.bufferLen := by
  rw [← hrep.items, TaskQueue.stored, length_window]

theorem submit (hrep : Represents q f) {task : Option α} {q' : TaskQueue α} {ok : Bool}
    (hsubmit : q.submit task = some (q', ok)) :
    ∃ f', f.put queueCapacity task = some (f', ok) ∧ Represents q' f' ∧
      f'.accepted = (if ok then f.accepted ++ [task] else f.accepted) ∧
      f'.taken = f.taken := by
  rw [TaskQueue.submit] at hsubmit
  rw [Fifo.put, hrep.length, ← hrep.closed]
  split at hsubmit
  · next hroom =>
      rw [if_pos hroom]
      split at hsubmit
      · next hshut =>
          obtain ⟨rfl, rfl⟩ := Prod.mk.inj (Option.some.inj hsubmit)
          rw [if_pos hshut]
          exact ⟨f, rfl, hrep, rfl, rfl⟩
      · next hopen =>
          obtain ⟨rfl, rfl⟩ := Prod.mk.inj (Option.some.inj hsubmit)
          have hfree : q.bufferLen < queueCapacity := by simpa [hopen] using hroom
          have hslot : Fin.ofNat queueCapacity q.tail =
              Fin.ofNat queueCapacity (q.head + q.bufferLen) := by
            apply Fin.ext
            simp [hrep.tailAt]
          rw [if_neg hopen]
          refine ⟨_, rfl, ⟨?_, ?_, rfl⟩, rfl, rfl⟩
          · rw [TaskQueue.stored, hslot, window_push _ hfree, ← hrep.items]
            rfl
          · simp [hrep.tailAt, Nat.add_assoc]
  · contradiction

/-- A `remove` that returns: the oldest task, or the end of a drained queue. -/
theorem remove (hrep : Represents q f) {leftover : Option α} {q' : TaskQueue α}
    {task : Option α} (hbound : q.bufferLen ≤ queueCapacity)
    (hremove : q.remove leftover = some (q', task)) :
    (q.bufferLen = 0 ∧ q.shutdown = true ∧ q' = q ∧ task = none ∧
        f.take = some (f, none)) ∨
      (q.bufferLen ≠ 0 ∧ task ∈ f.items ∧ ∃ f', f.take = some (f', some task) ∧
        Represents q' f' ∧ f'.accepted = f.accepted ∧ f'.taken = f.taken ++ [task]) := by
  rw [TaskQueue.remove] at hremove
  split at hremove
  · next hready =>
      split at hremove
      · next hdrained =>
          obtain ⟨rfl, rfl⟩ := Prod.mk.inj (Option.some.inj hremove)
          have hitems : f.items = [] := by
            rw [← List.length_eq_zero_iff, hrep.length, hdrained.1]
          left
          refine ⟨hdrained.1, hdrained.2, rfl, rfl, ?_⟩
          simp [Fifo.take, hitems, ← hrep.closed, hdrained.2]
      · next hmore =>
          obtain ⟨rfl, rfl⟩ := Prod.mk.inj (Option.some.inj hremove)
          have hne : q.bufferLen ≠ 0 := by
            intro hempty
            have hshut : q.shutdown = true := by simpa [hempty] using hready
            exact hmore ⟨hempty, hshut⟩
          obtain ⟨count, hcount⟩ := Nat.exists_eq_succ_of_ne_zero hne
          have hitems := hrep.items
          rw [TaskQueue.stored, hcount, window_pop q.tasks (by omega) leftover] at hitems
          right
          refine ⟨hne, ?_, ?_⟩
          · rw [← hitems]
            exact List.mem_cons_self
          · rw [Fifo.take, ← hitems]
            refine ⟨_, rfl, ⟨?_, ?_, hrep.closed⟩, rfl, rfl⟩
            · simp [TaskQueue.stored, hcount, window_mod]
            · simp [hrep.tailAt, hcount]
              congr 1
              omega
  · contradiction

theorem stop (hrep : Represents q f) : Represents q.stop f.close :=
  ⟨hrep.items, hrep.tailAt, rfl⟩

end Represents

/-- A run of the ring next to the run of the list that it stands for. -/
structure Follows (s : QueueRun α) (f : Fifo (Option α)) : Prop where
  represents : Represents s.queue f
  balanced : f.Balanced queueCapacity
  accepted : s.accepted = f.accepted
  returned : s.returned = f.taken
  stopped : s.queue.shutdown = s.acceptedAtStop.isSome
  closed : ∀ before ∈ s.acceptedAtStop, s.accepted = before
  drained : none ∉ s.accepted → ∀ q ∈ s.emptyReturns,
    q.shutdown = true ∧ q.bufferLen = 0

namespace Follows

variable {s : QueueRun α} {f : Fifo (Option α)}

theorem start : Follows ({} : QueueRun α) {} where
  represents := Represents.start
  balanced := Fifo.Balanced.start
  accepted := rfl
  returned := rfl
  stopped := rfl
  closed := by simp
  drained := by simp

theorem bound (hfollows : Follows s f) : s.queue.bufferLen ≤ queueCapacity := by
  rw [← hfollows.represents.length]
  exact hfollows.balanced.bounded

theorem submit (hfollows : Follows s f) {task : Option α} {s' : QueueRun α}
    (hstep : queueStep s (.submit task) = some s') :
    ∃ f', f.step queueCapacity (.put task) = some f' ∧ Follows s' f' := by
  simp only [queueStep, Option.map_eq_some_iff] at hstep
  obtain ⟨⟨q', ok⟩, hsubmit, rfl⟩ := hstep
  obtain ⟨f', hput, hrep, haccepted, htaken⟩ := hfollows.represents.submit hsubmit
  refine ⟨f', by simp [Fifo.step, hput], hrep, hfollows.balanced.put hput, ?_, ?_, ?_, ?_, ?_⟩
  · rw [haccepted, hfollows.accepted]
  · rw [htaken, hfollows.returned]
  · rw [TaskQueue.submit] at hsubmit
    split at hsubmit
    · split at hsubmit <;> obtain ⟨rfl, _⟩ := Prod.mk.inj (Option.some.inj hsubmit) <;>
        exact hfollows.stopped
    · contradiction
  · intro before hbefore
    have hshut : s.queue.shutdown = true := by rw [hfollows.stopped, hbefore]; rfl
    simp only [TaskQueue.submit, hshut, or_true, ↓reduceIte, Option.some.injEq,
      Prod.mk.injEq] at hsubmit
    simp only [← hsubmit.2, Bool.false_eq_true, ↓reduceIte]
    exact hfollows.closed before hbefore
  · intro hfull
    apply hfollows.drained
    intro hmem
    apply hfull
    cases ok with
    | true => exact List.mem_append_left _ hmem
    | false => exact hmem

theorem remove (hfollows : Follows s f) {leftover : Option α} {s' : QueueRun α}
    (hstep : queueStep s (.remove leftover) = some s') :
    ∃ f', f.step queueCapacity .take = some f' ∧ Follows s' f' := by
  simp only [queueStep, Option.map_eq_some_iff] at hstep
  obtain ⟨⟨q', task⟩, hremove, rfl⟩ := hstep
  have hshut : q'.shutdown = s.queue.shutdown := by
    rw [TaskQueue.remove] at hremove
    split at hremove
    · split at hremove <;> obtain ⟨rfl, _⟩ := Prod.mk.inj (Option.some.inj hremove) <;> rfl
    · contradiction
  rcases hfollows.represents.remove hfollows.bound hremove with
    ⟨hempty, hclosed, rfl, rfl, htake⟩ | ⟨hne, hmem, f', htake, hrep, haccepted, htaken⟩
  · refine ⟨f, by simp [Fifo.step, htake], hfollows.represents, hfollows.balanced,
      hfollows.accepted, ?_, hfollows.stopped, hfollows.closed, ?_⟩
    · simpa [hempty] using hfollows.returned
    · intro hfull q hq
      rcases List.mem_cons.mp (by simpa using hq) with rfl | hold
      · exact ⟨hclosed, hempty⟩
      · exact hfollows.drained hfull q hold
  · refine ⟨f', by simp [Fifo.step, htake], hrep, hfollows.balanced.take htake, ?_, ?_, ?_,
      hfollows.closed, ?_⟩
    · rw [haccepted, hfollows.accepted]
    · simp [hne, htaken, hfollows.returned]
    · rw [hshut]
      exact hfollows.stopped
    · intro hfull q hq
      cases task with
      | some callable => exact hfollows.drained hfull q hq
      | none =>
          -- an empty function in the ring has been submitted
          have hsubmitted : none ∈ s.accepted := by
            rw [hfollows.accepted, ← hfollows.balanced.order]
            exact List.mem_append_right _ hmem
          exact absurd hsubmitted hfull

theorem stop (hfollows : Follows s f) {s' : QueueRun α}
    (hstep : queueStep s .stop = some s') :
    ∃ f', f.step queueCapacity .close = some f' ∧ Follows s' f' := by
  obtain rfl := Option.some.inj hstep
  refine ⟨f.close, rfl, hfollows.represents.stop, hfollows.balanced.close, hfollows.accepted,
    hfollows.returned, ?_, ?_, hfollows.drained⟩
  · cases hstop : s.acceptedAtStop <;> simp [TaskQueue.stop]
  · intro before hbefore
    cases hstop : s.acceptedAtStop with
    | none => simpa [hstop] using hbefore
    | some earlier =>
        apply hfollows.closed
        simpa [hstop] using hbefore

theorem step (hfollows : Follows s f) {op : QueueOp α} {s' : QueueRun α}
    (hstep : queueStep s op = some s') :
    ∃ f', f.step queueCapacity op.abstract = some f' ∧ Follows s' f' := by
  cases op with
  | submit task => exact hfollows.submit hstep
  | remove leftover => exact hfollows.remove hstep
  | stop => exact hfollows.stop hstep

end Follows

/-- What every state of the queue guarantees to its users. -/
structure QueueInOrder (s : QueueRun α) : Prop where
  bounded : s.queue.bufferLen ≤ queueCapacity
  tailAt : s.queue.tail = (s.queue.head + s.queue.bufferLen) % queueCapacity
  order : s.returned ++ s.queue.stored = s.accepted
  closed : ∀ before ∈ s.acceptedAtStop, s.accepted = before
  drained : none ∉ s.accepted → ∀ q ∈ s.emptyReturns,
    q.shutdown = true ∧ q.bufferLen = 0

/-- Every run of the ring is a run of the bounded queue, and what it has
accepted is what it has returned and still stores, in that order. -/
theorem taskQueue_refines_fifo {ops : List (QueueOp α)} {s : QueueRun α}
    (hrun : run queueStep {} ops = some s) :
    QueueInOrder s ∧
      ∃ f, run (Fifo.step queueCapacity) {} (ops.map QueueOp.abstract) = some f ∧
        f.items = s.queue.stored ∧ f.closed = s.queue.shutdown ∧
        f.accepted = s.accepted ∧ f.taken = s.returned := by
  obtain ⟨f, hfifo, hfollows⟩ := @run_matched (QueueRun α) (QueueOp α) queueStep _ _
    (Fifo.step queueCapacity) Follows QueueOp.abstract
    (fun _ _ _ _ hrelated hstep => hrelated.step hstep) ops _ _ _ Follows.start hrun
  have hrep := hfollows.represents
  refine ⟨⟨hfollows.bound, hrep.tailAt, ?_, hfollows.closed, hfollows.drained⟩, f, hfifo,
    hrep.items.symm, hrep.closed.symm, hfollows.accepted.symm, hfollows.returned.symm⟩
  rw [hfollows.returned, hrep.items, hfollows.accepted]
  exact hfollows.balanced.order

/-- Two tasks, one of them taken before and one after the stop; a third is
refused, and the last worker is sent home. -/
def drainedQueue : List (QueueOp Nat) :=
  [.submit (some 1), .submit (some 2), .remove none, .stop, .submit (some 3),
    .remove (some 2), .remove none]

theorem taskQueue_refines_fifo_drained :
    ∃ s, run queueStep {} drainedQueue = some s ∧ s.accepted = [some 1, some 2] ∧
      s.returned = [some 1, some 2] ∧ s.emptyReturns.length = 1 ∧ QueueInOrder s := by
  obtain ⟨s, hrun, haccepted, hreturned, hempty⟩ :=
    @exists_reached _ _ queueStep {} drainedQueue
      (fun s => s.accepted = [some 1, some 2] ∧ s.returned = [some 1, some 2] ∧
        s.emptyReturns.length = 1) _ (by decide +kernel)
  exact ⟨s, hrun, haccepted, hreturned, hempty, (taskQueue_refines_fifo hrun).1⟩

end HttpServer
