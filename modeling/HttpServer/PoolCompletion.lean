/-
What becomes of the tasks given to the pool.  Each accepted task is handed to one
worker, in the order of acceptance, and is run once; after `stop` the workers
empty the queue and leave, so the joins of the destructor return, and then no
accepted task is left.
-/
import Mathlib.Algebra.Order.BigOperators.Group.Finset
import Mathlib.Data.Fintype.BigOperators
import Mathlib.Tactic.Abel
import HttpServer.ThreadPool

namespace HttpServer

open BoundedFifo GuardedRun

universe u

variable {α : Type u}

/-- The pool and what has become of the tasks so far. -/
structure PoolRun (α : Type u) where
  pool : PoolState α := {}
  /-- Tasks for which `submit` has returned true. -/
  accepted : List α := []
  /-- Tasks that a worker has been handed. -/
  started : List α := []
  /-- Tasks whose function has returned. -/
  finished : List α := []

/-- The task, if this call of `submit` accepts it. -/
def TaskQueue.accepts (q : TaskQueue α) (task : α) : List α :=
  match q.submit (some task) with
  | some (_, true) => [task]
  | _ => []

namespace PoolState

def accepts (s : PoolState α) : PoolAction α → List α
  | .produce task => s.queue.accepts task
  | .submitReturns worker =>
      match s.workers worker with
      | .submitting _ inner => s.queue.accepts inner
      | _ => []
  | _ => []

def starts (s : PoolState α) : PoolAction α → List α
  | .remove _ leftover =>
      match s.queue.remove leftover with
      | some (_, some task) => [task]
      | _ => []
  | _ => []

def finishes (s : PoolState α) : PoolAction α → List α
  | .finishTask worker =>
      match s.workers worker with
      | .running task => [task]
      | _ => []
  | _ => []

end PoolState

def PoolRun.step (s : PoolRun α) (action : PoolAction α) : Option (PoolRun α) :=
  (s.pool.step action).map fun pool =>
    { pool
      accepted := s.accepted ++ s.pool.accepts action
      started := s.started ++ s.pool.starts action
      finished := s.finished ++ s.pool.finishes action }

namespace PoolRun

variable {s next : PoolRun α}

/-- What a step does where it is possible. -/
inductive Steps (s : PoolRun α) : PoolAction α → PoolRun α → Prop
  | produce {task : α} {queue : TaskQueue α} {ok : Bool}
      (hsubmit : s.pool.queue.submit (some task) = some (queue, ok)) :
      Steps s (.produce task)
        { s with
          pool := { s.pool with queue }
          accepted := s.accepted ++ if ok then [task] else [] }
  | taken {worker : Fin workerThreads} {leftover : Option α} {queue : TaskQueue α} {task : α}
      (hplace : s.pool.workers worker = .removing)
      (hremove : s.pool.queue.remove leftover = some (queue, some task)) :
      Steps s (.remove worker leftover)
        { s with
          pool := { s.pool with queue }.move worker (.running task)
          started := s.started ++ [task] }
  | sentHome {worker : Fin workerThreads} {leftover : Option α} {queue : TaskQueue α}
      (hplace : s.pool.workers worker = .removing)
      (hremove : s.pool.queue.remove leftover = some (queue, none)) :
      Steps s (.remove worker leftover)
        { s with pool := { s.pool with queue }.move worker .exited }
  | callSubmit {worker : Fin workerThreads} {task inner : α}
      (hplace : s.pool.workers worker = .running task) :
      Steps s (.callSubmit worker inner)
        { s with pool := s.pool.move worker (.submitting task inner) }
  | submitReturns {worker : Fin workerThreads} {task inner : α} {queue : TaskQueue α}
      {ok : Bool} (hplace : s.pool.workers worker = .submitting task inner)
      (hsubmit : s.pool.queue.submit (some inner) = some (queue, ok)) :
      Steps s (.submitReturns worker)
        { s with
          pool := { s.pool with queue }.move worker (.running task)
          accepted := s.accepted ++ if ok then [inner] else [] }
  | finishTask {worker : Fin workerThreads} {task : α}
      (hplace : s.pool.workers worker = .running task) :
      Steps s (.finishTask worker)
        { s with
          pool := s.pool.move worker .removing
          finished := s.finished ++ [task] }
  | stop : Steps s .stop { s with pool := { s.pool with queue := s.pool.queue.stop } }

theorem accepts_of_submit {q queue : TaskQueue α} {task : α} {ok : Bool}
    (hsubmit : q.submit (some task) = some (queue, ok)) :
    q.accepts task = if ok then [task] else [] := by
  rw [TaskQueue.accepts, hsubmit]
  cases ok <;> rfl

theorem steps_of_step {action : PoolAction α} (hstep : s.step action = some next) :
    s.Steps action next := by
  obtain ⟨pool, hpool, rfl⟩ := Option.map_eq_some_iff.mp hstep
  cases action with
  | produce task =>
      obtain ⟨⟨queue, ok⟩, hsubmit, rfl⟩ := Option.map_eq_some_iff.mp hpool
      simp only [PoolState.accepts, PoolState.starts, PoolState.finishes, List.append_nil,
        accepts_of_submit hsubmit]
      exact .produce hsubmit
  | remove worker leftover =>
      rw [PoolState.step] at hpool
      split at hpool
      · next hplace =>
          obtain ⟨⟨queue, task⟩, hremove, rfl⟩ := Option.map_eq_some_iff.mp hpool
          simp only [PoolState.accepts, PoolState.starts, PoolState.finishes, List.append_nil,
            hremove]
          cases task with
          | none =>
              simp only [List.append_nil]
              exact .sentHome hplace hremove
          | some task => exact .taken hplace hremove
      · contradiction
  | callSubmit worker inner =>
      rw [PoolState.step] at hpool
      split at hpool
      · next task hplace =>
          obtain rfl := Option.some.inj hpool
          simp only [PoolState.accepts, PoolState.starts, PoolState.finishes, List.append_nil]
          exact .callSubmit hplace
      · contradiction
  | submitReturns worker =>
      rw [PoolState.step] at hpool
      split at hpool
      · next task inner hplace =>
          obtain ⟨⟨queue, ok⟩, hsubmit, rfl⟩ := Option.map_eq_some_iff.mp hpool
          simp only [PoolState.accepts, PoolState.starts, PoolState.finishes, List.append_nil,
            hplace, accepts_of_submit hsubmit]
          exact .submitReturns hplace hsubmit
      · contradiction
  | finishTask worker =>
      rw [PoolState.step] at hpool
      split at hpool
      · next task hplace =>
          obtain rfl := Option.some.inj hpool
          simp only [PoolState.accepts, PoolState.starts, PoolState.finishes, List.append_nil,
            hplace]
          exact .finishTask hplace
      · contradiction
  | stop =>
      obtain rfl := Option.some.inj hpool
      simp only [PoolState.accepts, PoolState.starts, PoolState.finishes, List.append_nil]
      exact .stop

end PoolRun

/-- Stopped and emptied: the state in which workers are sent home. -/
def TaskQueue.Spent (q : TaskQueue α) : Prop := q.shutdown = true ∧ q.bufferLen = 0

namespace TaskQueue

variable {q queue : TaskQueue α}

theorem submit_shutdown {task : Option α} {ok : Bool} (hshut : q.shutdown = true)
    (hsubmit : q.submit task = some (queue, ok)) : queue = q ∧ ok = false := by
  simp only [submit, hshut, or_true, ↓reduceIte, Option.some.injEq, Prod.mk.injEq] at hsubmit
  exact ⟨hsubmit.1.symm, hsubmit.2.symm⟩

theorem remove_shutdown {leftover task : Option α}
    (hremove : q.remove leftover = some (queue, task)) :
    queue.shutdown = q.shutdown ∧ (q.bufferLen = 0 → queue = q) ∧
      (q.bufferLen ≠ 0 → queue.bufferLen + 1 = q.bufferLen) := by
  rw [remove] at hremove
  split at hremove
  · next hready =>
      split at hremove
      · next hspent =>
          obtain ⟨rfl, -⟩ := Prod.mk.inj (Option.some.inj hremove)
          exact ⟨rfl, fun _ => rfl, fun hmore => absurd hspent.1 hmore⟩
      · next hmore =>
          obtain ⟨rfl, -⟩ := Prod.mk.inj (Option.some.inj hremove)
          refine ⟨rfl, fun hempty => ?_, fun hne => Nat.sub_add_cancel (Nat.pos_of_ne_zero hne)⟩
          have hshut : q.shutdown = true := by simpa [hempty] using hready
          exact absurd ⟨hempty, hshut⟩ hmore
  · contradiction

theorem Spent.submit {task : Option α} {ok : Bool} (hspent : q.Spent)
    (hsubmit : q.submit task = some (queue, ok)) : queue.Spent := by
  rw [(submit_shutdown hspent.1 hsubmit).1]
  exact hspent

theorem Spent.remove {leftover task : Option α} (hspent : q.Spent)
    (hremove : q.remove leftover = some (queue, task)) : queue.Spent := by
  rw [(remove_shutdown hremove).2.1 hspent.2]
  exact hspent

end TaskQueue

section Sums

/-- What a worker holds that has been started and is not finished. -/
def Worker.held : Worker α → Multiset α
  | .running task => {task}
  | .submitting task _ => {task}
  | _ => 0

/-- Moves that a worker has before it, up to the next task. -/
def Worker.distance : Worker α → Nat
  | .exited => 0
  | .removing => 1
  | .running _ => 2
  | .submitting _ _ => 3

/-- A sum over the workers changes by what the moved worker contributes. -/
theorem sum_update {M : Type*} [AddCommMonoid M] (weight : Worker α → M)
    (workers : Fin workerThreads → Worker α) (worker : Fin workerThreads) (place : Worker α) :
    (∑ other, weight (Function.update workers worker place other)) + weight (workers worker) =
      (∑ other, weight (workers other)) + weight place := by
  have hothers : ∑ other ∈ Finset.univ.erase worker,
      weight (Function.update workers worker place other) =
        ∑ other ∈ Finset.univ.erase worker, weight (workers other) := by
    apply Finset.sum_congr rfl
    intro other hother
    rw [Function.update_of_ne (Finset.ne_of_mem_erase hother)]
  rw [← Finset.sum_erase_add _ _ (Finset.mem_univ worker), hothers, Function.update_self,
    ← Finset.sum_erase_add _ (fun other => weight (workers other)) (Finset.mem_univ worker)]
  exact add_right_comm _ _ _

end Sums

/-- The tasks are accounted for: in the ring, with a worker, or done. -/
structure Accounts (s : PoolRun α) (f : Fifo (Option α)) : Prop where
  represents : Represents s.pool.queue f
  balanced : f.Balanced queueCapacity
  accepted : f.accepted = s.accepted.map some
  started : f.taken = s.started.map some
  held : (s.started : Multiset α) =
    s.finished + ∑ worker, (s.pool.workers worker).held
  exited : ∀ worker, s.pool.workers worker = .exited → s.pool.queue.Spent

namespace Accounts

variable {s next : PoolRun α} {f : Fifo (Option α)}

theorem start : Accounts ({} : PoolRun α) {} where
  represents := Represents.start
  balanced := Fifo.Balanced.start
  accepted := rfl
  started := rfl
  held := by simp [Worker.held]
  exited := nofun

theorem bound (haccounts : Accounts s f) : s.pool.queue.bufferLen ≤ queueCapacity := by
  rw [← haccounts.represents.length]
  exact haccounts.balanced.bounded

/-- What a worker puts down has been finished, and what it takes up has been started. -/
theorem held_update (haccounts : Accounts s f) (worker : Fin workerThreads) (place : Worker α)
    (taken done : List α)
    (hmoved : (s.pool.workers worker).held + (taken : Multiset α) = place.held + done) :
    ((s.started ++ taken : List α) : Multiset α) = ((s.finished ++ done : List α) : Multiset α) +
      ∑ other, (Function.update s.pool.workers worker place other).held := by
  have hsum := sum_update Worker.held s.pool.workers worker place
  rw [← Multiset.coe_add, ← Multiset.coe_add, haccounts.held]
  generalize (∑ other, (Function.update s.pool.workers worker place other).held) = after
    at hsum ⊢
  apply add_right_cancel (b := place.held)
  calc (s.finished : Multiset α) + ∑ other, (s.pool.workers other).held + taken + place.held
      = s.finished + taken + (∑ other, (s.pool.workers other).held + place.held) := by abel
    _ = s.finished + taken + (after + (s.pool.workers worker).held) := by rw [hsum]
    _ = s.finished + after + ((s.pool.workers worker).held + taken) := by abel
    _ = s.finished + after + (place.held + done) := by rw [hmoved]
    _ = s.finished + done + after + place.held := by abel

theorem held_same (haccounts : Accounts s f) {worker : Fin workerThreads} {place : Worker α}
    (hsame : (s.pool.workers worker).held = place.held) :
    (s.started : Multiset α) = s.finished +
      ∑ other, (Function.update s.pool.workers worker place other).held := by
  have hheld := haccounts.held_update worker place [] [] (by rw [hsame])
  rwa [List.append_nil, List.append_nil] at hheld

/-- Whoever was sent home before stays there, and the queue stays empty. -/
theorem exited_move (haccounts : Accounts s f) {queue : TaskQueue α} {worker : Fin workerThreads}
    {place : Worker α} (hkept : s.pool.queue.Spent → queue.Spent)
    (hplace : place = .exited → queue.Spent) (other : Fin workerThreads)
    (hother : ({ s.pool with queue }.move worker place).workers other = .exited) :
    queue.Spent := by
  by_cases hsame : other = worker
  · subst hsame
    rw [PoolState.move_self] at hother
    exact hplace hother
  · rw [PoolState.move_other _ _ hsame] at hother
    exact hkept (haccounts.exited other hother)

theorem step (haccounts : Accounts s f) {action : PoolAction α} (hsteps : s.Steps action next) :
    ∃ f', Accounts next f' := by
  cases hsteps with
  | produce hsubmit =>
      obtain ⟨f', hput, hrep, haccepted, htaken⟩ := haccounts.represents.submit hsubmit
      refine ⟨f', hrep, haccounts.balanced.put hput, ?_, ?_, haccounts.held, ?_⟩
      · rw [haccepted, haccounts.accepted]
        split <;> simp
      · rw [htaken, haccounts.started]
      · exact fun worker hworker => (haccounts.exited worker hworker).submit hsubmit
  | @taken worker leftover queue task hplace hremove =>
      rcases haccounts.represents.remove haccounts.bound hremove with
        ⟨_, _, _, htask, _⟩ | ⟨_, _, f', htake, hrep, haccepted, htaken⟩
      · contradiction
      · refine ⟨f', hrep, haccounts.balanced.take htake, ?_, ?_, ?_, ?_⟩
        · rw [haccepted, haccounts.accepted]
        · rw [htaken, haccounts.started, List.map_append]
          rfl
        · have hheld := haccounts.held_update worker (.running task) [task] []
            (by rw [hplace]; rfl)
          rwa [List.append_nil] at hheld
        · exact haccounts.exited_move (fun hspent => hspent.remove hremove) nofun
  | @sentHome worker leftover queue hplace hremove =>
      rcases haccounts.represents.remove haccounts.bound hremove with
        ⟨hempty, hshut, rfl, _, _⟩ | ⟨_, hmem, _⟩
      · refine ⟨f, haccounts.represents, haccounts.balanced, haccounts.accepted,
          haccounts.started, ?_, ?_⟩
        · exact haccounts.held_same (by rw [hplace]; rfl)
        · exact haccounts.exited_move id fun _ => ⟨hshut, hempty⟩
      · -- an empty function in the ring would have been submitted
        have hsubmitted : none ∈ f.accepted := by
          rw [← haccounts.balanced.order]
          exact List.mem_append_right _ hmem
        rw [haccounts.accepted] at hsubmitted
        simp at hsubmitted
  | @callSubmit worker task inner hplace =>
      refine ⟨f, haccounts.represents, haccounts.balanced, haccounts.accepted,
        haccounts.started, ?_, ?_⟩
      · exact haccounts.held_same (by rw [hplace]; rfl)
      · exact haccounts.exited_move id nofun
  | @submitReturns worker task inner queue ok hplace hsubmit =>
      obtain ⟨f', hput, hrep, haccepted, htaken⟩ := haccounts.represents.submit hsubmit
      refine ⟨f', hrep, haccounts.balanced.put hput, ?_, ?_, ?_, ?_⟩
      · rw [haccepted, haccounts.accepted]
        split <;> simp
      · rw [htaken, haccounts.started]
      · exact haccounts.held_same (by rw [hplace]; rfl)
      · exact haccounts.exited_move (fun hspent => hspent.submit hsubmit) nofun
  | @finishTask worker task hplace =>
      refine ⟨f, haccounts.represents, haccounts.balanced, haccounts.accepted,
        haccounts.started, ?_, ?_⟩
      · have hheld := haccounts.held_update worker .removing [] [task] (by
            rw [hplace]
            exact add_comm _ _)
        rwa [List.append_nil] at hheld
      · exact haccounts.exited_move id nofun
  | stop =>
      refine ⟨f.close, haccounts.represents.stop, haccounts.balanced.close, haccounts.accepted,
        haccounts.started, haccounts.held, ?_⟩
      exact fun worker hworker => ⟨rfl, (haccounts.exited worker hworker).2⟩

end Accounts

theorem accounts_run {actions : List (PoolAction α)} {s : PoolRun α}
    (hrun : run PoolRun.step {} actions = some s) : ∃ f, Accounts s f := by
  apply @run_invariant _ _ PoolRun.step (fun s => ∃ f, Accounts s f) _ actions {} s
    ⟨{}, Accounts.start⟩ hrun
  rintro state action next ⟨f, haccounts⟩ hstep
  exact haccounts.step (PoolRun.steps_of_step hstep)

/-- The moves by which a worker gets on without starting another call of `submit`. -/
def PoolAction.Ends : PoolAction α → Prop
  | .remove _ _ => True
  | .submitReturns _ => True
  | .finishTask _ => True
  | _ => False

namespace PoolState

/-- The state in which all joins have returned. -/
def AllExited (s : PoolState α) : Prop := ∀ worker, s.workers worker = .exited

/-- What is left to do: three moves for each task in the queue, and the workers' own. -/
def work (s : PoolState α) : Nat :=
  3 * s.queue.bufferLen + ∑ worker, (s.workers worker).distance

theorem work_move {s : PoolState α} {queue : TaskQueue α} {worker : Fin workerThreads}
    {place : Worker α}
    (hless : 3 * queue.bufferLen + place.distance <
      3 * s.queue.bufferLen + (s.workers worker).distance) :
    ({ s with queue }.move worker place).work < s.work := by
  have hsum := sum_update Worker.distance s.workers worker place
  have hwork : ({ s with queue }.move worker place).work = 3 * queue.bufferLen +
      ∑ other, (Function.update s.workers worker place other).distance := rfl
  rw [hwork, work]
  generalize (∑ other, (Function.update s.workers worker place other).distance) = after
    at hsum ⊢
  generalize (∑ other, (s.workers other).distance) = before at hsum ⊢
  omega

end PoolState

namespace PoolRun

variable {s next : PoolRun α}

/-- After the stop each of these moves brings the end closer. -/
theorem work_decreases {action : PoolAction α} (hshut : s.pool.queue.shutdown = true)
    (hends : action.Ends) (hstep : s.step action = some next) :
    next.pool.queue.shutdown = true ∧ next.pool.work < s.pool.work := by
  cases steps_of_step hstep with
  | @taken worker leftover queue task hplace hremove =>
      obtain ⟨hkept, hempty, hmore⟩ := TaskQueue.remove_shutdown hremove
      refine ⟨hkept.trans hshut, PoolState.work_move ?_⟩
      by_cases hzero : s.pool.queue.bufferLen = 0
      · simp [TaskQueue.remove, hzero, hshut] at hremove
      · have hone := hmore hzero
        simp only [hplace, Worker.distance]
        omega
  | @sentHome worker leftover queue hplace hremove =>
      obtain ⟨hkept, hempty, hmore⟩ := TaskQueue.remove_shutdown hremove
      refine ⟨hkept.trans hshut, PoolState.work_move ?_⟩
      by_cases hzero : s.pool.queue.bufferLen = 0
      · rw [hempty hzero, hplace]
        exact Nat.lt_succ_self _
      · have hone := hmore hzero
        simp only [hplace, Worker.distance]
        omega
  | @submitReturns worker task inner queue ok hplace hsubmit =>
      obtain ⟨rfl, rfl⟩ := TaskQueue.submit_shutdown hshut hsubmit
      refine ⟨hshut, PoolState.work_move ?_⟩
      rw [hplace]
      exact Nat.lt_succ_self _
  | @finishTask worker task hplace =>
      refine ⟨hshut, PoolState.work_move ?_⟩
      rw [hplace]
      exact Nat.lt_succ_self _
  | produce _ => exact absurd hends id
  | callSubmit _ => exact absurd hends id
  | stop => exact absurd hends id

/-- After the stop nobody waits: a worker that has not left can move. -/
theorem exists_step (hshut : s.pool.queue.shutdown = true) (hleft : ¬ s.pool.AllExited) :
    ∃ action : PoolAction α, action.Ends ∧ (s.step action).isSome := by
  simp only [PoolState.AllExited, not_forall] at hleft
  obtain ⟨worker, hworker⟩ := hleft
  cases hplace : s.pool.workers worker with
  | exited => exact absurd hplace hworker
  | removing =>
      refine ⟨.remove worker none, trivial, ?_⟩
      simp only [step, Option.isSome_map, PoolState.step, hplace, TaskQueue.remove, hshut,
        or_true, ↓reduceIte]
      split <;> rfl
  | running task =>
      refine ⟨.finishTask worker, trivial, ?_⟩
      simp only [step, Option.isSome_map, PoolState.step, hplace, Option.isSome_some]
  | submitting task inner =>
      refine ⟨.submitReturns worker, trivial, ?_⟩
      simp only [step, Option.isSome_map, PoolState.step, hplace, TaskQueue.submit, hshut,
        or_true, ↓reduceIte, Option.isSome_some]

end PoolRun

/-- In every state of every run the tasks handed out and those still in the ring are
the accepted ones, in that order, and a task handed out is done or with its worker.
Once the queue is stopped, workers that make no further call of `submit` come to an
end within a bounded number of moves and never wait for each other; when all have left,
every accepted task has been run, as often as it was accepted. -/
theorem pool_completes_accepted {actions : List (PoolAction α)} {s : PoolRun α}
    (hrun : run PoolRun.step {} actions = some s) :
    s.started.map some ++ s.pool.queue.stored = s.accepted.map some ∧
    (s.started : Multiset α) = s.finished + ∑ worker, (s.pool.workers worker).held ∧
    (s.pool.AllExited → s.started = s.accepted ∧ s.finished.Perm s.accepted) ∧
    (s.pool.queue.shutdown = true → ∀ later final,
      Guarded PoolRun.step (fun _ action => action.Ends) s later →
        run PoolRun.step s later = some final →
          later.length ≤ s.pool.work ∧
            (final.pool.AllExited ∨
              ∃ action : PoolAction α, action.Ends ∧ (final.step action).isSome)) := by
  obtain ⟨f, haccounts⟩ := accounts_run hrun
  have horder : s.started.map some ++ s.pool.queue.stored = s.accepted.map some := by
    rw [haccounts.represents.items, ← haccounts.started, ← haccounts.accepted]
    exact haccounts.balanced.order
  refine ⟨horder, haccounts.held, ?_, ?_⟩
  · intro hexited
    have hstored : s.pool.queue.stored = [] := by
      rw [← List.length_eq_zero_iff, TaskQueue.stored, length_window]
      exact (haccounts.exited 0 (hexited 0)).2
    have hstarted : s.started = s.accepted := by
      rw [hstored, List.append_nil] at horder
      exact List.map_injective_iff.mpr (Option.some_injective α) horder
    have hheld := haccounts.held
    have hnone : ∑ worker, (s.pool.workers worker).held = 0 :=
      Finset.sum_eq_zero fun worker _ => by rw [hexited worker]; rfl
    rw [hnone, add_zero, hstarted] at hheld
    exact ⟨hstarted, (Multiset.coe_eq_coe.mp hheld).symm⟩
  · intro hshut later final hends hlater
    have hdown : ∀ (r : PoolRun α) action next, r.pool.queue.shutdown = true →
        action.Ends → r.step action = some next →
          next.pool.queue.shutdown = true ∧ next.pool.work < r.pool.work :=
      fun _ _ _ => PoolRun.work_decreases
    have hbound : final.pool.work + later.length ≤ s.pool.work :=
      length_le_of_decreasing hdown hshut hends hlater
    have hfinal : final.pool.queue.shutdown = true :=
      invariant (fun r action next hstate hguard hstep =>
        (hdown r action next hstate hguard hstep).1) hshut hends hlater
    refine ⟨Nat.le_of_add_left_le hbound, ?_⟩
    by_cases hexited : final.pool.AllExited
    · exact Or.inl hexited
    · exact Or.inr (PoolRun.exists_step hfinal hexited)

deriving instance DecidableEq for Worker

instance [DecidableEq α] (s : PoolState α) : Decidable s.AllExited :=
  inferInstanceAs (Decidable (∀ worker, s.workers worker = .exited))

/-- A task submits another and ends after it; the third is still queued at the stop and a
fourth comes too late. -/
def lateStop : List (PoolAction Nat) :=
  [.produce 1, .remove 0 none, .callSubmit 0 2, .submitReturns 0, .remove 1 none,
    .finishTask 1, .finishTask 0, .produce 3, .stop, .produce 4, .remove 0 none,
    .finishTask 0] ++ (List.finRange workerThreads).map fun worker => .remove worker none

theorem pool_completes_accepted_lateStop :
    ∃ s, run PoolRun.step {} lateStop = some s ∧ s.accepted = [1, 2, 3] ∧
      s.finished = [2, 1, 3] ∧ s.finished.Perm s.accepted := by
  obtain ⟨s, hrun, haccepted, hfinished, hexited⟩ :=
    @exists_reached _ _ PoolRun.step {} lateStop
      (fun s => s.accepted = [1, 2, 3] ∧ s.finished = [2, 1, 3] ∧ s.pool.AllExited) _
      (by decide +kernel)
  exact ⟨s, hrun, haccepted, hfinished, ((pool_completes_accepted hrun).2.2.1 hexited).2⟩

end HttpServer
