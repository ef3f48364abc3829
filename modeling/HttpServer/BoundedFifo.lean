/-
Bounded queues that can be closed.  The abstract queue is a list; the ring is a
window of a circular array.  An account of what was put in and taken out is
kept by every run.
-/
import Mathlib.Data.List.Range
import Mathlib.Data.Nat.ModEq
import Mathlib.Logic.Function.Basic

namespace BoundedFifo

universe u

variable {α : Type u}

/-- A queue with everything it has accepted and handed out. -/
structure Fifo (α : Type u) where
  items : List α := []
  closed : Bool := false
  accepted : List α := []
  taken : List α := []

namespace Fifo

/-- Accept an item unless the queue is closed; `none` while there is no room. -/
def put (capacity : Nat) (q : Fifo α) (item : α) : Option (Fifo α × Bool) :=
  if q.items.length < capacity ∨ q.closed then
    if q.closed then some (q, false)
    else some ({ q with items := q.items ++ [item], accepted := q.accepted ++ [item] }, true)
  else none

/-- Hand out the oldest item, or `none` inside once closed and empty; `none`
outside while there is nothing to hand out. -/
def take (q : Fifo α) : Option (Fifo α × Option α) :=
  match q.items with
  | item :: items => some ({ q with items, taken := q.taken ++ [item] }, some item)
  | [] => if q.closed then some (q, none) else none

def close (q : Fifo α) : Fifo α := { q with closed := true }

/-- What users of the queue do. -/
inductive Op (α : Type u) where
  | put (item : α)
  | take
  | close

def step (capacity : Nat) (q : Fifo α) : Op α → Option (Fifo α)
  | .put item => (q.put capacity item).map Prod.fst
  | .take => q.take.map Prod.fst
  | .close => some q.close

/-- Nothing is lost, doubled or reordered, and the bound is kept. -/
structure Balanced (capacity : Nat) (q : Fifo α) : Prop where
  bounded : q.items.length ≤ capacity
  order : q.taken ++ q.items = q.accepted

namespace Balanced

variable {capacity : Nat} {q : Fifo α}

theorem start : Balanced capacity ({} : Fifo α) := ⟨Nat.zero_le _, rfl⟩

theorem put (hbalanced : Balanced capacity q) {item : α} {result : Fifo α × Bool}
    (hput : q.put capacity item = some result) : Balanced capacity result.1 := by
  rw [Fifo.put] at hput
  split at hput
  · next hroom =>
      split at hput
      · obtain rfl := Option.some.inj hput
        exact hbalanced
      · next hopen =>
          obtain rfl := Option.some.inj hput
          constructor
          · have hlength : q.items.length < capacity := by simpa [hopen] using hroom
            rw [List.length_append]
            exact hlength
          · rw [← List.append_assoc, hbalanced.order]
  · contradiction

theorem take (hbalanced : Balanced capacity q) {result : Fifo α × Option α}
    (htake : q.take = some result) : Balanced capacity result.1 := by
  have hbounded := hbalanced.bounded
  have horder := hbalanced.order
  rw [Fifo.take] at htake
  split at htake
  · next item items hitems =>
      obtain rfl := Option.some.inj htake
      rw [hitems] at hbounded horder
      constructor
      · exact Nat.le_of_succ_le hbounded
      · simpa using horder
  · split at htake
    · obtain rfl := Option.some.inj htake
      exact hbalanced
    · contradiction

theorem close (hbalanced : Balanced capacity q) : Balanced capacity q.close :=
  ⟨hbalanced.bounded, hbalanced.order⟩

end Balanced

end Fifo

section Ring

variable {n : Nat} [NeZero n]

/-- The `count` slots from `head` on, around the end of the array. -/
def window (slots : Fin n → α) (head count : Nat) : List α :=
  (List.range count).map fun i => slots (Fin.ofNat n (head + i))

@[simp] theorem length_window (slots : Fin n → α) (head count : Nat) :
    (window slots head count).length = count := by
  simp [window]

theorem ofNat_ne_ofNat {head i j : Nat} (hless : i < j) (hnear : j < i + n) :
    Fin.ofNat n (head + i) ≠ Fin.ofNat n (head + j) := by
  intro hsame
  have hmod : head + i ≡ head + j [MOD n] := by simpa [Nat.ModEq] using congrArg Fin.val hsame
  have hcancel : i ≡ j [MOD n] := Nat.ModEq.add_left_cancel' head hmod
  have hdivides : n ∣ j - i := (Nat.modEq_iff_dvd' hless.le).mp hcancel
  have hsmall : j - i < n := by omega
  have hzero := Nat.eq_zero_of_dvd_of_lt hdivides hsmall
  omega

/-- Slots outside the window do not matter. -/
theorem window_update_outside (slots : Fin n → α) {head count k : Nat} (x : α)
    (houtside : ∀ i < count, Fin.ofNat n (head + i) ≠ Fin.ofNat n k) :
    window (Function.update slots (Fin.ofNat n k) x) head count = window slots head count := by
  apply List.map_congr_left
  intro i hi
  exact Function.update_of_ne (houtside i (List.mem_range.mp hi)) _ _

/-- Writing behind the last slot appends. -/
theorem window_push (slots : Fin n → α) {head count : Nat} (hroom : count < n) (x : α) :
    window (Function.update slots (Fin.ofNat n (head + count)) x) head (count + 1) =
      window slots head count ++ [x] := by
  have houtside : ∀ i < count, Fin.ofNat n (head + i) ≠ Fin.ofNat n (head + count) :=
    fun i hi => ofNat_ne_ofNat hi (by omega)
  have hbefore := window_update_outside slots x houtside
  rw [window, List.range_succ, List.map_append]
  change window _ head count ++ _ = _
  rw [hbefore]
  simp

/-- The first slot and the rest of the window, whatever is left in the slot. -/
theorem window_pop (slots : Fin n → α) {head count : Nat} (hroom : count < n) (x : α) :
    window slots head (count + 1) =
      slots (Fin.ofNat n head) ::
        window (Function.update slots (Fin.ofNat n head) x) (head + 1) count := by
  have houtside : ∀ i < count, Fin.ofNat n (head + 1 + i) ≠ Fin.ofNat n head := by
    intro i hi
    have hne := @ofNat_ne_ofNat n _ head 0 (1 + i) (by omega) (by omega)
    rw [Nat.add_zero, ← Nat.add_assoc] at hne
    exact hne.symm
  rw [window_update_outside slots x houtside, window, List.range_succ_eq_map]
  simp [window, Function.comp_def, Nat.add_comm, Nat.add_left_comm]

/-- The window depends on the head modulo the size only. -/
theorem window_mod (slots : Fin n → α) (head count : Nat) :
    window slots (head % n) count = window slots head count := by
  apply List.map_congr_left
  intro i _
  congr 1
  apply Fin.ext
  simp

end Ring

end BoundedFifo
