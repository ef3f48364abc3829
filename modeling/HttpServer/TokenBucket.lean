/-
The token bucket law.  A balance that is refilled at a constant rate, clipped
at a capacity and charged for every admitted call is the same thing as a bound
on the calls admitted in every window.
-/
import Mathlib.Algebra.BigOperators.Intervals
import Mathlib.Algebra.Order.BigOperators.Ring.Finset
import Mathlib.Algebra.Order.Field.Basic
import Mathlib.Tactic.Linarith
import Mathlib.Tactic.Ring

namespace TokenBucket

universe u

variable {K : Type u} [Field K] [LinearOrder K] [IsStrictOrderedRing K]

/-- The calls `j`, ..., `k - 1` that were admitted. -/
def admitted (granted : ℕ → Bool) (j k : ℕ) : ℕ :=
  ((Finset.Ico j k).filter fun i => granted i = true).card

theorem admitted_succ (granted : ℕ → Bool) {j k : ℕ} (hle : j ≤ k) :
    admitted granted j (k + 1) = admitted granted j k + (granted k).toNat := by
  rw [admitted, Finset.card_filter, Finset.sum_Ico_succ_top hle, ← Finset.card_filter]
  cases granted k <;> rfl

theorem admitted_self (granted : ℕ → Bool) (k : ℕ) : admitted granted k k = 0 := by
  simp [admitted]

/-- The balance found by call `n`, at the given times. -/
structure Balance (rate capacity : K) (time : ℕ → K) (granted : ℕ → Bool)
    (balance : ℕ → K) : Prop where
  start : balance 0 = capacity
  next : ∀ n, balance (n + 1) =
    min capacity (balance n - ((granted n).toNat : K) + (time (n + 1) - time n) * rate)
  decides : ∀ n, granted n = true ↔ 1 ≤ balance n

namespace Balance

variable {rate capacity : K} {time : ℕ → K} {granted : ℕ → Bool} {balance : ℕ → K}

/-- The clipped balance is the least of what all windows have left. -/
theorem le_balance_iff (hbalance : Balance rate capacity time granted balance) (k : ℕ) :
    ∀ x : K, x ≤ balance k ↔ x ≤ capacity ∧
      ∀ j < k, (admitted granted j k : K) + x ≤ capacity + rate * (time k - time j) := by
  induction k with
  | zero => simp [hbalance.start]
  | succ k ih =>
      intro x
      have hshift : x ≤ balance k - ((granted k).toNat : K) +
          (time (k + 1) - time k) * rate ↔
          x + ((granted k).toNat : K) - (time (k + 1) - time k) * rate ≤ balance k := by
        constructor <;> intro h <;> linarith
      have hsplit : ∀ j, (admitted granted j k : K) +
          (x + ((granted k).toNat : K) - (time (k + 1) - time k) * rate) ≤
            capacity + rate * (time k - time j) ↔
          (admitted granted j k : K) + ((granted k).toNat : K) + x ≤
            capacity + rate * (time (k + 1) - time j) := by
        intro j
        constructor <;> intro h <;> linarith
      rw [hbalance.next, le_min_iff, hshift, ih]
      constructor
      · rintro ⟨hcapacity, hlast, hearlier⟩
        refine ⟨hcapacity, fun j hj => ?_⟩
        rw [admitted_succ granted (Nat.le_of_lt_succ hj), Nat.cast_add]
        rcases Nat.lt_succ_iff_lt_or_eq.mp hj with hbefore | rfl
        · exact (hsplit j).mp (hearlier j hbefore)
        · rw [admitted_self]
          push_cast
          linarith
      · rintro ⟨hcapacity, hall⟩
        have hlast := hall k (Nat.lt_succ_self k)
        rw [admitted_succ granted (Nat.le_refl k), admitted_self] at hlast
        push_cast at hlast
        refine ⟨hcapacity, by linarith, fun j hj => ?_⟩
        have hwindow := hall j (Nat.lt_succ_of_lt hj)
        rw [admitted_succ granted hj.le, Nat.cast_add] at hwindow
        exact (hsplit j).mpr hwindow

variable (hcapacity : 1 ≤ capacity)
include hcapacity

/-- A call is admitted exactly when every window that ends with it has room. -/
theorem granted_iff (hbalance : Balance rate capacity time granted balance) (k : ℕ) :
    granted k = true ↔
      ∀ j < k, (admitted granted j k : K) + 1 ≤ capacity + rate * (time k - time j) := by
  rw [hbalance.decides, hbalance.le_balance_iff k 1, and_iff_right hcapacity]

variable (hrate : 0 ≤ rate) (htime : Monotone time)
include hrate htime

/-- No window admits more than the capacity and what flows in during it. -/
theorem admitted_le (hbalance : Balance rate capacity time granted balance) {i k : ℕ}
    (hle : i ≤ k) :
    (admitted granted i (k + 1) : K) ≤ capacity + rate * (time k - time i) := by
  induction k, hle using Nat.le_induction with
  | base =>
      have hone : (granted i).toNat ≤ 1 := Bool.toNat_le _
      have hcast : ((granted i).toNat : K) ≤ 1 := by exact_mod_cast hone
      rw [admitted_succ granted (Nat.le_refl i), admitted_self]
      push_cast
      linarith
  | succ k hle ih =>
      rw [admitted_succ granted (Nat.le_succ_of_le hle)]
      cases hgranted : granted (k + 1) with
      | true =>
          have hroom := (hbalance.granted_iff hcapacity (k + 1)).mp hgranted i
            (Nat.lt_succ_of_le hle)
          simpa using hroom
      | false =>
          have hlater : time k ≤ time (k + 1) := htime (Nat.le_succ k)
          have hflow : rate * (time k - time i) ≤ rate * (time (k + 1) - time i) :=
            mul_le_mul_of_nonneg_left (by linarith) hrate
          have hsame : (false.toNat : K) = 0 := by simp
          rw [Nat.cast_add, hsame, add_zero]
          linarith

/-- Only admitted calls count against a client. -/
theorem granted_iff_of_granted (hbalance : Balance rate capacity time granted balance)
    (k : ℕ) :
    granted k = true ↔ ∀ j < k, granted j = true →
      (admitted granted j k : K) + 1 ≤ capacity + rate * (time k - time j) := by
  rw [hbalance.granted_iff hcapacity]
  constructor
  · exact fun hall j hj _ => hall j hj
  · intro hcharged j hj
    -- the first admitted call of the window, if it has one
    by_cases hsome : ∃ i, j ≤ i ∧ i < k ∧ granted i = true
    · classical
      obtain ⟨hfrom, hbefore, hfirst⟩ := Nat.find_spec hsome
      have hnone : ∀ i, j ≤ i → i < Nat.find hsome → granted i = false := by
        intro i hji hi
        by_contra htrue
        exact Nat.find_min hsome hi ⟨hji, hi.trans hbefore, by simpa using htrue⟩
      have hsame : admitted granted j k = admitted granted (Nat.find hsome) k := by
        rw [admitted, admitted]
        congr 1
        ext i
        simp only [Finset.mem_filter, Finset.mem_Ico, and_congr_left_iff, and_congr_left_iff]
        intro hgranted _
        constructor
        · intro hji
          by_contra hearly
          rw [hnone i hji (Nat.lt_of_not_le hearly)] at hgranted
          contradiction
        · exact fun hle => hfrom.trans hle
      have hwindow := hcharged (Nat.find hsome) hbefore hfirst
      have hearlier : time j ≤ time (Nat.find hsome) := htime hfrom
      have hflow : rate * (time k - time (Nat.find hsome)) ≤ rate * (time k - time j) :=
        mul_le_mul_of_nonneg_left (by linarith) hrate
      rw [hsame]
      linarith
    · have hzero : admitted granted j k = 0 := by
        rw [admitted, Finset.card_eq_zero, Finset.filter_eq_empty_iff]
        intro i hi hgranted
        exact hsome ⟨i, (Finset.mem_Ico.mp hi).1, (Finset.mem_Ico.mp hi).2, hgranted⟩
      have hlater : time j ≤ time k := htime hj.le
      have hflow : 0 ≤ rate * (time k - time j) := mul_nonneg hrate (by linarith)
      rw [hzero]
      push_cast
      linarith

end Balance

end TokenBucket
