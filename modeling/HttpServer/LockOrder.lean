/-
Threads that wait for locks.  If every thread wants a lock of a higher level
than all it holds, nobody waits in a circle, and behind every waiting thread there is
one that does not wait.
-/
import Mathlib.Logic.Relation
import Mathlib.Order.WellFounded

namespace LockOrder

universe u v w

variable {T : Type u} {M : Type v} {L : Type w}

/-- The first thread wants a lock that the second one holds. -/
def WaitsFor (wants : T → Option M) (holds : T → M → Prop) (waiter holder : T) : Prop :=
  ∃ lock, wants waiter = some lock ∧ holds holder lock

/-- What a thread wants is above everything it holds. -/
def Ordered [LT L] (level : M → L) (wants : T → Option M) (holds : T → M → Prop) : Prop :=
  ∀ thread lock, wants thread = some lock → ∀ held, holds thread held → level held < level lock

variable {wants : T → Option M} {holds : T → M → Prop} {level : M → L}

/-- The locks waited for rise along a chain of waiting threads. -/
theorem Ordered.level_lt [Preorder L] (hordered : Ordered level wants holds)
    {waiter holder : T} (hwaits : Relation.TransGen (WaitsFor wants holds) waiter holder)
    {lock next : M} (hlock : wants waiter = some lock) (hnext : wants holder = some next) :
    level lock < level next := by
  induction hwaits generalizing next with
  | single hone =>
      obtain ⟨wanted, hwanted, hheld⟩ := hone
      obtain rfl := Option.some.inj (hlock.symm.trans hwanted)
      exact hordered _ _ hnext _ hheld
  | tail hchain hone ih =>
      obtain ⟨between, hbetween, hheld⟩ := hone
      exact (ih hbetween).trans (hordered _ _ hnext _ hheld)

/-- Nobody waits for himself, directly or through others. -/
theorem Ordered.acyclic [Preorder L] (hordered : Ordered level wants holds) (thread : T) :
    ¬ Relation.TransGen (WaitsFor wants holds) thread thread := by
  intro hcycle
  have hwants : ∃ lock, wants thread = some lock := by
    obtain ⟨_, ⟨lock, hlock, _⟩, _⟩ := Relation.TransGen.head'_iff.mp hcycle
    exact ⟨lock, hlock⟩
  obtain ⟨lock, hlock⟩ := hwants
  exact lt_irrefl _ (hordered.level_lt hcycle hlock hlock)

/-- Whoever waits, waits in the end for a thread that does not. -/
theorem Ordered.exists_unblocked [Preorder L] [WellFoundedGT L]
    (hordered : Ordered level wants holds) {waiter holder : T}
    (hwaits : WaitsFor wants holds waiter holder) :
    ∃ last, Relation.TransGen (WaitsFor wants holds) waiter last ∧
      ∀ other, ¬ WaitsFor wants holds last other := by
  obtain ⟨lock, hlock, hheld⟩ := hwaits
  -- the level of the lock that is waited for rises
  induction hlevel : level lock using WellFoundedGT.induction generalizing waiter holder lock with
  | _ top ih =>
      have hfirst : WaitsFor wants holds waiter holder := ⟨lock, hlock, hheld⟩
      by_cases hblocked : ∃ other, WaitsFor wants holds holder other
      · obtain ⟨other, next, hnext, hother⟩ := hblocked
        have hhigher : level next > top := by
          rw [← hlevel]
          exact hordered _ _ hnext _ hheld
        obtain ⟨last, hchain, hlast⟩ := ih _ hhigher next hnext hother rfl
        exact ⟨last, .head hfirst hchain, hlast⟩
      · exact ⟨holder, .single hfirst, fun other hother => hblocked ⟨other, hother⟩⟩

end LockOrder
