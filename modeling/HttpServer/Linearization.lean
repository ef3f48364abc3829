/-
Linearization of guarded runs.  Some steps of a system serve an input, the
others are silent; if every step keeps a relation to an atomic machine, and a
serving step shows what the machine replies, then a run shows what the machine
replies to the inputs in the order they were served.
-/
import HttpServer.GuardedRun

namespace Linearization

open GuardedRun

universe u v w x y

variable {S : Type u} {A : Type v} {T : Type w} {I : Type x} {O : Type y}

/-- What a machine replies to its inputs, one after another. -/
def replies (machine : T → I → T × O) : T → List I → List O
  | _, [] => []
  | state, input :: inputs =>
      (machine state input).2 :: replies machine (machine state input).1 inputs

/-- One step beside the machine: a silent step shows nothing, a serving step shows
the machine's reply, and the relation survives. -/
structure Serves (machine : T → I → T × O) (related : S → T → Prop) (served : Option I)
    (shown : List O) (next : S) (image : T) : Prop where
  silent : served = none → shown = [] ∧ related next image
  reply : ∀ input, served = some input →
    shown = [(machine image input).2] ∧ related next (machine image input).1

variable {step : S → A → Option S} {guard : S → A → Prop}
variable {served : S → A → Option I} {shown : S → A → List O}
variable {machine : T → I → T × O} {related : S → T → Prop}

theorem observed_eq_replies
    (hstep : ∀ state action next image, related state image → guard state action →
      step state action = some next →
        Serves machine related (served state action) (shown state action) next image)
    {actions : List A} : ∀ {state final : S} {image : T}, related state image →
      Guarded step guard state actions → run step state actions = some final →
        observed step shown state actions =
          replies machine image
            (observed step (fun s a => (served s a).toList) state actions) := by
  induction actions with
  | nil => exact fun _ _ _ => rfl
  | cons action actions ih =>
      intro state final image hrelated hguard hrun
      cases hnext : step state action with
      | none => simp [run, hnext] at hrun
      | some next =>
          simp only [run, hnext] at hrun
          simp only [Guarded, hnext] at hguard
          have hserves := hstep state action next image hrelated hguard.1 hnext
          simp only [observed, hnext]
          cases hserved : served state action with
          | none =>
              obtain ⟨hshown, hrelated'⟩ := hserves.silent hserved
              rw [hshown, ih hrelated' hguard.2 hrun]
              rfl
          | some input =>
              obtain ⟨hshown, hrelated'⟩ := hserves.reply input hserved
              rw [hshown, ih hrelated' hguard.2 hrun]
              rfl

end Linearization
