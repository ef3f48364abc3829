/-
Cells written by a list of operations.  An operation keeps a cell, clears it or
fills it; what the cell holds at the end is the last thing written to it.
-/
import Mathlib.Data.List.Induction

namespace LastWrite

universe u v

/-- What one operation does to one cell. -/
inductive Effect (V : Type v) where
  | keep
  | clear
  | fill (value : V)

def Effect.on {V : Type v} (effect : Effect V) (held : Option V) : Option V :=
  match effect with
  | .keep => held
  | .clear => none
  | .fill value => some value

variable {Op : Type u} {V : Type v} {effect : Op → Effect V}

/-- What a cell holds after `ops`, when it held `held` before. -/
def cell (effect : Op → Effect V) (held : Option V) (ops : List Op) : Option V :=
  ops.foldl (fun now op => (effect op).on now) held

theorem cell_append (held : Option V) (first second : List Op) :
    cell effect held (first ++ second) = cell effect (cell effect held first) second :=
  List.foldl_append

theorem cell_concat (held : Option V) (ops : List Op) (op : Op) :
    cell effect held (ops ++ [op]) = (effect op).on (cell effect held ops) :=
  cell_append held ops [op]

theorem cell_of_keep {held : Option V} {ops : List Op}
    (hkeep : ∀ op ∈ ops, effect op = .keep) : cell effect held ops = held := by
  induction ops using List.reverseRecOn with
  | nil => rfl
  | append_singleton ops op ih =>
      rw [cell_concat, hkeep op (by simp)]
      exact ih fun other hother => hkeep other (by simp [hother])

/-- Once cleared and not filled again, a cell is empty. -/
theorem cell_of_clear {held : Option V} {ops : List Op}
    (hclear : ∃ op ∈ ops, effect op = .clear)
    (hnofill : ∀ op ∈ ops, ∀ value, effect op ≠ .fill value) :
    cell effect held ops = none := by
  induction ops using List.reverseRecOn with
  | nil =>
      obtain ⟨_, hmem, _⟩ := hclear
      exact absurd hmem List.not_mem_nil
  | append_singleton ops op ih =>
      rw [cell_concat]
      cases heffect : effect op with
      | clear => rfl
      | fill value => exact absurd heffect (hnofill op (by simp) value)
      | keep =>
          apply ih
          · obtain ⟨other, hother, hcleared⟩ := hclear
            have hne : other ≠ op := fun heq => by simp [heq, heffect] at hcleared
            exact ⟨other, by simpa [hne] using hother, hcleared⟩
          · exact fun other hother => hnofill other (by simp [hother])

/-- Some operation filled the cell with `value` and every later one kept it. -/
def LastFill (effect : Op → Effect V) (ops : List Op) (value : V) : Prop :=
  ∃ before op after, ops = before ++ op :: after ∧ effect op = .fill value ∧
    ∀ later ∈ after, effect later = .keep

theorem LastFill.concat {ops : List Op} {value : V} (hlast : LastFill effect ops value)
    {op : Op} (hkeep : effect op = .keep) : LastFill effect (ops ++ [op]) value := by
  obtain ⟨before, filling, after, rfl, hfill, hafter⟩ := hlast
  refine ⟨before, filling, after ++ [op], by simp, hfill, ?_⟩
  intro later hlater
  rcases List.mem_append.mp hlater with hold | hnew
  · exact hafter later hold
  · rwa [List.mem_singleton.mp hnew]

theorem cell_eq_some_iff (ops : List Op) (value : V) :
    cell effect none ops = some value ↔ LastFill effect ops value := by
  constructor
  · intro hcell
    induction ops using List.reverseRecOn with
    | nil => contradiction
    | append_singleton ops op ih =>
        rw [cell_concat] at hcell
        cases heffect : effect op with
        | keep =>
            rw [heffect] at hcell
            exact (ih hcell).concat heffect
        | clear =>
            rw [heffect] at hcell
            contradiction
        | fill written =>
            rw [heffect] at hcell
            obtain rfl := Option.some.inj hcell
            exact ⟨ops, op, [], rfl, heffect, by simp⟩
  · rintro ⟨before, op, after, rfl, hfill, hafter⟩
    rw [List.append_cons, cell_append, cell_concat, cell_of_keep hafter, hfill]
    rfl

end LastWrite
