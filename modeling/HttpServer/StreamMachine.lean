/-
Deterministic machines that eat a stream from the front of a buffer.  A step
either consumes a prefix and moves on, or waits for more input.  When a step
cannot be changed by input that arrives behind it, cutting the stream into
fragments cannot be observed: settling after each fragment and settling once
on the whole stream end in the same configuration.
-/
import Mathlib.Logic.Relation
import Mathlib.Data.List.Basic

namespace StreamMachine

universe u v

variable {S : Type u} {A : Type v}

/-- One relational step of the machine on a control state and its buffer. -/
def Next (step : S → List A → Option (S × List A))
    (source target : S × List A) : Prop :=
  step source.1 source.2 = some target

/-- Finitely many steps, with no input arriving in between. -/
def Reaches (step : S → List A → Option (S × List A)) :
    S × List A → S × List A → Prop :=
  Relation.ReflTransGen (Next step)

/-- The machine runs until it waits for input (or has halted). -/
def Settles (step : S → List A → Option (S × List A))
    (source target : S × List A) : Prop :=
  Reaches step source target ∧ step target.1 target.2 = none

variable {step : S → List A → Option (S × List A)}

theorem Reaches.single {source target : S × List A}
    (hstep : step source.1 source.2 = some target) :
    Reaches step source target :=
  Relation.ReflTransGen.single hstep

/-- A run that settles settles from every configuration it passes through. -/
theorem Settles.of_reaches {source middle target : S × List A}
    (hreach : Reaches step source middle) (hsettle : Settles step source target) :
    Settles step middle target := by
  induction hreach using Relation.ReflTransGen.head_induction_on with
  | refl => exact hsettle
  | head hfirst _ ih =>
      apply ih
      obtain ⟨hrun, hwait⟩ := hsettle
      rcases Relation.ReflTransGen.cases_head hrun with heq | ⟨other, hother, hrest⟩
      · subst heq
        rw [Next, hwait] at hfirst
        contradiction
      · have hsame : other = _ := Option.some.inj (hother.symm.trans hfirst)
        exact ⟨hsame ▸ hrest, hwait⟩

theorem Settles.unique {source first second : S × List A}
    (hfirst : Settles step source first) (hsecond : Settles step source second) :
    first = second := by
  obtain ⟨hrun, hwait⟩ := Settles.of_reaches hfirst.1 hsecond
  rcases Relation.ReflTransGen.cases_head hrun with heq | ⟨other, hother, _⟩
  · exact heq
  · rw [Next, hfirst.2] at hother
    contradiction

/-- Two configurations of one run are in order. -/
theorem Reaches.total {source first second : S × List A}
    (hfirst : Reaches step source first) (hsecond : Reaches step source second) :
    Reaches step first second ∨ Reaches step second first := by
  apply Relation.ReflTransGen.total_of_right_unique _ hfirst hsecond
  intro config left right hleft hright
  exact Option.some.inj (Eq.trans (Eq.symm hleft) hright)

section Fragments

variable (ok : S × List A → Prop)

/-- Input that arrives behind the buffer cannot change a step that was already
possible, as long as the longer configuration satisfies `ok`. -/
def StableUnder (step : S → List A → Option (S × List A))
    (ok : S × List A → Prop) : Prop :=
  ∀ state buffer more target, ok (state, buffer ++ more) →
    step state buffer = some target →
      step state (buffer ++ more) = some (target.1, target.2 ++ more)

/-- Every configuration met while running satisfies `ok`. -/
def Admissible (step : S → List A → Option (S × List A))
    (ok : S × List A → Prop) (source : S × List A) : Prop :=
  ∀ target, Reaches step source target → ok target

variable {ok}

theorem Admissible.of_reaches {source target : S × List A}
    (hadm : Admissible step ok source) (hreach : Reaches step source target) :
    Admissible step ok target :=
  fun final hfinal => hadm final (hreach.trans hfinal)

/-- One step back: what is admissible behind a step is admissible before it. -/
theorem Admissible.of_next {source next : S × List A} (hok : ok source)
    (hstep : step source.1 source.2 = some next) (hadm : Admissible step ok next) :
    Admissible step ok source := by
  intro target hreach
  rcases Relation.ReflTransGen.cases_head hreach with heq | ⟨other, hother, hrest⟩
  · exact heq ▸ hok
  · have hsame : other = next := Option.some.inj (Eq.trans (Eq.symm hother) hstep)
    exact hadm target (hsame ▸ hrest)

/-- Running before the rest of the stream arrives is a prefix of running on
the whole of it. -/
theorem Reaches.append (hstable : StableUnder step ok) (more : List A)
    {source target : S × List A} (hreach : Reaches step source target)
    (hadm : Admissible step ok (source.1, source.2 ++ more)) :
    Reaches step (source.1, source.2 ++ more) (target.1, target.2 ++ more) := by
  induction hreach with
  | refl => exact Relation.ReflTransGen.refl
  | tail _ hlast ih =>
      refine ih.trans (Reaches.single ?_)
      exact hstable _ _ more _ (hadm _ ih) hlast

/-- Settle on what has arrived, append the next fragment, settle again. -/
inductive Fed (step : S → List A → Option (S × List A)) :
    S × List A → List (List A) → S × List A → Prop
  | done {config : S × List A} (hwait : step config.1 config.2 = none) :
      Fed step config [] config
  | more {config middle final : S × List A} {fragment : List A}
      {rest : List (List A)}
      (hsettle : Settles step (config.1, config.2 ++ fragment) middle)
      (hrest : Fed step middle rest final) :
      Fed step config (fragment :: rest) final

/-- Fragmentation cannot be observed: feeding the fragments one by one settles
where feeding their concatenation at once settles. -/
theorem Fed.settles (hstable : StableUnder step ok)
    {config final : S × List A} {fragments : List (List A)}
    (hfed : Fed step config fragments final)
    (hadm : Admissible step ok (config.1, config.2 ++ fragments.flatten)) :
    Settles step (config.1, config.2 ++ fragments.flatten) final := by
  induction hfed with
  | done hwait =>
      simp only [List.flatten_nil, List.append_nil]
      exact ⟨Relation.ReflTransGen.refl, hwait⟩
  | @more config middle final fragment rest hsettle _ ih =>
      have hsplit : config.2 ++ (fragment :: rest).flatten =
          (config.2 ++ fragment) ++ rest.flatten := by simp
      rw [hsplit] at hadm ⊢
      have hfront := hsettle.1.append hstable rest.flatten hadm
      have hrest := ih (hadm.of_reaches hfront)
      exact ⟨hfront.trans hrest.1, hrest.2⟩

end Fragments

end StreamMachine
