/-
Runs of a system whose steps are labelled by actions and may be refused, with
a condition on every step taken.  An invariant is shown for one step and then
holds in every state a guarded run reaches.
-/
import Mathlib.Data.List.Basic

namespace GuardedRun

universe u v w x

variable {S : Type u} {A : Type v}

/-- Take the actions one after another; `none` as soon as one is refused. -/
def run (step : S → A → Option S) : S → List A → Option S
  | state, [] => some state
  | state, action :: actions =>
      match step state action with
      | none => none
      | some next => run step next actions

/-- The condition holds at each step that is taken. -/
def Guarded (step : S → A → Option S) (guard : S → A → Prop) : S → List A → Prop
  | _, [] => True
  | state, action :: actions =>
      guard state action ∧
        match step state action with
        | none => True
        | some next => Guarded step guard next actions

instance decidableGuarded (step : S → A → Option S) (guard : S → A → Prop)
    [∀ state action, Decidable (guard state action)] (state : S) (actions : List A) :
    Decidable (Guarded step guard state actions) :=
  match actions with
  | [] => isTrue trivial
  | action :: actions =>
      have : Decidable (match step state action with
          | none => True
          | some next => Guarded step guard next actions) :=
        match step state action with
        | none => isTrue trivial
        | some next => decidableGuarded step guard next actions
      inferInstanceAs (Decidable (_ ∧ _))

variable {step : S → A → Option S} {guard : S → A → Prop}

/-- What holds initially and survives every guarded step holds in every state
that a guarded run reaches. -/
theorem invariant {holds : S → Prop}
    (hstep : ∀ state action next, holds state → guard state action →
      step state action = some next → holds next)
    {actions : List A} : ∀ {state final : S}, holds state →
      Guarded step guard state actions → run step state actions = some final →
        holds final := by
  induction actions with
  | nil =>
      intro state final hstate _ hrun
      obtain rfl := Option.some.inj hrun
      exact hstate
  | cons action actions ih =>
      intro state final hstate hguard hrun
      cases hnext : step state action with
      | none => simp [run, hnext] at hrun
      | some next =>
          simp only [run, hnext] at hrun
          simp only [Guarded, hnext] at hguard
          exact ih (hstep state action next hstate hguard.1 hnext) hguard.2 hrun

/-- What every step keeps, guarded or not. -/
theorem run_invariant {holds : S → Prop}
    (hstep : ∀ state action next, holds state → step state action = some next → holds next)
    {actions : List A} : ∀ {state final : S}, holds state →
      run step state actions = some final → holds final := by
  induction actions with
  | nil =>
      intro state final hstate hrun
      obtain rfl := Option.some.inj hrun
      exact hstate
  | cons action actions ih =>
      intro state final hstate hrun
      cases hnext : step state action with
      | none => simp [run, hnext] at hrun
      | some next =>
          simp only [run, hnext] at hrun
          exact ih (hstep state action next hstate hnext) hrun

/-- A measure that every guarded step lowers bounds the length of a guarded run. -/
theorem length_le_of_decreasing {holds : S → Prop} {measure : S → Nat}
    (hstep : ∀ state action next, holds state → guard state action →
      step state action = some next → holds next ∧ measure next < measure state)
    {actions : List A} : ∀ {state final : S}, holds state →
      Guarded step guard state actions → run step state actions = some final →
        measure final + actions.length ≤ measure state := by
  induction actions with
  | nil =>
      intro state final _ _ hrun
      obtain rfl := Option.some.inj hrun
      exact Nat.le_refl _
  | cons action actions ih =>
      intro state final hstate hguard hrun
      cases hnext : step state action with
      | none => simp [run, hnext] at hrun
      | some next =>
          simp only [run, hnext] at hrun
          simp only [Guarded, hnext] at hguard
          obtain ⟨hholds, hless⟩ := hstep state action next hstate hguard.1 hnext
          have hlater := ih hholds hguard.2 hrun
          rw [List.length_cons]
          omega

/-- A condition that every step meets is met throughout. -/
theorem guarded_of_forall (hguard : ∀ state action, guard state action) (actions : List A) :
    ∀ state, Guarded step guard state actions := by
  induction actions with
  | nil => exact fun _ => trivial
  | cons action actions ih =>
      intro state
      refine ⟨hguard state action, ?_⟩
      cases step state action with
      | none => trivial
      | some next => exact ih next

/-- A run that breaks the condition once ends in a broken state, if breaking the
condition breaks the state for good. -/
theorem broken_of_not_guarded {holds broken : S → Prop}
    (hkeep : ∀ state action next, holds state → step state action = some next → holds next)
    (hbreak : ∀ state action next, holds state → ¬ guard state action →
      step state action = some next → broken next)
    (hbroken : ∀ state action next, broken state → step state action = some next →
      broken next)
    {actions : List A} : ∀ {state final : S}, holds state →
      run step state actions = some final → ¬ Guarded step guard state actions →
        broken final := by
  induction actions with
  | nil =>
      intro state final _ _ hunguarded
      exact absurd trivial hunguarded
  | cons action actions ih =>
      intro state final hstate hrun hunguarded
      cases hnext : step state action with
      | none => simp [run, hnext] at hrun
      | some next =>
          simp only [run, hnext] at hrun
          simp only [Guarded, hnext] at hunguarded
          by_cases hguard : guard state action
          · exact ih (hkeep state action next hstate hnext) hrun
              (fun hrest => hunguarded ⟨hguard, hrest⟩)
          · exact run_invariant hbroken (hbreak state action next hstate hguard hnext) hrun

/-- What the steps of a run show to an observer, in order. -/
def observed {O : Type w} (step : S → A → Option S) (observe : S → A → List O) :
    S → List A → List O
  | _, [] => []
  | state, action :: actions =>
      observe state action ++
        match step state action with
        | none => []
        | some next => observed step observe next actions

/-- A record that every step extends by what it shows is extended by a run by
all that was observed. -/
theorem recorded_run {O : Type w} {R : Type x} {observe : S → A → List O}
    {record : S → List R} {written : O → List R}
    (hstep : ∀ state action next, step state action = some next →
      record next = record state ++ (observe state action).flatMap written)
    {actions : List A} : ∀ {state final : S}, run step state actions = some final →
      record final = record state ++ (observed step observe state actions).flatMap written := by
  induction actions with
  | nil =>
      intro state final hrun
      obtain rfl := Option.some.inj hrun
      exact (List.append_nil _).symm
  | cons action actions ih =>
      intro state final hrun
      cases hnext : step state action with
      | none => simp [run, hnext] at hrun
      | some next =>
          simp only [run, hnext] at hrun
          rw [ih hrun, hstep state action next hnext]
          simp only [observed, hnext, List.flatMap_append, List.append_assoc]

/-- What every step keeps of a state and of everything shown so far holds at the end
of a run. -/
theorem observed_invariant {O : Type w} {observe : S → A → List O} {tracks : S → List O → Prop}
    (hstep : ∀ state action next seen, tracks state seen → step state action = some next →
      tracks next (seen ++ observe state action))
    {actions : List A} : ∀ {state final : S} {seen : List O}, tracks state seen →
      run step state actions = some final →
        tracks final (seen ++ observed step observe state actions) := by
  induction actions with
  | nil =>
      intro state final seen htracks hrun
      obtain rfl := Option.some.inj hrun
      simpa only [observed, List.append_nil] using htracks
  | cons action actions ih =>
      intro state final seen htracks hrun
      cases hnext : step state action with
      | none => simp [run, hnext] at hrun
      | some next =>
          simp only [run, hnext] at hrun
          simp only [observed, hnext, ← List.append_assoc]
          exact ih (hstep state action next seen htracks hnext) hrun

/-- An observer of the actions themselves. -/
theorem observed_actions {actions : List A} : ∀ {state final : S},
    run step state actions = some final →
      observed step (fun _ action => [action]) state actions = actions := by
  induction actions with
  | nil => exact fun _ => rfl
  | cons action actions ih =>
      intro state final hrun
      cases hnext : step state action with
      | none => simp [run, hnext] at hrun
      | some next =>
          simp only [run, hnext] at hrun
          simp only [observed, hnext, ih hrun, List.singleton_append]

/-- A condition on what each step shows is a condition on what the run shows. -/
theorem guarded_iff_observed {O : Type w} {observe : S → A → List O} {good : O → Prop}
    (hguard : ∀ state action, guard state action ↔ ∀ shown ∈ observe state action, good shown)
    (actions : List A) : ∀ state : S,
      Guarded step guard state actions ↔
        ∀ shown ∈ observed step observe state actions, good shown := by
  induction actions with
  | nil => simp [Guarded, observed]
  | cons action actions ih =>
      intro state
      simp only [Guarded, observed, List.forall_mem_append, hguard]
      cases step state action with
      | none => simp
      | some next => simp [ih next]

theorem run_of_step {state next : S} {action : A} (hstep : step state action = some next)
    (actions : List A) : run step state (action :: actions) = run step next actions := by
  simp only [run, hstep]

theorem run_append (first second : List A) :
    ∀ state : S, run step state (first ++ second) =
      (run step state first).bind fun middle => run step middle second := by
  induction first with
  | nil => exact fun _ => rfl
  | cons action first ih =>
      intro state
      simp only [List.cons_append, run]
      cases step state action with
      | none => rfl
      | some next => exact ih next

/-- The property holds in every state the run passes through. -/
def Throughout (step : S → A → Option S) (property : S → Prop) (state : S)
    (actions : List A) : Prop :=
  ∀ earlier, earlier <+: actions → ∀ reached, run step state earlier = some reached →
    property reached

theorem throughout_cons {property : S → Prop} {state next : S} {action : A}
    {actions : List A} (hnext : step state action = some next) :
    Throughout step property state (action :: actions) ↔
      property state ∧ Throughout step property next actions := by
  constructor
  · intro hall
    refine ⟨hall [] List.nil_prefix state rfl, fun earlier hearlier reached hrun => ?_⟩
    apply hall (action :: earlier) ((List.prefix_cons_inj action).mpr hearlier)
    simpa only [run, hnext] using hrun
  · rintro ⟨hstate, hlater⟩ earlier hearlier reached hrun
    cases earlier with
    | nil =>
        obtain rfl := Option.some.inj hrun
        exact hstate
    | cons first earlier =>
        obtain ⟨rfl, hrest⟩ := List.cons_prefix_cons.mp hearlier
        simp only [run, hnext] at hrun
        exact hlater earlier hrest reached hrun

/-- When the condition on a step says exactly whether the property survives it, the
guarded runs are those that keep the property. -/
theorem throughout_iff_guarded {holds property : S → Prop}
    (hkeep : ∀ state action next, holds state → step state action = some next → holds next)
    (hexact : ∀ state action next, holds state → property state →
      step state action = some next → (property next ↔ guard state action))
    {actions : List A} : ∀ {state final : S}, holds state → property state →
      run step state actions = some final →
        (Throughout step property state actions ↔ Guarded step guard state actions) := by
  induction actions with
  | nil =>
      intro state final _ hproperty _
      refine ⟨fun _ => trivial, fun _ earlier hearlier reached hrun => ?_⟩
      obtain rfl := List.prefix_nil.mp hearlier
      obtain rfl := Option.some.inj hrun
      exact hproperty
  | cons action actions ih =>
      intro state final hstate hproperty hrun
      cases hnext : step state action with
      | none => simp [run, hnext] at hrun
      | some next =>
          simp only [run, hnext] at hrun
          have hone := hexact state action next hstate hproperty hnext
          have hholds := hkeep state action next hstate hnext
          rw [throughout_cons hnext]
          simp only [Guarded, hnext]
          constructor
          · rintro ⟨_, hlater⟩
            have hthere := hlater [] List.nil_prefix next rfl
            exact ⟨hone.mp hthere, (ih hholds hthere hrun).mp hlater⟩
          · rintro ⟨hguard, hlater⟩
            exact ⟨hproperty, (ih hholds (hone.mpr hguard) hrun).mpr hlater⟩

/-- Steps that are matched one by one give matching runs. -/
theorem run_matched {T : Type w} {B : Type x} {abstract : T → B → Option T}
    {related : S → T → Prop} {act : A → B}
    (hstep : ∀ state image action next, related state image →
      step state action = some next →
        ∃ image', abstract image (act action) = some image' ∧ related next image')
    {actions : List A} : ∀ {state final : S} {image : T}, related state image →
      run step state actions = some final →
        ∃ image', run abstract image (actions.map act) = some image' ∧
          related final image' := by
  induction actions with
  | nil =>
      intro state final image hrelated hrun
      obtain rfl := Option.some.inj hrun
      exact ⟨image, rfl, hrelated⟩
  | cons action actions ih =>
      intro state final image hrelated hrun
      cases hnext : step state action with
      | none => simp [run, hnext] at hrun
      | some next =>
          simp only [run, hnext] at hrun
          obtain ⟨image', himage, hrelated'⟩ := hstep state image action next hrelated hnext
          simp only [List.map_cons, run, himage]
          exact ih hrelated' hrun

/-- Steps that are runs of another system compose to a run of it. -/
theorem run_projected {T : Type w} {B : Type x} {coarse : T → B → Option T} {image : S → T}
    {acts : A → List B}
    (hstep : ∀ state action next, step state action = some next →
      run coarse (image state) (acts action) = some (image next))
    {actions : List A} : ∀ {state final : S}, run step state actions = some final →
      run coarse (image state) (actions.flatMap acts) = some (image final) := by
  induction actions with
  | nil =>
      intro state final hrun
      obtain rfl := Option.some.inj hrun
      rfl
  | cons action actions ih =>
      intro state final hrun
      cases hnext : step state action with
      | none => simp [run, hnext] at hrun
      | some next =>
          simp only [run, hnext] at hrun
          rw [List.flatMap_cons, run_append, hstep state action next hnext]
          exact ih hrun

/-- A run that can be executed to a state with a given property. -/
theorem exists_reached {state : S} {actions : List A} {property : S → Prop}
    [DecidablePred property]
    (hreached : (run step state actions).any (fun final => decide (property final)) = true) :
    ∃ final, run step state actions = some final ∧ property final := by
  obtain ⟨final, hrun, hfinal⟩ := (Option.any_eq_true _ _).mp hreached
  exact ⟨final, hrun, of_decide_eq_true hfinal⟩

end GuardedRun
