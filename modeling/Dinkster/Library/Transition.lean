import Mathlib

/-!
# Labelled transition systems

A system is a partial step function: an action either leads from a state to
exactly one next state or is not enabled there.  Nondeterminism is the choice of
the action.  This module contains runs of such a system and the two rules that
carry a property of one step to a whole run: an invariant is kept by every step,
and a reflexive and transitive relation between the ends of every step relates
the ends of every run.

Both rules take a guard on steps, so that a property which some steps break can
be stated for exactly the runs that avoid them.
-/

namespace Dinkster.Library

open Option

variable {State Action : Type*}

def run (step : State → Action → Option State) : State → List Action → Option State
  | state, [] => some state
  | state, action :: rest =>
    match step state action with
    | some next => run step next rest
    | none => none

def Along (step : State → Action → Option State) (guard : State → Action → Prop) :
    State → List Action → Prop
  | _, [] => True
  | state, action :: rest =>
    guard state action ∧ ∀ next, step state action = some next → Along step guard next rest

def alongTest (step : State → Action → Option State) (admits : State → Action → Bool) :
    State → List Action → Bool
  | _, [] => true
  | state, action :: rest =>
    admits state action &&
      match step state action with
      | some next => alongTest step admits next rest
      | none => true

/-- Take actions that are chosen from the states they are taken in, as long as a
test admits each of them. -/
def enact (step : State → Action → Option State) (admits : State → Action → Bool) :
    State → List (State → Option Action) → Option State
  | state, [] => some state
  | state, choice :: rest =>
    match choice state with
    | none => none
    | some action =>
      if admits state action then
        match step state action with
        | some next => enact step admits next rest
        | none => none
      else none

section Rules

variable {step : State → Action → Option State} {guard : State → Action → Prop}

theorem run_append (state : State) (front back : List Action) : run step state (front ++ back) =
      (run step state front).bind fun middle => run step middle back := by
  induction front generalizing state with
  | nil => rfl
  | cons action front ih =>
    simp only [List.cons_append, run]
    cases step state action with
    | none => rfl
    | some next => exact ih next

variable {state : State} {actions : List Action}

theorem along_append {middle : State} {front back : List Action}
    (along : Along step guard state (front ++ back))
    (reached : run step state front = some middle) :
    Along step guard state front ∧ Along step guard middle back := by
  induction front generalizing state with
  | nil =>
    obtain rfl : state = middle := some.inj reached
    exact ⟨trivial, along⟩
  | cons action front ih =>
    obtain ⟨first, later⟩ := along
    cases taken : step state action with
    | none => simp [run, taken] at reached
    | some next =>
      simp only [run, taken] at reached
      obtain ⟨frontAlong, backAlong⟩ := ih (later next taken) reached
      refine ⟨⟨first, fun other otherTaken => ?_⟩, backAlong⟩
      obtain rfl : next = other := some.inj (taken.symm.trans otherTaken)
      exact frontAlong

variable (Invariant : State → Prop)

theorem run_invariant (kept : ∀ {state action next}, Invariant state → guard state action →
      step state action = some next → Invariant next)
    {state final : State} {actions : List Action} (initially : Invariant state)
    (along : Along step guard state actions) (reached : run step state actions = some final) :
    Invariant final := by
  induction actions generalizing state with
  | nil =>
    obtain rfl : state = final := some.inj reached
    exact initially
  | cons action rest ih =>
    obtain ⟨first, later⟩ := along
    cases taken : step state action with
    | none => simp [run, taken] at reached
    | some next =>
      simp only [run, taken] at reached
      exact ih (kept initially first taken) (later next taken) reached

theorem run_relation (Related : State → State → Prop)
    (kept : ∀ {state action next}, Invariant state → guard state action →
      step state action = some next → Invariant next)
    (related : ∀ {state action next}, Invariant state → guard state action →
      step state action = some next → Related state next) (reflexive : ∀ state, Related state state)
    (transitive : ∀ {first second third}, Related first second → Related second third →
      Related first third) {final : State} (initially : Invariant state)
    (along : Along step guard state actions) (reached : run step state actions = some final) :
    Related state final := by
  induction actions generalizing state with
  | nil =>
    obtain rfl : state = final := some.inj reached
    exact reflexive state
  | cons action rest ih =>
    obtain ⟨first, later⟩ := along
    cases taken : step state action with
    | none => simp [run, taken] at reached
    | some next =>
      simp only [run, taken] at reached
      exact transitive (related initially first taken)
        (ih (kept initially first taken) (later next taken) reached)

/-- A guard on actions alone guards every run whose actions all meet it. -/
theorem along_of_mem {allowed : Action → Prop} (state : State)
    (every : ∀ action ∈ actions, allowed action) :
    Along step (fun _ action => allowed action) state actions := by
  induction actions generalizing state with
  | nil => trivial
  | cons action rest ih =>
    exact ⟨every action List.mem_cons_self, fun next _ =>
      ih next fun other member => every other (List.mem_cons_of_mem _ member)⟩

theorem along_mono {weaker : State → Action → Prop}
    (implied : ∀ state action, guard state action → weaker state action)
    (along : Along step guard state actions) : Along step weaker state actions := by
  induction actions generalizing state with
  | nil => trivial
  | cons action rest ih =>
    exact ⟨implied state action along.1, fun next taken => ih (along.2 next taken)⟩

/-- Two guards of a run guard it together. -/
theorem along_and {other : State → Action → Prop} (left : Along step guard state actions)
    (right : Along step other state actions) :
    Along step (fun state action => guard state action ∧ other state action) state actions := by
  induction actions generalizing state with
  | nil => trivial
  | cons action rest ih =>
    exact ⟨⟨left.1, right.1⟩, fun next taken => ih (left.2 next taken) (right.2 next taken)⟩

variable {admits : State → Action → Bool}

theorem along_of_test (passes : alongTest step admits state actions = true) :
    Along step (fun state action => admits state action = true) state actions := by
  induction actions generalizing state with
  | nil => trivial
  | cons action rest ih =>
    rw [alongTest, Bool.and_eq_true] at passes
    refine ⟨passes.1, fun next taken => ?_⟩
    rw [taken] at passes
    exact ih passes.2

theorem run_of_enact {final : State} {choices : List (State → Option Action)}
    (enacted : enact step admits state choices = some final) :
    ∃ actions, run step state actions = some final ∧
      Along step (fun state action => admits state action = true) state actions := by
  induction choices generalizing state with
  | nil => exact ⟨[], enacted, trivial⟩
  | cons choice rest ih =>
    rw [enact] at enacted
    split at enacted
    · simp at enacted
    rename_i action _
    split at enacted
    · rename_i admitted
      split at enacted
      · rename_i next taken
        obtain ⟨actions, reached, along⟩ := ih enacted
        refine ⟨action :: actions, ?_, admitted, ?_⟩
        · simpa [run, taken] using reached
        · intro other otherTaken
          obtain rfl : next = other := some.inj (taken.symm.trans otherTaken)
          exact along
      · simp at enacted
    · simp at enacted

theorem run_of_enact_any {admits : State → Action → Bool} {state : State}
    {choices : List (State → Option Action)} {test : State → Bool}
    (passes : (enact step admits state choices).any test = true) :
    ∃ actions final, run step state actions = some final ∧
      Along step (fun state action => admits state action = true) state actions ∧
      test final = true := by
  obtain ⟨final, enacted, passed⟩ := (any_eq_true _ _).mp passes
  obtain ⟨actions, reached, along⟩ := run_of_enact enacted
  exact ⟨actions, final, reached, along, passed⟩

theorem run_of_any {test : State → Bool} (passes : (run step state actions).any test = true) :
    ∃ final, run step state actions = some final ∧ test final = true := by
  cases reached : run step state actions with
  | none => simp [reached] at passes
  | some final =>
    rw [reached] at passes
    exact ⟨final, rfl, passes⟩

end Rules

end Dinkster.Library
