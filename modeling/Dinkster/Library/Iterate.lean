import Mathlib

/-!
# Loops of a parser

A loop applies a step to an accumulator and a state until the step does not apply.  The step
consumes something of the state every time, so as much fuel as there is left to consume is
enough.
-/

namespace Dinkster.Library

/-- Why a fuelled reader fails: it says so, or its fuel was not enough. -/
inductive Failure where
  | outOfFuel
  | message (text : String)
  deriving DecidableEq

variable {Acc State : Type}

/-- Apply a step until it does not apply. -/
def iterate (step : Acc → State → Option (Except Failure (Acc × State))) :
    Nat → Acc → State → Except Failure (Acc × State)
  | fuel, acc, state =>
    match step acc state with
    | none => .ok (acc, state)
    | some (.error failure) => .error failure
    | some (.ok (acc, state)) =>
      match fuel with
      | 0 => .error .outOfFuel
      | fuel + 1 => iterate step fuel acc state

variable {step : Acc → State → Option (Except Failure (Acc × State))}

theorem iterate_stop {acc : Acc} {state : State} (stops : step acc state = none) (fuel : Nat) :
    iterate step fuel acc state = .ok (acc, state) := by
  cases fuel <;> rw [iterate, stops]

theorem iterate_step {acc next : Acc} {state later : State}
    (steps : step acc state = some (.ok (next, later))) (fuel : Nat) :
    iterate step (fuel + 1) acc state = iterate step fuel next later := by
  rw [iterate, steps]

/-- What every step keeps holds when the loop is left, and the step does not apply there. -/
theorem iterate_ok {kept : Acc → State → Prop} (keeps : ∀ acc state next later, kept acc state →
      step acc state = some (.ok (next, later)) → kept next later) :
    ∀ {fuel : Nat} {acc final : Acc} {state last : State}, kept acc state →
      iterate step fuel acc state = .ok (final, last) → kept final last ∧ step final last = none := by
  intro fuel
  induction fuel with
  | zero =>
    intro acc final state last holds left
    rw [iterate] at left
    split at left
    · rename_i stops
      cases left
      exact ⟨holds, stops⟩
    all_goals cases left
  | succ fuel ih =>
    intro acc final state last holds left
    rw [iterate] at left
    split at left
    · rename_i stops
      cases left
      exact ⟨holds, stops⟩
    · cases left
    · rename_i steps
      exact ih (keeps _ _ _ _ holds steps) left

section Measure

variable (size : State → Nat)

/-- A step that applies and consumes something. -/
def Moves (step : Acc → State → Option (Except Failure (Acc × State)))
    (before after : Acc × State) : Prop :=
  step before.1 before.2 = some (.ok after) ∧ size after.2 < size before.2

theorem iterate_of_moves {before after : Acc × State}
    (run : Relation.ReflTransGen (Moves size step) before after)
    (stops : step after.1 after.2 = none) :
    ∀ {fuel : Nat}, size before.2 ≤ fuel → iterate step fuel before.1 before.2 = .ok after := by
  induction run using Relation.ReflTransGen.head_induction_on with
  | refl =>
    intro fuel _
    exact iterate_stop stops fuel
  | head move _ ih =>
    intro fuel enough
    cases fuel with
    | zero => exact absurd move.2 (by omega)
    | succ fuel =>
      rw [iterate_step move.1]
      exact ih (by have := move.2; omega)

end Measure

end Dinkster.Library
