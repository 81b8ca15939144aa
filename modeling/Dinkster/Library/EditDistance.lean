import Mathlib

/-!
# Common beginnings of lists, and the distance of two lists

The distance of two lists is the least number of insertions, deletions and substitutions that
lead from the one to the other.  At distance one the lists agree up to a single place.
-/

namespace Dinkster.Library

open List

variable {α : Type} [DecidableEq α]

/-- How many entries in front two lists share. -/
def prefixLength : List α → List α → Nat
  | entry :: left, other :: right => if entry = other then prefixLength left right + 1 else 0
  | _, _ => 0

def levenshtein : List α → List α → Nat
  | [], right => right.length
  | entry :: left, [] => (entry :: left).length
  | entry :: left, other :: right =>
    if entry = other then
      levenshtein left right
    else
      1 + min (levenshtein left (other :: right))
        (min (levenshtein (entry :: left) right) (levenshtein left right))
termination_by left right => left.length + right.length

section

variable {entry other : α} {left right : List α}

theorem prefixLength_le (left right : List α) :
    prefixLength left right ≤ left.length ∧ prefixLength left right ≤ right.length := by
  induction left, right using prefixLength.induct with
  | case1 entry left right ih => simp [prefixLength, ih]
  | case2 entry left other right differ => simp [prefixLength, differ]
  | case3 left right apart =>
    rw [prefixLength]
    · simp
    · exact apart

theorem take_prefixLength (left right : List α) :
    left.take (prefixLength left right) = right.take (prefixLength left right) := by
  induction left, right using prefixLength.induct with
  | case1 entry left right ih => simp [prefixLength, ih]
  | case2 entry left other right differ => simp [prefixLength, differ]
  | case3 left right apart =>
    rw [prefixLength]
    · simp
    · exact apart

theorem levenshtein_eq_zero_iff : levenshtein left right = 0 ↔ left = right := by
  induction left, right using levenshtein.induct with
  | case1 right =>
    rw [levenshtein, length_eq_zero_iff]
    exact eq_comm
  | case2 entry left => simp [levenshtein]
  | case3 entry left right ih => simp [levenshtein, ih]
  | case4 entry left other right differ _ _ _ =>
    rw [levenshtein, if_neg differ]
    simp [differ]

/-- Behind a first entry that is shared nothing changes. -/
theorem levenshtein_cons_self :
    levenshtein (entry :: left) (entry :: right) = levenshtein left right := by
  rw [levenshtein, if_pos rfl]

/-- Where the first entries differ, one of the three edits is made there. -/
theorem levenshtein_cons_le_one_iff (differ : entry ≠ other) :
    levenshtein (entry :: left) (other :: right) ≤ 1 ↔
      left = other :: right ∨ entry :: left = right ∨ left = right := by
  rw [levenshtein, if_neg differ, ← levenshtein_eq_zero_iff, ← levenshtein_eq_zero_iff,
    ← levenshtein_eq_zero_iff]
  omega

theorem levenshtein_comm : levenshtein left right = levenshtein right left := by
  induction left, right using levenshtein.induct with
  | case1 right => cases right <;> simp [levenshtein]
  | case2 entry left => simp [levenshtein]
  | case3 entry left right ih => rw [levenshtein_cons_self, levenshtein_cons_self, ih]
  | case4 entry left other right differ first second third =>
    rw [levenshtein, if_neg differ, levenshtein, if_neg (Ne.symm differ), first, second, third]
    omega

/-- Lists at most one edit apart have nearly the same length. -/
theorem length_of_levenshtein_le_one (near : levenshtein left right ≤ 1) :
    left.length ≤ right.length + 1 ∧ right.length ≤ left.length + 1 := by
  induction left, right using levenshtein.induct with
  | case1 right | case2 entry left =>
    rw [levenshtein] at near
    simpa using near
  | case3 entry left right ih =>
    rw [levenshtein_cons_self] at near
    simpa using ih near
  | case4 entry left other right differ _ _ _ =>
    obtain rfl | rfl | rfl := (levenshtein_cons_le_one_iff differ).mp near
    all_goals simp

/-- Lists of one length are one edit apart where they agree behind the first difference. -/
theorem levenshtein_le_one_iff_of_length_eq (same : left.length = right.length) :
    levenshtein left right ≤ 1 ↔
      left.drop (prefixLength left right + 1) = right.drop (prefixLength left right + 1) := by
  induction left, right using prefixLength.induct with
  | case1 entry left right ih =>
    rw [levenshtein_cons_self, ih (by simpa using same), prefixLength, if_pos rfl]
    rfl
  | case2 entry left other right differ =>
    rw [levenshtein_cons_le_one_iff differ, prefixLength, if_neg differ]
    simp only [length_cons, Nat.add_right_cancel_iff] at same
    constructor
    · rintro (rfl | rfl | equal)
      · simp at same
      · simp at same
      · exact equal
    · exact fun equal => .inr (.inr equal)
  | case3 left right apart =>
    cases left with
    | nil =>
      obtain rfl := length_eq_zero_iff.mp same.symm
      simp [levenshtein]
    | cons entry left =>
      cases right with
      | nil => simp at same
      | cons other right => exact absurd rfl (apart entry left other right rfl)

/-- A list and a longer one are one edit apart where an entry left out makes them agree. -/
theorem levenshtein_le_one_iff_of_length_succ (longer : left.length + 1 = right.length) :
    levenshtein left right ≤ 1 ↔
      left.drop (prefixLength left right) = right.drop (prefixLength left right + 1) := by
  induction left, right using prefixLength.induct with
  | case1 entry left right ih =>
    rw [levenshtein_cons_self, ih (by simpa using longer), prefixLength, if_pos rfl]
    rfl
  | case2 entry left other right differ =>
    rw [levenshtein_cons_le_one_iff differ, prefixLength, if_neg differ]
    simp only [length_cons, Nat.add_right_cancel_iff] at longer
    constructor
    · rintro (rfl | equal | rfl)
      · simp only [length_cons] at longer
        omega
      · exact equal
      · simp at longer
    · exact fun equal => .inr (.inl equal)
  | case3 left right apart =>
    cases left with
    | nil =>
      cases right with
      | nil => simp at longer
      | cons other right => cases right <;> simp_all [levenshtein, prefixLength]
    | cons entry left =>
      cases right with
      | nil => simp at longer
      | cons other right => exact absurd rfl (apart entry left other right rfl)

end

end Dinkster.Library
