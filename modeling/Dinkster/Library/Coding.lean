import Mathlib

/-!
# Keys made of escaped segments

A key joins segments with a separator, after each symbol of a segment has been encoded so
that the separator cannot occur.  When the encoding is a prefix-free code, different
segments give different keys.
-/

namespace Dinkster.Library

open List

variable {Symbol Letter : Type}

/-- A code in which what follows a word does not matter to which word it is. -/
def PrefixFree (encode : Symbol → List Letter) : Prop :=
  ∀ first second rest other, encode first ++ rest = encode second ++ other → first = second

variable {encode : Symbol → List Letter}

theorem PrefixFree.flatMap_injective (free : PrefixFree encode)
    (filled : ∀ symbol, encode symbol ≠ []) :
    ∀ {first second : List Symbol}, first.flatMap encode = second.flatMap encode → first = second
  | [], [], _ => rfl
  | [], symbol :: _, same => by
    have empty := append_eq_nil_iff.mp (flatMap_cons ▸ same.symm)
    exact absurd empty.1 (filled symbol)
  | symbol :: _, [], same => by
    have empty := append_eq_nil_iff.mp (flatMap_cons ▸ same)
    exact absurd empty.1 (filled symbol)
  | symbol :: first, other :: second, same => by
    rw [flatMap_cons, flatMap_cons] at same
    have equal := free symbol other _ _ same
    subst equal
    rw [free.flatMap_injective filled (append_cancel_left same)]

/-- Encoded symbols that end with a word of their own can be read off, whatever follows. -/
theorem PrefixFree.terminated (free : PrefixFree encode) {stop : List Letter}
    (apart : ∀ symbol rest other, encode symbol ++ rest ≠ stop ++ other) :
    ∀ {first second : List Symbol} {rest other : List Letter},
      first.flatMap encode ++ (stop ++ rest) = second.flatMap encode ++ (stop ++ other) →
        first = second ∧ rest = other
  | [], [], _, _, same => ⟨rfl, append_cancel_left same⟩
  | [], symbol :: second, rest, other, same => by
    rw [flatMap_cons, append_assoc] at same
    exact absurd same.symm (apart symbol _ _)
  | symbol :: first, [], rest, other, same => by
    rw [flatMap_cons, append_assoc] at same
    exact absurd same (apart symbol _ _)
  | symbol :: first, found :: second, rest, other, same => by
    rw [flatMap_cons, flatMap_cons, append_assoc, append_assoc] at same
    have equal := free symbol found _ _ same
    subst equal
    have later := free.terminated apart (append_cancel_left same)
    exact ⟨by rw [later.1], later.2⟩

/-- Joining segments without the separator loses nothing, unless there are none. -/
theorem intercalate_injective [DecidableEq Letter] {separator : Letter}
    {first second : List (List Letter)} (firstClean : ∀ segment ∈ first, separator ∉ segment)
    (secondClean : ∀ segment ∈ second, separator ∉ segment)
    (firstFilled : first ≠ []) (secondFilled : second ≠ [])
    (same : [separator].intercalate first = [separator].intercalate second) : first = second := by
  rw [← splitOn_intercalate separator firstClean firstFilled, same,
    splitOn_intercalate separator secondClean secondFilled]

end Dinkster.Library
