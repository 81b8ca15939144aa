import Mathlib

/-!
# Fresh names

A base has a sequence of forms, and a name is the first form that is not in use.  Giving
names to bases one after the other, each name is in use for the bases after it.  What the
names are can be said without the search: `Takes` holds of the names in which every base has
its first form that no base before it has.
-/

namespace Dinkster.Library

open List

variable {Base Name : Type} {form : Base → Nat → Name}

/-- A number is read back from its decimal form. -/
theorem decimal_injective : Function.Injective (toString : Nat → String) := by
  intro first second same
  have digits := congrArg String.toList same
  simp only [toString, Nat.repr, String.toList_ofList] at digits
  have numbers := congrArg (fun chars => Nat.ofDigitChars 10 chars 0) digits
  simpa only [Nat.ofDigitChars_ten_toDigits] using numbers

theorem isDigit_of_mem_toString {ordinal : Nat} :
    ∀ char ∈ (toString ordinal).toList, char.isDigit = true := by
  intro char listed
  simp only [toString, Nat.repr, String.toList_ofList] at listed
  exact Nat.isDigit_of_mem_toDigits (by decide) (by decide) listed

inductive Takes (form : Base → Nat → Name) : List Base → List Name → Prop where
  | nil : Takes form [] []
  | snoc {bases : List Base} {names : List Name} {base : Base} {index : Nat} :
      Takes form bases names → (∀ below < index, form base below ∈ names) →
      form base index ∉ names → Takes form (bases ++ [base]) (names ++ [form base index])

variable {bases : List Base} {names : List Name}

theorem Takes.length (takes : Takes form bases names) : names.length = bases.length := by
  induction takes with
  | nil => rfl
  | snoc _ _ _ ih => simp [ih]

/-- Names that are taken are distinct. -/
theorem Takes.nodup {bases : List Base} {names : List Name} (takes : Takes form bases names) :
    names.Nodup := by
  induction takes with
  | nil => exact nodup_nil
  | snoc _ _ free ih =>
    rw [← concat_eq_append, nodup_concat]
    exact ⟨free, ih⟩

variable {base : Base} {used : List Name}

theorem Takes.formed (takes : Takes form bases names) {name : Name}
    (paired : (base, name) ∈ bases.zip names) : ∃ index, name = form base index := by
  induction takes with
  | nil => cases paired
  | snoc earlier _ _ ih =>
    rw [zip_append earlier.length.symm, mem_append] at paired
    cases paired with
    | inl before => exact ih before
    | inr last =>
      cases mem_singleton.mp last
      exact ⟨_, rfl⟩

theorem Takes.unique {others : List Name} (takes : Takes form bases names)
    (again : Takes form bases others) : names = others := by
  induction takes generalizing others with
  | nil =>
    have none := again.length
    exact (length_eq_zero_iff.mp none).symm
  | @snoc bases names base index _ met free ih =>
    generalize same : bases ++ [base] = extended at again
    cases again with
    | nil => simp at same
    | @snoc bases' names' base' index' earlier met' free' =>
      have parts := append_inj' same rfl
      have equal : base = base' := (List.cons.inj parts.2).1
      subst equal
      rw [← parts.1] at earlier
      have namesEq := ih earlier
      subst namesEq
      have indices : index = index' := by
        by_contra differ
        cases Nat.lt_or_gt_of_ne differ with
        | inl less => exact free (met' _ less)
        | inr more => exact free' (met _ more)
      rw [indices]

variable [DecidableEq Name]

def skipUsed (form : Base → Nat → Name) (used : List Name) (base : Base) : Nat → Nat → Nat
  | 0, index => index
  | fuel + 1, index =>
    if form base index ∈ used then skipUsed form used base fuel (index + 1) else index

def firstFree (form : Base → Nat → Name) (used : List Name) (base : Base) : Nat :=
  skipUsed form used base used.length 0

theorem skipUsed_used : ∀ {fuel index before : Nat}, (∀ below < index, form base below ∈ used) →
      before < skipUsed form used base fuel index → form base before ∈ used
  | 0, _, _, met, less => met _ less
  | fuel + 1, index, before, met, less => by
    unfold skipUsed at less
    split at less
    · rename_i here
      refine skipUsed_used ?_ less
      intro below bound
      cases Nat.lt_succ_iff_lt_or_eq.mp bound with
      | inl earlier => exact met below earlier
      | inr same => exact same ▸ here
    · exact met _ less

theorem skipUsed_free :
    ∀ {fuel index : Nat}, form base (skipUsed form used base fuel index) ∈ used →
      skipUsed form used base fuel index = index + fuel
  | 0, _, _ => rfl
  | fuel + 1, index, taken => by
    unfold skipUsed at taken ⊢
    split
    · rename_i here
      rw [if_pos here] at taken
      rw [skipUsed_free taken]
      omega
    · rename_i here
      rw [if_neg here] at taken
      exact absurd taken here

theorem used_of_lt_firstFree {before : Nat} (less : before < firstFree form used base) :
    form base before ∈ used :=
  skipUsed_used (fun _ below => absurd below (Nat.not_lt_zero _)) less

theorem form_firstFree_not_mem (apart : Function.Injective (form base)) (used : List Name) :
    form base (firstFree form used base) ∉ used := by
  intro taken
  have last : firstFree form used base = used.length := (skipUsed_free taken).trans (Nat.zero_add _)
  have within : (List.range (used.length + 1)).map (form base) ⊆ used := by
    intro name listed
    obtain ⟨index, bound, rfl⟩ := mem_map.mp listed
    cases Nat.lt_succ_iff_lt_or_eq.mp (mem_range.mp bound) with
    | inl less => exact used_of_lt_firstFree (last ▸ less)
    | inr same => exact same ▸ last ▸ taken
  have distinct := (nodup_range (n := used.length + 1)).map apart
  have fits := (subperm_of_subset distinct within).length_le
  rw [length_map, length_range] at fits
  omega

def assign (form : Base → Nat → Name) : List Name → List Base → List Name
  | _, [] => []
  | used, base :: bases =>
    let name := form base (firstFree form used base)
    name :: assign form (used ++ [name]) bases

@[simp] theorem length_assign (used : List Name) (bases : List Base) :
    (assign form used bases).length = bases.length := by
  induction bases generalizing used with
  | nil => rfl
  | cons base bases ih => simp [assign, ih]

theorem takes_assign (apart : ∀ base, Function.Injective (form base)) {before : List Base}
    (takes : Takes form before used) (bases : List Base) :
    Takes form (before ++ bases) (used ++ assign form used bases) := by
  induction bases generalizing before used with
  | nil => simpa [assign] using takes
  | cons base bases ih =>
    have next := takes.snoc (fun below less => used_of_lt_firstFree less)
      (form_firstFree_not_mem (apart base) used)
    have rest := ih next
    rw [append_assoc, append_assoc] at rest
    exact rest

/-- The names that are assigned are those that are taken. -/
theorem takes_assign_nil (apart : ∀ base, Function.Injective (form base)) (bases : List Base) :
    Takes form bases (assign form [] bases) :=
  takes_assign apart Takes.nil bases

end Dinkster.Library
