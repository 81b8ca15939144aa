import Mathlib

/-!
# Texts in the order of their code units

Texts are compared by their UTF-16 code units.  A character of the supplementary planes is two of
them, which sort before the last characters of the basic plane, so the order is not that of the
characters.  No encoding of a character continues that of another one.
-/

namespace Dinkster.Library

open List

variable (char : Char)

/-- The UTF-16 code units of a character. -/
def charUnits : List Nat :=
  if char.toNat < 65536 then [char.toNat]
  else [55296 + (char.toNat - 65536) / 1024, 56320 + (char.toNat - 65536) % 1024]

def textUnits (text : String) : List Nat :=
  text.toList.flatMap charUnits

theorem toNat_lt : char.toNat < 1114112 := by
  cases char.valid with
  | inl low => exact lt_trans low (by decide)
  | inr high => exact high.2

theorem not_surrogate : ¬ (55296 ≤ char.toNat ∧ char.toNat < 57344) := by
  rintro ⟨low, high⟩
  cases char.valid with
  | inl below => exact absurd below (not_lt.mpr low)
  | inr above => exact absurd above.1 (by change ¬ 57343 < char.toNat; omega)

/-- The first character of some units can be read back. -/
theorem charUnits_append {char other : Char} {rest more : List Nat}
    (same : charUnits char ++ rest = charUnits other ++ more) : char = other ∧ rest = more := by
  have first := not_surrogate char
  have second := not_surrogate other
  have high := toNat_lt char
  have also := toNat_lt other
  unfold charUnits at same
  split at same <;> split at same
  · obtain ⟨equal, rest⟩ := List.cons.inj same
    exact ⟨Char.toNat_inj.mp equal, rest⟩
  · obtain ⟨equal, _⟩ := List.cons.inj same
    omega
  · obtain ⟨equal, _⟩ := List.cons.inj same
    omega
  · obtain ⟨leading, same⟩ := List.cons.inj same
    obtain ⟨trailing, rest⟩ := List.cons.inj same
    exact ⟨Char.toNat_inj.mp (by omega), rest⟩

theorem flatMap_charUnits_prefix {start : List Char} : ∀ {text : List Char},
    start.flatMap charUnits <+: text.flatMap charUnits ↔ start <+: text := by
  induction start with
  | nil => exact ⟨fun _ => nil_prefix, fun _ => nil_prefix⟩
  | cons char start ih =>
    intro text
    constructor
    · rintro ⟨rest, same⟩
      rw [flatMap_cons, append_assoc] at same
      cases text with
      | nil =>
        have short := congrArg List.length same
        unfold charUnits at short
        split at short <;> simp at short
      | cons other text =>
        rw [flatMap_cons] at same
        obtain ⟨equal, later⟩ := charUnits_append same
        exact cons_prefix_cons.mpr ⟨equal, ih.mp ⟨rest, later⟩⟩
    · rintro ⟨rest, rfl⟩
      rw [flatMap_append]
      exact prefix_append _ _

theorem textUnits_inj {text other : String} (same : textUnits text = textUnits other) :
    text = other := by
  have there : text.toList <+: other.toList :=
    flatMap_charUnits_prefix.mp ⟨[], (append_nil _).trans same⟩
  have back : other.toList <+: text.toList :=
    flatMap_charUnits_prefix.mp ⟨[], (append_nil _).trans same.symm⟩
  exact String.toList_inj.mp (there.eq_of_length_le back.length_le)

theorem textUnits_append (text more : String) :
    textUnits (text ++ more) = textUnits text ++ textUnits more := by
  unfold textUnits
  rw [String.toList_append, flatMap_append]

def textLe (text other : String) : Prop := textUnits text ≤ textUnits other

instance : DecidableRel textLe :=
  fun text other => inferInstanceAs (Decidable (textUnits text ≤ textUnits other))

instance : Std.Total textLe :=
  ⟨fun text other => le_total (textUnits text) (textUnits other)⟩

instance : IsTrans String textLe :=
  ⟨fun _ _ _ first second => le_trans (show textUnits _ ≤ textUnits _ from first) second⟩

/-- `Array.prototype.sort`, for texts. -/
def sortTexts (texts : List String) : List String :=
  texts.insertionSort textLe

theorem sortTexts_perm (texts : List String) : (sortTexts texts).Perm texts :=
  perm_insertionSort textLe texts

theorem sortTexts_pairwise {texts : List String} (distinct : texts.Nodup) :
    ((sortTexts texts).map textUnits).Pairwise (· < ·) := by
  have sorted : (sortTexts texts).Pairwise textLe := pairwise_insertionSort textLe texts
  have different : (sortTexts texts).Pairwise (· ≠ ·) := (sortTexts_perm texts).nodup_iff.mpr distinct
  refine pairwise_map.mpr ((sorted.and different).imp fun both => ?_)
  exact lt_of_le_of_ne both.1 fun same => both.2 (textUnits_inj same)

end Dinkster.Library
