import Mathlib

/-!
# Bounds and their meets

A lower and an upper bound, each of which may be missing, and the meet of a list of them.  A
value keeps the meet exactly when it keeps every item, and there is such a value exactly when the
bounds of the meet do not cross.
-/

namespace Dinkster.Library

/-- A lower and an upper bound. -/
@[ext]
structure Bounds (Value : Type) where
  low : WithBot Value
  high : WithTop Value

namespace Bounds

variable {Value : Type}

variable (low high : Option Value)

def ofOptions : Bounds Value where
  low := low
  high := high

def low? (bounds : Bounds Value) : Option Value :=
  bounds.low

def high? (bounds : Bounds Value) : Option Value :=
  bounds.high

@[simp] theorem low?_ofOptions : (ofOptions low high).low? = low := rfl

@[simp] theorem high?_ofOptions : (ofOptions low high).high? = high := rfl

theorem ofOptions_options (bounds : Bounds Value) :
    ofOptions bounds.low? bounds.high? = bounds := rfl

def free : Bounds Value where
  low := ⊥
  high := ⊤

variable [LinearOrder Value]

def Holds (bounds : Bounds Value) (value : Value) : Prop :=
  bounds.low ≤ value ∧ (value : WithTop Value) ≤ bounds.high

/-- The lower bound is above the upper one. -/
def Cross (bounds : Bounds Value) : Prop :=
  ∃ low high : Value, bounds.low = low ∧ bounds.high = high ∧ high < low

/-- The stricter bounds of two. -/
def inter (left right : Bounds Value) : Bounds Value where
  low := max left.low right.low
  high := min left.high right.high

def meet (items : List (Bounds Value)) : Bounds Value :=
  items.foldr inter free

variable {left right bounds : Bounds Value} {items others : List (Bounds Value)} {value : Value}

theorem inter_comm (left right : Bounds Value) : left.inter right = right.inter left := by
  unfold inter
  rw [max_comm, min_comm]

theorem inter_assoc (left middle right : Bounds Value) :
    (left.inter middle).inter right = left.inter (middle.inter right) := by
  unfold inter
  rw [max_assoc, min_assoc]

/-- The stricter bounds of two are the stricter ones of those that are there. -/
theorem inter_ofOptions (low high otherLow otherHigh : Option Value) :
    (ofOptions low high).inter (ofOptions otherLow otherHigh) =
      ofOptions (Option.merge max low otherLow) (Option.merge min high otherHigh) := by
  apply Bounds.ext
  · cases low with
    | none => cases otherLow <;> rfl
    | some low =>
      cases otherLow with
      | none => rfl
      | some other => exact (WithBot.coe_max low other).symm
  · cases high with
    | none => cases otherHigh <;> rfl
    | some high =>
      cases otherHigh with
      | none => rfl
      | some other => exact (WithTop.coe_min high other).symm

theorem low?_inter (left right : Bounds Value) :
    (left.inter right).low? = Option.merge max left.low? right.low? :=
  congrArg low? (inter_ofOptions left.low? left.high? right.low? right.high?)

theorem high?_inter (left right : Bounds Value) :
    (left.inter right).high? = Option.merge min left.high? right.high? :=
  congrArg high? (inter_ofOptions left.low? left.high? right.low? right.high?)

/-- Bounds cross when both are there and in the wrong order. -/
theorem cross_ofOptions {low high : Option Value} :
    (ofOptions low high).Cross ↔ ∃ least greatest, low = some least ∧ high = some greatest ∧
      greatest < least := by
  unfold Cross ofOptions
  rfl

@[simp] theorem inter_free (bounds : Bounds Value) : bounds.inter free = bounds := by
  unfold inter free
  rw [max_bot_right, min_top_right]

@[simp] theorem meet_nil : meet ([] : List (Bounds Value)) = free := rfl

@[simp] theorem meet_cons (bounds : Bounds Value) (items : List (Bounds Value)) :
    meet (bounds :: items) = bounds.inter (meet items) := rfl

/-- The order of the items does not matter. -/
theorem meet_perm (same : items.Perm others) : meet items = meet others := by
  unfold meet
  apply same.foldr_eq'
  intro left _ right _ rest
  rw [← inter_assoc, ← inter_assoc, inter_comm right left]

theorem holds_free (value : Value) : (free : Bounds Value).Holds value :=
  ⟨bot_le, le_top⟩

theorem holds_inter : (left.inter right).Holds value ↔ left.Holds value ∧ right.Holds value := by
  unfold Holds inter
  rw [max_le_iff, le_min_iff]
  exact and_and_and_comm

theorem holds_meet : (meet items).Holds value ↔ ∀ item ∈ items, item.Holds value := by
  induction items with
  | nil => simp [holds_free]
  | cons item rest ih => rw [meet_cons, holds_inter, ih, List.forall_mem_cons]

theorem exists_holds_iff [Nonempty Value] : (∃ value, bounds.Holds value) ↔ ¬ bounds.Cross := by
  constructor
  · rintro ⟨value, above, below⟩ ⟨low, high, isLow, isHigh, crossed⟩
    rw [isLow, WithBot.coe_le_coe] at above
    rw [isHigh, WithTop.coe_le_coe] at below
    exact absurd (above.trans below) (not_le.mpr crossed)
  · intro apart
    obtain ⟨low, high⟩ := bounds
    unfold Holds
    cases low with
    | bot =>
      cases high with
      | top => exact ⟨Classical.arbitrary Value, bot_le, le_top⟩
      | coe high => exact ⟨high, bot_le, le_refl _⟩
    | coe low =>
      refine ⟨low, le_refl _, ?_⟩
      cases high with
      | top => exact le_top
      | coe high =>
        by_contra crossed
        rw [WithTop.coe_le_coe, not_le] at crossed
        exact apart ⟨low, high, rfl, rfl, crossed⟩

theorem Cross.inter (crossed : left.Cross) (right : Bounds Value) : (left.inter right).Cross := by
  obtain ⟨low, high, isLow, isHigh, crossed⟩ := crossed
  obtain ⟨rightLow, rightHigh⟩ := right
  unfold Bounds.inter
  rw [isLow, isHigh]
  cases rightLow with
  | bot =>
    cases rightHigh with
    | top => exact ⟨low, high, max_bot_right _, min_top_right _, crossed⟩
    | coe other =>
      exact ⟨low, min high other, max_bot_right _, (WithTop.coe_min _ _).symm,
        (min_le_left _ _).trans_lt crossed⟩
  | coe another =>
    cases rightHigh with
    | top =>
      exact ⟨max low another, high, (WithBot.coe_max _ _).symm, min_top_right _,
        crossed.trans_le (le_max_left _ _)⟩
    | coe other =>
      exact ⟨max low another, min high other, (WithBot.coe_max _ _).symm,
        (WithTop.coe_min _ _).symm,
        (min_le_left _ _).trans_lt (crossed.trans_le (le_max_left _ _))⟩

/-- Two bounds that admit the same values, and some value, are the same. -/
theorem eq_of_holds_iff [NoMinOrder Value] [NoMaxOrder Value] (kept : ∃ value, left.Holds value)
    (same : ∀ value, left.Holds value ↔ right.Holds value) : left = right := by
  obtain ⟨value, holds⟩ := kept
  have also := (same value).mp holds
  have lows : ∀ {first second : Bounds Value}, first.Holds value → second.Holds value →
      (∀ other, first.Holds other → second.Holds other) → second.low ≤ first.low := by
    intro first second holds also within
    by_contra above
    rw [not_le] at above
    obtain ⟨secondLow, isLow⟩ := WithBot.ne_bot_iff_exists.mp (ne_bot_of_gt above)
    rw [← isLow] at above
    -- A value that keeps the first bounds lies below the second lower bound.
    obtain ⟨lower, admitted, below⟩ : ∃ lower : Value, first.low ≤ lower ∧ lower < secondLow := by
      cases firstLow : first.low with
      | bot =>
        obtain ⟨lower, below⟩ := exists_lt secondLow
        exact ⟨lower, bot_le, below⟩
      | coe low =>
        rw [firstLow, WithBot.coe_lt_coe] at above
        exact ⟨low, le_refl _, above⟩
    have reached : secondLow ≤ value := by
      rw [← WithBot.coe_le_coe, isLow]
      exact also.1
    have inside : first.Holds lower :=
      ⟨admitted, (WithTop.coe_le_coe.mpr (below.le.trans reached)).trans holds.2⟩
    have outside := (within lower inside).1
    rw [← isLow, WithBot.coe_le_coe] at outside
    exact absurd outside (not_le.mpr below)
  have highs : ∀ {first second : Bounds Value}, first.Holds value → second.Holds value →
      (∀ other, first.Holds other → second.Holds other) → first.high ≤ second.high := by
    intro first second holds also within
    by_contra above
    rw [not_le] at above
    obtain ⟨secondHigh, isHigh⟩ := WithTop.ne_top_iff_exists.mp (ne_top_of_lt above)
    rw [← isHigh] at above
    obtain ⟨higher, admitted, beyond⟩ : ∃ higher : Value, higher ≤ first.high ∧ secondHigh < higher := by
      cases firstHigh : first.high with
      | top =>
        obtain ⟨higher, beyond⟩ := exists_gt secondHigh
        exact ⟨higher, le_top, beyond⟩
      | coe high =>
        rw [firstHigh, WithTop.coe_lt_coe] at above
        exact ⟨high, le_refl _, above⟩
    have reached : value ≤ secondHigh := by
      rw [← WithTop.coe_le_coe, isHigh]
      exact also.2
    have inside : first.Holds higher :=
      ⟨holds.1.trans (WithBot.coe_le_coe.mpr (reached.trans beyond.le)), admitted⟩
    have outside := (within higher inside).2
    rw [← isHigh, WithTop.coe_le_coe] at outside
    exact absurd outside (not_le.mpr beyond)
  apply Bounds.ext
  · exact le_antisymm (lows also holds fun other => (same other).mpr)
      (lows holds also fun other => (same other).mp)
  · exact le_antisymm (highs holds also fun other => (same other).mp)
      (highs also holds fun other => (same other).mpr)

end Bounds

end Dinkster.Library
