import Dinkster.Library.EditDistance

/-!
# Splices of a text

A text edit is sent as a splice: so much is deleted at an offset, and a text is inserted there.
Where a foreign edit went first, a splice is rebased over it so that each edit still does to the
text what it was meant to do.  A text is the list of its UTF-16 code units, which offsets count.
-/

namespace Dinkster.Commands

open Library List

variable {α : Type}

structure TextSplice (α : Type) where
  offset : Int
  deleteCount : Int
  insert : List α
  deriving DecidableEq

/-- The loop of `spliceDiff` over the units at the end that both texts share. -/
def suffixLength [DecidableEq α] (before after : List α) : Nat :=
  prefixLength before.reverse after.reverse

/-- `spliceDiff`.  The units at the end are looked for behind those in front. -/
def spliceDiff [DecidableEq α] (before after : List α) : Option (TextSplice α) :=
  if before = after then
    none
  else
    let start := prefixLength before after
    let suffix := suffixLength (before.drop start) (after.drop start)
    some {
      offset := start
      deleteCount := before.length - start - suffix
      insert := (after.take (after.length - suffix)).drop start }

def transformSplice (own foreign : TextSplice α) : TextSplice α :=
  let ownOffset := max 0 own.offset
  let ownDeleteCount := max 0 own.deleteCount
  let foreignOffset := max 0 foreign.offset
  let foreignDeleteCount := max 0 foreign.deleteCount
  let ownEnd := ownOffset + ownDeleteCount
  let foreignEnd := foreignOffset + foreignDeleteCount
  if foreignEnd ≤ ownOffset then
    { own with
      offset := max 0 (ownOffset + foreign.insert.length - foreignDeleteCount)
      deleteCount := ownDeleteCount }
  else if ownEnd ≤ foreignOffset then
    { own with offset := ownOffset, deleteCount := ownDeleteCount }
  else
    let overlap := max 0 (min ownEnd foreignEnd - max ownOffset foreignOffset)
    let offset :=
      if foreignOffset ≤ ownOffset ∧ ownOffset < foreignEnd then
        foreignOffset + foreign.insert.length
      else
        ownOffset
    -- Deleting a range deletes what lands inside it.
    let inserted :=
      if ownOffset < foreignOffset ∧ foreignOffset < ownEnd then foreign.insert.length else 0
    { own with
      offset := max 0 offset
      deleteCount := max 0 (ownDeleteCount - overlap + inserted) }

theorem insert_transformSplice (own foreign : TextSplice α) :
    (transformSplice own foreign).insert = own.insert := by
  simp only [transformSplice]
  split
  · rfl
  · split <;> rfl

structure TextSplice.InRange (splice : TextSplice α) (text : List α) : Prop where
  offset : 0 ≤ splice.offset
  deleteCount : 0 ≤ splice.deleteCount
  within : splice.offset + splice.deleteCount ≤ text.length

/-- What `text.splice` writes. -/
def TextSplice.apply (splice : TextSplice α) (text : List α) : List α :=
  text.take splice.offset.toNat ++ splice.insert
    ++ text.drop (splice.offset + splice.deleteCount).toNat

/-- What `textSplice.run` does to the stored text. -/
def textSpliceRun (params : TextSplice α) (value : List α) : Except String (List α) :=
  if params.offset < 0 ∨ params.deleteCount < 0 then
    .error ("text.splice: params must be " ++
      "\x7bgraphId, nodeId, inputId, offset, deleteCount, insert\x7d")
  else if value.length < params.offset ∨ value.length < params.offset + params.deleteCount then
    .error "text.splice: range must be within the stored string"
  else
    .ok (params.apply value)

/-- `textSplice.transformForRebase`, on the text before and after the foreign edits. -/
def transformForRebase [DecidableEq α] (params : TextSplice α) (oldValue newValue : List α) :
    Option (TextSplice α) := do
  let foreign ← spliceDiff oldValue newValue
  let transformed := transformSplice params foreign
  let offset := min (max 0 transformed.offset) newValue.length
  return { params with
    offset
    deleteCount := min (max 0 transformed.deleteCount) (newValue.length - offset) }

theorem textSpliceRun_of_inRange {params : TextSplice α} {value : List α}
    (fits : params.InRange value) : textSpliceRun params value = .ok (params.apply value) := by
  have ⟨offset, deleteCount, within⟩ := fits
  rw [textSpliceRun, if_neg (by omega), if_neg (by omega)]

def keptUnits (kept : Nat → Bool) (text : List α) (first last : Nat) : List α :=
  (List.range' first (last - first)).filterMap fun position =>
    if kept position then text[position]? else none

section

variable {kept : Nat → Bool} {text : List α} {first middle last : Nat}

theorem keptUnits_append (low : first ≤ middle) (high : middle ≤ last) :
    keptUnits kept text first middle ++ keptUnits kept text middle last =
      keptUnits kept text first last := by
  have positions := range'_append_1 (s := first) (m := middle - first) (n := last - middle)
  rw [show first + (middle - first) = middle by omega,
    show middle - first + (last - middle) = last - first by omega] at positions
  rw [keptUnits, keptUnits, ← filterMap_append, positions, keptUnits]

theorem keptUnits_eq_nil (gone : ∀ position, first ≤ position → position < last →
    kept position = false) : keptUnits kept text first last = [] := by
  rw [keptUnits, filterMap_eq_nil_iff]
  intro position member
  rw [mem_range'_1] at member
  simp [gone position member.1 (by omega)]

theorem filterMap_getElem? {size : Nat} : ∀ {first : Nat}, first + size ≤ text.length →
    (List.range' first size).filterMap (text[·]?) = (text.drop first).take size := by
  induction size with
  | zero => simp
  | succ size ih =>
    intro first within
    have bound : first < text.length := by omega
    rw [range'_succ, filterMap_cons, getElem?_eq_getElem bound,
      ih (by omega), drop_eq_getElem_cons bound, take_succ_cons]

theorem keptUnits_eq_slice (low : first ≤ last) (within : last ≤ text.length)
    (stays : ∀ position, first ≤ position → position < last → kept position = true) :
    keptUnits kept text first last = (text.take last).drop first := by
  have positions : ∀ position ∈ List.range' first (last - first),
      (if kept position then text[position]? else none) = text[position]? := by
    intro position member
    rw [mem_range'_1] at member
    simp [stays position member.1 (by omega)]
  rw [keptUnits, filterMap_congr positions, filterMap_getElem? (by omega), drop_take]

end

/-- Whether a unit is outside both ranges that are deleted. -/
def Kept (own foreign : TextSplice α) (position : Nat) : Prop :=
  ¬ (own.offset ≤ position ∧ position < own.offset + own.deleteCount) ∧
    ¬ (foreign.offset ≤ position ∧ position < foreign.offset + foreign.deleteCount)

instance {own foreign : TextSplice α} : DecidablePred (Kept own foreign) := fun _ =>
  inferInstanceAs (Decidable (_ ∧ _))

/-- The text both edits are meant to give: what neither of them deletes, with what they insert.
Where both insert at one place the foreign text is in front, unless it replaces what follows. -/
def merged (own foreign : TextSplice α) (text : List α) : List α :=
  let rest := keptUnits (fun position => decide (Kept own foreign position)) text
  let ownAt := own.offset.toNat
  let foreignAt := foreign.offset.toNat
  if own.offset < foreign.offset ∧ foreign.offset < own.offset + own.deleteCount then
    rest 0 ownAt ++ own.insert ++ rest ownAt text.length
  else if own.offset < foreign.offset ∨
      own.offset = foreign.offset ∧ own.deleteCount = 0 ∧ 0 < foreign.deleteCount then
    rest 0 ownAt ++ own.insert ++ rest ownAt foreignAt ++ foreign.insert
      ++ rest foreignAt text.length
  else
    rest 0 foreignAt ++ foreign.insert ++ rest foreignAt ownAt ++ own.insert
      ++ rest ownAt text.length

section

variable {insert text : List α} {offset deleted position : Nat}

theorem apply_eq (insert : List α) : (⟨offset, deleted, insert⟩ : TextSplice α).apply text =
    text.take offset ++ insert ++ text.drop (offset + deleted) := by
  rw [TextSplice.apply, Int.toNat_natCast, ← Int.natCast_add, Int.toNat_natCast]

section

variable (within : offset + deleted ≤ text.length)

include within

theorem take_apply_of_le (before : position ≤ offset) :
    ((⟨offset, deleted, insert⟩ : TextSplice α).apply text).take position = text.take position := by
  have front : (text.take offset).length = offset := length_take_of_le (by omega)
  rw [apply_eq, append_assoc, take_append_of_le_length (by omega), take_take,
    min_eq_left before]

theorem drop_apply_of_le (before : position ≤ offset) :
    ((⟨offset, deleted, insert⟩ : TextSplice α).apply text).drop position =
      (text.take offset).drop position ++ insert ++ text.drop (offset + deleted) := by
  have front : (text.take offset).length = offset := length_take_of_le (by omega)
  rw [apply_eq, append_assoc, drop_append_of_le_length (by omega), append_assoc]

theorem take_apply_of_end_le (behind : offset + deleted ≤ position) :
    ((⟨offset, deleted, insert⟩ : TextSplice α).apply text).take
        (position + insert.length - deleted) =
      text.take offset ++ insert ++ (text.take position).drop (offset + deleted) := by
  have front : (text.take offset ++ insert).length = offset + insert.length := by
    rw [length_append, length_take_of_le (by omega)]
  rw [apply_eq, take_append, take_of_length_le (by omega), front, drop_take]
  congr 2
  omega

theorem drop_apply_of_end_le (behind : offset + deleted ≤ position) :
    ((⟨offset, deleted, insert⟩ : TextSplice α).apply text).drop
        (position + insert.length - deleted) = text.drop position := by
  have front : (text.take offset ++ insert).length = offset + insert.length := by
    rw [length_append, length_take_of_le (by omega)]
  rw [apply_eq, drop_append, drop_of_length_le (by omega), front, nil_append,
    drop_drop]
  congr 1
  omega

end

end

theorem length_apply (insert : List α) {text : List α} {offset deleted : Nat}
    (within : offset + deleted ≤ text.length) :
    ((⟨offset, deleted, insert⟩ : TextSplice α).apply text).length =
      text.length + insert.length - deleted := by
  rw [apply_eq, length_append, length_append, length_take_of_le (by omega),
    length_drop]
  omega

/-- What a rebased splice has to do: it is in range, and gives the text that is meant. -/
def Intended (own foreign : TextSplice α) (text : List α) : Prop :=
  (transformSplice own foreign).InRange (foreign.apply text) ∧
    (transformSplice own foreign).apply (foreign.apply text) = merged own foreign text

section

variable {text insert other : List α} {o d f e start count : Nat}

/-- A rebased splice is told by what is in front of it and behind it. -/
theorem intended_of_parts
    (moved : transformSplice ⟨o, d, insert⟩ ⟨f, e, other⟩ = ⟨start, count, insert⟩)
    (within : f + e ≤ text.length) (fits : start + count + e ≤ text.length + other.length)
    (meant : ((⟨f, e, other⟩ : TextSplice α).apply text).take start ++ insert
      ++ ((⟨f, e, other⟩ : TextSplice α).apply text).drop (start + count) =
        merged ⟨o, d, insert⟩ ⟨f, e, other⟩ text) : Intended ⟨o, d, insert⟩ ⟨f, e, other⟩ text := by
  have size := length_apply other within
  rw [Intended, moved, apply_eq insert]
  exact ⟨⟨by simp, by simp, by dsimp only; omega⟩, meant⟩

variable (within : o + d ≤ text.length) (within' : f + e ≤ text.length)

include within within'

theorem intended_behind (behind : f + e ≤ o) : Intended ⟨o, d, insert⟩ ⟨f, e, other⟩ text := by
  have moved : transformSplice ⟨o, d, insert⟩ ⟨f, e, other⟩ =
      ⟨(o + other.length - e : Nat), d, insert⟩ := by
    simp only [transformSplice]
    rw [if_pos (by omega)]
    congr 1
    omega
  refine intended_of_parts moved within' (by omega) ?_
  rw [take_apply_of_end_le within' behind,
    show o + other.length - e + d = o + d + other.length - e by omega,
    drop_apply_of_end_le within' (by omega)]
  simp only [merged, Int.toNat_natCast]
  rw [if_neg (by omega), if_neg (by omega), ← keptUnits_append (show f ≤ f + e by omega) behind,
    ← keptUnits_append (show o ≤ o + d by omega) within,
    keptUnits_eq_slice (by omega) (by omega), keptUnits_eq_nil, keptUnits_eq_slice behind (by omega),
    keptUnits_eq_nil, keptUnits_eq_slice within le_rfl]
  all_goals simp [Kept]
  all_goals omega

omit within in
theorem intended_before (ahead : o + d ≤ f) (met : o < f + e) :
    Intended ⟨o, d, insert⟩ ⟨f, e, other⟩ text := by
  have moved : transformSplice ⟨o, d, insert⟩ ⟨f, e, other⟩ = ⟨o, d, insert⟩ := by
    simp only [transformSplice]
    rw [if_neg (by omega), if_pos (by omega)]
    congr 1
  refine intended_of_parts moved within' (by omega) ?_
  rw [take_apply_of_le within' (by omega), drop_apply_of_le within' ahead]
  simp only [merged, Int.toNat_natCast]
  rw [if_neg (by omega), if_pos (by omega), ← keptUnits_append (show o ≤ o + d by omega) ahead,
    ← keptUnits_append (show f ≤ f + e by omega) within',
    keptUnits_eq_slice (by omega) (by omega), keptUnits_eq_nil, keptUnits_eq_slice ahead (by omega),
    keptUnits_eq_nil, keptUnits_eq_slice within' le_rfl]
  all_goals simp [Kept]
  all_goals omega

/-- The splice starts in what is deleted: its own range begins where that ends. -/
theorem intended_within (after : f ≤ o) (met : o < f + e) (meets : f < o + d) :
    Intended ⟨o, d, insert⟩ ⟨f, e, other⟩ text := by
  have moved : transformSplice ⟨o, d, insert⟩ ⟨f, e, other⟩ =
      ⟨(f + e + other.length - e : Nat), (max (o + d) (f + e) - (f + e) : Nat), insert⟩ := by
    simp only [transformSplice]
    rw [if_neg (by omega), if_neg (by omega), if_pos (by omega), if_neg (by omega)]
    congr 1
    all_goals omega
  refine intended_of_parts moved within' (by omega) ?_
  rw [take_apply_of_end_le within' le_rfl,
    show f + e + other.length - e + (max (o + d) (f + e) - (f + e)) =
      max (o + d) (f + e) + other.length - e by omega,
    drop_apply_of_end_le within' (by omega)]
  simp only [merged, Int.toNat_natCast]
  rw [if_neg (by omega), if_neg (by omega),
    ← keptUnits_append (show o ≤ max (o + d) (f + e) by omega) (by omega),
    keptUnits_eq_slice (by omega) (by omega), keptUnits_eq_nil, keptUnits_eq_nil,
    keptUnits_eq_slice (by omega) le_rfl]
  all_goals simp [Kept]
  all_goals omega

/-- The foreign text lands in what the splice deletes, and is deleted with it. -/
theorem intended_around (ahead : o < f) (meets : f < o + d) :
    Intended ⟨o, d, insert⟩ ⟨f, e, other⟩ text := by
  have moved : transformSplice ⟨o, d, insert⟩ ⟨f, e, other⟩ =
      ⟨o, (max (o + d) (f + e) + other.length - e - o : Nat), insert⟩ := by
    simp only [transformSplice]
    rw [if_neg (by omega), if_neg (by omega), if_neg (by omega), if_pos (by omega)]
    congr 1
    omega
  refine intended_of_parts moved within' (by omega) ?_
  rw [take_apply_of_le within' (by omega),
    show o + (max (o + d) (f + e) + other.length - e - o) =
      max (o + d) (f + e) + other.length - e by omega,
    drop_apply_of_end_le within' (by omega)]
  simp only [merged, Int.toNat_natCast]
  rw [if_pos (by omega), ← keptUnits_append (show o ≤ max (o + d) (f + e) by omega) (by omega),
    keptUnits_eq_slice (by omega) (by omega), keptUnits_eq_nil,
    keptUnits_eq_slice (by omega) le_rfl]
  all_goals simp [Kept]
  all_goals omega

end

theorem transformSplice_intended {text : List α} (fits : own.InRange text)
    (also : foreign.InRange text) : Intended own foreign text := by
  obtain ⟨o, d, insert⟩ := own
  obtain ⟨f, e, other⟩ := foreign
  obtain ⟨low, size, within⟩ := fits
  obtain ⟨low', size', within'⟩ := also
  dsimp only at low size within low' size' within'
  lift o to Nat using low
  lift d to Nat using size
  lift f to Nat using low'
  lift e to Nat using size'
  have within : o + d ≤ text.length := by omega
  have within' : f + e ≤ text.length := by omega
  by_cases behind : f + e ≤ o
  · exact intended_behind within within' behind
  by_cases ahead : o + d ≤ f
  · exact intended_before within' ahead (by omega)
  by_cases inside : o < f
  · exact intended_around within within' inside (by omega)
  · exact intended_within within within' (by omega) (by omega) (by omega)

section

variable [DecidableEq α] {before after : List α}

theorem drop_suffixLength (before after : List α) :
    before.drop (before.length - suffixLength before after) =
      after.drop (after.length - suffixLength before after) := by
  have same := take_prefixLength before.reverse after.reverse
  rw [take_reverse, take_reverse] at same
  exact reverse_injective same

theorem suffixLength_le (before after : List α) :
    suffixLength before after ≤ before.length ∧ suffixLength before after ≤ after.length := by
  have bounds := prefixLength_le before.reverse after.reverse
  rwa [length_reverse, length_reverse] at bounds

theorem spliceDiff_spec {splice : TextSplice α} (diff : spliceDiff before after = some splice) :
    splice.InRange before ∧ splice.apply before = after := by
  rw [spliceDiff] at diff
  split at diff
  · cases diff
  · cases diff
    obtain ⟨short, short'⟩ := prefixLength_le before after
    have front := take_prefixLength before after
    generalize prefixLength before after = start at *
    obtain ⟨rest, rest'⟩ := suffixLength_le (before.drop start) (after.drop start)
    have back := drop_suffixLength (before.drop start) (after.drop start)
    generalize suffixLength (before.drop start) (after.drop start) = suffix at *
    rw [length_drop] at rest rest'
    have behind : before.drop (before.length - suffix) = after.drop (after.length - suffix) := by
      rwa [length_drop, length_drop, drop_drop, drop_drop,
        show start + (before.length - start - suffix) = before.length - suffix by omega,
        show start + (after.length - start - suffix) = after.length - suffix by omega] at back
    refine ⟨⟨by simp, by dsimp only; omega, by dsimp only; omega⟩, ?_⟩
    have middle : after.take start = (after.take (after.length - suffix)).take start := by
      rw [take_take, min_eq_left (by omega)]
    rw [TextSplice.apply, Int.toNat_natCast,
      show ((start : Int) + (before.length - start - suffix)).toNat = before.length - suffix by
        omega, behind, front, middle, take_append_drop, take_append_drop]

/-- A splice rebased over what became of its text is accepted there. -/
theorem transformForRebase_runs {params : TextSplice α} (fits : params.InRange before)
    (changed : before ≠ after) : ∃ foreign rebased, spliceDiff before after = some foreign ∧
      transformForRebase params before after = some rebased ∧
      textSpliceRun rebased after = .ok (merged params foreign before) := by
  obtain ⟨foreign, diff⟩ : ∃ foreign, spliceDiff before after = some foreign := by
    rw [spliceDiff, if_neg changed]
    exact ⟨_, rfl⟩
  obtain ⟨also, result⟩ := spliceDiff_spec diff
  obtain ⟨range, meant⟩ := transformSplice_intended fits also
  rw [result] at range meant
  have ⟨low, size, within⟩ := range
  refine ⟨foreign, transformSplice params foreign, diff, ?_, ?_⟩
  · simp only [transformForRebase, diff, Option.bind_eq_bind, Option.bind_some]
    rw [Int.max_eq_right low, Int.max_eq_right size, Int.min_eq_left (by omega),
      Int.min_eq_left (by omega), ← insert_transformSplice params foreign]
    rfl
  · rw [textSpliceRun_of_inRange range, meant]

theorem transformForRebase_runs_across : ∃ foreign rebased,
    spliceDiff [1, 2, 3, 4] [7, 8, 3, 4] = some foreign ∧
      transformForRebase ⟨1, 2, [9]⟩ [1, 2, 3, 4] [7, 8, 3, 4] = some rebased ∧
        textSpliceRun rebased [7, 8, 3, 4] = .ok (merged ⟨1, 2, [9]⟩ foreign [1, 2, 3, 4]) :=
  transformForRebase_runs ⟨by decide, by decide, by decide⟩ (by decide)

/-- A splice rebased over a foreign one keeps what neither deletes and what both insert, and the
splice between two texts leads from the one to the other. -/
theorem splices_keep_their_intention :
    (∀ (text : List α) (own foreign : TextSplice α), own.InRange text → foreign.InRange text →
      (transformSplice own foreign).InRange (foreign.apply text) ∧
        (transformSplice own foreign).apply (foreign.apply text) = merged own foreign text) ∧
      ∀ before after : List α, before ≠ after → ∃ splice, spliceDiff before after = some splice ∧
        splice.InRange before ∧ splice.apply before = after := by
  refine ⟨fun _ _ _ fits also => transformSplice_intended fits also, ?_⟩
  intro before after changed
  obtain ⟨splice, diff⟩ : ∃ splice, spliceDiff before after = some splice := by
    rw [spliceDiff, if_neg changed]
    exact ⟨_, rfl⟩
  exact ⟨splice, diff, spliceDiff_spec diff⟩

theorem splices_keep_their_intention_once :
    (transformSplice (⟨1, 2, [9]⟩ : TextSplice Nat) ⟨0, 2, [7, 8]⟩).apply [7, 8, 3, 4] =
        [7, 8, 9, 4] ∧
      ∃ splice, spliceDiff [1, 2] [1, 3] = some splice ∧ splice.apply [1, 2] = [1, 3] := by
  obtain ⟨rebase, diff⟩ := splices_keep_their_intention (α := Nat)
  obtain ⟨_, meant⟩ := rebase [1, 2, 3, 4] ⟨1, 2, [9]⟩ ⟨0, 2, [7, 8]⟩
    ⟨by decide, by decide, by decide⟩ ⟨by decide, by decide, by decide⟩
  obtain ⟨splice, found, _, result⟩ := diff [1, 2] [1, 3] (by decide)
  have expected : merged (⟨1, 2, [9]⟩ : TextSplice Nat) ⟨0, 2, [7, 8]⟩ [1, 2, 3, 4] =
      [7, 8, 9, 4] := by decide
  exact ⟨meant.trans expected, splice, found, result⟩

end

end Dinkster.Commands
