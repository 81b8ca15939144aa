import Dinkster.Commands.Store

/-!
# Numbers that do not descend

A cursor is a number below a path of keys.  This module contains what becomes of such
a number when an operation is applied, and the law of the preservers: the number they
let through is at least as high as the current one and as the recorded one.  Cursors
count from zero, so an absent number stands for a cursor that was never used.
-/

namespace Dinkster.Commands

open Library Format List

def keyPath (keys : List String) : DocPath :=
  keys.map Segment.key

def numberAt (node : Json) (keys : List String) : Option Rat :=
  match getAtPath node (keyPath keys) with
  | some (.num number) => some number
  | _ => none

/-- The number at a path of keys below a value that may be absent. -/
def numberIn (node : Option Json) (keys : List String) : Option Rat :=
  node.bind fun node => numberAt node keys

@[simp] theorem numberIn_none (keys : List String) : numberIn none keys = none := rfl

@[simp] theorem numberIn_some (node : Json) (keys : List String) :
    numberIn (some node) keys = numberAt node keys := rfl

variable {node : Json} {number : Rat} {key : String} {path : DocPath}

theorem numberAt_nil_eq_some : numberAt node [] = some number ↔ node = .num number := by
  cases node <;> simp [numberAt, keyPath, getAtPath]

variable (fields : List (String × Json))

theorem numberAt_obj_cons (key : String) (keys : List String) :
    numberAt (.obj fields) (key :: keys) = numberIn (getField fields key) keys := by
  simp only [numberAt, keyPath, map_cons, getAtPath, ownChild]
  cases getField fields key <;> rfl

variable {keys : List String} {next : Json} {op : PatchOp}

theorem numberAt_cons_eq_some (found : numberAt node (key :: keys) = some number) :
    ∃ fields, node = .obj fields ∧ numberIn (getField fields key) keys = some number := by
  cases node with
  | obj fields => exact ⟨fields, rfl, numberAt_obj_cons fields key keys ▸ found⟩
  | _ => simp [numberAt, keyPath, getAtPath, ownChild] at found

theorem numberIn_eq_some {node : Option Json} :
    numberIn node keys = some number ↔ ∃ value, node = some value ∧
      numberAt value keys = some number := by
  cases node <;> simp

theorem numberAt_append (front back : List String) :
    numberAt node (front ++ back) = numberIn (getAtPath node (keyPath front)) back := by
  induction front generalizing node with
  | nil => rfl
  | cons key front ih =>
    simp only [numberAt, numberIn, keyPath, cons_append, map_cons, getAtPath] at ih ⊢
    cases ownChild node (.key key) with
    | none => rfl
    | some child => exact ih

/-! ## Frames -/

theorem applyField_eq_ok {fields : List (String × Json)} {name : String}
    (applied : applyField op fields name = .ok next) :
    ∃ others, next = .obj others ∧ getField others name = op.written ∧
      ∀ key, key ≠ name → getField others key = getField fields key := by
  unfold applyField at applied
  cases op with
  | add path value | replace path value oldValue =>
    dsimp only at applied
    split at applied
    · simp at applied
    · cases applied
      refine ⟨_, rfl, ?_, fun key apart => ?_⟩
      · rw [getField_setField, if_pos rfl]
        rfl
      · rw [getField_setField, if_neg (Ne.symm apart)]
  | remove path oldValue =>
    dsimp only at applied
    split at applied
    · simp at applied
    · cases applied
      refine ⟨_, rfl, ?_, fun key apart => ?_⟩
      · rw [getField_eraseField, if_pos rfl]
        rfl
      · rw [getField_eraseField, if_neg (Ne.symm apart)]

theorem applyAt_obj_eq_ok {fields : List (String × Json)} {name : String}
    (applied : applyAt op (.obj fields) (.key name :: path) = .ok next) :
    ∃ others, next = .obj others ∧ (∀ key, key ≠ name → getField others key = getField fields key) ∧
      (path = [] ∧ getField others name = op.written ∨
        ∃ child changed, getField fields name = some child ∧ applyAt op child path = .ok changed ∧
          getField others name = some changed) := by
  rw [applyAt] at applied
  split at applied
  · simp at applied
  split at applied
  · rename_i last
    obtain ⟨others, rfl, here, elsewhere⟩ := applyField_eq_ok applied
    exact ⟨others, rfl, elsewhere, .inl ⟨last, here⟩⟩
  · split at applied
    · simp at applied
    · rename_i child found
      simp only [bind_eq_ok, pure_eq_ok] at applied
      obtain ⟨changed, inside, rfl⟩ := applied
      refine ⟨_, rfl, fun key apart => ?_, .inr ⟨child, changed, found, inside, ?_⟩⟩
      · rw [getField_setField, if_neg (Ne.symm apart)]
      · rw [getField_setField, if_pos rfl]

theorem applyItem_eq_ok {items : List Json} {position : Rat} {slot : Nat}
    (applied : applyItem op items position slot = .ok next) : ∃ others, next = .arr others := by
  unfold applyItem at applied
  cases op with
  | add path value | remove path oldValue | replace path value oldValue =>
    dsimp only at applied
    split at applied
    · simp at applied
    · exact ⟨_, (Except.ok.inj applied).symm⟩

theorem applyAt_arr_eq_ok {items : List Json} {segment : Segment}
    (applied : applyAt op (.arr items) (segment :: path) = .ok next) :
    ∃ others, next = .arr others := by
  cases segment with
  | key name => simp [applyAt] at applied
  | index position =>
    rw [applyAt] at applied
    split at applied
    · simp at applied
    split at applied
    · exact applyItem_eq_ok applied
    · split at applied
      · simp at applied
      · simp only [bind_eq_ok, pure_eq_ok] at applied
        obtain ⟨child, _, rfl⟩ := applied
        exact ⟨_, rfl⟩

/-- An operation on a path of keys leaves what it writes there; elsewhere the numbers,
and what there is, stay. -/
theorem applyAt_keyPath (applied : applyAt op node path = .ok next) (keys : List String) :
    (∃ rest, keyPath keys = path ++ keyPath rest ∧
        getAtPath next (keyPath keys) = op.written.bind fun value => getAtPath value (keyPath rest)) ∨
      ¬ path <+: keyPath keys ∧ numberAt next keys = numberAt node keys ∧
        (getAtPath next (keyPath keys)).isSome = (getAtPath node (keyPath keys)).isSome := by
  induction path generalizing node next keys with
  | nil =>
    cases op with
    | replace path value oldValue =>
      cases applied
      exact .inl ⟨keys, rfl, rfl⟩
    | _ => simp [applyAt] at applied
  | cons segment path ih =>
    cases node with
    | arr items =>
      refine .inr ?_
      obtain ⟨others, rfl⟩ := applyAt_arr_eq_ok applied
      cases segment with
      | key name => simp [applyAt] at applied
      | index position =>
        cases keys with
        | nil => simp [keyPath, numberAt, getAtPath]
        | cons key keys => simp [keyPath, numberAt, getAtPath, ownChild]
    | obj fields =>
      cases segment with
      | index position => simp [applyAt] at applied
      | key name =>
        obtain ⟨others, rfl, elsewhere, here⟩ := applyAt_obj_eq_ok applied
        cases keys with
        | nil => exact .inr (by simp [keyPath, numberAt, getAtPath])
        | cons key keys =>
          by_cases same : key = name
          · subst same
            rcases here with ⟨rfl, written⟩ | ⟨child, changed, found, inside, became⟩
            · refine .inl ⟨keys, rfl, ?_⟩
              simp only [keyPath, map_cons, getAtPath, ownChild, written]
              cases op.written <;> rfl
            · have step : getAtPath (.obj others) (keyPath (key :: keys)) =
                  getAtPath changed (keyPath keys) := by
                simp [keyPath, getAtPath, ownChild, became]
              have before : getAtPath (.obj fields) (keyPath (key :: keys)) =
                  getAtPath child (keyPath keys) := by
                simp [keyPath, getAtPath, ownChild, found]
              rcases ih inside keys with ⟨rest, split, written⟩ | ⟨apart, number, present⟩
              · refine .inl ⟨rest, ?_, step.trans written⟩
                simpa [keyPath] using split
              · refine .inr ⟨?_, ?_, ?_⟩
                · simpa [keyPath] using apart
                · simpa only [numberAt, step, before] using number
                · rw [step, before]
                  exact present
          · refine .inr ⟨?_, ?_, ?_⟩
            · simpa [keyPath] using fun equal => absurd equal.symm same
            · rw [numberAt_obj_cons, numberAt_obj_cons, elsewhere key same]
            · simp only [keyPath, map_cons, getAtPath, ownChild, elsewhere key same]
    | _ => cases segment <;> simp [applyAt] at applied

/-- A positive number is followed by one that is at least as high. -/
def Ascends (before after : Option Rat) : Prop :=
  ∀ number, before = some number → 0 < number → ∃ higher, after = some higher ∧ number ≤ higher

@[simp] theorem ascends_none (after : Option Rat) : Ascends none after :=
  fun _ impossible => by simp at impossible

@[simp] theorem Ascends.refl (number : Option Rat) : Ascends number number :=
  fun number equal _ => ⟨number, equal, le_rfl⟩

theorem Ascends.of_eq {before after : Option Rat} (equal : after = before) : Ascends before after :=
  equal ▸ .refl before

theorem Ascends.trans {first second third : Option Rat} (left : Ascends first second)
    (right : Ascends second third) : Ascends first third := by
  intro number held positive
  obtain ⟨higher, found, above⟩ := left number held positive
  obtain ⟨highest, last, higherStill⟩ := right higher found (lt_of_lt_of_le positive above)
  exact ⟨highest, last, above.trans higherStill⟩

/-! ## Merges -/

/-- A merge does not lower the recorded number at some keys. -/
def Raises (merge : Merge) (keys : List String) : Prop :=
  ∀ next, Ascends (numberIn next keys) (numberIn (merge next) keys)

def Lifts (held : Option Rat) (merge : Merge) (keys : List String) : Prop :=
  ∀ next, Ascends held (numberIn (merge next) keys)

section Entries

variable {key : String} {keys : List String}

theorem mergeEntry_raises {entry : String × Merge} (raises : entry.1 = key → Raises entry.2 keys)
    (state : List (String × Json) × Bool) : Ascends (numberIn (getField state.1 key) keys)
      (numberIn (getField (mergeEntry state entry).1 key) keys) := by
  unfold mergeEntry
  dsimp only
  split
  · rename_i merged found
    split
    · exact .refl _
    · dsimp only
      rw [getField_setField]
      split
      · rename_i same
        have step := raises same (getField state.1 entry.1)
        rwa [found, same] at step
      · exact .refl _
  · exact .refl _

variable {entries : List (String × Merge)}

theorem foldl_mergeEntry_raises (raises : ∀ merge, (key, merge) ∈ entries → Raises merge keys)
    (state : List (String × Json) × Bool) : Ascends (numberIn (getField state.1 key) keys)
      (numberIn (getField (entries.foldl mergeEntry state).1 key) keys) := by
  induction entries generalizing state with
  | nil => exact .refl _
  | cons entry rest ih =>
    have first := @mergeEntry_raises key keys entry (fun same =>
      raises entry.2 (same ▸ mem_cons_self)) state
    exact first.trans (ih (fun merge member => raises merge (mem_cons_of_mem _ member)) _)

theorem foldl_mergeEntry_lifts {held : Option Rat} {merge : Merge}
    (raises : ∀ merge, (key, merge) ∈ entries → Raises merge keys)
    (member : (key, merge) ∈ entries) (lifts : Lifts held merge keys)
    (state : List (String × Json) × Bool) :
    Ascends held (numberIn (getField (entries.foldl mergeEntry state).1 key) keys) := by
  induction entries generalizing state with
  | nil => simp at member
  | cons entry rest ih =>
    have later : ∀ merge, (key, merge) ∈ rest → Raises merge keys := fun merge inside =>
      raises merge (mem_cons_of_mem _ inside)
    rcases mem_cons.mp member with rfl | inside
    · refine Ascends.trans ?_ (foldl_mergeEntry_raises later _)
      have lifted := lifts (getField state.1 key)
      unfold mergeEntry
      dsimp only
      split
      · rename_i merged found
        rw [found] at lifted
        split
        · rename_i same
          rwa [← same]
        · dsimp only
          rwa [getField_setField, if_pos rfl]
      · rename_i absent
        rw [absent] at lifted
        intro number equal positive
        obtain ⟨_, impossible, _⟩ := lifted number equal positive
        simp at impossible
    · exact ih later inside _

/-- The properties a merge starts from hold the recorded numbers. -/
theorem numberIn_objectFields (next : Option Json) (key : String) (keys : List String) :
    numberIn (getField (objectFields next) key) keys = numberIn next (key :: keys) := by
  cases next with
  | none => rfl
  | some node =>
    cases node with
    | obj fields => exact (numberAt_obj_cons fields key keys).symm
    | _ => rfl

/-- Once a merge changed something it stays changed. -/
theorem foldl_mergeEntry_unchanged {state : List (String × Json) × Bool}
    (unchanged : (entries.foldl mergeEntry state).2 = false) :
    entries.foldl mergeEntry state = state := by
  induction entries generalizing state with
  | nil => rfl
  | cons entry rest ih =>
    have same := ih unchanged
    rw [foldl_cons] at unchanged ⊢
    rw [same] at unchanged ⊢
    unfold mergeEntry at unchanged ⊢
    dsimp only at unchanged ⊢
    split at unchanged
    · split at unchanged
      · rw [if_pos ‹_›]
      · simp at unchanged
    · rfl

theorem numberIn_mergeEntries (entries : List (String × Merge)) (next : Option Json) :
    numberIn (mergeEntries entries next) (key :: keys) =
      numberIn (getField (entries.foldl mergeEntry
        (objectFields next, !isJsonObject next)).1 key) keys := by
  unfold mergeEntries
  dsimp only
  split
  · rename_i unchanged
    rw [foldl_mergeEntry_unchanged unchanged, numberIn_objectFields]
  split
  · rename_i empty
    rw [empty.2, getField_nil, ← numberIn_objectFields]
    cases next with
    | none => rfl
    | some node =>
      cases node with
      | obj fields => simp [isJsonObject] at empty
      | _ => rfl
  · exact numberAt_obj_cons _ key keys

theorem mergeEntries_raises (raises : ∀ merge, (key, merge) ∈ entries → Raises merge keys) :
    Raises (mergeEntries entries) (key :: keys) := by
  intro next
  rw [numberIn_mergeEntries, ← numberIn_objectFields]
  exact foldl_mergeEntry_raises raises (objectFields next, !isJsonObject next)

theorem mergeEntries_lifts {held : Option Rat} {merge : Merge}
    (raises : ∀ merge, (key, merge) ∈ entries → Raises merge keys)
    (member : (key, merge) ∈ entries) (lifts : Lifts held merge keys) :
    Lifts held (mergeEntries entries) (key :: keys) := by
  intro next
  rw [numberIn_mergeEntries]
  exact foldl_mergeEntry_lifts raises member lifts _

end Entries

/-- A preserver lets through neither less than the current number at some keys nor
less than the recorded one. -/
structure Shields (preserve : Preserve) (keys : List String) : Prop where
  lifts : ∀ current, Lifts (numberIn current keys) (preserve current) keys
  raises : ∀ current, Raises (preserve current) keys

theorem numberIn_nil_eq_some {node : Option Json} :
    numberIn node [] = some number ↔ node = some (.num number) := by
  cases node with
  | none => simp
  | some node => simp [numberAt_nil_eq_some]

theorem shields_preserveNumericCursor : Shields preserveNumericCursor [] := by
  constructor
  · intro current next held found positive
    obtain rfl := numberIn_nil_eq_some.mp found
    simp only [numberIn_nil_eq_some]
    cases next with
    | none => exact ⟨held, rfl, le_rfl⟩
    | some node =>
      cases node with
      | num recorded =>
        simp only [preserveNumericCursor]
        split
        · exact ⟨held, rfl, le_rfl⟩
        · rename_i least
          exact ⟨recorded, rfl, not_lt.mp least⟩
      | _ => exact ⟨held, rfl, le_rfl⟩
  · intro current next recorded found positive
    obtain rfl := numberIn_nil_eq_some.mp found
    simp only [numberIn_nil_eq_some]
    cases current with
    | none => exact ⟨recorded, rfl, le_rfl⟩
    | some node =>
      cases node with
      | num held =>
        simp only [preserveNumericCursor]
        split
        · rename_i less
          exact ⟨held, rfl, less.le⟩
        · exact ⟨recorded, rfl, le_rfl⟩
      | _ => exact ⟨recorded, rfl, le_rfl⟩

section Records

variable {child : Preserve} {skip : String → Bool} {key : String} {keys : List String}

theorem raises_recordEntries (raises : ∀ current, Raises (child current) keys)
    (fields : List (String × Json)) : ∀ merge,
    (key, merge) ∈ (fields.filter fun entry => !skip entry.1).map (fun entry =>
      (entry.1, child (some entry.2))) → Raises merge keys := by
  intro merge member
  obtain ⟨entry, _, equal⟩ := mem_map.mp member
  exact (Prod.mk.inj equal).2 ▸ raises (some entry.2)

theorem raises_preserveRecord (raises : ∀ current, Raises (child current) keys)
    (current : Option Json) : Raises (preserveRecord child skip current) (key :: keys) := by
  cases current with
  | none => exact fun next => .refl _
  | some node =>
    cases node with
    | obj fields => exact mergeEntries_raises (raises_recordEntries raises fields)
    | _ => exact fun next => .refl _

theorem Shields.preserveRecord (shields : Shields child keys) (kept : skip key = false) :
    Shields (preserveRecord child skip) (key :: keys) := by
  constructor
  · intro current
    cases current with
    | none => exact fun next => ascends_none _
    | some node =>
      cases node with
      | obj fields =>
        intro next
        rw [numberIn_some, numberAt_obj_cons]
        cases found : getField fields key with
        | none => exact ascends_none _
        | some value =>
          have inside : (key, child (some value)) ∈
              (fields.filter fun entry => !skip entry.1).map fun entry =>
                (entry.1, child (some entry.2)) :=
            mem_map.mpr ⟨(key, value),
              mem_filter.mpr ⟨mem_of_getField found, by simp [kept]⟩, rfl⟩
          exact mergeEntries_lifts (raises_recordEntries shields.raises fields) inside
            (shields.lifts (some value)) next
      | _ => exact fun next => ascends_none _
  · exact raises_preserveRecord shields.raises

end Records

theorem shields_preserveActorCursorsMap (actor : String) :
    Shields preserveActorCursorsMap [actor] :=
  shields_preserveNumericCursor.preserveRecord rfl

/-! ### Port states -/

def stateKeys : List (String × String) → List String
  | [] => ["seq"]
  | (member, construct) :: rest => "memberState" :: member :: construct :: stateKeys rest

theorem memberEntries_eq :
    memberEntries fields = fields.map fun entry => (entry.1, preserveScopeOf entry.2) := by
  induction fields with
  | nil => rfl
  | cons entry rest ih => rw [memberEntries, ih, map_cons]

theorem scopeEntries_eq :
    scopeEntries fields = fields.map fun entry => (entry.1, preserveState entry.2) := by
  induction fields with
  | nil => rfl
  | cons entry rest ih => rw [scopeEntries, ih, map_cons]

theorem memberStateEntry_eq : memberStateEntry fields =
      (getField fields "memberState").toList.map fun value => ("memberState", preserveMember value) := by
  induction fields with
  | nil => rfl
  | cons entry rest ih =>
    obtain ⟨key, value⟩ := entry
    rw [memberStateEntry, getField_cons]
    split
    · rfl
    · exact ih

/-- The scope of a member is a record of port states. -/
theorem preserveScope_eq : preserveScope = preserveSome preserveScopeOf := by
  funext current next
  cases current with
  | none => rfl
  | some node =>
    cases node with
    | obj fields =>
      simp only [preserveScope, preserveRecord, preserveSome, preserveScopeOf, scopeEntries_eq,
        preserveStateCursors, Bool.not_false, filter_true]
      rfl
    | _ => simp only [preserveScope, preserveRecord, preserveSome, preserveScopeOf]

theorem preserveMemberMap_eq : preserveMemberMap = preserveSome preserveMember := by
  funext current next
  cases current with
  | none => rfl
  | some node =>
    cases node with
    | obj fields =>
      simp only [preserveMemberMap, preserveRecord, preserveScope_eq, preserveSome, preserveMember,
        memberEntries_eq, Bool.not_false, filter_true]
      rfl
    | _ => simp only [preserveMemberMap, preserveRecord, preserveSome, preserveMember]

/-- The merges of a port state: its `seq`, and its member states if it has any. -/
theorem preserveState_obj : preserveState (.obj fields) =
      mergeEntries (("seq", preserveNumericCursor (getField fields "seq")) ::
        (getField fields "memberState").toList.map fun value =>
          ("memberState", preserveMemberMap (some value))) := by
  funext next
  rw [preserveState, memberStateEntry_eq, preserveMemberMap_eq]
  rfl

theorem Shields.portState {child : Preserve} (shields : Shields child keys)
    (only : ∀ fields merge, (key, merge) ∈ ("seq", preserveNumericCursor (getField fields "seq")) ::
      ((getField fields "memberState").toList.map fun value =>
        ("memberState", preserveMemberMap (some value))) → ∃ current, merge = child current)
    (here : ∀ fields value, getField fields key = some value →
      (key, child (some value)) ∈ ("seq", preserveNumericCursor (getField fields "seq")) ::
        (getField fields "memberState").toList.map fun value =>
          ("memberState", preserveMemberMap (some value))) :
    Shields preserveStateCursors (key :: keys) := by
  have raisesAll (fields : List (String × Json)) : ∀ merge,
      (key, merge) ∈ ("seq", preserveNumericCursor (getField fields "seq")) ::
        ((getField fields "memberState").toList.map fun value =>
          ("memberState", preserveMemberMap (some value))) → Raises merge keys := by
    intro merge member
    obtain ⟨current, rfl⟩ := only fields merge member
    exact shields.raises current
  constructor
  · intro current next
    cases current with
    | none => exact ascends_none _
    | some node =>
      cases node with
      | obj fields =>
        rw [numberIn_some, numberAt_obj_cons, preserveStateCursors, preserveSome, preserveState_obj]
        cases found : getField fields key with
        | none => exact ascends_none _
        | some value =>
          exact mergeEntries_lifts (raisesAll fields) (here fields value found)
            (shields.lifts (some value)) next
      | _ => exact ascends_none _
  · intro current next
    cases current with
    | none => exact .refl _
    | some node =>
      cases node with
      | obj fields =>
        rw [preserveStateCursors, preserveSome, preserveState_obj]
        exact mergeEntries_raises (raisesAll fields) next
      | _ =>
        simp only [preserveStateCursors, preserveSome, preserveState]
        exact .refl _

theorem shields_preserveStateCursors (members : List (String × String)) :
    Shields preserveStateCursors (stateKeys members) := by
  induction members with
  | nil =>
    apply Shields.portState shields_preserveNumericCursor
    · intro fields merge member
      rcases mem_cons.mp member with equal | inside
      · exact ⟨_, (Prod.mk.inj equal).2⟩
      · simp at inside
    · intro fields value found
      rw [found]
      exact mem_cons_self
  | cons entry rest ih =>
    obtain ⟨member, construct⟩ := entry
    have scope : Shields preserveScope (construct :: stateKeys rest) := ih.preserveRecord rfl
    have map : Shields preserveMemberMap (member :: construct :: stateKeys rest) :=
      scope.preserveRecord rfl
    apply Shields.portState map
    · intro fields merge inside
      rcases mem_cons.mp inside with equal | inside
      · simp at equal
      · obtain ⟨value, _, equal⟩ := mem_map.mp inside
        exact ⟨some value, (Prod.mk.inj equal).2.symm⟩
    · intro fields value found
      rw [found]
      exact mem_cons_of_mem _ (mem_map.mpr ⟨value, by simp, rfl⟩)

/-! ### View graphs and topologies -/

theorem preserveGraphViewCursor_number {current : List (String × Json)} {cursor : Rat}
    (held : getField current "groupSeq" = some (.num cursor)) (next : Option Json) :
    ∃ higher, numberIn (preserveGraphViewCursor (some (.obj current)) next) ["groupSeq"] =
        some higher ∧ cursor ≤ higher ∧
      ∀ recorded, numberIn next ["groupSeq"] = some recorded → recorded ≤ higher := by
  have written (base : List (String × Json)) (number : Rat) :
      numberIn (some (.obj (setField base "groupSeq" (.num number)))) ["groupSeq"] =
        some number := by
    rw [numberIn_some, numberAt_obj_cons, getField_setField, if_pos rfl, numberIn_nil_eq_some]
  have recordedIn (recorded : Rat) (found : numberIn next ["groupSeq"] = some recorded) :
      isJsonObject next = true ∧ getField (objectFields next) "groupSeq" = some (.num recorded) := by
    rw [← numberIn_objectFields, numberIn_nil_eq_some] at found
    refine ⟨?_, found⟩
    cases next with
    | none => simp [objectFields] at found
    | some node =>
      cases node with
      | obj fields => rfl
      | _ => simp [objectFields] at found
  simp only [preserveGraphViewCursor, held]
  split
  · rename_i recorded based
    split
    · rename_i kept
      rw [if_pos kept.2] at based
      have number : numberIn next ["groupSeq"] = some recorded := by
        rw [← numberIn_objectFields, numberIn_nil_eq_some, based]
      refine ⟨recorded, number, kept.1, ?_⟩
      intro other found
      rw [number] at found
      exact (Option.some.inj found).ge
    · refine ⟨_, written _ _, ?_, ?_⟩
      · split
        · rename_i less
          exact less.le
        · exact le_rfl
      · intro other found
        obtain ⟨object, there⟩ := recordedIn other found
        rw [if_pos object, there] at based
        obtain rfl := Json.num.inj (Option.some.inj based)
        split
        · exact le_rfl
        · rename_i least
          exact not_lt.mp least
  · rename_i absent
    refine ⟨cursor, written _ _, le_rfl, ?_⟩
    intro other found
    obtain ⟨object, there⟩ := recordedIn other found
    rw [if_pos object] at absent
    exact absurd there (absent other)

theorem shields_preserveGraphViewCursor : Shields preserveGraphViewCursor ["groupSeq"] := by
  constructor
  · intro current next cursor found positive
    cases current with
    | none => simp at found
    | some node =>
      obtain ⟨fields, rfl, held⟩ := numberAt_cons_eq_some found
      obtain ⟨higher, number, above, _⟩ :=
        preserveGraphViewCursor_number (numberIn_nil_eq_some.mp held) next
      exact ⟨higher, number, above⟩
  · intro current next recorded found positive
    cases current with
    | none => exact ⟨recorded, found, le_rfl⟩
    | some node =>
      cases node with
      | obj fields =>
        by_cases held : ∃ cursor, getField fields "groupSeq" = some (.num cursor)
        · obtain ⟨cursor, held⟩ := held
          obtain ⟨higher, number, _, above⟩ := preserveGraphViewCursor_number held next
          exact ⟨higher, number, above recorded found⟩
        · refine ⟨recorded, ?_, le_rfl⟩
          unfold preserveGraphViewCursor
          dsimp only
          split
          · rename_i cursor there
            exact absurd ⟨cursor, there⟩ held
          · exact found
      | _ => exact ⟨recorded, found, le_rfl⟩

variable (current : List (String × Json))

def topologyEntries : List (String × Merge) :=
  [("nextOrdinal", preserveNumericCursor (getField current "nextOrdinal")),
    ("actorCursors", preserveActorCursorsMap (getField current "actorCursors"))]

def hasTopologyCursor : Bool :=
  isPositive (getField current "nextOrdinal") ||
    (objectFields (getField current "actorCursors")).any fun entry => isPositive (some entry.2)

/-- The properties a topology's merges start from. -/
def topologyBase (next : Option Json) : List (String × Json) :=
  if isJsonObject next then objectFields next else topologySkeleton current

theorem numberIn_preserveOccurrenceTopologyCursors {current : List (String × Json)}
    {next : Option Json} (needed : ¬ (hasTopologyCursor current = false ∧ next = none))
    (key : String) (keys : List String) :
    numberIn (preserveOccurrenceTopologyCursors (some (.obj current)) next) (key :: keys) =
      numberIn (getField ((topologyEntries current).foldl mergeEntry
        (topologyBase current next, !isJsonObject next)).1 key) keys := by
  have unfolded : preserveOccurrenceTopologyCursors (some (.obj current)) next =
      if ((topologyEntries current).foldl mergeEntry
          (topologyBase current next, !isJsonObject next)).2 then
        some (.obj ((topologyEntries current).foldl mergeEntry
          (topologyBase current next, !isJsonObject next)).1)
      else next := if_neg needed
  rw [unfolded]
  split
  · exact numberAt_obj_cons _ key keys
  · rename_i unchanged
    rw [Bool.not_eq_true] at unchanged
    have same := foldl_mergeEntry_unchanged unchanged
    rw [same] at unchanged ⊢
    have object : isJsonObject next = true := by simpa using unchanged
    rw [topologyBase, if_pos object, numberIn_objectFields]

theorem Shields.topology {child : Preserve} (shields : Shields child keys)
    (only : ∀ current merge, (key, merge) ∈ topologyEntries current → ∃ held, merge = child held)
    (here : ∀ current, (key, child (getField current key)) ∈ topologyEntries current)
    (counts : ∀ current number, numberIn (getField current key) keys = some number → 0 < number →
      hasTopologyCursor current = true) :
    Shields preserveOccurrenceTopologyCursors (key :: keys) := by
  have raisesAll (current : List (String × Json)) :
      ∀ merge, (key, merge) ∈ topologyEntries current → Raises merge keys := by
    intro merge member
    obtain ⟨held, rfl⟩ := only current merge member
    exact shields.raises held
  constructor
  · intro current next number found positive
    cases current with
    | none => simp at found
    | some node =>
      obtain ⟨fields, rfl, held⟩ := numberAt_cons_eq_some found
      have counted := counts fields number held positive
      rw [numberIn_preserveOccurrenceTopologyCursors (by simp [counted])]
      exact foldl_mergeEntry_lifts (raisesAll fields) (here fields)
        (shields.lifts (getField fields key)) _ number held positive
  · intro current next recorded found positive
    cases current with
    | none => exact ⟨recorded, found, le_rfl⟩
    | some node =>
      cases node with
      | obj fields =>
        have present : next ≠ none := by
          rintro rfl
          simp at found
        have object : isJsonObject next = true := by
          obtain ⟨node, rfl, inside⟩ := numberIn_eq_some.mp found
          obtain ⟨_, rfl, _⟩ := numberAt_cons_eq_some inside
          rfl
        rw [numberIn_preserveOccurrenceTopologyCursors (by simp [present])]
        apply foldl_mergeEntry_raises (raisesAll fields) _ recorded _ positive
        rw [topologyBase, if_pos object, numberIn_objectFields, found]
      | _ => exact ⟨recorded, found, le_rfl⟩

theorem shields_topology_nextOrdinal :
    Shields preserveOccurrenceTopologyCursors ["nextOrdinal"] := by
  apply Shields.topology shields_preserveNumericCursor
  · intro current merge member
    rcases mem_cons.mp member with equal | inside
    · exact ⟨_, (Prod.mk.inj equal).2⟩
    · simp at inside
  · intro current
    exact mem_cons_self
  · intro current number found positive
    rw [numberIn_nil_eq_some] at found
    simp [hasTopologyCursor, found, isPositive, positive]

theorem shields_topology_actorCursors (actor : String) :
    Shields preserveOccurrenceTopologyCursors ["actorCursors", actor] := by
  apply Shields.topology (shields_preserveActorCursorsMap actor)
  · intro current merge member
    rcases mem_cons.mp member with equal | inside
    · simp at equal
    · exact ⟨_, (Prod.mk.inj (mem_singleton.mp inside)).2⟩
  · intro current
    exact mem_cons_of_mem _ mem_cons_self
  · intro current number found positive
    obtain ⟨node, there, inside⟩ := numberIn_eq_some.mp found
    obtain ⟨actors, rfl, number'⟩ := numberAt_cons_eq_some inside
    rw [numberIn_nil_eq_some] at number'
    have member := mem_of_getField number'
    simp only [hasTopologyCursor, there, objectFields, Bool.or_eq_true, any_eq_true]
    exact .inr ⟨_, member, by simp [isPositive, positive]⟩

end Dinkster.Commands
