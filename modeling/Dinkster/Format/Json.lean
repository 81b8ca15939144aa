import Dinkster.Library.Value

/-!
# JSON documents

Documents, command parameters and wire patches are JSON values.  An object keeps
its own properties in insertion order, so the order is part of a `Json` but not
of the `Value` it denotes.  `jsonSameValue` is the comparison the store and the
shared session use; on plain values it decides equality of denotations.
-/

namespace Dinkster.Format

open Library List

/-- A JSON value.  Numbers are finite, and object properties are listed in
insertion order. -/
inductive Json where
  | null
  | bool (value : Bool)
  | num (value : Rat)
  | str (value : String)
  | arr (items : List Json)
  | obj (fields : List (String × Json))

mutual

/-- Whether two values are written alike, property by property. -/
def Json.identical : Json → Json → Bool
  | .null, .null => true
  | .bool left, .bool right => left = right
  | .num left, .num right => left = right
  | .str left, .str right => left = right
  | .arr left, .arr right => identicalItems left right
  | .obj left, .obj right => identicalFields left right
  | _, _ => false

/-- Whether two lists of items are written alike. -/
def identicalItems : List Json → List Json → Bool
  | [], [] => true
  | left :: lefts, right :: rights => left.identical right && identicalItems lefts rights
  | _, _ => false

/-- Whether two lists of properties are written alike. -/
def identicalFields : List (String × Json) → List (String × Json) → Bool
  | [], [] => true
  | (key, left) :: lefts, (name, right) :: rights =>
    key = name && left.identical right && identicalFields lefts rights
  | _, _ => false

end

mutual

theorem Json.identical_iff : ∀ left right : Json, left.identical right = true ↔ left = right
  | .null, right => by cases right <;> simp [Json.identical]
  | .bool _, right | .num _, right | .str _, right => by cases right <;> simp [Json.identical]
  | .arr lefts, right => by
    cases right <;> simp [Json.identical, identicalItems_iff]
  | .obj lefts, right => by
    cases right <;> simp [Json.identical, identicalFields_iff]

theorem identicalItems_iff : ∀ left right : List Json,
    identicalItems left right = true ↔ left = right
  | [], right => by cases right <;> simp [identicalItems]
  | left :: lefts, right => by
    cases right <;> simp [identicalItems, Json.identical_iff left, identicalItems_iff lefts]

theorem identicalFields_iff : ∀ left right : List (String × Json),
    identicalFields left right = true ↔ left = right
  | [], right => by cases right <;> simp [identicalFields]
  | (key, left) :: lefts, right => by
    cases right with
    | nil => simp [identicalFields]
    | cons entry rights =>
      simp [identicalFields, Json.identical_iff left, identicalFields_iff lefts, Prod.ext_iff]

end

instance : DecidableEq Json := fun left right =>
  decidable_of_iff (left.identical right = true) (Json.identical_iff left right)

/-- The own property of a name, as read through `Object.hasOwn`. -/
def getField : List (String × Json) → String → Option Json
  | [], _ => none
  | (key, field) :: rest, name => if key = name then some field else getField rest name

/-- `{ ...node, [name]: value }`: an own property keeps its position. -/
def setField : List (String × Json) → String → Json → List (String × Json)
  | [], name, value => [(name, value)]
  | (key, field) :: rest, name, value =>
    if key = name then (key, value) :: rest else (key, field) :: setField rest name value

/-- `const { [name]: _removed, ...rest } = node`. -/
def eraseField (fields : List (String × Json)) (name : String) : List (String × Json) :=
  fields.filter fun entry => entry.1 ≠ name

/-- `Object.keys`. -/
def fieldKeys (fields : List (String × Json)) : List String :=
  fields.map Prod.fst

@[simp] theorem getField_nil (name : String) : getField [] name = none := rfl

@[simp] theorem getField_cons (key name : String) (field : Json) (rest : List (String × Json)) :
    getField ((key, field) :: rest) name =
      if key = name then some field else getField rest name := rfl

theorem getField_setField (fields : List (String × Json)) (name other : String) (value : Json) :
    getField (setField fields name value) other =
      if name = other then some value else getField fields other := by
  induction fields with
  | nil => rfl
  | cons entry rest ih =>
    obtain ⟨key, field⟩ := entry
    by_cases equal : key = name
    · subst equal
      simp only [setField, if_true, getField_cons]
      split <;> rfl
    · simp only [setField, if_neg equal, getField_cons, ih]
      by_cases found : key = other
      · subst found
        simp [Ne.symm equal]
      · simp [found]

theorem getField_eraseField (fields : List (String × Json)) (name other : String) :
    getField (eraseField fields name) other =
      if name = other then none else getField fields other := by
  induction fields with
  | nil => simp [eraseField]
  | cons entry rest ih =>
    obtain ⟨key, field⟩ := entry
    have tail : eraseField ((key, field) :: rest) name =
        if key = name then eraseField rest name
        else (key, field) :: eraseField rest name := by
      by_cases equal : key = name <;> simp [eraseField, equal]
    by_cases equal : key = name
    · subst equal
      rw [tail, if_pos rfl, ih, getField_cons]
      by_cases found : key = other <;> simp [found]
    · rw [tail, if_neg equal, getField_cons, getField_cons, ih]
      by_cases found : key = other
      · subst found
        simp [Ne.symm equal]
      · simp [found]

variable {fields : List (String × Json)}

variable {name : String} {value : Json} {items : List Json}

theorem getField_eq_none_iff : getField fields name = none ↔ name ∉ fieldKeys fields := by
  induction fields with
  | nil => simp [fieldKeys]
  | cons entry rest ih =>
    obtain ⟨key, field⟩ := entry
    by_cases equal : key = name
    · simp [fieldKeys, equal]
    · simpa [fieldKeys, equal, Ne.symm equal] using ih

theorem mem_of_getField (found : getField fields name = some value) : (name, value) ∈ fields := by
  induction fields with
  | nil => simp at found
  | cons entry rest ih =>
    obtain ⟨key, field⟩ := entry
    rw [getField_cons] at found
    split at found
    · rename_i equal
      cases found
      exact equal ▸ mem_cons_self
    · exact mem_cons_of_mem _ (ih found)

/-- Dropping other properties leaves a property alone. -/
theorem getField_filter {fields : List (String × Json)} {name : String}
    {keep : String → Bool} (kept : keep name = true) :
    getField (fields.filter fun entry => keep entry.1) name = getField fields name := by
  induction fields with
  | nil => rfl
  | cons entry rest ih =>
    obtain ⟨key, field⟩ := entry
    rw [filter_cons, getField_cons]
    by_cases equal : key = name
    · subst equal
      rw [if_pos kept, getField_cons, if_pos rfl, if_pos rfl]
    · rw [if_neg equal, ← ih]
      split
      · rw [getField_cons, if_neg equal]
      · rfl

theorem getField_mapValues (fields : List (String × Json)) (name : String) (change : Json → Json) :
    getField (fields.map fun entry => (entry.1, change entry.2)) name =
      (getField fields name).map change := by
  induction fields with
  | nil => rfl
  | cons entry rest ih =>
    obtain ⟨key, field⟩ := entry
    rw [map_cons, getField_cons, getField_cons, ih]
    split <;> rfl

theorem getField_of_mem (distinct : (fieldKeys fields).Nodup) (member : (name, value) ∈ fields) :
    getField fields name = some value := by
  induction fields with
  | nil => simp at member
  | cons entry rest ih =>
    obtain ⟨key, field⟩ := entry
    obtain ⟨fresh, restDistinct⟩ := nodup_cons.mp distinct
    rcases mem_cons.mp member with same | later
    · cases same
      simp
    · have other : key ≠ name := by
        rintro rfl
        exact fresh (mem_map.mpr ⟨_, later, rfl⟩)
      rw [getField_cons, if_neg other]
      exact ih restDistinct later

theorem fieldKeys_setField (fields : List (String × Json)) (name : String) (value : Json) :
    fieldKeys (setField fields name value) =
      if name ∈ fieldKeys fields then fieldKeys fields else fieldKeys fields ++ [name] := by
  induction fields with
  | nil => rfl
  | cons entry rest ih =>
    obtain ⟨key, field⟩ := entry
    by_cases equal : key = name
    · simp [setField, fieldKeys, equal]
    · simp only [fieldKeys] at ih
      simp only [setField, if_neg equal, fieldKeys, map_cons, ih, mem_cons, Ne.symm equal, false_or]
      split <;> simp [*]

mutual

def Json.value : Json → Value
  | .null => .null
  | .bool value => .bool value
  | .num value => .num value
  | .str value => .str value
  | .arr items => .arr (itemsValue items)
  | .obj fields => .obj (fieldsValue fields)

/-- The values of array elements. -/
def itemsValue : List Json → List Value
  | [] => []
  | item :: rest => item.value :: itemsValue rest

/-- The values of own properties, `undefined` at every other name. -/
def fieldsValue : List (String × Json) → String → Value
  | [], _ => .undefined
  | (key, field) :: rest, name => if key = name then field.value else fieldsValue rest name

end

/-- The denotation of a value that may be absent. -/
def optionValue : Option Json → Value
  | none => .undefined
  | some json => json.value

@[simp] theorem optionValue_none : optionValue none = .undefined := rfl

@[simp] theorem optionValue_some (json : Json) : optionValue (some json) = json.value := rfl

@[simp] theorem value_arr (items : List Json) :
    (Json.arr items).value = .arr (itemsValue items) := by
  rw [Json.value]

@[simp] theorem value_obj (fields : List (String × Json)) :
    (Json.obj fields).value = .obj (fieldsValue fields) := by
  rw [Json.value]

@[simp] theorem itemsValue_eq (items : List Json) : itemsValue items = items.map Json.value := by
  induction items with
  | nil => rfl
  | cons item rest ih => rw [itemsValue, ih, map_cons]

theorem fieldsValue_eq (fields : List (String × Json)) (name : String) :
    fieldsValue fields name = optionValue (getField fields name) := by
  induction fields with
  | nil => rfl
  | cons entry rest ih =>
    obtain ⟨key, field⟩ := entry
    rw [fieldsValue, getField_cons, ih]
    split <;> rfl

/-- Absence is never a stored value. -/
@[simp] theorem value_ne_undefined (json : Json) : json.value ≠ .undefined := by
  cases json <;> simp [Json.value]

theorem optionValue_eq_undefined {field : Option Json} :
    optionValue field = .undefined ↔ field = none := by
  cases field <;> simp

@[simp] theorem fieldsValue_setField (fields : List (String × Json)) (name : String)
    (value : Json) : fieldsValue (setField fields name value) =
      Function.update (fieldsValue fields) name value.value := by
  funext other
  rw [fieldsValue_eq, getField_setField]
  by_cases equal : name = other
  · subst equal
    simp
  · rw [if_neg equal, Function.update_of_ne (Ne.symm equal), fieldsValue_eq]

@[simp] theorem fieldsValue_eraseField (fields : List (String × Json)) (name : String) :
    fieldsValue (eraseField fields name) =
      Function.update (fieldsValue fields) name .undefined := by
  funext other
  rw [fieldsValue_eq, getField_eraseField]
  by_cases equal : name = other
  · subst equal
    simp
  · rw [if_neg equal, Function.update_of_ne (Ne.symm equal), fieldsValue_eq]

mutual

/-- Every object lists each own property once. -/
def Json.Plain : Json → Prop
  | .arr items => plainItems items
  | .obj fields => (fieldKeys fields).Nodup ∧ plainFields fields
  | _ => True

def plainItems : List Json → Prop
  | [] => True
  | item :: rest => item.Plain ∧ plainItems rest

/-- Every property value is plain. -/
def plainFields : List (String × Json) → Prop
  | [] => True
  | (_, field) :: rest => field.Plain ∧ plainFields rest

end

theorem plainItems_iff : plainItems items ↔ ∀ item ∈ items, item.Plain := by
  induction items with
  | nil => simp [plainItems]
  | cons item rest ih => simp [plainItems, ih]

theorem plainFields_iff : plainFields fields ↔ ∀ entry ∈ fields, entry.2.Plain := by
  induction fields with
  | nil => simp [plainFields]
  | cons entry rest ih => simp [plainFields, ih]

theorem plain_obj_iff : (Json.obj fields).Plain ↔
      (fieldKeys fields).Nodup ∧ ∀ entry ∈ fields, entry.2.Plain := by
  rw [Json.Plain, plainFields_iff]

theorem plain_arr_iff : (Json.arr items).Plain ↔ ∀ item ∈ items, item.Plain := by
  rw [Json.Plain, plainItems_iff]

theorem plain_of_getField {field : Json} (plain : (Json.obj fields).Plain)
    (found : getField fields name = some field) : field.Plain :=
  (plain_obj_iff.mp plain).2 _ (mem_of_getField found)

theorem plain_setField (name : String) (plain : (Json.obj fields).Plain)
    (valuePlain : value.Plain) : (Json.obj (setField fields name value)).Plain := by
  obtain ⟨distinct, fieldsPlain⟩ := plain_obj_iff.mp plain
  refine plain_obj_iff.mpr ⟨?_, fun entry member => ?_⟩
  · rw [fieldKeys_setField]
    split
    · exact distinct
    · rename_i fresh
      refine nodup_append.mpr ⟨distinct, by simp, ?_⟩
      rintro key member _ singleton rfl
      exact fresh (mem_singleton.mp singleton ▸ member)
  · induction fields with
    | nil =>
      rw [mem_singleton.mp member]
      exact valuePlain
    | cons head rest ih =>
      obtain ⟨key, field⟩ := head
      obtain ⟨fresh, restDistinct⟩ := nodup_cons.mp distinct
      have restPlain : ∀ entry ∈ rest, entry.2.Plain :=
        fun entry inRest => fieldsPlain entry (mem_cons_of_mem _ inRest)
      rw [setField] at member
      split at member
      · rcases mem_cons.mp member with rfl | inRest
        · exact valuePlain
        · exact restPlain entry inRest
      · rcases mem_cons.mp member with rfl | inRest
        · exact fieldsPlain _ mem_cons_self
        · exact ih (plain_obj_iff.mpr ⟨restDistinct, restPlain⟩) restDistinct restPlain inRest

/-- Removing a property keeps an object plain. -/
theorem plain_eraseField (name : String) (plain : (Json.obj fields).Plain) :
    (Json.obj (eraseField fields name)).Plain := by
  obtain ⟨distinct, fieldsPlain⟩ := plain_obj_iff.mp plain
  refine plain_obj_iff.mpr ⟨?_, fun entry member => ?_⟩
  · exact distinct.sublist (filter_sublist.map Prod.fst)
  · exact fieldsPlain entry (mem_of_mem_filter member)

mutual

/-- Structural JSON equality: value shape, not serialization order. -/
def jsonSameValue : Json → Json → Bool
  | .null, .null => true
  | .bool left, .bool right => left == right
  | .num left, .num right => left == right
  | .str left, .str right => left == right
  | .arr left, .arr right => left.length == right.length && sameItems left right
  | .obj left, .obj right => left.length == right.length && sameFields left right
  | _, _ => false

/-- `a.every((v, i) => jsonSameValue(v, b[i]))`. -/
def sameItems : List Json → List Json → Bool
  | [], _ => true
  | _ :: _, [] => false
  | item :: rest, other :: others => jsonSameValue item other && sameItems rest others

/-- `ak.every((k) => hasOwn(b, k) && jsonSameValue(a[k], b[k]))`. -/
def sameFields : List (String × Json) → List (String × Json) → Bool
  | [], _ => true
  | (key, field) :: rest, others =>
    (match getField others key with
      | some other => jsonSameValue field other
      | none => false) && sameFields rest others

end

/-- Two lists of distinct own properties denote one record exactly when they are
equally long and every property of the first is found, with its value, in the
second. -/
theorem fieldsValue_ext_iff {left right : List (String × Json)}
    (leftDistinct : (fieldKeys left).Nodup) (rightDistinct : (fieldKeys right).Nodup) :
    fieldsValue left = fieldsValue right ↔ left.length = right.length ∧
        ∀ key field, (key, field) ∈ left → fieldsValue right key = field.value := by
  have keyLength (fields : List (String × Json)) :
      (fieldKeys fields).length = fields.length := length_map _
  constructor
  · intro equal
    have owned (name : String) : name ∈ fieldKeys left ↔ name ∈ fieldKeys right := by
      rw [← not_iff_not, ← getField_eq_none_iff, ← getField_eq_none_iff,
        ← optionValue_eq_undefined, ← optionValue_eq_undefined, ← fieldsValue_eq,
        ← fieldsValue_eq, equal]
    have permuted : (fieldKeys left).Perm (fieldKeys right) :=
      (perm_ext_iff_of_nodup leftDistinct rightDistinct).mpr owned
    refine ⟨by rw [← keyLength, ← keyLength, permuted.length_eq], ?_⟩
    intro key field member
    rw [← equal, fieldsValue_eq, getField_of_mem leftDistinct member, optionValue_some]
  · rintro ⟨sameLength, found⟩
    have below : ∀ name ∈ fieldKeys left, name ∈ fieldKeys right := by
      intro name member
      obtain ⟨⟨key, field⟩, inLeft, rfl⟩ := mem_map.mp member
      by_contra missing
      have absent := fieldsValue_eq right key
      rw [getField_eq_none_iff.mpr missing, found key field inLeft] at absent
      exact value_ne_undefined field absent
    have permuted : (fieldKeys left).Perm (fieldKeys right) :=
      (subperm_of_subset leftDistinct below).perm_of_length_le
        (by simp only [keyLength, sameLength, Nat.le_refl])
    funext name
    cases inLeft : getField left name with
    | some field =>
      rw [fieldsValue_eq, inLeft, found name field (mem_of_getField inLeft), optionValue_some]
    | none =>
      have inRight : getField right name = none := by
        rw [getField_eq_none_iff, ← permuted.mem_iff, ← getField_eq_none_iff]
        exact inLeft
      rw [fieldsValue_eq, fieldsValue_eq, inLeft, inRight]

mutual

/-- On plain values `jsonSameValue` decides equality of what they denote. -/
theorem jsonSameValue_iff : ∀ (left right : Json), left.Plain → right.Plain →
    (jsonSameValue left right = true ↔ left.value = right.value)
  | .null, right, _, _ => by cases right <;> simp [jsonSameValue, Json.value]
  | .bool _, right, _, _ => by cases right <;> simp [jsonSameValue, Json.value]
  | .num _, right, _, _ | .str _, right, _, _ => by cases right <;> simp [jsonSameValue, Json.value]
  | .arr left, right, leftPlain, rightPlain => by
    cases right with
    | arr right =>
      have items := sameItems_iff left right (plain_arr_iff.mp leftPlain)
        (plain_arr_iff.mp rightPlain)
      simpa [jsonSameValue] using items
    | _ => simp [jsonSameValue, Json.value]
  | .obj left, right, leftPlain, rightPlain => by
    cases right with
    | obj right =>
      obtain ⟨leftDistinct, leftFields⟩ := plain_obj_iff.mp leftPlain
      obtain ⟨rightDistinct, rightFields⟩ := plain_obj_iff.mp rightPlain
      rw [value_obj, value_obj, Value.obj.injEq, fieldsValue_ext_iff leftDistinct rightDistinct,
        ← sameFields_iff left right leftFields rightFields]
      simp [jsonSameValue]
    | _ => simp [jsonSameValue, Json.value]

/-- Equally long arrays have the same elements. -/
theorem sameItems_iff : ∀ (left right : List Json), (∀ item ∈ left, item.Plain) →
    (∀ item ∈ right, item.Plain) → (left.length = right.length ∧ sameItems left right = true ↔
      left.map Json.value = right.map Json.value)
  | [], right, _, _ => by cases right <;> simp [sameItems]
  | item :: rest, [], _, _ => by simp
  | item :: rest, other :: others, leftPlain, rightPlain => by
    have head := jsonSameValue_iff item other (leftPlain _ mem_cons_self)
      (rightPlain _ mem_cons_self)
    have tail := sameItems_iff rest others
      (fun item member => leftPlain item (mem_cons_of_mem _ member))
      (fun item member => rightPlain item (mem_cons_of_mem _ member))
    simp only [length_cons, Nat.add_right_cancel_iff, sameItems, Bool.and_eq_true,
      head, map_cons, List.cons.injEq, ← tail]
    tauto

/-- Every property of the first object is found in the second. -/
theorem sameFields_iff : ∀ (left right : List (String × Json)),
    (∀ entry ∈ left, entry.2.Plain) → (∀ entry ∈ right, entry.2.Plain) →
    (sameFields left right = true ↔
      ∀ key field, (key, field) ∈ left → fieldsValue right key = field.value)
  | [], right, _, _ => by simp [sameFields]
  | (key, field) :: rest, right, leftPlain, rightPlain => by
    have tail := sameFields_iff rest right
      (fun entry member => leftPlain entry (mem_cons_of_mem _ member)) rightPlain
    have fieldPlain : field.Plain := leftPlain _ mem_cons_self
    have head : (match getField right key with
        | some other => jsonSameValue field other
        | none => false) = true ↔ fieldsValue right key = field.value := by
      rw [fieldsValue_eq]
      cases found : getField right key with
      | none => simpa using fun equal => value_ne_undefined field equal.symm
      | some other =>
        have otherPlain : other.Plain := rightPlain _ (mem_of_getField found)
        exact (jsonSameValue_iff field other fieldPlain otherPlain).trans eq_comm
    simp only [sameFields, Bool.and_eq_true, head, tail, mem_cons, Prod.mk.injEq]
    constructor
    · rintro ⟨first, later⟩ name value (⟨rfl, rfl⟩ | member)
      · exact first
      · exact later name value member
    · intro every
      exact ⟨every key field (.inl ⟨rfl, rfl⟩), fun name value member =>
        every name value (.inr member)⟩

end

theorem jsonSameValue_refl {json : Json} (plain : json.Plain) : jsonSameValue json json = true :=
  (jsonSameValue_iff json json plain plain).mpr rfl

example : jsonSameValue (.obj [("a", .num 1), ("b", .null)]) (.obj [("b", .null), ("a", .num 1)])
    = true := by
  decide

end Dinkster.Format
