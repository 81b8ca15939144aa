import Dinkster.Format.OwnJson

/-!
# Serializable document patches

Every document mutation is a list of patch operations.  `remove` and `replace`
carry the value they displace, so an operation can be inverted without the
document.  `applyAt` is the single place where an operation meets a document; it
performs the `Value` edit of the operation wherever no segment is `__proto__`.
-/

namespace Dinkster.Commands

open Library Format List

/-- A path into a document: keys into objects, positions into arrays. -/
abbrev DocPath := List Segment

inductive PatchOp where
  | add (path : DocPath) (value : Json)
  | remove (path : DocPath) (oldValue : Json)
  | replace (path : DocPath) (value oldValue : Json)
  deriving DecidableEq

namespace PatchOp

/-- The path an operation addresses. -/
def path : PatchOp → DocPath
  | .add path _ => path
  | .remove path _ => path
  | .replace path _ _ => path

/-- The discriminator of an operation. -/
def kind : PatchOp → String
  | .add .. => "add"
  | .remove .. => "remove"
  | .replace .. => "replace"

/-- What an operation does at its path. -/
def edit : PatchOp → Value.Edit
  | .add _ value => .insert value.value
  | .remove _ _ => .delete
  | .replace _ value _ => .replace value.value

def Plain : PatchOp → Prop
  | .add _ value => value.Plain
  | .remove _ oldValue => oldValue.Plain
  | .replace _ value oldValue => value.Plain ∧ oldValue.Plain

end PatchOp

/-- A number as it is printed in a path; a fraction is printed as a quotient. -/
def numberText (number : Rat) : String :=
  if number.den = 1 then toString number.num else s!"{number.num}/{number.den}"

def formatPath (path : DocPath) : String :=
  "$" ++ String.join (path.map fun segment =>
    match segment with
    | .index position => s!"[{numberText position}]"
    | .key name => s!".{name}")

/-- `PatchError`: an operation that does not fit its document, or, without an
operation, a foreign batch that failed ingress. -/
structure PatchError where
  patchOp : Option PatchOp
  reason : String

/-- The message of a `PatchError`. -/
def PatchError.message (error : PatchError) : String :=
  match error.patchOp with
  | none => s!"foreign patch rejected: {error.reason}"
  | some op => s!"patch {op.kind} at {formatPath op.path}: {error.reason}"

def ownChild : Json → Segment → Option Json
  | .arr items, .index position =>
    match slot? position with
    | some slot => items[slot]?
    | none => none
  | .obj fields, .key name => getField fields name
  | _, _ => none

/-- `getAtPath`: the value at a path, if the path resolves. -/
def getAtPath : Json → DocPath → Option Json
  | node, [] => some node
  | node, segment :: rest =>
    match ownChild node segment with
    | some child => getAtPath child rest
    | none => none

theorem ownChild_value (node : Json) (segment : Segment) :
    optionValue (ownChild node segment) = node.value.child segment := by
  cases node with
  | arr items =>
    cases segment with
    | key name => rfl
    | index position =>
      cases found : slot? position with
      | none => simp [ownChild, Value.child, found]
      | some slot =>
        by_cases inside : slot < items.length
        all_goals simp [ownChild, Value.child, found, inside]
  | obj fields =>
    cases segment with
    | key name => simp [ownChild, fieldsValue_eq]
    | index position => rfl
  | null | bool _ | num _ | str _ => cases segment <;> rfl

theorem getAtPath_value (node : Json) (path : DocPath) :
    optionValue (getAtPath node path) = node.value.read path := by
  induction path generalizing node with
  | nil => rfl
  | cons segment rest ih =>
    rw [Value.read_cons, ← ownChild_value, getAtPath]
    cases ownChild node segment with
    | none => simp
    | some child => exact ih child

/-- Two documents in which a path reads differently have different values. -/
theorem value_ne_of_getAtPath {left right : Json} (path : DocPath)
    (apart : optionValue (getAtPath left path) ≠ optionValue (getAtPath right path)) :
    left.value ≠ right.value := by
  intro equal
  apply apart
  rw [getAtPath_value, getAtPath_value, equal]

variable {node next : Json} {path : DocPath} {op : PatchOp}

theorem plain_of_ownChild {child : Json} {segment : Segment} (plain : node.Plain)
    (found : ownChild node segment = some child) : child.Plain := by
  cases node with
  | arr items =>
    cases segment with
    | key name => simp [ownChild] at found
    | index position =>
      simp only [ownChild] at found
      split at found
      · exact plain_arr_iff.mp plain child (mem_of_getElem? found)
      · simp at found
  | obj fields =>
    cases segment with
    | key name => exact plain_of_getField plain found
    | index position => simp [ownChild] at found
  | null | bool _ | num _ | str _ => simp [ownChild] at found

theorem plain_of_getAtPath {found : Json} (plain : node.Plain)
    (resolved : getAtPath node path = some found) : found.Plain := by
  induction path generalizing node with
  | nil => exact Option.some.inj resolved ▸ plain
  | cons segment rest ih =>
    rw [getAtPath] at resolved
    split at resolved
    · exact ih (plain_of_ownChild plain ‹_›) resolved
    · simp at resolved

/-- Apply an operation to the element of an array it targets. -/
def applyItem (op : PatchOp) (items : List Json) (position : Rat) (slot : Nat) :
    Except PatchError Json :=
  match op with
  | .add _ value =>
    if slot > items.length then
      .error ⟨op, s!"insert index {numberText position} out of bounds"⟩
    else
      .ok (.arr (items.insertIdx slot value))
  | .remove _ _ =>
    if slot ≥ items.length then
      .error ⟨op, s!"remove index {numberText position} out of bounds"⟩
    else
      .ok (.arr (items.eraseIdx slot))
  | .replace _ value _ =>
    if slot ≥ items.length then
      .error ⟨op, s!"replace index {numberText position} out of bounds"⟩
    else
      .ok (.arr (items.set slot value))

/-- Apply an operation to the property of an object it targets. -/
def applyField (op : PatchOp) (fields : List (String × Json)) (name : String) :
    Except PatchError Json :=
  match op with
  | .add _ value =>
    if (getField fields name).isSome then
      .error ⟨op, s!"key '{name}' already exists"⟩
    else
      .ok (.obj (setField fields name value))
  | .remove _ _ =>
    if (getField fields name).isNone then
      .error ⟨op, s!"key '{name}' not found"⟩
    else
      .ok (.obj (eraseField fields name))
  | .replace _ value _ =>
    if (getField fields name).isNone then
      .error ⟨op, s!"key '{name}' not found"⟩
    else
      .ok (.obj (setField fields name value))

/-- `applyAt`: apply an operation below a node, copying the containers on its
path. -/
def applyAt (op : PatchOp) : Json → DocPath → Except PatchError Json
  | _, [] =>
    match op with
    | .replace _ value _ => .ok value
    | _ => .error ⟨op, s!"{op.kind} cannot target the root"⟩
  | .arr items, .index position :: rest =>
    match slot? position with
    | none =>
      .error ⟨op, s!"index {numberText position} is not a safe non-negative integer"⟩
    | some slot =>
      if rest = [] then
        applyItem op items position slot
      else
        match items[slot]? with
        | none => .error ⟨op, s!"index {numberText position} out of bounds"⟩
        | some child => do return .arr (items.set slot (← applyAt op child rest))
  | .obj fields, .key name :: rest =>
    if name = "__proto__" then
      .error ⟨op, "forbidden segment '__proto__'"⟩
    else if rest = [] then
      applyField op fields name
    else
      match getField fields name with
      | none => .error ⟨op, s!"key '{name}' not found"⟩
      | some child => do return .obj (setField fields name (← applyAt op child rest))
  | _, .index position :: _ =>
    .error ⟨op, s!"expected an array at segment {numberText position}"⟩
  | _, .key name :: _ => .error ⟨op, s!"expected an object at segment '{name}'"⟩

variable (root : Json)

def applyOp (op : PatchOp) : Except PatchError Json :=
  applyAt op root op.path

/-- `applyOwnedOps`: apply owned operations in order. -/
def applyOwnedOps : Json → List PatchOp → Except PatchError Json
  | root, [] => .ok root
  | root, op :: rest => do applyOwnedOps (← applyOp root op) rest

theorem applyOwnedOps_append {root middle : Json} {front : List PatchOp} (back : List PatchOp)
    (reached : applyOwnedOps root front = .ok middle) :
    applyOwnedOps root (front ++ back) = applyOwnedOps middle back := by
  induction front generalizing root with
  | nil =>
    cases reached
    rfl
  | cons op front ih =>
    rw [cons_append, applyOwnedOps]
    rw [applyOwnedOps] at reached
    cases first : applyOp root op with
    | error reason => simp [first, bind, Except.bind] at reached
    | ok next =>
      simp only [first, bind, Except.bind] at reached ⊢
      exact ih reached

theorem applyOwnedOps_singleton (op : PatchOp) : applyOwnedOps root [op] = applyOp root op := by
  rw [applyOwnedOps]
  cases applyOp root op <;> rfl

def invertOp : PatchOp → PatchOp
  | .add path value => .remove path value
  | .remove path oldValue => .add path oldValue
  | .replace path value oldValue => .replace path oldValue value

/-- `invertOps`: reversed order, each operation inverted. -/
def invertOps (ops : List PatchOp) : List PatchOp :=
  (ops.map invertOp).reverse

@[simp] theorem invertOp_path (op : PatchOp) : (invertOp op).path = op.path := by
  cases op <;> rfl

/-! ## Application is an edit of the value -/

/-- No segment of a path is `__proto__`. -/
def Permitted (path : DocPath) : Prop :=
  .key "__proto__" ∉ path

instance (path : DocPath) : Decidable (Permitted path) :=
  inferInstanceAs (Decidable (.key "__proto__" ∉ path))

/-- What an operation makes of a document's value. -/
def PatchOp.apply (op : PatchOp) (node : Value) : Option Value :=
  if Permitted op.path then node.edit op.path op.edit else none

/-- What a list of operations makes of a document's value. -/
def applyAll : Value → List PatchOp → Option Value
  | node, [] => some node
  | node, op :: rest => (op.apply node).bind fun next => applyAll next rest

variable {position : Rat} {ops : List PatchOp}

theorem applyItem_value (op : PatchOp) (items : List Json) {slot : Nat}
    (addressed : slot? position = some slot) :
    (applyItem op items position slot).toOption.map Json.value =
      (Json.arr items).value.editChild (.index position) op.edit := by
  cases op with
  | add path value =>
    by_cases inside : slot ≤ items.length
    · simp [applyItem, PatchOp.edit, Value.editChild, addressed, inside,
        Nat.not_lt.mpr inside, Except.toOption, map_insertIdx]
    · simp [applyItem, PatchOp.edit, Value.editChild, addressed, inside,
        Nat.lt_of_not_le inside, Except.toOption]
  | remove path oldValue =>
    by_cases inside : slot < items.length
    · simp [applyItem, PatchOp.edit, Value.editChild, addressed, inside,
        Nat.not_le.mpr inside, Except.toOption, eraseIdx_map]
    · simp [applyItem, PatchOp.edit, Value.editChild, addressed, inside,
        Nat.le_of_not_lt inside, Except.toOption]
  | replace path value oldValue =>
    by_cases inside : slot < items.length
    · simp [applyItem, PatchOp.edit, Value.editChild, addressed, inside,
        Nat.not_le.mpr inside, Except.toOption, map_set]
    · simp [applyItem, PatchOp.edit, Value.editChild, addressed, inside,
        Nat.le_of_not_lt inside, Except.toOption]

theorem applyField_value (op : PatchOp) (fields : List (String × Json)) (name : String) :
    (applyField op fields name).toOption.map Json.value =
      (Json.obj fields).value.editChild (.key name) op.edit := by
  cases op <;> cases found : getField fields name <;>
    simp [applyField, PatchOp.edit, Value.editChild, fieldsValue_eq, found, Except.toOption]

@[simp] theorem permitted_nil : Permitted [] := not_mem_nil

@[simp] theorem permitted_index {rest : DocPath} :
    Permitted (.index position :: rest) ↔ Permitted rest := by
  simp [Permitted]

@[simp] theorem permitted_key {name : String} {rest : DocPath} :
    Permitted (.key name :: rest) ↔ name ≠ "__proto__" ∧ Permitted rest := by
  simp [Permitted, eq_comm]

/-- A computation that copies its result into a container. -/
theorem toOption_copy {Error : Type} (copied : Except Error Json) (wrap : Json → Json)
    (place : Value → Value) (faithful : ∀ next, (wrap next).value = place next.value) :
    (do return wrap (← copied)).toOption.map Json.value =
      (copied.toOption.map Json.value).map place := by
  cases copied with
  | error reason => rfl
  | ok next => simp [bind, Except.bind, pure, Except.pure, Except.toOption, faithful]

theorem applyAt_value (op : PatchOp) (node : Json) (path : DocPath) :
    (applyAt op node path).toOption.map Json.value =
      if Permitted path then node.value.edit path op.edit else none := by
  induction path generalizing node with
  | nil =>
    rw [if_pos permitted_nil]
    cases op <;> rfl
  | cons segment rest ih =>
    cases node with
    | arr items =>
      cases segment with
      | key name =>
        have misfit : (Json.arr items).value.edit (.key name :: rest) op.edit = none := by
          cases rest <;> simp [Value.edit, Value.editChild, Value.child]
        rw [misfit, ite_self]
        rfl
      | index position =>
        simp only [applyAt]
        cases addressed : slot? position with
        | none =>
          have misfit : (Json.arr items).value.edit (.index position :: rest) op.edit = none := by
            cases rest <;> simp [Value.edit, Value.editChild, Value.child, addressed]
          rw [misfit, ite_self]
          rfl
        | some slot =>
          cases rest with
          | nil =>
            rw [if_pos (permitted_index.mpr permitted_nil)]
            exact applyItem_value op items addressed
          | cons next rest =>
            have child := ownChild_value (.arr items) (.index position)
            simp only [ownChild, addressed] at child
            simp only [permitted_index, Value.edit_cons_cons, ← child]
            cases found : items[slot]? with
            | none => simp [Except.toOption]
            | some item =>
              simp only [reduceCtorEq, if_false]
              rw [toOption_copy _ (fun next => .arr (items.set slot next))
                ((Json.arr items).value.setChild (.index position)) (fun next => by
                  simp [Value.setChild, addressed, map_set]), ih]
              split <;> rfl
    | obj fields =>
      cases segment with
      | index position =>
        have misfit : (Json.obj fields).value.edit (.index position :: rest) op.edit = none := by
          cases rest <;> simp [Value.edit, Value.editChild, Value.child]
        rw [misfit, ite_self]
        rfl
      | key name =>
        simp only [applyAt]
        by_cases forbidden : name = "__proto__"
        · simp [forbidden, Except.toOption]
        · simp only [permitted_key, ne_eq, forbidden, not_false_eq_true, true_and, if_false]
          cases rest with
          | nil =>
            rw [if_pos permitted_nil]
            exact applyField_value op fields name
          | cons next rest =>
            have child := ownChild_value (.obj fields) (.key name)
            simp only [ownChild] at child
            simp only [Value.edit_cons_cons, ← child]
            cases found : getField fields name with
            | none => simp [Except.toOption]
            | some field =>
              simp only [reduceCtorEq, if_false]
              rw [toOption_copy _ (fun next => .obj (setField fields name next))
                ((Json.obj fields).value.setChild (.key name)) (fun next => by simp), ih]
              split <;> rfl
    | null | bool _ | num _ | str _ =>
      have misfit (leaf : Value) (scalar : ∀ segment change, leaf.editChild segment change = none)
          (childless : leaf.child segment = .undefined) :
          leaf.edit (segment :: rest) op.edit = none := by
        cases rest with
        | nil => exact scalar segment op.edit
        | cons next rest => simp [Value.edit, childless]
      rw [misfit _ (fun segment change => by cases segment <;> rfl)
        (by cases segment <;> rfl), ite_self]
      cases segment <;> rfl

/-- Applying an operation to a document applies it to the value. -/
theorem applyOp_value (op : PatchOp) :
    (applyOp root op).toOption.map Json.value = op.apply root.value :=
  applyAt_value op root op.path

/-- Applying operations in order applies them to the value in order. -/
theorem applyOwnedOps_value (ops : List PatchOp) :
    (applyOwnedOps root ops).toOption.map Json.value = applyAll root.value ops := by
  induction ops generalizing root with
  | nil => rfl
  | cons op rest ih =>
    rw [applyAll, ← applyOp_value, applyOwnedOps]
    cases applyOp root op with
    | error reason => rfl
    | ok next => exact ih next

/-- An operation applies below a node: it replaces the root, edits the container at the end
of its path, or applies inside the child that its path goes through. -/
inductive Applies (op : PatchOp) : Json → DocPath → Json → Prop where
  | root {node value oldValue : Json} {path : DocPath}
      (replaces : op = .replace path value oldValue) : Applies op node [] value
  | item {items : List Json} {position : Rat} {slot : Nat} {next : Json}
      (addressed : slot? position = some slot)
      (applied : applyItem op items position slot = .ok next) :
      Applies op (.arr items) [.index position] next
  | inItem {items : List Json} {position : Rat} {slot : Nat} {child copy : Json}
      {segment : Segment} {rest : DocPath} (addressed : slot? position = some slot)
      (found : items[slot]? = some child) (inner : Applies op child (segment :: rest) copy) :
      Applies op (.arr items) (.index position :: segment :: rest) (.arr (items.set slot copy))
  | field {fields : List (String × Json)} {name : String} {next : Json}
      (permitted : name ≠ "__proto__") (applied : applyField op fields name = .ok next) :
      Applies op (.obj fields) [.key name] next
  | inField {fields : List (String × Json)} {name : String} {child copy : Json}
      {segment : Segment} {rest : DocPath} (permitted : name ≠ "__proto__")
      (found : getField fields name = some child)
      (inner : Applies op child (segment :: rest) copy) :
      Applies op (.obj fields) (.key name :: segment :: rest) (.obj (setField fields name copy))

theorem applies_of_applyAt (applied : applyAt op node path = .ok next) :
    Applies op node path next := by
  induction path generalizing node next with
  | nil =>
    cases op with
    | replace path value oldValue => exact Except.ok.inj applied ▸ .root rfl
    | add path value | remove path oldValue => simp [applyAt] at applied
  | cons segment rest ih =>
    cases node with
    | arr items =>
      cases segment with
      | key name => simp [applyAt] at applied
      | index position =>
        simp only [applyAt] at applied
        cases addressed : slot? position with
        | none => simp [addressed] at applied
        | some slot =>
          simp only [addressed] at applied
          cases rest with
          | nil => exact .item addressed applied
          | cons following rest =>
            cases found : items[slot]? with
            | none => simp [found] at applied
            | some item =>
              simp only [found, reduceCtorEq, if_false, bind_eq_ok, pure_eq_ok]
                at applied
              obtain ⟨copy, inner, rfl⟩ := applied
              exact .inItem addressed found (ih inner)
    | obj fields =>
      cases segment with
      | index position => simp [applyAt] at applied
      | key name =>
        simp only [applyAt] at applied
        split at applied
        · simp at applied
        rename_i permitted
        cases rest with
        | nil => exact .field permitted applied
        | cons following rest =>
          cases found : getField fields name with
          | none => simp [found] at applied
          | some field =>
            simp only [found, reduceCtorEq, if_false, bind_eq_ok, pure_eq_ok]
              at applied
            obtain ⟨copy, inner, rfl⟩ := applied
            exact .inField permitted found (ih inner)
    | null | bool _ | num _ | str _ => cases segment <;> simp [applyAt] at applied

theorem applyAt_of_applies (applies : Applies op node path next) :
    applyAt op node path = .ok next := by
  induction applies with
  | root replaces =>
    subst replaces
    rfl
  | item addressed applied => simpa [applyAt, addressed] using applied
  | inItem addressed found _ ih =>
    simp [applyAt, addressed, found, ih, bind, Except.bind, pure, Except.pure]
  | field permitted applied => simpa [applyAt, permitted] using applied
  | inField permitted found _ ih =>
    simp [applyAt, permitted, found, ih, bind, Except.bind, pure, Except.pure]

theorem plain_applyItem {items : List Json} {slot : Nat} (plain : ∀ item ∈ items, item.Plain)
    (opPlain : op.Plain) (applied : applyItem op items position slot = .ok next) : next.Plain := by
  cases op with
  | add path value =>
    simp only [applyItem] at applied
    split at applied
    · simp at applied
    · cases applied
      refine plain_arr_iff.mpr fun item member => ?_
      rcases eq_or_mem_of_mem_insertIdx member with rfl | inside
      · exact opPlain
      · exact plain item inside
  | remove path oldValue =>
    simp only [applyItem] at applied
    split at applied
    · simp at applied
    · cases applied
      exact plain_arr_iff.mpr fun item member =>
        plain item (mem_of_mem_eraseIdx member)
  | replace path value oldValue =>
    simp only [applyItem] at applied
    split at applied
    · simp at applied
    · cases applied
      refine plain_arr_iff.mpr fun item member => ?_
      rcases mem_or_eq_of_mem_set member with inside | rfl
      · exact plain item inside
      · exact opPlain.1

theorem plain_applyField {fields : List (String × Json)} {name : String}
    (plain : (Json.obj fields).Plain) (opPlain : op.Plain)
    (applied : applyField op fields name = .ok next) : next.Plain := by
  cases op with
  | add path value =>
    simp only [applyField] at applied
    split at applied
    · simp at applied
    · exact Except.ok.inj applied ▸ plain_setField name plain opPlain
  | remove path oldValue =>
    simp only [applyField] at applied
    split at applied
    · simp at applied
    · exact Except.ok.inj applied ▸ plain_eraseField name plain
  | replace path value oldValue =>
    simp only [applyField] at applied
    split at applied
    · simp at applied
    · exact Except.ok.inj applied ▸ plain_setField name plain opPlain.1

theorem plain_applyAt (plain : node.Plain) (opPlain : op.Plain)
    (applied : applyAt op node path = .ok next) : next.Plain := by
  have applies := applies_of_applyAt applied
  clear applied
  induction applies with
  | root replaces =>
    subst replaces
    exact opPlain.1
  | item _ applied => exact plain_applyItem (plain_arr_iff.mp plain) opPlain applied
  | inItem _ found _ ih =>
    have items := plain_arr_iff.mp plain
    refine plain_arr_iff.mpr fun other member => ?_
    rcases mem_or_eq_of_mem_set member with inside | rfl
    · exact items other inside
    · exact ih (items _ (mem_of_getElem? found))
  | field _ applied => exact plain_applyField plain opPlain applied
  | inField _ found _ ih => exact plain_setField _ plain (ih (plain_of_getField plain found))

theorem plain_applyOwnedOps {root final : Json} (plain : root.Plain)
    (opsPlain : ∀ op ∈ ops, op.Plain) (applied : applyOwnedOps root ops = .ok final) :
    final.Plain := by
  induction ops generalizing root with
  | nil => exact Except.ok.inj applied ▸ plain
  | cons op rest ih =>
    rw [applyOwnedOps] at applied
    cases first : applyOp root op with
    | error reason => simp [first, bind, Except.bind] at applied
    | ok next =>
      simp only [first, bind, Except.bind] at applied
      exact ih (plain_applyAt plain (opsPlain op mem_cons_self) first)
        (fun other member => opsPlain other (mem_cons_of_mem _ member)) applied

theorem plain_invertOps (plain : ∀ op ∈ ops, op.Plain) : ∀ op ∈ invertOps ops, op.Plain := by
  intro op member
  obtain ⟨original, inside, rfl⟩ := mem_map.mp (mem_reverse.mp member)
  have originalPlain := plain original inside
  cases original with
  | add path value | remove path oldValue => exact originalPlain
  | replace path value oldValue => exact ⟨originalPlain.2, originalPlain.1⟩

end Dinkster.Commands
