import Mathlib

/-!
# Extensional value trees

A value tree is what a structured text denotes once the order of object members
is forgotten.  Arrays are lists; an object is a total function from keys whose
result is `undefined` at every key the object does not own.  Two objects are
equal exactly when they agree at every key, so value equality is equality.

Trees are addressed by paths of object keys and array positions.  `Value.read`
reads a path, `Value.write` writes one, and `Value.edit` performs the three
partial edits `insert`, `delete` and `replace`.  Every edit is a write at the
container it changes, so the laws of `write` describe all of them.
-/

namespace Dinkster.Library

open List Option

/-- A value tree.  `undefined` is the absence of a value, never a stored one. -/
inductive Value where
  | undefined
  | null
  | bool (value : Bool)
  | num (value : Rat)
  | str (value : String)
  | arr (items : List Value)
  | obj (fields : String → Value)

/-- One step into a tree. -/
inductive Segment where
  | key (name : String)
  | index (position : Rat)
  deriving DecidableEq, Repr

/-- The array slot a position addresses: only non-negative integers below
`2 ^ 53` address anything. -/
def slot? (position : Rat) : Option Nat :=
  if position.den = 1 ∧ 0 ≤ position.num ∧ position.num ≤ 9007199254740991 then
    some position.num.toNat
  else
    none

namespace Value

def isUndefined : Value → Bool
  | undefined => true
  | _ => false

@[simp] theorem isUndefined_iff {value : Value} : value.isUndefined = true ↔ value = undefined := by
  cases value <;> simp [isUndefined]

/-- The child one step below a value, `undefined` when the step does not fit. -/
def child : Value → Segment → Value
  | obj fields, .key name => fields name
  | arr items, .index position =>
    match slot? position with
    | some slot => items.getD slot undefined
    | none => undefined
  | _, _ => undefined

/-- Replace the child one step below a value.  A step that does not fit leaves
the value as it is. -/
def setChild : Value → Segment → Value → Value
  | obj fields, .key name, value => obj (Function.update fields name value)
  | arr items, .index position, value =>
    match slot? position with
    | some slot => arr (items.set slot value)
    | none => arr items
  | node, _, _ => node

def read : Value → List Segment → Value
  | node, [] => node
  | node, segment :: rest => (node.child segment).read rest

def write : Value → List Segment → Value → Value
  | _, [], value => value
  | node, segment :: rest, value =>
    node.setChild segment ((node.child segment).write rest value)

@[simp] theorem read_nil (node : Value) : node.read [] = node := rfl

@[simp] theorem read_cons (node : Value) (segment : Segment) (rest : List Segment) :
    node.read (segment :: rest) = (node.child segment).read rest := rfl

@[simp] theorem child_undefined (segment : Segment) : undefined.child segment = undefined := by
  cases segment <;> rfl

variable (fields : String → Value)

@[simp] theorem child_obj_key (name : String) : (obj fields).child (.key name) = fields name := rfl

@[simp] theorem setChild_obj_key (name : String) (value : Value) :
    (obj fields).setChild (.key name) value = obj (Function.update fields name value) := rfl

@[simp] theorem read_undefined (path : List Segment) : undefined.read path = undefined := by
  induction path with
  | nil => rfl
  | cons segment rest ih => rw [read_cons, child_undefined, ih]

/-- A partial edit of one slot of a container. -/
inductive Edit where
  | insert (value : Value)
  | delete
  | replace (value : Value)

def editChild : Value → Segment → Edit → Option Value
  | obj fields, .key name, .insert value =>
    if (fields name).isUndefined then
      some (obj (Function.update fields name value))
    else
      none
  | obj fields, .key name, .delete =>
    if (fields name).isUndefined then
      none
    else
      some (obj (Function.update fields name undefined))
  | obj fields, .key name, .replace value =>
    if (fields name).isUndefined then
      none
    else
      some (obj (Function.update fields name value))
  | arr items, .index position, change =>
    match slot? position with
    | none => none
    | some slot =>
      match change with
      | .insert value =>
        if slot ≤ items.length then some (arr (items.insertIdx slot value)) else none
      | .delete => if slot < items.length then some (arr (items.eraseIdx slot)) else none
      | .replace value =>
        if slot < items.length then some (arr (items.set slot value)) else none
  | _, _, _ => none

/-- Edit the slot at the end of a path; only a replacement fits the root. -/
def edit : Value → List Segment → Edit → Option Value
  | _, [], .replace value => some value
  | _, [], _ => none
  | node, [segment], change => node.editChild segment change
  | node, segment :: next :: rest, change =>
    if (node.child segment).isUndefined then
      none
    else
      ((node.child segment).edit (next :: rest) change).map (node.setChild segment)

@[simp] theorem editChild_undefined (segment : Segment) (change : Edit) :
    undefined.editChild segment change = none := by
  cases segment <;> rfl

@[simp] theorem edit_undefined (segment : Segment) (rest : List Segment) (change : Edit) :
    undefined.edit (segment :: rest) change = none := by
  cases rest with
  | nil => exact editChild_undefined segment change
  | cons next rest => simp [edit]

theorem edit_cons_cons (node : Value) (segment next : Segment) (rest : List Segment)
    (change : Edit) : node.edit (segment :: next :: rest) change =
      ((node.child segment).edit (next :: rest) change).map (node.setChild segment) := by
  rw [edit]
  split
  · rename_i absent
    rw [isUndefined_iff.mp absent, edit_undefined]
    rfl
  · rfl

variable {change : Edit} {next node : Value} {path : List Segment} {segment : Segment}

theorem slot?_isSome_of_edit {position : Rat} (edited : node.edit path change = some next)
    (member : .index position ∈ path) : (slot? position).isSome := by
  -- Without a slot the position has no child and takes no edit.
  have unslotted (missing : slot? position = none) (node : Value) (rest : List Segment) :
      node.edit (.index position :: rest) change = none := by
    cases rest with
    | nil => cases node <;> simp [edit, editChild, missing]
    | cons next rest =>
      have childless : node.child (.index position) = undefined := by
        cases node <;> simp [child, missing]
      simp [edit, childless]
  induction path generalizing node next with
  | nil => simp at member
  | cons segment rest ih =>
    rcases mem_cons.mp member with rfl | later
    · cases found : slot? position with
      | none => simp [unslotted found] at edited
      | some slot => rfl
    · cases rest with
      | nil => simp at later
      | cons following rest =>
        rw [edit_cons_cons, map_eq_some_iff] at edited
        obtain ⟨below, inner, _⟩ := edited
        exact ih inner later

/-- The edit that undoes an edit of a slot which holds `displaced`. -/
def Edit.inverse : Edit → Value → Edit
  | .insert _, _ => .delete
  | .delete, displaced => .insert displaced
  | .replace _, displaced => .replace displaced

def Edit.Writes : Edit → Prop
  | .insert value | .replace value => value ≠ undefined
  | .delete => True

/-- A child that is there can be replaced, and put back. -/
theorem setChild_of_child_ne (present : node.child segment ≠ undefined) (value : Value) :
    (node.setChild segment value).child segment = value ∧
      (node.setChild segment value).setChild segment (node.child segment) = node := by
  cases node with
  | obj fields =>
    cases segment with
    | key name => simp
    | index position => exact absurd rfl present
  | arr items =>
    cases segment with
    | key name => exact absurd rfl present
    | index position =>
      cases found : slot? position with
      | none => simp [child, found] at present
      | some slot =>
        by_cases inside : slot < items.length
        · simp [child, setChild, found, inside]
        · simp [child, found, inside] at present
  | undefined | null | bool _ | num _ | str _ => cases segment <;> exact absurd rfl present

theorem editChild_inverse (writes : change.Writes)
    (edited : node.editChild segment change = some next) :
    next.editChild segment (change.inverse (node.child segment)) = some node := by
  cases node with
  | obj fields =>
    cases segment with
    | index position => cases change <;> cases edited
    | key name =>
      by_cases absent : fields name = undefined
      · cases change with
        | insert value =>
          have kept := Function.update_eq_self name fields
          rw [absent] at kept
          simp only [editChild, absent, isUndefined, if_true, some.injEq] at edited
          have stored : value ≠ undefined := writes
          simp [← edited, editChild, Edit.inverse, kept, stored]
        | delete | replace value => simp [editChild, absent] at edited
      · cases change with
        | insert value => simp [editChild, absent] at edited
        | delete =>
          simp only [editChild, isUndefined_iff, absent, if_false, some.injEq] at edited
          simp [← edited, editChild, Edit.inverse]
        | replace value =>
          have stored : value ≠ undefined := writes
          simp only [editChild, isUndefined_iff, absent, if_false, some.injEq] at edited
          simp [← edited, editChild, Edit.inverse, stored]
  | arr items =>
    cases segment with
    | key name => cases change <;> cases edited
    | index position =>
      cases found : slot? position with
      | none => simp [editChild, found] at edited
      | some slot =>
        cases change with
        | insert value =>
          simp only [editChild, found, ite_none_right_eq_some, some.injEq] at edited
          obtain ⟨inside, rfl⟩ := edited
          have longer : slot < (items.insertIdx slot value).length := by
            rw [length_insertIdx_of_le_length inside]
            omega
          simp [editChild, Edit.inverse, found, longer, eraseIdx_insertIdx_self]
        | delete =>
          simp only [editChild, found, ite_none_right_eq_some, some.injEq] at edited
          obtain ⟨inside, rfl⟩ := edited
          have shorter : slot ≤ (items.eraseIdx slot).length := by
            rw [length_eraseIdx_of_lt inside]
            omega
          simp [editChild, Edit.inverse, child, found, shorter, inside, insertIdx_eraseIdx_getElem]
        | replace value =>
          simp only [editChild, found, ite_none_right_eq_some, some.injEq] at edited
          obtain ⟨inside, rfl⟩ := edited
          simp [editChild, Edit.inverse, child, found, inside]
  | undefined | null | bool _ | num _ | str _ => cases segment <;> cases edited

/-- An edit is undone by its inverse, given what the end of its path held. -/
theorem edit_inverse (writes : change.Writes) (edited : node.edit path change = some next) :
    next.edit path (change.inverse (node.read path)) = some node := by
  induction path generalizing node next with
  | nil =>
    cases change with
    | insert value | delete => cases edited
    | replace value => rfl
  | cons segment rest ih =>
    cases rest with
    | nil => exact editChild_inverse writes edited
    | cons following rest =>
      rw [edit_cons_cons, map_eq_some_iff] at edited
      obtain ⟨below, inner, rfl⟩ := edited
      have present : node.child segment ≠ undefined := by
        intro absent
        rw [absent, edit_undefined] at inner
        cases inner
      obtain ⟨placed, back⟩ := setChild_of_child_ne present below
      rw [edit_cons_cons, placed, read_cons, ih inner, map_some, back]

end Value

end Dinkster.Library
