import Dinkster.Format.Json
import Dinkster.Library.Table
import Dinkster.Library.Utf16

/-!
# The tabs of a workspace

Several windows show one list of tabs.  A window sends what it wants changed as a mutation:
tabs to remove, titles to update, tabs to add, and the order it would like to see.  It may
know an older list than the one that is kept, so an order that names only some tabs, or tabs
that are gone, is no reason to lose any.
-/

namespace Dinkster.Workspace

open Library Format

/-- What is thrown: an error with a text of its own, or one of the language. -/
inductive Failure where
  | error (message : String)
  | typeError
  deriving DecidableEq

/-- A property of a value, missing unless the value is an object that has it. -/
def own (name : String) : Json → Option Json
  | .obj fields => getField fields name
  | _ => none

def readOwn (name : String) : Option Json → Except Failure (Option Json)
  | none | some .null => .error .typeError
  | some value => .ok (own name value)

/-- What a loop over a value runs through: the items of an array or the characters of a
text. -/
def itemsOf : Option Json → Except Failure (List Json)
  | some (.arr items) => .ok items
  | some (.str text) => .ok (text.toList.map fun char => .str char.toString)
  | _ => .error .typeError

/-- Whether a condition holds for a value. -/
def truthy : Json → Bool
  | .null => false
  | .bool value => value
  | .num value => value ≠ 0
  | .str text => text ≠ ""
  | .arr _ | .obj _ => true

/-- `Number.isSafeInteger`, with the integer. -/
def safeInteger? : Option Json → Option Int
  | some (.num number) =>
    if number.den = 1 ∧ -(2 ^ 53 - 1) ≤ number.num ∧ number.num ≤ 2 ^ 53 - 1 then
      some number.num
    else none
  | _ => none

/-- A safe integer that is not negative. -/
def safeNatural? (value : Option Json) : Option Nat :=
  (safeInteger? value).bind fun number => if 0 ≤ number then some number.toNat else none

def validId (text : String) : Bool :=
  0 < (textUnits text).length && (textUnits text).length ≤ 512

/-- `validId`, with the text. -/
def validId? : Option Json → Option String
  | some (.str text) => if validId text then some text else none
  | _ => none

/-- `WorkspaceTabRecord`.  An update may leave a kind that is not a text. -/
structure Tab (Document : Type) where
  id : String
  title : String
  document : Document
  editorKind : Option Json

section

variable {Document : Type} (load : Option Json → Option Document)
variable (lineage : Document → String)

/-- `decodeRecord`, less the check that the value is an object. -/
def decodeFields (value : Json) : Except Failure (Tab Document) :=
  match validId? (own "id" value), own "title" value with
  | some id, some (.str title) =>
    match load (own "document" value) with
    | some document =>
      if lineage document = id then
        .ok
          { id := id
            title := title
            document := document
            editorKind :=
              match own "editorKind" value with
              | some (.str kind) => if kind = "" then none else some (.str kind)
              | _ => none }
      else .error (.error "workspace tab document does not match its identity")
    | none => .error (.error "workspace tab document does not match its identity")
  | _, _ => .error (.error "invalid workspace tab identity")

def decodeRecord (value : Json) : Except Failure (Tab Document) :=
  match value with
  | .obj _ | .arr _ => decodeFields load lineage value
  | _ => .error (.error "invalid workspace tab")

/-- The loop of `decodeUnique`: the first record of an id is kept. -/
def decodeRest (records : List (Tab Document)) : List Json → Except Failure (List (Tab Document))
  | [] => .ok records
  | value :: rest =>
    match decodeRecord load lineage value with
    | .error failure => .error failure
    | .ok record =>
      if record.id ∈ records.map Tab.id then decodeRest records rest
      else decodeRest (records ++ [record]) rest

def decodeUnique (values : Option Json) : Except Failure (List (Tab Document)) :=
  match itemsOf values with
  | .error failure => .error failure
  | .ok values => decodeRest load lineage [] values

/-- `mutation.removals.filter(validId)`, which only an array has. -/
def removalsOf : Option Json → Except Failure (List String)
  | some (.arr items) => .ok (items.filterMap fun item => validId? (some item))
  | _ => .error .typeError

/-- The tabs by their ids, less those that are removed. -/
def keptById (removals : List String) (tabs : List (Tab Document)) : Table (Tab Document) :=
  (tabs.filter fun tab => tab.id ∉ removals).foldl (Table.keepLast Tab.id id) []

def updateTabs (byId : Table (Tab Document)) : List Json → Except Failure (Table (Tab Document))
  | [] => .ok byId
  | .null :: _ => .error .typeError
  | value :: rest =>
    match own "id" value, own "title" value with
    | some (.str id), some (.str title) =>
      match byId.get id with
      | some current =>
        let updated :=
          { current with
            title := title
            editorKind := (own "editorKind" value).filter truthy }
        updateTabs (byId.set id updated) rest
      | none => updateTabs byId rest
    | _, _ => updateTabs byId rest

/-- The loop over the additions: a tab that is there already stays as it is. -/
def addTabs (byId : Table (Tab Document)) : List Json → Except Failure (Table (Tab Document))
  | [] => .ok byId
  | value :: rest =>
    match decodeRecord load lineage value with
    | .error failure => .error failure
    | .ok record =>
      addTabs (if (byId.get record.id).isSome then byId else byId.set record.id record) rest

def orderedIds (byId : Table (Tab Document)) : List String → List Json → List String
  | desired, [] => desired
  | desired, value :: rest =>
    match validId? (some value) with
    | some id =>
      if id ∈ desired ∨ (byId.get id).isNone then orderedIds byId desired rest
      else orderedIds byId (desired ++ [id]) rest
    | none => orderedIds byId desired rest

variable (byId : Table (Tab Document))

def desiredIds (order : List Json) : List String :=
  let ordered := orderedIds byId [] order
  ordered ++ (byId.map Prod.fst).filter (· ∉ ordered)

def chooseActive (asked : Option Json) (before : String) (tabs : List (Tab Document)) : String :=
  let kept := if (byId.get before).isSome then before else (tabs.head?.map Tab.id).getD ""
  match asked with
  | some (.str id) => if (byId.get id).isSome then id else kept
  | _ => kept

/-- `applyMutation`: the tabs and the active one afterwards. -/
def applyMutation (tabs : List (Tab Document)) (active : String) (mutation : Json) :
    Except Failure (List (Tab Document) × String) := do
  let removals ← removalsOf (own "removals" mutation)
  let updated ← updateTabs (keptById removals tabs) (← itemsOf (own "updates" mutation))
  let byId ← addTabs load lineage updated (← itemsOf (own "additions" mutation))
  let desired := desiredIds byId (← itemsOf (own "order" mutation))
  let tabs := desired.filterMap byId.get
  return (tabs, chooseActive byId (own "active" mutation) active tabs)

end

end Dinkster.Workspace
