import Dinkster.Widgets.Step

/-!
# Specs of value sources

A value source drives widgets, and its own spec is merged from theirs: the options of the first
widget are merged with those of the next ones, by rules for each kind of widget.  A widget that
conflicts with the merge so far is reported and left out.
-/

namespace Dinkster.Widgets

open Format

abbrev Options := List (String × Json)

variable (a b : Options)

/-- `{ ...a, ...b }`. -/
def spread : Options :=
  (a.map fun entry => (entry.1, (getField b entry.1).getD entry.2)) ++
    b.filter fun entry => (getField a entry.1).isNone

/-- Why options do not merge. -/
inductive Conflict where
  | ranges (min max : Rat)
  | lists
  | disagree
  deriving DecidableEq

def asNum : Option Json → Option Rat
  | some (.num value) => some value
  | _ => none

variable (options : Options)

def setNumber (name : String) : Option Rat → Options
  | some value => setField options name (.num value)
  | none => options

def mergeNumeric : Except Conflict Options :=
  let min := Option.merge Max.max (asNum (getField a "min")) (asNum (getField b "min"))
  let max := Option.merge Min.min (asNum (getField a "max")) (asNum (getField b "max"))
  let merged := setNumber (setNumber a "min" min) "max" max
  let finish :=
    setNumber
      (setNumber merged "step"
        (Option.merge Max.max (asNum (getField a "step")) (asNum (getField b "step"))))
      "precision"
      (Option.merge Min.min (asNum (getField a "precision")) (asNum (getField b "precision")))
  match min, max with
  | some low, some high => if high < low then .error (.ranges low high) else .ok finish
  | _, _ => .ok finish

def isComboValue : Json → Bool
  | .str _ | .bool _ | .num _ => true
  | _ => false

/-- The value of `normalizeComboOption`. -/
def comboValue? : Json → Option Json
  | .arr items => items.head?.filter isComboValue
  | .obj fields => (getField fields "value").filter isComboValue
  | option => if isComboValue option then some option else none

def comboList : Option (List Json) :=
  match getField options "options" with
  | some (.arr items) => some items
  | _ => none

def mergeCombo : Except Conflict Options :=
  let options := spread a b
  match comboList a, comboList b with
  | some aOpts, some bOpts =>
    let bKeys := bOpts.filterMap comboValue?
    let merged := aOpts.filter fun option =>
      match comboValue? option with
      | some value => decide (value ∈ bKeys)
      | none => false
    if merged = [] then .error .lists else .ok (setField options "options" (.arr merged))
  | some aOpts, none => .ok (setField options "options" (.arr aOpts))
  | none, some bOpts => .ok (setField options "options" (.arr bOpts))
  | none, none => .ok options

def mergeString : Except Conflict Options :=
  .ok (if getField a "multiline" = some (.bool true) ∨ getField b "multiline" = some (.bool true) then
    setField (spread a b) "multiline" (.bool true) else spread a b)

def mergeTrivial : Except Conflict Options :=
  .ok (spread a b)

def mergeExact : Except Conflict Options :=
  if jsonSameValue (.obj a) (.obj b) then .ok a else .error .disagree

def specMergeFor (widgetType : String) : Options → Options → Except Conflict Options :=
  if widgetType = "INT" ∨ widgetType = "FLOAT" then mergeNumeric
  else if widgetType = "COMBO" then mergeCombo
  else if widgetType = "STRING" then mergeString
  else if widgetType = "BOOLEAN" then mergeTrivial
  else mergeExact

/-- `WidgetSpec`, as far as a value source takes it over. -/
structure WidgetSpec where
  widgetType : String
  options : Options
  controller : Option String
  controllerInitial : Option String
  remote : Option Json

structure ValueSourceSpec where
  widgetType : Option String
  options : Option Options
  controller : Option String

inductive MergeDiagnostic where
  | widgetTypeConflict (expected found : String)
  | optionsConflict (conflict : Conflict)
  | declaredIncompatible (conflict : Conflict)
  deriving DecidableEq

variable (merge : Options → Options → Except Conflict Options)

def mergeNext (state : Options × List Conflict) (next : Options) : Options × List Conflict :=
  match merge state.1 next with
  | .ok merged => (merged, state.2)
  | .error conflict => (state.1, state.2 ++ [conflict])

def mergeOptions : List Options → Options × List Conflict
  | [] => ([], [])
  | first :: rest => rest.foldl (mergeNext merge) (first, [])

def declaredConflict (derived : Options) (declared : Option Options) : List MergeDiagnostic :=
  match declared with
  | some options =>
    match merge derived options with
    | .ok _ => []
    | .error conflict => [.declaredIncompatible conflict]
  | none => []

def valueSourceWidgetSpec (declared : ValueSourceSpec) (widgetSpecs : List WidgetSpec) :
    Option WidgetSpec × List MergeDiagnostic :=
  match declared.widgetType <|> widgetSpecs.head?.map (·.widgetType) with
  | none => (none, [])
  | some widgetType =>
    let foreign := widgetSpecs.filter (·.widgetType ≠ widgetType)
    let own := widgetSpecs.filter (·.widgetType = widgetType)
    let merge := specMergeFor widgetType
    let (derived, conflicts) := mergeOptions merge (own.map (·.options))
    let controlled := own.find? (·.controller.isSome)
    let controller := controlled.bind (·.controller)
    let initial := controlled.bind (·.controllerInitial)
    (some
      { widgetType := widgetType
        options :=
          match declared.options with
          | some options => spread derived options
          | none => derived
        controller := declared.controller <|> controller
        controllerInitial :=
          if declared.controller.isSome ∧ declared.controller ≠ controller then none else initial
        remote := (own.find? (·.remote.isSome)).bind (·.remote) },
      foreign.map (fun spec => .widgetTypeConflict widgetType spec.widgetType) ++
        conflicts.map .optionsConflict ++
        declaredConflict merge derived declared.options)

/-- The bounds of `FloatStepConstraints`: one that is missing is infinite. -/
structure FloatStepConstraints where
  min : Option Rat
  max : Option Rat
  deriving DecidableEq

def validRange (low high : Option Rat) : Bool :=
  match low, high with
  | some low, some high => low ≤ high
  | _, _ => true

/-- The bounds that `numericStepConstraints` reads from a `FLOAT` widget, whose numbers are
finite. -/
def floatStepConstraints : FloatStepConstraints :=
  let rawMin := asNum (getField options "min")
  let rawMax := asNum (getField options "max")
  if validRange rawMin rawMax then ⟨rawMin, rawMax⟩ else ⟨none, none⟩

end Dinkster.Widgets
