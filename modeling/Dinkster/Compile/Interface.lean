import Dinkster.Format.Graph
import Dinkster.Format.Literals

/-!
# Elaborated interfaces

The compiler does not reason over raw schemas but over the interface a node has at one
occurrence: its inputs and outputs in order, each with the address a document links and
the name the backend is sent.  A duplicate address, value key or name refuses the
compile, so an interface carries the proof that it has none.
-/

namespace Dinkster.Compile

open Format

inductive Severity where
  | warning
  | error
  deriving DecidableEq

/-- `Diagnostic`.  A diagnostic about an unknown schema is pending until the executed
scope is known: `dependents` lists the consumers whose membership keeps it fatal. -/
structure Diagnostic where
  severity : Severity
  code : String
  message : String
  occurrence : Option OccurrenceRef
  dependents : Option (List String)
  deriving DecidableEq

/-- `diag('error', 'compile', code, message)`. -/
def failure (code message : String) (occurrence : Option OccurrenceRef) : Diagnostic :=
  ⟨.error, code, message, occurrence, none⟩

/-- `diag('warning', 'compile', code, message)`. -/
def warning (code message : String) (occurrence : Option OccurrenceRef) : Diagnostic :=
  ⟨.warning, code, message, occurrence, none⟩

def hasErrors (diagnostics : List Diagnostic) : Bool :=
  diagnostics.any fun diagnostic => diagnostic.severity = .error

/-- The occurrence of a node below an instance path, which is kept innermost first. -/
def occurrenceAt (path : List String) (node : String) : OccurrenceRef :=
  ⟨path.reverse, node⟩

def runtimeIdAt (path : List String) (node : String) : String :=
  occurrenceKey (occurrenceAt path node)

structure WidgetSpec where
  widgetType : String
  selection : Bool
  default : Option Json
  options : List (String × Json)

structure InputSpec where
  id : String
  type : TypeExpr
  optional : Bool
  hidden : Bool
  widget : Option WidgetSpec

/-- `ElaboratedOrigin`. -/
inductive Origin where
  | static
  | member (ghost : Bool)
  | selector (construct : String) (selected : Option String)
  | branch
  | slot (construct : String) (variants : List String) (selected : Option String)
  | dependent
  | unknown
  deriving DecidableEq

/-- `ElaboratedInput`.  Its spec is filed under the key of its address, and an input
without a backend name never reaches the prompt. -/
structure ElaboratedInput where
  address : PortAddress
  apiName : Option String
  spec : InputSpec
  filed : spec.id = elabKeyOf address
  origin : Origin
  synthetic : Bool
  derivedValue : Option Json
  wire15 : Bool

variable (input : ElaboratedInput)

/-- `valueKeyOf`: the key a document stores the value of an input under. -/
def ElaboratedInput.valueKey : String :=
  if input.origin = .static ∧ input.address.members = [] then input.address.port
  else input.spec.id

/-- The name an input is submitted under, if it reaches the prompt. -/
def ElaboratedInput.submissionName : Option String :=
  input.apiName.map fun apiName => if input.wire15 then input.address.port else apiName

structure ElaboratedOutput where
  address : PortAddress
  id : String
  type : TypeExpr
  backendId : Option String
  synthetic : Bool
  wireable : Bool

/-- `NodeElab`. -/
structure Interface where
  inputs : List ElaboratedInput
  outputs : List ElaboratedOutput
  outputCountInputs : List String
  outputMembers : Option (List (String × List String))
  submissionValues : List (String × Json)
  addressed : (inputs.map (·.address)).Nodup
  named : (inputs.filterMap (·.submissionName) ++ submissionValues.map (·.1)).Nodup

namespace Interface

variable (interface : Interface)

/-- `inputsByAddr.get`. -/
def input? (address : PortAddress) : Option ElaboratedInput :=
  interface.inputs.find? (·.address = address)

/-- `inputsByValueKey.get`. -/
def valued? (key : String) : Option ElaboratedInput :=
  interface.inputs.find? (·.valueKey = key)

/-- `outputsByAddr.get`. -/
def output? (address : PortAddress) : Option ElaboratedOutput :=
  interface.outputs.find? (·.address = address)

/-- The outputs the backend sees. -/
def wired : List ElaboratedOutput :=
  interface.outputs.filter (·.wireable)

/-- `outputIndexByAddr.get`. -/
def outputIndex? (address : PortAddress) : Option Nat :=
  interface.wired.findIdx? (·.address = address)

/-- The inputs that take part in a bypass: they reach the prompt and are materialized. -/
def passable : List ElaboratedInput :=
  interface.inputs.filter fun input => input.apiName.isSome && !input.synthetic

theorem eq_of_address {interface : Interface} {first second : ElaboratedInput}
    (firstListed : first ∈ interface.inputs) (secondListed : second ∈ interface.inputs)
    (same : first.address = second.address) : first = second :=
  List.inj_on_of_nodup_map interface.addressed firstListed secondListed same

end Interface

/-- `NodeSelectorSpec`: a lazy selector a schema declares. -/
structure NodeSelectorSpec where
  input : String
  whenFalse : String
  whenTrue : String

/-- `NodeSchema`, as far as the compiler reads it beside the elaborated interface. -/
structure NodeSchema where
  isOutputNode : Bool
  isVirtual : Bool
  selector : Option NodeSelectorSpec

end Dinkster.Compile
