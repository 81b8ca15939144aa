import Dinkster.Compile.Interface
import Dinkster.Junction.Trace

/-!
# Estimates of expression mirrors

A node with an expression mirror is estimated from what its inputs would be given: what it stores,
a literal its driver leads to, or the output of another node.  The estimates are made depth first,
each one once, and a node that is asked for while it is being estimated gives nothing.
-/

namespace Dinkster.Mirror

open Format Library Junction
open Compile (ElaboratedInput WidgetSpec)

/-- `OutputSpec`, with the input its value is known from. -/
structure OutputSpec where
  id : String
  knownValue : Option String

/-- `Connectivity` of a node: the addresses that are driven, what is taken from it, and the ports
that are driven as a whole. -/
structure Connectivity where
  inputs : List PortAddress
  outputs : List PortAddress
  taps : List String
  inputPorts : List String

/-- `NodeSchema`, as far as estimates read it: its mirror as kind and grammar version, and the
inputs its interface has on a node. -/
structure NodeSchema where
  mirror : Option (String × Nat)
  outputs : List OutputSpec
  elaborate : NodeData → Connectivity → List ElaboratedInput

/-- `buildGraphConnectivity`. -/
def connectivity (definition : GraphDef) (id : String) : Connectivity :=
  let driven := definition.links.filterMap (fun link =>
      match link.target with
      | .port ref => if ref.node = id then some ref.address else none
      | _ => none) ++
    definition.nets.flatMap fun net => (net.sinks.filter (·.node = id)).map PortRef.address
  { inputs := driven.eraseDups
    outputs := (definition.links.filterMap (fun link =>
        match link.source with
        | .port ref => if ref.node = id then some ref.address else none
        | _ => none) ++
      ((definition.nets.map (·.source)).filter (·.node = id)).map PortRef.address).eraseDups
    taps := (definition.links.filterMap fun link =>
      match link.source with
      | .tap node input =>
        if node = id ∧ node ≠ "" ∧ input ≠ "" ∧ (definition.node? node).isSome then some input
        else none
      | _ => none).eraseDups
    inputPorts := ((driven.filter (·.members = [])).map (·.port)).eraseDups }

/-- `EXPRESSION_GRAMMAR_VERSION`. -/
def grammarVersion : Nat := 1

def supportsExpressionMirror (schema : NodeSchema) : Bool :=
  schema.mirror = some ("expression", grammarVersion)

def isExpressionMirrorInput (schema : NodeSchema) (address : PortAddress) : Bool :=
  supportsExpressionMirror schema && address.port = "expression" && address.members = []

inductive ExpressionScalar where
  | int (value : Int)
  | number (value : Rat)
  | boolean (value : Bool)
  deriving DecidableEq

/-- What `evaluateExpression` returns, the number of a result only when it is finite, or the text
of the mirror error it throws. -/
inductive ExpressionResult where
  | scalar (float : Option Rat) (int : Int) (boolean : Bool)
  | vector
  | error (message : String)

def scalarOfJson : Json → Option ExpressionScalar
  | .bool value => some (.boolean value)
  | .num value => some (if value.den = 1 then .int value.num else .number value)
  | _ => none

def maxSafeJsonInt : Int := 9007199254740991

inductive CompanionSource where
  | literal (value : Json)
  | producer (node output : String)

structure MirrorEstimate where
  outputs : Table Json
  error : Option String

/-- What a derivation calls: the default of a widget, the evaluation of an expression over its
variables and the resolution of schemas. -/
structure Host where
  effectiveWidgetDefault : WidgetSpec → Option Json
  evaluateExpression : String → Table ExpressionScalar → ExpressionResult
  resolveSchema : String → Option NodeSchema

/-- `MirrorEstimateOptions`. -/
structure Options where
  enabled : String → Bool
  producerValue : String → String → Option Json

/-- A value that `??` does not pass over. -/
def present : Option Json → Option Json
  | some .null => none
  | value => value

variable (message : String)

/-- `expressionMirrorStructuralMessage`. -/
def structuralMessage : Bool :=
  ["invalid expression", "expression syntax", "expression cannot", "expression exceeds",
    "expression values must", "only direct function", "function "].any fun start => message.startsWith start

/-- Whether a message tells of an unknown name or function. -/
def unresolvedMessage : Bool :=
  message.startsWith "unknown expression name" || message.startsWith "unknown expression function"

def expressionMirrorErrorMessage : String :=
  if unresolvedMessage message then
    "Unknown " ++ (message.drop "unknown expression ".length).toString
  else if message.startsWith "invalid expression: " then
    "Invalid expression: " ++ (message.drop "invalid expression: ".length).toString
  else if structuralMessage message then "Invalid expression: " ++ message
  else if message = "" then "Unable to evaluate expression"
  else message.capitalize

/-- The name of a variable: the last dotted segment of the name an input is sent under, if it is one
small letter. -/
def variableName (apiName : String) : Option String :=
  match apiName.toList.reverse.takeWhile (· ≠ '.') with
  | [char] => if 'a' ≤ char ∧ char ≤ 'z' then some (String.singleton char) else none
  | _ => none

section

variable (host : Host) (options : Options) (definition : GraphDef)

def residentValueOf (values : Record) (item : ElaboratedInput) : Option Json :=
  ((values.fields.lookup item.valueKey).or item.derivedValue).or
    (item.spec.widget.bind host.effectiveWidgetDefault)

def nodeSchema (id : String) : Option (NodeData × NodeSchema) :=
  (definition.node? id).bind fun node => (host.resolveSchema node.type).map (node, ·)

/-- `inputsOfNode`, of a node with its schema. -/
def inputsOf (node : NodeData) (schema : NodeSchema) : List ElaboratedInput :=
  schema.elaborate node (connectivity definition node.id)

def tapValueOf (id input : String) : Option Json :=
  (nodeSchema host definition id).bind fun (node, schema) =>
    ((inputsOf definition node schema).find? fun item =>
      item.address.members = [] && item.address.port = input).bind
      (residentValueOf host node.values)

def knownInput (id output : String) : Option String :=
  (nodeSchema host definition id).bind fun (_, schema) =>
    (schema.outputs.find? (·.id = output)).bind (·.knownValue)

def knownOutputs : List (String × String) :=
  definition.nodes.flatMap fun node =>
    ((host.resolveSchema node.type).elim [] NodeSchema.outputs).map fun output => (node.id, output.id)

/-- The recursion of `companionSourceOf`; the number bounds its depth. -/
def resolveSource : Nat → LinkEndpoint → List (String × String) → Option CompanionSource
  | 0, _, _ => none
  | depth + 1, endpoint, visited =>
    match traceEndpoint definition endpoint (some (buildRerouteIndex definition)) none with
    | some (.tapValue node input _) =>
      (((definition.node? node).bind (·.values.fields.lookup input)).or
        (tapValueOf host definition node input)).map .literal
    | some (.valueSource id _) => (definition.valueSource? id).map fun source =>
      .literal source.value
    | some (.output ref _) =>
      if ref.members ≠ [] then none
      else
        match knownInput host definition ref.node ref.port with
        | none => some (.producer ref.node ref.port)
        | some input =>
          if (ref.node, ref.port) ∈ visited then none
          else resolveSource depth (.tap ref.node input) ((ref.node, ref.port) :: visited)
    | _ => none

def companionSourceOf (source : LinkEndpoint) : Option CompanionSource :=
  resolveSource host definition ((knownOutputs host definition).length + 1) source []

/-- What an input is to the estimate of its node. -/
inductive Binding where
  | text (value : Option Json)
  | unbound
  | unsupported
  | value (name : String) (value : Option Json)
  | produced (name node output : String)

/-- An input, before any producer is asked. -/
def bindingOf (node : NodeData) (schema : NodeSchema) (item : ElaboratedInput) : Binding :=
  if isExpressionMirrorInput schema item.address then
    .text (residentValueOf host node.values item)
  else
    match item.apiName with
    | none => .unbound
    | some apiName =>
      match variableName apiName with
      | none => .unsupported
      | some name =>
        let index := buildRerouteIndex definition
        let key := portRefKey ⟨node.id, item.address.port, item.address.members⟩
        match ((index.inputDriverOf.get key).map LinkData.source).or
            ((index.netSourceOf.get key).map LinkEndpoint.port) with
        | none => .value name (residentValueOf host node.values item)
        | some source =>
          match companionSourceOf host definition source with
          | none => .value name none
          | some (.literal value) => .value name (some value)
          | some (.producer node output) => .produced name node output

def readingOf (id : String) : Option (NodeSchema × List Binding) :=
  (definition.node? id).bind fun node =>
    if options.enabled id then
      (host.resolveSchema node.type).bind fun schema =>
        if supportsExpressionMirror schema then
          some (schema, (inputsOf definition node schema).map (bindingOf host definition node schema))
        else none
    else none

/-- What was gathered from the inputs so far. -/
structure Gathered where
  expression : Option String
  values : Table ExpressionScalar
  inputNames : List String
  supportedInputShape : Bool
  resolvable : Bool

def Gathered.empty : Gathered := ⟨none, [], [], true, true⟩

def Gathered.bind (gathered : Gathered) (name : String) (value : Option Json) : Gathered :=
  let gathered := { gathered with inputNames := gathered.inputNames ++ [name] }
  match value.bind scalarOfJson with
  | none => { gathered with resolvable := false }
  | some scalar => { gathered with values := gathered.values.set name scalar }

/-- One input, where `read` gives the outputs of producers. -/
def Gathered.take (read : String → String → Option Json) (gathered : Gathered) : Binding → Gathered
  | .text (some (.str text)) => { gathered with expression := some text }
  | .text _ => { gathered with resolvable := false }
  | .unbound => gathered
  | .unsupported => { gathered with supportedInputShape := false }
  | .value name value => gathered.bind name value
  | .produced name node output => gathered.bind name (read node output)

/-- `validateExpressionText`: the message, unless the text is valid. -/
def validateExpressionText (expression : String) (inputNames : List String) : Option String :=
  match host.evaluateExpression expression
      (inputNames.foldl (fun values name => values.set name (.int 1)) []) with
  | .error message =>
    if unresolvedMessage message || structuralMessage message then
      some (expressionMirrorErrorMessage message)
    else none
  | _ => none

def declaredOutputs (schema : NodeSchema) (float : Option Rat) (int : Int) (boolean : Bool) :
    Table Json :=
  let declared := fun id => schema.outputs.any fun output => output.id = id
  (if declared "boolean" then [("boolean", .bool boolean)] else []) ++
    (match float with
    | some float => if declared "float" then [("float", .num float)] else []
    | none => []) ++
    (if declared "int" ∧ -maxSafeJsonInt ≤ int ∧ int ≤ maxSafeJsonInt then [("int", .num int)]
    else [])

def Gathered.finish (gathered : Gathered) (schema : NodeSchema) : Option MirrorEstimate :=
  match gathered.supportedInputShape, gathered.expression with
  | true, some expression =>
    if gathered.resolvable then
      match host.evaluateExpression expression gathered.values with
      | .vector => none
      | .error message => some ⟨[], some (expressionMirrorErrorMessage message)⟩
      | .scalar float int boolean =>
        let outputs := declaredOutputs schema float int boolean
        if outputs = [] then none else some ⟨outputs, none⟩
    else
      (validateExpressionText host expression gathered.inputNames).map
        fun message => ⟨[], some message⟩
  | _, _ => none

/-- The state of `deriveMirrorEstimates`. -/
structure Derivation where
  estimates : Table MirrorEstimate
  resolved : List String
  evaluating : List String

def Derivation.finish (derivation : Derivation) (id : String) (estimate : Option MirrorEstimate) :
    Derivation :=
  { estimates := estimate.elim derivation.estimates (derivation.estimates.set id)
    resolved := id :: derivation.resolved
    evaluating := derivation.evaluating.erase id }

def gatherInputs (visit : String → Derivation → Option MirrorEstimate × Derivation) :
    List Binding → Gathered → Derivation → Gathered × Derivation
  | [], gathered, derivation => (gathered, derivation)
  | .produced name node output :: rest, gathered, derivation =>
    match present (options.producerValue node output) with
    | some value => gatherInputs visit rest (gathered.bind name (some value)) derivation
    | none =>
      let (estimate, derivation) := visit node derivation
      gatherInputs visit rest
        (gathered.bind name (estimate.bind (·.outputs.get output))) derivation
  | binding :: rest, gathered, derivation =>
    gatherInputs visit rest (gathered.take (fun _ _ => none) binding) derivation

/-- `estimateNode`; the number bounds its depth. -/
def estimateNode : Nat → String → Derivation → Option MirrorEstimate × Derivation
  | 0, _, derivation => (none, derivation)
  | depth + 1, id, derivation =>
    if id ∈ derivation.resolved then (derivation.estimates.get id, derivation)
    else if id ∈ derivation.evaluating then (none, derivation)
    else
      let derivation := { derivation with evaluating := id :: derivation.evaluating }
      match readingOf host options definition id with
      | none => (none, derivation.finish id none)
      | some (schema, bindings) =>
        let (gathered, derivation) :=
          gatherInputs options (estimateNode depth) bindings .empty derivation
        let estimate := gathered.finish host schema
        (estimate, derivation.finish id estimate)

def deriveMirrorEstimates : Table MirrorEstimate :=
  (definition.nodes.foldl (fun derivation node =>
    (estimateNode host options definition (definition.nodes.length + 1) node.id derivation).2) ⟨[], [], []⟩).estimates

end

end Dinkster.Mirror
