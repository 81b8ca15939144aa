import Dinkster.Compile.Interface

/-!
# Port resolution

A link of an occurrence ends at a port of a node of that occurrence.  When the node is a
subgraph instance, the port is followed through the boundary of its definition to the
inner ports it is bound to, and a region is opaque unless it is opened explicitly.
Instance paths are lists of instance nodes, innermost first.
-/

namespace Dinkster.Compile

open Format

/-- `ParentDeliveryIdentity`. -/
inductive Delivery where
  | link (graph linkId : String)
  | netSink (graph netId : String) (target : PortRef)

structure TopologyConnection where
  source : LinkEndpoint
  target : LinkEndpoint
  what : String
  delivery : Option Delivery

/-- `LocatedDriver`: an endpoint and the occurrence its topology lives in. -/
structure LocatedDriver where
  endpoint : LinkEndpoint
  path : List String
  defId : String

/-- Why an address cannot be used. -/
structure Refusal where
  code : String
  message : String

/-- The document, the target backend's capabilities, and the parts of the program that a
compile consults as functions: schema resolution (`resolveNode`), elaboration at an
occurrence (`elabAt`), the occurrence-local values of a node, family crossings, the
effective topology of a nested occurrence, type compatibility and widget defaults.
`depth` bounds every recursion, as the stack does. -/
structure Host where
  doc : Workflow
  depth : Nat
  schemaOf : String → NodeData → Option NodeSchema
  interfaceAt : List String → String → String → Interface
  valuesAt : List String → String → NodeData → Record
  crossingProblems : List String → String → List Refusal
  crossing : List String → String → String → Option (List (PortRef → Except Refusal PortRef))
  suppressed : List String → Option Delivery → List RouteLeg → Bool
  effectiveTopology : List String → String → List TopologyConnection
  projectedDriver : List String → String → String → Option LocatedDriver
  forwardsCombo : String → Binding → Bool
  typesCompatible : TypeExpr → TypeExpr → Bool
  atomNamesOf : TypeExpr → Option (List String)
  widgetDefault : WidgetSpec → Option Json
  candidateOverride : String → String → Option String
  emitTypedLiterals : Bool
  emitDecimalInts : Bool
  emitRegions : Bool

namespace Host

variable (host : Host)

def node? (defId node : String) : Option NodeData :=
  (host.doc.graph? defId).bind (·.node? node)

def isVirtualNode (defId : String) (node : NodeData) : Bool :=
  node.isVirtual && ((host.schemaOf defId node).map (·.isVirtual)) = some true

end Host

/-- `unknownSchemaDiag`, pending until the executed scope is known. -/
def unknownSchema (path : List String) (node : NodeData) : Diagnostic :=
  ⟨.error, "compile.schema.unknown", s!"unknown node type '{node.type}'",
    some (occurrenceAt path node.id), some []⟩

/-- ` member '...'` of an address in a message. -/
def memberText (members : List String) : String :=
  let joined := ".".intercalate members
  if members = [] then "" else s!" member '{joined}'"

/-- `ResolvedInput`: an input of a flattened node, or a value source of an occurrence. -/
inductive ResolvedInput where
  | node (runtimeId : String) (input : ElaboratedInput)
  | valueSource (id : String) (path : List String)

/-- What an input port resolves to. -/
inductive InputResolution where
  | targets (inputs : List ResolvedInput)
  | muted
  | bypassed
  | missing

def InputResolution.inputs : InputResolution → List ResolvedInput
  | .targets inputs => inputs
  | _ => []

/-- The resolution of several legs together: the live targets, else the strongest reason
for having none. -/
def collapse (legs : List (InputResolution × List Diagnostic)) :
    InputResolution × List Diagnostic :=
  let targets := legs.flatMap (·.1.inputs)
  let outcome : InputResolution :=
    if !targets.isEmpty then .targets targets
    else if legs.any fun leg => leg.1 matches .muted then .muted
    else if legs.any fun leg => leg.1 matches .bypassed then .bypassed
    else .missing
  (outcome, legs.flatMap (·.2))

namespace Host

variable (host : Host)

variable (path : List String)

def resolveLeafInput (defId : String) (node : NodeData)
    (address : PortAddress) (delivery : Option Delivery) (route : List RouteLeg) :
    InputResolution × List Diagnostic :=
  let anchor := some (occurrenceAt path node.id)
  match host.schemaOf defId node with
  | none => (.missing, [unknownSchema path node])
  | some _ =>
    match (host.interfaceAt path defId node.id).input? address with
    | none =>
      (.missing, [failure "compile.port.unknownInput"
        s!"'{node.type}' has no input '{address.port}'{memberText address.members}" anchor])
    | some input =>
      if input.apiName.isNone then
        (.missing, [failure "compile.port.unwirable"
          s!"'{node.type}' input '{input.spec.id}' exists but never reaches the prompt (ghost/over-cap/unknown dynamic kind)" anchor])
      else if input.synthetic then
        (.missing, [failure "compile.port.unmaterialized"
          s!"{node.type}.{input.spec.id}: dynamic input member is not materialized" anchor])
      else if input.origin matches .selector .. then
        (.missing, [failure "compile.port.selector"
          s!"'{node.type}' input '{input.spec.id}' is a dynamic selector; it cannot be driven by links or promoted values" anchor])
      else if host.suppressed path delivery route then (.targets [], [])
      else (.targets [.node (runtimeIdAt path node.id) input], [])

def resolveRegionInput (defId : String) (node : NodeData)
    (address : PortAddress) (delivery : Option Delivery) (route : List RouteLeg) :
    InputResolution × List Diagnostic :=
  match host.schemaOf defId node with
  | none => (.missing, [unknownSchema path node])
  | some _ =>
    match (host.interfaceAt path defId node.id).input? address with
    | none =>
      (.missing, [failure "compile.port.unknownInput"
        s!"'{node.type}' has no wireable input '{address.port}'{memberText address.members}"
        (some (occurrenceAt path node.id))])
    | some input =>
      if input.apiName.isNone then
        (.missing, [failure "compile.port.unknownInput"
          s!"'{node.type}' has no wireable input '{address.port}'{memberText address.members}"
          (some (occurrenceAt path node.id))])
      else if host.suppressed path delivery route then (.targets [], [])
      else (.targets [.node (runtimeIdAt path node.id) input], [])

/-- The legs of a forwarded construct; an address a crossing refuses ends the loop. -/
def forwardLegs (childPath : List String) (child : GraphDef) (item : BoundaryItem)
    (anchor : OccurrenceRef) (ref : PortRef) (delivery : Option Delivery) (route : List RouteLeg)
    (resolve : PortRef → List RouteLeg → InputResolution × List Diagnostic) :
    List ((PortRef → Except Refusal PortRef) × Binding) →
      Except (List Diagnostic) (List (InputResolution × List Diagnostic))
  | [] => .ok []
  | (translate, binding) :: rest =>
    match translate ref with
    | .error refusal =>
      .error [failure refusal.code
        s!"subgraph '{child.id}' boundary input '{item.id}': {refusal.message}" (some anchor)]
    | .ok inner =>
      let leg : RouteLeg := ⟨child.id, item.id, binding⟩
      let resolved : InputResolution × List Diagnostic :=
        if host.suppressed childPath delivery (route ++ [leg]) then (.targets [], [])
        else resolve inner (route ++ [leg])
      match forwardLegs childPath child item anchor ref delivery route resolve rest with
      | .error sink => .error (resolved.2 ++ sink)
      | .ok legs => .ok (resolved :: legs)

def bindingLeg (childPath : List String) (child : GraphDef) (item : BoundaryItem)
    (anchor : OccurrenceRef) (delivery : Option Delivery) (route : List RouteLeg)
    (resolve : PortRef → List RouteLeg → InputResolution × List Diagnostic)
    (binding : Binding) : InputResolution × List Diagnostic :=
  let leg : RouteLeg := ⟨child.id, item.id, binding⟩
  match binding with
  | .unbound => (.targets [], [])
  | .valueSource id _ =>
    if host.suppressed childPath delivery (route ++ [leg]) then (.targets [], [])
    else (.targets [.valueSource id childPath], [])
  | .port _ (some _) => (.targets [], [])
  | .widgetTap _ _ =>
    (.missing, [failure "compile.boundary.invalidInputBinding"
      s!"subgraph '{child.id}' boundary input '{item.id}' cannot bind an output-only widget tap"
      (some anchor)])
  | .port ref none | .forward _ ref =>
    if host.suppressed childPath delivery (route ++ [leg]) then (.targets [], [])
    else resolve ref (route ++ [leg])

/-- An input of a subgraph instance, followed through the boundary of its definition. -/
def resolveInstanceInput (node : NodeData) (childId : String)
    (ref : PortRef) (delivery : Option Delivery) (route : List RouteLeg)
    (resolve : PortRef → List RouteLeg → InputResolution × List Diagnostic) :
    InputResolution × List Diagnostic :=
  let anchor := occurrenceAt path node.id
  let childPath := node.id :: path
  match host.doc.graph? childId with
  | none =>
    (.missing, [failure "compile.boundary.missingInput"
      s!"subgraph '{childId}' has no boundary input '{ref.port}'{memberText ref.members}"
      (some anchor)])
  | some child =>
    match matchBoundaryItem child.boundaryInputs ref.address with
    | .missing =>
      (.missing, [failure "compile.boundary.missingInput"
        s!"subgraph '{childId}' has no boundary input '{ref.port}'{memberText ref.members}"
        (some anchor)])
    | .ambiguous message =>
      (.missing, [failure "compile.boundary.ambiguousAddress"
        s!"subgraph '{childId}': {message}" (some anchor)])
    | .item item =>
      if item.binds.forwards then
        match host.crossing path node.id item.id with
        | none =>
          (.missing, [failure "compile.boundary.forwardUnresolved"
            s!"subgraph '{childId}' boundary input '{item.id}' forwards a family but its crossing did not resolve"
            (some anchor)])
        | some translations =>
          match host.forwardLegs childPath child item anchor ref delivery route resolve
              (translations.zip item.bindings) with
          | .error sink => (.missing, sink)
          | .ok legs => collapse legs
      else if item.bindings.all (·.viaJunction) then (.targets [], [])
      else
        collapse (item.bindings.map
          (host.bindingLeg childPath child item anchor delivery route resolve))

/-- `resolveInputPort`.  `openRegion` is the one region that is followed inside. -/
def resolveInputPort (delivery : Option Delivery) (openRegion : Option String) :
    Nat → List String → String → PortRef → List RouteLeg → InputResolution × List Diagnostic
  | 0, _, _, _, _ =>
    (.missing, [failure "compile.overflow" "maximum call stack size exceeded" none])
  | fuel + 1, path, defId, ref, route =>
    match host.node? defId ref.node with
    | none =>
      (.missing, [failure "compile.link.danglingNode"
        s!"input ref names missing node '{ref.node}' in graph '{defId}'" none])
    | some node =>
      match node.mode with
      | .muted => (.muted, [])
      | .bypassed => (.bypassed, [])
      | .active =>
        match subgraphDefIdOf node.type with
        | none => host.resolveLeafInput path defId node ref.address delivery route
        | some childId =>
          if node.region.isSome && openRegion ≠ some (runtimeIdAt path node.id) then
            host.resolveRegionInput path defId node ref.address delivery route
          else
            host.resolveInstanceInput path node childId ref delivery route
              fun inner inside =>
                resolveInputPort delivery openRegion fuel (node.id :: path) childId
                  inner inside

/-- `tappedInputs`, when the tapped node is bypassed: its elaborated input itself. -/
def bypassedTap (defId node input : String) : Option (List (String × ElaboratedInput)) :=
  match host.node? defId node with
  | none => none
  | some data =>
    match host.schemaOf defId data with
    | none => none
    | some _ =>
      ((host.interfaceAt path defId node).input? ⟨input, []⟩).map fun found =>
        [(runtimeIdAt path node, found)]

/-- What a widget tap reads. -/
inductive TapResolution where
  | inputs (inputs : List (String × ElaboratedInput))
  | muted
  | missing

/-- The flattened inputs among resolved ones, `filter(isNodeInput)`. -/
def nodeInputs (inputs : List ResolvedInput) : List (String × ElaboratedInput) :=
  inputs.filterMap fun
    | .node runtimeId input => some (runtimeId, input)
    | .valueSource .. => none

/-- `tappedInputs`: bypass does not erase the document value of a node. -/
def tappedInputs (defId node input : String) : TapResolution × List Diagnostic :=
  let (resolved, sink) :=
    host.resolveInputPort none none host.depth path defId ⟨node, input, []⟩ []
  match resolved with
  | .targets inputs => (.inputs (nodeInputs inputs), sink)
  | .muted => (.muted, sink)
  | .missing => (.missing, sink)
  | .bypassed =>
    match host.bypassedTap path defId node input with
    | some inputs => (.inputs inputs, sink)
    | none => (.missing, sink)

end Host

end Dinkster.Compile
