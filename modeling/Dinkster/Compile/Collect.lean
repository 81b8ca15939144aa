import Dinkster.Compile.Route

/-!
# Flattening and literals

Subgraph instances flatten away: every active node of every occurrence becomes one
flattened node, a region being a node and an occurrence at once.  Before any link is
lowered, the inputs of a flattened node hold its stored values, then the values promoted
onto them by the instances above, then the values its own interface derives.
-/

namespace Dinkster.Compile

open Format

/-- `FlatNode`.  `inputs` is the staging record, keyed by elaborated input. -/
structure FlatNode where
  runtimeId : String
  path : List String
  graphId : String
  node : NodeData
  interface : Interface
  selector : Option NodeSelectorSpec
  linkedInputs : List String
  inputs : List (String × Json)

structure RegionLowering where
  runtimeId : String
  path : List String
  node : NodeData
  contract : RegionContract
  parentDefId : String
  childId : String

def RegionLowering.childPath (region : RegionLowering) : List String :=
  region.node.id :: region.path

/-- An instance whose stored values are promoted into its definition. -/
structure Promotion where
  path : List String
  defId : String
  node : NodeData
  childId : String

/-- What `collectNodes` gathers: the graph occurrences, the flattened nodes, the regions,
the instances with promotions, and the occurrences without a schema. -/
structure Collected where
  contexts : List (List String × String)
  flat : List FlatNode
  regions : List RegionLowering
  promotions : List Promotion
  unresolved : List (String × String)
  sink : List Diagnostic

namespace Collected

/-- Nothing gathered. -/
def empty : Collected := ⟨[], [], [], [], [], []⟩

def problems (sink : List Diagnostic) : Collected := ⟨[], [], [], [], [], sink⟩

/-- One gathering after another. -/
def append (first second : Collected) : Collected :=
  ⟨first.contexts ++ second.contexts, first.flat ++ second.flat,
    first.regions ++ second.regions, first.promotions ++ second.promotions,
    first.unresolved ++ second.unresolved, first.sink ++ second.sink⟩

/-- Several gatherings in order. -/
def concat : List Collected → Collected
  | [] => empty
  | first :: rest => first.append (concat rest)

end Collected

namespace Host

variable (host : Host)

/-- `scanRegions`: a bypassed region refuses the compile at once. -/
def scanRegions : Nat → String → List String → List String → List Diagnostic
  | 0, _, _, _ => []
  | fuel + 1, defId, path, stack =>
    if defId ∈ stack then []
    else
      match host.doc.graph? defId with
      | none => []
      | some definition => definition.nodes.flatMap fun node =>
        if host.isVirtualNode defId node then []
        else if node.region.isSome ∧ node.mode = .muted then []
        else if node.region.isSome ∧ node.mode = .bypassed then
          [failure "compile.region.bypassUnsupported"
            "region occurrences cannot be bypassed because their list contracts have no positional passthrough"
            (some (occurrenceAt path node.id))]
        else
          match subgraphDefIdOf node.type with
          | some childId =>
            if node.mode = .active then
              scanRegions fuel childId (node.id :: path) (defId :: stack)
            else []
          | none => []

variable (path : List String)

/-- A flattened node with nothing staged. -/
def flatNodeAt (defId : String) (node : NodeData) (selector : Option NodeSelectorSpec) : FlatNode :=
  { runtimeId := runtimeIdAt path node.id
    path := path
    graphId := defId
    node := node
    interface := host.interfaceAt path defId node.id
    selector := selector
    linkedInputs := []
    inputs := [] }

/-- An occurrence without a schema never enters the prompt. -/
def unresolvedAt (node : NodeData) : Collected :=
  ⟨[], [], [], [], [(runtimeIdAt path node.id, node.type)], [unknownSchema path node]⟩

/-- The inside of an active instance. -/
def collectInside (defId : String) (node : NodeData) (childId : String)
    (inside : Collected) : Collected :=
  match host.crossingProblems path node.id with
  | [] =>
    let promotions : List Promotion :=
      if node.region.isNone then [⟨path, defId, node, childId⟩] else []
    (Collected.append ⟨[], [], [], promotions, [], []⟩ inside)
  | problems => .problems (problems.map fun problem =>
    failure problem.code s!"{problem.message} (node '{node.id}')"
      (some (occurrenceAt path node.id)))

def collectNode (defId : String) (authored : NodeData)
    (recurse : String → List String → Collected) : Collected :=
  let node := { authored with values := host.valuesAt path defId authored }
  if host.isVirtualNode defId node then .empty
  else if node.mode ≠ .active then .empty
  else
    match subgraphDefIdOf node.type with
    | none =>
      match host.schemaOf defId node with
      | none => unresolvedAt path node
      | some schema =>
        ⟨[], [host.flatNodeAt path defId node schema.selector], [], [], [], []⟩
    | some childId =>
      if ((host.doc.graph? childId).bind (·.boundary)).isNone then
        .problems [failure "compile.subgraph.missing"
          s!"node '{node.id}' references missing/boundary-less subgraph '{childId}'"
          (some (occurrenceAt path node.id))]
      else
        let inside := recurse childId (node.id :: path)
        match node.region, host.schemaOf defId node with
        | none, _ => host.collectInside path defId node childId inside
        | some _, none => unresolvedAt path node
        | some contract, some _ =>
          Collected.append
            ⟨[], [host.flatNodeAt path defId node none],
              [⟨runtimeIdAt path node.id, path, node, contract, defId, childId⟩], [], [], []⟩
            (host.collectInside path defId node childId inside)

def collectNodes : Nat → String → List String → Collected
  | 0, _, _ =>
    .problems [failure "compile.overflow" "maximum call stack size exceeded" none]
  | fuel + 1, defId, path =>
    match host.doc.graph? defId with
    | none =>
      .problems [failure "compile.graph.missing"
        s!"graph definition '{defId}' not found" none]
    | some definition =>
      Collected.append ⟨[(path, defId)], [], [], [], [], []⟩
        (.concat (definition.nodes.map fun authored =>
          host.collectNode path defId authored (collectNodes fuel)))

/-- The occurrences of the document. -/
def collected : Collected :=
  host.collectNodes host.depth host.doc.root []

end Host

/-- `rerouteInputTargets`: the input ports below a junction, all of which must be ports. -/
def rerouteInputTargets (definition : GraphDef) : Nat → String → List String → Option (List PortRef)
  | 0, _, _ => none
  | fuel + 1, id, path =>
    if id ∉ definition.reroutes ∨ id ∈ path then none
    else
      let successors := definition.links.filter fun link => link.source = .reroute id
      if successors.isEmpty then none
      else
        (successors.mapM fun (link : LinkData) =>
          match link.target with
          | LinkEndpoint.port ref => some [ref]
          | .reroute next => rerouteInputTargets definition fuel next (id :: path)
          | _ => none).map List.flatten

def promotedPorts (definition : GraphDef) : Binding → List PortRef
  | .port _ (some reroute) =>
    (rerouteInputTargets definition (definition.reroutes.length + 1) reroute []).getD []
  | .port ref none => [ref]
  | .forward _ ref => [ref]
  | _ => []

/-- A map that keeps the first value written under a key. -/
def recordFirst {Key : Type} [DecidableEq Key] (entries : List (Key × Json))
    (write : Key × Json) : List (Key × Json) :=
  if (entries.lookup write.1).isNone then entries ++ [write] else entries

/-- The promoted values: those that override inputs of flattened nodes, and those that
replace the literal of a value source. -/
structure Promoted where
  overrides : List ((String × String) × Json)
  sourceValues : List ((List String × String) × Json)

/-- `record`: the first write wins, so an outer instance beats an inner one. -/
def Promoted.record (promoted : Promoted) (write : ResolvedInput × Json) : Promoted :=
  match write with
  | (.node runtimeId input, value) =>
    { promoted with
      overrides := recordFirst promoted.overrides ((runtimeId, input.spec.id), value) }
  | (.valueSource id path, value) =>
    { promoted with sourceValues := recordFirst promoted.sourceValues ((path, id), value) }

namespace Host

variable (host : Host)

def promotedWrites (value : Option Json) (resolved : InputResolution × List Diagnostic) :
    List (ResolvedInput × Json) × List Diagnostic :=
  match value with
  | some value => (resolved.1.inputs.map fun input => (input, value), resolved.2)
  | none => ([], resolved.2)

variable (promotion : Promotion)

def promoteItem (child : GraphDef) (item : BoundaryItem) :
    List (ResolvedInput × Json) × List Diagnostic :=
  let value := getField promotion.node.values.fields item.id
  let childPath := promotion.node.id :: promotion.path
  let owned := item.promoted &&
    ((host.schemaOf promotion.defId promotion.node).isSome &&
      ((host.interfaceAt promotion.path promotion.defId promotion.node.id).valued?
        item.id).isSome)
  match item.binds with
  | .valueSource id _ =>
    (value.toList.map fun value => (.valueSource id childPath, value), [])
  | .port .. =>
    if value.isNone && !owned then ([], [])
    else if host.forwardsCombo child.id item.binds then ([], [])
    else
      let writes := (item.bindings.flatMap (promotedPorts child)).map fun ref =>
        promotedWrites value
          (host.resolveInputPort none none host.depth childPath child.id ref [])
      (writes.flatMap (·.1), writes.flatMap (·.2))
  | _ => ([], [])

/-- The promoted value of one input of the instance that belongs to a forwarded family. -/
def promoteMember (child : GraphDef) (input : ElaboratedInput) :
    List (ResolvedInput × Json) × List Diagnostic :=
  match getField promotion.node.values.fields input.valueKey with
  | none => ([], [])
  | some value =>
    if input.apiName.isNone || input.synthetic then ([], [])
    else
      match matchBoundaryItem child.boundaryInputs input.address with
      | .missing => ([], [])
      | .ambiguous message =>
        ([], [failure "compile.boundary.ambiguousAddress"
          s!"subgraph '{child.id}' value '{input.valueKey}': {message}"
          (some (occurrenceAt promotion.path promotion.node.id))])
      | .item item =>
        if item.binds.forwards then
          promotedWrites (some value)
            (host.resolveInputPort none none host.depth promotion.path promotion.defId
              ⟨promotion.node.id, input.address.port, input.address.members⟩ [])
        else ([], [])

/-- Whether a boundary has an input that is neither concrete nor a value source. -/
def hasFamilyItem (child : GraphDef) : Bool :=
  child.boundaryInputs.any fun item =>
    match item.binds with
    | .port .. | .valueSource .. => false
    | _ => true

/-- The promoted values of one instance. -/
def promote : List (ResolvedInput × Json) × List Diagnostic :=
  match host.doc.graph? promotion.childId with
  | none => ([], [])
  | some child =>
    let items := child.boundaryInputs.map (host.promoteItem promotion child)
    let members :=
      if hasFamilyItem child && (host.schemaOf promotion.defId promotion.node).isSome then
        (host.interfaceAt promotion.path promotion.defId promotion.node.id).inputs.map
          (host.promoteMember promotion child)
      else []
    ((items ++ members).flatMap (·.1), (items ++ members).flatMap (·.2))

/-- The promoted values of the document. -/
def promoted : Promoted :=
  (host.collected.promotions.flatMap fun promotion => (host.promote promotion).1).foldl
    Promoted.record ⟨[], []⟩

def promotionSink : List Diagnostic :=
  host.collected.promotions.flatMap fun promotion => (host.promote promotion).2

variable (fn : FlatNode)

/-- `lowerWidgetLiteral`: a literal whose runtime type is not the declared one is stamped,
or refused when the backend cannot read the stamp. -/
def lowerWidgetLiteral (input : ElaboratedInput) (value : Json) : Option Json × List Diagnostic :=
  let anchor := some (occurrenceAt fn.path fn.node.id)
  let numericUnion := match input.spec.type with
    | .union names => names.length = 2 && names.contains "FLOAT" && names.contains "INT"
    | _ => false
  if host.emitRegions && numericUnion && input.spec.widget.isSome then
    if host.emitTypedLiterals then (some (typedLiteralWire "FLOAT" value), [])
    else (none, [failure "compile.value.numericUnionUnsupported"
      s!"{fn.node.type}.{input.spec.id}: backend cannot preserve the numeric widget type" anchor])
  else if canonicalTypeIdOf input.spec.type = some "INT" && isCanonicalUnsafeInteger value then
    if host.emitDecimalInts then (some (decimalIntegerWire value), [])
    else (none, [failure "compile.value.decimalIntUnsupported"
      s!"{fn.node.type}.{input.spec.id}: backend cannot preserve this large integer" anchor])
  else
    match assetSourceTypeOf input value with
    | none => (some value, [])
    | some sourceType =>
      if host.emitTypedLiterals then (some (typedLiteralWire sourceType value), [])
      else (none, [failure "compile.value.assetSourceUnsupported"
        s!"{fn.node.type}.{input.spec.id}: backend cannot preserve the asset source type" anchor])

def stagedLiteral (input : ElaboratedInput) (value : Json) : List (String × Json) :=
  ((host.lowerWidgetLiteral fn input value).1.map fun lowered =>
    (input.spec.id, lowered)).toList

/-- What a stored value stages. -/
def storedWrites (entry : String × Json) : List (String × Json) :=
  match fn.interface.valued? entry.1 with
  | none => []
  | some input => if input.apiName.isNone then [] else host.stagedLiteral fn input entry.2

/-- What a promoted value stages. -/
def promotedWrite (entry : (String × String) × Json) : List (String × Json) :=
  if entry.1.1 ≠ fn.runtimeId then []
  else
    match fn.interface.inputs.find? (·.spec.id = entry.1.2) with
    | none => []
    | some input => host.stagedLiteral fn input entry.2

/-- What a derived value stages. -/
def derivedWrites (input : ElaboratedInput) : List (String × Json) :=
  match input.apiName, input.derivedValue with
  | some _, some value => [(input.spec.id, value)]
  | _, _ => []

/-- The literals staged at a node, in order: stored, promoted, derived. -/
def literalWrites : List (String × Json) :=
  fn.node.values.fields.flatMap (host.storedWrites fn) ++
    host.promoted.overrides.flatMap (host.promotedWrite fn) ++
    fn.interface.inputs.flatMap derivedWrites

def applyWrites (inputs writes : List (String × Json)) : List (String × Json) :=
  writes.foldl (fun staged write => setField staged write.1 write.2) inputs

/-- Pass 2 before links: values, overrides, derived values. -/
def stageLiterals : FlatNode :=
  { fn with inputs := applyWrites [] (host.literalWrites fn) }

/-- Whether a stored key may be dormant by design, `isDynamicScopedValueKey`. -/
def isDynamicScopedValueKey (key : String) : Bool :=
  key.toList.contains '#' || key.toList.contains '.'

/-- The diagnostics of staging a node, reported when the node is validated. -/
def literalSink : List Diagnostic :=
  (fn.node.values.fields.flatMap fun entry =>
    match fn.interface.valued? entry.1 with
    | none =>
      if isDynamicScopedValueKey entry.1 then []
      else [warning "compile.value.unknownInput"
        s!"{fn.node.type}.{entry.1}: stored value has no matching input"
        (some (occurrenceAt fn.path fn.node.id))]
    | some input =>
      if input.apiName.isNone then [] else (host.lowerWidgetLiteral fn input entry.2).2) ++
  (host.promoted.overrides.flatMap fun entry =>
    if entry.1.1 ≠ fn.runtimeId then []
    else
      match fn.interface.inputs.find? (·.spec.id = entry.1.2) with
      | none => [failure "compile.internal.overrideUnresolved"
          s!"internal: promoted override targets unknown input '{entry.1.2}' on '{fn.node.type}'"
          (some (occurrenceAt fn.path fn.node.id))]
      | some input => (host.lowerWidgetLiteral fn input entry.2).2)

end Host

end Dinkster.Compile
