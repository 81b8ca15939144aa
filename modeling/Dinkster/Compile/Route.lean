import Dinkster.Compile.Liveness
import Dinkster.Compile.Resolve

/-!
# Routes

What an endpoint delivers is found upstream of it: through junctions, the chosen candidate
of a selector, the driver of a tapped input, a value source promoted through a boundary,
or the matching input of a bypassed node.  A route ends at the output of a flattened
node, at a literal, or nowhere.
-/

namespace Dinkster.Compile

open Format

/-- The connections of a definition itself: its links, then the sinks of its nets. -/
def definitionTopology (definition : GraphDef) : List TopologyConnection :=
  (definition.links.map fun link =>
    ⟨link.source, link.target, s!"link '{link.id}'", some (.link definition.id link.id)⟩) ++
  definition.nets.flatMap fun net => net.sinks.map fun sink =>
    ⟨.port net.source, .port sink, s!"net '{net.name}'",
      some (.netSink definition.id net.id sink)⟩

/-- The source of the first connection that ends at an endpoint. -/
def driverIn (connections : List TopologyConnection) (target : LinkEndpoint) :
    Option LinkEndpoint :=
  (connections.find? (·.target = target)).map (·.source)

/-- What the passes before link lowering have built and routing reads: the graph
occurrences, the staged inputs, the promoted values, and the candidates chosen for
selectors. -/
structure RouteTables where
  contexts : List (List String × String)
  staged : String → String → Option Json
  overrides : String → String → Option Json
  sourceValue : List String → String → Option Json
  selection : String → String → Option String

namespace Host

variable (host : Host)

def topologyFor (path : List String) (defId : String) : List TopologyConnection :=
  match path with
  | [] =>
    match host.doc.graph? defId with
    | some definition => definitionTopology definition
    | none => []
  | _ :: _ => host.effectiveTopology path defId

/-- What drives an endpoint inside one occurrence. -/
def localDriver (path : List String) (defId : String) (target : LinkEndpoint) :
    Option LocatedDriver :=
  (driverIn (host.topologyFor path defId) target).map fun source => ⟨source, path, defId⟩

def boundaryOfInput (defId node : String) (address : PortAddress) : Option BoundaryItem :=
  match host.doc.graph? defId with
  | none => none
  | some definition =>
    definition.boundaryInputs.find? fun item => item.bindings.any fun
      | .port ref _ => ref.node = node && ref.address = address
      | _ => false

/-- `driverOfInput`: a local driver, else the driver of the instance port that the boundary
binds the input to, however many boundaries above. -/
def driverOfInput (contexts : List (List String × String)) :
    List String → String → String → PortAddress → Option LocatedDriver
  | [], defId, node, address =>
    host.localDriver [] defId (.port ⟨node, address.port, address.members⟩)
  | inst :: parent, defId, node, address =>
    match host.localDriver (inst :: parent) defId
        (.port ⟨node, address.port, address.members⟩) with
    | some driver => some driver
    | none =>
      match host.boundaryOfInput defId node address, contexts.lookup parent with
      | some item, some parentDef =>
        driverOfInput contexts parent parentDef inst ⟨item.id, []⟩
      | _, _ => none

end Host

/-! ## Outputs -/

structure ResolvedOutput where
  runtimeId : String
  outputIndex : Nat
  deriving DecidableEq

/-- `RouteAt`: a bypassed node asked for one of its outputs, or an endpoint of an
occurrence. -/
inductive RouteVertex where
  | bypass (path : List String) (defId : String) (ref : PortRef)
  | endpoint (path : List String) (defId : String) (endpoint : LinkEndpoint)
      (typeId : Option String)

/-- What an output port resolves to. -/
inductive OutputResolution where
  | output (source : ResolvedOutput)
  | onward (vertex : RouteVertex)
  | muted
  | missing

namespace Host

variable (host : Host)

variable (path : List String)

def resolveLeafOutput (defId : String) (node : NodeData)
    (address : PortAddress) : OutputResolution × List Diagnostic :=
  let anchor := some (occurrenceAt path node.id)
  match host.schemaOf defId node with
  | none => (.missing, [unknownSchema path node])
  | some _ =>
    let interface := host.interfaceAt path defId node.id
    match interface.output? address with
    | none =>
      (.missing, [failure "compile.port.unknownOutput"
        s!"'{node.type}' has no output '{address.port}'{memberText address.members}" anchor])
    | some output =>
      if output.synthetic then
        (.missing, [failure "compile.port.unmaterialized"
          s!"{node.type}.{output.id}: dynamic output member is not materialized" anchor])
      else
        match interface.outputIndex? address with
        | none =>
          (.missing, [failure "compile.port.unwirable"
            s!"'{node.type}' output '{output.id}' exists but never takes part in wiring (ghost/over-cap/unknown dynamic kind)"
            anchor])
        | some index => (.output ⟨runtimeIdAt path node.id, index⟩, [])

def resolveRegionOutput (defId : String) (node : NodeData)
    (address : PortAddress) : OutputResolution × List Diagnostic :=
  match host.schemaOf defId node with
  | none => (.missing, [unknownSchema path node])
  | some _ =>
    match (host.interfaceAt path defId node.id).outputIndex? address with
    | none =>
      (.missing, [failure "compile.port.unknownOutput"
        s!"'{node.type}' has no wireable output '{address.port}'{memberText address.members}"
        (some (occurrenceAt path node.id))])
    | some index => (.output ⟨runtimeIdAt path node.id, index⟩, [])

/-- An output of a subgraph instance, followed through the boundary of its definition. -/
def resolveInstanceOutput (node : NodeData) (childId : String)
    (ref : PortRef) (delivery : Option Delivery) (route : List RouteLeg)
    (resolve : PortRef → List RouteLeg → OutputResolution × List Diagnostic) :
    OutputResolution × List Diagnostic :=
  let anchor := occurrenceAt path node.id
  let childPath := node.id :: path
  match host.doc.graph? childId with
  | none =>
    (.missing, [failure "compile.boundary.missingOutput"
      s!"subgraph '{childId}' has no boundary output '{ref.port}'{memberText ref.members}"
      (some anchor)])
  | some child =>
    match matchBoundaryItem child.boundaryOutputs ref.address with
    | .missing =>
      (.missing, [failure "compile.boundary.missingOutput"
        s!"subgraph '{childId}' has no boundary output '{ref.port}'{memberText ref.members}"
        (some anchor)])
    | .ambiguous message =>
      (.missing, [failure "compile.boundary.ambiguousAddress"
        s!"subgraph '{childId}': {message}" (some anchor)])
    | .item item =>
      let inside := route ++ [⟨child.id, item.id, item.binds⟩]
      match item.binds with
      | .unbound => (.missing, [])
      | .valueSource id type =>
        if host.suppressed childPath delivery inside then (.missing, [])
        else (.onward (.endpoint childPath childId (.valueSource id)
          (canonicalTypeIdOf type)), [])
      | .widgetTap inner input =>
        if host.suppressed childPath delivery inside then (.missing, [])
        else
          let (tapped, sink) := host.tappedInputs childPath childId inner input
          let onward : OutputResolution × List Diagnostic :=
            (.onward (.endpoint childPath childId (.tap inner input) none), sink)
          match tapped with
          | .missing =>
            (.missing, sink ++ [failure "compile.tap.missingInput"
              s!"{inner}.{input}: tapped input is missing in graph {childId}" none])
          | .muted => onward
          | .inputs inputs =>
            if inputs.any fun entry => (canonicalTypeIdOf entry.2.spec.type).isNone then
              (.missing, sink ++ [failure "compile.tap.nonConcrete"
                s!"{inner}.{input}: tapped input has no concrete type" none])
            else onward
      | .forward .family inner =>
        match host.crossing path node.id item.id with
        | none =>
          (.missing, [failure "compile.boundary.forwardUnresolved"
            s!"subgraph '{childId}' boundary output '{item.id}' forwards a family but its crossing did not resolve"
            (some anchor)])
        | some translations =>
          match (translations.head?.map fun translate => translate ref).getD
              (.ok inner) with
          | .error refusal =>
            (.missing, [failure refusal.code
              s!"subgraph '{childId}' boundary output '{item.id}': {refusal.message}"
              (some anchor)])
          | .ok translated =>
            if host.suppressed childPath delivery inside then (.missing, [])
            else resolve translated inside
      | .port inner _ | .forward _ inner =>
        if host.suppressed childPath delivery inside then (.missing, [])
        else resolve inner inside

/-- `resolveOutputPort`.  `openRegion` is the one region that is followed inside. -/
def resolveOutputPort (delivery : Option Delivery) (openRegion : Option String) :
    Nat → List String → String → PortRef → List RouteLeg → OutputResolution × List Diagnostic
  | 0, _, _, _, _ =>
    (.missing, [failure "compile.overflow" "maximum call stack size exceeded" none])
  | fuel + 1, path, defId, ref, route =>
    if ref.node = regionPseudoNode then
      (.missing, [failure "compile.region.invalidIndex"
        s!"'$region.{ref.port}' is available only as the immediate region index source" none])
    else
      match host.node? defId ref.node with
      | none =>
        (.missing, [failure "compile.link.danglingNode"
          s!"output ref names missing node '{ref.node}' in graph '{defId}'" none])
      | some node =>
        match node.mode with
        | .muted => (.muted, [])
        | .bypassed => (.onward (.bypass path defId ref), [])
        | .active =>
          match subgraphDefIdOf node.type with
          | none => host.resolveLeafOutput path defId node ref.address
          | some childId =>
            if node.region.isSome && openRegion ≠ some (runtimeIdAt path node.id) then
              host.resolveRegionOutput path defId node ref.address
            else
              host.resolveInstanceOutput path node childId ref delivery route
                fun inner inside =>
                  resolveOutputPort delivery openRegion fuel (node.id :: path) childId
                    inner inside

end Host

structure BypassCandidate (Driver : Type) where
  index : Nat
  type : TypeExpr
  driver : Driver

namespace Host

variable (host : Host)

/-- `sameAtomSet`: two unrestricted expressions are exact together. -/
def sameAtomSet (first second : TypeExpr) : Bool :=
  match host.atomNamesOf first, host.atomNamesOf second with
  | none, none => true
  | some left, some right =>
    if left.length = right.length then left.all right.contains
    else left.all right.contains && right.all left.contains
  | _, _ => false

/-- `matchBypassInput`: the compatible input at the same index, else the first exact one,
else the first compatible one. -/
def matchBypassInput {Driver : Type} (index : Nat) (type : TypeExpr)
    (candidates : List (BypassCandidate Driver)) : Option (BypassCandidate Driver) :=
  match candidates.find? (·.index = index) with
  | some candidate =>
    if host.typesCompatible candidate.type type then some candidate
    else
      (candidates.find? fun candidate => host.sameAtomSet candidate.type type).or
        (candidates.find? fun candidate => host.typesCompatible candidate.type type)
  | none =>
    (candidates.find? fun candidate => host.sameAtomSet candidate.type type).or
      (candidates.find? fun candidate => host.typesCompatible candidate.type type)

variable (contexts : List (List String × String))

/-- The driven inputs of a bypassed node, each with its position among those that reach
the prompt. -/
def bypassCandidates (path : List String)
    (defId node : String) : List (BypassCandidate (LocatedDriver × ElaboratedInput)) :=
  (host.interfaceAt path defId node).passable.zipIdx.filterMap fun (input, index) =>
    (host.driverOfInput contexts path defId node input.address).map fun driver =>
      ⟨index, input.spec.type, (driver, input)⟩

/-- `SelectedBypassHop`. -/
structure BypassHop where
  node : String
  outputId : String
  inputId : String
  inputIndex : Nat
  driver : LocatedDriver

/-- `selectBypassHop`: matched against the consumer's type when there is one. -/
def selectBypassHop (path : List String)
    (defId : String) (ref : PortRef) (consumerType : Option TypeExpr) : Option BypassHop :=
  match host.node? defId ref.node with
  | none => none
  | some node =>
    let interface := host.interfaceAt path defId ref.node
    match host.schemaOf defId node, interface.output? ref.address,
        interface.outputIndex? ref.address with
    | some _, some output, some index =>
      (host.matchBypassInput index (consumerType.getD output.type)
        (host.bypassCandidates contexts path defId ref.node)).map fun candidate =>
          { node := ref.node
            outputId := output.id
            inputId := candidate.driver.2.spec.id
            inputIndex := candidate.index
            driver := candidate.driver.1 }
    | _, _, _ => none

/-- Why a bypassed node has no hop. -/
def bypassProblem (path : List String) (defId : String) (ref : PortRef) : List Diagnostic :=
  match host.node? defId ref.node with
  | none => []
  | some node =>
    let interface := host.interfaceAt path defId ref.node
    let anchor := some (occurrenceAt path ref.node)
    match host.schemaOf defId node, interface.output? ref.address,
        interface.outputIndex? ref.address with
    | none, _, _ => [unknownSchema path node]
    | some _, some output, some _ =>
      [warning "compile.bypass.unrouted"
        s!"{node.type}.{output.id}: bypass has no matching driven input" anchor]
    | some _, _, _ =>
      [failure "compile.port.unknownOutput"
        s!"{node.type}.{ref.port}: bypass output is not wireable" anchor]

end Host

variable (input : ElaboratedInput)

/-- `assetSourceTypeOf`: the runtime type of a widget-held literal when it differs from
the declared type of the input. -/
def assetSourceTypeOf (value : Json) : Option String :=
  match input.spec.widget with
  | none => none
  | some widget =>
    if widget.widgetType ≠ "ASSET" then none
    else
      match widget.selection, input.spec.type with
      | true, .union _ =>
        match value with
        | .str _ => some "COMBO"
        | _ => if isAssetRefValue value then some "ASSET" else none
      | _, _ =>
        match canonicalTypeIdOf input.spec.type with
        | none => none
        | some typeId =>
          if isAssetRefDestinationTypeId typeId then none
          else if isAssetRefValue value then some (assetTypeId typeId)
          else
            match value with
            | .arr (first :: rest) =>
              if (first :: rest).all isAssetRefValue then
                some (listTypeId (assetTypeId ((parseListTypeId typeId).getD typeId)))
              else none
            | _ => none

/-- A tapped value: unwrapped from its marker, else of the type the widget gives it. -/
def readTapped (typeId : String) (value : Json) : Json × String :=
  match parseDecimalIntegerWire value, parseTypedLiteralWire value with
  | some integer, _ => (integer, "INT")
  | none, some (type, inner) => (inner, type)
  | none, none => (value, (assetSourceTypeOf input value).getD typeId)

namespace Host

variable (host : Host)

/-- What a tap falls back to when nothing is staged: the stored value, else the value the
widget shows. -/
def tapFallback (defId node : String) (input : ElaboratedInput) : Option Json :=
  ((host.node? defId node).bind fun data => getField data.values.fields input.valueKey).or
    (input.spec.widget.bind host.widgetDefault)

/-- What `tapValue` finds. -/
inductive TapValue where
  | value (value : Json) (typeId : String)
  | muted
  | missing

/-- `tapValue`: the staged value of the tapped input, else its promoted value, else what
it falls back to. -/
def tapValue (tables : RouteTables) (path : List String) (defId node input : String) :
    TapValue × List Diagnostic :=
  let (tapped, sink) := host.tappedInputs path defId node input
  match tapped with
  | .muted => (.muted, sink)
  | .missing | .inputs [] => (.missing, sink)
  | .inputs ((runtimeId, found) :: _) =>
    match canonicalTypeIdOf found.spec.type with
    | none => (.missing, sink)
    | some typeId =>
      match (tables.staged runtimeId found.spec.id).or
          (tables.overrides runtimeId found.spec.id) with
      | some value =>
        let (value, typeId) := readTapped found typeId value
        (.value value typeId, sink)
      | none =>
        match host.tapFallback defId node found with
        | some value =>
          (.value value ((assetSourceTypeOf found value).getD typeId), sink)
        | none => (.missing, sink)

end Host

/-! ## Routing -/

/-- `BypassTrace`: where a route ends. -/
inductive RouteTerminal where
  | output (source : ResolvedOutput)
  | value (value : Json) (typeId : Option String)
  | muted
  | dropped

def RouteTerminal.dead : RouteTerminal → Bool
  | .muted | .dropped => true
  | _ => false

/-- The identity of a routed vertex. -/
inductive RouteKey where
  | bypass (runtimeId : String) (address : PortAddress)
  | endpoint (path : List String) (defId : String) (endpoint : LinkEndpoint)
  deriving DecidableEq

/-- `key`. -/
def routeKey : RouteVertex → RouteKey
  | .bypass path _ ref => .bypass (runtimeIdAt path ref.node) ref.address
  | .endpoint path defId endpoint _ => .endpoint path defId endpoint

def LocatedDriver.vertex (driver : LocatedDriver) : RouteVertex :=
  .endpoint driver.path driver.defId driver.endpoint none

def deadEnd {Hop : Type} (sink : List Diagnostic) : Routed RouteVertex Hop RouteTerminal :=
  ⟨[.terminal .dropped], none, sink⟩

def through {Hop : Type} (vertex : RouteVertex) : Routed RouteVertex Hop RouteTerminal :=
  ⟨[.recurse vertex], none, []⟩

namespace Host

variable (host : Host) (tables : RouteTables)

variable (projection : RouteProjection)

def whenExact (diagnostic : Diagnostic) : List Diagnostic :=
  if projection = .exact then [diagnostic] else []

/-- The successors of a junction. -/
def routeReroute (path : List String) (defId id : String) :
    Routed RouteVertex BypassHop RouteTerminal :=
  match driverIn (host.topologyFor path defId) (.reroute id) with
  | some source => through (.endpoint path defId source none)
  | none =>
    match host.projectedDriver path defId id with
    | some driver => through driver.vertex
    | none => deadEnd (whenExact projection
        (warning "compile.reroute.undriven" s!"Reroute {id}: no input connection" none))

def choicesOf (definition : GraphDef) (selector : String)
    (candidate : Option String) : List String :=
  match candidate with
  | some candidate => [candidate]
  | none =>
    match projection, definition.selector? selector with
    | .exact, _ => (tables.selection definition.id selector).toList
    | .wouldRun, none => []
    | .wouldRun, some data =>
      match data.policy, tables.selection definition.id selector with
      | .fixed _, some candidate => [candidate]
      | _, _ => data.candidates

def routeSelector (path : List String)
    (definition : GraphDef) (selector : String) (candidate : Option String) :
    Routed RouteVertex BypassHop RouteTerminal :=
  let choices := choicesOf tables projection definition selector candidate
  let driverOf := fun candidate =>
    driverIn (host.topologyFor path definition.id) (.selector selector (some candidate))
  if choices.isEmpty then deadEnd []
  else
    { steps := choices.map fun candidate =>
        match driverOf candidate with
        | some source => .recurse (.endpoint path definition.id source none)
        | none => .terminal .dropped
      hop := none
      sink := (choices.filter fun candidate => (driverOf candidate).isNone).flatMap
        fun candidate => whenExact projection
          (warning "compile.selector.undriven"
            s!"Selector {selector}/{candidate}: no input connection" none) }

/-- The successors of a widget tap: the local driver of the tapped input, else its value. -/
def routeTap (path : List String) (defId node input : String) :
    Routed RouteVertex BypassHop RouteTerminal :=
  match driverIn (host.topologyFor path defId) (.port ⟨node, input, []⟩) with
  | some source => through (.endpoint path defId source none)
  | none =>
    match host.tapValue tables path defId node input with
    | (.muted, sink) => ⟨[.terminal .muted], none, sink⟩
    | (.missing, sink) =>
      deadEnd (sink ++ whenExact projection
        (failure "compile.tap.novalue" s!"{node}.{input}: tapped input has no value" none))
    | (.value value typeId, sink) => ⟨[.terminal (.value value (some typeId))], none, sink⟩

/-- The driver of the instance port that promotes a value source, if it has one. -/
def promotedDriver (path : List String) (definition : GraphDef) (id : String) :
    Option LocatedDriver :=
  match path with
  | [] => none
  | inst :: parent =>
    match tables.contexts.lookup parent,
        definition.boundaryInputs.find? (fun item =>
          match item.binds with
          | .valueSource bound _ => bound = id
          | _ => false) with
    | some parentDef, some item =>
      host.driverOfInput tables.contexts parent parentDef inst ⟨item.id, []⟩
    | _, _ => none

/-- The successors of a value source: the driver of its promotion, else its literal. -/
def routeValueSource (path : List String)
    (definition : GraphDef) (id : String) (typeId : Option String) :
    Routed RouteVertex BypassHop RouteTerminal :=
  match host.promotedDriver tables path definition id with
  | some driver => through driver.vertex
  | none =>
    match definition.valueSource? id with
    | none =>
      deadEnd (whenExact projection
        (failure "compile.valueSource.missing"
          s!"route in graph '{definition.id}' references missing value source '{id}'" none))
    | some source =>
      ⟨[.terminal (.value ((tables.sourceValue path id).getD source.value) typeId)], none, []⟩

/-- The successors of an output port. -/
def routePort (delivery : Option Delivery) (path : List String) (defId : String)
    (ref : PortRef) : Routed RouteVertex BypassHop RouteTerminal :=
  match host.resolveOutputPort delivery none host.depth path defId ref [] with
  | (.output source, sink) => ⟨[.terminal (.output source)], none, sink⟩
  | (.onward vertex, sink) => ⟨[.recurse vertex], none, sink⟩
  | (.muted, sink) => ⟨[.terminal .muted], none, sink⟩
  | (.missing, sink) => deadEnd sink

/-- `route`. -/
def routeVertex (consumerType : Option TypeExpr) (delivery : Option Delivery) :
    RouteVertex → Routed RouteVertex BypassHop RouteTerminal
  | .bypass path defId ref =>
    match host.selectBypassHop tables.contexts path defId ref consumerType with
    | some hop => ⟨[.recurse hop.driver.vertex], some hop, []⟩
    | none =>
      deadEnd (if projection = .exact then host.bypassProblem path defId ref else [])
  | .endpoint path defId endpoint typeId =>
    match host.doc.graph? defId with
    | none => deadEnd []
    | some definition =>
      match endpoint with
      | .reroute id => host.routeReroute projection path defId id
      | .selector selector candidate =>
        host.routeSelector tables projection path definition selector candidate
      | .tap node input => host.routeTap tables projection path defId node input
      | .valueSource id =>
        host.routeValueSource tables projection path definition id typeId
      | .port ref => host.routePort delivery path defId ref

/-- What exact lowering reports when a route comes back to a vertex. -/
def cycleProblem : RouteVertex → List Diagnostic
  | .bypass path defId ref =>
    [failure "compile.bypass.cycle"
      s!"bypass passthrough through '{ref.node}' in graph '{defId}' forms a cycle"
      (some (occurrenceAt path ref.node))]
  | .endpoint _ _ (.reroute id) _ =>
    [failure "compile.reroute.cycle" s!"Reroute {id}: connection chain forms a cycle" none]
  | .endpoint _ _ (.selector id _) _ =>
    [failure "compile.selector.cycle" s!"Selector {id}: connection chain forms a cycle" none]
  | .endpoint _ _ (.tap node input) _ =>
    [failure "compile.tap.cycle" s!"{node}.{input}: tap connection forms a cycle" none]
  | .endpoint _ _ _ _ => []

def routeAdapter (consumerType : Option TypeExpr) (delivery : Option Delivery) :
    RoutedProjectionAdapter RouteVertex RouteKey BypassHop RouteTerminal where
  key := routeKey
  route := host.routeVertex tables projection consumerType delivery
  cycle vertex := ([.dropped], if projection = .exact then cycleProblem vertex else [])

/-- `projectRoute`.  A preview has one call more than exact lowering, which has resolved
the port of a link before it routes. -/
def projectRoute (consumerType : Option TypeExpr)
    (delivery : Option Delivery) (start : RouteVertex) : List RouteTerminal × List Diagnostic :=
  let result := traverseRoutedProjection
    (host.routeAdapter tables projection consumerType delivery)
    (if projection = .exact then host.depth else host.depth + 1) [] start
  let note := match result.hops with
    | hop :: _ =>
      if projection = .exact ∧ result.terminals.any (·.dead) then
        [warning "compile.bypass.structuralRouteDropped"
          s!"{hop.node}.{hop.inputId}: selected bypass route has no value" none]
      else []
    | [] => []
  (result.terminals, result.sink ++ note)

end Host

end Dinkster.Compile
