import Dinkster.Topology.Overlay

/-!
# Effective topologies

The links that are in force inside one occurrence are those of its definition and of its
overlay, less the suppressed ones, and the deliveries of the occurrence around it that cross
its boundary.  What is in force inside the occurrence around it is built first, so a delivery
may come through any number of boundaries.
-/

namespace Dinkster.Topology

open Format Compile

/-- The side of a link that is resolved. -/
inductive Side where
  | source
  | target
  deriving DecidableEq

/-- The persisted coordinate a resolved endpoint comes from. -/
inductive EndpointOrigin where
  | definition (endpoint : LinkEndpoint)
  | parent (endpoint : LinkEndpoint)
  | occurrence (owner : List String) (endpoint : OccurrenceLinkEndpoint)

/-- `ResolvedOccurrenceEndpoint`. -/
structure ResolvedEndpoint where
  graphId : String
  instancePath : List String
  endpoint : LinkEndpoint
  origin : EndpointOrigin

inductive EffectiveLinkIdentity where
  | definition (graphId linkId : String)
  | parent (graphId linkId : String)
  | definitionNetSink (graphId netId : String) (target : PortRef)
  | parentNetSink (graphId netId : String) (target : PortRef)
  | parentLeg (delivery : Delivery) (route : List RouteLeg)
  | occurrence (owner : List String) (linkId : String)

structure EffectiveLink where
  identity : EffectiveLinkIdentity
  source : ResolvedEndpoint
  target : ResolvedEndpoint

structure ProjectableLink where
  link : EffectiveLink
  delivery : Option Delivery
  route : List RouteLeg

/-- What the topology of an occurrence consults as functions: the targets of a forwarded
boundary item of an occurrence, each with its translation of an instance-side address, or
why there are none; and what the checks of an overlaid body report about its links. -/
structure TopologyEnvironment where
  crossing : List String → String →
    Except Refusal (List (PortAddress → Except Refusal PortRef))
  validation : List String → List EffectiveLink → List EffectiveLink → List Diagnostic

/-- What an endpoint resolves to, or what is reported about it. -/
abbrev Resolution := Except (List Diagnostic)

/-- The coordinate a route ends at. -/
structure Coordinate where
  graphId : String
  path : List String
  endpoint : LinkEndpoint

/-- The key of an occurrence in a message. -/
def ownerText : List String → String
  | [] => ""
  | node :: parent => runtimeIdAt parent node

def routeMissing (message : String) : List Diagnostic :=
  [failure "occurrence.topology.routeMissing" message none]

def boundaryItems (graph : GraphDef) : Side → List BoundaryItem
  | .source => graph.boundaryOutputs
  | .target => graph.boundaryInputs

def itemForRoute (graph : GraphDef) (side : Side) (boundaryId : String) : Option BoundaryItem :=
  (boundaryItems graph side).find? (·.id = boundaryId)

def matchingBindings (item : BoundaryItem) (binding : Binding) : List (Binding × Nat) :=
  item.bindings.zipIdx.filter fun entry =>
    boundaryBindingIdentity entry.1 = boundaryBindingIdentity binding

section Resolving

variable (document : OccurrenceDocument) (env : TopologyEnvironment)

def innerPort (occurrence : List String) (item : BoundaryItem) (index : Nat)
    (address : PortAddress) (graph : GraphDef) : Binding → Resolution PortRef
  | .port ref _ => .ok ref
  | .forward _ _ =>
    match env.crossing occurrence item.id with
    | .error _ => .error (routeMissing
        s!"route leg '{item.id}' in graph '{graph.id}' has no current family crossing")
    | .ok targets =>
      match targets[index]? with
      | none => .error (routeMissing
          s!"route leg '{item.id}' in graph '{graph.id}' has no current family crossing")
      | some translate =>
        match translate address with
        | .error refusal => .error [failure refusal.code refusal.message none]
        | .ok ref => .ok ref
  | _ => .error []

/-- Where one leg of a route leads: it ends, or goes on below an inner port. -/
inductive LegEnd where
  | ends (endpoint : LinkEndpoint)
  | onward (ref : PortRef)

def legEnd (side : Side) (last : Bool) (occurrence : List String) (graph : GraphDef)
    (item : BoundaryItem) (address : PortAddress) (leg : RouteLeg) : Resolution LegEnd :=
  match matchingBindings item leg.binding with
  | [(.valueSource id _, _)] =>
    if side = .source ∧ last ∧ (graph.valueSource? id).isSome then .ok (.ends (.valueSource id))
    else .error (routeMissing
      s!"value source route leg '{leg.boundaryId}' must terminate an output route at an existing source")
  | [(.widgetTap node input, _)] =>
    if side = .source ∧ last then .ok (.ends (.tap node input))
    else .error (routeMissing
      s!"widget tap route leg '{leg.boundaryId}' must terminate an output route")
  | [(.port _ (some reroute), _)] =>
    if side = .target ∧ last ∧ graph.reroutes.contains reroute then
      .ok (.ends (.reroute reroute))
    else .error (routeMissing
      s!"junction route leg '{leg.boundaryId}' must terminate an input route")
  | [(binding, index)] =>
    (innerPort env occurrence item index address graph binding).map .onward
  | found => .error [failure
      (if found.isEmpty then "occurrence.topology.routeMissing"
        else "occurrence.topology.routeAmbiguous")
      s!"route leg '{leg.boundaryId}' in graph '{leg.graph}' matches {found.length} current bindings"
      none]

def walkRoute (side : Side) : List RouteLeg → List String → PortAddress → Option Coordinate →
      Resolution (Option Coordinate)
  | [], _, _, final => .ok final
  | leg :: rest, occurrence, address, _ =>
    match document.resolveOwner occurrence with
    | none => .error (routeMissing
        s!"route leg '{leg.boundaryId}' does not resolve graph '{leg.graph}' from occurrence '{ownerText occurrence}'")
    | some owner =>
      if owner.bodyGraph.id ≠ leg.graph then .error (routeMissing
        s!"route leg '{leg.boundaryId}' does not resolve graph '{leg.graph}' from occurrence '{ownerText occurrence}'")
      else
        match itemForRoute owner.bodyGraph side leg.boundaryId with
        | none => .error (routeMissing
            s!"route leg '{leg.boundaryId}' is missing from graph '{leg.graph}'")
        | some item =>
          match legEnd env side rest.isEmpty occurrence owner.bodyGraph item address leg with
          | .error sink => .error sink
          | .ok (.ends endpoint) =>
            walkRoute side rest occurrence address
              (some ⟨owner.bodyGraph.id, occurrence, endpoint⟩)
          | .ok (.onward ref) =>
            walkRoute side rest (ref.node :: occurrence) ref.address
              (some ⟨owner.bodyGraph.id, occurrence, .port ref⟩)

def misplacedIndex (place : ResolvedOwner) (side : Side) : LinkEndpoint → Bool
  | .port ref => ref.node = regionPseudoNode &&
      (side ≠ .source || ref.port ≠ "index" || ref.members ≠ [] || place.node.region.isNone)
  | _ => false

variable (owner : List String)

def resolveOccurrenceEndpoint (place : ResolvedOwner)
    (endpoint : OccurrenceLinkEndpoint) (side : Side) : Resolution ResolvedEndpoint :=
  match endpoint with
  | .body inner =>
    if misplacedIndex place side inner then .error [failure "occurrence.topology.regionIndex"
      "'$region.index' is a source only inside its immediate region occurrence" none]
    else .ok ⟨place.bodyGraph.id, owner, inner, .occurrence owner endpoint⟩
  | .boundary occurrence address route =>
    if !occurrence.isSuffixOf owner then .error [failure "occurrence.topology.routeOwner"
      s!"occurrence endpoint '{ownerText occurrence}' is not an ancestor of '{ownerText owner}'"
      none]
    else
      match walkRoute document env side route occurrence address none with
      | .error sink => .error sink
      | .ok (some final) =>
        if final.graphId = place.bodyGraph.id then
          .ok ⟨final.graphId, final.path, final.endpoint, .occurrence owner endpoint⟩
        else .error (routeMissing
          s!"route for occurrence '{ownerText owner}' does not terminate in body graph '{place.bodyGraph.id}'")
      | .ok none => .error (routeMissing
          s!"route for occurrence '{ownerText owner}' does not terminate in body graph '{place.bodyGraph.id}'")

def addressedItem (graph : GraphDef) (side : Side) (ref : PortRef) : Option BoundaryItem :=
  match (boundaryItems graph side).filter (·.fits ref.address) with
  | [item] => some item
  | _ => none

/-- What one binding of an addressed item leads to: a promoted literal consumes no link. -/
def projectedEndpoint (place : ResolvedOwner) (ref : PortRef) (side : Side)
    (item : BoundaryItem) (binding : Binding) : Option (Resolution (ResolvedEndpoint × RouteLeg)) :=
  let leg : RouteLeg := ⟨place.bodyGraph.id, item.id, binding⟩
  match side, binding with
  | .target, .valueSource .. => none
  | _, _ => some ((resolveOccurrenceEndpoint document env owner place
      (.boundary owner ref.address [leg]) side).map fun endpoint => (endpoint, leg))

/-- `projectedEndpoints`, with what is reported about those that are not. -/
def projectedEndpoints (place : ResolvedOwner) (ref : PortRef)
    (side : Side) : List (Resolution (ResolvedEndpoint × RouteLeg)) :=
  match addressedItem place.bodyGraph side ref with
  | none => []
  | some item =>
    item.bindings.filterMap (projectedEndpoint document env owner place ref side item)

variable (link : EffectiveLink)

def EffectiveLink.ending : Side → ResolvedEndpoint
  | .source => link.source
  | .target => link.target

/-- A link with one end replaced. -/
def EffectiveLink.redirect (side : Side) (endpoint : ResolvedEndpoint)
    (identity : EffectiveLinkIdentity) : EffectiveLink :=
  match side with
  | .source => { link with source := endpoint, identity }
  | .target => { link with target := endpoint, identity }

/-- A delivery that crosses a boundary on one side, unless the leg is suppressed. -/
def projectLeg (topology : Option OccurrenceTopology) (delivery : ProjectableLink) (side : Side)
    (leg : ResolvedEndpoint × RouteLeg) : Option ProjectableLink :=
  let route := delivery.route ++ [leg.2]
  match delivery.delivery with
  | some identity =>
    if topology.any (·.suppresses (.projectedLeg identity route)) then none
    else some ⟨delivery.link.redirect side leg.1 (.parentLeg identity route),
      some identity, route⟩
  | none => some ⟨delivery.link.redirect side leg.1 delivery.link.identity, none, route⟩

variable (node : String)

def projectSide (parent : List String) (place : ResolvedOwner) (side : Side)
    (delivery : ProjectableLink) : List (Resolution (ResolvedEndpoint × RouteLeg)) :=
  match (delivery.link.ending side).endpoint with
  | .port ref =>
    if ref.node = node then projectedEndpoints document env (node :: parent) place ref side
    else []
  | _ => []

/-- `project`: the links a delivery projects to, on both sides. -/
def project (parent : List String) (place : ResolvedOwner)
    (topology : Option OccurrenceTopology) (delivery : ProjectableLink) : List ProjectableLink :=
  [Side.source, .target].flatMap fun side =>
    ((projectSide document env node parent place side delivery).filterMap fun leg =>
      leg.toOption).filterMap (projectLeg topology delivery side)

def projectSink (parent : List String) (place : ResolvedOwner)
    (delivery : ProjectableLink) : List Diagnostic :=
  [Side.source, .target].flatMap fun side =>
    (projectSide document env node parent place side delivery).flatMap fun leg =>
      match leg with
      | .ok _ => []
      | .error sink => sink

def rootDeliveries (graph : GraphDef) : List ProjectableLink :=
  let located := fun endpoint : LinkEndpoint =>
    (⟨graph.id, [], endpoint, .parent endpoint⟩ : ResolvedEndpoint)
  (graph.links.map fun link =>
    ⟨⟨.parent graph.id link.id, located link.source, located link.target⟩,
      some (.link graph.id link.id), []⟩) ++
  graph.nets.flatMap fun net => net.sinks.map fun sink =>
    ⟨⟨.parentNetSink graph.id net.id sink, located (.port net.source), located (.port sink)⟩,
      some (.netSink graph.id net.id sink), []⟩

/-- The links and net sinks of a definition that an overlay leaves in force. -/
def definitionDeliveries (graph : GraphDef)
    (topology : Option OccurrenceTopology) : List ProjectableLink :=
  let located := fun endpoint : LinkEndpoint =>
    (⟨graph.id, owner, endpoint, .definition endpoint⟩ : ResolvedEndpoint)
  ((graph.links.filter fun link => !topology.any (·.suppresses (.link link.id))).map fun link =>
    ⟨⟨.definition graph.id link.id, located link.source, located link.target⟩,
      some (.link graph.id link.id), []⟩) ++
  graph.nets.flatMap fun net =>
    (net.sinks.filter fun sink => !topology.any (·.suppresses (.netSink net.id sink))).map
      fun sink =>
        ⟨⟨.definitionNetSink graph.id net.id sink, located (.port net.source),
          located (.port sink)⟩, some (.netSink graph.id net.id sink), []⟩

def overlayLink (place : ResolvedOwner) (link : OccurrenceLink) :
    Resolution ResolvedEndpoint × Resolution ResolvedEndpoint :=
  (resolveOccurrenceEndpoint document env owner place link.source .source,
    resolveOccurrenceEndpoint document env owner place link.target .target)

def overlayDeliveries (place : ResolvedOwner)
    (topology : Option OccurrenceTopology) : List ProjectableLink :=
  ((topology.map (·.links)).getD []).filterMap fun link =>
    match overlayLink document env owner place link with
    | (.ok source, .ok target) => some ⟨⟨.occurrence owner link.id, source, target⟩, none, []⟩
    | _ => none

/-- What is reported about the links of an overlay. -/
def overlaySink (place : ResolvedOwner) (topology : Option OccurrenceTopology) : List Diagnostic :=
  ((topology.map (·.links)).getD []).flatMap fun link =>
    let reported := fun side : Resolution ResolvedEndpoint =>
      match side with
      | .ok _ => []
      | .error sink => sink
    let ends := overlayLink document env owner place link
    reported ends.1 ++ reported ends.2

/-- What is in force inside an occurrence itself. -/
def ownDeliveries (place : ResolvedOwner)
    (topology : Option OccurrenceTopology) : List ProjectableLink :=
  definitionDeliveries owner place.bodyGraph topology ++
    overlayDeliveries document env owner place topology

/-- What the next occurrence inside sees of a delivery. -/
def ProjectableLink.inherited (delivery : ProjectableLink) : ProjectableLink :=
  { delivery with
    link := { delivery.link with
      identity := match delivery.link.identity with
        | .definition graphId linkId => .parent graphId linkId
        | .definitionNetSink graphId netId target => .parentNetSink graphId netId target
        | identity => identity } }

/-- The reports of endpoints that two links drive. -/
def multipleDrivers : List EffectiveLink → List LinkEndpoint → List Diagnostic
  | [], _ => []
  | link :: rest, driven =>
    if driven.contains link.target.endpoint then
      failure "occurrence.topology.multipleDrivers" "effective endpoint has multiple drivers" none
        :: multipleDrivers rest driven
    else multipleDrivers rest (link.target.endpoint :: driven)

/-- `BuiltEffectiveOccurrenceTopology`. -/
structure EffectiveTopology where
  bodyGraph : Option GraphDef
  links : List EffectiveLink
  projectedParentLinks : List EffectiveLink
  diagnostics : List Diagnostic
  projectable : List ProjectableLink

def EffectiveTopology.refused (bodyGraph : Option GraphDef) (diagnostic : Diagnostic) :
    EffectiveTopology :=
  ⟨bodyGraph, [], [], [diagnostic], []⟩

/-- The topology of an occurrence that resolved, given the deliveries of the occurrence around
it and what was reported about them. -/
def assembleTopology (parent : List String) (place : ResolvedOwner)
    (around : List ProjectableLink) (aroundSink : List Diagnostic) : EffectiveTopology :=
  let owner := node :: parent
  let topology := document.topology? owner
  let own := ownDeliveries document env owner place topology
  let links := own.map (·.link)
  let projected := around.flatMap (project document env node parent place topology)
  let projectedParentLinks := projected.map (·.link)
  let driven :=
    if document.occurrenceTopologies.isNone then links
    else links ++ projectedParentLinks.filter (·.target.graphId = place.bodyGraph.id)
  { bodyGraph := some place.bodyGraph
    links
    projectedParentLinks
    diagnostics := overlaySink document env owner place topology ++ aroundSink ++
      around.flatMap (projectSink document env node parent place) ++
      multipleDrivers driven [] ++
      (if topology.isSome then env.validation owner links projectedParentLinks else [])
    projectable := own ++ projected }

def buildEffectiveOccurrenceTopology : List String → EffectiveTopology
  | [] => .refused (document.graph? document.root)
      (failure "occurrence.topology.ownerMissing" "no occurrence" none)
  | node :: parent =>
    let owner := node :: parent
    match document.resolveOwner owner with
    | none => .refused (document.graph? document.root)
        (failure "occurrence.topology.ownerMissing"
          s!"occurrence '{ownerText owner}' does not resolve to a subgraph instance" none)
    | some place =>
      if (document.topology? owner).any (·.bodyGraph ≠ place.bodyGraph.id) then
        .refused (some place.bodyGraph) (failure "occurrence.topology.bodyMismatch"
          s!"occurrence '{ownerText owner}' records another body, but resolves to '{place.bodyGraph.id}'"
          none)
      else
        match parent with
        | [] => assembleTopology document env node [] place (rootDeliveries place.parentGraph) []
        | hop :: above =>
          let around := buildEffectiveOccurrenceTopology (hop :: above)
          assembleTopology document env node (hop :: above) place
            (around.projectable.map (·.inherited)) around.diagnostics

structure PlannedLink where
  identity : EffectiveLinkIdentity
  source : LinkEndpoint
  target : LinkEndpoint

/-- A planned link across the boundary: its ends are in graphs of their own. -/
structure PlannedParentLink where
  identity : EffectiveLinkIdentity
  sourceGraph : String
  source : LinkEndpoint
  targetGraph : String
  target : LinkEndpoint

/-- `FlattenOccurrenceTopologyPlan`. -/
structure FlattenPlan where
  owner : List String
  links : List PlannedLink
  projectedParentLinks : List PlannedParentLink

def plannedLink : PlannedLink :=
  ⟨link.identity, link.source.endpoint, link.target.endpoint⟩

def plannedParentLink : PlannedParentLink :=
  ⟨link.identity, link.source.graphId, link.source.endpoint, link.target.graphId,
    link.target.endpoint⟩

/-- `planFlattenOccurrenceTopology`: only an occurrence with an overlay needs a plan. -/
def planFlattenOccurrenceTopology : Option FlattenPlan × List Diagnostic :=
  if (document.topology? owner).isNone then (none, [])
  else
    let effective := buildEffectiveOccurrenceTopology document env owner
    if hasErrors effective.diagnostics then (none, effective.diagnostics)
    else (some ⟨owner, effective.links.map plannedLink,
      effective.projectedParentLinks.map plannedParentLink⟩, effective.diagnostics)

end Resolving

end Dinkster.Topology
