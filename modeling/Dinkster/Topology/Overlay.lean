import Dinkster.Compile.Resolve

/-!
# Topology overlays

A document may give one occurrence of a definition links of its own and take deliveries of
the definition, or of the occurrences around it, away from it.  Such an overlay is owned by
the occurrence.  Two bindings, and two deliveries, are the same when their canonical keys are;
a key is kept here as the value that the source turns into text.

An occurrence is the list of the instance nodes that lead to it, innermost first.
-/

namespace Dinkster.Topology

open Format Compile

/-- The index of a tuple element as the document stores it. -/
def indexJson : TupleIndex → Json
  | .position value => .num value
  | .input id => .str id

mutual

/-- A type expression as the document stores it. -/
def typeJson : TypeExpr → Json
  | .concrete name => .obj [("kind", .str "concrete"), ("name", .str name)]
  | .union names => .obj [("kind", .str "union"), ("names", .arr (names.map Json.str))]
  | .wildcard => .obj [("kind", .str "wildcard")]
  | .variable templateId none =>
    .obj [("kind", .str "variable"), ("templateId", .str templateId)]
  | .variable templateId (some allowed) =>
    .obj [("kind", .str "variable"), ("templateId", .str templateId),
      ("allowedTypes", .arr (typeJsons allowed))]
  | .list element => .obj [("kind", .str "list"), ("element", typeJson element)]
  | .asset element => .obj [("kind", .str "asset"), ("element", typeJson element)]
  | .stream element => .obj [("kind", .str "stream"), ("element", typeJson element)]
  | .tuple elements => .obj [("kind", .str "tuple"), ("elements", .arr (typeJsons elements))]
  | .familyTuple input => .obj [("kind", .str "family_tuple"), ("input", .str input)]
  | .tupleElement input none index =>
    .obj [("kind", .str "tuple_element"), ("input", (input.map Json.str).getD .null),
      ("index", indexJson index)]
  | .tupleElement input (some element) index =>
    .obj [("kind", .str "tuple_element"), ("input", (input.map Json.str).getD .null),
      ("element", typeJson element), ("index", indexJson index)]

def typeJsons : List TypeExpr → List Json
  | [] => []
  | first :: rest => typeJson first :: typeJsons rest

end

def forwardText : ForwardKind → String
  | .family => "family"
  | .slot => "slot"
  | .dynamicCombo => "dynamicCombo"

def boundaryBindingIdentity : Binding → List Json
  | .unbound => [.str "unbound"]
  | .valueSource id type => [.str "valueSource", .str id, typeJson type]
  | .widgetTap node input => [.str "widgetTap", .str node, .str input]
  | .port ref viaReroute =>
    [.str "port", .str ref.node, .str ref.port, .arr (ref.members.map Json.str)] ++
      (viaReroute.map Json.str).toList
  | .forward kind ref =>
    [.str (forwardText kind), .str ref.node, .str ref.port, .arr (ref.members.map Json.str)]

def boundaryRouteKey (route : List RouteLeg) : Json :=
  .arr (route.map fun leg =>
    .arr [.str leg.graph, .str leg.boundaryId, .arr (boundaryBindingIdentity leg.binding)])

def portRefIdentity (ref : PortRef) : Json :=
  .arr [.str ref.node, .str ref.port, .arr (ref.members.map Json.str)]

inductive SuppressedDelivery where
  | link (linkId : String)
  | netSink (netId : String) (target : PortRef)
  | projectedLeg (delivery : Delivery) (route : List RouteLeg)

def suppressedDeliveryKey : SuppressedDelivery → Json
  | .link linkId => .arr [.str "link", .str linkId]
  | .netSink netId target => .arr [.str "netSink", .str netId, portRefIdentity target]
  | .projectedLeg (.link graph linkId) route =>
    .arr [.str "projectedLeg", .arr [.str "link", .str graph, .str linkId],
      boundaryRouteKey route]
  | .projectedLeg (.netSink graph netId target) route =>
    .arr [.str "projectedLeg",
      .arr [.str "netSink", .str graph, .str netId, portRefIdentity target],
      boundaryRouteKey route]

inductive OccurrenceLinkEndpoint where
  | body (endpoint : LinkEndpoint)
  | boundary (occurrence : List String) (address : PortAddress) (route : List RouteLeg)

/-- `OccurrenceLinkData`. -/
structure OccurrenceLink where
  id : String
  source : OccurrenceLinkEndpoint
  target : OccurrenceLinkEndpoint

/-- `OccurrenceTopology`, as far as deliveries go. -/
structure OccurrenceTopology where
  bodyGraph : String
  links : List OccurrenceLink
  suppressedDeliveries : List SuppressedDelivery

/-- Whether an overlay takes a delivery away. -/
def OccurrenceTopology.suppresses (topology : OccurrenceTopology)
    (delivery : SuppressedDelivery) : Bool :=
  topology.suppressedDeliveries.any fun suppressed =>
    suppressedDeliveryKey suppressed = suppressedDeliveryKey delivery

/-- A workflow with its overlays, filed under their owners. -/
structure OccurrenceDocument extends Workflow where
  occurrenceTopologies : Option (List (List String × OccurrenceTopology))

def OccurrenceDocument.topology? (document : OccurrenceDocument) (owner : List String) :
    Option OccurrenceTopology :=
  document.occurrenceTopologies.bind (·.lookup owner)

/-- `ResolvedOwner`, for the occurrence of a node below a parent path. -/
structure ResolvedOwner where
  parentGraph : GraphDef
  node : NodeData
  bodyGraph : GraphDef

namespace OccurrenceDocument

variable (document : OccurrenceDocument)

/-- The definition that a path of instance nodes leads to. -/
def graphAt : List String → Option GraphDef
  | [] => document.graph? document.root
  | hop :: parent => do
    let graph ← graphAt parent
    let node ← graph.node? hop
    document.graph? (← subgraphDefIdOf node.type)

def resolveOwner : List String → Option ResolvedOwner
  | [] => none
  | hop :: parent => do
    let graph ← document.graphAt parent
    let node ← graph.node? hop
    let body ← document.graph? (← subgraphDefIdOf node.type)
    return ⟨graph, node, body⟩

end OccurrenceDocument

end Dinkster.Topology
