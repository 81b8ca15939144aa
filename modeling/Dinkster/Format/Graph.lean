import Dinkster.Format.Ids
import Dinkster.Format.Json
import Dinkster.Format.Types

/-!
# Graph definitions

The part of a workflow document that execution reads: nodes, links, nets, junctions and
the boundary a definition exposes when it is instantiated as a subgraph.  Records keyed
by an id are lists in the order `Object.values` visits them, and an absent member path is
the empty one.
-/

namespace Dinkster.Format

/-- `PortAddress`: a port of a node. -/
structure PortAddress where
  port : String
  members : List String
  deriving DecidableEq

structure PortRef where
  node : String
  port : String
  members : List String
  deriving DecidableEq

/-- `escapeElabSeg` on one character. -/
def escapeElabChar (char : Char) : List Char :=
  if char = '%' then ['%', '2', '5']
  else if char = '#' then ['%', '2', '3']
  else [char]

/-- `elabKeyOf`, the key of a port within its node. -/
def elabKeyOf (address : PortAddress) : String :=
  String.ofList (['#'].intercalate
    ((address.port :: address.members).map fun segment =>
      segment.toList.flatMap escapeElabChar))

/-- The address a port reference names on its node. -/
def PortRef.address (ref : PortRef) : PortAddress :=
  ⟨ref.port, ref.members⟩

inductive LinkEndpoint where
  | port (ref : PortRef)
  | reroute (id : String)
  | valueSource (id : String)
  | selector (id : String) (candidate : Option String)
  | tap (node input : String)
  deriving DecidableEq

/-- The binding kinds that forward a whole construct, `isForwardingBinding`. -/
inductive ForwardKind where
  | family
  | slot
  | dynamicCombo
  deriving DecidableEq

/-- `BoundaryBinding`. -/
inductive Binding where
  | port (ref : PortRef) (viaReroute : Option String)
  | forward (kind : ForwardKind) (ref : PortRef)
  | widgetTap (node input : String)
  | valueSource (id : String) (type : TypeExpr)
  | unbound

/-- `isForwardingBinding`. -/
def Binding.forwards : Binding → Bool
  | .forward .. => true
  | _ => false

def Binding.viaJunction : Binding → Bool
  | .port _ (some _) => true
  | _ => false

structure BoundaryItem where
  id : String
  binds : Binding
  alsoBinds : List Binding
  promoted : Bool

def BoundaryItem.bindings (item : BoundaryItem) : List Binding :=
  item.binds :: item.alsoBinds

/-- `BoundaryRouteLeg`. -/
structure RouteLeg where
  graph : String
  boundaryId : String
  binding : Binding

inductive NodeMode where
  | active
  | muted
  | bypassed
  deriving DecidableEq

/-- `RegionContract.outputRoles`. -/
inductive OutputRole where
  | gather
  | compact
  | flatten
  | last
  | state (statePort : String)
  deriving DecidableEq

structure RegionContract where
  kind : String
  elementPorts : Option (List String)
  statePorts : Option (List String)
  outputRoles : List (String × OutputRole)
  continueOutput : Option String
  binding : Option String
  maxIterations : Option Nat
  cachePolicy : Option String
  deriving DecidableEq

variable (contract : RegionContract)

def RegionContract.role (output : String) : Option OutputRole :=
  contract.outputRoles.lookup output

def RegionContract.stateAlias (output : String) : Option String :=
  match contract.role output with
  | some (.state statePort) => some statePort
  | _ => none

/-- A record of JSON values: its keys are distinct. -/
structure Record where
  fields : List (String × Json)
  distinct : (fields.map (·.1)).Nodup

structure NodeData where
  id : String
  type : String
  isVirtual : Bool
  values : Record
  mode : NodeMode
  additionalInputs : List String
  region : Option RegionContract

/-- `subgraphDefIdOf`: the definition an instance type `#<id>` names. -/
def subgraphDefIdOf (nodeType : String) : Option String :=
  match nodeType.toList with
  | '#' :: rest => some (String.ofList rest)
  | _ => none

structure LinkData where
  id : String
  source : LinkEndpoint
  target : LinkEndpoint

/-- `NamedNetData`. -/
structure NamedNet where
  id : String
  name : String
  source : PortRef
  sinks : List PortRef

inductive SelectorPolicy where
  | fixed (candidate : String)
  | random
  deriving DecidableEq

structure SelectorData where
  id : String
  candidates : List String
  policy : SelectorPolicy

structure ValueSourceData where
  id : String
  value : Json

structure GraphDef where
  id : String
  nodes : List NodeData
  links : List LinkData
  nets : List NamedNet
  reroutes : List String
  selectors : List SelectorData
  valueSources : List ValueSourceData
  boundary : Option (List BoundaryItem × List BoundaryItem)

namespace GraphDef

variable (definition : GraphDef)

variable (id : String)

/-- `def.nodes[id]`. -/
def node? : Option NodeData :=
  definition.nodes.find? (·.id = id)

/-- `def.selectors?.[id]`. -/
def selector? : Option SelectorData :=
  definition.selectors.find? (·.id = id)

/-- `def.valueSources?.[id]`. -/
def valueSource? : Option ValueSourceData :=
  definition.valueSources.find? (·.id = id)

/-- `def.boundary?.inputs ?? []`. -/
def boundaryInputs : List BoundaryItem :=
  match definition.boundary with
  | some (inputs, _) => inputs
  | none => []

/-- `def.boundary?.outputs ?? []`. -/
def boundaryOutputs : List BoundaryItem :=
  match definition.boundary with
  | some (_, outputs) => outputs
  | none => []

end GraphDef

/-- `WorkflowDocument`, as far as execution reads it. -/
structure Workflow where
  root : String
  graphs : List GraphDef

/-- `doc.graphs[id]`. -/
def Workflow.graph? (doc : Workflow) (id : String) : Option GraphDef :=
  doc.graphs.find? (·.id = id)

inductive BoundaryMatch where
  | item (item : BoundaryItem)
  | missing
  | ambiguous (message : String)

def BoundaryItem.fits (item : BoundaryItem) (address : PortAddress) : Bool :=
  if item.binds.forwards then
    address.port = item.id || (item.id ++ ".").toList.isPrefixOf address.port.toList
  else address.port = item.id && address.members = []

/-- `matchBoundaryItem`: the one item an instance-side address refers to. -/
def matchBoundaryItem (items : List BoundaryItem) (address : PortAddress) : BoundaryMatch :=
  match items.filter (·.fits address) with
  | [item] => .item item
  | [] => .missing
  | candidates =>
    let listed := ", ".intercalate (candidates.map fun item => "'" ++ item.id ++ "'")
    .ambiguous s!"address '{address.port}' matches {candidates.length} boundary items ({listed}); dotted boundary ids collide"

end Dinkster.Format
