import Dinkster.Library.Table

/-!
# Replacements and the views of inputs

A replacement case maps inputs of the target, and of helper nodes that it creates, to inputs of
the node.  A mapping of a value or a whole input onto a widget moves the widget, and with it the
view that the graph keeps for the input.  This module models what the planner and the command
make of these views for a rule without migration.
-/

namespace Dinkster.Replace

open Library

/-- `MappingSource`, as far as widgets and connections go. -/
inductive MappingSource where
  | constant
  | value (input : String)
  | link (input : String)
  | copy (input : String)
  deriving DecidableEq

/-- The helper nodes of a `ReplacementCase`, by local id, and its input mappings. -/
structure ReplacementCase where
  nodes : Option (List String)
  inputs : Table MappingSource

structure TargetAddress where
  localId : Option String
  nodeId : String
  port : String
  deriving DecidableEq

/-- What a target schema says of an input: whether it has a widget, whether the widget is
forced to be an input, and whether it stores the count of an output family. -/
structure InputSpec where
  widget : Bool
  forceInput : Bool
  storesCount : Bool

def helperId (nodeId localId : String) : String :=
  nodeId ++ ":" ++ localId

variable (nodeId : String)

def targetAddress (nodes : Option (List String)) (address : String) : Option TargetAddress :=
  match nodes with
  | none => if address.length > 0 then some ⟨none, nodeId, address⟩ else none
  | some helpers =>
    match address.toList.splitOn ':' with
    | [port] => if port = [] then none else some ⟨none, nodeId, String.ofList port⟩
    | [localId, port] =>
      if localId = [] ∨ port = [] ∨ String.ofList localId ∉ helpers then none
      else some ⟨some (String.ofList localId), helperId nodeId (String.ofList localId),
        String.ofList port⟩
    | _ => none

/-- What the planner keeps while it goes through the mappings. -/
structure Mapped where
  consumedConnections : List String
  widgetMoves : Table (List TargetAddress)

variable (mapped : Mapped)

def Mapped.movesOf (input : String) : List TargetAddress :=
  (mapped.widgetMoves.get input).getD []

def recordWidgetMove (sourceInput : String) (address : TargetAddress) (spec : InputSpec) : Mapped :=
  if ¬ spec.widget ∨ spec.forceInput then mapped
  else { mapped with
    widgetMoves := mapped.widgetMoves.set sourceInput (mapped.movesOf sourceInput ++ [address]) }

/-- `moveConnectionTo`, which refuses a connection that was moved before. -/
def moveConnectionTo (sourceInput : String) : Option Mapped :=
  if sourceInput ∈ mapped.consumedConnections then none
  else some { mapped with consumedConnections := sourceInput :: mapped.consumedConnections }

/-- One mapping of `planReplacementForCase`; `none` is an error.  What elaboration says of the
target schemas is a parameter: the active inputs that no family owns and no dynamic path names. -/
def mapInput (nodes : Option (List String))
    (activeInput : TargetAddress → Option InputSpec) (connected : String → Bool) (mapped : Mapped)
    (entry : String × MappingSource) : Option Mapped := do
  let address ← targetAddress nodeId nodes entry.1
  let spec ← activeInput address
  match entry.2 with
  | .constant => if ¬ spec.widget ∧ ¬ spec.storesCount then none else some mapped
  | .value input =>
    if ¬ spec.widget ∧ ¬ spec.storesCount then none
    else some (recordWidgetMove mapped input address spec)
  | .link input => if spec.storesCount then none else moveConnectionTo mapped input
  | .copy input =>
    if spec.storesCount ∧ connected input then none
    else moveConnectionTo (recordWidgetMove mapped input address spec) input

def mapInputs (case : ReplacementCase)
    (activeInput : TargetAddress → Option InputSpec) (connected : String → Bool) : Option Mapped :=
  case.inputs.foldlM (mapInput nodeId case.nodes activeInput connected) ⟨[], []⟩

/-- A view that moves to another input. -/
structure ViewRewire where
  source : String
  target : String
  node : Option String
  deriving DecidableEq

/-- The views of inputs that a `NodeReplacePlan` is about. -/
structure NodeReplacePlan where
  nodeId : String
  createdNodes : List String
  viewRewires : List ViewRewire

variable {Representation : Type}

def viewRewire (mapped : Mapped) (sourceInput : String) : Option ViewRewire :=
  match mapped.movesOf sourceInput with
  | [address] =>
    if address.nodeId = nodeId ∧ address.port = sourceInput then none
    else some ⟨sourceInput, address.port,
      if address.nodeId = nodeId then none else some address.nodeId⟩
  | _ => none

def inputViews (views : Table (Table Representation)) (nodeId : String) : Table Representation :=
  (views.get nodeId).getD []

/-- `planReplacement` for a case without migration.  The errors of everything but the input
mappings are a parameter. -/
def planReplacement (clean : Bool) (nodeId : String) (case : ReplacementCase)
    (activeInput : TargetAddress → Option InputSpec) (connected : String → Bool)
    (views : Table (Table Representation)) : Option (Mapped × NodeReplacePlan) := do
  let mapped ← mapInputs nodeId case activeInput connected
  if clean then
    return (mapped,
      { nodeId := nodeId
        createdNodes := (case.nodes.getD []).map (helperId nodeId)
        viewRewires :=
          ((inputViews views nodeId).map Prod.fst).filterMap (viewRewire nodeId mapped) })
  else none

/-- One view rewire of `node.replace`. -/
def rewireView (views : Table (Table Representation)) (rewire : ViewRewire) :
    Table (Table Representation) :=
  match (inputViews views nodeId).get rewire.source with
  | none => views
  | some representation =>
    let targetNode := rewire.node.getD nodeId
    let views := views.set targetNode
      ((inputViews views targetNode).set rewire.target representation)
    if targetNode ≠ nodeId ∨ rewire.target ≠ rewire.source then
      views.set nodeId ((inputViews views nodeId).erase rewire.source)
    else views

/-- What `node.replace` makes of the views of inputs: created nodes have none, and the rewires
follow one another. -/
def nodeReplace (plan : NodeReplacePlan) (views : Table (Table Representation)) :
    Table (Table Representation) :=
  plan.viewRewires.foldl (rewireView plan.nodeId) (plan.createdNodes.foldl Table.erase views)

end Dinkster.Replace
