import Dinkster.Compile.Artifact

/-!
# Documents with static interfaces

When no node type has dynamic ports, elaboration is a table: every node has the interface
of its type wherever it occurs, boundaries cross by name, and a nested occurrence has the
topology of its definition.  Such a document compiles with the host below.
-/

namespace Dinkster.Compile

open Format

/-- A static input with a backend name of its own. -/
def staticInput (id : String) (type : TypeExpr) : ElaboratedInput where
  address := ⟨id, []⟩
  apiName := some id
  spec := ⟨elabKeyOf ⟨id, []⟩, type, true, false, none⟩
  filed := rfl
  origin := .static
  synthetic := false
  derivedValue := none
  wire15 := false

def staticOutput (id : String) (type : TypeExpr) : ElaboratedOutput where
  address := ⟨id, []⟩
  id := id
  type := type
  backendId := none
  synthetic := false
  wireable := true

def activeNode (id type : String) (values : List (String × Json))
    (distinct : (values.map (·.1)).Nodup := by first | exact List.nodup_nil | decide) : NodeData :=
  ⟨id, type, false, ⟨values, distinct⟩, .active, [], none⟩

def valuedNode (id type key : String) (value : Json) : NodeData :=
  activeNode id type [(key, value)] (List.nodup_singleton _)

def instanceNode (id definition : String) (region : Option RegionContract) : NodeData :=
  ⟨id, "#" ++ definition, false, ⟨[], List.nodup_nil⟩, .active, [], region⟩

/-- A region that runs its body once for each element of its ports and gathers every
output. -/
def mapRegion (elementPorts : List String) : RegionContract :=
  ⟨"map", some elementPorts, none, [], none, none, none, none⟩

def portLink (id node output target input : String) : LinkData :=
  ⟨id, .port ⟨node, output, []⟩, .port ⟨target, input, []⟩⟩

/-- What a static document knows of a node type. -/
structure NodeType where
  schema : NodeSchema
  interface : Interface

def staticInterface (inputs : List ElaboratedInput) (outputs : List ElaboratedOutput)
    (addressed : (inputs.map (·.address)).Nodup := by first | exact List.nodup_nil | decide)
    (named : (inputs.filterMap (·.submissionName)).Nodup := by first | exact List.nodup_nil | decide) :
    Interface :=
  ⟨inputs, outputs, [], none, [], addressed, by simpa using named⟩

def unaryInterface (input : ElaboratedInput) (outputs : List ElaboratedOutput) : Interface :=
  staticInterface [input] outputs (List.nodup_singleton _) (by cases h : input.submissionName <;> simp [h])

/-- The host of a static document: a table of node types, subgraph instances included. -/
def Host.static (doc : Workflow) (depth : Nat) (types : String → Option NodeType) : Host where
  doc := doc
  depth := depth
  schemaOf _ node := (types node.type).map (·.schema)
  interfaceAt _ defId node :=
    ((((doc.graph? defId).bind (·.node? node)).bind fun data => types data.type).map
      (·.interface)).getD (staticInterface [] [])
  valuesAt _ _ node := node.values
  crossingProblems _ _ := []
  crossing _ _ _ := none
  suppressed _ _ _ := false
  effectiveTopology _ defId := ((doc.graph? defId).map definitionTopology).getD []
  projectedDriver _ _ _ := none
  forwardsCombo _ _ := false
  typesCompatible source target := canonicalTypeIdOf source = canonicalTypeIdOf target
  atomNamesOf
    | .concrete name => some [name]
    | .union names => some names
    | _ => none
  widgetDefault widget := widget.default
  candidateOverride _ _ := none
  emitTypedLiterals := true
  emitDecimalInts := true
  emitRegions := true

/-- A compile without random selectors. -/
def unchosen : Mode := ⟨false, none⟩

/-- Emission that declares no ports and refuses nothing. -/
def unchecked : Emission := ⟨fun _ => [], fun _ => []⟩

end Dinkster.Compile
