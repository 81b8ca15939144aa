import Dinkster.Compile.Lower

/-!
# The executed scope

A full compile executes the upstream closure of the output nodes, a partial one that of
its targets.  A region is executed as a whole: a target inside a region stands for the
outermost region around it, and an executed region brings in its whole body.
-/

namespace Dinkster.Compile

open Format

inductive ExecutionScope where
  | full
  | targets (targets : List OccurrenceRef)

def FlatNode.inside (fn : FlatNode) (region : RegionLowering) : Bool :=
  region.childPath.isSuffixOf fn.path

namespace Host

variable (host : Host) (mode : Mode)

/-- The stored decision of a lazy selector: a link-fed decision stays neutral. -/
def projectionOf (fn : FlatNode) : Option SelectorProjection :=
  match fn.selector with
  | none => none
  | some selector =>
    match fn.interface.valued? selector.input, fn.interface.valued? selector.whenFalse,
        fn.interface.valued? selector.whenTrue with
    | some decision, some whenFalse, some whenTrue =>
      if decision.spec.id ∈ fn.linkedInputs then none
      else
        match (host.promoted.overrides.lookup (fn.runtimeId, decision.spec.id)).or
            (getField fn.node.values.fields selector.input) with
        | some (.bool choice) => some ⟨choice, whenFalse.spec.id, whenTrue.spec.id⟩
        | _ => none
    | _, _, _ => none

/-- A flattened node as liveness sees it. -/
def routedNode (fn : FlatNode) : RoutedNode where
  runtimeId := fn.runtimeId
  inputs := fn.inputs
  projection := if mode.wouldRun then host.projectionOf fn else none

def isOutputNode (fn : FlatNode) : Bool :=
  ((host.schemaOf fn.graphId fn.node).map (·.isOutputNode)).getD false

variable (flat : List FlatNode)

/-- `enclosingRegionRuntimeId`: the outermost region around a node, else the node. -/
def enclosingRegion (runtimeId : String) : String :=
  match flat.find? (·.runtimeId = runtimeId) with
  | none => runtimeId
  | some fn =>
    let around := host.collected.regions.filter fn.inside
    match around.find? fun region =>
        around.all fun other => region.childPath.length ≤ other.childPath.length with
    | some region => region.runtimeId
    | none => runtimeId

/-- The roots of the closure, and whether there are any: a full compile without output
nodes keeps everything. -/
def scopeRoots : ExecutionScope → List String
  | .full =>
    let roots := (flat.filter host.isOutputNode).map (·.runtimeId)
    if roots.isEmpty then flat.map (·.runtimeId) else roots
  | .targets targets => targets.map fun target => host.enclosingRegion flat (occurrenceKey target)

def scopeCloses : ExecutionScope → Bool
  | .full => flat.any host.isOutputNode
  | .targets _ => true

/-- The instance of a path that is not active, outermost first. -/
def inactiveAncestor : List String → String → Option NodeData
  | [], _ => none
  | inst :: rest, defId =>
    match host.node? defId inst with
    | none => none
    | some node =>
      if node.mode ≠ .active then some node
      else
        match subgraphDefIdOf node.type with
        | some childId => inactiveAncestor rest childId
        | none => none

/-- Why a target is not in the compiled graph. -/
def targetProblem (target : OccurrenceRef) : List Diagnostic :=
  let runtimeId := occurrenceKey target
  if flat.any (·.runtimeId = runtimeId) then []
  else
    match host.collected.unresolved.lookup runtimeId with
    | some type => [failure "compile.schema.unknown" s!"unknown node type '{type}'" (some target)]
    | none =>
      match host.inactiveAncestor target.instancePath host.doc.root with
      | some inst =>
        let state := if inst.mode = .muted then "muted" else "bypassed"
        [failure "compile.scope.inactiveAncestor"
          s!"partial-execution target '{runtimeId}' is inside {state} subgraph instance '{inst.id}' and cannot execute"
          none]
      | none => [failure "compile.scope.missingTarget"
          s!"partial-execution target '{runtimeId}' is not in the compiled graph" none]

def scopeSink : ExecutionScope → List Diagnostic
  | .full => []
  | .targets targets => targets.flatMap (host.targetProblem flat)

/-- Every region around an executed node executes. -/
def addRegions (included : List String) : List String :=
  flat.foldl (fun expanded fn =>
    if fn.runtimeId ∈ expanded then
      expanded ++ (host.collected.regions.filter fn.inside).map (·.runtimeId)
    else expanded) included

/-- The whole body of an executed region executes. -/
def addBodies (included : List String) : List String :=
  host.collected.regions.foldl (fun expanded region =>
    if region.runtimeId ∈ expanded then
      expanded ++ (flat.filter (·.inside region)).map (·.runtimeId)
    else expanded) included

variable (staging : Staging)

def closureOf (scope : ExecutionScope) : List String :=
  if host.scopeCloses staging.flat scope then
    derive (staging.flat.map (host.routedNode mode)) (host.scopeRoots staging.flat scope)
      staging.edges
  else staging.flat.map (·.runtimeId)

/-- The executed scope, `included`. -/
def executed (scope : ExecutionScope) : List String :=
  host.addBodies staging.flat (host.addRegions staging.flat (host.closureOf mode staging scope))

/-- `settleUnknownSchema` on one diagnostic: it stays fatal only when an executed consumer
depends on it. -/
def settle (included : List String) (diagnostic : Diagnostic) : Diagnostic :=
  match diagnostic.dependents with
  | none => diagnostic
  | some dependents =>
    { diagnostic with
      severity := if dependents.any included.contains then diagnostic.severity else .warning
      dependents := none }

/-- Whether two diagnostics report one unresolved occurrence. -/
def sameUnknown (first second : Diagnostic) : Bool :=
  first.code = "compile.schema.unknown" && second.code = "compile.schema.unknown" &&
    first.occurrence.isSome && first.occurrence = second.occurrence

/-- One entry per unresolved occurrence, the fatal one winning. -/
def dedupe (sink : List Diagnostic) : List Diagnostic :=
  sink.foldl (fun kept diagnostic =>
    if kept.any (sameUnknown diagnostic) then
      kept.map fun other =>
        if sameUnknown diagnostic other ∧ diagnostic.severity = .error then
          { other with severity := .error }
        else other
    else kept ++ [diagnostic]) []

def settledSink (scope : ExecutionScope) : List Diagnostic :=
  let sink := staging.sink ++ host.scopeSink staging.flat scope
  let included := host.executed mode staging scope
  let settled :=
    if host.scopeCloses staging.flat scope then sink.map (settle included) else sink
  dedupe settled ++
    (if host.emitRegions then []
      else (host.collected.regions.filter fun region => region.runtimeId ∈ included).map
        fun region => failure "compile.region.backendUnsupported"
          "this backend does not advertise first-class region execution support"
          (some (occurrenceAt region.path region.node.id)))

end Host

end Dinkster.Compile
