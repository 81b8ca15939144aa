import Dinkster.Compile.Collect

/-!
# Lowering connections

Links are lowered occurrence by occurrence onto the staged literals: a connection that
delivers replaces what its consumer had staged, by the output of a flattened node or by a
literal that its route ends at.  The inputs of a region's body that its boundary feeds are
lowered last, to reads of the region's pseudo-node.  A preview lowers the same way and
records, for each consumer input, every producer that some candidate of a random selector
would deliver.
-/

namespace Dinkster.Compile

open Format

/-- Whether a compile is a preview, and the chooser that random selectors draw from: the
raw number it returns, which may not be finite. -/
structure Mode where
  wouldRun : Bool
  pickCandidate : Option (String → String → Nat → Option Rat)

/-- The position a raw draw selects. -/
def drawnIndex (count : Nat) (raw : Option Rat) : Nat :=
  match raw with
  | some draw => min (count - 1) draw.floor.toNat
  | none => 0

namespace Host

variable (host : Host) (mode : Mode)

/-- `selectorResolutionFor` on one selector: the candidate, or why there is none. -/
def resolveSelector (defId : String) (selector : SelectorData) : Option String × List Diagnostic :=
  match host.candidateOverride defId selector.id with
  | some replayed =>
    if replayed ∈ selector.candidates then (some replayed, [])
    else (none, [failure "compile.selector.overrideDangling"
      s!"selector '{selector.id}' in graph '{defId}' cannot replay missing candidate '{replayed}'"
      none])
  | none =>
    match selector.policy with
    | .fixed candidate =>
      if candidate ∈ selector.candidates then (some candidate, [])
      else (none, [failure "compile.selector.policyDangling"
        s!"selector '{selector.id}' in graph '{defId}' has a fixed policy naming missing candidate '{candidate}'"
        none])
    | .random =>
      match selector.candidates, mode.pickCandidate with
      | [], _ => (none, [failure "compile.selector.empty"
          s!"selector '{selector.id}' in graph '{defId}' has a random policy but no candidates"
          none])
      | first :: _, none =>
        if mode.wouldRun then (some first, [])
        else (none, [failure "compile.selector.noChooser"
          s!"selector '{selector.id}' in graph '{defId}' has a random policy but no pickCandidate chooser was provided"
          none])
      | candidates, some pick =>
        (candidates[drawnIndex candidates.length
          (pick defId selector.id candidates.length)]?, [])

/-- The chosen candidate of a selector of a definition. -/
def selection (defId selector : String) : Option String :=
  ((host.doc.graph? defId).bind (·.selector? selector)).bind fun data =>
    (host.resolveSelector mode defId data).1

/-- The policy problems of the selectors of a definition. -/
def selectionSink (defId : String) : List Diagnostic :=
  match host.doc.graph? defId with
  | some definition => definition.selectors.flatMap fun data =>
    (host.resolveSelector mode defId data).2
  | none => []

end Host

/-- What lowering threads: the flattened nodes, the destinations delivered to, the
producers a preview recorded, and the diagnostics. -/
structure Staging where
  flat : List FlatNode
  delivered : List (String × PortAddress)
  edges : WouldRunEdges
  sink : List Diagnostic

/-- A delivery to one input of a node: it is recorded as linked or not. -/
def FlatNode.receive (fn : FlatNode) (key : String) (value : Json) (linked : Bool) : FlatNode :=
  { fn with
    inputs := setField fn.inputs key value
    linkedInputs :=
      if linked then key :: fn.linkedInputs else fn.linkedInputs.filter (· ≠ key) }

namespace Staging

variable (staging : Staging)

/-- `flat.get`. -/
def node? (runtimeId : String) : Option FlatNode :=
  staging.flat.find? (·.runtimeId = runtimeId)

def has (runtimeId : String) : Bool :=
  staging.flat.any (·.runtimeId = runtimeId)

def report (diagnostics : List Diagnostic) : Staging :=
  { staging with sink := staging.sink ++ diagnostics }

/-- Deliver a value to an input of a flattened node, `recordSuccessfulDelivery`. -/
def deliver (runtimeId : String) (input : ElaboratedInput)
    (value : Json) (linked : Bool) : Staging :=
  { staging with
    flat := staging.flat.map fun fn =>
      if fn.runtimeId = runtimeId then fn.receive input.spec.id value linked else fn
    delivered := staging.delivered ++ [(runtimeId, input.address)] }

end Staging

/-- `attachUnknownSchemaDependents`. -/
def attachDependents (sink : List Diagnostic) (dependents : List String) : List Diagnostic :=
  sink.map fun diagnostic =>
    { diagnostic with dependents := diagnostic.dependents.map (· ++ dependents) }

/-- The staged value of a link: the runtime id of the producer and its wire index. -/
def linkValue (source : ResolvedOutput) : Json :=
  .arr [.str source.runtimeId, .num source.outputIndex]

namespace Host

variable (host : Host) (mode : Mode)

variable (staging : Staging)

/-- What routing reads while links are being lowered. -/
def tables : RouteTables where
  contexts := host.collected.contexts
  staged runtimeId key := (staging.node? runtimeId).bind fun fn => getField fn.inputs key
  overrides runtimeId key := host.promoted.overrides.lookup (runtimeId, key)
  sourceValue path id := host.promoted.sourceValues.lookup (path, id)
  selection := host.selection mode

variable (path : List String)

/-- Which connections are lowered: those into a port.  Connections into a junction are
structural, and the tapped input of a tap has to exist and have a concrete type. -/
def admission (defId : String) (connection : TopologyConnection) :
    Option PortRef × List Diagnostic :=
  let problem : List Diagnostic :=
    match connection.source with
    | .tap node input =>
      match (host.tappedInputs path defId node input).1 with
      | .missing => [failure "compile.tap.missingInput"
          s!"{node}.{input}: tapped input is missing in graph {defId}" none]
      | .muted => []
      | .inputs inputs =>
        if inputs.any fun entry => (canonicalTypeIdOf entry.2.spec.type).isNone then
          [failure "compile.tap.nonConcrete"
            s!"{node}.{input}: tapped input has no concrete type" none]
        else []
    | _ => []
  if !problem.isEmpty then (none, problem)
  else
    match connection.target with
    | .port ref => (some ref, [])
    | .reroute _ => (none, [])
    | .selector _ (some _) => (none, [])
    | .selector _ none => (none, [failure "compile.link.invalidTarget"
        s!"{connection.what} in graph '{defId}' targets a selector output; selector outputs have no inputs"
        none])
    | .valueSource _ => (none, [failure "compile.link.invalidTarget"
        s!"{connection.what} in graph '{defId}' targets a value source; value sources have no inputs"
        none])
    | .tap _ _ => (none, [failure "compile.link.invalidTarget"
        s!"{connection.what} in graph '{defId}' targets a widget tap; widget taps have no inputs"
        none])

/-- The connections of an occurrence that are lowered, with the ports they end at. -/
def admitted (defId : String) : List (TopologyConnection × PortRef) :=
  (host.topologyFor path defId).filterMap fun connection =>
    (host.admission path defId connection).1.map fun target => (connection, target)

/-- The problems of the connections of an occurrence. -/
def admissionSink (defId : String) : List Diagnostic :=
  (host.topologyFor path defId).flatMap fun connection =>
    (host.admission path defId connection).2

def destinations (defId : String) (connection : TopologyConnection)
    (target : PortRef) : InputResolution × List Diagnostic :=
  host.resolveInputPort connection.delivery none host.depth path defId target []

def routedOutputs (terminals : List RouteTerminal) : List ResolvedOutput :=
  terminals.filterMap fun
    | .output source => some source
    | _ => none

def recordDestination (defId : String) (connection : TopologyConnection) (staging : Staging)
    (destination : String × ElaboratedInput) : Staging :=
  let terminals := (host.projectRoute (host.tables mode staging) .wouldRun
    (some destination.2.spec.type) connection.delivery
    (.endpoint path defId connection.source none)).1
  let producers := (routedOutputs terminals).map (·.runtimeId)
  { staging with
    edges := staging.edges ++
      [((destination.1, destination.2.spec.id), producers.filter staging.has)]
    delivered := staging.delivered ++
      (if terminals.any fun terminal => !terminal.dead then
        [(destination.1, destination.2.address)] else []) }

/-- `recordWouldRunConnection`. -/
def recordWouldRun (defId : String) (staging : Staging)
    (entry : TopologyConnection × PortRef) : Staging :=
  if mode.wouldRun then
    ((nodeInputs (host.destinations path defId entry.1 entry.2).1.inputs).filter fun live =>
      staging.has live.1).foldl (host.recordDestination mode path defId entry.1) staging
  else staging

/-- Where a connection comes from, resolved once for all its destinations. -/
inductive ConnectionSource where
  | regionIndex
  | output (source : ResolvedOutput)
  | route (start : RouteVertex)
  | muted
  | missing

/-- The source of a connection.  The pseudo-node of a region is readable only as the index
of the region whose body the connection is in. -/
def connectionSource (defId : String)
    (connection : TopologyConnection) : ConnectionSource × List Diagnostic :=
  match connection.source with
  | .port ref =>
    if ref.node = regionPseudoNode then
      if ref.port = "index" ∧ ref.members = [] ∧
          host.collected.regions.any fun region =>
            region.childId = defId && region.childPath = path then
        (.regionIndex, [])
      else (.missing, [failure "compile.region.invalidIndex"
        s!"'$region.{ref.port}' is available only as the immediate region index source" none])
    else
      match host.resolveOutputPort connection.delivery none host.depth path defId ref [] with
      | (.output source, sink) => (.output source, sink)
      | (.onward vertex, sink) => (.route vertex, sink)
      | (.muted, sink) => (.muted, sink)
      | (.missing, sink) => (.missing, sink)
  | source => (.route (.endpoint path defId source none), [])

def bakeLiteral (consumer : FlatNode) (input : ElaboratedInput) (value : Json)
    (typeId : Option String) : Option Json × List Diagnostic :=
  let anchor := some (occurrenceAt consumer.path consumer.node.id)
  let target := canonicalTypeIdOf input.spec.type
  if isCanonicalUnsafeInteger value then
    if typeId = some "INT" ∧ target = some "INT" then
      host.lowerWidgetLiteral consumer input value
    else (none, [failure "compile.tap.decimalIntNonConcreteTarget"
      s!"{consumer.node.type}.{input.spec.id}: large integer requires an INT input" anchor])
  else
    let stamps := match target, typeId with
      | none, _ => true
      | some target, some typeId =>
        isAssetSourceTypeId typeId && typeId ≠ target && !isAssetRefDestinationTypeId target
      | some _, none => false
    if stamps then
      match host.emitTypedLiterals, typeId with
      | true, some typeId => (some (typedLiteralWire typeId value), [])
      | _, _ => (none, [failure "compile.tap.nonConcreteTarget"
          s!"{consumer.node.type}.{input.spec.id}: literal type cannot be resolved on this backend"
          anchor])
    else (some value, [])

/-- A connection that cannot be delivered because an end is not in the prompt. -/
def unavailable (what defId : String) : Diagnostic :=
  warning "compile.link.dropped" s!"{what} in graph '{defId}': connected node is unavailable" none

def mutedEnd (what defId : String) : Diagnostic :=
  warning "compile.link.dropped" s!"{what} in graph '{defId}': connected node is muted" none

variable (defId what : String)

def deliverOutput (staging : Staging)
    (destination : String × ElaboratedInput) (source : ResolvedOutput) : Staging :=
  if staging.has source.runtimeId ∧ staging.has destination.1 then
    staging.deliver destination.1 destination.2 (linkValue source) true
  else staging.report [unavailable what defId]

def deliverLiteral (staging : Staging)
    (destination : String × ElaboratedInput) (value : Json) (typeId : Option String) : Staging :=
  match staging.node? destination.1 with
  | none => staging.report [unavailable what defId]
  | some consumer =>
    match host.bakeLiteral consumer destination.2 value typeId with
    | (some baked, sink) =>
      (staging.report sink).deliver destination.1 destination.2 baked false
    | (none, sink) => staging.report sink

def deliverTerminal (staging : Staging)
    (destination : String × ElaboratedInput) (terminal : RouteTerminal) : Staging :=
  match terminal with
  | .muted => staging.report [mutedEnd what defId]
  | .dropped => staging
  | .value value typeId => host.deliverLiteral defId what staging destination value typeId
  | .output source => deliverOutput defId what staging destination source

def lowerDestination (defId : String) (connection : TopologyConnection)
    (source : ConnectionSource) (staging : Staging)
    (destination : String × ElaboratedInput) : Staging :=
  match source with
  | .regionIndex =>
    if staging.has destination.1 then
      staging.deliver destination.1 destination.2 (linkWire regionPseudoNode "index") true
    else staging
  | .output output => deliverOutput defId connection.what staging destination output
  | .route start =>
    let (terminals, sink) := host.projectRoute (host.tables mode staging) .exact
      (some destination.2.spec.type) connection.delivery start
    host.deliverTerminal defId connection.what
      (staging.report (attachDependents sink [destination.1])) destination
      (terminals.head?.getD .dropped)
  | .muted | .missing => staging

def lowerConnection (defId : String) (staging : Staging)
    (entry : TopologyConnection × PortRef) : Staging :=
  let (resolved, inputSink) := host.destinations path defId entry.1 entry.2
  let (source, sourceSink) := host.connectionSource path defId entry.1
  match resolved, source with
  | .muted, _ | _, .muted => staging.report [mutedEnd entry.1.what defId]
  | .bypassed, _ => staging
  | .missing, _ => staging.report (inputSink ++ sourceSink)
  | .targets inputs, source =>
    (nodeInputs inputs).foldl (host.lowerDestination mode defId entry.1 source)
      (staging.report (attachDependents (inputSink ++ sourceSink)
        ((nodeInputs inputs).map (·.1))))

/-- One occurrence: in a preview the connections are recorded first. -/
def lowerOccurrence (context : List String × String) : Staging :=
  let entries := host.admitted context.1 context.2
  let recorded := entries.foldl (host.recordWouldRun mode context.1 context.2)
    (staging.report (host.selectionSink mode context.2 ++
      host.admissionSink context.1 context.2))
  entries.foldl (host.lowerConnection mode context.1 context.2) recorded

def regionTargets (region : RegionLowering) (item : BoundaryItem) :
    InputResolution × List Diagnostic :=
  host.resolveInputPort none (some region.runtimeId) host.depth region.path
    region.parentDefId ⟨region.node.id, item.id, []⟩ []

def lowerRegionTarget (item : String) (staging : Staging)
    (target : String × ElaboratedInput) : Staging :=
  match staging.node? target.1 with
  | none => staging
  | some body =>
    if target.2.address.port ∈ body.interface.outputCountInputs then
      staging.report [failure "compile.outputFamily.linkedCount"
        s!"{body.node.type}.{target.2.address.port}: output count requires a stored literal"
        (some (occurrenceAt body.path body.node.id))]
    else staging.deliver target.1 target.2 (linkWire regionPseudoNode item) true

/-- The boundary inputs of one region. -/
def lowerRegion (region : RegionLowering) : Staging :=
  match host.doc.graph? region.childId with
  | none => staging
  | some child => child.boundaryInputs.foldl (fun staging item =>
    let (resolved, sink) := host.regionTargets region item
    (nodeInputs resolved.inputs).foldl (lowerRegionTarget item.id)
      (staging.report sink)) staging

/-- The flattened nodes with their literals staged, before any link. -/
def literalStaging : Staging where
  flat := host.collected.flat.map host.stageLiterals
  delivered := []
  edges := []
  sink := host.collected.sink ++ host.promotionSink

def linkStaging : Staging :=
  host.collected.contexts.foldl (host.lowerOccurrence mode) host.literalStaging

/-- Everything lowered. -/
def staged : Staging :=
  host.collected.regions.foldl host.lowerRegion (host.linkStaging mode)

end Host

end Dinkster.Compile
