import Dinkster.Junction.Upstream

/-!
# The topology check of a definition

`checkGraphDef` walks over the links of a definition, notes the first driver of everything
that may have only one, and reports what dangles, what is driven twice and what is used the
wrong way round.  A depth-first search over the drivers it noted reports cycles, where a
selector depends on all its candidates at once.  Ids, regions and boundaries have checks of
their own, which only add diagnostics and are left out here; whether the dynamic member of a
port is missing is given as a predicate.
-/

namespace Dinkster.Junction

open Format Library

/-- An error of the invariant checker. -/
structure Violation where
  code : String
  message : String
  deriving DecidableEq

/-- `diag('error', 'invariant', code, where(message))`. -/
def violation (definition : GraphDef) (code message : String) : Violation :=
  ⟨code, s!"[{definition.id}] {message}"⟩

/-- What the check has found so far, and the drivers it has noted. -/
structure TopologyCheck where
  diagnostics : List Violation
  drivenInputs : Table String
  drivenReroutes : Table LinkData
  drivenSelectorCandidates : Table LinkData
  selectorDrivers : Table (List LinkData)

namespace TopologyCheck

/-- `diags.push`. -/
def report (check : TopologyCheck) (found : Violation) : TopologyCheck :=
  { check with diagnostics := check.diagnostics ++ [found] }

end TopologyCheck

section Check

variable (definition : GraphDef) (missing : PortRef → Bool)

def checkSelector (selector : SelectorData) : List Violation :=
  let repeated := selector.candidates.zipIdx.filter fun entry =>
    entry.1 ∈ selector.candidates.take entry.2
  let dangling :=
    match selector.policy with
    | .fixed candidate =>
      if candidate ∈ selector.candidates then []
      else [violation definition "doc.selector.policyDangling"
        s!"selector '{selector.id}' fixed policy names missing candidate '{candidate}'"]
    | .random => []
  repeated.map (fun entry => violation definition "doc.selector.candidateDuplicate"
    s!"selector '{selector.id}' has duplicate candidate id '{entry.1}'") ++ dangling

def checkEndpoint (what code : String) : LinkEndpoint → Option Violation
  | .reroute id =>
    if id ∈ definition.reroutes then none
    else some (violation definition code s!"{what} references missing reroute '{id}'")
  | .valueSource id =>
    if (definition.valueSource? id).isSome then none
    else some (violation definition code s!"{what} references missing value source '{id}'")
  | .selector id candidate =>
    match definition.selector? id, candidate with
    | none, _ =>
      some (violation definition code s!"{what} references missing selector '{id}'")
    | some _, none => none
    | some selector, some candidate =>
      if candidate ∈ selector.candidates then none
      else some (violation definition code
        s!"{what} references missing candidate '{candidate}' of selector '{id}'")
  | .tap node _ =>
    if (definition.node? node).isSome then none
    else some (violation definition code s!"{what} references missing node '{node}'")
  | .port ref =>
    if (definition.node? ref.node).isNone then
      some (violation definition code s!"{what} references missing node '{ref.node}'")
    else if missing ref then
      some (violation definition "doc.dynamic.memberMissing"
        s!"{what} references an unmaterialized dynamic member on '{ref.node}.{ref.port}'")
    else none

variable (check : TopologyCheck)

def claimInput (ref : PortRef) (driver : String) : TopologyCheck :=
  match check.drivenInputs.get (portRefKey ref) with
  | some existing =>
    check.report (violation definition "doc.input.multiDriver"
      s!"input {ref.node}.{ref.port} driven by both {existing} and {driver}")
  | none => { check with drivenInputs := check.drivenInputs.set (portRefKey ref) driver }

def checkSource (link : LinkData) : TopologyCheck :=
  match checkEndpoint definition missing s!"link '{link.id}' source" "doc.link.dangling"
      link.source with
  | some found => check.report found
  | none =>
    match link.source with
    | .selector id (some candidate) =>
      check.report (violation definition "doc.link.selectorCandidateSource"
        s!"Link {link.id}: selector candidate {id}/{candidate} cannot produce values")
    | _ => check

/-- The target of a link, which exists: it is noted as driven. -/
def driveTarget (link : LinkData) : TopologyCheck :=
  match link.target with
  | .valueSource id =>
    check.report (violation definition "doc.link.valueSourceTarget"
      s!"link '{link.id}' targets value source '{id}' (value sources cannot consume)")
  | .tap node input =>
    check.report (violation definition "doc.link.tapTarget"
      s!"link '{link.id}' targets widget tap '{node}.{input}' (taps cannot consume)")
  | .selector id none =>
    check.report (violation definition "doc.link.selectorOutputTarget"
      s!"link '{link.id}' targets selector '{id}' output (outputs cannot consume)")
  | .selector id (some candidate) =>
    match check.drivenSelectorCandidates.get (selectorCandidateKey id candidate) with
    | some existing =>
      check.report (violation definition "doc.selector.multiDriver"
        s!"Selector {id}/{candidate}: links {existing.id} and {link.id} both drive this candidate")
    | none =>
      { check with
        drivenSelectorCandidates :=
          check.drivenSelectorCandidates.set (selectorCandidateKey id candidate) link
        selectorDrivers :=
          check.selectorDrivers.set id ((check.selectorDrivers.get id).getD [] ++ [link]) }
  | .reroute id =>
    match check.drivenReroutes.get id with
    | some existing =>
      check.report (violation definition "doc.reroute.multiDriver"
        s!"reroute '{id}' driven by both link '{existing.id}' and link '{link.id}'")
    | none => { check with drivenReroutes := check.drivenReroutes.set id link }
  | .port ref => claimInput definition check ref s!"link '{link.id}'"

def checkLink (link : LinkData) : TopologyCheck :=
  let check := checkSource definition missing check link
  match checkEndpoint definition missing s!"link '{link.id}' target" "doc.link.dangling"
      link.target with
  | some found => check.report found
  | none => driveTarget definition check link

def checkLinks : TopologyCheck :=
  definition.links.foldl (checkLink definition missing)
    ⟨definition.selectors.flatMap (checkSelector definition), [], [], [], []⟩

/-- What the search visits after a vertex. -/
def walkNext : Vertex → List Vertex
  | .reroute id => (check.drivenReroutes.get id).toList.filterMap fun link => follow link.source
  | .selector id =>
    ((check.selectorDrivers.get id).getD []).filterMap fun link => follow link.source
  | .tap node input =>
    match scanInputDriver definition (Stop.tapped node input) with
    | some link => (follow link.source).toList
    | none =>
      match scanNetSource definition (Stop.tapped node input) with
      | some source => (follow (.port source)).toList
      | none => []

/-- Where the search starts. -/
def walkRoots : List Vertex :=
  definition.reroutes.map Vertex.reroute ++
    definition.selectors.map (fun selector => Vertex.selector selector.id) ++
    definition.links.filterMap fun link =>
      match link.source with
      | .tap node input => some (.tap node input)
      | _ => none

/-- What the search reports.  The drivers of a path are all different, so no path is longer
than there are links. -/
def walkReports : List Vertex :=
  cycleReports (walkNext definition check) (definition.links.length + 1) (walkRoots definition)

/-- The diagnostic of a vertex that was met again. -/
def cycleViolation : Vertex → Violation
  | .reroute id =>
    violation definition "doc.reroute.cycle" s!"reroute chain through '{id}' forms a cycle"
  | .selector id =>
    violation definition "doc.selector.cycle" s!"selector chain through '{id}' forms a cycle"
  | .tap node input =>
    let key := portRefKey (Stop.tapped node input)
    violation definition "doc.tap.cycle" s!"widget tap chain through '{key}' forms a cycle"

def cycleCodes : List String :=
  ["doc.reroute.cycle", "doc.selector.cycle", "doc.tap.cycle"]

def checkSink (net : NamedNet) (check : TopologyCheck) (sink : PortRef) : TopologyCheck :=
  match checkEndpoint definition missing s!"net '{net.name}' sink" "doc.net.dangling"
      (.port sink) with
  | some found => check.report found
  | none => claimInput definition check sink s!"net '{net.name}'"

def checkNet (net : NamedNet) : TopologyCheck :=
  let check :=
    match checkEndpoint definition missing s!"net '{net.name}' source" "doc.net.dangling"
        (.port net.source) with
    | some found => check.report found
    | none => check
  net.sinks.foldl (checkSink definition missing net) check

def checkCycles : TopologyCheck :=
  let check := checkLinks definition missing
  { check with
    diagnostics := check.diagnostics ++ (walkReports definition check).map
      (cycleViolation definition) }

def checkGraphTopology : List Violation :=
  (definition.nets.foldl (checkNet definition missing)
    (checkCycles definition missing)).diagnostics

def ReportsCycle : Prop :=
  ∃ found ∈ checkGraphTopology definition missing, found.code ∈ cycleCodes

end Check

end Dinkster.Junction
