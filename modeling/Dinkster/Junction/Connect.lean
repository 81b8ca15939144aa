import Dinkster.Junction.TraceAll

/-!
# Connecting two endpoints

`link.connect` rejects a link that would close a loop.  A link into a junction is tested by
a walk over the reroutes and selectors above its source that does not look behind widget
taps, and a link out of a tap by a trace that stops at selectors.  Every loop they reject is
one, but a loop through a tap and a selector passes both tests, and so does a loop into a
tapped input that does not start at a tap.
-/

namespace Dinkster.Junction

open Format Library

structure DiagnosticRef where
  graphId : String
  nodeId : String
  portId : String
  valueKey : Option String
  output : Bool
  deriving DecidableEq

/-- An error of a command. -/
structure Rejection where
  code : String
  message : String
  refs : List DiagnosticRef
  deriving DecidableEq

def endpointRefs (graphId : String) (output : Bool) : LinkEndpoint → List DiagnosticRef
  | .tap node input => [⟨graphId, node, input, some input, true⟩]
  | .port ref => [⟨graphId, ref.node, ref.port, none, output⟩]
  | _ => []

section Connect

variable (definition : GraphDef)

def endpointError (graphId : String) (output : Bool) (what : String) :
    LinkEndpoint → Option Rejection
  | .reroute id =>
    if id ∈ definition.reroutes then none
    else some ⟨"reroute.missing", s!"{what}: unknown reroute '{id}'", []⟩
  | .valueSource id =>
    if (definition.valueSource? id).isSome then none
    else some ⟨"valueSource.missing", s!"{what}: unknown value source '{id}'", []⟩
  | .selector id candidate =>
    match definition.selector? id, candidate with
    | none, _ => some ⟨"selector.missing", s!"{what}: unknown selector '{id}'", []⟩
    | some _, none => none
    | some selector, some candidate =>
      if candidate ∈ selector.candidates then none
      else some ⟨"selector.candidateMissing",
        s!"{what}: selector '{id}' has no candidate '{candidate}'", []⟩
  | .tap node input =>
    if (definition.node? node).isSome then none
    else some ⟨"node.missing", s!"{what}: unknown node '{node}'",
      endpointRefs graphId true (.tap node input)⟩
  | .port ref =>
    if (definition.node? ref.node).isSome then none
    else some ⟨"node.missing", s!"{what}: unknown node '{ref.node}'",
      endpointRefs graphId output (.port ref)⟩

/-- The endpoints that follow an endpoint when taps are not looked behind, the one that is
popped next first. -/
def upstreamPushes : LinkEndpoint → List LinkEndpoint
  | .reroute id => (rerouteDriverOf definition id none).toList.map (·.source)
  | .selector id (some candidate) =>
    (selectorDriverOf definition id candidate none).toList.map (·.source)
  | .selector id none =>
    (((definition.selector? id).elim [] (·.candidates)).map fun candidate =>
      LinkEndpoint.selector id (some candidate)).reverse
  | _ => []

/-- Whether an endpoint is marked when it is met. -/
def isJunction : LinkEndpoint → Bool
  | .reroute _ | .selector _ _ => true
  | _ => false

/-- The loop of `upstreamHitsJunction`.  The number bounds its turns. -/
def upstreamLoop (hits : LinkEndpoint → Bool) : Nat → List LinkEndpoint → List LinkEndpoint → Bool
  | 0, _, _ => false
  | _ + 1, [], _ => false
  | turns + 1, current :: stack, visited =>
    if hits current then true
    else if isJunction current && visited.contains current then
      upstreamLoop hits turns stack visited
    else
      upstreamLoop hits turns (upstreamPushes definition current ++ stack)
        (if isJunction current then current :: visited else visited)

/-- What the walk pushes, the endpoint that is popped next last. -/
def upstreamNext (endpoint : LinkEndpoint) : List LinkEndpoint :=
  (upstreamPushes definition endpoint).reverse

def upstreamHitsJunction (start : LinkEndpoint) (hits : LinkEndpoint → Bool) : Bool :=
  upstreamLoop definition hits
    (1 + owed (upstreamNext definition) [] (traceNodes definition none)) [start] []

def wouldCreateRerouteCycle (source : LinkEndpoint) (toReroute : String) : Bool :=
  upstreamHitsJunction definition source fun endpoint =>
    match endpoint with
    | .reroute id => id = toReroute
    | _ => false

def wouldCreateSelectorCycle (source : LinkEndpoint) (toSelector : String) : Bool :=
  upstreamHitsJunction definition source fun endpoint =>
    match endpoint with
    | .selector id _ => id = toSelector
    | _ => false

/-- The id of the link that `wouldCreateTapCycle` tries.  A link that has this id already is
overwritten. -/
def tapCycleLink : String := "__tap_cycle__"

variable (source target : LinkEndpoint)

/-- The definition `wouldCreateTapCycle` traces in. -/
def tapTrial : GraphDef :=
  { definition with
    links := (definition.links.filter fun link =>
        link.target ≠ target && link.id ≠ tapCycleLink) ++
      [⟨tapCycleLink, source, target⟩] }

def wouldCreateTapCycle : Bool :=
  let trial := tapTrial definition source target
  match traceEndpoint trial source (some (buildRerouteIndex trial)) none with
  | some trace => trace.cyclic
  | none => false

def isTap : LinkEndpoint → Bool
  | .tap _ _ => true
  | _ => false

def isValueSource : LinkEndpoint → Bool
  | .valueSource _ => true
  | _ => false

def isCandidate : LinkEndpoint → Bool
  | .selector _ (some _) => true
  | _ => false

def isSelectorOutput : LinkEndpoint → Bool
  | .selector _ none => true
  | _ => false

def samePortNode : LinkEndpoint → LinkEndpoint → Bool
  | .port output, .port input => output.node = input.node
  | _, _ => false

def ownInput : LinkEndpoint → LinkEndpoint → Bool
  | .tap node input, .port ref => node = ref.node && input = ref.port
  | _, _ => false

variable (refs : List DiagnosticRef)

def rerouteError (what : String) (source : LinkEndpoint) (id : String) : Option Rejection :=
  if source = .reroute id then
    some ⟨"link.selfLoop", s!"{what}: cannot connect a reroute to itself", refs⟩
  else if wouldCreateRerouteCycle definition source id then
    some ⟨"reroute.cycle", s!"{what}: connection would create a reroute cycle", refs⟩
  else none

def selectorOf : LinkEndpoint → Option String
  | .selector id _ => some id
  | _ => none

def selectorError (what : String) (source : LinkEndpoint) (id : String) : Option Rejection :=
  if selectorOf source = some id then
    some ⟨"link.selfLoop", s!"{what}: cannot connect a selector to itself", refs⟩
  else if wouldCreateSelectorCycle definition source id then
    some ⟨"selector.cycle", s!"{what}: connection would create a selector cycle", refs⟩
  else none

def junctionError (what : String) (source : LinkEndpoint) : LinkEndpoint → Option Rejection
  | .reroute id => rerouteError definition refs what source id
  | .selector id _ => selectorError definition refs what source id
  | _ => none

def connectError (graphId : String) (source target : LinkEndpoint) (what : String) :
    Option Rejection :=
  let refs := endpointRefs graphId true source ++ endpointRefs graphId false target
  if isTap target then
    some ⟨"link.tapTarget",
      s!"{what}: widget taps produce, never consume (cannot be a link target)", refs⟩
  else if isValueSource target then
    some ⟨"link.valueSourceTarget",
      s!"{what}: value sources produce, never consume (cannot be a link target)", refs⟩
  else if isCandidate source then
    some ⟨"link.selectorCandidateSource",
      s!"{what}: selector candidates consume, never produce (source must be the selector output)",
      refs⟩
  else if isSelectorOutput target then
    some ⟨"link.selectorOutputTarget",
      s!"{what}: selector outputs produce, never consume (target must name a candidate)", refs⟩
  else if samePortNode source target then
    some ⟨"link.selfLoop", s!"{what}: cannot connect a node to itself", refs⟩
  else if ownInput source target then
    some ⟨"link.selfLoop", s!"{what}: cannot connect a widget tap to its own input", refs⟩
  else if isTap source && wouldCreateTapCycle definition source target then
    some ⟨"link.tapCycle", s!"{what}: connection would create a widget tap cycle", refs⟩
  else junctionError definition refs what source target

/-- The definition in which a link into `target` replaces whatever drove it. -/
def replaceDriver (id : String) (source target : LinkEndpoint) : GraphDef :=
  { definition with
    links := (definition.links.filter fun link => link.target ≠ target) ++ [⟨id, source, target⟩]
    nets := definition.nets.map fun net =>
      { net with sinks := net.sinks.filter fun sink => LinkEndpoint.port sink ≠ target } }

end Connect

end Dinkster.Junction
