import Dinkster.Commands.Patch

/-!
# Allocation cursors

Documents embed the cursors ids are allocated from: ordinals of graphs and
occurrence topologies, per-actor ordinals, the `seq` of dynamic port states and
the group cursors of view graphs.  A history replay must never rewind them.  This
module contains the shapes that say where a cursor lives, and the preservers that
merge the cursors of the current document into a recorded value.

A preserver takes what the current document holds at a position and what the
record would put there, and returns what may be put there.
-/

namespace Dinkster.Commands

open Library Format

/-- `DynShapePos`: where a path points inside a node's dynamic state. -/
inductive DynShapePos where
  | portMap
  | state
  | memberMap
  | scope
  | outside
  deriving DecidableEq

/-- One step of `dynamicShapePosition`. -/
def DynShapePos.descend : DynShapePos → Segment → DynShapePos
  | .portMap, _ => .state
  | .state, segment => if segment = .key "memberState" then .memberMap else .outside
  | .memberMap, _ => .scope
  | .scope, _ => .state
  | .outside, _ => .outside

def dynamicShapePosition : DocPath → DynShapePos
  | .key "graphs" :: _ :: .key "nodes" :: _ :: .key "dynamic" :: rest =>
    rest.foldl DynShapePos.descend .portMap
  | _ => .outside

/-- The two maps whose entries carry ordinals. -/
def isOrdinalOwner (segment : Segment) : Bool :=
  segment = .key "graphs" ∨ segment = .key "occurrenceTopologies"

/-- `isAllocationCursor`: whether a path addresses a numeric cursor. -/
def isAllocationCursor (path : DocPath) : Bool :=
  match path.getLast? with
  | none => false
  | some last =>
    if last = .key "nextOrdinal" then
      path.length = 3 && path.head?.any isOrdinalOwner
    else if path.length = 4 && path.head?.any isOrdinalOwner &&
        path[2]? = some (.key "actorCursors") then
      true
    else if last = .key "seq" then
      dynamicShapePosition path.dropLast = .state
    else if last = .key "surfaceSeq" then
      path.length = 1
    else if last = .key "groupSeq" then
      path.length = 4 && path[0]? = some (.key "view") && path[1]? = some (.key "graphs")
    else
      false

/-- `ViewShapePos`: where a path points among the view graphs. -/
inductive ViewShapePos where
  | graphsMap
  | graphView
  | outside
  deriving DecidableEq

def viewGraphShapePosition : DocPath → ViewShapePos
  | [.key "view", .key "graphs"] => .graphsMap
  | [.key "view", .key "graphs", _] => .graphView
  | _ => .outside

/-- `isActorCursorsMap`: a whole map of per-actor cursors. -/
def isActorCursorsMap (path : DocPath) : Bool :=
  path.length = 3 && path.head?.any isOrdinalOwner && path[2]? = some (.key "actorCursors")

/-- `OccurrenceTopologyShapePos`: where a path points among the topologies. -/
inductive OccurrenceTopologyShapePos where
  | map
  | topology
  | outside
  deriving DecidableEq

def occurrenceTopologyShapePosition : DocPath → OccurrenceTopologyShapePos
  | [.key "occurrenceTopologies"] => .map
  | [.key "occurrenceTopologies", _] => .topology
  | _ => .outside

/-- A preserver for a known current value. -/
abbrev Merge := Option Json → Option Json

/-- A preserver: the current value, then the recorded one. -/
abbrev Preserve := Option Json → Merge

/-- The properties of an object, none of anything else. -/
def objectFields : Option Json → List (String × Json)
  | some (.obj fields) => fields
  | _ => []

def isJsonObject : Option Json → Bool
  | some (.obj _) => true
  | _ => false

def isNumber : Option Json → Bool
  | some (.num _) => true
  | _ => false

/-- Merge one key into the copy made so far, noting whether it changed. -/
def mergeEntry (state : List (String × Json) × Bool) (entry : String × Merge) :
    List (String × Json) × Bool :=
  let current := getField state.1 entry.1
  match entry.2 current with
  | some merged =>
    if some merged = current then state else (setField state.1 entry.1 merged, true)
  | none => state

/-- Merge a list of keys into a recorded value.  An unchanged value is returned
as it is, and nothing is synthesized where nothing was preserved. -/
def mergeEntries (entries : List (String × Merge)) : Merge := fun next =>
  let result := entries.foldl mergeEntry (objectFields next, !isJsonObject next)
  if result.2 = false then
    next
  else if isJsonObject next = false ∧ result.1 = [] then
    next
  else
    some (.obj result.1)

/-- `preserveRecord`: every entry of a record-shaped position is preserved by
`child`, except the keys that `skip` opts out. -/
def preserveRecord (child : Preserve) (skip : String → Bool) : Preserve
  | some (.obj fields), next =>
    mergeEntries ((fields.filter fun entry => !skip entry.1).map fun entry =>
      (entry.1, child (some entry.2))) next
  | _, next => next

/-- `preserveNumericCursor`: the higher of two numbers. -/
def preserveNumericCursor : Preserve
  | some (.num current), some (.num next) =>
    if next < current then some (.num current) else some (.num next)
  | some (.num current), _ => some (.num current)
  | _, next => next

mutual

/-- `preserveStateCursors`: clamp the `seq` of a port state and recurse through
its declared member states. -/
def preserveState : Json → Merge
  | .obj fields => fun next =>
    mergeEntries
      (("seq", preserveNumericCursor (getField fields "seq")) :: memberStateEntry fields) next
  | _ => fun next => next

/-- The `memberState` property of a port state, with its preserver. -/
def memberStateEntry : List (String × Json) → List (String × Merge)
  | [] => []
  | (key, field) :: rest =>
    if key = "memberState" then [("memberState", preserveMember field)]
    else memberStateEntry rest

/-- `preserveMemberMap`. -/
def preserveMember : Json → Merge
  | .obj fields => fun next => mergeEntries (memberEntries fields) next
  | _ => fun next => next

def memberEntries : List (String × Json) → List (String × Merge)
  | [] => []
  | (key, field) :: rest => (key, preserveScopeOf field) :: memberEntries rest

/-- `preserveScope`. -/
def preserveScopeOf : Json → Merge
  | .obj fields => fun next => mergeEntries (scopeEntries fields) next
  | _ => fun next => next

def scopeEntries : List (String × Json) → List (String × Merge)
  | [] => []
  | (key, field) :: rest => (key, preserveState field) :: scopeEntries rest

end

/-- A preserver from its definition on present values. -/
def preserveSome (merge : Json → Merge) : Preserve
  | some current, next => merge current next
  | none, next => next

def preserveStateCursors : Preserve := preserveSome preserveState

def preserveScope : Preserve := preserveRecord preserveStateCursors fun _ => false

def preserveMemberMap : Preserve := preserveRecord preserveScope fun _ => false

def preservePortMap : Preserve := preserveRecord preserveStateCursors fun _ => false

def preserverAt : DynShapePos → Preserve
  | .portMap => preservePortMap
  | .state => preserveStateCursors
  | .memberMap => preserveMemberMap
  | .scope => preserveScope
  | .outside => fun _ next => next

/-- `preserveGraphViewCursor`: clamp `groupSeq`; a removal leaves the skeleton
that carries it. -/
def preserveGraphViewCursor : Preserve
  | some (.obj current), next =>
    match getField current "groupSeq" with
    | some (.num cursor) =>
      let base := if isJsonObject next then objectFields next else [("nodes", .obj [])]
      match getField base "groupSeq" with
      | some (.num recorded) =>
        if cursor ≤ recorded ∧ isJsonObject next then next
        else some (.obj (setField base "groupSeq"
          (.num (if cursor < recorded then recorded else cursor))))
      | _ => some (.obj (setField base "groupSeq" (.num cursor)))
    | _ => next
  | _, next => next

/-- `makePreserveViewGraphsMap`: entries of graphs that leave are not preserved. -/
def makePreserveViewGraphsMap (survivingGraphs : List String) : Preserve :=
  preserveRecord preserveGraphViewCursor fun key => !survivingGraphs.contains key

def preserveActorCursorsMap : Preserve :=
  preserveRecord preserveNumericCursor fun _ => false

def isPositive : Option Json → Bool
  | some (.num cursor) => 0 < cursor
  | _ => false

/-- The skeleton that carries the cursors of a removed topology.  A property that
the topology lacks is absent from its skeleton. -/
def topologySkeleton (current : List (String × Json)) : List (String × Json) :=
  (current.filter fun entry => entry.1 = "owner") ++
    (current.filter fun entry => entry.1 = "bodyGraph") ++
    [("links", .obj []), ("nextOrdinal", .num 0)]

/-- `preserveOccurrenceTopologyCursors`: clamp the ordinals of a topology; a
removal leaves the skeleton that carries them. -/
def preserveOccurrenceTopologyCursors : Preserve
  | some (.obj current), next =>
    let hasCursor := isPositive (getField current "nextOrdinal") ||
      (objectFields (getField current "actorCursors")).any fun entry => isPositive (some entry.2)
    if hasCursor = false ∧ next = none then
      next
    else
      let base := if isJsonObject next then objectFields next else topologySkeleton current
      let result :=
        [("nextOrdinal", preserveNumericCursor (getField current "nextOrdinal")),
          ("actorCursors", preserveActorCursorsMap (getField current "actorCursors"))].foldl
          mergeEntry (base, !isJsonObject next)
      if result.2 then some (.obj result.1) else next
  | _, next => next

def makePreserveOccurrenceTopologiesMap (survivingOccurrences : List String) : Preserve :=
  preserveRecord preserveOccurrenceTopologyCursors fun key =>
    !survivingOccurrences.contains key

end Dinkster.Commands
