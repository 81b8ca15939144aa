import Dinkster.Commands.Contract
import Dinkster.Commands.Cursors
import Dinkster.Format.Ids

/-!
# History replay

Undo and redo replay recorded operations instead of running commands.  An
operation that would rewind an allocation cursor is skipped, or merged with the
cursors of the current document; everything else is applied as recorded.  The
shared session additionally requires that the document still holds the values the
record displaced.
-/

namespace Dinkster.Commands

open Library Format

/-- The value an operation writes, if it writes one. -/
def PatchOp.written : PatchOp → Option Json
  | .add _ value => some value
  | .remove _ _ => none
  | .replace _ value _ => some value

def PatchOp.displaced : PatchOp → Option Json
  | .add _ _ => none
  | .remove _ oldValue => some oldValue
  | .replace _ _ oldValue => some oldValue

/-- The membership of semantic graphs after one more operation. -/
def survivingStep (graphs : List String) (op : PatchOp) : List String :=
  match op.path with
  | [.key "graphs"] => fieldKeys (objectFields op.written)
  | [.key "graphs", .key graph] =>
    match op with
    | .remove _ _ => graphs.filter fun other => other ≠ graph
    | _ => if graphs.contains graph then graphs else graphs ++ [graph]
  | _ => graphs

variable (doc : Json)

/-- The final semantic graph membership of a batch. -/
def survivingGraphs (ops : List PatchOp) : List String :=
  ops.foldl survivingStep (fieldKeys (objectFields (ownChild doc (.key "graphs"))))

/-- Whether an operation changes graphs, nodes or node types as a whole. -/
def isSemantic (op : PatchOp) : Bool :=
  match op.path with
  | .key "graphs" :: rest =>
    rest.length ≤ 1 ||
      (rest[1]? = some (.key "nodes") && (rest.length ≤ 3 || rest[3]? = some (.key "type")))
  | _ => false

def subgraphDefIdOf (nodeType : String) : Option String :=
  match nodeType.toList with
  | '#' :: rest => some (String.ofList rest)
  | _ => none

/-- The definition an instance node refers to. -/
def bodyOf (node : Json) : Option String :=
  match ownChild node (.key "type") with
  | some (.str nodeType) => subgraphDefIdOf nodeType
  | _ => none

/-- Follow instance nodes from a graph; `none` when a hop is no instance, and an
inner `none` when the last definition is missing. -/
def followInstances (graphs : Json) : Option Json → List String → Option (Option Json)
  | graph, [] => some graph
  | graph, id :: rest =>
    match (graph.bind fun graph => getAtPath graph [.key "nodes", .key id]).bind bodyOf with
    | some body => followInstances graphs (ownChild graphs (.key body)) rest
    | none => none

def ownerSurvives (semanticFinal : Json) (key : String) : Except String Bool := do
  let owner ← parseOccurrenceKey key
  match ownChild semanticFinal (.key "graphs") with
  | none => throw "cannot read properties of undefined"
  | some graphs =>
    let root := match ownChild semanticFinal (.key "root") with
      | some (.str root) => ownChild graphs (.key root)
      | _ => none
    return (followInstances graphs root (owner.instancePath ++ [owner.node])).any Option.isSome

/-- The occurrence topologies of a document. -/
def occurrenceKeys : List String :=
  fieldKeys (objectFields (ownChild doc (.key "occurrenceTopologies")))

def filterThrowing (test : String → Except String Bool) : List String → Except String (List String)
  | [] => .ok []
  | key :: rest => do
    let kept ← test key
    let others ← filterThrowing test rest
    return if kept then key :: others else others

/-- What must outlive the batch for its cursors to be preserved. -/
structure Survivors where
  graphs : List String
  occurrences : List String

/-- The survival sets of a batch. -/
def survivors (ops : List PatchOp) : Except String Survivors :=
  match applyOwnedOps doc (ops.filter isSemantic) with
  | .error error => .error error.message
  | .ok semanticFinal => do
    let keys := occurrenceKeys doc ++
      (occurrenceKeys semanticFinal).filter fun key => !(occurrenceKeys doc).contains key
    return ⟨survivingGraphs doc ops, ← filterThrowing (ownerSurvives semanticFinal) keys⟩

inductive ReplayClass where
  /-- A numeric cursor. -/
  | cursor
  /-- A subtree that embeds cursors, with its preserver. -/
  | preserved (preserve : Preserve)
  /-- Replayed as recorded. -/
  | verbatim

/-- Whether the operation writes, or removes, a number at a cursor path. -/
def isNumericCursorOp (op : PatchOp) : Bool :=
  isAllocationCursor op.path &&
    match op with
    | .remove _ oldValue => isNumber (some oldValue)
    | _ => isNumber op.written

/-- Classify an operation of a batch. -/
def classify (surviving : Survivors) (op : PatchOp) : ReplayClass :=
  if isNumericCursorOp op then
    .cursor
  else if dynamicShapePosition op.path ≠ .outside then
    .preserved (preserverAt (dynamicShapePosition op.path))
  else
    match viewGraphShapePosition op.path, op.path[2]? with
    | .graphsMap, _ => .preserved (makePreserveViewGraphsMap surviving.graphs)
    | .graphView, some (Segment.key graph) =>
      if surviving.graphs.contains graph then .preserved preserveGraphViewCursor else .verbatim
    | _, _ =>
      match occurrenceTopologyShapePosition op.path, op.path[1]? with
      | .map, _ => .preserved (makePreserveOccurrenceTopologiesMap surviving.occurrences)
      | .topology, some (Segment.key occurrence) =>
        if surviving.occurrences.contains occurrence then
          .preserved preserveOccurrenceTopologyCursors
        else
          .verbatim
      | _, _ =>
        if isActorCursorsMap op.path then .preserved preserveActorCursorsMap else .verbatim

/-- The operation a cursor operation becomes, `none` when it is skipped. -/
def replayCursor (current : Option Json) : PatchOp → Option PatchOp
  | .remove _ _ => none
  | .add path value =>
    match current, value with
    | some (.num held), .num wanted =>
      if wanted ≤ held then none
      else some (.replace path (.num wanted) (.num held))
    | _, _ => some (.add path value)
  | .replace path value oldValue =>
    match current, value with
    | some (.num held), .num wanted =>
      if wanted ≤ held then none
      else some (.replace path (.num wanted) (.num held))
    | _, _ => some (.replace path value oldValue)

/-- The operation a preserved operation becomes. -/
def replayPreserved (preserve : Preserve) (current : Option Json) (op : PatchOp) : PatchOp :=
  match op with
  | .remove path _ =>
    match preserve current none, current with
    | some kept, some held => .replace path kept held
    | _, _ => op
  | .add path value =>
    let clamped := (preserve current (some value)).getD value
    match current with
    | none => if clamped = value then op else .add path clamped
    | some held => .replace path clamped held
  | .replace path value _ =>
    let clamped := (preserve current (some value)).getD value
    match current with
    | none => .add path clamped
    | some held => if clamped = value then op else .replace path clamped held

/-- Whether the document still holds what a preserved operation recorded, up to
advanced cursors. -/
def holdsPreserved (preserve : Preserve) (current : Option Json) (op : PatchOp) : Bool :=
  match current, preserve current op.displaced with
  | none, allowed => allowed.isNone
  | some _, none => false
  | some held, some allowed => jsonSameValue held allowed

/-- Whether the document still holds what a verbatim operation recorded. -/
def holdsVerbatim (current : Option Json) : PatchOp → Bool
  | .add _ _ => current.isNone
  | .remove _ oldValue => current.any fun held => jsonSameValue held oldValue
  | .replace _ _ oldValue => current.any fun held => jsonSameValue held oldValue

/-- What the loop does with one operation. -/
inductive ReplayStep where
  | skip
  | stale
  | apply (op : PatchOp)

/-- One iteration of the replay loop, up to the application. -/
def replayStep (surviving : Survivors) (requireRecordedValues : Bool) (cur : Json)
    (op : PatchOp) : ReplayStep :=
  let current := getAtPath cur op.path
  match classify surviving op with
  | .cursor =>
    match replayCursor current op with
    | none => .skip
    | some effective => .apply effective
  | .preserved preserve =>
    if requireRecordedValues && !holdsPreserved preserve current op then .stale
    else .apply (replayPreserved preserve current op)
  | .verbatim =>
    if requireRecordedValues && !holdsVerbatim current op then .stale else .apply op

structure ReplayResult where
  doc : Json
  applied : List PatchOp
  stale : Option PatchOp

def replayLoop (surviving : Survivors) (requireRecordedValues : Bool) :
    Json → List PatchOp → List PatchOp → Except String ReplayResult
  | cur, applied, [] => .ok ⟨cur, applied, none⟩
  | cur, applied, op :: rest =>
    match replayStep surviving requireRecordedValues cur op with
    | .skip => replayLoop surviving requireRecordedValues cur applied rest
    | .stale => .ok ⟨cur, applied, some op⟩
    | .apply effective =>
      match applyOp cur effective with
      | .error error => .error error.message
      | .ok next => replayLoop surviving requireRecordedValues next (applied ++ [effective]) rest

def replayHistoryOps (ops : List PatchOp) (requireRecordedValues : Bool) :
    Except String ReplayResult := do
  let surviving ← survivors doc ops
  replayLoop surviving requireRecordedValues doc [] ops

variable {ops : List PatchOp} {requireRecordedValues : Bool} {result : ReplayResult}

theorem replayLoop_applied {surviving : Survivors} {root cur : Json} {applied : List PatchOp}
    (reached : applyOwnedOps root applied = .ok cur)
    (replayed : replayLoop surviving requireRecordedValues cur applied ops = .ok result) :
    applyOwnedOps root result.applied = .ok result.doc := by
  induction ops generalizing cur applied with
  | nil =>
    cases replayed
    exact reached
  | cons op rest ih =>
    rw [replayLoop] at replayed
    split at replayed
    · exact ih reached replayed
    · cases replayed
      exact reached
    · split at replayed
      · simp at replayed
      · rename_i effective _ _ next appliedOne
        refine ih ?_ replayed
        rw [applyOwnedOps_append _ reached, applyOwnedOps_singleton, appliedOne]

/-- A replay is the application of the operations it reports. -/
theorem replayHistoryOps_applied {doc : Json}
    (replayed : replayHistoryOps doc ops requireRecordedValues = .ok result) :
    applyOwnedOps doc result.applied = .ok result.doc := by
  unfold replayHistoryOps at replayed
  cases found : survivors doc ops with
  | error message => simp [found, bind, Except.bind] at replayed
  | ok surviving =>
    simp only [found, bind, Except.bind] at replayed
    exact replayLoop_applied rfl replayed

end Dinkster.Commands
