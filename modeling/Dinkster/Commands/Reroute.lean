import Dinkster.Commands.Contract

/-!
# An allocating command

Commands that create something mint its id from a cursor of the graph: the
graph-wide `nextOrdinal`, or the cursor of the acting actor when there is one.
`reroute.add` is the smallest built-in command that does so.
-/

namespace Dinkster.Commands

open Library Format

variable {Authority : Type}

/-- `actorCursorOf`: the cursor of an actor, zero before its first allocation. -/
def actorCursorOf (cursors : Option Json) (actor : String) : Rat :=
  match cursors.bind fun cursors => ownChild cursors (.key actor) with
  | some (.num ordinal) => ordinal
  | _ => 0

def allocationOrdinalOf (definition : Json) (actor : Option String) : Rat :=
  match actor with
  | some actor => actorCursorOf (ownChild definition (.key "actorCursors")) actor
  | none =>
    match ownChild definition (.key "nextOrdinal") with
    | some (.num ordinal) => ordinal
    | _ => 0

def formatAllocatedId (letter : String) (ordinal : Rat) (actor : Option String) : String :=
  let ordinal := numberText ordinal
  match actor with
  | none => s!"{letter}{ordinal}"
  | some actor => s!"{letter}{ordinal}-{actor}"

variable (graphId : String)

/-- `commit` of a `graphAllocator` whose cursor moved to an ordinal. -/
def commitAllocation (definition : Json) (actor : Option String) (ordinal : Rat) : TxCall :=
  match actor with
  | none => .set [.key "graphs", .key graphId, .key "nextOrdinal"] (.num ordinal)
  | some actor =>
    match ownChild definition (.key "actorCursors") with
    | none =>
      .set [.key "graphs", .key graphId, .key "actorCursors"] (.obj [(actor, .num ordinal)])
    | some _ =>
      .set [.key "graphs", .key graphId, .key "actorCursors", .key actor] (.num ordinal)

/-- `allocateOne`: the minted id and the call that records the cursor, unless
`guardOrdinal` finds the id space exhausted. -/
def allocateOne (definition : Json) (actor : Option String)
    (letter : String) : Except String (String × TxCall) :=
  let start := allocationOrdinalOf definition actor
  if start ≥ 9007199254740991 then
    let ordinal := numberText start
    .error s!"id space exhausted: ordinal cursor is at {ordinal}"
  else
    .ok (formatAllocatedId letter start actor,
      commitAllocation graphId definition actor (start + 1))

def graphOf (doc : Json) (graphId : Option Json) : Option (String × Json) :=
  match graphId with
  | some (.str graphId) =>
    (getAtPath doc [.key "graphs", .key graphId]).map fun definition => (graphId, definition)
  | _ => none

def ensureViewReroutes (doc : Json) (graphId : String) : List TxCall :=
  match getAtPath doc [.key "view", .key "graphs", .key graphId] with
  | none =>
    [.set [.key "view", .key "graphs", .key graphId]
      (.obj [("nodes", .obj []), ("reroutes", .obj [])])]
  | some view =>
    match ownChild view (.key "reroutes") with
    | none => [.set [.key "view", .key "graphs", .key graphId, .key "reroutes"] (.obj [])]
    | some _ => []

def positionOf (params : Json) : Option (Rat × Rat) :=
  match ownChild params (.key "position") with
  | some position =>
    match ownChild position (.key "x"), ownChild position (.key "y") with
    | some (.num x), some (.num y) => some (x, y)
    | _, _ => none
  | none => none

/-- `reroute.add {graphId, position}`.  The view is read from the document: the
calls before it write to the graph only. -/
def rerouteAdd (Authority : Type) : CommandDefinition Authority where
  prepareForSharedReplay := none
  transformForRebase := none
  validateDispatch := none
  run := fun doc params actor _ =>
    match positionOf params with
    | none =>
      ⟨[], .ok [commandError "params.invalid"
        "reroute.add: params must be \x7bgraphId, position\x7d"]⟩
    | some (x, y) =>
      match graphOf doc (ownChild params (.key "graphId")) with
      | none =>
        let graphId := ((ownChild params (.key "graphId")).map stringText).getD "undefined"
        ⟨[], .ok [commandError "graph.missing" s!"reroute.add: unknown graph '{graphId}'"]⟩
      | some (graphId, definition) =>
        match allocateOne graphId definition actor "r" with
        | .error message => ⟨[], .error message⟩
        | .ok (id, allocation) =>
          ⟨[allocation,
              .set [.key "graphs", .key graphId, .key "reroutes", .key id]
                (.obj [("id", .str id)])] ++
            ensureViewReroutes doc graphId ++
            [.set [.key "view", .key "graphs", .key graphId, .key "reroutes", .key id]
              (.obj [("position", .obj [("x", .num x), ("y", .num y)])])], .ok []⟩

def rerouteAddParams (x y : Rat) : Json :=
  .obj [("graphId", .str graphId), ("position", .obj [("x", .num x), ("y", .num y)])]

def emptyGraph (id : String) : Json :=
  .obj [("id", .str id), ("name", .str id), ("nodes", .obj []), ("links", .obj []),
    ("nets", .obj []), ("reroutes", .obj []), ("nextOrdinal", .num 0)]

/-- A workflow document with these graphs, of which `main` is the root. -/
def workflowDocument (graphs : List (String × Json)) : Json :=
  .obj [("format", .str "dinkster-workflow"), ("formatVersion", .num 1),
    ("lineage", .str "lineage"), ("root", .str "main"), ("graphs", .obj graphs),
    ("view", .obj [("graphs", .obj [])])]

end Dinkster.Commands
