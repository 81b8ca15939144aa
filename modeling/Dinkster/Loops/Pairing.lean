import Dinkster.Library.Waypoints

/-!
# Pairing the loops of an imported graph

A loop of an imported graph is a start node and an end node.  Ends are paired from the outside of
the graph inwards, each with the closest start above it that is left, and nothing between the two
may leave the loop.
-/

namespace Dinkster.Loops

open Library

/-- `RawNode`, with the names of its inputs. -/
structure RawNode where
  id : Int
  type : String
  inputs : List (Option String)

/-- `RawLink`: its `from`, its `to` and the slot there. -/
structure RawLink where
  source : Int
  target : Int
  toSlot : Int

structure LoopPair where
  start : Int
  «end» : Int
  body : List Int

structure LoopError where
  code : String
  message : String

def loopError (code message : String) : LoopError := ⟨"import.loop." ++ code, message⟩

/-- `[...ids].sort((a, b) => a - b)`. -/
def sorted (ids : List Int) : List Int := ids.insertionSort (· ≤ ·)

/-- The sorted ids, as a text. -/
def joined (ids : List Int) : String := ", ".intercalate ((sorted ids).map toString)

section

variable (nodes : List RawNode) (links : List RawLink)

def nodeIds : List Int := (nodes.map RawNode.id).eraseDups

def innerLinks : List RawLink :=
  links.filter fun link => link.source ∈ nodeIds nodes && link.target ∈ nodeIds nodes

variable (id : Int)

def children : List Int :=
  (((innerLinks nodes links).filter (·.source = id)).map RawLink.target).eraseDups

def parents : List Int :=
  (((innerLinks nodes links).filter (·.target = id)).map RawLink.source).eraseDups

def ofType (type : String) : List Int :=
  ((nodes.filter (·.type = type)).map RawNode.id).eraseDups

def walk (starts : List Int) (edges : Int → List Int) (stops : List Int) : List Int :=
  closure (halting edges stops) (nodeIds nodes) starts

/-- `walk`, returning the stops that are reached. -/
def walkStops (starts : List Int) (edges : Int → List Int) (stops : List Int) : List Int :=
  (walk nodes starts edges stops).filter (· ∈ stops)

/-- `terminal`: the nodes without children. -/
def terminal : List Int := (nodeIds nodes).filter fun id => children nodes links id = []

/-- `startDag`: the starts next below a start. -/
def startDag : List Int :=
  walkStops nodes (children nodes links id) (children nodes links) (ofType nodes "StartLoop")

/-- `startDescendants`: all starts below a start. -/
def startDescendants : List Int :=
  walk nodes (startDag nodes links id) (startDag nodes links) []

/-- `endDag`: the ends next above an end. -/
def endDag : List Int :=
  walkStops nodes (parents nodes links id) (parents nodes links) (ofType nodes "EndLoop")

variable (remainingEnds : List Int)

def nextEnd : Option Int :=
  (sorted remainingEnds).find? fun candidate =>
    (endDag nodes links candidate).all (· ∉ remainingEnds)

def candidatesOf (remainingStarts : List Int) (id : Int) : List Int :=
  walkStops nodes (parents nodes links id) (parents nodes links) remainingStarts

def closestOf (candidates : List Int) : List Int :=
  candidates.filter fun candidate => candidates.all fun other =>
    other = candidate || candidate ∈ startDescendants nodes links other

/-- The stops that are reached from a start without passing through its end. -/
def escapesOf (start id : Int) : List Int :=
  (walkStops nodes (children nodes links start) (children nodes links)
    (remainingEnds ++ terminal nodes links ++ [id])).filter (· ≠ id)

def startOf (remainingStarts remainingEnds : List Int) (id : Int) : Except LoopError Int :=
  let candidates := candidatesOf nodes links remainingStarts id
  if candidates = [] then
    .error (loopError "unmatchedEnd" s!"End Loop {id} has no available Start Loop")
  else
    match closestOf nodes links candidates with
    | [start] =>
      let escapes := escapesOf nodes links (remainingEnds.filter (· ≠ id)) start id
      if escapes = [] then .ok start
      else
        .error (loopError "bodyEscape"
          s!"Start Loop {start} reaches {joined escapes} without passing through End Loop {id}")
    | _ =>
      .error (loopError "ambiguousNesting"
        s!"End Loop {id} can close multiple unrelated Start Loops: {joined candidates}")

/-- The loop of `pairLoops`: the pairs, and the starts that remain.  Every turn pairs one of the
remaining ends. -/
def pairEnds : Nat → List Int → List Int → Except LoopError (List (Int × Int) × List Int)
  | 0, remainingStarts, _ => .ok ([], remainingStarts)
  | turns + 1, remainingStarts, remainingEnds =>
    match nextEnd nodes links remainingEnds with
    | none => .ok ([], remainingStarts)
    | some id =>
      match startOf nodes links remainingStarts remainingEnds id with
      | .error error => .error error
      | .ok start =>
        match pairEnds turns (remainingStarts.filter (· ≠ start))
            (remainingEnds.filter (· ≠ id)) with
        | .error error => .error error
        | .ok (paired, left) => .ok ((start, id) :: paired, left)

def bodyOf (start id : Int) : List Int :=
  (walk nodes (children nodes links start) (children nodes links) [id]).filter (· ≠ id)

def inputName (id slot : Int) : Option String :=
  (nodes.find? (·.id = id)).bind fun node =>
    if 0 ≤ slot then (node.inputs[slot.toNat]?).join else none

def accumulateError (start id : Int) : Option LoopError :=
  (links.find? fun link =>
    link.target = id && inputName nodes id link.toSlot = some "accumulate").bind fun link =>
    if link.source = start ∨ link.source ∈ bodyOf nodes links start id then
      some (loopError "accumulateFromBody"
        s!"End Loop {id} accumulate is driven by loop node {link.source} under Start Loop {start}")
    else none

/-- `pairLoops`: the pairs, and the errors that are added. -/
def pairLoops : List LoopPair × List LoopError :=
  let starts := ofType nodes "StartLoop"
  let ends := ofType nodes "EndLoop"
  if starts = [] ∧ ends = [] then ([], [])
  else
    match pairEnds nodes links ends.length starts ends with
    | .error error => ([], [error])
    | .ok (paired, left) =>
      if left ≠ [] then
        ([], [loopError "unmatchedStart" s!"Start Loops without End Loops: {joined left}"])
      else
        (paired.map fun pair => ⟨pair.1, pair.2, bodyOf nodes links pair.1 pair.2⟩,
          paired.filterMap fun pair => accumulateError nodes links pair.1 pair.2)

end

end Dinkster.Loops
