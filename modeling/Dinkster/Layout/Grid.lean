import Dinkster.Format.TypeWire

/-!
# The grid of an App layout

Items of an App layout have places on a grid of twelve columns.  Where places overlap, the
placements settle one after the other: each is pushed down past those that have settled, and what
was not pushed then moves up as far as it can.
-/

namespace Dinkster.Layout

open Format List

structure AppLayoutGridFields where
  x : Option Rat
  y : Option Rat
  w : Option Rat
  h : Option Rat

structure AppLayoutGrid where
  x : Int
  y : Int
  w : Int
  h : Int
  deriving DecidableEq

def isSafe (value : Int) : Bool :=
  isSafeInteger value

def safeInteger (value : Option Rat) : Option Int :=
  value.bind fun value => if isSafeInteger value then some value.num else none

def appLayoutGrid (value : AppLayoutGridFields) : Option AppLayoutGrid := do
  let x ← safeInteger value.x
  let y ← safeInteger value.y
  let w ← safeInteger value.w
  let h ← safeInteger value.h
  if x < 0 || 12 ≤ x || y < 0 || w < 1 || 12 < w || h < 1 || 12 < x + w || !isSafe (y + h) then
    none
  else
    some ⟨x, y, w, h⟩

def AppLayoutGrid.fields (grid : AppLayoutGrid) : AppLayoutGridFields :=
  ⟨some grid.x, some grid.y, some grid.w, some grid.h⟩

structure AppLayoutGridPlacement extends AppLayoutGrid where
  id : String
  deriving DecidableEq

def appLayoutGridOverlap (a b : AppLayoutGrid) : Bool :=
  a.x < b.x + b.w && a.x + a.w > b.x && a.y < b.y + b.h && a.y + a.h > b.y

/-- `||` of two numbers. -/
def either (first second : Int) : Int :=
  if first ≠ 0 then first else second

def compareAppLayoutGrid (a b : AppLayoutGrid) : Int :=
  either (a.y - b.y) (a.x - b.x)

def hasOverlap : List AppLayoutGridPlacement → Bool
  | [] => false
  | placement :: others =>
    others.any (fun other => appLayoutGridOverlap placement.toAppLayoutGrid
      other.toAppLayoutGrid) || hasOverlap others

def nextRow (others : List AppLayoutGridPlacement) (current : AppLayoutGridPlacement) : Int :=
  others.foldl
    (fun y other =>
      if appLayoutGridOverlap current.toAppLayoutGrid other.toAppLayoutGrid then
        max y (other.y + other.h)
      else y)
    current.y

section

variable (others : List AppLayoutGridPlacement)

include others

variable (current : AppLayoutGridPlacement)

theorem le_foldl_row (row : Int) : row ≤ others.foldl (fun y other =>
        if appLayoutGridOverlap current.toAppLayoutGrid other.toAppLayoutGrid then
          max y (other.y + other.h)
        else y) row := by
  induction others generalizing row with
  | nil => exact Int.le_refl row
  | cons other others ih =>
    rw [foldl_cons]
    refine Int.le_trans ?_ (ih _)
    split
    · exact Int.le_max_left _ _
    · exact Int.le_refl row

theorem le_nextRow : current.y ≤ nextRow others current :=
  le_foldl_row others current current.y

/-- A placement stays where it is, or comes to stand under one that it overlaps. -/
theorem nextRow_reached : nextRow others current = current.y ∨
      ∃ other ∈ others, nextRow others current = other.y + other.h := by
  unfold nextRow
  generalize current.y = row
  induction others generalizing row with
  | nil => exact .inl rfl
  | cons other others ih =>
    rw [foldl_cons]
    split
    · cases ih (max row (other.y + other.h)) with
      | inl same =>
        rw [same]
        cases Int.max_def row (other.y + other.h) ▸ ite_eq_or_eq _ _ _ with
        | inl lower => exact .inr ⟨other, mem_cons_self, lower⟩
        | inr stays => exact .inl stays
      | inr reached =>
        obtain ⟨under, listed, same⟩ := reached
        exact .inr ⟨under, mem_cons_of_mem _ listed, same⟩
    · cases ih row with
      | inl same => exact .inl same
      | inr reached =>
        obtain ⟨under, listed, same⟩ := reached
        exact .inr ⟨under, mem_cons_of_mem _ listed, same⟩

end

def ahead (others : List AppLayoutGridPlacement) (row : Int) : List AppLayoutGridPlacement :=
  others.filter fun other => row < other.y + other.h

/-- Every push leaves a lower edge behind. -/
theorem length_ahead_lt {others : List AppLayoutGridPlacement} {current : AppLayoutGridPlacement}
    (moved : nextRow others current ≠ current.y) :
    (ahead others (nextRow others current)).length < (ahead others current.y).length := by
  have lower := le_nextRow others current
  have narrowed : ahead others (nextRow others current) =
      (ahead others current.y).filter fun other =>
        nextRow others current < other.y + other.h := by
    unfold ahead
    rw [filter_filter]
    refine filter_congr fun other _ => ?_
    rw [← Bool.decide_and, decide_eq_decide]
    omega
  rw [narrowed, length_filter_lt_length_iff_exists]
  obtain ⟨other, listed, reached⟩ := (nextRow_reached others current).resolve_left moved
  refine ⟨other, mem_filter.mpr ⟨listed, ?_⟩, ?_⟩
  all_goals
    rw [decide_eq_true_eq]
    omega

/-- The `while` loop of `resolveAppLayoutGrid`, behind the placements that have settled; nothing
where a row is not safe. -/
def push (safe : Int → Bool) (others : List AppLayoutGridPlacement)
    (current : AppLayoutGridPlacement) : Option AppLayoutGridPlacement :=
  let y := nextRow others current
  if y = current.y then some current
  else if !safe y || !safe (y + current.h) then none
  else push safe others { current with y }
  termination_by (ahead others current.y).length
  decreasing_by
    rename_i moved _
    exact length_ahead_lt moved

/-- What `resolveAppLayoutGrid` keeps of the placements while they settle. -/
structure Settlement (count : Nat) where
  states : Fin count → AppLayoutGridPlacement
  pushed : List (Fin count)
  settled : List (Fin count)

section Resolution

variable {count : Nat}

variable (states : Fin count → AppLayoutGridPlacement)

/-- The comparison that puts the placements in order. -/
def turn (priorityId : Option String) (left right : Fin count) : Int :=
  let leftPriority := if some (states left).id = priorityId then -1 else 0
  let rightPriority := if some (states right).id = priorityId then -1 else 0
  either (leftPriority - rightPriority)
    (either (compareAppLayoutGrid (states left).toAppLayoutGrid (states right).toAppLayoutGrid)
      (left - right))

def order (priorityId : Option String) : List (Fin count) :=
  (finRange count).insertionSort fun left right => turn states priorityId left right ≤ 0

/-- One placement settles.  Rows only grow, so a placement was pushed where its row is another. -/
def settle (safe : Int → Bool) (settlement : Settlement count) (index : Fin count) :
    Option (Settlement count) :=
  (push safe (settlement.settled.map settlement.states) (settlement.states index)).map
    fun current =>
      { states := Function.update settlement.states index current
        pushed :=
          if current.y = (settlement.states index).y then settlement.pushed
          else settlement.pushed ++ [index]
        settled := settlement.settled ++ [index] }

/-- The first loop of `resolveAppLayoutGrid`. -/
def settleAll (safe : Int → Bool) (settlement : Settlement count) :
    List (Fin count) → Option (Settlement count)
  | [] => some settlement
  | index :: rest => do
    let settlement ← settle safe settlement index
    settleAll safe settlement rest

/-- The rows that a placement might move up to. -/
def candidates (index : Fin count) : List Int :=
  let current := states index
  let edges := (finRange count).flatMap fun otherIndex =>
    let other := states otherIndex
    if otherIndex = index || other.x ≥ current.x + current.w || other.x + other.w ≤ current.x then
      []
    else [other.y + other.h]
  ((0 :: edges).filter (· ≤ current.y)).insertionSort (· ≤ ·)

/-- One turn of the second loop: a placement that was not pushed moves up. -/
def compact (priorityId : Option String) (pushed : List (Fin count))
    (states : Fin count → AppLayoutGridPlacement) (index : Fin count) :
    Fin count → AppLayoutGridPlacement :=
  if some (states index).id = priorityId || index ∈ pushed then states
  else
    let fits := fun y => (finRange count).all fun otherIndex =>
      otherIndex = index ||
        !appLayoutGridOverlap { (states index).toAppLayoutGrid with y }
          (states otherIndex).toAppLayoutGrid
    match (candidates states index).find? fits with
    | some y => Function.update states index { states index with y }
    | none => states

end Resolution

/-- `resolveAppLayoutGrid`, for the rows that are taken to be safe. -/
def resolveWithin (safe : Int → Bool) (placements : List AppLayoutGridPlacement)
    (priorityId : Option String) : Option (List AppLayoutGridPlacement) :=
  if !hasOverlap placements then some placements
  else do
    let order := order placements.get priorityId
    let settlement ← settleAll safe ⟨placements.get, [], []⟩ order
    let states := order.foldl (compact priorityId settlement.pushed) settlement.states
    let same := fun index =>
      let placement := placements.get index
      let resolved := states index
      compareAppLayoutGrid placement.toAppLayoutGrid resolved.toAppLayoutGrid = 0 &&
        placement.w = resolved.w && placement.h = resolved.h
    let result := ofFn fun index =>
      if same index then placements.get index else states index
    if (finRange placements.length).all same then some placements else some result

def resolveAppLayoutGrid (placements : List AppLayoutGridPlacement) (priorityId : Option String) :
    Option (List AppLayoutGridPlacement) :=
  resolveWithin isSafe placements priorityId

end Dinkster.Layout
