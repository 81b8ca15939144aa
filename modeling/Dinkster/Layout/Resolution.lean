import Dinkster.Layout.Grid

/-!
# Resolution makes a layout proper

Placements that settled stay apart from each other, and moving up keeps them apart.  Only rows
change, and only a row that is not safe ends the resolution.
-/

namespace Dinkster.Layout

open Format List Option
open Function (comp_apply update update_of_ne update_self)

theorem isSafe_iff {value : Int} :
    isSafe value = true ↔ -(2 ^ 53 - 1) ≤ value ∧ value ≤ 2 ^ 53 - 1 := by
  have limit : ((2 ^ 53 - 1 : Int) : Rat) = 2 ^ 53 - 1 := by norm_num
  unfold isSafe isSafeInteger
  rw [Bool.and_eq_true, Bool.and_eq_true, decide_eq_true_eq, decide_eq_true_eq,
    decide_eq_true_eq, Rat.den_intCast, and_iff_right rfl, ← limit, ← Int.cast_neg,
    Rat.intCast_le_intCast, Rat.intCast_le_intCast]

theorem safeInteger_intCast (value : Int) :
    safeInteger (some (value : Rat)) = if isSafe value then some value else none := by
  unfold safeInteger isSafe
  rw [bind_some, Rat.num_intCast]

/-- The bounds of a place that is admitted. -/
structure Fits (grid : AppLayoutGrid) : Prop where
  x : 0 ≤ grid.x
  y : 0 ≤ grid.y
  w : 1 ≤ grid.w
  h : 1 ≤ grid.h
  right : grid.x + grid.w ≤ 12
  lower : isSafe (grid.y + grid.h) = true

/-- `appLayoutGrid` admits what is within the bounds. -/
theorem appLayoutGrid_fields (grid : AppLayoutGrid) :
    appLayoutGrid grid.fields = some grid ↔ Fits grid := by
  obtain ⟨x, y, w, h⟩ := grid
  unfold appLayoutGrid AppLayoutGrid.fields
  simp only [safeInteger_intCast]
  constructor
  · intro admitted
    simp only [bind_eq_bind, bind_eq_some_iff, ite_none_right_eq_some, some.injEq] at admitted
    obtain ⟨_, ⟨_, rfl⟩, _, ⟨_, rfl⟩, _, ⟨_, rfl⟩, _, ⟨_, rfl⟩, admitted⟩ := admitted
    split at admitted
    · cases admitted
    · rename_i bounds
      simp only [Bool.or_eq_true, decide_eq_true_eq, Bool.not_eq_true', not_or,
        Bool.not_eq_false] at bounds
      obtain ⟨⟨⟨⟨⟨⟨⟨x, _⟩, y⟩, w⟩, _⟩, h⟩, right⟩, lower⟩ := bounds
      exact ⟨by simpa using x, by simpa using y, by simpa using w, by simpa using h,
        by simpa using right, lower⟩
  · rintro ⟨hx, hy, hw, hh, right, lower⟩
    have bounds := isSafe_iff.mp lower
    dsimp only at hx hy hw hh right bounds
    have safe : ∀ value : Int, 0 ≤ value → value ≤ y + h ∨ value ≤ 12 → isSafe value = true :=
      fun value positive small => isSafe_iff.mpr (by omega)
    rw [safe x hx (by omega), safe y hy (by omega), safe w (by omega) (by omega),
      safe h (by omega) (by omega)]
    simp only [bind_eq_bind, if_true, bind_some]
    rw [if_neg]
    rw [lower, Bool.not_true, Bool.or_false]
    simp only [Bool.or_eq_true, decide_eq_true_eq]
    omega

theorem overlap_eq_true {a b : AppLayoutGrid} : appLayoutGridOverlap a b = true ↔
    a.x < b.x + b.w ∧ b.x < a.x + a.w ∧ a.y < b.y + b.h ∧ b.y < a.y + a.h := by
  unfold appLayoutGridOverlap
  simp only [Bool.and_eq_true, decide_eq_true_eq, gt_iff_lt, and_assoc]

theorem overlap_comm (a b : AppLayoutGrid) :
    appLayoutGridOverlap a b = appLayoutGridOverlap b a := by
  rw [Bool.eq_iff_iff, overlap_eq_true, overlap_eq_true]
  omega

theorem hasOverlap_eq_false {placements : List AppLayoutGridPlacement} :
    hasOverlap placements = false ↔ placements.Pairwise fun placement other =>
      appLayoutGridOverlap placement.toAppLayoutGrid other.toAppLayoutGrid = false := by
  induction placements with
  | nil => exact ⟨fun _ => List.Pairwise.nil, fun _ => rfl⟩
  | cons placement others ih =>
    unfold hasOverlap
    rw [Bool.or_eq_false_iff, List.any_eq_false, pairwise_cons, ih]
    simp only [Bool.not_eq_true]

section Push

variable {others : List AppLayoutGridPlacement} {current next other : AppLayoutGridPlacement}
  {safe : Int → Bool}

theorem le_nextRow_of_overlap (listed : other ∈ others)
    (overlaps : appLayoutGridOverlap current.toAppLayoutGrid other.toAppLayoutGrid = true) :
    other.y + other.h ≤ nextRow others current := by
  unfold nextRow
  generalize current.y = row
  induction others generalizing row with
  | nil => exact absurd listed not_mem_nil
  | cons first others ih =>
    rw [foldl_cons]
    cases mem_cons.mp listed with
    | inl here =>
      subst here
      rw [if_pos overlaps]
      exact Int.le_trans (Int.le_max_right _ _) (le_foldl_row others current _)
    | inr there => exact ih there _

/-- A placement that nothing pushes overlaps nothing. -/
theorem apart_of_nextRow (stays : nextRow others current = current.y) (listed : other ∈ others) :
    appLayoutGridOverlap current.toAppLayoutGrid other.toAppLayoutGrid = false := by
  refine Bool.eq_false_iff.mpr fun overlaps => ?_
  have under := le_nextRow_of_overlap listed overlaps
  have above := (overlap_eq_true.mp overlaps).2.2.1
  rw [stays] at under
  exact absurd above (Int.not_lt.mpr under)

theorem push_spec (reached : push safe others current = some next) :
    next = { current with y := next.y } ∧ current.y ≤ next.y ∧ (∀ other ∈ others,
        appLayoutGridOverlap next.toAppLayoutGrid other.toAppLayoutGrid = false) := by
  fun_induction push safe others current with
  | case1 current y stays =>
    cases reached
    exact ⟨rfl, Int.le_refl _, fun other listed => apart_of_nextRow stays listed⟩
  | case2 => cases reached
  | case3 current y moved inside ih =>
    obtain ⟨shape, lower, apart⟩ := ih reached
    exact ⟨shape, Int.le_trans (le_nextRow others current) lower, apart⟩

/-- Without a limit every push leads somewhere. -/
theorem push_total (others : List AppLayoutGridPlacement) (current : AppLayoutGridPlacement) :
    ∃ next, push (fun _ => true) others current = some next := by
  fun_induction push (fun _ => true) others current with
  | case1 current y stays => exact ⟨current, rfl⟩
  | case2 current y moved outside => simp at outside
  | case3 current y moved inside ih => exact ih

/-- A push within the limit leads where it would without, unless that is not safe. -/
theorem push_isSafe (reached : push (fun _ => true) others current = some next)
    (row : 0 ≤ current.y) (height : 0 ≤ current.h) : push isSafe others current =
      if next.y = current.y ∨ isSafe (next.y + next.h) = true then some next else none := by
  fun_induction push (fun _ => true) others current with
  | case1 current y stays =>
    cases reached
    rw [push, if_pos stays, if_pos (.inl rfl)]
  | case2 current y moved outside => simp at outside
  | case3 current y moved inside ih =>
    have above : current.y < y := lt_of_le_of_ne (le_nextRow others current) (Ne.symm moved)
    have lower : y ≤ next.y := (push_spec reached).2.1
    have height_eq : next.h = current.h := by rw [(push_spec reached).1]
    have moved_on : next.y ≠ current.y := by omega
    have unfolded : push isSafe others current =
        if (!isSafe y || !isSafe (y + current.h)) = true then none
        else push isSafe others { current with y } := by
      rw [push]
      exact if_neg moved
    have later : push isSafe others { current with y } =
        if next.y = y ∨ isSafe (next.y + next.h) = true then some next else none :=
      ih reached (Int.le_trans row (Int.le_of_lt above)) height
    rw [unfolded, later]
    by_cases bottom : isSafe (next.y + next.h) = true
    · have bounds := isSafe_iff.mp bottom
      have step : isSafe y = true := isSafe_iff.mpr (by omega)
      have edge : isSafe (y + current.h) = true := isSafe_iff.mpr (by omega)
      rw [step, edge, Bool.not_true, Bool.or_self, if_neg Bool.false_ne_true,
        if_pos (.inr bottom), if_pos (.inr bottom)]
    · have ends : ¬ (next.y = current.y ∨ isSafe (next.y + next.h) = true) :=
        fun either => either.elim moved_on bottom
      rw [if_neg ends]
      by_cases outside : (!isSafe y || !isSafe (y + current.h)) = true
      · exact if_pos outside
      · rw [if_neg outside]
        refine if_neg fun either => either.elim (fun same => ?_) bottom
        rw [Bool.or_eq_true, not_or, Bool.not_eq_true', Bool.not_eq_true',
          Bool.not_eq_false, Bool.not_eq_false] at outside
        rw [same, height_eq] at bottom
        exact bottom outside.2

end Push

/-! ## Settling -/

section Settling

variable {count : Nat} {start : Fin count → AppLayoutGridPlacement}
  {settlement after : Settlement count} {index : Fin count} {safe : Int → Bool}

structure Settling (start : Fin count → AppLayoutGridPlacement) (settlement : Settlement count) :
    Prop where
  shape : ∀ index, settlement.states index =
    { start index with y := (settlement.states index).y }
  lower : ∀ index, (start index).y ≤ (settlement.states index).y
  still : ∀ index, index ∉ settlement.pushed → settlement.states index = start index
  settled : ∀ index ∈ settlement.pushed, index ∈ settlement.settled
  apart : ∀ index ∈ settlement.settled, ∀ other ∈ settlement.settled, index ≠ other →
    appLayoutGridOverlap (settlement.states index).toAppLayoutGrid
      (settlement.states other).toAppLayoutGrid = false

theorem settling_start (start : Fin count → AppLayoutGridPlacement) :
    Settling start ⟨start, [], []⟩ :=
  ⟨fun _ => rfl, fun _ => Int.le_refl _, fun _ _ => rfl, nofun, nofun⟩

theorem settle_eq_some (settles : settle safe settlement index = some after) : ∃ current,
      push safe (settlement.settled.map settlement.states) (settlement.states index) =
        some current ∧ after =
        { states := update settlement.states index current
          pushed :=
            if current.y = (settlement.states index).y then settlement.pushed
            else settlement.pushed ++ [index]
          settled := settlement.settled ++ [index] } := by
  obtain ⟨current, reached, rfl⟩ := map_eq_some_iff.mp settles
  exact ⟨current, reached, rfl⟩

theorem settle_states_of_ne (settles : settle safe settlement index = some after)
    {other : Fin count} (different : other ≠ index) :
    after.states other = settlement.states other := by
  obtain ⟨current, _, rfl⟩ := settle_eq_some settles
  exact update_of_ne different _ _

theorem Settling.settle (settling : Settling start settlement)
    (fresh : index ∉ settlement.settled) (settles : settle safe settlement index = some after) :
    Settling start after := by
  obtain ⟨current, reached, rfl⟩ := settle_eq_some settles
  obtain ⟨shape, lower, apart⟩ := push_spec reached
  have clear : ∀ other ∈ settlement.settled, appLayoutGridOverlap current.toAppLayoutGrid
        (settlement.states other).toAppLayoutGrid = false :=
    fun other listed => apart _ (mem_map_of_mem listed)
  have elsewhere : ∀ other ∈ settlement.settled, other ≠ index :=
    fun other listed same => fresh (same ▸ listed)
  refine ⟨fun other => ?_, fun other => ?_, fun other unpushed => ?_, fun other listed => ?_,
    fun first listed second member different => ?_⟩
  · by_cases own : other = index
    · subst own
      dsimp only
      rw [update_self, shape, settling.shape other]
    · dsimp only
      rw [update_of_ne own]
      exact settling.shape other
  · by_cases own : other = index
    · subst own
      dsimp only
      rw [update_self]
      exact Int.le_trans (settling.lower other) lower
    · dsimp only
      rw [update_of_ne own]
      exact settling.lower other
  · dsimp only at unpushed ⊢
    by_cases own : other = index
    · subst own
      rw [update_self]
      split at unpushed
      · rename_i same
        rw [shape, same]
        exact settling.still other unpushed
      · exact absurd (mem_append_right _ (mem_singleton_self other)) unpushed
    · rw [update_of_ne own]
      refine settling.still other fun listed => unpushed ?_
      split
      · exact listed
      · exact mem_append_left _ listed
  · dsimp only at listed ⊢
    split at listed
    · exact mem_append_left _ (settling.settled other listed)
    · cases mem_append.mp listed with
      | inl before => exact mem_append_left _ (settling.settled other before)
      | inr own => exact mem_append_right _ own
  · dsimp only at listed member ⊢
    cases mem_append.mp listed with
    | inl before =>
      rw [update_of_ne (elsewhere first before)]
      cases mem_append.mp member with
      | inl too =>
        rw [update_of_ne (elsewhere second too)]
        exact settling.apart first before second too different
      | inr own =>
        obtain rfl := mem_singleton.mp own
        rw [update_self, overlap_comm]
        exact clear first before
    | inr own =>
      obtain rfl := mem_singleton.mp own
      rw [update_self]
      cases mem_append.mp member with
      | inl too =>
        rw [update_of_ne (elsewhere second too)]
        exact clear second too
      | inr same => exact absurd (mem_singleton.mp same).symm different

theorem settleAll_cons {rest : List (Fin count)} : settleAll safe settlement (index :: rest) =
      (Layout.settle safe settlement index).bind fun after => settleAll safe after rest :=
  rfl

theorem Settling.settleAll {indices : List (Fin count)} (settling : Settling start settlement)
    (once : (settlement.settled ++ indices).Nodup)
    (settles : settleAll safe settlement indices = some after) :
    Settling start after ∧ after.settled = settlement.settled ++ indices ∧
      ∀ other, other ∉ indices → after.states other = settlement.states other := by
  induction indices generalizing settlement with
  | nil =>
    cases settles
    exact ⟨settling, (append_nil _).symm, fun _ _ => rfl⟩
  | cons index rest ih =>
    rw [settleAll_cons, bind_eq_some_iff] at settles
    obtain ⟨middle, first, settles⟩ := settles
    have fresh : index ∉ settlement.settled := fun listed =>
      (nodup_append.mp once).2.2 index listed index mem_cons_self rfl
    have listed : middle.settled = settlement.settled ++ [index] := by
      obtain ⟨_, _, rfl⟩ := settle_eq_some first
      rfl
    have once : (middle.settled ++ rest).Nodup := by
      rw [listed, append_assoc]
      exact once
    obtain ⟨settled, all, kept⟩ := ih (settling.settle fresh first) once settles
    refine ⟨settled, ?_, fun other missing => ?_⟩
    · rw [all, listed, append_assoc]
      rfl
    · rw [mem_cons, not_or] at missing
      rw [kept other missing.2, settle_states_of_ne first missing.1]

theorem settleAll_total (indices : List (Fin count)) (settlement : Settlement count) :
    ∃ after, settleAll (fun _ => true) settlement indices = some after := by
  induction indices generalizing settlement with
  | nil => exact ⟨settlement, rfl⟩
  | cons index rest ih =>
    obtain ⟨current, reached⟩ :=
      push_total (settlement.settled.map settlement.states) (settlement.states index)
    have first : settle (fun _ => true) settlement index = some _ :=
      map_eq_some_iff.mpr ⟨current, reached, rfl⟩
    obtain ⟨after, settles⟩ := ih _
    refine ⟨after, ?_⟩
    rw [settleAll_cons, first]
    exact settles

/-- The lower edge of a placement. -/
def bottom (placement : AppLayoutGridPlacement) : Int :=
  placement.y + placement.h

/-- One placement settles within the limit, unless its lower edge is not safe. -/
theorem settle_isSafe (fits : Fits (settlement.states index).toAppLayoutGrid)
    (settles : settle (fun _ => true) settlement index = some after) :
    settle isSafe settlement index =
      if isSafe (bottom (after.states index)) = true then some after else none := by
  obtain ⟨current, reached, rfl⟩ := settle_eq_some settles
  have height := fits.h
  have within := push_isSafe reached fits.y (by omega)
  have decides : (current.y = (settlement.states index).y ∨
      isSafe (current.y + current.h) = true) ↔ isSafe (bottom current) = true := by
    refine ⟨fun either => either.elim (fun same => ?_) id, .inr⟩
    have shape := (push_spec reached).1
    rw [same] at shape
    rw [shape]
    exact fits.lower
  simp only [decides] at within
  unfold settle
  rw [within]
  by_cases inside : isSafe (bottom current) = true
  · rw [if_pos inside]
    refine (if_pos ?_).symm
    dsimp only
    rw [update_self]
    exact inside
  · rw [if_neg inside]
    refine (if_neg ?_).symm
    dsimp only
    rw [update_self]
    exact inside

/-- The placements settle within the limit, unless some lower edge is not safe. -/
theorem settleAll_isSafe {indices : List (Fin count)} (settling : Settling start settlement)
    (fits : ∀ index, Fits (start index).toAppLayoutGrid)
    (once : (settlement.settled ++ indices).Nodup)
    (settles : settleAll (fun _ => true) settlement indices = some after) :
    settleAll isSafe settlement indices =
      if ∀ index ∈ indices, isSafe (bottom (after.states index)) = true then some after
      else none := by
  induction indices generalizing settlement with
  | nil =>
    cases settles
    exact (if_pos nofun).symm
  | cons index rest ih =>
    rw [settleAll_cons, bind_eq_some_iff] at settles
    obtain ⟨middle, first, settles⟩ := settles
    have fresh : index ∉ settlement.settled := fun listed =>
      (nodup_append.mp once).2.2 index listed index mem_cons_self rfl
    have listed : middle.settled = settlement.settled ++ [index] := by
      obtain ⟨_, _, rfl⟩ := settle_eq_some first
      rfl
    have unsettled : settlement.states index = start index :=
      settling.still index fun pushed => fresh (settling.settled index pushed)
    have next := settling.settle fresh first
    have once_next : (middle.settled ++ rest).Nodup := by
      rw [listed, append_assoc]
      exact once
    have out : index ∉ rest := (nodup_cons.mp (nodup_append.mp once).2.1).1
    have kept : after.states index = middle.states index :=
      (next.settleAll once_next settles).2.2 index out
    rw [settleAll_cons, settle_isSafe (unsettled ▸ fits index) first, ← kept]
    by_cases within : isSafe (bottom (after.states index)) = true
    · rw [if_pos within]
      refine (ih next once_next settles).trans ?_
      simp only [forall_mem_cons, within, true_and]
    · rw [if_neg within, if_neg fun all => within (all index mem_cons_self)]
      rfl

theorem settleAll_first {rest : List (Fin count)} (once : (index :: rest).Nodup)
    (settles : settleAll safe ⟨start, [], []⟩ (index :: rest) = some after) :
    after.states index = start index := by
  rw [settleAll_cons, bind_eq_some_iff] at settles
  obtain ⟨middle, first, settles⟩ := settles
  have next := (settling_start start).settle not_mem_nil first
  obtain ⟨current, reached, rfl⟩ := settle_eq_some first
  have stays : push safe [] (start index) = some (start index) := by
    rw [push]
    exact if_pos rfl
  cases some.inj (stays.symm.trans reached)
  rw [(next.settleAll once settles).2.2 index (nodup_cons.mp once).1]
  exact update_self _ _ _

end Settling

/-! ## Moving up -/

section Compact

variable {count : Nat} {states : Fin count → AppLayoutGridPlacement}
  {priorityId : Option String} {pushed : List (Fin count)}

def Apart (states : Fin count → AppLayoutGridPlacement) : Prop :=
  ∀ index other, index ≠ other →
    appLayoutGridOverlap (states index).toAppLayoutGrid (states other).toAppLayoutGrid = false

structure Raised (priorityId : Option String) (pushed : List (Fin count))
    (states raised : Fin count → AppLayoutGridPlacement) : Prop where
  shape : ∀ index, raised index = { states index with y := (raised index).y }
  above : ∀ index, (raised index).y ≤ (states index).y
  row : ∀ index, 0 ≤ (raised index).y
  kept : ∀ index, some (states index).id = priorityId ∨ index ∈ pushed →
    raised index = states index
  apart : Apart raised

theorem mem_candidates {index : Fin count} {y : Int} (listed : y ∈ candidates states index)
    (rows : ∀ other, 0 ≤ (states other).y) (heights : ∀ other, 0 ≤ (states other).h) :
    0 ≤ y ∧ y ≤ (states index).y := by
  unfold candidates at listed
  rw [mem_insertionSort, mem_filter, decide_eq_true_eq, mem_cons,
    mem_flatMap] at listed
  obtain ⟨source, above⟩ := listed
  refine ⟨?_, above⟩
  rcases source with rfl | ⟨other, _, edge⟩
  · exact Int.le_refl 0
  · dsimp only at edge
    split at edge
    · exact absurd edge not_mem_nil
    · rw [mem_singleton.mp edge]
      exact Int.add_nonneg (rows other) (heights other)

/-- A placement moves up to where it fits. -/
theorem compact_cases (index : Fin count) : compact priorityId pushed states index = states ∨
      (some (states index).id ≠ priorityId ∧ index ∉ pushed) ∧ ∃ y ∈ candidates states index,
        (∀ other, other ≠ index → appLayoutGridOverlap { (states index).toAppLayoutGrid with y }
          (states other).toAppLayoutGrid = false) ∧ compact priorityId pushed states index =
          update states index { states index with y } := by
  unfold compact
  split
  · exact .inl rfl
  · rename_i free
    dsimp only
    split
    · rename_i y found
      rw [Bool.or_eq_true, not_or, decide_eq_true_eq, decide_eq_true_eq] at free
      have fits := find?_some found
      refine .inr ⟨free, y, mem_of_find?_eq_some found, fun other different => ?_, rfl⟩
      have clear := all_eq_true.mp fits other (mem_finRange other)
      rw [Bool.or_eq_true, decide_eq_true_eq, Bool.not_eq_true'] at clear
      exact clear.resolve_left different
    · exact .inl rfl

theorem Raised.compact {raised : Fin count → AppLayoutGridPlacement}
    (done : Raised priorityId pushed states raised) (heights : ∀ index, 0 ≤ (states index).h)
    (index : Fin count) :
    Raised priorityId pushed states (compact priorityId pushed raised index) := by
  cases @compact_cases count raised priorityId pushed index with
  | inl same =>
    rw [same]
    exact done
  | inr moves =>
    obtain ⟨free, y, listed, clear, moved⟩ := moves
    rw [moved]
    have same_id : (raised index).id = (states index).id := by rw [done.shape]
    have bounds := mem_candidates listed done.row fun other => by
      rw [done.shape other]
      exact heights other
    refine ⟨fun other => ?_, fun other => ?_, fun other => ?_, fun other stays => ?_,
      fun first second different => ?_⟩
    · by_cases own : other = index
      · subst own
        rw [update_self, done.shape other]
      · rw [update_of_ne own]
        exact done.shape other
    · by_cases own : other = index
      · subst own
        rw [update_self]
        exact Int.le_trans bounds.2 (done.above other)
      · rw [update_of_ne own]
        exact done.above other
    · by_cases own : other = index
      · subst own
        rw [update_self]
        exact bounds.1
      · rw [update_of_ne own]
        exact done.row other
    · have own : other ≠ index := by
        rintro rfl
        rw [same_id] at free
        exact stays.elim free.1 free.2
      rw [update_of_ne own]
      exact done.kept other stays
    · by_cases own : first = index
      · subst own
        rw [update_self, update_of_ne (Ne.symm different)]
        exact clear second (Ne.symm different)
      · rw [update_of_ne own]
        by_cases too : second = index
        · subst too
          rw [update_self, overlap_comm]
          exact clear first own
        · rw [update_of_ne too]
          exact done.apart first second different

theorem Raised.foldl {raised : Fin count → AppLayoutGridPlacement}
    (done : Raised priorityId pushed states raised) (heights : ∀ index, 0 ≤ (states index).h)
    (indices : List (Fin count)) :
    Raised priorityId pushed states (indices.foldl (Layout.compact priorityId pushed) raised) := by
  induction indices generalizing raised with
  | nil => exact done
  | cons index rest ih => exact ih (done.compact heights index)

end Compact

section Order

variable {count : Nat} {states : Fin count → AppLayoutGridPlacement}
  {priorityId : Option String}

variable {first second : Int}

theorem either_nonpos : either first second ≤ 0 ↔ first < 0 ∨ first = 0 ∧ second ≤ 0 := by
  unfold either
  split <;> omega

theorem either_neg : either first second < 0 ↔ first < 0 ∨ first = 0 ∧ second < 0 := by
  unfold either
  split <;> omega

theorem either_eq_zero : either first second = 0 ↔ first = 0 ∧ second = 0 := by
  unfold either
  split <;> omega

theorem turn_total (left right : Fin count) :
    turn states priorityId left right ≤ 0 ∨ turn states priorityId right left ≤ 0 := by
  unfold turn compareAppLayoutGrid
  simp only [either_nonpos, either_neg, either_eq_zero]
  omega

theorem turn_trans {first second third : Fin count}
    (before : turn states priorityId first second ≤ 0)
    (after : turn states priorityId second third ≤ 0) : turn states priorityId first third ≤ 0 := by
  unfold turn compareAppLayoutGrid at before after ⊢
  simp only [either_nonpos, either_neg, either_eq_zero] at before after ⊢
  omega

theorem order_perm (states : Fin count → AppLayoutGridPlacement) (priorityId : Option String) :
    (order states priorityId).Perm (finRange count) :=
  perm_insertionSort _ _

theorem order_nodup (states : Fin count → AppLayoutGridPlacement) (priorityId : Option String) :
    (order states priorityId).Nodup :=
  (order_perm states priorityId).nodup_iff.mpr (nodup_finRange count)

theorem mem_order (states : Fin count → AppLayoutGridPlacement) (priorityId : Option String)
    (index : Fin count) : index ∈ order states priorityId :=
  (order_perm states priorityId).mem_iff.mpr (mem_finRange index)

/-- The one placement with the priority settles first. -/
theorem order_head {index : Fin count} (prior : some (states index).id = priorityId)
    (alone : ∀ other, some (states other).id = priorityId → other = index) :
    ∃ rest, order states priorityId = index :: rest := by
  have sorted : (order states priorityId).Pairwise
      fun left right => turn states priorityId left right ≤ 0 := by
    have : Std.Total fun left right : Fin count => turn states priorityId left right ≤ 0 :=
      ⟨turn_total⟩
    have : IsTrans (Fin count) fun left right => turn states priorityId left right ≤ 0 :=
      ⟨fun _ _ _ => turn_trans⟩
    exact pairwise_insertionSort _ _
  have listed := mem_order states priorityId index
  cases all : order states priorityId with
  | nil =>
    rw [all] at listed
    exact absurd listed not_mem_nil
  | cons first rest =>
    rw [all] at listed sorted
    refine ⟨rest, ?_⟩
    cases mem_cons.mp listed with
    | inl here => rw [here]
    | inr later =>
      have before := (pairwise_cons.mp sorted).1 index later
      have other : some (states first).id ≠ priorityId := by
        intro same
        have once := order_nodup states priorityId
        rw [all] at once
        exact (nodup_cons.mp once).1 (alone first same ▸ later)
      unfold turn at before
      rw [if_neg other, if_pos prior] at before
      have behind := either_nonpos.mp before
      omega

end Order

/-! ## The whole resolution -/

section Resolve

variable {placements : List AppLayoutGridPlacement} {priorityId : Option String}
  {safe : Int → Bool}

theorem resolveWithin_of_apart (apart : hasOverlap placements = false) :
    resolveWithin safe placements priorityId = some placements := by
  unfold resolveWithin
  rw [apart]
  rfl

/-- What settles moves up and is returned. -/
theorem resolveWithin_of_settles {settlement : Settlement placements.length}
    (overlaps : hasOverlap placements = true)
    (fits : ∀ placement ∈ placements, Fits placement.toAppLayoutGrid)
    (settles : settleAll safe ⟨placements.get, [], []⟩ (order placements.get priorityId) =
      some settlement) : ∃ states, Raised priorityId settlement.pushed settlement.states states ∧
      Settling placements.get settlement ∧
      resolveWithin safe placements priorityId = some (ofFn states) := by
  have once : (([] : List (Fin placements.length)) ++ order placements.get priorityId).Nodup :=
    order_nodup placements.get priorityId
  obtain ⟨settling, all, _⟩ := (settling_start placements.get).settleAll once settles
  have heights : ∀ index, 0 ≤ (settlement.states index).h := fun index => by
    have height := (fits _ (get_mem placements index)).h
    rw [settling.shape index]
    change 0 ≤ (placements.get index).h
    omega
  have settled : ∀ index, index ∈ settlement.settled := fun index => by
    rw [all]
    exact mem_order placements.get priorityId index
  have start : Raised priorityId settlement.pushed settlement.states settlement.states := by
    refine ⟨fun _ => rfl, fun _ => Int.le_refl _, fun index => ?_, fun _ _ => rfl,
      fun index other => settling.apart index (settled index) other (settled other)⟩
    exact Int.le_trans (fits _ (get_mem placements index)).y (settling.lower index)
  have raised := start.foldl heights (order placements.get priorityId)
  refine ⟨_, raised, settling, ?_⟩
  unfold resolveWithin
  rw [overlaps, Bool.not_true, if_neg Bool.false_ne_true]
  dsimp only
  rw [settles]
  change (if _ then some placements else some _) = _
  generalize (order placements.get priorityId).foldl _ _ = states at raised
  have same_place : ∀ index, (compareAppLayoutGrid (placements.get index).toAppLayoutGrid
          (states index).toAppLayoutGrid = 0 && (placements.get index).w = (states index).w &&
        (placements.get index).h = (states index).h) = true →
      placements.get index = states index := by
    intro index same
    rw [Bool.and_eq_true, Bool.and_eq_true, decide_eq_true_eq] at same
    have row := (either_eq_zero.mp same.1.1).1
    have equal : (placements.get index).y = (states index).y := by omega
    rw [raised.shape index, settling.shape index, ← equal]
  split
  · rename_i all_same
    rw [List.all_eq_true] at all_same
    congr 1
    have equal : placements.get = states := by
      funext index
      exact same_place index (all_same index (mem_finRange index))
    rw [← equal, ofFn_get]
  · congr 2
    funext index
    split
    · rename_i same
      exact same_place index same
    · rfl

theorem resolveWithin_of_stuck (overlaps : hasOverlap placements = true)
    (stuck : settleAll safe ⟨placements.get, [], []⟩ (order placements.get priorityId) = none) :
    resolveWithin safe placements priorityId = none := by
  unfold resolveWithin
  rw [overlaps, Bool.not_true, if_neg Bool.false_ne_true]
  dsimp only
  rw [stuck]
  rfl

/-- What is returned overlaps nowhere. -/
theorem pairwise_ofFn_of_apart {count : Nat} {states : Fin count → AppLayoutGridPlacement}
    (apart : Apart states) : (ofFn states).Pairwise fun placement other =>
      appLayoutGridOverlap placement.toAppLayoutGrid other.toAppLayoutGrid = false :=
  pairwise_ofFn.mpr fun _ _ before => apart _ _ before.ne

/-- Every resolution changes rows only, and leaves no overlap. -/
theorem resolveWithin_spec {result : List AppLayoutGridPlacement}
    (fits : ∀ placement ∈ placements, Fits placement.toAppLayoutGrid)
    (resolves : resolveWithin safe placements priorityId = some result) :
    (result.map fun placement => (placement.id, placement.x, placement.w, placement.h)) =
        (placements.map fun placement => (placement.id, placement.x, placement.w, placement.h)) ∧
      (result.Pairwise fun placement other =>
        appLayoutGridOverlap placement.toAppLayoutGrid other.toAppLayoutGrid = false) ∧
      ∀ (index : Nat) (placement : AppLayoutGridPlacement),
        placements[index]? = some placement → some placement.id = priorityId →
        (∀ (other : Nat) (same : AppLayoutGridPlacement), placements[other]? = some same → some same.id = priorityId →
          other = index) → result[index]? = some placement := by
  cases overlaps : hasOverlap placements with
  | false =>
    rw [resolveWithin_of_apart overlaps] at resolves
    cases resolves
    exact ⟨rfl, hasOverlap_eq_false.mp overlaps, fun _ _ found _ _ => found⟩
  | true =>
    cases settles : settleAll safe ⟨placements.get, [], []⟩
        (order placements.get priorityId) with
    | none =>
      rw [resolveWithin_of_stuck overlaps settles] at resolves
      cases resolves
    | some settlement =>
      obtain ⟨states, raised, settling, equal⟩ := resolveWithin_of_settles overlaps fits settles
      rw [equal] at resolves
      cases resolves
      refine ⟨?_, pairwise_ofFn_of_apart raised.apart,
        fun index placement found prior alone => ?_⟩
      · conv_rhs => rw [← ofFn_get placements]
        rw [map_ofFn, map_ofFn]
        congr 1
        funext index
        rw [comp_apply, comp_apply, raised.shape, settling.shape]
      · obtain ⟨bound, rfl⟩ := List.getElem?_eq_some_iff.mp found
        have prior : some (placements.get ⟨index, bound⟩).id = priorityId := prior
        obtain ⟨rest, first⟩ := order_head prior fun other same =>
          Fin.ext (alone other _ (getElem?_eq_getElem other.2) same)
        have once := order_nodup placements.get priorityId
        rw [first] at once settles
        have stays := settleAll_first once settles
        rw [← stays] at prior
        rw [List.getElem?_ofFn, dif_pos bound, raised.kept ⟨index, bound⟩ (.inl prior), stays]
        rfl

/-- What moves only up and within the start stays on the grid. -/
theorem isSafe_of_le {grid other : AppLayoutGrid} (fits : Fits grid) (row : 0 ≤ other.y)
    (height : other.h = grid.h) (above : other.y ≤ grid.y) : isSafe (other.y + other.h) = true := by
  have bounds := isSafe_iff.mp fits.lower
  have tall := fits.h
  exact isSafe_iff.mpr (by omega)

/-- The resolution fails exactly where it would push a row out of the safe integers. -/
theorem resolveAppLayoutGrid_eq_none
    (fits : ∀ placement ∈ placements, Fits placement.toAppLayoutGrid) :
    resolveAppLayoutGrid placements priorityId = none ↔
      ∃ result, resolveWithin (fun _ => true) placements priorityId = some result ∧
        ∃ placement ∈ result, isSafe (placement.y + placement.h) = false := by
  unfold resolveAppLayoutGrid
  cases overlaps : hasOverlap placements with
  | false =>
    rw [resolveWithin_of_apart overlaps, resolveWithin_of_apart overlaps]
    refine ⟨nofun, ?_⟩
    rintro ⟨_, equal, placement, listed, unsafe_row⟩
    cases equal
    rw [(fits placement listed).lower] at unsafe_row
    cases unsafe_row
  | true =>
    have once : (([] : List (Fin placements.length)) ++
        order placements.get priorityId).Nodup := order_nodup placements.get priorityId
    have all_fit : ∀ index, Fits (placements.get index).toAppLayoutGrid :=
      fun index => fits _ (get_mem placements index)
    obtain ⟨settlement, settles⟩ :=
      settleAll_total (order placements.get priorityId) ⟨placements.get, [], []⟩
    obtain ⟨states, raised, settling, resolves⟩ := resolveWithin_of_settles overlaps fits settles
    have within := settleAll_isSafe (settling_start placements.get) all_fit once settles
    -- A placement whose lower edge is not safe was pushed, and what was pushed stays.
    have same : ∀ index, isSafe (bottom (states index)) = false ↔
        isSafe (bottom (settlement.states index)) = false := by
      intro index
      by_cases pushed : index ∈ settlement.pushed
      · rw [raised.kept index (.inr pushed)]
      · have still := settling.still index pushed
        have shape := raised.shape index
        have safe_start := (all_fit index).lower
        have safe_states : isSafe (bottom (states index)) = true := by
          refine isSafe_of_le (all_fit index) (raised.row index) ?_ ?_
          · rw [shape, still]
          · exact still ▸ raised.above index
        rw [safe_states, still, show isSafe (bottom (placements.get index)) = true from safe_start]
    rw [resolves]
    by_cases inside : ∀ index ∈ order placements.get priorityId,
        isSafe (bottom (settlement.states index)) = true
    · rw [if_pos inside] at within
      obtain ⟨_, _, _, resolved⟩ := resolveWithin_of_settles overlaps fits within
      rw [resolved]
      refine ⟨nofun, ?_⟩
      rintro ⟨_, equal, placement, listed, unsafe_row⟩
      cases equal
      obtain ⟨index, rfl⟩ := mem_ofFn.mp listed
      have outside := (same index).mp unsafe_row
      rw [inside index (mem_order placements.get priorityId index)] at outside
      cases outside
    · rw [if_neg inside] at within
      rw [resolveWithin_of_stuck overlaps within]
      refine iff_of_true rfl ⟨_, rfl, ?_⟩
      obtain ⟨index, outside⟩ := not_forall.mp inside
      rw [Classical.not_imp, Bool.not_eq_true] at outside
      exact ⟨states index, mem_ofFn.mpr ⟨index, rfl⟩, (same index).mpr outside.2⟩

end Resolve

/-- Every layout that is admitted has a proper resolution, or a row that is not safe. -/
theorem resolveAppLayoutGrid_proper (placements : List AppLayoutGridPlacement)
    (priorityId : Option String) (admitted : ∀ placement ∈ placements,
      appLayoutGrid placement.toAppLayoutGrid.fields = some placement.toAppLayoutGrid) :
    (resolveAppLayoutGrid placements priorityId = none ↔
      ∃ result, resolveWithin (fun _ => true) placements priorityId = some result ∧
        ∃ placement ∈ result, isSafe (placement.y + placement.h) = false) ∧
    ∀ result, resolveAppLayoutGrid placements priorityId = some result →
      (result.map fun placement => (placement.id, placement.x, placement.w, placement.h)) =
        (placements.map fun placement => (placement.id, placement.x, placement.w, placement.h)) ∧
      (result.Pairwise fun placement other =>
        appLayoutGridOverlap placement.toAppLayoutGrid other.toAppLayoutGrid = false) ∧
      (∀ (index : Nat) (placement : AppLayoutGridPlacement),
        placements[index]? = some placement → some placement.id = priorityId →
        (∀ (other : Nat) (same : AppLayoutGridPlacement), placements[other]? = some same →
          some same.id = priorityId → other = index) → result[index]? = some placement) ∧
      ((placements.Pairwise fun placement other =>
          appLayoutGridOverlap placement.toAppLayoutGrid other.toAppLayoutGrid = false) →
        result = placements) ∧ ∀ again, resolveAppLayoutGrid result again = some result := by
  have fits : ∀ placement ∈ placements, Fits placement.toAppLayoutGrid :=
    fun placement listed => (appLayoutGrid_fields _).mp (admitted placement listed)
  refine ⟨resolveAppLayoutGrid_eq_none fits, fun result resolves => ?_⟩
  obtain ⟨columns, apart, prior⟩ := resolveWithin_spec fits resolves
  refine ⟨columns, apart, prior, fun clear => ?_, fun again => ?_⟩
  · have kept : resolveAppLayoutGrid placements priorityId = some placements :=
      resolveWithin_of_apart (hasOverlap_eq_false.mpr clear)
    exact some.inj (resolves.symm.trans kept)
  · exact resolveWithin_of_apart (hasOverlap_eq_false.mpr apart)

theorem resolveAppLayoutGrid_proper_stacked :
    ∃ result, resolveAppLayoutGrid [⟨⟨0, 0, 4, 2⟩, "a"⟩, ⟨⟨2, 1, 4, 2⟩, "b"⟩] (some "b") =
        some result ∧ result.Pairwise fun placement other =>
        appLayoutGridOverlap placement.toAppLayoutGrid other.toAppLayoutGrid = false := by
  have resolves : resolveAppLayoutGrid [⟨⟨0, 0, 4, 2⟩, "a"⟩, ⟨⟨2, 1, 4, 2⟩, "b"⟩] (some "b") =
      some [⟨⟨0, 3, 4, 2⟩, "a"⟩, ⟨⟨2, 1, 4, 2⟩, "b"⟩] := by decide +kernel
  refine ⟨_, resolves, ((resolveAppLayoutGrid_proper _ (some "b") ?_).2 _ resolves).2.1⟩
  intro placement listed
  refine (appLayoutGrid_fields _).mpr ?_
  rcases mem_cons.mp listed with rfl | second
  · exact ⟨by decide, by decide, by decide, by decide, by decide, isSafe_iff.mpr (by decide)⟩
  · obtain rfl := mem_singleton.mp second
    exact ⟨by decide, by decide, by decide, by decide, by decide, isSafe_iff.mpr (by decide)⟩

end Dinkster.Layout
