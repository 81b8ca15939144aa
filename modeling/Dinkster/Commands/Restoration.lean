import Dinkster.Commands.Rewind
import Dinkster.Commands.SessionPatch
import Dinkster.Commands.Transmission

/-!
# What a replay restores

A shared session replays history with the recorded values required: every operation it
applies finds in the document what the record captured at its path, up to advanced
cursors.  The patch that comes of it is replayed in turn by the patch command, which
records exactly that patch wherever the patch applies.
-/

namespace Dinkster.Commands

open Library Format List Option

/-! ## Preservers keep values plain -/

def OptionPlain (value : Option Json) : Prop :=
  ∀ json ∈ value, json.Plain

def KeepsPlain (merge : Merge) : Prop :=
  ∀ next, OptionPlain next → OptionPlain (merge next)

theorem plain_mergeEntry {state : List (String × Json) × Bool} {entry : String × Merge}
    (keeps : KeepsPlain entry.2) (plain : (Json.obj state.1).Plain) :
    (Json.obj (mergeEntry state entry).1).Plain := by
  unfold mergeEntry
  dsimp only
  split
  · rename_i merged found
    split
    · exact plain
    · refine plain_setField entry.1 plain (keeps _ ?_ merged found)
      exact fun held inside => plain_of_getField plain inside
  · exact plain

theorem plain_foldl_mergeEntry {entries : List (String × Merge)}
    {state : List (String × Json) × Bool} (keeps : ∀ entry ∈ entries, KeepsPlain entry.2)
    (plain : (Json.obj state.1).Plain) : (Json.obj (entries.foldl mergeEntry state).1).Plain := by
  induction entries generalizing state with
  | nil => exact plain
  | cons entry rest ih =>
    exact ih (fun other member => keeps other (mem_cons_of_mem _ member))
      (plain_mergeEntry (keeps entry mem_cons_self) plain)

theorem plain_objectFields {value : Option Json} (plain : OptionPlain value) :
    (Json.obj (objectFields value)).Plain := by
  unfold objectFields
  split
  · exact plain _ rfl
  · exact plain_obj_iff.mpr ⟨nodup_nil, fun _ member => absurd member not_mem_nil⟩

theorem keepsPlain_mergeEntries {entries : List (String × Merge)}
    (keeps : ∀ entry ∈ entries, KeepsPlain entry.2) : KeepsPlain (mergeEntries entries) := by
  intro next plain merged found
  unfold mergeEntries at found
  dsimp only at found
  split at found
  · exact plain merged found
  · split at found
    · exact plain merged found
    · cases found
      exact plain_foldl_mergeEntry keeps (plain_objectFields plain)

theorem keepsPlain_id : KeepsPlain fun next => next :=
  fun _ plain => plain

theorem keepsPlain_preserveNumericCursor (current : Option Json) :
    KeepsPlain (preserveNumericCursor current) := by
  intro next plain merged found
  unfold preserveNumericCursor at found
  split at found
  · split at found <;> exact some.inj found ▸ trivial
  · exact some.inj found ▸ trivial
  · exact plain merged found

variable {current : Option Json} {op : PatchOp} {surviving : Survivors} {next doc : Json}
    {ops applied : List PatchOp} {patch : List WirePatchOp}

theorem keepsPlain_preserveRecord {child : Preserve} {skip : String → Bool}
    (keeps : ∀ fields, current = some (.obj fields) → ∀ entry ∈ fields,
      KeepsPlain (child (some entry.2))) : KeepsPlain (preserveRecord child skip current) := by
  cases current with
  | none => exact keepsPlain_id
  | some node =>
    cases node with
    | obj fields =>
      apply keepsPlain_mergeEntries
      intro entry member
      obtain ⟨original, kept, rfl⟩ := mem_map.mp member
      exact keeps fields rfl original (mem_of_mem_filter kept)
    | _ => exact keepsPlain_id

mutual

theorem keepsPlain_preserveState : ∀ current, KeepsPlain (preserveState current)
  | .obj fields => by
    rw [preserveState]
    apply keepsPlain_mergeEntries
    intro entry member
    rcases mem_cons.mp member with rfl | inside
    · exact keepsPlain_preserveNumericCursor _
    · exact keepsPlain_memberStateEntry fields entry inside
  | .null | .bool _ | .num _ | .str _ | .arr _ => keepsPlain_id

theorem keepsPlain_memberStateEntry : ∀ fields, ∀ entry ∈ memberStateEntry fields,
    KeepsPlain entry.2
  | [] => fun _ member => absurd member not_mem_nil
  | (key, field) :: rest => by
    intro entry member
    rw [memberStateEntry] at member
    split at member
    · obtain rfl := mem_singleton.mp member
      exact keepsPlain_preserveMember field
    · exact keepsPlain_memberStateEntry rest entry member

theorem keepsPlain_preserveMember : ∀ current, KeepsPlain (preserveMember current)
  | .obj fields => by
    rw [preserveMember]
    exact keepsPlain_mergeEntries (keepsPlain_memberEntries fields)
  | .null | .bool _ | .num _ | .str _ | .arr _ => keepsPlain_id

theorem keepsPlain_memberEntries : ∀ fields, ∀ entry ∈ memberEntries fields, KeepsPlain entry.2
  | [] => fun _ member => absurd member not_mem_nil
  | (key, field) :: rest => by
    intro entry member
    rw [memberEntries] at member
    rcases mem_cons.mp member with rfl | inside
    · exact keepsPlain_preserveScopeOf field
    · exact keepsPlain_memberEntries rest entry inside

theorem keepsPlain_preserveScopeOf : ∀ current, KeepsPlain (preserveScopeOf current)
  | .obj fields => by
    rw [preserveScopeOf]
    exact keepsPlain_mergeEntries (keepsPlain_scopeEntries fields)
  | .null | .bool _ | .num _ | .str _ | .arr _ => keepsPlain_id

theorem keepsPlain_scopeEntries : ∀ fields, ∀ entry ∈ scopeEntries fields, KeepsPlain entry.2
  | [] => fun _ member => absurd member not_mem_nil
  | (key, field) :: rest => by
    intro entry member
    rw [scopeEntries] at member
    rcases mem_cons.mp member with rfl | inside
    · exact keepsPlain_preserveState field
    · exact keepsPlain_scopeEntries rest entry inside

end

theorem keepsPlain_preserveStateCursors (current : Option Json) :
    KeepsPlain (preserveStateCursors current) := by
  cases current with
  | none => exact keepsPlain_id
  | some state => exact keepsPlain_preserveState state

theorem keepsPlain_preserverAt (position : DynShapePos) (current : Option Json) :
    KeepsPlain (preserverAt position current) := by
  have scope (held : Option Json) : KeepsPlain (preserveScope held) :=
    keepsPlain_preserveRecord fun _ _ _ _ => keepsPlain_preserveStateCursors _
  cases position with
  | portMap =>
    show KeepsPlain (preserveRecord preserveStateCursors (fun _ => false) current)
    exact keepsPlain_preserveRecord fun _ _ _ _ => keepsPlain_preserveStateCursors _
  | state => exact keepsPlain_preserveStateCursors current
  | memberMap =>
    show KeepsPlain (preserveRecord preserveScope (fun _ => false) current)
    exact keepsPlain_preserveRecord fun _ _ _ _ => scope _
  | scope => exact scope current
  | outside => exact keepsPlain_id

theorem keepsPlain_preserveActorCursorsMap (current : Option Json) :
    KeepsPlain (preserveActorCursorsMap current) :=
  keepsPlain_preserveRecord fun _ _ _ _ => keepsPlain_preserveNumericCursor _

theorem keepsPlain_preserveGraphViewCursor (current : Option Json) :
    KeepsPlain (preserveGraphViewCursor current) := by
  intro next plain merged found
  have base : (Json.obj (if isJsonObject next then objectFields next
      else [("nodes", .obj [])])).Plain := by
    split
    · exact plain_objectFields plain
    · exact plain_obj_iff.mpr (by simp [fieldKeys, Json.Plain, plainFields])
  unfold preserveGraphViewCursor at found
  split at found
  · split at found
    · dsimp only at found
      split at found
      · split at found
        · exact plain merged found
        · exact some.inj found ▸ plain_setField _ base trivial
      · exact some.inj found ▸ plain_setField _ base trivial
    · exact plain merged found
  · exact plain merged found

theorem plain_topologySkeleton {current : List (String × Json)} (plain : (Json.obj current).Plain) :
    (Json.obj (topologySkeleton current)).Plain := by
  obtain ⟨distinct, fields⟩ := plain_obj_iff.mp plain
  have keys (name : String) : (fieldKeys (current.filter fun entry => entry.1 = name)).Nodup ∧
      ∀ key ∈ fieldKeys (current.filter fun entry => entry.1 = name), key = name := by
    refine ⟨distinct.sublist (filter_sublist.map Prod.fst), ?_⟩
    intro key member
    obtain ⟨entry, inside, rfl⟩ := mem_map.mp member
    exact of_decide_eq_true (mem_filter.mp inside).2
  refine plain_obj_iff.mpr ⟨?_, ?_⟩
  · simp only [topologySkeleton, fieldKeys, map_append, map_cons, map_nil]
    refine nodup_append.mpr ⟨?_, by simp, ?_⟩
    · refine nodup_append.mpr ⟨(keys "owner").1, (keys "bodyGraph").1, ?_⟩
      intro left first right second equal
      have one := (keys "owner").2 left first
      have other := (keys "bodyGraph").2 right second
      rw [one, other] at equal
      simp at equal
    · intro left member right single equal
      have named : left = "owner" ∨ left = "bodyGraph" :=
        (mem_append.mp member).imp ((keys "owner").2 left) ((keys "bodyGraph").2 left)
      rw [← equal] at single
      rcases named with rfl | rfl <;> simp at single
  · intro entry member
    simp only [topologySkeleton, mem_append, mem_cons, not_mem_nil, or_false]
      at member
    rcases member with (owner | body) | (rfl | rfl)
    · exact fields entry (mem_of_mem_filter owner)
    · exact fields entry (mem_of_mem_filter body)
    · exact plain_obj_iff.mpr ⟨nodup_nil, by simp⟩
    · trivial

theorem keepsPlain_preserveOccurrenceTopologyCursors (held : OptionPlain current) :
    KeepsPlain (preserveOccurrenceTopologyCursors current) := by
  intro next plain merged found
  unfold preserveOccurrenceTopologyCursors at found
  split at found
  · rename_i fields
    have base : (Json.obj (if isJsonObject next then objectFields next
        else topologySkeleton fields)).Plain := by
      split
      · exact plain_objectFields plain
      · exact plain_topologySkeleton (held _ rfl)
    dsimp only at found
    generalize (if isJsonObject next then objectFields next else topologySkeleton fields) = start
      at found base
    have merges : ∀ entry ∈ [("nextOrdinal", preserveNumericCursor (getField fields "nextOrdinal")),
        ("actorCursors", preserveActorCursorsMap (getField fields "actorCursors"))],
        KeepsPlain entry.2 := by
      intro entry member
      simp only [mem_cons, not_mem_nil, or_false] at member
      rcases member with rfl | rfl
      · exact keepsPlain_preserveNumericCursor _
      · exact keepsPlain_preserveActorCursorsMap _
    split at found
    · exact plain merged found
    · split at found
      · cases found
        exact @plain_foldl_mergeEntry _ (start, _) merges base
      · exact plain merged found
  · exact plain merged found

variable {preserve : Preserve} {other effective : PatchOp} {cur : Json} {all : List PatchOp}

/-- Every preserver of the replay makes plain values of plain ones. -/
theorem keepsPlain_of_classify (classified : classify surviving op = .preserved preserve)
    (held : OptionPlain current) : KeepsPlain (preserve current) := by
  have entries {child : Preserve} {skip : String → Bool}
      (keeps : ∀ value, OptionPlain value → KeepsPlain (child value)) :
      KeepsPlain (preserveRecord child skip current) := by
    apply keepsPlain_preserveRecord
    rintro fields rfl entry member
    refine keeps _ fun value inside => ?_
    cases inside
    exact (plain_obj_iff.mp (held _ rfl)).2 entry member
  unfold classify at classified
  split at classified
  · simp at classified
  split at classified
  · cases classified
    exact keepsPlain_preserverAt _ current
  split at classified
  · cases classified
    exact entries fun value _ => keepsPlain_preserveGraphViewCursor value
  · split at classified
    · cases classified
      exact keepsPlain_preserveGraphViewCursor current
    · simp at classified
  · split at classified
    · cases classified
      exact entries fun value => keepsPlain_preserveOccurrenceTopologyCursors
    · split at classified
      · cases classified
        exact keepsPlain_preserveOccurrenceTopologyCursors held
      · simp at classified
    · split at classified
      · cases classified
        exact keepsPlain_preserveActorCursorsMap current
      · simp at classified

section

variable (alike : toWireOp op = toWireOp other)

include alike

theorem applyItem_congr {items : List Json} {position : Rat} {slot : Nat}
    (applied : applyItem op items position slot = .ok next) :
    applyItem other items position slot = .ok next := by
  cases op <;> cases other <;> simp only [toWireOp, reduceCtorEq] at alike
  all_goals
    simp only [WirePatchOp.add.injEq, WirePatchOp.remove.injEq, WirePatchOp.replace.injEq] at alike
    grind [applyItem]

theorem applyField_congr {fields : List (String × Json)} {name : String}
    (applied : applyField op fields name = .ok next) : applyField other fields name = .ok next := by
  cases op <;> cases other <;> simp only [toWireOp, reduceCtorEq] at alike
  all_goals
    simp only [WirePatchOp.add.injEq, WirePatchOp.remove.injEq, WirePatchOp.replace.injEq] at alike
    grind [applyField]

/-- What applies, applies whatever it says it displaces. -/
theorem applyOp_congr {node : Json} (applied : applyOp node op = .ok next) :
    applyOp node other = .ok next := by
  have same : op.path = other.path := by
    rw [← path_toWireOp, alike, path_toWireOp]
  rw [applyOp] at applied ⊢
  rw [← same]
  generalize op.path = path at applied
  apply applyAt_of_applies
  have applies := applies_of_applyAt applied
  clear applied same
  induction applies with
  | root replaces =>
    subst replaces
    cases other with
    | replace path value oldValue =>
      obtain ⟨-, rfl⟩ := WirePatchOp.replace.inj alike
      exact .root rfl
    | add path value | remove path oldValue => simp [toWireOp] at alike
  | item addressed applied => exact .item addressed (applyItem_congr alike applied)
  | inItem addressed found _ ih => exact .inItem addressed found ih
  | field permitted applied => exact .field permitted (applyField_congr alike applied)
  | inField permitted found _ ih => exact .inField permitted found ih

end

/-- An operation that applies finds something at its path unless it adds there; only an
array insertion adds where there is something. -/
theorem isSome_getAtPath {node : Json} {path : DocPath}
    (adds : op.kind = "add" → endsInIndex path = false)
    (applied : applyAt op node path = .ok next) :
    (getAtPath node path).isSome = decide (op.kind ≠ "add") := by
  have applies := applies_of_applyAt applied
  clear applied
  induction applies with
  | root replaces =>
    subst replaces
    rfl
  | @item items position slot next addressed applied =>
    cases op with
    | add path value => simp [PatchOp.kind, endsInIndex] at adds
    | remove path oldValue | replace path value oldValue =>
      simp only [applyItem] at applied
      split at applied
      · simp at applied
      · rename_i inside
        simp [getAtPath, ownChild, addressed, PatchOp.kind, Nat.lt_of_not_le inside]
  | @inItem items position slot child copy segment rest addressed found inner ih =>
    have below := ih fun kind => by simpa [endsInIndex] using adds kind
    simpa [getAtPath, ownChild, addressed, found] using below
  | @field fields name next permitted applied =>
    cases found : getField fields name <;> cases op <;>
      simp_all [applyField, getAtPath, ownChild, PatchOp.kind]
  | @inField fields name child copy segment rest permitted found inner ih =>
    have below := ih fun kind => by simpa [endsInIndex] using adds kind
    simpa [getAtPath, ownChild, found] using below

theorem plain_toWirePatch (plain : ∀ op ∈ ops, op.Plain) :
    ∀ wire ∈ toWirePatch ops, wire.Plain := by
  intro wire member
  obtain ⟨op, inside, rfl⟩ := mem_map.mp member
  have opPlain := plain op inside
  cases op with
  | add path value => exact opPlain
  | remove path oldValue => trivial
  | replace path value oldValue => exact ⟨opPlain.1, trivial⟩

/-! ## Restoring what was recorded -/

/-- Whether a document holds what an operation recorded at its path, up to advanced
cursors.  Numeric cursors are exempt. -/
def holdsRecorded (surviving : Survivors) (doc : Json) (op : PatchOp) : Bool :=
  match classify surviving op with
  | .cursor => true
  | .preserved preserve => holdsPreserved preserve (getAtPath doc op.path) op
  | .verbatim => holdsVerbatim (getAtPath doc op.path) op

/-- A patch carries out recorded operations on a document, one after the other: each of
its operations finds what was recorded at its path.  Operations on numeric cursors may be
left out. -/
inductive Restores (surviving : Survivors) : Json → List PatchOp → List WirePatchOp → Prop where
  | done {doc : Json} : Restores surviving doc [] []
  | skip {doc : Json} {op : PatchOp} {rest : List PatchOp} {patch : List WirePatchOp}
      (cursor : isNumericCursorOp op = true) (later : Restores surviving doc rest patch) :
      Restores surviving doc (op :: rest) patch
  | replay {doc next : Json} {op : PatchOp} {rest : List PatchOp} {wire : WirePatchOp}
      {patch : List WirePatchOp} (place : wire.path = op.path)
      (held : holdsRecorded surviving doc op = true)
      (applied : applyOp doc wire.decoded = .ok next) (later : Restores surviving next rest patch) :
      Restores surviving doc (op :: rest) (wire :: patch)

/-- A patch carries out a record's operations on a document that still holds what they
recorded. -/
def Restorable (doc : Json) (ops : List PatchOp) (patch : List WirePatchOp) : Prop :=
  ∃ surviving, survivors doc ops = .ok surviving ∧ Restores surviving doc ops patch

/-- Whether a patch carries out recorded operations, as `Restores` says. -/
def restoresTest (surviving : Survivors) : Json → List PatchOp → List WirePatchOp → Bool
  | _, [], patch => patch.isEmpty
  | doc, op :: rest, patch =>
    (isNumericCursorOp op && restoresTest surviving doc rest patch) ||
      match patch with
      | [] => false
      | wire :: later =>
        decide (wire.path = op.path) && holdsRecorded surviving doc op &&
          match applyOp doc wire.decoded with
          | .ok next => restoresTest surviving next rest later
          | .error _ => false

theorem restores_of_test (passes : restoresTest surviving doc ops patch = true) :
    Restores surviving doc ops patch := by
  induction ops generalizing doc patch with
  | nil =>
    obtain rfl := isEmpty_iff.mp passes
    exact .done
  | cons op rest ih =>
    simp only [restoresTest, Bool.or_eq_true, Bool.and_eq_true] at passes
    rcases passes with ⟨cursor, later⟩ | replays
    · exact .skip cursor (ih later)
    · cases patch with
      | nil => simp at replays
      | cons wire later =>
        simp only [Bool.and_eq_true, decide_eq_true_eq] at replays
        obtain ⟨⟨place, held⟩, applies⟩ := replays
        split at applies
        · rename_i next applied
          exact .replay place held applied (ih applies)
        · simp at applies

/-- Whether a patch carries out a record's operations on a document. -/
def restorableTest (doc : Json) (ops : List PatchOp) (patch : List WirePatchOp) : Bool :=
  match survivors doc ops with
  | .ok surviving => restoresTest surviving doc ops patch
  | .error _ => false

theorem restorable_of_test (passes : restorableTest doc ops patch = true) :
    Restorable doc ops patch := by
  unfold restorableTest at passes
  split at passes
  · rename_i surviving found
    exact ⟨surviving, found, restores_of_test passes⟩
  · simp at passes

theorem replayCursor_eq_some (replayed : replayCursor current op = some effective) :
    effective.path = op.path ∧ (op.Plain → effective.Plain) := by
  cases op with
  | remove path oldValue => simp [replayCursor] at replayed
  | add path value | replace path value oldValue =>
    simp only [replayCursor] at replayed
    split at replayed
    · split at replayed
      · simp at replayed
      · cases replayed
        exact ⟨rfl, fun _ => ⟨trivial, trivial⟩⟩
    · cases replayed
      exact ⟨rfl, id⟩

theorem replayPreserved_path (preserve : Preserve) (current : Option Json) (op : PatchOp) :
    (replayPreserved preserve current op).path = op.path := by
  cases op with
  | add path value =>
    simp only [replayPreserved]
    split
    · split <;> rfl
    · rfl
  | remove path oldValue =>
    simp only [replayPreserved]
    split <;> rfl
  | replace path value oldValue =>
    simp only [replayPreserved]
    split
    · rfl
    · split <;> rfl

theorem plain_replayPreserved (keeps : KeepsPlain (preserve current)) (held : OptionPlain current)
    (plain : op.Plain) : (replayPreserved preserve current op).Plain := by
  have clamped {value : Json} (plain : value.Plain) :
      ((preserve current (some value)).getD value).Plain := by
    cases kept : preserve current (some value) with
    | none => exact plain
    | some merged =>
      refine keeps (some value) (fun json same => ?_) merged kept
      cases same
      exact plain
  cases op with
  | add path value =>
    have valuePlain : value.Plain := plain
    simp only [replayPreserved]
    split
    · split
      · exact plain
      · exact clamped valuePlain
    · exact ⟨clamped valuePlain, held _ rfl⟩
  | remove path oldValue =>
    simp only [replayPreserved]
    split
    · rename_i kept present merged
      exact ⟨keeps none (fun _ absent => by simp at absent) _ merged, held _ rfl⟩
    · exact plain
  | replace path value oldValue =>
    have valuePlain : value.Plain := plain.1
    simp only [replayPreserved]
    split
    · exact clamped valuePlain
    · split
      · exact plain
      · exact ⟨clamped valuePlain, held _ rfl⟩

/-- An operation that the replay applies finds what it recorded, and keeps its path. -/
theorem replayStep_eq_apply (replayed : replayStep surviving true cur op = .apply effective) :
    effective.path = op.path ∧ holdsRecorded surviving cur op = true ∧
      (cur.Plain → op.Plain → effective.Plain) := by
  cases classified : classify surviving op with
  | cursor =>
    simp only [replayStep, classified] at replayed
    split at replayed
    · simp at replayed
    · rename_i became
      cases replayed
      obtain ⟨same, plain⟩ := replayCursor_eq_some became
      rw [holdsRecorded, classified]
      exact ⟨same, rfl, fun _ => plain⟩
  | preserved preserve =>
    simp only [replayStep, classified, Bool.true_and] at replayed
    split at replayed
    · simp at replayed
    · rename_i holds
      cases replayed
      rw [holdsRecorded, classified]
      refine ⟨replayPreserved_path _ _ op, by simpa using holds, fun docPlain opPlain => ?_⟩
      have held : OptionPlain (getAtPath cur op.path) := fun json found =>
        plain_of_getAtPath docPlain found
      exact plain_replayPreserved (keepsPlain_of_classify classified held) held opPlain
  | verbatim =>
    simp only [replayStep, classified, Bool.true_and] at replayed
    split at replayed
    · simp at replayed
    · rename_i holds
      cases replayed
      rw [holdsRecorded, classified]
      exact ⟨rfl, by simpa using holds, fun _ => id⟩

theorem replayStep_eq_skip (replayed : replayStep surviving true cur op = .skip) :
    isNumericCursorOp op = true := by
  simp only [replayStep, Bool.true_and] at replayed
  split at replayed
  · rename_i classified
    exact isNumericCursorOp_of_classify classified
  all_goals split at replayed <;> simp at replayed

/-- A replay that is not stale carries out the record. -/
theorem restores_of_replayLoop (docPlain : cur.Plain) (opsPlain : ∀ op ∈ ops, op.Plain)
    (replayed : replayLoop surviving true cur applied ops = .ok ⟨doc, all, none⟩) :
    ∃ tail, all = applied ++ tail ∧ Restores surviving cur ops (toWirePatch tail) ∧
      ∀ op ∈ tail, op.Plain := by
  induction ops generalizing cur applied with
  | nil =>
    obtain ⟨rfl, rfl, -⟩ := ReplayResult.mk.inj (Except.ok.inj replayed)
    exact ⟨[], (append_nil _).symm, .done, by simp⟩
  | cons op rest ih =>
    have opPlain := opsPlain op mem_cons_self
    have restPlain : ∀ other ∈ rest, other.Plain := fun other member =>
      opsPlain other (mem_cons_of_mem _ member)
    rw [replayLoop] at replayed
    split at replayed
    · rename_i skipped
      obtain ⟨tail, whole, restores, plain⟩ := ih docPlain restPlain replayed
      exact ⟨tail, whole, .skip (replayStep_eq_skip skipped) restores, plain⟩
    · simp at replayed
    rename_i effective chosen
    split at replayed
    · simp at replayed
    rename_i next appliedOne
    obtain ⟨place, held, effectivePlain⟩ := replayStep_eq_apply chosen
    have plainHere := effectivePlain docPlain opPlain
    obtain ⟨tail, whole, restores, plain⟩ :=
      ih (plain_applyAt docPlain plainHere appliedOne) restPlain replayed
    refine ⟨effective :: tail, by rw [whole, append_assoc, singleton_append], ?_,
      forall_mem_cons.mpr ⟨plainHere, plain⟩⟩
    have wired := applyOp_congr (toWireOp_decoded (toWireOp effective)).symm appliedOne
    exact .replay ((path_toWireOp effective).trans place) held wired restores

/-- A shared replay that is not stale does what a replay of the store does. -/
theorem replayLoop_of_recorded
    (replayed : replayLoop surviving true cur applied ops = .ok ⟨doc, all, none⟩) :
    replayLoop surviving false cur applied ops = .ok ⟨doc, all, none⟩ := by
  induction ops generalizing cur applied with
  | nil => exact replayed
  | cons op rest ih =>
    have same : replayStep surviving true cur op = .stale ∨
        replayStep surviving true cur op = replayStep surviving false cur op := by
      unfold replayStep
      cases classify surviving op with
      | cursor => exact .inr rfl
      | preserved preserve =>
        cases holds : holdsPreserved preserve (getAtPath cur op.path) op <;> simp [holds]
      | verbatim => cases holds : holdsVerbatim (getAtPath cur op.path) op <;> simp [holds]
    rw [replayLoop] at replayed ⊢
    rcases same with stale | same
    · simp [stale] at replayed
    · rw [← same]
      cases step : replayStep surviving true cur op with
      | skip =>
        rw [step] at replayed
        exact ih replayed
      | stale => simp [step] at replayed
      | apply effective =>
        rw [step] at replayed
        dsimp only at replayed ⊢
        cases first : applyOp cur effective with
        | error error => simp [first] at replayed
        | ok next =>
          rw [first] at replayed
          exact ih replayed

/-- A shared replay that is not stale carries out the record on the document. -/
theorem restorable_of_replayHistoryOps (docPlain : doc.Plain) (opsPlain : ∀ op ∈ ops, op.Plain)
    (replayed : replayHistoryOps doc ops true = .ok ⟨next, applied, none⟩) :
    Restorable doc ops (toWirePatch applied) ∧ ∀ op ∈ applied, op.Plain := by
  rw [replayHistoryOps, bind_eq_ok] at replayed
  obtain ⟨surviving, found, replayed⟩ := replayed
  obtain ⟨tail, rfl, restores, plain⟩ := restores_of_replayLoop docPlain opsPlain replayed
  exact ⟨⟨surviving, found, restores⟩, plain⟩

/-- What carries out a record applies. -/
theorem applied_of_restores (restores : Restores surviving doc ops patch) :
    ∃ final, applyOwnedOps doc (patch.map WirePatchOp.decoded) = .ok final := by
  induction restores with
  | done => exact ⟨_, rfl⟩
  | skip _ _ ih => exact ih
  | replay _ _ applied _ ih =>
    obtain ⟨final, later⟩ := ih
    refine ⟨final, ?_⟩
    rw [map_cons, applyOwnedOps, bind_eq_ok]
    exact ⟨_, applied, later⟩

/-! ## The patch command repeats its patch -/

theorem eq_of_parts {left right : WirePatchOp} (kind : left.kind = right.kind)
    (path : left.path = right.path) (carried : left.carried = right.carried) : left = right := by
  cases left <;> cases right <;>
    simp_all [WirePatchOp.kind, WirePatchOp.path, WirePatchOp.carried]

section Repetition

variable {doc : Json} {tx final : Transaction doc}

theorem perform_replayCall {wire : WirePatchOp} {after : Json} (plain : wire.Plain)
    (applied : applyOp tx.working wire.decoded = .ok after)
    (performed : (replayCall wire).perform tx = .ok final) :
    ∃ op, final.forward = tx.forward ++ [op] ∧ toWireOp op = wire ∧ final.working = after := by
  obtain ⟨op, recorded, appended, result⟩ := TxCall.perform_eq_ok performed
  have owns {value : Json} (plain : value.Plain)
      (carried : (toWireOp op).carried = (ownJson value).toOption)
      (kind : (toWireOp op).kind ≠ "remove") : (toWireOp op).carried = some value := by
    cases owned : ownJson value with
    | error reason =>
      rw [owned] at carried
      cases shape : toWireOp op <;> simp_all [WirePatchOp.carried, WirePatchOp.kind,
        Except.toOption]
    | ok copy =>
      obtain ⟨-, rfl⟩ := (ownJson_eq_ok_iff plain).mp owned
      rw [carried, owned]
      rfl
  have same : toWireOp op = wire := by
    obtain ⟨path, kind, carried⟩ := recorded
    cases wire with
    | add place value =>
      cases index : endsInIndex place with
      | true =>
        simp only [replayCall, index, if_true, TxCall.path, TxCall.kind, TxCall.written]
          at path kind carried
        exact eq_of_parts kind path (owns plain carried (by simp [kind]))
      | false =>
        simp only [replayCall, index, Bool.false_eq_true, if_false, TxCall.path, TxCall.kind,
          TxCall.written] at path kind carried
        have vacant := isSome_getAtPath (fun _ => index) applied
        simp only [WirePatchOp.decoded, PatchOp.kind, ne_eq, not_true_eq_false, decide_false]
          at vacant
        rw [vacant] at kind
        exact eq_of_parts kind path (owns plain carried (by simp [kind]))
    | replace place value =>
      simp only [replayCall, TxCall.path, TxCall.kind, TxCall.written] at path kind carried
      have present := isSome_getAtPath (fun adds => by simp [WirePatchOp.decoded, PatchOp.kind]
        at adds) applied
      simp only [WirePatchOp.decoded, PatchOp.path, PatchOp.kind] at present
      rw [show (getAtPath tx.working place).isSome = true by simpa using present] at kind
      exact eq_of_parts kind path (owns plain.1 carried (by simp [kind]))
    | remove place => exact eq_of_parts kind path carried
  refine ⟨op, appended, same, ?_⟩
  have again := applyOp_congr (same.trans (toWireOp_decoded wire).symm) result
  exact Except.ok.inj (again.symm.trans applied)

theorem performCalls_replayCalls {patch : List WirePatchOp} {after : Json}
    (plain : ∀ wire ∈ patch, wire.Plain)
    (applied : applyOwnedOps tx.working (patch.map WirePatchOp.decoded) = .ok after)
    (performed : performCalls tx (patch.map replayCall) = .ok final) :
    toWirePatch final.forward = toWirePatch tx.forward ++ patch := by
  induction patch generalizing tx with
  | nil =>
    cases performed
    exact (append_nil _).symm
  | cons wire rest ih =>
    rw [map_cons, applyOwnedOps, bind_eq_ok] at applied
    obtain ⟨middle, first, later⟩ := applied
    rw [map_cons, performCalls, bind_eq_ok] at performed
    obtain ⟨next, performs, remaining⟩ := performed
    obtain ⟨op, appended, same, rfl⟩ := perform_replayCall (plain wire mem_cons_self) first performs
    rw [ih (fun other member => plain other (mem_cons_of_mem _ member)) later remaining, appended]
    simp [toWirePatch, same]

end Repetition

theorem sessionPatchParams_injective {left right : List WirePatchOp}
    (same : sessionPatchParams left = sessionPatchParams right) : left = right :=
  wirePatchJson_injective (by simpa [sessionPatchParams] using same)

theorem plain_sessionPatchParams (plain : ∀ wire ∈ patch, wire.Plain) :
    (sessionPatchParams patch).Plain := by
  refine plain_obj_iff.mpr ⟨by simp [fieldKeys], fun entry member => ?_⟩
  obtain rfl := mem_singleton.mp member
  exact plain_wirePatchJson plain

theorem calls_sessionPatch {Authority : Type} (doc : Json) (patch : List WirePatchOp)
    (actor : Option String) (context : CommandExecutionContext Authority) :
    ((sessionPatchCommand Authority).run doc (sessionPatchParams patch) actor context).calls =
      patch.map replayCall := by
  show (sessionPatchRun (patch.map WirePatchOp.json)).calls = _
  rw [sessionPatchRun_json]

theorem execute_sessionPatch {Authority : Type} {env : Environment Authority}
    {context : CommandExecutionContext Authority}
    (registered : env.commands sessionPatchId = some (sessionPatchCommand Authority))
    {after : Json} {invocation : CommandInvocation} {forward inverse : List PatchOp}
    {diagnostics : List Diagnostic} (command : invocation.command = sessionPatchId)
    (params : invocation.params = sessionPatchParams patch) (plain : ∀ wire ∈ patch, wire.Plain)
    (applied : applyOwnedOps doc (patch.map WirePatchOp.decoded) = .ok after)
    (executed : DocumentStore.execute env context doc invocation =
      .ok next forward inverse diagnostics) (changed : forward ≠ []) :
    toWirePatch forward = patch := by
  obtain ⟨definition, owned, tx, found, owns, performed, rfl, -⟩ :=
    DocumentStore.performCalls_of_execute executed changed
  rw [command, registered] at found
  cases found
  rw [params] at owns
  obtain ⟨-, rfl⟩ := (ownJson_eq_ok_iff (plain_sessionPatchParams plain)).mp owns
  rw [calls_sessionPatch] at performed
  exact performCalls_replayCalls plain applied performed

end Dinkster.Commands
