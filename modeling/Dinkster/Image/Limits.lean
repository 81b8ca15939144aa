import Dinkster.Image.History

/-!
# Undo and redo, and the limits of the loader

In every run undo and redo give back the contents that the commands had, ids are never minted
twice, and the resources that the history needs are retained.  A replay throws only over the
limits of the loader.  It does: a cursor that moved on can make a document too large that was
as large as documents may be.
-/

namespace Dinkster.Image.Undo

open Library Format List Option
open Collab (HistoryDirection)

theorem maxUndo_step (platform : Platform) (store : ImageDocumentStore)
    (action : ImageDocumentStore.Action) : (store.step platform action).maxUndo = store.maxUndo := by
  cases action with
  | dispatch actor command =>
    unfold ImageDocumentStore.step ImageDocumentStore.dispatch
    dsimp only
    cases planImageDocumentCommand platform store.current actor command <;> rfl
  | replay direction =>
    unfold ImageDocumentStore.step
    dsimp only
    cases replayed : store.replay platform direction with
    | none => rfl
    | some outcome =>
      unfold ImageDocumentStore.replay at replayed
      split at replayed
      · cases replayed
        rfl
      · obtain ⟨document, _, returned⟩ := bind_eq_some_iff.mp replayed
        obtain ⟨_, same⟩ := ite_none_right_eq_some.mp returned
        cases same
        cases direction <;> rfl

theorem maxUndo_run (platform : Platform) (actions : List ImageDocumentStore.Action) :
    ∀ store : ImageDocumentStore, (store.run platform actions).maxUndo = store.maxUndo := by
  induction actions with
  | nil => exact fun _ => rfl
  | cons action rest ih =>
    exact fun store => (ih (store.step platform action)).trans (maxUndo_step platform store action)

variable {platform : Platform}

theorem Consistent.undo_of_unkept {store : ImageDocumentStore}
    (consistent : Consistent platform store) (unkept : store.maxUndo = 0) :
    store.replay platform .undo = some (false, store) := by
  have bounded := consistent.bounded
  have empty : store.history .undo = [] :=
    length_eq_zero_iff.mp (show store.undoStack.length = 0 by omega)
  unfold ImageDocumentStore.replay
  rw [empty]

/-- In every run: a replay throws exactly where the document it makes is over the limits; an
undo after a dispatch, where a history is kept, takes back its content and keeps the allocation,
and a redo then restores the document; no id is minted twice; and what further replays use is
retained. -/
theorem undo_redo_run {platform : Platform} {initial : ImageDocument} {maxUndo : Nat}
    {first : ImageDocumentStore}
    (created : ImageDocumentStore.create platform initial maxUndo = some first)
    (actions : List ImageDocumentStore.Action) :
    let store := first.run platform actions
    (∀ direction, store.replay platform direction = none ↔
      ∃ record rest document, store.history direction = record :: rest ∧
        store.replayed (record.edits direction) = some document ∧
        withinLimits platform document = false) ∧
    (∀ actor command next, store.dispatch platform actor command = some next →
      (maxUndo = 0 → next.replay platform .undo = some (false, next)) ∧
      (maxUndo ≠ 0 → ∀ answer undone, next.replay platform .undo = some (answer, undone) →
        answer = true ∧ undone.current = ⟨next.current.allocation, store.current.content⟩ ∧
        ∃ redone, undone.replay platform .redo = some (true, redone) ∧
          redone.current = next.current)) ∧ store.minted.Nodup ∧
    ∀ directions : List HistoryDirection, ∀ digest ∈ resourceDigests
        (store.run platform (directions.map .replay)).current.content,
        digest ∈ store.retainedResourceDigests := by
  intro store
  have consistent : Consistent platform store := (Consistent.create created).run actions
  have kept : store.maxUndo = maxUndo := by
    rw [maxUndo_run]
    obtain ⟨_, same⟩ := ite_none_right_eq_some.mp created
    rw [← some.inj same]
  refine ⟨consistent.replay_eq_none_iff, fun actor command next dispatched => ⟨fun unkept => ?_,
    fun keeps answer undone undo => consistent.undo_dispatch dispatched (kept.trans_ne keeps) undo⟩,
    consistent.distinct, fun directions digest used => ?_⟩
  · obtain ⟨after, _, _, same, _⟩ := consistent.dispatch dispatched
    exact after.undo_of_unkept (same.trans (kept.trans unkept))
  · exact consistent.retained_run directions digest (mem_append_left _ used)

/-- Numbers as they are printed; no bytes are hashed. -/
def printed : Platform where
  numberBytes := fun number => (Commands.numberText number).length
  blake3 := fun _ => ""

def pixel : ImageRasterResource where
  digest := "blake3:0000000000000000000000000000000000000000000000000000000000000000"
  byteSize := 1
  mediaType := "image/png"
  width := 1
  height := 1
  alphaMode := "straight"
  inline := none

def pixelLayer (resourceId : String) : ImageLayer where
  toImageLayer := Layers.newLayer (.raster resourceId ⟨0, 0, 1, 1⟩) ""
  components := none

/-- Two layers, with the next id one digit short of two. -/
def twoLayers : ImageDocument where
  allocation := ⟨9, none⟩
  content :=
    { lineage := "lineage"
      canvas := ⟨1, 1, "premultiplied-alpha", none, none⟩
      rootLayerIds := ["l1", "l3"]
      layers := ⟨[("l1", pixelLayer "r0"), ("l3", pixelLayer "r2")], by decide⟩
      masks := Record.empty
      resources := ⟨[("r0", pixel), ("r2", pixel)], by decide⟩
      extensions := none }

theorem undo_redo_run_twoLayers :
    ∃ first, ImageDocumentStore.create printed twoLayers 1 = some first ∧
      (first.run printed [.dispatch none (.layerTree (.group ["l1"] ""))]).minted.Nodup ∧
      ∀ directions : List HistoryDirection, ∀ digest ∈ resourceDigests
          ((first.run printed [.dispatch none (.layerTree (.group ["l1"] ""))]).run printed
            (directions.map .replay)).current.content, digest ∈ (first.run printed
            [.dispatch none (.layerTree (.group ["l1"] ""))]).retainedResourceDigests := by
  have created : ImageDocumentStore.create printed twoLayers 1 =
      some ⟨twoLayers, [], [], 1, []⟩ := if_pos (by decide +kernel)
  obtain ⟨_, _, distinct, retained⟩ :=
    undo_redo_run created [.dispatch none (.layerTree (.group ["l1"] ""))]
  exact ⟨_, created, distinct, retained⟩

/-- A content with one extension, which no check and no command on layers looks at. -/
def ImageContent.padded (content : ImageContent) (text : String) : ImageContent :=
  { content with extensions := some ⟨[("pad", .str text)], pairwise_singleton _ _⟩ }

def ImageDocument.padded (document : ImageDocument) (text : String) : ImageDocument :=
  { document with content := document.content.padded text }

def commanded (document : ImageDocument) (command : Layers.LayerCommand ImageRasterResource) :
    Option ImageDocument :=
  (layerTreePatches document none command).bind fun planned =>
    applyOwnedOps planned.patches document

theorem apply_padded {edit : Edit imageCells} (apart : ¬ ImageField.extensions.overlaps edit.name)
    (content : ImageContent) (text : String) :
    edit.apply (content.padded text) = (edit.apply content).map (·.padded text) := by
  obtain ⟨field, old, new⟩ := edit
  unfold Edit.apply
  rw [apply_ite (Option.map _)]
  cases field <;> first | rfl | exact absurd trivial apart

theorem applyOwnedOps_padded {patches : List ImagePatch} (text : String) :
    ∀ {document : ImageDocument}, (∀ patch ∈ patches, ∀ edit, patch = .content edit →
      ¬ ImageField.extensions.overlaps edit.name) → applyOwnedOps patches (document.padded text) =
        (applyOwnedOps patches document).map (·.padded text) := by
  induction patches with
  | nil => exact fun _ => rfl
  | cons patch rest ih =>
    intro document apart
    have later := fun document => @ih document fun patch listed =>
      apart patch (mem_cons_of_mem _ listed)
    unfold applyOwnedOps
    cases patch with
    | nextOrdinal ordinal =>
      exact later ⟨{ document.allocation with nextOrdinal := ordinal }, document.content⟩
    | actorCursors cursors =>
      exact later ⟨{ document.allocation with actorCursors := cursors }, document.content⟩
    | content edit =>
      have edited := apply_padded (apart _ mem_cons_self edit rfl) document.content text
      change ((edit.apply (document.content.padded text)).map _).bind _ =
        Option.map _ (((edit.apply document.content).map _).bind _)
      rw [edited]
      cases edit.apply document.content with
      | none => rfl
      | some content => exact later ⟨document.allocation, content⟩

theorem commanded_padded (document : ImageDocument) (text : String)
    (command : Layers.LayerCommand ImageRasterResource) : commanded (document.padded text) command =
      (commanded document command).map (·.padded text) := by
  have patches : ofLayerPatch (document.padded text).content = ofLayerPatch document.content := by
    funext patch
    cases patch <;> rfl
  unfold commanded layerTreePatches
  rw [patches]
  change ((Layers.commandPatches document.tree none command).map _).bind _ = _
  cases Layers.commandPatches document.tree none command with
  | none => rfl
  | some planned =>
    refine applyOwnedOps_padded text fun patch listed edit same => ?_
    obtain ⟨layerPatch, _, made⟩ := mem_map.mp listed
    rw [same] at made
    cases layerPatch <;> cases made <;> exact not_false

theorem dispatch_padded {platform : Platform} {store : ImageDocumentStore}
    {document next : ImageDocument} {text : String}
    {command : Layers.LayerCommand ImageRasterResource}
    (current : store.current = document.padded text)
    (makes : commanded document command = some next)
    (loaded : loads platform (next.padded text) = true) :
    ∃ reached, store.dispatch platform none (.layerTree command) = some reached ∧
      reached.current = next.padded text := by
  have makes : commanded store.current command = some (next.padded text) := by
    rw [current, commanded_padded, makes]
    rfl
  obtain ⟨planned, found, applied⟩ := bind_eq_some_iff.mp makes
  have plan : planImageDocumentCommand platform store.current none (.layerTree command) =
      some ⟨next.padded text, planned.patches.filterMap ImagePatch.edit?,
        Edit.inverses (planned.patches.filterMap ImagePatch.edit?), planned.created⟩ := by
    unfold planImageDocumentCommand commandPatches
    simp [found, applied, loaded]
  refine ⟨_, congrArg (Option.map _) plan, rfl⟩

section Sizes

variable {document : ImageDocument} {text : String}

section

variable (bare : document.content.extensions = none)

include bare

theorem toJson_padded (text : String) :
    ∃ fields, document.toJson = .obj fields ∧ "extensions" ∉ fieldKeys fields ∧ fields.length = 9 ∧
      (document.padded text).toJson =
        .obj (fields ++ [("extensions", .obj [("pad", .str text)])]) := by
  obtain ⟨allocation, content⟩ := document
  obtain ⟨lineage, canvas, rootLayerIds, layers, masks, resources, extensions⟩ := content
  cases bare
  have absent : "extensions" ∉ ["format", "formatVersion", "lineage", "canvas", "allocation",
      "rootLayerIds", "layers", "masks", "resources"] := by decide
  exact ⟨_, rfl, absent, rfl, rfl⟩

theorem ownable_padded {limits : JsonLimits} (plain : document.toJson.Plain)
    (owned : Ownable limits document.toJson)
    (deep : 2 ≤ imageLimits.maxDepth ∧ limits.maxDepth ≤ imageLimits.maxDepth)
    (few : limits.maxNodes + 2 ≤ imageLimits.maxNodes)
    (short : limits.maxChars + 13 + codeUnits text ≤ imageLimits.maxChars) :
    (ownJsonWithin imageLimits (document.padded text).toJson).toOption.isSome = true := by
  obtain ⟨fields, before, absent, _, after⟩ := toJson_padded bare text
  rw [before] at plain owned
  obtain ⟨protoFree, shallow, nodes, chars⟩ := owned
  simp only [Json.ProtoFree, Json.height, Json.nodes, Json.chars] at protoFree shallow nodes chars
  have padding : (Json.obj [("pad", .str text)]).Plain :=
    plain_obj_iff.mpr ⟨nodup_singleton _, fun entry listed => by
      rw [mem_singleton.mp listed]
      exact trivial⟩
  have plain : (document.padded text).toJson.Plain := by
    rw [after]
    obtain ⟨distinct, inner⟩ := plain_obj_iff.mp plain
    refine plain_obj_iff.mpr ⟨?_, fun entry listed => ?_⟩
    · unfold fieldKeys at absent distinct ⊢
      rw [map_append]
      refine nodup_append'.mpr ⟨distinct, nodup_singleton _, fun key here there => ?_⟩
      rw [mem_singleton.mp there] at here
      exact absent here
    · cases mem_append.mp listed with
      | inl old => exact inner entry old
      | inr new =>
        rw [mem_singleton.mp new]
        exact padding
  have owned : Ownable imageLimits (document.padded text).toJson := by
    rw [after]
    have key : codeUnits "extensions" = 10 := by decide
    have pad : codeUnits "pad" = 3 := by decide
    refine ⟨?_, ?_, ?_, ?_⟩
    · rw [Json.ProtoFree, fieldsProtoFree_append]
      exact ⟨protoFree, by decide, ⟨by decide, trivial, trivial⟩, trivial⟩
    · simp only [Json.height, fieldsHeight_append, fieldsHeight]
      omega
    · simp only [Json.nodes, fieldsNodes_append, fieldsNodes]
      omega
    · simp only [Json.chars, fieldsChars_append, fieldsChars]
      omega
  rw [(ownJsonWithin_eq_ok_iff plain).mpr ⟨owned, rfl⟩]
  rfl

theorem canonicalBytes_padded (numberBytes : Rat → Nat) (text : String) :
    canonicalBytes numberBytes (document.padded text).toJson =
      canonicalBytes numberBytes document.toJson + jsonStringBytes text + 22 := by
  obtain ⟨fields, before, _, length, after⟩ := toJson_padded bare text
  have key : jsonStringBytes "extensions" = 12 := by decide
  have pad : jsonStringBytes "pad" = 5 := by decide
  rw [before, after]
  simp only [canonicalBytes, canonicalFieldsBytes_append, canonicalFieldsBytes, length_append,
    length_cons, length_nil, length, key, pad]
  omega

end

end Sizes

theorem Consistent.undo_twice {first second third : ImageDocumentStore}
    (consistent : Consistent platform first) {earlier later : Option String}
    {command next : ImageDocumentCommand}
    (dispatched : first.dispatch platform earlier command = some second)
    (again : second.dispatch platform later next = some third)
    (room : first.undoStack.length + 2 ≤ first.maxUndo)
    (inside : withinLimits platform ⟨third.current.allocation, second.current.content⟩ = true)
    (outside : withinLimits platform ⟨third.current.allocation, first.current.content⟩ = false) :
    ∃ undone, third.replay platform .undo = some (true, undone) ∧
      undone.replay platform .undo = none := by
  obtain ⟨between, _, _, kept, oldest, firstLinks, firstPushed⟩ := consistent.dispatch dispatched
  rw [if_neg (by omega)] at firstPushed
  obtain ⟨after, _, _, _, newest, links, pushed⟩ := between.dispatch again
  rw [firstPushed, length_cons, kept, if_neg (by omega)] at pushed
  have newestThere : third.history .undo = newest :: oldest :: first.undoStack := pushed
  obtain ⟨other, leads, checked, timeline, _, same⟩ := after.replay_cons newestThere
  have middle : other = second.current.content := by
    have there : Leads .undo third.current.content newest second.current.content := links
    exact some.inj (leads.applied.symm.trans there.applied)
  subst middle
  rw [inside] at same
  refine ⟨_, same, ?_⟩
  have rewound := after.rewind newestThere leads checked timeline
  have oldestThere : (third.rewind newest ⟨third.current.allocation, second.current.content⟩
      .undo).history .undo = oldest :: first.undoStack :=
    congrArg tail pushed
  obtain ⟨other, leads, _, _, _, same⟩ := rewound.replay_cons oldestThere
  have start : other = first.current.content := by
    have there : Leads .undo second.current.content oldest first.current.content := firstLinks
    exact some.inj (leads.applied.symm.trans there.applied)
  rw [same, start]
  exact if_neg (Bool.eq_false_iff.mp outside)

theorem owned_of_identical {limits : JsonLimits} {json : Json}
    (same : (ownJsonWithin limits json).toOption.any (·.identical json) = true) :
    json.Plain ∧ Ownable limits json := by
  cases accepted : ownJsonWithin limits json with
  | error reason =>
    rw [accepted] at same
    cases same
  | ok owned =>
    rw [accepted] at same
    have same : owned = json := (Json.identical_iff _ _).mp same
    rw [same] at accepted
    have plain := ownJsonWithin_plain accepted
    exact ⟨plain, ((ownJsonWithin_eq_ok_iff plain).mp accepted).1⟩

def filler (length : Nat) : String := String.ofList (List.replicate length 'a')

theorem codeUnits_filler (length : Nat) : codeUnits (filler length) = length := by
  have one : (if 'a'.toNat < 65536 then 1 else 2) = 1 := by decide
  unfold codeUnits filler
  rw [String.toList_ofList, map_replicate, sum_replicate_nat, one, Nat.mul_one]

theorem jsonStringBytes_filler (length : Nat) : jsonStringBytes (filler length) = 2 + length := by
  have one : jsonCharBytes 'a' = 1 := by decide
  unfold jsonStringBytes filler
  rw [String.toList_ofList, map_replicate, sum_replicate_nat, one, Nat.mul_one]

/-- A document that is loaded with this much more. -/
def fits (document : ImageDocument) : Bool :=
  document.content.extensions.isNone &&
    ((ownJsonWithin ⟨64, 1000, 1200⟩ document.toJson).toOption.any
      (·.identical document.toJson)) &&
    canonicalBytes printed.numberBytes document.toJson ≤ 1244 &&
    checkImageDocument printed document

section Filled

variable {document : ImageDocument} {length : Nat}

theorem loads_filled (full : length + 1268 = maxImageDocumentBytes)
    (small : fits document = true) : loads printed (document.padded (filler length)) = true := by
  unfold fits at small
  simp only [Bool.and_eq_true, isNone_iff_eq_none, decide_eq_true_eq] at small
  obtain ⟨⟨⟨bare, small⟩, bytes⟩, checked⟩ := small
  obtain ⟨plain, owned⟩ := owned_of_identical small
  refine Bool.and_eq_true_iff.mpr ⟨Bool.and_eq_true_iff.mpr ⟨?_, decide_eq_true ?_⟩, checked⟩
  · refine ownable_padded bare plain owned ?_ ?_ ?_
    · exact ⟨by decide, by decide⟩
    · exact Nat.le_of_ble_eq_true rfl
    · have most : imageLimits.maxChars = maxImageDocumentBytes := rfl
      rw [codeUnits_filler, most, ← full]
      dsimp only
      omega
  · rw [canonicalBytes_padded bare, jsonStringBytes_filler, ← full]
    omega

theorem withinLimits_filled (full : length + 1268 = maxImageDocumentBytes)
    (bare : document.content.extensions = none)
    (large : 1244 < canonicalBytes printed.numberBytes document.toJson) :
    withinLimits printed (document.padded (filler length)) = false := by
  have more : ¬ canonicalBytes printed.numberBytes (document.padded (filler length)).toJson ≤
      maxImageDocumentBytes := by
    rw [canonicalBytes_padded bare, jsonStringBytes_filler, ← full]
    omega
  unfold withinLimits
  rw [decide_eq_false more, Bool.and_false]

end Filled

theorem padded_undo_throws {start middle last : ImageDocument} {text : String}
    {command next : Layers.LayerCommand ImageRasterResource}
    (makes : commanded start command = some middle) (later : commanded middle next = some last)
    (loaded : loads platform (start.padded text) = true)
    (fewer : loads platform (middle.padded text) = true)
    (more : loads platform (last.padded text) = true) (inside : withinLimits platform
      ((ImageDocument.mk last.allocation middle.content).padded text) = true)
    (outside : withinLimits platform
      ((ImageDocument.mk last.allocation start.content).padded text) = false) :
    ∃ first, ImageDocumentStore.create platform (start.padded text) 200 = some first ∧
      (first.run platform [.dispatch none (.layerTree command),
        .dispatch none (.layerTree next), .replay .undo]).replay platform .undo = none := by
  have created : ImageDocumentStore.create platform (start.padded text) 200 =
      some ⟨start.padded text, [], [], 200, []⟩ := if_pos loaded
  have consistent := Consistent.create created
  obtain ⟨second, dispatched, reached⟩ :=
    @dispatch_padded platform ⟨start.padded text, [], [], 200, []⟩ _ _ _ _ rfl makes fewer
  obtain ⟨third, again, there⟩ := dispatch_padded reached later more
  have within : withinLimits platform ⟨third.current.allocation, second.current.content⟩ = true := by
    rw [there, reached]
    exact inside
  have without : withinLimits platform ⟨third.current.allocation, (start.padded text).content⟩ =
      false := by
    rw [there]
    exact outside
  obtain ⟨undone, undo, throws⟩ :=
    consistent.undo_twice dispatched again (Nat.le_of_ble_eq_true rfl) within without
  refine ⟨_, created, ?_⟩
  simp only [ImageDocumentStore.run, ImageDocumentStore.step, foldl_cons, foldl_nil,
    dispatched, again, undo, map_some, getD_some, throws]

/-- The second command moves the cursor from nine to ten. -/
theorem documents_fit : fits twoLayers = true ∧
      ((commanded twoLayers (.remove "l3")).any fun removed =>
        (commanded removed (.group ["l1"] "")).any fun grouped =>
          fits removed && fits grouped && fits ⟨grouped.allocation, removed.content⟩ &&
            (1244 < canonicalBytes printed.numberBytes
              (ImageDocument.mk grouped.allocation twoLayers.content).toJson)) = true := by
  constructor <;> decide +kernel

/-- An undo can throw after two commands on a document that is as large as documents may be: the
first content has no room for the cursor that moved on.  Without a history an undo takes nothing
back. -/
theorem undo_fails :
    (∃ first, ImageDocumentStore.create printed (twoLayers.padded (filler 16775948)) 200 = some first ∧
      (first.run printed [.dispatch none (.layerTree (.remove "l3")),
        .dispatch none (.layerTree (.group ["l1"] "")),
        .replay .undo]).replay printed .undo = none) ∧
    ∃ first next, ImageDocumentStore.create printed twoLayers 0 = some first ∧
      first.dispatch printed none (.layerTree (.remove "l3")) = some next ∧
      next.replay printed .undo = some (false, next) ∧
      next.current.content ≠ first.current.content := by
  obtain ⟨full, made⟩ := documents_fit
  obtain ⟨removed, remove, made⟩ := (any_eq_true _ _).mp made
  obtain ⟨grouped, group, made⟩ := (any_eq_true _ _).mp made
  simp only [Bool.and_eq_true, decide_eq_true_eq] at made
  obtain ⟨⟨⟨fewer, more⟩, back⟩, large⟩ := made
  have length : 16775948 + 1268 = maxImageDocumentBytes := Nat.eq_of_beq_eq_true rfl
  refine ⟨padded_undo_throws remove group (loads_filled length full) (loads_filled length fewer)
    (loads_filled length more) (Bool.and_eq_true_iff.mp (loads_filled length back)).1
    (@withinLimits_filled ⟨grouped.allocation, twoLayers.content⟩ _ length rfl large), ?_⟩
  let first : ImageDocumentStore := ⟨twoLayers, [], [], 0, []⟩
  have created : ImageDocumentStore.create printed twoLayers 0 = some first :=
    if_pos (by decide +kernel)
  have fewer : (first.dispatch printed none (.layerTree (.remove "l3"))).any
      (·.current.content.rootLayerIds = ["l1"]) = true := by decide +kernel
  obtain ⟨next, dispatched, ids⟩ := (any_eq_true _ _).mp fewer
  obtain ⟨after, _, _, same, _⟩ := (Consistent.create created).dispatch dispatched
  refine ⟨first, next, created, dispatched, after.undo_of_unkept same, fun equal => ?_⟩
  rw [equal] at ids
  exact absurd ids (by decide)

end Dinkster.Image.Undo
