import Dinkster.Image.Exactness

/-!
# Plans of image commands

The redo patches of a plan are exact one after the other, and so are undone by their inverses.
A plan moves a cursor of the allocation past the ids it mints, and leaves the others alone.
-/

namespace Dinkster.Image.Undo

open Library Format List Option
open Layers (LayerCommand LayerKind LayerPatch Tree View)

variable {content : ImageContent} {patch : LayerPatch ImageRasterResource} {actor : Option String}
    {document next : ImageDocument} {rest : List ImagePatch}

theorem target_of_content {edit : Edit imageCells}
    (same : ofLayerPatch content patch = .content edit) : target patch = some edit.name := by
  cases patch <;> cases same <;> rfl

theorem displaced_of_content {edit : Edit imageCells}
    (same : ofLayerPatch content patch = .content edit) (displaces : edit.displaces = true) :
    displaced patch = some edit.name := by
  cases patch with
  | addZIndex id index | addLayer id layer | addResource id resource =>
    cases same
    cases displaces
  | replaceNextOrdinal ordinal | setActorCursors cursors => cases same
  | _ =>
    cases same
    rfl

theorem clears_ofLayerPatch {later : LayerPatch ImageRasterResource} (clear : Clear patch later) :
    (ofLayerPatch content patch).Clears (ofLayerPatch content later) :=
  fun _ _ here there displaces =>
    clear _ _ (target_of_content here) (displaced_of_content there displaces)

theorem honest_add {edit : Edit imageCells} (adds : edit.displaces = false) :
    (ImagePatch.content edit).Honest content := by
  intro other same displaces
  cases same
  rw [adds] at displaces
  cases displaces

variable {letters : List String}

theorem clears_allocation (later : ImagePatch) :
    (ofLayerPatch document.content (Layers.allocateIds document.tree actor letters).2).Clears
      later := by
  intro edit other here _ _
  have writes := target_of_content here
  rw [target_allocation] at writes
  cases writes

theorem clears_add {patch : ImagePatch} {later : Edit imageCells}
    (adds : later.displaces = false) : patch.Clears (.content later) := by
  intro edit other _ there displaces
  cases there
  rw [adds] at displaces
  cases displaces

theorem honest_ofLayerPatch (content : ImageContent) (patch : LayerPatch ImageRasterResource) :
    (ofLayerPatch content patch).Honest content := by
  cases patch with
  | replaceNextOrdinal ordinal | setActorCursors cursors =>
    intro edit same
    cases same
  | addZIndex id index | addLayer id layer | addResource id resource => exact honest_add rfl
  | replaceRootLayerIds ids | replaceChildLayerIds parent ids | replaceZIndex id index
  | removeMask id | removeLayer id | removeResource id => exact honest_replace content _ _

theorem get_mapValues {Value Other : Type} (change : Value → Other) (name : String) :
    ∀ table : Table Value, Table.get (table.map fun (id, value) => (id, change value)) name =
        (table.get name).map change
  | [] => rfl
  | entry :: rest => by
    rw [map_cons, Table.get_cons, Table.get_cons, get_mapValues change name rest]
    by_cases same : entry.1 = name
    · rw [if_pos same, if_pos same]
      rfl
    · rw [if_neg same, if_neg same]

theorem kind_eq_none {id : String} (absent : document.content.layers.get id = none) :
    document.tree.view.kind id = none := by
  change ((Table.get (document.content.layers.entries.map _) id).map _) = none
  rw [get_mapValues]
  change ((document.content.layers.get id).map _).map _ = none
  rw [absent]
  rfl

theorem once_of_record (document : ImageDocument) : (document.tree.layers.map Prod.fst).Nodup := by
  change ((document.content.layers.entries.map _).map Prod.fst).Nodup
  rw [List.map_map]
  exact document.content.layers.nodup_keys

section Checked

variable {platform : Platform} {document : ImageDocument}

theorem tree_of_checked (checked : checkImageDocument platform document = true) :
    Tree document.tree.view := by
  unfold checkImageDocument checkContent checkTree at checked
  simp only [Bool.and_eq_true] at checked
  apply @Layers.tree_of_accepts _ document.tree fun _ => true
  unfold Layers.accepts
  rw [decide_eq_true (once_of_record document), Bool.true_and, Bool.and_true]
  exact checked.2.1.2.1

end Checked

theorem applyOwnedOps_allocation (applied : applyOwnedOps (ofLayerPatch document.content
      (Layers.allocateIds document.tree actor letters).2 :: rest) document = some next) :
    ∃ middle, middle.content = document.content ∧ applyOwnedOps rest middle = some next := by
  obtain ⟨middle, first, later⟩ := bind_eq_some_iff.mp applied
  refine ⟨middle, ?_, later⟩
  unfold Layers.allocateIds at first
  cases actor <;>
  · cases first
    rfl

theorem applyOwnedOps_content {edit : Edit imageCells}
    (applied : applyOwnedOps (.content edit :: rest) document = some next) :
    ∃ content, edit.apply document.content = some content ∧
      applyOwnedOps rest { document with content } = some next := by
  obtain ⟨middle, first, later⟩ := bind_eq_some_iff.mp applied
  obtain ⟨content, edited, same⟩ := map_eq_some_iff.mp first
  exact ⟨content, edited, same ▸ later⟩

theorem absent_of_addLayer {next : ImageContent} {id : String} {layer : ImageLayer}
    (applied : (⟨.layer id, none, some layer⟩ : Edit imageCells).apply content = some next) :
    content.layers.get id = none :=
  (Edit.exact_of_adds rfl applied).symm

section Commands

variable {platform : Platform} {document next : ImageDocument}

/-- What is known of the patches of a command. -/
def Sound (document : ImageDocument) (patches : List ImagePatch) : Prop :=
  (∀ patch ∈ patches, patch.Honest document.content) ∧ patches.Pairwise ImagePatch.Clears

theorem sound_replace (field : ImageField) (value : field.Content) :
    Sound document [replace document.content field value] :=
  ⟨fun _ listed => mem_singleton.mp listed ▸ honest_replace _ _ _, pairwise_singleton _ _⟩

theorem sound_rootTransformPatches (checked : checkImageDocument platform document = true)
    (canvas : ImageCanvas) (transform : Layers.ImageAffineTransform → Layers.ImageAffineTransform) :
    Sound document (replace document.content .canvas canvas ::
      rootTransformPatches document.content transform) := by
  have distinct : document.content.rootLayerIds.Nodup :=
    @Tree.nodup _ (tree_of_checked checked) none _ rfl
  unfold rootTransformPatches
  refine ⟨fun patch listed => ?_, pairwise_cons.mpr ⟨fun later listed => ?_,
    pairwise_map.mpr (distinct.imp fun {id other} different =>
      @clears_content ⟨.transform id, _, _⟩ ⟨.transform other, _, _⟩ different)⟩⟩
  · cases mem_cons.mp listed with
    | inl first => exact first ▸ honest_replace _ _ _
    | inr rest =>
      obtain ⟨id, _, same⟩ := List.mem_map.mp rest
      exact same ▸ honest_replace _ _ _
  · obtain ⟨id, _, same⟩ := List.mem_map.mp listed
    exact same ▸ clears_replace not_false

variable {actor : Option String} {planned : Planned}

theorem sound_layerTree (checked : checkImageDocument platform document = true)
    {command : LayerCommand ImageRasterResource}
    (found : layerTreePatches document actor command = some planned)
    (applied : applyOwnedOps planned.patches document = some next) :
    Sound document planned.patches := by
  obtain ⟨made, found, same⟩ := map_eq_some_iff.mp found
  rw [← same] at applied ⊢
  have tree := tree_of_checked checked
  have once := once_of_record document
  refine ⟨fun patch listed => ?_, pairwise_map.mpr ?_⟩
  · obtain ⟨layerPatch, _, same⟩ := List.mem_map.mp listed
    exact same ▸ honest_ofLayerPatch document.content layerPatch
  · have clear : made.patches.Pairwise Clear := by
      cases command with
      | group layerIds name =>
        refine pairwise_group tree found (kind_eq_none ?_)
        obtain ⟨_, _, _, _, _, _, _, _, same⟩ := Layers.groupPatches_eq_some found
        rw [same] at applied
        obtain ⟨middle, kept, applied⟩ := applyOwnedOps_allocation applied
        obtain ⟨_, added, _⟩ := applyOwnedOps_content applied
        rw [← kept]
        exact absent_of_addLayer added
      | addRaster parentId index name resource sourceRect =>
        refine pairwise_addRaster tree found (kind_eq_none ?_)
        unfold Layers.commandPatches Layers.addRasterPatches at found
        simp only [bind_eq_bind, bind_eq_some_iff, Option.pure_def,
          bind_none, ite_none_left_eq_some, some.injEq] at found
        obtain ⟨_, _, _, same⟩ := found
        rw [← same] at applied
        obtain ⟨middle, kept, applied⟩ := applyOwnedOps_allocation applied
        obtain ⟨content, first, applied⟩ := applyOwnedOps_content applied
        obtain ⟨_, added, _⟩ := applyOwnedOps_content applied
        obtain ⟨_, _, _, written⟩ := Edit.apply_eq_some first
        have absent := absent_of_addLayer added
        rw [← written] at absent
        rw [← kept]
        exact absent
      | move layerId parentId index => exact pairwise_move once tree found
      | remove layerId => exact pairwise_remove once tree found
    exact clear.imp clears_ofLayerPatch

theorem sound_commandPatches (checked : checkImageDocument platform document = true)
    {command : ImageDocumentCommand} (found : commandPatches document actor command = some planned)
    (applied : applyOwnedOps planned.patches document = some next) :
    Sound document planned.patches := by
  cases command with
  | canvasCrop x y width height | canvasResize width height =>
    obtain ⟨_, same⟩ := ite_none_right_eq_some.mp found
    cases same
    exact sound_rootTransformPatches checked _ _
  | canvasUpdate width height compositing =>
    cases found
    exact sound_replace _ _
  | outputUpdate format quality =>
    obtain ⟨_, same⟩ := ite_none_right_eq_some.mp found
    cases stored : document.content.extensions with
    | none =>
      simp only [stored] at same
      cases same
      exact ⟨fun _ listed => mem_singleton.mp listed ▸ honest_add rfl,
        pairwise_singleton _ _⟩
    | some extensions =>
      simp only [stored] at same
      cases same
      exact sound_replace _ _
  | layerTree command => exact sound_layerTree checked found applied
  | layerUpdate layerId changes =>
    unfold commandPatches layerUpdatePatches at found
    simp only [bind_eq_bind, bind_eq_some_iff, Option.pure_def, bind_none,
      ite_none_left_eq_some, some.injEq] at found
    obtain ⟨_, _, _, _, _, same⟩ := found
    rw [← same]
    exact sound_replace _ _
  | maskUpdate maskId changes =>
    unfold commandPatches maskUpdatePatches at found
    simp only [bind_eq_bind, bind_eq_some_iff, Option.pure_def, bind_none,
      ite_none_left_eq_some, some.injEq] at found
    obtain ⟨_, _, _, same⟩ := found
    rw [← same]
    exact sound_replace _ _
  | maskAddRaster ownerLayerId index resource sourceRect =>
    unfold commandPatches maskAddPatches at found
    simp only [bind_eq_bind, bind_eq_some_iff, Option.pure_def, bind_none,
      ite_none_left_eq_some, some.injEq] at found
    obtain ⟨_, _, _, same⟩ := found
    rw [← same]
    refine ⟨fun patch listed => ?_, ?_⟩
    · simp only [mem_cons, not_mem_nil, or_false] at listed
      obtain rfl | rfl | rfl | rfl := listed
      · exact honest_ofLayerPatch _ _
      · exact honest_add rfl
      · exact honest_add rfl
      · exact honest_replace _ _ _
    · refine pairwise_cons.mpr ⟨fun later _ => clears_allocation later, ?_⟩
      refine pairwise_cons.mpr ⟨fun later listed => ?_, ?_⟩
      · simp only [mem_cons, not_mem_nil, or_false] at listed
        obtain rfl | rfl := listed
        · exact clears_add rfl
        · exact clears_content not_false
      · exact List.pairwise_pair.mpr (clears_content not_false)
  | maskRemove maskId =>
    unfold commandPatches maskRemovePatches at found
    simp only [bind_eq_bind, bind_eq_some_iff, Option.pure_def, some.injEq]
      at found
    obtain ⟨mask, _, owner, _, same⟩ := found
    rw [← same]
    refine ⟨fun patch listed => ?_, pairwise_cons.mpr ⟨fun later listed => ?_, ?_⟩⟩
    · have resource : patch ∈ (if mask.resourceId ∈ Layers.referencedResources document.tree []
          [maskId] then [] else [replace document.content (.resource mask.resourceId) none]) →
          patch.Honest document.content := fun there => by
        split at there
        · cases there
        · exact mem_singleton.mp there ▸ honest_replace _ _ _
      obtain rfl | later := mem_cons.mp listed
      · exact honest_replace _ _ _
      · obtain rfl | last := mem_cons.mp later
        · exact honest_replace _ _ _
        · exact resource last
    · obtain rfl | last := mem_cons.mp listed
      · exact clears_replace not_false
      · split at last
        · cases last
        · exact mem_singleton.mp last ▸ clears_replace not_false
    · split
      · exact pairwise_singleton _ _
      · exact List.pairwise_pair.mpr (clears_replace not_false)

end Commands

/-- No cursor of an allocation is beyond that of another. -/
def Behind (allocation later : ImageAllocation) : Prop :=
  ∀ actor, allocation.cursor actor ≤ later.cursor actor

variable {platform : Platform} {planned : Planned} {command : ImageDocumentCommand}

theorem checked_of_behind {allocation later : ImageAllocation}
    (checked : checkImageDocument platform ⟨allocation, content⟩ = true)
    (behind : Behind allocation later) (cursors : checkAllocation later = true) :
    checkImageDocument platform ⟨later, content⟩ = true := by
  unfold checkImageDocument checkAllocatedIds at checked ⊢
  simp only [Bool.and_eq_true, List.all_eq_true] at checked ⊢
  obtain ⟨⟨_, ids, distinct⟩, valid⟩ := checked
  refine ⟨⟨cursors, fun entry listed => ?_, distinct⟩, valid⟩
  obtain ⟨parsed, known, below⟩ := (Option.any_eq_true _ _).mp (ids entry listed)
  simp only [Bool.and_eq_true, decide_eq_true_eq] at below
  refine (Option.any_eq_true _ _).mpr ⟨parsed, known, ?_⟩
  simp only [Bool.and_eq_true, decide_eq_true_eq]
  exact ⟨below.1, below.2.trans_le (behind parsed.actor)⟩

def idText (letter : String) (ordinal : Nat) (actor : Option String) : String :=
  match actor with
  | none => letter ++ toString ordinal
  | some actor => letter ++ toString ordinal ++ "-" ++ actor

theorem allocateIds_fst (document : ImageDocument) (actor : Option String) (letters : List String) :
    (Layers.allocateIds document.tree actor letters).1 = letters.zipIdx.map fun (letter, index) =>
        idText letter (document.allocation.cursor actor + index) actor := by
  cases actor <;> rfl

theorem allocation_of_edits {patches : List ImagePatch} : ∀ {document next : ImageDocument},
    (∀ patch ∈ patches, ∃ edit, patch = .content edit) →
    applyOwnedOps patches document = some next → next.allocation = document.allocation := by
  induction patches with
  | nil =>
    intro document next _ applied
    rw [some.inj applied]
  | cons patch rest ih =>
    intro document next edits applied
    obtain ⟨edit, same⟩ := edits patch mem_cons_self
    rw [same] at applied
    obtain ⟨content, _, later⟩ := applyOwnedOps_content applied
    have kept := ih (fun patch listed => edits patch (mem_cons_of_mem _ listed)) later
    exact kept

theorem cursor_of_allocation (edits : ∀ patch ∈ rest, ∃ edit, patch = .content edit)
    (applied : applyOwnedOps (ofLayerPatch document.content
      (Layers.allocateIds document.tree actor letters).2 :: rest) document = some next)
    (other : Option String) : next.allocation.cursor other =
      document.allocation.cursor other + if other = actor then letters.length else 0 := by
  obtain ⟨middle, first, later⟩ := bind_eq_some_iff.mp applied
  rw [allocation_of_edits edits later]
  unfold Layers.allocateIds at first
  cases actor with
  | none =>
    cases first
    cases other with
    | none | some name => rfl
  | some actor =>
    cases first
    cases other with
    | none => rfl
    | some name =>
      unfold ImageAllocation.cursor
      dsimp only [getD_some]
      rw [Table.get_set]
      by_cases same : actor = name
      · rw [if_pos same, if_pos (congrArg some same.symm), same]
        rfl
      · rw [if_neg same, if_neg (fun names => same (some.inj names).symm)]
        rfl

theorem edit_of_target {field : ImageField} (writes : target patch = some field) :
    ∃ edit, ofLayerPatch content patch = .content edit := by
  cases patch with
  | replaceNextOrdinal ordinal | setActorCursors cursors => cases writes
  | _ => exact ⟨_, rfl⟩

theorem target_of_rewrites {Resource : Type} {document : Layers.ImageDocument Resource}
    {parentId : Option String} {ids : List String} {patch : LayerPatch Resource}
    (rewrites : Rewrites document parentId ids patch) : ∃ field, target patch = some field := by
  obtain list | ⟨id, _, writes, _⟩ := rewrites
  · exact ⟨_, list.1⟩
  · exact ⟨_, writes⟩

/-- What a command allocates: the ids it mints, and the ordinals of their actor. -/
structure Allocates (document next : ImageDocument) (actor : Option String)
    (created letters : List String) : Prop where
  created_eq : created = (Layers.allocateIds document.tree actor letters).1
  known : ∀ letter ∈ letters, letter ∈ ["l", "m", "r"]
  cursor : ∀ other, next.allocation.cursor other =
    document.allocation.cursor other + if other = actor then letters.length else 0

/-- A command of edits alone mints nothing. -/
theorem allocates_nothing {document next : ImageDocument} {actor : Option String}
    {patches : List ImagePatch} (edits : ∀ patch ∈ patches, ∃ edit, patch = .content edit)
    (applied : applyOwnedOps patches document = some next) :
    Allocates document next actor [] [] where
  created_eq := by cases actor <;> rfl
  known := fun _ listed => nomatch listed
  cursor := by
    intro other
    rw [allocation_of_edits edits applied, length_nil, ite_self, Nat.add_zero]

theorem mintedLetters_known (command : LayerCommand ImageRasterResource) :
    ∀ letter ∈ mintedLetters command, letter ∈ ["l", "m", "r"] := by
  cases command <;> simp [mintedLetters]

theorem allocates_layerTree {command : LayerCommand ImageRasterResource}
    (found : layerTreePatches document actor command = some planned)
    (applied : applyOwnedOps planned.patches document = some next) :
    Allocates document next actor planned.created (mintedLetters command) := by
  obtain ⟨made, found, same⟩ := map_eq_some_iff.mp found
  rw [← same] at applied ⊢
  have edits {patches : List (LayerPatch ImageRasterResource)}
      (targets : ∀ patch ∈ patches, ∃ field, target patch = some field) :
      ∀ patch ∈ patches.map (ofLayerPatch document.content), ∃ edit, patch = .content edit := by
    intro patch listed
    obtain ⟨layerPatch, known, same⟩ := List.mem_map.mp listed
    obtain ⟨_, writes⟩ := targets layerPatch known
    exact same ▸ edit_of_target writes
  have list {parentId : Option String} {children : List String} :
      ∀ patch ∈ Layers.parentListPatches document.tree parentId children,
        ∃ field, target patch = some field :=
    fun patch listed => target_of_rewrites (rewrites_of_mem listed)
  cases command with
  | group layerIds name =>
    obtain ⟨parentId, _, members, _, _, _, _, _, same⟩ := Layers.groupPatches_eq_some found
    rw [same] at applied
    refine ⟨rfl, mintedLetters_known _, cursor_of_allocation (edits fun patch listed => ?_) applied⟩
    obtain rfl | listed := mem_cons.mp listed
    · exact ⟨_, rfl⟩
    · cases mem_append.mp listed with
      | inl first => exact list patch first
      | inr order =>
        exact @target_of_rewrites _ document.tree parentId members _ (.inr (renumbers_of_mem order))
  | addRaster parentId index name resource sourceRect =>
    unfold Layers.commandPatches Layers.addRasterPatches at found
    simp only [bind_eq_bind, bind_eq_some_iff, Option.pure_def,
      bind_none, ite_none_left_eq_some, some.injEq] at found
    obtain ⟨_, _, _, same⟩ := found
    rw [← same] at applied
    refine ⟨rfl, mintedLetters_known _, cursor_of_allocation (edits fun patch listed => ?_) applied⟩
    obtain rfl | listed := mem_cons.mp listed
    · exact ⟨_, rfl⟩
    · obtain rfl | listed := mem_cons.mp listed
      · exact ⟨_, rfl⟩
      · exact list patch listed
  | move layerId parentId index =>
    unfold Layers.commandPatches Layers.movePatches at found
    simp only [bind_eq_bind, bind_eq_some_iff, Option.pure_def,
      bind_none, ite_none_left_eq_some, some.injEq] at found
    obtain ⟨_, _, _, _, _, _, _, same⟩ := found
    refine ⟨rfl, mintedLetters_known _, (@allocates_nothing _ _ actor _ (edits fun patch listed => ?_)
      applied).cursor⟩
    rw [← same] at listed
    split at listed
    · exact list patch listed
    · cases mem_append.mp listed with
      | inl first => exact list patch first
      | inr second => exact list patch second
  | remove layerId =>
    unfold Layers.commandPatches Layers.removePatches at found
    simp only [bind_eq_bind, bind_eq_some_iff, Option.pure_def, some.injEq] at found
    obtain ⟨_, _, _, _, _, _, same⟩ := found
    refine ⟨rfl, mintedLetters_known _, (@allocates_nothing _ _ actor _ (edits fun patch listed => ?_)
      applied).cursor⟩
    rw [← same] at listed
    simp only [mem_append, List.mem_map] at listed
    obtain first | (⟨_, _, rfl⟩ | ⟨_, _, rfl⟩) | ⟨_, _, rfl⟩ := listed
    · exact list patch first
    all_goals exact ⟨_, rfl⟩

/-- A command allocates the ids it mints, and nothing else. -/
theorem allocates_commandPatches (found : commandPatches document actor command = some planned)
    (applied : applyOwnedOps planned.patches document = some next) :
    ∃ letters, Allocates document next actor planned.created letters := by
  have transforms (transform : Layers.ImageAffineTransform → Layers.ImageAffineTransform) :
      ∀ patch ∈ rootTransformPatches document.content transform,
        ∃ edit, patch = .content edit := by
    intro patch listed
    obtain ⟨id, _, same⟩ := List.mem_map.mp listed
    exact ⟨_, same.symm⟩
  cases command with
  | canvasCrop x y width height | canvasResize width height =>
    obtain ⟨_, same⟩ := ite_none_right_eq_some.mp found
    rw [← some.inj same] at applied ⊢
    refine ⟨[], allocates_nothing (fun patch listed => ?_) applied⟩
    obtain rfl | listed := mem_cons.mp listed
    · exact ⟨_, rfl⟩
    · exact transforms _ patch listed
  | canvasUpdate width height compositing =>
    rw [← some.inj found] at applied ⊢
    exact ⟨[], allocates_nothing (fun _ listed => ⟨_, mem_singleton.mp listed⟩) applied⟩
  | outputUpdate format quality =>
    obtain ⟨_, same⟩ := ite_none_right_eq_some.mp found
    cases stored : document.content.extensions <;>
    · simp only [stored] at same
      rw [← some.inj same] at applied ⊢
      exact ⟨[], allocates_nothing (fun _ listed => ⟨_, mem_singleton.mp listed⟩) applied⟩
  | layerTree command => exact ⟨_, allocates_layerTree found applied⟩
  | layerUpdate layerId changes =>
    unfold commandPatches layerUpdatePatches at found
    simp only [bind_eq_bind, bind_eq_some_iff, Option.pure_def, bind_none,
      ite_none_left_eq_some, some.injEq] at found
    obtain ⟨_, _, _, _, _, same⟩ := found
    rw [← same] at applied ⊢
    exact ⟨[], allocates_nothing (fun _ listed => ⟨_, mem_singleton.mp listed⟩) applied⟩
  | maskUpdate maskId changes =>
    unfold commandPatches maskUpdatePatches at found
    simp only [bind_eq_bind, bind_eq_some_iff, Option.pure_def, bind_none,
      ite_none_left_eq_some, some.injEq] at found
    obtain ⟨_, _, _, same⟩ := found
    rw [← same] at applied ⊢
    exact ⟨[], allocates_nothing (fun _ listed => ⟨_, mem_singleton.mp listed⟩) applied⟩
  | maskAddRaster ownerLayerId index resource sourceRect =>
    unfold commandPatches maskAddPatches at found
    simp only [bind_eq_bind, bind_eq_some_iff, Option.pure_def, bind_none,
      ite_none_left_eq_some, some.injEq] at found
    obtain ⟨_, _, _, same⟩ := found
    rw [← same] at applied ⊢
    refine ⟨["r", "m"], rfl, by decide, cursor_of_allocation (fun patch listed => ?_) applied⟩
    simp only [mem_cons, not_mem_nil, or_false] at listed
    obtain rfl | rfl | rfl := listed <;> exact ⟨_, rfl⟩
  | maskRemove maskId =>
    unfold commandPatches maskRemovePatches at found
    simp only [bind_eq_bind, bind_eq_some_iff, Option.pure_def, some.injEq]
      at found
    obtain ⟨_, _, _, _, same⟩ := found
    rw [← same] at applied ⊢
    refine ⟨[], allocates_nothing (fun patch listed => ?_) applied⟩
    obtain rfl | later := mem_cons.mp listed
    · exact ⟨_, rfl⟩
    · obtain rfl | last := mem_cons.mp later
      · exact ⟨_, rfl⟩
      · split at last
        · cases last
        · exact ⟨_, mem_singleton.mp last⟩

structure Plans (platform : Platform) (document : ImageDocument) (actor : Option String)
    (plan : ImageDocumentCommandPlan) : Prop where
  loaded : loads platform plan.document = true
  recorded : Edit.Recorded document.content plan.redo plan.document.content
  inverse : plan.inverse = Edit.inverses plan.redo
  allocates : ∃ letters, Allocates document plan.document actor plan.created letters

theorem plans_of_planImageDocumentCommand {plan : ImageDocumentCommandPlan}
    (checked : checkImageDocument platform document = true)
    (planned : planImageDocumentCommand platform document actor command = some plan) :
    Plans platform document actor plan := by
  unfold planImageDocumentCommand at planned
  simp only [bind_eq_bind, bind_eq_some_iff, Option.pure_def, bind_none,
    ite_none_left_eq_some, some.injEq, Decidable.not_not] at planned
  obtain ⟨_, made, found, next, applied, loaded, same⟩ := planned
  obtain ⟨honest, clears⟩ := sound_commandPatches checked found applied
  rw [← same]
  exact ⟨loaded, recorded_of_clears honest clears applied, rfl,
    allocates_commandPatches found applied⟩

end Dinkster.Image.Undo
