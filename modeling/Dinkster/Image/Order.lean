import Dinkster.Image.Layers

/-!
# The order of image layers

The effective order of siblings is decided by the lists and the `z_index` of a document, its
view.  Rewriting a list in some order and renumbering its layers makes that order the effective
one, and leaves every other list as it was, since no layer has two parents.
-/

namespace Dinkster.Image.Layers

open Library List Option
open Function (update update_eq_self_iff update_of_ne update_self)

/-- The lists of a document and the `z_index` of its layers. -/
structure View where
  roots : List String
  kind : String → Option LayerKind
  zIndex : String → Option Int

namespace View

def listOf (view : View) : Option String → Option (List String)
  | none => some view.roots
  | some id =>
    match view.kind id with
    | some (.group childLayerIds _) => some childLayerIds
    | _ => none

/-- The children of a parent in their effective order. -/
def siblings (view : View) (parentId : Option String) : Option (List String) :=
  (view.listOf parentId).map (orderedBy view.zIndex)

end View

variable {Resource : Type}

def ImageDocument.view (document : ImageDocument Resource) : View where
  roots := document.rootLayerIds
  kind := fun id => (document.layers.get id).map (·.kind)
  zIndex := document.zIndex

def LayerKind.withChildren (ids : List String) : LayerKind → LayerKind
  | .group _ isolation => .group ids isolation
  | .raster resourceId sourceRect => .raster resourceId sourceRect

variable (view : View)

def LayerPatch.onView : LayerPatch Resource → View
  | .replaceRootLayerIds ids => { view with roots := ids }
  | .replaceChildLayerIds parent ids =>
    { view with
      kind := update view.kind parent ((view.kind parent).map (·.withChildren ids)) }
  | .addZIndex id index | .replaceZIndex id index =>
    { view with zIndex := update view.zIndex id (some index) }
  | .addLayer id layer =>
    { view with
      kind := update view.kind id (some layer.kind)
      zIndex := update view.zIndex id layer.z_index }
  | .removeLayer id =>
    { view with
      kind := update view.kind id none
      zIndex := update view.zIndex id none }
  | _ => view

variable (document : ImageDocument Resource)

/-- Writing a layer writes its kind and its `z_index`. -/
theorem view_set (id : String) (layer : ImageLayer) :
    ({ document with layers := document.layers.set id layer } : ImageDocument Resource).view =
      { document.view with
        kind := update document.view.kind id (some layer.kind)
        zIndex := update document.view.zIndex id layer.z_index } := by
  unfold ImageDocument.view ImageDocument.zIndex
  congr 1
  all_goals
    funext other
    rw [Table.get_set]
    by_cases same : id = other
    · rw [if_pos same, ← same, update_self]
      rfl
    · rw [if_neg same, update_of_ne (Ne.symm same)]

theorem view_erase (id : String) :
    ({ document with layers := document.layers.erase id } : ImageDocument Resource).view =
      { document.view with
        kind := update document.view.kind id none
        zIndex := update document.view.zIndex id none } := by
  unfold ImageDocument.view ImageDocument.zIndex
  congr 1
  all_goals
    funext other
    rw [Table.get_erase]
    by_cases same : id = other
    · rw [if_pos same, ← same, update_self]
      rfl
    · rw [if_neg same, update_of_ne (Ne.symm same)]

variable {document : ImageDocument Resource} {id : String} {layer : ImageLayer}

section

variable (stored : document.layers.get id = some layer)

include stored

theorem view_kind : document.view.kind id = some layer.kind := by
  simp [ImageDocument.view, stored]

theorem view_zIndex : document.view.zIndex id = layer.z_index := by
  simp [ImageDocument.view, ImageDocument.zIndex, stored]

/-- Writing a layer again with another `z_index` leaves the kinds alone. -/
theorem view_setZIndex (index : Int) : ({ document with
        layers := document.layers.set id { layer with z_index := some index } } :
      ImageDocument Resource).view =
      { document.view with zIndex := update document.view.zIndex id (some index) } := by
  rw [view_set]
  have kept : update document.view.kind id (some layer.kind) = document.view.kind :=
    update_eq_self_iff.mpr (view_kind stored).symm
  rw [kept]

/-- Writing a group again with other children leaves every `z_index` alone. -/
theorem view_setChildren (kind : LayerKind) :
    ({ document with layers := document.layers.set id { layer with kind := kind } } :
      ImageDocument Resource).view =
      { document.view with kind := update document.view.kind id (some kind) } := by
  rw [view_set]
  have kept : update document.view.zIndex id layer.z_index = document.view.zIndex :=
    update_eq_self_iff.mpr (view_zIndex stored).symm
  rw [kept]

end

theorem view_apply {next : ImageDocument Resource} {patch : LayerPatch Resource}
    (applied : patch.apply document = some next) : next.view = patch.onView document.view := by
  cases patch with
  | replaceNextOrdinal ordinal | setActorCursors cursors | replaceRootLayerIds ids =>
    cases applied
    rfl
  | addResource id resource =>
    obtain ⟨_, same⟩ := ite_none_left_eq_some.mp applied
    cases same
    rfl
  | removeMask id | removeResource id =>
    obtain ⟨_, same⟩ := ite_none_right_eq_some.mp applied
    cases same
    rfl
  | addLayer id layer =>
    obtain ⟨_, same⟩ := ite_none_left_eq_some.mp applied
    cases same
    exact view_set document id layer
  | removeLayer id =>
    obtain ⟨_, same⟩ := ite_none_right_eq_some.mp applied
    cases same
    exact view_erase document id
  | replaceChildLayerIds parent ids =>
    cases stored : document.layers.get parent with
    | none => simp [LayerPatch.apply, stored] at applied
    | some layer =>
      simp only [LayerPatch.apply, stored] at applied
      cases grouped : layer.kind with
      | raster resourceId sourceRect => simp [grouped] at applied
      | group children isolation =>
        simp only [grouped] at applied
        rw [← some.inj applied, view_setChildren stored, LayerPatch.onView,
          view_kind stored, grouped]
        rfl
  | addZIndex id index =>
    cases stored : document.layers.get id with
    | none => simp [LayerPatch.apply, stored] at applied
    | some layer =>
      simp only [LayerPatch.apply, stored] at applied
      obtain ⟨_, same⟩ := ite_none_left_eq_some.mp applied
      cases same
      exact view_setZIndex stored index
  | replaceZIndex id index =>
    cases stored : document.layers.get id with
    | none => simp [LayerPatch.apply, stored] at applied
    | some layer =>
      simp only [LayerPatch.apply, stored] at applied
      obtain ⟨_, same⟩ := ite_none_right_eq_some.mp applied
      cases same
      exact view_setZIndex stored index

def viewAfter (patches : List (LayerPatch Resource)) : View :=
  patches.foldl LayerPatch.onView view

theorem viewAfter_append (front back : List (LayerPatch Resource)) :
    viewAfter view (front ++ back) = viewAfter (viewAfter view front) back :=
  foldl_append

theorem view_applyOwnedOps {patches : List (LayerPatch Resource)} :
    ∀ {document next : ImageDocument Resource}, applyOwnedOps document patches = some next →
      next.view = viewAfter document.view patches := by
  induction patches with
  | nil =>
    intro document next applied
    rw [some.inj applied]
    rfl
  | cons patch rest ih =>
    intro document next applied
    cases first : patch.apply document with
    | none =>
      simp [applyOwnedOps, foldlM_cons, first] at applied
    | some middle =>
      have applied : applyOwnedOps middle rest = some next := by
        simpa [applyOwnedOps, foldlM_cons, first] using applied
      rw [ih applied, view_apply first]
      rfl

theorem parentChildren_eq_siblings (parentId : Option String) :
    parentChildren document parentId = document.view.siblings parentId := by
  cases parentId with
  | none => rfl
  | some id =>
    unfold parentChildren View.siblings View.listOf ImageDocument.view
    cases stored : document.layers.get id with
    | none => simp [stored]
    | some layer =>
      cases kind : layer.kind with
      | group childLayerIds isolation => simp [stored, kind, orderedImageLayerIds]
      | raster resourceId sourceRect => simp [stored, kind]

theorem orderedBy_perm (zIndex : String → Option Int) (ids : List String) :
    (orderedBy zIndex ids).Perm ids := by
  have names : (ids.zipIdx.map fun entry =>
      (entry.1, (zIndex entry.1).getD (entry.2 : Int))).map Prod.fst = ids := by
    rw [List.map_map]
    exact zipIdx_map_fst 0 ids
  have sorted := (perm_insertionSort (fun left right => left.2 ≤ right.2)
    (ids.zipIdx.map fun entry => (entry.1, (zIndex entry.1).getD (entry.2 : Int)))).map Prod.fst
  rw [names] at sorted
  exact sorted

variable {ids : List String} {zIndex : String → Option Int}

theorem orderedBy_congr {other : String → Option Int} (same : ∀ id ∈ ids, other id = zIndex id) :
    orderedBy other ids = orderedBy zIndex ids := by
  unfold orderedBy
  congr 2
  apply map_congr_left
  rintro ⟨id, index⟩ listed
  simp only [same id (fst_mem_of_mem_zipIdx listed)]

/-- A list in which no layer has a number other than its position is in order. -/
theorem orderedBy_eq_self
    (ranked : ∀ entry ∈ ids.zipIdx, (zIndex entry.1).getD (entry.2 : Int) = entry.2) :
    orderedBy zIndex ids = ids := by
  have numbers : (ids.zipIdx.map fun entry => (entry.1, (zIndex entry.1).getD (entry.2 : Int))) =
      ids.zipIdx.map fun entry => (entry.1, (entry.2 : Int)) := by
    apply map_congr_left
    rintro ⟨id, index⟩ listed
    simp only [ranked (id, index) listed]
  have sorted : (ids.zipIdx.map fun entry => (entry.1, (entry.2 : Int))).Pairwise
      fun left right => left.2 ≤ right.2 := by
    rw [pairwise_map]
    have rising : (ids.zipIdx.map Prod.snd).Pairwise (· < ·) := by
      rw [zipIdx_map_snd]
      exact pairwise_lt_range'
    apply (pairwise_map.mp rising).imp
    intro left right less
    exact Int.ofNat_le.mpr (Nat.le_of_lt less)
  change ((ids.zipIdx.map fun entry =>
    (entry.1, (zIndex entry.1).getD (entry.2 : Int))).insertionSort _).map Prod.fst = ids
  rw [numbers, sorted.insertionSort_eq, List.map_map]
  exact zipIdx_map_fst 0 ids

structure Renumbered (view next : View) (children : List String) : Prop where
  roots : next.roots = view.roots
  kind : next.kind = view.kind
  others : ∀ id, id ∉ children → next.zIndex id = view.zIndex id
  ordered : orderedBy next.zIndex children = children

def positionPatch (document : ImageDocument Resource) : String × Nat → Option (LayerPatch Resource)
  | (id, index) =>
    match document.zIndex id with
    | some previous => if previous = index then none else some (.replaceZIndex id index)
    | none => some (.addZIndex id index)

theorem viewAfter_positionPatch {view : View} (same : view.zIndex id = document.zIndex id)
    (index : Nat) : viewAfter view (positionPatch document (id, index)).toList =
      { view with zIndex := update view.zIndex id (some (index : Int)) } := by
  cases numbered : document.zIndex id with
  | none =>
    simp only [positionPatch, numbered]
    rfl
  | some previous =>
    by_cases already : previous = index
    · have kept : update view.zIndex id (some (index : Int)) = view.zIndex := by
        apply update_eq_self_iff.mpr
        rw [same, numbered, already]
      simp only [positionPatch, numbered, if_pos already, kept]
      rfl
    · simp only [positionPatch, numbered, if_neg already]
      rfl

theorem viewAfter_positionPatches {document : ImageDocument Resource} {children : List String} :
    ∀ {view : View} (start : Nat), children.Nodup →
      (∀ id ∈ children, view.zIndex id = document.zIndex id) →
      let next := viewAfter view ((children.zipIdx start).filterMap (positionPatch document))
      next.roots = view.roots ∧ next.kind = view.kind ∧
        (∀ id, id ∉ children → next.zIndex id = view.zIndex id) ∧
        ∀ entry ∈ children.zipIdx start, next.zIndex entry.1 = some (entry.2 : Int) := by
  induction children with
  | nil =>
    intro view start _ _
    exact ⟨rfl, rfl, fun _ _ => rfl, fun _ none => nomatch none⟩
  | cons first rest ih =>
    intro view start nodup same
    obtain ⟨fresh, nodup⟩ := nodup_cons.mp nodup
    let middle : View :=
      { view with zIndex := update view.zIndex first (some (start : Int)) }
    have split : viewAfter view (((first :: rest).zipIdx start).filterMap
        (positionPatch document)) =
        viewAfter middle ((rest.zipIdx (start + 1)).filterMap (positionPatch document)) := by
      have patches : ((first :: rest).zipIdx start).filterMap (positionPatch document) =
          (positionPatch document (first, start)).toList ++
            (rest.zipIdx (start + 1)).filterMap (positionPatch document) := by
        rw [zipIdx_cons, filterMap_cons]
        cases positionPatch document (first, start) <;> rfl
      rw [patches, viewAfter_append, viewAfter_positionPatch (same first mem_cons_self)]
    have unmoved : ∀ id, id ≠ first → middle.zIndex id = view.zIndex id :=
      fun id other => update_of_ne other _ _
    have kept := @ih middle (start + 1) nodup (by
      intro id listed
      rw [unmoved id (fun name => fresh (name ▸ listed))]
      exact same id (mem_cons_of_mem _ listed))
    simp only [split]
    refine ⟨kept.1, kept.2.1, ?_, ?_⟩
    · intro id unlisted
      rw [kept.2.2.1 id (fun listed => unlisted (mem_cons_of_mem _ listed))]
      exact unmoved id (fun name => unlisted (name ▸ mem_cons_self))
    · intro entry listed
      rw [zipIdx_cons] at listed
      cases mem_cons.mp listed with
      | inl head =>
        rw [head, kept.2.2.1 first fresh]
        exact update_self ..
      | inr tail => exact kept.2.2.2 entry tail

theorem renumbered_layerOrderPatches {document : ImageDocument Resource} {view : View}
    {children : List String} (nodup : children.Nodup)
    (same : ∀ id ∈ children, view.zIndex id = document.zIndex id) :
    Renumbered view (viewAfter view (layerOrderPatches document children)) children := by
  by_cases numbered : children.any (fun id => (document.zIndex id).isSome) = true
  · have patches : layerOrderPatches document children =
        children.zipIdx.filterMap (positionPatch document) := by
      unfold layerOrderPatches
      rw [if_pos numbered]
      rfl
    have kept := @viewAfter_positionPatches _ document children view 0 nodup same
    rw [patches]
    refine ⟨kept.1, kept.2.1, kept.2.2.1, ?_⟩
    apply orderedBy_eq_self
    intro entry listed
    rw [kept.2.2.2 entry listed]
    rfl
  · have patches : layerOrderPatches document children = [] := by
      unfold layerOrderPatches
      rw [if_neg numbered]
    rw [patches]
    refine ⟨rfl, rfl, fun _ _ => rfl, ?_⟩
    apply orderedBy_eq_self
    intro entry listed
    have listed : entry.1 ∈ children := fst_mem_of_mem_zipIdx listed
    have absent : document.zIndex entry.1 = none := by
      cases number : document.zIndex entry.1 with
      | none => rfl
      | some index =>
        exact absurd (any_eq_true.mpr ⟨entry.1, listed, by rw [number]; rfl⟩) numbered
    rw [show (viewAfter view ([] : List (LayerPatch Resource))).zIndex = view.zIndex from rfl,
      same entry.1 listed, absent]
    rfl

structure Placed (view next : View) (parentId : Option String) (children : List String) :
    Prop where
  listed : next.listOf parentId = some children
  lists : ∀ other, other ≠ parentId → next.listOf other = view.listOf other
  others : ∀ id, id ∉ children → next.zIndex id = view.zIndex id
  ordered : orderedBy next.zIndex children = children

theorem placed_parentListPatches {document : ImageDocument Resource} {view : View}
    {parentId : Option String} {previous children : List String}
    (parent : view.listOf parentId = some previous) (nodup : children.Nodup)
    (same : ∀ id ∈ children, view.zIndex id = document.zIndex id) :
    Placed view (viewAfter view (parentListPatches document parentId children)) parentId
      children := by
  cases parentId with
  | none =>
    have renumbered := @renumbered_layerOrderPatches _ document
      { view with roots := children } children nodup same
    refine ⟨?_, ?_, renumbered.others, renumbered.ordered⟩
    · exact congrArg some renumbered.roots
    · intro other different
      cases other with
      | none => exact absurd rfl different
      | some id =>
        unfold View.listOf
        exact congrArg (fun kind : String → Option LayerKind =>
          match kind id with
          | some (.group childLayerIds _) => some childLayerIds
          | _ => none) renumbered.kind
  | some id =>
    have renumbered := @renumbered_layerOrderPatches _ document
      (LayerPatch.onView view (.replaceChildLayerIds id children : LayerPatch Resource))
      children nodup same
    have kind : (viewAfter view (parentListPatches document (some id) children)).kind =
      update view.kind id ((view.kind id).map (·.withChildren children)) :=
        renumbered.kind
    refine ⟨?_, ?_, renumbered.others, renumbered.ordered⟩
    · simp only [View.listOf] at parent ⊢
      rw [kind, update_self]
      split at parent
      · rename_i isolation grouped
        rw [grouped]
        rfl
      · cases parent
    · intro other different
      cases other with
      | none => exact congrArg some renumbered.roots
      | some other =>
        unfold View.listOf
        simp only [kind]
        rw [update_of_ne (fun name => different (congrArg some name))]

end Dinkster.Image.Layers
