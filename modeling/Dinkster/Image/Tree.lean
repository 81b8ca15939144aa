import Dinkster.Image.Order

/-!
# The tree of image layers

In a checked document every list names stored layers, none twice, no layer is in two lists, and
every layer is reached from the root.
-/

namespace Dinkster.Image.Layers

open Library List Option

variable {Resource : Type}

/-- The children of a layer. -/
def View.childIds (view : View) (id : String) : List String :=
  (view.listOf (some id)).getD []

/-- What the check of the layer tree promises. -/
structure Tree (view : View) : Prop where
  nodup : ∀ {parentId ids}, view.listOf parentId = some ids → ids.Nodup
  stored : ∀ {parentId ids id}, view.listOf parentId = some ids → id ∈ ids →
    (view.kind id).isSome
  parent_unique : ∀ {parentId other ids others id}, view.listOf parentId = some ids →
    view.listOf other = some others → id ∈ ids → id ∈ others → parentId = other
  rooted : ∀ {id}, (view.kind id).isSome → Reaches view.childIds view.roots id

variable {id : String}

theorem View.mem_childIds {view : View} {child : String} :
    child ∈ view.childIds id ↔ ∃ ids, view.listOf (some id) = some ids ∧ child ∈ ids := by
  unfold View.childIds
  cases view.listOf (some id) with
  | none | some ids => simp

namespace Tree

variable {view : View}

variable {ids : List String}

theorem parent_of_reaches (tree : Tree view) {layerId child : String} {parentId : Option String}
    (reached : Reaches view.childIds [layerId] child) (below : child ≠ layerId)
    (listed : view.listOf parentId = some ids) (mem : child ∈ ids) :
    ∃ parent, parentId = some parent ∧ Reaches view.childIds [layerId] parent := by
  obtain ⟨start, only, route⟩ := reached
  rw [mem_singleton.mp only] at route
  cases route.cases_tail with
  | inl same => exact absurd same.symm (fun name => below name.symm)
  | inr last =>
    obtain ⟨parent, route, edge⟩ := last
    obtain ⟨others, siblings, known⟩ := View.mem_childIds.mp edge
    exact ⟨parent, tree.parent_unique listed siblings mem known,
      layerId, mem_singleton_self layerId, route⟩

theorem not_reaches_parent (tree : Tree view) {layerId : String} {parentId : String}
    (listed : view.listOf (some parentId) = some ids) (mem : layerId ∈ ids) :
    ¬ Reaches view.childIds [layerId] parentId := by
  intro cyclic
  -- Every parent of a layer of the cycle is in the cycle, which the root is not.
  have parents : ∀ {child other others}, Reaches view.childIds [layerId] child →
      view.listOf other = some others → child ∈ others →
      ∃ parent, other = some parent ∧ Reaches view.childIds [layerId] parent := by
    intro child other others reached siblings known
    by_cases first : child = layerId
    · rw [first] at known
      exact ⟨parentId, tree.parent_unique siblings listed known mem, cyclic⟩
    · exact tree.parent_of_reaches reached first siblings known
  have outside : ¬ Reaches view.childIds [layerId] layerId := by
    refine @Reaches.induct _ _ _ _ (fun id => ¬ Reaches view.childIds [layerId] id) ?_ ?_
      (tree.rooted (tree.stored listed mem))
    · intro start root reached
      obtain ⟨parent, none, _⟩ := @parents start none view.roots reached rfl root
      cases none
    · intro source _ outside target edge reached
      obtain ⟨others, siblings, known⟩ := View.mem_childIds.mp edge
      obtain ⟨parent, same, inside⟩ := parents reached siblings known
      rw [← some.inj same] at inside
      exact outside inside
  exact outside (.start (mem_singleton_self layerId))

end Tree

theorem eq_of_count_flatMap {Item : Type} {lists : List Item} {namesOf : Item → List String}
    (once : (lists.flatMap namesOf).count id = 1) {left right : Item} (first : left ∈ lists)
    (second : right ∈ lists) (inLeft : id ∈ namesOf left) (inRight : id ∈ namesOf right) :
    left = right := by
  induction lists with
  | nil => cases first
  | cons item rest ih =>
    rw [flatMap_cons, count_append] at once
    have later : ∀ {other}, other ∈ rest → id ∈ namesOf other →
        0 < (rest.flatMap namesOf).count id := fun listed named =>
      count_pos_iff.mpr (mem_flatMap.mpr ⟨_, listed, named⟩)
    cases mem_cons.mp first with
    | inl here =>
      cases mem_cons.mp second with
      | inl also => rw [here, also]
      | inr there =>
        have here := count_pos_iff.mpr (here ▸ inLeft)
        have there := later there inRight
        omega
    | inr there =>
      have counted := later there inLeft
      cases mem_cons.mp second with
      | inl here =>
        have here := count_pos_iff.mpr (here ▸ inRight)
        omega
      | inr also => exact ih (by omega) there also

variable {document : ImageDocument Resource}

theorem childIds_view (document : ImageDocument Resource) :
    document.childIds = document.view.childIds := by
  funext id
  unfold ImageDocument.childIds View.childIds View.listOf ImageDocument.view
  cases stored : document.layers.get id with
  | none => simp [stored]
  | some layer =>
    cases kind : layer.kind with
    | group childLayerIds isolation | raster resourceId sourceRect => simp [stored, kind]

theorem isSome_kind : (document.view.kind id).isSome ↔ id ∈ document.layers.map Prod.fst := by
  rw [← Table.isSome_get_iff]
  simp [ImageDocument.view]

variable {parentId : Option String}

theorem mem_parentLists (once : (document.layers.map Prod.fst).Nodup) {ids : List String} :
    (parentId, ids) ∈ document.parentLists ↔ document.view.listOf parentId = some ids := by
  unfold ImageDocument.parentLists
  rw [mem_cons, mem_filterMap]
  constructor
  · intro listed
    cases listed with
    | inl root =>
      cases root
      rfl
    | inr group =>
      obtain ⟨⟨id, layer⟩, stored, group⟩ := group
      cases kind : layer.kind with
      | raster resourceId sourceRect => simp [kind] at group
      | group childLayerIds isolation =>
        simp only [kind, some.injEq, Prod.mk.injEq] at group
        rw [← group.1, ← group.2, View.listOf, view_kind (Table.get_of_mem once stored), kind]
  · intro listed
    cases parentId with
    | none =>
      cases listed
      exact .inl rfl
    | some id =>
      right
      cases stored : document.layers.get id with
      | none => simp [View.listOf, ImageDocument.view, stored] at listed
      | some layer =>
        rw [View.listOf, view_kind stored] at listed
        refine ⟨(id, layer), Table.mem_of_get stored, ?_⟩
        cases kind : layer.kind with
        | raster resourceId sourceRect => simp [kind] at listed
        | group childLayerIds isolation =>
          simp only [kind, some.injEq] at listed
          simp only [kind, listed]

theorem stored_of_childIds (parent : document.childIds id ≠ []) :
    id ∈ document.layers.map Prod.fst := by
  obtain ⟨child, edge⟩ := exists_mem_of_ne_nil _ parent
  rw [childIds_view] at edge
  obtain ⟨names, known, _⟩ := View.mem_childIds.mp edge
  apply isSome_kind.mp
  cases kind : document.view.kind id with
  | none => simp [View.listOf, kind] at known
  | some _ => rfl

theorem tree_of_accepts {others : ImageDocument Resource → Bool}
    (accepted : accepts others document = true) : Tree document.view := by
  unfold accepts checkLayerTree at accepted
  simp only [Bool.and_eq_true, decide_eq_true_eq, List.all_eq_true] at accepted
  obtain ⟨⟨once, lists, layers⟩, _⟩ := accepted
  have listed : ∀ {parentId ids}, document.view.listOf parentId = some ids →
      ids.Nodup ∧ ∀ id ∈ ids, (document.layers.get id).isSome := fun known =>
    (lists _ ((mem_parentLists once).mpr known)).1
  have stored : ∀ {parentId ids id}, document.view.listOf parentId = some ids → id ∈ ids →
      id ∈ document.layers.map Prod.fst := fun known mem =>
    Table.isSome_get_iff.mp ((listed known).2 _ mem)
  refine ⟨fun known => (listed known).1, fun known mem => isSome_kind.mpr (stored known mem),
    ?_, ?_⟩
  · intro parentId other ids names id left right inLeft inRight
    obtain ⟨entry, here, name⟩ := List.mem_map.mp (stored left inLeft)
    have count := (layers entry here).1
    rw [name] at count
    exact congrArg Prod.fst (eq_of_count_flatMap count ((mem_parentLists once).mpr left)
      ((mem_parentLists once).mpr right) inLeft inRight)
  · intro id known
    obtain ⟨entry, here, name⟩ := List.mem_map.mp (isSome_kind.mp known)
    have reached := (layers entry here).2
    rw [name, mem_closure_iff (fun _ => stored_of_childIds)] at reached
    rw [← childIds_view]
    exact reached

/-- A layer that is not stored has no `z_index`. -/
theorem zIndex_eq_none (absent : document.view.kind id = none) : document.zIndex id = none := by
  have absent : document.layers.get id = none := by
    simpa [ImageDocument.view] using absent
  unfold ImageDocument.zIndex
  rw [absent]
  rfl

theorem layerParent_spec (once : (document.layers.map Prod.fst).Nodup) {layerId : String}
    (found : layerParent document layerId = some parentId) :
    ∃ ids, document.view.listOf parentId = some ids ∧ layerId ∈ ids := by
  unfold layerParent at found
  obtain ⟨⟨parent, ids⟩, first, same⟩ := map_eq_some_iff.mp found
  have listed := (mem_parentLists once).mp (mem_of_find?_eq_some first)
  have mem := find?_some first
  simp only [decide_eq_true_eq] at mem
  exact ⟨ids, same ▸ listed, mem⟩

end Dinkster.Image.Layers
