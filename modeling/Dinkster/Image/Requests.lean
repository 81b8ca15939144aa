import Dinkster.Image.Tree

/-!
# Requested layer orders

A command that changes the tree of layers names a position in an effective order.  In the next
document the layer is there, and the effective order of every other parent is what it was.
-/

namespace Dinkster.Image.Layers

open Library List Option

variable {Resource : Type}

/-- Every parent but some has the children it had, in the effective order it had. -/
def Undisturbed (document next : ImageDocument Resource) (affected : List (Option String)) : Prop :=
  ∀ other, other ∉ affected → parentChildren next other = parentChildren document other

def Requested (document next : ImageDocument Resource) (created : Option String) :
    LayerCommand Resource → Prop
  | .group layerIds _ =>
    ∃ groupId parentId front members back, created = some groupId ∧
      (∀ id ∈ layerIds, layerParent document id = some parentId) ∧
      parentChildren document parentId = some (front ++ members ++ back) ∧
      members.Perm layerIds ∧
      parentChildren next parentId = some (front ++ groupId :: back) ∧
      parentChildren next (some groupId) = some members ∧
      Undisturbed document next [parentId, some groupId]
  | .addRaster parentId index _ _ _ =>
    ∃ layerId children, created = some layerId ∧
      parentChildren document parentId = some children ∧
      0 ≤ index ∧ index ≤ children.length ∧
      parentChildren next parentId = some (children.insertIdx index.toNat layerId) ∧
      Undisturbed document next [parentId]
  | .move layerId parentId index =>
    ∃ sourceId siblings destination, layerParent document layerId = some sourceId ∧
      parentChildren document sourceId = some siblings ∧
      parentChildren document parentId = some destination ∧
      let left := siblings.filter (· ≠ layerId)
      let children := if sourceId = parentId then left else destination
      0 ≤ index ∧ index ≤ children.length ∧
        parentChildren next parentId = some (children.insertIdx index.toNat layerId) ∧
        (sourceId ≠ parentId → parentChildren next sourceId = some left) ∧
        Undisturbed document next [sourceId, parentId]
  | .remove layerId =>
    ∃ parentId siblings, layerParent document layerId = some parentId ∧
      parentChildren document parentId = some siblings ∧
      parentChildren next parentId = some (siblings.filter (· ≠ layerId)) ∧
      (∀ id ∈ descendantIds document layerId, parentChildren next (some id) = none) ∧
      Undisturbed document next (parentId :: (descendantIds document layerId).map some)

variable {parentId : Option String} {view : View} {children : List String} {layerId : String}
    {planned : Planned Resource}

/-- A parent keeps its effective order where its list and the numbers in it are kept. -/
theorem View.siblings_congr {next : View} (list : next.listOf parentId = view.listOf parentId)
    (numbers : ∀ ids, view.listOf parentId = some ids →
      ∀ id ∈ ids, next.zIndex id = view.zIndex id) :
    next.siblings parentId = view.siblings parentId := by
  unfold View.siblings
  rw [list]
  cases listed : view.listOf parentId with
  | none => rfl
  | some ids => exact congrArg some (orderedBy_congr (numbers ids listed))

theorem View.siblings_eq_some (found : view.siblings parentId = some children) :
    ∃ ids, view.listOf parentId = some ids ∧ children.Perm ids := by
  unfold View.siblings at found
  obtain ⟨ids, listed, same⟩ := map_eq_some_iff.mp found
  exact ⟨ids, listed, same ▸ orderedBy_perm view.zIndex ids⟩

namespace Placed

variable {view next : View} {parentId : Option String} {children : List String}

theorem siblings (placed : Placed view next parentId children) :
    next.siblings parentId = some children := by
  unfold View.siblings
  rw [placed.listed]
  exact congrArg some placed.ordered

theorem siblings_of_apart (placed : Placed view next parentId children) {other : Option String}
    (different : other ≠ parentId)
    (apart : ∀ ids, view.listOf other = some ids → ∀ id ∈ ids, id ∉ children) :
    next.siblings other = view.siblings other :=
  View.siblings_congr (placed.lists other different) fun ids listed id mem =>
    placed.others id (apart ids listed id mem)

end Placed

variable {index : Int} {ids : List String}

theorem inRange_iff : inRange index children = true ↔ 0 ≤ index ∧ index ≤ children.length := by
  simp [inRange]

theorem inRange_toNat (range : inRange index children = true) : index.toNat ≤ children.length :=
  Int.toNat_le.mpr (inRange_iff.mp range).2

/-- An insertion of a new name has each name once. -/
theorem nodup_insertion {index : Nat} (nodup : children.Nodup) (fresh : layerId ∉ children)
    (inside : index ≤ children.length) : (children.insertIdx index layerId).Nodup :=
  (perm_insertIdx layerId children inside).nodup_iff.mpr (nodup_cons.mpr ⟨fresh, nodup⟩)

theorem mem_insertion {id : String} {index : Nat} (inside : index ≤ children.length) :
    id ∈ children.insertIdx index layerId ↔ id = layerId ∨ id ∈ children :=
  (perm_insertIdx layerId children inside).mem_iff.trans mem_cons

/-! ## Moves -/

variable {document next : ImageDocument Resource}

theorem placed_within {layerId : String} {parentId : Option String} {index : Nat}
    {ids siblings : List String} (tree : Tree document.view)
    (listed : document.view.listOf parentId = some ids) (perm : siblings.Perm ids)
    (moved : layerId ∈ ids) (inside : index ≤ (siblings.filter (· ≠ layerId)).length)
    (patched : next.view = viewAfter document.view (parentListPatches document parentId
        ((siblings.filter (· ≠ layerId)).insertIdx index layerId))) : parentChildren next parentId =
        some ((siblings.filter (· ≠ layerId)).insertIdx index layerId) ∧
      Undisturbed document next [parentId, parentId] := by
  have fewer : (siblings.filter (· ≠ layerId)).Nodup :=
    (perm.nodup_iff.mpr (tree.nodup listed)).filter _
  have fresh : layerId ∉ siblings.filter (· ≠ layerId) := by simp
  have placed := @placed_parentListPatches _ document document.view parentId ids _ listed
    (nodup_insertion fewer fresh inside) (fun _ _ => rfl)
  rw [← patched] at placed
  constructor
  · rw [parentChildren_eq_siblings]
    exact placed.siblings
  · intro other different
    have different : other ≠ parentId := by simpa using different
    rw [parentChildren_eq_siblings, parentChildren_eq_siblings]
    apply placed.siblings_of_apart different
    intro others known id mem inserted
    apply different
    apply tree.parent_unique known listed mem
    cases (mem_insertion inside).mp inserted with
    | inl same => exact same ▸ moved
    | inr left => exact perm.mem_iff.mp (mem_of_mem_filter left)

theorem placed_across {layerId : String} {sourceId parentId : Option String} {index : Nat}
    {ids siblings others destination : List String} (tree : Tree document.view)
    (different : sourceId ≠ parentId)
    (listed : document.view.listOf sourceId = some ids) (perm : siblings.Perm ids)
    (moved : layerId ∈ ids)
    (target : document.view.listOf parentId = some others) (goal : destination.Perm others)
    (inside : index ≤ destination.length) (patched : next.view = viewAfter document.view
      (parentListPatches document sourceId (siblings.filter (· ≠ layerId)) ++
        parentListPatches document parentId (destination.insertIdx index layerId))) :
    parentChildren next parentId = some (destination.insertIdx index layerId) ∧
      parentChildren next sourceId = some (siblings.filter (· ≠ layerId)) ∧
      Undisturbed document next [sourceId, parentId] := by
  have fewer : (siblings.filter (· ≠ layerId)).Nodup :=
    (perm.nodup_iff.mpr (tree.nodup listed)).filter _
  have source : ∀ id ∈ siblings.filter (· ≠ layerId), id ∈ ids := fun id left =>
    perm.mem_iff.mp (mem_of_mem_filter left)
  have fresh : layerId ∉ destination := fun mem =>
    different (tree.parent_unique listed target moved (goal.mem_iff.mp mem))
  -- The two lists share no layer, so that the second renumbering keeps the first.
  have apart : ∀ id ∈ destination.insertIdx index layerId, id ∉ siblings.filter (· ≠ layerId) := by
    intro id inserted left
    cases (mem_insertion inside).mp inserted with
    | inl same => simp [same] at left
    | inr mem =>
      exact different (tree.parent_unique listed target (source id left) (goal.mem_iff.mp mem))
  have first := @placed_parentListPatches _ document document.view sourceId ids _ listed fewer
    (fun _ _ => rfl)
  have second := @placed_parentListPatches _ document _ parentId others
    (destination.insertIdx index layerId)
    ((first.lists parentId (Ne.symm different)).trans target)
    (nodup_insertion (goal.nodup_iff.mpr (tree.nodup target)) fresh inside)
    (fun id inserted => first.others id (apart id inserted))
  rw [viewAfter_append] at patched
  rw [← patched] at second
  simp only [parentChildren_eq_siblings, Undisturbed]
  refine ⟨second.siblings, ?_, ?_⟩
  · rw [← first.siblings]
    apply second.siblings_of_apart different
    intro others left id mem inserted
    cases first.listed.symm.trans left
    exact apart id inserted mem
  · intro other affected
    obtain ⟨notSource, notTarget⟩ : other ≠ sourceId ∧ other ≠ parentId := by
      simpa using affected
    have kept : ∀ names, document.view.listOf other = some names →
        ∀ id ∈ names, id ∉ ids ∧ id ∉ others := fun names known id mem =>
      ⟨fun also => notSource (tree.parent_unique known listed mem also),
        fun also => notTarget (tree.parent_unique known target mem also)⟩
    rw [second.siblings_of_apart notTarget, first.siblings_of_apart notSource]
    · intro names known id mem left
      exact (kept names known id mem).1 (source id left)
    · intro names known id mem inserted
      have known := (first.lists other notSource).symm.trans known
      cases (mem_insertion inside).mp inserted with
      | inl same => exact (kept names known id mem).1 (same ▸ moved)
      | inr also => exact (kept names known id mem).2 (goal.mem_iff.mp also)

theorem requested_move (once : (document.layers.map Prod.fst).Nodup) (tree : Tree document.view)
    (found : movePatches document layerId parentId index = some planned)
    (patched : next.view = viewAfter document.view planned.patches) :
    Requested document next planned.created (.move layerId parentId index) := by
  unfold movePatches at found
  simp only [bind_eq_bind, bind_eq_some_iff, Option.pure_def, bind_none,
    ite_none_left_eq_some, some.injEq, Decidable.not_not] at found
  obtain ⟨sourceId, source, siblings, order, destination, goal, range, made⟩ := found
  obtain ⟨inside, outside⟩ := inRange_iff.mp range
  have range := inRange_toNat range
  refine ⟨sourceId, siblings, destination, source, order, goal, inside, outside, ?_⟩
  obtain ⟨ids, listed, moved⟩ := layerParent_spec once source
  rw [parentChildren_eq_siblings] at order goal
  obtain ⟨_, known, perm⟩ := View.siblings_eq_some order
  cases listed.symm.trans known
  by_cases same : sourceId = parentId
  · subst same
    simp only [if_true] at made range ⊢
    rw [← made] at patched
    have placed := placed_within tree listed perm moved range patched
    exact ⟨placed.1, fun different => absurd rfl different, placed.2⟩
  · obtain ⟨others, target, also⟩ := View.siblings_eq_some goal
    simp only [if_neg same] at made range ⊢
    rw [← made] at patched
    have placed := placed_across tree same listed perm moved target also range patched
    exact ⟨placed.1, fun _ => placed.2.1, placed.2.2⟩

/-! ## New layers -/

theorem absent_of_applyOwnedOps {layerId : String} {layer : ImageLayer}
    {front back : List (LayerPatch Resource)}
    (quiet : viewAfter document.view front = document.view)
    (applied : applyOwnedOps document (front ++ .addLayer layerId layer :: back) = some next) :
    document.view.kind layerId = none := by
  unfold applyOwnedOps at applied
  simp only [foldlM_append, foldlM_cons, bind_eq_bind, bind_eq_some_iff]
    at applied
  obtain ⟨middle, before, after, added, _⟩ := applied
  obtain ⟨absent, _⟩ := ite_none_left_eq_some.mp added
  have same : middle.view = document.view := (view_applyOwnedOps before).trans quiet
  rw [← same]
  simpa [ImageDocument.view] using absent

theorem viewAfter_allocation (view : View) (document : ImageDocument Resource)
    (actor : Option String) (prefixes : List String) :
    LayerPatch.onView view (allocateIds document actor prefixes).2 = view := by
  unfold allocateIds
  cases actor <;> rfl

theorem viewAfter_cons (view : View) (patch : LayerPatch Resource)
    (rest : List (LayerPatch Resource)) :
    viewAfter view (patch :: rest) = viewAfter (patch.onView view) rest := rfl

theorem onView_addResource (view : View) (id : String) (resource : Resource) :
    LayerPatch.onView view (.addResource id resource) = view := rfl

def View.added (view : View) (layerId : String) (kind : LayerKind) : View :=
  { view with kind := Function.update view.kind layerId (some kind) }

theorem onView_addLayer (absent : document.view.kind layerId = none) (kind : LayerKind)
    (name : String) : LayerPatch.onView document.view
        (.addLayer layerId (newLayer kind name) : LayerPatch Resource) =
      document.view.added layerId kind := by
  have numbers : Function.update document.view.zIndex layerId none = document.view.zIndex :=
    Function.update_eq_self_iff.mpr (zIndex_eq_none absent).symm
  unfold LayerPatch.onView View.added newLayer
  simp only [numbers]

theorem listOf_added {view : View} {layerId : String} {kind : LayerKind}
    {other : Option String} (different : other ≠ some layerId) :
    (view.added layerId kind).listOf other = view.listOf other := by
  cases other with
  | none => rfl
  | some id =>
    unfold View.listOf View.added
    simp only
    rw [Function.update_of_ne (fun name => different (congrArg some name))]

theorem Tree.unlisted (tree : Tree view) (absent : view.kind layerId = none)
    (listed : view.listOf parentId = some ids) : layerId ∉ ids := by
  intro mem
  have stored := tree.stored listed mem
  rw [absent] at stored
  cases stored

/-- A new layer is no parent. -/
theorem listOf_absent (absent : view.kind layerId = none) : view.listOf (some layerId) = none := by
  unfold View.listOf
  simp only [absent]

theorem requested_addRaster {actor parentId : Option String} {index : Int} {name : String}
    {resource : Resource} {sourceRect : ImageSourceRect} {planned : Planned Resource}
    (tree : Tree document.view)
    (found : addRasterPatches document actor parentId index name resource sourceRect = some planned)
    (applied : applyOwnedOps document planned.patches = some next) :
    Requested document next planned.created
      (.addRaster parentId index name resource sourceRect) := by
  unfold addRasterPatches at found
  simp only [bind_eq_bind, bind_eq_some_iff, Option.pure_def, bind_none,
    ite_none_left_eq_some, some.injEq, Decidable.not_not] at found
  obtain ⟨children, order, range, made⟩ := found
  obtain ⟨inside, outside⟩ := inRange_iff.mp range
  have range := inRange_toNat range
  generalize (allocateIds document actor ["r", "l"]).1.tail.headD "" = layerId at made
  generalize (allocateIds document actor ["r", "l"]).1.headD "" = resourceId at made
  rw [← made] at applied ⊢
  refine ⟨layerId, children, rfl, order, inside, outside, ?_⟩
  have quiet : viewAfter document.view
      [(allocateIds document actor ["r", "l"]).2, .addResource resourceId resource] =
        document.view :=
    viewAfter_allocation document.view document actor _
  have absent := @absent_of_applyOwnedOps _ document next layerId _
    [(allocateIds document actor ["r", "l"]).2, .addResource resourceId resource] _ quiet applied
  have patched := view_applyOwnedOps applied
  rw [viewAfter_cons, viewAfter_cons, viewAfter_cons, viewAfter_allocation,
    onView_addResource, onView_addLayer absent] at patched
  rw [parentChildren_eq_siblings] at order
  obtain ⟨ids, listed, perm⟩ := View.siblings_eq_some order
  have fresh : layerId ∉ children := fun mem =>
    tree.unlisted absent listed (perm.mem_iff.mp mem)
  have lists : ∀ other, (document.view.added layerId (.raster resourceId sourceRect)).listOf
      other = document.view.listOf other := by
    intro other
    by_cases new : other = some layerId
    · rw [new, listOf_absent absent]
      simp [View.listOf, View.added]
    · exact listOf_added new
  have placed := @placed_parentListPatches _ document _ parentId ids
    (children.insertIdx index.toNat layerId) ((lists parentId).trans listed)
    (nodup_insertion (perm.nodup_iff.mpr (tree.nodup listed)) fresh range) (fun _ _ => rfl)
  rw [← patched] at placed
  constructor
  · rw [parentChildren_eq_siblings]
    exact placed.siblings
  · intro other affected
    have different : other ≠ parentId := by simpa using affected
    rw [parentChildren_eq_siblings, parentChildren_eq_siblings, placed.siblings_of_apart different]
    · exact View.siblings_congr (lists other) fun _ _ _ _ => rfl
    · intro others known id mem inserted
      rw [lists] at known
      cases (mem_insertion range).mp inserted with
      | inl same => exact tree.unlisted absent known (same ▸ mem)
      | inr also =>
        exact different (tree.parent_unique known listed mem (perm.mem_iff.mp also))

/-! ## Groups -/

theorem Renumbered.listOf {next : View} (renumbered : Renumbered view next children)
    (parentId : Option String) : next.listOf parentId = view.listOf parentId := by
  cases parentId with
  | none => exact congrArg some renumbered.roots
  | some id =>
    unfold View.listOf
    rw [renumbered.kind]

theorem Renumbered.siblings_of_apart {next : View} (renumbered : Renumbered view next children)
    (apart : ∀ ids, view.listOf parentId = some ids → ∀ id ∈ ids, id ∉ children) :
    next.siblings parentId = view.siblings parentId :=
  View.siblings_congr (renumbered.listOf parentId) fun ids listed id mem =>
    renumbered.others id (apart ids listed id mem)

/-- A block of siblings becomes the list of a new group in its place. -/
theorem placed_group {groupId : String} {parentId : Option String}
    {ids front members back : List String} (tree : Tree document.view)
    (absent : document.view.kind groupId = none) (listed : document.view.listOf parentId = some ids)
    (perm : (front ++ members ++ back).Perm ids)
    (patched : next.view = viewAfter (document.view.added groupId (.group members none))
      (parentListPatches document parentId (front ++ groupId :: back) ++
        layerOrderPatches document members)) :
    parentChildren next parentId = some (front ++ groupId :: back) ∧
      parentChildren next (some groupId) = some members ∧
      Undisturbed document next [parentId, some groupId] := by
  have nodup : (front ++ members ++ back).Nodup := perm.nodup_iff.mpr (tree.nodup listed)
  have known : ∀ id, id ∈ front ∨ id ∈ members ∨ id ∈ back → id ∈ ids := by
    intro id mem
    apply perm.mem_iff.mp
    simp only [mem_append]
    tauto
  have fresh : groupId ∉ ids := tree.unlisted absent listed
  have notParent : parentId ≠ some groupId := by
    intro same
    rw [same, listOf_absent absent] at listed
    cases listed
  have replaced : (front ++ groupId :: back).Nodup := by
    have outer : (front ++ back).Nodup := by
      rw [append_assoc] at nodup
      exact nodup.sublist ((sublist_append_right members back).append_left front)
    apply (perm_middle.nodup_iff).mpr
    refine nodup_cons.mpr ⟨fun mem => fresh (known groupId ?_), outer⟩
    rw [mem_append] at mem
    tauto
  have apart : ∀ id ∈ members, id ∉ front ++ groupId :: back := by
    intro id mem also
    rw [nodup_append, nodup_append] at nodup
    cases mem_append.mp also with
    | inl first => exact nodup.1.2.2 id first id mem rfl
    | inr later =>
      cases mem_cons.mp later with
      | inl same => exact fresh (known groupId (.inr (.inl (same ▸ mem))))
      | inr last => exact nodup.2.2 id (mem_append_right _ mem) id last rfl
  have first := @placed_parentListPatches _ document
    (document.view.added groupId (.group members none)) parentId ids _
    ((listOf_added notParent).trans listed) replaced (fun _ _ => rfl)
  have block : members.Nodup := by
    rw [nodup_append, nodup_append] at nodup
    exact nodup.1.2.1
  have second := @renumbered_layerOrderPatches _ document _ members block
    (fun id mem => first.others id (apart id mem))
  rw [viewAfter_append] at patched
  rw [← patched] at second
  have inside : next.view.listOf (some groupId) = some members := by
    rw [second.listOf, first.lists (some groupId) (Ne.symm notParent)]
    simp [View.listOf, View.added]
  simp only [parentChildren_eq_siblings, Undisturbed]
  refine ⟨?_, ?_, ?_⟩
  · rw [← first.siblings]
    apply second.siblings_of_apart
    intro others left id mem also
    cases first.listed.symm.trans left
    exact apart id also mem
  · unfold View.siblings
    rw [inside]
    exact congrArg some second.ordered
  · intro other affected
    obtain ⟨notParent, notGroup⟩ : other ≠ parentId ∧ other ≠ some groupId := by
      simpa using affected
    have foreign : ∀ names, document.view.listOf other = some names →
        ∀ id ∈ names, id ∉ ids := fun names there id mem also =>
      notParent (tree.parent_unique there listed mem also)
    have list := @listOf_added document.view groupId (.group members none) other notGroup
    rw [second.siblings_of_apart, first.siblings_of_apart notParent]
    · exact View.siblings_congr list fun _ _ _ _ => rfl
    · intro names there id mem also
      rw [list] at there
      cases mem_append.mp also with
      | inl front => exact foreign names there id mem (known id (.inl front))
      | inr later =>
        cases mem_cons.mp later with
        | inl same => exact tree.unlisted absent there (same ▸ mem)
        | inr last => exact foreign names there id mem (known id (.inr (.inr last)))
    · intro names there id mem also
      rw [first.lists other notParent, list] at there
      exact foreign names there id mem (known id (.inr (.inl also)))

variable {actor : Option String} {layerIds : List String}

theorem groupPatches_eq_some {name : String}
    (found : groupPatches document actor layerIds name = some planned) :
    ∃ parentId front members back, layerIds.Nodup ∧
      (∀ id ∈ layerIds, layerParent document id = some parentId) ∧
      parentChildren document parentId = some (front ++ members ++ back) ∧
      (front ++ members ++ back).filter (· ∈ layerIds) = members ∧
      let groupId := (allocateIds document actor ["l"]).1.headD ""
      planned = ⟨(allocateIds document actor ["l"]).2 ::
        .addLayer groupId (newLayer (.group members none) name) ::
        (parentListPatches document parentId (front ++ groupId :: back) ++
          layerOrderPatches document members), some groupId⟩ := by
  unfold groupPatches at found
  simp only [bind_eq_bind, bind_eq_some_iff, Option.pure_def, bind_none,
    ite_none_left_eq_some, some.injEq, Decidable.not_not] at found
  obtain ⟨_, _, distinct, parentId, _, common, siblings, order, block, made⟩ := found
  generalize chosen : siblings.filter (· ∈ layerIds) = members at block made
  generalize siblings.idxOf (members.headD "") = index at block made
  have split : siblings = siblings.take index ++ members ++
      siblings.drop (index + members.length) := by
    calc siblings = siblings.take index ++ siblings.drop index :=
          (take_append_drop index siblings).symm
      _ = siblings.take index ++ ((siblings.drop index).take members.length ++
          (siblings.drop index).drop members.length) :=
        congrArg _ (take_append_drop members.length (siblings.drop index)).symm
      _ = siblings.take index ++ members ++ siblings.drop (index + members.length) := by
          rw [block, drop_drop, append_assoc]
  refine ⟨parentId, siblings.take index, members, siblings.drop (index + members.length),
    distinct, common, ?_, ?_, made.symm⟩
  · rw [← split]
    exact order
  · rw [← split]
    exact chosen

theorem requested_group {name : String} (once : (document.layers.map Prod.fst).Nodup)
    (tree : Tree document.view) (found : groupPatches document actor layerIds name = some planned)
    (applied : applyOwnedOps document planned.patches = some next) :
    Requested document next planned.created (.group layerIds name) := by
  obtain ⟨parentId, front, members, back, distinct, common, order, chosen, made⟩ :=
    groupPatches_eq_some found
  generalize (allocateIds document actor ["l"]).1.headD "" = groupId at made
  rw [made] at applied ⊢
  have absent := @absent_of_applyOwnedOps _ document next groupId _
    [(allocateIds document actor ["l"]).2] _
    (viewAfter_allocation document.view document actor _) applied
  have patched := view_applyOwnedOps applied
  rw [viewAfter_cons, viewAfter_cons, viewAfter_allocation, onView_addLayer absent] at patched
  have siblingsOf := order
  rw [parentChildren_eq_siblings] at siblingsOf
  obtain ⟨ids, listed, perm⟩ := View.siblings_eq_some siblingsOf
  have same : members.Perm layerIds := by
    rw [← chosen]
    apply (perm_ext_iff_of_nodup ((perm.nodup_iff.mpr (tree.nodup listed)).filter _) distinct).mpr
    intro id
    rw [mem_filter, decide_eq_true_eq]
    refine ⟨fun both => both.2, fun mem => ⟨?_, mem⟩⟩
    obtain ⟨others, known, inside⟩ := layerParent_spec once (common id mem)
    cases listed.symm.trans known
    exact perm.mem_iff.mpr inside
  exact ⟨groupId, parentId, front, members, back, rfl, common, order, same,
    @placed_group _ document next groupId parentId ids front members back tree absent
      listed perm patched⟩

/-! ## Removals -/

def View.without (view : View) (ids : List String) : View where
  roots := view.roots
  kind := fun id => if id ∈ ids then none else view.kind id
  zIndex := fun id => if id ∈ ids then none else view.zIndex id

theorem viewAfter_removeLayers (ids : List String) : ∀ view : View,
    viewAfter view (ids.map (.removeLayer : String → LayerPatch Resource)) = view.without ids := by
  induction ids with
  | nil =>
    intro view
    simp [viewAfter, View.without]
  | cons first rest ih =>
    intro view
    rw [map_cons, viewAfter_cons, ih]
    unfold LayerPatch.onView View.without
    congr 1
    all_goals
      funext id
      by_cases here : id = first
      all_goals simp [here]

theorem viewAfter_quiet {patches : List (LayerPatch Resource)}
    (quiet : ∀ patch ∈ patches, ∀ view : View, patch.onView view = view) :
    ∀ view : View, viewAfter view patches = view := by
  induction patches with
  | nil =>
    intro view
    rfl
  | cons patch rest ih =>
    intro view
    rw [viewAfter_cons, quiet patch mem_cons_self,
      ih (fun patch listed => quiet patch (mem_cons_of_mem _ listed))]

theorem View.listOf_without (kept : parentId ∉ ids.map some) :
    (view.without ids).listOf parentId = view.listOf parentId := by
  cases parentId with
  | none => rfl
  | some id =>
    have kept : id ∉ ids := fun listed => kept (mem_map_of_mem listed)
    unfold View.listOf View.without
    simp only [if_neg kept]

/-- A parent whose children stay keeps its effective order. -/
theorem View.siblings_without (kept : parentId ∉ ids.map some)
    (apart : ∀ names, view.listOf parentId = some names → ∀ id ∈ names, id ∉ ids) :
    (view.without ids).siblings parentId = view.siblings parentId :=
  View.siblings_congr (View.listOf_without kept) fun names listed id mem =>
    if_neg (apart names listed id mem)

theorem mem_descendantIds {id : String} :
    id ∈ descendantIds document layerId ↔ Reaches document.view.childIds [layerId] id := by
  unfold descendantIds
  rw [mem_closure_iff (fun _ => stored_of_childIds), childIds_view]

/-- A layer leaves with everything under it. -/
theorem without_descendants {layerId : String} {parentId : Option String}
    {ids siblings : List String} (tree : Tree document.view)
    (listed : document.view.listOf parentId = some ids) (perm : siblings.Perm ids)
    (inside : layerId ∈ ids)
    (patched : next.view = (viewAfter document.view (parentListPatches document parentId
      (siblings.filter (· ≠ layerId)))).without (descendantIds document layerId)) :
    parentChildren next parentId = some (siblings.filter (· ≠ layerId)) ∧
      (∀ id ∈ descendantIds document layerId, parentChildren next (some id) = none) ∧
      Undisturbed document next (parentId :: (descendantIds document layerId).map some) := by
  have fewer : (siblings.filter (· ≠ layerId)).Nodup :=
    (perm.nodup_iff.mpr (tree.nodup listed)).filter _
  have source : ∀ id ∈ siblings.filter (· ≠ layerId), id ∈ ids := fun id left =>
    perm.mem_iff.mp (mem_of_mem_filter left)
  have placed := @placed_parentListPatches _ document document.view parentId ids _ listed fewer
    (fun _ _ => rfl)
  generalize viewAfter document.view (parentListPatches document parentId
    (siblings.filter (· ≠ layerId))) = middle at placed patched
  have stays : parentId ∉ (descendantIds document layerId).map some := by
    intro removed
    obtain ⟨parent, under, same⟩ := mem_map.mp removed
    rw [← same] at listed
    exact tree.not_reaches_parent listed inside (mem_descendantIds.mp under)
  -- A removed layer other than the named one has its parent removed.
  have above : ∀ {other names id}, document.view.listOf other = some names → id ∈ names →
      id ∈ descendantIds document layerId → id ≠ layerId →
      other ∈ (descendantIds document layerId).map some := by
    intro other names id known mem removed below
    obtain ⟨parent, same, under⟩ :=
      tree.parent_of_reaches (mem_descendantIds.mp removed) below known mem
    exact same ▸ mem_map_of_mem (mem_descendantIds.mpr under)
  simp only [parentChildren_eq_siblings, Undisturbed, patched]
  refine ⟨?_, ?_, ?_⟩
  · rw [← placed.siblings]
    apply View.siblings_without stays
    intro names left id mem removed
    cases placed.listed.symm.trans left
    exact stays (above listed (source id mem) removed (by simpa using (mem_filter.mp mem).2))
  · intro id removed
    unfold View.siblings View.listOf View.without
    simp [removed]
  · intro other affected
    obtain ⟨notParent, stays⟩ := not_or.mp (mt mem_cons.mpr affected)
    rw [View.siblings_without stays, placed.siblings_of_apart notParent]
    · intro names known id mem left
      exact notParent (tree.parent_unique known listed mem (source id left))
    · intro names known id mem removed
      rw [placed.lists other notParent] at known
      by_cases named : id = layerId
      · exact notParent (tree.parent_unique known listed (named ▸ mem) inside)
      · exact stays (above known mem removed named)

theorem requested_remove (once : (document.layers.map Prod.fst).Nodup) (tree : Tree document.view)
    (found : removePatches document layerId = some planned)
    (patched : next.view = viewAfter document.view planned.patches) :
    Requested document next planned.created (.remove layerId) := by
  unfold removePatches at found
  simp only [bind_eq_bind, bind_eq_some_iff, Option.pure_def, some.injEq]
    at found
  obtain ⟨_, _, parentId, source, siblings, order, made⟩ := found
  refine ⟨parentId, siblings, source, order, ?_⟩
  obtain ⟨ids, listed, inside⟩ := layerParent_spec once source
  rw [parentChildren_eq_siblings] at order
  obtain ⟨_, known, perm⟩ := View.siblings_eq_some order
  cases listed.symm.trans known
  apply without_descendants tree listed perm inside
  rw [patched, ← made, viewAfter_append, viewAfter_append, viewAfter_append,
    @viewAfter_quiet _ (List.map LayerPatch.removeMask _), viewAfter_removeLayers, viewAfter_quiet]
  all_goals
    intro patch removal
    obtain ⟨_, _, same⟩ := List.mem_map.mp removal
    rw [← same]
    exact fun _ => rfl

/-- An accepted command on a checked document puts the layers where it says, and disturbs no
other parent. -/
theorem planImageDocumentCommand_requested (others : ImageDocument Resource → Bool)
    {document next : ImageDocument Resource} {actor created : Option String}
    {command : LayerCommand Resource} (valid : accepts others document = true)
    (accepted : planImageDocumentCommand others document actor command = some (next, created)) :
    Requested document next created command := by
  unfold planImageDocumentCommand at accepted
  simp only [bind_eq_bind, bind_eq_some_iff, Option.pure_def] at accepted
  obtain ⟨planned, found, result, applied, same⟩ := accepted
  obtain ⟨_, same⟩ := ite_none_right_eq_some.mp same
  cases same
  have tree := tree_of_accepts valid
  have once : (document.layers.map Prod.fst).Nodup := by
    unfold accepts at valid
    simp only [Bool.and_eq_true, decide_eq_true_eq] at valid
    exact valid.1.1
  cases command with
  | group layerIds name => exact requested_group once tree found applied
  | addRaster parentId index name resource sourceRect =>
    exact requested_addRaster tree found applied
  | move layerId parentId index =>
    exact requested_move once tree found (view_applyOwnedOps applied)
  | remove layerId => exact requested_remove once tree found (view_applyOwnedOps applied)

/-- A document with a group of two layers and a layer before it by its `z_index`. -/
def layeredDocument : ImageDocument Unit where
  nextOrdinal := 9
  actorCursors := none
  rootLayerIds := ["l1", "l2"]
  layers :=
    [("l1", newLayer (.group ["l3", "l4"] none) "group"),
      ("l2", { newLayer (.raster "r5" ⟨0, 0, 1, 1⟩) "front" with z_index := some (-7) }),
      ("l3", newLayer (.raster "r6" ⟨0, 0, 1, 1⟩) "inner"),
      ("l4", newLayer (.raster "r7" ⟨0, 0, 1, 1⟩) "outer")]
  masks := []
  resources := [("r5", ()), ("r6", ()), ("r7", ())]

/-- A numbered layer moves into a group without numbers. -/
theorem planImageDocumentCommand_requested_move :
    ∃ next created, planImageDocumentCommand (fun _ => true) layeredDocument none
        (.move "l2" (some "l1") 1) = some (next, created) ∧
      Requested layeredDocument next created (.move "l2" (some "l1") 1) := by
  have valid : accepts (fun _ => true) layeredDocument = true := by decide +kernel
  have accepted : (planImageDocumentCommand (fun _ => true) layeredDocument none
      (.move "l2" (some "l1") 1)).isSome = true := by decide +kernel
  obtain ⟨⟨next, created⟩, result⟩ := isSome_iff_exists.mp accepted
  exact ⟨next, created, result, planImageDocumentCommand_requested (fun _ => true) valid result⟩

end Dinkster.Image.Layers
