import Dinkster.Image.Commands
import Dinkster.Image.Requests

/-!
# Exact patches

What a patch of a command displaces is read from the document before the command, and the patch
is applied after the others.  It is exact all the same, since no patch before it overlaps it: the
lists that a command rewrites have no layer in common, and what it removes it does not renumber.
-/

namespace Dinkster.Image.Undo

open Library Format List Option
open Layers (LayerCommand LayerKind LayerPatch Tree View)

namespace ImageField

/-- Whether a write to one path may change what is at another. -/
def overlaps : ImageField → ImageField → Prop
  | .canvas, .canvas | .rootLayerIds, .rootLayerIds => True
  | .extensions, .extensions | .extensions, .extension _ | .extension _, .extensions => True
  | .childLayerIds id, .childLayerIds other | .zIndex id, .zIndex other
  | .transform id, .transform other | .mask id, .mask other | .resource id, .resource other
  | .extension id, .extension other => id = other
  | .layer id, .layer other | .layer id, .childLayerIds other | .layer id, .zIndex other
  | .layer id, .transform other | .childLayerIds id, .layer other | .zIndex id, .layer other
  | .transform id, .layer other => id = other
  | _, _ => False

variable {change : ImageLayer → ImageLayer}

theorem read_mapLayer {Value : Type} (reading : Option ImageLayer → Value)
    (kept : ∀ stored, reading (some (change stored)) = reading (some stored))
    (content : ImageContent) (id other : String) :
    reading ((content.mapLayer id change).layers.get other) =
      reading (content.layers.get other) := by
  rw [ImageContent.get_mapLayer]
  split
  · rename_i same
    rw [same]
    cases content.layers.get other with
    | none => rfl
    | some stored => exact kept stored
  · rfl

theorem get_mapLayer_of_ne {content : ImageContent} {id other : String} (different : ¬ id = other) :
    (content.mapLayer id change).layers.get other = content.layers.get other := by
  rw [ImageContent.get_mapLayer, if_neg different]

theorem read_write_of_apart {field other : ImageField} (apart : ¬ field.overlaps other)
    (value : field.Content) (content : ImageContent) :
    other.read (field.write value content) = other.read content := by
  cases field with
  | canvas | rootLayerIds | extensions => cases other <;> first | rfl | exact absurd trivial apart
  | mask id =>
    cases other with
    | mask other => exact Record.get_write_of_ne apart
    | _ => rfl
  | resource id =>
    cases other with
    | resource other => exact Record.get_write_of_ne apart
    | _ => rfl
  | extension name =>
    cases other with
    | extensions => exact absurd trivial apart
    | extension other =>
      change (content.extensions.map (·.write name value)).bind (·.get other) =
        content.extensions.bind (·.get other)
      cases content.extensions with
      | none => rfl
      | some stored => exact Record.get_write_of_ne apart
    | _ => rfl
  | layer id =>
    have others {other : String} (different : ¬ id = other) :
        ((ImageField.layer id).write value content).layers.get other =
          content.layers.get other := Record.get_write_of_ne different
    cases other with
    | layer other => exact others apart
    | childLayerIds other => exact congrArg (Option.elim · [] _) (others apart)
    | zIndex other => exact congrArg (Option.bind · _) (others apart)
    | transform other => exact congrArg (Option.elim · identity _) (others apart)
    | _ => rfl
  | childLayerIds id =>
    cases other with
    | layer other => exact get_mapLayer_of_ne apart
    | childLayerIds other =>
      exact congrArg (Option.elim · [] _) (get_mapLayer_of_ne apart)
    | zIndex other => exact read_mapLayer (Option.bind · (·.z_index)) (by exact fun _ => rfl) content id other
    | transform other =>
      exact read_mapLayer (Option.elim · identity (·.placement)) (by exact fun _ => rfl) content id other
    | _ => rfl
  | zIndex id =>
    cases other with
    | layer other => exact get_mapLayer_of_ne apart
    | zIndex other => exact congrArg (Option.bind · _) (get_mapLayer_of_ne apart)
    | childLayerIds other =>
      exact read_mapLayer (Option.elim · [] fun stored => children stored.kind)
        (by exact fun _ => rfl) content id other
    | transform other =>
      exact read_mapLayer (Option.elim · identity (·.placement)) (by exact fun _ => rfl) content id other
    | _ => rfl
  | transform id =>
    cases other with
    | layer other => exact get_mapLayer_of_ne apart
    | transform other => exact congrArg (Option.elim · identity _) (get_mapLayer_of_ne apart)
    | childLayerIds other =>
      exact read_mapLayer (Option.elim · [] fun stored => children stored.kind)
        (by exact fun _ => rfl) content id other
    | zIndex other => exact read_mapLayer (Option.bind · (·.z_index)) (by exact fun _ => rfl) content id other
    | _ => rfl

end ImageField

theorem spares_of_apart {edit other : Edit imageCells} (apart : ¬ edit.name.overlaps other.name) :
    edit.Spares other := by
  intro content next applied
  obtain ⟨_, _, _, written⟩ := Edit.apply_eq_some applied
  rw [← written]
  exact ImageField.read_write_of_apart apart edit.new content

variable (content : ImageContent)

/-- A patch that displaces something displaces what is there. -/
def ImagePatch.Honest (patch : ImagePatch) : Prop :=
  ∀ edit, patch = .content edit → edit.displaces = true → edit.Exact content

/-- A patch leaves alone what another displaces. -/
def ImagePatch.Clears (patch later : ImagePatch) : Prop :=
  ∀ edit other, patch = .content edit → later = .content other → other.displaces = true →
    ¬ edit.name.overlaps other.name

theorem edit?_eq_some {patch : ImagePatch} {edit : Edit imageCells}
    (same : patch.edit? = some edit) : patch = .content edit := by
  cases patch with
  | nextOrdinal ordinal | actorCursors cursors => cases same
  | content other =>
    cases same
    rfl

variable {patches : List ImagePatch}

theorem applyAll_of_applyOwnedOps : ∀ {document next : ImageDocument},
    applyOwnedOps patches document = some next →
      Edit.applyAll (patches.filterMap ImagePatch.edit?) document.content = some next.content := by
  induction patches with
  | nil =>
    intro document next applied
    rw [some.inj applied]
    rfl
  | cons patch rest ih =>
    intro document next applied
    obtain ⟨middle, first, later⟩ := bind_eq_some_iff.mp applied
    cases patch with
    | nextOrdinal ordinal | actorCursors cursors =>
      rw [← some.inj first] at later
      have made := ih later
      exact made
    | content edit =>
      obtain ⟨content, edited, same⟩ := map_eq_some_iff.mp first
      rw [← same] at later
      change (edit.apply document.content).bind _ = _
      rw [edited]
      exact ih later

theorem recorded_of_clears {document next : ImageDocument}
    (honest : ∀ patch ∈ patches, patch.Honest document.content)
    (clears : patches.Pairwise ImagePatch.Clears)
    (applied : applyOwnedOps patches document = some next) :
    Edit.Recorded document.content (patches.filterMap ImagePatch.edit?) next.content := by
  refine Edit.recorded_of_spares ?_ ?_ (applyAll_of_applyOwnedOps applied)
  · intro edit listed
    obtain ⟨patch, known, same⟩ := mem_filterMap.mp listed
    exact honest patch known edit (edit?_eq_some same)
  · rw [pairwise_filterMap]
    refine clears.imp fun clear edit here other there displaces => ?_
    exact spares_of_apart (clear edit other (edit?_eq_some here) (edit?_eq_some there) displaces)

theorem honest_replace (field : ImageField) (value : field.Content) :
    (replace content field value).Honest content := by
  intro edit same _
  cases same
  rfl

theorem clears_content {edit later : Edit imageCells} (apart : ¬ edit.name.overlaps later.name) :
    (ImagePatch.content edit).Clears (.content later) := by
  intro first second here there _
  cases here
  cases there
  exact apart

theorem clears_replace {content : ImageContent} {field other : ImageField}
    {value : field.Content} {next : other.Content} (apart : ¬ field.overlaps other) :
    (replace content field value).Clears (replace content other next) :=
  clears_content apart

/-! ## Patches of the tree of layers -/

section Trees

variable {Resource : Type} {document : Layers.ImageDocument Resource}

/-- The place of the list of a parent. -/
def listField : Option String → ImageField
  | none => .rootLayerIds
  | some id => .childLayerIds id

/-- The place that a patch writes. -/
def target : LayerPatch Resource → Option ImageField
  | .replaceNextOrdinal _ | .setActorCursors _ => none
  | .replaceRootLayerIds _ => some .rootLayerIds
  | .replaceChildLayerIds parent _ => some (.childLayerIds parent)
  | .addZIndex id _ | .replaceZIndex id _ => some (.zIndex id)
  | .addLayer id _ | .removeLayer id => some (.layer id)
  | .addResource id _ | .removeResource id => some (.resource id)
  | .removeMask id => some (.mask id)

def displaced : LayerPatch Resource → Option ImageField
  | .addZIndex _ _ | .addLayer _ _ | .addResource _ _ => none
  | patch => target patch

/-- A patch leaves alone what another displaces. -/
def Clear (patch later : LayerPatch Resource) : Prop :=
  ∀ field other, target patch = some field → displaced later = some other → ¬ field.overlaps other

/-- A patch gives one of some layers another `z_index`, which it had already if it is displaced. -/
def Renumbers (document : Layers.ImageDocument Resource) (ids : List String)
    (patch : LayerPatch Resource) : Prop :=
  ∃ id ∈ ids, target patch = some (.zIndex id) ∧
    (displaced patch = none ∨
      displaced patch = some (.zIndex id) ∧ (document.zIndex id).isSome)

def Rewrites (document : Layers.ImageDocument Resource) (parentId : Option String)
    (ids : List String) (patch : LayerPatch Resource) : Prop :=
  (target patch = some (listField parentId) ∧ displaced patch = some (listField parentId)) ∨
    Renumbers document ids patch

variable {patch later : LayerPatch Resource} {children ids : List String}
    {parentId : Option String} {planned : Layers.Planned Resource}

theorem renumbers_positionPatch {id : String} {index : Nat}
    (same : Layers.positionPatch document (id, index) = some patch) :
    Renumbers document [id] patch := by
  unfold Layers.positionPatch at same
  refine ⟨id, mem_singleton_self id, ?_⟩
  cases numbered : document.zIndex id with
  | none =>
    simp only [numbered] at same
    cases same
    exact ⟨rfl, .inl rfl⟩
  | some previous =>
    simp only [numbered] at same
    obtain ⟨_, same⟩ := ite_none_left_eq_some.mp same
    cases same
    exact ⟨rfl, .inr ⟨rfl, rfl⟩⟩

theorem layerOrderPatches_cases (document : Layers.ImageDocument Resource)
    (children : List String) : Layers.layerOrderPatches document children = [] ∨
      Layers.layerOrderPatches document children =
        children.zipIdx.filterMap (Layers.positionPatch document) := by
  unfold Layers.layerOrderPatches
  split
  · exact .inr rfl
  · exact .inl rfl

theorem renumbers_of_mem (listed : patch ∈ Layers.layerOrderPatches document children) :
    Renumbers document children patch := by
  cases layerOrderPatches_cases document children with
  | inl none =>
    rw [none] at listed
    cases listed
  | inr positions =>
    rw [positions] at listed
    obtain ⟨⟨id, index⟩, there, same⟩ := mem_filterMap.mp listed
    obtain ⟨_, only, renumbers⟩ := renumbers_positionPatch same
    exact ⟨id, fst_mem_of_mem_zipIdx there, mem_singleton.mp only ▸ renumbers⟩

theorem rewrites_of_mem (listed : patch ∈ Layers.parentListPatches document parentId children) :
    Rewrites document parentId children patch := by
  cases mem_cons.mp listed with
  | inl list =>
    cases parentId <;> exact .inl (list ▸ ⟨rfl, rfl⟩)
  | inr order => exact .inr (renumbers_of_mem order)

variable {others : List String} {resource : Resource} {layerId : String} {actor : Option String}

/-- Renumbering some layers leaves others alone. -/
theorem clear_renumbers (first : Renumbers document ids patch)
    (second : Renumbers document others later) (apart : ∀ id ∈ ids, id ∉ others) :
    Clear patch later := by
  obtain ⟨id, listed, writes, _⟩ := first
  obtain ⟨other, known, _, nothing | same⟩ := second
  · intro field place _ there
    rw [nothing] at there
    cases there
  · intro field place here there
    rw [writes] at here
    rw [same.1] at there
    cases here
    cases there
    exact fun name => apart id listed (name ▸ known)

/-- Rewriting the list of a parent leaves the lists of others alone. -/
theorem clear_rewrites {other : Option String} (first : Rewrites document parentId ids patch)
    (second : Rewrites document other others later) (different : parentId ≠ other)
    (apart : ∀ id ∈ ids, id ∉ others) : Clear patch later := by
  cases first with
  | inl list =>
    intro field place here there
    rw [list.1] at here
    cases here
    cases second with
    | inl also =>
      rw [also.2] at there
      cases there
      cases parentId <;> cases other <;> simp_all [listField, ImageField.overlaps]
    | inr order =>
      obtain ⟨id, _, _, nothing | same⟩ := order
      · rw [nothing] at there
        cases there
      · rw [same.1] at there
        cases there
        cases parentId <;> exact not_false
  | inr order =>
    cases second with
    | inl list =>
      obtain ⟨id, _, writes, _⟩ := order
      intro field place here there
      rw [writes] at here
      rw [list.2] at there
      cases here
      cases there
      cases other <;> exact not_false
    | inr also => exact clear_renumbers order also apart

theorem pairwise_layerOrderPatches (distinct : children.Nodup) :
    (Layers.layerOrderPatches document children).Pairwise Clear := by
  cases layerOrderPatches_cases document children with
  | inl none =>
    rw [none]
    exact .nil
  | inr positions =>
    have apart : children.zipIdx.Pairwise fun first second => first.1 ≠ second.1 := by
      rw [← pairwise_map, zipIdx_map_fst]
      exact distinct
    rw [positions, pairwise_filterMap]
    refine apart.imp fun {first second} different patch here later there => ?_
    refine clear_renumbers (renumbers_positionPatch here) (renumbers_positionPatch there) ?_
    intro id only also
    exact different ((mem_singleton.mp only).symm.trans (mem_singleton.mp also))

theorem pairwise_parentListPatches (distinct : children.Nodup) :
    (Layers.parentListPatches document parentId children).Pairwise Clear := by
  refine pairwise_cons.mpr ⟨fun later listed => ?_, pairwise_layerOrderPatches distinct⟩
  obtain ⟨id, _, _, nothing | same⟩ := renumbers_of_mem listed
  · intro field place _ there
    rw [nothing] at there
    cases there
  · intro field place here there
    rw [same.1] at there
    cases there
    cases parentId <;>
    · cases here
      exact not_false

/-- Rewriting the list of a parent leaves the layers of other lists alone. -/
theorem clear_removal {id : String} (rewrites : Rewrites document parentId ids patch)
    (notParent : parentId ≠ some id) (unlisted : id ∉ ids) : Clear patch (.removeLayer id) := by
  intro field place here there
  cases there
  cases rewrites with
  | inl list =>
    rw [list.1] at here
    cases here
    cases parentId with
    | none => exact not_false
    | some parent => exact fun same => notParent (congrArg some same)
  | inr order =>
    obtain ⟨other, listed, writes, _⟩ := order
    rw [writes] at here
    cases here
    exact fun same => unlisted (same ▸ listed)

/-- Rewriting the list of a parent leaves everything but layers alone. -/
theorem clear_rest (rewrites : Rewrites document parentId ids patch)
    (rest : (∃ id, later = .removeMask id) ∨ ∃ id, later = .removeResource id) :
    Clear patch later := by
  intro field place here there
  have apart : ¬ field.overlaps place := by
    cases rewrites with
    | inl list =>
      rw [list.1] at here
      cases here
      obtain ⟨id, same⟩ | ⟨id, same⟩ := rest <;>
      · subst same
        cases there
        cases parentId <;> exact not_false
    | inr order =>
      obtain ⟨other, _, writes, _⟩ := order
      rw [writes] at here
      cases here
      obtain ⟨id, same⟩ | ⟨id, same⟩ := rest <;>
      · subst same
        cases there
        exact not_false
  exact apart

/-- A new layer is in no place that is displaced. -/
theorem clear_addLayer {parentId : Option String} {ids : List String} {layerId : String}
    {layer : Layers.ImageLayer} {patch : LayerPatch Resource}
    (rewrites : Rewrites document parentId ids patch) (absent : document.view.kind layerId = none)
    (notParent : parentId ≠ some layerId) : Clear (.addLayer layerId layer) patch := by
  intro field place here there
  cases here
  cases rewrites with
  | inl list =>
    rw [list.2] at there
    cases there
    cases parentId with
    | none => exact not_false
    | some parent => exact fun same => notParent (congrArg some same.symm)
  | inr order =>
    obtain ⟨id, _, _, nothing | stored⟩ := order
    · rw [nothing] at there
      cases there
    · rw [stored.1] at there
      cases there
      intro same
      change layerId = id at same
      have numberless := Layers.zIndex_eq_none absent
      rw [same] at numberless
      simp [numberless] at stored

/-- What writes nothing in the content is in no place. -/
theorem clear_of_no_target (nothing : target patch = none) : Clear patch later := by
  intro field place here _
  rw [nothing] at here
  cases here

theorem target_allocation (actor : Option String) (letters : List String) :
    target (Layers.allocateIds document actor letters).2 = none := by
  unfold Layers.allocateIds
  cases actor <;> rfl

theorem clear_addResource {resourceId : String} (rewrites : Rewrites document parentId ids patch) :
    Clear (.addResource resourceId resource) patch := by
  intro field place here there
  cases here
  cases rewrites with
  | inl list =>
    rw [list.2] at there
    cases there
    cases parentId <;> exact not_false
  | inr order =>
    obtain ⟨id, _, _, nothing | stored⟩ := order
    · rw [nothing] at there
      cases there
    · rw [stored.1] at there
      cases there
      exact not_false

/-! ## Commands on the tree of layers -/

theorem ne_parent_of_absent (absent : document.view.kind layerId = none)
    (listed : document.view.listOf parentId = some ids) : parentId ≠ some layerId := by
  intro same
  rw [same, Layers.listOf_absent absent] at listed
  cases listed

theorem pairwise_group {layerIds : List String} {name : String} (tree : Tree document.view)
    (found : Layers.groupPatches document actor layerIds name = some planned)
    (absent : document.view.kind ((Layers.allocateIds document actor ["l"]).1.headD "") = none) :
    planned.patches.Pairwise Clear := by
  obtain ⟨parentId, front, members, back, _, _, order, _, made⟩ := Layers.groupPatches_eq_some found
  generalize (Layers.allocateIds document actor ["l"]).1.headD "" = groupId at made absent
  rw [Layers.parentChildren_eq_siblings] at order
  obtain ⟨ids, listed, perm⟩ := View.siblings_eq_some order
  have distinct := perm.nodup_iff.mpr (tree.nodup listed)
  have fresh : groupId ∉ front ++ members ++ back := fun mem =>
    tree.unlisted absent listed (perm.mem_iff.mp mem)
  simp only [mem_append, not_or] at fresh
  obtain ⟨⟨notFront, notMember⟩, notBack⟩ := fresh
  obtain ⟨frontMembers, distinctBack, apartBack⟩ := List.nodup_append'.mp distinct
  obtain ⟨distinctFront, distinctMembers, apartFront⟩ := List.nodup_append'.mp frontMembers
  have siblings : (front ++ groupId :: back).Nodup := by
    refine List.nodup_append'.mpr ⟨distinctFront, nodup_cons.mpr ⟨notBack, distinctBack⟩, ?_⟩
    intro id inFront inBack
    cases mem_cons.mp inBack with
    | inl same => exact notFront (same ▸ inFront)
    | inr later => exact apartBack (mem_append_left _ inFront) later
  have apart : ∀ id ∈ front ++ groupId :: back, id ∉ members := by
    intro id known member
    cases mem_append.mp known with
    | inl inFront => exact apartFront inFront member
    | inr inBack =>
      cases mem_cons.mp inBack with
      | inl same => exact notMember (same ▸ member)
      | inr later => exact apartBack (mem_append_right _ member) later
  rw [made]
  refine pairwise_cons.mpr ⟨fun later _ => clear_of_no_target (target_allocation actor _),
    pairwise_cons.mpr ⟨fun later known => ?_, pairwise_append.mpr
      ⟨pairwise_parentListPatches siblings, pairwise_layerOrderPatches distinctMembers, ?_⟩⟩⟩
  · cases mem_append.mp known with
    | inl list =>
      exact clear_addLayer (rewrites_of_mem list) absent (ne_parent_of_absent absent listed)
    | inr order =>
      exact @clear_addLayer _ document parentId _ _ _ _ (.inr (renumbers_of_mem order)) absent
        (ne_parent_of_absent absent listed)
  · intro patch known later order
    cases rewrites_of_mem known with
    | inl list =>
      obtain ⟨id, _, _, nothing | same⟩ := renumbers_of_mem order
      · intro field place _ there
        rw [nothing] at there
        cases there
      · intro field place here there
        rw [list.1] at here
        rw [same.1] at there
        cases here
        cases there
        cases parentId <;> exact not_false
    | inr renumbers => exact clear_renumbers renumbers (renumbers_of_mem order) apart

theorem pairwise_addRaster {index : Int} {name : String} {sourceRect : Layers.ImageSourceRect}
    (tree : Tree document.view)
    (found : Layers.addRasterPatches document actor parentId index name resource sourceRect =
      some planned) (absent : document.view.kind
      ((Layers.allocateIds document actor ["r", "l"]).1.tail.headD "") = none) :
    planned.patches.Pairwise Clear := by
  unfold Layers.addRasterPatches at found
  simp only [bind_eq_bind, bind_eq_some_iff, Option.pure_def, bind_none,
    ite_none_left_eq_some, some.injEq, Decidable.not_not] at found
  obtain ⟨children, order, range, made⟩ := found
  generalize (Layers.allocateIds document actor ["r", "l"]).1.tail.headD "" = layerId
    at made absent
  rw [Layers.parentChildren_eq_siblings] at order
  obtain ⟨ids, listed, perm⟩ := View.siblings_eq_some order
  have fresh : layerId ∉ children := fun mem =>
    tree.unlisted absent listed (perm.mem_iff.mp mem)
  have distinct := Layers.nodup_insertion (perm.nodup_iff.mpr (tree.nodup listed)) fresh
    (Layers.inRange_toNat range)
  rw [← made]
  refine pairwise_cons.mpr ⟨fun later _ => clear_of_no_target (target_allocation actor _),
    pairwise_cons.mpr ⟨fun later known => ?_, pairwise_cons.mpr ⟨fun later known => ?_,
      pairwise_parentListPatches distinct⟩⟩⟩
  · cases mem_cons.mp known with
    | inl layer =>
      intro field place _ there
      rw [layer] at there
      cases there
    | inr list => exact clear_addResource (rewrites_of_mem list)
  · exact clear_addLayer (rewrites_of_mem known) absent (ne_parent_of_absent absent listed)

theorem pairwise_move {index : Int} (once : (document.layers.map Prod.fst).Nodup)
    (tree : Tree document.view)
    (found : Layers.movePatches document layerId parentId index = some planned) :
    planned.patches.Pairwise Clear := by
  unfold Layers.movePatches at found
  simp only [bind_eq_bind, bind_eq_some_iff, Option.pure_def, bind_none,
    ite_none_left_eq_some, some.injEq, Decidable.not_not] at found
  obtain ⟨sourceId, source, siblings, order, destination, goal, range, made⟩ := found
  have inside := Layers.inRange_toNat range
  obtain ⟨ids, listed, moved⟩ := Layers.layerParent_spec once source
  rw [Layers.parentChildren_eq_siblings] at order goal
  obtain ⟨_, known, perm⟩ := View.siblings_eq_some order
  cases listed.symm.trans known
  have fewer : (siblings.filter (· ≠ layerId)).Nodup :=
    (perm.nodup_iff.mpr (tree.nodup listed)).filter _
  have gone : layerId ∉ siblings.filter (· ≠ layerId) := by simp
  by_cases same : sourceId = parentId
  · simp only [if_pos same] at made inside
    rw [← made]
    exact pairwise_parentListPatches (Layers.nodup_insertion fewer gone inside)
  · simp only [if_neg same] at made inside
    obtain ⟨others, target, also⟩ := View.siblings_eq_some goal
    have fresh : layerId ∉ destination := fun mem =>
      same (tree.parent_unique listed target moved (also.mem_iff.mp mem))
    rw [← made]
    refine pairwise_append.mpr ⟨pairwise_parentListPatches fewer,
      pairwise_parentListPatches (Layers.nodup_insertion
        (also.nodup_iff.mpr (tree.nodup target)) fresh inside), ?_⟩
    intro patch here later there
    refine clear_rewrites (rewrites_of_mem here) (rewrites_of_mem there) same ?_
    intro id left inserted
    cases (Layers.mem_insertion inside).mp inserted with
    | inl name => exact gone (name ▸ left)
    | inr mem =>
      exact same (tree.parent_unique listed target
        (perm.mem_iff.mp (mem_of_mem_filter left)) (also.mem_iff.mp mem))

/-- What is removed together is apart. -/
theorem pairwise_removals {removal : String → LayerPatch Resource}
    (apart : ∀ {id other}, id ≠ other → Clear (removal id) (removal other)) (distinct : ids.Nodup) :
    (ids.map removal).Pairwise Clear :=
  pairwise_map.mpr (distinct.imp apart)

theorem pairwise_remove (once : (document.layers.map Prod.fst).Nodup) (tree : Tree document.view)
    (found : Layers.removePatches document layerId = some planned) :
    planned.patches.Pairwise Clear := by
  unfold Layers.removePatches at found
  simp only [bind_eq_bind, bind_eq_some_iff, Option.pure_def, some.injEq]
    at found
  obtain ⟨_, _, parentId, source, siblings, order, made⟩ := found
  obtain ⟨ids, listed, inside⟩ := Layers.layerParent_spec once source
  rw [Layers.parentChildren_eq_siblings] at order
  obtain ⟨_, known, perm⟩ := View.siblings_eq_some order
  cases listed.symm.trans known
  have stays {id : String} (removed : id ∈ Layers.descendantIds document layerId) :
      parentId ≠ some id := by
    intro same
    rw [same] at listed
    exact tree.not_reaches_parent listed inside (Layers.mem_descendantIds.mp removed)
  have unlisted {id : String} (removed : id ∈ Layers.descendantIds document layerId) :
      id ∉ siblings.filter (· ≠ layerId) := by
    intro left
    obtain ⟨among, below⟩ := mem_filter.mp left
    obtain ⟨parent, same, under⟩ := tree.parent_of_reaches (Layers.mem_descendantIds.mp removed)
      (by simpa using below) listed (perm.mem_iff.mp among)
    exact stays (Layers.mem_descendantIds.mpr under) same
  have distinct : (Layers.descendantIds document layerId).Nodup := nodup_closure _ _
  rw [← made]
  refine pairwise_append.mpr ⟨pairwise_parentListPatches
    ((perm.nodup_iff.mpr (tree.nodup listed)).filter _), ?_, ?_⟩
  · refine pairwise_append.mpr ⟨pairwise_append.mpr ⟨?_, ?_, ?_⟩, ?_, ?_⟩
    · refine pairwise_removals (fun different field place here there => ?_) (nodup_eraseDups _)
      cases here
      cases there
      exact different
    · refine pairwise_removals (fun different field place here there => ?_) distinct
      cases here
      cases there
      exact different
    · intro patch mask later layer field place here there
      obtain ⟨_, _, rfl⟩ := List.mem_map.mp mask
      obtain ⟨_, _, rfl⟩ := List.mem_map.mp layer
      cases here
      cases there
      exact not_false
    · refine pairwise_removals (fun different field place here there => ?_)
        ((nodup_eraseDups _).filter _)
      cases here
      cases there
      exact different
    · intro patch earlier later resource field place here there
      obtain ⟨_, _, rfl⟩ := List.mem_map.mp resource
      cases there
      cases mem_append.mp earlier with
      | inl mask =>
        obtain ⟨_, _, rfl⟩ := List.mem_map.mp mask
        cases here
        exact not_false
      | inr layer =>
        obtain ⟨_, _, rfl⟩ := List.mem_map.mp layer
        cases here
        exact not_false
  · intro patch rewrites later removal
    have rewrites := rewrites_of_mem rewrites
    simp only [mem_append, List.mem_map] at removal
    obtain (⟨id, _, rfl⟩ | ⟨id, removed, rfl⟩) | ⟨id, _, rfl⟩ := removal
    · exact clear_rest rewrites (.inl ⟨id, rfl⟩)
    · exact clear_removal rewrites (stays removed) (unlisted removed)
    · exact clear_rest rewrites (.inr ⟨id, rfl⟩)

end Trees

end Dinkster.Image.Undo
