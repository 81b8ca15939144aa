import Dinkster.Library.Closure
import Dinkster.Library.Table

/-!
# Layers of image documents

The layers of an image document form a tree: the root and every group list their children.  The
effective order of siblings is that of their `z_index`, where a layer without one has its
position in the list.  A command that changes the tree rewrites a list in its effective order,
and renumbers the `z_index` of the siblings where one of them has any.
-/

namespace Dinkster.Image.Layers

open Library

structure ImageAffineTransform where
  a : Int
  b : Int
  c : Int
  d : Int
  tx : Int
  ty : Int
  deriving DecidableEq

structure ImageSourceRect where
  x : Int
  y : Int
  width : Int
  height : Int
  deriving DecidableEq

inductive LayerKind where
  | group (childLayerIds : List String) (isolation : Option String)
  | raster (resourceId : String) (sourceRect : ImageSourceRect)
  deriving DecidableEq

/-- `ImageLayer`, without the id under which it is stored. -/
structure ImageLayer where
  kind : LayerKind
  name : String
  visible : Bool
  opacity : Nat
  transform : ImageAffineTransform
  blendMode : String
  clipping : String
  maskIds : List String
  z_index : Option Int
  deriving DecidableEq

/-- The references of an `ImageMask`. -/
structure ImageMask where
  ownerLayerId : String
  resourceId : String
  deriving DecidableEq

/-- `ImageDocument`, as far as its layers go. -/
structure ImageDocument (Resource : Type) where
  nextOrdinal : Nat
  actorCursors : Option (Table Nat)
  rootLayerIds : List String
  layers : Table ImageLayer
  masks : Table ImageMask
  resources : Table Resource

variable {Resource : Type}

namespace ImageDocument

variable (document : ImageDocument Resource)

/-- The children of a layer, of which only a group has any. -/
def childIds (id : String) : List String :=
  match document.layers.get id with
  | some layer =>
    match layer.kind with
    | .group childLayerIds _ => childLayerIds
    | .raster _ _ => []
  | none => []

/-- The lists that name layers, with their parents: the root has no id. -/
def parentLists : List (Option String × List String) :=
  (none, document.rootLayerIds) :: document.layers.filterMap fun (id, layer) =>
    match layer.kind with
    | .group childLayerIds _ => some (some id, childLayerIds)
    | .raster _ _ => none

/-- The `z_index` of a layer, if there is one. -/
def zIndex (id : String) : Option Int :=
  (document.layers.get id).bind (·.z_index)

end ImageDocument

/-- The ids in the order of their numbers, which default to positions.  The sort is stable. -/
def orderedBy (zIndex : String → Option Int) (ids : List String) : List String :=
  ((ids.zipIdx.map fun (id, index) => (id, (zIndex id).getD (index : Int))).insertionSort
    fun left right => left.2 ≤ right.2).map Prod.fst

variable (document : ImageDocument Resource)

def orderedImageLayerIds (ids : List String) : List String :=
  orderedBy document.zIndex ids

/-- `checkLayerTree` finds no error in the lists, the parent counts and the reachability of the
layers. -/
def checkLayerTree : Bool :=
  (document.parentLists.all fun (_, ids) =>
    decide ids.Nodup && ids.all (fun id => (document.layers.get id).isSome) &&
      ((orderedImageLayerIds document ids).head?.bind document.layers.get).all
        (·.clipping ≠ "clip-to-previous")) &&
  document.layers.all fun (id, _) =>
    (document.parentLists.flatMap Prod.snd).count id = 1 &&
      decide (id ∈ closure document.childIds (document.layers.map Prod.fst) document.rootLayerIds)

variable (others : ImageDocument Resource → Bool)

/-- A document has each property once, and `loadImageDocument` accepts it: `checkLayerTree` does,
and so do the checks of everything else. -/
def accepts (document : ImageDocument Resource) : Bool :=
  decide (document.layers.map Prod.fst).Nodup && checkLayerTree document && others document

/-- A patch operation, without the value it displaces. -/
inductive LayerPatch (Resource : Type) where
  | replaceNextOrdinal (ordinal : Nat)
  | setActorCursors (cursors : Table Nat)
  | replaceRootLayerIds (ids : List String)
  | replaceChildLayerIds (parent : String) (ids : List String)
  | addZIndex (id : String) (index : Int)
  | replaceZIndex (id : String) (index : Int)
  | addLayer (id : String) (layer : ImageLayer)
  | addResource (id : String) (resource : Resource)
  | removeMask (id : String)
  | removeLayer (id : String)
  | removeResource (id : String)

/-- `applyOp`, which throws where the path does not resolve. -/
def LayerPatch.apply : LayerPatch Resource → Option (ImageDocument Resource)
  | .replaceNextOrdinal ordinal => some { document with nextOrdinal := ordinal }
  | .setActorCursors cursors => some { document with actorCursors := some cursors }
  | .replaceRootLayerIds ids => some { document with rootLayerIds := ids }
  | .replaceChildLayerIds parent ids =>
    match document.layers.get parent with
    | some layer =>
      match layer.kind with
      | .group _ isolation => some { document with
          layers := document.layers.set parent { layer with kind := .group ids isolation } }
      | .raster _ _ => none
    | none => none
  | .addZIndex id index =>
    match document.layers.get id with
    | some layer =>
      if layer.z_index.isSome then none
      else some { document with
        layers := document.layers.set id { layer with z_index := some index } }
    | none => none
  | .replaceZIndex id index =>
    match document.layers.get id with
    | some layer =>
      if layer.z_index.isSome then some { document with
        layers := document.layers.set id { layer with z_index := some index } }
      else none
    | none => none
  | .addLayer id layer =>
    if (document.layers.get id).isSome then none
    else some { document with layers := document.layers.set id layer }
  | .addResource id resource =>
    if (document.resources.get id).isSome then none
    else some { document with resources := document.resources.set id resource }
  | .removeMask id =>
    if (document.masks.get id).isSome then
      some { document with masks := document.masks.erase id }
    else none
  | .removeLayer id =>
    if (document.layers.get id).isSome then
      some { document with layers := document.layers.erase id }
    else none
  | .removeResource id =>
    if (document.resources.get id).isSome then
      some { document with resources := document.resources.erase id }
    else none

def applyOwnedOps (patches : List (LayerPatch Resource)) : Option (ImageDocument Resource) :=
  patches.foldlM LayerPatch.apply document

inductive LayerCommand (Resource : Type) where
  | group (layerIds : List String) (name : String)
  | addRaster (parentId : Option String) (index : Int) (name : String) (resource : Resource)
      (sourceRect : ImageSourceRect)
  | move (layerId : String) (parentId : Option String) (index : Int)
  | remove (layerId : String)

/-- `layerParent`, without the children, which are those of `parentChildren`. -/
def layerParent (layerId : String) : Option (Option String) :=
  (document.parentLists.find? fun (_, ids) => layerId ∈ ids).map Prod.fst

/-- `parentChildren`: the children of a parent in their effective order. -/
def parentChildren (parentId : Option String) : Option (List String) :=
  match parentId with
  | none => some (orderedImageLayerIds document document.rootLayerIds)
  | some id =>
    match document.layers.get id with
    | some layer =>
      match layer.kind with
      | .group childLayerIds _ => some (orderedImageLayerIds document childLayerIds)
      | .raster _ _ => none
    | none => none

def layerOrderPatches (children : List String) : List (LayerPatch Resource) :=
  if children.any (fun id => (document.zIndex id).isSome) then
    children.zipIdx.filterMap fun (id, index) =>
      match document.zIndex id with
      | some previous => if previous = index then none else some (.replaceZIndex id index)
      | none => some (.addZIndex id index)
  else []

def parentListPatches (parentId : Option String)
    (children : List String) : List (LayerPatch Resource) :=
  (match parentId with
    | none => .replaceRootLayerIds children
    | some id => .replaceChildLayerIds id children) :: layerOrderPatches document children

def allocateIds (actor : Option String)
    (prefixes : List String) : List String × LayerPatch Resource :=
  match actor with
  | none =>
    (prefixes.zipIdx.map fun (letter, index) => letter ++ toString (document.nextOrdinal + index),
      .replaceNextOrdinal (document.nextOrdinal + prefixes.length))
  | some actor =>
    let cursors := document.actorCursors.getD []
    let ordinal := (cursors.get actor).getD 0
    (prefixes.zipIdx.map fun (letter, index) =>
        letter ++ toString (ordinal + index) ++ "-" ++ actor,
      .setActorCursors (cursors.set actor (ordinal + prefixes.length)))

/-- A layer as a command makes it. -/
def newLayer (kind : LayerKind) (name : String) : ImageLayer where
  kind := kind
  name := name
  visible := true
  opacity := 65535
  transform := ⟨1000000, 0, 0, 1000000, 0, 0⟩
  blendMode := "normal"
  clipping := "none"
  maskIds := []
  z_index := none

def descendantIds (rootId : String) : List String :=
  closure document.childIds (document.layers.map Prod.fst) [rootId]

def referencedResources (excludedLayers excludedMasks : List String) : List String :=
  (document.layers.filterMap fun (id, layer) =>
    match layer.kind with
    | .raster resourceId _ => if id ∈ excludedLayers then none else some resourceId
    | .group _ _ => none) ++
  document.masks.filterMap fun (id, mask) =>
    if id ∈ excludedMasks ∨ mask.ownerLayerId ∈ excludedLayers then none else some mask.resourceId

def inRange (index : Int) (children : List String) : Bool :=
  0 ≤ index && index ≤ children.length

/-- What `commandPatches` makes of a command: patches, and the id of a created layer. -/
structure Planned (Resource : Type) where
  patches : List (LayerPatch Resource)
  created : Option String

/-- `image.layer.group`. -/
def groupPatches (actor : Option String)
    (layerIds : List String) (name : String) : Option (Planned Resource) := do
  let first ← layerIds.head?
  if ¬ layerIds.Nodup then none
  let parent ← layerParent document first
  if ¬ ∀ id ∈ layerIds, layerParent document id = some parent then none
  let siblings ← parentChildren document parent
  let children := siblings.filter (· ∈ layerIds)
  let index := siblings.idxOf (children.headD "")
  if (siblings.drop index).take children.length ≠ children then none
  let (ids, allocation) := allocateIds document actor ["l"]
  let layerId := ids.headD ""
  return ⟨allocation :: .addLayer layerId (newLayer (.group children none) name) ::
      (parentListPatches document parent
        (siblings.take index ++ layerId :: siblings.drop (index + children.length)) ++
      layerOrderPatches document children), some layerId⟩

/-- `image.layer.addRaster`. -/
def addRasterPatches (actor : Option String)
    (parentId : Option String) (index : Int) (name : String) (resource : Resource)
    (sourceRect : ImageSourceRect) : Option (Planned Resource) := do
  let children ← parentChildren document parentId
  if ¬ inRange index children then none
  let (ids, allocation) := allocateIds document actor ["r", "l"]
  let resourceId := ids.headD ""
  let layerId := ids.tail.headD ""
  return ⟨allocation :: .addResource resourceId resource ::
      .addLayer layerId (newLayer (.raster resourceId sourceRect) name) ::
      parentListPatches document parentId (children.insertIdx index.toNat layerId), some layerId⟩

/-- `image.layer.move`. -/
def movePatches (layerId : String) (parentId : Option String)
    (index : Int) : Option (Planned Resource) := do
  let source ← layerParent document layerId
  let siblings ← parentChildren document source
  let destination ← parentChildren document parentId
  let sourceChildren := siblings.filter (· ≠ layerId)
  let destinationChildren := if source = parentId then sourceChildren else destination
  if ¬ inRange index destinationChildren then none
  let inserted := destinationChildren.insertIdx index.toNat layerId
  return if source = parentId then ⟨parentListPatches document source inserted, none⟩
    else ⟨parentListPatches document source sourceChildren ++
      parentListPatches document parentId inserted, none⟩

/-- `image.layer.remove`. -/
def removePatches (layerId : String) : Option (Planned Resource) := do
  let _ ← document.layers.get layerId
  let parent ← layerParent document layerId
  let siblings ← parentChildren document parent
  let removedLayers := descendantIds document layerId
  let layers := removedLayers.filterMap document.layers.get
  let removedMasks := (layers.flatMap (·.maskIds)).eraseDups
  let referenced := referencedResources document removedLayers removedMasks
  let removedResources := ((layers.filterMap fun layer =>
    match layer.kind with
    | .raster resourceId _ => some resourceId
    | .group _ _ => none) ++
    (removedMasks.filterMap document.masks.get).map (·.resourceId)).eraseDups
  return ⟨parentListPatches document parent (siblings.filter (· ≠ layerId)) ++
    (removedMasks.map .removeMask ++ removedLayers.map .removeLayer ++
      (removedResources.filter (· ∉ referenced)).map .removeResource), none⟩

/-- `commandPatches`, for the commands that change the tree of layers. -/
def commandPatches (actor : Option String) : LayerCommand Resource → Option (Planned Resource)
  | .group layerIds name => groupPatches document actor layerIds name
  | .addRaster parentId index name resource sourceRect =>
    addRasterPatches document actor parentId index name resource sourceRect
  | .move layerId parentId index => movePatches document layerId parentId index
  | .remove layerId => removePatches document layerId

/-- `planImageDocumentCommand`: the next document and the id of the created layer. -/
def planImageDocumentCommand (document : ImageDocument Resource) (actor : Option String)
    (command : LayerCommand Resource) : Option (ImageDocument Resource × Option String) := do
  let planned ← commandPatches document actor command
  let next ← applyOwnedOps document planned.patches
  if accepts others next then return (next, planned.created) else none

end Dinkster.Image.Layers
