import Dinkster.Image.Places

/-!
# Commands on image documents

A command makes patches of a document.  Those of the allocation are applied and then forgotten:
the patches that redo a command, and their inverses, are edits of the content.
-/

namespace Dinkster.Image.Undo

open Library Format
open Layers (ImageAffineTransform ImageSourceRect LayerCommand LayerKind LayerPatch)

/-- A patch operation.  What it displaces is recorded for edits of the content alone. -/
inductive ImagePatch where
  | nextOrdinal (ordinal : Nat)
  | actorCursors (cursors : Table Nat)
  | content (edit : Edit imageCells)

def ImagePatch.edit? : ImagePatch → Option (Edit imageCells)
  | .content edit => some edit
  | _ => none

/-- `applyOp`. -/
def ImagePatch.apply (document : ImageDocument) : ImagePatch → Option ImageDocument
  | .nextOrdinal ordinal =>
    some { document with allocation := { document.allocation with nextOrdinal := ordinal } }
  | .actorCursors cursors =>
    some { document with allocation := { document.allocation with actorCursors := some cursors } }
  | .content edit =>
    (edit.apply document.content).map fun content => { document with content }

def applyOwnedOps : List ImagePatch → ImageDocument → Option ImageDocument
  | [], document => some document
  | patch :: rest, document => (patch.apply document).bind (applyOwnedOps rest)

variable (content : ImageContent)

def replace (field : ImageField) (value : field.Content) : ImagePatch :=
  .content ⟨field, field.read content, value⟩

def ofLayerPatch : LayerPatch ImageRasterResource → ImagePatch
  | .replaceNextOrdinal ordinal => .nextOrdinal ordinal
  | .setActorCursors cursors => .actorCursors cursors
  | .replaceRootLayerIds ids => replace content .rootLayerIds ids
  | .replaceChildLayerIds parent ids => replace content (.childLayerIds parent) ids
  | .addZIndex id index => .content ⟨.zIndex id, none, some index⟩
  | .replaceZIndex id index => replace content (.zIndex id) (some index)
  | .addLayer id layer => .content ⟨.layer id, none, some ⟨layer, none⟩⟩
  | .addResource id resource => .content ⟨.resource id, none, some resource⟩
  | .removeMask id => replace content (.mask id) none
  | .removeLayer id => replace content (.layer id) none
  | .removeResource id => replace content (.resource id) none

/-- What `image.layer.update` changes. -/
structure LayerChanges where
  name : Option String
  visible : Option Bool
  opacity : Option Nat
  blendMode : Option String
  clipping : Option String
  transform : Option ImageTransform
  z_index : Option Int
  isolation : Option String

/-- What `image.mask.update` changes. -/
structure MaskChanges where
  enabled : Option Bool
  invert : Option Bool
  opacity : Option Nat
  transform : Option ImageTransform
  combineMode : Option String
  channel : Option String

/-- `ImageDocumentCommand`, as it is decoded. -/
inductive ImageDocumentCommand where
  | canvasCrop (x y width height : Int)
  | canvasResize (width height : Int)
  | canvasUpdate (width height : Int) (compositing : Option String)
  | outputUpdate (format : String) (quality : Int)
  | layerTree (command : LayerCommand ImageRasterResource)
  | layerUpdate (layerId : String) (changes : LayerChanges)
  | maskUpdate (maskId : String) (changes : MaskChanges)
  | maskAddRaster (ownerLayerId : String) (index : Int) (resource : ImageRasterResource)
      (sourceRect : ImageSourceRect)
  | maskRemove (maskId : String)

/-- What `commandPatches` makes of a command: patches, and the ids it mints. -/
structure Planned where
  patches : List ImagePatch
  created : List String

/-- `divideRoundEven`, for a denominator that is positive. -/
def divideRoundEven (numerator denominator : Int) : Int :=
  let divisor := denominator.toNat
  let quotient := numerator.natAbs / divisor
  let doubled := 2 * (numerator.natAbs % divisor)
  let rounded : Nat :=
    if divisor < doubled ∨ doubled = divisor ∧ quotient % 2 = 1 then quotient + 1 else quotient
  if numerator < 0 then -rounded else rounded

def rootTransformPatches
    (transform : ImageAffineTransform → ImageAffineTransform) : List ImagePatch :=
  content.rootLayerIds.map fun id =>
    let previous := ImageField.read (.transform id) content
    replace content (.transform id) ⟨transform previous.matrix, none⟩

/-- `image.canvas.crop`. -/
def cropPatches (x y width height : Int) : Option Planned :=
  if 0 ≤ x ∧ 0 ≤ y ∧ 1 ≤ width ∧ 1 ≤ height ∧
      x + width ≤ content.canvas.width ∧ y + height ≤ content.canvas.height then
    some ⟨replace content .canvas { content.canvas with width, height } ::
      rootTransformPatches content fun value =>
        { value with tx := value.tx - x * 1000000, ty := value.ty - y * 1000000 }, []⟩
  else none

/-- `image.canvas.resize`. -/
def resizePatches (width height : Int) : Option Planned :=
  if isSafeInteger width ∧ isSafeInteger height ∧ 1 ≤ width ∧ 1 ≤ height then
    let across (value : Int) := divideRoundEven (value * width) content.canvas.width
    let down (value : Int) := divideRoundEven (value * height) content.canvas.height
    some ⟨replace content .canvas { content.canvas with width, height } ::
      rootTransformPatches content fun value =>
        { a := across value.a, b := down value.b, c := across value.c, d := down value.d
          tx := across value.tx, ty := down value.ty }, []⟩
  else none

/-- `image.canvas.update`. -/
def canvasPatches (width height : Int) (compositing : Option String) : Option Planned :=
  some ⟨[replace content .canvas { content.canvas with
    width, height, compositing := compositing.getD content.canvas.compositing }], []⟩

/-- `IMAGE_OUTPUT_POLICY_EXTENSION`. -/
def outputPolicyExtension : String := "dinkster.outputPolicy"

/-- `image.output.update`. -/
def outputPatches (format : String) (quality : Int) : Option Planned :=
  if format ∈ ["png", "jpeg", "webp"] ∧ 0 ≤ quality ∧ quality ≤ 100 then
    let policy : Json := .obj [("format", .str format), ("quality", jsonInt quality)]
    match content.extensions with
    | none => some ⟨[.content ⟨.extensions, none,
        some (Record.empty.write outputPolicyExtension (some policy))⟩], []⟩
    | some _ => some ⟨[replace content (.extension outputPolicyExtension) (some policy)], []⟩
  else none

def mintedLetters : LayerCommand ImageRasterResource → List String
  | .group _ _ => ["l"]
  | .addRaster _ _ _ _ _ => ["r", "l"]
  | .move _ _ _ | .remove _ => []

variable (document : ImageDocument)

def layerTreePatches (actor : Option String)
    (command : LayerCommand ImageRasterResource) : Option Planned :=
  (Layers.commandPatches document.tree actor command).map fun planned =>
    ⟨planned.patches.map (ofLayerPatch document.content),
      (Layers.allocateIds document.tree actor (mintedLetters command)).1⟩

def isolate (kind : LayerKind) (isolation : Option String) : Option LayerKind :=
  match isolation, kind with
  | none, kind => some kind
  | some isolation, .group childLayerIds _ => some (.group childLayerIds (some isolation))
  | some _, .raster _ _ => none

variable (changes : LayerChanges)

def LayerChanges.apply (layer : ImageLayer) : Option ImageLayer :=
  (isolate layer.kind changes.isolation).map fun kind =>
    ImageLayer.withPlacement
      { layer with
        kind
        name := changes.name.getD layer.name
        visible := changes.visible.getD layer.visible
        opacity := changes.opacity.getD layer.opacity
        blendMode := changes.blendMode.getD layer.blendMode
        clipping := changes.clipping.getD layer.clipping
        z_index := changes.z_index <|> layer.z_index }
      (changes.transform.getD layer.placement)

def LayerChanges.isEmpty : Bool :=
  changes.name.isNone && changes.visible.isNone && changes.opacity.isNone &&
    changes.blendMode.isNone && changes.clipping.isNone && changes.transform.isNone &&
    changes.z_index.isNone && changes.isolation.isNone

/-- `image.layer.update`. -/
def layerUpdatePatches (layerId : String) (changes : LayerChanges) : Option Planned := do
  if changes.isEmpty then none
  let layer ← content.layers.get layerId
  let changed ← changes.apply layer
  return ⟨[replace content (.layer layerId) (some changed)], []⟩

def MaskChanges.apply (changes : MaskChanges) (mask : ImageRasterMask) : ImageRasterMask :=
  { mask with
    enabled := changes.enabled.getD mask.enabled
    invert := changes.invert.getD mask.invert
    opacity := changes.opacity.getD mask.opacity
    transform := changes.transform.getD mask.transform
    combineMode := changes.combineMode.getD mask.combineMode
    channel := changes.channel.getD mask.channel }

def MaskChanges.isEmpty (changes : MaskChanges) : Bool :=
  changes.enabled.isNone && changes.invert.isNone && changes.opacity.isNone &&
    changes.transform.isNone && changes.combineMode.isNone && changes.channel.isNone

/-- `image.mask.update`. -/
def maskUpdatePatches (maskId : String) (changes : MaskChanges) : Option Planned := do
  if changes.isEmpty then none
  let mask ← content.masks.get maskId
  return ⟨[replace content (.mask maskId) (some (changes.apply mask))], []⟩

/-- `image.mask.addRaster`. -/
def maskAddPatches (actor : Option String) (ownerLayerId : String)
    (index : Int) (resource : ImageRasterResource) (sourceRect : ImageSourceRect) :
    Option Planned := do
  let content := document.content
  let owner ← content.layers.get ownerLayerId
  if ¬ Layers.inRange index owner.maskIds then none
  let (ids, allocation) := Layers.allocateIds document.tree actor ["r", "m"]
  let resourceId := ids.headD ""
  let maskId := ids.tail.headD ""
  let mask : ImageRasterMask :=
    { ownerLayerId, resourceId, sourceRect, enabled := true, invert := false, opacity := 65535
      transform := ImageField.identity, combineMode := "multiply", channel := "alpha" }
  return ⟨[ofLayerPatch content allocation,
    .content ⟨.resource resourceId, none, some resource⟩,
    .content ⟨.mask maskId, none, some mask⟩,
    replace content (.layer ownerLayerId)
      (some { owner with maskIds := owner.maskIds.insertIdx index.toNat maskId })], ids⟩

/-- `image.mask.remove`. -/
def maskRemovePatches (maskId : String) : Option Planned := do
  let content := document.content
  let mask ← content.masks.get maskId
  let owner ← content.layers.get mask.ownerLayerId
  let referenced := Layers.referencedResources document.tree [] [maskId]
  return ⟨replace content (.layer mask.ownerLayerId)
      (some { owner with maskIds := owner.maskIds.filter (· ≠ maskId) }) ::
    replace content (.mask maskId) none ::
    if mask.resourceId ∈ referenced then []
    else [replace content (.resource mask.resourceId) none], []⟩

def commandPatches (actor : Option String) : ImageDocumentCommand → Option Planned
  | .canvasCrop x y width height => cropPatches document.content x y width height
  | .canvasResize width height => resizePatches document.content width height
  | .canvasUpdate width height compositing =>
    canvasPatches document.content width height compositing
  | .outputUpdate format quality => outputPatches document.content format quality
  | .layerTree command => layerTreePatches document actor command
  | .layerUpdate layerId changes => layerUpdatePatches document.content layerId changes
  | .maskUpdate maskId changes => maskUpdatePatches document.content maskId changes
  | .maskAddRaster ownerLayerId index resource sourceRect =>
    maskAddPatches document actor ownerLayerId index resource sourceRect
  | .maskRemove maskId => maskRemovePatches document maskId

/-- `ImageDocumentCommandPlan`.  Its forward patches are `redo` and those of the allocation. -/
structure ImageDocumentCommandPlan where
  document : ImageDocument
  redo : List (Edit imageCells)
  inverse : List (Edit imageCells)
  created : List String

def planImageDocumentCommand (platform : Platform) (document : ImageDocument)
    (actor : Option String) (command : ImageDocumentCommand) : Option ImageDocumentCommandPlan := do
  if ¬ actor.all isValidActorId then none
  let planned ← commandPatches document actor command
  let next ← applyOwnedOps planned.patches document
  if ¬ loads platform next then none
  let redo := planned.patches.filterMap ImagePatch.edit?
  return { document := next, redo, inverse := Edit.inverses redo, created := planned.created }

end Dinkster.Image.Undo
