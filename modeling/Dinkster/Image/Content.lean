import Dinkster.Format.Json
import Dinkster.Image.Layers
import Dinkster.Library.Record

/-!
# The content of image documents

A document is its allocation, the cursors that ids are minted from, and its content, which is
everything else.  Its records are maps from ids: an entry stores no id of its own, since one that
differs from the key is refused.  What the limits of the loader measure is the document as JSON.
-/

namespace Dinkster.Image.Undo

open Library Format
open Layers (ImageAffineTransform ImageSourceRect LayerKind)

/-- `ImageCanvas.color`. -/
structure ImageCanvasColor where
  primaries : Int
  transfer : Int
  range : Int
  matrix : Option Int
  bit_depth : Option Int

/-- `ImageCanvas`, whose color space and channel depth are fixed. -/
structure ImageCanvas where
  width : Int
  height : Int
  compositing : String
  color : Option ImageCanvasColor
  background : Option (List Int)

/-- `ImageAffineTransform.components`. -/
structure TransformComponents where
  x : Rat
  y : Rat
  width : Rat
  height : Rat
  rotation : Rat
  flipHorizontal : Bool
  flipVertical : Bool
  sourceWidth : Rat
  sourceHeight : Rat

/-- `ImageAffineTransform`, with the components it was made of. -/
structure ImageTransform where
  matrix : ImageAffineTransform
  components : Option TransformComponents

structure ImageLayer extends Layers.ImageLayer where
  components : Option TransformComponents

structure ImageRasterMask extends Layers.ImageMask where
  enabled : Bool
  invert : Bool
  opacity : Nat
  transform : ImageTransform
  combineMode : String
  channel : String
  sourceRect : ImageSourceRect

/-- `ImageRasterResource`, whose color space and channel depth are fixed. -/
structure ImageRasterResource where
  digest : String
  byteSize : Int
  mediaType : String
  width : Int
  height : Int
  alphaMode : String
  inline : Option String

structure ImageAllocation where
  nextOrdinal : Nat
  actorCursors : Option (Table Nat)

/-- `ImageDocument`, without its allocation. -/
structure ImageContent where
  lineage : String
  canvas : ImageCanvas
  rootLayerIds : List String
  layers : Record ImageLayer
  masks : Record ImageRasterMask
  resources : Record ImageRasterResource
  extensions : Option (Record Json)

structure ImageDocument where
  allocation : ImageAllocation
  content : ImageContent

def ImageLayer.placement (layer : ImageLayer) : ImageTransform where
  matrix := layer.transform
  components := layer.components

def ImageLayer.withPlacement (layer : ImageLayer) (placement : ImageTransform) : ImageLayer :=
  { layer with transform := placement.matrix, components := placement.components }

def ImageContent.tree (content : ImageContent) : Layers.ImageDocument ImageRasterResource where
  nextOrdinal := 0
  actorCursors := none
  rootLayerIds := content.rootLayerIds
  layers := content.layers.entries.map fun (id, layer) => (id, layer.toImageLayer)
  masks := content.masks.entries.map fun (id, mask) => (id, mask.toImageMask)
  resources := content.resources.entries

def ImageDocument.tree (document : ImageDocument) : Layers.ImageDocument ImageRasterResource :=
  { document.content.tree with
    nextOrdinal := document.allocation.nextOrdinal
    actorCursors := document.allocation.actorCursors }

/-- An integer. -/
def jsonInt (value : Int) : Json := .num value

def jsonIds (ids : List String) : Json := .arr (ids.map .str)

/-- A property that may be absent. -/
def jsonOptional (name : String) (value : Option Json) : List (String × Json) :=
  (value.map fun value => (name, value)).toList

def jsonRecord {Value : Type} (encode : String → Value → Json) (record : Record Value) : Json :=
  .obj (record.entries.map fun (id, value) => (id, encode id value))

def ImageCanvasColor.toJson (color : ImageCanvasColor) : Json :=
  .obj ([("primaries", jsonInt color.primaries), ("transfer", jsonInt color.transfer),
    ("range", jsonInt color.range)] ++
    jsonOptional "matrix" (color.matrix.map jsonInt) ++
    jsonOptional "bit_depth" (color.bit_depth.map jsonInt))

def ImageCanvas.toJson (canvas : ImageCanvas) : Json :=
  .obj ([("width", jsonInt canvas.width), ("height", jsonInt canvas.height),
    ("colorSpace", .str "srgb"), ("channelDepth", jsonInt 8),
    ("compositing", .str canvas.compositing)] ++
    jsonOptional "color" (canvas.color.map (·.toJson)) ++
    jsonOptional "background" (canvas.background.map fun components =>
      .arr (components.map jsonInt)))

def TransformComponents.toJson (components : TransformComponents) : Json :=
  .obj [("x", .num components.x), ("y", .num components.y), ("width", .num components.width),
    ("height", .num components.height), ("rotation", .num components.rotation),
    ("flipHorizontal", .bool components.flipHorizontal),
    ("flipVertical", .bool components.flipVertical),
    ("sourceWidth", .num components.sourceWidth), ("sourceHeight", .num components.sourceHeight)]

def ImageTransform.toJson (transform : ImageTransform) : Json :=
  .obj ([("a", jsonInt transform.matrix.a), ("b", jsonInt transform.matrix.b),
    ("c", jsonInt transform.matrix.c), ("d", jsonInt transform.matrix.d),
    ("tx", jsonInt transform.matrix.tx), ("ty", jsonInt transform.matrix.ty)] ++
    jsonOptional "components" (transform.components.map (·.toJson)))

/-- `ImageSourceRect`. -/
def jsonSourceRect (rect : ImageSourceRect) : Json :=
  .obj [("x", jsonInt rect.x), ("y", jsonInt rect.y), ("width", jsonInt rect.width),
    ("height", jsonInt rect.height)]

def jsonKind : LayerKind → List (String × Json)
  | .group childLayerIds isolation =>
    [("kind", .str "group"), ("childLayerIds", jsonIds childLayerIds)] ++
      jsonOptional "isolation" (isolation.map .str)
  | .raster resourceId sourceRect =>
    [("kind", .str "raster"), ("resourceId", .str resourceId),
      ("sourceRect", jsonSourceRect sourceRect)]

def ImageLayer.toJson (id : String) (layer : ImageLayer) : Json :=
  .obj ([("id", .str id), ("name", .str layer.name), ("visible", .bool layer.visible),
    ("opacity", jsonInt layer.opacity), ("transform", layer.placement.toJson),
    ("blendMode", .str layer.blendMode), ("clipping", .str layer.clipping),
    ("maskIds", jsonIds layer.maskIds)] ++
    jsonOptional "z_index" (layer.z_index.map jsonInt) ++ jsonKind layer.kind)

def ImageRasterMask.toJson (id : String) (mask : ImageRasterMask) : Json :=
  .obj [("id", .str id), ("kind", .str "raster"), ("ownerLayerId", .str mask.ownerLayerId),
    ("enabled", .bool mask.enabled), ("invert", .bool mask.invert),
    ("opacity", jsonInt mask.opacity), ("transform", mask.transform.toJson),
    ("combineMode", .str mask.combineMode), ("channel", .str mask.channel),
    ("resourceId", .str mask.resourceId), ("sourceRect", jsonSourceRect mask.sourceRect)]

def ImageRasterResource.toJson (id : String) (resource : ImageRasterResource) : Json :=
  .obj ([("id", .str id), ("kind", .str "raster"), ("digest", .str resource.digest),
    ("byteSize", jsonInt resource.byteSize), ("mediaType", .str resource.mediaType),
    ("width", jsonInt resource.width), ("height", jsonInt resource.height),
    ("colorSpace", .str "srgb"), ("channelDepth", jsonInt 8),
    ("alphaMode", .str resource.alphaMode)] ++
    jsonOptional "inline" (resource.inline.map .str))

def ImageAllocation.toJson (allocation : ImageAllocation) : Json :=
  .obj (("nextOrdinal", jsonInt allocation.nextOrdinal) ::
    jsonOptional "actorCursors" (allocation.actorCursors.map fun cursors =>
      .obj (cursors.map fun (actor, cursor) => (actor, jsonInt cursor))))

def ImageDocument.toJson (document : ImageDocument) : Json :=
  .obj ([("format", .str "dinkster-image"), ("formatVersion", jsonInt 2),
    ("lineage", .str document.content.lineage), ("canvas", document.content.canvas.toJson),
    ("allocation", document.allocation.toJson),
    ("rootLayerIds", jsonIds document.content.rootLayerIds),
    ("layers", jsonRecord ImageLayer.toJson document.content.layers),
    ("masks", jsonRecord ImageRasterMask.toJson document.content.masks),
    ("resources", jsonRecord ImageRasterResource.toJson document.content.resources)] ++
    jsonOptional "extensions" (document.content.extensions.map
      (jsonRecord fun _ value => value)))

/-- How many bytes a character takes in a JSON string. -/
def jsonCharBytes (char : Char) : Nat :=
  if char = '"' ∨ char = '\\' then 2
  else if char.toNat < 32 then
    if char.toNat ∈ [8, 9, 10, 12, 13] then 2 else 6
  else char.utf8Size

def jsonStringBytes (text : String) : Nat :=
  2 + (text.toList.map jsonCharBytes).sum

section Encoding

variable (numberBytes : Rat → Nat)

mutual

/-- How many bytes `canonicalJson` makes of a value, which does not depend on the order of
properties.  `numberBytes` is the length of a printed number. -/
def canonicalBytes : Json → Nat
  | .null => 4
  | .bool value => if value then 4 else 5
  | .num value => numberBytes value
  | .str value => jsonStringBytes value
  | .arr items => 2 + (items.length - 1) + canonicalItemsBytes items
  | .obj fields => 2 + (fields.length - 1) + canonicalFieldsBytes fields

def canonicalItemsBytes : List Json → Nat
  | [] => 0
  | item :: rest => canonicalBytes item + canonicalItemsBytes rest

def canonicalFieldsBytes : List (String × Json) → Nat
  | [] => 0
  | (name, field) :: rest =>
    jsonStringBytes name + 1 + canonicalBytes field + canonicalFieldsBytes rest

end

theorem canonicalFieldsBytes_append (fields more : List (String × Json)) :
    canonicalFieldsBytes numberBytes (fields ++ more) =
      canonicalFieldsBytes numberBytes fields + canonicalFieldsBytes numberBytes more := by
  induction fields with
  | nil => exact (Nat.zero_add _).symm
  | cons entry rest ih => simp only [List.cons_append, canonicalFieldsBytes, ih, Nat.add_assoc]

end Encoding

end Dinkster.Image.Undo
