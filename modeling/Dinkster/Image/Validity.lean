import Dinkster.Format.Ids
import Dinkster.Image.Content
import Dinkster.Image.Document

/-!
# Valid image documents

The loader limits the size of a document, and checks its shape and its invariants.  Ids are
checked against the cursors of the allocation, and nothing else in the content depends on it.
-/

namespace Dinkster.Image.Undo

open Library Format
open Layers (ImageSourceRect LayerKind)

/-- What the loader uses of its platform: the length of a printed number, and the hexadecimal
BLAKE3 hash of some bytes. -/
structure Platform where
  numberBytes : Rat → Nat
  blake3 : List Nat → String

def maxSafeInteger : Int := 9007199254740991

def isSafeInteger (value : Int) : Bool :=
  -maxSafeInteger ≤ value && value ≤ maxSafeInteger

/-- `ShapeChecker.integer`. -/
def within (value low high : Int) : Bool :=
  low ≤ value && value ≤ high

/-- `ShapeChecker.string`: NUL is not allowed. -/
def isText (text : String) : Bool :=
  text.toList.all (· ≠ '\x00')

/-- `ShapeChecker.string`, for a text that is not empty. -/
def isName (text : String) : Bool :=
  text ≠ "" && isText text

/-- `MAX_IMAGE_CANVAS_DIMENSION`. -/
def maxDimension : Int := 16384

/-- `MAX_IMAGE_PIXELS`. -/
def maxPixels : Int := 100000000

/-- `MAX_IMAGE_LINEAR_COMPONENT`. -/
def maxLinear : Int := 1000 * 1000000

/-- `MAX_IMAGE_TRANSLATION`. -/
def maxTranslation : Int := 16384 * 64 * 1000000

/-- `MAX_IMAGE_LAYERS`. -/
def maxLayers : Nat := 4096

/-- `MAX_IMAGE_MASKS_PER_LAYER`. -/
def maxMasksPerLayer : Nat := 32

/-- `MAX_IMAGE_RESOURCES`. -/
def maxResources : Nat := 8192

/-- `IMAGE_BLEND_MODES`. -/
def blendModes : List String :=
  ["normal", "dissolve", "multiply", "screen", "overlay", "darken", "lighten", "color_dodge",
    "color_burn", "hard_light", "soft_light", "difference", "exclusion", "linear_dodge",
    "linear_burn", "vivid_light", "pin_light", "linear_light", "hard_mix", "subtract", "divide",
    "grain_extract", "grain_merge", "hue", "saturation", "color", "luminosity"]

def isTransformDimension (value : Rat) : Bool :=
  0 < value && value ≤ maxDimension

def checkTransform (transform : ImageTransform) : Bool :=
  [transform.matrix.a, transform.matrix.b, transform.matrix.c, transform.matrix.d].all
      (within · (-maxLinear) maxLinear) &&
    [transform.matrix.tx, transform.matrix.ty].all (within · (-maxTranslation) maxTranslation) &&
    transform.components.all fun components =>
      [components.width, components.height, components.sourceWidth, components.sourceHeight].all
        isTransformDimension

def checkSourceRect (rect : ImageSourceRect) : Bool :=
  within rect.x 0 maxDimension && within rect.y 0 maxDimension &&
    within rect.width 1 maxDimension && within rect.height 1 maxDimension

def checkIdList (ids : List String) (maximum : Nat) : Bool :=
  ids.length ≤ maximum && ids.all isName

/-- What `checkLayer` checks of a kind. -/
def checkKind : LayerKind → Bool
  | .group childLayerIds isolation =>
    isolation.all (· ∈ ["isolated", "pass-through"]) && checkIdList childLayerIds maxLayers
  | .raster resourceId sourceRect => isName resourceId && checkSourceRect sourceRect

def checkLayer (layer : ImageLayer) : Bool :=
  layer.z_index.all isSafeInteger && isText layer.name && layer.opacity ≤ 65535 &&
    checkTransform layer.placement && layer.blendMode ∈ blendModes &&
    layer.clipping ∈ ["none", "clip-to-previous"] &&
    checkIdList layer.maskIds maxMasksPerLayer && checkKind layer.kind

def checkMask (mask : ImageRasterMask) : Bool :=
  isName mask.ownerLayerId && mask.opacity ≤ 65535 && checkTransform mask.transform &&
    mask.combineMode ∈ ["multiply", "add", "subtract", "intersect"] &&
    mask.channel ∈ ["alpha", "luminance"] && isName mask.resourceId &&
    checkSourceRect mask.sourceRect

/-- The value of a character of base64. -/
def base64Digit? (char : Char) : Option Nat :=
  if 'A' ≤ char ∧ char ≤ 'Z' then some (char.toNat - 65)
  else if 'a' ≤ char ∧ char ≤ 'z' then some (char.toNat - 71)
  else if '0' ≤ char ∧ char ≤ '9' then some (char.toNat + 4)
  else if char = '+' then some 62
  else if char = '/' then some 63
  else none

/-- The bytes of a padded base64 text, which is the `btoa` of them: no bit is left behind. -/
def decodeBase64 : List Char → Option (List Nat)
  | [] => some []
  | [first, second, '=', '='] => do
    let high ← base64Digit? first
    let low ← base64Digit? second
    if low % 16 = 0 then some [high * 4 + low / 16] else none
  | [first, second, third, '='] => do
    let high ← base64Digit? first
    let middle ← base64Digit? second
    let low ← base64Digit? third
    if low % 4 = 0 then some [high * 4 + middle / 16, middle % 16 * 16 + low / 4] else none
  | first :: second :: third :: fourth :: rest => do
    let high ← base64Digit? first
    let middle ← base64Digit? second
    let low ← base64Digit? third
    let last ← base64Digit? fourth
    let bytes ← decodeBase64 rest
    return [high * 4 + middle / 16, middle % 16 * 16 + low / 4, low % 4 * 64 + last] ++ bytes
  | _ => none

/-- `DIGEST_PATTERN`. -/
def isDigest (digest : String) : Bool :=
  digest.toList.take 7 = "blake3:".toList && (digest.toList.drop 7).length = 64 &&
    (digest.toList.drop 7).all fun char => ('0' ≤ char && char ≤ '9') || ('a' ≤ char && char ≤ 'f')

section Loading

variable (platform : Platform)

variable (resource : ImageRasterResource)

/-- What `checkResource` checks of inline bytes. -/
def checkInline (inline : String) : Bool :=
  isText inline && codeUnits inline ≤ 5464 &&
    (decodeBase64 inline.toList).any fun bytes =>
      bytes.length ≤ 4096 && (bytes.length : Int) = resource.byteSize &&
        "blake3:" ++ platform.blake3 bytes = resource.digest

def checkResource : Bool :=
  resource.inline.all (checkInline platform resource) && isDigest resource.digest &&
    within resource.byteSize 1 maxSafeInteger &&
    resource.mediaType ∈ ["image/png", "image/jpeg", "image/webp"] &&
    within resource.width 1 maxDimension && within resource.height 1 maxDimension &&
    resource.width * resource.height ≤ maxPixels &&
    resource.alphaMode ∈ ["straight", "premultiplied", "opaque"]

def checkRecord {Value : Type} (record : Record Value) (maximum : Nat) (check : Value → Bool) :
    Bool :=
  record.entries.length ≤ maximum && record.entries.all fun (id, value) => isName id && check value

/-- What `validateImageDocumentShape` checks of a canvas. -/
def checkCanvas (canvas : ImageCanvas) : Bool :=
  (canvas.color.all fun color =>
    ([color.primaries, color.transfer, color.range] ++ color.matrix.toList ++
      color.bit_depth.toList).all (within · 0 maxSafeInteger)) &&
    (canvas.background.all fun components =>
      components.length = 4 && components.all (within · 0 65535)) &&
    within canvas.width 1 maxDimension && within canvas.height 1 maxDimension &&
    canvas.width * canvas.height ≤ maxPixels &&
    canvas.compositing ∈ ["premultiplied-alpha", "linear-premultiplied-alpha"]

variable (allocation : ImageAllocation)

/-- What `validateImageDocumentShape` checks of an allocation. -/
def checkAllocation : Bool :=
  within allocation.nextOrdinal 0 maxSafeInteger &&
    (allocation.actorCursors.getD []).all fun (actor, cursor) =>
      isValidActorId actor && within cursor 0 maxSafeInteger

variable (content : ImageContent)

/-- `validateImageDocumentShape`, for everything but the allocation. -/
def checkShape : Bool :=
  isName content.lineage && checkCanvas content.canvas &&
    checkIdList content.rootLayerIds maxLayers &&
    checkRecord content.layers maxLayers checkLayer &&
    checkRecord content.masks (maxLayers * maxMasksPerLayer) checkMask &&
    checkRecord content.resources maxResources (checkResource platform)

structure AllocatedId where
  letters : List Char
  ordinal : Nat
  actor : Option String
  deriving DecidableEq

def parseAllocatedId (id : String) : Option AllocatedId :=
  let letters := id.toList.takeWhile fun char => 'a' ≤ char && char ≤ 'z'
  let rest := id.toList.drop letters.length
  let digits := rest.takeWhile Char.isDigit
  let ordinal : Nat := digits.foldl (fun value digit => value * 10 + (digit.toNat - 48)) 0
  if letters = [] ∨ digits = [] then none
  else if (ordinal : Int) > maxSafeInteger ∨ digits ≠ (toString ordinal).toList then none
  else
    match rest.drop digits.length with
    | [] => some ⟨letters, ordinal, none⟩
    | '-' :: actor =>
      if isValidActorId (String.ofList actor) then
        some ⟨letters, ordinal, some (String.ofList actor)⟩
      else none
    | _ => none

/-- The next ordinal of an actor, or of nobody. -/
def ImageAllocation.cursor (actor : Option String) : Nat :=
  match actor with
  | none => allocation.nextOrdinal
  | some actor => ((allocation.actorCursors.getD []).get actor).getD 0

def ImageContent.ids : List (String × Char) :=
  content.layers.entries.map (fun (id, _) => (id, 'l')) ++
    content.masks.entries.map (fun (id, _) => (id, 'm')) ++
    content.resources.entries.map fun (id, _) => (id, 'r')

variable (document : ImageDocument)

def checkAllocatedIds : Bool :=
  (document.content.ids.all fun (id, letter) =>
    (parseAllocatedId id).any fun parsed =>
      parsed.letters = [letter] && parsed.ordinal < document.allocation.cursor parsed.actor) &&
    decide ((document.content.ids.filterMap fun (id, _) =>
      (parseAllocatedId id).map fun parsed => (parsed.actor, parsed.ordinal)).Nodup)

/-- Whether no layer is deeper than a number of levels. -/
def withinDepth (children : String → List String) : Nat → List String → Bool
  | 0, ids => ids.isEmpty
  | depth + 1, ids => withinDepth children depth (ids.flatMap children)

/-- `checkLayerTree`: `MAX_IMAGE_LAYER_DEPTH` limits the depth. -/
def checkTree : Bool :=
  Layers.checkLayerTree content.tree &&
    withinDepth content.tree.childIds 64 content.rootLayerIds

/-- `checkResourceReference`. -/
def checkReference (resourceId : String) (rect : ImageSourceRect) : Bool :=
  (content.resources.get resourceId).any fun resource =>
    rect.x + rect.width ≤ resource.width && rect.y + rect.height ≤ resource.height

def checkMasksAndResources : Bool :=
  (content.layers.entries.all fun (id, layer) =>
    decide layer.maskIds.Nodup &&
      (layer.maskIds.all fun maskId =>
        (content.masks.get maskId).any (·.ownerLayerId = id)) &&
      match layer.kind with
      | .raster resourceId sourceRect => checkReference content resourceId sourceRect
      | .group _ _ => true) &&
    (content.masks.entries.all fun (id, mask) =>
      (content.layers.entries.flatMap fun (_, layer) => layer.maskIds).count id = 1 &&
        (content.layers.get mask.ownerLayerId).isSome &&
        checkReference content mask.resourceId mask.sourceRect) &&
    content.resources.entries.all fun (_, resource) =>
      resource.mediaType ≠ "image/jpeg" || resource.alphaMode = "opaque"

def checkContent : Bool :=
  checkShape platform content && checkTree content && checkMasksAndResources content

def checkImageDocument : Bool :=
  checkAllocation document.allocation && checkAllocatedIds document &&
    checkContent platform document.content

/-- Whether a document is within the limits of the loader: those of `ownJson`, and
`MAX_IMAGE_DOCUMENT_BYTES` for its canonical encoding. -/
def withinLimits : Bool :=
  (ownJsonWithin imageLimits document.toJson).toOption.isSome &&
    canonicalBytes platform.numberBytes document.toJson ≤ maxImageDocumentBytes

/-- `loadImageDocument` returns the document. -/
def loads : Bool :=
  withinLimits platform document && checkImageDocument platform document

end Loading

end Dinkster.Image.Undo
