import Dinkster.Image.Order
import Dinkster.Image.Validity
import Dinkster.Library.Edits

/-!
# The places of image documents

Commands patch paths of the content of a document.  Each is a cell: it can be read and written,
and a write to one leaves every other alone that does not overlap it.
-/

namespace Dinkster.Image.Undo

open Library Format Option
open Layers (LayerKind)

/-- The paths that commands patch. -/
inductive ImageField where
  | canvas
  | rootLayerIds
  | childLayerIds (id : String)
  | zIndex (id : String)
  | transform (id : String)
  | layer (id : String)
  | mask (id : String)
  | resource (id : String)
  | extensions
  | extension (name : String)

namespace ImageField

/-- What is at a path. -/
def Content : ImageField → Type
  | .canvas => ImageCanvas
  | .rootLayerIds | .childLayerIds _ => List String
  | .zIndex _ => Option Int
  | .transform _ => ImageTransform
  | .layer _ => Option ImageLayer
  | .mask _ => Option ImageRasterMask
  | .resource _ => Option ImageRasterResource
  | .extensions => Option (Record Json)
  | .extension _ => Option Json

def filled : (field : ImageField) → field.Content → Bool
  | .canvas, _ | .rootLayerIds, _ | .childLayerIds _, _ | .transform _, _ => true
  | .zIndex _, value => Option.isSome value
  | .layer _, value => Option.isSome value
  | .mask _, value => Option.isSome value
  | .resource _, value => Option.isSome value
  | .extensions, value => Option.isSome value
  | .extension _, value => Option.isSome value

/-- Whether the path leads anywhere: a layer or the extensions may be missing, and only a group
has children. -/
def present : ImageField → ImageContent → Bool
  | .childLayerIds id, content =>
    (content.layers.get id).any fun stored =>
      match stored.kind with
      | .group _ _ => true
      | .raster _ _ => false
  | .zIndex id, content | .transform id, content => (content.layers.get id).isSome
  | .extension _, content => content.extensions.isSome
  | _, _ => true

def children : LayerKind → List String
  | .group ids _ => ids
  | .raster _ _ => []

def identity : ImageTransform where
  matrix := ⟨1000000, 0, 0, 1000000, 0, 0⟩
  components := none

def read : (field : ImageField) → ImageContent → field.Content
  | .canvas, content => content.canvas
  | .rootLayerIds, content => content.rootLayerIds
  | .childLayerIds id, content => (content.layers.get id).elim [] fun stored => children stored.kind
  | .zIndex id, content => (content.layers.get id).bind (·.z_index)
  | .transform id, content => (content.layers.get id).elim identity (·.placement)
  | .layer id, content => content.layers.get id
  | .mask id, content => content.masks.get id
  | .resource id, content => content.resources.get id
  | .extensions, content => content.extensions
  | .extension name, content => content.extensions.bind (·.get name)

end ImageField

def ImageContent.mapLayer (content : ImageContent) (id : String) (change : ImageLayer → ImageLayer) :
    ImageContent :=
  { content with layers := content.layers.write id ((content.layers.get id).map change) }

def ImageField.write : (field : ImageField) → field.Content → ImageContent → ImageContent
  | .canvas, value, content => { content with canvas := value }
  | .rootLayerIds, ids, content => { content with rootLayerIds := ids }
  | .childLayerIds id, ids, content =>
    content.mapLayer id fun stored => { stored with kind := stored.kind.withChildren ids }
  | .zIndex id, value, content => content.mapLayer id fun stored => { stored with z_index := value }
  | .transform id, value, content => content.mapLayer id (·.withPlacement value)
  | .layer id, value, content => { content with layers := content.layers.write id value }
  | .mask id, value, content => { content with masks := content.masks.write id value }
  | .resource id, value, content => { content with resources := content.resources.write id value }
  | .extensions, value, content => { content with extensions := value }
  | .extension name, value, content =>
    { content with extensions := content.extensions.map (·.write name value) }

theorem ImageContent.get_mapLayer (content : ImageContent) (id other : String)
    (change : ImageLayer → ImageLayer) : (content.mapLayer id change).layers.get other =
      if id = other then (content.layers.get id).map change else content.layers.get other :=
  Record.get_write content.layers id other _

variable {content : ImageContent}

variable {id : String}

theorem ImageContent.get_mapLayer_self {layer : ImageLayer} (change : ImageLayer → ImageLayer)
    (known : content.layers.get id = some layer) :
    (content.mapLayer id change).layers.get id = some (change layer) := by
  rw [get_mapLayer, if_pos rfl, known]
  rfl

theorem ImageContent.mapLayer_mapLayer {first second : ImageLayer → ImageLayer}
    (hides : ∀ layer, second (first layer) = second layer) :
    (content.mapLayer id first).mapLayer id second = content.mapLayer id second := by
  unfold mapLayer
  rw [Record.get_write_self, Record.write_write, map_map]
  congr 2
  exact congrArg (Option.map · _) (funext hides)

theorem ImageContent.mapLayer_eq_self {change : ImageLayer → ImageLayer}
    (same : ∀ layer, content.layers.get id = some layer → change layer = layer) :
    content.mapLayer id change = content := by
  unfold mapLayer
  have kept : (content.layers.get id).map change = content.layers.get id := by
    cases stored : content.layers.get id with
    | none => rfl
    | some layer => exact congrArg some (same layer stored)
  rw [kept, Record.write_get]

namespace ImageField

variable {field : ImageField} {content : ImageContent}

theorem unfilled {left right : field.Content} (noLeft : field.filled left = false)
    (noRight : field.filled right = false) : left = right := by
  have none_of {Value : Type} {value : Option Value} (no : value.isSome = false) : value = none :=
    not_isSome_iff_eq_none.mp (Bool.eq_false_iff.mp no)
  cases field with
  | canvas | rootLayerIds | childLayerIds _ | transform _ => cases noLeft
  | zIndex _ | layer _ | mask _ | resource _ | extensions | extension _ =>
    exact (none_of noLeft).trans (none_of noRight).symm

section Stored

variable {content : ImageContent} {id : String} {stored : ImageLayer}
  (known : content.layers.get id = some stored)

include known

theorem read_childLayerIds : read (.childLayerIds id) content = children stored.kind := by
  change (content.layers.get id).elim [] _ = _
  rw [known]
  rfl

theorem read_zIndex : read (.zIndex id) content = stored.z_index := by
  change (content.layers.get id).bind _ = _
  rw [known]
  rfl

theorem read_transform : read (.transform id) content = stored.placement := by
  change (content.layers.get id).elim identity _ = _
  rw [known]
  rfl

end Stored

theorem read_write (value : field.Content) (there : field.present content = true) :
    field.read (field.write value content) = value := by
  cases field with
  | canvas | rootLayerIds | extensions => rfl
  | layer id => exact Record.get_write_self content.layers id value
  | mask id => exact Record.get_write_self content.masks id value
  | resource id => exact Record.get_write_self content.resources id value
  | childLayerIds id =>
    obtain ⟨stored, known, group⟩ := (any_eq_true _ _).mp there
    refine (read_childLayerIds (ImageContent.get_mapLayer_self _ known)).trans ?_
    cases kind : stored.kind with
    | raster resourceId sourceRect => simp [kind] at group
    | group ids isolation => rfl
  | zIndex id =>
    obtain ⟨stored, known⟩ := isSome_iff_exists.mp there
    exact read_zIndex (ImageContent.get_mapLayer_self _ known)
  | transform id =>
    obtain ⟨stored, known⟩ := isSome_iff_exists.mp there
    exact read_transform (ImageContent.get_mapLayer_self _ known)
  | extension name =>
    obtain ⟨stored, known⟩ := isSome_iff_exists.mp there
    change (content.extensions.map (·.write name value)).bind (·.get name) = value
    rw [known]
    exact Record.get_write_self stored name value

theorem present_write (value : field.Content) (there : field.present content = true) :
    field.present (field.write value content) = true := by
  cases field with
  | canvas | rootLayerIds | extensions | layer _ | mask _ | resource _ => rfl
  | childLayerIds id =>
    obtain ⟨stored, known, group⟩ := (any_eq_true _ _).mp there
    unfold present write
    dsimp only
    rw [ImageContent.get_mapLayer, if_pos rfl, known]
    cases kind : stored.kind with
    | raster resourceId sourceRect => simp [kind] at group
    | group ids isolation => simp [kind, LayerKind.withChildren]
  | zIndex id | transform id =>
    unfold present write
    dsimp only
    rw [ImageContent.get_mapLayer, if_pos rfl, isSome_map]
    exact there
  | extension name =>
    unfold present write
    dsimp only
    rw [isSome_map]
    exact there

theorem write_write (first second : field.Content) :
    field.write second (field.write first content) = field.write second content := by
  cases field with
  | canvas | rootLayerIds | extensions => rfl
  | layer id => exact congrArg (ImageContent.mk _ _ _ · _ _ _) (Record.write_write _ id first second)
  | mask id => exact congrArg (ImageContent.mk _ _ _ _ · _ _) (Record.write_write _ id first second)
  | resource id =>
    exact congrArg (ImageContent.mk _ _ _ _ _ · _) (Record.write_write _ id first second)
  | zIndex id | transform id => exact ImageContent.mapLayer_mapLayer fun _ => rfl
  | childLayerIds id =>
    refine ImageContent.mapLayer_mapLayer fun stored => ?_
    cases stored.kind <;> simp [LayerKind.withChildren]
  | extension name =>
    refine congrArg (ImageContent.mk _ _ _ _ _ _ ·) ?_
    change (content.extensions.map (·.write name first)).map (·.write name second) =
      content.extensions.map (·.write name second)
    rw [map_map]
    exact congrArg (Option.map · _) (funext fun _ => Record.write_write _ name first second)

theorem write_read (there : field.present content = true) :
    field.write (field.read content) content = content := by
  cases field with
  | canvas | rootLayerIds | extensions => rfl
  | layer id => exact congrArg (ImageContent.mk _ _ _ · _ _ _) (Record.write_get _ id)
  | mask id => exact congrArg (ImageContent.mk _ _ _ _ · _ _) (Record.write_get _ id)
  | resource id => exact congrArg (ImageContent.mk _ _ _ _ _ · _) (Record.write_get _ id)
  | zIndex id =>
    refine ImageContent.mapLayer_eq_self fun stored known => ?_
    rw [read_zIndex known]
  | transform id =>
    refine ImageContent.mapLayer_eq_self fun stored known => ?_
    rw [read_transform known]
    rfl
  | childLayerIds id =>
    refine ImageContent.mapLayer_eq_self fun stored known => ?_
    rw [read_childLayerIds known]
    cases kind : stored.kind with
    | group ids isolation =>
      change { stored with kind := .group ids isolation } = stored
      rw [← kind]
    | raster resourceId sourceRect =>
      change { stored with kind := .raster resourceId sourceRect } = stored
      rw [← kind]
  | extension name =>
    refine congrArg (ImageContent.mk _ _ _ _ _ _ ·) ?_
    obtain ⟨stored, known⟩ := isSome_iff_exists.mp there
    change content.extensions.map (·.write name (content.extensions.bind (·.get name))) =
      content.extensions
    rw [known]
    exact congrArg some (Record.write_get stored name)

end ImageField

def imageCells : Cells ImageContent ImageField where
  Content := ImageField.Content
  filled := ImageField.filled
  present := ImageField.present
  read := ImageField.read
  write := ImageField.write
  unfilled := ImageField.unfilled
  read_write := ImageField.read_write
  present_write := ImageField.present_write
  write_write := fun first second _ => ImageField.write_write first second
  write_read := ImageField.write_read

end Dinkster.Image.Undo
