import Mathlib

/-!
# Type expressions

The type a port declares, and the canonical ids of the closed ones: `list<T>`,
`asset<T>`, `stream<T>` and `tuple<...>` over the names of concrete types.
-/

namespace Dinkster.Format

/-- Which element of a tuple is meant: one at a position, or the one an input chooses. -/
inductive TupleIndex where
  | position (value : Rat)
  | input (id : String)

inductive TypeExpr where
  | concrete (name : String)
  | union (names : List String)
  | wildcard
  | variable (templateId : String) (allowedTypes : Option (List TypeExpr))
  | list (element : TypeExpr)
  | asset (element : TypeExpr)
  | stream (element : TypeExpr)
  | tuple (elements : List TypeExpr)
  | familyTuple (input : String)
  | tupleElement (input : Option String) (element : Option TypeExpr) (index : TupleIndex)

variable (elementTypeId : String)

def listTypeId : String :=
  "list<" ++ elementTypeId ++ ">"

def assetTypeId : String :=
  "asset<" ++ elementTypeId ++ ">"

def streamTypeId : String :=
  "stream<" ++ elementTypeId ++ ">"

def parseParametricTypeId (typeId opening : String) : Option String :=
  let chars := typeId.toList
  if opening.toList.isPrefixOf chars ∧ chars.getLast? = some '>' ∧
      opening.toList.length + 1 < chars.length then
    some (String.ofList (chars.drop opening.toList.length).dropLast)
  else none

variable (typeId : String)

def parseListTypeId : Option String :=
  parseParametricTypeId typeId "list<"

def parseAssetTypeId : Option String :=
  parseParametricTypeId typeId "asset<"

def parseStreamTypeId : Option String :=
  parseParametricTypeId typeId "stream<"

mutual

def canonicalTypeIdOf : TypeExpr → Option String
  | .concrete name => some name
  | .tuple elements =>
    (canonicalTypeIds elements).map fun ids => "tuple<" ++ ",".intercalate ids ++ ">"
  | .list .wildcard => some "list<*>"
  | .list element => (canonicalTypeIdOf element).map listTypeId
  | .asset element => (canonicalTypeIdOf element).map assetTypeId
  | .stream element => (canonicalTypeIdOf element).map streamTypeId
  | _ => none

def canonicalTypeIds : List TypeExpr → Option (List String)
  | [] => some []
  | element :: rest =>
    match canonicalTypeIdOf element, canonicalTypeIds rest with
    | some id, some ids => some (id :: ids)
    | _, _ => none

end

def isAssetSourceTypeId : Bool :=
  (parseAssetTypeId typeId).isSome ||
    ((parseListTypeId typeId).bind parseAssetTypeId).isSome

def isAssetRefDestinationTypeId : Bool :=
  typeId = "ASSET" || (parseAssetTypeId typeId).isSome ||
    match parseListTypeId typeId with
    | some inner => inner = "ASSET" || (parseAssetTypeId inner).isSome
    | none => false

example : canonicalTypeIdOf (.list (.asset (.concrete "IMAGE"))) = some "list<asset<IMAGE>>" := by
  decide +kernel

example : isAssetSourceTypeId "list<asset<IMAGE>>" = true := by
  decide +kernel

end Dinkster.Format
