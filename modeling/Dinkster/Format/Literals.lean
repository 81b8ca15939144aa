import Dinkster.Format.Json

/-!
# Literal markers of the graph wire

An input of the emitted graph is a link `{ $link }`, a typed literal `{ $typed }`, an
exact integer `{ $int }`, or a plain literal.  The markers are ordinary JSON objects and
are recognised by their shape alone.
-/

namespace Dinkster.Format

/-- The digits of a decimal number, most significant first. -/
def decimalOf (digits : List Char) : Nat :=
  digits.foldl (fun total digit => total * 10 + (digit.toNat - '0'.toNat)) 0

/-- The integer of a text that matches `/^-?(?:0|[1-9][0-9]*)$/`. -/
def canonicalInteger? (text : String) : Option Int :=
  let (negative, digits) :=
    match text.toList with
    | '-' :: rest => (true, rest)
    | chars => (false, chars)
  if digits ≠ [] ∧ digits.all Char.isDigit ∧ (digits = ['0'] ∨ digits.head? ≠ some '0') then
    some (if negative then -(decimalOf digits : Int) else decimalOf digits)
  else none

/-- `isCanonicalUnsafeInteger`: a decimal text in the range of integer widgets that no
JavaScript number holds exactly. -/
def isCanonicalUnsafeInteger : Json → Bool
  | .str text =>
    match canonicalInteger? text with
    | some value =>
      -(2 ^ 63) ≤ value && value ≤ 2 ^ 64 - 1 &&
        (value < -(2 ^ 53 - 1) || 2 ^ 53 - 1 < value)
    | none => false
  | _ => false

/-- The digest of an asset: `/^blake3:[0-9a-f]{64}$/`. -/
def isAssetDigest (text : String) : Bool :=
  "blake3:".toList.isPrefixOf text.toList && text.toList.length = 71 &&
    (text.toList.drop 7).all fun char => char.isDigit || ('a' ≤ char && char ≤ 'f')

def Json.isText : Option Json → Bool
  | some (.str _) => true
  | _ => false

/-- `isAssetRefValue`: a complete, executable asset reference. -/
def isAssetRefValue : Json → Bool
  | .obj fields =>
    (match getField fields "digest" with
      | some (.str digest) => isAssetDigest digest
      | _ => false) &&
    Json.isText (getField fields "name") &&
    (match getField fields "size" with
      | some (.num size) => size.den = 1 && 0 ≤ size && size ≤ 2 ^ 53 - 1
      | _ => false) &&
    Json.isText (getField fields "mediaType") && Json.isText (getField fields "virtualPath")
  | _ => false

def typedLiteralWire (type : String) (value : Json) : Json :=
  .obj [("$typed", .obj [("type", .str type), ("value", value)])]

def parseTypedLiteralWire : Json → Option (String × Json)
  | .obj fields =>
    match getField fields "$typed" with
    | some (.obj stamp) =>
      match getField stamp "type", getField stamp "value" with
      | some (.str type), some value => some (type, value)
      | _, _ => none
    | _ => none
  | _ => none

variable (value : Json)

def decimalIntegerWire : Json :=
  .obj [("$int", value)]

def parseDecimalIntegerWire : Json → Option Json
  | .obj [("$int", value)] => if isCanonicalUnsafeInteger value then some value else none
  | _ => none

/-- The reserved pseudo-node of a region body, `DINKSTER_REGION_PSEUDO_NODE`. -/
def regionPseudoNode : String := "$region"

/-- `{ $link: { node, output } }`. -/
def linkWire (node output : String) : Json :=
  .obj [("$link", .obj [("node", .str node), ("output", .str output)])]

/-- `asDinksterLink`: the node and output an input value is read as a link to. -/
def asDinksterLink : Json → Option (String × String)
  | .obj fields =>
    match getField fields "$link" with
    | some (.obj link) =>
      match getField link "node", getField link "output" with
      | some (.str node), some (.str output) => some (node, output)
      | _, _ => none
    | _ => none
  | _ => none

/-- The value behind a typed or integer marker. -/
def unmarked : Json :=
  match parseDecimalIntegerWire value, parseTypedLiteralWire value with
  | some integer, _ => integer
  | none, some (_, inner) => inner
  | none, none => value

@[simp] theorem asDinksterLink_linkWire (node output : String) :
    asDinksterLink (linkWire node output) = some (node, output) := by
  simp [asDinksterLink, linkWire]

@[simp] theorem asDinksterLink_typedLiteralWire (type : String) (value : Json) :
    asDinksterLink (typedLiteralWire type value) = none := by
  simp [asDinksterLink, typedLiteralWire]

@[simp] theorem asDinksterLink_decimalIntegerWire :
    asDinksterLink (decimalIntegerWire value) = none := by
  simp [asDinksterLink, decimalIntegerWire]

example : isCanonicalUnsafeInteger (.str "9007199254740993") = true := by
  decide +kernel

end Dinkster.Format
