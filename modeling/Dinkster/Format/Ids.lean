import Mathlib

/-!
# Identifiers

Actor ids are embedded verbatim in allocated ids.  Occurrence keys join the
percent-encoded node ids of an instance path with dots.
-/

namespace Dinkster.Format

variable (char : Char)

/-- The characters of `ACTOR_ID_PATTERN`. -/
def isActorChar : Bool :=
  char.isAlphanum || char = '_' || char = '-'

def isValidActorId (actor : String) : Bool :=
  actor ≠ "" && actor ≠ "__proto__" && actor.toList.all isActorChar

/-- The value of a hexadecimal digit. -/
def hexDigit? : Option Nat :=
  if '0' ≤ char ∧ char ≤ '9' then some (char.toNat - '0'.toNat)
  else if 'a' ≤ char ∧ char ≤ 'f' then some (char.toNat - 'a'.toNat + 10)
  else if 'A' ≤ char ∧ char ≤ 'F' then some (char.toNat - 'A'.toNat + 10)
  else none

/-- The byte of an escape `%XX` and what follows it. -/
def percentByte? : List Char → Option (Nat × List Char)
  | '%' :: high :: low :: rest => do
    let high ← hexDigit? high
    let low ← hexDigit? low
    return (high * 16 + low, rest)
  | _ => none

/-- Read continuation bytes onto the bits read so far. -/
def continuation? : Nat → Nat → List Char → Option (Nat × List Char)
  | 0, bits, rest => some (bits, rest)
  | count + 1, bits, rest =>
    match percentByte? rest with
    | some (byte, rest) =>
      if 128 ≤ byte ∧ byte < 192 then continuation? count (bits * 64 + (byte - 128)) rest
      else none
    | none => none

/-- How many continuation bytes a leading byte announces, the bits it carries and
the least code point of that length. -/
def leadingByte? (byte : Nat) : Option (Nat × Nat × Nat) :=
  if byte < 128 then some (0, byte, 0)
  else if 192 ≤ byte ∧ byte < 224 then some (1, byte - 192, 128)
  else if 224 ≤ byte ∧ byte < 240 then some (2, byte - 224, 2048)
  else if 240 ≤ byte ∧ byte < 248 then some (3, byte - 240, 65536)
  else none

/-- The character of an escape sequence and what follows it. -/
def escapedChar? (chars : List Char) : Option (Char × List Char) := do
  let (byte, rest) ← percentByte? chars
  let (count, bits, least) ← leadingByte? byte
  let (code, rest) ← continuation? count bits rest
  if least ≤ code ∧ code.isValidChar then some (Char.ofNat code, rest) else none

/-- Decode at most `fuel` characters. -/
def decodeChars : Nat → List Char → Option (List Char)
  | _, [] => some []
  | 0, _ :: _ => none
  | fuel + 1, '%' :: rest => do
    let (char, rest) ← escapedChar? ('%' :: rest)
    return char :: (← decodeChars fuel rest)
  | fuel + 1, char :: rest => do return char :: (← decodeChars fuel rest)

/-- `decodeURIComponent`; a malformed text has no decoding.  Every decoded
character consumes at least one, so the length of the text bounds the work. -/
def decodeURIComponent (text : String) : Option String :=
  (decodeChars text.length text.toList).map String.ofList

/-- The characters `encodeURIComponent` keeps. -/
def isUnreserved : Bool :=
  char.isAlphanum || "-_.!~*'()".toList.contains char

def utf8Bytes : List Nat :=
  let code := char.toNat
  if code < 128 then [code]
  else if code < 2048 then [192 + code / 64, 128 + code % 64]
  else if code < 65536 then [224 + code / 4096, 128 + code / 64 % 64, 128 + code % 64]
  else [240 + code / 262144, 128 + code / 4096 % 64, 128 + code / 64 % 64, 128 + code % 64]

/-- The upper-case hexadecimal digit of a number below sixteen. -/
def hexChar (digit : Nat) : Char :=
  Char.ofNat (if digit < 10 then 48 + digit else 55 + digit)

/-- `escapeSeg` on one character: `encodeURIComponent`, and `%2E` for a dot. -/
def escapeChar : List Char :=
  if char = '.' then ['%', '2', 'E']
  else if isUnreserved char then [char]
  else (utf8Bytes char).flatMap fun byte => ['%', hexChar (byte / 16), hexChar (byte % 16)]

def escapeSeg (segment : String) : List Char :=
  segment.toList.flatMap escapeChar

def splitDots : List Char → List (List Char)
  | [] => [[]]
  | '.' :: rest => [] :: splitDots rest
  | char :: rest =>
    match splitDots rest with
    | first :: others => (char :: first) :: others
    | [] => [[char]]

/-- An occurrence of a node: the instances above it, outermost first. -/
structure OccurrenceRef where
  instancePath : List String
  node : String
  deriving DecidableEq

/-- `occurrenceKey`, the runtime id of an occurrence. -/
def occurrenceKey (occurrence : OccurrenceRef) : String :=
  String.ofList (['.'].intercalate
    ((occurrence.instancePath ++ [occurrence.node]).map escapeSeg))

/-- `parseOccurrenceKey`; a malformed key throws. -/
def parseOccurrenceKey (key : String) : Except String OccurrenceRef :=
  match (splitDots key.toList).mapM fun segment => decodeURIComponent (String.ofList segment) with
  | none => .error "URI malformed"
  | some segments =>
    match segments.getLast? with
    | none => .error s!"invalid occurrence key: {key.quote}"
    | some node =>
      if segments.any fun segment => segment = "" then
        .error s!"invalid occurrence key: {key.quote}"
      else
        .ok ⟨segments.dropLast, node⟩

example : parseOccurrenceKey "n1.n%2E2" = .ok ⟨["n1"], "n.2"⟩ := by
  rfl

example : occurrenceKey ⟨["n1"], "n.é"⟩ = "n1.n%2E%C3%A9" := by
  decide +kernel

end Dinkster.Format
