import Dinkster.Format.Graph
import Dinkster.Library.Coding

/-!
# Keys made of JSON text

Ports and selector candidates are looked up under a key that packs their parts with
`JSON.stringify`.  A quoted string ends at its first unescaped quotation mark, so the parts
can be read off again and different ports have different keys, whatever their ids are.
-/

namespace Dinkster.Format

open Library List Option

def quotationMark : Char := '\x22'

def backslash : Char := '\x5c'

/-- A lower-case hexadecimal digit. -/
def lowHexChar (digit : Nat) : Char :=
  if digit < 10 then Char.ofNat (48 + digit) else Char.ofNat (87 + digit)

variable (char : Char)

/-- What `JSON.stringify` writes for one character of a string. -/
def escapeJsonChar : List Char :=
  if char = quotationMark then [backslash, quotationMark]
  else if char = backslash then [backslash, backslash]
  else if char.toNat = 8 then [backslash, 'b']
  else if char.toNat = 9 then [backslash, 't']
  else if char.toNat = 10 then [backslash, 'n']
  else if char.toNat = 12 then [backslash, 'f']
  else if char.toNat = 13 then [backslash, 'r']
  else if char.toNat < 32 then
    [backslash, 'u', '0', '0', lowHexChar (char.toNat / 16), lowHexChar (char.toNat % 16)]
  else [char]

/-- `JSON.stringify` of a string. -/
def quoted (text : String) : List Char :=
  quotationMark :: (text.toList.flatMap escapeJsonChar ++ [quotationMark])

def escapedChars : List Char :=
  quotationMark :: backslash :: (List.range 32).map Char.ofNat

theorem mem_escapedChars_of_small {char : Char} (small : char.toNat < 32) :
    char ∈ escapedChars := by
  have listed : Char.ofNat char.toNat ∈ (List.range 32).map Char.ofNat :=
    mem_map_of_mem (mem_range.mpr small)
  rw [Char.ofNat_toNat] at listed
  exact mem_cons_of_mem _ (mem_cons_of_mem _ listed)

theorem escapeJsonChar_cases : char ∈ escapedChars ∨
      (char ≠ backslash ∧ char ≠ quotationMark ∧ escapeJsonChar char = [char]) := by
  by_cases mark : char = quotationMark
  · exact .inl (mark ▸ mem_cons_self)
  by_cases slash : char = backslash
  · exact .inl (slash ▸ mem_cons_of_mem _ mem_cons_self)
  by_cases small : char.toNat < 32
  · exact .inl (mem_escapedChars_of_small small)
  · refine .inr ⟨slash, mark, ?_⟩
    unfold escapeJsonChar
    rw [if_neg mark, if_neg slash, if_neg (by omega), if_neg (by omega), if_neg (by omega),
      if_neg (by omega), if_neg (by omega), if_neg small]

theorem escapeJsonChar_head {char : Char} (escaped : char ∈ escapedChars) :
    (escapeJsonChar char).head? = some backslash := by
  have checked : (escapedChars.all fun char =>
      (escapeJsonChar char).head? = some backslash) = true := by decide +kernel
  simpa using all_eq_true.mp checked char escaped

theorem escapeJsonChar_apart {first second : Char} (left : first ∈ escapedChars)
    (right : second ∈ escapedChars) (starts : escapeJsonChar first <+: escapeJsonChar second) :
    first = second := by
  have checked : (escapedChars.all fun first => escapedChars.all fun second =>
      !(escapeJsonChar first).isPrefixOf (escapeJsonChar second) || first = second) = true := by
    decide +kernel
  have tested := all_eq_true.mp (all_eq_true.mp checked first left) second right
  rw [ isPrefixOf_iff_prefix.mpr starts] at tested
  simpa using tested

theorem head_append_of_head {letters rest : List Char} {letter : Char}
    (begins : letters.head? = some letter) : (letters ++ rest).head? = some letter := by
  cases letters with
  | nil => cases begins
  | cons _ _ => exact begins

theorem escapeJsonChar_prefixFree : PrefixFree escapeJsonChar := by
  intro first second rest other same
  rcases escapeJsonChar_cases first with left | ⟨left, _, shape⟩ <;>
    rcases escapeJsonChar_cases second with right | ⟨right, _, image⟩
  · have begins : escapeJsonChar first <+: escapeJsonChar second ++ other := ⟨rest, same⟩
    cases prefix_or_prefix_of_prefix begins (prefix_append _ _) with
    | inl shorter => exact escapeJsonChar_apart left right shorter
    | inr longer => exact (escapeJsonChar_apart right left longer).symm
  · have begins := @head_append_of_head _ rest _ (escapeJsonChar_head left)
    rw [same, image] at begins
    exact absurd (some.inj begins) right
  · have begins := @head_append_of_head _ other _ (escapeJsonChar_head right)
    rw [← same, shape] at begins
    exact absurd (some.inj begins) left
  · rw [shape, image] at same
    exact (List.cons.inj same).1

/-- No character is written so that it could end the string. -/
theorem escapeJsonChar_ne_mark (rest other : List Char) :
    escapeJsonChar char ++ rest ≠ [quotationMark] ++ other := by
  intro same
  rcases escapeJsonChar_cases char with escaped | ⟨_, mark, shape⟩
  · have begins := @head_append_of_head _ rest _ (escapeJsonChar_head escaped)
    rw [same] at begins
    exact absurd (some.inj begins) (by decide)
  · rw [shape] at same
    exact mark (List.cons.inj same).1

/-- A quoted string can be read off, whatever follows it. -/
theorem quoted_cancel {first second : String} {rest other : List Char}
    (same : quoted first ++ rest = quoted second ++ other) : first = second ∧ rest = other := by
  unfold quoted at same
  rw [cons_append, cons_append, append_assoc, append_assoc] at same
  have parts := escapeJsonChar_prefixFree.terminated escapeJsonChar_ne_mark (List.cons.inj same).2
  exact ⟨String.toList_inj.mp parts.1, parts.2⟩

def quotedItems : List String → List Char
  | [] => [']']
  | [text] => quoted text ++ [']']
  | text :: next :: rest => quoted text ++ ',' :: quotedItems (next :: rest)

/-- `JSON.stringify` of a list of strings. -/
def quotedList (texts : List String) : List Char :=
  '[' :: quotedItems texts

theorem quotedItems_ne_close (text : String) (rest : List String) :
    (quotedItems (text :: rest)).head? = some quotationMark := by
  cases rest with
  | nil | cons _ _ => rfl

theorem quotedItems_injective : ∀ {first second : List String},
    quotedItems first = quotedItems second → first = second
  | [], [], _ => rfl
  | [], text :: rest, same => by
    have begins := quotedItems_ne_close text rest
    rw [← same] at begins
    exact absurd (some.inj begins) (by decide)
  | text :: rest, [], same => by
    have begins := quotedItems_ne_close text rest
    rw [same] at begins
    exact absurd (some.inj begins) (by decide)
  | [text], [other], same => by rw [(quoted_cancel same).1]
  | [text], other :: next :: rest, same | text :: next :: rest, [other], same => by
    have tails := (quoted_cancel same).2
    exact absurd (List.cons.inj tails).1 (by decide)
  | text :: next :: rest, other :: following :: others, same => by
    have parts := quoted_cancel same
    have later := quotedItems_injective (List.cons.inj parts.2).2
    rw [parts.1, later]

theorem quotedList_injective {first second : List String}
    (same : quotedList first = quotedList second) : first = second :=
  quotedItems_injective (List.cons.inj same).2

def portAddressKey (port : String) (members : List String) : List Char :=
  quotedList (port :: members)

def portRefKey (ref : PortRef) : String :=
  String.ofList (quoted ref.node ++ '\x00' :: portAddressKey ref.port ref.members)

def selectorCandidateKey (selector candidate : String) : String :=
  String.ofList (quotedList [selector, candidate])

theorem portRefKey_injective {first second : PortRef}
    (same : portRefKey first = portRefKey second) : first = second := by
  have nodes := quoted_cancel (String.ofList_injective same)
  have ports := quotedList_injective (List.cons.inj nodes.2).2
  cases first
  cases second
  simp_all

theorem portRefKey_eq_iff {first second : PortRef} :
    portRefKey first = portRefKey second ↔ first = second :=
  ⟨portRefKey_injective, congrArg portRefKey⟩

theorem selectorCandidateKey_eq_iff {selector candidate other choice : String} :
    selectorCandidateKey selector candidate = selectorCandidateKey other choice ↔
      selector = other ∧ candidate = choice := by
  constructor
  · intro same
    have parts := quotedList_injective (String.ofList_injective same)
    simpa using parts
  · intro same
    rw [same.1, same.2]

example : selectorCandidateKey "s1" "a\n" = "[\x22s1\x22,\x22a\x5cn\x22]" := by
  decide +kernel

end Dinkster.Format
