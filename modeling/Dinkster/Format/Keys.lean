import Dinkster.Format.Graph
import Dinkster.Library.Coding

/-!
# Keys are injective

Elaborated keys and runtime ids are texts, and the compiler files everything it lowers
under them.  Their escapes keep the separators out of the segments and lose nothing, so
different addresses and different occurrences have different keys.
-/

namespace Dinkster.Format

open Library List

variable (char : Char)

theorem escapeElabChar_cases : (char = '%' ∧ escapeElabChar char = ['%', '2', '5']) ∨
      (char = '#' ∧ escapeElabChar char = ['%', '2', '3']) ∨
        (char ≠ '%' ∧ char ≠ '#' ∧ escapeElabChar char = [char]) := by
  unfold escapeElabChar
  by_cases percent : char = '%'
  · exact .inl ⟨percent, if_pos percent⟩
  · by_cases hash : char = '#'
    · exact .inr (.inl ⟨hash, by simp [hash]⟩)
    · exact .inr (.inr ⟨percent, hash, by simp [percent, hash]⟩)

theorem escapeElabChar_prefixFree : PrefixFree escapeElabChar := by
  intro first second rest other same
  rcases escapeElabChar_cases first with ⟨left, shape⟩ | ⟨left, shape⟩ | ⟨left, _, shape⟩ <;>
    rcases escapeElabChar_cases second with
      ⟨right, image⟩ | ⟨right, image⟩ | ⟨right, _, image⟩ <;>
    rw [shape, image] at same <;>
    simp only [cons_append, nil_append, List.cons.injEq] at same
  · rw [left, right]
  · exact absurd same.2.2.1 (by decide)
  · exact absurd same.1.symm right
  · exact absurd same.2.2.1 (by decide)
  · rw [left, right]
  · exact absurd same.1.symm right
  · exact absurd same.1 left
  · exact absurd same.1 left
  · exact same.1

theorem escapeElabChar_filled : escapeElabChar char ≠ [] := by
  rcases escapeElabChar_cases char with ⟨_, shape⟩ | ⟨_, shape⟩ | ⟨_, _, shape⟩ <;>
    simp [shape]

variable (chars : List Char)

theorem hash_not_mem_escapeElab : '#' ∉ chars.flatMap escapeElabChar := by
  intro listed
  obtain ⟨char, _, found⟩ := mem_flatMap.mp listed
  rcases escapeElabChar_cases char with ⟨_, shape⟩ | ⟨_, shape⟩ | ⟨_, hash, shape⟩ <;>
    rw [shape] at found
  · exact absurd found (by decide)
  · exact absurd found (by decide)
  · exact hash (mem_singleton.mp found).symm

theorem segments_injective {encode : Char → List Char} {separator : Char}
    (free : PrefixFree encode) (filled : ∀ char, encode char ≠ [])
    (clean : ∀ chars : List Char, separator ∉ chars.flatMap encode)
    {first second : List String} (firstFilled : first ≠ []) (secondFilled : second ≠ [])
    (same : [separator].intercalate (first.map fun segment => segment.toList.flatMap encode) =
      [separator].intercalate (second.map fun segment => segment.toList.flatMap encode)) :
    first = second := by
  have coded : first.map (fun segment => segment.toList.flatMap encode) =
      second.map (fun segment => segment.toList.flatMap encode) := by
    apply intercalate_injective _ _ _ _ same
    · intro segment listed
      obtain ⟨text, _, rfl⟩ := mem_map.mp listed
      exact clean text.toList
    · intro segment listed
      obtain ⟨text, _, rfl⟩ := mem_map.mp listed
      exact clean text.toList
    · simpa using firstFilled
    · simpa using secondFilled
  refine (map_injective_iff.mpr ?_) coded
  intro left right equal
  exact String.toList_inj.mp (free.flatMap_injective filled equal)

theorem elabKeyOf_injective {first second : PortAddress}
    (same : elabKeyOf first = elabKeyOf second) : first = second := by
  have chars := String.ofList_injective same
  have segments := segments_injective escapeElabChar_prefixFree escapeElabChar_filled
    hash_not_mem_escapeElab (cons_ne_nil _ _) (cons_ne_nil _ _) chars
  cases first
  cases second
  simp_all

/-- `text.replace(/%2<digit>/g, plain)`. -/
def replaceEscape (digit plain : Char) : List Char → List Char
  | first :: second :: third :: rest =>
    if first = '%' ∧ second = '2' ∧ third = digit then plain :: replaceEscape digit plain rest
    else first :: replaceEscape digit plain (second :: third :: rest)
  | rest => rest

/-- `unescape`: the separator first, then the escape character. -/
def unescapeElabSeg : List Char :=
  replaceEscape '5' '%' (replaceEscape '3' '#' chars)

def addressOfElabKey (key : String) (includeMemberless : Bool) : Option PortAddress :=
  match (key.toList.splitOn '#').map fun part => String.ofList (unescapeElabSeg part) with
  | port :: members =>
    if members = [] ∧ includeMemberless = false then none
    else if elabKeyOf ⟨port, members⟩ = key then some ⟨port, members⟩
    else none
  | [] => none

theorem replaceEscape_cons_of_ne {digit plain char : Char} (other : char ≠ '%') (rest : List Char) :
    replaceEscape digit plain (char :: rest) = char :: replaceEscape digit plain rest := by
  cases rest with
  | nil => rfl
  | cons second rest =>
    cases rest with
    | nil => rfl
    | cons third rest =>
      rw [replaceEscape, if_neg (fun here => other here.1)]

/-- The escape of a character after the separator has been restored. -/
def escapePercent (char : Char) : List Char :=
  if char = '%' then ['%', '2', '5'] else [char]

theorem replaceEscape_hash :
    replaceEscape '3' '#' (chars.flatMap escapeElabChar) = chars.flatMap escapePercent := by
  induction chars with
  | nil => rfl
  | cons char chars ih =>
    rw [flatMap_cons, flatMap_cons]
    rcases escapeElabChar_cases char with
      ⟨rfl, shape⟩ | ⟨rfl, shape⟩ | ⟨percent, hash, shape⟩ <;> rw [shape]
    · rw [cons_append, cons_append, cons_append, nil_append, replaceEscape,
        if_neg (by decide), replaceEscape_cons_of_ne (by decide),
        replaceEscape_cons_of_ne (by decide), ih]
      rfl
    · rw [cons_append, cons_append, cons_append, nil_append, replaceEscape, if_pos (by decide), ih]
      rfl
    · rw [singleton_append, replaceEscape_cons_of_ne percent, ih, escapePercent,
        if_neg percent, singleton_append]

theorem replaceEscape_percent : replaceEscape '5' '%' (chars.flatMap escapePercent) = chars := by
  induction chars with
  | nil => rfl
  | cons char chars ih =>
    rw [flatMap_cons, escapePercent]
    by_cases percent : char = '%'
    · rw [if_pos percent, cons_append, cons_append, cons_append,
        nil_append, replaceEscape, if_pos (by decide), ih, percent]
    · rw [if_neg percent, singleton_append, replaceEscape_cons_of_ne percent, ih]

theorem unescapeElabSeg_escape : unescapeElabSeg (chars.flatMap escapeElabChar) = chars := by
  rw [unescapeElabSeg, replaceEscape_hash, replaceEscape_percent]

theorem parts_elabKeyOf (address : PortAddress) : ((elabKeyOf address).toList.splitOn '#').map
      (fun part => String.ofList (unescapeElabSeg part)) = address.port :: address.members := by
  unfold elabKeyOf
  rw [String.toList_ofList, splitOn_intercalate '#' _ (by simp), map_map]
  · refine map_id'' ?_ _
    intro segment
    simp only [Function.comp_apply]
    rw [unescapeElabSeg_escape, String.ofList_toList]
  · intro segment listed
    obtain ⟨text, _, rfl⟩ := mem_map.mp listed
    exact hash_not_mem_escapeElab text.toList

theorem addressOfElabKey_eq_some_iff {key : String} {address : PortAddress} :
    addressOfElabKey key true = some address ↔ elabKeyOf address = key := by
  unfold addressOfElabKey
  constructor
  · intro found
    split at found
    · split at found
      · cases found
      · split at found
        · rename_i same
          rw [← Option.some.inj found, same]
        · cases found
    · cases found
  · rintro rfl
    rw [parts_elabKeyOf]
    simp

theorem hexChar_injective {first second : Nat} (firstSmall : first < 16)
    (secondSmall : second < 16) (same : hexChar first = hexChar second) : first = second := by
  have checked : ∀ left < 16, ∀ right < 16, hexChar left = hexChar right → left = right := by
    decide +kernel
  exact checked first firstSmall second secondSmall same

def escapeByte (byte : Nat) : List Char :=
  ['%', hexChar (byte / 16), hexChar (byte % 16)]

theorem escapeByte_cancel {first second : Nat} {rest other : List Char}
    (firstSmall : first < 256) (secondSmall : second < 256)
    (same : escapeByte first ++ rest = escapeByte second ++ other) :
    first = second ∧ rest = other := by
  simp only [escapeByte, cons_append, nil_append, List.cons.injEq, true_and] at same
  have high := hexChar_injective (by omega) (by omega) same.1
  have low := hexChar_injective (by omega) (by omega) same.2.1
  exact ⟨by omega, same.2.2⟩

theorem toNat_lt : char.toNat < 1114112 := by
  have valid := char.valid
  simp only [UInt32.isValidChar, Nat.isValidChar] at valid
  have same : char.toNat = char.val.toNat := rfl
  omega

theorem eq_of_toNat_eq {first second : Char} (same : first.toNat = second.toNat) :
    first = second := by
  rw [← Char.ofNat_toNat first, same, Char.ofNat_toNat]

/-- The bytes of a character, by their number. -/
theorem utf8Bytes_cases : (char.toNat < 128 ∧ utf8Bytes char = [char.toNat]) ∨
      (128 ≤ char.toNat ∧ char.toNat < 2048 ∧
        utf8Bytes char = [192 + char.toNat / 64, 128 + char.toNat % 64]) ∨
      (2048 ≤ char.toNat ∧ char.toNat < 65536 ∧
        utf8Bytes char = [224 + char.toNat / 4096, 128 + char.toNat / 64 % 64,
          128 + char.toNat % 64]) ∨ (65536 ≤ char.toNat ∧ char.toNat < 1114112 ∧
        utf8Bytes char = [240 + char.toNat / 262144, 128 + char.toNat / 4096 % 64,
          128 + char.toNat / 64 % 64, 128 + char.toNat % 64]) := by
  have bound := toNat_lt char
  unfold utf8Bytes
  by_cases one : char.toNat < 128
  · exact .inl ⟨one, if_pos one⟩
  · by_cases two : char.toNat < 2048
    · exact .inr (.inl ⟨by omega, two, by simp [one, two]⟩)
    · by_cases three : char.toNat < 65536
      · exact .inr (.inr (.inl ⟨by omega, three, by simp [one, two, three]⟩))
      · exact .inr (.inr (.inr ⟨by omega, bound, by simp [one, two, three]⟩))

theorem utf8Bytes_small {char : Char} {byte : Nat} (listed : byte ∈ utf8Bytes char) :
    byte < 256 := by
  rcases utf8Bytes_cases char with ⟨_, shape⟩ | ⟨_, _, shape⟩ | ⟨_, _, shape⟩ | ⟨_, _, shape⟩ <;>
    rw [shape] at listed <;>
    simp only [mem_cons, not_mem_nil, or_false] at listed <;> omega

theorem utf8Bytes_prefixFree : PrefixFree utf8Bytes := by
  intro first second rest other same
  apply eq_of_toNat_eq
  rcases utf8Bytes_cases first with
      ⟨_, shape⟩ | ⟨_, _, shape⟩ | ⟨_, _, shape⟩ | ⟨_, _, shape⟩ <;>
    rcases utf8Bytes_cases second with
      ⟨_, image⟩ | ⟨_, _, image⟩ | ⟨_, _, image⟩ | ⟨_, _, image⟩ <;>
    rw [shape, image] at same <;>
    simp only [cons_append, nil_append, List.cons.injEq] at same <;> omega

theorem escapeBytes_cancel : ∀ {first second : List Nat} {rest other : List Char},
    (∀ byte ∈ first, byte < 256) → (∀ byte ∈ second, byte < 256) →
    first.flatMap escapeByte ++ rest = second.flatMap escapeByte ++ other →
      ∃ left right, first ++ left = second ++ right
  | [], second, _, _, _, _, _ => ⟨second, [], by simp⟩
  | first, [], _, _, _, _, _ => ⟨[], first, by simp⟩
  | byte :: first, next :: second, rest, other, firstSmall, secondSmall, same => by
    simp only [flatMap_cons, append_assoc] at same
    have cancelled := escapeByte_cancel (firstSmall byte mem_cons_self)
      (secondSmall next mem_cons_self) same
    obtain ⟨left, right, equal⟩ := escapeBytes_cancel
      (fun byte listed => firstSmall byte (mem_cons_of_mem _ listed))
      (fun byte listed => secondSmall byte (mem_cons_of_mem _ listed)) cancelled.2
    exact ⟨left, right, by simp [cancelled.1, equal]⟩

theorem escapeChar_cases : (char = '.' ∧ escapeChar char = [46].flatMap escapeByte) ∨
      (char ≠ '.' ∧ char ≠ '%' ∧ escapeChar char = [char]) ∨
        (char ≠ '.' ∧ escapeChar char = (utf8Bytes char).flatMap escapeByte) := by
  unfold escapeChar
  by_cases dot : char = '.'
  · exact .inl ⟨dot, by rw [if_pos dot]; decide⟩
  · by_cases kept : isUnreserved char = true
    · refine .inr (.inl ⟨dot, ?_, by simp [dot, kept]⟩)
      intro percent
      subst percent
      exact absurd kept (by decide)
    · exact .inr (.inr ⟨dot, by rw [if_neg dot, if_neg kept]; rfl⟩)

/-- What a character escapes to is itself, or starts with a percent sign and escapes its
bytes. -/
theorem escapeChar_shape : (char ≠ '.' ∧ char ≠ '%' ∧ escapeChar char = [char]) ∨
      escapeChar char = (utf8Bytes char).flatMap escapeByte := by
  rcases escapeChar_cases char with ⟨dot, shape⟩ | kept | ⟨_, shape⟩
  · refine .inr ?_
    rw [shape, dot]
    decide
  · exact .inl kept
  · exact .inr shape

theorem escapedBytes_head : ∃ rest, (utf8Bytes char).flatMap escapeByte = '%' :: rest := by
  rcases utf8Bytes_cases char with ⟨_, shape⟩ | ⟨_, _, shape⟩ | ⟨_, _, shape⟩ | ⟨_, _, shape⟩ <;>
    rw [shape] <;> exact ⟨_, rfl⟩

theorem escapeChar_prefixFree : PrefixFree escapeChar := by
  intro first second rest other same
  rcases escapeChar_shape first with ⟨_, percent, shape⟩ | shape <;>
    rcases escapeChar_shape second with ⟨_, hundred, image⟩ | image <;>
    rw [shape, image] at same
  · exact (List.cons.inj same).1
  · obtain ⟨tail, escaped⟩ := escapedBytes_head second
    rw [escaped] at same
    exact absurd (List.cons.inj same).1 percent
  · obtain ⟨tail, escaped⟩ := escapedBytes_head first
    rw [escaped] at same
    exact absurd (List.cons.inj same).1.symm hundred
  · obtain ⟨left, right, equal⟩ := escapeBytes_cancel (fun _ => utf8Bytes_small)
      (fun _ => utf8Bytes_small) same
    exact utf8Bytes_prefixFree first second left right equal

theorem escapeChar_filled : escapeChar char ≠ [] := by
  rcases escapeChar_shape char with ⟨_, _, shape⟩ | shape
  · simp [shape]
  · obtain ⟨rest, escaped⟩ := escapedBytes_head char
    simp [shape, escaped]

theorem dot_not_mem_escapeByte {byte : Nat} (small : byte < 256) : '.' ∉ escapeByte byte := by
  have digits : ∀ digit < 16, hexChar digit ≠ '.' := by
    decide +kernel
  have high := digits (byte / 16) (by omega)
  have low := digits (byte % 16) (by omega)
  simp [escapeByte, high.symm, low.symm]

theorem dot_not_mem_escape : '.' ∉ chars.flatMap escapeChar := by
  intro listed
  obtain ⟨char, _, found⟩ := mem_flatMap.mp listed
  rcases escapeChar_shape char with ⟨dot, _, shape⟩ | shape
  · rw [shape, mem_singleton] at found
    exact dot found.symm
  · rw [shape] at found
    obtain ⟨byte, inside, escaped⟩ := mem_flatMap.mp found
    exact dot_not_mem_escapeByte (utf8Bytes_small inside) escaped

/-- Different occurrences have different runtime ids. -/
theorem occurrenceKey_injective {first second : OccurrenceRef}
    (same : occurrenceKey first = occurrenceKey second) : first = second := by
  have chars := String.ofList_injective same
  have segments := segments_injective escapeChar_prefixFree escapeChar_filled
    dot_not_mem_escape (by simp) (by simp) chars
  have parts := append_inj' segments rfl
  cases first
  cases second
  simp_all

end Dinkster.Format
