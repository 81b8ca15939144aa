import Dinkster.Commands.Reroute
import Dinkster.Format.Keys
import Dinkster.Image.History

/-!
# Identities read back

An occurrence key, an elaborated key and an allocated id each carry what they were written for.
The escapes of a segment are undone by `decodeURIComponent` byte by byte, so the dots of a key are
its separators.
-/

namespace Dinkster.Commands

open Library Format Image.Undo List

/-- `isOccurrenceKeyWithin`. -/
def isOccurrenceKeyWithin (key instanceNode : String) : Bool :=
  (escapeSeg instanceNode ++ ['.']).isPrefixOf key.toList

def allocatedIdPrefixes : List String :=
  ["n", "l", "net", "r", "v", "s", "c"]

/-! ## Segments -/

theorem percentByte_escapeByte {byte : Nat} (small : byte < 256) (rest : List Char) :
    percentByte? (escapeByte byte ++ rest) = some (byte, rest) := by
  have digits : ∀ digit < 16, hexDigit? (hexChar digit) = some digit := by
    decide +kernel
  have high := digits (byte / 16) (by omega)
  have low := digits (byte % 16) (by omega)
  have whole : byte / 16 * 16 + byte % 16 = byte := by omega
  simp [escapeByte, percentByte?, high, low, whole]

theorem continuation_escapeByte {lows : List Nat} (small : ∀ low ∈ lows, low < 64) (bits : Nat)
    (rest : List Char) :
    continuation? lows.length bits ((lows.map (128 + ·)).flatMap escapeByte ++ rest) =
      some (lows.foldl (fun bits low => bits * 64 + low) bits, rest) := by
  induction lows generalizing bits with
  | nil => rfl
  | cons low later ih =>
    have here := small low mem_cons_self
    rw [length_cons, map_cons, flatMap_cons, append_assoc, continuation?,
      percentByte_escapeByte (by omega)]
    dsimp only
    rw [if_pos (by omega), Nat.add_sub_cancel_left, ih fun l listed => small l (mem_cons_of_mem _ listed)]
    rfl

/-- A leading byte and its continuation bytes are read as the character they make up. -/
theorem escapedChar_of_bytes {leading bits least : Nat} {lows : List Nat} {char : Char}
    (leads : leadingByte? leading = some (lows.length, bits, least)) (byte : leading < 256)
    (small : ∀ low ∈ lows, low < 64) (enough : least ≤ char.toNat)
    (whole : lows.foldl (fun bits low => bits * 64 + low) bits = char.toNat) (rest : List Char) :
    escapedChar? ((leading :: lows.map (128 + ·)).flatMap escapeByte ++ rest) =
      some (char, rest) := by
  have valid : char.toNat.isValidChar := char.valid
  rw [escapedChar?, flatMap_cons, append_assoc, percentByte_escapeByte byte]
  simp [leads, continuation_escapeByte small, whole, enough, valid]

theorem escapedChar_utf8Bytes (char : Char) (rest : List Char) :
    escapedChar? ((utf8Bytes char).flatMap escapeByte ++ rest) = some (char, rest) := by
  have low : ∀ number, number % 64 < 64 := fun number => by omega
  rcases utf8Bytes_cases char with
    ⟨one, shape⟩ | ⟨least, two, shape⟩ | ⟨least, three, shape⟩ | ⟨least, four, shape⟩ <;>
    rw [shape]
  · have leads : leadingByte? char.toNat = some (0, char.toNat, 0) := if_pos one
    exact @escapedChar_of_bytes _ _ _ [] _ leads (by omega) (by simp) (by omega) rfl rest
  · have leads : leadingByte? (192 + char.toNat / 64) = some (1, char.toNat / 64, 128) := by
      rw [leadingByte?, if_neg (by omega), if_pos (by omega), Nat.add_sub_cancel_left]
    exact @escapedChar_of_bytes _ _ _ [_] _ leads (by omega) (by simp [low]) least
      (by simp only [foldl_cons, foldl_nil]; omega) rest
  · have leads : leadingByte? (224 + char.toNat / 4096) = some (2, char.toNat / 4096, 2048) := by
      rw [leadingByte?, if_neg (by omega), if_neg (by omega), if_pos (by omega),
        Nat.add_sub_cancel_left]
    exact @escapedChar_of_bytes _ _ _ [_, _] _ leads (by omega) (by simp [low]) least
      (by simp only [foldl_cons, foldl_nil]; omega) rest
  · have leads : leadingByte? (240 + char.toNat / 262144) =
        some (3, char.toNat / 262144, 65536) := by
      rw [leadingByte?, if_neg (by omega), if_neg (by omega), if_neg (by omega),
        if_pos (by omega), Nat.add_sub_cancel_left]
    exact @escapedChar_of_bytes _ _ _ [_, _, _] _ leads (by omega) (by simp [low]) least
      (by simp only [foldl_cons, foldl_nil]; omega) rest

theorem decodeChars_escape {fuel : Nat} {chars : List Char} (enough : chars.length ≤ fuel) :
    decodeChars fuel (chars.flatMap escapeChar) = some chars := by
  induction chars generalizing fuel with
  | nil => simp [decodeChars]
  | cons char rest ih =>
    cases fuel with
    | zero => cases enough
    | succ fuel =>
      have later := ih (Nat.le_of_succ_le_succ enough)
      rw [flatMap_cons]
      rcases escapeChar_shape char with ⟨_, plain, shape⟩ | shape
      · rw [shape, singleton_append, decodeChars, later]
        · rfl
        · exact plain
      · have whole := escapedChar_utf8Bytes char (rest.flatMap escapeChar)
        obtain ⟨tail, head⟩ := escapedBytes_head char
        rw [shape]
        rw [head] at whole ⊢
        rw [cons_append] at whole ⊢
        simp [decodeChars, whole, later]

theorem decodeURIComponent_escapeSeg (segment : String) :
    decodeURIComponent (String.ofList (escapeSeg segment)) = some segment := by
  have enough : segment.toList.length ≤ (escapeSeg segment).length := by
    rw [escapeSeg]
    induction segment.toList with
    | nil => rfl
    | cons char rest ih =>
      have filled := length_pos_iff.mpr (escapeChar_filled char)
      rw [flatMap_cons, length_append, length_cons]
      omega
  rw [escapeSeg] at enough ⊢
  rw [decodeURIComponent, String.length_ofList, String.toList_ofList, decodeChars_escape enough]
  simp

theorem splitDots_eq (chars : List Char) : splitDots chars = chars.splitOn '.' := by
  induction chars with
  | nil => rfl
  | cons char rest ih =>
    rw [splitOn_cons_eq_if_modifyHead]
    by_cases dot : char = '.'
    · rw [dot, splitDots, ih]
      rfl
    · rw [splitDots, ih, if_neg (by simpa using dot)]
      · cases parts : rest.splitOn '.' with
        | nil => exact absurd parts (splitOn_ne_nil _ _)
        | cons first others => rfl
      · exact dot

variable {occurrence : OccurrenceRef}

theorem parseOccurrenceKey_occurrenceKey
    (filled : ∀ id ∈ occurrence.instancePath ++ [occurrence.node], id ≠ "") :
    parseOccurrenceKey (occurrenceKey occurrence) = .ok occurrence := by
  have clean : ∀ segment ∈ (occurrence.instancePath ++ [occurrence.node]).map escapeSeg,
      '.' ∉ segment := by
    intro segment listed
    obtain ⟨id, _, rfl⟩ := mem_map.mp listed
    exact dot_not_mem_escape id.toList
  have decoded : ∀ ids : List String, (ids.map escapeSeg).mapM (fun segment =>
      decodeURIComponent (String.ofList segment)) = some ids := by
    intro ids
    induction ids with
    | nil => rfl
    | cons id rest ih => simp [decodeURIComponent_escapeSeg, ih]
  have named : (occurrence.instancePath ++ [occurrence.node]).any (fun segment => segment = "") =
      false := by
    rw [any_eq_false]
    exact fun id listed => by simpa using filled id listed
  rw [parseOccurrenceKey, occurrenceKey, String.toList_ofList, splitDots_eq,
    splitOn_intercalate '.' clean (by simp), decoded]
  simp only [getLast?_concat, named, dropLast_concat]
  rfl

/-- The keys hold no character that the runtime's paths reserve. -/
theorem not_mem_occurrenceKey {char : Char} (reserved : char ∈ ['/', '[', ']']) :
    char ∉ (occurrenceKey occurrence).toList := by
  obtain ⟨marks, kept, digits⟩ : char ∉ ['.', '%', '2', 'E'] ∧ isUnreserved char = false ∧
      ∀ digit < 16, hexChar digit ≠ char := by
    simp only [mem_cons, not_mem_nil, or_false] at reserved
    obtain rfl | rfl | rfl := reserved <;> decide +kernel
  have clean : ∀ segment : String, char ∉ escapeSeg segment := by
    intro segment listed
    obtain ⟨one, _, inside⟩ := mem_flatMap.mp listed
    unfold escapeChar at inside
    split at inside
    · exact marks (mem_cons_of_mem _ inside)
    · split at inside
      · rename_i unreserved
        rw [← mem_singleton.mp inside, kept] at unreserved
        cases unreserved
      · obtain ⟨byte, small, escaped⟩ := mem_flatMap.mp inside
        have small := utf8Bytes_small small
        rw [mem_cons, mem_cons, mem_singleton] at escaped
        obtain percent | high | low := escaped
        · exact marks (by simp [percent])
        · exact digits (byte / 16) (by omega) high.symm
        · exact digits (byte % 16) (by omega) low.symm
  rw [occurrenceKey, String.toList_ofList]
  induction occurrence.instancePath ++ [occurrence.node] with
  | nil => simp
  | cons id rest ih =>
    by_cases last : rest = []
    · rw [last, map_singleton, intercalate_singleton]
      exact clean id
    · rw [map_cons, intercalate_cons_of_ne_nil (by simpa using last)]
      simp_all

theorem isOccurrenceKeyWithin_iff {instanceNode : String} :
    isOccurrenceKeyWithin (occurrenceKey occurrence) instanceNode = true ↔
      occurrence.instancePath.head? = some instanceNode := by
  have apart : ∀ char rest other, escapeChar char ++ rest ≠ ['.'] ++ other := by
    intro char rest other same
    rcases escapeChar_shape char with ⟨dot, _, shape⟩ | shape
    · rw [shape] at same
      exact dot (cons.inj same).1
    · obtain ⟨tail, head⟩ := escapedBytes_head char
      rw [shape, head] at same
      exact absurd (cons.inj same).1 (by decide)
  rw [isOccurrenceKeyWithin, isPrefixOf_iff_prefix, occurrenceKey, String.toList_ofList]
  cases path : occurrence.instancePath with
  | nil =>
    simp only [nil_append, map_cons, map_nil, intercalate_singleton, head?_nil, reduceCtorEq,
      iff_false]
    exact fun within => dot_not_mem_escape _ (within.subset (by simp))
  | cons first rest =>
    rw [cons_append, map_cons, intercalate_cons_of_ne_nil (by simp), head?_cons, Option.some_inj]
    constructor
    · rintro ⟨tail, whole⟩
      rw [append_assoc, append_assoc] at whole
      have same := (escapeChar_prefixFree.terminated apart whole).1
      exact (String.toList_inj.mp same).symm
    · rintro rfl
      exact prefix_append _ _

/-! ## Allocated ids -/

theorem numberText_natCast (ordinal : Nat) : numberText ordinal = toString ordinal := by
  rw [numberText, if_pos (Rat.den_natCast ordinal), Rat.num_natCast]
  rfl

theorem toList_formatAllocatedId (letter : String) (ordinal : Nat) (actor : Option String) :
    (formatAllocatedId letter ordinal actor).toList =
      letter.toList ++ ((toString ordinal).toList ++ actorSuffix actor) := by
  unfold formatAllocatedId
  rw [numberText_natCast]
  cases actor with
  | none =>
    change (letter ++ toString ordinal).toList = _
    simp [actorSuffix]
  | some actor =>
    change (letter ++ toString ordinal ++ "-" ++ actor).toList = _
    simp [actorSuffix]

/-- The decimal digits of a number, before anything an id continues with. -/
theorem toString_digits (ordinal : Nat) : (toString ordinal).toList ≠ [] ∧
    (toString ordinal).toList.foldl (fun value digit => value * 10 + (digit.toNat - 48)) 0 =
      ordinal := by
  have digits : (toString ordinal).toList = Nat.toDigits 10 ordinal := String.toList_ofList
  have value : (fun (value : Nat) (digit : Char) => value * 10 + (digit.toNat - 48)) =
      fun value digit => 10 * value + (digit.toNat - '0'.toNat) := by
    funext value digit
    rw [Nat.mul_comm]
    rfl
  rw [digits, value, ← Nat.ofDigitChars_eq_foldl, Nat.ofDigitChars_ten_toDigits]
  exact ⟨Nat.toDigits_ne_nil, rfl⟩

theorem parseAllocatedId_formatAllocatedId {letter : String} (known : letter ∈ allocatedIdPrefixes)
    {ordinal : Nat} (safe : (ordinal : Int) ≤ maxSafeInteger) {actor : Option String}
    (valid : ∀ name ∈ actor, isValidActorId name = true) :
    parseAllocatedId (formatAllocatedId letter ordinal actor) =
      some ⟨letter.toList, ordinal, actor⟩ := by
  obtain ⟨named, lower⟩ : letter.toList ≠ [] ∧
      ∀ char ∈ letter.toList, (decide ('a' ≤ char) && decide (char ≤ 'z')) = true := by
    simp only [allocatedIdPrefixes, mem_cons, not_mem_nil, or_false] at known
    obtain rfl | rfl | rfl | rfl | rfl | rfl | rfl := known <;> simp
  obtain ⟨filled, value⟩ := toString_digits ordinal
  have stops : ((toString ordinal).toList ++ actorSuffix actor).takeWhile
      (fun char => decide ('a' ≤ char) && decide (char ≤ 'z')) = [] := by
    cases digits : (toString ordinal).toList with
    | nil => exact absurd digits filled
    | cons first rest =>
      have digit := isDigit_of_mem_toString first (digits ▸ mem_cons_self)
      refine takeWhile_cons_of_neg ?_
      simp [Char.isDigit, Char.le_def, UInt32.le_iff_toNat_le] at digit ⊢
      omega
  have spelled : (formatAllocatedId letter ordinal actor).toList.takeWhile
      (fun char => decide ('a' ≤ char) && decide (char ≤ 'z')) = letter.toList := by
    rw [toList_formatAllocatedId, takeWhile_append_of_pos lower, stops, append_nil]
  unfold parseAllocatedId
  simp only [spelled]
  simp only [toList_formatAllocatedId, drop_left, takeWhile_digits, value]
  rw [if_neg (by simp [named]), if_neg (by simp; omega)]
  cases actor with
  | none => rfl
  | some name =>
    simp [actorSuffix, valid name rfl]

theorem formatAllocatedId_of_parse {id : String} {parsed : AllocatedId}
    (read : parseAllocatedId id = some parsed) :
    formatAllocatedId (String.ofList parsed.letters) parsed.ordinal parsed.actor = id := by
  have parts := fun (test : Char → Bool) (chars : List Char) =>
    prefix_iff_eq_append.mp ( takeWhile_prefix (l := chars) test)
  apply String.toList_injective
  rw [toList_formatAllocatedId, ← parts (fun char => 'a' ≤ char && char ≤ 'z') id.toList,
    ← parts Char.isDigit (drop _ id.toList)]
  unfold parseAllocatedId at read
  dsimp only at read
  split at read
  · cases read
  · split at read
    · cases read
    · rename_i canonical
      obtain ⟨_, digits⟩ := not_or.mp canonical
      split at read
      · rename_i ended
        cases read
        rw [ended, String.toList_ofList, ← not_not.mp digits]
        rfl
      · rename_i actor continued
        split at read
        · cases read
          rw [continued, String.toList_ofList, ← not_not.mp digits, actorSuffix,
            String.toList_ofList]
        · cases read
      · cases read

/-- The codecs are exact on what they are meant for; an elaborated address without members is one
with an empty list of them, and ordinals are not negative. -/
theorem identities_exact :
    (∀ occurrence : OccurrenceRef, (∀ id ∈ occurrence.instancePath ++ [occurrence.node], id ≠ "") →
        parseOccurrenceKey (occurrenceKey occurrence) = .ok occurrence) ∧
      Function.Injective occurrenceKey ∧
      (∀ occurrence, ∀ char ∈ ['/', '[', ']'], char ∉ (occurrenceKey occurrence).toList) ∧
      (∀ occurrence instanceNode,
        isOccurrenceKeyWithin (occurrenceKey occurrence) instanceNode = true ↔
          occurrence.instancePath.head? = some instanceNode) ∧ Function.Injective elabKeyOf ∧
      (∀ key address, addressOfElabKey key true = some address ↔ key = elabKeyOf address) ∧
      (∀ letter ∈ allocatedIdPrefixes, ∀ ordinal : Nat, (ordinal : Int) ≤ maxSafeInteger →
        ∀ actor : Option String, (∀ name ∈ actor, isValidActorId name = true) →
          parseAllocatedId (formatAllocatedId letter ordinal actor) =
            some ⟨letter.toList, ordinal, actor⟩) ∧ ∀ id parsed, parseAllocatedId id = some parsed →
        formatAllocatedId (String.ofList parsed.letters) parsed.ordinal parsed.actor = id :=
  ⟨fun _ => parseOccurrenceKey_occurrenceKey, fun _ _ => occurrenceKey_injective,
    fun _ _ => not_mem_occurrenceKey, fun _ _ => isOccurrenceKeyWithin_iff,
    fun _ _ => elabKeyOf_injective,
    fun _ _ => addressOfElabKey_eq_some_iff.trans eq_comm,
    fun _ known _ safe _ => parseAllocatedId_formatAllocatedId known safe,
    fun _ _ => formatAllocatedId_of_parse⟩

theorem identities_negative : Image.Undo.isSafeInteger (-1) = true ∧
    formatAllocatedId "n" (-1 : Int) none = "n-1" ∧ parseAllocatedId "n-1" = none := by
  decide +kernel

end Dinkster.Commands
