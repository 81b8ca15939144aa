import Dinkster.Library.EditDistance

/-!
# Search ranking

Every search box ranks with one scorer.  A query is split into tokens, each of which has to match
some field of an item: as the whole text, at its beginning, at the beginning of a word, anywhere,
or, for a token that is long enough, with one typo.  How good a match is counts with the weight of
its field, and the best field of each token is taken.
-/

namespace Dinkster.Search

open Library List Option

/-- A text as its UTF-16 code units. -/
abbrev Text := List Nat

/-- `\s`. -/
def isSpace (unit : Nat) : Bool :=
  (9 ≤ unit && unit ≤ 13) || (8192 ≤ unit && unit ≤ 8202) ||
    [32, 160, 5760, 8232, 8233, 8239, 8287, 12288, 65279].contains unit

/-- `[a-z0-9]`. -/
def isWordUnit (unit : Nat) : Bool :=
  (97 ≤ unit && unit ≤ 122) || (48 ≤ unit && unit ≤ 57)

/-- What stands between separators, without what is empty. -/
def pieces (separates : Nat → Bool) (text : Text) : List Text :=
  (text.splitOnP separates).filter fun piece => 0 < piece.length

def words (text : Text) : List Text :=
  pieces (fun unit => !isWordUnit unit) text

def trim (text : Text) : Text :=
  ((text.dropWhile isSpace).reverse.dropWhile isSpace).reverse

/-- `withinOneEdit` of two texts of which the second is not the shorter one. -/
def withinOneEditOrdered (a b : Text) : Bool :=
  let i := prefixLength a b
  if a.length = b.length then
    a.drop (i + 1) == b.drop (i + 1)
  else
    a.drop i == b.drop (i + 1)

/-- `withinOneEdit`; the source calls itself once, with the texts the other way round. -/
def withinOneEdit (a b : Text) : Bool :=
  if a = b then
    true
  else if 1 < ((a.length : Int) - b.length).natAbs then
    false
  else if b.length < a.length then
    withinOneEditOrdered b a
  else
    withinOneEditOrdered a b

theorem withinOneEditOrdered_iff {a b : Text} (low : a.length ≤ b.length)
    (high : b.length ≤ a.length + 1) : withinOneEditOrdered a b = true ↔ levenshtein a b ≤ 1 := by
  rw [withinOneEditOrdered]
  split
  · rename_i same
    rw [levenshtein_le_one_iff_of_length_eq same, beq_iff_eq]
  · rw [levenshtein_le_one_iff_of_length_succ (by omega), beq_iff_eq]

theorem withinOneEdit_iff {a b : Text} : withinOneEdit a b = true ↔ levenshtein a b ≤ 1 := by
  rw [withinOneEdit]
  split
  · rename_i same
    simp [levenshtein_eq_zero_iff.mpr same]
  · split
    · simp only [Bool.false_eq_true, false_iff]
      intro near
      have := length_of_levenshtein_le_one near
      omega
    · split
      · rw [withinOneEditOrdered_iff (by omega) (by omega), levenshtein_comm]
      · rw [withinOneEditOrdered_iff (by omega) (by omega)]

structure SearchField where
  text : Text
  weight : Rat

/-- `EXACT`. -/
def exactScore : Rat := 100

/-- `PREFIX`. -/
def prefixScore : Rat := 80

/-- `WORD_PREFIX`. -/
def wordPrefixScore : Rat := 60

/-- `SUBSTRING`. -/
def substringScore : Rat := 30

/-- `TYPO`. -/
def typoScore : Rat := 15

def typoMinToken : Nat := 4

section

variable (lower : Text → Text)

/-- `tokenFieldScore`, given what `toLowerCase` does. -/
def tokenFieldScore (token : Text) (field : SearchField) : Rat :=
  let text := lower field.text
  if text.length = 0 then
    0
  else if text = token then
    exactScore * field.weight
  else if token <+: text then
    prefixScore * field.weight
  else if ∃ word ∈ words text, token <+: word then
    wordPrefixScore * field.weight
  else if token <:+: text then
    substringScore * field.weight
  else if typoMinToken ≤ token.length ∧ ∃ word ∈ words text, withinOneEdit token word = true then
    typoScore * field.weight
  else
    0

/-- The loop of `scoreMatch` over the fields. -/
def bestScore (token : Text) (fields : List SearchField) : Rat :=
  fields.foldl (fun best field =>
    if best < tokenFieldScore lower token field then tokenFieldScore lower token field
    else best) 0

/-- The loop of `scoreMatch` over the tokens. -/
def totalScore (fields : List SearchField) : List Text → Rat → Option Rat
  | [], total => some total
  | token :: rest, total =>
    if bestScore lower token fields = 0 then
      none
    else
      totalScore fields rest (total + bestScore lower token fields)

def queryTokens (query : Text) : List Text :=
  pieces isSpace (lower (trim query))

def scoreMatch (query : Text) (fields : List SearchField) : Option Rat :=
  if (queryTokens lower query).length = 0 then
    some 0
  else
    totalScore lower fields (queryTokens lower query) 0

/-- `slice(0, limit)`. -/
def cut {Entry : Type} (limit : Option Nat) (entries : List Entry) : List Entry :=
  match limit with
  | none => entries
  | some limit => entries.take limit

def rankSearch {Item : Type} (query : Text) (items : List Item)
    (fieldsOf : Item → List SearchField) (limit : Option Nat) : List Item :=
  if (trim query).length = 0 then
    cut limit items
  else
    let scored := items.filterMap fun item =>
      (scoreMatch lower query (fieldsOf item)).map fun score => (item, score)
    (cut limit (scored.mergeSort fun a b => b.2 ≤ a.2)).map Prod.fst

end

/-- How a token matches a text as it is written, and how good such a match is. -/
inductive Found (token text : Text) : Rat → Prop where
  | equal (same : text = token) : Found token text 100
  | front (start : token <+: text) : Found token text 80
  | word (start : ∃ word ∈ words text, token <+: word) : Found token text 60
  | inside (part : token <:+: text) : Found token text 30

/-- A token that is long enough is one edit away from a word. -/
def NearMiss (token text : Text) : Prop :=
  4 ≤ token.length ∧ ∃ word ∈ words text, levenshtein token word ≤ 1

section

variable {lower : Text → Text} {token text : Text} {field : SearchField}
  {fields : List SearchField}

theorem Found.quality {quality : Rat} (found : Found token text quality) :
    30 ≤ quality ∧ quality ≤ 100 := by
  cases found <;> norm_num

/-- The score of a field is that of the best way in which it matches. -/
theorem tokenFieldScore_cases (lower : Text → Text) (field : SearchField) (named : token ≠ []) :
    (∃ quality, Found token (lower field.text) quality ∧
        tokenFieldScore lower token field = quality * field.weight ∧
        ∀ other, Found token (lower field.text) other → other ≤ quality) ∨
      (∀ quality, ¬ Found token (lower field.text) quality) ∧
        (NearMiss token (lower field.text) ∧ tokenFieldScore lower token field = 15 * field.weight ∨
          ¬ NearMiss token (lower field.text) ∧ tokenFieldScore lower token field = 0) := by
  unfold tokenFieldScore NearMiss
  simp only [withinOneEdit_iff]
  generalize lower field.text = text
  by_cases empty : text.length = 0
  · obtain rfl := length_eq_zero_iff.mp empty
    right
    refine ⟨?_, .inr ⟨?_, by simp⟩⟩
    · rintro quality (same | start | ⟨word, member, _⟩ | part)
      · exact named same.symm
      · exact named (prefix_nil.mp start)
      · simp [words, pieces] at member
      · exact named (infix_nil.mp part)
    · rintro ⟨_, word, member, _⟩
      simp [words, pieces] at member
  rw [if_neg empty]
  by_cases same : text = token
  · left
    exact ⟨100, .equal same, by rw [if_pos same]; rfl, fun _ other => other.quality.2⟩
  rw [if_neg same]
  by_cases front : token <+: text
  · left
    refine ⟨80, .front front, by rw [if_pos front]; rfl, fun _ other => ?_⟩
    cases other with
    | equal equal => exact absurd equal same
    | front _ | word _ | inside _ => norm_num
  rw [if_neg front]
  by_cases word : ∃ word ∈ words text, token <+: word
  · left
    refine ⟨60, .word word, by rw [if_pos word]; rfl, fun _ other => ?_⟩
    cases other with
    | equal equal => exact absurd equal same
    | front start => exact absurd start front
    | word _ | inside _ => norm_num
  rw [if_neg word]
  by_cases inside : token <:+: text
  · left
    refine ⟨30, .inside inside, by rw [if_pos inside]; rfl, fun _ other => ?_⟩
    cases other with
    | equal equal => exact absurd equal same
    | front start => exact absurd start front
    | word start => exact absurd start word
    | inside _ => exact le_rfl
  rw [if_neg inside]
  right
  refine ⟨?_, ?_⟩
  · rintro quality (equal | start | start | part)
    · exact same equal
    · exact front start
    · exact word start
    · exact inside part
  · by_cases near : typoMinToken ≤ token.length ∧ ∃ word ∈ words text, levenshtein token word ≤ 1
    · exact .inl ⟨near, by rw [if_pos near]; rfl⟩
    · exact .inr ⟨near, by rw [if_neg near]⟩

theorem le_tokenFieldScore {quality : Rat} (named : token ≠ []) (positive : 0 < field.weight)
    (found : Found token (lower field.text) quality) :
    quality * field.weight ≤ tokenFieldScore lower token field := by
  obtain ⟨most, _, score, best⟩ | ⟨none, _⟩ := tokenFieldScore_cases lower field named
  · rw [score]
    exact mul_le_mul_of_nonneg_right (best quality found) positive.le
  · exact absurd found (none quality)

theorem tokenFieldScore_pos_iff (named : token ≠ []) (positive : 0 < field.weight) :
    0 < tokenFieldScore lower token field ↔
      (∃ quality, Found token (lower field.text) quality) ∨ NearMiss token (lower field.text) := by
  obtain ⟨most, found, score, _⟩ | ⟨none, ⟨near, score⟩ | ⟨far, score⟩⟩ :=
    tokenFieldScore_cases lower field named
  · rw [score]
    have := found.quality.1
    exact ⟨fun _ => .inl ⟨most, found⟩, fun _ => mul_pos (by linarith) positive⟩
  · rw [score]
    exact ⟨fun _ => .inr near, fun _ => mul_pos (by norm_num) positive⟩
  · rw [score]
    simp [none, far]

/-- What the loop over the fields finds. -/
theorem bestScore_spec (lower : Text → Text) (token : Text) (fields : List SearchField) :
    (∀ field ∈ fields, tokenFieldScore lower token field ≤ bestScore lower token fields) ∧
      (bestScore lower token fields = 0 ∨
        ∃ field ∈ fields, bestScore lower token fields = tokenFieldScore lower token field) ∧
      0 ≤ bestScore lower token fields := by
  have loop (start : Rat) :
      let best := fields.foldl (fun best field =>
        if best < tokenFieldScore lower token field then tokenFieldScore lower token field
        else best) start
      (∀ field ∈ fields, tokenFieldScore lower token field ≤ best) ∧
        (best = start ∨ ∃ field ∈ fields, best = tokenFieldScore lower token field) ∧
        start ≤ best := by
    induction fields generalizing start with
    | nil => simp
    | cons first rest ih =>
      simp only [foldl_cons, forall_mem_cons]
      split
      · rename_i more
        obtain ⟨above, reached, grown⟩ := ih (tokenFieldScore lower token first)
        refine ⟨⟨grown, above⟩, ?_, more.le.trans grown⟩
        cases reached with
        | inl same => exact .inr ⟨first, mem_cons_self, same⟩
        | inr later =>
          obtain ⟨field, member, same⟩ := later
          exact .inr ⟨field, mem_cons_of_mem _ member, same⟩
      · rename_i less
        obtain ⟨above, reached, grown⟩ := ih start
        refine ⟨⟨(not_lt.mp less).trans grown, above⟩, ?_, grown⟩
        cases reached with
        | inl same => exact .inl same
        | inr later =>
          obtain ⟨field, member, same⟩ := later
          exact .inr ⟨field, mem_cons_of_mem _ member, same⟩
  exact loop 0

variable (positive : ∀ field ∈ fields, 0 < field.weight)

include positive

theorem bestScore_ne_zero_iff (named : token ≠ []) :
    bestScore lower token fields ≠ 0 ↔ ∃ field ∈ fields,
      (∃ quality, Found token (lower field.text) quality) ∨ NearMiss token (lower field.text) := by
  obtain ⟨above, reached, least⟩ := bestScore_spec lower token fields
  constructor
  · intro scored
    obtain ⟨field, member, same⟩ := reached.resolve_left scored
    have more : 0 < tokenFieldScore lower token field := same ▸ lt_of_le_of_ne least scored.symm
    exact ⟨field, member, (tokenFieldScore_pos_iff named (positive field member)).mp more⟩
  · rintro ⟨field, member, matched⟩
    have more := (tokenFieldScore_pos_iff named (positive field member)).mpr matched
    exact (more.trans_le (above field member)).ne'

omit positive in
theorem totalScore_isSome_iff {tokens : List Text} {total : Rat} :
    (totalScore lower fields tokens total).isSome ↔
      ∀ token ∈ tokens, bestScore lower token fields ≠ 0 := by
  induction tokens generalizing total with
  | nil => simp [totalScore]
  | cons token rest ih =>
    rw [totalScore]
    split
    · rename_i unmatched
      simp [unmatched]
    · rename_i matched
      simp [ih, matched]

omit positive in
theorem ne_nil_of_mem_queryTokens {query : Text} (member : token ∈ queryTokens lower query) :
    token ≠ [] := by
  have filled := (mem_filter.mp member).2
  rintro rfl
  simp at filled

theorem scoreMatch_isSome_iff (query : Text) :
    (scoreMatch lower query fields).isSome ↔ ∀ token ∈ queryTokens lower query,
      ∃ field ∈ fields, (∃ quality, Found token (lower field.text) quality) ∨
        NearMiss token (lower field.text) := by
  rw [scoreMatch]
  split
  · rename_i none
    simp [length_eq_zero_iff.mp none]
  · rw [totalScore_isSome_iff]
    exact forall₂_congr fun token member =>
      bestScore_ne_zero_iff positive (ne_nil_of_mem_queryTokens member)

end

/-- Where a token is found in some field, its score is that of a field where it is found: typos
have no part in it. -/
def TyposLast (lower : Text → Text) (query : Text) (fields : List SearchField) : Prop :=
  ∀ token ∈ queryTokens lower query,
    (∃ field ∈ fields, ∃ quality, Found token (lower field.text) quality) →
      ∃ field ∈ fields, (∃ quality, Found token (lower field.text) quality) ∧
        bestScore lower token fields = tokenFieldScore lower token field

/-- Where a token is found in some field, no field is so heavy that a typo in it counts more than
each of the places where the token is found. -/
def TyposOutweighed (lower : Text → Text) (query : Text) (fields : List SearchField) : Prop :=
  ∀ token ∈ queryTokens lower query,
    (∃ field ∈ fields, ∃ quality, Found token (lower field.text) quality) →
      ∀ near ∈ fields, NearMiss token (lower near.text) →
        ∃ field ∈ fields, ∃ quality, Found token (lower field.text) quality ∧
          15 * near.weight ≤ quality * field.weight

structure MatchedAsDocumented (lower : Text → Text) (query : Text) (fields : List SearchField) :
    Prop where
  defined : (scoreMatch lower query fields).isSome ↔ ∀ token ∈ queryTokens lower query,
    ∃ field ∈ fields, (∃ quality, Found token (lower field.text) quality) ∨
      NearMiss token (lower field.text)
  typos : TyposLast lower query fields

section

variable {lower : Text → Text} {query : Text} {fields : List SearchField}
  (positive : ∀ field ∈ fields, 0 < field.weight)

include positive

theorem typosLast_iff : TyposLast lower query fields ↔ TyposOutweighed lower query fields := by
  refine forall₂_congr fun token member => forall_congr' fun somewhere => ?_
  have named := ne_nil_of_mem_queryTokens member
  obtain ⟨above, reached, _⟩ := bestScore_spec lower token fields
  constructor
  · rintro ⟨field, inside, ⟨quality, found⟩, same⟩ near also missed
    have most := above near also
    rw [same] at most
    obtain ⟨best, bestFound, score, _⟩ | ⟨none, _⟩ := tokenFieldScore_cases lower field named
    · refine ⟨field, inside, best, bestFound, score ▸ most.trans' ?_⟩
      obtain ⟨other, otherFound, score, _⟩ | ⟨_, ⟨_, score⟩ | ⟨far, _⟩⟩ :=
        tokenFieldScore_cases lower near named
      · rw [score]
        have := otherFound.quality.1
        exact mul_le_mul_of_nonneg_right (by linarith) (positive near also).le
      · exact score.ge
      · exact absurd missed far
    · exact absurd found (none quality)
  · intro outweighed
    obtain ⟨field, inside, quality, found⟩ := somewhere
    have least := le_tokenFieldScore named (positive field inside) found
    have some : bestScore lower token fields ≠ 0 :=
      (bestScore_ne_zero_iff positive named).mpr ⟨field, inside, .inl ⟨quality, found⟩⟩
    obtain ⟨best, member, same⟩ := reached.resolve_left some
    obtain ⟨_, bestFound, _⟩ | ⟨_, ⟨near, score⟩ | ⟨_, score⟩⟩ :=
      tokenFieldScore_cases lower best named
    · exact ⟨best, member, ⟨_, bestFound⟩, same⟩
    · obtain ⟨other, otherInside, _, otherFound, more⟩ := outweighed best member near
      have fewer := le_tokenFieldScore named (positive other otherInside) otherFound
      refine ⟨other, otherInside, ⟨_, otherFound⟩, le_antisymm ?_ (above other otherInside)⟩
      rw [same, score]
      exact more.trans fewer
    · exact absurd (same.trans score) some

theorem matchedAsDocumented_iff :
    MatchedAsDocumented lower query fields ↔ TyposOutweighed lower query fields := by
  constructor
  · exact fun matched => (typosLast_iff positive).mp matched.typos
  · exact fun outweighed =>
      ⟨scoreMatch_isSome_iff positive query, (typosLast_iff positive).mpr outweighed⟩

end

/-- Items that match, by descending scores, and in their own order where scores are equal. -/
structure Ranked {Item : Type} (score : Item → Option Rat) (items ranked : List Item) : Prop where
  matching : ranked.Perm (items.filter fun item => (score item).isSome)
  descending : ranked.Pairwise fun first second =>
    ∀ high ∈ score first, ∀ low ∈ score second, low ≤ high
  stable : ∀ value, (ranked.filter fun item => score item = some value) =
    items.filter fun item => score item = some value

section

variable {Item : Type} (score : Item → Option Rat) (items : List Item)

def scored : List (Item × Rat) :=
  items.filterMap fun item => (score item).map fun value => (item, value)

theorem mem_scored {entry : Item × Rat} (member : entry ∈ scored score items) :
    score entry.1 = some entry.2 := by
  obtain ⟨item, _, same⟩ := mem_filterMap.mp member
  obtain ⟨value, found, rfl⟩ := map_eq_some_iff.mp same
  exact found

theorem map_fst_scored :
    (scored score items).map Prod.fst = items.filter fun item => (score item).isSome := by
  induction items with
  | nil => rfl
  | cons item rest ih =>
    rw [scored] at ih ⊢
    cases found : score item with
    | none | some value => simp [found, ih]

theorem ranked_mergeSort :
    Ranked score items (((scored score items).mergeSort fun a b => b.2 ≤ a.2).map Prod.fst) := by
  have sorts := mergeSort_perm (scored score items) fun a b => b.2 ≤ a.2
  have trans : ∀ a b c : Item × Rat, decide (b.2 ≤ a.2) = true → decide (c.2 ≤ b.2) = true →
      decide (c.2 ≤ a.2) = true := by
    intro a b c high low
    rw [decide_eq_true_eq] at high low ⊢
    exact low.trans high
  have total : ∀ a b : Item × Rat, (decide (b.2 ≤ a.2) || decide (a.2 ≤ b.2)) = true := by
    intro a b
    rw [Bool.or_eq_true, decide_eq_true_eq, decide_eq_true_eq]
    exact le_total _ _
  refine ⟨?_, ?_, fun value => ?_⟩
  · rw [← map_fst_scored]
    exact sorts.map _
  · rw [pairwise_map]
    refine (pairwise_mergeSort trans total (scored score items)).imp_of_mem ?_
    intro first second before behind le high isHigh low isLow
    have top := mem_scored score items (sorts.mem_iff.mp before)
    have bottom := mem_scored score items (sorts.mem_iff.mp behind)
    rw [mem_def, top, some.injEq] at isHigh
    rw [mem_def, bottom, some.injEq] at isLow
    rw [← isHigh, ← isLow]
    exact of_decide_eq_true le
  · -- Entries of one score are in order as they are, so the sort keeps them in place.
    have level : ((scored score items).filter fun entry => score entry.1 = some value).Pairwise
        fun a b => decide (b.2 ≤ a.2) = true := by
      refine pairwise_of_forall_mem_list fun a first b second => ?_
      obtain ⟨member, valued⟩ := mem_filter.mp first
      obtain ⟨also, same⟩ := mem_filter.mp second
      rw [decide_eq_true_eq, mem_scored score items member, some.injEq] at valued
      rw [decide_eq_true_eq, mem_scored score items also, some.injEq] at same
      rw [decide_eq_true_eq, valued, same]
    have kept := (sublist_mergeSort trans total level filter_sublist).filter
      fun entry => score entry.1 = some value
    simp only [List.filter_filter, Bool.and_self] at kept
    have same := kept.eq_of_length (sorts.filter _).length_eq.symm
    have matched : ∀ item ∈ items, ((decide (score item = some value)) && (score item).isSome) =
        decide (score item = some value) := by
      intro item _
      cases score item <;> simp
    rw [List.filter_map]
    change (List.filter (fun entry => decide (score entry.1 = some value)) _).map Prod.fst = _
    rw [← same, ← filter_congr matched, ← List.filter_filter, ← map_fst_scored, List.filter_map]
    rfl

theorem ranked_self (neutral : ∀ item, score item = some 0) : Ranked score items items := by
  refine ⟨?_, ?_, fun _ => rfl⟩
  · simp [neutral]
  · simp [neutral, pairwise_of_forall]

end

theorem rankSearch_ranked {Item : Type} {lower : Text → Text} (empty : lower [] = [])
    (query : Text) (items : List Item) (fieldsOf : Item → List SearchField) (limit : Option Nat) :
    ∃ ranked, rankSearch lower query items fieldsOf limit = cut limit ranked ∧
      Ranked (fun item => scoreMatch lower query (fieldsOf item)) items ranked := by
  rw [rankSearch]
  split
  · rename_i blank
    refine ⟨items, rfl, ranked_self _ _ fun item => ?_⟩
    have none : queryTokens lower query = [] := by
      rw [queryTokens, length_eq_zero_iff.mp blank, empty]
      rfl
    rw [scoreMatch, none]
    rfl
  · refine ⟨_, ?_, ranked_mergeSort _ _⟩
    cases limit with
    | none => rfl
    | some limit => exact map_take

/-- Texts are within one edit as the distance says, matches and scores are as documented where no
typo outweighs the places where its token is found, and results are ranked. -/
theorem search_as_documented (lower : Text → Text) (empty : lower [] = []) :
    (∀ a b, withinOneEdit a b = true ↔ levenshtein a b ≤ 1) ∧
      (∀ query fields, (∀ field ∈ fields, 0 < field.weight) →
        (MatchedAsDocumented lower query fields ↔ TyposOutweighed lower query fields)) ∧
      ∀ (Item : Type) (query : Text) (items : List Item) (fieldsOf : Item → List SearchField)
        (limit : Option Nat),
        ∃ ranked, rankSearch lower query items fieldsOf limit = cut limit ranked ∧
          Ranked (fun item => scoreMatch lower query (fieldsOf item)) items ranked :=
  ⟨fun _ _ => withinOneEdit_iff, fun _ _ positive => matchedAsDocumented_iff positive,
    fun _ query items fieldsOf limit => rankSearch_ranked empty query items fieldsOf limit⟩

/-- The units of `ides`, `idea` and `aides`. -/
def typoFields : List SearchField :=
  [⟨[105, 100, 101, 97], 3⟩, ⟨[97, 105, 100, 101, 115], 1⟩]

theorem search_as_documented_once :
    MatchedAsDocumented id [105, 100, 101, 115] [⟨[97, 105, 100, 101, 115], 1⟩] := by
  refine ((search_as_documented id rfl).2.1 [105, 100, 101, 115] [⟨[97, 105, 100, 101, 115], 1⟩]
    (by simp)).mpr ?_
  rintro token _ ⟨field, inside, quality, found⟩ near also _
  refine ⟨field, inside, quality, found, ?_⟩
  have enough := found.quality.1
  rw [mem_singleton.mp inside, mem_singleton.mp also]
  linarith

/-- A heavy field with a typo outscores a field that holds the token. -/
theorem typo_outscores_substring : ¬ MatchedAsDocumented id [105, 100, 101, 115] typoFields := by
  have positive : ∀ field ∈ typoFields, 0 < field.weight := by
    simp [typoFields]
  intro matched
  have outweighed := (typosLast_iff positive).mp matched.typos
  obtain ⟨field, inside, quality, found, more⟩ := outweighed [105, 100, 101, 115] (by decide)
    ⟨⟨[97, 105, 100, 101, 115], 1⟩, by simp [typoFields], 30, .inside (by decide)⟩
    ⟨[105, 100, 101, 97], 3⟩ (by simp [typoFields])
    ⟨by decide, [105, 100, 101, 97], by decide, withinOneEdit_iff.mp (by decide)⟩
  simp only [typoFields, mem_cons, not_mem_nil, or_false] at inside
  obtain rfl | rfl := inside
  · cases found with
    | equal same => exact absurd same (by decide)
    | front start | word start => exact absurd start (by decide)
    | inside part => exact absurd part (by decide)
  · cases found with
    | equal same => exact absurd same (by decide)
    | front start | word start => exact absurd start (by decide)
    | inside part => norm_num at more

end Dinkster.Search
