import Dinkster.Format.Types

/-!
# Canonical type ids

A canonical id is read by its first letters and its last bracket, a tuple at the commas outside
all brackets.  Whatever a text is read as has that text as its id.  A closed type is what its id is
read as, unless a list holds the concrete name `*`, which its id writes like the wildcard.
-/

namespace Dinkster.Format

open List

/-- The loop of `parseTupleTypeId`, with what has been read of the current element. -/
def tuplePositions (depth : Nat) (element : List Char) : List Char → Option (List (List Char))
  | [] => if depth = 0 then some [element] else none
  | char :: rest =>
    if char = '<' then tuplePositions (depth + 1) (element ++ [char]) rest
    else if char = '>' then
      if depth = 0 then none else tuplePositions (depth - 1) (element ++ [char]) rest
    else if char = ',' ∧ depth = 0 then
      (tuplePositions 0 [] rest).map fun later => element :: later
    else tuplePositions depth (element ++ [char]) rest

def parseTupleTypeId (typeId : String) : Option (List String) :=
  let chars := typeId.toList
  if "tuple<".toList.isPrefixOf chars ∧ chars.getLast? = some '>' then
    let body := (chars.drop 6).dropLast
    if body = [] then some []
    else
      match tuplePositions 0 [] body with
      | some elements =>
        if elements.all fun element => element ≠ [] then some (elements.map String.ofList) else none
      | none => none
  else none

variable {depth : Nat} {chars element opening : List Char} {positions : List (List Char)}
  {typeId inner : String}

theorem tuplePositions_join (read : tuplePositions depth element chars = some positions) :
    [','].intercalate positions = element ++ chars ∧ positions ≠ [] := by
  induction chars generalizing depth element positions with
  | nil =>
    rw [tuplePositions] at read
    split at read
    · cases read
      simp
    · cases read
  | cons char rest ih =>
    rw [tuplePositions] at read
    split at read
    · simpa using ih read
    · split at read
      · split at read
        · cases read
        · simpa using ih read
      · split at read
        · rename_i comma
          obtain ⟨later, inside, rfl⟩ := Option.map_eq_some_iff.mp read
          obtain ⟨joined, filled⟩ := ih inside
          rw [intercalate_cons_of_ne_nil filled, joined, comma.1]
          simp
        · simpa using ih read

theorem eq_of_framed (opens : opening <+: chars) (closes : chars.getLast? = some '>')
    (open_ : opening.getLast? ≠ some '>') :
    chars = opening ++ (chars.drop opening.length).dropLast ++ ['>'] := by
  obtain ⟨rest, rfl⟩ := opens
  have filled : rest ≠ [] := by
    rintro rfl
    exact open_ (by simpa using closes)
  rw [getLast?_append_of_ne_nil _ filled] at closes
  rw [drop_left, append_assoc, dropLast_append_getLast? _ closes]

theorem eq_of_parseParametricTypeId {prefix_ : String}
    (read : parseParametricTypeId typeId prefix_ = some inner)
    (open_ : prefix_.toList.getLast? ≠ some '>') : typeId = prefix_ ++ inner ++ ">" := by
  unfold parseParametricTypeId at read
  dsimp only at read
  split at read
  · rename_i framed
    cases read
    apply String.toList_injective
    simpa using eq_of_framed ( isPrefixOf_iff_prefix.mp framed.1) framed.2.1 open_
  · cases read

theorem eq_of_parseTupleTypeId {ids : List String} (read : parseTupleTypeId typeId = some ids) :
    typeId = "tuple<" ++ ",".intercalate ids ++ ">" := by
  unfold parseTupleTypeId at read
  dsimp only at read
  split at read
  · rename_i framed
    have whole : typeId.toList = "tuple<".toList ++ (typeId.toList.drop 6).dropLast ++ ['>'] :=
      eq_of_framed ( isPrefixOf_iff_prefix.mp framed.1) framed.2 (by decide)
    apply String.toList_injective
    rw [whole]
    split at read
    · rename_i empty
      cases read
      rw [empty]
      rfl
    · split at read
      · rename_i elements body
        split at read
        · cases read
          have joined := (tuplePositions_join body).1
          have same : (elements.map String.ofList).map String.toList = elements := by simp
          simp only [String.toList_append, String.toList_intercalate, same]
          rw [show ",".toList = [','] from rfl, joined]
          rfl
        · cases read
      · cases read
  · cases read

theorem length_lt_of_position {ids : List String} (read : parseTupleTypeId typeId = some ids)
    {id : String} (listed : id ∈ ids) : id.length < typeId.length := by
  have shorter : ∀ ids : List String, id ∈ ids → id.length ≤ (",".intercalate ids).length := by
    intro ids listed
    induction ids with
    | nil => cases listed
    | cons first rest ih =>
      by_cases last : rest = []
      · rw [last] at listed ⊢
        rw [mem_singleton.mp listed, String.intercalate_singleton]
      · rw [String.intercalate_cons_of_ne_nil last, String.length_append, String.length_append]
        cases mem_cons.mp listed with
        | inl here => rw [here]; omega
        | inr later => have := ih later; omega
  have := shorter ids listed
  rw [eq_of_parseTupleTypeId read, String.length_append, String.length_append]
  have one : ">".length = 1 := rfl
  omega

theorem length_lt_of_parametric {prefix_ : String}
    (read : parseParametricTypeId typeId prefix_ = some inner)
    (open_ : prefix_.toList.getLast? ≠ some '>') : inner.length < typeId.length := by
  rw [eq_of_parseParametricTypeId read open_, String.length_append, String.length_append]
  have one : ">".length = 1 := rfl
  omega

def typeExprFromTypeId (typeId : String) : TypeExpr :=
  match _tuple : parseTupleTypeId typeId with
  | some ids => .tuple (ids.attach.map fun id => typeExprFromTypeId id.1)
  | none =>
    match _list : parseListTypeId typeId with
    | some inner => .list (if inner = "*" then .wildcard else typeExprFromTypeId inner)
    | none =>
      match _asset : parseAssetTypeId typeId with
      | some inner => .asset (typeExprFromTypeId inner)
      | none =>
        match _stream : parseStreamTypeId typeId with
        | some inner => .stream (typeExprFromTypeId inner)
        | none => .concrete typeId
termination_by typeId.length
decreasing_by
  · exact length_lt_of_position _tuple id.2
  · exact length_lt_of_parametric _list (by decide)
  · exact length_lt_of_parametric _asset (by decide)
  · exact length_lt_of_parametric _stream (by decide)

theorem canonicalTypeIds_map {read : String → TypeExpr} {ids : List String}
    (canonical : ∀ id ∈ ids, canonicalTypeIdOf (read id) = some id) :
    canonicalTypeIds (ids.map read) = some ids := by
  induction ids with
  | nil => rfl
  | cons id rest ih =>
    simp [canonicalTypeIds, canonical id mem_cons_self,
      ih fun later listed => canonical later (mem_cons_of_mem _ listed)]

theorem canonicalTypeIdOf_list {element : TypeExpr} {id : String}
    (canonical : canonicalTypeIdOf element = some id) :
    canonicalTypeIdOf (.list element) = some (listTypeId id) := by
  cases element with
  | wildcard => cases canonical
  | _ => exact congrArg (Option.map listTypeId) canonical

theorem canonicalTypeIdOf_typeExprFromTypeId (typeId : String) :
    canonicalTypeIdOf (typeExprFromTypeId typeId) = some typeId := by
  fun_induction typeExprFromTypeId typeId with
  | case1 typeId ids read ih =>
    have same : ids.attach.map (fun id => typeExprFromTypeId id.1) = ids.map typeExprFromTypeId :=
      by simp
    rw [same, canonicalTypeIdOf, canonicalTypeIds_map fun id listed => ih ⟨id, listed⟩,
      eq_of_parseTupleTypeId read]
    rfl
  | case2 typeId _ inner read ih =>
    rw [eq_of_parseParametricTypeId read (by decide)]
    split
    · rename_i star
      rw [star]
      rfl
    · rw [canonicalTypeIdOf_list ih]
      rfl
  | case3 typeId _ _ inner read ih | case4 typeId _ _ _ inner read ih =>
    rw [canonicalTypeIdOf, ih, eq_of_parseParametricTypeId read (by decide)]
    rfl
  | case5 => rfl

/-- The name of a concrete type, which no constructor's id is. -/
def AtomName (name : String) : Prop :=
  name ≠ "" ∧ ∀ char ∈ name.toList, char ≠ '<' ∧ char ≠ '>' ∧ char ≠ ','

mutual

/-- The closed types, with no concrete `*` directly in a list. -/
def Closed : TypeExpr → Prop
  | .concrete name => AtomName name
  | .list .wildcard => True
  | .list element => element ≠ .concrete "*" ∧ Closed element
  | .asset element | .stream element => Closed element
  | .tuple elements => AllClosed elements
  | _ => False

def AllClosed : List TypeExpr → Prop
  | [] => True
  | element :: rest => Closed element ∧ AllClosed rest

end

/-- A text the comma splitter passes over as part of one element. -/
def Opaque (chars : List Char) : Prop :=
  ∀ depth element rest,
    tuplePositions depth element (chars ++ rest) = tuplePositions depth (element ++ chars) rest

theorem opaque_of_plain (plain : ∀ char ∈ chars, char ≠ '<' ∧ char ≠ '>' ∧ char ≠ ',') :
    Opaque chars := by
  intro depth element rest
  induction chars generalizing element with
  | nil => simp
  | cons char later ih =>
    have here := plain char mem_cons_self
    rw [cons_append, tuplePositions, if_neg here.1, if_neg here.2.1,
      if_neg fun comma => here.2.2 comma.1, ih fun c listed => plain c (mem_cons_of_mem _ listed)]
    simp

theorem opaque_of_framed {letters inner : List Char} (plain : Opaque letters)
    (inside : ∀ depth element rest, tuplePositions (depth + 1) element (inner ++ rest) =
      tuplePositions (depth + 1) (element ++ inner) rest) :
    Opaque (letters ++ '<' :: inner ++ ['>']) := by
  intro depth element rest
  have opened : ∀ element rest, tuplePositions depth element ('<' :: rest) =
      tuplePositions (depth + 1) (element ++ ['<']) rest := fun _ _ => by simp [tuplePositions]
  have closed : ∀ element rest, tuplePositions (depth + 1) element ('>' :: rest) =
      tuplePositions depth (element ++ ['>']) rest := fun _ _ => by simp [tuplePositions]
  rw [append_assoc, append_assoc, plain, cons_append, opened, append_assoc, inside,
    singleton_append, closed]
  simp

/-- Inside a bracket the commas between elements are passed over too. -/
theorem tuplePositions_intercalate {texts : List (List Char)} (all : ∀ text ∈ texts, Opaque text)
    (rest : List Char) : tuplePositions (depth + 1) element ([','].intercalate texts ++ rest) =
      tuplePositions (depth + 1) (element ++ [','].intercalate texts) rest := by
  induction texts generalizing element with
  | nil => simp
  | cons text later ih =>
    by_cases last : later = []
    · rw [last, intercalate_singleton, all text mem_cons_self]
    · have comma : ∀ element rest, tuplePositions (depth + 1) element (',' :: rest) =
          tuplePositions (depth + 1) (element ++ [',']) rest := fun _ _ => by simp [tuplePositions]
      rw [intercalate_cons_of_ne_nil last, append_assoc, append_assoc, all text mem_cons_self,
        singleton_append, comma, ih fun t listed => all t (mem_cons_of_mem _ listed)]
      simp

/-- Outside all brackets they separate the elements. -/
theorem tuplePositions_split {texts : List (List Char)} (all : ∀ text ∈ texts, Opaque text)
    (filled : texts ≠ []) : tuplePositions 0 [] ([','].intercalate texts) = some texts := by
  induction texts with
  | nil => exact absurd rfl filled
  | cons text later ih =>
    have here := all text mem_cons_self 0 []
    by_cases last : later = []
    · have := here []
      rw [last, intercalate_singleton]
      simpa [tuplePositions] using this
    · rw [intercalate_cons_of_ne_nil last, append_assoc, here, singleton_append, tuplePositions,
        if_neg (by decide), if_neg (by decide), if_pos ⟨rfl, rfl⟩,
        ih (fun t listed => all t (mem_cons_of_mem _ listed)) last]
      simp

/-- The id of a type: a text without loose commas that is read as the type. -/
structure Denotes (id : String) (t : TypeExpr) : Prop where
  filled : id ≠ ""
  unbroken : Opaque id.toList
  read : typeExprFromTypeId id = t

theorem parseParametricTypeId_framed {prefix_ : String} (filled : inner ≠ "") :
    parseParametricTypeId (prefix_ ++ inner ++ ">") prefix_ = some inner := by
  have some_ : 0 < inner.toList.length := by
    rw [length_pos_iff, Ne, String.toList_eq_nil_iff]
    exact filled
  have long : prefix_.toList.length + 1 < (prefix_ ++ inner ++ ">").toList.length := by
    simp at *
    omega
  rw [parseParametricTypeId, if_pos ⟨by simp, by simp, long⟩]
  simp

theorem parseTupleTypeId_framed {ids : List String} (all : ∀ id ∈ ids, id ≠ "" ∧ Opaque id.toList) :
    parseTupleTypeId ("tuple<" ++ ",".intercalate ids ++ ">") = some ids := by
  have body : (("tuple<" ++ ",".intercalate ids ++ ">").toList.drop 6).dropLast =
      [','].intercalate (ids.map String.toList) := by
    simp [String.toList_intercalate]
  have opens : "tuple<".toList.isPrefixOf ("tuple<" ++ ",".intercalate ids ++ ">").toList := by
    simp
  have closes : ("tuple<" ++ ",".intercalate ids ++ ">").toList.getLast? = some '>' := by
    rw [String.toList_append]
    exact getLast?_concat
  rw [parseTupleTypeId, if_pos ⟨opens, closes⟩]
  dsimp only
  rw [body]
  cases ids with
  | nil => rfl
  | cons id rest =>
    have texts : ∀ text ∈ (id :: rest).map String.toList, text ≠ [] ∧ Opaque text := by
      intro text listed
      obtain ⟨one, member, rfl⟩ := mem_map.mp listed
      exact ⟨mt String.toList_eq_nil_iff.mp (all one member).1, (all one member).2⟩
    have split := tuplePositions_split (fun text listed => (texts text listed).2) (by simp)
    have some_ : [','].intercalate ((id :: rest).map String.toList) ≠ [] := by
      intro none
      rw [none] at split
      have empty : [[]] = (id :: rest).map String.toList := Option.some_inj.mp split
      exact (texts [] (empty ▸ mem_singleton_self [])).1 rfl
    rw [if_neg some_, split]
    dsimp only
    rw [if_pos (all_eq_true.mpr fun text listed => decide_eq_true (texts text listed).1)]
    simp

theorem typeExprFromTypeId_eq (typeId : String) : typeExprFromTypeId typeId =
      match parseTupleTypeId typeId, parseListTypeId typeId, parseAssetTypeId typeId,
        parseStreamTypeId typeId with
      | some ids, _, _, _ => .tuple (ids.map typeExprFromTypeId)
      | none, some inner, _, _ => .list (if inner = "*" then .wildcard else typeExprFromTypeId inner)
      | none, none, some inner, _ => .asset (typeExprFromTypeId inner)
      | none, none, none, some inner => .stream (typeExprFromTypeId inner)
      | none, none, none, none => .concrete typeId := by
  fun_cases typeExprFromTypeId typeId <;> simp [*]

theorem parseTupleTypeId_eq_none (opens : "tuple<".toList.isPrefixOf typeId.toList = false) :
    parseTupleTypeId typeId = none := by
  simp only [parseTupleTypeId, opens]
  rfl

theorem parseParametricTypeId_eq_none {prefix_ : String}
    (opens : prefix_.toList.isPrefixOf typeId.toList = false) :
    parseParametricTypeId typeId prefix_ = none := by
  simp only [parseParametricTypeId, opens]
  rfl

theorem typeExprFromTypeId_list (filled : inner ≠ "") : typeExprFromTypeId (listTypeId inner) =
      .list (if inner = "*" then .wildcard else typeExprFromTypeId inner) := by
  have list : parseListTypeId (listTypeId inner) = some inner := parseParametricTypeId_framed filled
  rw [typeExprFromTypeId_eq, parseTupleTypeId_eq_none (by simp [listTypeId, isPrefixOf]), list]

theorem typeExprFromTypeId_asset (filled : inner ≠ "") :
    typeExprFromTypeId (assetTypeId inner) = .asset (typeExprFromTypeId inner) := by
  have asset : parseAssetTypeId (assetTypeId inner) = some inner :=
    parseParametricTypeId_framed filled
  rw [typeExprFromTypeId_eq, parseTupleTypeId_eq_none (by simp [assetTypeId, isPrefixOf]), asset,
    parseListTypeId, parseParametricTypeId_eq_none (by simp [assetTypeId, isPrefixOf])]

theorem typeExprFromTypeId_stream (filled : inner ≠ "") :
    typeExprFromTypeId (streamTypeId inner) = .stream (typeExprFromTypeId inner) := by
  have stream : parseStreamTypeId (streamTypeId inner) = some inner :=
    parseParametricTypeId_framed filled
  rw [typeExprFromTypeId_eq, parseTupleTypeId_eq_none (by simp [streamTypeId, isPrefixOf]), stream,
    parseListTypeId, parseParametricTypeId_eq_none (by simp [streamTypeId, isPrefixOf]),
    parseAssetTypeId, parseParametricTypeId_eq_none (by simp [streamTypeId, isPrefixOf])]

/-- Nothing but its own letters is read in a plain name. -/
theorem denotes_of_atomName {name : String} (atom : AtomName name) :
    Denotes name (.concrete name) where
  filled := atom.1
  unbroken := opaque_of_plain atom.2
  read := by
    have plain : ∀ opening : String, '<' ∈ opening.toList →
        opening.toList.isPrefixOf name.toList = false := by
      intro opening bracket
      rw [Bool.eq_false_iff, Ne, isPrefixOf_iff_prefix]
      exact fun opens => (atom.2 '<' (opens.subset bracket)).1 rfl
    have list : parseListTypeId name = none :=
      parseParametricTypeId_eq_none (plain "list<" (by decide))
    have asset : parseAssetTypeId name = none :=
      parseParametricTypeId_eq_none (plain "asset<" (by decide))
    have stream : parseStreamTypeId name = none :=
      parseParametricTypeId_eq_none (plain "stream<" (by decide))
    rw [typeExprFromTypeId_eq, parseTupleTypeId_eq_none (plain "tuple<" (by decide)), list, asset,
      stream]

theorem Denotes.framed {prefix_ : String} {element t : TypeExpr} (within : Denotes inner element)
    (letters : List Char) (opens : prefix_.toList = letters ++ ['<'])
    (plain : ∀ char ∈ letters, char ≠ '<' ∧ char ≠ '>' ∧ char ≠ ',')
    (read : typeExprFromTypeId (prefix_ ++ inner ++ ">") = t) :
    Denotes (prefix_ ++ inner ++ ">") t where
  filled := by simp
  unbroken := by
    have framed := opaque_of_framed (opaque_of_plain plain) fun depth => within.unbroken (depth + 1)
    simpa [opens] using framed
  read := read

mutual

theorem denotes_of_closed (t : TypeExpr) (closed : Closed t) :
    ∃ id, canonicalTypeIdOf t = some id ∧ Denotes id t := by
  have star : Denotes "*" (.concrete "*") := denotes_of_atomName ⟨by decide, by simp⟩
  cases t with
  | concrete name => exact ⟨name, rfl, denotes_of_atomName closed⟩
  | list element =>
    by_cases wild : element = .wildcard
    · subst wild
      exact ⟨"list<*>", rfl, star.framed "list".toList rfl (by simp) (typeExprFromTypeId_list (by decide))⟩
    · have closed : element ≠ .concrete "*" ∧ Closed element := by
        cases element with
        | wildcard => exact absurd rfl wild
        | _ => exact closed
      obtain ⟨id, here, denotes⟩ := denotes_of_closed element closed.2
      refine ⟨_, canonicalTypeIdOf_list here, denotes.framed "list".toList rfl (by simp) ?_⟩
      have other : id ≠ "*" := by
        rintro rfl
        exact closed.1 (denotes.read.symm.trans star.read)
      have read := typeExprFromTypeId_list denotes.filled
      rwa [if_neg other, denotes.read] at read
  | asset element =>
    obtain ⟨id, here, denotes⟩ := denotes_of_closed element closed
    refine ⟨assetTypeId id, by rw [canonicalTypeIdOf, here]; rfl, denotes.framed "asset".toList rfl (by simp) ?_⟩
    have read := typeExprFromTypeId_asset denotes.filled
    rwa [denotes.read] at read
  | stream element =>
    obtain ⟨id, here, denotes⟩ := denotes_of_closed element closed
    refine ⟨streamTypeId id, by rw [canonicalTypeIdOf, here]; rfl, denotes.framed "stream".toList rfl (by simp) ?_⟩
    have read := typeExprFromTypeId_stream denotes.filled
    rwa [denotes.read] at read
  | tuple elements =>
    obtain ⟨ids, here, all, reads⟩ := denote_of_allClosed elements closed
    refine ⟨_, by rw [canonicalTypeIdOf, here]; rfl, by simp, ?_, ?_⟩
    · have texts : ∀ text ∈ ids.map String.toList, Opaque text := by
        intro text listed
        obtain ⟨id, member, rfl⟩ := mem_map.mp listed
        exact (all id member).2
      have framed := opaque_of_framed (@opaque_of_plain "tuple".toList (by simp))
        fun depth element => tuplePositions_intercalate texts
      simpa [String.toList_intercalate] using framed
    · rw [typeExprFromTypeId_eq, parseTupleTypeId_framed all]
      exact congrArg _ reads
  | _ => exact closed.elim

theorem denote_of_allClosed (elements : List TypeExpr) (closed : AllClosed elements) :
    ∃ ids, canonicalTypeIds elements = some ids ∧ (∀ id ∈ ids, id ≠ "" ∧ Opaque id.toList) ∧
      ids.map typeExprFromTypeId = elements := by
  cases elements with
  | nil => exact ⟨[], rfl, by simp, rfl⟩
  | cons element rest =>
    obtain ⟨id, here, denotes⟩ := denotes_of_closed element closed.1
    obtain ⟨ids, later, all, reads⟩ := denote_of_allClosed rest closed.2
    refine ⟨id :: ids, by rw [canonicalTypeIds, here, later], ?_, by rw [map_cons, denotes.read, reads]⟩
    exact forall_mem_cons.mpr ⟨⟨denotes.filled, denotes.unbroken⟩, all⟩

end

/-- Every text has the id of what it is read as; a closed type without a concrete `*` in a list is
what its id is read as, and two such types with one id are the same. -/
theorem typeIds_roundTrip :
    (∀ typeId, canonicalTypeIdOf (typeExprFromTypeId typeId) = some typeId) ∧
      (∀ t, Closed t → (canonicalTypeIdOf t).map typeExprFromTypeId = some t) ∧
      ∀ s t, Closed s → Closed t → canonicalTypeIdOf s = canonicalTypeIdOf t → s = t := by
  have back : ∀ t, Closed t → (canonicalTypeIdOf t).map typeExprFromTypeId = some t := by
    intro t closed
    obtain ⟨id, here, denotes⟩ := denotes_of_closed t closed
    rw [here, Option.map_some, denotes.read]
  refine ⟨canonicalTypeIdOf_typeExprFromTypeId, back, fun s t ofS ofT same => ?_⟩
  have := back s ofS
  rw [same, back t ofT] at this
  exact (Option.some_inj.mp this).symm

/-- A list of the concrete name `*` has the id of a list of anything. -/
theorem typeIds_star : AtomName "*" ∧ canonicalTypeIdOf (.list (.concrete "*")) = some "list<*>" ∧
      canonicalTypeIdOf (.list .wildcard) = some "list<*>" ∧
      typeExprFromTypeId "list<*>" ≠ .list (.concrete "*") := by
  refine ⟨⟨by decide, by simp⟩, rfl, rfl, ?_⟩
  have read : typeExprFromTypeId "list<*>" = .list .wildcard :=
    @typeExprFromTypeId_list "*" (by decide)
  rw [read]
  simp

end Dinkster.Format
