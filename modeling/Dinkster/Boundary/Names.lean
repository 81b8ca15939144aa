import Dinkster.Format.Graph
import Dinkster.Library.Naming

/-!
# Boundary names

An extraction names the items of the boundary it creates.  The names are distinct, but an
instance address of a forwarding item may extend the item's id after a dot, and the names may
contain dots.  The items an address fits are one exactly when no name continues the name of a
forwarding item of its side after a dot.
-/

namespace Dinkster.Boundary

open Format Library List

inductive BoundarySide where
  | input
  | output
  deriving DecidableEq

structure BoundaryNameCandidate where
  side : BoundarySide
  base : String
  orderKey : String

structure PlannedBoundaryName extends BoundaryNameCandidate where
  id : String

def codeUnits (text : String) : List Nat :=
  text.toList.flatMap fun char =>
    if char.toNat < 65536 then [char.toNat]
    else [55296 + (char.toNat - 65536) / 1024, 56320 + (char.toNat - 65536) % 1024]

def compareStrings (first second : String) : Ordering :=
  if codeUnits first < codeUnits second then .lt
  else if codeUnits second < codeUnits first then .gt
  else .eq

def compareSides : BoundarySide → BoundarySide → Ordering
  | .input, .output => .lt
  | .output, .input => .gt
  | _, _ => .eq

/-- The comparison the candidates are sorted by. -/
def comesBefore (first second : BoundaryNameCandidate × Nat) : Prop :=
  ((compareSides first.1.side second.1.side).then
    ((compareStrings first.1.orderKey second.1.orderKey).then
      (compare first.2 second.2))) ≠ .gt

instance : DecidableRel comesBefore := fun _ _ =>
  inferInstanceAs (Decidable (_ ≠ Ordering.gt))

def namingOrder (candidates : List BoundaryNameCandidate) : List (BoundaryNameCandidate × Nat) :=
  candidates.zipIdx.insertionSort comesBefore

def BoundaryNameCandidate.baseOrSide (candidate : BoundaryNameCandidate) : String :=
  if candidate.base ≠ "" then candidate.base
  else match candidate.side with
    | .input => "input"
    | .output => "output"

variable (base : String)

/-- A base, and the base with the suffixes from `_2` on. -/
def numbered : Nat → String
  | 0 => base
  | index + 1 => base ++ "_" ++ toString (index + 2)

def orderedBases (candidates : List BoundaryNameCandidate) : List String :=
  (namingOrder candidates).map (·.1.baseOrSide)

def plannedId (candidates : List BoundaryNameCandidate) (index : Nat) : String :=
  let ids := assign numbered [] (orderedBases candidates)
  match ((namingOrder candidates).zip ids).find? (·.1.2 = index) with
  | some (_, id) => id
  | none => ""

def planBoundaryNames (candidates : List BoundaryNameCandidate) : List PlannedBoundaryName :=
  candidates.zipIdx.map fun (candidate, index) => ⟨candidate, plannedId candidates index⟩

/-- What an extraction cuts: the candidate for its name and the bindings of its item. -/
structure BoundaryCut where
  candidate : BoundaryNameCandidate
  binds : Binding
  alsoBinds : List Binding
  promoted : Bool

def BoundaryCut.item (cut : BoundaryCut) (name : PlannedBoundaryName) : BoundaryItem :=
  ⟨name.id, cut.binds, cut.alsoBinds, cut.promoted⟩

def extractedItems (cuts : List BoundaryCut) (side : BoundarySide) : List BoundaryItem :=
  (((planBoundaryNames (cuts.map (·.candidate))).zip cuts).filter (·.1.side = side)).map
    fun (name, cut) => cut.item name

/-- The instance-side addresses elaboration produces for an item: its id, and for a
forwarding item also a dotted extension of its id and the members of its families. -/
inductive Produces (item : BoundaryItem) : PortAddress → Prop where
  | port : Produces item ⟨item.id, []⟩
  | members (forwards : item.binds.forwards = true) (members : List String) :
      Produces item ⟨item.id, members⟩
  | extension (forwards : item.binds.forwards = true) (path : String) (members : List String) :
      Produces item ⟨item.id ++ "." ++ path, members⟩

def AddressesOwnItem (items : List BoundaryItem) : Prop :=
  ∀ item ∈ items, ∀ address, Produces item address →
    matchBoundaryItem items address = .item item

variable {address : PortAddress} {item : BoundaryItem} {items : List BoundaryItem}

theorem fits_of_produces (produced : Produces item address) : item.fits address = true := by
  unfold BoundaryItem.fits
  cases produced with
  | port => simp
  | members forwards members => simp [forwards]
  | extension forwards path members =>
    rw [if_pos forwards, Bool.or_eq_true]
    have joined : (item.id ++ "." ++ path).toList = (item.id ++ ".").toList ++ path.toList :=
      String.toList_append
    exact .inr ( isPrefixOf_iff_prefix.mpr ⟨path.toList, joined.symm⟩)

theorem filter_eq_singleton {Element : Type} {kept : Element → Bool} {elements : List Element}
    {element : Element} (distinct : elements.Nodup) (listed : element ∈ elements)
    (good : kept element = true) (only : ∀ other ∈ elements, kept other = true → other = element) :
    elements.filter kept = [element] := by
  have inside : element ∈ elements.filter kept := mem_filter.mpr ⟨listed, good⟩
  refine (perm_singleton.mp ?_)
  refine (perm_ext_iff_of_nodup (distinct.filter _) (nodup_singleton _)).mpr ?_
  intro other
  rw [mem_singleton]
  constructor
  · intro found
    have parts := mem_filter.mp found
    exact only other parts.1 parts.2
  · rintro rfl
    exact inside

theorem matchBoundaryItem_eq_item_iff :
    matchBoundaryItem items address = .item item ↔ items.filter (·.fits address) = [item] := by
  unfold matchBoundaryItem
  constructor
  · intro found
    split at found
    · rename_i single
      rw [single, BoundaryMatch.item.inj found]
    all_goals cases found
  · intro single
    rw [single]

/-- No forwarding item is continued by the id of an item after a dot. -/
def Undotted (items : List BoundaryItem) : Prop :=
  ∀ item ∈ items, item.binds.forwards = true → ∀ other ∈ items,
    ¬(item.id ++ ".").toList <+: other.id.toList

theorem toList_dotted (id : String) : (id ++ ".").toList = id.toList ++ ['.'] :=
  String.toList_append

theorem fits_cases (fits : item.fits address = true) : address.port = item.id ∨
      (item.binds.forwards = true ∧ (item.id ++ ".").toList <+: address.port.toList) := by
  unfold BoundaryItem.fits at fits
  split at fits
  · rename_i forwards
    rw [Bool.or_eq_true] at fits
    cases fits with
    | inl same => exact .inl (of_decide_eq_true same)
    | inr dotted => exact .inr ⟨forwards, isPrefixOf_iff_prefix.mp dotted⟩
  · rw [Bool.and_eq_true] at fits
    exact .inl (of_decide_eq_true fits.1)

theorem id_eq_of_fits (undotted : Undotted items) {other : BoundaryItem} (listed : item ∈ items)
    (also : other ∈ items) (fits : item.fits address = true) (again : other.fits address = true) :
    item.id = other.id := by
  cases fits_cases fits with
  | inl here =>
    cases fits_cases again with
    | inl there => rw [← here, there]
    | inr dotted =>
      rw [here] at dotted
      exact absurd dotted.2 (undotted other also dotted.1 item listed)
  | inr dotted =>
    cases fits_cases again with
    | inl there =>
      rw [there] at dotted
      exact absurd dotted.2 (undotted item listed dotted.1 other also)
    | inr continued =>
      have shorter := undotted item listed dotted.1 other also
      have longer := undotted other also continued.1 item listed
      have first := dotted.2
      have second := continued.2
      rw [toList_dotted] at first second shorter longer
      -- Of two dotted prefixes of one text, one is within the id of the other or equal.
      cases prefix_or_prefix_of_prefix first second with
      | inl within =>
        cases prefix_concat_iff.mp within with
        | inl same => exact String.toList_injective (append_inj' same rfl).1
        | inr within => exact absurd within shorter
      | inr within =>
        cases prefix_concat_iff.mp within with
        | inl same => exact (String.toList_injective (append_inj' same rfl).1).symm
        | inr within => exact absurd within longer

theorem addressesOwnItem_iff (distinct : (items.map (·.id)).Nodup) :
    AddressesOwnItem items ↔ Undotted items := by
  constructor
  · intro own item listed forwards other also dotted
    have found := matchBoundaryItem_eq_item_iff.mp (own other also ⟨other.id, []⟩ .port)
    have fits : item.fits ⟨other.id, []⟩ = true := by
      unfold BoundaryItem.fits
      rw [if_pos forwards, Bool.or_eq_true]
      exact .inr ( isPrefixOf_iff_prefix.mpr dotted)
    have kept : item ∈ items.filter (·.fits ⟨other.id, []⟩) := mem_filter.mpr ⟨listed, fits⟩
    rw [found, mem_singleton] at kept
    rw [kept, toList_dotted] at dotted
    have bound := dotted.length_le
    rw [length_append, length_singleton] at bound
    omega
  · intro undotted item listed address produced
    have fits := fits_of_produces produced
    refine matchBoundaryItem_eq_item_iff.mpr
      (filter_eq_singleton (List.Nodup.of_map _ distinct) listed fits ?_)
    intro other also again
    exact inj_on_of_nodup_map distinct also listed (id_eq_of_fits undotted also listed again fits)

/-- What a form adds to its base has no dot. -/
theorem numbered_suffix (index : Nat) :
    ∃ suffix, (numbered base index).toList = base.toList ++ suffix ∧ '.' ∉ suffix := by
  cases index with
  | zero => exact ⟨[], (append_nil _).symm, not_mem_nil⟩
  | succ index =>
    refine ⟨'_' :: Nat.toDigits 10 (index + 2), ?_, ?_⟩
    · unfold numbered
      rw [String.toList_append, String.toList_append, append_assoc]
      simp [toString, Nat.repr]
    · intro listed
      cases mem_cons.mp listed with
      | inl same => exact absurd same (by decide)
      | inr digit =>
        have := Nat.isDigit_of_mem_toDigits (by decide) (by decide) digit
        exact absurd this (by decide)

theorem numbered_injective : Function.Injective (numbered base) := by
  have longer : ∀ index, numbered base (index + 1) ≠ base := by
    intro index same
    have lengths := congrArg (·.toList.length) same
    simp only [numbered, String.toList_append, length_append] at lengths
    have : "_".toList.length = 1 := by decide
    omega
  intro first second same
  cases first with
  | zero =>
    cases second with
    | zero => rfl
    | succ second => exact absurd same.symm (longer second)
  | succ first =>
    cases second with
    | zero => exact absurd same (longer first)
    | succ second =>
      have chars := congrArg String.toList same
      simp only [numbered, String.toList_append] at chars
      have digits := String.toList_injective (append_cancel_left chars)
      have numbers := decimal_injective digits
      omega

/-- A dotted text starts a form only when it starts the base. -/
theorem dotted_numbered (name base : String) (index : Nat) :
    (name ++ ".").toList <+: (numbered base index).toList ↔
      (name ++ ".").toList <+: base.toList := by
  obtain ⟨suffix, shape, clean⟩ := numbered_suffix base index
  rw [shape, toList_dotted]
  constructor
  · intro within
    cases prefix_or_prefix_of_prefix within (prefix_append _ _) with
    | inl inside => exact inside
    | inr beyond =>
      obtain ⟨rest, split⟩ := beyond
      rw [← split, prefix_append_right_inj] at within
      cases eq_nil_or_concat rest with
      | inl none =>
        rw [none, append_nil] at split
        exact split ▸ prefix_refl _
      | inr last =>
        obtain ⟨front, char, same⟩ := last
        rw [concat_eq_append] at same
        rw [same, ← append_assoc] at split
        have dot := (List.cons.inj (append_inj' split rfl).2).1
        rw [same, dot] at within
        exact absurd (within.subset (by simp)) clean
  · intro within
    exact within.trans (prefix_append _ _)

theorem namingOrder_perm (candidates : List BoundaryNameCandidate) :
    (namingOrder candidates).Perm candidates.zipIdx :=
  perm_insertionSort _ _

theorem namingOrder_indices (candidates : List BoundaryNameCandidate) :
    ((namingOrder candidates).map (·.2)).Nodup := by
  refine ((namingOrder_perm candidates).map (·.2)).nodup_iff.mpr ?_
  rw [zipIdx_map_snd]
  exact nodup_range'

def entries (candidates : List BoundaryNameCandidate) (names : List String) :
    List ((BoundaryNameCandidate × Nat) × String) :=
  (namingOrder candidates).zip names

variable {candidates : List BoundaryNameCandidate} {names : List String} {cuts : List BoundaryCut}

theorem plannedId_of_entry (takes : Takes numbered (orderedBases candidates) names)
    {entry : (BoundaryNameCandidate × Nat) × String} (listed : entry ∈ entries candidates names) :
    plannedId candidates entry.1.2 = entry.2 := by
  have assigned := takes.unique (takes_assign_nil numbered_injective _)
  have lengths : (namingOrder candidates).length ≤ names.length := by
    rw [takes.length, orderedBases, length_map]
  have distinct : ((entries candidates names).map (·.1.2)).Nodup := by
    have first : (entries candidates names).map (·.1) = namingOrder candidates :=
      map_fst_zip lengths
    have indices := namingOrder_indices candidates
    rw [← first, map_map] at indices
    exact indices
  unfold plannedId
  simp only [← assigned]
  cases found : ((namingOrder candidates).zip names).find? (·.1.2 = entry.1.2) with
  | none =>
    have missed := List.find?_eq_none.mp found entry listed
    simp at missed
  | some other =>
    have same : other.1.2 = entry.1.2 := by simpa using find?_some found
    rw [inj_on_of_nodup_map distinct (mem_of_find?_eq_some found) listed same]

theorem exists_entry (takes : Takes numbered (orderedBases candidates) names)
    {candidate : BoundaryNameCandidate} {index : Nat}
    (listed : candidates[index]? = some candidate) :
    ∃ name, ((candidate, index), name) ∈ entries candidates names := by
  have placed : (candidate, index) ∈ namingOrder candidates := by
    rw [(namingOrder_perm candidates).mem_iff, mem_zipIdx_iff_getElem?]
    exact listed
  obtain ⟨place, here⟩ := mem_iff_getElem?.mp placed
  have bound : place < names.length := by
    rw [takes.length, orderedBases, length_map]
    exact (List.getElem?_eq_some_iff.mp here).1
  exact ⟨names[place], mem_iff_getElem?.mpr ⟨place, getElem?_zip_eq_some.mpr
    ⟨here, getElem?_eq_getElem bound⟩⟩⟩

/-- Planned ids are distinct. -/
theorem planned_nodup (candidates : List BoundaryNameCandidate) :
    ((planBoundaryNames candidates).map (·.id)).Nodup := by
  have takes := takes_assign_nil numbered_injective (orderedBases candidates)
  have ids : (planBoundaryNames candidates).map (·.id) =
      (List.range' 0 candidates.length).map (plannedId candidates) := by
    unfold planBoundaryNames
    rw [map_map, ← zipIdx_map_snd, map_map]
    rfl
  rw [ids]
  refine List.Nodup.map_on ?_ nodup_range'
  intro first inside second within same
  have firstBound : first < candidates.length := by simpa using inside
  have secondBound : second < candidates.length := by simpa using within
  obtain ⟨name, listed⟩ := exists_entry takes (getElem?_eq_getElem firstBound)
  obtain ⟨other, also⟩ := exists_entry takes (getElem?_eq_getElem secondBound)
  have left := plannedId_of_entry takes listed
  have right := plannedId_of_entry takes also
  have equal : name = other := left.symm.trans (same.trans right)
  have lengths : (assign numbered [] (orderedBases candidates)).length ≤
      (namingOrder candidates).length := by
    rw [length_assign, orderedBases, length_map]
  have names : ((entries candidates (assign numbered [] (orderedBases candidates))).map
      (·.2)).Nodup := by
    unfold entries
    rw [map_snd_zip lengths]
    exact takes.nodup
  have together := inj_on_of_nodup_map names listed also equal
  exact congrArg (·.1.2) together

example : (planBoundaryNames [⟨.output, "same", "b"⟩, ⟨.input, "", "b"⟩, ⟨.input, "same", "a"⟩,
    ⟨.output, "", "a"⟩, ⟨.input, "same", "c"⟩]).map (·.id) =
      ["same_3", "input", "same", "output", "same_2"] := by
  decide

theorem mem_extractedItems {side : BoundarySide} :
    item ∈ extractedItems cuts side ↔ ∃ index, ∃ cut : BoundaryCut, cuts[index]? = some cut ∧
      cut.candidate.side = side ∧
        item = cut.item ⟨cut.candidate, plannedId (cuts.map (·.candidate)) index⟩ := by
  have planned : ∀ index, (planBoundaryNames (cuts.map (·.candidate)))[index]? =
      cuts[index]?.map fun cut : BoundaryCut =>
        (⟨cut.candidate, plannedId (cuts.map (·.candidate)) index⟩ : PlannedBoundaryName) := by
    intro index
    unfold planBoundaryNames
    rw [getElem?_map, getElem?_zipIdx, getElem?_map, Option.map_map, Option.map_map]
    cases cuts[index]? with
    | none => rfl
    | some cut => simp
  unfold extractedItems
  rw [mem_map]
  constructor
  · rintro ⟨⟨name, cut⟩, kept, same⟩
    obtain ⟨paired, sided⟩ := mem_filter.mp kept
    obtain ⟨index, found⟩ := mem_iff_getElem?.mp paired
    obtain ⟨named, here⟩ := getElem?_zip_eq_some.mp found
    rw [planned index, here] at named
    have equal : ⟨cut.candidate, plannedId (cuts.map (·.candidate)) index⟩ = name :=
      Option.some.inj named
    refine ⟨index, cut, here, ?_, same.symm.trans (congrArg cut.item equal.symm)⟩
    rw [← equal] at sided
    exact of_decide_eq_true sided
  · rintro ⟨index, cut, here, sided, same⟩
    refine ⟨(⟨cut.candidate, plannedId (cuts.map (·.candidate)) index⟩, cut), ?_, same.symm⟩
    refine mem_filter.mpr ⟨mem_iff_getElem?.mpr ⟨index, ?_⟩, decide_eq_true sided⟩
    refine getElem?_zip_eq_some.mpr ⟨?_, here⟩
    rw [planned index, here]
    rfl

theorem extractedItems_nodup (cuts : List BoundaryCut) (side : BoundarySide) :
    ((extractedItems cuts side).map (·.id)).Nodup := by
  have lengths : (planBoundaryNames (cuts.map (·.candidate))).length ≤ cuts.length := by
    simp [planBoundaryNames]
  have whole := planned_nodup (cuts.map (·.candidate))
  rw [← map_fst_zip lengths, map_map] at whole
  unfold extractedItems
  rw [map_map]
  exact whole.sublist (filter_sublist.map _)

/-- No name a forwarding cut takes starts, with a dot after it, the base of a cut of its
side.  The names are those in which every base has its first form that no base named before
it has. -/
def NoneContinued (cuts : List BoundaryCut) : Prop :=
  ∀ names, Takes numbered (orderedBases (cuts.map (·.candidate))) names →
    ∀ candidate index name, ((candidate, index), name) ∈ entries (cuts.map (·.candidate)) names →
      ∀ cut, cuts[index]? = some cut → cut.binds.forwards = true →
        ∀ other ∈ cuts, other.candidate.side = cut.candidate.side →
          ¬(name ++ ".").toList <+: other.candidate.baseOrSide.toList

theorem plannedId_formed {index : Nat} {cut : BoundaryCut} (here : cuts[index]? = some cut) :
    ∃ form, plannedId (cuts.map (·.candidate)) index = numbered cut.candidate.baseOrSide form := by
  have takes := takes_assign_nil numbered_injective (orderedBases (cuts.map (·.candidate)))
  have candidate : (cuts.map (·.candidate))[index]? = some cut.candidate := by
    rw [getElem?_map, here]
    rfl
  obtain ⟨name, listed⟩ := exists_entry takes candidate
  have paired : (cut.candidate.baseOrSide, name) ∈ (orderedBases (cuts.map (·.candidate))).zip
        (assign numbered [] (orderedBases (cuts.map (·.candidate)))) := by
    have mapped := mem_map_of_mem (f := Prod.map (·.1.baseOrSide) id) listed
    rw [entries, ← zip_map] at mapped
    simpa [orderedBases] using mapped
  obtain ⟨form, same⟩ := takes.formed paired
  exact ⟨form, (plannedId_of_entry takes listed).trans same⟩

theorem undotted_iff (cuts : List BoundaryCut) :
    (∀ side, Undotted (extractedItems cuts side)) ↔ NoneContinued cuts := by
  constructor
  · intro undotted names takes candidate index name listed cut here forwards other also sided
      continued
    obtain ⟨place, there⟩ := mem_iff_getElem?.mp also
    have named : plannedId (cuts.map (·.candidate)) index = name := plannedId_of_entry takes listed
    obtain ⟨form, shape⟩ := plannedId_formed there
    refine undotted cut.candidate.side _ (mem_extractedItems.mpr ⟨index, cut, here, rfl, rfl⟩)
      forwards _ (mem_extractedItems.mpr ⟨place, other, there, sided, rfl⟩) ?_
    change (plannedId _ index ++ ".").toList <+: (plannedId _ place).toList
    rw [named, shape, dotted_numbered]
    exact continued
  · intro none side item listed forwards other also dotted
    obtain ⟨index, cut, here, sided, rfl⟩ := mem_extractedItems.mp listed
    obtain ⟨place, found, there, opposite, rfl⟩ := mem_extractedItems.mp also
    have takes := takes_assign_nil numbered_injective (orderedBases (cuts.map (·.candidate)))
    have candidate : (cuts.map (·.candidate))[index]? = some cut.candidate := by
      rw [getElem?_map, here]
      rfl
    obtain ⟨name, entered⟩ := exists_entry takes candidate
    have named : plannedId (cuts.map (·.candidate)) index = name := plannedId_of_entry takes entered
    obtain ⟨form, shape⟩ := plannedId_formed there
    change (plannedId _ index ++ ".").toList <+: (plannedId _ place).toList at dotted
    rw [named, shape, dotted_numbered] at dotted
    exact none _ takes _ _ _ entered cut here forwards found (mem_of_getElem? there)
      (opposite.trans sided.symm) dotted

/-- The addresses of an extracted boundary refer to their own items exactly when no
forwarding item's name is continued after a dot by the base of a cut of its side. -/
theorem extracted_addresses_iff (cuts : List BoundaryCut) :
    (∀ side, AddressesOwnItem (extractedItems cuts side)) ↔ NoneContinued cuts := by
  rw [← undotted_iff]
  exact forall_congr' fun side => addressesOwnItem_iff (extractedItems_nodup cuts side)

/-- A family input `a` beside a concrete input `a.b`. -/
def dottedCuts : List BoundaryCut :=
  [⟨⟨.input, "a", "0"⟩, .forward .family ⟨"1", "a", []⟩, [], false⟩,
    ⟨⟨.input, "a.b", "1"⟩, .port ⟨"2", "a.b", []⟩ none, [], false⟩]

/-- The concrete input's own id is ambiguous. -/
theorem dotted_cut_ambiguous : ¬∀ side, AddressesOwnItem (extractedItems dottedCuts side) := by
  intro own
  have found := own .input ⟨"a.b", .port ⟨"2", "a.b", []⟩ none, [], false⟩
    (mem_extractedItems.mpr ⟨1, _, rfl, rfl, rfl⟩) ⟨"a.b", []⟩ .port
  have one := congrArg List.length (matchBoundaryItem_eq_item_iff.mp found)
  exact absurd one (by decide)

end Dinkster.Boundary
