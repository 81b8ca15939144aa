import Dinkster.Library.Bounds
import Dinkster.Widgets.Merge

/-!
# What merged options are

The merge of numeric widgets starts from the options of the first one and writes the strictest
numbers that are declared into them; it conflicts when these cross.  The merge of combos keeps the
options of all lists; it conflicts when two lists have none in common.
-/

namespace Dinkster.Widgets

open Format Library List Option

variable {merge : Options → Options → Except Conflict Options} {state : Options × List Conflict}
    {merged : Options} {pick : Rat → Rat → Rat}

theorem mergeNext_error {next : Options} {conflict : Conflict}
    (failed : merge state.1 next = .error conflict) :
    mergeNext merge state next = (state.1, state.2 ++ [conflict]) := by
  unfold mergeNext
  rw [failed]

theorem mergeNext_ok {next : Options} (succeeded : merge state.1 next = .ok merged) :
    mergeNext merge state next = (merged, state.2) := by
  unfold mergeNext
  rw [succeeded]

theorem conflicts_foldl {merge : Options → Options → Except Conflict Options}
    {items : List Options} : ∀ {state : Options × List Conflict}, state.2 ≠ [] →
      (items.foldl (mergeNext merge) state).2 ≠ [] := by
  induction items with
  | nil => exact fun conflicted => conflicted
  | cons next rest ih =>
    intro state conflicted
    rw [foldl_cons]
    apply ih
    cases result : merge state.1 next with
    | error conflict =>
      rw [mergeNext_error result]
      simp
    | ok merged =>
      rw [mergeNext_ok result]
      exact conflicted

def numbers (options : Options) : Bounds Rat :=
  .ofOptions (asNum (getField options "min")) (asNum (getField options "max"))

variable (items : List Options)

/-- The strictest numbers that any of a list of options declare. -/
def allNumbers : Bounds Rat :=
  .meet (items.map numbers)

variable (bounds : Bounds Rat)

def writeNumbers (options : Options) : Options :=
  setNumber (setNumber options "min" bounds.low?) "max" bounds.high?

variable (options : Options)

theorem getField_setNumber (name other : String) (value : Option Rat) :
    getField (setNumber options name value) other =
      if name = other then (value.map Json.num).or (getField options other)
      else getField options other := by
  cases value with
  | none =>
    simp only [setNumber, map_none, none_or, ite_self]
  | some value =>
    simp only [setNumber, map_some, some_or]
    exact getField_setField options name other (.num value)

theorem min_writeNumbers (options : Options) : getField (writeNumbers bounds options) "min" =
      (bounds.low?.map Json.num).or (getField options "min") := by
  unfold writeNumbers
  rw [getField_setNumber, if_neg (by decide), getField_setNumber, if_pos rfl]

theorem max_writeNumbers (options : Options) : getField (writeNumbers bounds options) "max" =
      (bounds.high?.map Json.num).or (getField options "max") := by
  unfold writeNumbers
  rw [getField_setNumber, if_pos rfl, getField_setNumber, if_neg (by decide)]

def SameBounds (left right : Options) : Prop :=
  getField left "min" = getField right "min" ∧ getField left "max" = getField right "max"

theorem SameBounds.trans {first second third : Options} (one : SameBounds first second)
    (other : SameBounds second third) : SameBounds first third :=
  ⟨one.1.trans other.1, one.2.trans other.2⟩

theorem numbers_inter (left right : Options) : (numbers left).inter (numbers right) = .ofOptions
        (Option.merge Max.max (asNum (getField left "min")) (asNum (getField right "min")))
        (Option.merge Min.min (asNum (getField left "max")) (asNum (getField right "max"))) :=
  Bounds.inter_ofOptions _ _ _ _

theorem sameBounds_setNumber (low high step precision : Option Rat) : SameBounds
      (setNumber (setNumber (setNumber (setNumber options "min" low) "max" high) "step" step)
        "precision" precision) (writeNumbers (.ofOptions low high) options) := by
  unfold SameBounds
  rw [min_writeNumbers, max_writeNumbers]
  simp only [getField_setNumber, Bounds.low?_ofOptions, Bounds.high?_ofOptions]
  exact ⟨rfl, rfl⟩

theorem mergeNumeric_cases (left right : Options) : (((numbers left).inter (numbers right)).Cross ∧
        ∃ conflict, mergeNumeric left right = .error conflict) ∨
      (¬ ((numbers left).inter (numbers right)).Cross ∧
        ∃ merged, mergeNumeric left right = .ok merged ∧
          SameBounds merged (writeNumbers ((numbers left).inter (numbers right)) left)) := by
  rw [numbers_inter, Bounds.cross_ofOptions]
  unfold mergeNumeric
  generalize Option.merge Max.max (asNum (getField left "min")) (asNum (getField right "min")) =
    low
  generalize Option.merge Min.min (asNum (getField left "max")) (asNum (getField right "max")) =
    high
  generalize Option.merge Max.max (asNum (getField left "step"))
    (asNum (getField right "step")) = step
  generalize Option.merge Min.min (asNum (getField left "precision"))
    (asNum (getField right "precision")) = precision
  have written := sameBounds_setNumber left low high step precision
  cases low with
  | none => exact .inr ⟨(fun ⟨_, _, missing, _⟩ => nomatch missing), _, rfl, written⟩
  | some low =>
    cases high with
    | none => exact .inr ⟨(fun ⟨_, _, _, missing, _⟩ => nomatch missing), _, rfl, written⟩
    | some high =>
      by_cases crossed : high < low
      · exact .inl ⟨⟨low, high, rfl, rfl, crossed⟩, _, if_pos crossed⟩
      · refine .inr ⟨?_, _, if_neg crossed, written⟩
        rintro ⟨least, greatest, isLow, isHigh, less⟩
        cases isLow
        cases isHigh
        exact crossed less

variable {left right : Options}

theorem SameBounds.numbers (same : SameBounds left right) : numbers left = numbers right := by
  unfold Widgets.numbers
  rw [same.1, same.2]

theorem SameBounds.writeNumbers (same : SameBounds left right) (bounds : Bounds Rat) :
    SameBounds (writeNumbers bounds left) (writeNumbers bounds right) := by
  unfold SameBounds
  rw [min_writeNumbers, max_writeNumbers, min_writeNumbers, max_writeNumbers, same.1, same.2]
  exact ⟨rfl, rfl⟩

theorem merge_or (first second : Option Rat) (field : Option Json) :
    ((Option.merge pick first second).map Json.num).or ((first.map Json.num).or field) =
      ((Option.merge pick first second).map Json.num).or field := by
  cases first with
  | none => rfl
  | some _ => cases second <;> rfl

/-- Of numbers written twice the stricter ones stay. -/
theorem writeNumbers_writeNumbers (bounds more : Bounds Rat) (options : Options) :
    SameBounds (writeNumbers (bounds.inter more) (writeNumbers bounds options))
      (writeNumbers (bounds.inter more) options) := by
  unfold SameBounds
  simp only [min_writeNumbers, max_writeNumbers, Bounds.low?_inter, Bounds.high?_inter]
  exact ⟨merge_or _ _ _, merge_or _ _ _⟩

theorem asNum_merge (field : Option Json) (other : Option Rat) :
    asNum (((Option.merge pick (asNum field) other).map Json.num).or field) =
      Option.merge pick (asNum field) other := by
  cases number : asNum field with
  | none =>
    cases other with
    | none => exact number
    | some _ => rfl
  | some _ => cases other <;> rfl

theorem numbers_writeNumbers (more : Bounds Rat) :
    numbers (writeNumbers ((numbers options).inter more) options) =
      (numbers options).inter more := by
  have low : (numbers options).low? = asNum (getField options "min") := rfl
  have high : (numbers options).high? = asNum (getField options "max") := rfl
  rw [← Bounds.ofOptions_options ((numbers options).inter more)]
  conv_lhs => unfold numbers
  rw [min_writeNumbers, max_writeNumbers]
  simp only [Bounds.low?_ofOptions, Bounds.high?_ofOptions, Bounds.low?_inter,
    Bounds.high?_inter, low, high, asNum_merge]

/-- A number that is there already is not changed. -/
theorem asNum_or (field : Option Json) : ((asNum field).map Json.num).or field = field := by
  cases field with
  | none => rfl
  | some json => cases json <;> rfl

theorem foldl_mergeNumeric : ∀ options : Options,
    ((items.foldl (mergeNext mergeNumeric) (options, [])).2 = [] ↔
        items = [] ∨ ¬ ((numbers options).inter (allNumbers items)).Cross) ∧
      ((items.foldl (mergeNext mergeNumeric) (options, [])).2 = [] →
        SameBounds (items.foldl (mergeNext mergeNumeric) (options, [])).1
          (writeNumbers ((numbers options).inter (allNumbers items)) options)) := by
  induction items with
  | nil =>
    intro options
    refine ⟨⟨fun _ => .inl rfl, fun _ => rfl⟩, fun _ => ?_⟩
    have alone : allNumbers ([] : List Options) = .free := rfl
    rw [alone, Bounds.inter_free]
    unfold SameBounds
    rw [min_writeNumbers, max_writeNumbers]
    exact ⟨(asNum_or _).symm, (asNum_or _).symm⟩
  | cons next rest ih =>
    intro options
    have all : allNumbers (next :: rest) = (numbers next).inter (allNumbers rest) := rfl
    rw [foldl_cons, all, ← Bounds.inter_assoc]
    cases mergeNumeric_cases options next with
    | inl failed =>
      obtain ⟨crossed, conflict, result⟩ := failed
      rw [mergeNext_error result]
      have conflicted := @conflicts_foldl mergeNumeric rest (options, [] ++ [conflict]) (by simp)
      refine ⟨⟨fun none => absurd none conflicted, ?_⟩, fun none => absurd none conflicted⟩
      rintro (empty | apart)
      · cases empty
      · exact absurd (crossed.inter _) apart
    | inr succeeded =>
      obtain ⟨apart, merged, result, same⟩ := succeeded
      rw [mergeNext_ok result]
      obtain ⟨conflicts, bounds⟩ := ih merged
      have number : numbers merged = (numbers options).inter (numbers next) := by
        rw [same.numbers, numbers_writeNumbers]
      rw [number] at conflicts bounds
      constructor
      · rw [conflicts]
        constructor
        · rintro (last | apart)
          · right
            rw [last]
            have alone : allNumbers ([] : List Options) = .free := rfl
            rw [alone, Bounds.inter_free]
            exact apart
          · exact .inr apart
        · rintro (empty | apart)
          · cases empty
          · exact .inr apart
      · intro none
        have written := bounds none
        have through := (same.writeNumbers _).trans
          (writeNumbers_writeNumbers ((numbers options).inter (numbers next))
            (allNumbers rest) options)
        exact written.trans through

theorem getField_append (front back : Options) (name : String) :
    getField (front ++ back) name = (getField front name).or (getField back name) := by
  induction front with
  | nil => rfl
  | cons entry rest ih =>
    obtain ⟨key, field⟩ := entry
    rw [cons_append, getField_cons, getField_cons, ih]
    split <;> rfl

theorem getField_spread (a b : Options) (name : String) :
    getField (spread a b) name = (getField b name).or (getField a name) := by
  have kept : getField (a.map fun entry => (entry.1, (getField b entry.1).getD entry.2)) name =
      (getField a name).map fun field => (getField b name).getD field := by
    induction a with
    | nil => rfl
    | cons entry rest ih =>
      obtain ⟨key, field⟩ := entry
      rw [map_cons, getField_cons, getField_cons, ih]
      by_cases same : key = name
      · rw [if_pos same, if_pos same, same]
        rfl
      · rw [if_neg same, if_neg same]
  unfold spread
  rw [getField_append, kept]
  cases found : getField a name with
  | none =>
    rw [@getField_filter b name (fun key => (getField a key).isNone) (by rw [found]; rfl)]
    cases getField b name <;> rfl
  | some field => cases getField b name <;> rfl

def comboValues (options : Options) : Option (List Json) :=
  (comboList options).map (·.filterMap comboValue?)

theorem comboList_setField (items : List Json) :
    comboList (setField options "options" (.arr items)) = some items := by
  unfold comboList
  rw [getField_setField, if_pos rfl]

theorem comboList_eq_none {options : Options} :
    comboList options = none ↔ ∀ items, getField options "options" ≠ some (.arr items) := by
  unfold comboList
  split
  · rename_i items found
    exact ⟨(fun none => nomatch none), fun absent => absurd found (absent items)⟩
  · rename_i other
    exact ⟨fun _ items => other items, fun _ => rfl⟩

theorem filterMap_merged (items : List Json) (keys : List Json) : (items.filter fun option =>
        match comboValue? option with
        | some value => decide (value ∈ keys)
        | none => false).filterMap comboValue? =
      (items.filterMap comboValue?).filter (· ∈ keys) := by
  rw [filterMap_filter, filter_filterMap]
  congr 1
  funext option
  cases comboValue? option with
  | none => rfl
  | some value => by_cases mem : value ∈ keys <;> simp [mem, Option.filter]

/-- Two combos merge to what both admit, or conflict when their lists have nothing in common. -/
theorem mergeCombo_cases (left right : Options) :
    (∃ values others conflict, comboValues left = some values ∧ comboValues right = some others ∧
        values.filter (· ∈ others) = [] ∧ mergeCombo left right = .error conflict) ∨
      ∃ merged, mergeCombo left right = .ok merged ∧
        match comboValues left, comboValues right with
        | some values, some others =>
          comboValues merged = some (values.filter (· ∈ others)) ∧ values.filter (· ∈ others) ≠ []
        | some values, none => comboValues merged = some values
        | none, others => comboValues merged = others := by
  unfold mergeCombo comboValues
  cases leftList : comboList left with
  | none =>
    right
    cases rightList : comboList right with
    | none =>
      refine ⟨spread left right, rfl, ?_⟩
      have free : comboList (spread left right) = none := by
        rw [comboList_eq_none] at leftList rightList ⊢
        intro items found
        rw [getField_spread] at found
        cases there : getField right "options" with
        | none =>
          rw [there] at found
          exact leftList items found
        | some field =>
          rw [there] at found
          exact rightList items (there.trans found)
      rw [free]
      rfl
    | some items =>
      refine ⟨_, rfl, ?_⟩
      simp only [comboList_setField, map_some, map_none]
  | some items =>
    cases rightList : comboList right with
    | none =>
      refine .inr ⟨_, rfl, ?_⟩
      simp only [comboList_setField, map_some, map_none]
    | some others =>
      have values := filterMap_merged items (others.filterMap comboValue?)
      by_cases empty : (items.filter fun option =>
          match comboValue? option with
          | some value => decide (value ∈ others.filterMap comboValue?)
          | none => false) = []
      · refine .inl ⟨_, _, .lists, rfl, rfl, ?_, if_pos empty⟩
        rw [← values, empty]
        rfl
      · refine .inr ⟨_, if_neg empty, ?_⟩
        simp only [map_some, comboList_setField]
        refine ⟨congrArg some values, ?_⟩
        rw [← values]
        intro none
        obtain ⟨option, kept⟩ := exists_mem_of_ne_nil _ empty
        have valueless := filterMap_eq_nil_iff.mp none option kept
        have valued := (mem_filter.mp kept).2
        rw [valueless] at valued
        cases valued

/-- What a combo admits: a value of its list, if it declares one. -/
def Admits (options : Options) (value : Json) : Prop :=
  ∀ values, comboValues options = some values → value ∈ values

def declaredLists : List (List Json) :=
  items.filterMap comboValues

theorem declaredLists_cons : declaredLists (options :: items) =
      match comboValues options with
      | some values => values :: declaredLists items
      | none => declaredLists items := by
  unfold declaredLists
  rw [filterMap_cons]
  cases comboValues options <;> rfl

theorem admits_mergeCombo (succeeded : mergeCombo left right = .ok merged) (value : Json) :
    Admits merged value ↔ Admits left value ∧ Admits right value := by
  cases mergeCombo_cases left right with
  | inl failed =>
    obtain ⟨_, _, conflict, _, _, _, result⟩ := failed
    rw [result] at succeeded
    cases succeeded
  | inr done =>
    obtain ⟨other, result, shape⟩ := done
    cases succeeded.symm.trans result
    unfold Admits
    cases leftValues : comboValues left with
    | none =>
      rw [leftValues] at shape
      simp only at shape
      simp [shape]
    | some values =>
      cases rightValues : comboValues right with
      | none =>
        rw [leftValues, rightValues] at shape
        simp only at shape
        simp [shape]
      | some others =>
        rw [leftValues, rightValues] at shape
        simp only at shape
        simp [shape.1]

theorem declaredLists_mergeCombo (succeeded : mergeCombo left right = .ok merged)
    (rest : List Options) : declaredLists (merged :: rest) = declaredLists (left :: right :: rest) ∨
      ∃ values, comboValues merged = some values ∧ values ≠ [] ∧
        1 < (declaredLists (left :: right :: rest)).length := by
  cases mergeCombo_cases left right with
  | inl failed =>
    obtain ⟨_, _, conflict, _, _, _, result⟩ := failed
    rw [result] at succeeded
    cases succeeded
  | inr done =>
    obtain ⟨other, result, shape⟩ := done
    cases succeeded.symm.trans result
    rw [declaredLists_cons, declaredLists_cons, declaredLists_cons]
    cases leftValues : comboValues left with
    | none =>
      rw [leftValues] at shape
      simp only at shape
      rw [shape]
      exact .inl rfl
    | some values =>
      cases rightValues : comboValues right with
      | none =>
        rw [leftValues, rightValues] at shape
        simp only at shape
        rw [shape]
        exact .inl rfl
      | some others =>
        rw [leftValues, rightValues] at shape
        simp only at shape
        exact .inr ⟨_, shape.1, shape.2, by simp⟩

structure ComboMerge (items : List Options) (state : Options × List Conflict) : Prop where
  sound : state.2 ≠ [] → ¬ ∃ value, ∀ options ∈ items, Admits options value
  agrees : state.2 = [] →
    ∀ value, Admits state.1 value ↔ ∀ options ∈ items, Admits options value
  single : (declaredLists items).length ≤ 1 → state.2 = []
  empty : state.2 = [] → comboValues state.1 = some [] → declaredLists items = [[]]

theorem foldl_mergeCombo : ∀ options : Options,
    ComboMerge (options :: items) (items.foldl (mergeNext mergeCombo) (options, [])) := by
  induction items with
  | nil =>
    intro options
    refine ⟨fun conflicted => absurd rfl conflicted, fun _ value => by simp, fun _ => rfl, ?_⟩
    intro _ nothing
    have nothing : comboValues options = some [] := nothing
    rw [declaredLists_cons, nothing]
    rfl
  | cons next rest ih =>
    intro options
    rw [foldl_cons]
    cases mergeCombo_cases options next with
    | inl failed =>
      obtain ⟨values, others, conflict, leftValues, rightValues, disjoint, result⟩ := failed
      rw [mergeNext_error result]
      have conflicted := @conflicts_foldl mergeCombo rest (options, [] ++ [conflict]) (by simp)
      refine ⟨fun _ => ?_, fun none => absurd none conflicted, ?_,
        fun none => absurd none conflicted⟩
      · rintro ⟨value, admitted⟩
        have inLeft := admitted options mem_cons_self values leftValues
        have inRight := admitted next (mem_cons_of_mem _ mem_cons_self) others rightValues
        have both : value ∈ values.filter (· ∈ others) :=
          mem_filter.mpr ⟨inLeft, decide_eq_true inRight⟩
        rw [disjoint] at both
        cases both
      · intro few
        rw [declaredLists_cons, leftValues, declaredLists_cons, rightValues] at few
        simp at few
    | inr done =>
      obtain ⟨merged, result, _⟩ := done
      rw [mergeNext_ok result]
      have merge := ih merged
      have admits : ∀ value, (∀ other ∈ merged :: rest, Admits other value) ↔
          ∀ other ∈ options :: next :: rest, Admits other value := by
        intro value
        rw [forall_mem_cons, forall_mem_cons, forall_mem_cons, admits_mergeCombo result, and_assoc]
      constructor
      · intro conflicted
        have sound := merge.sound conflicted
        simp only [admits] at sound
        exact sound
      · intro none value
        exact (merge.agrees none value).trans (admits value)
      · intro few
        cases declaredLists_mergeCombo result rest with
        | inl same => exact merge.single (same ▸ few)
        | inr both =>
          obtain ⟨_, _, _, more⟩ := both
          omega
      · intro none nothing
        have alone := merge.empty none nothing
        cases declaredLists_mergeCombo result rest with
        | inl same => exact same ▸ alone
        | inr both =>
          obtain ⟨values, merged, filled, _⟩ := both
          rw [declaredLists_cons, merged] at alone
          exact absurd (List.cons.inj alone).1 filled

end Dinkster.Widgets
