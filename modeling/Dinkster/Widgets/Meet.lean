import Dinkster.Widgets.Merging

/-!
# The spec of a value source as a meet

By intent the merged options of a value source admit the values that all its consumers admit,
whatever their order, and a conflict means that there are none.  The merge goes by the numbers
that are declared, while a bound is kept as `numericStepConstraints` reads it.  The intent is met
exactly when the two agree.
-/

namespace Dinkster.Widgets

open Format Library List

/-- The kinds of widgets whose values are constrained. -/
inductive Kind where
  | int
  | float
  | combo

def Kind.widgetType : Kind → String
  | .int => "INT"
  | .float => "FLOAT"
  | .combo => "COMBO"

def Kind.Value : Kind → Type
  | .int => Int
  | .float => Rat
  | .combo => Json

variable (options : Options)

/-- The bounds an `INT` widget keeps. -/
def intBounds : Bounds Int :=
  .ofOptions (numericStepConstraints options).min (numericStepConstraints options).max

/-- The bounds a `FLOAT` widget keeps. -/
def floatBounds : Bounds Rat :=
  .ofOptions (floatStepConstraints options).min (floatStepConstraints options).max

/-- A value within the kept bounds, or of the declared list. -/
def Satisfies : (kind : Kind) → Options → kind.Value → Prop
  | .int, options, value => (intBounds options).Holds value
  | .float, options, value => (floatBounds options).Holds value
  | .combo, options, value => Admits options value

def SameConstraint : Kind → Options → Options → Prop
  | .int, left, right => intBounds left = intBounds right
  | .float, left, right => floatBounds left = floatBounds right
  | .combo, left, right => ∀ value, Satisfies .combo left value ↔ Satisfies .combo right value

structure IsMeet (kind : Kind) (declared : ValueSourceSpec) (specs : List WidgetSpec) : Prop where
  agrees : ∀ order derived, order.Perm specs →
    valueSourceWidgetSpec declared order = (some derived, []) →
    ∀ value, Satisfies kind derived.options value ↔
      ∀ spec ∈ specs, Satisfies kind spec.options value
  unordered : ∀ order derived other, order.Perm specs →
    valueSourceWidgetSpec declared specs = (some derived, []) →
    valueSourceWidgetSpec declared order = (some other, []) →
    SameConstraint kind derived.options other.options
  conflict : ∀ order, order.Perm specs →
    ((valueSourceWidgetSpec declared order).2 ≠ [] ↔
      ¬ ∃ value, ∀ spec ∈ specs, Satisfies kind spec.options value)

variable (kind : Kind)

def Kind.merge : Options → Options → Except Conflict Options :=
  specMergeFor kind.widgetType

def Meets (items : List Options) : Prop :=
  ((mergeOptions kind.merge items).2 = [] →
    ∀ value, Satisfies kind (mergeOptions kind.merge items).1 value ↔
      ∀ options ∈ items, Satisfies kind options value) ∧
  ((mergeOptions kind.merge items).2 ≠ [] ↔
    ¬ ∃ value, ∀ options ∈ items, Satisfies kind options value)

/-! ## Numeric widgets -/

section Numeric

variable {Value : Type} [LinearOrder Value] {read : Options → Bounds Value}

structure Reads (read : Options → Bounds Value) : Prop where
  bounds : ∀ {left right}, SameBounds left right → read left = read right
  free : read [] = .free
  apart : ∀ options, ¬ (read options).Cross

def kept (read : Options → Bounds Value) (items : List Options) : Bounds Value :=
  .meet (items.map read)

/-- The numbers that several options declare cross when the bounds they keep do, and otherwise
options with the strictest numbers written into them keep the strictest bounds. -/
def NumbersKept (read : Options → Bounds Value) (items : List Options) : Prop :=
  items.length ≤ 1 ∨
    (((allNumbers items).Cross ↔ (kept read items).Cross) ∧
      (¬ (allNumbers items).Cross →
        ∀ options ∈ items, read (writeNumbers (allNumbers items) options) = kept read items))

def MeetsBounds (read : Options → Bounds Value) (items : List Options) : Prop :=
  ((mergeOptions mergeNumeric items).2 = [] →
    ∀ value, (read (mergeOptions mergeNumeric items).1).Holds value ↔
      ∀ options ∈ items, (read options).Holds value) ∧
  ((mergeOptions mergeNumeric items).2 ≠ [] ↔
    ¬ ∃ value, ∀ options ∈ items, (read options).Holds value)

variable {items : List Options}

theorem holds_kept {value : Value} :
    (kept read items).Holds value ↔ ∀ options ∈ items, (read options).Holds value := by
  unfold kept
  rw [Bounds.holds_meet, forall_mem_map]

theorem exists_holds_iff_kept [Nonempty Value] :
    (∃ value, ∀ options ∈ items, (read options).Holds value) ↔ ¬ (kept read items).Cross := by
  rw [← Bounds.exists_holds_iff]
  simp only [holds_kept]

/-- A single widget is its own meet. -/
theorem meetsBounds_of_length [Nonempty Value] (reads : Reads read) (few : items.length ≤ 1) :
    MeetsBounds read items := by
  cases items with
  | nil =>
    refine ⟨fun _ value => ?_, fun conflicted => absurd rfl conflicted, fun none => ?_⟩
    · have free : read (mergeOptions mergeNumeric []).1 = .free := reads.free
      rw [free]
      simp [Bounds.holds_free]
    · exact absurd ⟨Classical.arbitrary Value, by simp⟩ none
  | cons options rest =>
    have last : rest = [] := length_eq_zero_iff.mp (by simpa using few)
    subst last
    refine ⟨fun _ value => by simp [mergeOptions], fun conflicted => absurd rfl conflicted,
      fun none => ?_⟩
    exfalso
    apply none
    obtain ⟨value, holds⟩ := Bounds.exists_holds_iff.mpr (reads.apart options)
    exact ⟨value, by simpa using holds⟩

theorem meetsBounds_cons [Nonempty Value] [NoMinOrder Value] [NoMaxOrder Value]
    (reads : Reads read) {first : Options} {rest : List Options} (more : rest ≠ []) :
    MeetsBounds read (first :: rest) ↔
      (((allNumbers (first :: rest)).Cross ↔ (kept read (first :: rest)).Cross) ∧
        (¬ (allNumbers (first :: rest)).Cross →
          read (writeNumbers (allNumbers (first :: rest)) first) = kept read (first :: rest))) := by
  obtain ⟨conflicts, bounds⟩ := foldl_mergeNumeric rest first
  have numbers : (numbers first).inter (allNumbers rest) = allNumbers (first :: rest) := rfl
  rw [numbers] at conflicts bounds
  unfold MeetsBounds
  rw [exists_holds_iff_kept, not_not, Ne]
  simp only [← holds_kept]
  change ((rest.foldl (mergeNext mergeNumeric) (first, [])).2 = [] → _) ∧
    (¬ (rest.foldl (mergeNext mergeNumeric) (first, [])).2 = [] ↔ _) ↔ _
  have clean : (rest.foldl (mergeNext mergeNumeric) (first, [])).2 = [] ↔
      ¬ (allNumbers (first :: rest)).Cross := by
    rw [conflicts, or_iff_right more]
  have written := fun none => reads.bounds (bounds none)
  rw [clean, not_not, and_comm]
  constructor
  · rintro ⟨cross, agrees⟩
    refine ⟨cross, fun apart => ?_⟩
    rw [← written (clean.mpr apart)]
    have someValue := Bounds.exists_holds_iff.mpr (mt cross.mpr apart)
    exact (Bounds.eq_of_holds_iff someValue fun value => (agrees apart value).symm).symm
  · rintro ⟨cross, same⟩
    refine ⟨cross, fun apart value => ?_⟩
    have merged := (written (clean.mpr apart)).trans (same apart)
    exact Iff.of_eq (congrArg (fun bounds => bounds.Holds value) merged)

variable {others : List Options}

theorem allNumbers_perm (same : items.Perm others) : allNumbers items = allNumbers others :=
  Bounds.meet_perm (same.map numbers)

theorem kept_perm (same : items.Perm others) : kept read items = kept read others :=
  Bounds.meet_perm (same.map read)

theorem meetsBounds_iff [Nonempty Value] [NoMinOrder Value] [NoMaxOrder Value]
    (reads : Reads read) (items : List Options) :
    (∀ order, order.Perm items → MeetsBounds read order) ↔ NumbersKept read items := by
  by_cases few : items.length ≤ 1
  · exact ⟨fun _ => .inl few, fun _ order same =>
      meetsBounds_of_length reads (same.length_eq ▸ few)⟩
  · have many : ∀ {first rest}, (first :: rest).Perm items → rest ≠ [] := by
      intro first rest same empty
      rw [← same.length_eq, empty] at few
      exact few (Nat.le_refl 1)
    unfold NumbersKept
    rw [or_iff_right few]
    constructor
    · intro meets
      have each : ∀ options ∈ items, _ := fun options mem =>
        have same := (perm_cons_erase mem).symm
        (meetsBounds_cons reads (many same)).mp (meets _ same)
      obtain ⟨options, mem⟩ := exists_mem_of_ne_nil items (fun empty => few (by simp [empty]))
      constructor
      · have cross := (each options mem).1
        rw [allNumbers_perm (perm_cons_erase mem).symm,
          kept_perm (perm_cons_erase mem).symm] at cross
        exact cross
      · intro apart options mem
        have same := (each options mem).2
        rw [allNumbers_perm (perm_cons_erase mem).symm,
          kept_perm (perm_cons_erase mem).symm] at same
        exact same apart
    · rintro ⟨cross, written⟩ order same
      cases order with
      | nil => exact meetsBounds_of_length reads (Nat.zero_le 1)
      | cons first rest =>
        rw [meetsBounds_cons reads (many same), allNumbers_perm same, kept_perm same]
        exact ⟨cross, fun apart => written apart first (same.mem_iff.mp mem_cons_self)⟩

end Numeric

theorem reads_intBounds : Reads intBounds where
  bounds := by
    rintro left right ⟨min, max⟩
    unfold intBounds
    rw [min_numericStepConstraints, max_numericStepConstraints, min_numericStepConstraints,
      max_numericStepConstraints]
    unfold dropsBounds invertedLegacyRange
    rw [min, max]
  free := rfl
  apart := by
    intro options crossed
    obtain ⟨low, high, isLow, isHigh, less⟩ := Bounds.cross_ofOptions.mp crossed
    exact absurd ((numericStepConstraints options).ordered low high isLow isHigh)
      (Int.not_le.mpr less)

/-- A `FLOAT` widget keeps its numbers unless they cross. -/
theorem floatBounds_cases : ((numbers options).Cross ∧ floatBounds options = .free) ∨
      (¬ (numbers options).Cross ∧ floatBounds options = numbers options) := by
  unfold floatBounds floatStepConstraints numbers
  rw [Bounds.cross_ofOptions]
  generalize asNum (getField options "min") = low
  generalize asNum (getField options "max") = high
  cases low with
  | none => exact .inr ⟨(fun ⟨_, _, missing, _⟩ => nomatch missing), rfl⟩
  | some low =>
    cases high with
    | none => exact .inr ⟨(fun ⟨_, _, _, missing, _⟩ => nomatch missing), rfl⟩
    | some high =>
      by_cases ordered : low ≤ high
      · right
        constructor
        · rintro ⟨least, greatest, isLow, isHigh, less⟩
          cases isLow
          cases isHigh
          exact absurd ordered (not_le.mpr less)
        · simp [validRange, ordered]
      · left
        refine ⟨⟨low, high, rfl, rfl, not_le.mp ordered⟩, ?_⟩
        simp only [validRange, decide_eq_true_eq, if_neg ordered]
        rfl

theorem reads_floatBounds : Reads floatBounds where
  bounds := by
    rintro left right ⟨min, max⟩
    unfold floatBounds floatStepConstraints
    rw [min, max]
  free := rfl
  apart := by
    intro options crossed
    cases floatBounds_cases options with
    | inl dropped =>
      rw [dropped.2] at crossed
      obtain ⟨_, _, missing, _⟩ := crossed
      cases missing
    | inr whole => exact whole.1 (whole.2 ▸ crossed)

/-- The numbers of `FLOAT` widgets are kept unless one of them has them in the wrong order while
the others do not exclude each other. -/
theorem numbersKept_float (items : List Options) : NumbersKept floatBounds items ↔
      items.length ≤ 1 ∨ (∀ options ∈ items, ¬ (numbers options).Cross) ∨
        (kept floatBounds items).Cross := by
  unfold NumbersKept
  apply or_congr_right
  by_cases valid : ∀ options ∈ items, ¬ (numbers options).Cross
  · have same : kept floatBounds items = allNumbers items := by
      unfold kept allNumbers
      congr 1
      apply map_congr_left
      intro options mem
      cases floatBounds_cases options with
      | inl dropped => exact absurd dropped.1 (valid options mem)
      | inr whole => exact whole.2
    rw [same]
    refine ⟨fun _ => .inl valid, fun _ => ⟨Iff.rfl, fun apart options mem => ?_⟩⟩
    have written : numbers (writeNumbers (allNumbers items) options) = allNumbers items := by
      rw [allNumbers_perm (perm_cons_erase mem)]
      exact numbers_writeNumbers options (allNumbers (items.erase options))
    cases floatBounds_cases (writeNumbers (allNumbers items) options) with
    | inl dropped => exact absurd (written ▸ dropped.1) apart
    | inr whole => exact whole.2.trans written
  · rw [or_iff_right valid]
    obtain ⟨options, mem, crossed⟩ : ∃ options ∈ items, (numbers options).Cross := by
      simpa using valid
    have all : (allNumbers items).Cross := by
      rw [allNumbers_perm (perm_cons_erase mem)]
      exact crossed.inter _
    exact ⟨fun both => both.1.mp all, fun cross => ⟨iff_of_true all cross, fun apart =>
      absurd all apart⟩⟩

theorem meets_combo_iff (items : List Options) :
    Meets .combo items ↔ declaredLists items ≠ [[]] := by
  unfold Meets
  have merge : Kind.combo.merge = mergeCombo := by
    unfold Kind.merge Kind.widgetType specMergeFor
    simp
  rw [merge]
  have merged : ComboMerge items (mergeOptions mergeCombo items) := by
    cases items with
    | nil =>
      refine ⟨fun conflicted => absurd rfl conflicted, fun _ value => ?_, fun _ => rfl, ?_⟩
      · simp [mergeOptions, Admits, comboValues, comboList]
      · intro _ nothing
        simp [mergeOptions, comboValues, comboList] at nothing
    | cons options rest => exact foldl_mergeCombo rest options
  constructor
  · rintro ⟨_, conflict⟩ alone
    have clean := merged.single (by rw [alone]; exact Nat.le_refl 1)
    apply conflict.mpr _ clean
    rintro ⟨value, admitted⟩
    have listed : [] ∈ declaredLists items := by
      rw [alone]
      exact mem_singleton_self []
    obtain ⟨options, mem, nothing⟩ := mem_filterMap.mp listed
    exact absurd (admitted options mem [] nothing) not_mem_nil
  · intro several
    refine ⟨merged.agrees, merged.sound, fun unsatisfied => ?_⟩
    intro clean
    apply several
    apply merged.empty clean
    have nothing : ∀ value, ¬ Admits (mergeOptions mergeCombo items).1 value := fun value admits =>
      unsatisfied ⟨value, (merged.agrees clean value).mp admits⟩
    cases declared : comboValues (mergeOptions mergeCombo items).1 with
    | none =>
      apply absurd _ (nothing .null)
      intro values same
      rw [declared] at same
      cases same
    | some values =>
      cases values with
      | nil => rfl
      | cons value rest =>
        apply absurd _ (nothing value)
        intro others same
        rw [declared] at same
        cases same
        exact mem_cons_self

/-! ## Value sources -/

/-- When the constraints of consumers of a kind merge to their meet. -/
def Mergeable : Kind → List Options → Prop
  | .int, items => NumbersKept intBounds items
  | .float, items =>
    items.length ≤ 1 ∨ (∀ options ∈ items, ¬ (numbers options).Cross) ∨
      (kept floatBounds items).Cross
  | .combo, items => declaredLists items ≠ [[]]

theorem meets_iff (items : List Options) :
    (∀ order, order.Perm items → Meets kind order) ↔ Mergeable kind items := by
  cases kind with
  | int =>
    have merge : Kind.int.merge = mergeNumeric := by
      simp [Kind.merge, Kind.widgetType, specMergeFor]
    unfold Meets
    rw [merge]
    exact @meetsBounds_iff Int _ intBounds _ _ _ reads_intBounds items
  | float =>
    have merge : Kind.float.merge = mergeNumeric := by
      simp [Kind.merge, Kind.widgetType, specMergeFor]
    unfold Meets
    rw [merge]
    exact (@meetsBounds_iff Rat _ floatBounds _ _ _ reads_floatBounds items).trans
      (numbersKept_float items)
  | combo =>
    simp only [meets_combo_iff, Mergeable]
    constructor
    · exact fun meets => meets items (.refl items)
    · intro several order same alone
      have lists : (declaredLists order).Perm (declaredLists items) := same.filterMap comboValues
      rw [alone] at lists
      exact several (singleton_perm.mp lists).symm

theorem valueSourceWidgetSpec_of_kind {kind : Kind} {declared : ValueSourceSpec}
    {specs : List WidgetSpec} (undeclared : declared.options = none)
    (typed : declared.widgetType = none ∨ declared.widgetType = some kind.widgetType)
    (same : ∀ spec ∈ specs, spec.widgetType = kind.widgetType) :
    (valueSourceWidgetSpec declared specs).2 =
        (mergeOptions kind.merge (specs.map (·.options))).2.map .optionsConflict ∧
      (∀ derived, (valueSourceWidgetSpec declared specs).1 = some derived →
        derived.options = (mergeOptions kind.merge (specs.map (·.options))).1) ∧
      ((valueSourceWidgetSpec declared specs).1 = none → specs = []) := by
  unfold valueSourceWidgetSpec
  cases widgetType : declared.widgetType <|> specs.head?.map (·.widgetType) with
  | none =>
    have empty : specs = [] := by
      cases specs with
      | nil => rfl
      | cons spec rest =>
        cases declaredType : declared.widgetType with
        | none | some other => simp [declaredType] at widgetType
    subst empty
    exact ⟨rfl, (fun _ missing => nomatch missing), fun _ => rfl⟩
  | some found =>
    have kindOf : found = kind.widgetType := by
      cases typed with
      | inr declaredType =>
        rw [declaredType] at widgetType
        exact (Option.some.inj widgetType).symm
      | inl none =>
        rw [none] at widgetType
        cases specs with
        | nil => simp at widgetType
        | cons spec rest =>
          have first : spec.widgetType = found := by simpa using widgetType
          exact first.symm.trans (same spec mem_cons_self)
    have own : specs.filter (·.widgetType = found) = specs :=
      filter_eq_self.mpr fun spec mem => decide_eq_true ((same spec mem).trans kindOf.symm)
    have foreign : specs.filter (·.widgetType ≠ found) = [] :=
      filter_eq_nil_iff.mpr fun spec mem => by
        simp [(same spec mem).trans kindOf.symm]
    have merge : specMergeFor found = kind.merge := by
      rw [kindOf]
      rfl
    simp only [own, foreign, merge, undeclared, declaredConflict, map_nil, nil_append, append_nil]
    refine ⟨trivial, ?_, fun missing => nomatch missing⟩
    intro derived result
    rw [← Option.some.inj result]

theorem sameConstraint_of_satisfies {kind : Kind} {left right : Options}
    (satisfied : ∃ value, Satisfies kind left value)
    (same : ∀ value, Satisfies kind left value ↔ Satisfies kind right value) :
    SameConstraint kind left right := by
  cases kind with
  | int =>
    have bounds : intBounds left = intBounds right := Bounds.eq_of_holds_iff satisfied same
    exact bounds
  | float =>
    have bounds : floatBounds left = floatBounds right := Bounds.eq_of_holds_iff satisfied same
    exact bounds
  | combo => exact same

/-- Without consumers there is nothing to satisfy. -/
theorem meets_nil : Meets kind [] := by
  have satisfied : ∀ value, Satisfies kind [] value := by
    cases kind with
    | int =>
      intro (value : Int)
      have holds : (intBounds []).Holds value := Bounds.holds_free value
      exact holds
    | float =>
      intro (value : Rat)
      have holds : (floatBounds []).Holds value := Bounds.holds_free value
      exact holds
    | combo => exact fun value values none => nomatch none
  refine ⟨fun _ value => ⟨fun _ => by simp, fun _ => satisfied value⟩,
    fun conflicted => absurd rfl conflicted, fun unsatisfied => ?_⟩
  have value : kind.Value := by
    cases kind with
    | int => exact (0 : Int)
    | float => exact (0 : Rat)
    | combo => exact Json.null
  exact absurd ⟨value, by simp⟩ unsatisfied

theorem exists_map_of_perm {Item Image : Type} {image : Item → Image} {others : List Image} :
    ∀ {items : List Item}, others.Perm (items.map image) →
      ∃ order : List Item, order.Perm items ∧ order.map image = others := by
  induction others with
  | nil =>
    intro items perm
    have empty : items = [] := by simpa using perm.symm
    exact ⟨[], empty ▸ .nil, rfl⟩
  | cons first rest ih =>
    intro items perm
    obtain ⟨item, mem, same⟩ := mem_map.mp (perm.mem_iff.mp mem_cons_self)
    obtain ⟨front, back, split⟩ := append_of_mem mem
    rw [split, map_append, map_cons, same] at perm
    have fewer := (perm.trans perm_middle).cons_inv
    rw [← map_append] at fewer
    obtain ⟨order, permuted, mapped⟩ := ih fewer
    refine ⟨item :: order, ?_, by rw [map_cons, same, mapped]⟩
    rw [split]
    exact (permuted.cons item).trans perm_middle.symm

/-- The spec that a value source without declared options derives from consumers of one kind is
their meet exactly when their constraints merge to it. -/
theorem valueSourceWidgetSpec_isMeet_iff {kind : Kind} {declared : ValueSourceSpec}
    {specs : List WidgetSpec} (undeclared : declared.options = none)
    (typed : declared.widgetType = none ∨ declared.widgetType = some kind.widgetType)
    (same : ∀ spec ∈ specs, spec.widgetType = kind.widgetType) :
    IsMeet kind declared specs ↔ Mergeable kind (specs.map (·.options)) := by
  have result := fun (order : List WidgetSpec) (perm : order.Perm specs) =>
    @valueSourceWidgetSpec_of_kind kind declared order undeclared typed fun spec mem =>
      same spec (perm.mem_iff.mp mem)
  have clean : ∀ order : List WidgetSpec, order.Perm specs →
      ((valueSourceWidgetSpec declared order).2 = [] ↔
        (mergeOptions kind.merge (order.map (·.options))).2 = []) := by
    intro order perm
    rw [(result order perm).1, map_eq_nil_iff]
  have satisfied : ∀ order : List WidgetSpec, order.Perm specs → ∀ value : kind.Value,
      (∀ options ∈ order.map (·.options), Satisfies kind options value) ↔
        ∀ spec ∈ specs, Satisfies kind spec.options value := by
    intro order perm value
    rw [forall_mem_map]
    exact forall_congr' fun spec => imp_congr_left perm.mem_iff
  rw [← meets_iff]
  constructor
  · intro meet others perm
    obtain ⟨order, permuted, rfl⟩ := exists_map_of_perm perm
    obtain ⟨_, derived, missing⟩ := result order permuted
    cases found : (valueSourceWidgetSpec declared order).1 with
    | none =>
      rw [missing found]
      exact meets_nil kind
    | some spec =>
      unfold Meets
      simp only [satisfied order permuted]
      constructor
      · intro none value
        rw [← derived spec found]
        exact meet.agrees order spec permuted
          (Prod.ext found ((clean order permuted).mpr none)) value
      · rw [Ne, ← clean order permuted]
        exact meet.conflict order permuted
  · intro meets
    have each := fun (order : List WidgetSpec) (perm : order.Perm specs) =>
      meets (order.map (·.options)) (perm.map (·.options))
    have agrees : ∀ order derived, order.Perm specs →
        valueSourceWidgetSpec declared order = (some derived, []) → ∀ value,
        Satisfies kind derived.options value ↔
          ∀ spec ∈ specs, Satisfies kind spec.options value := by
      intro order derived perm found value
      have none := (clean order perm).mp (by rw [found])
      rw [(result order perm).2.1 derived (by rw [found]), ← satisfied order perm]
      exact (each order perm).1 none value
    have conflict : ∀ order : List WidgetSpec, order.Perm specs →
        ((valueSourceWidgetSpec declared order).2 ≠ [] ↔
          ¬ ∃ value, ∀ spec ∈ specs, Satisfies kind spec.options value) := by
      intro order perm
      rw [Ne, clean order perm]
      simp only [← satisfied order perm]
      exact (each order perm).2
    refine ⟨agrees, ?_, conflict⟩
    intro order derived other perm found also
    obtain ⟨value, holds⟩ : ∃ value, ∀ spec ∈ specs, Satisfies kind spec.options value := by
      by_contra unsatisfied
      exact absurd (by rw [found]) ((conflict specs (.refl specs)).mpr unsatisfied)
    have first := agrees specs derived (.refl specs) found
    have second := agrees order other perm also
    exact sameConstraint_of_satisfies ⟨value, (first value).mpr holds⟩ fun value =>
      (first value).trans (second value).symm

def consumer (options : Options) : WidgetSpec :=
  ⟨kind.widgetType, options, none, none, none⟩

theorem valueSourceWidgetSpec_isMeet_combo : IsMeet .combo ⟨none, none, none⟩
        [consumer .combo [("options", .arr [.str "a", .str "b"])], consumer .combo []] ↔
      Mergeable .combo [[("options", .arr [.str "a", .str "b"])], []] :=
  valueSourceWidgetSpec_isMeet_iff rfl (.inl rfl) (by decide)

/-- A minimum beyond the safe integers and one of zero. -/
def minimumConsumers : List WidgetSpec :=
  [consumer .int [("min", .str "9007199254740993")], consumer .int [("min", .num 0)]]

/-- The minimum beyond the safe integers is lost next to a number. -/
theorem unsafe_minimum_lost : ¬ IsMeet .int ⟨none, none, none⟩ minimumConsumers := by
  intro meet
  obtain ⟨derived, found, low, high⟩ : ∃ derived,
      valueSourceWidgetSpec ⟨none, none, none⟩ minimumConsumers = (some derived, []) ∧
        (numericStepConstraints derived.options).min = some 0 ∧
        (numericStepConstraints derived.options).max = none :=
    ⟨_, rfl, by decide +kernel, by decide +kernel⟩
  have admitted : (intBounds derived.options).Holds 5 := by
    unfold intBounds
    rw [low, high]
    exact ⟨WithBot.coe_le_coe.mpr (by decide), le_top⟩
  have both := (meet.agrees minimumConsumers derived (.refl _) found (5 : Int)).mp admitted
  have first := both (consumer .int [("min", .str "9007199254740993")]) mem_cons_self
  have kept : (numericStepConstraints [("min", .str "9007199254740993")]).min =
      some 9007199254740993 := by decide +kernel
  have above : (intBounds [("min", .str "9007199254740993")]).Holds 5 := first
  unfold intBounds at above
  rw [kept] at above
  exact absurd (WithBot.coe_le_coe.mp above.1) (by decide)

end Dinkster.Widgets
