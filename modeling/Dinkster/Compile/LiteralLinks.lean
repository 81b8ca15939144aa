import Dinkster.Compile.Frame
import Dinkster.Compile.Static

/-!
# Literals and links

Links and literals share the staging record of a node.  The closure takes every array that
starts with a text for a link, and emission every pair of a text and a number, whatever
was written there by a connection.  A literal an input holds is therefore carried as it is
exactly when it keeps clear of these shapes, or when the closure executes the node it
seems to name in any case.
-/

namespace Dinkster.Compile

open Format Library

/-- A literal, or a typed or integer marker of it. -/
inductive Marks (value : Json) : Json → Prop where
  | plain : Marks value value
  | typed (type : String) : Marks value (typedLiteralWire type value)
  | integer : Marks value (decimalIntegerWire value)

/-- What lowering a literal gives: the literal or a marker of it, or one error. -/
inductive LowersTo (value : Json) : Option Json × List Diagnostic → Prop where
  | kept {lowered : Json} (marks : Marks value lowered) : LowersTo value (some lowered, [])
  | refused (code message : String) (occurrence : Option OccurrenceRef) :
      LowersTo value (none, [failure code message occurrence])

namespace Host

variable {host : Host} {mode : Mode}

theorem lowersTo (fn : FlatNode) (input : ElaboratedInput) (value : Json) :
    LowersTo value (host.lowerWidgetLiteral fn input value) := by
  unfold lowerWidgetLiteral
  apply iteInduction (motive := LowersTo value)
  · intro _
    apply iteInduction (motive := LowersTo value)
    · exact fun _ => .kept (.typed _)
    · exact fun _ => .refused _ _ _
  · intro _
    apply iteInduction (motive := LowersTo value)
    · intro _
      apply iteInduction (motive := LowersTo value)
      · exact fun _ => .kept .integer
      · exact fun _ => .refused _ _ _
    · intro _
      split
      · exact .kept .plain
      · apply iteInduction (motive := LowersTo value)
        · exact fun _ => .kept (.typed _)
        · exact fun _ => .refused _ _ _

variable {input : ElaboratedInput}

theorem marks_of_lowered {fn : FlatNode} {value lowered : Json}
    (lowers : (host.lowerWidgetLiteral fn input value).1 = some lowered) : Marks value lowered := by
  have result := host.lowersTo fn input value
  generalize host.lowerWidgetLiteral fn input value = outcome at lowers result
  cases result with
  | kept marks =>
    cases lowers
    exact marks
  | refused => simp at lowers

theorem lowered_of_accepted {fn : FlatNode} {value : Json}
    (accepted : hasErrors (host.lowerWidgetLiteral fn input value).2 = false) :
    ∃ lowered, (host.lowerWidgetLiteral fn input value).1 = some lowered := by
  have result := host.lowersTo fn input value
  generalize host.lowerWidgetLiteral fn input value = outcome at accepted result
  cases result with
  | kept marks => exact ⟨_, rfl⟩
  | refused => exact absurd accepted (by simp [hasErrors, failure])

/-! ## The literal of an input -/

theorem keys_recordFirst {Key : Type} [DecidableEq Key] {entries : List (Key × Json)}
    {write : Key × Json} (distinct : (entries.map (·.1)).Nodup) :
    ((recordFirst entries write).map (·.1)).Nodup := by
  unfold recordFirst
  split
  · rename_i fresh
    rw [List.map_append]
    apply List.Nodup.append distinct
    · exact List.nodup_singleton _
    · intro key old new
      have same : key = write.1 := List.mem_singleton.mp new
      subst same
      have known : (entries.lookup write.1).isSome = true := by
        rw [List.lookup_isSome_iff]
        cases List.mem_map.mp old with
        | intro entry found => exact ⟨entry, found.1, by simp [found.2]⟩
      rw [Option.isNone_iff_eq_none] at fresh
      rw [fresh] at known
      exact Bool.false_ne_true known
  · exact distinct

/-- Every input is promoted onto once. -/
theorem overrides_distinct : (host.promoted.overrides.map (·.1)).Nodup := by
  have kept : ∀ (writes : List (ResolvedInput × Json)) (promoted : Promoted),
      (promoted.overrides.map (·.1)).Nodup →
        ((writes.foldl Promoted.record promoted).overrides.map (·.1)).Nodup := by
    intro writes
    induction writes with
    | nil => exact fun _ distinct => distinct
    | cons write writes ih =>
      intro promoted distinct
      apply ih
      unfold Promoted.record
      split
      · exact keys_recordFirst distinct
      · exact distinct
  exact kept _ _ List.nodup_nil

/-- The literal the document holds for an input that reaches the prompt: the one promoted
onto it, else the one stored for it.  The selection of a combo is derived from its dynamic
state and takes the place of either. -/
structure Holds (host : Host) (fn : FlatNode) (input : ElaboratedInput) (value : Json) :
    Prop where
  declared : input ∈ fn.interface.inputs
  wired : input.apiName.isSome = true
  authored : input.derivedValue = none
  plain : ∀ construct selected, input.origin ≠ .selector construct selected
  literal : ((fn.runtimeId, input.spec.id), value) ∈ host.promoted.overrides ∨
    (host.promoted.overrides.lookup (fn.runtimeId, input.spec.id) = none ∧
      fn.interface.valued? input.valueKey = some input ∧
      (input.valueKey, value) ∈ fn.node.values.fields)

section Holding

variable {fn : FlatNode} {input : ElaboratedInput} {value lowered : Json}

variable {write : String × Json}

theorem mem_stagedLiteral {other : ElaboratedInput}
    (listed : write ∈ host.stagedLiteral fn other value) :
    write.1 = other.spec.id ∧ (host.lowerWidgetLiteral fn other value).1 = some write.2 := by
  unfold stagedLiteral at listed
  rw [Option.mem_toList, Option.map_eq_some_iff] at listed
  obtain ⟨lowered, lowers, same⟩ := listed
  rw [← same]
  exact ⟨rfl, lowers⟩

theorem stagedLiteral_of_lowered
    (lowers : (host.lowerWidgetLiteral fn input value).1 = some lowered) :
    host.stagedLiteral fn input value = [(input.spec.id, lowered)] := by
  unfold stagedLiteral
  rw [lowers]
  rfl

section

variable (declared : input ∈ fn.interface.inputs)

include declared

theorem mem_storedWrites {entry : String × Json} (listed : write ∈ host.storedWrites fn entry)
    (same : write.1 = input.spec.id) :
    entry.1 = input.valueKey ∧ (host.lowerWidgetLiteral fn input entry.2).1 = some write.2 := by
  unfold storedWrites at listed
  split at listed
  · exact absurd listed List.not_mem_nil
  · rename_i other found
    split at listed
    · exact absurd listed List.not_mem_nil
    · have staged := mem_stagedLiteral listed
      have known := Interface.mem_of_valued? found
      have equal : other = input :=
        fn.interface.eq_of_key known.1 declared (staged.1.symm.trans same)
      subst equal
      exact ⟨known.2.symm, staged.2⟩

theorem mem_promotedWrite {entry : (String × String) × Json}
    (listed : write ∈ host.promotedWrite fn entry) (same : write.1 = input.spec.id) :
    entry.1 = (fn.runtimeId, input.spec.id) ∧
      (host.lowerWidgetLiteral fn input entry.2).1 = some write.2 := by
  unfold promotedWrite at listed
  split at listed
  · exact absurd listed List.not_mem_nil
  · rename_i here
    split at listed
    · exact absurd listed List.not_mem_nil
    · rename_i other found
      have staged := mem_stagedLiteral listed
      have filed : other.spec.id = entry.1.2 := by simpa using List.find?_some found
      have equal : other = input :=
        fn.interface.eq_of_key (List.mem_of_find?_eq_some found) declared
          (staged.1.symm.trans same)
      subst equal
      rw [filed]
      exact ⟨Prod.ext (Decidable.not_not.mp here) rfl, staged.2⟩

theorem derived_unwritten (authored : input.derivedValue = none) :
    ∀ write ∈ fn.interface.inputs.flatMap derivedWrites, write.1 ≠ input.spec.id := by
  intro write listed same
  cases List.mem_flatMap.mp listed with
  | intro other found =>
    have derives := found.2
    unfold derivedWrites at derives
    split at derives
    · rename_i derived
      rw [List.mem_singleton.mp derives] at same
      have equal := fn.interface.eq_of_key found.1 declared same
      rw [equal, authored] at derived
      simp at derived
    · exact absurd derives List.not_mem_nil

end

theorem Holds.staged (holds : host.Holds fn input value)
    (lowers : (host.lowerWidgetLiteral fn input value).1 = some lowered) :
    getField (applyWrites [] (host.literalWrites fn)) input.spec.id = some lowered := by
  unfold literalWrites
  rw [applyWrites_append,
    getField_applyWrites_of_unwritten (derived_unwritten holds.declared holds.authored),
    applyWrites_append]
  cases holds.literal with
  | inl promoted =>
    apply getField_applyWrites_of_written
    · apply List.mem_flatMap.mpr
      refine ⟨_, promoted, ?_⟩
      unfold promotedWrite
      rw [if_neg (by simp)]
      split
      · rename_i missing
        exact absurd (List.find?_eq_none.mp missing input holds.declared) (by simp)
      · rename_i other found
        have filed : other.spec.id = input.spec.id := by simpa using List.find?_some found
        have equal := fn.interface.eq_of_key (List.mem_of_find?_eq_some found) holds.declared filed
        rw [equal, stagedLiteral_of_lowered lowers]
        exact List.mem_singleton_self _
    · intro write listed same
      cases List.mem_flatMap.mp listed with
      | intro entry found =>
        have recorded := mem_promotedWrite holds.declared found.2 same
        have equal := List.inj_on_of_nodup_map overrides_distinct found.1 promoted recorded.1
        rw [equal, lowers] at recorded
        exact (Option.some.inj recorded.2).symm
  | inr stored =>
    obtain ⟨unpromoted, keyed, stored⟩ := stored
    have unwritten : ∀ write ∈ host.promoted.overrides.flatMap (host.promotedWrite fn),
        write.1 ≠ input.spec.id := by
      intro write listed same
      cases List.mem_flatMap.mp listed with
      | intro entry found =>
        have recorded := mem_promotedWrite holds.declared found.2 same
        rw [List.lookup_eq_none_iff] at unpromoted
        exact absurd (unpromoted entry found.1) (by simp [recorded.1])
    rw [getField_applyWrites_of_unwritten unwritten]
    apply getField_applyWrites_of_written
    · apply List.mem_flatMap.mpr
      refine ⟨_, stored, ?_⟩
      unfold storedWrites
      rw [keyed]
      dsimp only
      rw [if_neg (by simp [Option.ne_none_iff_isSome, holds.wired]),
        stagedLiteral_of_lowered lowers]
      exact List.mem_singleton_self _
    · intro write listed same
      cases List.mem_flatMap.mp listed with
      | intro entry found =>
        have recorded := mem_storedWrites holds.declared found.2 same
        have equal := List.inj_on_of_nodup_map fn.node.values.distinct found.1 stored recorded.1
        rw [equal, lowers] at recorded
        exact (Option.some.inj recorded.2).symm

end Holding

end Host

/-! ## Contribution to the closure -/

/-- Replacing a value by null takes away the text that heads it, and nothing else. -/
theorem mem_arrayHeads_iff {key target : String} {value : Json} :
    ∀ {inputs : List (String × Json)}, getField inputs key = some value →
      (target ∈ arrayHeads inputs ↔
        target ∈ arrayHeads (setField inputs key .null) ∨ arrayHead value = some target)
  | [], held => absurd held (by simp)
  | (name, field) :: rest, held => by
    rw [getField_cons] at held
    by_cases same : name = key
    · rw [if_pos same] at held
      have cleared : arrayHead .null = none := rfl
      simp only [arrayHeads, setField, if_pos same, List.mem_filterMap, List.mem_cons,
        exists_eq_or_imp, cleared, Option.some.inj held]
      simp only [reduceCtorEq, false_or]
      exact or_comm
    · rw [if_neg same] at held
      have ih := @mem_arrayHeads_iff key target value rest held
      simp only [arrayHeads, List.mem_filterMap] at ih
      simp only [arrayHeads, setField, if_neg same, List.mem_filterMap, List.mem_cons,
        exists_eq_or_imp, ih, or_assoc]

/-- A staging with the value of one input replaced by null. -/
def Staging.nulled (staging : Staging) (runtimeId key : String) : Staging :=
  { staging with
    flat := staging.flat.map fun fn =>
      if fn.runtimeId = runtimeId then { fn with inputs := setField fn.inputs key .null }
      else fn }

namespace Host

variable {host : Host} {mode : Mode}

section Nulling

variable {staging : Staging} {runtimeId key : String} {scope : ExecutionScope}

theorem bare_nulled : (staging.nulled runtimeId key).flat.map FlatNode.bare =
    staging.flat.map FlatNode.bare := by
  unfold Staging.nulled
  rw [List.map_map]
  apply List.map_congr_left
  intro fn _
  rw [Function.comp_apply]
  split <;> rfl

theorem find?_nulled (other : String) :
    (staging.nulled runtimeId key).flat.find? (·.runtimeId = other) =
      (staging.flat.find? (·.runtimeId = other)).map fun fn =>
        if fn.runtimeId = runtimeId then { fn with inputs := setField fn.inputs key .null }
        else fn := by
  unfold Staging.nulled
  rw [List.find?_map]
  have same : ((fun fn : FlatNode => decide (fn.runtimeId = other)) ∘ fun fn : FlatNode =>
      if fn.runtimeId = runtimeId then { fn with inputs := setField fn.inputs key .null }
      else fn) = fun fn : FlatNode => decide (fn.runtimeId = other) := by
    funext fn
    rw [Function.comp_apply]
    split <;> rfl
  rw [same]

theorem mem_producersOf_nulled (exact : mode.wouldRun = false) {fn : FlatNode} {value : Json}
    (found : staging.node? runtimeId = some fn) (held : getField fn.inputs key = some value)
    (source target : String) :
    target ∈ producersOf [] (staging.flat.map (host.routedNode mode)) source ↔
      target ∈ producersOf []
        ((staging.nulled runtimeId key).flat.map (host.routedNode mode)) source ∨
        (source = runtimeId ∧ arrayHead value = some target) := by
  rw [producersOf_exact exact, producersOf_exact exact, headsOf, headsOf, find?_nulled]
  by_cases here : source = runtimeId
  · subst here
    have named : fn.runtimeId = source := by simpa using List.find?_some found
    unfold Staging.node? at found
    rw [found]
    simp only [Option.map_some, if_pos named, true_and]
    exact mem_arrayHeads_iff held
  · cases other : staging.flat.find? (·.runtimeId = source) with
    | none => simp [here]
    | some node =>
      have named : node.runtimeId = source := by simpa using List.find?_some other
      have apart : node.runtimeId ≠ runtimeId := fun same => here (named.symm.trans same)
      simp [here, apart]

theorem closureOf_nulled_iff (exact : mode.wouldRun = false) (unrecorded : staging.edges = [])
    (closes : host.scopeCloses staging.flat scope = true) {fn : FlatNode} {value : Json}
    (found : staging.node? runtimeId = some fn) (held : getField fn.inputs key = some value) :
    (∀ node, node ∈ host.closureOf mode staging scope ↔
        node ∈ host.closureOf mode (staging.nulled runtimeId key) scope) ↔
      (runtimeId ∈ host.closureOf mode (staging.nulled runtimeId key) scope →
        ∀ head, arrayHead value = some head →
          head ∈ host.closureOf mode (staging.nulled runtimeId key) scope) := by
  have closesToo : host.scopeCloses (staging.nulled runtimeId key).flat scope = true := by
    rw [← scopeCloses_bare, bare_nulled, scopeCloses_bare, closes]
  have producers := @mem_producersOf_nulled host mode staging runtimeId key exact fn value
    found held
  have roots : host.rootsOf mode (staging.nulled runtimeId key).flat scope =
      host.rootsOf mode staging.flat scope := rootsOf_congr bare_nulled
  have unrecordedToo : (staging.nulled runtimeId key).edges = [] := unrecorded
  simp only [mem_closureOf_iff closes, mem_closureOf_iff closesToo, unrecorded, unrecordedToo,
    roots]
  rw [Reaches.absorbs_iff fun source target listed => (producers source target).mpr (.inl listed)]
  constructor
  · intro absorbed reached head headed
    exact absorbed runtimeId reached head ((producers _ _).mpr (.inr ⟨rfl, headed⟩))
  · intro stays source reached target listed
    cases (producers source target).mp listed with
    | inl kept => exact reached.step kept
    | inr headed =>
      rw [headed.1] at reached
      exact stays reached target headed.2

end Nulling

end Host

/-! ## Emission -/

/-- A name that is given once is given by one. -/
theorem eq_of_nodup_filterMap {Element Name : Type} {name? : Element → Option Name} {name : Name} :
    ∀ {elements : List Element}, (elements.filterMap name?).Nodup →
      ∀ {first second : Element}, first ∈ elements → second ∈ elements →
        name? first = some name → name? second = some name → first = second
  | [], _, _, _, listed, _, _, _ => absurd listed List.not_mem_nil
  | element :: elements, distinct, first, second, firstListed, secondListed, named, same => by
    have rest : (elements.filterMap name?).Nodup :=
      distinct.sublist ((List.sublist_cons_self _ _).filterMap _)
    have once : ∀ other ∈ elements, name? element = some name → name? other ≠ some name := by
      intro other listed named again
      rw [List.filterMap_cons_some named] at distinct
      exact (List.nodup_cons.mp distinct).1 (List.mem_filterMap.mpr ⟨other, listed, again⟩)
    cases List.mem_cons.mp firstListed with
    | inl here =>
      cases List.mem_cons.mp secondListed with
      | inl there => rw [here, there]
      | inr later =>
        rw [here] at named
        exact absurd same (once second later named)
    | inr earlier =>
      cases List.mem_cons.mp secondListed with
      | inl there =>
        rw [there] at same
        exact absurd named (once first earlier same)
      | inr later => exact eq_of_nodup_filterMap rest earlier later named same

/-- Whether a value is a pair of a text and a number, which emission takes for a link. -/
def isOutputPair : Json → Bool
  | .arr [.str _, .num _] => true
  | _ => false

namespace Host

variable {host : Host} {mode : Mode}

/-- Emission carries a value as it is unless it is such a pair. -/
theorem wireInput_of_literal {flat : List FlatNode} {scope : Option RegionLowering}
    {value : Json} (literal : isOutputPair value = false) :
    host.wireInput flat scope value = value ∧ host.wireProblem flat value = [] := by
  unfold wireInput wireProblem
  split
  · exact absurd literal Bool.noConfusion
  · exact ⟨rfl, rfl⟩

/-- A pair that names an output is emitted as a link to it, and refused if it names none. -/
theorem wireInput_of_pair {flat : List FlatNode} {scope : Option RegionLowering}
    {value : Json} (pair : isOutputPair value = true)
    (accepted : host.wireProblem flat value = []) :
    (asDinksterLink (host.wireInput flat scope value)).isSome = true := by
  unfold isOutputPair at pair
  split at pair
  · rename_i producer index
    unfold wireProblem at accepted
    unfold wireInput
    dsimp only at accepted ⊢
    cases output : host.outputIdOf flat producer index with
    | none =>
      rw [output] at accepted
      simp at accepted
    | some output => simp
  · exact absurd pair Bool.false_ne_true

section Submission

variable {fn : FlatNode} {input : ElaboratedInput} {value : Json} {name : String}
  {delivered : List (String × PortAddress)}

/-- Defaults leave a staged value alone. -/
theorem getField_withDefaults (held : getField fn.inputs input.spec.id = some value) :
    getField (host.withDefaults fn).inputs input.spec.id = some value := by
  change getField (applyWrites fn.inputs _) input.spec.id = _
  rw [getField_applyWrites_of_unwritten, held]
  intro write listed same
  cases List.mem_flatMap.mp listed with
  | intro other found =>
    have defaults := found.2
    unfold defaultWrites at defaults
    split at defaults
    · rename_i lacking
      split at defaults
      · have staged := (mem_stagedLiteral defaults).1
        unfold lacksValue at lacking
        rw [← staged, same, held] at lacking
        simp at lacking
      · exact absurd defaults List.not_mem_nil
    · exact absurd defaults List.not_mem_nil

theorem getField_promptNode (declared : input ∈ fn.interface.inputs)
    (named : input.submissionName = some name)
    (held : getField fn.inputs input.spec.id = some value)
    (linked : undelivered delivered fn input = false)
    (typed : host.untypedAddition fn input value = false) :
    getField (host.promptNode delivered fn).inputs name = some value := by
  have distinct := List.nodup_append.mp fn.interface.named
  have submits : host.submitted delivered fn input = some (name, value) := by
    unfold submitted
    rw [named, held]
    simp [linked, typed]
  apply getField_applyWrites_of_written
  · exact List.mem_append_left _ (List.mem_filterMap.mpr ⟨input, declared, submits⟩)
  · intro write listed same
    cases List.mem_append.mp listed with
    | inl authored =>
      obtain ⟨other, known, resubmits⟩ := List.mem_filterMap.mp authored
      have renamed : other.submissionName = some name := by
        unfold submitted at resubmits
        split at resubmits
        · rename_i sent _ otherNamed _
          split at resubmits
          · simp at resubmits
          · rw [← Option.some.inj resubmits] at same
            rw [otherNamed]
            exact congrArg some same
        · simp at resubmits
      have equal := eq_of_nodup_filterMap distinct.1 known declared renamed named
      rw [equal, submits] at resubmits
      rw [← Option.some.inj resubmits]
    | inr derived =>
      have first : name ∈ fn.interface.inputs.filterMap (·.submissionName) :=
        List.mem_filterMap.mpr ⟨input, declared, named⟩
      have second : name ∈ fn.interface.submissionValues.map (·.1) := by
        rw [← same]
        exact List.mem_map_of_mem derived
      exact absurd rfl (distinct.2.2 name first name second)

theorem getField_nativeEntries (declared : input ∈ fn.interface.inputs)
    (named : input.submissionName = some name)
    (plain : ∀ construct selected, input.origin ≠ .selector construct selected)
    (submitted : getField (host.promptNode delivered fn).inputs name = some value) :
    getField (host.nativeEntries delivered fn) name = some value := by
  have distinct := List.nodup_append.mp fn.interface.named
  unfold nativeEntries
  rw [← submitted]
  suffices kept : (!(host.comboNames delivered fn).contains name) = true from
    @getField_filter _ name (fun key => !(host.comboNames delivered fn).contains key) kept
  rw [Bool.not_eq_true', List.contains_eq_mem, decide_eq_false_iff_not]
  intro listed
  obtain ⟨other, known, combo⟩ := List.mem_filterMap.mp listed
  split at combo
  · rename_i construct selected selects
    rw [Option.map_eq_some_iff] at combo
    obtain ⟨variant, submits, same⟩ := combo
    have renamed : other.submissionName = some name := by
      unfold submittedVariant at submits
      dsimp only at submits
      split at submits
      · simp at submits
      · split at submits
        · rename_i sent _ _ otherNamed _
          split at submits
          · rw [← Option.some.inj submits] at same
            rw [otherNamed, ← same]
          · simp at submits
        · rename_i slot
          rw [selects] at slot
          simp at slot
        · simp at submits
    have equal := eq_of_nodup_filterMap distinct.1 known declared renamed named
    rw [equal] at selects
    exact plain _ _ selects
  · simp at combo

end Submission

/-! ## Executed nodes -/

theorem not_hasErrors_append {first second : List Diagnostic} :
    hasErrors (first ++ second) = false ↔ hasErrors first = false ∧ hasErrors second = false := by
  simp [hasErrors]

theorem not_hasErrors_flatMap {Element : Type} {elements : List Element}
    {problems : Element → List Diagnostic} : hasErrors (elements.flatMap problems) = false ↔
      ∀ element ∈ elements, hasErrors (problems element) = false := by
  simp only [hasErrors, List.any_flatMap, List.any_eq_false]
  simp

/-- Whether a compile gets to the emission of its graph: its scope is settled, its nodes
are valid and their inputs can be submitted. -/
def reachesEmission (host : Host) (mode : Mode) (scope : ExecutionScope) : Bool :=
  let staging := host.completed mode scope
  let included := host.executed mode (host.staged mode) scope
  let nodes := staging.flat.filter fun fn => included.contains fn.runtimeId
  !hasErrors (host.settledSink mode (host.staged mode) scope ++ host.validationSink mode scope) &&
    !hasErrors (nodes.flatMap fun fn =>
      fn.interface.inputs.flatMap (host.submissionProblem staging.delivered fn))

theorem reachesEmission_of_compileImpl {emission : Emission} {scope : ExecutionScope}
    {artifact : Artifact} (compiled : host.compileImpl mode emission scope = .ok artifact) :
    host.reachesEmission mode scope = true := by
  unfold compileImpl at compiled
  dsimp only at compiled
  split at compiled
  · simp at compiled
  · split at compiled
    · simp at compiled
    · split at compiled
      · simp at compiled
      · rename_i valid
        split at compiled
        · simp at compiled
        · rename_i assembled
          unfold reachesEmission
          rw [Bool.not_eq_true] at valid assembled
          have assembled := (not_hasErrors_append.mp assembled).2
          have submitted := (not_hasErrors_append.mp assembled).1
          rw [Bool.and_eq_true, Bool.not_eq_true', Bool.not_eq_true']
          exact ⟨valid, submitted⟩

/-- A validated literal is not refused. -/
theorem Holds.accepted {fn : FlatNode} {input : ElaboratedInput} {value : Json}
    (holds : host.Holds fn input value) (valid : hasErrors (host.literalSink fn) = false) :
    hasErrors (host.lowerWidgetLiteral fn input value).2 = false := by
  unfold literalSink at valid
  rw [not_hasErrors_append, not_hasErrors_flatMap, not_hasErrors_flatMap] at valid
  cases holds.literal with
  | inl promoted =>
    have valid := valid.2 _ promoted
    rw [if_neg (by simp)] at valid
    split at valid
    · rename_i missing
      exact absurd (List.find?_eq_none.mp missing input holds.declared) (by simp)
    · rename_i other found
      have filed : other.spec.id = input.spec.id := by simpa using List.find?_some found
      have equal := fn.interface.eq_of_key (List.mem_of_find?_eq_some found) holds.declared filed
      rw [equal] at valid
      exact valid
  | inr stored =>
    have valid := valid.1 _ stored.2.2
    rw [stored.2.1] at valid
    dsimp only at valid
    rw [if_neg (by simp [Option.ne_none_iff_isSome, holds.wired])] at valid
    exact valid

section Kept

variable {scope : ExecutionScope} {fn : FlatNode} {input : ElaboratedInput}
  {value lowered : Json}

theorem mem_completed (listed : fn ∈ (host.staged mode).flat)
    (executed : fn.runtimeId ∈ host.executed mode (host.staged mode) scope) :
    host.withDefaults fn ∈ (host.completed mode scope).flat := by
  unfold completed
  apply List.mem_map.mpr
  refine ⟨fn, listed, ?_⟩
  rw [if_pos (validates_of_executed executed)]

theorem valid_of_reachesEmission (reaches : host.reachesEmission mode scope = true)
    (listed : fn ∈ (host.staged mode).flat)
    (executed : fn.runtimeId ∈ host.executed mode (host.staged mode) scope) :
    hasErrors (host.literalSink fn) = false := by
  unfold reachesEmission at reaches
  rw [Bool.and_eq_true, Bool.not_eq_true', not_hasErrors_append] at reaches
  have literals := reaches.1.2
  unfold validationSink at literals
  rw [not_hasErrors_append, not_hasErrors_append, not_hasErrors_append,
    not_hasErrors_flatMap] at literals
  exact literals.1.1.1 fn (List.mem_filter.mpr ⟨listed, validates_of_executed executed⟩)

def emittedInputs (host : Host) (mode : Mode) (scope : ExecutionScope) (fn : FlatNode) :
    List (String × Json) :=
  host.nativeInputs (host.completed mode scope).flat (host.completed mode scope).delivered
    (host.ownerRegion fn) (host.withDefaults fn)

theorem Holds.submitted (holds : host.Holds fn input value)
    (reaches : host.reachesEmission mode scope = true) (listed : fn ∈ (host.staged mode).flat)
    (executed : fn.runtimeId ∈ host.executed mode (host.staged mode) scope)
    (unlinked : (fn.runtimeId, input.address) ∉ (host.staged mode).delivered)
    (lowers : (host.lowerWidgetLiteral fn input value).1 = some lowered) {name : String}
    (named : input.submissionName = some name) :
    getField (host.nativeEntries (host.completed mode scope).delivered (host.withDefaults fn))
      name = some lowered := by
  have untouched := (@staged_framed host mode).untouched fn listed input holds.declared unlinked
  have held : getField fn.inputs input.spec.id = some lowered :=
    untouched.held.trans (holds.staged lowers)
  have defaulted := host.getField_withDefaults held
  have undelivered :
      undelivered (host.completed mode scope).delivered (host.withDefaults fn) input = false := by
    unfold Host.undelivered
    have unmarked : (host.withDefaults fn).linkedInputs.contains input.spec.id = false := by
      rw [List.contains_eq_mem, decide_eq_false_iff_not]
      exact untouched.unmarked
    rw [unmarked, Bool.and_false, Bool.false_and]
  have typed : host.untypedAddition (host.withDefaults fn) input lowered = false := by
    unfold reachesEmission at reaches
    rw [Bool.and_eq_true, Bool.not_eq_true', Bool.not_eq_true', not_hasErrors_flatMap]
      at reaches
    have accepted := reaches.2 (host.withDefaults fn)
      (List.mem_filter.mpr ⟨mem_completed listed executed, List.contains_iff_mem.mpr executed⟩)
    rw [not_hasErrors_flatMap] at accepted
    have accepted := accepted input holds.declared
    unfold submissionProblem at accepted
    rw [named, defaulted] at accepted
    dsimp only at accepted
    rw [undelivered] at accepted
    cases untyped : host.untypedAddition (host.withDefaults fn) input lowered with
    | false => rfl
    | true =>
      rw [untyped] at accepted
      exact absurd accepted (by simp [hasErrors, failure])
  exact getField_nativeEntries holds.declared named holds.plain
    (getField_promptNode holds.declared named defaulted undelivered typed)

/-- A literal is kept apart from links: it contributes no producer to the closure, and the
native graph carries it, or a marker of it, as no link and without refusing it. -/
structure LiteralKept (host : Host) (mode : Mode) (scope : ExecutionScope) (fn : FlatNode)
    (input : ElaboratedInput) (value : Json) : Prop where
  contributes : ∀ node, node ∈ host.closureOf mode (host.staged mode) scope ↔
    node ∈ host.closureOf mode ((host.staged mode).nulled fn.runtimeId input.spec.id) scope
  carried : host.emitRegions = true → ∃ name emitted, input.submissionName = some name ∧
    getField (host.emittedInputs mode scope fn) name = some emitted ∧
    Marks value emitted ∧ asDinksterLink emitted = none
  accepted : host.emitRegions = true → ∀ staged,
    getField (host.nativeEntries (host.completed mode scope).delivered (host.withDefaults fn))
      (input.submissionName.getD "") = some staged →
        host.wireProblem (host.completed mode scope).flat staged = []

/-- The lowered literal keeps clear of the shapes of links: a text that heads it names a
node that executes even with null in its place, and it is no pair of a text and a number
and no link object where the native graph is emitted. -/
structure KeepsClear (host : Host) (mode : Mode) (scope : ExecutionScope) (fn : FlatNode)
    (input : ElaboratedInput) (lowered : Json) : Prop where
  headed : host.scopeCloses (host.staged mode).flat scope = true →
    fn.runtimeId ∈
        host.closureOf mode ((host.staged mode).nulled fn.runtimeId input.spec.id) scope →
      ∀ head, arrayHead lowered = some head →
        head ∈ host.closureOf mode ((host.staged mode).nulled fn.runtimeId input.spec.id) scope
  shaped : host.emitRegions = true →
    isOutputPair lowered = false ∧ asDinksterLink lowered = none

theorem contributes_iff (exact : mode.wouldRun = false)
    (found : (host.staged mode).node? fn.runtimeId = some fn)
    (held : getField fn.inputs input.spec.id = some lowered) :
    (∀ node, node ∈ host.closureOf mode (host.staged mode) scope ↔ node ∈ host.closureOf mode
        ((host.staged mode).nulled fn.runtimeId input.spec.id) scope) ↔
    (host.scopeCloses (host.staged mode).flat scope = true → fn.runtimeId ∈
          host.closureOf mode ((host.staged mode).nulled fn.runtimeId input.spec.id) scope →
        ∀ head, arrayHead lowered = some head → head ∈
          host.closureOf mode ((host.staged mode).nulled fn.runtimeId input.spec.id) scope) := by
  cases closes : host.scopeCloses (host.staged mode).flat scope with
  | true =>
    rw [closureOf_nulled_iff exact (staged_edges exact) closes found held]
    exact ⟨fun kept _ => kept, fun kept => kept rfl⟩
  | false =>
    have closesNeither : host.scopeCloses
        ((host.staged mode).nulled fn.runtimeId input.spec.id).flat scope = false := by
      rw [← scopeCloses_bare, bare_nulled, scopeCloses_bare, closes]
    have named : ∀ flat : List FlatNode,
        flat.map (·.runtimeId) = (flat.map FlatNode.bare).map (·.runtimeId) := by
      intro flat
      rw [List.map_map]
      rfl
    constructor
    · exact fun _ impossible => absurd impossible Bool.false_ne_true
    · intro _ node
      unfold closureOf
      rw [closes, closesNeither, if_neg Bool.false_ne_true, if_neg Bool.false_ne_true,
        named, named (Staging.nulled _ _ _).flat, bare_nulled]

/-- A literal that the document holds for an unlinked input of an executed node is kept
apart from links exactly when it keeps clear of their shapes. -/
theorem literalKept_iff (exact : mode.wouldRun = false)
    (reaches : host.reachesEmission mode scope = true)
    (found : (host.staged mode).node? fn.runtimeId = some fn)
    (executed : fn.runtimeId ∈ host.executed mode (host.staged mode) scope)
    (holds : host.Holds fn input value)
    (unlinked : (fn.runtimeId, input.address) ∉ (host.staged mode).delivered) :
    host.LiteralKept mode scope fn input value ↔
      ∃ lowered, (host.lowerWidgetLiteral fn input value).1 = some lowered ∧
        host.KeepsClear mode scope fn input lowered := by
  have listed : fn ∈ (host.staged mode).flat := List.mem_of_find?_eq_some found
  have valid := valid_of_reachesEmission reaches listed executed
  obtain ⟨lowered, lowers⟩ := lowered_of_accepted (holds.accepted valid)
  have held : getField fn.inputs input.spec.id = some lowered :=
    ((@staged_framed host mode).untouched fn listed input holds.declared
      unlinked).held.trans (holds.staged lowers)
  obtain ⟨apiName, wired⟩ := Option.isSome_iff_exists.mp holds.wired
  obtain ⟨name, named⟩ : ∃ name, input.submissionName = some name := by
    unfold ElaboratedInput.submissionName
    rw [wired]
    exact ⟨_, rfl⟩
  have submitted := holds.submitted reaches listed executed unlinked lowers named
  have emitted : getField (host.emittedInputs mode scope fn) name = some
      (host.wireInput (host.completed mode scope).flat (host.ownerRegion fn) lowered) := by
    unfold emittedInputs nativeInputs
    rw [getField_mapValues, submitted]
    rfl
  constructor
  · intro kept
    refine ⟨lowered, lowers, (contributes_iff exact found held).mp kept.contributes, ?_⟩
    intro emits
    have accepted := kept.accepted emits lowered (by rw [named]; exact submitted)
    obtain ⟨carriedName, carried, carriedNamed, carriedAs, _, unlinked⟩ := kept.carried emits
    rw [named] at carriedNamed
    rw [← Option.some.inj carriedNamed, emitted] at carriedAs
    rw [← Option.some.inj carriedAs] at unlinked
    cases pair : isOutputPair lowered with
    | true =>
      have linked := @wireInput_of_pair host _ (host.ownerRegion fn) _ pair accepted
      rw [unlinked] at linked
      simp at linked
    | false =>
      rw [(wireInput_of_literal pair).1] at unlinked
      exact ⟨rfl, unlinked⟩
  · intro clear
    obtain ⟨other, same, clear⟩ := clear
    rw [lowers] at same
    rw [← Option.some.inj same] at clear
    constructor
    · exact (contributes_iff exact found held).mpr clear.headed
    · intro emits
      have shaped := clear.shaped emits
      rw [(wireInput_of_literal shaped.1).1] at emitted
      exact ⟨name, lowered, named, emitted, marks_of_lowered lowers, shaped.2⟩
    · intro emits staged held
      rw [named] at held
      change getField _ name = _ at held
      rw [submitted] at held
      cases held
      exact (@wireInput_of_literal host _ none _ (clear.shaped emits).1).2

/-- Whether an input of a staged node holds a stored literal that is neither promoted over
nor linked. -/
def storesLiteral (host : Host) (mode : Mode) (runtimeId key : String) (value : Json) : Bool :=
  match (host.staged mode).node? runtimeId with
  | none => false
  | some fn =>
    match fn.interface.valued? key with
    | none => false
    | some input =>
      input.apiName.isSome && input.derivedValue.isNone && input.origin = .static &&
        getField fn.node.values.fields key = some value && input.spec.id = key &&
        (host.promoted.overrides.lookup (fn.runtimeId, input.spec.id)).isNone &&
        (fn.runtimeId, input.address) ∉ (host.staged mode).delivered

theorem holds_of_storesLiteral {runtimeId key : String}
    (stores : host.storesLiteral mode runtimeId key value = true) :
    ∃ fn input, fn.runtimeId = runtimeId ∧ input.spec.id = key ∧
      (host.staged mode).node? fn.runtimeId = some fn ∧ host.Holds fn input value ∧
      (fn.runtimeId, input.address) ∉ (host.staged mode).delivered := by
  unfold storesLiteral at stores
  split at stores
  · exact absurd stores Bool.false_ne_true
  · rename_i fn found
    split at stores
    · exact absurd stores Bool.false_ne_true
    · rename_i input keyed
      simp only [Bool.and_eq_true, decide_eq_true_eq, Option.isNone_iff_eq_none] at stores
      obtain ⟨⟨⟨⟨⟨⟨wired, authored⟩, plain⟩, stored⟩, named⟩, unpromoted⟩, unlinked⟩ := stores
      have known := Interface.mem_of_valued? keyed
      have same : fn.runtimeId = runtimeId := by simpa using List.find?_some found
      refine ⟨fn, input, same, named, ?_, ⟨known.1, wired, authored, ?_, .inr ?_⟩, unlinked⟩
      · rw [same, found]
      · intro construct selected selector
        rw [plain] at selector
        simp at selector
      · rw [known.2]
        exact ⟨unpromoted, keyed, mem_of_getField stored⟩

end Kept

end Host

section Fixture

def showAndMake : String → Option NodeType
  | "Show" => some ⟨⟨true, false, none⟩,
      unaryInterface (staticInput "value" (.concrete "IMAGE")) []⟩
  | "Make" => some ⟨⟨false, false, none⟩,
      staticInterface [] [staticOutput "made" (.concrete "IMAGE")]⟩
  | _ => none

/-- A document of one shown literal beside an unconnected node. -/
def shownLiteral (value : Json) : Workflow where
  root := "root"
  graphs := [⟨"root", [valuedNode "show" "Show" "value" value,
    activeNode "make" "Make" []],
    [], [], [], [], [], none⟩]

/-- A compile of such a document. -/
def literalHost (value : Json) : Host :=
  .static (shownLiteral value) 2 showAndMake

/-- A number is kept apart from links. -/
theorem literalKept_number : ∃ fn input, (literalHost (.num 3)).Holds fn input (.num 3) ∧
      (literalHost (.num 3)).LiteralKept unchosen .full fn input (.num 3) := by
  have stores : (literalHost (.num 3)).storesLiteral unchosen "show" "value" (.num 3) =
      true := by decide +kernel
  obtain ⟨fn, input, same, _, found, holds, unlinked⟩ := Host.holds_of_storesLiteral stores
  have reaches : (literalHost (.num 3)).reachesEmission unchosen .full = true := by
    decide +kernel
  have executed : fn.runtimeId ∈ (literalHost (.num 3)).executed unchosen
      ((literalHost (.num 3)).staged unchosen) .full := by
    rw [same]
    decide +kernel
  refine ⟨fn, input, holds, (Host.literalKept_iff rfl reaches found executed holds unlinked).mpr ?_⟩
  have valid := Host.valid_of_reachesEmission reaches (List.mem_of_find?_eq_some found) executed
  obtain ⟨lowered, lowers⟩ := Host.lowered_of_accepted (holds.accepted valid)
  refine ⟨lowered, lowers, ?_, ?_⟩
  · intro _ _ head headed
    cases Host.marks_of_lowered lowers <;>
      simp [arrayHead, typedLiteralWire, decimalIntegerWire] at headed
  · intro _
    cases Host.marks_of_lowered lowers with
    | plain => decide
    | typed type => exact ⟨rfl, asDinksterLink_typedLiteralWire type _⟩
    | integer => exact ⟨rfl, asDinksterLink_decimalIntegerWire _⟩

/-- Two texts or a text and a number are read as a link: the closure executes the node the
text names. -/
theorem literal_read_as_link : ¬ ∀ (host : Host) (mode : Mode) (emission : Emission)
    (scope : ExecutionScope) (artifact : Host.Artifact) (fn : FlatNode) (input : ElaboratedInput)
    (value : Json), mode.wouldRun = false → host.compileImpl mode emission scope = .ok artifact →
      (host.staged mode).node? fn.runtimeId = some fn →
      fn.runtimeId ∈ host.executed mode (host.staged mode) scope → host.Holds fn input value →
      (fn.runtimeId, input.address) ∉ (host.staged mode).delivered →
        host.LiteralKept mode scope fn input value := by
  intro claim
  have stores : (literalHost (.arr [.str "make", .num 0])).storesLiteral unchosen
      "show" "value" (.arr [.str "make", .num 0]) = true := by decide +kernel
  obtain ⟨fn, input, same, named, found, holds, unlinked⟩ := Host.holds_of_storesLiteral stores
  have compiled := @Host.compileImpl_of_isOk (literalHost (.arr [.str "make", .num 0])) unchosen
    unchecked .full (by decide +kernel)
  have kept := claim _ _ _ _ _ fn input _ rfl compiled found (by rw [same]; decide +kernel)
    holds unlinked
  have contributes := (kept.contributes "make").mp (by decide +kernel)
  rw [same, named] at contributes
  exact absurd contributes (by decide +kernel)

end Fixture

end Dinkster.Compile
