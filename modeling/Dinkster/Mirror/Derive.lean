import Dinkster.Library.Demand
import Dinkster.Mirror.Estimate

/-!
# Estimates are a least solution

An estimate has no outputs while one of the outputs it asks for is missing, so the estimates are
answers to a strict system of equations.  A node that is asked for while it is being estimated is
on a cycle, and the least solution gives it nothing either.
-/

namespace Dinkster.Mirror

open Format Library Junction Relation List Option

variable {host : Host} {options : Options} {definition : GraphDef}

section

variable (host : Host) (options : Options) (definition : GraphDef)

/-- The outputs of producers: the approved value unless it is null, otherwise the estimate. -/
def readOutput (outputs : String → String → Option Json) (node output : String) : Option Json :=
  (present (options.producerValue node output)).or (outputs node output)

/-- The estimate of a node over the outputs of its producers. -/
def estimateOf (read : String → String → Option Json) (id : String) : Option MirrorEstimate :=
  (readingOf host options definition id).bind fun (schema, bindings) =>
    (bindings.foldl (Gathered.take read) .empty).finish host schema

def outputsOf (estimates : String → Option MirrorEstimate) (id output : String) : Option Json :=
  (estimates id).bind (·.outputs.get output)

def askOf : Binding → Option (String × String)
  | .produced _ node output =>
    match present (options.producerValue node output) with
    | some _ => none
    | none => some (node, output)
  | _ => none

/-- The estimated outputs a node asks for. -/
def asksOf (id : String) : List (String × String) :=
  (readingOf host options definition id).elim [] fun reading =>
    reading.2.filterMap (askOf options)

end

theorem foldl_take_congr {first second : String → String → Option Json} :
    ∀ (bindings : List Binding) (gathered : Gathered),
      (∀ name node output, .produced name node output ∈ bindings →
        first node output = second node output) →
      bindings.foldl (Gathered.take first) gathered = bindings.foldl (Gathered.take second) gathered
  | [], _, _ => rfl
  | binding :: rest, gathered, same => by
    have here : gathered.take first binding = gathered.take second binding := by
      cases binding with
      | produced name node output =>
        exact congrArg (gathered.bind name) (same name node output mem_cons_self)
      | text value => cases value with
        | none => rfl
        | some value => cases value <;> rfl
      | _ => rfl
    rw [foldl_cons, foldl_cons, here]
    exact foldl_take_congr rest _ fun name node output later =>
      same name node output (mem_cons_of_mem _ later)

variable {gathered : Gathered} {id : String}

theorem bind_resolvable (stuck : gathered.resolvable = false) (name : String)
    (value : Option Json) : (gathered.bind name value).resolvable = false := by
  unfold Gathered.bind
  dsimp only
  split
  · rfl
  · exact stuck

variable {read : String → String → Option Json} {ask : String × String} {evaluating : List String}

theorem take_resolvable (stuck : gathered.resolvable = false) (binding : Binding) :
    (gathered.take read binding).resolvable = false := by
  unfold Gathered.take
  split
  · exact stuck
  · rfl
  · exact stuck
  · exact stuck
  all_goals exact bind_resolvable stuck _ _

theorem foldl_take_resolvable : ∀ (bindings : List Binding) {gathered : Gathered},
      gathered.resolvable = false ∨ (∃ name node output,
        .produced name node output ∈ bindings ∧ read node output = none) →
      (bindings.foldl (Gathered.take read) gathered).resolvable = false
  | [], _, .inl stuck => stuck
  | [], _, .inr ⟨_, _, _, listed, _⟩ => absurd listed not_mem_nil
  | binding :: rest, gathered, missing => by
    refine foldl_take_resolvable rest ?_
    rcases missing with stuck | ⟨name, node, output, listed, missing⟩
    · exact .inl (take_resolvable stuck binding)
    · cases mem_cons.mp listed with
      | inl here =>
        subst here
        have bound : gathered.take read (.produced name node output) =
          gathered.bind name none := congrArg (gathered.bind name) missing
        rw [bound]
        exact .inl rfl
      | inr later => exact .inr ⟨name, node, output, later, missing⟩

/-- An estimate has no outputs while an input has no value. -/
theorem finish_unresolvable (stuck : gathered.resolvable = false) (schema : NodeSchema)
    (output : String) : (gathered.finish host schema).bind (·.outputs.get output) = none := by
  unfold Gathered.finish
  split
  · rw [stuck, if_neg Bool.false_ne_true]
    cases validateExpressionText host _ gathered.inputNames <;> rfl
  · rfl

theorem askOf_eq_some {binding : Binding} :
    askOf options binding = some ask ↔ ∃ name, binding = .produced name ask.1 ask.2 ∧
      present (options.producerValue ask.1 ask.2) = none := by
  constructor
  · intro asked
    unfold askOf at asked
    split at asked
    · split at asked
      · cases asked
      · rename_i absent
        cases asked
        exact ⟨_, rfl, absent⟩
    · cases asked
  · rintro ⟨name, rfl, absent⟩
    unfold askOf
    simp only [absent]

theorem mem_asksOf : ask ∈ asksOf host options definition id ↔
      ∃ schema bindings name, readingOf host options definition id = some (schema, bindings) ∧
        .produced name ask.1 ask.2 ∈ bindings ∧
        present (options.producerValue ask.1 ask.2) = none := by
  unfold asksOf
  cases readingOf host options definition id with
  | none => simp
  | some reading =>
    rw [elim_some, mem_filterMap]
    constructor
    · rintro ⟨binding, listed, asked⟩
      obtain ⟨name, rfl, absent⟩ := askOf_eq_some.mp asked
      exact ⟨reading.1, reading.2, name, rfl, listed, absent⟩
    · rintro ⟨schema, bindings, name, same, listed, absent⟩
      cases same
      exact ⟨_, listed, askOf_eq_some.mpr ⟨name, rfl, absent⟩⟩

theorem estimateOf_congr {first second : String → String → Option Json}
    (same : ∀ ask ∈ asksOf host options definition id, first ask.1 ask.2 = second ask.1 ask.2) :
    estimateOf host options definition (readOutput options first) id =
      estimateOf host options definition (readOutput options second) id := by
  unfold estimateOf
  cases reading : readingOf host options definition id with
  | none => rfl
  | some found =>
    obtain ⟨schema, bindings⟩ := found
    have folded := @foldl_take_congr (readOutput options first) (readOutput options second)
      bindings .empty fun name node other listed => by
        unfold readOutput
        cases absent : present (options.producerValue node other) with
        | some value => rfl
        | none =>
          exact same (node, other) (mem_asksOf.mpr ⟨_, _, name, reading, listed, absent⟩)
    dsimp only [bind_some]
    rw [folded]

section

variable (host : Host) (options : Options) (definition : GraphDef)

/-- The equations for the outputs of all estimates. -/
def equations : Demand String String Json where
  asks := asksOf host options definition
  answer := fun given => outputsOf (estimateOf host options definition (readOutput options given))
  congr := by
    intro first second id same
    unfold outputsOf
    rw [estimateOf_congr same]
  strict := by
    intro given id ask asked missing output
    obtain ⟨schema, bindings, name, reading, listed, absent⟩ := mem_asksOf.mp asked
    unfold outputsOf estimateOf
    rw [reading, bind_some]
    refine finish_unresolvable (foldl_take_resolvable bindings (.inr ⟨name, _, _, listed, ?_⟩)) _ _
    unfold readOutput
    rw [absent, missing]
    rfl

noncomputable def leastEstimate : String → Option MirrorEstimate :=
  estimateOf host options definition (readOutput options (equations host options definition).solution)

end

theorem outputsOf_leastEstimate : outputsOf (leastEstimate host options definition) =
      (equations host options definition).solution :=
  funext fun id => ((equations host options definition).solution_solves id).symm

/-- A derivation whose finished estimates are the least ones. -/
structure Derived (host : Host) (options : Options) (definition : GraphDef)
    (evaluating : List String) (derivation : Derivation) : Prop where
  still : derivation.evaluating = evaluating
  finished : ∀ id ∈ derivation.resolved,
    derivation.estimates.get id = leastEstimate host options definition id
  unfinished : ∀ id ∉ derivation.resolved, derivation.estimates.get id = none

/-- What asking for a node does. -/
structure Visits (host : Host) (options : Options) (definition : GraphDef)
    (evaluating : List String) (before after : Derivation) : Prop where
  derived : Derived host options definition evaluating after
  keeps : before.resolved ⊆ after.resolved

theorem Derived.finish {derivation : Derivation}
    (derived : Derived host options definition (id :: evaluating) derivation) :
    Derived host options definition evaluating
      (derivation.finish id (leastEstimate host options definition id)) := by
  have written : ∀ other, (derivation.finish id (leastEstimate host options definition id)
      ).estimates.get other = if id = other then leastEstimate host options definition id
        else derivation.estimates.get other := by
    intro other
    unfold Derivation.finish
    cases least : leastEstimate host options definition id with
    | some estimate => exact Table.get_set _ _ _ _
    | none =>
      split
      · rename_i same
        by_cases known : id ∈ derivation.resolved
        · exact same ▸ (derived.finished id known).trans least
        · exact same ▸ derived.unfinished id known
      · rfl
  refine ⟨?_, fun other listed => ?_, fun other missing => ?_⟩
  · unfold Derivation.finish
    rw [derived.still, erase_cons_head]
  · rw [written other]
    split
    · rename_i same
      rw [same]
    · rename_i different
      exact derived.finished other ((mem_cons.mp listed).resolve_left (Ne.symm different))
  · have apart : id ≠ other := fun same => missing (mem_cons.mpr (.inl same.symm))
    rw [written other, if_neg apart]
    exact derived.unfinished other fun listed => missing (mem_cons_of_mem _ listed)

theorem gatherInputs_spec {visit : String → Derivation → Option MirrorEstimate × Derivation} :
    ∀ (bindings : List Binding) (gathered : Gathered)
      {derivation : Derivation}, Derived host options definition evaluating derivation →
      (∀ name node output, .produced name node output ∈ bindings →
        present (options.producerValue node output) = none →
        ∀ derivation, Derived host options definition evaluating derivation →
          Visits host options definition evaluating derivation (visit node derivation).2 ∧
            (visit node derivation).1.bind (·.outputs.get output) =
              (equations host options definition).solution node output) →
      (gatherInputs options visit bindings gathered derivation).1 = bindings.foldl
          (Gathered.take (readOutput options (equations host options definition).solution)) gathered ∧
        Visits host options definition evaluating derivation
          (gatherInputs options visit bindings gathered derivation).2
  | [], _, _, derived, _ => ⟨rfl, derived, fun _ listed => listed⟩
  | binding :: rest, gathered, derivation, derived, visits => by
    have later := fun name node output listed =>
      visits name node output (mem_cons_of_mem _ listed)
    cases binding with
    | produced name node output =>
      have taken : gathered.take (readOutput options (equations host options definition).solution)
          (.produced name node output) = gathered.bind name
            ((present (options.producerValue node output)).or
              ((equations host options definition).solution node output)) := rfl
      unfold gatherInputs
      rw [foldl_cons, taken]
      cases absent : present (options.producerValue node output) with
      | some value => exact gatherInputs_spec rest _ derived later
      | none =>
        obtain ⟨first, same⟩ := visits name node output mem_cons_self absent derivation derived
        dsimp only
        rw [same]
        obtain ⟨folded, second⟩ := gatherInputs_spec rest (gathered.bind name
          ((equations host options definition).solution node output)) first.derived later
        exact ⟨folded, second.derived, fun id listed => second.keeps (first.keeps listed)⟩
    | text value =>
      have taken : ∀ read, gathered.take read (.text value) =
          gathered.take (fun _ _ => none) (.text value) := by
        intro read
        cases value with
        | none => rfl
        | some value => cases value <;> rfl
      rw [foldl_cons, taken]
      exact gatherInputs_spec rest _ derived later
    | unbound | unsupported | value name value => exact gatherInputs_spec rest _ derived later

theorem listed_of_readingOf {reading : NodeSchema × List Binding}
    (found : readingOf host options definition id = some reading) :
    id ∈ definition.nodes.map (·.id) := by
  unfold readingOf at found
  obtain ⟨node, known, _⟩ := bind_eq_some_iff.mp found
  have named : node.id = id := by simpa using find?_some known
  exact mem_map.mpr ⟨node, mem_of_find?_eq_some known, named⟩

theorem estimateNode_spec : ∀ (depth : Nat) (id : String) {evaluating : List String}
    {derivation : Derivation}, Derived host options definition evaluating derivation →
      evaluating.Nodup → evaluating ⊆ definition.nodes.map (·.id) →
      (∀ other ∈ evaluating, TransGen (equations host options definition).Asked id other) →
      definition.nodes.length < depth + evaluating.length →
      Visits host options definition evaluating derivation
          (estimateNode host options definition depth id derivation).2 ∧
        (∀ output, (estimateNode host options definition depth id derivation).1.bind
          (·.outputs.get output) = (equations host options definition).solution id output) ∧
        (id ∉ evaluating → id ∈ (estimateNode host options definition depth id derivation).2.resolved)
  | 0, _, evaluating, _, _, once, known, _, deep => by
    have short := (once.subperm known).length_le
    rw [length_map] at short
    omega
  | depth + 1, id, evaluating, derivation, derived, once, known, asks, deep => by
    have least : ∀ output, (leastEstimate host options definition id).bind
        (·.outputs.get output) = (equations host options definition).solution id output :=
      fun output => congrFun (congrFun outputsOf_leastEstimate id) output
    unfold estimateNode
    by_cases done : id ∈ derivation.resolved
    · rw [if_pos done]
      refine ⟨⟨derived, fun _ listed => listed⟩, fun output => ?_, fun _ => done⟩
      rw [derived.finished id done]
      exact least output
    · rw [if_neg done, derived.still]
      by_cases busy : id ∈ evaluating
      · rw [if_pos busy]
        refine ⟨⟨derived, fun _ listed => listed⟩, fun output => ?_, fun free => absurd busy free⟩
        exact ((equations host options definition).solution_of_cycle (asks id busy) output).symm
      · rw [if_neg busy]
        have started : Derived host options definition (id :: evaluating)
            { derivation with evaluating := id :: evaluating } :=
          ⟨rfl, derived.finished, derived.unfinished⟩
        cases reading : readingOf host options definition id with
        | none =>
          have nothing : leastEstimate host options definition id = none := by
            unfold leastEstimate estimateOf
            rw [reading]
            rfl
          have finished := started.finish
          rw [nothing] at finished
          dsimp only
          refine ⟨⟨finished, fun _ listed => mem_cons_of_mem _ listed⟩, fun output => ?_,
            fun _ => mem_cons_self⟩
          rw [← least output, nothing]
        | some found =>
          obtain ⟨schema, bindings⟩ := found
          obtain ⟨gathered, visits⟩ := gatherInputs_spec bindings .empty started
            fun name node output listed absent derivation derived => by
              have asked : (equations host options definition).Asked node id :=
                ⟨output, mem_asksOf.mpr ⟨_, _, name, reading, listed, absent⟩⟩
              have visited := estimateNode_spec depth node derived (nodup_cons.mpr ⟨busy, once⟩)
                (cons_subset.mpr ⟨listed_of_readingOf reading, known⟩)
                (forall_mem_cons.mpr ⟨.single asked, fun other above =>
                  (TransGen.single asked).trans (asks other above)⟩)
                (by rw [length_cons]; omega)
              exact ⟨visited.1, visited.2.1 output⟩
          have estimate : (gatherInputs options (estimateNode host options definition depth)
              bindings .empty { derivation with evaluating := id :: evaluating }).1.finish host
                schema = leastEstimate host options definition id := by
            unfold leastEstimate estimateOf
            rw [gathered, reading]
            rfl
          dsimp only
          rw [estimate]
          exact ⟨⟨visits.derived.finish, fun other listed =>
            mem_cons_of_mem _ (visits.keeps listed)⟩, least, fun _ => mem_cons_self⟩

end Dinkster.Mirror
