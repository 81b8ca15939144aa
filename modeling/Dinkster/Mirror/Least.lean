import Dinkster.Mirror.Derive

/-!
# What the estimates do not depend on

The derivation returns the least solution, whatever the order of the nodes, and the estimate of a
node only depends on the nodes it asks for, directly or through others.
-/

namespace Dinkster.Mirror

open Format Library Junction Relation List Option

variable {host : Host} {options : Options} {definition : GraphDef}

theorem foldl_derived : ∀ (nodes : List NodeData) {derivation : Derivation},
    Derived host options definition [] derivation →
      Visits host options definition [] derivation (nodes.foldl (fun derivation node =>
        (estimateNode host options definition (definition.nodes.length + 1) node.id derivation).2)
        derivation) ∧ ∀ node ∈ nodes, node.id ∈ (nodes.foldl (fun derivation node =>
        (estimateNode host options definition (definition.nodes.length + 1) node.id derivation).2)
        derivation).resolved
  | [], _, derived => ⟨⟨derived, fun _ listed => listed⟩, fun _ listed => (nomatch listed)⟩
  | node :: nodes, derivation, derived => by
    obtain ⟨visits, _, resolved⟩ := estimateNode_spec (definition.nodes.length + 1) node.id derived
      .nil (nil_subset _) (fun _ listed => (nomatch listed)) (by simp)
    obtain ⟨later, all⟩ := foldl_derived nodes visits.derived
    refine ⟨⟨later.derived, fun id listed => later.keeps (visits.keeps listed)⟩, ?_⟩
    exact forall_mem_cons.mpr ⟨later.keeps (resolved not_mem_nil), all⟩

theorem get_deriveMirrorEstimates (id : String) :
    (deriveMirrorEstimates host options definition).get id =
      leastEstimate host options definition id := by
  have begun : Derived host options definition [] ⟨[], [], []⟩ :=
    ⟨rfl, fun _ listed => (nomatch listed), fun _ _ => rfl⟩
  obtain ⟨visits, all⟩ := foldl_derived definition.nodes begun
  unfold deriveMirrorEstimates
  by_cases known : id ∈ (definition.nodes.foldl (fun derivation node => (estimateNode host options
      definition (definition.nodes.length + 1) node.id derivation).2) ⟨[], [], []⟩).resolved
  · exact visits.derived.finished id known
  · rw [visits.derived.unfinished id known]
    unfold leastEstimate estimateOf
    cases reading : readingOf host options definition id with
    | none => rfl
    | some found =>
      obtain ⟨node, listed, named⟩ := mem_map.mp (listed_of_readingOf reading)
      exact absurd (named ▸ all node listed) known

/-- A deeper search for a source finds the same. -/
theorem resolveSource_enough : ∀ (depth : Nat) (endpoint : LinkEndpoint)
    {visited : List (String × String)}, visited.Nodup → visited ⊆ knownOutputs host definition →
      (knownOutputs host definition).length < depth + visited.length →
      resolveSource host definition (depth + 1) endpoint visited =
        resolveSource host definition depth endpoint visited
  | 0, _, visited, once, known, deep => by
    have short := (once.subperm known).length_le
    omega
  | depth + 1, endpoint, visited, once, known, deep => by
    unfold resolveSource
    split
    · rfl
    · rfl
    · rename_i ref _ _
      split
      · rfl
      · split
        · rfl
        · rename_i input found
          split
          · rfl
          · rename_i new
            obtain ⟨⟨node, schema⟩, owner, output⟩ := bind_eq_some_iff.mp found
            obtain ⟨node', there, typed⟩ := bind_eq_some_iff.mp owner
            obtain ⟨schema', resolved, same⟩ := map_eq_some_iff.mp typed
            cases same
            obtain ⟨spec, declared, _⟩ := bind_eq_some_iff.mp output
            have named : node.id = ref.node := by simpa using find?_some there
            have port : spec.id = ref.port := by simpa using find?_some declared
            have listed : (ref.node, ref.port) ∈ knownOutputs host definition := by
              refine mem_flatMap.mpr ⟨node, mem_of_find?_eq_some there, ?_⟩
              rw [resolved, ← named, ← port]
              exact mem_map_of_mem (mem_of_find?_eq_some declared)
            exact resolveSource_enough depth _ (nodup_cons.mpr ⟨new, once⟩)
              (cons_subset.mpr ⟨listed, known⟩) (by rw [length_cons]; omega)
    · rfl

section

variable {nodes : List NodeData}

theorem traceLoop_nodes (index : Option RerouteIndex) (selection : Option SelectorResolution) :
    ∀ (turns : Nat) (current : LinkEndpoint) (lastLink : Option LinkData) (visited : List Stop),
      traceLoop { definition with nodes } index selection turns current lastLink visited =
        traceLoop definition index selection turns current lastLink visited
  | 0, _, _, _ => rfl
  | turns + 1, current, lastLink, visited => by
    have driver : ∀ stop : Stop,
        stop.driver { definition with nodes } index = stop.driver definition index := by
      intro stop
      cases stop <;> rfl
    have ending : ∀ stop : Stop, stop.ending { definition with nodes } index lastLink =
        stop.ending definition index lastLink := by
      intro stop
      cases stop <;> rfl
    unfold traceLoop
    simp only [driver, ending, traceLoop_nodes index selection turns]

variable (found : ∀ id, ({ definition with nodes } : GraphDef).node? id = definition.node? id)
  (sameLength : nodes.length = definition.nodes.length)
include found

theorem inputsOf_nodes (node : NodeData) (schema : NodeSchema) :
    inputsOf { definition with nodes } node schema = inputsOf definition node schema := by
  unfold inputsOf connectivity
  simp only [found]

theorem resolveSource_nodes : ∀ (depth : Nat) (endpoint : LinkEndpoint)
    (visited : List (String × String)),
      resolveSource host { definition with nodes } depth endpoint visited =
        resolveSource host definition depth endpoint visited
  | 0, _, _ => rfl
  | depth + 1, endpoint, visited => by
    have trace : traceEndpoint { definition with nodes } endpoint
        (some (buildRerouteIndex { definition with nodes })) none =
        traceEndpoint definition endpoint (some (buildRerouteIndex definition)) none :=
      traceLoop_nodes _ _ _ _ _ _
    unfold resolveSource tapValueOf knownInput nodeSchema
    simp only [trace, found, inputsOf_nodes found, resolveSource_nodes depth]
    rfl

theorem readingOf_nodes (sameKnown : (knownOutputs host { definition with nodes }).length =
      (knownOutputs host definition).length) (id : String) :
    readingOf host options { definition with nodes } id = readingOf host options definition id := by
  unfold readingOf bindingOf companionSourceOf
  simp only [found, inputsOf_nodes found, resolveSource_nodes found, sameKnown]
  rfl

end

theorem node?_perm {nodes : List NodeData} (distinct : (definition.nodes.map (·.id)).Nodup)
    (perm : nodes.Perm definition.nodes) (id : String) :
    ({ definition with nodes } : GraphDef).node? id = definition.node? id := by
  have once : ∀ {first second : NodeData}, first ∈ definition.nodes → second ∈ definition.nodes →
      first.id = second.id → first = second :=
    fun here there same => inj_on_of_nodup_map distinct here there same
  unfold GraphDef.node?
  cases here : nodes.find? (·.id = id) with
  | none =>
    refine (List.find?_eq_none.mpr fun node listed => ?_).symm
    exact List.find?_eq_none.mp here node (perm.mem_iff.mpr listed)
  | some node =>
    have listed := perm.mem_iff.mp (mem_of_find?_eq_some here)
    have named : node.id = id := by simpa using find?_some here
    cases there : definition.nodes.find? (·.id = id) with
    | none => exact absurd (by simpa using named) (List.find?_eq_none.mp there node listed)
    | some other =>
      have other_named : other.id = id := by simpa using find?_some there
      rw [once listed (mem_of_find?_eq_some there) (named.trans other_named.symm)]

/-- A node is asked for an output by another one. -/
def AskedBy (host : Host) (options : Options) (definition : GraphDef) (other id : String) : Prop :=
  ∃ output, (other, output) ∈ asksOf host options definition id

/-- The estimate of a node depends on what is read for the nodes it asks for, directly or through
others. -/
theorem leastEstimate_congr {options' : Options} {definition' : GraphDef} {id : String}
    (values : options'.producerValue = options.producerValue)
    (same : ∀ upstream, ReflTransGen (AskedBy host options definition) upstream id →
      readingOf host options' definition' upstream = readingOf host options definition upstream) :
    leastEstimate host options' definition' id = leastEstimate host options definition id := by
  have reads : ∀ outputs, readOutput options' outputs = readOutput options outputs := by
    intro outputs
    funext node output
    unfold readOutput
    rw [values]
  have estimates : ∀ read upstream, ReflTransGen (AskedBy host options definition) upstream id →
      estimateOf host options' definition' read upstream =
        estimateOf host options definition read upstream := by
    intro read upstream reached
    unfold estimateOf
    rw [same upstream reached]
  have agree : ∀ upstream, ReflTransGen (AskedBy host options definition) upstream id →
      asksOf host options' definition' upstream = asksOf host options definition upstream ∧
        ∀ given, (equations host options' definition').answer given upstream =
          (equations host options definition).answer given upstream := by
    intro upstream reached
    constructor
    · unfold asksOf askOf
      rw [same upstream reached, values]
    · intro given
      funext output
      exact congrArg (·.bind (·.outputs.get output))
        ((congrArg (estimateOf host options' definition' · upstream) (reads given)).trans
          (estimates _ upstream reached))
  unfold leastEstimate
  rw [reads, estimates _ id .refl]
  refine estimateOf_congr fun ask listed => ?_
  have asked : AskedBy host options definition ask.1 id := ⟨ask.2, listed⟩
  exact congrFun ((equations host options definition).solution_congr fun upstream reached =>
    agree upstream (reached.tail asked)) ask.2

/-- Estimates that solve the equations and have no output that another solution lacks. -/
structure Least (host : Host) (options : Options) (definition : GraphDef)
    (estimates : String → Option MirrorEstimate) : Prop where
  solves : ∀ id, estimates id =
    estimateOf host options definition (readOutput options (outputsOf estimates)) id
  least : ∀ others : String → Option MirrorEstimate,
    (∀ id, others id =
      estimateOf host options definition (readOutput options (outputsOf others)) id) →
    ∀ id output value, outputsOf estimates id output = some value →
      outputsOf others id output = some value

theorem leastEstimate_least :
    Least host options definition (leastEstimate host options definition) := by
  constructor
  · intro id
    rw [outputsOf_leastEstimate]
    rfl
  · intro others solves id output value found
    rw [outputsOf_leastEstimate] at found
    refine (equations host options definition).solution_le (fun node => ?_) found
    funext output
    exact congrArg (·.bind (·.outputs.get output)) (solves node)

/-- Mirror estimates are the least solution of their equations: the same in every order of the
nodes, without outputs on a cycle, and without a change where nodes are disabled on which a node
does not depend. -/
theorem mirrorEstimates_least (host : Host) (options : Options) (definition : GraphDef) :
    Least host options definition (deriveMirrorEstimates host options definition).get ∧
      (∀ nodes, (definition.nodes.map (·.id)).Nodup → nodes.Perm definition.nodes → ∀ id,
        (deriveMirrorEstimates host options { definition with nodes }).get id =
          (deriveMirrorEstimates host options definition).get id) ∧
      (∀ id, TransGen (AskedBy host options definition) id id → ∀ output,
        outputsOf (deriveMirrorEstimates host options definition).get id output = none) ∧
      ∀ (off : String → Bool) (id : String),
        (∀ upstream, ReflTransGen (AskedBy host options definition) upstream id →
          off upstream = false) → (deriveMirrorEstimates host
          { options with enabled := fun id => options.enabled id && !off id } definition).get id =
          (deriveMirrorEstimates host options definition).get id := by
  have derived : (deriveMirrorEstimates host options definition).get =
      leastEstimate host options definition := funext get_deriveMirrorEstimates
  refine ⟨?_, ?_, ?_, ?_⟩
  · rw [derived]
    exact leastEstimate_least
  · intro nodes distinct perm id
    rw [get_deriveMirrorEstimates, get_deriveMirrorEstimates]
    refine leastEstimate_congr rfl fun upstream _ => ?_
    exact readingOf_nodes (node?_perm distinct perm) (perm.flatMap_right _).length_eq upstream
  · intro id cycle output
    rw [derived, outputsOf_leastEstimate]
    exact (equations host options definition).solution_of_cycle cycle output
  · intro off id apart
    rw [get_deriveMirrorEstimates, get_deriveMirrorEstimates]
    refine leastEstimate_congr rfl fun upstream reached => ?_
    unfold readingOf
    simp only [apart upstream reached, Bool.not_false, Bool.and_true]

/-- An input that stores nothing by default. -/
def plainInput (port apiName : String) (filed : port = elabKeyOf ⟨port, []⟩) :
    Compile.ElaboratedInput :=
  ⟨⟨port, []⟩, some apiName, ⟨port, .concrete "INT", false, false, none⟩, filed, .static, false, none,
    false⟩

/-- A schema with an expression over one variable and an integer output. -/
def exprSchema : NodeSchema where
  mirror := some ("expression", 1)
  outputs := [⟨"int", none⟩]
  elaborate := fun node _ =>
    if node.type = "One" then [plainInput "expression" "expression" (by decide)]
    else [plainInput "expression" "expression" (by decide),
      plainInput "a" "values.a" (by decide)]

/-- A host that evaluates a constant and a variable. -/
def exprHost : Host where
  effectiveWidgetDefault := fun _ => none
  evaluateExpression := fun expression values =>
    if expression = "1" then .scalar (some 1) 1 true
    else
      match values.get expression with
      | some (.int value) => .scalar (some value) value (value ≠ 0)
      | _ => .error ("unknown expression name '" ++ expression ++ "'")
  resolveSchema := fun _ => some exprSchema

def exprNode (id type text : String) : NodeData :=
  ⟨id, type, false, ⟨[("expression", .str text)], by simp⟩, .active, [], none⟩

/-- A constant whose output drives the variable of another mirror. -/
def copied : GraphDef :=
  ⟨"g", [exprNode "one" "One" "1", exprNode "copy" "Copy" "a"],
    [⟨"l", .port ⟨"one", "int", []⟩, .port ⟨"copy", "a", []⟩⟩], [], [], [], [], none⟩

/-- Two mirrors that drive each other. -/
def circular : GraphDef :=
  { copied with
    nodes := [exprNode "one" "Copy" "a", exprNode "copy" "Copy" "a"]
    links := ⟨"k", .port ⟨"copy", "int", []⟩, .port ⟨"one", "a", []⟩⟩ :: copied.links }

/-- All mirrors enabled, no values of producers. -/
def allEnabled : Options := ⟨fun _ => true, fun _ _ => none⟩

theorem mirrorEstimates_least_copied :
    Least exprHost allEnabled copied (deriveMirrorEstimates exprHost allEnabled copied).get ∧
      (deriveMirrorEstimates exprHost allEnabled
        { copied with nodes := copied.nodes.reverse }).get "copy" =
          (deriveMirrorEstimates exprHost allEnabled copied).get "copy" ∧
      ((deriveMirrorEstimates exprHost allEnabled copied).get "copy").isSome = true ∧
      outputsOf (deriveMirrorEstimates exprHost allEnabled circular).get "one" "int" = none := by
  have first := mirrorEstimates_least exprHost allEnabled copied
  have second := mirrorEstimates_least exprHost allEnabled circular
  have loop : TransGen (AskedBy exprHost allEnabled circular) "one" "one" :=
    .tail (.single ⟨"int", by decide +kernel⟩ : TransGen _ "one" "copy") ⟨"int", by decide +kernel⟩
  exact ⟨first.1, first.2.1 _ (by decide +kernel) (reverse_perm _) "copy", by decide +kernel,
    second.2.2.1 "one" loop "int"⟩

def nullValue : Options := ⟨fun _ => true, fun _ _ => some .null⟩

/-- An approved value that is null does not take the place of an estimate. -/
theorem null_passed_over :
    ((deriveMirrorEstimates exprHost nullValue copied).get "copy").isSome = true ∧
      (estimateOf exprHost nullValue copied (fun node output =>
        (nullValue.producerValue node output).or
          (outputsOf (deriveMirrorEstimates exprHost nullValue copied).get node output))
        "copy").isSome = false := by
  decide +kernel

end Dinkster.Mirror
