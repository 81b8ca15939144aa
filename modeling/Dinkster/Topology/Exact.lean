import Dinkster.Topology.Effective

/-!
# Exact projections

A delivery of an occurrence crosses the boundary of an instance in it when one of its ends is
a port of that instance: a port of a node of that occurrence, which is the instance.  The end
is then replaced by what each binding of the addressed boundary item names inside.

The code takes any end for a port of the instance that names a node with the same id.  A
delivery that came from further outside may have an end in another graph, whose node ids are
its own.  The links it projects are exactly the crossings when no such end names the id of an
instance it passes.
-/

namespace Dinkster.Topology

open Format Compile List Option

section Crossings

variable (document : OccurrenceDocument) (env : TopologyEnvironment)

def innerEndpoint (owner : List String) (graph : GraphDef) (side : Side) (item : BoundaryItem)
    (address : PortAddress) : Binding × Nat → Option LinkEndpoint
  | (.port ref none, _) => some (.port ref)
  | (.port _ (some reroute), _) =>
    if side = .target ∧ graph.reroutes.contains reroute then some (.reroute reroute) else none
  | (.forward _ _, index) =>
    ((((env.crossing owner item.id).toOption.bind (·[index]?)).bind fun translate =>
      (translate address).toOption).map .port)
  | (.widgetTap node input, _) => if side = .source then some (.tap node input) else none
  | (.valueSource id _, _) =>
    if side = .source ∧ (graph.valueSource? id).isSome then some (.valueSource id) else none
  | (.unbound, _) => none

def crossedLegs (owner : List String) (graph : GraphDef) (side : Side) (ref : PortRef) :
    List (ResolvedEndpoint × RouteLeg) :=
  match addressedItem graph side ref with
  | none => []
  | some item => item.bindings.zipIdx.filterMap fun entry =>
    let leg : RouteLeg := ⟨graph.id, item.id, entry.1⟩
    (innerEndpoint env owner graph side item ref.address entry).map fun endpoint =>
      (⟨graph.id, owner, endpoint, .occurrence owner (.boundary owner ref.address [leg])⟩, leg)

/-- Whether the end of a delivery is a node of the occurrence around an instance. -/
def ResolvedEndpoint.within (endpoint : ResolvedEndpoint) (place : ResolvedOwner)
    (parent : List String) : Bool :=
  endpoint.graphId = place.parentGraph.id && endpoint.instancePath = parent

def crossSide (node : String) (parent : List String) (place : ResolvedOwner)
    (topology : Option OccurrenceTopology) (delivery : ProjectableLink) (side : Side) :
    List ProjectableLink :=
  match (delivery.link.ending side).endpoint with
  | .port ref =>
    if ref.node = node ∧ (delivery.link.ending side).within place parent then
      (crossedLegs env (node :: parent) place.bodyGraph side ref).filterMap
        (projectLeg topology delivery side)
    else []
  | _ => []

def crossings (node : String) (parent : List String) (place : ResolvedOwner)
    (topology : Option OccurrenceTopology) (delivery : ProjectableLink) : List ProjectableLink :=
  [Side.source, .target].flatMap (crossSide env node parent place topology delivery)

/-- The deliveries of an occurrence: its own, and those of the occurrence around it that cross
its boundary. -/
def deliveries : List String → List ProjectableLink
  | [] => ((document.graph? document.root).map rootDeliveries).getD []
  | node :: parent =>
    match document.resolveOwner (node :: parent) with
    | none => []
    | some place =>
      let topology := document.topology? (node :: parent)
      ownDeliveries document env (node :: parent) place topology ++
        ((deliveries parent).map (·.inherited)).flatMap
          (crossings env node parent place topology)

/-- The crossings into an occurrence of the deliveries of the occurrence around it. -/
def crossed (node : String) (parent : List String) (place : ResolvedOwner) : List EffectiveLink :=
  (((deliveries document env parent).map (·.inherited)).flatMap (crossings env node parent
    place (document.topology? (node :: parent)))).map (·.link)

def Exact : List String → Prop
  | [] => True
  | node :: parent => ∀ place, document.resolveOwner (node :: parent) = some place →
      (buildEffectiveOccurrenceTopology document env (node :: parent)).projectedParentLinks =
        crossed document env node parent place ∧
      ∀ plan, (planFlattenOccurrenceTopology document env (node :: parent)).1 = some plan →
        plan.projectedParentLinks =
          (crossed document env node parent place).map plannedParentLink

/-- No delivery of the occurrence around an instance has an end in another occurrence that
names the node id of the instance and would cross its boundary. -/
def Unmistaken : List String → Prop
  | [] => True
  | node :: parent => ∀ place, document.resolveOwner (node :: parent) = some place →
      ∀ delivery ∈ (deliveries document env parent).map (·.inherited), ∀ side ref,
        (delivery.link.ending side).endpoint = .port ref → ref.node = node →
          (delivery.link.ending side).within place parent = false →
            (crossedLegs env (node :: parent) place.bodyGraph side ref).filterMap
              (projectLeg (document.topology? (node :: parent)) delivery side) = []

def DistinctBoundaries : Prop :=
  ∀ graph ∈ document.graphs, ∀ side, ((boundaryItems graph side).map (·.id)).Nodup

end Crossings

section Parts

variable {Element Part : Type} {parts wholes : Element → List Part}

theorem flatMap_sublist (within : ∀ element, (parts element).Sublist (wholes element)) :
    ∀ elements : List Element, (elements.flatMap parts).Sublist (elements.flatMap wholes)
  | [] => .refl _
  | first :: rest => by
    rw [flatMap_cons, flatMap_cons]
    exact (within first).append (flatMap_sublist within rest)

theorem flatMap_eq_iff_of_sublist (within : ∀ element, (parts element).Sublist (wholes element)) :
    ∀ elements : List Element, elements.flatMap wholes = elements.flatMap parts ↔
      ∀ element ∈ elements, wholes element = parts element
  | [] => by simp
  | first :: rest => by
    have ih := flatMap_eq_iff_of_sublist within rest
    have later : (rest.flatMap parts).Sublist (rest.flatMap wholes) := flatMap_sublist within rest
    rw [flatMap_cons, flatMap_cons, forall_mem_cons, ← ih]
    constructor
    · intro same
      have lengths := congrArg List.length same
      rw [length_append, length_append] at lengths
      have front := (within first).length_le
      have back := later.length_le
      have equal : (parts first).length = (wholes first).length := by omega
      have front := (within first).eq_of_length equal
      have back := later.eq_of_length (by omega)
      exact ⟨front.symm, back.symm⟩
    · intro same
      rw [same.1, same.2]

end Parts

/-! ## Projection without errors -/

section Projection

variable {document : OccurrenceDocument} {env : TopologyEnvironment} {owner : List String}
  {place : ResolvedOwner} {side : Side} {item : BoundaryItem} {binding : Binding} {index : Nat}
  {address : PortAddress}

/-- The definition of an occurrence is in the document. -/
theorem bodyGraph_mem (resolved : document.resolveOwner owner = some place) :
    place.bodyGraph ∈ document.graphs := by
  cases owner with
  | nil => exact absurd resolved (by simp [OccurrenceDocument.resolveOwner])
  | cons hop parent =>
    unfold OccurrenceDocument.resolveOwner at resolved
    obtain ⟨graph, _, rest⟩ := bind_eq_some_iff.mp resolved
    obtain ⟨node, _, rest⟩ := bind_eq_some_iff.mp rest
    obtain ⟨bodyId, _, rest⟩ := bind_eq_some_iff.mp rest
    obtain ⟨body, found, same⟩ := bind_eq_some_iff.mp rest
    cases same
    exact mem_of_find?_eq_some found

theorem itemForRoute_of_addressed {graph : GraphDef} {ref : PortRef}
    (distinct : ((boundaryItems graph side).map (·.id)).Nodup)
    (addressed : addressedItem graph side ref = some item) :
    itemForRoute graph side item.id = some item := by
  unfold addressedItem at addressed
  split at addressed
  · rename_i found single
    rw [← some.inj addressed]
    have listed : found ∈ boundaryItems graph side := by
      have kept : found ∈ (boundaryItems graph side).filter (·.fits ref.address) := by
        rw [single]
        exact mem_singleton_self found
      exact (mem_filter.mp kept).1
    unfold itemForRoute
    cases looked : (boundaryItems graph side).find? (·.id = found.id) with
    | none =>
      have named := List.find?_eq_none.mp looked found listed
      simp at named
    | some other =>
      have same : other.id = found.id := by simpa using find?_some looked
      have equal := inj_on_of_nodup_map distinct (mem_of_find?_eq_some looked) listed same
      rw [equal]
  · simp at addressed

theorem matchingBindings_self (listed : (binding, index) ∈ item.bindings.zipIdx) :
    matchingBindings item binding = [(binding, index)] ∨
      1 < (matchingBindings item binding).length := by
  have kept : (binding, index) ∈ matchingBindings item binding := by
    unfold matchingBindings
    rw [mem_filter]
    exact ⟨listed, by simp⟩
  cases found : matchingBindings item binding with
  | nil =>
    rw [found] at kept
    exact absurd kept not_mem_nil
  | cons first rest =>
    cases rest with
    | nil =>
      rw [found] at kept
      rw [mem_singleton.mp kept]
      exact .inl rfl
    | cons second rest =>
      right
      rw [length_cons, length_cons]
      omega

def LegEnd.endpoint : LegEnd → LinkEndpoint
  | .ends endpoint => endpoint
  | .onward ref => .port ref

theorem legEnd_spec {graph : GraphDef} {leg : RouteLeg} (named : leg.binding = binding)
    (listed : (binding, index) ∈ item.bindings.zipIdx)
    (consumes : side = .target → ∀ id type, binding ≠ .valueSource id type) :
    (∃ sink, legEnd env side true owner graph item address leg = .error sink ∧
        hasErrors sink = true) ∨
      (legEnd env side true owner graph item address leg).toOption.map LegEnd.endpoint =
        innerEndpoint env owner graph side item address (binding, index) := by
  unfold legEnd
  rw [named]
  cases matchingBindings_self listed with
  | inr many =>
    left
    split
    · rename_i single
      rw [single] at many
      simp at many
    · rename_i single
      rw [single] at many
      simp at many
    · rename_i single
      rw [single] at many
      simp at many
    · rename_i single
      rw [single] at many
      simp at many
    · exact ⟨_, rfl, rfl⟩
  | inl single =>
    rw [single]
    cases binding with
    | valueSource id type =>
      cases side with
      | target => exact absurd rfl (consumes rfl id type)
      | source =>
        dsimp only
        split
        · rename_i ends
          right
          unfold innerEndpoint
          dsimp only
          rw [if_pos ⟨rfl, ends.2.2⟩]
          rfl
        · exact .inl ⟨_, rfl, rfl⟩
    | widgetTap node input =>
      dsimp only
      split
      · rename_i ends
        right
        unfold innerEndpoint
        dsimp only
        rw [if_pos ends.1]
        rfl
      · exact .inl ⟨_, rfl, rfl⟩
    | unbound => exact .inr rfl
    | port ref viaReroute =>
      cases viaReroute with
      | none => exact .inr rfl
      | some reroute =>
        dsimp only
        split
        · rename_i ends
          right
          unfold innerEndpoint
          dsimp only
          rw [if_pos ⟨ends.1, ends.2.2⟩]
          rfl
        · exact .inl ⟨_, rfl, rfl⟩
    | forward kind ref =>
      unfold innerPort innerEndpoint
      dsimp only
      cases env.crossing owner item.id with
      | error refusal => exact .inl ⟨_, rfl, rfl⟩
      | ok targets =>
        dsimp only
        cases found : targets[index]? with
        | none => exact .inl ⟨_, rfl, rfl⟩
        | some translate =>
          dsimp only
          cases translated : translate address with
          | error refusal => exact .inl ⟨_, rfl, rfl⟩
          | ok inner =>
            right
            dsimp only [Except.toOption, bind_some]
            rw [found, bind_some, translated]
            rfl

theorem walkRoute_single {leg : RouteLeg} (resolved : document.resolveOwner owner = some place)
    (inBody : leg.graph = place.bodyGraph.id)
    (found : itemForRoute place.bodyGraph side leg.boundaryId = some item) :
    walkRoute document env side [leg] owner address none =
      (legEnd env side true owner place.bodyGraph item address leg).map fun leads =>
        some ⟨place.bodyGraph.id, owner, leads.endpoint⟩ := by
  unfold walkRoute
  rw [resolved]
  dsimp only
  rw [if_neg (not_not.mpr inBody.symm), found]
  dsimp only [isEmpty_nil]
  cases legEnd env side true owner place.bodyGraph item address leg with
  | error sink => rfl
  | ok leads => cases leads <;> rfl

def Reported (resolution : Option (Resolution (ResolvedEndpoint × RouteLeg)))
    (named : Option (ResolvedEndpoint × RouteLeg)) : Prop :=
  (∃ sink, resolution = some (.error sink) ∧ hasErrors sink = true) ∨
    resolution.bind Except.toOption = named

theorem projectedEndpoint_spec {ref : PortRef} (resolved : document.resolveOwner owner = some place)
    (found : itemForRoute place.bodyGraph side item.id = some item)
    (listed : (binding, index) ∈ item.bindings.zipIdx) :
    Reported (projectedEndpoint document env owner place ref side item binding)
      ((innerEndpoint env owner place.bodyGraph side item ref.address (binding, index)).map
        fun endpoint =>
          let leg : RouteLeg := ⟨place.bodyGraph.id, item.id, binding⟩
          (⟨place.bodyGraph.id, owner, endpoint,
            .occurrence owner (.boundary owner ref.address [leg])⟩, leg)) := by
  have projects : (∃ id type, side = .target ∧ binding = .valueSource id type) ∨
      projectedEndpoint document env owner place ref side item binding =
        some ((resolveOccurrenceEndpoint document env owner place
          (.boundary owner ref.address [⟨place.bodyGraph.id, item.id, binding⟩]) side).map
            fun endpoint => (endpoint, ⟨place.bodyGraph.id, item.id, binding⟩)) := by
    unfold projectedEndpoint
    split
    · exact .inl ⟨_, _, rfl, rfl⟩
    · exact .inr rfl
  cases projects with
  | inl literal =>
    obtain ⟨id, type, target, same⟩ := literal
    rw [target, same]
    exact .inr rfl
  | inr taken =>
    by_cases literal : ∃ id type, side = .target ∧ binding = .valueSource id type
    · obtain ⟨id, type, target, same⟩ := literal
      rw [target, same]
      exact .inr rfl
    · have walks := @walkRoute_single document env owner place side item ref.address
        ⟨place.bodyGraph.id, item.id, binding⟩ resolved rfl found
      have resolves : resolveOccurrenceEndpoint document env owner place
          (.boundary owner ref.address [⟨place.bodyGraph.id, item.id, binding⟩]) side =
            (legEnd env side true owner place.bodyGraph item ref.address
              ⟨place.bodyGraph.id, item.id, binding⟩).map fun leads =>
                ⟨place.bodyGraph.id, owner, leads.endpoint, .occurrence owner
                  (.boundary owner ref.address [⟨place.bodyGraph.id, item.id, binding⟩])⟩ := by
        unfold resolveOccurrenceEndpoint
        have inside : (!owner.isSuffixOf owner) = false := by
          rw [isSuffixOf_iff_suffix.mpr (suffix_refl owner)]
          rfl
        dsimp only
        rw [inside, if_neg Bool.false_ne_true, walks]
        cases legEnd env side true owner place.bodyGraph item ref.address
          ⟨place.bodyGraph.id, item.id, binding⟩ with
        | error sink => rfl
        | ok leads =>
          change (if place.bodyGraph.id = place.bodyGraph.id then _ else _) = _
          rw [if_pos rfl]
          rfl
      rw [taken, resolves]
      have spec := @legEnd_spec env owner side item binding index ref.address place.bodyGraph
        ⟨place.bodyGraph.id, item.id, binding⟩ rfl listed (by
          intro target id type same
          exact literal ⟨id, type, target, same⟩)
      cases spec with
      | inl refused =>
        obtain ⟨sink, fails, errors⟩ := refused
        left
        rw [fails]
        exact ⟨sink, rfl, errors⟩
      | inr leads =>
        right
        rw [← leads]
        cases legEnd env side true owner place.bodyGraph item ref.address
          ⟨place.bodyGraph.id, item.id, binding⟩ <;> rfl

theorem crossedLegs_of_clean {ref : PortRef} (resolved : document.resolveOwner owner = some place)
    (distinct : DistinctBoundaries document)
    (clean : ∀ sink, .error sink ∈ projectedEndpoints document env owner place ref side →
      hasErrors sink = false) :
    (projectedEndpoints document env owner place ref side).filterMap Except.toOption =
      crossedLegs env owner place.bodyGraph side ref := by
  unfold projectedEndpoints at clean ⊢
  unfold crossedLegs
  cases addressed : addressedItem place.bodyGraph side ref with
  | none => rfl
  | some item =>
    rw [addressed] at clean
    have found := itemForRoute_of_addressed
      (distinct place.bodyGraph (bodyGraph_mem resolved) side) addressed
    dsimp only at clean ⊢
    have listed : item.bindings = item.bindings.zipIdx.map Prod.fst :=
      (zipIdx_map_fst 0 item.bindings).symm
    rw [filterMap_filterMap]
    conv_lhs => rw [listed, filterMap_map]
    apply filterMap_congr
    intro entry member
    have spec := @projectedEndpoint_spec document env owner place side item entry.1 entry.2 ref
      resolved found member
    cases spec with
    | inl refused =>
      obtain ⟨sink, reports, errors⟩ := refused
      have quiet := clean sink (by
        rw [mem_filterMap]
        refine ⟨entry.1, ?_, reports⟩
        rw [listed]
        exact List.mem_map_of_mem member)
      rw [quiet] at errors
      exact absurd errors Bool.false_ne_true
    | inr named => exact named

variable {node : String} {parent : List String} {delivery : ProjectableLink}

def looseSide (env : TopologyEnvironment) (node : String) (parent : List String)
    (place : ResolvedOwner) (topology : Option OccurrenceTopology) (delivery : ProjectableLink)
    (side : Side) : List ProjectableLink :=
  match (delivery.link.ending side).endpoint with
  | .port ref =>
    if ref.node = node then
      (crossedLegs env (node :: parent) place.bodyGraph side ref).filterMap
        (projectLeg topology delivery side)
    else []
  | _ => []

variable (topology : Option OccurrenceTopology)

theorem crossSide_sublist (side : Side) :
    (crossSide env node parent place topology delivery side).Sublist
      (looseSide env node parent place topology delivery side) := by
  unfold crossSide looseSide
  split
  · split
    · rename_i both
      rw [if_pos both.1]
    · exact nil_sublist _
  · exact .refl _

theorem looseSide_eq_iff (side : Side) : looseSide env node parent place topology delivery side =
        crossSide env node parent place topology delivery side ↔
      ∀ ref, (delivery.link.ending side).endpoint = .port ref → ref.node = node →
        (delivery.link.ending side).within place parent = false →
          (crossedLegs env (node :: parent) place.bodyGraph side ref).filterMap
            (projectLeg topology delivery side) = [] := by
  unfold crossSide looseSide
  constructor
  · intro same ref isPort named outside
    rw [isPort] at same
    dsimp only at same
    rw [if_pos named, if_neg (by rw [outside]; simp)] at same
    exact same
  · intro quiet
    split
    · rename_i ref isPort
      by_cases named : ref.node = node
      · rw [if_pos named]
        cases inside : (delivery.link.ending side).within place parent with
        | true => rw [if_pos ⟨named, rfl⟩]
        | false =>
          rw [if_neg (by simp)]
          exact quiet ref isPort named inside
      · rw [if_neg named, if_neg (fun both => named both.1)]
    · rfl

theorem crossings_sublist : (crossings env node parent place topology delivery).Sublist
      ([Side.source, .target].flatMap (looseSide env node parent place topology delivery)) :=
  flatMap_sublist (crossSide_sublist topology) _

theorem project_of_clean {topology : Option OccurrenceTopology}
    (resolved : document.resolveOwner (node :: parent) = some place)
    (distinct : DistinctBoundaries document)
    (clean : hasErrors (projectSink document env node parent place delivery) = false) :
    project document env node parent place topology delivery =
      [Side.source, .target].flatMap (looseSide env node parent place topology delivery) := by
  unfold project
  congr 1
  funext side
  have quiet : ∀ sink, .error sink ∈ projectSide document env node parent place side delivery →
      hasErrors sink = false := by
    intro sink reported
    unfold hasErrors at clean ⊢
    rw [List.any_eq_false] at clean ⊢
    intro diagnostic listed
    apply clean diagnostic
    unfold projectSink
    rw [mem_flatMap]
    refine ⟨side, by cases side <;> simp, ?_⟩
    rw [mem_flatMap]
    exact ⟨.error sink, reported, listed⟩
  unfold projectSide at quiet ⊢
  unfold looseSide
  cases isPort : (delivery.link.ending side).endpoint with
  | port ref =>
    rw [isPort] at quiet
    dsimp only at quiet ⊢
    by_cases named : ref.node = node
    · rw [if_pos named] at quiet ⊢
      rw [if_pos named, ← crossedLegs_of_clean resolved distinct quiet]
    · rw [if_neg named, if_neg named]
      rfl
  | reroute | valueSource | selector | tap => rfl

end Projection

/-! ## Exactness -/

section Exactness

variable {document : OccurrenceDocument} {env : TopologyEnvironment}

def builtAround (document : OccurrenceDocument) (env : TopologyEnvironment) :
    List String → ResolvedOwner → List ProjectableLink
  | [], place => rootDeliveries place.parentGraph
  | hop :: above, _ =>
    (buildEffectiveOccurrenceTopology document env (hop :: above)).projectable.map (·.inherited)

def reportedAround (document : OccurrenceDocument) (env : TopologyEnvironment) :
    List String → List Diagnostic
  | [] => []
  | hop :: above => (buildEffectiveOccurrenceTopology document env (hop :: above)).diagnostics

structure Built (document : OccurrenceDocument) (env : TopologyEnvironment) (node : String)
    (parent : List String) (place : ResolvedOwner) : Prop where
  resolved : document.resolveOwner (node :: parent) = some place
  builds : buildEffectiveOccurrenceTopology document env (node :: parent) =
    assembleTopology document env node parent place (builtAround document env parent place)
      (reportedAround document env parent)
  clean : ∀ delivery ∈ builtAround document env parent place,
    hasErrors (projectSink document env node parent place delivery) = false
  around : hasErrors (reportedAround document env parent) = false

theorem hasErrors_refused (bodyGraph : Option GraphDef) (code message : String) :
    hasErrors (EffectiveTopology.refused bodyGraph (Compile.failure code message none)).diagnostics =
      true := rfl

theorem build_eq {node : String} {parent : List String} {place : ResolvedOwner}
    (resolved : document.resolveOwner (node :: parent) = some place)
    (recorded : ¬ (document.topology? (node :: parent)).any (·.bodyGraph ≠ place.bodyGraph.id)) :
    buildEffectiveOccurrenceTopology document env (node :: parent) =
      assembleTopology document env node parent place (builtAround document env parent place)
        (reportedAround document env parent) := by
  cases parent with
  | nil | cons hop above =>
    rw [buildEffectiveOccurrenceTopology]
    dsimp only
    rw [resolved]
    dsimp only
    rw [if_neg recorded]
    rfl

variable {node : String} {parent : List String}

variable {place : ResolvedOwner} {property : List String → Prop}

theorem clean_of_assembled {around : List ProjectableLink} {sink : List Diagnostic}
    (clean : hasErrors (assembleTopology document env node parent place around sink).diagnostics =
      false) : hasErrors sink = false ∧ ∀ delivery ∈ around,
      hasErrors (projectSink document env node parent place delivery) = false := by
  unfold assembleTopology hasErrors at clean
  rw [any_append, any_append, any_append, any_append] at clean
  rw [Bool.or_eq_false_iff, Bool.or_eq_false_iff, Bool.or_eq_false_iff,
    Bool.or_eq_false_iff] at clean
  refine ⟨clean.1.1.1.2, ?_⟩
  intro delivery listed
  have projected := clean.1.1.2
  unfold hasErrors
  rw [List.any_eq_false] at projected ⊢
  intro diagnostic reported
  exact projected diagnostic (mem_flatMap.mpr ⟨delivery, listed, reported⟩)

theorem built_of_clean
    (clean : hasErrors (buildEffectiveOccurrenceTopology document env (node :: parent)).diagnostics =
      false) : ∃ place, Built document env node parent place := by
  cases resolved : document.resolveOwner (node :: parent) with
  | none =>
    unfold buildEffectiveOccurrenceTopology at clean
    dsimp only at clean
    rw [resolved] at clean
    rw [hasErrors_refused] at clean
    contradiction
  | some place =>
    by_cases recorded : (document.topology? (node :: parent)).any
        (·.bodyGraph ≠ place.bodyGraph.id)
    · unfold buildEffectiveOccurrenceTopology at clean
      dsimp only at clean
      rw [resolved] at clean
      dsimp only at clean
      rw [if_pos recorded, hasErrors_refused] at clean
      contradiction
    · have builds := @build_eq document env node parent place resolved recorded
      rw [builds] at clean
      have parts := clean_of_assembled clean
      exact ⟨place, resolved, builds, parts.2, parts.1⟩

theorem inherited_rootDeliveries (graph : GraphDef) :
    (rootDeliveries graph).map (·.inherited) = rootDeliveries graph := by
  unfold rootDeliveries
  rw [map_append, List.map_map, map_flatMap]
  congr 1
  apply flatMap_congr
  intro net _
  rw [List.map_map]
  rfl

theorem builtAround_eq (resolved : document.resolveOwner (node :: parent) = some place)
    (around : parent ≠ [] → (buildEffectiveOccurrenceTopology document env parent).projectable =
      deliveries document env parent) : builtAround document env parent place =
      (deliveries document env parent).map (·.inherited) := by
  cases parent with
  | nil =>
    unfold OccurrenceDocument.resolveOwner at resolved
    obtain ⟨graph, root, rest⟩ := bind_eq_some_iff.mp resolved
    obtain ⟨_, _, rest⟩ := bind_eq_some_iff.mp rest
    obtain ⟨_, _, rest⟩ := bind_eq_some_iff.mp rest
    obtain ⟨_, _, same⟩ := bind_eq_some_iff.mp rest
    cases same
    have found : document.graph? document.root = some graph := root
    unfold builtAround deliveries
    rw [found]
    exact (inherited_rootDeliveries graph).symm
  | cons hop above =>
    rw [builtAround, around (cons_ne_nil hop above)]

theorem planned_projectedParentLinks {owner : List String} {plan : FlattenPlan}
    (planned : (planFlattenOccurrenceTopology document env owner).1 = some plan) :
    plan.projectedParentLinks =
      (buildEffectiveOccurrenceTopology document env owner).projectedParentLinks.map
        plannedParentLink := by
  unfold planFlattenOccurrenceTopology at planned
  dsimp only at planned
  split at planned
  · simp at planned
  · split at planned
    · simp at planned
    · rw [← some.inj planned]

theorem exact_iff_unmistaken (distinct : DistinctBoundaries document)
    (built : Built document env node parent place)
    (around : parent ≠ [] → (buildEffectiveOccurrenceTopology document env parent).projectable =
      deliveries document env parent) :
    (Exact document env (node :: parent) ↔ Unmistaken document env (node :: parent)) ∧
      (Unmistaken document env (node :: parent) →
        (buildEffectiveOccurrenceTopology document env (node :: parent)).projectable =
          deliveries document env (node :: parent)) := by
  have builds := built.builds
  have same := builtAround_eq built.resolved around
  have clean := built.clean
  rw [same] at builds clean
  have only : ∀ other, document.resolveOwner (node :: parent) = some other → other = place := by
    intro other resolves
    exact some.inj (resolves.symm.trans built.resolved)
  let inside := (deliveries document env parent).map (·.inherited)
  let topology := document.topology? (node :: parent)
  have projects : inside.flatMap (project document env node parent place topology) =
      inside.flatMap fun delivery =>
        [Side.source, .target].flatMap (looseSide env node parent place topology delivery) := by
    apply flatMap_congr
    intro delivery listed
    exact project_of_clean built.resolved distinct (clean delivery listed)
  have wholes : inside.flatMap (fun delivery =>
        [Side.source, .target].flatMap (looseSide env node parent place topology delivery)) =
      inside.flatMap (crossings env node parent place topology) ↔
        Unmistaken document env (node :: parent) := by
    rw [flatMap_eq_iff_of_sublist (fun _ => crossings_sublist topology)]
    constructor
    · intro each other resolves delivery listed side
      rw [only other resolves]
      have sides := (flatMap_eq_iff_of_sublist (crossSide_sublist topology) _).mp
        (each delivery listed)
      exact (looseSide_eq_iff topology side).mp (sides side (by cases side <;> simp))
    · intro unmistaken delivery listed
      apply (flatMap_eq_iff_of_sublist (crossSide_sublist topology) _).mpr
      intro side _
      exact (looseSide_eq_iff topology side).mpr
        (unmistaken place built.resolved delivery listed side)
  constructor
  · rw [← wholes]
    constructor
    · intro exact_
      have links := (exact_ place built.resolved).1
      rw [builds] at links
      have lengths := congrArg List.length links
      change ((inside.flatMap (project document env node parent place topology)).map _).length =
        ((inside.flatMap (crossings env node parent place topology)).map _).length at lengths
      rw [length_map, length_map, projects] at lengths
      have within := flatMap_sublist (fun delivery =>
        @crossings_sublist env place node parent delivery topology) inside
      exact (within.eq_of_length lengths.symm).symm
    · intro equal other resolves
      rw [only other resolves]
      have links : (buildEffectiveOccurrenceTopology document env
          (node :: parent)).projectedParentLinks = crossed document env node parent place := by
        rw [builds]
        change (inside.flatMap (project document env node parent place topology)).map _ = _
        rw [projects, equal]
        rfl
      constructor
      · exact links
      · intro plan planned
        rw [← links]
        exact planned_projectedParentLinks planned
  · intro unmistaken
    rw [builds]
    change ownDeliveries document env (node :: parent) place topology ++
      inside.flatMap (project document env node parent place topology) = _
    rw [projects, wholes.mpr unmistaken]
    unfold deliveries
    rw [built.resolved]

/-- What holds of an occurrence and of every occurrence around it. -/
theorem forall_suffix_cons : (∀ owner, owner <:+ node :: parent → property owner) ↔
      property (node :: parent) ∧ ∀ owner, owner <:+ parent → property owner := by
  constructor
  · intro every
    constructor
    · exact every _ (suffix_refl _)
    · intro owner inside
      exact every owner (inside.trans (suffix_cons node parent))
  · intro both owner inside
    cases List.suffix_cons_iff.mp inside with
    | inl here =>
      rw [here]
      exact both.1
    | inr later => exact both.2 owner later

theorem forall_suffix_nil (holds : property []) : ∀ owner, owner <:+ [] → property owner := by
  intro owner inside
  rw [List.suffix_nil.mp inside]
  exact holds

theorem exact_around (distinct : DistinctBoundaries document) :
    ∀ path, hasErrors (reportedAround document env path) = false →
      ((∀ owner, owner <:+ path → Exact document env owner) ↔
        ∀ owner, owner <:+ path → Unmistaken document env owner) ∧
      ((∀ owner, owner <:+ path → Unmistaken document env owner) → path ≠ [] →
        (buildEffectiveOccurrenceTopology document env path).projectable =
          deliveries document env path) := by
  intro path clean
  induction path with
  | nil =>
    constructor
    · constructor
      all_goals
        intro _
        exact forall_suffix_nil trivial
    · intro _ some
      exact absurd rfl some
  | cons node parent ih =>
    obtain ⟨place, built⟩ := built_of_clean clean
    have above := ih built.around
    rw [forall_suffix_cons, forall_suffix_cons]
    constructor
    · constructor
      · intro exacts
        have unmistaken := above.1.mp exacts.2
        have here := exact_iff_unmistaken distinct built (above.2 unmistaken)
        exact ⟨here.1.mp exacts.1, unmistaken⟩
      · intro unmistaken
        have here := exact_iff_unmistaken distinct built (above.2 unmistaken.2)
        exact ⟨here.1.mpr unmistaken.1, above.1.mpr unmistaken.2⟩
    · intro unmistaken _
      have here := exact_iff_unmistaken distinct built (above.2 unmistaken.2)
      exact here.2 unmistaken.1

/-- Where nothing is reported as an error, the projected links of an occurrence and of every
occurrence around it are exact if and only if no end of a delivery is mistaken for a port of
one of them. -/
theorem exact_iff {path : List String} (distinct : DistinctBoundaries document)
    (clean : hasErrors (buildEffectiveOccurrenceTopology document env path).diagnostics = false) :
    (∀ owner, owner <:+ path → Exact document env owner) ↔
      ∀ owner, owner <:+ path → Unmistaken document env owner := by
  cases path with
  | nil => exact (exact_around distinct [] rfl).1
  | cons node parent => exact (exact_around distinct (node :: parent) clean).1

theorem length_of_exact (isExact : Exact document env (node :: parent)) :
    (document.resolveOwner (node :: parent)).all (fun place =>
      (buildEffectiveOccurrenceTopology document env (node :: parent)).projectedParentLinks.length =
        (crossed document env node parent place).length) := by
  rw [Option.all_eq_true]
  intro place resolved
  rw [(isExact place resolved).1, decide_eq_true rfl]

instance : Decidable (DistinctBoundaries document) :=
  decidable_of_iff (∀ graph ∈ document.graphs,
      ((boundaryItems graph .source).map (·.id)).Nodup ∧
        ((boundaryItems graph .target).map (·.id)).Nodup) (by
    unfold DistinctBoundaries
    constructor
    · intro both graph listed side
      cases side with
      | source => exact (both graph listed).1
      | target => exact (both graph listed).2
    · intro every graph listed
      exact ⟨every graph listed .source, every graph listed .target⟩)

end Exactness

def plainNode (id type : String) : NodeData :=
  ⟨id, type, false, ⟨[], nodup_nil⟩, .active, [], none⟩

/-- A loader of the root feeds a node inside an instance `blur`, in whose definition an
instance of another definition is named as it is here. -/
def loaderDocument (inner : String) : OccurrenceDocument where
  root := "root"
  graphs := [
    { id := "root", nodes := [plainNode "n1" "LoadImage", plainNode "blur" "#blurring"],
      links := [⟨"l1", .port ⟨"n1", "image", []⟩, .port ⟨"blur", "image", []⟩⟩],
      nets := [], reroutes := [], selectors := [], valueSources := [], boundary := none },
    { id := "blurring", nodes := [plainNode "soften" "Blur", plainNode inner "#masking"],
      links := [], nets := [], reroutes := [], selectors := [], valueSources := [],
      boundary := some ([⟨"image", .port ⟨"soften", "image", []⟩ none, [], false⟩], []) },
    { id := "masking", nodes := [plainNode "mask" "Mask"],
      links := [], nets := [], reroutes := [], selectors := [], valueSources := [],
      boundary := some ([], [⟨"image", .port ⟨"mask", "image", []⟩ none, [], false⟩]) }]
  occurrenceTopologies := none

/-- An environment without forwarded families that reports nothing. -/
def quietEnvironment : TopologyEnvironment :=
  ⟨fun _ _ => .error ⟨"", "no family"⟩, fun _ _ _ => []⟩

/-- Where each node id names one node only, the inner instance is exact if and only if no end
is mistaken for a port of it. -/
theorem exact_iff_of_distinct_ids :
    (∀ owner, owner <:+ ["n2", "blur"] → Exact (loaderDocument "n2") quietEnvironment owner) ↔
      ∀ owner, owner <:+ ["n2", "blur"] → Unmistaken (loaderDocument "n2") quietEnvironment owner :=
  exact_iff (by decide +kernel) (by decide +kernel)

/-- Where the inner instance is named as the loader of the root is, nothing is reported, and a
link from inside the instance to the blur is projected that nothing delivers. -/
theorem shared_id_projects_phantom : DistinctBoundaries (loaderDocument "n1") ∧
      hasErrors (buildEffectiveOccurrenceTopology (loaderDocument "n1") quietEnvironment
        ["n1", "blur"]).diagnostics = false ∧
      ¬ Exact (loaderDocument "n1") quietEnvironment ["n1", "blur"] := by
  refine ⟨by decide +kernel, by decide +kernel, ?_⟩
  intro isExact
  exact absurd (length_of_exact isExact) (by decide +kernel)

end Dinkster.Topology
