import Dinkster.Compile.Partial

/-!
# Previews

A preview lowers the same document with one candidate of every random selector and records
beside it, for each input a connection ends at, the producers of all candidates.  A
producer that a compile delivers by a link is among those the preview records, whichever
candidate is chosen.  The closure of the preview reads the record only at the inputs that
its own candidate staged, and takes no record of the arrays that literals hold.
-/

namespace Dinkster.Compile

open Format Library List Option

namespace Host

variable {host : Host} {mode preview : Mode}

theorem mem_of_resolveSelector {defId candidate : String} {selector : SelectorData}
    (chosen : (host.resolveSelector mode defId selector).1 = some candidate) :
    candidate ∈ selector.candidates := by
  unfold resolveSelector at chosen
  split at chosen
  · split at chosen
    · rename_i listed
      cases chosen
      exact listed
    · simp at chosen
  · split at chosen
    · split at chosen
      · rename_i listed
        cases chosen
        exact listed
      · simp at chosen
    · split at chosen
      · simp at chosen
      · rename_i first rest nonempty _
        split at chosen
        · rw [← some.inj chosen, nonempty]
          exact mem_cons_self
        · simp at chosen
      · exact mem_of_getElem? chosen

theorem resolveSelector_fixed {defId candidate : String} {selector : SelectorData}
    (fixed : selector.policy = .fixed candidate) :
    host.resolveSelector mode defId selector = host.resolveSelector preview defId selector := by
  unfold resolveSelector
  rw [fixed]

theorem mem_choicesOf {defId selector chosen : String} {candidate : Option String}
    {definition : GraphDef} {staging staged : Staging}
    (defined : host.doc.graph? defId = some definition)
    (follows : chosen ∈ choicesOf (host.tables mode staging) .exact definition selector candidate) :
    chosen ∈ choicesOf (host.tables preview staged) .wouldRun definition selector candidate := by
  cases candidate with
  | some candidate => exact follows
  | none =>
    have named : definition.id = defId := by simpa using find?_some defined
    have known : (host.tables mode staging).selection definition.id selector = some chosen :=
      mem_toList.mp follows
    change ((host.doc.graph? definition.id).bind (·.selector? selector)).bind _ = _ at known
    rw [named, defined, bind_some, bind_eq_some_iff] at known
    obtain ⟨data, found, resolved⟩ := known
    have listed := mem_of_resolveSelector resolved
    unfold choicesOf
    rw [found]
    dsimp only
    split
    · rename_i fixed again policy selected
      change ((host.doc.graph? definition.id).bind (·.selector? selector)).bind _ = _ at selected
      rw [named, defined, bind_some, found, bind_some,
        ← @resolveSelector_fixed host mode _ _ _ _ policy, resolved] at selected
      rw [some.inj selected]
      exact mem_singleton_self _
    · exact listed

/-! ## Routes -/

def Onward : RoutedStep RouteVertex RouteTerminal → Prop
  | .recurse _ => True
  | .terminal (.output _) => True
  | .terminal _ => False

section Simulation

variable {staging staged : Staging} {step : RoutedStep RouteVertex RouteTerminal}

theorem not_onward_deadEnd {sink : List Diagnostic}
    (taken : step ∈ (@deadEnd BypassHop sink).steps) : ¬ Onward step := by
  rw [mem_singleton.mp taken]
  exact id

theorem routeReroute_steps (path : List String) (defId id : String) :
    (host.routeReroute .exact path defId id).steps =
      (host.routeReroute .wouldRun path defId id).steps := by
  unfold routeReroute
  split
  · rfl
  · split <;> rfl

variable {defId : String} {path : List String} {consumerType : Option TypeExpr}
    {delivery : Option Delivery} {ref : PortRef}

variable {definition : GraphDef} {typeId : Option String} {start : RouteVertex}
    {terminal : RouteTerminal} {connection : TopologyConnection} {output : ResolvedOutput}
    {projection : RouteProjection} {tables : RouteTables}

/-- A selector is followed to every candidate a compile may choose. -/
theorem onward_routeSelector {selector : String} {candidate : Option String}
    (defined : host.doc.graph? defId = some definition)
    (taken : step ∈ (host.routeSelector (host.tables mode staging) .exact path definition
      selector candidate).steps) (onward : Onward step) :
    step ∈ (host.routeSelector (host.tables preview staged) .wouldRun path definition selector
      candidate).steps := by
  unfold routeSelector at taken ⊢
  dsimp only at taken ⊢
  split at taken
  · exact absurd onward (not_onward_deadEnd taken)
  · obtain ⟨chosen, follows, same⟩ := List.mem_map.mp taken
    have covered := @mem_choicesOf host mode preview _ _ _ _ _ _ staged defined follows
    rw [if_neg (by
      intro none
      rw [List.isEmpty_iff] at none
      rw [none] at covered
      exact absurd covered not_mem_nil)]
    exact mem_map.mpr ⟨chosen, covered, same⟩

/-- The driver of a tapped input does not depend on the candidates. -/
theorem onward_routeTap {node input : String}
    (taken : step ∈ (host.routeTap (host.tables mode staging) .exact path defId node input).steps)
    (onward : Onward step) :
    step ∈ (host.routeTap (host.tables preview staged) .wouldRun path defId node input).steps := by
  unfold routeTap at taken ⊢
  cases driven : driverIn (host.topologyFor path defId) (.port ⟨node, input, []⟩) with
  | some source =>
    rw [driven] at taken
    exact taken
  | none =>
    rw [driven] at taken
    dsimp only at taken
    exfalso
    split at taken
    · rw [mem_singleton.mp taken] at onward
      exact onward
    · exact not_onward_deadEnd taken onward
    · rw [mem_singleton.mp taken] at onward
      exact onward

/-- Neither does the driver of a promoted value source. -/
theorem onward_routeValueSource {id : String}
    (taken : step ∈ (host.routeValueSource (host.tables mode staging) .exact path definition id
      typeId).steps) (onward : Onward step) :
    step ∈ (host.routeValueSource (host.tables preview staged) .wouldRun path definition id
      typeId).steps := by
  have same : host.promotedDriver (host.tables preview staged) path definition id =
      host.promotedDriver (host.tables mode staging) path definition id := rfl
  unfold routeValueSource at taken ⊢
  rw [same]
  cases driven : host.promotedDriver (host.tables mode staging) path definition id with
  | some driver =>
    rw [driven] at taken
    exact taken
  | none =>
    rw [driven] at taken
    dsimp only at taken
    exfalso
    split at taken
    · exact not_onward_deadEnd taken onward
    · rw [mem_singleton.mp taken] at onward
      exact onward

variable {vertex : RouteVertex}

theorem onward_routeVertex
    (taken : step ∈ (host.routeVertex (host.tables mode staging) .exact consumerType delivery
      vertex).steps) (onward : Onward step) :
    step ∈ (host.routeVertex (host.tables preview staged) .wouldRun consumerType delivery
      vertex).steps := by
  cases vertex with
  | bypass path defId ref =>
    have same : (host.tables preview staged).contexts = (host.tables mode staging).contexts := rfl
    unfold routeVertex at taken ⊢
    dsimp only at taken ⊢
    rw [same]
    cases hop : host.selectBypassHop (host.tables mode staging).contexts path defId ref
        consumerType with
    | some hop =>
      rw [hop] at taken
      exact taken
    | none =>
      rw [hop] at taken
      exact absurd onward (not_onward_deadEnd taken)
  | endpoint path defId endpoint typeId =>
    unfold routeVertex at taken ⊢
    dsimp only at taken ⊢
    cases defined : host.doc.graph? defId with
    | none =>
      rw [defined] at taken
      exact absurd onward (not_onward_deadEnd taken)
    | some definition =>
      rw [defined] at taken
      cases endpoint with
      | reroute id =>
        have moved := taken
        dsimp only at moved ⊢
        rw [routeReroute_steps] at moved
        exact moved
      | selector selector candidate => exact onward_routeSelector defined taken onward
      | tap node input => exact onward_routeTap taken onward
      | valueSource id => exact onward_routeValueSource taken onward
      | port ref => exact taken

theorem leads_of_projectRoute {consumerType : Option TypeExpr} {delivery : Option Delivery}
    {start : RouteVertex} {output : ResolvedOutput}
    (routed : .output output ∈ (host.projectRoute (host.tables mode staging) .exact consumerType
      delivery start).1) :
    ∃ length ≤ host.depth, Leads (host.routeAdapter (host.tables preview staged) .wouldRun
      consumerType delivery) (.output output) [] start length := by
  unfold projectRoute at routed
  dsimp only at routed
  rw [if_pos rfl] at routed
  cases leads_of_mem_traverse routed with
  | inl cycled =>
    obtain ⟨vertex, cycled⟩ := cycled
    exact absurd (mem_singleton.mp cycled) (by simp)
  | inr path =>
    obtain ⟨length, bounded, leads⟩ := path
    refine ⟨length, bounded, ?_⟩
    apply leads.simulate
    · intro vertex
      rfl
    · intro vertex next taken
      exact onward_routeVertex taken trivial
    · intro vertex taken
      exact onward_routeVertex taken trivial

theorem mem_projectRoute_of_leads {length : Nat} (bounded : length ≤ host.depth + 1)
    (leads : Leads (host.routeAdapter (host.tables preview staged) .wouldRun consumerType
      delivery) terminal [] start length) :
    terminal ∈ (host.projectRoute (host.tables preview staged) .wouldRun consumerType delivery
      start).1 := by
  unfold projectRoute
  dsimp only
  rw [if_neg (by decide)]
  exact leads.mem_traverse bounded

/-! ## Connections -/

theorem defined_of_resolveOutputPort {openRegion : Option String} {route : List RouteLeg} :
    ∀ {fuel : Nat}, (host.resolveOutputPort delivery openRegion fuel path defId ref route).1 ≠
      .missing → ∃ definition, host.doc.graph? defId = some definition
  | 0, resolved => absurd rfl resolved
  | fuel + 1, resolved => by
    unfold resolveOutputPort at resolved
    split at resolved
    · exact absurd rfl resolved
    · cases defined : host.doc.graph? defId with
      | some definition => exact ⟨definition, rfl⟩
      | none =>
        have missing : host.node? defId ref.node = none := by
          unfold node?
          rw [defined]
          rfl
        rw [missing] at resolved
        exact absurd rfl resolved

theorem connectionSource_output
    (source : (host.connectionSource path defId connection).1 = .output output) :
    ∃ ref, connection.source = .port ref ∧
      (host.resolveOutputPort connection.delivery none host.depth path defId ref []).1 =
        .output output := by
  unfold connectionSource at source
  split at source
  · rename_i ref ported
    split at source
    · split at source <;> cases source
    · split at source
      · rename_i resolved
        cases source
        exact ⟨ref, ported, by rw [resolved]⟩
      all_goals cases source
  · cases source

theorem connectionSource_route
    (source : (host.connectionSource path defId connection).1 = .route start) :
    start = .endpoint path defId connection.source none ∨ ∃ ref, connection.source = .port ref ∧
      (host.resolveOutputPort connection.delivery none host.depth path defId ref []).1 =
        .onward start := by
  unfold connectionSource at source
  split at source
  · rename_i ref ported
    split at source
    · split at source <;> cases source
    · split at source
      · cases source
      · rename_i resolved
        cases source
        exact .inr ⟨ref, ported, by rw [resolved]⟩
      all_goals cases source
  · cases source
    exact .inl rfl

theorem routeVertex_port
    (resolves : (host.resolveOutputPort delivery none host.depth path defId ref []).1 ≠ .missing) :
    host.routeVertex tables projection consumerType delivery
        (.endpoint path defId (.port ref) typeId) = host.routePort delivery path defId ref := by
  obtain ⟨definition, defined⟩ := defined_of_resolveOutputPort resolves
  unfold routeVertex
  dsimp only
  rw [defined]

theorem routePort_output
    (resolves : (host.resolveOutputPort delivery none host.depth path defId ref []).1 =
      .output output) :
    .terminal (.output output) ∈ (host.routePort delivery path defId ref).steps := by
  unfold routePort
  split
  · rename_i source sink resolved
    rw [resolved] at resolves
    rw [OutputResolution.output.inj resolves]
    exact mem_singleton_self _
  all_goals
    rename_i resolved
    rw [resolved] at resolves
    simp at resolves

theorem routePort_onward
    (resolves : (host.resolveOutputPort delivery none host.depth path defId ref []).1 =
      .onward vertex) : .recurse vertex ∈ (host.routePort delivery path defId ref).steps := by
  unfold routePort
  split
  · rename_i resolved
    rw [resolved] at resolves
    simp at resolves
  · rename_i next sink resolved
    rw [resolved] at resolves
    rw [OutputResolution.onward.inj resolves]
    exact mem_singleton_self _
  all_goals
    rename_i resolved
    rw [resolved] at resolves
    simp at resolves

theorem leads_port {length : Nat}
    (resolves : (host.resolveOutputPort delivery none host.depth path defId ref []).1 =
      .onward vertex)
    (leads : Leads (host.routeAdapter tables projection consumerType delivery) terminal []
      vertex length) :
    ∃ bound ≤ length + 1, Leads (host.routeAdapter tables projection consumerType delivery)
      terminal [] (.endpoint path defId (.port ref) none) bound := by
  have present : (host.resolveOutputPort delivery none host.depth path defId ref []).1 ≠
      .missing := by
    rw [resolves]
    simp
  have steps : .recurse vertex ∈ ((host.routeAdapter tables projection consumerType
      delivery).route (.endpoint path defId (.port ref) none)).steps := by
    change _ ∈ (host.routeVertex _ _ _ _ _).steps
    rw [routeVertex_port present]
    exact routePort_onward resolves
  cases leads.avoid (.endpoint path defId (.port ref)) with
  | inl avoids => exact ⟨length + 1, Nat.le_refl _, .onward not_mem_nil steps avoids⟩
  | inr passes =>
    obtain ⟨through, bound, keyed, bounded, leads⟩ := passes
    refine ⟨bound, Nat.le_succ_of_le bounded, ?_⟩
    cases through with
    | bypass => exact absurd keyed (by simp [routeAdapter, routeKey])
    | endpoint other otherDef endpoint typeId =>
      obtain ⟨rfl, rfl, rfl⟩ := RouteKey.endpoint.inj keyed
      have same : (host.routeAdapter tables projection consumerType delivery).route
          (.endpoint other otherDef (.port ref) typeId) =
          (host.routeAdapter tables projection consumerType delivery).route
            (.endpoint other otherDef (.port ref) none) := by
        have routes : ∀ vertex, (host.routeAdapter tables projection consumerType
            delivery).route vertex =
            host.routeVertex tables projection consumerType delivery vertex := fun _ => rfl
        rw [routes, routes, routeVertex_port present, routeVertex_port present]
      cases leads with
      | ends fresh met => exact .ends fresh (same ▸ met)
      | onward fresh taken rest => exact .onward fresh (same ▸ taken) rest

/-- What a compile delivers by a link is among what the preview projects from the
connection: the preview starts at the endpoint itself, one vertex earlier than a compile
that has resolved the port, or at a vertex the compile comes back to. -/
theorem mem_projectRoute_of_source {path : List String} {defId : String}
    {connection : TopologyConnection} {consumerType : Option TypeExpr} {output : ResolvedOutput}
    (delivered : (host.connectionSource path defId connection).1 = .output output ∨
      ∃ start, (host.connectionSource path defId connection).1 = .route start ∧
        .output output ∈ (host.projectRoute (host.tables mode staging) .exact consumerType
          connection.delivery start).1) :
    .output output ∈ (host.projectRoute (host.tables preview staged) .wouldRun consumerType
      connection.delivery (.endpoint path defId connection.source none)).1 := by
  cases delivered with
  | inl direct =>
    obtain ⟨ref, ported, resolved⟩ := connectionSource_output direct
    apply mem_projectRoute_of_leads (Nat.le_add_left 1 _)
    apply Leads.ends not_mem_nil
    change _ ∈ (host.routeVertex _ _ _ _ _).steps
    rw [ported, routeVertex_port (by rw [resolved]; simp)]
    exact routePort_output resolved
  | inr routed =>
    obtain ⟨start, sourced, routed⟩ := routed
    obtain ⟨length, bounded, leads⟩ := @leads_of_projectRoute host mode preview staging staged
      _ _ _ _ routed
    cases connectionSource_route sourced with
    | inl here => exact mem_projectRoute_of_leads (Nat.le_succ_of_le bounded) (here ▸ leads)
    | inr onward =>
      obtain ⟨ref, ported, resolved⟩ := onward
      obtain ⟨bound, within, leads⟩ := leads_port resolved leads
      rw [ported]
      exact mem_projectRoute_of_leads (Nat.le_trans within (Nat.succ_le_succ bounded)) leads

end Simulation

structure Links (host : Host) (mode : Mode) (path : List String) (defId : String)
    (connection : TopologyConnection) (destination : String × ElaboratedInput)
    (output : ResolvedOutput) : Prop where
  destined : host.Destined path defId connection destination
  delivered : (host.connectionSource path defId connection).1 = .output output ∨
    ∃ staging start, (host.connectionSource path defId connection).1 = .route start ∧
      .output output ∈ (host.projectRoute (host.tables mode staging) .exact
        (some destination.2.spec.type) connection.delivery start).1

/-- Every linked input whose value names a producer has it from a connection. -/
def LinksDelivered (host : Host) (mode : Mode) (staging : Staging) : Prop :=
  ∀ fn ∈ staging.flat, ∀ key ∈ fn.linkedInputs, ∀ producer,
    (getField fn.inputs key).bind arrayHead = some producer →
      ∃ path defId connection destination output,
        host.Links mode path defId connection destination output ∧
          destination.1 = fn.runtimeId ∧ destination.2.spec.id = key ∧
          output.runtimeId = producer

variable {producer : String} {value : Json} {fn : FlatNode}

variable {destination : String × ElaboratedInput} {staging : Staging}

theorem links_of_delivers (delivers : host.Delivers mode staging destination value true)
    (headed : arrayHead value = some producer) :
    ∃ path defId connection output, host.Links mode path defId connection destination output ∧
      output.runtimeId = producer := by
  cases delivers with
  | index destined source => exact absurd headed (by simp [arrayHead, linkWire])
  | direct destined source produced =>
    exact ⟨_, _, _, _, ⟨destined, .inl source⟩, some.inj headed⟩
  | routed destined source ended produced =>
    exact ⟨_, _, _, _, ⟨destined, .inr ⟨_, _, source, mem_of_mem_head? ended⟩⟩, some.inj headed⟩
  | regionPort listed defined bound targeted =>
    exact absurd headed (by simp [arrayHead, linkWire])

theorem linksDelivered_preserved : host.Preserved mode (host.LinksDelivered mode) where
  report := fun _ _ kept => kept
  record := fun _ _ _ _ _ _ _ kept => kept
  deliver := by
    intro staging destination value linked delivers kept fn listed key marked producer headed
    obtain ⟨before, found, same⟩ := mem_map.mp listed
    split at same
    · rename_i named
      subst same
      change (getField (setField before.inputs destination.2.spec.id value) key).bind _ = _
        at headed
      rw [getField_setField] at headed
      cases linked with
      | true =>
        split at headed
        · rename_i here
          obtain ⟨path, defId, connection, output, links, produced⟩ :=
            links_of_delivers delivers headed
          exact ⟨path, defId, connection, destination, output, links, named.symm, here, produced⟩
        · rename_i other
          cases mem_cons.mp marked with
          | inl here => exact absurd here.symm other
          | inr marked => exact kept before found key marked producer headed
      | false =>
        have marked := mem_filter.mp marked
        have other : destination.2.spec.id ≠ key := Ne.symm (of_decide_eq_true marked.2)
        rw [if_neg other] at headed
        exact kept before found key marked.1 producer headed
    · subst same
      exact kept before found key marked producer headed

/-- The links of a staged document come from its connections. -/
theorem staged_linksDelivered : host.LinksDelivered mode (host.staged mode) := by
  apply linksDelivered_preserved.staged
  intro fn listed key marked
  obtain ⟨bare, found, same⟩ := mem_map.mp listed
  subst same
  rw [show (host.stageLiterals bare).linkedInputs = bare.linkedInputs from rfl,
    ← bare_of_collected found] at marked
  exact absurd marked not_mem_nil

theorem foldl_establishes {State Item : Type} {step : State → Item → State}
    {holds kept : State → Prop} {item : Item} :
    ∀ {items : List Item} {state : State}, item ∈ items →
      (∀ state, ∀ item ∈ items, holds state → holds (step state item)) →
      (∀ state, ∀ item ∈ items, kept state → kept (step state item)) →
      (∀ state, holds state → kept (step state item)) → holds state → kept (items.foldl step state)
  | [], _, listed, _, _, _, _ => absurd listed not_mem_nil
  | first :: items, state, listed, invariant, keeps, establishes, before => by
    rw [foldl_cons]
    cases mem_cons.mp listed with
    | inl here =>
      subst here
      exact foldlRecOn items step (establishes state before)
        fun state known other later => keeps state other (mem_cons_of_mem _ later) known
    | inr later =>
      exact foldl_establishes later
        (fun state other known => invariant state other (mem_cons_of_mem _ known))
        (fun state other known => keeps state other (mem_cons_of_mem _ known))
        establishes (invariant state first mem_cons_self before)

def Recorded (runtimeId key producer : String) (staging : Staging) : Prop :=
  ∃ edge ∈ staging.edges, edge.1 = (runtimeId, key) ∧ producer ∈ edge.2

theorem recorded_preserved {runtimeId key producer : String} :
    host.Preserved mode (Recorded runtimeId key producer) where
  report := fun _ _ recorded => recorded
  record := by
    intro staging path defId connection destination _ _ recorded
    obtain ⟨edge, listed, named⟩ := recorded
    exact ⟨edge, mem_append_left _ listed, named⟩
  deliver := fun _ _ _ _ _ recorded => recorded

variable {runtimeId : String}

/-- Which nodes are staged never changes. -/
theorem Framed.has_iff (framed : host.Framed staging) :
    staging.has runtimeId = true ↔ runtimeId ∈ host.collected.flat.map (·.runtimeId) := by
  rw [← framed.collected, List.map_map]
  unfold Staging.has
  rw [List.any_eq_true, List.mem_map]
  simp only [decide_eq_true_eq, Function.comp_apply]
  rfl

theorem recorded_of_destined (previews : preview.wouldRun = true) {path : List String}
    {defId : String} {connection : TopologyConnection} {output : ResolvedOutput}
    (destined : host.Destined path defId connection destination)
    (live : destination.1 ∈ host.collected.flat.map (·.runtimeId))
    (produced : output.runtimeId ∈ host.collected.flat.map (·.runtimeId))
    (projected : ∀ staging, .output output ∈ (host.projectRoute (host.tables preview staging)
      .wouldRun (some destination.2.spec.type) connection.delivery
      (.endpoint path defId connection.source none)).1) :
    Recorded destination.1 destination.2.spec.id output.runtimeId (host.staged preview) := by
  have frames := @framed_preserved host preview
  have keeps := @recorded_preserved host preview destination.1 destination.2.spec.id
    output.runtimeId
  obtain ⟨target, listed, ends⟩ := destined.admitted
  unfold Host.staged linkStaging
  apply foldlRecOn
  · apply foldl_establishes destined.context
    · exact fun staging context known framed => frames.lowerOccurrence known framed
    · exact fun staging context known kept => keeps.lowerOccurrence known kept
    · intro staging framed
      unfold lowerOccurrence
      apply foldlRecOn
      · apply foldl_establishes listed
        · exact fun staging entry known framed =>
            frames.recordWouldRun destined.context known framed
        · exact fun staging entry known kept =>
            keeps.recordWouldRun destined.context known kept
        · intro staging framed
          unfold recordWouldRun
          rw [if_pos previews]
          apply foldl_establishes (mem_filter.mpr ⟨ends, framed.has_iff.mpr live⟩)
          · intro staging other known framed
            exact frames.record _ _ _ _ _ previews
              ⟨destined.context, target, listed, (mem_filter.mp known).1⟩ framed
          · intro staging other known kept
            exact keeps.record _ _ _ _ _ previews
              ⟨destined.context, target, listed, (mem_filter.mp known).1⟩ kept
          · intro staging framed
            refine ⟨_, mem_append_right _ (mem_singleton_self _), rfl, ?_⟩
            apply mem_filter.mpr
            refine ⟨mem_map.mpr ⟨output, ?_, rfl⟩, framed.has_iff.mpr produced⟩
            exact mem_filterMap.mpr ⟨_, projected staging, rfl⟩
          · exact framed
        · exact frames.report _ _ framed
      · exact fun staging kept entry known =>
          keeps.lowerConnection destined.context known kept
    · exact literalStaging_framed
  · exact fun staging kept region known => keeps.lowerRegion known kept

/-- No node of the document has a lazy selector. -/
def Unlazy (host : Host) : Prop :=
  ∀ fn ∈ host.collected.flat, fn.selector = none

theorem unlazy_of_test (plain : (host.collected.flat.all (·.selector.isNone)) = true) :
    host.Unlazy :=
  fun fn listed => isNone_iff_eq_none.mp (all_eq_true.mp plain fn listed)

theorem projection_of_unlazy (unlazy : host.Unlazy) (listed : fn ∈ (host.staged mode).flat) :
    (host.routedNode mode fn).projection = none := by
  have collected : fn.bare ∈ (host.staged mode).flat.map FlatNode.bare :=
    mem_map.mpr ⟨fn, listed, rfl⟩
  rw [staged_framed.collected] at collected
  have plain : fn.selector = none := unlazy fn.bare collected
  unfold routedNode projectionOf
  dsimp only
  rw [plain]
  split <;> rfl

theorem flattened_of_staged (found : (host.staged mode).node? runtimeId = some fn) :
    runtimeId ∈ host.collected.flat.map (·.runtimeId) := by
  apply staged_framed.has_iff.mp
  have named := find?_some found
  exact any_eq_true.mpr ⟨fn, mem_of_find?_eq_some found, named⟩

theorem mem_producersOf_recorded (unlazy : host.Unlazy) {key : String} {shown : FlatNode}
    (recorded : Recorded runtimeId key producer (host.staged preview))
    (found : (host.staged preview).node? runtimeId = some shown)
    (staged : getField shown.inputs key = some value) :
    producer ∈ producersOf (host.staged preview).edges
      ((host.staged preview).flat.map (host.routedNode preview)) runtimeId := by
  have named : shown.runtimeId = runtimeId := by simpa using find?_some found
  have listed := mem_of_find?_eq_some found
  unfold producersOf
  rw [find?_routedNode]
  unfold Staging.node? at found
  rw [found]
  apply mem_flatMap.mpr
  refine ⟨(key, value), mem_of_getField staged, ?_⟩
  obtain ⟨edge, known, placed, produced⟩ := recorded
  have filtered : edge ∈ (host.staged preview).edges.filter
      fun edge => edge.1 = (runtimeId, key) :=
    mem_filter.mpr ⟨known, decide_eq_true placed⟩
  have union : (host.staged preview).edges.producers? runtimeId key =
      some (((host.staged preview).edges.filter
        fun edge => edge.1 = (runtimeId, key)).flatMap (·.2)) := by
    unfold WouldRunEdges.producers?
    dsimp only
    rw [if_neg]
    intro empty
    rw [List.isEmpty_iff] at empty
    rw [empty] at filtered
    exact absurd filtered not_mem_nil
  unfold inputProducers
  rw [projection_of_unlazy unlazy listed, if_neg (by simp)]
  dsimp only
  rw [show (host.routedNode preview shown).runtimeId = runtimeId from named, union]
  exact mem_flatMap.mpr ⟨edge, filtered, produced⟩

theorem producer_of_link (previews : preview.wouldRun = true) (unlazy : host.Unlazy)
    {key : String} {shown : FlatNode} {staged : Json}
    (found : (host.staged mode).node? runtimeId = some fn) (marked : key ∈ fn.linkedInputs)
    (held : getField fn.inputs key = some value) (headed : arrayHead value = some producer)
    (produced : producer ∈ host.collected.flat.map (·.runtimeId))
    (seen : (host.staged preview).node? runtimeId = some shown)
    (kept : getField shown.inputs key = some staged) :
    producer ∈ producersOf (host.staged preview).edges
      ((host.staged preview).flat.map (host.routedNode preview)) runtimeId := by
  have named : fn.runtimeId = runtimeId := by simpa using find?_some found
  have live := flattened_of_staged found
  obtain ⟨path, defId, connection, destination, output, links, placed, keyed, same⟩ :=
    staged_linksDelivered fn (mem_of_find?_eq_some found) key marked producer
      (by rw [held]; exact headed)
  rw [named] at placed
  rw [← same] at produced
  rw [← placed] at live
  have projected : ∀ staging, .output output ∈ (host.projectRoute (host.tables preview staging)
      .wouldRun (some destination.2.spec.type) connection.delivery
      (.endpoint path defId connection.source none)).1 := by
    intro staging
    cases links.delivered with
    | inl direct => exact @mem_projectRoute_of_source host mode preview staging _ _ _ _ _ _ (.inl direct)
    | inr routed =>
      obtain ⟨lowered, start, sourced, routed⟩ := routed
      exact mem_projectRoute_of_source (.inr ⟨start, sourced, routed⟩)
  have recorded := recorded_of_destined previews links.destined live produced projected
  rw [placed, keyed, same] at recorded
  exact mem_producersOf_recorded unlazy recorded seen kept

/-! ## The preview covers the compile -/

/-- Where a preview may miss a producer, it has it all the same: at an input whose array is
a literal and no link, at an input the preview stages nothing at, and at a node that the
preview's own closure does not reach. -/
def PreviewCovers (host : Host) (mode preview : Mode) (scope : ExecutionScope) : Prop :=
  host.scopeCloses host.collected.flat scope = true →
    ∀ runtimeId ∈ host.closureOf mode (host.staged mode) scope,
      ∀ fn, (host.staged mode).node? runtimeId = some fn →
        ∀ key value producer, getField fn.inputs key = some value →
          arrayHead value = some producer →
          producer ∈ host.collected.flat.map (·.runtimeId) →
          key ∉ fn.linkedInputs ∨
              runtimeId ∉ host.closureOf preview (host.staged preview) scope ∨
              (∀ shown, (host.staged preview).node? runtimeId = some shown →
                getField shown.inputs key = none) →
            producer ∈ host.executed preview (host.staged preview) scope

theorem mem_toSource_iff {emission : Emission} {scope : ExecutionScope} {source : String} :
    source ∈ (host.artifact mode emission scope).toSource.map (·.2) ↔
      source ∈ host.collected.flat.map (·.runtimeId) ∧
        source ∈ host.executed mode (host.staged mode) scope := by
  have sourced : (host.artifact mode emission scope).toSource.map (·.2) =
      ((host.completed mode scope).flat.filter fun fn =>
        (host.executed mode (host.staged mode) scope).contains fn.runtimeId).map
          fun fn => runtimeIdAt fn.path fn.node.id := by
    unfold artifact
    dsimp only
    rw [List.map_map]
    rfl
  have bare : (host.completed mode scope).flat.map FlatNode.bare = host.collected.flat := by
    rw [← staged_framed.collected]
    unfold completed
    dsimp only
    rw [List.map_map]
    apply map_congr_left
    intro fn _
    rw [Function.comp_apply]
    split <;> rfl
  have named : ∀ fn ∈ (host.completed mode scope).flat,
      fn.runtimeId = runtimeIdAt fn.path fn.node.id := by
    intro fn listed
    have collected : fn.bare ∈ (host.completed mode scope).flat.map FlatNode.bare :=
      List.mem_map.mpr ⟨fn, listed, rfl⟩
    rw [bare] at collected
    exact (runtimeId_of_collected collected : fn.bare.runtimeId = _)
  rw [sourced, ← bare, List.map_map]
  constructor
  · intro listed
    obtain ⟨fn, known, same⟩ := mem_map.mp listed
    have flattened := mem_filter.mp known
    rw [← same, ← named fn flattened.1]
    exact ⟨mem_map.mpr ⟨fn, flattened.1, rfl⟩, contains_iff_mem.mp flattened.2⟩
  · intro executed
    obtain ⟨fn, flattened, same⟩ := mem_map.mp executed.1
    change fn.runtimeId = source at same
    subst same
    refine mem_map.mpr ⟨fn, mem_filter.mpr ⟨flattened, ?_⟩, (named fn flattened).symm⟩
    exact contains_iff_mem.mpr executed.2

section Covering

variable {scope : ExecutionScope}

theorem scopeCloses_staged :
    host.scopeCloses (host.staged mode).flat scope = host.scopeCloses host.collected.flat scope := by
  rw [← scopeCloses_bare, staged_framed.collected]

theorem rootsOf_staged : startingRoots ((host.staged mode).flat.map (host.routedNode mode))
        (host.scopeRoots (host.staged mode).flat scope) =
      startingRoots ((host.staged preview).flat.map (host.routedNode preview))
        (host.scopeRoots (host.staged preview).flat scope) := by
  rw [← scopeRoots_bare, ← scopeRoots_bare (host.staged preview).flat, staged_framed.collected,
    staged_framed.collected]
  apply startingRoots_congr
  have named : ∀ mode : Mode, ((host.staged mode).flat.map (host.routedNode mode)).map
      (·.runtimeId) = host.collected.flat.map (·.runtimeId) := by
    intro mode
    rw [← (@staged_framed host mode).collected, List.map_map, List.map_map]
    rfl
  rw [named, named]

variable {runtimeId : String}

theorem executed_of_closes (closes : runtimeId ∈ host.closureOf mode (host.staged mode) scope) :
    runtimeId ∈ host.executed mode (host.staged mode) scope :=
  mem_executed_iff.mpr (.closes closes)

theorem executed_of_covers (exact : mode.wouldRun = false) (previews : preview.wouldRun = true)
    (unlazy : host.Unlazy) (covers : host.PreviewCovers mode preview scope)
    (flattened : runtimeId ∈ host.collected.flat.map (·.runtimeId))
    (closes : runtimeId ∈ host.closureOf mode (host.staged mode) scope) :
    runtimeId ∈ host.executed preview (host.staged preview) scope := by
  cases closed : host.scopeCloses host.collected.flat scope with
  | false =>
    apply executed_of_closes
    unfold closureOf
    rw [scopeCloses_staged, closed, if_neg Bool.false_ne_true]
    rw [← (@staged_framed host preview).collected, List.map_map] at flattened
    exact flattened
  | true =>
    have closesHere := @scopeCloses_staged host mode scope
    have closesThere := @scopeCloses_staged host preview scope
    rw [closed] at closesHere closesThere
    rw [mem_closureOf_iff closesHere] at closes
    have kept : runtimeId ∈ host.collected.flat.map (·.runtimeId) →
        runtimeId ∈ host.executed preview (host.staged preview) scope := by
      apply closes.induct
      · intro start begins _
        apply executed_of_closes
        rw [mem_closureOf_iff closesThere]
        apply Reaches.start
        unfold rootsOf at begins ⊢
        rw [rootsOf_staged]
        exact begins
      · intro source reached _ producer contributes produced
        rw [staged_edges exact, producersOf_exact exact] at contributes
        unfold headsOf at contributes
        split at contributes
        · rename_i fn found
          obtain ⟨⟨key, value⟩, entered, headed⟩ := mem_filterMap.mp contributes
          have held := getField_of_mem
            (staged_distinctInputs fn (mem_of_find?_eq_some found)) entered
          rw [← mem_closureOf_iff closesHere] at reached
          by_cases missed : key ∉ fn.linkedInputs ∨
              source ∉ host.closureOf preview (host.staged preview) scope ∨
              (∀ shown, (host.staged preview).node? source = some shown →
                getField shown.inputs key = none)
          · exact covers closed source reached fn found key value producer held headed
              produced missed
          · simp only [not_or, not_not, not_forall] at missed
            obtain ⟨marked, seen, shown, shows, staged⟩ := missed
            obtain ⟨other, staged⟩ := ne_none_iff_exists'.mp staged
            apply executed_of_closes
            rw [mem_closureOf_iff closesThere] at seen ⊢
            exact seen.step (producer_of_link previews unlazy found marked held headed
              produced shows staged)
        · exact absurd contributes not_mem_nil
    exact kept flattened

/-- Completing regions keeps the scope of a compile in that of a preview. -/
theorem executed_subset (covered : ∀ runtimeId ∈ host.collected.flat.map (·.runtimeId),
      runtimeId ∈ host.closureOf mode (host.staged mode) scope →
        runtimeId ∈ host.executed preview (host.staged preview) scope)
    (flattened : runtimeId ∈ host.collected.flat.map (·.runtimeId))
    (executed : runtimeId ∈ host.executed mode (host.staged mode) scope) :
    runtimeId ∈ host.executed preview (host.staged preview) scope := by
  have listed : ∀ fn ∈ host.collected.flat, fn.runtimeId ∈ host.collected.flat.map (·.runtimeId) :=
    fun fn known => mem_map.mpr ⟨fn, known, rfl⟩
  have pulls : ∀ region, host.Pulled host.collected.flat
      (host.closureOf mode (host.staged mode) scope) region →
        host.Completed host.collected.flat
          (host.closureOf preview (host.staged preview) scope) region.runtimeId := by
    intro region pulled
    cases pulled with
    | reached known closes =>
      obtain ⟨entry, collected, same, _⟩ := entered_of_region known
      rw [← same] at closes ⊢
      exact mem_executed_iff.mp (covered _ (listed entry collected) closes)
    | around known collected closes within =>
      exact .region_of_body known collected within
        (mem_executed_iff.mp (covered _ (listed _ collected) closes))
  rw [mem_executed_iff] at executed ⊢
  cases executed with
  | closes closes => exact mem_executed_iff.mp (covered _ flattened closes)
  | region pulled => exact pulls _ pulled
  | body pulled collected within =>
    exact (pulls _ pulled).body_of_region (fun _ => runtimeId_of_collected) pulled.listed
      collected within

/-- The preview of a scope includes every source of its compile exactly when it covers the
producers that it may miss. -/
theorem scopeClosure_includes_iff (unlazy : host.Unlazy) {emission : Emission}
    {pickCandidate previewCandidate : Option (String → String → Nat → Option Rat)}
    {artifact : Artifact} {included : List String}
    (compiled : host.compile emission pickCandidate scope = .ok artifact)
    (previewed : host.scopeClosure emission previewCandidate scope = some included) :
    (∀ source ∈ artifact.toSource.map (·.2), source ∈ included) ↔
      host.PreviewCovers ⟨false, pickCandidate⟩ ⟨true, previewCandidate⟩ scope := by
  have sources := artifact_of_compileImpl compiled
  have shown : included =
      (host.artifact ⟨true, previewCandidate⟩ emission scope).toSource.map (·.2) := by
    unfold scopeClosure at previewed
    split at previewed
    · rename_i artifact succeeded
      rw [← some.inj previewed, artifact_of_compileImpl succeeded]
    · simp at previewed
  rw [sources, shown]
  simp only [mem_toSource_iff]
  constructor
  · intro includes closed runtimeId closes fn found key value producer held headed produced _
    apply (includes producer ⟨produced, executed_of_closes _⟩).2
    have closesHere := @scopeCloses_staged host ⟨false, pickCandidate⟩ scope
    rw [closed] at closesHere
    rw [mem_closureOf_iff closesHere] at closes ⊢
    apply closes.step
    rw [staged_edges rfl, producersOf_exact rfl, headsOf]
    unfold Staging.node? at found
    rw [found]
    exact mem_filterMap.mpr ⟨(key, value), mem_of_getField held, headed⟩
  · intro covers source executed
    refine ⟨executed.1, executed_subset ?_ executed.1 executed.2⟩
    intro runtimeId flattened closes
    exact executed_of_covers rfl rfl unlazy covers flattened closes

end Covering

end Host

section Fixture

def imageTypes : String → Option NodeType
  | "Show" => some ⟨⟨true, false, none⟩,
      unaryInterface (staticInput "value" (.concrete "IMAGE")) []⟩
  | "Make" => some ⟨⟨false, false, none⟩,
      staticInterface [] [staticOutput "made" (.concrete "IMAGE")]⟩
  | _ => none

variable (candidates : List String)

/-- A random selector with one driven candidate feeds the node that shows. -/
def halfDriven : Workflow where
  root := "root"
  graphs := [⟨"root", [activeNode "make" "Make" [], activeNode "show" "Show" []],
    [⟨"feed", .port ⟨"make", "made", []⟩, .selector "pick" (some "driven")⟩,
      ⟨"deliver", .selector "pick" none, .port ⟨"show", "value", []⟩⟩],
    [], [], [⟨"pick", candidates, .random⟩], [], none⟩]

/-- A compile of such a document. -/
def halfDrivenHost : Host :=
  .static (halfDriven candidates) 5 imageTypes

def drawing (number : Rat) : Option (String → String → Nat → Option Rat) :=
  some fun _ _ _ => some number

/-- The preview is of the driven candidate, and the compile chooses the other one. -/
theorem previewCovers_driven : (halfDrivenHost ["driven", "idle"]).PreviewCovers
    ⟨false, drawing 1⟩ ⟨true, none⟩ .full := by
  have compiled := @Host.compileImpl_of_isOk (halfDrivenHost ["driven", "idle"])
    ⟨false, drawing 1⟩ unchecked .full (by decide +kernel)
  have previewed : (halfDrivenHost ["driven", "idle"]).scopeClosure unchecked none .full =
      some ["make", "show"] := by decide +kernel
  apply (Host.scopeClosure_includes_iff (Host.unlazy_of_test (by decide +kernel)) compiled
    previewed).mp
  decide +kernel

/-- The compile chooses the driven candidate, and the preview is of the other one: it
stages nothing at the input and reads no record there. -/
theorem preview_misses_driven : ¬ ∀ (host : Host) (emission : Emission)
    (pickCandidate previewCandidate : Option (String → String → Nat → Option Rat))
    (scope : ExecutionScope) (artifact : Host.Artifact) (included : List String), host.Unlazy →
      host.compile emission pickCandidate scope = .ok artifact →
      host.scopeClosure emission previewCandidate scope = some included →
        ∀ source ∈ artifact.toSource.map (·.2), source ∈ included := by
  intro claim
  have compiled := @Host.compileImpl_of_isOk (halfDrivenHost ["idle", "driven"])
    ⟨false, drawing 1⟩ unchecked .full (by decide +kernel)
  have previewed : (halfDrivenHost ["idle", "driven"]).scopeClosure unchecked none .full =
      some ["show"] := by decide +kernel
  have includes := claim _ _ _ _ _ _ _ (Host.unlazy_of_test (by decide +kernel)) compiled
    previewed "make" (by decide +kernel)
  exact absurd includes (by decide)

end Fixture

end Dinkster.Compile
