import Dinkster.Compile.LiteralLinks
import Dinkster.Compile.Preview

/-!
# Widget taps

A consumer that is connected to a widget tap is meant to get what the tapped input gets.  A
route follows the tapped input's driver when there is one in its own occurrence, and reads
what is staged at the input otherwise.  The two agree exactly as far as nothing else feeds
the input: a producer that reaches it through a boundary is staged there as a pair and
read as a literal, and a region port is staged after every tap was read.
-/

namespace Dinkster.Compile

open Format Library List Option

/-! ## Runs of lowering -/

/-- The value staged at an input of a node, and whether it is marked as linked. -/
def FlatNode.holding (fn : FlatNode) (key : String) : Option Json × Bool :=
  (getField fn.inputs key, fn.linkedInputs.contains key)

theorem FlatNode.holding_receive (fn : FlatNode) (key : String) (value : Json) (linked : Bool) :
    (fn.receive key value linked).holding key = (some value, linked) := by
  unfold holding receive
  cases linked <;> simp [getField_setField]

theorem FlatNode.holding_receive_of_ne (fn : FlatNode) {key other : String} (value : Json)
    (linked : Bool) (apart : key ≠ other) :
    (fn.receive key value linked).holding other = fn.holding other := by
  unfold holding receive
  cases linked <;> simp [getField_setField, apart, apart.symm]

theorem Staging.node?_deliver (staging : Staging) (runtimeId other : String)
    (input : ElaboratedInput) (value : Json) (linked : Bool) :
    (staging.deliver runtimeId input value linked).node? other = (staging.node? other).map fun fn =>
        if fn.runtimeId = runtimeId then fn.receive input.spec.id value linked else fn := by
  unfold node? deliver
  rw [find?_map]
  have same : ((fun fn : FlatNode => decide (fn.runtimeId = other)) ∘ fun fn : FlatNode =>
      if fn.runtimeId = runtimeId then fn.receive input.spec.id value linked else fn) =
      fun fn : FlatNode => decide (fn.runtimeId = other) := by
    funext fn
    rw [Function.comp_apply]
    split <;> rfl
  rw [same]

/-- An input of a flattened node, as deliveries name it. -/
def portOf (destination : String × ElaboratedInput) : String × PortAddress :=
  (destination.1, destination.2.address)

namespace Host

variable {host : Host} {mode : Mode}

/-- A stretch of lowering that delivers to the inputs of a set only. -/
inductive Lowers (host : Host) (mode : Mode) (free : String × PortAddress → Prop)
    (start : Staging) : Staging → Prop where
  | here : Lowers host mode free start start
  | report {staging : Staging} (sink : List Diagnostic)
      (before : Lowers host mode free start staging) :
      Lowers host mode free start (staging.report sink)
  | record {staging : Staging} {path : List String} {defId : String}
      {connection : TopologyConnection} {destination : String × ElaboratedInput}
      (previews : mode.wouldRun = true)
      (before : Lowers host mode free start staging) :
      Lowers host mode free start
        (host.recordDestination mode path defId connection staging destination)
  | deliver {staging : Staging} {destination : String × ElaboratedInput} {value : Json}
      {linked : Bool} (allowed : free (portOf destination))
      (delivers : host.Delivers mode staging destination value linked)
      (before : Lowers host mode free start staging) :
      Lowers host mode free start (staging.deliver destination.1 destination.2 value linked)

/-- Every input may be delivered to. -/
def anywhere (_ : String × PortAddress) : Prop := True

def elsewhere (destination : String × ElaboratedInput) (port : String × PortAddress) : Prop :=
  port ≠ portOf destination

theorem lowers_staged : host.Lowers mode anywhere host.literalStaging (host.staged mode) := by
  have preserved : host.Preserved mode (host.Lowers mode anywhere host.literalStaging) :=
    { report := fun _ sink before => before.report sink
      record := fun _ _ _ _ _ previews _ before => before.record previews
      deliver := fun _ _ _ _ delivers before => before.deliver trivial delivers }
  exact preserved.staged .here

theorem Lowers.holding {free : String × PortAddress → Prop} {start final : Staging}
    (lowers : host.Lowers mode free start final) {destination : String × ElaboratedInput}
    (fixed : ¬ free (portOf destination)) :
    (final.node? destination.1).map (·.holding destination.2.spec.id) =
      (start.node? destination.1).map (·.holding destination.2.spec.id) := by
  induction lowers with
  | here => rfl
  | report _ _ ih | record _ _ ih => exact ih
  | @deliver staging target value linked allowed _ _ ih =>
    rw [← ih, Staging.node?_deliver, Option.map_map]
    cases found : staging.node? destination.1 with
    | none => rfl
    | some fn =>
      have named : fn.runtimeId = destination.1 := by simpa using find?_some found
      rw [map_some, map_some, Function.comp_apply]
      split
      · rename_i same
        rw [FlatNode.holding_receive_of_ne]
        intro keyed
        rw [target.2.filed, destination.2.filed] at keyed
        apply fixed
        have port : portOf target = portOf destination :=
          Prod.ext (same.symm.trans named) (elabKeyOf_injective keyed)
        rw [← port]
        exact allowed
      · rfl

structure LastDelivery (host : Host) (mode : Mode) (before : Staging)
    (destination : String × ElaboratedInput) (value : Json) (linked : Bool) : Prop where
  reached : host.Lowers mode anywhere host.literalStaging before
  delivers : host.Delivers mode before destination value linked
  kept : host.Lowers mode (elsewhere destination)
    (before.deliver destination.1 destination.2 value linked) (host.staged mode)

variable {final : Staging} {value : Json}

variable {port : String × PortAddress} {destination : String × ElaboratedInput}

theorem Lowers.last (exact : mode.wouldRun = false)
    (lowers : host.Lowers mode anywhere host.literalStaging final)
    (delivered : port ∈ final.delivered) :
    ∃ before destination value linked, portOf destination = port ∧
      host.Lowers mode anywhere host.literalStaging before ∧
      host.Delivers mode before destination value linked ∧ host.Lowers mode (elsewhere destination)
        (before.deliver destination.1 destination.2 value linked) final := by
  induction lowers with
  | here => exact absurd delivered not_mem_nil
  | report sink _ ih =>
    obtain ⟨before, destination, value, linked, same, reached, delivers, kept⟩ := ih delivered
    exact ⟨before, destination, value, linked, same, reached, delivers, kept.report sink⟩
  | record previews =>
    rw [exact] at previews
    exact absurd previews Bool.false_ne_true
  | @deliver staging target value linked _ delivers before ih =>
    by_cases same : portOf target = port
    · exact ⟨staging, target, value, linked, same, before, delivers, .here⟩
    · have earlier : port ∈ staging.delivered := by
        cases mem_append.mp delivered with
        | inl earlier => exact earlier
        | inr here => exact absurd (mem_singleton.mp here).symm same
      obtain ⟨first, destination, left, marked, ported, reached, delivered, kept⟩ := ih earlier
      refine ⟨first, destination, left, marked, ported, reached, delivered, ?_⟩
      apply kept.deliver _ delivers
      intro again
      exact same (again.trans ported)

theorem LastDelivery.holding {before : Staging} {destination : String × ElaboratedInput}
    {value : Json} {linked : Bool} (last : host.LastDelivery mode before destination value linked)
    {fn : FlatNode} (found : (host.staged mode).node? destination.1 = some fn) :
    fn.holding destination.2.spec.id = (some value, linked) := by
  have kept := @Lowers.holding host mode _ _ _ last.kept destination fun apart => apart rfl
  rw [found, Staging.node?_deliver, Option.map_map] at kept
  cases held : before.node? destination.1 with
  | none =>
    rw [held] at kept
    simp at kept
  | some earlier =>
    have named : earlier.runtimeId = destination.1 := by simpa using find?_some held
    rw [held, map_some, map_some, Function.comp_apply, if_pos named,
      FlatNode.holding_receive] at kept
    exact some.inj kept

inductive Ends (host : Host) (mode : Mode) (before : Staging) (path : List String)
    (defId : String) (connection : TopologyConnection) (type : TypeExpr) :
    RouteTerminal → Prop where
  | direct {output : ResolvedOutput}
      (source : (host.connectionSource path defId connection).1 = .output output) :
      Ends host mode before path defId connection type (.output output)
  | routed {start : RouteVertex} {terminal : RouteTerminal}
      (source : (host.connectionSource path defId connection).1 = .route start)
      (ended : (host.projectRoute (host.tables mode before) .exact (some type)
        connection.delivery start).1.head? = some terminal) :
      Ends host mode before path defId connection type terminal

inductive Leaves (host : Host) (input : ElaboratedInput) :
    RouteTerminal → Json → Bool → Prop where
  | output {output : ResolvedOutput} : Leaves host input (.output output) (linkValue output) true
  | value {value lowered : Json} {typeId : Option String} {consumer : FlatNode}
      (lowers : (host.bakeLiteral consumer input value typeId).1 = some lowered) :
      Leaves host input (.value value typeId) lowered false

structure DeliveredBy (host : Host) (mode : Mode) (before : Staging) (path : List String)
    (defId : String) (connection : TopologyConnection) (destination : String × ElaboratedInput)
    (terminal : RouteTerminal) (value : Json) (linked : Bool) : Prop where
  destined : host.Destined path defId connection destination
  ends : host.Ends mode before path defId connection destination.2.spec.type terminal
  leaves : host.Leaves destination.2 terminal value linked
  last : host.LastDelivery mode before destination value linked

theorem LastDelivery.cases {before : Staging} {linked : Bool}
    (last : host.LastDelivery mode before destination value linked) :
    (∃ path defId connection terminal,
        host.DeliveredBy mode before path defId connection destination terminal value linked) ∨
      (∃ path defId connection, host.Destined path defId connection destination ∧
        (host.connectionSource path defId connection).1 = .regionIndex) ∨
      ∃ region ∈ host.collected.regions, ∃ child, host.doc.graph? region.childId = some child ∧
        ∃ item ∈ child.boundaryInputs,
          destination ∈ nodeInputs (host.regionTargets region item).1.inputs := by
  have delivers := last.delivers
  cases delivers with
  | index destined source => exact .inr (.inl ⟨_, _, _, destined, source⟩)
  | direct destined source produced =>
    exact .inl ⟨_, _, _, _, destined, .direct source, .output, last⟩
  | routed destined source ended produced =>
    exact .inl ⟨_, _, _, _, destined, .routed source ended, .output, last⟩
  | baked destined source ended consumed lowers =>
    exact .inl ⟨_, _, _, _, destined, .routed source ended, .value lowers, last⟩
  | regionPort listed defined bound targeted =>
    exact .inr (.inr ⟨_, listed, _, defined, _, bound, targeted⟩)

/-- A widget tap of an occurrence. -/
structure TapAt where
  path : List String
  defId : String
  node : String
  input : String

def TapAt.vertex (tap : TapAt) (typeId : Option String) : RouteVertex :=
  .endpoint tap.path tap.defId (.tap tap.node tap.input) typeId

def TapAt.target (tap : TapAt) : LinkEndpoint :=
  .port ⟨tap.node, tap.input, []⟩

def Traces (host : Host) (mode : Mode) (before : Staging) (path : List String)
    (defId : String) (connection : TopologyConnection) (type : TypeExpr)
    (terminal : RouteTerminal) (tap : TapAt) : Prop :=
  ∃ start typeId, (host.connectionSource path defId connection).1 = .route start ∧
    Passes (host.routeAdapter (host.tables mode before) .exact (some type) connection.delivery)
      terminal (tap.vertex typeId) [] start

def Taps (host : Host) (tap : TapAt) (tapped : String × ElaboratedInput) : Prop :=
  ∃ rest, (host.tappedInputs tap.path tap.defId tap.node tap.input).1 = .inputs (tapped :: rest)

structure Entry (host : Host) (mode : Mode) (scope : ExecutionScope)
    (port : String × ElaboratedInput) (fn : FlatNode) (value : Json) : Prop where
  found : (host.staged mode).node? port.1 = some fn
  executed : fn.runtimeId ∈ host.executed mode (host.staged mode) scope
  declared : port.2 ∈ fn.interface.inputs
  submits : ∃ name, host.submitted (host.staged mode).delivered (host.withDefaults fn) port.2 =
    some (name, value)

def Denotes (literal entry : Json) : Prop :=
  Marks literal entry ∨ unmarked entry = literal

/-- A consumer of a tap denotes the source of the tapped input: the same output, as a link,
when the tapped input is linked, and the same literal otherwise. -/
def Coherent (host : Host) (mode : Mode) (scope : ExecutionScope)
    (tapped consumer : String × ElaboratedInput) : Prop :=
  ∀ tappedNode consumerNode tappedValue consumerValue,
    host.Entry mode scope tapped tappedNode tappedValue →
    host.Entry mode scope consumer consumerNode consumerValue →
      if tappedNode.linkedInputs.contains tapped.2.spec.id then
        consumerNode.linkedInputs.contains consumer.2.spec.id = true ∧
          consumerValue = tappedValue
      else ∃ literal, Denotes literal consumerValue ∧ Denotes literal tappedValue

/-- Nothing keeps what a tap delivers apart from what the tapped input is emitted with.  A
tapped input that is driven where it is has what its driver delivers, by a route that takes
the same steps for both inputs.  One that is not driven there has no link when the consumer
is lowered and is not delivered to afterwards, and has no stored value that its occurrence
does not stage. -/
inductive Settled (host : Host) (mode : Mode) (before : Staging) (delivery : Option Delivery)
    (type : TypeExpr) (tap : TapAt) (tapped : String × ElaboratedInput) : Prop where
  | driven {source : LinkEndpoint} {earlier : Staging} {connection : TopologyConnection}
      {terminal : RouteTerminal} {value : Json} {linked : Bool}
      (driver : driverIn (host.topologyFor tap.path tap.defId) tap.target = some source)
      (same : connection.source = source)
      (feeds : host.DeliveredBy mode earlier tap.path tap.defId connection tapped terminal
        value linked)
      (alike : ∀ next, Relation.ReflTransGen (fun vertex next => .recurse next ∈
          (host.routeVertex (host.tables mode before) .exact (some type) delivery vertex).steps)
          (.endpoint tap.path tap.defId source none) next →
        (host.routeVertex (host.tables mode earlier) .exact (some tapped.2.spec.type)
            connection.delivery next).steps =
          (host.routeVertex (host.tables mode before) .exact (some type) delivery next).steps) :
      Settled host mode before delivery type tap tapped
  | held (undriven : driverIn (host.topologyFor tap.path tap.defId) tap.target = none)
      (unlinked : ∀ fn, before.node? tapped.1 = some fn →
        fn.linkedInputs.contains tapped.2.spec.id = false)
      (quiet : host.Lowers mode (elsewhere tapped) before (host.staged mode))
      (stored : (host.tables mode before).staged tapped.1 tapped.2.spec.id = none →
        ∀ data, host.node? tap.defId tap.node = some data →
          getField data.values.fields tapped.2.valueKey = none) :
      Settled host mode before delivery type tap tapped

/-! ## Routes of a compile -/

theorem routeVertex_steps (tables : RouteTables) (type : Option TypeExpr)
    (delivery : Option Delivery) (vertex : RouteVertex) :
    ∃ step, (host.routeVertex tables .exact type delivery vertex).steps = [step] := by
  unfold routeVertex
  split
  · split
    all_goals exact ⟨_, rfl⟩
  · rename_i path defId endpoint typeId
    split
    · exact ⟨_, rfl⟩
    · rename_i definition defined
      cases endpoint with
      | reroute id =>
        change ∃ step, (host.routeReroute .exact path defId id).steps = [step]
        unfold routeReroute
        split
        · exact ⟨_, rfl⟩
        · split <;> exact ⟨_, rfl⟩
      | selector selector candidate =>
        change ∃ step, (host.routeSelector tables .exact path definition selector
          candidate).steps = [step]
        unfold routeSelector choicesOf
        cases candidate with
        | some candidate => exact ⟨_, rfl⟩
        | none =>
          dsimp only
          cases tables.selection definition.id selector with
          | none | some candidate => exact ⟨_, rfl⟩
      | tap node input =>
        change ∃ step, (host.routeTap tables .exact path defId node input).steps = [step]
        unfold routeTap
        split
        · exact ⟨_, rfl⟩
        · split <;> exact ⟨_, rfl⟩
      | valueSource id =>
        change ∃ step, (host.routeValueSource tables .exact path definition id
          typeId).steps = [step]
        unfold routeValueSource
        split
        · exact ⟨_, rfl⟩
        · split <;> exact ⟨_, rfl⟩
      | port ref =>
        change ∃ step, (host.routePort delivery path defId ref).steps = [step]
        unfold routePort
        split <;> exact ⟨_, rfl⟩

section Routing

variable {before : Staging} {path : List String} {defId : String}
  {connection : TopologyConnection} {type : TypeExpr} {terminal : RouteTerminal}

theorem Ends.leads (ends : host.Ends mode before path defId connection type terminal)
    (live : terminal ≠ .dropped) :
    ∃ length, Leads (host.routeAdapter (host.tables mode before) .exact (some type)
      connection.delivery) terminal [] (.endpoint path defId connection.source none) length := by
  cases ends with
  | @direct output source =>
    obtain ⟨ref, ported, resolved⟩ := connectionSource_output source
    refine ⟨1, .ends not_mem_nil ?_⟩
    change _ ∈ (host.routeVertex _ _ _ _ _).steps
    rw [ported, routeVertex_port (by rw [resolved]; simp)]
    exact routePort_output resolved
  | @routed start terminal source ended =>
    have listed := mem_of_mem_head? ended
    have path : ∃ length, Leads (host.routeAdapter (host.tables mode before) .exact (some type)
        connection.delivery) terminal [] start length := by
      cases leads_of_mem_traverse listed with
      | inl cycled =>
        cases cycled with
        | intro vertex cycled => exact absurd (mem_singleton.mp cycled) live
      | inr path =>
        cases path with
        | intro length path => exact ⟨length, path.2⟩
    obtain ⟨length, leads⟩ := path
    cases connectionSource_route source with
    | inl here => exact ⟨length, here ▸ leads⟩
    | inr onward =>
      obtain ⟨ref, ported, resolved⟩ := onward
      obtain ⟨bound, _, leads⟩ := leads_port resolved leads
      rw [ported]
      exact ⟨bound, leads⟩

theorem leads_tap {tables : RouteTables} {delivery : Option Delivery} {tap : TapAt}
    {typeId : Option String} {length : Nat}
    (leads : Leads (host.routeAdapter tables .exact (some type) delivery) terminal []
      (tap.vertex typeId) length) (live : terminal ≠ .dropped) :
    (∃ source bound, driverIn (host.topologyFor tap.path tap.defId) tap.target = some source ∧
      Leads (host.routeAdapter tables .exact (some type) delivery) terminal []
        (.endpoint tap.path tap.defId source none) bound) ∨
    (driverIn (host.topologyFor tap.path tap.defId) tap.target = none ∧
      .terminal terminal ∈ (host.routeTap tables .exact tap.path tap.defId tap.node
        tap.input).steps) := by
  have routes : (host.routeAdapter tables .exact (some type) delivery).route (tap.vertex typeId) =
      (host.doc.graph? tap.defId).elim (deadEnd []) fun _ =>
        host.routeTap tables .exact tap.path tap.defId tap.node tap.input := by
    change host.routeVertex tables .exact (some type) delivery (tap.vertex typeId) = _
    unfold routeVertex TapAt.vertex
    dsimp only
    cases host.doc.graph? tap.defId <;> rfl
  cases defined : host.doc.graph? tap.defId with
  | none =>
    rw [defined, Option.elim_none] at routes
    cases leads with
    | ends _ met =>
      rw [routes] at met
      have dead := RoutedStep.terminal.inj (mem_singleton.mp met)
      exact absurd dead live
    | onward _ taken _ =>
      rw [routes] at taken
      exact absurd (mem_singleton.mp taken) (by simp)
  | some definition =>
    rw [defined, Option.elim_some] at routes
    cases driven : driverIn (host.topologyFor tap.path tap.defId) tap.target with
    | some source =>
      have follows : host.routeTap tables .exact tap.path tap.defId tap.node tap.input =
          through (.endpoint tap.path tap.defId source none) := by
        unfold routeTap
        change driverIn _ (.port ⟨tap.node, tap.input, []⟩) = _ at driven
        rw [driven]
      rw [follows] at routes
      cases leads with
      | ends _ met =>
        rw [routes] at met
        exact absurd (mem_singleton.mp met) (by simp)
      | onward _ taken rest =>
        rw [routes] at taken
        rw [RoutedStep.recurse.inj (mem_singleton.mp taken)] at rest
        exact .inl ⟨source, _, rfl, rest.forget fun _ none => absurd none not_mem_nil⟩
    | none =>
      apply Or.inr
      refine ⟨rfl, ?_⟩
      cases leads with
      | ends _ met =>
        rw [routes] at met
        exact met
      | onward _ taken _ =>
        rw [routes] at taken
        have ends : ∃ last, (host.routeTap tables .exact tap.path tap.defId tap.node
            tap.input).steps = [.terminal last] := by
          unfold routeTap
          change driverIn _ (.port ⟨tap.node, tap.input, []⟩) = _ at driven
          rw [driven]
          dsimp only
          split <;> exact ⟨_, rfl⟩
        cases ends with
        | intro last ends =>
          rw [ends] at taken
          exact absurd (mem_singleton.mp taken) (by simp)

end Routing

/-! ## Literals -/

theorem marks_of_baked {consumer : FlatNode} {input : ElaboratedInput} {lowered : Json}
    {typeId : Option String}
    (lowers : (host.bakeLiteral consumer input value typeId).1 = some lowered) :
    Marks value lowered := by
  revert lowers
  unfold bakeLiteral
  dsimp only
  apply iteInduction (motive := fun outcome : Option Json × List Diagnostic =>
    outcome.1 = some lowered → Marks value lowered)
  · intro _
    apply iteInduction (motive := fun outcome : Option Json × List Diagnostic =>
      outcome.1 = some lowered → Marks value lowered)
    · exact fun _ lowers => marks_of_lowered lowers
    · exact fun _ refused => absurd refused (by simp)
  · intro _
    apply iteInduction (motive := fun outcome : Option Json × List Diagnostic =>
      outcome.1 = some lowered → Marks value lowered)
    · intro _ lowers
      split at lowers
      · cases lowers
        exact .typed _
      · simp at lowers
    · intro _ lowers
      cases lowers
      exact .plain

theorem readTapped_value (input : ElaboratedInput) (typeId : String) (value : Json) :
    (readTapped input typeId value).1 = unmarked value := by
  unfold readTapped unmarked
  split <;> simp_all

theorem written_or_held {key : String} : ∀ {writes inputs : List (String × Json)},
      getField (applyWrites inputs writes) key = some value →
        (key, value) ∈ writes ∨ getField inputs key = some value
  | [], _, held => .inr held
  | write :: writes, inputs, held => by
    change getField (applyWrites (setField inputs write.1 write.2) writes) key = _ at held
    cases written_or_held held with
    | inl later => exact .inl (mem_cons_of_mem _ later)
    | inr now =>
      rw [getField_setField] at now
      split at now
      · rename_i same
        apply Or.inl
        rw [← same, ← some.inj now]
        exact mem_cons_self
      · exact .inr now

theorem isSome_getField_applyWrites {key : String} : ∀ {writes inputs : List (String × Json)},
      key ∈ writes.map (·.1) ∨ (getField inputs key).isSome = true →
        (getField (applyWrites inputs writes) key).isSome = true
  | [], _, written => written.resolve_left not_mem_nil
  | write :: writes, inputs, written => by
    change (getField (applyWrites (setField inputs write.1 write.2) writes) key).isSome = true
    apply isSome_getField_applyWrites
    rw [getField_setField]
    by_cases same : write.1 = key
    · rw [if_pos same]
      exact .inr rfl
    · rw [if_neg same]
      cases written with
      | inr held => exact .inr held
      | inl listed =>
        rw [map_cons] at listed
        exact .inl (mem_of_ne_of_mem (Ne.symm same) listed)

section Entries

variable {scope : ExecutionScope} {port : String × ElaboratedInput} {fn : FlatNode}
  {value : Json}

section

variable (entry : host.Entry mode scope port fn value)

include entry

theorem Entry.completed : getField (host.withDefaults fn).inputs port.2.spec.id = some value := by
  cases entry.submits with
  | intro name submits =>
    unfold submitted at submits
    split at submits
    · rename_i held
      split at submits
      · simp at submits
      · rw [held, (Prod.mk.inj (some.inj submits)).2]
    · simp at submits

theorem Entry.eq_held {held : Json} (holds : getField fn.inputs port.2.spec.id = some held) :
    value = held := by
  have completed := entry.completed
  rw [host.getField_withDefaults holds] at completed
  exact (some.inj completed).symm

theorem Entry.shown (empty : getField fn.inputs port.2.spec.id = none) :
    ∃ shown, port.2.spec.widget.bind host.widgetDefault = some shown ∧ Marks shown value := by
  cases written_or_held entry.completed with
  | inr held =>
    rw [empty] at held
    simp at held
  | inl written =>
    obtain ⟨input, declared, defaults⟩ := mem_flatMap.mp written
    unfold defaultWrites at defaults
    split at defaults
    · split at defaults
      · rename_i shown shows
        have staged := mem_stagedLiteral defaults
        have same := fn.interface.eq_of_key declared entry.declared staged.1.symm
        rw [same] at shows staged
        refine ⟨shown, ?_, marks_of_lowered staged.2⟩
        unfold shownValue at shows
        obtain ⟨widget, widgeted, shows⟩ := bind_eq_some_iff.mp shows
        rw [widgeted]
        split at shows
        · exact shows
        · simp at shows
      · exact absurd defaults not_mem_nil
    · exact absurd defaults not_mem_nil

end

theorem staged_of_promoted {input : ElaboratedInput} (declared : input ∈ fn.interface.inputs)
    (valid : hasErrors (host.literalSink fn) = false)
    (promoted : host.promoted.overrides.lookup (fn.runtimeId, input.spec.id) = some value) :
    (getField (applyWrites [] (host.literalWrites fn)) input.spec.id).isSome = true := by
  have entry : ((fn.runtimeId, input.spec.id), value) ∈ host.promoted.overrides := by
    obtain ⟨before, after, same, _⟩ := lookup_eq_some_iff.mp promoted
    rw [same]
    exact mem_append_right _ mem_cons_self
  apply isSome_getField_applyWrites
  apply Or.inl
  have found : fn.interface.inputs.find? (·.spec.id = input.spec.id) = some input := by
    cases found : fn.interface.inputs.find? (·.spec.id = input.spec.id) with
    | none => exact absurd (List.find?_eq_none.mp found input declared) (by simp)
    | some other =>
      have filed : other.spec.id = input.spec.id := by simpa using find?_some found
      rw [fn.interface.eq_of_key (mem_of_find?_eq_some found) declared filed]
  unfold literalSink at valid
  rw [not_hasErrors_append, not_hasErrors_flatMap, not_hasErrors_flatMap] at valid
  have accepted := valid.2 _ entry
  dsimp only at accepted
  rw [if_neg (by simp), found] at accepted
  obtain ⟨lowered, lowers⟩ := lowered_of_accepted accepted
  apply List.mem_map.mpr
  refine ⟨(input.spec.id, lowered), ?_, rfl⟩
  unfold literalWrites
  apply mem_append_left
  apply mem_append_right
  apply mem_flatMap.mpr
  refine ⟨_, entry, ?_⟩
  unfold promotedWrite
  dsimp only
  rw [if_neg (by simp), found]
  dsimp only
  rw [stagedLiteral_of_lowered lowers]
  exact mem_singleton_self _

end Entries

/-! ## Settled taps -/

section Settling

variable {before : Staging} {path : List String} {defId : String}
  {connection : TopologyConnection} {consumer tapped : String × ElaboratedInput}
  {terminal : RouteTerminal} {scope : ExecutionScope} {tap : TapAt} {fn : FlatNode}

variable {linked : Bool} {value : Json}

variable {input : ElaboratedInput} {earlier : Staging} {other : TopologyConnection}

/-- What is delivered is neither muted nor dropped. -/
theorem Leaves.live (leaves : host.Leaves input terminal value linked) : terminal ≠ .dropped := by
  cases leaves <;> simp

theorem Leaves.marks {literal : Json} {typeId : Option String}
    (leaves : host.Leaves input (.value literal typeId) value linked) :
    linked = false ∧ Marks literal value := by
  cases leaves with
  | value lowers => exact ⟨rfl, marks_of_baked lowers⟩

theorem coherent_of_terminal {otherPath : List String} {otherDef : String} {otherValue : Json}
    {otherLinked : Bool}
    (delivered : host.DeliveredBy mode before path defId connection consumer terminal value linked)
    (feeds : host.DeliveredBy mode earlier otherPath otherDef other tapped terminal otherValue
      otherLinked) : host.Coherent mode scope tapped consumer := by
  intro tappedNode consumerNode tappedValue consumerValue tappedEntry consumerEntry
  have holds := delivered.last.holding consumerEntry.found
  have feeding := feeds.last.holding tappedEntry.found
  have consumed := consumerEntry.eq_held (congrArg Prod.fst holds)
  have tapping := tappedEntry.eq_held (congrArg Prod.fst feeding)
  have marked : consumerNode.linkedInputs.contains consumer.2.spec.id = linked :=
    congrArg Prod.snd holds
  have tapMarked : tappedNode.linkedInputs.contains tapped.2.spec.id = otherLinked :=
    congrArg Prod.snd feeding
  rw [consumed, tapping, marked, tapMarked]
  have leaves := delivered.leaves
  have feedLeaves := feeds.leaves
  cases terminal with
  | output output =>
    cases leaves
    cases feedLeaves
    rw [if_pos rfl]
    exact ⟨rfl, rfl⟩
  | value literal typeId =>
    have first := leaves.marks
    have second := feedLeaves.marks
    rw [second.1, if_neg Bool.false_ne_true]
    exact ⟨literal, .inl first.2, .inl second.2⟩
  | muted | dropped => cases leaves

theorem terminal_of_driven {source : LinkEndpoint} {otherTerminal : RouteTerminal}
    (same : other.source = source)
    (ends : host.Ends mode earlier tap.path tap.defId other tapped.2.spec.type otherTerminal)
    (live : otherTerminal ≠ .dropped) {length : Nat}
    (leads : Leads (host.routeAdapter (host.tables mode before) .exact (some consumer.2.spec.type)
      connection.delivery) terminal [] (.endpoint tap.path tap.defId source none) length)
    (alike : ∀ next, Relation.ReflTransGen (fun vertex next => .recurse next ∈
        (host.routeVertex (host.tables mode before) .exact (some consumer.2.spec.type)
          connection.delivery vertex).steps) (.endpoint tap.path tap.defId source none) next →
      (host.routeVertex (host.tables mode earlier) .exact (some tapped.2.spec.type)
          other.delivery next).steps =
        (host.routeVertex (host.tables mode before) .exact (some consumer.2.spec.type)
          connection.delivery next).steps) : otherTerminal = terminal := by
  have simulated : Leads (host.routeAdapter (host.tables mode earlier) .exact
      (some tapped.2.spec.type) other.delivery) terminal []
      (.endpoint tap.path tap.defId source none) length := by
    apply leads.simulate_from
    · intro vertex
      rfl
    · exact alike
  obtain ⟨bound, direct⟩ := ends.leads live
  rw [same] at direct
  exact simulated.unique (fun vertex => routeVertex_steps _ _ _ vertex) direct

/-- What a tap that is not driven delivers: what is staged at the tapped input, without its
marker, else its promoted value, else what it falls back to. -/
theorem literal_of_undriven {tables : RouteTables} (live : terminal ≠ .dropped)
    (undriven : driverIn (host.topologyFor tap.path tap.defId) tap.target = none)
    (taps : host.Taps tap tapped)
    (met : .terminal terminal ∈ (host.routeTap tables .exact tap.path tap.defId tap.node
      tap.input).steps) : ∃ literal typeId, terminal = .value literal typeId ∧
      match tables.staged tapped.1 tapped.2.spec.id with
      | some staged => literal = unmarked staged
      | none => (tables.overrides tapped.1 tapped.2.spec.id).isSome = true ∨
          host.tapFallback tap.defId tap.node tapped.2 = some literal := by
  obtain ⟨rest, tapped⟩ := taps
  unfold routeTap at met
  change driverIn _ (.port ⟨tap.node, tap.input, []⟩) = _ at undriven
  rw [undriven] at met
  dsimp only at met
  unfold tapValue at met
  generalize host.tappedInputs tap.path tap.defId tap.node tap.input = outcome at tapped met
  obtain ⟨resolved, sink⟩ := outcome
  change resolved = _ at tapped
  subst tapped
  dsimp only at met
  split at met
  · rename_i muted
    split at muted
    · simp at muted
    · split at muted
      · simp at muted
      · split at muted <;> simp at muted
  · exact absurd (RoutedStep.terminal.inj (mem_singleton.mp met)) live
  · rename_i literal typeId found reads
    refine ⟨literal, some typeId, RoutedStep.terminal.inj (mem_singleton.mp met), ?_⟩
    split at reads
    · simp at reads
    · rename_i declared concrete
      cases staged : tables.staged _ _ with
      | some value =>
        rw [staged, some_or] at reads
        have read := (TapValue.value.inj (congrArg Prod.fst reads)).1
        rw [← read]
        exact readTapped_value _ _ _
      | none =>
        dsimp only
        cases promoted : tables.overrides _ _ with
        | some value => exact .inl rfl
        | none =>
          rw [staged, promoted, none_or] at reads
          dsimp only at reads
          split at reads
          · rename_i value fallback
            have read := (TapValue.value.inj (congrArg Prod.fst reads)).1
            rw [← read]
            exact .inr fallback
          · simp at reads

/-- A tap that is not driven agrees with a tapped input that holds what it is emitted with. -/
theorem coherent_of_held (reaches : host.reachesEmission mode scope = true)
    (exact : mode.wouldRun = false)
    (delivered : host.DeliveredBy mode before path defId connection consumer terminal value linked)
    (undriven : driverIn (host.topologyFor tap.path tap.defId) tap.target = none)
    (unlinked : ∀ fn, before.node? tapped.1 = some fn →
      fn.linkedInputs.contains tapped.2.spec.id = false)
    (quiet : host.Lowers mode (elsewhere tapped) before (host.staged mode))
    (stored : (host.tables mode before).staged tapped.1 tapped.2.spec.id = none →
      ∀ data, host.node? tap.defId tap.node = some data →
        getField data.values.fields tapped.2.valueKey = none) (taps : host.Taps tap tapped)
    (met : .terminal terminal ∈ (host.routeTap (host.tables mode before) .exact tap.path
      tap.defId tap.node tap.input).steps) : host.Coherent mode scope tapped consumer := by
  intro tappedNode consumerNode tappedValue consumerValue tappedEntry consumerEntry
  have leaves := delivered.leaves
  obtain ⟨literal, typeId, same, reads⟩ := literal_of_undriven leaves.live undriven taps met
  rw [same] at leaves
  have consumed := consumerEntry.eq_held
    (congrArg Prod.fst (delivered.last.holding consumerEntry.found))
  have marks : Denotes literal consumerValue := by
    rw [consumed]
    exact .inl leaves.marks.2
  have kept := @Lowers.holding host mode _ _ _ quiet tapped fun apart => apart rfl
  rw [tappedEntry.found, map_some] at kept
  cases earlier : before.node? tapped.1 with
  | none =>
    rw [earlier] at kept
    simp at kept
  | some tappedBefore =>
    rw [earlier, map_some] at kept
    have holding := some.inj kept
    have staged : (host.tables mode before).staged tapped.1 tapped.2.spec.id =
        getField tappedNode.inputs tapped.2.spec.id := by
      change (before.node? tapped.1).bind _ = _
      rw [earlier]
      exact (congrArg Prod.fst holding).symm
    have unmarkedLink : tappedNode.linkedInputs.contains tapped.2.spec.id = false :=
      (congrArg Prod.snd holding).trans (unlinked tappedBefore earlier)
    rw [unmarkedLink, if_neg Bool.false_ne_true]
    refine ⟨literal, marks, ?_⟩
    rw [staged] at reads stored
    cases held : getField tappedNode.inputs tapped.2.spec.id with
    | some heldValue =>
      rw [held] at reads
      rw [tappedEntry.eq_held held]
      exact .inr reads.symm
    | none =>
      rw [held] at reads
      obtain ⟨shown, shows, marks⟩ := tappedEntry.shown held
      have listed := mem_of_find?_eq_some tappedEntry.found
      have named : tappedNode.runtimeId = tapped.1 := by
        simpa using find?_some tappedEntry.found
      cases reads with
      | inl promoted =>
        obtain ⟨override, promoted⟩ := Option.isSome_iff_exists.mp promoted
        have valid := valid_of_reachesEmission reaches listed tappedEntry.executed
        have undelivered : (tappedNode.runtimeId, tapped.2.address) ∉
            (host.staged mode).delivered := by
          intro delivered
          obtain ⟨_, destination, _, _, ported, reached, delivers, kept⟩ :=
            lowers_staged.last exact delivered
          have placed : destination.1 = tapped.1 := (congrArg Prod.fst ported).trans named
          have keyed : destination.2.spec.id = tapped.2.spec.id := by
            rw [destination.2.filed, tapped.2.filed]
            exact congrArg elabKeyOf (congrArg Prod.snd ported)
          have holds := LastDelivery.holding ⟨reached, delivers, kept⟩ (placed ▸ tappedEntry.found)
          rw [keyed] at holds
          have filled := congrArg Prod.fst holds
          change getField tappedNode.inputs tapped.2.spec.id = _ at filled
          rw [held] at filled
          simp at filled
        have untouched := (@staged_framed host mode).untouched tappedNode listed tapped.2
          tappedEntry.declared undelivered
        have some := staged_of_promoted tappedEntry.declared valid (by
          rw [named]
          exact promoted)
        rw [← untouched.held, held] at some
        exact absurd some Bool.false_ne_true
      | inr fallback =>
        unfold tapFallback at fallback
        have unstored : ((host.node? tap.defId tap.node).bind fun data =>
            getField data.values.fields tapped.2.valueKey) = none := by
          cases defined : host.node? tap.defId tap.node with
          | none => rfl
          | some data => exact stored held data defined
        rw [unstored, none_or, shows] at fallback
        cases fallback
        exact .inl marks

end Settling

/-! ## Taps of plain nodes -/

variable {free : String × PortAddress → Prop}

/-- Two stretches of lowering make one. -/
theorem Lowers.trans {first second third : Staging} (before : host.Lowers mode free first second)
    (after : host.Lowers mode free second third) : host.Lowers mode free first third := by
  induction after with
  | here => exact before
  | report sink _ ih => exact ih.report sink
  | record previews _ ih => exact ih.record previews
  | deliver allowed delivers _ ih => exact ih.deliver allowed delivers

theorem Lowers.weaken {start : Staging} (lowers : host.Lowers mode free start final) :
    host.Lowers mode anywhere start final := by
  induction lowers with
  | here => exact .here
  | report sink _ ih => exact ih.report sink
  | record previews _ ih => exact ih.record previews
  | deliver _ delivers _ ih => exact ih.deliver trivial delivers

theorem Lowers.avoids {start : Staging} (lowers : host.Lowers mode free start final)
    (undelivered : portOf destination ∉ final.delivered) :
    host.Lowers mode (elsewhere destination) start final := by
  induction lowers with
  | here => exact .here
  | report sink _ ih => exact (ih undelivered).report sink
  | record previews _ ih =>
    exact (ih fun listed => undelivered (mem_append_left _ listed)).record previews
  | @deliver staging target _ _ _ delivers _ ih =>
    have earlier := ih fun listed => undelivered (mem_append_left _ listed)
    apply earlier.deliver _ delivers
    intro same
    apply undelivered
    rw [← same]
    exact mem_append_right _ (mem_singleton_self _)

theorem resolveInputPort_leaf {delivery : Option Delivery} {openRegion : Option String}
    {fuel : Nat} {path : List String} {defId : String} {ref : PortRef} {data : NodeData}
    {schema : NodeSchema} {input : ElaboratedInput}
    (found : host.node? defId ref.node = some data) (active : data.mode = .active)
    (leaf : subgraphDefIdOf data.type = none) (known : host.schemaOf defId data = some schema)
    (declared : (host.interfaceAt path defId data.id).input? ref.address = some input)
    (wired : input.apiName.isNone = false) (materialized : input.synthetic = false)
    (plain : ∀ construct selected, input.origin ≠ .selector construct selected)
    (kept : host.suppressed path delivery [] = false) :
    host.resolveInputPort delivery openRegion (fuel + 1) path defId ref [] =
      (.targets [.node (runtimeIdAt path data.id) input], []) := by
  unfold resolveInputPort
  rw [found]
  dsimp only
  rw [active]
  dsimp only
  rw [leaf]
  dsimp only
  unfold resolveLeafInput
  rw [known, declared]
  dsimp only
  rw [wired, materialized, kept]
  cases origin : input.origin with
  | selector construct selected => exact absurd origin (plain construct selected)
  | _ => rfl

def onlyTapped (host : Host) (tap : TapAt) (target : PortRef) (port : String × PortAddress) :
    Bool :=
  (host.collected.contexts.all fun context =>
    (host.admitted context.1 context.2).all fun entry =>
      (nodeInputs (host.destinations context.1 context.2 entry.1 entry.2).1.inputs).all
        fun destination => portOf destination ≠ port ||
          (context = (tap.path, tap.defId) && entry.1.source = .tap tap.node tap.input &&
            entry.2 = target)) &&
  host.collected.regions.all fun region =>
    match host.doc.graph? region.childId with
    | none => true
    | some child => child.boundaryInputs.all fun item =>
      (nodeInputs (host.regionTargets region item).1.inputs).all
        fun destination => portOf destination ≠ port

theorem deliveredBy_of_onlyTapped {tap : TapAt} {target : PortRef} (exact : mode.wouldRun = false)
    (only : host.onlyTapped tap target port = true)
    (delivered : port ∈ (host.staged mode).delivered) :
    ∃ before connection destination terminal value linked, portOf destination = port ∧
      host.DeliveredBy mode before tap.path tap.defId connection destination terminal value linked ∧
      host.Traces mode before tap.path tap.defId connection destination.2.spec.type terminal tap ∧
      destination ∈
        nodeInputs (host.destinations tap.path tap.defId connection target).1.inputs := by
  obtain ⟨before, destination, value, linked, ported, reached, delivers, kept⟩ :=
    lowers_staged.last exact delivered
  unfold onlyTapped at only
  rw [Bool.and_eq_true, List.all_eq_true, List.all_eq_true] at only
  have tapped : ∀ {path defId connection}, host.Destined path defId connection destination →
      path = tap.path ∧ defId = tap.defId ∧ connection.source = .tap tap.node tap.input ∧
        destination ∈
          nodeInputs (host.destinations path defId connection target).1.inputs := by
    intro path defId connection destined
    obtain ⟨into, admitted, listed⟩ := destined.admitted
    have entry := only.1 _ destined.context
    rw [List.all_eq_true] at entry
    have ends := entry _ admitted
    rw [List.all_eq_true] at ends
    have test := ends _ listed
    simp only [Bool.or_eq_true, decide_eq_true_eq, Bool.and_eq_true, ported, ne_eq,
      not_true_eq_false, false_or, Prod.mk.injEq] at test
    rw [test.2] at listed
    exact ⟨test.1.1.1, test.1.1.2, test.1.2, listed⟩
  have last : host.LastDelivery mode before destination value linked := ⟨reached, delivers, kept⟩
  cases last.cases with
  | inl came =>
    obtain ⟨path, defId, connection, terminal, came⟩ := came
    obtain ⟨rfl, rfl, source, listed⟩ := tapped came.destined
    refine ⟨before, connection, destination, terminal, value, linked, ported, came, ?_, listed⟩
    have begins : (host.connectionSource tap.path tap.defId connection).1 =
        .route (tap.vertex none) := by
      unfold connectionSource
      rw [source]
      rfl
    refine ⟨tap.vertex none, none, begins, ?_⟩
    obtain ⟨length, leads⟩ := came.ends.leads came.leaves.live
    rw [source] at leads
    exact .here leads
  | inr others =>
    cases others with
    | inl index =>
      obtain ⟨path, defId, connection, destined, source⟩ := index
      obtain ⟨_, _, tapSource, _⟩ := tapped destined
      unfold connectionSource at source
      rw [tapSource] at source
      simp at source
    | inr inside =>
      obtain ⟨region, listed, child, defined, item, bound, targeted⟩ := inside
      have apart := only.2 _ listed
      rw [defined] at apart
      dsimp only at apart
      rw [List.all_eq_true] at apart
      have apart := apart _ bound
      rw [List.all_eq_true] at apart
      have apart := apart _ targeted
      simp [ported] at apart

theorem settled_of_undelivered {before : Staging} {consumer tapped : String × ElaboratedInput}
    {literal : Json} {linked : Bool} {delivery : Option Delivery} {type : TypeExpr} {tap : TapAt}
    {fn : FlatNode} (last : host.LastDelivery mode before consumer value linked)
    (undriven : driverIn (host.topologyFor tap.path tap.defId) tap.target = none)
    (undelivered : portOf tapped ∉ (host.staged mode).delivered)
    (found : (host.staged mode).node? tapped.1 = some fn)
    (holds : fn.holding tapped.2.spec.id = (some literal, false)) :
    host.Settled mode before delivery type tap tapped := by
  have onward : host.Lowers mode anywhere before (host.staged mode) := by
    have delivers : host.Lowers mode anywhere before
        (before.deliver consumer.1 consumer.2 value linked) :=
      .deliver trivial last.delivers .here
    exact delivers.trans last.kept.weaken
  have quiet := onward.avoids undelivered
  have same := @Lowers.holding host mode _ _ _ quiet tapped fun apart => apart rfl
  rw [found, map_some, holds] at same
  apply Settled.held undriven _ quiet
  · intro empty
    change (before.node? tapped.1).bind _ = none at empty
    cases earlier : before.node? tapped.1 with
    | none =>
      rw [earlier] at same
      simp at same
    | some tappedBefore =>
      rw [earlier, map_some] at same
      rw [earlier, bind_some] at empty
      have held := congrArg Prod.fst (some.inj same)
      change some literal = getField tappedBefore.inputs tapped.2.spec.id at held
      rw [empty] at held
      simp at held
  · intro tappedBefore earlier
    rw [earlier, map_some] at same
    exact (congrArg Prod.snd (some.inj same)).symm

theorem interface_of_staged {fn : FlatNode} (listed : fn ∈ (host.staged mode).flat) :
    fn.interface = host.interfaceAt fn.path fn.graphId fn.node.id := by
  have collected : fn.bare ∈ host.collected.flat := by
    rw [← staged_framed.collected]
    exact List.mem_map_of_mem listed
  have gathered : Gathers (fun fn => fn.interface = host.interfaceAt fn.path fn.graphId fn.node.id)
      (fun _ => True) host.collected :=
    collectNodes_induct (fun _ _ _ _ => rfl) (fun _ _ _ _ _ => trivial) _ _ _
  exact gathered.nodes fn.bare collected

end Host

/-! ## A tap of a region port -/

section Fixture

def numberTypes : String → Option NodeType
  | "Show" => some ⟨⟨true, false, none⟩,
      unaryInterface (staticInput "value" (.list (.concrete "INT"))) []⟩
  | "Make" => some ⟨⟨false, false, none⟩,
      staticInterface [] [staticOutput "made" (.list (.concrete "INT"))]⟩
  | "Take" => some ⟨⟨false, false, none⟩,
      unaryInterface (staticInput "value" (.concrete "INT"))
        [staticOutput "taken" (.concrete "INT")]⟩
  | "#body" => some ⟨⟨false, false, none⟩,
      unaryInterface (staticInput "item" (.list (.concrete "INT")))
        [staticOutput "result" (.list (.concrete "INT"))]⟩
  | _ => none

def storing (id type : String) (number : Rat) : NodeData :=
  activeNode id type [("value", .num number)] (nodup_singleton _)

/-- A region whose body copies a tapped number, which the region's port may feed. -/
def tappedRegion (fed : Binding) : Workflow where
  root := "root"
  graphs := [
    ⟨"root", [activeNode "make" "Make" [],
        instanceNode "loop" "body" (some (mapRegion ["item"])), activeNode "show" "Show" []],
      [portLink "feed" "make" "made" "loop" "item",
        portLink "out" "loop" "result" "show" "value"], [], [], [], [], none⟩,
    ⟨"body", [storing "take" "Take" 5, activeNode "copy" "Take" []],
      [⟨"tap", .tap "take" "value", .port ⟨"copy", "value", []⟩⟩], [], [], [], [],
      some ([⟨"item", fed, [], false⟩], [⟨"result", .port ⟨"copy", "taken", []⟩ none, [], false⟩])⟩]

/-- A compile of such a document. -/
def tappedHost (fed : Binding) : Host :=
  .static (tappedRegion fed) 3 numberTypes

/-- The tapped number in the body. -/
def takeTap : Host.TapAt := ⟨["loop"], "body", "take", "value"⟩

/-- The port that feeds the tapped number. -/
def takePort : Binding := .port ⟨"take", "value", []⟩ none

example : ((tappedHost takePort).artifact unchosen unchecked .full).prompt.map
    (fun entry => (entry.1, entry.2.inputs)) = [
      ("make", []), ("loop", [("item", .arr [.str "make", .num 0])]),
      ("loop.take", [("value", linkWire regionPseudoNode "item")]),
      ("loop.copy", [("value", .num 5)]), ("show", [("value", .arr [.str "loop", .num 0])])] := by
  decide +kernel

def numberInput : ElaboratedInput :=
  staticInput "value" (.concrete "INT")

variable {fed : Binding}

theorem interfaceAt_body {node : String} (listed : node = "take" ∨ node = "copy") :
    (tappedHost fed).interfaceAt ["loop"] "body" node =
      staticInterface [numberInput] [staticOutput "taken" (.concrete "INT")] := by
  cases listed with
  | inl take =>
    subst take
    rfl
  | inr copy =>
    subst copy
    rfl

theorem resolveInputPort_body {node : String} {delivery : Option Delivery}
    (listed : node = "take" ∨ node = "copy") :
    (tappedHost fed).resolveInputPort delivery none 3 ["loop"] "body" ⟨node, "value", []⟩ [] =
      (.targets [.node (runtimeIdAt ["loop"] node) numberInput], []) := by
  cases listed with
  | inl take =>
    subst take
    exact @Host.resolveInputPort_leaf (tappedHost fed) delivery none 2 ["loop"] "body"
      ⟨"take", "value", []⟩ (storing "take" "Take" 5) ⟨false, false, none⟩ numberInput
      rfl rfl (by decide +kernel) rfl rfl rfl rfl (by simp [numberInput, staticInput]) rfl
  | inr copy =>
    subst copy
    exact @Host.resolveInputPort_leaf (tappedHost fed) delivery none 2 ["loop"] "body"
      ⟨"copy", "value", []⟩ (activeNode "copy" "Take" []) ⟨false, false, none⟩ numberInput
      rfl rfl (by decide +kernel) rfl rfl rfl rfl (by simp [numberInput, staticInput]) rfl

def emitsNumber (fed : Binding) (node : String) (value : Json) (linked : Bool) : Bool :=
  let host := tappedHost fed
  let staging := host.staged unchosen
  match staging.node? (runtimeIdAt ["loop"] node) with
  | none => false
  | some fn =>
    fn.path = ["loop"] && fn.graphId = "body" && fn.node.id = node &&
      (host.executed unchosen staging .full).contains fn.runtimeId &&
      host.submitted staging.delivered (host.withDefaults fn) numberInput =
        some ("value", value) &&
      fn.holding numberInput.spec.id = (some value, linked)

theorem entry_of_emitsNumber {fed : Binding} {node : String} {value : Json} {linked : Bool}
    (listed : node = "take" ∨ node = "copy") (emits : emitsNumber fed node value linked = true) :
    ∃ fn, (tappedHost fed).Entry unchosen .full (runtimeIdAt ["loop"] node, numberInput) fn value ∧
      fn.holding numberInput.spec.id = (some value, linked) := by
  unfold emitsNumber at emits
  dsimp only at emits
  split at emits
  · exact absurd emits Bool.false_ne_true
  · rename_i fn found
    simp only [Bool.and_eq_true, decide_eq_true_eq, contains_iff_mem] at emits
    obtain ⟨⟨⟨⟨⟨placed, defined⟩, named⟩, executed⟩, submits⟩, holds⟩ := emits
    refine ⟨fn, ⟨found, executed, ?_, ⟨"value", submits⟩⟩, holds⟩
    rw [Host.interface_of_staged (mem_of_find?_eq_some found), placed, defined, named,
      interfaceAt_body listed]
    exact mem_singleton_self _

theorem copy_deliveredBy {fed : Binding}
    (only : (tappedHost fed).onlyTapped takeTap ⟨"copy", "value", []⟩
      (runtimeIdAt ["loop"] "copy", numberInput.address) = true)
    (delivered : (runtimeIdAt ["loop"] "copy", numberInput.address) ∈
      ((tappedHost fed).staged unchosen).delivered) : ∃ before connection terminal value linked,
      (tappedHost fed).DeliveredBy unchosen before ["loop"] "body" connection
        (runtimeIdAt ["loop"] "copy", numberInput) terminal value linked ∧
      (tappedHost fed).Traces unchosen before ["loop"] "body" connection numberInput.spec.type
        terminal takeTap := by
  obtain ⟨before, connection, destination, terminal, value, linked, _, came, traces, listed⟩ :=
    Host.deliveredBy_of_onlyTapped rfl only delivered
  unfold Host.destinations at listed
  change destination ∈ Host.nodeInputs ((tappedHost fed).resolveInputPort connection.delivery none 3
    ["loop"] "body" ⟨"copy", "value", []⟩ []).1.inputs at listed
  rw [resolveInputPort_body (.inr rfl)] at listed
  have same : destination = (runtimeIdAt ["loop"] "copy", numberInput) := mem_singleton.mp listed
  subst same
  exact ⟨before, connection, terminal, value, linked, came, traces⟩

/-- The tap of the body reads the number input of the node it names. -/
theorem taps_take : (tappedHost fed).Taps takeTap (runtimeIdAt ["loop"] "take", numberInput) := by
  have resolved : (tappedHost fed).resolveInputPort none none (tappedHost fed).depth takeTap.path
      takeTap.defId ⟨takeTap.node, takeTap.input, []⟩ [] =
        (.targets [.node (runtimeIdAt ["loop"] "take") numberInput], []) :=
    resolveInputPort_body (.inl rfl)
  unfold Host.Taps Host.tappedInputs
  rw [resolved]
  exact ⟨[], rfl⟩

end Fixture

end Dinkster.Compile
