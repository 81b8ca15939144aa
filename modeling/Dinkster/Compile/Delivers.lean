import Dinkster.Compile.Lower

/-!
# What lowering can do

Lowering touches the staging state in three ways: it reports diagnostics, a preview
records the producers of a destination, and a delivery replaces the value of one input.
Every invariant of a staged document follows from the one rule below and from the list of
the deliveries there are.
-/

namespace Dinkster.Compile

open Format List

namespace Host

variable {host : Host} {mode : Mode}

structure Destined (host : Host) (path : List String) (defId : String)
    (connection : TopologyConnection) (destination : String × ElaboratedInput) : Prop where
  context : (path, defId) ∈ host.collected.contexts
  admitted : ∃ target, (connection, target) ∈ host.admitted path defId ∧
    destination ∈ nodeInputs (host.destinations path defId connection target).1.inputs

/-- The deliveries lowering makes. -/
inductive Delivers (host : Host) (mode : Mode) (staging : Staging) :
    String × ElaboratedInput → Json → Bool → Prop where
  | index {path : List String} {defId : String} {connection : TopologyConnection}
      {destination : String × ElaboratedInput}
      (destined : host.Destined path defId connection destination)
      (source : (host.connectionSource path defId connection).1 = .regionIndex) :
      Delivers host mode staging destination (linkWire regionPseudoNode "index") true
  | direct {path : List String} {defId : String} {connection : TopologyConnection}
      {destination : String × ElaboratedInput} {output : ResolvedOutput}
      (destined : host.Destined path defId connection destination)
      (source : (host.connectionSource path defId connection).1 = .output output)
      (produced : staging.has output.runtimeId = true) :
      Delivers host mode staging destination (linkValue output) true
  | routed {path : List String} {defId : String} {connection : TopologyConnection}
      {destination : String × ElaboratedInput} {start : RouteVertex} {output : ResolvedOutput}
      (destined : host.Destined path defId connection destination)
      (source : (host.connectionSource path defId connection).1 = .route start)
      (ended : (host.projectRoute (host.tables mode staging) .exact
        (some destination.2.spec.type) connection.delivery start).1.head? =
          some (.output output))
      (produced : staging.has output.runtimeId = true) :
      Delivers host mode staging destination (linkValue output) true
  | baked {path : List String} {defId : String} {connection : TopologyConnection}
      {destination : String × ElaboratedInput} {start : RouteVertex} {value lowered : Json}
      {typeId : Option String} {consumer : FlatNode}
      (destined : host.Destined path defId connection destination)
      (source : (host.connectionSource path defId connection).1 = .route start)
      (ended : (host.projectRoute (host.tables mode staging) .exact
        (some destination.2.spec.type) connection.delivery start).1.head? =
          some (.value value typeId))
      (consumed : staging.node? destination.1 = some consumer)
      (lowers : (host.bakeLiteral consumer destination.2 value typeId).1 = some lowered) :
      Delivers host mode staging destination lowered false
  | regionPort {region : RegionLowering} {child : GraphDef} {item : BoundaryItem}
      {target : String × ElaboratedInput}
      (listed : region ∈ host.collected.regions)
      (defined : host.doc.graph? region.childId = some child)
      (bound : item ∈ child.boundaryInputs)
      (targeted : target ∈ nodeInputs (host.regionTargets region item).1.inputs) :
      Delivers host mode staging target (linkWire regionPseudoNode item.id) true

theorem Delivers.report {staging : Staging} {destination : String × ElaboratedInput}
    {value : Json} {linked : Bool} (sink : List Diagnostic)
    (delivers : host.Delivers mode staging destination value linked) :
    host.Delivers mode (staging.report sink) destination value linked := by
  cases delivers with
  | index destined source => exact .index destined source
  | direct destined source produced => exact .direct destined source produced
  | routed destined source ended produced => exact .routed destined source ended produced
  | baked destined source ended consumed lowers =>
    exact .baked destined source ended consumed lowers
  | regionPort listed defined bound targeted =>
    exact .regionPort listed defined bound targeted

theorem ends_of_getD {terminals : List RouteTerminal} {terminal : RouteTerminal}
    (ended : terminals.head?.getD .dropped = terminal) (dead : terminal ≠ .dropped) :
    terminals.head? = some terminal := by
  cases head : terminals.head? with
  | none =>
    rw [head] at ended
    exact absurd ended.symm dead
  | some first =>
    rw [head] at ended
    rw [← ended, Option.getD_some]

structure Preserved (host : Host) (mode : Mode) (kept : Staging → Prop) : Prop where
  report : ∀ staging sink, kept staging → kept (staging.report sink)
  record : ∀ staging path defId connection destination, mode.wouldRun = true →
    host.Destined path defId connection destination → kept staging →
      kept (host.recordDestination mode path defId connection staging destination)
  deliver : ∀ staging destination value linked,
    host.Delivers mode staging destination value linked → kept staging →
      kept (staging.deliver destination.1 destination.2 value linked)

namespace Preserved

variable {kept : Staging → Prop} (preserved : host.Preserved mode kept)

include preserved

variable {defId : String} {destination : String × ElaboratedInput} {staging : Staging}

theorem deliverOutput {what : String} {output : ResolvedOutput}
    (delivers : staging.has output.runtimeId = true →
      host.Delivers mode staging destination (linkValue output) true) (before : kept staging) :
    kept (Host.deliverOutput defId what staging destination output) := by
  unfold Host.deliverOutput
  split
  · rename_i present
    exact preserved.deliver _ _ _ _ (delivers present.1) before
  · exact preserved.report _ _ before

theorem deliverLiteral {what : String} {value : Json} {typeId : Option String}
    (delivers : ∀ consumer lowered, staging.node? destination.1 = some consumer →
      (host.bakeLiteral consumer destination.2 value typeId).1 = some lowered →
        host.Delivers mode staging destination lowered false) (before : kept staging) :
    kept (host.deliverLiteral defId what staging destination value typeId) := by
  unfold Host.deliverLiteral
  split
  · exact preserved.report _ _ before
  · rename_i consumer consumed
    split
    · rename_i lowered sink baked
      have delivered := delivers consumer lowered consumed (by rw [baked])
      exact preserved.deliver _ _ _ _ (delivered.report sink) (preserved.report _ _ before)
    · exact preserved.report _ _ before

variable {path : List String} {entry : TopologyConnection × PortRef}

theorem lowerDestination {connection : TopologyConnection}
    (destined : host.Destined path defId connection destination) (before : kept staging) :
    kept (host.lowerDestination mode defId connection
      (host.connectionSource path defId connection).1 staging destination) := by
  unfold Host.lowerDestination
  split
  · rename_i source
    split
    · exact preserved.deliver _ _ _ _ (.index destined source) before
    · exact before
  · rename_i output source
    exact preserved.deliverOutput (.direct destined source) before
  · rename_i start source
    have reported := preserved.report staging
      (attachDependents (host.projectRoute (host.tables mode staging) .exact
        (some destination.2.spec.type) connection.delivery start).2 [destination.1]) before
    unfold Host.deliverTerminal
    dsimp only
    split
    · exact preserved.report _ _ reported
    · exact reported
    · rename_i value typeId ended
      apply preserved.deliverLiteral _ reported
      intro consumer lowered consumed lowers
      apply Delivers.baked destined source _ consumed lowers
      exact ends_of_getD ended (by simp)
    · rename_i output ended
      apply preserved.deliverOutput _ reported
      intro produced
      apply Delivers.routed destined source _ produced
      exact ends_of_getD ended (by simp)
  all_goals exact before

theorem lowerConnection (context : (path, defId) ∈ host.collected.contexts)
    (admitted : entry ∈ host.admitted path defId) (before : kept staging) :
    kept (host.lowerConnection mode path defId staging entry) := by
  unfold Host.lowerConnection
  dsimp only
  split
  · exact preserved.report _ _ before
  · exact preserved.report _ _ before
  · exact before
  · exact preserved.report _ _ before
  · rename_i inputs resolved muted
    apply foldlRecOn
    · exact preserved.report _ _ before
    · intro staging kept destination listed
      refine preserved.lowerDestination ⟨context, entry.2, admitted, ?_⟩ kept
      rw [resolved]
      exact listed

theorem recordWouldRun (context : (path, defId) ∈ host.collected.contexts)
    (admitted : entry ∈ host.admitted path defId) (before : kept staging) :
    kept (host.recordWouldRun mode path defId staging entry) := by
  unfold Host.recordWouldRun
  split
  · rename_i preview
    apply foldlRecOn
    · exact before
    · intro staging kept destination listed
      exact preserved.record _ _ _ _ _ preview
        ⟨context, entry.2, admitted, (mem_filter.mp listed).1⟩ kept
  · exact before

theorem lowerOccurrence {context : List String × String}
    (listed : context ∈ host.collected.contexts) (before : kept staging) :
    kept (host.lowerOccurrence mode staging context) := by
  unfold Host.lowerOccurrence
  apply foldlRecOn
  · apply foldlRecOn
    · exact preserved.report _ _ before
    · intro staging kept entry admitted
      exact preserved.recordWouldRun listed admitted kept
  · intro staging kept entry admitted
    exact preserved.lowerConnection listed admitted kept

theorem lowerRegion {region : RegionLowering} (listed : region ∈ host.collected.regions)
    (before : kept staging) : kept (host.lowerRegion staging region) := by
  unfold Host.lowerRegion
  split
  · exact before
  · rename_i child defined
    apply foldlRecOn
    · exact before
    · intro staging kept item bound
      apply foldlRecOn
      · exact preserved.report _ _ kept
      · intro staging kept target targeted
        unfold Host.lowerRegionTarget
        split
        · exact kept
        · split
          · exact preserved.report _ _ kept
          · exact preserved.deliver _ _ _ _ (.regionPort listed defined bound targeted) kept

theorem linkStaging (literals : kept host.literalStaging) : kept (host.linkStaging mode) := by
  unfold Host.linkStaging
  apply foldlRecOn
  · exact literals
  · intro staging kept context listed
    exact preserved.lowerOccurrence listed kept

/-- A property of the staged literals that lowering preserves is one of the staged
document. -/
theorem staged (literals : kept host.literalStaging) : kept (host.staged mode) := by
  unfold Host.staged
  apply foldlRecOn
  · exact preserved.linkStaging literals
  · intro staging kept region listed
    exact preserved.lowerRegion listed kept

end Preserved

end Host

end Dinkster.Compile
