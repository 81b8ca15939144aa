import Dinkster.Compile.Delivers
import Dinkster.Compile.Artifact
import Dinkster.Format.Keys

/-!
# What lowering leaves alone

Lowering changes the staged inputs of the flattened nodes and nothing else about them, and
of these only the inputs it delivers to: an input that nothing was delivered to still holds
the literal it was staged with, and is not marked as linked.
-/

namespace Dinkster.Compile

open Format Library List

namespace Host

@[simp] theorem applyWrites_append (inputs first second : List (String × Json)) :
    applyWrites inputs (first ++ second) = applyWrites (applyWrites inputs first) second := by
  simp [applyWrites]

/-- A key that is never written keeps its value. -/
theorem getField_applyWrites_of_unwritten {key : String} :
    ∀ {writes inputs : List (String × Json)}, (∀ write ∈ writes, write.1 ≠ key) →
      getField (applyWrites inputs writes) key = getField inputs key
  | [], _, _ => rfl
  | write :: writes, inputs, unwritten => by
    change getField (applyWrites (setField inputs write.1 write.2) writes) key = _
    rw [getField_applyWrites_of_unwritten fun other listed =>
      unwritten other (mem_cons_of_mem _ listed)]
    rw [getField_setField, if_neg (unwritten write mem_cons_self)]

theorem getField_applyWrites_of_written {key : String} {value : Json} :
    ∀ {writes inputs : List (String × Json)}, (key, value) ∈ writes →
      (∀ write ∈ writes, write.1 = key → write.2 = value) →
      getField (applyWrites inputs writes) key = some value
  | [], _, listed, _ => absurd listed not_mem_nil
  | write :: writes, inputs, listed, only => by
    change getField (applyWrites (setField inputs write.1 write.2) writes) key = _
    by_cases later : ∃ other ∈ writes, other.1 = key
    · cases later with
      | intro other found =>
        have same := only other (mem_cons_of_mem _ found.1) found.2
        have again : (key, value) ∈ writes := by
          rw [← found.2, ← same]
          exact found.1
        exact getField_applyWrites_of_written again fun other listed =>
          only other (mem_cons_of_mem _ listed)
    · have unwritten : ∀ other ∈ writes, other.1 ≠ key := by
        intro other listed same
        exact later ⟨other, listed, same⟩
      rw [getField_applyWrites_of_unwritten unwritten, getField_setField]
      cases mem_cons.mp listed with
      | inl first => rw [← first, if_pos rfl]
      | inr again => exact absurd rfl (unwritten _ again)

end Host

variable {interface : Interface}

theorem Interface.eq_of_key {first second : ElaboratedInput}
    (firstListed : first ∈ interface.inputs) (secondListed : second ∈ interface.inputs)
    (same : first.spec.id = second.spec.id) : first = second := by
  apply interface.eq_of_address firstListed secondListed
  apply elabKeyOf_injective
  rw [← first.filed, ← second.filed, same]

theorem Interface.mem_of_valued? {key : String} {input : ElaboratedInput}
    (found : interface.valued? key = some input) :
    input ∈ interface.inputs ∧ input.valueKey = key := by
  refine ⟨mem_of_find?_eq_some found, ?_⟩
  simpa using find?_some found

/-- A flattened node without what is staged at it. -/
def FlatNode.bare (fn : FlatNode) : FlatNode :=
  { fn with linkedInputs := [], inputs := [] }

/-- The texts that head the arrays staged at a node. -/
def arrayHeads (inputs : List (String × Json)) : List String :=
  inputs.filterMap fun entry => arrayHead entry.2

namespace Host

variable {host : Host} {mode : Mode}

structure Gathers (onNode : FlatNode → Prop) (onRegion : RegionLowering → Prop)
    (gathered : Collected) : Prop where
  nodes : ∀ fn ∈ gathered.flat, onNode fn
  regions : ∀ region ∈ gathered.regions, onRegion region
  entered : ∀ region ∈ gathered.regions, ∃ fn ∈ gathered.flat,
    fn.runtimeId = region.runtimeId ∧ fn.path = region.path

section Gathering

variable {onNode : FlatNode → Prop} {onRegion : RegionLowering → Prop}

theorem Gathers.none {gathered : Collected} (flat : gathered.flat = [])
    (regions : gathered.regions = []) : Gathers onNode onRegion gathered where
  nodes := by simp [flat]
  regions := by simp [regions]
  entered := by simp [regions]

theorem Gathers.append {first second : Collected} (left : Gathers onNode onRegion first)
    (right : Gathers onNode onRegion second) : Gathers onNode onRegion (first.append second) where
  nodes := forall_mem_append.mpr ⟨left.nodes, right.nodes⟩
  regions := forall_mem_append.mpr ⟨left.regions, right.regions⟩
  entered := by
    intro region listed
    cases mem_append.mp listed with
    | inl here =>
      obtain ⟨fn, known, same⟩ := left.entered region here
      exact ⟨fn, mem_append_left _ known, same⟩
    | inr later =>
      obtain ⟨fn, known, same⟩ := right.entered region later
      exact ⟨fn, mem_append_right _ known, same⟩

theorem Gathers.concat : ∀ {gathered : List Collected},
    (∀ part ∈ gathered, Gathers onNode onRegion part) → Gathers onNode onRegion (.concat gathered)
  | [], _ => .none rfl rfl
  | first :: rest, parts => by
    apply Gathers.append
    · exact parts first mem_cons_self
    · exact Gathers.concat fun part listed => parts part (mem_cons_of_mem _ listed)

variable {path : List String}

theorem Gathers.inside {defId childId : String} {data : NodeData} {inside : Collected}
    (inner : Gathers onNode onRegion inside) :
    Gathers onNode onRegion (host.collectInside path defId data childId inside) := by
  unfold collectInside
  split
  · exact .append (.none rfl rfl) inner
  · exact .none rfl rfl

theorem Gathers.node {defId : String} {authored : NodeData}
    {recurse : String → List String → Collected}
    (flattened : ∀ path defId data selector, onNode (host.flatNodeAt path defId data selector))
    (lowered : ∀ path data contract defId childId,
      onRegion ⟨runtimeIdAt path data.id, path, data, contract, defId, childId⟩)
    (inside : ∀ childId path, Gathers onNode onRegion (recurse childId path)) :
    Gathers onNode onRegion (host.collectNode path defId authored recurse) := by
  unfold collectNode
  dsimp only
  split
  · exact .none rfl rfl
  · split
    · exact .none rfl rfl
    · split
      · split
        · exact .none rfl rfl
        · exact ⟨forall_mem_singleton.mpr (flattened _ _ _ _), forall_mem_nil _, forall_mem_nil _⟩
      · split
        · exact .none rfl rfl
        · split
          · exact .inside (inside _ _)
          · exact .none rfl rfl
          · apply Gathers.append _ (.inside (inside _ _))
            exact ⟨forall_mem_singleton.mpr (flattened _ _ _ _), forall_mem_singleton.mpr
                (lowered path { authored with values := host.valuesAt path defId authored } _ _ _),
              forall_mem_singleton.mpr
                ⟨_, mem_singleton_self _, rfl, rfl⟩⟩

/-- The rule of properties of everything that is collected. -/
theorem collectNodes_induct
    (flattened : ∀ path defId data selector, onNode (host.flatNodeAt path defId data selector))
    (lowered : ∀ path data contract defId childId,
      onRegion ⟨runtimeIdAt path data.id, path, data, contract, defId, childId⟩) :
    ∀ (fuel : Nat) (defId : String) (path : List String),
      Gathers onNode onRegion (host.collectNodes fuel defId path)
  | 0, _, _ => .none rfl rfl
  | fuel + 1, defId, path => by
    unfold collectNodes
    split
    · exact .none rfl rfl
    · apply Gathers.append (.none rfl rfl)
      apply Gathers.concat
      intro part listed
      cases mem_map.mp listed with
      | intro authored collects =>
        rw [← collects.2]
        apply Gathers.node flattened lowered
        intro childId path
        exact collectNodes_induct flattened lowered fuel childId path

end Gathering

theorem runtimeId_of_collected {fn : FlatNode} (listed : fn ∈ host.collected.flat) :
    fn.runtimeId = runtimeIdAt fn.path fn.node.id :=
  (@collectNodes_induct host (fun fn => fn.runtimeId = runtimeIdAt fn.path fn.node.id)
    (fun _ => True) (fun _ _ _ _ => rfl) (fun _ _ _ _ _ => trivial) _ _ _).nodes fn listed

variable {region : RegionLowering} {runtimeId : String}

theorem runtimeId_of_region (listed : region ∈ host.collected.regions) :
    region.runtimeId = runtimeIdAt region.path region.node.id :=
  (@collectNodes_induct host (fun _ => True)
    (fun region => region.runtimeId = runtimeIdAt region.path region.node.id)
    (fun _ _ _ _ => trivial) (fun _ _ _ _ _ => rfl) _ _ _).regions region listed

/-- A region is a flattened node as well. -/
theorem entered_of_region (listed : region ∈ host.collected.regions) :
    ∃ fn ∈ host.collected.flat, fn.runtimeId = region.runtimeId ∧ fn.path = region.path :=
  (@collectNodes_induct host (fun _ => True) (fun _ => True) (fun _ _ _ _ => trivial)
    (fun _ _ _ _ _ => trivial) _ _ _).entered region listed

theorem bare_of_collected {fn : FlatNode} (listed : fn ∈ host.collected.flat) : fn.bare = fn :=
  (@collectNodes_induct host (fun fn => fn.bare = fn) (fun _ => True)
    (fun _ _ _ _ => rfl) (fun _ _ _ _ _ => trivial) _ _ _).nodes fn listed

variable (flat : List FlatNode)

theorem find?_bare (runtimeId : String) : (flat.map FlatNode.bare).find? (·.runtimeId = runtimeId) =
      (flat.find? (·.runtimeId = runtimeId)).map FlatNode.bare := by
  rw [find?_map]
  rfl

theorem enclosingRegion_bare (runtimeId : String) :
    host.enclosingRegion (flat.map FlatNode.bare) runtimeId =
      host.enclosingRegion flat runtimeId := by
  unfold enclosingRegion
  rw [find?_bare]
  cases flat.find? (·.runtimeId = runtimeId) <;> rfl

theorem scopeRoots_bare (scope : ExecutionScope) :
    host.scopeRoots (flat.map FlatNode.bare) scope = host.scopeRoots flat scope := by
  cases scope with
  | full =>
    unfold scopeRoots
    have outputs : (flat.map FlatNode.bare).filter host.isOutputNode =
        (flat.filter host.isOutputNode).map FlatNode.bare := filter_map
    rw [outputs, map_map, map_map]
    rfl
  | targets targets =>
    unfold scopeRoots
    apply map_congr_left
    intro target _
    exact enclosingRegion_bare flat _

theorem scopeCloses_bare (scope : ExecutionScope) :
    host.scopeCloses (flat.map FlatNode.bare) scope = host.scopeCloses flat scope := by
  cases scope with
  | full =>
    unfold scopeCloses
    rw [any_map]
    rfl
  | targets targets => rfl

/-- The producers of a node of an exact compile. -/
def headsOf (flat : List FlatNode) (runtimeId : String) : List String :=
  match flat.find? (·.runtimeId = runtimeId) with
  | some fn => arrayHeads fn.inputs
  | none => []

theorem find?_routedNode (flat : List FlatNode) (runtimeId : String) :
    (flat.map (host.routedNode mode)).find? (·.runtimeId = runtimeId) =
      (flat.find? (·.runtimeId = runtimeId)).map (host.routedNode mode) :=
  find?_map

theorem producersOf_exact (exact : mode.wouldRun = false) (flat : List FlatNode)
    (runtimeId : String) :
    producersOf [] (flat.map (host.routedNode mode)) runtimeId = headsOf flat runtimeId := by
  unfold producersOf headsOf
  rw [find?_routedNode]
  cases flat.find? (·.runtimeId = runtimeId) with
  | none => rfl
  | some fn =>
    have unprojected : (host.routedNode mode fn).projection = none := by
      unfold routedNode
      rw [exact]
      rfl
    change fn.inputs.flatMap (inputProducers [] (host.routedNode mode fn)) = arrayHeads fn.inputs
    unfold arrayHeads
    rw [filterMap_eq_flatMap_toList]
    apply flatMap_congr
    intro entry _
    unfold inputProducers
    rw [unprojected]
    rfl

variable {scope : ExecutionScope}

theorem validates_of_executed {included : List String} (executed : runtimeId ∈ included) :
    validates scope included runtimeId = true := by
  cases scope with
  | full => rfl
  | targets targets => exact contains_iff_mem.mpr executed

/-- What starts the closure of a scope. -/
def rootsOf (host : Host) (mode : Mode) (flat : List FlatNode) (scope : ExecutionScope) :
    List String :=
  startingRoots (flat.map (host.routedNode mode)) (host.scopeRoots flat scope)

theorem rootsOf_congr {flat others : List FlatNode}
    (same : flat.map FlatNode.bare = others.map FlatNode.bare) :
    host.rootsOf mode flat scope = host.rootsOf mode others scope := by
  unfold rootsOf
  rw [← scopeRoots_bare flat, ← scopeRoots_bare others, same]
  apply startingRoots_congr
  have named : ∀ flat : List FlatNode, (flat.map (host.routedNode mode)).map (·.runtimeId) =
      (flat.map FlatNode.bare).map (·.runtimeId) := by
    intro flat
    rw [map_map, map_map]
    rfl
  rw [named, named, same]

theorem mem_closureOf_iff {staging : Staging}
    (closes : host.scopeCloses staging.flat scope = true) :
    runtimeId ∈ host.closureOf mode staging scope ↔
      Reaches (producersOf staging.edges (staging.flat.map (host.routedNode mode)))
        (host.rootsOf mode staging.flat scope) runtimeId := by
  unfold closureOf
  rw [if_pos closes]
  exact mem_derive_iff

/-- What lowering leaves of an input that nothing was delivered to. -/
structure Untouched (host : Host) (fn : FlatNode) (input : ElaboratedInput) : Prop where
  held : getField fn.inputs input.spec.id =
    getField (applyWrites [] (host.literalWrites fn)) input.spec.id
  unmarked : input.spec.id ∉ fn.linkedInputs

/-- Every staged node is a flattened node, its undelivered inputs being untouched. -/
structure Framed (host : Host) (staging : Staging) : Prop where
  collected : staging.flat.map FlatNode.bare = host.collected.flat
  untouched : ∀ fn ∈ staging.flat, ∀ input ∈ fn.interface.inputs,
    (fn.runtimeId, input.address) ∉ staging.delivered → host.Untouched fn input

theorem literalStaging_framed : host.Framed host.literalStaging where
  collected := by
    unfold literalStaging
    rw [map_map]
    refine (map_congr_left ?_).trans (map_id _)
    intro fn listed
    exact bare_of_collected listed
  untouched := by
    intro fn listed input _ _
    cases mem_map.mp listed with
    | intro bare found =>
      have unlinked : bare.linkedInputs = [] := by
        rw [← bare_of_collected found.1]
        rfl
      rw [← found.2]
      constructor
      · rfl
      · change input.spec.id ∉ bare.linkedInputs
        rw [unlinked]
        exact not_mem_nil

theorem Framed.deliver {staging : Staging} {runtimeId : String} {target : ElaboratedInput}
    {value : Json} {linked : Bool} (framed : host.Framed staging) :
    host.Framed (staging.deliver runtimeId target value linked) where
  collected := by
    rw [← framed.collected]
    unfold Staging.deliver
    rw [map_map]
    apply map_congr_left
    intro fn _
    rw [Function.comp_apply]
    split <;> rfl
  untouched := by
    intro delivered listed input declared undelivered
    have earlier : (delivered.runtimeId, input.address) ∉ staging.delivered :=
      fun listed => undelivered (mem_append_left _ listed)
    have apart : (delivered.runtimeId, input.address) ∉ [(runtimeId, target.address)] :=
      fun listed => undelivered (mem_append_right _ listed)
    cases mem_map.mp listed with
    | intro fn found =>
      have same := found.2
      split at same
      · rename_i named
        subst same
        have before := framed.untouched fn found.1 input declared earlier
        have other : target.spec.id ≠ input.spec.id := by
          intro equal
          rw [target.filed, input.filed] at equal
          have address := elabKeyOf_injective equal
          apply apart
          change (fn.runtimeId, input.address) ∈ [(runtimeId, target.address)]
          rw [named, address]
          exact mem_singleton_self _
        constructor
        · change getField (setField fn.inputs target.spec.id value) input.spec.id = _
          rw [getField_setField, if_neg other]
          exact before.held
        · unfold FlatNode.receive
          split
          · intro marked
            cases mem_cons.mp marked with
            | inl equal => exact other equal.symm
            | inr marked => exact before.unmarked marked
          · intro marked
            exact before.unmarked (mem_of_mem_filter marked)
      · subst same
        exact framed.untouched fn found.1 input declared earlier

theorem framed_preserved : host.Preserved mode host.Framed where
  report := fun _ _ framed => ⟨framed.collected, framed.untouched⟩
  record := by
    intro staging path defId connection destination _ _ framed
    constructor
    · exact framed.collected
    · intro fn listed input declared undelivered
      exact framed.untouched fn listed input declared
        fun delivered => undelivered (mem_append_left _ delivered)
  deliver := fun _ _ _ _ _ framed => framed.deliver

/-- The staged document is framed by the flattened nodes and their literals. -/
theorem staged_framed : host.Framed (host.staged mode) :=
  framed_preserved.staged literalStaging_framed

def DistinctInputs (staging : Staging) : Prop :=
  ∀ fn ∈ staging.flat, (fieldKeys fn.inputs).Nodup

theorem nodup_setField {fields : List (String × Json)} {name : String} {value : Json}
    (distinct : (fieldKeys fields).Nodup) : (fieldKeys (setField fields name value)).Nodup := by
  rw [fieldKeys_setField]
  split
  · exact distinct
  · rename_i fresh
    exact nodup_append.mpr ⟨distinct, nodup_singleton _, by
      intro key listed other new same
      rw [mem_singleton.mp new] at same
      exact fresh (same ▸ listed)⟩

theorem nodup_applyWrites : ∀ {writes inputs : List (String × Json)},
    (fieldKeys inputs).Nodup → (fieldKeys (applyWrites inputs writes)).Nodup
  | [], _, distinct => distinct
  | write :: writes, inputs, distinct => by
    change (fieldKeys (applyWrites (setField inputs write.1 write.2) writes)).Nodup
    exact nodup_applyWrites (nodup_setField distinct)

theorem staged_distinctInputs : DistinctInputs (host.staged mode) := by
  have preserved : host.Preserved mode DistinctInputs :=
    { report := fun _ _ distinct => distinct
      record := fun _ _ _ _ _ _ _ distinct => distinct
      deliver := by
        intro staging destination value linked _ distinct fn listed
        obtain ⟨before, known, same⟩ := mem_map.mp listed
        split at same
        · subst same
          exact nodup_setField (distinct before known)
        · subst same
          exact distinct before known }
  apply preserved.staged
  intro fn listed
  obtain ⟨bare, known, same⟩ := mem_map.mp listed
  subst same
  exact nodup_applyWrites nodup_nil

/-- Only a preview records producers. -/
theorem staged_edges (exact : mode.wouldRun = false) : (host.staged mode).edges = [] := by
  have preserved : host.Preserved mode fun staging => staging.edges = [] :=
    { report := fun _ _ none => none
      record := by
        intro staging path defId connection destination preview
        rw [exact] at preview
        exact absurd preview Bool.false_ne_true
      deliver := fun _ _ _ _ _ none => none }
  exact preserved.staged rfl

theorem artifact_of_compileImpl {emission : Emission} {artifact : Artifact}
    (compiled : host.compileImpl mode emission scope = .ok artifact) :
    artifact = host.artifact mode emission scope := by
  unfold compileImpl at compiled
  dsimp only at compiled
  split at compiled
  · simp at compiled
  · split at compiled
    · simp at compiled
    · split at compiled
      · simp at compiled
      · split at compiled
        · simp at compiled
        · exact (Except.ok.inj compiled).symm

theorem compileImpl_of_isOk {emission : Emission} {scope : ExecutionScope}
    (succeeds : (host.compileImpl mode emission scope).isOk = true) :
    host.compileImpl mode emission scope = .ok (host.artifact mode emission scope) := by
  cases compiled : host.compileImpl mode emission scope with
  | error sink =>
    rw [compiled] at succeeds
    exact absurd succeeds Bool.false_ne_true
  | ok artifact => rw [artifact_of_compileImpl compiled]

end Host

end Dinkster.Compile
