import Dinkster.Compile.Partial

/-!
# Places in the native graph

The native graph nests: the nodes of a region are in its body, under names that are relative
to it.  A place is the chain of regions around an entry together with its name there, and
the runtime id of the node it stands for can be read off it.
-/

namespace Dinkster.Compile

open Format Library List Option

abbrev NativeGraph := List (String × NativeEntry)

/-- A place in a native graph: the regions around it, outermost first, and its name. -/
structure Spot where
  scope : List String
  id : String

def graphAt : NativeGraph → List String → Option NativeGraph
  | graph, [] => some graph
  | graph, id :: rest =>
    match graph.lookup id with
    | some (.region _ _ _ body _ _) => graphAt body rest
    | _ => none

def entryAt (graph : NativeGraph) (spot : Spot) : Option NativeEntry :=
  (graphAt graph spot.scope).bind fun body => body.lookup spot.id

def NativeEntry.inputs : NativeEntry → List (String × Json)
  | .node _ inputs _ _ => inputs
  | .region _ _ inputs _ _ _ => inputs

def runtimeIdUnder : Option String → String → String
  | none, id => id
  | some region, id => region ++ "." ++ id

/-- The runtime id of the region at the end of a chain. -/
def regionIdUnder (region : Option String) (scope : List String) : Option String :=
  scope.foldl (fun region id => some (runtimeIdUnder region id)) region

def Spot.runtimeId (spot : Spot) : String :=
  runtimeIdUnder (regionIdUnder none spot.scope) spot.id

theorem intercalate_append {Letter : Type} {separator : List Letter} :
    ∀ {first second : List (List Letter)}, first ≠ [] → second ≠ [] →
      separator.intercalate (first ++ second) =
        separator.intercalate first ++ separator ++ separator.intercalate second
  | [], _, filled, _ => absurd rfl filled
  | [segment], second, _, filled => by
    rw [singleton_append, intercalate_cons_of_ne_nil filled, intercalate_singleton]
  | segment :: next :: rest, second, _, filled => by
    rw [cons_append, intercalate_cons_of_ne_nil (by simp),
      intercalate_append (cons_ne_nil next rest) filled,
      intercalate_cons_of_ne_nil (cons_ne_nil next rest)]
    simp only [append_assoc]

theorem runtimeIdAt_append (inner path : List String) (instanceId node : String) :
    runtimeIdAt (inner ++ instanceId :: path) node =
      runtimeIdUnder (some (runtimeIdAt path instanceId)) (runtimeIdAt inner node) := by
  unfold runtimeIdAt occurrenceKey occurrenceAt runtimeIdUnder
  dsimp only
  rw [reverse_append, reverse_cons, append_assoc, map_append,
    intercalate_append (by simp) (by simp)]
  rw [String.ofList_append, String.ofList_append]

namespace Host

variable {host : Host} {mode : Mode} {emission : Emission}

variable {fn : FlatNode} {scope : Option RegionLowering} {region : RegionLowering}

theorem runtimeId_local {flat : List FlatNode}
    (named : ∀ fn ∈ flat, fn.runtimeId = runtimeIdAt fn.path fn.node.id) (flattened : fn ∈ flat)
    (around : ∀ region, scope = some region → region ∈ host.collected.regions ∧
      fn.inside region = true) : fn.runtimeId = runtimeIdUnder (scope.map (·.runtimeId))
      (localRuntimeId flat fn.runtimeId scope) := by
  cases scope with
  | none => rfl
  | some region =>
    obtain ⟨listed, within⟩ := around region rfl
    obtain ⟨inner, split⟩ := inside_iff.mp within
    unfold localRuntimeId
    cases found : flat.find? (·.runtimeId = fn.runtimeId) with
    | none =>
      have missing := List.find?_eq_none.mp found fn flattened
      exact absurd (decide_eq_true rfl) missing
    | some other =>
      have known := mem_of_find?_eq_some found
      have same : other.runtimeId = fn.runtimeId := by simpa using find?_some found
      rw [named other known, named fn flattened] at same
      have equal := OccurrenceRef.mk.inj (occurrenceKey_injective same)
      dsimp only
      rw [reverse_injective equal.1, equal.2, ← split, length_append,
        Nat.add_sub_cancel, take_left', named fn flattened, ← split, map_some,
        runtimeId_of_region listed]
      · exact runtimeIdAt_append inner region.path region.node.id fn.node.id
      · rfl

theorem ownerRegion_spec (owns : host.ownerRegion fn = some region) :
    region ∈ host.collected.regions ∧ fn.inside region = true := by
  have kept : ∀ region, host.ownerRegion fn = some region →
      region ∈ host.collected.regions ∧ fn.inside region = true := by
    refine foldlRecOn (motive := fun owner => ∀ region, owner = some region →
      region ∈ host.collected.regions ∧ fn.inside region = true) _ _ (by simp) ?_
    intro owner holds next listed region found
    split at found
    · rename_i within
      split at found
      · cases found
        exact ⟨listed, within⟩
      · split at found
        · cases found
          exact ⟨listed, within⟩
        · exact holds region found
    · exact holds region found
  exact kept region owns

theorem ownerRegion_congr {other : FlatNode} (same : fn.path = other.path) :
    host.ownerRegion fn = host.ownerRegion other := by
  have equal : fn.inside = other.inside := by
    funext region
    unfold FlatNode.inside
    rw [same]
  unfold ownerRegion
  rw [equal]

def nativeEntry (host : Host) (mode : Mode) (emission : Emission) (staging : Staging)
    (included : List String) (fuel : Nat) (scope : Option RegionLowering) (fn : FlatNode) :
    NativeEntry :=
  let inputs := host.nativeInputs staging.flat staging.delivered scope fn
  match host.region? fn.runtimeId with
  | none =>
    let compiled := host.promptNode staging.delivered fn
    .node compiled.classType inputs compiled.outputMembers compiled.slotVariants
  | some region => .region region.contract (portsOf emission region) inputs
      (host.buildNativeGraph mode emission staging included fuel (some region))
      (host.outputsOf mode staging region) (host.continueSourceOf mode staging region)

theorem buildNativeGraph_succ {staging : Staging} {included : List String} {fuel : Nat} :
    host.buildNativeGraph mode emission staging included (fuel + 1) scope =
      (host.scopeNodes staging.flat included scope).map fun fn =>
        (localRuntimeId staging.flat fn.runtimeId scope,
          host.nativeEntry mode emission staging included fuel scope fn) := rfl

theorem region?_spec {runtimeId : String} (found : host.region? runtimeId = some region) :
    region ∈ host.collected.regions ∧ region.runtimeId = runtimeId := by
  refine ⟨mem_of_find?_eq_some found, ?_⟩
  simpa using find?_some found

theorem lookup_kept {Element Value : Type} {kept : Element → Bool} {key renamed : Element → String}
    {value : Element → Value} {name target : String} : ∀ {elements : List Element},
      (∀ element ∈ elements, kept element = true → (renamed element = name ↔ key element = target)) →
      (∀ element ∈ elements, key element = target → kept element = true) →
        ((elements.filter kept).map fun element => (renamed element, value element)).lookup name =
          (elements.find? (key · = target)).map value
  | [], _, _ => rfl
  | element :: elements, agrees, all => by
    have ih := @lookup_kept _ _ kept key renamed value name target elements
      (fun other listed => agrees other (mem_cons_of_mem _ listed))
      (fun other listed => all other (mem_cons_of_mem _ listed))
    have first := agrees element mem_cons_self
    rw [find?_cons]
    by_cases same : key element = target
    · have keeps := all element mem_cons_self same
      rw [filter_cons_of_pos keeps, map_cons, lookup_cons,
        (first keeps).mpr same, beq_self_eq_true, decide_eq_true same]
      rfl
    · rw [decide_eq_false same]
      by_cases keeps : kept element = true
      · have other : (name == renamed element) = false := by
          rw [beq_eq_false_iff_ne]
          intro equal
          exact same ((first keeps).mp equal.symm)
        rw [filter_cons_of_pos keeps, map_cons, lookup_cons, other]
        exact ih
      · rw [filter_cons_of_neg keeps]
        exact ih

section Bodies

variable {staging : Staging} {included : List String}
  (named : ∀ fn ∈ staging.flat, fn.runtimeId = runtimeIdAt fn.path fn.node.id)

/-- A scope is the top level or the body of a region of the document. -/
def IsScope (host : Host) (scope : Option RegionLowering) : Prop :=
  ∀ region, scope = some region → region ∈ host.collected.regions

variable {scope : Option RegionLowering}

variable {fn : FlatNode} {entry : NativeEntry}

theorem around_of_owned (isScope : host.IsScope scope)
    (owned : (host.ownerRegion fn).map (·.runtimeId) = scope.map (·.runtimeId)) :
    ∀ region, scope = some region → region ∈ host.collected.regions ∧ fn.inside region = true := by
  intro region here
  refine ⟨isScope region here, ?_⟩
  rw [here, map_some, map_eq_some_iff] at owned
  obtain ⟨owner, owns, same⟩ := owned
  have spec := ownerRegion_spec owns
  rw [inside_iff, ← childPath_of_runtimeId spec.1 (isScope region here) same]
  exact inside_iff.mp spec.2

theorem mem_scopeNodes_iff : fn ∈ host.scopeNodes staging.flat included scope ↔
      fn ∈ staging.flat ∧ fn.runtimeId ∈ included ∧
        (host.ownerRegion fn).map (·.runtimeId) = scope.map (·.runtimeId) := by
  unfold scopeNodes
  rw [mem_filter, Bool.and_eq_true, contains_iff_mem, decide_eq_true_eq]

include named in
theorem lookup_body {fuel : Nat} {scope : Option RegionLowering} {fn : FlatNode}
    (isScope : host.IsScope scope) (listed : fn ∈ host.scopeNodes staging.flat included scope) :
    (host.buildNativeGraph mode emission staging included (fuel + 1) scope).lookup
        (localRuntimeId staging.flat fn.runtimeId scope) =
      (staging.flat.find? (·.runtimeId = fn.runtimeId)).map
        (host.nativeEntry mode emission staging included fuel scope) := by
  have here := mem_scopeNodes_iff.mp listed
  have place := runtimeId_local named here.1 (around_of_owned isScope here.2.2)
  rw [buildNativeGraph_succ]
  unfold scopeNodes
  apply @lookup_kept FlatNode _ _ (·.runtimeId)
  · intro other known kept
    rw [Bool.and_eq_true, decide_eq_true_eq] at kept
    have otherPlace := runtimeId_local named known (around_of_owned isScope kept.2)
    constructor
    · intro same
      rw [otherPlace, same]
      exact place.symm
    · intro same
      rw [same]
  · intro other known same
    have placed : fn.path = other.path := by
      rw [named fn here.1, named other known] at same
      exact (path_of_runtimeId same).symm
    rw [Bool.and_eq_true, decide_eq_true_eq, same, ← ownerRegion_congr placed]
    exact ⟨contains_iff_mem.mpr here.2.1, here.2.2⟩

include named in
theorem node_of_lookup {fuel : Nat} {name : String} (isScope : host.IsScope scope)
    (found : (host.buildNativeGraph mode emission staging included fuel scope).lookup name =
      some entry) : ∃ smaller fn, fuel = smaller + 1 ∧
      fn ∈ host.scopeNodes staging.flat included scope ∧
      fn.runtimeId = runtimeIdUnder (scope.map (·.runtimeId)) name ∧
      staging.flat.find? (·.runtimeId = fn.runtimeId) = some fn ∧
      entry = host.nativeEntry mode emission staging included smaller scope fn := by
  cases fuel with
  | zero => exact absurd found (by simp [buildNativeGraph])
  | succ fuel =>
    have member : name ∈ (host.buildNativeGraph mode emission staging included (fuel + 1)
        scope).map (·.1) := by
      by_contra absent
      rw [lookup_eq_none_iff.mpr] at found
      · simp at found
      · intro other listed
        rw [bne_iff_ne]
        intro same
        exact absent (mem_map.mpr ⟨other, listed, same.symm⟩)
    rw [buildNativeGraph_succ, List.map_map] at member
    obtain ⟨fn, listed, same⟩ := mem_map.mp member
    rw [Function.comp_apply] at same
    have lookup := @lookup_body host mode emission staging included named fuel scope fn isScope
      listed
    have here := mem_scopeNodes_iff.mp listed
    have place := runtimeId_local named here.1 (around_of_owned isScope here.2.2)
    dsimp only at same
    rw [same] at lookup place
    rw [lookup] at found
    obtain ⟨first, known, equal⟩ := map_eq_some_iff.mp found
    have firstId : first.runtimeId = fn.runtimeId := by simpa using find?_some known
    have firstListed := mem_of_find?_eq_some known
    have placed : fn.path = first.path := by
      rw [named fn here.1, named first firstListed] at firstId
      exact (path_of_runtimeId firstId).symm
    refine ⟨fuel, first, rfl, ?_, ?_, ?_, equal.symm⟩
    · rw [mem_scopeNodes_iff, firstId, ← ownerRegion_congr placed]
      exact ⟨firstListed, here.2⟩
    · rw [firstId]
      exact place
    · rw [firstId]
      exact known

include named in
theorem graphAt_spec : ∀ {chain : List String} {fuel : Nat} {scope : Option RegionLowering}
    {body : NativeGraph}, host.IsScope scope →
      graphAt (host.buildNativeGraph mode emission staging included fuel scope) chain = some body →
        ∃ inner innerFuel, host.IsScope inner ∧
          inner.map (·.runtimeId) = regionIdUnder (scope.map (·.runtimeId)) chain ∧
          body = host.buildNativeGraph mode emission staging included innerFuel inner
  | [], fuel, scope, _, isScope, found => ⟨scope, fuel, isScope, rfl, (some.inj found).symm⟩
  | name :: rest, fuel, scope, body, isScope, found => by
    unfold graphAt at found
    split at found
    · rename_i known
      obtain ⟨smaller, fn, _, _, place, _, entry⟩ := node_of_lookup named isScope known
      unfold nativeEntry at entry
      dsimp only at entry
      split at entry
      · simp at entry
      · rename_i region entered
        have parts := NativeEntry.region.inj entry
        rw [parts.2.2.2.1] at found
        have spec := region?_spec entered
        have inside := graphAt_spec (by
          intro other same
          cases same
          exact spec.1) found
        obtain ⟨inner, innerFuel, innerScope, innerId, same⟩ := inside
        refine ⟨inner, innerFuel, innerScope, ?_, same⟩
        rw [innerId, map_some, spec.2, place]
        rfl
    · simp at found

structure EntryOf (host : Host) (mode : Mode) (emission : Emission) (staging : Staging)
    (included : List String) (spot : Spot) (entry : NativeEntry) (scope : Option RegionLowering)
    (fn : FlatNode) : Prop where
  found : staging.flat.find? (·.runtimeId = spot.runtimeId) = some fn
  executed : spot.runtimeId ∈ included
  isScope : host.IsScope scope
  within : scope.map (·.runtimeId) = regionIdUnder none spot.scope
  emitted : ∃ fuel, entry = host.nativeEntry mode emission staging included fuel scope fn

include named in
/-- Every entry of a native graph is of an executed node, whose runtime id its place has. -/
theorem entryOf_of_entryAt {fuel : Nat} {spot : Spot}
    (found : entryAt (host.buildNativeGraph mode emission staging included fuel none) spot =
      some entry) :
    ∃ scope fn, host.EntryOf mode emission staging included spot entry scope fn := by
  obtain ⟨body, reached, known⟩ := bind_eq_some_iff.mp found
  obtain ⟨scope, innerFuel, isScope, within, same⟩ := graphAt_spec named (by
    intro region none
    exact absurd none (by simp)) reached
  rw [same] at known
  obtain ⟨smaller, fn, _, listed, place, first, emitted⟩ := node_of_lookup named isScope known
  have runtimeId : fn.runtimeId = spot.runtimeId := by
    rw [place, within]
    rfl
  refine ⟨scope, fn, ?_, ?_, isScope, within, smaller, emitted⟩
  · rw [← runtimeId]
    exact first
  · rw [← runtimeId]
    exact (mem_scopeNodes_iff.mp listed).2.1

theorem graphAt_concat : ∀ {graph : NativeGraph} {chain : List String} {id : String},
    graphAt graph (chain ++ [id]) = (graphAt graph chain).bind fun body =>
      match body.lookup id with
      | some (.region _ _ _ inner _ _) => some inner
      | _ => none
  | graph, [], id => by
    rw [nil_append]
    unfold graphAt
    dsimp only [bind_some]
    split
    · unfold graphAt
      rfl
    · rfl
  | graph, first :: rest, id => by
    rw [cons_append]
    unfold graphAt
    split
    · exact graphAt_concat
    · rfl

/-- A region around a node is around it and not around itself. -/
theorem countP_inside_lt {entry : FlatNode} {region : RegionLowering}
    (listed : region ∈ host.collected.regions) (within : fn.inside region = true)
    (placed : entry.path = region.path) :
    host.collected.regions.countP entry.inside < host.collected.regions.countP fn.inside := by
  obtain ⟨before, after, split⟩ := append_of_mem listed
  have outer : ∀ other : RegionLowering, entry.inside other = true → fn.inside other = true := by
    intro other around
    rw [inside_iff, placed] at around
    exact inside_of_inside within around
  have outside : ¬ entry.inside region = true := by
    rw [inside_iff, placed]
    intro suffix
    have longer := suffix.length_le
    unfold RegionLowering.childPath at longer
    rw [length_cons] at longer
    omega
  have first : before.countP entry.inside ≤ before.countP fn.inside :=
    countP_mono_left fun other _ => outer other
  have last : after.countP entry.inside ≤ after.countP fn.inside :=
    countP_mono_left fun other _ => outer other
  rw [split, countP_append, countP_append, countP_cons_of_neg outside, countP_cons_of_pos within]
  omega

include named in
theorem exists_body (entered : ∀ region ∈ host.collected.regions, ∃ fn ∈ staging.flat,
      fn.runtimeId = region.runtimeId ∧ fn.path = region.path)
    (closes : ∀ region ∈ host.collected.regions, ∀ fn ∈ staging.flat, fn.inside region = true →
      fn.runtimeId ∈ included → region.runtimeId ∈ included)
    (fn : FlatNode) (flattened : fn ∈ staging.flat) (executed : fn.runtimeId ∈ included) :
    ∃ chain fuel scope, host.IsScope scope ∧ scope.map (·.runtimeId) = regionIdUnder none chain ∧
      fn ∈ host.scopeNodes staging.flat included scope ∧
      host.collected.regions.length ≤ fuel + host.collected.regions.countP fn.inside ∧
      graphAt (host.buildNativeGraph mode emission staging included
        (host.collected.regions.length + 1) none) chain =
          some (host.buildNativeGraph mode emission staging included (fuel + 1) scope) := by
  cases owner : host.ownerRegion fn with
  | none =>
    refine ⟨[], _, none, by simp [IsScope], rfl, ?_, Nat.le_add_right _ _, rfl⟩
    rw [mem_scopeNodes_iff, owner]
    exact ⟨flattened, executed, rfl⟩
  | some region =>
    have spec := ownerRegion_spec owner
    obtain ⟨entry, known, same, placed⟩ := entered region spec.1
    have deeper := countP_inside_lt spec.1 spec.2 placed
    have regionExecuted := closes region spec.1 fn flattened spec.2 executed
    obtain ⟨chain, fuel, scope, isScope, chained, listed, enough, reached⟩ :=
      exists_body entered closes entry known (same ▸ regionExecuted)
    have bounded := @List.countP_le_length _ fn.inside host.collected.regions
    -- the entry of the region's own node has the body that the node is in
    have lookup := @lookup_body host mode emission staging included named fuel scope entry
      isScope listed
    cases found : staging.flat.find? (·.runtimeId = entry.runtimeId) with
    | none =>
      have missing := List.find?_eq_none.mp found entry known
      exact absurd (decide_eq_true rfl) missing
    | some first =>
      have firstId : first.runtimeId = entry.runtimeId := by
        simpa using find?_some found
      cases inner : host.region? first.runtimeId with
      | none =>
        have missing := List.find?_eq_none.mp inner region spec.1
        rw [firstId, same] at missing
        exact absurd (decide_eq_true rfl) missing
      | some region' =>
        have spec' := region?_spec inner
        obtain ⟨smaller, rfl⟩ : ∃ smaller, fuel = smaller + 1 := ⟨fuel - 1, by omega⟩
        refine ⟨chain ++ [localRuntimeId staging.flat entry.runtimeId scope], smaller,
          some region', ?_, ?_, ?_, by omega, ?_⟩
        · intro other equal
          cases equal
          exact spec'.1
        · have place := runtimeId_local named known
            (around_of_owned isScope (mem_scopeNodes_iff.mp listed).2.2)
          unfold regionIdUnder at chained ⊢
          rw [foldl_append, foldl_cons, foldl_nil, ← chained, ← place, map_some, spec'.2, firstId]
        · rw [mem_scopeNodes_iff, owner, map_some, map_some, spec'.2, firstId, same]
          exact ⟨flattened, executed, rfl⟩
        · rw [graphAt_concat, reached, bind_some, lookup, found, map_some]
          unfold nativeEntry
          rw [inner]
termination_by host.collected.regions.countP fn.inside
decreasing_by exact deeper

end Bodies

end Host

end Dinkster.Compile
