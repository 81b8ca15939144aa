import Dinkster.Compile.Places
import Dinkster.Compile.Recipe
import Dinkster.Compile.Taps

/-!
# Recipes and the native graph

The backend runs the native graph.  What a node computes there depends on the nodes its
inputs link to, on the inputs of the regions around it, and, for a region, on its contract,
its outputs and its whole body.  Equal recipes of two prompts mean that all of this is the
same as far as the walk compares it: it does not enter regions, and it takes a literal of
the form of a link for a link.
-/

namespace Dinkster.Compile

open Format Library List Option

/-! ## What a node of the native graph depends on -/

/-- What a value depends on: a whole entry, or only what feeds a region. -/
inductive Need where
  | whole (spot : Spot)
  | feed (spot : Spot)

def Need.spot : Need → Spot
  | .whole spot => spot
  | .feed spot => spot

/-- What a need needs next: the producers of its inputs, the body of a region, and what
feeds the region around it. -/
inductive Depends (graph : NativeGraph) : Need → Need → Prop where
  | link {need : Need} {entry : NativeEntry} {name producer output : String} {value : Json}
      (found : entryAt graph need.spot = some entry) (listed : (name, value) ∈ entry.inputs)
      (links : asDinksterLink value = some (producer, output))
      (outside : producer ≠ regionPseudoNode) :
      Depends graph need (.whole ⟨need.spot.scope, producer⟩)
  | body {spot : Spot} {contract : RegionContract} {ports inputs : List (String × Json)}
      {body : NativeGraph} {outputs : List (String × NativeSource × Option OutputRole)}
      {continueSource : Option NativeSource} {member : String × NativeEntry}
      (found : entryAt graph spot =
        some (.region contract ports inputs body outputs continueSource))
      (listed : member ∈ body) :
      Depends graph (.whole spot) (.whole ⟨spot.scope ++ [spot.id], member.1⟩)
  | around {need : Need} {scope : List String} {region : String}
      (within : need.spot.scope = scope ++ [region]) : Depends graph need (.feed ⟨scope, region⟩)

variable (left right : List (String × Json))

/-- Two records of inputs with the same names. -/
def SameNames : Prop :=
  ∀ name, name ∈ fieldKeys left ↔ name ∈ fieldKeys right

/-- Two records of inputs with the same names and the same values. -/
def SameInputs : Prop :=
  ∀ name, Option.Rel (fun value other => jsonEqual value other = true)
    (getField left name) (getField right name)

/-- Two entries that differ at most in what `nodesEqual` compares; the members of a body
are entries of their own. -/
inductive SameFrame : NativeEntry → NativeEntry → Prop where
  | node {nodeType otherType : String} {inputs others : List (String × Json)}
      {members otherMembers : Option (List (String × List String))}
      {variants otherVariants : List (String × String)} (names : SameNames inputs others) :
      SameFrame (.node nodeType inputs members variants)
        (.node otherType others otherMembers otherVariants)
  | region {contract : RegionContract} {ports inputs others : List (String × Json)}
      {body otherBody : NativeGraph} {outputs : List (String × NativeSource × Option OutputRole)}
      {continueSource : Option NativeSource} (names : SameNames inputs others)
      (bodies : ∀ id, id ∈ body.map (·.1) ↔ id ∈ otherBody.map (·.1)) :
      SameFrame (.region contract ports inputs body outputs continueSource)
        (.region contract ports others otherBody outputs continueSource)

/-- Two equal entries, the order of keys apart. -/
inductive SameEntry : NativeEntry → NativeEntry → Prop where
  | node {nodeType : String} {inputs others : List (String × Json)}
      {members otherMembers : Option (List (String × List String))}
      {variants otherVariants : List (String × String)} (fed : SameInputs inputs others)
      (outputs : sameRecord (members.getD []) (otherMembers.getD []) = true)
      (chosen : sameRecord variants otherVariants = true) :
      SameEntry (.node nodeType inputs members variants)
        (.node nodeType others otherMembers otherVariants)
  | region {contract : RegionContract} {ports inputs others : List (String × Json)}
      {body otherBody : NativeGraph} {outputs : List (String × NativeSource × Option OutputRole)}
      {continueSource : Option NativeSource} (fed : SameInputs inputs others)
      (bodies : ∀ id, id ∈ body.map (·.1) ↔ id ∈ otherBody.map (·.1)) :
      SameEntry (.region contract ports inputs body outputs continueSource)
        (.region contract ports others otherBody outputs continueSource)

theorem SameEntry.fed {entry other : NativeEntry} (same : SameEntry entry other) :
    SameInputs entry.inputs other.inputs := by
  cases same with
  | node fed _ _ | region fed _ => exact fed

def SameAt (left right : NativeGraph) : Need → Prop
  | .whole spot => Option.Rel SameEntry (entryAt left spot) (entryAt right spot)
  | .feed spot => Option.Rel (fun entry other => SameInputs entry.inputs other.inputs)
      (entryAt left spot) (entryAt right spot)

def SameFrameAt (left right : NativeGraph) : Need → Prop
  | .whole spot => Option.Rel SameFrame (entryAt left spot) (entryAt right spot)
  | .feed spot => Option.Rel (fun entry other => SameNames entry.inputs other.inputs)
      (entryAt left spot) (entryAt right spot)

theorem mem_fieldKeys_iff {fields : List (String × Json)} {name : String} :
    name ∈ fieldKeys fields ↔ (getField fields name).isSome = true := by
  rw [isSome_iff_ne_none, Ne, getField_eq_none_iff, not_not]

theorem SameInputs.names {left right : List (String × Json)} (same : SameInputs left right) :
    SameNames left right := by
  intro name
  have here := same name
  rw [mem_fieldKeys_iff, mem_fieldKeys_iff]
  generalize getField left name = value at here
  generalize getField right name = other at here
  cases here <;> simp

theorem rel_imp {Left Right : Type} {related weaker : Left → Right → Prop} {left : Option Left}
    {right : Option Right}
    (implies : ∀ value other, left = some value → right = some other → related value other →
      weaker value other) (holds : Option.Rel related left right) :
    Option.Rel weaker left right := by
  cases holds with
  | some here => exact .some (implies _ _ rfl rfl here)
  | none => exact .none

theorem SameAt.frame {left right : NativeGraph} {need : Need} (same : SameAt left right need) :
    SameFrameAt left right need := by
  cases need with
  | whole spot =>
    apply rel_imp _ same
    intro entry other _ _ equal
    cases equal with
    | node fed _ _ => exact .node fed.names
    | region fed bodies => exact .region fed.names bodies
  | feed spot =>
    apply rel_imp _ same
    intro entry other _ _ fed
    exact SameInputs.names fed

/-! ## Compiled documents -/

/-- A document that compiles for a backend with regions. -/
structure Compiled where
  host : Host
  emission : Emission
  pickCandidate : Option (String → String → Nat → Option Rat)
  artifact : Host.Artifact
  graph : NativeGraph
  compiles : host.compile emission pickCandidate .full = .ok artifact
  emits : artifact.nativeGraph = some graph

namespace Compiled

variable (compiled : Compiled)

def mode : Mode := ⟨false, compiled.pickCandidate⟩

/-- The staged document with its defaults. -/
def staging : Staging := compiled.host.completed compiled.mode .full

/-- What is executed. -/
def included : List String :=
  compiled.host.executed compiled.mode (compiled.host.staged compiled.mode) .full

abbrev EntryOf (spot : Spot) (entry : NativeEntry) (scope : Option RegionLowering)
    (fn : FlatNode) : Prop :=
  compiled.host.EntryOf compiled.mode compiled.emission compiled.staging compiled.included spot
    entry scope fn

/-- The inputs of a node that lowering linked, by the names they are submitted under. -/
def linked (runtimeId : String) : List String :=
  ((compiled.staging.node? runtimeId).map fun fn => fn.interface.inputs.filterMap fun input =>
    if fn.linkedInputs.contains input.spec.id then input.submissionName else none).getD []

theorem artifact_eq :
    compiled.artifact = compiled.host.artifact compiled.mode compiled.emission .full :=
  Host.artifact_of_compileImpl compiled.compiles

theorem graph_eq : compiled.graph = compiled.host.buildNativeGraph compiled.mode
    compiled.emission compiled.staging compiled.included
    (compiled.host.collected.regions.length + 1) none := by
  have emits := compiled.emits
  rw [artifact_eq] at emits
  unfold Host.artifact at emits
  dsimp only at emits
  split at emits
  · exact (some.inj emits).symm
  · simp at emits

theorem prompt_eq : compiled.artifact.prompt =
    (compiled.staging.flat.filter fun fn => compiled.included.contains fn.runtimeId).map
      fun fn => (fn.runtimeId, compiled.host.promptNode compiled.staging.delivered fn) := by
  rw [artifact_eq]
  rfl

theorem lookup_prompt (runtimeId : String) : compiled.artifact.prompt.lookup runtimeId =
    if runtimeId ∈ compiled.included then (compiled.staging.node? runtimeId).map
      (compiled.host.promptNode compiled.staging.delivered) else none := by
  rw [prompt_eq, @Host.lookup_map_filter FlatNode PromptNode (·.runtimeId)]
  rfl

variable {fn : FlatNode} {scope : Option RegionLowering}

/-- Defaults leave the runtime id and the place of a node alone. -/
theorem staged_of_completed (listed : fn ∈ compiled.staging.flat) :
    ∃ before ∈ (compiled.host.staged compiled.mode).flat,
      before.runtimeId = fn.runtimeId ∧ before.path = fn.path ∧ before.node = fn.node := by
  obtain ⟨before, known, same⟩ := mem_map.mp listed
  refine ⟨before, known, ?_⟩
  split at same
  · rw [← same]
    exact ⟨rfl, rfl, rfl⟩
  · rw [same]
    exact ⟨rfl, rfl, rfl⟩

theorem named : ∀ fn ∈ compiled.staging.flat, fn.runtimeId = runtimeIdAt fn.path fn.node.id := by
  intro fn listed
  obtain ⟨before, known, runtimeId, path, node⟩ := compiled.staged_of_completed listed
  rw [← runtimeId, ← path, ← node]
  exact Host.runtimeId_of_staged known

/-- A region is an executed node when a node of its body is. -/
theorem closes : ∀ region ∈ compiled.host.collected.regions, ∀ fn ∈ compiled.staging.flat,
    fn.inside region = true → fn.runtimeId ∈ compiled.included →
      region.runtimeId ∈ compiled.included := by
  intro region listed fn flattened within executed
  obtain ⟨before, known, runtimeId, path, node⟩ := compiled.staged_of_completed flattened
  unfold included at executed ⊢
  rw [Host.mem_executed_iff] at executed ⊢
  have collected : before.bare ∈ compiled.host.collected.flat := by
    rw [← (@Host.staged_framed compiled.host compiled.mode).collected]
    exact mem_map_of_mem known
  apply Host.Completed.region_of_body listed collected
  · rw [Host.inside_iff] at within ⊢
    rw [← path] at within
    exact within
  · rw [← runtimeId] at executed
    exact executed

/-- The instance of a region is a flattened node. -/
theorem entered : ∀ region ∈ compiled.host.collected.regions, ∃ fn ∈ compiled.staging.flat,
    fn.runtimeId = region.runtimeId ∧ fn.path = region.path := by
  intro region listed
  obtain ⟨bare, collected, runtimeId, path⟩ := Host.entered_of_region listed
  rw [← (@Host.staged_framed compiled.host compiled.mode).collected] at collected
  obtain ⟨before, known, same⟩ := mem_map.mp collected
  refine ⟨_, mem_map_of_mem known, ?_⟩
  rw [← runtimeId, ← path, ← same]
  split <;> exact ⟨rfl, rfl⟩

theorem exists_spot {runtimeId : String} {node : PromptNode}
    (found : compiled.artifact.prompt.lookup runtimeId = some node) :
    ∃ spot : Spot, spot.runtimeId = runtimeId ∧ (entryAt compiled.graph spot).isSome = true := by
  rw [lookup_prompt] at found
  split at found
  · rename_i executed
    obtain ⟨fn, known, _⟩ := map_eq_some_iff.mp found
    have same : fn.runtimeId = runtimeId := by simpa using find?_some known
    have flattened := mem_of_find?_eq_some known
    obtain ⟨chain, fuel, scope, isScope, chained, listed, _, reached⟩ := @Host.exists_body compiled.host
      compiled.mode compiled.emission compiled.staging compiled.included compiled.named
      compiled.entered compiled.closes fn flattened (same ▸ executed)
    have entry := @Host.lookup_body compiled.host compiled.mode compiled.emission compiled.staging
      compiled.included compiled.named fuel scope fn isScope listed
    have place := Host.runtimeId_local compiled.named flattened
      (Host.around_of_owned isScope (Host.mem_scopeNodes_iff.mp listed).2.2)
    refine ⟨⟨chain, Host.localRuntimeId compiled.staging.flat fn.runtimeId scope⟩, ?_, ?_⟩
    · unfold Spot.runtimeId
      rw [← chained, ← place, same]
    · unfold entryAt
      rw [graph_eq, reached, bind_some, entry]
      change ((compiled.staging.node? fn.runtimeId).map _).isSome = true
      rw [same, known]
      rfl
  · simp at found

variable {compiled}

variable {entry : NativeEntry} {spot : Spot}

theorem EntryOf.lookup_prompt (here : compiled.EntryOf spot entry scope fn) :
    compiled.artifact.prompt.lookup spot.runtimeId =
      some (compiled.host.promptNode compiled.staging.delivered fn) := by
  rw [compiled.lookup_prompt, if_pos here.executed]
  unfold Staging.node?
  rw [here.found]
  rfl

theorem EntryOf.inputs (here : compiled.EntryOf spot entry scope fn) :
    entry.inputs = compiled.host.nativeInputs compiled.staging.flat compiled.staging.delivered
      scope fn := by
  obtain ⟨fuel, emitted⟩ := here.emitted
  rw [emitted]
  unfold Host.nativeEntry
  dsimp only
  split <;> rfl

/-- What the entry of a plain node has from its prompt entry. -/
structure FromPrompt (node : PromptNode) (nodeType : String)
    (members : Option (List (String × List String))) (variants : List (String × String)) :
    Prop where
  classType : node.classType = nodeType
  members : node.outputMembers = members
  variants : node.slotVariants = variants

theorem EntryOf.node {nodeType : String} {inputs : List (String × Json)}
    {members : Option (List (String × List String))} {variants : List (String × String)}
    (here : compiled.EntryOf spot (.node nodeType inputs members variants) scope fn) :
    FromPrompt (compiled.host.promptNode compiled.staging.delivered fn) nodeType members
      variants := by
  obtain ⟨fuel, emitted⟩ := here.emitted
  unfold Host.nativeEntry at emitted
  dsimp only at emitted
  split at emitted
  · have parts := NativeEntry.node.inj emitted
    exact ⟨parts.1.symm, parts.2.2.1.symm, parts.2.2.2.symm⟩
  · simp at emitted

theorem entryOf (found : entryAt compiled.graph spot = some entry) :
    ∃ scope fn, compiled.EntryOf spot entry scope fn := by
  rw [graph_eq] at found
  exact Host.entryOf_of_entryAt compiled.named found

/-- The output a link names is one that the prompt entry of the producer lists. -/
theorem outputIdOf_eq {producer : String} {slot : Rat}
    (found : compiled.staging.node? producer = some fn) :
    compiled.host.outputIdOf compiled.staging.flat producer slot =
      Host.elementAt (compiled.host.promptNode compiled.staging.delivered fn).outputIds slot := by
  have same : fn.runtimeId = producer := by simpa using find?_some found
  unfold Staging.node? at found
  unfold Host.outputIdOf
  rw [found, bind_some]
  unfold Host.promptNode Host.elementAt
  dsimp only
  split
  · rw [getElem?_map, same]
  · rfl

end Compiled

/-! ## Entries that the walk compares -/

section Compared

variable {first second : Compiled}

variable {other scope : Option RegionLowering}

variable {producer : String} {value : Json}

/-- A producer is renamed alike in scopes of the same region. -/
theorem localRuntimeId_congr (isScope : first.host.IsScope scope)
    (isOther : second.host.IsScope other)
    (same : scope.map (·.runtimeId) = other.map (·.runtimeId)) {fn another : FlatNode}
    (found : first.staging.node? producer = some fn)
    (foundOther : second.staging.node? producer = some another) :
    Host.localRuntimeId first.staging.flat producer scope =
      Host.localRuntimeId second.staging.flat producer other := by
  have here := first.named fn (mem_of_find?_eq_some found)
  have there := second.named another (mem_of_find?_eq_some foundOther)
  have named : fn.runtimeId = producer := by simpa using find?_some found
  have namedOther : another.runtimeId = producer := by simpa using find?_some foundOther
  rw [named, ← namedOther, there] at here
  have equal := OccurrenceRef.mk.inj (occurrenceKey_injective here)
  have paths := reverse_injective equal.1
  unfold Staging.node? at found foundOther
  cases scope with
  | none =>
    cases other with
    | none => rfl
    | some region => simp at same
  | some region =>
    cases other with
    | none => simp at same
    | some opposite =>
      have regions : region.runtimeId = opposite.runtimeId := some.inj same
      rw [Host.runtimeId_of_region (isScope region rfl),
        Host.runtimeId_of_region (isOther opposite rfl)] at regions
      have length : region.childPath.length = opposite.childPath.length := by
        unfold RegionLowering.childPath
        rw [length_cons, length_cons, Host.path_of_runtimeId regions]
      unfold Host.localRuntimeId
      rw [found, foundOther]
      dsimp only
      rw [paths, equal.2, length]

variable {runtimeId : String}

theorem entriesEqual_spec {left right : Prompt} (equal : entriesEqual left right runtimeId = true) :
    ∃ node other, left.lookup runtimeId = some node ∧ right.lookup runtimeId = some other ∧
      nodesEqual node other = true := by
  unfold entriesEqual at equal
  split at equal
  · rename_i node other found foundOther
    exact ⟨node, other, found, foundOther, equal⟩
  · exact absurd equal Bool.false_ne_true

theorem node?_of_lookup {compiled : Compiled} {node : PromptNode}
    (found : compiled.artifact.prompt.lookup runtimeId = some node) :
    ∃ fn, compiled.staging.node? runtimeId = some fn ∧
      compiled.host.promptNode compiled.staging.delivered fn = node := by
  rw [compiled.lookup_prompt] at found
  split at found
  · exact map_eq_some_iff.mp found
  · simp at found

theorem wireInput_congr (isScope : first.host.IsScope scope) (isOther : second.host.IsScope other)
    (same : scope.map (·.runtimeId) = other.map (·.runtimeId)) {slot : Rat}
    (equal : entriesEqual first.artifact.prompt second.artifact.prompt producer = true) :
    first.host.wireInput first.staging.flat scope (.arr [.str producer, .num slot]) =
      second.host.wireInput second.staging.flat other (.arr [.str producer, .num slot]) := by
  obtain ⟨node, another, lookup, lookupOther, nodes⟩ := entriesEqual_spec equal
  obtain ⟨fn, found, here⟩ := node?_of_lookup lookup
  obtain ⟨fnOther, foundOther, there⟩ := node?_of_lookup lookupOther
  have outputs : node.outputIds = another.outputIds := by
    unfold nodesEqual at nodes
    simp only [Bool.and_eq_true, decide_eq_true_eq] at nodes
    exact nodes.1.1.2
  unfold Host.wireInput
  dsimp only
  rw [Compiled.outputIdOf_eq found, Compiled.outputIdOf_eq foundOther, here, there, outputs,
    localRuntimeId_congr isScope isOther same found foundOther]

theorem asLink_eq_some {slot : Rat} (links : asLink value = some (producer, slot)) :
    value = .arr [.str producer, .num slot] := by
  unfold asLink at links
  split at links
  · have parts := Prod.mk.inj (some.inj links)
    rw [parts.1, parts.2]
  · simp at links

theorem wireInput_of_asLink_none {host : Host} {flat : List FlatNode}
    (literal : asLink value = none) : host.wireInput flat scope value = value := by
  unfold Host.wireInput
  split
  · exact absurd literal (by simp [asLink])
  · rfl

theorem jsonEqual_wireInput (isScope : first.host.IsScope scope)
    (isOther : second.host.IsScope other)
    (same : scope.map (·.runtimeId) = other.map (·.runtimeId)) {another : Json}
    (equal : sameInput value another = true)
    (producers : ∀ producer slot, asLink value = some (producer, slot) →
      entriesEqual first.artifact.prompt second.artifact.prompt producer = true) :
    jsonEqual (first.host.wireInput first.staging.flat scope value)
      (second.host.wireInput second.staging.flat other another) = true := by
  unfold sameInput at equal
  split at equal
  · rename_i link opposite links linksOther
    obtain ⟨producer, slot⟩ := link
    rw [← of_decide_eq_true equal] at linksOther
    rw [asLink_eq_some links, asLink_eq_some linksOther,
      wireInput_congr isScope isOther same (producers producer slot links)]
    apply jsonSameValue_refl
    unfold Host.wireInput
    dsimp only
    split
    · simp [linkWire, Json.Plain, plainFields, fieldKeys]
    · simp [Json.Plain, plainItems]
  · rename_i literal literalOther
    rw [wireInput_of_asLink_none literal, wireInput_of_asLink_none literalOther]
    exact equal
  · exact absurd equal Bool.false_ne_true

/-- What is emitted is submitted. -/
theorem getField_of_nativeEntries {host : Host} {delivered : List (String × PortAddress)}
    {fn : FlatNode} {name : String}
    (held : getField (host.nativeEntries delivered fn) name = some value) :
    getField (host.promptNode delivered fn).inputs name = some value := by
  have kept := (mem_filter.mp (mem_of_getField held)).2
  rw [← held]
  exact (@getField_filter _ name (fun key => !(host.comboNames delivered fn).contains key)
    kept).symm

section AtSpot

variable {spot : Spot} {entry other : NativeEntry} {scope opposite : Option RegionLowering}
  {fn another : FlatNode} (here : first.EntryOf spot entry scope fn)
  (there : second.EntryOf spot other opposite another)
  (equal : entriesEqual first.artifact.prompt second.artifact.prompt spot.runtimeId = true)

include here there equal in
theorem nodesEqual_of_entriesEqual : nodesEqual (first.host.promptNode first.staging.delivered fn)
      (second.host.promptNode second.staging.delivered another) = true := by
  obtain ⟨node, opposing, lookup, lookupOther, nodes⟩ := entriesEqual_spec equal
  rw [here.lookup_prompt] at lookup
  rw [there.lookup_prompt] at lookupOther
  rw [some.inj lookup, some.inj lookupOther]
  exact nodes

include here there equal in
theorem sameInputs_of_entriesEqual
    (producers : ∀ producer ∈ upstream first.artifact.prompt spot.runtimeId,
      entriesEqual first.artifact.prompt second.artifact.prompt producer = true)
    (names : SameNames entry.inputs other.inputs) : SameInputs entry.inputs other.inputs := by
  intro name
  have listed := names name
  rw [mem_fieldKeys_iff, mem_fieldKeys_iff] at listed
  have nodes := nodesEqual_of_entriesEqual here there equal
  have scopes : scope.map (·.runtimeId) = opposite.map (·.runtimeId) := by
    rw [here.within, there.within]
  rw [here.inputs, there.inputs] at listed ⊢
  unfold Host.nativeInputs at listed ⊢
  rw [getField_mapValues, getField_mapValues] at listed ⊢
  cases held : getField (first.host.nativeEntries first.staging.delivered fn) name with
  | none =>
    rw [held] at listed
    cases heldOther : getField (second.host.nativeEntries second.staging.delivered another)
        name with
    | none => exact .none
    | some value =>
      rw [heldOther] at listed
      exact absurd (listed.mpr rfl) (by simp)
  | some value =>
    rw [held] at listed
    cases heldOther : getField (second.host.nativeEntries second.staging.delivered another)
        name with
    | none =>
      rw [heldOther] at listed
      exact absurd (listed.mp rfl) (by simp)
    | some opposing =>
      have member := mem_of_getField (getField_of_nativeEntries held)
      unfold nodesEqual at nodes
      rw [Bool.and_eq_true, List.all_eq_true] at nodes
      have matched := nodes.2 _ member
      rw [getField_of_nativeEntries heldOther, any_some] at matched
      apply Option.Rel.some
      apply jsonEqual_wireInput here.isScope there.isScope scopes matched
      intro producer slot links
      apply producers
      unfold upstream
      rw [here.lookup_prompt]
      exact mem_filterMap.mpr ⟨(name, value), member, by rw [links]; rfl⟩

include here there equal in
theorem sameEntry_of_entriesEqual
    (producers : ∀ producer ∈ upstream first.artifact.prompt spot.runtimeId,
      entriesEqual first.artifact.prompt second.artifact.prompt producer = true)
    (frame : SameFrame entry other) : SameEntry entry other := by
  have nodes := nodesEqual_of_entriesEqual here there equal
  have fed := sameInputs_of_entriesEqual here there equal producers
  cases frame with
  | node names =>
    have own := here.node
    have opposing := there.node
    unfold nodesEqual at nodes
    simp only [Bool.and_eq_true, decide_eq_true_eq] at nodes
    rw [own.classType, own.members, own.variants, opposing.classType, opposing.members,
      opposing.variants] at nodes
    rw [nodes.1.1.1.1.1]
    exact .node (fed names) nodes.1.1.1.2 nodes.1.1.1.1.2
  | region names bodies => exact .region (fed names) bodies

end AtSpot

/-- At a place that the walk compares, graphs with the same frame have the same. -/
theorem sameAt_of_entriesEqual {need : Need}
    (equal : entriesEqual first.artifact.prompt second.artifact.prompt need.spot.runtimeId = true)
    (producers : ∀ producer ∈ upstream first.artifact.prompt need.spot.runtimeId,
      entriesEqual first.artifact.prompt second.artifact.prompt producer = true)
    (frame : SameFrameAt first.graph second.graph need) : SameAt first.graph second.graph need := by
  cases need with
  | whole spot =>
    apply rel_imp _ frame
    intro entry other found foundOther frame
    obtain ⟨scope, fn, here⟩ := Compiled.entryOf found
    obtain ⟨opposite, another, there⟩ := Compiled.entryOf foundOther
    exact sameEntry_of_entriesEqual here there equal producers frame
  | feed spot =>
    apply rel_imp _ frame
    intro entry other found foundOther names
    obtain ⟨scope, fn, here⟩ := Compiled.entryOf found
    obtain ⟨opposite, another, there⟩ := Compiled.entryOf foundOther
    exact sameInputs_of_entriesEqual here there equal producers names

end Compared

section Soundness

variable (first second : Compiled)

/-- The same inputs of a place are links, rather than literals of their form. -/
def SameLinks (spot : Spot) : Prop :=
  ∀ entry, entryAt first.graph spot = some entry → ∀ name ∈ fieldKeys entry.inputs,
    (name ∈ first.linked spot.runtimeId ↔ name ∈ second.linked spot.runtimeId)

/-- Whether a node stands at a place of the native graph. -/
def Compiled.StandsAt (compiled : Compiled) (runtimeId : String) (spot : Spot) : Prop :=
  spot.runtimeId = runtimeId ∧ (entryAt compiled.graph spot).isSome = true

/-- A node computes the same in two compiles: what its value depends on has equal entries,
and a link of the one is a link of the other. -/
structure SameComputation (runtimeId : String) : Prop where
  placed : ∃ spot, first.StandsAt runtimeId spot
  same : ∀ spot, first.StandsAt runtimeId spot →
    ∀ need, Relation.ReflTransGen (Depends first.graph) (.whole spot) need →
      SameAt first.graph second.graph need ∧ SameLinks first second need.spot

def Walked (runtimeId : String) (need : Need) : Prop :=
  Reaches (upstream first.artifact.prompt) [runtimeId] need.spot.runtimeId

/-- What the walk overlooks at a need: the frame of an entry that it compares, an entry that
it does not come to, and which inputs are links. -/
structure OverlooksNothing (runtimeId : String) (need : Need) : Prop where
  frame : Walked first runtimeId need → SameFrameAt first.graph second.graph need
  beyond : ¬ Walked first runtimeId need → SameAt first.graph second.graph need
  links : SameLinks first second need.spot

end Soundness

section Fixture

def storedRegion (number : Rat) : Workflow where
  root := "root"
  graphs := [
    ⟨"root", [activeNode "make" "Make" [],
        instanceNode "loop" "body" (some (mapRegion ["item"])), activeNode "show" "Show" []],
      [portLink "feed" "make" "made" "loop" "item",
        portLink "out" "loop" "result" "show" "value"], [], [], [], [], none⟩,
    ⟨"body", [storing "take" "Take" number], [], [], [], [], [],
      some ([⟨"item", .unbound, [], false⟩],
        [⟨"result", .port ⟨"take", "taken", []⟩ none, [], false⟩])⟩]

/-- A document that compiles, by computing that it does. -/
def Compiled.ofHost (host : Host)
    (succeeds : (host.compileImpl unchosen unchecked .full).isOk = true)
    (emits : (host.artifact unchosen unchecked .full).nativeGraph.isSome = true) : Compiled where
  host := host
  emission := unchecked
  pickCandidate := none
  artifact := host.artifact unchosen unchecked .full
  graph := (host.artifact unchosen unchecked .full).nativeGraph.get emits
  compiles := Host.compileImpl_of_isOk succeeds
  emits := (some_get emits).symm

/-- The document with a five in the body. -/
def storedFive : Compiled :=
  .ofHost (.static (storedRegion 5) 3 numberTypes) (by decide +kernel) (by decide +kernel)

/-- The document with a six in the body. -/
def storedSix : Compiled :=
  .ofHost (.static (storedRegion 6) 3 numberTypes) (by decide +kernel) (by decide +kernel)

theorem schemaOf_static {doc : Workflow} {depth : Nat} {types : String → Option NodeType} :
    (Host.static doc depth types).schemaOf = fun _ node => (types node.type).map (·.schema) := rfl

theorem sameResolver : storedFive.host.schemaOf = storedSix.host.schemaOf :=
  (@schemaOf_static (storedRegion 5) 3 numberTypes).trans schemaOf_static.symm

def storedNumber (graph : NativeGraph) : Option Json :=
  (entryAt graph ⟨["loop"], "take"⟩).bind fun entry => getField entry.inputs "value"

def bodyTakes (graph : NativeGraph) : Bool :=
  match entryAt graph ⟨[], "loop"⟩ with
  | some (.region _ _ _ body _ _) => body.any fun member => member.1 = "take"
  | _ => false

end Fixture

end Dinkster.Compile
