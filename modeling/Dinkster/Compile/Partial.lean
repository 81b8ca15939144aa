import Dinkster.Compile.Frame
import Dinkster.Compile.Static

/-!
# Partial execution

A partial compile stages the same document as a full one and keeps the part its targets
need.  The closure of the targets follows every producer a node reads; what it may miss
are the producers of the nodes that regions bring in, for a region is completed after the
closure: the regions around a node of the closure, and the bodies of those regions.
-/

namespace Dinkster.Compile

open Format Library List

namespace Host

variable {host : Host} {mode : Mode}

variable {fn : FlatNode} {region : RegionLowering} {closed : List String} {flat : List FlatNode}
    {runtimeId : String}

theorem inside_iff : fn.inside region = true ↔ region.childPath <:+ fn.path := by
  unfold FlatNode.inside
  exact isSuffixOf_iff_suffix

theorem path_of_runtimeId {path other : List String} {node another : String}
    (same : runtimeIdAt path node = runtimeIdAt other another) : path = other := by
  have equal := occurrenceKey_injective same
  unfold occurrenceAt at equal
  exact reverse_injective (OccurrenceRef.mk.inj equal).1

variable {inner first second : RegionLowering}

theorem inside_of_inside {outer : RegionLowering} (within : fn.inside inner = true)
    (around : outer.childPath <:+ inner.path) : fn.inside outer = true := by
  rw [inside_iff] at within ⊢
  exact (around.trans (suffix_cons _ _)).trans within

/-- A region that the closure pulls in: it is in the closure, or it is around a node of
the closure. -/
inductive Pulled (host : Host) (flat : List FlatNode) (closed : List String)
    (region : RegionLowering) : Prop where
  | reached (listed : region ∈ host.collected.regions) (closes : region.runtimeId ∈ closed)
  | around (listed : region ∈ host.collected.regions) {fn : FlatNode} (flattened : fn ∈ flat)
      (closes : fn.runtimeId ∈ closed) (within : fn.inside region = true)

theorem Pulled.listed (pulled : host.Pulled flat closed region) :
    region ∈ host.collected.regions := by
  cases pulled <;> assumption

theorem Pulled.outer (pulled : host.Pulled host.collected.flat closed inner)
    (listed : region ∈ host.collected.regions) (around : region.childPath <:+ inner.path) :
    host.Pulled host.collected.flat closed region := by
  cases pulled with
  | reached known closes =>
    obtain ⟨fn, flattened, same, placed⟩ := entered_of_region known
    rw [← same] at closes
    exact .around listed flattened closes (inside_iff.mpr (placed ▸ around))
  | around _ flattened closes within =>
    exact .around listed flattened closes (inside_of_inside within around)

/-- What completing regions adds to a closure: the regions that are pulled in, and their
bodies. -/
inductive Completed (host : Host) (flat : List FlatNode) (closed : List String) :
    String → Prop where
  | closes {runtimeId : String} (listed : runtimeId ∈ closed) :
      Completed host flat closed runtimeId
  | region {region : RegionLowering} (pulled : host.Pulled flat closed region) :
      Completed host flat closed region.runtimeId
  | body {region : RegionLowering} {fn : FlatNode} (pulled : host.Pulled flat closed region)
      (flattened : fn ∈ flat) (within : fn.inside region = true) :
      Completed host flat closed fn.runtimeId

theorem childPath_of_runtimeId (firstListed : first ∈ host.collected.regions)
    (secondListed : second ∈ host.collected.regions) (same : first.runtimeId = second.runtimeId) :
    first.childPath = second.childPath := by
  rw [runtimeId_of_region firstListed, runtimeId_of_region secondListed] at same
  have equal := occurrenceKey_injective same
  unfold RegionLowering.childPath
  rw [path_of_runtimeId same, (OccurrenceRef.mk.inj equal).2]

theorem runtimeId_of_childPath (firstListed : first ∈ host.collected.regions)
    (secondListed : second ∈ host.collected.regions) (same : first.childPath = second.childPath) :
    first.runtimeId = second.runtimeId := by
  have parts := List.cons.inj same
  rw [runtimeId_of_region firstListed, runtimeId_of_region secondListed, parts.1, parts.2]

theorem path_of_region (named : ∀ fn ∈ flat, fn.runtimeId = runtimeIdAt fn.path fn.node.id)
    (listed : fn ∈ flat) (known : region ∈ host.collected.regions)
    (same : fn.runtimeId = region.runtimeId) : fn.path = region.path := by
  rw [named fn listed, runtimeId_of_region known] at same
  exact path_of_runtimeId same

theorem mem_regionsAround
    (listed : runtimeId ∈ (host.collected.regions.filter fn.inside).map (·.runtimeId)) :
    ∃ region ∈ host.collected.regions, fn.inside region = true ∧ region.runtimeId = runtimeId := by
  obtain ⟨region, found, same⟩ := mem_map.mp listed
  exact ⟨region, (mem_filter.mp found).1, (mem_filter.mp found).2, same⟩

section

variable (named : ∀ fn ∈ flat, fn.runtimeId = runtimeIdAt fn.path fn.node.id)

include named

theorem mem_addRegions : ∀ runtimeId ∈ host.addRegions flat closed, runtimeId ∈ closed ∨
        ∃ region, host.Pulled flat closed region ∧ region.runtimeId = runtimeId := by
  apply absorb_induct
  · intro runtimeId listed
    exact .inl listed
  · intro fn flattened kept runtimeId gained
    obtain ⟨region, listed, within, same⟩ := mem_regionsAround gained
    refine .inr ⟨region, ?_, same⟩
    cases kept with
    | inl closes => exact .around listed flattened closes within
    | inr pulled =>
      obtain ⟨inner, pulled, equal⟩ := pulled
      have here := path_of_region named flattened pulled.listed equal.symm
      rw [inside_iff, here] at within
      cases pulled with
      | reached _ closes =>
        rw [equal] at closes
        exact .around listed flattened closes (inside_iff.mpr (here ▸ within))
      | around _ known closes inside =>
        exact .around listed known closes (inside_of_inside inside within)

theorem Completed.body_of_region (listed : region ∈ host.collected.regions)
    (completed : host.Completed flat closed region.runtimeId) (flattened : fn ∈ flat)
    (within : fn.inside region = true) : host.Completed flat closed fn.runtimeId := by
  generalize identified : region.runtimeId = runtimeId at completed
  cases completed with
  | closes closes =>
    rw [← identified] at closes
    exact .body (.reached listed closes) flattened within
  | region pulled =>
    apply Completed.body pulled flattened
    rw [inside_iff] at within ⊢
    rw [← childPath_of_runtimeId listed pulled.listed identified]
    exact within
  | body pulled known inside =>
    have here := path_of_region named known listed identified.symm
    rw [inside_iff, here] at inside
    exact .body pulled flattened (inside_of_inside within inside)

/-- What is executed is the completed closure. -/
theorem mem_completed_iff : runtimeId ∈ host.addBodies flat (host.addRegions flat closed) ↔
      host.Completed flat closed runtimeId := by
  have first : ∀ {region}, host.Pulled flat closed region →
      region.runtimeId ∈ host.addRegions flat closed := by
    intro region pulled
    cases pulled with
    | reached _ closes => exact mem_absorb_of_mem closes
    | around listed flattened closes within =>
      apply mem_absorb_of_gain flattened closes
      exact mem_map_of_mem (mem_filter.mpr ⟨listed, within⟩)
  constructor
  · apply absorb_induct
    · intro kept listed
      cases mem_addRegions named kept listed with
      | inl closes => exact .closes closes
      | inr pulled =>
        obtain ⟨region, pulled, same⟩ := pulled
        rw [← same]
        exact .region pulled
    · intro region listed kept other gained
      obtain ⟨fn, found, same⟩ := mem_map.mp gained
      have flattened := (mem_filter.mp found).1
      have within := (mem_filter.mp found).2
      rw [← same]
      exact kept.body_of_region named listed flattened within
  · intro completed
    cases completed with
    | closes closes => exact mem_absorb_of_mem (mem_absorb_of_mem closes)
    | region pulled => exact mem_absorb_of_mem (first pulled)
    | body pulled flattened within =>
      apply mem_absorb_of_gain pulled.listed (first pulled)
      exact mem_map_of_mem (mem_filter.mpr ⟨flattened, within⟩)

end

/-- A region around an executed node is executed. -/
theorem Completed.region_of_body (listed : region ∈ host.collected.regions)
    (flattened : fn ∈ host.collected.flat) (within : fn.inside region = true)
    (completed : host.Completed host.collected.flat closed fn.runtimeId) :
    host.Completed host.collected.flat closed region.runtimeId := by
  generalize identified : fn.runtimeId = runtimeId at completed
  cases completed with
  | closes closes =>
    rw [← identified] at closes
    exact .region (.around listed flattened closes within)
  | @region inner pulled =>
    have here := path_of_region (fun _ => runtimeId_of_collected) flattened pulled.listed
      identified
    rw [inside_iff, here] at within
    exact .region (pulled.outer listed within)
  | @body inner other pulled known inside =>
    rw [runtimeId_of_collected flattened, runtimeId_of_collected known] at identified
    rw [inside_iff] at within inside
    rw [path_of_runtimeId identified] at within
    -- the two regions are around one node, so one is around the other or they are the same
    cases suffix_or_suffix_of_suffix inside within with
    | inl outside =>
      cases suffix_cons_iff.mp outside with
      | inl same =>
        rw [← runtimeId_of_childPath pulled.listed listed same]
        exact .region pulled
      | inr around =>
        obtain ⟨entry, collected, same, placed⟩ := entered_of_region listed
        rw [← same]
        exact .body pulled collected (inside_iff.mpr (placed ▸ around))
    | inr outside =>
      cases suffix_cons_iff.mp outside with
      | inl same =>
        rw [runtimeId_of_childPath listed pulled.listed same]
        exact .region pulled
      | inr around => exact .region (pulled.outer listed around)

theorem pulled_bare_iff :
    host.Pulled (flat.map FlatNode.bare) closed region ↔ host.Pulled flat closed region := by
  constructor
  · intro pulled
    cases pulled with
    | reached listed closes => exact .reached listed closes
    | around listed flattened closes within =>
      obtain ⟨fn, known, same⟩ := mem_map.mp flattened
      subst same
      exact .around listed known closes within
  · intro pulled
    cases pulled with
    | reached listed closes => exact .reached listed closes
    | around listed flattened closes within =>
      exact .around listed (mem_map_of_mem flattened) closes within

/-- Completing regions does not depend on what is staged. -/
theorem completed_bare_iff : host.Completed (flat.map FlatNode.bare) closed runtimeId ↔
      host.Completed flat closed runtimeId := by
  constructor
  · intro completed
    cases completed with
    | closes listed => exact .closes listed
    | region pulled => exact .region (pulled_bare_iff.mp pulled)
    | body pulled flattened within =>
      obtain ⟨fn, known, same⟩ := mem_map.mp flattened
      subst same
      exact @Completed.body host flat closed _ fn (pulled_bare_iff.mp pulled) known within
  · intro completed
    cases completed with
    | closes listed => exact .closes listed
    | region pulled => exact .region (pulled_bare_iff.mpr pulled)
    | @body _ fn pulled flattened within =>
      exact @Completed.body host _ closed _ fn.bare (pulled_bare_iff.mpr pulled)
        (mem_map_of_mem flattened) within

theorem runtimeId_of_staged (listed : fn ∈ (host.staged mode).flat) :
    fn.runtimeId = runtimeIdAt fn.path fn.node.id := by
  have collected : fn.bare ∈ (host.staged mode).flat.map FlatNode.bare :=
    mem_map.mpr ⟨fn, listed, rfl⟩
  rw [staged_framed.collected] at collected
  exact (runtimeId_of_collected collected : fn.bare.runtimeId = _)

theorem mem_executed_iff {scope : ExecutionScope} :
    runtimeId ∈ host.executed mode (host.staged mode) scope ↔
      host.Completed host.collected.flat (host.closureOf mode (host.staged mode) scope)
        runtimeId := by
  unfold executed
  rw [mem_completed_iff fun fn listed => runtimeId_of_staged listed, ← completed_bare_iff,
    staged_framed.collected]

/-- Looking an entry up in a part of a table finds what the whole table has. -/
theorem lookup_map_filter {Element Value : Type} {key : Element → String}
    {value : Element → Value} {kept : List String} {name : String} : ∀ {elements : List Element},
      ((elements.filter fun element => kept.contains (key element)).map
        fun element => (key element, value element)).lookup name =
        if name ∈ kept then (elements.find? (key · = name)).map value else none
  | [] => by simp
  | element :: elements => by
    have ih := @lookup_map_filter _ _ key value kept name elements
    rw [filter_cons, find?_cons]
    by_cases same : key element = name
    · subst same
      by_cases listed : key element ∈ kept
      · simp [listed]
      · rw [if_neg (by simpa using listed), ih, if_neg listed, if_neg listed]
    · have other : (name == key element) = false := by simpa using Ne.symm same
      rw [show decide (key element = name) = false by simp [same]]
      split
      · rw [map_cons, lookup_cons, other]
        exact ih
      · exact ih

theorem lookup_prompt (emission : Emission) (scope : ExecutionScope) (runtimeId : String) :
    (host.artifact mode emission scope).prompt.lookup runtimeId =
      if runtimeId ∈ host.executed mode (host.staged mode) scope then
        ((host.staged mode).node? runtimeId).map fun fn =>
          host.promptNode (host.staged mode).delivered (host.withDefaults fn)
      else none := by
  unfold artifact
  dsimp only
  rw [@lookup_map_filter FlatNode PromptNode (·.runtimeId)]
  split
  · rename_i executed
    unfold completed Staging.node?
    dsimp only
    rw [find?_map]
    have same : ((fun fn : FlatNode => decide (fn.runtimeId = runtimeId)) ∘
        fun fn : FlatNode =>
          if validates scope (host.executed mode (host.staged mode) scope) fn.runtimeId then
            host.withDefaults fn
          else fn) = fun fn : FlatNode => decide (fn.runtimeId = runtimeId) := by
      funext fn
      rw [Function.comp_apply]
      split <;> rfl
    rw [same]
    cases found : (host.staged mode).flat.find? (·.runtimeId = runtimeId) with
    | none => rfl
    | some fn =>
      have here : fn.runtimeId = runtimeId := by simpa using find?_some found
      rw [Option.map_some, here, if_pos (validates_of_executed executed)]
      rfl
  · rfl

end Host

def FlatNode.linkedProducers (fn : FlatNode) : List String :=
  fn.linkedInputs.filterMap fun key => (getField fn.inputs key).bind arrayHead

namespace Host

variable {host : Host} {mode : Mode}

variable {producer : String}

theorem mem_arrayHeads_of_linked {fn : FlatNode} (linked : producer ∈ fn.linkedProducers) :
    producer ∈ arrayHeads fn.inputs := by
  obtain ⟨key, _, heads⟩ := mem_filterMap.mp linked
  obtain ⟨value, held, headed⟩ := Option.bind_eq_some_iff.mp heads
  exact mem_filterMap.mpr ⟨(key, value), mem_of_getField held, headed⟩

/-- A partial compile runs the same computation as a full one: common entries are equal,
regions come with their bodies, and every producer a linked input names is executed. -/
structure RunsSame (host : Host) (mode : Mode) (whole part : Artifact) : Prop where
  entries : ∀ runtimeId first second, whole.prompt.lookup runtimeId = some first →
    part.prompt.lookup runtimeId = some second → first = second
  bodies : ∀ region ∈ host.collected.regions, region.runtimeId ∈ part.included →
    ∀ fn ∈ (host.staged mode).flat, fn.inside region = true → fn.runtimeId ∈ part.included
  closed : ∀ runtimeId fn, (host.staged mode).node? runtimeId = some fn →
    runtimeId ∈ part.included → ∀ producer ∈ fn.linkedProducers, producer ∈ part.included

/-- Regions are pulled in with their producers: whatever is linked into a region that the
closure enters, or into a node of its body, is in the closure or is pulled in as well. -/
def WallsHold (host : Host) (staging : Staging) (closed : List String) : Prop :=
  ∀ region, host.Pulled staging.flat closed region →
    ∀ runtimeId fn, staging.node? runtimeId = some fn →
      runtimeId = region.runtimeId ∨ fn.inside region = true →
        ∀ producer ∈ fn.linkedProducers, host.Completed staging.flat closed producer

theorem wallsHold_of_outside {staging : Staging} {closed : List String}
    (outside : (host.collected.regions.all fun region =>
      !closed.contains region.runtimeId && staging.flat.all fun fn =>
        !(closed.contains fn.runtimeId && fn.inside region)) = true) :
    host.WallsHold staging closed := by
  intro region pulled
  have apart := all_eq_true.mp outside region pulled.listed
  rw [Bool.and_eq_true, Bool.not_eq_true'] at apart
  cases pulled with
  | reached _ closes =>
    rw [contains_iff_mem.mpr closes] at apart
    exact absurd apart.1 Bool.noConfusion
  | around _ flattened closes within =>
    have free := all_eq_true.mp apart.2 _ flattened
    rw [contains_iff_mem.mpr closes, within] at free
    exact absurd free Bool.noConfusion

theorem producer_closes (exact : mode.wouldRun = false) {targets : List OccurrenceRef}
    {runtimeId : String} {fn : FlatNode} (found : (host.staged mode).node? runtimeId = some fn)
    (closes : runtimeId ∈ host.closureOf mode (host.staged mode) (.targets targets))
    (linked : producer ∈ fn.linkedProducers) :
    producer ∈ host.closureOf mode (host.staged mode) (.targets targets) := by
  rw [mem_closureOf_iff rfl] at closes ⊢
  apply closes.step
  rw [staged_edges exact, producersOf_exact exact, headsOf]
  unfold Staging.node? at found
  rw [found]
  exact mem_arrayHeads_of_linked linked

end Host

section Fixture

def regionTypes : String → Option NodeType
  | "Show" => some ⟨⟨true, false, none⟩,
      unaryInterface (staticInput "value" (.concrete "IMAGE")) []⟩
  | "Make" => some ⟨⟨false, false, none⟩,
      staticInterface [] [staticOutput "made" (.list (.concrete "IMAGE"))]⟩
  | "Take" => some ⟨⟨false, false, none⟩,
      unaryInterface (staticInput "value" (.concrete "IMAGE"))
        [staticOutput "taken" (.concrete "IMAGE")]⟩
  | "#body" => some ⟨⟨false, false, none⟩,
      unaryInterface (staticInput "item" (.list (.concrete "IMAGE")))
        [staticOutput "result" (.list (.concrete "IMAGE"))]⟩
  | _ => none

/-- A region that is fed by a node, beside a node that shows a literal. -/
def fedRegion (shown : Json) : Workflow where
  root := "root"
  graphs := [
    ⟨"root", [activeNode "make" "Make" [],
        instanceNode "loop" "body" (some (mapRegion ["item"])),
        valuedNode "show" "Show" "value" shown],
      [portLink "feed" "make" "made" "loop" "item"], [], [], [], [], none⟩,
    ⟨"body", [activeNode "take" "Take" []], [], [], [], [], [],
      some ([⟨"item", .port ⟨"take", "value", []⟩ none, [], false⟩],
        [⟨"result", .port ⟨"take", "taken", []⟩ none, [], false⟩])⟩]

/-- A compile of such a document. -/
def fedRegionHost (shown : Json) : Host :=
  .static (fedRegion shown) 3 regionTypes

/-- Only the node that shows the literal. -/
def showOnly : List OccurrenceRef := [⟨[], "show"⟩]

/-- A literal that names a node of a region's body. -/
def namesBody : Json := .arr [.str "loop.take", .str "taken"]

end Fixture

end Dinkster.Compile
