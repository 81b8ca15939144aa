import Dinkster.Junction.Trace
import Dinkster.Library.Search

/-!
# What a junction depends on

A reroute depends on what drives it, a tap on what drives its input, and a selector on what
drives any of its candidates, since its policy can change.  A trace picks one candidate of
each selector.  When no junction depends on itself no trace is cyclic, and otherwise some
choice of candidates has a trace that is.
-/

namespace Dinkster.Junction

open Format Library List

/-- A junction of a definition, or the input behind a widget tap. -/
inductive Vertex where
  | reroute (id : String)
  | selector (id : String)
  | tap (node input : String)
  deriving DecidableEq

/-- The junction whose output an endpoint is. -/
def follow : LinkEndpoint → Option Vertex
  | .reroute id => some (.reroute id)
  | .selector id none => some (.selector id)
  | .tap node input => some (.tap node input)
  | _ => none

/-- The junction a stop belongs to. -/
def Stop.vertex : Stop → Vertex
  | .reroute id => .reroute id
  | .candidate id _ => .selector id
  | .tap node input => .tap node input

variable (definition : GraphDef)

def driverInto (target : LinkEndpoint) : Option LinkData :=
  definition.links.find? fun link => link.target = target

def Stop.Known : Stop → Prop
  | .reroute id => id ∈ definition.reroutes
  | .candidate id choice =>
    ∃ selector, definition.selector? id = some selector ∧ choice ∈ selector.candidates
  | .tap _ _ => True

/-- `source` is what a link into `target`, which exists, comes from. -/
def Upstream (source target : Vertex) : Prop :=
  ∃ stop driver, Stop.vertex stop = target ∧ Stop.Known definition stop ∧
    driverInto definition stop.target = some driver ∧ follow driver.source = some source

/-- Links leave no selector candidate, and what they drive exists. -/
structure Wired : Prop where
  produces : ∀ link ∈ definition.links, ∀ id candidate,
    link.source ≠ .selector id (some candidate)
  known : ∀ link ∈ definition.links, ∀ stop, link.target = Stop.target stop →
    stop.Known definition

def Chooses (resolution : SelectorResolution) : Prop :=
  ∀ id selector, definition.selector? id = some selector → selector.candidates ≠ [] →
    ∃ candidate ∈ selector.candidates, resolution.get id = some candidate

variable {definition}

theorem driverInto_eq {target : LinkEndpoint} {driver : LinkData}
    (found : driverInto definition target = some driver) :
    driver ∈ definition.links ∧ driver.target = target :=
  ⟨mem_of_find?_eq_some found, by simpa using find?_some found⟩

/-- Where a link that leaves no candidate sends a trace is the junction it leaves. -/
theorem follow_of_stopAt {selection : Option SelectorResolution} {lastLink : Option LinkData}
    {endpoint : LinkEndpoint} {stop : Stop} (sent : stopAt selection lastLink endpoint = .ok stop)
    (produces : ∀ id candidate, endpoint ≠ .selector id (some candidate)) :
    follow endpoint = some stop.vertex := by
  cases endpoint with
  | port _ | valueSource _ => cases sent
  | reroute id | tap node input =>
    cases sent
    rfl
  | selector id candidate =>
    cases candidate with
    | some candidate => exact absurd rfl (produces id candidate)
    | none =>
      cases selection with
      | none => cases sent
      | some resolution =>
        dsimp only [stopAt] at sent
        cases chosen : resolution.get id with
        | none =>
          rw [chosen] at sent
          cases sent
        | some candidate =>
          rw [chosen] at sent
          cases sent
          rfl

section Trace

variable {index : Option RerouteIndex} {selection : Option SelectorResolution}

theorem traceLoop_acyclic {relation : Vertex → Vertex → Prop} {plain : LinkEndpoint → Prop}
    (indexes : Indexes definition index) (edges : ∀ {current lastLink stop driver}, plain current →
      stopAt selection lastLink current = .ok stop →
      driverInto definition stop.target = some driver →
        plain driver.source ∧ ∀ {later next}, stopAt selection later driver.source = .ok next →
          relation next.vertex stop.vertex)
    (turns : Nat) : ∀ {current : LinkEndpoint} {lastLink : Option LinkData}
      {visited : List Stop} {trace : RerouteTrace}, plain current →
      (∀ stop, stopAt selection lastLink current = .ok stop → Acc relation stop.vertex ∧
          ∀ other ∈ visited, Relation.TransGen relation stop.vertex other.vertex) →
      traceLoop definition index selection turns current lastLink visited = some trace →
        trace.cyclic = false := by
  induction turns with
  | zero =>
    intro current lastLink visited trace _ _ traced
    cases traced
  | succ turns ih =>
    intro current lastLink visited trace known safe traced
    unfold traceLoop at traced
    cases sent : stopAt selection lastLink current with
    | error ended =>
      rw [sent] at traced
      cases traced
      exact cyclic_of_stopAt sent
    | ok stop =>
      rw [sent] at traced
      dsimp only at traced
      have here := safe stop sent
      have fresh : stop ∉ visited := fun met =>
        not_transGen_of_acc here.1 (here.2 stop met)
      rw [if_neg fresh, Stop.driver_eq indexes] at traced
      cases found : definition.links.find? fun link => link.target = stop.target with
      | none =>
        rw [found] at traced
        cases traced
        exact stop.cyclic_ending
      | some driver =>
        rw [found] at traced
        have onward := edges known sent found
        apply ih onward.1 _ traced
        intro next sent
        -- the walk moves to what the stop it leaves depends on
        have edge := onward.2 sent
        constructor
        · exact here.1.inv edge
        · intro other listed
          cases mem_cons.mp listed with
          | inl same => exact same ▸ .single edge
          | inr older => exact .head edge (here.2 other older)

theorem traceEndpoint_acyclic (indexes : Indexes definition index) (wired : Wired definition)
    (safe : ∀ vertex, Acc (Upstream definition) vertex) {start : LinkEndpoint}
    {trace : RerouteTrace} (traced : traceEndpoint definition start index selection = some trace) :
    trace.cyclic = false := by
  refine @traceLoop_acyclic definition index selection (Upstream definition) (fun _ => True)
    indexes ?_ _ _ _ _ _ trivial ?_ traced
  · intro current lastLink stop driver _ _ found
    refine ⟨trivial, ?_⟩
    intro later next sent
    have driven := driverInto_eq found
    exact ⟨stop, driver, rfl, wired.known driver driven.1 stop driven.2, found,
      follow_of_stopAt sent (wired.produces driver driven.1)⟩
  · intro stop _
    exact ⟨safe stop.vertex, fun _ listed => absurd listed not_mem_nil⟩

theorem traceLoop_cyclic {endless : Vertex → Prop} (indexes : Indexes definition index)
    (goes : ∀ {current vertex}, follow current = some vertex → endless vertex → ∀ lastLink,
      ∃ stop driver source, stopAt selection lastLink current = .ok stop ∧
        driverInto definition stop.target = some driver ∧ follow driver.source = some source ∧
          endless source) (turns : Nat) : ∀ {current : LinkEndpoint} {lastLink : Option LinkData}
      {visited : List Stop} {vertex : Vertex} {trace : RerouteTrace},
      follow current = some vertex → endless vertex →
      traceLoop definition index selection turns current lastLink visited = some trace →
        trace.cyclic = true := by
  induction turns with
  | zero =>
    intro current lastLink visited vertex trace _ _ traced
    cases traced
  | succ turns ih =>
    intro current lastLink visited vertex trace leads looping traced
    obtain ⟨stop, driver, source, sent, found, left, other⟩ := goes leads looping lastLink
    have driven : stop.driver definition index = some driver :=
      (Stop.driver_eq indexes stop).trans found
    unfold traceLoop at traced
    rw [sent] at traced
    dsimp only at traced
    by_cases met : stop ∈ visited
    · rw [if_pos met] at traced
      cases traced
      exact stop.cyclic_cycle
    · rw [if_neg met, driven] at traced
      exact ih left other traced

end Trace

variable {vertex : Vertex} {index : Option RerouteIndex}

theorem exists_driver_of_looping (looping : ¬ Acc (Upstream definition) vertex) :
    ∃ stop driver source, Stop.vertex stop = vertex ∧ Stop.Known definition stop ∧
      driverInto definition stop.target = some driver ∧ follow driver.source = some source ∧
        ¬ Acc (Upstream definition) source := by
  by_contra none
  apply looping
  constructor
  intro source edge
  obtain ⟨stop, driver, same, known, found, left⟩ := edge
  by_contra other
  exact none ⟨stop, driver, source, same, known, found, left, other⟩

/-- At every selector that is looping, the resolution follows a candidate that is. -/
def Pursues (definition : GraphDef) (resolution : SelectorResolution) : Prop :=
  ∀ id, ¬ Acc (Upstream definition) (.selector id) →
    ∃ candidate driver source, resolution.get id = some candidate ∧
      driverInto definition (.selector id (some candidate)) = some driver ∧
        follow driver.source = some source ∧ ¬ Acc (Upstream definition) source

theorem exists_stop_of_looping {resolution : SelectorResolution}
    (pursues : Pursues definition resolution) {current : LinkEndpoint}
    (leads : follow current = some vertex) (looping : ¬ Acc (Upstream definition) vertex)
    (lastLink : Option LinkData) :
    ∃ stop driver source, stopAt (some resolution) lastLink current = .ok stop ∧
      driverInto definition stop.target = some driver ∧ follow driver.source = some source ∧
        ¬ Acc (Upstream definition) source := by
  cases current with
  | port _ | valueSource _ => cases leads
  | reroute id =>
    cases leads
    obtain ⟨stop, driver, source, same, _, found⟩ := exists_driver_of_looping looping
    cases stop with
    | reroute other =>
      cases same
      exact ⟨_, driver, source, rfl, found⟩
    | candidate _ _ | tap _ _ => cases same
  | tap node input =>
    cases leads
    obtain ⟨stop, driver, source, same, _, found⟩ := exists_driver_of_looping looping
    cases stop with
    | reroute _ | candidate _ _ => cases same
    | tap _ _ =>
      cases same
      exact ⟨_, driver, source, rfl, found⟩
  | selector id candidate =>
    cases candidate with
    | some _ => cases leads
    | none =>
      cases leads
      obtain ⟨candidate, driver, source, chosen, found⟩ := pursues id looping
      refine ⟨.candidate id candidate, driver, source, ?_, found⟩
      dsimp only [stopAt]
      rw [chosen]

theorem get_map_ids {selectors : List SelectorData} {choice : String → String} {id : String}
    (listed : ∃ selector ∈ selectors, selector.id = id) :
    Table.get (selectors.map fun selector => (selector.id, choice selector.id)) id =
      some (choice id) := by
  induction selectors with
  | nil =>
    obtain ⟨_, listed, _⟩ := listed
    exact absurd listed not_mem_nil
  | cons first selectors ih =>
    rw [map_cons, Table.get_cons]
    by_cases same : first.id = id
    · rw [if_pos same, same]
    · rw [if_neg same]
      apply ih
      obtain ⟨selector, listed, named⟩ := listed
      cases mem_cons.mp listed with
      | inl here => exact absurd (here ▸ named) same
      | inr later => exact ⟨selector, later, named⟩

/-- Some choice of candidates pursues every loop. -/
theorem exists_pursuing :
    ∃ resolution, Chooses definition resolution ∧ Pursues definition resolution := by
  classical
  -- a looping selector is followed into a candidate that is, any other into its first one
  have picks : ∀ id, ∃ candidate, (∀ selector, definition.selector? id = some selector →
        selector.candidates ≠ [] → candidate ∈ selector.candidates) ∧
      (¬ Acc (Upstream definition) (.selector id) → ∃ driver source,
        (Stop.candidate id candidate).Known definition ∧ driverInto definition (.selector id (some candidate)) = some driver ∧
          follow driver.source = some source ∧ ¬ Acc (Upstream definition) source) := by
    intro id
    by_cases looping : Acc (Upstream definition) (.selector id)
    · cases found : definition.selector? id with
      | none => exact ⟨"", by simp, fun other => absurd looping other⟩
      | some selector =>
        cases candidates : selector.candidates with
        | nil =>
          refine ⟨"", ?_, fun other => absurd looping other⟩
          intro other same filled
          cases same
          exact absurd candidates filled
        | cons first rest =>
          refine ⟨first, ?_, fun other => absurd looping other⟩
          intro other same _
          cases same
          rw [candidates]
          exact mem_cons_self
    · obtain ⟨stop, driver, source, same, known, found, left, other⟩ :=
        exists_driver_of_looping looping
      cases stop with
      | reroute _ | tap _ _ => cases same
      | candidate _ candidate =>
        cases same
        refine ⟨candidate, ?_, fun _ => ⟨driver, source, known, found, left, other⟩⟩
        intro selector named _
        obtain ⟨_, listed, inside⟩ := known
        rw [listed] at named
        cases named
        exact inside
  choose choice candidates pursued using picks
  refine ⟨definition.selectors.map fun selector => (selector.id, choice selector.id), ?_, ?_⟩
  · intro id selector named filled
    refine ⟨choice id, candidates id selector named filled, ?_⟩
    apply get_map_ids
    exact ⟨selector, mem_of_find?_eq_some named, by simpa using find?_some named⟩
  · intro id looping
    obtain ⟨driver, source, known, found, left, other⟩ := pursued id looping
    refine ⟨choice id, driver, source, ?_, found, left, other⟩
    obtain ⟨selector, named, _⟩ := known
    apply get_map_ids
    exact ⟨selector, mem_of_find?_eq_some named, by simpa using find?_some named⟩

def linkEndpoints (definition : GraphDef) : List LinkEndpoint :=
  definition.links.flatMap fun link => [link.source, link.target]

/-- Whether some choice of candidates has a cyclic trace from an endpoint of a link. -/
def TracesCycle (definition : GraphDef) (index : Option RerouteIndex) : Prop :=
  ∃ resolution, Chooses definition resolution ∧
    ∃ endpoint ∈ linkEndpoints definition, ∃ trace,
      traceEndpoint definition endpoint index (some resolution) = some trace ∧
        trace.cyclic = true

/-- What depends on itself is found by tracing under a resolution that pursues it. -/
theorem tracesCycle_of_looping (indexes : Indexes definition index)
    (looping : ¬ Acc (Upstream definition) vertex) : TracesCycle definition index := by
  obtain ⟨resolution, chooses, pursues⟩ := @exists_pursuing definition
  obtain ⟨stop, driver, source, _, _, found, left, other⟩ := exists_driver_of_looping looping
  refine ⟨resolution, chooses, driver.source, ?_, ?_⟩
  · apply mem_flatMap.mpr
    exact ⟨driver, (driverInto_eq found).1, mem_cons_self⟩
  · obtain ⟨trace, traced⟩ := @traceEndpoint_total definition index (some resolution)
      indexes driver.source
    refine ⟨trace, traced, @traceLoop_cyclic definition index _
      (fun vertex => ¬ Acc (Upstream definition) vertex) indexes ?_ _ _ _ _ _ _ left other
      traced⟩
    intro current vertex leads looping lastLink
    exact exists_stop_of_looping pursues leads looping lastLink

theorem looping_of_tracesCycle (indexes : Indexes definition index) (wired : Wired definition)
    (cyclic : TracesCycle definition index) : ∃ vertex, ¬ Acc (Upstream definition) vertex := by
  obtain ⟨resolution, _, endpoint, _, trace, traced, cyclic⟩ := cyclic
  by_contra safe
  have safe : ∀ vertex, Acc (Upstream definition) vertex :=
    fun vertex => by_contra fun looping => safe ⟨vertex, looping⟩
  rw [traceEndpoint_acyclic indexes wired safe traced] at cyclic
  cases cyclic

end Dinkster.Junction
