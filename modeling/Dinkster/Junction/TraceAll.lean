import Dinkster.Junction.Cycles
import Dinkster.Library.Closure

/-!
# Tracing every branch

Type solving and the scope preview trace an endpoint into every candidate of the selectors
above it.  Without an index this walk does not look behind a widget tap, with an index it
does.  The answers are therefore the same exactly when the walk meets no tap whose input is
driven.
-/

namespace Dinkster.Junction

open Format Library List Option

/-! ## The walk -/

/-- `TraceVia`: what a walk passes through. -/
structure TraceVia where
  reroutes : List String
  selectors : Table (List String)
  valueSources : List String

/-- What a walk has found. -/
structure Collected where
  results : List RerouteTrace
  via : TraceVia

def addOnce (texts : List String) (text : String) : List String :=
  if text ∈ texts then texts else texts ++ [text]

/-- `via`: an endpoint that is passed through is noted. -/
def TraceVia.note (via : TraceVia) : LinkEndpoint → TraceVia
  | .reroute id => { via with reroutes := addOnce via.reroutes id }
  | .valueSource id => { via with valueSources := addOnce via.valueSources id }
  | .selector id candidate =>
    { via with
      selectors := via.selectors.set id
        (candidate.elim ((via.selectors.get id).getD [])
          (addOnce ((via.selectors.get id).getD []))) }
  | .tap _ _ | .port _ => via

/-- `emit`: a trace is emitted once. -/
def Collected.emit (found : Collected) (trace : Option RerouteTrace) : Collected :=
  match trace with
  | none => found
  | some trace =>
    if trace ∈ found.results then found
    else { found with results := found.results ++ [trace] }

section Walk

variable (definition : GraphDef) (index : Option RerouteIndex)
  (selection : Option SelectorResolution)

/-- The endpoints that follow an endpoint, the one that is popped next first. -/
def tracePushes : LinkEndpoint → List LinkEndpoint
  | .tap node input =>
    match index.bind (·.inputDriverOf.get (portRefKey (Stop.tapped node input))),
      index.bind (·.netSourceOf.get (portRefKey (Stop.tapped node input))) with
    | some driver, _ => [driver.source]
    | none, some source => [.port source]
    | none, none => []
  | .selector id (some candidate) =>
    (selectorDriverOf definition id candidate index).toList.map (·.source)
  | .selector id none =>
    match selection.bind (·.get id) with
    | some chosen => [.selector id (some chosen)]
    | none =>
      ((definition.selector? id).elim [] (·.candidates)).map fun candidate =>
        .selector id (some candidate)
  | .reroute id => (rerouteDriverOf definition id index).toList.map (·.source)
  | .valueSource _ | .port _ => []

def traceEmits : LinkEndpoint → Option RerouteTrace
  | .tap node input =>
    if tracePushes definition index selection (.tap node input) = [] then
      some (.tapValue node input none)
    else none
  | .valueSource id => some (.valueSource id none)
  | .selector id (some candidate) =>
    if (selectorDriverOf definition id candidate index).isNone then
      some (.selectorUndriven id candidate)
    else none
  | .selector _ none => none
  | .reroute id =>
    if (rerouteDriverOf definition id index).isNone then some (.undriven id) else none
  | .port ref => some (.output ref none)

def marked : LinkEndpoint → Bool
  | .valueSource _ | .port _ => false
  | _ => true

/-- The loop of `traceEndpointAll`.  The first number bounds its turns. -/
def traceAllLoop : Nat → List LinkEndpoint → List LinkEndpoint → Collected → Collected
  | 0, _, _, found => found
  | _ + 1, [], _, found => found
  | turns + 1, current :: stack, visited, found =>
    if marked current && visited.contains current then traceAllLoop turns stack visited found
    else
      traceAllLoop turns (tracePushes definition index selection current ++ stack)
        (if marked current then current :: visited else visited)
        ({ found with via := found.via.note current }.emit
          (traceEmits definition index selection current))

def traceNodes : List LinkEndpoint :=
  definition.links.map (fun link =>
      match link.target with
      | .port ref => .tap ref.node ref.port
      | target => target) ++
    (netSinks definition).map (fun delivery => .tap delivery.1.node delivery.1.port) ++
    definition.selectors.map (fun selector => .selector selector.id none) ++
    (selection.getD []).map fun entry => .selector entry.1 none

/-- What a worklist of endpoints pushes, the endpoint that is popped next last. -/
def traceNext (endpoint : LinkEndpoint) : List LinkEndpoint :=
  (tracePushes definition index selection endpoint).reverse

/-- As many turns as endpoints can be pushed. -/
def traceTurns : Nat :=
  1 + owed (traceNext definition (some (buildRerouteIndex definition)) selection) []
    (traceNodes definition selection)

def traceEndpointAll (start : LinkEndpoint) (index : Option RerouteIndex)
    (selection : Option SelectorResolution) : List RerouteTrace :=
  (traceAllLoop definition index selection (traceTurns definition selection) [start] []
    ⟨[], ⟨[], [], []⟩⟩).results

end Walk

/-! ## What the walk finds -/

variable {definition : GraphDef} {index : Option RerouteIndex}
  {selection : Option SelectorResolution}

def RerouteTrace.origin : RerouteTrace → LinkEndpoint
  | .output ref _ => .port ref
  | .valueSource id _ => .valueSource id
  | .undriven id | .cycle id => .reroute id
  | .tapValue node input _ | .tapCycle node input => .tap node input
  | .selector id _ | .selectorUnresolved id => .selector id none
  | .selectorUndriven id candidate | .selectorCycle id candidate => .selector id (some candidate)

theorem origin_of_emits {endpoint : LinkEndpoint} {trace : RerouteTrace}
    (emitted : traceEmits definition index selection endpoint = some trace) :
    trace.origin = endpoint := by
  unfold traceEmits at emitted
  split at emitted
  · split at emitted <;> cases emitted
    rfl
  · cases emitted
    rfl
  · split at emitted <;> cases emitted
    rfl
  · cases emitted
  · split at emitted <;> cases emitted
    rfl
  · cases emitted
    rfl

theorem mem_emitted_iff {seen : List LinkEndpoint} {endpoint : LinkEndpoint} {trace : RerouteTrace}
    (emitted : traceEmits definition index selection endpoint = some trace) :
    trace ∈ seen.filterMap (traceEmits definition index selection) ↔ endpoint ∈ seen := by
  constructor
  · intro listed
    obtain ⟨other, met, same⟩ := mem_filterMap.mp listed
    rw [← origin_of_emits emitted, origin_of_emits same]
    exact met
  · intro met
    exact mem_filterMap.mpr ⟨endpoint, met, emitted⟩

theorem results_emit {found : Collected} {seen : List LinkEndpoint} {endpoint : LinkEndpoint}
    (via : TraceVia)
    (results : found.results = seen.filterMap (traceEmits definition index selection)) :
    (({ found with via := via } : Collected).emit
        (traceEmits definition index selection endpoint)).results =
      if endpoint ∈ seen then found.results
      else (seen ++ [endpoint]).filterMap (traceEmits definition index selection) := by
  unfold Collected.emit
  rw [filterMap_append, ← results]
  cases emitted : traceEmits definition index selection endpoint with
  | none => simp [emitted]
  | some trace =>
    dsimp only
    have known := @mem_emitted_iff definition index selection seen endpoint trace emitted
    rw [← results] at known
    by_cases met : endpoint ∈ seen
    · rw [if_pos (known.mpr met), if_pos met]
    · rw [if_neg (fun listed => met (known.mp listed)), if_neg met]
      simp [emitted]

theorem pushes_of_unmarked {endpoint : LinkEndpoint} (plain : marked endpoint = false) :
    tracePushes definition index selection endpoint = [] := by
  cases endpoint with
  | port _ | valueSource _ => rfl
  | reroute _ | selector _ _ | tap _ _ => cases plain

/-- The walk is a worklist: what it finds is what the endpoints it keeps emit. -/
theorem traceAllLoop_eq : ∀ (turns : Nat) (stack visited seen : List LinkEndpoint)
    (found : Collected),
    (∀ endpoint, marked endpoint = true → (endpoint ∈ visited ↔ endpoint ∈ seen)) →
    found.results = seen.filterMap (traceEmits definition index selection) →
      (traceAllLoop definition index selection turns stack visited found).results =
        (drain (traceNext definition index selection) turns stack seen).filterMap
          (traceEmits definition index selection)
  | 0, _, _, _, _, _, results | _ + 1, [], _, _, _, _, results => results
  | turns + 1, current :: stack, visited, seen, found, same, results => by
    unfold traceAllLoop drain
    have step := @results_emit definition index selection found seen current
      (found.via.note current) results
    cases mark : marked current with
    | true =>
      have known := same current mark
      by_cases met : current ∈ seen
      · rw [if_pos (by simp [known.mpr met]), if_pos met]
        exact traceAllLoop_eq turns stack visited seen found same results
      · rw [if_neg (by simp [mt known.mp met]), if_neg met]
        rw [if_neg met] at step
        unfold traceNext
        rw [reverse_reverse, if_pos rfl]
        apply traceAllLoop_eq turns _ _ _ _ _ step
        intro endpoint marks
        rw [mem_cons, mem_append, mem_singleton, same endpoint marks]
        exact Or.comm
    | false =>
      -- a terminal is never marked, so a second visit emits it again to no effect
      have none : traceNext definition index selection current = [] := by
        unfold traceNext
        rw [pushes_of_unmarked mark, reverse_nil]
      rw [if_neg (by simp), pushes_of_unmarked mark, nil_append, none,
        reverse_nil, nil_append, if_neg (by simp)]
      by_cases met : current ∈ seen
      · rw [if_pos met] at step ⊢
        exact traceAllLoop_eq turns stack visited seen _ same (step.trans results)
      · rw [if_neg met] at step ⊢
        apply traceAllLoop_eq turns stack visited (seen ++ [current]) _ _ step
        intro endpoint marks
        rw [mem_append, mem_singleton, same endpoint marks]
        constructor
        · exact .inl
        · intro listed
          cases listed with
          | inl older => exact older
          | inr new =>
            rw [new, mark] at marks
            cases marks

/-! ## The walk is complete -/

theorem mem_of_driverInto {stop : Stop} {driver : LinkData}
    (found : driverInto definition stop.target = some driver) : (match stop.target with
      | .port ref => LinkEndpoint.tap ref.node ref.port
      | target => target) ∈ traceNodes definition selection := by
  have driven := driverInto_eq found
  apply mem_append_left
  apply mem_append_left
  apply mem_append_left
  apply List.mem_map.mpr
  exact ⟨driver, driven.1, by rw [driven.2]⟩

theorem driverInto_of_index (indexes : Indexes definition index) {stop : Stop}
    {driver : LinkData} (found : stop.driver definition index = some driver) :
    driverInto definition stop.target = some driver :=
  (Stop.driver_eq indexes stop).symm.trans found

theorem scanNetSource_listed {ref source : PortRef}
    (found : scanNetSource definition ref = some source) : (ref, source) ∈ netSinks definition := by
  unfold scanNetSource at found
  obtain ⟨net, first, rfl⟩ := map_eq_some_iff.mp found
  have fed := find?_some first
  obtain ⟨sink, inside, same⟩ := any_eq_true.mp fed
  have same : sink = ref := portRefKey_injective (by simpa using same)
  apply mem_flatMap.mpr
  exact ⟨net, mem_of_find?_eq_some first, mem_map.mpr ⟨sink, inside, by rw [same]⟩⟩

/-- What can be followed is among the nodes that bound the walk. -/
theorem mem_traceNodes (indexes : Indexes definition index) (one : OneNetSource definition)
    {endpoint : LinkEndpoint} (filled : traceNext definition index selection endpoint ≠ []) :
    endpoint ∈ traceNodes definition selection := by
  have filled : tracePushes definition index selection endpoint ≠ [] := by
    simpa [traceNext] using filled
  cases endpoint with
  | port _ | valueSource _ => exact absurd rfl filled
  | reroute id =>
    cases found : rerouteDriverOf definition id index with
    | none =>
      rw [tracePushes, found] at filled
      exact absurd rfl filled
    | some driver =>
      exact @mem_of_driverInto definition selection (.reroute id) driver
        (driverInto_of_index indexes found)
  | tap node input =>
    cases index with
    | none => exact absurd rfl filled
    | some index =>
      cases indexes
      dsimp only [tracePushes] at filled
      rw [bind_some, bind_some, get_inputDriverOf, get_netSourceOf definition one] at filled
      cases found : scanInputDriver definition (Stop.tapped node input) with
      | some driver =>
        exact @mem_of_driverInto definition selection (.tap node input) driver
          ((scanInputDriver_eq definition _).symm.trans found)
      | none =>
        cases fed : scanNetSource definition (Stop.tapped node input) with
        | none =>
          rw [found, fed] at filled
          exact absurd rfl filled
        | some source =>
          apply mem_append_left
          apply mem_append_left
          apply mem_append_right
          exact mem_map.mpr ⟨_, scanNetSource_listed fed, rfl⟩
  | selector id candidate =>
    cases candidate with
    | some candidate =>
      cases found : selectorDriverOf definition id candidate index with
      | none =>
        rw [tracePushes, found] at filled
        exact absurd rfl filled
      | some driver =>
        exact @mem_of_driverInto definition selection (.candidate id candidate) driver
          (driverInto_of_index indexes found)
    | none =>
      cases chosen : selection.bind (·.get id) with
      | some candidate =>
        obtain ⟨resolution, rfl, listed⟩ := bind_eq_some_iff.mp chosen
        apply mem_append_right
        exact mem_map.mpr ⟨(id, candidate), Table.mem_of_get listed, rfl⟩
      | none =>
        cases named : definition.selector? id with
        | none =>
          rw [tracePushes, chosen, named] at filled
          exact absurd rfl filled
        | some selector =>
          apply mem_append_left
          apply mem_append_right
          have same : selector.id = id := by simpa using find?_some named
          exact mem_map.mpr ⟨selector, mem_of_find?_eq_some named, by rw [same]⟩

/-- Without an index there is less to follow. -/
theorem traceNext_length_le (indexes : Indexes definition index) (endpoint : LinkEndpoint) :
    (traceNext definition index selection endpoint).length ≤
      (traceNext definition (some (buildRerouteIndex definition)) selection endpoint).length := by
  cases index with
  | some index =>
    cases indexes
    exact Nat.le_refl _
  | none =>
    unfold traceNext
    rw [length_reverse, length_reverse]
    cases endpoint with
    | port _ | valueSource _ => exact Nat.le_refl _
    | tap _ _ => exact Nat.zero_le _
    | reroute id =>
      exact Nat.le_of_eq (by rw [tracePushes, tracePushes, rerouteDriverOf_index])
    | selector id candidate =>
      cases candidate with
      | none => exact Nat.le_refl _
      | some candidate =>
        exact Nat.le_of_eq (by rw [tracePushes, tracePushes, selectorDriverOf_index])

theorem mem_traceEndpointAll (indexes : Indexes definition index)
    (one : OneNetSource definition) {start : LinkEndpoint} {trace : RerouteTrace} :
    trace ∈ traceEndpointAll definition start index selection ↔
      ∃ endpoint, Reaches (traceNext definition index selection) [start] endpoint ∧
        traceEmits definition index selection endpoint = some trace := by
  have enough : workLeft (traceNext definition index selection)
      (traceNodes definition selection) [start] [] ≤ traceTurns definition selection :=
    workLeft_mono (traceNext_length_le indexes) [start] []
  unfold traceEndpointAll
  rw [traceAllLoop_eq (traceTurns definition selection) [start] [] [] _ (by simp) rfl]
  simp only [mem_filterMap, mem_drain_iff (fun _ => mem_traceNodes indexes one) enough]

/-! ## The index against the links -/

/-- A resolution that chooses one candidate of every selector, and nothing else. -/
def Total (definition : GraphDef) (resolution : SelectorResolution) : Prop :=
  ∀ id, match definition.selector? id with
    | some selector => ∃ candidate ∈ selector.candidates, resolution.get id = some candidate
    | none => resolution.get id = none

/-- The producer a trace reaches, without the link it was reached by. -/
def RerouteTrace.terminal : RerouteTrace → Option RerouteTrace
  | .output ref _ => some (.output ref none)
  | .valueSource id _ => some (.valueSource id none)
  | .undriven id => some (.undriven id)
  | .tapValue node input _ => some (.tapValue node input none)
  | .selector id _ => some (.selector id none)
  | .selectorUndriven id candidate => some (.selectorUndriven id candidate)
  | .cycle _ | .tapCycle _ _ | .selectorCycle _ _ | .selectorUnresolved _ => none

structure IndexTransparent (definition : GraphDef) (start : LinkEndpoint) : Prop where
  traces : ∀ selection,
    traceEndpoint definition start (some (buildRerouteIndex definition)) selection =
      traceEndpoint definition start none selection
  branches : ∀ selection,
    traceEndpointAll definition start (some (buildRerouteIndex definition)) selection =
      traceEndpointAll definition start none selection
  rerouteDrivers : ∀ id,
    rerouteDriverOf definition id (some (buildRerouteIndex definition)) =
      rerouteDriverOf definition id none
  selectorDrivers : ∀ id candidate,
    selectorDriverOf definition id candidate (some (buildRerouteIndex definition)) =
      selectorDriverOf definition id candidate none
  rerouteSuccessors : ∀ id,
    rerouteSuccessorsOf definition id (some (buildRerouteIndex definition)) =
      rerouteSuccessorsOf definition id none
  selectorSuccessors : ∀ id,
    selectorSuccessorsOf definition id (some (buildRerouteIndex definition)) =
      selectorSuccessorsOf definition id none

/-- What a trace reaches under a total resolution is among the branches. -/
def BranchesCover (definition : GraphDef) (start : LinkEndpoint) : Prop :=
  ∀ index branchIndex, Indexes definition index → Indexes definition branchIndex →
    ∀ resolution, Total definition resolution → ∀ trace terminal,
      traceEndpoint definition start index (some resolution) = some trace →
        trace.terminal = some terminal →
          terminal ∈ traceEndpointAll definition start branchIndex none

def MeetsNoDrivenTap (definition : GraphDef) (start : LinkEndpoint) : Prop :=
  ∀ node input, Reaches (traceNext definition none none) [start] (.tap node input) →
    scanInputDriver definition (Stop.tapped node input) = none ∧
      scanNetSource definition (Stop.tapped node input) = none

/-- What the branches of an endpoint have been seen to be followed by is followed under any
resolution, or leads nowhere. -/
theorem reaches_unselected (wired : Wired definition) {start endpoint : LinkEndpoint}
    (reached : Reaches (traceNext definition none selection) [start] endpoint) :
    Reaches (traceNext definition none none) [start] endpoint ∨
      ∃ id candidate, endpoint = .selector id (some candidate) ∧
        traceNext definition none selection endpoint = [] := by
  apply reached.induct
  · intro start listed
    exact .inl (.start listed)
  · intro source _ known target listed
    cases known with
    | inr dead =>
      obtain ⟨_, _, _, none⟩ := dead
      rw [none] at listed
      exact absurd listed not_mem_nil
    | inl known =>
      have listed := mem_reverse.mp listed
      have same : tracePushes definition none selection source =
          tracePushes definition none none source →
            Reaches (traceNext definition none none) [start] target := by
        intro same
        exact known.step (mem_reverse.mpr (same ▸ listed))
      cases source with
      | port _ | valueSource _ | reroute _ | tap _ _ => exact .inl (same rfl)
      | selector id candidate =>
        cases candidate with
        | some _ => exact .inl (same rfl)
        | none =>
          cases chosen : selection.bind (·.get id) with
          | none =>
            apply Or.inl
            apply same
            rw [tracePushes, chosen]
            rfl
          | some candidate =>
            rw [tracePushes, chosen, mem_singleton] at listed
            subst listed
            by_cases there : (Stop.candidate id candidate).Known definition
            · obtain ⟨selector, named, inside⟩ := there
              apply Or.inl
              apply known.step
              apply mem_reverse.mpr
              rw [tracePushes, bind_none, named]
              exact mem_map_of_mem inside
            · -- a candidate the selector does not have is driven by nothing
              refine .inr ⟨id, candidate, rfl, ?_⟩
              unfold traceNext
              rw [tracePushes]
              cases found : selectorDriverOf definition id candidate none with
              | none => rfl
              | some driver =>
                have driven := driverInto_eq (@driverInto_of_index definition none
                  trivial (.candidate id candidate) driver found)
                exact absurd (wired.known driver driven.1 _ driven.2) there

/-- Where no driven tap is met, the index has nothing to add. -/
theorem tracePushes_index (one : OneNetSource definition) {endpoint : LinkEndpoint}
    (undriven : ∀ node input, endpoint = .tap node input →
      scanInputDriver definition (Stop.tapped node input) = none ∧
        scanNetSource definition (Stop.tapped node input) = none) :
    tracePushes definition none selection endpoint =
      tracePushes definition (some (buildRerouteIndex definition)) selection endpoint := by
  cases endpoint with
  | port _ | valueSource _ => rfl
  | reroute id => rw [tracePushes, tracePushes, rerouteDriverOf_index]
  | selector id candidate =>
    cases candidate with
    | none => rfl
    | some candidate => rw [tracePushes, tracePushes, selectorDriverOf_index]
  | tap node input =>
    have none := undriven node input rfl
    dsimp only [tracePushes]
    rw [bind_some, bind_some, get_inputDriverOf, get_netSourceOf definition one, none.1, none.2]
    rfl

theorem traceEmits_index (one : OneNetSource definition) {endpoint : LinkEndpoint}
    (undriven : ∀ node input, endpoint = .tap node input →
      scanInputDriver definition (Stop.tapped node input) = none ∧
        scanNetSource definition (Stop.tapped node input) = none) :
    traceEmits definition none selection endpoint =
      traceEmits definition (some (buildRerouteIndex definition)) selection endpoint := by
  cases endpoint with
  | port _ | valueSource _ => rfl
  | reroute id => rw [traceEmits, traceEmits, rerouteDriverOf_index]
  | selector id candidate =>
    cases candidate with
    | none => rfl
    | some candidate => rw [traceEmits, traceEmits, selectorDriverOf_index]
  | tap node input =>
    rw [traceEmits, traceEmits, tracePushes_index one undriven]

theorem traceEndpointAll_index (wired : Wired definition) (one : OneNetSource definition)
    {start : LinkEndpoint} (meets : MeetsNoDrivenTap definition start)
    (selection : Option SelectorResolution) :
    traceEndpointAll definition start (some (buildRerouteIndex definition)) selection =
      traceEndpointAll definition start none selection := by
  have undriven : ∀ endpoint, Reaches (traceNext definition none selection) [start] endpoint →
      ∀ node input, endpoint = .tap node input →
        scanInputDriver definition (Stop.tapped node input) = none ∧
          scanNetSource definition (Stop.tapped node input) = none := by
    intro endpoint reached node input same
    cases reaches_unselected wired reached with
    | inl known => exact meets node input (same ▸ known)
    | inr dead =>
      obtain ⟨_, _, other, _⟩ := dead
      rw [same] at other
      cases other
  have walks : drain (traceNext definition none selection) (traceTurns definition selection)
      [start] [] =
        drain (traceNext definition (some (buildRerouteIndex definition)) selection)
          (traceTurns definition selection) [start] [] := by
    apply drain_congr
    intro endpoint reached
    unfold traceNext
    rw [tracePushes_index one (undriven endpoint reached)]
  unfold traceEndpointAll
  rw [traceAllLoop_eq _ [start] [] [] _ (by simp) rfl,
    traceAllLoop_eq _ [start] [] [] _ (by simp) rfl, ← walks]
  apply filterMap_congr
  intro endpoint kept
  cases drain_sound _ _ _ kept with
  | inl none => exact absurd none not_mem_nil
  | inr reached => exact (traceEmits_index one (undriven endpoint reached)).symm

theorem meetsNoDrivenTap_of_same (one : OneNetSource definition) {start : LinkEndpoint}
    (same : traceEndpointAll definition start (some (buildRerouteIndex definition)) none =
      traceEndpointAll definition start none none) : MeetsNoDrivenTap definition start := by
  intro node input reached
  have shown : RerouteTrace.tapValue node input none ∈
      traceEndpointAll definition start none none :=
    (@mem_traceEndpointAll definition none none trivial one start _).mpr
      ⟨.tap node input, reached, rfl⟩
  rw [← same, @mem_traceEndpointAll definition (some (buildRerouteIndex definition)) none rfl
    one] at shown
  obtain ⟨endpoint, _, emitted⟩ := shown
  have tap : LinkEndpoint.tap node input = endpoint := origin_of_emits emitted
  subst tap
  rw [traceEmits] at emitted
  split at emitted
  · rename_i empty
    dsimp only [tracePushes] at empty
    rw [bind_some, bind_some, get_inputDriverOf, get_netSourceOf definition one] at empty
    cases driver : scanInputDriver definition (Stop.tapped node input) with
    | some _ =>
      rw [driver] at empty
      cases empty
    | none =>
      cases source : scanNetSource definition (Stop.tapped node input) with
      | some _ =>
        rw [driver, source] at empty
        cases empty
      | none => exact ⟨rfl, rfl⟩
  · cases emitted

/-! ## A chosen branch is one of all branches -/

def Stop.endpoint : Stop → LinkEndpoint
  | .reroute id => .reroute id
  | .candidate id choice => .selector id (some choice)
  | .tap node input => .tap node input

/-- A branch walk that looks behind every tap it meets that is driven. -/
def LooksBehind (definition : GraphDef) (index : Option RerouteIndex) (start : LinkEndpoint) :
    Prop :=
  index = some (buildRerouteIndex definition) ∨ (index = none ∧ MeetsNoDrivenTap definition start)

section Branch

variable {start : LinkEndpoint} {resolution : SelectorResolution}

theorem reaches_stop (total : Total definition resolution) {current : LinkEndpoint}
    {lastLink : Option LinkData} {stop : Stop}
    (reached : Reaches (traceNext definition index none) [start] current)
    (sent : stopAt (some resolution) lastLink current = .ok stop) :
    Reaches (traceNext definition index none) [start] stop.endpoint := by
  cases current with
  | port _ | valueSource _ => cases sent
  | reroute _ | tap _ _ =>
    cases sent
    exact reached
  | selector id candidate =>
    cases candidate with
    | some _ =>
      cases sent
      exact reached
    | none =>
      have chosen := total id
      dsimp only [stopAt] at sent
      cases named : definition.selector? id with
      | none =>
        rw [named] at chosen
        rw [chosen] at sent
        cases sent
      | some selector =>
        rw [named] at chosen
        obtain ⟨candidate, inside, picked⟩ := chosen
        rw [picked] at sent
        cases sent
        apply reached.step
        apply mem_reverse.mpr
        rw [tracePushes, bind_none, named]
        exact mem_map_of_mem inside

/-- The walk follows a stop to what drives it. -/
theorem reaches_driver (indexes : Indexes definition index) (one : OneNetSource definition)
    (looks : LooksBehind definition index start) {stop : Stop} {driver : LinkData}
    (reached : Reaches (traceNext definition index none) [start] stop.endpoint)
    (found : stop.driver definition none = some driver) :
    Reaches (traceNext definition index none) [start] driver.source := by
  apply reached.step
  apply mem_reverse.mpr
  have same := (Stop.driver_eq indexes stop).trans
    (@Stop.driver_eq definition none trivial stop).symm
  cases stop with
  | reroute id =>
    have driven : rerouteDriverOf definition id index = some driver := same.trans found
    rw [Stop.endpoint, tracePushes, driven]
    exact mem_singleton_self _
  | candidate id choice =>
    have driven : selectorDriverOf definition id choice index = some driver := same.trans found
    rw [Stop.endpoint, tracePushes, driven]
    exact mem_singleton_self _
  | tap node input =>
    have driven : scanInputDriver definition (Stop.tapped node input) = some driver := found
    cases looks with
    | inl indexed =>
      subst indexed
      rw [Stop.endpoint]
      dsimp only [tracePushes]
      rw [bind_some, bind_some, get_inputDriverOf, get_netSourceOf definition one, driven]
      exact mem_singleton_self _
    | inr without =>
      obtain ⟨rfl, meets⟩ := without
      rw [(meets node input reached).1] at driven
      cases driven

theorem emits_ending (indexes : Indexes definition index) (one : OneNetSource definition)
    (looks : LooksBehind definition index start) {stop : Stop} {lastLink : Option LinkData}
    {terminal : RerouteTrace}
    (reached : Reaches (traceNext definition index none) [start] stop.endpoint)
    (undriven : stop.driver definition none = none)
    (ended : (stop.ending definition none lastLink).terminal = some terminal) :
    ∃ endpoint, Reaches (traceNext definition index none) [start] endpoint ∧
      traceEmits definition index none endpoint = some terminal := by
  have same := (Stop.driver_eq indexes stop).trans
    (@Stop.driver_eq definition none trivial stop).symm
  cases stop with
  | reroute id =>
    cases ended
    have undriven : rerouteDriverOf definition id index = none := same.trans undriven
    refine ⟨.reroute id, reached, ?_⟩
    rw [traceEmits, undriven]
    rfl
  | candidate id choice =>
    cases ended
    have undriven : selectorDriverOf definition id choice index = none := same.trans undriven
    refine ⟨.selector id (some choice), reached, ?_⟩
    rw [traceEmits, undriven]
    rfl
  | tap node input =>
    have undriven : scanInputDriver definition (Stop.tapped node input) = none := undriven
    have pushes : tracePushes definition index none (.tap node input) =
        ((scanNetSource definition (Stop.tapped node input)).map LinkEndpoint.port).toList := by
      dsimp only [tracePushes]
      cases looks with
      | inl indexed =>
        subst indexed
        rw [bind_some, bind_some, get_inputDriverOf, get_netSourceOf definition one, undriven]
        cases scanNetSource definition (Stop.tapped node input) <;> rfl
      | inr without =>
        obtain ⟨rfl, meets⟩ := without
        rw [(meets node input reached).2]
        rfl
    dsimp only [Stop.ending] at ended
    rw [bind_none, none_or] at ended
    cases fed : scanNetSource definition (Stop.tapped node input) with
    | some source =>
      rw [fed] at ended pushes
      cases ended
      refine ⟨.port source, reached.step ?_, rfl⟩
      apply mem_reverse.mpr
      rw [Stop.endpoint, pushes]
      exact mem_singleton_self _
    | none =>
      rw [fed] at ended pushes
      cases ended
      refine ⟨.tap node input, reached, ?_⟩
      rw [traceEmits]
      exact if_pos pushes

theorem traceLoop_covered (indexes : Indexes definition index) (one : OneNetSource definition)
    (looks : LooksBehind definition index start) (total : Total definition resolution)
    (turns : Nat) : ∀ {current : LinkEndpoint} {lastLink : Option LinkData}
      {visited : List Stop} {trace terminal : RerouteTrace},
      Reaches (traceNext definition index none) [start] current →
      traceLoop definition none (some resolution) turns current lastLink visited = some trace →
      trace.terminal = some terminal →
        ∃ endpoint, Reaches (traceNext definition index none) [start] endpoint ∧
          traceEmits definition index none endpoint = some terminal := by
  induction turns with
  | zero =>
    intro current lastLink visited trace terminal _ traced
    cases traced
  | succ turns ih =>
    intro current lastLink visited trace terminal reached traced ended
    unfold traceLoop at traced
    cases sent : stopAt (some resolution) lastLink current with
    | error shown =>
      rw [sent] at traced
      cases traced
      refine ⟨current, reached, ?_⟩
      cases current with
      | port _ | valueSource _ =>
        cases sent
        exact ended
      | reroute _ | tap _ _ => cases sent
      | selector id candidate =>
        cases candidate with
        | some _ => cases sent
        | none =>
          -- a resolution that chooses nothing ends a trace without a producer
          dsimp only [stopAt] at sent
          split at sent
          · cases sent
            cases ended
          · cases sent
    | ok stop =>
      rw [sent] at traced
      dsimp only at traced
      have here := reaches_stop total reached sent
      by_cases met : stop ∈ visited
      · rw [if_pos met] at traced
        cases traced
        cases stop <;> cases ended
      rw [if_neg met] at traced
      cases found : stop.driver definition none with
      | none =>
        rw [found] at traced
        cases traced
        exact emits_ending indexes one looks here found ended
      | some driver =>
        rw [found] at traced
        exact ih (reaches_driver indexes one looks here found) traced ended

end Branch

/-- A tap whose input is driven by the output of another node. -/
def drivenTap : GraphDef where
  id := "g"
  nodes := [⟨"n1", "Source", false, ⟨[], List.nodup_nil⟩, .active, [], none⟩,
    ⟨"n2", "Sink", false, ⟨[], List.nodup_nil⟩, .active, [], none⟩]
  links := [⟨"l1", .port ⟨"n1", "out", []⟩, .port ⟨"n2", "in", []⟩⟩,
    ⟨"l2", .tap "n2" "in", .reroute "r1"⟩]
  nets := []
  reroutes := ["r1"]
  selectors := []
  valueSources := []
  boundary := none

end Dinkster.Junction
