import Dinkster.Junction.Index

/-!
# Tracing an endpoint upstream

An endpoint is traced through reroutes, chosen selector candidates and tapped inputs to
what really produces its value.  At each of these the walk turns to the source of the one
link that drives it; meeting one of them again ends it with a cycle.  Every turn uses
another link, so a trace always ends.
-/

namespace Dinkster.Junction

open Format Library List Option

deriving instance DecidableEq for LinkData

inductive RerouteTrace where
  | output (ref : PortRef) (lastLink : Option LinkData)
  | valueSource (id : String) (lastLink : Option LinkData)
  | undriven (reroute : String)
  | cycle (reroute : String)
  | tapValue (node input : String) (lastLink : Option LinkData)
  | tapCycle (node input : String)
  | selector (id : String) (lastLink : Option LinkData)
  | selectorUnresolved (selector : String)
  | selectorUndriven (selector candidate : String)
  | selectorCycle (selector candidate : String)
  deriving DecidableEq

/-- Whether a trace ended because it met itself. -/
def RerouteTrace.cyclic : RerouteTrace → Bool
  | .cycle _ | .tapCycle _ _ | .selectorCycle _ _ => true
  | _ => false

abbrev SelectorResolution := Table String

/-- What a trace passes through, and what it marks as visited. -/
inductive Stop where
  | reroute (id : String)
  | candidate (id candidate : String)
  | tap (node input : String)
  deriving DecidableEq

namespace Stop

def tapped (node input : String) : PortRef :=
  ⟨node, input, []⟩

def target : Stop → LinkEndpoint
  | .reroute id => .reroute id
  | .candidate id choice => .selector id (some choice)
  | .tap node input => .port (tapped node input)

theorem target_injective {first second : Stop} (same : first.target = second.target) :
    first = second := by
  cases first <;> cases second <;> simp_all [target, tapped]

def cycle : Stop → RerouteTrace
  | .reroute id => .cycle id
  | .candidate id choice => .selectorCycle id choice
  | .tap node input => .tapCycle node input

@[simp] theorem cyclic_cycle (stop : Stop) : stop.cycle.cyclic = true := by
  cases stop <;> rfl

def driver (definition : GraphDef) (index : Option RerouteIndex) : Stop → Option LinkData
  | .reroute id => rerouteDriverOf definition id index
  | .candidate id choice => selectorDriverOf definition id choice index
  | .tap node input =>
    (index.bind (·.inputDriverOf.get (portRefKey (tapped node input)))).or
      (scanInputDriver definition (tapped node input))

def ending (definition : GraphDef) (index : Option RerouteIndex) (lastLink : Option LinkData) :
    Stop → RerouteTrace
  | .reroute id => .undriven id
  | .candidate id choice => .selectorUndriven id choice
  | .tap node input =>
    match (index.bind (·.netSourceOf.get (portRefKey (tapped node input)))).or
        (scanNetSource definition (tapped node input)) with
    | some source => .output source lastLink
    | none => .tapValue node input lastLink

@[simp] theorem cyclic_ending {definition : GraphDef} {index : Option RerouteIndex}
    {lastLink : Option LinkData} (stop : Stop) :
    (stop.ending definition index lastLink).cyclic = false := by
  cases stop with
  | reroute _ | candidate _ _ => rfl
  | tap node input =>
    dsimp only [ending]
    split <;> rfl

end Stop

def stopAt (selection : Option SelectorResolution) (lastLink : Option LinkData) :
    LinkEndpoint → Except RerouteTrace Stop
  | .tap node input => .ok (.tap node input)
  | .valueSource id => .error (.valueSource id lastLink)
  | .selector id (some candidate) => .ok (.candidate id candidate)
  | .selector id none =>
    match selection with
    | none => .error (.selector id lastLink)
    | some selection =>
      match selection.get id with
      | none => .error (.selectorUnresolved id)
      | some candidate => .ok (.candidate id candidate)
  | .port ref => .error (.output ref lastLink)
  | .reroute id => .ok (.reroute id)

theorem cyclic_of_stopAt {selection : Option SelectorResolution} {lastLink : Option LinkData}
    {endpoint : LinkEndpoint} {trace : RerouteTrace}
    (ended : stopAt selection lastLink endpoint = .error trace) : trace.cyclic = false := by
  unfold stopAt at ended
  split at ended
  · cases ended
  · cases ended
    rfl
  · cases ended
  · split at ended
    · cases ended
      rfl
    · split at ended
      · cases ended
        rfl
      · cases ended
  · cases ended
    rfl
  · cases ended

/-- The loop of `traceEndpoint`.  The first number bounds its turns. -/
def traceLoop (definition : GraphDef) (index : Option RerouteIndex)
    (selection : Option SelectorResolution) :
    Nat → LinkEndpoint → Option LinkData → List Stop → Option RerouteTrace
  | 0, _, _, _ => none
  | turns + 1, current, lastLink, visited =>
    match stopAt selection lastLink current with
    | .error trace => some trace
    | .ok stop =>
      if stop ∈ visited then some stop.cycle
      else
        match stop.driver definition index with
        | none => some (stop.ending definition index lastLink)
        | some driver =>
          traceLoop definition index selection turns driver.source (some driver)
            (stop :: visited)

def traceEndpoint (definition : GraphDef) (start : LinkEndpoint)
    (index : Option RerouteIndex) (selection : Option SelectorResolution) : Option RerouteTrace :=
  traceLoop definition index selection (definition.links.length + 2) start none []

def Indexes (definition : GraphDef) : Option RerouteIndex → Prop
  | none => True
  | some index => index = buildRerouteIndex definition

variable {definition : GraphDef} {index : Option RerouteIndex}
  {selection : Option SelectorResolution}

theorem Stop.driver_eq (indexes : Indexes definition index) (stop : Stop) :
    stop.driver definition index =
      definition.links.find? fun link => link.target = stop.target := by
  cases index with
  | none =>
    cases stop with
    | reroute _ | candidate _ _ => rfl
    | tap node input => exact scanInputDriver_eq definition _
  | some index =>
    cases indexes
    cases stop with
    | reroute id => exact rerouteDriverOf_index definition id
    | candidate id candidate => exact selectorDriverOf_index definition id candidate
    | tap node input =>
      dsimp only [driver]
      rw [bind_some, get_inputDriverOf, Option.or_self]
      exact scanInputDriver_eq definition _

theorem Stop.ending_eq (indexes : Indexes definition index) (one : OneNetSource definition)
    (lastLink : Option LinkData) (stop : Stop) :
    stop.ending definition index lastLink = stop.ending definition none lastLink := by
  cases index with
  | none => rfl
  | some index =>
    cases indexes
    cases stop with
    | reroute _ | candidate _ _ => rfl
    | tap node input =>
      dsimp only [ending]
      rw [bind_some, get_netSourceOf definition one, Option.or_self, bind_none, none_or]

theorem traceLoop_index (indexes : Indexes definition index) (one : OneNetSource definition)
    (turns : Nat) : ∀ (current : LinkEndpoint) (lastLink : Option LinkData) (visited : List Stop),
      traceLoop definition index selection turns current lastLink visited =
        traceLoop definition none selection turns current lastLink visited := by
  induction turns with
  | zero =>
    intro current lastLink visited
    rfl
  | succ turns ih =>
    intro current lastLink visited
    unfold traceLoop
    cases stopAt selection lastLink current with
    | error trace => rfl
    | ok stop =>
      dsimp only
      rw [Stop.driver_eq indexes, @Stop.driver_eq definition none trivial,
        Stop.ending_eq indexes one]
      simp only [ih]

theorem traceEndpoint_index (indexes : Indexes definition index)
    (one : OneNetSource definition) (start : LinkEndpoint) :
    traceEndpoint definition start index selection =
      traceEndpoint definition start none selection :=
  traceLoop_index indexes one _ start none []

theorem length_le_of_driven {visited : List Stop} (distinct : visited.Nodup)
    (driven : ∀ stop ∈ visited, ∃ link ∈ definition.links, link.target = stop.target) :
    visited.length ≤ definition.links.length := by
  have targets : (visited.map Stop.target).Nodup :=
    List.Nodup.map (fun _ _ same => Stop.target_injective same) distinct
  have inside : visited.map Stop.target ⊆ definition.links.map (·.target) := by
    intro endpoint listed
    obtain ⟨stop, inside, rfl⟩ := mem_map.mp listed
    obtain ⟨link, known, same⟩ := driven stop inside
    exact mem_map.mpr ⟨link, known, same⟩
  have fits := (subperm_of_subset targets inside).length_le
  simpa using fits

theorem traceLoop_total (indexes : Indexes definition index) (turns : Nat) :
    ∀ (current : LinkEndpoint) (lastLink : Option LinkData) {visited : List Stop}, visited.Nodup →
      (∀ stop ∈ visited, ∃ link ∈ definition.links, link.target = stop.target) →
      definition.links.length + 1 < visited.length + turns →
        ∃ trace, traceLoop definition index selection turns current lastLink visited =
          some trace := by
  induction turns with
  | zero =>
    intro current lastLink visited distinct driven enough
    have fits := length_le_of_driven distinct driven
    omega
  | succ turns ih =>
    intro current lastLink visited distinct driven enough
    unfold traceLoop
    cases stopAt selection lastLink current with
    | error trace => exact ⟨trace, rfl⟩
    | ok stop =>
      dsimp only
      by_cases met : stop ∈ visited
      · rw [if_pos met]
        exact ⟨_, rfl⟩
      rw [if_neg met]
      cases found : stop.driver definition index with
      | none => exact ⟨_, rfl⟩
      | some driver =>
        dsimp only
        apply ih
        · exact nodup_cons.mpr ⟨met, distinct⟩
        · intro other listed
          cases mem_cons.mp listed with
          | inl same =>
            rw [Stop.driver_eq indexes] at found
            have hit := find?_some found
            exact ⟨driver, mem_of_find?_eq_some found, by simpa [same] using hit⟩
          | inr older => exact driven other older
        · rw [length_cons]
          omega

theorem traceEndpoint_total (indexes : Indexes definition index) (start : LinkEndpoint) :
    ∃ trace, traceEndpoint definition start index selection = some trace := by
  apply traceLoop_total indexes
  · exact nodup_nil
  · exact fun _ listed => absurd listed not_mem_nil
  · simp

end Dinkster.Junction
