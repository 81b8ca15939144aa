import Dinkster.Compile.Interface
import Dinkster.Library.Closure

/-!
# Liveness and routed projections

The executed closure of a compile is read off the staged inputs of the flattened nodes:
an input whose value is an array headed by a text contributes that text as a producer,
whoever wrote the value.  A preview replaces the value of an input by the producers that
were recorded for it.  The second half is the one traversal that exact lowering and
preview share: it follows a routed vertex through its successors, each branch with its
own set of visited vertices.
-/

namespace Dinkster.Compile

open Format Library List

/-- The stored decision of a lazy selector and its two branch inputs. -/
structure SelectorProjection where
  choice : Bool
  whenFalse : String
  whenTrue : String

/-- The branch input that the decision leaves out. -/
def SelectorProjection.inactiveKey (projection : SelectorProjection) : String :=
  if projection.choice then projection.whenFalse else projection.whenTrue

/-- `RoutedNode`, with the runtime id it is filed under. -/
structure RoutedNode where
  runtimeId : String
  inputs : List (String × Json)
  projection : Option SelectorProjection

/-- `WouldRunEdges`: what was recorded for an input of a consumer, in recording order. -/
abbrev WouldRunEdges := List ((String × String) × List String)

/-- `wouldRunEdges.get(consumer)?.get(key)`: the union of what was recorded. -/
def WouldRunEdges.producers? (edges : WouldRunEdges) (consumer key : String) :
    Option (List String) :=
  let recorded := edges.filter fun edge => edge.1 = (consumer, key)
  if recorded.isEmpty then none else some (recorded.flatMap (·.2))

/-- The text an array starts with: what the closure takes for a producer. -/
def arrayHead : Json → Option String
  | .arr (.str head :: _) => some head
  | _ => none

def inputProducers (edges : WouldRunEdges) (node : RoutedNode) (entry : String × Json) :
    List String :=
  if (node.projection.map (·.inactiveKey)) = some entry.1 then []
  else
    match edges.producers? node.runtimeId entry.1 with
    | some producers => producers
    | none => (arrayHead entry.2).toList

def producersOf (edges : WouldRunEdges) (nodes : List RoutedNode) (runtimeId : String) :
    List String :=
  match nodes.find? (·.runtimeId = runtimeId) with
  | some node => node.inputs.flatMap (inputProducers edges node)
  | none => []

/-- `LivenessDerivation.derive`, as far as `included` goes: the upstream closure of the
roots that exist. -/
def derive (nodes : List RoutedNode) (roots : List String) (edges : WouldRunEdges) : List String :=
  closure (producersOf edges nodes) (nodes.map (·.runtimeId))
    (roots.filter fun root => nodes.any (·.runtimeId = root))

def startingRoots (nodes : List RoutedNode) (roots : List String) : List String :=
  roots.filter fun root => nodes.any (·.runtimeId = root)

variable {nodes : List RoutedNode}

variable {roots : List String} {edges : WouldRunEdges} {runtimeId : String}

theorem startingRoots_congr {others : List RoutedNode}
    (same : nodes.map (·.runtimeId) = others.map (·.runtimeId)) :
    startingRoots nodes roots = startingRoots others roots := by
  have named : ∀ (nodes : List RoutedNode) (root : String),
      nodes.any (·.runtimeId = root) = (nodes.map (·.runtimeId)).any (· = root) := by
    intro nodes root
    rw [any_map]
    rfl
  unfold startingRoots
  apply filter_congr
  intro root _
  rw [named, named, same]

theorem mem_of_producersOf (filled : producersOf edges nodes runtimeId ≠ []) :
    runtimeId ∈ nodes.map (·.runtimeId) := by
  unfold producersOf at filled
  split at filled
  · rename_i node found
    have named : node.runtimeId = runtimeId := by simpa using find?_some found
    rw [← named]
    exact mem_map_of_mem (mem_of_find?_eq_some found)
  · exact absurd rfl filled

theorem mem_derive_iff : runtimeId ∈ derive nodes roots edges ↔
      Reaches (producersOf edges nodes) (startingRoots nodes roots) runtimeId :=
  mem_closure_iff fun _ filled => mem_of_producersOf filled

inductive RouteProjection where
  | exact
  | wouldRun
  deriving DecidableEq

inductive RoutedStep (Vertex Terminal : Type) where
  | recurse (vertex : Vertex)
  | terminal (terminal : Terminal)

/-- What a routed vertex resolves to: its successors, the bypass hop it selects, and the
diagnostics of resolving it. -/
structure Routed (Vertex Hop Terminal : Type) where
  steps : List (RoutedStep Vertex Terminal)
  hop : Option Hop
  sink : List Diagnostic

/-- `RoutedProjectionAdapter`, for one projection. -/
structure RoutedProjectionAdapter (Vertex Key Hop Terminal : Type) where
  key : Vertex → Key
  route : Vertex → Routed Vertex Hop Terminal
  cycle : Vertex → List Terminal × List Diagnostic

structure RoutedProjection (Hop Terminal : Type) where
  terminals : List Terminal
  hops : List Hop
  sink : List Diagnostic

section Traversal

variable {Vertex Key Hop Terminal : Type} [DecidableEq Key]

/-- `traverseRoutedProjection`.  The fuel bounds the depth of the recursion. -/
def traverseRoutedProjection (adapter : RoutedProjectionAdapter Vertex Key Hop Terminal) :
    Nat → List Key → Vertex → RoutedProjection Hop Terminal
  | 0, _, _ => ⟨[], [], [failure "compile.overflow" "maximum call stack size exceeded" none]⟩
  | fuel + 1, visited, vertex =>
    if adapter.key vertex ∈ visited then
      let (terminals, sink) := adapter.cycle vertex
      ⟨terminals, [], sink⟩
    else
      let routed := adapter.route vertex
      let branches : List (RoutedProjection Hop Terminal) := routed.steps.map fun step =>
        match step with
        | .terminal terminal => ⟨[terminal], [], []⟩
        | .recurse next =>
          traverseRoutedProjection adapter fuel (adapter.key vertex :: visited) next
      { terminals := branches.flatMap (·.terminals)
        hops := routed.hop.toList ++ branches.flatMap (·.hops)
        sink := routed.sink ++ branches.flatMap (·.sink) }

variable {adapter other : RoutedProjectionAdapter Vertex Key Hop Terminal}

/-- A terminal at the end of a path of vertices with distinct keys, none of them visited
before.  The number is how many vertices the path has. -/
inductive Leads (adapter : RoutedProjectionAdapter Vertex Key Hop Terminal)
    (terminal : Terminal) : List Key → Vertex → Nat → Prop where
  | ends {visited : List Key} {vertex : Vertex} (fresh : adapter.key vertex ∉ visited)
      (met : .terminal terminal ∈ (adapter.route vertex).steps) :
      Leads adapter terminal visited vertex 1
  | onward {visited : List Key} {vertex next : Vertex} {length : Nat}
      (fresh : adapter.key vertex ∉ visited)
      (taken : .recurse next ∈ (adapter.route vertex).steps)
      (rest : Leads adapter terminal (adapter.key vertex :: visited) next length) :
      Leads adapter terminal visited vertex (length + 1)

variable {terminal : Terminal} {length : Nat} {vertex : Vertex} {visited : List Key}

/-- Every terminal comes from a cycle or from the end of a path. -/
theorem leads_of_mem_traverse : ∀ {fuel : Nat} {visited : List Key} {vertex : Vertex},
      terminal ∈ (traverseRoutedProjection adapter fuel visited vertex).terminals →
        (∃ cycled, terminal ∈ (adapter.cycle cycled).1) ∨
          ∃ length ≤ fuel, Leads adapter terminal visited vertex length
  | 0, _, _, listed => absurd listed not_mem_nil
  | fuel + 1, visited, vertex, listed => by
    unfold traverseRoutedProjection at listed
    split at listed
    · exact .inl ⟨vertex, listed⟩
    · rename_i fresh
      simp only [mem_flatMap, mem_map] at listed
      obtain ⟨branch, ⟨step, taken, same⟩, found⟩ := listed
      cases step with
      | terminal last =>
        have reached : terminal ∈ [last] := by
          subst same
          exact found
        rw [← mem_singleton.mp reached] at taken
        exact .inr ⟨1, Nat.le_add_left 1 fuel, .ends fresh taken⟩
      | recurse next =>
        subst same
        cases leads_of_mem_traverse found with
        | inl cycled => exact .inl cycled
        | inr path =>
          obtain ⟨length, bounded, rest⟩ := path
          exact .inr ⟨length + 1, Nat.succ_le_succ bounded, .onward fresh taken rest⟩

theorem Leads.mem_traverse (leads : Leads adapter terminal visited vertex length) :
    ∀ {fuel : Nat}, length ≤ fuel →
      terminal ∈ (traverseRoutedProjection adapter fuel visited vertex).terminals := by
  induction leads with
  | ends fresh met =>
    intro fuel bounded
    obtain ⟨fuel, rfl⟩ := Nat.exists_eq_add_of_le' bounded
    unfold traverseRoutedProjection
    rw [if_neg fresh]
    exact mem_flatMap.mpr ⟨_, mem_map_of_mem met, mem_singleton_self _⟩
  | onward fresh taken rest ih =>
    intro fuel bounded
    cases fuel with
    | zero => exact absurd bounded (Nat.not_succ_le_zero _)
    | succ fuel =>
      unfold traverseRoutedProjection
      rw [if_neg fresh]
      exact mem_flatMap.mpr ⟨_, mem_map_of_mem taken, ih (Nat.le_of_succ_le_succ bounded)⟩

omit [DecidableEq Key] in
theorem Leads.simulate (keys : ∀ vertex, other.key vertex = adapter.key vertex)
    (carries : ∀ vertex next, .recurse next ∈ (adapter.route vertex).steps →
      .recurse next ∈ (other.route vertex).steps)
    (meets : ∀ vertex, .terminal terminal ∈ (adapter.route vertex).steps →
      .terminal terminal ∈ (other.route vertex).steps)
    (leads : Leads adapter terminal visited vertex length) :
    Leads other terminal visited vertex length := by
  induction leads with
  | ends fresh met => exact .ends (by rw [keys]; exact fresh) (meets _ met)
  | onward fresh taken _ ih =>
    apply Leads.onward (by rw [keys]; exact fresh) (carries _ _ taken)
    rw [keys]
    exact ih

omit [DecidableEq Key] in
/-- A path that has visited less is still a path. -/
theorem Leads.forget (leads : Leads adapter terminal visited vertex length) :
    ∀ {fewer : List Key}, (∀ key ∈ fewer, key ∈ visited) →
      Leads adapter terminal fewer vertex length := by
  induction leads with
  | ends fresh met => exact fun less => .ends (fun known => fresh (less _ known)) met
  | onward fresh taken _ ih =>
    intro fewer less
    apply Leads.onward (fun known => fresh (less _ known)) taken
    apply ih
    intro key known
    cases mem_cons.mp known with
    | inl here => exact here ▸ mem_cons_self
    | inr later => exact mem_cons_of_mem _ (less key later)

omit [DecidableEq Key] in
/-- A path is one of every adapter that takes the same steps wherever the path may lead. -/
theorem Leads.simulate_from (keys : ∀ vertex, other.key vertex = adapter.key vertex)
    (leads : Leads adapter terminal visited vertex length)
    (same : ∀ next, Relation.ReflTransGen (fun source target =>
        .recurse target ∈ (adapter.route source).steps) vertex next →
      (other.route next).steps = (adapter.route next).steps) :
    Leads other terminal visited vertex length := by
  induction leads with
  | ends fresh met =>
    apply Leads.ends (by rw [keys]; exact fresh)
    rw [same _ .refl]
    exact met
  | onward fresh taken _ ih =>
    apply Leads.onward (by rw [keys]; exact fresh)
    · rw [same _ .refl]
      exact taken
    · rw [keys]
      exact ih fun next follows => same next (.head taken follows)

omit [DecidableEq Key] in
theorem Leads.unique (steps : ∀ vertex, ∃ step, (adapter.route vertex).steps = [step])
    (leads : Leads adapter terminal visited vertex length) :
    ∀ {other : Terminal} {fewer : List Key} {bound : Nat},
      Leads adapter other fewer vertex bound → other = terminal := by
  have single : ∀ {vertex first second}, first ∈ (adapter.route vertex).steps →
      second ∈ (adapter.route vertex).steps → first = second := by
    intro vertex first second listed again
    cases steps vertex with
    | intro step alone =>
      rw [alone] at listed again
      rw [mem_singleton.mp listed, mem_singleton.mp again]
  induction leads with
  | ends fresh met =>
    intro other fewer bound second
    cases second with
    | ends _ again => exact RoutedStep.terminal.inj (single again met)
    | onward _ taken _ => exact absurd (single taken met) (by simp)
  | onward fresh taken rest ih =>
    intro other fewer bound second
    cases second with
    | ends _ again => exact absurd (single again taken) (by simp)
    | onward _ takenToo restToo =>
      rw [RoutedStep.recurse.inj (single takenToo taken)] at restToo
      exact ih restToo

inductive Passes (adapter : RoutedProjectionAdapter Vertex Key Hop Terminal)
    (terminal : Terminal) (via : Vertex) : List Key → Vertex → Prop where
  | here {visited : List Key} {length : Nat}
      (leads : Leads adapter terminal visited via length) : Passes adapter terminal via visited via
  | onward {visited : List Key} {vertex next : Vertex}
      (fresh : adapter.key vertex ∉ visited)
      (taken : .recurse next ∈ (adapter.route vertex).steps)
      (rest : Passes adapter terminal via (adapter.key vertex :: visited) next) :
      Passes adapter terminal via visited vertex

omit [DecidableEq Key] in
/-- The rest of a path from a vertex on its way is a path from that vertex. -/
theorem Passes.leads {via : Vertex} (passes : Passes adapter terminal via visited vertex) :
    ∃ length, Leads adapter terminal [] via length := by
  induction passes with
  | here leads => exact ⟨_, leads.forget fun _ none => absurd none not_mem_nil⟩
  | onward _ _ _ ih => exact ih

theorem Leads.avoid (key : Key) (leads : Leads adapter terminal visited vertex length) :
    Leads adapter terminal (key :: visited) vertex length ∨
      ∃ through bound, adapter.key through = key ∧ bound ≤ length ∧
        Leads adapter terminal visited through bound := by
  induction leads with
  | @ends visited vertex fresh met =>
    by_cases same : adapter.key vertex = key
    · exact .inr ⟨vertex, 1, same, Nat.le_refl 1, .ends fresh met⟩
    · exact .inl (.ends (by simp [same, fresh]) met)
  | @onward visited vertex next length fresh taken rest ih =>
    by_cases same : adapter.key vertex = key
    · exact .inr ⟨vertex, length + 1, same, Nat.le_refl _, .onward fresh taken rest⟩
    · cases ih with
      | inl avoids =>
        apply Or.inl
        apply Leads.onward (by simp [same, fresh]) taken
        apply avoids.forget
        intro other known
        simp only [mem_cons] at known ⊢
        exact or_left_comm.mp known
      | inr passes =>
        obtain ⟨through, bound, keyed, bounded, leads⟩ := passes
        refine .inr ⟨through, bound, keyed, Nat.le_succ_of_le bounded, ?_⟩
        exact leads.forget fun other known => mem_cons_of_mem _ known

end Traversal

end Dinkster.Compile
