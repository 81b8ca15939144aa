import Dinkster.Format.Literals
import Dinkster.Library.Walk

/-!
# Cycles of native graphs

Every scope of a native graph, the graph itself and each region body in it, is searched for
cycles of its `$link` edges, from a consumer to a producer.  What a body reads from its region
is no edge, even where an entry has the name of the pseudo-node.
-/

namespace Dinkster.Compile

open Library Format List

/-- An entry with what the search reads of it: its inputs and, for a region, its body. -/
inductive GraphEntry where
  | node (inputs : List (String × Json))
  | region (inputs : List (String × Json)) (body : List (String × GraphEntry))

def GraphEntry.inputs : GraphEntry → List (String × Json)
  | .node inputs | .region inputs _ => inputs

abbrev GraphNodes := List (String × GraphEntry)

def joinPath (path id : String) : String :=
  if path = "" then id else path ++ "/" ++ id

variable (nodes : GraphNodes)

/-- Where the links of the inputs come from, for those in the scope. -/
def producers (entry : GraphEntry) : List String :=
  (entry.inputs.filterMap fun input => (asDinksterLink input.2).map Prod.fst).filter fun node =>
    node ≠ regionPseudoNode && (nodes.map Prod.fst).contains node

/-- `edges.get(id) ?? []`. -/
def edges (id : String) : List String :=
  ((nodes.lookup id).map (producers nodes)).getD []

/-- A `dinksterGraph.cycle` diagnostic. -/
structure CycleDiagnostic where
  message : String
  nodeId : String
  deriving DecidableEq

def cycleDiagnostic (path : String) (cycle : List String × String) : CycleDiagnostic where
  message := "link cycle: " ++ " -> ".intercalate (cycle.1.map (joinPath path)) ++ " -> " ++
    joinPath path cycle.2
  nodeId := joinPath path cycle.2

def detectCycle (path : String) : List CycleDiagnostic :=
  (Walk.search (edges nodes) (nodes.map Prod.fst)).out.map (cycleDiagnostic path)

mutual

/-- The scopes of an entry, in the order in which `validateRegion` is done with them. -/
def regionScopes (path : String) : GraphEntry → List (String × GraphNodes)
  | .node _ => []
  | .region _ body => bodyScopes path body ++ [(path, body)]

def bodyScopes (path : String) : GraphNodes → List (String × GraphNodes)
  | [] => []
  | (id, entry) :: rest => regionScopes (joinPath path id) entry ++ bodyScopes path rest

end

/-- All scopes with their paths. -/
def scopes (graph : GraphNodes) : List (String × GraphNodes) :=
  bodyScopes "" graph ++ [("", graph)]

/-- What `validateDinksterGraph` says about cycles. -/
def validateDinksterGraph (graph : GraphNodes) : List CycleDiagnostic :=
  (scopes graph).flatMap fun scope => detectCycle scope.2 scope.1

/-- Some input of an entry is a link to a present entry. -/
def LinksTo (id producer : String) : Prop :=
  ∃ entry, nodes.lookup id = some entry ∧ producer ∈ nodes.map Prod.fst ∧
    ∃ input ∈ entry.inputs, ∃ output, asDinksterLink input.2 = some (producer, output)

/-- A link that is no read of a region port. -/
def Feeding (id producer : String) : Prop :=
  LinksTo nodes id producer ∧ producer ≠ regionPseudoNode

theorem mem_edges_iff {id producer : String} :
    producer ∈ edges nodes id ↔ Feeding nodes id producer := by
  unfold edges Feeding LinksTo
  cases found : nodes.lookup id with
  | none => simp
  | some entry =>
    simp only [Option.map_some, Option.getD_some, producers, mem_filter, mem_filterMap,
      Option.map_eq_some_iff, Bool.and_eq_true, decide_eq_true_eq, contains_iff_mem]
    constructor
    · rintro ⟨⟨input, listed, ⟨_, output⟩, link, rfl⟩, outside, present⟩
      exact ⟨⟨entry, rfl, present, input, listed, output, link⟩, outside⟩
    · rintro ⟨⟨_, ⟨⟩, present, input, listed, output, link⟩, outside⟩
      exact ⟨⟨input, listed, (producer, output), link, rfl⟩, outside, present⟩

theorem linked_edges : Walk.Linked (edges nodes) = Feeding nodes := by
  funext id producer
  exact propext (mem_edges_iff nodes)

theorem closed_edges (id producer : String) (edge : producer ∈ edges nodes id) :
    id ∈ nodes.map Prod.fst ∧ producer ∈ nodes.map Prod.fst := by
  obtain ⟨⟨entry, found, present, _⟩, _⟩ := (mem_edges_iff nodes).mp edge
  obtain ⟨before, after, split, _⟩ := lookup_eq_some_iff.mp found
  exact ⟨by simp [split], present⟩

/-- The search of every scope comes to an end, reports nothing but cycles and reports one where
there is one. -/
theorem nativeCycles_exact : (∀ graph diagnostic, diagnostic ∈ validateDinksterGraph graph ↔
      ∃ scope ∈ scopes graph, diagnostic ∈ detectCycle scope.2 scope.1) ∧ ∀ nodes path,
      (detectCycle nodes path ≠ [] ↔ ∃ id, Relation.TransGen (Feeding nodes) id id) ∧
      (∀ diagnostic ∈ detectCycle nodes path, ∃ cycle, Walk.IsCycle (Feeding nodes) cycle ∧
        diagnostic = cycleDiagnostic path cycle) ∧ ∀ walk : Walk String, (walk.run (edges nodes)
        (walk.work (edges nodes) (nodes.map Prod.fst))).stack = [] := by
  refine ⟨fun _ _ => mem_flatMap, fun nodes path => ?_⟩
  obtain ⟨exact, cycles⟩ := Walk.search_exact (closed_edges nodes)
  rw [linked_edges] at exact cycles
  refine ⟨?_, fun diagnostic listed => ?_, fun walk => ?_⟩
  · rw [detectCycle, Ne, map_eq_nil_iff]
    exact exact
  · obtain ⟨cycle, reported, rfl⟩ := mem_map.mp listed
    exact ⟨cycle, cycles cycle reported, rfl⟩
  · exact (Walk.run_induct (fun id producer edge => (closed_edges nodes id producer edge).2)
      (fun _ => True) (fun _ _ _ _ => trivial) _ trivial le_rfl).2

/-- An entry named as the pseudo-node that links to itself. -/
theorem nativeCycles_pseudoNode :
    LinksTo [(regionPseudoNode, .node [("in", linkWire regionPseudoNode "out")])]
      regionPseudoNode regionPseudoNode ∧
    validateDinksterGraph [(regionPseudoNode, .node [("in", linkWire regionPseudoNode "out")])] =
      [] := by
  constructor
  · exact ⟨_, rfl, mem_cons_self, _, mem_cons_self, "out", asDinksterLink_linkWire _ _⟩
  · decide +kernel

end Dinkster.Compile
