import Dinkster.Library.Closure

/-!
# Paths that stop

A walk does not go on from the nodes at which it stops.  The stops it meets are the first ones
on the paths from where it begins, and with one node to stop at, what it meets is what is reached
without passing through that node.
-/

namespace Dinkster.Library

open Relation List

variable {Node : Type}

def Step (next : Node → List Node) (source target : Node) : Prop := target ∈ next source

/-- A step to a successor other than a node. -/
def Avoiding (next : Node → List Node) (avoided source target : Node) : Prop :=
  target ∈ next source ∧ target ≠ avoided

variable {avoided source target : Node} {next : Node → List Node}

theorem Avoiding.step (edge : Avoiding next avoided source target) :
    Step next source target := edge.1

theorem ne_of_avoiding (path : TransGen (Avoiding next avoided) source target) :
    target ≠ avoided := by
  cases path with
  | single edge | tail _ edge => exact edge.2

theorem avoiding_of_not_reached (path : TransGen (Step next) source target)
    (away : ∀ node, TransGen (Step next) source node → ReflTransGen (Step next) node target →
      node ≠ avoided) : TransGen (Avoiding next avoided) source target := by
  induction path using TransGen.head_induction_on with
  | single edge => exact .single ⟨edge, away _ (.single edge) .refl⟩
  | head edge rest ih =>
    refine .head ⟨edge, away _ (.single edge) rest.to_reflTransGen⟩ (ih fun node there later => ?_)
    exact away node (.head edge there) later

theorem avoiding_of_avoiding {other : Node} (path : TransGen (Avoiding next avoided) source target)
    (away : ∀ node, TransGen (Avoiding next avoided) source node → node ≠ other) :
    TransGen (Avoiding next other) source target := by
  induction path with
  | single edge => exact .single ⟨edge.1, away _ (.single edge)⟩
  | tail before edge ih => exact ih.tail ⟨edge.1, away _ (before.tail edge)⟩

variable [DecidableEq Node]

def halting (next : Node → List Node) (stops : List Node) (node : Node) : List Node :=
  if node ∈ stops then [] else next node

variable {stops : List Node}

theorem mem_halting :
    target ∈ halting next stops source ↔ source ∉ stops ∧ target ∈ next source := by
  unfold halting
  split
  · rename_i stop
    exact ⟨fun listed => (nomatch listed), fun both => absurd stop both.1⟩
  · rename_i goes_on
    exact ⟨fun listed => ⟨goes_on, listed⟩, And.right⟩

/-- What a walk from the successors of a node meets is below that node. -/
theorem path_of_halting (met : Reaches (halting next stops) (next source) target) :
    TransGen (Step next) source target := by
  apply met.induct
  · exact fun start listed => .single listed
  · exact fun _ _ before target edge => before.tail (mem_halting.mp edge).2

theorem first_stop {along : Node → Node → Prop}
    (within : ∀ {source target}, along source target → Step next source target)
    (path : TransGen along source target) (stop : target ∈ stops) :
    ∃ first ∈ stops, Reaches (halting next stops) (next source) first ∧
      TransGen along source first ∧ ReflTransGen along first target := by
  have begin_at : ∀ {node}, ReflTransGen along node target →
      ∃ first ∈ stops, ReflTransGen (fun a b => b ∈ halting next stops a) node first ∧
        ReflTransGen along node first ∧ ReflTransGen along first target := by
    intro node rest
    induction rest using ReflTransGen.head_induction_on with
    | refl => exact ⟨target, stop, .refl, .refl, .refl⟩
    | @head node after edge rest ih =>
      by_cases here : node ∈ stops
      · exact ⟨node, here, .refl, .refl, .head edge rest⟩
      · obtain ⟨first, listed, met, before, later⟩ := ih
        exact ⟨first, listed, .head (mem_halting.mpr ⟨here, within edge⟩) met,
          .head edge before, later⟩
  obtain ⟨child, edge, rest⟩ := TransGen.head'_iff.mp path
  obtain ⟨first, listed, met, before, later⟩ := begin_at rest
  exact ⟨first, listed, ⟨child, within edge, met⟩, .head' edge before, later⟩

/-- With one node to stop at, a walk meets what is reached without passing through it. -/
theorem reaches_halting_iff (other : target ≠ avoided) :
    Reaches (halting next [avoided]) (next source) target ↔
      TransGen (Avoiding next avoided) source target := by
  constructor
  · intro met
    have carried : target ≠ avoided → TransGen (Avoiding next avoided) source target := by
      apply met.induct
      · exact fun start listed different => .single ⟨listed, different⟩
      · intro node _ before after edge different
        obtain ⟨goes_on, listed⟩ := mem_halting.mp edge
        exact (before fun same => goes_on (mem_singleton.mpr same)).tail ⟨listed, different⟩
    exact carried other
  · intro path
    induction path with
    | single edge => exact .start edge.1
    | tail before edge ih =>
      have ne := ne_of_avoiding before
      refine (ih ne).step (mem_halting.mpr ⟨fun same => ne (mem_singleton.mp same), edge.1⟩)

omit [DecidableEq Node] in
/-- A list that is not empty has an element below which none of its elements is. -/
theorem exists_last (below : Node → Node → Prop)
    (trans : ∀ {a b c}, below a b → below b c → below a c) (irrefl : ∀ a, ¬ below a a) :
    ∀ {nodes : List Node}, nodes ≠ [] → ∃ last ∈ nodes, ∀ node ∈ nodes, ¬ below last node
  | [], filled => absurd rfl filled
  | [only], _ => by
    refine ⟨only, mem_cons_self, fun node listed => ?_⟩
    rw [mem_singleton.mp listed]
    exact irrefl only
  | first :: second :: rest, _ => by
    obtain ⟨last, listed, lowest⟩ := exists_last below trans irrefl (cons_ne_nil second rest)
    by_cases lower : below last first
    · refine ⟨first, mem_cons_self, fun node known => ?_⟩
      cases mem_cons.mp known with
      | inl same => exact same ▸ irrefl first
      | inr later => exact fun step => lowest node later (trans lower step)
    · refine ⟨last, mem_cons_of_mem _ listed, fun node known => ?_⟩
      cases mem_cons.mp known with
      | inl same => exact same ▸ lower
      | inr later => exact lowest node later

omit [DecidableEq Node] in
/-- Without cycles every node leads to one that leads nowhere. -/
theorem exists_dead_end {nodes : List Node}
    (within : ∀ {source target}, target ∈ next source → target ∈ nodes)
    (acyclic : ∀ node, ¬ TransGen (Step next) node node) (start : Node) :
    ∃ last, ReflTransGen (Step next) start last ∧ next last = [] := by
  classical
  have listed : start ∈ (start :: nodes).filter fun node => ReflTransGen (Step next) start node :=
    mem_filter.mpr ⟨mem_cons_self, decide_eq_true .refl⟩
  obtain ⟨last, known, lowest⟩ := exists_last (TransGen (Step next))
    (fun first second => first.trans second) acyclic (ne_nil_of_mem listed)
  have reached : ReflTransGen (Step next) start last := of_decide_eq_true (mem_filter.mp known).2
  refine ⟨last, reached, eq_nil_iff_forall_not_mem.mpr fun child edge => ?_⟩
  refine lowest child (mem_filter.mpr ⟨mem_cons_of_mem _ (within edge), ?_⟩) (.single edge)
  exact decide_eq_true (reached.tail edge)

omit [DecidableEq Node] in
theorem avoids_or_passes (avoided : Node) (path : ReflTransGen (Step next) source target) :
    ReflTransGen (Avoiding next avoided) source target ∨ TransGen (Step next) source avoided := by
  classical
  induction path using ReflTransGen.head_induction_on with
  | refl => exact .inl .refl
  | @head node child edge _ ih =>
    by_cases here : child = avoided
    · exact .inr (here ▸ .single edge)
    · cases ih with
      | inl away => exact .inl (.head ⟨edge, here⟩ away)
      | inr through => exact .inr (.head edge through)

end Dinkster.Library
