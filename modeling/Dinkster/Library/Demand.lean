import Mathlib

/-!
# Strict systems of equations

Every node answers queries from the answers of the nodes it asks, and answers nothing while one of
these is missing.  The least solution answers at the nodes from which no way of asking is endless.
-/

namespace Dinkster.Library

open Relation

structure Demand (Node Query Answer : Type) where
  asks : Node → List (Node × Query)
  answer : (Node → Query → Option Answer) → Node → Query → Option Answer
  congr : ∀ {first second node}, (∀ ask ∈ asks node, first ask.1 ask.2 = second ask.1 ask.2) →
    answer first node = answer second node
  strict : ∀ {given node ask}, ask ∈ asks node → given ask.1 ask.2 = none →
    ∀ query, answer given node query = none

namespace Demand

variable {Node Query Answer : Type} (demand : Demand Node Query Answer)

def Asked (other node : Node) : Prop := ∃ query, (other, query) ∈ demand.asks node

/-- Answers that satisfy all equations. -/
def Solves (given : Node → Query → Option Answer) : Prop :=
  ∀ node, given node = demand.answer given node

open Classical in
/-- The answers at the nodes from which no way of asking is endless. -/
noncomputable def solution (node : Node) : Query → Option Answer :=
  if grounded : Acc demand.Asked node then
    grounded.rec fun node _ inner =>
      demand.answer (fun other query =>
        if asked : demand.Asked other node then inner other asked query else none) node
  else fun _ => none

variable {node : Node}

theorem solution_of_endless (endless : ¬ Acc demand.Asked node) (query : Query) :
    demand.solution node query = none := by
  unfold solution
  rw [dif_neg endless]

theorem solution_of_cycle (cycle : TransGen demand.Asked node node) (query : Query) :
    demand.solution node query = none := by
  refine demand.solution_of_endless (fun grounded => ?_) query
  replace grounded := acc_transGen_iff.mpr grounded
  induction grounded with
  | intro node _ ih => exact ih node cycle cycle

open Classical in
theorem solution_of_grounded (grounded : Acc demand.Asked node) :
    demand.solution node = demand.answer demand.solution node := by
  cases grounded with
  | intro _ inner =>
    have unfolded : demand.solution node = demand.answer (fun other query =>
        if asked : demand.Asked other node then demand.solution other query else none) node := by
      unfold solution
      rw [dif_pos (Acc.intro _ inner)]
      refine demand.congr fun ask listed => ?_
      have asked : demand.Asked ask.1 node := ⟨ask.2, listed⟩
      simp only [dif_pos asked, dif_pos (inner _ asked)]
    rw [unfolded]
    refine demand.congr fun ask listed => ?_
    rw [dif_pos (show demand.Asked ask.1 node from ⟨ask.2, listed⟩)]

theorem solution_solves : demand.Solves demand.solution := by
  intro node
  by_cases grounded : Acc demand.Asked node
  · exact demand.solution_of_grounded grounded
  · funext query
    rw [demand.solution_of_endless grounded]
    have endless : ∃ other, demand.Asked other node ∧ ¬ Acc demand.Asked other := by
      by_contra all
      exact grounded ⟨_, fun other asked => Classical.not_not.mp fun not =>
        all ⟨other, asked, not⟩⟩
    obtain ⟨other, ⟨asked, listed⟩, endless⟩ := endless
    exact (demand.strict listed (demand.solution_of_endless endless asked) query).symm

theorem solution_le {given : Node → Query → Option Answer} (solves : demand.Solves given)
    {query : Query} {answer : Answer} (found : demand.solution node query = some answer) :
    given node query = some answer := by
  by_cases grounded : Acc demand.Asked node
  · have same : given node = demand.solution node := by
      clear found
      induction grounded with
      | intro node inner ih =>
        rw [solves node, demand.solution_of_grounded (Acc.intro _ inner)]
        exact demand.congr fun ask listed => congrFun (ih ask.1 ⟨ask.2, listed⟩) ask.2
    rw [same]
    exact found
  · rw [demand.solution_of_endless grounded] at found
    exact nomatch found

theorem solution_congr {other : Demand Node Query Answer}
    (agree : ∀ upstream, ReflTransGen demand.Asked upstream node →
      other.asks upstream = demand.asks upstream ∧
        ∀ given, other.answer given upstream = demand.answer given upstream) :
    other.solution node = demand.solution node := by
  have asked : ∀ {upstream further}, ReflTransGen demand.Asked upstream node →
      (other.Asked further upstream ↔ demand.Asked further upstream) := by
    intro upstream further reached
    unfold Asked
    rw [(agree upstream reached).1]
  by_cases grounded : Acc demand.Asked node
  · induction grounded with
    | intro node inner ih =>
      have below : ∀ further, demand.Asked further node →
          other.solution further = demand.solution further := by
        intro further step
        exact ih further step (fun upstream reached => agree upstream (reached.tail step))
          fun reached => asked (reached.tail step)
      rw [demand.solution_solves node, other.solution_solves node, (agree node .refl).2]
      exact demand.congr fun ask listed => congrFun (below ask.1 ⟨ask.2, listed⟩) ask.2
  · have endless : ¬ Acc other.Asked node := by
      intro elsewhere
      apply grounded
      clear grounded
      induction elsewhere with
      | intro node inner ih =>
        refine ⟨_, fun further step => ih further ((asked .refl).mpr step) ?_ ?_⟩
        · exact fun upstream reached => agree upstream (reached.tail step)
        · exact fun reached => asked (reached.tail step)
    funext query
    rw [demand.solution_of_endless grounded, other.solution_of_endless endless]

end Demand

end Dinkster.Library
