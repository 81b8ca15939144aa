import Dinkster.Loops.Order

/-!
# The pairs of a graph

Without an error every start and every end is in one pair, the pairs are nested, and they do not
depend on the order in which the graph lists its nodes and links.
-/

namespace Dinkster.Loops

open Library Relation List

def LoopPair.Holds (outer inner : LoopPair) : Prop :=
  inner.start ∈ outer.body ∧ inner.end ∈ outer.body ∧ ∀ id ∈ inner.body, id ∈ outer.body

variable (first second : LoopPair)

/-- Two bodies share no node. -/
def LoopPair.Apart : Prop :=
  ∀ id ∈ first.body, id ∉ second.body

/-- Two pairs with the same start, end and nodes in their bodies. -/
def LoopPair.Same : Prop :=
  first.start = second.start ∧ first.end = second.end ∧ ∀ id, id ∈ first.body ↔ id ∈ second.body

structure WellNested (nodes : List RawNode) (links : List RawLink) (pairs : List LoopPair) :
    Prop where
  starts : (pairs.map LoopPair.start).Perm
    ((nodes.filter (·.type = "StartLoop")).map RawNode.id)
  ends : (pairs.map LoopPair.end).Perm ((nodes.filter (·.type = "EndLoop")).map RawNode.id)
  below : ∀ pair ∈ pairs, Below nodes links pair.start pair.end
  closed : ∀ pair ∈ pairs, ∀ last, children nodes links last = [] →
    ¬ ReflTransGen (Avoiding (children nodes links) pair.end) pair.start last
  body : ∀ pair ∈ pairs, ∀ id,
    id ∈ pair.body ↔ TransGen (Avoiding (children nodes links) pair.end) pair.start id
  nested : ∀ first ∈ pairs, ∀ second ∈ pairs, first ≠ second →
    first.Apart second ∨ first.Holds second ∨ second.Holds first

variable {nodes : List RawNode} {links : List RawLink}

theorem ofType_perm (distinct : (nodes.map RawNode.id).Nodup) (type : String) :
    (ofType nodes type).Perm ((nodes.filter (·.type = type)).map RawNode.id) := by
  have once : ((nodes.filter (·.type = type)).map RawNode.id).Nodup :=
    distinct.sublist (filter_sublist.map _)
  refine perm_of_mem_iff once (nodup_eraseDups _) fun id => ?_
  unfold ofType
  exact mem_eraseDups

/-- The pair of a start and an end. -/
def pairOf (nodes : List RawNode) (links : List RawLink) (pair : Int × Int) : LoopPair :=
  ⟨pair.1, pair.2, bodyOf nodes links pair.1 pair.2⟩

theorem pairLoops_run (no_error : (pairLoops nodes links).2 = []) :
    ∃ paired, pairEnds nodes links (ofType nodes "EndLoop").length (ofType nodes "StartLoop")
        (ofType nodes "EndLoop") = .ok (paired, []) ∧
      (pairLoops nodes links).1 = paired.map (pairOf nodes links) := by
  unfold pairLoops at no_error ⊢
  simp only at no_error ⊢
  by_cases empty : ofType nodes "StartLoop" = [] ∧ ofType nodes "EndLoop" = []
  · refine ⟨[], ?_, ?_⟩
    · rw [empty.1, empty.2]
      rfl
    · rw [if_pos empty]
      rfl
  · rw [if_neg empty] at no_error ⊢
    cases run : pairEnds nodes links (ofType nodes "EndLoop").length (ofType nodes "StartLoop")
        (ofType nodes "EndLoop") with
    | error error =>
      rw [run] at no_error
      exact nomatch no_error
    | ok result =>
      obtain ⟨paired, left⟩ := result
      rw [run] at no_error
      simp only at no_error ⊢
      by_cases remains : left ≠ []
      · rw [if_pos remains] at no_error
        exact nomatch no_error
      · rw [if_neg remains]
        exact ⟨paired, by rw [Decidable.not_not.mp remains], rfl⟩

theorem pairLoops_wellNested (distinct : (nodes.map RawNode.id).Nodup)
    (acyclic : ∀ id, ¬ Below nodes links id id) (no_error : (pairLoops nodes links).2 = []) :
    WellNested nodes links (pairLoops nodes links).1 := by
  obtain ⟨paired, run, pairs⟩ := pairLoops_run no_error
  obtain ⟨starts, ends, encloses, ordered⟩ := pairEnds_spec acyclic _ rfl (nodup_eraseDups _)
    (nodup_eraseDups _) (fun _ listed => listed)
    (fun _ listed gone => absurd listed gone) run
  rw [pairs]
  rw [append_nil] at starts
  refine ⟨?_, ?_, ?_, ?_, ?_, ?_⟩
  · rw [List.map_map]
    exact starts.trans (ofType_perm distinct _)
  · rw [List.map_map]
    exact ends.trans (ofType_perm distinct _)
  · refine forall_mem_map.mpr fun pair listed => ?_
    exact (encloses pair listed).below
  · refine forall_mem_map.mpr fun pair listed last dead path => ?_
    cases reflTransGen_iff_eq_or_transGen.mp path with
    | inl same =>
      obtain ⟨child, edge, _⟩ := TransGen.head'_iff.mp (encloses pair listed).below
      subst same
      have edge : child ∈ children nodes links pair.1 := edge
      rw [show children nodes links pair.1 = [] from dead] at edge
      exact not_mem_nil edge
    | inr path => exact (encloses pair listed).closed last dead path
  · refine forall_mem_map.mpr fun pair _ id => ?_
    exact mem_bodyOf
  · have nested : (paired.map (pairOf nodes links)).Pairwise fun first second =>
        first.Apart second ∨ first.Holds second ∨ second.Holds first := by
      rw [pairwise_map]
      refine List.Pairwise.imp_of_mem (fun {first second} here there precedes => ?_) ordered
      by_cases shared : ∃ id ∈ bodyOf nodes links first.1 first.2,
          id ∈ bodyOf nodes links second.1 second.2
      · obtain ⟨id, inner, outer⟩ := shared
        exact .inr (.inr (precedes.nested acyclic (encloses second there) (encloses first here)
          inner outer))
      · exact .inl fun id inner outer => shared ⟨id, inner, outer⟩
    have symmetric : Std.Symm fun first second : LoopPair =>
        first.Apart second ∨ first.Holds second ∨ second.Holds first := by
      constructor
      intro first second related
      cases related with
      | inl apart => exact .inl fun id there here => apart id here there
      | inr holds => exact .inr holds.symm
    exact fun first here second there different => nested.forall here there different

theorem pairLoops_perm {nodes' : List RawNode} {links' : List RawLink}
    (sameNodes : nodes'.Perm nodes) (sameLinks : links'.Perm links) :
    List.Forall₂ LoopPair.Same (pairLoops nodes' links').1 (pairLoops nodes links).1 := by
  have alike := alike_of_perm sameNodes sameLinks
  have types : ∀ type, (ofType nodes' type).Perm (ofType nodes type) := fun type =>
    perm_of_mem_iff (nodup_eraseDups _) (nodup_eraseDups _) fun _ => alike.types
  have empty : ∀ type, ofType nodes' type = [] ↔ ofType nodes type = [] := by
    intro type
    rw [← length_eq_zero_iff, (types type).length_eq, length_eq_zero_iff]
  unfold pairLoops
  simp only [empty, (types "EndLoop").length_eq]
  split
  · exact .nil
  · cases alike.pairEnds (ofType nodes "EndLoop").length (types "StartLoop") (types "EndLoop") with
    | inl failed =>
      obtain ⟨error, first, second⟩ := failed
      simp only [first, second]
      exact .nil
    | inr done =>
      obtain ⟨paired, left', left, first, second, same⟩ := done
      have leaves : left' = [] ↔ left = [] := by
        rw [← length_eq_zero_iff, same.length_eq, length_eq_zero_iff]
      simp only [first, second, ne_eq, leaves]
      split
      · exact .nil
      · dsimp only
        rw [forall₂_map_left_iff, forall₂_map_right_iff]
        exact forall₂_same.mpr fun pair _ => ⟨rfl, rfl, fun id => alike.bodyOf⟩

/-- Loop pairing is well nested, and does not depend on the order of nodes and links. -/
theorem loops_wellNested (nodes : List RawNode) (links : List RawLink)
    (distinct : (nodes.map RawNode.id).Nodup) (acyclic : ∀ id, ¬ Below nodes links id id)
    (no_error : (pairLoops nodes links).2 = []) : WellNested nodes links (pairLoops nodes links).1 ∧
      ∀ nodes' links', nodes'.Perm nodes → links'.Perm links →
        List.Forall₂ LoopPair.Same (pairLoops nodes' links').1 (pairLoops nodes links).1 :=
  ⟨pairLoops_wellNested distinct acyclic no_error,
    fun _ _ sameNodes sameLinks => pairLoops_perm sameNodes sameLinks⟩

theorem acyclic_of_increasing (upwards : ∀ link ∈ links, link.source < link.target) (id : Int) :
    ¬ Below nodes links id id := by
  have rises : ∀ {source target}, Below nodes links source target → source < target := by
    intro source target path
    induction path with
    | single edge =>
      obtain ⟨link, inner, rfl, rfl⟩ := mem_children.mp edge
      exact upwards link (mem_filter.mp inner).1
    | tail _ edge before =>
      obtain ⟨link, inner, rfl, rfl⟩ := mem_children.mp edge
      exact before.trans (upwards link (mem_filter.mp inner).1)
  exact fun path => lt_irrefl id (rises path)

def twoLoops : List RawNode :=
  [⟨1, "StartLoop", []⟩, ⟨2, "StartLoop", []⟩, ⟨3, "Blur", []⟩, ⟨4, "EndLoop", []⟩,
    ⟨5, "EndLoop", [some "accumulate"]⟩, ⟨6, "Save", []⟩]

def twoLoopLinks : List RawLink :=
  [⟨1, 2, 0⟩, ⟨1, 3, 0⟩, ⟨2, 3, 0⟩, ⟨3, 4, 0⟩, ⟨4, 5, 1⟩, ⟨5, 6, 0⟩]

theorem loops_wellNested_two :
    WellNested twoLoops twoLoopLinks (pairLoops twoLoops twoLoopLinks).1 ∧
      (pairLoops twoLoops twoLoopLinks).1.map LoopPair.start = [2, 1] ∧
      List.Forall₂ LoopPair.Same (pairLoops twoLoops.reverse twoLoopLinks.reverse).1
        (pairLoops twoLoops twoLoopLinks).1 := by
  have nested := loops_wellNested twoLoops twoLoopLinks (by decide)
    (acyclic_of_increasing (by decide)) (by decide +kernel)
  exact ⟨nested.1, by decide +kernel,
    nested.2 _ _ (reverse_perm _) (reverse_perm _)⟩

end Dinkster.Loops
