import Dinkster.Loops.Nesting

/-!
# The order of nodes and links

Every set of the pairing is the same for a graph that lists its nodes and links in another order,
and the pairing only looks at sets and at sorted lists.
-/

namespace Dinkster.Loops

open Library Relation List

/-- Two graphs with the same nodes of every type and the same edges. -/
structure Alike (nodes : List RawNode) (links : List RawLink) (nodes' : List RawNode)
    (links' : List RawLink) : Prop where
  ids : ∀ {id}, id ∈ nodeIds nodes' ↔ id ∈ nodeIds nodes
  types : ∀ {type id}, id ∈ ofType nodes' type ↔ id ∈ ofType nodes type
  edges : ∀ {source target},
    target ∈ children nodes' links' source ↔ target ∈ children nodes links source

variable {nodes : List RawNode} {ids ids' : List Int}

theorem mem_ofType {type : String} {id : Int} :
    id ∈ ofType nodes type ↔ ∃ node ∈ nodes, node.type = type ∧ node.id = id := by
  unfold ofType
  rw [mem_eraseDups, mem_map]
  constructor
  · rintro ⟨node, listed, named⟩
    obtain ⟨known, same⟩ := mem_filter.mp listed
    exact ⟨node, known, of_decide_eq_true same, named⟩
  · rintro ⟨node, known, same, named⟩
    exact ⟨node, mem_filter.mpr ⟨known, decide_eq_true same⟩, named⟩

theorem alike_of_perm {nodes' : List RawNode} {links links' : List RawLink}
    (sameNodes : nodes'.Perm nodes) (sameLinks : links'.Perm links) :
    Alike nodes links nodes' links' := by
  have ids : ∀ {id}, id ∈ nodeIds nodes' ↔ id ∈ nodeIds nodes := by
    intro id
    rw [mem_nodeIds, mem_nodeIds]
    exact exists_congr fun node => and_congr_left fun _ => sameNodes.mem_iff
  refine ⟨ids, ?_, ?_⟩
  · intro type id
    rw [mem_ofType, mem_ofType]
    exact exists_congr fun node => and_congr_left fun _ => sameNodes.mem_iff
  · intro source target
    rw [mem_children, mem_children]
    refine exists_congr fun link => and_congr_left fun _ => ?_
    unfold innerLinks
    rw [mem_filter, mem_filter, sameLinks.mem_iff]
    simp only [ids]

/-- Lists without repetitions and with the same elements. -/
theorem perm_of_mem_iff (once : ids.Nodup) (once' : ids'.Nodup)
    (same : ∀ id, id ∈ ids' ↔ id ∈ ids) : ids'.Perm ids :=
  (perm_ext_iff_of_nodup once' once).mpr same

theorem sorted_perm (same : ids'.Perm ids) : sorted ids' = sorted ids := by
  have perm : (sorted ids').Perm (sorted ids) :=
    ((perm_insertionSort _ ids').trans same).trans (perm_insertionSort _ ids).symm
  exact perm.eq_of_pairwise (fun _ _ _ _ => Int.le_antisymm)
    (pairwise_insertionSort _ ids') (pairwise_insertionSort _ ids)

theorem joined_perm (same : ids'.Perm ids) : joined ids' = joined ids := by
  unfold joined
  rw [sorted_perm same]

section Walk

variable {nodes nodes' : List RawNode} {edges edges' : Int → List Int}
  {starts starts' stops stops' : List Int}

theorem walk_congr (inside : Inside nodes edges) (inside' : Inside nodes' edges')
    (sameEdges : ∀ {source target}, target ∈ edges' source ↔ target ∈ edges source)
    (sameStarts : ∀ id, id ∈ starts' ↔ id ∈ starts) (sameStops : ∀ id, id ∈ stops' ↔ id ∈ stops)
    {id : Int} : id ∈ walk nodes' starts' edges' stops' ↔ id ∈ walk nodes starts edges stops := by
  rw [mem_walk inside, mem_walk inside']
  constructor
  · intro reached
    refine reached.mono (fun source target edge => ?_) fun start listed => (sameStarts start).mp listed
    rw [mem_halting] at edge ⊢
    exact edge.imp (mt (sameStops source).mpr) sameEdges.mp
  · intro reached
    refine reached.mono (fun source target edge => ?_) fun start listed => (sameStarts start).mpr listed
    rw [mem_halting] at edge ⊢
    exact edge.imp (mt (sameStops source).mp) sameEdges.mpr

theorem nodup_walkStops : (walkStops nodes starts edges stops).Nodup :=
  (nodup_closure _ _).filter _

theorem walkStops_congr (inside : Inside nodes edges) (inside' : Inside nodes' edges')
    (sameEdges : ∀ {source target}, target ∈ edges' source ↔ target ∈ edges source)
    (sameStarts : ∀ id, id ∈ starts' ↔ id ∈ starts) (sameStops : ∀ id, id ∈ stops' ↔ id ∈ stops) :
    (walkStops nodes' starts' edges' stops').Perm (walkStops nodes starts edges stops) := by
  refine perm_of_mem_iff nodup_walkStops nodup_walkStops fun id => ?_
  unfold walkStops
  rw [mem_filter, mem_filter,
    walk_congr inside inside' sameEdges sameStarts sameStops, decide_eq_true_iff,
    decide_eq_true_iff, sameStops id]

end Walk

namespace Alike

variable {nodes nodes' : List RawNode} {links links' : List RawLink}

section

variable (alike : Alike nodes links nodes' links')
include alike

theorem parents {source target : Int} :
    source ∈ parents nodes' links' target ↔ source ∈ parents nodes links target := by
  rw [mem_parents, mem_parents]
  exact alike.edges

variable {id start : Int}

theorem terminal : id ∈ terminal nodes' links' ↔ id ∈ terminal nodes links := by
  rw [mem_terminal, mem_terminal, alike.ids, eq_nil_iff_forall_not_mem, eq_nil_iff_forall_not_mem]
  exact and_congr_right fun _ => forall_congr' fun _ => not_congr alike.edges

theorem startDag : id ∈ startDag nodes' links' start ↔ id ∈ startDag nodes links start :=
  (walkStops_congr children_inside children_inside alike.edges (fun _ => alike.edges)
    fun _ => alike.types).mem_iff

theorem startDescendants :
    id ∈ startDescendants nodes' links' start ↔ id ∈ startDescendants nodes links start :=
  walk_congr startDag_inside startDag_inside alike.startDag (fun _ => alike.startDag)
    fun _ => Iff.rfl

theorem endDag {stop : Int} : id ∈ endDag nodes' links' stop ↔ id ∈ endDag nodes links stop :=
  (walkStops_congr parents_inside parents_inside alike.parents (fun _ => alike.parents)
    fun _ => alike.types).mem_iff

theorem bodyOf {stop : Int} :
    id ∈ bodyOf nodes' links' start stop ↔ id ∈ bodyOf nodes links start stop := by
  unfold Loops.bodyOf
  rw [mem_filter, mem_filter,
    walk_congr children_inside children_inside alike.edges (fun _ => alike.edges) fun _ => Iff.rfl]

end

variable {remainingStarts remainingStarts' remainingEnds remainingEnds' : List Int}

section

variable (alike : Alike nodes links nodes' links')

include alike

theorem nextEnd (sameEnds : remainingEnds'.Perm remainingEnds) :
    nextEnd nodes' links' remainingEnds' = nextEnd nodes links remainingEnds := by
  unfold Loops.nextEnd
  rw [sorted_perm sameEnds]
  congr 1
  funext candidate
  rw [Bool.eq_iff_iff, all_eq_true, all_eq_true]
  simp only [alike.endDag, sameEnds.mem_iff]

theorem candidatesOf (sameStarts : remainingStarts'.Perm remainingStarts) (id : Int) :
    (candidatesOf nodes' links' remainingStarts' id).Perm
      (candidatesOf nodes links remainingStarts id) :=
  walkStops_congr parents_inside parents_inside alike.parents (fun _ => alike.parents)
    fun _ => sameStarts.mem_iff

theorem closestOf {candidates candidates' : List Int} (same : candidates'.Perm candidates) :
    (closestOf nodes' links' candidates').Perm (closestOf nodes links candidates) := by
  have alikeTest : ∀ candidate, (candidates'.all fun other =>
        other = candidate || candidate ∈ Loops.startDescendants nodes' links' other) =
      candidates.all fun other =>
        other = candidate || candidate ∈ Loops.startDescendants nodes links other := by
    intro candidate
    rw [Bool.eq_iff_iff, all_eq_true, all_eq_true]
    simp only [alike.startDescendants, same.mem_iff]
  unfold Loops.closestOf
  simp only [alikeTest]
  exact same.filter _

theorem escapesOf (sameEnds : remainingEnds'.Perm remainingEnds) (start id : Int) :
    (escapesOf nodes' links' remainingEnds' start id).Perm
      (escapesOf nodes links remainingEnds start id) := by
  refine List.Perm.filter _ (walkStops_congr children_inside children_inside alike.edges
    (fun _ => alike.edges) fun stop => ?_)
  simp only [mem_append, sameEnds.mem_iff, alike.terminal]

theorem startOf (sameStarts : remainingStarts'.Perm remainingStarts)
    (sameEnds : remainingEnds'.Perm remainingEnds) (id : Int) :
    startOf nodes' links' remainingStarts' remainingEnds' id =
      startOf nodes links remainingStarts remainingEnds id := by
  have candidates := alike.candidatesOf sameStarts id
  have closest := alike.closestOf candidates
  have escapes := fun start => alike.escapesOf (sameEnds.filter (· ≠ id)) start id
  have no_candidate : Loops.candidatesOf nodes' links' remainingStarts' id = [] ↔
      Loops.candidatesOf nodes links remainingStarts id = [] := by
    rw [← length_eq_zero_iff, candidates.length_eq, length_eq_zero_iff]
  have no_escape : ∀ start,
      Loops.escapesOf nodes' links' (remainingEnds'.filter (· ≠ id)) start id = [] ↔
        Loops.escapesOf nodes links (remainingEnds.filter (· ≠ id)) start id = [] := by
    intro start
    rw [← length_eq_zero_iff, (escapes start).length_eq, length_eq_zero_iff]
  unfold Loops.startOf
  simp only [no_candidate, joined_perm candidates]
  split
  · rfl
  · cases found : Loops.closestOf nodes links
        (Loops.candidatesOf nodes links remainingStarts id) with
    | nil =>
      rw [found] at closest
      rw [closest.eq_nil]
    | cons start others =>
      rw [found] at closest
      cases others with
      | nil =>
        rw [perm_singleton.mp closest]
        simp only [no_escape, joined_perm (escapes start)]
      | cons second others =>
        cases found' : Loops.closestOf nodes' links'
            (Loops.candidatesOf nodes' links' remainingStarts' id) with
        | nil => rfl
        | cons start' others' =>
          cases others' with
          | nil =>
            rw [found'] at closest
            exact nomatch closest.length_eq
          | cons second' others' => rfl

theorem pairEnds : ∀ (turns : Nat)
    {remainingStarts remainingStarts' remainingEnds remainingEnds' : List Int},
    remainingStarts'.Perm remainingStarts → remainingEnds'.Perm remainingEnds →
      (∃ error, Loops.pairEnds nodes' links' turns remainingStarts' remainingEnds' = .error error ∧
        Loops.pairEnds nodes links turns remainingStarts remainingEnds = .error error) ∨
      ∃ paired left' left,
        Loops.pairEnds nodes' links' turns remainingStarts' remainingEnds' = .ok (paired, left') ∧
        Loops.pairEnds nodes links turns remainingStarts remainingEnds = .ok (paired, left) ∧
        left'.Perm left := by
  intro turns
  induction turns with
  | zero => exact fun sameStarts _ => .inr ⟨[], _, _, rfl, rfl, sameStarts⟩
  | succ turns ih =>
    intro remainingStarts remainingStarts' remainingEnds remainingEnds' sameStarts sameEnds
    unfold Loops.pairEnds
    rw [alike.nextEnd sameEnds]
    cases Loops.nextEnd nodes links remainingEnds with
    | none => exact .inr ⟨[], _, _, rfl, rfl, sameStarts⟩
    | some id =>
      simp only [alike.startOf sameStarts sameEnds]
      cases Loops.startOf nodes links remainingStarts remainingEnds id with
      | error error => exact .inl ⟨error, rfl, rfl⟩
      | ok start =>
        cases ih (sameStarts.filter (· ≠ start)) (sameEnds.filter (· ≠ id)) with
        | inl failed =>
          obtain ⟨error, first, second⟩ := failed
          simp only [first, second]
          exact .inl ⟨error, rfl, rfl⟩
        | inr done =>
          obtain ⟨paired, left', left, first, second, same⟩ := done
          simp only [first, second]
          exact .inr ⟨_, left', left, rfl, rfl, same⟩

end

end Alike

end Dinkster.Loops
