import Mathlib

/-!
# Worklist closures

A worklist pops one node at a time, keeps a node it sees for the first time, and pushes
that node's successors.  When only finitely many nodes have successors it runs empty,
and what it keeps is exactly what the starting nodes reach.
-/

namespace Dinkster.Library

open List

section Closure

variable {Node : Type}

def Reaches (next : Node → List Node) (starts : List Node) (node : Node) : Prop :=
  ∃ start ∈ starts, Relation.ReflTransGen (fun source target => target ∈ next source) start node

namespace Reaches

variable {next more : Node → List Node} {starts others : List Node} {node other : Node}

theorem start (listed : node ∈ starts) : Reaches next starts node :=
  ⟨node, listed, .refl⟩

theorem step (reached : Reaches next starts node) (listed : other ∈ next node) :
    Reaches next starts other := by
  cases reached with
  | intro start route => exact ⟨start, route.1, route.2.tail listed⟩

/-- The rule of a set that holds the starting nodes and is closed under successors. -/
theorem induct {kept : Node → Prop} (first : ∀ start ∈ starts, kept start)
    (closed : ∀ source, Reaches next starts source → kept source →
      ∀ target ∈ next source, kept target) (reached : Reaches next starts node) : kept node := by
  cases reached with
  | intro start route =>
    have carried : Reaches next starts node ∧ kept node := by
      induction route.2 with
      | refl => exact ⟨.start route.1, first start route.1⟩
      | tail _ edge ih =>
        have ih := ih ⟨route.1, by assumption⟩
        exact ⟨ih.1.step edge, closed _ ih.1 ih.2 _ edge⟩
    exact carried.2

section

variable (wider : ∀ source, ∀ target ∈ next source, target ∈ more source)

include wider

theorem mono (begun : ∀ start ∈ starts, start ∈ others) (reached : Reaches next starts node) :
    Reaches more others node := by
  apply reached.induct
  · intro start listed
    exact .start (begun start listed)
  · intro source _ kept target listed
    exact kept.step (wider source target listed)

theorem absorbs_iff : (∀ node, Reaches more starts node ↔ Reaches next starts node) ↔
      ∀ source, Reaches next starts source →
        ∀ target ∈ more source, Reaches next starts target := by
  constructor
  · intro same source reached target listed
    exact (same target).mp (((same source).mpr reached).step listed)
  · intro absorbed node
    constructor
    · intro reached
      apply reached.induct
      · intro start listed
        exact .start listed
      · intro source _ kept target listed
        exact absorbed source kept target listed
    · exact mono wider fun _ listed => listed

end

end Reaches

variable [DecidableEq Node]

/-- The worklist loop: the stack has its top first. -/
def drain (next : Node → List Node) : Nat → List Node → List Node → List Node
  | 0, _, seen => seen
  | _ + 1, [], seen => seen
  | fuel + 1, node :: stack, seen =>
    if node ∈ seen then drain next fuel stack seen
    else drain next fuel ((next node).reverse ++ stack) (seen ++ [node])

/-- How many pushes the nodes not seen yet can still cause. -/
def owed (next : Node → List Node) (seen : List Node) : List Node → Nat
  | [] => 0
  | node :: nodes => (if node ∈ seen then 0 else (next node).length) + owed next seen nodes

/-- How many pops are left at most. -/
def workLeft (next : Node → List Node) (nodes stack seen : List Node) : Nat :=
  stack.length + owed next seen nodes

def closure (next : Node → List Node) (nodes starts : List Node) : List Node :=
  drain next (workLeft next nodes starts.reverse []) starts.reverse []

variable {next : Node → List Node} {nodes : List Node}

theorem owed_keep {node : Node} {seen : List Node} (fresh : node ∉ seen) : ∀ nodes : List Node,
      owed next (seen ++ [node]) nodes + (if node ∈ nodes then (next node).length else 0) ≤
        owed next seen nodes
  | [] => by simp [owed]
  | first :: rest => by
    have ih := owed_keep fresh rest
    by_cases same : first = node
    · subst same
      simp only [owed, mem_append, mem_cons, not_mem_nil, or_false, or_true,
        if_true, fresh, if_false, true_or]
      split at ih <;> omega
    · simp only [owed, mem_append, mem_cons, not_mem_nil, same, or_false, Ne.symm same, false_or]
      omega

/-- Keeping a node pays for the successors it pushes. -/
theorem workLeft_keep (listed : ∀ node, next node ≠ [] → node ∈ nodes) {node : Node}
    {stack seen : List Node} (fresh : node ∉ seen) :
    workLeft next nodes ((next node).reverse ++ stack) (seen ++ [node]) <
      workLeft next nodes (node :: stack) seen := by
  have paid := @owed_keep Node _ next node seen fresh nodes
  unfold workLeft
  simp only [length_append, length_reverse, length_cons]
  split at paid
  · omega
  · rename_i unlisted
    have empty : next node = [] :=
      Decidable.byContradiction fun filled => unlisted (listed node filled)
    rw [empty]
    simp only [length_nil]
    omega

theorem mem_drain_of_seen : ∀ (fuel : Nat) (stack : List Node) {seen : List Node} {node : Node},
    node ∈ seen → node ∈ drain next fuel stack seen
  | 0, _, _, _, known | _ + 1, [], _, _, known => known
  | fuel + 1, top :: stack, seen, node, known => by
    unfold drain
    split
    · exact mem_drain_of_seen fuel stack known
    · exact mem_drain_of_seen fuel _ (mem_append_left _ known)

theorem drain_sound : ∀ (fuel : Nat) (stack seen : List Node) {node : Node},
    node ∈ drain next fuel stack seen → node ∈ seen ∨ Reaches next stack node
  | 0, _, _, _, kept | _ + 1, [], _, _, kept => .inl kept
  | fuel + 1, top :: stack, seen, node, kept => by
    unfold drain at kept
    split at kept
    · cases drain_sound fuel stack seen kept with
      | inl known => exact .inl known
      | inr reached =>
        exact .inr (reached.mono (fun _ _ listed => listed)
          fun _ listed => mem_cons_of_mem _ listed)
    · cases drain_sound fuel _ _ kept with
      | inl known =>
        cases mem_append.mp known with
        | inl old => exact .inl old
        | inr new =>
          rw [mem_singleton.mp new]
          exact .inr (.start mem_cons_self)
      | inr reached =>
        refine .inr (reached.induct ?_ fun _ _ kept _ listed => kept.step listed)
        intro start pushed
        cases mem_append.mp pushed with
        | inl successor =>
          exact (Reaches.start mem_cons_self).step (mem_reverse.mp successor)
        | inr waiting => exact .start (mem_cons_of_mem _ waiting)

/-- With enough fuel the loop keeps the stack and everything seen, and what it keeps is
closed under successors. -/
theorem drain_complete (listed : ∀ node, next node ≠ [] → node ∈ nodes) :
    ∀ (fuel : Nat) (stack seen : List Node), workLeft next nodes stack seen ≤ fuel →
      (∀ source ∈ seen, ∀ target ∈ next source, target ∈ seen ∨ target ∈ stack) →
      (∀ node, node ∈ seen ∨ node ∈ stack → node ∈ drain next fuel stack seen) ∧
        ∀ source ∈ drain next fuel stack seen, ∀ target ∈ next source,
          target ∈ drain next fuel stack seen
  | 0, [], seen, _, covered => ⟨by simp [drain], by simpa [drain] using covered⟩
  | 0, _ :: _, _, enough, _ => by simp [workLeft] at enough
  | fuel + 1, [], seen, _, covered => ⟨by simp [drain], by simpa [drain] using covered⟩
  | fuel + 1, top :: stack, seen, enough, covered => by
    unfold drain
    split
    · rename_i known
      have enough : workLeft next nodes stack seen ≤ fuel := by
        simp only [workLeft, length_cons] at enough ⊢
        omega
      have ih := drain_complete listed fuel stack seen enough (by
        intro source kept target successor
        cases covered source kept target successor with
        | inl old => exact .inl old
        | inr waiting =>
          cases mem_cons.mp waiting with
          | inl same => exact .inl (same ▸ known)
          | inr waiting => exact .inr waiting)
      refine ⟨?_, ih.2⟩
      intro node kept
      apply ih.1
      cases kept with
      | inl old => exact .inl old
      | inr waiting =>
        cases mem_cons.mp waiting with
        | inl same => exact .inl (same ▸ known)
        | inr waiting => exact .inr waiting
    · rename_i fresh
      have paid := @workLeft_keep Node _ next nodes listed top stack seen fresh
      have ih := drain_complete listed fuel ((next top).reverse ++ stack) (seen ++ [top])
        (by omega) (by
          intro source kept target successor
          cases mem_append.mp kept with
          | inl old =>
            cases covered source old target successor with
            | inl known => exact .inl (mem_append_left _ known)
            | inr waiting =>
              cases mem_cons.mp waiting with
              | inl same => exact .inl (mem_append_right _ (by simp [same]))
              | inr waiting => exact .inr (mem_append_right _ waiting)
          | inr new =>
            rw [mem_singleton.mp new] at successor
            exact .inr (mem_append_left _ (mem_reverse.mpr successor)))
      refine ⟨?_, ih.2⟩
      intro node kept
      apply ih.1
      cases kept with
      | inl old => exact .inl (mem_append_left _ old)
      | inr waiting =>
        cases mem_cons.mp waiting with
        | inl same => exact .inl (mem_append_right _ (by simp [same]))
        | inr waiting => exact .inr (mem_append_right _ waiting)

theorem mem_drain_iff (listed : ∀ node, next node ≠ [] → node ∈ nodes) {fuel : Nat}
    {stack : List Node} (enough : workLeft next nodes stack [] ≤ fuel) {node : Node} :
    node ∈ drain next fuel stack [] ↔ Reaches next stack node := by
  have complete := drain_complete listed fuel stack [] enough (by simp)
  constructor
  · intro kept
    cases drain_sound _ _ _ kept with
    | inl none => exact absurd none not_mem_nil
    | inr reached => exact reached
  · intro reached
    apply reached.induct
    · intro start first
      exact complete.1 start (.inr first)
    · intro source _ kept target successor
      exact complete.2 source kept target successor

/-- The worklist computes reachability. -/
theorem mem_closure_iff (listed : ∀ node, next node ≠ [] → node ∈ nodes)
    {starts : List Node} {node : Node} :
    node ∈ closure next nodes starts ↔ Reaches next starts node := by
  unfold closure
  rw [mem_drain_iff listed (Nat.le_refl _)]
  constructor
  · intro reached
    exact reached.mono (fun _ _ listed => listed) fun _ => mem_reverse.mp
  · intro reached
    exact reached.mono (fun _ _ listed => listed) fun _ => mem_reverse.mpr

/-- Nothing is kept twice. -/
theorem nodup_drain : ∀ (fuel : Nat) (stack : List Node) {seen : List Node}, seen.Nodup →
    (drain next fuel stack seen).Nodup
  | 0, _, _, distinct | _ + 1, [], _, distinct => distinct
  | fuel + 1, top :: stack, seen, distinct => by
    unfold drain
    split
    · exact nodup_drain fuel stack distinct
    · rename_i fresh
      refine nodup_drain fuel _ ?_
      rw [← concat_eq_append, nodup_concat]
      exact ⟨fresh, distinct⟩

theorem nodup_closure (nodes starts : List Node) : (closure next nodes starts).Nodup :=
  nodup_drain _ _ nodup_nil

variable {more : Node → List Node}

/-- Two successor functions that agree on what is reached keep the same. -/
theorem drain_congr : ∀ (fuel : Nat) (stack seen : List Node),
    (∀ node, Reaches next stack node → next node = more node) →
      drain next fuel stack seen = drain more fuel stack seen
  | 0, _, _, _ | _ + 1, [], _, _ => rfl
  | fuel + 1, top :: stack, seen, agree => by
    have waiting : ∀ node, Reaches next stack node → next node = more node := by
      intro node reached
      exact agree node (reached.mono (fun _ _ listed => listed)
        fun _ listed => mem_cons_of_mem _ listed)
    have pushed : ∀ node, Reaches next ((next top).reverse ++ stack) node →
        next node = more node := by
      intro node reached
      apply agree
      refine reached.induct ?_ fun _ _ kept _ listed => kept.step listed
      intro start listed
      cases mem_append.mp listed with
      | inl successor =>
        exact (Reaches.start mem_cons_self).step (mem_reverse.mp successor)
      | inr older => exact .start (mem_cons_of_mem _ older)
    unfold drain
    split
    · exact drain_congr fuel stack seen waiting
    · rw [drain_congr fuel _ _ pushed, agree top (.start mem_cons_self)]

/-- Fewer successors leave fewer pushes to make. -/
theorem workLeft_mono (fewer : ∀ node, (next node).length ≤ (more node).length)
    (stack seen : List Node) : workLeft next nodes stack seen ≤ workLeft more nodes stack seen := by
  have owes : ∀ nodes : List Node, owed next seen nodes ≤ owed more seen nodes := by
    intro nodes
    induction nodes with
    | nil => exact Nat.le_refl _
    | cons node nodes ih =>
      unfold owed
      have less := fewer node
      split <;> omega
  have less := owes nodes
  unfold workLeft
  omega

end Closure

section Absorb

variable {Element Node : Type} [DecidableEq Node] {trigger : Element → Node}
  {gain : Element → List Node}

def absorb (trigger : Element → Node) (gain : Element → List Node) (elements : List Element)
    (kept : List Node) : List Node :=
  elements.foldl (fun kept element =>
    if trigger element ∈ kept then kept ++ gain element else kept) kept

theorem absorb_cons (element : Element) (elements : List Element) (kept : List Node) :
    absorb trigger gain (element :: elements) kept = absorb trigger gain elements
        (if trigger element ∈ kept then kept ++ gain element else kept) := rfl

/-- A pass keeps what was kept. -/
theorem mem_absorb_of_mem {node : Node} : ∀ {elements : List Element} {kept : List Node},
    node ∈ kept → node ∈ absorb trigger gain elements kept
  | [], _, listed => listed
  | element :: elements, kept, listed => by
    rw [absorb_cons]
    apply mem_absorb_of_mem
    split
    · exact mem_append_left _ listed
    · exact listed

theorem mem_absorb_of_gain {node : Node} {element : Element} :
    ∀ {elements : List Element} {kept : List Node}, element ∈ elements →
      trigger element ∈ kept → node ∈ gain element → node ∈ absorb trigger gain elements kept
  | [], _, listed, _, _ => absurd listed not_mem_nil
  | first :: elements, kept, listed, triggered, gained => by
    rw [absorb_cons]
    cases mem_cons.mp listed with
    | inl here =>
      subst here
      rw [if_pos triggered]
      exact mem_absorb_of_mem (mem_append_right _ gained)
    | inr later =>
      apply mem_absorb_of_gain later _ gained
      split
      · exact mem_append_left _ triggered
      · exact triggered

/-- The rule of what a pass keeps. -/
theorem absorb_induct {sound : Node → Prop} :
    ∀ {elements : List Element} {kept : List Node}, (∀ node ∈ kept, sound node) →
      (∀ element ∈ elements, sound (trigger element) → ∀ node ∈ gain element, sound node) →
        ∀ node ∈ absorb trigger gain elements kept, sound node
  | [], _, before, _, node, listed => before node listed
  | element :: elements, kept, before, gains, node, listed => by
    rw [absorb_cons] at listed
    have later := fun other known => gains other (mem_cons_of_mem _ known)
    refine absorb_induct ?_ later node listed
    split
    · rename_i triggered
      exact forall_mem_append.mpr ⟨before, gains element mem_cons_self (before _ triggered)⟩
    · exact before

end Absorb

theorem nodup_eraseDups {Name : Type} [BEq Name] [LawfulBEq Name] :
    ∀ names : List Name, names.eraseDups.Nodup
  | [] => by simp
  | first :: rest => by
    rw [eraseDups_cons]
    refine nodup_cons.mpr ⟨fun again => ?_, nodup_eraseDups _⟩
    simp [mem_eraseDups] at again
  termination_by names => names.length
  decreasing_by exact Nat.lt_succ_of_le (length_filter_le _ _)

end Dinkster.Library
