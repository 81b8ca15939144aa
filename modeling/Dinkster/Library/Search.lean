import Mathlib

/-!
# Depth-first searches for cycles

A coloured depth-first search visits a node by visiting what the node comes from.  A node
that is met while it is still being visited is reported.  The search reports nothing exactly
when nothing it starts from comes from a cycle, which over finitely many nodes with a source
is accessibility along the sources.
-/

namespace Dinkster.Library

open List

variable {Node : Type}

/-- `source` is one of the nodes that `target` comes from. -/
def Feeds (next : Node → List Node) (source target : Node) : Prop :=
  source ∈ next target

/-- An accessible element does not lie below itself. -/
theorem not_transGen_of_acc {relation : Node → Node → Prop} {node : Node}
    (safe : Acc relation node) : ¬ Relation.TransGen relation node node := by
  intro loop
  have strict := safe.transGen
  induction strict with
  | intro node _ ih => exact ih node loop safe loop

section Edge

variable {smaller larger : Node → Node → Prop} {source target : Node}

/-- A path to `source` from `target` needs no edge into `target`. -/
theorem path_avoiding (kept : ∀ first second, smaller first second → second ≠ target →
      larger first second) (path : Relation.ReflTransGen smaller target source) :
    Relation.ReflTransGen larger target source := by
  have shorter : ∀ {start : Node}, Relation.ReflTransGen smaller start source →
      Relation.ReflTransGen larger start source ∨ Relation.ReflTransGen larger target source := by
    intro start path
    induction path using Relation.ReflTransGen.head_induction_on with
    | refl => exact .inl .refl
    | @head first second edge _ ih =>
      cases ih with
      | inr found => exact .inr found
      | inl rest =>
        by_cases back : second = target
        · exact .inr (back ▸ rest)
        · exact .inl (.head (kept first second edge back) rest)
  cases shorter path with
  | inl found | inr found => exact found

/-- An edge that no path leads back from makes nothing inaccessible. -/
theorem acc_of_edge (extended : ∀ first second, larger first second →
      smaller first second ∨ (first = source ∧ second = target)) (safe : ∀ node, Acc smaller node)
    (apart : ¬ Relation.ReflTransGen smaller target source) (node : Node) : Acc larger node := by
  -- what does not lie above the target is not above the edge either
  have elsewhere : ∀ node, ¬ Relation.ReflTransGen smaller target node → Acc larger node := by
    intro node
    induction safe node with
    | intro node _ ih =>
      intro above
      constructor
      intro first edge
      cases extended first node edge with
      | inl old => exact ih first old fun path => above (path.tail old)
      | inr new => exact absurd (new.2 ▸ .refl) above
  induction safe node with
  | intro node _ ih =>
    constructor
    intro first edge
    cases extended first node edge with
    | inl old => exact ih first old
    | inr new => exact new.1 ▸ elsewhere source apart

end Edge

section Search

variable [DecidableEq Node]

/-- The nodes a search is visiting, those it is done with and those it met on the way to
themselves. -/
structure Search (Node : Type) where
  visiting : List Node
  done : List Node
  reports : List Node

def Search.start : Search Node :=
  ⟨[], [], []⟩

/-- The visit of one node.  The first argument bounds how deep visits nest. -/
def visit (next : Node → List Node) : Nat → Node → Search Node → Search Node
  | 0, _, search => search
  | fuel + 1, node, search =>
    if node ∈ search.done then search
    else if node ∈ search.visiting then
      { visiting := search.visiting.erase node
        done := node :: search.done
        reports := search.reports ++ [node] }
    else
      let after := (next node).foldl (fun search source => visit next fuel source search)
        { search with visiting := node :: search.visiting }
      if node ∈ after.visiting then
        { after with visiting := after.visiting.erase node, done := node :: after.done }
      else after

def visitAll (next : Node → List Node) (fuel : Nat) (nodes : List Node)
    (search : Search Node) : Search Node :=
  nodes.foldl (fun search node => visit next fuel node search) search

def cycleReports (next : Node → List Node) (fuel : Nat) (roots : List Node) : List Node :=
  (visitAll next fuel roots .start).reports

variable {next : Node → List Node}

variable {fuel : Nat} {search : Search Node} {nodes : List Node}

variable {node : Node} {roots : List Node}

theorem visit_fresh (unfinished : node ∉ search.done) (fresh : node ∉ search.visiting) :
    visit next (fuel + 1) node search =
      let after := visitAll next fuel (next node)
        { search with visiting := node :: search.visiting }
      if node ∈ after.visiting then
        { after with visiting := after.visiting.erase node, done := node :: after.done }
      else after := by
  rw [visit, if_neg unfinished, if_neg fresh]
  rfl

theorem visit_done (finished : node ∈ search.done) :
    visit next (fuel + 1) node search = search := by
  simp only [visit, finished, if_true]

theorem visit_met (unfinished : node ∉ search.done) (met : node ∈ search.visiting) :
    visit next (fuel + 1) node search =
      { visiting := search.visiting.erase node
        done := node :: search.done
        reports := search.reports ++ [node] } := by
  simp only [visit, unfinished, met, if_false, if_true]

/-- Whatever is being visited comes from the node that is visited next. -/
def Above (next : Node → List Node) (node : Node) (search : Search Node) : Prop :=
  ∀ waiting ∈ search.visiting, Relation.TransGen (Feeds next) node waiting

variable (before after : Search Node)

/-- A visit that reports nothing gives the stack back as it was. -/
def Quiet : Prop :=
  after.reports = before.reports ∧ after.visiting = before.visiting

theorem visit_quiet (fuel : Nat) : ∀ {node : Node} {search : Search Node},
    Acc (Feeds next) node → Above next node search →
      Quiet search (visit next fuel node search) := by
  induction fuel with
  | zero =>
    intro node search _ _
    exact ⟨rfl, rfl⟩
  | succ fuel ih =>
    intro node search safe above
    by_cases finished : node ∈ search.done
    · rw [visit_done finished]
      exact ⟨rfl, rfl⟩
    by_cases met : node ∈ search.visiting
    · exact absurd (above node met) (not_transGen_of_acc safe)
    -- the sources of the node are visited with the node itself on the stack
    have sources : ∀ (nodes : List Node) (current : Search Node),
        (∀ source ∈ nodes, Feeds next source node) →
        current.visiting = node :: search.visiting →
          Quiet current (visitAll next fuel nodes current) := by
      intro nodes
      induction nodes with
      | nil =>
        intro current _ _
        exact ⟨rfl, rfl⟩
      | cons source nodes rest =>
        intro current feeds stacked
        have feed := feeds source mem_cons_self
        have first : Quiet current (visit next fuel source current) := by
          apply ih (safe.inv feed)
          intro waiting listed
          rw [stacked] at listed
          cases mem_cons.mp listed with
          | inl same => exact same ▸ .single feed
          | inr older => exact .head feed (above waiting older)
        have later := rest (visit next fuel source current)
          (fun other listed => feeds other (mem_cons_of_mem _ listed))
          (first.2.trans stacked)
        exact ⟨later.1.trans first.1, later.2.trans first.2⟩
    have inside := sources (next node) { search with visiting := node :: search.visiting }
      (fun _ listed => listed) rfl
    rw [visit_fresh finished met]
    dsimp only
    rw [inside.2, if_pos mem_cons_self]
    exact ⟨inside.1, erase_cons_head node search.visiting⟩

theorem visitAll_quiet (fuel : Nat) (idle : search.visiting = [])
    (safe : ∀ root ∈ roots, Acc (Feeds next) root) :
    Quiet search (visitAll next fuel roots search) := by
  induction roots generalizing search with
  | nil => exact ⟨rfl, rfl⟩
  | cons root roots ih =>
    have first : Quiet search (visit next fuel root search) := by
      apply visit_quiet fuel (safe root mem_cons_self)
      intro waiting listed
      rw [idle] at listed
      exact absurd listed not_mem_nil
    have later := ih (first.2.trans idle)
      (fun other listed => safe other (mem_cons_of_mem _ listed))
    exact ⟨later.1.trans first.1, later.2.trans first.2⟩

/-- Reports and finished nodes are never taken back. -/
def Grows : Prop :=
  (after.reports = [] → before.reports = []) ∧ ∀ node ∈ before.done, node ∈ after.done

omit [DecidableEq Node] in
theorem Grows.refl (search : Search Node) : Grows search search :=
  ⟨id, fun _ => id⟩

omit [DecidableEq Node] in
theorem Grows.trans {first second third : Search Node} (left : Grows first second)
    (right : Grows second third) : Grows first third :=
  ⟨left.1 ∘ right.1, fun node listed => right.2 node (left.2 node listed)⟩

theorem visitAll_grows_of
    (each : ∀ (node : Node) (search : Search Node), Grows search (visit next fuel node search))
    (nodes : List Node) (search : Search Node) :
    Grows search (visitAll next fuel nodes search) := by
  induction nodes generalizing search with
  | nil => exact .refl search
  | cons node nodes ih => exact (each node search).trans (ih _)

theorem visit_grows (fuel : Nat) : ∀ (node : Node) (search : Search Node),
    Grows search (visit next fuel node search) := by
  induction fuel with
  | zero =>
    intro node search
    exact .refl search
  | succ fuel ih =>
    intro node search
    by_cases finished : node ∈ search.done
    · rw [visit_done finished]
      exact .refl search
    by_cases met : node ∈ search.visiting
    · rw [visit_met finished met]
      constructor
      · intro none
        simp at none
      · intro other listed
        exact mem_cons_of_mem _ listed
    have inside := visitAll_grows_of ih (next node)
      { search with visiting := node :: search.visiting }
    rw [visit_fresh finished met]
    dsimp only
    split
    · exact ⟨inside.1, fun other listed => mem_cons_of_mem _ (inside.2 other listed)⟩
    · exact inside

/-- What a search that has reported nothing knows: its stack holds distinct nodes that come
from something, there is depth left for the others, and the finished nodes are accessible. -/
structure Sound (next : Node → List Node) (nodes : List Node) (fuel : Nat)
    (search : Search Node) : Prop where
  distinct : search.visiting.Nodup
  listed : ∀ node ∈ search.visiting, node ∈ nodes
  deep : nodes.length < fuel + search.visiting.length
  safe : ∀ node ∈ search.done, Acc (Feeds next) node

omit [DecidableEq Node] in
theorem Sound.room (sound : Sound next nodes fuel search) : 0 < fuel := by
  have fits := (subperm_of_subset sound.distinct sound.listed).length_le
  have deep := sound.deep
  omega

/-- What a visit without a report leaves behind. -/
structure Visited (next : Node → List Node) (node : Node) (before after : Search Node) :
    Prop where
  visiting : after.visiting = before.visiting
  finished : node ∈ after.done
  safe : ∀ node ∈ after.done, Acc (Feeds next) node

section

variable (sourced : ∀ node, next node ≠ [] → node ∈ nodes)

include sourced

theorem visit_sound (fuel : Nat) :
    ∀ {node : Node} {search : Search Node}, Sound next nodes fuel search →
      (visit next fuel node search).reports = [] →
        Visited next node search (visit next fuel node search) := by
  induction fuel with
  | zero =>
    intro node search sound _
    exact absurd sound.room (Nat.lt_irrefl 0)
  | succ fuel ih =>
    intro node search sound silent
    by_cases finished : node ∈ search.done
    · rw [visit_done finished]
      exact ⟨rfl, finished, sound.safe⟩
    by_cases met : node ∈ search.visiting
    · rw [visit_met finished met] at silent
      simp at silent
    -- a node with a source is one of the finitely many, so the stack may grow by it
    have sources : ∀ (rest : List Node) (current : Search Node),
        (∀ source ∈ rest, Feeds next source node) →
        current.visiting = node :: search.visiting →
        (∀ other ∈ current.done, Acc (Feeds next) other) →
        (visitAll next fuel rest current).reports = [] →
          (visitAll next fuel rest current).visiting = node :: search.visiting ∧
            (∀ other ∈ (visitAll next fuel rest current).done, Acc (Feeds next) other) ∧
              ∀ source ∈ rest, Acc (Feeds next) source := by
      intro rest
      induction rest with
      | nil =>
        intro current _ stacked safe _
        exact ⟨stacked, safe, by simp⟩
      | cons source rest later =>
        intro current feeds stacked safe quiet
        have grown := visitAll_grows_of (@visit_grows _ _ next fuel) rest
          (visit next fuel source current)
        have sourceful : next node ≠ [] := ne_nil_of_mem (feeds source mem_cons_self)
        have ready : Sound next nodes fuel current := by
          constructor
          · rw [stacked]
            exact nodup_cons.mpr ⟨met, sound.distinct⟩
          · intro other listed
            rw [stacked] at listed
            cases mem_cons.mp listed with
            | inl same => exact same ▸ sourced node sourceful
            | inr older => exact sound.listed other older
          · have deep := sound.deep
            rw [stacked, length_cons]
            omega
          · exact safe
        have first := ih ready (grown.1 quiet)
        have after := later (visit next fuel source current)
          (fun other listed => feeds other (mem_cons_of_mem _ listed))
          (first.visiting.trans stacked) first.safe quiet
        refine ⟨after.1, after.2.1, ?_⟩
        intro other listed
        cases mem_cons.mp listed with
        | inl same => exact same ▸ first.safe source first.finished
        | inr rest => exact after.2.2 other rest
    rw [visit_fresh finished met] at silent ⊢
    dsimp only at silent ⊢
    have quiet : (visitAll next fuel (next node)
        { search with visiting := node :: search.visiting }).reports = [] := by
      split at silent
      all_goals exact silent
    have inside := sources (next node) { search with visiting := node :: search.visiting }
      (fun _ listed => listed) rfl sound.safe quiet
    rw [inside.1, if_pos mem_cons_self]
    constructor
    · exact erase_cons_head node search.visiting
    · exact mem_cons_self
    · intro other listed
      cases mem_cons.mp listed with
      | inl same => exact same ▸ ⟨_, inside.2.2⟩
      | inr older => exact inside.2.1 other older

theorem visitAll_sound (deep : nodes.length < fuel) (idle : search.visiting = [])
    (safe : ∀ node ∈ search.done, Acc (Feeds next) node)
    (silent : (visitAll next fuel roots search).reports = []) :
    ∀ root ∈ roots, Acc (Feeds next) root := by
  induction roots generalizing search with
  | nil =>
    intro root listed
    exact absurd listed not_mem_nil
  | cons root roots ih =>
    have grown := visitAll_grows_of (@visit_grows _ _ next fuel) roots (visit next fuel root search)
    have ready : Sound next nodes fuel search := by
      constructor
      · rw [idle]
        exact nodup_nil
      · rw [idle]
        exact fun _ listed => absurd listed not_mem_nil
      · omega
      · exact safe
    have first := visit_sound sourced fuel ready (grown.1 silent)
    have later := ih (first.visiting.trans idle) first.safe silent
    intro other listed
    cases mem_cons.mp listed with
    | inl same => exact same ▸ first.safe root first.finished
    | inr rest => exact later other rest

/-- A search that may nest as deep as there are nodes with a source reports nothing exactly
when everything it starts from is accessible. -/
theorem cycleReports_eq_nil_iff (deep : nodes.length < fuel) :
    cycleReports next fuel roots = [] ↔ ∀ root ∈ roots, Acc (Feeds next) root := by
  constructor
  · intro silent
    apply visitAll_sound sourced deep rfl _ silent
    intro node listed
    exact absurd listed not_mem_nil
  · intro safe
    exact (visitAll_quiet fuel rfl safe).1

end

end Search

end Dinkster.Library
