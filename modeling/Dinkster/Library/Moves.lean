import Mathlib

/-!
# Moves between places

A move takes what is at its source to its target and leaves the source empty.  Moves that are
made one after the other come to the same as all of them at once exactly when none of them
fills a place that a later one empties.
-/

namespace Dinkster.Library

open List

section Moves

variable {Place Value : Type} [DecidableEq Place]

structure Move (Place : Type) where
  source : Place
  target : Place
  deriving DecidableEq

def Move.run (state : Place → Option Value) (move : Move Place) : Place → Option Value :=
  if (state move.source).isNone ∨ move.source = move.target then state
  else Function.update (Function.update state move.target (state move.source)) move.source none

def runMoves (state : Place → Option Value) (moves : List (Move Place)) : Place → Option Value :=
  moves.foldl Move.run state

variable {state : Place → Option Value} {move : Move Place} {moves : List (Move Place)}
  {place : Place}

theorem Move.run_source (proper : move.source ≠ move.target) :
    move.run state move.source = none := by
  unfold Move.run
  by_cases empty : (state move.source).isNone
  · rw [if_pos (.inl empty)]
    exact Option.isNone_iff_eq_none.mp empty
  · rw [if_neg (by simp [empty, proper]), Function.update_self]

theorem Move.run_target (proper : move.source ≠ move.target) (filled : (state move.source).isSome) :
    move.run state move.target = state move.source := by
  have filled : ¬ (state move.source).isNone := by
    rw [Option.isNone_iff_eq_none]
    exact Option.isSome_iff_ne_none.mp filled
  unfold Move.run
  rw [if_neg (by simp [filled, proper]), Function.update_of_ne (Ne.symm proper),
    Function.update_self]

theorem Move.run_of_ne (source : place ≠ move.source) (target : place ≠ move.target) :
    move.run state place = state place := by
  unfold Move.run
  split
  · rfl
  · rw [Function.update_of_ne source, Function.update_of_ne target]

theorem runMoves_cons (state : Place → Option Value) (move : Move Place)
    (moves : List (Move Place)) :
    runMoves state (move :: moves) = runMoves (move.run state) moves := rfl

/-- What no move takes or replaces stays. -/
theorem runMoves_of_untouched (sources : place ∉ moves.map (·.source))
    (targets : place ∉ moves.map (·.target)) : runMoves state moves place = state place := by
  induction moves generalizing state with
  | nil => rfl
  | cons first rest ih =>
    rw [map_cons, mem_cons, not_or] at sources targets
    rw [runMoves_cons, ih sources.2 targets.2, Move.run_of_ne sources.1 targets.1]

theorem runMoves_of_empty (targets : place ∉ moves.map (·.target))
    (empty : state place = none) : runMoves state moves place = none := by
  induction moves generalizing state with
  | nil => exact empty
  | cons first rest ih =>
    rw [map_cons, mem_cons, not_or] at targets
    rw [runMoves_cons]
    apply ih targets.2
    by_cases same : place = first.source
    · rw [same]
      exact Move.run_source (same ▸ targets.1)
    · rw [Move.run_of_ne same targets.1]
      exact empty

/-- A source that no move fills ends empty. -/
theorem runMoves_of_source (sources : place ∈ moves.map (·.source))
    (targets : place ∉ moves.map (·.target)) : runMoves state moves place = none := by
  induction moves generalizing state with
  | nil => cases sources
  | cons first rest ih =>
    rw [map_cons, mem_cons] at sources
    rw [map_cons, mem_cons, not_or] at targets
    rw [runMoves_cons]
    cases sources with
    | inl same =>
      apply runMoves_of_empty targets.2
      rw [same]
      exact Move.run_source (same ▸ targets.1)
    | inr later => exact ih later targets.2

structure Transfer (state : Place → Option Value) (moves : List (Move Place)) : Prop where
  sources : (moves.map (·.source)).Nodup
  targets : (moves.map (·.target)).Nodup
  proper : ∀ move ∈ moves, move.source ≠ move.target
  filled : ∀ move ∈ moves, (state move.source).isSome

namespace Transfer

variable {rest : List (Move Place)}

theorem later_source (transfer : Transfer state (move :: rest)) {later : Move Place}
    (mem : later ∈ rest) (apart : move.target ≠ later.source) :
    move.run state later.source = state later.source := by
  have other : later.source ≠ move.source := by
    intro same
    have listed : later.source ∈ rest.map (·.source) := mem_map_of_mem mem
    rw [same] at listed
    exact (nodup_cons.mp transfer.sources).1 listed
  exact Move.run_of_ne other (Ne.symm apart)

theorem tail (transfer : Transfer state (move :: rest))
    (apart : ∀ later ∈ rest, move.target ≠ later.source) : Transfer (move.run state) rest where
  sources := (nodup_cons.mp transfer.sources).2
  targets := (nodup_cons.mp transfer.targets).2
  proper := fun later mem => transfer.proper later (mem_cons_of_mem _ mem)
  filled := by
    intro later mem
    rw [transfer.later_source mem (apart later mem)]
    exact transfer.filled later (mem_cons_of_mem _ mem)

end Transfer

/-- The moves come to the same as all of them at once exactly when none of them fills a place
that a later one empties. -/
theorem runMoves_simultaneous_iff (transfer : Transfer state moves) :
    (∀ move ∈ moves, runMoves state moves move.target = state move.source) ↔
      moves.Pairwise fun earlier later => earlier.target ≠ later.source := by
  induction moves generalizing state with
  | nil => simp
  | cons first rest ih =>
    have fresh : first.target ∉ rest.map (·.target) := (nodup_cons.mp transfer.targets).1
    have proper := transfer.proper first mem_cons_self
    have filled := transfer.filled first mem_cons_self
    rw [pairwise_cons, forall_mem_cons, runMoves_cons]
    constructor
    · rintro ⟨head, later⟩
      have apart : ∀ move ∈ rest, first.target ≠ move.source := by
        intro move mem same
        -- The later move takes away what the first one brought.
        have empty : runMoves (first.run state) rest first.target = none :=
          runMoves_of_source (same ▸ mem_map_of_mem mem) fresh
        rw [head] at empty
        rw [empty] at filled
        cases filled
      refine ⟨apart, (ih (transfer.tail apart)).mp ?_⟩
      intro move mem
      rw [later move mem, transfer.later_source mem (apart move mem)]
    · rintro ⟨apart, ordered⟩
      constructor
      · have kept : first.target ∉ rest.map (·.source) := by
          intro mem
          obtain ⟨move, mem, same⟩ := mem_map.mp mem
          exact apart move mem same.symm
        rw [runMoves_of_untouched kept fresh]
        exact Move.run_target proper filled
      · intro move mem
        rw [(ih (transfer.tail apart)).mpr ordered move mem,
          transfer.later_source mem (apart move mem)]

end Moves

end Dinkster.Library
