import Dinkster.Library.Transition

/-!
# Superseded reconciliations

`supersedable` lets the calls for one key share a promise, whose loop runs a pass until one was
started after every call.  Tracks of different keys have nothing in common, so this is one track.
A pass may call back before it is first suspended, when its own promise is not known yet.
-/

namespace Dinkster.Execution

open Library List

/-- A loop with the generation at which it started its pass. -/
structure PassLoop where
  promise : Nat
  ran : Nat
  deriving DecidableEq

/-- Every call is kept with its generation and the promise it returns, and so is how the loops
ended.  `entering` are the promises of the calls that have not returned, the innermost first. -/
structure ReconcileTrack where
  generation : Nat
  promise : Option Nat
  entering : List Nat
  loops : List PassLoop
  calls : List (Nat × Nat)
  settled : List (PassLoop × Bool)
  promises : Nat

inductive TrackEvent where
  | call
  | suspend
  | finish (loop : PassLoop) (failed : Bool)

namespace ReconcileTrack

def fresh : ReconcileTrack :=
  ⟨0, none, [], [], [], [], 0⟩

variable (track : ReconcileTrack)

def call : ReconcileTrack :=
  let generation := track.generation + 1
  match track.promise with
  | some promise =>
    { track with generation, calls := (generation, promise) :: track.calls }
  | none =>
    { track with
      generation
      entering := track.promises :: track.entering
      loops := ⟨track.promises, generation⟩ :: track.loops
      calls := (generation, track.promises) :: track.calls
      promises := track.promises + 1 }

/-- The innermost first pass is suspended, and the call that started its loop returns. -/
def suspend : Option ReconcileTrack :=
  match track.entering with
  | [] => none
  | promise :: entering => some { track with promise, entering }

/-- The pass of a loop ends.  One that was superseded is run again, whether it failed or not. -/
def finish (loop : PassLoop) (failed : Bool) : Option ReconcileTrack :=
  if loop ∈ track.loops ∧ loop.promise ∉ track.entering then
    if loop.ran = track.generation then
      some { track with
        promise := none
        loops := track.loops.erase loop
        settled := (loop, failed) :: track.settled }
    else
      some { track with
        loops := { loop with ran := track.generation } :: track.loops.erase loop }
  else none

def step : TrackEvent → Option ReconcileTrack
  | .call => some track.call
  | .suspend => track.suspend
  | .finish loop failed => track.finish loop failed

def isCurrent (loop : PassLoop) : Bool :=
  track.generation = loop.ran

/-- The promises made so far. -/
def promised : List Nat :=
  track.loops.map PassLoop.promise ++ track.settled.map (·.1.promise)

structure Coalesced : Prop where
  once : track.promised.Nodup
  known : ∀ promise ∈ track.promised, promise < track.promises
  held : ∀ promise ∈ track.promise.toList ++ track.entering,
    promise ∈ track.loops.map PassLoop.promise
  ran : ∀ loop ∈ track.loops, loop.ran ≤ track.generation
  latest : track.generation = 0 ∨ ∃ call ∈ track.calls, call.1 = track.generation
  called : ∀ call ∈ track.calls, call.1 ≤ track.generation ∧ call.2 ∈ track.promised
  answered : ∀ ended ∈ track.settled, ∀ call ∈ track.calls, call.2 = ended.1.promise →
    call.1 ≤ ended.1.ran

/-- What callers rely on: a promise settles once, with a pass that is no older than any call which
returned the promise. -/
structure Served : Prop where
  answered : ∀ call ∈ track.calls, (∃ loop ∈ track.loops, loop.promise = call.2) ∨
    ∃ ended ∈ track.settled, ended.1.promise = call.2
  final : ∀ ended ∈ track.settled, (∀ loop ∈ track.loops, loop.promise ≠ ended.1.promise) ∧
    ∀ call ∈ track.calls, call.2 = ended.1.promise → call.1 ≤ ended.1.ran
  once : (track.settled.map (·.1.promise)).Nodup
  current : ∀ loop ∈ track.loops,
    track.isCurrent loop = true ↔ ∀ call ∈ track.calls, call.1 ≤ loop.ran

variable {track} {next : ReconcileTrack}

namespace Coalesced

theorem call (coalesced : Coalesced track) : Coalesced track.call := by
  obtain ⟨once, known, held, ran, latest, called, answered⟩ := coalesced
  have later : ∀ loop ∈ track.loops, loop.ran ≤ track.generation + 1 :=
    fun loop listed => (ran loop listed).trans (Nat.le_succ _)
  unfold ReconcileTrack.call
  split
  · rename_i promise shared
    have pending := held promise (by simp [shared])
    refine ⟨once, known, held, later, .inr ⟨_, mem_cons_self, rfl⟩, ?_, ?_⟩
    · rintro _ (_ | ⟨_, made⟩)
      · exact ⟨le_rfl, mem_append_left _ pending⟩
      · exact ⟨(called _ made).1.trans (Nat.le_succ _), (called _ made).2⟩
    · rintro ended settled _ (_ | ⟨_, made⟩) same
      · cases disjoint_of_nodup_append once pending (mem_map.mpr ⟨ended, settled, same.symm⟩)
      · exact answered ended settled _ made same
  · rename_i absent
    refine ⟨nodup_cons.mpr ⟨fun listed => (known _ listed).false, once⟩, ?_, ?_, ?_,
      .inr ⟨_, mem_cons_self, rfl⟩, ?_, ?_⟩
    · rintro _ (_ | ⟨_, listed⟩)
      · exact Nat.lt_succ_self _
      · exact (known _ listed).trans (Nat.lt_succ_self _)
    · rw [absent] at held ⊢
      rintro _ (_ | ⟨_, entered⟩)
      · exact mem_cons_self
      · exact mem_cons_of_mem _ (held _ entered)
    · rintro _ (_ | ⟨_, listed⟩)
      · exact le_rfl
      · exact later _ listed
    · rintro _ (_ | ⟨_, made⟩)
      · exact ⟨le_rfl, mem_cons_self⟩
      · exact ⟨(called _ made).1.trans (Nat.le_succ _), mem_cons_of_mem _ (called _ made).2⟩
    · rintro ended settled _ (_ | ⟨_, made⟩) same
      · cases (known ended.1.promise (mem_append_right _ (mem_map_of_mem settled))).ne same.symm
      · exact answered ended settled _ made same

theorem suspend (coalesced : Coalesced track) (suspended : track.suspend = some next) :
    Coalesced next := by
  unfold ReconcileTrack.suspend at suspended
  split at suspended
  · cases suspended
  · rename_i promise entering entered
    cases suspended
    refine { coalesced with held := fun other listed => coalesced.held other ?_ }
    rw [entered]
    exact mem_append_right _ listed

theorem finish {loop : PassLoop} {failed : Bool} (coalesced : Coalesced track)
    (finished : track.finish loop failed = some next) : Coalesced next := by
  obtain ⟨once, known, held, ran, latest, called, answered⟩ := coalesced
  unfold ReconcileTrack.finish at finished
  split at finished
  · rename_i waiting
    have parts := perm_cons_erase waiting.1
    have promises := parts.map PassLoop.promise
    have others := fun other listed => ran other (erase_subset (a := loop) listed)
    split at finished
    · rename_i current
      cases finished
      have same := (promises.append_right (track.settled.map (·.1.promise))).trans
        perm_middle.symm
      refine ⟨same.nodup_iff.mp once, fun _ listed => known _ (same.symm.subset listed), ?_,
        others, latest, fun call made => (called call made).imp_right (same.subset ·), ?_⟩
      · intro promise entered
        rcases mem_cons.mp (promises.subset (held _ (mem_append_right _ entered))) with rfl | kept
        · exact absurd entered waiting.2
        · exact kept
      · rintro _ (_ | ⟨_, settled⟩) call made shared
        · exact (called call made).1.trans current.ge
        · exact answered _ settled call made shared
    · cases finished
      have same := promises.append_right (track.settled.map (·.1.promise))
      refine ⟨same.nodup_iff.mp once, fun _ listed => known _ (same.symm.subset listed),
        fun _ listed => promises.subset (held _ listed), ?_, latest,
        fun call made => (called call made).imp_right (same.subset ·), answered⟩
      rintro _ (_ | ⟨_, listed⟩)
      · exact le_rfl
      · exact others _ listed
  · cases finished

theorem step {event : TrackEvent} (coalesced : Coalesced track)
    (taken : track.step event = some next) : Coalesced next := by
  cases event with
  | call =>
    cases taken
    exact coalesced.call
  | suspend => exact coalesced.suspend taken
  | finish loop failed => exact coalesced.finish taken

theorem served (coalesced : Coalesced track) : Served track := by
  obtain ⟨once, _, _, ran, latest, called, answered⟩ := coalesced
  refine ⟨?_, ?_, once.of_append_right, ?_⟩
  · intro call made
    exact (mem_append.mp (called call made).2).imp mem_map.mp mem_map.mp
  · intro ended settled
    refine ⟨fun loop listed same => ?_, answered ended settled⟩
    exact disjoint_of_nodup_append once (mem_map_of_mem listed) (mem_map.mpr ⟨_, settled, same.symm⟩)
  · intro loop listed
    rw [isCurrent, decide_eq_true_iff]
    constructor
    · rintro current call made
      exact (called call made).1.trans current.le
    · intro newest
      refine le_antisymm ?_ (ran loop listed)
      obtain none | ⟨call, made, last⟩ := latest
      · exact none ▸ Nat.zero_le _
      · exact last ▸ newest call made

end Coalesced

/-- No pass calls back before it is first suspended. -/
def Outside (track : ReconcileTrack) : TrackEvent → Prop
  | .call => track.entering = []
  | _ => True

structure Single (track : ReconcileTrack) : Prop where
  one : track.loops.length ≤ 1
  idle : track.promise = none → track.entering = [] → track.loops = []

theorem Single.step {event : TrackEvent} (single : Single track) (outside : Outside track event)
    (taken : track.step event = some next) : Single next := by
  obtain ⟨one, idle⟩ := single
  cases event with
  | call =>
    cases taken
    unfold call
    split
    · exact ⟨one, idle⟩
    · rename_i absent
      rw [idle absent outside]
      exact ⟨le_rfl, nofun⟩
  | suspend =>
    simp only [ReconcileTrack.step, suspend] at taken
    split at taken
    · cases taken
    · cases taken
      exact ⟨one, nofun⟩
  | finish loop failed =>
    simp only [ReconcileTrack.step, finish] at taken
    split at taken
    · rename_i waiting
      have shorter := length_erase_add_one waiting.1
      split at taken
      · cases taken
        have gone : track.loops.erase loop = [] := length_eq_zero_iff.mp (by omega)
        exact ⟨gone ▸ Nat.zero_le _, fun _ _ => gone⟩
      · cases taken
        refine ⟨shorter.trans_le one, fun absent quiet => ?_⟩
        cases idle absent quiet ▸ waiting.1
    · cases taken

/-- Every caller is answered by a pass that is no older than the call, and as long as no pass calls
back before it is suspended, one pass runs at a time. -/
theorem passes_coalesce {events : List TrackEvent} (reached : run step fresh events = some track) :
    track.Served ∧ (Along step Outside fresh events → track.loops.length ≤ 1) := by
  constructor
  · have coalesced : Coalesced fresh := by
      constructor <;> simp [fresh, promised]
    exact (run_invariant Coalesced (fun coalesced _ => coalesced.step) coalesced
      (along_of_mem fresh fun _ _ => trivial) reached).served
  · intro outside
    exact (run_invariant Single Single.step ⟨Nat.zero_le _, fun _ _ => rfl⟩ outside reached).one

theorem passes_coalesce_rerun : ∃ track, run step fresh
    [.call, .suspend, .call, .finish ⟨0, 1⟩ true] = some track ∧ track.Served ∧
      track.loops.length ≤ 1 := by
  refine ⟨?_, ?reached, (passes_coalesce ?reached).1, (passes_coalesce ?reached).2 ?_⟩
  case reached => rfl
  simp [Along, Outside, step, call, suspend, fresh]

end ReconcileTrack

end Dinkster.Execution
