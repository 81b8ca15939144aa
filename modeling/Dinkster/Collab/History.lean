import Dinkster.Collab.Coherence
import Dinkster.Collab.Revision

/-!
# The history of a session over its runs

A session that is left alone while its subscribers are notified keeps its queue and
its history coherent, whatever the server and the transport do.  A subscriber that
dispatches from its notification breaks this: the outer dispatch ties its record to
the inner one's entry.
-/

namespace Dinkster.Collab

open Library Format Commands List Option

variable {Client Authority : Type}

namespace Replica

variable {env : SessionEnvironment Authority} {replica next : Replica Client}

/-- Ordered ingress keeps the queue and the history coherent. -/
theorem coherent_ingestOrdered [DecidableEq Client] {op : CollabServerOp Client}
    (coherent : replica.Coherent env) (complete : replica.Complete)
    (ingested : replica.ingestOrdered env op = .done next ∨
      replica.ingestOrdered env op = .threw next) : next.Coherent env ∧ next.Complete := by
  obtain ⟨_, made⟩ := ingestOrdered_cases ingested
  cases made with
  | @acknowledged head rest pending same acked =>
    unfold ack at acked
    split at acked
    · simp at acked
    · cases acked
      refine ⟨coherent_tail coherent pending rfl rfl rfl rfl, ?_⟩
      intro entry member
      exact complete entry (by rw [pending]; exact mem_cons_of_mem _ member)
  | @absorbed doc record skipped final rebases checked skips rebased told =>
    have advanced : (replica.advance doc op.revision).Coherent env := coherent.congr rfl rfl rfl rfl
    have same : ((replica.advance doc op.revision).removeRecord record).pending =
        replica.pending := by
      cases record <;> rfl
    have tied : ((replica.advance doc op.revision).removeRecord record).Complete := by
      unfold Complete
      rw [same]
      exact complete
    have ended := coherent_rebase (coherent_removeRecord advanced record) tied rebased
    obtain ⟨feed, rfl⟩ := told
    exact ⟨ended.1.congr rfl rfl rfl rfl, ended.2⟩

/-- So does a resync. -/
theorem coherent_adoptSnapshot {revision : Nat} {document : Json} (coherent : replica.Coherent env)
    (complete : replica.Complete)
    (adopted : replica.adoptSnapshot env revision document = .done next ∨
      replica.adoptSnapshot env revision document = .threw next) :
    next.Coherent env ∧ next.Complete := by
  obtain ⟨final, rebased, conflicts, rfl⟩ := adoptSnapshot_cases adopted
  have advanced : (replica.advance document revision).Coherent env := coherent.congr rfl rfl rfl rfl
  have ended := coherent_rebase (coherent_clearHistory advanced) complete rebased
  exact ⟨ended.1.congr rfl rfl rfl rfl, ended.2⟩

/-- A submission leaves everything but the attempts alone. -/
theorem coherent_submitHead [DecidableEq Client] {attempt : SubmittedAttempt Client}
    (coherent : replica.Coherent env) (complete : replica.Complete)
    (submitted : replica.submitHead = some (next, attempt)) :
    next.Coherent env ∧ next.Complete := by
  unfold submitHead at submitted
  split at submitted
  · simp at submitted
  rename_i head rest pending
  obtain ⟨rfl, -⟩ := Prod.mk.inj (Option.some.inj submitted)
  constructor
  · constructor
    · exact (pending ▸ coherent.matched :)
    · have dispatched := coherent.dispatched
      rw [pending] at dispatched
      exact dispatched
    · intro entry member
      rcases mem_cons.mp member with rfl | later
      · exact coherent.tied head (by simp [pending])
      · exact coherent.tied entry (by simp [pending, later])
    · intro entry member
      rcases mem_cons.mp member with rfl | later
      · exact coherent.named head (by simp [pending])
      · exact coherent.named entry (by simp [pending, later])
    · exact ⟨coherent.chronicled.sorted, coherent.chronicled.listed⟩
  · intro entry member
    rcases mem_cons.mp member with rfl | later
    · exact complete head (by simp [pending])
    · exact complete entry (by simp [pending, later])

/-- A cleared history leaves a waiting call its entry. -/
theorem framed_clearHistory {frames : List Frame} (framed : replica.Framed env frames) :
    replica.clearHistory.Framed env frames := by
  match frames with
  | [] | [.dispatch _ _] => exact framed
  | [.replay _ reference] =>
    obtain ⟨earlier, last, record, pending, complete, untied, replayed, found, matching, _⟩ :=
      framed
    exact ⟨earlier, last, record, pending, complete, untied, replayed, found, matching,
      pairwise_singleton _ _⟩
  | .dispatch _ _ :: _ :: _ | .replay _ _ :: _ :: _ => exact framed.elim

/-- The records of an adopted history are in the order of their transactions. -/
theorem coherent_adoptHistory {history : HistorySnapshot}
    (adopted : replica.adoptHistory history = some next) : next.Coherent env ∧ next.Complete := by
  unfold adoptHistory at adopted
  split at adopted
  · simp at adopted
  rename_i pristine
  have empty : replica.pending = [] := by
    by_contra busy
    exact pristine (.inl busy)
  cases adopted
  refine ⟨coherent_of_empty ?_ empty, by simp [Complete, empty]⟩
  constructor
  · simp only [← map_reverse, reverse_reverse]
    apply pairwise_append.mpr
    refine ⟨?_, ?_, ?_⟩
    · exact List.Pairwise.map _ (fun _ _ less => Nat.add_lt_add_left less _) pairwise_lt_range
    · exact List.Pairwise.map _ (fun _ _ less => Nat.add_lt_add_left less _) pairwise_lt_range
    · intro older undo newer redo
      obtain ⟨position, within, rfl⟩ := mem_map.mp undo
      obtain ⟨other, _, rfl⟩ := mem_map.mp redo
      have bound := mem_range.mp within
      omega
  · intro reference member
    simp only [length_append, length_reverse, length_take]
    rcases mem_append.mp member with undo | redo
    · obtain ⟨position, within, rfl⟩ := mem_map.mp undo
      have bound := mem_range.mp (mem_reverse.mp within)
      omega
    · obtain ⟨position, within, rfl⟩ := mem_map.mp redo
      have bound := mem_range.mp within
      omega

end Replica

namespace Session

variable [DecidableEq Client]

/-- A session as it is handed over: new, or with the history of its predecessor. -/
def Begun (session : Session Client) : Prop :=
  ∃ actorId nonce maxUndo snapshot revision created,
    create actorId nonce maxUndo snapshot revision = .ok created ∧
      (session = created ∨ ∃ history replica, created.replica.adoptHistory history = some replica ∧
        session = { created with replica })

/-- While a call waits for its notification, nothing happens but that the call ends,
that the history is cleared, or that the session is closed.  No command bears the name
by which undos are known. -/
def Uninterrupted (session : Session Client) (action : SessionAction Client) : Prop :=
  (session.frames = [] ∨ action = .returned ∨ action = .clearHistory ∨ action = .close) ∧
    ∀ invocation, action = .dispatch invocation →
      invocation.command ≠ HistoryDirection.undo.origin

/-- Whether nothing interrupts a notification. -/
def uninterruptedTest (session : Session Client) (action : SessionAction Client) : Bool :=
  (session.frames.isEmpty ||
    match action with
    | .returned | .clearHistory | .close => true
    | _ => false) &&
    match action with
    | .dispatch invocation => decide (invocation.command ≠ HistoryDirection.undo.origin)
    | _ => true

omit [DecidableEq Client] in
theorem uninterrupted_of_test {session : Session Client} {action : SessionAction Client}
    (passes : session.uninterruptedTest action = true) : session.Uninterrupted action := by
  obtain ⟨alone, named⟩ := Bool.and_eq_true_iff.mp passes
  constructor
  · rcases Bool.or_eq_true_iff.mp alone with empty | ending
    · exact .inl (isEmpty_iff.mp empty)
    · cases action <;> simp_all
  · rintro invocation rfl
    exact of_decide_eq_true named

/-- What a session keeps between its actions. -/
structure Orderly (env : SessionEnvironment Authority) (session : Session Client) : Prop where
  coherent : session.replica.Coherent env
  framed : session.replica.Framed env session.frames

variable {env : SessionEnvironment Authority} {session next : Session Client}
  {action : SessionAction Client}

omit [DecidableEq Client] in
theorem orderly_of_begun (begun : session.Begun) : session.Orderly env := by
  obtain ⟨actorId, nonce, maxUndo, snapshot, revision, created, creates, started⟩ := begun
  simp only [create, Replica.create, bind_eq_ok, pure_eq_ok] at creates
  obtain ⟨replica, ⟨store, _, rfl⟩, rfl⟩ := creates
  have fresh : Replica.Coherent env ({
      actorId, nonce, maxUndo, store, status := .live, confirmed := snapshot
      confirmedRevision := revision, revisionOffset := 0, pending := [], records := []
      undoStack := [], redoStack := [], opCounter := 0, sent := [], minted := []
      conflicts := [], feed := [] } : Replica Client) :=
    Replica.coherent_of_empty ⟨List.Pairwise.nil, by simp⟩ rfl
  rcases started with rfl | ⟨history, replica, adopted, rfl⟩
  · exact ⟨fresh, by simp [Replica.Framed, Replica.Complete]⟩
  · obtain ⟨coherent, complete⟩ := Replica.coherent_adoptHistory adopted
    exact ⟨coherent, complete⟩

theorem orderly_step (orderly : session.Orderly env) (alone : session.Uninterrupted action)
    (stepped : session.step env action = some next) : next.Orderly env := by
  obtain ⟨replica, status, effect, reached⟩ := step_affects stepped
  suffices kept : replica.Coherent env ∧ replica.Framed env next.frames by
    constructor
    · rw [reached]
      exact kept.1.congr rfl rfl rfl rfl
    · rw [reached]
      have framed := kept.2
      unfold Replica.Framed at framed ⊢
      split at framed <;> exact framed
  generalize next.frames = frames at effect
  -- What only happens when no call waits finds every entry tied.
  have complete (quiet : session.frames = []) : session.replica.Complete := by
    have framed := orderly.framed
    rw [quiet] at framed
    exact framed
  have unframed {other : Replica Client} (quiet : session.frames = [])
      (ended : other.Coherent env ∧ other.Complete) :
      other.Coherent env ∧ other.Framed env session.frames := by
    rw [quiet]
    exact ended
  cases effect with
  | quiet => exact ⟨orderly.coherent, orderly.framed⟩
  | @dispatched invocation doc forward inverse diagnostics _ ordinary ran changed =>
    have quiet : session.frames = [] := by simpa using alone.1
    obtain ⟨stamped, prepared, stamps, prepares, _, rfl⟩ := Replica.run_eq_ok ran changed
    have command := Replica.command_of_prepare stamps prepares
    constructor
    · apply Replica.coherent_enqueue orderly.coherent
      intro _
      rw [command]
      exact alone.2 invocation rfl
    · rw [quiet]
      exact ⟨session.replica.pending, _, rfl, complete quiet, rfl, rfl, rfl⟩
  | refusedReplay begun =>
    have quiet : session.frames = [] := by simpa using alone.1
    exact unframed quiet (Replica.coherent_beginReplay orderly.coherent (complete quiet) begun)
  | replayed begun =>
    have quiet : session.frames = [] := by simpa using alone.1
    rw [quiet]
    exact Replica.coherent_beginReplay orderly.coherent (complete quiet) begun
  | finishedDispatch frames =>
    exact Replica.coherent_finishDispatch orderly.coherent (frames ▸ orderly.framed)
  | finishedReplay frames =>
    exact Replica.coherent_finishReplay orderly.coherent (frames ▸ orderly.framed)
  | cleared =>
    exact ⟨Replica.coherent_clearHistory orderly.coherent,
      Replica.framed_clearHistory orderly.framed⟩
  | submitted submitted =>
    have quiet : session.frames = [] := by simpa using alone.1
    exact unframed quiet (Replica.coherent_submitHead orderly.coherent (complete quiet) submitted)
  | ingested handed ingested =>
    have quiet : session.frames = [] := by
      rcases alone.1 with quiet | rfl | rfl | rfl
      · exact quiet
      all_goals simp [ingestible] at handed
    exact unframed quiet (Replica.coherent_ingestOrdered orderly.coherent (complete quiet) ingested)
  | adopted catching loads adopted =>
    have quiet : session.frames = [] := by simpa using alone.1
    exact unframed quiet (Replica.coherent_adoptSnapshot orderly.coherent (complete quiet) adopted)

/-- In every state that a session reaches while its notifications are not
interrupted, its queue and its history fit together, and when no call waits, every
pending entry has a record. -/
theorem history_coherent {start final : Session Client} {actions : List (SessionAction Client)}
    (begun : start.Begun) (along : Along (step env) Uninterrupted start actions)
    (reached : run (step env) start actions = some final) :
    final.replica.Coherent env ∧ (final.frames = [] → final.replica.Complete) := by
  have orderly : final.Orderly env :=
    run_invariant (Orderly env) (fun orderly alone stepped => orderly_step orderly alone stepped)
      (orderly_of_begun begun) along reached
  refine ⟨orderly.coherent, ?_⟩
  intro quiet
  have framed := orderly.framed
  rw [quiet] at framed
  exact framed

def addReroute : CommandInvocation where
  command := "reroute.add"
  params := rerouteAddParams "main" 10 20
  actor := none

/-- Alice adds a reroute, Bob's edit is confirmed under it, and she undoes. -/
def undoneActions : List (SessionAction Nat) :=
  [.dispatch addReroute, .returned, .opEvent bobsEdit, .replay .undo, .returned]

/-- The queue and the history fit together after a dispatch, a rebase and an undo. -/
theorem history_coherent_undone :
    ∃ start final : Session Nat, create "alice" 0 200 sourceDocument 0 = .ok start ∧
      run (step builtinEnvironment) start undoneActions = some final ∧
      final.replica.pending.length = 2 ∧ final.replica.Coherent builtinEnvironment ∧
      (final.frames = [] → final.replica.Complete) := by
  have passes : (create "alice" 0 200 sourceDocument 0).toOption.any (fun start =>
      alongTest (step builtinEnvironment) uninterruptedTest start undoneActions &&
        (run (step builtinEnvironment) start undoneActions).any fun final =>
          decide (final.replica.pending.length = 2)) = true := by
    decide +kernel
  obtain ⟨start, created, tested⟩ := (any_eq_true _ _).mp passes
  obtain ⟨admitted, ran⟩ := Bool.and_eq_true_iff.mp tested
  obtain ⟨final, reached, queued⟩ := (any_eq_true _ _).mp ran
  refine ⟨start, final, toOption_eq_some created, reached, of_decide_eq_true queued, ?_⟩
  exact history_coherent ⟨_, _, _, _, _, _, toOption_eq_some created, .inl rfl⟩
    (along_mono (fun _ _ => uninterrupted_of_test) (along_of_test admitted)) reached

end Session

/-- A record says of an entry what the entry predicts: its inverse patch of an undo,
its forward patch of anything else. -/
def PendingEntry.Reports (entry : PendingEntry Client) (record : HistoryRecord) : Prop :=
  entry.predicted = toWirePatch
    (if entry.origin = HistoryDirection.undo.origin then record.inverse else record.forward)

instance (entry : PendingEntry Client) (record : HistoryRecord) :
    Decidable (entry.Reports record) :=
  inferInstanceAs (Decidable (entry.predicted = toWirePatch
    (if entry.origin = HistoryDirection.undo.origin then record.inverse else record.forward)))

/-- The entry at a position has a record that does not report it. -/
def Replica.Misreports (replica : Replica Client) (position : Nat) : Prop :=
  ∃ entry reference record, replica.pending[position]? = some entry ∧
    entry.record = some reference ∧ replica.records[reference]? = some record ∧
    ¬ entry.Reports record

/-- Whether the record of the entry at a position does not report it. -/
def Replica.misreportsTest (replica : Replica Client) (position : Nat) : Bool :=
  replica.pending[position]?.any fun entry => entry.record.any fun reference =>
    replica.records[reference]?.any fun record => decide (¬ entry.Reports record)

theorem Replica.misreports_of_test {replica : Replica Client} {position : Nat}
    (passes : replica.misreportsTest position = true) : replica.Misreports position := by
  obtain ⟨entry, located, tested⟩ := (any_eq_true _ _).mp passes
  obtain ⟨reference, tied, tested⟩ := (any_eq_true _ _).mp tested
  obtain ⟨record, found, apart⟩ := (any_eq_true _ _).mp tested
  exact ⟨entry, reference, record, located, tied, found, of_decide_eq_true apart⟩

namespace Session

/-- A subscriber edits the second value source while it is notified of an edit of the
first. -/
def nestedActions : List (SessionAction Nat) :=
  [.dispatch (setValueSource "v1" (.num 1)), .dispatch (setValueSource "v2" (.num 2)),
    .returned, .returned]

/-- A reroute is added and undone before anything is confirmed. -/
def withdrawnActions : List (SessionAction Nat) :=
  [.dispatch addReroute, .returned, .replay .undo, .returned]

/-- A record does not always report the entry it is attached to.  With nested
notifications the record of the first edit ends up on the entry of the second.  The undo
of an added reroute leaves the allocation cursor alone, which its record does not.  And a
rebase over both the addition and its undo leaves the record of the undo to both. -/
theorem records_misreport_entries : ∃ start nested withdrawn rebased : Session Nat,
      create "alice" 0 200 sourceDocument 0 = .ok start ∧
      run (step builtinEnvironment) start nestedActions = some nested ∧
      nested.replica.Misreports 1 ∧
      run (step builtinEnvironment) start withdrawnActions = some withdrawn ∧
      withdrawn.replica.Misreports 1 ∧
      run (step builtinEnvironment) withdrawn [.opEvent bobsEdit] = some rebased ∧
      rebased.replica.Misreports 0 := by
  have passes : (create "alice" 0 200 sourceDocument 0).toOption.any (fun start =>
      ((run (step builtinEnvironment) start nestedActions).any fun nested =>
          nested.replica.misreportsTest 1) &&
        (run (step builtinEnvironment) start withdrawnActions).any fun withdrawn =>
          withdrawn.replica.misreportsTest 1 &&
            (run (step builtinEnvironment) withdrawn [.opEvent bobsEdit]).any fun rebased =>
              rebased.replica.misreportsTest 0) = true := by
    decide +kernel
  obtain ⟨start, created, tested⟩ := (any_eq_true _ _).mp passes
  obtain ⟨interrupted, undone⟩ := Bool.and_eq_true_iff.mp tested
  obtain ⟨nested, nestedRun, outer⟩ := (any_eq_true _ _).mp interrupted
  obtain ⟨withdrawn, withdrawnRun, tested⟩ := (any_eq_true _ _).mp undone
  obtain ⟨clamped, moved⟩ := Bool.and_eq_true_iff.mp tested
  obtain ⟨rebased, rebasedRun, shared⟩ := (any_eq_true _ _).mp moved
  exact ⟨start, nested, withdrawn, rebased, toOption_eq_some created, nestedRun,
    Replica.misreports_of_test outer, withdrawnRun, Replica.misreports_of_test clamped, rebasedRun,
    Replica.misreports_of_test shared⟩

end Session

end Dinkster.Collab
