import Dinkster.Collab.Delivery
import Dinkster.Collab.Effect
import Dinkster.Library.Transition

/-!
# The revision of a session

The revision counts confirmed operations and pending intentions, so that a saved
revision tells whether the document has changed.  An acknowledgement moves one
from the one count to the other, and a local commit adds one.  A rebase that loses
pending intentions lowers the second count, and only the gain in the first can make
up for it.
-/

namespace Dinkster.Collab

open Library Format Commands List Option

variable {Client Authority : Type}

namespace Replica

/-- The document that a replayed invocation commits, if it changes anything. -/
def committed (env : SessionEnvironment Authority) (doc : Json) (invocation : CommandInvocation) :
    Option Json :=
  match DocumentStore.execute env.registry .sharedReplay doc invocation with
  | .rejected _ => none
  | .ok next forward _ _ => if forward.isEmpty then none else some next

/-- How many of the marked intentions are lost when they are executed one after the
other on a document: the skipped ones, and those that are rejected or change
nothing. -/
def lostBy (env : SessionEnvironment Authority) :
    Option Json → Json → List (PendingEntry Client × Bool) → Nat
  | _, _, [] => 0
  | oldDoc, doc, (entry, skipped) :: rest =>
    match (if skipped then none
      else committed env doc (rebasedInvocation env oldDoc doc entry.invocation)) with
    | none => lostBy env (advanceOldDoc oldDoc entry.predicted) doc rest + 1
    | some next => lostBy env (advanceOldDoc oldDoc entry.predicted) next rest

/-- How many pending intentions are lost when a rebase starts from a document; all
of them, if it cannot. -/
def lost (env : SessionEnvironment Authority) (replica : Replica Client) (ground : Json)
    (skipped : Nat → PendingEntry Client → Bool) : Nat :=
  match createStore ground with
  | .error _ => replica.pending.length
  | .ok store =>
    lostBy env (some replica.confirmed) store.currentDoc
      (replica.pending.mapIdx fun position entry => (entry, skipped position entry))

section Losses

variable {env : SessionEnvironment Authority} {replica next : Replica Client}

variable {entry : PendingEntry Client} {oldDoc : Option Json}

variable (rest : List (PendingEntry Client × Bool))

theorem lostBy_cons_of_lost {doc : Json} {skipped : Bool} (lost : skipped = true ∨
      committed env doc (rebasedInvocation env oldDoc doc entry.invocation) = none) :
    lostBy env oldDoc doc ((entry, skipped) :: rest) =
      lostBy env (advanceOldDoc oldDoc entry.predicted) doc rest + 1 := by
  rw [lostBy]
  rcases lost with rfl | refused
  · rfl
  · rw [refused, ite_self]

theorem lostBy_cons_of_committed {doc following : Json}
    (commits : committed env doc (rebasedInvocation env oldDoc doc entry.invocation) =
      some following) : lostBy env oldDoc doc ((entry, false) :: rest) =
      lostBy env (advanceOldDoc oldDoc entry.predicted) following rest := by
  rw [lostBy]
  simp only [Bool.false_eq_true, if_false, commits]

/-- An intention survives its re-execution or is lost by it. -/
theorem rebaseLoop_lost (oldDoc : Option Json) (replica : Replica Client)
    (entries : List (PendingEntry Client × Bool)) :
    (rebaseLoop env oldDoc replica entries).1.pending.length +
        lostBy env oldDoc replica.doc entries = replica.pending.length + entries.length := by
  induction entries generalizing oldDoc replica with
  | nil => rfl
  | cons marked rest ih =>
    obtain ⟨entry, skipped⟩ := marked
    have follow := ih (advanceOldDoc oldDoc entry.predicted)
    rw [length_cons]
    cases skipped with
    | true =>
      have kept := follow replica
      rw [lostBy_cons_of_lost rest (.inl rfl)]
      show (rebaseLoop env (advanceOldDoc oldDoc entry.predicted) replica rest).1.pending.length +
        _ = _
      omega
    | false =>
      rw [rebaseLoop_cons_false]
      rcases reexecute_cases env oldDoc replica entry with ⟨idle, conflicts, dropped⟩ |
        ⟨doc, forward, inverse, diagnostics, executed, changed, survived⟩
      · have refused : committed env replica.doc
            (rebasedInvocation env oldDoc replica.doc entry.invocation) = none := by
          unfold committed
          split
          · rfl
          · rename_i executed
            rw [idle _ _ _ _ executed]
            rfl
        have same : (replica.removeRecord entry.record).pending = replica.pending ∧
            (replica.removeRecord entry.record).doc = replica.doc := by
          cases entry.record <;> exact ⟨rfl, rfl⟩
        have kept := follow (replica.removeRecord entry.record)
        rw [same.1, same.2] at kept
        rw [dropped, lostBy_cons_of_lost rest (.inr refused)]
        dsimp only
        omega
      · have commits : committed env replica.doc
            (rebasedInvocation env oldDoc replica.doc entry.invocation) = some doc := by
          unfold committed
          rw [executed]
          exact if_neg (by simpa using changed)
        rw [survived, lostBy_cons_of_committed rest commits]
        generalize moved : replica.survive entry
          (replica.store.commitDispatch
            (rebasedInvocation env oldDoc replica.doc entry.invocation) doc forward inverse).1
          (rebasedInvocation env oldDoc replica.doc entry.invocation) forward inverse = next
        have pending : next.pending.length = replica.pending.length + 1 := by
          rw [← moved]
          simp [survive]
        have reached : next.doc = doc := by
          rw [← moved]
          rfl
        have kept := follow next
        rw [pending, reached] at kept
        dsimp only
        omega

/-- A rebase from an advanced document keeps what it does not lose. -/
theorem rebase_lost {ground : Json} {skipped : Nat → PendingEntry Client → Bool}
    {start : Replica Client} (pending : start.pending = replica.pending)
    (confirmed : start.confirmed = ground)
    (rebased : start.rebase env replica.confirmed skipped = .done next ∨
      start.rebase env replica.confirmed skipped = .threw next) :
    next.pending.length + replica.lost env ground skipped = replica.pending.length := by
  unfold lost
  rcases rebased with done | threw
  · obtain ⟨store, created, made⟩ := rebase_eq_done done
    rw [confirmed] at created
    rw [created, made, ← pending]
    have kept := @rebaseLoop_lost _ _ env (some replica.confirmed)
      { start with store, pending := [] }
      (start.pending.mapIdx fun position entry => (entry, skipped position entry))
    rw [length_mapIdx] at kept
    exact kept.trans (Nat.zero_add _)
  · obtain ⟨rfl, reason, refused⟩ := rebase_eq_threw threw
    rw [confirmed] at refused
    rw [refused]
    simp

end Losses

/-- The revision does not fall, and it stays only where the document does. -/
structure Follows (replica next : Replica Client) : Prop where
  rises : replica.revision ≤ next.revision
  same : next.revision = replica.revision → next.doc = replica.doc

theorem Follows.refl (replica : Replica Client) : Follows replica replica :=
  ⟨Nat.le_refl _, fun _ => rfl⟩

theorem Follows.trans {first second third : Replica Client} (before : Follows first second)
    (after : Follows second third) : Follows first third := by
  refine ⟨Nat.le_trans before.rises after.rises, fun equal => ?_⟩
  have rises := before.rises
  have follows := after.rises
  exact (after.same (by omega)).trans (before.same (by omega))

variable {next replica : Replica Client}

theorem follows_of_lt (rises : replica.revision < next.revision) : Follows replica next :=
  ⟨Nat.le_of_lt rises, fun equal => absurd equal (Nat.ne_of_gt rises)⟩

/-- It stays where only history and observers have changed. -/
theorem follows_of_quiet (revision : next.revision = replica.revision)
    (doc : next.doc = replica.doc) : Follows replica next :=
  ⟨Nat.le_of_eq revision.symm, fun _ => doc⟩

section Local

variable {env : SessionEnvironment Authority} {replica next : Replica Client}

theorem follows_enqueue (replica : Replica Client) (store : DocumentStore)
    (invocation : CommandInvocation) (replayed : Option (HistoryDirection × List PatchOp))
    (forward : List PatchOp) :
    Follows replica (replica.enqueue store invocation replayed forward) := by
  apply follows_of_lt
  simp only [revision, enqueue, length_append, length_singleton]
  omega

theorem follows_run (env : SessionEnvironment Authority) (replica : Replica Client)
    (invocation : CommandInvocation) (replayed : Option (HistoryDirection × List PatchOp)) :
    Follows replica (replica.run env invocation replayed).2 := by
  rcases run_cases env replica invocation replayed with ⟨unchanged, _⟩ | ⟨_, _, _, _, _, _, _, _, _,
    _, ran⟩
  · rw [unchanged]
    exact .refl replica
  · rw [ran]
    exact follows_enqueue _ _ _ _ _

theorem follows_setStack (replica : Replica Client) (direction : HistoryDirection)
    (stack : List Nat) : Follows replica (replica.setStack direction stack) := by
  cases direction <;> exact follows_of_quiet rfl rfl

theorem follows_pushOpposite (replica : Replica Client) (direction : HistoryDirection)
    (record : Nat) : Follows replica (replica.pushOpposite direction record) := by
  cases direction <;> exact follows_of_quiet rfl rfl

theorem follows_beginReplay (env : SessionEnvironment Authority) (replica : Replica Client)
    (direction : HistoryDirection) : Follows replica (replica.beginReplay env direction).1 := by
  have begins := begins_beginReplay env replica direction
  generalize (replica.beginReplay env direction).1 = next,
    (replica.beginReplay env direction).2 = tied at begins ⊢
  cases begins with
  | nothing _ => exact .refl replica
  | @dropped reference rest _ conflicts =>
    exact (follows_setStack replica direction rest).trans (follows_of_quiet rfl rfl)
  | @clamped reference rest _ =>
    exact (follows_setStack replica direction rest).trans (follows_pushOpposite _ direction _)
  | queued _ _ _ _ _ _ =>
    exact (follows_setStack replica direction _).trans (follows_enqueue _ _ _ _ _)

theorem follows_tie {tied : Replica Client} {record : Nat} (found : replica.tie record = some tied) :
    Follows replica tied := by
  unfold tie at found
  split at found
  · simp at found
  · rename_i entry last
    cases found
    refine follows_of_quiet ?_ rfl
    have whole := dropLast_append_getLast? entry last
    have same : (replica.pending.dropLast ++ [{ entry with record := some record }]).length =
        replica.pending.length := by
      conv_rhs => rw [← whole]
      simp
    simp only [revision, same]

theorem follows_finishDispatch (replica : Replica Client) (forward inverse : List PatchOp) :
    Follows replica (replica.finishDispatch forward inverse) := by
  unfold finishDispatch
  dsimp only
  split
  · exact .refl replica
  · rename_i tied found
    exact (follows_tie found).trans (follows_of_quiet rfl rfl)

theorem follows_finishReplay (replica : Replica Client) (direction : HistoryDirection)
    (record : Nat) : Follows replica (replica.finishReplay direction record) := by
  unfold finishReplay
  split
  · exact .refl replica
  · rename_i tied found
    exact (follows_tie found).trans (follows_pushOpposite _ direction record)

variable [DecidableEq Client]

theorem follows_submitHead {attempt : SubmittedAttempt Client}
    (submitted : replica.submitHead = some (next, attempt)) : Follows replica next := by
  unfold submitHead at submitted
  split at submitted
  · simp at submitted
  · rename_i head rest pending
    simp only [Option.some.injEq, Prod.mk.injEq] at submitted
    obtain ⟨rfl, _⟩ := submitted
    refine ⟨Nat.le_of_eq ?_, fun _ => rfl⟩
    simp [revision, pending]

/-- Ordered ingress moves on where the gained revision outnumbers what is lost. -/
theorem follows_ingestOrdered {op : CollabServerOp Client} (outpaces : replica.Rebases op →
      ∀ ground ∈ (applyChecked env replica.confirmed op.patch).toOption,
        ∀ skipped ∈ replica.skippedFor op,
          replica.confirmedRevision + replica.lost env ground skipped < op.revision)
    (ingested : replica.ingestOrdered env op = .done next ∨
      replica.ingestOrdered env op = .threw next) : Follows replica next := by
  obtain ⟨follows, made⟩ := ingestOrdered_cases ingested
  cases made with
  | acknowledged pending same acked =>
    unfold ack at acked
    split at acked
    · simp at acked
    · cases acked
      refine ⟨Nat.le_of_eq ?_, fun _ => rfl⟩
      simp only [revision, pending, emitOp, advance, follows, length_cons]
      omega
  | @absorbed doc record skipped final rebases checked skips rebased told =>
    have ground := (grounded_removeRecord (replica.advance doc op.revision) record).trans
      (grounded_rebase rebased)
    have fewer := outpaces rebases doc (by rw [checked]; rfl) skipped skips
    have kept := @rebase_lost _ _ env replica final doc skipped
      ((replica.advance doc op.revision).removeRecord record) (by cases record <;> rfl)
      (by cases record <;> rfl) rebased
    obtain ⟨feed, rfl⟩ := told
    apply follows_of_lt
    unfold revision
    rw [ground.revisionOffset, ground.confirmedRevision]
    show replica.revisionOffset + replica.confirmedRevision + replica.pending.length <
      replica.revisionOffset + op.revision + final.pending.length
    omega

omit [DecidableEq Client] in
/-- So does a resync. -/
theorem follows_adoptSnapshot {revision : Nat} {document : Json}
    (outpaces : replica.confirmedRevision +
      replica.lost env document (fun _ entry => ambiguous revision entry) < revision)
    (adopted : replica.adoptSnapshot env revision document = .done next ∨
      replica.adoptSnapshot env revision document = .threw next) : Follows replica next := by
  obtain ⟨final, rebased, conflicts, rfl⟩ := adoptSnapshot_cases adopted
  have ground := grounded_rebase rebased
  have kept := @rebase_lost _ _ env replica final document _
    ((replica.advance document revision).clearHistory) rfl rfl rebased
  apply follows_of_lt
  unfold Replica.revision
  rw [ground.revisionOffset, ground.confirmedRevision]
  show replica.revisionOffset + replica.confirmedRevision + replica.pending.length <
    replica.revisionOffset + revision + final.pending.length
  omega

end Local

end Replica

namespace Session

variable [DecidableEq Client]

/-- Every rebase of the action raises the confirmed revision by more than the number
of intentions it loses. -/
def Outpaces (env : SessionEnvironment Authority) (session : Session Client)
    (action : SessionAction Client) : Prop :=
  (∀ op ∈ session.ingestible action, session.replica.Rebases op →
    ∀ ground ∈ (applyChecked env session.replica.confirmed op.patch).toOption,
      ∀ skipped ∈ session.replica.skippedFor op,
        session.replica.confirmedRevision + session.replica.lost env ground skipped <
          op.revision) ∧
    ∀ revision document, action = .snapshotFetched revision document →
      session.status = .catchingUp → ∀ loaded ∈ env.loadDocument document,
        session.replica.confirmedRevision + session.replica.lost env loaded
          (fun _ entry => Replica.ambiguous revision entry) < revision

def outpacesTest (env : SessionEnvironment Authority) (session : Session Client)
    (action : SessionAction Client) : Bool :=
  ((session.ingestible action).all fun op =>
      !decide (session.replica.Rebases op) ||
        (applyChecked env session.replica.confirmed op.patch).toOption.all fun ground =>
          (session.replica.skippedFor op).all fun skipped =>
            session.replica.confirmedRevision + session.replica.lost env ground skipped <
              op.revision) &&
    match action with
    | .snapshotFetched revision document =>
      (env.loadDocument document).all fun loaded =>
        session.replica.confirmedRevision + session.replica.lost env loaded
          (fun _ entry => Replica.ambiguous revision entry) < revision
    | _ => true

variable {env : SessionEnvironment Authority}

variable {action : SessionAction Client} {session : Session Client}

theorem outpaces_of_test (passes : session.outpacesTest env action = true) :
    session.Outpaces env action := by
  simp only [outpacesTest, Bool.and_eq_true] at passes
  obtain ⟨ingress, snapshot⟩ := passes
  constructor
  · intro op handed rebases ground applied skipped skips
    rw [show session.ingestible action = some op from handed] at ingress
    simp only [all_some, rebases, decide_true, Bool.not_true, Bool.false_or] at ingress
    rw [show (applyChecked env session.replica.confirmed op.patch).toOption = some ground from
      applied, show session.replica.skippedFor op = some skipped from skips] at ingress
    exact of_decide_eq_true ingress
  · rintro revision document rfl _ loaded loads
    dsimp only at snapshot
    rw [show env.loadDocument document = some loaded from loads] at snapshot
    exact of_decide_eq_true snapshot

/-- A step that outpaces its losses moves the revision on. -/
theorem follows_step {next : Session Client} (outpaces : session.Outpaces env action)
    (stepped : session.step env action = some next) :
    Replica.Follows session.replica next.replica := by
  obtain ⟨replica, status, effect, reached⟩ := step_affects stepped
  generalize next.frames = frames at effect
  have moved : Replica.Follows session.replica replica := by
    cases effect with
    | quiet => exact .refl _
    | @dispatched invocation _ _ _ _ _ ordinary ran changed =>
      have follows := Replica.follows_run env session.replica invocation none
      rw [ran] at follows
      exact follows
    | @refusedReplay direction _ begun =>
      have follows := Replica.follows_beginReplay env session.replica direction
      rw [begun] at follows
      exact follows
    | @replayed direction _ _ begun =>
      have follows := Replica.follows_beginReplay env session.replica direction
      rw [begun] at follows
      exact follows
    | finishedDispatch frames => exact Replica.follows_finishDispatch _ _ _
    | finishedReplay frames => exact Replica.follows_finishReplay _ _ _
    | cleared => exact Replica.follows_of_quiet rfl rfl
    | submitted submitted => exact Replica.follows_submitHead submitted
    | ingested handed ingested =>
      exact Replica.follows_ingestOrdered (outpaces.1 _ handed) ingested
    | adopted catching loads adopted =>
      exact Replica.follows_adoptSnapshot (outpaces.2 _ _ rfl catching _ loads) adopted
  rw [reached]
  exact moved.trans (Replica.follows_of_quiet rfl rfl)

/-- Alice edits and submits. -/
def editingActions : List (SessionAction Nat) :=
  [.dispatch (setValueSource "v1" (.num 1)), .returned, .pumpTurn]

/-- The document of two value sources after an edit of the second. -/
def editedDocument : Json :=
  ((applyOwnedOps sourceDocument
    [.replace (sourceValuePath "v2") (.num 2) .null]).toOption).getD .null

/-- Bob's edit of the other value source, first in the log. -/
def bobsEdit : CollabServerOp Nat where
  opId := ⟨"bob", 1, 1⟩
  actorId := "bob"
  baseRevision := 0
  revision := 1
  patch := wirePatchJson [.replace (sourceValuePath "v2") (.num 2)]

/-- A resync that drops the pending edit as ambiguous. -/
def resyncActions : List (SessionAction Nat) :=
  [.connected 1, .syncTurn, .opsFetched .resyncRequired, .syncTurn,
    .snapshotFetched 1 editedDocument]

end Session

end Dinkster.Collab
