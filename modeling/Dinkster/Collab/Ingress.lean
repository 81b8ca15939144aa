import Dinkster.Collab.Replica

/-!
# Ordered ingress and rebase

Every server operation, however it arrives, enters the confirmed document through
one ordered path: the head intention is acknowledged, an intention is confirmed
under an earlier attempt, or the operation is adopted as foreign.  The last two
rebase: the optimistic document is rebuilt from the confirmed one by re-executing
the pending intentions.  A resync snapshot replaces the confirmed document and
rebases too.

The rebase builds its store from the confirmed document through the ownership
boundary, which throws on a document it refuses.  The confirmed document and the
emptied queue are then already in place, and the old store still is.
-/

namespace Dinkster.Collab

open Library Format Commands

variable {Nonce Authority : Type}

/-- What ingress comes to.  `threw` is an exception that leaves the session as it
then was. -/
inductive Ingress (Nonce : Type) where
  | done (replica : Replica Nonce)
  | diverged (reason : String)
  | threw (replica : Replica Nonce)

def firstError (diagnostics : List Diagnostic) : String :=
  ((diagnostics.find? fun diagnostic => diagnostic.severity = .error).map (·.message)).getD ""

def applyChecked (env : SessionEnvironment Authority) (confirmed patch : Json) :
    Except String Json :=
  match applyOps confirmed patch with
  | .error error => .error error.message
  | .ok next =>
    let diagnostics := env.checkDocument next
    if hasErrors diagnostics then .error (firstError diagnostics) else .ok next

namespace Replica

def submitHead [DecidableEq Nonce] (replica : Replica Nonce) : Option (Replica Nonce × SubmittedAttempt Nonce) :=
  match replica.pending with
  | [] => none
  | head :: rest =>
    let attempt :=
      ⟨head.opId, replica.confirmedRevision, head.predicted, head.recorded⟩
    let known := head.attempts.getLast?.any fun last => decide (last.opId = head.opId)
    let attempts := if known then head.attempts else head.attempts ++ [attempt]
    some ({ replica with
        pending := { head with attempts } :: rest
        sent := replica.sent ++ [attempt] },
      attempt)

def emitOp (replica : Replica Nonce) (op : CollabServerOp Nonce) (origin : String) :
    Replica Nonce :=
  { replica with feed := replica.feed ++ [(op, origin)] }

/-- The params of an intention in the coordinates of the rebuilt document. -/
def rebasedInvocation (env : SessionEnvironment Authority) (oldDoc : Option Json) (doc : Json)
    (invocation : CommandInvocation) : CommandInvocation :=
  match oldDoc, (env.registry.commands invocation.command).bind (·.transformForRebase) with
  | some oldDoc, some transform =>
    match transform invocation.params oldDoc doc with
    | some params => { invocation with params }
    | none => invocation
  | _, _ => invocation

/-- The record of a re-executed intention; a replay's record lives mirrored. -/
def rewriteRecord (records : List HistoryRecord) (entry : PendingEntry Nonce)
    (forward inverse : List PatchOp) : List HistoryRecord :=
  match entry.record with
  | none => records
  | some reference =>
    records.set reference
      (if entry.origin = "session.undo" then ⟨inverse, forward⟩ else ⟨forward, inverse⟩)

/-- A re-executed intention joins the survivors under a fresh op id.  Attempts
whose slot was observed are dead and forgotten. -/
def survive (replica : Replica Nonce) (entry : PendingEntry Nonce) (store : DocumentStore)
    (invocation : CommandInvocation) (forward inverse : List PatchOp) : Replica Nonce :=
  let opId := replica.nextOpId
  { replica with
    store
    opCounter := replica.opCounter + 1
    records := rewriteRecord replica.records entry forward inverse
    pending := replica.pending ++ [{ entry with
      opId, invocation
      predicted := toWirePatch forward
      attempts := entry.attempts.filter fun attempt =>
        attempt.baseRevision ≥ replica.confirmedRevision }]
    minted := (opId, entry.intention) :: replica.minted }

/-- Re-execute one intention.  The conflicts are told once the rebase is over. -/
def reexecute (env : SessionEnvironment Authority) (oldDoc : Option Json)
    (replica : Replica Nonce) (entry : PendingEntry Nonce) : Replica Nonce × List SessionConflict :=
  let invocation := rebasedInvocation env oldDoc replica.doc entry.invocation
  match replica.store.dispatch env.registry .sharedReplay invocation with
  | (.rejected diagnostics, _, _) =>
    (replica.removeRecord entry.record, [⟨invocation, diagnostics, .rebase⟩])
  | (.ok _ forward inverse _, store, _) =>
    if forward.isEmpty then (replica.removeRecord entry.record, [])
    else (replica.survive entry store invocation forward inverse, [])

variable (env : SessionEnvironment Authority)

/-- Re-executing an intention drops it, when it is rejected or changes nothing, or
lets it survive. -/
theorem reexecute_cases (oldDoc : Option Json) (replica : Replica Nonce)
    (entry : PendingEntry Nonce) : ((∀ doc forward inverse diagnostics,
          DocumentStore.execute env.registry .sharedReplay replica.doc
            (rebasedInvocation env oldDoc replica.doc entry.invocation) =
              .ok doc forward inverse diagnostics → forward = []) ∧
        ∃ conflicts, replica.reexecute env oldDoc entry =
          (replica.removeRecord entry.record, conflicts)) ∨ ∃ doc forward inverse diagnostics,
        DocumentStore.execute env.registry .sharedReplay replica.doc
            (rebasedInvocation env oldDoc replica.doc entry.invocation) =
          .ok doc forward inverse diagnostics ∧ forward ≠ [] ∧ replica.reexecute env oldDoc entry =
          (replica.survive entry (replica.store.commitDispatch
              (rebasedInvocation env oldDoc replica.doc entry.invocation) doc forward inverse).1
            (rebasedInvocation env oldDoc replica.doc entry.invocation) forward inverse, []) := by
  unfold reexecute
  dsimp only
  rcases DocumentStore.dispatch_cases env.registry .sharedReplay replica.store
    (rebasedInvocation env oldDoc replica.doc entry.invocation) with
    ⟨outcome, executed, unchanged, empty⟩ | ⟨doc, forward, inverse, diagnostics, executed, changed,
      dispatched⟩
  · rw [unchanged]
    have idle : ∀ doc forward inverse diagnostics,
        DocumentStore.execute env.registry .sharedReplay replica.doc
          (rebasedInvocation env oldDoc replica.doc entry.invocation) =
            .ok doc forward inverse diagnostics → forward = [] := by
      intro doc forward inverse diagnostics accepted
      exact empty doc forward inverse diagnostics (executed.symm.trans accepted)
    cases outcome with
    | rejected diagnostics => exact .inl ⟨idle, _, rfl⟩
    | ok doc forward inverse diagnostics =>
      obtain rfl := empty doc forward inverse diagnostics rfl
      exact .inl ⟨idle, _, rfl⟩
  · rw [dispatched]
    have nonempty : ¬ forward.isEmpty = true := by simpa using changed
    simp only [if_neg nonempty]
    exact .inr ⟨doc, forward, inverse, diagnostics, executed, changed, rfl⟩

/-- The old document moves past an intention as it was predicted. -/
def advanceOldDoc (oldDoc : Option Json) (predicted : List WirePatchOp) : Option Json :=
  oldDoc.bind fun doc => (applyOps doc (wirePatchJson predicted)).toOption

def rebaseLoop (env : SessionEnvironment Authority) :
    Option Json → Replica Nonce → List (PendingEntry Nonce × Bool) →
      Replica Nonce × List SessionConflict
  | _, replica, [] => (replica, [])
  | oldDoc, replica, (entry, skipped) :: rest =>
    let (next, conflicts) :=
      if skipped then (replica, []) else replica.reexecute env oldDoc entry
    let (final, later) := rebaseLoop env (advanceOldDoc oldDoc entry.predicted) next rest
    (final, conflicts ++ later)

theorem rebaseLoop_cons_false (oldDoc : Option Json) (replica : Replica Nonce)
    (entry : PendingEntry Nonce) (rest : List (PendingEntry Nonce × Bool)) :
    (rebaseLoop env oldDoc replica ((entry, false) :: rest)).1 =
      (rebaseLoop env (advanceOldDoc oldDoc entry.predicted)
        (replica.reexecute env oldDoc entry).1 rest).1 := rfl

/-- What a replayed invocation commits to a document, if it changes anything. -/
def recommit (env : SessionEnvironment Authority) (doc : Json) (invocation : CommandInvocation) :
    Option (Json × List PatchOp) :=
  match DocumentStore.execute env.registry .sharedReplay doc invocation with
  | .rejected _ => none
  | .ok next forward _ _ => if forward.isEmpty then none else some (next, forward)

/-- An intention that a rebase executed again: the document it was executed on, the
intention as it was queued, and the operations it recorded this time. -/
structure Reexecution (Nonce : Type) where
  ground : Json
  entry : PendingEntry Nonce
  forward : List PatchOp

/-- The intentions that survive a rebase from a document, each as it is executed. -/
def reexecutions (env : SessionEnvironment Authority) :
    Option Json → Json → List (PendingEntry Nonce × Bool) → List (Reexecution Nonce)
  | _, _, [] => []
  | oldDoc, doc, (entry, skipped) :: rest =>
    match (if skipped then none
      else recommit env doc (rebasedInvocation env oldDoc doc entry.invocation)) with
    | none => reexecutions env (advanceOldDoc oldDoc entry.predicted) doc rest
    | some (next, forward) =>
      ⟨doc, entry, forward⟩ ::
        reexecutions env (advanceOldDoc oldDoc entry.predicted) next rest

section Again

variable {env : SessionEnvironment Authority} {oldDoc : Option Json} {doc : Json}
  {entry : PendingEntry Nonce} (rest : List (PendingEntry Nonce × Bool))

/-- What is dropped is not among them. -/
theorem reexecutions_cons_of_idle (idle : ∀ next forward inverse diagnostics,
      DocumentStore.execute env.registry .sharedReplay doc
        (rebasedInvocation env oldDoc doc entry.invocation) =
          .ok next forward inverse diagnostics → forward = []) :
    reexecutions env oldDoc doc ((entry, false) :: rest) =
      reexecutions env (advanceOldDoc oldDoc entry.predicted) doc rest := by
  have refused : recommit env doc (rebasedInvocation env oldDoc doc entry.invocation) = none := by
    unfold recommit
    split
    · rfl
    · rename_i executed
      rw [idle _ _ _ _ executed]
      rfl
  rw [reexecutions]
  simp only [Bool.false_eq_true, if_false, refused]

/-- What survives is. -/
theorem reexecutions_cons_of_executed {next : Json} {forward inverse : List PatchOp}
    {diagnostics : List Diagnostic} (executed : DocumentStore.execute env.registry .sharedReplay doc
      (rebasedInvocation env oldDoc doc entry.invocation) = .ok next forward inverse diagnostics)
    (changed : forward ≠ []) : reexecutions env oldDoc doc ((entry, false) :: rest) =
      ⟨doc, entry, forward⟩ ::
        reexecutions env (advanceOldDoc oldDoc entry.predicted) next rest := by
  have commits : recommit env doc (rebasedInvocation env oldDoc doc entry.invocation) =
      some (next, forward) := by
    unfold recommit
    rw [executed]
    exact if_neg (by simpa using changed)
  rw [reexecutions]
  simp only [Bool.false_eq_true, if_false, commits]

end Again

theorem grounded_reexecute (oldDoc : Option Json) (replica : Replica Nonce)
    (entry : PendingEntry Nonce) : Grounded replica (replica.reexecute env oldDoc entry).1 := by
  unfold reexecute
  dsimp only
  split
  · exact grounded_removeRecord replica entry.record
  · split
    · exact grounded_removeRecord replica entry.record
    · constructor <;> rfl

theorem grounded_rebaseLoop (oldDoc : Option Json) (replica : Replica Nonce)
    (entries : List (PendingEntry Nonce × Bool)) :
    Grounded replica (rebaseLoop env oldDoc replica entries).1 := by
  induction entries generalizing oldDoc replica with
  | nil => constructor <;> rfl
  | cons marked rest ih =>
    obtain ⟨entry, skipped⟩ := marked
    cases skipped with
    | true => exact ih (advanceOldDoc oldDoc entry.predicted) replica
    | false => exact (grounded_reexecute env oldDoc replica entry).trans (ih _ _)

/-- `rebase`: a fresh store from the confirmed document, and every intention that
is not skipped re-executed on it. -/
def rebase (env : SessionEnvironment Authority) (oldGround : Json)
    (skipped : Nat → PendingEntry Nonce → Bool) (replica : Replica Nonce) : Ingress Nonce :=
  let entries := replica.pending.mapIdx fun position entry => (entry, skipped position entry)
  let detached := { replica with pending := [] }
  match createStore replica.confirmed with
  | .error _ => .threw detached
  | .ok store =>
    let (rebuilt, conflicts) := rebaseLoop env (some oldGround) { detached with store } entries
    .done { rebuilt with conflicts := rebuilt.conflicts ++ conflicts }

variable {env : SessionEnvironment Authority} {replica : Replica Nonce}
    {skipped : Nat → PendingEntry Nonce → Bool}

variable {next : Replica Nonce} {oldGround : Json}

/-- What a rebase that ends has made of the marked queue. -/
theorem rebase_eq_done (rebased : replica.rebase env oldGround skipped = .done next) :
    ∃ store, createStore replica.confirmed = .ok store ∧
      next = { (rebaseLoop env (some oldGround) { replica with store, pending := [] }
        (replica.pending.mapIdx fun position entry => (entry, skipped position entry))).1 with
        conflicts := next.conflicts } := by
  unfold rebase at rebased
  cases created : createStore replica.confirmed with
  | error reason => simp [created] at rebased
  | ok store =>
    simp only [created, Ingress.done.injEq] at rebased
    exact ⟨store, rfl, by rw [← rebased]⟩

/-- A rebase throws with the queue emptied and everything else as it was. -/
theorem rebase_eq_threw (rebased : replica.rebase env oldGround skipped = .threw next) :
    next = { replica with pending := [] } ∧
      ∃ reason, createStore replica.confirmed = .error reason := by
  unfold rebase at rebased
  cases created : createStore replica.confirmed with
  | ok store => simp [created] at rebased
  | error reason =>
    simp only [created, Ingress.threw.injEq] at rebased
    exact ⟨rebased.symm, reason, rfl⟩

theorem grounded_rebase (rebased : replica.rebase env oldGround skipped = .done next ∨
      replica.rebase env oldGround skipped = .threw next) : Grounded replica next := by
  rcases rebased with done | threw
  · obtain ⟨store, _, made⟩ := rebase_eq_done done
    have looped := grounded_rebaseLoop env (some oldGround) { replica with store, pending := [] }
      (replica.pending.mapIdx fun position entry => (entry, skipped position entry))
    rw [made]
    exact ⟨looped.actorId, looped.nonce, looped.status, looped.confirmed,
      looped.confirmedRevision, looped.revisionOffset, looped.sent⟩
  · obtain ⟨rfl, _⟩ := rebase_eq_threw threw
    constructor <;> rfl

/-- The confirmed document advances to what a server operation made of it. -/
def advance (replica : Replica Nonce) (next : Json) (revision : Nat) : Replica Nonce :=
  { replica with confirmed := next, confirmedRevision := revision }

/-- Tell the operation listeners of a finished ingress. -/
def emitAfter (ingress : Ingress Nonce) (op : CollabServerOp Nonce) (origin : String) :
    Ingress Nonce :=
  match ingress with
  | .done replica => .done (replica.emitOp op origin)
  | other => other

/-- `ack`: the head intention is accepted.  With no later intention the store's
document is taken as the confirmed one. -/
def ack (env : SessionEnvironment Authority) (replica : Replica Nonce)
    (head : PendingEntry Nonce) (rest : List (PendingEntry Nonce)) (op : CollabServerOp Nonce) :
    Ingress Nonce :=
  match (if rest.isEmpty then .ok replica.doc else applyChecked env replica.confirmed op.patch) with
  | .error reason => .diverged s!"ack rejected: {reason}"
  | .ok next =>
    .done (({ replica.advance next op.revision with pending := rest }).emitOp op head.origin)

/-- `confirmPending`: an intention is confirmed under an earlier attempt. -/
def confirmPending (env : SessionEnvironment Authority) (replica : Replica Nonce)
    (position : Nat) (entry : PendingEntry Nonce) (op : CollabServerOp Nonce) : Ingress Nonce :=
  match applyChecked env replica.confirmed op.patch with
  | .error reason => .diverged s!"confirmed attempt rejected: {reason}"
  | .ok next =>
    emitAfter
      (((replica.advance next op.revision).removeRecord entry.record).rebase env
        replica.confirmed fun other _ => other = position)
      op entry.origin

def applyForeign (env : SessionEnvironment Authority) (replica : Replica Nonce)
    (op : CollabServerOp Nonce) : Ingress Nonce :=
  match applyChecked env replica.confirmed op.patch with
  | .error reason => .diverged s!"foreign op rejected: {reason}"
  | .ok next =>
    emitAfter ((replica.advance next op.revision).rebase env replica.confirmed fun _ _ => false)
      op "remote"

def attemptOf [DecidableEq Nonce] (entry : PendingEntry Nonce) (opId : OpId Nonce) :
    Option (SubmittedAttempt Nonce) :=
  entry.attempts.find? fun attempt => attempt.opId = opId

def claimant [DecidableEq Nonce] (opId : OpId Nonce) :
    List (PendingEntry Nonce) → Option (Nat × PendingEntry Nonce × SubmittedAttempt Nonce)
  | [] => none
  | entry :: rest =>
    match attemptOf entry opId with
    | some attempt => some (0, entry, attempt)
    | none => (claimant opId rest).map fun (position, found) => (position + 1, found)

/-- What the rebase for an operation skips: the intention that submitted it, if one
did.  None, if the operation is not what that intention sent. -/
def skippedFor [DecidableEq Nonce] (replica : Replica Nonce) (op : CollabServerOp Nonce) :
    Option (Nat → PendingEntry Nonce → Bool) :=
  match (if op.actorId = replica.actorId then claimant op.opId replica.pending else none) with
  | none => some fun _ _ => false
  | some (position, _, attempt) =>
    if op.baseRevision ≠ attempt.baseRevision ||
        !jsonSameValue op.patch (wirePatchJson attempt.patch) then none
    else some fun other _ => other = position

/-- `ingestOrdered`: the one path by which a server operation is confirmed. -/
def ingestOrdered [DecidableEq Nonce] (env : SessionEnvironment Authority)
    (replica : Replica Nonce) (op : CollabServerOp Nonce) : Ingress Nonce :=
  if op.revision ≠ replica.confirmedRevision + 1 then
    .diverged s!"ordered ingress: revision {op.revision} at confirmed {replica.confirmedRevision}"
  else if op.actorId ≠ replica.actorId then
    replica.applyForeign env op
  else
    match replica.pending with
    | [] => replica.applyForeign env op
    | head :: rest =>
      if head.opId = op.opId then
        if jsonSameValue op.patch (wirePatchJson head.predicted) then
          replica.ack env head rest op
        else
          .diverged "own op patch mismatch"
      else
        match claimant op.opId (head :: rest) with
        | some (position, entry, attempt) =>
          if op.baseRevision ≠ attempt.baseRevision ||
              !jsonSameValue op.patch (wirePatchJson attempt.patch) then
            .diverged "own op patch mismatch"
          else
            replica.confirmPending env position entry op
        | none => replica.applyForeign env op

/-- Whether an attempt may have been committed inside a snapshot. -/
def ambiguous (revision : Nat) (entry : PendingEntry Nonce) : Bool :=
  entry.attempts.any fun attempt => attempt.baseRevision < revision

/-- What is told of an intention that a snapshot may contain. -/
def deliveryAmbiguous (entry : PendingEntry Nonce) : SessionConflict :=
  ⟨entry.invocation,
    [commandError "session.delivery-ambiguous"
      "a resync checkpoint may already contain this submitted change; dropped rather than risk applying it twice"],
    .rebase⟩

/-- Adopt a loaded resync snapshot: history is dropped, and so is every intention
that the snapshot may contain. -/
def adoptSnapshot (env : SessionEnvironment Authority) (replica : Replica Nonce)
    (revision : Nat) (document : Json) : Ingress Nonce :=
  match ((replica.advance document revision).clearHistory).rebase env replica.confirmed
    fun _ entry => ambiguous revision entry with
  | .done rebuilt =>
    .done { rebuilt with
      conflicts := rebuilt.conflicts ++
        (replica.pending.filter (ambiguous revision)).map deliveryAmbiguous }
  | other => other

end Replica

end Dinkster.Collab
