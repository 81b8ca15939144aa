import Dinkster.Commands.SessionPatch
import Dinkster.Commands.ValueSource

/-!
# The replica of a shared session

A shared session holds the server-ordered document `confirmed` and the queue of
this actor's unacknowledged intentions.  The document a user sees is `confirmed`
with the intentions re-executed over it, kept in an inner store.  This module is
what a session does to these: local execution, history, ordered ingress of server
operations, and the rebase that rebuilds the optimistic document.

An op id is the text `actorId#nonce#counter`.  Neither an actor id nor a nonce
contains `#`, so the text and its parts determine each other.  The nonce of a
session is unique to it, and its type is a parameter.
-/

namespace Dinkster.Collab

open Library Format Commands

variable {Nonce Authority : Type}

/-- The id a session mints for a submission. -/
structure OpId (Nonce : Type) where
  actor : String
  nonce : Nonce
  counter : Nat
  deriving DecidableEq

/-- `CollabServerOp`: an operation in the order the server gave it. -/
structure CollabServerOp (Nonce : Type) where
  opId : OpId Nonce
  actorId : String
  baseRevision : Nat
  revision : Nat
  patch : Json
  deriving DecidableEq

instance [DecidableEq Nonce] : LawfulBEq (CollabServerOp Nonce) :=
  inferInstance

/-- `validateCollabServerOp`: the objection to an envelope, if any. -/
def validateCollabServerOp (op : CollabServerOp Nonce) : Option String :=
  if !isValidActorId op.actorId then
    some "op envelope: invalid actorId"
  else if !isValidCollabRevision op.baseRevision then
    some "op envelope: invalid baseRevision"
  else if !isValidCollabRevision op.revision || op.revision < 1 then
    some "op envelope: invalid revision"
  else if op.baseRevision ≠ op.revision - 1 then
    some "op envelope: revision must be baseRevision + 1"
  else
    (validateCollabWirePatchShape op.patch).map fun reason => s!"op envelope: {reason}"

/-- `SubmittedAttempt`: what one POST of an intention sent.  The model also keeps
what the intention replays. -/
structure SubmittedAttempt (Nonce : Type) where
  opId : OpId Nonce
  baseRevision : Nat
  patch : List WirePatchOp
  recorded : Option (List PatchOp)

/-- `PendingEntry`: an unacknowledged intention.  `record` refers to the session's
records.  Two fields are the model's own: `intention` is the op id the intention
was first queued under, which rebases that mint new op ids leave alone, and
`recorded` the operations of the history record that an undo or redo replays, as
they were when it was asked for. -/
structure PendingEntry (Nonce : Type) where
  opId : OpId Nonce
  invocation : CommandInvocation
  origin : String
  predicted : List WirePatchOp
  attempts : List (SubmittedAttempt Nonce)
  record : Option Nat
  intention : OpId Nonce
  recorded : Option (List PatchOp)

structure HistoryRecord where
  forward : List PatchOp
  inverse : List PatchOp

/-- Which way history is replayed. -/
inductive HistoryDirection where
  | undo
  | redo
  deriving DecidableEq

def HistoryDirection.text : HistoryDirection → String
  | .undo => "undo"
  | .redo => "redo"

/-- The origin of a replay's operation. -/
def HistoryDirection.origin (direction : HistoryDirection) : String :=
  s!"session.{direction.text}"

def HistoryRecord.replayed (record : HistoryRecord) : HistoryDirection → List PatchOp
  | .undo => record.inverse
  | .redo => record.forward

/-- `HistorySnapshot`: the history of a predecessor session, newest first. -/
structure HistorySnapshot where
  revision : Nat
  undo : List HistoryRecord
  redo : List HistoryRecord

inductive ConflictPhase where
  | rebase
  | replay (direction : HistoryDirection)

structure SessionConflict where
  invocation : CommandInvocation
  diagnostics : List Diagnostic
  during : ConflictPhase

/-! ## Sessions and their environment -/

inductive SharedSessionStatus where
  | live
  | catchingUp
  | closed
  | error
  deriving DecidableEq

def SharedSessionStatus.text : SharedSessionStatus → String
  | .live => "live"
  | .catchingUp => "catching-up"
  | .closed => "closed"
  | .error => "error"

def SharedSessionStatus.terminal : SharedSessionStatus → Bool
  | .closed | .error => true
  | .live | .catchingUp => false

/-- What a session is built with: the registry, the checker and the loader for
documents, and the authority of initial dispatches.  A loaded document lists each
property once. -/
structure SessionEnvironment (Authority : Type) where
  commands : String → Option (CommandDefinition Authority)
  checkDocument : Json → List Diagnostic
  loadDocument : Json → Option Json
  schemaResolverFor : Authority
  plain_of_loadDocument : ∀ {raw document}, loadDocument raw = some document → document.Plain

/-- The private registry of a session: the patch replay command is reserved. -/
def SessionEnvironment.registry (env : SessionEnvironment Authority) : Environment Authority where
  commands := fun id =>
    if id = sessionPatchId then some (sessionPatchCommand Authority) else env.commands id
  checkDocument := env.checkDocument

/-- A session registry of two built-in commands.  Documents without defects are
loaded as they are. -/
def builtinEnvironment : SessionEnvironment Unit where
  commands := fun id =>
    if id = "reroute.add" then some (rerouteAdd Unit)
    else if id = "valueSource.setValue" then some (valueSourceSetValue Unit)
    else none
  checkDocument := fun _ => []
  loadDocument := fun raw => (ownJson raw).toOption
  schemaResolverFor := ()
  plain_of_loadDocument := by
    intro raw document loaded
    cases owned : ownJson raw with
    | error reason => simp [owned, Except.toOption] at loaded
    | ok copy =>
      obtain rfl : copy = document := by simpa [owned, Except.toOption] using loaded
      exact (ownJson_clean owned).1

/-- The document state of a `SharedDocumentSession`.  The stacks hold references
into `records`, newest first.  `sent` lists what was POSTed, `minted` which
intention each op id was minted for, `conflicts` and `feed` what the conflict
callback and the operation listeners were told, all in order. -/
structure Replica (Nonce : Type) where
  actorId : String
  nonce : Nonce
  maxUndo : Nat
  status : SharedSessionStatus
  confirmed : Json
  confirmedRevision : Nat
  revisionOffset : Nat
  store : DocumentStore
  pending : List (PendingEntry Nonce)
  records : List HistoryRecord
  undoStack : List Nat
  redoStack : List Nat
  opCounter : Nat
  sent : List (SubmittedAttempt Nonce)
  minted : List (OpId Nonce × OpId Nonce)
  conflicts : List SessionConflict
  feed : List (CollabServerOp Nonce × String)

/-- `createStore`: an inner store without history of its own. -/
def createStore (doc : Json) : Except String DocumentStore :=
  DocumentStore.create doc 0

namespace Replica

/-- The constructor, over a loaded snapshot. -/
def create (actorId : String) (nonce : Nonce) (maxUndo : Nat) (snapshot : Json)
    (snapshotRevision : Nat) : Except String (Replica Nonce) := do
  let store ← createStore snapshot
  return {
    actorId, nonce, maxUndo, store
    status := .live
    confirmed := snapshot
    confirmedRevision := snapshotRevision
    revisionOffset := 0
    pending := []
    records := []
    undoStack := []
    redoStack := []
    opCounter := 0
    sent := []
    minted := []
    conflicts := []
    feed := [] }

/-- The `doc` getter. -/
def doc (replica : Replica Nonce) : Json :=
  replica.store.currentDoc

/-- The `revision` getter. -/
def revision (replica : Replica Nonce) : Nat :=
  replica.revisionOffset + replica.confirmedRevision + replica.pending.length

/-- `adoptHistory`; only a pristine session adopts.  The adopted records are put in
the order of their transactions. -/
def adoptHistory (replica : Replica Nonce) (history : HistorySnapshot) : Option (Replica Nonce) :=
  if replica.pending ≠ [] ∨ replica.undoStack ≠ [] ∨ replica.redoStack ≠ [] then
    none
  else
    let undoCount := min history.undo.length replica.maxUndo
    let redoCount := min history.redo.length replica.maxUndo
    let start := replica.records.length
    some { replica with
      revisionOffset := history.revision - replica.confirmedRevision
      records := replica.records ++ (history.undo.take undoCount).reverse ++
        history.redo.take redoCount
      undoStack := (List.range undoCount).reverse.map fun position => start + position
      redoStack := (List.range redoCount).map fun position => start + undoCount + position }

/-- `mintOpId`: the next op id. -/
def nextOpId (replica : Replica Nonce) : OpId Nonce :=
  ⟨replica.actorId, replica.nonce, replica.opCounter + 1⟩

/-- `{ ...invocation, actor: this.actorId }` as it crosses the ownership boundary. -/
def invocationJson (actorId : String) (invocation : CommandInvocation) : Json :=
  .obj [("command", .str invocation.command), ("params", invocation.params),
    ("actor", .str actorId)]

def stamp (actorId : String) (invocation : CommandInvocation) :
    Except String CommandInvocation := do
  let owned ← ownJson (invocationJson actorId invocation)
  return ⟨invocation.command, (ownChild owned (.key "params")).getD .null, some actorId⟩

def prepare (env : SessionEnvironment Authority) (doc : Json) (stamped : CommandInvocation) :
    Except (List Diagnostic) CommandInvocation :=
  match (env.registry.commands stamped.command).bind (·.prepareForSharedReplay) with
  | none => .ok stamped
  | some hook =>
    match hook doc stamped.params env.schemaResolverFor stamped.actor with
    | .error message => .error [commandError "command.threw" s!"{stamped.command}: {message}"]
    | .ok .unchanged => .ok stamped
    | .ok (.refused diagnostics) => .error diagnostics
    | .ok (.params params) =>
      match ownJson params with
      | .ok owned => .ok { stamped with params := owned }
      | .error reason =>
        .error [commandError "command.params.notJson"
          s!"{stamped.command}: prepared params are not JSON: {reason}"]

/-- Queue an intention the store has committed. -/
def enqueue (replica : Replica Nonce) (store : DocumentStore) (invocation : CommandInvocation)
    (replayed : Option (HistoryDirection × List PatchOp)) (forward : List PatchOp) :
    Replica Nonce :=
  let opId := replica.nextOpId
  { replica with
    store
    opCounter := replica.opCounter + 1
    pending := replica.pending ++ [{
      opId, invocation
      origin := (replayed.map fun replay => replay.1.origin).getD invocation.command
      predicted := toWirePatch forward
      attempts := []
      record := none
      intention := opId
      recorded := replayed.map Prod.snd }]
    minted := (opId, opId) :: replica.minted }

/-- `run`, up to the notification of the document's subscribers.  A replay of
history says which way and what it replays. -/
def run (env : SessionEnvironment Authority) (replica : Replica Nonce)
    (invocation : CommandInvocation) (replayed : Option (HistoryDirection × List PatchOp)) :
    CommandOutcome × Replica Nonce :=
  if replica.status.terminal then
    (.rejected [commandError "session.unavailable" s!"session is {replica.status.text}"], replica)
  else
    match stamp replica.actorId invocation with
    | .error reason =>
      (.rejected [commandError "command.params.notJson"
        s!"{invocation.command}: params are not JSON: {reason}"], replica)
    | .ok stamped =>
      match prepare env replica.doc stamped with
      | .error diagnostics => (.rejected diagnostics, replica)
      | .ok prepared =>
        match replica.store.dispatch env.registry (.initial env.schemaResolverFor)
          prepared with
        | (.rejected diagnostics, _, _) => (.rejected diagnostics, replica)
        | (.ok doc forward inverse diagnostics, store, _) =>
          (.ok doc forward inverse diagnostics,
            if forward.isEmpty then replica
            else replica.enqueue store prepared replayed forward)

/-- What `dispatch` says of the reserved command. -/
def reserved : CommandOutcome :=
  .rejected [commandError "command.reserved" s!"'{sessionPatchId}' is session-internal"]

/-- Tie a record to the newest pending entry; without one the caller throws. -/
def tie (replica : Replica Nonce) (record : Nat) : Option (Replica Nonce) :=
  match replica.pending.getLast? with
  | none => none
  | some entry =>
    some { replica with
      pending := replica.pending.dropLast ++ [{ entry with record := some record }] }

/-- What `dispatch` does once `run` has returned. -/
def finishDispatch (replica : Replica Nonce) (forward inverse : List PatchOp) : Replica Nonce :=
  let record := replica.records.length
  match replica.tie record with
  | none => replica
  | some tied =>
    { tied with
      records := tied.records ++ [⟨forward, inverse⟩]
      undoStack := DocumentStore.pushBounded tied.maxUndo record tied.undoStack
      redoStack := [] }

def stack (replica : Replica Nonce) : HistoryDirection → List Nat
  | .undo => replica.undoStack
  | .redo => replica.redoStack

def setStack (replica : Replica Nonce) (direction : HistoryDirection) (stack : List Nat) :
    Replica Nonce :=
  match direction with
  | .undo => { replica with undoStack := stack }
  | .redo => { replica with redoStack := stack }

def pushOpposite (replica : Replica Nonce) (direction : HistoryDirection) (record : Nat) :
    Replica Nonce :=
  match direction with
  | .undo => { replica with redoStack := record :: replica.redoStack }
  | .redo => { replica with undoStack := record :: replica.undoStack }

def notifyConflict (replica : Replica Nonce) (conflict : SessionConflict) : Replica Nonce :=
  { replica with conflicts := replica.conflicts ++ [conflict] }

def refuseReplay (replica : Replica Nonce) (direction : HistoryDirection)
    (params : Json) (diagnostics : List Diagnostic) : Replica Nonce :=
  replica.notifyConflict
    ⟨⟨sessionPatchId, params, some replica.actorId⟩, diagnostics, .replay direction⟩

/-- `replayHistory`, up to the return of its `run`: a committed replay leaves the
record that is still to be tied and pushed. -/
def beginReplay (env : SessionEnvironment Authority) (replica : Replica Nonce)
    (direction : HistoryDirection) : Replica Nonce × Option Nat :=
  match replica.stack direction with
  | [] => (replica, none)
  | reference :: rest =>
    let popped := replica.setStack direction rest
    match replica.records[reference]? with
    | none => (popped, none)
    | some record =>
      match replayHistoryOps replica.doc (record.replayed direction) true with
      | .error message =>
        (popped.refuseReplay direction .null [commandError "session.history.stale"
          s!"{direction.text} no longer applies: {message}"], none)
      | .ok ⟨_, _, some stale⟩ =>
        let place := pathText stale.path
        (popped.refuseReplay direction .null [commandError "session.history.stale"
          s!"{direction.text} conflicts with a concurrent edit at {place}"], none)
      | .ok ⟨_, applied, none⟩ =>
        if applied = [] then
          (popped.pushOpposite direction reference, none)
        else
          let params := sessionPatchParams (toWirePatch applied)
          match popped.run env ⟨sessionPatchId, params, some replica.actorId⟩
              (some (direction, record.replayed direction)) with
          | (.rejected diagnostics, next) =>
            (next.refuseReplay direction params diagnostics, none)
          | (.ok _ forward _ _, next) =>
            if forward.isEmpty then (next.pushOpposite direction reference, none)
            else (next, some reference)

/-- What `replayHistory` does once its `run` has returned. -/
def finishReplay (replica : Replica Nonce) (direction : HistoryDirection) (record : Nat) :
    Replica Nonce :=
  match replica.tie record with
  | none => replica
  | some tied => tied.pushOpposite direction record

def clearHistory (replica : Replica Nonce) : Replica Nonce :=
  { replica with undoStack := [], redoStack := [] }

def removeRecord (replica : Replica Nonce) (record : Option Nat) : Replica Nonce :=
  match record with
  | none => replica
  | some reference =>
    { replica with
      undoStack := replica.undoStack.erase reference
      redoStack := replica.redoStack.erase reference }

variable {invocation stamped prepared : CommandInvocation} {env : SessionEnvironment Authority}

variable {actorId : String} {doc : Json} {replica : Replica Nonce}

theorem actor_of_stamp (stamps : stamp actorId invocation = .ok stamped) :
    stamped.actor = some actorId := by
  simp only [stamp, bind_eq_ok, pure_eq_ok] at stamps
  obtain ⟨_, _, rfl⟩ := stamps
  rfl

/-- Preparation changes the params only. -/
theorem prepare_eq_ok (prepares : prepare env doc stamped = .ok prepared) :
    prepared.command = stamped.command ∧ prepared.actor = stamped.actor := by
  unfold prepare at prepares
  split at prepares
  · cases prepares
    exact ⟨rfl, rfl⟩
  · split at prepares
    · simp at prepares
    · cases prepares
      exact ⟨rfl, rfl⟩
    · simp at prepares
    · split at prepares
      · cases prepares
        exact ⟨rfl, rfl⟩
      · simp at prepares

theorem command_of_stamp (stamps : stamp actorId invocation = .ok stamped) :
    stamped.command = invocation.command := by
  simp only [stamp, bind_eq_ok, pure_eq_ok] at stamps
  obtain ⟨_, _, rfl⟩ := stamps
  rfl

theorem command_of_prepare (stamps : stamp actorId invocation = .ok stamped)
    (prepares : prepare env doc stamped = .ok prepared) : prepared.command = invocation.command :=
  (prepare_eq_ok prepares).1.trans (command_of_stamp stamps)

theorem prepare_sessionPatch (patch : stamped.command = sessionPatchId)
    (prepares : prepare env doc stamped = .ok prepared) : prepared = stamped := by
  simp only [prepare, SessionEnvironment.registry, patch, if_true, sessionPatchCommand,
    Option.bind_some, Except.ok.injEq] at prepares
  exact prepares.symm

theorem run_cases (env : SessionEnvironment Authority) (replica : Replica Nonce)
    (invocation : CommandInvocation) (replayed : Option (HistoryDirection × List PatchOp)) :
    ((replica.run env invocation replayed).2 = replica ∧ ∀ doc forward inverse diagnostics,
          (replica.run env invocation replayed).1 = .ok doc forward inverse diagnostics →
            forward = []) ∨ ∃ stamped prepared doc forward inverse diagnostics,
        stamp replica.actorId invocation = .ok stamped ∧
        prepare env replica.doc stamped = .ok prepared ∧
        DocumentStore.execute env.registry (.initial env.schemaResolverFor) replica.doc prepared =
          .ok doc forward inverse diagnostics ∧ forward ≠ [] ∧
        replica.run env invocation replayed = (.ok doc forward inverse diagnostics,
          replica.enqueue (replica.store.commitDispatch prepared doc forward inverse).1 prepared
            replayed forward) := by
  unfold run
  split
  · exact .inl ⟨rfl, by simp⟩
  split
  · exact .inl ⟨rfl, by simp⟩
  rename_i stamped stamps
  split
  · exact .inl ⟨rfl, by simp⟩
  rename_i prepared prepares
  rcases DocumentStore.dispatch_cases env.registry (.initial env.schemaResolverFor) replica.store
    prepared with ⟨outcome, _, unchanged, empty⟩ | ⟨doc, forward, inverse, diagnostics, executed,
      changed, dispatched⟩
  · rw [unchanged]
    cases outcome with
    | rejected diagnostics => exact .inl ⟨rfl, by simp⟩
    | ok doc forward inverse diagnostics =>
      obtain rfl := empty _ _ _ _ rfl
      refine .inl ⟨by simp, ?_⟩
      intro doc' forward' inverse' diagnostics' equal
      exact (CommandOutcome.ok.inj equal).2.1.symm
  · rw [dispatched]
    refine .inr ⟨stamped, prepared, doc, forward, inverse, diagnostics, stamps, prepares, executed,
      changed, ?_⟩
    have nonempty : ¬ forward.isEmpty = true := by simpa using changed
    simp only [if_neg nonempty]

theorem run_eq_ok {next : Replica Nonce} {replayed : Option (HistoryDirection × List PatchOp)}
    {forward inverse : List PatchOp} {diagnostics : List Diagnostic}
    (committed : replica.run env invocation replayed = (.ok doc forward inverse diagnostics, next))
    (changed : forward ≠ []) : ∃ stamped prepared, stamp replica.actorId invocation = .ok stamped ∧
      prepare env replica.doc stamped = .ok prepared ∧
      DocumentStore.execute env.registry (.initial env.schemaResolverFor) replica.doc prepared =
        .ok doc forward inverse diagnostics ∧
      next = replica.enqueue (replica.store.commitDispatch prepared doc forward inverse).1 prepared
        replayed forward := by
  rcases run_cases env replica invocation replayed with ⟨_, empty⟩ | ⟨stamped, prepared, doc',
    forward', inverse', diagnostics', stamps, prepares, executed, _, ran⟩
  · rw [committed] at empty
    exact absurd (empty doc forward inverse diagnostics rfl) changed
  · rw [committed] at ran
    obtain ⟨outcomes, reached⟩ := Prod.mk.inj ran
    cases outcomes
    exact ⟨stamped, prepared, stamps, prepares, executed, reached⟩

/-- What asking for a replay comes to, with the record that is still to be tied: there is
nothing to replay, the record is dropped as a conflict, all of it was clamped away, or the
patch that replays it is queued. -/
inductive Begins (env : SessionEnvironment Authority) (replica : Replica Nonce)
    (direction : HistoryDirection) : Replica Nonce → Option Nat → Prop where
  | nothing (empty : replica.stack direction = []) : Begins env replica direction replica none
  | dropped {reference : Nat} {rest : List Nat} (stacked : replica.stack direction = reference :: rest)
      (conflicts : List SessionConflict) :
      Begins env replica direction { replica.setStack direction rest with conflicts } none
  | clamped {reference : Nat} {rest : List Nat}
      (stacked : replica.stack direction = reference :: rest) :
      Begins env replica direction
        ((replica.setStack direction rest).pushOpposite direction reference) none
  | queued {reference : Nat} {rest : List Nat} {record : HistoryRecord} {result : Json}
      {applied : List PatchOp} {stamped : CommandInvocation} {doc : Json}
      {forward inverse : List PatchOp} {diagnostics : List Diagnostic}
      (stacked : replica.stack direction = reference :: rest)
      (found : replica.records[reference]? = some record)
      (replayed : replayHistoryOps replica.doc (record.replayed direction) true =
        .ok ⟨result, applied, none⟩)
      (stamps : stamp replica.actorId
        ⟨sessionPatchId, sessionPatchParams (toWirePatch applied), some replica.actorId⟩ =
          .ok stamped)
      (executed : DocumentStore.execute env.registry (.initial env.schemaResolverFor) replica.doc
        stamped = .ok doc forward inverse diagnostics)
      (changed : forward ≠ []) :
      Begins env replica direction
        ((replica.setStack direction rest).enqueue
          ((replica.setStack direction rest).store.commitDispatch stamped doc forward inverse).1
          stamped (some (direction, record.replayed direction)) forward)
        (some reference)

theorem begins_beginReplay (env : SessionEnvironment Authority) (replica : Replica Nonce)
    (direction : HistoryDirection) :
    Begins env replica direction (replica.beginReplay env direction).1
      (replica.beginReplay env direction).2 := by
  unfold beginReplay
  split
  · rename_i empty
    exact .nothing empty
  rename_i reference rest stacked
  dsimp only
  split
  · exact .dropped stacked (replica.setStack direction rest).conflicts
  rename_i record found
  split
  · exact .dropped stacked _
  · exact .dropped stacked _
  rename_i result applied replayed
  split
  · exact .clamped stacked
  rcases run_cases env (replica.setStack direction rest)
    ⟨sessionPatchId, sessionPatchParams (toWirePatch applied), some replica.actorId⟩
    (some (direction, record.replayed direction)) with ⟨unchanged, empty⟩ | ⟨stamped, prepared,
    doc, forward, inverse, diagnostics, stamps, prepares, executed, changed, ran⟩
  · split
    · rename_i diagnostics next ran
      obtain rfl : next = replica.setStack direction rest := by rw [← unchanged, ran]
      exact .dropped stacked _
    · rename_i doc forward inverse diagnostics next ran
      obtain rfl : next = replica.setStack direction rest := by rw [← unchanged, ran]
      obtain rfl := empty doc forward inverse diagnostics (by rw [ran])
      exact .clamped stacked
  · rw [ran]
    dsimp only
    rw [if_neg (by simpa using changed)]
    have sameActor : (replica.setStack direction rest).actorId = replica.actorId := by
      cases direction <;> rfl
    have sameDoc : (replica.setStack direction rest).doc = replica.doc := by
      cases direction <;> rfl
    rw [sameActor] at stamps
    rw [sameDoc] at executed
    obtain rfl := prepare_sessionPatch (command_of_stamp stamps) prepares
    exact .queued stacked found replayed stamps executed changed

/-- The confirmed document, the submissions and the identity of a session stay. -/
structure Grounded (replica next : Replica Nonce) : Prop where
  actorId : next.actorId = replica.actorId
  nonce : next.nonce = replica.nonce
  status : next.status = replica.status
  confirmed : next.confirmed = replica.confirmed
  confirmedRevision : next.confirmedRevision = replica.confirmedRevision
  revisionOffset : next.revisionOffset = replica.revisionOffset
  sent : next.sent = replica.sent

theorem Grounded.trans {first second third : Replica Nonce} (before : Grounded first second)
    (after : Grounded second third) : Grounded first third where
  actorId := after.actorId.trans before.actorId
  nonce := after.nonce.trans before.nonce
  status := after.status.trans before.status
  confirmed := after.confirmed.trans before.confirmed
  confirmedRevision := after.confirmedRevision.trans before.confirmedRevision
  revisionOffset := after.revisionOffset.trans before.revisionOffset
  sent := after.sent.trans before.sent

theorem grounded_removeRecord (replica : Replica Nonce) (record : Option Nat) :
    Grounded replica (replica.removeRecord record) := by
  cases record <;> constructor <;> rfl

theorem grounded_run (env : SessionEnvironment Authority) (replica : Replica Nonce)
    (invocation : CommandInvocation) (replayed : Option (HistoryDirection × List PatchOp)) :
    Grounded replica (replica.run env invocation replayed).2 := by
  rcases run_cases env replica invocation replayed with ⟨unchanged, _⟩ | ⟨_, _, _, _, _, _, _, _, _, _,
    ran⟩
  · rw [unchanged]
    constructor <;> rfl
  · rw [ran]
    constructor <;> rfl

theorem grounded_setStack (replica : Replica Nonce) (direction : HistoryDirection)
    (stack : List Nat) : Grounded replica (replica.setStack direction stack) := by
  cases direction <;> constructor <;> rfl

theorem grounded_pushOpposite (replica : Replica Nonce) (direction : HistoryDirection)
    (record : Nat) : Grounded replica (replica.pushOpposite direction record) := by
  cases direction <;> constructor <;> rfl

theorem grounded_beginReplay (env : SessionEnvironment Authority) (replica : Replica Nonce)
    (direction : HistoryDirection) : Grounded replica (replica.beginReplay env direction).1 := by
  have begins := begins_beginReplay env replica direction
  generalize (replica.beginReplay env direction).1 = next,
    (replica.beginReplay env direction).2 = tied at begins ⊢
  cases begins with
  | nothing _ => constructor <;> rfl
  | @dropped reference rest _ conflicts =>
    exact (grounded_setStack replica direction rest).trans (by constructor <;> rfl)
  | @clamped reference rest _ =>
    exact (grounded_setStack replica direction rest).trans (grounded_pushOpposite _ direction _)
  | queued _ _ _ _ _ _ =>
    exact (grounded_setStack replica direction _).trans (by constructor <;> rfl)

theorem grounded_tie {tied : Replica Nonce} {record : Nat}
    (found : replica.tie record = some tied) : Grounded replica tied := by
  unfold tie at found
  split at found
  · simp at found
  · cases found
    constructor <;> rfl

theorem grounded_finishDispatch (replica : Replica Nonce) (forward inverse : List PatchOp) :
    Grounded replica (replica.finishDispatch forward inverse) := by
  unfold finishDispatch
  dsimp only
  split
  · constructor <;> rfl
  · rename_i tied found
    exact (grounded_tie found).trans (by constructor <;> rfl)

theorem grounded_finishReplay (replica : Replica Nonce) (direction : HistoryDirection)
    (record : Nat) : Grounded replica (replica.finishReplay direction record) := by
  unfold finishReplay
  split
  · constructor <;> rfl
  · rename_i tied found
    exact (grounded_tie found).trans (grounded_pushOpposite _ direction record)

end Replica

end Dinkster.Collab
