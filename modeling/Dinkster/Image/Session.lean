import Dinkster.Image.Document
import Dinkster.Collab.Session

/-!
# The shared session of an image document

The session holds the document the server confirmed and the queue of this actor's
intentions, and shows the document they lead to.  A server operation moves the confirmed
document, and the queue is planned anew over it.

Observers are called in the middle of this: subscribers of the document, operation listeners,
and the conflict callback, which a rebase calls for every intention it drops.  An observer may
dispatch, undo or redo.  What is left to do once an observer returns is a `Frame`; the frames
are a stack, and `returned` resumes the innermost.  Nothing else happens while one is left.

The publication of snapshots, presence and retained resources read the session only and are
left out.
-/

namespace Dinkster.Image

open Library Format Commands
open Collab (OpId CollabServerOp validateCollabServerOp SharedSessionStatus HistoryDirection
  PostOpOutcome FetchOpsOutcome)

variable {Nonce : Type}

structure HistoryRecord where
  forward : OwnedOps
  inverse : OwnedOps

def HistoryRecord.replayed (record : HistoryRecord) : HistoryDirection → OwnedOps
  | .undo => record.inverse
  | .redo => record.forward

structure Attempt (Nonce : Type) where
  opId : OpId Nonce
  baseRevision : Nat
  patch : OwnedPatch

inductive PendingIntention where
  | command (invocation : Json)
  | patch (operations : OwnedOps)

/-- `PendingEntry`.  `serial` is the identity of the entry, `record` refers to the records of
the session. -/
structure PendingEntry (Nonce : Type) where
  serial : Nat
  opId : OpId Nonce
  intention : PendingIntention
  origin : String
  predicted : OwnedPatch
  attempts : List (Attempt Nonce)
  record : Option Nat

/-- Whether an entry submitted an operation, payload included. -/
def PendingEntry.claims [DecidableEq Nonce] (entry : PendingEntry Nonce)
    (op : CollabServerOp Nonce) : Bool :=
  entry.attempts.any fun attempt =>
    attempt.opId = op.opId && attempt.baseRevision = op.baseRevision &&
      jsonSameValue (wirePatchJson attempt.patch.val) op.patch

/-! ## Sessions -/

/-- Where the pump stands.  A pump that is not `idle` holds `pumpPromise`; `recorded` tells
whether the attempt was added to its entry. -/
inductive PumpPhase (Nonce : Type) where
  | idle
  | turning
  | posting (serial : Nat) (attempt : Attempt Nonce) (recorded : Bool)
  | delaying
  | exiting

/-- Where the sync loop stands. -/
inductive SyncPhase (Nonce : Type) where
  | none
  | turning
  | fetchingSnapshot
  | fetchingOps
  | ingesting (rest : List (CollabServerOp Nonce)) (progressed : Bool)
  | backingOff
  | exiting

/-- What follows a rebase: an operation that was ingested is told to the listeners, and the
pump starts unless the sync loop ingested it. -/
inductive Sequel (Nonce : Type) where
  | adopted
  | ingested (op : CollabServerOp Nonce) (origin : String) (pumps : Bool)

/-- What is left to do once observers return. -/
inductive Frame (Nonce : Type) where
  | finished
  | pumping
  | emitting (op : CollabServerOp Nonce) (origin : String) (pumps : Bool)
  | rebasing (rest survivors : List (PendingEntry Nonce)) (cursor : Json)
      (sequel : Sequel Nonce)
  | resyncing
  | dropping (rest : List (PendingEntry Nonce)) (ambiguous : List Nat) (revision : Nat)
      (document : Json)

/-- `SharedImageDocumentSession`.  The stacks hold references into `records`, newest first.
`sent` lists what was POSTed. -/
structure ImageSession (Nonce : Type) where
  actorId : String
  nonce : Nonce
  maxUndo : Nat
  status : SharedSessionStatus
  confirmed : Json
  confirmedRevision : Nat
  optimistic : Json
  pending : List (PendingEntry Nonce)
  records : List HistoryRecord
  undoStack : List Nat
  redoStack : List Nat
  opCounter : Nat
  pump : PumpPhase Nonce
  syncing : Bool
  syncTarget : Nat
  resyncRequested : Bool
  sync : SyncPhase Nonce
  frames : List (Frame Nonce)
  sent : List (Attempt Nonce)

/-- What a session reacts to. -/
inductive ImageAction (Nonce : Type) where
  | dispatch (invocation : List (String × Json))
  | replay (direction : HistoryDirection)
  | clearHistory
  | close
  | returned
  | opEvent (op : CollabServerOp Nonce)
  | connected (revision : Nat)
  | descriptorInvalid
  | pumpTurn
  | posted (outcome : PostOpOutcome Nonce)
  | pumpExit
  | syncTurn
  | snapshotFetched (revision : Nat) (document : Json)
  | opsFetched (outcome : FetchOpsOutcome Nonce)
  | ingestNext
  | syncThrew
  | syncExit

namespace ImageSession

def create (actorId : String) (nonce : Nonce) (maxUndo : Nat) (snapshot : Json)
    (snapshotRevision : Nat) : ImageSession Nonce where
  actorId := actorId
  nonce := nonce
  maxUndo := maxUndo
  status := .live
  confirmed := snapshot
  confirmedRevision := snapshotRevision
  optimistic := snapshot
  pending := []
  records := []
  undoStack := []
  redoStack := []
  opCounter := 0
  pump := .idle
  syncing := false
  syncTarget := 0
  resyncRequested := false
  sync := .none
  frames := []
  sent := []

variable (session : ImageSession Nonce)

/-- Call observers; what is left to do is resumed when they return. -/
def notify (frame : Frame Nonce) : ImageSession Nonce :=
  { session with frames := frame :: session.frames }

def mintedId : OpId Nonce :=
  ⟨session.actorId, session.nonce, session.opCounter + 1⟩

/-- `fail`: a final status stays. -/
def fail : ImageSession Nonce :=
  if session.status.terminal then session else { session with status := .error }

/-- `pump`: start the pump unless it is running or may not. -/
def startPump : ImageSession Nonce :=
  match session.pump with
  | .idle =>
    if session.syncing || session.status ≠ .live then session
    else { session with pump := .turning }
  | _ => session

def startSync : ImageSession Nonce :=
  if session.syncing || session.status.terminal then session
  else { session with syncing := true, status := .catchingUp, sync := .turning }

def requestCatchUp (target : Nat) : ImageSession Nonce :=
  { session with syncTarget := max session.syncTarget target }.startSync

/-- `requestResync`: the conflict callback is told first. -/
def requestResync : ImageSession Nonce :=
  session.notify .resyncing

def removeHistory (record : Option Nat) : ImageSession Nonce :=
  match record with
  | none => session
  | some reference =>
    { session with
      undoStack := session.undoStack.erase reference
      redoStack := session.redoStack.erase reference }

def clearHistory : ImageSession Nonce :=
  { session with undoStack := [], redoStack := [] }

def commandName : Json → String
  | .obj fields =>
    match getField fields "command" with
    | some (.str name) => name
    | _ => ""
  | _ => ""

/-- `enqueue`, up to the notification. -/
def enqueue (intention : PendingIntention) (predicted : OwnedPatch)
    (origin : String) (record : Nat) : ImageSession Nonce :=
  let entry : PendingEntry Nonce :=
    { serial := session.opCounter + 1
      opId := session.mintedId
      intention := intention
      origin := origin
      predicted := predicted
      attempts := []
      record := some record }
  notify { session with
    opCounter := session.opCounter + 1
    pending := session.pending ++ [entry] } .pumping

variable (env : ImageEnvironment)

/-- `dispatch`, up to the notification. -/
def dispatch (session : ImageSession Nonce)
    (invocation : List (String × Json)) : ImageSession Nonce :=
  if session.status.terminal then session
  else
    match planImageDocumentCommand env session.optimistic
        (.obj (setField invocation "actor" (.str session.actorId))) with
    | none => session
    | some plan =>
      enqueue { session with
        optimistic := plan.document
        records := session.records ++ [⟨plan.redo, plan.inverse⟩]
        undoStack := DocumentStore.pushBounded session.maxUndo session.records.length
          session.undoStack
        redoStack := [] }
        (.command plan.invocation) plan.forward.wire (commandName plan.invocation)
        session.records.length

def stack : HistoryDirection → List Nat
  | .undo => session.undoStack
  | .redo => session.redoStack

def setStack (direction : HistoryDirection) (stack : List Nat) : ImageSession Nonce :=
  match direction with
  | .undo => { session with undoStack := stack }
  | .redo => { session with redoStack := stack }

def pushOpposite (direction : HistoryDirection) (record : Nat) : ImageSession Nonce :=
  match direction with
  | .undo => { session with redoStack := record :: session.redoStack }
  | .redo => { session with undoStack := record :: session.undoStack }

/-- `undo` and `redo`, up to the notification. -/
def replayHistory (session : ImageSession Nonce)
    (direction : HistoryDirection) : ImageSession Nonce :=
  match session.stack direction with
  | [] => session
  | reference :: rest =>
    match session.records[reference]? with
    | none => session.setStack direction rest
    | some record =>
      match replayImageHistory env session.optimistic (record.replayed direction) with
      | none => (session.setStack direction rest).notify .finished
      | some next =>
        let popped := session.setStack direction rest
        let replayed : ImageSession Nonce := { popped with optimistic := next }
        (replayed.pushOpposite direction reference).enqueue
          (.patch (record.replayed direction)) (record.replayed direction).wire
          s!"image.{direction.text}" reference

def replan (cursor : Json) : PendingIntention → Option (Json × OwnedPatch × Option HistoryRecord)
  | .command invocation => (planImageDocumentCommand env cursor invocation).map fun plan =>
    (plan.document, plan.forward.wire, some ⟨plan.redo, plan.inverse⟩)
  | .patch operations => (replayImageHistory env cursor operations).map fun next =>
    (next, operations.wire, none)

/-- A planned entry, with a new op id and the attempts that may still be accepted. -/
def replanned (entry : PendingEntry Nonce) (patch : OwnedPatch) : PendingEntry Nonce :=
  { entry with
    opId := session.mintedId
    predicted := patch
    attempts := entry.attempts.filter (session.confirmedRevision ≤ ·.baseRevision) }

def rewrite (entry : PendingEntry Nonce) (record : Option HistoryRecord) : ImageSession Nonce :=
  { session with
    opCounter := session.opCounter + 1
    records :=
      match entry.record, record with
      | some reference, some record => session.records.set reference record
      | _, _ => session.records }

/-- What the observers of a rebased document leave to do. -/
def Sequel.frame : Sequel Nonce → Frame Nonce
  | .adopted => .finished
  | .ingested op origin pumps => .emitting op origin pumps

/-- The loop of `rebase`, up to the next notification: the conflict callback is told of every
entry that is dropped while the queue is detached. -/
def rebaseFrom (env : ImageEnvironment) :
    ImageSession Nonce → List (PendingEntry Nonce) → List (PendingEntry Nonce) → Json →
      Sequel Nonce → ImageSession Nonce
  | session, [], survivors, cursor, sequel =>
    notify { session with pending := session.pending ++ survivors, optimistic := cursor }
      (Sequel.frame sequel)
  | session, entry :: rest, survivors, cursor, sequel =>
    match replan env cursor entry.intention with
    | some (next, patch, record) =>
      rebaseFrom env (session.rewrite entry record) rest
        (survivors ++ [session.replanned entry patch]) next sequel
    | none =>
      (session.removeHistory entry.record).notify (.rebasing rest survivors cursor sequel)

def rebase (session : ImageSession Nonce) (sequel : Sequel Nonce) : ImageSession Nonce :=
  rebaseFrom env { session with pending := [] } session.pending [] session.confirmed sequel

section Ingress

variable [DecidableEq Nonce]

variable (env : ImageEnvironment)

/-- `ingestOrdered`; an exception is raised with the session it leaves behind. -/
def ingestOrdered (session : ImageSession Nonce) (op : CollabServerOp Nonce) (pumps : Bool) :
    Except (ImageSession Nonce) (ImageSession Nonce) :=
  if op.revision ≠ session.confirmedRevision + 1 then .error session
  else
    match applyWire env session.confirmed op.patch with
    | none => .error session
    | some next =>
      let advanced :=
        { session with confirmed := next, confirmedRevision := op.revision }
      match session.pending.findIdx? (·.claims op), session.pending.find? (·.claims op) with
      | some index, some entry =>
        let confirmed := { advanced with pending := session.pending.eraseIdx index }
        .ok ((if index = 0 then confirmed else confirmed.removeHistory entry.record).rebase env
          (.ingested op entry.origin pumps))
      | _, _ =>
        if op.actorId = session.actorId &&
            session.pending.any (·.attempts.any (·.opId = op.opId)) then .error advanced
        else .ok (advanced.rebase env (.ingested op "remote" pumps))

def handleServerOp (session : ImageSession Nonce)
    (op : CollabServerOp Nonce) : ImageSession Nonce :=
  if op.revision ≤ session.confirmedRevision then session
  else if op.revision > session.confirmedRevision + 1 then session.requestCatchUp op.revision
  else
    match session.ingestOrdered env op true with
    | .ok next => next
    | .error left => left.requestResync

/-- An `op` event of the transport. -/
def handleOpEvent (session : ImageSession Nonce) (op : CollabServerOp Nonce) : ImageSession Nonce :=
  if session.status.terminal then session
  else
    match validateCollabServerOp op with
    | some _ => session.requestResync
    | none => session.handleServerOp env op

variable (session : ImageSession Nonce)

/-- A `connected` event with a valid descriptor. -/
def handleConnected (revision : Nat) : ImageSession Nonce :=
  if session.status.terminal then session
  else if revision > session.confirmedRevision then session.requestCatchUp revision
  else session

/-- Whether the pump has work and may do it. -/
def canSubmit : Bool :=
  !session.pending.isEmpty && !session.syncing && session.status = .live

/-- The head of the pump loop: the attempt is added to its entry unless one with its op id is
there, and POSTed. -/
def pumpTurn : ImageSession Nonce :=
  match session.pending with
  | [] => { session with pump := .exiting }
  | head :: rest =>
    if session.canSubmit then
      let attempt : Attempt Nonce := ⟨head.opId, session.confirmedRevision, head.predicted⟩
      if head.attempts.any (·.opId = attempt.opId) then
        { session with
          pump := .posting head.serial attempt false
          sent := session.sent ++ [attempt] }
      else
        { session with
          pending := { head with attempts := head.attempts ++ [attempt] } :: rest
          pump := .posting head.serial attempt true
          sent := session.sent ++ [attempt] }
    else { session with pump := .exiting }

/-- Whether an accepted operation is exactly the submitted one. -/
def isSubmitted (attempt : Attempt Nonce) (op : CollabServerOp Nonce) : Bool :=
  op.actorId = session.actorId && op.opId = attempt.opId &&
    op.baseRevision = attempt.baseRevision &&
    jsonSameValue op.patch (wirePatchJson attempt.patch.val)

/-- Take an attempt back from its entry. -/
def withdraw (serial : Nat) (attempt : Attempt Nonce) : ImageSession Nonce :=
  { session with
    pending := session.pending.map fun entry =>
      if entry.serial = serial then
        { entry with attempts := entry.attempts.filter (·.opId ≠ attempt.opId) }
      else entry }

def handlePosted (session : ImageSession Nonce) (serial : Nat)
    (attempt : Attempt Nonce) (recorded : Bool) : PostOpOutcome Nonce → ImageSession Nonce
  | outcome =>
    if session.status ≠ .live then { session with pump := .exiting }
    else
      match outcome with
      | .accepted op =>
        if (validateCollabServerOp op).isSome || !session.isSubmitted attempt op then
          { session with pump := .exiting }.requestResync
        else { session with pump := .turning }.handleServerOp env op
      | .staleBase revision =>
        { (if recorded then session.withdraw serial attempt else session) with
          pump := .exiting }.requestCatchUp revision
      | .protocolUnsupported => { session with pump := .exiting }.fail
      | .snapshotRequired | .denied | .error => { session with pump := .delaying }

def pumpExit : ImageSession Nonce :=
  let idle := { session with pump := .idle }
  if idle.canSubmit then idle.startPump else idle

/-- The head of the sync loop. -/
def syncTurn : ImageSession Nonce :=
  if session.status ≠ .catchingUp then { session with sync := .exiting }
  else if session.resyncRequested then
    { session with resyncRequested := false, sync := .fetchingSnapshot }
  else if session.syncTarget ≤ session.confirmedRevision then { session with sync := .exiting }
  else { session with sync := .fetchingOps }

/-- Adopt a checkpoint, without the entries that it may contain. -/
def adopt (session : ImageSession Nonce) (ambiguous : List Nat)
    (revision : Nat) (document : Json) : ImageSession Nonce :=
  rebase env { session with
    confirmed := document
    confirmedRevision := revision
    pending := session.pending.filter fun entry => entry.serial ∉ ambiguous
    undoStack := []
    redoStack := [] } .adopted

/-- The loop over the entries that a checkpoint may contain, up to the next notification. -/
def dropFrom (session : ImageSession Nonce) (ambiguous : List Nat)
    (revision : Nat) (document : Json) : List (PendingEntry Nonce) → ImageSession Nonce
  | [] => session.adopt env ambiguous revision document
  | entry :: rest =>
    (session.removeHistory entry.record).notify (.dropping rest ambiguous revision document)

/-- The answer to a snapshot fetch. -/
def handleSnapshot (session : ImageSession Nonce) (revision : Nat)
    (document : Json) : ImageSession Nonce :=
  if !isValidCollabRevision revision then { session with sync := .exiting }.fail
  else
    match env.load document with
    | none => { session with sync := .exiting }.fail
    | some loaded =>
      let ambiguous := session.pending.filter fun entry =>
        entry.attempts.any (·.baseRevision < revision)
      dropFrom env { session with
        syncTarget := max session.syncTarget (max session.confirmedRevision revision)
        sync := .turning } (ambiguous.map (·.serial)) revision loaded ambiguous

/-- The answer to an operation fetch. -/
def handleOps (outcome : FetchOpsOutcome Nonce) : ImageSession Nonce :=
  match outcome with
  | .resyncRequired => { session with resyncRequested := true, sync := .turning }
  | .ops ops => { session with sync := .ingesting ops false }

/-- One operation of a page, or what follows its last. -/
def ingestPage (session : ImageSession Nonce)
    (page : List (CollabServerOp Nonce)) (progressed : Bool) : ImageSession Nonce :=
  match page with
  | [] =>
    if !progressed && !session.resyncRequested &&
        session.confirmedRevision < session.syncTarget then
      { session with sync := .backingOff }
    else { session with sync := .turning }
  | op :: rest =>
    if (validateCollabServerOp op).isSome then { session with sync := .exiting }.fail
    else if op.revision ≤ session.confirmedRevision then
      { session with sync := .ingesting rest progressed }
    else if op.revision ≠ session.confirmedRevision + 1 then
      { session with resyncRequested := true, sync := .turning }
    else
      match { session with sync := .ingesting rest true }.ingestOrdered env op false with
      | .ok next => next
      | .error left => { left with sync := .exiting }.fail

/-- The finalizer of the sync loop. -/
def syncExit : ImageSession Nonce :=
  let rested := { session with syncing := false, sync := .none }
  let awake := if rested.status = .catchingUp then { rested with status := .live } else rested
  if awake.status = .live && (awake.resyncRequested ||
      awake.confirmedRevision < awake.syncTarget) then awake.startSync
  else awake.startPump

/-- The observers have returned: the innermost frame is resumed. -/
def resume (session : ImageSession Nonce) : Option (ImageSession Nonce) :=
  match session.frames with
  | [] => none
  | frame :: frames =>
    let returned := { session with frames }
    some <|
      match frame with
      | .finished => returned
      | .pumping => returned.startPump
      | .emitting _ _ pumps => returned.notify (if pumps then .pumping else .finished)
      | .rebasing rest survivors cursor sequel =>
        returned.rebaseFrom env rest survivors cursor sequel
      | .resyncing => { returned with resyncRequested := true }.startSync
      | .dropping rest ambiguous revision document =>
        returned.dropFrom env ambiguous revision document rest

/-- What the network and the two loops do to a session that has nothing left to do. -/
def react (session : ImageSession Nonce) : ImageAction Nonce → Option (ImageSession Nonce)
  | .opEvent op => some (session.handleOpEvent env op)
  | .connected revision => some (session.handleConnected revision)
  | .descriptorInvalid => some session.fail
  | .pumpTurn =>
    match session.pump with
    | .turning | .delaying => some session.pumpTurn
    | _ => none
  | .posted outcome =>
    match session.pump with
    | .posting serial attempt recorded =>
      some (session.handlePosted env serial attempt recorded outcome)
    | _ => none
  | .pumpExit =>
    match session.pump with
    | .exiting => some session.pumpExit
    | _ => none
  | .syncTurn =>
    match session.sync with
    | .turning | .backingOff => some session.syncTurn
    | _ => none
  | .snapshotFetched revision document =>
    match session.sync with
    | .fetchingSnapshot => some (session.handleSnapshot env revision document)
    | _ => none
  | .opsFetched outcome =>
    match session.sync with
    | .fetchingOps => some (session.handleOps outcome)
    | _ => none
  | .ingestNext =>
    match session.sync with
    | .ingesting page progressed => some (session.ingestPage env page progressed)
    | _ => none
  | .syncThrew =>
    match session.sync with
    | .fetchingSnapshot | .fetchingOps | .backingOff =>
      some { session with sync := .exiting }.fail
    | _ => none
  | .syncExit =>
    match session.sync with
    | .exiting => some session.syncExit
    | _ => none
  | _ => none

/-- What an action makes of a session, where the action is enabled: a public method may be
called at any time, also by an observer. -/
def step (session : ImageSession Nonce) : ImageAction Nonce → Option (ImageSession Nonce)
  | .dispatch invocation => some (session.dispatch env invocation)
  | .replay direction => some (session.replayHistory env direction)
  | .clearHistory => some session.clearHistory
  | .close => some { session with status := .closed }
  | .returned => session.resume env
  | action => if session.frames.isEmpty then session.react env action else none

end Ingress

end ImageSession

end Dinkster.Image
