import Dinkster.Collab.Ingress

/-!
# The shared session as a state machine

A session reacts to its user, to the transport and to its two asynchronous loops:
the pump, which POSTs the head intention, and the sync loop, which catches up and
resynchronizes.  Every stretch of code between two suspensions is one action; a
loop that goes on to its next round does so in an action of its own.

Subscribers of the document are notified in the middle of `run`, before `dispatch`
and `replayHistory` have dealt with its outcome, and may call the session from
there.  Such a call that waits for its notification to return is a `Frame`; the
frames are a stack, and `returned` resumes the innermost.

Presence and the publication of snapshots read the session's state only and are
left out.
-/

namespace Dinkster.Collab

open Library Format Commands

variable {Nonce Authority : Type}

inductive PostOpOutcome (Nonce : Type) where
  | accepted (op : CollabServerOp Nonce)
  | staleBase (revision : Nat)
  | snapshotRequired
  | protocolUnsupported
  | denied
  | error

inductive FetchOpsOutcome (Nonce : Type) where
  | ops (ops : List (CollabServerOp Nonce))
  | resyncRequired

/-- Where the pump stands.  A pump that is not `idle` holds `pumpPromise`. -/
inductive PumpPhase (Nonce : Type) where
  | idle
  | turning
  | posting (attempt : SubmittedAttempt Nonce)
  | delaying
  | exiting

/-- Where the sync loop stands. -/
inductive SyncPhase (Nonce : Type) where
  | none
  | turning
  | fetchingSnapshot
  | fetchingOps
  | ingesting (rest : List (CollabServerOp Nonce)) (progressed : Bool)
  | backingOff
  | exiting

/-- A call that waits for the notification inside its `run` to return. -/
inductive Frame where
  | dispatch (forward inverse : List PatchOp)
  | replay (direction : HistoryDirection) (record : Nat)

/-- `SharedDocumentSession`. -/
structure Session (Nonce : Type) where
  replica : Replica Nonce
  syncing : Bool
  syncTarget : Nat
  resyncRequested : Bool
  pump : PumpPhase Nonce
  sync : SyncPhase Nonce
  frames : List Frame

inductive SessionAction (Nonce : Type) where
  | dispatch (invocation : CommandInvocation)
  | replay (direction : HistoryDirection)
  | returned
  | clearHistory
  | close
  | opEvent (op : CollabServerOp Nonce)
  | connected (revision : Nat)
  | descriptorInvalid
  | pumpTurn
  | posted (outcome : PostOpOutcome Nonce)
  | pumpThrew
  | pumpExit
  | syncTurn
  | snapshotFetched (revision : Nat) (document : Json)
  | opsFetched (outcome : FetchOpsOutcome Nonce)
  | ingestNext
  | syncThrew
  | syncExit

namespace Session

def create (actorId : String) (nonce : Nonce) (maxUndo : Nat) (snapshot : Json)
    (snapshotRevision : Nat) : Except String (Session Nonce) := do
  let replica ← Replica.create actorId nonce maxUndo snapshot snapshotRevision
  return {
    replica
    syncing := false
    syncTarget := 0
    resyncRequested := false
    pump := .idle
    sync := .none
    frames := [] }

def status (session : Session Nonce) : SharedSessionStatus :=
  session.replica.status

variable (session : Session Nonce)

def setStatus (status : SharedSessionStatus) : Session Nonce :=
  { session with replica := { session.replica with status } }

/-- `fail`: a terminal status stays. -/
def fail : Session Nonce :=
  if session.status.terminal then session else session.setStatus .error

/-- `pump`: start the pump unless it is running. -/
def startPump : Session Nonce :=
  match session.pump with
  | .idle => { session with pump := .turning }
  | _ => session

def startSync : Session Nonce :=
  if session.status.terminal || session.syncing then session
  else { session.setStatus .catchingUp with syncing := true, sync := .turning }

/-- Raise the head that the sync loop must reach. -/
def raiseTarget (target : Nat) : Session Nonce :=
  { session with syncTarget := max session.syncTarget target }

def requestCatchUp (target : Nat) : Session Nonce :=
  (session.raiseTarget target).startSync

def requestResync : Session Nonce :=
  { session with resyncRequested := true }.startSync

/-- Continue after `run` with a frame that waits for the notification. -/
def await (replica : Replica Nonce) (frame : Frame) : Session Nonce :=
  { session with replica, frames := frame :: session.frames }

/-- `dispatch`, up to the notification. -/
def dispatch (env : SessionEnvironment Authority) (session : Session Nonce)
    (invocation : CommandInvocation) : Session Nonce :=
  if invocation.command = sessionPatchId then session
  else
    match session.replica.run env invocation none with
    | (.rejected _, replica) => { session with replica }
    | (.ok _ forward inverse _, replica) =>
      if forward.isEmpty then { session with replica }
      else session.await replica (.dispatch forward inverse)

/-- `undo` and `redo`, up to the notification. -/
def replayHistory (env : SessionEnvironment Authority) (session : Session Nonce)
    (direction : HistoryDirection) : Session Nonce :=
  match session.replica.beginReplay env direction with
  | (replica, none) => { session with replica }
  | (replica, some record) => session.await replica (.replay direction record)

/-- The innermost notification has returned: `run` starts the pump and its caller
finishes. -/
def resume : Option (Session Nonce) :=
  match session.frames with
  | [] => none
  | .dispatch forward inverse :: rest =>
    some { session.startPump with
      replica := session.replica.finishDispatch forward inverse
      frames := rest }
  | .replay direction record :: rest =>
    some { session.startPump with
      replica := session.replica.finishReplay direction record
      frames := rest }

section Loops

variable [DecidableEq Nonce]

variable (env : SessionEnvironment Authority)

/-- `handleServerOp`; an exception of the rebase propagates to the caller. -/
def handleServerOp (session : Session Nonce) (op : CollabServerOp Nonce) : Session Nonce × Bool :=
  if op.revision ≤ session.replica.confirmedRevision then
    (session, false)
  else if op.revision > session.replica.confirmedRevision + 1 then
    (session.requestCatchUp op.revision, false)
  else
    match session.replica.ingestOrdered env op with
    | .done replica => ({ session with replica }.startPump, false)
    | .diverged _ => ((session.raiseTarget op.revision).requestResync, false)
    | .threw replica => ({ session with replica }, true)

/-- An `op` event of the transport. -/
def handleOpEvent (session : Session Nonce) (op : CollabServerOp Nonce) : Session Nonce :=
  if session.status.terminal then session
  else
    match validateCollabServerOp op with
    | some _ => session.requestResync
    | none => (session.handleServerOp env op).1

variable (session : Session Nonce)

/-- A `connected` event with a valid descriptor. -/
def handleConnected (revision : Nat) : Session Nonce :=
  if session.status.terminal then session
  else if revision > session.replica.confirmedRevision then session.requestCatchUp revision
  else session

/-- Whether the pump has work and may do it. -/
def canSubmit : Bool :=
  !session.replica.pending.isEmpty && session.status = .live && !session.syncing

/-- The head of the pump loop. -/
def pumpTurn : Session Nonce :=
  if session.canSubmit then
    match session.replica.submitHead with
    | some (replica, attempt) => { session with replica, pump := .posting attempt }
    | none => { session with pump := .exiting }
  else { session with pump := .exiting }

/-- Whether an accepted operation is exactly the submitted one. -/
def isSubmitted (attempt : SubmittedAttempt Nonce) (op : CollabServerOp Nonce) : Bool :=
  op.actorId = session.replica.actorId && op.opId = attempt.opId &&
    op.baseRevision = attempt.baseRevision &&
    jsonSameValue op.patch (wirePatchJson attempt.patch)

def handlePosted (session : Session Nonce)
    (attempt : SubmittedAttempt Nonce) : PostOpOutcome Nonce → Session Nonce
  | .accepted op =>
    if session.status ≠ .live then { session with pump := .exiting }
    else if (validateCollabServerOp op).isSome then
      { session.requestResync with pump := .exiting }
    else if op.revision ≤ session.replica.confirmedRevision then
      { session with pump := .turning }
    else if !session.isSubmitted attempt op then
      { (session.raiseTarget op.revision).requestResync with pump := .exiting }
    else
      match session.handleServerOp env op with
      | (next, true) => { next with pump := .exiting }
      | (next, false) =>
        if next.syncing || next.status ≠ .live then { next with pump := .exiting }
        else { next with pump := .turning }
  | .staleBase revision =>
    if session.status ≠ .live then { session with pump := .exiting }
    else if session.replica.confirmedRevision > attempt.baseRevision then
      { session with pump := .turning }
    else { session.requestCatchUp revision with pump := .exiting }
  | .snapshotRequired | .error =>
    if session.status ≠ .live then { session with pump := .exiting }
    else { session with pump := .delaying }
  | .protocolUnsupported | .denied =>
    if session.status ≠ .live then { session with pump := .exiting }
    else { session.fail with pump := .exiting }

def pumpExit : Session Nonce :=
  { session with pump := if session.canSubmit then .turning else .idle }

/-- The head of the sync loop. -/
def syncTurn : Session Nonce :=
  if session.status ≠ .catchingUp then { session with sync := .exiting }
  else if session.resyncRequested then
    { session with resyncRequested := false, sync := .fetchingSnapshot }
  else if session.replica.confirmedRevision ≥ session.syncTarget then
    { session with sync := .exiting }
  else { session with sync := .fetchingOps }

/-- The answer to a snapshot fetch. -/
def handleSnapshot (session : Session Nonce) (revision : Nat) (document : Json) : Session Nonce :=
  if session.status ≠ .catchingUp then { session with sync := .exiting }
  else if !isValidCollabRevision revision then { session.fail with sync := .exiting }
  else
    match env.loadDocument document with
    | none => { session.fail with sync := .exiting }
    | some loaded =>
      let raised :=
        (session.raiseTarget session.replica.confirmedRevision).raiseTarget revision
      match session.replica.adoptSnapshot env revision loaded with
      | .done replica => { raised with replica, sync := .turning }
      | .threw replica => { { raised with replica }.fail with sync := .exiting }
      | .diverged _ => { raised with sync := .turning }

/-- The answer to an operation fetch. -/
def handleOps (outcome : FetchOpsOutcome Nonce) : Session Nonce :=
  if session.status ≠ .catchingUp then { session with sync := .exiting }
  else if session.resyncRequested then { session with sync := .turning }
  else
    match outcome with
    | .resyncRequired => { session with resyncRequested := true, sync := .turning }
    | .ops ops => { session with sync := .ingesting ops false }

/-- One operation of a page, or what follows its last. -/
def ingestPage (session : Session Nonce)
    (page : List (CollabServerOp Nonce)) (progressed : Bool) : Session Nonce :=
  match page with
  | [] =>
    if !progressed && !session.resyncRequested &&
        session.replica.confirmedRevision < session.syncTarget then
      { session with sync := .backingOff }
    else { session with sync := .turning }
  | op :: rest =>
    if session.status ≠ .catchingUp then { session with sync := .exiting }
    else if (validateCollabServerOp op).isSome then
      { session with resyncRequested := true, sync := .turning }
    else if op.revision ≤ session.replica.confirmedRevision then
      { session with sync := .ingesting rest progressed }
    else
      match session.replica.ingestOrdered env op with
      | .done replica => { session with replica, sync := .ingesting rest true }
      | .diverged _ =>
        { session.raiseTarget op.revision with resyncRequested := true, sync := .turning }
      | .threw replica => { { session with replica }.fail with sync := .exiting }

/-- The finalizer of the sync loop. -/
def syncExit : Session Nonce :=
  let rested := { session with syncing := false, sync := .none }
  let awake := if rested.status = .catchingUp then rested.setStatus .live else rested
  if awake.status = .live && (awake.resyncRequested ||
      awake.replica.confirmedRevision < awake.syncTarget) then
    awake.startSync
  else awake.startPump

def step (session : Session Nonce) : SessionAction Nonce → Option (Session Nonce)
  | .dispatch invocation => some (session.dispatch env invocation)
  | .replay direction => some (session.replayHistory env direction)
  | .returned => session.resume
  | .clearHistory => some { session with replica := session.replica.clearHistory }
  | .close => some (session.setStatus .closed)
  | .opEvent op => some (session.handleOpEvent env op)
  | .connected revision => some (session.handleConnected revision)
  | .descriptorInvalid => some session.fail
  | .pumpTurn =>
    match session.pump with
    | .turning | .delaying => some session.pumpTurn
    | _ => none
  | .posted outcome =>
    match session.pump with
    | .posting attempt => some (session.handlePosted env attempt outcome)
    | _ => none
  | .pumpThrew =>
    match session.pump with
    | .delaying => some { session with pump := .exiting }
    | _ => none
  | .pumpExit =>
    match session.pump with
    | .exiting => some session.pumpExit
    | _ => none
  | .syncTurn =>
    match session.sync with
    | .turning | .backingOff => some session.syncTurn
    | _ => none
  | .snapshotFetched revision document =>
    match session.sync with
    | .fetchingSnapshot => some (session.handleSnapshot env revision document)
    | _ => none
  | .opsFetched outcome =>
    match session.sync with
    | .fetchingOps => some (session.handleOps outcome)
    | _ => none
  | .ingestNext =>
    match session.sync with
    | .ingesting page progressed => some (session.ingestPage env page progressed)
    | _ => none
  | .syncThrew =>
    match session.sync with
    | .fetchingSnapshot | .fetchingOps | .backingOff =>
      some { session.fail with sync := .exiting }
    | _ => none
  | .syncExit =>
    match session.sync with
    | .exiting => some session.syncExit
    | _ => none

end Loops

end Session

end Dinkster.Collab
