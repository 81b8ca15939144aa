import Dinkster.Image.World

/-!
# The optimistic view of an image session

What a session shows is the confirmed document with the predicted patches of its queue, and
the confirmed document is the fold of the server's log.  A rebase detaches the queue while it
plans it anew, and calls the conflict callback for an intention it drops.  An intention that
the callback adds then is queued before the survivors and is not in the document that the
rebase ends with.  When no conflict callback of a rebase edits, both hold at all times.
-/

namespace Dinkster.Image

open Library Format Commands List
open Collab (OpId CollabServerOp validateCollabServerOp PostOpOutcome FetchOpsOutcome)

variable {Nonce : Type}

/-- What the predicted patches of a queue make of a document. -/
def view (env : ImageEnvironment) (document : Json) (entries : List (PendingEntry Nonce)) :
    Option Json :=
  entries.foldlM (fun document entry => applyPatch env document entry.predicted) document

/-- Whether a frame waits inside a rebase, the queue being detached. -/
def Frame.detaches : Frame Nonce → Bool
  | .rebasing .. => true
  | _ => false

/-- Whether a session waits inside a rebase. -/
def ImageSession.detached (session : ImageSession Nonce) : Bool :=
  session.frames.any Frame.detaches

/-- Whether a call queues an intention: a command that plans, or a record that still fits. -/
def ImageSession.edits (env : ImageEnvironment) (session : ImageSession Nonce) :
    ImageAction Nonce → Bool
  | .dispatch invocation =>
    !session.status.terminal && (planImageDocumentCommand env session.optimistic
      (.obj (setField invocation "actor" (.str session.actorId)))).isSome
  | .replay direction =>
    match session.stack direction with
    | [] => false
    | reference :: _ => session.records[reference]?.any fun record =>
      (replayImageHistory env session.optimistic (record.replayed direction)).isSome
  | _ => false

/-- The part of a session that the view depends on. -/
structure Core (Nonce : Type) where
  nonce : Nonce
  confirmed : Json
  confirmedRevision : Nat
  optimistic : Json
  pending : List (PendingEntry Nonce)
  opCounter : Nat
  frames : List (Frame Nonce)
  sent : List (Attempt Nonce)

def ImageSession.core (session : ImageSession Nonce) : Core Nonce where
  nonce := session.nonce
  confirmed := session.confirmed
  confirmedRevision := session.confirmedRevision
  optimistic := session.optimistic
  pending := session.pending
  opCounter := session.opCounter
  frames := session.frames
  sent := session.sent

section Inert

variable (session : ImageSession Nonce)

@[simp] theorem core_fail : session.fail.core = session.core := by
  unfold ImageSession.fail
  split <;> rfl

@[simp] theorem core_startPump : session.startPump.core = session.core := by
  unfold ImageSession.startPump
  split
  · split <;> rfl
  · rfl

@[simp] theorem core_startSync : session.startSync.core = session.core := by
  unfold ImageSession.startSync
  split <;> rfl

@[simp] theorem core_requestCatchUp (target : Nat) :
    (session.requestCatchUp target).core = session.core := by
  unfold ImageSession.requestCatchUp
  rw [core_startSync]
  rfl

@[simp] theorem core_removeHistory (record : Option Nat) :
    (session.removeHistory record).core = session.core := by
  cases record <;> rfl

variable (direction : Collab.HistoryDirection)

@[simp] theorem core_setStack (stack : List Nat) :
    (session.setStack direction stack).core = session.core := by
  cases direction <;> rfl

@[simp] theorem core_pushOpposite (record : Nat) :
    (session.pushOpposite direction record).core = session.core := by
  cases direction <;> rfl

theorem core_notify (frame : Frame Nonce) :
    (session.notify frame).core = { session.core with frames := frame :: session.frames } := rfl

@[simp] theorem core_syncExit : session.syncExit.core = session.core := by
  unfold ImageSession.syncExit
  dsimp only
  split <;> split <;> simp only [core_startSync, core_startPump] <;> rfl

@[simp] theorem core_pumpExit : session.pumpExit.core = session.core := by
  unfold ImageSession.pumpExit
  dsimp only
  split
  · rw [core_startPump]
    rfl
  · rfl

@[simp] theorem core_syncTurn : session.syncTurn.core = session.core := by
  unfold ImageSession.syncTurn
  split
  · rfl
  · split
    · rfl
    · split <;> rfl

@[simp] theorem core_handleConnected (revision : Nat) :
    (session.handleConnected revision).core = session.core := by
  unfold ImageSession.handleConnected
  split
  · rfl
  · split
    · exact core_requestCatchUp session revision
    · rfl

@[simp] theorem core_handleOps (outcome : FetchOpsOutcome Nonce) :
    (session.handleOps outcome).core = session.core := by
  cases outcome <;> rfl

end Inert

/-- A queue of entries leads from the confirmed document to a document: the predicted patches
apply one after another, the op ids are those of the session and distinct, and what was sent
under one of them is the entry as it is. -/
structure Queue (env : ImageEnvironment) (core : Core Nonce) (entries : List (PendingEntry Nonce))
    (document : Json) : Prop where
  leads : view env core.confirmed entries = some document
  minted : ∀ entry ∈ entries,
    entry.opId.nonce = core.nonce ∧ entry.opId.counter ≤ core.opCounter
  distinct : (entries.map (·.opId)).Nodup
  current : ∀ entry ∈ entries, ∀ attempt ∈ core.sent, attempt.opId = entry.opId →
    attempt.baseRevision = core.confirmedRevision ∧ attempt.patch = entry.predicted

/-- What was sent carries op ids of the session, one for each content, and applied to the
document of the server that it was based on. -/
structure Sends (env : ImageEnvironment) (server : ImageServer Nonce) (core : Core Nonce) :
    Prop where
  old : ∀ attempt ∈ core.sent,
    attempt.opId.nonce = core.nonce ∧ attempt.opId.counter ≤ core.opCounter
  unique : ∀ attempt ∈ core.sent, ∀ other ∈ core.sent, attempt.opId = other.opId →
    attempt = other
  applies : ∀ attempt ∈ core.sent, ∃ base next,
    server.Checkpoint env attempt.baseRevision base ∧
      applyPatch env base attempt.patch = some next

/-- The attempts of entries were sent. -/
def Remembered (core : Core Nonce) (entries : List (PendingEntry Nonce)) : Prop :=
  ∀ entry ∈ entries, ∀ attempt ∈ entry.attempts, attempt ∈ core.sent

/-- What does not depend on the queue: the confirmed document is the fold of the log, and so
is a checkpoint that is about to be adopted. -/
structure Based (env : ImageEnvironment) (server : ImageServer Nonce) (core : Core Nonce) :
    Prop where
  grounded : server.Checkpoint env core.confirmedRevision core.confirmed
  sends : Sends env server core
  checkpoints : ∀ rest ambiguous revision document,
    .dropping rest ambiguous revision document ∈ core.frames →
      server.Checkpoint env revision document

/-- The queue leads to the document that is shown; inside a rebase, what survived leads to
the document that the rebase has come to, and the callback has at most calls to return from. -/
inductive Queued (env : ImageEnvironment) (core : Core Nonce) : Prop where
  | settled (still : core.frames.any Frame.detaches = false)
      (queue : Queue env core core.pending core.optimistic)
      (remembered : Remembered core core.pending)
  | detached {rest survivors : List (PendingEntry Nonce)} {cursor : Json} {sequel : Sequel Nonce}
      {above below : List (Frame Nonce)}
      (frames : core.frames = above ++ .rebasing rest survivors cursor sequel :: below)
      (called : ∀ frame ∈ above, frame = .finished) (still : below.any Frame.detaches = false)
      (emptied : core.pending = []) (queue : Queue env core survivors cursor)
      (remembered : Remembered core (rest ++ survivors))

/-- What every state keeps in which no conflict callback of a rebase edited. -/
structure Sound (env : ImageEnvironment) (server : ImageServer Nonce) (core : Core Nonce) :
    Prop where
  based : Based env server core
  queued : Queued env core

section Queues

variable {env : ImageEnvironment} {server : ImageServer Nonce} {core : Core Nonce}
  {entries : List (PendingEntry Nonce)} {document next : Json}

theorem view_append (document : Json) (first second : List (PendingEntry Nonce)) :
    view env document (first ++ second) =
      (view env document first).bind fun middle => view env middle second :=
  foldlM_append

/-- No entry leads anywhere else. -/
theorem Queue.empty : Queue env core [] core.confirmed where
  leads := rfl
  minted := by simp
  distinct := nodup_nil
  current := by simp

theorem Queue.push {entry : PendingEntry Nonce} (queue : Queue env core entries document)
    (sends : Sends env server core) (applies : applyPatch env document entry.predicted = some next)
    (named : entry.opId.nonce = core.nonce) (fresh : entry.opId.counter = core.opCounter + 1) :
    Queue env { core with opCounter := core.opCounter + 1 } (entries ++ [entry]) next where
  leads := by
    change view env core.confirmed (entries ++ [entry]) = some next
    rw [view_append, queue.leads, Option.bind_some]
    unfold view
    rw [foldlM_cons, applies]
    rfl
  minted := by
    intro other listed
    cases mem_append.mp listed with
    | inl known =>
      have minted := queue.minted other known
      exact ⟨minted.1, Nat.le_succ_of_le minted.2⟩
    | inr last =>
      rw [mem_singleton.mp last]
      exact ⟨named, Nat.le_of_eq fresh⟩
  distinct := by
    rw [map_append, map_singleton]
    apply List.Nodup.append queue.distinct (nodup_singleton _)
    intro opId known last
    obtain ⟨other, listed, same⟩ := mem_map.mp known
    have minted := queue.minted other listed
    rw [same, mem_singleton.mp last, fresh] at minted
    omega
  current := by
    intro other listed attempt sent same
    cases mem_append.mp listed with
    | inl known => exact queue.current other known attempt sent same
    | inr last =>
      have old := sends.old attempt sent
      rw [same, mem_singleton.mp last, fresh] at old
      omega

theorem Sends.mint (sends : Sends env server core) :
    Sends env server { core with opCounter := core.opCounter + 1 } where
  old := by
    intro attempt sent
    have old := sends.old attempt sent
    exact ⟨old.1, Nat.le_succ_of_le old.2⟩
  unique := sends.unique
  applies := sends.applies

theorem Based.mint (based : Based env server core) :
    Based env server { core with opCounter := core.opCounter + 1 } where
  grounded := based.grounded
  sends := based.sends.mint
  checkpoints := based.checkpoints

/-- Calling observers keeps what the core is based on. -/
theorem Based.notify {frame : Frame Nonce} (based : Based env server core)
    (checked : ∀ rest ambiguous revision document, frame = .dropping rest ambiguous revision document →
      server.Checkpoint env revision document) :
    Based env server { core with frames := frame :: core.frames } where
  grounded := based.grounded
  sends := ⟨based.sends.old, based.sends.unique, based.sends.applies⟩
  checkpoints := by
    intro rest ambiguous revision document listed
    cases mem_cons.mp listed with
    | inl here => exact checked _ _ _ _ here.symm
    | inr below => exact based.checkpoints _ _ _ _ below

end Queues

end Dinkster.Image
