import Dinkster.Image.Session
import Dinkster.Library.Transition

/-!
# Image sessions and their server

The server appends an operation only when its base is the head, and answers a known op id
from its log.  Sessions reach it through a network that keeps what was POSTed for ever: any
posted operation may be processed at any time and any number of times, any answer may be
lost or delayed, and any appended operation may be delivered at any time, again or never.

A session is named by its nonce.
-/

namespace Dinkster.Image

open Library Format Commands
open Collab (OpId CollabServerOp)

variable {Client : Type}

/-- The server of one image document: the document of revision zero, and the log. -/
structure ImageServer (Client : Type) where
  initial : Json
  log : List (CollabServerOp Client)

namespace ImageServer

variable (server : ImageServer Client)

def revision : Nat :=
  server.log.length

/-- `postOp`: what the server makes of a posted operation. -/
def postOp [DecidableEq Client] (actorId : String) (posted : Attempt Client) : ImageServer Client :=
  if server.log.any (·.opId = posted.opId) then server
  else if posted.baseRevision ≠ server.revision then server
  else
    { server with
      log := server.log ++ [{
        opId := posted.opId
        actorId
        baseRevision := server.revision
        revision := server.revision + 1
        patch := wirePatchJson posted.patch.val }] }

variable (env : ImageEnvironment)

/-- The fold of the first operations of the log over the initial document. -/
def documentAt (server : ImageServer Client) (revision : Nat) : Option Json :=
  (env.load server.initial).bind fun initial =>
    (server.log.take revision).foldlM (fun document op => applyWire env document op.patch) initial

def Checkpoint (server : ImageServer Client) (revision : Nat) (document : Json) : Prop :=
  revision ≤ server.revision ∧ server.documentAt env revision = some document

end ImageServer

/-- A server and the sessions that have joined it. -/
structure ImageWorld (Client : Type) where
  server : ImageServer Client
  sessions : Client → Option (ImageSession Client)

inductive ImageWorldAction (Client : Type) where
  | join (client : Client) (actorId : String) (maxUndo revision : Nat) (document : Json)
  | act (client : Client) (action : ImageAction Client)
  | process (client : Client) (posting : Nat)

namespace ImageWorld

variable (env : ImageEnvironment)

/-- What a session is told comes from the server. -/
def Truthful (server : ImageServer Client) : ImageAction Client → Prop
  | .opEvent op => op ∈ server.log
  | .posted (.accepted op) => op ∈ server.log
  | .snapshotFetched revision document => server.Checkpoint env revision document
  | .opsFetched (.ops ops) => ∀ op ∈ ops, op ∈ server.log
  | _ => True

variable [DecidableEq Client]

def step (env : ImageEnvironment) (world : ImageWorld Client) :
    ImageWorldAction Client → Option (ImageWorld Client)
  | .join client actorId maxUndo revision document =>
    match world.sessions client, env.load document with
    | none, some loaded =>
      some { world with
        sessions := Function.update world.sessions client
          (some (ImageSession.create actorId client maxUndo loaded revision)) }
    | _, _ => none
  | .act client action =>
    match world.sessions client with
    | none => none
    | some session =>
      (session.step env action).map fun next =>
        { world with sessions := Function.update world.sessions client (some next) }
  | .process client posting =>
    match world.sessions client with
    | none => none
    | some session =>
      match session.sent[posting]? with
      | none => none
      | some posted =>
        some { world with server := world.server.postOp session.actorId posted }

/-- The network tells the truth: a step delivers only what the server holds. -/
def Honest (world : ImageWorld Client) : ImageWorldAction Client → Prop
  | .join _ _ _ revision document => world.server.Checkpoint env revision document
  | .act _ action => Truthful env world.server action
  | .process _ _ => True

/-- A world in which nobody has joined. -/
def start (initial : Json) : ImageWorld Client where
  server := ⟨initial, []⟩
  sessions := fun _ => none

end ImageWorld

end Dinkster.Image
