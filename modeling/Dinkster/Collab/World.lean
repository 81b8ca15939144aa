import Dinkster.Collab.Session

/-!
# Sessions and their server

The server appends an operation only when its base is the head, and answers a
known op id from its log.  Sessions reach it through a network that keeps what
was POSTed for ever: any posted operation may be processed at any time and any
number of times, any answer may be lost or delayed, and any appended operation
may be delivered at any time, again or never.

A session is named by its nonce.
-/

namespace Dinkster.Collab

open Library Format Commands

variable {Client Authority : Type}

/-- The server of one document: the document of revision zero, the log, and the
document at its head. -/
structure Server (Client : Type) where
  initial : Json
  log : List (CollabServerOp Client)
  document : Json

namespace Server

variable (server : Server Client)

def revision : Nat :=
  server.log.length

/-- `postOp`: what the server makes of a posted operation. -/
def postOp [DecidableEq Client] (env : SessionEnvironment Authority) (server : Server Client)
    (actorId : String) (posted : SubmittedAttempt Client) : Server Client :=
  if server.log.any fun op => op.opId = posted.opId then server
  else if posted.baseRevision ≠ server.revision then server
  else if !isValidActorId actorId then server
  else
    match applyChecked env server.document (wirePatchJson posted.patch) with
    | .error _ => server
    | .ok next =>
      { server with
        document := next
        log := server.log ++ [{
          opId := posted.opId
          actorId
          baseRevision := server.revision
          revision := server.revision + 1
          patch := wirePatchJson posted.patch }] }

/-- The fold of the first operations of the log over the initial document. -/
def documentAt (revision : Nat) : Except PatchError Json :=
  (server.log.take revision).foldlM (fun doc op => applyOps doc op.patch) server.initial

end Server

/-- A server and the sessions that have joined it. -/
structure World (Client : Type) where
  server : Server Client
  sessions : Client → Option (Session Client)

inductive WorldAction (Client : Type) where
  | join (client : Client) (actorId : String) (maxUndo revision : Nat) (document : Json)
  | act (client : Client) (action : SessionAction Client)
  | process (client : Client) (posting : Nat)

namespace World

variable (server : Server Client)

def Checkpoint (revision : Nat) (document : Json) : Prop :=
  revision ≤ server.revision ∧
    ∃ folded, server.documentAt revision = .ok folded ∧ document.value = folded.value

def Truthful : SessionAction Client → Prop
  | .opEvent op => op ∈ server.log
  | .connected revision => revision ≤ server.revision
  | .posted (.accepted op) => op ∈ server.log
  | .posted (.staleBase revision) => revision ≤ server.revision
  | .snapshotFetched revision document => Checkpoint server revision document
  | .opsFetched (.ops ops) => ∀ op ∈ ops, op ∈ server.log
  | _ => True

theorem checkpoint_of_test {server : Server Client} {revision : Nat} {document : Json}
    (passes : (decide (revision ≤ server.revision) &&
      decide ((server.documentAt revision).toOption = some document)) = true) :
    Checkpoint server revision document := by
  simp only [Bool.and_eq_true, decide_eq_true_eq] at passes
  exact ⟨passes.1, document, toOption_eq_some passes.2, rfl⟩

variable [DecidableEq Client]

def step (env : SessionEnvironment Authority) (world : World Client) :
    WorldAction Client → Option (World Client)
  | .join client actorId maxUndo revision document =>
    match world.sessions client, env.loadDocument document with
    | none, some loaded =>
      match Session.create actorId client maxUndo loaded revision with
      | .ok session =>
        some { world with sessions := Function.update world.sessions client (some session) }
      | .error _ => none
    | _, _ => none
  | .act client action =>
    match world.sessions client with
    | none => none
    | some session =>
      (session.step env action).map fun next =>
        { world with sessions := Function.update world.sessions client (some next) }
  | .process client posting =>
    match world.sessions client with
    | none => none
    | some session =>
      match session.replica.sent[posting]? with
      | none => none
      | some posted =>
        some { world with
          server := world.server.postOp env session.replica.actorId posted }

/-- The network tells the truth: a step delivers only what the server holds. -/
def Honest (world : World Client) : WorldAction Client → Prop
  | .join _ _ _ revision document => Checkpoint world.server revision document
  | .act _ action => Truthful world.server action
  | .process _ _ => True

/-- A world in which nobody has joined. -/
def start (initial : Json) : World Client where
  server := ⟨initial, [], initial⟩
  sessions := fun _ => none

variable (client : Client)

def joins (actorId : String) (world : World Client) : Option (WorldAction Client) :=
  (world.server.documentAt world.server.revision).toOption.map fun document =>
    .join client actorId 200 world.server.revision document

def acts (action : SessionAction Client) (_ : World Client) : Option (WorldAction Client) :=
  some (.act client action)

def processes (posting : Nat) (_ : World Client) : Option (WorldAction Client) :=
  some (.process client posting)

def delivers (slot : Nat) (world : World Client) : Option (WorldAction Client) :=
  world.server.log[slot]?.map fun op => .act client (.opEvent op)

def answers (slot : Nat) (world : World Client) : Option (WorldAction Client) :=
  world.server.log[slot]?.map fun op => .act client (.posted (.accepted op))

/-- Whether a session is told something true, as far as that can be decided. -/
def truthfulTest : SessionAction Client → Bool
  | .opEvent op => op ∈ server.log
  | .connected revision => revision ≤ server.revision
  | .posted (.accepted op) => op ∈ server.log
  | .posted (.staleBase revision) => revision ≤ server.revision
  | .snapshotFetched revision document =>
    revision ≤ server.revision && (server.documentAt revision).toOption = some document
  | .opsFetched (.ops ops) => ops.all (· ∈ server.log)
  | _ => true

/-- Whether a step of the network is honest, as far as that can be decided. -/
def honestTest (world : World Client) : WorldAction Client → Bool
  | .join _ _ _ revision document =>
    revision ≤ world.server.revision &&
      (world.server.documentAt revision).toOption = some document
  | .act _ action => truthfulTest world.server action
  | .process _ _ => true

theorem honest_of_test {world : World Client} {action : WorldAction Client}
    (passes : honestTest world action = true) : Honest world action := by
  cases action with
  | join client actorId maxUndo revision document => exact checkpoint_of_test passes
  | process client posting => trivial
  | act client action =>
    cases action with
    | opEvent op => exact (of_decide_eq_true passes : op ∈ world.server.log)
    | connected revision => exact (of_decide_eq_true passes : revision ≤ world.server.revision)
    | posted outcome =>
      cases outcome with
      | accepted op => exact (of_decide_eq_true passes : op ∈ world.server.log)
      | staleBase revision => exact (of_decide_eq_true passes : revision ≤ world.server.revision)
      | _ => trivial
    | snapshotFetched revision document => exact checkpoint_of_test passes
    | opsFetched outcome =>
      cases outcome with
      | ops ops =>
        intro op member
        exact of_decide_eq_true (List.all_eq_true.mp passes op member)
      | resyncRequired => trivial
    | _ => trivial

end World

end Dinkster.Collab
