import Dinkster.Commands.Store

/-!
# The document authority of a shared worker

Every tab of a browser connects to one worker through a port.  The worker keeps a session
for each document that is open in some tab: the document, the log of the operations it
accepted, and the ports that follow it.  A port leaves when it says so, when it opens
another document, or when it was silent for longer than its lease; a session ends with its
last port, and the next port to open the document starts a new one.
-/

namespace Dinkster.Collab

open Format Commands

def collabProtocolVersion : Rat := 1

/-- `validRevision`, with the revision. -/
def validRevision? : Option Json → Option Nat
  | some (.num number) =>
    if number.den = 1 ∧ 0 ≤ number ∧ number ≤ 2 ^ 53 - 1 then some number.num.toNat else none
  | _ => none

/-- A property of a value that may be missing. -/
def Json.property (json : Json) (name : String) : Option Json :=
  match json with
  | .obj fields => getField fields name
  | _ => none

/-- `CollabClientOp`, as it arrives: any of its fields may be missing or of another kind. -/
structure PostedOp where
  protocolVersion : Option Json
  opId : Option Json
  actorId : Option Json
  baseRevision : Option Json
  patch : Option Json

/-- Reading the envelope of a posted operation throws when there is none. -/
def PostedOp.read : Option Json → Except String PostedOp
  | none => .error "Cannot read properties of undefined"
  | some .null => .error "Cannot read properties of null"
  | some json => .ok
      { protocolVersion := Json.property json "protocolVersion"
        opId := Json.property json "opId"
        actorId := Json.property json "actorId"
        baseRevision := Json.property json "baseRevision"
        patch := Json.property json "patch" }

inductive WorkerRequest where
  | opening (sessionId document : Option Json)
  | postOp (op : Option Json)
  | replaceAuthoritative (op document : Option Json)
  | adoptExclusive (op document : Option Json)
  | fetchSnapshot
  | fetchOps (after : Option Json)
  | putSnapshot (revision document : Option Json)
  | presence (actorId payload : Option Json)
  | heartbeat
  | closing
  | unknown

/-- A message of a port: a request with its id, or a malformed one, whose id may be
readable. -/
inductive WorkerMessage where
  | request (id : Nat) (request : WorkerRequest)
  | malformed (id : Option Nat)

/-- `CollabServerOp`. -/
structure AcceptedOp where
  opId : String
  actorId : String
  baseRevision : Nat
  revision : Nat
  patch : Json
  timestamp : Int
  deriving DecidableEq

/-- The value of a response. -/
inductive WorkerAnswer where
  | opened (sessionId : String) (revision : Nat) (document : Json)
  | accepted (op : AcceptedOp) (replayed : Bool)
  | protocolUnsupported
  | staleBase (revision : Nat)
  | refused (message : String)
  | conflict
  | ok
  | snapshot (revision : Nat) (document : Json)
  | ops (ops : List AcceptedOp)
  | nothing
  deriving DecidableEq

inductive WorkerResponse where
  | response (id : Nat) (answer : WorkerAnswer)
  | error (id : Nat) (message : String)
  | op (op : AcceptedOp)
  | presence (actorId : String) (payload : Option Json)
  deriving DecidableEq

/-- What the authority knows of documents: the invariant checker, and the loader, which
gives a document only when the checker finds no error in it. -/
structure DocumentGate where
  checkDocument : Json → List Diagnostic
  loadDocument : Json → Option Json
  checked : ∀ {raw document}, loadDocument raw = some document →
    hasErrors (checkDocument document) = false

/-- `AuthoritySession`.  The document it was opened with and its number among all sessions
are kept for the record. -/
structure AuthoritySession (Port : Type) where
  document : Json
  revision : Nat
  ops : List AcceptedOp
  seen : List (String × AcceptedOp)
  ports : List Port
  opened : Json
  serial : Nat

namespace AuthoritySession

variable {Port : Type} (gate : DocumentGate) (session : AuthoritySession Port) (now : Int)

/-- `seen.get`. -/
def seen? (opId : Option Json) : Option AcceptedOp :=
  match opId with
  | some (.str id) => session.seen.lookup id
  | _ => none

/-- A patch with the document it makes. -/
def patched (patch : Option Json) : Except String (Json × Json) :=
  match patch with
  | none => .error "ops are not JSON: undefined"
  | some patch =>
    match applyOps session.document patch with
    | .error error => .error error.message
    | .ok document => .ok (patch, document)

/-- An operation is appended to the log. -/
def append (document : Json) (op : AcceptedOp) : AuthoritySession Port :=
  { session with
    document := document
    revision := op.revision
    ops := session.ops ++ [op]
    seen := session.seen ++ [(op.opId, op)] }

/-- The entry of a posted operation in the log. -/
def entry (opId actorId : String) (patch : Json) : AcceptedOp where
  opId := opId
  actorId := actorId
  baseRevision := session.revision
  revision := session.revision + 1
  patch := patch
  timestamp := now

variable (op : PostedOp)

/-- An operation that was not seen before. -/
def postFresh : AuthoritySession Port × WorkerAnswer :=
  if validRevision? op.baseRevision ≠ some session.revision then
    (session, .staleBase session.revision)
  else
    match op.opId, op.actorId with
    | some (.str opId), some (.str actorId) =>
      if opId = "" || !isValidActorId actorId then (session, .refused "invalid op envelope")
      else
        match session.patched op.patch with
        | .error message => (session, .refused message)
        | .ok (patch, document) =>
          if hasErrors (gate.checkDocument document) then
            (session, .refused "document invariants failed")
          else
            let accepted := session.entry now opId actorId patch
            (session.append document accepted, .accepted accepted false)
    | _, _ => (session, .refused "invalid op envelope")

/-- `postOp`, less the broadcast. -/
def postOp : AuthoritySession Port × WorkerAnswer :=
  if op.protocolVersion ≠ some (.num collabProtocolVersion) then (session, .protocolUnsupported)
  else
    match session.seen? op.opId with
    | some replay =>
      if op.actorId ≠ some (.str replay.actorId) ||
          op.baseRevision ≠ some (.num replay.baseRevision) ||
          !op.patch.any (jsonSameValue replay.patch) then
        (session, .refused "op id was already used for different content")
      else (session, .accepted replay true)
    | none => session.postFresh gate now op

/-- `replaceAuthoritative`, less the broadcast. -/
def replaceAuthoritative (raw : Option Json) : AuthoritySession Port × WorkerAnswer :=
  if validRevision? op.baseRevision ≠ some session.revision then session.postOp gate now op
  else
    match raw.bind gate.loadDocument with
    | none => (session, .refused "document failed to load")
    | some loaded =>
      match session.patched op.patch with
      | .error message => (session, .refused message)
      | .ok (_, applied) =>
        if !jsonSameValue applied loaded then
          (session, .refused "authoritative replacement patch does not match its document")
        else session.postOp gate now op

def putSnapshot (revision raw : Option Json) : WorkerAnswer :=
  if validRevision? revision ≠ some session.revision then .conflict
  else if raw.bind gate.loadDocument = some session.document then .ok
  else .conflict

end AuthoritySession

/-- `SharedWorkerDocumentAuthority`, with the number of sessions it ever started. -/
structure Authority (Port : Type) where
  sessions : String → Option (AuthoritySession Port)
  portSessions : Port → Option String
  portSeen : List (Port × Int)
  created : Nat

/-- `PORT_LEASE_MS`. -/
def portLease : Int := 90000

namespace Authority

variable {Port : Type} [DecidableEq Port]

def empty : Authority Port := ⟨fun _ => none, fun _ => none, [], 0⟩

variable (gate : DocumentGate) (state : Authority Port)

variable (port : Port)

/-- `portSeen.set`. -/
def seenAt (now : Int) : Authority Port :=
  { state with
    portSeen :=
      if state.portSeen.any (·.1 = port) then
        state.portSeen.map fun entry => if entry.1 = port then (port, now) else entry
      else state.portSeen ++ [(port, now)] }

/-- `sessions.set`. -/
def setSession (sessionId : String) (session : AuthoritySession Port) : Authority Port :=
  { state with sessions := Function.update state.sessions sessionId (some session) }

def disconnect (sessionId : String) (session : AuthoritySession Port) : Authority Port :=
  let ports := session.ports.filter (· ≠ port)
  { state with
    sessions := Function.update state.sessions sessionId
      (if ports.isEmpty then none else some { session with ports := ports })
    portSessions := Function.update state.portSessions port none
    portSeen := state.portSeen.filter (·.1 ≠ port) }

def sessionOf : Option (String × AuthoritySession Port) :=
  (state.portSessions port).bind fun sessionId =>
    (state.sessions sessionId).map fun session => (sessionId, session)

def expire : Authority Port :=
  match state.sessionOf port with
  | some (sessionId, session) => state.disconnect port sessionId session
  | none =>
    { state with
      portSessions := Function.update state.portSessions port none
      portSeen := state.portSeen.filter (·.1 ≠ port) }

def pruneExpiredPorts (except : Port) (now : Int) : Authority Port :=
  state.portSeen.foldl (fun state entry =>
    if entry.1 = except ∨ now - portLease ≤ entry.2 then state else state.expire entry.1) state

def broadcast (session : AuthoritySession Port) (message : WorkerResponse) (except : Port) :
    List (Port × WorkerResponse) :=
  (session.ports.filter (· ≠ except)).map fun port => (port, message)

/-- What handling a request comes to: the state, the events, and the answer or an
exception. -/
structure Handled (Port : Type) where
  state : Authority Port
  events : List (Port × WorkerResponse)
  answer : Except String WorkerAnswer

def attach (now : Int) (sessionId : String) (session : AuthoritySession Port) : Handled Port :=
  let session := { session with
    ports := if port ∈ session.ports then session.ports else session.ports ++ [port] }
  let joined : Authority Port :=
    { state.setSession sessionId session with
      portSessions := Function.update state.portSessions port (some sessionId) }
  ⟨joined.seenAt port now, [], .ok (.opened sessionId session.revision session.document)⟩

def leaveOther (sessionId : String) : Authority Port :=
  match state.sessionOf port with
  | some (previousId, previous) =>
    if previousId ≠ sessionId then state.disconnect port previousId previous else state
  | none => state

/-- `open`: another session is left first, and a new session starts from the document that
comes with the request. -/
def openSession (now : Int) (sessionId document : Option Json) : Handled Port :=
  match sessionId with
  | some (.str sessionId) =>
    if sessionId = "" then ⟨state, [], .error "invalid session id"⟩
    else
      let state := state.leaveOther port sessionId
      match state.sessions sessionId with
      | some session => state.attach port now sessionId session
      | none =>
        match document.bind gate.loadDocument with
        | none => ⟨state, [], .error "initial document failed to load"⟩
        | some loaded =>
          { state with created := state.created + 1 }.attach port now sessionId
            ⟨loaded, 0, [], [], [], loaded, state.created⟩
  | _ => ⟨state, [], .error "invalid session id"⟩

def write (sessionId : String) (outcome : AuthoritySession Port × WorkerAnswer) : Handled Port :=
  ⟨state.setSession sessionId outcome.1,
    match outcome.2 with
    | .accepted op false => broadcast outcome.1 (.op op) port
    | _ => [],
    .ok outcome.2⟩

/-- A request that carries a posted operation. -/
def withOp (sessionId : String) (op : Option Json)
    (post : PostedOp → AuthoritySession Port × WorkerAnswer) : Handled Port :=
  match PostedOp.read op with
  | .error message => ⟨state, [], .error message⟩
  | .ok op => state.write port sessionId (post op)

/-- `dispatch` on a port that is open. -/
def serve (now : Int) (sessionId : String) (session : AuthoritySession Port) :
    WorkerRequest → Handled Port
  | .opening id document => state.openSession gate port now id document
  | .postOp op => state.withOp port sessionId op (session.postOp gate now)
  | .replaceAuthoritative op document =>
    state.withOp port sessionId op (session.replaceAuthoritative gate now · document)
  | .adoptExclusive op document =>
    if session.ports.length ≠ 1 then ⟨state, [], .ok .conflict⟩
    else state.withOp port sessionId op (session.replaceAuthoritative gate now · document)
  | .fetchSnapshot => ⟨state, [], .ok (.snapshot session.revision session.document)⟩
  | .fetchOps after =>
    match validRevision? after with
    | none => ⟨state, [], .error "invalid revision"⟩
    | some after => ⟨state, [], .ok (.ops (session.ops.filter (after < ·.revision)))⟩
  | .putSnapshot revision document => ⟨state, [], .ok (session.putSnapshot gate revision document)⟩
  | .presence actorId payload =>
    match actorId with
    | some (.str actorId) =>
      if isValidActorId actorId then
        ⟨state, broadcast session (.presence actorId payload) port, .ok .nothing⟩
      else ⟨state, [], .error "invalid actor id"⟩
    | _ => ⟨state, [], .error "invalid actor id"⟩
  | .heartbeat | .unknown => ⟨state, [], .ok .nothing⟩
  | .closing => ⟨state.disconnect port sessionId session, [], .ok .nothing⟩

def dispatch (now : Int) (request : WorkerRequest) : Handled Port :=
  match request with
  | .opening id document => state.openSession gate port now id document
  | _ =>
    match state.sessionOf port with
    | none => ⟨state, [], .error "connection is not open"⟩
    | some (sessionId, session) => state.serve gate port now sessionId session request

/-- A message at a port and the time it is received. -/
structure Arrival (Port : Type) where
  port : Port
  now : Int
  message : WorkerMessage

def answerOf (id : Nat) : Except String WorkerAnswer → WorkerResponse
  | .ok answer => .response id answer
  | .error message => .error id message

/-- `receive`: the new state and the messages sent, in order. -/
def receive (arrival : Arrival Port) : Authority Port × List (Port × WorkerResponse) :=
  let state := (state.seenAt arrival.port arrival.now).pruneExpiredPorts arrival.port arrival.now
  match arrival.message with
  | .malformed id => (state, [(arrival.port, .error (id.getD 0) "invalid request")])
  | .request id request =>
    let handled := state.dispatch gate arrival.port arrival.now request
    (handled.state, handled.events ++ [(arrival.port, answerOf id handled.answer)])

/-- A run: the messages are received one after another. -/
def run : Authority Port → List (Arrival Port) → Authority Port × List (Port × WorkerResponse)
  | state, [] => (state, [])
  | state, arrival :: rest =>
    let (next, sent) := state.receive gate arrival
    let (final, later) := run next rest
    (final, sent ++ later)

end Authority

end Dinkster.Collab
