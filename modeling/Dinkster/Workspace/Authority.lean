import Dinkster.Workspace.Tabs

/-!
# The tab authority of a shared worker

Every window of a browser connects to one worker through a port.  The worker keeps the list of
tabs that all of them show.  A window opens the list with the one it last knew, and brings it
back where the worker has none or an older one.  A port leaves when it says so, or when it was
silent for longer than its lease; with the last port the list is forgotten.
-/

namespace Dinkster.Workspace

open Library Format

/-- `WorkspaceTabSnapshot`. -/
structure Snapshot (Document : Type) where
  revision : Nat
  tabs : List (Tab Document)
  active : String
  operationWatermarks : Table Int

/-- `WorkspaceWorkerResponse`. -/
inductive Response (Document : Type) where
  | response (id : Nat) (value : Option (Snapshot Document))
  | error (id : Int) (failure : Failure)
  | snapshot (snapshot : Snapshot Document)

/-- What is read of a mutation before it is applied. -/
structure Operation where
  opId : String
  actorId : String
  sequence : Nat
  body : Json
  deriving DecidableEq

/-- The checks of a mutation's id and of its place in an order. -/
def decodeOperation (mutation : Option Json) : Except Failure Operation := do
  let opId ← readOwn "opId" mutation
  let body := mutation.getD .null
  match validId? opId with
  | none => .error (.error "invalid workspace operation id")
  | some opId =>
    match validId? (own "actorId" body), safeNatural? (own "sequence" body),
        safeNatural? (own "baseRevision" body) with
    | some actorId, some sequence, some _ => .ok ⟨opId, actorId, sequence, body⟩
    | _, _, _ => .error (.error "invalid workspace operation order")

/-- `Object.entries`, which has nothing to read it from where a value is missing.  The
characters of a text are no numbers, so they are left out. -/
def entriesOf : Option Json → Except Failure (List (String × Json))
  | none | some .null => .error .typeError
  | some (.obj fields) => .ok fields
  | some (.arr items) => .ok (items.mapIdx fun index item => (toString index, item))
  | some _ => .ok []

def watermarksOf (entries : List (String × Json)) : Table Int :=
  entries.foldl (fun watermarks entry =>
    match safeNatural? (some entry.2) with
    | some sequence =>
      if validId entry.1 then watermarks.set entry.1 sequence else watermarks
    | none => watermarks) []

/-- `SharedWorkerTabAuthority`. -/
structure Authority (Port Document : Type) where
  tabs : Option (List (Tab Document))
  active : String
  revision : Nat
  ports : List Port
  seen : List String
  operationWatermarks : Table Int
  lastSeen : List (Port × Int)

def portLeaseMs : Int := 90000

/-- `revision += 1`, on a double: beyond the safe integers nothing is added. -/
def nextRevision (revision : Nat) : Nat :=
  if revision < 2 ^ 53 then revision + 1 else revision

namespace Authority

variable {Port Document : Type} [DecidableEq Port]

def empty : Authority Port Document := ⟨none, "", 0, [], [], [], []⟩

variable (state : Authority Port Document)

def snapshot : Snapshot Document :=
  ⟨state.revision, state.tabs.getD [], state.active, state.operationWatermarks⟩

/-- `lastSeen.set`. -/
def seenAt (port : Port) (now : Int) : Authority Port Document :=
  { state with
    lastSeen :=
      if state.lastSeen.any (·.1 = port) then
        state.lastSeen.map fun entry => if entry.1 = port then (port, now) else entry
      else state.lastSeen ++ [(port, now)] }

/-- `disconnect`: the tabs are forgotten with the last port. -/
def disconnect (port : Port) : Authority Port Document :=
  let ports := state.ports.filter (· ≠ port)
  let lastSeen := state.lastSeen.filter (·.1 ≠ port)
  if ports = [] then { empty with lastSeen := lastSeen }
  else { state with ports := ports, lastSeen := lastSeen }

def expired (except : Port) (now : Int) : List Port :=
  (state.lastSeen.filter fun entry => entry.1 ≠ except ∧ entry.2 < now - portLeaseMs).map Prod.fst

def pruneExpired (except : Port) (now : Int) : Authority Port Document :=
  (state.expired except now).foldl disconnect state

/-- What every message does to the leases before it is looked at. -/
def refresh (port : Port) (now : Int) : Authority Port Document :=
  (state.seenAt port now).pruneExpired port now

def peers (port : Port) : List (Port × Response Document) :=
  (state.ports.filter (· ≠ port)).map fun peer => (peer, .snapshot state.snapshot)

/-- What handling a request comes to: the state, the messages to other ports, and the value
or what is thrown. -/
structure Handled (Port Document : Type) where
  state : Authority Port Document
  events : List (Port × Response Document)
  value : Except Failure (Option (Snapshot Document))

/-- `ports.add`, and what the port is answered. -/
def join (port : Port) (replaced : Bool) : Handled Port Document :=
  let joined : Authority Port Document :=
    { state with ports := if port ∈ state.ports then state.ports else state.ports ++ [port] }
  ⟨joined, if replaced then joined.peers port else [], .ok (some joined.snapshot)⟩

/-- Whether a request to open replaces what is kept. -/
def outdated (revision : Nat) : Bool :=
  state.tabs.isNone || decide (state.revision < revision)

/-- The tabs that come with a request to open. -/
def renew (tabs : List (Tab Document)) (asked : Option Json) (revision : Nat) :
    Authority Port Document :=
  { state with
    tabs := some tabs
    active :=
      match asked with
      | some (.str id) =>
        if id ∈ tabs.map Tab.id then id else (tabs.head?.map Tab.id).getD ""
      | _ => (tabs.head?.map Tab.id).getD ""
    revision := revision
    seen := []
    operationWatermarks := [] }

variable (load : Option Json → Option Document) (lineage : Document → String)

/-- A request to open.  The tabs are taken before the watermarks are read, so a request
without watermarks leaves its tabs behind though it is answered with an error. -/
def openTabs (port : Port) (request : Json) : Handled Port Document :=
  match safeNatural? (own "revision" request) with
  | none => ⟨state, [], .error (.error "invalid workspace revision")⟩
  | some revision =>
    if state.outdated revision then
      match decodeUnique load lineage (own "tabs" request) with
      | .error failure => ⟨state, [], .error failure⟩
      | .ok tabs =>
        let renewed := state.renew tabs (own "active" request) revision
        match entriesOf (own "operationWatermarks" request) with
        | .error failure => ⟨renewed, [], .error failure⟩
        | .ok entries =>
          { renewed with operationWatermarks := watermarksOf entries }.join port
            state.tabs.isSome
    else state.join port false

def freshOperation (mutation : Option Json) : Except Failure (Option Operation) :=
  match decodeOperation mutation with
  | .error failure => .error failure
  | .ok operation =>
    if (operation.sequence : Int) ≤ (state.operationWatermarks.get operation.actorId).getD (-1) then
      .ok none
    else if operation.opId ∈ state.seen then .ok none
    else .ok (some operation)

def applied (operation : Operation) (tabs : List (Tab Document)) (active : String) :
    Authority Port Document :=
  { state with
    tabs := some tabs
    active := active
    revision := nextRevision state.revision
    seen := state.seen ++ [operation.opId]
    operationWatermarks := state.operationWatermarks.set operation.actorId operation.sequence }

def mutate (port : Port) (tabs : List (Tab Document)) (mutation : Option Json) :
    Handled Port Document :=
  match state.freshOperation mutation with
  | .error failure => ⟨state, [], .error failure⟩
  | .ok none => ⟨state, [], .ok (some state.snapshot)⟩
  | .ok (some operation) =>
    match applyMutation load lineage tabs state.active operation.body with
    | .error failure => ⟨state, [], .error failure⟩
    | .ok (tabs, active) =>
      let next := state.applied operation tabs active
      ⟨next, next.peers port, .ok (some next.snapshot)⟩

/-- What a request asks for: a kind that is not known is taken for a mutation. -/
inductive Kind where
  | opening
  | heartbeat
  | closing
  | mutation
  deriving DecidableEq

def kindOf (request : Json) : Kind :=
  match own "kind" request with
  | some (.str kind) =>
    if kind = "open" then .opening
    else if kind = "heartbeat" then .heartbeat
    else if kind = "close" then .closing
    else .mutation
  | _ => .mutation

def tabsAt (port : Port) : Option (List (Tab Document)) :=
  if port ∈ state.ports then state.tabs else none

def dispatch (port : Port) (request : Json) : Handled Port Document :=
  match kindOf request with
  | .opening => state.openTabs load lineage port request
  | kind =>
    match state.tabsAt port with
    | none => ⟨state, [], .error (.error "workspace connection is not open")⟩
    | some tabs =>
      match kind with
      | .closing => ⟨state.disconnect port, [], .ok none⟩
      | .mutation => state.mutate load lineage port tabs (own "mutation" request)
      | _ => ⟨state, [], .ok none⟩

/-- A message at a port and the time it is received. -/
structure Arrival (Port : Type) where
  port : Port
  now : Int
  message : Json

/-- `receive`: the new state and the messages sent, in order. -/
def receive (arrival : Arrival Port) : Authority Port Document × List (Port × Response Document) :=
  let state := state.refresh arrival.port arrival.now
  let thrown := fun failure =>
    (arrival.port, Response.error ((safeInteger? (own "id" arrival.message)).getD 0) failure)
  match safeNatural? (own "id" arrival.message) with
  | none => (state, [thrown (.error "invalid workspace request")])
  | some id =>
    let handled := state.dispatch load lineage arrival.port arrival.message
    match handled.value with
    | .ok value => (handled.state, handled.events ++ [(arrival.port, .response id value)])
    | .error failure => (handled.state, handled.events ++ [thrown failure])

/-- The state after messages were received one after another. -/
def run (arrivals : List (Arrival Port)) : Authority Port Document :=
  arrivals.foldl (fun state arrival => (state.receive load lineage arrival).1) state

end Authority

end Dinkster.Workspace
