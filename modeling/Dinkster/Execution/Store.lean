import Dinkster.Execution.Transition

/-!
# The execution store

The store maps the keys of executions to their states, in the order in which the entries appeared.
Beside the map it keeps which entries are thought lost, which ones no run start has vouched for,
which ones are pinned, and which keys were evicted of late.
-/

namespace Dinkster.Execution

open Library

/-- `Set.add`. -/
def addKey (keys : List String) (key : String) : List String :=
  if key ∈ keys then keys else keys ++ [key]

/-- `Set.delete`. -/
def dropKey (keys : List String) (key : String) : List String :=
  keys.filter (· ≠ key)

variable {keys : List String}

@[simp] theorem mem_addKey {key other : String} :
    other ∈ addKey keys key ↔ other ∈ keys ∨ other = key := by
  unfold addKey
  split
  · rename_i known
    exact ⟨.inl, fun listed => listed.elim id fun same => same ▸ known⟩
  · rw [List.mem_append, List.mem_singleton]

@[simp] theorem mem_dropKey {key other : String} :
    other ∈ dropKey keys key ↔ other ∈ keys ∧ other ≠ key := by
  unfold dropKey
  rw [List.mem_filter, decide_eq_true_eq]

@[irreducible] def executionEntryCap : Nat := 200

theorem executionEntryCap_pos : 0 < executionEntryCap := by
  unfold executionEntryCap
  exact Nat.zero_lt_succ 199

@[irreducible] def terminalPreviewByteBudget : Nat := 64 * 1024 * 1024

structure ExecutionStore where
  map : Table ExecutionState
  provisionallyLost : List String
  retained : Table Nat
  recentlyEvicted : List String
  unconfirmed : List String
  queueRemaining : Table Rat

namespace ExecutionStore

def empty : ExecutionStore := ⟨[], [], [], [], [], []⟩

/-- The entries, in the order of the map. -/
def states (store : ExecutionStore) : List ExecutionState :=
  store.map.map Prod.snd

def put (store : ExecutionStore) (state : ExecutionState) : ExecutionStore :=
  { store with map := store.map.set state.key state }

def isAuthoritativeTerminal (store : ExecutionStore) (state : ExecutionState) : Bool :=
  state.status.isTerminal && state.key ∉ store.provisionallyLost

/-- Whether the previews of an entry count toward the budget. -/
def isBudgeted (store : ExecutionStore) (state : ExecutionState) : Bool :=
  state.status.isTerminal || state.key ∈ store.unconfirmed

/-- Whether an entry holds previews at all. -/
def hasPreviews (state : ExecutionState) : Bool :=
  state.lastPreview.isSome || state.previews.entries ≠ [] || state.previewRings.isSome

/-- Budgeted entries are kept from the newest on. -/
def newerFirst (state other : ExecutionState) : Prop :=
  other.endedAt.getD other.queuedAt ≤ state.endedAt.getD state.queuedAt

instance : DecidableRel newerFirst :=
  fun state other => inferInstanceAs
    (Decidable (other.endedAt.getD other.queuedAt ≤ state.endedAt.getD state.queuedAt))

/-- The entries of a connection whose previews count, newest first. -/
def budgeted (store : ExecutionStore) (connection : String) : List ExecutionState :=
  (store.states.filter fun state =>
    state.ref.connection = connection && store.isBudgeted state &&
      hasPreviews state).insertionSort newerFirst

/-- The loop of `enforcePreviewBudget`, behind the newest entry. -/
def stripOlder (map : Table ExecutionState) : Nat → List ExecutionState → Table ExecutionState
  | _, [] => map
  | total, state :: rest =>
    let total := total + previewBytesOf state
    if total ≤ terminalPreviewByteBudget then stripOlder map total rest
    else stripOlder (map.set state.key (stripPreviewFrames state)) total rest

def enforcePreviewBudget (store : ExecutionStore) (connection : String) : ExecutionStore :=
  match store.budgeted connection with
  | [] => store
  | newest :: older =>
    { store with map := stripOlder store.map (previewBytesOf newest) older }

/-- Whether an entry may be evicted. -/
def isEvictable (store : ExecutionStore) (state : ExecutionState) : Bool :=
  (store.isAuthoritativeTerminal state || state.key ∈ store.unconfirmed) &&
    (store.retained.get state.key).isNone

/-- Evictable entries go from the oldest on. -/
def olderFirst (state other : ExecutionState) : Prop :=
  state.queuedAt ≤ other.queuedAt

instance : DecidableRel olderFirst :=
  fun state other => inferInstanceAs (Decidable (state.queuedAt ≤ other.queuedAt))

def tombstone (recentlyEvicted : List String) (key : String) : List String :=
  let added := addKey recentlyEvicted key
  if added.length ≤ executionEntryCap * 2 then added else added.tail

/-- What `evictExecutionEntries` does with an entry that goes. -/
def evict (store : ExecutionStore) (state : ExecutionState) : ExecutionStore :=
  { store with
    map := store.map.erase state.key
    unconfirmed := dropKey store.unconfirmed state.key
    provisionallyLost := dropKey store.provisionallyLost state.key
    recentlyEvicted := tombstone store.recentlyEvicted state.key }

def entriesOf (store : ExecutionStore) (connection : String) : List ExecutionState :=
  store.states.filter fun state => state.ref.connection = connection

/-- The entries that `evictExecutionEntries` lets go. -/
def evicted (store : ExecutionStore) (connection : String) : List ExecutionState :=
  let entries := store.entriesOf connection
  ((entries.filter store.isEvictable).insertionSort olderFirst).take
    (entries.length - executionEntryCap)

def evictExecutionEntries (store : ExecutionStore) (connection : String) : ExecutionStore :=
  (store.evicted connection).foldl evict store

def register (store : ExecutionStore) (ref : ExecutionRef) (artifact : CompileArtifact)
    (now : Rat) (jobRef sourceDocument : Option String) : ExecutionStore :=
  let key := executionKey ref
  let store := { store with
    recentlyEvicted := dropKey store.recentlyEvicted key
    unconfirmed := dropKey store.unconfirmed key }
  match store.map.get key with
  | some existing =>
    store.put { existing with
      artifact := some artifact
      jobRef := jobRef.or existing.jobRef
      sourceDocument := sourceDocument.or existing.sourceDocument }
  | none =>
    let store := { store with provisionallyLost := dropKey store.provisionallyLost key }
    let fresh := { ExecutionState.created ref now with
      artifact := some artifact, jobRef, sourceDocument }
    (store.put fresh).evictExecutionEntries ref.connection

/-- What `restoreCompleted` is given. -/
structure RestoredRun where
  ref : ExecutionRef
  artifact : CompileArtifact
  nodes : Record NodeProgress
  outputs : Record (Record Format.Json)
  artifacts : List Format.Json
  submittedBy : Option Format.Json
  jobRef : String
  sourceDocument : String
  queuedAt : Rat
  endedAt : Rat

def RestoredRun.state (run : RestoredRun) : ExecutionState :=
  { ExecutionState.created run.ref run.queuedAt with
    artifact := some run.artifact
    status := .completed
    nodes := run.nodes
    outputs := run.outputs
    artifacts := run.artifacts
    artifactsHydrated := true
    submittedBy := run.submittedBy
    jobRef := some run.jobRef
    sourceDocument := some run.sourceDocument
    endedAt := some run.endedAt }

def restoreCompleted (store : ExecutionStore) (run : RestoredRun) : ExecutionStore :=
  let key := executionKey run.ref
  if (store.map.get key).isSome then store
  else
    ({ store with
      recentlyEvicted := dropKey store.recentlyEvicted key
      unconfirmed := dropKey store.unconfirmed key
      provisionallyLost := dropKey store.provisionallyLost key }.put
        run.state).evictExecutionEntries run.ref.connection

def applyToState (store : ExecutionStore) (event : ExecutionEvent) (state : ExecutionState) :
    ExecutionStore :=
  match transition (state.key ∈ store.provisionallyLost) (state.key ∈ store.unconfirmed) event
      state with
  | none => store
  | some change =>
    let store := { store with
      provisionallyLost :=
        if change.clears then dropKey store.provisionallyLost state.key
        else store.provisionallyLost }
    let store := store.put change.next
    match change.after with
    | .nothing => store
    | .budget => store.enforcePreviewBudget state.ref.connection
    | .terminal =>
      (store.enforcePreviewBudget event.execution.connection).evictExecutionEntries
        event.execution.connection

/-- `apply`, for an event of an execution. -/
def applyEvent (store : ExecutionStore) (event : ExecutionEvent) : ExecutionStore :=
  let key := executionKey event.execution
  let known := store.map.get key
  if !event.starts && known.isNone && key ∈ store.recentlyEvicted then store
  else
    let store :=
      if event.starts then
        { store with
          recentlyEvicted := dropKey store.recentlyEvicted key
          unconfirmed := dropKey store.unconfirmed key }
      else if known.isNone then { store with unconfirmed := addKey store.unconfirmed key }
      else store
    match known with
    | some state => store.applyToState event state
    | none =>
      let created := ExecutionState.created event.execution event.timestamp
      ((store.put created).applyToState event created).evictExecutionEntries
        event.execution.connection

/-- The part of a `NormalizedEvent` that is not the event of an execution. -/
inductive OtherEvent where
  | control
  | status (connection : String) (queueRemaining : Option Rat)

/-- `apply`, for any other event. -/
def applyOther (store : ExecutionStore) : OtherEvent → ExecutionStore
  | .control | .status _ none => store
  | .status connection (some remaining) =>
    { store with queueRemaining := store.queueRemaining.set connection remaining }

/-- `hydrateOutputs`: outputs that arrived live win. -/
def hydrateOutputs (store : ExecutionStore) (ref : ExecutionRef)
    (outputs : Record (Record Format.Json)) : ExecutionStore :=
  match store.map.get (executionKey ref) with
  | none => store
  | some state =>
    store.put { state with
      outputs := outputs.entries.foldl
        (fun merged (nodeId, output) =>
          merged.write nodeId (some (spread output ((merged.get nodeId).getD Record.empty))))
        state.outputs }

def hydrateArtifacts (store : ExecutionStore) (ref : ExecutionRef)
    (artifacts : List Format.Json) : ExecutionStore :=
  match store.map.get (executionKey ref) with
  | none => store
  | some state => store.put { state with artifacts, artifactsHydrated := true }

def hydrateSubmittedBy (store : ExecutionStore) (ref : ExecutionRef)
    (submittedBy : Format.Json) : ExecutionStore :=
  match store.map.get (executionKey ref) with
  | none => store
  | some state => store.put { state with submittedBy := some submittedBy }

/-- The warning of `markLost`. -/
def lostDiagnostic (ref : ExecutionRef) : ExecutionDiagnostic where
  severity := .warning
  origin := .runtime
  code := lostCode
  message := "execution is gone from the server queue and history (server restarted?); its results are unknown"
  execution := ref
  occurrence := none
  runtimeId := none
  runtime := none

def markLost (store : ExecutionStore) (ref : ExecutionRef) (now : Rat) : ExecutionStore :=
  match store.map.get (executionKey ref) with
  | none => store
  | some state =>
    if state.status.isTerminal then store
    else
      ({ store with provisionallyLost := addKey store.provisionallyLost state.key }.put
        { ended state .interrupted now with
          errors := state.errors ++ [lostDiagnostic ref] }).enforcePreviewBudget ref.connection

def retain (store : ExecutionStore) (ref : ExecutionRef) : ExecutionStore :=
  let key := executionKey ref
  { store with retained := store.retained.set key ((store.retained.get key).getD 0 + 1) }

def release (store : ExecutionStore) (ref : ExecutionRef) : ExecutionStore :=
  let key := executionKey ref
  match store.retained.get key with
  | none => store
  | some count =>
    if 1 < count then { store with retained := store.retained.set key (count - 1) }
    else
      { store with retained := store.retained.erase key }.evictExecutionEntries ref.connection

inductive Call where
  | register (ref : ExecutionRef) (artifact : CompileArtifact) (now : Rat)
      (jobRef sourceDocument : Option String)
  | restoreCompleted (run : RestoredRun)
  | apply (event : ExecutionEvent)
  | applyOther (event : OtherEvent)
  | hydrateOutputs (ref : ExecutionRef) (outputs : Record (Record Format.Json))
  | hydrateArtifacts (ref : ExecutionRef) (artifacts : List Format.Json)
  | hydrateSubmittedBy (ref : ExecutionRef) (submittedBy : Format.Json)
  | markLost (ref : ExecutionRef) (now : Rat)
  | retain (ref : ExecutionRef)
  | release (ref : ExecutionRef)

def step (store : ExecutionStore) : Call → ExecutionStore
  | .register ref artifact now jobRef sourceDocument =>
    store.register ref artifact now jobRef sourceDocument
  | .restoreCompleted run => store.restoreCompleted run
  | .apply event => store.applyEvent event
  | .applyOther event => store.applyOther event
  | .hydrateOutputs ref outputs => store.hydrateOutputs ref outputs
  | .hydrateArtifacts ref artifacts => store.hydrateArtifacts ref artifacts
  | .hydrateSubmittedBy ref submittedBy => store.hydrateSubmittedBy ref submittedBy
  | .markLost ref now => store.markLost ref now
  | .retain ref => store.retain ref
  | .release ref => store.release ref

def run (store : ExecutionStore) (calls : List Call) : ExecutionStore :=
  calls.foldl step store

end ExecutionStore

end Dinkster.Execution
