import Dinkster.Commands.Contract
import Dinkster.Format.Ids
import Dinkster.Library.Record

/-!
# Execution states

What a client knows of one execution: its status, the progress of its nodes, what they put out,
previews of it, logs and errors.  Objects keyed by an id are records.  A payload is told from
another by its identity, and is measured in bytes.
-/

namespace Dinkster.Execution

open Library Format Commands

structure ExecutionRef where
  connection : String
  prompt : String
  deriving DecidableEq

def executionKey (ref : ExecutionRef) : String :=
  String.ofList (escapeSeg ref.connection ++ '.' :: escapeSeg ref.prompt)

inductive NodeRunState where
  | pending
  | running
  | cached
  | done
  | error
  | skipped
  deriving DecidableEq

/-- `TERMINAL_NODE_STATES`. -/
def NodeRunState.isTerminal : NodeRunState → Bool
  | .done | .error | .cached | .skipped => true
  | .pending | .running => false

structure NodeOutputSummary where
  typeId : String
  length : Option Rat
  value : Option Json

structure NodeProgress where
  state : NodeRunState
  parentRuntimeNodeId : Option String
  displayRuntimeNodeId : Option String
  executionArm : Option String
  provider : Option String
  pack : Option String
  worker : Option String
  value : Option Rat
  max : Option Rat
  skipOrigin : Option String
  skipReason : Option String
  outputs : Option (Record NodeOutputSummary)

def NodeProgress.bare (state : NodeRunState) : NodeProgress :=
  ⟨state, none, none, none, none, none, none, none, none, none, none, none⟩

def preserveExecutionDetails (progress : NodeProgress) (previous : Option NodeProgress) :
    NodeProgress :=
  match previous with
  | none => progress
  | some previous =>
    { progress with
      executionArm := progress.executionArm.or previous.executionArm
      worker := progress.worker.or previous.worker
      provider := progress.provider.or previous.provider
      pack := progress.pack.or previous.pack
      parentRuntimeNodeId := progress.parentRuntimeNodeId.or previous.parentRuntimeNodeId
      displayRuntimeNodeId := progress.displayRuntimeNodeId.or previous.displayRuntimeNodeId }

/-- `{ ...fallback, ...record }`. -/
def spread {Value : Type} (fallback record : Record Value) : Record Value :=
  record.entries.foldl (fun out (name, value) => out.write name (some value)) fallback

/-- `{ ...snapshot.outputs, ...live.outputs }`, where one of them is there. -/
def mergeOutputs (snapshot live : Option (Record NodeOutputSummary)) :
    Option (Record NodeOutputSummary) :=
  match snapshot, live with
  | none, none => none
  | _, _ => some (spread (snapshot.getD Record.empty) (live.getD Record.empty))

def NodeProgress.enrich (live snapshot : NodeProgress) : NodeProgress where
  state := live.state
  parentRuntimeNodeId := live.parentRuntimeNodeId.or snapshot.parentRuntimeNodeId
  displayRuntimeNodeId := live.displayRuntimeNodeId.or snapshot.displayRuntimeNodeId
  executionArm := live.executionArm.or snapshot.executionArm
  provider := live.provider.or snapshot.provider
  pack := live.pack.or snapshot.pack
  worker := live.worker.or snapshot.worker
  value := live.value.or snapshot.value
  max := live.max.or snapshot.max
  skipOrigin := live.skipOrigin.or snapshot.skipOrigin
  skipReason := live.skipReason.or snapshot.skipReason
  outputs := mergeOutputs snapshot.outputs live.outputs

/-- What `mergeSnapshotNodes` does with one node of a snapshot. -/
def mergeSnapshotNode (live : Option NodeProgress) (progress : NodeProgress) : NodeProgress :=
  match live with
  | none => progress
  | some live =>
    if !live.state.isTerminal && progress.state.isTerminal then
      preserveExecutionDetails progress (some live)
    else if live.state.isTerminal && progress.state.isTerminal && live.state = progress.state then
      live.enrich progress
    else live

variable (current incoming : Record NodeProgress)

def mergeSnapshotNodes : Record NodeProgress :=
  incoming.entries.foldl
    (fun out (nodeId, progress) =>
      out.write nodeId (some (mergeSnapshotNode (out.get nodeId) progress)))
    current

def mergeLiveNodes : Record NodeProgress :=
  incoming.entries.foldl
    (fun out (nodeId, progress) =>
      out.write nodeId (some (preserveExecutionDetails progress (current.get nodeId))))
    current

structure NodeBlockedReason where
  origin : String
  message : String
  displayRuntimeNodeId : Option String

structure NodeExpansion where
  children : List String
  childCount : Rat
  displayRuntimeNodeId : Option String

/-- `RegionProgress.kind`. -/
inductive RegionKind where
  | map
  | fold
  | while_
  deriving DecidableEq

/-- `RegionProgress.binding`. -/
inductive RegionBinding where
  | zip
  | cross
  | broadcast
  deriving DecidableEq

/-- `RegionProgress`; whether an iteration is completed, by its printed index. -/
structure RegionProgress where
  kind : RegionKind
  binding : RegionBinding
  iterations : Option Rat
  finishedIterations : Option Rat
  iterationStates : Record Bool

/-- The payload of a preview: which object it is, and how many bytes it holds. -/
structure PreviewPayload where
  identity : Nat
  bytes : Nat
  deriving DecidableEq

structure PreviewData where
  channel : String
  payload : PreviewPayload
  runtimeNodeId : Option String
  timestamp : Rat
  stream : Option String
  frameIndex : Option Rat
  frameCount : Option Rat
  fps : Option Rat

/-- `PreviewRing`, with its frames by their printed slots. -/
structure PreviewRing where
  frameCount : Rat
  fps : Option Rat
  frames : Record PreviewData

/-- `ExecutionLogEntry.level`. -/
inductive LogLevel where
  | info
  | warning
  deriving DecidableEq

structure ExecutionLogEntry where
  level : LogLevel
  message : String
  timestamp : Rat
  runtimeNodeId : Option String
  origin : Option String
  logger : Option String
  pythonLevel : Option String
  seq : Rat
  deriving DecidableEq

/-- `ValueDiagnostic`.  Its key lists everything that it says. -/
inductive ValueDiagnostic where
  | alphaDropped (nodeId outputId : String) (inputs : String ⊕ List String)
  | maskPolarityMismatch (nodeId inputId expected actual : String)
  deriving DecidableEq

/-- `RuntimeErrorDetail`, as far as the store reads it. -/
structure RuntimeErrorDetail where
  exceptionType : String
  exceptionMessage : String
  traceback : List String

structure ExecutionDiagnostic extends Diagnostic where
  execution : ExecutionRef
  occurrence : Option OccurrenceRef
  runtimeId : Option String
  runtime : Option RuntimeErrorDetail

/-- The code of the warning that an execution is gone. -/
def lostCode : String := "execution.lost"

def withoutLostDiagnostics (errors : List ExecutionDiagnostic) : List ExecutionDiagnostic :=
  errors.filter (·.code ≠ lostCode)

inductive ExecutionStatus where
  | queued
  | running
  | completed
  | error
  | interrupted
  deriving DecidableEq

/-- `isTerminalStatus`. -/
def ExecutionStatus.isTerminal : ExecutionStatus → Bool
  | .completed | .error | .interrupted => true
  | .queued | .running => false

/-- `CompileArtifact.provenance.toSource`: the occurrences that runtime ids stand for, which are
stored by their keys. -/
structure CompileArtifact where
  toSource : Record OccurrenceRef

structure ExecutionState where
  ref : ExecutionRef
  key : String
  artifact : Option CompileArtifact
  status : ExecutionStatus
  nodes : Record NodeProgress
  blockedNodes : Record NodeBlockedReason
  expandedNodes : Record NodeExpansion
  regions : Record RegionProgress
  outputs : Record (Record Json)
  artifacts : List Json
  artifactsHydrated : Bool
  previews : Record (Record PreviewData)
  previewRings : Option (Record (Record PreviewRing))
  activities : List Json
  valueDiagnostics : List ValueDiagnostic
  logs : List ExecutionLogEntry
  logsDropped : Nat
  lastPreview : Option PreviewData
  errors : List ExecutionDiagnostic
  submittedBy : Option Json
  jobRef : Option String
  sourceDocument : Option String
  queuedAt : Rat
  startedAt : Option Rat
  endedAt : Option Rat

/-- What `ensure` creates. -/
def ExecutionState.created (ref : ExecutionRef) (now : Rat) : ExecutionState where
  ref := ref
  key := executionKey ref
  artifact := none
  status := .queued
  nodes := Record.empty
  blockedNodes := Record.empty
  expandedNodes := Record.empty
  regions := Record.empty
  outputs := Record.empty
  artifacts := []
  artifactsHydrated := false
  previews := Record.empty
  previewRings := none
  activities := []
  valueDiagnostics := []
  logs := []
  logsDropped := 0
  lastPreview := none
  errors := []
  submittedBy := none
  jobRef := none
  sourceDocument := none
  queuedAt := now
  startedAt := none
  endedAt := none

variable (state : ExecutionState)

def dropPreviewRings : ExecutionState :=
  { state with previewRings := none }

def stripPreviewFrames : ExecutionState :=
  { state with lastPreview := none, previewRings := none, previews := Record.empty }

def recordValues {Value : Type} (record : Record Value) : List Value :=
  record.entries.map Prod.snd

def ExecutionState.frames (state : ExecutionState) : List PreviewData :=
  state.lastPreview.toList ++ (recordValues state.previews).flatMap recordValues ++
    ((recordValues (state.previewRings.getD Record.empty)).flatMap recordValues).flatMap
      fun ring => recordValues ring.frames

/-- `previewBytesOf`: a payload is counted once. -/
def previewBytesOf : Nat :=
  ((state.frames.map (·.payload)).eraseDups.map (·.bytes)).sum

end Dinkster.Execution
