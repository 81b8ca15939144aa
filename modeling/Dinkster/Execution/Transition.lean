import Dinkster.Execution.State

/-!
# What an event does to a state

An event either leaves the state of its execution alone, or puts another one.  With it, it may take
back the verdict that the execution is lost, and may ask for the budget of previews and the cap of
entries to be enforced.
-/

namespace Dinkster.Execution

open Library Format Commands

/-- What an `ExecutionEvent` says beside its execution and its time. -/
inductive EventBody where
  | nodeEvent
  | extensionEvent
  | started
  | regionExpanded (runtimeNodeId : String) (kind : RegionKind) (binding : RegionBinding)
      (iterations : Option Rat)
  | regionFinished (runtimeNodeId : String) (iterations : Rat)
  | regionIteration (runtimeNodeId : String) (iteration : Rat) (completed : Bool)
  | nodeStates (nodes : Record NodeProgress) (snapshot : Bool)
  | nodeBlocked (runtimeNodeId : String) (blocked : NodeBlockedReason)
  | nodeExpanded (runtimeNodeId : String) (expansion : NodeExpansion)
  | nodeOutput (runtimeNodeId : String) (output : Record Json)
  | preview (runtimeNodeId : Option String) (channel : String) (payload : PreviewPayload)
      (stream : Option String) (frameIndex frameCount fps : Option Rat)
  | activity (activity : Json)
  | valueDiagnostics (diagnostics : List ValueDiagnostic)
  | log (level : LogLevel) (message : String) (emittedAt : Option Rat) (seq : Rat)
      (runtimeNodeId origin logger pythonLevel : Option String)
  | error (runtimeNodeId : Option String) (detail : RuntimeErrorDetail)
  | interrupted
  | completed

structure ExecutionEvent where
  execution : ExecutionRef
  timestamp : Rat
  body : EventBody

def ExecutionEvent.starts (event : ExecutionEvent) : Bool :=
  match event.body with
  | .started => true
  | _ => false

@[irreducible] def executionLogCap : Nat := 2000

theorem executionLogCap_pos : 0 < executionLogCap := by
  unfold executionLogCap
  exact Nat.zero_lt_succ 1999

/-- The binary search of `logInsertionIndex`, between a position and one past another. -/
def searchLog (logs : List ExecutionLogEntry) (seq : Rat) : Nat → Nat → Nat → Option Nat
  | 0, low, _ => some low
  | fuel + 1, low, high =>
    if low < high then
      let mid := (low + (high - 1)) / 2
      match logs[mid]? with
      | none => some low
      | some entry =>
        if entry.seq = seq then none
        else if entry.seq < seq then searchLog logs seq fuel (mid + 1) high
        else searchLog logs seq fuel low mid
    else some low

/-- `logInsertionIndex`; nothing where a record with that number is retained. -/
def logInsertionIndex (logs : List ExecutionLogEntry) (seq : Rat) : Option Nat :=
  match logs.getLast? with
  | none => some 0
  | some last =>
    if last.seq < seq then some logs.length
    else searchLog logs seq logs.length 0 logs.length

variable (state : ExecutionState)

def insertLog (index : Nat) (entry : ExecutionLogEntry) : ExecutionState :=
  let inserted := state.logs.take index ++ entry :: state.logs.drop index
  let dropped := inserted.length - executionLogCap
  { state with logs := inserted.drop dropped, logsDropped := state.logsDropped + dropped }

@[irreducible] def activityLogCap : Nat := 200

@[irreducible] def valueDiagnosticCap : Nat := 200

/-- `slice(-count)`. -/
def lastOf {Item : Type} (count : Nat) (items : List Item) : List Item :=
  items.drop (items.length - count)

/-- What is enforced after a state is put. -/
inductive Aftermath where
  | nothing
  | budget
  | terminal
  deriving DecidableEq

/-- A state that is put, whether `provisionallyLost` lets go of its key, and what is enforced. -/
structure Change where
  next : ExecutionState
  clears : Bool
  after : Aftermath

def Change.put (next : ExecutionState) : Change := ⟨next, false, .nothing⟩

/-- What live news says of the status. -/
def ExecutionStatus.noticed (status : ExecutionStatus) : ExecutionStatus :=
  if status = .queued then .running else status

/-- The state of a run that was thought lost. -/
def revived : ExecutionState :=
  { state with
    status := .running
    endedAt := none
    errors := withoutLostDiagnostics state.errors }

def ended (status : ExecutionStatus) (timestamp : Rat) : ExecutionState :=
  { dropPreviewRings state with status, endedAt := some timestamp }

def retracted (lost : Bool) (errors : List ExecutionDiagnostic) : List ExecutionDiagnostic :=
  if lost then withoutLostDiagnostics errors else errors

/-- The diagnostic of an `error` event. -/
def runtimeDiagnostic (execution : ExecutionRef)
    (runtimeNodeId : Option String) (detail : RuntimeErrorDetail) : ExecutionDiagnostic where
  severity := .error
  origin := .runtime
  code := "runtime." ++ detail.exceptionType
  message := detail.exceptionMessage
  execution := execution
  occurrence := do
    let artifact ← state.artifact
    let nodeId ← runtimeNodeId
    artifact.toSource.get nodeId
  runtimeId := runtimeNodeId
  runtime := some detail

def placeFrame (terminal : Bool) (nodeId : String) (frame : PreviewData) : ExecutionState :=
  let streamKey := frame.stream.getD ""
  let previews := state.previews.write nodeId
    (some (((state.previews.get nodeId).getD Record.empty).write streamKey (some frame)))
  let rings := state.previewRings.getD Record.empty
  let nodeRings := (rings.get nodeId).getD Record.empty
  match frame.frameIndex, frame.frameCount, terminal with
  | some index, some count, false =>
    let kept := match nodeRings.get streamKey with
      | some prior => if prior.frameCount = count then prior.frames else Record.empty
      | none => Record.empty
    let ring : PreviewRing :=
      ⟨count, frame.fps, kept.write (numberText index) (some frame)⟩
    { state with
      previews
      previewRings := some (rings.write nodeId (some (nodeRings.write streamKey (some ring)))) }
  | _, _, _ =>
    if (nodeRings.get streamKey).isSome then
      let remaining := nodeRings.write streamKey none
      { state with
        previews
        previewRings := some (rings.write nodeId
          (if remaining.entries = [] then none else some remaining)) }
    else { state with previews }

/-- `applyToState`, for a state whose key is or is not in `provisionallyLost` and in
`unconfirmed`. -/
def transition (lost unconfirmed : Bool) (event : ExecutionEvent) (state : ExecutionState) :
    Option Change :=
  let authoritative := state.status.isTerminal && !lost
  match event.body with
  | .nodeEvent | .extensionEvent => none
  | .started =>
    if authoritative then none
    else if lost then
      some ⟨{ revived state with startedAt := some event.timestamp }, true, .nothing⟩
    else
      some ⟨{ state with status := .running, startedAt := some event.timestamp }, true, .nothing⟩
  | .regionExpanded runtimeNodeId kind binding iterations =>
    some (.put { state with
      status := state.status.noticed
      regions := state.regions.write runtimeNodeId
        (some ⟨kind, binding, iterations, none, Record.empty⟩) })
  | .regionFinished runtimeNodeId iterations =>
    (state.regions.get runtimeNodeId).map fun region =>
      .put { state with
        regions := state.regions.write runtimeNodeId
          (some { region with finishedIterations := some iterations }) }
  | .regionIteration runtimeNodeId iteration completed =>
    (state.regions.get runtimeNodeId).map fun region =>
      .put { state with
        regions := state.regions.write runtimeNodeId
          (some { region with
            iterationStates :=
              region.iterationStates.write (numberText iteration) (some completed) }) }
  | .nodeStates nodes snapshot =>
    let nodes :=
      if snapshot then mergeSnapshotNodes state.nodes nodes else mergeLiveNodes state.nodes nodes
    if lost then some ⟨{ revived state with nodes }, true, .nothing⟩
    else some ⟨{ state with status := state.status.noticed, nodes }, true, .nothing⟩
  | .nodeBlocked runtimeNodeId blocked =>
    some (.put { state with
      blockedNodes := state.blockedNodes.write runtimeNodeId (some blocked) })
  | .nodeExpanded runtimeNodeId expansion =>
    some (.put { state with
      expandedNodes := state.expandedNodes.write runtimeNodeId (some expansion) })
  | .nodeOutput runtimeNodeId output =>
    some (.put { state with
      outputs := state.outputs.write runtimeNodeId
        (some (spread ((state.outputs.get runtimeNodeId).getD Record.empty) output)) })
  | .preview runtimeNodeId channel payload stream frameIndex frameCount fps =>
    let terminal := state.status.isTerminal
    let after := if terminal || unconfirmed then .budget else .nothing
    -- An empty id is no id.
    let runtimeNodeId := runtimeNodeId.filter (· ≠ "")
    let frame : PreviewData :=
      { channel, payload, runtimeNodeId, timestamp := event.timestamp, stream, frameIndex,
        frameCount, fps }
    match runtimeNodeId with
    | none => some ⟨{ state with lastPreview := some frame }, false, after⟩
    | some nodeId => some ⟨placeFrame state terminal nodeId frame, false, after⟩
  | .activity activity =>
    some (.put { state with
      activities := lastOf activityLogCap (state.activities ++ [activity]) })
  | .valueDiagnostics diagnostics =>
    let all := diagnostics.foldl
      (fun all diagnostic => if diagnostic ∈ all then all else all ++ [diagnostic])
      state.valueDiagnostics
    if all.length = state.valueDiagnostics.length then none
    else some (.put { state with valueDiagnostics := lastOf valueDiagnosticCap all })
  | .log level message emittedAt seq runtimeNodeId origin logger pythonLevel =>
    match logInsertionIndex state.logs seq with
    | none => none
    | some index =>
      if index = 0 && executionLogCap ≤ state.logs.length then none
      else
        some (.put (insertLog state index
          { level, message, timestamp := emittedAt.getD event.timestamp, runtimeNodeId, origin,
            logger, pythonLevel, seq }))
  | .error runtimeNodeId detail =>
    if authoritative then none
    else
      let runtimeNodeId := runtimeNodeId.filter (· ≠ "")
      let nodes := match runtimeNodeId with
        | some nodeId =>
          state.nodes.write nodeId
            (some (preserveExecutionDetails (.bare .error) (state.nodes.get nodeId)))
        | none => state.nodes
      let diagnostic := runtimeDiagnostic state event.execution runtimeNodeId detail
      let base := retracted lost state.errors
      let errors :=
        if base.any fun known =>
          known.code = diagnostic.code && known.message = diagnostic.message then base
        else base ++ [diagnostic]
      some ⟨{ ended state .error event.timestamp with nodes, errors }, true, .terminal⟩
  | .interrupted =>
    if authoritative then none
    else
      some ⟨{ ended state .interrupted event.timestamp with
        errors := retracted lost state.errors }, true, .terminal⟩
  | .completed =>
    if authoritative then none
    else
      some ⟨{ ended state .completed event.timestamp with
        errors := retracted lost state.errors }, true, .terminal⟩

end Dinkster.Execution
