import Dinkster.Compile.Scope

/-!
# The artifact

Once the executed scope is known, inputs without a value take the one their widget shows,
and the prompt is assembled, keyed by the names the backend is sent.  A backend with
regions is sent the native graph instead: one entry for each executed node, in the body of
the innermost region around it, with producers renamed relative to that body.
-/

namespace Dinkster.Compile

open Format

namespace Host

variable (host : Host)

variable (fn : FlatNode)

/-- Whether an input is still to be given a default. -/
def lacksValue (input : ElaboratedInput) : Bool :=
  input.apiName.isSome && input.origin ≠ .member true &&
    (getField fn.inputs input.spec.id).isNone && !input.spec.hidden

/-- The value the widget of an input shows, if it is submitted. -/
def shownValue (input : ElaboratedInput) : Option Json :=
  input.spec.widget.bind fun widget =>
    if widget.default.isSome || !input.spec.optional then host.widgetDefault widget else none

def defaultWrites (input : ElaboratedInput) : List (String × Json) :=
  if lacksValue fn input then
    match host.shownValue input with
    | some value => host.stagedLiteral fn input value
    | none => []
  else []

def defaultSink (input : ElaboratedInput) : List Diagnostic :=
  if lacksValue fn input then
    match host.shownValue input with
    | some value => (host.lowerWidgetLiteral fn input value).2
    | none =>
      if input.spec.optional then []
      else [warning "compile.input.missing"
        s!"'{fn.node.type}' required input '{input.spec.id}' has no value or connection"
        (some (occurrenceAt fn.path fn.node.id))]
  else []

def withDefaults : FlatNode :=
  { fn with inputs := applyWrites fn.inputs (fn.interface.inputs.flatMap (host.defaultWrites fn)) }

/-- A native combo of an executed node needs a stored choice. -/
def comboProblem (input : ElaboratedInput) : List Diagnostic :=
  match input.origin with
  | .selector construct none =>
    if input.wire15 && input.apiName.isSome then
      [failure "compile.combo.missingChoice"
        s!"'{fn.node.type}' DynamicCombo '{construct}' has no stored choice"
        (some (occurrenceAt fn.path fn.node.id))]
    else []
  | _ => []

/-- A slot that takes part in the prompt needs a valid stored variant. -/
def slotProblem (input : ElaboratedInput) : List Diagnostic :=
  match input.origin with
  | .slot construct variants selected =>
    if variants.isEmpty || (getField fn.inputs input.spec.id).isNone then []
    else
      match selected with
      | none => [failure "compile.slot.missingVariant"
          s!"{fn.node.type}.{construct}: connected slot has no stored variant"
          (some (occurrenceAt fn.path fn.node.id))]
      | some selected =>
        if selected ∈ variants then []
        else [failure "compile.slot.missingVariant"
          s!"{fn.node.type}.{construct}: unknown slot variant '{selected}'"
          (some (occurrenceAt fn.path fn.node.id))]
  | _ => []

end Host

structure PromptNode where
  classType : String
  inputs : List (String × Json)
  outputIds : List String
  outputMembers : Option (List (String × List String))
  slotVariants : List (String × String)
  deriving DecidableEq

namespace Host

variable (host : Host)

def region? (runtimeId : String) : Option RegionLowering :=
  host.collected.regions.find? (·.runtimeId = runtimeId)

def nativeOutputId (runtimeId : String) (output : ElaboratedOutput) : String :=
  (((host.region? runtimeId).bind fun region => region.contract.stateAlias output.id).or
    output.backendId).getD output.id

variable (delivered : List (String × PortAddress))

def undelivered (fn : FlatNode) (input : ElaboratedInput) : Bool :=
  input.wire15 && fn.linkedInputs.contains input.spec.id &&
    !delivered.contains (fn.runtimeId, input.address)

/-- Whether the value of an additional input lacks the explicit type it needs. -/
def untypedAddition (fn : FlatNode) (input : ElaboratedInput) (value : Json) : Bool :=
  fn.node.additionalInputs.contains input.address.port &&
    (canonicalTypeIdOf input.spec.type).isNone && !fn.linkedInputs.contains input.spec.id &&
    ((parseTypedLiteralWire value).isNone || !host.emitTypedLiterals)

def submitted (fn : FlatNode) (input : ElaboratedInput) : Option (String × Json) :=
  match input.submissionName, getField fn.inputs input.spec.id with
  | some name, some value =>
    if undelivered delivered fn input || host.untypedAddition fn input value then none
    else some (name, value)
  | _, _ => none

def submissionProblem (fn : FlatNode) (input : ElaboratedInput) : List Diagnostic :=
  match input.submissionName, getField fn.inputs input.spec.id with
  | some _, some value =>
    if !undelivered delivered fn input && host.untypedAddition fn input value then
      [failure "compile.value.additionalInputType"
        s!"{fn.node.type}.{input.spec.id}: additional input literals require an explicit type and backend typed-literal support"
        (some (occurrenceAt fn.path fn.node.id))]
    else []
  | _, _ => []

def submittedVariant (fn : FlatNode) (input : ElaboratedInput) : Option (String × String) :=
  let value := getField fn.inputs input.spec.id
  let skipped := value.any fun value =>
    undelivered delivered fn input || host.untypedAddition fn input value
  if skipped then none
  else
    match input.submissionName, input.origin with
    | some name, .selector _ (some selected) =>
      if input.wire15 then some (name, selected) else none
    | some name, .slot _ variants (some selected) =>
      if value.isSome && variants.contains selected then some (name, selected) else none
    | _, _ => none

def comboNames (fn : FlatNode) : List String :=
  fn.interface.inputs.filterMap fun input =>
    match input.origin with
    | .selector .. => (host.submittedVariant delivered fn input).map (·.1)
    | _ => none

def promptNode (fn : FlatNode) : PromptNode where
  classType := fn.node.type
  inputs := applyWrites []
    (fn.interface.inputs.filterMap (host.submitted delivered fn) ++ fn.interface.submissionValues)
  outputIds := fn.interface.wired.map (host.nativeOutputId fn.runtimeId)
  outputMembers := fn.interface.outputMembers
  slotVariants := fn.interface.inputs.filterMap (host.submittedVariant delivered fn)

end Host

/-- A producer of a scope, by output id. -/
structure NativeSource where
  node : String
  output : String
  deriving DecidableEq

/-- `DinksterGraphEntryWire`: a plain node, or a region with its body. -/
inductive NativeEntry where
  | node (nodeType : String) (inputs : List (String × Json))
      (outputMembers : Option (List (String × List String)))
      (slotVariants : List (String × String))
  | region (contract : RegionContract) (ports : List (String × Json))
      (inputs : List (String × Json)) (body : List (String × NativeEntry))
      (outputs : List (String × NativeSource × Option OutputRole))
      (continueSource : Option NativeSource)

/-- What emission consults as functions: the types of the declared ports of a region, an
unencodable one being absent, and the validator of the emitted graph. -/
structure Emission where
  regionPorts : String → List (String × Option Json)
  validate : List (String × NativeEntry) → List Diagnostic

namespace Host

variable (host : Host) (mode : Mode) (emission : Emission)

/-- `ownerRegionOf`: the innermost region around a node. -/
def ownerRegion (fn : FlatNode) : Option RegionLowering :=
  host.collected.regions.foldl (fun owner region =>
    if fn.inside region then
      match owner with
      | none => some region
      | some current =>
        if current.childPath.length < region.childPath.length then some region else owner
    else owner) none

variable (flat : List FlatNode)

/-- `localRuntimeId`: the runtime id of a node relative to the body of a region. -/
def localRuntimeId (runtimeId : String) (scope : Option RegionLowering) : String :=
  match scope, flat.find? (·.runtimeId = runtimeId) with
  | some region, some fn =>
    runtimeIdAt (fn.path.take (fn.path.length - region.childPath.length)) fn.node.id
  | _, _ => runtimeId

/-- An array index: the element at a natural number, nothing at any other number. -/
def elementAt {Element : Type} (elements : List Element) (index : Rat) : Option Element :=
  if index.den = 1 ∧ 0 ≤ index then elements[index.num.toNat]? else none

def outputIdOf (runtimeId : String) (index : Rat) : Option String :=
  (flat.find? (·.runtimeId = runtimeId)).bind fun producer =>
    (elementAt producer.interface.wired index).map (host.nativeOutputId runtimeId)

/-- `wireInput`: every pair of a text and a number is emitted as a link. -/
def wireInput (scope : Option RegionLowering) (value : Json) : Json :=
  match value with
  | .arr [.str producer, .num index] =>
    match host.outputIdOf flat producer index with
    | some output => linkWire (localRuntimeId flat producer scope) output
    | none => value
  | _ => value

/-- The output `wireInput` cannot resolve. -/
def wireProblem (value : Json) : List Diagnostic :=
  match value with
  | .arr [.str producer, .num index] =>
    match host.outputIdOf flat producer index with
    | some _ => []
    | none => [failure "compile.region.outputUnresolved"
        s!"native region lowering cannot resolve output #{index} on producer '{producer}'" none]
  | _ => []

/-- The prompt inputs that are emitted, with the combos left out. -/
def nativeEntries (delivered : List (String × PortAddress)) (fn : FlatNode) :
    List (String × Json) :=
  (host.promptNode delivered fn).inputs.filter fun entry =>
    !(host.comboNames delivered fn).contains entry.1

def nativeInputs (delivered : List (String × PortAddress))
    (scope : Option RegionLowering) (fn : FlatNode) : List (String × Json) :=
  (host.nativeEntries delivered fn).map fun entry =>
    (entry.1, host.wireInput flat scope entry.2)

variable (region : RegionLowering)

def outputProblem (output reason : String) : Diagnostic :=
  failure "compile.region.outputUnresolved" s!"region output '{output}' {reason}"
    (some (occurrenceAt region.path region.node.id))

variable (staging : Staging)

def sourceForBoundaryOutput (region : RegionLowering)
    (outputId : String) : Option NativeSource × List Diagnostic :=
  let (resolved, sink) := host.resolveOutputPort none (some region.runtimeId) host.depth
    region.path region.parentDefId ⟨region.node.id, outputId, []⟩ []
  let ended (terminals : List RouteTerminal) (sink : List Diagnostic) :
      Option NativeSource × List Diagnostic :=
    match terminals with
    | [.output source] =>
      match host.outputIdOf staging.flat source.runtimeId source.outputIndex with
      | some output =>
        (some ⟨localRuntimeId staging.flat source.runtimeId (some region), output⟩, sink)
      | none => (none, sink ++
          [outputProblem region outputId "resolves to an unknown body output"])
    | _ => (none, sink ++
        [outputProblem region outputId "does not resolve to exactly one body output"])
  match resolved with
  | .missing => (none, sink ++ [outputProblem region outputId "cannot be resolved"])
  | .muted => (none, sink ++ [outputProblem region outputId "is driven by a muted occurrence"])
  | .output source => ended [.output source] sink
  | .onward vertex =>
    let (terminals, routed) :=
      host.projectRoute (host.tables mode staging) .exact none none vertex
    ended terminals (sink ++ routed)

/-- The declared ports of a region that can be encoded. -/
def portsOf : List (String × Json) :=
  (emission.regionPorts region.runtimeId).filterMap fun port =>
    port.2.map fun type => (port.1, type)

/-- The boundary outputs of a region, less the one that decides its next iteration. -/
def boundaryOutputsOf : List BoundaryItem :=
  match host.doc.graph? region.childId with
  | some child => child.boundaryOutputs.filter fun item =>
    region.contract.continueOutput ≠ some item.id
  | none => []

def outputsOf (region : RegionLowering) : List (String × NativeSource × Option OutputRole) :=
  (host.boundaryOutputsOf region).filterMap fun item =>
    (host.sourceForBoundaryOutput mode staging region item.id).1.map fun source =>
      ((region.contract.stateAlias item.id).getD item.id, source, region.contract.role item.id)

/-- The output that decides the next iteration of a region. -/
def continueSourceOf (region : RegionLowering) : Option NativeSource :=
  region.contract.continueOutput.bind fun output =>
    (host.sourceForBoundaryOutput mode staging region output).1

def entrySink (fn : FlatNode) : List Diagnostic :=
  (host.nativeEntries staging.delivered fn).flatMap (fun entry =>
      host.wireProblem staging.flat entry.2) ++
    match host.region? fn.runtimeId with
    | none => []
    | some region =>
      ((emission.regionPorts region.runtimeId).filter (·.2.isNone)).map (fun port =>
        failure "compile.region.portTypeUnsupported"
          s!"region port '{port.1}' has a type expression that cannot be emitted"
          (some (occurrenceAt region.path region.node.id))) ++
      (host.boundaryOutputsOf region).flatMap (fun item =>
        (host.sourceForBoundaryOutput mode staging region item.id).2) ++
      region.contract.continueOutput.toList.flatMap fun output =>
        (host.sourceForBoundaryOutput mode staging region output).2

/-- The executed nodes of one scope: the top level or the body of a region. -/
def scopeNodes (included : List String) (scope : Option RegionLowering) : List FlatNode :=
  flat.filter fun fn =>
    included.contains fn.runtimeId &&
      (host.ownerRegion fn).map (·.runtimeId) = scope.map (·.runtimeId)

def buildNativeGraph (staging : Staging) (included : List String) :
    Nat → Option RegionLowering → List (String × NativeEntry)
  | 0, _ => []
  | fuel + 1, scope =>
    (host.scopeNodes staging.flat included scope).map fun fn =>
      let inputs := host.nativeInputs staging.flat staging.delivered scope fn
      let entry : NativeEntry :=
        match host.region? fn.runtimeId with
        | none =>
          let compiled := host.promptNode staging.delivered fn
          .node compiled.classType inputs compiled.outputMembers compiled.slotVariants
        | some region => .region region.contract (portsOf emission region) inputs
            (buildNativeGraph staging included fuel (some region))
            (host.outputsOf mode staging region) (host.continueSourceOf mode staging region)
      (localRuntimeId staging.flat fn.runtimeId scope, entry)

/-- `CompileArtifact`: the executed scope, the prompt, the provenance of its entries and
the native graph. -/
structure Artifact where
  included : List String
  prompt : List (String × PromptNode)
  toSource : List (String × String)
  nativeGraph : Option (List (String × NativeEntry))
  diagnostics : List Diagnostic

variable (scope : ExecutionScope)

def validates (included : List String) (runtimeId : String) : Bool :=
  match scope with
  | .full => true
  | .targets _ => included.contains runtimeId

/-- The staging with the defaults of the validated nodes. -/
def completed : Staging :=
  let staging := host.staged mode
  let included := host.executed mode staging scope
  { staging with
    flat := staging.flat.map fun fn =>
      if validates scope included fn.runtimeId then host.withDefaults fn else fn }

def validationSink : List Diagnostic :=
  let staging := host.staged mode
  let included := host.executed mode staging scope
  let validated := staging.flat.filter fun fn => validates scope included fn.runtimeId
  validated.flatMap host.literalSink ++
    (validated.flatMap fun fn => fn.interface.inputs.flatMap (host.defaultSink fn)) ++
    ((staging.flat.filter fun fn => included.contains fn.runtimeId).flatMap fun fn =>
      fn.interface.inputs.flatMap (comboProblem fn)) ++
    (validated.flatMap fun fn =>
      fn.interface.inputs.flatMap (slotProblem (host.withDefaults fn)))

def assemblySink : List Diagnostic :=
  let staging := host.completed mode scope
  let included := host.executed mode (host.staged mode) scope
  let nodes := staging.flat.filter fun fn => included.contains fn.runtimeId
  (nodes.flatMap fun fn =>
    fn.interface.inputs.flatMap (host.submissionProblem staging.delivered fn)) ++
  (if host.emitRegions && !included.isEmpty then
    (nodes.flatMap (host.entrySink mode emission staging)) ++
      emission.validate (host.buildNativeGraph mode emission staging included
        (host.collected.regions.length + 1) none)
  else [])

/-- The artifact of a scope, whatever was diagnosed. -/
def artifact : Artifact :=
  let staging := host.completed mode scope
  let included := host.executed mode (host.staged mode) scope
  let nodes := staging.flat.filter fun fn => included.contains fn.runtimeId
  { included := included
    prompt := nodes.map fun fn => (fn.runtimeId, host.promptNode staging.delivered fn)
    toSource := nodes.map fun fn => (fn.runtimeId, runtimeIdAt fn.path fn.node.id)
    nativeGraph :=
      if host.emitRegions && !included.isEmpty then
        some (host.buildNativeGraph mode emission staging included
          (host.collected.regions.length + 1) none)
      else none
    diagnostics := host.settledSink mode (host.staged mode) scope ++
      host.validationSink mode scope ++ host.assemblySink mode emission scope }

/-- `compileImpl`: every pass may refuse. -/
def compileImpl : Except (List Diagnostic) Artifact :=
  let scanned := host.scanRegions host.depth host.doc.root [] []
  let settled := host.settledSink mode (host.staged mode) scope
  let validated := settled ++ host.validationSink mode scope
  let artifact := host.artifact mode emission scope
  if hasErrors scanned then .error scanned
  else if hasErrors settled then .error settled
  else if hasErrors validated then .error validated
  else if hasErrors artifact.diagnostics then .error artifact.diagnostics
  else .ok artifact

variable (pickCandidate : Option (String → String → Nat → Option Rat))

def compile (scope : ExecutionScope) : Except (List Diagnostic) Artifact :=
  host.compileImpl ⟨false, pickCandidate⟩ emission scope

/-- `scopeClosure`, as far as `included` goes: the sources of the previewed artifact. -/
def scopeClosure (scope : ExecutionScope) : Option (List String) :=
  match host.compileImpl ⟨true, pickCandidate⟩ emission scope with
  | .ok artifact => some (artifact.toSource.map (·.2))
  | .error _ => none

end Host

end Dinkster.Compile
