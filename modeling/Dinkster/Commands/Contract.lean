import Dinkster.Commands.Wire

/-!
# Commands and transactions

Commands are the only write path to a document.  A command reads the document
and records its mutations through a transaction builder, which owns every value,
refuses `__proto__` segments and reads the displaced values from its working
copy.  A `Transaction` carries the proof that its forward operations were
recorded this way, so whoever holds one can replay it, invert it and send it.

An implementation is a deterministic function of its inputs, so it is given by
the builder calls it makes and by how it ends: it returns diagnostics or throws.
-/

namespace Dinkster.Commands

open Library Format List

/-- How severe a diagnostic is. -/
inductive Severity where
  | error
  | warning
  | info
  deriving DecidableEq

/-- The stage a diagnostic comes from. -/
inductive DiagnosticOrigin where
  | invariant
  | compile
  | validation
  | runtime
  | import_
  | schema
  | command
  | extension
  | environment
  | collab
  deriving DecidableEq

structure Diagnostic where
  severity : Severity
  origin : DiagnosticOrigin
  code : String
  message : String
  deriving DecidableEq

def hasErrors (diagnostics : List Diagnostic) : Bool :=
  diagnostics.any fun diagnostic => diagnostic.severity = .error

def commandError (code message : String) : Diagnostic :=
  ⟨.error, .command, code, message⟩

/-- An operation whose values are owned and which displaces exactly what it says. -/
def Faithful (working : Json) : PatchOp → Prop
  | .add path value => Permitted path ∧ value.Plain ∧ value.ProtoFree
  | .remove path oldValue => Permitted path ∧ getAtPath working path = some oldValue
  | .replace path value oldValue =>
    Permitted path ∧ (value.Plain ∧ value.ProtoFree) ∧ getAtPath working path = some oldValue

/-- Operations recorded one after the other on a working copy of a document. -/
inductive Records (doc : Json) : List PatchOp → Json → Prop where
  | start : Records doc [] doc
  | record {ops : List PatchOp} {working next : Json} {op : PatchOp}
      (recorded : Records doc ops working) (faithful : Faithful working op)
      (applied : applyOp working op = .ok next) : Records doc (ops ++ [op]) next

/-- `createTransactionBuilder`: a working copy and the operations that made it. -/
structure Transaction (doc : Json) where
  actor : Option String
  working : Json
  forward : List PatchOp
  records : Records doc forward working

/-- `path.join('/')`. -/
def pathText (path : DocPath) : String :=
  String.intercalate "/" (path.map fun segment =>
    match segment with
    | .key name => name
    | .index position => numberText position)

namespace Transaction

variable {doc : Json}

/-- A fresh builder. -/
def create (doc : Json) (actor : Option String) : Transaction doc :=
  ⟨actor, doc, [], .start⟩

/-- `record`: apply an operation to the working copy and keep it. -/
def record (tx : Transaction doc) (op : PatchOp) (faithful : Faithful tx.working op) :
    Except String (Transaction doc) :=
  match applied : applyOp tx.working op with
  | .ok next => .ok ⟨tx.actor, next, tx.forward ++ [op], tx.records.record faithful applied⟩
  | .error error => .error error.message

/-- What `ownPath` throws. -/
def forbiddenPath : String :=
  "path segment '__proto__' is forbidden"

/-- `set`: add or replace, whichever fits. -/
def set (tx : Transaction doc) (path : DocPath) (value : Json) : Except String (Transaction doc) :=
  match owned : ownJson value with
  | .error reason => .error s!"set {pathText path}: {reason}"
  | .ok owned' =>
    if permitted : Permitted path then
      match existing : getAtPath tx.working path with
      | none => tx.record (.add path owned') ⟨permitted, ownJson_clean owned⟩
      | some oldValue =>
        tx.record (.replace path owned' oldValue)
          ⟨permitted, ownJson_clean owned, existing⟩
    else
      .error forbiddenPath

/-- `insert`: add at a path. -/
def insert (tx : Transaction doc) (path : DocPath) (value : Json) :
    Except String (Transaction doc) :=
  if permitted : Permitted path then
    match owned : ownJson value with
    | .error reason => .error s!"insert {pathText path}: {reason}"
    | .ok owned' => tx.record (.add path owned') ⟨permitted, ownJson_clean owned⟩
  else
    .error forbiddenPath

/-- `remove`: remove what is at a path. -/
def remove (tx : Transaction doc) (path : DocPath) : Except String (Transaction doc) :=
  match existing : getAtPath tx.working path with
  | none => .error s!"remove: nothing at path {pathText path}"
  | some oldValue =>
    if permitted : Permitted path then
      tx.record (.remove path oldValue) ⟨permitted, existing⟩
    else
      .error forbiddenPath

def inverse (tx : Transaction doc) : List PatchOp :=
  invertOps tx.forward

end Transaction

/-- A call a command makes on its builder. -/
inductive TxCall where
  | set (path : DocPath) (value : Json)
  | insert (path : DocPath) (value : Json)
  | remove (path : DocPath)

def TxCall.perform {doc : Json} (tx : Transaction doc) : TxCall → Except String (Transaction doc)
  | .set path value => tx.set path value
  | .insert path value => tx.insert path value
  | .remove path => tx.remove path

def performCalls {doc : Json} : Transaction doc → List TxCall → Except String (Transaction doc)
  | tx, [] => .ok tx
  | tx, call :: rest => do performCalls (← call.perform tx) rest

/-- A request to run a command. -/
structure CommandInvocation where
  command : String
  params : Json
  actor : Option String

/-- Trusted, process-local dispatch authority.  `initial` holds what the process
knows at that moment; a replay must do without it. -/
inductive CommandExecutionContext (Authority : Type) where
  | initial (authority : Authority)
  | sharedReplay

/-- What an implementation does: the builder calls it makes, and its result. -/
structure CommandRun where
  calls : List TxCall
  result : Except String (List Diagnostic)

/-- What `prepareForSharedReplay` returns. -/
inductive SharedReplayPreparation where
  | unchanged
  | params (params : Json)
  | refused (diagnostics : List Diagnostic)

/-- A command implementation.  Absent hooks are `none`. -/
structure CommandDefinition (Authority : Type) where
  prepareForSharedReplay :
    Option (Json → Json → Authority → Option String → Except String SharedReplayPreparation)
  transformForRebase : Option (Json → Json → Json → Option Json)
  validateDispatch :
    Option (Json → Json → CommandExecutionContext Authority → Except String (List Diagnostic))
  run : Json → Json → Option String → CommandExecutionContext Authority → CommandRun

variable {Authority : Type}

variable (definition : CommandDefinition Authority)

/-- What `validateDispatch` says; an absent hook says nothing. -/
def CommandDefinition.preflight (doc params : Json)
    (context : CommandExecutionContext Authority) : Except String (List Diagnostic) :=
  match definition.validateDispatch with
  | some validate => validate doc params context
  | none => .ok []

/-- `executeCommand`: the single gate of direct and nested dispatch. -/
def executeCommand {doc : Json} (params : Json)
    (tx : Transaction doc) (context : CommandExecutionContext Authority) :
    Except String (List Diagnostic × Transaction doc) := do
  let preflight ← definition.preflight doc params context
  if hasErrors preflight then
    return (preflight, tx)
  let run := definition.run doc params tx.actor context
  let tx ← performCalls tx run.calls
  let diagnostics ← run.result
  return (preflight ++ diagnostics, tx)

variable {doc working : Json} {ops : List PatchOp}

theorem executeCommand_cases {definition : CommandDefinition Authority} {params : Json}
    {tx final : Transaction doc} {context : CommandExecutionContext Authority}
    {diagnostics : List Diagnostic}
    (executed : executeCommand definition params tx context = .ok (diagnostics, final)) :
    final = tx ∨ performCalls tx (definition.run doc params tx.actor context).calls = .ok final := by
  obtain ⟨preflight, _, executed⟩ := bind_eq_ok.mp executed
  split at executed
  · exact .inl (Prod.mk.inj (pure_eq_ok.mp executed)).2.symm
  · simp only [bind_eq_ok, pure_eq_ok] at executed
    obtain ⟨performed, performs, _, _, equal⟩ := executed
    exact .inr ((Prod.mk.inj equal).2 ▸ performs)

inductive CommandOutcome where
  | ok (doc : Json) (forward inverse : List PatchOp) (diagnostics : List Diagnostic)
  | rejected (diagnostics : List Diagnostic)

/-- The recorded operations lead from the document to the working copy. -/
theorem Records.applied {doc working : Json} {ops : List PatchOp}
    (records : Records doc ops working) : applyOwnedOps doc ops = .ok working := by
  induction records with
  | start => rfl
  | record _ _ applied ih => rw [applyOwnedOps_append _ ih, applyOwnedOps_singleton, applied]

theorem plain_of_faithful {op : PatchOp} (plain : working.Plain) (faithful : Faithful working op) :
    op.Plain := by
  cases op with
  | add path value => exact faithful.2.1
  | remove path oldValue => exact plain_of_getAtPath plain faithful.2
  | replace path value oldValue =>
    exact ⟨faithful.2.1.1, plain_of_getAtPath plain faithful.2.2⟩

section

variable (records : Records doc ops working)

include records

theorem Records.plain (plain : doc.Plain) : working.Plain ∧ ∀ op ∈ ops, op.Plain := by
  induction records with
  | start => exact ⟨plain, fun op member => absurd member not_mem_nil⟩
  | record _ faithful applied ih =>
    obtain ⟨workingPlain, opsPlain⟩ := ih
    have opPlain := plain_of_faithful workingPlain faithful
    refine ⟨plain_applyAt workingPlain opPlain applied, fun op member => ?_⟩
    rcases mem_append.mp member with earlier | last
    · exact opsPlain op earlier
    · exact mem_singleton.mp last ▸ opPlain

theorem Records.mem {op : PatchOp} (member : op ∈ ops) :
    ∃ before after, Faithful before op ∧ applyOp before op = .ok after := by
  induction records with
  | start => simp at member
  | record _ faithful applied ih =>
    rcases mem_append.mp member with earlier | last
    · exact ih earlier
    · obtain rfl := mem_singleton.mp last
      exact ⟨_, _, faithful, applied⟩

theorem Records.wirePlain : ∀ op ∈ toWirePatch ops, op.Plain := by
  intro wire member
  obtain ⟨op, recorded, rfl⟩ := mem_map.mp member
  obtain ⟨before, _, faithful, _⟩ := records.mem recorded
  cases op with
  | add path value => exact faithful.2.1
  | remove path oldValue => simp [toWireOp, WirePatchOp.Plain, WirePatchOp.decoded, PatchOp.Plain,
      Json.Plain]
  | replace path value oldValue => exact ⟨faithful.2.1.1, by simp [Json.Plain]⟩

/-- The recorded operations lead from the document's value to the working
copy's. -/
theorem Records.forward_value : applyAll doc.value ops = some working.value := by
  rw [← applyOwnedOps_value, records.applied]
  rfl

end

end Dinkster.Commands
