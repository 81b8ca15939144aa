import Dinkster.Extensions.Manifest
import Dinkster.Library.Ledger
import Dinkster.Library.Table

/-!
# The extension host

The host holds what packs contribute and moves it in and out of the registries as gates
flip.  Registries, disposers and activation code are not the host's: a call of a registry or
a disposer may throw a text, and an activation is whatever it calls before it returns or
throws.  Calls are numbered, so that what a call does may depend on anything before it.
-/

namespace Dinkster.Extensions

open Library

structure GateState where
  packs : Table Bool
  categories : Table Bool
  contributions : Table Bool

structure DeploymentPolicy where
  allow : List String
  deny : List String

def categoryKey (packId category : String) : String :=
  s!"{packId}/{category}"

variable (policy : Option DeploymentPolicy)

/-- `policyDecision`, without the reason. -/
def policyAllows (keys : List String) : Bool :=
  match policy with
  | none => true
  | some policy =>
    if policy.deny.any (keys.contains ·) then false
    else policy.allow = [] || policy.allow.any (keys.contains ·)

def contributionEnabled (gates : GateState) (packId : String) (decl : ContributionDecl) : Bool :=
  policyAllows policy [packId, categoryKey packId decl.category, decl.id] &&
    gates.packs.get packId ≠ some false &&
    gates.categories.get (categoryKey packId decl.category) ≠ some false &&
    gates.contributions.get decl.id ≠ some false

/-- A contributed value under the category of the door it came through. -/
structure Payload (Value : Type) where
  category : ContributionCategory
  value : Value

/-- A declared contribution of an activated pack. -/
structure Ticket where
  serial : Nat
  id : String
  deriving DecidableEq

/-- What a registry is given. -/
structure Contribution (Value : Type) where
  packId : String
  payload : Payload Value

/-- `Slot`.  The registration stands for the function that removes it. -/
structure Slot (Value : Type) where
  packId : String
  decl : ContributionDecl
  payload : Option (Payload Value)
  registration : Option (Registration Ticket (Contribution Value))

/-- `InstalledPack`.  Every activation makes a pack of its own, with a serial number, and its
disposers are numbered in the order in which they were added. -/
structure InstalledPack (Value : Type) where
  serial : Nat
  manifest : PackManifest
  slots : Table (Slot Value)
  diagnostics : List Diagnostic
  disposers : List Nat

/-- What is done to a pack that goes. -/
inductive Cleanup where
  | aborted (serial : Nat)
  | disposed (serial disposer : Nat)
  deriving DecidableEq

def Cleanup.serial : Cleanup → Nat
  | .aborted serial => serial
  | .disposed serial _ => serial

/-- The state of a host and of the registries it serves. -/
structure Host (Value : Type) where
  gates : GateState
  installed : List (InstalledPack Value)
  serials : Nat
  registry : Registry Ticket (Contribution Value)
  cleanups : List Cleanup

/-- What the host depends on.  The doors know the id a value carries and what they keep of it,
if they take it; the rest tells what the calls of other code do. -/
structure Surroundings (Value : Type) where
  policy : Option DeploymentPolicy
  ownId : Value → String
  kept : ContributionCategory → String → Value → Except String Value
  provided : Nat → String → Bool
  registerThrows : Nat → Option String
  unregisterThrows : Nat → Option String
  disposerThrows : Nat → Option String

variable {Value : Type}

def conflictMessage (id : String) : String :=
  s!"contribution '{id}' failed to register:"

/-- The diagnostic of a refused contribution. -/
def conflict (id thrown : String) : Diagnostic :=
  bad "extension.contribution-conflict" (conflictMessage id ++ " " ++ thrown)

def isConflictOf (id : String) (diagnostic : Diagnostic) : Bool :=
  diagnostic.code = "extension.contribution-conflict" &&
    (conflictMessage id).toList.isPrefixOf diagnostic.message.toList

def cleanupFailed (what : String) (thrown : Option String) : List Diagnostic :=
  thrown.toList.map fun text =>
    bad "extension.cleanup-failed" s!"{what} cleanup threw: {text}"

/-- A registry and the diagnostics of the pack that is worked on. -/
structure Progress (Value : Type) where
  diagnostics : List Diagnostic
  registry : Registry Ticket (Contribution Value)

section Operations

variable (around : Surroundings Value)

/-- Call the function that removes a registration. -/
def unregisterSlot (id : String) (registration : Registration Ticket (Contribution Value))
    (progress : Progress Value) : Progress Value where
  diagnostics := progress.diagnostics ++
    cleanupFailed s!"contribution '{id}'" (around.unregisterThrows progress.registry.calls)
  registry := progress.registry.giveBack registration

variable (serial : Nat)

def registerSlot (slot : Slot Value) (payload : Payload Value)
    (progress : Progress Value) : Slot Value × Progress Value :=
  let ticket : Ticket := ⟨serial, slot.decl.id⟩
  let contribution : Contribution Value := ⟨slot.packId, payload⟩
  match around.registerThrows progress.registry.calls with
  | none =>
    ({ slot with registration := some (progress.registry.offered ticket contribution) },
      { diagnostics := progress.diagnostics.filter fun diagnostic =>
          !isConflictOf slot.decl.id diagnostic
        registry := progress.registry.take ticket contribution })
  | some thrown =>
    (slot,
      { diagnostics :=
          if conflict slot.decl.id thrown ∈ progress.diagnostics then progress.diagnostics
          else progress.diagnostics ++ [conflict slot.decl.id thrown]
        registry := progress.registry.refuse ticket thrown })

variable (gates : GateState)

/-- Whether a slot has something to register and every gate is open. -/
def wanted (slot : Slot Value) : Bool :=
  slot.payload.isSome && contributionEnabled around.policy gates slot.packId slot.decl

def applyGate (serial : Nat) (slot : Slot Value) (progress : Progress Value) :
    Slot Value × Progress Value :=
  match slot.registration with
  | some registration =>
    if wanted around gates slot then (slot, progress)
    else
      ({ slot with registration := none },
        unregisterSlot around slot.decl.id registration progress)
  | none =>
    match slot.payload with
    | some payload =>
      if wanted around gates slot then registerSlot around serial slot payload progress
      else (slot, progress)
    | none => (slot, progress)

/-- `applyGate` of the slots of a pack, one after the other. -/
def applyGates (gates : GateState) (serial : Nat) :
    Table (Slot Value) → Progress Value → Table (Slot Value) × Progress Value
  | [], progress => ([], progress)
  | (id, slot) :: rest, progress =>
    let first := applyGate around gates serial slot progress
    let others := applyGates gates serial rest first.2
    ((id, first.1) :: others.1, others.2)

/-- The slots that are left, which are in reverse order. -/
def unregisterSlots : Table (Slot Value) → Progress Value → Progress Value
  | [], progress => progress
  | (_, slot) :: rest, progress =>
    match slot.registration with
    | some registration =>
      unregisterSlots rest (unregisterSlot around slot.decl.id registration progress)
    | none => unregisterSlots rest progress

variable (pack : InstalledPack Value)

def unregisterPackSlots (progress : Progress Value) : Progress Value :=
  unregisterSlots around pack.slots.reverse progress

/-- The disposers that are left, which are in reverse order. -/
def runDisposers (packId : String) (serial : Nat) :
    List Nat → List Diagnostic → List Cleanup → List Diagnostic × List Cleanup
  | [], diagnostics, cleanups => (diagnostics, cleanups)
  | disposer :: rest, diagnostics, cleanups =>
    runDisposers packId serial rest
      (diagnostics ++ cleanupFailed s!"pack '{packId}'" (around.disposerThrows cleanups.length))
      (cleanups ++ [.disposed serial disposer])

def disposePackResources (diagnostics : List Diagnostic)
    (cleanups : List Cleanup) : List Diagnostic × List Cleanup :=
  runDisposers around pack.manifest.id pack.serial pack.disposers.reverse diagnostics cleanups

variable (host : Host Value)

/-- `deactivatePack`: the host without the pack, and the diagnostics of the pack. -/
def deactivatePack (pack : InstalledPack Value) : Host Value × List Diagnostic :=
  let slots := unregisterPackSlots around pack ⟨pack.diagnostics, host.registry⟩
  let disposed := disposePackResources around pack slots.diagnostics
    (host.cleanups ++ [.aborted pack.serial])
  ({ host with
      installed := host.installed.filter fun other => other.manifest.id ≠ pack.manifest.id
      registry := slots.registry
      cleanups := disposed.2 },
    disposed.1)

/-- A call of the activation interface. -/
inductive ApiCall (Value : Type) where
  | contribute (id : String) (category : ContributionCategory) (value : Value)
  | onDispose

/-- What activation code does: the calls it makes, and what it throws in the end, if it
throws.  A call that throws has no effect, whether the code catches it or not. -/
structure Activation (Value : Type) where
  calls : List (ApiCall Value)
  thrown : Option String

def payloadId (category : ContributionCategory) (id : String) (value : Value) : Option String :=
  match category with
  | .previewRenderer | .keybinding | .eventConsumer => none
  | .hostUi | .panel => some id
  | _ => some (around.ownId value)

/-- `accept`: what is wrong with a contribution, or the slot that takes it. -/
def accept (id : String) (category : ContributionCategory)
    (carried : Option String) : Except Diagnostic (Slot Value) :=
  match pack.slots.get id with
  | some slot =>
    if slot.decl.category ≠ category.text then
      .error (bad "extension.contribution-undeclared"
        s!"pack '{pack.manifest.id}' contributed '{id}' as {category.text}, which its manifest does not declare")
    else if carried.isSome ∧ carried ≠ some id then
      .error (bad "extension.contribution-id-mismatch"
        s!"contribution '{id}' carries payload id '{carried.getD id}'; they must be identical")
    else if slot.payload.isSome then
      .error (bad "extension.contribution-twice" s!"contribution '{id}' provided twice")
    else .ok slot
  | none =>
    .error (bad "extension.contribution-undeclared"
      s!"pack '{pack.manifest.id}' contributed '{id}' as {category.text}, which its manifest does not declare")

/-- Put a contribution into its slot, unless something is wrong with it or its door throws. -/
def store (id : String) (category : ContributionCategory)
    (carried : Option String) (kept : Except String Value) : InstalledPack Value :=
  match accept pack id category carried with
  | .error problem => { pack with diagnostics := pack.diagnostics ++ [problem] }
  | .ok slot =>
    match kept with
    | .ok value =>
      { pack with slots := pack.slots.set id { slot with payload := some ⟨category, value⟩ } }
    | .error _ => pack

/-- One call of the activation interface.  The door of search providers makes a copy before
it looks at anything, the others check the value when its slot is known. -/
def callApi : ApiCall Value → InstalledPack Value
  | .onDispose => { pack with disposers := pack.disposers ++ [pack.disposers.length] }
  | .contribute id category value =>
    let kept := around.kept category id value
    if category = .searchProvider then
      match kept with
      | .ok owned => store pack id category (payloadId around category id owned) kept
      | .error _ => pack
    else store pack id category (payloadId around category id value) kept

inductive Required where
  | none
  | all
  | only (ids : List String)

def Required.includes : Required → String → Bool
  | .none, _ => false
  | .all, _ => true
  | .only ids, id => ids.contains id

variable (manifest : PackManifest)

def declaredSlots : Table (Slot Value) :=
  manifest.contributions.foldl
    (fun slots decl => slots.set decl.id ⟨manifest.id, decl, none, none⟩) []

/-- The warnings about the widget kinds a pack uses. -/
def usesMissing (manifest : PackManifest) : List Diagnostic :=
  (manifest.uses.filter fun use => !around.provided serial use).map fun use =>
    ⟨.warning, "extension.uses-missing",
      s!"pack '{manifest.id}' uses widget kind '{use}', which no installed pack provides"⟩

def activateFailed (thrown : Option String) : List Diagnostic :=
  thrown.toList.map fun text =>
    bad "extension.activate-failed" s!"pack '{manifest.id}' activation threw: {text}"

def contributionMissing (slots : Table (Slot Value)) (required : Required) : List Diagnostic :=
  (slots.filter fun entry =>
    entry.2.payload.isNone && required.includes entry.2.decl.id).map fun entry =>
      bad "extension.contribution-missing"
        s!"contribution '{entry.2.decl.id}' was not registered"

def activate (manifest : PackManifest) (problems : List Diagnostic)
    (activation : Activation Value) (required : Required) : InstalledPack Value :=
  let pack := activation.calls.foldl (callApi around)
    { serial, manifest, slots := declaredSlots manifest,
      diagnostics := problems ++ usesMissing around serial manifest, disposers := [] }
  { pack with
    diagnostics := pack.diagnostics ++ activateFailed manifest activation.thrown ++
      contributionMissing pack.slots required }

/-- What `register` returns, and the pack it has activated, if it has. -/
structure Report (Value : Type) where
  diagnostics : List Diagnostic
  staged : Option (InstalledPack Value)

def rollbackComplete (what : String) : Diagnostic :=
  ⟨.info, "extension.rollback-complete",
    s!"pack '{manifest.id}' {what} rolled back with no live contributions"⟩

def registerProblems (manifest : PackManifest) : List Diagnostic :=
  validateManifest manifest ++
    (if host.installed.any fun pack => pack.manifest.id = manifest.id then
      [bad "extension.pack-duplicate" s!"pack '{manifest.id}' already installed"]
    else [])

/-- Abort and dispose of a pack that was never installed. -/
def rollBack (pack : InstalledPack Value) : Host Value × Report Value :=
  let disposed := disposePackResources around pack pack.diagnostics
    (host.cleanups ++ [.aborted pack.serial])
  ({ host with cleanups := disposed.2 },
    ⟨disposed.1 ++ [rollbackComplete pack.manifest "activation"], some pack⟩)

def install (pack : InstalledPack Value) : Host Value × InstalledPack Value :=
  let applied := applyGates around host.gates pack.serial pack.slots
    ⟨pack.diagnostics, host.registry⟩
  let live := { pack with slots := applied.1, diagnostics := applied.2.diagnostics }
  ({ host with installed := host.installed ++ [live], registry := applied.2.registry }, live)

/-- Install a pack, and take it back if something failed. -/
def commit (host : Host Value) (pack : InstalledPack Value) : Host Value × Report Value :=
  let installed := install around host pack
  if hasError installed.2.diagnostics then
    let left := deactivatePack around installed.1 installed.2
    (left.1, ⟨left.2 ++ [rollbackComplete pack.manifest "registry commit"], some pack⟩)
  else (installed.1, ⟨installed.2.diagnostics, some pack⟩)

def register (manifest : PackManifest) (activation : Activation Value)
    (required : Required) : Host Value × Report Value :=
  let problems := registerProblems host manifest
  if hasError problems then (host, ⟨problems, none⟩)
  else
    let pack := activate around host.serials manifest problems activation required
    let counted := { host with serials := host.serials + 1 }
    if hasError pack.diagnostics then rollBack around counted pack
    else commit around counted pack

def unregister (packId : String) : Host Value :=
  match host.installed.find? fun pack => pack.manifest.id = packId with
  | some pack => (deactivatePack around host pack).1
  | none => host

/-- `dispose`: every pack goes, the last one first. -/
def dispose : Host Value :=
  host.installed.reverse.foldl (fun host pack => (deactivatePack around host pack).1) host

def applyPacks (gates : GateState) :
    List (InstalledPack Value) → Registry Ticket (Contribution Value) →
      List (InstalledPack Value) × Registry Ticket (Contribution Value)
  | [], registry => ([], registry)
  | pack :: rest, registry =>
    let applied := applyGates around gates pack.serial pack.slots ⟨pack.diagnostics, registry⟩
    let others := applyPacks gates rest applied.2.registry
    ({ pack with slots := applied.1, diagnostics := applied.2.diagnostics } :: others.1,
      others.2)

def setGates (gates : GateState) : Host Value :=
  let applied := applyPacks around gates host.installed host.registry
  { host with gates := gates, installed := applied.1, registry := applied.2 }

def setPackEnabled (packId : String) (enabled : Bool) : Host Value :=
  setGates around host { host.gates with packs := host.gates.packs.set packId enabled }

def setCategoryEnabled (packId : String) (category : ContributionCategory)
    (enabled : Bool) : Host Value :=
  setGates around host
    { host.gates with
      categories := host.gates.categories.set (categoryKey packId category.text) enabled }

def setContributionEnabled (contributionId : String) (enabled : Bool) : Host Value :=
  setGates around host
    { host.gates with contributions := host.gates.contributions.set contributionId enabled }

inductive Call (Value : Type) where
  | register (manifest : PackManifest) (activation : Activation Value) (required : Required)
  | unregister (packId : String)
  | setGates (gates : GateState)
  | setPackEnabled (packId : String) (enabled : Bool)
  | setCategoryEnabled (packId : String) (category : ContributionCategory) (enabled : Bool)
  | setContributionEnabled (contributionId : String) (enabled : Bool)
  | dispose

def step : Call Value → Option (Host Value)
  | .register manifest activation required =>
    some (register around host manifest activation required).1
  | .unregister packId => some (unregister around host packId)
  | .setGates gates => some (setGates around host gates)
  | .setPackEnabled packId enabled => some (setPackEnabled around host packId enabled)
  | .setCategoryEnabled packId category enabled =>
    some (setCategoryEnabled around host packId category enabled)
  | .setContributionEnabled contributionId enabled =>
    some (setContributionEnabled around host contributionId enabled)
  | .dispose => some (dispose around host)

def freshHost : Host Value :=
  ⟨gates, [], 0, Registry.empty, []⟩

end Operations

end Dinkster.Extensions
