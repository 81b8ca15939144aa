import Dinkster.Collab.World
import Dinkster.Library.Replication

/-!
# A session refines an optimistic replica

Seen through its document values, a session next to the server's log is a replica
of an exact-base log: local execution enqueues, the pump submits, ordered ingress
acknowledges or absorbs, and a resync adopts a checkpoint.  A step of the world is
at most one step of that replica.  What the replica guarantees thereby holds of
every session.
-/

namespace Dinkster.Collab

open Library Format Commands List

variable {Client Authority : Type}

/-- A submission as the replica sees it. -/
def SubmittedAttempt.view (attempt : SubmittedAttempt Client) :
    Replication.Attempt (OpId Client) (Option (List PatchOp)) (List WirePatchOp) :=
  ⟨attempt.opId, attempt.recorded, attempt.baseRevision, attempt.patch⟩

def PendingEntry.view (entry : PendingEntry Client) :
    Replication.Intention (OpId Client) (Option (List PatchOp)) (List WirePatchOp) :=
  ⟨entry.opId, entry.intention, entry.recorded, entry.predicted,
    entry.attempts.map SubmittedAttempt.view⟩

/-- A log of operations and their patches. -/
abbrev WireLog (Client : Type) := List (Replication.Logged (OpId Client) (List WirePatchOp))

/-- A session next to a log, seen through its document values. -/
def Replica.view (log : WireLog Client) (target : Nat) (replica : Replica Client) :
    Replication.State (OpId Client) (Option (List PatchOp)) Value (List WirePatchOp) where
  log := log
  confirmed := replica.confirmed.value
  revision := replica.confirmedRevision
  optimistic := replica.doc.value
  pending := replica.pending.map PendingEntry.view
  sent := replica.sent.map SubmittedAttempt.view
  minted := replica.minted
  target := target

def Replayed (env : SessionEnvironment Authority) (ground : Json) (recorded forward : List PatchOp) :
    Prop :=
  ∃ doc applied actor stamped next inverse diagnostics,
    replayHistoryOps ground recorded true = .ok ⟨doc, applied, none⟩ ∧
    Replica.stamp actor ⟨sessionPatchId, sessionPatchParams (toWirePatch applied), some actor⟩ =
      .ok stamped ∧
    DocumentStore.execute env.registry (.initial env.schemaResolverFor) ground stamped =
      .ok next forward inverse diagnostics

/-- What the patch of an intention is held to, over the value of the document it is made
on: a replay of history comes with the operations it replays. -/
abbrev Standard :=
  Value → Option (List PatchOp) → List WirePatchOp → Prop

/-- What ordinary commands record meets a standard. -/
def Standard.AdmitsCommands (standard : Standard) (env : SessionEnvironment Authority) : Prop :=
  ∀ {ground next : Json} {context : CommandExecutionContext Authority}
    {invocation : CommandInvocation} {forward inverse : List PatchOp}
    {diagnostics : List Diagnostic}, invocation.command ≠ sessionPatchId → ground.Plain →
    DocumentStore.execute env.registry context ground invocation =
      .ok next forward inverse diagnostics →
    standard ground.value none (toWirePatch forward)

def Replica.ReplayMeets (standard : Standard) (env : SessionEnvironment Authority)
    (replica : Replica Client) (direction : HistoryDirection) : Prop :=
  ∀ reference rest record forward, replica.stack direction = reference :: rest →
    replica.records[reference]? = some record → forward ≠ [] →
    Replayed env replica.doc (record.replayed direction) forward →
    standard replica.doc.value (some (record.replayed direction)) (toWirePatch forward)

/-- A replay of history that is executed again meets a standard there, if the intention
is one. -/
def Replica.Reexecution.Meets (standard : Standard) (again : Replica.Reexecution Client) : Prop :=
  ∀ recorded, again.entry.recorded = some recorded →
    standard again.ground.value (some recorded) (toWirePatch again.forward)

def replicaProtocol (standard : Standard) (initial : Json) (client : Client) :
    Replication.Protocol (OpId Client) (Option (List PatchOp)) Value (List WirePatchOp) where
  initial := initial.value
  apply := applyWire
  own := fun id => id.nonce = client
  good := standard

/-- What only history and observers distinguish. -/
def Replica.bare (replica : Replica Client) : Replica Client :=
  { replica with
    status := .live
    pending := replica.pending.map fun entry => { entry with record := none }
    records := []
    undoStack := []
    redoStack := []
    conflicts := []
    feed := [] }

/-- What a session keeps in order: its ids are its own and numbered, documents and
patches list each property once, and the intentions that run the patch command are
those that replay history. -/
structure Kept (replica : Replica Client) : Prop where
  minted : ∀ pair ∈ replica.minted, pair.1.actor = replica.actorId ∧
    pair.1.nonce = replica.nonce ∧ pair.1.counter ≤ replica.opCounter ∧
    pair.2.counter ≤ replica.opCounter
  confirmed : replica.confirmed.Plain
  doc : replica.doc.Plain
  predicted : ∀ entry ∈ replica.pending, ∀ op ∈ entry.predicted, op.Plain
  sent : ∀ attempt ∈ replica.sent, ∀ op ∈ attempt.patch, op.Plain
  replays : ∀ entry ∈ replica.pending,
    entry.recorded = none ↔ entry.invocation.command ≠ sessionPatchId
  begun : ∀ entry ∈ replica.pending, entry.intention.counter ≤ replica.opCounter

section Bare

variable {replica other : Replica Client}

@[simp] theorem view_bare (log : WireLog Client) (target : Nat) (replica : Replica Client) :
    replica.bare.view log target = replica.view log target := by
  simp [Replica.view, Replica.bare, Replica.doc, PendingEntry.view, Function.comp_def]

theorem kept_bare_iff : Kept replica.bare ↔ Kept replica := by
  have predicted : (∀ entry ∈ replica.bare.pending, ∀ op ∈ entry.predicted, op.Plain) ↔
      ∀ entry ∈ replica.pending, ∀ op ∈ entry.predicted, op.Plain := by
    simp [Replica.bare]
  have replays : (∀ entry ∈ replica.bare.pending,
      entry.recorded = none ↔ entry.invocation.command ≠ sessionPatchId) ↔
      ∀ entry ∈ replica.pending,
        entry.recorded = none ↔ entry.invocation.command ≠ sessionPatchId := by
    simp [Replica.bare]
  have begun : (∀ entry ∈ replica.bare.pending, entry.intention.counter ≤ replica.bare.opCounter) ↔
      ∀ entry ∈ replica.pending, entry.intention.counter ≤ replica.opCounter := by
    simp [Replica.bare]
  constructor
  · intro kept
    exact ⟨kept.minted, kept.confirmed, kept.doc, predicted.mp kept.predicted, kept.sent,
      replays.mp kept.replays, begun.mp kept.begun⟩
  · intro kept
    exact ⟨kept.minted, kept.confirmed, kept.doc, predicted.mpr kept.predicted, kept.sent,
      replays.mpr kept.replays, begun.mpr kept.begun⟩

theorem view_eq_of_bare (alike : other.bare = replica.bare) (log : WireLog Client)
    (target : Nat) : other.view log target = replica.view log target := by
  rw [← view_bare, alike, view_bare]

theorem Kept.of_bare (kept : Kept replica) (alike : other.bare = replica.bare) : Kept other :=
  kept_bare_iff.mp (alike ▸ kept_bare_iff.mpr kept)

theorem bare_tie {record : Nat} {tied : Replica Client} (found : replica.tie record = some tied) :
    tied.bare = replica.bare := by
  unfold Replica.tie at found
  split at found
  · simp at found
  · rename_i entry last
    cases found
    have split := dropLast_append_getLast? entry last
    simp only [Replica.bare]
    congr 1
    rw [← split]
    simp

variable (replica : Replica Client)

theorem bare_finishDispatch (forward inverse : List PatchOp) :
    (replica.finishDispatch forward inverse).bare = replica.bare := by
  unfold Replica.finishDispatch
  dsimp only
  split
  · rfl
  · rename_i tied found
    show tied.bare = replica.bare
    exact bare_tie found

variable (direction : HistoryDirection)

theorem bare_pushOpposite (record : Nat) :
    (replica.pushOpposite direction record).bare = replica.bare := by
  cases direction <;> rfl

theorem bare_setStack (stack : List Nat) :
    (replica.setStack direction stack).bare = replica.bare := by
  cases direction <;> rfl

theorem bare_finishReplay (record : Nat) :
    (replica.finishReplay direction record).bare = replica.bare := by
  unfold Replica.finishReplay
  split
  · rfl
  · rename_i tied found
    rw [bare_pushOpposite]
    exact bare_tie found

theorem bare_removeRecord (record : Option Nat) :
    (replica.removeRecord record).bare = replica.bare := by
  cases record <;> rfl

end Bare

section Steps

variable {env : SessionEnvironment Authority} {standard : Standard} {sound : Prop} {initial : Json}
  {client : Client} {log : WireLog Client} {target : Nat} {replica next : Replica Client}

theorem fresh_nextOpId (kept : Kept replica) :
    Replication.Fresh replica.minted replica.nextOpId := by
  intro pair member
  obtain ⟨_, _, named, begun⟩ := kept.minted pair member
  constructor
  · intro equal
    rw [equal] at named
    exact absurd named (Nat.not_succ_le_self _)
  · intro equal
    rw [equal] at begun
    exact absurd begun (Nat.not_succ_le_self _)

theorem minted_nextOpId (kept : Kept replica) {intention : OpId Client}
    (begun : intention.counter ≤ replica.opCounter + 1) :
    ∀ pair ∈ (replica.nextOpId, intention) :: replica.minted, pair.1.actor = replica.actorId ∧
      pair.1.nonce = replica.nonce ∧ pair.1.counter ≤ replica.opCounter + 1 ∧
      pair.2.counter ≤ replica.opCounter + 1 := by
  intro pair member
  rcases mem_cons.mp member with rfl | before
  · exact ⟨rfl, rfl, Nat.le_refl _, begun⟩
  · obtain ⟨actor, nonce, named, started⟩ := kept.minted pair before
    exact ⟨actor, nonce, by omega, by omega⟩

theorem forall_mem_concat {Element : Type} {property : Element → Prop} {elements : List Element}
    {last : Element} (before : ∀ element ∈ elements, property element) (here : property last) :
    ∀ element ∈ elements ++ [last], property element := by
  intro element member
  rcases mem_append.mp member with earlier | single
  · exact before element earlier
  · exact mem_singleton.mp single ▸ here

variable {context : CommandExecutionContext Authority} {diagnostics : List Diagnostic}
    {doc : Json} {forward inverse : List PatchOp}

theorem enqueue_refines (kept : Kept replica) (named : replica.nonce = client)
    {prepared : CommandInvocation} {replayed : Option (HistoryDirection × List PatchOp)}
    (executed : DocumentStore.execute env.registry context replica.doc prepared =
      .ok doc forward inverse diagnostics)
    (made : standard replica.doc.value (replayed.map Prod.snd) (toWirePatch forward)) :
    Replication.Step (replicaProtocol standard initial client) sound (replica.view log target)
      ((replica.enqueue (replica.store.commitDispatch prepared doc forward inverse).1 prepared
        replayed forward).view log target) := by
  have records := (DocumentStore.execute_ok executed).1
  have applied : applyWire replica.doc.value (toWirePatch forward) = some doc.value := by
    rw [applyWire_toWirePatch, records.forward_value]
  have view : (replica.enqueue (replica.store.commitDispatch prepared doc forward inverse).1
      prepared replayed forward).view log target =
      { replica.view log target with
        optimistic := doc.value
        pending := (replica.view log target).pending ++
          [⟨replica.nextOpId, replica.nextOpId, replayed.map Prod.snd, toWirePatch forward, []⟩]
        minted := (replica.nextOpId, replica.nextOpId) :: (replica.view log target).minted } := by
    simp [Replica.view, Replica.enqueue, Replica.doc, DocumentStore.commitDispatch,
      PendingEntry.view]
  rw [view]
  exact .enqueue _ _ _ _ named (fresh_nextOpId kept) applied made

theorem kept_enqueue (kept : Kept replica) {prepared : CommandInvocation}
    {replayed : Option (HistoryDirection × List PatchOp)}
    (executed : DocumentStore.execute env.registry context replica.doc prepared =
      .ok doc forward inverse diagnostics)
    (titled : replayed = none ↔ prepared.command ≠ sessionPatchId) :
    Kept (replica.enqueue (replica.store.commitDispatch prepared doc forward inverse).1 prepared
      replayed forward) := by
  have records := (DocumentStore.execute_ok executed).1
  constructor
  · exact minted_nextOpId kept (Nat.le_refl _)
  · exact kept.confirmed
  · exact (records.plain kept.doc).1
  · exact forall_mem_concat kept.predicted records.wirePlain
  · exact kept.sent
  · apply forall_mem_concat kept.replays
    simpa using titled
  · apply forall_mem_concat
    · exact fun entry member => Nat.le_succ_of_le (kept.begun entry member)
    · exact Nat.le_refl _

theorem run_refines (admits : standard.AdmitsCommands env) (kept : Kept replica)
    (named : replica.nonce = client)
    {invocation : CommandInvocation} (ordinary : invocation.command ≠ sessionPatchId) :
    Replication.Moves (replicaProtocol standard initial client) sound (replica.view log target)
        ((replica.run env invocation none).2.view log target) ∧
      Kept (replica.run env invocation none).2 := by
  rcases Replica.run_cases env replica invocation none with ⟨unchanged, _⟩ | ⟨stamped, prepared,
    doc, forward, inverse, diagnostics, stamps, prepares, executed, _, ran⟩
  · rw [unchanged]
    exact ⟨.inl rfl, kept⟩
  · rw [ran]
    have command : prepared.command ≠ sessionPatchId := by
      rw [Replica.command_of_prepare stamps prepares]
      exact ordinary
    exact ⟨.inr (enqueue_refines kept named executed (admits command kept.doc executed)),
      kept_enqueue kept executed (by simpa using command)⟩

theorem beginReplay_refines (kept : Kept replica) (named : replica.nonce = client)
    {direction : HistoryDirection} (meets : replica.ReplayMeets standard env direction) :
    Replication.Moves (replicaProtocol standard initial client) sound (replica.view log target)
        ((replica.beginReplay env direction).1.view log target) ∧
      Kept (replica.beginReplay env direction).1 := by
  -- What does not commit changes nothing but history and what observers saw.
  have still {other : Replica Client} (alike : other.bare = replica.bare) :
      Replication.Moves (replicaProtocol standard initial client) sound
          (replica.view log target) (other.view log target) ∧ Kept other :=
    ⟨.inl (view_eq_of_bare alike log target), kept.of_bare alike⟩
  have begins := Replica.begins_beginReplay env replica direction
  generalize (replica.beginReplay env direction).1 = next,
    (replica.beginReplay env direction).2 = tied at begins ⊢
  cases begins with
  | nothing _ => exact still rfl
  | dropped _ conflicts => exact still (bare_setStack replica direction _)
  | clamped _ => exact still ((bare_pushOpposite _ _ _).trans (bare_setStack replica direction _))
  | @queued reference rest record result applied stamped doc forward inverse diagnostics stacked
      found replayed stamps executed changed =>
      have popped := bare_setStack replica direction rest
      have poppedDoc : (replica.setStack direction rest).doc = replica.doc := by
        cases direction <;> rfl
      have poppedNamed : (replica.setStack direction rest).nonce = client := by
        cases direction <;> exact named
      have made : Replayed env replica.doc (record.replayed direction) forward :=
        ⟨result, applied, replica.actorId, stamped, doc, inverse, diagnostics, replayed, stamps,
          executed⟩
      rw [← poppedDoc] at executed
      rw [← view_eq_of_bare popped]
      have command : stamped.command = sessionPatchId := Replica.command_of_stamp stamps
      exact ⟨.inr (enqueue_refines (kept.of_bare popped) poppedNamed executed (by
          rw [poppedDoc]
          exact meets reference rest record forward stacked found changed made)),
        kept_enqueue (kept.of_bare popped) executed (by simpa using command)⟩

/-- What a rebase needs of an intention that it re-executes: it began before, and it runs
the patch command if it is a replay. -/
structure Rebasable (opCounter : Nat) (entry : PendingEntry Client) : Prop where
  begun : entry.intention.counter ≤ opCounter
  replays : entry.recorded = none ↔ entry.invocation.command ≠ sessionPatchId

theorem command_rebasedInvocation (oldDoc : Option Json) (doc : Json)
    (invocation : CommandInvocation) :
    (Replica.rebasedInvocation env oldDoc doc invocation).command = invocation.command := by
  unfold Replica.rebasedInvocation
  split
  · split <;> rfl
  · rfl

theorem kept_survive (kept : Kept replica) {entry : PendingEntry Client}
    {invocation : CommandInvocation} (rebasable : Rebasable replica.opCounter entry)
    (command : invocation.command = entry.invocation.command)
    (executed : DocumentStore.execute env.registry context replica.doc invocation =
      .ok doc forward inverse diagnostics) :
    Kept (replica.survive entry (replica.store.commitDispatch invocation doc forward inverse).1
      invocation forward inverse) := by
  have records := (DocumentStore.execute_ok executed).1
  constructor
  · exact minted_nextOpId kept (Nat.le_succ_of_le rebasable.begun)
  · exact kept.confirmed
  · exact (records.plain kept.doc).1
  · exact forall_mem_concat kept.predicted records.wirePlain
  · exact kept.sent
  · apply forall_mem_concat kept.replays
    rw [command]
    exact rebasable.replays
  · apply forall_mem_concat
    · exact fun other member => Nat.le_succ_of_le (kept.begun other member)
    · exact Nat.le_succ_of_le rebasable.begun

def rebasedEntries (entries : List (PendingEntry Client × Bool)) :
    List (Replication.Intention (OpId Client) (Option (List PatchOp)) (List WirePatchOp)) :=
  (entries.filter fun marked => !marked.2).map fun marked => marked.1.view

theorem survive_refines (kept : Kept replica) (named : replica.nonce = client)
    {entry : PendingEntry Client} {oldDoc : Option Json}
    {rest : List (Replication.Intention (OpId Client) (Option (List PatchOp)) (List WirePatchOp))}
    {final : Replication.State (OpId Client) (Option (List PatchOp)) Value (List WirePatchOp)}
    (executed : DocumentStore.execute env.registry .sharedReplay replica.doc
        (Replica.rebasedInvocation env oldDoc replica.doc entry.invocation) =
      .ok doc forward inverse diagnostics)
    (made : standard replica.doc.value entry.recorded (toWirePatch forward))
    (later : Replication.Rebuilds (replicaProtocol standard initial client) ((replica.survive entry
        (replica.store.commitDispatch
          (Replica.rebasedInvocation env oldDoc replica.doc entry.invocation) doc forward inverse).1
        (Replica.rebasedInvocation env oldDoc replica.doc entry.invocation) forward
        inverse).view log target) rest final) :
    Replication.Rebuilds (replicaProtocol standard initial client) (replica.view log target)
      (entry.view :: rest) final := by
  have records := (DocumentStore.execute_ok executed).1
  have applied : applyWire replica.doc.value (toWirePatch forward) = some doc.value := by
    rw [applyWire_toWirePatch, records.forward_value]
  apply Replication.Rebuilds.survive replica.nextOpId (toWirePatch forward) doc.value named
    (fresh_nextOpId kept) applied made
  · intro attempt
    exact mem_filter.trans (and_congr_right fun _ => decide_eq_true_iff)
  · convert later using 1
    simp only [Replica.view, Replica.survive, Replica.doc, DocumentStore.commitDispatch,
      map_append, map_cons, map_nil, PendingEntry.view, filter_map]
    rfl

theorem rebaseLoop_refines (admits : standard.AdmitsCommands env)
    {entries : List (PendingEntry Client × Bool)} (oldDoc : Option Json)
    (kept : Kept replica) (named : replica.nonce = client)
    (rebasable : ∀ marked ∈ entries, marked.2 = false → Rebasable replica.opCounter marked.1)
    (meets : ∀ again ∈ Replica.reexecutions env oldDoc replica.doc entries, again.Meets standard) :
    Replication.Rebuilds (replicaProtocol standard initial client) (replica.view log target)
        (rebasedEntries entries)
        ((Replica.rebaseLoop env oldDoc replica entries).1.view log target) ∧
      Kept (Replica.rebaseLoop env oldDoc replica entries).1 ∧
      (Replica.rebaseLoop env oldDoc replica entries).1.nonce = client := by
  induction entries generalizing oldDoc replica with
  | nil => exact ⟨.done, kept, named⟩
  | cons marked rest ih =>
    obtain ⟨entry, skipped⟩ := marked
    have restRebasable : ∀ marked ∈ rest, marked.2 = false → Rebasable replica.opCounter marked.1 :=
      fun marked member => rebasable marked (mem_cons_of_mem _ member)
    cases skipped with
    | true => exact ih (Replica.advanceOldDoc oldDoc entry.predicted) kept named restRebasable meets
    | false =>
      have here := rebasable (entry, false) mem_cons_self rfl
      rw [Replica.rebaseLoop_cons_false]
      rcases Replica.reexecute_cases env oldDoc replica entry with ⟨idle, conflicts, dropped⟩ |
        ⟨doc, forward, inverse, diagnostics, executed, changed, survived⟩
      · rw [Replica.reexecutions_cons_of_idle rest idle] at meets
        rw [dropped]
        have alike := bare_removeRecord replica entry.record
        have counter : (replica.removeRecord entry.record).opCounter = replica.opCounter := by
          cases entry.record <;> rfl
        have nonce : (replica.removeRecord entry.record).nonce = replica.nonce := by
          cases entry.record <;> rfl
        have same : (replica.removeRecord entry.record).doc = replica.doc := by
          cases entry.record <;> rfl
        obtain ⟨rebuilt, final⟩ := ih (Replica.advanceOldDoc oldDoc entry.predicted)
          (kept.of_bare alike) (nonce.trans named)
          (fun marked member keeps => counter ▸ restRebasable marked member keeps)
          (same ▸ meets)
        rw [view_eq_of_bare alike] at rebuilt
        exact ⟨.drop rebuilt, final⟩
      · rw [Replica.reexecutions_cons_of_executed rest executed changed] at meets
        rw [survived]
        obtain ⟨rebuilt, final⟩ := ih (Replica.advanceOldDoc oldDoc entry.predicted)
          (kept_survive kept here (command_rebasedInvocation _ _ _) executed) named
          (fun marked member keeps =>
            let before := restRebasable marked member keeps
            ⟨Nat.le_succ_of_le before.begun, before.replays⟩)
          (fun again member => meets again (mem_cons_of_mem _ member))
        have made : standard replica.doc.value entry.recorded (toWirePatch forward) := by
          cases recorded : entry.recorded with
          | none =>
            refine admits ?_ kept.doc executed
            rw [command_rebasedInvocation]
            exact here.replays.mp recorded
          | some ops => exact meets _ mem_cons_self ops recorded
        exact ⟨survive_refines kept named executed made rebuilt, final⟩

theorem getElem?_of_mem_mapIdx {Element Mark : Type} {elements : List Element}
    {mark : Nat → Element → Mark} {marked : Element × Mark}
    (member : marked ∈ elements.mapIdx fun position element => (element, mark position element)) :
    ∃ position, elements[position]? = some marked.1 ∧ mark position marked.1 = marked.2 := by
  obtain ⟨position, inside, rfl⟩ := mem_mapIdx.mp member
  exact ⟨position, getElem?_eq_getElem inside, rfl⟩

/-- The store a rebase starts from holds the confirmed document. -/
theorem currentDoc_of_createStore {store : DocumentStore} (plain : doc.Plain)
    (created : createStore doc = .ok store) : store.currentDoc = doc := by
  unfold createStore DocumentStore.create at created
  cases accepted : ownJson doc with
  | error reason => simp [accepted] at created
  | ok owned =>
    simp only [accepted, Except.ok.injEq] at created
    rw [← created]
    exact ((ownJson_eq_ok_iff plain).mp accepted).2.symm

theorem rebase_refines (admits : standard.AdmitsCommands env) (kept : Kept replica)
    (named : replica.nonce = client) {oldGround : Json} {skipped : Nat → PendingEntry Client → Bool}
    (meets : ∀ again ∈ Replica.reexecutions env (some oldGround) replica.confirmed
      (replica.pending.mapIdx fun position entry => (entry, skipped position entry)),
      again.Meets standard) (rebased : replica.rebase env oldGround skipped = .done next) :
    ∃ survivors : List (PendingEntry Client),
      (survivors.map PendingEntry.view).Sublist (replica.view log target).pending ∧
      (∀ survivor ∈ survivors, ∃ position, replica.pending[position]? = some survivor ∧
        skipped position survivor = false) ∧
      Replication.Rebuilds (replicaProtocol standard initial client)
        ((replica.view log target).detach replica.confirmed.value replica.confirmedRevision target)
        (survivors.map PendingEntry.view) (next.view log target) ∧
      Kept next ∧ next.nonce = client := by
  obtain ⟨store, created, made⟩ := Replica.rebase_eq_done rebased
  have owned := currentDoc_of_createStore kept.confirmed created
  generalize marks : (replica.pending.mapIdx fun position entry =>
    (entry, skipped position entry)) = entries at made meets
  have located : ∀ marked ∈ entries, ∃ position, replica.pending[position]? = some marked.1 ∧
      skipped position marked.1 = marked.2 := by
    intro marked member
    rw [← marks] at member
    exact getElem?_of_mem_mapIdx member
  have restarted : Kept { replica with store, pending := [] } := by
    constructor
    · exact kept.minted
    · exact kept.confirmed
    · show store.currentDoc.Plain
      exact owned ▸ kept.confirmed
    · simp
    · exact kept.sent
    all_goals simp
  have rebasable : ∀ marked ∈ entries, marked.2 = false → Rebasable replica.opCounter marked.1 := by
    intro marked member unmarked
    obtain ⟨position, found, _⟩ := located marked member
    have pending := mem_of_getElem? found
    exact ⟨kept.begun _ pending, kept.replays _ pending⟩
  have ground : ({ replica with store, pending := [] } : Replica Client).doc = replica.confirmed :=
    owned
  obtain ⟨rebuilt, finalKept, finalNamed⟩ := @rebaseLoop_refines _ _ env standard initial client log
    target _ admits entries (some oldGround) restarted named rebasable (ground ▸ meets)
  have view : next.view log target = (Replica.rebaseLoop env (some oldGround)
      { replica with store, pending := [] } entries).1.view log target := by
    rw [made]
    rfl
  have ground : ({ replica with store, pending := [] } : Replica Client).view log target =
      (replica.view log target).detach replica.confirmed.value replica.confirmedRevision
        target := by
    simp only [Replica.view, Replication.State.detach, Replica.doc, owned, map_nil]
  refine ⟨(entries.filter fun marked => !marked.2).map Prod.fst, ?_, ?_, ?_, ?_, ?_⟩
  · have whole : entries.map Prod.fst = replica.pending := by
      rw [← marks, mapIdx_eq_zipIdx_map, map_map]
      exact zipIdx_map_fst 0 replica.pending
    show List.Sublist _ (replica.pending.map PendingEntry.view)
    rw [← whole]
    exact (filter_sublist.map _).map _
  · intro survivor member
    obtain ⟨marked, inside, rfl⟩ := mem_map.mp member
    obtain ⟨chosen, unmarked⟩ := mem_filter.mp inside
    obtain ⟨position, found, same⟩ := located marked chosen
    exact ⟨position, found, by simpa [same] using unmarked⟩
  · rw [view, ← ground, map_map]
    exact rebuilt
  · rw [made]
    exact finalKept.of_bare rfl
  · rw [made]
    exact finalNamed

end Steps

end Dinkster.Collab
