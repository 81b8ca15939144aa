import Dinkster.Commands.Replay

/-!
# The document store

The store owns the authoritative document, the revision counter and the undo and
redo stacks.  A dispatch runs a command on a transaction, checks the structural
invariants and commits atomically or rejects; undo and redo replay recorded
patches.  This module is the store without its observers.
-/

namespace Dinkster.Commands

open Library Format

/-- What a store is built with: the command registry and the invariant checker. -/
structure Environment (Authority : Type) where
  commands : String → Option (CommandDefinition Authority)
  checkDocument : Json → List Diagnostic

/-- `TransactionRecord`: a committed transaction kept in history. -/
structure TransactionRecord where
  revision : Nat
  invocation : CommandInvocation
  forward : List PatchOp
  inverse : List PatchOp

inductive CommitKind where
  | dispatch
  | undo
  | redo
  deriving DecidableEq

/-- `TransactionEvent`: one committed change, with the operations that were
applied. -/
structure TransactionEvent where
  kind : CommitKind
  record : TransactionRecord
  revision : Nat
  patch : List PatchOp

/-- `DocumentStore`.  The stacks hold their newest record first. -/
structure DocumentStore where
  currentDoc : Json
  revisionCounter : Nat
  undoStack : List TransactionRecord
  redoStack : List TransactionRecord
  maxUndo : Nat

/-- What undo and redo come to. -/
inductive HistoryOutcome where
  | nothing
  | threw (message : String)
  | committed (event : TransactionEvent)

namespace DocumentStore

variable {Authority : Type}

def create (initial : Json) (maxUndo : Nat) : Except String DocumentStore :=
  match ownJson initial with
  | .error reason => .error s!"DocumentStore: initial document is not JSON: {reason}"
  | .ok owned => .ok ⟨owned, 0, [], [], maxUndo⟩

/-- `dispatch` up to the commit. -/
def execute (env : Environment Authority) (context : CommandExecutionContext Authority)
    (doc : Json) (invocation : CommandInvocation) : CommandOutcome :=
  match env.commands invocation.command with
  | none =>
    .rejected [commandError "command.unknown" s!"unknown command '{invocation.command}'"]
  | some definition =>
    if invocation.actor.any fun actor => !isValidActorId actor then
      let actor := (invocation.actor.getD "").quote
      .rejected [commandError "command.actor.invalid"
        s!"Actor {actor}: id contains characters outside [A-Za-z0-9_-]"]
    else
      match ownJson invocation.params with
      | .error reason =>
        .rejected [commandError "command.params.notJson"
          s!"{invocation.command}: params are not JSON: {reason}"]
      | .ok params =>
        match executeCommand definition params (.create doc invocation.actor) context with
        | .error message =>
          .rejected [commandError "command.threw" s!"{invocation.command}: {message}"]
        | .ok (commandDiags, tx) =>
          if hasErrors commandDiags then
            .rejected commandDiags
          else if tx.forward.isEmpty then
            .ok doc tx.forward tx.inverse commandDiags
          else
            let invariantDiags := env.checkDocument tx.working
            if hasErrors invariantDiags then
              .rejected (commandDiags ++ invariantDiags)
            else
              .ok tx.working tx.forward tx.inverse (commandDiags ++ invariantDiags)

/-- The owned copy of an invocation that a record keeps. -/
def ownedInvocation (invocation : CommandInvocation) : CommandInvocation :=
  match ownJson invocation.params with
  | .ok params => { invocation with params := params }
  | .error _ => invocation

/-- Push a record and let the oldest one fall off a full stack. -/
def pushBounded {Record : Type} (maxUndo : Nat) (record : Record) (stack : List Record) :
    List Record :=
  if (record :: stack).length > maxUndo then (record :: stack).dropLast else record :: stack

variable (store : DocumentStore)

def commitDispatch (invocation : CommandInvocation) (doc : Json)
    (forward inverse : List PatchOp) : DocumentStore × TransactionEvent :=
  let revision := store.revisionCounter + 1
  let record := ⟨revision, ownedInvocation invocation, forward, inverse⟩
  ({ store with
      currentDoc := doc
      revisionCounter := revision
      undoStack := pushBounded store.maxUndo record store.undoStack
      redoStack := [] },
    ⟨.dispatch, record, revision, forward⟩)

/-- `dispatch`: the outcome, the store after it, and the event of its commit. -/
def dispatch (env : Environment Authority) (context : CommandExecutionContext Authority)
    (store : DocumentStore) (invocation : CommandInvocation) :
    CommandOutcome × DocumentStore × Option TransactionEvent :=
  match execute env context store.currentDoc invocation with
  | .rejected diagnostics => (.rejected diagnostics, store, none)
  | .ok doc forward inverse diagnostics =>
    if forward.isEmpty then
      (.ok doc forward inverse diagnostics, store, none)
    else
      let (next, event) := store.commitDispatch invocation doc forward inverse
      (.ok doc forward inverse diagnostics, next, some event)

/-- `undo`: replay the inverse operations of the newest record.  A replay that
throws has already popped its record. -/
def undo (store : DocumentStore) : HistoryOutcome × DocumentStore :=
  match store.undoStack with
  | [] => (.nothing, store)
  | record :: rest =>
    match replayHistoryOps store.currentDoc record.inverse false with
    | .error message => (.threw message, { store with undoStack := rest })
    | .ok replay =>
      let revision := store.revisionCounter + 1
      (.committed ⟨.undo, record, revision, replay.applied⟩,
        { store with
          currentDoc := replay.doc
          revisionCounter := revision
          undoStack := rest
          redoStack := record :: store.redoStack })

/-- `redo`: replay the forward operations of the newest undone record. -/
def redo (store : DocumentStore) : HistoryOutcome × DocumentStore :=
  match store.redoStack with
  | [] => (.nothing, store)
  | record :: rest =>
    match replayHistoryOps store.currentDoc record.forward false with
    | .error message => (.threw message, { store with redoStack := rest })
    | .ok replay =>
      let revision := store.revisionCounter + 1
      (.committed ⟨.redo, record, revision, replay.applied⟩,
        { store with
          currentDoc := replay.doc
          revisionCounter := revision
          undoStack := record :: store.undoStack
          redoStack := rest })

def clearHistory : DocumentStore :=
  { store with undoStack := [], redoStack := [] }

variable {context : CommandExecutionContext Authority} {diagnostics : List Diagnostic}
    {env : Environment Authority} {forward inverse : List PatchOp}
    {invocation : CommandInvocation}

/-- An accepted command has recorded its result on a transaction. -/
theorem execute_ok {doc next : Json}
    (accepted : execute env context doc invocation = .ok next forward inverse diagnostics) :
    Records doc forward next ∧ inverse = invertOps forward ∧
      (forward ≠ [] → hasErrors (env.checkDocument next) = false) := by
  unfold execute at accepted
  split at accepted
  · simp at accepted
  split at accepted
  · simp at accepted
  split at accepted
  · simp at accepted
  split at accepted
  · simp at accepted
  rename_i commandDiags tx executed
  split at accepted
  · simp at accepted
  split at accepted
  · rename_i empty
    obtain ⟨rfl, rfl, rfl, -⟩ := CommandOutcome.ok.inj accepted
    have none : tx.forward = [] := List.isEmpty_iff.mp empty
    rw [none]
    exact ⟨.start, by rw [Transaction.inverse, none], fun some => absurd rfl some⟩
  · dsimp only at accepted
    split at accepted
    · simp at accepted
    · rename_i clean
      obtain ⟨rfl, rfl, rfl, -⟩ := CommandOutcome.ok.inj accepted
      exact ⟨tx.records, rfl, fun _ => by simpa using clean⟩

theorem performCalls_of_execute {doc next : Json}
    (accepted : execute env context doc invocation = .ok next forward inverse diagnostics)
    (changed : forward ≠ []) :
    ∃ definition params tx, env.commands invocation.command = some definition ∧
      ownJson invocation.params = .ok params ∧ performCalls (.create doc invocation.actor)
        (definition.run doc params invocation.actor context).calls = .ok tx ∧
      tx.forward = forward ∧ tx.working = next := by
  unfold execute at accepted
  split at accepted
  · simp at accepted
  rename_i definition registered
  split at accepted
  · simp at accepted
  split at accepted
  · simp at accepted
  rename_i params owned
  split at accepted
  · simp at accepted
  rename_i commandDiags tx executed
  have result : tx.forward = forward ∧ (tx.forward ≠ [] → tx.working = next) := by
    split at accepted
    · simp at accepted
    split at accepted
    · rename_i empty
      obtain ⟨_, rfl, _, _⟩ := CommandOutcome.ok.inj accepted
      exact ⟨rfl, fun nonempty => absurd (List.isEmpty_iff.mp empty) nonempty⟩
    · dsimp only at accepted
      split at accepted
      · simp at accepted
      · obtain ⟨rfl, rfl, _, _⟩ := CommandOutcome.ok.inj accepted
        exact ⟨rfl, fun _ => rfl⟩
  obtain ⟨rfl, final⟩ := result
  refine ⟨definition, params, tx, registered, owned, ?_, rfl, final changed⟩
  rcases executeCommand_cases executed with rfl | performed
  · exact absurd rfl changed
  · exact performed

theorem dispatch_cases (env : Environment Authority) (context : CommandExecutionContext Authority)
    (store : DocumentStore) (invocation : CommandInvocation) :
    (∃ outcome, execute env context store.currentDoc invocation = outcome ∧
        store.dispatch env context invocation = (outcome, store, none) ∧
        ∀ doc forward inverse diagnostics,
          outcome = .ok doc forward inverse diagnostics → forward = []) ∨
      ∃ doc forward inverse diagnostics,
        execute env context store.currentDoc invocation = .ok doc forward inverse diagnostics ∧
        forward ≠ [] ∧ store.dispatch env context invocation = (.ok doc forward inverse diagnostics,
            (store.commitDispatch invocation doc forward inverse).1,
            some (store.commitDispatch invocation doc forward inverse).2) := by
  unfold dispatch
  cases executed : execute env context store.currentDoc invocation with
  | rejected diagnostics => exact .inl ⟨_, rfl, rfl, fun _ _ _ _ impossible => by simp at impossible⟩
  | ok doc forward inverse diagnostics =>
    by_cases empty : forward.isEmpty
    · refine .inl ⟨_, rfl, if_pos empty, fun _ _ _ _ equal => ?_⟩
      obtain ⟨-, rfl, -, -⟩ := CommandOutcome.ok.inj equal
      exact List.isEmpty_iff.mp empty
    · refine .inr ⟨doc, forward, inverse, diagnostics, rfl, ?_, if_neg empty⟩
      rintro rfl
      exact empty rfl

structure Commits (store next : DocumentStore) (event : TransactionEvent) : Prop where
  revised : next.revisionCounter = store.revisionCounter + 1
  stamped : event.revision = next.revisionCounter
  applied : applyOwnedOps store.currentDoc event.patch = .ok next.currentDoc

/-- The store after a call that did not commit. -/
structure Keeps (store next : DocumentStore) : Prop where
  revision : next.revisionCounter = store.revisionCounter
  doc : next.currentDoc = store.currentDoc

/-- What a store call comes to. -/
def Settles (event : Option TransactionEvent) (next : DocumentStore) : Prop :=
  match event with
  | some event => Commits store next event
  | none => Keeps store next

theorem settles_dispatch (env : Environment Authority)
    (context : CommandExecutionContext Authority) (store : DocumentStore)
    (invocation : CommandInvocation) : Settles store (store.dispatch env context invocation).2.2
      (store.dispatch env context invocation).2.1 := by
  rcases dispatch_cases env context store invocation with
    ⟨outcome, _, unchanged, _⟩ | ⟨doc, forward, inverse, diagnostics, executed, _, committed⟩
  · rw [unchanged]
    exact ⟨rfl, rfl⟩
  · rw [committed]
    exact ⟨rfl, rfl, (execute_ok executed).1.applied⟩

/-- The event of what undo or redo comes to. -/
def historyEvent : HistoryOutcome → Option TransactionEvent
  | .committed event => some event
  | _ => none

theorem settles_undo : Settles store (historyEvent store.undo.1) store.undo.2 := by
  unfold undo
  split
  · exact ⟨rfl, rfl⟩
  · split
    · exact ⟨rfl, rfl⟩
    · rename_i replayed
      exact ⟨rfl, rfl, replayHistoryOps_applied replayed⟩

theorem settles_redo : Settles store (historyEvent store.redo.1) store.redo.2 := by
  unfold redo
  split
  · exact ⟨rfl, rfl⟩
  · split
    · exact ⟨rfl, rfl⟩
    · rename_i replayed
      exact ⟨rfl, rfl, replayHistoryOps_applied replayed⟩

end DocumentStore

end Dinkster.Commands
