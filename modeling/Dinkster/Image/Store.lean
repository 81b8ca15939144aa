import Dinkster.Image.Session

/-!
# The image document store

`ImageDocumentStore` holds a document, its revision and the history of the commands that were
dispatched.  A commit counts a revision, notifies the subscribers of the document signal, makes
the transaction and calls the transaction listeners with it.

A subscriber or a listener may call the store again before the notification that called it goes
on.  The commits underway form a stack: each has observers left to call, and is being called
back or not.
-/

namespace Dinkster.Image

open Library Format Commands
open Collab (HistoryDirection)

/-- `ImageDocumentTransaction`, without its timestamp. -/
structure ImageDocumentTransaction where
  revision : Nat
  invocation : Json
  forward : OwnedOps
  inverse : OwnedOps

inductive CommitPhase where
  | signal (invocation : Json) (forward inverse : OwnedOps)
  | transaction (transaction : ImageDocumentTransaction)

/-- A `commit` underway: its phase, the observers it has not called, and whether a call to one
has not returned. -/
structure CommitFrame (Observer : Type) where
  phase : CommitPhase
  remaining : List Observer
  calling : Bool

/-- `ImageDocumentStore`, with the stack of its commits.  Its history lists the patches that were
applied, the transactions that were made and returned, and the deliveries to the transaction
listeners, oldest first. -/
structure ImageDocumentStore (Observer : Type) where
  current : Json
  currentRevision : Nat
  undoStack : List HistoryRecord
  redoStack : List HistoryRecord
  maxUndo : Nat
  subscribers : List Observer
  listeners : List Observer
  frames : List (CommitFrame Observer)
  applied : List OwnedOps
  transactions : List ImageDocumentTransaction
  delivered : List (Observer × ImageDocumentTransaction)
  returned : List ImageDocumentTransaction

/-- What is done to a store: a method is called, or the innermost commit goes on. -/
inductive StoreAction where
  | dispatch (invocation : Json)
  | replay (direction : HistoryDirection)
  | clearHistory
  | call
  | callReturned
  | finish
  deriving DecidableEq

namespace ImageDocumentStore

variable {Observer : Type} (env : ImageEnvironment)

section Methods

/-- The constructor, which throws unless the document is valid.  The observers are sets. -/
def create [DecidableEq Observer] (initial : Json) (maxUndo : Nat)
    (subscribers listeners : List Observer) : Option (ImageDocumentStore Observer) :=
  (env.load initial).map fun document =>
    { current := document, currentRevision := 0, undoStack := [], redoStack := [], maxUndo,
      subscribers := subscribers.dedup, listeners := listeners.dedup, frames := [],
      applied := [], transactions := [], delivered := [], returned := [] }

/-- `replay`, which throws where there is no document. -/
def replayed (document : Json) (operations : OwnedOps) : Option Json :=
  (applyOwnedOps document operations.val).toOption.bind env.load

variable (store : ImageDocumentStore Observer)

/-- The start of `commit`, up to the first call of a subscriber: the signal is set to a document
of its own and so notifies. -/
def commit (invocation : Json) (forward inverse : OwnedOps) : ImageDocumentStore Observer :=
  { store with
    currentRevision := store.currentRevision + 1
    frames := ⟨.signal invocation forward inverse, store.subscribers, false⟩ :: store.frames
    applied := store.applied ++ [forward] }

/-- `dispatch`, where the command is accepted.  The newest record comes first. -/
def accept (plan : ImageDocumentCommandPlan) : ImageDocumentStore Observer :=
  let pushed := ⟨plan.redo, plan.inverse⟩ :: store.undoStack
  commit { store with
    current := plan.document
    undoStack := if store.maxUndo < pushed.length then pushed.dropLast else pushed
    redoStack := [] } plan.invocation plan.forward plan.inverse

def history : HistoryDirection → List HistoryRecord
  | .undo => store.undoStack
  | .redo => store.redoStack

/-- The record that `undo` or `redo` replays, and what it makes of the document. -/
def replays (direction : HistoryDirection) : Option (HistoryRecord × Json) :=
  (store.history direction).head?.bind fun record =>
    (replayed env store.current (record.replayed direction)).map fun document =>
      (record, document)

/-- `undo` or `redo`, where there is a record and its replay does not throw. -/
def rewind (direction : HistoryDirection)
    (record : HistoryRecord) (document : Json) : ImageDocumentStore Observer :=
  match direction with
  | .undo =>
    commit { store with
      current := document
      undoStack := store.undoStack.tail
      redoStack := record :: store.redoStack }
      (.obj [("command", .str "image.undo")]) record.inverse record.forward
  | .redo =>
    commit { store with
      current := document
      redoStack := store.redoStack.tail
      undoStack := record :: store.undoStack }
      (.obj [("command", .str "image.redo")]) record.forward record.inverse

end Methods

variable (store : ImageDocumentStore Observer)

/-- Whether the caller of the store has control: nothing is underway, or an observer is being
called. -/
def idle : Bool :=
  store.frames.head?.all (·.calling)

/-- The innermost commit calls its next observer. -/
def call : Option (ImageDocumentStore Observer) :=
  match store.frames with
  | ⟨.signal invocation forward inverse, _ :: rest, false⟩ :: outer =>
    some { store with frames := ⟨.signal invocation forward inverse, rest, true⟩ :: outer }
  | ⟨.transaction transaction, observer :: rest, false⟩ :: outer =>
    some { store with
      frames := ⟨.transaction transaction, rest, true⟩ :: outer
      delivered := store.delivered ++ [(observer, transaction)] }
  | _ => none

/-- The observer that the innermost commit called returns, or throws, which is caught. -/
def callReturned : Option (ImageDocumentStore Observer) :=
  match store.frames with
  | ⟨phase, remaining, true⟩ :: outer =>
    some { store with frames := ⟨phase, remaining, false⟩ :: outer }
  | _ => none

/-- The innermost commit has called its observers: the transaction is made with the revision the
store has by then, or returned. -/
def finish : Option (ImageDocumentStore Observer) :=
  match store.frames with
  | ⟨.signal invocation forward inverse, [], false⟩ :: outer =>
    let transaction : ImageDocumentTransaction :=
      ⟨store.currentRevision, invocation, forward, inverse⟩
    some { store with
      frames := ⟨.transaction transaction, store.listeners, false⟩ :: outer
      transactions := store.transactions ++ [transaction] }
  | ⟨.transaction transaction, [], false⟩ :: outer =>
    some { store with frames := outer, returned := store.returned ++ [transaction] }
  | _ => none

/-- A call of `dispatch`, which changes nothing where the command is refused. -/
def dispatch (invocation : Json) : ImageDocumentStore Observer :=
  match planImageDocumentCommand env store.current invocation with
  | some plan => store.accept plan
  | none => store

/-- A call of `undo` or `redo`, which changes nothing where there is no record or its replay
throws. -/
def replay (direction : HistoryDirection) : ImageDocumentStore Observer :=
  match store.replays env direction with
  | some (record, document) => store.rewind direction record document
  | none => store

def step : StoreAction → Option (ImageDocumentStore Observer)
  | .dispatch invocation => if store.idle then some (store.dispatch env invocation) else none
  | .replay direction => if store.idle then some (store.replay env direction) else none
  | .clearHistory =>
    if store.idle then some { store with undoStack := [], redoStack := [] } else none
  | .call => store.call
  | .callReturned => store.callReturned
  | .finish => store.finish

end ImageDocumentStore

end Dinkster.Image
