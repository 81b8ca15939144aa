import Dinkster.Commands.SessionPatch
import Dinkster.Library.Transition

/-!
# Notification order

A document or transaction listener may synchronously dispatch, undo or redo.  The
store therefore makes a commit authoritative at once but queues its notification,
and only the outermost commit drains the queue: for each queued commit the
document signal notifies its subscribers, if the document is a new one, and then
the transaction listeners are called.

The machine below takes one listener call at a time.  Between two calls the
listener that was just called may do anything: commit again, subscribe,
unsubscribe or throw.  What was committed and delivered is recorded on the side.
-/

namespace Dinkster.Commands

open Library Format List Option

/-- A document object, as the signal compares it. -/
structure DocumentRef where
  identity : Nat
  json : Json

/-- A queued commit: its document and its event. -/
abbrev Commit := DocumentRef × TransactionEvent

/-- How far the outermost commit has drained the queue. -/
inductive NotifyPhase (Listener : Type) where
  | idle
  | draining
  | documents (commit : Commit) (remaining : List Listener)
  | transactions (commit : Commit) (remaining : List Listener)

/-- A store with its observers.  `committed`, `documentsSeen` and `eventsSeen`
record what happened, oldest first. -/
structure NotifyingStore (Listener : Type) where
  store : DocumentStore
  identity : Nat
  signal : DocumentRef
  queue : List Commit
  phase : NotifyPhase Listener
  documentListeners : List Listener
  transactionListeners : List Listener
  committed : List Commit
  documentsSeen : List (Listener × DocumentRef)
  eventsSeen : List (Listener × Commit)

/-- What can happen to a store with observers. -/
inductive NotifyAction (Listener Authority : Type) where
  | dispatch (invocation : CommandInvocation) (context : CommandExecutionContext Authority)
  | undo
  | redo
  | clearHistory
  | subscribeDocument (listener : Listener)
  | unsubscribeDocument (listener : Listener)
  | subscribeTransaction (listener : Listener)
  | unsubscribeTransaction (listener : Listener)
  | listenerThrows
  | advance

namespace NotifyingStore

variable {Listener Authority : Type}

def observe (store : DocumentStore) : NotifyingStore Listener where
  store := store
  identity := 0
  signal := ⟨0, store.currentDoc⟩
  queue := []
  phase := .idle
  documentListeners := []
  transactionListeners := []
  committed := []
  documentsSeen := []
  eventsSeen := []

def current (state : NotifyingStore Listener) : DocumentRef :=
  ⟨state.identity, state.store.currentDoc⟩

/-- `commit`: adopt the store after a commit and queue the notification.  A commit
that applied no operation keeps the document object. -/
def commit (state : NotifyingStore Listener) (store : DocumentStore) (event : TransactionEvent) :
    NotifyingStore Listener :=
  let identity := if event.patch.isEmpty then state.identity else state.committed.length + 1
  let item := (⟨identity, store.currentDoc⟩, event)
  { state with
    store := store
    identity := identity
    queue := state.queue ++ [item]
    committed := state.committed ++ [item]
    phase := match state.phase with
      | .idle => .draining
      | phase => phase }

/-- Adopt what a store call came to. -/
def settle (state : NotifyingStore Listener) (event : Option TransactionEvent)
    (store : DocumentStore) : NotifyingStore Listener :=
  match event with
  | some event => state.commit store event
  | none => { state with store := store }

def holding (state : NotifyingStore Listener) : Option Commit :=
  match state.phase with
  | .documents item _ => some item
  | .transactions item _ => some item
  | _ => none

/-- Whether a document listener is still to be called for the commit in flight. -/
def documentOwed (state : NotifyingStore Listener) (listener : Listener) : Prop :=
  match state.phase with
  | .documents _ remaining => listener ∈ remaining
  | _ => False

section Listeners

variable [DecidableEq Listener]

def addListener (listeners : List Listener) (listener : Listener) : List Listener :=
  if listener ∈ listeners then listeners else listeners ++ [listener]

/-- One step of the drain loop. -/
def advance (state : NotifyingStore Listener) : Option (NotifyingStore Listener) :=
  match state.phase with
  | .idle => none
  | .draining =>
    match state.queue with
    | [] => some { state with phase := .idle }
    | item :: rest =>
      if item.1.identity = state.signal.identity then
        some { state with
          queue := rest
          phase := .transactions item state.transactionListeners }
      else
        some { state with
          queue := rest
          signal := item.1
          phase := .documents item state.documentListeners }
  | .documents item [] =>
    some { state with phase := .transactions item state.transactionListeners }
  | .documents item (listener :: rest) =>
    some { state with
      phase := .documents item rest
      documentsSeen := state.documentsSeen ++ [(listener, item.1)] }
  | .transactions _ [] => some { state with phase := .draining }
  | .transactions item (listener :: rest) =>
    some { state with
      phase := .transactions item rest
      eventsSeen := state.eventsSeen ++ [(listener, state.signal, item.2)] }

def step (env : Environment Authority) (state : NotifyingStore Listener) :
    NotifyAction Listener Authority → Option (NotifyingStore Listener)
  | .dispatch invocation context =>
    let result := state.store.dispatch env context invocation
    some (state.settle result.2.2 result.2.1)
  | .undo =>
    let result := state.store.undo
    some (state.settle (DocumentStore.historyEvent result.1) result.2)
  | .redo =>
    let result := state.store.redo
    some (state.settle (DocumentStore.historyEvent result.1) result.2)
  | .clearHistory => some { state with store := state.store.clearHistory }
  | .subscribeDocument listener =>
    some { state with documentListeners := addListener state.documentListeners listener }
  | .unsubscribeDocument listener =>
    some { state with documentListeners := state.documentListeners.erase listener }
  | .subscribeTransaction listener =>
    some { state with transactionListeners := addListener state.transactionListeners listener }
  | .unsubscribeTransaction listener =>
    some { state with transactionListeners := state.transactionListeners.erase listener }
  | .listenerThrows => some state
  | .advance => state.advance

/-- The events a listener has received, each with the document the signal held. -/
def eventsOf (state : NotifyingStore Listener) (listener : Listener) : List Commit :=
  (state.eventsSeen.filter fun seen => seen.1 = listener).map Prod.snd

def documentsOf (state : NotifyingStore Listener) (listener : Listener) : List DocumentRef :=
  (state.documentsSeen.filter fun seen => seen.1 = listener).map Prod.snd

def inFlight (state : NotifyingStore Listener) (listener : Listener) : List Commit :=
  match state.phase with
  | .documents item _ => [item]
  | .transactions item remaining => if listener ∈ remaining then [item] else []
  | _ => []

def owed (state : NotifyingStore Listener) (listener : Listener) : List Commit :=
  state.inFlight listener ++ state.queue

/-! ## Steps -/

theorem step_cases {env : Environment Authority} {state next : NotifyingStore Listener}
    {action : NotifyAction Listener Authority} (taken : step env state action = some next) :
    (∃ event store, state.store.Settles event store ∧ next = state.settle event store) ∨
      (∃ documents transactions, next = { state with
          documentListeners := documents
          transactionListeners := transactions } ∧
        (state.transactionListeners.Nodup → transactions.Nodup) ∧
        (∀ listener, action ≠ .unsubscribeTransaction listener →
          listener ∈ state.transactionListeners → listener ∈ transactions) ∧
        ∀ listener, action ≠ .unsubscribeDocument listener →
          listener ∈ state.documentListeners → listener ∈ documents) ∨
      state.advance = some next := by
  have added (listeners : List Listener) (listener : Listener) :
      (listeners.Nodup → (addListener listeners listener).Nodup) ∧
        ∀ other ∈ listeners, other ∈ addListener listeners listener := by
    unfold addListener
    split
    · exact ⟨id, fun _ member => member⟩
    · rename_i fresh
      refine ⟨fun distinct => ?_, fun _ member => mem_append_left _ member⟩
      refine nodup_append.mpr ⟨distinct, by simp, ?_⟩
      rintro other member _ last rfl
      exact fresh (mem_singleton.mp last ▸ member)
  cases action with
  | dispatch invocation context =>
    exact .inl ⟨_, _, DocumentStore.settles_dispatch env context state.store invocation,
      (some.inj taken).symm⟩
  | undo =>
    exact .inl ⟨_, _, DocumentStore.settles_undo state.store, (some.inj taken).symm⟩
  | redo =>
    exact .inl ⟨_, _, DocumentStore.settles_redo state.store, (some.inj taken).symm⟩
  | clearHistory =>
    exact .inl ⟨none, state.store.clearHistory, ⟨rfl, rfl⟩, (some.inj taken).symm⟩
  | subscribeDocument listener =>
    exact .inr (.inl ⟨_, _, (some.inj taken).symm, id, fun _ _ member => member,
      fun other _ => (added state.documentListeners listener).2 other⟩)
  | unsubscribeDocument listener =>
    refine .inr (.inl ⟨_, _, (some.inj taken).symm, id, fun _ _ member => member,
      fun other kept member => ?_⟩)
    have different : other ≠ listener := fun equal => kept (equal ▸ rfl)
    exact (mem_erase_of_ne different).mpr member
  | subscribeTransaction listener =>
    exact .inr (.inl ⟨_, _, (some.inj taken).symm, (added state.transactionListeners listener).1,
      fun other _ => (added state.transactionListeners listener).2 other,
      fun _ _ member => member⟩)
  | unsubscribeTransaction listener =>
    refine .inr (.inl ⟨_, _, (some.inj taken).symm,
      fun distinct => distinct.erase listener, fun other kept member => ?_,
      fun _ _ member => member⟩)
    have different : other ≠ listener := fun equal => kept (equal ▸ rfl)
    exact (mem_erase_of_ne different).mpr member
  | listenerThrows =>
    exact .inr (.inl ⟨state.documentListeners, state.transactionListeners,
      (some.inj taken).symm, id, fun _ _ member => member, fun _ _ member => member⟩)
  | advance => exact .inr (.inr taken)

end Listeners

variable {next : NotifyingStore Listener} {env : Environment Authority} {listener : Listener}
    {actions : List (NotifyAction Listener Authority)}

inductive Advances (state : NotifyingStore Listener) : NotifyingStore Listener → Prop
  | rests (phase : state.phase = .draining) (queued : state.queue = []) :
      Advances state { state with phase := .idle }
  | skips {item rest} (phase : state.phase = .draining) (queued : state.queue = item :: rest)
      (same : item.1.identity = state.signal.identity) :
      Advances state { state with
        queue := rest
        phase := .transactions item state.transactionListeners }
  | takes {item rest} (phase : state.phase = .draining) (queued : state.queue = item :: rest) :
      Advances state { state with
        queue := rest
        signal := item.1
        phase := .documents item state.documentListeners }
  | turns {item} (phase : state.phase = .documents item []) :
      Advances state { state with phase := .transactions item state.transactionListeners }
  | shows {item other rest} (phase : state.phase = .documents item (other :: rest)) :
      Advances state { state with
        phase := .documents item rest
        documentsSeen := state.documentsSeen ++ [(other, item.1)] }
  | returns {item} (phase : state.phase = .transactions item []) :
      Advances state { state with phase := .draining }
  | tells {item other rest} (phase : state.phase = .transactions item (other :: rest)) :
      Advances state { state with
        phase := .transactions item rest
        eventsSeen := state.eventsSeen ++ [(other, state.signal, item.2)] }

variable {state : NotifyingStore Listener} {store : DocumentStore}

theorem advance_cases (advanced : state.advance = some next) : Advances state next := by
  unfold advance at advanced
  split at advanced <;> try split at advanced
  all_goals try split at advanced
  all_goals cases advanced
  · exact .rests ‹_› ‹_›
  · exact .skips ‹_› ‹_› ‹_›
  · exact .takes ‹_› ‹_›
  · exact .turns ‹_›
  · exact .shows ‹_›
  · exact .returns ‹_›
  · exact .tells ‹_›

theorem advance_eq_none (stuck : state.advance = none) : state.phase = .idle := by
  unfold advance at stuck
  split at stuck <;> try split at stuck
  all_goals try split at stuck
  all_goals simp_all

/-- The drain loop changes neither listener set. -/
theorem advance_listeners (advanced : state.advance = some next) :
    next.documentListeners = state.documentListeners ∧
      next.transactionListeners = state.transactionListeners := by
  cases advance_cases advanced <;> exact ⟨rfl, rfl⟩

/-! ## Coherence -/

/-- The document the signal holds after the given commits. -/
def documentAfter (origin : DocumentRef) (commits : List Commit) : DocumentRef :=
  (commits.map Prod.fst).getLastD origin

/-- The commits are numbered, the queue is their undelivered tail, and the signal
holds the document of the last commit taken from the queue. -/
structure Coherent (origin : DocumentRef) (state : NotifyingStore Listener) : Prop where
  counted : state.store.revisionCounter = state.committed.length
  numbered : ∀ index item, state.committed[index]? = some item → item.2.revision = index + 1
  originBounded : origin.identity ≤ state.committed.length
  bounded : ∀ item ∈ state.committed, item.1.identity ≤ state.committed.length
  chained : ∀ front item back, state.committed = front ++ item :: back →
    item.1.identity = (documentAfter origin front).identity →
    item.1 = documentAfter origin front
  latest : documentAfter origin state.committed = state.current
  split : ∃ done, state.committed = done ++ state.queue ∧
    documentAfter origin done = state.signal ∧
    ∀ item, state.holding = some item → done.getLast? = some item
  quiet : state.phase = .idle → state.queue = []
  distinct : state.transactionListeners.Nodup
  remaining : ∀ item rest, state.phase = .transactions item rest → rest.Nodup

@[simp] theorem documentAfter_concat (origin : DocumentRef) (commits : List Commit)
    (item : Commit) : documentAfter origin (commits ++ [item]) = item.1 := by
  simp [documentAfter]

theorem coherent_observe (store : DocumentStore) (unrevised : store.revisionCounter = 0) :
    Coherent ⟨0, store.currentDoc⟩ (observe store : NotifyingStore Listener) where
  counted := unrevised
  numbered := fun index item found => by simp [observe] at found
  originBounded := Nat.le_refl 0
  bounded := fun item member => by simp [observe] at member
  chained := fun front item back shape => by simp [observe] at shape
  latest := rfl
  split := ⟨[], rfl, rfl, fun item held => by simp [observe, holding] at held⟩
  quiet := fun _ => rfl
  distinct := nodup_nil
  remaining := fun item rest shape => by simp [observe] at shape

variable {origin : DocumentRef} {state : NotifyingStore Listener}

/-- Every document known so far has an identity below the next one. -/
theorem Coherent.identity_le (coherent : Coherent origin state) :
    (documentAfter origin state.committed).identity ≤ state.committed.length := by
  rcases eq_nil_or_concat state.committed with empty | ⟨front, item, shape⟩
  · have known := coherent.originBounded
    rw [empty] at known ⊢
    exact known
  · rw [concat_eq_append] at shape
    rw [shape, documentAfter_concat, ← shape]
    exact coherent.bounded item (by simp [shape])

theorem coherent_commit {event : TransactionEvent} (coherent : Coherent origin state)
    (commits : state.store.Commits store event) : Coherent origin (state.commit store event) := by
  obtain ⟨done, shape, signal, held⟩ := coherent.split
  refine ⟨?_, ?_, ?_, ?_, ?_, ?_, ?_, ?_, coherent.distinct, ?_⟩
  · simp [commit, commits.revised, coherent.counted]
  · intro index item found
    simp only [commit, getElem?_append] at found
    split at found
    · exact coherent.numbered index item found
    · rename_i beyond
      rw [getElem?_singleton] at found
      split at found
      · cases found
        have stamped := commits.stamped
        have revised := commits.revised
        have counted := coherent.counted
        simp only
        omega
      · simp at found
  · simpa [commit] using Nat.le_succ_of_le coherent.originBounded
  · intro item member
    simp only [commit, mem_append, mem_singleton, length_append, length_singleton] at member ⊢
    rcases member with earlier | rfl
    · exact Nat.le_succ_of_le (coherent.bounded item earlier)
    · have known := coherent.identity_le
      rw [coherent.latest] at known
      simp only
      split
      · exact Nat.le_succ_of_le known
      · exact Nat.le_refl _
  · intro front item back equation same
    rcases eq_nil_or_concat back with rfl | ⟨back, last, rfl⟩
    · obtain ⟨rfl, item_eq⟩ := append_inj' equation (by simp)
      obtain rfl := (List.cons.inj item_eq).1
      rw [coherent.latest] at same ⊢
      dsimp only at same
      split at same
      · rename_i none
        have unchanged := commits.applied
        rw [isEmpty_iff.mp none] at unchanged
        simp [current, none, Except.ok.inj unchanged]
      · have known := coherent.identity_le
        rw [coherent.latest, ← same] at known
        omega
    · rw [concat_eq_append] at equation
      have earlier : state.committed = front ++ item :: back := by
        have reshaped : front ++ item :: (back ++ [last]) = (front ++ item :: back) ++ [last] := by
          simp
        rw [reshaped] at equation
        simpa only [commit, dropLast_concat] using congrArg dropLast equation
      exact coherent.chained front item back earlier same
  · simp [commit, current]
  · refine ⟨done, by simp [commit, shape], signal, fun item inFlight => held item ?_⟩
    unfold holding commit at inFlight
    unfold holding
    cases phase : state.phase <;> simp_all
  · intro idle
    unfold commit at idle
    cases phase : state.phase <;> simp_all
  · intro item rest phase
    unfold commit at phase
    cases before : state.phase <;> simp_all
    exact coherent.remaining _ _ before

variable {event : Option TransactionEvent} {phase : NotifyPhase Listener}
    {start : NotifyingStore Listener}

section

variable (coherent : Coherent origin state)

include coherent

theorem coherent_settle (settles : state.store.Settles event store) :
    Coherent origin (state.settle event store) := by
  cases event with
  | some event => exact coherent_commit coherent settles
  | none =>
    have keeps : state.store.Keeps store := settles
    exact { coherent with
      counted := keeps.revision.trans coherent.counted
      latest := by rw [settle, current, keeps.doc]; exact coherent.latest }

theorem Coherent.signal_eq {item : Commit} (flying : state.holding = some item) :
    state.signal = item.1 := by
  obtain ⟨done, -, signal, held⟩ := coherent.split
  obtain ⟨front, rfl⟩ := getLast?_eq_some_iff.mp (held item flying)
  rw [← signal, documentAfter_concat]

theorem Coherent.moved {documents : List (Listener × DocumentRef)}
    {events : List (Listener × Commit)}
    (flying : ∀ item, { state with phase }.holding = some item → state.holding = some item)
    (quiet : phase = .idle → state.queue = [])
    (remaining : ∀ item rest, phase = .transactions item rest → rest.Nodup) :
    Coherent origin { state with phase, documentsSeen := documents, eventsSeen := events } := by
  obtain ⟨done, shape, signal, held⟩ := coherent.split
  exact ⟨coherent.counted, coherent.numbered, coherent.originBounded, coherent.bounded,
    coherent.chained, coherent.latest,
    ⟨done, shape, signal, fun item inFlight => held item (flying item inFlight)⟩,
    quiet, coherent.distinct, remaining⟩

theorem Coherent.taken {item : Commit} {rest : List Commit} (queued : state.queue = item :: rest)
    (flying : { state with phase }.holding = some item)
    (remaining : ∀ item rest, phase = .transactions item rest → rest.Nodup) :
    Coherent origin { state with queue := rest, signal := item.1, phase } := by
  obtain ⟨done, shape, -, -⟩ := coherent.split
  refine ⟨coherent.counted, coherent.numbered, coherent.originBounded, coherent.bounded,
    coherent.chained, coherent.latest,
    ⟨done ++ [item], ?_, documentAfter_concat _ _ _, ?_⟩, ?_, coherent.distinct, remaining⟩
  · simpa [queued] using shape
  · intro other inFlight
    have same := flying.symm.trans inFlight
    simpa using same
  · intro idle
    subst idle
    simp [holding] at flying

/-- A step of the drain loop keeps the split between delivered and queued commits. -/
theorem coherent_advance (advanced : state.advance = some next) : Coherent origin next := by
  cases advance_cases advanced with
  | rests phase queued => exact coherent.moved (by simp [holding]) (fun _ => queued) (by simp)
  | @skips item rest phase queued same =>
    obtain ⟨done, shape, signal, -⟩ := coherent.split
    have unchanged : item.1 = state.signal := by
      rw [← signal] at same ⊢
      exact coherent.chained done item rest (by rw [shape, queued]) same
    exact unchanged ▸ coherent.taken queued rfl (by simpa using coherent.distinct)
  | takes phase queued => exact coherent.taken queued rfl (by simp)
  | turns phase =>
    exact coherent.moved (by simp [holding, phase]) (by simp) (by simpa using coherent.distinct)
  | shows phase => exact coherent.moved (by simp [holding, phase]) (by simp) (by simp)
  | returns phase => exact coherent.moved (by simp [holding]) (by simp) (by simp)
  | tells phase =>
    refine coherent.moved (by simp [holding, phase]) (by simp) ?_
    simpa using (nodup_cons.mp (coherent.remaining _ _ phase)).2

end

/-- How many steps the drain loop still takes if nothing else happens. -/
def drainSteps (state : NotifyingStore Listener) : Nat :=
  let perCommit := state.documentListeners.length + state.transactionListeners.length + 3
  state.queue.length * perCommit +
    match state.phase with
    | .idle => 0
    | .draining => 1
    | .documents _ remaining => remaining.length + state.transactionListeners.length + 3
    | .transactions _ remaining => remaining.length + 2

theorem drainSteps_advance (state : NotifyingStore Listener) :
    state.phase = .idle ∨ ∃ next, state.advance = some next ∧
      next.drainSteps < state.drainSteps ∧ next.committed = state.committed := by
  cases advanced : state.advance with
  | none => exact .inl (advance_eq_none advanced)
  | some next =>
    refine .inr ⟨next, rfl, ?_⟩
    cases advance_cases advanced with
    | rests phase queued => exact ⟨by simp [drainSteps, phase, queued], rfl⟩
    | skips phase queued | takes phase queued =>
      refine ⟨?_, rfl⟩
      simp only [drainSteps, phase, queued, length_cons, Nat.succ_mul]
      omega
    | turns phase | shows phase | returns phase | tells phase =>
      exact ⟨by simp [drainSteps, phase], rfl⟩

variable [DecidableEq Listener]

/-- Every action keeps a store with observers coherent. -/
theorem coherent_step {action : NotifyAction Listener Authority}
    (coherent : Coherent origin state) (taken : step env state action = some next) :
    Coherent origin next := by
  rcases step_cases taken with ⟨event, store, settles, rfl⟩ |
    ⟨documents, transactions, rfl, distinct, -, -⟩ | advanced
  · exact coherent_settle coherent settles
  · exact { coherent with distinct := distinct coherent.distinct }
  · exact coherent_advance coherent advanced

/-- From one state to a later one a transaction listener received exactly what it
was owed, as far as it is not owed it any longer. -/
def Delivers (listener : Listener) (state next : NotifyingStore Listener) : Prop :=
  ∃ fresh received,
    next.committed = state.committed ++ fresh ∧
    next.eventsOf listener = state.eventsOf listener ++ received ∧
    received ++ next.owed listener = state.owed listener ++ fresh

theorem delivers_refl (listener : Listener) (state : NotifyingStore Listener) :
    Delivers listener state state :=
  ⟨[], [], by simp⟩

theorem Delivers.trans {first second third : NotifyingStore Listener}
    (earlier : Delivers listener first second) (later : Delivers listener second third) :
    Delivers listener first third := by
  obtain ⟨fresh, received, committed, events, balance⟩ := earlier
  obtain ⟨laterFresh, laterReceived, laterCommitted, laterEvents, laterBalance⟩ := later
  refine ⟨fresh ++ laterFresh, received ++ laterReceived, ?_, ?_, ?_⟩
  · rw [laterCommitted, committed, append_assoc]
  · rw [laterEvents, events, append_assoc]
  · rw [append_assoc, laterBalance, ← append_assoc, balance, append_assoc]

/-- A commit is owed to every transaction listener from the moment it happens. -/
theorem delivers_settle (state : NotifyingStore Listener) (listener : Listener)
    (event : Option TransactionEvent) (store : DocumentStore) :
    Delivers listener state (state.settle event store) := by
  cases event with
  | none => exact ⟨[], [], by simp [settle, eventsOf, owed, inFlight]⟩
  | some event =>
    refine ⟨[_], [], rfl, by simp [settle, commit, eventsOf], ?_⟩
    unfold settle commit owed inFlight
    cases phase : state.phase <;> simp

/-- The drain loop delivers the commit in flight, and nothing else. -/
theorem delivers_advance (coherent : Coherent origin state)
    (subscribed : listener ∈ state.transactionListeners) (advanced : state.advance = some next) :
    Delivers listener state next := by
  cases advance_cases advanced with
  | rests phase queued => exact ⟨[], [], by simp [eventsOf, owed, inFlight, phase, queued]⟩
  | skips phase queued | takes phase queued =>
    exact ⟨[], [], by simp [eventsOf, owed, inFlight, phase, queued, subscribed]⟩
  | turns phase | shows phase | returns phase =>
    exact ⟨[], [], by simp [eventsOf, owed, inFlight, phase, subscribed]⟩
  | @tells item other rest phase =>
    have current := coherent.signal_eq (by simp [holding, phase] : _ = some item)
    have distinct := nodup_cons.mp (coherent.remaining _ _ phase)
    by_cases same : other = listener
    · subst same
      exact ⟨[], [item], by simp [eventsOf, owed, inFlight, phase, distinct.1, current]⟩
    · exact ⟨[], [], by simp [eventsOf, owed, inFlight, phase, same, Ne.symm same]⟩

/-- A document listener is still to be called, or has been given what the signal
holds. -/
def Shown (listener : Listener) (start : NotifyingStore Listener)
    (state : NotifyingStore Listener) : Prop :=
  ∃ shown, state.documentsOf listener = start.documentsOf listener ++ shown ∧
    (state.documentOwed listener ∨ shown.getLastD start.signal = state.signal)

theorem shown_settle (shown : Shown listener start state) :
    Shown listener start (state.settle event store) := by
  obtain ⟨documents, seen, given⟩ := shown
  cases event with
  | none => exact ⟨documents, seen, given⟩
  | some event =>
    refine ⟨documents, seen, given.imp ?_ id⟩
    unfold documentOwed settle commit
    cases phase : state.phase <;> simp

section

variable (coherent : Coherent origin state)

include coherent

/-- The drain loop shows every document the signal takes to its subscribers. -/
theorem shown_advance (subscribed : listener ∈ state.documentListeners)
    (shown : Shown listener start state) (advanced : state.advance = some next) :
    Shown listener start next := by
  obtain ⟨documents, seen, given⟩ := shown
  cases advance_cases advanced with
  | takes phase => exact ⟨documents, seen, .inl subscribed⟩
  | rests phase | skips phase | turns phase | returns phase | tells phase =>
    exact ⟨documents, seen, .inr (by simpa [documentOwed, phase] using given)⟩
  | @shows item other rest phase =>
    have current := coherent.signal_eq (by simp [holding, phase] : _ = some item)
    simp only [documentsOf] at seen
    by_cases same : other = listener
    · subst same
      exact ⟨documents ++ [item.1], by simp [documentsOf, seen], .inr (by simp [current])⟩
    · refine ⟨documents, by simp [documentsOf, same, seen], given.imp (fun waiting => ?_) id⟩
      simpa [documentOwed, phase, Ne.symm same] using waiting

/-! ## Runs -/

/-- Runs keep a store with observers coherent. -/
theorem coherent_run (reached : run (step env) state actions = some next) : Coherent origin next :=
  run_invariant (Coherent origin) (fun before _ taken => coherent_step before taken) coherent
    (along_of_mem state fun _ _ => trivial) reached

theorem delivers_run (subscribed : listener ∈ state.transactionListeners)
    (stays : .unsubscribeTransaction listener ∉ actions)
    (reached : run (step env) state actions = some next) : Delivers listener state next := by
  have listening {state next : NotifyingStore Listener} {action}
      (subscribed : listener ∈ state.transactionListeners)
      (kept : action ≠ .unsubscribeTransaction listener)
      (taken : step env state action = some next) : listener ∈ next.transactionListeners := by
    rcases step_cases taken with ⟨event, store, -, rfl⟩ |
      ⟨documents, transactions, rfl, -, listening, -⟩ | advanced
    · cases event <;> exact subscribed
    · exact listening listener kept subscribed
    · exact (advance_listeners advanced).2 ▸ subscribed
  have along : Along (step env) (fun _ action => action ≠ .unsubscribeTransaction listener)
      state actions := along_of_mem state fun action member equal => stays (equal ▸ member)
  refine run_relation (fun state => Coherent origin state ∧ listener ∈ state.transactionListeners)
    (Delivers listener)
    (fun before kept taken => ⟨coherent_step before.1 taken, listening before.2 kept taken⟩)
    (fun before kept taken => ?_) (delivers_refl listener) Delivers.trans
    ⟨coherent, subscribed⟩ along reached
  rcases step_cases taken with ⟨event, store, -, rfl⟩ |
    ⟨documents, transactions, rfl, -, -, -⟩ | advanced
  · exact delivers_settle _ listener event store
  · exact ⟨[], [], by simp [eventsOf, owed, inFlight]⟩
  · exact delivers_advance before.1 before.2 advanced

theorem shown_run (subscribed : listener ∈ state.documentListeners)
    (stays : .unsubscribeDocument listener ∉ actions)
    (reached : run (step env) state actions = some next) : Shown listener state next := by
  have along : Along (step env) (fun _ action => action ≠ .unsubscribeDocument listener)
      state actions := along_of_mem state fun action member equal => stays (equal ▸ member)
  refine (run_invariant (fun next => Coherent origin next ∧ listener ∈ next.documentListeners ∧
      Shown listener state next)
    (fun before kept taken => ⟨coherent_step before.1 taken, ?_⟩)
    ⟨coherent, subscribed, [], by simp, .inr rfl⟩ along reached).2.2
  obtain ⟨coherentBefore, listening, shown⟩ := before
  rcases step_cases taken with ⟨event, store, -, rfl⟩ |
    ⟨documents, transactions, rfl, -, -, stayed⟩ | advanced
  · exact ⟨by cases event <;> exact listening, shown_settle shown⟩
  · exact ⟨stayed listener kept listening, shown⟩
  · exact ⟨(advance_listeners advanced).1 ▸ listening,
      shown_advance coherentBefore listening shown advanced⟩

end

theorem drains (env : Environment Authority) (state : NotifyingStore Listener) :
    ∃ count next, run (step env) state (List.replicate count .advance) = some next ∧
      next.phase = .idle ∧ next.committed = state.committed := by
  induction steps : state.drainSteps using Nat.strongRecOn generalizing state with
  | _ steps ih =>
    rcases drainSteps_advance state with idle | ⟨next, advanced, fewer, same⟩
    · exact ⟨0, state, rfl, idle, rfl⟩
    · obtain ⟨count, final, reached, idle, committed⟩ := ih next.drainSteps (steps ▸ fewer) next rfl
      refine ⟨count + 1, final, ?_, idle, committed.trans same⟩
      have taken : step env state .advance = some next := advanced
      simpa only [replicate_succ, run, taken] using reached

theorem Coherent.owed_suffix (coherent : Coherent origin state) (listener : Listener) :
    state.owed listener <:+ state.committed := by
  obtain ⟨done, shape, -, held⟩ := coherent.split
  have inFlight : state.inFlight listener <:+ done := by
    unfold NotifyingStore.inFlight
    split
    · rename_i item waiting phase
      obtain ⟨front, rfl⟩ := getLast?_eq_some_iff.mp (held item (by simp [holding, phase]))
      exact suffix_append front [item]
    · rename_i item waiting phase
      split
      · obtain ⟨front, rfl⟩ := getLast?_eq_some_iff.mp (held item (by simp [holding, phase]))
        exact suffix_append front [item]
      · exact nil_suffix
    · exact nil_suffix
  rw [shape, owed]
  obtain ⟨front, rfl⟩ := inFlight
  exact ⟨front, by rw [append_assoc]⟩

/-- Observers see commits in order.  Commits are numbered consecutively.  From any
moment on, a transaction listener that stays subscribed receives, each once and in
order, the commits it is owed, each with the document that commit produced, and
is owed nothing once the store is idle; a document listener that stays subscribed
ends with the store's document.  The loop that delivers them ends. -/
theorem notifications_in_commit_order (env : Environment Authority) (store : DocumentStore)
    (unrevised : store.revisionCounter = 0)
    {front back : List (NotifyAction Listener Authority)} {first last : NotifyingStore Listener}
    (reached : run (step env) (observe store) front = some first)
    (continued : run (step env) first back = some last) :
    (∀ index item, last.committed[index]? = some item → item.2.revision = index + 1) ∧
      (∀ listener ∈ first.transactionListeners, .unsubscribeTransaction listener ∉ back →
        ∃ received, last.eventsOf listener = first.eventsOf listener ++ received ∧
          received ++ last.owed listener =
            last.committed.drop (first.committed.length - (first.owed listener).length) ∧
          (last.phase = .idle → last.owed listener = [])) ∧
      (∀ listener ∈ first.documentListeners, .unsubscribeDocument listener ∉ back →
        last.phase = .idle → ∃ shown,
          last.documentsOf listener = first.documentsOf listener ++ shown ∧
          (shown.getLastD first.signal).json = last.store.currentDoc) ∧
      ∃ count idle, run (step env) last (List.replicate count .advance) = some idle ∧
        idle.phase = .idle ∧ idle.committed = last.committed := by
  have coherentFirst := coherent_run (coherent_observe store unrevised) reached
  have coherentLast := coherent_run coherentFirst continued
  refine ⟨coherentLast.numbered, fun listener subscribed stays => ?_,
    fun listener subscribed stays idle => ?_, drains env last⟩
  · obtain ⟨fresh, received, committed, events, balance⟩ :=
      delivers_run coherentFirst subscribed stays continued
    refine ⟨received, events, ?_, fun idle => ?_⟩
    · have suffix := suffix_iff_eq_drop.mp (coherentFirst.owed_suffix listener)
      rw [balance, committed, drop_append_of_le_length (Nat.sub_le _ _), ← suffix]
    · simp [owed, inFlight, idle, coherentLast.quiet idle]
  · obtain ⟨shown, documents, given⟩ := shown_run coherentFirst subscribed stays continued
    obtain ⟨done, shape, signal, -⟩ := coherentLast.split
    have held : shown.getLastD first.signal = last.signal := by
      simpa [documentOwed, idle] using given
    refine ⟨shown, documents, ?_⟩
    rw [coherentLast.quiet idle, append_nil] at shape
    rw [held, ← signal, ← shape, coherentLast.latest]
    rfl

def listenedStore : NotifyingStore Nat :=
  { observe ⟨.obj [], 0, [], [], 200⟩ with
    documentListeners := [0]
    transactionListeners := [1, 2] }

/-- A change is dispatched, and the first transaction listener answers it with an
undo before the second one has been called. -/
def undoingListener : List (NotifyAction Nat Unit) :=
  let invocation : CommandInvocation :=
    ⟨sessionPatchId, sessionPatchParams [.add [.key "title"] (.str "draft")], none⟩
  [.dispatch invocation (.initial ()), .advance, .advance, .advance, .advance, .undo] ++
    List.replicate 9 .advance

theorem undoingListener_in_commit_order : ∃ last : NotifyingStore Nat,
      run (step patchEnvironment) listenedStore undoingListener = some last ∧
        (last.eventsOf 2).map (fun commit => commit.2.revision) = [1, 2] ∧
        ∃ received, last.eventsOf 2 = listenedStore.eventsOf 2 ++ received ∧
          received ++ last.owed 2 = last.committed.drop 0 := by
  have reached : run (step patchEnvironment) (observe ⟨.obj [], 0, [], [], 200⟩)
      [.subscribeDocument 0, .subscribeTransaction 1, .subscribeTransaction 2] =
      some listenedStore := rfl
  have passes : (run (step patchEnvironment) listenedStore undoingListener).any (fun last =>
      (last.eventsOf 2).map (fun commit => commit.2.revision) = [1, 2]) = true := by
    decide +kernel
  obtain ⟨last, continued, revisions⟩ := run_of_any passes
  obtain ⟨received, events, owed, -⟩ := (notifications_in_commit_order patchEnvironment
    ⟨.obj [], 0, [], [], 200⟩ rfl reached continued).2.1 2 (by decide) (by simp [undoingListener])
  exact ⟨last, continued, by simpa using revisions, received, events, owed⟩

end NotifyingStore

end Dinkster.Commands
