import Dinkster.Library.Signal
import Dinkster.Commands.Notification
import Dinkster.Collab.Refinement
import Dinkster.Collab.Effect
import Dinkster.Collab.LocalCommit

/-!
# Subscribers of a shared session

A shared session sets the signal of its document itself: when a command was committed
optimistically, and when a rebase has rebuilt the document.  A subscriber may dispatch, undo
or redo from inside its notification.  The signal is then set again before the subscribers
that come later were called, so that these receive the later document first and the earlier
one last.

The machine below takes one call of a subscriber at a time.  Every document that is set is a
new object: a commit that changes nothing sets none, and a rebase owns a copy.
-/

namespace Dinkster.Collab

open Library Format Commands Option

variable {Nonce Authority : Type}

/-- Whether an ingress came to its end. -/
def Ingress.isDone : Ingress Nonce → Bool
  | .done _ => true
  | _ => false

/-- Whether an operation is the head intention: the optimistic document already has it. -/
def Replica.acknowledges [DecidableEq Nonce] (replica : Replica Nonce)
    (op : CollabServerOp Nonce) : Bool :=
  op.actorId = replica.actorId &&
    replica.pending.head?.any fun head => decide (head.opId = op.opId)

/-- Whether an action, taken to a next session, sets the document signal: a commit that waits
for its notification does, and a rebase that ends. -/
def Session.publishes [DecidableEq Nonce] (env : SessionEnvironment Authority)
    (session : Session Nonce) (action : SessionAction Nonce) (next : Session Nonce) : Bool :=
  match action with
  | .dispatch _ | .replay _ => session.frames.length < next.frames.length
  | .snapshotFetched revision document =>
    session.status = .catchingUp && isValidCollabRevision revision &&
      (env.loadDocument document).any fun loaded =>
        (session.replica.adoptSnapshot env revision loaded).isDone
  | action =>
    (session.ingestible action).any fun op =>
      !session.replica.acknowledges op && (session.replica.ingestOrdered env op).isDone

/-! ## What changes the document -/

section Documents

variable {env : SessionEnvironment Authority} {replica next : Replica Nonce}

theorem doc_of_bare (alike : next.bare = replica.bare) : next.doc = replica.doc := by
  have same : next.bare.store = replica.bare.store := by rw [alike]
  exact congrArg DocumentStore.currentDoc same

/-- A replay that leaves nothing to finish keeps the document. -/
theorem doc_beginReplay {direction : HistoryDirection}
    (begun : replica.beginReplay env direction = (next, none)) : next.doc = replica.doc := by
  have begins := Replica.begins_beginReplay env replica direction
  rw [begun] at begins
  cases begins with
  | nothing _ => rfl
  | dropped _ _ => exact doc_of_bare (bare_setStack replica direction _)
  | clamped _ =>
    exact doc_of_bare ((bare_pushOpposite _ _ _).trans (bare_setStack replica direction _))

variable {op : CollabServerOp Nonce}

/-- A rebase that throws keeps the document. -/
theorem doc_emitAfter_rebase {before : Replica Nonce} {oldGround : Json}
    {skipped : Nat → PendingEntry Nonce → Bool} {origin : String}
    (threw : Replica.emitAfter (before.rebase env oldGround skipped) op origin = .threw next) :
    next.doc = before.doc := by
  cases rebased : before.rebase env oldGround skipped with
  | done final | diverged reason =>
    rw [rebased] at threw
    exact absurd threw (by simp [Replica.emitAfter])
  | threw final =>
    rw [rebased] at threw
    rw [← Ingress.threw.inj threw, (Replica.rebase_eq_threw rebased).1]
    rfl

theorem doc_adoptSnapshot_threw {revision : Nat} {document : Json}
    (threw : replica.adoptSnapshot env revision document = .threw next) :
    next.doc = replica.doc := by
  unfold Replica.adoptSnapshot at threw
  split at threw
  · simp at threw
  · rw [(Replica.rebase_eq_threw threw).1]
    rfl

variable [DecidableEq Nonce]

/-- An ingress that throws keeps the document. -/
theorem doc_ingestOrdered_threw (threw : replica.ingestOrdered env op = .threw next) :
    next.doc = replica.doc := by
  have foreign : replica.applyForeign env op = .threw next → next.doc = replica.doc := by
    intro applied
    unfold Replica.applyForeign at applied
    split at applied
    · simp at applied
    · exact (doc_emitAfter_rebase applied).trans rfl
  unfold Replica.ingestOrdered at threw
  split at threw
  · simp at threw
  · split at threw
    · exact foreign threw
    · split at threw
      · exact foreign threw
      · split at threw
        · split at threw
          · unfold Replica.ack at threw
            split at threw <;> simp at threw
          · simp at threw
        · split at threw
          · rename_i entry _ _
            split at threw
            · simp at threw
            · unfold Replica.confirmPending at threw
              split at threw
              · simp at threw
              · rename_i advanced _
                rw [doc_emitAfter_rebase threw,
                  doc_of_bare (bare_removeRecord (replica.advance advanced op.revision) entry.record)]
                rfl
          · exact foreign threw

/-- An acknowledgement keeps the document. -/
theorem doc_acknowledged (acknowledges : replica.acknowledges op = true)
    (ingested : replica.ingestOrdered env op = .done next) : next.doc = replica.doc := by
  unfold Replica.acknowledges at acknowledges
  rw [Bool.and_eq_true, decide_eq_true_eq] at acknowledges
  obtain ⟨ours, heads⟩ := acknowledges
  cases pending : replica.pending with
  | nil =>
    rw [pending] at heads
    simp at heads
  | cons head rest =>
    rw [pending] at heads
    have same : head.opId = op.opId := by simpa using heads
    unfold Replica.ingestOrdered at ingested
    split at ingested
    · simp at ingested
    · rw [if_neg (not_not.mpr ours), pending] at ingested
      dsimp only at ingested
      rw [if_pos same] at ingested
      split at ingested
      · unfold Replica.ack at ingested
        split at ingested
        · simp at ingested
        · cases ingested
          rfl
      · simp at ingested

variable {after session : Session Nonce}

theorem doc_snapshot_refused {revision : Nat} {document : Json}
    (stepped : session.step env (.snapshotFetched revision document) = some after)
    (invalid : isValidCollabRevision revision = false) :
    after.replica.doc = session.replica.doc := by
  simp only [Session.step] at stepped
  split at stepped
  · cases stepped
    unfold Session.handleSnapshot
    split
    · rfl
    · rw [invalid, Bool.not_false, if_pos rfl]
      unfold Session.fail
      split <;> rfl
  · simp at stepped

theorem doc_unpublished {action : SessionAction Nonce}
    (stepped : session.step env action = some after)
    (silent : session.publishes env action after = false) :
    after.replica.doc = session.replica.doc := by
  obtain ⟨replica, status, effect, reached⟩ := Session.step_affects stepped
  have same : after.replica.doc = replica.doc := by
    rw [reached]
    rfl
  rw [same]
  generalize framed : after.frames = frames at effect
  unfold Session.publishes at silent
  cases effect with
  | quiet | cleared => rfl
  | dispatched ordinary ran changed | replayed begun =>
    dsimp only at silent
    rw [framed] at silent
    simp at silent
  | refusedReplay begun => exact doc_beginReplay begun
  | finishedDispatch => exact doc_of_bare (bare_finishDispatch _ _ _)
  | finishedReplay => exact doc_of_bare (bare_finishReplay _ _ _)
  | submitted submitted =>
    unfold Replica.submitHead at submitted
    split at submitted
    · simp at submitted
    · rw [← (Prod.mk.inj (some.inj submitted)).1]
      rfl
  | ingested handed ingested =>
    rename_i op
    have unmade : (!session.replica.acknowledges op &&
        (session.replica.ingestOrdered env op).isDone) = false := by
      have given : session.ingestible action = some op := handed
      split at silent
      · exact absurd given (by simp [Session.ingestible])
      · exact absurd given (by simp [Session.ingestible])
      · exact absurd given (by simp [Session.ingestible])
      · rw [given] at silent
        exact silent
    cases ingested with
    | inr threw => exact doc_ingestOrdered_threw threw
    | inl done =>
      rw [done] at unmade
      have acknowledges : session.replica.acknowledges op = true := by
        simpa [Ingress.isDone] using unmade
      exact doc_acknowledged acknowledges done
  | adopted catching loads adopted =>
    rename_i revision document loaded
    cases adopted with
    | inr threw => exact doc_adoptSnapshot_threw threw
    | inl done =>
      dsimp only at silent
      rw [loads, any_some, done, catching] at silent
      rw [← same]
      exact doc_snapshot_refused stepped (by simpa [Ingress.isDone] using silent)

end Documents

/-- A session with the signal of its document. -/
structure ObservedSession (Nonce Listener : Type) where
  session : Session Nonce
  signal : Signal Listener DocumentRef

/-- What happens to a session with subscribers. -/
inductive ObservedAction (Nonce Listener : Type) where
  | act (action : SessionAction Nonce)
  | subscribe (listener : Listener)
  | unsubscribe (listener : Listener)
  | call
  | finish

/-- `Object.is` on documents. -/
def sameObject (left right : DocumentRef) : Bool :=
  left.identity = right.identity

namespace ObservedSession

variable {Listener : Type} [DecidableEq Nonce] [DecidableEq Listener]

def observe (session : Session Nonce) : ObservedSession Nonce Listener :=
  ⟨session, .create ⟨0, session.replica.doc⟩⟩

/-- What may happen now: a subscriber calls the session, and while none is being called the
transport and the loops go on. -/
def enabled (state : ObservedSession Nonce Listener) : SessionAction Nonce → Bool
  | .dispatch _ | .replay _ | .clearHistory | .close => true
  | .returned => false
  | _ => state.signal.underway.isEmpty

/-- A session moves on and publishes its document, or not. -/
def settle (env : SessionEnvironment Authority) (state : ObservedSession Nonce Listener)
    (action : SessionAction Nonce) (next : Session Nonce) : ObservedSession Nonce Listener :=
  { session := next
    signal :=
      if state.session.publishes env action next then
        state.signal.set sameObject ⟨state.signal.number + 1, next.replica.doc⟩
      else state.signal }

/-- The step function of a session with subscribers.  When a notification has called all its
subscribers, the commit that waits for it resumes; a rebase has nothing left to do. -/
def step (env : SessionEnvironment Authority) (state : ObservedSession Nonce Listener) :
    ObservedAction Nonce Listener → Option (ObservedSession Nonce Listener)
  | .act action =>
    if state.enabled action then
      (state.session.step env action).map (state.settle env action)
    else none
  | .subscribe listener => some { state with signal := state.signal.subscribe listener }
  | .unsubscribe listener => some { state with signal := state.signal.unsubscribe listener }
  | .call => state.signal.call.map fun signal => { state with signal }
  | .finish =>
    state.signal.finish.map fun signal =>
      { session := (state.session.step env .returned).getD state.session, signal }

def publishes (env : SessionEnvironment Authority) (state : ObservedSession Nonce Listener) :
    ObservedAction Nonce Listener → Bool
  | .act action =>
    state.enabled action &&
      (state.session.step env action).any (state.session.publishes env action)
  | _ => false

/-- A document is published only while no subscriber is still to be called for an earlier
one. -/
def Unhindered (env : SessionEnvironment Authority) (state : ObservedSession Nonce Listener)
    (action : ObservedAction Nonce Listener) : Prop :=
  state.publishes env action = true → state.signal.Clear

instance (env : SessionEnvironment Authority) (state : ObservedSession Nonce Listener)
    (action : ObservedAction Nonce Listener) : Decidable (Unhindered env state action) :=
  inferInstanceAs (Decidable (_ → ∀ listener ∈ state.signal.listeners,
    ∀ notification ∈ state.signal.underway, listener ∉ notification.remaining))

/-! ## Steps -/

section Steps

variable {env : SessionEnvironment Authority} {state next : ObservedSession Nonce Listener}
  {action : ObservedAction Nonce Listener}

/-- The signal is sound and holds the document of the session. -/
structure Holds (state : ObservedSession Nonce Listener) : Prop where
  sound : state.signal.Sound
  named : state.signal.value.identity = state.signal.number
  held : state.signal.value.json = state.session.replica.doc

omit [DecidableEq Nonce] in
theorem holds_observe (session : Session Nonce) :
    Holds (observe session : ObservedSession Nonce Listener) where
  sound := Signal.sound_create _
  named := rfl
  held := rfl

/-- A step publishes the document of the session, or it keeps what is received, the value of
the signal and the document. -/
inductive Moves (env : SessionEnvironment Authority) (state : ObservedSession Nonce Listener)
    (action : ObservedAction Nonce Listener) (next : ObservedSession Nonce Listener) : Prop where
  | published (publishes : state.publishes env action = true)
      (made : next.signal =
        state.signal.set sameObject ⟨state.signal.number + 1, next.session.replica.doc⟩)
  | kept (silent : state.publishes env action = false) (sound : next.signal.Sound)
      (receipts : ∀ listener, next.signal.receipts listener = state.signal.receipts listener)
      (number : next.signal.number = state.signal.number)
      (value : next.signal.value = state.signal.value)
      (doc : next.session.replica.doc = state.session.replica.doc)
      (listed : ∀ listener, action ≠ .unsubscribe listener →
        listener ∈ state.signal.listeners → listener ∈ next.signal.listeners)

theorem doc_returned (session : Session Nonce) :
    ((session.step env .returned).getD session).replica.doc = session.replica.doc := by
  cases stepped : session.step env .returned with
  | none => rfl
  | some after => exact doc_unpublished stepped rfl

theorem moves_step (holds : Holds state) (stepped : state.step env action = some next) :
    Moves env state action next := by
  have same : ∀ {session : Session Nonce} {signal : Signal Listener DocumentRef},
      state.publishes env action = false →
      (∀ listener, signal.receipts listener = state.signal.receipts listener) →
      (signal.number = state.signal.number ∧ signal.value = state.signal.value ∧
        signal.listeners = state.signal.listeners) →
      session.replica.doc = state.session.replica.doc → Moves env state action ⟨session, signal⟩ := by
    intro session signal silent receipts same doc
    apply Moves.kept silent (holds.sound.of_receipts receipts same) receipts same.1 same.2.1 doc
    intro listener _ listed
    rw [same.2.2]
    exact listed
  cases action with
  | act action =>
    change (if state.enabled action then
      (state.session.step env action).map (state.settle env action) else none) = _ at stepped
    split at stepped
    · rename_i enabled
      obtain ⟨after, taken, rfl⟩ := map_eq_some_iff.mp stepped
      cases published : state.session.publishes env action after with
      | true =>
        apply Moves.published
        · unfold publishes
          dsimp only
          rw [enabled, taken]
          exact published
        · unfold settle
          rw [if_pos published]
      | false =>
        have silent : state.publishes env (.act action) = false := by
          unfold publishes
          dsimp only
          rw [enabled, taken]
          exact published
        have moved := same silent (fun _ => rfl) ⟨rfl, rfl, rfl⟩
          (doc_unpublished taken published)
        unfold settle
        rw [if_neg (by simp [published])]
        exact moved
    · exact absurd stepped (by simp only [reduceCtorEq, not_false_eq_true])
  | subscribe listener =>
    cases stepped
    refine .kept rfl (holds.sound.subscribe listener) (fun _ => rfl) rfl rfl rfl ?_
    intro other _ listed
    unfold Signal.subscribe
    dsimp only
    split
    · exact listed
    · exact List.mem_append_left _ listed
  | unsubscribe listener =>
    cases stepped
    refine .kept rfl (holds.sound.unsubscribe listener) (fun _ => rfl) rfl rfl rfl ?_
    intro other apart listed
    have different : other ≠ listener := fun equal => apart (by rw [equal])
    exact (List.mem_erase_of_ne different).mpr listed
  | call =>
    obtain ⟨signal, called, rfl⟩ := map_eq_some_iff.mp stepped
    exact same rfl (fun _ => Signal.receipts_call called) (Signal.number_call called) rfl
  | finish =>
    obtain ⟨signal, finished, rfl⟩ := map_eq_some_iff.mp stepped
    exact same rfl (fun _ => Signal.receipts_finish finished) (Signal.number_finish finished)
      (doc_returned _)

omit [DecidableEq Nonce] in
/-- What is published is a new object. -/
theorem Holds.apart (holds : Holds state) (doc : Json) :
    sameObject state.signal.value ⟨state.signal.number + 1, doc⟩ = false := by
  unfold sameObject
  rw [holds.named]
  simp

omit [DecidableEq Nonce] in
theorem Holds.set (holds : Holds state) (doc : Json) :
    (state.signal.set sameObject ⟨state.signal.number + 1, doc⟩).number = state.signal.number + 1 ∧
      (state.signal.set sameObject ⟨state.signal.number + 1, doc⟩).value =
        ⟨state.signal.number + 1, doc⟩ ∧
      (state.signal.set sameObject ⟨state.signal.number + 1, doc⟩).listeners =
        state.signal.listeners := by
  unfold Signal.set
  rw [if_neg (by simp [holds.apart doc])]
  exact ⟨rfl, rfl, rfl⟩

/-- A step keeps the document of the session in the signal. -/
theorem Holds.step (holds : Holds state) (stepped : state.step env action = some next) :
    Holds next := by
  cases moves_step holds stepped with
  | published publishes made =>
    have set := holds.set next.session.replica.doc
    constructor
    · rw [made]
      exact holds.sound.set _
    · rw [made, set.1, set.2.1]
    · rw [made, set.2.1]
  | kept silent sound receipts number value doc listed =>
    constructor
    · exact sound
    · rw [value, number]
      exact holds.named
    · rw [value, doc]
      exact holds.held

theorem inOrder_step_iff (holds : Holds state) (stepped : state.step env action = some next) :
    (∀ listener, Signal.InOrder (next.signal.receipts listener)) ↔
      (∀ listener, Signal.InOrder (state.signal.receipts listener)) ∧
        Unhindered env state action := by
  unfold Unhindered
  cases moves_step holds stepped with
  | published publishes made =>
    rw [made, Signal.inOrder_set_iff holds.sound (holds.apart _), publishes]
    simp
  | kept silent sound receipts =>
    rw [silent]
    simp [receipts]

end Steps

/-! ## Runs -/

section Runs

variable {env : SessionEnvironment Authority} {start final : ObservedSession Nonce Listener}
  {actions : List (ObservedAction Nonce Listener)}

theorem holds_run (holds : Holds start) (reached : run (step env) start actions = some final) :
    Holds final := by
  induction actions generalizing start with
  | nil =>
    cases reached
    exact holds
  | cons action rest ih =>
    unfold Library.run at reached
    split at reached
    · rename_i next stepped
      exact ih (holds.step stepped) reached
    · simp at reached

theorem inOrder_run_iff (holds : Holds start)
    (reached : run (step env) start actions = some final) :
    (∀ listener, Signal.InOrder (final.signal.receipts listener)) ↔
      (∀ listener, Signal.InOrder (start.signal.receipts listener)) ∧
        Along (step env) (Unhindered env) start actions := by
  induction actions generalizing start with
  | nil =>
    cases reached
    simp [Along]
  | cons action rest ih =>
    unfold Library.run at reached
    split at reached
    · rename_i next stepped
      rw [ih (holds.step stepped) reached, inOrder_step_iff holds stepped]
      constructor
      · intro given
        obtain ⟨⟨ordered, unhindered⟩, along⟩ := given
        refine ⟨ordered, unhindered, ?_⟩
        intro other taken
        rw [stepped] at taken
        cases taken
        exact along
      · intro given
        obtain ⟨ordered, unhindered, along⟩ := given
        exact ⟨⟨ordered, unhindered⟩, along next stepped⟩
    · simp at reached

/-- A listener that stays is last sent what was last published. -/
def Served (listener : Listener) (since : Nat) (state : ObservedSession Nonce Listener) : Prop :=
  listener ∈ state.signal.listeners ∧ since ≤ state.signal.number ∧
    (since < state.signal.number →
      (state.signal.receipts listener).getLast? = some (state.signal.number, state.signal.value))

variable {listener : Listener}

theorem served_step {state next : ObservedSession Nonce Listener}
    {action : ObservedAction Nonce Listener} {since : Nat} (holds : Holds state)
    (served : Served listener since state) (stays : action ≠ .unsubscribe listener)
    (unhindered : Unhindered env state action) (stepped : state.step env action = some next) :
    Served listener since next := by
  cases moves_step holds stepped with
  | published publishes made =>
    have set := holds.set next.session.replica.doc
    have last := Signal.getLast?_receipts_set (unhindered publishes) served.1
      (holds.apart next.session.replica.doc)
    refine ⟨?_, ?_, ?_⟩
    · rw [made, set.2.2]
      exact served.1
    · rw [made, set.1]
      exact Nat.le_succ_of_le served.2.1
    · intro _
      rw [made, last, set.1, set.2.1]
  | kept silent sound receipts number value doc listed =>
    refine ⟨listed listener stays served.1, ?_, ?_⟩
    · rw [number]
      exact served.2.1
    · rw [number, receipts, value]
      exact served.2.2

theorem served_run {since : Nat} (holds : Holds start) (served : Served listener since start)
    (stays : ∀ action ∈ actions, action ≠ .unsubscribe listener)
    (along : Along (step env) (Unhindered env) start actions)
    (reached : run (step env) start actions = some final) : Served listener since final := by
  induction actions generalizing start with
  | nil =>
    cases reached
    exact served
  | cons action rest ih =>
    unfold Library.run at reached
    split at reached
    · rename_i next stepped
      have moved := served_step holds served (stays action List.mem_cons_self) along.1 stepped
      exact ih (holds.step stepped) moved
        (fun other later => stays other (List.mem_cons_of_mem _ later)) (along.2 next stepped)
        reached
    · simp at reached

/-- What subscribers may rely on.  Each receives documents in the order in which they were
published, and one that stays subscribed while some are published is last sent the document
of the session. -/
structure Faithful (env : SessionEnvironment Authority) (start : ObservedSession Nonce Listener)
    (actions : List (ObservedAction Nonce Listener)) (final : ObservedSession Nonce Listener) :
    Prop where
  ordered : ∀ listener, Signal.InOrder (final.signal.deliveredTo listener)
  current : ∀ {front back middle listener}, actions = front ++ back →
    run (step env) start front = some middle → listener ∈ middle.signal.listeners →
    (∀ action ∈ back, action ≠ .unsubscribe listener) →
    middle.signal.number < final.signal.number →
    (final.signal.deliveredTo listener).getLast?.map (·.2.json) = some final.session.replica.doc

/-- Once the outermost notification has returned, subscribers were served faithfully exactly
when each document was published while none of them was still to be called for an earlier
one. -/
theorem faithful_iff_unhindered {session : Session Nonce}
    (reached : run (step env) (observe session) actions = some final)
    (returned : final.signal.underway = []) : Faithful env (observe session) actions final ↔
      Along (step env) (Unhindered env) (observe session) actions := by
  have holds : Holds (observe session : ObservedSession Nonce Listener) := holds_observe session
  have ordered := inOrder_run_iff holds reached
  have delivered : ∀ listener, final.signal.deliveredTo listener = final.signal.receipts listener :=
    fun _ => Signal.deliveredTo_of_idle returned
  constructor
  · intro faithful
    apply (ordered.mp _).2
    intro listener
    rw [← delivered]
    exact faithful.ordered listener
  · intro along
    constructor
    · intro listener
      rw [delivered]
      apply ordered.mpr ⟨_, along⟩
      intro other
      exact List.Pairwise.nil
    · intro front back middle listener split reachedMiddle listed stays published
      subst split
      have later := (along_append along reachedMiddle).2
      have rest : run (step env) middle back = some final := by
        rw [run_append, reachedMiddle] at reached
        exact reached
      have middleHolds := holds_run holds reachedMiddle
      have served := served_run middleHolds ⟨listed, Nat.le_refl _,
        fun less => absurd less (Nat.lt_irrefl _)⟩ stays later rest
      rw [delivered, served.2.2 published, map_some, (holds_run middleHolds rest).held]

/-- The session of an actor over the shared document. -/
def aliceSession : Except String (Session Unit) :=
  Session.create "alice" () 200 Replica.sharedDocument 0

/-- Two subscribers; the one that is called last dispatches another reroute. -/
def lastDispatches : List (ObservedAction Unit String) :=
  [.subscribe "canvas", .subscribe "outline", .act (.dispatch Replica.addReroute), .call, .call,
    .act (.dispatch Replica.addReroute), .call, .call, .finish, .finish]

/-- Two subscribers; the one that is called first dispatches another reroute. -/
def firstDispatches : List (ObservedAction Unit String) :=
  [.subscribe "canvas", .subscribe "outline", .act (.dispatch Replica.addReroute), .call,
    .act (.dispatch Replica.addReroute), .call, .call, .finish, .call, .finish]

theorem exists_observed_of_any {actions : List (ObservedAction Unit String)}
    {test : ObservedSession Unit String → ObservedSession Unit String → Bool}
    (passes : aliceSession.toOption.any (fun session =>
      (run (step builtinEnvironment) (observe session) actions).any (test (observe session)))
        = true) : ∃ session final, aliceSession = .ok session ∧
      run (step builtinEnvironment) (observe session) actions = some final ∧
      test (observe session) final = true := by
  cases created : aliceSession with
  | error reason =>
    rw [created] at passes
    exact absurd passes (by simp [Except.toOption])
  | ok session =>
    rw [created] at passes
    obtain ⟨final, reached, passed⟩ := run_of_any passes
    exact ⟨session, final, rfl, reached, passed⟩

/-- A last subscriber that dispatches is served faithfully, and so are the others. -/
theorem faithful_last_dispatches : ∃ session final, aliceSession = .ok session ∧
    run (step builtinEnvironment) (observe session) lastDispatches = some final ∧
    Faithful builtinEnvironment (observe session) lastDispatches final := by
  obtain ⟨session, final, created, reached, passed⟩ := @exists_observed_of_any lastDispatches
    (fun start final => final.signal.underway.isEmpty &&
      alongTest (step builtinEnvironment)
        (fun state action => decide (Unhindered builtinEnvironment state action))
        start lastDispatches) (by decide +kernel)
  rw [Bool.and_eq_true] at passed
  refine ⟨session, final, created, reached, ?_⟩
  rw [faithful_iff_unhindered reached (List.isEmpty_iff.mp passed.1)]
  exact along_mono (fun _ _ admitted => of_decide_eq_true admitted) (along_of_test passed.2)

/-- When the first subscriber dispatches, the second is sent the second document before the
first, and is left with the first. -/
theorem first_dispatches_out_of_order : ∃ session final, aliceSession = .ok session ∧
    run (step builtinEnvironment) (observe session) firstDispatches = some final ∧
    final.signal.underway = [] ∧ "outline" ∈ final.signal.listeners ∧
    (final.signal.deliveredTo "outline").map Prod.fst = [2, 1] ∧
    (final.signal.deliveredTo "outline").getLast?.map (·.2.json) ≠ some final.session.replica.doc ∧
    ¬ Faithful builtinEnvironment (observe session) firstDispatches final := by
  obtain ⟨session, final, created, reached, passed⟩ := @exists_observed_of_any firstDispatches
    (fun _ final => final.signal.underway.isEmpty &&
      decide ("outline" ∈ final.signal.listeners) &&
      decide ((final.signal.deliveredTo "outline").map Prod.fst = [2, 1]) &&
      decide ((final.signal.deliveredTo "outline").getLast?.map (·.2.json) ≠
        some final.session.replica.doc)) (by decide +kernel)
  simp only [Bool.and_eq_true, decide_eq_true_eq] at passed
  obtain ⟨⟨⟨idle, listed⟩, received⟩, stale⟩ := passed
  refine ⟨session, final, created, reached, List.isEmpty_iff.mp idle, listed, received, stale, ?_⟩
  intro faithful
  have ordered := List.Pairwise.map Prod.fst (fun _ _ less => less) (faithful.ordered "outline")
  rw [received] at ordered
  exact absurd ordered (by decide)

end Runs

end ObservedSession

end Dinkster.Collab
