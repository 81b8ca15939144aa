import Dinkster.Collab.Session

/-!
# What an action does to the document state

The handlers of a session decide a lot, and then do one of a few things to its
replica.  This module says once what those things are.
-/

namespace Dinkster.Collab

open Library Format Commands Option

variable {Client Authority : Type}

namespace Session

/-- Two sessions with the same frames and, up to the status, the same replica. -/
def Alike (session next : Session Client) : Prop :=
  next.frames = session.frames ∧ ∃ status, next.replica = { session.replica with status }

section Alikeness

variable {session next : Session Client}

theorem Alike.trans {first second third : Session Client} (before : Alike first second)
    (after : Alike second third) : Alike first third := by
  obtain ⟨firstFrames, _, left⟩ := before
  obtain ⟨thenFrames, status, right⟩ := after
  exact ⟨thenFrames.trans firstFrames, status, by rw [right, left]⟩

/-- A session in which only the loops have moved. -/
theorem alike_of_eq (frames : next.frames = session.frames)
    (replica : next.replica = session.replica) : Alike session next :=
  ⟨frames, session.replica.status, replica⟩

theorem alike_startPump (session : Session Client) : Alike session session.startPump := by
  unfold startPump
  split <;> exact alike_of_eq rfl rfl

theorem alike_startSync (session : Session Client) : Alike session session.startSync := by
  unfold startSync
  split
  · exact alike_of_eq rfl rfl
  · exact ⟨rfl, .catchingUp, rfl⟩

theorem alike_fail (session : Session Client) : Alike session session.fail := by
  unfold fail
  split
  · exact alike_of_eq rfl rfl
  · exact ⟨rfl, .error, rfl⟩

theorem alike_requestCatchUp (session : Session Client) (target : Nat) :
    Alike session (session.requestCatchUp target) :=
  (alike_of_eq rfl rfl).trans (alike_startSync (session.raiseTarget target))

theorem alike_requestResync (session : Session Client) : Alike session session.requestResync :=
  Alike.trans (alike_of_eq rfl rfl) (alike_startSync { session with resyncRequested := true })

theorem alike_handleOps (outcome : FetchOpsOutcome Client) :
    Alike session (session.handleOps outcome) := by
  unfold handleOps
  split
  · exact alike_of_eq rfl rfl
  split
  · exact alike_of_eq rfl rfl
  split <;> exact alike_of_eq rfl rfl

theorem alike_syncTurn (session : Session Client) : Alike session session.syncTurn := by
  unfold syncTurn
  split
  · exact alike_of_eq rfl rfl
  split
  · exact alike_of_eq rfl rfl
  split <;> exact alike_of_eq rfl rfl

theorem alike_syncExit (session : Session Client) : Alike session session.syncExit := by
  have awake (other : Session Client) (alike : Alike session other) :
      Alike session (if other.status = .live && (other.resyncRequested ||
        other.replica.confirmedRevision < other.syncTarget) then other.startSync
        else other.startPump) := by
    split
    · exact alike.trans (alike_startSync other)
    · exact alike.trans (alike_startPump other)
  unfold syncExit
  apply awake
  split
  · exact ⟨rfl, .live, rfl⟩
  · exact alike_of_eq rfl rfl

end Alikeness

variable [DecidableEq Client]

/-- The operation that an action hands to ordered ingress. -/
def ingestible (session : Session Client) : SessionAction Client → Option (CollabServerOp Client)
  | .opEvent op =>
    if session.status.terminal || (validateCollabServerOp op).isSome then none else some op
  | .posted (.accepted op) =>
    match session.pump with
    | .posting attempt =>
      if session.status ≠ .live || (validateCollabServerOp op).isSome ||
          !session.isSubmitted attempt op then none
      else some op
    | _ => none
  | .ingestNext =>
    match session.sync with
    | .ingesting (op :: _) _ =>
      if session.status ≠ .catchingUp || (validateCollabServerOp op).isSome then none
      else some op
    | _ => none
  | _ => none

inductive Effect (env : SessionEnvironment Authority) (session : Session Client) :
    SessionAction Client → Replica Client → List Frame → Prop where
  | quiet {action : SessionAction Client} : Effect env session action session.replica session.frames
  | dispatched {invocation : CommandInvocation} {doc : Json} {forward inverse : List PatchOp}
      {diagnostics : List Diagnostic} {replica : Replica Client}
      (ordinary : invocation.command ≠ sessionPatchId)
      (ran : session.replica.run env invocation none =
        (.ok doc forward inverse diagnostics, replica)) (changed : forward ≠ []) :
      Effect env session (.dispatch invocation) replica (.dispatch forward inverse :: session.frames)
  | refusedReplay {direction : HistoryDirection} {replica : Replica Client}
      (begun : session.replica.beginReplay env direction = (replica, none)) :
      Effect env session (.replay direction) replica session.frames
  | replayed {direction : HistoryDirection} {record : Nat} {replica : Replica Client}
      (begun : session.replica.beginReplay env direction = (replica, some record)) :
      Effect env session (.replay direction) replica (.replay direction record :: session.frames)
  | finishedDispatch {forward inverse : List PatchOp} {rest : List Frame}
      (frames : session.frames = .dispatch forward inverse :: rest) :
      Effect env session .returned (session.replica.finishDispatch forward inverse) rest
  | finishedReplay {direction : HistoryDirection} {record : Nat} {rest : List Frame}
      (frames : session.frames = .replay direction record :: rest) :
      Effect env session .returned (session.replica.finishReplay direction record) rest
  | cleared : Effect env session .clearHistory session.replica.clearHistory session.frames
  | submitted {replica : Replica Client} {attempt : SubmittedAttempt Client}
      (submitted : session.replica.submitHead = some (replica, attempt)) :
      Effect env session .pumpTurn replica session.frames
  | ingested {action : SessionAction Client} {op : CollabServerOp Client} {replica : Replica Client}
      (handed : op ∈ session.ingestible action)
      (ingested : session.replica.ingestOrdered env op = .done replica ∨
        session.replica.ingestOrdered env op = .threw replica) :
      Effect env session action replica session.frames
  | adopted {revision : Nat} {document loaded : Json} {replica : Replica Client}
      (catching : session.status = .catchingUp) (loads : env.loadDocument document = some loaded)
      (adopted : session.replica.adoptSnapshot env revision loaded = .done replica ∨
        session.replica.adoptSnapshot env revision loaded = .threw replica) :
      Effect env session (.snapshotFetched revision document) replica session.frames

/-- The next session has the replica and the frames of an effect. -/
def Affects (env : SessionEnvironment Authority) (session : Session Client)
    (action : SessionAction Client) (next : Session Client) : Prop :=
  ∃ replica status, Effect env session action replica next.frames ∧
    next.replica = { replica with status }

section Effects

variable {env : SessionEnvironment Authority} {session next : Session Client}
  {action : SessionAction Client}

theorem Alike.affects (alike : Alike session next) : Affects env session action next := by
  obtain ⟨frames, status, replica⟩ := alike
  refine ⟨session.replica, status, ?_, replica⟩
  rw [frames]
  exact .quiet

/-- What follows an effect in the loops changes nothing about it. -/
theorem Affects.andThen {middle : Session Client} (affects : Affects env session action middle)
    (alike : Alike middle next) : Affects env session action next := by
  obtain ⟨replica, _, effect, reached⟩ := affects
  obtain ⟨frames, status, same⟩ := alike
  refine ⟨replica, status, ?_, ?_⟩
  · rw [frames]
    exact effect
  · rw [same, reached]

theorem Effect.affects {replica : Replica Client} {frames : List Frame}
    (effect : Effect env session action replica frames) (moved : next.replica = replica)
    (framed : next.frames = frames) : Affects env session action next := by
  subst moved framed
  exact ⟨next.replica, next.replica.status, effect, rfl⟩

theorem affects_dispatch (invocation : CommandInvocation) :
    Affects env session (.dispatch invocation) (session.dispatch env invocation) := by
  unfold dispatch
  split
  · exact (alike_of_eq rfl rfl).affects
  rename_i ordinary
  rcases Replica.run_cases env session.replica invocation none with ⟨unchanged, empty⟩ |
    ⟨_, _, doc, forward, inverse, diagnostics, _, _, _, changed, ran⟩
  · generalize session.replica.run env invocation none = ran at unchanged empty ⊢
    obtain ⟨outcome, replica⟩ := ran
    obtain rfl : replica = session.replica := unchanged
    cases outcome with
    | rejected diagnostics => exact (alike_of_eq rfl rfl).affects
    | ok doc forward inverse diagnostics =>
      obtain rfl := empty doc forward inverse diagnostics rfl
      exact (alike_of_eq rfl rfl).affects
  · rw [ran]
    dsimp only
    rw [if_neg (by simpa using changed)]
    exact Effect.affects (.dispatched ordinary ran changed) rfl rfl

theorem affects_replayHistory (direction : HistoryDirection) :
    Affects env session (.replay direction) (session.replayHistory env direction) := by
  unfold replayHistory
  cases begun : session.replica.beginReplay env direction with
  | mk replica record =>
    cases record with
    | none => exact Effect.affects (.refusedReplay begun) rfl rfl
    | some record => exact Effect.affects (.replayed begun) rfl rfl

theorem affects_resume (resumed : session.resume = some next) :
    Affects env session .returned next := by
  unfold resume at resumed
  split at resumed
  · simp at resumed
  · rename_i frames
    cases resumed
    exact Effect.affects (.finishedDispatch frames) rfl rfl
  · rename_i frames
    cases resumed
    exact Effect.affects (.finishedReplay frames) rfl rfl

theorem affects_handleServerOp {op : CollabServerOp Client}
    (handed : op ∈ session.ingestible action) :
    Affects env session action (session.handleServerOp env op).1 := by
  unfold handleServerOp
  split
  · exact (alike_of_eq rfl rfl).affects
  split
  · exact (alike_requestCatchUp session op.revision).affects
  split
  · rename_i replica ingested
    have moved : Affects env session action { session with replica } :=
      Effect.affects (.ingested handed (.inl ingested)) rfl rfl
    exact moved.andThen (alike_startPump _)
  · have raised : Alike session (session.raiseTarget op.revision) := alike_of_eq rfl rfl
    exact (raised.trans (alike_requestResync _)).affects
  · rename_i replica ingested
    exact Effect.affects (.ingested handed (.inr ingested)) rfl rfl

theorem affects_handleOpEvent (op : CollabServerOp Client) :
    Affects env session (.opEvent op) (session.handleOpEvent env op) := by
  unfold handleOpEvent
  split
  · exact (alike_of_eq rfl rfl).affects
  rename_i running
  split
  · exact (alike_requestResync session).affects
  rename_i valid
  apply affects_handleServerOp
  simp only [ingestible]
  rw [if_neg]
  · rfl
  · simp only [Bool.not_eq_true] at running
    simp [running, valid]

theorem affects_handlePosted {attempt : SubmittedAttempt Client}
    (posting : session.pump = .posting attempt) (outcome : PostOpOutcome Client) :
    Affects env session (.posted outcome) (session.handlePosted env attempt outcome) := by
  have still {pump : PumpPhase Client} {other : Session Client} (alike : Alike session other) :
      Affects env session (.posted outcome) { other with pump } :=
    (alike.trans (alike_of_eq rfl rfl)).affects
  have same : Alike session session := alike_of_eq rfl rfl
  unfold handlePosted
  split
  · rename_i op
    split
    · exact still same
    rename_i live
    split
    · exact still (alike_requestResync session)
    rename_i valid
    split
    · exact still same
    split
    · exact still (Alike.trans (alike_of_eq rfl rfl)
        (alike_requestResync (session.raiseTarget op.revision)))
    rename_i submitted
    have handed : op ∈ session.ingestible (.posted (.accepted op)) := by
      simp only [ingestible, posting]
      rw [if_neg]
      · rfl
      · simp only [not_not] at live
        simp only [Bool.not_eq_true] at valid submitted
        simp [live, valid, submitted]
    have moved := @affects_handleServerOp _ _ _ env session _ op handed
    split
    · rename_i reached handled
      rw [handled] at moved
      exact moved.andThen (alike_of_eq rfl rfl)
    · rename_i reached handled
      rw [handled] at moved
      split <;> exact moved.andThen (alike_of_eq rfl rfl)
  · rename_i revision
    split
    · exact still same
    split
    · exact still same
    · exact still (alike_requestCatchUp session revision)
  · split <;> exact still same
  · split <;> exact still same
  all_goals
    split
    · exact still same
    · exact still (alike_fail session)

theorem affects_pumpTurn : Affects env session .pumpTurn session.pumpTurn := by
  unfold pumpTurn
  split
  · split
    · rename_i replica attempt submitted
      exact Effect.affects (.submitted submitted) rfl rfl
    · exact (alike_of_eq rfl rfl).affects
  · exact (alike_of_eq rfl rfl).affects

theorem affects_handleSnapshot (revision : Nat) (document : Json) :
    Affects env session (.snapshotFetched revision document)
      (session.handleSnapshot env revision document) := by
  unfold handleSnapshot
  split
  · exact (alike_of_eq rfl rfl).affects
  rename_i catching
  have caught : session.status = .catchingUp := not_not.mp catching
  split
  · exact ((alike_fail session).trans (alike_of_eq rfl rfl)).affects
  split
  · exact ((alike_fail session).trans (alike_of_eq rfl rfl)).affects
  rename_i loaded loads
  dsimp only
  split
  · rename_i replica ended
    exact Effect.affects (.adopted caught loads (.inl ended)) rfl rfl
  · rename_i replica ended
    have moved : Affects env session (.snapshotFetched revision document)
        { (session.raiseTarget session.replica.confirmedRevision).raiseTarget revision with
          replica } := Effect.affects (.adopted caught loads (.inr ended)) rfl rfl
    exact moved.andThen (Alike.trans (alike_fail _) (alike_of_eq rfl rfl))
  · exact (alike_of_eq rfl rfl).affects

theorem affects_ingestPage {page : List (CollabServerOp Client)} {progressed : Bool}
    (inHand : session.sync = .ingesting page progressed) :
    Affects env session .ingestNext (session.ingestPage env page progressed) := by
  unfold ingestPage
  split
  · split <;> exact (alike_of_eq rfl rfl).affects
  rename_i op rest
  split
  · exact (alike_of_eq rfl rfl).affects
  rename_i catching
  split
  · exact (alike_of_eq rfl rfl).affects
  rename_i valid
  split
  · exact (alike_of_eq rfl rfl).affects
  have handed : op ∈ session.ingestible .ingestNext := by
    simp only [ingestible, inHand]
    rw [if_neg]
    · rfl
    · simp only [not_not] at catching
      simp only [Bool.not_eq_true] at valid
      simp [catching, valid]
  split
  · rename_i replica ingested
    exact Effect.affects (.ingested handed (.inl ingested)) rfl rfl
  · exact (alike_of_eq rfl rfl).affects
  · rename_i replica ingested
    have moved : Affects env session .ingestNext { session with replica } :=
      Effect.affects (.ingested handed (.inr ingested)) rfl rfl
    exact moved.andThen (Alike.trans (alike_fail _) (alike_of_eq rfl rfl))

theorem step_affects (stepped : session.step env action = some next) :
    Affects env session action next := by
  cases action with
  | dispatch invocation => exact some.inj stepped ▸ affects_dispatch invocation
  | replay direction => exact some.inj stepped ▸ affects_replayHistory direction
  | returned => exact affects_resume stepped
  | clearHistory => exact some.inj stepped ▸ Effect.affects .cleared rfl rfl
  | close => exact some.inj stepped ▸ Alike.affects ⟨rfl, .closed, rfl⟩
  | opEvent op => exact some.inj stepped ▸ affects_handleOpEvent op
  | connected revision =>
    cases stepped
    unfold handleConnected
    split
    · exact (alike_of_eq rfl rfl).affects
    split
    · exact (alike_requestCatchUp session revision).affects
    · exact (alike_of_eq rfl rfl).affects
  | descriptorInvalid => exact some.inj stepped ▸ (alike_fail session).affects
  | pumpTurn =>
    simp only [step] at stepped
    split at stepped
    · exact some.inj stepped ▸ affects_pumpTurn
    · exact some.inj stepped ▸ affects_pumpTurn
    · simp at stepped
  | posted outcome =>
    simp only [step] at stepped
    split at stepped
    · rename_i attempt posting
      exact some.inj stepped ▸ affects_handlePosted posting outcome
    · simp at stepped
  | pumpThrew | pumpExit =>
    simp only [step] at stepped
    split at stepped
    · exact some.inj stepped ▸ (alike_of_eq rfl rfl).affects
    · simp at stepped
  | syncTurn =>
    simp only [step] at stepped
    split at stepped
    · exact some.inj stepped ▸ (alike_syncTurn session).affects
    · exact some.inj stepped ▸ (alike_syncTurn session).affects
    · simp at stepped
  | snapshotFetched revision document =>
    simp only [step] at stepped
    split at stepped
    · exact some.inj stepped ▸ affects_handleSnapshot revision document
    · simp at stepped
  | opsFetched outcome =>
    simp only [step] at stepped
    split at stepped
    · exact some.inj stepped ▸ (alike_handleOps outcome).affects
    · simp at stepped
  | ingestNext =>
    simp only [step] at stepped
    split at stepped
    · rename_i page progressed inHand
      exact some.inj stepped ▸ affects_ingestPage inHand
    · simp at stepped
  | syncThrew =>
    simp only [step] at stepped
    split at stepped
    · exact some.inj stepped ▸ ((alike_fail session).trans (alike_of_eq rfl rfl)).affects
    · exact some.inj stepped ▸ ((alike_fail session).trans (alike_of_eq rfl rfl)).affects
    · exact some.inj stepped ▸ ((alike_fail session).trans (alike_of_eq rfl rfl)).affects
    · simp at stepped
  | syncExit =>
    simp only [step] at stepped
    split at stepped
    · exact some.inj stepped ▸ (alike_syncExit session).affects
    · simp at stepped

end Effects

end Session

end Dinkster.Collab
