import Dinkster.Collab.Delivery
import Dinkster.Collab.Effect

/-!
# Sessions attached to the log

What holds of a session that follows a server: its replica is trusted, its loops
only submit when the session has reached what it has heard of, and the page in
hand comes from the log.  Every action of the session keeps this.
-/

namespace Dinkster.Collab

open Library Format Commands Option

variable {Client Authority : Type}

namespace Session

variable [DecidableEq Client]

/-- No rebase of the action starts from a document that the ownership boundary
refuses, and a checkpoint loads as what it is. -/
def Lossless (env : SessionEnvironment Authority) (session : Session Client)
    (action : SessionAction Client) : Prop :=
  (∀ op ∈ session.ingestible action, session.replica.Absorbable env op) ∧
    ∀ revision document, action = .snapshotFetched revision document →
      ∀ loaded ∈ env.loadDocument document,
        loaded.value = document.value ∧ (ownJson loaded).toOption.isSome

def losslessTest (env : SessionEnvironment Authority) (session : Session Client)
    (action : SessionAction Client) : Bool :=
  ((session.ingestible action).all fun op =>
      !decide (session.replica.Rebases op) ||
        (applyChecked env session.replica.confirmed op.patch).toOption.all fun next =>
          (ownJson next).toOption.isSome) &&
    match action with
    | .snapshotFetched _ document =>
      env.loadDocument document = some document && (ownJson document).toOption.isSome
    | _ => true

theorem lossless_of_test {env : SessionEnvironment Authority} {session : Session Client}
    {action : SessionAction Client} (passes : session.losslessTest env action = true) :
    session.Lossless env action := by
  simp only [losslessTest, Bool.and_eq_true] at passes
  obtain ⟨ingress, snapshot⟩ := passes
  constructor
  · intro op handed rebases next applied
    rw [show session.ingestible action = some op from handed] at ingress
    simp only [all_some, rebases, decide_true, Bool.not_true, Bool.false_or] at ingress
    rw [show (applyChecked env session.replica.confirmed op.patch).toOption = some next from
      applied] at ingress
    exact ingress
  · rintro revision document rfl loaded loads
    simp only [Bool.and_eq_true, decide_eq_true_eq] at snapshot
    obtain rfl : document = loaded := some.inj (snapshot.1.symm.trans loads)
    exact ⟨rfl, snapshot.2⟩

structure RebasesMeet (property : Replica.Reexecution Client → Prop)
    (env : SessionEnvironment Authority) (session : Session Client)
    (action : SessionAction Client) : Prop where
  ingested : ∀ op ∈ session.ingestible action, session.replica.IngressMeets property env op
  adopted : ∀ revision document, action = .snapshotFetched revision document →
    ∀ loaded ∈ env.loadDocument document,
      session.replica.RebaseMeets property env loaded fun _ entry =>
        Replica.ambiguous revision entry

/-- The replays of history that the action executes meet a standard: the one it asks for,
and those that a rebase of it executes again. -/
structure Upholds (standard : Standard) (env : SessionEnvironment Authority)
    (session : Session Client) (action : SessionAction Client) : Prop where
  replayed : ∀ direction, action = .replay direction →
    session.replica.ReplayMeets standard env direction
  rebased : session.RebasesMeet (Replica.Reexecution.Meets standard) env action

end Session

/-! ## The invariant of a session -/

section Attachment

variable (standard : Standard) (sound : Prop) (initial : Json)
  (client : Client) (log : WireLog Client)

/-- A session whose replica is trusted. -/
structure Backed (session : Session Client) : Prop where
  trusted : Replication.Trusted (replicaProtocol standard initial client) sound
    (session.replica.view log session.syncTarget)
  kept : Kept session.replica
  named : session.replica.nonce = client

/-- A live session that is not catching up has reached what it has heard of, and
the page in hand comes from the log. -/
structure Paced (session : Session Client) : Prop where
  rested : session.status = .live → session.syncing = false →
    session.syncTarget ≤ session.replica.confirmedRevision
  page : ∀ rest progressed, session.sync = .ingesting rest progressed →
    ∀ op ∈ rest, Delivered log op

/-- A session that follows the log. -/
structure Attached (session : Session Client) : Prop where
  backed : Backed standard sound initial client log session
  paced : Paced log session

end Attachment

section Steps

variable {env : SessionEnvironment Authority} {standard : Standard} {sound : Prop} {initial : Json}
  {client : Client} {log : WireLog Client} {session next : Session Client}

namespace Backed

section

variable (backed : Backed standard sound initial client log session)

include backed

theorem of_bare (alike : next.replica.bare = session.replica.bare)
    (nonce : next.replica.nonce = session.replica.nonce)
    (target : next.syncTarget = session.syncTarget) :
    Backed standard sound initial client log next := by
  refine ⟨?_, backed.kept.of_bare alike, nonce.trans backed.named⟩
  rw [target, view_eq_of_bare alike]
  exact backed.trusted

theorem of_refines (refines : Refines standard sound initial client
      (session.replica.view log session.syncTarget) (next.replica.view log next.syncTarget)
      next.replica) : Backed standard sound initial client log next :=
  ⟨backed.trusted.moves refines.moves, refines.kept, refines.named⟩

theorem raiseTarget (target : Nat) :
    Backed standard sound initial client log (session.raiseTarget target) := by
  refine ⟨?_, backed.kept, backed.named⟩
  exact backed.trusted.moves (.inr (.announce _ (Nat.le_max_left _ target)))

theorem startSync : Backed standard sound initial client log session.startSync := by
  unfold Session.startSync
  split
  · exact backed
  · exact backed.of_bare rfl rfl rfl

theorem startPump : Backed standard sound initial client log session.startPump := by
  unfold Session.startPump
  split
  · exact backed.of_bare rfl rfl rfl
  · exact backed

theorem fail : Backed standard sound initial client log session.fail := by
  unfold Session.fail
  split
  · exact backed
  · exact backed.of_bare rfl rfl rfl

theorem requestCatchUp (target : Nat) :
    Backed standard sound initial client log (session.requestCatchUp target) :=
  (backed.raiseTarget target).startSync

theorem requestResync : Backed standard sound initial client log session.requestResync :=
  startSync (backed.of_bare rfl rfl rfl)

end

end Backed

namespace Paced

/-- What the loops do not read keeps a session paced. -/
theorem of_grounded (paced : Paced log session)
    (grounded : Replica.Grounded session.replica next.replica)
    (syncing : next.syncing = session.syncing) (target : next.syncTarget = session.syncTarget)
    (sync : next.sync = session.sync) : Paced log next := by
  constructor
  · intro live idle
    rw [target, grounded.confirmedRevision]
    exact paced.rested (grounded.status.symm.trans live) (syncing.symm.trans idle)
  · rw [sync]
    exact paced.page

/-- A session that is catching up or that has ended is paced. -/
theorem of_page (busy : next.status = .live → next.syncing = false → False)
    (page : ∀ rest progressed, next.sync = .ingesting rest progressed →
      ∀ op ∈ rest, Delivered log op) : Paced log next :=
  ⟨fun live idle => (busy live idle).elim, page⟩

end Paced

theorem status_startSync_of_idle (live : session.startSync.status = .live)
    (idle : session.startSync.syncing = false) : False := by
  unfold Session.startSync at live idle
  split at live
  · rename_i unchanged
    rw [if_pos unchanged] at idle
    simp only [live, idle] at unchanged
    simp [SharedSessionStatus.terminal] at unchanged
  · rename_i started
    rw [if_neg started] at idle
    simp at idle

theorem page_startSync (page : ∀ rest progressed, session.sync = .ingesting rest progressed →
      ∀ op ∈ rest, Delivered log op) :
    ∀ rest progressed, session.startSync.sync = .ingesting rest progressed →
      ∀ op ∈ rest, Delivered log op := by
  intro rest progressed
  unfold Session.startSync
  split
  · exact page rest progressed
  · simp

theorem paced_startSync (page : ∀ rest progressed, session.sync = .ingesting rest progressed →
      ∀ op ∈ rest, Delivered log op) : Paced log session.startSync :=
  .of_page status_startSync_of_idle (page_startSync page)

theorem paced_startPump (paced : Paced log session) : Paced log session.startPump := by
  unfold Session.startPump
  split
  · exact ⟨paced.rested, paced.page⟩
  · exact paced

theorem status_fail_ne_live (session : Session Client) : session.fail.status ≠ .live := by
  unfold Session.fail
  split
  · rename_i terminal
    intro live
    rw [live] at terminal
    simp [SharedSessionStatus.terminal] at terminal
  · simp [Session.setStatus, Session.status]

section

variable (attached : Attached standard sound initial client log session)

include attached

theorem Attached.withPump (pump : PumpPhase Client) :
    Attached standard sound initial client log { session with pump } :=
  ⟨attached.backed.of_bare rfl rfl rfl, attached.paced.rested, attached.paced.page⟩

/-- Neither is a phase of the sync loop that has no page in hand, or the wish to
resynchronize. -/
theorem Attached.withSync {resyncRequested : Bool} {sync : SyncPhase Client}
    (pageless : ∀ rest progressed, sync ≠ .ingesting rest progressed) :
    Attached standard sound initial client log { session with resyncRequested, sync } := by
  refine ⟨attached.backed.of_bare rfl rfl rfl, attached.paced.rested, ?_⟩
  intro rest progressed equal
  exact absurd equal (pageless rest progressed)

theorem Attached.fail : Attached standard sound initial client log session.fail := by
  refine ⟨attached.backed.fail, .of_page (fun live _ => status_fail_ne_live session live) ?_⟩
  unfold Session.fail
  split <;> exact attached.paced.page

theorem Attached.requestResync : Attached standard sound initial client log session.requestResync :=
  ⟨attached.backed.requestResync, paced_startSync attached.paced.page⟩

theorem Attached.requestCatchUp (target : Nat) :
    Attached standard sound initial client log (session.requestCatchUp target) :=
  ⟨attached.backed.requestCatchUp target, paced_startSync attached.paced.page⟩

end

theorem attached_dispatch (admits : standard.AdmitsCommands env)
    (attached : Attached standard sound initial client log session)
    (invocation : CommandInvocation) :
    Attached standard sound initial client log (session.dispatch env invocation) := by
  unfold Session.dispatch
  split
  · exact attached
  rename_i ordinary
  obtain ⟨moves, kept⟩ := @run_refines _ _ env standard sound initial client log session.syncTarget
    session.replica admits attached.backed.kept attached.backed.named invocation ordinary
  have grounded := Replica.grounded_run env session.replica invocation none
  generalize session.replica.run env invocation none = ran at moves kept grounded ⊢
  obtain ⟨outcome, replica⟩ := ran
  have backed : Refines standard sound initial client
      (session.replica.view log session.syncTarget) (replica.view log session.syncTarget) replica :=
    ⟨moves, kept, grounded.nonce.trans attached.backed.named⟩
  have moved (frames : List Frame) :
      Attached standard sound initial client log { session with replica, frames } :=
    ⟨attached.backed.of_refines backed, attached.paced.of_grounded grounded rfl rfl rfl⟩
  cases outcome with
  | rejected diagnostics => exact moved session.frames
  | ok doc forward inverse diagnostics =>
    dsimp only
    split
    · exact moved session.frames
    · exact moved (.dispatch forward inverse :: session.frames)

theorem attached_replayHistory (attached : Attached standard sound initial client log session)
    {direction : HistoryDirection} (meets : session.replica.ReplayMeets standard env direction) :
    Attached standard sound initial client log (session.replayHistory env direction) := by
  unfold Session.replayHistory
  obtain ⟨moves, kept⟩ := @beginReplay_refines _ _ env standard sound initial client log
    session.syncTarget session.replica attached.backed.kept attached.backed.named direction meets
  have grounded := Replica.grounded_beginReplay env session.replica direction
  generalize session.replica.beginReplay env direction = begun at moves kept grounded ⊢
  obtain ⟨replica, record⟩ := begun
  have backed : Refines standard sound initial client
      (session.replica.view log session.syncTarget) (replica.view log session.syncTarget) replica :=
    ⟨moves, kept, grounded.nonce.trans attached.backed.named⟩
  cases record with
  | none | some record =>
    exact ⟨attached.backed.of_refines backed, attached.paced.of_grounded grounded rfl rfl rfl⟩

theorem attached_resume (attached : Attached standard sound initial client log session)
    (resumed : session.resume = some next) : Attached standard sound initial client log next := by
  have pumped : Attached standard sound initial client log session.startPump :=
    ⟨attached.backed.startPump, paced_startPump attached.paced⟩
  have same : session.startPump.replica = session.replica := by
    unfold Session.startPump
    split <;> rfl
  unfold Session.resume at resumed
  split at resumed
  · simp at resumed
  · rename_i forward inverse rest _
    cases resumed
    have grounded := Replica.grounded_finishDispatch session.replica forward inverse
    rw [← same] at grounded ⊢
    exact ⟨pumped.backed.of_bare (bare_finishDispatch _ forward inverse) grounded.nonce rfl,
      pumped.paced.of_grounded grounded rfl rfl rfl⟩
  · rename_i direction record rest _
    cases resumed
    have grounded := Replica.grounded_finishReplay session.replica direction record
    rw [← same] at grounded ⊢
    exact ⟨pumped.backed.of_bare (bare_finishReplay _ direction record) grounded.nonce rfl,
      pumped.paced.of_grounded grounded rfl rfl rfl⟩

/-! ## The sync loop -/

theorem attached_handleSnapshot (admits : standard.AdmitsCommands env)
    (attached : Attached standard sound initial client log session)
    {revision : Nat} {document : Json}
    (faithful : sound → ∀ loaded ∈ env.loadDocument document, revision ≤ log.length ∧
      (replicaProtocol standard initial client).documentAt log revision = some loaded.value)
    (owned : sound → ∀ loaded ∈ env.loadDocument document, (ownJson loaded).toOption.isSome)
    (meets : ∀ loaded ∈ env.loadDocument document,
      session.replica.RebaseMeets (Replica.Reexecution.Meets standard) env loaded fun _ entry =>
        Replica.ambiguous revision entry) :
    Attached standard sound initial client log (session.handleSnapshot env revision document) := by
  unfold Session.handleSnapshot
  split
  · exact attached.withSync (by simp)
  rename_i catching
  have caught : session.status = .catchingUp := not_not.mp catching
  split
  · exact attached.fail.withSync (by simp)
  split
  · exact attached.fail.withSync (by simp)
  rename_i loaded loads
  have heard : session.syncTarget ≤
        ((session.raiseTarget session.replica.confirmedRevision).raiseTarget revision).syncTarget ∧
      session.replica.confirmedRevision ≤
        ((session.raiseTarget session.replica.confirmedRevision).raiseTarget revision).syncTarget := by
    simp only [Session.raiseTarget]
    omega
  -- The session stays in catch-up, so nothing is submitted before it has caught up.
  have adopted {replica : Replica Client}
      (ended : session.replica.adoptSnapshot env revision loaded = .done replica ∨
        session.replica.adoptSnapshot env revision loaded = .threw replica) :
      Attached standard sound initial client log
        { (session.raiseTarget session.replica.confirmedRevision).raiseTarget revision with
          replica } := by
    obtain ⟨refines, status⟩ := @adoptSnapshot_refines _ _ env standard sound initial client log
      session.syncTarget session.replica replica admits attached.backed.kept attached.backed.named
      revision _ loaded (env.plain_of_loadDocument loads) (fun steady => faithful steady loaded loads)
      (fun steady => owned steady loaded loads) heard (meets loaded loads) ended
    refine ⟨attached.backed.of_refines refines, .of_page ?_ attached.paced.page⟩
    intro live _
    exact absurd ((status.symm.trans live).symm.trans caught) (by simp)
  dsimp only
  split
  · rename_i replica ended
    exact (adopted (.inl ended)).withSync (by simp)
  · rename_i replica ended
    exact (adopted (.inr ended)).fail.withSync (by simp)
  · refine Attached.withSync ⟨(attached.backed.raiseTarget _).raiseTarget revision, ?_⟩ (by simp)
    exact .of_page (fun live _ => absurd (live.symm.trans caught) (by simp)) attached.paced.page

section

variable (attached : Attached standard sound initial client log session)

include attached

theorem attached_handleOps {outcome : FetchOpsOutcome Client}
    (delivered : ∀ ops, outcome = .ops ops → ∀ op ∈ ops, Delivered log op) :
    Attached standard sound initial client log (session.handleOps outcome) := by
  unfold Session.handleOps
  split
  · exact attached.withSync (by simp)
  split
  · exact attached.withSync (by simp)
  split
  · exact attached.withSync (by simp)
  · rename_i ops
    refine ⟨attached.backed.of_bare rfl rfl rfl, attached.paced.rested, ?_⟩
    intro rest progressed equal
    obtain ⟨rfl, _⟩ := SyncPhase.ingesting.inj equal
    exact delivered ops rfl

theorem attached_syncTurn : Attached standard sound initial client log session.syncTurn := by
  unfold Session.syncTurn
  split
  · exact attached.withSync (by simp)
  split
  · exact attached.withSync (by simp)
  split <;> exact attached.withSync (by simp)

theorem attached_syncExit : Attached standard sound initial client log session.syncExit := by
  have woken (awake : Session Client) (ended : awake.sync = .none)
      (backed : Backed standard sound initial client log awake) :
      Attached standard sound initial client log
        (if awake.status = .live && (awake.resyncRequested ||
            awake.replica.confirmedRevision < awake.syncTarget) then
          awake.startSync
        else awake.startPump) := by
    have pageless : ∀ rest progressed, awake.sync = .ingesting rest progressed →
        ∀ op ∈ rest, Delivered log op := by
      intro rest progressed equal
      rw [ended] at equal
      simp at equal
    split
    · exact ⟨backed.startSync, paced_startSync pageless⟩
    · rename_i still
      refine ⟨backed.startPump, paced_startPump ⟨?_, pageless⟩⟩
      -- A session that would wake up behind what it has heard of syncs again.
      intro live _
      simp only [live, decide_true, Bool.true_and, Bool.or_eq_true, decide_eq_true_eq, not_or,
        Nat.not_lt] at still
      exact still.2
  unfold Session.syncExit
  apply woken
  · split <;> rfl
  · split <;> exact attached.backed.of_bare rfl rfl rfl

end

/-! ## Deliveries -/

variable [DecidableEq Client]

variable {op : CollabServerOp Client}

section

variable (admits : standard.AdmitsCommands env)

include admits

section

variable (attached : Attached standard sound initial client log session)

include attached

theorem attached_ingest (delivered : Delivered log op)
    (absorbable : sound → session.replica.Absorbable env op)
    (meets : session.replica.IngressMeets (Replica.Reexecution.Meets standard) env op)
    {replica : Replica Client} (ingested : session.replica.ingestOrdered env op = .done replica ∨
      session.replica.ingestOrdered env op = .threw replica) :
    Attached standard sound initial client log { session with replica } := by
  have refines := ingestOrdered_refines admits attached.backed.trusted.once attached.backed.kept
    attached.backed.named delivered absorbable meets ingested
  obtain ⟨revision, status⟩ := ingestOrdered_advances ingested
  refine ⟨attached.backed.of_refines refines, ?_, attached.paced.page⟩
  intro live idle
  show session.syncTarget ≤ replica.confirmedRevision
  rw [revision]
  exact Nat.le_succ_of_le (attached.paced.rested (status.symm.trans live) idle)

theorem attached_handleServerOp (delivered : Delivered log op)
    (absorbable : sound → session.replica.Absorbable env op)
    (meets : session.replica.IngressMeets (Replica.Reexecution.Meets standard) env op) :
    Attached standard sound initial client log (session.handleServerOp env op).1 := by
  unfold Session.handleServerOp
  split
  · exact attached
  split
  · exact ⟨attached.backed.requestCatchUp op.revision, paced_startSync attached.paced.page⟩
  split
  · rename_i replica ingested
    have moved := attached_ingest admits attached delivered absorbable meets (.inl ingested)
    exact ⟨moved.backed.startPump, paced_startPump moved.paced⟩
  · exact ⟨(attached.backed.raiseTarget op.revision).requestResync,
      paced_startSync attached.paced.page⟩
  · rename_i replica ingested
    exact attached_ingest admits attached delivered absorbable meets (.inr ingested)

theorem attached_handlePosted {attempt : SubmittedAttempt Client}
    (posting : session.pump = .posting attempt) {outcome : PostOpOutcome Client}
    (delivered : ∀ op, outcome = .accepted op → Delivered log op)
    (absorbable : sound → ∀ op ∈ session.ingestible (.posted outcome),
      session.replica.Absorbable env op) (meets : ∀ op ∈ session.ingestible (.posted outcome),
      session.replica.IngressMeets (Replica.Reexecution.Meets standard) env op) :
    Attached standard sound initial client log (session.handlePosted env attempt outcome) := by
  unfold Session.handlePosted
  split
  · rename_i op
    split
    · exact attached.withPump .exiting
    rename_i live
    split
    · exact attached.requestResync.withPump .exiting
    rename_i valid
    split
    · exact attached.withPump .turning
    split
    · refine Attached.withPump ⟨(attached.backed.raiseTarget op.revision).requestResync, ?_⟩ .exiting
      exact paced_startSync attached.paced.page
    rename_i submitted
    have handed : session.ingestible (.posted (.accepted op)) = some op := by
      simp only [Session.ingestible, posting]
      rw [if_neg]
      simp only [not_not] at live
      simp only [Bool.not_eq_true] at valid submitted
      simp [live, valid, submitted]
    have moved := attached_handleServerOp admits attached (delivered op rfl)
      (fun steady => absorbable steady op handed) (meets op handed)
    split
    · rename_i reached handled
      rw [handled] at moved
      exact moved.withPump .exiting
    · rename_i reached handled
      rw [handled] at moved
      split
      · exact moved.withPump .exiting
      · exact moved.withPump .turning
  · split
    · exact attached.withPump .exiting
    split
    · exact attached.withPump .turning
    · rename_i revision _ _
      exact (attached.requestCatchUp revision).withPump .exiting
  · split
    · exact attached.withPump .exiting
    · exact attached.withPump .delaying
  · split
    · exact attached.withPump .exiting
    · exact attached.withPump .delaying
  all_goals
    split
    · exact attached.withPump .exiting
    · exact attached.fail.withPump .exiting

theorem attached_handleOpEvent (delivered : Delivered log op)
    (absorbable : sound → ∀ op' ∈ session.ingestible (.opEvent op),
      session.replica.Absorbable env op') (meets : ∀ op' ∈ session.ingestible (.opEvent op),
      session.replica.IngressMeets (Replica.Reexecution.Meets standard) env op') :
    Attached standard sound initial client log (session.handleOpEvent env op) := by
  unfold Session.handleOpEvent
  split
  · exact attached
  rename_i running
  split
  · exact attached.requestResync
  rename_i valid
  have handed : session.ingestible (.opEvent op) = some op := by
    simp only [Session.ingestible]
    rw [if_neg]
    simp only [Bool.not_eq_true] at running
    simp [running, valid]
  exact attached_handleServerOp admits attached delivered (fun steady => absorbable steady op handed)
    (meets op handed)

end

end

theorem attached_pumpTurn (attached : Attached standard sound initial client log session) :
    Attached standard sound initial client log session.pumpTurn := by
  unfold Session.pumpTurn
  split
  · rename_i able
    split
    · rename_i replica attempt submitted
      -- The pump submits only while the session is live and at rest.
      have rested : session.syncTarget ≤ session.replica.confirmedRevision := by
        simp only [Session.canSubmit, Bool.and_eq_true, decide_eq_true_eq, Bool.not_eq_true'] at able
        exact attached.paced.rested able.1.2 able.2
      have refines := @submitHead_refines _ standard sound initial client log session.syncTarget
        session.replica replica _ attached.backed.kept attached.backed.named rested attempt submitted
      have same : replica.status = session.replica.status ∧
          replica.confirmedRevision = session.replica.confirmedRevision := by
        unfold Replica.submitHead at submitted
        split at submitted
        · simp at submitted
        · simp only [some.injEq, Prod.mk.injEq] at submitted
          obtain ⟨rfl, _⟩ := submitted
          exact ⟨rfl, rfl⟩
      refine ⟨attached.backed.of_refines refines, ?_, attached.paced.page⟩
      intro live idle
      show session.syncTarget ≤ replica.confirmedRevision
      rw [same.2]
      exact rested
    · exact attached.withPump .exiting
  · exact attached.withPump .exiting

theorem attached_ingestPage (admits : standard.AdmitsCommands env)
    (attached : Attached standard sound initial client log session)
    {page : List (CollabServerOp Client)} {progressed : Bool}
    (inHand : session.sync = .ingesting page progressed)
    (absorbable : sound → ∀ op ∈ session.ingestible .ingestNext, session.replica.Absorbable env op)
    (meets : ∀ op ∈ session.ingestible .ingestNext,
      session.replica.IngressMeets (Replica.Reexecution.Meets standard) env op) :
    Attached standard sound initial client log (session.ingestPage env page progressed) := by
  have delivered := attached.paced.page page progressed inHand
  unfold Session.ingestPage
  split
  · split
    all_goals exact attached.withSync (by simp)
  rename_i op rest
  -- What follows in the page comes from the log as well.
  have onward {other : Session Client} (moved : Attached standard sound initial client log other)
      (progressed : Bool) :
      Attached standard sound initial client log
        { other with sync := .ingesting rest progressed } := by
    refine ⟨moved.backed.of_bare rfl rfl rfl, moved.paced.rested, ?_⟩
    intro others flag equal
    obtain ⟨rfl, _⟩ := SyncPhase.ingesting.inj equal
    exact fun other member => delivered other (List.mem_cons_of_mem _ member)
  split
  · exact attached.withSync (by simp)
  rename_i catching
  have caught : session.status = .catchingUp := not_not.mp catching
  split
  · exact attached.withSync (by simp)
  rename_i valid
  split
  · exact onward attached progressed
  have handed : session.ingestible .ingestNext = some op := by
    simp only [Session.ingestible, inHand]
    rw [if_neg]
    simp only [Bool.not_eq_true] at valid
    simp [caught, valid]
  have moved {replica : Replica Client}
      (ingested : session.replica.ingestOrdered env op = .done replica ∨
        session.replica.ingestOrdered env op = .threw replica) :
      Attached standard sound initial client log { session with replica } :=
    attached_ingest admits attached (delivered op List.mem_cons_self)
      (fun steady => absorbable steady op handed) (meets op handed)
      ingested
  split
  · rename_i replica ingested
    exact onward (moved (.inl ingested)) true
  · refine Attached.withSync ⟨attached.backed.raiseTarget op.revision, ?_⟩ (by simp)
    exact .of_page (fun live _ => absurd (live.symm.trans caught) (by simp)) attached.paced.page
  · rename_i replica ingested
    exact (moved (.inr ingested)).fail.withSync (by simp)

/-! ## Steps -/

/-- What a session is told comes from the log, and under the conditions its
rebases are harmless: it follows the log. -/
theorem attached_step (admits : standard.AdmitsCommands env)
    (attached : Attached standard sound initial client log session) {action : SessionAction Client}
    (delivered : ∀ op, action = .opEvent op ∨ action = .posted (.accepted op) ∨
      (∃ ops, action = .opsFetched (.ops ops) ∧ op ∈ ops) → Delivered log op)
    (faithful : sound → ∀ revision document, action = .snapshotFetched revision document →
      ∀ loaded ∈ env.loadDocument document, revision ≤ log.length ∧
        (replicaProtocol standard initial client).documentAt log revision = some loaded.value)
    (lossless : sound → session.Lossless env action) (upholds : session.Upholds standard env action)
    (stepped : session.step env action = some next) :
    Attached standard sound initial client log next := by
  have absorbable := fun steady => (lossless steady).1
  cases action with
  | dispatch invocation =>
    cases stepped
    exact attached_dispatch admits attached invocation
  | replay direction =>
    cases stepped
    exact attached_replayHistory attached (upholds.replayed direction rfl)
  | returned => exact attached_resume attached stepped
  | clearHistory =>
    cases stepped
    exact ⟨attached.backed.of_bare rfl rfl rfl, attached.paced.rested, attached.paced.page⟩
  | close =>
    cases stepped
    exact ⟨attached.backed.of_bare rfl rfl rfl,
      .of_page (by simp [Session.status, Session.setStatus]) attached.paced.page⟩
  | opEvent op =>
    cases stepped
    exact attached_handleOpEvent admits attached (delivered op (.inl rfl)) absorbable
      upholds.rebased.ingested
  | connected revision =>
    cases stepped
    unfold Session.handleConnected
    split
    · exact attached
    split
    · exact attached.requestCatchUp revision
    · exact attached
  | descriptorInvalid =>
    cases stepped
    exact attached.fail
  | pumpTurn =>
    simp only [Session.step] at stepped
    split at stepped
    · cases stepped
      exact attached_pumpTurn attached
    · cases stepped
      exact attached_pumpTurn attached
    · simp at stepped
  | posted outcome =>
    simp only [Session.step] at stepped
    split at stepped
    · rename_i attempt posting
      cases stepped
      exact attached_handlePosted admits attached posting
        (fun op equal => delivered op (.inr (.inl (by rw [equal])))) absorbable upholds.rebased.ingested
    · simp at stepped
  | pumpThrew =>
    simp only [Session.step] at stepped
    split at stepped
    · cases stepped
      exact attached.withPump .exiting
    · simp at stepped
  | pumpExit =>
    simp only [Session.step] at stepped
    split at stepped
    · cases stepped
      exact attached.withPump _
    · simp at stepped
  | syncTurn =>
    simp only [Session.step] at stepped
    split at stepped
    · cases stepped
      exact attached_syncTurn attached
    · cases stepped
      exact attached_syncTurn attached
    · simp at stepped
  | snapshotFetched revision document =>
    simp only [Session.step] at stepped
    split at stepped
    · cases stepped
      exact attached_handleSnapshot admits attached (fun steady => faithful steady revision document rfl)
        (fun steady loaded loads => ((lossless steady).2 revision document rfl loaded loads).2)
        (upholds.rebased.adopted revision document rfl)
    · simp at stepped
  | opsFetched outcome =>
    simp only [Session.step] at stepped
    split at stepped
    · cases stepped
      exact attached_handleOps attached fun ops equal op member =>
        delivered op (.inr (.inr ⟨ops, by rw [equal], member⟩))
    · simp at stepped
  | ingestNext =>
    simp only [Session.step] at stepped
    split at stepped
    · rename_i page progressed inHand
      cases stepped
      exact attached_ingestPage admits attached inHand absorbable upholds.rebased.ingested
    · simp at stepped
  | syncThrew =>
    simp only [Session.step] at stepped
    split at stepped
    · cases stepped
      exact attached.fail.withSync (by simp)
    · cases stepped
      exact attached.fail.withSync (by simp)
    · cases stepped
      exact attached.fail.withSync (by simp)
    · simp at stepped
  | syncExit =>
    simp only [Session.step] at stepped
    split at stepped
    · cases stepped
      exact attached_syncExit attached
    · simp at stepped

end Steps

end Dinkster.Collab
