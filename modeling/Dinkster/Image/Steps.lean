import Dinkster.Image.Delivery

/-!
# Every step of an image session

The pump submits the head of the queue as it is, with the revision it was planned over, so
what was submitted applies there.  The sync loop adopts checkpoints and ingests pages.  What
is left to do after a notification is resumed from where it stood.  Every step follows, if a
call that queues an intention is not made inside a rebase.
-/

namespace Dinkster.Image

open Library Format Commands List Option
open Collab (OpId CollabServerOp validateCollabServerOp PostOpOutcome FetchOpsOutcome)

variable {Nonce : Type} {env : ImageEnvironment} {server : ImageServer Nonce}
  {session : ImageSession Nonce}

/-- A session that differs in nothing the view depends on. -/
theorem follows_of_core {next : ImageSession Nonce} (sound : Sound env server session.core)
    (same : next.core = session.core) : Follows env server session.core next.core := by
  rw [same]
  exact .refl sound

theorem Follows.trans {first second third : Core Nonce} (front : Follows env server first second)
    (back : Follows env server second third) : Follows env server first third where
  sound := back.sound
  named := back.named.trans front.named
  kept := by
    intro attempt sent
    exact back.kept attempt (front.kept attempt sent)

/-- What the view depends on in an entry. -/
def PendingEntry.key (entry : PendingEntry Nonce) : OpId Nonce × OwnedPatch :=
  (entry.opId, entry.predicted)

theorem view_eq_keys (document : Json) (entries : List (PendingEntry Nonce)) :
    view env document entries =
      (entries.map PendingEntry.key).foldlM (fun document key => applyPatch env document key.2)
        document := by
  unfold view
  rw [foldlM_map]
  rfl

/-- A queue may be replaced by one with the same op ids and patches. -/
theorem Queue.of_keys {core : Core Nonce} {entries other : List (PendingEntry Nonce)}
    {document : Json} (queue : Queue env core entries document)
    (same : other.map PendingEntry.key = entries.map PendingEntry.key) :
    Queue env core other document := by
  have member : ∀ entry ∈ other, ∃ before ∈ entries, before.key = entry.key := by
    intro entry listed
    apply List.mem_map.mp
    rw [← same]
    exact mem_map_of_mem listed
  constructor
  · rw [view_eq_keys, same, ← view_eq_keys]
    exact queue.leads
  · intro entry listed
    obtain ⟨before, known, alike⟩ := member entry listed
    have named : before.opId = entry.opId := congrArg Prod.fst alike
    rw [← named]
    exact queue.minted before known
  · have named : ∀ entries : List (PendingEntry Nonce),
        entries.map (·.opId) = (entries.map PendingEntry.key).map Prod.fst := by
      intro entries
      rw [List.map_map]
      rfl
    rw [named, same, ← named]
    exact queue.distinct
  · intro entry listed attempt sent equal
    obtain ⟨before, known, alike⟩ := member entry listed
    have named : before.opId = entry.opId := congrArg Prod.fst alike
    have predicted : before.predicted = entry.predicted := congrArg Prod.snd alike
    rw [← predicted]
    exact queue.current before known attempt sent (equal.trans named.symm)

/-! ## The pump -/

theorem follows_sent {entry : PendingEntry Nonce} {rest entries : List (PendingEntry Nonce)}
    {submitting : ImageSession Nonce} (sound : Sound env server session.core)
    (still : session.detached = false) (queued : session.pending = entry :: rest)
    (alike : entries.map PendingEntry.key = session.pending.map PendingEntry.key)
    (attempted : ∀ other ∈ entries, ∀ attempt ∈ other.attempts,
      attempt ∈ session.sent ++ [⟨entry.opId, session.confirmedRevision, entry.predicted⟩])
    (commits : submitting.core = { session.core with
      pending := entries
      sent := session.sent ++ [⟨entry.opId, session.confirmedRevision, entry.predicted⟩] }) :
    Follows env server session.core submitting.core := by
  have settled := sound.settled still
  have queue := settled.1
  have head : entry ∈ session.core.pending := by
    change entry ∈ session.pending
    rw [queued]
    exact mem_cons_self
  have sends := sound.based.sends
  have applies : ∃ next, applyPatch env session.confirmed entry.predicted = some next := by
    have leads : view env session.confirmed session.pending = some session.optimistic := queue.leads
    rw [queued] at leads
    obtain ⟨next, applied, _⟩ := bind_eq_some_iff.mp leads
    exact ⟨next, applied⟩
  have same : ∀ attempt ∈ session.core.sent, attempt.opId = entry.opId →
      attempt = ⟨entry.opId, session.confirmedRevision, entry.predicted⟩ := by
    intro attempt sent named
    have current := queue.current entry head attempt sent named
    obtain ⟨opId, base, patch⟩ := attempt
    rw [Attempt.mk.injEq]
    exact ⟨named, current⟩
  rw [commits]
  refine ⟨⟨⟨sound.based.grounded, ⟨?_, ?_, ?_⟩, sound.based.checkpoints⟩, ?_⟩, rfl,
    fun _ sent => mem_append_left _ sent⟩
  · exact forall_mem_append.mpr ⟨sends.old, forall_mem_singleton.mpr (queue.minted entry head)⟩
  · intro attempt sent other otherSent equal
    cases mem_append.mp sent with
    | inl known =>
      cases mem_append.mp otherSent with
      | inl otherKnown => exact sends.unique attempt known other otherKnown equal
      | inr last =>
        have new := mem_singleton.mp last
        rw [new] at equal ⊢
        exact same attempt known equal
    | inr last =>
      have new := mem_singleton.mp last
      rw [new] at equal ⊢
      cases mem_append.mp otherSent with
      | inl otherKnown => exact (same other otherKnown equal.symm).symm
      | inr otherLast => exact (mem_singleton.mp otherLast).symm
  · intro attempt sent
    cases mem_append.mp sent with
    | inl known => exact sends.applies attempt known
    | inr last =>
      obtain ⟨next, applied⟩ := applies
      rw [mem_singleton.mp last]
      exact ⟨session.confirmed, next, sound.based.grounded, applied⟩
  · apply Queued.settled
    · exact still
    · have kept := queue.of_keys alike
      refine ⟨kept.leads, kept.minted, kept.distinct, ?_⟩
      intro other listed attempt sent named
      cases mem_append.mp sent with
      | inl known => exact kept.current other listed attempt known named
      | inr last =>
        rw [mem_singleton.mp last] at named ⊢
        obtain ⟨before, known, key⟩ : ∃ before ∈ session.pending, before.key = other.key := by
          apply List.mem_map.mp
          rw [← alike]
          exact mem_map_of_mem listed
        have sameId : before.opId = entry.opId := (congrArg Prod.fst key).trans named.symm
        have samePatch : before.predicted = other.predicted := congrArg Prod.snd key
        have only := inj_on_of_nodup_map queue.distinct known head sameId
        rw [← samePatch, only]
        exact ⟨rfl, rfl⟩
    · exact attempted

section Steps

variable [DecidableEq Nonce] {op : CollabServerOp Nonce}

theorem follows_pumpTurn (sound : Sound env server session.core)
    (still : session.detached = false) : Follows env server session.core session.pumpTurn.core := by
  have settled := sound.settled still
  unfold ImageSession.pumpTurn
  split
  · exact follows_of_core sound rfl
  · rename_i entry rest queued
    have known : ∀ other ∈ entry :: rest, ∀ attempt ∈ other.attempts, attempt ∈ session.sent := by
      rw [← queued]
      exact settled.2
    split
    · dsimp only
      split
      · refine @follows_sent _ env server session entry rest session.pending _ sound still queued
          rfl ?_ rfl
        rw [queued]
        intro other listed attempt submitted
        exact mem_append_left _ (known other listed attempt submitted)
      · refine @follows_sent _ env server session entry rest _ _ sound still queued ?_ ?_ rfl
        · rw [queued]
          rfl
        · intro other listed attempt submitted
          cases mem_cons.mp listed with
          | inl here =>
            rw [here] at submitted
            cases mem_append.mp submitted with
            | inl before =>
              exact mem_append_left _ (known entry mem_cons_self attempt before)
            | inr new => exact mem_append_right _ new
          | inr later =>
            exact mem_append_left _ (known other (mem_cons_of_mem _ later) attempt submitted)
    · exact follows_of_core sound rfl

variable {attempt : Attempt Nonce} {action : ImageAction Nonce}

theorem follows_withdraw {serial : Nat} (sound : Sound env server session.core)
    (still : session.detached = false) :
    Follows env server session.core (session.withdraw serial attempt).core := by
  have settled := sound.settled still
  have sends := sound.based.sends
  refine ⟨⟨⟨sound.based.grounded, ⟨sends.old, sends.unique, sends.applies⟩,
    sound.based.checkpoints⟩, ?_⟩, rfl, fun _ sent => sent⟩
  have alike : (session.withdraw serial attempt).pending.map PendingEntry.key =
      session.pending.map PendingEntry.key := by
    change (session.pending.map _).map PendingEntry.key = _
    rw [List.map_map]
    apply map_congr_left
    intro entry _
    change PendingEntry.key (if entry.serial = serial then _ else entry) = entry.key
    split <;> rfl
  apply Queued.settled
  · exact still
  · have kept := settled.1.of_keys alike
    exact ⟨kept.leads, kept.minted, kept.distinct, kept.current⟩
  · intro entry listed submitted remembered
    obtain ⟨before, known, same⟩ := mem_map.mp listed
    apply settled.2 before known
    split at same
    · rw [← same] at remembered
      exact mem_of_mem_filter remembered
    · rw [same]
      exact remembered

theorem follows_handleServerOp (ordered : server.Ordered) (known : op ∈ server.log)
    (own : Own session.core op) (sound : Sound env server session.core)
    (still : session.detached = false) :
    Follows env server session.core (session.handleServerOp env op).core := by
  unfold ImageSession.handleServerOp
  split
  · exact .refl sound
  · split
    · exact follows_of_core sound (core_requestCatchUp session op.revision)
    · have ingested := @follows_ingestOrdered _ env server _ session op true ordered known own
        sound still
      cases result : session.ingestOrdered env op true with
      | ok next =>
        rw [result] at ingested
        exact ingested
      | error left =>
        rw [result] at ingested
        have same : left = session := ingested
        dsimp only
        rw [same]
        exact follows_notify sound still rfl (by simp)

theorem follows_handleOpEvent (ordered : server.Ordered) (known : op ∈ server.log)
    (own : Own session.core op) (sound : Sound env server session.core)
    (still : session.detached = false) :
    Follows env server session.core (session.handleOpEvent env op).core := by
  unfold ImageSession.handleOpEvent
  split
  · exact .refl sound
  · split
    · exact follows_notify sound still rfl (by simp)
    · exact follows_handleServerOp ordered known own sound still

theorem follows_handlePosted {serial : Nat} {recorded : Bool} {outcome : PostOpOutcome Nonce}
    (ordered : server.Ordered) (known : ∀ op, outcome = .accepted op → op ∈ server.log)
    (own : ∀ op ∈ server.log, Own session.core op) (sound : Sound env server session.core)
    (still : session.detached = false) : Follows env server session.core
      (session.handlePosted env serial attempt recorded outcome).core := by
  unfold ImageSession.handlePosted
  split
  · exact follows_of_core sound rfl
  · cases outcome with
    | accepted op =>
      dsimp only
      split
      · exact follows_notify_of_core sound still rfl rfl (by simp)
      · exact @follows_handleServerOp _ env server { session with pump := .turning } _ op ordered
          (known op rfl) (own op (known op rfl)) sound still
    | staleBase revision =>
      dsimp only
      rw [core_requestCatchUp]
      cases recorded with
      | true => exact follows_withdraw sound still
      | false => exact follows_of_core sound rfl
    | protocolUnsupported =>
      apply follows_of_core sound
      dsimp only
      rw [core_fail]
      rfl
    | snapshotRequired | denied | error => exact follows_of_core sound rfl

omit [DecidableEq Nonce] in
theorem follows_dropFrom {ambiguous : List Nat} {revision : Nat} {document : Json}
    (sound : Sound env server session.core) (still : session.detached = false)
    (checkpoint : server.Checkpoint env revision document) (entries : List (PendingEntry Nonce)) :
    Follows env server session.core
      (session.dropFrom env ambiguous revision document entries).core := by
  cases entries with
  | nil =>
    apply follows_rebase sound still checkpoint
    · intro entry listed
      exact mem_of_mem_filter listed
    · rfl
  | cons entry rest =>
    apply follows_notify_of_core sound still (core_removeHistory session entry.record) rfl
    intro later dropped other found same
    cases same
    exact checkpoint

omit [DecidableEq Nonce] in
theorem follows_handleSnapshot {revision : Nat} {document : Json}
    (sound : Sound env server session.core) (still : session.detached = false)
    (checkpoint : server.Checkpoint env revision document) :
    Follows env server session.core (session.handleSnapshot env revision document).core := by
  unfold ImageSession.handleSnapshot
  split
  · apply follows_of_core sound
    rw [core_fail]
    rfl
  · rw [load_of_checkpoint checkpoint]
    exact @follows_dropFrom _ env server
      { session with
        syncTarget := max session.syncTarget (max session.confirmedRevision revision)
        sync := .turning } _ revision document sound still checkpoint _

theorem follows_ingestPage {page : List (CollabServerOp Nonce)} {progressed : Bool}
    (ordered : server.Ordered) (known : ∀ op ∈ page, op ∈ server.log)
    (own : ∀ op ∈ server.log, Own session.core op) (sound : Sound env server session.core)
    (still : session.detached = false) :
    Follows env server session.core (session.ingestPage env page progressed).core := by
  unfold ImageSession.ingestPage
  cases page with
  | nil =>
    dsimp only
    split <;> exact follows_of_core sound rfl
  | cons op rest =>
    have listed := known op mem_cons_self
    dsimp only
    split
    · apply follows_of_core sound
      rw [core_fail]
      rfl
    · split
      · exact follows_of_core sound rfl
      · split
        · exact follows_of_core sound rfl
        · have ingested := @follows_ingestOrdered _ env server _
            { session with sync := .ingesting rest true } op false ordered listed
            (own op listed) sound still
          split
          · rename_i next result
            rw [result] at ingested
            exact ingested
          · rename_i left result
            rw [result] at ingested
            have same : left = { session with sync := .ingesting rest true } := ingested
            apply follows_of_core sound
            rw [core_fail, same]
            rfl

omit [DecidableEq Nonce] in
/-- Taking the innermost frame of a session that is not inside a rebase. -/
theorem follows_popped {frame : Frame Nonce} {frames : List (Frame Nonce)}
    (sound : Sound env server session.core) (still : session.detached = false)
    (left : session.frames = frame :: frames) :
    Follows env server session.core ({ session with frames } : ImageSession Nonce).core := by
  have settled := sound.settled still
  have sends := sound.based.sends
  refine ⟨⟨⟨sound.based.grounded, ⟨sends.old, sends.unique, sends.applies⟩, ?_⟩, ?_⟩, rfl,
    fun _ sent => sent⟩
  · intro rest ambiguous revision document listed
    apply sound.based.checkpoints rest ambiguous revision document
    change _ ∈ session.frames
    rw [left]
    exact mem_cons_of_mem _ listed
  · have queue := settled.1
    unfold ImageSession.detached at still
    rw [left, any_cons, Bool.or_eq_false_iff] at still
    exact .settled still.2 ⟨queue.leads, queue.minted, queue.distinct, queue.current⟩ settled.2

variable {next : ImageSession Nonce}

omit [DecidableEq Nonce] in
theorem follows_resume (sound : Sound env server session.core)
    (resumed : session.resume env = some next) : Follows env server session.core next.core := by
  unfold ImageSession.resume at resumed
  split at resumed
  · simp at resumed
  · rename_i frame frames left
    cases resumed
    cases sound.queued with
    | settled still =>
      have popped := follows_popped sound still left
      have quiet : ({ session with frames } : ImageSession Nonce).detached = false := by
        have all : session.frames.any Frame.detaches = false := still
        rw [left, any_cons, Bool.or_eq_false_iff] at all
        exact all.2
      apply popped.trans
      cases frame with
      | finished => exact .refl popped.sound
      | pumping => exact follows_of_core popped.sound (core_startPump _)
      | emitting op origin pumps =>
        apply follows_notify popped.sound quiet
        · cases pumps <;> rfl
        · cases pumps <;> simp
      | resyncing =>
        apply follows_of_core popped.sound
        dsimp only
        rw [core_startSync]
        rfl
      | rebasing rest survivors cursor sequel =>
        have all : session.frames.any Frame.detaches = false := still
        rw [left] at all
        exact absurd all (by simp [Frame.detaches])
      | dropping rest ambiguous revision document =>
        apply follows_dropFrom popped.sound quiet
        apply sound.based.checkpoints rest ambiguous
        change _ ∈ session.frames
        rw [left]
        exact mem_cons_self
    | @detached rest survivors cursor sequel above below waiting called still emptied queue
        remembered =>
        have split : session.frames = above ++ .rebasing rest survivors cursor sequel :: below :=
          waiting
        have sends := sound.based.sends
        rw [left] at split
        cases above with
        | nil =>
          obtain ⟨innermost, outer⟩ := List.cons.inj split
          rw [innermost, outer]
          have follows := @follows_rebaseFrom _ env server rest
            ({ session with frames := below } : ImageSession Nonce) survivors cursor sequel (by
              refine ⟨⟨sound.based.grounded, ⟨sends.old, sends.unique, sends.applies⟩, ?_⟩,
                still, emptied, ?_, remembered⟩
              · intro later ambiguous revision document listed
                apply sound.based.checkpoints later ambiguous revision document
                rw [waiting]
                exact mem_cons_of_mem _ listed
              · exact ⟨queue.leads, queue.minted, queue.distinct, queue.current⟩)
          apply Follows.of_same _ _ follows
          all_goals rfl
        | cons top above =>
          obtain ⟨innermost, outer⟩ := List.cons.inj split
          rw [innermost, called top mem_cons_self]
          refine ⟨⟨⟨sound.based.grounded, ⟨sends.old, sends.unique, sends.applies⟩, ?_⟩, ?_⟩, rfl,
            fun _ sent => sent⟩
          · intro later ambiguous revision document listed
            apply sound.based.checkpoints later ambiguous revision document
            change _ ∈ session.frames
            rw [left]
            exact mem_cons_of_mem _ listed
          · exact .detached outer (fun frame listed => called frame (mem_cons_of_mem _ listed))
              still emptied ⟨queue.leads, queue.minted, queue.distinct, queue.current⟩ remembered

omit [DecidableEq Nonce] in
theorem dispatch_of_not_edits {invocation : List (String × Json)}
    (quiet : session.edits env (.dispatch invocation) = false) :
    session.dispatch env invocation = session := by
  unfold ImageSession.dispatch
  split
  · rfl
  · rename_i live
    change (!session.status.terminal && _) = false at quiet
    rw [Bool.not_eq_true] at live
    rw [live, Bool.not_false, Bool.true_and, isSome_eq_false_iff, isNone_iff_eq_none] at quiet
    rw [quiet]

omit [DecidableEq Nonce] in
/-- A call inside a rebase that queues nothing. -/
theorem follows_replayHistory_of_not_edits {direction : Collab.HistoryDirection}
    (sound : Sound env server session.core) (inside : session.detached = true)
    (quiet : session.edits env (.replay direction) = false) :
    Follows env server session.core (session.replayHistory env direction).core := by
  unfold ImageSession.edits at quiet
  dsimp only at quiet
  unfold ImageSession.replayHistory
  split
  · exact .refl sound
  · rename_i reference rest stacked
    rw [stacked] at quiet
    dsimp only at quiet
    split
    · exact follows_of_core sound (core_setStack session direction rest)
    · rename_i record found
      rw [found, any_some, isSome_eq_false_iff, isNone_iff_eq_none] at quiet
      rw [quiet]
      have popped := core_setStack session direction rest
      have frames : (session.setStack direction rest).frames = session.frames :=
        congrArg Core.frames popped
      dsimp only
      rw [core_notify, popped, frames]
      cases sound.queued with
      | settled still => exact absurd inside (Bool.eq_false_iff.mp still)
      | @detached rest survivors cursor sequel above below waiting called still emptied queue
          remembered =>
          refine ⟨⟨sound.based.notify (by simp), ?_⟩, rfl, fun _ sent => sent⟩
          refine @Queued.detached _ env _ rest survivors cursor sequel (.finished :: above) below ?_
            ?_ still emptied ⟨queue.leads, queue.minted, queue.distinct, queue.current⟩ remembered
          · exact congrArg (List.cons Frame.finished) waiting
          · intro frame listed
            cases mem_cons.mp listed with
            | inl here => exact here
            | inr before => exact called frame before

/-! ## Steps -/

def Paged (log : List (CollabServerOp Nonce)) (session : ImageSession Nonce) : Prop :=
  ∀ page progressed, session.sync = .ingesting page progressed → ∀ op ∈ page, op ∈ log

/-- What the network and the loops do. -/
theorem follows_react (ordered : server.Ordered) (own : ∀ op ∈ server.log, Own session.core op)
    (paged : Paged server.log session) (sound : Sound env server session.core)
    (still : session.detached = false) (truthful : ImageWorld.Truthful env server action)
    (reacted : session.react env action = some next) :
    Follows env server session.core next.core := by
  unfold ImageSession.react at reacted
  cases action with
  | opEvent op =>
    cases reacted
    exact follows_handleOpEvent ordered truthful (own op truthful) sound still
  | connected revision =>
    cases reacted
    exact follows_of_core sound (core_handleConnected session revision)
  | descriptorInvalid =>
    cases reacted
    exact follows_of_core sound (core_fail session)
  | pumpTurn =>
    dsimp only at reacted
    split at reacted
    · cases reacted
      exact follows_pumpTurn sound still
    · cases reacted
      exact follows_pumpTurn sound still
    · simp at reacted
  | posted outcome =>
    dsimp only at reacted
    split at reacted
    · cases reacted
      apply follows_handlePosted ordered _ own sound still
      intro op same
      rw [same] at truthful
      exact truthful
    · simp at reacted
  | pumpExit =>
    dsimp only at reacted
    split at reacted
    · cases reacted
      exact follows_of_core sound (core_pumpExit session)
    · simp at reacted
  | syncTurn =>
    dsimp only at reacted
    split at reacted
    · cases reacted
      exact follows_of_core sound (core_syncTurn session)
    · cases reacted
      exact follows_of_core sound (core_syncTurn session)
    · simp at reacted
  | snapshotFetched revision document =>
    dsimp only at reacted
    split at reacted
    · cases reacted
      exact follows_handleSnapshot sound still truthful
    · simp at reacted
  | opsFetched outcome =>
    dsimp only at reacted
    split at reacted
    · cases reacted
      exact follows_of_core sound (core_handleOps session outcome)
    · simp at reacted
  | ingestNext =>
    dsimp only at reacted
    split at reacted
    · rename_i page progressed fetched
      cases reacted
      exact follows_ingestPage ordered (paged page progressed fetched) own sound still
    · simp at reacted
  | syncThrew =>
    dsimp only at reacted
    split at reacted
    · cases reacted
      exact follows_of_core sound (core_fail _)
    · cases reacted
      exact follows_of_core sound (core_fail _)
    · cases reacted
      exact follows_of_core sound (core_fail _)
    · simp at reacted
  | syncExit =>
    dsimp only at reacted
    split at reacted
    · cases reacted
      exact follows_of_core sound (core_syncExit session)
    · simp at reacted
  | dispatch invocation | replay direction | clearHistory | close | returned => simp at reacted

/-- Every step leads on, unless it queues an intention inside a rebase. -/
theorem follows_step (ordered : server.Ordered) (own : ∀ op ∈ server.log, Own session.core op)
    (paged : Paged server.log session) (sound : Sound env server session.core)
    (truthful : ImageWorld.Truthful env server action)
    (quiet : session.detached = true → session.edits env action = false)
    (stepped : session.step env action = some next) :
    Follows env server session.core next.core := by
  unfold ImageSession.step at stepped
  split at stepped
  · rename_i invocation
    cases stepped
    cases inside : session.detached with
    | false => exact follows_dispatch sound inside
    | true =>
      rw [dispatch_of_not_edits (quiet inside)]
      exact .refl sound
  · rename_i direction
    cases stepped
    cases inside : session.detached with
    | false => exact follows_replayHistory sound inside
    | true => exact follows_replayHistory_of_not_edits sound inside (quiet inside)
  · cases stepped
    exact follows_of_core sound rfl
  · cases stepped
    exact follows_of_core sound rfl
  · exact follows_resume sound stepped
  · split at stepped
    · rename_i rested
      apply follows_react ordered own paged sound _ truthful stepped
      unfold ImageSession.detached
      rw [isEmpty_iff.mp rested]
      rfl
    · simp at stepped

end Steps

end Dinkster.Image
