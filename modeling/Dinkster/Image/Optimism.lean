import Dinkster.Image.View

/-!
# The optimistic view through every step

Each part of the session is followed from one notification to the next.  A commit pushes one
entry that applies to the document that is shown; a rebase starts from the confirmed document
and pushes one entry for each survivor; everything else leaves the queue alone.
-/

namespace Dinkster.Image

open Library Format Commands List
open Collab (OpId CollabServerOp validateCollabServerOp PostOpOutcome FetchOpsOutcome)

variable {Nonce : Type} {env : ImageEnvironment} {server : ImageServer Nonce}

/-- A core that is sound again, of the same session and with everything sent before. -/
structure Follows (env : ImageEnvironment) (server : ImageServer Nonce) (before after : Core Nonce) :
    Prop where
  sound : Sound env server after
  named : after.nonce = before.nonce
  kept : ∀ attempt ∈ before.sent, attempt ∈ after.sent

section Following

variable {core middle final : Core Nonce}

theorem Follows.refl (sound : Sound env server core) : Follows env server core core :=
  ⟨sound, rfl, fun _ sent => sent⟩

/-- A change that keeps the session and what it sent may come first. -/
theorem Follows.of_same (named : middle.nonce = core.nonce) (sent : middle.sent = core.sent)
    (follows : Follows env server middle final) : Follows env server core final where
  sound := follows.sound
  named := follows.named.trans named
  kept := by
    intro attempt known
    exact follows.kept attempt (sent ▸ known)

end Following

section Sessions

variable {session : ImageSession Nonce}

theorem Sound.settled {core : Core Nonce} (sound : Sound env server core)
    (still : core.frames.any Frame.detaches = false) :
    Queue env core core.pending core.optimistic ∧ Remembered core core.pending := by
  cases sound.queued with
  | settled _ queue remembered => exact ⟨queue, remembered⟩
  | detached frames =>
    rw [frames] at still
    exact absurd still (by simp [Frame.detaches])

variable {frame : Frame Nonce} {changed : ImageSession Nonce} {intention : PendingIntention}

section

variable (sound : Sound env server session.core)

include sound

section

variable (still : session.detached = false)

include still

/-- Calling observers from a settled session. -/
theorem follows_notify (attached : frame.detaches = false)
    (checked : ∀ rest ambiguous revision document, frame = .dropping rest ambiguous revision document →
      server.Checkpoint env revision document) :
    Follows env server session.core (session.notify frame).core := by
  have settled := sound.settled still
  refine ⟨⟨sound.based.notify checked, ?_⟩, rfl, fun _ sent => sent⟩
  apply Queued.settled
  · change (frame :: session.frames).any Frame.detaches = false
    rw [any_cons, attached]
    exact still
  · exact ⟨settled.1.leads, settled.1.minted, settled.1.distinct, settled.1.current⟩
  · exact settled.2

/-- Calling observers after a change that the view does not depend on. -/
theorem follows_notify_of_core (same : changed.core = session.core)
    (attached : frame.detaches = false)
    (checked : ∀ rest ambiguous revision document, frame = .dropping rest ambiguous revision document →
      server.Checkpoint env revision document) :
    Follows env server session.core (changed.notify frame).core := by
  have frames : changed.frames = session.frames := congrArg Core.frames same
  rw [core_notify, same, frames]
  exact follows_notify sound still attached checked

theorem follows_enqueue {next : Json} {predicted : OwnedPatch} {origin : String} {record : Nat}
    (applies : applyPatch env session.optimistic predicted = some next)
    (commits : changed.core = { session.core with optimistic := next }) :
    Follows env server session.core (changed.enqueue intention predicted origin record).core := by
  have settled := sound.settled still
  have same : (changed.enqueue intention predicted origin record).core =
      { session.core with
        optimistic := next
        opCounter := session.opCounter + 1
        pending := session.pending ++ [{
          serial := changed.opCounter + 1
          opId := changed.mintedId
          intention := intention
          origin := origin
          predicted := predicted
          attempts := []
          record := some record }]
        frames := .pumping :: session.frames } := by
    change ({ changed.core with
      opCounter := changed.core.opCounter + 1
      pending := changed.core.pending ++ _
      frames := .pumping :: changed.core.frames } : Core Nonce) = _
    rw [commits]
    rfl
  have nonce : changed.nonce = session.nonce := congrArg Core.nonce commits
  have counter : changed.opCounter = session.opCounter := congrArg Core.opCounter commits
  have sends := sound.based.sends.mint
  rw [same]
  refine ⟨⟨⟨sound.based.grounded, ⟨sends.old, sends.unique, sends.applies⟩, ?_⟩, ?_⟩, rfl,
    fun _ sent => sent⟩
  · intro rest ambiguous revision document listed
    cases mem_cons.mp listed with
    | inl here => simp at here
    | inr below => exact sound.based.checkpoints _ _ _ _ below
  · apply Queued.settled
    · change (Frame.pumping :: session.frames).any Frame.detaches = false
      rw [any_cons]
      exact still
    · have fresh : changed.opCounter + 1 = session.opCounter + 1 := by rw [counter]
      have pushed := @Queue.push _ env server session.core session.pending session.optimistic next
        ⟨changed.opCounter + 1, changed.mintedId, intention, origin, predicted, [], some record⟩
        settled.1 sound.based.sends applies nonce fresh
      exact ⟨pushed.leads, pushed.minted, pushed.distinct, pushed.current⟩
    · intro entry listed attempt sent
      cases mem_append.mp listed with
      | inl known => exact settled.2 entry known attempt sent
      | inr last =>
        rw [mem_singleton.mp last] at sent
        exact absurd sent not_mem_nil

theorem follows_dispatch {invocation : List (String × Json)} :
    Follows env server session.core (session.dispatch env invocation).core := by
  unfold ImageSession.dispatch
  split
  · exact .refl sound
  · split
    · exact .refl sound
    · rename_i plan planned
      exact follows_enqueue sound still (applyPatch_of_plan planned) rfl

theorem follows_replayHistory {direction : Collab.HistoryDirection} :
    Follows env server session.core (session.replayHistory env direction).core := by
  unfold ImageSession.replayHistory
  split
  · exact .refl sound
  · rename_i reference rest _
    split
    · rw [core_setStack]
      exact .refl sound
    · split
      · exact follows_notify_of_core sound still (core_setStack session direction rest) rfl
          (by simp)
      · rename_i record _ next replayed
        apply follows_enqueue sound still (applyPatch_of_replay replayed)
        rw [core_pushOpposite]
        change ({ (session.setStack direction rest).core with optimistic := next } : Core Nonce) = _
        rw [core_setStack]

end

end

theorem applyPatch_of_replan {cursor next : Json} {patch : OwnedPatch}
    {record : Option HistoryRecord}
    (planned : ImageSession.replan env cursor intention = some (next, patch, record)) :
    applyPatch env cursor patch = some next := by
  cases intention with
  | command invocation =>
    obtain ⟨plan, plans, same⟩ := Option.map_eq_some_iff.mp planned
    have parts := Prod.mk.inj same
    rw [← parts.1, ← (Prod.mk.inj parts.2).1]
    exact applyPatch_of_plan plans
  | patch operations =>
    obtain ⟨replayed, replays, same⟩ := Option.map_eq_some_iff.mp planned
    have parts := Prod.mk.inj same
    rw [← parts.1, ← (Prod.mk.inj parts.2).1]
    exact applyPatch_of_replay replays

structure Rebasing (env : ImageEnvironment) (server : ImageServer Nonce) (core : Core Nonce)
    (rest survivors : List (PendingEntry Nonce)) (cursor : Json) : Prop where
  based : Based env server core
  still : core.frames.any Frame.detaches = false
  emptied : core.pending = []
  queue : Queue env core survivors cursor
  remembered : Remembered core (rest ++ survivors)

/-- A rebase ends with a queue that leads to its document, or waits with the queue detached. -/
theorem follows_rebaseFrom : ∀ (rest : List (PendingEntry Nonce)) {session : ImageSession Nonce}
    {survivors : List (PendingEntry Nonce)} {cursor : Json} {sequel : Sequel Nonce},
    Rebasing env server session.core rest survivors cursor →
      Follows env server session.core (session.rebaseFrom env rest survivors cursor sequel).core
  | [], session, survivors, cursor, sequel, rebasing => by
    unfold ImageSession.rebaseFrom
    have same : (({ session with
        pending := session.pending ++ survivors
        optimistic := cursor } : ImageSession Nonce).notify (ImageSession.Sequel.frame sequel)).core =
        { session.core with
          pending := survivors
          optimistic := cursor
          frames := ImageSession.Sequel.frame sequel :: session.frames } := by
      have emptied : session.pending = [] := rebasing.emptied
      rw [emptied]
      rfl
    have queue := rebasing.queue
    rw [same]
    refine ⟨⟨⟨rebasing.based.grounded, ?_, ?_⟩, ?_⟩, rfl, fun _ sent => sent⟩
    · exact ⟨rebasing.based.sends.old, rebasing.based.sends.unique, rebasing.based.sends.applies⟩
    · intro rest ambiguous revision document listed
      cases mem_cons.mp listed with
      | inl here => cases sequel <;> exact absurd here (by simp [ImageSession.Sequel.frame])
      | inr below => exact rebasing.based.checkpoints _ _ _ _ below
    · apply Queued.settled
      · change (ImageSession.Sequel.frame sequel :: session.frames).any Frame.detaches = false
        have still : session.frames.any Frame.detaches = false := rebasing.still
        rw [any_cons, still]
        cases sequel <;> rfl
      · exact ⟨queue.leads, queue.minted, queue.distinct, queue.current⟩
      · exact rebasing.remembered
  | entry :: rest, session, survivors, cursor, sequel, rebasing => by
    unfold ImageSession.rebaseFrom
    split
    · rename_i next patch record planned
      have applies := applyPatch_of_replan planned
      have pushed := @Queue.push _ env server session.core survivors cursor next
        (session.replanned entry patch) rebasing.queue rebasing.based.sends applies rfl rfl
      have rewritten : (session.rewrite entry record).core =
          { session.core with opCounter := session.core.opCounter + 1 } := rfl
      have follows := @follows_rebaseFrom rest (session.rewrite entry record)
        (survivors ++ [session.replanned entry patch]) next sequel (by
          rw [rewritten]
          refine ⟨rebasing.based.mint, rebasing.still, rebasing.emptied, pushed, ?_⟩
          intro other listed attempt sent
          have known : ∀ other ∈ entry :: rest ++ survivors, ∀ attempt ∈ other.attempts,
              attempt ∈ session.core.sent := rebasing.remembered
          cases mem_append.mp listed with
          | inl later =>
            exact known other (mem_append_left _ (mem_cons_of_mem _ later)) attempt sent
          | inr survived =>
            cases mem_append.mp survived with
            | inl before => exact known other (mem_append_right _ before) attempt sent
            | inr last =>
              rw [mem_singleton.mp last] at sent
              exact known entry (mem_append_left _ mem_cons_self) attempt (mem_of_mem_filter sent))
      apply Follows.of_same _ _ follows
      all_goals rfl
    · have same : ((session.removeHistory entry.record).notify
          (.rebasing rest survivors cursor sequel)).core =
          { session.core with
            frames := .rebasing rest survivors cursor sequel :: session.core.frames } := by
        rw [core_notify, core_removeHistory]
        cases entry.record <;> rfl
      have queue := rebasing.queue
      rw [same]
      refine ⟨⟨rebasing.based.notify (by simp), ?_⟩, rfl, fun _ sent => sent⟩
      have remembered : Remembered session.core (rest ++ survivors) := by
        intro other listed
        apply rebasing.remembered other
        cases mem_append.mp listed with
        | inl later => exact mem_append_left _ (mem_cons_of_mem _ later)
        | inr before => exact mem_append_right _ before
      exact .detached (nil_append _).symm (by simp) rebasing.still rebasing.emptied
        ⟨queue.leads, queue.minted, queue.distinct, queue.current⟩ remembered

end Sessions

end Dinkster.Image
