import Dinkster.Image.Steps

/-!
# What an image session fetches

The sync loop ingests a page one operation at a time, and observers are called in between.
Whatever happens to a session in the meantime, what is left of the page was served from the
log.
-/

namespace Dinkster.Image

open Library Format Commands Option
open Collab (OpId CollabServerOp validateCollabServerOp PostOpOutcome FetchOpsOutcome)

variable {Nonce : Type} {env : ImageEnvironment} {log : List (CollabServerOp Nonce)}
  {session next : ImageSession Nonce}

theorem paged_of_sync (paged : Paged log session) (same : next.sync = session.sync) :
    Paged log next := by
  unfold Paged
  rw [same]
  exact paged

theorem paged_of_phase {phase : SyncPhase Nonce} (same : next.sync = phase)
    (other : ∀ page progressed, phase ≠ .ingesting page progressed) : Paged log next := by
  intro page progressed fetching
  exact absurd (same.symm.trans fetching) (other page progressed)

@[simp] theorem sync_fail : session.fail.sync = session.sync := by
  unfold ImageSession.fail
  split <;> rfl

@[simp] theorem sync_startPump : session.startPump.sync = session.sync := by
  unfold ImageSession.startPump
  split
  · split <;> rfl
  · rfl

@[simp] theorem sync_removeHistory (record : Option Nat) :
    (session.removeHistory record).sync = session.sync := by
  cases record <;> rfl

variable (direction : Collab.HistoryDirection)

@[simp] theorem sync_setStack (stack : List Nat) :
    (session.setStack direction stack).sync = session.sync := by
  cases direction <;> rfl

theorem sync_rebaseFrom : ∀ (rest : List (PendingEntry Nonce)) (session : ImageSession Nonce)
    (survivors : List (PendingEntry Nonce)) (cursor : Json) (sequel : Sequel Nonce),
    (session.rebaseFrom env rest survivors cursor sequel).sync = session.sync
  | [], _, _, _, _ => rfl
  | entry :: rest, session, survivors, cursor, sequel => by
    unfold ImageSession.rebaseFrom
    split
    · exact sync_rebaseFrom rest _ _ _ _
    · exact sync_removeHistory entry.record

theorem sync_dispatch (invocation : List (String × Json)) :
    (session.dispatch env invocation).sync = session.sync := by
  unfold ImageSession.dispatch
  split
  · rfl
  · split <;> rfl

theorem sync_replayHistory : (session.replayHistory env direction).sync = session.sync := by
  unfold ImageSession.replayHistory
  split
  · rfl
  · split
    · exact sync_setStack direction _
    · split
      · exact sync_setStack direction _
      · cases direction <;> rfl

theorem paged_startSync (paged : Paged log session) : Paged log session.startSync := by
  unfold ImageSession.startSync
  split
  · exact paged
  · exact paged_of_phase rfl (by simp)

theorem paged_requestCatchUp (target : Nat) (paged : Paged log session) :
    Paged log (session.requestCatchUp target) :=
  paged_startSync (paged_of_sync paged rfl)

theorem sync_dropFrom (ambiguous : List Nat) (revision : Nat) (document : Json)
    (entries : List (PendingEntry Nonce)) :
    (session.dropFrom env ambiguous revision document entries).sync = session.sync := by
  cases entries with
  | nil => exact sync_rebaseFrom _ _ _ _ _
  | cons entry rest => exact sync_removeHistory entry.record

variable [DecidableEq Nonce]

/-- Ingesting an operation, or refusing it, leaves the page as it is. -/
theorem sync_ingestOrdered (op : CollabServerOp Nonce) (pumps : Bool) :
    (∀ next, session.ingestOrdered env op pumps = .ok next → next.sync = session.sync) ∧
      ∀ left, session.ingestOrdered env op pumps = .error left → left.sync = session.sync := by
  unfold ImageSession.ingestOrdered
  split
  · simp
  · cases applyWire env session.confirmed op.patch with
    | none => simp
    | some document =>
      dsimp only
      split
      · rename_i index entry _ _
        constructor
        · intro next same
          cases same
          unfold ImageSession.rebase
          rw [sync_rebaseFrom]
          split
          · rfl
          · exact sync_removeHistory entry.record
        · simp
      · split
        · simp
        · constructor
          · intro next same
            cases same
            exact sync_rebaseFrom _ _ _ _ _
          · simp

theorem paged_handleServerOp {op : CollabServerOp Nonce} (paged : Paged log session) :
    Paged log (session.handleServerOp env op) := by
  unfold ImageSession.handleServerOp
  split
  · exact paged
  · split
    · exact paged_requestCatchUp op.revision paged
    · have kept := @sync_ingestOrdered _ env session _ op true
      split
      · rename_i next ingested
        exact paged_of_sync paged (kept.1 next ingested)
      · rename_i left refused
        have same : left.requestResync.sync = left.sync := rfl
        exact paged_of_sync paged (same.trans (kept.2 left refused))

theorem paged_handlePosted {serial : Nat} {attempt : Attempt Nonce} {recorded : Bool}
    {outcome : PostOpOutcome Nonce} (paged : Paged log session) :
    Paged log (session.handlePosted env serial attempt recorded outcome) := by
  unfold ImageSession.handlePosted
  split
  · exact paged_of_sync paged rfl
  · cases outcome with
    | accepted op =>
      dsimp only
      split
      · exact paged_of_sync paged rfl
      · exact paged_handleServerOp (paged_of_sync paged rfl)
    | staleBase revision =>
      apply paged_requestCatchUp
      cases recorded <;> exact paged_of_sync paged rfl
    | protocolUnsupported => exact paged_of_sync paged sync_fail
    | snapshotRequired | denied | error => exact paged_of_sync paged rfl

theorem paged_ingestPage {page : List (CollabServerOp Nonce)} {progressed : Bool}
    (known : ∀ op ∈ page, op ∈ log) : Paged log (session.ingestPage env page progressed) := by
  unfold ImageSession.ingestPage
  cases page with
  | nil =>
    dsimp only
    split <;> exact paged_of_phase rfl (by simp)
  | cons op rest =>
    have later : ∀ (session : ImageSession Nonce) (progressed : Bool),
        session.sync = .ingesting rest progressed → Paged log session := by
      intro session progressed fetching page other same
      rw [fetching] at same
      cases same
      intro op listed
      exact known op (List.mem_cons_of_mem _ listed)
    dsimp only
    split
    · exact paged_of_phase sync_fail (by simp)
    · split
      · exact later _ progressed rfl
      · split
        · exact paged_of_phase rfl (by simp)
        · have kept := @sync_ingestOrdered _ env
            { session with sync := .ingesting rest true } _ op false
          split
          · rename_i next ingested
            exact later next true (kept.1 next ingested)
          · exact paged_of_phase sync_fail (by simp)

variable {action : ImageAction Nonce} {server : ImageServer Nonce}

theorem paged_react (paged : Paged server.log session)
    (truthful : ImageWorld.Truthful env server action)
    (reacted : session.react env action = some next) : Paged server.log next := by
  unfold ImageSession.react at reacted
  split at reacted
  · cases reacted
    unfold ImageSession.handleOpEvent
    split
    · exact paged
    · split
      · exact paged_of_sync paged rfl
      · exact paged_handleServerOp paged
  · cases reacted
    unfold ImageSession.handleConnected
    split
    · exact paged
    · split
      · exact paged_requestCatchUp _ paged
      · exact paged
  · cases reacted
    exact paged_of_sync paged sync_fail
  · have turned : Paged server.log session.pumpTurn := by
      apply paged_of_sync paged
      unfold ImageSession.pumpTurn
      split
      · rfl
      · split
        · dsimp only
          split <;> rfl
        · rfl
    split at reacted
    · cases reacted
      exact turned
    · cases reacted
      exact turned
    · simp at reacted
  · split at reacted
    · cases reacted
      exact paged_handlePosted paged
    · simp at reacted
  · split at reacted
    · cases reacted
      apply paged_of_sync paged
      unfold ImageSession.pumpExit
      dsimp only
      split
      · exact sync_startPump
      · rfl
    · simp at reacted
  · have turned : Paged server.log session.syncTurn := by
      unfold ImageSession.syncTurn
      split
      · exact paged_of_phase rfl (by simp)
      · split
        · exact paged_of_phase rfl (by simp)
        · split <;> exact paged_of_phase rfl (by simp)
    split at reacted
    · cases reacted
      exact turned
    · cases reacted
      exact turned
    · simp at reacted
  · split at reacted
    · cases reacted
      unfold ImageSession.handleSnapshot
      split
      · exact paged_of_phase sync_fail (by simp)
      · split
        · exact paged_of_phase sync_fail (by simp)
        · exact paged_of_phase (sync_dropFrom _ _ _ _) (by simp)
    · simp at reacted
  · rename_i outcome
    split at reacted
    · cases reacted
      cases outcome with
      | resyncRequired =>
        exact @paged_of_phase _ server.log _ .turning rfl (by simp)
      | ops ops =>
        intro page progressed fetching
        cases fetching
        exact truthful
    · simp at reacted
  · split at reacted
    · rename_i page progressed fetching
      cases reacted
      exact paged_ingestPage (paged page progressed fetching)
    · simp at reacted
  · split at reacted
    · cases reacted
      exact paged_of_phase sync_fail (by simp)
    · cases reacted
      exact paged_of_phase sync_fail (by simp)
    · cases reacted
      exact paged_of_phase sync_fail (by simp)
    · simp at reacted
  · split at reacted
    · cases reacted
      unfold ImageSession.syncExit
      dsimp only
      have rested : ∀ {session : ImageSession Nonce}, session.sync = .none →
          Paged server.log session := fun same => paged_of_phase same (by simp)
      split <;> split
      · exact paged_startSync (rested rfl)
      · exact rested sync_startPump
      · exact paged_startSync (rested rfl)
      · exact rested sync_startPump
    · simp at reacted
  · simp at reacted

/-- A step that is told the truth fetches only what the server holds. -/
theorem paged_step (paged : Paged server.log session)
    (truthful : ImageWorld.Truthful env server action)
    (stepped : session.step env action = some next) : Paged server.log next := by
  unfold ImageSession.step at stepped
  split at stepped
  · cases stepped
    exact paged_of_sync paged (sync_dispatch _)
  · cases stepped
    exact paged_of_sync paged (sync_replayHistory _)
  · cases stepped
    exact paged_of_sync paged rfl
  · cases stepped
    exact paged_of_sync paged rfl
  · unfold ImageSession.resume at stepped
    split at stepped
    · simp at stepped
    · rename_i frame frames _
      cases stepped
      cases frame with
      | finished | emitting op origin pumps => exact paged_of_sync paged rfl
      | pumping => exact paged_of_sync paged sync_startPump
      | rebasing rest survivors cursor sequel =>
        exact paged_of_sync paged (sync_rebaseFrom _ _ _ _ _)
      | resyncing => exact paged_startSync (paged_of_sync paged rfl)
      | dropping rest ambiguous revision document =>
        exact paged_of_sync paged (sync_dropFrom _ _ _ _)
  · split at stepped
    · exact paged_react paged truthful stepped
    · simp at stepped

end Dinkster.Image
