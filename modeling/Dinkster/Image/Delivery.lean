import Dinkster.Image.Optimism

/-!
# What the server delivers

The log of the server is in order, so an operation of the next revision is the one that moves
the confirmed document to the next checkpoint.  An operation under an op id that this session
sent is what was sent, so the session recognises it whenever it still holds the attempt, and
an operation is refused before anything is changed.
-/

namespace Dinkster.Image

open Library Format Commands List Option
open Collab (OpId CollabServerOp validateCollabServerOp PostOpOutcome FetchOpsOutcome)

variable {Nonce : Type} {env : ImageEnvironment} {server : ImageServer Nonce}

/-- The revisions of the log count its operations. -/
def ImageServer.Ordered (server : ImageServer Nonce) : Prop :=
  ∀ position op, server.log[position]? = some op → op.revision = position + 1

/-- An operation under an op id that was sent is what was sent. -/
def Own (core : Core Nonce) (op : CollabServerOp Nonce) : Prop :=
  ∀ attempt ∈ core.sent, attempt.opId = op.opId →
    attempt.baseRevision = op.baseRevision ∧ op.patch = wirePatchJson attempt.patch.val

theorem documentAt_succ {revision : Nat} {op : CollabServerOp Nonce}
    (next : server.log[revision]? = some op) : server.documentAt env (revision + 1) =
      (server.documentAt env revision).bind fun document => applyWire env document op.patch := by
  unfold ImageServer.documentAt
  rw [take_add_one, next, bind_assoc]
  congr 1
  funext initial
  rw [toList_some, foldlM_append]
  congr 1
  funext document
  exact bind_fun_some (applyWire env document op.patch)

theorem load_of_foldlM : ∀ (ops : List (CollabServerOp Nonce)) {document final : Json},
    env.load document = some document →
      ops.foldlM (fun document op => applyWire env document op.patch) document = some final →
        env.load final = some final
  | [], document, final, loaded, folded => by
    cases folded
    exact loaded
  | op :: rest, document, final, _, folded => by
    rw [foldlM_cons] at folded
    obtain ⟨next, applied, later⟩ := bind_eq_some_iff.mp folded
    exact load_of_foldlM rest (load_of_applyWire applied) later

variable {revision : Nat} {op : CollabServerOp Nonce}

/-- Every checkpoint came through the gate. -/
theorem load_of_checkpoint {document : Json}
    (checkpoint : server.Checkpoint env revision document) : env.load document = some document := by
  obtain ⟨initial, loaded, folded⟩ := bind_eq_some_iff.mp checkpoint.2
  exact load_of_foldlM _ (load_loaded loaded) folded

/-- What the session has not ingested yet is at the position of its confirmed revision. -/
theorem next_in_log (ordered : server.Ordered) (known : op ∈ server.log)
    (follows : op.revision = revision + 1) : server.log[revision]? = some op := by
  obtain ⟨position, found⟩ := List.mem_iff_getElem?.mp known
  have counted := ordered position op found
  have same : position = revision := by omega
  rw [← same]
  exact found

theorem checkpoint_next {document next : Json} (ordered : server.Ordered)
    (known : op ∈ server.log) (follows : op.revision = revision + 1)
    (checkpoint : server.Checkpoint env revision document)
    (applied : applyWire env document op.patch = some next) :
    server.Checkpoint env op.revision next := by
  have found := next_in_log ordered known follows
  have inside := (List.getElem?_eq_some_iff.mp found).1
  rw [follows]
  constructor
  · exact inside
  · rw [documentAt_succ found, checkpoint.2]
    exact applied

section Ingress

variable [DecidableEq Nonce] {session : ImageSession Nonce} {op : CollabServerOp Nonce}

theorem claims_of_own {entry : PendingEntry Nonce} {attempt : Attempt Nonce}
    (own : Own session.core op) (sent : attempt ∈ session.core.sent)
    (submitted : attempt ∈ entry.attempts) (same : attempt.opId = op.opId) :
    entry.claims op = true := by
  have payload := own attempt sent same
  unfold PendingEntry.claims
  rw [List.any_eq_true]
  refine ⟨attempt, submitted, ?_⟩
  rw [payload.2, jsonSameValue_refl (plain_wirePatchJson attempt.patch.property)]
  simp [same, payload.1]

omit [DecidableEq Nonce] in
theorem follows_rebase {confirming : ImageSession Nonce} {sequel : Sequel Nonce}
    (sound : Sound env server session.core) (still : session.detached = false)
    (checkpoint : server.Checkpoint env confirming.confirmedRevision confirming.confirmed)
    (queued : ∀ entry ∈ confirming.pending, entry ∈ session.pending) (commits : confirming.core =
      { session.core with
        confirmed := confirming.confirmed
        confirmedRevision := confirming.confirmedRevision
        pending := confirming.pending }) :
    Follows env server session.core (confirming.rebase env sequel).core := by
  have settled := sound.settled still
  have sends := sound.based.sends
  have emptied : ({ confirming with pending := [] } : ImageSession Nonce).core =
      { session.core with
        confirmed := confirming.confirmed
        confirmedRevision := confirming.confirmedRevision
        pending := [] } := by
    change ({ confirming.core with pending := [] } : Core Nonce) = _
    rw [commits]
  have follows := @follows_rebaseFrom _ env server confirming.pending
    { confirming with pending := [] } [] confirming.confirmed sequel (by
      rw [emptied]
      constructor
      · exact ⟨checkpoint, ⟨sends.old, sends.unique, sends.applies⟩, sound.based.checkpoints⟩
      · exact still
      · rfl
      · exact .empty
      · intro entry listed
        rw [append_nil] at listed
        exact settled.2 entry (queued entry listed))
  apply Follows.of_same _ _ follows
  all_goals rw [emptied]

/-- What becomes of a session that ingests an operation: it leads on, or is as it was. -/
def Ingested (env : ImageEnvironment) (server : ImageServer Nonce) (session : ImageSession Nonce) :
    Except (ImageSession Nonce) (ImageSession Nonce) → Prop
  | .ok next => Follows env server session.core next.core
  | .error left => left = session

theorem follows_ingestOrdered {pumps : Bool} (ordered : server.Ordered) (known : op ∈ server.log)
    (own : Own session.core op) (sound : Sound env server session.core)
    (still : session.detached = false) :
    Ingested env server session (session.ingestOrdered env op pumps) := by
  have settled := sound.settled still
  unfold ImageSession.ingestOrdered
  split
  · rfl
  · rename_i contiguous
    cases applied : applyWire env session.confirmed op.patch with
    | none => rfl
    | some next =>
      have checkpoint := checkpoint_next ordered known (not_not.mp contiguous)
        sound.based.grounded applied
      dsimp only
      split
      · rename_i index entry found _
        apply follows_rebase sound still
        · split
          · exact checkpoint
          · cases entry.record <;> exact checkpoint
        · intro other listed
          split at listed
          · exact mem_of_mem_eraseIdx listed
          · cases record : entry.record with
            | none | some reference =>
              rw [record] at listed
              exact mem_of_mem_eraseIdx listed
        · split
          · rfl
          · rw [core_removeHistory]
            cases entry.record <;> rfl
      · rename_i unclaimed
        split
        · rename_i changed
          exfalso
          rw [Bool.and_eq_true, List.any_eq_true] at changed
          obtain ⟨entry, listed, named⟩ := changed.2
          obtain ⟨attempt, submitted, same⟩ := List.any_eq_true.mp named
          have sent := settled.2 entry listed attempt submitted
          have claimed := claims_of_own own sent submitted (of_decide_eq_true same)
          have some_claims : session.pending.any (·.claims op) = true :=
            List.any_eq_true.mpr ⟨entry, listed, claimed⟩
          have finds : (session.pending.find? (·.claims op)).isSome := by
            rw [find?_isSome]
            exact ⟨entry, listed, claimed⟩
          have places : (session.pending.findIdx? (·.claims op)).isSome := by
            rw [findIdx?_isSome]
            exact some_claims
          exact unclaimed _ _ (some_get places).symm (some_get finds).symm
        · exact follows_rebase sound still checkpoint (fun _ listed => listed) rfl

end Ingress

end Dinkster.Image
