import Dinkster.Collab.Refinement

/-!
# Ordered ingress refines the replica

An operation of the log that a session ingests acknowledges its head intention or
is absorbed by a rebase, and a resync adopts a checkpoint.  A rebase that throws
collapses the replica.  The two conditions under which the replica behaves as the
protocol intends are stated here: the documents that rebases start from are within
the ownership budgets, and no rebase re-executes a replay of history.
-/

namespace Dinkster.Collab

open Library Format Commands List Option

variable {Client Authority : Type}

def logOp (slot : Nat) (entry : Replication.Logged (OpId Client) (List WirePatchOp)) :
    CollabServerOp Client where
  opId := entry.id
  actorId := entry.id.actor
  baseRevision := slot
  revision := slot + 1
  patch := wirePatchJson entry.patch

/-- The operation comes from the log. -/
def Delivered (log : WireLog Client) (op : CollabServerOp Client) : Prop :=
  ∃ slot entry, log[slot]? = some entry ∧ (∀ wire ∈ entry.patch, wire.Plain) ∧
    op = logOp slot entry

theorem applied_of_applyOps {doc next : Json} {patch : List WirePatchOp} (plain : doc.Plain)
    (wires : ∀ wire ∈ patch, wire.Plain) (applied : applyOps doc (wirePatchJson patch) = .ok next) :
    applyWire doc.value patch = some next.value ∧ next.Plain := by
  have decoded := ((applyOps_wirePatchJson wires).mp applied).2
  constructor
  · rw [applyWire, ← applyOwnedOps_value, decoded]
    rfl
  · apply plain_applyOwnedOps plain _ decoded
    intro op member
    obtain ⟨wire, inside, rfl⟩ := mem_map.mp member
    exact wires wire inside

theorem applyOps_of_applyChecked {env : SessionEnvironment Authority} {confirmed patch next : Json}
    (checked : applyChecked env confirmed patch = .ok next) : applyOps confirmed patch = .ok next := by
  unfold applyChecked at checked
  cases applied : applyOps confirmed patch with
  | error reason => simp [applied] at checked
  | ok doc =>
    simp only [applied] at checked
    split at checked
    · simp at checked
    · rw [Except.ok.inj checked]

/-- A document that the ownership boundary accepts can start a rebase. -/
theorem createStore_of_owned {doc : Json} (owned : (ownJson doc).toOption.isSome) :
    ∃ store, createStore doc = .ok store := by
  unfold createStore DocumentStore.create
  cases accepted : ownJson doc with
  | error reason => simp [accepted, Except.toOption] at owned
  | ok copy => exact ⟨_, rfl⟩

namespace Replica

/-- An operation that a session would ingest by a rebase: it is next, and it is not
the submission of the head intention. -/
def Rebases (replica : Replica Client) (op : CollabServerOp Client) : Prop :=
  op.revision = replica.confirmedRevision + 1 ∧
    ∀ head ∈ replica.pending.head?, op.actorId = replica.actorId → head.opId ≠ op.opId

instance [DecidableEq Client] (replica : Replica Client) (op : CollabServerOp Client) :
    Decidable (replica.Rebases op) :=
  inferInstanceAs (Decidable (op.revision = replica.confirmedRevision + 1 ∧
    ∀ head ∈ replica.pending.head?, op.actorId = replica.actorId → head.opId ≠ op.opId))

/-- What a rebase for the operation starts from passes the ownership boundary. -/
def Absorbable (env : SessionEnvironment Authority) (replica : Replica Client)
    (op : CollabServerOp Client) : Prop :=
  replica.Rebases op →
    ∀ next ∈ (applyChecked env replica.confirmed op.patch).toOption, (ownJson next).toOption.isSome

variable (property : Reexecution Client → Prop)

/-- What a rebase from a document executes again has a property. -/
def RebaseMeets (env : SessionEnvironment Authority)
    (replica : Replica Client) (ground : Json) (skipped : Nat → PendingEntry Client → Bool) :
    Prop :=
  ∀ again ∈ reexecutions env (some replica.confirmed) ground
    (replica.pending.mapIdx fun position entry => (entry, skipped position entry)),
    property again

/-- What the rebase for an operation executes again has a property. -/
def IngressMeets [DecidableEq Client]
    (env : SessionEnvironment Authority) (replica : Replica Client) (op : CollabServerOp Client) :
    Prop :=
  replica.Rebases op → ∀ ground ∈ (applyChecked env replica.confirmed op.patch).toOption,
    ∀ skipped ∈ replica.skippedFor op, replica.RebaseMeets property env ground skipped

end Replica

section Steps

variable {env : SessionEnvironment Authority} {standard : Standard} {sound : Prop} {initial : Json}
  {client : Client} {log : WireLog Client} {target : Nat} {replica next : Replica Client}

/-- A session moves to the next by at most one step of its replica, and stays in
order. -/
structure Refines (standard : Standard) (sound : Prop) (initial : Json)
    (client : Client) (before after : Replication.State (OpId Client) (Option (List PatchOp)) Value (List WirePatchOp))
    (next : Replica Client) : Prop where
  moves : Replication.Moves (replicaProtocol standard initial client) sound before after
  kept : Kept next
  named : next.nonce = client

theorem kept_advance (kept : Kept replica) {doc : Json} (plain : doc.Plain) (revision : Nat) :
    Kept (replica.advance doc revision) :=
  ⟨kept.minted, plain, kept.doc, kept.predicted, kept.sent, kept.replays, kept.begun⟩

variable {entry : Replication.Logged (OpId Client) (List WirePatchOp)}

theorem absorb_refines (admits : standard.AdmitsCommands env) (kept : Kept replica)
    (named : replica.nonce = client) (seen : log[replica.confirmedRevision]? = some entry)
    {doc : Json} (plain : doc.Plain)
    (applied : applyWire replica.confirmed.value entry.patch = some doc.value)
    (absorbable : sound → (ownJson doc).toOption.isSome) {record : Option Nat}
    {skipped : Nat → PendingEntry Client → Bool}
    (meets : replica.RebaseMeets (Replica.Reexecution.Meets standard) env doc skipped)
    (retired : ∀ position other, replica.pending[position]? = some other →
      skipped position other = false → ∀ attempt ∈ other.attempts, attempt.opId ≠ entry.id)
    (rebased : ((replica.advance doc (replica.confirmedRevision + 1)).removeRecord record).rebase env
          replica.confirmed skipped = .done next ∨
        ((replica.advance doc (replica.confirmedRevision + 1)).removeRecord record).rebase env
          replica.confirmed skipped = .threw next) :
    Refines standard sound initial client (replica.view log target) (next.view log target) next := by
  generalize advanced : (replica.advance doc (replica.confirmedRevision + 1)).removeRecord record =
    ground at rebased
  have pending : ground.pending = replica.pending := by
    rw [← advanced]
    cases record <;> rfl
  have confirmed : ground.confirmed = doc := by
    rw [← advanced]
    cases record <;> rfl
  have revision : ground.confirmedRevision = replica.confirmedRevision + 1 := by
    rw [← advanced]
    cases record <;> rfl
  have groundNamed : ground.nonce = client := by
    rw [← advanced, ← named]
    cases record <;> rfl
  have groundKept : Kept ground := by
    rw [← advanced]
    exact (kept_advance kept plain _).of_bare (bare_removeRecord _ record)
  have view : ground.view log target = (replica.advance doc (replica.confirmedRevision + 1)).view
      log target := by
    rw [← advanced]
    exact view_eq_of_bare (bare_removeRecord _ record) log target
  rcases rebased with done | threw
  · rw [Replica.RebaseMeets, ← confirmed, ← pending] at meets
    rw [← pending] at retired
    obtain ⟨survivors, sublist, located, rebuilt, nextKept, nextNamed⟩ :=
      @rebase_refines _ _ env standard initial client log target ground next admits groundKept
        groundNamed replica.confirmed skipped (confirmed ▸ meets) done
    refine ⟨.inr (.absorb entry doc.value (survivors.map PendingEntry.view) _ seen applied ?_ ?_ ?_), nextKept, nextNamed⟩
    · rw [view] at sublist
      exact sublist
    · intro survivor member attempt inside
      obtain ⟨origin, chosen, rfl⟩ := mem_map.mp member
      obtain ⟨position, found, unskipped⟩ := located origin chosen
      obtain ⟨submitted, among, rfl⟩ := mem_map.mp inside
      exact retired position origin found unskipped submitted among
    · rw [view, confirmed, revision] at rebuilt
      exact rebuilt
  · obtain ⟨rfl, reason, refused⟩ := Replica.rebase_eq_threw threw
    have lapsed : ¬ sound := by
      intro steady
      obtain ⟨store, created⟩ := createStore_of_owned (absorbable steady)
      rw [confirmed, created] at refused
      simp at refused
    refine ⟨.inr ?_, ?_, groundNamed⟩
    · have collapsed : ({ ground with pending := [] } : Replica Client).view log target =
          { replica.view log target with
            confirmed := doc.value, revision := replica.confirmedRevision + 1, pending := []
            target } := by
        rw [← advanced]
        cases record <;> rfl
      rw [collapsed]
      refine .collapse _ _ _ lapsed ?_
      show max replica.confirmedRevision target ≤ _
      omega
    · exact ⟨groundKept.minted, groundKept.confirmed, groundKept.doc, by simp, groundKept.sent,
        by simp, by simp⟩

/-! ## Ordered ingress -/

section Claims

variable [DecidableEq Client]

variable {entries : List (PendingEntry Client)} {opId : OpId Client}

/-- Nothing claims an operation that no attempt submitted. -/
theorem claimant_eq_none (unclaimed : Replica.claimant opId entries = none) :
    ∀ entry ∈ entries, ∀ attempt ∈ entry.attempts, attempt.opId ≠ opId := by
  induction entries with
  | nil => simp
  | cons first rest ih =>
    unfold Replica.claimant at unclaimed
    cases tried : Replica.attemptOf first opId with
    | some attempt => simp [tried] at unclaimed
    | none =>
      simp only [tried, map_eq_none_iff] at unclaimed
      intro entry member attempt inside
      rcases mem_cons.mp member with rfl | later
      · simpa using List.find?_eq_none.mp tried attempt inside
      · exact ih unclaimed entry later attempt inside

theorem claimant_eq_some {position : Nat} {entry : PendingEntry Client}
    {attempt : SubmittedAttempt Client}
    (claimed : Replica.claimant opId entries = some (position, entry, attempt)) :
    entries[position]? = some entry ∧ attempt ∈ entry.attempts ∧ attempt.opId = opId := by
  induction entries generalizing position with
  | nil => simp [Replica.claimant] at claimed
  | cons first rest ih =>
    unfold Replica.claimant at claimed
    cases tried : Replica.attemptOf first opId with
    | some found =>
      simp only [tried, some.injEq, Prod.mk.injEq] at claimed
      obtain ⟨rfl, rfl, rfl⟩ := claimed
      exact ⟨rfl, mem_of_find?_eq_some tried, by simpa using find?_some tried⟩
    | none =>
      simp only [tried, map_eq_some_iff, Prod.mk.injEq] at claimed
      obtain ⟨⟨before, found⟩, later, rfl, rfl⟩ := claimed
      exact ih later

end Claims

theorem attempt_ne_of_position_ne
    (once : Replication.Once (replicaProtocol standard initial client) (replica.view log target))
    {position other : Nat} {entry survivor : PendingEntry Client}
    {attempt claimed : SubmittedAttempt Client} (found : replica.pending[position]? = some entry)
    (inside : claimed ∈ entry.attempts) (elsewhere : replica.pending[other]? = some survivor)
    (apart : other ≠ position) (among : attempt ∈ survivor.attempts) :
    attempt.opId ≠ claimed.opId := by
  intro equal
  have tracked {place : Nat} {holder : PendingEntry Client} {submitted : SubmittedAttempt Client}
      (here : replica.pending[place]? = some holder) (tried : submitted ∈ holder.attempts) :
      (submitted.opId, holder.intention) ∈ replica.minted :=
    once.tracks.attempted holder.view (mem_map_of_mem (mem_of_getElem? here))
      submitted.view (mem_map_of_mem tried)
  have same : survivor.intention = entry.intention :=
    once.identified.functional claimed.opId _ _ (equal ▸ tracked elsewhere among)
      (tracked found inside)
  have distinct := once.tracks.distinct
  obtain ⟨bound, rfl⟩ := List.getElem?_eq_some_iff.mp found
  obtain ⟨otherBound, rfl⟩ := List.getElem?_eq_some_iff.mp elsewhere
  apply apart
  have inView : other < ((replica.view log target).pending.map
      Replication.Intention.intention).length := by
    simpa [Replica.view] using otherBound
  have alsoInView : position < ((replica.view log target).pending.map
      Replication.Intention.intention).length := by
    simpa [Replica.view] using bound
  apply (@List.Nodup.getElem_inj_iff _ _ distinct other inView position alsoInView).mp
  simpa [Replica.view, PendingEntry.view] using same

variable {op : CollabServerOp Client}

/-- A rebase that is told to listeners ends as the rebase itself does. -/
theorem emitAfter_cases {ingress : Ingress Client} {origin : String}
    (ended : Replica.emitAfter ingress op origin = .done next ∨
      Replica.emitAfter ingress op origin = .threw next) :
    ∃ final, (ingress = .done final ∨ ingress = .threw final) ∧
      ∃ feed, next = { final with feed } := by
  cases ingress with
  | done final =>
    rcases ended with done | threw
    · obtain rfl := Ingress.done.inj done
      exact ⟨final, .inl rfl, _, rfl⟩
    · simp [Replica.emitAfter] at threw
  | threw final =>
    rcases ended with done | threw
    · simp [Replica.emitAfter] at done
    · obtain rfl := Ingress.threw.inj threw
      exact ⟨final, .inr rfl, final.feed, rfl⟩
  | diverged reason => rcases ended with done | threw <;> simp_all [Replica.emitAfter]

/-- What ordered ingress makes of a session. -/
inductive Ingested [DecidableEq Client] (env : SessionEnvironment Authority)
    (replica : Replica Client) (op : CollabServerOp Client) (next : Replica Client) : Prop where
  | acknowledged {head : PendingEntry Client} {rest : List (PendingEntry Client)}
      (pending : replica.pending = head :: rest) (same : head.opId = op.opId)
      (acked : replica.ack env head rest op = .done next)
  | absorbed {doc : Json} {record : Option Nat} {skipped : Nat → PendingEntry Client → Bool}
      {final : Replica Client} (rebases : replica.Rebases op)
      (checked : applyChecked env replica.confirmed op.patch = .ok doc)
      (skips : replica.skippedFor op = some skipped)
      (rebased : ((replica.advance doc op.revision).removeRecord record).rebase env
            replica.confirmed skipped = .done final ∨
          ((replica.advance doc op.revision).removeRecord record).rebase env
            replica.confirmed skipped = .threw final)
      (told : ∃ feed, next = { final with feed })

section Ingests

variable [DecidableEq Client]

variable {op : CollabServerOp Client}

theorem ingested_applyForeign (rebases : replica.Rebases op)
    (unclaimed : (if op.actorId = replica.actorId then Replica.claimant op.opId replica.pending
      else none) = none) (applied : replica.applyForeign env op = .done next ∨
      replica.applyForeign env op = .threw next) : Ingested env replica op next := by
  unfold Replica.applyForeign at applied
  cases checked : applyChecked env replica.confirmed op.patch with
  | error reason => simp [checked] at applied
  | ok doc =>
    simp only [checked] at applied
    obtain ⟨final, rebased, told⟩ := emitAfter_cases applied
    have skips : replica.skippedFor op = some fun _ _ => false := by
      unfold Replica.skippedFor
      rw [unclaimed]
    exact @Ingested.absorbed _ _ _ env replica op next doc none _ final rebases checked skips
      rebased told

variable {attempt : SubmittedAttempt Client}

theorem ingested_confirmPending (rebases : replica.Rebases op)
    (ours : op.actorId = replica.actorId) {position : Nat} {entry : PendingEntry Client}
    (claimed : Replica.claimant op.opId replica.pending = some (position, entry, attempt))
    (matched : ¬ (op.baseRevision ≠ attempt.baseRevision ||
      !jsonSameValue op.patch (wirePatchJson attempt.patch)) = true)
    (applied : replica.confirmPending env position entry op = .done next ∨
      replica.confirmPending env position entry op = .threw next) :
    Ingested env replica op next := by
  unfold Replica.confirmPending at applied
  cases checked : applyChecked env replica.confirmed op.patch with
  | error reason => simp [checked] at applied
  | ok doc =>
    simp only [checked] at applied
    obtain ⟨final, rebased, told⟩ := emitAfter_cases applied
    have skips : replica.skippedFor op = some fun other _ => decide (other = position) := by
      unfold Replica.skippedFor
      rw [if_pos ours, claimed]
      dsimp only
      rw [if_neg matched]
    exact .absorbed rebases checked skips rebased told

/-- Ordered ingress acknowledges the head intention, or a rebase absorbs the
operation. -/
theorem ingestOrdered_cases (ingested : replica.ingestOrdered env op = .done next ∨
      replica.ingestOrdered env op = .threw next) :
    op.revision = replica.confirmedRevision + 1 ∧ Ingested env replica op next := by
  unfold Replica.ingestOrdered at ingested
  split at ingested
  · simp at ingested
  rename_i ordered
  have follows : op.revision = replica.confirmedRevision + 1 := not_not.mp ordered
  refine ⟨follows, ?_⟩
  split at ingested
  · rename_i theirs
    exact ingested_applyForeign ⟨follows, fun _ _ ours => absurd ours theirs⟩ (if_neg theirs)
      ingested
  rename_i notTheirs
  have ours : op.actorId = replica.actorId := not_not.mp notTheirs
  split at ingested
  · rename_i idle
    refine ingested_applyForeign ⟨follows, by simp [idle]⟩ ?_ ingested
    rw [if_pos ours, idle]
    rfl
  rename_i head rest pending
  split at ingested
  · rename_i same
    split at ingested
    · refine .acknowledged pending same ?_
      rcases ingested with done | threw
      · exact done
      · unfold Replica.ack at threw
        split at threw <;> simp at threw
    · simp at ingested
  rename_i other
  have rebases : replica.Rebases op := by
    refine ⟨follows, ?_⟩
    intro first member _
    obtain rfl : head = first := by simpa [pending] using member
    exact other
  split at ingested
  · rename_i position entry attempt claimed
    rw [← pending] at claimed
    split at ingested
    · simp at ingested
    · rename_i matched
      exact ingested_confirmPending rebases ours claimed matched ingested
  · rename_i unclaimed
    rw [← pending] at unclaimed
    exact ingested_applyForeign rebases ((if_pos ours).trans unclaimed) ingested

/-- What a rebase keeps was not submitted as the operation. -/
theorem attempt_ne_of_skippedFor
    (once : Replication.Once (replicaProtocol standard initial client) (replica.view log target))
    (kept : Kept replica) (authored : op.actorId = op.opId.actor)
    {skipped : Nat → PendingEntry Client → Bool} (skips : replica.skippedFor op = some skipped)
    {position : Nat} {survivor : PendingEntry Client}
    (located : replica.pending[position]? = some survivor)
    (unskipped : skipped position survivor = false) (inside : attempt ∈ survivor.attempts) :
    attempt.opId ≠ op.opId := by
  unfold Replica.skippedFor at skips
  by_cases ours : op.actorId = replica.actorId
  · rw [if_pos ours] at skips
    cases claimed : Replica.claimant op.opId replica.pending with
    | none =>
      exact claimant_eq_none claimed survivor (mem_of_getElem? located) attempt inside
    | some claim =>
      obtain ⟨place, entry, sent⟩ := claim
      obtain ⟨found, among, same⟩ := claimant_eq_some claimed
      rw [claimed] at skips
      dsimp only at skips
      split at skips
      · simp at skips
      · cases skips
        rw [← same]
        exact attempt_ne_of_position_ne once found among located (of_decide_eq_false unskipped)
          inside
  · intro equal
    have minted := once.tracks.attempted survivor.view
      (mem_map_of_mem (mem_of_getElem? located)) attempt.view
      (mem_map_of_mem inside)
    apply ours
    rw [authored, ← equal]
    exact (kept.minted _ minted).1

end Ingests

/-- Acknowledging the head intention acknowledges it in the replica. -/
theorem ack_refines (kept : Kept replica) (named : replica.nonce = client)
    (seen : log[replica.confirmedRevision]? = some entry)
    (wires : ∀ wire ∈ entry.patch, wire.Plain) {head : PendingEntry Client}
    {rest : List (PendingEntry Client)} (pending : replica.pending = head :: rest)
    (same : head.opId = entry.id)
    (acked : replica.ack env head rest (logOp replica.confirmedRevision entry) = .done next) :
    Refines standard sound initial client (replica.view log target) (next.view log target)
      next := by
  unfold Replica.ack at acked
  split at acked
  · simp at acked
  rename_i doc taken
  cases acked
  have adopted : rest = [] → doc = replica.doc := by
    rintro rfl
    exact (Except.ok.inj taken).symm
  have applied : rest ≠ [] → applyWire replica.confirmed.value entry.patch = some doc.value ∧
      doc.Plain := by
    intro more
    rw [if_neg (by simpa using more)] at taken
    exact applied_of_applyOps kept.confirmed wires (applyOps_of_applyChecked taken)
  have plain : doc.Plain := by
    by_cases last : rest = []
    · rw [adopted last]
      exact kept.doc
    · exact (applied last).2
  have later : ∀ other ∈ rest, other ∈ replica.pending := by
    intro other member
    rw [pending]
    exact mem_cons_of_mem _ member
  refine ⟨.inr ?_, ?_, named⟩
  · refine .acknowledge head.view (rest.map PendingEntry.view) entry doc.value ?_ seen same.symm ?_ ?_
    · simp [Replica.view, pending]
    · intro last
      rw [adopted (map_eq_nil_iff.mp last)]
      rfl
    · intro more
      exact (applied fun last => more (last ▸ rfl)).1
  · exact ⟨kept.minted, plain, kept.doc, fun other member => kept.predicted other (later other member),
      kept.sent, fun other member => kept.replays other (later other member),
      fun other member => kept.begun other (later other member)⟩

theorem ingestOrdered_refines [DecidableEq Client] (admits : standard.AdmitsCommands env)
    (once : Replication.Once (replicaProtocol standard initial client) (replica.view log target))
    (kept : Kept replica) (named : replica.nonce = client) (delivered : Delivered log op)
    (absorbable : sound → replica.Absorbable env op)
    (meets : replica.IngressMeets (Replica.Reexecution.Meets standard) env op)
    (ingested : replica.ingestOrdered env op = .done next ∨
      replica.ingestOrdered env op = .threw next) :
    Refines standard sound initial client (replica.view log target) (next.view log target)
      next := by
  obtain ⟨slot, entry, found, wires, rfl⟩ := delivered
  obtain ⟨follows, made⟩ := ingestOrdered_cases ingested
  obtain rfl : slot = replica.confirmedRevision := Nat.succ.inj follows
  cases made with
  | acknowledged pending same acked =>
    exact ack_refines kept named found wires pending same acked
  | @absorbed doc record skipped final rebases checked skips rebased told =>
    obtain ⟨applied, plain⟩ := applied_of_applyOps kept.confirmed wires
      (applyOps_of_applyChecked checked)
    have absorbed : Refines standard sound initial client (replica.view log target)
        (final.view log target) final := by
      apply absorb_refines admits kept named found plain applied
        (fun steady => absorbable steady rebases doc (by rw [checked]; rfl))
        (meets rebases doc (by rw [checked]; rfl) skipped skips) _ rebased
      intro position other located unskipped attempt inside
      exact attempt_ne_of_skippedFor once kept rfl skips located unskipped inside
    obtain ⟨feed, rfl⟩ := told
    have alike : Replica.bare { final with feed } = final.bare := rfl
    refine ⟨?_, absorbed.kept.of_bare alike, absorbed.named⟩
    rw [view_eq_of_bare alike]
    exact absorbed.moves

/-- Ordered ingress moves on by one revision and leaves the status alone. -/
theorem ingestOrdered_advances [DecidableEq Client]
    (ingested : replica.ingestOrdered env op = .done next ∨
      replica.ingestOrdered env op = .threw next) :
    next.confirmedRevision = replica.confirmedRevision + 1 ∧ next.status = replica.status := by
  obtain ⟨follows, made⟩ := ingestOrdered_cases ingested
  cases made with
  | acknowledged pending same acked =>
    unfold Replica.ack at acked
    split at acked
    · simp at acked
    · cases acked
      exact ⟨follows, rfl⟩
  | @absorbed doc record skipped final rebases checked skips rebased told =>
    have kept := (Replica.grounded_removeRecord (replica.advance doc op.revision) record).trans
      (Replica.grounded_rebase rebased)
    obtain ⟨feed, rfl⟩ := told
    exact ⟨kept.confirmedRevision.trans follows, kept.status⟩

/-! ## Resync and submission -/

theorem adoptSnapshot_cases {revision : Nat} {document : Json}
    (adopted : replica.adoptSnapshot env revision document = .done next ∨
      replica.adoptSnapshot env revision document = .threw next) : ∃ final,
      (((replica.advance document revision).clearHistory).rebase env replica.confirmed
          (fun _ entry => Replica.ambiguous revision entry) = .done final ∨
        ((replica.advance document revision).clearHistory).rebase env replica.confirmed
          (fun _ entry => Replica.ambiguous revision entry) = .threw final) ∧
      ∃ conflicts, next = { final with conflicts } := by
  unfold Replica.adoptSnapshot at adopted
  cases ended : ((replica.advance document revision).clearHistory).rebase env replica.confirmed
      fun _ entry => Replica.ambiguous revision entry with
  | diverged reason => simp [ended] at adopted
  | done final =>
    simp only [ended, Ingress.done.injEq, reduceCtorEq, or_false] at adopted
    exact ⟨final, .inl rfl, _, adopted.symm⟩
  | threw final =>
    simp only [ended, Ingress.threw.injEq, reduceCtorEq, false_or] at adopted
    exact ⟨final, .inr rfl, final.conflicts, adopted.symm⟩

theorem adoptSnapshot_refines (admits : standard.AdmitsCommands env) (kept : Kept replica)
    (named : replica.nonce = client)
    {revision raised : Nat} {document : Json} (plain : document.Plain)
    (faithful : sound → revision ≤ log.length ∧
      (replicaProtocol standard initial client).documentAt log revision = some document.value)
    (owned : sound → (ownJson document).toOption.isSome)
    (heard : target ≤ raised ∧ replica.confirmedRevision ≤ raised)
    (meets : replica.RebaseMeets (Replica.Reexecution.Meets standard) env document fun _ entry =>
      Replica.ambiguous revision entry)
    (adopted : replica.adoptSnapshot env revision document = .done next ∨
      replica.adoptSnapshot env revision document = .threw next) :
    Refines standard sound initial client (replica.view log target) (next.view log raised)
        next ∧ next.status = replica.status := by
  have cleared : Kept ((replica.advance document revision).clearHistory) :=
    (kept_advance kept plain revision).of_bare rfl
  obtain ⟨final, rebased, conflicts, rfl⟩ := adoptSnapshot_cases adopted
  have alike : Replica.bare { final with conflicts } = final.bare := rfl
  have status := (Replica.grounded_rebase rebased).status
  rcases rebased with rebased | rebased
  · obtain ⟨survivors, sublist, located, rebuilt, finalKept, finalNamed⟩ :=
      @rebase_refines _ _ env standard initial client log raised _ final admits cleared named _ _
        meets rebased
    refine ⟨⟨.inr ?_, finalKept.of_bare alike, finalNamed⟩, status⟩
    rw [view_eq_of_bare alike]
    refine .resync revision raised document.value (survivors.map PendingEntry.view) _ faithful
      heard sublist ?_ rebuilt
    intro survivor member attempt inside
    obtain ⟨origin, chosen, rfl⟩ := mem_map.mp member
    obtain ⟨submitted, among, rfl⟩ := mem_map.mp inside
    obtain ⟨position, found, certain⟩ := located origin chosen
    have unpassed := any_eq_false.mp certain submitted among
    simpa [SubmittedAttempt.view] using unpassed
  · obtain ⟨rfl, reason, refused⟩ := Replica.rebase_eq_threw rebased
    have lapsed : ¬ sound := by
      intro steady
      obtain ⟨store, created⟩ := createStore_of_owned (owned steady)
      rw [show ((replica.advance document revision).clearHistory).confirmed = document from rfl,
        created] at refused
      simp at refused
    refine ⟨⟨.inr ?_, ?_, named⟩, rfl⟩
    · refine .collapse revision raised document.value lapsed ?_
      show max replica.confirmedRevision target ≤ _
      omega
    · exact ⟨cleared.minted, cleared.confirmed, cleared.doc, by simp, cleared.sent, by simp,
        by simp⟩

theorem submitHead_refines [DecidableEq Client] (kept : Kept replica)
    (named : replica.nonce = client) (rested : target ≤ replica.confirmedRevision)
    {attempt : SubmittedAttempt Client} (submitted : replica.submitHead = some (next, attempt)) :
    Refines standard sound initial client (replica.view log target) (next.view log target)
      next := by
  unfold Replica.submitHead at submitted
  split at submitted
  · simp at submitted
  rename_i head rest pending
  have headPending : head ∈ replica.pending := by simp [pending]
  simp only [some.injEq, Prod.mk.injEq] at submitted
  obtain ⟨rfl, rfl⟩ := submitted
  have cases {property : PendingEntry Client → Prop} {attempts : List (SubmittedAttempt Client)}
      (here : property { head with attempts }) (others : ∀ entry ∈ replica.pending, property entry) :
      ∀ entry ∈ { head with attempts } :: rest, property entry := by
    intro entry member
    rcases mem_cons.mp member with rfl | later
    · exact here
    · exact others entry (by rw [pending]; exact mem_cons_of_mem _ later)
  refine ⟨.inr ?_, ?_, named⟩
  · have step := @Replication.Step.submit _ _ _ _ (replicaProtocol standard initial client) sound
      (replica.view log target) head.view (rest.map PendingEntry.view)
      ((if (head.attempts.getLast?.any fun last => decide (last.opId = head.opId)) = true then
        head.attempts else head.attempts ++
          [⟨head.opId, replica.confirmedRevision, head.predicted, head.recorded⟩]).map
        SubmittedAttempt.view) (by simp [Replica.view, pending]) rested ?_
    · convert step using 1
      simp [Replica.view, PendingEntry.view, SubmittedAttempt.view]
      rfl
    · split
      · rename_i known
        refine .inr ⟨rfl, ?_⟩
        obtain ⟨last, isLast, same⟩ := (any_eq_true _ _).mp known
        exact ⟨last.view, mem_map_of_mem (mem_of_getLast? isLast), of_decide_eq_true same⟩
      · exact .inl (by simp [PendingEntry.view, SubmittedAttempt.view, Replica.view])
  · exact ⟨kept.minted, kept.confirmed, kept.doc, cases (kept.predicted head headPending) kept.predicted,
      forall_mem_concat kept.sent (kept.predicted head headPending),
      cases (kept.replays head headPending) kept.replays,
      cases (kept.begun head headPending) kept.begun⟩

end Steps

end Dinkster.Collab
