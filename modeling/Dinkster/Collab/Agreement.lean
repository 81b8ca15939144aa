import Dinkster.Collab.Attachment
import Dinkster.Library.Transition

/-!
# Agreement with the server log

The invariant of a server and its sessions: the server's log is the log that every
session's replica follows, and each session is attached to it.  From it follow the
two results on every run.  An intention contributes at most one operation to the
log.  And where no step is lossy, a session's confirmed document is the fold of
the log up to its confirmed revision.
-/

namespace Dinkster.Collab

open Library Format Commands List Option

variable {Client Authority : Type}

namespace World

variable [DecidableEq Client]

/-- No session's rebase starts from a document that the ownership boundary refuses,
and checkpoints load as what they are. -/
def Lossless (env : SessionEnvironment Authority) (world : World Client) : WorldAction Client → Prop
  | .join _ _ _ _ document => ∀ loaded ∈ env.loadDocument document, loaded.value = document.value
  | .act client action => ∀ session ∈ world.sessions client, session.Lossless env action
  | .process _ _ => True

/-- Whether a step is lossless, as far as that can be decided. -/
def losslessTest (env : SessionEnvironment Authority) (world : World Client) :
    WorldAction Client → Bool
  | .join _ _ _ _ document => env.loadDocument document = some document
  | .act client action => (world.sessions client).all fun session => session.losslessTest env action
  | .process _ _ => true

theorem lossless_of_test {env : SessionEnvironment Authority} {world : World Client}
    {action : WorldAction Client} (passes : world.losslessTest env action = true) :
    world.Lossless env action := by
  cases action with
  | join client actorId maxUndo revision document =>
    intro loaded loads
    obtain rfl : document = loaded :=
      some.inj ((of_decide_eq_true passes : env.loadDocument document = some document
        ).symm.trans loads)
    rfl
  | act client action =>
    intro session joined
    simp only [losslessTest, show world.sessions client = some session from joined,
      all_some] at passes
    exact Session.lossless_of_test passes
  | process client posting => trivial

/-- The replays of history that sessions execute meet a standard. -/
def Upholds (standard : Standard) (env : SessionEnvironment Authority) (world : World Client) :
    WorldAction Client → Prop
  | .act client action =>
    ∀ session ∈ world.sessions client, session.Upholds standard env action
  | _ => True

end World

/-- The standard that everything meets. -/
def Standard.lax : Standard :=
  fun _ _ _ => True

theorem Standard.admitsCommands_lax (env : SessionEnvironment Authority) :
    Standard.lax.AdmitsCommands env :=
  fun _ _ _ => trivial

theorem World.upholds_lax [DecidableEq Client] (env : SessionEnvironment Authority)
    (world : World Client) (action : WorldAction Client) :
    world.Upholds Standard.lax env action := by
  cases action with
  | act client action =>
    intro session _
    refine ⟨fun _ _ _ _ _ _ _ _ _ _ => trivial, ?_⟩
    constructor
    · exact fun _ _ _ _ _ _ _ _ _ _ _ => trivial
    · exact fun _ _ _ _ _ _ _ _ _ => trivial
  | join client actorId maxUndo revision document | process client posting => trivial

/-! ## The server's log -/

theorem documentAt_succ {server : Server Client} {revision : Nat} {op : CollabServerOp Client}
    (found : server.log[revision]? = some op) : server.documentAt (revision + 1) =
      (server.documentAt revision).bind fun doc => applyOps doc op.patch := by
  rw [Server.documentAt, take_add_one, found, toList_some, foldlM_append]
  simp only [foldlM_cons, foldlM_nil, bind_pure]
  rfl

theorem documentAt_grow {server grown : Server Client} {op : CollabServerOp Client} {revision : Nat}
    (initial : grown.initial = server.initial) (log : grown.log = server.log ++ [op])
    (within : revision ≤ server.log.length) :
    grown.documentAt revision = server.documentAt revision := by
  rw [Server.documentAt, Server.documentAt, log, initial, take_append_of_le_length within]

section Serving

variable (standard : Standard) (initial : Json)

/-- The server's log, document by document, is the log its sessions follow. -/
structure Serves (server : Server Client) (log : WireLog Client) : Prop where
  origin : server.initial = initial
  rendered : server.log = log.mapIdx logOp
  wires : ∀ entry ∈ log, ∀ wire ∈ entry.patch, wire.Plain
  distinct : (log.map Replication.Logged.id).Nodup
  head : server.documentAt log.length = .ok server.document
  documents : ∀ revision ≤ log.length, ∃ folded, server.documentAt revision = .ok folded ∧
    folded.Plain ∧ ∀ client,
      (replicaProtocol standard initial client).documentAt log revision = some folded.value

variable {standard initial} {world : World Client} {log : WireLog Client}

section

variable (serves : Serves standard initial world.server log)

include serves

theorem Serves.delivered {op : CollabServerOp Client} (member : op ∈ world.server.log) :
    Delivered log op := by
  rw [serves.rendered] at member
  obtain ⟨slot, inside, rfl⟩ := List.mem_mapIdx.mp member
  exact ⟨slot, log[slot], getElem?_eq_getElem inside, serves.wires _ (getElem_mem inside), rfl⟩

theorem Serves.length : world.server.log.length = log.length := by
  rw [serves.rendered, length_mapIdx]

theorem Serves.checkpoint {revision : Nat} {document : Json}
    (checkpoint : World.Checkpoint world.server revision document) (client : Client) :
    revision ≤ log.length ∧
      (replicaProtocol standard initial client).documentAt log revision = some document.value := by
  obtain ⟨within, folded, reached, same⟩ := checkpoint
  have inside : revision ≤ log.length := serves.length ▸ within
  obtain ⟨other, alsoReached, _, documented⟩ := serves.documents revision inside
  obtain rfl := Except.ok.inj (reached.symm.trans alsoReached)
  exact ⟨inside, by rw [same]; exact documented client⟩

end

theorem Serves.append {server : Server Client} (serves : Serves standard initial server log)
    {entry : Replication.Logged (OpId Client) (List WirePatchOp)}
    (unseen : ∀ other ∈ log, other.id ≠ entry.id) (wires : ∀ wire ∈ entry.patch, wire.Plain)
    {document : Json} (applied : applyOps server.document (wirePatchJson entry.patch) = .ok document) :
    Serves standard initial { server with document, log := server.log ++ [logOp log.length entry] }
      (log ++ [entry]) := by
  have length : server.log.length = log.length := by rw [serves.rendered, length_mapIdx]
  obtain ⟨before, reached, plain, documented⟩ := serves.documents log.length (Nat.le_refl _)
  obtain rfl := Except.ok.inj (reached.symm.trans serves.head)
  generalize grown : ({ server with document, log := server.log ++ [logOp log.length entry] } :
    Server Client) = next
  have initially : next.initial = server.initial := by rw [← grown]
  have appended : next.log = server.log ++ [logOp log.length entry] := by rw [← grown]
  have final : next.document = document := by rw [← grown]
  have last : next.documentAt (log.length + 1) = .ok document := by
    rw [@documentAt_succ _ next log.length (logOp log.length entry)
        (by rw [appended, ← length]; exact getElem?_concat_length),
      documentAt_grow initially appended (Nat.le_of_eq length.symm), serves.head]
    exact applied
  obtain ⟨effect, documentPlain⟩ := applied_of_applyOps plain wires applied
  constructor
  · exact initially.trans serves.origin
  · rw [appended, serves.rendered, mapIdx_concat]
  · exact forall_mem_concat serves.wires wires
  · simp only [map_append, map_cons, map_nil]
    refine nodup_append.mpr ⟨serves.distinct, by simp, ?_⟩
    intro id known other single equal
    obtain ⟨logged, member, rfl⟩ := List.mem_map.mp known
    exact unseen logged member (equal.trans (mem_singleton.mp single))
  · rw [final]
    simpa using last
  · intro revision within
    rcases Nat.lt_or_ge log.length revision with beyond | inside
    · obtain rfl : revision = log.length + 1 := by
        simp only [length_append, length_singleton] at within
        omega
      refine ⟨document, last, documentPlain, fun client => ?_⟩
      apply (replicaProtocol standard initial client).documentAt_succ _
        getElem?_concat_length effect
      rw [(replicaProtocol standard initial client).documentAt_append (Nat.le_refl _)]
      exact documented client
    · obtain ⟨folded, reached, foldedPlain, known⟩ := serves.documents revision inside
      refine ⟨folded, ?_, foldedPlain, fun client => ?_⟩
      · rw [documentAt_grow initially appended (length.symm ▸ inside)]
        exact reached
      · rw [(replicaProtocol standard initial client).documentAt_append inside]
        exact known client

end Serving

section Worlds

variable (standard : Standard) (sound : Prop) (initial : Json)

/-- A server and the sessions attached to its log. -/
structure Consistent (world : World Client) (log : WireLog Client) : Prop where
  serves : Serves standard initial world.server log
  joined : ∀ entry ∈ log, (world.sessions entry.id.nonce).isSome
  attached : ∀ client session, world.sessions client = some session →
    Attached standard sound initial client log session

variable {standard sound initial} {env : SessionEnvironment Authority} {world next : World Client}
  {log : WireLog Client}

theorem consistent_start (plain : initial.Plain) :
    Consistent standard sound initial (World.start initial) ([] : WireLog Client) := by
  constructor
  · constructor
    · rfl
    · rfl
    · simp
    · simp
    · rfl
    · intro revision none
      obtain rfl : revision = 0 := Nat.le_zero.mp none
      exact ⟨initial, rfl, plain, fun client => rfl⟩
  · simp
  · simp [World.start]

/-! ## A log that grows -/

variable {op : CollabServerOp Client}

theorem Delivered.append (delivered : Delivered log op)
    (entry : Replication.Logged (OpId Client) (List WirePatchOp)) :
    Delivered (log ++ [entry]) op := by
  obtain ⟨slot, logged, found, wires, rfl⟩ := delivered
  obtain ⟨inside, _⟩ := List.getElem?_eq_some_iff.mp found
  exact ⟨slot, logged, (getElem?_append_left inside).trans found, wires, rfl⟩

variable {client : Client} {session : Session Client}

theorem Attached.append (attached : Attached standard sound initial client log session)
    {entry : Replication.Logged (OpId Client) (List WirePatchOp)}
    (grows : Replication.Step (replicaProtocol standard initial client) sound
      (session.replica.view log session.syncTarget)
      (session.replica.view (log ++ [entry]) session.syncTarget)) :
    Attached standard sound initial client (log ++ [entry]) session := by
  refine ⟨⟨attached.backed.trusted.moves (.inr grows), attached.backed.kept,
    attached.backed.named⟩, attached.paced.rested, ?_⟩
  intro rest progressed inHand op member
  exact (attached.paced.page rest progressed inHand op member).append entry

variable [DecidableEq Client]

/-- The server leaves everything as it is, or it appends the posted operation at
the head. -/
theorem postOp_cases (env : SessionEnvironment Authority) (server : Server Client)
    (actorId : String) (posted : SubmittedAttempt Client) :
    server.postOp env actorId posted = server ∨
      (∀ op ∈ server.log, op.opId ≠ posted.opId) ∧ posted.baseRevision = server.log.length ∧
        ∃ next, applyOps server.document (wirePatchJson posted.patch) = .ok next ∧
          server.postOp env actorId posted = { server with
              document := next
              log := server.log ++ [⟨posted.opId, actorId, server.log.length,
                server.log.length + 1, wirePatchJson posted.patch⟩] } := by
  unfold Server.postOp
  split
  · exact .inl rfl
  rename_i unseen
  split
  · exact .inl rfl
  rename_i exact_
  split
  · exact .inl rfl
  split
  · exact .inl rfl
  rename_i next applied
  refine .inr ⟨?_, not_not.mp exact_, next, applyOps_of_applyChecked applied, rfl⟩
  intro op member same
  exact unseen (List.any_eq_true.mpr ⟨op, member, decide_eq_true same⟩)

theorem consistent_process (consistent : Consistent standard sound initial world log)
    (joined : world.sessions client = some session) {posted : SubmittedAttempt Client}
    (sent : posted ∈ session.replica.sent) : ∃ log, Consistent standard sound initial
      { world with server := world.server.postOp env session.replica.actorId posted } log := by
  obtain ⟨serves, members, attached⟩ := consistent
  have here := attached client session joined
  rcases postOp_cases env world.server session.replica.actorId posted with
    unchanged | ⟨fresh, exact_, next, applied, appended⟩
  · rw [unchanged]
    exact ⟨log, serves, members, attached⟩
  obtain ⟨intention, minted⟩ := here.backed.trusted.once.identified.sent posted.view
    (List.mem_map_of_mem sent)
  obtain ⟨actor, nonce, _⟩ := here.backed.kept.minted _ minted
  have mine : posted.opId.nonce = client := nonce.trans here.backed.named
  have unseen : ∀ other ∈ log, other.id ≠ posted.opId := by
    intro other member
    obtain ⟨slot, inside, rfl⟩ := List.mem_iff_getElem.mp member
    apply fresh (logOp slot log[slot])
    rw [serves.rendered]
    exact List.mem_mapIdx.mpr ⟨slot, inside, rfl⟩
  have rendered : (⟨posted.opId, session.replica.actorId, world.server.log.length,
      world.server.log.length + 1, wirePatchJson posted.patch⟩ : CollabServerOp Client) =
      logOp log.length ⟨posted.opId, posted.patch⟩ := by
    rw [serves.length, ← actor]
    rfl
  rw [appended, rendered]
  refine ⟨log ++ [⟨posted.opId, posted.patch⟩], ?_, ?_, ?_⟩
  · exact serves.append unseen (here.backed.kept.sent posted sent) applied
  · apply forall_mem_concat members
    rw [mine, joined]
    rfl
  · intro other reached found
    apply (attached other reached found).append
    by_cases same : other = client
    · obtain rfl := same
      obtain rfl := some.inj (joined.symm.trans found)
      exact .accept posted.view (List.mem_map_of_mem sent) (exact_.trans serves.length) unseen
    · refine .foreign ⟨posted.opId, posted.patch⟩ ?_ unseen
      exact fun own => same (own.symm.trans mine)

theorem consistent_act (admits : standard.AdmitsCommands env)
    (consistent : Consistent standard sound initial world log) {action : SessionAction Client}
    {after : Session Client} (honest : World.Truthful world.server action)
    (lossless : sound → session.Lossless env action) (upholds : session.Upholds standard env action)
    (joined : world.sessions client = some session)
    (stepped : session.step env action = some after) : Consistent standard sound initial
      { world with sessions := Function.update world.sessions client (some after) } log := by
  obtain ⟨serves, members, attached⟩ := consistent
  refine ⟨serves, ?_, ?_⟩
  · intro entry member
    dsimp only
    by_cases same : entry.id.nonce = client
    · simp [same]
    · rw [Function.update_of_ne same]
      exact members entry member
  intro other reached found
  by_cases same : other = client
  · obtain rfl := same
    obtain rfl : after = reached := by simpa using found
    apply attached_step admits (attached other session joined) _ _ lossless upholds stepped
    · rintro op (rfl | rfl | ⟨ops, rfl, member⟩)
      · exact serves.delivered honest
      · exact serves.delivered honest
      · exact serves.delivered (honest op member)
    · rintro steady revision document rfl loaded loads
      obtain ⟨inside, documented⟩ := serves.checkpoint honest other
      rw [((lossless steady).2 revision document rfl loaded loads).1]
      exact ⟨inside, documented⟩
  · dsimp only at found
    rw [Function.update_of_ne same] at found
    exact attached other reached found

theorem consistent_join (consistent : Consistent standard sound initial world log)
    {actorId : String} {maxUndo revision : Nat} {document loaded : Json}
    (absent : world.sessions client = none) (loads : env.loadDocument document = some loaded)
    (honest : World.Checkpoint world.server revision document)
    (lossless : sound → loaded.value = document.value)
    (created : Session.create actorId client maxUndo loaded revision = .ok session) :
    Consistent standard sound initial
      { world with sessions := Function.update world.sessions client (some session) } log := by
  obtain ⟨serves, members, attached⟩ := consistent
  have plain := env.plain_of_loadDocument loads
  refine ⟨serves, ?_, ?_⟩
  · intro entry member
    dsimp only
    by_cases same : entry.id.nonce = client
    · simp [same]
    · rw [Function.update_of_ne same]
      exact members entry member
  intro other reached found
  by_cases same : other = client
  · obtain rfl := same
    obtain rfl : session = reached := by simpa using found
    simp only [Session.create, Replica.create, bind_eq_ok, pure_eq_ok] at created
    obtain ⟨replica, ⟨store, started, rfl⟩, rfl⟩ := created
    have doc := currentDoc_of_createStore plain started
    have unseen : ∀ entry ∈ log, ¬ (replicaProtocol standard initial other).own entry.id := by
      intro entry member own
      have present := members entry member
      rw [show entry.id.nonce = other from own, absent] at present
      simp at present
    constructor
    · constructor
      · have joined := @Replication.trusted_join _ _ _ _ (replicaProtocol standard initial other)
          sound log loaded.value revision unseen serves.distinct fun steady => by
            rw [lossless steady]
            exact serves.checkpoint honest other
        convert joined using 1
        simp [Replica.view, Replication.join, Replica.doc, doc]
      · constructor <;> simp [plain, Replica.doc, doc]
      · rfl
    · constructor
      all_goals simp
  · dsimp only at found
    rw [Function.update_of_ne same] at found
    exact attached other reached found

theorem consistent_step (admits : standard.AdmitsCommands env)
    (consistent : ∃ log, Consistent standard sound initial world log) {action : WorldAction Client}
    (guarded : World.Honest world action ∧ (sound → World.Lossless env world action) ∧
      World.Upholds standard env world action) (stepped : world.step env action = some next) :
    ∃ log, Consistent standard sound initial next log := by
  obtain ⟨log, consistent⟩ := consistent
  obtain ⟨honest, lossless, upholds⟩ := guarded
  cases action with
  | join client actorId maxUndo revision document =>
    simp only [World.step] at stepped
    split at stepped
    · rename_i absent loads
      split at stepped
      · rename_i session created
        cases stepped
        exact ⟨log, consistent_join consistent absent loads honest
          (fun steady => lossless steady _ loads) created⟩
      · simp at stepped
    · simp at stepped
  | act client action =>
    simp only [World.step] at stepped
    split at stepped
    · simp at stepped
    · rename_i session joined
      obtain ⟨after, took, rfl⟩ := map_eq_some_iff.mp stepped
      exact ⟨log, consistent_act admits consistent honest
        (fun steady => lossless steady session joined) (upholds session joined) joined took⟩
  | process client posting =>
    simp only [World.step] at stepped
    split at stepped
    · simp at stepped
    · rename_i session joined
      split at stepped
      · simp at stepped
      · rename_i posted found
        cases stepped
        exact consistent_process consistent joined (mem_of_getElem? found)

theorem consistent_run (admits : standard.AdmitsCommands env) (plain : initial.Plain) {actions : List (WorldAction Client)}
    (along : Along (World.step env) (fun world action => World.Honest world action ∧
      (sound → World.Lossless env world action) ∧ World.Upholds standard env world action)
      (World.start initial) actions)
    (reached : run (World.step env) (World.start initial) actions = some world) :
    ∃ log, Consistent standard sound initial world log :=
  run_invariant (fun world => ∃ log, Consistent standard sound initial world log)
    (fun consistent guarded stepped => consistent_step admits consistent guarded stepped)
    ⟨[], consistent_start plain⟩ along reached

omit [DecidableEq Client] in
theorem Consistent.logged_meets (consistent : Consistent standard True initial world log)
    (joined : world.sessions client = some session) {slot : Nat}
    (logged : world.server.log[slot]? = some op) {attempt : SubmittedAttempt Client}
    (sent : attempt ∈ session.replica.sent) (same : attempt.opId = op.opId) :
    ∃ folded patch, world.server.documentAt slot = .ok folded ∧ op.patch = wirePatchJson patch ∧
      standard folded.value attempt.recorded patch := by
  obtain ⟨serves, _, attached⟩ := consistent
  have trusted := (attached client session joined).backed.trusted
  rw [serves.rendered, getElem?_mapIdx] at logged
  obtain ⟨entry, found, rfl⟩ := map_eq_some_iff.mp logged
  obtain ⟨inside, _⟩ := List.getElem?_eq_some_iff.mp found
  obtain ⟨folded, reached, _, documented⟩ := serves.documents slot (Nat.le_of_lt inside)
  obtain ⟨value, here, good⟩ := (trusted.good trivial).logged trusted.once (trusted.agrees trivial)
    found (List.mem_map_of_mem sent) same
  obtain rfl : folded.value = value := some.inj ((documented client).symm.trans here)
  exact ⟨folded, entry.patch, reached, rfl, good⟩

omit [DecidableEq Client] in
theorem Consistent.slot_meets (consistent : Consistent standard True initial world log)
    {slot : Nat} (inside : slot < world.server.log.length) :
    ∃ before after recorded patch, world.server.documentAt slot = .ok before ∧
      world.server.documentAt (slot + 1) = .ok after ∧
      applyWire before.value patch = some after.value ∧ standard before.value recorded patch := by
  have serves := consistent.serves
  have found := getElem?_eq_getElem inside
  generalize world.server.log[slot] = op at found
  have logged := found
  rw [serves.rendered, getElem?_mapIdx] at logged
  obtain ⟨entry, here, rfl⟩ := map_eq_some_iff.mp logged
  obtain ⟨session, joined⟩ := Option.isSome_iff_exists.mp
    (consistent.joined entry (mem_of_getElem? here))
  have trusted := (consistent.attached _ session joined).backed.trusted
  obtain ⟨attempt, sent, named, _⟩ := trusted.once.identified.logged slot entry here rfl
  obtain ⟨submitted, among, rfl⟩ := List.mem_map.mp sent
  obtain ⟨before, patch, reached, wired, meets⟩ := consistent.logged_meets joined found among named
  obtain ⟨after, later, _, _⟩ := serves.documents (slot + 1) (by
    rw [serves.rendered, length_mapIdx] at inside
    exact inside)
  have applied := later
  rw [documentAt_succ found, reached] at applied
  obtain ⟨folded, again, plain, _⟩ := serves.documents slot (by
    rw [serves.rendered, length_mapIdx] at inside
    exact Nat.le_of_lt inside)
  obtain rfl := Except.ok.inj (reached.symm.trans again)
  have wires := serves.wires entry (mem_of_getElem? here)
  have same : patch = entry.patch := wirePatchJson_injective wired.symm
  rw [same] at meets
  exact ⟨before, after, submitted.recorded, entry.patch, reached, later,
    (applied_of_applyOps plain wires applied).1, meets⟩

end Worlds

/-- Alice and Bob join. -/
def bothJoin : List (World Nat → Option (WorldAction Nat)) :=
  [World.joins 0 "alice", World.joins 1 "bob"]

def submits (client : Nat) (invocation : CommandInvocation) :
    List (World Nat → Option (WorldAction Nat)) :=
  [World.acts client (.dispatch invocation), World.acts client .returned,
    World.acts client .pumpTurn]

/-- On every honest run an operation of a client's in the log belongs to exactly one
of its intentions, and no two operations of the log belong to the same one. -/
theorem World.intention_committed_at_most_once [DecidableEq Client]
    {env : SessionEnvironment Authority} {initial : Json} (plain : initial.Plain)
    {actions : List (WorldAction Client)} {final : World Client}
    (along : Along (World.step env) World.Honest (World.start initial) actions)
    (reached : run (World.step env) (World.start initial) actions = some final)
    {client : Client} {session : Session Client} (joined : final.sessions client = some session) :
    (∀ op ∈ final.server.log, op.opId.nonce = client →
        ∃! intention, (op.opId, intention) ∈ session.replica.minted) ∧
      ∀ (first second : Nat) (left right : CollabServerOp Client) (intention : OpId Client),
        final.server.log[first]? = some left → final.server.log[second]? = some right →
          (left.opId, intention) ∈ session.replica.minted →
            (right.opId, intention) ∈ session.replica.minted → first = second := by
  obtain ⟨log, serves, _, attached⟩ := @consistent_run _ _ Standard.lax False initial env final _
    (Standard.admitsCommands_lax env) plain actions
    (along_mono (fun world action honest =>
      ⟨honest, False.elim, World.upholds_lax env world action⟩) along) reached
  have once := (attached client session joined).backed.trusted.once
  -- An operation of the server's log is an entry of the log, in the same slot.
  have located {slot : Nat} {op : CollabServerOp Client}
      (found : final.server.log[slot]? = some op) :
      ∃ entry, log[slot]? = some entry ∧ entry.id = op.opId := by
    rw [serves.rendered, getElem?_mapIdx] at found
    obtain ⟨entry, here, rfl⟩ := map_eq_some_iff.mp found
    exact ⟨entry, here, rfl⟩
  constructor
  · intro op member own
    obtain ⟨slot, inside, rfl⟩ := List.mem_iff_getElem.mp member
    obtain ⟨entry, here, same⟩ := located (getElem?_eq_getElem inside)
    obtain ⟨attempt, sent, named, _⟩ := once.identified.logged slot entry here (by
      show entry.id.nonce = client
      rw [same]
      exact own)
    obtain ⟨intention, minted⟩ := once.identified.sent attempt sent
    rw [named, same] at minted
    exact ⟨intention, minted, fun other alsoMinted =>
      once.identified.functional _ _ _ alsoMinted minted⟩
  · intro first second left right intention leftFound rightFound leftMinted rightMinted
    obtain ⟨leftEntry, leftHere, leftSame⟩ := located leftFound
    obtain ⟨rightEntry, rightHere, rightSame⟩ := located rightFound
    exact once.at_most_once leftHere rightHere (leftSame ▸ leftMinted) (rightSame ▸ rightMinted)

/-- Alice's response is lost and she submits again; Bob's first submission is stale
and his intention is minted anew. -/
def retriedMoves : List (World Nat → Option (WorldAction Nat)) :=
  bothJoin ++ submits 1 (setValueSource "v2" (.num 2)) ++
    submits 0 (setValueSource "v1" (.num 1)) ++
    [World.processes 0 0, World.acts 0 (.posted .error), World.acts 0 .pumpTurn,
      World.processes 0 1, World.answers 0 0, World.processes 1 0, World.delivers 1 0,
      World.acts 1 (.posted (.staleBase 1)), World.acts 1 .pumpTurn, World.processes 1 1,
      World.answers 1 1]

/-- Bob's intention has been minted twice and committed once. -/
theorem World.reminted_intention_committed_at_most_once :
    ∃ (final : World Nat) (session : Session Nat), final.sessions 1 = some session ∧
      (final.server.log.length = 2 ∧ session.replica.minted.length = 2) ∧
      (∀ op ∈ final.server.log, op.opId.nonce = 1 →
        ∃! intention, (op.opId, intention) ∈ session.replica.minted) ∧
      ∀ (first second : Nat) (left right : CollabServerOp Nat) (intention : OpId Nat),
        final.server.log[first]? = some left → final.server.log[second]? = some right →
          (left.opId, intention) ∈ session.replica.minted →
            (right.opId, intention) ∈ session.replica.minted → first = second := by
  obtain ⟨actions, final, reached, along, passed⟩ := @run_of_enact_any (World Nat) (WorldAction Nat)
    (World.step builtinEnvironment) World.honestTest (World.start sourceDocument) retriedMoves
    (fun final => (final.sessions 1).any fun (session : Session Nat) =>
      decide (final.server.log.length = 2 ∧ session.replica.minted.length = 2)) (by decide +kernel)
  obtain ⟨session, joined, counted⟩ := (Option.any_eq_true _ _).mp passed
  exact ⟨final, session, joined, of_decide_eq_true counted,
    World.intention_committed_at_most_once plain_sourceDocument
      (along_mono (fun _ _ => World.honest_of_test) along) reached joined⟩

/-- On every honest and lossless run the confirmed document of a session has the
value of the fold of the log up to its confirmed revision. -/
theorem World.confirmed_agrees_with_log [DecidableEq Client]
    {env : SessionEnvironment Authority} {initial : Json} (plain : initial.Plain)
    {actions : List (WorldAction Client)} {final : World Client} (along : Along (World.step env)
      (fun world action => World.Honest world action ∧ World.Lossless env world action)
      (World.start initial) actions)
    (reached : run (World.step env) (World.start initial) actions = some final)
    {client : Client} {session : Session Client} (joined : final.sessions client = some session) :
    session.replica.confirmedRevision ≤ final.server.revision ∧
      ∃ folded, final.server.documentAt session.replica.confirmedRevision = .ok folded ∧
        session.replica.confirmed.value = folded.value := by
  obtain ⟨log, serves, _, attached⟩ := @consistent_run _ _ Standard.lax True initial env final _
    (Standard.admitsCommands_lax env) plain actions
    (along_mono (fun world action guarded =>
      ⟨guarded.1, fun _ => guarded.2, World.upholds_lax env world action⟩) along) reached
  have agrees := (attached client session joined).backed.trusted.agrees trivial
  have within : session.replica.confirmedRevision ≤ log.length := agrees.within
  obtain ⟨folded, here, _, documented⟩ := serves.documents _ within
  refine ⟨?_, folded, here, ?_⟩
  · rw [Server.revision, serves.length]
    exact within
  · exact some.inj (agrees.confirmed.symm.trans (documented client))

/-- Alice's operation is acknowledged at her end and absorbed by a rebase at Bob's,
who has an intention of his own. -/
def absorbedMoves : List (World Nat → Option (WorldAction Nat)) :=
  bothJoin ++ submits 0 (setValueSource "v1" (.num 1)) ++
    submits 1 (setValueSource "v2" (.num 2)) ++
    [World.processes 0 0, World.answers 0 0, World.delivers 1 0]

/-- Bob's confirmed document agrees with the log while his intention is pending. -/
theorem World.absorbed_operation_agrees_with_log :
    ∃ (final : World Nat) (session : Session Nat), final.sessions 1 = some session ∧
      (session.replica.confirmedRevision = 1 ∧ session.replica.pending.length = 1) ∧
      session.replica.confirmedRevision ≤ final.server.revision ∧
      ∃ folded, final.server.documentAt session.replica.confirmedRevision = .ok folded ∧
        session.replica.confirmed.value = folded.value := by
  obtain ⟨actions, final, reached, along, passed⟩ := @run_of_enact_any (World Nat) (WorldAction Nat)
    (World.step builtinEnvironment) (fun world action =>
      World.honestTest world action && World.losslessTest builtinEnvironment world action)
    (World.start sourceDocument) absorbedMoves
    (fun final => (final.sessions 1).any fun (session : Session Nat) =>
      decide (session.replica.confirmedRevision = 1 ∧ session.replica.pending.length = 1))
    (by decide +kernel)
  obtain ⟨session, joined, counted⟩ := (Option.any_eq_true _ _).mp passed
  refine ⟨final, session, joined, of_decide_eq_true counted,
    World.confirmed_agrees_with_log plain_sourceDocument (along_mono ?_ along) reached joined⟩
  intro world action admitted
  obtain ⟨honest, lossless⟩ := Bool.and_eq_true_iff.mp admitted
  exact ⟨World.honest_of_test honest, World.lossless_of_test lossless⟩

def nest : Nat → Json
  | 0 => .null
  | depth + 1 => .arr [nest depth]

/-- Alice sets a value that nests too deep for the document's boundary, Bob's rebase
for it throws, and Bob edits what he still sees. -/
def deepValueMoves : List (World Nat → Option (WorldAction Nat)) :=
  bothJoin ++ submits 0 (setValueSource "v1" (nest 61)) ++
    [World.processes 0 0, World.delivers 1 0] ++ submits 1 (setValueSource "v2" (.num 1)) ++
    [World.processes 1 0, World.answers 1 1]

/-- After a rebase that threw, the acknowledgement of a single intention confirms a
document without the operation that the rebase was for. -/
theorem World.acknowledgement_confirms_stale_store :
    ∃ (actions : List (WorldAction Nat)) (final : World Nat) (session : Session Nat)
      (folded : Json),
      Along (World.step builtinEnvironment) World.Honest (World.start sourceDocument) actions ∧
      run (World.step builtinEnvironment) (World.start sourceDocument) actions = some final ∧
      final.sessions 1 = some session ∧ session.replica.status = .live ∧
      final.server.documentAt session.replica.confirmedRevision = .ok folded ∧
      session.replica.confirmed.value ≠ folded.value := by
  obtain ⟨actions, final, reached, along, passed⟩ := @run_of_enact_any (World Nat) (WorldAction Nat)
    (World.step builtinEnvironment) World.honestTest (World.start sourceDocument) deepValueMoves
    (fun final => (final.sessions 1).any fun (session : Session Nat) =>
      (final.server.documentAt session.replica.confirmedRevision).toOption.any fun (folded : Json) =>
        decide (session.replica.status = .live ∧
          getAtPath session.replica.confirmed (sourceValuePath "v1") = some .null ∧
          getAtPath folded (sourceValuePath "v1") = some (nest 61))) (by decide +kernel)
  obtain ⟨session, joined, compared⟩ := (Option.any_eq_true _ _).mp passed
  obtain ⟨folded, fold, read⟩ := (Option.any_eq_true _ _).mp compared
  obtain ⟨live, stale, deep⟩ := of_decide_eq_true read
  refine ⟨actions, final, session, folded, along_mono (fun _ _ => World.honest_of_test) along,
    reached, joined, live, ?_, ?_⟩
  · exact toOption_eq_some fold
  · apply value_ne_of_getAtPath (sourceValuePath "v1")
    rw [stale, deep]
    simp [optionValue, nest, Json.value]

end Dinkster.Collab
