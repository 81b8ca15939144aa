import Dinkster.Image.Pages

/-!
# Runs of image sessions

Every reachable world keeps what the steps of its sessions need: the log of the server is in
order, every operation in it was sent under its op id by the session that its nonce names, and
every session is sound.  So a session that waits for nothing shows the document that its queue
makes of the fold of the log, and every operation of the log applies to the document it is
based on, unless a conflict callback of a rebase queued an intention.
-/

namespace Dinkster.Image

open Library Format Commands List Option
open Collab (OpId CollabServerOp validateCollabServerOp PostOpOutcome FetchOpsOutcome)

section Growth

variable {Client : Type} {env : ImageEnvironment} {server : ImageServer Client}
  {more : List (CollabServerOp Client)}

/-- The server after it appended operations. -/
def ImageServer.extend (server : ImageServer Client) (more : List (CollabServerOp Client)) :
    ImageServer Client :=
  { server with log := server.log ++ more }

theorem checkpoint_extend {revision : Nat} {document : Json}
    (checkpoint : server.Checkpoint env revision document) :
    (server.extend more).Checkpoint env revision document := by
  constructor
  · apply Nat.le_trans checkpoint.1
    unfold ImageServer.revision ImageServer.extend
    rw [length_append]
    exact Nat.le_add_right _ _
  · rw [← checkpoint.2]
    unfold ImageServer.documentAt ImageServer.extend
    dsimp only
    rw [take_append_of_le_length checkpoint.1]

theorem sound_extend {core : Core Client} (sound : Sound env server core) :
    Sound env (server.extend more) core where
  based := {
    grounded := checkpoint_extend sound.based.grounded
    sends := {
      old := sound.based.sends.old
      unique := sound.based.sends.unique
      applies := by
        intro attempt sent
        obtain ⟨base, next, checkpoint, applied⟩ := sound.based.sends.applies attempt sent
        exact ⟨base, next, checkpoint_extend checkpoint, applied⟩ }
    checkpoints := by
      intro rest ambiguous revision document listed
      exact checkpoint_extend (sound.based.checkpoints rest ambiguous revision document listed) }
  queued := sound.queued

theorem paged_extend {session : ImageSession Client} (paged : Paged server.log session) :
    Paged (server.extend more).log session := by
  intro page progressed fetching op listed
  exact mem_append_left _ (paged page progressed fetching op listed)

theorem ordered_extend {op : CollabServerOp Client} (ordered : server.Ordered)
    (follows : op.revision = server.revision + 1) : (server.extend [op]).Ordered := by
  intro position other found
  unfold ImageServer.extend at found
  cases Nat.lt_or_ge position server.log.length with
  | inl inside =>
    rw [getElem?_append_left inside] at found
    exact ordered position other found
  | inr outside =>
    rw [getElem?_append_right outside] at found
    obtain ⟨bound, same⟩ := List.getElem?_eq_some_iff.mp found
    rw [length_singleton] at bound
    have place : position = server.log.length := by omega
    rw [getElem_singleton] at same
    rw [← same, follows, place]
    rfl

end Growth

section Worlds

variable {Client : Type} [DecidableEq Client] {env : ImageEnvironment}
  {world next : ImageWorld Client}

namespace ImageWorld

/-- No conflict callback of a rebase queues an intention. -/
def Undisturbed (env : ImageEnvironment) (world : ImageWorld Client) :
    ImageWorldAction Client → Prop
  | .act client action => ∀ session, world.sessions client = some session →
      session.detached = true → session.edits env action = false
  | _ => True

/-- An operation is what a session sent under its op id. -/
def Owned (sessions : Client → Option (ImageSession Client)) (op : CollabServerOp Client) : Prop :=
  ∃ session attempt, sessions op.opId.nonce = some session ∧ attempt ∈ session.sent ∧
    attempt.opId = op.opId ∧ attempt.baseRevision = op.baseRevision ∧
    op.patch = wirePatchJson attempt.patch.val

/-- What every reachable world keeps. -/
structure Kept (env : ImageEnvironment) (world : ImageWorld Client) : Prop where
  ordered : world.server.Ordered
  owned : ∀ op ∈ world.server.log, Owned world.sessions op
  named : ∀ client session, world.sessions client = some session → session.nonce = client
  sound : ∀ client session, world.sessions client = some session →
    Sound env world.server session.core
  paged : ∀ client session, world.sessions client = some session →
    Paged world.server.log session

variable {client : Client} {session : ImageSession Client} {action : ImageWorldAction Client}

omit [DecidableEq Client] in
theorem Kept.own (kept : Kept env world) (joined : world.sessions client = some session) :
    ∀ op ∈ world.server.log, Own session.core op := by
  intro op known attempt sent same
  obtain ⟨sender, original, joins, posted, id, base, patch⟩ := kept.owned op known
  have sends := (kept.sound client session joined).based.sends
  have nonce : op.opId.nonce = client := by
    rw [← same, (sends.old attempt sent).1]
    exact kept.named client session joined
  rw [nonce, joined] at joins
  rw [← some.inj joins] at posted
  have only := sends.unique attempt sent original posted (same.trans id.symm)
  rw [only]
  exact ⟨base, patch⟩

omit [DecidableEq Client] in
theorem Owned.update [DecidableEq Client] {sessions : Client → Option (ImageSession Client)}
    {op : CollabServerOp Client} {next : ImageSession Client} (owned : Owned sessions op)
    (keeps : ∀ session, sessions client = some session →
      ∀ attempt ∈ session.sent, attempt ∈ next.sent) :
    Owned (Function.update sessions client (some next)) op := by
  obtain ⟨session, attempt, joined, sent, payload⟩ := owned
  unfold Owned
  by_cases same : op.opId.nonce = client
  · rw [same, Function.update_self]
    rw [same] at joined
    exact ⟨next, attempt, rfl, keeps session joined attempt sent, payload⟩
  · rw [Function.update_of_ne same]
    exact ⟨session, attempt, joined, sent, payload⟩

theorem Kept.update (kept : Kept env world) (named : session.nonce = client)
    (sound : Sound env world.server session.core) (paged : Paged world.server.log session)
    (keeps : ∀ before, world.sessions client = some before →
      ∀ attempt ∈ before.sent, attempt ∈ session.sent) :
    Kept env { world with sessions := Function.update world.sessions client (some session) } := by
  have only : ∀ {property : Client → ImageSession Client → Prop}, property client session →
      (∀ other before, world.sessions other = some before → property other before) →
      ∀ other before, Function.update world.sessions client (some session) other = some before →
        property other before := by
    intro property here elsewhere other before joined
    by_cases same : other = client
    · rw [same, Function.update_self] at joined
      rw [← some.inj joined, same]
      exact here
    · rw [Function.update_of_ne same] at joined
      exact elsewhere other before joined
  constructor
  · exact kept.ordered
  · intro op known
    exact (kept.owned op known).update keeps
  · exact only named kept.named
  · exact only sound kept.sound
  · exact only paged kept.paged

omit [DecidableEq Client] in
theorem kept_start (initial : Json) : Kept env (start initial : ImageWorld Client) where
  ordered := by
    intro position op found
    exact absurd found (by simp [start])
  owned := by
    intro op known
    exact absurd known not_mem_nil
  named := by
    intro client session joined
    exact absurd joined (by simp [start])
  sound := by
    intro client session joined
    exact absurd joined (by simp [start])
  paged := by
    intro client session joined
    exact absurd joined (by simp [start])

omit [DecidableEq Client] in
theorem sound_create {server : ImageServer Client} {actorId : String} {maxUndo revision : Nat}
    {document : Json} (checkpoint : server.Checkpoint env revision document) :
    Sound env server (ImageSession.create actorId client maxUndo document revision).core where
  based := {
    grounded := checkpoint
    sends := ⟨by simp [ImageSession.core, ImageSession.create],
      by simp [ImageSession.core, ImageSession.create],
      by simp [ImageSession.core, ImageSession.create]⟩
    checkpoints := by simp [ImageSession.core, ImageSession.create] }
  queued := by
    apply Queued.settled
    · rfl
    · exact .empty
    · intro entry listed
      exact absurd listed not_mem_nil

theorem kept_process (kept : Kept env world) {posted : Attempt Client}
    (joined : world.sessions client = some session) (sent : posted ∈ session.sent) :
    Kept env { world with server := world.server.postOp session.actorId posted } := by
  unfold ImageServer.postOp
  split
  · exact kept
  · split
    · exact kept
    · rename_i head
      have nonce : posted.opId.nonce = client := by
        rw [((kept.sound client session joined).based.sends.old posted sent).1]
        exact kept.named client session joined
      constructor
      · exact ordered_extend kept.ordered rfl
      · intro op known
        cases mem_append.mp known with
        | inl before => exact kept.owned op before
        | inr last =>
          rw [mem_singleton.mp last]
          exact ⟨session, posted, by rw [nonce]; exact joined, sent, rfl, not_not.mp head, rfl⟩
      · exact kept.named
      · intro other before joins
        exact sound_extend (kept.sound other before joins)
      · intro other before joins
        exact paged_extend (kept.paged other before joins)

/-- Every honest step keeps the invariant, unless it queues an intention inside a rebase. -/
theorem kept_step (kept : Kept env world)
    (guarded : Honest env world action ∧ Undisturbed env world action)
    (stepped : world.step env action = some next) : Kept env next := by
  unfold ImageWorld.step at stepped
  cases action with
  | join client actorId maxUndo revision document =>
    have loads := load_of_checkpoint guarded.1
    dsimp only at stepped
    split at stepped
    · rename_i loaded absent found
      cases stepped
      rw [loads] at found
      cases found
      apply kept.update rfl (sound_create guarded.1)
      · exact @paged_of_phase _ _ _ .none rfl (by simp)
      · intro before joined
        exact absurd (absent.symm.trans joined) (by simp)
    · simp at stepped
  | act client action =>
    dsimp only at stepped
    split at stepped
    · simp at stepped
    · rename_i session joined
      obtain ⟨after, taken, same⟩ := map_eq_some_iff.mp stepped
      have sound := kept.sound client session joined
      have paged := kept.paged client session joined
      have follows := follows_step kept.ordered (kept.own joined) paged sound guarded.1
        (guarded.2 session joined) taken
      rw [← same]
      apply kept.update _ follows.sound (paged_step paged guarded.1 taken)
      · intro before joins
        rw [joined] at joins
        cases joins
        exact follows.kept
      · exact follows.named.trans (kept.named client session joined)
  | process client posting =>
    dsimp only at stepped
    split at stepped
    · simp at stepped
    · rename_i session joined
      split at stepped
      · simp at stepped
      · rename_i posted found
        cases stepped
        exact kept_process kept joined (mem_of_getElem? found)

/-- What the program promises of a world between method calls. -/
structure Faithful (env : ImageEnvironment) (world : ImageWorld Client) : Prop where
  confirmed : ∀ client session, world.sessions client = some session →
    world.server.documentAt env session.confirmedRevision = some session.confirmed
  shown : ∀ client session, world.sessions client = some session → session.frames = [] →
    view env session.confirmed session.pending = some session.optimistic
  accepted : ∀ op ∈ world.server.log, ∃ patch : OwnedPatch, op.patch = wirePatchJson patch.val ∧
    ∃ base final, world.server.documentAt env op.baseRevision = some base ∧
      applyPatch env base patch = some final

omit [DecidableEq Client] in
theorem Kept.faithful (kept : Kept env world) : Faithful env world where
  confirmed := by
    intro client session joined
    exact (kept.sound client session joined).based.grounded.2
  shown := by
    intro client session joined rested
    have settled := (kept.sound client session joined).settled (by
      change session.frames.any Frame.detaches = false
      rw [rested]
      rfl)
    exact settled.1.leads
  accepted := by
    intro op known
    obtain ⟨session, attempt, joined, sent, id, base, patch⟩ := kept.owned op known
    obtain ⟨document, final, checkpoint, applied⟩ :=
      (kept.sound _ session joined).based.sends.applies attempt sent
    rw [← base]
    exact ⟨attempt.patch, patch, document, final, checkpoint.2, applied⟩

/-- As long as no conflict callback of a rebase queues an intention, every session holds the
fold of the log and shows what its queue makes of it, and every operation of the log applies
to the document it is based on. -/
theorem faithful_of_undisturbed {initial : Json} {actions : List (ImageWorldAction Client)}
    {final : ImageWorld Client} (along : Along (ImageWorld.step env)
      (fun world action => Honest env world action ∧ Undisturbed env world action)
      (start initial) actions)
    (reached : run (ImageWorld.step env) (start initial) actions = some final) :
    Faithful env final := by
  have kept : Kept env final :=
    run_invariant (Kept env) kept_step (kept_start initial) along reached
  exact kept.faithful

/-- Whether a session is told something true, as far as that can be decided. -/
def truthfulTest (env : ImageEnvironment) (server : ImageServer Client) : ImageAction Client → Bool
  | .opEvent op => op ∈ server.log
  | .posted (.accepted op) => op ∈ server.log
  | .snapshotFetched revision document =>
    revision ≤ server.revision && server.documentAt env revision = some document
  | .opsFetched (.ops ops) => ops.all (· ∈ server.log)
  | _ => true

/-- Whether a step of the network is honest, as far as that can be decided. -/
def honestTest (env : ImageEnvironment) (world : ImageWorld Client) : ImageWorldAction Client → Bool
  | .join _ _ _ revision document =>
    revision ≤ world.server.revision && world.server.documentAt env revision = some document
  | .act _ action => truthfulTest env world.server action
  | .process _ _ => true

/-- Whether no conflict callback of a rebase queues an intention. -/
def undisturbedTest (env : ImageEnvironment) (world : ImageWorld Client) :
    ImageWorldAction Client → Bool
  | .act client action => (world.sessions client).all fun session =>
    !session.detached || !session.edits env action
  | _ => true

theorem honest_of_test (passes : honestTest env world action = true) : Honest env world action := by
  have checkpoint : ∀ {revision : Nat} {document : Json},
      (decide (revision ≤ world.server.revision) &&
        decide (world.server.documentAt env revision = some document)) = true →
        world.server.Checkpoint env revision document := by
    intro revision document both
    rw [Bool.and_eq_true, decide_eq_true_iff, decide_eq_true_iff] at both
    exact both
  cases action with
  | join client actorId maxUndo revision document => exact checkpoint passes
  | process client posting => trivial
  | act client action =>
    cases action with
    | opEvent op => exact (of_decide_eq_true passes : op ∈ world.server.log)
    | posted outcome =>
      cases outcome with
      | accepted op => exact (of_decide_eq_true passes : op ∈ world.server.log)
      | _ => trivial
    | snapshotFetched revision document => exact checkpoint passes
    | opsFetched outcome =>
      cases outcome with
      | ops ops =>
        intro op member
        exact of_decide_eq_true (List.all_eq_true.mp passes op member)
      | resyncRequired => trivial
    | _ => trivial

omit [DecidableEq Client] in
theorem undisturbed_of_test (passes : undisturbedTest env world action = true) :
    Undisturbed env world action := by
  cases action with
  | act client action =>
    intro session joined inside
    have quiet : (world.sessions client).all (fun session =>
        !session.detached || !session.edits env action) = true := passes
    rw [joined, all_some, inside, Bool.not_true, Bool.false_or, Bool.not_eq_true'] at quiet
    exact quiet
  | join client actorId maxUndo revision document | process client posting => trivial

end ImageWorld

end Worlds

namespace ImageWorld

/-- `'image.layer.update'`: the layer is replaced with its changed copy. -/
def updateLayer (document invocation : Json) : Option OwnedOps :=
  match getAtPath invocation [.key "params", .key "layerId"],
      getAtPath invocation [.key "params"] with
  | some (.str layerId), some (.obj params) =>
    let path : DocPath := [.key "layers", .key layerId]
    match getAtPath document path with
    | some (.obj layer) =>
      let changed := (eraseField params "layerId").foldl
        (fun layer change => setField layer change.1 change.2) layer
      match kept : ownJsonWithin jsonLimits (.obj layer),
          made : ownJsonWithin jsonLimits (.obj changed) with
      | .ok before, .ok final =>
        some ⟨[.replace path final before], by
          intro op listed
          rw [mem_singleton.mp listed]
          exact ⟨ownJsonWithin_plain made, ownJsonWithin_plain kept⟩⟩
      | _, _ => none
    | _ => none
  | _, _ => none

/-- An environment that knows the command that updates a layer. -/
def layerEnvironment : ImageEnvironment where
  validators := ⟨fun _ _ => true, fun _ => true, fun _ => 0⟩
  decodeInvocation := fun value =>
    if getAtPath value [.key "command"] = some (.str "image.layer.update") then some value
    else none
  commandPatches := updateLayer

def groupLayer (id name : String) : String × Json :=
  (id, .obj [("id", .str id), ("kind", .str "group"), ("name", .str name), ("visible", .bool true),
    ("opacity", .num 65535), ("transform", .obj [("a", .num 1000000), ("b", .num 0),
      ("c", .num 0), ("d", .num 1000000), ("tx", .num 0), ("ty", .num 0)]),
    ("blendMode", .str "normal"), ("clipping", .str "none"), ("maskIds", .arr []),
    ("childLayerIds", .arr [])])

def layeredDocument : Json :=
  .obj [("format", .str "dinkster-image"), ("formatVersion", .num 2), ("lineage", .str "shared"),
    ("canvas", .obj [("width", .num 8), ("height", .num 6), ("colorSpace", .str "srgb"),
      ("channelDepth", .num 8), ("compositing", .str "premultiplied-alpha")]),
    ("allocation", .obj [("nextOrdinal", .num 3)]),
    ("rootLayerIds", .arr [.str "l1", .str "l2"]),
    ("layers", .obj [groupLayer "l1" "Sky", groupLayer "l2" "Sea"]),
    ("masks", .obj []), ("resources", .obj [])]

def joins (client : Nat) (actorId : String) (world : ImageWorld Nat) :
    Option (ImageWorldAction Nat) :=
  (world.server.documentAt layerEnvironment world.server.revision).map fun document =>
    .join client actorId 200 world.server.revision document

def acts (client : Nat) (action : ImageAction Nat) (_ : ImageWorld Nat) :
    Option (ImageWorldAction Nat) :=
  some (.act client action)

def updates (client : Nat) (layerId property : String) (value : Json) :
    ImageWorld Nat → Option (ImageWorldAction Nat) :=
  acts client (.dispatch [("command", .str "image.layer.update"),
    ("params", .obj [("layerId", .str layerId), (property, value)])])

def delivers (client slot : Nat) (world : ImageWorld Nat) : Option (ImageWorldAction Nat) :=
  world.server.log[slot]?.map fun op => .act client (.opEvent op)

/-- Alice renames a layer and takes it back, while Bob changes its opacity: her undo no longer
fits and is dropped by the rebase for his operation. -/
def droppedUndo : List (ImageWorld Nat → Option (ImageWorldAction Nat)) :=
  [joins 0 "alice", joins 1 "bob", updates 0 "l1" "name" (.str "Dawn"), acts 0 .returned,
    acts 0 (.replay .undo), acts 0 .returned, updates 1 "l1" "opacity" (.num 100),
    acts 1 .returned, acts 1 .pumpTurn, fun _ => some (.process 1 0), delivers 0 0]

/-- Her conflict callback returns, and so do the observers of the rebased document and of the
operation. -/
def returnedUndo : List (ImageWorld Nat → Option (ImageWorldAction Nat)) :=
  droppedUndo ++ [acts 0 .returned, acts 0 .returned, acts 0 .returned]

/-- Her conflict callback renames the other layer first. -/
def disturbedUndo : List (ImageWorld Nat → Option (ImageWorldAction Nat)) :=
  droppedUndo ++ [updates 0 "l2" "name" (.str "Lake"), acts 0 .returned, acts 0 .returned,
    acts 0 .returned, acts 0 .returned]

/-- Alice shows her renamed layer over what Bob did. -/
theorem faithful_of_returned_callback :
    ∃ (final : ImageWorld Nat) (session : ImageSession Nat), final.sessions 0 = some session ∧
      (session.frames.isEmpty = true ∧ session.pending.length = 1 ∧ session.confirmedRevision = 1) ∧
      Faithful layerEnvironment final := by
  obtain ⟨actions, final, reached, along, passed⟩ :=
    @run_of_enact_any (ImageWorld Nat) (ImageWorldAction Nat) (ImageWorld.step layerEnvironment)
      (fun world action => honestTest layerEnvironment world action &&
        undisturbedTest layerEnvironment world action) (start layeredDocument) returnedUndo
      (fun final => (final.sessions 0).any fun (session : ImageSession Nat) =>
        decide (session.frames.isEmpty = true ∧ session.pending.length = 1 ∧
          session.confirmedRevision = 1)) (by decide +kernel)
  obtain ⟨session, joined, counted⟩ := (Option.any_eq_true _ _).mp passed
  refine ⟨final, session, joined, of_decide_eq_true counted,
    faithful_of_undisturbed (along_mono ?_ along) reached⟩
  intro world action admitted
  obtain ⟨honest, quiet⟩ := Bool.and_eq_true_iff.mp admitted
  exact ⟨honest_of_test honest, undisturbed_of_test quiet⟩

/-- An intention that a conflict callback queues inside a rebase is pending and is not
shown. -/
theorem disturbed_rebase_hides_intention :
    ∃ (actions : List (ImageWorldAction Nat)) (final : ImageWorld Nat),
      Along (ImageWorld.step layerEnvironment) (Honest layerEnvironment) (start layeredDocument)
        actions ∧
      run (ImageWorld.step layerEnvironment) (start layeredDocument) actions = some final ∧
      ¬ Faithful layerEnvironment final := by
  obtain ⟨actions, final, reached, along, passed⟩ :=
    @run_of_enact_any (ImageWorld Nat) (ImageWorldAction Nat) (ImageWorld.step layerEnvironment)
      (honestTest layerEnvironment) (start layeredDocument) disturbedUndo
      (fun final => (final.sessions 0).any fun (session : ImageSession Nat) =>
        session.frames.isEmpty &&
          !decide (view layerEnvironment session.confirmed session.pending =
            some session.optimistic)) (by decide +kernel)
  obtain ⟨session, joined, compared⟩ := (Option.any_eq_true _ _).mp passed
  obtain ⟨rested, differs⟩ := Bool.and_eq_true_iff.mp compared
  refine ⟨actions, final, along_mono (fun _ _ => honest_of_test) along, reached, ?_⟩
  intro faithful
  have shown := faithful.shown 0 session joined (List.isEmpty_iff.mp rested)
  rw [shown, decide_eq_true rfl] at differs
  exact Bool.false_ne_true differs

end ImageWorld

end Dinkster.Image
