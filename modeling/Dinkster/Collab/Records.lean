import Dinkster.Collab.Agreement
import Dinkster.Commands.Restoration

/-!
# What the records of a session hold

The operations that a session has recorded list each property once, and so do those
that its pending replays of history repeat.  A replay of history stays what it was
queued as: a patch command with the patch that the request made of the record.
-/

namespace Dinkster.Collab

open Library Format Commands List Option

variable {Client Authority : Type}

structure HistoryRecord.Plain (record : HistoryRecord) : Prop where
  forward : ∀ op ∈ record.forward, op.Plain
  inverse : ∀ op ∈ record.inverse, op.Plain

theorem HistoryRecord.Plain.replayed {record : HistoryRecord} (plain : record.Plain)
    (direction : HistoryDirection) : ∀ op ∈ record.replayed direction, op.Plain := by
  cases direction with
  | undo => exact plain.inverse
  | redo => exact plain.forward

structure PendingEntry.Repeats (entry : PendingEntry Client) (recorded : List PatchOp) : Prop where
  plain : ∀ op ∈ recorded, op.Plain
  command : entry.invocation.command = sessionPatchId
  patch : ∃ patch, entry.invocation.params = sessionPatchParams patch ∧ ∀ wire ∈ patch, wire.Plain

/-- An intention that repeats what it was asked to, if it replays history. -/
def PendingEntry.Faithful (entry : PendingEntry Client) : Prop :=
  ∀ recorded, entry.recorded = some recorded → entry.Repeats recorded

/-- A session whose records are plain and whose replays are faithful. -/
structure Replica.Filed (replica : Replica Client) : Prop where
  records : ∀ record ∈ replica.records, record.Plain
  faithful : ∀ entry ∈ replica.pending, entry.Faithful

theorem plain_of_execute {env : Environment Authority}
    {context : CommandExecutionContext Authority} {doc next : Json}
    {invocation : CommandInvocation} {forward inverse : List PatchOp}
    {diagnostics : List Diagnostic} (plain : doc.Plain)
    (executed : DocumentStore.execute env context doc invocation =
      .ok next forward inverse diagnostics) :
    next.Plain ∧ (⟨forward, inverse⟩ : HistoryRecord).Plain := by
  obtain ⟨records, rfl, -⟩ := DocumentStore.execute_ok executed
  obtain ⟨nextPlain, forwardPlain⟩ := records.plain plain
  exact ⟨nextPlain, forwardPlain, plain_invertOps forwardPlain⟩

namespace Replica

section Filing

variable {env : SessionEnvironment Authority} {replica next : Replica Client}

/-- A session that has no new records and whose intentions are as they were. -/
theorem Filed.congr (filed : replica.Filed) (records : next.records = replica.records)
    (pending : ∀ entry ∈ next.pending, ∃ before ∈ replica.pending,
      entry.recorded = before.recorded ∧ entry.invocation = before.invocation) : next.Filed := by
  constructor
  · rw [records]
    exact filed.records
  · intro entry member recorded replays
    obtain ⟨before, earlier, sameRecorded, sameInvocation⟩ := pending entry member
    obtain ⟨plain, command, patch⟩ :=
      filed.faithful before earlier recorded (sameRecorded.symm.trans replays)
    rw [← sameInvocation] at command patch
    exact ⟨plain, command, patch⟩

theorem Filed.of_pending (filed : replica.Filed) (records : next.records = replica.records)
    (pending : ∀ entry ∈ next.pending, entry ∈ replica.pending) : next.Filed :=
  filed.congr records fun entry member => ⟨entry, pending entry member, rfl, rfl⟩

theorem Filed.of_bare (filed : replica.Filed) (records : next.records = replica.records)
    (alike : next.bare = replica.bare) : next.Filed := by
  refine filed.congr records fun entry member => ?_
  have inside : { entry with record := none } ∈ replica.bare.pending := by
    rw [← alike]
    exact mem_map_of_mem member
  obtain ⟨before, earlier, same⟩ := mem_map.mp inside
  exact ⟨before, earlier, (congrArg PendingEntry.recorded same).symm,
    (congrArg PendingEntry.invocation same).symm⟩

variable {invocation : CommandInvocation}

theorem filed_enqueue (filed : replica.Filed) (store : DocumentStore)
    {replayed : Option (HistoryDirection × List PatchOp)} (forward : List PatchOp)
    (repeats : ∀ direction recorded, replayed = some (direction, recorded) →
      (∀ op ∈ recorded, op.Plain) ∧ invocation.command = sessionPatchId ∧
        ∃ patch, invocation.params = sessionPatchParams patch ∧ ∀ wire ∈ patch, wire.Plain) :
    (replica.enqueue store invocation replayed forward).Filed := by
  refine ⟨filed.records, forall_mem_concat filed.faithful ?_⟩
  intro recorded replays
  obtain ⟨⟨direction, ops⟩, asked, rfl⟩ := map_eq_some_iff.mp replays
  obtain ⟨plain, command, patch⟩ := repeats direction ops asked
  exact ⟨plain, command, patch⟩

theorem params_of_stamp {actorId : String} {stamped : CommandInvocation}
    (plain : invocation.params.Plain) (stamps : stamp actorId invocation = .ok stamped) :
    stamped.params = invocation.params := by
  have text (value : String) : (Json.str value).Plain := trivial
  have whole : (invocationJson actorId invocation).Plain :=
    plain_obj_iff.mpr ⟨by simp [fieldKeys], by simp [text, plain]⟩
  simp only [stamp, bind_eq_ok, pure_eq_ok] at stamps
  obtain ⟨owned, accepted, rfl⟩ := stamps
  obtain ⟨-, rfl⟩ := (ownJson_eq_ok_iff whole).mp accepted
  simp [invocationJson, ownChild, getField]

/-- The request for a replay queues a faithful intention. -/
theorem filed_beginReplay (filed : replica.Filed) (plain : replica.doc.Plain)
    (direction : HistoryDirection) : (replica.beginReplay env direction).1.Filed := by
  have popped (stack : List Nat) : (replica.setStack direction stack).Filed := by
    refine filed.of_bare ?_ (bare_setStack replica direction stack)
    cases direction <;> rfl
  have begins := begins_beginReplay env replica direction
  generalize (replica.beginReplay env direction).1 = next,
    (replica.beginReplay env direction).2 = tied at begins ⊢
  cases begins with
  | nothing _ => exact filed
  | @dropped reference rest _ conflicts => exact ⟨(popped rest).records, (popped rest).faithful⟩
  | @clamped reference rest _ =>
    refine (popped rest).of_bare ?_ (bare_pushOpposite _ direction reference)
    cases direction <;> rfl
  | @queued reference rest record result applied stamped doc forward inverse diagnostics stacked
      found replayed stamps executed changed =>
      have recordPlain := filed.records record (mem_of_getElem? found)
      have appliedPlain :=
        (restorable_of_replayHistoryOps plain (recordPlain.replayed direction) replayed).2
      have wires := plain_toWirePatch appliedPlain
      apply filed_enqueue (popped rest)
      rintro _ _ ⟨rfl, rfl⟩
      exact ⟨recordPlain.replayed direction, command_of_stamp stamps, toWirePatch applied,
        params_of_stamp (plain_sessionPatchParams wires) stamps, wires⟩

/-- Tying a record changes nothing else of an intention. -/
theorem filed_tie {tied : Replica Client} {record : Nat} (filed : replica.Filed)
    (found : replica.tie record = some tied) : tied.Filed := by
  refine filed.of_bare ?_ (bare_tie found)
  unfold tie at found
  split at found
  · simp at found
  · cases found
    rfl

theorem filed_finishDispatch {forward inverse : List PatchOp} (filed : replica.Filed)
    (plain : (⟨forward, inverse⟩ : HistoryRecord).Plain) :
    (replica.finishDispatch forward inverse).Filed := by
  unfold finishDispatch
  dsimp only
  split
  · exact filed
  · rename_i tied found
    have tiedFiled := filed_tie filed found
    exact ⟨forall_mem_concat tiedFiled.records plain, tiedFiled.faithful⟩

theorem filed_finishReplay (filed : replica.Filed) (direction : HistoryDirection) (record : Nat) :
    (replica.finishReplay direction record).Filed := by
  unfold finishReplay
  split
  · exact filed
  · rename_i tied found
    refine (filed_tie filed found).of_bare ?_ (bare_pushOpposite tied direction record)
    cases direction <;> rfl

variable {oldDoc : Option Json}

theorem rebasedInvocation_of_patch {doc : Json} (patch : invocation.command = sessionPatchId) :
    rebasedInvocation env oldDoc doc invocation = invocation := by
  unfold rebasedInvocation
  simp [SessionEnvironment.registry, patch, sessionPatchCommand]

theorem filed_reexecute (filed : replica.Filed) (plain : replica.doc.Plain)
    {entry : PendingEntry Client} (faithful : entry.Faithful) (oldDoc : Option Json) :
    (replica.reexecute env oldDoc entry).1.Filed ∧
      (replica.reexecute env oldDoc entry).1.doc.Plain := by
  rcases reexecute_cases env oldDoc replica entry with ⟨_, conflicts, dropped⟩ |
    ⟨doc, forward, inverse, diagnostics, executed, changed, survived⟩
  · rw [dropped]
    cases record : entry.record with
    | none => exact ⟨filed, plain⟩
    | some reference => exact ⟨⟨filed.records, filed.faithful⟩, plain⟩
  · rw [survived]
    obtain ⟨docPlain, recordPlain⟩ := plain_of_execute plain executed
    refine ⟨⟨?_, forall_mem_concat filed.faithful ?_⟩, docPlain⟩
    · intro record member
      simp only [survive, rewriteRecord] at member
      split at member
      · exact filed.records record member
      · rcases mem_or_eq_of_mem_set member with before | rewritten
        · exact filed.records record before
        · rw [rewritten]
          split
          · exact ⟨recordPlain.inverse, recordPlain.forward⟩
          · exact recordPlain
    · intro recorded replays
      obtain ⟨opsPlain, command, patch⟩ := faithful recorded replays
      refine ⟨opsPlain, ?_, ?_⟩
      · exact (command_rebasedInvocation _ _ _).trans command
      · show ∃ patch, (rebasedInvocation env oldDoc replica.doc entry.invocation).params = _ ∧ _
        rw [rebasedInvocation_of_patch command]
        exact patch

theorem filed_rebaseLoop (filed : replica.Filed) (plain : replica.doc.Plain)
    {entries : List (PendingEntry Client × Bool)}
    (faithful : ∀ marked ∈ entries, marked.1.Faithful) (oldDoc : Option Json) :
    (rebaseLoop env oldDoc replica entries).1.Filed := by
  induction entries generalizing oldDoc replica with
  | nil => exact filed
  | cons marked rest ih =>
    obtain ⟨entry, skipped⟩ := marked
    have later : ∀ marked ∈ rest, marked.1.Faithful := fun marked member =>
      faithful marked (mem_cons_of_mem _ member)
    cases skipped with
    | true => exact ih filed plain later _
    | false =>
      rw [rebaseLoop_cons_false]
      obtain ⟨nextFiled, nextPlain⟩ :=
        @filed_reexecute _ _ env _ filed plain entry (faithful _ mem_cons_self) oldDoc
      exact ih nextFiled nextPlain later _

theorem filed_rebase (filed : replica.Filed) {oldGround : Json}
    {skipped : Nat → PendingEntry Client → Bool}
    (rebased : replica.rebase env oldGround skipped = .done next ∨
      replica.rebase env oldGround skipped = .threw next) : next.Filed := by
  rcases rebased with done | threw
  · obtain ⟨store, created, made⟩ := rebase_eq_done done
    have plain : store.currentDoc.Plain := by
      unfold createStore DocumentStore.create at created
      cases accepted : ownJson replica.confirmed with
      | error reason => simp [accepted] at created
      | ok owned =>
        rw [accepted] at created
        cases created
        exact (ownJson_clean accepted).1
    have start : ({ replica with store, pending := [] } : Replica Client).Filed :=
      ⟨filed.records, by simp⟩
    have ended := @filed_rebaseLoop _ _ env _ start plain
      (replica.pending.mapIdx fun position entry => (entry, skipped position entry))
      (fun marked member => by
        obtain ⟨position, found, _⟩ := getElem?_of_mem_mapIdx member
        exact filed.faithful _ (mem_of_getElem? found)) (some oldGround)
    rw [made]
    exact ⟨ended.records, ended.faithful⟩
  · obtain ⟨rfl, _⟩ := rebase_eq_threw threw
    exact ⟨filed.records, by simp⟩

theorem filed_ingestOrdered [DecidableEq Client] (filed : replica.Filed)
    {op : CollabServerOp Client} (ingested : replica.ingestOrdered env op = .done next ∨
      replica.ingestOrdered env op = .threw next) : next.Filed := by
  obtain ⟨_, made⟩ := ingestOrdered_cases ingested
  cases made with
  | acknowledged pending same acked =>
    unfold ack at acked
    split at acked
    · simp at acked
    · cases acked
      refine filed.of_pending rfl fun entry member => ?_
      rw [pending]
      exact mem_cons_of_mem _ member
  | @absorbed doc record skipped final rebases checked skips rebased told =>
    have advanced : ((replica.advance doc op.revision).removeRecord record).Filed := by
      cases record <;> exact ⟨filed.records, filed.faithful⟩
    have ended := filed_rebase advanced rebased
    obtain ⟨feed, rfl⟩ := told
    exact ⟨ended.records, ended.faithful⟩

theorem filed_adoptSnapshot (filed : replica.Filed) {revision : Nat} {document : Json}
    (adopted : replica.adoptSnapshot env revision document = .done next ∨
      replica.adoptSnapshot env revision document = .threw next) : next.Filed := by
  obtain ⟨final, rebased, conflicts, rfl⟩ := adoptSnapshot_cases adopted
  have advanced : ((replica.advance document revision).clearHistory).Filed :=
    ⟨filed.records, filed.faithful⟩
  have ended := filed_rebase advanced rebased
  exact ⟨ended.records, ended.faithful⟩

theorem filed_submitHead [DecidableEq Client] (filed : replica.Filed)
    {attempt : SubmittedAttempt Client} (submitted : replica.submitHead = some (next, attempt)) :
    next.Filed := by
  unfold submitHead at submitted
  split at submitted
  · simp at submitted
  rename_i head rest pending
  obtain ⟨rfl, -⟩ := Prod.mk.inj (some.inj submitted)
  refine filed.congr rfl fun entry member => ?_
  rw [pending]
  rcases mem_cons.mp member with rfl | later
  · exact ⟨head, mem_cons_self, rfl, rfl⟩
  · exact ⟨entry, mem_cons_of_mem _ later, rfl, rfl⟩

/-- What is known of an intention that a rebase executes again. -/
structure Reexecution.Executed (env : SessionEnvironment Authority) (again : Reexecution Client) :
    Prop where
  ground : again.ground.Plain
  changed : again.forward ≠ []
  executed : ∃ oldDoc next inverse diagnostics,
    DocumentStore.execute env.registry .sharedReplay again.ground
      (rebasedInvocation env oldDoc again.ground again.entry.invocation) =
        .ok next again.forward inverse diagnostics

/-- An intention that a rebase executes again comes from the queue. -/
theorem mem_reexecutions {doc : Json} {entries : List (PendingEntry Client × Bool)}
    (plain : doc.Plain) {again : Reexecution Client}
    (member : again ∈ reexecutions env oldDoc doc entries) :
    (∃ marked ∈ entries, marked.1 = again.entry) ∧ again.Executed env := by
  induction entries generalizing oldDoc doc with
  | nil => simp [reexecutions] at member
  | cons marked rest ih =>
    obtain ⟨entry, skipped⟩ := marked
    have later {oldDoc : Option Json} {doc : Json} (plain : doc.Plain)
        (member : again ∈ reexecutions env oldDoc doc rest) :
        (∃ marked ∈ (entry, skipped) :: rest, marked.1 = again.entry) ∧ again.Executed env := by
      obtain ⟨⟨marked, inside, same⟩, executed⟩ := ih plain member
      exact ⟨⟨marked, mem_cons_of_mem _ inside, same⟩, executed⟩
    rw [reexecutions] at member
    split at member
    · exact later plain member
    rename_i next forward commits
    cases skipped with
    | true => simp at commits
    | false =>
      simp only [Bool.false_eq_true, if_false, recommit] at commits
      split at commits
      · simp at commits
      rename_i following recorded inverse diagnostics executed
      split at commits
      · simp at commits
      rename_i changed
      obtain ⟨rfl, rfl⟩ := Prod.mk.inj (some.inj commits)
      rcases mem_cons.mp member with rfl | inside
      · exact ⟨⟨_, mem_cons_self, rfl⟩, plain, by simpa using changed, oldDoc, following,
          inverse, diagnostics, executed⟩
      · exact later (plain_of_execute plain executed).1 inside

end Filing

end Replica

namespace Session

variable [DecidableEq Client] {env : SessionEnvironment Authority} {session : Session Client}
  {action : SessionAction Client} {property consequence : Replica.Reexecution Client → Prop}

theorem RebasesMeet.mono (meets : session.RebasesMeet property env action)
    (plain : session.replica.confirmed.Plain)
    (follows : ∀ again, again.entry ∈ session.replica.pending → again.Executed env →
      property again → consequence again) : session.RebasesMeet consequence env action := by
  have rebased {ground : Json} (groundPlain : ground.Plain)
      {skipped : Nat → PendingEntry Client → Bool}
      (meets : session.replica.RebaseMeets property env ground skipped) :
      session.replica.RebaseMeets consequence env ground skipped := by
    intro again member
    obtain ⟨⟨marked, inside, same⟩, executed⟩ := Replica.mem_reexecutions groundPlain member
    obtain ⟨position, found, _⟩ := getElem?_of_mem_mapIdx inside
    rw [same] at found
    exact follows again (mem_of_getElem? found) executed (meets again member)
  constructor
  · intro op handed rebases ground checked skipped skips
    have applied := applyOps_of_applyChecked (toOption_eq_some checked)
    exact rebased (plain_of_applyOps plain applied)
      (meets.ingested op handed rebases ground checked skipped skips)
  · intro revision document fetched loaded loads
    exact rebased (env.plain_of_loadDocument loads)
      (meets.adopted revision document fetched loaded loads)

def rebasesTest (test : Replica.Reexecution Client → Bool) (env : SessionEnvironment Authority)
    (session : Session Client) (action : SessionAction Client) : Bool :=
  let passes (ground : Json) (skipped : Nat → PendingEntry Client → Bool) : Bool :=
    (Replica.reexecutions env (some session.replica.confirmed) ground
      (session.replica.pending.mapIdx fun position entry =>
        (entry, skipped position entry))).all test
  ((session.ingestible action).all fun op =>
      !decide (session.replica.Rebases op) ||
        (applyChecked env session.replica.confirmed op.patch).toOption.all fun ground =>
          (session.replica.skippedFor op).all (passes ground)) &&
    match action with
    | .snapshotFetched revision document =>
      (env.loadDocument document).all fun loaded =>
        passes loaded fun _ entry => Replica.ambiguous revision entry
    | _ => true

theorem rebasesMeet_of_test {test : Replica.Reexecution Client → Bool}
    (sound : ∀ again, test again = true → property again)
    (passes : session.rebasesTest test env action = true) :
    session.RebasesMeet property env action := by
  simp only [rebasesTest, Bool.and_eq_true] at passes
  obtain ⟨ingress, snapshot⟩ := passes
  constructor
  · intro op handed rebases ground checked skipped skips again member
    rw [show session.ingestible action = some op from handed] at ingress
    simp only [all_some, rebases, decide_true, Bool.not_true, Bool.false_or] at ingress
    rw [show (applyChecked env session.replica.confirmed op.patch).toOption = some ground from
      checked, all_some, show session.replica.skippedFor op = some skipped from skips,
      all_some] at ingress
    exact sound again (all_eq_true.mp ingress again member)
  · rintro revision document rfl loaded loads again member
    dsimp only at snapshot
    rw [show env.loadDocument document = some loaded from loads, all_some] at snapshot
    exact sound again (all_eq_true.mp snapshot again member)

end Session

/-- A session whose replica is filed and whose waiting calls hold plain operations. -/
structure Session.Filed (session : Session Client) : Prop where
  replica : session.replica.Filed
  frames : ∀ forward inverse, Frame.dispatch forward inverse ∈ session.frames →
    (⟨forward, inverse⟩ : HistoryRecord).Plain

section Runs

variable [DecidableEq Client] {env : SessionEnvironment Authority}

theorem Session.filed_step {session next : Session Client} {action : SessionAction Client}
    (filed : session.Filed) (plain : session.replica.doc.Plain)
    (stepped : session.step env action = some next) : next.Filed := by
  obtain ⟨replica, status, effect, reached⟩ := step_affects stepped
  suffices kept : replica.Filed ∧ ∀ forward inverse, Frame.dispatch forward inverse ∈ next.frames →
      (⟨forward, inverse⟩ : HistoryRecord).Plain by
    refine ⟨?_, kept.2⟩
    rw [reached]
    exact ⟨kept.1.records, kept.1.faithful⟩
  generalize next.frames = frames at effect
  have popped {frame : Frame} {rest : List Frame} (waiting : session.frames = frame :: rest) :
      ∀ forward inverse, Frame.dispatch forward inverse ∈ rest →
        (⟨forward, inverse⟩ : HistoryRecord).Plain := by
    intro forward inverse member
    apply filed.frames
    rw [waiting]
    exact mem_cons_of_mem _ member
  cases effect with
  | quiet => exact ⟨filed.replica, filed.frames⟩
  | dispatched ordinary ran changed =>
    obtain ⟨stamped, prepared, stamps, prepares, executed, rfl⟩ := Replica.run_eq_ok ran changed
    refine ⟨Replica.filed_enqueue filed.replica _ _ (by simp), ?_⟩
    intro forward inverse member
    rcases mem_cons.mp member with same | waiting
    · cases same
      exact (plain_of_execute plain executed).2
    · exact filed.frames forward inverse waiting
  | @refusedReplay direction replica begun =>
    have kept := @Replica.filed_beginReplay _ _ env _ filed.replica plain direction
    rw [begun] at kept
    exact ⟨kept, filed.frames⟩
  | @replayed direction record replica begun =>
    have kept := @Replica.filed_beginReplay _ _ env _ filed.replica plain direction
    rw [begun] at kept
    exact ⟨kept, fun forward inverse member => filed.frames forward inverse (by simpa using member)⟩
  | @finishedDispatch forward inverse rest waiting =>
    have recorded := filed.frames forward inverse (by simp [waiting])
    exact ⟨Replica.filed_finishDispatch filed.replica recorded, popped waiting⟩
  | finishedReplay waiting => exact ⟨Replica.filed_finishReplay filed.replica _ _, popped waiting⟩
  | cleared => exact ⟨⟨filed.replica.records, filed.replica.faithful⟩, filed.frames⟩
  | submitted submitted => exact ⟨Replica.filed_submitHead filed.replica submitted, filed.frames⟩
  | ingested handed ingested =>
    exact ⟨Replica.filed_ingestOrdered filed.replica ingested, filed.frames⟩
  | adopted catching loads adopted =>
    exact ⟨Replica.filed_adoptSnapshot filed.replica adopted, filed.frames⟩

def World.Filed (world : World Client) : Prop :=
  ∀ client session, world.sessions client = some session → session.Filed

variable {standard : Standard}

theorem World.filed_step {sound : Prop} {initial : Json} {world next : World Client}
    {log : WireLog Client} (consistent : Consistent standard sound initial world log)
    (filed : world.Filed) {action : WorldAction Client}
    (stepped : world.step env action = some next) : next.Filed := by
  intro other reached found
  cases action with
  | join client actorId maxUndo revision document =>
    simp only [World.step] at stepped
    split at stepped
    · split at stepped
      · rename_i session created
        cases stepped
        by_cases same : other = client
        · obtain rfl := same
          obtain rfl : session = reached := by simpa using found
          simp only [Session.create, Replica.create, bind_eq_ok, pure_eq_ok] at created
          obtain ⟨replica, ⟨store, _, rfl⟩, rfl⟩ := created
          exact ⟨⟨by simp, by simp⟩, by simp⟩
        · dsimp only at found
          rw [Function.update_of_ne same] at found
          exact filed other reached found
      · simp at stepped
    · simp at stepped
  | act client action =>
    simp only [World.step] at stepped
    split at stepped
    · simp at stepped
    · rename_i session joined
      obtain ⟨after, took, rfl⟩ := map_eq_some_iff.mp stepped
      by_cases same : other = client
      · obtain rfl := same
        obtain rfl : after = reached := by simpa using found
        exact Session.filed_step (filed other session joined)
          (consistent.attached other session joined).backed.kept.doc took
      · dsimp only at found
        rw [Function.update_of_ne same] at found
        exact filed other reached found
  | process client posting =>
    simp only [World.step] at stepped
    split at stepped
    · simp at stepped
    · split at stepped
      · simp at stepped
      · cases stepped
        exact filed other reached found

/-- Every session is in order and filed. -/
def World.Kept (world : World Client) : Prop :=
  ∀ client session, world.sessions client = some session →
    Collab.Kept session.replica ∧ session.Filed

theorem World.consistent_filed_run {initial : Json} {final : World Client}
    {guard : World Client → WorldAction Client → Prop} (admits : standard.AdmitsCommands env)
    (plain : initial.Plain) (upholds : ∀ world action, World.Kept world → guard world action →
      World.Upholds standard env world action) {actions : List (WorldAction Client)}
    (along : Along (World.step env) (fun world action => World.Honest world action ∧
      World.Lossless env world action ∧ guard world action) (World.start initial) actions)
    (reached : run (World.step env) (World.start initial) actions = some final) :
    (∃ log, Consistent standard True initial final log) ∧ final.Filed := by
  refine run_invariant (fun world =>
    (∃ log, Consistent standard True initial world log) ∧ world.Filed) ?_ ?_ along reached
  · rintro world action next ⟨⟨log, consistent⟩, filed⟩ ⟨honest, lossless, guarded⟩ stepped
    have kept : World.Kept world := fun client session joined =>
      ⟨(consistent.attached client session joined).backed.kept, filed client session joined⟩
    exact ⟨consistent_step admits ⟨log, consistent⟩
      ⟨honest, fun _ => lossless, upholds world action kept guarded⟩ stepped,
      World.filed_step consistent filed stepped⟩
  · exact ⟨⟨[], consistent_start plain⟩, by simp [World.Filed, World.start]⟩

end Runs

end Dinkster.Collab
