import Dinkster.Collab.Records

/-!
# What a replay of history overwrites

A replay of history is checked against the document it is asked for on: it finds there
whatever its record captured, or it is dropped as a conflict.  The patch that passes the
check is then an intention like any other.  A rebase executes it again without the check,
and what a foreign operation has meanwhile put in its place is overwritten.

A replay restores its record on the server exactly as it did where it was last executed,
so it overwrites nothing in a run whose rebases find it intact.
-/

namespace Dinkster.Collab

open Library Format Commands Option

variable {Client Authority : Type}

/-- A replay of history carries out what its record holds, on some copy of the
document. -/
def Standard.restoring : Standard :=
  fun value recorded patch => ∀ ops, recorded = some ops →
    ∃ ground : Json, ground.Plain ∧ ground.value = value ∧ Restorable ground ops patch

theorem Standard.admitsCommands_restoring (env : SessionEnvironment Authority) :
    Standard.restoring.AdmitsCommands env := by
  intro ground next context invocation forward inverse diagnostics _ _ _ ops impossible
  simp at impossible

variable (again : Replica.Reexecution Client)

/-- A replay that is about to be executed again finds what its record captured. -/
def Replica.Reexecution.Intact : Prop :=
  ∀ recorded patch, again.entry.recorded = some recorded →
    again.entry.invocation.params = sessionPatchParams patch →
    Restorable again.ground recorded patch

/-- Whether a replay is intact, as far as that can be decided. -/
def Replica.Reexecution.intactTest : Bool :=
  again.entry.recorded.all fun recorded =>
    decide (again.entry.invocation.params = sessionPatchParams again.entry.predicted) &&
      restorableTest again.ground recorded again.entry.predicted

theorem Replica.Reexecution.intact_of_test {again : Replica.Reexecution Client}
    (passes : again.intactTest = true) : again.Intact := by
  intro recorded patch replays params
  simp only [intactTest, replays, all_some, Bool.and_eq_true, decide_eq_true_eq] at passes
  obtain ⟨predicted, restores⟩ := passes
  obtain rfl := sessionPatchParams_injective (params.symm.trans predicted)
  exact restorable_of_test restores

namespace World

variable [DecidableEq Client]

/-- No replay of history is executed again on a document that does not hold what its
record captured. -/
def Intact (env : SessionEnvironment Authority) (world : World Client) : WorldAction Client → Prop
  | .act client action =>
    ∀ session ∈ world.sessions client,
      session.RebasesMeet Replica.Reexecution.Intact env action
  | _ => True

/-- Whether a step finds replays intact, as far as that can be decided. -/
def intactTest (env : SessionEnvironment Authority) (world : World Client) :
    WorldAction Client → Bool
  | .act client action =>
    (world.sessions client).all fun session =>
      session.rebasesTest Replica.Reexecution.intactTest env action
  | _ => true

theorem intact_of_test {env : SessionEnvironment Authority} {world : World Client}
    {action : WorldAction Client} (passes : world.intactTest env action = true) :
    world.Intact env action := by
  cases action with
  | act client action =>
    intro session joined
    simp only [intactTest, show world.sessions client = some session from joined,
      all_some] at passes
    exact Session.rebasesMeet_of_test (fun _ => Replica.Reexecution.intact_of_test) passes
  | join client actorId maxUndo revision document | process client posting => trivial

end World

section Restoring

variable {env : SessionEnvironment Authority}

theorem registry_sessionPatch (env : SessionEnvironment Authority) :
    env.registry.commands sessionPatchId = some (sessionPatchCommand Authority) := by
  simp [SessionEnvironment.registry]

variable {recorded : List PatchOp}

theorem restorable_of_replayed {ground : Json} {forward : List PatchOp} (plain : ground.Plain)
    (recordedPlain : ∀ op ∈ recorded, op.Plain) (changed : forward ≠ [])
    (replayed : Replayed env ground recorded forward) :
    Restorable ground recorded (toWirePatch forward) := by
  obtain ⟨result, applied, actor, stamped, next, inverse, diagnostics, replayed, stamps,
    executed⟩ := replayed
  obtain ⟨restorable, appliedPlain⟩ := restorable_of_replayHistoryOps plain recordedPlain replayed
  have wires := plain_toWirePatch appliedPlain
  obtain ⟨surviving, found, restores⟩ := restorable
  obtain ⟨after, applies⟩ := applied_of_restores restores
  have repeated := execute_sessionPatch (registry_sessionPatch env)
    (Replica.command_of_stamp stamps)
    (Replica.params_of_stamp (plain_sessionPatchParams wires) stamps) wires applies executed changed
  rw [repeated]
  exact ⟨surviving, found, restores⟩

theorem restorable_of_executed {again : Replica.Reexecution Client}
    (faithful : again.entry.Faithful) (executed : again.Executed env) (intact : again.Intact)
    (replays : again.entry.recorded = some recorded) :
    Restorable again.ground recorded (toWirePatch again.forward) := by
  obtain ⟨_, command, patch, params, wires⟩ := faithful recorded replays
  obtain ⟨surviving, found, restores⟩ := intact recorded patch replays params
  obtain ⟨after, applies⟩ := applied_of_restores restores
  obtain ⟨oldDoc, next, inverse, diagnostics, runs⟩ := executed.executed
  rw [Replica.rebasedInvocation_of_patch command] at runs
  have repeated := execute_sessionPatch (registry_sessionPatch env) command params wires applies
    runs executed.changed
  rw [repeated]
  exact ⟨surviving, found, restores⟩

theorem World.upholds_restoring [DecidableEq Client] {world : World Client}
    {action : WorldAction Client} (kept : World.Kept world) (intact : World.Intact env world action) :
    World.Upholds Standard.restoring env world action := by
  cases action with
  | join client actorId maxUndo revision document | process client posting => trivial
  | act client action =>
    intro session joined
    obtain ⟨kept, filed⟩ := kept client session joined
    constructor
    · intro direction _ reference rest record forward stacked found changed replayed ops same
      cases same
      have recorded :=
        (filed.replica.records record (List.mem_of_getElem? found)).replayed direction
      exact ⟨session.replica.doc, kept.doc, rfl,
        restorable_of_replayed kept.doc recorded changed replayed⟩
    · apply (intact session joined).mono kept.confirmed
      intro again pending executed intact recorded replays ops same
      cases same
      exact ⟨again.ground, executed.ground, rfl, restorable_of_executed
        (filed.replica.faithful again.entry pending) executed intact replays⟩

end Restoring

/-- In every honest and lossless run whose rebases find replays intact, an operation of
the log that undoes or redoes finds, in a copy of the document before it, what its history
record captured at every path it touches. -/
theorem World.replays_restore [DecidableEq Client] {env : SessionEnvironment Authority}
    {initial : Json} (plain : initial.Plain) {actions : List (WorldAction Client)}
    {final : World Client}
    (along : Along (World.step env) (fun world action => World.Honest world action ∧
      World.Lossless env world action ∧ World.Intact env world action)
      (World.start initial) actions)
    (reached : run (World.step env) (World.start initial) actions = some final)
    {client : Client} {session : Session Client} (joined : final.sessions client = some session)
    {slot : Nat} {op : CollabServerOp Client} (logged : final.server.log[slot]? = some op)
    {attempt : SubmittedAttempt Client} (sent : attempt ∈ session.replica.sent)
    (same : attempt.opId = op.opId) {recorded : List PatchOp}
    (replays : attempt.recorded = some recorded) :
    ∃ folded ground patch, final.server.documentAt slot = .ok folded ∧
      ground.value = folded.value ∧ op.patch = wirePatchJson patch ∧
      Restorable ground recorded patch := by
  obtain ⟨⟨log, consistent⟩, _⟩ := World.consistent_filed_run
    (Standard.admitsCommands_restoring env) plain (fun _ _ => World.upholds_restoring) along reached
  obtain ⟨folded, patch, reaches, wired, meets⟩ := consistent.logged_meets joined logged sent same
  obtain ⟨ground, _, value, restorable⟩ := meets recorded replays
  exact ⟨folded, ground, patch, reaches, value, wired, restorable⟩

/-- Alice dispatches a command and undoes it, and before the undo is committed Bob's
operation reaches the server first. -/
def overtakenUndo (alices bobs : CommandInvocation) : List (World Nat → Option (WorldAction Nat)) :=
  bothJoin ++ submits 0 alices ++
    [World.processes 0 0, World.answers 0 0, World.delivers 1 0] ++ submits 1 bobs ++
    [World.processes 1 0, World.acts 0 (.replay .undo), World.acts 0 .returned,
      World.delivers 0 1, World.acts 0 .pumpTurn, World.processes 0 1]

/-- The undo of Alice, as its history record captured it. -/
def aliceUndone : List PatchOp :=
  [.replace (sourceValuePath "v1") .null (.num 1)]

/-- What the undo is committed as. -/
def restoresNull : List WirePatchOp :=
  [.replace (sourceValuePath "v1") .null]

/-- Whether an operation is what a session sent to carry out Alice's undo. -/
def carriesOutUndo (session : Session Nat) (op : CollabServerOp Nat) : Bool :=
  session.replica.sent.any fun attempt =>
    decide (attempt.opId = op.opId ∧ attempt.recorded = some aliceUndone ∧
      op.patch = wirePatchJson restoresNull)

/-- Bob sets another value, and Alice's undo restores what she had overwritten. -/
theorem World.overtaken_undo_restores :
    ∃ (final : World Nat) (op : CollabServerOp Nat) (folded ground : Json)
      (patch : List WirePatchOp), final.server.log[2]? = some op ∧
      final.server.documentAt 2 = .ok folded ∧ ground.value = folded.value ∧
      op.patch = wirePatchJson patch ∧ Restorable ground aliceUndone patch := by
  obtain ⟨actions, final, reached, along, passed⟩ := @run_of_enact_any (World Nat) (WorldAction Nat)
    (World.step builtinEnvironment) (fun world action =>
      World.honestTest world action && (World.losslessTest builtinEnvironment world action &&
        World.intactTest builtinEnvironment world action))
    (World.start sourceDocument)
    (overtakenUndo (setValueSource "v1" (.num 1)) (setValueSource "v2" (.num 2)))
    (fun final => (final.sessions 0).any fun (session : Session Nat) =>
      (final.server.log[2]?).any (carriesOutUndo session)) (by decide +kernel)
  obtain ⟨session, joined, logs⟩ := (any_eq_true _ _).mp passed
  obtain ⟨op, logged, carries⟩ := (any_eq_true _ _).mp logs
  obtain ⟨attempt, sent, sends⟩ := List.any_eq_true.mp carries
  obtain ⟨same, recorded, _⟩ := of_decide_eq_true sends
  have guarded : Along (World.step builtinEnvironment) (fun world action =>
      World.Honest world action ∧ World.Lossless builtinEnvironment world action ∧
        World.Intact builtinEnvironment world action) (World.start sourceDocument) actions := by
    refine along_mono (fun world action admitted => ?_) along
    obtain ⟨honest, others⟩ := Bool.and_eq_true_iff.mp admitted
    obtain ⟨lossless, intact⟩ := Bool.and_eq_true_iff.mp others
    exact ⟨World.honest_of_test honest, World.lossless_of_test lossless,
      World.intact_of_test intact⟩
  obtain ⟨folded, ground, patch, restores⟩ := World.replays_restore plain_sourceDocument guarded
    reached joined logged sent same recorded
  exact ⟨final, op, folded, ground, patch, logged, restores⟩

/-- On a document whose value source holds something else, no patch carries out Alice's
undo. -/
theorem not_restorable_aliceUndone {ground : Json} {patch : List WirePatchOp}
    (held : optionValue (getAtPath ground (sourceValuePath "v1")) = (Json.num 2).value) :
    ¬ Restorable ground aliceUndone patch := by
  rintro ⟨surviving, _, restores⟩
  cases restores with
  | skip cursor _ => exact absurd cursor (by decide)
  | replay _ holds _ _ =>
    have verbatim : classify surviving (.replace (sourceValuePath "v1") .null (.num 1)) =
        .verbatim := rfl
    rw [holdsRecorded, verbatim] at holds
    obtain ⟨found, present, equal⟩ := (any_eq_true _ _).mp holds
    rw [show getAtPath ground (sourceValuePath "v1") = some found from present] at held
    cases found <;> simp_all [jsonSameValue, optionValue, Json.value]

/-- Bob sets the value that Alice set, and Alice's undo, asked for before she hears of it,
overwrites his. -/
theorem World.undo_overwrites_foreign_edit :
    ∃ (actions : List (WorldAction Nat)) (final : World Nat) (session : Session Nat)
      (op : CollabServerOp Nat) (attempt : SubmittedAttempt Nat) (folded : Json),
      Along (World.step builtinEnvironment) (fun world action => World.Honest world action ∧
        World.Lossless builtinEnvironment world action) (World.start sourceDocument) actions ∧
      run (World.step builtinEnvironment) (World.start sourceDocument) actions = some final ∧
      final.sessions 0 = some session ∧ final.server.log[2]? = some op ∧
      attempt ∈ session.replica.sent ∧ attempt.opId = op.opId ∧
      attempt.recorded = some aliceUndone ∧ op.patch = wirePatchJson restoresNull ∧
      final.server.documentAt 2 = .ok folded ∧
      getAtPath folded (sourceValuePath "v1") = some (.num 2) ∧
      ∀ ground patch, ground.value = folded.value → op.patch = wirePatchJson patch →
        ¬ Restorable ground aliceUndone patch := by
  obtain ⟨actions, final, reached, along, passed⟩ := @run_of_enact_any (World Nat) (WorldAction Nat)
    (World.step builtinEnvironment) (fun world action =>
      World.honestTest world action && World.losslessTest builtinEnvironment world action)
    (World.start sourceDocument)
    (overtakenUndo (setValueSource "v1" (.num 1)) (setValueSource "v1" (.num 2)))
    (fun final => (final.sessions 0).any fun (session : Session Nat) =>
      (final.server.log[2]?).any fun op => carriesOutUndo session op &&
        (final.server.documentAt 2).toOption.any fun (folded : Json) =>
          decide (getAtPath folded (sourceValuePath "v1") = some (.num 2))) (by decide +kernel)
  obtain ⟨session, joined, logs⟩ := (any_eq_true _ _).mp passed
  obtain ⟨op, logged, checked⟩ := (any_eq_true _ _).mp logs
  obtain ⟨carries, read⟩ := Bool.and_eq_true_iff.mp checked
  obtain ⟨attempt, sent, sends⟩ := List.any_eq_true.mp carries
  obtain ⟨same, recorded, patch⟩ := of_decide_eq_true sends
  obtain ⟨folded, fold, holds⟩ := (any_eq_true _ _).mp read
  have held := of_decide_eq_true holds
  refine ⟨actions, final, session, op, attempt, folded, along_mono ?_ along, reached, joined,
    logged, sent, same, recorded, patch, toOption_eq_some fold, held, ?_⟩
  · intro world action admitted
    obtain ⟨honest, lossless⟩ := Bool.and_eq_true_iff.mp admitted
    exact ⟨World.honest_of_test honest, World.lossless_of_test lossless⟩
  · intro ground patch value _
    apply not_restorable_aliceUndone
    rw [getAtPath_value, value, ← getAtPath_value, held]
    rfl

end Dinkster.Collab
