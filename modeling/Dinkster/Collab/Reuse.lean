import Dinkster.Collab.LocalCommit
import Dinkster.Collab.Overwrites
import Dinkster.Commands.Monotone

/-!
# Cursors over the log of a shared session

Ids are minted from allocation cursors, and the clients of a shared document mint from
cursors of their own, so no operation of the log may lower or remove one.  The request
for an undo or redo merges what it writes with the cursors it finds.  The merged patch is
then executed again as it is, over whatever cursors there are by then: the patch that
writes back a map of cursors removes those which others have added since.

Cursors climb along the log in every run whose replays write securely where they are
executed.
-/

namespace Dinkster.Collab

open Library Format Commands List Option

variable {Client Authority : Type}

def Standard.climbing (cursor : Cursor) : Standard :=
  fun value _ patch => ∀ before after : Json, before.value = value →
    applyWire value patch = some after.value → cursor.Climbs before after

/-- The replay that a session is asked for writes securely for a cursor, if the document
still holds what was recorded. -/
def Replica.ReplaySecures (cursor : Cursor) (replica : Replica Client)
    (direction : HistoryDirection) : Prop :=
  ∀ reference rest record result applied surviving bound,
    replica.stack direction = reference :: rest → replica.records[reference]? = some record →
    replayHistoryOps replica.doc (record.replayed direction) true = .ok ⟨result, applied, none⟩ →
    survivors replica.doc (record.replayed direction) = .ok surviving →
    numberAt replica.doc cursor.keys = some bound → 0 < bound →
    cursor.secure bound ((record.replayed direction).map (cursor.writeOf surviving)) = true

/-- The patch of a replay that is about to be executed again writes securely for a
cursor. -/
def Replica.Reexecution.Secures (cursor : Cursor) (again : Replica.Reexecution Client) : Prop :=
  ∀ recorded patch bound, again.entry.recorded = some recorded →
    again.entry.invocation.params = sessionPatchParams patch →
    numberAt again.ground cursor.keys = some bound → 0 < bound →
    cursor.secure bound (DocumentStore.callWrites (patch.map replayCall)) = true

namespace World

variable [DecidableEq Client]

/-- The replays of history that sessions execute write securely for a cursor: the one that
is asked for, and those that a rebase executes again. -/
def Secures (cursor : Cursor) (env : SessionEnvironment Authority) (world : World Client) :
    WorldAction Client → Prop
  | .act client action => ∀ session ∈ world.sessions client,
      (∀ direction, action = .replay direction →
        session.replica.ReplaySecures cursor direction) ∧
      session.RebasesMeet (Replica.Reexecution.Secures cursor) env action
  | _ => True

end World

/-- Whether the replay that a session is asked for writes securely for a cursor. -/
def Replica.replaySecuresTest (cursor : Cursor) (replica : Replica Client)
    (direction : HistoryDirection) : Bool :=
  (replica.stack direction).head?.all fun reference =>
    (replica.records[reference]?).all fun record =>
      (survivors replica.doc (record.replayed direction)).toOption.all fun surviving =>
        (numberAt replica.doc cursor.keys).all fun bound =>
          cursor.secure bound ((record.replayed direction).map (cursor.writeOf surviving))

variable {cursor : Cursor} {bound : Rat} {graph : String}

theorem Replica.replaySecures_of_test {replica : Replica Client} {direction : HistoryDirection}
    (passes : replica.replaySecuresTest cursor direction = true) :
    replica.ReplaySecures cursor direction := by
  intro reference rest record result applied surviving bound stacked found _ survives number _
  simpa [replaySecuresTest, stacked, found, survives, number, Except.toOption] using passes

/-- Whether the patch of a replay writes securely for a cursor, as far as that can be
decided. -/
def Replica.Reexecution.securesTest (cursor : Cursor) (again : Replica.Reexecution Client) : Bool :=
  again.entry.recorded.isNone ||
    decide (again.entry.invocation.params = sessionPatchParams again.entry.predicted) &&
      (numberAt again.ground cursor.keys).all fun bound =>
        cursor.secure bound (DocumentStore.callWrites (again.entry.predicted.map replayCall))

theorem Replica.Reexecution.secures_of_test {again : Replica.Reexecution Client}
    (passes : again.securesTest cursor = true) : again.Secures cursor := by
  intro recorded patch bound replays params number _
  simp only [securesTest, replays, number, isNone_some, Bool.false_or, all_some,
    Bool.and_eq_true, decide_eq_true_eq] at passes
  obtain ⟨predicted, secure⟩ := passes
  obtain rfl := sessionPatchParams_injective (params.symm.trans predicted)
  exact secure

/-- Whether the replays that sessions execute write securely for a cursor, as far as that
can be decided. -/
def World.securesTest [DecidableEq Client] (cursor : Cursor) (env : SessionEnvironment Authority)
    (world : World Client) : WorldAction Client → Bool
  | .act client action => (world.sessions client).all fun session =>
    (match action with
      | .replay direction => session.replica.replaySecuresTest cursor direction
      | _ => true) &&
    session.rebasesTest (Replica.Reexecution.securesTest cursor) env action
  | _ => true

theorem World.secures_of_test [DecidableEq Client] {env : SessionEnvironment Authority}
    {world : World Client} {action : WorldAction Client}
    (passes : world.securesTest cursor env action = true) : world.Secures cursor env action := by
  cases action with
  | join client actorId maxUndo revision document | process client posting => trivial
  | act client action =>
    intro session joined
    simp only [securesTest, show world.sessions client = some session from joined,
      all_some, Bool.and_eq_true] at passes
    obtain ⟨asked, rebased⟩ := passes
    refine ⟨?_, Session.rebasesMeet_of_test (fun _ => Replica.Reexecution.secures_of_test) rebased⟩
    rintro direction rfl
    exact Replica.replaySecures_of_test asked

section Climbing

variable {env : SessionEnvironment Authority} {cursor : Cursor}

variable {forward : List PatchOp}

theorem climbing_of_replayed {replica : Replica Client} {direction : HistoryDirection}
    {reference : Nat} {rest : List Nat} {record : HistoryRecord} (plain : replica.doc.Plain)
    (recordPlain : record.Plain) (secures : replica.ReplaySecures cursor direction)
    (stacked : replica.stack direction = reference :: rest)
    (found : replica.records[reference]? = some record) (changed : forward ≠ [])
    (replayed : Replayed env replica.doc (record.replayed direction) forward) :
    Standard.climbing cursor replica.doc.value (some (record.replayed direction))
      (toWirePatch forward) := by
  obtain ⟨result, applied, actor, stamped, next, inverse, diagnostics, replayed, stamps,
    executed⟩ := replayed
  obtain ⟨restorable, appliedPlain⟩ :=
    restorable_of_replayHistoryOps plain (recordPlain.replayed direction) replayed
  have wires := plain_toWirePatch appliedPlain
  obtain ⟨surviving, survives, restores⟩ := restorable
  obtain ⟨final, applies⟩ := applied_of_restores restores
  have repeated := execute_sessionPatch (registry_sessionPatch env)
    (Replica.command_of_stamp stamps)
    (Replica.params_of_stamp (plain_sessionPatchParams wires) stamps) wires applies executed changed
  have reached : applyWire replica.doc.value (toWirePatch applied) = some result.value := by
    rw [applyWire_toWirePatch, ← applyOwnedOps_value, replayHistoryOps_applied replayed]
    rfl
  intro before after same leads
  rw [repeated, reached] at leads
  refine Cursor.Climbs.congr ?_ same (some.inj leads).symm
  intro bound number positive
  have secure := secures reference rest record result applied surviving bound stacked found
    replayed survives number positive
  unfold replayHistoryOps at replayed
  obtain ⟨_, again, looped⟩ := bind_eq_ok.mp replayed
  obtain rfl := Except.ok.inj (survives.symm.trans again)
  exact (Cursor.obeysAll_replayLoop (replayLoop_of_recorded looped)).secure positive number secure

theorem climbing_of_execute {context : CommandExecutionContext Authority} {ground next : Json}
    {invocation : CommandInvocation} {inverse : List PatchOp} {diagnostics : List Diagnostic}
    {recorded : Option (List PatchOp)}
    (executed : DocumentStore.execute env.registry context ground invocation =
      .ok next forward inverse diagnostics) (climbs : cursor.Climbs ground next) :
    Standard.climbing cursor ground.value recorded (toWirePatch forward) := by
  intro before after same leads
  rw [applyWire_toWirePatch, (DocumentStore.execute_ok executed).1.forward_value] at leads
  exact climbs.congr same (some.inj leads).symm

theorem climbing_of_executed {again : Replica.Reexecution Client} (faithful : again.entry.Faithful)
    (executed : again.Executed env) (secures : again.Secures cursor) {recorded : List PatchOp}
    (replays : again.entry.recorded = some recorded) :
    Standard.climbing cursor again.ground.value (some recorded) (toWirePatch again.forward) := by
  obtain ⟨_, command, patch, params, wires⟩ := faithful recorded replays
  obtain ⟨oldDoc, next, inverse, diagnostics, runs⟩ := executed.executed
  rw [Replica.rebasedInvocation_of_patch command] at runs
  apply climbing_of_execute runs
  intro bound number positive
  apply DocumentStore.execute_ascends runs executed.changed positive number
  intro definition owned registered owns
  rw [command, registry_sessionPatch env] at registered
  cases registered
  rw [params] at owns
  obtain ⟨-, rfl⟩ := (ownJson_eq_ok_iff (plain_sessionPatchParams wires)).mp owns
  rw [calls_sessionPatch]
  exact secures recorded patch bound replays params number positive

theorem World.upholds_climbing [DecidableEq Client] {world : World Client}
    {action : WorldAction Client} (kept : World.Kept world)
    (secures : World.Secures cursor env world action) :
    World.Upholds (Standard.climbing cursor) env world action := by
  cases action with
  | join client actorId maxUndo revision document | process client posting => trivial
  | act client action =>
    intro session joined
    obtain ⟨kept, filed⟩ := kept client session joined
    obtain ⟨asked, rebased⟩ := secures session joined
    constructor
    · intro direction asks reference rest record forward stacked found changed replayed
      exact climbing_of_replayed kept.doc
        (filed.replica.records record (mem_of_getElem? found)) (asked direction asks) stacked
        found changed replayed
    · apply rebased.mono kept.confirmed
      intro again pending executed secures recorded replays
      exact climbing_of_executed (filed.replica.faithful again.entry pending) executed secures
        replays

end Climbing

theorem secure_of_reaches {writes : List Write}
    (reaches : ∀ write ∈ writes, write.reaches bound cursor.keys true = true) :
    cursor.secure bound writes = true := by
  have kept : writes.foldl (Write.reaches bound cursor.keys) true = true := by
    induction writes with
    | nil => rfl
    | cons write rest ih =>
      rw [foldl_cons, reaches write mem_cons_self]
      exact ih fun other member => reaches other (mem_cons_of_mem _ member)
  rw [Cursor.secure, kept, Bool.true_or]

variable {name : String} {definition doc : Json} {actor : Option String}

theorem reaches_of_apart {write : Write} {key : String} {rest : DocPath} {first second : String}
    (path : write.path = .key first :: .key second :: .key key :: rest)
    (apart : first ≠ "graphs" ∨ key ≠ "actorCursors") :
    write.reaches bound (Cursor.actor (.graph graph) name).keys true = true := by
  have leads : write.leadsTo (Cursor.actor (.graph graph) name).keys = false := by
    rw [Write.leadsTo, path, decide_eq_false_iff_not]
    simp only [Cursor.keys, OrdinalOwner.keys, keyPath, cons_append, nil_append,
      map_cons, cons_prefix_cons, Segment.key.injEq, not_and]
    intro same _ other
    exact absurd apart (by simp [same, other])
  rw [Write.reaches, if_neg (by simp [leads])]

/-- A graph of the document holds the cursors that are read in it. -/
theorem actorCursorOf_eq (found : getAtPath doc [.key "graphs", .key graph] = some definition)
    (number : numberAt doc (Cursor.actor (.graph graph) name).keys = some bound) :
    ∃ cursors, ownChild definition (.key "actorCursors") = some cursors ∧
      actorCursorOf (some cursors) name = bound := by
  have keys : (Cursor.actor (.graph graph) name).keys =
      ["graphs", graph] ++ ["actorCursors", name] := rfl
  rw [keys, numberAt_append] at number
  have same : keyPath ["graphs", graph] = [.key "graphs", .key graph] := rfl
  rw [same, found, numberIn_some, numberAt] at number
  simp only [keyPath, map_cons, map_nil, getAtPath] at number
  cases held : ownChild definition (.key "actorCursors") with
  | none => simp [held] at number
  | some cursors =>
    refine ⟨cursors, rfl, ?_⟩
    simp only [held] at number
    cases own : ownChild cursors (.key name) with
    | none => simp [own] at number
    | some value => cases value <;> simp_all [actorCursorOf]

theorem reaches_commitAllocation {graphId : String} {ordinal : Rat}
    (found : getAtPath doc [.key "graphs", .key graphId] = some definition)
    (number : numberAt doc (Cursor.actor (.graph graph) name).keys = some bound)
    (raised : allocationOrdinalOf definition actor ≤ ordinal) :
    Write.reaches bound (Cursor.actor (.graph graph) name).keys true
      ⟨(commitAllocation graphId definition actor ordinal).path,
        (commitAllocation graphId definition actor ordinal).written, false⟩ = true := by
  cases actor with
  | none => exact reaches_of_apart rfl (.inr (by decide))
  | some actor =>
    by_cases same : graphId = graph
    · subst same
      obtain ⟨cursors, held, current⟩ := actorCursorOf_eq found number
      by_cases own : actor = name
      · subst own
        have above : bound ≤ ordinal := by
          rw [← current]
          simpa [allocationOrdinalOf, held] using raised
        have owned : ownJson (.num ordinal) = .ok (.num ordinal) := rfl
        simp only [commitAllocation, held, Write.reaches]
        split
        · simp [TxCall.path, TxCall.written, Write.below, Cursor.keys, OrdinalOwner.keys, owned,
            Except.toOption, numberAt, keyPath, getAtPath, above]
        · rfl
      · simp [commitAllocation, held, Write.reaches, Write.leadsTo, Cursor.keys,
          OrdinalOwner.keys, keyPath, TxCall.path, own]
    · cases held : ownChild definition (.key "actorCursors") <;>
        simp [commitAllocation, held, Write.reaches, Write.leadsTo, Cursor.keys,
          OrdinalOwner.keys, keyPath, TxCall.path, same]

theorem getAtPath_of_graphOf {selector : Option Json}
    (selected : graphOf doc selector = some (graph, definition)) :
    getAtPath doc [.key "graphs", .key graph] = some definition := by
  unfold graphOf at selected
  split at selected
  · obtain ⟨found, held, same⟩ := map_eq_some_iff.mp selected
    cases same
    exact held
  · simp at selected

theorem secure_rerouteAdd {Authority : Type} {params : Json}
    {context : CommandExecutionContext Authority}
    (number : numberAt doc (Cursor.actor (.graph graph) name).keys = some bound) :
    (Cursor.actor (.graph graph) name).secure bound
      (DocumentStore.callWrites ((rerouteAdd Authority).run doc params actor context).calls) =
        true := by
  apply secure_of_reaches
  intro write member
  obtain ⟨call, made, rfl⟩ := mem_map.mp member
  simp only [rerouteAdd] at made
  split at made
  · simp at made
  split at made
  · simp at made
  rename_i graphId definition selected
  split at made
  · simp at made
  rename_i id allocation minted
  have found := getAtPath_of_graphOf selected
  simp only [cons_append, nil_append, mem_cons, mem_append, not_mem_nil, or_false] at made
  rcases made with rfl | rfl | viewed | rfl
  · simp only [allocateOne] at minted
    split at minted
    · simp at minted
    obtain ⟨-, rfl⟩ := Prod.mk.inj (Except.ok.inj minted)
    exact reaches_commitAllocation found number (le_add_of_nonneg_right (by decide))
  · exact reaches_of_apart rfl (.inr (by decide))
  · unfold ensureViewReroutes at viewed
    split at viewed
    · obtain rfl := mem_singleton.mp viewed
      exact reaches_of_apart rfl (.inl (by decide))
    · split at viewed
      · obtain rfl := mem_singleton.mp viewed
        exact reaches_of_apart rfl (.inl (by decide))
      · simp at viewed
  · exact reaches_of_apart rfl (.inl (by decide))

theorem admitsCommands_climbing (graph name : String) :
    (Standard.climbing (.actor (.graph graph) name)).AdmitsCommands builtinEnvironment := by
  intro ground next context invocation forward inverse diagnostics ordinary _ executed
  apply climbing_of_execute executed
  intro bound number positive
  by_cases changed : forward = []
  · subst changed
    obtain rfl : ground = next := Except.ok.inj (DocumentStore.execute_ok executed).1.applied
    exact .inl ⟨bound, number, le_rfl⟩
  · apply DocumentStore.execute_ascends executed changed positive number
    intro definition params registered _
    simp only [SessionEnvironment.registry, builtinEnvironment, if_neg ordinary] at registered
    split at registered
    · cases registered
      exact secure_rerouteAdd number
    split at registered
    · cases registered
      apply DocumentStore.secure_of_apart
      intro write member
      obtain ⟨call, inside, rfl⟩ := mem_map.mp member
      have path := DocumentStore.path_of_setValue inside
      exact DocumentStore.leadsTo_of_isSourcePath path _
    · simp at registered

/-- The cursor from which Bob mints ids of the root graph. -/
def bobsCursor : Cursor :=
  .actor (.graph "main") "bob"

def World.bobsNumberAt (world : World Nat) (revision : Nat) : Option Rat :=
  (world.server.documentAt revision).toOption.bind fun document =>
    numberAt document bobsCursor.keys

end Dinkster.Collab
