import Dinkster.Commands.Contract

/-!
# The builder's state, and what undoes a transaction

A builder is a working copy and the operations recorded so far, which its calls change one after
the other.  A call that throws has changed neither.  What a transaction recorded leads from the
document to the working copy, and its inverse leads back.
-/

namespace Dinkster.Commands

open Library Format

/-- The variables of `createTransactionBuilder`. -/
structure Builder where
  working : Json
  ops : List PatchOp

namespace Builder

def record (op : PatchOp) : EStateM String Builder Unit := do
  let builder ← get
  match applyOwnedOps builder.working [op] with
  | .error error => throw error.message
  | .ok working =>
    modify fun builder => { builder with working }
    modify fun builder => { builder with ops := builder.ops ++ [op] }

def own (value : Json) (what : String) : EStateM String Builder Json :=
  match ownJson value with
  | .error reason => throw s!"{what}: {reason}"
  | .ok owned => pure owned

def ownPath (path : DocPath) : EStateM String Builder DocPath :=
  if Permitted path then pure path else throw Transaction.forbiddenPath

def readAt (path : DocPath) : EStateM String Builder (Option Json) := do
  return getAtPath (← get).working path

def set (path : DocPath) (value : Json) : EStateM String Builder Unit := do
  let existing ← readAt path
  let owned ← own value s!"set {pathText path}"
  match existing with
  | none => record (.add (← ownPath path) owned)
  | some oldValue => record (.replace (← ownPath path) owned oldValue)

def insert (path : DocPath) (value : Json) : EStateM String Builder Unit := do
  let path' ← ownPath path
  record (.add path' (← own value s!"insert {pathText path}"))

def remove (path : DocPath) : EStateM String Builder Unit := do
  match ← readAt path with
  | none => throw s!"remove: nothing at path {pathText path}"
  | some oldValue => record (.remove (← ownPath path) oldValue)

def call : TxCall → EStateM String Builder Unit
  | .set path value => set path value
  | .insert path value => insert path value
  | .remove path => remove path

def calls : List TxCall → EStateM String Builder Unit
  | [] => pure ()
  | first :: rest => do
    call first
    calls rest

end Builder

section

variable {doc : Json} {tx : Transaction doc}

def Transaction.builder (tx : Transaction doc) : Builder :=
  ⟨tx.working, tx.forward⟩

/-- The end of a call in the builder's own terms. -/
def Transaction.ended (tx : Transaction doc) :
    Except String (Transaction doc) → EStateM.Result String Builder Unit
  | .error reason => .error reason tx.builder
  | .ok next => .ok () next.builder

@[simp] theorem run_readAt (path : DocPath) (builder : Builder) :
    (Builder.readAt path).run builder = .ok (getAtPath builder.working path) builder := rfl

@[simp] theorem run_own (value : Json) (what : String) (builder : Builder) :
    (Builder.own value what).run builder =
      match ownJson value with
      | .error reason => .error s!"{what}: {reason}" builder
      | .ok owned => .ok owned builder := by
  unfold Builder.own
  split <;> rfl

@[simp] theorem run_ownPath (path : DocPath) (builder : Builder) :
    (Builder.ownPath path).run builder =
      if Permitted path then .ok path builder else .error Transaction.forbiddenPath builder := by
  unfold Builder.ownPath
  split <;> rfl

@[simp] theorem builder_working : tx.builder.working = tx.working := rfl

/-- Recording fails before anything is changed. -/
theorem run_record {op : PatchOp} (faithful : Faithful tx.working op) :
    (Builder.record op).run tx.builder = tx.ended (tx.record op faithful) := by
  have applied := applyOwnedOps_singleton tx.working op
  unfold Transaction.record
  split
  · rename_i next result
    rw [result] at applied
    simp [Builder.record, applied, Transaction.ended]
    rfl
  · rename_i error result
    rw [result] at applied
    simp [Builder.record, applied, Transaction.ended]

theorem run_call (call : TxCall) :
    (Builder.call call).run tx.builder = tx.ended (call.perform tx) := by
  cases call with
  | set path value =>
    change (Builder.set path value).run tx.builder = tx.ended (tx.set path value)
    unfold Transaction.set
    split
    · rename_i reason owned
      simp [Builder.set, owned, Transaction.ended]
      rfl
    · rename_i owned' owned
      split
      · rename_i permitted
        split
        all_goals
          rename_i existing
          refine Eq.trans ?_ (run_record _)
          simp [Builder.set, owned, existing, permitted]
      · rename_i forbidden
        cases existing : getAtPath tx.working path with
        | none | some _ => simp [Builder.set, owned, existing, forbidden, Transaction.ended]
  | insert path value =>
    change (Builder.insert path value).run tx.builder = tx.ended (tx.insert path value)
    unfold Transaction.insert
    split
    · rename_i permitted
      split
      · rename_i reason owned
        simp [Builder.insert, owned, permitted, Transaction.ended]
        rfl
      · rename_i owned' owned
        refine Eq.trans ?_ (run_record _)
        simp [Builder.insert, owned, permitted]
    · rename_i forbidden
      simp [Builder.insert, forbidden, Transaction.ended]
  | remove path =>
    change (Builder.remove path).run tx.builder = tx.ended (tx.remove path)
    unfold Transaction.remove
    split
    · rename_i existing
      simp [Builder.remove, existing, Transaction.ended]
    · rename_i oldValue existing
      split
      · rename_i permitted
        refine Eq.trans ?_ (run_record _)
        simp [Builder.remove, existing, permitted]
      · rename_i forbidden
        simp [Builder.remove, existing, forbidden, Transaction.ended]

theorem run_calls (tx : Transaction doc) (calls : List TxCall) {builder : Builder}
    (ran : (Builder.calls calls).run tx.builder = .ok () builder) :
    ∃ final : Transaction doc, builder = final.builder := by
  induction calls generalizing tx with
  | nil =>
    cases ran
    exact ⟨tx, rfl⟩
  | cons first rest ih =>
    rw [Builder.calls, EStateM.run_bind, run_call] at ran
    cases performed : first.perform tx with
    | error reason => simp [performed, Transaction.ended] at ran
    | ok next =>
      rw [performed] at ran
      exact ih next ran

end

section

variable {doc working next : Json} {ops : List PatchOp} {op : PatchOp}

theorem apply_invertOp (faithful : Faithful working op) (applied : applyOp working op = .ok next) :
    (invertOp op).apply next.value = some working.value := by
  have permitted : Permitted op.path := by
    cases op with
    | add path value | remove path oldValue | replace path value oldValue => exact faithful.1
  have edited := applyOp_value working op
  rw [applied, PatchOp.apply, if_pos permitted] at edited
  have writes : op.edit.Writes := by
    cases op with
    | add path value | replace path value oldValue => exact value_ne_undefined value
    | remove path oldValue => trivial
  have undone := Value.edit_inverse writes edited.symm
  have same : (invertOp op).edit = op.edit.inverse (working.value.read op.path) := by
    cases op with
    | add path value => rfl
    | remove path oldValue =>
      have displaced := getAtPath_value working path
      rw [faithful.2] at displaced
      exact congrArg _ displaced
    | replace path value oldValue =>
      have displaced := getAtPath_value working path
      rw [faithful.2.2] at displaced
      exact congrArg _ displaced
  rw [PatchOp.apply, invertOp_path, if_pos permitted, same, undone]

/-- The inverse operations lead from the working copy's value to the document's. -/
theorem Records.inverse_value (records : Records doc ops working) :
    applyAll working.value (invertOps ops) = some doc.value := by
  induction records with
  | start => rfl
  | @record ops working next op recorded faithful applied ih =>
    have split : invertOps (ops ++ [op]) = invertOp op :: invertOps ops := by simp [invertOps]
    rw [split, applyAll, apply_invertOp faithful applied]
    exact ih

theorem Records.undone (plain : doc.Plain) (records : Records doc ops working) :
    ∃ back, applyOwnedOps working (invertOps ops) = .ok back ∧ jsonSameValue back doc = true := by
  obtain ⟨workingPlain, opsPlain⟩ := records.plain plain
  have undone := applyOwnedOps_value working (invertOps ops)
  rw [records.inverse_value] at undone
  cases applied : applyOwnedOps working (invertOps ops) with
  | error reason =>
    rw [applied] at undone
    cases undone
  | ok back =>
    rw [applied] at undone
    have backPlain := plain_applyOwnedOps workingPlain (plain_invertOps opsPlain) applied
    exact ⟨back, rfl, (jsonSameValue_iff back doc backPlain plain).mpr (Option.some.inj undone)⟩

end

/-- The operations of calls that do not throw lead from the document to the working copy, and
their inverse leads back to a document of the same value.  A call that throws changes nothing. -/
theorem builder_round_trip (doc : Json) (plain : doc.Plain) (calls : List TxCall)
    (builder : Builder) (ran : (Builder.calls calls).run ⟨doc, []⟩ = .ok () builder) :
    applyOwnedOps doc builder.ops = .ok builder.working ∧
      (∃ back, applyOwnedOps builder.working (invertOps builder.ops) = .ok back ∧
        jsonSameValue back doc = true) ∧
      ∀ call reason after, (Builder.call call).run builder = .error reason after →
        after = builder := by
  obtain ⟨tx, rfl⟩ : ∃ tx : Transaction doc, builder = tx.builder :=
    run_calls (.create doc none) calls ran
  refine ⟨tx.records.applied, tx.records.undone plain, fun call reason after thrown => ?_⟩
  rw [run_call] at thrown
  cases performed : call.perform tx with
  | error reason =>
    rw [performed] at thrown
    cases thrown
    rfl
  | ok next =>
    rw [performed] at thrown
    cases thrown

theorem builder_round_trip_nested : ∃ back, applyOwnedOps (.obj [("a", .arr [.num 2])])
        (invertOps [.add [.key "a"] (.arr []), .add [.key "a", .index 0] (.num 2)]) = .ok back ∧
      jsonSameValue back (.obj []) = true := by
  have ran : (Builder.calls [.set [.key "a"] (.arr []), .insert [.key "a", .index 0] (.num 2)]).run
      ⟨.obj [], []⟩ = .ok () ⟨.obj [("a", .arr [.num 2])],
        [.add [.key "a"] (.arr []), .add [.key "a", .index 0] (.num 2)]⟩ := by
    rfl
  exact (builder_round_trip (.obj []) (by simp [Json.Plain, plainFields, fieldKeys]) _ _ ran).2.1

end Dinkster.Commands
