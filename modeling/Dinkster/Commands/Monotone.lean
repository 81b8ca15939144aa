import Dinkster.Commands.Rewind
import Dinkster.Commands.Transmission
import Dinkster.Commands.ValueSource
import Dinkster.Library.Transition

/-!
# Cursors over a run of the store

Ids are minted from allocation cursors, so a cursor that descends mints an id again.
In every run of dispatches, undos and redos whose writes are secure, a cursor ascends
for as long as the document has what it belongs to.  Not every run of the built-in
commands is secure: the cursor of an actor called `nextOrdinal` is not recognised as
one, and an undo rewinds it.
-/

namespace Dinkster.Commands

open Library Format List Option

namespace Cursor

variable {cursor : Cursor} {before after : Json}

/-- A positive cursor is kept or raised, unless what it belongs to is gone. -/
def Climbs (cursor : Cursor) (before after : Json) : Prop :=
  ∀ bound, numberAt before cursor.keys = some bound → 0 < bound →
    AtLeast bound (numberAt after cursor.keys) ∨ cursor.held after = false

theorem numberAt_congr {left right : Json} (same : left.value = right.value) (keys : List String) :
    numberAt left keys = numberAt right keys := by
  have read : optionValue (getAtPath left (keyPath keys)) =
      optionValue (getAtPath right (keyPath keys)) := by
    rw [getAtPath_value, getAtPath_value, same]
  unfold numberAt
  cases here : getAtPath left (keyPath keys) with
  | none =>
    rw [here] at read
    rw [optionValue_eq_undefined.mp read.symm]
  | some found =>
    cases there : getAtPath right (keyPath keys) with
    | none =>
      rw [there, here] at read
      exact absurd (optionValue_eq_undefined.mp read) (by simp)
    | some other =>
      rw [here, there] at read
      cases found <;> cases other <;> simp_all [optionValue, Json.value]

theorem held_congr {left right : Json} (same : left.value = right.value) :
    cursor.held left = cursor.held right := by
  have read : optionValue (getAtPath left (keyPath cursor.holder)) =
      optionValue (getAtPath right (keyPath cursor.holder)) := by
    rw [getAtPath_value, getAtPath_value, same]
  have absent : getAtPath left (keyPath cursor.holder) = none ↔
      getAtPath right (keyPath cursor.holder) = none := by
    rw [← optionValue_eq_undefined, read, optionValue_eq_undefined]
  unfold held
  rw [Bool.eq_iff_iff, isSome_iff_ne_none, isSome_iff_ne_none, ne_eq, absent]

theorem Climbs.congr (climbs : cursor.Climbs before after) {earlier later : Json}
    (same : earlier.value = before.value) (alike : later.value = after.value) :
    cursor.Climbs earlier later := by
  intro bound number positive
  rw [numberAt_congr same] at number
  rw [numberAt_congr alike, held_congr alike]
  exact climbs bound number positive

end Cursor

namespace DocumentStore

variable {Authority : Type}

inductive StoreAction (Authority : Type) where
  | dispatch (context : CommandExecutionContext Authority) (invocation : CommandInvocation)
  | undo
  | redo

def act (env : Environment Authority) (store : DocumentStore) :
    StoreAction Authority → Option DocumentStore
  | .dispatch context invocation => some (store.dispatch env context invocation).2.1
  | .undo => some store.undo.2
  | .redo => some store.redo.2

/-- What the builder calls of a command write.  Nothing guards a cursor from them. -/
def callWrites (calls : List TxCall) : List Write :=
  calls.map fun call => ⟨call.path, call.written, false⟩

def ReplaySecure (doc : Json) (cursor : Cursor) (bound : Rat) (ops : List PatchOp) : Prop :=
  ∀ surviving, survivors doc ops = .ok surviving → (replayHistoryOps doc ops false).isOk →
    cursor.secure bound (ops.map (cursor.writeOf surviving)) = true

def WritesSecurely (env : Environment Authority) (store : DocumentStore) (cursor : Cursor)
    (bound : Rat) : StoreAction Authority → Prop
  | .dispatch context invocation =>
    ∀ definition params, env.commands invocation.command = some definition →
      ownJson invocation.params = .ok params →
      (∀ diagnostics, execute env context store.currentDoc invocation ≠ .rejected diagnostics) →
      cursor.secure bound (callWrites
        (definition.run store.currentDoc params invocation.actor context).calls) = true
  | .undo => ∀ record, store.undoStack.head? = some record →
      ReplaySecure store.currentDoc cursor bound record.inverse
  | .redo => ∀ record, store.redoStack.head? = some record →
      ReplaySecure store.currentDoc cursor bound record.forward

/-- A call is secure if its writes are, for every positive cursor of something that the
document has. -/
def Secure (env : Environment Authority) (store : DocumentStore)
    (action : StoreAction Authority) : Prop :=
  ∀ (cursor : Cursor) (bound : Rat), cursor.held store.currentDoc = true →
    numberAt store.currentDoc cursor.keys = some bound → 0 < bound →
    store.WritesSecurely env cursor bound action

def HeldAcross (env : Environment Authority) (cursor : Cursor) (store : DocumentStore)
    (action : StoreAction Authority) : Prop :=
  cursor.held store.currentDoc = true ∧
    ∀ next, store.act env action = some next → cursor.held next.currentDoc = true

/-- `HeldAcross` as a test. -/
def heldAcrossTest (env : Environment Authority) (cursor : Cursor) (store : DocumentStore)
    (action : StoreAction Authority) : Bool :=
  cursor.held store.currentDoc &&
    (store.act env action).all fun next => cursor.held next.currentDoc

variable {action : StoreAction Authority} {store : DocumentStore} {doc : Json}
    {ops : List PatchOp}

theorem heldAcross_of_test {env : Environment Authority} {cursor : Cursor}
    (passes : heldAcrossTest env cursor store action = true) :
    HeldAcross env cursor store action := by
  obtain ⟨here, there⟩ := (Bool.and_eq_true _ _).mp passes
  refine ⟨here, fun next taken => ?_⟩
  rwa [taken] at there

variable {env : Environment Authority} {store next : DocumentStore} {cursor : Cursor} {bound : Rat}

theorem written_of_toWireOp (op : PatchOp) : (toWireOp op).carried = op.written := by
  cases op <;> rfl

/-- Recorded operations obey the builder calls they record. -/
theorem obeysAll_calls {final : Json} {calls : List TxCall} (parts : List.Forall₂ (fun call op =>
      (toWireOp op).path = call.path ∧ (toWireOp op).carried = call.written) calls ops)
    (applied : applyOwnedOps doc ops = .ok final) :
    cursor.ObeysAll (callWrites calls) doc final := by
  induction parts generalizing doc with
  | nil =>
    obtain rfl := Except.ok.inj applied
    exact .nil doc
  | @cons call op calls ops same _ ih =>
    obtain ⟨path, written⟩ := same
    rw [path_toWireOp] at path
    rw [written_of_toWireOp] at written
    obtain ⟨next, first, later⟩ := bind_eq_ok.mp applied
    refine .cons (Cursor.obeys_of_applied first path ?_ ?_ ?_) (ih later)
    · intro back _ _
      exact .of_eq (by rw [written])
    · intro back _ _ guarded
      simp at guarded
    · intro back _ _ _ absent
      rwa [written]

/-- A replayed batch leaves a cursor as high as it was, or removes its holder. -/
theorem replay_ascends {result : ReplayResult}
    (replayed : replayHistoryOps doc ops false = .ok result) (positive : 0 < bound)
    (reached : numberAt doc cursor.keys = some bound) (secure : ReplaySecure doc cursor bound ops) :
    AtLeast bound (numberAt result.doc cursor.keys) ∨ cursor.held result.doc = false := by
  have succeeds : (replayHistoryOps doc ops false).isOk = true := by rw [replayed]; rfl
  unfold replayHistoryOps at replayed
  obtain ⟨surviving, survived, looped⟩ := bind_eq_ok.mp replayed
  exact (Cursor.obeysAll_replayLoop looped).secure positive reached
    (secure surviving survived succeeds)

theorem execute_ascends {context : CommandExecutionContext Authority} {following : Json}
    {invocation : CommandInvocation} {forward inverse : List PatchOp}
    {diagnostics : List Diagnostic}
    (executed : execute env context doc invocation = .ok following forward inverse diagnostics)
    (changed : forward ≠ []) (positive : 0 < bound)
    (reached : numberAt doc cursor.keys = some bound)
    (secure : ∀ definition params, env.commands invocation.command = some definition →
      ownJson invocation.params = .ok params → cursor.secure bound
        (callWrites (definition.run doc params invocation.actor context).calls) = true) :
    AtLeast bound (numberAt following cursor.keys) ∨ cursor.held following = false := by
  obtain ⟨definition, params, tx, registered, owned, performed, rfl, rfl⟩ :=
    performCalls_of_execute executed changed
  obtain ⟨ops, forward, sends⟩ := performCalls_sends performed
  obtain rfl : tx.forward = ops := forward
  have obeys : cursor.ObeysAll _ doc tx.working := obeysAll_calls sends.parts tx.records.applied
  exact obeys.secure positive reached (secure definition params registered owned)

/-- A call with secure writes leaves a cursor as high as it was, or removes its
holder. -/
theorem act_ascends (taken : store.act env action = some next) (positive : 0 < bound)
    (reached : numberAt store.currentDoc cursor.keys = some bound)
    (secure : store.WritesSecurely env cursor bound action) :
    AtLeast bound (numberAt next.currentDoc cursor.keys) ∨ cursor.held next.currentDoc = false := by
  have unchanged : AtLeast bound (numberAt store.currentDoc cursor.keys) ∨
      cursor.held store.currentDoc = false := .inl ⟨bound, reached, le_rfl⟩
  cases action with
  | dispatch context invocation =>
    cases taken
    rcases dispatch_cases env context store invocation with
      ⟨_, _, same, _⟩ | ⟨doc, forward, inverse, diagnostics, executed, changed, committed⟩
    · rw [same]
      exact unchanged
    · rw [committed]
      apply execute_ascends executed changed positive reached
      intro definition params registered owned
      apply secure definition params registered owned
      intro rejected impossible
      simp [executed] at impossible
  | undo =>
    cases taken
    unfold undo
    split
    · exact unchanged
    · rename_i record rest stacked
      split
      · exact unchanged
      · rename_i replay replayed
        apply replay_ascends replayed positive reached
        exact secure record (by rw [stacked]; rfl)
  | redo =>
    cases taken
    unfold redo
    split
    · exact unchanged
    · rename_i record rest stacked
      split
      · exact unchanged
      · rename_i replay replayed
        apply replay_ascends replayed positive reached
        exact secure record (by rw [stacked]; rfl)

/-- Commands that allocate and commands that do not. -/
def allocatingEnvironment : Environment Unit where
  commands := fun id =>
    if id = "reroute.add" then some (rerouteAdd Unit)
    else if id = "valueSource.setValue" then some (valueSourceSetValue Unit)
    else none
  checkDocument := fun _ => []

/-- A document whose graph has minted five ordinals. -/
def usedDocument : Json :=
  workflowDocument [("main", .obj [("id", .str "main"), ("name", .str "main"), ("nodes", .obj []),
    ("links", .obj []), ("nets", .obj []), ("reroutes", .obj []),
    ("valueSources", .obj [("v1", .obj [("id", .str "v1"), ("value", .null)])]),
    ("nextOrdinal", .num 5)])]

/-- Whether a path stays among the value sources of a graph. -/
def isSourcePath (path : DocPath) : Bool :=
  path.length = 5 && path[0]? = some (.key "graphs") && path[2]? = some (.key "valueSources")

def writesSources (store : DocumentStore) : StoreAction Unit → Bool
  | .dispatch _ invocation => invocation.command = "valueSource.setValue"
  | .undo => store.undoStack.all fun record => record.inverse.all fun op => isSourcePath op.path
  | .redo => store.redoStack.all fun record => record.forward.all fun op => isSourcePath op.path

theorem leadsTo_of_isSourcePath {write : Write} (source : isSourcePath write.path = true)
    (cursor : Cursor) : write.leadsTo cursor.keys = false := by
  rw [Bool.eq_false_iff]
  intro leads
  simp only [isSourcePath, Bool.and_eq_true, decide_eq_true_eq] at source
  obtain ⟨⟨long, _⟩, third⟩ := source
  obtain ⟨rest, equal⟩ := of_decide_eq_true leads
  have deep : 5 ≤ cursor.keys.length := by
    have same := congrArg List.length equal
    rw [length_append, keyPath, length_map] at same
    omega
  have named : (keyPath cursor.keys)[2]? = some (.key "valueSources") := by
    rw [← equal, getElem?_append_left (by omega), third]
  cases cursor with
  | ordinal owner | actor owner name => cases owner <;> simp [Cursor.keys, OrdinalOwner.keys] at deep
  | group graph | surface => simp [Cursor.keys] at deep
  | state graph node port members => simp [Cursor.keys, keyPath] at named

theorem secure_of_apart {writes : List Write}
    (apart : ∀ write ∈ writes, write.leadsTo cursor.keys = false) :
    cursor.secure bound writes = true := by
  have kept : ∀ before, writes.foldl (Write.reaches bound cursor.keys) before = before := by
    induction writes with
    | nil => exact fun before => rfl
    | cons write rest ih =>
      intro before
      have first := apart write mem_cons_self
      rw [foldl_cons, Write.reaches, first, if_neg Bool.false_ne_true]
      exact ih (fun other member => apart other (mem_cons_of_mem _ member)) before
  rw [Cursor.secure, kept, Bool.true_or]

theorem path_of_setValue {params : Json} {actor : Option String}
    {context : CommandExecutionContext Unit} {call : TxCall}
    (member : call ∈ ((valueSourceSetValue Unit).run doc params actor context).calls) :
    isSourcePath call.path = true := by
  simp only [valueSourceSetValue] at member
  split at member
  · split at member
    · simp at member
    · split at member
      · simp at member
      · obtain rfl := mem_singleton.mp member
        rfl
  · simp at member

theorem secure_of_writesSources {action : StoreAction Unit}
    (sources : writesSources store action = true) : Secure allocatingEnvironment store action := by
  intro cursor bound _ _ _
  have batch (ops : List PatchOp) (all : ops.all (fun op => isSourcePath op.path) = true) :
      ReplaySecure store.currentDoc cursor bound ops := by
    intro surviving _ _
    apply secure_of_apart
    intro write member
    obtain ⟨op, inside, rfl⟩ := mem_map.mp member
    exact leadsTo_of_isSourcePath (all_eq_true.mp all op inside) cursor
  cases action with
  | dispatch context invocation =>
    intro definition params registered _ _
    have command : invocation.command = "valueSource.setValue" := of_decide_eq_true sources
    obtain rfl : valueSourceSetValue Unit = definition := by
      simpa [allocatingEnvironment, command] using registered
    apply secure_of_apart
    intro write member
    obtain ⟨call, inside, rfl⟩ := mem_map.mp member
    apply leadsTo_of_isSourcePath
    have path := path_of_setValue inside
    exact path
  | undo | redo =>
    intro record top
    exact batch _ (all_eq_true.mp sources record (mem_of_mem_head? top))

/-- What a user does who sets a value source, and what undoes and redoes it. -/
def sourceActions : List (StoreAction Unit) :=
  [.dispatch (.initial ()) (setValueSource "v1" (.num 1)), .undo, .redo]

/-- A user whose id is `nextOrdinal` adds a reroute. -/
def addRerouteAs (actor : String) : CommandInvocation where
  command := "reroute.add"
  params := rerouteAddParams "main" 10 20
  actor := some actor

/-- The user adds two reroutes and undoes the second. -/
def rewindingActions : List (StoreAction Unit) :=
  [.dispatch (.initial ()) (addRerouteAs "nextOrdinal"),
    .dispatch (.initial ()) (addRerouteAs "nextOrdinal")]

end DocumentStore

end Dinkster.Commands
