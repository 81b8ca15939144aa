import Dinkster.Commands.Definitions
import Dinkster.Commands.Monotone

/-!
# Definition ids over a run of the store

An id that once named a definition may have become free again, by a deletion or by an undo.
`freshDefinitionId` does not know that it was in use.  In every run whose dispatches do not come
to such an id, no dispatch gives one away.
-/

namespace Dinkster.Commands

open Library Format List Option

variable {Authority : Type}

variable {doc : Json} {id : String}

theorem mem_graphIds :
    id ∈ graphIds doc ↔ (getAtPath doc (keyPath ["graphs", id])).isSome = true := by
  have here : getAtPath doc (keyPath ["graphs", id]) =
      getField (objectFields (ownChild doc (.key "graphs"))) id := by
    simp only [keyPath, map_cons, map_nil, getAtPath]
    cases ownChild doc (.key "graphs") with
    | none => rfl
    | some graphs =>
      cases graphs with
      | obj fields =>
        simp only [ownChild, objectFields]
        cases getField fields id <;> rfl
      | _ => rfl
  rw [here, graphIds, isSome_iff_ne_none, ne_eq, getField_eq_none_iff, not_not]

/-- A write apart from definitions keeps which definitions there are, and one to a definition
leaves it there only if it writes a value. -/
theorem mem_graphIds_of_applyOp {next : Json} {op : PatchOp} (applied : applyOp doc op = .ok next)
    (there : id ∈ graphIds next)
    (shape : reachesDefinitions op.path = false ∨ ∃ other, op.path = keyPath ["graphs", other]) :
    id ∈ graphIds doc ∨ op.path = keyPath ["graphs", id] ∧ op.written ≠ none := by
  rw [mem_graphIds] at there ⊢
  cases applyAt_keyPath applied ["graphs", id] with
  | inr elsewhere =>
    rw [elsewhere.2.2] at there
    exact .inl there
  | inl reached =>
    obtain ⟨rest, split, read⟩ := reached
    cases shape with
    | inl apart =>
      -- a path that is a part of the path of a definition reaches definitions
      have reaches : reachesDefinitions op.path = true := by
        match path : op.path with
        | [] => rfl
        | [first] | [first, second] =>
          rw [path] at split
          cases (List.cons.inj split).1
          rfl
        | first :: second :: third :: more =>
          rw [path] at split
          have lengths := congrArg List.length split
          simp [keyPath] at lengths
      rw [apart] at reaches
      cases reaches
    | inr named =>
      obtain ⟨other, path⟩ := named
      rw [path] at split
      obtain ⟨-, second⟩ := List.cons.inj split
      obtain ⟨same, -⟩ := List.cons.inj second
      cases same
      refine .inr ⟨path, fun none => ?_⟩
      rw [read, none] at there
      cases there

inductive Introduces (ids : List String) : TxCall → Prop where
  | apart {call : TxCall} (apart : reachesDefinitions call.path = false) : Introduces ids call
  | remove (id : String) : Introduces ids (.remove [.key "graphs", .key id])
  | set {id : String} (listed : id ∈ ids) (value : Json) :
      Introduces ids (.set [.key "graphs", .key id] value)

variable {ids used : List String} {context : CommandExecutionContext Authority}
    {invocation : CommandInvocation} {recorded : Recorded}

theorem mem_graphIds_of_calls {calls : List TxCall} {ops : List PatchOp} {final : Json}
    (introduces : ∀ call ∈ calls, Introduces ids call) (parts : List.Forall₂ (fun call op =>
      (toWireOp op).path = call.path ∧ (toWireOp op).carried = call.written) calls ops)
    (applied : applyOwnedOps doc ops = .ok final) (there : id ∈ graphIds final) :
    id ∈ graphIds doc ∨ id ∈ ids := by
  induction parts generalizing doc with
  | nil =>
    cases applied
    exact .inl there
  | @cons call op calls ops same _ ih =>
    obtain ⟨path, written⟩ := same
    rw [path_toWireOp] at path
    rw [DocumentStore.written_of_toWireOp] at written
    obtain ⟨next, first, later⟩ := bind_eq_ok.mp applied
    cases ih (fun other listed => introduces other (mem_cons_of_mem _ listed)) later with
    | inr listed => exact .inr listed
    | inl earlier =>
      cases introduces call mem_cons_self with
      | apart apart =>
        cases mem_graphIds_of_applyOp first earlier (.inl (path ▸ apart)) with
        | inl before => exact .inl before
        | inr reached =>
          rw [← path, reached.1] at apart
          cases apart
      | remove other =>
        cases mem_graphIds_of_applyOp first earlier (.inr ⟨other, path⟩) with
        | inl before => exact .inl before
        | inr reached => exact absurd written reached.2
      | @set other listed value =>
        cases mem_graphIds_of_applyOp first earlier (.inr ⟨other, path⟩) with
        | inl before => exact .inl before
        | inr reached =>
          have same := path.symm.trans reached.1
          cases same
          exact .inr listed

theorem introduces_others (others : OtherWrites) {call : TxCall} (listed : call ∈ others.calls) :
    Introduces ids call :=
  .apart (others.apart call listed)

theorem introduces_addDefinition (listed : id ∈ ids) {definition view : Json} {call : TxCall}
    (added : call ∈ addDefinition id definition view) : Introduces ids call := by
  cases mem_cons.mp added with
  | inl first =>
    subst first
    exact .set listed definition
  | inr second =>
    cases mem_singleton.mp second
    exact .apart rfl

/-! ## Names that are not given again -/

/-- Of the names in use before, the first one that is free now is not one: a free name that was
in use has a free one before it that the search finds first. -/
def Spares (used reserved : List String) : Prop :=
  ∀ ordinal, (∀ below < ordinal, definitionId () below ∈ reserved) →
    definitionId () ordinal ∈ used → definitionId () ordinal ∈ reserved

theorem definitionId_injective : Function.Injective (definitionId ()) := by
  intro first second same
  have chars := congrArg String.toList same
  simp only [definitionId, String.toList_append, append_cancel_left_eq] at chars
  exact decimal_injective (String.toList_injective chars)

theorem freshDefinitionId_not_used (spares : Spares used (graphIds doc)) :
    freshDefinitionId doc ∉ used := by
  intro again
  have taken := spares _ (fun _ => used_of_lt_firstFree) again
  exact form_firstFree_not_mem definitionId_injective _ taken

/-- What holds in a paste as far as it is: the names before the next number are taken, and none
of those given was in use before. -/
structure PasteKeeps (used existing : List String) (state : PasteState) : Prop where
  passed : ∀ below < state.nextGraphOrdinal, definitionId () below ∈ state.reserved
  existing : ∀ id ∈ existing, id ∈ state.reserved
  unused : ∀ entry ∈ state.imports, entry.id ∉ used

/-- The names that the definitions of a paste come with or are given were not in use before. -/
def PasteSpares (used : List String) (closure : DefinitionClosure) (existing : List String) :
    PasteState → List String → Prop
  | _, [] => True
  | state, source :: rest =>
    (source ∈ existing → closure.unchanged source state.ids = false →
      Spares used state.reserved) ∧
    (source ∉ existing → source ∉ used) ∧
    ∀ next, pasteDefinition closure existing state source = some next →
      PasteSpares used closure existing next rest

section Paste

variable {used existing : List String} {closure : DefinitionClosure} {state next : PasteState}

section

variable (keeps : PasteKeeps used existing state)

include keeps

theorem pasteKeeps_freshId {id : String} (fresh : state.freshId = some (id, next))
    (spares : Spares used state.reserved) : PasteKeeps used existing next ∧ id ∉ used := by
  unfold PasteState.freshId at fresh
  dsimp only at fresh
  split at fresh
  · rename_i within
    cases fresh
    generalize found : skipUsed definitionId state.reserved ()
      (state.reserved.dedup.length + 1 - state.nextGraphOrdinal) state.nextGraphOrdinal = ordinal
      at within
    have below : ∀ before < ordinal, definitionId () before ∈ state.reserved := by
      intro before less
      subst found
      exact skipUsed_used keeps.passed less
    have free : definitionId () ordinal ∉ state.reserved := by
      intro taken
      subst found
      have last := skipUsed_free taken
      omega
    refine ⟨⟨?_, ?_, keeps.unused⟩, fun again => free (spares ordinal below again)⟩
    · intro before less
      cases Nat.lt_succ_iff_lt_or_eq.mp less with
      | inl earlier => exact mem_cons_of_mem _ (below before earlier)
      | inr same => exact same ▸ mem_cons_self
    · intro other listed
      exact mem_cons_of_mem _ (keeps.existing other listed)
  · cases fresh

theorem pasteKeeps_import {source id : String} (unused : id ∉ used) :
    PasteKeeps used existing (state.import_ closure source id) := by
  refine ⟨keeps.passed, keeps.existing, fun entry listed => ?_⟩
  cases mem_append.mp listed with
  | inl earlier => exact keeps.unused entry earlier
  | inr last =>
    cases mem_singleton.mp last
    exact unused

theorem pasteKeeps_definition {source : String}
    (pasted : pasteDefinition closure existing state source = some next)
    (renamed : source ∈ existing → closure.unchanged source state.ids = false →
      Spares used state.reserved) (kept : source ∉ existing → source ∉ used) :
    PasteKeeps used existing next := by
  unfold pasteDefinition at pasted
  split at pasted
  · rename_i there
    split at pasted
    · cases pasted
      exact ⟨keeps.passed, keeps.existing, keeps.unused⟩
    · rename_i changed
      obtain ⟨⟨id, fresh⟩, found, given⟩ := map_eq_some_iff.mp pasted
      cases given
      have spares := renamed there (Bool.eq_false_iff.mpr changed)
      obtain ⟨later, unused⟩ := pasteKeeps_freshId keeps found spares
      exact pasteKeeps_import later unused
  · rename_i absent
    cases pasted
    exact pasteKeeps_import keeps (kept absent)

end

theorem pasteKeeps_order {order : List String} :
    ∀ {state : PasteState}, PasteKeeps used existing state →
      PasteSpares used closure existing state order →
      order.foldlM (pasteDefinition closure existing) state = some next →
      PasteKeeps used existing next := by
  induction order with
  | nil =>
    intro state keeps _ pasted
    cases pasted
    exact keeps
  | cons source rest ih =>
    intro state keeps spares pasted
    rw [foldlM_cons, bind_eq_bind, bind_eq_some_iff] at pasted
    obtain ⟨middle, first, later⟩ := pasted
    obtain ⟨renamed, kept, further⟩ := spares
    exact ih (pasteKeeps_definition keeps first renamed kept) (further middle first) later

/-- No definition that is pasted gets a name that was in use before. -/
theorem not_used_of_planDefinitionPaste (spares : ∀ order, closure.order = some order →
      PasteSpares used closure existing (.start closure existing) order)
    (planned : planDefinitionPaste closure existing = some next) :
    ∀ entry ∈ next.imports, entry.id ∉ used := by
  unfold planDefinitionPaste at planned
  dsimp only at planned
  split at planned
  · cases planned
    exact nofun
  · split at planned
    · cases planned
    · rename_i order ordered
      have start : PasteKeeps used existing (.start closure existing) :=
        ⟨nofun, fun id listed => mem_append_left _ listed, nofun⟩
      exact (pasteKeeps_order start (spares order ordered) planned).unused

end Paste

/-! ## What the commands introduce -/

section Commands

variable {commands : DefinitionCommands Authority} {doc params : Json} {actor : Option String}
  {context : CommandExecutionContext Authority} {call : TxCall}

theorem introduces_subgraphExtract {extraction : String → Plan Authority Creation}
    (called : call ∈ ((subgraphExtract extraction).run doc params actor context).calls) :
    Introduces [freshDefinitionId doc] call := by
  simp only [subgraphExtract, plainCommand] at called
  split at called
  · cases called
  · rename_i creation _
    cases mem_append.mp called with
    | inl added => exact introduces_addDefinition mem_cons_self added
    | inr other => exact introduces_others creation.others other

theorem introduces_occurrenceLocalize {others : Json → String → String → OtherWrites}
    (called : call ∈
      ((occurrenceLocalize others : CommandDefinition Authority).run doc params actor context).calls) :
    Introduces [freshDefinitionId doc] call := by
  simp only [occurrenceLocalize, plainCommand] at called
  split at called
  · split at called
    · cases called
    · rename_i sourceId _
      split at called
      · cases called
      · split at called
        · cases called
        · cases mem_append.mp called with
          | inl added => exact introduces_addDefinition mem_cons_self added
          | inr rest =>
            cases mem_cons.mp rest with
            | inl retyped =>
              subst retyped
              exact .apart rfl
            | inr other => exact introduces_others (others doc sourceId _) other
  · cases called

theorem introduces_subgraphImport {checks : ShapeChecks} (called : call ∈
      ((subgraphImport checks : CommandDefinition Authority).run doc params actor context).calls) :
    Introduces (fieldKeys (objectFields (ownChild params (.key "graphs")))) call := by
  simp only [subgraphImport, plainCommand] at called
  split at called
  · rename_i graphs given
    split at called
    · cases called
    · split at called
      · split at called
        · cases called
        · obtain ⟨entry, listed, added⟩ := mem_flatMap.mp called
          rw [given]
          exact introduces_addDefinition (mem_map_of_mem listed) added
      · split at called
        · cases called
        · obtain ⟨entry, listed, added⟩ := mem_flatMap.mp called
          rw [given]
          exact introduces_addDefinition (mem_map_of_mem listed) added
      · cases called
  · cases called

variable {others : Json → List String → OtherWrites}

theorem introduces_removeDefinitionSupportState {removed : List String}
    (called : call ∈ removeDefinitionSupportState others doc removed) : Introduces [] call := by
  cases mem_append.mp called with
  | inl removes =>
    obtain ⟨id, _, listed⟩ := mem_flatMap.mp removes
    cases mem_cons.mp listed with
    | inl definition =>
      subst definition
      exact .remove id
    | inr view =>
      split at view
      · cases mem_singleton.mp view
        exact .apart rfl
      · cases view
  | inr other => exact introduces_others (others doc removed) other

variable {cleanup : Json → CleanupPlan}

theorem introduces_removeUnusedDefinitions
    (called : call ∈ ((removeUnusedDefinitions cleanup others : CommandDefinition Authority).run
      doc params actor context).calls) : Introduces [] call := by
  simp only [removeUnusedDefinitions, plainCommand] at called
  split at called
  · split at called
    · cases called
    · split at called
      · cases called
      · split at called
        · cases called
        · exact introduces_removeDefinitionSupportState called
  · cases called

theorem introduces_deleteDefinition
    (called : call ∈ ((deleteDefinition cleanup others : CommandDefinition Authority).run
      doc params actor context).calls) : Introduces [] call := by
  simp only [deleteDefinition, plainCommand] at called
  split at called
  · split at called
    · cases called
    · split at called
      · cases called
      · split at called
        · cases called
        · exact introduces_removeDefinitionSupportState called
  · cases called

/-- The names that the definitions of a paste get. -/
def pastedIds (pasted : Paste) (existing : List String) : List String :=
  match pasted.closure.bind fun closure => planDefinitionPaste closure existing with
  | some plan => plan.imports.map DefinitionImport.id
  | none => []

theorem introduces_clipboardPaste {paste : Plan Authority Paste}
    (called : call ∈ ((clipboardPaste paste).run doc params actor context).calls) :
    ∃ pasted, paste doc params actor context = .ok pasted ∧
      Introduces (pastedIds pasted (graphIds doc)) call := by
  simp only [clipboardPaste, plainCommand] at called
  split at called
  · cases called
  · rename_i pasted given
    refine ⟨pasted, given, ?_⟩
    split at called
    · exact introduces_others (pasted.others []) called
    · rename_i closure closed
      split at called
      · cases called
      · rename_i plan planned
        have ids : pastedIds pasted (graphIds doc) = plan.imports.map DefinitionImport.id := by
          simp only [pastedIds, closed, bind_some, planned]
        cases mem_append.mp called with
        | inl added =>
          obtain ⟨entry, listed, added⟩ := mem_flatMap.mp added
          rw [ids]
          exact introduces_addDefinition (mem_map_of_mem listed) added
        | inr other => exact introduces_others (pasted.others plan.ids) other

end Commands

/-! ## Runs -/

/-- A store and the names that definitions have had so far. -/
structure Recorded where
  store : DocumentStore
  used : List String

variable (env : Environment Authority)

def recordedStep (recorded : Recorded)
    (action : DocumentStore.StoreAction Authority) : Option Recorded :=
  (recorded.store.act env action).map fun next =>
    ⟨next, graphIds next.currentDoc ++ recorded.used⟩

/-- The names that a command is about to give are none that a removed definition had. -/
def CommandSpares (commands : DefinitionCommands Authority)
    (context : CommandExecutionContext Authority) (invocation : CommandInvocation)
    (used : List String) (doc params : Json) : Prop :=
  (invocation.command = "subgraph.extract" ∨ invocation.command = "occurrence.localize" →
    Spares used (graphIds doc)) ∧
  (invocation.command = "subgraph.import" →
    ∀ id ∈ fieldKeys (objectFields (ownChild params (.key "graphs"))),
      id ∈ used → id ∈ graphIds doc) ∧
  (invocation.command = "clipboard.paste" → ∀ pasted closure order,
    commands.paste doc params invocation.actor context = .ok pasted →
    pasted.closure = some closure → closure.order = some order →
    PasteSpares used closure (graphIds doc) (.start closure (graphIds doc)) order)

/-- A dispatch on a document succeeds. -/
def Dispatches (commands : DefinitionCommands Authority)
    (context : CommandExecutionContext Authority) (doc : Json) (invocation : CommandInvocation) :
    Prop :=
  ∃ next forward inverse diagnostics,
    DocumentStore.execute commands.environment context doc invocation =
      .ok next forward inverse diagnostics

/-- A call that does not come to the name of a removed definition. -/
def Spared (commands : DefinitionCommands Authority) (recorded : Recorded) :
    DocumentStore.StoreAction Authority → Prop
  | .dispatch context invocation => ∀ params, ownJson invocation.params = .ok params →
      Dispatches commands context recorded.store.currentDoc invocation →
        CommandSpares commands context invocation recorded.used recorded.store.currentDoc params
  | _ => True

/-- In a run no dispatch gives a definition a name that an earlier definition had which is no
longer there. -/
def NeverRecycles (start : DocumentStore)
    (actions : List (DocumentStore.StoreAction Authority)) : Prop :=
  ∀ front middle context invocation back,
    actions = front ++ (middle ++ .dispatch context invocation :: back) →
    ∀ earlier before after, run (DocumentStore.act env) start front = some earlier →
      run (DocumentStore.act env) earlier middle = some before →
      before.act env (.dispatch context invocation) = some after →
      ∀ id ∈ graphIds earlier.currentDoc, id ∉ graphIds before.currentDoc →
        id ∉ graphIds after.currentDoc

variable {commands : DefinitionCommands Authority}

theorem introduces_of_spares {params : Json} {definition : CommandDefinition Authority}
    (registered : commands.environment.commands invocation.command = some definition)
    (spares : CommandSpares commands context invocation used doc params) :
    ∃ ids, (∀ id ∈ ids, id ∈ used → id ∈ graphIds doc) ∧
      ∀ call ∈ (definition.run doc params invocation.actor context).calls, Introduces ids call := by
  obtain ⟨fresh, imported, pasted⟩ := spares
  have freshOnly (spares : Spares used (graphIds doc)) :
      ∀ id ∈ [freshDefinitionId doc], id ∈ used → id ∈ graphIds doc := by
    intro id listed again
    cases mem_singleton.mp listed
    exact absurd again (freshDefinitionId_not_used spares)
  simp only [DefinitionCommands.environment] at registered
  split at registered
  · rename_i named
    cases registered
    exact ⟨_, imported named, fun call => introduces_subgraphImport⟩
  · split at registered
    · rename_i named
      cases registered
      exact ⟨_, freshOnly (fresh (.inl named)), fun call => introduces_subgraphExtract⟩
    · split at registered
      · rename_i named
        cases registered
        exact ⟨_, freshOnly (fresh (.inr named)), fun call => introduces_occurrenceLocalize⟩
      · split at registered
        · cases registered
          exact ⟨[], nofun, fun call => introduces_deleteDefinition⟩
        · split at registered
          · cases registered
            exact ⟨[], nofun, fun call => introduces_removeUnusedDefinitions⟩
          · split at registered
            · rename_i named
              cases registered
              cases given : commands.paste doc params invocation.actor context with
              | error refusal =>
                refine ⟨[], nofun, fun call called => ?_⟩
                obtain ⟨other, found, _⟩ := introduces_clipboardPaste called
                cases given.symm.trans found
              | ok paste =>
                refine ⟨pastedIds paste (graphIds doc), ?_, fun call called => ?_⟩
                · intro id listed again
                  unfold pastedIds at listed
                  split at listed
                  · rename_i plan planned
                    obtain ⟨closure, closed, planned⟩ := bind_eq_some_iff.mp planned
                    obtain ⟨entry, imported, rfl⟩ := mem_map.mp listed
                    have unused := not_used_of_planDefinitionPaste (fun order ordered =>
                      pasted named paste closure order given closed ordered) planned
                    exact absurd again (unused entry imported)
                  · cases listed
                · obtain ⟨other, found, introduces⟩ := introduces_clipboardPaste called
                  cases given.symm.trans found
                  exact introduces
            · obtain ⟨other, _, rfl⟩ := map_eq_some_iff.mp registered
              exact ⟨[], nofun, fun call called => .apart (other.apart _ _ _ _ call called)⟩

/-- A spared dispatch introduces no name that was in use before. -/
theorem not_recycled_of_spared {after : DocumentStore}
    (spared : Spared commands recorded (.dispatch context invocation))
    (taken : recorded.store.act commands.environment (.dispatch context invocation) = some after)
    (used : id ∈ recorded.used) (absent : id ∉ graphIds recorded.store.currentDoc) :
    id ∉ graphIds after.currentDoc := by
  cases taken
  intro there
  rcases DocumentStore.dispatch_cases commands.environment context recorded.store invocation with
    ⟨_, _, same, _⟩ | ⟨doc, forward, inverse, diagnostics, executed, changed, committed⟩
  · rw [same] at there
    exact absent there
  · rw [committed] at there
    obtain ⟨definition, params, tx, registered, owned, performed, rfl, rfl⟩ :=
      DocumentStore.performCalls_of_execute executed changed
    obtain ⟨ids, old, introduces⟩ := introduces_of_spares registered
      (spared params owned ⟨_, _, _, _, executed⟩)
    obtain ⟨ops, forward, sends⟩ := performCalls_sends performed
    obtain rfl : tx.forward = ops := forward
    cases mem_graphIds_of_calls introduces sends.parts tx.records.applied there with
    | inl before => exact absent before
    | inr introduced => exact absent (old id introduced used)

theorem recorded_run {env : Environment Authority} {store final : DocumentStore}
    {used : List String} {actions : List (DocumentStore.StoreAction Authority)}
    (reached : run (DocumentStore.act env) store actions = some final) :
    ∃ later, run (recordedStep env) ⟨store, used⟩ actions = some ⟨final, later⟩ ∧
      (∀ id ∈ used, id ∈ later) ∧ ((∀ id ∈ graphIds store.currentDoc, id ∈ used) →
        ∀ id ∈ graphIds final.currentDoc, id ∈ later) := by
  induction actions generalizing store used with
  | nil =>
    obtain rfl : store = final := some.inj reached
    exact ⟨used, rfl, fun _ => id, id⟩
  | cons action rest ih =>
    cases taken : store.act env action with
    | none => simp [run, taken] at reached
    | some next =>
      simp only [run, taken] at reached
      obtain ⟨later, runs, keeps, holds⟩ := @ih next (graphIds next.currentDoc ++ used) reached
      refine ⟨later, ?_, fun id listed => keeps id (mem_append_right _ listed), fun _ => ?_⟩
      · simp only [run, recordedStep, taken, map_some]
        exact runs
      · exact holds fun id listed => mem_append_left _ listed

/-- An occurrence of the definition `g0`. -/
def occurrenceNode (id : String) : String × Json :=
  (id, .obj [("id", .str id), ("type", .str "#g0"), ("widgets", .obj [])])

/-- A document with three occurrences of one definition. -/
def sharedDocument : Json :=
  workflowDocument [
    ("main", .obj [("id", .str "main"), ("name", .str "main"),
      ("nodes", .obj (["n0", "n1", "n2"].map occurrenceNode)), ("links", .obj []),
      ("nets", .obj []), ("reroutes", .obj []), ("nextOrdinal", .num 3)]),
    ("g0", emptyGraph "g0")]

def noWrites : OtherWrites :=
  ⟨[], nofun⟩

/-- The commands without extraction and paste, on documents that check. -/
def localizingCommands : DefinitionCommands Unit where
  extraction := fun _ _ _ _ _ => .error (.ok [])
  localizeOthers := fun _ _ _ => noWrites
  checks := ⟨fun _ _ => [], fun _ _ => []⟩
  cleanup := fun _ => ⟨"", []⟩
  cleanupOthers := fun _ _ => noWrites
  paste := fun _ _ _ _ => .error (.ok [])
  others := fun _ => none
  checkDocument := fun _ => []

/-- Give a node of the root graph a definition of its own. -/
def localizeNode (nodeId : String) : DocumentStore.StoreAction Unit :=
  .dispatch (.initial ())
    ⟨"occurrence.localize", .obj [("graphId", .str "main"), ("nodeId", .str nodeId)], none⟩

/-- What does nothing but localize, undo and redo, and localizes only while no definition that
there was is missing. -/
def localizesComplete (recorded : Recorded) : DocumentStore.StoreAction Unit → Bool
  | .dispatch _ invocation =>
    invocation.command = "occurrence.localize" &&
      recorded.used.all fun id => (graphIds recorded.store.currentDoc).contains id
  | _ => true

theorem spared_of_localizesComplete {commands : DefinitionCommands Unit}
    {action : DocumentStore.StoreAction Unit}
    (complete : localizesComplete recorded action = true) : Spared commands recorded action := by
  cases action with
  | dispatch context invocation =>
    obtain ⟨command, present⟩ := (Bool.and_eq_true _ _).mp complete
    have command := of_decide_eq_true command
    intro params _ _
    refine ⟨fun _ ordinal _ again => ?_, fun other => ?_, fun other => ?_⟩
    · exact contains_iff_mem.mp (all_eq_true.mp present _ again)
    all_goals exact absurd (command.symm.trans other) (by decide)
  | undo | redo => trivial

/-- A definition is localized, taken back and put there again, and another one localized. -/
def completeActions : List (DocumentStore.StoreAction Unit) :=
  [localizeNode "n0", .undo, .redo, localizeNode "n1"]

/-- A definition is localized and taken back, and another one localized. -/
def recyclingActions : List (DocumentStore.StoreAction Unit) :=
  [localizeNode "n0", .undo, localizeNode "n1"]

end Dinkster.Commands
