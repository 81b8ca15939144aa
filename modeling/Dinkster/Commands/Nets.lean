import Dinkster.Commands.Definitions
import Dinkster.Commands.Monotone

/-!
# The names of nets

`netNameError` compares a name as it is given with the stored names, and `net.create` and
`net.rename` store it trimmed.  The names of a graph stay unique while every name is given
trimmed, or is trimmed to one that no other net of the graph has.
-/

namespace Dinkster.Commands

open Library Format List DocumentStore

variable {Authority : Type}

/-- What `trim` removes. -/
def isJsSpace (char : Char) : Bool :=
  char.toNat ∈ [9, 10, 11, 12, 13, 32, 160, 5760, 8232, 8233, 8239, 8287, 12288, 65279] ||
    (8192 ≤ char.toNat && char.toNat ≤ 8202)

def trim (text : String) : String :=
  String.ofList ((text.toList.dropWhile isJsSpace).reverse.dropWhile isJsSpace).reverse

/-- `def.nodes[id]` finds an own member, or one that every object inherits. -/
def hasMember (owner : Option Json) (name : String) : Bool :=
  (owner.bind fun owner => ownChild owner (.key name)).isSome ||
    name ∈ ["constructor", "toString", "toLocaleString", "valueOf", "hasOwnProperty",
      "isPrototypeOf", "propertyIsEnumerable", "__proto__", "__defineGetter__",
      "__defineSetter__", "__lookupGetter__", "__lookupSetter__"]

def isPortRef (value : Json) : Bool :=
  match ownChild value (.key "node"), ownChild value (.key "port") with
  | some (.str _), some (.str _) =>
    match ownChild value (.key "members") with
    | none => true
    | some (.arr members) => !members.isEmpty && members.all fun
      | .str member => member ≠ ""
      | _ => false
    | _ => false
  | _, _ => false

def toPortRef (endpoint : Json) : Json :=
  .obj (["node", "port", "members"].filterMap fun name =>
    (ownChild endpoint (.key name)).map fun value => (name, value))

def netNameError (definition : Json) (name : Option Json) (exceptNetId : Option String) :
    Option String :=
  match name with
  | some (.str name) =>
    if trim name = "" then some "name must be a non-empty string"
    else if (objectFields (ownChild definition (.key "nets"))).any fun entry =>
        ownChild entry.2 (.key "name") = some (.str name) &&
          ownChild entry.2 (.key "id") ≠ exceptNetId.map Json.str then
      some s!"a net named '{name}' already exists in this graph"
    else none
  | _ => some "name must be a non-empty string"

/-- `name.trim()` of the params. -/
def trimmedName (params : Json) : Json :=
  match ownChild params (.key "name") with
  | some (.str name) => .str (trim name)
  | _ => .null

/-- A run that only reports an error. -/
def refusing (code message : String) : CommandRun :=
  ⟨[], .ok [commandError code message]⟩

def printed (value : Option Json) : String :=
  (value.map stringText).getD "undefined"

/-- `net.create {graphId, name, source}`. -/
def netCreate : CommandDefinition Authority :=
  plainCommand fun doc params actor _ =>
    match (ownChild params (.key "source")).filter isPortRef with
    | none => refusing "params.invalid"
      "net.create: params must be \x7bgraphId, name, source: PortRef\x7d"
    | some source =>
      match graphOf doc (ownChild params (.key "graphId")) with
      | none =>
        let graphId := printed (ownChild params (.key "graphId"))
        refusing "graph.missing" s!"net.create: unknown graph '{graphId}'"
      | some (graphId, definition) =>
        match netNameError definition (ownChild params (.key "name")) none with
        | some reason => refusing "net.name" s!"net.create: {reason}"
        | none =>
          let node := printed (ownChild source (.key "node"))
          if !hasMember (ownChild definition (.key "nodes")) node then
            refusing "node.missing" s!"net.create: unknown source node '{node}'"
          else
            match allocateOne graphId definition actor "net" with
            | .error message => ⟨[], .error message⟩
            | .ok (id, allocation) =>
              ⟨[allocation, .set [.key "graphs", .key graphId, .key "nets", .key id]
                (.obj [("id", .str id), ("name", trimmedName params),
                  ("source", toPortRef source), ("sinks", .arr [])])], .ok []⟩

/-- `net.rename {graphId, netId, name}`. -/
def netRename : CommandDefinition Authority :=
  plainCommand fun doc params _ _ =>
    match ownChild params (.key "netId") with
    | some (.str netId) =>
      match graphOf doc (ownChild params (.key "graphId")) with
      | none =>
        let graphId := printed (ownChild params (.key "graphId"))
        refusing "graph.missing" s!"net.rename: unknown graph '{graphId}'"
      | some (graphId, definition) =>
        if !hasMember (ownChild definition (.key "nets")) netId then
          refusing "net.missing" s!"net.rename: unknown net '{netId}'"
        else
          match netNameError definition (ownChild params (.key "name")) (some netId) with
          | some reason => refusing "net.name" s!"net.rename: {reason}"
          | none =>
            ⟨[.set [.key "graphs", .key graphId, .key "nets", .key netId, .key "name"]
              (trimmedName params)], .ok []⟩
    | _ => refusing "params.invalid" "net.rename: params must be \x7bgraphId, netId, name\x7d"

/-- A registry of the two commands that name nets. -/
def netEnvironment (checkDocument : Json → List Diagnostic) : Environment Authority where
  commands := fun id =>
    if id = "net.create" then some netCreate
    else if id = "net.rename" then some netRename
    else none
  checkDocument := checkDocument

def netAt (doc : Json) (graph net : String) : Option Json :=
  getAtPath doc (keyPath ["graphs", graph, "nets", net])

/-- Every net has its key for an id, and a name of its own that is not blank. -/
structure NetsNamed (doc : Json) : Prop where
  named : ∀ {graph net value}, netAt doc graph net = some value →
    ownChild value (.key "id") = some (.str net) ∧
      ∃ name, ownChild value (.key "name") = some (.str name) ∧
        ∃ char ∈ name.toList, isJsSpace char = false
  distinct : ∀ {graph net other value held name}, netAt doc graph net = some value →
    netAt doc graph other = some held → ownChild value (.key "name") = some (.str name) →
    ownChild held (.key "name") = some (.str name) → net = other

def GivesApart (store : DocumentStore) : StoreAction Authority → Prop
  | .dispatch _ invocation => ∀ params graph name, ownJson invocation.params = .ok params →
    ownChild params (.key "graphId") = some (.str graph) →
    ownChild params (.key "name") = some (.str name) →
    trim name = name ∨ ∀ net value, netAt store.currentDoc graph net = some value →
      ownChild value (.key "name") = some (.str (trim name)) →
      invocation.command = "net.rename" ∧ ownChild params (.key "netId") = some (.str net)
  | _ => False

variable {doc node next : Json} {op : PatchOp} {path : DocPath} {keys : List String}

/-- An operation keeps what is on a path that neither contains its own nor continues it. -/
theorem getAtPath_apart (applied : applyAt op node path = .ok next)
    (apart : ¬ path <+: keyPath keys) (beside : ¬ keyPath keys <+: path) :
    getAtPath next (keyPath keys) = getAtPath node (keyPath keys) := by
  induction path generalizing node next keys with
  | nil => exact absurd nil_prefix apart
  | cons segment path ih =>
    cases keys with
    | nil => exact absurd nil_prefix beside
    | cons key keys =>
      cases node with
      | arr items =>
        obtain ⟨others, rfl⟩ := applyAt_arr_eq_ok applied
        rfl
      | obj fields =>
        cases segment with
        | index position => simp [applyAt] at applied
        | key name =>
          obtain ⟨others, rfl, elsewhere, here⟩ := applyAt_obj_eq_ok applied
          simp only [keyPath, map_cons, getAtPath, ownChild]
          by_cases same : key = name
          · subst same
            rcases here with ⟨rfl, _⟩ | ⟨child, changed, found, inside, became⟩
            · exact absurd (by simp [keyPath]) apart
            · rw [found, became]
              exact ih inside (by simpa [keyPath] using apart) (by simpa [keyPath] using beside)
          · rw [elsewhere key same]
      | _ => cases segment <;> simp [applyAt] at applied

/-- A `set` that succeeds writes its value. -/
theorem perform_set {tx final : Transaction doc} {value : Json} (plain : value.Plain)
    (performed : (TxCall.set path value).perform tx = .ok final) :
    ∃ op, op.path = path ∧ op.written = some value ∧ applyOp tx.working op = .ok final.working := by
  obtain ⟨op, recorded, _, applied⟩ := TxCall.perform_eq_ok performed
  refine ⟨op, (path_toWireOp op).symm.trans recorded.path, ?_, applied⟩
  have written := (written_of_toWireOp op).symm.trans recorded.carried
  rw [TxCall.written] at written
  cases owned : ownJson value with
  | error reason =>
    have kind := recorded.kind
    rw [owned] at written
    cases op with
    | remove =>
      simp only [TxCall.kind] at kind
      split at kind <;> simp [toWireOp, WirePatchOp.kind] at kind
    | _ => cases written
  | ok copy =>
    rw [written, owned, ((ownJson_eq_ok_iff plain).mp owned).2]
    rfl

theorem trim_filled {name : String} (filled : trim name ≠ "") :
    ∃ char ∈ (trim name).toList, isJsSpace char = false := by
  have kept := head?_dropWhile_not isJsSpace (name.toList.dropWhile isJsSpace).reverse
  have there : ((name.toList.dropWhile isJsSpace).reverse.dropWhile isJsSpace).head? ≠ none := by
    intro none
    rw [head?_eq_none_iff] at none
    exact filled (by simp [trim, none])
  obtain ⟨char, head⟩ := Option.ne_none_iff_exists'.mp there
  rw [head] at kept
  exact ⟨char, by simpa [trim] using mem_of_mem_head? head, kept⟩

variable {graph net name : String} {definition params : Json} {after : Json}

theorem getAtPath_append (front back : DocPath) :
    getAtPath node (front ++ back) = (getAtPath node front).bind fun there =>
      getAtPath there back := by
  induction front generalizing node with
  | nil => rfl
  | cons segment front ih =>
    simp only [cons_append, getAtPath]
    cases ownChild node segment with
    | none => rfl
    | some child => exact ih

theorem getAtPath_field (net field : String) :
    getAtPath doc (keyPath ["graphs", graph, "nets", net, field]) =
      (netAt doc graph net).bind fun value => ownChild value (.key field) := by
  have split : keyPath ["graphs", graph, "nets", net, field] =
    keyPath ["graphs", graph, "nets", net] ++ [.key field] := rfl
  rw [split, getAtPath_append]
  congr 1
  funext value
  rw [getAtPath]
  cases ownChild value (.key field) <;> rfl

theorem netAt_eq {found : String × Json} {selector : Option Json}
    (graphed : graphOf doc selector = some found) : selector = some (.str found.1) ∧
      ∀ other, netAt doc found.1 other =
        getField (objectFields (ownChild found.2 (.key "nets"))) other := by
  unfold graphOf at graphed
  split at graphed
  · obtain ⟨definition, there, rfl⟩ := Option.map_eq_some_iff.mp graphed
    refine ⟨rfl, fun other => ?_⟩
    rw [netAt, show keyPath ["graphs", _, "nets", other] =
      [.key "graphs", .key _] ++ [.key "nets", .key other] from rfl, getAtPath_append, there]
    simp only [Option.bind_some, getAtPath]
    cases ownChild definition (.key "nets") with
    | none => rfl
    | some nets =>
      cases nets with
      | obj fields =>
        simp only [ownChild, objectFields]
        cases getField fields other <;> rfl
      | _ => rfl
  · cases graphed

theorem of_netNameError {except : Option String}
    (passes : netNameError definition (ownChild params (.key "name")) except = none) :
    ∃ name, ownChild params (.key "name") = some (.str name) ∧ trim name ≠ "" ∧
      ∀ other held, getField (objectFields (ownChild definition (.key "nets"))) other = some held →
        ownChild held (.key "name") = some (.str name) →
        ownChild held (.key "id") = except.map Json.str := by
  unfold netNameError at passes
  split at passes
  · rename_i name given
    split at passes
    · cases passes
    · rename_i filled
      split at passes
      · cases passes
      · rename_i free
        refine ⟨name, given, filled, fun other held found called => ?_⟩
        by_contra different
        exact free (any_eq_true.mpr ⟨_, mem_of_getField found, by simp [called, different]⟩)
  · cases passes

theorem NetsNamed.write (named : NetsNamed doc)
    (elsewhere : ∀ other key, (other, key) ≠ (graph, net) → netAt after other key = netAt doc other key)
    {value : Json} (here : netAt after graph net = some value)
    (id : ownChild value (.key "id") = some (.str net))
    (called : ownChild value (.key "name") = some (.str name))
    (filled : ∃ char ∈ name.toList, isJsSpace char = false)
    (fresh : ∀ other held, netAt doc graph other = some held →
      ownChild held (.key "name") = some (.str name) → other = net) : NetsNamed after where
  named := by
    intro other key held found
    by_cases same : (other, key) = (graph, net)
    · cases same
      cases here.symm.trans found
      exact ⟨id, name, called, filled⟩
    · exact named.named ((elsewhere other key same).symm.trans found)
  distinct := by
    intro other key second held holding text found also first last
    by_cases one : (other, key) = (graph, net)
    · cases one
      cases here.symm.trans found
      cases called.symm.trans first
      by_cases two : second = net
      · exact two.symm
      · have before := (elsewhere graph second (by simp [two])).symm.trans also
        exact (fresh second holding before last).symm
    · have before := (elsewhere other key one).symm.trans found
      by_cases two : (other, second) = (graph, net)
      · cases two
        cases here.symm.trans also
        cases called.symm.trans last
        exact fresh key held before first
      · exact named.distinct before ((elsewhere other second two).symm.trans also) first last

/-- What is below a path that an operation writes a text to. -/
theorem getAtPath_written (applied : applyAt op node (keyPath keys) = .ok next) :
    getAtPath next (keyPath keys) = op.written := by
  rcases applyAt_keyPath applied keys with ⟨rest, split, written⟩ | ⟨apart, _⟩
  · cases rest with
    | nil =>
      rw [written]
      cases op.written <;> rfl
    | cons key rest =>
      have lengths := congrArg List.length split
      simp [keyPath] at lengths
  · exact absurd prefix_rfl apart

theorem NetsNamed.created {actor : Option String} {source : Json} {id : String}
    {allocation : TxCall} {final : Transaction doc} (named : NetsNamed doc)
    (allocated : allocateOne graph definition actor "net" = .ok (id, allocation))
    (plain : source.Plain) (filled : ∃ char ∈ name.toList, isJsSpace char = false)
    (fresh : ∀ other held, netAt doc graph other = some held →
      ownChild held (.key "name") ≠ some (.str name))
    (performed : performCalls (.create doc actor) [allocation,
      .set [.key "graphs", .key graph, .key "nets", .key id] (.obj [("id", .str id),
        ("name", .str name), ("source", source), ("sinks", .arr [])])] = .ok final) :
    NetsNamed final.working := by
  simp only [performCalls, bind_eq_ok] at performed
  obtain ⟨middle, first, last, second, same⟩ := performed
  cases same
  obtain ⟨op, recorded, _, counted⟩ := TxCall.perform_eq_ok first
  obtain ⟨write, path, written, applied⟩ := perform_set
    (by simp [Json.Plain, plainFields, plainItems, fieldKeys, plain]) second
  have cursor : ∀ other key, netAt middle.working other key = netAt doc other key := by
    have path := (path_toWireOp op).symm.trans recorded.path
    unfold allocateOne at allocated
    dsimp only at allocated
    split at allocated
    · cases allocated
    · cases allocated
      intro other key
      unfold applyOp at counted
      rw [path] at counted
      unfold commitAllocation at counted
      apply getAtPath_apart counted
      all_goals
        split
        · simp [TxCall.path, keyPath]
        · split <;> simp [TxCall.path, keyPath]
  unfold applyOp at applied
  rw [path] at applied
  have here : netAt final.working graph id = _ :=
    (@getAtPath_written _ _ _ ["graphs", graph, "nets", id] applied).trans written
  refine named.write (fun other key apart => ?_) here rfl rfl filled
    fun other held found called => absurd called (fresh other held found)
  rw [← cursor]
  apply getAtPath_apart applied
  all_goals
    simp [keyPath]
    grind

theorem NetsNamed.renamed {actor : Option String} {final : Transaction doc} (named : NetsNamed doc)
    (filled : ∃ char ∈ name.toList, isJsSpace char = false)
    (fresh : ∀ other held, netAt doc graph other = some held →
      ownChild held (.key "name") = some (.str name) → other = net)
    (performed : performCalls (.create doc actor)
      [.set [.key "graphs", .key graph, .key "nets", .key net, .key "name"] (.str name)] =
        .ok final) : NetsNamed final.working := by
  simp only [performCalls, bind_eq_ok] at performed
  obtain ⟨last, first, same⟩ := performed
  cases same
  obtain ⟨op, path, written, applied⟩ := perform_set (by simp [Json.Plain]) first
  unfold applyOp at applied
  rw [path] at applied
  change applyAt op doc _ = _ at applied
  have text := (@getAtPath_written _ _ _ ["graphs", graph, "nets", net, "name"] applied).trans written
  rw [getAtPath_field] at text
  obtain ⟨value, here, called⟩ := Option.bind_eq_some_iff.mp text
  have kept := @getAtPath_apart _ _ _ _ ["graphs", graph, "nets", net, "id"] applied
    (by simp [keyPath]) (by simp [keyPath])
  rw [getAtPath_field, getAtPath_field, here] at kept
  refine named.write (fun other key apart => ?_) here ?_ called filled fresh
  · apply getAtPath_apart applied
    · simp [keyPath]
    · simp [keyPath]
      grind
  · cases there : netAt doc graph net with
    | none =>
      rcases applyAt_keyPath applied ["graphs", graph, "nets", net] with
        ⟨rest, split, _⟩ | ⟨_, _, present⟩
      · simp [keyPath] at split
      · change (netAt final.working graph net).isSome = (netAt doc graph net).isSome at present
        rw [here, there] at present
        cases present
    | some before =>
      rw [there] at kept
      exact kept.trans (named.named there).1

variable {checkDocument : Json → List Diagnostic} {context : CommandExecutionContext Authority}
  {actor : Option String}

theorem calls_netCreate : (netCreate.run doc params actor context).calls = [] ∨
      ∃ source found id allocation, ownChild params (.key "source") = some source ∧
        graphOf doc (ownChild params (.key "graphId")) = some found ∧
        netNameError found.2 (ownChild params (.key "name")) none = none ∧
        allocateOne found.1 found.2 actor "net" = .ok (id, allocation) ∧
        (netCreate.run doc params actor context).calls =
          [allocation, .set [.key "graphs", .key found.1, .key "nets", .key id]
            (.obj [("id", .str id), ("name", trimmedName params), ("source", toPortRef source),
              ("sinks", .arr [])])] := by
  unfold netCreate plainCommand
  dsimp only
  split
  · exact .inl rfl
  · rename_i source given
    split
    · exact .inl rfl
    · rename_i graph definition graphed
      split
      · exact .inl rfl
      · rename_i passes
        split
        · exact .inl rfl
        · split
          · exact .inl rfl
          · rename_i id allocation allocated
            exact .inr ⟨source, (graph, definition), id, allocation,
              (Option.filter_eq_some_iff.mp given).1, graphed, passes, allocated, rfl⟩

theorem calls_netRename : (netRename.run doc params actor context).calls = [] ∨
      ∃ net found, ownChild params (.key "netId") = some (.str net) ∧
        graphOf doc (ownChild params (.key "graphId")) = some found ∧
        netNameError found.2 (ownChild params (.key "name")) (some net) = none ∧
        (netRename.run doc params actor context).calls =
          [.set [.key "graphs", .key found.1, .key "nets", .key net, .key "name"]
            (trimmedName params)] := by
  unfold netRename plainCommand
  dsimp only
  split
  · rename_i net given
    split
    · exact .inl rfl
    · rename_i graph definition graphed
      split
      · exact .inl rfl
      · split
        · exact .inl rfl
        · rename_i passes
          exact .inr ⟨net, (graph, definition), given, graphed, passes, rfl⟩
  · exact .inl rfl

theorem plain_toPortRef {value : Json} (plain : value.Plain) : (toPortRef value).Plain := by
  rw [toPortRef, plain_obj_iff]
  constructor
  · simp only [fieldKeys, filterMap_cons, filterMap_nil]
    cases ownChild value (.key "node") <;> cases ownChild value (.key "port") <;>
      cases ownChild value (.key "members") <;> simp
  · intro entry listed
    obtain ⟨name, _, found⟩ := mem_filterMap.mp listed
    obtain ⟨child, there, rfl⟩ := Option.map_eq_some_iff.mp found
    exact plain_of_ownChild plain there

theorem netsNamed_act {store later : DocumentStore} {action : StoreAction Authority}
    (named : NetsNamed store.currentDoc) (apart : GivesApart store action)
    (taken : store.act (netEnvironment checkDocument) action = some later) :
    NetsNamed later.currentDoc := by
  cases action with
  | undo | redo => exact apart.elim
  | dispatch context invocation =>
    cases taken
    rcases dispatch_cases (netEnvironment checkDocument) context store invocation with
      ⟨_, _, same, _⟩ | ⟨doc, forward, inverse, diagnostics, executed, changed, committed⟩
    · rw [same]
      exact named
    rw [committed]
    obtain ⟨definition, params, tx, registered, owned, performed, rfl, rfl⟩ :=
      performCalls_of_execute executed changed
    have called : (definition.run store.currentDoc params invocation.actor context).calls ≠ [] := by
      intro none
      rw [none] at performed
      cases performed
      exact changed rfl
    have plain := (ownJson_clean owned).1
    simp only [netEnvironment] at registered
    split at registered
    · rename_i command
      cases registered
      obtain ⟨source, found, id, allocation, given, graphed, passes, allocated, calls⟩ :=
        calls_netCreate.resolve_left called
      obtain ⟨graph, nets⟩ := netAt_eq graphed
      obtain ⟨name, asked, filled, guard⟩ := of_netNameError passes
      rw [calls, trimmedName, asked] at performed
      refine named.created allocated (plain_toPortRef (plain_of_ownChild plain given))
        (trim_filled filled) (fun other held there text => ?_) performed
      rcases apart params found.1 name owned graph asked with same | free
      · rw [same] at text
        have unnamed := guard other held ((nets other).symm.trans there) text
        rw [(named.named there).1] at unnamed
        cases unnamed
      · have renames := (free other held there text).1
        rw [command] at renames
        exact absurd renames (by decide)
    · split at registered
      · cases registered
        obtain ⟨net, found, given, graphed, passes, calls⟩ := calls_netRename.resolve_left called
        obtain ⟨graph, nets⟩ := netAt_eq graphed
        obtain ⟨name, asked, filled, guard⟩ := of_netNameError passes
        rw [calls, trimmedName, asked] at performed
        refine named.renamed (trim_filled filled) (fun other held there text => ?_) performed
        rcases apart params found.1 name owned graph asked with same | free
        · rw [same] at text
          have excepted := guard other held ((nets other).symm.trans there) text
          rw [(named.named there).1] at excepted
          cases excepted
          rfl
        · have renamed := (free other held there text).2
          rw [given] at renamed
          cases renamed
          rfl
      · cases registered

/-- Names stay unique and not blank over every run of dispatches that give them apart. -/
theorem net_names_unique {start final : DocumentStore} {actions : List (StoreAction Authority)}
    (named : NetsNamed start.currentDoc)
    (apart : Along (act (netEnvironment checkDocument)) GivesApart start actions)
    (reached : run (act (netEnvironment checkDocument)) start actions = some final) :
    NetsNamed final.currentDoc :=
  run_invariant (fun store => NetsNamed store.currentDoc) netsNamed_act named apart reached

def netStore : DocumentStore where
  currentDoc := workflowDocument [("main", .obj [("nodes", .obj [("n0", .obj [])]),
    ("nets", .obj []), ("nextOrdinal", .num 0)])]
  revisionCounter := 0
  undoStack := []
  redoStack := []
  maxUndo := 200

def createNet (name : String) : StoreAction Unit :=
  .dispatch (.initial ()) ⟨"net.create", .obj [("graphId", .str "main"), ("name", .str name),
    ("source", .obj [("node", .str "n0"), ("port", .str "out")])], none⟩

theorem netAt_netStore : netAt netStore.currentDoc graph net = none := by
  by_cases main : "main" = graph <;>
    simp [netAt, netStore, workflowDocument, keyPath, getAtPath, ownChild, main]

theorem netsNamed_netStore : NetsNamed netStore.currentDoc where
  named found := by
    rw [netAt_netStore] at found
    cases found
  distinct found := by
    rw [netAt_netStore] at found
    cases found

/-- A name with a space is stored without it, next to the one it then equals. -/
theorem net_names_collide : NetsNamed netStore.currentDoc ∧ ∃ final,
    run (act (netEnvironment fun _ => [])) netStore [createNet "a", createNet " a"] = some final ∧
      ¬ NetsNamed final.currentDoc := by
  have passes : (run (act (netEnvironment fun _ => [])) netStore
      [createNet "a", createNet " a"]).any (fun final => ["net0", "net1"].all fun net =>
        (netAt final.currentDoc "main" net).any fun value =>
          ownChild value (.key "name") = some (.str "a")) = true := by
    decide +kernel
  obtain ⟨final, reached, held⟩ := (Option.any_eq_true _ _).mp passes
  have named := all_eq_true.mp held
  obtain ⟨first, here, a⟩ := (Option.any_eq_true _ _).mp (named "net0" (by simp))
  obtain ⟨second, there, b⟩ := (Option.any_eq_true _ _).mp (named "net1" (by simp))
  refine ⟨netsNamed_netStore, final, reached, fun unique => ?_⟩
  have same := unique.distinct here there (of_decide_eq_true a) (of_decide_eq_true b)
  exact absurd same (by decide)

theorem net_names_unique_twice : ∃ final, run (act (netEnvironment fun _ => [])) netStore
    [createNet " a", createNet "b"] = some final ∧ NetsNamed final.currentDoc := by
  have passes : (run (act (netEnvironment fun _ => [])) netStore
      [createNet " a", createNet "b"]).isSome = true := rfl
  obtain ⟨final, reached⟩ := Option.isSome_iff_exists.mp passes
  refine ⟨final, reached, net_names_unique netsNamed_netStore ?_ reached⟩
  constructor
  · refine fun params graph name _ _ _ => .inr fun net value found => ?_
    rw [netAt_netStore] at found
    cases found
  · refine fun next _ => ⟨fun params graph name owned _ called => .inl ?_, fun _ _ => trivial⟩
    have same := ((ownJson_eq_ok_iff (by simp [Json.Plain, plainFields, fieldKeys])).mp owned).2
    rw [← same] at called
    cases called
    decide

end Dinkster.Commands
