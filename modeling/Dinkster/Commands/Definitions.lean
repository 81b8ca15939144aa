import Dinkster.Commands.Transmission
import Dinkster.Commands.Reroute
import Dinkster.Commands.Store
import Dinkster.Library.Naming

/-!
# Commands that create and remove definitions

Nodes, links and nets are named from cursors that the document records.  Definitions are
not: a command that creates one names it `g<n>` with the first number that is free at that
moment.  What such a command puts into a definition, and what else it writes, is a parameter
here; how it names the definition is not.
-/

namespace Dinkster.Commands

open Library Format

variable {Authority : Type}

def definitionId (_ : Unit) (ordinal : Nat) : String :=
  "g" ++ toString ordinal

variable (doc : Json)

/-- `Object.keys(doc.graphs)`. -/
def graphIds : List String :=
  fieldKeys (objectFields (ownChild doc (.key "graphs")))

def freshDefinitionId : String :=
  definitionId () (firstFree definitionId (graphIds doc) ())

/-- Whether a path leads to a definition as a whole or to what contains it. -/
def reachesDefinitions : DocPath → Bool
  | [] => true
  | [.key name] => name = "graphs"
  | [.key name, _] => name = "graphs"
  | _ => false

/-- Writes that neither add nor remove a definition. -/
structure OtherWrites where
  calls : List TxCall
  apart : ∀ call ∈ calls, reachesDefinitions call.path = false

/-- How a command ends that does not write. -/
abbrev Refusal := Except String (List Diagnostic)

/-- What a command works out from what it is given, or its refusal. -/
abbrev Plan (Authority Result : Type) :=
  Json → Json → Option String → CommandExecutionContext Authority → Except Refusal Result

/-- A definition that a command creates, and what else it writes. -/
structure Creation where
  definition : Json
  view : Json
  others : OtherWrites
  diagnostics : List Diagnostic

/-- The writes that create a definition. -/
def addDefinition (id : String) (definition view : Json) : List TxCall :=
  [.set [.key "graphs", .key id] definition, .set [.key "view", .key "graphs", .key id] view]

def plainCommand
    (run : Json → Json → Option String → CommandExecutionContext Authority → CommandRun) :
    CommandDefinition Authority where
  prepareForSharedReplay := none
  transformForRebase := none
  validateDispatch := none
  run := run

/-- `subgraph.extract`: the definition of what is selected, under a fresh name. -/
def subgraphExtract (extraction : String → Plan Authority Creation) : CommandDefinition Authority :=
  plainCommand fun doc params actor context =>
    let freshGraphId := freshDefinitionId doc
    match extraction freshGraphId doc params actor context with
    | .error refusal => ⟨[], refusal⟩
    | .ok creation =>
      ⟨addDefinition freshGraphId creation.definition creation.view ++ creation.others.calls,
        .ok creation.diagnostics⟩

/-- How many nodes of the document are occurrences of a definition. -/
def linkedCount (sourceId : String) : Nat :=
  ((objectFields (ownChild doc (.key "graphs"))).map fun graph =>
    (objectFields (ownChild graph.2 (.key "nodes"))).countP fun node =>
      bodyOf node.2 = some sourceId).sum

def clonedDefinition (source : Json) (freshId : String) : Json :=
  let name := match ownChild source (.key "name") with
    | some (.str name) => name
    | _ => "undefined"
  match source with
  | .obj fields =>
    .obj (setField (setField fields "id" (.str freshId)) "name" (.str (name ++ " (Unique)")))
  | other => other

/-- `occurrence.localize`: give an occurrence a definition of its own.  The entries of `ext` and
the topologies that mention the definition are `others`. -/
def occurrenceLocalize (others : Json → String → String → OtherWrites) :
    CommandDefinition Authority :=
  plainCommand fun doc params _ _ =>
    match ownChild params (.key "graphId"), ownChild params (.key "nodeId") with
    | some (.str graphId), some (.str nodeId) =>
      let occurrence := getAtPath doc [.key "graphs", .key graphId, .key "nodes", .key nodeId]
      match occurrence.bind bodyOf with
      | none =>
        ⟨[], .ok [commandError "subgraph.localize.notOccurrence"
          "occurrence.localize: target is not a resolvable subgraph occurrence"]⟩
      | some sourceId =>
        match getAtPath doc [.key "graphs", .key sourceId] with
        | none =>
          ⟨[], .ok [commandError "subgraph.localize.notOccurrence"
            "occurrence.localize: target is not a resolvable subgraph occurrence"]⟩
        | some source =>
          if linkedCount doc sourceId < 2 then
            ⟨[], .ok [commandError "subgraph.localize.notShared"
              "occurrence.localize: definition has fewer than two occurrences"]⟩
          else
            let freshId := freshDefinitionId doc
            let view := (getAtPath doc [.key "view", .key "graphs", .key sourceId]).getD
              (.obj [("nodes", .obj [])])
            ⟨addDefinition freshId (clonedDefinition source freshId) view ++
              .set [.key "graphs", .key graphId, .key "nodes", .key nodeId, .key "type"]
                (.str ("#" ++ freshId)) :: (others doc sourceId freshId).calls, .ok []⟩
    | _, _ =>
      ⟨[], .ok [commandError "params.invalid"
        "occurrence.localize: params must include graphId and nodeId"]⟩

structure ShapeChecks where
  graph : Json → String → List Diagnostic
  view : Json → String → List Diagnostic

def Diagnostic.prefixed (text : String) (diagnostic : Diagnostic) : Diagnostic :=
  { diagnostic with message := text ++ diagnostic.message }

variable (checks : ShapeChecks)

def importProblems (doc : Json) (id : String) (definition : Json) : List Diagnostic :=
  if (graphIds doc).contains id then
    [commandError "graph.exists" s!"subgraph.import: definition '{id}' already exists"]
  else
    let shape := checks.graph definition s!"graphs.{id}"
    let own := ownChild definition (.key "id")
    let ownText := (own.map stringText).getD "undefined"
    shape.map (·.prefixed "subgraph.import: ") ++
      if shape.isEmpty && own ≠ some (.str id) then
        [commandError "params.invalid" s!"subgraph.import: def key '{id}' != id '{ownText}'"]
      else []

def importViewProblems (graphs : List (String × Json)) (id : String)
    (view : Json) : List Diagnostic :=
  match getField graphs id with
  | none =>
    [commandError "params.invalid" s!"subgraph.import: view for '{id}' has no matching graph"]
  | some _ => (checks.view view s!"view.{id}").map (·.prefixed "subgraph.import: ")

def importedView (views : List (String × Json)) (id : String) : Json :=
  match getField views id with
  | none | some .null => .obj [("nodes", .obj [])]
  | some view => view

/-- `subgraph.import`: definitions under the names they come with. -/
def subgraphImport : CommandDefinition Authority :=
  plainCommand fun doc params _ _ =>
    match ownChild params (.key "graphs") with
    | some (.obj graphs) =>
      if graphs.isEmpty then
        ⟨[], .ok [commandError "params.invalid" "subgraph.import: graphs must not be empty"]⟩
      else
        let problems := graphs.flatMap fun entry => importProblems checks doc entry.1 entry.2
        let views := objectFields (ownChild params (.key "view"))
        match ownChild params (.key "view") with
        | none | some (.obj _) =>
          let diags := problems ++
            views.flatMap fun entry => importViewProblems checks graphs entry.1 entry.2
          if hasErrors diags then ⟨[], .ok diags⟩
          else
            ⟨graphs.flatMap fun entry =>
              addDefinition entry.1 entry.2 (importedView views entry.1), .ok diags⟩
        | some _ =>
          ⟨[], .ok (problems ++
            [commandError "params.invalid" "subgraph.import: view must be an object"])⟩
    | _ =>
      ⟨[], .ok [commandError "params.invalid"
        "subgraph.import: params must be \x7bgraphs: \x7bdefId: GraphDef\x7d, view?\x7d"]⟩

/-- What `planSubgraphDefinitionCleanup` says of the definitions that are not reachable. -/
structure CleanupPlan where
  fingerprint : String
  removable : List (String × List String)

/-- `removeDefinitionSupportState`, with the writes outside definitions and views as `others`. -/
def removeDefinitionSupportState (others : Json → List String → OtherWrites) (doc : Json)
    (removed : List String) : List TxCall :=
  (removed.flatMap fun id =>
    .remove [.key "graphs", .key id] ::
      match getAtPath doc [.key "view", .key "graphs", .key id] with
      | some _ => [.remove [.key "view", .key "graphs", .key id]]
      | none => []) ++ (others doc removed).calls

def isString : Json → Bool
  | .str _ => true
  | _ => false

def removeUnusedDefinitions (cleanup : Json → CleanupPlan)
    (others : Json → List String → OtherWrites) : CommandDefinition Authority :=
  plainCommand fun doc params _ _ =>
    match ownChild params (.key "definitionIds"), ownChild params (.key "fingerprint") with
    | some (.arr supplied), some (.str fingerprint) =>
      let plan := cleanup doc
      let expected := plan.removable.map Prod.fst
      if !supplied.all isString then
        ⟨[], .ok [commandError "params.invalid"
          "subgraph.removeUnusedDefinitions: params must include definitionIds and fingerprint"]⟩
      else if fingerprint ≠ plan.fingerprint ∨ supplied ≠ expected.map Json.str then
        ⟨[], .ok [commandError "subgraph.cleanup.stalePlan"
          "subgraph.removeUnusedDefinitions: definition reachability changed after preview"]⟩
      else if expected.isEmpty then
        ⟨[], .ok [commandError "subgraph.cleanup.noneUnused"
          "subgraph.removeUnusedDefinitions: no unused definitions remain"]⟩
      else ⟨removeDefinitionSupportState others doc expected, .ok []⟩
    | _, _ =>
      ⟨[], .ok [commandError "params.invalid"
        "subgraph.removeUnusedDefinitions: params must include definitionIds and fingerprint"]⟩

def deleteDefinition (cleanup : Json → CleanupPlan) (others : Json → List String → OtherWrites) :
    CommandDefinition Authority :=
  plainCommand fun doc params _ _ =>
    match ownChild params (.key "definitionId"), ownChild params (.key "fingerprint") with
    | some (.str definitionId), some (.str fingerprint) =>
      let plan := cleanup doc
      if fingerprint ≠ plan.fingerprint then
        ⟨[], .ok [commandError "subgraph.cleanup.stalePlan"
          "subgraph.deleteDefinition: definition reachability changed after preview"]⟩
      else if definitionId ∉ plan.removable.map Prod.fst then
        ⟨[], .ok [commandError "subgraph.cleanup.definitionInUse"
          "subgraph.deleteDefinition: definition is missing or reachable from root"]⟩
      else if plan.removable.any fun entry =>
          entry.1 ≠ definitionId && entry.2.contains definitionId then
        ⟨[], .ok [commandError "subgraph.cleanup.definitionInUse"
          "subgraph.deleteDefinition: another unused definition still references this definition"]⟩
      else ⟨removeDefinitionSupportState others doc [definitionId], .ok []⟩
    | _, _ =>
      ⟨[], .ok [commandError "params.invalid"
        "subgraph.deleteDefinition: params must include definitionId and fingerprint"]⟩

/-- The definitions that come with what is pasted. -/
structure DefinitionClosure where
  /-- The pasted document is this one, by its lineage. -/
  sameLineage : Bool
  /-- The names the definitions come with. -/
  sources : List String
  /-- `definitionOrder`: a definition comes after those it refers to. -/
  order : Option (List String)
  /-- A definition under a name, its references renamed. -/
  definition : String → String → List (String × String) → Json
  view : String → Json
  /-- The document has the definition under its own name with the same content. -/
  unchanged : String → List (String × String) → Bool

/-- A definition that a paste brings along, under its name in the document. -/
structure DefinitionImport where
  id : String
  definition : Json
  view : Json

/-- Where a paste is with its definitions: the names in use, where the search for the next free
one goes on, the names given so far and the definitions to import. -/
structure PasteState where
  reserved : List String
  nextGraphOrdinal : Nat
  ids : List (String × String)
  imports : List DefinitionImport

def PasteState.freshId (state : PasteState) : Option (String × PasteState) :=
  let size := state.reserved.dedup.length
  let ordinal := skipUsed definitionId state.reserved () (size + 1 - state.nextGraphOrdinal)
    state.nextGraphOrdinal
  if ordinal ≤ size then
    let id := definitionId () ordinal
    some (id, { state with reserved := id :: state.reserved, nextGraphOrdinal := ordinal + 1 })
  else none

variable (closure : DefinitionClosure)

/-- Record the name of a definition and import it. -/
def PasteState.import_ (source id : String) (state : PasteState) : PasteState :=
  let ids := state.ids ++ [(source, id)]
  { state with
    ids := ids
    imports := state.imports ++ [⟨id, closure.definition source id ids, closure.view source⟩] }

/-- Paste one definition: keep the document's, import it under its own name, or rename it. -/
def pasteDefinition (existing : List String) (state : PasteState)
    (source : String) : Option PasteState :=
  if source ∈ existing then
    if closure.unchanged source state.ids then
      some { state with ids := state.ids ++ [(source, source)] }
    else state.freshId.map fun (id, state) => state.import_ closure source id
  else some (state.import_ closure source source)

def PasteState.start (existing : List String) : PasteState :=
  ⟨existing ++ closure.sources, 0, [], []⟩

def planDefinitionPaste (existing : List String) : Option PasteState :=
  let start := PasteState.start closure existing
  if closure.sameLineage && closure.sources.all (· ∈ existing) then
    some { start with ids := closure.sources.map fun id => (id, id) }
  else
    match closure.order with
    | none => none
    | some order => order.foldlM (pasteDefinition closure existing) start

/-- What is pasted: the definitions that come along, if any, and what else is written once they
have their names. -/
structure Paste where
  closure : Option DefinitionClosure
  others : List (String × String) → OtherWrites
  result : Refusal

/-- The writes of a paste plan. -/
def PasteState.calls (state : PasteState) : List TxCall :=
  state.imports.flatMap fun entry => addDefinition entry.id entry.definition entry.view

/-- `clipboard.paste`. -/
def clipboardPaste (paste : Plan Authority Paste) : CommandDefinition Authority :=
  plainCommand fun doc params actor context =>
    match paste doc params actor context with
    | .error refusal => ⟨[], refusal⟩
    | .ok pasted =>
      match pasted.closure with
      | none => ⟨(pasted.others []).calls, pasted.result⟩
      | some definitions =>
        match planDefinitionPaste definitions (graphIds doc) with
        | none =>
          ⟨[], .ok [commandError "clipboard.definitionIdsExhausted"
            "clipboard.paste: no definition id is available"]⟩
        | some plan => ⟨plan.calls ++ (pasted.others plan.ids).calls, pasted.result⟩

/-- A command whose writes neither add nor remove a definition. -/
structure OtherCommand (Authority : Type) where
  definition : CommandDefinition Authority
  apart : ∀ doc params actor context, ∀ call ∈ (definition.run doc params actor context).calls,
    reachesDefinitions call.path = false

structure DefinitionCommands (Authority : Type) where
  extraction : String → Plan Authority Creation
  localizeOthers : Json → String → String → OtherWrites
  checks : ShapeChecks
  cleanup : Json → CleanupPlan
  cleanupOthers : Json → List String → OtherWrites
  paste : Plan Authority Paste
  others : String → Option (OtherCommand Authority)
  checkDocument : Json → List Diagnostic

def DefinitionCommands.environment (commands : DefinitionCommands Authority) :
    Environment Authority where
  commands := fun name =>
    if name = "subgraph.import" then some (subgraphImport commands.checks)
    else if name = "subgraph.extract" then some (subgraphExtract commands.extraction)
    else if name = "occurrence.localize" then some (occurrenceLocalize commands.localizeOthers)
    else if name = "subgraph.deleteDefinition" then
      some (deleteDefinition commands.cleanup commands.cleanupOthers)
    else if name = "subgraph.removeUnusedDefinitions" then
      some (removeUnusedDefinitions commands.cleanup commands.cleanupOthers)
    else if name = "clipboard.paste" then some (clipboardPaste commands.paste)
    else (commands.others name).map OtherCommand.definition
  checkDocument := commands.checkDocument

end Dinkster.Commands
