import Dinkster.Commands.Reroute

/-!
# A command that writes a value

A value source of a graph holds a JSON value that its user sets.  The command that
sets it writes whatever JSON it is given, over whatever was there.
-/

namespace Dinkster.Commands

open Library Format

/-- `valueSource.setValue {graphId, valueSourceId, value}`. -/
def valueSourceSetValue (Authority : Type) : CommandDefinition Authority where
  prepareForSharedReplay := none
  transformForRebase := none
  validateDispatch := none
  run := fun doc params _ _ =>
    match ownChild params (.key "valueSourceId"), ownChild params (.key "value") with
    | some (.str sourceId), some value =>
      match graphOf doc (ownChild params (.key "graphId")) with
      | none =>
        let graphId := ((ownChild params (.key "graphId")).map stringText).getD "undefined"
        ⟨[], .ok [commandError "graph.missing"
          s!"valueSource.setValue: unknown graph '{graphId}'"]⟩
      | some (graphId, definition) =>
        match getAtPath definition [.key "valueSources", .key sourceId] with
        | none =>
          ⟨[], .ok [commandError "valueSource.missing"
            s!"valueSource.setValue: unknown value source '{sourceId}'"]⟩
        | some _ =>
          ⟨[.set [.key "graphs", .key graphId, .key "valueSources", .key sourceId,
            .key "value"] value], .ok []⟩
    | _, _ =>
      ⟨[], .ok [commandError "params.invalid"
        "valueSource.setValue: params must be \x7bgraphId, valueSourceId, value\x7d"]⟩

/-- The invocation that sets a value source of the graph `main`. -/
def setValueSource (sourceId : String) (value : Json) : CommandInvocation where
  command := "valueSource.setValue"
  params := .obj [("graphId", .str "main"), ("valueSourceId", .str sourceId), ("value", value)]
  actor := none

def valueSourceGraph (id : String) (sources : List String) : Json :=
  .obj [("id", .str id), ("name", .str id), ("nodes", .obj []), ("links", .obj []),
    ("nets", .obj []), ("reroutes", .obj []),
    ("valueSources", .obj (sources.map fun source =>
      (source, .obj [("id", .str source), ("value", .null)]))),
    ("nextOrdinal", .num 0)]

def sourceDocument : Json :=
  workflowDocument [("main", valueSourceGraph "main" ["v1", "v2"])]

theorem plain_sourceDocument : sourceDocument.Plain := by
  have owned : (ownJson sourceDocument).toOption = some sourceDocument := by decide +kernel
  exact (ownJson_clean (toOption_eq_some owned)).1

def sourceValuePath (sourceId : String) : DocPath :=
  [.key "graphs", .key "main", .key "valueSources", .key sourceId, .key "value"]

end Dinkster.Commands
