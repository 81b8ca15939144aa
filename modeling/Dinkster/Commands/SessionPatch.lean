import Dinkster.Commands.Store

/-!
# The patch replay command

`session.patch` replays a wire-shaped forward patch as an ordinary command, so
that undo and redo of a shared session ride the same validation pipeline as every
mutation: the ownership boundary, the refusal of `__proto__` segments and the
invariant check.
-/

namespace Dinkster.Commands

open Library Format

/-- The reserved id of the patch replay command. -/
def sessionPatchId : String :=
  "session.patch"

def endsInIndex (path : DocPath) : Bool :=
  match path.getLast? with
  | some (.index _) => true
  | _ => false

def sessionPatchCall : Json → Except String TxCall
  | .obj fields =>
    match getField fields "path" with
    | some (.arr segments) =>
      match segments.mapM decodeSegment with
      | none => .error "session.patch: malformed op"
      | some path =>
        let kind := (getField fields "op").elim "undefined" stringText
        let value := getField fields "value"
        if kind = "remove" then
          .ok (.remove path)
        else if kind = "add" || kind = "replace" then
          match value with
          | none => .error s!"set {pathText path}: $: undefined is not JSON"
          | some value =>
            if kind = "add" && endsInIndex path then .ok (.insert path value)
            else .ok (.set path value)
        else
          .error s!"session.patch: unknown op '{kind}'"
    | _ => .error "session.patch: malformed op"
  | _ => .error "session.patch: malformed op"

/-- The builder calls for the operations of the patch, up to the first that is
malformed. -/
def sessionPatchRun : List Json → CommandRun
  | [] => ⟨[], .ok []⟩
  | raw :: rest =>
    match sessionPatchCall raw with
    | .error message => ⟨[], .error message⟩
    | .ok call =>
      let run := sessionPatchRun rest
      ⟨call :: run.calls, run.result⟩

def sessionPatchCommand (Authority : Type) : CommandDefinition Authority where
  prepareForSharedReplay := none
  transformForRebase := none
  validateDispatch := none
  run := fun _ params _ _ =>
    match ownChild params (.key "ops") with
    | some (.arr ops) => sessionPatchRun ops
    | _ => ⟨[], .error "session.patch: params.ops must be an array"⟩

variable (patch : List WirePatchOp)

def sessionPatchParams : Json :=
  .obj [("ops", wirePatchJson patch)]

def replayCall : WirePatchOp → TxCall
  | .add path value => if endsInIndex path then .insert path value else .set path value
  | .replace path value => .set path value
  | .remove path => .remove path

theorem sessionPatchCall_json (op : WirePatchOp) :
    sessionPatchCall op.json = .ok (replayCall op) := by
  cases op with
  | add path value =>
    by_cases index : endsInIndex path = true <;>
      simp [WirePatchOp.json, sessionPatchCall, pathJson, stringText, replayCall, index]
  | replace path value =>
    simp [WirePatchOp.json, sessionPatchCall, pathJson, stringText, replayCall]
  | remove path => simp [WirePatchOp.json, sessionPatchCall, pathJson, stringText, replayCall]

theorem sessionPatchRun_json :
    sessionPatchRun (patch.map WirePatchOp.json) = ⟨patch.map replayCall, .ok []⟩ := by
  induction patch with
  | nil => rfl
  | cons op rest ih =>
    simp only [List.map_cons, sessionPatchRun, sessionPatchCall_json, ih]

/-- A registry whose only command replays patches. -/
def patchEnvironment : Environment Unit where
  commands := fun id => if id = sessionPatchId then some (sessionPatchCommand Unit) else none
  checkDocument := fun _ => []

end Dinkster.Commands
