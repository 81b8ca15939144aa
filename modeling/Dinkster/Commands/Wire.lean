import Dinkster.Commands.Patch

/-!
# Patches on the wire

A forward patch crosses the wire without the values it displaces.  `applyOps` is
the ingress for such patches: the whole batch passes the ownership boundary once
and is then decoded and applied operation by operation.  The collaboration
protocol additionally checks the shape of every patch it receives.
-/

namespace Dinkster.Commands

open Library Format

/-- `WirePatchOp`: a forward operation as the wire carries it. -/
inductive WirePatchOp where
  | add (path : DocPath) (value : Json)
  | replace (path : DocPath) (value : Json)
  | remove (path : DocPath)
  deriving DecidableEq

/-- The wire form of one forward operation. -/
def toWireOp : PatchOp → WirePatchOp
  | .add path value => .add path value
  | .remove path _ => .remove path
  | .replace path value _ => .replace path value

/-- `toWirePatch`: strip what only the local history needs. -/
def toWirePatch (ops : List PatchOp) : List WirePatchOp :=
  ops.map toWireOp

def segmentJson : Segment → Json
  | .key name => .str name
  | .index position => .num position

def pathJson (path : DocPath) : Json :=
  .arr (path.map segmentJson)

def WirePatchOp.json : WirePatchOp → Json
  | .add path value => .obj [("op", .str "add"), ("path", pathJson path), ("value", value)]
  | .replace path value =>
    .obj [("op", .str "replace"), ("path", pathJson path), ("value", value)]
  | .remove path => .obj [("op", .str "remove"), ("path", pathJson path)]

def wirePatchJson (patch : List WirePatchOp) : Json :=
  .arr (patch.map WirePatchOp.json)

mutual

/-- `String(value)` of a JSON value. -/
def stringText : Json → String
  | .null => "null"
  | .bool value => toString value
  | .num value => numberText value
  | .str value => value
  | .arr items => String.intercalate "," (stringTexts items)
  | .obj _ => "[object Object]"

/-- The texts of array elements; `null` is printed as nothing. -/
def stringTexts : List Json → List String
  | [] => []
  | .null :: rest => "" :: stringTexts rest
  | item :: rest => stringText item :: stringTexts rest

end

/-- A failure of foreign ingress. -/
def ingressError (reason : String) : PatchError :=
  ⟨none, reason⟩

def decodeSegment : Json → Option Segment
  | .str name => some (.key name)
  | .num position => some (.index position)
  | _ => none

/-- `decodeOwnedOp`: strictly decode one owned operation. -/
def decodeOwnedOp (json : Json) (index : Nat) : Except PatchError PatchOp :=
  match json with
  | .obj fields =>
    let kind := (getField fields "op").elim "undefined" stringText
    let known : Bool := match getField fields "op" with
      | some (.str kind) => kind == "add" || kind == "remove" || kind == "replace"
      | _ => false
    if known = false then
      .error (ingressError s!"ops[{index}]: unknown op kind '{kind}'")
    else
      match getField fields "path" with
      | some (.arr segments) =>
        match segments.mapM decodeSegment with
        | none =>
          .error (ingressError
            s!"ops[{index}]: path segments must be strings or numbers")
        | some path =>
          let oldValue := (getField fields "oldValue").getD .null
          if kind = "remove" then
            .ok (.remove path oldValue)
          else
            match getField fields "value" with
            | none => .error (ingressError s!"ops[{index}]: {kind} requires a value")
            | some value =>
              if kind = "add" then .ok (.add path value)
              else .ok (.replace path value oldValue)
      | _ => .error (ingressError s!"ops[{index}]: path must be an array of segments")
  | _ => .error (ingressError s!"ops[{index}] must be an object")

/-- The loop of `applyOps` over an owned batch, from an index on. -/
def applyDecoded : Json → List Json → Nat → Except PatchError Json
  | root, [], _ => .ok root
  | root, json :: rest, index => do
    let op ← decodeOwnedOp json index
    applyDecoded (← applyOp root op) rest (index + 1)

/-- `applyOps`: the safe ingress for foreign operations. -/
def applyOps (root ops : Json) : Except PatchError Json :=
  match ownJson ops with
  | .error reason => .error (ingressError s!"ops are not JSON: {reason}")
  | .ok (.arr batch) => applyDecoded root batch 0
  | .ok _ => .error (ingressError "ops must be an array")

theorem plain_of_decodeOwnedOp {json : Json} {index : Nat} {op : PatchOp} (plain : json.Plain)
    (decoded : decodeOwnedOp json index = .ok op) : op.Plain := by
  have displaced {fields : List (String × Json)} (plain : (Json.obj fields).Plain) :
      ((getField fields "oldValue").getD .null).Plain := by
    cases found : getField fields "oldValue" with
    | none => trivial
    | some oldValue => exact plain_of_getField plain found
  have admitted {refused : Prop} [Decidable refused] {reason : PatchError}
      {outcome : Except PatchError PatchOp}
      (passed : (if refused then .error reason else outcome) = .ok op) : outcome = .ok op := by
    split at passed
    · simp at passed
    · exact passed
  unfold decodeOwnedOp at decoded
  split at decoded
  · replace decoded := admitted decoded
    split at decoded
    · split at decoded
      · simp at decoded
      split at decoded
      · exact Except.ok.inj decoded ▸ displaced plain
      split at decoded
      · simp at decoded
      rename_i value found
      have valuePlain := plain_of_getField plain found
      split at decoded
      · exact Except.ok.inj decoded ▸ valuePlain
      · exact Except.ok.inj decoded ▸ ⟨valuePlain, displaced plain⟩
    · simp at decoded
  · simp at decoded

variable {next root : Json} {patch : List WirePatchOp}

theorem plain_of_applyDecoded {batch : List Json} {index : Nat} (plain : root.Plain)
    (batchPlain : ∀ json ∈ batch, json.Plain) (applied : applyDecoded root batch index = .ok next) :
    next.Plain := by
  induction batch generalizing root index with
  | nil => exact Except.ok.inj applied ▸ plain
  | cons json rest ih =>
    rw [applyDecoded, bind_eq_ok] at applied
    obtain ⟨op, decoded, applied⟩ := applied
    rw [bind_eq_ok] at applied
    obtain ⟨middle, first, later⟩ := applied
    have opPlain := plain_of_decodeOwnedOp (batchPlain json List.mem_cons_self) decoded
    exact ih (plain_applyAt plain opPlain first)
      (fun other member => batchPlain other (List.mem_cons_of_mem _ member)) later

/-- What foreign operations make of a plain document is plain. -/
theorem plain_of_applyOps {ops : Json} (plain : root.Plain)
    (applied : applyOps root ops = .ok next) : next.Plain := by
  unfold applyOps at applied
  split at applied
  · simp at applied
  · rename_i batch owned
    exact plain_of_applyDecoded plain (plain_arr_iff.mp (ownJson_clean owned).1) applied
  · simp at applied

def isValidCollabRevision (revision : Nat) : Bool :=
  revision ≤ 9007199254740991

def forbiddenSegments : List String :=
  ["__proto__", "constructor", "prototype"]

def validateSegmentShape : Json → Option String
  | .str name =>
    if name ∈ forbiddenSegments then some s!"forbidden path segment '{name}'" else none
  | .num position =>
    if (slot? position).isSome then none
    else some "patch path segments must be strings or non-negative integers"
  | _ => some "patch path segments must be strings or non-negative integers"

def validateWireOpShape : Json → Option String
  | .obj fields =>
    match getField fields "op" with
    | some (.str kind) =>
      if kind ∉ ["add", "remove", "replace"] then
        some s!"unknown patch op {kind.quote}"
      else
        match getField fields "path" with
        | some (.arr (segment :: rest)) =>
          match (segment :: rest).findSome? validateSegmentShape with
          | some reason => some reason
          | none =>
            if kind ≠ "remove" ∧ (getField fields "value").isNone then
              some s!"{kind} requires a value"
            else
              none
        | _ => some "patch path must be a non-empty array"
    | other =>
      let kind := other.elim "undefined" stringText
      some s!"unknown patch op {kind}"
  | _ => some "patch op must be an object"

/-- `validateCollabWirePatchShape`: the first objection to a patch, if any. -/
def validateCollabWirePatchShape : Json → Option String
  | .arr ops => ops.findSome? validateWireOpShape
  | _ => some "patch must be an array"

/-- The operation a wire operation decodes to; what it displaces is unknown. -/
def WirePatchOp.decoded : WirePatchOp → PatchOp
  | .add path value => .add path value
  | .replace path value => .replace path value .null
  | .remove path => .remove path .null

/-- Every value a wire operation carries is plain. -/
def WirePatchOp.Plain (op : WirePatchOp) : Prop :=
  op.decoded.Plain

def applyWire (node : Value) (patch : List WirePatchOp) : Option Value :=
  applyAll node (patch.map WirePatchOp.decoded)

@[simp] theorem decoded_toWireOp_apply (op : PatchOp) (node : Value) :
    (toWireOp op).decoded.apply node = op.apply node := by
  cases op <;> rfl

/-- The wire form of a forward patch has the same effect. -/
theorem applyWire_toWirePatch (node : Value) (ops : List PatchOp) :
    applyWire node (toWirePatch ops) = applyAll node ops := by
  induction ops generalizing node with
  | nil => rfl
  | cons op rest ih =>
    simp only [applyWire, toWirePatch, List.map_cons, applyAll, decoded_toWireOp_apply] at ih ⊢
    cases op.apply node with
    | none => rfl
    | some next => exact ih next

@[simp] theorem decode_segmentJson (path : DocPath) :
    path.mapM (decodeSegment ∘ segmentJson) = some path := by
  induction path with
  | nil => rfl
  | cons segment rest ih =>
    cases segment <;> simp [segmentJson, decodeSegment, ih]

theorem decodeOwnedOp_json (op : WirePatchOp) (index : Nat) :
    decodeOwnedOp op.json index = .ok op.decoded := by
  cases op <;>
    simp [WirePatchOp.json, decodeOwnedOp, pathJson, stringText, WirePatchOp.decoded]

@[simp] theorem toWireOp_decoded (wire : WirePatchOp) : toWireOp wire.decoded = wire := by
  cases wire <;> rfl

theorem wirePatchJson_injective {left right : List WirePatchOp}
    (same : wirePatchJson left = wirePatchJson right) : left = right := by
  refine List.map_injective_iff.mpr (fun first second equal => ?_) (Json.arr.inj same)
  have decoded := decodeOwnedOp_json first 0
  rw [equal, decodeOwnedOp_json second 0] at decoded
  rw [← toWireOp_decoded first, ← Except.ok.inj decoded, toWireOp_decoded]

theorem applyDecoded_json (root : Json) (patch : List WirePatchOp) (index : Nat) :
    applyDecoded root (patch.map WirePatchOp.json) index =
      applyOwnedOps root (patch.map WirePatchOp.decoded) := by
  induction patch generalizing root index with
  | nil => rfl
  | cons op rest ih =>
    simp only [List.map_cons, applyDecoded, decodeOwnedOp_json, applyOwnedOps]
    cases applied : applyOp root op.decoded with
    | error reason => simp [bind, Except.bind, applied]
    | ok next => simpa [bind, Except.bind, applied] using ih next (index + 1)

theorem plain_wirePatchJson (plain : ∀ op ∈ patch, op.Plain) : (wirePatchJson patch).Plain := by
  have segmentPlain (path : DocPath) : (pathJson path).Plain := by
    refine plain_arr_iff.mpr fun json member => ?_
    obtain ⟨segment, _, rfl⟩ := List.mem_map.mp member
    cases segment <;> simp [segmentJson, Json.Plain]
  have textPlain (text : String) : (Json.str text).Plain := by simp [Json.Plain]
  refine plain_arr_iff.mpr fun json member => ?_
  obtain ⟨op, inPatch, rfl⟩ := List.mem_map.mp member
  have opPlain := plain op inPatch
  cases op with
  | add path value =>
    have valuePlain : value.Plain := opPlain
    exact plain_obj_iff.mpr ⟨by simp [fieldKeys], by simp [textPlain, segmentPlain, valuePlain]⟩
  | replace path value =>
    have valuePlain : value.Plain := opPlain.1
    exact plain_obj_iff.mpr ⟨by simp [fieldKeys], by simp [textPlain, segmentPlain, valuePlain]⟩
  | remove path =>
    exact plain_obj_iff.mpr ⟨by simp [fieldKeys], by simp [textPlain, segmentPlain]⟩

/-- A wire patch applies exactly when its batch is within the ownership budgets
and its operations fit. -/
theorem applyOps_wirePatchJson (plain : ∀ op ∈ patch, op.Plain) :
    applyOps root (wirePatchJson patch) = .ok next ↔ Ownable jsonLimits (wirePatchJson patch) ∧
        applyOwnedOps root (patch.map WirePatchOp.decoded) = .ok next := by
  have boundary := fun owned => @ownJson_eq_ok_iff (wirePatchJson patch) owned
    (plain_wirePatchJson plain)
  unfold applyOps
  cases accepted : ownJson (wirePatchJson patch) with
  | error reason =>
    have refused : ¬ Ownable jsonLimits (wirePatchJson patch) := fun ownable => by
      simp [(boundary _).mpr ⟨ownable, rfl⟩] at accepted
    simp [refused]
  | ok owned =>
    obtain ⟨ownable, rfl⟩ := (boundary owned).mp accepted
    simp only [wirePatchJson, applyDecoded_json, iff_and_self]
    exact fun _ => ownable

end Dinkster.Commands
