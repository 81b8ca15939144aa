import Dinkster.Commands.Contract

/-!
# From the builder to the wire

A locally recorded patch passes gates on the wire that the builder does not have:
the shape check refuses the root and the segments `constructor` and `prototype`,
and ingress charges the whole batch, with its operations and paths, against the
budgets that the builder applied to each value alone.  `Transmissible` says in
terms of the builder calls when a patch passes them.
-/

namespace Dinkster.Commands

open Library Format List
open WirePatchOp (decoded json)

def WirePatchOp.path : WirePatchOp → DocPath
  | .add path _ => path
  | .replace path _ => path
  | .remove path => path

def WirePatchOp.kind : WirePatchOp → String
  | .add _ _ => "add"
  | .replace _ _ => "replace"
  | .remove _ => "remove"

def WirePatchOp.carried : WirePatchOp → Option Json
  | .add _ value => some value
  | .replace _ value => some value
  | .remove _ => none

/-- The code units of a path. -/
def pathChars (path : DocPath) : Nat :=
  (path.map fun segment =>
    match segment with
    | .key name => codeUnits name
    | .index _ => 0).sum

def carriedHeight (value : Option Json) : Nat :=
  value.elim 0 Json.height

def wireNodes (path : DocPath) (value : Option Json) : Nat :=
  3 + path.length + value.elim 0 Json.nodes

/-- The code units of an operation: its property names, kind, path and value. -/
def wireChars (kind : String) (path : DocPath) (value : Option Json) : Nat :=
  6 + codeUnits kind + pathChars path + value.elim 0 fun value => 5 + value.chars

theorem height_pathJson (path : DocPath) : (pathJson path).height = 1 := by
  have flat : itemsHeight (path.map segmentJson) = 0 := by
    induction path with
    | nil => rfl
    | cons segment rest ih => cases segment <;> simp [itemsHeight, segmentJson, Json.height, ih]
  rw [pathJson, Json.height, flat]

theorem nodes_pathJson (path : DocPath) : (pathJson path).nodes = 1 + path.length := by
  have leaves : itemsNodes (path.map segmentJson) = path.length := by
    induction path with
    | nil => rfl
    | cons segment rest ih =>
      cases segment <;> simp [itemsNodes, segmentJson, Json.nodes, ih, Nat.add_comm]
  rw [pathJson, Json.nodes, leaves, Nat.add_comm]

theorem chars_pathJson (path : DocPath) : (pathJson path).chars = pathChars path := by
  rw [pathJson, Json.chars]
  induction path with
  | nil => rfl
  | cons segment rest ih =>
    cases segment <;> simpa [itemsChars, segmentJson, Json.chars, pathChars] using ih

theorem protoFree_pathJson (path : DocPath) : (pathJson path).ProtoFree := by
  rw [pathJson, Json.ProtoFree]
  induction path with
  | nil => trivial
  | cons segment rest ih =>
    constructor
    · cases segment <;> simp [segmentJson, Json.ProtoFree]
    · exact ih

theorem codeUnits_op : codeUnits "op" = 2 := by decide

theorem codeUnits_path : codeUnits "path" = 4 := by decide

theorem codeUnits_value : codeUnits "value" = 5 := by decide

theorem WirePatchOp.height_json (op : WirePatchOp) :
    op.json.height = max 1 (carriedHeight op.carried) + 1 := by
  cases op <;>
    simp [json, WirePatchOp.carried, carriedHeight, Json.height, fieldsHeight,
      height_pathJson]

theorem WirePatchOp.nodes_json (op : WirePatchOp) :
    op.json.nodes = wireNodes op.path op.carried := by
  cases op <;>
    simp [json, WirePatchOp.carried, WirePatchOp.path, wireNodes, Json.nodes,
      fieldsNodes, nodes_pathJson] <;> omega

theorem WirePatchOp.chars_json (op : WirePatchOp) :
    op.json.chars = wireChars op.kind op.path op.carried := by
  cases op <;>
    simp [json, WirePatchOp.carried, WirePatchOp.path, WirePatchOp.kind, wireChars,
      Json.chars, fieldsChars, chars_pathJson, codeUnits_op, codeUnits_path, codeUnits_value] <;>
    omega

theorem WirePatchOp.protoFree_json {op : WirePatchOp}
    (free : ∀ value, op.carried = some value → value.ProtoFree) : op.json.ProtoFree := by
  cases op with
  | add path value | replace path value =>
    simpa [json, Json.ProtoFree, fieldsProtoFree, protoFree_pathJson] using
      free value rfl
  | remove path => simp [json, Json.ProtoFree, fieldsProtoFree, protoFree_pathJson]

/-- A patch whose values are free of `__proto__` keys is within the budgets
exactly when its values are shallow and its operations small together. -/
theorem ownable_wirePatchJson_iff {limits : JsonLimits} {patch : List WirePatchOp}
    (free : ∀ op ∈ patch, ∀ value, op.carried = some value → value.ProtoFree) :
    Ownable limits (wirePatchJson patch) ↔ (1 ≤ limits.maxDepth ∧ ∀ op ∈ patch,
        max 1 (carriedHeight op.carried) + 2 ≤ limits.maxDepth) ∧
      1 + (patch.map fun op => wireNodes op.path op.carried).sum ≤ limits.maxNodes ∧
      (patch.map fun op => wireChars op.kind op.path op.carried).sum ≤ limits.maxChars := by
  have heights : itemsHeight (patch.map json) + 1 ≤ limits.maxDepth ↔ 1 ≤ limits.maxDepth ∧
        ∀ op ∈ patch, max 1 (carriedHeight op.carried) + 2 ≤ limits.maxDepth := by
    clear free
    induction patch with
    | nil => simp [itemsHeight]
    | cons op rest ih =>
      simp only [map_cons, itemsHeight, WirePatchOp.height_json, forall_mem_cons]
      constructor
      · intro below
        have later := ih.mp (by omega)
        exact ⟨later.1, by omega, later.2⟩
      · intro below
        have later := ih.mpr ⟨below.1, below.2.2⟩
        omega
  have nodes : itemsNodes (patch.map json) =
      (patch.map fun op => wireNodes op.path op.carried).sum := by
    clear free heights
    induction patch with
    | nil => rfl
    | cons op rest ih =>
      simp only [map_cons, itemsNodes, WirePatchOp.nodes_json, sum_cons, ih]
  have chars : itemsChars (patch.map json) =
      (patch.map fun op => wireChars op.kind op.path op.carried).sum := by
    clear free heights nodes
    induction patch with
    | nil => rfl
    | cons op rest ih =>
      simp only [map_cons, itemsChars, WirePatchOp.chars_json, sum_cons, ih]
  have protoFree : (wirePatchJson patch).ProtoFree := by
    rw [wirePatchJson, Json.ProtoFree]
    clear heights nodes chars
    induction patch with
    | nil => trivial
    | cons op rest ih =>
      constructor
      · exact WirePatchOp.protoFree_json (free op mem_cons_self)
      · apply ih
        intro other member
        exact free other (mem_cons_of_mem _ member)
  constructor
  · intro ownable
    obtain ⟨_, shallow, few, short⟩ := ownable
    rw [wirePatchJson, Json.height] at shallow
    rw [wirePatchJson, Json.nodes, nodes] at few
    rw [wirePatchJson, Json.chars, chars] at short
    exact ⟨heights.mp shallow, by omega, short⟩
  · intro small
    obtain ⟨shallow, few, short⟩ := small
    constructor
    · exact protoFree
    · rw [wirePatchJson, Json.height]
      exact heights.mpr shallow
    · rw [wirePatchJson, Json.nodes, nodes]
      omega
    · rw [wirePatchJson, Json.chars, chars]
      exact short

/-- A path the protocol accepts: not the root, and no reserved key. -/
def Addressable (path : DocPath) : Prop :=
  path ≠ [] ∧ ∀ name ∈ forbiddenSegments, Segment.key name ∉ path

theorem validateCollabWirePatchShape_eq_none_iff {patch : List WirePatchOp}
    (slotted : ∀ op ∈ patch, ∀ position, Segment.index position ∈ op.path →
      (slot? position).isSome) : validateCollabWirePatchShape (wirePatchJson patch) = none ↔
      ∀ op ∈ patch, Addressable op.path := by
  have segments (path : DocPath)
      (slotted : ∀ position, Segment.index position ∈ path → (slot? position).isSome) :
      (path.map segmentJson).findSome? validateSegmentShape = none ↔
        ∀ name ∈ forbiddenSegments, Segment.key name ∉ path := by
    simp only [findSome?_eq_none_iff, mem_map, forall_exists_index, and_imp,
      forall_apply_eq_imp_iff₂]
    constructor
    · intro clean name reserved member
      simpa [segmentJson, validateSegmentShape, reserved] using clean _ member
    · intro clean segment member
      cases segment with
      | key name =>
        have allowed : name ∉ forbiddenSegments := fun reserved => clean name reserved member
        simp [segmentJson, validateSegmentShape, allowed]
      | index position =>
        simp [segmentJson, validateSegmentShape, slotted position member]
  have single (op : WirePatchOp)
      (slotted : ∀ position, Segment.index position ∈ op.path → (slot? position).isSome) :
      validateWireOpShape op.json = none ↔ Addressable op.path := by
    rw [Addressable, ← segments op.path slotted]
    cases op with
    | add path value | replace path value | remove path =>
      cases path with
      | nil => simp [json, validateWireOpShape, pathJson, WirePatchOp.path]
      | cons segment rest =>
        simp only [json, validateWireOpShape, pathJson, WirePatchOp.path, map_cons]
        cases found : (segmentJson segment :: rest.map segmentJson).findSome?
          validateSegmentShape <;> simp [found]
  simp only [wirePatchJson, validateCollabWirePatchShape, findSome?_eq_none_iff,
    mem_map, forall_exists_index, and_imp, forall_apply_eq_imp_iff₂]
  constructor
  · intro clean op member
    exact (single op (slotted op member)).mp (clean op member)
  · intro clean op member
    exact (single op (slotted op member)).mpr (clean op member)

def TxCall.path : TxCall → DocPath
  | .set path _ => path
  | .insert path _ => path
  | .remove path => path

/-- The value a builder call writes, as the ownership boundary copies it. -/
def TxCall.written : TxCall → Option Json
  | .set _ value => (ownJson value).toOption
  | .insert _ value => (ownJson value).toOption
  | .remove _ => none

/-- The kind of the operation a builder call records on a working copy. -/
def TxCall.kind (working : Json) : TxCall → String
  | .set path _ => if (getAtPath working path).isSome then "replace" else "add"
  | .insert _ _ => "add"
  | .remove _ => "remove"

variable {doc : Json}

/-- The code units that builder calls send, call by call over the working copies. -/
def batchChars : Transaction doc → List TxCall → Nat
  | _, [] => 0
  | tx, call :: rest =>
    wireChars (call.kind tx.working) call.path call.written +
      match call.perform tx with
      | .ok next => batchChars next rest
      | .error _ => 0

/-- Builder calls whose patch passes the gates of the wire: they address neither
the root nor a reserved key, they write values two levels below the nesting
bound, and together with their paths they fit one budget. -/
structure Transmissible (tx : Transaction doc) (calls : List TxCall) : Prop where
  addressable : ∀ call ∈ calls, Addressable call.path
  shallow : ∀ call ∈ calls, carriedHeight call.written ≤ 62
  few : 1 + (calls.map fun call => wireNodes call.path call.written).sum ≤ 4000000
  short : batchChars tx calls ≤ 64000000

structure RecordedBy (working : Json) (call : TxCall) (op : PatchOp) : Prop where
  path : (toWireOp op).path = call.path
  kind : (toWireOp op).kind = call.kind working
  carried : (toWireOp op).carried = call.written

theorem Transaction.record_eq_ok {tx next : Transaction doc} {op : PatchOp}
    {faithful : Faithful tx.working op} (recorded : tx.record op faithful = .ok next) :
    next.forward = tx.forward ++ [op] ∧ applyOp tx.working op = .ok next.working := by
  unfold Transaction.record at recorded
  split at recorded
  · rename_i applied
    cases recorded
    exact ⟨rfl, applied⟩
  · simp at recorded

/-- A call that succeeds records one operation and applies it. -/
theorem TxCall.perform_eq_ok {tx next : Transaction doc} {call : TxCall}
    (performed : call.perform tx = .ok next) :
    ∃ op, RecordedBy tx.working call op ∧ next.forward = tx.forward ++ [op] ∧
      applyOp tx.working op = .ok next.working := by
  cases call with
  | set path value =>
    simp only [TxCall.perform, Transaction.set] at performed
    split at performed
    · simp at performed
    rename_i owned' owned
    split at performed
    · split at performed
      · rename_i missing
        refine ⟨_, ?_, Transaction.record_eq_ok performed⟩
        constructor
        · rfl
        · simp [TxCall.kind, missing, toWireOp, WirePatchOp.kind]
        · simp [TxCall.written, owned, Except.toOption, toWireOp, WirePatchOp.carried]
      · rename_i oldValue existing
        refine ⟨_, ?_, Transaction.record_eq_ok performed⟩
        constructor
        · rfl
        · simp [TxCall.kind, existing, toWireOp, WirePatchOp.kind]
        · simp [TxCall.written, owned, Except.toOption, toWireOp, WirePatchOp.carried]
    · simp at performed
  | insert path value =>
    simp only [TxCall.perform, Transaction.insert] at performed
    split at performed
    · split at performed
      · simp at performed
      · rename_i owned' owned
        refine ⟨_, ?_, Transaction.record_eq_ok performed⟩
        constructor
        · rfl
        · rfl
        · simp [TxCall.written, owned, Except.toOption, toWireOp, WirePatchOp.carried]
    · simp at performed
  | remove path =>
    simp only [TxCall.perform, Transaction.remove] at performed
    split at performed
    · simp at performed
    · split at performed
      · exact ⟨_, ⟨rfl, rfl, rfl⟩, Transaction.record_eq_ok performed⟩
      · simp at performed

/-- What is sent of the operations that calls record. -/
structure Sends (tx : Transaction doc) (calls : List TxCall) (ops : List PatchOp) : Prop where
  parts : List.Forall₂ (fun call op =>
    (toWireOp op).path = call.path ∧ (toWireOp op).carried = call.written) calls ops
  chars : ((toWirePatch ops).map fun op => wireChars op.kind op.path op.carried).sum =
    batchChars tx calls

variable {calls : List TxCall} {ops : List PatchOp}

/-- Calls that all succeed record one operation each, in order. -/
theorem performCalls_sends {tx final : Transaction doc}
    (performed : performCalls tx calls = .ok final) :
    ∃ ops, final.forward = tx.forward ++ ops ∧ Sends tx calls ops := by
  induction calls generalizing tx with
  | nil =>
    cases performed
    exact ⟨[], (append_nil _).symm, .nil, rfl⟩
  | cons call rest ih =>
    rw [performCalls, bind_eq_ok] at performed
    obtain ⟨next, first, later⟩ := performed
    obtain ⟨op, recorded, appended, _⟩ := TxCall.perform_eq_ok first
    obtain ⟨ops, forward, sends⟩ := ih later
    refine ⟨op :: ops, by rw [forward, appended, append_assoc, singleton_append], ?_⟩
    constructor
    · exact .cons ⟨recorded.path, recorded.carried⟩ sends.parts
    · have chars := sends.chars
      simp only [toWirePatch] at chars
      simp only [toWirePatch, map_cons, sum_cons, batchChars, first, recorded.path,
        recorded.kind, recorded.carried, chars]

/-- What the operations that calls record satisfy, the calls do. -/
theorem Sends.forall_iff {tx : Transaction doc} (sends : Sends tx calls ops)
    (property : DocPath → Option Json → Prop) :
    (∀ op ∈ toWirePatch ops, property op.path op.carried) ↔
      ∀ call ∈ calls, property call.path call.written := by
  have parts := sends.parts
  clear sends
  induction parts with
  | nil => simp [toWirePatch]
  | cons part _ ih =>
    simp only [toWirePatch] at ih
    simp only [toWirePatch, map_cons, forall_mem_cons, part.1, part.2, ih]

theorem Sends.nodes {tx : Transaction doc} (sends : Sends tx calls ops) :
    ((toWirePatch ops).map fun op => wireNodes op.path op.carried).sum =
      (calls.map fun call => wireNodes call.path call.written).sum := by
  have parts := sends.parts
  clear sends
  induction parts with
  | nil => rfl
  | cons part _ ih =>
    simp only [toWirePatch] at ih
    simp only [toWirePatch, map_cons, sum_cons, part.1, part.2, ih]

variable {working : Json}

theorem clean_of_faithful {value : Json} {op : PatchOp} (faithful : Faithful working op)
    (carried : (toWireOp op).carried = some value) : value.Plain ∧ value.ProtoFree := by
  cases op with
  | add path written =>
    cases carried
    exact faithful.2
  | remove path oldValue => simp [toWireOp, WirePatchOp.carried] at carried
  | replace path written oldValue =>
    cases carried
    exact faithful.2.1

theorem path_toWireOp (op : PatchOp) : (toWireOp op).path = op.path := by
  cases op <;> rfl

theorem Records.slotted (records : Records doc ops working) :
    ∀ op ∈ toWirePatch ops, ∀ position, Segment.index position ∈ op.path →
      (slot? position).isSome := by
  intro wire member position inside
  obtain ⟨op, recorded, rfl⟩ := mem_map.mp member
  obtain ⟨before, after, _, applied⟩ := records.mem recorded
  rw [path_toWireOp] at inside
  have edited : op.apply before.value = some after.value := by
    rw [← applyOp_value, applied]
    rfl
  rw [PatchOp.apply] at edited
  split at edited
  · exact Value.slot?_isSome_of_edit edited inside
  · simp at edited

/-- A patch is accepted on the wire: its shape passes, and on every replica of the
document it applies and yields the same result. -/
def AcceptedOnWire (doc result : Json) (patch : List WirePatchOp) : Prop :=
  validateCollabWirePatchShape (wirePatchJson patch) = none ∧
    ∀ replica : Json, replica.value = doc.value →
      ∃ next, applyOps replica (wirePatchJson patch) = .ok next ∧ next.value = result.value

theorem Records.applyOps_iff {replica : Json} (records : Records doc ops working)
    (same : replica.value = doc.value) :
    (∃ next, applyOps replica (wirePatchJson (toWirePatch ops)) = .ok next ∧
        next.value = working.value) ↔ Ownable jsonLimits (wirePatchJson (toWirePatch ops)) := by
  constructor
  · intro accepted
    obtain ⟨next, applied, _⟩ := accepted
    exact ((applyOps_wirePatchJson records.wirePlain).mp applied).1
  · intro ownable
    have reached : applyWire replica.value (toWirePatch ops) = some working.value := by
      rw [applyWire_toWirePatch, same, records.forward_value]
    rw [applyWire, ← applyOwnedOps_value] at reached
    cases applied : applyOwnedOps replica ((toWirePatch ops).map decoded) with
    | error error => simp [applied, Except.toOption] at reached
    | ok next =>
      rw [applied] at reached
      refine ⟨next, (applyOps_wirePatchJson records.wirePlain).mpr ⟨ownable, applied⟩, ?_⟩
      exact Option.some.inj reached

theorem acceptedOnWire_iff {tx : Transaction doc} {actor : Option String}
    (performed : performCalls (.create doc actor) calls = .ok tx) :
    AcceptedOnWire doc tx.working (toWirePatch tx.forward) ↔
      Transmissible (.create doc actor) calls := by
  obtain ⟨ops, forward, sends⟩ := performCalls_sends performed
  obtain rfl : tx.forward = ops := forward
  have records := tx.records
  have free : ∀ op ∈ toWirePatch tx.forward, ∀ value, op.carried = some value →
      value.ProtoFree := by
    intro wire member value carried
    obtain ⟨op, recorded, rfl⟩ := mem_map.mp member
    obtain ⟨before, _, faithful, _⟩ := records.mem recorded
    exact (clean_of_faithful faithful carried).2
  have shape := validateCollabWirePatchShape_eq_none_iff records.slotted
  have paths := sends.forall_iff fun path _ => Addressable path
  have heights := sends.forall_iff fun _ carried => carriedHeight carried ≤ 62
  have budget := @ownable_wirePatchJson_iff jsonLimits _ free
  rw [sends.nodes, sends.chars] at budget
  have depth (op : WirePatchOp) : max 1 (carriedHeight op.carried) + 2 ≤ jsonLimits.maxDepth ↔
        carriedHeight op.carried ≤ 62 := by
    simp only [jsonLimits]
    omega
  constructor
  · intro accepted
    obtain ⟨clean, everywhere⟩ := accepted
    obtain ⟨⟨_, low⟩, few, short⟩ := budget.mp ((records.applyOps_iff rfl).mp (everywhere doc rfl))
    constructor
    · exact paths.mp (shape.mp clean)
    · exact heights.mp fun op member => (depth op).mp (low op member)
    · exact few
    · exact short
  · intro transmissible
    constructor
    · exact shape.mpr (paths.mpr transmissible.addressable)
    · intro replica same
      apply (records.applyOps_iff same).mpr
      apply budget.mpr
      refine ⟨⟨by simp [jsonLimits], ?_⟩, transmissible.few, transmissible.short⟩
      intro op member
      exact (depth op).mpr (heights.mpr transmissible.shallow op member)

end Dinkster.Commands
