import Dinkster.Format.Json

/-!
# The JSON ownership boundary

Everything that enters a document passes through `ownJson`, which walks a value
once, charges every value and every property slot against a node budget, charges
every string and every key against a character budget, bounds the nesting depth
and refuses the key `__proto__`.  The model reads values that are already JSON,
so the rejections of functions, holes, accessors and cycles have no counterpart
here.

`visit` follows the source; `ownJson_eq_ok_iff` states when it succeeds in terms
of four measures of the value.
-/

namespace Dinkster.Format

open Library List

/-- The budgets of one `ownJson` call. -/
structure JsonLimits where
  maxDepth : Nat
  maxNodes : Nat
  maxChars : Nat

/-- `MAX_JSON_DEPTH`, `MAX_JSON_NODES` and `MAX_JSON_CHARS`. -/
def jsonLimits : JsonLimits where
  maxDepth := 64
  maxNodes := 4000000
  maxChars := 64000000

/-- What one `ownJson` call has consumed so far. -/
structure JsonCharge where
  nodes : Nat
  chars : Nat

def JsonCharge.advance (charge : JsonCharge) (nodes chars : Nat) : JsonCharge where
  nodes := charge.nodes + nodes
  chars := charge.chars + chars

def codeUnits (text : String) : Nat :=
  (text.toList.map fun char => if char.toNat < 65536 then 1 else 2).sum

def chargeNode (limits : JsonLimits) (charge : JsonCharge) : Except String JsonCharge :=
  if charge.nodes + 1 > limits.maxNodes then
    .error s!"value exceeds {limits.maxNodes} JSON nodes"
  else
    .ok (charge.advance 1 0)

/-- Charge a string value or a key against the character budget. -/
def chargeChars (limits : JsonLimits) (text : String) (charge : JsonCharge) :
    Except String JsonCharge :=
  if charge.chars + codeUnits text > limits.maxChars then
    .error s!"value exceeds {limits.maxChars} string characters"
  else
    .ok (charge.advance 0 (codeUnits text))

def enterContainer (limits : JsonLimits) (path : String) (depth slots : Nat)
    (charge : JsonCharge) : Except String Unit :=
  if depth ≥ limits.maxDepth then
    .error s!"{path}: nested deeper than {limits.maxDepth} levels"
  else if charge.nodes + slots > limits.maxNodes then
    .error s!"value exceeds {limits.maxNodes} JSON nodes"
  else
    .ok ()

/-- A key `__proto__` would replace the prototype of the copy. -/
def refuseProto (path key : String) : Except String Unit :=
  if key = "__proto__" then .error s!"{path}: forbidden key '__proto__'" else .ok ()

mutual

/-- `visit`: own one value. -/
def visit (limits : JsonLimits) : Json → String → Nat → JsonCharge →
    Except String (Json × JsonCharge)
  | .null, _, _, charge => do return (.null, ← chargeNode limits charge)
  | .bool value, _, _, charge => do return (.bool value, ← chargeNode limits charge)
  | .num value, _, _, charge => do return (.num value, ← chargeNode limits charge)
  | .str value, _, _, charge => do
    let charge ← chargeNode limits charge
    return (.str value, ← chargeChars limits value charge)
  | .arr items, path, depth, charge => do
    let charge ← chargeNode limits charge
    enterContainer limits path depth items.length charge
    let (copy, charge) ← visitItems limits items path 0 (depth + 1) charge
    return (.arr copy, charge)
  | .obj fields, path, depth, charge => do
    let charge ← chargeNode limits charge
    enterContainer limits path depth fields.length charge
    let (copy, charge) ← visitFields limits fields [] path (depth + 1) charge
    return (.obj copy, charge)

/-- Own the elements of an array from a position on. -/
def visitItems (limits : JsonLimits) : List Json → String → Nat → Nat → JsonCharge →
    Except String (List Json × JsonCharge)
  | [], _, _, _, charge => .ok ([], charge)
  | item :: rest, path, position, depth, charge => do
    let (item, charge) ← visit limits item s!"{path}[{position}]" depth charge
    let (rest, charge) ← visitItems limits rest path (position + 1) depth charge
    return (item :: rest, charge)

/-- Own the properties of an object onto the copy made so far. -/
def visitFields (limits : JsonLimits) : List (String × Json) → List (String × Json) →
    String → Nat → JsonCharge → Except String (List (String × Json) × JsonCharge)
  | [], copy, _, _, charge => .ok (copy, charge)
  | (key, field) :: rest, copy, path, depth, charge => do
    let charge ← chargeChars limits key charge
    refuseProto path key
    let (field, charge) ← visit limits field s!"{path}.{key}" depth charge
    visitFields limits rest (setField copy key field) path depth charge

end

/-- `ownJson` under given budgets: the owned copy, or the reason for rejection. -/
def ownJsonWithin (limits : JsonLimits) (json : Json) : Except String Json := do
  let (owned, _) ← visit limits json "$" 0 ⟨0, 0⟩
  return owned

/-- `ownJson` under the production budgets. -/
def ownJson (json : Json) : Except String Json :=
  ownJsonWithin jsonLimits json

/-! ## What the budgets measure -/

mutual

/-- How many containers are nested in a value. -/
def Json.height : Json → Nat
  | .arr items => itemsHeight items + 1
  | .obj fields => fieldsHeight fields + 1
  | _ => 0

/-- The height of the highest element. -/
def itemsHeight : List Json → Nat
  | [] => 0
  | item :: rest => max item.height (itemsHeight rest)

/-- The height of the highest property. -/
def fieldsHeight : List (String × Json) → Nat
  | [] => 0
  | (_, field) :: rest => max field.height (fieldsHeight rest)

end

mutual

/-- How many values a value consists of. -/
def Json.nodes : Json → Nat
  | .arr items => itemsNodes items + 1
  | .obj fields => fieldsNodes fields + 1
  | _ => 1

def itemsNodes : List Json → Nat
  | [] => 0
  | item :: rest => item.nodes + itemsNodes rest

def fieldsNodes : List (String × Json) → Nat
  | [] => 0
  | (_, field) :: rest => field.nodes + fieldsNodes rest

end

mutual

def Json.chars : Json → Nat
  | .str value => codeUnits value
  | .arr items => itemsChars items
  | .obj fields => fieldsChars fields
  | _ => 0

/-- The code units of all elements. -/
def itemsChars : List Json → Nat
  | [] => 0
  | item :: rest => item.chars + itemsChars rest

def fieldsChars : List (String × Json) → Nat
  | [] => 0
  | (key, field) :: rest => codeUnits key + field.chars + fieldsChars rest

end

mutual

/-- No object has the key `__proto__`. -/
def Json.ProtoFree : Json → Prop
  | .arr items => itemsProtoFree items
  | .obj fields => fieldsProtoFree fields
  | _ => True

/-- No element has the key `__proto__`. -/
def itemsProtoFree : List Json → Prop
  | [] => True
  | item :: rest => item.ProtoFree ∧ itemsProtoFree rest

/-- Neither a key nor a property is `__proto__`. -/
def fieldsProtoFree : List (String × Json) → Prop
  | [] => True
  | (key, field) :: rest => key ≠ "__proto__" ∧ field.ProtoFree ∧ fieldsProtoFree rest

end

/-- What is left of the budgets covers these measures. -/
def Covers (limits : JsonLimits) (depth : Nat) (charge : JsonCharge)
    (height nodes chars : Nat) : Prop :=
  depth + height ≤ limits.maxDepth ∧ charge.nodes + nodes ≤ limits.maxNodes ∧
    charge.chars + chars ≤ limits.maxChars

/-- A value within the budgets. -/
structure Ownable (limits : JsonLimits) (json : Json) : Prop where
  protoFree : json.ProtoFree
  shallow : json.height ≤ limits.maxDepth
  few : json.nodes ≤ limits.maxNodes
  short : json.chars ≤ limits.maxChars

theorem length_le_itemsNodes (items : List Json) : items.length ≤ itemsNodes items := by
  induction items with
  | nil => exact Nat.le_refl 0
  | cons item rest ih =>
    have positive : 1 ≤ item.nodes := by cases item <;> simp [Json.nodes]
    simp only [length_cons, itemsNodes]
    omega

theorem length_le_fieldsNodes (fields : List (String × Json)) :
    fields.length ≤ fieldsNodes fields := by
  induction fields with
  | nil => exact Nat.le_refl 0
  | cons entry rest ih =>
    obtain ⟨key, field⟩ := entry
    have positive : 1 ≤ field.nodes := by cases field <;> simp [Json.nodes]
    simp only [length_cons, fieldsNodes]
    omega

variable (fields more : List (String × Json))

theorem fieldsHeight_append :
    fieldsHeight (fields ++ more) = max (fieldsHeight fields) (fieldsHeight more) := by
  induction fields with
  | nil => exact (Nat.zero_max _).symm
  | cons entry rest ih => simp only [cons_append, fieldsHeight, ih, Nat.max_assoc]

theorem fieldsNodes_append :
    fieldsNodes (fields ++ more) = fieldsNodes fields + fieldsNodes more := by
  induction fields with
  | nil => exact (Nat.zero_add _).symm
  | cons entry rest ih => simp only [cons_append, fieldsNodes, ih, Nat.add_assoc]

theorem fieldsChars_append :
    fieldsChars (fields ++ more) = fieldsChars fields + fieldsChars more := by
  induction fields with
  | nil => exact (Nat.zero_add _).symm
  | cons entry rest ih => simp only [cons_append, fieldsChars, ih, Nat.add_assoc]

theorem fieldsProtoFree_append {fields more : List (String × Json)} :
    fieldsProtoFree (fields ++ more) ↔ fieldsProtoFree fields ∧ fieldsProtoFree more := by
  induction fields with
  | nil => simp only [nil_append, fieldsProtoFree, true_and]
  | cons entry rest ih => simp only [cons_append, fieldsProtoFree, ih, and_assoc]

/-! ## Success -/

@[simp] theorem advance_nodes (charge : JsonCharge) (nodes chars : Nat) :
    (charge.advance nodes chars).nodes = charge.nodes + nodes := rfl

@[simp] theorem advance_chars (charge : JsonCharge) (nodes chars : Nat) :
    (charge.advance nodes chars).chars = charge.chars + chars := rfl

@[simp] theorem advance_advance (charge : JsonCharge) (nodes chars moreNodes moreChars : Nat) :
    (charge.advance nodes chars).advance moreNodes moreChars =
      charge.advance (nodes + moreNodes) (chars + moreChars) := by
  simp [JsonCharge.advance, Nat.add_assoc]

variable {Error First : Type} {computation : Except Error First}

/-- A successful computation succeeds on both sides of a bind. -/
theorem bind_eq_ok {Second : Type} {next : First → Except Error Second} {result : Second} :
    (computation >>= next) = .ok result ↔
      ∃ value, computation = .ok value ∧ next value = .ok result := by
  cases computation with
  | error reason | ok value => simp [bind, Except.bind]

@[simp] theorem pure_eq_ok {value result : First} :
    (pure value : Except Error First) = .ok result ↔ value = result := by
  simp [pure, Except.pure]

theorem toOption_eq_some {result : First} (succeeds : computation.toOption = some result) :
    computation = .ok result := by
  cases computation with
  | error reason => simp [Except.toOption] at succeeds
  | ok value => exact congrArg Except.ok (Option.some.inj succeeds)

section Success

variable {limits : JsonLimits} {charge next : JsonCharge} {depth : Nat}

theorem chargeNode_eq_ok : chargeNode limits charge = .ok next ↔
      charge.nodes + 1 ≤ limits.maxNodes ∧ charge.advance 1 0 = next := by
  unfold chargeNode
  split <;> simp <;> omega

theorem chargeChars_eq_ok {text : String} : chargeChars limits text charge = .ok next ↔
      charge.chars + codeUnits text ≤ limits.maxChars ∧
        charge.advance 0 (codeUnits text) = next := by
  unfold chargeChars
  split <;> simp <;> omega

theorem enterContainer_eq_ok {path : String} {slots : Nat} {result : Unit} :
    enterContainer limits path depth slots charge = .ok result ↔
      depth < limits.maxDepth ∧ charge.nodes + slots ≤ limits.maxNodes := by
  unfold enterContainer
  split
  · simp; omega
  · split <;> simp <;> omega

theorem refuseProto_eq_ok {path key : String} {result : Unit} :
    refuseProto path key = .ok result ↔ key ≠ "__proto__" := by
  unfold refuseProto
  split <;> simp_all

variable {chars height nodes : Nat} {fields : List (String × Json)}

theorem covers_enter_iff : Covers limits (depth + 1) (charge.advance 1 0) height nodes chars ↔
      Covers limits depth charge (height + 1) (nodes + 1) chars := by
  simp only [Covers, advance_nodes, advance_chars]
  omega

/-- Two parts are covered in sequence exactly when they are covered together. -/
theorem covers_advance_iff {otherHeight otherNodes otherChars : Nat} :
    Covers limits depth charge height nodes chars ∧
        Covers limits depth (charge.advance nodes chars) otherHeight otherNodes otherChars ↔
      Covers limits depth charge (max height otherHeight) (nodes + otherNodes)
        (chars + otherChars) := by
  simp only [Covers, advance_nodes, advance_chars]
  omega

/-- Fewer nodes and characters are covered by the same budgets. -/
theorem Covers.weaken (covers : Covers limits depth charge height nodes chars) :
    Covers limits depth charge 0 0 0 := by
  obtain ⟨deep, few, short⟩ := covers
  exact ⟨by omega, by omega, by omega⟩

theorem Covers.after (covers : Covers limits depth charge height nodes chars) :
    Covers limits depth (charge.advance nodes chars) 0 0 0 := by
  obtain ⟨deep, few, short⟩ := covers
  exact ⟨by omega, by simpa, by simpa⟩

/-- A property with a new name is copied behind the others. -/
theorem setField_of_fresh {name : String} (value : Json) (fresh : name ∉ fieldKeys fields) :
    setField fields name value = fields ++ [(name, value)] := by
  induction fields with
  | nil => rfl
  | cons entry rest ih =>
    obtain ⟨key, field⟩ := entry
    simp only [fieldKeys, map_cons, mem_cons, not_or] at fresh
    rw [setField, if_neg (Ne.symm fresh.1), ih fresh.2, cons_append]

theorem visit_scalar_eq_ok_iff {json : Json} {result : Json × JsonCharge}
    (covers : Covers limits depth charge 0 0 0) :
    (do return (json, ← chargeNode limits charge) : Except String (Json × JsonCharge)) =
        .ok result ↔ Covers limits depth charge 0 1 0 ∧ (json, charge.advance 1 0) = result := by
  obtain ⟨deep, _, short⟩ := covers
  simp only [bind_eq_ok, chargeNode_eq_ok, pure_eq_ok, Covers]
  constructor
  · rintro ⟨_, ⟨room, rfl⟩, final⟩
    exact ⟨⟨deep, room, short⟩, final⟩
  · rintro ⟨⟨_, room, _⟩, final⟩
    exact ⟨_, ⟨room, rfl⟩, final⟩

mutual

/-- The visitor accepts a plain value exactly when the budgets cover it, and
copies it unchanged. -/
theorem visit_eq_ok_iff : ∀ (json : Json) (path : String) (depth : Nat) (charge : JsonCharge)
    (result : Json × JsonCharge), json.Plain → Covers limits depth charge 0 0 0 →
    (visit limits json path depth charge = .ok result ↔
      json.ProtoFree ∧ Covers limits depth charge json.height json.nodes json.chars ∧
        (json, charge.advance json.nodes json.chars) = result)
  | .null, path, depth, charge, result, _, covers
  | .bool _, path, depth, charge, result, _, covers
  | .num _, path, depth, charge, result, _, covers => by
    rw [visit, visit_scalar_eq_ok_iff covers]
    simp only [Json.ProtoFree, Json.height, Json.nodes, Json.chars, true_and]
  | .str text, path, depth, charge, result, _, covers => by
    obtain ⟨deep, _, _⟩ := covers
    simp only [visit, bind_eq_ok, chargeNode_eq_ok, chargeChars_eq_ok, pure_eq_ok,
      Json.ProtoFree, Json.height, Json.nodes, Json.chars, true_and]
    constructor
    · rintro ⟨_, ⟨room, rfl⟩, _, ⟨brief, rfl⟩, final⟩
      exact ⟨⟨deep, room, brief⟩, by simpa using final⟩
    · rintro ⟨⟨_, room, brief⟩, final⟩
      exact ⟨_, ⟨room, rfl⟩, _, ⟨brief, rfl⟩, by simpa using final⟩
  | .arr items, path, depth, charge, result, plain, covers => by
    have itemsPlain : plainItems items := by rwa [Json.Plain] at plain
    have inside := fun result => visitItems_eq_ok_iff items path 0 (depth + 1)
      (charge.advance 1 0) result itemsPlain
    simp only [visit, bind_eq_ok, chargeNode_eq_ok, enterContainer_eq_ok, pure_eq_ok,
      Json.ProtoFree, Json.height, Json.nodes, Json.chars, ← covers_enter_iff]
    constructor
    · rintro ⟨_, ⟨room, rfl⟩, _, ⟨shallow, _⟩, ⟨copy, after⟩, visited, final⟩
      obtain ⟨protoFree, covered, equal⟩ := (inside _ ⟨shallow, room, covers.2.2⟩).mp visited
      cases equal
      exact ⟨protoFree, covered, by simpa [Nat.add_comm] using final⟩
    · rintro ⟨protoFree, covered, final⟩
      have slots := length_le_itemsNodes items
      have shallow := covered.1
      have few := covered.2.1
      simp only [advance_nodes] at few
      refine ⟨_, ⟨by omega, rfl⟩, (), ⟨by omega, by simp; omega⟩, (items, _),
        (inside _ covered.weaken).mpr ⟨protoFree, covered, rfl⟩, ?_⟩
      simpa [Nat.add_comm] using final
  | .obj fields, path, depth, charge, result, plain, covers => by
    rw [Json.Plain] at plain
    have inside := fun result => visitFields_eq_ok_iff fields [] path (depth + 1)
      (charge.advance 1 0) result plain.1 plain.2
    simp only [visit, bind_eq_ok, chargeNode_eq_ok, enterContainer_eq_ok, pure_eq_ok,
      Json.ProtoFree, Json.height, Json.nodes, Json.chars, ← covers_enter_iff]
    constructor
    · rintro ⟨_, ⟨room, rfl⟩, _, ⟨shallow, _⟩, ⟨copy, after⟩, visited, final⟩
      obtain ⟨protoFree, covered, equal⟩ := (inside _ ⟨shallow, room, covers.2.2⟩).mp visited
      cases equal
      exact ⟨protoFree, covered, by simpa [Nat.add_comm] using final⟩
    · rintro ⟨protoFree, covered, final⟩
      have slots := length_le_fieldsNodes fields
      have shallow := covered.1
      have few := covered.2.1
      simp only [advance_nodes] at few
      refine ⟨_, ⟨by omega, rfl⟩, (), ⟨by omega, by simp; omega⟩, (fields, _),
        (inside _ covered.weaken).mpr ⟨protoFree, covered, rfl⟩, ?_⟩
      simpa [Nat.add_comm] using final

/-- The elements of an array are accepted exactly when the budgets cover them. -/
theorem visitItems_eq_ok_iff : ∀ (items : List Json) (path : String) (position depth : Nat)
    (charge : JsonCharge) (result : List Json × JsonCharge), plainItems items →
    Covers limits depth charge 0 0 0 →
    (visitItems limits items path position depth charge = .ok result ↔ itemsProtoFree items ∧
        Covers limits depth charge (itemsHeight items) (itemsNodes items) (itemsChars items) ∧
        (items, charge.advance (itemsNodes items) (itemsChars items)) = result)
  | [], path, position, depth, charge, result, _, covers => by
    simp only [visitItems, itemsProtoFree, itemsHeight, itemsNodes, itemsChars, true_and,
      Except.ok.injEq]
    exact ⟨fun equal => ⟨covers, equal⟩, fun both => both.2⟩
  | item :: rest, path, position, depth, charge, result, plain, covers => by
    rw [plainItems] at plain
    have head := fun result => visit_eq_ok_iff item s!"{path}[{position}]" depth charge result
      plain.1 covers
    have tail := fun charge result => visitItems_eq_ok_iff rest path (position + 1) depth
      charge result plain.2
    simp only [visitItems, bind_eq_ok, pure_eq_ok, itemsProtoFree, itemsHeight, itemsNodes,
      itemsChars, ← covers_advance_iff]
    constructor
    · rintro ⟨⟨copied, next⟩, visited, ⟨others, after⟩, followed, final⟩
      obtain ⟨protoFree, covered, equal⟩ := (head _).mp visited
      cases equal
      obtain ⟨restProtoFree, restCovered, restEqual⟩ := (tail _ _ covered.after).mp followed
      cases restEqual
      exact ⟨⟨protoFree, restProtoFree⟩, ⟨covered, restCovered⟩, by simpa using final⟩
    · rintro ⟨⟨protoFree, restProtoFree⟩, ⟨covered, restCovered⟩, final⟩
      exact ⟨(item, _), (head _).mpr ⟨protoFree, covered, rfl⟩, (rest, _),
        (tail _ _ covered.after).mpr ⟨restProtoFree, restCovered, rfl⟩, by simpa using final⟩

/-- The properties of an object are accepted exactly when the budgets cover
them, and are copied behind the copy made so far. -/
theorem visitFields_eq_ok_iff : ∀ (fields copy : List (String × Json)) (path : String)
    (depth : Nat) (charge : JsonCharge) (result : List (String × Json) × JsonCharge),
    (fieldKeys (copy ++ fields)).Nodup → plainFields fields → Covers limits depth charge 0 0 0 →
    (visitFields limits fields copy path depth charge = .ok result ↔ fieldsProtoFree fields ∧
        Covers limits depth charge (fieldsHeight fields) (fieldsNodes fields) (fieldsChars fields) ∧
        (copy ++ fields, charge.advance (fieldsNodes fields) (fieldsChars fields)) = result)
  | [], copy, path, depth, charge, result, _, _, covers => by
    simp only [visitFields, fieldsProtoFree, fieldsHeight, fieldsNodes, fieldsChars, true_and,
      Except.ok.injEq, append_nil]
    exact ⟨fun equal => ⟨covers, equal⟩, fun both => both.2⟩
  | (key, field) :: rest, copy, path, depth, charge, result, distinct, plain, covers => by
    rw [plainFields] at plain
    have fresh : key ∉ fieldKeys copy := by
      simp only [fieldKeys, map_append, map_cons] at distinct
      exact fun member => (nodup_append.mp distinct).2.2 key member key
        mem_cons_self rfl
    have moved : setField copy key field ++ rest = copy ++ (key, field) :: rest := by
      rw [setField_of_fresh field fresh, append_assoc, singleton_append]
    have head := fun charge result => visit_eq_ok_iff field s!"{path}.{key}" depth charge
      result plain.1
    have tail := fun charge result => visitFields_eq_ok_iff rest (setField copy key field) path
      depth charge result (moved ▸ distinct) plain.2
    simp only [visitFields, bind_eq_ok, chargeChars_eq_ok, fieldsProtoFree, fieldsHeight,
      fieldsNodes, fieldsChars]
    constructor
    · rintro ⟨_, ⟨room, rfl⟩, _, permitted, ⟨owned, next⟩, visited, followed⟩
      have allowed := refuseProto_eq_ok.mp permitted
      have keyCovered : Covers limits depth charge 0 0 (codeUnits key) :=
        ⟨covers.1, covers.2.1, room⟩
      obtain ⟨protoFree, covered, equal⟩ := (head _ _ keyCovered.after).mp visited
      cases equal
      obtain ⟨restProtoFree, restCovered, final⟩ := (tail _ _ covered.after).mp followed
      have together := covers_advance_iff.mp ⟨keyCovered, covers_advance_iff.mp
        ⟨covered, restCovered⟩⟩
      exact ⟨⟨allowed, protoFree, restProtoFree⟩, by simpa [Nat.add_assoc] using together,
        by simpa [moved, Nat.add_assoc] using final⟩
    · rintro ⟨⟨allowed, protoFree, restProtoFree⟩, covered, final⟩
      have split : Covers limits depth charge (max 0 (max field.height (fieldsHeight rest)))
          (0 + (field.nodes + fieldsNodes rest))
          (codeUnits key + (field.chars + fieldsChars rest)) := by
        simpa [Nat.add_assoc] using covered
      obtain ⟨keyCovered, others⟩ := covers_advance_iff.mpr split
      obtain ⟨fieldCovered, restCovered⟩ := covers_advance_iff.mpr others
      refine ⟨_, ⟨keyCovered.2.2, rfl⟩, (), refuseProto_eq_ok.mpr allowed, (field, _),
        (head _ _ keyCovered.after).mpr ⟨protoFree, fieldCovered, rfl⟩,
        (tail _ _ fieldCovered.after).mpr ⟨restProtoFree, restCovered, ?_⟩⟩
      simpa [moved, Nat.add_assoc] using final

end

/-- Setting a property whose key and value are not `__proto__` adds no such key. -/
theorem fieldsProtoFree_setField {name : String} {value : Json}
    (fieldsFree : fieldsProtoFree fields) (allowed : name ≠ "__proto__")
    (valueFree : value.ProtoFree) : fieldsProtoFree (setField fields name value) := by
  induction fields with
  | nil => exact ⟨allowed, valueFree, trivial⟩
  | cons entry rest ih =>
    obtain ⟨key, field⟩ := entry
    obtain ⟨keyFree, fieldFree, restFree⟩ := fieldsFree
    rw [setField]
    split
    · exact ⟨keyFree, valueFree, restFree⟩
    · exact ⟨keyFree, fieldFree, ih restFree⟩

mutual

/-- Whatever the visitor copies is plain and free of `__proto__` keys. -/
theorem visit_clean : ∀ (json : Json) (path : String) (depth : Nat) (charge : JsonCharge)
    (copy : Json) (after : JsonCharge), visit limits json path depth charge = .ok (copy, after) →
    copy.Plain ∧ copy.ProtoFree
  | .null, path, depth, charge, copy, after, visited
  | .bool _, path, depth, charge, copy, after, visited
  | .num _, path, depth, charge, copy, after, visited => by
    simp only [visit, bind_eq_ok, pure_eq_ok, Prod.mk.injEq] at visited
    obtain ⟨_, _, rfl, _⟩ := visited
    simp [Json.Plain, Json.ProtoFree]
  | .str _, path, depth, charge, copy, after, visited => by
    simp only [visit, bind_eq_ok, pure_eq_ok, Prod.mk.injEq] at visited
    obtain ⟨_, _, _, _, rfl, _⟩ := visited
    simp [Json.Plain, Json.ProtoFree]
  | .arr items, path, depth, charge, copy, after, visited => by
    simp only [visit, bind_eq_ok, pure_eq_ok, Prod.mk.injEq] at visited
    obtain ⟨_, _, _, _, ⟨owned, next⟩, walked, rfl, _⟩ := visited
    simpa only [Json.Plain, Json.ProtoFree] using
      visitItems_clean items path 0 (depth + 1) _ owned next walked
  | .obj fields, path, depth, charge, copy, after, visited => by
    simp only [visit, bind_eq_ok, pure_eq_ok, Prod.mk.injEq] at visited
    obtain ⟨_, _, _, _, ⟨owned, next⟩, walked, rfl, _⟩ := visited
    have empty : (Json.obj []).Plain := by simp [Json.Plain, fieldKeys, plainFields]
    exact visitFields_clean fields [] path (depth + 1) _ owned next walked empty trivial

/-- The copied elements of an array are clean. -/
theorem visitItems_clean : ∀ (items : List Json) (path : String) (position depth : Nat)
    (charge : JsonCharge) (copy : List Json) (after : JsonCharge),
    visitItems limits items path position depth charge = .ok (copy, after) →
    plainItems copy ∧ itemsProtoFree copy
  | [], path, position, depth, charge, copy, after, visited => by
    simp only [visitItems, Except.ok.injEq, Prod.mk.injEq] at visited
    obtain ⟨rfl, _⟩ := visited
    exact ⟨trivial, trivial⟩
  | item :: rest, path, position, depth, charge, copy, after, visited => by
    simp only [visitItems, bind_eq_ok, pure_eq_ok, Prod.mk.injEq] at visited
    obtain ⟨⟨owned, next⟩, first, ⟨others, last⟩, later, rfl, _⟩ := visited
    obtain ⟨plain, free⟩ := visit_clean item _ depth charge owned next first
    obtain ⟨restPlain, restFree⟩ :=
      visitItems_clean rest path (position + 1) depth next others last later
    exact ⟨⟨plain, restPlain⟩, free, restFree⟩

/-- The copied properties of an object are clean. -/
theorem visitFields_clean : ∀ (fields made : List (String × Json)) (path : String)
    (depth : Nat) (charge : JsonCharge) (copy : List (String × Json)) (after : JsonCharge),
    visitFields limits fields made path depth charge = .ok (copy, after) →
    (Json.obj made).Plain → fieldsProtoFree made → (Json.obj copy).Plain ∧ (Json.obj copy).ProtoFree
  | [], made, path, depth, charge, copy, after, visited, plain, free => by
    simp only [visitFields, Except.ok.injEq, Prod.mk.injEq] at visited
    obtain ⟨rfl, _⟩ := visited
    exact ⟨plain, by rwa [Json.ProtoFree]⟩
  | (key, field) :: rest, made, path, depth, charge, copy, after, visited, plain, free => by
    simp only [visitFields, bind_eq_ok] at visited
    obtain ⟨_, _, _, permitted, ⟨owned, next⟩, first, later⟩ := visited
    obtain ⟨ownedPlain, ownedFree⟩ := visit_clean field _ depth _ owned next first
    exact visitFields_clean rest (setField made key owned) path depth next copy after later
      (plain_setField key plain ownedPlain)
      (fieldsProtoFree_setField free (refuseProto_eq_ok.mp permitted) ownedFree)

end

end Success

/-- `ownJson` accepts a plain value exactly within the budgets, and returns it
as it is. -/
theorem ownJsonWithin_eq_ok_iff {limits : JsonLimits} {json owned : Json} (plain : json.Plain) :
    ownJsonWithin limits json = .ok owned ↔ Ownable limits json ∧ json = owned := by
  have visited := fun result => @visit_eq_ok_iff limits json "$" 0 ⟨0, 0⟩ result plain
    ⟨by omega, by simp, by simp⟩
  unfold ownJsonWithin
  simp only [bind_eq_ok, pure_eq_ok]
  constructor
  · rintro ⟨⟨copy, charge⟩, walked, rfl⟩
    obtain ⟨protoFree, ⟨deep, few, short⟩, equal⟩ := (visited _).mp walked
    simp only [Nat.zero_add] at deep few short
    exact ⟨⟨protoFree, deep, few, short⟩, (Prod.mk.inj equal).1⟩
  · rintro ⟨⟨protoFree, shallow, few, short⟩, rfl⟩
    exact ⟨_, (visited _).mpr ⟨protoFree, ⟨by omega, by simpa, by simpa⟩, rfl⟩, rfl⟩

/-- The production boundary accepts a plain value exactly within its budgets. -/
theorem ownJson_eq_ok_iff {json owned : Json} (plain : json.Plain) :
    ownJson json = .ok owned ↔ Ownable jsonLimits json ∧ json = owned :=
  ownJsonWithin_eq_ok_iff plain

/-- Every owned value is plain and free of `__proto__` keys. -/
theorem ownJson_clean {json owned : Json} (accepted : ownJson json = .ok owned) :
    owned.Plain ∧ owned.ProtoFree := by
  unfold ownJson ownJsonWithin at accepted
  simp only [bind_eq_ok, pure_eq_ok] at accepted
  obtain ⟨⟨copy, after⟩, visited, rfl⟩ := accepted
  exact visit_clean json "$" 0 ⟨0, 0⟩ copy after visited

end Dinkster.Format
