import Dinkster.Format.Json
import Dinkster.Format.Types

/-!
# Type expressions on the wire

Schemas and graphs carry type expressions as JSON.  Two decoders read them: `wireType` reads
the entries of schemas, `typeExprFromDinksterWire` the ports of emitted regions, and the
second hands tuples over to the first.  They disagree on the field that lists what a type
variable allows, and an element the encoder refuses is left out of the wire.  What it emits
is read back exactly when no variable with an allow-list and no refused element stands where
the first decoder meets it.
-/

namespace Dinkster.Format

open List Option

mutual

/-- `String` of a JSON value.  An object with an own `toString` has no text. -/
def stringOf (numberText : Rat → String) : Json → Except String String
  | .null => .ok "null"
  | .bool value => .ok (if value then "true" else "false")
  | .num value => .ok (numberText value)
  | .str text => .ok text
  | .arr items => (joinedTexts numberText items).map (",".intercalate ·)
  | .obj fields =>
    if (getField fields "toString").isSome then
      .error "Cannot convert object to primitive value"
    else .ok "[object Object]"

/-- The texts `Array.prototype.join` joins. -/
def joinedTexts (numberText : Rat → String) : List Json → Except String (List String)
  | [] => .ok []
  | .null :: rest => (joinedTexts numberText rest).map ("" :: ·)
  | item :: rest =>
    (stringOf numberText item).bind fun text => (joinedTexts numberText rest).map (text :: ·)

end

/-- `String` of a value that may be undefined. -/
def textOf (numberText : Rat → String) : Option Json → Except String String
  | none => .ok "undefined"
  | some value => stringOf numberText value

def isStreamName (name : String) : Bool :=
  "stream<".toList.isPrefixOf name.toList

inductive TypeKind where
  | concrete
  | union
  | wildcard
  | variable
  | list
  | asset
  | stream
  | tuple
  | familyTuple
  | tupleElement
  deriving DecidableEq

def TypeKind.text : TypeKind → String
  | .concrete => "concrete"
  | .union => "union"
  | .wildcard => "wildcard"
  | .variable => "variable"
  | .list => "list"
  | .asset => "asset"
  | .stream => "stream"
  | .tuple => "tuple"
  | .familyTuple => "family_tuple"
  | .tupleElement => "tuple_element"

/-- The kind a `kind` field names. -/
def kindOf : Option Json → Option TypeKind
  | some (.str text) =>
    [TypeKind.concrete, .union, .wildcard, .variable, .list, .asset, .stream, .tuple,
      .familyTuple, .tupleElement].find? fun kind => kind.text = text
  | _ => none

@[simp] theorem kindOf_text (kind : TypeKind) : kindOf (some (.str kind.text)) = some kind := by
  cases kind <;> decide

def kindWire (kind : TypeKind) (fields : List (String × Json)) : Json :=
  .obj (("kind", .str kind.text) :: fields)

/-! ## The decoder of schemas -/

/-- `/^[A-Za-z0-9_-]+$/`. -/
def isWireSegment (text : String) : Bool :=
  text ≠ "" && text.toList.all fun char => char.isAlphanum || char = '_' || char = '-'

def wireSegment (value : Option Json) (place : String) : Except String String :=
  match value with
  | some (.str text) =>
    if isWireSegment text then .ok text
    else .error s!"{place} must match [A-Za-z0-9_-]+"
  | _ => .error s!"{place} must match [A-Za-z0-9_-]+"

/-- The name a value is, which is not empty. -/
def nameOf : Json → Option String
  | .str text => if text = "" then none else some text
  | _ => none

def stringList (raw : Option Json) (field : String) (minimum : Nat) (place : String) :
    Except String (List String) :=
  let refusal := s!"{place}.{field} must contain at least {minimum} non-empty string" ++
    (if minimum = 1 then "" else "s")
  match raw with
  | some (.arr items) =>
    match items.mapM nameOf with
    | some names =>
      if names.length < minimum then .error refusal
      else if names.any isStreamName then
        .error s!"{place} stream type requires a structured constructor"
      else .ok names
    | none => .error refusal
  | _ => .error refusal

/-- The variable `wireType` reads. -/
def wireVariable (fields : List (String × Json)) (place : String) : Except String TypeExpr :=
  match getField fields "templateId" with
  | some (.str templateId) =>
    if templateId = "" then .error s!"{place}.templateId must be a non-empty string"
    else if (getField fields "types").isSome then
      .error s!"{place}.types is not a variable field; use allowed"
    else
      match getField fields "allowed" with
      | none => .ok (.variable templateId none)
      | some allowed =>
        (stringList (some allowed) "allowed" 1 place).map fun names =>
          .variable templateId (some (names.map .concrete))
  | _ => .error s!"{place}.templateId must be a non-empty string"

def isSafeInteger (value : Rat) : Bool :=
  value.den = 1 && -(2 ^ 53 - 1) ≤ value && value ≤ 2 ^ 53 - 1

/-- The index `wireType` reads. -/
def wireIndex (value : Option Json) (place : String) : Except String TupleIndex :=
  match value with
  | some (.str text) => (wireSegment (some (.str text)) s!"{place}.index").map .input
  | some (.num value) =>
    if isSafeInteger value then .ok (.position value)
    else .error s!"{place}.index must be an integer or input id"
  | _ => .error s!"{place}.index must be an integer or input id"

/-- The input `wireType` reads, which may be absent. -/
def wireInput (value : Option Json) (place : String) : Except String (Option String) :=
  match value with
  | none => .ok none
  | some value => (wireSegment (some value) s!"{place}.input").map some

def present : Option (Except String TypeExpr) → Except String (Option TypeExpr)
  | none => .ok none
  | some read => read.map some

/-- The element of a tuple `wireType` reads, where the field `element` has been read. -/
def wireTupleElement (fields : List (String × Json)) (element : Option (Except String TypeExpr))
    (place : String) : Except String TypeExpr :=
  (wireInput (getField fields "input") place).bind fun input =>
    (present element).bind fun element =>
      if input.isNone = element.isNone then
        .error s!"{place} requires exactly one tuple source"
      else
        (wireIndex (getField fields "index") place).map fun index =>
          .tupleElement input element index

mutual

def wireType (numberText : Rat → String) : Json → String → Except String TypeExpr
  | .obj fields, place =>
    match kindOf (getField fields "kind") with
    | some .concrete =>
      match stringList (getField fields "types") "types" 1 place with
      | .ok [name] => .ok (.concrete name)
      | .ok _ => .error s!"{place}.types must contain exactly one string"
      | .error message => .error message
    | some .union =>
      (stringList (getField fields "types") "types" 2 place).map .union
    | some .wildcard => .ok .wildcard
    | some .variable => wireVariable fields place
    | some .list => (wireTypeField numberText fields "element" place).map .list
    | some .asset => (wireTypeField numberText fields "element" place).map .asset
    | some .stream => (wireTypeField numberText fields "element" place).map .stream
    | some .tuple => (wireTypesField numberText fields "elements" place).map .tuple
    | some .familyTuple =>
      (wireSegment (getField fields "input") s!"{place}.input").map .familyTuple
    | some .tupleElement =>
      wireTupleElement fields
        (if (getField fields "element").isSome then
          some (wireTypeField numberText fields "element" place) else none) place
    | none =>
      (textOf numberText (getField fields "kind")).bind fun text =>
        .error s!"{place} has unknown type expression kind '{text}'"
  | _, place => .error s!"{place} must be an object"

/-- `wireType` of a field. -/
def wireTypeField (numberText : Rat → String) :
    List (String × Json) → String → String → Except String TypeExpr
  | [], name, place => .error s!"{place}.{name} must be an object"
  | (key, value) :: rest, name, place =>
    if key = name then wireType numberText value s!"{place}.{name}"
    else wireTypeField numberText rest name place

/-- `wireType` of the items of a field. -/
def wireTypesField (numberText : Rat → String) :
    List (String × Json) → String → String → Except String (List TypeExpr)
  | [], name, place => .error s!"{place}.{name} must be an array"
  | (key, .arr items) :: rest, name, place =>
    if key = name then wireTypes numberText items s!"{place}.{name}" 0
    else wireTypesField numberText rest name place
  | (key, _) :: rest, name, place =>
    if key = name then .error s!"{place}.{name} must be an array"
    else wireTypesField numberText rest name place

/-- `wireType` of the items of an array, from an index on. -/
def wireTypes (numberText : Rat → String) : List Json → String → Nat → Except String (List TypeExpr)
  | [], _, _ => .ok []
  | item :: rest, place, index =>
    (wireType numberText item s!"{place}[{index}]").bind fun type =>
      (wireTypes numberText rest place (index + 1)).map (type :: ·)

end

/-- The names of a `types` field that is an array, each made a text. -/
def typeNames (numberText : Rat → String) (raw : Option Json) : Except String (List String) :=
  match raw with
  | some (.arr items) => items.mapM (stringOf numberText)
  | _ => .ok []

/-- The variable `typeExprFromDinksterWire` reads. -/
def exprVariable (fields : List (String × Json)) (types : List String) : Except String TypeExpr :=
  match getField fields "templateId" with
  | some (.str templateId) =>
    if templateId = "" then .error "variable type requires a templateId"
    else if types = [] then .ok (.variable templateId none)
    else .ok (.variable templateId (some (types.map .concrete)))
  | _ => .error "variable type requires a templateId"

mutual

def typeExprFromDinksterWire (numberText : Rat → String) : Json → Except String TypeExpr
  | .obj fields =>
    match typeNames numberText (getField fields "types") with
    | .error message => .error message
    | .ok types =>
      if types.any isStreamName then
        .error "stream type requires a structured constructor"
      else
        match kindOf (getField fields "kind") with
        | some .concrete =>
          match types with
          | [name] => .ok (.concrete name)
          | _ => .error s!"concrete type carries {types.length} names, expected exactly 1"
        | some .union =>
          if types.length < 2 then .error "union type requires at least two names"
          else .ok (.union types)
        | some .wildcard => .ok .wildcard
        | some .variable => exprVariable fields types
        | some .list => (exprField numberText fields "element").map .list
        | some .asset => (exprField numberText fields "element").map .asset
        | some .stream => (exprField numberText fields "element").map .stream
        | some .tuple | some .familyTuple | some .tupleElement =>
          wireType numberText (.obj fields) "type"
        | none =>
          (textOf numberText (getField fields "kind")).bind fun text =>
            .error s!"unknown type expression kind: {text}"
  | .arr _ => .error "unknown type expression kind: undefined"
  | _ => .error "type expression must be an object"

/-- `typeExprFromDinksterWire` of a field. -/
def exprField (numberText : Rat → String) : List (String × Json) → String → Except String TypeExpr
  | [], _ => .error "type expression must be an object"
  | (key, value) :: rest, name =>
    if key = name then typeExprFromDinksterWire numberText value
    else exprField numberText rest name

end

/-- Whether a name stands for no structured type. -/
def isAtomName (name : String) : Bool :=
  (parseListTypeId name).isNone && (parseAssetTypeId name).isNone &&
    (parseStreamTypeId name).isNone

/-- The name of an entry of an allow-list that is an atom. -/
def atomOf (allowed : TypeExpr) : Option String :=
  match canonicalTypeIdOf allowed, allowed with
  | some name, .concrete _ => if isAtomName name then some name else none
  | _, _ => none

def namesWire (names : List String) : Json :=
  .arr (names.map .str)

def indexWire : TupleIndex → Json
  | .position value => .num value
  | .input id => .str id

mutual

def typeExprToDinksterWire : TypeExpr → Option Json
  | .concrete name =>
    if isAtomName name then some (kindWire .concrete [("types", namesWire [name])]) else none
  | .union names =>
    if 2 ≤ names.length ∧ names.all isAtomName then
      some (kindWire .union [("types", namesWire names)])
    else none
  | .wildcard => some (kindWire .wildcard [])
  | .familyTuple input => some (kindWire .familyTuple [("input", .str input)])
  | .tupleElement (some input) _ index =>
    some (kindWire .tupleElement [("input", .str input), ("index", indexWire index)])
  | .tupleElement none none index => some (kindWire .tupleElement [("index", indexWire index)])
  | .tupleElement none (some element) index =>
    match typeExprToDinksterWire element with
    | some element =>
      some (kindWire .tupleElement [("element", element), ("index", indexWire index)])
    | none => some (kindWire .tupleElement [("index", indexWire index)])
  | .tuple elements =>
    (typeExprsToDinksterWire elements).map fun elements =>
      kindWire .tuple [("elements", .arr elements)]
  | .variable templateId allowedTypes =>
    if templateId = "" then none
    else
      match allowedTypes with
      | none | some [] => some (kindWire .variable [("templateId", .str templateId)])
      | some allowed =>
        (allowed.mapM atomOf).map fun names =>
          kindWire .variable [("templateId", .str templateId), ("types", namesWire names)]
  | .list element =>
    (typeExprToDinksterWire element).map fun element => kindWire .list [("element", element)]
  | .asset element =>
    (typeExprToDinksterWire element).map fun element => kindWire .asset [("element", element)]
  | .stream element =>
    (typeExprToDinksterWire element).map fun element => kindWire .stream [("element", element)]

def typeExprsToDinksterWire : List TypeExpr → Option (List Json)
  | [] => some []
  | element :: rest =>
    (typeExprToDinksterWire element).bind fun element =>
      (typeExprsToDinksterWire rest).map (element :: ·)

end

/-! ## What schemas declare -/

/-- The names `wireType` takes. -/
def SchemaName (name : String) : Prop :=
  name ≠ "" ∧ isStreamName name = false

/-- The indices `wireType` takes. -/
def SchemaIndex : TupleIndex → Prop
  | .position value => isSafeInteger value = true
  | .input id => isWireSegment id = true

mutual

/-- The type expressions `wireType` returns. -/
def SchemaType : TypeExpr → Prop
  | .concrete name => SchemaName name
  | .union names => 2 ≤ names.length ∧ ∀ name ∈ names, SchemaName name
  | .wildcard => True
  | .variable templateId none => templateId ≠ ""
  | .variable templateId (some allowed) =>
    templateId ≠ "" ∧ ∃ names, names ≠ [] ∧ allowed = names.map TypeExpr.concrete ∧
      ∀ name ∈ names, SchemaName name
  | .list element => SchemaType element
  | .asset element => SchemaType element
  | .stream element => SchemaType element
  | .tuple elements => SchemaTypes elements
  | .familyTuple input => isWireSegment input = true
  | .tupleElement (some input) none index => isWireSegment input = true ∧ SchemaIndex index
  | .tupleElement none (some element) index => SchemaType element ∧ SchemaIndex index
  | .tupleElement _ _ _ => False

/-- Lists of type expressions `wireType` returns. -/
def SchemaTypes : List TypeExpr → Prop
  | [] => True
  | element :: rest => SchemaType element ∧ SchemaTypes rest

end

theorem map_ok_iff {First Second : Type} {read : Except String First} {next : First → Second}
    {result : Second} :
    read.map next = .ok result ↔ ∃ value, read = .ok value ∧ next value = result := by
  cases read with
  | error _ | ok _ => simp [Except.map]

theorem bind_ok_iff {First Second : Type} {read : Except String First}
    {next : First → Except String Second} {result : Second} :
    read.bind next = .ok result ↔ ∃ value, read = .ok value ∧ next value = .ok result := by
  cases read with
  | error _ | ok _ => simp [Except.bind]

section Names

variable {numberText : Rat → String}

theorem nameOf_eq_some {value : Json} {name : String} (named : nameOf value = some name) :
    name ≠ "" := by
  cases value with
  | str text =>
    dsimp only [nameOf] at named
    split at named
    · cases named
    · cases named
      assumption
  | null | bool _ | num _ | arr _ | obj _ => cases named

theorem mapM_nameOf_nonempty : ∀ (items : List Json) {names : List String},
    items.mapM nameOf = some names → ∀ name ∈ names, name ≠ ""
  | [], _, read, _, listed => by
    cases read
    exact absurd listed not_mem_nil
  | item :: rest, names, read, name, listed => by
    rw [mapM_cons] at read
    cases first : nameOf item with
    | none =>
      rw [first] at read
      cases read
    | some head =>
      cases later : rest.mapM nameOf with
      | none =>
        rw [first, later] at read
        cases read
      | some tail =>
        rw [first, later] at read
        cases read
        cases mem_cons.mp listed with
        | inl same => exact same ▸ nameOf_eq_some first
        | inr further => exact mapM_nameOf_nonempty rest later name further

theorem mapM_nameOf_map_str : ∀ (names : List String), (∀ name ∈ names, name ≠ "") →
    (names.map Json.str).mapM nameOf = some names
  | [], _ => rfl
  | name :: rest, nonempty => by
    have head : nameOf (.str name) = some name := if_neg (nonempty name mem_cons_self)
    have tail := mapM_nameOf_map_str rest fun other listed =>
      nonempty other (mem_cons_of_mem _ listed)
    rw [map_cons, mapM_cons, head, tail]
    rfl

theorem mapM_stringOf_map_str : ∀ names : List String,
    (names.map Json.str).mapM (stringOf numberText) = .ok names
  | [] => rfl
  | name :: rest => by
    have head : stringOf numberText (.str name) = .ok name := by
      unfold stringOf
      rfl
    rw [map_cons, mapM_cons, head, mapM_stringOf_map_str rest]
    rfl

variable {names : List String} {place : String} {value : Option Json} {index : TupleIndex}

theorem any_isStreamName (named : ∀ name ∈ names, SchemaName name) :
    names.any isStreamName = false := by
  apply List.any_eq_false.mpr
  intro name listed
  rw [(named name listed).2]
  decide

theorem schemaNames_of_stringList {raw : Option Json} {field : String} {minimum : Nat}
    (read : stringList raw field minimum place = .ok names) :
    minimum ≤ names.length ∧ ∀ name ∈ names, SchemaName name := by
  unfold stringList at read
  dsimp only at read
  split at read
  · split at read
    · rename_i listed
      split at read
      · cases read
      · split at read
        · cases read
        · rename_i enough plain
          cases read
          refine ⟨Nat.le_of_not_lt enough, fun name inside => ⟨?_, ?_⟩⟩
          · exact mapM_nameOf_nonempty _ listed name inside
          · have none := List.any_eq_false.mp (Bool.not_eq_true _ ▸ plain)
            simpa using none name inside
    · cases read
  · cases read

theorem stringList_namesWire {minimum : Nat} (field place : String)
    (enough : minimum ≤ names.length) (named : ∀ name ∈ names, SchemaName name) :
    stringList (some (namesWire names)) field minimum place = .ok names := by
  unfold stringList namesWire
  dsimp only
  rw [mapM_nameOf_map_str names fun name listed => (named name listed).1]
  dsimp only
  rw [if_neg (Nat.not_lt.mpr enough), any_isStreamName named]
  rfl

theorem typeNames_namesWire (names : List String) :
    typeNames numberText (some (namesWire names)) = .ok names :=
  mapM_stringOf_map_str names

theorem isWireSegment_of_wireSegment {text : String} (read : wireSegment value place = .ok text) :
    isWireSegment text = true := by
  unfold wireSegment at read
  split at read
  · split at read
    · cases read
      assumption
    · cases read
  · cases read

theorem wireSegment_of_isWireSegment {text : String} (place : String)
    (segment : isWireSegment text = true) : wireSegment (some (.str text)) place = .ok text :=
  if_pos segment

theorem schemaIndex_of_wireIndex (read : wireIndex value place = .ok index) :
    SchemaIndex index := by
  unfold wireIndex at read
  split at read
  · rename_i text
    cases segment : wireSegment (some (.str text)) s!"{place}.index" with
    | error message =>
      rw [segment] at read
      cases read
    | ok id =>
      rw [segment] at read
      cases read
      exact isWireSegment_of_wireSegment segment
  · split at read
    · cases read
      assumption
    · cases read
  · cases read

theorem wireIndex_indexWire (place : String) (valid : SchemaIndex index) :
    wireIndex (some (indexWire index)) place = .ok index := by
  cases index with
  | position value =>
    dsimp only [wireIndex, indexWire]
    exact if_pos valid
  | input id =>
    dsimp only [wireIndex, indexWire]
    rw [wireSegment_of_isWireSegment _ valid]
    rfl

end Names

/-! ## What the decoder of schemas returns -/

section Decoded

variable {numberText : Rat → String}

variable {fields : List (String × Json)}

theorem schemaType_of_wireVariable {place : String} {type : TypeExpr}
    (read : wireVariable fields place = .ok type) : SchemaType type := by
  unfold wireVariable at read
  split at read
  · split at read
    · cases read
    rename_i templateId _ given
    split at read
    · cases read
    split at read
    · cases read
      exact given
    · rename_i allowed _
      cases listed : stringList (some allowed) "allowed" 1 place with
      | error message =>
        rw [listed] at read
        cases read
      | ok names =>
        rw [listed] at read
        cases read
        have named := schemaNames_of_stringList listed
        exact ⟨given, names, length_pos_iff.mp named.1, rfl, named.2⟩
  · cases read

theorem schemaType_of_wireTupleElement {element : Option (Except String TypeExpr)}
    {place : String} {type : TypeExpr}
    (inside : ∀ type, element = some (.ok type) → SchemaType type)
    (read : wireTupleElement fields element place = .ok type) : SchemaType type := by
  obtain ⟨input, chosen, read⟩ := bind_ok_iff.mp read
  obtain ⟨source, taken, read⟩ := bind_ok_iff.mp read
  split at read
  · cases read
  rename_i exclusive
  obtain ⟨index, indexed, rfl⟩ := map_ok_iff.mp read
  have index := schemaIndex_of_wireIndex indexed
  cases input with
  | some input =>
    cases source with
    | some _ => exact absurd rfl exclusive
    | none =>
      refine ⟨?_, index⟩
      unfold wireInput at chosen
      split at chosen
      · cases chosen
      · obtain ⟨text, segment, same⟩ := map_ok_iff.mp chosen
        cases same
        exact isWireSegment_of_wireSegment segment
  | none =>
    cases source with
    | none => exact absurd rfl exclusive
    | some source =>
      refine ⟨?_, index⟩
      cases element with
      | none => cases taken
      | some read =>
        obtain ⟨other, success, same⟩ := map_ok_iff.mp taken
        cases same
        exact inside _ (congrArg some success)

mutual

/-- What `wireType` returns, it can return again. -/
theorem schemaType_of_wireType : ∀ (wire : Json) {place : String} {type : TypeExpr},
    wireType numberText wire place = .ok type → SchemaType type
  | .obj fields, place, type, read => by
    unfold wireType at read
    split at read
    · -- a concrete type
      split at read
      · rename_i name listed
        cases read
        exact (schemaNames_of_stringList listed).2 name mem_cons_self
      all_goals cases read
    · obtain ⟨names, listed, rfl⟩ := map_ok_iff.mp read
      exact schemaNames_of_stringList listed
    · cases read
      trivial
    · exact schemaType_of_wireVariable read
    · obtain ⟨element, inside, rfl⟩ := map_ok_iff.mp read
      have element := schemaType_of_field fields inside
      exact element
    · obtain ⟨element, inside, rfl⟩ := map_ok_iff.mp read
      have element := schemaType_of_field fields inside
      exact element
    · obtain ⟨element, inside, rfl⟩ := map_ok_iff.mp read
      have element := schemaType_of_field fields inside
      exact element
    · obtain ⟨elements, inside, rfl⟩ := map_ok_iff.mp read
      exact schemaTypes_of_field fields inside
    · obtain ⟨input, segment, rfl⟩ := map_ok_iff.mp read
      exact isWireSegment_of_wireSegment segment
    · apply schemaType_of_wireTupleElement _ read
      intro other given
      split at given
      · exact schemaType_of_field fields (some.inj given)
      · cases given
    · obtain ⟨text, _, read⟩ := bind_ok_iff.mp read
      cases read
  | .null, _, _, read | .bool _, _, _, read | .num _, _, _, read | .str _, _, _, read
  | .arr _, _, _, read => by cases read

theorem schemaType_of_field : ∀ (fields : List (String × Json)) {name place : String}
    {type : TypeExpr}, wireTypeField numberText fields name place = .ok type → SchemaType type
  | [], _, _, _, read => by cases read
  | (key, value) :: rest, _, _, _, read => by
    unfold wireTypeField at read
    split at read
    · exact schemaType_of_wireType value read
    · exact schemaType_of_field rest read

theorem schemaTypes_of_field : ∀ (fields : List (String × Json)) {name place : String}
    {types : List TypeExpr},
    wireTypesField numberText fields name place = .ok types → SchemaTypes types
  | [], _, _, _, read => by cases read
  | (key, .arr items) :: rest, _, _, _, read => by
    unfold wireTypesField at read
    split at read
    · exact schemaTypes_of_wireTypes items read
    · exact schemaTypes_of_field rest read
  | (key, .null) :: rest, _, _, _, read | (key, .bool _) :: rest, _, _, _, read
  | (key, .num _) :: rest, _, _, _, read | (key, .str _) :: rest, _, _, _, read
  | (key, .obj _) :: rest, _, _, _, read => by
    unfold wireTypesField at read
    split at read
    · cases read
    · exact schemaTypes_of_field rest read

theorem schemaTypes_of_wireTypes : ∀ (items : List Json) {place : String} {index : Nat}
    {types : List TypeExpr}, wireTypes numberText items place index = .ok types → SchemaTypes types
  | [], _, _, _, read => by
    cases read
    trivial
  | item :: rest, _, _, _, read => by
    unfold wireTypes at read
    obtain ⟨first, head, read⟩ := bind_ok_iff.mp read
    obtain ⟨others, tail, rfl⟩ := map_ok_iff.mp read
    exact ⟨schemaType_of_wireType item head, schemaTypes_of_wireTypes rest tail⟩

end

end Decoded

/-! ## What can be emitted -/

mutual

/-- The type expressions that have a wire. -/
def Encodable : TypeExpr → Prop
  | .concrete name => isAtomName name = true
  | .union names => 2 ≤ names.length ∧ ∀ name ∈ names, isAtomName name = true
  | .wildcard => True
  | .variable templateId none => templateId ≠ ""
  | .variable templateId (some allowed) =>
    templateId ≠ "" ∧ ∀ entry ∈ allowed, ∃ name, entry = TypeExpr.concrete name ∧
      isAtomName name = true
  | .list element => Encodable element
  | .asset element => Encodable element
  | .stream element => Encodable element
  | .tuple elements => AllEncodable elements
  | .familyTuple _ => True
  | .tupleElement _ _ _ => True

def AllEncodable : List TypeExpr → Prop
  | [] => True
  | element :: rest => Encodable element ∧ AllEncodable rest

end

mutual

/-- The type expressions `wireType` reads back: no variable has an allow-list, and no element
is one that cannot be emitted. -/
def Rigid : TypeExpr → Prop
  | .variable _ (some (_ :: _)) => False
  | .list element => Rigid element
  | .asset element => Rigid element
  | .stream element => Rigid element
  | .tuple elements => AllRigid elements
  | .tupleElement none (some element) _ => Encodable element ∧ Rigid element
  | _ => True

/-- The lists of type expressions `wireType` reads back. -/
def AllRigid : List TypeExpr → Prop
  | [] => True
  | element :: rest => Rigid element ∧ AllRigid rest

end

/-- The type expressions that are read back from a region's ports: below a tuple or the
element of a tuple, no variable has an allow-list and no element is one that cannot be
emitted. -/
def Carried : TypeExpr → Prop
  | .list element => Carried element
  | .asset element => Carried element
  | .stream element => Carried element
  | .tuple elements => AllRigid elements
  | .tupleElement none (some element) _ => Encodable element ∧ Rigid element
  | _ => True

theorem atomOf_eq_some {entry : TypeExpr} {name : String} :
    atomOf entry = some name ↔ entry = .concrete name ∧ isAtomName name = true := by
  constructor
  · intro atom
    cases entry with
    | concrete other =>
      dsimp only [atomOf, canonicalTypeIdOf] at atom
      split at atom
      · cases atom
        exact ⟨rfl, by assumption⟩
      · cases atom
    | _ =>
      unfold atomOf at atom
      split at atom
      · rename_i same
        cases same
      · cases atom
  · intro atom
    rw [atom.1]
    dsimp only [atomOf, canonicalTypeIdOf]
    exact if_pos atom.2

theorem mapM_atomOf_isSome : ∀ allowed : List TypeExpr, (allowed.mapM atomOf).isSome ↔
      ∀ entry ∈ allowed, ∃ name, entry = TypeExpr.concrete name ∧ isAtomName name = true
  | [] => by simp
  | entry :: rest => by
    rw [mapM_cons, forall_mem_cons, ← mapM_atomOf_isSome rest]
    cases atom : atomOf entry with
    | none =>
      simp only [bind_eq_bind, bind_none, isSome_none, Bool.false_eq_true, false_iff, not_and]
      intro named
      obtain ⟨name, same⟩ := named
      rw [atomOf_eq_some.mpr same] at atom
      cases atom
    | some name =>
      have named : ∃ name, entry = TypeExpr.concrete name ∧ isAtomName name = true :=
        ⟨name, atomOf_eq_some.mp atom⟩
      cases rest.mapM atomOf <;> simp [named]

theorem mapM_atomOf_map : ∀ {names other : List String},
    (names.map TypeExpr.concrete).mapM atomOf = some other → other = names
  | [], _, read => by
    cases read
    rfl
  | name :: rest, _, read => by
    rw [map_cons, mapM_cons] at read
    obtain ⟨first, head, read⟩ := bind_eq_some_iff.mp read
    obtain ⟨others, tail, read⟩ := bind_eq_some_iff.mp read
    cases read
    have same := (atomOf_eq_some.mp head).1
    cases same
    rw [mapM_atomOf_map tail]

mutual

theorem typeExprToDinksterWire_isSome : ∀ type : TypeExpr,
    (typeExprToDinksterWire type).isSome ↔ Encodable type
  | .concrete name => by
    unfold typeExprToDinksterWire Encodable
    split <;> simp_all
  | .union names => by
    unfold typeExprToDinksterWire Encodable
    rw [← List.all_eq_true]
    split <;> simp_all
  | .wildcard => by simp [typeExprToDinksterWire, Encodable]
  | .variable templateId none => by
    unfold typeExprToDinksterWire Encodable
    split <;> simp_all
  | .variable templateId (some allowed) => by
    unfold typeExprToDinksterWire Encodable
    rw [← mapM_atomOf_isSome]
    split
    · simp_all
    rename_i given
    cases allowed with
    | nil => simp [given]
    | cons first others =>
      dsimp only
      rw [isSome_map]
      exact ⟨fun named => ⟨given, named⟩, fun named => named.2⟩
  | .list element | .asset element | .stream element => by
    unfold typeExprToDinksterWire Encodable
    rw [isSome_map]
    exact typeExprToDinksterWire_isSome element
  | .tuple elements => by
    unfold typeExprToDinksterWire Encodable
    rw [isSome_map]
    exact typeExprsToDinksterWire_isSome elements
  | .familyTuple _ => by simp [typeExprToDinksterWire, Encodable]
  | .tupleElement (some _) _ _ => by simp [typeExprToDinksterWire, Encodable]
  | .tupleElement none none _ => by simp [typeExprToDinksterWire, Encodable]
  | .tupleElement none (some element) _ => by
    unfold typeExprToDinksterWire Encodable
    split <;> simp

theorem typeExprsToDinksterWire_isSome : ∀ types : List TypeExpr,
    (typeExprsToDinksterWire types).isSome ↔ AllEncodable types
  | [] => by simp [typeExprsToDinksterWire, AllEncodable]
  | element :: rest => by
    unfold typeExprsToDinksterWire AllEncodable
    rw [← typeExprToDinksterWire_isSome element, ← typeExprsToDinksterWire_isSome rest]
    cases typeExprToDinksterWire element <;> cases typeExprsToDinksterWire rest <;> simp

end

/-! ## Reading back what was emitted -/

def ReadsBack {Read : Type} (condition : Prop) (read : Except String Read) (value : Read) : Prop :=
  (condition → read = .ok value) ∧ (¬ condition → ∃ message, read = .error message)

namespace ReadsBack

variable {Read Other : Type} {condition : Prop} {read : Except String Read} {value : Read}

theorem of_true (always : condition) (success : read = .ok value) :
    ReadsBack condition read value :=
  ⟨fun _ => success, fun never => absurd always never⟩

theorem of_false (never : ¬ condition) {message : String} (failed : read = .error message) :
    ReadsBack condition read value :=
  ⟨fun always => absurd always never, fun _ => ⟨message, failed⟩⟩

theorem map (back : ReadsBack condition read value) (next : Read → Other) :
    ReadsBack condition (read.map next) (next value) := by
  constructor
  · intro holds
    rw [back.1 holds]
    rfl
  · intro fails
    obtain ⟨message, failed⟩ := back.2 fails
    exact ⟨message, by rw [failed]; rfl⟩

theorem ok_iff (back : ReadsBack condition read value) : read = .ok value ↔ condition := by
  constructor
  · intro success
    by_contra fails
    obtain ⟨message, failed⟩ := back.2 fails
    rw [failed] at success
    cases success
  · exact back.1

end ReadsBack

section Emitted

variable {numberText : Rat → String}

theorem kindOf_kindWire (kind : TypeKind) (fields : List (String × Json)) :
    kindOf (getField (("kind", .str kind.text) :: fields) "kind") = some kind :=
  kindOf_text kind

variable {name place : String} {rest : List (String × Json)}

variable {value : Json} {kind : TypeKind}

theorem wireTypeField_here : wireTypeField numberText ((name, value) :: rest) name place =
      wireType numberText value s!"{place}.{name}" :=
  if_pos rfl

theorem wireTypeField_there {key : String} (other : key ≠ name) :
    wireTypeField numberText ((key, value) :: rest) name place =
      wireTypeField numberText rest name place :=
  if_neg other

theorem wireTypesField_here {items : List Json} :
    wireTypesField numberText ((name, .arr items) :: rest) name place =
      wireTypes numberText items s!"{place}.{name}" 0 :=
  if_pos rfl

theorem wireTypesField_kind :
    wireTypesField numberText (("kind", .str kind.text) :: rest) "elements" place =
      wireTypesField numberText rest "elements" place :=
  if_neg (by decide)

theorem readsBack_tupleElement {index : TupleIndex} {wire : Json} {element : TypeExpr}
    {condition : Prop} {place : String} (valid : SchemaIndex index)
    (back : ∀ place, ReadsBack condition (wireType numberText wire place) element) :
    ReadsBack condition (wireType numberText
        (kindWire .tupleElement [("element", wire), ("index", indexWire index)]) place)
      (.tupleElement none (some element) index) := by
  have read : wireType numberText
      (kindWire .tupleElement [("element", wire), ("index", indexWire index)]) place =
        (wireTypeField numberText [("element", wire), ("index", indexWire index)] "element"
          place).map fun element => TypeExpr.tupleElement none (some element) index := by
    unfold kindWire wireType
    rw [kindOf_kindWire]
    dsimp only
    rw [wireTypeField_there (by decide), wireTypeField_here]
    generalize wireType numberText wire _ = inside
    cases inside with
    | error message => rfl
    | ok element =>
      have index := wireIndex_indexWire place valid
      simp [wireTupleElement, wireInput, present, index, Except.bind, Except.map]
  rw [read, wireTypeField_here]
  exact (back _).map _

theorem wireType_noSource {index : TupleIndex} :
    ∃ message, wireType numberText (kindWire .tupleElement [("index", indexWire index)]) place =
      .error message := by
  refine ⟨s!"{place} requires exactly one tuple source", ?_⟩
  unfold kindWire wireType
  rw [kindOf_kindWire]
  simp [wireTupleElement, wireInput, present, Except.bind]

mutual

/-- What `wireType` makes of an emitted type expression. -/
theorem wireType_emitted : ∀ (type : TypeExpr), SchemaType type → ∀ {wire : Json},
    typeExprToDinksterWire type = some wire → ∀ place,
      ReadsBack (Rigid type) (wireType numberText wire place) type
  | .concrete name, named, wire, emitted, place => by
    unfold typeExprToDinksterWire at emitted
    split at emitted
    · cases emitted
      apply ReadsBack.of_true trivial
      have names : ∀ other ∈ [name], SchemaName other := by
        intro other listed
        rw [mem_singleton.mp listed]
        exact named
      unfold kindWire wireType
      rw [kindOf_kindWire]
      have read := stringList_namesWire "types" place (Nat.le_refl 1) names
      simp [read]
    · cases emitted
  | .union names, named, wire, emitted, place => by
    unfold typeExprToDinksterWire at emitted
    split at emitted
    · cases emitted
      apply ReadsBack.of_true trivial
      unfold kindWire wireType
      rw [kindOf_kindWire]
      have read := stringList_namesWire "types" place named.1 named.2
      simp [read, Except.map]
    · cases emitted
  | .wildcard, _, wire, emitted, place => by
    cases emitted
    apply ReadsBack.of_true trivial
    unfold kindWire wireType
    rw [kindOf_kindWire]
  | .variable templateId none, named, wire, emitted, place => by
    unfold typeExprToDinksterWire at emitted
    rw [if_neg named] at emitted
    cases emitted
    apply ReadsBack.of_true trivial
    unfold kindWire wireType
    rw [kindOf_kindWire]
    dsimp only [wireVariable]
    have nonempty : templateId ≠ "" := named
    simp [nonempty]
  | .variable templateId (some allowed), named, wire, emitted, place => by
    obtain ⟨nonempty, names, some, rfl, listed⟩ := named
    unfold typeExprToDinksterWire at emitted
    rw [if_neg nonempty] at emitted
    cases names with
    | nil => exact absurd rfl some
    | cons first others =>
      obtain ⟨names, _, rfl⟩ := map_eq_some_iff.mp emitted
      -- the decoder of schemas knows the allow-list under another name
      apply ReadsBack.of_false id
      unfold kindWire wireType
      rw [kindOf_kindWire]
      dsimp only [wireVariable]
      simp [nonempty]
      rfl
  | .list element, named, wire, emitted, place => by
    obtain ⟨inner, encoded, rfl⟩ := map_eq_some_iff.mp emitted
    unfold kindWire wireType
    rw [kindOf_kindWire]
    dsimp only
    rw [wireTypeField_there (by decide), wireTypeField_here]
    exact (wireType_emitted element named encoded _).map TypeExpr.list
  | .asset element, named, wire, emitted, place => by
    obtain ⟨inner, encoded, rfl⟩ := map_eq_some_iff.mp emitted
    unfold kindWire wireType
    rw [kindOf_kindWire]
    dsimp only
    rw [wireTypeField_there (by decide), wireTypeField_here]
    exact (wireType_emitted element named encoded _).map TypeExpr.asset
  | .stream element, named, wire, emitted, place => by
    obtain ⟨inner, encoded, rfl⟩ := map_eq_some_iff.mp emitted
    unfold kindWire wireType
    rw [kindOf_kindWire]
    dsimp only
    rw [wireTypeField_there (by decide), wireTypeField_here]
    exact (wireType_emitted element named encoded _).map TypeExpr.stream
  | .tuple elements, named, wire, emitted, place => by
    obtain ⟨inner, encoded, rfl⟩ := map_eq_some_iff.mp emitted
    unfold kindWire wireType
    rw [kindOf_kindWire]
    dsimp only
    rw [wireTypesField_kind, wireTypesField_here]
    exact (wireTypes_emitted elements named encoded _ 0).map TypeExpr.tuple
  | .familyTuple input, named, wire, emitted, place => by
    cases emitted
    apply ReadsBack.of_true trivial
    unfold kindWire wireType
    rw [kindOf_kindWire]
    have segment := wireSegment_of_isWireSegment s!"{place}.input" named
    simp [segment, Except.map]
  | .tupleElement (some input) none index, named, wire, emitted, place => by
    cases emitted
    apply ReadsBack.of_true trivial
    unfold kindWire wireType
    rw [kindOf_kindWire]
    have segment := wireSegment_of_isWireSegment s!"{place}.input" named.1
    have index := wireIndex_indexWire place named.2
    simp [wireTupleElement, wireInput, present, segment, index, Except.bind, Except.map]
  | .tupleElement (some _) (some _) _, named, _, _, _
  | .tupleElement none none _, named, _, _, _ => named.elim
  | .tupleElement none (some element) index, named, wire, emitted, place => by
    unfold typeExprToDinksterWire at emitted
    split at emitted
    · rename_i inner encoded
      cases emitted
      have can : Encodable element :=
        (typeExprToDinksterWire_isSome element).mp (by rw [encoded]; rfl)
      have back := fun place => wireType_emitted element named.1 encoded place
      have whole := @readsBack_tupleElement _ _ _ _ _ place named.2 back
      constructor
      · intro rigid
        exact whole.1 rigid.2
      · intro loose
        exact whole.2 fun rigid => loose ⟨can, rigid⟩
    · rename_i refused
      cases emitted
      have never : ¬ Rigid (.tupleElement none (some element) index) := by
        intro rigid
        have can := (typeExprToDinksterWire_isSome element).mpr rigid.1
        rw [refused] at can
        cases can
      obtain ⟨message, failed⟩ := wireType_noSource
      exact ReadsBack.of_false never failed

theorem wireTypes_emitted : ∀ (types : List TypeExpr), SchemaTypes types →
    ∀ {wires : List Json}, typeExprsToDinksterWire types = some wires → ∀ place index,
      ReadsBack (AllRigid types) (wireTypes numberText wires place index) types
  | [], _, wires, emitted, place, index => by
    cases emitted
    exact ReadsBack.of_true trivial rfl
  | element :: rest, named, wires, emitted, place, index => by
    obtain ⟨first, head, emitted⟩ := bind_eq_some_iff.mp emitted
    obtain ⟨others, tail, rfl⟩ := map_eq_some_iff.mp emitted
    have front := wireType_emitted element named.1 head s!"{place}[{index}]"
    have back := wireTypes_emitted rest named.2 tail place (index + 1)
    unfold wireTypes
    constructor
    · intro rigid
      rw [front.1 rigid.1, Except.bind, back.1 rigid.2]
      rfl
    · intro loose
      by_cases rigid : Rigid element
      · rw [front.1 rigid, Except.bind]
        obtain ⟨message, failed⟩ := back.2 fun later => loose ⟨rigid, later⟩
        exact ⟨message, by rw [failed]; rfl⟩
      · obtain ⟨message, failed⟩ := front.2 rigid
        exact ⟨message, by rw [failed]; rfl⟩

end

theorem exprField_there {key : String} (other : key ≠ name) :
    exprField numberText ((key, value) :: rest) name = exprField numberText rest name :=
  if_neg other

theorem exprField_here : exprField numberText ((name, value) :: rest) name =
      typeExprFromDinksterWire numberText value :=
  if_pos rfl

/-- What the decoder of ports makes of a tuple, the decoder of schemas makes of it. -/
theorem typeExprFromDinksterWire_tuple {fields : List (String × Json)}
    (tuple : kind = .tuple ∨ kind = .familyTuple ∨ kind = .tupleElement)
    (untyped : getField fields "types" = none) :
    typeExprFromDinksterWire numberText (kindWire kind fields) =
      wireType numberText (kindWire kind fields) "type" := by
  unfold kindWire typeExprFromDinksterWire
  have names : typeNames numberText (getField (("kind", .str kind.text) :: fields) "types") =
      .ok [] := by
    rw [getField_cons, if_neg (by decide), untyped]
    rfl
  rw [names, kindOf_kindWire]
  rcases tuple with rfl | rfl | rfl <;> rfl

/-- What the decoder of ports makes of a structured type. -/
theorem readsBack_structured {next : TypeExpr → TypeExpr} {wire : Json} {element : TypeExpr}
    {condition : Prop} (structured : kind = .list ∧ next = .list ∨ kind = .asset ∧ next = .asset ∨
      kind = .stream ∧ next = .stream)
    (back : ReadsBack condition (typeExprFromDinksterWire numberText wire) element) :
    ReadsBack condition
      (typeExprFromDinksterWire numberText (kindWire kind [("element", wire)])) (next element) := by
  have read : typeExprFromDinksterWire numberText (kindWire kind [("element", wire)]) =
      (typeExprFromDinksterWire numberText wire).map next := by
    unfold kindWire
    rw [typeExprFromDinksterWire, kindOf_kindWire]
    have names : typeNames numberText
        (getField [("kind", .str kind.text), ("element", wire)] "types") = .ok [] := rfl
    rw [names]
    have inside : exprField numberText [("kind", .str kind.text), ("element", wire)] "element" =
        typeExprFromDinksterWire numberText wire := by
      rw [exprField_there (by decide), exprField_here]
    rw [inside]
    rcases structured with ⟨rfl, rfl⟩ | ⟨rfl, rfl⟩ | ⟨rfl, rfl⟩ <;> rfl
  rw [read]
  exact back.map next

/-- What `typeExprFromDinksterWire` makes of an emitted type expression. -/
theorem typeExprFromDinksterWire_emitted : ∀ (type : TypeExpr), SchemaType type →
    ∀ {wire : Json}, typeExprToDinksterWire type = some wire →
      ReadsBack (Carried type) (typeExprFromDinksterWire numberText wire) type
  | .concrete name, named, wire, emitted => by
    unfold typeExprToDinksterWire at emitted
    split at emitted
    · cases emitted
      apply ReadsBack.of_true trivial
      unfold kindWire typeExprFromDinksterWire
      rw [kindOf_kindWire]
      have names : typeNames numberText
          (getField [("kind", .str TypeKind.concrete.text), ("types", namesWire [name])] "types") =
            .ok [name] := typeNames_namesWire [name]
      have plain : isStreamName name = false := named.2
      rw [names]
      simp [plain]
    · cases emitted
  | .union names, named, wire, emitted => by
    unfold typeExprToDinksterWire at emitted
    split at emitted
    · cases emitted
      apply ReadsBack.of_true trivial
      unfold kindWire typeExprFromDinksterWire
      rw [kindOf_kindWire]
      have read : typeNames numberText
          (getField [("kind", .str TypeKind.union.text), ("types", namesWire names)] "types") =
            .ok names := typeNames_namesWire names
      rw [read]
      dsimp only
      rw [any_isStreamName named.2, if_neg (by decide), if_neg (Nat.not_lt.mpr named.1)]
    · cases emitted
  | .wildcard, _, wire, emitted => by
    cases emitted
    exact ReadsBack.of_true trivial rfl
  | .variable templateId none, named, wire, emitted => by
    unfold typeExprToDinksterWire at emitted
    rw [if_neg named] at emitted
    cases emitted
    apply ReadsBack.of_true trivial
    unfold kindWire typeExprFromDinksterWire
    rw [kindOf_kindWire]
    have nonempty : templateId ≠ "" := named
    simp [typeNames, exprVariable, nonempty]
  | .variable templateId (some allowed), named, wire, emitted => by
    obtain ⟨nonempty, names, some, rfl, listed⟩ := named
    unfold typeExprToDinksterWire at emitted
    rw [if_neg nonempty] at emitted
    cases names with
    | nil => exact absurd rfl some
    | cons first others =>
      obtain ⟨names, atoms, rfl⟩ := map_eq_some_iff.mp emitted
      have same := mapM_atomOf_map atoms
      subst same
      apply ReadsBack.of_true trivial
      unfold kindWire typeExprFromDinksterWire
      rw [kindOf_kindWire]
      have read : typeNames numberText
          (getField [("kind", .str TypeKind.variable.text), ("templateId", .str templateId),
            ("types", namesWire (first :: others))] "types") = .ok (first :: others) :=
        typeNames_namesWire (first :: others)
      rw [read]
      dsimp only
      rw [any_isStreamName listed, if_neg (by decide)]
      simp [exprVariable, nonempty]
  | .list element, named, wire, emitted => by
    obtain ⟨inner, encoded, rfl⟩ := map_eq_some_iff.mp emitted
    exact readsBack_structured (.inl ⟨rfl, rfl⟩)
      (typeExprFromDinksterWire_emitted element named encoded)
  | .asset element, named, wire, emitted => by
    obtain ⟨inner, encoded, rfl⟩ := map_eq_some_iff.mp emitted
    exact readsBack_structured (.inr (.inl ⟨rfl, rfl⟩))
      (typeExprFromDinksterWire_emitted element named encoded)
  | .stream element, named, wire, emitted => by
    obtain ⟨inner, encoded, rfl⟩ := map_eq_some_iff.mp emitted
    exact readsBack_structured (.inr (.inr ⟨rfl, rfl⟩))
      (typeExprFromDinksterWire_emitted element named encoded)
  | .tuple elements, named, wire, emitted => by
    have back := @wireType_emitted numberText (.tuple elements) named _ emitted "type"
    obtain ⟨inner, encoded, rfl⟩ := map_eq_some_iff.mp emitted
    rw [typeExprFromDinksterWire_tuple (.inl rfl) rfl]
    exact back
  | .familyTuple input, named, wire, emitted => by
    have back := @wireType_emitted numberText (.familyTuple input) named _ emitted "type"
    cases emitted
    rw [typeExprFromDinksterWire_tuple (.inr (.inl rfl)) rfl]
    exact back
  | .tupleElement (some input) none index, named, wire, emitted => by
    have back := @wireType_emitted numberText (.tupleElement (some input) none index) named _ emitted "type"
    cases emitted
    rw [typeExprFromDinksterWire_tuple (.inr (.inr rfl)) rfl]
    exact back
  | .tupleElement (some _) (some _) _, named, _, _ => named.elim
  | .tupleElement none none _, named, _, _ => named.elim
  | .tupleElement none (some element) index, named, wire, emitted => by
    have back := @wireType_emitted numberText (.tupleElement none (some element) index) named _ emitted "type"
    unfold typeExprToDinksterWire at emitted
    split at emitted
    all_goals
      cases emitted
      rw [typeExprFromDinksterWire_tuple (.inr (.inr rfl)) rfl]
      exact back

end Emitted

/-! ## The ports of regions -/

def bodyType (elementPort : Bool) (incoming : Option TypeExpr) : Option TypeExpr :=
  match elementPort, incoming with
  | true, some (.list element) => some element
  | _, _ => incoming

def portType (declared : TypeExpr) (elementPort : Bool) (incoming : Option TypeExpr) : TypeExpr :=
  match bodyType elementPort incoming with
  | some body =>
    if (canonicalTypeIdOf declared).isNone && (canonicalTypeIdOf body).isSome then body
    else declared
  | none => declared

def portWire (declared : TypeExpr) (elementPort : Bool) (incoming : Option TypeExpr) :
    Option Json :=
  typeExprToDinksterWire (portType declared elementPort incoming)

/-- What `validateRegion` says about a port. -/
def portShape (numberText : Rat → String) (path portId : String) (typeWire : Json) :
    Option String :=
  match typeExprFromDinksterWire numberText typeWire with
  | .ok _ => none
  | .error message =>
    some s!"region '{path}': port '{portId}' declares a malformed type expression: {message}"

def ReadFromSchema (numberText : Rat → String) (type : TypeExpr) : Prop :=
  ∃ wire place, wireType numberText wire place = .ok type

theorem schemaType_portType {numberText : Rat → String} {declared : TypeExpr} {elementPort : Bool}
    {incoming : Option TypeExpr} (known : ReadFromSchema numberText declared)
    (arriving : ∀ type, incoming = some type → ReadFromSchema numberText type) :
    SchemaType (portType declared elementPort incoming) := by
  have schema : ∀ type, ReadFromSchema numberText type → SchemaType type := by
    intro type read
    obtain ⟨wire, place, read⟩ := read
    exact schemaType_of_wireType wire read
  have body : ∀ type, bodyType elementPort incoming = some type → SchemaType type := by
    intro type found
    unfold bodyType at found
    split at found
    · cases found
      have whole := schema _ (arriving _ rfl)
      exact whole
    · exact schema type (arriving type found)
  unfold portType
  split
  · rename_i type found
    split
    · exact body type found
    · exact schema declared known
  · exact schema declared known

/-- An emitted type expression is read back, and a region's port passes validation, exactly
when its type is carried. -/
theorem typeWire_roundTrip_iff (numberText : Rat → String) (type : TypeExpr)
    (read : ReadFromSchema numberText type) : (∀ wire, typeExprToDinksterWire type = some wire →
      (typeExprFromDinksterWire numberText wire = .ok type ↔ Carried type)) ∧
    ∀ elementPort incoming, (∀ other, incoming = some other → ReadFromSchema numberText other) →
      ∀ wire, portWire type elementPort incoming = some wire → ∀ path portId,
        (portShape numberText path portId wire = none ↔
          Carried (portType type elementPort incoming)) := by
  constructor
  · intro wire emitted
    obtain ⟨source, place, read⟩ := read
    have schema := schemaType_of_wireType source read
    exact (typeExprFromDinksterWire_emitted type schema emitted).ok_iff
  · intro elementPort incoming arriving wire emitted path portId
    have schema := @schemaType_portType _ _ elementPort _ read arriving
    have back := @typeExprFromDinksterWire_emitted numberText _ schema _ emitted
    rw [← back.ok_iff]
    unfold portShape
    constructor
    · intro silent
      split at silent
      · rename_i other success
        by_contra unequal
        obtain ⟨message, failed⟩ := back.2 fun carried => unequal (back.1 carried)
        rw [success] at failed
        cases failed
      · cases silent
    · intro success
      rw [success]

/-- The wire of a tuple whose only element is a variable that allows one type. -/
def boundedTuple : Json :=
  .obj [("kind", .str "tuple"), ("elements", .arr [
    .obj [("kind", .str "variable"), ("templateId", .str "T"),
      ("allowed", .arr [.str "INT"])]])]

def wholeText (value : Rat) : String := toString value.num

/-- What is emitted for it is refused, by the validation of region ports too. -/
theorem boundedTuple_refused :
    ∃ type wire message, wireType wholeText boundedTuple "type" = .ok type ∧
      typeExprToDinksterWire type = some wire ∧ portWire type false none = some wire ∧
      typeExprFromDinksterWire wholeText wire = .error message := by
  refine ⟨.tuple [.variable "T" (some [.concrete "INT"])],
    kindWire .tuple [("elements", .arr [kindWire .variable
      [("templateId", .str "T"), ("types", namesWire ["INT"])]])],
    "type.elements[0].types is not a variable field; use allowed", ?_, ?_, ?_, ?_⟩
  all_goals rfl

/-- A list of a concrete type. -/
def imageList : Json :=
  .obj [("kind", .str "list"), ("element",
    .obj [("kind", .str "concrete"), ("types", .arr [.str "IMAGE"])])]

theorem typeWire_roundTrip_iff_imageList :
    typeExprFromDinksterWire wholeText (kindWire .list [("element",
      kindWire .concrete [("types", namesWire ["IMAGE"])])]) = .ok (.list (.concrete "IMAGE")) := by
  have read : ReadFromSchema wholeText (.list (.concrete "IMAGE")) := ⟨imageList, "type", rfl⟩
  exact ((typeWire_roundTrip_iff wholeText (.list (.concrete "IMAGE")) read).1 _ rfl).mpr trivial

end Dinkster.Format
