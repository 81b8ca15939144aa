import Dinkster.Commands.Wire
import Dinkster.Library.Table
import Dinkster.Library.Utf16

/-!
# Presence

A client broadcasts where it is and what it holds, and its peers decode what they receive.  The
encoder limits some parts of the local state and passes the others on as they are; the decoder
refuses a frame as a whole as soon as one part is out of bounds, which leaves its sender invisible.
-/

namespace Dinkster.Collab

open Library Format Commands List Option

def presenceVersion : Rat := 1

def presenceMaxSelection : Nat := 2048

def presenceMaxDrag : Nat := 512

def presenceMaxIdentityString : Nat := 64

def presenceMaxProposals : Nat := 8

def presenceMaxProposalId : Nat := 128

def presenceMaxProposalSettingId : Nat := 128

def presenceMaxProposalNote : Nat := 280

def presenceMaxProposalValue : Nat := 2048

/-- The length of a text in UTF-16 code units. -/
def textLength (text : String) : Nat :=
  (textUnits text).length

structure SettingsProposal where
  id : String
  settingId : String
  value : Json
  note : Option String

inductive PresenceKind where
  | human
  | agent
  deriving DecidableEq

structure PresenceIdentity where
  kind : PresenceKind
  displayName : Option String
  owner : Option String
  harness : Option String

inductive ActivityStatus where
  | running
  | success
  | error

structure PendingAsk where
  id : String
  prompt : String

/-- `AgentActivity`; its version and its type are always the same. -/
structure AgentActivity where
  tool : String
  status : ActivityStatus
  pendingAsks : List PendingAsk

structure PresencePoint where
  x : Rat
  y : Rat

structure PresenceRect where
  x : Rat
  y : Rat
  w : Rat
  h : Rat

structure PresenceOffset where
  dx : Rat
  dy : Rat

inductive PresenceSide where
  | input
  | output

inductive PresenceLinkOrigin where
  | port (node port : String) (side : PresenceSide)
  | widgetTap (node input : String)
  | reroute (reroute : String) (side : Option PresenceSide)

structure PresenceLinkDrag where
  origin : PresenceLinkOrigin
  cursor : PresencePoint

structure LocalPresence where
  activity : Option AgentActivity
  graph : String
  cursor : Option PresencePoint
  selection : List String
  reroutes : Option (List String)
  view : Option PresenceRect
  hover : Option String
  drag : Option (Dict PresenceOffset)
  link : Option PresenceLinkDrag
  identity : Option PresenceIdentity
  proposals : Option (List SettingsProposal)

structure DecodedPresence where
  activity : Option AgentActivity
  graph : String
  cursor : Option PresencePoint
  selection : List String
  reroutes : List String
  view : Option PresenceRect
  hover : Option String
  drag : Option (Dict PresenceOffset)
  link : Option PresenceLinkDrag
  identity : Option PresenceIdentity
  proposals : Option (List SettingsProposal)

/-- What `decodePresence` returns: nothing is `null`. -/
inductive PresenceFrame where
  | noise
  | gone
  | present (presence : DecodedPresence)

/-! ## Decoding -/

/-- A part that may be `null` or missing. -/
def decodeNullable {Part : Type} (decode : Json → Option Part) : Option Json → Option (Option Part)
  | none | some .null => some none
  | some raw => (decode raw).map some

def decodeText : Json → Option String
  | .str text => some text
  | _ => none

def decodeName : Json → Option String
  | .str text => if text = "" then none else some text
  | _ => none

/-- A point whose coordinates pass `isFinitePoint`. -/
def decodePoint : Json → Option PresencePoint
  | .obj fields =>
    match getField fields "x", getField fields "y" with
    | some (.num x), some (.num y) => some ⟨x, y⟩
    | _, _ => none
  | _ => none

/-- A rectangle that passes `isFiniteRect`. -/
def decodeRect : Json → Option PresenceRect
  | .obj fields =>
    match getField fields "x", getField fields "y", getField fields "w", getField fields "h" with
    | some (.num x), some (.num y), some (.num w), some (.num h) =>
      if 0 < w ∧ 0 < h then some ⟨x, y, w, h⟩ else none
    | _, _, _, _ => none
  | _ => none

def decodeIds : Json → Option (List String)
  | .arr items => if presenceMaxSelection < items.length then none else items.mapM decodeText
  | _ => none

def decodeReroutes : Option Json → Option (List String)
  | none => some []
  | some raw => decodeIds raw

def decodeDragEntry : Json → Option (String × PresenceOffset)
  | .arr [.str id, .num dx, .num dy] => some (id, ⟨dx, dy⟩)
  | _ => none

def dictOf {Value : Type} (entries : List (String × Value)) : Dict Value where
  table := entries.foldl (fun table entry => Table.set table entry.1 entry.2) []
  distinct := by
    have every : ∀ (start : Table Value), (start.map Prod.fst).Nodup →
        ((entries.foldl (fun table entry => Table.set table entry.1 entry.2) start).map
          Prod.fst).Nodup := by
      induction entries with
      | nil => exact fun start distinct => distinct
      | cons entry rest ih =>
        exact fun start distinct => ih _ (Table.nodup_keys_set entry.1 entry.2 distinct)
    exact every [] List.nodup_nil

def decodeDrag : Json → Option (Dict PresenceOffset)
  | .arr entries =>
    if presenceMaxDrag < entries.length then none
    else (entries.mapM decodeDragEntry).map dictOf
  | _ => none

def decodeSide : Json → Option PresenceSide
  | .str "in" => some .input
  | .str "out" => some .output
  | _ => none

/-- Where a link drag comes from. -/
def decodeOrigin : Json → Option PresenceLinkOrigin
  | .obj fields =>
    match getField fields "kind" with
    | some (.str "port") => do
      let node ← (getField fields "node").bind decodeName
      let port ← (getField fields "port").bind decodeName
      let side ← (getField fields "side").bind decodeSide
      return .port node port side
    | some (.str "widgetTap") => do
      let node ← (getField fields "node").bind decodeName
      let input ← (getField fields "input").bind decodeName
      return .widgetTap node input
    | some (.str "reroute") => do
      let reroute ← (getField fields "reroute").bind decodeName
      match getField fields "side" with
      | none => return .reroute reroute none
      | some raw => return .reroute reroute (← decodeSide raw)
    | _ => none
  | _ => none

def decodeLink : Json → Option PresenceLinkDrag
  | .obj fields => do
    let origin ← (getField fields "origin").bind decodeOrigin
    let cursor ← (getField fields "cursor").bind decodePoint
    return ⟨origin, cursor⟩
  | _ => none

/-- A display hint that is not too long. -/
def identityString (value : Option String) : Option String :=
  value.filter fun text => textLength text ≤ presenceMaxIdentityString

def decodeIdentity : Option Json → Option PresenceIdentity
  | some (.obj fields) =>
    let stringField (name : String) := identityString ((getField fields name).bind decodeText)
    match getField fields "kind" with
    | some (.str "human") =>
      some ⟨.human, stringField "displayName", stringField "owner", stringField "harness"⟩
    | some (.str "agent") =>
      some ⟨.agent, stringField "displayName", stringField "owner", stringField "harness"⟩
    | _ => none
  | _ => none

/-- The status that is written as a text, as `String` writes it. -/
def decodeStatus (raw : Json) : Option ActivityStatus :=
  match stringText raw with
  | "running" => some .running
  | "success" => some .success
  | "error" => some .error
  | _ => none

def decodeAsk : Json → Option PendingAsk
  | .obj fields =>
    match getField fields "id", getField fields "prompt" with
    | some (.str id), some (.str prompt) =>
      if 128 < textLength id ∨ 280 < textLength prompt then none else some ⟨id, prompt⟩
    | _, _ => none
  | _ => none

def decodeActivity : Option Json → Option AgentActivity
  | some (.obj fields) =>
    if getField fields "v" = some (.num 1) ∧
        getField fields "type" = some (.str "agent_tool_call") then
      match getField fields "tool", getField fields "status", getField fields "pendingAsks" with
      | some (.str tool), some rawStatus, some (.arr rawAsks) => do
        let status ← decodeStatus rawStatus
        if 128 < textLength tool ∨ 8 < rawAsks.length then
          none
        else
          return ⟨tool, status, ← rawAsks.mapM decodeAsk⟩
      | _, _, _ => none
    else
      none
  | _ => none

section

/- The length of what `JSON.stringify` makes of a value, where it makes something. -/
variable (encodedValueLength : Json → Option Nat)

def validProposal (proposal : SettingsProposal) : Bool :=
  proposal.id ≠ "" && textLength proposal.id ≤ presenceMaxProposalId &&
    proposal.settingId ≠ "" && textLength proposal.settingId ≤ presenceMaxProposalSettingId &&
    (proposal.note.all fun note => textLength note ≤ presenceMaxProposalNote) &&
    (encodedValueLength proposal.value).any fun length => length ≤ presenceMaxProposalValue

/-- The checks of `decodePresence` on one proposal. -/
def decodeProposal : Json → Option SettingsProposal
  | .obj fields =>
    match getField fields "id", getField fields "settingId", getField fields "value" with
    | some (.str id), some (.str settingId), some value => do
      let note ← match getField fields "note" with
        | none => some none
        | some raw => (decodeText raw).map some
      let proposal := ⟨id, settingId, value, note⟩
      if validProposal encodedValueLength proposal then some proposal else none
    | _, _, _ => none
  | _ => none

/-- The loop of `decodePresence` over proposals, beside the ids it has seen. -/
def decodeEach : List Json → List String → Option (List SettingsProposal)
  | [], _ => some []
  | raw :: rest, ids => do
    let proposal ← decodeProposal encodedValueLength raw
    if ids.contains proposal.id then
      none
    else
      return proposal :: (← decodeEach rest (proposal.id :: ids))

def decodeProposals : Option Json → Option (Option (List SettingsProposal))
  | none => some none
  | some (.arr items) =>
    if items.length = 0 ∨ presenceMaxProposals < items.length then none
    else (decodeEach encodedValueLength items []).map some
  | some _ => none

/-- The parts of a frame that is not a farewell. -/
def decodeParts (fields : List (String × Json)) : Option DecodedPresence := do
  let graph ← (getField fields "graph").bind decodeName
  let cursor ← decodeNullable decodePoint (getField fields "cursor")
  let selection ← (getField fields "selection").bind decodeIds
  let reroutes ← decodeReroutes (getField fields "reroutes")
  let view ← decodeNullable decodeRect (getField fields "view")
  let hover ← decodeNullable decodeName (getField fields "hover")
  let drag ← decodeNullable decodeDrag (getField fields "drag")
  let link ← decodeNullable decodeLink (getField fields "link")
  let identity := decodeIdentity (getField fields "identity")
  let activity :=
    if identity.map PresenceIdentity.kind = some .agent then
      decodeActivity (getField fields "activity")
    else
      none
  let proposals ← decodeProposals encodedValueLength (getField fields "proposals")
  return ⟨activity, graph, cursor, selection, reroutes, view, hover, drag, link, identity,
    proposals⟩

def decodePresence : Option Json → PresenceFrame
  | some (.obj fields) =>
    if getField fields "v" = some (.num presenceVersion) then
      if getField fields "gone" = some (.bool true) then
        .gone
      else
        match decodeParts encodedValueLength fields with
        | none => .noise
        | some presence => .present presence
    else
      .noise
  | _ => .noise

end

/-! ## Encoding -/

/-- The members of an object that are given. -/
def given : List (String × Option Json) → List (String × Json)
  | [] => []
  | (name, some value) :: rest => (name, value) :: given rest
  | (_, none) :: rest => given rest

def PresenceSide.json : PresenceSide → Json
  | .input => .str "in"
  | .output => .str "out"

def PresencePoint.json (point : PresencePoint) : Json :=
  .obj [("x", .num point.x), ("y", .num point.y)]

def PresenceRect.json (rect : PresenceRect) : Json :=
  .obj [("x", .num rect.x), ("y", .num rect.y), ("w", .num rect.w), ("h", .num rect.h)]

def dragEntryJson (entry : String × PresenceOffset) : Json :=
  .arr [.str entry.1, .num entry.2.dx, .num entry.2.dy]

def PresenceLinkOrigin.json : PresenceLinkOrigin → Json
  | .port node name side =>
    .obj [("kind", .str "port"), ("node", .str node), ("port", .str name), ("side", side.json)]
  | .widgetTap node input =>
    .obj [("kind", .str "widgetTap"), ("node", .str node), ("input", .str input)]
  | .reroute name side =>
    .obj (given [("kind", some (.str "reroute")), ("reroute", some (.str name)),
      ("side", side.map PresenceSide.json)])

def PresenceLinkDrag.json (link : PresenceLinkDrag) : Json :=
  .obj [("origin", link.origin.json), ("cursor", link.cursor.json)]

def PresenceKind.json : PresenceKind → Json
  | .human => .str "human"
  | .agent => .str "agent"

variable (identity : PresenceIdentity)

def encodeIdentity : Json :=
  .obj (given [("kind", some identity.kind.json),
    ("displayName", (identityString identity.displayName).map .str),
    ("owner", (identityString identity.owner).map .str),
    ("harness", (identityString identity.harness).map .str)])

def ActivityStatus.json : ActivityStatus → Json
  | .running => .str "running"
  | .success => .str "success"
  | .error => .str "error"

def PendingAsk.json (ask : PendingAsk) : Json :=
  .obj [("id", .str ask.id), ("prompt", .str ask.prompt)]

def AgentActivity.json (activity : AgentActivity) : Json :=
  .obj [("v", .num 1), ("type", .str "agent_tool_call"), ("tool", .str activity.tool),
    ("status", activity.status.json),
    ("pendingAsks", .arr (activity.pendingAsks.map PendingAsk.json))]

def SettingsProposal.json (proposal : SettingsProposal) : Json :=
  .obj (given [("id", some (.str proposal.id)), ("settingId", some (.str proposal.settingId)),
    ("value", some proposal.value), ("note", proposal.note.map .str)])

section

variable (encodedValueLength : Json → Option Nat)

/-- The loop of `encodeProposals`, beside the ids it has seen and what it has taken. -/
def takeProposals :
    List SettingsProposal → List String → List SettingsProposal → List SettingsProposal
  | [], _, taken => taken
  | proposal :: rest, ids, taken =>
    if !validProposal encodedValueLength proposal || ids.contains proposal.id then
      takeProposals rest ids taken
    else if (taken ++ [proposal]).length = presenceMaxProposals then
      taken ++ [proposal]
    else
      takeProposals rest (proposal.id :: ids) (taken ++ [proposal])

def encodeProposals (proposals : List SettingsProposal) : List Json :=
  (takeProposals encodedValueLength proposals [] []).map SettingsProposal.json

/-- A list that is sent only where it has entries. -/
def filled (items : List Json) : Option Json :=
  if 0 < items.length then some (.arr items) else none

/-- The members of the object `encodePresence` returns. -/
def presenceFields (presence : LocalPresence) : List (String × Option Json) :=
  [("v", some (.num presenceVersion)),
    ("graph", some (.str presence.graph)),
    ("cursor", some ((presence.cursor.map PresencePoint.json).getD .null)),
    ("selection", some (.arr (presence.selection.map .str))),
    ("reroutes", presence.reroutes.bind fun reroutes => filled (reroutes.map .str)),
    ("view", presence.view.map PresenceRect.json),
    ("hover", presence.hover.map .str),
    ("drag", presence.drag.bind fun drag =>
      filled ((drag.table.take presenceMaxDrag).map dragEntryJson)),
    ("link", presence.link.map PresenceLinkDrag.json),
    ("identity", presence.identity.map encodeIdentity),
    ("activity", (decodeActivity (presence.activity.map AgentActivity.json)).map
      AgentActivity.json),
    ("proposals", filled (encodeProposals encodedValueLength (presence.proposals.getD [])))]

def encodePresence (presence : LocalPresence) : Json :=
  .obj (given (presenceFields encodedValueLength presence))

end

@[simp] theorem getField_given_nil (name : String) : getField (given []) name = none := rfl

@[simp] theorem getField_given_cons (name other : String) (value : Option Json)
    (rest : List (String × Option Json)) : getField (given ((name, value) :: rest)) other =
      if name = other then value.or (getField (given rest) other)
      else getField (given rest) other := by
  cases value <;> by_cases same : name = other <;> simp [given, same]

variable (activity : AgentActivity)

def AgentActivity.valid : Bool :=
  textLength activity.tool ≤ 128 && activity.pendingAsks.length ≤ 8 &&
    activity.pendingAsks.all fun ask => textLength ask.id ≤ 128 && textLength ask.prompt ≤ 280

/-- Whether the place a link drag comes from is named. -/
def PresenceLinkOrigin.named : PresenceLinkOrigin → Bool
  | .port node name _ => node ≠ "" && name ≠ ""
  | .widgetTap node input => node ≠ "" && input ≠ ""
  | .reroute name _ => name ≠ ""

section

variable {Part : Type} {decode : Json → Option Part} {encode : Part → Json} {fits : Part → Bool}
  (each : ∀ part, decode (encode part) = if fits part then some part else none)

include each

theorem mapM_map_of (parts : List Part) :
    (parts.map encode).mapM decode = if parts.all fits then some parts else none := by
  induction parts with
  | nil => simp
  | cons part rest ih =>
    rw [map_cons, mapM_cons, each, ih]
    cases here : fits part with
    | false => simp [here]
    | true => cases there : rest.all fits <;> simp [here, there]

theorem decodeNullable_map (written : ∀ part, encode part ≠ .null) (part : Option Part) :
    decodeNullable decode (part.map encode) = if part.all fits then some part else none := by
  cases part with
  | none => simp [decodeNullable]
  | some part =>
    rw [map_some, decodeNullable, each]
    · cases fit : fits part <;> simp [fit]
    · exact written part

end

theorem decodePoint_json (point : PresencePoint) : decodePoint point.json = some point := by
  simp [decodePoint, PresencePoint.json]

theorem decodeRect_json (rect : PresenceRect) :
    decodeRect rect.json = if 0 < rect.w && 0 < rect.h then some rect else none := by
  simp [decodeRect, PresenceRect.json]

theorem decodeIds_str (ids : List String) : decodeIds (.arr (ids.map .str)) =
      if ids.length ≤ presenceMaxSelection then some ids else none := by
  have read := @mapM_map_of _ decodeText .str (fun _ => true) (fun _ => rfl) ids
  rw [decodeIds, length_map, read]
  by_cases few : ids.length ≤ presenceMaxSelection <;> simp [few]

theorem dictOf_table {Value : Type} (dict : Dict Value) : dictOf dict.table = dict := by
  have every : ∀ start entries : Table Value, ((start ++ entries).map Prod.fst).Nodup →
      entries.foldl (fun table entry => Table.set table entry.1 entry.2) start =
        start ++ entries := by
    intro start entries
    induction entries generalizing start with
    | nil => simp
    | cons entry rest ih =>
      intro apart
      have missing : Table.get start entry.1 = none := by
        rw [Table.get_eq_none_iff]
        rw [map_append, nodup_append] at apart
        exact fun listed => apart.2.2 _ listed _ (by simp) rfl
      rw [foldl_cons, Table.set_of_get_none missing, ih, append_assoc]
      · rfl
      · rwa [append_assoc]
  cases dict with
  | mk table distinct => simpa [dictOf] using every [] table distinct

/-! ## One part after the other -/

theorem decodeDrag_json (drag : Dict PresenceOffset) (few : drag.table.length ≤ presenceMaxDrag) :
    decodeDrag (.arr (drag.table.map dragEntryJson)) = some drag := by
  have read := @mapM_map_of _ decodeDragEntry dragEntryJson (fun _ => true) (fun _ => rfl)
    drag.table
  rw [decodeDrag, length_map, read, if_neg (by omega)]
  simp [dictOf_table]

@[simp] theorem decodeSide_json (side : PresenceSide) : decodeSide side.json = some side := by
  cases side <;> rfl

theorem decodeLink_json (link : PresenceLinkDrag) :
    decodeLink link.json = if link.origin.named then some link else none := by
  have origin : decodeOrigin link.origin.json =
      if link.origin.named then some link.origin else none := by
    cases link.origin with
    | port node name _ | widgetTap node name =>
      by_cases first : node = "" <;> by_cases second : name = "" <;>
        simp [decodeOrigin, PresenceLinkOrigin.json, decodeName, PresenceLinkOrigin.named, first,
          second]
    | reroute name side =>
      by_cases first : name = "" <;> cases side <;>
        simp [decodeOrigin, PresenceLinkOrigin.json, decodeName, PresenceLinkOrigin.named, first]
  cases named : link.origin.named <;>
    simp [decodeLink, PresenceLinkDrag.json, origin, decodePoint_json, named]

/-- An identity without the display hints that are too long. -/
def PresenceIdentity.trimmed : PresenceIdentity :=
  { identity with
    displayName := identityString identity.displayName
    owner := identityString identity.owner
    harness := identityString identity.harness }

theorem decodeIdentity_encode (identity : Option PresenceIdentity) :
    decodeIdentity (identity.map encodeIdentity) = identity.map PresenceIdentity.trimmed := by
  have read (value : Option String) :
      identityString (((identityString value).map Json.str).bind decodeText) =
        identityString value := by
    unfold identityString
    cases kept : value.filter fun text => textLength text ≤ presenceMaxIdentityString with
    | none => rfl
    | some text => simpa [decodeText] using (filter_eq_some_iff.mp kept).2
  cases identity with
  | none => rfl
  | some identity =>
    cases kind : identity.kind <;>
      simp [decodeIdentity, encodeIdentity, PresenceIdentity.trimmed, PresenceKind.json, kind, read]

theorem decodeActivity_json :
    decodeActivity (some activity.json) = if activity.valid then some activity else none := by
  have asks := @mapM_map_of _ decodeAsk PendingAsk.json
    (fun ask => textLength ask.id ≤ 128 && textLength ask.prompt ≤ 280) (fun ask => by
      by_cases first : textLength ask.id ≤ 128 <;> by_cases second : textLength ask.prompt ≤ 280 <;>
        simp [decodeAsk, PendingAsk.json, first, second]) activity.pendingAsks
  have status : decodeStatus activity.status.json = some activity.status := by
    cases activity.status <;> rfl
  have read : decodeActivity (some activity.json) =
      if 128 < textLength activity.tool ∨ 8 < activity.pendingAsks.length then none
      else ((activity.pendingAsks.map PendingAsk.json).mapM decodeAsk).bind fun asks =>
        some ⟨activity.tool, activity.status, asks⟩ := by
    simp [decodeActivity, AgentActivity.json, status]
  rw [read, asks, AgentActivity.valid]
  by_cases short : textLength activity.tool ≤ 128
  · by_cases few : activity.pendingAsks.length ≤ 8
    · rw [if_neg (by omega), decide_eq_true short, decide_eq_true few, Bool.true_and, Bool.true_and]
      split <;> rfl
    · simp [few]
  · simp [short]

section

variable {measure : Json → Option Nat}

theorem decodeProposal_json (proposal : SettingsProposal) : decodeProposal measure proposal.json =
      if validProposal measure proposal then some proposal else none := by
  obtain ⟨id, settingId, value, note⟩ := proposal
  cases note <;> simp [decodeProposal, SettingsProposal.json, decodeText]

theorem decodeEach_json {taken : List SettingsProposal} {ids : List String}
    (valid : ∀ proposal ∈ taken, validProposal measure proposal = true)
    (distinct : (taken.map SettingsProposal.id).Nodup)
    (apart : ∀ proposal ∈ taken, proposal.id ∉ ids) :
    decodeEach measure (taken.map SettingsProposal.json) ids = some taken := by
  induction taken generalizing ids with
  | nil => rfl
  | cons proposal rest ih =>
    obtain ⟨new, distinct⟩ := nodup_cons.mp distinct
    have later := @ih (proposal.id :: ids)
      (fun other listed => valid other (mem_cons_of_mem _ listed)) distinct
      (fun other listed => by
        rw [mem_cons, not_or]
        exact ⟨fun same => new (same ▸ mem_map_of_mem listed),
          apart other (mem_cons_of_mem _ listed)⟩)
    simp [decodeEach, decodeProposal_json, valid proposal mem_cons_self,
      apart proposal mem_cons_self, later]

variable (proposals : List SettingsProposal)

/-- What the loop of `encodeProposals` takes can be sent together. -/
theorem takeProposals_spec {ids : List String}
    {taken : List SettingsProposal}
    (valid : ∀ proposal ∈ taken, validProposal measure proposal = true)
    (distinct : (taken.map SettingsProposal.id).Nodup)
    (known : ∀ proposal ∈ taken, proposal.id ∈ ids) (few : taken.length < presenceMaxProposals) :
    (∀ proposal ∈ takeProposals measure proposals ids taken,
        validProposal measure proposal = true) ∧
      ((takeProposals measure proposals ids taken).map SettingsProposal.id).Nodup ∧
      (takeProposals measure proposals ids taken).length ≤ presenceMaxProposals := by
  induction proposals generalizing ids taken with
  | nil => exact ⟨valid, distinct, few.le⟩
  | cons proposal rest ih =>
    rw [takeProposals]
    split
    · exact ih valid distinct known few
    · rename_i fresh
      simp only [Bool.or_eq_true, Bool.not_eq_true', contains_eq_mem, decide_eq_true_eq,
        not_or, Bool.not_eq_false] at fresh
      have all : ∀ other ∈ taken ++ [proposal], validProposal measure other = true :=
        forall_mem_append.mpr ⟨valid, forall_mem_singleton.mpr fresh.1⟩
      have apart : ((taken ++ [proposal]).map SettingsProposal.id).Nodup := by
        rw [map_append, nodup_append]
        refine ⟨distinct, nodup_singleton _, fun id listed other here => ?_⟩
        obtain ⟨earlier, member, rfl⟩ := List.mem_map.mp listed
        rw [mem_singleton.mp here]
        exact fun same => fresh.2 (same ▸ known earlier member)
      have size : (taken ++ [proposal]).length = taken.length + 1 := length_append
      split
      · exact ⟨all, apart, by omega⟩
      · refine ih all apart (forall_mem_append.mpr ⟨fun other before => ?_, ?_⟩) (by omega)
        · exact mem_cons_of_mem _ (known other before)
        · exact forall_mem_singleton.mpr mem_cons_self

theorem decodeProposals_encode :
    decodeProposals measure (filled (encodeProposals measure proposals)) =
      some ((some (takeProposals measure proposals [] [])).filter
        fun proposals => proposals ≠ []) := by
  obtain ⟨valid, distinct, few⟩ := @takeProposals_spec measure proposals [] [] (by simp)
    nodup_nil (by simp) (by decide)
  rw [encodeProposals, filled]
  by_cases none : takeProposals measure proposals [] [] = []
  · simp [none, decodeProposals, Option.filter_some]
  · have many := length_pos_iff.mpr none
    rw [length_map, if_pos many, decodeProposals, length_map, if_neg (by omega),
      decodeEach_json valid distinct (by simp)]
    simp [none, Option.filter_some]

end

/-! ## The round trip -/

section

variable (measure : Json → Option Nat) (presence : LocalPresence)

def LocalPresence.sentActivity : Option AgentActivity :=
  presence.activity.filter AgentActivity.valid

/-- What the decoder asks of the parts that the encoder passes on as they are. -/
def LocalPresence.Readable : Prop :=
  presence.selection.length ≤ presenceMaxSelection ∧
    (presence.reroutes.getD []).length ≤ presenceMaxSelection ∧
    (presence.view.all fun view => 0 < view.w && 0 < view.h) ∧
    (presence.hover.all fun hover => hover ≠ "") ∧ presence.link.all fun link => link.origin.named

instance : Decidable presence.Readable :=
  inferInstanceAs (Decidable (_ ∧ _ ∧ _ ∧ _ ∧ _))

/-- What a peer should see: lists are cut, empty parts are left out, and so are display hints that
are too long, invalid activities and invalid proposals. -/
def LocalPresence.shown : DecodedPresence where
  activity := presence.sentActivity
  graph := presence.graph
  cursor := presence.cursor
  selection := presence.selection.take presenceMaxSelection
  reroutes := (presence.reroutes.getD []).take presenceMaxSelection
  view := presence.view
  hover := presence.hover
  drag := (presence.drag.map fun drag => drag.take presenceMaxDrag).filter fun drag =>
    drag.table ≠ []
  link := presence.link
  identity := presence.identity.map PresenceIdentity.trimmed
  proposals := (some (takeProposals measure (presence.proposals.getD []) [] [])).filter
    fun proposals => proposals ≠ []

/-- What a peer reads: an activity comes only with the identity of an agent. -/
def LocalPresence.received : DecodedPresence :=
  { presence.shown measure with
    activity := if presence.identity.map PresenceIdentity.kind = some .agent then
      presence.sentActivity else none }

variable {measure presence} (named : presence.graph ≠ "")

include named

theorem decodeParts_encode : decodeParts measure (given (presenceFields measure presence)) =
      if presence.Readable then some (presence.received measure) else none := by
  have cursor : decodeNullable decodePoint
      (some ((presence.cursor.map PresencePoint.json).getD .null)) = some presence.cursor := by
    cases presence.cursor <;> rfl
  have view := decodeNullable_map decodeRect_json (fun _ => Json.noConfusion) presence.view
  have hover := @decodeNullable_map _ decodeName Json.str (fun text => text ≠ "") (fun text => by
    by_cases empty : text = "" <;> simp [decodeName, empty]) (fun _ => Json.noConfusion)
    presence.hover
  have link := decodeNullable_map decodeLink_json (fun _ => Json.noConfusion) presence.link
  have drag : decodeNullable decodeDrag (presence.drag.bind fun drag =>
      filled ((drag.table.take presenceMaxDrag).map dragEntryJson)) =
      some (presence.shown measure).drag := by
    unfold LocalPresence.shown
    cases presence.drag with
    | none => rfl
    | some drag =>
      rw [bind_some, filled, length_map, map_some, filter_some]
      by_cases none : drag.table.take presenceMaxDrag = []
      · simp [none, Dict.take, decodeNullable]
      · have read := decodeDrag_json (drag.take presenceMaxDrag) (length_take_le _ _)
        rw [if_pos (length_pos_iff.mpr none), decodeNullable, show drag.table.take presenceMaxDrag =
          (drag.take presenceMaxDrag).table from rfl, read]
        · simp [Dict.take, none]
        · exact Json.noConfusion
  have reroutes : decodeReroutes (presence.reroutes.bind fun ids => filled (ids.map .str)) =
      if (presence.reroutes.getD []).length ≤ presenceMaxSelection then
        some (presence.reroutes.getD [])
      else none := by
    cases presence.reroutes with
    | none => rfl
    | some ids =>
      rw [bind_some, filled, length_map, getD_some]
      cases ids with
      | nil => rfl
      | cons id rest => exact decodeIds_str (id :: rest)
  have activity : decodeActivity ((decodeActivity (presence.activity.map AgentActivity.json)).map
      AgentActivity.json) = presence.sentActivity := by
    unfold LocalPresence.sentActivity
    cases presence.activity with
    | none => rfl
    | some activity =>
      rw [map_some, decodeActivity_json, filter_some]
      split
      · rename_i valid
        rw [map_some, decodeActivity_json, if_pos valid]
      · rfl
  have kind : (presence.identity.map PresenceIdentity.trimmed).map PresenceIdentity.kind =
      presence.identity.map PresenceIdentity.kind := by
    cases presence.identity <;> rfl
  have guard {A B : Type} (test : Prop) [Decidable test] (part : A) (next : A → Option B) :
      (if test then some part else none).bind next = if test then next part else none := by
    split <;> rfl
  simp only [decodeParts, presenceFields, getField_given_cons, getField_given_nil, String.reduceEq,
    if_true, if_false, some_or, or_none, bind_some, decodeName, named, cursor, decodeIds_str, view,
    hover, drag, link, reroutes, decodeIdentity_encode, activity, kind, decodeProposals_encode,
    Option.bind_eq_bind, Option.pure_def, guard]
  by_cases readable : presence.Readable
  · obtain ⟨few, also, wide, hovered, linked⟩ := id readable
    rw [if_pos readable, if_pos few, if_pos also, if_pos wide, if_pos hovered, if_pos linked]
    simp only [LocalPresence.received, LocalPresence.shown, take_of_length_le few,
      take_of_length_le also]
  · rw [if_neg readable]
    by_cases few : presence.selection.length ≤ presenceMaxSelection
    · by_cases also : (presence.reroutes.getD []).length ≤ presenceMaxSelection
      · by_cases wide : presence.view.all fun view => 0 < view.w && 0 < view.h
        · by_cases hovered : presence.hover.all fun hover => hover ≠ ""
          · have unlinked : ¬ presence.link.all fun link => link.origin.named :=
              fun linked => readable ⟨few, also, wide, hovered, linked⟩
            rw [if_neg unlinked, ite_self, ite_self, ite_self, ite_self]
          · rw [if_neg hovered, ite_self, ite_self, ite_self]
        · rw [if_neg wide, ite_self, ite_self]
      · rw [if_neg also, ite_self]
    · rw [if_neg few]

theorem decodePresence_encode : decodePresence measure (some (encodePresence measure presence)) =
      if presence.Readable then .present (presence.received measure) else .noise := by
  have version : getField (given (presenceFields measure presence)) "v" =
      some (.num presenceVersion) := rfl
  have stays : getField (given (presenceFields measure presence)) "gone" = none := by
    simp [presenceFields]
  rw [encodePresence, decodePresence, if_pos version, stays, if_neg (by simp),
    decodeParts_encode named]
  by_cases readable : presence.Readable <;> simp only [readable, if_true, if_false]

omit named

variable (count : Nat)

def selecting : LocalPresence :=
  ⟨none, "root", none, replicate count "n1", none, none, none, none, none, none, none⟩

theorem selecting_named : (selecting count).graph ≠ "" := by
  simp [selecting]

theorem length_selecting : (selecting count).selection.length = count :=
  length_replicate

end

end Dinkster.Collab
