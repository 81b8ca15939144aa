import Dinkster.Commands.Wire

/-!
# Image documents

An image document is loaded through one gate: it is owned, migrated to the current version,
owned again, and checked.  Every document that a session holds came through this gate, and
what it lets through it lets through again unchanged.  A command is planned as a patch, a
history replay checks each operation against the document before it applies it.
-/

namespace Dinkster.Image

open Library Format Commands Option

/-- The validators of an image document: whether `validateImageDocumentShape` reports no
error at a version, whether `checkImageDocument` reports none, and the size of the canonical
encoding. -/
structure Validators where
  shape : Json → Nat → Bool
  invariants : Json → Bool
  encodedBytes : Json → Nat

def maxImageDocumentBytes : Nat := 16 * 1024 * 1024

/-- The budgets of an image document. -/
def imageLimits : JsonLimits where
  maxDepth := 64
  maxNodes := 1000000
  maxChars := maxImageDocumentBytes

def imageDocumentFormatVersion : Nat := 2

/-- `migrateImageDocumentJson`: one step is registered, and it keeps the document.  Any other
version is newer, or no positive safe integer. -/
def migrateImageDocumentJson (raw : List (String × Json)) : Option (List (String × Json)) :=
  match getField raw "formatVersion" with
  | some (.num version) =>
    if version = imageDocumentFormatVersion then some raw
    else if version = 1 then
      some (setField raw "formatVersion" (.num imageDocumentFormatVersion))
    else none
  | _ => none

/-- The checks of a migrated document, which is owned first. -/
def admitImageDocument (validators : Validators) (document : Json) : Option Json :=
  match ownJsonWithin imageLimits document with
  | .error _ => none
  | .ok owned =>
    if maxImageDocumentBytes < validators.encodedBytes owned then none
    else if !validators.shape owned imageDocumentFormatVersion then none
    else if !validators.invariants owned then none
    else some owned

/-- `loadImageDocument`, as far as a document is returned. -/
def loadImageDocument (validators : Validators) (input : Json) : Option Json :=
  match ownJsonWithin imageLimits input with
  | .ok (.obj raw) =>
    if getField raw "format" ≠ some (.str "dinkster-image") then none
    else if getField raw "formatVersion" = some (.num 1) &&
        !validators.shape (.obj raw) 1 then none
    else (migrateImageDocumentJson raw).bind fun document =>
      admitImageDocument validators (.obj document)
  | _ => none

section Loading

variable {validators : Validators}

theorem ownJsonWithin_plain {limits : JsonLimits} {json owned : Json}
    (accepted : ownJsonWithin limits json = .ok owned) : owned.Plain := by
  unfold ownJsonWithin at accepted
  simp only [bind_eq_ok, pure_eq_ok] at accepted
  obtain ⟨⟨copy, after⟩, visited, same⟩ := accepted
  rw [← same]
  exact (visit_clean json "$" 0 ⟨0, 0⟩ copy after visited).1

theorem migrate_spec {raw document : List (String × Json)}
    (migrated : migrateImageDocumentJson raw = some document) :
    getField document "formatVersion" = some (.num imageDocumentFormatVersion) ∧
      getField document "format" = getField raw "format" ∧
      ((Json.obj raw).Plain → (Json.obj document).Plain) := by
  unfold migrateImageDocumentJson at migrated
  split at migrated
  · rename_i version found
    split at migrated
    · rename_i current
      rw [← some.inj migrated, found, current]
      exact ⟨rfl, rfl, id⟩
    · split at migrated
      · rw [← some.inj migrated, getField_setField, if_pos rfl, getField_setField,
          if_neg (by decide)]
        exact ⟨rfl, rfl, fun plain => plain_setField _ plain (by simp [Json.Plain])⟩
      · simp at migrated
  · simp at migrated

theorem admitImageDocument_spec {document admitted : Json} (plain : document.Plain)
    (accepted : admitImageDocument validators document = some admitted) :
    admitted = document ∧ ownJsonWithin imageLimits document = .ok document := by
  unfold admitImageDocument at accepted
  split at accepted
  · simp at accepted
  · rename_i owned within
    have same := ((ownJsonWithin_eq_ok_iff plain).mp within).2
    rw [← same] at within accepted
    refine ⟨?_, within⟩
    split at accepted
    · simp at accepted
    · split at accepted
      · simp at accepted
      · split at accepted
        · simp at accepted
        · exact (some.inj accepted).symm

/-- What the gate let through it lets through again, as it is. -/
theorem loadImageDocument_loaded {input document : Json}
    (loaded : loadImageDocument validators input = some document) :
    loadImageDocument validators document = some document := by
  unfold loadImageDocument at loaded
  split at loaded
  · rename_i raw within
    have plain := ownJsonWithin_plain within
    split at loaded
    · simp at loaded
    · rename_i format
      split at loaded
      · simp at loaded
      · obtain ⟨migrated, migrates, admits⟩ := bind_eq_some_iff.mp loaded
        have spec := migrate_spec migrates
        have admitted := admitImageDocument_spec (spec.2.2 plain) admits
        rw [admitted.1] at admits ⊢
        have newer : ¬ some (Json.num imageDocumentFormatVersion) = some (Json.num 1) := by
          decide
        unfold loadImageDocument
        rw [admitted.2]
        dsimp only
        rw [spec.2.1, if_neg format, spec.1, decide_eq_false newer, Bool.false_and,
          if_neg Bool.false_ne_true]
        unfold migrateImageDocumentJson
        rw [spec.1]
        dsimp only
        rw [if_pos rfl]
        exact admits
  · simp at loaded

end Loading

/-- Operations as the program holds them: every value in them lists each property once. -/
abbrev OwnedOps := { ops : List PatchOp // ∀ op ∈ ops, op.Plain }

/-- A wire patch of such operations. -/
abbrev OwnedPatch := { patch : List WirePatchOp // ∀ op ∈ patch, op.Plain }

namespace OwnedOps

/-- Some of the operations. -/
def filter (ops : OwnedOps) (kept : PatchOp → Bool) : OwnedOps where
  val := ops.val.filter kept
  property := fun op listed => ops.property op (List.mem_of_mem_filter listed)

/-- `invertOps`. -/
def invert (ops : OwnedOps) : OwnedOps where
  val := invertOps ops.val
  property := by
    intro op listed
    unfold invertOps at listed
    obtain ⟨before, known, same⟩ := List.mem_map.mp (List.mem_reverse.mp listed)
    have plain := ops.property before known
    rw [← same]
    cases before with
    | add path value | remove path oldValue => exact plain
    | replace path value oldValue => exact ⟨plain.2, plain.1⟩

/-- `toWirePatch`. -/
def wire (ops : OwnedOps) : OwnedPatch where
  val := toWirePatch ops.val
  property := by
    intro op listed
    obtain ⟨before, known, same⟩ := List.mem_map.mp listed
    have plain := ops.property before known
    rw [← same]
    cases before with
    | add path value => exact plain
    | remove path oldValue => exact trivial
    | replace path value oldValue => exact ⟨plain.1, trivial⟩

end OwnedOps

theorem decoded_toWireOp_path (op : PatchOp) : (toWireOp op).decoded.path = op.path := by
  cases op <;> rfl

theorem toOption_copy_congr {left right : Except PatchError Json} (wrap : Json → Json)
    (same : left.toOption = right.toOption) :
    (do return wrap (← left) : Except PatchError Json).toOption =
      (do return wrap (← right) : Except PatchError Json).toOption := by
  cases left <;> cases right <;> simp_all [Except.toOption, bind, Except.bind, pure, Except.pure]

/-- What an operation makes of a node does not depend on what it displaces. -/
theorem applyAt_decoded (op : PatchOp) : ∀ (path : DocPath) (node : Json),
    (applyAt (toWireOp op).decoded node path).toOption = (applyAt op node path).toOption
  | [], node => by
    unfold applyAt
    cases op <;> rfl
  | segment :: rest, node => by
    have ih := applyAt_decoded op rest
    cases node with
    | arr items =>
      cases segment with
      | key name => rfl
      | index position =>
        unfold applyAt
        cases slot? position with
        | none => rfl
        | some slot =>
          dsimp only
          split
          · cases op with
            | add path value => rfl
            | remove path oldValue | replace path value oldValue =>
              unfold toWireOp WirePatchOp.decoded applyItem
              dsimp only
              split <;> rfl
          · cases items[slot]? with
            | none => rfl
            | some child => exact toOption_copy_congr _ (ih child)
    | obj fields =>
      cases segment with
      | index position => rfl
      | key name =>
        unfold applyAt
        split
        · rfl
        · split
          · cases op with
            | add path value => rfl
            | remove path oldValue | replace path value oldValue =>
              unfold toWireOp WirePatchOp.decoded applyField
              dsimp only
              split <;> rfl
          · cases getField fields name with
            | none => rfl
            | some child => exact toOption_copy_congr _ (ih child)
    | null | bool _ | num _ | str _ => cases segment <;> rfl

theorem applyOwnedOps_decoded : ∀ (ops : List PatchOp) (root : Json),
    (applyOwnedOps root ((toWirePatch ops).map WirePatchOp.decoded)).toOption =
      (applyOwnedOps root ops).toOption
  | [], _ => rfl
  | op :: rest, root => by
    have first := applyAt_decoded op op.path root
    have ih := applyOwnedOps_decoded rest
    change (applyOwnedOps root ((toWireOp op).decoded ::
      (toWirePatch rest).map WirePatchOp.decoded)).toOption = _
    unfold applyOwnedOps applyOp
    rw [decoded_toWireOp_path]
    cases left : applyAt (toWireOp op).decoded root op.path with
    | error reason =>
      cases right : applyAt op root op.path with
      | error other => rfl
      | ok next =>
        rw [left, right] at first
        exact absurd first (by simp [Except.toOption])
    | ok next =>
      cases right : applyAt op root op.path with
      | error other =>
        rw [left, right] at first
        exact absurd first (by simp [Except.toOption])
      | ok other =>
        rw [left, right] at first
        have same : next = other := some.inj first
        rw [same]
        exact ih other

/-- What a session is built on: the validators of documents, `decodeInvocation`, and
`commandPatches`, which refuses a command whose target or position is unavailable. -/
structure ImageEnvironment where
  validators : Validators
  decodeInvocation : Json → Option Json
  commandPatches : Json → Json → Option OwnedOps

structure ImageDocumentCommandPlan where
  invocation : Json
  document : Json
  forward : OwnedOps
  redo : OwnedOps
  inverse : OwnedOps

section Planning

variable (env : ImageEnvironment)

/-- `loadedDocument`, which throws where there is none. -/
def ImageEnvironment.load (document : Json) : Option Json :=
  loadImageDocument env.validators document

/-- Whether an operation leaves the id counters of a document alone. -/
def outsideAllocation (op : PatchOp) : Bool :=
  op.path.head? ≠ some (.key "allocation")

def planImageDocumentCommand (document value : Json) : Option ImageDocumentCommandPlan :=
  match env.decodeInvocation value with
  | none => none
  | some invocation =>
    match env.commandPatches document invocation with
    | none => none
    | some patches =>
      ((applyOwnedOps document patches.val).toOption.bind env.load).map fun loaded =>
        let redo := patches.filter outsideAllocation
        { invocation, document := loaded, forward := patches, redo, inverse := redo.invert }

/-- Whether an operation of a history record still fits a document. -/
def fitsDocument (current : Json) (op : PatchOp) : Bool :=
  match op with
  | .add path _ => (getAtPath current path).isNone
  | .remove path oldValue | .replace path _ oldValue =>
    (getAtPath current path).any fun value => jsonSameValue value oldValue

/-- The loop of `replayImageHistory`, which a stale operation ends. -/
def replayOps : Json → List PatchOp → Option Json
  | current, [] => some current
  | current, op :: rest =>
    if fitsDocument current op then
      (applyOp current op).toOption.bind fun next => replayOps next rest
    else none

def replayImageHistory (document : Json) (operations : OwnedOps) : Option Json :=
  (replayOps document operations.val).bind env.load

/-- `applyWire`: apply a patch that the server sent. -/
def applyWire (document patch : Json) : Option Json :=
  (applyOps document patch).toOption.bind env.load

def applyPatch (document : Json) (patch : OwnedPatch) : Option Json :=
  (applyOwnedOps document (patch.val.map WirePatchOp.decoded)).toOption.bind env.load

variable {env}

variable {document : Json}

theorem load_loaded {input : Json} (loaded : env.load input = some document) :
    env.load document = some document :=
  loadImageDocument_loaded loaded

theorem applyPatch_of_plan {value : Json} {plan : ImageDocumentCommandPlan}
    (planned : planImageDocumentCommand env document value = some plan) :
    applyPatch env document plan.forward.wire = some plan.document := by
  unfold planImageDocumentCommand at planned
  split at planned
  · simp at planned
  · split at planned
    · simp at planned
    · obtain ⟨loaded, applied, same⟩ := map_eq_some_iff.mp planned
      rw [← same]
      unfold applyPatch OwnedOps.wire
      rw [applyOwnedOps_decoded]
      exact applied

theorem applyOwnedOps_of_replayOps : ∀ {ops : List PatchOp} {current next : Json},
    replayOps current ops = some next → (applyOwnedOps current ops).toOption = some next
  | [], _, _, replayed => replayed
  | op :: rest, current, next, replayed => by
    unfold replayOps at replayed
    split at replayed
    · obtain ⟨middle, first, later⟩ := bind_eq_some_iff.mp replayed
      unfold applyOwnedOps
      rw [toOption_eq_some first]
      exact applyOwnedOps_of_replayOps later
    · simp at replayed

theorem applyPatch_of_replay {next : Json} {operations : OwnedOps}
    (replayed : replayImageHistory env document operations = some next) :
    applyPatch env document operations.wire = some next := by
  obtain ⟨current, walked, loaded⟩ := bind_eq_some_iff.mp replayed
  unfold applyPatch OwnedOps.wire
  rw [applyOwnedOps_decoded, applyOwnedOps_of_replayOps walked]
  exact loaded

theorem load_of_applyWire {patch next : Json} (applied : applyWire env document patch = some next) :
    env.load next = some next := by
  obtain ⟨made, _, loaded⟩ := bind_eq_some_iff.mp applied
  exact load_loaded loaded

end Planning

end Dinkster.Image
