import Dinkster.Boundary.Selection
import Dinkster.Commands.Reroute
import Dinkster.Library.Closure

/-!
# Selecting the slots of a boundary item

`boundary.setSlots` stores a selection without reading it into a tree.  It sorts the entries and
compares neighbours, which misses an extension where another entry sorts before the dot.
-/

namespace Dinkster.Boundary

open Library Format Commands List

def isValidEntry : Json → Bool
  | .str path => isSlotPath path
  | _ => false

def canonicalize (entries : List String) : List String :=
  sortTexts entries.eraseDups

/-- `findPrefixConflict`: the first entry that its neighbour extends. -/
def findPrefixConflict : List String → Option (String × String)
  | path :: next :: rest =>
    if Extends path next then some (path, next) else findPrefixConflict (next :: rest)
  | _ => none

def sameSelection (stored : Option Json) (slots : List String) : Bool :=
  match stored with
  | some (.arr items) => identicalItems items (slots.map .str)
  | _ => false

/-- `findItem`: a boundary item by its id, and where it stands. -/
def findItem (definition : Json) (side itemId : String) : Option (Nat × Json) :=
  match getAtPath definition [.key "boundary", .key side] with
  | some (.arr items) =>
    (items.zipIdx.find? fun (item, _) => match ownChild item (.key "id") with
      | some (.str id) => id = itemId
      | _ => false).map fun (item, index) => (index, item)
  | _ => none

/-- What `boundary.setSlots` does with a selection of valid entries for a boundary item. -/
def storeSlots (graphId side : String) (index : Nat) (item : Json) (entries : List String) :
    CommandRun :=
  let slots := canonicalize entries
  match findPrefixConflict slots with
  | some (path, extension) =>
    ⟨[], .ok [commandError "boundary.slotConflict"
      s!"boundary.setSlots: '{path}' selects a whole subtree but '{extension}' narrows beneath it; list one or the other"]⟩
  | none =>
    if sameSelection (getAtPath item [.key "binds", .key "slots"]) slots then ⟨[], .ok []⟩
    else
      ⟨[.set [.key "graphs", .key graphId, .key "boundary", .key side, .index index,
        .key "binds", .key "slots"] (.arr (slots.map .str))], .ok []⟩

/-- `boundary.setSlots {graphId, side, itemId, slots}`. -/
def boundarySetSlots (Authority : Type) : CommandDefinition Authority where
  prepareForSharedReplay := none
  transformForRebase := none
  validateDispatch := none
  run := fun doc params _ _ =>
    match ownChild params (.key "itemId"), ownChild params (.key "side"),
        ownChild params (.key "slots") with
    | some (.str itemId), some (.str side), some (.arr slots) =>
      if side ∉ ["inputs", "outputs"] then
        ⟨[], .ok [commandError "params.invalid"
          "boundary.setSlots: params must be \x7bgraphId, side: 'inputs'|'outputs', itemId, slots: string[]\x7d"]⟩
      else
      match graphOf doc (ownChild params (.key "graphId")) with
      | none =>
        let graphId := ((ownChild params (.key "graphId")).map stringText).getD "undefined"
        ⟨[], .ok [commandError "graph.missing"
          s!"boundary.setSlots: unknown graph '{graphId}'"]⟩
      | some (graphId, definition) =>
        if slots = [] then
          ⟨[], .ok [commandError "params.invalid"
            "boundary.setSlots: slots must be nonempty; use boundary.clearSlots to restore whole-template exposure"]⟩
        else
        match slots.find? fun slot => !isValidEntry slot with
        | some slot =>
          let invalid := stringText slot
          ⟨[], .ok [commandError "params.invalid"
            s!"boundary.setSlots: '{invalid}' is not a valid slot path (nonempty dotted segments)"]⟩
        | none =>
          let kind := if side = "inputs" then "input" else "output"
          match findItem definition side itemId with
          | none =>
            ⟨[], .ok [commandError "boundary.itemMissing"
              s!"boundary.setSlots: no boundary {kind} '{itemId}' in graph '{graphId}'"]⟩
          | some (index, item) =>
            match getAtPath item [.key "binds", .key "kind"] with
            | some (.str "family") =>
              storeSlots graphId side index item
                (slots.filterMap fun slot => match slot with
                  | .str path => some path
                  | _ => none)
            | other =>
              let binds := (other.map stringText).getD "undefined"
              ⟨[], .ok [commandError "boundary.bindKind"
                s!"boundary.setSlots: boundary {kind} '{itemId}' binds a '{binds}'; slot selection applies to family forwarding only"]⟩
    | _, _, _ =>
      ⟨[], .ok [commandError "params.invalid"
        "boundary.setSlots: params must be \x7bgraphId, side: 'inputs'|'outputs', itemId, slots: string[]\x7d"]⟩

/-- A path that sorts after another and before every extension of it. -/
def Between (path middle : String) : Prop :=
  textUnits path < textUnits middle ∧ textUnits middle < textUnits (path ++ ".")

theorem findPrefixConflict_eq_none_iff {paths : List String} :
    findPrefixConflict paths = none ↔ paths.IsChain fun path next => ¬ Extends path next := by
  induction paths with
  | nil => exact ⟨fun _ => .nil, fun _ => rfl⟩
  | cons path rest ih =>
    cases rest with
    | nil => exact ⟨fun _ => .singleton path, fun _ => rfl⟩
    | cons next rest =>
      unfold findPrefixConflict
      rw [isChain_cons_cons]
      by_cases extended : Extends path next
      · rw [if_pos extended]
        exact ⟨nofun, fun chain => absurd extended chain.1⟩
      · rw [if_neg extended, ih]
        exact (and_iff_right extended).symm

theorem mem_canonicalize {entries : List String} {path : String} :
    path ∈ canonicalize entries ↔ path ∈ entries :=
  (sortTexts_perm _).mem_iff.trans mem_eraseDups

theorem extends_iff_units {path other : String} :
    Extends path other ↔ textUnits path ++ [46] <+: textUnits other := by
  have units : textUnits path ++ [46] = (path ++ ".").toList.flatMap charUnits :=
    (textUnits_append path ".").symm
  rw [units]
  exact flatMap_charUnits_prefix.symm

/-- The neighbours show an extension where nothing listed sorts between a path that is extended
and its extensions. -/
theorem findPrefixConflict_canonicalize_iff {entries : List String} :
    findPrefixConflict (canonicalize entries) ≠ none ↔
      ∃ path ∈ entries, (∃ other ∈ entries, Extends path other) ∧
        ∀ middle ∈ entries, ¬ Between path middle := by
  have sorted := sortTexts_pairwise (nodup_eraseDups entries)
  have chain := @not_isChain_iff (List Nat) _ (fun path other => path ++ [46] <+: other)
    (fun path => path ++ [46]) (fun path => lt_append_cons path 46 [])
    (fun _ _ extended => le_of_prefix extended)
    (fun _ _ _ extended low high => prefix_of_between extended low high) _ sorted
  rw [isChain_map] at chain
  simp only [← extends_iff_units] at chain
  rw [Ne, findPrefixConflict_eq_none_iff]
  refine chain.trans ?_
  simp only [mem_map, exists_exists_and_eq_and, forall_exists_index, and_imp,
    forall_apply_eq_imp_iff₂, ← extends_iff_units]
  have units : ∀ path, textUnits path ++ [46] = textUnits (path ++ ".") := fun path =>
    (textUnits_append path ".").symm
  simp only [units]
  have listed : ∀ path, path ∈ sortTexts entries.eraseDups ↔ path ∈ entries := fun _ =>
    mem_canonicalize
  simp only [listed]
  exact Iff.rfl

/-- A request to select the slots of a boundary item that forwards a family. -/
structure Requests (doc params : Json) (entries : List String) (graphId side : String)
    (index : Nat) (item : Json) : Prop where
  known : side ∈ ["inputs", "outputs"]
  sided : ownChild params (.key "side") = some (.str side)
  selects : ownChild params (.key "slots") = some (.arr (entries.map .str))
  found : ∃ definition itemId, graphOf doc (ownChild params (.key "graphId")) =
      some (graphId, definition) ∧
    ownChild params (.key "itemId") = some (.str itemId) ∧
    findItem definition side itemId = some (index, item)
  family : getAtPath item [.key "binds", .key "kind"] = some (.str "family")

section Gates

variable {Authority : Type} {doc params item : Json} {entries : List String}
  {graphId side : String} {index : Nat}

theorem Requests.run (requests : Requests doc params entries graphId side index item)
    (valid : ∀ path ∈ entries, isSlotPath path = true) (actor : Option String)
    (context : CommandExecutionContext Authority) :
    (boundarySetSlots Authority).run doc params actor context =
      if entries = [] then
        ⟨[], .ok [commandError "params.invalid"
          "boundary.setSlots: slots must be nonempty; use boundary.clearSlots to restore whole-template exposure"]⟩
      else storeSlots graphId side index item entries := by
  obtain ⟨known, sided, selects, ⟨definition, itemId, graph, named, found⟩, family⟩ := requests
  have texts : (entries.map Json.str).find? (fun slot => !isValidEntry slot) = none := by
    refine List.find?_eq_none.mpr fun slot listed => ?_
    obtain ⟨path, there, rfl⟩ := mem_map.mp listed
    simp [isValidEntry, valid path there]
  have paths : (entries.map Json.str).filterMap (fun slot => match slot with
      | .str path => some path
      | _ => none) = entries := by
    rw [filterMap_map]
    exact filterMap_some
  unfold boundarySetSlots
  simp only [sided, selects, named, graph, found, family, texts, paths, known, not_true_eq_false,
    if_false, map_eq_nil_iff]

theorem Requests.accepted_iff (requests : Requests doc params entries graphId side index item)
    (valid : ∀ path ∈ entries, isSlotPath path = true) (actor : Option String)
    (context : CommandExecutionContext Authority) :
    ((boundarySetSlots Authority).run doc params actor context).result = .ok [] ↔
      entries ≠ [] ∧ findPrefixConflict (canonicalize entries) = none := by
  rw [requests.run valid]
  by_cases empty : entries = []
  · rw [if_pos empty]
    exact ⟨nofun, fun both => absurd empty both.1⟩
  · rw [if_neg empty, and_iff_right empty]
    unfold storeSlots
    dsimp only
    split
    · rename_i conflict
      rw [conflict]
      exact ⟨nofun, nofun⟩
    · rename_i none
      rw [none]
      refine ⟨fun _ => rfl, fun _ => ?_⟩
      split <;> rfl

/-- The order and the repetitions of entries do not matter to `parseSelection`. -/
theorem parseSelection_canonicalize_iff :
    (∃ tree, parseSelection (canonicalize entries) = .ok tree) ↔
      ∃ tree, parseSelection entries = .ok tree := by
  rw [parseSelection_isOk_iff, parseSelection_isOk_iff]
  simp only [mem_canonicalize]

theorem Requests.stored (requests : Requests doc params entries graphId side index item)
    (valid : ∀ path ∈ entries, isSlotPath path = true) {actor : Option String}
    {context : CommandExecutionContext Authority} {path : DocPath} {slots : List String}
    (stored : .set path (.arr (slots.map .str)) ∈
      ((boundarySetSlots Authority).run doc params actor context).calls) :
    slots = canonicalize entries ∧
      ((boundarySetSlots Authority).run doc params actor context).result = .ok [] := by
  rw [requests.run valid] at stored ⊢
  by_cases empty : entries = []
  · rw [if_pos empty] at stored
    cases stored
  · rw [if_neg empty] at stored ⊢
    unfold storeSlots at stored ⊢
    dsimp only at stored ⊢
    split at stored
    · cases stored
    · split at stored
      · cases stored
      · rename_i different
        simp only [if_neg different, and_true]
        simp only [mem_singleton, TxCall.set.injEq, Json.arr.injEq] at stored
        exact map_injective_iff.mpr (fun _ _ same => Json.str.inj same) stored.2

/-- The gates agree, and what is stored is read, exactly where there is an entry, and no entry
extends another or some entry that is extended has no entry between it and its extensions. -/
theorem setSlots_agrees_iff (requests : Requests doc params entries graphId side index item)
    (valid : ∀ path ∈ entries, isSlotPath path = true) (actor : Option String)
    (context : CommandExecutionContext Authority) :
    ((((boundarySetSlots Authority).run doc params actor context).result = .ok [] ↔
        ∃ tree, parseSelection entries = .ok tree) ∧ ((∃ tree, parseSelection entries = .ok tree) ↔
        ∀ path ∈ entries, ∀ other ∈ entries, ¬ Extends path other) ∧
      ∀ path slots, .set path (.arr (slots.map .str)) ∈
          ((boundarySetSlots Authority).run doc params actor context).calls →
        ∃ tree, parseSelection slots = .ok tree) ↔ entries ≠ [] ∧
      ((∀ path ∈ entries, ∀ other ∈ entries, ¬ Extends path other) ∨
        ∃ path ∈ entries, (∃ other ∈ entries, Extends path other) ∧
          ∀ middle ∈ entries, ¬ Between path middle) := by
  have accepted := requests.accepted_iff valid actor context
  have parsed := @parseSelection_isOk_iff entries
  have neighbours := @findPrefixConflict_canonicalize_iff entries
  constructor
  · rintro ⟨agrees, _, _⟩
    have nonempty : entries ≠ [] := by
      rintro rfl
      exact (accepted.mp (agrees.mpr ⟨[], rfl⟩)).1 rfl
    refine ⟨nonempty, or_iff_not_imp_left.mpr fun extended => ?_⟩
    exact neighbours.mp fun none =>
      extended (parsed.mp (agrees.mp (accepted.mpr ⟨nonempty, none⟩)))
  · rintro ⟨nonempty, apart⟩
    have agrees : ((boundarySetSlots Authority).run doc params actor context).result = .ok [] ↔
        ∃ tree, parseSelection entries = .ok tree := by
      rw [accepted, and_iff_right nonempty, parsed]
      cases apart with
      | inl apart =>
        refine ⟨fun _ => apart, fun _ => by_contra fun conflict => ?_⟩
        obtain ⟨path, here, ⟨other, there, extended⟩, _⟩ := neighbours.mp conflict
        exact apart path here other there extended
      | inr conflict =>
        refine ⟨fun none => absurd none (neighbours.mpr conflict), fun apart => ?_⟩
        obtain ⟨path, here, ⟨other, there, extended⟩, _⟩ := conflict
        exact absurd extended (apart path here other there)
    refine ⟨agrees, parsed, fun path slots stored => ?_⟩
    obtain ⟨same, result⟩ := requests.stored valid stored
    rw [same]
    exact parseSelection_canonicalize_iff.mpr (agrees.mp result)

end Gates

/-- A document whose graph forwards a family at its boundary. -/
def familyDocument : Json :=
  .obj [("graphs", .obj [("main", .obj [("boundary", .obj [("inputs", .arr
    [.obj [("id", .str "b1"), ("binds", .obj [("kind", .str "family")])]])])])])]

/-- The parameters that select slots of its boundary item. -/
def slotParams (entries : List String) : Json :=
  .obj [("graphId", .str "main"), ("side", .str "inputs"), ("itemId", .str "b1"),
    ("slots", .arr (entries.map .str))]

theorem requests_slotParams (entries : List String) :
    ∃ item, Requests familyDocument (slotParams entries) entries "main" "inputs" 0 item :=
  ⟨_, by simp, rfl, rfl, ⟨_, _, rfl, rfl, rfl⟩, rfl⟩

theorem setSlots_agrees_siblings :
    ((boundarySetSlots Unit).run familyDocument (slotParams ["a.b", "a.c"]) none
        .sharedReplay).result = .ok [] ↔ ∃ tree, parseSelection ["a.b", "a.c"] = .ok tree := by
  obtain ⟨item, requests⟩ := requests_slotParams ["a.b", "a.c"]
  exact ((setSlots_agrees_iff requests (by decide) none .sharedReplay).mpr
    ⟨by decide, .inl (by decide)⟩).1

/-- The hyphen sorts before the dot, so it parts a path and its extension: the command stores a
selection that cannot be read. -/
theorem setSlots_stores_unreadable :
    (∃ path, ((boundarySetSlots Unit).run familyDocument (slotParams ["a", "a-b", "a.b"]) none
        .sharedReplay) = ⟨[.set path (.arr [.str "a", .str "a-b", .str "a.b"])], .ok []⟩) ∧
      ¬ ∃ tree, parseSelection ["a", "a-b", "a.b"] = .ok tree := by
  refine ⟨⟨_, rfl⟩, fun parsed => ?_⟩
  exact parseSelection_isOk_iff.mp parsed "a" (by decide) "a.b" (by decide) (by decide)

end Dinkster.Boundary
