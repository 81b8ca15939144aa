import Dinkster.Collab.Replica
import Dinkster.Image.Plans
import Dinkster.Library.Naming

/-!
# Undo and redo of image commands

The store of an image document keeps, for each command, the edits of the content that redo and
undo it.  A replay keeps the allocation and goes through the loader again.  Every content that
the stacks lead to was checked once, and is checked still, since cursors only move on: a replay
throws only where the document it makes is over the limits of the loader.
-/

namespace Dinkster.Image.Undo

open Library Format List Option
open Collab (HistoryDirection)

structure HistoryRecord where
  forward : List (Edit imageCells)
  inverse : List (Edit imageCells)
  resources : List String

def HistoryRecord.edits (record : HistoryRecord) : HistoryDirection → List (Edit imageCells)
  | .undo => record.inverse
  | .redo => record.forward

/-- `ImageDocumentStore`.  Its stacks have the newest record first; `minted` lists the ids that
commands created, oldest first. -/
structure ImageDocumentStore where
  current : ImageDocument
  undoStack : List HistoryRecord
  redoStack : List HistoryRecord
  maxUndo : Nat
  minted : List String

def resourceDigests (content : ImageContent) : List String :=
  content.resources.entries.map fun (_, resource) => resource.digest

def changedResources (before after : ImageContent) : List String :=
  (resourceDigests before).filter (· ∉ resourceDigests after) ++
    (resourceDigests after).filter (· ∉ resourceDigests before)

namespace ImageDocumentStore

section Methods

variable (platform : Platform)

/-- The constructor, which throws where the document is not valid. -/
def create (initial : ImageDocument) (maxUndo : Nat) : Option ImageDocumentStore :=
  if loads platform initial then
    some { current := initial, undoStack := [], redoStack := [], maxUndo, minted := [] }
  else none

/-- `dispatch`, which is refused where there is no plan. -/
def dispatch (store : ImageDocumentStore) (actor : Option String)
    (command : ImageDocumentCommand) : Option ImageDocumentStore :=
  (planImageDocumentCommand platform store.current actor command).map fun plan =>
    let record : HistoryRecord :=
      ⟨plan.redo, plan.inverse, changedResources store.current.content plan.document.content⟩
    let pushed := record :: store.undoStack
    { store with
      current := plan.document
      undoStack := if store.maxUndo < pushed.length then pushed.dropLast else pushed
      redoStack := []
      minted := store.minted ++ plan.created }

def history (store : ImageDocumentStore) : HistoryDirection → List HistoryRecord
  | .undo => store.undoStack
  | .redo => store.redoStack

def replayed (store : ImageDocumentStore) (edits : List (Edit imageCells)) : Option ImageDocument :=
  (Edit.applyAll edits store.current.content).map fun content => { store.current with content }

/-- A record moves to the other stack. -/
def rewind (store : ImageDocumentStore) (record : HistoryRecord) (document : ImageDocument) :
    HistoryDirection → ImageDocumentStore
  | .undo =>
    { store with
      current := document
      undoStack := store.undoStack.tail
      redoStack := record :: store.redoStack }
  | .redo =>
    { store with
      current := document
      redoStack := store.redoStack.tail
      undoStack := record :: store.undoStack }

/-- `undo` and `redo`: what is returned, and the store; nothing where the replay throws. -/
def replay (store : ImageDocumentStore) (direction : HistoryDirection) :
    Option (Bool × ImageDocumentStore) :=
  match store.history direction with
  | [] => some (false, store)
  | record :: _ =>
    (store.replayed (record.edits direction)).bind fun document =>
      if loads platform document then some (true, store.rewind record document direction)
      else none

def retainedResourceDigests (store : ImageDocumentStore) : List String :=
  resourceDigests store.current.content ++
    (store.undoStack ++ store.redoStack).flatMap (·.resources)

end Methods

/-- What is done to a store. -/
inductive Action where
  | dispatch (actor : Option String) (command : ImageDocumentCommand)
  | replay (direction : HistoryDirection)

/-- A store after an action: one that is refused or throws changes nothing. -/
def step (platform : Platform) (store : ImageDocumentStore) : Action → ImageDocumentStore
  | .dispatch actor command => (store.dispatch platform actor command).getD store
  | .replay direction => ((store.replay platform direction).map Prod.snd).getD store

def run (platform : Platform) (store : ImageDocumentStore) (actions : List Action) :
    ImageDocumentStore :=
  actions.foldl (step platform) store

end ImageDocumentStore

structure Links (before : ImageContent) (record : HistoryRecord) (after : ImageContent) :
    Prop where
  recorded : Edit.Recorded before record.forward after
  inverse : record.inverse = Edit.inverses record.forward
  gained : ∀ digest ∈ resourceDigests after,
    digest ∈ resourceDigests before ∨ digest ∈ record.resources
  lost : ∀ digest ∈ resourceDigests before,
    digest ∈ resourceDigests after ∨ digest ∈ record.resources

def Leads (direction : HistoryDirection) (content : ImageContent) (record : HistoryRecord)
    (other : ImageContent) : Prop :=
  match direction with
  | .undo => Links other record content
  | .redo => Links content record other

def opposite : HistoryDirection → HistoryDirection
  | .undo => .redo
  | .redo => .undo

def Timeline (platform : Platform) (allocation : ImageAllocation) (direction : HistoryDirection) :
    ImageContent → List HistoryRecord → Prop
  | _, [] => True
  | content, record :: rest =>
    ∃ other, Leads direction content record other ∧
      checkImageDocument platform ⟨allocation, other⟩ = true ∧
      Timeline platform allocation direction other rest

section Timelines

variable {platform : Platform} {direction : HistoryDirection}

variable {content other : ImageContent} {record : HistoryRecord} {allocation : ImageAllocation}
    {stack : List HistoryRecord}

theorem Leads.back (leads : Leads direction content record other) :
    Leads (opposite direction) other record content := by
  cases direction <;> exact leads

theorem Leads.applied {content other : ImageContent} {record : HistoryRecord}
    (leads : Leads direction content record other) :
    Edit.applyAll (record.edits direction) content = some other := by
  cases direction with
  | redo => exact (Links.recorded leads).applied
  | undo =>
    have back := (Links.recorded leads).back.applied
    rw [← Links.inverse leads] at back
    exact back

theorem Leads.gained (leads : Leads direction content record other) :
    ∀ digest ∈ resourceDigests other,
      digest ∈ resourceDigests content ∨ digest ∈ record.resources := by
  cases direction with
  | redo => exact Links.gained leads
  | undo => exact Links.lost leads

theorem Timeline.behind {later : ImageAllocation} (behind : Behind allocation later)
    (cursors : checkAllocation later = true) :
    ∀ {content : ImageContent}, Timeline platform allocation direction content stack →
      Timeline platform later direction content stack := by
  induction stack with
  | nil => exact fun _ => trivial
  | cons record rest ih =>
    intro content timeline
    obtain ⟨other, leads, checked, timeline⟩ := timeline
    exact ⟨other, leads, checked_of_behind checked behind cursors, ih timeline⟩

/-- The oldest record of a timeline may be forgotten. -/
theorem Timeline.dropLast :
    ∀ {content : ImageContent}, Timeline platform allocation direction content stack →
      Timeline platform allocation direction content stack.dropLast := by
  induction stack with
  | nil => exact fun _ => trivial
  | cons record rest ih =>
    intro content timeline
    obtain ⟨other, leads, checked, timeline⟩ := timeline
    cases rest with
    | nil => exact trivial
    | cons next rest => exact ⟨other, leads, checked, ih timeline⟩

end Timelines

variable {actor : Option String} {document next : ImageDocument} {created letters : List String}

theorem links_of_plan {platform : Platform} {plan : ImageDocumentCommandPlan}
    (plans : Plans platform document actor plan) : Links document.content
      ⟨plan.redo, plan.inverse, changedResources document.content plan.document.content⟩
      plan.document.content where
  recorded := plans.recorded
  inverse := plans.inverse
  gained := by
    intro digest used
    by_cases before : digest ∈ resourceDigests document.content
    · exact .inl before
    · exact .inr (mem_append_right _ (mem_filter.mpr ⟨used, decide_eq_true before⟩))
  lost := by
    intro digest used
    by_cases after : digest ∈ resourceDigests plan.document.content
    · exact .inl after
    · exact .inr (mem_append_left _ (mem_filter.mpr ⟨used, decide_eq_true after⟩))

/-! ## Minted ids -/

/-- What follows the ordinal of an id. -/
def actorSuffix : Option String → List Char
  | none => []
  | some actor => '-' :: actor.toList

/-- The digits of an id end where its actor begins. -/
theorem takeWhile_digits (ordinal : Nat) (actor : Option String) :
    ((toString ordinal).toList ++ actorSuffix actor).takeWhile Char.isDigit =
      (toString ordinal).toList := by
  rw [takeWhile_append_of_pos isDigit_of_mem_toString]
  cases actor <;> simp [actorSuffix]

theorem toList_idText (letter : String) (ordinal : Nat) (actor : Option String) :
    (idText letter ordinal actor).toList =
      letter.toList ++ ((toString ordinal).toList ++ actorSuffix actor) := by
  cases actor with
  | none | some actor => simp [idText, actorSuffix]

theorem length_of_known {letter : String} (known : letter ∈ ["l", "m", "r"]) :
    letter.toList.length = 1 := by
  simp only [mem_cons, not_mem_nil, or_false] at known
  obtain rfl | rfl | rfl := known <;> rfl

theorem idText_injective {letter other : String} {ordinal next : Nat} {name : Option String}
    (known : letter ∈ ["l", "m", "r"]) (also : other ∈ ["l", "m", "r"])
    (same : idText letter ordinal actor = idText other next name) :
    ordinal = next ∧ actor = name := by
  have texts := congrArg String.toList same
  rw [toList_idText, toList_idText] at texts
  have tails := append_inj_right texts ((length_of_known known).trans (length_of_known also).symm)
  have digits := congrArg (takeWhile Char.isDigit) tails
  rw [takeWhile_digits, takeWhile_digits] at digits
  refine ⟨decimal_injective (String.toList_inj.mp digits), ?_⟩
  rw [digits] at tails
  have suffixes := append_cancel_left tails
  cases actor with
  | none =>
    cases name with
    | none => rfl
    | some name => cases suffixes
  | some actor =>
    cases name with
    | none => cases suffixes
    | some name => exact congrArg some (String.toList_inj.mp (List.cons.inj suffixes).2)

def Minted (allocation : ImageAllocation) (id : String) : Prop :=
  ∃ letter ∈ ["l", "m", "r"], ∃ ordinal actor,
    id = idText letter ordinal actor ∧ ordinal < allocation.cursor actor

theorem behind_of_allocates (allocates : Allocates document next actor created letters) :
    Behind document.allocation next.allocation := by
  intro other
  rw [allocates.cursor]
  exact Nat.le_add_right _ _

variable {id : String}

section

variable (allocates : Allocates document next actor created letters)

include allocates

theorem Allocates.mem (listed : id ∈ created) :
    ∃ letter ∈ ["l", "m", "r"], ∃ index < letters.length,
      id = idText letter (document.allocation.cursor actor + index) actor := by
  rw [allocates.created_eq, allocateIds_fst] at listed
  obtain ⟨⟨letter, index⟩, there, same⟩ := mem_map.mp listed
  exact ⟨letter, allocates.known letter (fst_mem_of_mem_zipIdx there), index,
    by simpa using (mem_zipIdx' there).1, same.symm⟩

theorem Allocates.minted (listed : id ∈ created) : Minted next.allocation id := by
  obtain ⟨letter, known, index, inside, same⟩ := allocates.mem listed
  refine ⟨letter, known, _, actor, same, ?_⟩
  rw [allocates.cursor, if_pos rfl]
  omega

theorem Allocates.fresh : created.Nodup ∧ ∀ id ∈ created, ¬ Minted document.allocation id := by
  constructor
  · rw [allocates.created_eq, allocateIds_fst]
    have distinct : letters.zipIdx.Pairwise fun first second => first.2 ≠ second.2 := by
      rw [← pairwise_map, zipIdx_map_snd]
      exact nodup_range'
    refine pairwise_map.mpr (distinct.imp_of_mem ?_)
    intro first second here there different same
    have read := (idText_injective (allocates.known _ (fst_mem_of_mem_zipIdx here))
      (allocates.known _ (fst_mem_of_mem_zipIdx there)) same).1
    exact different (Nat.add_left_cancel read)
  · intro id listed ⟨other, also, ordinal, name, text, below⟩
    obtain ⟨letter, known, index, _, same⟩ := allocates.mem listed
    obtain ⟨ordinals, actors⟩ := idText_injective known also (same.symm.trans text)
    rw [← ordinals, ← actors] at below
    omega

end

theorem Minted.later {allocation later : ImageAllocation} (behind : Behind allocation later)
    (minted : Minted allocation id) : Minted later id := by
  obtain ⟨letter, known, ordinal, actor, same, below⟩ := minted
  exact ⟨letter, known, ordinal, actor, same, below.trans_le (behind actor)⟩

/-! ## Every run -/

/-- What holds of a store in every run. -/
structure Consistent (platform : Platform) (store : ImageDocumentStore) : Prop where
  checked : checkImageDocument platform store.current = true
  timeline : ∀ direction,
    Timeline platform store.current.allocation direction store.current.content
      (store.history direction)
  minted : ∀ id ∈ store.minted, Minted store.current.allocation id
  distinct : store.minted.Nodup
  bounded : store.undoStack.length + store.redoStack.length ≤ store.maxUndo

namespace Consistent

variable {platform : Platform} {store : ImageDocumentStore}

theorem create {initial : ImageDocument} {maxUndo : Nat}
    (created : ImageDocumentStore.create platform initial maxUndo = some store) :
    Consistent platform store := by
  obtain ⟨loaded, same⟩ := ite_none_right_eq_some.mp created
  cases same
  refine ⟨(Bool.and_eq_true_iff.mp loaded).2, fun direction => ?_,
    fun _ listed => absurd listed not_mem_nil, nodup_nil, Nat.zero_le _⟩
  cases direction <;> exact trivial

variable {next : ImageDocumentStore}

variable {actor : Option String} {command : ImageDocumentCommand} {direction : HistoryDirection}

/-- Where a dispatch leads, and that the record it pushes leads back. -/
theorem dispatch (consistent : Consistent platform store)
    (dispatched : store.dispatch platform actor command = some next) :
    Consistent platform next ∧ loads platform next.current = true ∧ next.redoStack = [] ∧
      next.maxUndo = store.maxUndo ∧
      ∃ record, Links store.current.content record next.current.content ∧
        next.undoStack = if store.maxUndo < store.undoStack.length + 1 then
          (record :: store.undoStack).dropLast else record :: store.undoStack := by
  obtain ⟨plan, planned, same⟩ := map_eq_some_iff.mp dispatched
  have plans := plans_of_planImageDocumentCommand consistent.checked planned
  obtain ⟨letters, allocates⟩ := plans.allocates
  have checked := (Bool.and_eq_true_iff.mp plans.loaded).2
  have cursors : checkAllocation plan.document.allocation = true := by
    unfold checkImageDocument at checked
    exact (Bool.and_eq_true_iff.mp (Bool.and_eq_true_iff.mp checked).1).1
  have behind := behind_of_allocates allocates
  have links := links_of_plan plans
  rw [← same]
  refine ⟨⟨checked, fun direction => ?_, ?_, ?_, ?_⟩, plans.loaded, rfl, rfl, _, links, rfl⟩
  · cases direction with
    | redo => exact trivial
    | undo =>
      have pushed : Timeline platform plan.document.allocation .undo plan.document.content
          (⟨plan.redo, plan.inverse, changedResources store.current.content
            plan.document.content⟩ :: store.undoStack) :=
        ⟨store.current.content, links, checked_of_behind consistent.checked behind cursors,
          (consistent.timeline .undo).behind behind cursors⟩
      dsimp only [ImageDocumentStore.history]
      split
      · exact pushed.dropLast
      · exact pushed
  · intro id listed
    cases mem_append.mp listed with
    | inl before => exact (consistent.minted id before).later behind
    | inr new => exact allocates.minted new
  · obtain ⟨created, fresh⟩ := allocates.fresh
    refine nodup_append'.mpr ⟨consistent.distinct, created, ?_⟩
    exact fun id before new => fresh id new (consistent.minted id before)
  · have bounded := consistent.bounded
    dsimp only
    split
    · rw [length_dropLast, length_cons, length_nil]
      omega
    · rename_i small
      rw [length_cons] at small
      rw [length_cons, length_nil]
      omega

theorem replay_cons (consistent : Consistent platform store) {direction : HistoryDirection}
    {record : HistoryRecord} {rest : List HistoryRecord}
    (known : store.history direction = record :: rest) :
    ∃ other, Leads direction store.current.content record other ∧
      checkImageDocument platform ⟨store.current.allocation, other⟩ = true ∧
      Timeline platform store.current.allocation direction other rest ∧
      store.replayed (record.edits direction) = some ⟨store.current.allocation, other⟩ ∧
      store.replay platform direction =
        if withinLimits platform ⟨store.current.allocation, other⟩ then
          some (true, store.rewind record ⟨store.current.allocation, other⟩ direction)
        else none := by
  have timeline := consistent.timeline direction
  rw [known] at timeline
  obtain ⟨other, leads, checked, timeline⟩ := timeline
  have replayed : store.replayed (record.edits direction) =
      some ⟨store.current.allocation, other⟩ := by
    unfold ImageDocumentStore.replayed
    rw [leads.applied]
    rfl
  refine ⟨other, leads, checked, timeline, replayed, ?_⟩
  unfold ImageDocumentStore.replay
  rw [known]
  dsimp only
  rw [replayed, bind_some]
  unfold loads
  rw [checked, Bool.and_true]

section

variable (consistent : Consistent platform store)

include consistent

theorem rewind {record : HistoryRecord} {rest : List HistoryRecord} {other : ImageContent}
    (known : store.history direction = record :: rest)
    (leads : Leads direction store.current.content record other)
    (checked : checkImageDocument platform ⟨store.current.allocation, other⟩ = true)
    (timeline : Timeline platform store.current.allocation direction other rest) :
    Consistent platform (store.rewind record ⟨store.current.allocation, other⟩ direction) := by
  have bounded := consistent.bounded
  cases direction with
  | undo =>
    have known : store.undoStack = record :: rest := known
    refine ⟨checked, fun direction => ?_, consistent.minted, consistent.distinct, ?_⟩
    rotate_left
    · dsimp only [ImageDocumentStore.rewind]
      rw [known, length_cons] at bounded
      rw [known, tail_cons, length_cons]
      omega
    cases direction with
    | undo =>
      dsimp only [ImageDocumentStore.history, ImageDocumentStore.rewind]
      rw [known]
      exact timeline
    | redo =>
      exact ⟨store.current.content, leads.back, consistent.checked, consistent.timeline .redo⟩
  | redo =>
    have known : store.redoStack = record :: rest := known
    refine ⟨checked, fun direction => ?_, consistent.minted, consistent.distinct, ?_⟩
    rotate_left
    · dsimp only [ImageDocumentStore.rewind]
      rw [known, length_cons] at bounded
      rw [known, tail_cons, length_cons]
      omega
    cases direction with
    | redo =>
      dsimp only [ImageDocumentStore.history, ImageDocumentStore.rewind]
      rw [known]
      exact timeline
    | undo =>
      exact ⟨store.current.content, leads.back, consistent.checked, consistent.timeline .undo⟩

theorem replay {answer : Bool} (replayed : store.replay platform direction = some (answer, next)) :
    Consistent platform next := by
  cases known : store.history direction with
  | nil =>
    unfold ImageDocumentStore.replay at replayed
    rw [known] at replayed
    cases replayed
    exact consistent
  | cons record rest =>
    obtain ⟨other, leads, checked, timeline, _, same⟩ := consistent.replay_cons known
    rw [same] at replayed
    obtain ⟨_, same⟩ := ite_none_right_eq_some.mp replayed
    cases same
    exact consistent.rewind known leads checked timeline

theorem step (action : ImageDocumentStore.Action) :
    Consistent platform (store.step platform action) := by
  cases action with
  | dispatch actor command =>
    unfold ImageDocumentStore.step
    dsimp only
    cases dispatched : store.dispatch platform actor command with
    | none => exact consistent
    | some next => exact (consistent.dispatch dispatched).1
  | replay direction =>
    unfold ImageDocumentStore.step
    dsimp only
    cases replayed : store.replay platform direction with
    | none => exact consistent
    | some outcome => exact consistent.replay replayed

theorem run (actions : List ImageDocumentStore.Action) :
    Consistent platform (store.run platform actions) := by
  induction actions generalizing store with
  | nil => exact consistent
  | cons action rest ih => exact ih (consistent.step action)

theorem replay_eq_none_iff (direction : HistoryDirection) : store.replay platform direction = none ↔
      ∃ record rest document, store.history direction = record :: rest ∧
        store.replayed (record.edits direction) = some document ∧
        withinLimits platform document = false := by
  cases known : store.history direction with
  | nil =>
    have returns : store.replay platform direction = some (false, store) := by
      unfold ImageDocumentStore.replay
      rw [known]
    rw [returns]
    simp
  | cons record rest =>
    obtain ⟨other, _, _, _, replayed, same⟩ := consistent.replay_cons known
    rw [same]
    constructor
    · intro throws
      refine ⟨record, rest, _, rfl, replayed, ?_⟩
      split at throws
      · cases throws
      · rename_i limits
        exact Bool.eq_false_iff.mpr limits
    · rintro ⟨_, _, document, listed, made, limits⟩
      cases listed
      cases replayed.symm.trans made
      rw [limits]
      rfl

theorem undo_dispatch (dispatched : store.dispatch platform actor command = some next)
    (kept : store.maxUndo ≠ 0) {answer : Bool} {undone : ImageDocumentStore}
    (undo : next.replay platform .undo = some (answer, undone)) :
    answer = true ∧ undone.current = ⟨next.current.allocation, store.current.content⟩ ∧
      ∃ redone, undone.replay platform .redo = some (true, redone) ∧
        redone.current = next.current := by
  obtain ⟨after, loaded, noRedo, _, record, links, pushed⟩ := consistent.dispatch dispatched
  have newest : ∃ rest, next.history .undo = record :: rest := by
    change ∃ rest, next.undoStack = record :: rest
    rw [pushed]
    split
    · rename_i full
      cases older : store.undoStack with
      | nil =>
        rw [older] at full
        simp only [length_nil] at full
        omega
      | cons first rest => exact ⟨_, rfl⟩
    · exact ⟨_, rfl⟩
  obtain ⟨rest, newest⟩ := newest
  obtain ⟨other, leads, checked, timeline, _, same⟩ := after.replay_cons newest
  have before : other = store.current.content := by
    have there : Leads .undo next.current.content record store.current.content := links
    exact some.inj (leads.applied.symm.trans there.applied)
  rw [same] at undo
  obtain ⟨_, same⟩ := ite_none_right_eq_some.mp undo
  cases same
  refine ⟨rfl, congrArg (ImageDocument.mk _) before, ?_⟩
  have rewound := after.rewind newest leads checked timeline
  obtain ⟨later, onward, _, _, _, same⟩ := @replay_cons _ _ rewound .redo record next.redoStack rfl
  have again : later = next.current.content := by
    have there : Leads .redo other record next.current.content := leads
    exact some.inj (onward.applied.symm.trans there.applied)
  rw [same, again]
  have limits : withinLimits platform next.current = true := (Bool.and_eq_true_iff.mp loaded).1
  exact ⟨_, if_pos limits, rfl⟩

theorem retained_replay (direction : HistoryDirection) :
    ∀ digest ∈ (store.step platform (.replay direction)).retainedResourceDigests,
      digest ∈ store.retainedResourceDigests := by
  intro digest
  unfold ImageDocumentStore.step
  dsimp only
  cases replayed : store.replay platform direction with
  | none => exact id
  | some outcome =>
    cases known : store.history direction with
    | nil =>
      unfold ImageDocumentStore.replay at replayed
      rw [known] at replayed
      cases replayed
      exact id
    | cons record rest =>
      obtain ⟨other, leads, _, _, _, same⟩ := consistent.replay_cons known
      rw [same] at replayed
      obtain ⟨_, same⟩ := ite_none_right_eq_some.mp replayed
      cases same
      have gained := leads.gained digest
      cases direction with
      | undo =>
        have known : store.undoStack = record :: rest := known
        simp only [map_some, getD_some, ImageDocumentStore.rewind,
          ImageDocumentStore.retainedResourceDigests, known, tail_cons,
          mem_append, mem_flatMap, mem_cons] at gained ⊢
        grind
      | redo =>
        have known : store.redoStack = record :: rest := known
        simp only [map_some, getD_some, ImageDocumentStore.rewind,
          ImageDocumentStore.retainedResourceDigests, known, tail_cons,
          mem_append, mem_flatMap, mem_cons] at gained ⊢
        grind

theorem retained_run (directions : List HistoryDirection) :
    ∀ digest ∈ (store.run platform (directions.map .replay)).retainedResourceDigests,
      digest ∈ store.retainedResourceDigests := by
  induction directions generalizing store with
  | nil => exact fun _ listed => listed
  | cons direction rest ih =>
    intro digest listed
    exact consistent.retained_replay direction digest
      (ih (consistent.step (.replay direction)) digest listed)

end

end Consistent

end Dinkster.Image.Undo
