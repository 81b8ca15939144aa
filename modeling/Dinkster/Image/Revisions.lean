import Dinkster.Image.Runs
import Dinkster.Image.Store

/-!
# Revisions of the image document store

Where no commit is started while an outer one still notifies the document signal, or still has a
transaction listener to call, transactions are numbered in the order in which their patches were
applied and every listener receives them in that order.  A subscriber that dispatches breaks
this: the outer transaction takes the revision of the inner one.
-/

namespace Dinkster.Image

open Library Format Commands List Option
open Collab (HistoryDirection)
open ImageWorld (layerEnvironment layeredDocument)

namespace CommitFrame

variable {Observer : Type}

/-- The patch of a commit that has no transaction yet. -/
def unmade (frame : CommitFrame Observer) : List OwnedOps :=
  match frame.phase with
  | .signal _ forward _ => [forward]
  | .transaction _ => []

def made (frame : CommitFrame Observer) : List ImageDocumentTransaction :=
  match frame.phase with
  | .signal _ _ _ => []
  | .transaction transaction => [transaction]

def owes [DecidableEq Observer] (listener : Observer) (frame : CommitFrame Observer) :
    List ImageDocumentTransaction :=
  match frame.phase with
  | .signal _ _ _ => []
  | .transaction transaction =>
    (frame.remaining.filter (· = listener)).map fun _ => transaction

/-- Whether a commit has called all its listeners. -/
def settled (frame : CommitFrame Observer) : Bool :=
  match frame.phase with
  | .signal _ _ _ => false
  | .transaction _ => frame.remaining.isEmpty

variable {frame : CommitFrame Observer}

theorem unmade_of_settled (settled : frame.settled = true) : frame.unmade = [] := by
  unfold CommitFrame.settled at settled
  unfold unmade
  split at settled
  · exact absurd settled Bool.false_ne_true
  · rfl

theorem owes_of_settled [DecidableEq Observer] (settled : frame.settled = true)
    (listener : Observer) : frame.owes listener = [] := by
  unfold CommitFrame.settled at settled
  unfold owes
  split at settled
  · exact absurd settled Bool.false_ne_true
  · rw [isEmpty_iff.mp settled]
    rfl

end CommitFrame

namespace ImageDocumentStore

variable {Observer : Type} [DecidableEq Observer] (env : ImageEnvironment)

def deliveredTo (store : ImageDocumentStore Observer) (listener : Observer) :
    List ImageDocumentTransaction :=
  (store.delivered.filter fun delivery => delivery.1 = listener).map Prod.snd

omit [DecidableEq Observer] in
/-- Whether an action applies a patch: a command is accepted, or a record is replayed. -/
def commits (store : ImageDocumentStore Observer) : StoreAction → Bool
  | .dispatch invocation => (planImageDocumentCommand env store.current invocation).isSome
  | .replay direction => (store.replays env direction).isSome
  | _ => false

omit [DecidableEq Observer] in
/-- A patch is applied only once every commit underway has called all its listeners. -/
def Undisturbed (store : ImageDocumentStore Observer) (action : StoreAction) : Prop :=
  store.commits env action = true → ∀ frame ∈ store.frames, frame.settled = true

/-- Transactions carry consecutive revisions in the order in which their patches were applied,
each listener receives them in that order, and their patches make the document. -/
structure RevisionsFollow (initial : Json) (store : ImageDocumentStore Observer) : Prop where
  numbered : store.transactions.map (·.revision) = List.range' 1 store.transactions.length
  applied : store.transactions.map (·.forward) <+: store.applied
  received : ∀ listener ∈ store.listeners, store.deliveredTo listener <+: store.transactions
  returned : ∀ transaction ∈ store.returned, transaction ∈ store.transactions
  everything : store.frames = [] →
    store.transactions.map (·.forward) = store.applied ∧
      store.returned.Perm store.transactions ∧
      ∀ listener ∈ store.listeners, store.deliveredTo listener = store.transactions
  reproduces : store.frames = [] → ∀ listener ∈ store.listeners,
    ((store.deliveredTo listener).map (·.forward)).foldlM (replayed env) initial =
      some store.current

/-- What every undisturbed step keeps. -/
structure Ordered (initial : Json) (store : ImageDocumentStore Observer) : Prop where
  listed : store.listeners.Nodup
  outer : ∀ frame ∈ store.frames.tail, frame.settled = true
  counted : store.currentRevision = store.applied.length
  numbered : store.transactions.map (·.revision) = List.range' 1 store.transactions.length
  patches : store.applied =
    store.transactions.map (·.forward) ++ store.frames.flatMap CommitFrame.unmade
  received : ∀ listener ∈ store.listeners,
    store.deliveredTo listener ++ store.frames.flatMap (CommitFrame.owes listener) =
      store.transactions
  returns : (store.returned ++ store.frames.flatMap CommitFrame.made).Perm store.transactions
  document : store.applied.foldlM (replayed env) initial = some store.current

variable {env} {initial : Json} {store next : ImageDocumentStore Observer}

variable {frames : List (CommitFrame Observer)}

omit [DecidableEq Observer] in
theorem flatMap_unmade (settled : ∀ frame ∈ frames, frame.settled = true) :
    frames.flatMap CommitFrame.unmade = [] :=
  flatMap_eq_nil_iff.mpr fun frame listed =>
    CommitFrame.unmade_of_settled (settled frame listed)

theorem flatMap_owes (settled : ∀ frame ∈ frames, frame.settled = true) (listener : Observer) :
    frames.flatMap (CommitFrame.owes listener) = [] :=
  flatMap_eq_nil_iff.mpr fun frame listed =>
    CommitFrame.owes_of_settled (settled frame listed) listener

variable {invocation : Json} {action : StoreAction}

theorem ordered_commit (ordered : Ordered env initial store)
    (settled : ∀ frame ∈ store.frames, frame.settled = true) {document : Json}
    {undoStack redoStack : List HistoryRecord} {forward inverse : OwnedOps}
    (made : replayed env store.current forward = some document) : Ordered env initial
      (commit { store with current := document, undoStack, redoStack } invocation forward
        inverse) where
  listed := ordered.listed
  outer := settled
  counted := by
    unfold commit
    dsimp only
    rw [length_append, ordered.counted]
    rfl
  numbered := ordered.numbered
  patches := by
    unfold commit
    dsimp only
    rw [flatMap_cons, flatMap_unmade settled, ordered.patches, flatMap_unmade settled]
    simp [CommitFrame.unmade]
  received := ordered.received
  returns := ordered.returns
  document := by
    unfold commit
    dsimp only
    rw [foldlM_append, ordered.document]
    simp [made]

omit [DecidableEq Observer] in
theorem replayed_of_plan {document : Json} {plan : ImageDocumentCommandPlan}
    (planned : planImageDocumentCommand env document invocation = some plan) :
    replayed env document plan.forward = some plan.document := by
  unfold planImageDocumentCommand at planned
  split at planned
  · simp at planned
  · split at planned
    · simp at planned
    · obtain ⟨loaded, applied, same⟩ := map_eq_some_iff.mp planned
      rw [← same]
      exact applied

section

variable (ordered : Ordered env initial store)

include ordered

theorem ordered_dispatch (quiet : Undisturbed env store (.dispatch invocation)) :
    Ordered env initial (store.dispatch env invocation) := by
  unfold dispatch
  cases planned : planImageDocumentCommand env store.current invocation with
  | none => exact ordered
  | some plan =>
    have settled := quiet (isSome_iff_exists.mpr ⟨plan, planned⟩)
    exact ordered_commit ordered settled (replayed_of_plan planned)

theorem ordered_replay {direction : HistoryDirection}
    (quiet : Undisturbed env store (.replay direction)) :
    Ordered env initial (store.replay env direction) := by
  unfold replay
  cases found : store.replays env direction with
  | none => exact ordered
  | some replaying =>
    obtain ⟨record, document⟩ := replaying
    have settled := quiet (isSome_iff_exists.mpr ⟨_, found⟩)
    obtain ⟨other, _, mapped⟩ := bind_eq_some_iff.mp found
    obtain ⟨made, applies, same⟩ := map_eq_some_iff.mp mapped
    cases same
    cases direction with
    | undo | redo => exact ordered_commit ordered settled applies

/-- What the commits underway amount to decides, not how far each of them is. -/
theorem Ordered.reframe (outer : frames.tail = store.frames.tail)
    (unmade : frames.flatMap CommitFrame.unmade = store.frames.flatMap CommitFrame.unmade)
    (made : frames.flatMap CommitFrame.made = store.frames.flatMap CommitFrame.made)
    (owes : ∀ listener, frames.flatMap (CommitFrame.owes listener) =
      store.frames.flatMap (CommitFrame.owes listener)) :
    Ordered env initial { store with frames } where
  listed := ordered.listed
  outer := by
    dsimp only
    rw [outer]
    exact ordered.outer
  counted := ordered.counted
  numbered := ordered.numbered
  patches := by
    dsimp only
    rw [unmade]
    exact ordered.patches
  received := by
    intro listener listed
    dsimp only
    rw [owes]
    exact ordered.received listener listed
  returns := by
    dsimp only
    rw [made]
    exact ordered.returns
  document := ordered.document

/-- A delivery moves a transaction from what a listener is owed to what it has received. -/
theorem ordered_call (called : store.call = some next) : Ordered env initial next := by
  unfold call at called
  split at called
  · rename_i invocation forward inverse first rest outer underway
    cases called
    apply ordered.reframe
    all_goals rw [underway]
    all_goals first | rfl | exact fun _ => rfl
  · rename_i transaction observer rest outer underway
    have outside := ordered.outer
    have patches := ordered.patches
    have received := ordered.received
    have returns := ordered.returns
    rw [underway] at outside patches received returns
    cases called
    refine ⟨ordered.listed, outside, ordered.counted, ordered.numbered, patches, ?_, returns,
      ordered.document⟩
    intro listener listed
    rw [← received listener listed]
    unfold deliveredTo
    dsimp only
    rw [filter_append, map_append, flatMap_cons, flatMap_cons]
    by_cases same : observer = listener
    all_goals simp [CommitFrame.owes, same]
  · simp at called

theorem ordered_callReturned (returned : store.callReturned = some next) :
    Ordered env initial next := by
  unfold callReturned at returned
  split at returned
  · rename_i phase remaining outer underway
    cases returned
    apply ordered.reframe
    all_goals rw [underway]
    all_goals first | rfl | exact fun _ => rfl
  · simp at returned

/-- A transaction is made with the number of patches that were applied, which are those of the
transactions before it and its own. -/
theorem ordered_finish (finished : store.finish = some next) : Ordered env initial next := by
  unfold finish at finished
  split at finished
  · rename_i invocation forward inverse outer underway
    have outside := ordered.outer
    have patches := ordered.patches
    have received := ordered.received
    have returns := ordered.returns
    rw [underway] at outside patches received returns
    rw [tail_cons] at outside
    rw [flatMap_cons, flatMap_unmade outside, append_nil] at patches
    have number : store.currentRevision = store.transactions.length + 1 := by
      rw [ordered.counted, patches]
      simp [CommitFrame.unmade]
    cases finished
    refine ⟨ordered.listed, outside, ordered.counted, ?_, ?_, ?_, ?_, ordered.document⟩
    · dsimp only
      rw [map_append, ordered.numbered, length_append, length_singleton, range'_concat, number]
      simp [Nat.add_comm]
    · dsimp only
      rw [flatMap_cons, flatMap_unmade outside, patches]
      simp [CommitFrame.unmade]
    · intro listener listed
      have before := received listener listed
      rw [flatMap_cons, flatMap_owes outside] at before
      have once : store.listeners.filter (· = listener) = [listener] := by
        rw [filter_eq, count_eq_one_of_mem ordered.listed listed, replicate_one]
      dsimp only
      rw [flatMap_cons, flatMap_owes outside, ← before]
      simp [CommitFrame.owes, once, deliveredTo]
    · exact perm_middle.trans ((returns.cons _).trans (perm_append_singleton _ _).symm)
  · rename_i transaction outer underway
    have outside := ordered.outer
    have patches := ordered.patches
    have received := ordered.received
    have returns := ordered.returns
    rw [underway] at outside patches received returns
    rw [tail_cons] at outside
    cases finished
    refine ⟨ordered.listed, fun frame listed => outside frame (mem_of_mem_tail listed),
      ordered.counted, ordered.numbered, patches, received, ?_, ordered.document⟩
    dsimp only
    rw [append_assoc]
    exact returns
  · simp at finished

theorem ordered_step (quiet : Undisturbed env store action)
    (taken : store.step env action = some next) : Ordered env initial next := by
  cases action with
  | dispatch invocation =>
    obtain ⟨_, same⟩ := ite_none_right_eq_some.mp taken
    cases same
    exact ordered_dispatch ordered quiet
  | replay direction =>
    obtain ⟨_, same⟩ := ite_none_right_eq_some.mp taken
    cases same
    exact ordered_replay ordered quiet
  | clearHistory =>
    obtain ⟨_, same⟩ := ite_none_right_eq_some.mp taken
    cases same
    exact ⟨ordered.listed, ordered.outer, ordered.counted, ordered.numbered, ordered.patches,
      ordered.received, ordered.returns, ordered.document⟩
  | call => exact ordered_call ordered taken
  | callReturned => exact ordered_callReturned ordered taken
  | finish => exact ordered_finish ordered taken

end

theorem ordered_create {input : Json} {maxUndo : Nat} {subscribers listeners : List Observer}
    (created : create env input maxUndo subscribers listeners = some store) :
    Ordered env store.current store := by
  obtain ⟨document, _, rfl⟩ := map_eq_some_iff.mp created
  exact ⟨nodup_dedup _, by simp, rfl, rfl, rfl, fun _ _ => rfl, .refl _, rfl⟩

theorem revisionsFollow_of_ordered (ordered : Ordered env initial store) :
    RevisionsFollow env initial store := by
  have everything : store.frames = [] → store.transactions.map (·.forward) = store.applied ∧
        store.returned.Perm store.transactions ∧
        ∀ listener ∈ store.listeners, store.deliveredTo listener = store.transactions := by
    intro idle
    have patches := ordered.patches
    have received := ordered.received
    have returns := ordered.returns
    rw [idle] at patches received returns
    rw [flatMap_nil, append_nil] at patches returns
    refine ⟨patches.symm, returns, fun listener listed => ?_⟩
    have complete := received listener listed
    rwa [flatMap_nil, append_nil] at complete
  exact {
    numbered := ordered.numbered
    applied := ⟨_, ordered.patches.symm⟩
    received := fun listener listed => ⟨_, ordered.received listener listed⟩
    returned := fun transaction listed =>
      ordered.returns.subset (mem_append_left _ listed)
    everything := everything
    reproduces := fun idle listener listed => by
      obtain ⟨patches, _, received⟩ := everything idle
      rw [received listener listed, patches]
      exact ordered.document }

/-- In every run that applies patches only where the commits underway have called all their
listeners, revisions follow the commits. -/
theorem revisions_follow_commits {input : Json} {maxUndo : Nat}
    {subscribers listeners : List Observer} {final : ImageDocumentStore Observer}
    {actions : List StoreAction}
    (created : create env input maxUndo subscribers listeners = some store)
    (along : Along (step env) (Undisturbed env) store actions)
    (reached : run (step env) store actions = some final) :
    RevisionsFollow env store.current final :=
  revisionsFollow_of_ordered
    (run_invariant (Ordered env store.current) ordered_step (ordered_create created) along reached)

omit [DecidableEq Observer] in
def undisturbedTest (env : ImageEnvironment) (store : ImageDocumentStore Observer)
    (action : StoreAction) : Bool :=
  !store.commits env action || store.frames.all (·.settled)

omit [DecidableEq Observer] in
theorem undisturbed_of_test (passes : undisturbedTest env store action = true) :
    Undisturbed env store action := by
  intro commits frame listed
  unfold undisturbedTest at passes
  rw [commits, Bool.not_true, Bool.false_or] at passes
  exact all_eq_true.mp passes frame listed

def renames (layerId name : String) : StoreAction :=
  .dispatch (.obj [("command", .str "image.layer.update"),
    ("params", .obj [("layerId", .str layerId), ("name", .str name)])])

/-- An observer is called and returns. -/
def observes : List StoreAction :=
  [.call, .callReturned]

/-- A commit with one subscriber and one listener runs to its end. -/
def commitsThrough : List StoreAction :=
  observes ++ [.finish] ++ observes ++ [.finish]

/-- The subscriber of the document signal renames the other layer while the first rename
notifies it. -/
def disturbedRun : List StoreAction :=
  [renames "l1" "Dawn", .call, renames "l2" "Lake"] ++ commitsThrough ++
    [.callReturned, .finish] ++ observes ++ [.finish]

/-- The only transaction listener undoes the rename it is told of. -/
def undoingRun : List StoreAction :=
  [renames "l1" "Dawn"] ++ observes ++ [.finish, .call, .replay .undo] ++ commitsThrough ++
    [.callReturned, .finish]

/-- A listener that undoes the rename it is told of leaves the revisions in order. -/
theorem revisions_follow_undoing_listener : ∃ store final : ImageDocumentStore Nat,
      create layerEnvironment layeredDocument 200 [0] [1] = some store ∧
        Along (step layerEnvironment) (Undisturbed layerEnvironment) store undoingRun ∧
        run (step layerEnvironment) store undoingRun = some final ∧
        final.transactions.length = 2 ∧ RevisionsFollow layerEnvironment store.current final := by
  have passes : ((create layerEnvironment layeredDocument 200 [0] [1]).any
      fun store : ImageDocumentStore Nat =>
        alongTest (step layerEnvironment) (undisturbedTest layerEnvironment) store undoingRun &&
          (run (step layerEnvironment) store undoingRun).any fun final =>
            decide (final.transactions.length = 2)) = true := by
    decide +kernel
  obtain ⟨store, created, passes⟩ := (any_eq_true _ _).mp passes
  obtain ⟨admitted, passes⟩ := Bool.and_eq_true_iff.mp passes
  obtain ⟨final, reached, counted⟩ := run_of_any passes
  have along := along_mono (fun _ _ => undisturbed_of_test) (along_of_test admitted)
  exact ⟨store, final, created, along, reached, of_decide_eq_true counted,
    revisions_follow_commits created along reached⟩

/-- A subscriber that dispatches makes two transactions of one revision. -/
theorem nested_dispatch_repeats_revision :
    ¬ ∀ (store final : ImageDocumentStore Nat) (actions : List StoreAction),
      create layerEnvironment layeredDocument 200 [0] [1] = some store →
        run (step layerEnvironment) store actions = some final →
        RevisionsFollow layerEnvironment store.current final := by
  intro claimed
  have passes : ((create layerEnvironment layeredDocument 200 [0] [1]).any
      fun store : ImageDocumentStore Nat =>
        (run (step layerEnvironment) store disturbedRun).any fun final =>
          decide (final.transactions.map (·.revision) = [2, 2])) = true := by
    decide +kernel
  obtain ⟨store, created, passes⟩ := (any_eq_true _ _).mp passes
  obtain ⟨final, reached, repeated⟩ := run_of_any passes
  have repeated : final.transactions.map (·.revision) = [2, 2] := of_decide_eq_true repeated
  have numbered := (claimed store final disturbedRun created reached).numbered
  have count := congrArg List.length repeated
  rw [length_map] at count
  rw [repeated, count] at numbered
  exact absurd numbered (by decide)

end ImageDocumentStore

end Dinkster.Image
