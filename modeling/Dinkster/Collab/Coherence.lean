import Dinkster.Collab.Effect
import Dinkster.Collab.Refinement
import Dinkster.Library.Transition

/-!
# History and the pending queue

A dispatch ties the history record it creates to the pending entry it has just
queued, and an undo or a redo ties the record it replays to the entry of the
replay.  A rebase rewrites the records of the entries that it executes again.  As
long as nothing happens between a commit and the end of its call, the records
stay those of the entries' own intentions.
-/

namespace Dinkster.Collab

open Library Format Commands List

variable {Client Authority : Type}

/-- The record of a dispatched entry has recorded what the entry predicts.  That of a
replay says it in the direction that the entry replays; until a rebase has rewritten
it, it is what was replayed, cursors being preserved. -/
def PendingEntry.Matches (env : SessionEnvironment Authority) (entry : PendingEntry Client)
    (record : HistoryRecord) : Prop :=
  match entry.recorded with
  | none => entry.predicted = toWirePatch record.forward
  | some ops =>
    ∃ direction : HistoryDirection, entry.origin = direction.origin ∧
      (entry.predicted = toWirePatch (record.replayed direction) ∨
        ops = record.replayed direction ∧ ∃ ground forward,
          Replayed env ground ops forward ∧ entry.predicted = toWirePatch forward)

def MatchedFrom (env : SessionEnvironment Authority) (records : List HistoryRecord) :
    List (PendingEntry Client) → Prop
  | [] => True
  | entry :: rest =>
    (∀ reference ∈ entry.record, (∀ later ∈ rest, later.record ≠ some reference) →
      ∃ record, records[reference]? = some record ∧ entry.Matches env record) ∧
    MatchedFrom env records rest

/-- The records of the dispatched entries, in the order of the queue. -/
def dispatchedRecords (pending : List (PendingEntry Client)) : List Nat :=
  pending.filterMap fun entry => if entry.recorded.isNone then entry.record else none

/-- The origin tells replays from dispatches. -/
def PendingEntry.Named (entry : PendingEntry Client) : Prop :=
  match entry.recorded with
  | none => entry.origin ≠ HistoryDirection.undo.origin
  | some _ => ∃ direction : HistoryDirection, entry.origin = direction.origin

/-- The history of a session: `records` in the order of the dispatches, of which the
stacks hold the later ones to redo above the earlier ones to undo. -/
structure Replica.Chronicled (replica : Replica Client) : Prop where
  sorted : (replica.undoStack.reverse ++ replica.redoStack).Pairwise (· < ·)
  listed : ∀ reference ∈ replica.undoStack ++ replica.redoStack,
    reference < replica.records.length

/-- The queue and the history of a session fit together. -/
structure Replica.Coherent (env : SessionEnvironment Authority) (replica : Replica Client) :
    Prop where
  matched : MatchedFrom env replica.records replica.pending
  dispatched : (dispatchedRecords replica.pending).Pairwise (· < ·)
  tied : ∀ entry ∈ replica.pending, ∀ reference ∈ entry.record, reference < replica.records.length
  named : ∀ entry ∈ replica.pending, entry.Named
  chronicled : replica.Chronicled

section Queues

variable {env : SessionEnvironment Authority} {records : List HistoryRecord}
  {pending : List (PendingEntry Client)} {entry : PendingEntry Client}

theorem dispatchedRecords_append (front back : List (PendingEntry Client)) :
    dispatchedRecords (front ++ back) = dispatchedRecords front ++ dispatchedRecords back :=
  filterMap_append

theorem matchedFrom_concat_of_untied (matched : MatchedFrom env records pending)
    (untied : entry.record = none) : MatchedFrom env records (pending ++ [entry]) := by
  induction pending with
  | nil => exact ⟨by simp [untied], trivial⟩
  | cons first rest ih =>
    refine ⟨?_, ih matched.2⟩
    intro reference tied latest
    exact matched.1 reference tied fun later member => latest later (by simp [member])

variable {reference : Nat}

theorem matchedFrom_concat {rewritten : List HistoryRecord}
    (matched : MatchedFrom env records pending) (tied : entry.record = some reference)
    (others : ∀ other, other ≠ reference → other < records.length →
      rewritten[other]? = records[other]?)
    (bounded : ∀ earlier ∈ pending, ∀ other ∈ earlier.record, other < records.length)
    (matching : ∃ record, rewritten[reference]? = some record ∧ entry.Matches env record) :
    MatchedFrom env rewritten (pending ++ [entry]) := by
  induction pending with
  | nil =>
    refine ⟨?_, trivial⟩
    intro other same _
    obtain rfl : reference = other := Option.some.inj (tied.symm.trans same)
    exact matching
  | cons first rest ih =>
    refine ⟨?_, ih matched.2 fun earlier member => bounded earlier (mem_cons_of_mem _ member)⟩
    intro other same latest
    have apart : other ≠ reference := by
      intro equal
      exact latest entry (by simp) (equal ▸ tied)
    obtain ⟨record, found, matches_⟩ := matched.1 other same fun later member =>
      latest later (by simp [member])
    exact ⟨record, (others other apart (bounded first mem_cons_self other same)).trans found,
      matches_⟩

theorem matchedFrom_of_append {back : List (PendingEntry Client)}
    (matched : MatchedFrom env records (pending ++ back)) (untied : ∀ later ∈ back, later.record = none) :
    MatchedFrom env records pending := by
  induction pending with
  | nil => trivial
  | cons first rest ih =>
    refine ⟨?_, ih matched.2⟩
    intro reference tied latest
    apply matched.1 reference tied
    intro later member
    rcases mem_append.mp member with here | beyond
    · exact latest later here
    · rw [untied later beyond]
      simp

theorem dispatchedRecords_of_untied (untied : entry.record = none) :
    dispatchedRecords [entry] = [] := by
  simp [dispatchedRecords, untied]

theorem dispatchedRecords_of_recorded {ops : List PatchOp} (recorded : entry.recorded = some ops) :
    dispatchedRecords [entry] = [] := by
  simp [dispatchedRecords, recorded]

theorem dispatchedRecords_of_tied (ordinary : entry.recorded = none)
    (tied : entry.record = some reference) : dispatchedRecords [entry] = [reference] := by
  simp [dispatchedRecords, ordinary, tied]

theorem mem_dispatchedRecords (member : reference ∈ dispatchedRecords pending) :
    ∃ entry ∈ pending, entry.record = some reference := by
  obtain ⟨entry, among, found⟩ := mem_filterMap.mp member
  refine ⟨entry, among, ?_⟩
  split at found
  · exact found
  · simp at found

end Queues

namespace Replica

variable {env : SessionEnvironment Authority} {replica next : Replica Client}

theorem Coherent.congr (coherent : replica.Coherent env) (records : next.records = replica.records)
    (pending : next.pending = replica.pending) (undoStack : next.undoStack = replica.undoStack)
    (redoStack : next.redoStack = replica.redoStack) : next.Coherent env where
  matched := by rw [records, pending]; exact coherent.matched
  dispatched := by rw [pending]; exact coherent.dispatched
  tied := by rw [records, pending]; exact coherent.tied
  named := by rw [pending]; exact coherent.named
  chronicled := by
    constructor
    · rw [undoStack, redoStack]
      exact coherent.chronicled.sorted
    · rw [undoStack, redoStack, records]
      exact coherent.chronicled.listed

theorem Chronicled.sublist (chronicled : replica.Chronicled)
    (undoes : next.undoStack.Sublist replica.undoStack)
    (redoes : next.redoStack.Sublist replica.redoStack)
    (records : next.records.length = replica.records.length) : next.Chronicled where
  sorted := chronicled.sorted.sublist (undoes.reverse.append redoes)
  listed := by
    intro reference member
    rw [records]
    exact chronicled.listed reference ((undoes.append redoes).subset member)

theorem Coherent.withStacks (coherent : replica.Coherent env)
    (records : next.records = replica.records) (pending : next.pending = replica.pending)
    (chronicled : next.Chronicled) : next.Coherent env where
  matched := by rw [records, pending]; exact coherent.matched
  dispatched := by rw [pending]; exact coherent.dispatched
  tied := by rw [records, pending]; exact coherent.tied
  named := by rw [pending]; exact coherent.named
  chronicled := chronicled

theorem coherent_removeRecord (coherent : replica.Coherent env) (record : Option Nat) :
    (replica.removeRecord record).Coherent env := by
  cases record with
  | none => exact coherent
  | some reference =>
    exact coherent.withStacks rfl rfl (coherent.chronicled.sublist erase_sublist erase_sublist rfl)

theorem coherent_clearHistory (coherent : replica.Coherent env) :
    replica.clearHistory.Coherent env := by
  exact coherent.withStacks rfl rfl
    (coherent.chronicled.sublist (nil_sublist _) (nil_sublist _) rfl)

/-- With an empty queue only the history is left. -/
theorem coherent_of_empty (chronicled : replica.Chronicled) (empty : replica.pending = []) :
    replica.Coherent env where
  matched := by rw [empty]; trivial
  dispatched := by rw [empty]; exact List.Pairwise.nil
  tied := by rw [empty]; simp
  named := by rw [empty]; simp
  chronicled := chronicled

/-- An intention is queued without a record. -/
theorem coherent_enqueue (coherent : replica.Coherent env) (store : DocumentStore)
    (invocation : CommandInvocation) (replayed : Option (HistoryDirection × List PatchOp))
    (forward : List PatchOp)
    (ordinary : replayed = none → invocation.command ≠ HistoryDirection.undo.origin) :
    (replica.enqueue store invocation replayed forward).Coherent env where
  matched := matchedFrom_concat_of_untied coherent.matched rfl
  dispatched := by
    simp only [enqueue, dispatchedRecords_append]
    rw [dispatchedRecords_of_untied rfl, append_nil]
    exact coherent.dispatched
  tied := by
    intro entry member reference tied
    rcases mem_append.mp member with earlier | last
    · exact coherent.tied entry earlier reference tied
    · obtain rfl := mem_singleton.mp last
      simp at tied
  named := by
    intro entry member
    rcases mem_append.mp member with earlier | last
    · exact coherent.named entry earlier
    · obtain rfl := mem_singleton.mp last
      cases replayed with
      | none => exact ordinary rfl
      | some replay => exact ⟨replay.1, rfl⟩
  chronicled := ⟨coherent.chronicled.sorted, coherent.chronicled.listed⟩

variable {earlier : List (PendingEntry Client)} {reference : Nat} {direction : HistoryDirection}

variable {last newest : PendingEntry Client} {rest : List Frame}

/-- The newest entry may leave the queue when it has no record. -/
theorem coherent_dropLast (coherent : replica.Coherent env)
    (pending : replica.pending = earlier ++ [last]) (untied : last.record = none) :
    { replica with pending := earlier }.Coherent env where
  matched := matchedFrom_of_append (pending ▸ coherent.matched) (by simp [untied])
  dispatched := by
    have before := coherent.dispatched
    rw [pending, dispatchedRecords_append, dispatchedRecords_of_untied untied, append_nil]
      at before
    exact before
  tied := by
    intro entry member
    exact coherent.tied entry (by rw [pending]; exact mem_append_left _ member)
  named := by
    intro entry member
    exact coherent.named entry (by rw [pending]; exact mem_append_left _ member)
  chronicled := ⟨coherent.chronicled.sorted, coherent.chronicled.listed⟩

theorem coherent_concat (coherent : replica.Coherent env)
    (queued : next.pending = replica.pending ++ [newest]) (tied : newest.record = some reference)
    (others : ∀ other, other < replica.records.length →
      other ≠ reference → next.records[other]? = replica.records[other]?)
    (grown : replica.records.length ≤ next.records.length)
    (matching : ∃ record, next.records[reference]? = some record ∧ newest.Matches env record)
    (named : newest.Named) (fresh : newest.recorded = none →
      ∀ other ∈ dispatchedRecords replica.pending, other < reference)
    (chronicled : next.Chronicled) : next.Coherent env where
  matched := by
    rw [queued]
    exact matchedFrom_concat coherent.matched tied
      (fun other apart bound => others other bound apart) coherent.tied matching
  dispatched := by
    rw [queued, dispatchedRecords_append]
    cases ordinary : newest.recorded with
    | some ops =>
      rw [dispatchedRecords_of_recorded ordinary, append_nil]
      exact coherent.dispatched
    | none =>
      rw [dispatchedRecords_of_tied ordinary tied]
      apply pairwise_append.mpr
      refine ⟨coherent.dispatched, pairwise_singleton _ _, ?_⟩
      intro other member final same
      rw [mem_singleton.mp same]
      exact fresh ordinary other member
  tied := by
    intro entry member other same
    rw [queued] at member
    rcases mem_append.mp member with before | final
    · exact Nat.lt_of_lt_of_le (coherent.tied entry before other same) grown
    · obtain rfl := mem_singleton.mp final
      obtain rfl : reference = other := Option.some.inj (tied.symm.trans same)
      obtain ⟨record, found, _⟩ := matching
      exact (List.getElem?_eq_some_iff.mp found).1
  named := by
    intro entry member
    rw [queued] at member
    rcases mem_append.mp member with before | final
    · exact coherent.named entry before
    · obtain rfl := mem_singleton.mp final
      exact named
  chronicled := chronicled

/-! ## Rebasing -/

/-- Every entry of the queue is tied to a record. -/
def Complete (replica : Replica Client) : Prop :=
  ∀ entry ∈ replica.pending, ∃ reference, entry.record = some reference

/-- A rebase in the middle of its loop: the survivors are in the queue, and the
entries that remain are as coherent as they were before. -/
structure Rebasing (env : SessionEnvironment Authority) (replica : Replica Client)
    (remaining : List (PendingEntry Client)) : Prop where
  coherent : replica.Coherent env
  complete : replica.Complete
  awaiting : ∀ entry ∈ remaining, ∃ reference, entry.record = some reference ∧
    reference < replica.records.length
  named : ∀ entry ∈ remaining, entry.Named
  dispatched : (dispatchedRecords (replica.pending ++ remaining)).Pairwise (· < ·)

section Rebases

variable {entry : PendingEntry Client} {rest : List (PendingEntry Client)}

theorem rebasing_drop (rebasing : Rebasing env replica (entry :: rest))
    (coherent : next.Coherent env) (pending : next.pending = replica.pending)
    (records : next.records = replica.records) : Rebasing env next rest where
  coherent := coherent
  complete := by
    unfold Complete
    rw [pending]
    exact rebasing.complete
  awaiting := by
    intro later member
    rw [records]
    exact rebasing.awaiting later (mem_cons_of_mem _ member)
  named := fun later member => rebasing.named later (mem_cons_of_mem _ member)
  dispatched := by
    rw [pending]
    exact rebasing.dispatched.sublist
      ((List.Sublist.append_left (sublist_cons_self entry rest) _).filterMap _)

/-- The record of a re-executed entry is what the execution recorded. -/
theorem matches_survivor (forward inverse : List PatchOp) {newest : PendingEntry Client}
    (named : newest.Named) (predicted : newest.predicted = toWirePatch forward) : newest.Matches env
      (if newest.origin = "session.undo" then ⟨inverse, forward⟩ else ⟨forward, inverse⟩) := by
  unfold PendingEntry.Matches
  unfold PendingEntry.Named at named
  cases recorded : newest.recorded with
  | none =>
    rw [recorded] at named
    rw [if_neg (show newest.origin ≠ "session.undo" from named)]
    exact predicted
  | some ops =>
    rw [recorded] at named
    obtain ⟨direction, origin⟩ := named
    refine ⟨direction, origin, .inl ?_⟩
    rw [origin, predicted]
    cases direction <;> rfl

/-- An entry that survives is tied to the record it was tied to, rewritten. -/
theorem rebasing_survive (rebasing : Rebasing env replica (entry :: rest)) (store : DocumentStore)
    (invocation : CommandInvocation) (forward inverse : List PatchOp) :
    Rebasing env (replica.survive entry store invocation forward inverse) rest := by
  obtain ⟨reference, tied, bound⟩ := rebasing.awaiting entry mem_cons_self
  have named := rebasing.named entry mem_cons_self
  have records : (replica.survive entry store invocation forward inverse).records =
      replica.records.set reference
        (if entry.origin = "session.undo" then ⟨inverse, forward⟩ else ⟨forward, inverse⟩) := by
    simp [survive, rewriteRecord, tied]
  have length : (replica.survive entry store invocation forward inverse).records.length =
      replica.records.length := by
    rw [records, length_set]
  obtain ⟨newest, same⟩ : ∃ newest, (replica.survive entry store invocation forward inverse).pending =
      replica.pending ++ [newest] ∧ newest.record = entry.record ∧
      newest.recorded = entry.recorded ∧ newest.origin = entry.origin ∧
      newest.predicted = toWirePatch forward := ⟨_, rfl, rfl, rfl, rfl, rfl⟩
  obtain ⟨queued, record, recorded, origin, predicted⟩ := same
  have newestNamed : newest.Named := by
    unfold PendingEntry.Named at named ⊢
    rw [recorded, origin]
    exact named
  have alike : dispatchedRecords [newest] = dispatchedRecords [entry] := by
    simp only [dispatchedRecords, filterMap_cons, record, recorded]
  have before := rebasing.dispatched
  rw [append_cons, dispatchedRecords_append, dispatchedRecords_append] at before
  constructor
  · apply coherent_concat rebasing.coherent queued (record.trans tied)
    · intro other _ apart
      rw [records]
      exact getElem?_set_ne (Ne.symm apart)
    · exact Nat.le_of_eq length.symm
    · refine ⟨_, ?_, origin ▸ matches_survivor forward inverse newestNamed predicted⟩
      rw [records]
      exact getElem?_set_self bound
    · exact newestNamed
    · intro ordinary other member
      rw [← alike, dispatchedRecords_of_tied ordinary (record.trans tied)] at before
      exact (pairwise_append.mp (pairwise_append.mp before).1).2.2 other member reference
        (mem_singleton.mpr rfl)
    · exact rebasing.coherent.chronicled.sublist (List.Sublist.refl _) (List.Sublist.refl _) length
  · intro survivor member
    rw [queued] at member
    rcases mem_append.mp member with earlier | last
    · exact rebasing.complete survivor earlier
    · obtain rfl := mem_singleton.mp last
      exact ⟨reference, record.trans tied⟩
  · intro later member
    rw [length]
    exact rebasing.awaiting later (mem_cons_of_mem _ member)
  · exact fun later member => rebasing.named later (mem_cons_of_mem _ member)
  · rw [queued, dispatchedRecords_append, dispatchedRecords_append, alike]
    exact before

theorem rebasing_reexecute (rebasing : Rebasing env replica (entry :: rest))
    (oldDoc : Option Json) : Rebasing env (replica.reexecute env oldDoc entry).1 rest := by
  rcases reexecute_cases env oldDoc replica entry with ⟨_, conflicts, dropped⟩ |
    ⟨doc, forward, inverse, diagnostics, _, _, survived⟩
  · rw [dropped]
    apply rebasing_drop rebasing (coherent_removeRecord rebasing.coherent entry.record)
    all_goals cases entry.record <;> rfl
  · rw [survived]
    exact rebasing_survive rebasing _ _ forward inverse

theorem rebasing_rebaseLoop (oldDoc : Option Json) (entries : List (PendingEntry Client × Bool))
    (rebasing : Rebasing env replica (entries.map Prod.fst)) :
    Rebasing env (rebaseLoop env oldDoc replica entries).1 [] := by
  induction entries generalizing oldDoc replica with
  | nil => exact rebasing
  | cons marked rest ih =>
    obtain ⟨entry, skipped⟩ := marked
    cases skipped with
    | true => exact ih _ (rebasing_drop rebasing rebasing.coherent rfl rfl)
    | false => exact ih _ (rebasing_reexecute rebasing oldDoc)

/-- A rebase keeps the queue and the history coherent. -/
theorem coherent_rebase {oldGround : Json} {skipped : Nat → PendingEntry Client → Bool}
    (coherent : replica.Coherent env) (complete : replica.Complete)
    (rebased : replica.rebase env oldGround skipped = .done next ∨
      replica.rebase env oldGround skipped = .threw next) : next.Coherent env ∧ next.Complete := by
  rcases rebased with done | threw
  · obtain ⟨store, _, made⟩ := rebase_eq_done done
    have start : Rebasing env { replica with store, pending := [] }
        ((replica.pending.mapIdx fun position entry => (entry, skipped position entry)).map
          Prod.fst) := by
      have same : (replica.pending.mapIdx fun position entry => (entry, skipped position entry)).map
          Prod.fst = replica.pending := by
        apply ext_getElem?
        intro position
        simp [getElem?_mapIdx, Option.map_map, Function.comp_def]
      rw [same]
      constructor
      · exact coherent_of_empty ⟨coherent.chronicled.sorted, coherent.chronicled.listed⟩ rfl
      · simp [Complete]
      · intro entry member
        obtain ⟨reference, tied⟩ := complete entry member
        exact ⟨reference, tied, coherent.tied entry member reference tied⟩
      · exact coherent.named
      · exact coherent.dispatched
    have ended := rebasing_rebaseLoop (some oldGround) _ start
    rw [made]
    exact ⟨ended.coherent.congr rfl rfl rfl rfl, ended.complete⟩
  · obtain ⟨rfl, _⟩ := rebase_eq_threw threw
    exact ⟨coherent_of_empty ⟨coherent.chronicled.sorted, coherent.chronicled.listed⟩ rfl,
      by simp [Complete]⟩

end Rebases

/-! ## Local calls -/

/-- A record goes between the stacks: everything to undo is older, and everything to
redo is newer. -/
def Between (replica : Replica Client) (reference : Nat) : Prop :=
  (replica.undoStack.reverse ++ reference :: replica.redoStack).Pairwise (· < ·)

/-- What a waiting call will find when its notification returns: the entry that it
queued is the last one and has no record yet. -/
def Framed (env : SessionEnvironment Authority) (replica : Replica Client) : List Frame → Prop
  | [] => replica.Complete
  | [.dispatch forward _] =>
    ∃ earlier last, replica.pending = earlier ++ [last] ∧
      (∀ entry ∈ earlier, ∃ reference, entry.record = some reference) ∧
      last.record = none ∧ last.recorded = none ∧ last.predicted = toWirePatch forward
  | [.replay _ reference] =>
    ∃ earlier last record, replica.pending = earlier ++ [last] ∧
      (∀ entry ∈ earlier, ∃ reference, entry.record = some reference) ∧
      last.record = none ∧ last.recorded ≠ none ∧ replica.records[reference]? = some record ∧
      last.Matches env record ∧ replica.Between reference
  | _ => False

theorem tie_concat (pending : replica.pending = earlier ++ [last]) (reference : Nat) :
    replica.tie reference = some { replica with
      pending := earlier ++ [{ last with record := some reference }] } := by
  simp [tie, pending]

/-- Tying the last entry ties all of them. -/
theorem complete_concat (queued : next.pending = earlier ++ [newest])
    (complete : ∀ entry ∈ earlier, ∃ reference, entry.record = some reference)
    (tied : newest.record = some reference) : next.Complete := by
  intro entry member
  rw [queued] at member
  rcases mem_append.mp member with before | last
  · exact complete entry before
  · obtain rfl := mem_singleton.mp last
    exact ⟨reference, tied⟩

/-- The end of a dispatch ties the record it creates to the entry it queued. -/
theorem coherent_finishDispatch {forward inverse : List PatchOp} (coherent : replica.Coherent env)
    (framed : replica.Framed env (.dispatch forward inverse :: rest)) :
    (replica.finishDispatch forward inverse).Coherent env ∧
      (replica.finishDispatch forward inverse).Framed env rest := by
  cases rest with
  | cons other rest => cases other <;> exact framed.elim
  | nil =>
    obtain ⟨earlier, last, pending, complete, untied, ordinary, predicted⟩ := framed
    have fresh : ∀ reference ∈ replica.undoStack, reference < replica.records.length :=
      fun reference member => coherent.chronicled.listed reference (mem_append_left _ member)
    unfold finishDispatch
    dsimp only
    rw [tie_concat pending]
    dsimp only
    constructor
    · apply coherent_concat (coherent_dropLast coherent pending untied) rfl rfl
      · intro other bound _
        exact getElem?_append_left bound
      · simp
      · refine ⟨⟨forward, inverse⟩, getElem?_concat_length, ?_⟩
        unfold PendingEntry.Matches
        rw [ordinary]
        exact predicted
      · exact coherent.named last (by simp [pending])
      · intro _ other member
        obtain ⟨entry, among, tied⟩ := mem_dispatchedRecords member
        exact coherent.tied entry (by rw [pending]; exact mem_append_left _ among) other tied
      · have pushed : (DocumentStore.pushBounded replica.maxUndo replica.records.length
            replica.undoStack).Sublist (replica.records.length :: replica.undoStack) := by
          unfold DocumentStore.pushBounded
          split
          · exact dropLast_sublist _
          · exact List.Sublist.refl _
        constructor
        · rw [append_nil]
          apply List.Pairwise.sublist pushed.reverse
          rw [reverse_cons, pairwise_append]
          refine ⟨(pairwise_append.mp coherent.chronicled.sorted).1, pairwise_singleton _ _, ?_⟩
          intro reference member newest same
          rw [mem_singleton.mp same]
          exact fresh reference (mem_reverse.mp member)
        · intro reference member
          rw [append_nil] at member
          have known := pushed.subset member
          simp only [length_append, length_singleton]
          rcases mem_cons.mp known with rfl | before
          · exact Nat.lt_succ_self _
          · exact Nat.lt_succ_of_lt (fresh reference before)
    · exact complete_concat rfl complete rfl

theorem between_setStack {rest : List Nat} (chronicled : replica.Chronicled)
    (popped : replica.stack direction = reference :: rest) :
    (replica.setStack direction rest).Chronicled ∧
      (replica.setStack direction rest).Between reference ∧ reference < replica.records.length := by
  cases direction with
  | undo =>
    have stack : replica.undoStack = reference :: rest := popped
    have sorted := chronicled.sorted
    have listed := chronicled.listed
    rw [stack] at sorted listed
    refine ⟨⟨?_, ?_⟩, ?_, listed reference (by simp)⟩
    · exact List.Pairwise.sublist
        (List.Sublist.append_right (sublist_cons_self reference rest).reverse _) sorted
    · intro other member
      exact listed other (mem_cons_of_mem _ member)
    · simpa [Between, setStack, append_assoc] using sorted
  | redo =>
    have stack : replica.redoStack = reference :: rest := popped
    have sorted := chronicled.sorted
    have listed := chronicled.listed
    rw [stack] at sorted listed
    refine ⟨⟨?_, ?_⟩, sorted, listed reference (by simp)⟩
    · exact List.Pairwise.sublist
        (List.Sublist.append_left (sublist_cons_self reference rest) _) sorted
    · intro other member
      apply listed other
      rcases mem_append.mp member with undo | redo
      · exact mem_append_left _ undo
      · exact mem_append_right _ (mem_cons_of_mem _ redo)

/-- A record between the stacks may be pushed onto either of them. -/
theorem chronicled_pushOpposite (chronicled : replica.Chronicled)
    (between : replica.Between reference) (bound : reference < replica.records.length) :
    (replica.pushOpposite direction reference).Chronicled := by
  have member {other : Nat} (among : other ∈ replica.undoStack.reverse ++ reference :: replica.redoStack) :
      other < replica.records.length := by
    rcases mem_append.mp among with undo | rest
    · exact chronicled.listed other (mem_append_left _ (mem_reverse.mp undo))
    · rcases mem_cons.mp rest with rfl | redo
      · exact bound
      · exact chronicled.listed other (mem_append_right _ redo)
  cases direction with
  | undo =>
    refine ⟨between, ?_⟩
    intro other among
    apply member
    simpa [pushOpposite] using among
  | redo =>
    constructor
    · simpa [Between, pushOpposite, append_assoc] using between
    · intro other among
      apply member
      have known : other = reference ∨ other ∈ replica.undoStack ∨ other ∈ replica.redoStack := by
        simpa [pushOpposite, or_assoc] using among
      rcases known with rfl | undo | redo
      · simp
      · simp [undo]
      · simp [redo]

/-- The end of a replay ties the record it replayed to the entry it queued. -/
theorem coherent_finishReplay (coherent : replica.Coherent env)
    (framed : replica.Framed env (.replay direction reference :: rest)) :
    (replica.finishReplay direction reference).Coherent env ∧
      (replica.finishReplay direction reference).Framed env rest := by
  cases rest with
  | cons other rest => cases other <;> exact framed.elim
  | nil =>
    obtain ⟨earlier, last, record, pending, complete, untied, replayed, found, matching, between⟩ :=
      framed
    have bound := (List.getElem?_eq_some_iff.mp found).1
    have chronicled : ({ replica with pending := earlier ++ [{ last with
        record := some reference }] } : Replica Client).Chronicled :=
      ⟨coherent.chronicled.sorted, coherent.chronicled.listed⟩
    unfold finishReplay
    rw [tie_concat pending]
    dsimp only
    have records {other : Replica Client} :
        (other.pushOpposite direction reference).records = other.records := by
      cases direction <;> rfl
    have queue {other : Replica Client} :
        (other.pushOpposite direction reference).pending = other.pending := by
      cases direction <;> rfl
    constructor
    · apply coherent_concat (coherent_dropLast coherent pending untied) queue rfl
      · intro other _ _
        rw [records]
      · exact Nat.le_of_eq (by rw [records])
      · refine ⟨record, ?_, matching⟩
        rw [records]
        exact found
      · exact coherent.named last (by simp [pending])
      · intro ordinary
        exact absurd ordinary replayed
      · exact chronicled_pushOpposite chronicled between bound
    · exact complete_concat queue complete rfl

/-- Asking for a replay either leaves the queue alone, or queues an entry that matches
the record it replays. -/
theorem coherent_beginReplay {tied : Option Nat} (coherent : replica.Coherent env)
    (complete : replica.Complete) (begun : replica.beginReplay env direction = (next, tied)) :
    next.Coherent env ∧
      match tied with
      | none => next.Complete
      | some reference => next.Framed env [.replay direction reference] := by
  -- What does not commit leaves the queue and the records alone.
  have still {other : Replica Client} (records : other.records = replica.records)
      (pending : other.pending = replica.pending) (chronicled : other.Chronicled) :
      other.Coherent env ∧ other.Complete := by
    refine ⟨coherent.withStacks records pending chronicled, ?_⟩
    unfold Complete
    rw [pending]
    exact complete
  have sameRecords (stack : List Nat) :
      (replica.setStack direction stack).records = replica.records := by
    cases direction <;> rfl
  have samePending (stack : List Nat) :
      (replica.setStack direction stack).pending = replica.pending := by
    cases direction <;> rfl
  have begins := begins_beginReplay env replica direction
  rw [begun] at begins
  cases begins with
  | nothing _ => exact ⟨coherent, complete⟩
  | @dropped reference rest stacked conflicts =>
    obtain ⟨popped, _, _⟩ := between_setStack coherent.chronicled stacked
    exact still (sameRecords rest) (samePending rest) ⟨popped.sorted, popped.listed⟩
  | @clamped reference rest stacked =>
    obtain ⟨popped, between, bound⟩ := between_setStack coherent.chronicled stacked
    refine still ?_ ?_ (chronicled_pushOpposite popped between ((sameRecords rest).symm ▸ bound))
    all_goals cases direction <;> rfl
  | @queued reference rest record result applied stamped doc forward inverse diagnostics stacked
      found replayed stamps executed changed =>
      obtain ⟨popped, between, _⟩ := between_setStack coherent.chronicled stacked
      have made : Replayed env replica.doc (record.replayed direction) forward :=
        ⟨result, applied, _, _, doc, inverse, diagnostics, replayed, stamps, executed⟩
      refine ⟨coherent_enqueue (still (sameRecords rest) (samePending rest) popped).1 _ _ _ forward
        (by simp), ?_⟩
      refine ⟨replica.pending, _, record, congrArg (· ++ _) (samePending rest), complete, rfl,
        by simp, ?_, ?_, ?_⟩
      · rw [← sameRecords rest] at found
        exact found
      · exact ⟨direction, rfl, .inr ⟨rfl, replica.doc, forward, made, rfl⟩⟩
      · exact between

theorem coherent_tail {head : PendingEntry Client} {rest : List (PendingEntry Client)}
    (coherent : replica.Coherent env) (pending : replica.pending = head :: rest)
    (records : next.records = replica.records) (queued : next.pending = rest)
    (undoStack : next.undoStack = replica.undoStack)
    (redoStack : next.redoStack = replica.redoStack) : next.Coherent env where
  matched := by
    rw [records, queued]
    exact (pending ▸ coherent.matched).2
  dispatched := by
    have before := coherent.dispatched
    rw [pending, ← singleton_append, dispatchedRecords_append] at before
    rw [queued]
    exact (pairwise_append.mp before).2.1
  tied := by
    intro entry member
    rw [records]
    exact coherent.tied entry (by rw [pending]; exact mem_cons_of_mem _ (queued ▸ member))
  named := by
    intro entry member
    exact coherent.named entry (by rw [pending]; exact mem_cons_of_mem _ (queued ▸ member))
  chronicled := by
    have sorted := coherent.chronicled.sorted
    have listed := coherent.chronicled.listed
    rw [← undoStack, ← redoStack] at sorted listed
    rw [← records] at listed
    exact ⟨sorted, listed⟩

end Replica

end Dinkster.Collab
