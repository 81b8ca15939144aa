import Dinkster.Execution.Entries

/-!
# What a call can do to a store

A call writes at most one entry.  What it writes fits the side sets and leaves a final verdict
alone.  Unless the budget of previews is enforced afterwards, no bytes that count are added, and
unless the cap of entries is, no entry becomes one that may go.
-/

namespace Dinkster.Execution

open Library Format Option
open Bool (and_eq_true eq_false_iff or_eq_true)

namespace ExecutionStore

def Observes (store : ExecutionStore) (key : String) (status : ExecutionStatus) (time : Rat) :
    Call → Prop
  | .apply event =>
    key = executionKey event.execution ∧ event.body.verdict = some status ∧
      time = event.timestamp ∧
      ∀ state, store.map.get key = some state → store.isAuthoritativeTerminal state = false
  | .restoreCompleted run =>
    key = executionKey run.ref ∧ status = .completed ∧ time = run.endedAt ∧
      store.map.get key = none
  | _ => False

/-- A call says that an execution of a client runs. -/
def Vouches (key : String) : Call → Prop
  | .register ref _ _ _ _ => key = executionKey ref
  | .apply event => key = executionKey event.execution ∧ event.starts = true
  | _ => False

structure Written (store : ExecutionStore) (call : Call) (next : ExecutionState)
    (written : ExecutionStore) : Prop where
  map : written.map = store.map.set next.key next
  keyed : next.key = executionKey next.ref
  retained : written.retained = store.retained
  unconfirmed : ∀ key, key ≠ next.key →
    (key ∈ written.unconfirmed ↔ key ∈ store.unconfirmed)
  vouched : next.key ∈ written.unconfirmed → (store.map.get next.key).isSome →
    next.key ∈ store.unconfirmed
  lost : ∀ key, key ≠ next.key →
    (key ∈ written.provisionallyLost ↔ key ∈ store.provisionallyLost)
  buried : ∀ key, key ∈ written.recentlyEvicted → key ∈ store.recentlyEvicted ∧ key ≠ next.key
  verdict : CarriesLost next.errors ↔ next.key ∈ written.provisionallyLost
  interrupted : next.key ∈ written.provisionallyLost → next.status = .interrupted
  settled : ∀ state, store.map.get next.key = some state →
    store.isAuthoritativeTerminal state = true →
      next.status = state.status ∧ next.endedAt = state.endedAt ∧
        next.key ∉ written.provisionallyLost
  observed : ∀ {key status time}, store.Observes key status time call →
    key = next.key ∧ next.status = status ∧ next.endedAt = some time ∧
      next.key ∉ written.provisionallyLost
  vouches : ∀ {key}, Vouches key call →
    key = next.key ∧ next.key ∉ written.unconfirmed ∧
      (store.map.get next.key = none → next.status.isTerminal = false)

/-- The entry that is written may go only where the one before it might. -/
def Calm (store : ExecutionStore) (next : ExecutionState) (written : ExecutionStore) : Prop :=
  ∃ state, store.map.get next.key = some state ∧
    (written.isEvictable next = true → store.isEvictable state = true)

/-- The entry that is written counts no more bytes than the one before it. -/
def Still (store : ExecutionStore) (next : ExecutionState) (written : ExecutionStore) : Prop :=
  written.isBudgeted next = true → previewBytesOf next = 0 ∨
    ∃ state, store.map.get next.key = some state ∧ store.isBudgeted state = true ∧
      previewBytesOf next = previewBytesOf state

def sweep (enforces evicts : Bool) (connection : String) (store : ExecutionStore) :
    ExecutionStore :=
  let store := if enforces then store.enforcePreviewBudget connection else store
  if evicts then store.evictExecutionEntries connection else store

inductive Outcome (store : ExecutionStore) (call : Call) : ExecutionStore → Prop
  | unwritten {left : ExecutionStore} (map : left.map = store.map)
      (unconfirmed : left.unconfirmed = store.unconfirmed)
      (lost : left.provisionallyLost = store.provisionallyLost)
      (buried : left.recentlyEvicted = store.recentlyEvicted)
      (pinned : ∀ key, (store.retained.get key).isSome → (left.retained.get key).isSome)
      (unobserved : ∀ {key status time}, store.Observes key status time call →
        store.map.get key = none)
      (unvouched : ∀ {key}, ¬ Vouches key call) :
      Outcome store call left
  | released (ref : ExecutionRef) (retained : Table Nat)
      (pinned : ∀ key, key ≠ executionKey ref → retained.get key = store.retained.get key)
      (unobserved : ∀ {key status time}, ¬ store.Observes key status time call)
      (unvouched : ∀ {key}, ¬ Vouches key call) :
      Outcome store call
        ({ store with retained }.evictExecutionEntries ref.connection)
  | written {next : ExecutionState} {written : ExecutionStore} (enforces evicts : Bool)
      (wrote : Written store call next written)
      (still : enforces = false → Still store next written)
      (calm : evicts = false → Calm store next written)
      (ends : evicts = true → (store.map.get next.key).isSome →
        ∃ event, call = .apply event ∧ executionKey event.execution = next.key ∧
          event.body.verdict = some next.status) :
      Outcome store call (sweep enforces evicts next.ref.connection written)

/-! ## Events -/

/-- The side sets after an event was noted. -/
structure Noted (store : ExecutionStore) (key : String) (noted : ExecutionStore) : Prop where
  map : ∀ state : ExecutionState, noted.map.set key state = store.map.set key state
  lost : noted.provisionallyLost = store.provisionallyLost
  retained : noted.retained = store.retained
  unconfirmed : ∀ other, other ≠ key → (other ∈ noted.unconfirmed ↔ other ∈ store.unconfirmed)
  vouched : key ∈ noted.unconfirmed → (store.map.get key).isSome → key ∈ store.unconfirmed
  buried : ∀ other, other ∈ noted.recentlyEvicted → other ∈ store.recentlyEvicted ∧ other ≠ key

section Events

variable {store noted : ExecutionStore} {event : ExecutionEvent} {state : ExecutionState}
  {change : Change} {call : Call}

def putChange (noted : ExecutionStore) (state : ExecutionState) (change : Change) :
    ExecutionStore :=
  { noted with
    provisionallyLost :=
      if change.clears then dropKey noted.provisionallyLost state.key
      else noted.provisionallyLost }.put change.next

theorem mem_lost_putChange (key : String) : key ∈ (noted.putChange state change).provisionallyLost ↔
      key ∈ noted.provisionallyLost ∧ ¬ (change.clears = true ∧ key = state.key) := by
  unfold putChange put
  dsimp only
  split
  · rename_i clears
    rw [mem_dropKey, clears, and_iff_right rfl]
  · rename_i keeps
    exact (and_iff_left fun both => keeps both.1).symm

theorem Written.of_effect (noted_of : Noted store state.key noted)
    (keyed : state.key = executionKey state.ref)
    (known : ∀ old, store.map.get state.key = some old → old = state)
    (verdict : CarriesLost state.errors ↔ state.key ∈ store.provisionallyLost)
    (interrupted : state.key ∈ store.provisionallyLost → state.status = .interrupted)
    (effect : Effect (state.key ∈ store.provisionallyLost) (state.key ∈ noted.unconfirmed) event
      state change) (observed : ∀ {key status time}, store.Observes key status time call →
      key = state.key ∧ time = event.timestamp ∧ change.next.status = status ∧
        change.after = .terminal)
    (vouches : ∀ {key}, Vouches key call → key = state.key ∧ state.key ∉ noted.unconfirmed ∧
      (store.map.get state.key = none → state.status.isTerminal = false) ∧
        change.after ≠ .terminal) :
    Written store call change.next (noted.putChange state change) := by
  have gone : state.key ∈ (noted.putChange state change).provisionallyLost ↔
      state.key ∈ store.provisionallyLost ∧ change.clears = false := by
    rw [mem_lost_putChange, noted_of.lost]
    simp
  refine ⟨?_, by rw [effect.key, effect.ref, keyed], noted_of.retained, fun key other => ?_,
    fun listed found => ?_, fun key other => ?_, fun key listed => ?_, ?_, fun listed => ?_,
    fun old found final => ?_, fun reports => ?_, fun vouched => ?_⟩
  · rw [effect.key]
    unfold putChange put
    dsimp only
    rw [effect.key]
    exact noted_of.map change.next
  · exact noted_of.unconfirmed key (effect.key ▸ other)
  · rw [effect.key] at listed found ⊢
    exact noted_of.vouched listed found
  · rw [mem_lost_putChange, noted_of.lost]
    exact and_iff_left fun both => other (both.2.trans effect.key.symm)
  · rw [effect.key]
    exact noted_of.buried key listed
  · rw [effect.errors, verdict, effect.key, gone]
    simp +contextual
  · rw [effect.key] at listed
    obtain ⟨before, keeps⟩ := gone.mp listed
    exact effect.lost_kept keeps (interrupted before)
  · rw [effect.key] at found
    cases known old found
    unfold isAuthoritativeTerminal at final
    rw [and_eq_true, decide_eq_true_eq] at final
    obtain ⟨status, endedAt, _⟩ := effect.settled final.1 (decide_eq_false final.2)
    refine ⟨status, endedAt, ?_⟩
    rw [effect.key]
    exact fun listed => final.2 (gone.mp listed).1
  · obtain ⟨rfl, rfl, status, after⟩ := observed reports
    obtain ⟨_, endedAt, clears⟩ := effect.ends after
    refine ⟨effect.key.symm, status, endedAt, ?_⟩
    rw [effect.key]
    intro listed
    rw [(gone.mp listed).2] at clears
    cases clears
  · obtain ⟨rfl, out, fresh, after⟩ := vouches vouched
    rw [effect.key]
    refine ⟨rfl, out, fun missing => eq_false_iff.mpr fun final => ?_⟩
    rw [(effect.calm after final).1] at fresh
    cases fresh missing

theorem Written.of_kept (noted_of : Noted store state.key noted)
    (map : noted.map = store.map.set state.key state) (keyed : state.key = executionKey state.ref)
    (kept : ∀ old, store.map.get state.key = some old →
      old.key = state.key ∧ state.status = old.status ∧ state.endedAt = old.endedAt)
    (verdict : CarriesLost state.errors ↔ state.key ∈ store.provisionallyLost)
    (interrupted : state.key ∈ store.provisionallyLost → state.status = .interrupted)
    (unobserved : ∀ {key status time}, ¬ store.Observes key status time call)
    (vouches : ∀ {key}, Vouches key call → key = state.key ∧ state.key ∉ noted.unconfirmed ∧
      (store.map.get state.key = none → state.status.isTerminal = false)) :
    Written store call state noted := by
  refine ⟨map, keyed, noted_of.retained, noted_of.unconfirmed, noted_of.vouched,
    fun key _ => ?_, noted_of.buried, ?_, fun listed => ?_, fun old found final => ?_,
    fun reports => absurd reports unobserved, vouches⟩
  · rw [noted_of.lost]
  · rw [noted_of.lost]
    exact verdict
  · exact interrupted (noted_of.lost ▸ listed)
  · obtain ⟨key, status, endedAt⟩ := kept old found
    unfold isAuthoritativeTerminal at final
    rw [and_eq_true, decide_eq_true_eq, key] at final
    refine ⟨status, endedAt, ?_⟩
    rw [noted_of.lost]
    exact final.2

section Known

variable (noted_of : Noted store state.key noted) (found : store.map.get state.key = some state)
  (effect : Effect (state.key ∈ store.provisionallyLost) (state.key ∈ noted.unconfirmed) event
    state change)

include noted_of effect

/-- A known entry that becomes final was final. -/
theorem final_of_effect (after : change.after ≠ .terminal)
    (final : (noted.putChange state change).isAuthoritativeTerminal change.next = true) :
    store.isAuthoritativeTerminal state = true := by
  unfold isAuthoritativeTerminal at final ⊢
  rw [and_eq_true, decide_eq_true_eq, effect.key, mem_lost_putChange, noted_of.lost] at final
  obtain ⟨terminal, cleared⟩ := final
  obtain ⟨before, keeps⟩ := effect.calm after terminal
  rw [and_eq_true, decide_eq_true_eq]
  refine ⟨before, fun gone => cleared ⟨gone, fun both => ?_⟩⟩
  rw [keeps (decide_eq_true gone)] at both
  cases both.1

include found

theorem Calm.of_effect (after : change.after ≠ .terminal) :
    Calm store change.next (noted.putChange state change) := by
  refine ⟨state, effect.key ▸ found, fun evictable => ?_⟩
  unfold isEvictable at evictable ⊢
  rw [and_eq_true, or_eq_true, decide_eq_true_eq, effect.key] at evictable
  rw [and_eq_true, or_eq_true, decide_eq_true_eq]
  obtain ⟨free, unpinned⟩ := evictable
  refine ⟨free.imp (final_of_effect noted_of effect after) fun listed => ?_, ?_⟩
  · exact noted_of.vouched listed (by rw [found]; rfl)
  · rw [← noted_of.retained]
    exact unpinned

theorem Still.of_effect (after : change.after = .nothing) :
    Still store change.next (noted.putChange state change) := by
  intro counts
  unfold isBudgeted at counts
  rw [or_eq_true, decide_eq_true_eq, effect.key] at counts
  change change.next.status.isTerminal = true ∨ state.key ∈ noted.unconfirmed at counts
  cases effect.still after with
  | inl same =>
    refine .inr ⟨state, effect.key ▸ found, ?_, same⟩
    unfold isBudgeted
    rw [or_eq_true, decide_eq_true_eq]
    refine counts.imp (fun terminal => ?_) fun listed => ?_
    · exact (effect.calm (by rw [after]; exact nofun) terminal).1
    · exact noted_of.vouched listed (by rw [found]; rfl)
  | inr uncounted =>
    obtain ⟨running, confirmed, status⟩ := uncounted
    rw [status, running] at counts
    exact absurd (counts.resolve_left Bool.false_ne_true) (of_decide_eq_false confirmed)

end Known

/-- A new entry holds no bytes that count, unless the budget is enforced. -/
theorem Still.of_bare
    (effect : Effect (state.key ∈ store.provisionallyLost) (state.key ∈ noted.unconfirmed) event
      state change) (bare : previewBytesOf state = 0) (after : change.after = .nothing) :
    Still store change.next (noted.putChange state change) := by
  intro counts
  unfold isBudgeted at counts
  rw [or_eq_true, decide_eq_true_eq, effect.key] at counts
  change change.next.status.isTerminal = true ∨ state.key ∈ noted.unconfirmed at counts
  cases effect.still after with
  | inl same => exact .inl (same.trans bare)
  | inr uncounted =>
    obtain ⟨running, confirmed, status⟩ := uncounted
    rw [status, running] at counts
    exact absurd (counts.resolve_left Bool.false_ne_true) (of_decide_eq_false confirmed)

/-- `applyToState`, with the enforcements apart. -/
theorem applyToState_eq (place : state.ref = event.execution) : noted.applyToState event state =
      match transition (state.key ∈ noted.provisionallyLost) (state.key ∈ noted.unconfirmed) event
          state with
      | none => noted
      | some change =>
        sweep (change.after ≠ .nothing) (change.after = .terminal) event.execution.connection
          (noted.putChange state change) := by
  unfold applyToState
  cases transition (state.key ∈ noted.provisionallyLost) (state.key ∈ noted.unconfirmed) event
      state with
  | none => rfl
  | some change =>
    obtain ⟨next, clears, after⟩ := change
    dsimp only
    rw [place]
    cases after <;> rfl

end Events

/-! ## Calls -/

section Calls

variable {store : ExecutionStore}

/-- Nothing is left to go after an eviction. -/
theorem Tidy.sweep_evict (tidy : Tidy store) (enforces evicts : Bool) (connection : String) :
    (store.sweep enforces evicts connection).evictExecutionEntries connection =
      store.sweep enforces true connection := by
  have enforced : Tidy (if enforces then store.enforcePreviewBudget connection else store) := by
    split
    · obtain ⟨_, _, _, trimmed, _⟩ := tidy.enforcePreviewBudget connection
      exact trimmed.tidy tidy
    · exact tidy
  unfold sweep
  dsimp only
  rw [if_pos rfl]
  cases evicts with
  | false => rfl
  | true =>
    rw [if_pos rfl]
    exact (enforced.capped_evictExecutionEntries connection).evictExecutionEntries

variable {next : ExecutionState} {event : ExecutionEvent} {key : String}

theorem Written.tidy {call : Call} {written : ExecutionStore}
    (wrote : Written store call next written) (tidy : Tidy store) : Tidy written := by
  have get : ∀ key, written.map.get key =
      if next.key = key then some next else store.map.get key := fun key => by
    rw [wrote.map, Table.get_set]
  have held : ∀ {key}, (key ≠ next.key → (store.map.get key).isSome) →
      (written.map.get key).isSome := by
    intro key others
    rw [get]
    split
    · rfl
    · rename_i other
      exact others (Ne.symm other)
  refine ⟨?_, fun {key state} found => ?_, fun listed => held fun other => ?_,
    fun listed => held fun other => ?_, fun listed => ?_, fun {key state} found => ?_,
    fun {key state} found gone => ?_⟩
  · rw [wrote.map]
    exact Table.nodup_keys_set _ _ tidy.distinct
  · rw [get] at found
    split at found
    · rename_i same
      cases found
      exact ⟨same, same ▸ wrote.keyed⟩
    · exact tidy.keyed found
  · exact tidy.unconfirmed ((wrote.unconfirmed _ other).mp listed)
  · exact tidy.lost ((wrote.lost _ other).mp listed)
  · obtain ⟨before, other⟩ := wrote.buried _ listed
    rw [get, if_neg (Ne.symm other)]
    exact tidy.buried before
  · rw [get] at found
    split at found
    · rename_i same
      cases found
      exact same ▸ wrote.verdict
    · rename_i other
      rw [wrote.lost _ (Ne.symm other)]
      exact tidy.verdict found
  · rw [get] at found
    split at found
    · rename_i same
      cases found
      exact wrote.interrupted (same ▸ gone)
    · rename_i other
      exact tidy.interrupted found ((wrote.lost _ (Ne.symm other)).mp gone)

/-- The side sets of `apply`, before the event reaches an entry. -/
def note (store : ExecutionStore) (event : ExecutionEvent) : ExecutionStore :=
  let key := executionKey event.execution
  if event.starts then
    { store with
      recentlyEvicted := dropKey store.recentlyEvicted key
      unconfirmed := dropKey store.unconfirmed key }
  else if (store.map.get key).isNone then
    { store with unconfirmed := addKey store.unconfirmed key }
  else store

@[simp] theorem note_map (store : ExecutionStore) (event : ExecutionEvent) :
    (store.note event).map = store.map := by
  unfold note
  dsimp only
  split
  · rfl
  · split <;> rfl

theorem Tidy.noted (tidy : Tidy store) (event : ExecutionEvent)
    (admitted : (!event.starts && (store.map.get (executionKey event.execution)).isNone &&
      decide (executionKey event.execution ∈ store.recentlyEvicted)) = false) :
    Noted store (executionKey event.execution) (store.note event) := by
  have map : ∀ state, (store.note event).map.set (executionKey event.execution) state =
      store.map.set (executionKey event.execution) state := fun _ => by rw [note_map]
  unfold note at map ⊢
  dsimp only at map ⊢
  split
  · refine ⟨fun _ => rfl, rfl, rfl, fun other different => ?_, fun listed _ => ?_,
      fun other listed => mem_dropKey.mp listed⟩
    · exact mem_dropKey.trans (and_iff_left different)
    · exact absurd rfl (mem_dropKey.mp listed).2
  · rename_i plain
    split
    · rename_i missing
      refine ⟨fun _ => rfl, rfl, rfl, fun other different => ?_, fun _ found => ?_,
        fun other listed => ⟨listed, ?_⟩⟩
      · exact mem_addKey.trans (or_iff_left different)
      · rw [isNone_iff_eq_none.mp missing] at found
        cases found
      · rintro rfl
        rw [eq_false_iff.mpr plain, missing, decide_eq_true listed] at admitted
        cases admitted
    · rename_i known
      refine ⟨fun _ => rfl, rfl, rfl, fun _ _ => Iff.rfl, fun listed _ => listed,
        fun other listed => ⟨listed, ?_⟩⟩
      rintro rfl
      rw [tidy.buried listed] at known
      exact known rfl

theorem not_unconfirmed_note (starts : event.starts = true) :
    executionKey event.execution ∉ (store.note event).unconfirmed := by
  unfold note
  rw [if_pos starts]
  exact fun listed => absurd rfl (mem_dropKey.mp listed).2

variable {noted : ExecutionStore} {state : ExecutionState}

theorem Noted.put (noted_of : Noted store state.key noted) :
    Noted store state.key (noted.put state) :=
  ⟨fun next => (Table.set_set _ _ _ _).trans (noted_of.map next), noted_of.lost,
    noted_of.retained, noted_of.unconfirmed, noted_of.vouched, noted_of.buried⟩

/-- The side sets when a client vouches for an execution. -/
theorem noted_vouched (store : ExecutionStore) (key : String) : Noted store key { store with
      recentlyEvicted := dropKey store.recentlyEvicted key
      unconfirmed := dropKey store.unconfirmed key } :=
  ⟨fun _ => rfl, rfl, rfl, fun _ different => mem_dropKey.trans (and_iff_left different),
    fun listed _ => absurd rfl (mem_dropKey.mp listed).2, fun _ listed => mem_dropKey.mp listed⟩

theorem Tidy.noted_self (tidy : Tidy store) (found : store.map.get key = some state) :
    Noted store key store := by
  refine ⟨fun _ => rfl, rfl, rfl, fun _ _ => Iff.rfl, fun listed _ => listed,
    fun other listed => ⟨listed, ?_⟩⟩
  rintro rfl
  rw [tidy.buried listed] at found
  cases found

/-- An entry that is known gets data that neither its verdict nor its previews depend on. -/
theorem Tidy.outcome_touched (tidy : Tidy store) {call : Call}
    (found : store.map.get key = some state) (noted_of : Noted store key noted)
    (map : noted.map = store.map) (identity : next.ref = state.ref ∧ next.key = state.key)
    (status : next.status = state.status ∧ next.endedAt = state.endedAt)
    (errors : next.errors = state.errors) (bytes : previewBytesOf next = previewBytesOf state)
    (unobserved : ∀ {key status time}, ¬ store.Observes key status time call)
    (vouches : ∀ {other}, Vouches other call → other = key ∧ key ∉ noted.unconfirmed) :
    Outcome store call (noted.put next) := by
  obtain ⟨rfl, keyed⟩ := tidy.keyed found
  have found_next : store.map.get next.key = some state := identity.2 ▸ found
  have noted_next : Noted store next.key noted := identity.2 ▸ noted_of
  have isSome : (store.map.get next.key).isSome := by rw [found_next]; rfl
  have wrote : Written store call next (noted.put next) := by
    refine .of_kept noted_next.put (map ▸ rfl) (by rw [identity.1, identity.2, ← keyed])
      (fun old other => ?_) ?_ (fun listed => ?_) unobserved fun vouched => ?_
    · rw [found_next] at other
      cases other
      exact ⟨identity.2.symm, status⟩
    · rw [errors, identity.2]
      exact tidy.verdict found
    · rw [status.1]
      exact tidy.interrupted found_next listed
    · obtain ⟨rfl, out⟩ := vouches vouched
      rw [found_next, identity.2]
      exact ⟨rfl, out, nofun⟩
  refine .written false false wrote (fun _ counts => .inr ⟨state, found_next, ?_, bytes⟩)
    (fun _ => ⟨state, found_next, fun free => ?_⟩) nofun
  · unfold isBudgeted at counts ⊢
    rw [or_eq_true, decide_eq_true_eq, status.1] at counts
    rw [or_eq_true, decide_eq_true_eq, ← identity.2]
    exact counts.imp_right fun listed => noted_next.vouched listed isSome
  · unfold isEvictable isAuthoritativeTerminal at free ⊢
    rw [and_eq_true, or_eq_true, decide_eq_true_eq, status.1] at free
    rw [and_eq_true, or_eq_true, decide_eq_true_eq, ← identity.2, ← noted_of.lost,
      ← noted_of.retained]
    exact ⟨free.1.imp_right fun listed => noted_next.vouched listed isSome, free.2⟩

theorem Tidy.outcome_known (tidy : Tidy store)
    (found : store.map.get (executionKey event.execution) = some state)
    (noted_of : Noted store (executionKey event.execution) noted) (map : noted.map = store.map)
    (started : event.starts = true → executionKey event.execution ∉ noted.unconfirmed) :
    Outcome store (.apply event) (noted.applyToState event state) := by
  obtain ⟨key, keyed⟩ := tidy.keyed found
  have place : state.ref = event.execution := (executionKey_injective keyed).symm
  rw [← key] at found noted_of keyed started
  have known : ∀ old, store.map.get state.key = some old → old = state := fun old other =>
    some.inj (other.symm.trans found)
  -- A verdict on an execution that was not known to have ended reaches the entry.
  have undecided : ∀ {key status time}, store.Observes key status time (.apply event) →
      key = state.key ∧ event.body.verdict = some status ∧ time = event.timestamp ∧
        (state.status.isTerminal && !decide (state.key ∈ store.provisionallyLost)) = false := by
    rintro other status time ⟨rfl, verdict, rfl, running⟩
    have running := running state (key ▸ found)
    unfold isAuthoritativeTerminal at running
    exact ⟨key.symm, verdict, rfl, by rw [← decide_not]; exact running⟩
  rw [applyToState_eq place, noted_of.lost]
  cases made : transition (state.key ∈ store.provisionallyLost) (state.key ∈ noted.unconfirmed)
      event state with
  | none =>
    have same : noted.put state = noted := by
      unfold ExecutionStore.put
      rw [map, Table.set_of_get found, ← map]
    dsimp only
    rw [← same]
    refine tidy.outcome_touched found noted_of map ⟨rfl, rfl⟩ ⟨rfl, rfl⟩ rfl rfl
      (fun reports => ?_) fun vouched => ⟨vouched.1.trans key.symm, started vouched.2⟩
    obtain ⟨_, verdict, _, running⟩ := undecided reports
    obtain ⟨next, reached⟩ := transition_verdict (decide (state.key ∈ noted.unconfirmed))
      verdict running
    rw [made] at reached
    cases reached
  | some change =>
    have effect := transition_effect made
    dsimp only
    rw [← place, ← effect.ref]
    refine .written _ _ (.of_effect noted_of keyed known (tidy.verdict found)
      (tidy.interrupted found) effect (fun reports => ?_) fun vouched => ?_) (fun quiet => ?_)
      (fun quiet => ?_) fun evicts _ => ?_
    · obtain ⟨same, verdict, time, running⟩ := undecided reports
      obtain ⟨next, reached⟩ := transition_verdict (decide (state.key ∈ noted.unconfirmed))
        verdict running
      rw [made] at reached
      cases reached
      have ends := (effect.ends rfl).1
      rw [verdict] at ends
      exact ⟨same, time, (some.inj ends).symm, rfl⟩
    · refine ⟨vouched.1.trans key.symm, started vouched.2, fun missing => ?_,
        effect.goes_on vouched.2⟩
      rw [found] at missing
      cases missing
    · exact .of_effect noted_of found effect (by simpa using quiet)
    · exact .of_effect noted_of found effect (by simpa using quiet)
    · have ends := effect.ends (by simpa using evicts)
      exact ⟨event, rfl, by rw [effect.key, key], ends.1⟩

/-- An entry that nothing is known of yet. -/
structure Bare (event : ExecutionEvent) (created : ExecutionState) : Prop where
  place : created.ref = event.execution
  key : created.key = executionKey event.execution
  bytes : previewBytesOf created = 0
  running : created.status.isTerminal = false
  errors : created.errors = []

theorem bare_created (event : ExecutionEvent) :
    Bare event (.created event.execution event.timestamp) :=
  ⟨rfl, rfl, rfl, rfl, rfl⟩

theorem Tidy.not_lost (tidy : Tidy store) (missing : store.map.get key = none) :
    key ∉ store.provisionallyLost := by
  intro listed
  have found := tidy.lost listed
  rw [missing] at found
  cases found

section Created

variable {event : ExecutionEvent} {noted : ExecutionStore} {created : ExecutionState}
  {change : Change} (tidy : Tidy store) (bare : Bare event created)
  (missing : store.map.get created.key = none) (noted_of : Noted store created.key noted)
  (started : event.starts = true → created.key ∉ noted.unconfirmed)

include bare

theorem Bare.running_at (lost : Bool) : (created.status.isTerminal && !lost) = false := by
  rw [bare.running, Bool.false_and]

include tidy missing

theorem Bare.verdict : CarriesLost created.errors ↔ created.key ∈ store.provisionallyLost := by
  rw [bare.errors]
  exact ⟨nofun, fun listed => absurd listed (tidy.not_lost missing)⟩

include noted_of started

theorem Bare.written (made : transition (created.key ∈ store.provisionallyLost)
      (created.key ∈ (noted.put created).unconfirmed) event created = some change) :
    Written store (.apply event) change.next ((noted.put created).putChange created change) := by
  have effect := transition_effect made
  refine .of_effect noted_of.put (bare.key.trans (by rw [bare.place]))
    (fun old found => absurd found (by rw [missing]; exact nofun)) (bare.verdict tidy missing)
    (fun listed => absurd listed (tidy.not_lost missing)) effect (fun reports => ?_)
    fun vouched => ?_
  · obtain ⟨rfl, ends, rfl, _⟩ := reports
    obtain ⟨next, reached⟩ := transition_verdict
      (decide (created.key ∈ (noted.put created).unconfirmed)) ends (bare.running_at _)
    rw [made] at reached
    cases reached
    have same := (effect.ends rfl).1
    rw [ends] at same
    exact ⟨bare.key.symm, rfl, (some.inj same).symm, rfl⟩
  · exact ⟨vouched.1.trans bare.key.symm, started vouched.2, fun _ => bare.running,
      effect.goes_on vouched.2⟩

theorem Bare.outcome (map : noted.map = store.map) : Outcome store (.apply event)
      (((noted.put created).applyToState event created).evictExecutionEntries
          event.execution.connection) := by
  have put := noted_of.put
  rw [applyToState_eq bare.place, put.lost]
  cases made : transition (created.key ∈ store.provisionallyLost)
      (created.key ∈ (noted.put created).unconfirmed) event created with
  | none =>
    dsimp only
    rw [← bare.place]
    refine .written false true (.of_kept put ?_ (bare.key.trans (by rw [bare.place]))
      (fun old found => ?_) (bare.verdict tidy missing)
      (fun listed => absurd listed (tidy.not_lost missing)) (fun reports => ?_)
      fun vouched => ?_) (fun _ _ => .inl bare.bytes) nofun fun _ found => ?_
    · rw [← map]
    · rw [missing] at found
      cases found
    · obtain ⟨next, reached⟩ := transition_verdict
        (decide (created.key ∈ (noted.put created).unconfirmed)) reports.2.1 (bare.running_at _)
      rw [made] at reached
      cases reached
    · exact ⟨vouched.1.trans bare.key.symm, started vouched.2, fun _ => bare.running⟩
    · rw [missing] at found
      cases found
  | some change =>
    have effect := transition_effect made
    have wrote := bare.written tidy missing noted_of started made
    dsimp only
    rw [(wrote.tidy tidy).sweep_evict, ← bare.place, ← effect.ref]
    refine .written _ true wrote (fun quiet => ?_) nofun fun _ found => ?_
    · exact .of_bare effect bare.bytes (by simpa using quiet)
    · rw [effect.key, missing] at found
      cases found

end Created

/-- `apply`, with the side sets apart. -/
theorem applyEvent_eq (store : ExecutionStore) (event : ExecutionEvent) : store.applyEvent event =
      if !event.starts && (store.map.get (executionKey event.execution)).isNone &&
          decide (executionKey event.execution ∈ store.recentlyEvicted) then store
      else
        match store.map.get (executionKey event.execution) with
        | some state => (store.note event).applyToState event state
        | none =>
          (((store.note event).put (.created event.execution event.timestamp)).applyToState event
            (.created event.execution event.timestamp)).evictExecutionEntries
              event.execution.connection :=
  rfl

theorem Tidy.outcome_apply (tidy : Tidy store) (event : ExecutionEvent) :
    Outcome store (.apply event) (store.applyEvent event) := by
  rw [applyEvent_eq]
  split
  · rename_i late
    simp only [and_eq_true, isNone_iff_eq_none] at late
    refine .unwritten rfl rfl rfl rfl (fun _ => id) (fun reports => ?_) fun vouched => ?_
    · rw [reports.1]
      exact late.1.2
    · rw [vouched.2] at late
      cases late.1.1
  · rename_i admitted
    have noted_of := tidy.noted event (eq_false_iff.mpr admitted)
    split
    · rename_i state found
      exact tidy.outcome_known found noted_of (note_map store event) not_unconfirmed_note
    · rename_i missing
      exact (bare_created event).outcome tidy missing noted_of not_unconfirmed_note
        (note_map store event)

/-- A client adds an execution that is not known. -/
theorem outcome_fresh {call : Call} {fresh : ExecutionState}
    (keyed : fresh.key = executionKey fresh.ref) (missing : store.map.get fresh.key = none)
    (errors : fresh.errors = []) (bare : previewBytesOf fresh = 0)
    (observed : ∀ {key status time}, store.Observes key status time call →
      key = fresh.key ∧ fresh.status = status ∧ fresh.endedAt = some time)
    (vouches : ∀ {key}, Vouches key call → key = fresh.key ∧ fresh.status.isTerminal = false) :
    Outcome store call (({ store with
      recentlyEvicted := dropKey store.recentlyEvicted fresh.key
      unconfirmed := dropKey store.unconfirmed fresh.key
      provisionallyLost := dropKey store.provisionallyLost fresh.key }.put
        fresh).evictExecutionEntries fresh.ref.connection) := by
  have out : ∀ keys : List String, fresh.key ∉ dropKey keys fresh.key := fun keys listed =>
    absurd rfl (mem_dropKey.mp listed).2
  refine .written false true (?_ : Written store call fresh _) (fun _ _ => .inl bare) nofun
    fun _ found => ?_
  · refine ⟨rfl, keyed, rfl, fun key other => mem_dropKey.trans (and_iff_left other),
      fun listed => absurd listed (out _), fun key other => mem_dropKey.trans (and_iff_left other),
      fun key listed => mem_dropKey.mp listed, ?_, fun listed => absurd listed (out _),
      fun old found => ?_, fun reports => ?_, fun vouched => ?_⟩
    · rw [errors]
      exact ⟨nofun, fun listed => absurd listed (out _)⟩
    · rw [missing] at found
      cases found
    · obtain ⟨key, status, endedAt⟩ := observed reports
      exact ⟨key, status, endedAt, out _⟩
    · exact ⟨(vouches vouched).1, out _, fun _ => (vouches vouched).2⟩
  · rw [missing] at found
    cases found

theorem Tidy.outcome_register (tidy : Tidy store) (ref : ExecutionRef)
    (artifact : CompileArtifact) (now : Rat) (jobRef sourceDocument : Option String) :
    Outcome store (.register ref artifact now jobRef sourceDocument)
      (store.register ref artifact now jobRef sourceDocument) := by
  unfold register
  dsimp only
  cases found : store.map.get (executionKey ref) with
  | some existing =>
    exact tidy.outcome_touched found (noted_vouched store _) rfl ⟨rfl, rfl⟩ ⟨rfl, rfl⟩ rfl rfl
      nofun fun same => ⟨same, fun listed => absurd rfl (mem_dropKey.mp listed).2⟩
  | none =>
    exact @outcome_fresh store _ { ExecutionState.created ref now with
      artifact := some artifact, jobRef, sourceDocument } rfl found rfl rfl nofun
      fun same => ⟨same, rfl⟩

theorem outcome_restoreCompleted (store : ExecutionStore) (run : RestoredRun) :
    Outcome store (.restoreCompleted run) (store.restoreCompleted run) := by
  unfold restoreCompleted
  dsimp only
  cases found : store.map.get (executionKey run.ref) with
  | some existing =>
    refine .unwritten rfl rfl rfl rfl (fun _ => id) (fun reports => ?_) nofun
    exact reports.1 ▸ reports.2.2.2
  | none =>
    refine @outcome_fresh store _ run.state rfl found rfl rfl (fun reports => ?_) nofun
    obtain ⟨rfl, rfl, rfl, _⟩ := reports
    exact ⟨rfl, rfl, rfl⟩

theorem Tidy.outcome_hydrated (tidy : Tidy store) (ref : ExecutionRef)
    (outputs : Record (Record Json)) (artifacts : List Json) (submittedBy : Json) :
    Outcome store (.hydrateOutputs ref outputs) (store.hydrateOutputs ref outputs) ∧
      Outcome store (.hydrateArtifacts ref artifacts) (store.hydrateArtifacts ref artifacts) ∧
      Outcome store (.hydrateSubmittedBy ref submittedBy)
        (store.hydrateSubmittedBy ref submittedBy) := by
  unfold hydrateOutputs hydrateArtifacts hydrateSubmittedBy
  cases found : store.map.get (executionKey ref) with
  | none =>
    refine ⟨?_, ?_, ?_⟩
    all_goals exact .unwritten rfl rfl rfl rfl (fun _ => id) nofun nofun
  | some state =>
    refine ⟨?_, ?_, ?_⟩
    all_goals
      exact tidy.outcome_touched found (tidy.noted_self found) rfl ⟨rfl, rfl⟩ ⟨rfl, rfl⟩ rfl rfl
        nofun nofun

theorem Tidy.outcome_markLost (tidy : Tidy store) (ref : ExecutionRef) (now : Rat) :
    Outcome store (.markLost ref now) (store.markLost ref now) := by
  unfold markLost
  cases found : store.map.get (executionKey ref) with
  | none => exact .unwritten rfl rfl rfl rfl (fun _ => id) nofun nofun
  | some state =>
    dsimp only
    obtain ⟨key, keyed⟩ := tidy.keyed found
    have place : state.ref = ref := (executionKey_injective keyed).symm
    split
    · exact .unwritten rfl rfl rfl rfl (fun _ => id) nofun nofun
    · rename_i running
      rw [← key] at found keyed
      let next : ExecutionState := { ended state .interrupted now with
        errors := state.errors ++ [lostDiagnostic ref] }
      have wrote : Written store (.markLost ref now) next
          ({ store with
            provisionallyLost := addKey store.provisionallyLost state.key }.put next) := by
        refine ⟨rfl, keyed, rfl, fun _ _ => Iff.rfl, fun listed _ => listed,
          fun other different => mem_addKey.trans (or_iff_left different),
          fun other listed => ⟨listed, ?_⟩, ?_, fun _ => rfl, fun old other final => ?_, nofun, nofun⟩
        · intro same
          have missing := tidy.buried (show other ∈ store.recentlyEvicted from listed)
          rw [same.trans (show next.key = state.key from rfl), found] at missing
          cases missing
        · refine iff_of_true ⟨lostDiagnostic ref, ?_, rfl⟩ (mem_addKey.mpr (.inr rfl))
          exact List.mem_append_right _ (List.mem_singleton_self _)
        · rw [show store.map.get next.key = some state from found] at other
          cases other
          unfold isAuthoritativeTerminal at final
          rw [and_eq_true] at final
          exact absurd final.1 running
      have swept : (({ store with
          provisionallyLost := addKey store.provisionallyLost state.key }.put
            next).enforcePreviewBudget ref.connection) = sweep true false next.ref.connection
              ({ store with
                provisionallyLost := addKey store.provisionallyLost state.key }.put next) := by
        rw [show next.ref = ref from place]
        rfl
      change Outcome store _ (({ store with
          provisionallyLost := addKey store.provisionallyLost state.key }.put
            next).enforcePreviewBudget ref.connection)
      rw [swept]
      refine .written true false wrote nofun (fun _ => ⟨state, found, fun free => ?_⟩) nofun
      unfold isEvictable isAuthoritativeTerminal at free ⊢
      rw [and_eq_true, or_eq_true, decide_eq_true_eq] at free
      rw [and_eq_true, or_eq_true, decide_eq_true_eq]
      refine ⟨.inr (free.1.resolve_left fun final => ?_), free.2⟩
      rw [and_eq_true, decide_eq_true_eq] at final
      exact final.2 (mem_addKey.mpr (.inr rfl))

theorem outcome_retain (store : ExecutionStore) (ref : ExecutionRef) :
    Outcome store (.retain ref) (store.retain ref) := by
  refine .unwritten rfl rfl rfl rfl (fun key pinned => ?_) nofun nofun
  unfold retain
  dsimp only
  rw [Table.get_set]
  split
  · rfl
  · exact pinned

theorem outcome_release (store : ExecutionStore) (ref : ExecutionRef) :
    Outcome store (.release ref) (store.release ref) := by
  unfold release
  dsimp only
  cases found : store.retained.get (executionKey ref) with
  | none => exact .unwritten rfl rfl rfl rfl (fun _ => id) nofun nofun
  | some count =>
    dsimp only
    split
    · refine .unwritten rfl rfl rfl rfl (fun key pinned => ?_) nofun nofun
      rw [Table.get_set]
      split
      · rfl
      · exact pinned
    · refine .released ref _ (fun key other => ?_) nofun nofun
      rw [Table.get_erase, if_neg (Ne.symm other)]

theorem outcome_applyOther (store : ExecutionStore) (event : OtherEvent) :
    Outcome store (.applyOther event) (store.applyOther event) := by
  unfold applyOther
  split <;> exact .unwritten rfl rfl rfl rfl (fun _ => id) nofun nofun

theorem Tidy.outcome (tidy : Tidy store) (call : Call) : Outcome store call (store.step call) := by
  cases call with
  | register ref artifact now jobRef sourceDocument =>
    exact tidy.outcome_register ref artifact now jobRef sourceDocument
  | restoreCompleted run => exact outcome_restoreCompleted store run
  | apply event => exact tidy.outcome_apply event
  | applyOther event => exact outcome_applyOther store event
  | hydrateOutputs ref outputs => exact (tidy.outcome_hydrated ref outputs [] .null).1
  | hydrateArtifacts ref artifacts => exact (tidy.outcome_hydrated ref .empty artifacts .null).2.1
  | hydrateSubmittedBy ref submittedBy => exact (tidy.outcome_hydrated ref .empty [] submittedBy).2.2
  | markLost ref now => exact tidy.outcome_markLost ref now
  | retain ref => exact outcome_retain store ref
  | release ref => exact outcome_release store ref

end Calls

end ExecutionStore

end Dinkster.Execution
