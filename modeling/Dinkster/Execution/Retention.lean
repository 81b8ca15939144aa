import Dinkster.Execution.Outcomes

/-!
# What a store retains

After any calls the side sets fit the entries, the entries of a connection are capped, and the
previews that count are within their budget.  An entry leaves only where it may go.
-/

namespace Dinkster.Execution

open Library Format List Option

namespace ExecutionStore

section Outcomes

variable {store written left : ExecutionStore} {call : Call} {next state : ExecutionState}
  {connection key : String}

theorem trimmed_refl (store : ExecutionStore) : Trimmed store [] store := by
  refine ⟨fun key => ?_, rfl, fun _ => rfl, rfl, rfl, rfl, rfl⟩
  simp

theorem evicted_refl (store : ExecutionStore) : Evicted store [] store := by
  refine ⟨?_, fun key => ?_, fun key => ?_, fun _ listed => .inl listed, rfl⟩
  all_goals simp

/-- An eviction takes entries that may go. -/
theorem Tidy.isEvictable_of_evicted (tidy : Tidy store)
    (going : key ∈ (store.evicted connection).map (·.key)) :
    ∃ state, store.map.get key = some state ∧ store.isEvictable state = true := by
  obtain ⟨state, leaves, rfl⟩ := mem_map.mp going
  obtain ⟨listed, evictable⟩ := mem_of_mem_evicted leaves
  exact ⟨state, tidy.mem_states.mp (mem_entriesOf.mp listed).1, evictable⟩

/-- A sweep strips entries, then lets some go. -/
structure Swept (store : ExecutionStore) (enforces evicts : Bool) (connection : String)
    (trimmed : ExecutionStore) (stripped gone : List String) : Prop where
  strips : Trimmed store stripped trimmed
  tidied : Tidy trimmed
  leaves : Evicted trimmed gone (store.sweep enforces evicts connection)
  evictable : ∀ key ∈ gone, evicts = true ∧
    ∃ state, trimmed.map.get key = some state ∧ trimmed.isEvictable state = true
  frugal : enforces = true → Frugal trimmed connection
  capped : evicts = true → Capped (store.sweep enforces evicts connection) connection

theorem Tidy.swept (tidy : Tidy store) (enforces evicts : Bool) (connection : String) :
    ∃ trimmed stripped gone, Swept store enforces evicts connection trimmed stripped gone := by
  have trims : ∃ stripped, Trimmed store stripped
      (if enforces then store.enforcePreviewBudget connection else store) := by
    split
    · obtain ⟨_, _, _, trimmed, _⟩ := tidy.enforcePreviewBudget connection
      exact ⟨_, trimmed⟩
    · exact ⟨[], trimmed_refl store⟩
  obtain ⟨stripped, trimmed⟩ := trims
  have tidied := trimmed.tidy tidy
  have frugal : enforces = true → Frugal
      (if enforces then store.enforcePreviewBudget connection else store) connection := by
    intro enforced
    rw [if_pos enforced]
    exact tidy.frugal_enforcePreviewBudget connection
  cases evicts with
  | false =>
    exact ⟨_, stripped, [], trimmed, tidied, evicted_refl _, nofun, frugal, nofun⟩
  | true =>
    exact ⟨_, stripped, _, trimmed, tidied, evictExecutionEntries_evicted _ connection,
      fun key going => ⟨rfl, tidied.isEvictable_of_evicted going⟩, frugal,
      fun _ => tidied.capped_evictExecutionEntries connection⟩

section

variable (wrote : Written store call next written)

include wrote

/-- The entry that is written belongs to the connection of the one before it. -/
theorem Written.ref_eq (tidy : Tidy store) (found : store.map.get next.key = some state) :
    state.ref = next.ref :=
  executionKey_injective ((tidy.keyed found).2.symm.trans wrote.keyed)

theorem Written.get_of_ne (other : key ≠ next.key) : written.map.get key = store.map.get key := by
  rw [wrote.map, Table.get_set, if_neg (Ne.symm other)]

theorem Written.get_self : written.map.get next.key = some next := by
  rw [wrote.map, Table.get_set, if_pos rfl]

theorem Written.isAuthoritativeTerminal_of_ne (other : state.key ≠ next.key) :
    written.isAuthoritativeTerminal state = store.isAuthoritativeTerminal state := by
  unfold ExecutionStore.isAuthoritativeTerminal
  congr 1
  rw [decide_eq_decide, wrote.lost _ other]

theorem Written.isEvictable_of_ne (other : state.key ≠ next.key) :
    written.isEvictable state = store.isEvictable state := by
  have vouched : decide (state.key ∈ written.unconfirmed) =
      decide (state.key ∈ store.unconfirmed) := by
    rw [decide_eq_decide, wrote.unconfirmed _ other]
  unfold ExecutionStore.isEvictable
  rw [wrote.isAuthoritativeTerminal_of_ne other, wrote.retained, vouched]

theorem Written.isBudgeted_of_ne (other : state.key ≠ next.key) :
    written.isBudgeted state = store.isBudgeted state := by
  unfold ExecutionStore.isBudgeted
  congr 1
  rw [decide_eq_decide, wrote.unconfirmed _ other]

/-- The entries are as many as before, unless a new one is written. -/
theorem Written.length_entriesOf (tidy : Tidy store)
    (same : (store.map.get next.key).isSome ∨ next.ref.connection ≠ connection) :
    (written.entriesOf connection).length = (store.entriesOf connection).length := by
  rw [ExecutionStore.length_entriesOf, ExecutionStore.length_entriesOf, wrote.map]
  cases found : store.map.get next.key with
  | some state =>
    refine @Table.countP_set_of_get _ _ _ _ _
      (fun state => decide (state.ref.connection = connection)) found ?_
    rw [wrote.ref_eq tidy found]
  | none =>
    have elsewhere : next.ref.connection ≠ connection := by
      rw [found] at same
      exact same.resolve_left Bool.false_ne_true
    rw [Table.set_of_get_none found, countP_append]
    simp [elsewhere]

theorem Written.capped (tidy : Tidy store)
    (calm : next.ref.connection = connection → Calm store next written)
    (capped : Capped store connection) : Capped written connection := by
  have tidied := wrote.tidy tidy
  have same : (store.map.get next.key).isSome ∨ next.ref.connection ≠ connection := by
    by_cases here : next.ref.connection = connection
    · obtain ⟨state, found, _⟩ := calm here
      exact .inl (by rw [found]; rfl)
    · exact .inr here
  unfold Capped
  rw [wrote.length_entriesOf tidy same]
  refine capped.imp_right fun nobody state listed => ?_
  obtain ⟨held, here⟩ := mem_entriesOf.mp listed
  have found := tidied.mem_states.mp held
  by_cases own : state.key = next.key
  · rw [own, wrote.get_self] at found
    cases found
    obtain ⟨old, known, fewer⟩ := calm here
    have old_key := (tidy.keyed known).1
    refine Bool.eq_false_iff.mpr fun evictable => ?_
    have stays := nobody old (mem_entriesOf.mpr ⟨tidy.mem_states.mpr (old_key ▸ known), ?_⟩)
    · rw [fewer evictable] at stays
      cases stays
    · rw [wrote.ref_eq tidy known, here]
  · rw [wrote.isEvictable_of_ne own]
    rw [wrote.get_of_ne own] at found
    exact nobody state (mem_entriesOf.mpr ⟨tidy.mem_states.mpr found, here⟩)

theorem Written.weight_le (tidy : Tidy store)
    (still : next.ref.connection = connection → Still store next written) (key : String) :
    written.weight connection key ≤ store.weight connection key := by
  unfold weight
  by_cases own : key = next.key
  · rw [own, wrote.get_self]
    dsimp only
    split
    · rename_i counts
      cases still counts.1 counts.2 with
      | inl bare =>
        rw [bare]
        exact Nat.zero_le _
      | inr known =>
        obtain ⟨state, found, budgeted, bytes⟩ := known
        rw [found]
        dsimp only
        rw [if_pos ⟨by rw [wrote.ref_eq tidy found]; exact counts.1, budgeted⟩, bytes]
    · exact Nat.zero_le _
  · rw [wrote.get_of_ne own]
    cases found : store.map.get key with
    | none => exact Nat.le_refl 0
    | some state =>
      dsimp only
      rw [wrote.isBudgeted_of_ne (by rw [(tidy.keyed found).1]; exact own)]

end

theorem Outcome.tidy (outcome : Outcome store call left) (tidy : Tidy store) : Tidy left := by
  cases outcome with
  | unwritten map unconfirmed lost buried pinned unobserved =>
    refine ⟨map ▸ tidy.distinct, fun found => tidy.keyed (map ▸ found), fun listed => ?_,
      fun listed => ?_, fun listed => ?_, fun found => ?_, fun found gone => ?_⟩
    · exact map ▸ tidy.unconfirmed (unconfirmed ▸ listed)
    · exact map ▸ tidy.lost (lost ▸ listed)
    · exact map ▸ tidy.buried (buried ▸ listed)
    · exact lost ▸ tidy.verdict (map ▸ found)
    · exact tidy.interrupted (map ▸ found) (lost ▸ gone)
  | released ref retained pinned unobserved =>
    have unpinned : Tidy { store with retained } :=
      ⟨tidy.distinct, tidy.keyed, tidy.unconfirmed, tidy.lost, tidy.buried, tidy.verdict,
        tidy.interrupted⟩
    exact (evictExecutionEntries_evicted _ _).tidy unpinned
  | @written next written enforces evicts wrote still calm ends =>
    obtain ⟨trimmed, stripped, gone, swept⟩ :=
      (wrote.tidy tidy).swept enforces evicts next.ref.connection
    exact swept.leaves.tidy swept.tidied

theorem Outcome.capped (outcome : Outcome store call left) (tidy : Tidy store)
    (capped : ∀ connection, Capped store connection) (connection : String) :
    Capped left connection := by
  cases outcome with
  | unwritten map unconfirmed lost buried pinned unobserved =>
    have entries : left.entriesOf connection = store.entriesOf connection := by
      unfold entriesOf states
      rw [map]
    unfold Capped
    rw [entries]
    refine (capped connection).imp_right fun nobody state listed => ?_
    refine Bool.eq_false_iff.mpr fun evictable => ?_
    have stays := nobody state listed
    unfold isEvictable isAuthoritativeTerminal at evictable stays
    rw [unconfirmed, lost, Bool.and_eq_true] at evictable
    rw [evictable.1, Bool.true_and] at stays
    have holds : (store.retained.get state.key).isSome := by
      rw [← not_isNone, stays]
      rfl
    have still := pinned _ holds
    rw [← not_isNone, evictable.2] at still
    cases still
  | released ref retained pinned unobserved =>
    have unpinned : Tidy { store with retained } :=
      ⟨tidy.distinct, tidy.keyed, tidy.unconfirmed, tidy.lost, tidy.buried, tidy.verdict,
        tidy.interrupted⟩
    by_cases here : ref.connection = connection
    · exact here ▸ unpinned.capped_evictExecutionEntries ref.connection
    · refine (evictExecutionEntries_evicted _ _).capped unpinned ?_
      refine (capped connection).imp_right fun nobody state listed => ?_
      obtain ⟨held, place⟩ := mem_entriesOf.mp listed
      have different : state.key ≠ executionKey ref := fun same => here <| by
        rw [executionKey_injective (same.symm.trans (tidy.keyed (tidy.mem_states.mp held)).2)]
        exact place
      have stays := nobody state listed
      unfold isEvictable at stays ⊢
      change (_ && (retained.get state.key).isNone) = false
      rw [pinned _ different]
      exact stays
  | @written next written enforces evicts wrote still calm ends =>
    have tidied := wrote.tidy tidy
    obtain ⟨trimmed, stripped, gone, swept⟩ := tidied.swept enforces evicts next.ref.connection
    by_cases here : evicts = true ∧ next.ref.connection = connection
    · exact here.2 ▸ swept.capped here.1
    · refine swept.leaves.capped swept.tidied (swept.strips.capped tidied ?_)
      refine wrote.capped tidy (fun place => calm ?_) (capped connection)
      exact Bool.eq_false_iff.mpr fun evicts => here ⟨evicts, place⟩

theorem Outcome.frugal (outcome : Outcome store call left) (tidy : Tidy store)
    (frugal : ∀ connection, Frugal store connection) (connection : String) :
    Frugal left connection := by
  cases outcome with
  | unwritten map unconfirmed lost buried pinned unobserved =>
    refine (frugal connection).of_le fun key => ?_
    unfold weight isBudgeted
    rw [map, unconfirmed]
  | released ref retained pinned unobserved =>
    exact (frugal connection).of_le
      ((evictExecutionEntries_evicted { store with retained } _).weight_le connection)
  | @written next written enforces evicts wrote still calm ends =>
    have tidied := wrote.tidy tidy
    obtain ⟨trimmed, stripped, gone, swept⟩ := tidied.swept enforces evicts next.ref.connection
    by_cases here : enforces = true ∧ next.ref.connection = connection
    · exact (here.2 ▸ swept.frugal here.1).of_le (swept.leaves.weight_le connection)
    · refine (frugal connection).of_le fun key => ?_
      refine (swept.leaves.weight_le connection key).trans ?_
      refine (swept.strips.weight_le connection key).trans ?_
      refine wrote.weight_le tidy (fun place => still ?_) key
      exact Bool.eq_false_iff.mpr fun enforces => here ⟨enforces, place⟩

def Ends (call : Call) (key : String) : Prop :=
  ∃ event status, call = .apply event ∧ executionKey event.execution = key ∧
    event.body.verdict = some status

/-- What goes is not pinned, and was final or unconfirmed, unless the call ended it. -/
theorem Outcome.departed (outcome : Outcome store call left) (tidy : Tidy store)
    (found : store.map.get key = some state) (missing : left.map.get key = none) :
    left.retained.get key = none ∧
      (store.isAuthoritativeTerminal state = true ∨ key ∈ store.unconfirmed ∨ Ends call key) := by
  cases outcome with
  | unwritten map unconfirmed lost buried pinned unobserved =>
    rw [map, found] at missing
    cases missing
  | released ref retained pinned unobserved =>
    have unpinned : Tidy { store with retained } :=
      ⟨tidy.distinct, tidy.keyed, tidy.unconfirmed, tidy.lost, tidy.buried, tidy.verdict,
        tidy.interrupted⟩
    have leaves := evictExecutionEntries_evicted { store with retained } ref.connection
    have going : key ∈ (evicted { store with retained } ref.connection).map (·.key) := by
      by_contra kept
      rw [leaves.get, if_neg kept] at missing
      rw [show store.map.get key = none from missing] at found
      cases found
    obtain ⟨old, known, evictable⟩ := unpinned.isEvictable_of_evicted going
    cases some.inj (found.symm.trans known)
    unfold isEvictable at evictable
    rw [Bool.and_eq_true, Bool.or_eq_true, decide_eq_true_eq, (tidy.keyed found).1,
      isNone_iff_eq_none] at evictable
    exact ⟨leaves.retained ▸ evictable.2, evictable.1.imp_right .inl⟩
  | @written next written enforces evicts wrote still calm ends =>
    have tidied := wrote.tidy tidy
    obtain ⟨trimmed, stripped, gone, swept⟩ := tidied.swept enforces evicts next.ref.connection
    have held : (written.map.get key).isSome := by
      rw [wrote.map, Table.get_set]
      split
      · rfl
      · rw [found]
        rfl
    have going : key ∈ gone := by
      by_contra kept
      rw [swept.leaves.get, if_neg kept] at missing
      rw [← swept.strips.isSome, missing] at held
      cases held
    obtain ⟨evicting, last, listed, evictable⟩ := swept.evictable key going
    have last_key := (swept.tidied.keyed listed).1
    obtain ⟨before, written_found, same⟩ := swept.strips.get_eq_some listed
    have before_key := (tidied.keyed written_found).1
    have free : written.isEvictable before = true := by
      rw [swept.strips.isEvictable] at evictable
      rw [same] at evictable
      split at evictable <;> exact evictable
    have unpinned : store.retained.get key = none := by
      unfold isEvictable at free
      rw [Bool.and_eq_true, isNone_iff_eq_none, before_key, wrote.retained] at free
      exact free.2
    refine ⟨?_, ?_⟩
    · rw [swept.leaves.retained, swept.strips.retained, wrote.retained]
      exact unpinned
    · by_cases own : key = next.key
      · obtain ⟨event, made, keyed, verdict⟩ := ends evicting (by rw [← own, found]; rfl)
        exact .inr (.inr ⟨event, _, made, keyed.trans own.symm, verdict⟩)
      · rw [wrote.get_of_ne own, found] at written_found
        cases written_found
        rw [wrote.isEvictable_of_ne (by rw [before_key]; exact own)] at free
        unfold isEvictable at free
        rw [Bool.and_eq_true, Bool.or_eq_true, decide_eq_true_eq, before_key] at free
        exact free.1.imp_right .inl

/-- A client that vouches for an execution finds its entry afterwards. -/
theorem Outcome.vouched (outcome : Outcome store call left) (tidy : Tidy store)
    (vouches : Vouches key call) : (left.map.get key).isSome := by
  cases outcome with
  | unwritten map unconfirmed lost buried pinned unobserved unvouched =>
    exact absurd vouches unvouched
  | released ref retained pinned unobserved unvouched => exact absurd vouches unvouched
  | @written next written enforces evicts wrote still calm ends =>
    have tidied := wrote.tidy tidy
    obtain ⟨trimmed, stripped, gone, swept⟩ := tidied.swept enforces evicts next.ref.connection
    obtain ⟨rfl, confirmed, running⟩ := wrote.vouches vouches
    have held : (trimmed.map.get next.key).isSome := by
      rw [swept.strips.isSome, wrote.get_self]
      rfl
    rw [swept.leaves.get]
    split
    · rename_i going
      exfalso
      obtain ⟨evicting, last, listed, evictable⟩ := swept.evictable _ going
      obtain ⟨before, found, same⟩ := swept.strips.get_eq_some listed
      rw [wrote.get_self] at found
      cases found
      cases known : store.map.get next.key with
      | some old =>
        obtain ⟨event, rfl, _, verdict⟩ := ends evicting (by rw [known]; rfl)
        obtain ⟨_, starts⟩ := vouches
        unfold ExecutionEvent.starts at starts
        split at starts
        · rename_i started
          rw [started] at verdict
          cases verdict
        · cases starts
      | none =>
        have free : written.isEvictable next = true := by
          rw [swept.strips.isEvictable, same] at evictable
          split at evictable <;> exact evictable
        unfold isEvictable isAuthoritativeTerminal at free
        rw [running known, Bool.false_and, Bool.false_or, Bool.and_eq_true,
          decide_eq_true_eq] at free
        exact confirmed free.1
    · exact held

end Outcomes

/-- What holds of a store after any calls. -/
structure Kept (store : ExecutionStore) : Prop where
  tidy : Tidy store
  capped : ∀ connection, Capped store connection
  frugal : ∀ connection, Frugal store connection

theorem empty_kept : Kept empty := by
  refine ⟨empty_tidy, fun connection => .inr fun state listed => ?_, fun connection => ?_⟩
  · exact absurd listed not_mem_nil
  · exact .inr ⟨"", fun key _ => by unfold weight; rfl⟩

variable {store : ExecutionStore}

theorem Kept.step (kept : Kept store) (call : Call) : Kept (store.step call) := by
  have outcome := kept.tidy.outcome call
  exact ⟨outcome.tidy kept.tidy, outcome.capped kept.tidy kept.capped,
    outcome.frugal kept.tidy kept.frugal⟩

theorem Kept.run (kept : Kept store) (calls : List Call) : Kept (store.run calls) := by
  induction calls generalizing store with
  | nil => exact kept
  | cons call calls ih => exact ih (kept.step call)

def counted (store : ExecutionStore) (connection : String) : List ExecutionState :=
  (store.entriesOf connection).filter store.isBudgeted

variable {connection : String}

theorem Tidy.weight_of_mem_counted {state : ExecutionState} (tidy : Tidy store)
    (listed : state ∈ store.counted connection) :
    store.weight connection state.key = previewBytesOf state := by
  obtain ⟨entry, budgeted⟩ := mem_filter.mp listed
  obtain ⟨held, here⟩ := mem_entriesOf.mp entry
  unfold weight
  rw [tidy.mem_states.mp held]
  exact if_pos ⟨here, budgeted⟩

theorem Frugal.counted (frugal : Frugal store connection) (tidy : Tidy store) :
    ((store.counted connection).map previewBytesOf).sum ≤ terminalPreviewByteBudget ∨
      ∃ holder, ∀ state ∈ store.counted connection, state.key ≠ holder →
        previewBytesOf state = 0 := by
  refine frugal.imp (fun within => ?_) fun ⟨holder, bare⟩ => ?_
  · have distinct : ((store.counted connection).map (·.key)).Nodup :=
      tidy.nodup_keys.sublist ((filter_sublist.trans filter_sublist).map _)
    have bytes : (store.counted connection).map previewBytesOf =
        ((store.counted connection).map (·.key)).map (store.weight connection) := by
      rw [List.map_map]
      exact map_congr_left fun state listed => (tidy.weight_of_mem_counted listed).symm
    rw [bytes, ← sum_toFinset _ distinct]
    exact within _
  · refine ⟨holder, fun state listed other => ?_⟩
    rw [← tidy.weight_of_mem_counted listed]
    exact bare _ other

/-- What a store retains is bounded, and only what may go leaves it. -/
theorem retention_bounded (calls : List Call) :
    let store := empty.run calls
    (∀ connection, ((store.entriesOf connection).length ≤ executionEntryCap ∨
        ∀ state ∈ store.entriesOf connection, store.isEvictable state = false) ∧
      (((store.counted connection).map previewBytesOf).sum ≤ terminalPreviewByteBudget ∨
        ∃ holder, ∀ state ∈ store.counted connection, state.key ≠ holder →
          previewBytesOf state = 0)) ∧
    (∀ key, key ∈ store.unconfirmed ∨ key ∈ store.provisionallyLost → (store.map.get key).isSome) ∧
    (∀ call key state, store.map.get key = some state → (store.step call).map.get key = none →
      (store.step call).retained.get key = none ∧
        (store.isAuthoritativeTerminal state = true ∨ key ∈ store.unconfirmed ∨ Ends call key)) ∧
    ∀ call key, Vouches key call → ((store.step call).map.get key).isSome := by
  have kept := empty_kept.run calls
  refine ⟨fun connection => ⟨kept.capped connection, (kept.frugal connection).counted kept.tidy⟩,
    fun key listed => listed.elim kept.tidy.unconfirmed kept.tidy.lost,
    fun call key state found missing => ?_, fun call key vouches => ?_⟩
  · exact (kept.tidy.outcome call).departed kept.tidy found missing
  · exact (kept.tidy.outcome call).vouched kept.tidy vouches

end ExecutionStore

end Dinkster.Execution
