import Dinkster.Execution.Effects
import Dinkster.Format.Keys

/-!
# The entries of a store

What the side sets of a store have to do with its entries, and what its two enforcements leave of
them: the budget of previews strips entries, the cap of entries lets them go.
-/

namespace Dinkster.Execution

open Library Format List Option

theorem executionKey_eq_occurrenceKey (ref : ExecutionRef) :
    executionKey ref = occurrenceKey ⟨[ref.connection], ref.prompt⟩ := by
  simp [executionKey, occurrenceKey, List.intercalate]

theorem executionKey_injective {ref other : ExecutionRef}
    (same : executionKey ref = executionKey other) : ref = other := by
  rw [executionKey_eq_occurrenceKey, executionKey_eq_occurrenceKey] at same
  have both := occurrenceKey_injective same
  cases ref
  cases other
  cases both
  rfl

namespace ExecutionStore

/-- The side sets of a store fit its entries. -/
structure Tidy (store : ExecutionStore) : Prop where
  distinct : (store.map.map Prod.fst).Nodup
  keyed : ∀ {key state}, store.map.get key = some state →
    state.key = key ∧ key = executionKey state.ref
  unconfirmed : ∀ {key}, key ∈ store.unconfirmed → (store.map.get key).isSome
  lost : ∀ {key}, key ∈ store.provisionallyLost → (store.map.get key).isSome
  buried : ∀ {key}, key ∈ store.recentlyEvicted → store.map.get key = none
  verdict : ∀ {key state}, store.map.get key = some state →
    (CarriesLost state.errors ↔ key ∈ store.provisionallyLost)
  interrupted : ∀ {key state}, store.map.get key = some state →
    key ∈ store.provisionallyLost → state.status = .interrupted

theorem empty_tidy : Tidy empty :=
  ⟨nodup_nil, nofun, nofun, nofun, nofun, nofun, nofun⟩

section Tidy

variable {store : ExecutionStore} {key : String} {state : ExecutionState}

/-- An entry is found under its own key. -/
theorem Tidy.mem_states (tidy : Tidy store) :
    state ∈ store.states ↔ store.map.get state.key = some state := by
  unfold states
  rw [List.mem_map]
  constructor
  · rintro ⟨⟨key, held⟩, listed, rfl⟩
    have found := Table.get_of_mem tidy.distinct listed
    rwa [(tidy.keyed found).1]
  · intro found
    exact ⟨(state.key, state), Table.mem_of_get found, rfl⟩

theorem Tidy.nodup_keys (tidy : Tidy store) : (store.states.map (·.key)).Nodup := by
  have keys : store.states.map (·.key) = store.map.map Prod.fst := by
    unfold states
    rw [List.map_map]
    refine map_congr_left fun entry listed => ?_
    exact (tidy.keyed (Table.get_of_mem tidy.distinct listed)).1
  rw [keys]
  exact tidy.distinct

end Tidy

structure Evicted (store : ExecutionStore) (gone : List String) (left : ExecutionStore) :
    Prop where
  map : left.map = store.map.filter fun entry => entry.1 ∉ gone
  unconfirmed : ∀ key, key ∈ left.unconfirmed ↔ key ∈ store.unconfirmed ∧ key ∉ gone
  lost : ∀ key, key ∈ left.provisionallyLost ↔ key ∈ store.provisionallyLost ∧ key ∉ gone
  buried : ∀ key ∈ left.recentlyEvicted, key ∈ store.recentlyEvicted ∨ key ∈ gone
  retained : left.retained = store.retained

theorem mem_of_mem_tombstone {keys : List String} {key other : String}
    (listed : other ∈ tombstone keys key) : other ∈ keys ∨ other = key := by
  unfold tombstone at listed
  dsimp only at listed
  split at listed
  · exact mem_addKey.mp listed
  · exact mem_addKey.mp (mem_of_mem_tail listed)

theorem foldl_evict (gone : List ExecutionState) (store : ExecutionStore) :
    Evicted store (gone.map (·.key)) (gone.foldl evict store) := by
  induction gone generalizing store with
  | nil => exact ⟨by simp, by simp, by simp, fun _ listed => .inl listed, rfl⟩
  | cons state gone ih =>
    obtain ⟨map, unconfirmed, lost, buried, retained⟩ := ih (store.evict state)
    refine ⟨?_, fun key => ?_, fun key => ?_, fun key listed => ?_, retained⟩
    · rw [foldl_cons, map]
      change List.filter _ (List.filter _ store.map) = _
      rw [List.filter_filter]
      refine filter_congr fun entry _ => ?_
      rw [map_cons, ← Bool.decide_and, decide_eq_decide, mem_cons, not_or]
      exact and_comm
    · rw [foldl_cons, unconfirmed, map_cons, mem_cons, not_or, ← and_assoc]
      exact and_congr_left fun _ => mem_dropKey
    · rw [foldl_cons, lost, map_cons, mem_cons, not_or, ← and_assoc]
      exact and_congr_left fun _ => mem_dropKey
    · rw [map_cons, mem_cons]
      cases buried key listed with
      | inl before =>
        cases mem_of_mem_tombstone before with
        | inl known => exact .inl known
        | inr new => exact .inr (.inl new)
      | inr later => exact .inr (.inr later)

section Evicted

variable {store left : ExecutionStore} {gone : List String} {key : String}
  {state : ExecutionState}

section

variable (evicted : Evicted store gone left)

include evicted

theorem Evicted.get (key : String) :
    left.map.get key = if key ∈ gone then none else store.map.get key := by
  rw [evicted.map, Table.get_filter_notMem]

theorem Evicted.get_eq_some :
    left.map.get key = some state ↔ key ∉ gone ∧ store.map.get key = some state := by
  rw [evicted.get]
  split
  · rename_i out
    exact ⟨nofun, fun both => absurd out both.1⟩
  · rename_i kept
    exact (and_iff_right kept).symm

theorem Evicted.tidy (tidy : Tidy store) : Tidy left := by
  have held : ∀ {key}, key ∉ gone → (store.map.get key).isSome → (left.map.get key).isSome := by
    intro key kept found
    rwa [evicted.get, if_neg kept]
  refine ⟨?_, fun found => ?_, fun listed => ?_, fun listed => ?_, fun listed => ?_,
    fun found => ?_, fun found gone => ?_⟩
  · rw [evicted.map]
    exact tidy.distinct.sublist (filter_sublist.map Prod.fst)
  · exact tidy.keyed (evicted.get_eq_some.mp found).2
  · obtain ⟨known, kept⟩ := (evicted.unconfirmed _).mp listed
    exact held kept (tidy.unconfirmed known)
  · obtain ⟨known, kept⟩ := (evicted.lost _).mp listed
    exact held kept (tidy.lost known)
  · rw [evicted.get]
    split
    · rfl
    · rename_i kept
      exact tidy.buried ((evicted.buried _ listed).resolve_right kept)
  · obtain ⟨kept, found⟩ := evicted.get_eq_some.mp found
    rw [tidy.verdict found, evicted.lost]
    exact (and_iff_left kept).symm
  · exact tidy.interrupted (evicted.get_eq_some.mp found).2 ((evicted.lost _).mp gone).1

theorem Evicted.isAuthoritativeTerminal (kept : state.key ∉ gone) :
    left.isAuthoritativeTerminal state = store.isAuthoritativeTerminal state := by
  unfold ExecutionStore.isAuthoritativeTerminal
  congr 1
  rw [decide_eq_decide, evicted.lost, and_iff_left kept]

theorem Evicted.isEvictable (kept : state.key ∉ gone) :
    left.isEvictable state = store.isEvictable state := by
  have vouched : decide (state.key ∈ left.unconfirmed) = decide (state.key ∈ store.unconfirmed) := by
    rw [decide_eq_decide, evicted.unconfirmed, and_iff_left kept]
  unfold ExecutionStore.isEvictable
  rw [evicted.isAuthoritativeTerminal kept, evicted.retained, vouched]

end

end Evicted

/-! ## The cap of entries -/

/-- The entries of a connection are few, or none of them may go. -/
def Capped (store : ExecutionStore) (connection : String) : Prop :=
  (store.entriesOf connection).length ≤ executionEntryCap ∨
    ∀ state ∈ store.entriesOf connection, store.isEvictable state = false

section Cap

variable {store left : ExecutionStore} {connection : String} {state : ExecutionState}

theorem mem_entriesOf :
    state ∈ store.entriesOf connection ↔ state ∈ store.states ∧ state.ref.connection = connection := by
  unfold entriesOf
  rw [mem_filter, decide_eq_true_eq]

theorem mem_of_mem_evicted (going : state ∈ store.evicted connection) :
    state ∈ store.entriesOf connection ∧ store.isEvictable state = true := by
  have sorted := mem_of_mem_take going
  rw [mem_insertionSort] at sorted
  exact mem_filter.mp sorted

theorem evictExecutionEntries_evicted (store : ExecutionStore) (connection : String) :
    Evicted store ((store.evicted connection).map (·.key))
      (store.evictExecutionEntries connection) :=
  foldl_evict _ _

theorem Tidy.entriesOf_distinct (tidy : Tidy store) : (store.entriesOf connection).Nodup :=
  (tidy.nodup_keys.of_map _).sublist filter_sublist

theorem Tidy.evicted_distinct (tidy : Tidy store) : (store.evicted connection).Nodup := by
  refine List.Nodup.sublist (take_sublist _ _) ?_
  exact (perm_insertionSort _ _).nodup_iff.mpr (tidy.entriesOf_distinct.sublist filter_sublist)

variable {gone : List String}

theorem Evicted.entriesOf (evicted : Evicted store gone left) (tidy : Tidy store)
    (connection : String) :
    left.entriesOf connection = (store.entriesOf connection).filter (·.key ∉ gone) := by
  have states : left.states = store.states.filter (·.key ∉ gone) := by
    unfold ExecutionStore.states
    rw [evicted.map, List.filter_map]
    congr 1
    refine filter_congr fun entry listed => ?_
    have keyed := (tidy.keyed (Table.get_of_mem tidy.distinct listed)).1
    rw [Function.comp_apply, keyed]
  unfold ExecutionStore.entriesOf
  rw [states, List.filter_filter, List.filter_filter]
  exact filter_congr fun state _ => Bool.and_comm _ _

/-- Every entry that goes makes the entries of its connection one less. -/
theorem Tidy.length_evictExecutionEntries (tidy : Tidy store) (connection : String) :
    ((store.evictExecutionEntries connection).entriesOf connection).length +
        (store.evicted connection).length = (store.entriesOf connection).length := by
  have going : ((store.entriesOf connection).filter
      (·.key ∈ (store.evicted connection).map (·.key))).Perm (store.evicted connection) := by
    refine (perm_ext_iff_of_nodup (tidy.entriesOf_distinct.sublist filter_sublist)
      tidy.evicted_distinct).mpr fun state => ?_
    rw [mem_filter, decide_eq_true_eq, List.mem_map]
    constructor
    · rintro ⟨listed, other, leaves, same⟩
      have found := tidy.mem_states.mp (mem_entriesOf.mp listed).1
      have other_found := tidy.mem_states.mp (mem_entriesOf.mp (mem_of_mem_evicted leaves).1).1
      rw [same, found] at other_found
      exact some.inj other_found ▸ leaves
    · exact fun leaves => ⟨(mem_of_mem_evicted leaves).1, state, leaves, rfl⟩
  rw [(evictExecutionEntries_evicted store connection).entriesOf tidy, ← going.length_eq,
    length_eq_length_filter_add (l := store.entriesOf connection) (fun state =>
        decide (state.key ∈ (store.evicted connection).map (·.key))), Nat.add_comm]
  congr 2
  refine filter_congr fun state _ => ?_
  rw [decide_not]

theorem Tidy.capped_evictExecutionEntries (tidy : Tidy store) (connection : String) :
    Capped (store.evictExecutionEntries connection) connection := by
  have counted := tidy.length_evictExecutionEntries connection
  have evicted := evictExecutionEntries_evicted store connection
  by_cases few :
    ((store.evictExecutionEntries connection).entriesOf connection).length ≤ executionEntryCap
  · exact .inl few
  · refine .inr fun state listed => ?_
    rw [evicted.entriesOf tidy, mem_filter, decide_eq_true_eq] at listed
    obtain ⟨listed, kept⟩ := listed
    rw [evicted.isEvictable kept]
    refine Bool.eq_false_iff.mpr fun evictable => kept ?_
    -- Were there too few to go for the cap, this one would have gone with them.
    have all : store.evicted connection =
        ((store.entriesOf connection).filter store.isEvictable).insertionSort olderFirst := by
      refine take_of_length_le ?_
      by_contra more
      have taken : (store.evicted connection).length =
          (store.entriesOf connection).length - executionEntryCap :=
        length_take_of_le (Nat.le_of_not_le more)
      omega
    refine List.mem_map_of_mem ?_
    rw [all, mem_insertionSort]
    exact mem_filter.mpr ⟨listed, evictable⟩

theorem Capped.evictExecutionEntries (capped : Capped store connection) :
    store.evictExecutionEntries connection = store := by
  have none_go : store.evicted connection = [] := by
    unfold evicted
    dsimp only
    cases capped with
    | inl few =>
      rw [Nat.sub_eq_zero_of_le few]
      rfl
    | inr nobody =>
      have nothing : (store.entriesOf connection).filter store.isEvictable = [] := by
        refine filter_eq_nil_iff.mpr fun state listed => ?_
        rw [nobody state listed]
        exact Bool.false_ne_true
      rw [nothing]
      exact take_nil
  unfold ExecutionStore.evictExecutionEntries
  rw [none_go]
  rfl

theorem Evicted.capped (evicted : Evicted store gone left) (tidy : Tidy store)
    (capped : Capped store connection) : Capped left connection := by
  unfold Capped
  rw [evicted.entriesOf tidy]
  cases capped with
  | inl few => exact .inl ((length_filter_le _ _).trans few)
  | inr nobody =>
    refine .inr fun state listed => ?_
    rw [mem_filter, decide_eq_true_eq] at listed
    rw [evicted.isEvictable listed.2]
    exact nobody state listed.1

end Cap

/-! ## The budget of previews -/

/-- The previews of an entry go. -/
def strip (map : Table ExecutionState) (state : ExecutionState) : Table ExecutionState :=
  map.set state.key (stripPreviewFrames state)

structure Trimmed (store : ExecutionStore) (gone : List String) (left : ExecutionStore) :
    Prop where
  get : ∀ key, left.map.get key = (store.map.get key).map fun state =>
    if key ∈ gone then stripPreviewFrames state else state
  keys : left.map.map Prod.fst = store.map.map Prod.fst
  count : ∀ connection,
    (left.entriesOf connection).length = (store.entriesOf connection).length
  unconfirmed : left.unconfirmed = store.unconfirmed
  lost : left.provisionallyLost = store.provisionallyLost
  buried : left.recentlyEvicted = store.recentlyEvicted
  retained : left.retained = store.retained

/-- The bytes of an entry that count for the budget of a connection. -/
def weight (store : ExecutionStore) (connection key : String) : Nat :=
  match store.map.get key with
  | some state =>
    if state.ref.connection = connection ∧ store.isBudgeted state = true then
      previewBytesOf state
    else 0
  | none => 0

/-- The bytes that count are within the budget, or one entry holds them all. -/
def Frugal (store : ExecutionStore) (connection : String) : Prop :=
  (∀ keys : Finset String,
      ∑ key ∈ keys, store.weight connection key ≤ terminalPreviewByteBudget) ∨
    ∃ holder, ∀ key, key ≠ holder → store.weight connection key = 0

section Budget

variable {store left : ExecutionStore} {connection key : String} {state : ExecutionState}
  {gone : List String}

@[simp] theorem previewBytesOf_strip (state : ExecutionState) :
    previewBytesOf (stripPreviewFrames state) = 0 :=
  rfl

theorem previewBytesOf_of_not_hasPreviews (bare : hasPreviews state = false) :
    previewBytesOf state = 0 := by
  unfold hasPreviews at bare
  simp only [Bool.or_eq_false_iff, isSome_eq_false_iff, isNone_iff_eq_none,
    decide_eq_false_iff_not, not_not] at bare
  obtain ⟨⟨last, previews⟩, rings⟩ := bare
  have frames : state.frames = [] := by
    simp [ExecutionState.frames, last, previews, rings, recordValues, Record.empty]
  unfold previewBytesOf
  rw [frames]
  rfl

theorem length_entriesOf (store : ExecutionStore) (connection : String) :
    (store.entriesOf connection).length =
      store.map.countP fun entry => decide (entry.2.ref.connection = connection) := by
  unfold entriesOf states
  rw [← countP_eq_length_filter, countP_map]
  rfl

/-- What is stripped stays in place. -/
theorem foldl_strip (goes : List ExecutionState) (distinct : (goes.map (·.key)).Nodup)
    (store : ExecutionStore) (held : ∀ state ∈ goes, store.map.get state.key = some state) :
    Trimmed store (goes.map (·.key)) { store with map := goes.foldl strip store.map } := by
  induction goes generalizing store with
  | nil =>
    refine ⟨fun key => ?_, rfl, fun _ => rfl, rfl, rfl, rfl, rfl⟩
    simp
  | cons state goes ih =>
    rw [map_cons, nodup_cons] at distinct
    have found := held state mem_cons_self
    have others : ∀ other ∈ goes, (strip store.map state).get other.key = some other := by
      intro other listed
      have different : state.key ≠ other.key := fun same =>
        distinct.1 (same ▸ List.mem_map_of_mem listed)
      unfold strip
      rw [Table.get_set, if_neg different]
      exact held other (mem_cons_of_mem _ listed)
    have rest := ih distinct.2 { store with map := strip store.map state } others
    refine ⟨fun key => ?_, ?_, fun connection => ?_, rfl, rfl, rfl, rfl⟩
    · rw [foldl_cons, rest.get, strip, Table.get_set, map_cons]
      by_cases same : state.key = key
      · rw [if_pos same, ← same, found, map_some, map_some, if_neg distinct.1, if_pos mem_cons_self]
      · rw [if_neg same]
        congr 1
        funext other
        simp [mem_cons, Ne.symm same]
    · exact rest.keys.trans (Table.keys_set_of_get found)
    · refine (rest.count connection).trans ?_
      rw [length_entriesOf, length_entriesOf]
      exact @Table.countP_set_of_get _ _ _ _ (stripPreviewFrames state)
        (fun state => decide (state.ref.connection = connection)) found rfl

/-- The loop keeps a front of its list and strips the back. -/
theorem stripOlder_split (older : List ExecutionState) (map : Table ExecutionState) (total : Nat) :
    ∃ kept goes, older = kept ++ goes ∧ stripOlder map total older = goes.foldl strip map ∧
      (kept = [] ∨ total + (kept.map previewBytesOf).sum ≤ terminalPreviewByteBudget) := by
  induction older generalizing map total with
  | nil => exact ⟨[], [], rfl, rfl, .inl rfl⟩
  | cons state older ih =>
    unfold stripOlder
    dsimp only
    split
    · rename_i within
      obtain ⟨kept, goes, rfl, stripped, bound⟩ := ih map (total + previewBytesOf state)
      refine ⟨state :: kept, goes, rfl, stripped, .inr ?_⟩
      rw [map_cons, sum_cons, ← Nat.add_assoc]
      cases bound with
      | inl nobody =>
        rw [nobody]
        exact within
      | inr bound => exact bound
    · rename_i exceeded
      obtain ⟨kept, goes, split, stripped, bound⟩ :=
        ih (strip map state) (total + previewBytesOf state)
      have nobody : kept = [] := bound.resolve_right fun within => exceeded (by omega)
      rw [nobody, nil_append] at split
      refine ⟨[], state :: goes, ?_, stripped, .inl rfl⟩
      rw [split, nil_append]

theorem Tidy.mem_budgeted (tidy : Tidy store) : state ∈ store.budgeted connection ↔
      store.map.get state.key = some state ∧ state.ref.connection = connection ∧
        store.isBudgeted state = true ∧ hasPreviews state = true := by
  unfold budgeted
  rw [mem_insertionSort, mem_filter, tidy.mem_states, Bool.and_eq_true,
    Bool.and_eq_true, decide_eq_true_eq, and_assoc]

theorem Tidy.nodup_budgeted (tidy : Tidy store) (connection : String) :
    ((store.budgeted connection).map (·.key)).Nodup := by
  unfold budgeted
  refine (List.Perm.map _ (perm_insertionSort _ _)).nodup_iff.mpr ?_
  exact tidy.nodup_keys.sublist (filter_sublist.map _)

/-- What the enforcement keeps and strips. -/
theorem Tidy.enforcePreviewBudget (tidy : Tidy store) (connection : String) :
    ∃ kept goes, store.budgeted connection = kept ++ goes ∧
      Trimmed store (goes.map (·.key)) (store.enforcePreviewBudget connection) ∧
      (kept.length ≤ 1 ∨ (kept.map previewBytesOf).sum ≤ terminalPreviewByteBudget) := by
  have distinct := tidy.nodup_budgeted connection
  have held : ∀ state ∈ store.budgeted connection, store.map.get state.key = some state :=
    fun state listed => (tidy.mem_budgeted.mp listed).1
  unfold ExecutionStore.enforcePreviewBudget
  cases listed : store.budgeted connection with
  | nil =>
    have nothing := foldl_strip [] nodup_nil store fun _ back => (nomatch back)
    exact ⟨[], [], rfl, nothing, .inl (Nat.zero_le 1)⟩
  | cons newest older =>
    rw [listed, map_cons, nodup_cons] at distinct
    rw [listed] at held
    obtain ⟨kept, goes, rfl, stripped, bound⟩ :=
      stripOlder_split older store.map (previewBytesOf newest)
    dsimp only
    refine ⟨newest :: kept, goes, rfl, ?_, ?_⟩
    · rw [stripped]
      refine foldl_strip goes (distinct.2.sublist ((sublist_append_right kept goes).map _))
        store fun state back => ?_
      exact held state (mem_cons_of_mem _ (mem_append_right _ back))
    · cases bound with
      | inl nobody => exact .inl (by rw [nobody]; exact Nat.le_refl 1)
      | inr within => exact .inr within

section

variable (trimmed : Trimmed store gone left)

include trimmed

theorem Trimmed.get_eq_some (found : left.map.get key = some state) :
    ∃ before, store.map.get key = some before ∧
      state = if key ∈ gone then stripPreviewFrames before else before := by
  rw [trimmed.get, map_eq_some_iff] at found
  obtain ⟨before, known, rfl⟩ := found
  exact ⟨before, known, rfl⟩

theorem Trimmed.isSome (key : String) : (left.map.get key).isSome = (store.map.get key).isSome := by
  rw [trimmed.get, isSome_map]

theorem Trimmed.tidy (tidy : Tidy store) : Tidy left := by
  refine ⟨trimmed.keys ▸ tidy.distinct, fun found => ?_, fun listed => ?_, fun listed => ?_,
    fun listed => ?_, fun found => ?_, fun found gone => ?_⟩
  · obtain ⟨before, known, rfl⟩ := trimmed.get_eq_some found
    have keyed := tidy.keyed known
    split <;> exact keyed
  · rw [trimmed.isSome]
    exact tidy.unconfirmed (trimmed.unconfirmed ▸ listed)
  · rw [trimmed.isSome]
    exact tidy.lost (trimmed.lost ▸ listed)
  · rw [trimmed.get, tidy.buried (trimmed.buried ▸ listed)]
    rfl
  · obtain ⟨before, known, rfl⟩ := trimmed.get_eq_some found
    rw [trimmed.lost, ← tidy.verdict known]
    split <;> rfl
  · obtain ⟨before, known, rfl⟩ := trimmed.get_eq_some found
    have interrupted := tidy.interrupted known (trimmed.lost ▸ gone)
    split <;> exact interrupted

theorem Trimmed.isEvictable (state : ExecutionState) :
    left.isEvictable state = store.isEvictable state := by
  unfold ExecutionStore.isEvictable ExecutionStore.isAuthoritativeTerminal
  rw [trimmed.lost, trimmed.unconfirmed, trimmed.retained]

theorem Trimmed.capped (tidy : Tidy store) (capped : Capped store connection) :
    Capped left connection := by
  unfold Capped
  rw [trimmed.count]
  refine capped.imp_right fun nobody state listed => ?_
  obtain ⟨held, here⟩ := mem_entriesOf.mp listed
  have found := (trimmed.tidy tidy).mem_states.mp held
  obtain ⟨before, known, same⟩ := trimmed.get_eq_some found
  have keyed := (tidy.keyed known).1
  have before_listed : before ∈ store.entriesOf connection := by
    refine mem_entriesOf.mpr ⟨tidy.mem_states.mpr (keyed ▸ known), ?_⟩
    rw [← here, same]
    split <;> rfl
  have stays := nobody before before_listed
  rw [trimmed.isEvictable, same]
  split <;> exact stays

theorem Trimmed.weight_le (connection key : String) :
    left.weight connection key ≤ store.weight connection key := by
  unfold weight
  rw [trimmed.get]
  cases store.map.get key with
  | none => exact Nat.le_refl 0
  | some before =>
    rw [map_some]
    dsimp only
    split
    · rw [previewBytesOf_strip]
      split <;> exact Nat.zero_le _
    · unfold isBudgeted
      rw [trimmed.unconfirmed]

theorem Trimmed.weight_of_mem (connection : String) (out : key ∈ gone) :
    left.weight connection key = 0 := by
  unfold weight
  rw [trimmed.get]
  cases store.map.get key with
  | none => rfl
  | some before =>
    rw [map_some, if_pos out]
    dsimp only
    rw [previewBytesOf_strip]
    split <;> rfl

end

/-- Where no bytes are added, the budget is kept. -/
theorem Frugal.of_le (frugal : Frugal store connection)
    (fewer : ∀ key, left.weight connection key ≤ store.weight connection key) :
    Frugal left connection := by
  cases frugal with
  | inl within =>
    exact .inl fun keys => (Finset.sum_le_sum fun key _ => fewer key).trans (within keys)
  | inr single =>
    obtain ⟨holder, bare⟩ := single
    exact .inr ⟨holder, fun key other => Nat.le_zero.mp (bare key other ▸ fewer key)⟩

theorem Evicted.weight_le (evicted : Evicted store gone left) (connection key : String) :
    left.weight connection key ≤ store.weight connection key := by
  unfold weight
  rw [evicted.get]
  split
  · rename_i same
    split at same
    · cases same
    · rename_i state kept
      rw [same]
      dsimp only
      by_cases counts : state.ref.connection = connection ∧ left.isBudgeted state = true
      · have counted : store.isBudgeted state = true := by
          obtain ⟨_, counts⟩ := counts
          unfold isBudgeted at counts ⊢
          rw [Bool.or_eq_true, decide_eq_true_eq] at counts ⊢
          exact counts.imp_right fun listed => ((evicted.unconfirmed _).mp listed).1
        rw [if_pos counts, if_pos ⟨counts.1, counted⟩]
      · rw [if_neg counts]
        exact Nat.zero_le _
  · exact Nat.zero_le _

/-- Every entry whose bytes count is a candidate. -/
theorem Tidy.mem_budgeted_of_weight (tidy : Tidy store) (heavy : store.weight connection key ≠ 0) :
    ∃ state ∈ store.budgeted connection, state.key = key := by
  unfold weight at heavy
  split at heavy
  · rename_i state found
    split at heavy
    · rename_i counts
      have keyed := (tidy.keyed found).1
      refine ⟨state, tidy.mem_budgeted.mpr ⟨keyed ▸ found, counts.1, counts.2, ?_⟩, keyed⟩
      by_contra bare
      exact heavy (previewBytesOf_of_not_hasPreviews (Bool.eq_false_iff.mpr bare))
    · exact absurd rfl heavy
  · exact absurd rfl heavy

theorem Tidy.weight_le_of_mem_budgeted (tidy : Tidy store)
    (listed : state ∈ store.budgeted connection) :
    store.weight connection state.key ≤ previewBytesOf state := by
  unfold weight
  rw [(tidy.mem_budgeted.mp listed).1]
  dsimp only
  split
  · exact Nat.le_refl _
  · exact Nat.zero_le _

theorem Tidy.frugal_enforcePreviewBudget (tidy : Tidy store) (connection : String) :
    Frugal (store.enforcePreviewBudget connection) connection := by
  obtain ⟨kept, goes, split, trimmed, bound⟩ := tidy.enforcePreviewBudget connection
  have holders : ∀ key, (store.enforcePreviewBudget connection).weight connection key ≠ 0 →
      key ∈ kept.map (·.key) := by
    intro key heavy
    have before : store.weight connection key ≠ 0 := fun bare =>
      heavy (Nat.le_zero.mp (bare ▸ trimmed.weight_le connection key))
    obtain ⟨state, listed, rfl⟩ := tidy.mem_budgeted_of_weight before
    rw [split] at listed
    cases mem_append.mp listed with
    | inl front => exact List.mem_map_of_mem front
    | inr back => exact absurd (trimmed.weight_of_mem connection (List.mem_map_of_mem back)) heavy
  have distinct : (kept.map (·.key)).Nodup := by
    have all := tidy.nodup_budgeted connection
    rw [split, map_append] at all
    exact all.sublist (sublist_append_left _ _)
  cases bound with
  | inl single =>
    cases kept with
    | nil =>
      refine .inr ⟨"", fun key _ => ?_⟩
      by_contra heavy
      exact absurd (holders key heavy) not_mem_nil
    | cons newest others =>
      have alone : others = [] := length_eq_zero_iff.mp (by simpa using single)
      refine .inr ⟨newest.key, fun key other => ?_⟩
      by_contra heavy
      have holds := holders key heavy
      rw [alone] at holds
      exact other (mem_singleton.mp holds)
  | inr within =>
    refine .inl fun keys => ?_
    calc ∑ key ∈ keys, (store.enforcePreviewBudget connection).weight connection key
        ≤ ∑ key ∈ (kept.map (·.key)).toFinset,
            (store.enforcePreviewBudget connection).weight connection key :=
          Finset.sum_le_sum_of_ne_zero fun key _ heavy =>
            List.mem_toFinset.mpr (holders key heavy)
      _ = ((kept.map (·.key)).map
            ((store.enforcePreviewBudget connection).weight connection)).sum :=
          sum_toFinset _ distinct
      _ ≤ (kept.map previewBytesOf).sum := by
          rw [List.map_map]
          refine sum_le_sum fun state front => ?_
          have listed : state ∈ store.budgeted connection := by
            rw [split]
            exact mem_append_left _ front
          exact (trimmed.weight_le connection state.key).trans
            (tidy.weight_le_of_mem_budgeted listed)
      _ ≤ terminalPreviewByteBudget := within

end Budget

end ExecutionStore

end Dinkster.Execution
