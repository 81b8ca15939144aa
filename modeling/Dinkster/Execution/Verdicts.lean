import Dinkster.Execution.Retention
import Dinkster.Execution.Snapshots

/-!
# Verdicts that last

A verdict that was observed stays until its entry is evicted.  A snapshot of the nodes never takes
one of them back, and a snapshot that is applied again does nothing.
-/

namespace Dinkster.Execution

open Library Format List

namespace ExecutionStore

/-- An execution has ended for good. -/
def Final (store : ExecutionStore) (key : String) (status : ExecutionStatus) (time : Rat) : Prop :=
  ∃ state, store.map.get key = some state ∧ state.status = status ∧ state.endedAt = some time ∧
    status.isTerminal = true ∧ key ∉ store.provisionallyLost

section Final

variable {store left trimmed : ExecutionStore} {call : Call} {key : String}
  {status : ExecutionStatus} {time : Rat} {stripped gone : List String}

theorem Trimmed.final (strips : Trimmed store stripped trimmed)
    (final : Final store key status time) : Final trimmed key status time := by
  obtain ⟨state, found, same, endedAt, terminal, known⟩ := final
  refine ⟨_, by rw [strips.get, found, Option.map_some], ?_, ?_, terminal, strips.lost ▸ known⟩
  · split <;> exact same
  · split <;> exact endedAt

theorem Evicted.final (leaves : Evicted store gone left) (final : Final store key status time) :
    left.map.get key = none ∨ Final left key status time := by
  obtain ⟨state, found, same, endedAt, terminal, known⟩ := final
  rw [leaves.get]
  split
  · exact .inl rfl
  · rename_i kept
    exact .inr ⟨state, leaves.get_eq_some.mpr ⟨kept, found⟩, same, endedAt, terminal,
      fun listed => known ((leaves.lost _).mp listed).1⟩

theorem Outcome.final_of_written (tidy : Tidy store) (enforces evicts : Bool)
    (connection : String) (final : Final store key status time) :
    (store.sweep enforces evicts connection).map.get key = none ∨
      Final (store.sweep enforces evicts connection) key status time := by
  obtain ⟨trimmed, stripped, gone, swept⟩ := tidy.swept enforces evicts connection
  exact swept.leaves.final (swept.strips.final final)

/-- No call takes a verdict back. -/
theorem Outcome.final (outcome : Outcome store call left) (tidy : Tidy store)
    (final : Final store key status time) :
    left.map.get key = none ∨ Final left key status time := by
  cases outcome with
  | unwritten map unconfirmed lost buried pinned unobserved unvouched =>
    obtain ⟨state, found, same, endedAt, terminal, known⟩ := final
    exact .inr ⟨state, map ▸ found, same, endedAt, terminal, lost ▸ known⟩
  | released ref retained pinned unobserved unvouched =>
    have kept : Final { store with retained } key status time := final
    exact (evictExecutionEntries_evicted _ _).final kept
  | @written next written enforces evicts wrote still calm ends =>
    refine final_of_written (wrote.tidy tidy) enforces evicts next.ref.connection ?_
    obtain ⟨state, found, same, endedAt, terminal, known⟩ := final
    by_cases own : key = next.key
    · subst own
      have settled : store.isAuthoritativeTerminal state = true := by
        unfold isAuthoritativeTerminal
        rw [(tidy.keyed found).1, same, terminal, decide_eq_true known]
        rfl
      obtain ⟨status, ended, held⟩ := wrote.settled state found settled
      exact ⟨next, wrote.get_self, status.trans same, ended.trans endedAt, terminal, held⟩
    · exact ⟨state, (wrote.get_of_ne own).trans found, same, endedAt, terminal,
        fun listed => known ((wrote.lost _ own).mp listed)⟩

theorem Observes.isTerminal (observes : store.Observes key status time call) :
    status.isTerminal = true := by
  cases call with
  | apply event => exact EventBody.verdict_isTerminal observes.2.1
  | restoreCompleted run =>
    rw [observes.2.1]
    rfl
  | _ => cases observes

theorem Outcome.observed (outcome : Outcome store call left) (tidy : Tidy store)
    (observes : store.Observes key status time call) :
    left.map.get key = none ∨ Final left key status time := by
  cases outcome with
  | unwritten map unconfirmed lost buried pinned unobserved unvouched =>
    exact .inl (map ▸ unobserved observes)
  | released ref retained pinned unobserved unvouched => exact absurd observes unobserved
  | @written next written enforces evicts wrote still calm ends =>
    refine final_of_written (wrote.tidy tidy) enforces evicts next.ref.connection ?_
    obtain ⟨rfl, same, endedAt, known⟩ := wrote.observed observes
    exact ⟨next, wrote.get_self, same, endedAt, observes.isTerminal, known⟩

/-- A verdict stays while its entry does. -/
theorem Kept.final_run (kept : Kept store) (calls : List Call)
    (final : store.map.get key = none ∨ Final store key status time) :
    (∃ count, (store.run (calls.take count)).map.get key = none) ∨
      Final (store.run calls) key status time := by
  induction calls generalizing store with
  | nil => exact final.imp_left fun missing => ⟨0, missing⟩
  | cons call calls ih =>
    cases final with
    | inl missing => exact .inl ⟨0, missing⟩
    | inr final =>
      have next := (kept.tidy.outcome call).final kept.tidy final
      refine (ih (kept.step call) next).imp_left fun ⟨count, missing⟩ => ?_
      exact ⟨count + 1, missing⟩

end Final

variable (lost : Bool)

def sampled (nodes : Record NodeProgress) (state : ExecutionState) : ExecutionState :=
  if lost then { revived state with nodes := mergeSnapshotNodes state.nodes nodes }
  else
    { state with
      status := state.status.noticed
      nodes := mergeSnapshotNodes state.nodes nodes }

theorem sampled_nodes (nodes : Record NodeProgress) (state : ExecutionState) :
    (sampled lost nodes state).nodes = mergeSnapshotNodes state.nodes nodes := by
  cases lost <;> rfl

theorem sampled_key (nodes : Record NodeProgress) (state : ExecutionState) :
    (sampled lost nodes state).key = state.key := by
  cases lost <;> rfl

theorem sampled_ref (nodes : Record NodeProgress) (state : ExecutionState) :
    (sampled lost nodes state).ref = state.ref := by
  cases lost <;> rfl

theorem noticed_again (status : ExecutionStatus) : status.noticed.noticed = status.noticed := by
  cases status <;> rfl

/-- A snapshot that was merged says nothing new. -/
theorem sampled_again (nodes : Record NodeProgress) (state : ExecutionState) :
    sampled false nodes (sampled lost nodes state) = sampled lost nodes state := by
  unfold sampled
  cases lost with
  | false =>
    dsimp only
    rw [if_neg Bool.false_ne_true, if_neg Bool.false_ne_true]
    simp only [noticed_again, mergeSnapshotNodes_again]
  | true =>
    dsimp only
    rw [if_neg Bool.false_ne_true, if_pos rfl]
    simp only [mergeSnapshotNodes_again]
    rfl

section Snapshots

variable {store : ExecutionStore} {event : ExecutionEvent} {nodes : Record NodeProgress}
  {state : ExecutionState} (snapshot : event.body = .nodeStates nodes true)

include snapshot

theorem transition_snapshot (lost unconfirmed : Bool) (state : ExecutionState) :
    transition lost unconfirmed event state = some ⟨sampled lost nodes state, true, .nothing⟩ := by
  unfold transition sampled
  rw [snapshot]
  cases lost <;> rfl

theorem not_starts : event.starts = false := by
  unfold ExecutionEvent.starts
  rw [snapshot]

theorem applyEvent_snapshot (found : store.map.get (executionKey event.execution) = some state)
    (place : state.ref = event.execution) : store.applyEvent event = store.putChange state
        ⟨sampled (state.key ∈ store.provisionallyLost) nodes state, true, .nothing⟩ := by
  have noted : store.note event = store := by
    unfold note
    dsimp only
    rw [not_starts snapshot, found, if_neg Bool.false_ne_true]
    rfl
  rw [applyEvent_eq, found, noted]
  simp only [Option.isNone_some, Bool.and_false, Bool.false_and, Bool.false_eq_true, if_false]
  rw [applyToState_eq place, transition_snapshot snapshot]
  rfl

theorem applyEvent_snapshot_self (found : store.map.get (executionKey event.execution) = some state)
    (place : state.ref = event.execution) (key : state.key = executionKey event.execution)
    (known : state.key ∉ store.provisionallyLost) (same : sampled false nodes state = state) :
    store.applyEvent event = store := by
  have kept : dropKey store.provisionallyLost state.key = store.provisionallyLost := by
    refine filter_eq_self.mpr fun other listed => decide_eq_true ?_
    exact fun equal => known (equal ▸ listed)
  rw [applyEvent_snapshot snapshot found place, decide_eq_false known, same]
  unfold putChange put
  dsimp only
  rw [if_pos rfl, kept, key, Table.set_of_get found]

end Snapshots

section Unknown

variable {store written : ExecutionStore} {call : Call} {next : ExecutionState}
  {connection : String}

/-- A new entry takes at most one entry's place. -/
theorem Written.length_evicted_le (wrote : Written store call next written) (tidy : Tidy store)
    (missing : store.map.get next.key = none) (capped : Capped store connection) :
    (written.evicted connection).length ≤ 1 := by
  have states : written.states = store.states ++ [next] := by
    unfold states
    rw [wrote.map, Table.set_of_get_none missing, map_append]
    rfl
  have entries : written.entriesOf connection =
      store.entriesOf connection ++ [next].filter fun state =>
        decide (state.ref.connection = connection) := by
    unfold entriesOf
    rw [states, filter_append]
  have one : ∀ keeps : ExecutionState → Bool, ([next].filter keeps).length ≤ 1 := fun keeps =>
    length_filter_le keeps [next]
  unfold evicted
  dsimp only
  rw [length_take, length_insertionSort]
  cases capped with
  | inl few =>
    refine (Nat.min_le_left _ _).trans ?_
    have more := one fun state => decide (state.ref.connection = connection)
    rw [entries, length_append]
    omega
  | inr nobody =>
    refine (Nat.min_le_right _ _).trans ?_
    have others : (store.entriesOf connection).filter written.isEvictable = [] := by
      refine filter_eq_nil_iff.mpr fun state listed => ?_
      have found := tidy.mem_states.mp (mem_entriesOf.mp listed).1
      have other : state.key ≠ next.key := fun same => by
        rw [same, missing] at found
        cases found
      rw [wrote.isEvictable_of_ne other, nobody state listed]
      exact Bool.false_ne_true
    rw [entries, filter_append, others, nil_append, filter_filter]
    exact one _

/-- A key that is buried can be found. -/
theorem mem_tombstone_self {keys : List String} {key : String} (fresh : key ∉ keys) :
    key ∈ tombstone keys key := by
  have cap := executionEntryCap_pos
  unfold tombstone addKey
  rw [if_neg fresh]
  dsimp only
  split
  · exact mem_append_right _ (mem_singleton_self key)
  · rename_i full
    cases keys with
    | nil =>
      rw [nil_append, length_singleton] at full
      omega
    | cons first rest => exact mem_append_right _ (mem_singleton_self key)

/-- What goes alone is buried. -/
theorem mem_recentlyEvicted_of_gone (single : (store.evicted connection).length ≤ 1)
    {key : String} (fresh : key ∉ store.recentlyEvicted)
    (going : key ∈ (store.evicted connection).map (·.key)) :
    key ∈ (store.evictExecutionEntries connection).recentlyEvicted := by
  unfold evictExecutionEntries
  cases listed : store.evicted connection with
  | nil =>
    rw [listed] at going
    exact absurd going not_mem_nil
  | cons first rest =>
    rw [listed, length_cons] at single
    have alone : rest = [] := length_eq_zero_iff.mp (by omega)
    rw [listed, alone] at going
    obtain rfl := mem_singleton.mp going
    rw [alone]
    exact mem_tombstone_self fresh

end Unknown

section Again

variable {store : ExecutionStore} {event : ExecutionEvent} {nodes : Record NodeProgress}

/-- A straggler that is dropped is dropped again. -/
theorem applyEvent_buried (quiet : event.starts = false)
    (missing : store.map.get (executionKey event.execution) = none)
    (buried : executionKey event.execution ∈ store.recentlyEvicted) :
    store.applyEvent event = store := by
  rw [applyEvent_eq, missing, quiet]
  exact if_pos (by simpa using buried)

theorem Kept.applyEvent_again_of_missing (kept : Kept store)
    (snapshot : event.body = .nodeStates nodes true)
    (missing : store.map.get (executionKey event.execution) = none)
    (fresh : executionKey event.execution ∉ store.recentlyEvicted) :
    (store.applyEvent event).applyEvent event = store.applyEvent event := by
  have tidy := kept.tidy
  have quiet := not_starts snapshot
  have admitted : (!event.starts && (store.map.get (executionKey event.execution)).isNone &&
      decide (executionKey event.execution ∈ store.recentlyEvicted)) = false := by
    rw [decide_eq_false fresh, Bool.and_false]
  have noted_of := tidy.noted event admitted
  have bare := bare_created event
  have applied := applyEvent_eq store event
  rw [admitted, missing, if_neg Bool.false_ne_true] at applied
  dsimp only at applied
  generalize ExecutionState.created event.execution event.timestamp = created at bare applied
  rw [← bare.key] at missing noted_of
  generalize store.note event = noted at noted_of applied
  have made := transition_snapshot snapshot (created.key ∈ store.provisionallyLost)
    (created.key ∈ (noted.put created).unconfirmed) created
  have wrote := bare.written tidy missing noted_of
    (fun starts => absurd (quiet.symm.trans starts) Bool.false_ne_true) made
  have same := sampled_again (created.key ∈ store.provisionallyLost) nodes created
  have key := (sampled_key (created.key ∈ store.provisionallyLost) nodes created).trans bare.key
  have place := (sampled_ref (created.key ∈ store.provisionallyLost) nodes created).trans bare.place
  rw [applyToState_eq bare.place, noted_of.put.lost, made] at applied
  dsimp only at wrote applied
  generalize sampled (created.key ∈ store.provisionallyLost) nodes created = next
    at wrote same key place applied
  have known : next.key ∉ ((noted.put created).putChange created
      ⟨next, true, .nothing⟩).provisionallyLost := by
    rw [mem_lost_putChange]
    exact fun listed => listed.2 ⟨rfl, key.trans bare.key.symm⟩
  generalize (noted.put created).putChange created ⟨next, true, .nothing⟩ = written
    at wrote known applied
  have applied : store.applyEvent event =
      written.evictExecutionEntries event.execution.connection := applied
  have leaves := evictExecutionEntries_evicted written event.execution.connection
  rw [applied]
  by_cases going : next.key ∈ (written.evicted event.execution.connection).map (·.key)
  · -- The snapshot found no room: its entry went at once, and its key is buried.
    have once := wrote.length_evicted_le tidy (by rw [key, ← bare.key]; exact missing)
      (kept.capped event.execution.connection)
    refine applyEvent_buried quiet ?_ ?_
    · rw [leaves.get, ← key, if_pos going]
    · rw [← key]
      exact mem_recentlyEvicted_of_gone once (fun listed => (wrote.buried _ listed).2 rfl) going
  · refine applyEvent_snapshot_self snapshot ?_ place key ?_ same
    · rw [← key]
      exact leaves.get_eq_some.mpr ⟨going, wrote.get_self⟩
    · exact fun listed => known ((leaves.lost _).mp listed).1

theorem Kept.applyEvent_again (kept : Kept store) (snapshot : event.body = .nodeStates nodes true) :
    (store.applyEvent event).applyEvent event = store.applyEvent event := by
  cases found : store.map.get (executionKey event.execution) with
  | some state =>
    obtain ⟨key, keyed⟩ := kept.tidy.keyed found
    have place : state.ref = event.execution := (executionKey_injective keyed).symm
    rw [applyEvent_snapshot snapshot found place]
    generalize decide (state.key ∈ store.provisionallyLost) = lost
    have own := sampled_key lost nodes state
    refine applyEvent_snapshot_self snapshot ?_ ((sampled_ref lost nodes state).trans place)
      (own.trans key) ?_ (sampled_again lost nodes state)
    · unfold putChange put
      dsimp only
      rw [Table.get_set, if_pos (own.trans key)]
    · rw [mem_lost_putChange]
      exact fun listed => listed.2 ⟨rfl, own⟩
  | none =>
    by_cases buried : executionKey event.execution ∈ store.recentlyEvicted
    · have dropped := applyEvent_buried (not_starts snapshot) found buried
      rw [dropped, dropped]
    · exact kept.applyEvent_again_of_missing snapshot found buried

end Again

theorem Tidy.snapshot_kept {store : ExecutionStore} (tidy : Tidy store) {event : ExecutionEvent}
    {nodes : Record NodeProgress} (snapshot : event.body = .nodeStates nodes true)
    {state : ExecutionState} {nodeId : String} {live : NodeProgress}
    (found : store.map.get (executionKey event.execution) = some state)
    (known : state.nodes.get nodeId = some live) (ended : live.state.isTerminal = true) :
    ∃ next merged, (store.applyEvent event).map.get (executionKey event.execution) = some next ∧
      next.nodes.get nodeId = some merged ∧ merged.state = live.state ∧
      ∀ {name summary}, (live.outputs.getD Record.empty).get name = some summary →
        (merged.outputs.getD Record.empty).get name = some summary := by
  obtain ⟨key, keyed⟩ := tidy.keyed found
  obtain ⟨merged, held, same, outputs⟩ := @mergeSnapshotNodes_of_isTerminal _ nodes _ _ known ended
  rw [applyEvent_snapshot snapshot found (executionKey_injective keyed).symm]
  generalize decide (state.key ∈ store.provisionallyLost) = lost
  refine ⟨sampled lost nodes state, merged, ?_, ?_, same, outputs⟩
  · unfold putChange put
    dsimp only
    rw [Table.get_set, if_pos ((sampled_key lost nodes state).trans key)]
  · rw [sampled_nodes]
    exact held

/-- Transitions are safe after any calls. -/
theorem transitions_safe (calls : List Call) :
    let store := empty.run calls
    (∀ key status time call, store.Observes key status time call → ∀ later,
      (∃ count, ((store.step call).run (later.take count)).map.get key = none) ∨
        ∃ state, ((store.step call).run later).map.get key = some state ∧
          state.status = status ∧ state.endedAt = some time) ∧
    (∀ key state, store.map.get key = some state →
      ((∃ diagnostic ∈ state.errors, diagnostic.code = lostCode) ↔ key ∈ store.provisionallyLost) ∧
      (key ∈ store.provisionallyLost → state.status = .interrupted)) ∧
    (∀ event nodes, event.body = .nodeStates nodes true →
      (∀ state nodeId live, store.map.get (executionKey event.execution) = some state →
        state.nodes.get nodeId = some live → live.state.isTerminal = true → ∃ next merged,
          (store.step (.apply event)).map.get (executionKey event.execution) = some next ∧
          next.nodes.get nodeId = some merged ∧ merged.state = live.state ∧
          ∀ name summary, (live.outputs.getD Record.empty).get name = some summary →
            (merged.outputs.getD Record.empty).get name = some summary) ∧
      (store.step (.apply event)).step (.apply event) = store.step (.apply event)) ∧
    ∀ event, event.starts = false → executionKey event.execution ∈ store.recentlyEvicted →
      store.map.get (executionKey event.execution) = none ∧ store.step (.apply event) = store := by
  intro store
  have kept : Kept store := empty_kept.run calls
  have tidy := kept.tidy
  refine ⟨fun key status time call observes later => ?_,
    fun key state found => ⟨tidy.verdict found, tidy.interrupted found⟩,
    fun event nodes snapshot => ⟨fun state nodeId live found known ended => ?_, ?_⟩,
    fun event quiet buried => ⟨tidy.buried buried, ?_⟩⟩
  · have final := (tidy.outcome call).observed tidy observes
    refine ((kept.step call).final_run later final).imp_right ?_
    rintro ⟨state, found, same, endedAt, _⟩
    exact ⟨state, found, same, endedAt⟩
  · obtain ⟨next, merged, held, node, same, outputs⟩ :=
      tidy.snapshot_kept snapshot found known ended
    exact ⟨next, merged, held, node, same, fun _ _ => outputs⟩
  · exact kept.applyEvent_again snapshot
  · exact applyEvent_buried quiet (tidy.buried buried) buried

end ExecutionStore

end Dinkster.Execution
