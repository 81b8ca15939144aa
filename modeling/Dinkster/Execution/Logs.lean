import Dinkster.Execution.Store

/-!
# The window of log records

Records may arrive in any order, more than once, and after others that were emitted later.  What a
state retains is the window of the latest ones that were delivered, whatever the order was.
-/

namespace Dinkster.Execution

open Library List

section Search

variable {logs : List ExecutionLogEntry} {seq : Rat}

/-- Records with smaller numbers stand before a position, the others behind it. -/
def Splits (logs : List ExecutionLogEntry) (seq : Rat) (index : Nat) : Prop :=
  (∀ entry ∈ logs.take index, entry.seq < seq) ∧ ∀ entry ∈ logs.drop index, seq < entry.seq

section

variable (sorted : logs.Pairwise (·.seq < ·.seq))

include sorted

/-- What stands around a record. -/
theorem around {index : Nat} {entry : ExecutionLogEntry} (found : logs[index]? = some entry) :
    logs.drop index = entry :: logs.drop (index + 1) ∧
      (∀ other ∈ logs.take index, other.seq < entry.seq) ∧
      ∀ other ∈ logs.drop (index + 1), entry.seq < other.seq := by
  obtain ⟨inside, same⟩ := List.getElem?_eq_some_iff.mp found
  have rest : logs.drop index = entry :: logs.drop (index + 1) := by
    rw [drop_eq_getElem_cons inside, same]
  rw [← take_append_drop index logs, rest] at sorted
  obtain ⟨_, later, across⟩ := pairwise_append.mp sorted
  exact ⟨rest, fun other listed => across other listed entry mem_cons_self,
    (pairwise_cons.mp later).1⟩

/-- The records before a position are smaller, and those from another one on are larger. -/
theorem searchLog_spec {fuel : Nat} :
    ∀ {low high : Nat}, low ≤ high → high ≤ logs.length → high - low ≤ fuel →
      (∀ entry ∈ logs.take low, entry.seq < seq) → (∀ entry ∈ logs.drop high, seq < entry.seq) →
      match searchLog logs seq fuel low high with
      | none => ∃ entry ∈ logs, entry.seq = seq
      | some index => Splits logs seq index := by
  induction fuel with
  | zero =>
    intro low high ordered inside enough before behind
    have same : low = high := by omega
    exact ⟨before, same ▸ behind⟩
  | succ fuel ih =>
    intro low high ordered inside enough before behind
    unfold searchLog
    by_cases more : low < high
    · rw [if_pos more]
      obtain ⟨entry, found⟩ : ∃ entry, logs[(low + (high - 1)) / 2]? = some entry :=
        ⟨_, getElem?_eq_getElem (by omega)⟩
      obtain ⟨rest, smaller, larger⟩ := around sorted found
      dsimp only
      rw [found]
      dsimp only
      by_cases here : entry.seq = seq
      · rw [if_pos here]
        exact ⟨entry, mem_of_getElem? found, here⟩
      · rw [if_neg here]
        by_cases less : entry.seq < seq
        · rw [if_pos less]
          refine ih (by omega) inside (by omega) (fun other listed => ?_) behind
          rw [take_add_one, found, mem_append] at listed
          cases listed with
          | inl listed => exact (smaller other listed).trans less
          | inr listed => exact mem_singleton.mp listed ▸ less
        · rw [if_neg less]
          refine ih (by omega) (by omega) (by omega) before fun other listed => ?_
          have beyond : seq < entry.seq := lt_of_le_of_ne (not_lt.mp less) (Ne.symm here)
          rw [rest] at listed
          cases mem_cons.mp listed with
          | inl same => exact same ▸ beyond
          | inr listed => exact beyond.trans (larger other listed)
    · rw [if_neg more]
      have same : low = high := by omega
      exact ⟨before, same ▸ behind⟩

/-- `logInsertionIndex` finds where a record belongs, unless it is there. -/
theorem logInsertionIndex_spec (seq : Rat) :
    match logInsertionIndex logs seq with
    | none => ∃ entry ∈ logs, entry.seq = seq
    | some index => Splits logs seq index := by
  unfold logInsertionIndex
  cases found : logs.getLast? with
  | none =>
    rw [getLast?_eq_none_iff] at found
    rw [found]
    exact ⟨nofun, nofun⟩
  | some last =>
    dsimp only
    obtain ⟨front, split⟩ := List.getLast?_eq_some_iff.mp found
    by_cases less : last.seq < seq
    · rw [if_pos less]
      refine ⟨fun entry listed => ?_, by simp⟩
      have listed := mem_of_mem_take listed
      rw [split] at listed sorted
      cases mem_append.mp listed with
      | inl listed =>
        exact ((pairwise_append.mp sorted).2.2 entry listed last (by simp)).trans less
      | inr listed => exact mem_singleton.mp listed ▸ less
    · rw [if_neg less]
      exact searchLog_spec sorted (Nat.zero_le _) (Nat.le_refl _) (Nat.le_refl _) (by simp)
        (by simp)

end

end Search

/-- What the log branch of `applyToState` does with a record. -/
def ExecutionState.receive (state : ExecutionState) (entry : ExecutionLogEntry) : ExecutionState :=
  match logInsertionIndex state.logs entry.seq with
  | none => state
  | some index =>
    if index = 0 && executionLogCap ≤ state.logs.length then state
    else insertLog state index entry

def seqs (records : List ExecutionLogEntry) : Finset Rat :=
  (records.map (·.seq)).toFinset

/-- Records that arrive for the first time arrive in the order of their numbers. -/
def InOrder (records : List ExecutionLogEntry) : Prop :=
  ∀ front entry back, records = front ++ entry :: back → entry.seq ∉ seqs front →
    ∀ other ∈ front, other.seq < entry.seq

/-- Equal numbers mean equal records. -/
def Coherent (records : List ExecutionLogEntry) : Prop :=
  ∀ first ∈ records, ∀ second ∈ records, first.seq = second.seq → first = second

/-- What a state retains of the records that were delivered. -/
structure Window (delivered logs : List ExecutionLogEntry) (dropped : Nat) : Prop where
  sorted : logs.Pairwise (·.seq < ·.seq)
  listed : ∀ entry ∈ logs, entry ∈ delivered
  small : logs.length ≤ executionLogCap
  kept : ∀ entry ∈ delivered, entry ∈ logs ∨
    logs.length = executionLogCap ∧ ∀ other ∈ logs, entry.seq < other.seq
  counted : logs.length + dropped ≤ (seqs delivered).card
  equal : InOrder delivered → logs.length + dropped = (seqs delivered).card

variable {records : List ExecutionLogEntry}

theorem mem_seqs {seq : Rat} : seq ∈ seqs records ↔ ∃ entry ∈ records, entry.seq = seq := by
  simp [seqs]

theorem seqs_append (records : List ExecutionLogEntry) (entry : ExecutionLogEntry) :
    seqs (records ++ [entry]) = insert entry.seq (seqs records) := by
  ext seq
  simp [seqs, eq_comm]

theorem InOrder.front {entry : ExecutionLogEntry} (ordered : InOrder (records ++ [entry])) :
    InOrder records :=
  fun front other back same =>
    ordered front other (back ++ [entry]) (by rw [same, append_assoc, cons_append])

namespace Window

variable {delivered : List ExecutionLogEntry} {state : ExecutionState}

theorem nil : Window [] [] 0 where
  sorted := .nil
  listed := nofun
  small := Nat.zero_le _
  kept := nofun
  counted := Nat.zero_le _
  equal := fun _ => rfl

variable {entry : ExecutionLogEntry}

section

variable (window : Window delivered state.logs state.logsDropped)

include window

/-- A record whose number was delivered before, or that is older than a full window. -/
theorem pass (old : entry ∈ state.logs ∨ state.logs.length = executionLogCap ∧
      ∀ other ∈ state.logs, entry.seq < other.seq) :
    Window (delivered ++ [entry]) state.logs state.logsDropped := by
  have more : (seqs delivered).card ≤ (seqs (delivered ++ [entry])).card := by
    rw [seqs_append]
    exact Finset.card_le_card (Finset.subset_insert _ _)
  refine ⟨window.sorted, fun other listed => mem_append_left _ (window.listed other listed),
    window.small, fun other listed => ?_, window.counted.trans more, fun ordered => ?_⟩
  · cases mem_append.mp listed with
    | inl before => exact window.kept other before
    | inr same => exact mem_singleton.mp same ▸ old
  · rw [window.equal ordered.front, seqs_append]
    refine (congrArg Finset.card (Finset.insert_eq_self.mpr ?_)).symm
    cases old with
    | inl known => exact mem_seqs.mpr ⟨entry, window.listed entry known, rfl⟩
    | inr older =>
      by_contra new
      obtain ⟨full, below⟩ := older
      obtain ⟨other, there⟩ : ∃ other, other ∈ state.logs :=
        exists_mem_of_length_pos (full ▸ executionLogCap_pos)
      have later := ordered delivered entry [] rfl new other (window.listed other there)
      exact (below other there).not_gt later

/-- A new record, where it belongs. -/
theorem insert {index : Nat} (splits : Splits state.logs entry.seq index)
    (room : index ≠ 0 ∨ state.logs.length < executionLogCap) :
    Window (delivered ++ [entry]) (insertLog state index entry).logs
      (insertLog state index entry).logsDropped := by
  have new : entry.seq ∉ seqs delivered := by
    intro known
    obtain ⟨other, before, same⟩ := mem_seqs.mp known
    cases window.kept other before with
    | inl there =>
      rw [← take_append_drop index state.logs] at there
      cases mem_append.mp there with
      | inl there => exact (splits.1 other there).ne same
      | inr there => exact (splits.2 other there).ne' same
    | inr older =>
      cases room with
      | inr room => exact room.ne older.1
      | inl some =>
        have filled : 0 < (state.logs.take index).length := by
          rw [length_take, older.1]
          exact lt_min (Nat.pos_of_ne_zero some) executionLogCap_pos
        obtain ⟨first, there⟩ := exists_mem_of_length_pos filled
        exact ((splits.1 first there).trans_eq same.symm).not_gt
          (older.2 first (mem_of_mem_take there))
  have more : (seqs (delivered ++ [entry])).card = (seqs delivered).card + 1 := by
    rw [seqs_append, Finset.card_insert_of_notMem new]
  have sorted : (state.logs.take index ++ entry :: state.logs.drop index).Pairwise
      (·.seq < ·.seq) := by
    have before := window.sorted
    rw [← take_append_drop index state.logs] at before
    obtain ⟨front, back, across⟩ := pairwise_append.mp before
    refine pairwise_append.mpr ⟨front, pairwise_cons.mpr ⟨splits.2, back⟩, ?_⟩
    intro first here second there
    cases mem_cons.mp there with
    | inl same => exact same ▸ splits.1 first here
    | inr there => exact across first here second there
  have members : ∀ other, other ∈ state.logs.take index ++ entry :: state.logs.drop index ↔
      other = entry ∨ other ∈ state.logs := by
    intro other
    conv_rhs => rw [← take_append_drop index state.logs]
    rw [mem_append, mem_cons, mem_append]
    exact or_left_comm
  have length : (state.logs.take index ++ entry :: state.logs.drop index).length =
      state.logs.length + 1 := by
    rw [length_append, length_cons, length_take, length_drop]
    omega
  have small := window.small
  have counted := window.counted
  unfold insertLog
  dsimp only
  rw [length]
  by_cases full : state.logs.length = executionLogCap
  · -- The oldest record makes room for the new one.
    have some : index ≠ 0 := room.resolve_right (by omega)
    have one : state.logs.length + 1 - executionLogCap = 1 := by omega
    obtain ⟨oldest, rest, split, there⟩ : ∃ oldest rest,
        state.logs.take index ++ entry :: state.logs.drop index = oldest :: rest ∧
          oldest ∈ state.logs.take index := by
      obtain ⟨index, rfl⟩ := Nat.exists_eq_succ_of_ne_zero some
      obtain ⟨oldest, rest, held⟩ := exists_cons_of_length_pos
        (full ▸ executionLogCap_pos : 0 < state.logs.length)
      rw [held]
      exact ⟨oldest, _, rfl, mem_cons_self⟩
    rw [split] at sorted members length
    obtain ⟨first, later⟩ := pairwise_cons.mp sorted
    rw [one, split, drop_one, tail_cons]
    rw [length_cons] at length
    have inside : ∀ other, other = entry ∨ other ∈ state.logs → other ≠ oldest → other ∈ rest :=
      fun other listed different =>
        (mem_cons.mp ((members other).mpr listed)).resolve_left different
    refine ⟨later, fun other listed => ?_, by omega, fun other listed => ?_, by omega,
      fun ordered => ?_⟩
    · cases (members other).mp (mem_cons_of_mem _ listed) with
      | inl same => simp [same]
      | inr there => exact mem_append_left _ (window.listed other there)
    · by_cases gone : other = oldest
      · exact .inr ⟨by omega, gone ▸ first⟩
      · cases mem_append.mp listed with
        | inr same => exact .inl (inside other (.inl (mem_singleton.mp same)) gone)
        | inl before =>
          refine (window.kept other before).imp (fun held => inside other (.inr held) gone) ?_
          rintro ⟨_, below⟩
          refine ⟨by omega, fun next listed => ?_⟩
          exact (below oldest (mem_of_mem_take there)).trans (first next listed)
    · rw [more, ← window.equal ordered.front]
      omega
  · have none : state.logs.length + 1 - executionLogCap = 0 := by omega
    rw [none, drop_zero, Nat.add_zero]
    refine ⟨sorted, fun other listed => ?_, by rw [length]; omega, fun other listed => .inl ?_,
      by rw [length]; omega, fun ordered => ?_⟩
    · cases (members other).mp listed with
      | inl same => simp [same]
      | inr there => exact mem_append_left _ (window.listed other there)
    · cases mem_append.mp listed with
      | inl before =>
        exact (members other).mpr (.inr ((window.kept other before).resolve_right
          fun older => full older.1))
      | inr same => exact (members other).mpr (.inl (mem_singleton.mp same))
    · rw [length, more, ← window.equal ordered.front]
      omega

theorem receive (coherent : Coherent (delivered ++ [entry])) :
    Window (delivered ++ [entry]) (state.receive entry).logs (state.receive entry).logsDropped := by
  have found := logInsertionIndex_spec window.sorted entry.seq
  unfold ExecutionState.receive
  cases place : logInsertionIndex state.logs entry.seq with
  | none =>
    rw [place] at found
    obtain ⟨other, there, same⟩ := found
    have equal := coherent other (mem_append_left _ (window.listed other there)) entry
      (by simp) same
    exact window.pass (.inl (equal ▸ there))
  | some index =>
    rw [place] at found
    dsimp only at found ⊢
    split
    · rename_i old
      rw [Bool.and_eq_true, decide_eq_true_eq, decide_eq_true_eq] at old
      obtain ⟨rfl, full⟩ := old
      exact window.pass (.inr ⟨le_antisymm window.small full, found.2⟩)
    · rename_i room
      rw [Bool.and_eq_true, decide_eq_true_eq, decide_eq_true_eq, not_and_or, not_le] at room
      exact window.insert found room

end

theorem receiveAll {records : List ExecutionLogEntry} :
    ∀ {delivered : List ExecutionLogEntry} {state : ExecutionState},
      Window delivered state.logs state.logsDropped → Coherent (delivered ++ records) →
      Window (delivered ++ records) (records.foldl ExecutionState.receive state).logs
        (records.foldl ExecutionState.receive state).logsDropped := by
  induction records with
  | nil =>
    intro delivered state window _
    rw [append_nil]
    exact window
  | cons entry rest ih =>
    intro delivered state window coherent
    have joined : delivered ++ entry :: rest = (delivered ++ [entry]) ++ rest := by simp
    rw [joined] at coherent ⊢
    refine ih (window.receive fun first here second there => ?_) coherent
    exact coherent first (mem_append_left _ here) second (mem_append_left _ there)

variable {logs : List ExecutionLogEntry}

/-- What a window retains are the records with the largest numbers. -/
theorem mem_iff {dropped : Nat} (window : Window delivered logs dropped) :
    entry ∈ logs ↔ entry ∈ delivered ∧
      ((seqs delivered).filter (entry.seq < ·)).card < executionLogCap := by
  have size : (seqs logs).card = logs.length := by
    have distinct : (logs.map (·.seq)).Nodup :=
      pairwise_map.mpr (window.sorted.imp fun less => less.ne)
    unfold seqs
    rw [toFinset_card_of_nodup distinct, length_map]
  constructor
  · intro held
    refine ⟨window.listed entry held, ?_⟩
    have within : (seqs delivered).filter (entry.seq < ·) ⊆ (seqs logs).erase entry.seq := by
      intro seq listed
      obtain ⟨known, larger⟩ := Finset.mem_filter.mp listed
      obtain ⟨other, before, same⟩ := mem_seqs.mp known
      refine Finset.mem_erase.mpr ⟨larger.ne', mem_seqs.mpr ⟨other, ?_, same⟩⟩
      refine (window.kept other before).resolve_right fun older => ?_
      exact (older.2 entry held).not_gt (same ▸ larger)
    calc ((seqs delivered).filter (entry.seq < ·)).card
        ≤ ((seqs logs).erase entry.seq).card := Finset.card_le_card within
      _ < (seqs logs).card :=
          Finset.card_erase_lt_of_mem (mem_seqs.mpr ⟨entry, held, rfl⟩)
      _ ≤ executionLogCap := size.trans_le window.small
  · rintro ⟨before, few⟩
    refine (window.kept entry before).resolve_right fun older => few.not_ge ?_
    have within : seqs logs ⊆ (seqs delivered).filter (entry.seq < ·) := by
      intro seq listed
      obtain ⟨other, there, same⟩ := mem_seqs.mp listed
      exact Finset.mem_filter.mpr ⟨mem_seqs.mpr ⟨other, window.listed other there, same⟩,
        same ▸ older.2 other there⟩
    calc executionLogCap = (seqs logs).card := (size.trans older.1).symm
      _ ≤ _ := Finset.card_le_card within

/-- Two windows of the same records retain the same. -/
theorem unique {other more : List ExecutionLogEntry} {dropped also : Nat}
    (window : Window delivered logs dropped) (second : Window other more also)
    (same : ∀ entry, entry ∈ delivered ↔ entry ∈ other) : logs = more := by
  have numbers : seqs delivered = seqs other := by
    ext seq
    rw [mem_seqs, mem_seqs]
    exact exists_congr fun entry => and_congr_left fun _ => same entry
  have members : ∀ entry, entry ∈ logs ↔ entry ∈ more := by
    intro entry
    rw [window.mem_iff, second.mem_iff, same, numbers]
  have irreflexive : ∀ {records : List ExecutionLogEntry},
      records.Pairwise (·.seq < ·.seq) → records.Nodup :=
    fun sorted => sorted.imp fun less equal => less.ne (congrArg _ equal)
  have perm := (perm_ext_iff_of_nodup (irreflexive window.sorted)
    (irreflexive second.sorted)).mpr members
  exact perm.eq_of_pairwise (fun _ _ _ _ less more => absurd more less.asymm)
    window.sorted second.sorted

end Window

def ExecutionEvent.logEntry (event : ExecutionEvent) : Option ExecutionLogEntry :=
  match event.body with
  | .log level message emittedAt seq runtimeNodeId origin logger pythonLevel =>
    some { level, message, timestamp := emittedAt.getD event.timestamp, runtimeNodeId, origin,
           logger, pythonLevel, seq }
  | _ => none

namespace ExecutionStore

variable {store : ExecutionStore} {state : ExecutionState} {event : ExecutionEvent}
  {entry : ExecutionLogEntry}

theorem receive_key (state : ExecutionState) (entry : ExecutionLogEntry) :
    (state.receive entry).key = state.key := by
  unfold ExecutionState.receive
  cases logInsertionIndex state.logs entry.seq with
  | none => rfl
  | some index =>
    dsimp only
    split <;> rfl

theorem transition_log (lost unconfirmed : Bool) (logs : event.logEntry = some entry) :
    transition lost unconfirmed event state = none ∧ state.receive entry = state ∨
      transition lost unconfirmed event state = some (.put (state.receive entry)) := by
  obtain ⟨execution, timestamp, body⟩ := event
  cases body with
  | log level message emittedAt seq runtimeNodeId origin logger pythonLevel =>
    cases logs
    unfold transition ExecutionState.receive
    dsimp only
    cases logInsertionIndex state.logs seq with
    | none => exact .inl ⟨rfl, rfl⟩
    | some index =>
      dsimp only
      by_cases old : (index = 0 && executionLogCap ≤ state.logs.length) = true
      · rw [if_pos old, if_pos old]
        exact .inl ⟨rfl, rfl⟩
      · rw [if_neg old, if_neg old]
        exact .inr rfl
  | _ => cases logs

theorem get_applyEvent_log (known : store.map.get (executionKey event.execution) = some state)
    (keyed : state.key = executionKey event.execution) (logs : event.logEntry = some entry) :
    (store.applyEvent event).map.get (executionKey event.execution) =
      some (state.receive entry) := by
  have later : event.starts = false := by
    obtain ⟨execution, timestamp, body⟩ := event
    cases body <;> first | rfl | cases logs
  unfold applyEvent
  simp only [later, known, Bool.not_false, Option.isNone_some, Bool.and_false, Bool.false_and,
    Bool.false_eq_true, if_false]
  unfold applyToState
  cases transition_log (state.key ∈ store.provisionallyLost) (state.key ∈ store.unconfirmed)
      logs with
  | inl passed =>
    rw [passed.1, passed.2]
    exact known
  | inr put =>
    rw [put]
    change (store.map.set (state.receive entry).key (state.receive entry)).get _ = _
    rw [Table.get_set]
    exact if_pos ((receive_key state entry).trans keyed)

theorem get_foldl_applyEvent {ref : ExecutionRef} {events : List ExecutionEvent}
    {records : List ExecutionLogEntry} (same : ∀ event ∈ events, event.execution = ref)
    (logs : events.map ExecutionEvent.logEntry = records.map some) :
    ∀ {store : ExecutionStore} {state : ExecutionState},
      store.map.get (executionKey ref) = some state → state.key = executionKey ref →
      (events.foldl applyEvent store).map.get (executionKey ref) =
        some (records.foldl ExecutionState.receive state) := by
  induction events generalizing records with
  | nil =>
    intro store state known _
    rw [map_nil, eq_comm, map_eq_nil_iff] at logs
    rw [logs]
    exact known
  | cons event rest ih =>
    intro store state known keyed
    cases records with
    | nil => cases logs
    | cons entry records =>
      obtain ⟨first, logs⟩ := List.cons.inj logs
      have here := same event mem_cons_self
      subst here
      exact ih (fun other listed => same other (mem_cons_of_mem _ listed)) logs
        (get_applyEvent_log known keyed first) ((receive_key state entry).trans keyed)

/-- However the log records of an execution are delivered: the retained ones have increasing
numbers, they are those with the largest numbers so far, no other order retains others, and what
is retained and dropped counts no record twice, and all of them where they arrive in order. -/
theorem logs_delivered {ref : ExecutionRef}
    (known : store.map.get (executionKey ref) = some state) (keyed : state.key = executionKey ref)
    (fresh : state.logs = [] ∧ state.logsDropped = 0)
    {events : List ExecutionEvent} {records : List ExecutionLogEntry}
    (same : ∀ event ∈ events, event.execution = ref)
    (logs : events.map ExecutionEvent.logEntry = records.map some) (coherent : Coherent records) :
    ∃ after, (events.foldl applyEvent store).map.get (executionKey ref) = some after ∧
      after.logs.Pairwise (·.seq < ·.seq) ∧ (∀ entry, entry ∈ after.logs ↔ entry ∈ records ∧
        ((seqs records).filter (entry.seq < ·)).card < executionLogCap) ∧
      (∀ others : List ExecutionLogEntry, Coherent others →
        (∀ entry, entry ∈ records ↔ entry ∈ others) →
        (others.foldl ExecutionState.receive state).logs = after.logs) ∧
      after.logs.length + after.logsDropped ≤ (seqs records).card ∧
      (InOrder records → after.logs.length + after.logsDropped = (seqs records).card) := by
  have start : Window [] state.logs state.logsDropped := by
    rw [fresh.1, fresh.2]
    exact .nil
  have window := start.receiveAll coherent
  refine ⟨_, get_foldl_applyEvent same logs known keyed, window.sorted, fun _ => window.mem_iff,
    fun others also equal => ?_, window.counted, window.equal⟩
  exact (start.receiveAll also).unique window fun entry => (equal entry).symm

/-- A record that says nothing but its number. -/
def bareRecord (seq : Rat) : ExecutionLogEntry :=
  ⟨.info, "", 0, none, none, none, none, seq⟩

def bareLog (ref : ExecutionRef) (seq : Rat) : ExecutionEvent :=
  ⟨ref, 0, .log .info "" none seq none none none none⟩

theorem logs_delivered_late :
    ∃ after, ([bareLog ⟨"a", "b"⟩ 2, bareLog ⟨"a", "b"⟩ 1, bareLog ⟨"a", "b"⟩ 2].foldl applyEvent
        (empty.put (.created ⟨"a", "b"⟩ 0))).map.get (executionKey ⟨"a", "b"⟩) = some after ∧
      after.logs.Pairwise (·.seq < ·.seq) ∧ after.logs.length + after.logsDropped ≤ 2 := by
  have coherent : Coherent [bareRecord 2, bareRecord 1, bareRecord 2] := by
    unfold Coherent
    decide
  obtain ⟨after, found, sorted, _, _, counted, _⟩ :=
    @logs_delivered (empty.put (.created ⟨"a", "b"⟩ 0)) (.created ⟨"a", "b"⟩ 0) ⟨"a", "b"⟩
      (by rw [put, Table.get_set]; exact if_pos rfl) rfl ⟨rfl, rfl⟩
      [bareLog ⟨"a", "b"⟩ 2, bareLog ⟨"a", "b"⟩ 1, bareLog ⟨"a", "b"⟩ 2]
      [bareRecord 2, bareRecord 1, bareRecord 2] (by simp [bareLog]) rfl coherent
  exact ⟨after, found, sorted, counted.trans (by decide)⟩

end ExecutionStore

end Dinkster.Execution
