import Mathlib

/-!
# Signals and nested notifications

A signal holds a value.  Setting it to another value notifies its listeners one after
another, each with the value that was set.  A listener may set the signal again: the
notification that this starts comes to its end before the one that called the listener goes
on.  The notifications that are underway form a stack, and each owes its value to the
listeners it has not called yet.

The publications are numbered, and what was delivered is recorded, so that one can say in
which order a listener received them.  They arrive in order as long as no listener is owed
an earlier publication when a later one is notified.
-/

namespace Dinkster.Library

open List Option

variable {Listener Value : Type*}

/-- A notification underway: what is delivered and the listeners still to be called. -/
structure Notification (Listener Value : Type*) where
  number : Nat
  value : Value
  remaining : List Listener

/-- A signal.  `number` counts its publications, `delivered` records them, oldest first. -/
structure Signal (Listener Value : Type*) where
  value : Value
  listeners : List Listener
  underway : List (Notification Listener Value)
  number : Nat
  delivered : List (Listener × Nat × Value)

namespace Signal

def create (value : Value) : Signal Listener Value :=
  ⟨value, [], [], 0, []⟩

def set (equals : Value → Value → Bool) (signal : Signal Listener Value) (next : Value) :
    Signal Listener Value :=
  if equals signal.value next then
    { signal with underway := ⟨signal.number, next, []⟩ :: signal.underway }
  else
    { signal with
      value := next
      number := signal.number + 1
      underway := ⟨signal.number + 1, next, signal.listeners⟩ :: signal.underway }

/-- The innermost notification calls its next listener. -/
def call (signal : Signal Listener Value) : Option (Signal Listener Value) :=
  match signal.underway with
  | ⟨number, value, listener :: rest⟩ :: outer =>
    some { signal with
      underway := ⟨number, value, rest⟩ :: outer
      delivered := signal.delivered ++ [(listener, number, value)] }
  | _ => none

/-- The innermost notification has called all its listeners and returns. -/
def finish (signal : Signal Listener Value) : Option (Signal Listener Value) :=
  match signal.underway with
  | ⟨_, _, []⟩ :: outer => some { signal with underway := outer }
  | _ => none

variable {next signal : Signal Listener Value}

/-- The number of publications changes by a set only. -/
theorem number_call (called : signal.call = some next) : next.number = signal.number ∧
    next.value = signal.value ∧ next.listeners = signal.listeners := by
  unfold call at called
  split at called
  · cases called
    exact ⟨rfl, rfl, rfl⟩
  · simp at called

theorem number_finish (finished : signal.finish = some next) : next.number = signal.number ∧
    next.value = signal.value ∧ next.listeners = signal.listeners := by
  unfold finish at finished
  split at finished
  · cases finished
    exact ⟨rfl, rfl, rfl⟩
  · simp at finished

section Listeners

variable [DecidableEq Listener]

def subscribe (signal : Signal Listener Value) (listener : Listener) : Signal Listener Value :=
  { signal with
    listeners :=
      if listener ∈ signal.listeners then signal.listeners
      else signal.listeners ++ [listener] }

def unsubscribe (signal : Signal Listener Value) (listener : Listener) : Signal Listener Value :=
  { signal with listeners := signal.listeners.erase listener }

variable (signal : Signal Listener Value) (listener : Listener)

/-- The publications a listener has received. -/
def deliveredTo : List (Nat × Value) :=
  (signal.delivered.filter fun delivery => delivery.1 = listener).map Prod.snd

/-- The publications that the notifications underway owe a listener, innermost first. -/
def owed : List (Nat × Value) :=
  signal.underway.flatMap fun notification =>
    (notification.remaining.filter (· = listener)).map fun _ =>
      (notification.number, notification.value)

/-- The publications that a listener will have received when no other is made. -/
def receipts : List (Nat × Value) :=
  signal.deliveredTo listener ++ signal.owed listener

def InOrder (publications : List (Nat × Value)) : Prop :=
  publications.Pairwise fun earlier later => earlier.1 < later.1

/-- No subscribed listener is owed a publication by a notification underway. -/
def Clear : Prop :=
  ∀ listener ∈ signal.listeners, ∀ notification ∈ signal.underway,
    listener ∉ notification.remaining

/-- The listeners are a set, and nothing is received before it was published. -/
structure Sound : Prop where
  listed : signal.listeners.Nodup
  bounded : ∀ listener, ∀ publication ∈ signal.receipts listener, publication.1 ≤ signal.number

variable {signal listener} {next : Signal Listener Value} {equals : Value → Value → Bool}

theorem mem_owed {publication : Nat × Value} :
    publication ∈ signal.owed listener ↔ ∃ notification ∈ signal.underway,
      listener ∈ notification.remaining ∧
        publication = (notification.number, notification.value) := by
  unfold owed
  simp only [mem_flatMap, List.mem_map, mem_filter, decide_eq_true_eq]
  constructor
  · intro found
    obtain ⟨notification, underway, _, ⟨remaining, rfl⟩, same⟩ := found
    exact ⟨notification, underway, remaining, same.symm⟩
  · intro found
    obtain ⟨notification, underway, remaining, same⟩ := found
    exact ⟨notification, underway, listener, ⟨remaining, rfl⟩, same.symm⟩

theorem clear_iff : signal.Clear ↔ ∀ listener ∈ signal.listeners, signal.owed listener = [] := by
  unfold Clear
  constructor
  · intro clear listener listed
    rw [eq_nil_iff_forall_not_mem]
    intro publication owed
    obtain ⟨notification, underway, remaining, _⟩ := mem_owed.mp owed
    exact clear listener listed notification underway remaining
  · intro nothing listener listed notification underway remaining
    have owed := mem_owed.mpr ⟨notification, underway, remaining, rfl⟩
    rw [nothing listener listed] at owed
    exact absurd owed not_mem_nil

@[simp] theorem receipts_create (value : Value) :
    (create value : Signal Listener Value).receipts listener = [] := rfl

@[simp] theorem receipts_subscribe (other : Listener) :
    (signal.subscribe other).receipts listener = signal.receipts listener := rfl

@[simp] theorem receipts_unsubscribe (other : Listener) :
    (signal.unsubscribe other).receipts listener = signal.receipts listener := rfl

variable {value : Value}

theorem receipts_set_equal (same : equals signal.value value = true) :
    (signal.set equals value).receipts listener = signal.receipts listener := by
  unfold set
  rw [if_pos same]
  rfl

/-- A new value comes before what the listener is owed by the notifications it interrupts. -/
theorem receipts_set (apart : equals signal.value value = false) :
    (signal.set equals value).receipts listener = signal.deliveredTo listener ++
      ((signal.listeners.filter (· = listener)).map fun _ => (signal.number + 1, value)) ++
        signal.owed listener := by
  unfold set
  rw [if_neg (by simp [apart])]
  unfold receipts owed
  rw [flatMap_cons, append_assoc]
  rfl

/-- Calling a listener moves a publication from what is owed to what was delivered. -/
theorem receipts_call (called : signal.call = some next) :
    next.receipts listener = signal.receipts listener := by
  unfold call at called
  split at called
  · rename_i number value first rest outer underway
    cases called
    unfold receipts owed deliveredTo
    rw [underway, filter_append, map_append, flatMap_cons, flatMap_cons]
    by_cases same : first = listener
    all_goals simp [same]
  · simp at called

theorem receipts_finish (finished : signal.finish = some next) :
    next.receipts listener = signal.receipts listener := by
  unfold finish at finished
  split at finished
  · rename_i underway
    cases finished
    unfold receipts owed
    rw [underway, flatMap_cons]
    rfl
  · simp at finished

theorem deliveredTo_of_idle (idle : signal.underway = []) :
    signal.deliveredTo listener = signal.receipts listener := by
  unfold receipts owed
  rw [idle, flatMap_nil, append_nil]

theorem sound_create (value : Value) : (create value : Signal Listener Value).Sound where
  listed := nodup_nil
  bounded := by simp

theorem Sound.subscribe (sound : signal.Sound) (other : Listener) :
    (signal.subscribe other).Sound where
  listed := by
    unfold Signal.subscribe
    dsimp only
    split
    · exact sound.listed
    · rename_i absent
      rw [nodup_append]
      refine ⟨sound.listed, nodup_singleton _, ?_⟩
      intro first listed second new same
      rw [same, mem_singleton.mp new] at listed
      exact absent listed
  bounded := sound.bounded

theorem Sound.unsubscribe (sound : signal.Sound) (other : Listener) :
    (signal.unsubscribe other).Sound where
  listed := sound.listed.erase other
  bounded := sound.bounded

theorem Sound.set (sound : signal.Sound) (value : Value) : (signal.set equals value).Sound where
  listed := by
    unfold Signal.set
    split <;> exact sound.listed
  bounded := by
    intro listener publication received
    cases same : equals signal.value value with
    | true =>
      rw [receipts_set_equal same] at received
      unfold Signal.set
      rw [if_pos same]
      exact sound.bounded listener publication received
    | false =>
      have number : (signal.set equals value).number = signal.number + 1 := by
        unfold Signal.set
        rw [if_neg (by simp [same])]
      rw [receipts_set same, mem_append, mem_append] at received
      rw [number]
      have before : publication ∈ signal.receipts listener → publication.1 ≤ signal.number + 1 :=
        fun old => Nat.le_succ_of_le (sound.bounded listener publication old)
      rcases received with (old | new) | old
      · exact before (mem_append_left _ old)
      · obtain ⟨_, _, rfl⟩ := List.mem_map.mp new
        exact Nat.le_refl _
      · exact before (mem_append_right _ old)

theorem Sound.of_receipts (sound : signal.Sound)
    (receipts : ∀ listener, next.receipts listener = signal.receipts listener)
    (same : next.number = signal.number ∧ next.value = signal.value ∧
      next.listeners = signal.listeners) : next.Sound where
  listed := by
    rw [same.2.2]
    exact sound.listed
  bounded := by
    intro listener publication received
    rw [receipts] at received
    rw [same.1]
    exact sound.bounded listener publication received

/-- Receipts only grow: a set puts a publication in between. -/
theorem receipts_sublist_set (value : Value) :
    (signal.receipts listener).Sublist ((signal.set equals value).receipts listener) := by
  cases same : equals signal.value value with
  | true =>
    rw [receipts_set_equal same]
  | false =>
    rw [receipts_set same]
    unfold receipts
    exact (sublist_append_left _ _).append (List.Sublist.refl _)

theorem inOrder_set_iff (sound : signal.Sound) (apart : equals signal.value value = false) :
    (∀ listener, InOrder ((signal.set equals value).receipts listener)) ↔
      (∀ listener, InOrder (signal.receipts listener)) ∧ signal.Clear := by
  rw [clear_iff]
  constructor
  · intro ordered
    refine ⟨fun listener => (ordered listener).sublist (receipts_sublist_set value), ?_⟩
    intro listener listed
    rw [eq_nil_iff_forall_not_mem]
    intro publication owed
    have later := ordered listener
    rw [receipts_set apart, append_assoc] at later
    have behind := (pairwise_append.mp (pairwise_append.mp later).2.1).2.2
      (signal.number + 1, value) (List.mem_map.mpr ⟨listener, by simp [listed], rfl⟩)
      publication owed
    have bound := sound.bounded listener publication (mem_append_right _ owed)
    exact absurd (Nat.lt_of_lt_of_le behind bound) (by simp)
  · intro before listener
    obtain ⟨ordered, nothing⟩ := before
    rw [receipts_set apart]
    by_cases listed : listener ∈ signal.listeners
    · rw [nothing listener listed, append_nil]
      apply pairwise_append.mpr
      refine ⟨(pairwise_append.mp (ordered listener)).1, ?_, ?_⟩
      · have once : signal.listeners.filter (· = listener) = [listener] := by
          rw [filter_eq, count_eq_one_of_mem sound.listed listed, replicate_one]
        rw [once]
        exact pairwise_singleton _ _
      · intro earlier delivered later new
        obtain ⟨_, _, rfl⟩ := List.mem_map.mp new
        exact Nat.lt_succ_of_le (sound.bounded listener earlier (mem_append_left _ delivered))
    · have nobody : signal.listeners.filter (· = listener) = [] := by
        rw [filter_eq, count_eq_zero_of_not_mem listed, replicate_zero]
      rw [nobody, map_nil, append_nil]
      exact ordered listener

theorem getLast?_receipts_set (clear : signal.Clear) (listed : listener ∈ signal.listeners)
    (apart : equals signal.value value = false) :
    ((signal.set equals value).receipts listener).getLast? = some (signal.number + 1, value) := by
  rw [receipts_set apart, clear_iff.mp clear listener listed, append_nil]
  have some : (signal.listeners.filter (· = listener)).map
      (fun _ => (signal.number + 1, value)) ≠ [] := by
    simpa using listed
  rw [getLast?_append_of_ne_nil _ some]
  obtain ⟨last, found⟩ := getLast?_isSome.mpr some |> isSome_iff_exists.mp
  obtain ⟨_, _, same⟩ := List.mem_map.mp (mem_of_getLast? found)
  rw [found, same]

end Listeners

end Signal

end Dinkster.Library
