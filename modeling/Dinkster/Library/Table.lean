import Mathlib

/-!
# Tables filled item by item

A table maps names to values in the order in which the names were first written.  Three
ways to fill one from a list are used over and over: the first item of a name wins, the
items of a name are collected, or the last item of a name wins.
-/

namespace Dinkster.Library

open List Option

/-- A map from names, in insertion order. -/
abbrev Table (Value : Type) := List (String × Value)

namespace Table

variable {Value Item : Type}

def get (table : Table Value) (name : String) : Option Value :=
  table.lookup name

def set (table : Table Value) (name : String) (value : Value) : Table Value :=
  match table with
  | [] => [(name, value)]
  | (other, old) :: rest =>
    if other = name then (name, value) :: rest else (other, old) :: set rest name value

def erase (table : Table Value) (name : String) : Table Value :=
  table.filter fun entry => entry.1 ≠ name

@[simp] theorem get_nil (name : String) : get ([] : Table Value) name = none := rfl

theorem get_cons (entry : String × Value) (table : Table Value) (name : String) :
    get (entry :: table) name = if entry.1 = name then some entry.2 else get table name := by
  unfold get
  rw [lookup_cons]
  by_cases same : entry.1 = name
  · rw [if_pos same, same, beq_self_eq_true]
  · rw [if_neg same, beq_eq_false_iff_ne.mpr (Ne.symm same)]

/-- What is read after a write. -/
theorem get_set (table : Table Value) (name other : String) (value : Value) :
    (table.set name value).get other = if name = other then some value else table.get other := by
  induction table with
  | nil =>
    unfold set
    rw [get_cons]
  | cons entry table ih =>
    unfold set
    by_cases here : entry.1 = name
    · rw [if_pos here, get_cons, get_cons]
      by_cases same : name = other
      · rw [if_pos same, if_pos same]
      · rw [if_neg same, if_neg same, if_neg (here ▸ same)]
    · rw [if_neg here, get_cons, get_cons, ih]
      by_cases same : name = other
      · rw [if_pos same, if_pos same, if_neg (same ▸ here)]
      · rw [if_neg same, if_neg same]

/-- What is read after an erasure. -/
theorem get_erase (table : Table Value) (name other : String) :
    (table.erase name).get other = if name = other then none else table.get other := by
  induction table with
  | nil => simp [erase]
  | cons entry rest ih =>
    unfold erase at ih ⊢
    rw [filter_cons, get_cons]
    by_cases erased : entry.1 = name
    · rw [if_neg (by simp [erased]), ih, erased]
      split <;> rfl
    · rw [if_pos (by simp [erased]), get_cons, ih]
      by_cases same : entry.1 = other
      · rw [if_pos same, if_pos same, if_neg (fun name => erased (same.trans name.symm))]
      · rw [if_neg same, if_neg same]

variable {name : String} {table : Table Value} {value : Value}

theorem mem_of_get (found : table.get name = some value) : (name, value) ∈ table := by
  induction table with
  | nil => cases found
  | cons entry table ih =>
    rw [get_cons] at found
    split at found
    · rename_i same
      cases found
      rw [← same]
      exact mem_cons_self
    · exact mem_cons_of_mem _ (ih found)

theorem mem_set {entry : String × Value} (listed : entry ∈ table.set name value) :
    entry = (name, value) ∨ entry ∈ table := by
  induction table with
  | nil => exact .inl (mem_singleton.mp listed)
  | cons first table ih =>
    unfold set at listed
    split at listed
    · cases mem_cons.mp listed with
      | inl new => exact .inl new
      | inr old => exact .inr (mem_cons_of_mem _ old)
    · cases mem_cons.mp listed with
      | inl same => exact .inr (same ▸ mem_cons_self)
      | inr later =>
        cases ih later with
        | inl new => exact .inl new
        | inr old => exact .inr (mem_cons_of_mem _ old)

theorem mem_keys_set {other : String} :
    other ∈ (table.set name value).map Prod.fst ↔ other = name ∨ other ∈ table.map Prod.fst := by
  induction table with
  | nil => simp [set]
  | cons first table ih =>
    unfold set
    split
    · rename_i same
      simp [same]
    · rw [map_cons, mem_cons, ih, map_cons, mem_cons]
      exact or_left_comm

theorem nodup_keys_set (name : String) (value : Value) (distinct : (table.map Prod.fst).Nodup) :
    ((table.set name value).map Prod.fst).Nodup := by
  induction table with
  | nil => simp [set]
  | cons first table ih =>
    rw [map_cons, nodup_cons] at distinct
    unfold set
    split
    · rename_i same
      rw [map_cons, nodup_cons, ← same]
      exact distinct
    · rename_i other
      rw [map_cons, nodup_cons, mem_keys_set]
      refine ⟨?_, ih distinct.2⟩
      intro found
      cases found with
      | inl same => exact other same
      | inr listed => exact distinct.1 listed

/-- Writing what is already there changes nothing. -/
theorem set_of_get (found : table.get name = some value) : table.set name value = table := by
  induction table with
  | nil => cases found
  | cons entry table ih =>
    rw [get_cons] at found
    unfold set
    split
    · rename_i here
      rw [if_pos here] at found
      rw [← here, ← some.inj found]
    · rename_i other
      rw [if_neg other] at found
      rw [ih found]

theorem set_set (table : Table Value) (name : String) (first second : Value) :
    (table.set name first).set name second = table.set name second := by
  induction table with
  | nil => simp [set]
  | cons entry table ih =>
    by_cases here : entry.1 = name
    · simp [set, here]
    · simp [set, here, ih]

/-- A new name is written behind the others. -/
theorem set_of_get_none (missing : table.get name = none) :
    table.set name value = table ++ [(name, value)] := by
  induction table with
  | nil => rfl
  | cons entry table ih =>
    rw [get_cons] at missing
    unfold set
    split
    · rename_i here
      rw [if_pos here] at missing
      cases missing
    · rename_i other
      rw [if_neg other] at missing
      rw [ih missing, cons_append]

theorem keys_set_of_get {old : Value} (found : table.get name = some old) :
    (table.set name value).map Prod.fst = table.map Prod.fst := by
  induction table with
  | nil => cases found
  | cons entry table ih =>
    rw [get_cons] at found
    unfold set
    split
    · rename_i here
      simp [here]
    · rename_i other
      rw [if_neg other] at found
      rw [map_cons, map_cons, ih found]

theorem countP_set_of_get {table : Table Value} {name : String} {old value : Value}
    {counts : Value → Bool} (found : table.get name = some old) (same : counts value = counts old) :
    (table.set name value).countP (fun entry => counts entry.2) =
      table.countP fun entry => counts entry.2 := by
  induction table with
  | nil => cases found
  | cons entry table ih =>
    rw [get_cons] at found
    unfold set
    split
    · rename_i here
      rw [if_pos here] at found
      rw [countP_cons, countP_cons, same, ← some.inj found]
    · rename_i other
      rw [if_neg other] at found
      rw [countP_cons, countP_cons, ih found]

/-- What is read where some names are left out. -/
theorem get_filter_notMem (table : Table Value) (gone : List String) (name : String) :
    Table.get (table.filter fun entry => entry.1 ∉ gone) name =
      if name ∈ gone then none else table.get name := by
  induction table with
  | nil => simp
  | cons entry rest ih =>
    rw [filter_cons, get_cons]
    by_cases left : entry.1 ∈ gone
    · rw [if_neg (by simpa using left), ih]
      split
      · rfl
      · rename_i kept
        have other : entry.1 ≠ name := fun same => kept (same ▸ left)
        rw [if_neg other]
    · rw [if_pos (by simpa using left), get_cons, ih]
      by_cases same : entry.1 = name
      · rw [if_pos same, if_pos same, if_neg (same ▸ left)]
      · rw [if_neg same, if_neg same]

variable (key : Item → Option String)

/-- Write an item unless its name is taken. -/
def keepFirst (table : Table Item) (item : Item) : Table Item :=
  match key item with
  | none => table
  | some name => if (table.get name).isSome then table else table.set name item

theorem get_keepFirst (table : Table Item) (item : Item)
    (name : String) : (keepFirst key table item).get name =
      (table.get name).or (if key item = some name then some item else none) := by
  unfold keepFirst
  cases found : key item with
  | none => simp
  | some other =>
    dsimp only
    by_cases same : other = name
    · subst same
      cases taken : table.get other with
      | none => simp [get_set]
      | some _ => simp [taken]
    · by_cases taken : (table.get other).isSome = true
      · simp [taken, same]
      · simp [taken, same, get_set]

theorem get_foldl_keepFirst (items : List Item)
    (table : Table Item) (name : String) : (items.foldl (keepFirst key) table).get name =
      (table.get name).or (items.find? fun item => key item = some name) := by
  induction items generalizing table with
  | nil => simp
  | cons item items ih =>
    rw [foldl_cons, ih, get_keepFirst, Option.or_assoc, find?_cons]
    by_cases here : key item = some name
    all_goals simp [here]

def collect (table : Table (List Item)) (item : Item) : Table (List Item) :=
  match key item with
  | none => table
  | some name => table.set name ((table.get name).getD [] ++ [item])

theorem get_foldl_collect (items : List Item) (table : Table (List Item)) (name : String) :
    ((items.foldl (collect key) table).get name).getD [] =
      (table.get name).getD [] ++ items.filter fun item => key item = some name := by
  induction items generalizing table with
  | nil => simp
  | cons item items ih =>
    rw [foldl_cons, ih, filter_cons]
    unfold collect
    cases found : key item with
    | none => simp
    | some other =>
      dsimp only
      rw [get_set]
      by_cases same : other = name
      · subst same
        simp
      · simp [same]

/-- Write an item over whatever its name had. -/
def keepLast (key : Item → String) (value : Item → Value) (table : Table Value) (item : Item) :
    Table Value :=
  table.set (key item) (value item)

theorem get_foldl_keepLast (key : Item → String) (value : Item → Value) (items : List Item)
    (agree : ∀ item ∈ items, ∀ other ∈ items, key item = key other → value item = value other)
    (name : String) : (items.foldl (keepLast key value) []).get name =
      (items.find? fun item => key item = name).map value := by
  induction items using reverseRecOn with
  | nil => rfl
  | append_singleton items item ih =>
    have ih := ih fun first left second right =>
      agree first (mem_append_left _ left) second (mem_append_left _ right)
    rw [foldl_append, foldl_cons, foldl_nil, keepLast, get_set, ih, find?_append]
    by_cases same : key item = name
    · rw [if_pos same]
      cases earlier : items.find? fun item => key item = name with
      | none => simp [same]
      | some first =>
        have listed := mem_of_find?_eq_some earlier
        have named : key first = name := by simpa using find?_some earlier
        have equal := agree first (mem_append_left _ listed) item (by simp)
          (named.trans same.symm)
        simp [equal]
    · rw [if_neg same]
      simp [same]

/-- Write every value under the new name of its key, leaving out those that have none. -/
def rename (name? : String → Option String) (table : Table Value) : Table Value :=
  table.foldl (fun renamed entry =>
    match name? entry.1 with
    | some name => renamed.set name entry.2
    | none => renamed) []

theorem get_append (front back : Table Value) (name : String) :
    get (front ++ back) name = (get front name).or (get back name) :=
  lookup_append

theorem get_eq_none_iff : table.get name = none ↔ name ∉ table.map Prod.fst := by
  unfold get
  rw [lookup_eq_none_iff, List.mem_map]
  constructor
  · rintro missing ⟨entry, listed, rfl⟩
    exact absurd (missing entry listed) (by simp)
  · intro missing entry listed
    refine bne_iff_ne.mpr ?_
    intro same
    exact missing ⟨entry, listed, same.symm⟩

theorem isSome_get_iff : (table.get name).isSome ↔ name ∈ table.map Prod.fst := by
  rw [← not_iff_not, not_isSome_iff_eq_none]
  exact get_eq_none_iff

/-- An entry is read where no name is written twice. -/
theorem get_of_mem (once : (table.map Prod.fst).Nodup) (listed : (name, value) ∈ table) :
    table.get name = some value := by
  induction table with
  | nil => cases listed
  | cons entry rest ih =>
    obtain ⟨fresh, once⟩ := nodup_cons.mp once
    rw [get_cons]
    cases mem_cons.mp listed with
    | inl same => rw [← same, if_pos rfl]
    | inr later =>
      have other : entry.1 ≠ name := by
        intro same
        rw [same] at fresh
        exact fresh (mem_map_of_mem later)
      rw [if_neg other]
      exact ih once later

theorem rename_append_singleton (name? : String → Option String) (table : Table Value)
    (entry : String × Value) : rename name? (table ++ [entry]) =
      match name? entry.1 with
      | some name => (rename name? table).set name entry.2
      | none => rename name? table := by
  unfold rename
  rw [foldl_append, foldl_cons, foldl_nil]

theorem nodup_keys_rename (name? : String → Option String) (table : Table Value) :
    ((rename name? table).map Prod.fst).Nodup := by
  induction table using reverseRecOn with
  | nil => exact nodup_nil
  | append_singleton table entry ih =>
    rw [rename_append_singleton]
    split
    · exact nodup_keys_set _ _ ih
    · exact ih

variable {name? : String → Option String}

theorem get_rename_of_absent (unnamed : ∀ key, name? key ≠ some name) (table : Table Value) :
    (rename name? table).get name = none := by
  induction table using reverseRecOn with
  | nil => rfl
  | append_singleton table entry ih =>
    rw [rename_append_singleton]
    split
    · rename_i other named
      have differ : other ≠ name := by
        rintro rfl
        exact unnamed entry.1 named
      rw [get_set, if_neg differ, ih]
    · exact ih

theorem get_rename
    (apart : ∀ first second name, name? first = some name → name? second = some name →
      first = second) (distinct : (table.map Prod.fst).Nodup) {key : String}
    (named : name? key = some name) : (rename name? table).get name = table.get key := by
  induction table using reverseRecOn with
  | nil => rfl
  | append_singleton table entry ih =>
    rw [map_append, map_singleton] at distinct
    have parts := nodup_append.mp distinct
    have before := ih parts.1
    rw [rename_append_singleton, get_append, get_cons]
    by_cases same : entry.1 = key
    · have fresh : get table key = none := by
        refine get_eq_none_iff.mpr ?_
        intro listed
        exact parts.2.2 key listed entry.1 (mem_singleton_self _) same.symm
      rw [same, named]
      dsimp only
      rw [get_set, if_pos rfl, fresh, if_pos rfl]
      rfl
    · rw [if_neg same, get_nil, or_none]
      split
      · rename_i other renamed
        have differ : other ≠ name := by
          rintro rfl
          exact same (apart _ _ _ renamed named)
        rw [get_set, if_neg differ, before]
      · exact before

end Table

/-- A table in which every name is written once. -/
structure Dict (Value : Type) where
  table : Table Value
  distinct : (table.map Prod.fst).Nodup

namespace Dict

variable {Value : Type}

def get (dict : Dict Value) (name : String) : Option Value :=
  dict.table.get name

/-- The first entries. -/
def take (dict : Dict Value) (count : Nat) : Dict Value :=
  ⟨dict.table.take count, dict.distinct.sublist ((take_sublist _ _).map _)⟩

/-- Write every value under the new name of its key. -/
def rename (name? : String → Option String) (dict : Dict Value) : Dict Value :=
  ⟨dict.table.rename name?, Table.nodup_keys_rename name? dict.table⟩

variable {name? : String → Option String}

theorem get_rename
    (apart : ∀ first second name, name? first = some name → name? second = some name →
      first = second) (dict : Dict Value) {key name : String} (named : name? key = some name) :
    (dict.rename name?).get name = dict.get key :=
  Table.get_rename apart dict.distinct named

theorem get_rename_of_absent {name : String} (unnamed : ∀ key, name? key ≠ some name)
    (dict : Dict Value) : (dict.rename name?).get name = none :=
  Table.get_rename_of_absent unnamed dict.table

end Dict

end Dinkster.Library
