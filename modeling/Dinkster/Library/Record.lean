import Dinkster.Library.Table

/-!
# Records

A record maps names to values and forgets the order in which they were written: its entries are
kept in the order of their names.  Two records that read the same are the same.
-/

namespace Dinkster.Library

open List

/-- A map from names, in the order of the names. -/
structure Record (Value : Type) where
  entries : Table Value
  sorted : (entries.map Prod.fst).Pairwise (· < ·)

namespace Table

variable {Value : Type}

def place (table : Table Value) (name : String) (value : Value) : Table Value :=
  match table with
  | [] => [(name, value)]
  | (other, old) :: rest =>
    if name < other then (name, value) :: (other, old) :: rest
    else if name = other then (name, value) :: rest
    else (other, old) :: place rest name value

variable {table : Table Value}

theorem mem_keys_place {name other : String} {value : Value} :
    other ∈ (table.place name value).map Prod.fst ↔ other = name ∨ other ∈ table.map Prod.fst := by
  induction table with
  | nil => simp [place]
  | cons entry rest ih =>
    unfold place
    split
    · simp
    · split
      · rename_i same
        simp [same]
      · rw [map_cons, mem_cons, ih, map_cons, mem_cons]
        exact or_left_comm

theorem sorted_place (name : String) (value : Value)
    (sorted : (table.map Prod.fst).Pairwise (· < ·)) :
    ((table.place name value).map Prod.fst).Pairwise (· < ·) := by
  induction table with
  | nil => exact pairwise_singleton _ _
  | cons entry rest ih =>
    obtain ⟨later, tail⟩ := pairwise_cons.mp sorted
    unfold place
    split
    · rename_i before
      refine pairwise_cons.mpr ⟨fun other listed => ?_, sorted⟩
      cases mem_cons.mp listed with
      | inl here => exact here ▸ before
      | inr there => exact before.trans (later other there)
    · rename_i notBefore
      split
      · rename_i same
        exact pairwise_cons.mpr ⟨fun other listed => same ▸ later other listed, tail⟩
      · rename_i different
        refine pairwise_cons.mpr ⟨fun other listed => ?_, ih tail⟩
        cases mem_keys_place.mp listed with
        | inl here => exact here ▸ lt_of_le_of_ne (not_lt.mp notBefore) (Ne.symm different)
        | inr there => exact later other there

theorem get_place (name other : String) (value : Value)
    (sorted : (table.map Prod.fst).Pairwise (· < ·)) :
    (table.place name value).get other = if name = other then some value else table.get other := by
  induction table with
  | nil => exact get_cons (name, value) [] other
  | cons entry rest ih =>
    unfold place
    split
    · rw [get_cons]
    · split
      · rename_i same
        rw [get_cons, get_cons, ← same]
        split <;> rfl
      · rename_i different
        rw [get_cons, ih (pairwise_cons.mp sorted).2, get_cons]
        by_cases here : name = other
        · rw [if_pos here, if_neg (fun first => different (here.trans first.symm)), if_pos here]
        · rw [if_neg here, if_neg here]

end Table

namespace Record

variable {Value : Type}

def empty : Record Value where
  entries := []
  sorted := List.Pairwise.nil

def get (record : Record Value) (name : String) : Option Value :=
  record.entries.get name

def write (record : Record Value) (name : String) (value : Option Value) : Record Value :=
  match value with
  | some value => ⟨record.entries.place name value, Table.sorted_place name value record.sorted⟩
  | none =>
    ⟨record.entries.erase name,
      record.sorted.sublist (filter_sublist.map Prod.fst)⟩

theorem get_write (record : Record Value) (name other : String) (value : Option Value) :
    (record.write name value).get other = if name = other then value else record.get other := by
  cases value with
  | some value => exact Table.get_place name other value record.sorted
  | none => exact Table.get_erase record.entries name other

@[simp] theorem get_write_self (record : Record Value) (name : String) (value : Option Value) :
    (record.write name value).get name = value := by
  rw [get_write, if_pos rfl]

variable {record : Record Value}

theorem get_write_of_ne {name other : String} {value : Option Value} (different : name ≠ other) :
    (record.write name value).get other = record.get other := by
  rw [get_write, if_neg different]

theorem nodup_keys (record : Record Value) : (record.entries.map Prod.fst).Nodup :=
  record.sorted.imp fun before => before.ne

theorem mem_entries {name : String} {value : Value} :
    (name, value) ∈ record.entries ↔ record.get name = some value :=
  ⟨Table.get_of_mem record.nodup_keys, Table.mem_of_get⟩

@[ext] theorem ext {left right : Record Value} (same : ∀ name, left.get name = right.get name) :
    left = right := by
  have listed : ∀ entry, entry ∈ left.entries ↔ entry ∈ right.entries := fun entry => by
    rw [mem_entries, mem_entries, same]
  have perm : left.entries.Perm right.entries :=
    (perm_ext_iff_of_nodup (List.Nodup.of_map Prod.fst left.nodup_keys)
      (List.Nodup.of_map Prod.fst right.nodup_keys)).mpr listed
  have entries : left.entries = right.entries := by
    refine perm.eq_of_pairwise (fun first second _ _ before after => ?_)
      (pairwise_map.mp left.sorted) (pairwise_map.mp right.sorted)
    exact absurd after before.asymm
  cases left
  cases right
  cases entries
  rfl

theorem write_write (record : Record Value) (name : String) (first second : Option Value) :
    (record.write name first).write name second = record.write name second := by
  ext1 other
  rw [get_write, get_write, get_write]
  split <;> rfl

theorem write_get (record : Record Value) (name : String) :
    record.write name (record.get name) = record := by
  ext1 other
  rw [get_write]
  split
  · rename_i same
    rw [same]
  · rfl

/-- Every entry of a list is written over what its name has. -/
theorem get_foldl_write {Item : Type} (merge : Option Value → Item → Value)
    (entries : Table Item) (distinct : (entries.map Prod.fst).Nodup) (record : Record Value)
    (name : String) :
    (entries.foldl (fun out (other, item) => out.write other (some (merge (out.get other) item)))
        record).get name =
      match entries.get name with
      | none => record.get name
      | some item => some (merge (record.get name) item) := by
  induction entries generalizing record with
  | nil => rfl
  | cons entry rest ih =>
    rw [map_cons, nodup_cons] at distinct
    rw [foldl_cons, ih distinct.2, Table.get_cons, get_write]
    by_cases same : entry.1 = name
    · have once : Table.get rest name = none := Table.get_eq_none_iff.mpr (same ▸ distinct.1)
      rw [if_pos same, once, if_pos same, same]
    · rw [if_neg same, if_neg same]

end Record

end Dinkster.Library
