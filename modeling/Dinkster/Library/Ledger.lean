import Mathlib

/-!
# Ledgers of registrations

A registry either refuses what a holder offers, or takes it and hands out a registration that
can be given back.  The ledger is what it has done so far.  A holder that offers only while
it holds nothing, and gives back only what it holds, holds at any time at most one
registration, and the ledger shows each registration given back once before the next one.
-/

namespace Dinkster.Library

open List
open Function (update update_of_ne update_self)

variable {Holder Item : Type}

/-- What a registry does when it is called. -/
inductive Entry (Holder : Type) where
  | taken (holder : Holder) (token : Nat)
  | refused (holder : Holder) (reason : String)
  | returned (holder : Holder) (token : Nat)

structure Registration (Holder Item : Type) where
  holder : Holder
  token : Nat
  item : Item

/-- What is registered, what was done, and how many calls there were. -/
structure Registry (Holder Item : Type) where
  live : List (Registration Holder Item)
  entries : List (Entry Holder)
  calls : Nat

namespace Registry

def empty : Registry Holder Item := ⟨[], [], 0⟩

/-- The registration that the next call hands out. -/
def offered (registry : Registry Holder Item) (holder : Holder) (item : Item) :
    Registration Holder Item :=
  ⟨holder, registry.calls, item⟩

def take (registry : Registry Holder Item) (holder : Holder) (item : Item) : Registry Holder Item :=
  ⟨registry.live ++ [registry.offered holder item],
    registry.entries ++ [.taken holder registry.calls], registry.calls + 1⟩

def refuse (registry : Registry Holder Item) (holder : Holder) (reason : String) :
    Registry Holder Item :=
  ⟨registry.live, registry.entries ++ [.refused holder reason], registry.calls + 1⟩

def giveBack (registry : Registry Holder Item) (registration : Registration Holder Item) :
    Registry Holder Item :=
  ⟨registry.live.filter fun other => other.token ≠ registration.token,
    registry.entries ++ [.returned registration.holder registration.token], registry.calls + 1⟩

end Registry

section Ledger

variable [DecidableEq Holder]

variable (holder : Holder)

def occupy (held : Option Nat) : Entry Holder → Option (Option Nat)
  | .taken other token =>
    if other = holder then
      match held with
      | none => some (some token)
      | some _ => none
    else some held
  | .refused _ _ => some held
  | .returned other token =>
    if other = holder then
      if held = some token then some none else none
    else some held

/-- What a holder holds after a ledger, if all of it is in order: the holder takes only while
it holds nothing and returns only what it holds. -/
def occupancy (holder : Holder) : Option Nat → List (Entry Holder) → Option (Option Nat)
  | held, [] => some held
  | held, entry :: rest => (occupy holder held entry).bind fun next => occupancy holder next rest

theorem occupancy_append (held : Option Nat) (front back : List (Entry Holder)) :
    occupancy holder held (front ++ back) =
      (occupancy holder held front).bind fun next => occupancy holder next back := by
  induction front generalizing held with
  | nil => rfl
  | cons entry front ih =>
    rw [cons_append]
    dsimp only [occupancy]
    cases occupy holder held entry with
    | none => rfl
    | some next => exact ih next

/-- The reason of a holder's last attempt, if it was refused. -/
def lastRefusal (entries : List (Entry Holder)) : Option String :=
  entries.foldl
    (fun last entry =>
      match entry with
      | .taken other _ => if other = holder then none else last
      | .refused other reason => if other = holder then some reason else last
      | .returned _ _ => last)
    none

@[simp] theorem lastRefusal_taken (holder other : Holder) (entries : List (Entry Holder))
    (token : Nat) : lastRefusal holder (entries ++ [.taken other token]) =
      if other = holder then none else lastRefusal holder entries := by
  unfold lastRefusal
  rw [foldl_append]
  rfl

@[simp] theorem lastRefusal_refused (holder other : Holder) (entries : List (Entry Holder))
    (reason : String) : lastRefusal holder (entries ++ [.refused other reason]) =
      if other = holder then some reason else lastRefusal holder entries := by
  unfold lastRefusal
  rw [foldl_append]
  rfl

@[simp] theorem lastRefusal_returned (holder other : Holder) (entries : List (Entry Holder))
    (token : Nat) :
    lastRefusal holder (entries ++ [.returned other token]) = lastRefusal holder entries := by
  unfold lastRefusal
  rw [foldl_append]
  rfl

/-- The holders hold exactly what is registered, and the ledger is in order. -/
structure Tracks (registry : Registry Holder Item)
    (held : Holder → Option (Registration Holder Item)) : Prop where
  live : ∀ registration,
    registration ∈ registry.live ↔ held registration.holder = some registration
  named : ∀ holder registration, held holder = some registration → registration.holder = holder
  fresh : ∀ registration ∈ registry.live, registration.token < registry.calls
  apart : ∀ first ∈ registry.live, ∀ second ∈ registry.live, first.token = second.token →
    first = second
  inOrder : ∀ holder, occupancy holder none registry.entries =
    some ((held holder).map Registration.token)

namespace Tracks

variable {registry : Registry Holder Item} {held : Holder → Option (Registration Holder Item)}

theorem empty : Tracks (Registry.empty : Registry Holder Item) fun _ => none where
  live := by
    intro registration
    constructor
    · intro listed
      cases listed
    · intro found
      cases found
  named := by
    intro holder registration found
    cases found
  fresh := by
    intro registration listed
    cases listed
  apart := by
    intro first listed
    cases listed
  inOrder _ := rfl

theorem take (tracks : Tracks registry held) {holder : Holder} (free : held holder = none)
    (item : Item) : Tracks (registry.take holder item)
      (update held holder (some (registry.offered holder item))) where
  live := by
    intro registration
    unfold Registry.take
    rw [mem_append, mem_singleton, tracks.live]
    by_cases same : registration.holder = holder
    · rw [same, update_self, free]
      simp [eq_comm]
    · rw [update_of_ne same]
      constructor
      · intro either
        cases either with
        | inl old => exact old
        | inr new => exact absurd (congrArg Registration.holder new) same
      · exact .inl
  named := by
    intro other registration found
    by_cases same : other = holder
    · rw [same, update_self] at found
      cases found
      exact same.symm
    · rw [update_of_ne same] at found
      exact tracks.named other registration found
  fresh := by
    intro registration listed
    cases mem_append.mp listed with
    | inl old => exact Nat.lt_succ_of_lt (tracks.fresh registration old)
    | inr new =>
      rw [mem_singleton.mp new]
      exact Nat.lt_succ_self _
  apart := by
    intro first listed second also same
    cases mem_append.mp listed with
    | inl old =>
      cases mem_append.mp also with
      | inl other => exact tracks.apart first old second other same
      | inr new =>
        rw [mem_singleton.mp new] at same
        exact absurd same (Nat.ne_of_lt (tracks.fresh first old))
    | inr new =>
      rw [mem_singleton.mp new] at same ⊢
      cases mem_append.mp also with
      | inl other => exact absurd same.symm (Nat.ne_of_lt (tracks.fresh second other))
      | inr other => rw [mem_singleton.mp other]
  inOrder := by
    intro other
    unfold Registry.take
    rw [occupancy_append, tracks.inOrder]
    by_cases same : other = holder
    · rw [same, update_self, free]
      simp [occupancy, occupy, Registry.offered]
    · rw [update_of_ne same]
      simp [occupancy, occupy, Ne.symm same]

theorem refuse (tracks : Tracks registry held) (holder : Holder) (reason : String) :
    Tracks (registry.refuse holder reason) held where
  live := tracks.live
  named := tracks.named
  fresh := fun registration listed => Nat.lt_succ_of_lt (tracks.fresh registration listed)
  apart := tracks.apart
  inOrder := by
    intro other
    unfold Registry.refuse
    rw [occupancy_append, tracks.inOrder]
    rfl

theorem giveBack (tracks : Tracks registry held) {holder : Holder}
    {registration : Registration Holder Item} (holds : held holder = some registration) :
    Tracks (registry.giveBack registration) (update held holder none) where
  live := by
    intro other
    have named := tracks.named holder registration holds
    have listed : registration ∈ registry.live := by rw [tracks.live, named, holds]
    unfold Registry.giveBack
    rw [mem_filter]
    by_cases same : other.holder = holder
    · rw [same, update_self]
      constructor
      · intro kept
        have equal : held holder = some other := same ▸ (tracks.live other).mp kept.1
        rw [holds] at equal
        cases equal
        simp at kept
      · intro found
        cases found
    · rw [update_of_ne same, ← tracks.live]
      constructor
      · exact fun kept => kept.1
      · intro inside
        refine ⟨inside, ?_⟩
        have apart : other.token ≠ registration.token := by
          intro equal
          rw [tracks.apart other inside registration listed equal] at same
          exact same named
        simpa using apart
  named := by
    intro other found held
    by_cases same : other = holder
    · rw [same, update_self] at held
      cases held
    · rw [update_of_ne same] at held
      exact tracks.named other found held
  fresh := by
    intro other kept
    exact Nat.lt_succ_of_lt (tracks.fresh other (mem_filter.mp kept).1)
  apart := by
    intro first kept second also
    exact tracks.apart first (mem_filter.mp kept).1 second (mem_filter.mp also).1
  inOrder := by
    intro other
    have named := tracks.named holder registration holds
    unfold Registry.giveBack
    rw [occupancy_append, tracks.inOrder]
    by_cases same : other = holder
    · rw [same, update_self, holds]
      simp [occupancy, occupy, named]
    · rw [update_of_ne same, named]
      simp [occupancy, occupy, Ne.symm same]

end Tracks

end Ledger

end Dinkster.Library
