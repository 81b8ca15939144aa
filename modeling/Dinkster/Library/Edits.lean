import Mathlib

/-!
# Invertible edits

A state has cells, which may be present and have a content.  An edit names a cell, the content
that it displaces and the content that it installs.  Edits that displace what their cells hold
are undone by their inverses in reverse order.
-/

namespace Dinkster.Library

open List Option

/-- The cells of a state.  A content that is not filled stands for an absent value. -/
structure Cells (State Name : Type) where
  Content : Name → Type
  filled : ∀ name, Content name → Bool
  unfilled : ∀ {name} {left right : Content name}, filled name left = false →
    filled name right = false → left = right
  present : Name → State → Bool
  read : ∀ name, State → Content name
  write : ∀ name, Content name → State → State
  read_write : ∀ {name state} content, present name state = true →
    read name (write name content state) = content
  present_write : ∀ {name state} content, present name state = true →
    present name (write name content state) = true
  write_write : ∀ {name state} first second, present name state = true →
    write name second (write name first state) = write name second state
  write_read : ∀ {name state}, present name state = true →
    write name (read name state) state = state

structure Edit {State Name : Type} (cells : Cells State Name) where
  name : Name
  old : cells.Content name
  new : cells.Content name

namespace Edit

variable {State Name : Type} {cells : Cells State Name}

variable (edit : Edit cells)

/-- Whether an edit displaces something: otherwise it adds. -/
def displaces : Bool :=
  cells.filled edit.name edit.old

/-- Apply an edit where its cell is present, and filled exactly if the edit displaces something.
An edit that neither displaces nor installs anything removes what is not there. -/
def apply (state : State) : Option State :=
  if cells.present edit.name state &&
      (cells.filled edit.name (cells.read edit.name state) == edit.displaces) &&
      (edit.displaces || cells.filled edit.name edit.new) then
    some (cells.write edit.name edit.new state)
  else none

def applyAll : List (Edit cells) → State → Option State
  | [], state => some state
  | edit :: rest, state => (edit.apply state).bind (applyAll rest)

def inverse : Edit cells where
  name := edit.name
  old := edit.new
  new := edit.old

def inverses (edits : List (Edit cells)) : List (Edit cells) :=
  (edits.map inverse).reverse

/-- An edit displaces what its cell holds. -/
def Exact (state : State) : Prop :=
  edit.old = cells.read edit.name state

variable {next state : State}

theorem apply_eq_some {edit : Edit cells} (applied : edit.apply state = some next) :
    cells.present edit.name state = true ∧
      cells.filled edit.name (cells.read edit.name state) = edit.displaces ∧
      (edit.displaces || cells.filled edit.name edit.new) = true ∧
      cells.write edit.name edit.new state = next := by
  unfold apply at applied
  obtain ⟨guards, same⟩ := ite_none_right_eq_some.mp applied
  obtain ⟨guards, changes⟩ := Bool.and_eq_true_iff.mp guards
  obtain ⟨present, filled⟩ := Bool.and_eq_true_iff.mp guards
  exact ⟨present, eq_of_beq filled, changes, some.inj same⟩

theorem apply_of_guards {edit : Edit cells} {state : State}
    (present : cells.present edit.name state = true)
    (filled : cells.filled edit.name (cells.read edit.name state) = edit.displaces)
    (changes : (edit.displaces || cells.filled edit.name edit.new) = true) :
    edit.apply state = some (cells.write edit.name edit.new state) := by
  unfold apply
  rw [present, filled, changes, Bool.true_and, beq_self_eq_true, Bool.true_and, if_pos rfl]

theorem exact_of_adds {edit : Edit cells} (adds : edit.displaces = false)
    (applied : edit.apply state = some next) : edit.Exact state :=
  cells.unfilled adds ((apply_eq_some applied).2.1.trans adds)

theorem inverse_of_exact {edit : Edit cells} (exact : edit.Exact state)
    (applied : edit.apply state = some next) :
    edit.inverse.Exact next ∧ edit.inverse.apply next = some state := by
  obtain ⟨present, _, changes, written⟩ := apply_eq_some applied
  have installed : cells.read edit.name next = edit.new := by
    rw [← written, cells.read_write edit.new present]
  have restored : cells.write edit.name edit.old next = state := by
    rw [← written, cells.write_write edit.new edit.old present, exact, cells.write_read present]
  refine ⟨installed.symm, ?_⟩
  have undone := @apply_of_guards _ _ _ edit.inverse next
    (written ▸ cells.present_write edit.new present) (congrArg (cells.filled edit.name) installed)
    ((Bool.or_comm _ _).trans changes)
  rw [undone]
  exact congrArg some restored

inductive Recorded : State → List (Edit cells) → State → Prop where
  | nil (state : State) : Recorded state [] state
  | cons {state middle next : State} {edit : Edit cells} {rest : List (Edit cells)}
      (exact : edit.Exact state) (applied : edit.apply state = some middle)
      (later : Recorded middle rest next) : Recorded state (edit :: rest) next

namespace Recorded

variable {state middle next : State} {edits more : List (Edit cells)}

theorem applied (recorded : Recorded state edits next) : applyAll edits state = some next := by
  induction recorded with
  | nil state => rfl
  | cons exact applied later ih =>
    unfold applyAll
    rw [applied]
    exact ih

theorem append (first : Recorded state edits middle) (second : Recorded middle more next) :
    Recorded state (edits ++ more) next := by
  induction first with
  | nil state => exact second
  | cons exact applied later ih => exact .cons exact applied (ih second)

theorem back (recorded : Recorded state edits next) : Recorded next (inverses edits) state := by
  induction recorded with
  | nil state => exact .nil state
  | @cons state middle next edit rest exact applied later ih =>
    obtain ⟨reversed, undone⟩ := inverse_of_exact exact applied
    have split : inverses (edit :: rest) = inverses rest ++ [edit.inverse] := by
      unfold inverses
      rw [map_cons, reverse_cons]
    rw [split]
    exact ih.append (.cons reversed undone (.nil state))

end Recorded

def Spares (edit other : Edit cells) : Prop :=
  ∀ state next, edit.apply state = some next →
    cells.read other.name next = cells.read other.name state

theorem recorded_of_spares {edits : List (Edit cells)} : ∀ {state next : State},
    (∀ edit ∈ edits, edit.displaces = true → edit.Exact state) →
    edits.Pairwise (fun edit later => later.displaces = true → edit.Spares later) →
    applyAll edits state = some next → Recorded state edits next := by
  induction edits with
  | nil =>
    intro state next exact spares applied
    exact some.inj applied ▸ .nil state
  | cons edit rest ih =>
    intro state next exact spares applied
    obtain ⟨spared, later⟩ := pairwise_cons.mp spares
    obtain ⟨middle, first, applied⟩ := bind_eq_some_iff.mp applied
    refine .cons ?_ first (ih (fun other listed displaces => ?_) later applied)
    · cases displaces : edit.displaces with
      | true => exact exact edit mem_cons_self displaces
      | false => exact exact_of_adds displaces first
    · exact (exact other (mem_cons_of_mem _ listed) displaces).trans
        (spared other listed displaces state middle first).symm

end Edit

end Dinkster.Library
