import Dinkster.Format.Json
import Dinkster.Library.Table

/-!
# Dynamic port state

The state of the dynamic constructs of a node: for each construct the members of a family,
what is selected or authored there, and for each member the state of the constructs nested in
it.  The keys of a record are distinct, at every depth.
-/

namespace Dinkster.Format

open Library List

/-- The fields of `DynamicPortState` other than the nested state. -/
structure PortFields where
  members : Option (List String)
  memberLabels : Option (Table String)
  seq : Option Nat
  selected : Option String
  options : Option (List Json)
  deriving DecidableEq

def PortFields.none : PortFields :=
  ⟨.none, .none, .none, .none, .none⟩

inductive DynamicPortState where
  | mk (own : PortFields)
      (memberState : Option (List (String × List (String × DynamicPortState))))

/-- The states of the constructs of one scope. -/
abbrev DynamicScope := Table DynamicPortState

/-- The scopes of the members of a family. -/
abbrev MemberState := Table DynamicScope

namespace DynamicPortState

def own : DynamicPortState → PortFields
  | mk own _ => own

def memberState : DynamicPortState → Option MemberState
  | mk _ memberState => memberState

def isEmpty : DynamicPortState → Bool
  | mk own memberState => own = PortFields.none && memberState.isNone

end DynamicPortState

mutual

/-- The keys of the nested records of a state are distinct. -/
def DynamicPortState.Plain : DynamicPortState → Prop
  | .mk _ none => True
  | .mk _ (some scopes) => plainMembers scopes

def plainMembers : List (String × List (String × DynamicPortState)) → Prop
  | [] => True
  | (member, scope) :: rest =>
    member ∉ rest.map Prod.fst ∧ plainScope scope ∧ plainMembers rest

/-- The keys of a scope are distinct. -/
def plainScope : List (String × DynamicPortState) → Prop
  | [] => True
  | (construct, state) :: rest =>
    construct ∉ rest.map Prod.fst ∧ state.Plain ∧ plainScope rest

end

variable {scope : DynamicScope}

theorem plainScope_iff : plainScope scope ↔
    (scope.map Prod.fst).Nodup ∧ ∀ entry ∈ scope, entry.2.Plain := by
  induction scope with
  | nil => simp [plainScope]
  | cons entry rest ih =>
    obtain ⟨construct, state⟩ := entry
    rw [plainScope, ih]
    simp only [map_cons, nodup_cons, forall_mem_cons]
    exact ⟨fun ⟨fresh, plain, nodup, all⟩ => ⟨⟨fresh, nodup⟩, plain, all⟩,
      fun ⟨⟨fresh, nodup⟩, plain, all⟩ => ⟨fresh, plain, nodup, all⟩⟩

variable {scopes : MemberState} {construct : String} {state : DynamicPortState}

theorem plainMembers_iff : plainMembers scopes ↔
    (scopes.map Prod.fst).Nodup ∧ ∀ entry ∈ scopes, plainScope entry.2 := by
  induction scopes with
  | nil => simp [plainMembers]
  | cons entry rest ih =>
    obtain ⟨member, scope⟩ := entry
    rw [plainMembers, ih]
    simp only [map_cons, nodup_cons, forall_mem_cons]
    exact ⟨fun ⟨fresh, plain, nodup, all⟩ => ⟨⟨fresh, nodup⟩, plain, all⟩,
      fun ⟨⟨fresh, nodup⟩, plain, all⟩ => ⟨fresh, plain, nodup, all⟩⟩

theorem plainScope_set (plain : plainScope scope) (new : state.Plain) :
    plainScope (scope.set construct state) := by
  rw [plainScope_iff] at plain ⊢
  refine ⟨Table.nodup_keys_set _ _ plain.1, ?_⟩
  intro entry listed
  cases Table.mem_set listed with
  | inl same => exact same ▸ new
  | inr old => exact plain.2 entry old

theorem plainMembers_set {member : String} (plain : plainMembers scopes) (new : plainScope scope) :
    plainMembers (scopes.set member scope) := by
  rw [plainMembers_iff] at plain ⊢
  refine ⟨Table.nodup_keys_set _ _ plain.1, ?_⟩
  intro entry listed
  cases Table.mem_set listed with
  | inl same => exact same ▸ new
  | inr old => exact plain.2 entry old

theorem plain_of_get (plain : plainScope scope) (found : scope.get construct = some state) :
    state.Plain :=
  (plainScope_iff.mp plain).2 _ (Table.mem_of_get found)

theorem plainScope_of_get {member : String} (plain : plainMembers scopes)
    (found : scopes.get member = some scope) : plainScope scope :=
  (plainMembers_iff.mp plain).2 _ (Table.mem_of_get found)

/-- A scope whose keys are distinct at every depth. -/
structure ScopeRecord where
  scope : DynamicScope
  plain : plainScope scope

end Dinkster.Format
