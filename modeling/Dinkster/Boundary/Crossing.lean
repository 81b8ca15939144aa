import Dinkster.Boundary.Names
import Dinkster.Format.Keys
import Dinkster.Library.Table

/-!
# Crossings

A crossing translates the addresses on a subgraph instance that lie at or under the id of a
forwarding boundary item into addresses on the inner node.  The translation is injective, so
values carried through a crossing are never merged, and carrying them back restores them.
-/

namespace Dinkster.Boundary

open Format Library List Option

/-- `rebasedIdOf`: the inner id of a member an instance has appended. -/
def rebasedIdOf (id : String) : String :=
  String.ofList (Char.ofNat 0 :: id.toList)

/-- `FamilyCrossing`.  The fields `rebased` and `named` say what the table of suffix members
is built from. -/
structure FamilyCrossing where
  boundaryId : String
  side : BoundarySide
  targetNode : String
  hopMembers : List String
  hopPaths : List String
  familyPath : String
  rebase : Table String
  countBound : Bool
  optionalAfterMinimum : Bool
  slots : Option (List String)
  rebased : ∀ member inner, rebase.get member = some inner →
    inner = if countBound || optionalAfterMinimum then member else rebasedIdOf member
  named : optionalAfterMinimum = true → rebase.get "" = none

structure SubtreeCrossing where
  boundaryId : String
  targetNode : String
  hopMembers : List String
  hopPaths : List String
  constructPath : String

inductive BoundaryCrossing where
  | family (crossing : FamilyCrossing)
  | subtree (crossing : SubtreeCrossing)

def BoundaryCrossing.boundaryId : BoundaryCrossing → String
  | .family crossing => crossing.boundaryId
  | .subtree crossing => crossing.boundaryId

def BoundaryCrossing.targetNode : BoundaryCrossing → String
  | .family crossing => crossing.targetNode
  | .subtree crossing => crossing.targetNode

/-! ## Building a family crossing -/

def restAfter? (id port : String) : Option String :=
  if port = id then some ""
  else if (id ++ ".").toList.isPrefixOf port.toList then
    some (String.ofList (port.toList.drop id.toList.length))
  else none

def collectWire15MemberEvidence (family : String)
    (explicitMembers valueKeys inputPorts dynamicKeys : List String) (singleLeaf : Bool) :
    List String :=
  let channels :=
    if singleLeaf then valueKeys ++ inputPorts else valueKeys ++ inputPorts ++ dynamicKeys
  let found := channels.filterMap fun key =>
    if (family ++ ".").toList.isPrefixOf key.toList then
      let suffix := key.toList.drop (family ++ ".").toList.length
      if singleLeaf ∧ '.' ∈ suffix then none
      else some (String.ofList (suffix.takeWhile (· ≠ '.')))
    else none
  (explicitMembers ++ found).foldl (fun members member =>
    if member = "" ∨ member ∈ members then members else members ++ [member]) []

/-- What resolving the route of a forwarding binding says about its family. -/
structure ForwardedFamily where
  targetNode : String
  hopMembers : List String
  hopPaths : List String
  familyPath : String
  countBound : Bool
  /-- The occurrence's count, when it is within the bounds of the family. -/
  count : Option Nat
  optionalAfterMinimum : Bool
  slots : Option (List String)
  /-- The evidence of the members the definition owns. -/
  ownMembers : List String
  ownValueKeys : List String
  ownInputPorts : List String

/-- What an instance stores and connects under a boundary item. -/
structure InstanceEvidence where
  members : List String
  valueKeys : List String
  inputPorts : List String

variable (family : ForwardedFamily)

/-- The members the instance has appended. -/
def ForwardedFamily.suffix (boundaryId : String) (evidence : InstanceEvidence) : List String :=
  if family.countBound then
    match family.count with
    | some count => (List.range count).map toString
    | none => []
  else if family.optionalAfterMinimum then
    collectWire15MemberEvidence boundaryId evidence.members evidence.valueKeys
      evidence.inputPorts [] true
  else evidence.members

/-- The members of a canonical family the definition owns. -/
def ForwardedFamily.owned : List String :=
  if family.optionalAfterMinimum then
    collectWire15MemberEvidence family.familyPath family.ownMembers family.ownValueKeys
      family.ownInputPorts [] true
  else []

/-- The table of suffix members and their inner ids. -/
def rebaseTable (direct : Bool) (suffix : List String) : Table String :=
  suffix.foldl (fun table member =>
    table.set member (if direct then member else rebasedIdOf member)) []

theorem get_rebaseTable (direct : Bool) (suffix : List String) (member : String) :
    (rebaseTable direct suffix).get member =
      if member ∈ suffix then some (if direct then member else rebasedIdOf member) else none := by
  unfold rebaseTable
  induction suffix using reverseRecOn with
  | nil => rfl
  | append_singleton suffix last ih =>
    rw [foldl_append, foldl_cons, foldl_nil, Table.get_set, ih]
    by_cases same : last = member
    · subst same
      simp
    · rw [if_neg same]
      simp [Ne.symm same]

theorem empty_not_mem_evidence (family : String)
    (explicitMembers valueKeys inputPorts dynamicKeys : List String) (singleLeaf : Bool) :
    "" ∉ collectWire15MemberEvidence family explicitMembers valueKeys inputPorts dynamicKeys
      singleLeaf := by
  have kept : ∀ (added members : List String), "" ∉ members →
      "" ∉ added.foldl (fun members member =>
        if member = "" ∨ member ∈ members then members else members ++ [member]) members := by
    intro added
    induction added with
    | nil => exact fun _ absent => absent
    | cons member added ih =>
      intro members absent
      rw [foldl_cons]
      refine ih _ ?_
      split
      · exact absent
      · rename_i fresh
        intro listed
        cases mem_append.mp listed with
        | inl before => exact absent before
        | inr last => exact fresh (.inl (mem_singleton.mp last).symm)
  exact kept _ [] not_mem_nil

theorem empty_not_mem_suffix {family : ForwardedFamily} (boundaryId : String)
    (evidence : InstanceEvidence) (canonical : family.optionalAfterMinimum = true) :
    "" ∉ family.suffix boundaryId evidence := by
  unfold ForwardedFamily.suffix
  rw [if_pos canonical]
  split
  · split
    · intro listed
      obtain ⟨index, _, same⟩ := mem_map.mp listed
      have chars := congrArg String.toList same
      simp [toString, Nat.repr] at chars
    · exact not_mem_nil
  · exact empty_not_mem_evidence _ _ _ _ _ _

/-- A failure to build a crossing, `CrossingProblem`. -/
structure CrossingProblem where
  code : String
  message : String

/-- The crossing of a family binding whose route is resolved. -/
def familyCrossing (boundaryId : String) (side : BoundarySide) (family : ForwardedFamily)
    (evidence : InstanceEvidence) : Except CrossingProblem FamilyCrossing :=
  let suffix := family.suffix boundaryId evidence
  if family.optionalAfterMinimum ∧ ∃ member ∈ suffix, member ∈ family.owned then
    .error ⟨"compile.boundary.forwardUnknownMember",
      s!"boundary '{boundaryId}' suffix overlaps definition-owned canonical members"⟩
  else
    .ok {
      boundaryId := boundaryId
      side := side
      targetNode := family.targetNode
      hopMembers := family.hopMembers
      hopPaths := family.hopPaths
      familyPath := family.familyPath
      rebase := rebaseTable (family.countBound || family.optionalAfterMinimum) suffix
      countBound := family.countBound
      optionalAfterMinimum := family.optionalAfterMinimum
      slots := family.slots
      rebased := by
        intro member inner found
        rw [get_rebaseTable] at found
        split at found
        · exact (some.inj found).symm
        · cases found
      named := by
        intro canonical
        rw [get_rebaseTable, if_neg (empty_not_mem_suffix boundaryId evidence canonical)] }

structure TranslateFailure where
  code : String
  message : String
  deriving DecidableEq

/-- Whether the selected slot paths expose what follows the boundary id. -/
def FamilyCrossing.exposes (crossing : FamilyCrossing) (rest : String) : Bool :=
  match crossing.slots with
  | none => true
  | some slots =>
    rest = "" || slots.any fun slot =>
      let entry := "." ++ slot
      rest = entry || (entry ++ ".").toList.isPrefixOf rest.toList ||
        (rest ++ ".").toList.isPrefixOf entry.toList

def FamilyCrossing.translateCanonical (crossing : FamilyCrossing) (address : PortAddress)
    (rest : String) : Except TranslateFailure PortRef :=
  let suffix := String.ofList (rest.toList.drop 1)
  if (crossing.rebase.get suffix).isNone ∨ address.members ≠ [] then
    .error ⟨"compile.boundary.forwardUnknownMember",
      s!"address '{address.port}' is not an instance-appended canonical member of '{crossing.boundaryId}'"⟩
  else .ok ⟨crossing.targetNode, crossing.familyPath ++ "." ++ suffix, crossing.hopMembers⟩

def FamilyCrossing.translateMember (crossing : FamilyCrossing) (address : PortAddress)
    (rest : String) : Except TranslateFailure PortRef :=
  match address.members with
  | [] => .error ⟨"compile.boundary.forwardMemberMissing",
      s!"address '{address.port}' targets forwarded family '{crossing.boundaryId}' without a member id"⟩
  | member :: deeper =>
    if crossing.exposes rest then
      match crossing.rebase.get member with
      | none => .error ⟨"compile.boundary.forwardUnknownMember",
          s!"member '{member}' of forwarded family '{crossing.boundaryId}' is not an instance-appended member"⟩
      | some rebased => .ok ⟨crossing.targetNode, crossing.familyPath ++ rest,
          crossing.hopMembers ++ rebased :: deeper⟩
    else
      let path := String.ofList (rest.toList.drop 1)
      .error ⟨"compile.boundary.slotNotExposed",
        s!"address '{address.port}' targets slot path '{path}' of forwarded family '{crossing.boundaryId}', which is not among its selected slots"⟩

def translateThroughCrossing (crossing : BoundaryCrossing) (address : PortAddress) :
    Except TranslateFailure PortRef :=
  match restAfter? crossing.boundaryId address.port with
  | none => .error ⟨"compile.boundary.forwardMismatch",
      s!"address '{address.port}' does not belong to forwarded family '{crossing.boundaryId}'"⟩
  | some rest =>
    match crossing with
    | .subtree crossing => .ok ⟨crossing.targetNode, crossing.constructPath ++ rest,
        crossing.hopMembers ++ address.members⟩
    | .family crossing =>
      if crossing.optionalAfterMinimum then crossing.translateCanonical address rest
      else crossing.translateMember address rest

def innerKey? (crossing : BoundaryCrossing) (key : String) : Option String := do
  let address ← addressOfElabKey key true
  let ref ← (translateThroughCrossing crossing address).toOption
  return elabKeyOf ref.address

/-- The instance key an inner key is read back under. -/
def outerKey? (crossing : SubtreeCrossing) (key : String) : Option String := do
  let address ← addressOfElabKey key true
  let rest ← restAfter? crossing.constructPath address.port
  if crossing.hopMembers.isPrefixOf address.members then
    return elabKeyOf ⟨crossing.boundaryId ++ rest,
      address.members.drop crossing.hopMembers.length⟩
  else none

def projectCrossingValues {Value : Type} (values : Dict Value) (crossing : BoundaryCrossing) :
    Dict Value :=
  values.rename (innerKey? crossing)

def rekeySubtreeValues {Value : Type} (values : Dict Value) (crossing : SubtreeCrossing) :
    Dict Value :=
  values.rename (outerKey? crossing)

def liesUnder (boundaryId key : String) : Bool :=
  match addressOfElabKey key true with
  | some address => (restAfter? boundaryId address.port).isSome
  | none => false

/-- What may follow an id: nothing, or a text that starts with a dot. -/
def Continues (rest : String) : Prop :=
  rest = "" ∨ ['.'] <+: rest.toList

variable {rest : String} {address : PortAddress} {ref : PortRef}

theorem restAfter?_eq_some_iff {id port : String} :
    restAfter? id port = some rest ↔ port = id ++ rest ∧ Continues rest := by
  unfold restAfter?
  constructor
  · intro found
    split at found
    · rename_i same
      cases found
      exact ⟨by rw [same, String.append_empty], .inl rfl⟩
    · split at found
      · rename_i starts
        obtain ⟨tail, split⟩ := isPrefixOf_iff_prefix.mp starts
        rw [toList_dotted, append_assoc] at split
        rw [← split, drop_left] at found
        cases found
        refine ⟨String.toList_injective ?_, .inr ⟨tail, ?_⟩⟩
        · rw [String.toList_append, String.toList_ofList, split]
        · rw [String.toList_ofList]
      · cases found
  · rintro ⟨rfl, none | ⟨tail, dotted⟩⟩
    · rw [none, String.append_empty, if_pos rfl]
    · have joined : (id ++ rest).toList = (id ++ ".").toList ++ tail := by
        rw [String.toList_append, ← dotted, toList_dotted, append_assoc]
      have longer : id ++ rest ≠ id := by
        intro same
        have lengths := congrArg (·.toList.length) same
        simp only [joined, toList_dotted, length_append, length_singleton] at lengths
        omega
      rw [if_neg longer, if_pos ( isPrefixOf_iff_prefix.mpr ⟨tail, joined.symm⟩),
        String.toList_append, drop_left, String.ofList_toList]

theorem restAfter?_append {id : String} (continues : Continues rest) :
    restAfter? id (id ++ rest) = some rest :=
  restAfter?_eq_some_iff.mpr ⟨rfl, continues⟩

/-! ## Translation is injective -/

variable {inner key : String} {crossing : BoundaryCrossing}

theorem rebase_injective (crossing : FamilyCrossing) {first second : String}
    (left : crossing.rebase.get first = some inner)
    (right : crossing.rebase.get second = some inner) : first = second := by
  have same := (crossing.rebased first inner left).symm.trans (crossing.rebased second inner right)
  split at same
  · exact same
  · have chars := String.ofList_injective same
    exact String.toList_injective (List.cons.inj chars).2

theorem translateCanonical_ok {crossing : FamilyCrossing}
    (canonical : crossing.optionalAfterMinimum = true) (continues : Continues rest)
    (accepted : crossing.translateCanonical address rest = .ok ref) :
    address.members = [] ∧ ref.port = crossing.familyPath ++ rest := by
  unfold FamilyCrossing.translateCanonical at accepted
  dsimp only at accepted
  split at accepted
  · cases accepted
  · rename_i known
    rw [not_or, not_not] at known
    refine ⟨known.2, ?_⟩
    cases accepted
    cases continues with
    | inl none =>
      rw [none] at known
      exact absurd (isNone_iff_eq_none.mpr (crossing.named canonical)) known.1
    | inr dotted =>
      obtain ⟨tail, shape⟩ := dotted
      refine String.toList_injective ?_
      rw [← shape]
      simp only [String.toList_append, String.toList_ofList, ← shape, singleton_append,
        drop_succ_cons, drop_zero]
      simp

theorem translateMember_ok {crossing : FamilyCrossing}
    (accepted : crossing.translateMember address rest = .ok ref) :
    ∃ member deeper inner, address.members = member :: deeper ∧
      crossing.rebase.get member = some inner ∧ ref.port = crossing.familyPath ++ rest ∧
        ref.members = crossing.hopMembers ++ inner :: deeper := by
  unfold FamilyCrossing.translateMember at accepted
  split at accepted
  · cases accepted
  · rename_i member deeper shape
    split at accepted
    · split at accepted
      · cases accepted
      · rename_i inner found
        cases accepted
        exact ⟨member, deeper, inner, shape, found, rfl, rfl⟩
    · cases accepted

theorem translate_node (accepted : translateThroughCrossing crossing address = .ok ref) :
    ref.node = crossing.targetNode := by
  unfold translateThroughCrossing at accepted
  split at accepted
  · cases accepted
  · cases crossing with
    | subtree crossing =>
      cases accepted
      rfl
    | family crossing =>
      dsimp only at accepted
      unfold FamilyCrossing.translateCanonical FamilyCrossing.translateMember at accepted
      split at accepted
      · dsimp only at accepted
        split at accepted
        · cases accepted
        · cases accepted
          rfl
      · split at accepted
        · cases accepted
        · split at accepted
          · split at accepted
            · cases accepted
            · cases accepted
              rfl
          · cases accepted

theorem translate_injective {first second : PortAddress}
    (left : translateThroughCrossing crossing first = .ok ref)
    (right : translateThroughCrossing crossing second = .ok ref) : first = second := by
  unfold translateThroughCrossing at left right
  cases here : restAfter? crossing.boundaryId first.port with
  | none =>
    rw [here] at left
    cases left
  | some rest =>
    cases there : restAfter? crossing.boundaryId second.port with
    | none =>
      rw [there] at right
      cases right
    | some other =>
      rw [here] at left
      rw [there] at right
      have firstPort := restAfter?_eq_some_iff.mp here
      have secondPort := restAfter?_eq_some_iff.mp there
      -- It is enough that the translations determine what follows the id and the members.
      have enough : rest = other → first.members = second.members → first = second := by
        intro rests members
        cases first
        cases second
        simp_all
      cases crossing with
      | subtree crossing =>
        have same := (Except.ok.inj left).trans (Except.ok.inj right).symm
        rw [PortRef.mk.injEq] at same
        refine enough (String.toList_injective ?_) (append_cancel_left same.2.2)
        have chars := congrArg String.toList same.2.1
        rw [String.toList_append, String.toList_append] at chars
        exact append_cancel_left chars
      | family crossing =>
        have ports : ∀ {port : String}, port = crossing.familyPath ++ rest →
            port = crossing.familyPath ++ other → rest = other := by
          intro port one two
          have chars := congrArg String.toList (one.symm.trans two)
          rw [String.toList_append, String.toList_append] at chars
          exact String.toList_injective (append_cancel_left chars)
        dsimp only at left right
        by_cases canonical : crossing.optionalAfterMinimum = true
        · rw [if_pos canonical] at left right
          have one := translateCanonical_ok canonical firstPort.2 left
          have two := translateCanonical_ok canonical secondPort.2 right
          exact enough (ports one.2 two.2) (one.1.trans two.1.symm)
        · rw [if_neg canonical] at left right
          obtain ⟨member, deeper, inner, shape, found, port, members⟩ := translateMember_ok left
          obtain ⟨member', deeper', inner', shape', found', port', members'⟩ :=
            translateMember_ok right
          have tails := append_cancel_left (members.symm.trans members')
          obtain ⟨inners, deepers⟩ := List.cons.inj tails
          refine enough (ports port port') ?_
          rw [shape, shape', deepers,
            rebase_injective crossing found (inners ▸ found')]

/-! ## Values are not merged and can be carried back -/

theorem innerKey?_eq_some_iff :
    innerKey? crossing key = some inner ↔ ∃ address ref, elabKeyOf address = key ∧
      translateThroughCrossing crossing address = .ok ref ∧ elabKeyOf ref.address = inner := by
  unfold innerKey?
  simp only [bind_eq_bind, bind_eq_some_iff, addressOfElabKey_eq_some_iff]
  constructor
  · rintro ⟨address, keyed, ref, accepted, same⟩
    refine ⟨address, ref, keyed, ?_, some.inj same⟩
    cases translated : translateThroughCrossing crossing address with
    | error failure =>
      rw [translated] at accepted
      cases accepted
    | ok found =>
      rw [translated] at accepted
      exact congrArg Except.ok (some.inj accepted)
  · rintro ⟨address, ref, keyed, accepted, same⟩
    exact ⟨address, keyed, ref, by rw [accepted]; rfl, congrArg some same⟩

theorem innerKey?_injective {first second : String} (left : innerKey? crossing first = some inner)
    (right : innerKey? crossing second = some inner) : first = second := by
  obtain ⟨address, ref, keyed, accepted, same⟩ := innerKey?_eq_some_iff.mp left
  obtain ⟨address', ref', keyed', accepted', same'⟩ := innerKey?_eq_some_iff.mp right
  have inners := elabKeyOf_injective (same.trans same'.symm)
  have refs : ref = ref' := by
    have nodes := (translate_node accepted).trans (translate_node accepted').symm
    cases ref
    cases ref'
    simp_all [PortRef.address]
  rw [← keyed, ← keyed', translate_injective accepted (refs ▸ accepted')]

theorem outerKey?_eq_some_iff {crossing : SubtreeCrossing} {outer : String} :
    outerKey? crossing key = some outer ↔ ∃ rest members, Continues rest ∧
      key = elabKeyOf ⟨crossing.constructPath ++ rest, crossing.hopMembers ++ members⟩ ∧
        outer = elabKeyOf ⟨crossing.boundaryId ++ rest, members⟩ := by
  unfold outerKey?
  simp only [bind_eq_bind, bind_eq_some_iff, addressOfElabKey_eq_some_iff,
    restAfter?_eq_some_iff]
  constructor
  · rintro ⟨address, keyed, rest, ⟨port, continues⟩, found⟩
    split at found
    · rename_i hops
      obtain ⟨members, shape⟩ := isPrefixOf_iff_prefix.mp hops
      refine ⟨rest, members, continues, ?_, ?_⟩
      · rw [← keyed, shape, ← port]
      · rw [← shape, drop_left] at found
        exact (some.inj found).symm
    · cases found
  · rintro ⟨rest, members, continues, rfl, rfl⟩
    refine ⟨_, rfl, rest, ⟨rfl, continues⟩, ?_⟩
    rw [if_pos ( isPrefixOf_iff_prefix.mpr (prefix_append _ _)), drop_left]
    rfl

theorem outerKey?_injective {crossing : SubtreeCrossing} {first second outer : String}
    (left : outerKey? crossing first = some outer)
    (right : outerKey? crossing second = some outer) : first = second := by
  obtain ⟨rest, members, _, rfl, rfl⟩ := outerKey?_eq_some_iff.mp left
  obtain ⟨other, others, _, rfl, same⟩ := outerKey?_eq_some_iff.mp right
  have parts := elabKeyOf_injective same
  rw [PortAddress.mk.injEq] at parts
  have chars := congrArg String.toList parts.1
  rw [String.toList_append, String.toList_append] at chars
  rw [String.toList_injective (append_cancel_left chars), parts.2]

/-- A key at or under the boundary id is what its inner key is read back under. -/
theorem outerKey?_of_innerKey? {crossing : SubtreeCrossing}
    (projected : innerKey? (.subtree crossing) key = some inner) :
    outerKey? crossing inner = some key := by
  obtain ⟨address, ref, keyed, accepted, same⟩ := innerKey?_eq_some_iff.mp projected
  unfold translateThroughCrossing at accepted
  split at accepted
  · cases accepted
  · rename_i rest found
    obtain ⟨port, continues⟩ := restAfter?_eq_some_iff.mp found
    cases accepted
    refine outerKey?_eq_some_iff.mpr ⟨rest, address.members, continues, same.symm, ?_⟩
    have whole : address = ⟨crossing.boundaryId ++ rest, address.members⟩ :=
      congrArg (PortAddress.mk · address.members) port
    exact keyed.symm.trans (congrArg elabKeyOf whole)

theorem exists_innerKey?_iff {crossing : SubtreeCrossing} :
    (∃ inner, innerKey? (.subtree crossing) key = some inner) ↔
      liesUnder crossing.boundaryId key = true := by
  unfold innerKey? liesUnder translateThroughCrossing
  cases addressOfElabKey key true with
  | none => simp
  | some address =>
    cases found : restAfter? crossing.boundaryId address.port with
    | none | some rest => simp [BoundaryCrossing.boundaryId, found, Except.toOption]

theorem get_projectCrossingValues {Value : Type} (values : Dict Value)
    (projected : innerKey? crossing key = some inner) :
    (projectCrossingValues values crossing).get inner = values.get key :=
  values.get_rename (fun _ _ _ left right => innerKey?_injective left right) projected

theorem get_rekey_project {Value : Type} (values : Dict Value) (crossing : SubtreeCrossing)
    (key : String) :
    (rekeySubtreeValues (projectCrossingValues values (.subtree crossing)) crossing).get key =
      if liesUnder crossing.boundaryId key then values.get key else none := by
  unfold rekeySubtreeValues
  by_cases under : liesUnder crossing.boundaryId key = true
  · obtain ⟨inner, projected⟩ := exists_innerKey?_iff.mpr under
    rw [if_pos under, Dict.get_rename (fun _ _ _ left right => outerKey?_injective left right) _
      (outerKey?_of_innerKey? projected), get_projectCrossingValues values projected]
  · rw [if_neg under]
    refine Dict.get_rename_of_absent ?_ _
    intro inner returned
    obtain ⟨rest, members, continues, _, same⟩ := outerKey?_eq_some_iff.mp returned
    have accepted : translateThroughCrossing (.subtree crossing)
        ⟨crossing.boundaryId ++ rest, members⟩ = .ok ⟨crossing.targetNode,
          crossing.constructPath ++ rest, crossing.hopMembers ++ members⟩ := by
      unfold translateThroughCrossing
      simp only [BoundaryCrossing.boundaryId, restAfter?_append continues]
    exact under (exists_innerKey?_iff.mp
      ⟨_, innerKey?_eq_some_iff.mpr ⟨_, _, same.symm, accepted, rfl⟩⟩)

/-- Translation through a crossing is invertible: it is injective, no two values land on one
inner key, and a subtree crossing carries back exactly the values it carried. -/
theorem crossing_invertible {Value : Type} (values : Dict Value) :
    (∀ (crossing : SubtreeCrossing) (key : String),
      (rekeySubtreeValues (projectCrossingValues values (.subtree crossing)) crossing).get key =
        if liesUnder crossing.boundaryId key then values.get key else none) ∧
      (∀ (crossing : BoundaryCrossing) (first second : PortAddress) (ref : PortRef),
        translateThroughCrossing crossing first = .ok ref →
          translateThroughCrossing crossing second = .ok ref → first = second) ∧
        ∀ (crossing : BoundaryCrossing) (first second inner : String),
          innerKey? crossing first = some inner → innerKey? crossing second = some inner →
            first = second ∧ (projectCrossingValues values crossing).get inner = values.get first :=
  ⟨fun crossing key => get_rekey_project values crossing key,
    fun _ _ _ _ left right => translate_injective left right,
    fun _ _ _ _ left right =>
      ⟨innerKey?_injective left right, get_projectCrossingValues values left⟩⟩

end Dinkster.Boundary
