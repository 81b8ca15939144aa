import Dinkster.Format.Dynamic
import Dinkster.Library.Layers

/-!
# Inheriting dynamic state

The state of a forwarded subtree is what an instance has authored laid over what the node
inside has, with empty states masking what they cover.  What a merge computes is the value of
laying layers over each other, and two boundaries compose only where no mask is uncovered.
-/

namespace Dinkster.Boundary

open Format Library List Option

variable (inner outer : PortFields)

/-- The fields of `{ ...inner, ...outer }`. -/
def mergeFields : PortFields where
  members := outer.members.or inner.members
  memberLabels := outer.memberLabels.or inner.memberLabels
  seq := outer.seq.or inner.seq
  selected := outer.selected.or inner.selected
  options := outer.options.or inner.options

mutual

/-- The state a construct gets when `outer` is authored over `inner`. -/
def overlayState (inner : Option DynamicPortState) : DynamicPortState → DynamicPortState
  | .mk own memberState =>
    match inner with
    | none => .mk own memberState
    | some inner =>
      if DynamicPortState.isEmpty (.mk own memberState) then .mk own memberState
      else .mk (mergeFields inner.own own) (overlayMemberState inner.memberState memberState)
termination_by structural outer => outer

def overlayMemberState (inner : Option MemberState) :
    Option (List (String × List (String × DynamicPortState))) → Option MemberState
  | none => inner
  | some scopes =>
    some (overlayMembers inner (if scopes.isEmpty then [] else inner.getD []) scopes)
termination_by structural outer => outer

/-- Write the scopes of the authored members over `result`. -/
def overlayMembers (inner : Option MemberState) (result : MemberState) :
    List (String × List (String × DynamicPortState)) → MemberState
  | [] => result
  | (member, scope) :: rest =>
    let beneath : DynamicScope := (Table.get (inner.getD []) member).getD []
    overlayMembers inner
      (result.set member (if scope.isEmpty then [] else overlayScope beneath beneath scope)) rest
termination_by structural outer => outer

/-- Write the authored states over `result`. -/
def overlayScope (inherited result : DynamicScope) : List (String × DynamicPortState) → DynamicScope
  | [] => result
  | (construct, outer) :: rest =>
    overlayScope inherited
      (result.set construct (overlayState (inherited.get construct) outer)) rest
termination_by structural outer => outer

end

def mergeDynamicScope (inherited authored : DynamicScope) : DynamicScope :=
  overlayScope inherited inherited authored

mutual

theorem plain_overlayState {inner : Option DynamicPortState}
    (beneath : ∀ state, inner = some state → state.Plain) :
    ∀ outer : DynamicPortState, outer.Plain → (overlayState inner outer).Plain
  | .mk own memberState, plain => by
    cases inner with
    | none =>
      rw [overlayState]
      exact plain
    | some inner =>
      rw [overlayState]
      split
      · exact plain
      · have below : ∀ scopes, inner.memberState = some scopes → plainMembers scopes := by
          intro scopes same
          have here := beneath inner rfl
          cases inner with
          | mk innerOwn nested =>
            change nested = some scopes at same
            subst same
            rw [DynamicPortState.Plain] at here
            exact here
        cases merged : overlayMemberState inner.memberState memberState with
        | none => rw [DynamicPortState.Plain]; trivial
        | some scopes =>
          rw [DynamicPortState.Plain]
          refine plain_overlayMemberState below memberState ?_ scopes merged
          intro authored same
          subst same
          rw [DynamicPortState.Plain] at plain
          exact plain
termination_by structural outer => outer

theorem plain_overlayMemberState {inner : Option MemberState}
    (beneath : ∀ scopes, inner = some scopes → plainMembers scopes) :
    ∀ outer : Option (List (String × List (String × DynamicPortState))),
      (∀ scopes, outer = some scopes → plainMembers scopes) →
        ∀ merged, overlayMemberState inner outer = some merged → plainMembers merged
  | none, _, merged, same => by
    rw [overlayMemberState] at same
    exact beneath merged same
  | some scopes, plain, merged, same => by
    rw [overlayMemberState] at same
    cases same
    have innerPlain : plainMembers (inner.getD []) := by
      cases inner with
      | none => rw [getD_none, plainMembers]; trivial
      | some inner => exact beneath inner rfl
    refine plain_overlayMembers innerPlain ?_ scopes (plain scopes rfl)
    split
    · rw [plainMembers]; trivial
    · exact innerPlain
termination_by structural outer => outer

theorem plain_overlayMembers {inner : Option MemberState} {result : MemberState}
    (beneath : plainMembers (inner.getD [])) (started : plainMembers result) :
    ∀ outer : List (String × List (String × DynamicPortState)), plainMembers outer →
      plainMembers (overlayMembers inner result outer)
  | [], _ => by
    rw [overlayMembers]
    exact started
  | (member, scope) :: rest, plain => by
    rw [plainMembers] at plain
    rw [overlayMembers]
    refine plain_overlayMembers beneath (plainMembers_set started ?_) rest plain.2.2
    have below : plainScope ((Table.get (inner.getD []) member).getD []) := by
      cases found : Table.get (inner.getD []) member with
      | none => rw [getD_none, plainScope]; trivial
      | some scope => exact plainScope_of_get beneath found
    split
    · rw [plainScope]; trivial
    · exact plain_overlayScope below below scope plain.2.1
termination_by structural outer => outer

theorem plain_overlayScope {inherited result : DynamicScope} (beneath : plainScope inherited)
    (started : plainScope result) : ∀ outer : List (String × DynamicPortState), plainScope outer →
      plainScope (overlayScope inherited result outer)
  | [], _ => by
    rw [overlayScope]
    exact started
  | (construct, state) :: rest, plain => by
    rw [plainScope] at plain
    rw [overlayScope]
    refine plain_overlayScope beneath (plainScope_set started ?_) rest plain.2.2
    exact plain_overlayState (fun _ found => plain_of_get beneath found) state plain.2.1
termination_by structural outer => outer

end

variable (inherited authored : ScopeRecord)

def mergeScopeRecords : ScopeRecord :=
  ⟨mergeDynamicScope inherited.scope authored.scope,
    plain_overlayScope inherited.plain inherited.plain authored.scope authored.plain⟩

/-- The names of the fields of a state. -/
inductive PortField where
  | members
  | memberLabels
  | seq
  | selected
  | options

/-- What a field of a state holds.  Labels are a record: their order does not matter. -/
inductive PortDatum where
  | members (ids : List String)
  | memberLabels (labels : String → Option String)
  | seq (next : Nat)
  | selected (choice : String)
  | options (choices : List Json)

variable (own : PortFields)

def fieldData : PortField → Option PortDatum
  | .members => own.members.map .members
  | .memberLabels => own.memberLabels.map fun labels => .memberLabels labels.get
  | .seq => own.seq.map .seq
  | .selected => own.selected.map .selected
  | .options => own.options.map .options

mutual

def stateLayer : DynamicPortState → Layer String PortField PortDatum
  | .mk own none => .present (fieldData own) none
  | .mk own (some scopes) => .present (fieldData own) (some (memberLayers scopes))

def memberLayers : List (String × List (String × DynamicPortState)) →
    MemberScopes String PortField PortDatum
  | [], _ => none
  | (member, scope) :: rest, name =>
    if member = name then some (scopeLayers scope) else memberLayers rest name

def scopeLayers : List (String × DynamicPortState) → LayerScope String PortField PortDatum
  | [], _ => .absent
  | (construct, state) :: rest, name =>
    if construct = name then stateLayer state else scopeLayers rest name

end

/-- The value of a state that may be missing. -/
def optionLayer : Option DynamicPortState → Layer String PortField PortDatum
  | some state => stateLayer state
  | none => .absent

theorem stateLayer_eq (state : DynamicPortState) :
    stateLayer state = .present (fieldData state.own) (state.memberState.map memberLayers) := by
  cases state with
  | mk own memberState => cases memberState <;> rw [stateLayer] <;> rfl

theorem stateLayer_mk (memberState : Option MemberState) :
    stateLayer (.mk own memberState) = .present (fieldData own) (memberState.map memberLayers) :=
  stateLayer_eq _

theorem scopeLayers_eq (scope : DynamicScope) (name : String) :
    scopeLayers scope name = optionLayer (scope.get name) := by
  induction scope with
  | nil => rfl
  | cons entry rest ih =>
    obtain ⟨construct, state⟩ := entry
    rw [scopeLayers, Table.get_cons, ih]
    by_cases same : construct = name
    · rw [if_pos same, if_pos same]
      rfl
    · rw [if_neg same, if_neg same]

theorem memberLayers_eq (scopes : MemberState) (name : String) :
    memberLayers scopes name = (scopes.get name).map scopeLayers := by
  induction scopes with
  | nil => rfl
  | cons entry rest ih =>
    obtain ⟨member, scope⟩ := entry
    rw [memberLayers, Table.get_cons, ih]
    by_cases same : member = name
    · rw [if_pos same, if_pos same]
      rfl
    · rw [if_neg same, if_neg same]

theorem allBlank_scopeLayers (scope : DynamicScope) :
    AllBlank .absent (scopeLayers scope) ↔ scope = [] := by
  constructor
  · intro blank
    cases scope with
    | nil => rfl
    | cons entry rest =>
      obtain ⟨construct, state⟩ := entry
      have here := blank construct
      rw [scopeLayers, if_pos rfl, stateLayer_eq] at here
      cases here
  · rintro rfl name
    rfl

theorem allBlank_memberLayers (scopes : MemberState) :
    AllBlank none (memberLayers scopes) ↔ scopes = [] := by
  constructor
  · intro blank
    cases scopes with
    | nil => rfl
    | cons entry rest =>
      obtain ⟨member, scope⟩ := entry
      have here := blank member
      rw [memberLayers, if_pos rfl] at here
      cases here
  · rintro rfl name
    rfl

theorem vacant_iff (memberState : Option MemberState) :
    Vacant (fieldData own) (memberState.map memberLayers) ↔
      DynamicPortState.isEmpty (.mk own memberState) = true := by
  unfold Vacant DynamicPortState.isEmpty
  rw [Bool.and_eq_true, decide_eq_true_iff, isNone_iff_eq_none, map_eq_none_iff]
  refine and_congr ?_ Iff.rfl
  constructor
  · intro nothing
    have members := nothing .members
    have memberLabels := nothing .memberLabels
    have seq := nothing .seq
    have selected := nothing .selected
    have options := nothing .options
    cases own
    simp_all [fieldData, PortFields.none]
  · rintro rfl field
    cases field <;> rfl

theorem fieldData_mergeFields : fieldData (mergeFields inner outer) =
      fun field => (fieldData outer field).or (fieldData inner field) := by
  funext field
  cases field <;> simp only [fieldData, mergeFields, map_or]

mutual

theorem stateLayer_overlayState (inner : Option DynamicPortState) :
    ∀ outer : DynamicPortState, outer.Plain →
      stateLayer (overlayState inner outer) = mergeLayer (optionLayer inner) (stateLayer outer)
  | .mk own memberState, plain => by
    have authored : ∀ scopes, memberState = some scopes → plainMembers scopes := by
      intro scopes same
      subst same
      rw [DynamicPortState.Plain] at plain
      exact plain
    cases inner with
    | none =>
      rw [overlayState, optionLayer, mergeLayer_absent_left]
    | some inner =>
      have nested := memberLayers_overlayMemberState inner.memberState memberState authored
      rw [overlayState, optionLayer, stateLayer_mk own memberState, stateLayer_eq inner, mergeLayer]
      by_cases empty : DynamicPortState.isEmpty (.mk own memberState) = true
      · rw [if_pos empty, if_pos ((vacant_iff own memberState).mpr empty), stateLayer_mk]
      · rw [if_neg empty, if_neg (fun vacant => empty ((vacant_iff own memberState).mp vacant)),
          stateLayer_mk, nested, fieldData_mergeFields]
termination_by structural outer => outer

theorem memberLayers_overlayMemberState (inner : Option MemberState) :
    ∀ outer : Option (List (String × List (String × DynamicPortState))),
      (∀ scopes, outer = some scopes → plainMembers scopes) →
        (overlayMemberState inner outer).map memberLayers =
          mergeMembers (inner.map memberLayers) (outer.map memberLayers)
  | none, _ => by
    rw [overlayMemberState, map_none, mergeMembers]
  | some scopes, plain => by
    rw [overlayMemberState, map_some, map_some, mergeMembers, some.injEq]
    funext name
    rw [memberLayers_overlayMembers inner _ scopes (plain scopes rfl) name]
    by_cases empty : scopes = []
    · subst empty
      rw [if_pos ((allBlank_memberLayers []).mpr rfl)]
      rfl
    · rw [if_neg (fun blank => empty ((allBlank_memberLayers scopes).mp blank))]
      split
      · rfl
      · rename_i missing
        have nothing : memberLayers scopes name = none := by
          rw [memberLayers_eq, Table.get_eq_none_iff.mpr missing, map_none]
        rw [nothing, mergeNested]
        have kept : scopes.isEmpty = false := isEmpty_eq_false_iff.mpr empty
        cases inner <;> simp [kept, entryOf, memberLayers]
termination_by structural outer => outer

theorem memberLayers_overlayMembers (inner : Option MemberState) (result : MemberState) :
    ∀ outer : List (String × List (String × DynamicPortState)), plainMembers outer → ∀ name,
      memberLayers (overlayMembers inner result outer) name =
        if name ∈ outer.map Prod.fst then
          mergeNested (entryOf none (inner.map memberLayers) name) (memberLayers outer name)
        else memberLayers result name
  | [], _, name => by
    rw [overlayMembers]
    simp
  | (member, scope) :: rest, plain, name => by
    rw [plainMembers] at plain
    rw [overlayMembers, memberLayers_overlayMembers inner _ rest plain.2.2 name, memberLayers]
    by_cases same : member = name
    · subst same
      have here : member ∈ ((member, scope) :: rest).map Prod.fst := mem_cons_self
      rw [if_neg plain.1, if_pos here, if_pos rfl, memberLayers_eq, Table.get_set,
        if_pos rfl, map_some, mergeNested, some.injEq]
      funext construct
      by_cases empty : scope = []
      · subst empty
        rw [if_pos ((allBlank_scopeLayers []).mpr rfl)]
        rfl
      · rw [if_neg (fun blank => empty ((allBlank_scopeLayers scope).mp blank)),
          if_neg (by simpa using empty),
          scopeLayers_overlayScope _ _ scope plain.2.1 construct]
        have beneath : scopeLayers ((Table.get (inner.getD []) member).getD []) construct =
            entryOf .absent (entryOf none (inner.map memberLayers) member) construct := by
          cases inner with
          | none => rfl
          | some inner =>
            rw [getD_some, map_some, entryOf, memberLayers_eq]
            cases Table.get inner member <;> rfl
        split
        · rw [beneath]
        · rename_i missing
          have nothing : scopeLayers scope construct = .absent := by
            rw [scopeLayers_eq, Table.get_eq_none_iff.mpr missing]
            rfl
          rw [nothing, mergeLayer_absent_right, beneath]
    · rw [if_neg same]
      by_cases listed : name ∈ rest.map Prod.fst
      · have here : name ∈ ((member, scope) :: rest).map Prod.fst := mem_cons_of_mem _ listed
        rw [if_pos listed, if_pos here]
      · have away : name ∉ ((member, scope) :: rest).map Prod.fst := by
          intro found
          cases mem_cons.mp found with
          | inl equal => exact same equal.symm
          | inr later => exact listed later
        rw [if_neg listed, if_neg away, memberLayers_eq, Table.get_set, if_neg same,
          ← memberLayers_eq]
termination_by structural outer => outer

theorem scopeLayers_overlayScope (inherited result : DynamicScope) :
    ∀ outer : List (String × DynamicPortState), plainScope outer → ∀ name,
      scopeLayers (overlayScope inherited result outer) name =
        if name ∈ outer.map Prod.fst then
          mergeLayer (scopeLayers inherited name) (scopeLayers outer name)
        else scopeLayers result name
  | [], _, name => by
    rw [overlayScope]
    simp
  | (construct, state) :: rest, plain, name => by
    rw [plainScope] at plain
    rw [overlayScope, scopeLayers_overlayScope inherited _ rest plain.2.2 name, scopeLayers]
    by_cases same : construct = name
    · subst same
      have here : construct ∈ ((construct, state) :: rest).map Prod.fst := mem_cons_self
      rw [if_neg plain.1, if_pos here, if_pos rfl, scopeLayers_eq, Table.get_set,
        if_pos rfl, scopeLayers_eq inherited]
      exact stateLayer_overlayState _ state plain.2.1
    · rw [if_neg same]
      by_cases listed : name ∈ rest.map Prod.fst
      · have here : name ∈ ((construct, state) :: rest).map Prod.fst := mem_cons_of_mem _ listed
        rw [if_pos listed, if_pos here]
      · have away : name ∉ ((construct, state) :: rest).map Prod.fst := by
          intro found
          cases mem_cons.mp found with
          | inl equal => exact same equal.symm
          | inr later => exact listed later
        rw [if_neg listed, if_neg away, scopeLayers_eq, Table.get_set, if_neg same,
          ← scopeLayers_eq]
termination_by structural outer => outer

end

/-- Merging two records lays their values over each other. -/
theorem scopeLayers_merge : scopeLayers (mergeScopeRecords inherited authored).scope =
      mergeScope (scopeLayers inherited.scope) (scopeLayers authored.scope) := by
  funext name
  change scopeLayers (overlayScope inherited.scope inherited.scope authored.scope) name =
    mergeLayer (scopeLayers inherited.scope name) (scopeLayers authored.scope name)
  rw [scopeLayers_overlayScope _ _ _ authored.plain name]
  split
  · rfl
  · rename_i missing
    have nothing : scopeLayers authored.scope name = .absent := by
      rw [scopeLayers_eq, Table.get_eq_none_iff.mpr missing]
      rfl
    rw [nothing, mergeLayer_absent_right]

/-- Two records of dynamic state are equal up to the order of their keys. -/
def SameScope (first second : ScopeRecord) : Prop :=
  scopeLayers first.scope = scopeLayers second.scope

/-- Inheriting through two boundaries one after the other is inheriting through the merged
instance exactly when, wherever the middle instance masks, the outer one masks too or covers
what the definition has there. -/
theorem inheritance_composes_iff (inner middle outer : ScopeRecord) :
    SameScope (mergeScopeRecords inner (mergeScopeRecords middle outer))
        (mergeScopeRecords (mergeScopeRecords inner middle) outer) ↔
      ∀ construct, LayersCompose (scopeLayers inner.scope construct)
        (scopeLayers middle.scope construct) (scopeLayers outer.scope construct) := by
  unfold SameScope
  simp only [scopeLayers_merge]
  exact mergeScope_assoc_iff _ _ _

/-- A family with the member `0` in the definition. -/
def ownedFamily : ScopeRecord :=
  ⟨[("images", .mk ⟨some ["0"], none, some 1, none, none⟩ none)], by simp [plainScope,
    DynamicPortState.Plain]⟩

/-- An empty state of the same construct. -/
def emptyFamily : ScopeRecord :=
  ⟨[("images", .mk PortFields.none none)], by simp [plainScope, DynamicPortState.Plain]⟩

/-- A state of the same construct that selects a choice. -/
def selectingFamily : ScopeRecord :=
  ⟨[("images", .mk ⟨none, none, none, some "b", none⟩ none)], by simp [plainScope,
    DynamicPortState.Plain]⟩

/-- The members that the empty state masks show again beneath the merged instance. -/
theorem masked_members_show :
    ¬SameScope (mergeScopeRecords ownedFamily (mergeScopeRecords emptyFamily selectingFamily))
      (mergeScopeRecords (mergeScopeRecords ownedFamily emptyFamily) selectingFamily) := by
  have compiled : (mergeScopeRecords ownedFamily
      (mergeScopeRecords emptyFamily selectingFamily)).scope =
        [("images", .mk ⟨some ["0"], none, some 1, some "b", none⟩ none)] := rfl
  have rendered : (mergeScopeRecords (mergeScopeRecords ownedFamily emptyFamily)
      selectingFamily).scope =
        [("images", .mk ⟨none, none, none, some "b", none⟩ none)] := rfl
  intro same
  unfold SameScope at same
  rw [compiled, rendered] at same
  have here := congrFun same "images"
  rw [scopeLayers, if_pos rfl, scopeLayers, if_pos rfl, stateLayer_mk, stateLayer_mk,
    Layer.present.injEq] at here
  cases congrFun here.1 .members

end Dinkster.Boundary
