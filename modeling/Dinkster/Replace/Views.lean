import Dinkster.Library.Moves
import Dinkster.Replace.Plan

/-!
# Views of replaced inputs

The views of inputs move with the widgets of the inputs, all at once by intent and one after the
other in the code.  The two agree exactly when no view moves to an input whose own view moves
later.
-/

namespace Dinkster.Replace

open Library List Option

variable {Representation : Type}

def Mapped.target (mapped : Mapped) (input : String) : Option TargetAddress :=
  match mapped.movesOf input with
  | [address] => some address
  | _ => none

def TargetAddress.IsInput (address : TargetAddress) (nodeId input : String) : Prop :=
  address.nodeId = nodeId ∧ address.port = input

instance (address : TargetAddress) (nodeId input : String) :
    Decidable (address.IsInput nodeId input) :=
  inferInstanceAs (Decidable (_ ∧ _))

/-- The views of a node are renamed all at once: the view of an input with a target is that of
the target, and an input that neither has a target nor is one keeps its view. -/
structure Renamed (nodeId : String) (target : String → Option TargetAddress)
    (before after : Table (Table Representation)) : Prop where
  moved : ∀ input view address, (inputViews before nodeId).get input = some view →
    target input = some address → (inputViews after address.nodeId).get address.port = some view
  kept : ∀ input view, (inputViews before nodeId).get input = some view → target input = none →
    (∀ other address, target other = some address → ¬ address.IsInput nodeId input) →
    (inputViews after nodeId).get input = some view

def MovesInOrder (nodeId : String) (target : String → Option TargetAddress)
    (views : Table Representation) : Prop :=
  (views.map Prod.fst).Pairwise fun earlier later =>
    ∀ address, target earlier = some address → address.IsInput nodeId later → target later = none

theorem helperId_ne (nodeId localId : String) : helperId nodeId localId ≠ nodeId := by
  intro same
  have lengths := congrArg String.length same
  unfold helperId at lengths
  simp only [String.length_append] at lengths
  have colon : ":".length = 1 := rfl
  omega

variable {nodeId : String} {address : TargetAddress} {nodes : Option (List String)}
    {mapped : Mapped}

variable {first second input sourceInput : String} {left right : TargetAddress}
    {activeInput : TargetAddress → Option InputSpec} {connected : String → Bool}

theorem helperId_inj (same : helperId nodeId first = helperId nodeId second) : first = second := by
  unfold helperId at same
  have chars := congrArg String.toList same
  simp only [String.toList_append, append_assoc, append_cancel_left_eq] at chars
  exact String.toList_inj.mp chars

def addressText : Option String → String → List Char
  | none, port => port.toList
  | some localId, port => localId.toList ++ ':' :: port.toList

theorem targetAddress_text {text : String}
    (found : targetAddress nodeId nodes text = some address) :
    text.toList = addressText address.localId address.port ∧
      address.nodeId = (address.localId.map (helperId nodeId)).getD nodeId := by
  unfold targetAddress at found
  cases nodes with
  | none =>
    obtain ⟨_, same⟩ := ite_none_right_eq_some.mp found
    cases same
    exact ⟨rfl, rfl⟩
  | some helpers =>
    have joined : [':'].intercalate (text.toList.splitOn ':') = text.toList :=
      intercalate_splitOn ':'
    simp only at found
    split at found
    · rename_i port parts
      obtain ⟨_, same⟩ := ite_none_left_eq_some.mp found
      cases same
      rw [parts] at joined
      exact ⟨by simpa [addressText] using joined.symm, rfl⟩
    · rename_i localId port parts
      obtain ⟨_, same⟩ := ite_none_left_eq_some.mp found
      cases same
      rw [parts] at joined
      exact ⟨by simpa [addressText, intercalate] using joined.symm, rfl⟩
    · cases found

/-- Two texts do not name the same input. -/
theorem targetAddress_inj (one : targetAddress nodeId nodes first = some left)
    (other : targetAddress nodeId nodes second = some right) (node : left.nodeId = right.nodeId)
    (port : left.port = right.port) : first = second := by
  obtain ⟨oneText, oneNode⟩ := targetAddress_text one
  obtain ⟨otherText, otherNode⟩ := targetAddress_text other
  have helper : left.localId = right.localId := by
    rw [oneNode, otherNode] at node
    cases leftId : left.localId with
    | none =>
      cases rightId : right.localId with
      | none => rfl
      | some localId =>
        rw [leftId, rightId] at node
        exact absurd node.symm (helperId_ne nodeId localId)
    | some localId =>
      cases rightId : right.localId with
      | none =>
        rw [leftId, rightId] at node
        exact absurd node (helperId_ne nodeId localId)
      | some other =>
        rw [leftId, rightId] at node
        exact congrArg some (helperId_inj node)
  apply String.toList_inj.mp
  rw [oneText, otherText, helper, port]

def Recorded (nodeId : String) (nodes : Option (List String)) (entries : Table MappingSource)
    (mapped : Mapped) : Prop :=
  ∀ input, ∀ address ∈ mapped.movesOf input, ∃ entry ∈ entries,
    targetAddress nodeId nodes entry.1 = some address ∧
      (entry.2 = .value input ∨ entry.2 = .copy input)

theorem movesOf_recordWidgetMove {other : TargetAddress} {spec : InputSpec}
    (listed : other ∈ (recordWidgetMove mapped sourceInput address spec).movesOf input) :
    other ∈ mapped.movesOf input ∨ input = sourceInput ∧ other = address := by
  unfold recordWidgetMove at listed
  split at listed
  · exact .inl listed
  · unfold Mapped.movesOf at listed
    rw [Table.get_set] at listed
    split at listed
    · rename_i same
      cases mem_append.mp listed with
      | inl old => exact .inl (same ▸ old)
      | inr new => exact .inr ⟨same.symm, mem_singleton.mp new⟩
    · exact .inl listed

theorem movesOf_moveConnectionTo {next : Mapped}
    (moved : moveConnectionTo mapped sourceInput = some next) (input : String) :
    next.movesOf input = mapped.movesOf input := by
  obtain ⟨_, same⟩ := ite_none_left_eq_some.mp moved
  cases same
  rfl

theorem movesOf_mapInput {next : Mapped} {entry : String × MappingSource}
    (step : mapInput nodeId nodes activeInput connected mapped entry = some next)
    (listed : address ∈ next.movesOf input) : address ∈ mapped.movesOf input ∨
      targetAddress nodeId nodes entry.1 = some address ∧
        (entry.2 = .value input ∨ entry.2 = .copy input) := by
  unfold mapInput at step
  simp only [bind_eq_bind, bind_eq_some_iff] at step
  obtain ⟨place, found, spec, _, step⟩ := step
  cases kind : entry.2 with
  | constant =>
    rw [kind] at step
    obtain ⟨_, same⟩ := ite_none_left_eq_some.mp step
    exact .inl (some.inj same ▸ listed)
  | value source =>
    rw [kind] at step
    obtain ⟨_, same⟩ := ite_none_left_eq_some.mp step
    rw [← some.inj same] at listed
    cases movesOf_recordWidgetMove listed with
    | inl old => exact .inl old
    | inr new => exact .inr ⟨new.2 ▸ found, .inl (new.1 ▸ rfl)⟩
  | link source =>
    rw [kind] at step
    obtain ⟨_, moved⟩ := ite_none_left_eq_some.mp step
    rw [movesOf_moveConnectionTo moved] at listed
    exact .inl listed
  | copy source =>
    rw [kind] at step
    obtain ⟨_, moved⟩ := ite_none_left_eq_some.mp step
    rw [movesOf_moveConnectionTo moved] at listed
    cases movesOf_recordWidgetMove listed with
    | inl old => exact .inl old
    | inr new => exact .inr ⟨new.2 ▸ found, .inr (new.1 ▸ rfl)⟩

theorem recorded_mapInputs {nodeId : String} {nodes : Option (List String)}
    {activeInput : TargetAddress → Option InputSpec} {connected : String → Bool}
    {entries earlier : Table MappingSource} :
    ∀ {mapped next : Mapped}, Recorded nodeId nodes earlier mapped →
      entries.foldlM (mapInput nodeId nodes activeInput connected) mapped = some next →
      Recorded nodeId nodes (earlier ++ entries) next := by
  induction entries generalizing earlier with
  | nil =>
    intro mapped next recorded folded
    rw [append_nil, ← some.inj folded]
    exact recorded
  | cons entry rest ih =>
    intro mapped next recorded folded
    rw [foldlM_cons] at folded
    obtain ⟨middle, step, folded⟩ := bind_eq_some_iff.mp folded
    have known : Recorded nodeId nodes (earlier ++ [entry]) middle := by
      intro input address listed
      cases movesOf_mapInput step listed with
      | inl old =>
        obtain ⟨before, mem, facts⟩ := recorded input address old
        exact ⟨before, mem_append_left _ mem, facts⟩
      | inr new => exact ⟨entry, mem_append_right _ mem_cons_self, new⟩
    have all := ih known folded
    rw [append_assoc] at all
    exact all

theorem mem_movesOf_of_target (target : mapped.target input = some address) :
    address ∈ mapped.movesOf input := by
  unfold Mapped.target at target
  split at target
  · rename_i found moves
    rw [moves, some.inj target]
    exact mem_singleton_self address
  · cases target

theorem target_inj {case : ReplacementCase} (once : (case.inputs.map Prod.fst).Nodup)
    (planned : mapInputs nodeId case activeInput connected = some mapped)
    (one : mapped.target first = some left) (other : mapped.target second = some right)
    (node : left.nodeId = right.nodeId) (port : left.port = right.port) : first = second := by
  have recorded := @recorded_mapInputs nodeId case.nodes activeInput connected case.inputs []
    ⟨[], []⟩ mapped (fun _ _ none => nomatch none) planned
  obtain ⟨entry, mem, found, kind⟩ := recorded first left (mem_movesOf_of_target one)
  obtain ⟨also, there, reached, sort⟩ := recorded second right (mem_movesOf_of_target other)
  have named := targetAddress_inj found reached node port
  have same : entry = also := inj_on_of_nodup_map once mem there named
  rw [same] at kind
  cases kind with
  | inl value => cases sort with
    | inl also => exact MappingSource.value.inj (value.symm.trans also)
    | inr copy => cases value.symm.trans copy
  | inr copy => cases sort with
    | inl value => cases copy.symm.trans value
    | inr also => exact MappingSource.copy.inj (copy.symm.trans also)

/-- The view of an input of a node. -/
def viewAt (views : Table (Table Representation)) (place : String × String) :
    Option Representation :=
  (inputViews views place.1).get place.2

def ViewRewire.move (nodeId : String) (rewire : ViewRewire) : Move (String × String) where
  source := (nodeId, rewire.source)
  target := (rewire.node.getD nodeId, rewire.target)

section

variable (views : Table (Table Representation))

include views

theorem inputViews_set (nodeId other : String) (table : Table Representation) :
    inputViews (views.set nodeId table) other =
      if nodeId = other then table else inputViews views other := by
  unfold inputViews
  rw [Table.get_set]
  split <;> rfl

theorem viewAt_set (node input : String) (view : Representation) :
    viewAt (views.set node ((inputViews views node).set input view)) =
      Function.update (viewAt views) (node, input) (some view) := by
  funext ⟨otherNode, other⟩
  unfold viewAt
  rw [inputViews_set]
  by_cases sameNode : node = otherNode
  · by_cases same : input = other
    · rw [if_pos sameNode, Table.get_set, if_pos same, ← sameNode, ← same, Function.update_self]
    · rw [if_pos sameNode, Table.get_set, if_neg same, ← sameNode,
        Function.update_of_ne (by simp [Ne.symm same])]
  · rw [if_neg sameNode, Function.update_of_ne (by simp [Ne.symm sameNode])]

theorem viewAt_erase (node input : String) :
    viewAt (views.set node ((inputViews views node).erase input)) =
      Function.update (viewAt views) (node, input) none := by
  funext ⟨otherNode, other⟩
  unfold viewAt
  rw [inputViews_set]
  by_cases sameNode : node = otherNode
  · by_cases same : input = other
    · rw [if_pos sameNode, Table.get_erase, if_pos same, ← sameNode, ← same, Function.update_self]
    · rw [if_pos sameNode, Table.get_erase, if_neg same, ← sameNode,
        Function.update_of_ne (by simp [Ne.symm same])]
  · rw [if_neg sameNode, Function.update_of_ne (by simp [Ne.symm sameNode])]

end

theorem viewAt_rewireView (nodeId : String) (views : Table (Table Representation))
    (rewire : ViewRewire) :
    viewAt (rewireView nodeId views rewire) = (rewire.move nodeId).run (viewAt views) := by
  have source : viewAt views (rewire.move nodeId).source =
      (inputViews views nodeId).get rewire.source := rfl
  unfold rewireView Move.run
  rw [source]
  cases found : (inputViews views nodeId).get rewire.source with
  | none => rw [if_pos (.inl rfl)]
  | some representation =>
    simp only
    by_cases here : (rewire.move nodeId).source = (rewire.move nodeId).target
    · have parts : nodeId = rewire.node.getD nodeId ∧ rewire.source = rewire.target :=
        Prod.mk.inj here
      rw [if_neg (by simp [← parts.1, ← parts.2]), if_pos (.inr here), viewAt_set, ← parts.1,
        ← parts.2]
      exact Function.update_eq_self_iff.mpr (by rw [← found]; rfl)
    · have apart : rewire.node.getD nodeId ≠ nodeId ∨ rewire.target ≠ rewire.source := by
        by_contra both
        obtain ⟨node, input⟩ := not_or.mp both
        exact here (Prod.ext (not_not.mp node).symm (not_not.mp input).symm)
      rw [if_pos apart, if_neg (by simp [here]), viewAt_erase, viewAt_set]
      rfl

theorem viewAt_rewires (nodeId : String) (rewires : List ViewRewire) :
    ∀ views : Table (Table Representation), viewAt (rewires.foldl (rewireView nodeId) views) =
        runMoves (viewAt views) (rewires.map (·.move nodeId)) := by
  induction rewires with
  | nil =>
    intro views
    rfl
  | cons rewire rest ih =>
    intro views
    rw [foldl_cons, ih, viewAt_rewireView]
    rfl

theorem inputViews_created {createdNodes : List String} (absent : nodeId ∉ createdNodes) :
    ∀ views : Table (Table Representation),
      inputViews (createdNodes.foldl Table.erase views) nodeId = inputViews views nodeId := by
  induction createdNodes with
  | nil =>
    intro views
    rfl
  | cons first rest ih =>
    intro views
    obtain ⟨other, absent⟩ := not_or.mp (mt mem_cons.mpr absent)
    rw [foldl_cons, ih absent]
    unfold inputViews
    rw [Table.get_erase, if_neg (Ne.symm other)]

section Plans

variable {nodeId : String} {case : ReplacementCase}
  {activeInput : TargetAddress → Option InputSpec} {connected : String → Bool}
  {mapped : Mapped} {views : Table (Table Representation)}

def viewMove (nodeId : String) (target : String → Option TargetAddress) (input : String) :
    Option (Move (String × String)) :=
  (target input).bind fun address =>
    if address.IsInput nodeId input then none
    else some ⟨(nodeId, input), (address.nodeId, address.port)⟩

theorem viewRewire_move (input : String) :
    (viewRewire nodeId mapped input).map (·.move nodeId) = viewMove nodeId mapped.target input := by
  unfold viewRewire viewMove Mapped.target
  cases moves : mapped.movesOf input with
  | nil => rfl
  | cons address rest =>
    cases rest with
    | cons _ _ => rfl
    | nil =>
      simp only [bind_some]
      by_cases here : address.IsInput nodeId input
      · have same : address.nodeId = nodeId ∧ address.port = input := here
        rw [if_pos here, if_pos same]
        rfl
      · have apart : ¬ (address.nodeId = nodeId ∧ address.port = input) := here
        rw [if_neg here, if_neg apart, map_some, ViewRewire.move]
        by_cases node : address.nodeId = nodeId
        all_goals simp [node]

theorem viewMove_eq_some {target : String → Option TargetAddress} {input : String}
    {move : Move (String × String)} : viewMove nodeId target input = some move ↔
      ∃ address, target input = some address ∧ ¬ address.IsInput nodeId input ∧
        move = ⟨(nodeId, input), (address.nodeId, address.port)⟩ := by
  unfold viewMove
  simp only [bind_eq_some_iff, ite_none_left_eq_some, some.injEq]
  simp only [@eq_comm _ move]

/-- What `node.replace` does to the views, as moves. -/
theorem viewAt_nodeReplace {clean : Bool} {plan : NodeReplacePlan}
    (planned : planReplacement clean nodeId case activeInput connected views =
      some (mapped, plan)) : mapInputs nodeId case activeInput connected = some mapped ∧
      inputViews (plan.createdNodes.foldl Table.erase views) nodeId = inputViews views nodeId ∧
      viewAt (nodeReplace plan views) =
        runMoves (viewAt (plan.createdNodes.foldl Table.erase views))
          (((inputViews views nodeId).map Prod.fst).filterMap (viewMove nodeId mapped.target)) := by
  unfold planReplacement at planned
  simp only [bind_eq_bind, bind_eq_some_iff, Option.pure_def] at planned
  obtain ⟨result, found, planned⟩ := planned
  obtain ⟨_, same⟩ := ite_none_right_eq_some.mp planned
  cases same
  refine ⟨found, ?_, ?_⟩
  · apply inputViews_created
    intro created
    obtain ⟨localId, _, same⟩ := mem_map.mp created
    exact helperId_ne nodeId localId same
  · unfold nodeReplace
    rw [viewAt_rewires, map_filterMap]
    simp only [viewRewire_move]

variable (once : (case.inputs.map Prod.fst).Nodup)
  (found : mapInputs nodeId case activeInput connected = some mapped)

include once found

variable {table : Table Representation}

theorem transfer_viewMoves {state : String × String → Option Representation}
    (distinct : (table.map Prod.fst).Nodup)
    (same : ∀ input, state (nodeId, input) = table.get input) :
    Transfer state ((table.map Prod.fst).filterMap (viewMove nodeId mapped.target)) := by
  constructor
  · unfold List.Nodup
    rw [pairwise_map, pairwise_filterMap]
    apply distinct.imp
    intro first second different move one other two equal
    obtain ⟨_, _, _, rfl⟩ := viewMove_eq_some.mp one
    obtain ⟨_, _, _, rfl⟩ := viewMove_eq_some.mp two
    exact different (Prod.mk.inj equal).2
  · unfold List.Nodup
    rw [pairwise_map, pairwise_filterMap]
    apply distinct.imp
    intro first second different move one other two equal
    obtain ⟨left, leftTarget, _, rfl⟩ := viewMove_eq_some.mp one
    obtain ⟨right, rightTarget, _, rfl⟩ := viewMove_eq_some.mp two
    obtain ⟨node, port⟩ := Prod.mk.inj equal
    exact different (target_inj once found leftTarget rightTarget node port)
  · intro move listed
    obtain ⟨input, _, made⟩ := mem_filterMap.mp listed
    obtain ⟨address, _, elsewhere, rfl⟩ := viewMove_eq_some.mp made
    intro equal
    obtain ⟨node, port⟩ := Prod.mk.inj equal
    exact elsewhere ⟨node.symm, port.symm⟩
  · intro move listed
    obtain ⟨input, viewed, made⟩ := mem_filterMap.mp listed
    obtain ⟨address, _, _, rfl⟩ := viewMove_eq_some.mp made
    rw [same]
    exact Table.isSome_get_iff.mpr viewed

theorem pairwise_viewMoves_iff (distinct : (table.map Prod.fst).Nodup) :
    (((table.map Prod.fst).filterMap (viewMove nodeId mapped.target)).Pairwise
        fun earlier later => earlier.target ≠ later.source) ↔
      MovesInOrder nodeId mapped.target table := by
  unfold MovesInOrder
  rw [pairwise_filterMap]
  constructor
  · intro apart
    apply (apart.and distinct).imp
    rintro first second ⟨apart, different⟩ address target here
    cases other : mapped.target second with
    | none => rfl
    | some place =>
      exfalso
      have away : ¬ address.IsInput nodeId first := fun self =>
        different (self.2.symm.trans here.2)
      by_cases stays : place.IsInput nodeId second
      · exact different (target_inj once found target other (here.1.trans stays.1.symm)
          (here.2.trans stays.2.symm))
      · exact apart _ (viewMove_eq_some.mpr ⟨address, target, away, rfl⟩) _
          (viewMove_eq_some.mpr ⟨place, other, stays, rfl⟩) (Prod.ext here.1 here.2)
  · intro ordered
    apply ordered.imp
    intro first second order move one later two equal
    obtain ⟨address, target, _, rfl⟩ := viewMove_eq_some.mp one
    obtain ⟨place, other, _, rfl⟩ := viewMove_eq_some.mp two
    obtain ⟨node, port⟩ := Prod.mk.inj equal
    rw [order address target ⟨node, port⟩] at other
    cases other

end Plans

/-- The views of a replaced node are renamed all at once exactly when no view moves to an input
whose own view moves later. -/
theorem nodeReplace_renamed_iff {clean : Bool} {nodeId : String} {case : ReplacementCase}
    {activeInput : TargetAddress → Option InputSpec} {connected : String → Bool}
    {views : Table (Table Representation)} {mapped : Mapped} {plan : NodeReplacePlan}
    (once : (case.inputs.map Prod.fst).Nodup)
    (distinct : ((inputViews views nodeId).map Prod.fst).Nodup)
    (planned : planReplacement clean nodeId case activeInput connected views =
      some (mapped, plan)) : Renamed nodeId mapped.target views (nodeReplace plan views) ↔
      MovesInOrder nodeId mapped.target (inputViews views nodeId) := by
  obtain ⟨found, kept, after⟩ := viewAt_nodeReplace planned
  generalize plan.createdNodes.foldl Table.erase views = fresh at kept after
  have same : ∀ input, viewAt fresh (nodeId, input) = (inputViews views nodeId).get input := by
    intro input
    unfold viewAt
    rw [kept]
  have transfer := transfer_viewMoves once found distinct same
  rw [← pairwise_viewMoves_iff once found distinct, ← runMoves_simultaneous_iff transfer]
  constructor
  · intro renamed move listed
    obtain ⟨input, viewed, made⟩ := mem_filterMap.mp listed
    obtain ⟨address, target, _, rfl⟩ := viewMove_eq_some.mp made
    obtain ⟨view, there⟩ := isSome_iff_exists.mp (Table.isSome_get_iff.mpr viewed)
    rw [← after, same, there]
    exact renamed.moved input view address there target
  · intro simultaneous
    -- An input that is no source and no target of a move keeps its view.
    have stays : ∀ input view, (inputViews views nodeId).get input = some view →
        viewMove nodeId mapped.target input = none →
        (∀ other address, mapped.target other = some address → other ≠ input →
          ¬ address.IsInput nodeId input) →
        (inputViews (nodeReplace plan views) nodeId).get input = some view := by
      intro input view there still free
      have unmoved : viewAt (nodeReplace plan views) (nodeId, input) =
          viewAt fresh (nodeId, input) := by
        rw [after]
        apply runMoves_of_untouched
        · intro source
          obtain ⟨move, listed, equal⟩ := mem_map.mp source
          obtain ⟨other, _, made⟩ := mem_filterMap.mp listed
          obtain ⟨_, _, _, rfl⟩ := viewMove_eq_some.mp made
          rw [(Prod.mk.inj equal).2, still] at made
          cases made
        · intro target
          obtain ⟨move, listed, equal⟩ := mem_map.mp target
          obtain ⟨other, _, made⟩ := mem_filterMap.mp listed
          obtain ⟨address, reaches, away, rfl⟩ := viewMove_eq_some.mp made
          obtain ⟨node, port⟩ := Prod.mk.inj equal
          have different : other ≠ input := fun name => away (name ▸ ⟨node, port⟩)
          exact free other address reaches different ⟨node, port⟩
      exact unmoved.trans ((same input).trans there)
    constructor
    · intro input view address there target
      by_cases self : address.IsInput nodeId input
      · rw [self.1, self.2]
        apply stays input view there
        · unfold viewMove
          rw [target, bind_some, if_pos self]
        · intro other place reaches different here
          exact different (target_inj once found reaches target (here.1.trans self.1.symm)
            (here.2.trans self.2.symm))
      · have viewed : input ∈ (inputViews views nodeId).map Prod.fst :=
          Table.isSome_get_iff.mp (there ▸ rfl)
        have made := viewMove_eq_some.mpr ⟨address, target, self, rfl⟩
        have moved := simultaneous _ (mem_filterMap.mpr ⟨input, viewed, made⟩)
        rw [← after, same, there] at moved
        exact moved
    · intro input view there none free
      apply stays input view there
      · unfold viewMove
        rw [none]
        rfl
      · intro other address reaches _
        exact free other address reaches

/-- A view moves along a chain whose end moves first, and another to a helper. -/
def shiftCase : ReplacementCase where
  nodes := some ["h"]
  inputs := [("c", .copy "b"), ("b", .copy "a"), ("h:x", .copy "d")]

/-- Two inputs change places. -/
def swapCase : ReplacementCase where
  nodes := none
  inputs := [("a", .copy "b"), ("b", .copy "a")]

def widgetInput (_ : TargetAddress) : Option InputSpec :=
  some ⟨true, false, false⟩

theorem nodeReplace_renamed_iff_shift :
    ∃ mapped plan, planReplacement true "n" shiftCase widgetInput (fun _ => false)
        [("n", [("b", "two"), ("a", "one"), ("d", "three")])] = some (mapped, plan) ∧
      (Renamed "n" mapped.target [("n", [("b", "two"), ("a", "one"), ("d", "three")])]
          (nodeReplace plan [("n", [("b", "two"), ("a", "one"), ("d", "three")])]) ↔
        MovesInOrder "n" mapped.target [("b", "two"), ("a", "one"), ("d", "three")]) := by
  have planned : (planReplacement true "n" shiftCase widgetInput (fun _ => false)
      [("n", [("b", "two"), ("a", "one"), ("d", "three")])]).isSome = true := by decide +kernel
  obtain ⟨⟨mapped, plan⟩, planned⟩ := isSome_iff_exists.mp planned
  exact ⟨mapped, plan, planned, nodeReplace_renamed_iff (by decide) (by decide) planned⟩

/-- Of two views that change places one is lost. -/
theorem swapped_views_not_renamed :
    ∃ mapped plan, planReplacement true "n" swapCase widgetInput (fun _ => false)
        [("n", [("a", "one"), ("b", "two")])] = some (mapped, plan) ∧
      ¬ Renamed "n" mapped.target [("n", [("a", "one"), ("b", "two")])]
        (nodeReplace plan [("n", [("a", "one"), ("b", "two")])]) := by
  refine ⟨_, _, rfl, ?_⟩
  intro renamed
  have lost := renamed.moved "a" "one" ⟨none, "n", "b"⟩ rfl rfl
  revert lost
  decide +kernel

end Dinkster.Replace
