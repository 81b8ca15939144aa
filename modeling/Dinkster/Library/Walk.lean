import Dinkster.Library.Search

/-!
# Searches with a stack of frames

A walk marks the nodes it meets and keeps a stack of those it is inside, each with the number of
its edges that were followed.  An edge to a node that the walk is inside closes a cycle.  As long
as no cycle was met, what an inner frame has behind it is done, and what is done is accessible.
-/

namespace Dinkster.Library

open List

variable {Node : Type}

inductive Mark where
  | visiting
  | done
  deriving DecidableEq

structure Walk.Frame (Node : Type) where
  id : Node
  next : Nat

/-- The last frame comes first.  A report has the nodes of a cycle and the one it is closed at. -/
structure Walk (Node : Type) where
  state : Node → Option Mark
  stack : List (Walk.Frame Node)
  out : List (List Node × Node)

namespace Walk

section Loop

variable [DecidableEq Node] (edges : Node → List Node)

/-- The nodes of the frames from the first one at a node on. -/
def members (stack : List (Frame Node)) (node : Node) : List Node :=
  (stack.map Frame.id).reverse.dropWhile fun id => decide (id ≠ node)

/-- One turn of the loop, which ends with an empty stack. -/
def turn (walk : Walk Node) : Option (Walk Node) :=
  match walk.stack with
  | [] => none
  | frame :: below =>
    match (edges frame.id)[frame.next]? with
    | none =>
      some { walk with
        state := Function.update walk.state frame.id (some .done)
        stack := below }
    | some producer =>
      let stack := { frame with next := frame.next + 1 } :: below
      match walk.state producer with
      | some .done => some { walk with stack := stack }
      | some .visiting =>
        some { walk with stack := stack, out := walk.out ++ [(members stack producer, producer)] }
      | none =>
        some { walk with
          state := Function.update walk.state producer (some .visiting)
          stack := ⟨producer, 0⟩ :: stack }

def run : Nat → Walk Node → Walk Node
  | 0, walk => walk
  | fuel + 1, walk =>
    match walk.turn edges with
    | none => walk
    | some next => run fuel next

/-- How many turns are left at most, where `nodes` are all there are. -/
def work (nodes : List Node) (walk : Walk Node) : Nat :=
  (nodes.map fun id => if walk.state id = none then (edges id).length + 2 else 0).sum +
    (walk.stack.map fun frame => (edges frame.id).length - frame.next + 1).sum

def enter (walk : Walk Node) (start : Node) : Walk Node :=
  { walk with
    state := Function.update walk.state start (some .visiting)
    stack := [⟨start, 0⟩] }

/-- Search from a node that has no mark yet. -/
def visitFrom (nodes : List Node) (walk : Walk Node) (start : Node) : Walk Node :=
  if (walk.state start).isSome then walk
  else (walk.enter start).run edges ((walk.enter start).work edges nodes)

def search (nodes : List Node) : Walk Node :=
  nodes.foldl (visitFrom edges nodes) ⟨fun _ => none, [], []⟩

end Loop

section Turns

variable [DecidableEq Node] {edges : Node → List Node} {nodes : List Node}
  {walk next : Walk Node}

inductive Turn (edges : Node → List Node) : Walk Node → Walk Node → Prop where
  | pop {state below out} {frame : Frame Node} (ended : (edges frame.id)[frame.next]? = none) :
      Turn edges ⟨state, frame :: below, out⟩
        ⟨Function.update state frame.id (some .done), below, out⟩
  | skip {state below out producer} {frame : Frame Node}
      (edge : (edges frame.id)[frame.next]? = some producer)
      (marked : state producer = some .done) :
      Turn edges ⟨state, frame :: below, out⟩ ⟨state, ⟨frame.id, frame.next + 1⟩ :: below, out⟩
  | report {state below out producer} {frame : Frame Node}
      (edge : (edges frame.id)[frame.next]? = some producer)
      (marked : state producer = some .visiting) :
      Turn edges ⟨state, frame :: below, out⟩ ⟨state, ⟨frame.id, frame.next + 1⟩ :: below,
        out ++ [(members (⟨frame.id, frame.next + 1⟩ :: below) producer, producer)]⟩
  | push {state below out producer} {frame : Frame Node}
      (edge : (edges frame.id)[frame.next]? = some producer) (fresh : state producer = none) :
      Turn edges ⟨state, frame :: below, out⟩
        ⟨Function.update state producer (some .visiting),
          ⟨producer, 0⟩ :: ⟨frame.id, frame.next + 1⟩ :: below, out⟩

theorem turn_cases (turned : walk.turn edges = some next) : Turn edges walk next := by
  obtain ⟨state, stack, out⟩ := walk
  unfold turn at turned
  cases stack with
  | nil => cases turned
  | cons frame below =>
    dsimp only at turned
    split at turned
    · cases turned
      exact .pop ‹_›
    · split at turned <;> cases turned
      · exact .skip ‹_› ‹_›
      · exact .report ‹_› ‹_›
      · exact .push ‹_› ‹_›

/-- A node is no work any more once it is marked. -/
theorem sum_mark_le (state : Node → Option Mark) (producer : Node) (mark : Mark)
    (size : Node → Nat) (nodes : List Node) :
    let left := fun state : Node → Option Mark =>
      (nodes.map fun id => if state id = none then size id else 0).sum
    left (Function.update state producer (some mark)) ≤ left state ∧
      (state producer = none → producer ∈ nodes →
        left (Function.update state producer (some mark)) + size producer ≤ left state) := by
  induction nodes with
  | nil => simp
  | cons id rest ih =>
    dsimp only at ih ⊢
    simp only [map_cons, sum_cons, mem_cons]
    by_cases same : id = producer
    · subst same
      rw [Function.update_self, if_neg (Option.some_ne_none mark)]
      refine ⟨by omega, fun fresh _ => ?_⟩
      rw [if_pos fresh]
      omega
    · rw [Function.update_of_ne same]
      refine ⟨by omega, fun fresh listed => ?_⟩
      have := ih.2 fresh (listed.resolve_left fun equal => same equal.symm)
      omega

theorem work_lt_of_turn (closed : ∀ id, ∀ producer ∈ edges id, producer ∈ nodes)
    (turned : Turn edges walk next) : next.work edges nodes < walk.work edges nodes := by
  have marks (state : Node → Option Mark) (producer : Node) (mark : Mark) :=
    sum_mark_le state producer mark (fun id => (edges id).length + 2) nodes
  unfold work
  cases turned with
  | @pop state below out frame _ =>
    have left := (marks state frame.id .done).1
    simp only [map_cons, sum_cons] at left ⊢
    omega
  | skip edge _ | report edge _ =>
    have room := (List.getElem?_eq_some_iff.mp edge).1
    simp only [map_cons, sum_cons]
    omega
  | @push state below out producer frame edge fresh =>
    have room := (List.getElem?_eq_some_iff.mp edge).1
    have left := (marks state producer .visiting).2 fresh (closed _ _ (mem_of_getElem? edge))
    simp only [map_cons, sum_cons] at left ⊢
    omega

theorem stack_of_turn (ended : walk.turn edges = none) : walk.stack = [] := by
  unfold turn at ended
  split at ended
  · assumption
  · split at ended
    · cases ended
    · dsimp only at ended
      split at ended <;> cases ended

/-- What every turn keeps holds at the end, where nothing is on the stack. -/
theorem run_induct (closed : ∀ id, ∀ producer ∈ edges id, producer ∈ nodes)
    (kept : Walk Node → Prop)
    (keeps : ∀ walk next, Turn edges walk next → kept walk → kept next) (fuel : Nat) :
    ∀ {walk : Walk Node}, kept walk → walk.work edges nodes ≤ fuel →
      kept (walk.run edges fuel) ∧ (walk.run edges fuel).stack = [] := by
  induction fuel with
  | zero =>
    intro walk holds enough
    cases turned : walk.turn edges with
    | none => exact ⟨holds, stack_of_turn turned⟩
    | some next => exact absurd (work_lt_of_turn closed (turn_cases turned)) (by omega)
  | succ fuel ih =>
    intro walk holds enough
    rw [run]
    cases turned : walk.turn edges with
    | none => exact ⟨holds, stack_of_turn turned⟩
    | some next =>
      have less := work_lt_of_turn closed (turn_cases turned)
      exact ih (keeps walk next (turn_cases turned) holds) (by omega)

end Turns

/-! ## Cycles and what is done -/

/-- A closed chain of the relation, from a node and back to it. -/
def IsCycle (relation : Node → Node → Prop) (cycle : List Node × Node) : Prop :=
  cycle.1.head? = some cycle.2 ∧ (cycle.1 ++ [cycle.2]).IsChain relation

theorem transGen_of_isChain {relation : Node → Node → Prop} : ∀ {middle : List Node}
    {first last : Node}, (first :: (middle ++ [last])).IsChain relation →
      Relation.TransGen relation first last
  | [], _, _, chain => .single (isChain_cons_cons.mp chain).1
  | _ :: _, _, _, chain =>
    .head (isChain_cons_cons.mp chain).1 (transGen_of_isChain (isChain_cons_cons.mp chain).2)

theorem IsCycle.transGen {relation : Node → Node → Prop} {cycle : List Node × Node}
    (closed : IsCycle relation cycle) : Relation.TransGen relation cycle.2 cycle.2 := by
  obtain ⟨rest, split⟩ := head?_eq_some_iff.mp closed.1
  have chain := closed.2
  rw [split] at chain
  exact transGen_of_isChain chain

def Linked (edges : Node → List Node) (id producer : Node) : Prop :=
  producer ∈ edges id

section Inside

variable (edges : Node → List Node) (walk : Walk Node)

/-- As long as nothing is reported, the first edges of a node lead to what is done. -/
def Behind (id : Node) (count : Nat) : Prop :=
  walk.out = [] → ∀ producer ∈ (edges id).take count, walk.state producer = some .done

/-- The last edge that was followed from a frame leads to the frame above. -/
def Under (above frame : Frame Node) : Prop :=
  ∃ position, frame.next = position + 1 ∧ (edges frame.id)[position]? = some above.id ∧
    Behind edges walk frame.id position

/-- What holds inside a walk. -/
structure Inside : Prop where
  visiting : ∀ id, walk.state id = some .visiting ↔ id ∈ walk.stack.map Frame.id
  distinct : (walk.stack.map Frame.id).Nodup
  chain : walk.stack.IsChain (Under edges walk)
  top : ∀ frame ∈ walk.stack.head?, Behind edges walk frame.id frame.next
  quiet : walk.out = [] → ∀ id, walk.state id = some .done → Acc (Feeds edges) id
  cycles : ∀ report ∈ walk.out, IsCycle (Linked edges) report

end Inside

section Steps

variable {edges : Node → List Node} {nodes : List Node} {walk next : Walk Node}
  {id producer : Node} {count : Nat} {frame above : Frame Node}

/-- What is reported, done or marked stays so. -/
def Grows (walk next : Walk Node) : Prop :=
  (next.out = [] → walk.out = []) ∧ ∀ id,
    (walk.state id = some .done → next.state id = some .done) ∧
      (walk.state id ≠ none → next.state id ≠ none)

theorem Behind.mono (behind : Behind edges walk id count) (grows : walk.Grows next) :
    Behind edges next id count :=
  fun quiet producer listed => (grows.2 producer).1 (behind (grows.1 quiet) producer listed)

theorem Under.mono (under : Under edges walk above frame) (grows : walk.Grows next) :
    Under edges next above frame := by
  obtain ⟨position, followed, edge, behind⟩ := under
  exact ⟨position, followed, edge, behind.mono grows⟩

theorem chain_followed {below : List (Frame Node)}
    (chain : (frame :: below).IsChain (Under edges walk)) :
    (⟨frame.id, frame.next + 1⟩ :: below : List (Frame Node)).IsChain (Under edges walk) :=
  chain.imp_head (x := frame) (y := ⟨frame.id, frame.next + 1⟩) fun under => under

theorem Behind.succ (behind : Behind edges walk id count)
    (edge : (edges id)[count]? = some producer) (done : walk.state producer = some .done) :
    Behind edges walk id (count + 1) := by
  intro quiet found listed
  rw [take_add_one, edge, mem_append] at listed
  cases listed with
  | inl before => exact behind quiet found before
  | inr last => rwa [mem_singleton.mp last]

variable [DecidableEq Node]

theorem isCycle_members {below : List (Frame Node)}
    (chain : (frame :: below).IsChain (Under edges walk)) (edge : producer ∈ edges frame.id)
    (listed : producer ∈ (frame :: below).map Frame.id) :
    IsCycle (Linked edges) (members (frame :: below) producer, producer) := by
  have links : ((frame :: below).map Frame.id).IsChain fun above id => above ∈ edges id :=
    (isChain_map _).mpr (chain.imp fun _ _ ⟨_, _, edge, _⟩ => mem_of_getElem? edge)
  have loop : (((frame :: below).map Frame.id).reverse ++ [producer]).IsChain (Linked edges) := by
    rw [← reverse_cons, isChain_reverse]
    exact isChain_cons_cons.mpr ⟨edge, links⟩
  obtain ⟨before, after, split, first⟩ := eq_append_cons_of_mem (mem_reverse.mpr listed)
  have passed : ∀ id ∈ before, decide (id ≠ producer) = true :=
    fun id inside => decide_eq_true fun same => first (same ▸ inside)
  have cycle : members (frame :: below) producer = producer :: after := by
    rw [members, split, dropWhile_append_of_pos passed, dropWhile_cons_of_neg (by simp)]
  rw [split, append_assoc] at loop
  rw [cycle]
  exact ⟨rfl, loop.suffix (suffix_append _ _)⟩

theorem grows_of_turn (turned : Turn edges walk next) : walk.Grows next := by
  cases turned with
  | @pop state below out frame _ =>
    refine ⟨fun quiet => quiet, fun id => ?_⟩
    by_cases same : id = frame.id <;> simp [same]
  | skip _ _ => exact ⟨fun quiet => quiet, fun _ => ⟨fun done => done, fun marked => marked⟩⟩
  | report _ _ =>
    exact ⟨fun quiet => (append_eq_nil_iff.mp quiet).1,
      fun _ => ⟨fun done => done, fun marked => marked⟩⟩
  | @push state below out producer frame _ fresh =>
    refine ⟨fun quiet => quiet, fun id => ?_⟩
    by_cases same : id = producer <;> simp [same, fresh]

/-- A node that is entered is the only one whose mark changes. -/
theorem visiting_update {state : Node → Option Mark} {ids : List Node}
    (visiting : ∀ id, state id = some .visiting ↔ id ∈ ids) (start : Node) :
    ∀ id, Function.update state start (some .visiting) id = some .visiting ↔ id ∈ start :: ids := by
  intro id
  by_cases same : id = start
  · simp [same]
  · rw [Function.update_of_ne same, visiting, mem_cons, or_iff_right same]

theorem acc_update {state : Node → Option Mark} {start : Node}
    (quiet : ∀ id, state id = some .done → Acc (Feeds edges) id) :
    ∀ id, Function.update state start (some .visiting) id = some .done → Acc (Feeds edges) id := by
  intro id done
  rw [Function.update_apply] at done
  split at done
  · cases done
  · exact quiet id done

theorem Inside.turn (inside : Inside edges walk) (turned : Turn edges walk next) :
    Inside edges next := by
  have grows := grows_of_turn turned
  have chain : walk.stack.IsChain (Under edges next) :=
    inside.chain.imp fun _ _ under => under.mono grows
  cases turned with
  | @pop state below out frame ended =>
    obtain ⟨apart, distinct⟩ := nodup_cons.mp inside.distinct
    refine ⟨fun id => ?_, distinct, chain.tail, ?_, fun quiet id done => ?_, inside.cycles⟩
    · by_cases same : id = frame.id
      · simpa [same] using apart
      · simpa [same] using inside.visiting id
    · intro frame head
      cases below with
      | nil => cases head
      | cons _ below =>
        cases head
        obtain ⟨position, followed, edge, behind⟩ := (isChain_cons_cons.mp chain).1
        rw [followed]
        exact behind.succ edge (Function.update_self ..)
    · by_cases same : id = frame.id
      · subst same
        refine ⟨_, fun producer feeds => inside.quiet quiet producer ?_⟩
        apply inside.top frame rfl quiet
        rwa [take_of_length_le (getElem?_eq_none_iff.mp ended)]
      · exact inside.quiet quiet id (by simpa [same] using done)
  | @skip state below out producer frame edge marked =>
    refine ⟨inside.visiting, inside.distinct, chain_followed chain, ?_, inside.quiet, inside.cycles⟩
    rintro _ ⟨⟩
    exact (inside.top frame rfl).succ edge marked
  | @report state below out producer frame edge marked =>
    have chain := chain_followed chain
    have loud {report : List Node × Node} : out ++ [report] ≠ [] := by simp
    refine ⟨inside.visiting, inside.distinct, chain, fun _ _ quiet => absurd quiet loud,
      fun quiet => absurd quiet loud, fun report listed => ?_⟩
    cases mem_append.mp listed with
    | inl old => exact inside.cycles report old
    | inr new =>
      rw [mem_singleton.mp new]
      exact isCycle_members chain (mem_of_getElem? edge) ((inside.visiting producer).mp marked)
  | @push state below out producer frame edge fresh =>
    refine ⟨visiting_update inside.visiting producer, nodup_cons.mpr ⟨fun listed => ?_,
      inside.distinct⟩, isChain_cons_cons.mpr ⟨⟨frame.next, rfl, edge,
        (inside.top frame rfl).mono grows⟩, chain_followed chain⟩, ?_,
      fun quiet => acc_update (inside.quiet quiet), inside.cycles⟩
    · exact absurd (fresh.symm.trans ((inside.visiting producer).mpr listed))
        (Option.some_ne_none _).symm
    · rintro _ ⟨⟩ _ _ ⟨⟩

/-- A search that started from more nodes, with nothing left on the stack. -/
structure Settles (edges : Node → List Node) (walk next : Walk Node) : Prop where
  inside : Inside edges next
  idle : next.stack = []
  marked : ∀ id, walk.state id ≠ none → next.state id ≠ none

theorem visitFrom_settles (closed : ∀ id, ∀ producer ∈ edges id, producer ∈ nodes)
    (inside : Inside edges walk) (idle : walk.stack = []) (start : Node) :
    Settles edges walk (walk.visitFrom edges nodes start) ∧
      (walk.visitFrom edges nodes start).state start ≠ none := by
  unfold visitFrom
  split
  · rename_i marked
    exact ⟨⟨inside, idle, fun _ marked => marked⟩, Option.isSome_iff_ne_none.mp marked⟩
  · have entered : Inside edges (walk.enter start) := by
      have visiting := inside.visiting
      rw [idle] at visiting
      refine ⟨visiting_update visiting start, by simp [enter], isChain_singleton _, ?_,
        fun quiet => acc_update (inside.quiet quiet), inside.cycles⟩
      rintro _ ⟨⟩ _ _ ⟨⟩
    obtain ⟨⟨settled, marked⟩, empty⟩ := run_induct closed
      (fun next => Inside edges next ∧
        ∀ id, (walk.enter start).state id ≠ none → next.state id ≠ none)
      (fun _ _ turned holds => ⟨holds.1.turn turned, fun id marked =>
        ((grows_of_turn turned).2 id).2 (holds.2 id marked)⟩)
      _ ⟨entered, fun _ marked => marked⟩ le_rfl
    have own : (walk.enter start).state start ≠ none := by simp [enter]
    refine ⟨⟨settled, empty, fun id old => marked id ?_⟩, marked start own⟩
    by_cases same : id = start
    · rwa [same]
    · simpa [enter, same] using old

theorem foldl_settles (closed : ∀ id, ∀ producer ∈ edges id, producer ∈ nodes) (starts : List Node) :
    ∀ {walk : Walk Node}, Inside edges walk → walk.stack = [] →
      Settles edges walk (starts.foldl (visitFrom edges nodes) walk) ∧
        ∀ id ∈ starts, (starts.foldl (visitFrom edges nodes) walk).state id ≠ none := by
  induction starts with
  | nil => exact fun inside idle => ⟨⟨inside, idle, fun _ marked => marked⟩, by simp⟩
  | cons start rest ih =>
    intro walk inside idle
    obtain ⟨first, own⟩ := visitFrom_settles closed inside idle start
    obtain ⟨later, others⟩ := ih first.inside first.idle
    exact ⟨⟨later.inside, later.idle, fun id marked => later.marked id (first.marked id marked)⟩,
      forall_mem_cons.mpr ⟨later.marked start own, others⟩⟩

/-- A search from all nodes reports cycles, and some when there is one. -/
theorem search_exact (closed : ∀ id, ∀ producer ∈ edges id, id ∈ nodes ∧ producer ∈ nodes) :
    ((search edges nodes).out ≠ [] ↔ ∃ id, Relation.TransGen (Linked edges) id id) ∧
      ∀ report ∈ (search edges nodes).out, IsCycle (Linked edges) report := by
  have first : Inside edges ⟨fun _ => none, [], []⟩ :=
    ⟨by simp, .nil, .nil, by simp, by simp, by simp⟩
  obtain ⟨settled, marked⟩ :=
    foldl_settles (fun id producer edge => (closed id producer edge).2) nodes first rfl
  refine ⟨⟨fun reported => ?_, fun ⟨id, loop⟩ quiet => ?_⟩, settled.inside.cycles⟩
  · obtain ⟨report, listed⟩ := exists_mem_of_ne_nil _ reported
    exact ⟨_, (settled.inside.cycles report listed).transGen⟩
  · obtain ⟨producer, edge, _⟩ := Relation.TransGen.head'_iff.mp loop
    have done : (search edges nodes).state id = some .done := by
      cases state : (search edges nodes).state id with
      | none => exact absurd state (marked id (closed id producer edge).1)
      | some mark =>
        cases mark with
        | done => rfl
        | visiting =>
          have listed := (settled.inside.visiting id).mp state
          rw [settled.idle] at listed
          cases listed
    exact not_transGen_of_acc (settled.inside.quiet quiet id done) (Relation.transGen_swap.mp loop)

end Steps

end Walk

end Dinkster.Library
