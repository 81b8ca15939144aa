import Dinkster.Commands.Allocation

/-!
# Which replays rewind a cursor

This module says where the allocation cursors of a document are and which operations
of a batch are guarded against rewinding one: those that the replay recognises by the
shape of their path.  The others are applied as recorded.  Whether a batch leaves a
cursor at least as high as it was is then a matter of what its operations write there,
in order.
-/

namespace Dinkster.Commands

open Library Format List Option

inductive OrdinalOwner where
  | graph (id : String)
  | topology (key : String)
  deriving DecidableEq

def OrdinalOwner.keys : OrdinalOwner → List String
  | .graph id => ["graphs", id]
  | .topology key => ["occurrenceTopologies", key]

/-- An allocation cursor.  The cursor of a port state is found through the members and
constructs that nest it. -/
inductive Cursor where
  | ordinal (owner : OrdinalOwner)
  | actor (owner : OrdinalOwner) (name : String)
  | group (graph : String)
  | surface
  | state (graph node port : String) (members : List (String × String))
  deriving DecidableEq

namespace Cursor

def keys : Cursor → List String
  | .ordinal owner => owner.keys ++ ["nextOrdinal"]
  | .actor owner name => owner.keys ++ ["actorCursors", name]
  | .group graph => ["view", "graphs", graph, "groupSeq"]
  | .surface => ["surfaceSeq"]
  | .state graph node port members =>
    ["graphs", graph, "nodes", node, "dynamic", port] ++ stateKeys members

/-- What a cursor belongs to: the ids it mints are ids of that graph, topology or node.
The surface cursor belongs to the document. -/
def holder : Cursor → List String
  | .ordinal owner => owner.keys
  | .actor owner _ => owner.keys
  | .group graph => ["graphs", graph]
  | .surface => []
  | .state graph node _ _ => ["graphs", graph, "nodes", node]

/-- Whether a document has what a cursor belongs to. -/
def held (cursor : Cursor) (doc : Json) : Bool :=
  (getAtPath doc (keyPath cursor.holder)).isSome

/-- Whether a batch counts what a cursor belongs to among the survivors. -/
def survives (surviving : Survivors) : Cursor → Bool
  | .ordinal (.topology key) => surviving.occurrences.contains key
  | .actor (.topology key) _ => surviving.occurrences.contains key
  | .group graph => surviving.graphs.contains graph
  | _ => true

/-- Whether the replay recognises an operation as one that could rewind a cursor. -/
def guarded (surviving : Survivors) (cursor : Cursor) (op : PatchOp) : Bool :=
  match classify surviving op with
  | .cursor => op.path = keyPath cursor.keys
  | .preserved _ => cursor.survives surviving
  | .verbatim => false

end Cursor

/-! ## Preservers at a cursor -/

/-- Where a cursor is, seen from a position in a node's dynamic state. -/
def DynShapePos.Below : DynShapePos → List String → Prop
  | .portMap, keys => ∃ port members, keys = port :: stateKeys members
  | .state, keys => ∃ members, keys = stateKeys members
  | .memberMap, keys => ∃ member construct members, keys = member :: construct :: stateKeys members
  | .scope, keys => ∃ construct members, keys = construct :: stateKeys members
  | .outside, _ => True

variable {position : DynShapePos} {back front : List String} {path : DocPath} {op : PatchOp}
    {surviving : Survivors}

variable {keys : List String} {preserve : Preserve} {before : Option Rat}

theorem DynShapePos.shields_preserverAt (inside : position ≠ .outside)
    (below : position.Below keys) : Shields (preserverAt position) keys := by
  have scope (construct : String) (members : List (String × String)) :
      Shields preserveScope (construct :: stateKeys members) :=
    (shields_preserveStateCursors members).preserveRecord rfl
  cases position with
  | portMap =>
    obtain ⟨port, members, rfl⟩ := below
    have map : Shields preservePortMap (port :: stateKeys members) :=
      (shields_preserveStateCursors members).preserveRecord rfl
    exact map
  | state =>
    obtain ⟨members, rfl⟩ := below
    exact shields_preserveStateCursors members
  | memberMap =>
    obtain ⟨member, construct, members, rfl⟩ := below
    have map : Shields preserveMemberMap (member :: construct :: stateKeys members) :=
      (scope construct members).preserveRecord rfl
    exact map
  | scope =>
    obtain ⟨construct, members, rfl⟩ := below
    exact scope construct members
  | outside => exact absurd rfl inside

variable {key : String} {cursor : Cursor} {current : Option Json}

/-- Descending a key on the way to a cursor stays above it, or leaves the declared
shapes. -/
theorem DynShapePos.below_descend (below : position.Below (key :: keys)) :
    (position.descend (.key key)).Below keys := by
  cases position with
  | portMap =>
    obtain ⟨port, members, equal⟩ := below
    exact ⟨members, (List.cons.inj equal).2⟩
  | state =>
    obtain ⟨members, equal⟩ := below
    cases members with
    | nil =>
      cases equal
      exact trivial
    | cons entry rest =>
      obtain ⟨member, construct⟩ := entry
      cases equal
      exact ⟨member, construct, rest, rfl⟩
  | memberMap =>
    obtain ⟨member, construct, members, equal⟩ := below
    exact ⟨construct, members, (List.cons.inj equal).2⟩
  | scope =>
    obtain ⟨construct, members, equal⟩ := below
    exact ⟨members, (List.cons.inj equal).2⟩
  | outside => exact trivial

theorem DynShapePos.below_foldl (front : List String) (below : position.Below (front ++ back)) :
    ((keyPath front).foldl DynShapePos.descend position).Below back := by
  induction front generalizing position with
  | nil => exact below
  | cons key front ih => exact ih (DynShapePos.below_descend below)

theorem keyPath_append (front back : List String) :
    keyPath (front ++ back) = keyPath front ++ keyPath back :=
  map_append

theorem keyPath_inj {left right : List String} (equal : keyPath left = keyPath right) :
    left = right :=
  map_injective_iff.mpr (fun _ _ same => Segment.key.inj same) equal

/-- The positions of a node's dynamic state are those below its `dynamic`. -/
theorem dynamicShapePosition_keyPath (inside : dynamicShapePosition (keyPath front) ≠ .outside) :
    ∃ graph node rest, front = "graphs" :: graph :: "nodes" :: node :: "dynamic" :: rest ∧
      dynamicShapePosition (keyPath front) = (keyPath rest).foldl DynShapePos.descend .portMap := by
  unfold dynamicShapePosition at inside ⊢
  split at inside
  · rename_i graph node rest equal
    match front, equal with
    | first :: graph :: third :: node :: fifth :: rest, equal =>
      simp only [keyPath, map_cons, List.cons.injEq, Segment.key.injEq] at equal
      obtain ⟨rfl, _, rfl, _, rfl, rfl⟩ := equal
      exact ⟨graph, node, rest, rfl, rfl⟩
  · exact absurd rfl inside

theorem path_of_graphsMap (position : viewGraphShapePosition path = .graphsMap) :
    path = keyPath ["view", "graphs"] := by
  unfold viewGraphShapePosition at position
  split at position <;> simp [keyPath] at position ⊢

theorem path_of_graphView (position : viewGraphShapePosition path = .graphView) :
    ∃ segment, path = keyPath ["view", "graphs"] ++ [segment] := by
  unfold viewGraphShapePosition at position
  split at position <;> simp [keyPath] at position ⊢

theorem path_of_topologyMap (position : occurrenceTopologyShapePosition path = .map) :
    path = keyPath ["occurrenceTopologies"] := by
  unfold occurrenceTopologyShapePosition at position
  split at position <;> simp [keyPath] at position ⊢

theorem path_of_topology (position : occurrenceTopologyShapePosition path = .topology) :
    ∃ segment, path = keyPath ["occurrenceTopologies"] ++ [segment] := by
  unfold occurrenceTopologyShapePosition at position
  split at position <;> simp [keyPath] at position ⊢

theorem keyPath_eq_append_singleton {known : List String} {segment : Segment}
    (equal : keyPath front = keyPath known ++ [segment]) :
    ∃ key, segment = .key key ∧ front = known ++ [key] := by
  obtain ⟨left, right, rfl, same, last⟩ := map_eq_append_iff.mp equal
  obtain ⟨key, rest, rfl, rfl, empty⟩ := map_eq_cons_iff.mp last
  obtain rfl := map_eq_nil_iff.mp empty
  exact ⟨key, rfl, by rw [keyPath_inj same]⟩

theorem isActorCursorsMap_keyPath (map : isActorCursorsMap (keyPath front) = true) :
    ∃ owner : OrdinalOwner, front = owner.keys ++ ["actorCursors"] := by
  match front with
  | [first, second, third] =>
    simp only [isActorCursorsMap, keyPath, map_cons, map_nil, head?_cons,
      any_some, isOrdinalOwner, Bool.and_eq_true, decide_eq_true_eq, Segment.key.injEq,
      getElem?_cons_succ, getElem?_cons_zero, some.injEq] at map
    obtain ⟨⟨_, rfl | rfl⟩, rfl⟩ := map
    · exact ⟨.graph second, rfl⟩
    · exact ⟨.topology second, rfl⟩
  | [] | [_] | [_, _] | _ :: _ :: _ :: _ :: _ => simp [isActorCursorsMap, keyPath] at map

theorem Cursor.of_view_keys {cursor : Cursor} (keys : cursor.keys = ["view", "graphs"] ++ back) :
    ∃ graph, back = [graph, "groupSeq"] ∧
      cursor.survives surviving = surviving.graphs.contains graph := by
  cases cursor with
  | group graph => exact ⟨graph, by simpa [Cursor.keys] using keys.symm, rfl⟩
  | ordinal owner | actor owner name => cases owner <;> simp [Cursor.keys, OrdinalOwner.keys] at keys
  | surface | state graph node port members => simp [Cursor.keys] at keys

theorem Cursor.of_topology_keys {cursor : Cursor}
    (keys : cursor.keys = ["occurrenceTopologies"] ++ back) :
    ∃ key rest, back = key :: rest ∧ Shields preserveOccurrenceTopologyCursors rest ∧
      cursor.survives surviving = surviving.occurrences.contains key := by
  cases cursor with
  | ordinal owner =>
    cases owner with
    | topology key =>
      exact ⟨key, ["nextOrdinal"], by simpa [Cursor.keys, OrdinalOwner.keys] using keys.symm,
        shields_topology_nextOrdinal, rfl⟩
    | graph id => simp [Cursor.keys, OrdinalOwner.keys] at keys
  | actor owner name =>
    cases owner with
    | topology key =>
      exact ⟨key, ["actorCursors", name], by simpa [Cursor.keys, OrdinalOwner.keys] using keys.symm,
        shields_topology_actorCursors name, rfl⟩
    | graph id => simp [Cursor.keys, OrdinalOwner.keys] at keys
  | group graph | surface | state graph node port members => simp [Cursor.keys] at keys

/-- A preserver that the replay uses on the way to a cursor shields it, if it is that
of a survivor; in any case it lets through what is recorded. -/
theorem shields_of_classify (classified : classify surviving op = .preserved preserve)
    (path : op.path = keyPath front) (keys : cursor.keys = front ++ back) :
    (∀ current, Raises (preserve current) back) ∧
      (cursor.survives surviving = true → Shields preserve back) := by
  have always {preserve : Preserve} {back : List String} (shields : Shields preserve back) :
      (∀ current, Raises (preserve current) back) ∧
        (cursor.survives surviving = true → Shields preserve back) :=
    ⟨shields.raises, fun _ => shields⟩
  unfold classify at classified
  rw [path] at classified
  split at classified
  · simp at classified
  split at classified
  · rename_i inside
    cases classified
    apply always
    apply DynShapePos.shields_preserverAt inside
    obtain ⟨graph, node, rest, rfl, position⟩ := dynamicShapePosition_keyPath inside
    rw [position]
    apply DynShapePos.below_foldl
    cases cursor with
    | state graph' node' port members =>
      simp only [Cursor.keys, cons_append, nil_append, List.cons.injEq] at keys
      exact ⟨port, members, keys.2.2.2.2.2.symm⟩
    | ordinal owner => cases owner <;> simp [Cursor.keys, OrdinalOwner.keys] at keys
    | actor owner name => cases owner <;> simp [Cursor.keys, OrdinalOwner.keys] at keys
    | group graph | surface => simp [Cursor.keys] at keys
  split at classified
  · rename_i position
    obtain rfl := keyPath_inj (path_of_graphsMap position)
    cases classified
    obtain ⟨graph, rfl, survives⟩ := Cursor.of_view_keys keys
    refine ⟨raises_preserveRecord shields_preserveGraphViewCursor.raises, fun alive => ?_⟩
    exact shields_preserveGraphViewCursor.preserveRecord (by rw [← survives, alive]; rfl)
  · rename_i position _
    obtain ⟨segment, equal⟩ := path_of_graphView position
    obtain ⟨graph, rfl, rfl⟩ := keyPath_eq_append_singleton equal
    split at classified
    · cases classified
      obtain ⟨_, same, _⟩ := @Cursor.of_view_keys (graph :: back) surviving _ keys
      obtain ⟨_, rfl⟩ := List.cons.inj same
      exact always shields_preserveGraphViewCursor
    · simp at classified
  split at classified
  · rename_i position
    obtain rfl := keyPath_inj (path_of_topologyMap position)
    cases classified
    obtain ⟨key, rest, rfl, shields, survives⟩ := Cursor.of_topology_keys keys
    refine ⟨raises_preserveRecord shields.raises, fun alive => ?_⟩
    exact shields.preserveRecord (by rw [← survives, alive]; rfl)
  · rename_i position _
    obtain ⟨segment, equal⟩ := path_of_topology position
    obtain ⟨key, rfl, rfl⟩ := keyPath_eq_append_singleton equal
    split at classified
    · cases classified
      obtain ⟨_, _, same, shields, _⟩ := @Cursor.of_topology_keys (key :: back) surviving _ keys
      obtain ⟨_, rfl⟩ := List.cons.inj same
      exact always shields
    · simp at classified
  split at classified
  · rename_i map
    cases classified
    obtain ⟨owner, rfl⟩ := isActorCursorsMap_keyPath map
    cases cursor with
    | actor other name =>
      have same : back = [name] := by
        cases owner <;> cases other <;>
          simp [Cursor.keys, OrdinalOwner.keys] at keys ⊢ <;> exact keys.2.symm
      rw [same]
      exact always (shields_preserveActorCursorsMap name)
    | ordinal other => cases owner <;> cases other <;> simp [Cursor.keys, OrdinalOwner.keys] at keys
    | group graph | surface | state graph node port members =>
      cases owner <;> simp [Cursor.keys, OrdinalOwner.keys] at keys
  · simp at classified

/-! ## One operation -/

def AtLeast (bound : Rat) (number : Option Rat) : Prop :=
  ∃ reached, number = some reached ∧ bound ≤ reached

theorem Ascends.atLeast {after : Option Rat} {bound : Rat} (ascends : Ascends before after)
    (positive : 0 < bound) (reached : AtLeast bound before) : AtLeast bound after := by
  obtain ⟨number, held, above⟩ := reached
  obtain ⟨higher, found, higherStill⟩ := ascends number held (lt_of_lt_of_le positive above)
  exact ⟨higher, found, above.trans higherStill⟩

/-- What does not survive at all was not positive, so anything may follow it. -/
theorem Ascends.of_none (ascends : Ascends before none) (after : Option Rat) :
    Ascends before after := by
  intro number held positive
  obtain ⟨_, impossible, _⟩ := ascends number held positive
  simp at impossible

/-- What a preserved operation writes at some keys, beside what it recorded and what
the document holds. -/
theorem replayPreserved_written {preserve : Preserve} {keys : List String} {current : Option Json}
    (op : PatchOp) : (replayPreserved preserve current op).path = op.path ∧
      (Raises (preserve current) keys → Ascends (numberIn op.written keys)
        (numberIn (replayPreserved preserve current op).written keys)) ∧
      (Lifts (numberIn current keys) (preserve current) keys → Ascends (numberIn current keys)
        (numberIn (replayPreserved preserve current op).written keys)) := by
  have clamped (value : Json) (before : Option Rat)
      (ascends : Ascends before (numberIn (preserve current (some value)) keys)) :
      Ascends before (numberIn (some ((preserve current (some value)).getD value)) keys) := by
    cases found : preserve current (some value) with
    | none =>
      rw [found] at ascends
      exact ascends.of_none _
    | some kept => rwa [found] at ascends
  cases op with
  | add path value =>
    have written : (replayPreserved preserve current (.add path value)).path = path ∧
        (replayPreserved preserve current (.add path value)).written =
          some ((preserve current (some value)).getD value) := by
      unfold replayPreserved
      cases current with
      | none =>
        dsimp only
        split
        · rename_i equal
          exact ⟨rfl, by rw [equal]; rfl⟩
        · exact ⟨rfl, rfl⟩
      | some held => exact ⟨rfl, rfl⟩
    refine ⟨written.1, ?_, ?_⟩
    · intro raises
      rw [written.2]
      exact clamped value _ (raises (some value))
    · intro lifts
      rw [written.2]
      exact clamped value _ (lifts (some value))
  | replace path value oldValue =>
    have written : (replayPreserved preserve current (.replace path value oldValue)).path = path ∧
        (replayPreserved preserve current (.replace path value oldValue)).written =
          some ((preserve current (some value)).getD value) := by
      unfold replayPreserved
      cases current with
      | none => exact ⟨rfl, rfl⟩
      | some held =>
        dsimp only
        split
        · rename_i equal
          exact ⟨rfl, by rw [equal]; rfl⟩
        · exact ⟨rfl, rfl⟩
    refine ⟨written.1, ?_, ?_⟩
    · intro raises
      rw [written.2]
      exact clamped value _ (raises (some value))
    · intro lifts
      rw [written.2]
      exact clamped value _ (lifts (some value))
  | remove path oldValue =>
    unfold replayPreserved
    cases kept : preserve current none with
    | none =>
      refine ⟨rfl, fun _ => ascends_none _, fun lifts => ?_⟩
      have lifted := lifts none
      rw [kept] at lifted
      exact lifted.of_none _
    | some value =>
      cases current with
      | none => exact ⟨rfl, fun _ => ascends_none _, fun _ => ascends_none _⟩
      | some held =>
        refine ⟨rfl, fun _ => ascends_none _, fun lifts => ?_⟩
        have lifted := lifts none
        rwa [kept] at lifted

/-- A cursor operation has a number to write, or removes one. -/
theorem written_of_isNumericCursorOp (numeric : isNumericCursorOp op = true) :
    op.written = none ∨ ∃ number, op.written = some (.num number) := by
  unfold isNumericCursorOp at numeric
  cases op with
  | remove path oldValue => exact .inl rfl
  | add path value | replace path value oldValue =>
    cases value with
    | num number => exact .inr ⟨number, rfl⟩
    | _ => simp [isNumber, PatchOp.written] at numeric

theorem isNumericCursorOp_of_classify (classified : classify surviving op = .cursor) :
    isNumericCursorOp op = true := by
  unfold classify at classified
  split at classified
  · assumption
  split at classified
  · simp at classified
  split at classified
  · simp at classified
  · split at classified <;> simp at classified
  split at classified
  · simp at classified
  all_goals split at classified <;> simp at classified

/-- What becomes of a cursor operation that writes. -/
theorem replayCursor_eq (op : PatchOp) (current : Option Json) (value : Json) :
    op.written = some value → replayCursor current op =
      match current, value with
      | some (.num held), .num wanted =>
        if wanted ≤ held then none else some (.replace op.path (.num wanted) (.num held))
      | _, _ => some op := by
  intro written
  cases op with
  | remove path oldValue => simp [PatchOp.written] at written
  | add path other | replace path other oldValue =>
    cases written
    rfl

theorem replayCursor_skipped (skipped : replayCursor current op = none) :
    Ascends (numberIn op.written []) (numberIn current []) := by
  cases written : op.written with
  | none => exact ascends_none _
  | some value =>
    rw [replayCursor_eq op current value written] at skipped
    split at skipped
    · rename_i held wanted
      split at skipped
      · rename_i below
        intro number found _
        obtain rfl := Json.num.inj (some.inj (numberIn_nil_eq_some.mp found))
        exact ⟨held, numberIn_nil_eq_some.mpr rfl, below⟩
      · simp at skipped
    · simp at skipped

/-- What a cursor operation that is not skipped writes. -/
theorem replayCursor_applied {effective : PatchOp} (numeric : isNumericCursorOp op = true)
    (applied : replayCursor current op = some effective) :
    effective.path = op.path ∧ effective.written = op.written ∧
      Ascends (numberIn current []) (numberIn op.written []) := by
  rcases written_of_isNumericCursorOp numeric with nothing | ⟨wanted, written⟩
  · cases op with
    | remove path oldValue => simp [replayCursor] at applied
    | add path value | replace path value oldValue => simp [PatchOp.written] at nothing
  rw [replayCursor_eq op current _ written] at applied
  rw [written]
  split at applied
  · rename_i held other equal
    cases equal
    split at applied
    · simp at applied
    · rename_i above
      cases applied
      refine ⟨rfl, rfl, ?_⟩
      intro number found _
      obtain rfl := Json.num.inj (some.inj (numberIn_nil_eq_some.mp found))
      exact ⟨wanted, numberIn_nil_eq_some.mpr rfl, (not_le.mp above).le⟩
  · rename_i apart
    cases applied
    refine ⟨rfl, written, ?_⟩
    intro number found _
    exact absurd rfl (apart number wanted (numberIn_nil_eq_some.mp found))

/-- Without recorded values to check, an operation is skipped or applied where it was
recorded. -/
theorem replayStep_path (surviving : Survivors) (cur : Json) (op : PatchOp) :
    match replayStep surviving false cur op with
    | .skip => True
    | .stale => False
    | .apply effective => effective.path = op.path := by
  unfold replayStep
  cases classified : classify surviving op with
  | cursor =>
    dsimp only
    cases replayed : replayCursor (getAtPath cur op.path) op with
    | none => trivial
    | some effective =>
      exact (replayCursor_applied (isNumericCursorOp_of_classify classified) replayed).1
  | preserved preserve => exact (@replayPreserved_written preserve [] _ op).1
  | verbatim => rfl

/-- What an operation of a batch does to a cursor that its path leads to. -/
theorem replayStep_covering {surviving : Survivors} {cur : Json} {op : PatchOp} {cursor : Cursor}
    {front back : List String} (path : op.path = keyPath front)
    (keys : cursor.keys = front ++ back) :
    match replayStep surviving false cur op with
    | .skip => Ascends (numberIn op.written back) (numberAt cur cursor.keys)
    | .stale => False
    | .apply effective => Ascends (numberIn op.written back) (numberIn effective.written back) ∧
        (cursor.guarded surviving op = true →
          Ascends (numberAt cur cursor.keys) (numberIn effective.written back)) := by
  have before : numberAt cur cursor.keys = numberIn (getAtPath cur op.path) back := by
    rw [keys, numberAt_append, path]
  rw [before]
  unfold replayStep
  cases classified : classify surviving op with
  | cursor =>
    have numeric := isNumericCursorOp_of_classify classified
    dsimp only
    cases replayed : replayCursor (getAtPath cur op.path) op with
    | none =>
      dsimp only
      cases back with
      | nil => exact replayCursor_skipped replayed
      | cons key rest =>
        rcases written_of_isNumericCursorOp numeric with none | ⟨number, some⟩
        · rw [none]
          exact ascends_none _
        · rw [some]
          exact ascends_none _
    | some effective =>
      dsimp only
      obtain ⟨_, written, raised⟩ := replayCursor_applied numeric replayed
      refine ⟨.of_eq (by rw [written]), ?_⟩
      intro guarded
      rw [Cursor.guarded, classified] at guarded
      have exact : keyPath front = keyPath (front ++ back) := by
        rw [← path, ← keys]
        exact of_decide_eq_true guarded
      obtain rfl : back = [] := by simpa using keyPath_inj exact
      rw [written]
      exact raised
  | preserved preserve =>
    obtain ⟨raises, shields⟩ := shields_of_classify classified path keys
    obtain ⟨_, raised, lifted⟩ := @replayPreserved_written preserve back (getAtPath cur op.path) op
    refine ⟨raised (raises _), ?_⟩
    intro guarded
    rw [Cursor.guarded, classified] at guarded
    exact lifted ((shields guarded).lifts _)
  | verbatim =>
    refine ⟨.refl _, ?_⟩
    intro guarded
    rw [Cursor.guarded, classified] at guarded
    simp at guarded

/-! ## What a cursor belongs to -/

theorem isAllocationCursor_holder (keys : cursor.holder = front ++ back) :
    isAllocationCursor (keyPath front) = false := by
  have outside : ∀ path : DocPath, path.length < 5 → dynamicShapePosition path = .outside := by
    intro path short
    unfold dynamicShapePosition
    split
    · simp at short
      omega
    · rfl
  have none : isAllocationCursor (keyPath []) = false := rfl
  have one (first : String) (other : first ≠ "surfaceSeq") :
      isAllocationCursor (keyPath [first]) = false := by
    simp [isAllocationCursor, keyPath, outside, other]
  have two (first second : String) : isAllocationCursor (keyPath [first, second]) = false := by
    simp [isAllocationCursor, keyPath, outside]
  have three (first second third : String) (other : third ≠ "nextOrdinal") :
      isAllocationCursor (keyPath [first, second, third]) = false := by
    simp [isAllocationCursor, keyPath, outside, other]
  have four (second fourth : String) :
      isAllocationCursor (keyPath ["graphs", second, "nodes", fourth]) = false := by
    simp [isAllocationCursor, keyPath, outside]
  have pair (first second : String) (other : first ≠ "surfaceSeq")
      (equal : [first, second] = front ++ back) : isAllocationCursor (keyPath front) = false := by
    rcases front with _ | ⟨_, _ | ⟨_, _ | ⟨_, _⟩⟩⟩
    · exact none
    · obtain ⟨rfl, _⟩ := List.cons.inj equal
      exact one _ other
    · exact two _ _
    · simp at equal
  cases cursor with
  | ordinal owner | actor owner name =>
    cases owner with
    | graph id => exact pair "graphs" id (by decide) keys
    | topology key => exact pair "occurrenceTopologies" key (by decide) keys
  | group graph => exact pair "graphs" graph (by decide) keys
  | surface =>
    obtain ⟨rfl, _⟩ := append_eq_nil_iff.mp keys.symm
    exact none
  | state graph node port members =>
    rcases front with _ | ⟨_, _ | ⟨_, _ | ⟨_, _ | ⟨_, _ | ⟨_, _⟩⟩⟩⟩⟩
    · exact none
    · obtain ⟨rfl, _⟩ := List.cons.inj keys
      exact one _ (by decide)
    · exact two _ _
    · obtain ⟨rfl, rfl, rfl, _⟩ : _ ∧ _ ∧ _ ∧ _ := by
        simpa only [Cursor.holder, cons_append, nil_append, List.cons.injEq] using keys
      exact three _ _ _ (by decide)
    · obtain ⟨rfl, rfl, rfl, rfl, _⟩ : _ ∧ _ ∧ _ ∧ _ ∧ _ := by
        simpa only [Cursor.holder, cons_append, nil_append, List.cons.injEq] using keys
      exact four _ _
    · simp [Cursor.holder] at keys

theorem classify_pair {first second : String} (path : op.path = keyPath front)
    (keys : [first, second] = front ++ back) (numeric : isNumericCursorOp op = false)
    (other : first ≠ "view") : classify surviving op = .verbatim ∨ first = "occurrenceTopologies" ∧
        (front = ["occurrenceTopologies"] ∧ back = [second] ∧ classify surviving op =
            .preserved (makePreserveOccurrenceTopologiesMap surviving.occurrences) ∨
          surviving.occurrences.contains second = true) := by
  have position : dynamicShapePosition op.path = .outside := by
    rw [path]
    match front, keys with
    | [], _ => rfl
    | [_], _ | [_, _], _ => simp [dynamicShapePosition, keyPath]
    | _ :: _ :: _ :: _, keys => simp at keys
  unfold classify
  rw [numeric, position, path]
  match front, keys with
  | [], _ => exact .inl rfl
  | [_], keys =>
    cases keys
    by_cases map : first = "occurrenceTopologies"
    · subst map
      exact .inr ⟨rfl, .inl ⟨rfl, rfl, rfl⟩⟩
    · refine .inl ?_
      simp [keyPath, viewGraphShapePosition, occurrenceTopologyShapePosition, map,
        isActorCursorsMap]
  | [_, _], keys =>
    obtain ⟨rfl, rfl, _⟩ : _ ∧ _ ∧ _ := by
      simpa only [cons_append, nil_append, List.cons.injEq] using keys
    by_cases map : first = "occurrenceTopologies"
    · subst map
      by_cases inside : surviving.occurrences.contains second = true
      · exact .inr ⟨rfl, .inr inside⟩
      · refine .inl ?_
        simpa [keyPath, viewGraphShapePosition, occurrenceTopologyShapePosition] using inside
    · refine .inl ?_
      simp [keyPath, viewGraphShapePosition, occurrenceTopologyShapePosition, map, other,
        isActorCursorsMap]
  | _ :: _ :: _ :: _, keys => simp at keys

/-- Merges of other entries leave a property alone. -/
theorem foldl_mergeEntry_apart {entries : List (String × Merge)}
    (apart : ∀ entry ∈ entries, entry.1 ≠ key) (state : List (String × Json) × Bool) :
    getField (entries.foldl mergeEntry state).1 key = getField state.1 key := by
  induction entries generalizing state with
  | nil => rfl
  | cons entry rest ih =>
    rw [foldl_cons, ih fun other member => apart other (mem_cons_of_mem _ member)]
    unfold mergeEntry
    dsimp only
    split
    · split
      · rfl
      · exact (getField_setField _ _ _ _).trans (if_neg (apart entry mem_cons_self))
    · rfl

theorem ownChild_preserveRecord {child : Preserve} {skip : String → Bool}
    (skipped : skip key = true) (current next : Option Json) :
    ((preserveRecord child skip current next).bind fun node => ownChild node (.key key)) =
      next.bind fun node => ownChild node (.key key) := by
  have property (next : Option Json) :
      (next.bind fun node => ownChild node (.key key)) = getField (objectFields next) key := by
    cases next with
    | none => rfl
    | some node => cases node <;> rfl
  cases current with
  | none => rfl
  | some node =>
    cases node with
    | obj fields =>
      simp only [preserveRecord, mergeEntries]
      split
      · rfl
      split
      · rfl
      · rw [property, property, objectFields]
        apply foldl_mergeEntry_apart
        intro entry member
        obtain ⟨source, inside, rfl⟩ := mem_map.mp member
        rintro rfl
        have kept := (mem_filter.mp inside).2
        simp [skipped] at kept
    | _ => rfl

/-- What a value that may be absent holds at a path of keys. -/
def valueIn (node : Option Json) (keys : List String) : Option Json :=
  node.bind fun node => getAtPath node (keyPath keys)

theorem valueIn_singleton (node : Option Json) (key : String) :
    valueIn node [key] = node.bind fun node => ownChild node (.key key) := by
  cases node with
  | none => rfl
  | some node =>
    simp only [valueIn, keyPath, map_cons, map_nil, bind_some, getAtPath]
    cases ownChild node (.key key) <;> rfl

/-- A preserver that leaves a property as recorded writes it as recorded. -/
theorem replayPreserved_property (op : PatchOp)
    (same : ∀ next, valueIn (preserve current next) [key] = valueIn next [key]) :
    valueIn (replayPreserved preserve current op).written [key] = valueIn op.written [key] := by
  have clamped (value : Json) : valueIn (some ((preserve current (some value)).getD value)) [key] =
        valueIn (some value) [key] := by
    rw [← same (some value)]
    cases found : preserve current (some value) with
    | none =>
      have nothing := same (some value)
      rw [found] at nothing
      exact nothing.symm
    | some kept => rfl
  cases op with
  | add path value =>
    unfold replayPreserved
    cases current with
    | none =>
      dsimp only
      split
      · rfl
      · exact clamped value
    | some held => exact clamped value
  | replace path value oldValue =>
    unfold replayPreserved
    cases current with
    | none => exact clamped value
    | some held =>
      dsimp only
      split
      · rfl
      · exact clamped value
  | remove path oldValue =>
    have nothing := same none
    unfold replayPreserved
    dsimp only
    split
    · rename_i kept held found
      rwa [found] at nothing
    · rfl

theorem replayStep_leaving {cur : Json} (path : op.path = keyPath front)
    (keys : cursor.holder = front ++ back) (unguarded : cursor.guarded surviving op = false)
    (absent : valueIn op.written back = none) :
    ∃ effective, replayStep surviving false cur op = .apply effective ∧
      effective.path = op.path ∧ valueIn effective.written back = none := by
  have numeric : isNumericCursorOp op = false := by
    simp only [isNumericCursorOp, path, isAllocationCursor_holder keys, Bool.false_and]
  cases classified : classify surviving op with
  | cursor =>
    rw [isNumericCursorOp_of_classify classified] at numeric
    simp at numeric
  | verbatim =>
    refine ⟨op, ?_, rfl, absent⟩
    rw [replayStep, classified]
    rfl
  | preserved preserve =>
    have gone : cursor.survives surviving = false := by
      rwa [Cursor.guarded, classified] at unguarded
    have replayed : replayStep surviving false cur op =
        .apply (replayPreserved preserve (getAtPath cur op.path) op) := by
      rw [replayStep, classified]
      rfl
    have pair (first second : String) (holder : cursor.holder = [first, second])
        (other : first ≠ "view") : first = "occurrenceTopologies" ∧
          (front = ["occurrenceTopologies"] ∧ back = [second] ∧ preserve =
            makePreserveOccurrenceTopologiesMap surviving.occurrences ∨
          surviving.occurrences.contains second = true) := by
      rw [holder] at keys
      rcases classify_pair path keys numeric other with verbatim | ⟨map, cases⟩
      · rw [classified] at verbatim
        simp at verbatim
      · rw [classified, ReplayClass.preserved.injEq] at cases
        exact ⟨map, cases⟩
    have map (key : String) (holder : cursor.holder = ["occurrenceTopologies", key])
        (gone : surviving.occurrences.contains key = false) :
        ∃ effective, replayStep surviving false cur op = .apply effective ∧
          effective.path = op.path ∧ valueIn effective.written back = none := by
      obtain ⟨_, ⟨rfl, rfl, rfl⟩ | inside⟩ := pair _ _ holder (by decide)
      · refine ⟨_, replayed, (@replayPreserved_written _ [] _ op).1, ?_⟩
        rw [replayPreserved_property, absent]
        intro next
        rw [valueIn_singleton, valueIn_singleton]
        exact ownChild_preserveRecord (by rw [gone]; rfl) _ next
      · rw [inside] at gone
        simp at gone
    cases cursor with
    | ordinal owner | actor owner name =>
      cases owner with
      | graph id => simp [Cursor.survives] at gone
      | topology key => exact map key rfl gone
    | group graph =>
      obtain ⟨impossible, _⟩ := pair "graphs" graph rfl (by decide)
      simp at impossible
    | surface | state graph node port members => simp [Cursor.survives] at gone

/-! ## Batches -/

/-- What is written at a path, or removed there, and whether a cursor is guarded from
it. -/
structure Write where
  path : DocPath
  value : Option Json
  guarded : Bool

namespace Write

def leadsTo (write : Write) (keys : List String) : Bool :=
  write.path <+: keyPath keys

def below (write : Write) (keys : List String) : List String :=
  keys.drop write.path.length

def reaches (bound : Rat) (keys : List String) (before : Bool) (write : Write) : Bool :=
  if write.leadsTo keys then
    (numberIn write.value (write.below keys)).any (fun number => bound ≤ number) ||
      before && write.guarded
  else before

def leaves (keys : List String) (before : Bool) (write : Write) : Bool :=
  if write.leadsTo keys then
    !write.guarded && (valueIn write.value (write.below keys)).isNone
  else before

theorem leadsTo_iff {write : Write} {keys : List String} : write.leadsTo keys = true ↔
      ∃ front, write.path = keyPath front ∧ keys = front ++ write.below keys := by
  rw [leadsTo, decide_eq_true_eq]
  constructor
  · rintro ⟨rest, equal⟩
    obtain ⟨front, back, rfl, same, _⟩ := map_eq_append_iff.mp equal.symm
    refine ⟨front, same.symm, ?_⟩
    rw [below, ← same, length_map, drop_left]
  · rintro ⟨front, path, equal⟩
    refine ⟨keyPath (write.below keys), ?_⟩
    conv_rhs => rw [equal]
    rw [path, keyPath_append]

end Write

namespace Cursor

/-- Whether writes leave a cursor at a bound or above that it reached before, or in the
end remove what it belongs to. -/
def secure (cursor : Cursor) (bound : Rat) (writes : List Write) : Bool :=
  writes.foldl (Write.reaches bound cursor.keys) true ||
    writes.foldl (Write.leaves cursor.holder) false

/-- A document becomes another as a write says, as far as a cursor is concerned. -/
structure Obeys (cursor : Cursor) (write : Write) (cur next : Json) : Prop where
  number : ∀ {bound before}, 0 < bound →
    (before = true → AtLeast bound (numberAt cur cursor.keys)) →
    write.reaches bound cursor.keys before = true → AtLeast bound (numberAt next cursor.keys)
  holder : ∀ {before}, (before = true → cursor.held cur = false) →
    write.leaves cursor.holder before = true → cursor.held next = false

end Cursor

theorem applyOp_keys {op : PatchOp} {cur next : Json} {write : Write}
    (applied : applyOp cur op = .ok next) (path : op.path = write.path) (keys : List String) :
    (write.leadsTo keys = true ∧ numberAt next keys = numberIn op.written (write.below keys) ∧
        getAtPath next (keyPath keys) = valueIn op.written (write.below keys)) ∨
      write.leadsTo keys = false ∧ numberAt next keys = numberAt cur keys ∧
        (getAtPath next (keyPath keys)).isSome = (getAtPath cur (keyPath keys)).isSome := by
  rcases applyAt_keyPath applied keys with ⟨rest, split, written⟩ | ⟨apart, number, present⟩
  · left
    have leads : write.leadsTo keys = true := by
      rw [Write.leadsTo, decide_eq_true_eq, split, path]
      exact prefix_append _ _
    obtain ⟨front, front_path, keys_eq⟩ := Write.leadsTo_iff.mp leads
    have same : rest = write.below keys := by
      apply keyPath_inj
      have both : keyPath front ++ keyPath (write.below keys) = keyPath front ++ keyPath rest := by
        rw [← keyPath_append, ← keys_eq, split, path, front_path]
      exact (append_cancel_left both).symm
    refine ⟨leads, ?_, by rw [written, same]; rfl⟩
    rw [numberAt, written, same]
    cases op.written with
    | none | some value => rfl
  · right
    refine ⟨?_, number, present⟩
    rw [Write.leadsTo, decide_eq_false_iff_not, ← path]
    exact apart

/-- A number that a write puts at some keys reaches a bound. -/
theorem atLeast_of_any {number : Option Rat} {bound : Rat}
    (passes : number.any (fun number => decide (bound ≤ number)) = true) : AtLeast bound number := by
  obtain ⟨reached, found, above⟩ := (any_eq_true _ _).mp passes
  exact ⟨reached, found, of_decide_eq_true above⟩

namespace Cursor

variable {cursor : Cursor}

theorem obeys_of_applied {op : PatchOp} {cur next : Json} {write : Write}
    (applied : applyOp cur op = .ok next) (path : op.path = write.path)
    (raised : ∀ back, write.leadsTo cursor.keys = true → write.below cursor.keys = back →
      Ascends (numberIn write.value back) (numberIn op.written back))
    (lifted : ∀ back, write.leadsTo cursor.keys = true → write.below cursor.keys = back →
      write.guarded = true → Ascends (numberAt cur cursor.keys) (numberIn op.written back))
    (absent : ∀ back, write.leadsTo cursor.holder = true → write.below cursor.holder = back →
      write.guarded = false → valueIn write.value back = none → valueIn op.written back = none) :
    cursor.Obeys write cur next := by
  constructor
  · intro bound before positive held reaches
    rw [Write.reaches] at reaches
    rcases applyOp_keys applied path cursor.keys with ⟨leads, number, _⟩ | ⟨apart, number, _⟩
    · rw [if_pos leads, Bool.or_eq_true, Bool.and_eq_true] at reaches
      rw [number]
      rcases reaches with written | ⟨was, guarded⟩
      · exact (raised _ leads rfl).atLeast positive (atLeast_of_any written)
      · exact (lifted _ leads rfl guarded).atLeast positive (held was)
    · rw [apart, if_neg Bool.false_ne_true] at reaches
      rw [number]
      exact held reaches
  · intro before gone leaves
    rw [Write.leaves] at leaves
    rw [Cursor.held]
    rcases applyOp_keys applied path cursor.holder with ⟨leads, _, there⟩ | ⟨apart, _, there⟩
    · rw [if_pos leads, Bool.and_eq_true, Bool.not_eq_true', isNone_iff_eq_none] at leaves
      rw [there, absent _ leads rfl leaves.1 leaves.2]
      rfl
    · rw [apart, if_neg Bool.false_ne_true] at leaves
      rw [there]
      exact gone leaves

inductive ObeysAll (cursor : Cursor) : List Write → Json → Json → Prop where
  | nil (doc : Json) : ObeysAll cursor [] doc doc
  | cons {write : Write} {rest : List Write} {doc next final : Json}
      (first : cursor.Obeys write doc next) (later : ObeysAll cursor rest next final) :
      ObeysAll cursor (write :: rest) doc final

variable {doc final : Json} {writes : List Write}

section

variable (obeys : ObeysAll cursor writes doc final)

include obeys

theorem ObeysAll.number {bound : Rat} (positive : 0 < bound) {before : Bool}
    (held : before = true → AtLeast bound (numberAt doc cursor.keys))
    (reaches : writes.foldl (Write.reaches bound cursor.keys) before = true) :
    AtLeast bound (numberAt final cursor.keys) := by
  induction obeys generalizing before with
  | nil doc => exact held reaches
  | cons first later ih => exact ih (first.number positive held) reaches

theorem ObeysAll.holder {before : Bool} (gone : before = true → cursor.held doc = false)
    (leaves : writes.foldl (Write.leaves cursor.holder) before = true) :
    cursor.held final = false := by
  induction obeys generalizing before with
  | nil doc => exact gone leaves
  | cons first later ih => exact ih (first.holder gone) leaves

theorem ObeysAll.secure {bound : Rat} (positive : 0 < bound)
    (held : numberAt doc cursor.keys = some bound) (secure : cursor.secure bound writes = true) :
    AtLeast bound (numberAt final cursor.keys) ∨ cursor.held final = false := by
  rcases (Bool.or_eq_true _ _).mp secure with reaches | leaves
  · exact .inl (obeys.number positive (fun _ => ⟨bound, held, le_rfl⟩) reaches)
  · exact .inr (obeys.holder (fun impossible => absurd impossible Bool.false_ne_true) leaves)

end

/-- What an operation of a replayed batch writes. -/
def writeOf (surviving : Survivors) (cursor : Cursor) (op : PatchOp) : Write :=
  ⟨op.path, op.written, cursor.guarded surviving op⟩

theorem obeysAll_replayLoop {surviving : Survivors} {cur : Json} {applied ops : List PatchOp}
    {result : ReplayResult} (replayed : replayLoop surviving false cur applied ops = .ok result) :
    cursor.ObeysAll (ops.map (cursor.writeOf surviving)) cur result.doc := by
  induction ops generalizing cur applied with
  | nil =>
    cases replayed
    exact .nil cur
  | cons op rest ih =>
    have covering : ∀ {back : List String},
        (cursor.writeOf surviving op).leadsTo cursor.keys = true →
        (cursor.writeOf surviving op).below cursor.keys = back →
        ∃ front, op.path = keyPath front ∧ cursor.keys = front ++ back := by
      intro back leads below
      obtain ⟨front, path, keys⟩ := Write.leadsTo_iff.mp leads
      exact ⟨front, path, below ▸ keys⟩
    have leaving : ∀ {back : List String},
        (cursor.writeOf surviving op).leadsTo cursor.holder = true →
        (cursor.writeOf surviving op).below cursor.holder = back →
        cursor.guarded surviving op = false → valueIn op.written back = none →
        ∃ effective, replayStep surviving false cur op = .apply effective ∧
          effective.path = op.path ∧ valueIn effective.written back = none := by
      intro back leads below unguarded absent
      obtain ⟨front, path, keys⟩ := Write.leadsTo_iff.mp leads
      exact replayStep_leaving path (below ▸ keys) unguarded absent
    have shape := replayStep_path surviving cur op
    rw [replayLoop] at replayed
    cases step : replayStep surviving false cur op with
    | stale =>
      rw [step] at shape
      exact shape.elim
    | skip =>
      rw [step] at replayed
      refine .cons ?_ (ih replayed)
      constructor
      · intro bound before positive held reaches
        rw [Write.reaches] at reaches
        split at reaches
        · rename_i leads
          rcases (Bool.or_eq_true _ _).mp reaches with written | was
          · obtain ⟨front, path, keys⟩ := covering leads rfl
            have covered := @replayStep_covering surviving cur op cursor front _ path keys
            rw [step] at covered
            exact covered.atLeast positive (atLeast_of_any written)
          · exact held ((Bool.and_eq_true _ _).mp was).1
        · exact held reaches
      · intro before gone leaves
        rw [Write.leaves] at leaves
        split at leaves
        · rename_i leads
          rw [Bool.and_eq_true, Bool.not_eq_true', isNone_iff_eq_none] at leaves
          obtain ⟨effective, same, _⟩ := leaving leads rfl leaves.1 leaves.2
          simp [step] at same
        · exact gone leaves
    | apply effective =>
      rw [step] at replayed
      dsimp only at replayed
      split at replayed
      · simp at replayed
      · rename_i next appliedOne
        refine .cons (obeys_of_applied appliedOne ?_ ?_ ?_ ?_) (ih replayed)
        · rw [step] at shape
          exact shape
        · intro back leads below
          obtain ⟨front, path, keys⟩ := covering leads below
          have covered := @replayStep_covering surviving cur op cursor front back path keys
          rw [step] at covered
          exact covered.1
        · intro back leads below guarded
          obtain ⟨front, path, keys⟩ := covering leads below
          have covered := @replayStep_covering surviving cur op cursor front back path keys
          rw [step] at covered
          exact covered.2 guarded
        · intro back leads below unguarded absent
          obtain ⟨other, same, _, nothing⟩ := leaving leads below unguarded absent
          obtain rfl := ReplayStep.apply.inj (step.symm.trans same)
          exact nothing

end Cursor

end Dinkster.Commands
