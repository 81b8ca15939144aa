import Dinkster.Format.OwnJson
import Dinkster.Library.Dotted
import Dinkster.Library.Table
import Dinkster.Library.Utf16

/-!
# Selections of slots

A forwarded family exposes the slots that its selection lists.  An entry is a dotted path: it
selects a slot with everything beneath it, and so a selection may not list a path together with an
extension of it.  `parseSelection` reads the entries into a tree, which refuses exactly that.
-/

namespace Dinkster.Boundary

open Library Format List

/-- `split('.')`. -/
def segments (path : String) : List String :=
  (path.toList.splitOn '.').map String.ofList

/-- What `isValidEntry` asks of a text. -/
def isSlotPath (path : String) : Bool :=
  path ≠ "" && (segments path).all (· ≠ "")

/-- A strict dotted extension. -/
def Extends (path other : String) : Prop :=
  (path ++ ".").toList <+: other.toList

instance : DecidableRel Extends :=
  fun path other => inferInstanceAs (Decidable ((path ++ ".").toList <+: other.toList))

theorem segments_ne_nil (path : String) : segments path ≠ [] :=
  fun none => splitOn_ne_nil '.' path.toList (map_eq_nil_iff.mp none)

theorem ofList_injective : Function.Injective String.ofList :=
  fun _ _ same => String.ofList_inj.mp same

theorem extends_iff {path other : String} :
    Extends path other ↔ segments path <+: segments other ∧ segments path ≠ segments other := by
  unfold Extends segments
  rw [String.toList_append]
  change path.toList ++ ['.'] <+: _ ↔ _
  rw [append_dot_prefix_iff, prefix_map_iff_of_injective ofList_injective,
    (map_injective_iff.mpr ofList_injective).ne_iff]

/-- What a tree holds at a segment: `'all'`, or a map that narrows the construct. -/
inductive SelectionNode where
  | all
  | narrowed (children : List (String × SelectionNode))

abbrev SelectionTree := Table SelectionNode

inductive SlotExposure where
  | whole
  | narrowed
  | excluded
  deriving DecidableEq

/-- What `parseSelection` does with an entry, along its segments. -/
def selectEntry (entry : String) : String → List String → SelectionTree →
    Except String SelectionTree
  | _, [], tree => .ok tree
  | _, [segment], tree =>
    match tree.get segment with
    | some (.narrowed _) =>
      .error s!"'{entry}' selects a whole subtree but narrower path(s) beneath it are also listed; list one or the other"
    | _ => .ok (tree.set segment .all)
  | walked, segment :: next :: rest, tree =>
    let walked := if walked = "" then segment else s!"{walked}.{segment}"
    match tree.get segment with
    | some .all =>
      .error s!"'{entry}' narrows '{walked}', which is already selected as a whole subtree; list one or the other"
    | some (.narrowed children) => do
      let children ← selectEntry entry walked (next :: rest) children
      return tree.set segment (.narrowed children)
    | none => do
      let children ← selectEntry entry walked (next :: rest) []
      return tree.set segment (.narrowed children)

def parseSelection (entries : List String) : Except String SelectionTree :=
  entries.foldlM (fun tree entry => selectEntry entry "" (segments entry) tree) []

/-- What a node itself holds at the end of a path. -/
def ownBeneath : SelectionNode → List String → SlotExposure
  | .all, [] => .whole
  | .all, _ :: _ => .excluded
  | .narrowed _, [] => .narrowed
  | .narrowed children, segment :: rest =>
    match Table.get children segment with
    | none => .excluded
    | some node => ownBeneath node rest

def ownAt (tree : SelectionTree) (path : List String) : SlotExposure :=
  ownBeneath (.narrowed tree) path

section Holding

variable {tree : SelectionTree} {segment : String} {rest : List String}

theorem ownAt_cons_none (absent : tree.get segment = none) :
    ownAt tree (segment :: rest) = .excluded := by
  simp only [ownAt, ownBeneath, absent]

theorem ownAt_cons_some {node : SelectionNode} (found : tree.get segment = some node) :
    ownAt tree (segment :: rest) = ownBeneath node rest := by
  simp only [ownAt, ownBeneath, found]

@[simp] theorem ownAt_nil (path : List String) (some : path ≠ []) : ownAt [] path = .excluded := by
  obtain ⟨segment, rest, rfl⟩ := exists_cons_of_ne_nil some
  exact ownAt_cons_none rfl

/-- What is held after a node is written. -/
theorem ownAt_set (tree : SelectionTree) (segment other : String) (node : SelectionNode)
    (rest : List String) : ownAt (tree.set segment node) (other :: rest) =
      if segment = other then ownBeneath node rest else ownAt tree (other :: rest) := by
  unfold ownAt
  simp only [ownBeneath, Table.get_set]
  by_cases same : segment = other
  · rw [if_pos same, if_pos same]
  · rw [if_neg same, if_neg same]

end Holding

theorem ownAt_selectEntry {entry : String} {path : List String} (nonempty : path ≠ []) :
    ∀ {walked : String} {tree after : SelectionTree},
      selectEntry entry walked path tree = .ok after → ∀ {other : List String}, other ≠ [] →
        ownAt after other =
          if other = path then .whole else if other <+: path then .narrowed
          else ownAt tree other := by
  induction path with
  | nil => exact absurd rfl nonempty
  | cons segment rest ih =>
    intro walked tree after selected other more
    obtain ⟨first, later, rfl⟩ := exists_cons_of_ne_nil more
    have written : ∃ node, after = tree.set segment node ∧ ∀ later, ownBeneath node later =
          if later = rest then .whole else if later <+: rest then .narrowed
          else ownAt tree (segment :: later) := by
      cases rest with
      | nil =>
        unfold selectEntry at selected
        split at selected
        · cases selected
        · rename_i leaf
          refine ⟨.all, (Except.ok.inj selected).symm, fun later => ?_⟩
          cases later with
          | nil => rfl
          | cons next later =>
            have absent : ownAt tree (segment :: next :: later) = .excluded := by
              cases found : tree.get segment with
              | none => exact ownAt_cons_none found
              | some node =>
                cases node with
                | all => exact ownAt_cons_some found
                | narrowed children => exact absurd found (leaf children)
            rw [absent, if_neg (cons_ne_nil _ _), if_neg (by simp)]
            rfl
      | cons next rest =>
        have below : ∃ walked before children,
            selectEntry entry walked (next :: rest) before = .ok children ∧
            after = tree.set segment (.narrowed children) ∧
            ∀ later, later ≠ [] → ownAt tree (segment :: later) = ownAt before later := by
          unfold selectEntry at selected
          dsimp only at selected
          split at selected
          · cases selected
          · rename_i before found
            obtain ⟨children, made, same⟩ := bind_eq_ok.mp selected
            exact ⟨_, before, children, made, (Except.ok.inj same).symm,
              fun later _ => ownAt_cons_some found⟩
          · rename_i found
            obtain ⟨children, made, same⟩ := bind_eq_ok.mp selected
            exact ⟨_, [], children, made, (Except.ok.inj same).symm,
              fun later more => (ownAt_cons_none found).trans (ownAt_nil later more).symm⟩
        obtain ⟨walked, before, children, made, same, beneath⟩ := below
        refine ⟨.narrowed children, same, fun later => ?_⟩
        cases later with
        | nil => rw [if_neg (cons_ne_nil _ _).symm, if_pos nil_prefix]; rfl
        | cons first later =>
          rw [beneath _ (cons_ne_nil _ _)]
          exact ih (cons_ne_nil _ _) made (cons_ne_nil _ _)
    obtain ⟨node, rfl, beneath⟩ := written
    rw [ownAt_set]
    by_cases same : segment = first
    · subst same
      rw [if_pos rfl, beneath]
      simp only [List.cons.injEq, true_and, cons_prefix_cons]
    · have apart : first ≠ segment := Ne.symm same
      simp only [List.cons.injEq, cons_prefix_cons, apart, same, false_and, if_false]

theorem exists_map_eq_ok {Result Final : Type} {computation : Except String Result}
    {wrap : Result → Final} : (∃ final, (do return wrap (← computation)) = Except.ok final) ↔
      ∃ result, computation = .ok result := by
  cases computation with
  | error reason => exact ⟨fun ⟨_, failed⟩ => (nomatch failed), fun ⟨_, failed⟩ => (nomatch failed)⟩
  | ok result => exact ⟨fun _ => ⟨result, rfl⟩, fun _ => ⟨wrap result, rfl⟩⟩

theorem selectEntry_isOk_iff {entry : String} {path : List String} (nonempty : path ≠ []) :
    ∀ {walked : String} {tree : SelectionTree},
      (∃ after, selectEntry entry walked path tree = .ok after) ↔ ownAt tree path ≠ .narrowed ∧
          ∀ start, start ≠ [] → start <+: path → start ≠ path → ownAt tree start ≠ .whole := by
  induction path with
  | nil => exact absurd rfl nonempty
  | cons segment rest ih =>
    intro walked tree
    cases rest with
    | nil =>
      have none : ∀ start, start ≠ [] → start <+: [segment] → start ≠ [segment] →
          ownAt tree start ≠ .whole := by
        intro start more starts short
        obtain ⟨first, later, rfl⟩ := exists_cons_of_ne_nil more
        obtain ⟨rfl, inner⟩ := cons_prefix_cons.mp starts
        exact absurd (congrArg (first :: ·) (prefix_nil.mp inner)) short
      unfold selectEntry
      split
      · rename_i children found
        have narrowed : ownAt tree [segment] = .narrowed := ownAt_cons_some found
        exact ⟨fun ⟨_, failed⟩ => (nomatch failed), fun both => absurd narrowed both.1⟩
      · rename_i leaf
        refine ⟨fun _ => ⟨fun narrowed => ?_, none⟩, fun _ => ⟨_, rfl⟩⟩
        cases found : tree.get segment with
        | none => rw [ownAt_cons_none found] at narrowed; cases narrowed
        | some node =>
          rw [ownAt_cons_some found] at narrowed
          cases node with
          | all => cases narrowed
          | narrowed children => exact leaf children found
    | cons next rest =>
      have starts : ∀ (before : SelectionTree),
          (∀ later, later ≠ [] → ownAt tree (segment :: later) = ownAt before later) →
          ownAt tree [segment] ≠ .whole →
          ((ownAt before (next :: rest) ≠ .narrowed ∧
            ∀ start, start ≠ [] → start <+: next :: rest → start ≠ next :: rest →
              ownAt before start ≠ .whole) ↔
          (ownAt tree (segment :: next :: rest) ≠ .narrowed ∧
            ∀ start, start ≠ [] → start <+: segment :: next :: rest →
              start ≠ segment :: next :: rest → ownAt tree start ≠ .whole)) := by
        intro before beneath here
        rw [beneath _ (cons_ne_nil _ _)]
        refine and_congr_right fun _ => ⟨fun below start more starts short => ?_,
          fun above start more starts short => ?_⟩
        · obtain ⟨first, later, rfl⟩ := exists_cons_of_ne_nil more
          obtain ⟨rfl, inner⟩ := cons_prefix_cons.mp starts
          by_cases ends : later = []
          · rw [ends]
            exact here
          · rw [beneath later ends]
            exact below later ends inner fun same => short (congrArg (first :: ·) same)
        · rw [← beneath start more]
          exact above _ (cons_ne_nil _ _) (cons_prefix_cons.mpr ⟨rfl, starts⟩)
            fun same => short (List.cons.inj same).2
      unfold selectEntry
      dsimp only
      split
      · rename_i found
        have whole : ownAt tree [segment] = .whole := ownAt_cons_some found
        refine ⟨fun ⟨_, failed⟩ => (nomatch failed), fun both => absurd whole ?_⟩
        exact both.2 [segment] (cons_ne_nil _ _) (cons_prefix_cons.mpr ⟨rfl, nil_prefix⟩) (by simp)
      · rename_i before found
        have here : ownAt tree [segment] ≠ .whole := by
          rw [ownAt_cons_some found]
          exact nofun
        rw [← starts before (fun later _ => ownAt_cons_some found) here,
          ← ih (cons_ne_nil _ _), exists_map_eq_ok]
      · rename_i found
        have here : ownAt tree [segment] ≠ .whole := by
          rw [ownAt_cons_none found]
          exact nofun
        rw [← starts [] (fun later more => (ownAt_cons_none found).trans
          (ownAt_nil later more).symm) here, ← ih (cons_ne_nil _ _), exists_map_eq_ok]

/-- No path strictly continues another. -/
def PrefixFree (paths : List (List String)) : Prop :=
  ∀ path ∈ paths, ∀ other ∈ paths, path <+: other → path = other

structure Holds (tree : SelectionTree) (paths : List (List String)) : Prop where
  whole : ∀ path, path ≠ [] → (ownAt tree path = .whole ↔ path ∈ paths)
  narrowed : ∀ path, path ≠ [] →
    (ownAt tree path = .narrowed ↔ ∃ other ∈ paths, path <+: other ∧ path ≠ other)

theorem Holds.nil : Holds [] [] where
  whole path nonempty := by simp [nonempty]
  narrowed path nonempty := by simp [nonempty]

section Selecting

variable {tree after : SelectionTree} {paths : List (List String)}

variable {path : List String}

theorem Holds.prefixFree_iff (holds : Holds tree paths) (free : PrefixFree paths)
    (nonempty : ∀ path ∈ paths, path ≠ []) (more : path ≠ []) :
    PrefixFree (paths ++ [path]) ↔ ownAt tree path ≠ .narrowed ∧
      ∀ start, start ≠ [] → start <+: path → start ≠ path → ownAt tree start ≠ .whole := by
  constructor
  · intro free
    refine ⟨fun narrowed => ?_, fun start filled starts short whole => short ?_⟩
    · obtain ⟨other, listed, starts, different⟩ := (holds.narrowed path more).mp narrowed
      exact different (free path (by simp) other (mem_append_left _ listed) starts)
    · exact free start (mem_append_left _ ((holds.whole start filled).mp whole)) path
        (by simp) starts
  · rintro ⟨leaf, clear⟩ first here second there starts
    rw [mem_append, mem_singleton] at here there
    cases here with
    | inl here =>
      cases there with
      | inl there => exact free first here second there starts
      | inr same =>
        subst same
        refine by_contra fun different => clear first (nonempty first here) starts different ?_
        exact (holds.whole first (nonempty first here)).mpr here
    | inr same =>
      subst same
      cases there with
      | inl there =>
        exact by_contra fun different =>
          leaf ((holds.narrowed first more).mpr ⟨second, there, starts, different⟩)
      | inr same => exact same.symm

theorem Holds.select (holds : Holds tree paths) (more : path ≠ [])
    (clear : ownAt tree path ≠ .narrowed ∧
      ∀ start, start ≠ [] → start <+: path → start ≠ path → ownAt tree start ≠ .whole)
    (written : ∀ {other : List String}, other ≠ [] → ownAt after other =
      if other = path then .whole else if other <+: path then .narrowed else ownAt tree other) :
    Holds after (paths ++ [path]) := by
  constructor
  · intro other filled
    rw [written filled, mem_append, mem_singleton]
    by_cases same : other = path
    · simp [same]
    · rw [if_neg same, or_iff_left same, ← holds.whole other filled]
      by_cases starts : other <+: path
      · rw [if_pos starts]
        exact ⟨nofun, fun whole => absurd whole (clear.2 other filled starts same)⟩
      · rw [if_neg starts]
  · intro other filled
    rw [written filled]
    have before := holds.narrowed other filled
    by_cases same : other = path
    · subst same
      rw [if_pos rfl]
      refine ⟨nofun, fun ⟨next, listed, starts, different⟩ => ?_⟩
      rw [mem_append, mem_singleton] at listed
      exact absurd (before.mpr ⟨next, listed.resolve_right (Ne.symm different), starts, different⟩)
        clear.1
    · rw [if_neg same]
      by_cases starts : other <+: path
      · rw [if_pos starts]
        exact ⟨fun _ => ⟨path, by simp, starts, same⟩, fun _ => rfl⟩
      · rw [if_neg starts, before]
        refine exists_congr fun next => and_congr_left fun both => ?_
        rw [mem_append, mem_singleton]
        exact ⟨.inl, fun listed => listed.resolve_right fun same => starts (same ▸ both.1)⟩

theorem Holds.parse {entries : List String} : ∀ {tree : SelectionTree} {paths : List (List String)},
    Holds tree paths → PrefixFree paths → (∀ path ∈ paths, path ≠ []) →
    ((∃ after, entries.foldlM (fun tree entry => selectEntry entry "" (segments entry) tree) tree =
        .ok after) ↔ PrefixFree (paths ++ entries.map segments)) ∧
    ∀ after, entries.foldlM (fun tree entry => selectEntry entry "" (segments entry) tree) tree =
        .ok after → Holds after (paths ++ entries.map segments) := by
  induction entries with
  | nil =>
    intro tree paths holds free nonempty
    rw [map_nil, append_nil]
    exact ⟨⟨fun _ => free, fun _ => ⟨tree, rfl⟩⟩, fun after same => Except.ok.inj same ▸ holds⟩
  | cons entry rest ih =>
    intro tree paths holds free nonempty
    have more := segments_ne_nil entry
    have clear := holds.prefixFree_iff free nonempty more
    have able := @selectEntry_isOk_iff entry _ more "" tree
    have joined : paths ++ (entry :: rest).map segments =
        (paths ++ [segments entry]) ++ rest.map segments := by
      rw [map_cons, append_assoc, singleton_append]
    rw [foldlM_cons, joined]
    cases selected : selectEntry entry "" (segments entry) tree with
    | error reason =>
      refine ⟨⟨fun ⟨_, failed⟩ => (nomatch failed), fun free => ?_⟩,
        fun _ failed => (nomatch failed)⟩
      have narrower : PrefixFree (paths ++ [segments entry]) := fun first here second there =>
        free first (mem_append_left _ here) second (mem_append_left _ there)
      obtain ⟨after, made⟩ := able.mpr (clear.mp narrower)
      rw [selected] at made
      cases made
    | ok next =>
      have admitted := able.mp ⟨next, selected⟩
      exact ih (holds.select more admitted (ownAt_selectEntry more selected)) (clear.mpr admitted)
        fun path listed => (mem_append.mp listed).elim (nonempty path)
          fun same => mem_singleton.mp same ▸ more

end Selecting

/-- `parseSelection` accepts exactly the entries of which none extends another. -/
theorem parseSelection_isOk_iff {entries : List String} :
    (∃ tree, parseSelection entries = .ok tree) ↔
      ∀ path ∈ entries, ∀ other ∈ entries, ¬ Extends path other := by
  have parsed := (@Holds.parse entries [] [] .nil nofun nofun).1
  rw [nil_append] at parsed
  refine parsed.trans ⟨fun free path here other there extended => ?_, fun apart => ?_⟩
  · obtain ⟨starts, different⟩ := extends_iff.mp extended
    exact different (free _ (mem_map_of_mem here) _ (mem_map_of_mem there) starts)
  · intro first here second there starts
    obtain ⟨path, listed, rfl⟩ := mem_map.mp here
    obtain ⟨other, also, rfl⟩ := mem_map.mp there
    exact by_contra fun different => apart path listed other also (extends_iff.mpr ⟨starts, different⟩)

end Dinkster.Boundary
