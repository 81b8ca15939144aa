import Dinkster.Editor.Layout

/-!
# Editor layouts stay well formed

An operation changes the groups one by one, which may leave some of them empty, and then prunes
the empty ones.  What holds of the layout is said of its groups in reading order, so that the
tree matters only for the depth and the ratios.
-/

namespace Dinkster.Editor

open Library Layout List

/-! ## Trees and their groups -/

def Bounded : EditorLayoutNode → Prop
  | .group _ => True
  | .split _ ratio first second =>
    (splitRatioMin ≤ ratio ∧ ratio ≤ splitRatioMax) ∧ Bounded first ∧ Bounded second

def tabsOf (groups : List EditorGroup) : List String :=
  groups.flatMap EditorGroup.tabIds

@[simp] theorem tabsOf_nil : tabsOf [] = [] := rfl

@[simp] theorem tabsOf_cons (group : EditorGroup) (rest : List EditorGroup) :
    tabsOf (group :: rest) = group.tabIds ++ tabsOf rest := rfl

@[simp] theorem tabsOf_append (front back : List EditorGroup) :
    tabsOf (front ++ back) = tabsOf front ++ tabsOf back := flatMap_append

variable {groups : List EditorGroup} {node : EditorLayoutNode} {layout : EditorLayout}
    {tabId : String}

theorem mem_tabsOf {id : String} :
    id ∈ tabsOf groups ↔ ∃ group ∈ groups, id ∈ group.tabIds := mem_flatMap

theorem layoutGroups_ne_nil (node : EditorLayoutNode) : layoutGroups node ≠ [] := by
  induction node with
  | group group => exact cons_ne_nil _ _
  | split direction ratio first second ih _ =>
    intro empty
    exact ih (append_eq_nil_iff.mp empty).1

theorem layoutGroups_mapGroups (fn : EditorGroup → EditorLayoutNode) (node : EditorLayoutNode) :
    layoutGroups (mapGroups fn node) = (layoutGroups node).flatMap fun group =>
      layoutGroups (fn group) := by
  induction node with
  | group group => exact (flatMap_singleton ..).symm
  | split direction ratio first second left right =>
    change layoutGroups (mapGroups fn first) ++ layoutGroups (mapGroups fn second) =
      (layoutGroups first ++ layoutGroups second).flatMap _
    rw [left, right, flatMap_append]

theorem layoutGroups_map (change : EditorGroup → EditorGroup) (node : EditorLayoutNode) :
    layoutGroups (mapGroups (fun group => .group (change group)) node) =
      (layoutGroups node).map change := by
  rw [layoutGroups_mapGroups, map_eq_flatMap]
  rfl

theorem splitDepth_map (change : EditorGroup → EditorGroup) (node : EditorLayoutNode) :
    splitDepth (mapGroups (fun group => .group (change group)) node) = splitDepth node := by
  induction node with
  | group group => rfl
  | split direction ratio first second left right =>
    unfold mapGroups splitDepth
    rw [left, right]

theorem Bounded.mapGroups (bounded : Bounded node) {fn : EditorGroup → EditorLayoutNode}
    (each : ∀ group, Bounded (fn group)) : Bounded (mapGroups fn node) := by
  induction node with
  | group group => exact each group
  | split direction ratio first second left right =>
    exact ⟨bounded.1, left bounded.2.1, right bounded.2.2⟩

theorem pruneNode_spec (node : EditorLayoutNode) :
    match pruneNode node with
    | none => (layoutGroups node).filter (·.tabIds ≠ []) = []
    | some pruned =>
      layoutGroups pruned = (layoutGroups node).filter (·.tabIds ≠ []) ∧
        splitDepth pruned ≤ splitDepth node ∧ (Bounded node → Bounded pruned) := by
  induction node with
  | group group =>
    unfold pruneNode
    by_cases empty : group.tabIds = []
    all_goals simp [empty, layoutGroups]
  | split direction ratio first second left right =>
    unfold pruneNode
    rw [layoutGroups, filter_append]
    cases pruned_first : pruneNode first with
    | none =>
      rw [pruned_first] at left
      dsimp only at left ⊢
      rw [left, nil_append]
      cases pruned_second : pruneNode second with
      | none =>
        rw [pruned_second] at right
        exact right
      | some other =>
        rw [pruned_second] at right
        obtain ⟨groups, depth, bounded⟩ := right
        refine ⟨groups, depth.trans ?_, fun both => bounded both.2.2⟩
        exact (le_max_right _ _).trans (Nat.le_add_left _ 1)
    | some one =>
      rw [pruned_first] at left
      obtain ⟨groups, depth, bounded⟩ := left
      cases pruned_second : pruneNode second with
      | none =>
        rw [pruned_second] at right
        dsimp only at right ⊢
        rw [right, append_nil]
        refine ⟨groups, depth.trans ?_, fun both => bounded both.2.1⟩
        exact (le_max_left _ _).trans (Nat.le_add_left _ 1)
      | some other =>
        rw [pruned_second] at right
        obtain ⟨groups', depth', bounded'⟩ := right
        refine ⟨?_, ?_, fun both => ⟨both.1, bounded both.2.1, bounded' both.2.2⟩⟩
        · rw [layoutGroups, groups, groups']
        · exact Nat.add_le_add_left (max_le_max depth depth') 1

theorem tabsOf_filter (groups : List EditorGroup) :
    tabsOf (groups.filter (·.tabIds ≠ [])) = tabsOf groups := by
  induction groups with
  | nil => rfl
  | cons group groups ih =>
    by_cases empty : group.tabIds = []
    · rw [filter_cons_of_neg (by simpa using empty), ih, tabsOf_cons, empty, nil_append]
    · rw [filter_cons_of_pos (by simpa using empty), tabsOf_cons, tabsOf_cons, ih]

structure WellFormed (layout : EditorLayout) : Prop where
  ids : ((layoutGroups layout.root).map EditorGroup.id).Nodup
  tabs : (tabsOf (layoutGroups layout.root)).Nodup
  active : ∀ group ∈ layoutGroups layout.root,
    group.activeTabId ∈ group.tabIds ∨ group.tabIds = [] ∧ group.activeTabId = ""
  occupied : ∀ group ∈ layoutGroups layout.root, group.tabIds = [] → layout.root = .group group
  focused : layout.focusedGroupId ∈ (layoutGroups layout.root).map EditorGroup.id
  bounded : Bounded layout.root
  depth : splitDepth layout.root ≤ maxSplitDepth

/-- A tree before its empty groups are pruned, with a group that is to be focused. -/
structure Loose (node : EditorLayoutNode) (focus : String) : Prop where
  ids : ((layoutGroups node).map EditorGroup.id).Nodup
  tabs : (tabsOf (layoutGroups node)).Nodup
  active : ∀ group ∈ layoutGroups node, group.tabIds ≠ [] → group.activeTabId ∈ group.tabIds
  focused : ∃ group ∈ layoutGroups node, group.tabIds ≠ [] ∧ group.id = focus
  bounded : Bounded node

variable {focus : String} {group target : EditorGroup}

/-- Pruning a loose tree makes a layout of it, unless the tree is too deep. -/
theorem Loose.prune (loose : Loose node focus) : ∃ pruned, pruneNode node = some pruned ∧
      layoutGroups pruned = (layoutGroups node).filter (·.tabIds ≠ []) ∧
      splitDepth pruned ≤ splitDepth node ∧
      (splitDepth pruned ≤ maxSplitDepth → WellFormed ⟨pruned, focus⟩) := by
  obtain ⟨chosen, listed, full, named⟩ := loose.focused
  have kept : chosen ∈ (layoutGroups node).filter (·.tabIds ≠ []) :=
    mem_filter.mpr ⟨listed, decide_eq_true full⟩
  have spec := pruneNode_spec node
  cases result : pruneNode node with
  | none =>
    rw [result] at spec
    dsimp only at spec
    rw [spec] at kept
    cases kept
  | some pruned =>
    rw [result] at spec
    obtain ⟨groups, depth, bounded⟩ := spec
    refine ⟨pruned, rfl, groups, depth, fun shallow => ?_⟩
    have members : ∀ group ∈ layoutGroups pruned, group ∈ layoutGroups node ∧ group.tabIds ≠ [] := by
      intro group inside
      rw [groups] at inside
      obtain ⟨inside, nonempty⟩ := mem_filter.mp inside
      exact ⟨inside, of_decide_eq_true nonempty⟩
    refine ⟨?_, ?_, ?_, ?_, ?_, bounded loose.bounded, shallow⟩
    · rw [groups]
      exact loose.ids.sublist (List.Sublist.map _ filter_sublist)
    · rw [groups, tabsOf_filter]
      exact loose.tabs
    · exact fun group inside => .inl (loose.active group (members group inside).1
        (members group inside).2)
    · exact fun group inside empty => absurd empty (members group inside).2
    · rw [groups]
      exact mem_map.mpr ⟨chosen, kept, named⟩

theorem restoreFocus_eq {root : EditorLayoutNode}
    (there : focus ∈ (layoutGroups root).map EditorGroup.id) :
    restoreFocus root focus = ⟨root, focus⟩ := by
  obtain ⟨group, listed, named⟩ := mem_map.mp there
  unfold restoreFocus
  dsimp only
  rw [if_pos (any_eq_true.mpr ⟨group, listed, decide_eq_true named⟩)]

/-- An operation keeps a layout well formed and its tabs the same. -/
structure Keeps (layout next : EditorLayout) : Prop where
  wellFormed : WellFormed next
  tabs : ∀ id, id ∈ tabsOf (layoutGroups next.root) ↔ id ∈ tabsOf (layoutGroups layout.root)

theorem Keeps.refl (ok : WellFormed layout) : Keeps layout layout :=
  ⟨ok, fun _ => Iff.rfl⟩

/-- An operation that ends by pruning a loose tree that is no deeper. -/
theorem Loose.keeps (ok : WellFormed layout) (loose : Loose node focus)
    (depth : splitDepth node ≤ splitDepth layout.root)
    (tabs : ∀ id, id ∈ tabsOf (layoutGroups node) ↔ id ∈ tabsOf (layoutGroups layout.root)) :
    Keeps layout (match pruneNode node with
      | some pruned => restoreFocus pruned focus
      | none => layout) := by
  obtain ⟨pruned, result, groups, shallower, wellFormed⟩ := loose.prune
  have next := wellFormed (shallower.trans (depth.trans ok.depth))
  rw [result]
  dsimp only
  rw [restoreFocus_eq next.focused]
  refine ⟨next, fun id => ?_⟩
  dsimp only
  rw [groups, tabsOf_filter]
  exact tabs id

theorem findGroup_eq_some {id : String} (found : findGroup layout id = some group) :
    group ∈ layoutGroups layout.root ∧ group.id = id :=
  ⟨mem_of_find?_eq_some found, by simpa using find?_some found⟩

theorem sourceOf_eq_some (found : sourceOf layout tabId = some group) :
    group ∈ layoutGroups layout.root ∧ tabId ∈ group.tabIds :=
  ⟨mem_of_find?_eq_some found, by simpa using find?_some found⟩

theorem map_at {Result : Type} (ids : (groups.map EditorGroup.id).Nodup) {chosen : EditorGroup}
    (listed : chosen ∈ groups) (there elsewhere : EditorGroup → Result) :
    ∃ front back, groups = front ++ chosen :: back ∧
      groups.map (fun group => if group.id = chosen.id then there group else elsewhere group) =
        front.map elsewhere ++ there chosen :: back.map elsewhere := by
  obtain ⟨front, back, rfl⟩ := append_of_mem listed
  refine ⟨front, back, rfl, ?_⟩
  rw [map_append, map_cons] at ids
  obtain ⟨_, rest, apart⟩ := nodup_append.mp ids
  rw [map_append, map_cons, if_pos rfl]
  congr 1
  · refine map_congr_left fun group before => if_neg fun same => ?_
    exact apart group.id (mem_map_of_mem before) chosen.id mem_cons_self same
  · congr 1
    refine map_congr_left fun group behind => if_neg fun same => ?_
    exact (nodup_cons.mp rest).1 (same ▸ mem_map_of_mem behind)

theorem map_id_eq {change : EditorGroup → EditorGroup}
    (same : ∀ group, (change group).id = group.id) :
    (groups.map change).map EditorGroup.id = groups.map EditorGroup.id := by
  rw [map_map]
  exact map_congr_left fun group _ => same group

/-! ## Changes within one group -/

theorem eq_of_id (ids : (groups.map EditorGroup.id).Nodup) {first second : EditorGroup}
    (left : first ∈ groups) (right : second ∈ groups) (same : first.id = second.id) :
    first = second :=
  inj_on_of_nodup_map ids left right same

def ActiveOk (group : EditorGroup) : Prop :=
  group.activeTabId ∈ group.tabIds ∨ group.tabIds = [] ∧ group.activeTabId = ""

section

variable (ok : WellFormed layout)

include ok

theorem WellFormed.change {chosen : EditorGroup} (listed : chosen ∈ layoutGroups layout.root)
    {change : EditorGroup → EditorGroup} (named : ∀ group, (change group).id = group.id)
    (tabs : (change chosen).tabIds.Perm chosen.tabIds)
    (active : ActiveOk chosen → ActiveOk (change chosen)) : Keeps layout { layout with
      root := mapGroups (fun group => .group
        (if group.id = chosen.id then change group else group)) layout.root } := by
  obtain ⟨front, back, split, mapped⟩ := map_at ok.ids listed change id
  rw [map_id_fun, id, id] at mapped
  have groups := layoutGroups_map
    (fun group => if group.id = chosen.id then change group else group) layout.root
  have ids : (layoutGroups (mapGroups (fun group => .group
      (if group.id = chosen.id then change group else group)) layout.root)).map EditorGroup.id =
        (layoutGroups layout.root).map EditorGroup.id := by
    rw [groups]
    refine map_id_eq fun group => ?_
    split
    · exact named group
    · rfl
  have perm : (tabsOf (layoutGroups (mapGroups (fun group => .group
      (if group.id = chosen.id then change group else group)) layout.root))).Perm
        (tabsOf (layoutGroups layout.root)) := by
    rw [groups, show (fun group => if group.id = chosen.id then change group else group) =
      fun group => if group.id = chosen.id then change group else id group from rfl, mapped, split,
      tabsOf_append, tabsOf_append, tabsOf_cons, tabsOf_cons]
    exact (tabs.append_right _).append_left _
  refine ⟨⟨?_, ?_, ?_, ?_, ?_, ?_, ?_⟩, fun id => perm.mem_iff⟩
  · exact ids ▸ ok.ids
  · exact perm.nodup_iff.mpr ok.tabs
  · intro group inside
    rw [groups] at inside
    obtain ⟨before, there, rfl⟩ := mem_map.mp inside
    split
    · rename_i same
      rw [eq_of_id ok.ids there listed same]
      exact active (ok.active chosen listed)
    · exact ok.active before there
  · intro group inside empty
    rw [groups] at inside
    obtain ⟨before, there, rfl⟩ := mem_map.mp inside
    have was_empty : before.tabIds = [] := by
      split at empty
      · rename_i same
        rw [eq_of_id ok.ids there listed same] at empty ⊢
        exact perm_nil.mp (empty ▸ tabs.symm)
      · exact empty
    rw [ok.occupied before there was_empty]
    rfl
  · exact ids ▸ ok.focused
  · exact ok.bounded.mapGroups fun _ => trivial
  · exact (splitDepth_map _ _).trans_le ok.depth

theorem setActiveTab_keeps (groupId tabId : String) :
    Keeps layout (setActiveTab layout groupId tabId) := by
  unfold setActiveTab
  split
  · exact .refl ok
  · rename_i group found
    obtain ⟨listed, rfl⟩ := findGroup_eq_some found
    split
    · exact .refl ok
    · rename_i inside
      exact ok.change listed (fun _ => rfl) (List.Perm.refl _) fun _ => .inl (not_not.mp inside)

theorem setGroupTabOrder_keeps (groupId : String) (order : List String) :
    Keeps layout (setGroupTabOrder layout groupId order) := by
  unfold setGroupTabOrder
  split
  · exact .refl ok
  · rename_i group found
    obtain ⟨listed, rfl⟩ := findGroup_eq_some found
    split
    · exact .refl ok
    · rename_i length
      split
      · exact .refl ok
      · rename_i accepted
        obtain ⟨inside, once⟩ := not_or.mp accepted
        have subset : order ⊆ group.tabIds := fun id there =>
          of_decide_eq_true (all_eq_true.mp (not_not.mp inside) id there)
        have perm : order.Perm group.tabIds :=
          (subperm_of_subset (not_not.mp once) subset).perm_of_length_le
            (not_not.mp length).ge
        refine ok.change listed (fun _ => rfl) perm fun active => ?_
        cases active with
        | inl there => exact .inl (perm.mem_iff.mpr there)
        | inr none_there =>
          refine .inr ⟨?_, none_there.2⟩
          exact perm_nil.mp (none_there.1 ▸ perm)

theorem focusGroup_keeps (groupId : String) : Keeps layout (focusGroup layout groupId) := by
  unfold focusGroup
  split
  · exact .refl ok
  · rename_i group found
    obtain ⟨listed, rfl⟩ := findGroup_eq_some found
    exact ⟨{ ok with focused := mem_map_of_mem listed }, fun _ => Iff.rfl⟩

end

theorem clampSplitRatio_bounds (ratio : Option Rat) :
    splitRatioMin ≤ clampSplitRatio ratio ∧ clampSplitRatio ratio ≤ splitRatioMax := by
  cases ratio with
  | none => decide +kernel
  | some ratio => exact ⟨le_min (by decide +kernel) (le_max_left _ _), min_le_left _ _⟩

/-- A changed ratio changes neither the groups nor the depth. -/
theorem rebuild_spec (ratio : Option Rat) (node : EditorLayoutNode) :
    ∀ {path : List SplitChild} {next : EditorLayoutNode}, rebuild ratio node path = some next →
      layoutGroups next = layoutGroups node ∧ splitDepth next = splitDepth node ∧
        (Bounded node → Bounded next) ∧ ∀ group, node ≠ .group group := by
  induction node with
  | group group =>
    intro path next rebuilt
    cases rebuilt
  | split direction old first second left right =>
    intro path next rebuilt
    cases path with
    | nil =>
      cases rebuilt
      exact ⟨rfl, rfl, fun bounded => ⟨clampSplitRatio_bounds ratio, bounded.2⟩, nofun⟩
    | cons child path =>
      cases child with
      | first =>
        obtain ⟨child, inside, rfl⟩ := Option.map_eq_some_iff.mp rebuilt
        obtain ⟨groups, depth, bounded, _⟩ := left inside
        refine ⟨?_, ?_, fun both => ⟨both.1, bounded both.2.1, both.2.2⟩, nofun⟩
        · rw [layoutGroups, groups, layoutGroups]
        · rw [splitDepth, depth, splitDepth]
      | second =>
        obtain ⟨child, inside, rfl⟩ := Option.map_eq_some_iff.mp rebuilt
        obtain ⟨groups, depth, bounded, _⟩ := right inside
        refine ⟨?_, ?_, fun both => ⟨both.1, both.2.1, bounded both.2.2⟩, nofun⟩
        · rw [layoutGroups, groups, layoutGroups]
        · rw [splitDepth, depth, splitDepth]

theorem setSplitRatioAt_keeps (ok : WellFormed layout) (path : List SplitChild)
    (ratio : Option Rat) : Keeps layout (setSplitRatioAt layout path ratio) := by
  unfold setSplitRatioAt
  split
  · exact .refl ok
  · rename_i root rebuilt
    obtain ⟨groups, depth, bounded, not_group⟩ := rebuild_spec ratio layout.root rebuilt
    refine ⟨⟨?_, ?_, ?_, ?_, ?_, bounded ok.bounded, depth.trans_le ok.depth⟩, fun id => ?_⟩
    · exact groups ▸ ok.ids
    · exact groups ▸ ok.tabs
    · exact groups ▸ ok.active
    · intro group inside empty
      exact absurd (ok.occupied group (groups ▸ inside) empty) (not_group group)
    · exact groups ▸ ok.focused
    · exact iff_of_eq (by rw [groups])

theorem activeAfterRemoval_mem {tabIds : List String} {removed active : String}
    (inside : active ∈ tabIds) (full : tabIds.filter (· ≠ removed) ≠ []) :
    activeAfterRemoval tabIds removed active ∈ tabIds.filter (· ≠ removed) := by
  unfold activeAfterRemoval
  dsimp only
  split
  · rename_i other
    exact mem_filter.mpr ⟨inside, decide_eq_true other⟩
  · have positive := length_pos_iff.mpr full
    have within : min (tabIds.idxOf removed) ((tabIds.filter (· ≠ removed)).length - 1) <
        (tabIds.filter (· ≠ removed)).length := by
      omega
    rw [getElem?_eq_getElem within, Option.getD_some]
    exact getElem_mem within

@[simp] theorem withoutTab_id (tabId : String) (group : EditorGroup) :
    (withoutTab tabId group).id = group.id := by
  unfold withoutTab
  split <;> rfl

@[simp] theorem withoutTab_tabIds (tabId : String) (group : EditorGroup) :
    (withoutTab tabId group).tabIds = group.tabIds.filter (· ≠ tabId) := by
  unfold withoutTab
  split
  · rfl
  · rename_i missing
    exact (filter_ne_of_notMem missing).symm

theorem withoutTab_active (active : ActiveOk group) (full : (withoutTab tabId group).tabIds ≠ []) :
    (withoutTab tabId group).activeTabId ∈ (withoutTab tabId group).tabIds := by
  rw [withoutTab_tabIds] at full ⊢
  have inside : group.activeTabId ∈ group.tabIds := by
    cases active with
    | inl inside => exact inside
    | inr empty =>
      rw [empty.1] at full
      exact absurd rfl full
  unfold withoutTab
  split
  · exact activeAfterRemoval_mem inside full
  · rename_i missing
    rw [filter_ne_of_notMem missing]
    exact inside

theorem tabsOf_map_withoutTab (tabId : String) (groups : List EditorGroup) :
    tabsOf (groups.map (withoutTab tabId)) = (tabsOf groups).filter (· ≠ tabId) := by
  induction groups with
  | nil => rfl
  | cons group groups ih =>
    rw [map_cons, tabsOf_cons, tabsOf_cons, filter_append, ih, withoutTab_tabIds]

variable {next tabs : List String} {source : EditorGroup}

/-- A tab that is taken out and put back somewhere. -/
theorem moved_mem (inside : tabId ∈ tabs) (perm : next.Perm (tabId :: tabs.filter (· ≠ tabId)))
    (id : String) : id ∈ next ↔ id ∈ tabs := by
  rw [perm.mem_iff, mem_cons, mem_filter]
  constructor
  · rintro (rfl | ⟨there, _⟩)
    · exact inside
    · exact there
  · intro there
    by_cases same : id = tabId
    · exact .inl same
    · exact .inr ⟨there, decide_eq_true same⟩

theorem moved_nodup (once : tabs.Nodup) (perm : next.Perm (tabId :: tabs.filter (· ≠ tabId))) :
    next.Nodup := by
  refine perm.nodup_iff.mpr (nodup_cons.mpr ⟨fun listed => ?_, once.filter _⟩)
  exact of_decide_eq_true (mem_filter.mp listed).2 rfl

theorem moveTabToGroup_keeps (ok : WellFormed layout) (tabId targetGroupId : String)
    (index : Option Rat) : Keeps layout (moveTabToGroup layout tabId targetGroupId index) := by
  unfold moveTabToGroup
  split
  · rename_i target source found_target found_source
    obtain ⟨target_listed, rfl⟩ := findGroup_eq_some found_target
    obtain ⟨source_listed, inside⟩ := sourceOf_eq_some found_source
    split
    · exact .refl ok
    · have present : tabId ∈ tabsOf (layoutGroups layout.root) :=
        mem_tabsOf.mpr ⟨source, source_listed, inside⟩
      obtain ⟨front, back, split, mapped⟩ :=
        map_at ok.ids target_listed (withTab tabId index) (withoutTab tabId)
      have groups := layoutGroups_map (fun group => if group.id = target.id
        then withTab tabId index group else withoutTab tabId group) layout.root
      have inserted := insertTab_perm (target.tabIds.filter (· ≠ tabId)) tabId index
      have perm : (tabsOf (layoutGroups (mapGroups (fun group => .group (if group.id = target.id
          then withTab tabId index group else withoutTab tabId group)) layout.root))).Perm
            (tabId :: (tabsOf (layoutGroups layout.root)).filter (· ≠ tabId)) := by
        rw [groups, mapped, split, tabsOf_append, tabsOf_append, tabsOf_cons, tabsOf_cons,
          tabsOf_map_withoutTab, tabsOf_map_withoutTab, filter_append, filter_append]
        exact ((inserted.append_right _).append_left _).trans perm_middle
      have loose : Loose (mapGroups (fun group => .group (if group.id = target.id
          then withTab tabId index group else withoutTab tabId group)) layout.root) target.id := by
        refine ⟨?_, moved_nodup ok.tabs perm, ?_, ?_, ok.bounded.mapGroups fun _ => trivial⟩
        · rw [groups, map_id_eq]
          · exact ok.ids
          · intro group
            split
            · rfl
            · exact withoutTab_id tabId group
        · intro group there full
          rw [groups] at there
          obtain ⟨before, listed, rfl⟩ := mem_map.mp there
          by_cases here : before.id = target.id
          · rw [if_pos here]
            exact (insertTab_perm _ tabId index).mem_iff.mpr mem_cons_self
          · rw [if_neg here] at full ⊢
            exact withoutTab_active (ok.active before listed) full
        · refine ⟨withTab tabId index target, ?_, ?_, rfl⟩
          · rw [groups]
            exact mem_map.mpr ⟨target, target_listed, if_pos rfl⟩
          · exact ne_nil_of_mem (inserted.mem_iff.mpr mem_cons_self)
      exact loose.keeps ok (splitDepth_map _ _).le (moved_mem present perm)
  · exact .refl ok

/-! ## Splitting -/

theorem nextGroupId_fresh (layout : EditorLayout) :
    nextGroupId layout ∉ (layoutGroups layout.root).map EditorGroup.id := by
  refine form_firstFree_not_mem ?_ _
  intro first second same
  have numbers : toString (first + 1) = toString (second + 1) :=
    String.append_right_inj "group-" |>.mp same
  exact Nat.succ_injective (decimal_injective numbers)

theorem layoutGroups_splitOff (direction : SplitDirection) (position : SplitChild)
    (created group : EditorGroup) :
    layoutGroups (splitOff direction position created group) = [created, group] ∨
      layoutGroups (splitOff direction position created group) = [group, created] := by
  cases position with
  | first => exact .inl rfl
  | second => exact .inr rfl

theorem splitGroup_loose (ok : WellFormed layout)
    (present : tabId ∈ tabsOf (layoutGroups layout.root))
    (listed : target ∈ layoutGroups layout.root) (direction : SplitDirection)
    (position : SplitChild) {newId : String}
    (fresh : newId ∉ (layoutGroups layout.root).map EditorGroup.id) :
    ∃ node, node = mapGroups (fun group => if group.id = target.id
        then splitOff direction position ⟨newId, [tabId], tabId⟩ group else .group group)
        (mapGroups (fun group => .group (withoutTab tabId group)) layout.root) ∧ Loose node newId ∧
      ∀ id, id ∈ tabsOf (layoutGroups node) ↔ id ∈ tabsOf (layoutGroups layout.root) := by
  refine ⟨_, rfl, ?_⟩
  have ids : ((layoutGroups layout.root).map (withoutTab tabId)).map EditorGroup.id =
      (layoutGroups layout.root).map EditorGroup.id := map_id_eq (withoutTab_id tabId)
  have there := mem_map_of_mem (f := withoutTab tabId) listed
  obtain ⟨front, back, split, mapped⟩ := map_at (ids ▸ ok.ids) there
    (fun group => layoutGroups (splitOff direction position ⟨newId, [tabId], tabId⟩ group))
    (fun group => [group])
  have groups : layoutGroups (mapGroups (fun group => if group.id = target.id
      then splitOff direction position ⟨newId, [tabId], tabId⟩ group else .group group)
      (mapGroups (fun group => .group (withoutTab tabId group)) layout.root)) =
        front ++ (layoutGroups (splitOff direction position ⟨newId, [tabId], tabId⟩
          (withoutTab tabId target)) ++ back) := by
    rw [layoutGroups_mapGroups, layoutGroups_map, flatMap_def]
    have pieces : (fun group : EditorGroup => layoutGroups (if group.id = target.id
        then splitOff direction position ⟨newId, [tabId], tabId⟩ group else .group group)) =
          fun group => if group.id = (withoutTab tabId target).id
            then layoutGroups (splitOff direction position ⟨newId, [tabId], tabId⟩ group)
            else [group] := by
      funext group
      rw [withoutTab_id]
      split <;> rfl
    rw [pieces, mapped, flatten_append, flatten_cons, ← flatMap_def,
      ← flatMap_def, flatMap_singleton', flatMap_singleton']
  have perm : (layoutGroups (mapGroups (fun group => if group.id = target.id
      then splitOff direction position ⟨newId, [tabId], tabId⟩ group else .group group)
      (mapGroups (fun group => .group (withoutTab tabId group)) layout.root))).Perm
        (⟨newId, [tabId], tabId⟩ :: (layoutGroups layout.root).map (withoutTab tabId)) := by
    rw [groups, split]
    refine List.Perm.trans ?_ perm_middle
    refine List.Perm.append_left front ?_
    cases layoutGroups_splitOff direction position ⟨newId, [tabId], tabId⟩
        (withoutTab tabId target) with
    | inl before =>
      rw [before]
      exact List.Perm.refl _
    | inr behind =>
      rw [behind]
      exact List.Perm.swap _ _ _
  have tabs : (tabsOf (layoutGroups (mapGroups (fun group => if group.id = target.id
      then splitOff direction position ⟨newId, [tabId], tabId⟩ group else .group group)
      (mapGroups (fun group => .group (withoutTab tabId group)) layout.root)))).Perm
        (tabId :: (tabsOf (layoutGroups layout.root)).filter (· ≠ tabId)) := by
    rw [← tabsOf_map_withoutTab]
    exact perm.flatMap_right EditorGroup.tabIds
  refine ⟨⟨?_, moved_nodup ok.tabs tabs, ?_, ?_, ?_⟩, moved_mem present tabs⟩
  · refine (perm.map EditorGroup.id).nodup_iff.mpr (nodup_cons.mpr ⟨?_, ?_⟩)
    · exact ids ▸ fresh
    · exact ids ▸ ok.ids
  · intro group inside full
    cases mem_cons.mp (perm.mem_iff.mp inside) with
    | inl created =>
      rw [created]
      exact mem_singleton_self tabId
    | inr old =>
      obtain ⟨before, listed, rfl⟩ := mem_map.mp old
      exact withoutTab_active (ok.active before listed) full
  · exact ⟨⟨newId, [tabId], tabId⟩, perm.mem_iff.mpr mem_cons_self, cons_ne_nil _ _, rfl⟩
  · have inner : Bounded (mapGroups (fun group => .group (withoutTab tabId group)) layout.root) :=
      ok.bounded.mapGroups fun _ => trivial
    refine inner.mapGroups fun group => ?_
    split
    · have bounds : splitRatioMin ≤ 1 / 2 ∧ (1 / 2 : Rat) ≤ splitRatioMax := by decide +kernel
      cases position with
      | first | second => exact ⟨bounds, trivial, trivial⟩
    · trivial

theorem splitGroup_keeps (ok : WellFormed layout) (groupId : String) (direction : SplitDirection)
    (tabId : String) (position : SplitChild) :
    Keeps layout (splitGroup layout groupId direction tabId position) := by
  unfold splitGroup
  split
  · rename_i target source found_target found_source
    obtain ⟨target_listed, rfl⟩ := findGroup_eq_some found_target
    obtain ⟨source_listed, inside⟩ := sourceOf_eq_some found_source
    split
    · exact .refl ok
    · have present : tabId ∈ tabsOf (layoutGroups layout.root) :=
        mem_tabsOf.mpr ⟨source, source_listed, inside⟩
      obtain ⟨node, same, loose, tabs⟩ := splitGroup_loose ok present target_listed direction
        position (nextGroupId_fresh layout)
      obtain ⟨pruned, result, groups, _, wellFormed⟩ := loose.prune
      dsimp only
      rw [← same, result]
      dsimp only
      split
      · exact .refl ok
      · rename_i shallow
        refine ⟨wellFormed (not_lt.mp shallow), fun id => ?_⟩
        dsimp only
        rw [groups, tabsOf_filter]
        exact tabs id
  · exact .refl ok

/-! ## Dissolving -/

/-- A group after its neighbour has taken over its tabs, or the neighbour, or another group. -/
def handed (source target group : EditorGroup) : EditorGroup :=
  if group.id = target.id then merged source group
  else if group.id = source.id then { group with tabIds := [], activeTabId := "" }
  else group

theorem handed_id (source target group : EditorGroup) :
    (handed source target group).id = group.id := by
  unfold handed
  split
  · rfl
  · split <;> rfl

/-- A group takes over the tabs of its neighbour, which becomes empty. -/
theorem dissolve_loose (ok : WellFormed layout) {front back : List EditorGroup}
    (split : layoutGroups layout.root = front ++ source :: target :: back ∨
      layoutGroups layout.root = front ++ target :: source :: back) :
    ∃ node, node = mapGroups (fun group => .group (if group.id = target.id then merged source group
        else if group.id = source.id then { group with tabIds := [], activeTabId := "" }
        else group)) layout.root ∧ Loose node target.id ∧
      ∀ id, id ∈ tabsOf (layoutGroups node) ↔ id ∈ tabsOf (layoutGroups layout.root) := by
  refine ⟨mapGroups (fun group => .group (handed source target group)) layout.root, rfl, ?_⟩
  have shape : (layoutGroups layout.root).Perm (source :: target :: (front ++ back)) := by
    cases split with
    | inl after => exact after ▸ perm_middle.trans (.cons _ perm_middle)
    | inr before =>
      exact before ▸ (perm_middle.trans (.cons _ perm_middle)).trans (.swap _ _ _)
  have target_listed := shape.mem_iff.mpr (mem_cons_of_mem source mem_cons_self)
  obtain ⟨source_fresh, rest⟩ := nodup_cons.mp ((shape.map EditorGroup.id).nodup_iff.mp ok.ids)
  have target_fresh := (nodup_cons.mp rest).1
  have apart : source.id ≠ target.id := fun same => source_fresh (same ▸ mem_cons_self)
  have active : ∀ group ∈ layoutGroups layout.root, group.activeTabId ∈ group.tabIds := by
    intro group listed
    refine (ok.active group listed).resolve_right fun empty => ?_
    have whole := shape.length_eq
    rw [ok.occupied group listed empty.1] at whole
    simp [layoutGroups] at whole
  have groups := layoutGroups_map (handed source target) layout.root
  -- The other groups are left alone, and between the two the tabs only change hands.
  have others : (front ++ back).map (handed source target) = front ++ back := by
    refine (map_congr_left fun group inside => ?_).trans (map_id _)
    have known := mem_map_of_mem (f := EditorGroup.id) inside
    have not_target : group.id ≠ target.id := fun same => target_fresh (same ▸ known)
    have not_source : group.id ≠ source.id := fun same =>
      source_fresh (mem_cons_of_mem _ (same ▸ known))
    unfold handed
    rw [if_neg not_target, if_neg not_source]
    rfl
  have perm : (tabsOf ((layoutGroups layout.root).map (handed source target))).Perm
      (tabsOf (layoutGroups layout.root)) := by
    refine ((shape.map (handed source target)).flatMap_right EditorGroup.tabIds).trans
      (.trans ?_ (shape.flatMap_right EditorGroup.tabIds).symm)
    have source_handed : (handed source target source).tabIds = [] := by
      unfold handed
      rw [if_neg apart, if_pos rfl]
    have target_handed : handed source target target = merged source target := if_pos rfl
    rw [map_cons, map_cons, others, flatMap_cons, flatMap_cons,
      flatMap_cons, flatMap_cons, source_handed, target_handed, nil_append, ← append_assoc]
    exact perm_append_comm.append_right _
  rw [← groups] at perm
  refine ⟨⟨?_, perm.nodup_iff.mpr ok.tabs, ?_, ?_, ok.bounded.mapGroups fun _ => trivial⟩,
    fun id => perm.mem_iff⟩
  · rw [groups, map_id_eq (handed_id source target)]
    exact ok.ids
  · intro group inside full
    rw [groups] at inside
    obtain ⟨before, listed, rfl⟩ := mem_map.mp inside
    unfold handed at full ⊢
    by_cases taken : before.id = target.id
    · rw [if_pos taken]
      unfold merged
      dsimp only
      split
      · exact mem_append_right _ (active source (shape.mem_iff.mpr mem_cons_self))
      · exact mem_append_left _ (active before listed)
    · rw [if_neg taken] at full ⊢
      by_cases given : before.id = source.id
      · rw [if_pos given] at full
        exact absurd rfl full
      · rw [if_neg given]
        exact active before listed
  · refine ⟨merged source target, ?_, ?_, rfl⟩
    · rw [groups]
      exact mem_map.mpr ⟨target, target_listed, if_pos rfl⟩
    · exact append_ne_nil_of_left_ne_nil (ne_nil_of_mem (active target target_listed)) _

/-- A group and the one before it, or the second one where it is the first. -/
theorem neighbour {index : Nat} (here : groups[index]? = some source)
    (there : groups[if index = 0 then 1 else index - 1]? = some target) :
    ∃ front back, groups = front ++ source :: target :: back ∨
      groups = front ++ target :: source :: back := by
  cases index with
  | zero =>
    cases groups with
    | nil => cases here
    | cons first rest =>
      cases rest with
      | nil => cases there
      | cons second rest =>
        cases here
        cases there
        exact ⟨[], rest, .inl rfl⟩
  | succ index =>
    rw [if_neg (Nat.succ_ne_zero index), Nat.add_sub_cancel] at there
    obtain ⟨within, rfl⟩ := List.getElem?_eq_some_iff.mp here
    obtain ⟨_, rfl⟩ := List.getElem?_eq_some_iff.mp there
    refine ⟨groups.take index, groups.drop (index + 1 + 1), .inr ?_⟩
    rw [getElem_cons_drop, getElem_cons_drop, take_append_drop]

theorem dissolveGroup_keeps (ok : WellFormed layout) (groupId : String) :
    Keeps layout (dissolveGroup layout groupId) := by
  unfold dissolveGroup
  dsimp only
  split
  · exact .refl ok
  · split
    · exact .refl ok
    · split
      · rename_i source target here there
        obtain ⟨front, back, split⟩ := neighbour here there
        obtain ⟨node, same, loose, tabs⟩ := dissolve_loose ok split
        rw [← same]
        refine loose.keeps ok ?_ tabs
        rw [same]
        exact (splitDepth_map _ _).le
      · exact .refl ok

end Dinkster.Editor
