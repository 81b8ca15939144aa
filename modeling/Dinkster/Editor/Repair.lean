import Dinkster.Editor.Groups
import Dinkster.Layout.Storage

/-!
# Repair and storage of editor layouts

A layout is stored as a tree.  Reading it refuses what is structurally wrong; the open tabs may
have changed meanwhile, so that the layout is repaired against them.
-/

namespace Dinkster.Editor

open Library Format Layout List Option

/-! ## Reading -/

/-- What reading promises of a layout, whose groups may be empty. -/
structure Sane (layout : EditorLayout) : Prop where
  ids : ((layoutGroups layout.root).map EditorGroup.id).Nodup
  tabs : (tabsOf (layoutGroups layout.root)).Nodup
  focused : layout.focusedGroupId ∈ (layoutGroups layout.root).map EditorGroup.id
  bounded : Bounded layout.root
  depth : splitDepth layout.root ≤ maxSplitDepth

theorem restoreFocus_mem (root : EditorLayoutNode) (focus : String) :
    (restoreFocus root focus).focusedGroupId ∈ (layoutGroups root).map EditorGroup.id := by
  unfold restoreFocus
  dsimp only
  split
  · rename_i found
    obtain ⟨group, listed, named⟩ := any_eq_true.mp found
    exact mem_map.mpr ⟨group, listed, of_decide_eq_true named⟩
  · obtain ⟨group, rest, groups⟩ := exists_cons_of_ne_nil (layoutGroups_ne_nil root)
    rw [groups]
    exact mem_cons_self

@[simp] theorem restoreGroupInvariants_id (group : EditorGroup) :
    (restoreGroupInvariants group).id = group.id := by
  unfold restoreGroupInvariants
  split <;> rfl

@[simp] theorem restoreGroupInvariants_tabIds (group : EditorGroup) :
    (restoreGroupInvariants group).tabIds = group.tabIds := by
  unfold restoreGroupInvariants
  split <;> rfl

variable {group : EditorGroup} {node : EditorLayoutNode}

theorem restoreGroupInvariants_active (full : group.tabIds ≠ []) :
    (restoreGroupInvariants group).activeTabId ∈ (restoreGroupInvariants group).tabIds := by
  unfold restoreGroupInvariants
  split
  · rename_i inside
    exact inside
  · obtain ⟨first, rest, tabs⟩ := exists_cons_of_ne_nil full
    dsimp only
    rw [tabs]
    exact mem_cons_self

theorem restoreGroupInvariants_eq (active : ActiveOk group) :
    restoreGroupInvariants group = group := by
  obtain ⟨id, tabIds, activeTabId⟩ := group
  unfold restoreGroupInvariants
  cases active with
  | inl inside => exact if_pos inside
  | inr empty =>
    obtain ⟨rfl, rfl⟩ := empty
    rfl

structure Read (levels : Nat) (before : Claimed) (node : EditorLayoutNode) (after : Claimed) :
    Prop where
  groupIds : after.groupIds = before.groupIds ++ (layoutGroups node).map EditorGroup.id
  tabIds : after.tabIds = before.tabIds ++ tabsOf (layoutGroups node)
  ids_once : before.groupIds.Nodup → after.groupIds.Nodup
  tabs_once : before.tabIds.Nodup → after.tabIds.Nodup
  bounded : Bounded node
  depth : splitDepth node ≤ levels

theorem claimAll_spec {claimed after ids : List String} (taken : claimAll claimed ids = some after) :
    after = claimed ++ ids ∧ (claimed.Nodup → after.Nodup) := by
  induction ids generalizing claimed with
  | nil =>
    cases taken
    exact ⟨(append_nil _).symm, id⟩
  | cons first ids ih =>
    unfold claimAll at taken
    split at taken
    · cases taken
    · rename_i fresh
      obtain ⟨same, once⟩ := ih taken
      refine ⟨by rw [same, append_assoc]; rfl, fun before => once ?_⟩
      refine nodup_append.mpr ⟨before, nodup_singleton _, ?_⟩
      intro other listed last single equal
      rw [mem_singleton.mp single] at equal
      exact fresh (equal ▸ listed)

theorem decodeGroup_read {row : List (String × Json)} {before after : Claimed} {levels : Nat}
    (decoded : decodeGroup row before = some (node, after)) : Read levels before node after := by
  unfold decodeGroup at decoded
  split at decoded
  · rename_i id values active _ _ _
    split at decoded
    · cases decoded
    · rename_i accepted
      obtain ⟨tabIds, _, decoded⟩ := bind_eq_some_iff.mp decoded
      obtain ⟨claimed, taken, same⟩ := map_eq_some_iff.mp decoded
      cases same
      obtain ⟨rfl, once⟩ := claimAll_spec taken
      refine ⟨?_, ?_, fun distinct => ?_, once, trivial, Nat.zero_le _⟩
      · simp [layoutGroups]
      · simp [layoutGroups]
      · refine nodup_append.mpr ⟨distinct, nodup_singleton _, ?_⟩
        intro other listed last single equal
        rw [mem_singleton.mp single] at equal
        exact (not_or.mp accepted).2 (equal ▸ listed)
  · cases decoded

theorem decodeNode_read {levels : Nat} : ∀ {value : Option Json} {before after : Claimed}
    {node : EditorLayoutNode}, decodeNode levels value before = some (node, after) →
      Read levels before node after := by
  induction levels with
  | zero =>
    intro value before after node decoded
    unfold decodeNode at decoded
    obtain ⟨row, _, decoded⟩ := bind_eq_some_iff.mp decoded
    split at decoded
    · split at decoded
      · exact decodeGroup_read decoded
      · split at decoded
        all_goals cases decoded
    · cases decoded
  | succ levels ih =>
    intro value before after node decoded
    unfold decodeNode at decoded
    obtain ⟨row, _, decoded⟩ := bind_eq_some_iff.mp decoded
    split at decoded
    · split at decoded
      · exact decodeGroup_read decoded
      · split at decoded
        · dsimp only at decoded
          split at decoded
          · obtain ⟨⟨first, middle⟩, left, decoded⟩ := bind_eq_some_iff.mp decoded
            obtain ⟨⟨second, last⟩, right, same⟩ := map_eq_some_iff.mp decoded
            cases same
            have one := ih left
            have two := ih right
            refine ⟨?_, ?_, two.ids_once ∘ one.ids_once, two.tabs_once ∘ one.tabs_once,
              ⟨clampSplitRatio_bounds _, one.bounded, two.bounded⟩, ?_⟩
            · rw [two.groupIds, one.groupIds, append_assoc, layoutGroups, map_append]
            · rw [two.tabIds, one.tabIds, append_assoc, layoutGroups, tabsOf_append]
            · rw [splitDepth, Nat.add_comm]
              exact Nat.add_le_add_right (max_le one.depth two.depth) 1
          · cases decoded
        · cases decoded
    · cases decoded

variable {layout : EditorLayout} {openTabIds : List String}

theorem decodeEditorLayout_sane {parsed : Json}
    (decoded : decodeEditorLayout parsed = some layout) : Sane layout := by
  obtain ⟨envelope, _, decoded⟩ := bind_eq_some_iff.mp decoded
  split at decoded
  · split at decoded
    · obtain ⟨⟨root, claimed⟩, read, rfl⟩ := map_eq_some_iff.mp decoded
      have spec := decodeNode_read read
      have ids := spec.ids_once nodup_nil
      have tabs := spec.tabs_once nodup_nil
      rw [spec.groupIds, nil_append] at ids
      rw [spec.tabIds, nil_append] at tabs
      exact ⟨ids, tabs, restoreFocus_mem root _, spec.bounded, spec.depth⟩
    · cases decoded
  · cases decoded

theorem claimAll_eq {claimed ids : List String} (once : ids.Nodup)
    (fresh : ∀ id ∈ ids, id ∉ claimed) : claimAll claimed ids = some (claimed ++ ids) := by
  induction ids generalizing claimed with
  | nil => rw [claimAll, append_nil]
  | cons id ids ih =>
    obtain ⟨first, once⟩ := nodup_cons.mp once
    unfold claimAll
    rw [if_neg (fresh id mem_cons_self), ih once, append_assoc]
    · rfl
    · intro other listed
      rw [mem_append, mem_singleton, not_or]
      exact ⟨fresh other (mem_cons_of_mem _ listed), fun same => first (same ▸ listed)⟩

theorem clampSplitRatio_eq {ratio : Rat} (bounds : splitRatioMin ≤ ratio ∧ ratio ≤ splitRatioMax) :
    clampSplitRatio (some ratio) = ratio := by
  unfold clampSplitRatio
  dsimp only
  rw [max_eq_right bounds.1, min_eq_right bounds.2]

theorem decodeNode_encodeNode {node : EditorLayoutNode} :
    ∀ {levels : Nat} {claimed : Claimed}, splitDepth node ≤ levels → Bounded node →
      (∀ group ∈ layoutGroups node, ActiveOk group ∧ group.id ≠ "") →
      "" ∉ tabsOf (layoutGroups node) →
      (claimed.groupIds ++ (layoutGroups node).map EditorGroup.id).Nodup →
      (claimed.tabIds ++ tabsOf (layoutGroups node)).Nodup →
      decodeNode levels (some (encodeNode node)) claimed =
        some (node, ⟨claimed.groupIds ++ (layoutGroups node).map EditorGroup.id,
          claimed.tabIds ++ tabsOf (layoutGroups node)⟩) := by
  induction node with
  | group group =>
    intro levels claimed _ _ each named ids tabs
    obtain ⟨active, has_id⟩ := each group (mem_singleton_self _)
    have single : tabsOf (layoutGroups (.group group)) = group.tabIds := append_nil _
    rw [single] at named tabs ⊢
    obtain ⟨_, tabs_once, tabs_apart⟩ := nodup_append.mp tabs
    obtain ⟨_, _, ids_apart⟩ := nodup_append.mp ids
    have new_id : ¬ (group.id = "" ∨ group.id ∈ claimed.groupIds) := by
      rintro (empty | taken)
      · exact has_id empty
      · exact ids_apart _ taken _ (mem_singleton_self _) rfl
    have claim := @claimAll_eq claimed.tabIds group.tabIds tabs_once
      fun id inside before => tabs_apart id before id inside rfl
    unfold decodeNode encodeNode rowOf
    rw [bind_some]
    simp only [getField_cons, String.reduceEq, if_true, if_false]
    unfold decodeGroup
    simp only [getField_cons, String.reduceEq, if_true, if_false]
    rw [if_neg new_id, tabTexts_map named, bind_some, claim, map_some,
      restoreGroupInvariants_eq active]
    rfl
  | split direction ratio first second left right =>
    intro levels claimed depth bounded each named ids tabs
    rw [layoutGroups] at each named ids tabs ⊢
    rw [tabsOf_append] at named tabs ⊢
    rw [map_append] at ids ⊢
    rw [← append_assoc] at ids tabs
    rw [mem_append, not_or] at named
    rw [splitDepth] at depth
    cases levels with
    | zero => omega
    | succ levels =>
      have one := @left levels claimed (by omega) bounded.2.1
        (fun group listed => each group (mem_append_left _ listed)) named.1
        (nodup_append.mp ids).1 (nodup_append.mp tabs).1
      have two := @right levels ⟨_, _⟩ (by omega) bounded.2.2
        (fun group listed => each group (mem_append_right _ listed)) named.2 ids tabs
      have facing : directionOf (some (.str (directionText direction))) = some direction := by
        cases direction with
        | row | column => rfl
      unfold decodeNode encodeNode rowOf
      rw [bind_some]
      simp only [getField_cons, String.reduceEq, if_true, if_false]
      rw [facing]
      dsimp only
      rw [one, bind_some]
      dsimp only
      rw [two, map_some, clampSplitRatio_eq bounded.1]
      dsimp only
      rw [append_assoc, append_assoc]

theorem decodeEditorLayout_encodeEditorLayout (ok : WellFormed layout)
    (named : ∀ group ∈ layoutGroups layout.root, group.id ≠ "" ∧ "" ∉ group.tabIds) :
    decodeEditorLayout (encodeEditorLayout layout) = some layout := by
  have read := @decodeNode_encodeNode layout.root maxSplitDepth ⟨[], []⟩ ok.depth ok.bounded
    (fun group listed => ⟨ok.active group listed, (named group listed).1⟩)
    (fun empty => by
      obtain ⟨group, listed, inside⟩ := mem_tabsOf.mp empty
      exact (named group listed).2 inside) ok.ids ok.tabs
  unfold decodeEditorLayout encodeEditorLayout rowOf
  rw [bind_some]
  simp only [getField_cons, String.reduceEq, if_true, if_false]
  rw [read, map_some]
  dsimp only
  rw [restoreFocus_eq ok.focused]

/-! ## Repair -/

def cut (openTabIds : List String) (group : EditorGroup) : EditorGroup :=
  restoreGroupInvariants { group with tabIds := group.tabIds.filter (· ∈ openTabIds) }

theorem keepTabs_eq {seen tabs : List String} (once : tabs.Nodup) (fresh : ∀ id ∈ tabs, id ∉ seen) :
    keepTabs openTabIds seen tabs =
      (tabs.filter (· ∈ openTabIds), seen ++ tabs.filter (· ∈ openTabIds)) := by
  induction tabs generalizing seen with
  | nil => simp [keepTabs]
  | cons id tabs ih =>
    obtain ⟨first, once⟩ := nodup_cons.mp once
    have later : ∀ other ∈ tabs, other ∉ seen :=
      fun other listed => fresh other (mem_cons_of_mem _ listed)
    unfold keepTabs
    by_cases opened : id ∈ openTabIds
    · rw [if_neg (by simp [opened, fresh id mem_cons_self]), ih once]
      · dsimp only
        rw [filter_cons_of_pos (by simpa using opened), append_assoc]
        rfl
      · intro other listed
        rw [mem_append, mem_singleton, not_or]
        exact ⟨later other listed, fun same => first (same ▸ listed)⟩
    · rw [if_pos (.inl opened), ih once later, filter_cons_of_neg (by simpa using opened)]

theorem filterGroups_eq : ∀ {seen : List String}, (tabsOf (layoutGroups node)).Nodup →
      (∀ id ∈ tabsOf (layoutGroups node), id ∉ seen) → filterGroups openTabIds node seen =
        (mapGroups (fun group => .group (cut openTabIds group)) node,
          seen ++ (tabsOf (layoutGroups node)).filter (· ∈ openTabIds)) := by
  induction node with
  | group group =>
    intro seen once fresh
    have single : tabsOf (layoutGroups (.group group)) = group.tabIds := append_nil _
    rw [single] at once fresh ⊢
    unfold filterGroups
    rw [keepTabs_eq once fresh]
    rfl
  | split direction ratio first second left right =>
    intro seen once fresh
    rw [layoutGroups, tabsOf_append] at once fresh ⊢
    obtain ⟨first_once, second_once, apart⟩ := nodup_append.mp once
    unfold filterGroups
    rw [left first_once fun id inside => fresh id (mem_append_left _ inside)]
    dsimp only
    rw [right second_once, filter_append, append_assoc]
    · rfl
    · intro id inside
      rw [mem_append, not_or]
      refine ⟨fresh id (mem_append_right _ inside), fun before => ?_⟩
      exact apart id (mem_filter.mp before).1 id inside rfl

theorem mapGroups_map (fn : EditorGroup → EditorLayoutNode) (change : EditorGroup → EditorGroup)
    (node : EditorLayoutNode) : mapGroups fn (mapGroups (fun group => .group (change group)) node) =
      mapGroups (fun group => fn (change group)) node := by
  induction node with
  | group group => rfl
  | split direction ratio first second left right =>
    change EditorLayoutNode.split direction ratio
        (mapGroups fn (mapGroups (fun group => .group (change group)) first))
        (mapGroups fn (mapGroups (fun group => .group (change group)) second)) = _
    rw [left, right]
    rfl

def repaired (openTabIds orphans : List String) (focus : String) (group : EditorGroup) :
    EditorGroup :=
  if orphans = [] then cut openTabIds group
  else if group.id = focus then adopt orphans (cut openTabIds group) else cut openTabIds group

section

variable {openTabIds orphans : List String} {focus : String} {group : EditorGroup}

@[simp] theorem cut_id : (cut openTabIds group).id = group.id :=
  restoreGroupInvariants_id _

@[simp] theorem cut_tabIds : (cut openTabIds group).tabIds = group.tabIds.filter (· ∈ openTabIds) :=
  restoreGroupInvariants_tabIds _

theorem cut_active (full : (cut openTabIds group).tabIds ≠ []) :
    (cut openTabIds group).activeTabId ∈ (cut openTabIds group).tabIds :=
  restoreGroupInvariants_active (by rwa [cut_tabIds] at full)

theorem repaired_id : (repaired openTabIds orphans focus group).id = group.id := by
  unfold repaired
  split
  · exact cut_id
  · split
    · exact (restoreGroupInvariants_id _).trans cut_id
    · exact cut_id

theorem repaired_tabIds : (repaired openTabIds orphans focus group).tabIds =
    group.tabIds.filter (· ∈ openTabIds) ++ if group.id = focus then orphans else [] := by
  unfold repaired
  split
  · rename_i none_left
    rw [cut_tabIds, none_left]
    simp
  · split
    · unfold adopt
      rw [restoreGroupInvariants_tabIds]
      dsimp only
      rw [cut_tabIds]
    · rw [cut_tabIds, append_nil]

theorem repaired_active (full : (repaired openTabIds orphans focus group).tabIds ≠ []) :
    (repaired openTabIds orphans focus group).activeTabId ∈
      (repaired openTabIds orphans focus group).tabIds := by
  unfold repaired at full ⊢
  by_cases none_left : orphans = []
  · rw [if_pos none_left] at full ⊢
    exact cut_active full
  · rw [if_neg none_left] at full ⊢
    by_cases chosen : group.id = focus
    · rw [if_pos chosen] at full ⊢
      unfold adopt at full ⊢
      rw [restoreGroupInvariants_tabIds] at full
      exact restoreGroupInvariants_active full
    · rw [if_neg chosen] at full ⊢
      exact cut_active full

end

theorem repairEditorLayout_eq (sane : Sane layout) (openTabIds : List String) :
    repairEditorLayout layout openTabIds =
      match pruneNode (mapGroups (fun group => .group (repaired openTabIds
        (openTabIds.filter (· ∉ tabsOf (layoutGroups layout.root))) layout.focusedGroupId group))
        layout.root) with
      | none => singleGroupLayout
      | some pruned => restoreFocus pruned layout.focusedGroupId := by
  have orphans : openTabIds.filter
      (· ∉ [] ++ (tabsOf (layoutGroups layout.root)).filter (· ∈ openTabIds)) =
        openTabIds.filter (· ∉ tabsOf (layoutGroups layout.root)) := by
    refine filter_congr fun id opened => ?_
    rw [decide_eq_decide, nil_append, mem_filter, decide_eq_true_iff]
    exact not_congr (and_iff_left opened)
  obtain ⟨focused, listed, named⟩ := mem_map.mp sane.focused
  have there : (layoutGroups (mapGroups (fun group => .group (cut openTabIds group))
      layout.root)).any (·.id = layout.focusedGroupId) = true := by
    rw [layoutGroups_map]
    exact any_eq_true.mpr ⟨cut openTabIds focused, mem_map_of_mem listed,
      decide_eq_true (cut_id.trans named)⟩
  unfold repairEditorLayout
  rw [filterGroups_eq sane.tabs fun _ _ => not_mem_nil]
  dsimp only
  rw [orphans, if_pos there]
  have adopted : (if openTabIds.filter (· ∉ tabsOf (layoutGroups layout.root)) = [] then
        mapGroups (fun group => .group (cut openTabIds group)) layout.root
      else mapGroups (fun group => .group (if group.id = layout.focusedGroupId then
          adopt (openTabIds.filter (· ∉ tabsOf (layoutGroups layout.root))) group else group))
        (mapGroups (fun group => .group (cut openTabIds group)) layout.root)) =
      mapGroups (fun group => .group (repaired openTabIds
        (openTabIds.filter (· ∉ tabsOf (layoutGroups layout.root))) layout.focusedGroupId group))
        layout.root := by
    unfold repaired
    split
    · rfl
    · rw [mapGroups_map]
      simp only [cut_id]
  exact congrArg (fun root => match pruneNode root with
    | none => singleGroupLayout
    | some pruned => restoreFocus pruned layout.focusedGroupId) adopted

theorem tabsOf_repaired (sane : Sane layout) (openTabIds : List String) :
    (tabsOf ((layoutGroups layout.root).map (repaired openTabIds
      (openTabIds.filter (· ∉ tabsOf (layoutGroups layout.root))) layout.focusedGroupId))).Perm
      ((tabsOf (layoutGroups layout.root)).filter (· ∈ openTabIds) ++
        openTabIds.filter (· ∉ tabsOf (layoutGroups layout.root))) := by
  obtain ⟨focused, listed, named⟩ := mem_map.mp sane.focused
  generalize openTabIds.filter (· ∉ tabsOf (layoutGroups layout.root)) = orphans
  have plain : ∀ part : List EditorGroup, (∀ group ∈ part, group.id ≠ layout.focusedGroupId) →
      tabsOf (part.map (repaired openTabIds orphans layout.focusedGroupId)) =
        (tabsOf part).filter (· ∈ openTabIds) := by
    intro part
    induction part with
    | nil => exact fun _ => rfl
    | cons group part ih =>
      intro away
      rw [map_cons, tabsOf_cons, tabsOf_cons, filter_append, repaired_tabIds,
        if_neg (away group mem_cons_self), append_nil,
        ih fun other later => away other (mem_cons_of_mem _ later)]
  obtain ⟨front, back, split⟩ := append_of_mem listed
  have ids := sane.ids
  rw [split, map_append, map_cons] at ids
  obtain ⟨_, rest, apart⟩ := nodup_append.mp ids
  rw [split, map_append, map_cons, tabsOf_append, tabsOf_cons, repaired_tabIds,
    if_pos named, tabsOf_append, tabsOf_cons, filter_append, filter_append, plain front, plain back]
  · rw [append_assoc, append_assoc, append_assoc]
    exact ((perm_append_comm).append_left _).append_left _
  · intro group inside same
    exact (nodup_cons.mp rest).1 (named ▸ same ▸ mem_map_of_mem inside)
  · intro group inside same
    exact apart group.id (mem_map_of_mem inside) focused.id mem_cons_self (same.trans named.symm)

theorem repairEditorLayout_id (ok : WellFormed layout)
    (full : ∀ group ∈ layoutGroups layout.root, group.tabIds ≠ [])
    (shown : ∀ id, id ∈ tabsOf (layoutGroups layout.root) ↔ id ∈ openTabIds) :
    repairEditorLayout layout openTabIds = layout := by
  have orphans : openTabIds.filter (· ∉ tabsOf (layoutGroups layout.root)) = [] := by
    refine filter_eq_nil_iff.mpr fun id opened => ?_
    simpa using (shown id).mpr opened
  have kept : ∀ group ∈ layoutGroups layout.root, cut openTabIds group = group := by
    intro group listed
    have all : group.tabIds.filter (· ∈ openTabIds) = group.tabIds :=
      filter_eq_self.mpr fun id inside =>
        decide_eq_true ((shown id).mp (mem_tabsOf.mpr ⟨group, listed, inside⟩))
    unfold cut
    rw [all]
    exact restoreGroupInvariants_eq (ok.active group listed)
  have still : ∀ node : EditorLayoutNode,
      (∀ group ∈ layoutGroups node, cut openTabIds group = group ∧ group.tabIds ≠ []) →
      mapGroups (fun group => .group (cut openTabIds group)) node = node ∧
        pruneNode node = some node := by
    intro node
    induction node with
    | group group =>
      intro each
      obtain ⟨same, occupied⟩ := each group (mem_singleton_self _)
      refine ⟨?_, if_neg occupied⟩
      unfold mapGroups
      rw [same]
    | split direction ratio first second left right =>
      intro each
      obtain ⟨same, pruned⟩ := left fun group listed => each group (mem_append_left _ listed)
      obtain ⟨same', pruned'⟩ := right fun group listed => each group (mem_append_right _ listed)
      refine ⟨?_, ?_⟩
      · rw [mapGroups, same, same']
      · rw [pruneNode, pruned, pruned']
  obtain ⟨same, pruned⟩ := still layout.root fun group listed =>
    ⟨kept group listed, full group listed⟩
  rw [repairEditorLayout_eq ⟨ok.ids, ok.tabs, ok.focused, ok.bounded, ok.depth⟩, orphans]
  unfold repaired
  simp only [if_true]
  rw [same, pruned]
  exact restoreFocus_eq ok.focused

structure Repaired (layout : EditorLayout) (openTabIds : List String) (next : EditorLayout) :
    Prop where
  wellFormed : WellFormed next
  shown : ∀ id, id ∈ tabsOf (layoutGroups next.root) ↔ id ∈ openTabIds
  order : ∀ group ∈ layoutGroups layout.root, ∀ after ∈ layoutGroups next.root,
    after.id = group.id →
      after.tabIds = group.tabIds.filter (· ∈ openTabIds) ++
        if group.id = layout.focusedGroupId then
          openTabIds.filter (· ∉ tabsOf (layoutGroups layout.root)) else []
  kept : ∀ group ∈ layoutGroups layout.root, (∃ id ∈ group.tabIds, id ∈ openTabIds) →
    ∃ after ∈ layoutGroups next.root, after.id = group.id
  stable : repairEditorLayout next openTabIds = next

theorem singleGroupLayout_wellFormed : WellFormed singleGroupLayout where
  ids := nodup_singleton _
  tabs := nodup_nil
  active group listed := by
    rw [mem_singleton.mp listed]
    exact .inr ⟨rfl, rfl⟩
  occupied group listed _ := by
    rw [mem_singleton.mp listed]
    rfl
  focused := mem_singleton_self _
  bounded := trivial
  depth := Nat.zero_le _

theorem repairEditorLayout_spec (sane : Sane layout) (once : openTabIds.Nodup) :
    Repaired layout openTabIds (repairEditorLayout layout openTabIds) := by
  have perm := tabsOf_repaired sane openTabIds
  have equation := repairEditorLayout_eq sane openTabIds
  have orphans_open : ∀ id ∈ openTabIds.filter (· ∉ tabsOf (layoutGroups layout.root)),
      id ∈ openTabIds := fun id listed => (mem_filter.mp listed).1
  have shown : ∀ id, id ∈ tabsOf ((layoutGroups layout.root).map (repaired openTabIds
      (openTabIds.filter (· ∉ tabsOf (layoutGroups layout.root))) layout.focusedGroupId)) ↔
        id ∈ openTabIds := by
    intro id
    rw [perm.mem_iff, mem_append, mem_filter, mem_filter, decide_eq_true_iff, decide_eq_true_iff]
    constructor
    · rintro (⟨_, opened⟩ | ⟨opened, _⟩)
      all_goals exact opened
    · intro opened
      by_cases there : id ∈ tabsOf (layoutGroups layout.root)
      · exact .inl ⟨there, opened⟩
      · exact .inr ⟨opened, there⟩
  have distinct : (tabsOf ((layoutGroups layout.root).map (repaired openTabIds
      (openTabIds.filter (· ∉ tabsOf (layoutGroups layout.root))) layout.focusedGroupId))).Nodup := by
    refine perm.nodup_iff.mpr (nodup_append.mpr ⟨sane.tabs.filter _, once.filter _, ?_⟩)
    intro id inside other outside same
    have missing := of_decide_eq_true (mem_filter.mp outside).2
    exact missing (same ▸ (mem_filter.mp inside).1)
  have groups := layoutGroups_map (repaired openTabIds
    (openTabIds.filter (· ∉ tabsOf (layoutGroups layout.root))) layout.focusedGroupId) layout.root
  have of_id : ∀ group ∈ layoutGroups layout.root, ∀ before ∈ layoutGroups layout.root,
      (repaired openTabIds (openTabIds.filter (· ∉ tabsOf (layoutGroups layout.root)))
        layout.focusedGroupId before).id = group.id → before = group :=
    fun group listed before there same =>
      eq_of_id sane.ids there listed (repaired_id.symm.trans same)
  by_cases nothing : openTabIds = []
  · subst nothing
    have spec := pruneNode_spec (mapGroups (fun group => .group (repaired []
      (([] : List String).filter (· ∉ tabsOf (layoutGroups layout.root))) layout.focusedGroupId
        group)) layout.root)
    have empty : repairEditorLayout layout [] = singleGroupLayout := by
      rw [equation]
      cases result : pruneNode (mapGroups (fun group => .group (repaired []
          (([] : List String).filter (· ∉ tabsOf (layoutGroups layout.root)))
          layout.focusedGroupId group)) layout.root) with
      | none => rfl
      | some pruned =>
        rw [result] at spec
        obtain ⟨first, rest, listed⟩ := exists_cons_of_ne_nil (layoutGroups_ne_nil pruned)
        have there : first ∈ layoutGroups pruned := listed ▸ mem_cons_self
        rw [spec.1, groups] at there
        obtain ⟨there, full⟩ := mem_filter.mp there
        obtain ⟨id, inside⟩ := exists_mem_of_ne_nil _ (of_decide_eq_true full)
        cases (shown id).mp (mem_tabsOf.mpr ⟨first, there, inside⟩)
    rw [empty]
    refine ⟨singleGroupLayout_wellFormed, fun id => Iff.rfl, ?_, ?_, by decide +kernel⟩
    · intro group listed after single same
      rw [mem_singleton.mp single]
      simp
    · rintro group listed ⟨id, _, opened⟩
      cases opened
  · obtain ⟨opened, in_open⟩ := exists_mem_of_ne_nil _ nothing
    obtain ⟨chosen, chosen_listed, inside⟩ := mem_tabsOf.mp ((shown opened).mpr in_open)
    have loose : Loose (mapGroups (fun group => .group (repaired openTabIds
        (openTabIds.filter (· ∉ tabsOf (layoutGroups layout.root))) layout.focusedGroupId group))
        layout.root) chosen.id := by
      refine ⟨?_, groups ▸ distinct, ?_, ?_, sane.bounded.mapGroups fun _ => trivial⟩
      · rw [groups, map_id_eq]
        · exact sane.ids
        · exact fun group => repaired_id
      · intro group listed full
        rw [groups] at listed
        obtain ⟨before, _, rfl⟩ := mem_map.mp listed
        exact repaired_active full
      · exact ⟨chosen, groups ▸ chosen_listed, ne_nil_of_mem inside, rfl⟩
    obtain ⟨pruned, result, kept, depth, wellFormed⟩ := loose.prune
    have shallow : splitDepth pruned ≤ maxSplitDepth :=
      depth.trans ((splitDepth_map _ _).trans_le sane.depth)
    rw [groups] at kept
    rw [result] at equation
    dsimp only at equation
    have ok : WellFormed (restoreFocus pruned layout.focusedGroupId) :=
      { wellFormed shallow with focused := restoreFocus_mem pruned _ }
    have tabs : ∀ id, id ∈ tabsOf (layoutGroups pruned) ↔ id ∈ openTabIds := by
      intro id
      rw [kept, tabsOf_filter]
      exact shown id
    rw [equation]
    refine ⟨ok, tabs, ?_, ?_, ?_⟩
    · intro group listed after there same
      change after ∈ layoutGroups pruned at there
      rw [kept] at there
      obtain ⟨before, before_listed, rfl⟩ := mem_map.mp (mem_filter.mp there).1
      rw [of_id group listed before before_listed same]
      exact repaired_tabIds
    · rintro group listed ⟨id, inside, opened⟩
      refine ⟨repaired openTabIds (openTabIds.filter (· ∉ tabsOf (layoutGroups layout.root)))
        layout.focusedGroupId group, ?_, repaired_id⟩
      change _ ∈ layoutGroups pruned
      rw [kept]
      refine mem_filter.mpr ⟨mem_map_of_mem listed, decide_eq_true ?_⟩
      rw [repaired_tabIds]
      exact ne_nil_of_mem (mem_append_left _ (mem_filter.mpr ⟨inside, decide_eq_true opened⟩))
    · refine repairEditorLayout_id ok ?_ tabs
      intro group there
      change group ∈ layoutGroups pruned at there
      rw [kept] at there
      exact of_decide_eq_true (mem_filter.mp there).2

/-- Editor layouts stay well formed. -/
theorem editor_stays_wellFormed : (∀ layout, WellFormed layout →
      (∀ groupId direction tabId position,
        Keeps layout (splitGroup layout groupId direction tabId position)) ∧
      (∀ tabId targetGroupId index, Keeps layout (moveTabToGroup layout tabId targetGroupId index)) ∧
      (∀ groupId order, Keeps layout (setGroupTabOrder layout groupId order)) ∧
      (∀ groupId, Keeps layout (dissolveGroup layout groupId)) ∧
      (∀ groupId tabId, Keeps layout (setActiveTab layout groupId tabId)) ∧
      (∀ groupId, Keeps layout (focusGroup layout groupId)) ∧
      (∀ path ratio, Keeps layout (setSplitRatioAt layout path ratio)) ∧
      ((∀ group ∈ layoutGroups layout.root, group.id ≠ "" ∧ "" ∉ group.tabIds) →
        decodeEditorLayout (encodeEditorLayout layout) = some layout)) ∧
    ∀ parsed layout openTabIds, decodeEditorLayout parsed = some layout → openTabIds.Nodup →
      Repaired layout openTabIds (repairEditorLayout layout openTabIds) :=
  ⟨fun _ ok =>
      ⟨splitGroup_keeps ok, moveTabToGroup_keeps ok, setGroupTabOrder_keeps ok,
        dissolveGroup_keeps ok, setActiveTab_keeps ok, focusGroup_keeps ok,
        setSplitRatioAt_keeps ok, decodeEditorLayout_encodeEditorLayout ok⟩,
    fun _ _ _ decoded once => repairEditorLayout_spec (decodeEditorLayout_sane decoded) once⟩

theorem editor_stays_wellFormed_single :
    Keeps singleGroupLayout (focusGroup singleGroupLayout "group-1") ∧
      Repaired singleGroupLayout ["a", "b"] (repairEditorLayout singleGroupLayout ["a", "b"]) :=
  ⟨(editor_stays_wellFormed.1 singleGroupLayout singleGroupLayout_wellFormed).2.2.2.2.2.1 "group-1",
    editor_stays_wellFormed.2 (encodeEditorLayout singleGroupLayout) singleGroupLayout ["a", "b"]
      (by decide +kernel) (by decide)⟩

/-- A group without an id is not read back. -/
theorem editor_unnamed : WellFormed ⟨.group ⟨"", ["a"], "a"⟩, ""⟩ ∧
      decodeEditorLayout (encodeEditorLayout ⟨.group ⟨"", ["a"], "a"⟩, ""⟩) = none := by
  refine ⟨⟨by decide, by decide, ?_, ?_, by decide, trivial, by decide⟩, by decide +kernel⟩
  · intro group listed
    rw [mem_singleton.mp listed]
    exact .inl (mem_singleton_self _)
  · intro group listed _
    rw [mem_singleton.mp listed]

end Dinkster.Editor
