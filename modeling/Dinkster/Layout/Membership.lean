import Dinkster.Layout.Docking

/-!
# Registered panels join their default zones

The dock state that the shell uses is the stored one, less the panels that may not be where they
are stored, and with those appended that are stored nowhere.
-/

namespace Dinkster.Layout

open Library List

variable {state stored : PanelDockState} {zone : DockZoneState}

theorem evictFrom_wellFormed (panels : List DockablePanel) (stored : PanelDockState)
    (ok : WellFormed state) (zone : DockZoneId) :
    WellFormed (evictFrom panels stored state zone) := by
  unfold evictFrom
  dsimp only
  generalize zoneTabs (stored.zones zone) = ids
  induction ids generalizing state with
  | nil => exact ok
  | cons id ids ih =>
    rw [foldl_cons]
    split
    · split
      · exact ih ok
      · exact ih (removeFromZone_spec ok id).1
    · exact ih ok

theorem evictPanels_wellFormed (panels : List DockablePanel) (ok : WellFormed stored) :
    WellFormed (evictPanels panels stored) := by
  unfold evictPanels
  have all : ∀ (zones : List DockZoneId) (state : PanelDockState), WellFormed state →
      WellFormed (zones.foldl (evictFrom panels stored) state) := by
    intro zones
    induction zones with
    | nil => exact fun _ ok => ok
    | cons zone zones ih => exact fun state ok => ih _ (evictFrom_wellFormed panels stored ok zone)
  exact all dockZoneIds stored ok

section

variable (localeCompare : String → String → Int) {panels : List DockablePanel}
variable {state : PanelDockState} {zone other : DockZoneId} {id : String}

theorem mem_appendedTo (listed : id ∈ appendedTo localeCompare panels state zone) :
    (∃ panel ∈ panels, panel.id = id ∧ defaultZoneOf panel.placement = some zone) ∧
      ∀ place, id ∉ zoneTabs (state.zones place) := by
  obtain ⟨panel, kept, rfl⟩ := mem_map.mp listed
  obtain ⟨sorted, accepted⟩ := mem_filter.mp kept
  rw [Bool.and_eq_true, Bool.and_eq_true] at accepted
  refine ⟨⟨panel, (mem_insertionSort _).mp sorted, rfl, of_decide_eq_true accepted.1.1⟩, ?_⟩
  intro place there
  exact of_decide_eq_true accepted.2 (mem_flatMap.mpr ⟨place, mem_dockZoneIds place, there⟩)

theorem appendedTo_nodup (distinct : (panels.map DockablePanel.id).Nodup) :
    (appendedTo localeCompare panels state zone).Nodup := by
  have sorted : ((panels.insertionSort (panelLe localeCompare)).map DockablePanel.id).Nodup :=
    ((perm_insertionSort _ panels).map _).nodup_iff.mpr distinct
  exact sorted.sublist (List.Sublist.map _ filter_sublist)

theorem appendedTo_apart (distinct : (panels.map DockablePanel.id).Nodup)
    (here : id ∈ appendedTo localeCompare panels state zone)
    (there : id ∈ appendedTo localeCompare panels state other) : zone = other := by
  obtain ⟨⟨first, left, named, place⟩, _⟩ := mem_appendedTo localeCompare here
  obtain ⟨⟨second, right, also, default⟩, _⟩ := mem_appendedTo localeCompare there
  have same : first = second := inj_on_of_nodup_map distinct left right (named.trans also.symm)
  rw [same, default] at place
  exact (Option.some.inj place).symm

end

theorem zoneTabs_appendPanels (present : zone.sections ≠ []) (extra : List String)
    (place : DockZoneId) (fresh : Bool) :
    (zoneTabs (appendPanels zone extra place fresh)).Perm (extra ++ zoneTabs zone) := by
  unfold appendPanels
  dsimp only
  cases extra with
  | nil =>
    generalize (if fresh = true then openByDefault place &&
      decide ((zoneTabs zone).length + [].length > 0) else zone.isOpen) = isOpen
    split <;> exact List.Perm.refl _
  | cons id extra =>
    rw [if_neg (by simp)]
    obtain ⟨sections, split, isOpen⟩ := zone
    cases sections with
    | nil => exact absurd rfl present
    | cons first rest =>
      change ((first.tabs ++ id :: extra) ++ tabsOf rest).Perm
        ((id :: extra) ++ (first.tabs ++ tabsOf rest))
      rw [← append_assoc]
      exact perm_append_comm.append_right _

theorem appendPanels_ok (ok : ZoneOk zone) {extra : List String} (once : extra.Nodup)
    (missing : ∀ id ∈ extra, id ∉ zoneTabs zone) (place : DockZoneId) (fresh : Bool) :
    ZoneOk (appendPanels zone extra place fresh) := by
  cases extra with
  | nil =>
    have closed : zoneTabs zone = [] → (if fresh = true then openByDefault place &&
        decide ((zoneTabs zone).length + ([] : List String).length > 0) else zone.isOpen) =
          false := by
      intro empty
      simp [empty, ok.closed empty]
    unfold appendPanels
    dsimp only
    revert closed
    generalize (if fresh = true then openByDefault place &&
      decide ((zoneTabs zone).length + ([] : List String).length > 0) else zone.isOpen) = isOpen
    intro closed
    split
    · exact ok
    · exact { ok with closed := closed }
  | cons id extra =>
    unfold appendPanels
    dsimp only
    rw [if_neg (by simp)]
    obtain ⟨sections, split, isOpen⟩ := zone
    cases sections with
    | nil => exact absurd rfl ok.present
    | cons first rest =>
      have active := ok.active first mem_cons_self
      have hole : ZoneOk ⟨[] ++ first :: rest, split, isOpen⟩ := ok
      refine hole.replace (by simp) ?_ ?_ ?_ (by simp) ok.split
      · unfold ActiveOk at active ⊢
        cases shown : first.activeTab with
        | some tab =>
          rw [shown] at active
          exact mem_append_left _ active
        | none =>
          rw [shown] at active
          dsimp only at active ⊢
          rw [active]
          exact mem_cons_self
      · have first_once : first.tabs.Nodup := (nodup_append.mp ok.once).1
        refine nodup_append.mpr ⟨first_once, once, ?_⟩
        intro tab listed other added same
        exact missing other added (mem_append_left _ (same ▸ listed))
      · intro tab listed
        cases mem_append.mp listed with
        | inl old => exact hole.hole old
        | inr added =>
          exact ⟨not_mem_nil, fun behind =>
            missing tab added (mem_append_right _ behind)⟩

/-- The loop over the zones: what is appended to the later ones is still nowhere. -/
theorem foldl_appendPanels {extra : DockZoneId → List String} (once : ∀ zone, (extra zone).Nodup)
    (apart : ∀ zone other id, id ∈ extra zone → id ∈ extra other → zone = other) (fresh : Bool)
    {zones : List DockZoneId} (distinct : zones.Nodup) (ok : WellFormed state)
    (missing : ∀ zone ∈ zones, ∀ id ∈ extra zone, ∀ other, id ∉ zoneTabs (state.zones other)) :
    WellFormed (zones.foldl (fun state zone =>
      withZone state zone (appendPanels (state.zones zone) (extra zone) zone fresh)) state) := by
  induction zones generalizing state with
  | nil => exact ok
  | cons zone zones ih =>
    have perm := zoneTabs_appendPanels (ok.zone zone).present (extra zone) zone fresh
    have here := missing zone mem_cons_self
    obtain ⟨not_again, distinct⟩ := nodup_cons.mp distinct
    rw [foldl_cons]
    refine ih distinct (ok.withZone ?_ ?_) ?_
    · exact appendPanels_ok (ok.zone zone) (once zone) (fun id listed => here id listed zone) zone
        fresh
    · intro id listed other different there
      cases mem_append.mp (perm.mem_iff.mp listed) with
      | inl added => exact here id added other there
      | inr old => exact different (ok.apart other zone id there old)
    · intro later listed id added other there
      have different : later ≠ zone := fun same => not_again (same ▸ listed)
      by_cases same : other = zone
      · rw [same, withZone_same] at there
        cases mem_append.mp (perm.mem_iff.mp there) with
        | inl both => exact different (apart later zone id added both)
        | inr old => exact missing later (mem_cons_of_mem _ listed) id added zone old
      · rw [withZone_other _ _ same] at there
        exact missing later (mem_cons_of_mem _ listed) id added other there

theorem effectiveDockState_wellFormed (localeCompare : String → String → Int)
    (ok : WellFormed stored) {panels : List DockablePanel}
    (distinct : (panels.map DockablePanel.id).Nodup) (fresh : Bool) :
    WellFormed (effectiveDockState localeCompare stored panels fresh) :=
  foldl_appendPanels (fun _ => appendedTo_nodup localeCompare distinct)
    (fun _ _ _ => appendedTo_apart localeCompare distinct) fresh (by decide)
    (evictPanels_wellFormed panels ok)
    fun _ _ _ listed => (mem_appendedTo localeCompare listed).2

end Dinkster.Layout
