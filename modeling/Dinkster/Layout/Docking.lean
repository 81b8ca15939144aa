import Dinkster.Layout.Dock

/-!
# Dock zones stay well formed

A panel is taken out of the section that holds it and put into another one.  In between a
section may have gone with its last tab, so the section that was asked for is looked up where it
stands then.
-/

namespace Dinkster.Layout

open Library List

/-- The active tab of a section is one of its tabs, undefined only when there is none. -/
def ActiveOk (held : DockSectionState) : Prop :=
  match held.activeTab with
  | some active => active ∈ held.tabs
  | none => held.tabs = []

structure ZoneOk (zone : DockZoneState) : Prop where
  present : zone.sections ≠ []
  few : zone.sections.length ≤ maxZoneSections
  occupied : ∀ held ∈ zone.sections, held.tabs = [] → zone.sections.length = 1
  active : ∀ held ∈ zone.sections, ActiveOk held
  once : (zoneTabs zone).Nodup
  closed : zoneTabs zone = [] → zone.isOpen = false
  split : minZoneSplit ≤ zone.split ∧ zone.split ≤ maxZoneSplit

structure WellFormed (state : PanelDockState) : Prop where
  zone : ∀ zone, ZoneOk (state.zones zone)
  apart : ∀ zone other id, id ∈ zoneTabs (state.zones zone) → id ∈ zoneTabs (state.zones other) →
    zone = other

/-- The other panels of a zone, section by section. -/
def outline (id : String) (zone : DockZoneState) : List (List String) :=
  (zone.sections.map fun held => held.tabs.filter (· ≠ id)).filter (· ≠ [])

def tabsOf (sections : List DockSectionState) : List String :=
  sections.flatMap DockSectionState.tabs

@[simp] theorem tabsOf_nil : tabsOf [] = [] := rfl

@[simp] theorem tabsOf_cons (held : DockSectionState) (rest : List DockSectionState) :
    tabsOf (held :: rest) = held.tabs ++ tabsOf rest := rfl

variable (front back : List DockSectionState)

@[simp] theorem tabsOf_append :
    tabsOf (front ++ back) = tabsOf front ++ tabsOf back := flatMap_append

variable {id : String} {sections back front : List DockSectionState} {zone : DockZoneId}
    {state : PanelDockState} {held into : DockSectionState} {place : Nat}
    {index asked : Option Rat} {before : DockZoneState}

theorem mem_tabsOf : id ∈ tabsOf sections ↔ ∃ held ∈ sections, id ∈ held.tabs := mem_flatMap

theorem filter_ne_of_notMem {tabs : List String} (missing : id ∉ tabs) :
    tabs.filter (· ≠ id) = tabs :=
  List.filter_eq_self.mpr fun _ listed =>
    decide_eq_true fun same => missing (same ▸ listed)

theorem withZone_same (state : PanelDockState) (zone : DockZoneId) (next : DockZoneState) :
    (withZone state zone next).zones zone = next := Function.update_self ..

theorem withZone_other (state : PanelDockState) {other : DockZoneId} (next : DockZoneState)
    (apart : other ≠ zone) : (withZone state zone next).zones other = state.zones other :=
  Function.update_of_ne apart ..

/-- A zone may be exchanged for one with panels that are nowhere else. -/
theorem WellFormed.withZone (ok : WellFormed state) {next : DockZoneState} (zone_ok : ZoneOk next)
    (fresh : ∀ id ∈ zoneTabs next, ∀ other, other ≠ zone → id ∉ zoneTabs (state.zones other)) :
    WellFormed (withZone state zone next) where
  zone := by
    intro place
    by_cases same : place = zone
    · rw [same, withZone_same]
      exact zone_ok
    · rw [withZone_other state next same]
      exact ok.zone place
  apart first second id left right := by
    by_cases here : first = zone
    · by_cases there : second = zone
      · exact here.trans there.symm
      · rw [here, withZone_same] at left
        rw [withZone_other state next there] at right
        exact absurd right (fresh id left second there)
    · rw [withZone_other state next here] at left
      by_cases there : second = zone
      · rw [there, withZone_same] at right
        exact absurd left (fresh id right first here)
      · rw [withZone_other state next there] at right
        exact ok.apart first second id left right

/-- A zone may be exchanged for one that holds no more panels. -/
theorem WellFormed.withZone_of_subset (ok : WellFormed state) {next : DockZoneState}
    (zone_ok : ZoneOk next) (fewer : zoneTabs next ⊆ zoneTabs (state.zones zone)) :
    WellFormed (Layout.withZone state zone next) :=
  ok.withZone zone_ok fun id listed other apart there =>
    apart (ok.apart other zone id there (fewer listed))

/-! ## One section of a zone -/

theorem split_at (found : sections[place]? = some held) :
    ∃ front back, sections = front ++ held :: back ∧ front.length = place := by
  obtain ⟨within, rfl⟩ := List.getElem?_eq_some_iff.mp found
  refine ⟨sections.take place, sections.drop (place + 1), ?_, ?_⟩
  · rw [getElem_cons_drop, take_append_drop]
  · exact length_take_of_le within.le

theorem set_at (held next : DockSectionState) :
    (front ++ held :: back).set front.length next = front ++ next :: back := by
  rw [set_append_right _ _ le_rfl, Nat.sub_self, set_cons_zero]

theorem eraseIdx_at (held : DockSectionState) :
    (front ++ held :: back).eraseIdx front.length = front ++ back := by
  rw [eraseIdx_append_of_length_le le_rfl, Nat.sub_self, eraseIdx_cons_zero]

theorem ZoneOk.at_split {zone : DockZoneState} (ok : ZoneOk zone)
    (split : zone.sections = sections) : ZoneOk ⟨sections, zone.split, zone.isOpen⟩ := by
  cases zone
  exact split ▸ ok

section Hole

variable {front back : List DockSectionState} {held next : DockSectionState}
variable {split newSplit : Rat} {isOpen newOpen : Bool}

theorem zoneTabs_hole :
    zoneTabs ⟨front ++ held :: back, split, isOpen⟩ = tabsOf front ++ (held.tabs ++ tabsOf back) :=
  (tabsOf_append front _).trans (congrArg _ (tabsOf_cons held back))

section

variable (ok : ZoneOk ⟨front ++ held :: back, split, isOpen⟩)

include ok

theorem ZoneOk.hole {id : String} (listed : id ∈ held.tabs) :
    id ∉ tabsOf front ∧ id ∉ tabsOf back := by
  have once := ok.once
  rw [zoneTabs_hole] at once
  obtain ⟨_, rest, apart⟩ := nodup_append.mp once
  refine ⟨fun before => apart id before id (mem_append_left _ listed) rfl, fun behind => ?_⟩
  exact (nodup_append.mp rest).2.2 id listed id behind rfl

/-- A section may be exchanged for one whose tabs are in no other one. -/
theorem ZoneOk.replace (occupied : next.tabs = [] → front = [] ∧ back = [])
    (active : ActiveOk next) (once : next.tabs.Nodup)
    (fresh : ∀ id ∈ next.tabs, id ∉ tabsOf front ∧ id ∉ tabsOf back)
    (closed : next.tabs = [] → newOpen = false)
    (bounds : minZoneSplit ≤ newSplit ∧ newSplit ≤ maxZoneSplit) :
    ZoneOk ⟨front ++ next :: back, newSplit, newOpen⟩ where
  present := by simp
  few := by
    have few := ok.few
    rw [length_append, length_cons] at few ⊢
    exact few
  occupied other listed empty := by
    cases mem_append.mp listed with
    | inl before =>
      have alone := ok.occupied other (mem_append_left _ before) empty
      rw [length_append, length_cons] at alone ⊢
      exact alone
    | inr behind =>
      cases mem_cons.mp behind with
      | inl same =>
        obtain ⟨rfl, rfl⟩ := occupied (same ▸ empty)
        rfl
      | inr later =>
        have alone := ok.occupied other (mem_append_right _ (mem_cons_of_mem _ later)) empty
        rw [length_append, length_cons] at alone ⊢
        exact alone
  active other listed := by
    cases mem_append.mp listed with
    | inl before => exact ok.active other (mem_append_left _ before)
    | inr behind =>
      cases mem_cons.mp behind with
      | inl same => exact same ▸ active
      | inr later =>
        exact ok.active other (mem_append_right _ (mem_cons_of_mem _ later))
  once := by
    have before := ok.once
    rw [zoneTabs_hole] at before ⊢
    obtain ⟨front_once, rest, apart⟩ := nodup_append.mp before
    obtain ⟨_, back_once, _⟩ := nodup_append.mp rest
    refine nodup_append.mpr ⟨front_once, nodup_append.mpr ⟨once, back_once, ?_⟩, ?_⟩
    · intro id listed other behind same
      exact (fresh id listed).2 (same ▸ behind)
    · intro id before other behind same
      cases mem_append.mp behind with
      | inl listed => exact (fresh other listed).1 (same ▸ before)
      | inr later => exact apart id before other (mem_append_right _ later) same
  closed empty := by
    rw [zoneTabs_hole] at empty
    exact closed (append_eq_nil_iff.mp (append_eq_nil_iff.mp empty).2).1
  split := bounds

theorem ZoneOk.drop (more : front ++ back ≠ [])
    (bounds : minZoneSplit ≤ newSplit ∧ newSplit ≤ maxZoneSplit) :
    ZoneOk ⟨front ++ back, newSplit, isOpen⟩ := by
  have few := ok.few
  rw [length_append, length_cons, ← Nat.add_assoc, ← length_append] at few
  have some_left := length_pos_iff.mpr more
  have single : (front ++ back).length = 1 := by
    unfold maxZoneSections at few
    omega
  have listed : ∀ other ∈ front ++ back, other ∈ front ++ held :: back := by
    intro other present
    cases mem_append.mp present with
    | inl before => exact mem_append_left _ before
    | inr behind => exact mem_append_right _ (mem_cons_of_mem _ behind)
  have fuller : ∀ other ∈ front ++ back, other.tabs ≠ [] := by
    intro other present empty
    have alone := ok.occupied other (listed other present) empty
    rw [length_append, length_cons, ← Nat.add_assoc, ← length_append] at alone
    omega
  refine ⟨more, ?_, fun _ _ _ => single, fun other present => ok.active other (listed other present),
    ?_, ?_, bounds⟩
  · unfold maxZoneSections
    exact single.trans_le (by decide)
  · have once := ok.once
    rw [zoneTabs_hole] at once
    change (tabsOf (front ++ back)).Nodup
    rw [tabsOf_append]
    exact once.sublist (List.Sublist.append (List.Sublist.refl _) (sublist_append_right _ _))
  · intro empty
    obtain ⟨other, present⟩ := exists_mem_of_ne_nil _ more
    obtain ⟨id, there⟩ := exists_mem_of_ne_nil _ (fuller other present)
    have inside : id ∈ tabsOf (front ++ back) := mem_tabsOf.mpr ⟨other, present, there⟩
    rw [show tabsOf (front ++ back) = [] from empty] at inside
    cases inside

end

end Hole

/-! ## Removal -/

theorem activeOk_withoutTab (active : ActiveOk held) (id : String) :
    ActiveOk (withoutTab held id) := by
  unfold ActiveOk withoutTab activeAfterRemoval
  dsimp only
  by_cases other : held.activeTab ≠ some id
  · rw [if_pos other]
    unfold ActiveOk at active
    cases shown : held.activeTab with
    | none =>
      rw [shown] at active
      simp [active]
    | some tab =>
      rw [shown] at active other
      exact mem_filter.mpr ⟨active, decide_eq_true fun same => other (congrArg _ same)⟩
  · rw [if_neg other]
    split
    · rename_i shown
      exact mem_of_getElem? shown
    · rename_i beyond
      have short := List.getElem?_eq_none_iff.mp beyond
      refine eq_nil_of_length_eq_zero ?_
      omega

theorem sectionIn_eq_some {zone : DockZoneState} (found : sectionIn zone id = some place) :
    ∃ front held back, zone.sections = front ++ held :: back ∧ front.length = place ∧
      id ∈ held.tabs := by
  obtain ⟨within, inside, _⟩ := List.findIdx?_eq_some_iff_getElem.mp found
  obtain ⟨front, back, split, length⟩ := split_at (getElem?_eq_getElem within)
  exact ⟨front, _, back, split, length, of_decide_eq_true inside⟩

theorem sectionIn_eq_none {zone : DockZoneState} :
    sectionIn zone id = none ↔ id ∉ zoneTabs zone := by
  unfold sectionIn zoneTabs
  rw [findIdx?_eq_none_iff, mem_flatMap]
  constructor
  · rintro missing ⟨held, listed, inside⟩
    exact absurd inside (of_decide_eq_false (missing held listed))
  · intro missing held listed
    exact decide_eq_false fun inside => missing ⟨held, listed, inside⟩

theorem mem_dockZoneIds (zone : DockZoneId) : zone ∈ dockZoneIds := by
  cases zone <;> decide

theorem sectionOf_eq_none :
    sectionOf state id = none ↔ ∀ zone, id ∉ zoneTabs (state.zones zone) := by
  unfold sectionOf
  rw [findSome?_eq_none_iff]
  constructor
  · intro missing zone
    have here := missing zone (mem_dockZoneIds zone)
    rw [Option.map_eq_none_iff] at here
    exact sectionIn_eq_none.mp here
  · intro missing zone _
    rw [Option.map_eq_none_iff]
    exact sectionIn_eq_none.mpr (missing zone)

theorem sectionOf_eq_some (found : sectionOf state id = some (zone, place)) :
    sectionIn (state.zones zone) id = some place := by
  obtain ⟨other, _, here⟩ := exists_of_findSome?_eq_some found
  obtain ⟨place', inside, same⟩ := Option.map_eq_some_iff.mp here
  cases same
  exact inside

theorem homeIn_sectionOf (ok : WellFormed state) (id : String) (zone : DockZoneId) :
    homeIn (sectionOf state id) zone = sectionIn (state.zones zone) id := by
  unfold homeIn
  cases found : sectionOf state id with
  | none => exact (sectionIn_eq_none.mpr (sectionOf_eq_none.mp found zone)).symm
  | some place =>
    obtain ⟨other, place⟩ := place
    have inside := sectionOf_eq_some found
    rw [Option.bind_some]
    dsimp only
    split
    · rename_i same
      rw [← same, inside]
    · rename_i apart
      symm
      refine sectionIn_eq_none.mpr fun here => apart (ok.apart other zone id ?_ here)
      by_contra missing
      rw [sectionIn_eq_none.mpr missing] at inside
      cases inside

/-- A section keeps a tab of its own unless it is the sole one. -/
theorem withoutTab_tabs (held : DockSectionState) (id : String) :
    (withoutTab held id).tabs = held.tabs.filter (· ≠ id) := rfl

theorem defaultZoneSplit_bounds :
    minZoneSplit ≤ defaultZoneSplit ∧ defaultZoneSplit ≤ maxZoneSplit := by
  decide +kernel

/-- What taking a panel out of its section does. -/
theorem removeAt_spec {zone : DockZoneState} (ok : ZoneOk zone)
    (split : zone.sections = front ++ held :: back) (inside : id ∈ held.tabs) :
    ((removeAt zone front.length held id).sections = front ++ back ∧ held.tabs = [id] ∧
        front ++ back ≠ [] ∨
      (removeAt zone front.length held id).sections = front ++ withoutTab held id :: back ∧
        (held.tabs.filter (· ≠ id) = [] → front ++ back = [])) ∧
    ZoneOk (removeAt zone front.length held id) := by
  obtain ⟨sections, share, isOpen⟩ := zone
  dsimp only at split
  subst split
  obtain ⟨out_front, out_back⟩ := ok.hole inside
  have held_once : held.tabs.Nodup := by
    have once := ok.once
    rw [zoneTabs_hole] at once
    exact (nodup_append.mp (nodup_append.mp once).2.1).1
  have longer : 1 < (front ++ held :: back).length ↔ front ++ back ≠ [] := by
    rw [← length_pos_iff, length_append, length_append, length_cons]
    omega
  unfold removeAt
  dsimp only
  rw [withoutTab_tabs]
  by_cases dropped : held.tabs.filter (· ≠ id) = [] ∧ 1 < (front ++ held :: back).length
  · have more := longer.mp dropped.2
    have sole : held.tabs = [id] := by
      have only : ∀ tab ∈ held.tabs, tab = id := by
        intro tab listed
        by_contra different
        have kept : tab ∈ held.tabs.filter (· ≠ id) :=
          mem_filter.mpr ⟨listed, decide_eq_true different⟩
        rw [dropped.1] at kept
        cases kept
      have replicated := eq_replicate_of_mem only
      rw [replicated] at held_once inside ⊢
      have short := List.nodup_replicate.mp held_once
      have positive := (List.mem_replicate.mp inside).1
      rw [show held.tabs.length = 1 by omega]
      rfl
    have shrunk := ok.drop more defaultZoneSplit_bounds
    rw [if_pos dropped, eraseIdx_at]
    have fuller : ¬ (front ++ back).all (·.tabs = []) = true := by
      intro empty
      have single : (front ++ back).length = 1 := by
        have few := ok.few
        have positive := length_pos_iff.mpr more
        rw [length_append, length_cons, ← Nat.add_assoc, ← length_append] at few
        unfold maxZoneSections at few
        omega
      obtain ⟨other, present⟩ := exists_mem_of_ne_nil _ more
      have blank : other.tabs = [] := of_decide_eq_true (List.all_eq_true.mp empty other present)
      have listed : other ∈ front ++ held :: back := by
        cases mem_append.mp present with
        | inl before => exact mem_append_left _ before
        | inr behind => exact mem_append_right _ (mem_cons_of_mem _ behind)
      have alone := ok.occupied other listed blank
      rw [length_append, length_cons, ← Nat.add_assoc, ← length_append] at alone
      omega
    rw [if_neg fuller, if_pos (by simp)]
    exact ⟨.inl ⟨rfl, sole, more⟩, shrunk⟩
  · rw [if_neg dropped, set_at, if_neg (by simp)]
    have alone : held.tabs.filter (· ≠ id) = [] → front ++ back = [] := by
      intro empty
      by_contra more
      exact dropped ⟨empty, longer.mpr more⟩
    refine ⟨.inr ⟨rfl, alone⟩, ?_⟩
    refine ok.replace ?_ ?_ ?_ ?_ ?_ ok.split
    · intro empty
      exact append_eq_nil_iff.mp (alone empty)
    · exact activeOk_withoutTab (ok.active held (by simp)) id
    · exact held_once.filter _
    · intro other listed
      exact ok.hole (mem_filter.mp listed).1
    · intro empty
      have bare := append_eq_nil_iff.mp (alone empty)
      rw [bare.1, bare.2]
      exact if_pos (by simpa using empty)

/-- A removal takes a panel out and leaves the others where they are. -/
structure Removed (id : String) (before after : DockZoneState) : Prop where
  tabs : zoneTabs after = (zoneTabs before).filter (· ≠ id)
  outline : outline id after = outline id before

theorem Removed.refl {zone : DockZoneState} (missing : id ∉ zoneTabs zone) : Removed id zone zone :=
  ⟨(filter_ne_of_notMem missing).symm, rfl⟩

theorem removeAt_removed {zone : DockZoneState} (ok : ZoneOk zone)
    (split : zone.sections = front ++ held :: back) (inside : id ∈ held.tabs) :
    Removed id zone (removeAt zone front.length held id) := by
  have spec := (removeAt_spec ok split inside).1
  have hole := ok
  obtain ⟨sections, share, isOpen⟩ := zone
  dsimp only at split
  subst split
  obtain ⟨out_front, out_back⟩ := hole.hole inside
  have before : (zoneTabs ⟨front ++ held :: back, share, isOpen⟩).filter (· ≠ id) =
      tabsOf front ++ (held.tabs.filter (· ≠ id) ++ tabsOf back) := by
    rw [zoneTabs_hole, filter_append, filter_append, filter_ne_of_notMem out_front,
      filter_ne_of_notMem out_back]
  cases spec with
  | inl dropped =>
    obtain ⟨sections, sole, _⟩ := dropped
    have empty : held.tabs.filter (· ≠ id) = [] := by
      rw [sole]
      simp
    constructor
    · rw [before, empty]
      unfold zoneTabs
      rw [sections]
      exact tabsOf_append front back
    · unfold outline
      rw [sections, map_append, map_append, map_cons, filter_append,
        filter_append, empty, filter_cons_of_neg (by simp)]
  | inr kept =>
    obtain ⟨sections, _⟩ := kept
    constructor
    · rw [before]
      unfold zoneTabs
      rw [sections]
      exact tabsOf_append front (withoutTab held id :: back)
    · unfold outline
      rw [sections, map_append, map_append, map_cons, map_cons, withoutTab_tabs, List.filter_filter]
      simp

theorem removeFromZone_of_section (found : sectionOf state id = some (zone, front.length))
    (split : (state.zones zone).sections = front ++ held :: back) : removeFromZone state id =
      withZone state zone (removeAt (state.zones zone) front.length held id) := by
  have there : (state.zones zone).sections[front.length]? = some held := by
    rw [split, getElem?_append_right le_rfl, Nat.sub_self, getElem?_cons_zero]
  unfold removeFromZone
  rw [found]
  dsimp only
  rw [there]

theorem removeFromZone_spec (ok : WellFormed state) (id : String) :
    WellFormed (removeFromZone state id) ∧
      ∀ zone, Removed id (state.zones zone) ((removeFromZone state id).zones zone) := by
  cases found : sectionOf state id with
  | none =>
    have missing := sectionOf_eq_none.mp found
    have same : removeFromZone state id = state := by
      unfold removeFromZone
      rw [found]
    rw [same]
    exact ⟨ok, fun zone => .refl (missing zone)⟩
  | some origin =>
    obtain ⟨zone, place⟩ := origin
    obtain ⟨front, held, back, split, rfl, inside⟩ := sectionIn_eq_some (sectionOf_eq_some found)
    have removed := removeAt_removed (ok.zone zone) split inside
    rw [removeFromZone_of_section found split]
    refine ⟨ok.withZone_of_subset (removeAt_spec (ok.zone zone) split inside).2 ?_, ?_⟩
    · rw [removed.tabs]
      exact fun _ listed => (mem_filter.mp listed).1
    · intro other
      by_cases same : other = zone
      · rw [same, withZone_same]
        exact removed
      · rw [withZone_other _ _ same]
        refine .refl fun there => same (ok.apart other zone id there ?_)
        unfold zoneTabs
        rw [split]
        exact mem_flatMap.mpr ⟨held, mem_append_right _ mem_cons_self, inside⟩

theorem notMem_removeFromZone (ok : WellFormed state) (id : String) (zone : DockZoneId) :
    id ∉ zoneTabs ((removeFromZone state id).zones zone) := by
  rw [((removeFromZone_spec ok id).2 zone).tabs]
  intro listed
  exact of_decide_eq_true (mem_filter.mp listed).2 rfl

theorem setZoneOpen_wellFormed (ok : WellFormed state) (zone : DockZoneId) (isOpen : Bool) :
    WellFormed (setZoneOpen state zone isOpen) := by
  unfold setZoneOpen
  dsimp only
  split
  · exact ok
  · have zone_ok := ok.zone zone
    refine ok.withZone_of_subset { zone_ok with closed := ?_ } (fun _ listed => listed)
    intro empty
    have none_there : zoneTabs (state.zones zone) = [] := empty
    simp [none_there]

theorem clampZoneSplit_bounds (split : Rat) :
    minZoneSplit ≤ clampZoneSplit split ∧ clampZoneSplit split ≤ maxZoneSplit :=
  ⟨le_min (by decide +kernel) (le_max_left _ _), min_le_left _ _⟩

theorem setZoneSplit_wellFormed (ok : WellFormed state) (zone : DockZoneId) (split : Rat) :
    WellFormed (setZoneSplit state zone split) := by
  unfold setZoneSplit
  dsimp only
  split
  · exact ok
  · exact ok.withZone_of_subset
      { ok.zone zone with split := clampZoneSplit_bounds split } (fun _ listed => listed)

theorem activatePanelTab_wellFormed (ok : WellFormed state) (zone : DockZoneId) (id : String) :
    WellFormed (activatePanelTab state zone id) := by
  unfold activatePanelTab
  dsimp only
  split
  · exact ok
  · rename_i place found
    obtain ⟨front, held, back, split, rfl, inside⟩ := sectionIn_eq_some found
    split
    · exact ok
    · rename_i other there
      rw [split, getElem?_append_right le_rfl, Nat.sub_self, getElem?_cons_zero] at there
      cases there
      split
      · exact ok
      · have zone_ok := ok.zone zone
        rw [split, set_at]
        refine ok.withZone_of_subset ?_ ?_
        · have hole := zone_ok.at_split split
          refine hole.replace ?_ inside ?_ ?_ ?_ hole.split
          · intro empty
            rw [show held.tabs = [] from empty] at inside
            cases inside
          · have once := hole.once
            rw [zoneTabs_hole] at once
            exact (nodup_append.mp (nodup_append.mp once).2.1).1
          · intro tab listed
            exact hole.hole listed
          · intro empty
            rw [show held.tabs = [] from empty] at inside
            cases inside
        · unfold zoneTabs
          rw [split]
          change tabsOf _ ⊆ tabsOf _
          rw [tabsOf_append, tabsOf_append, tabsOf_cons, tabsOf_cons]
          exact List.Subset.refl _

theorem insertTab_perm (tabs : List String) (id : String) (index : Option Rat) :
    (insertTab tabs id index).Perm (id :: tabs) := by
  unfold insertTab
  refine perm_middle.trans ?_
  rw [take_append_drop]

theorem insertTab_others {tabs : List String} (index : Option Rat) (missing : id ∉ tabs) :
    (insertTab tabs id index).filter (· ≠ id) = tabs := by
  unfold insertTab
  rw [filter_append, filter_cons_of_neg (by simp), ← filter_append,
    take_append_drop, filter_ne_of_notMem missing]

theorem insertTab_nil (id : String) (index : Option Rat) : insertTab [] id index = [id] := by
  unfold insertTab
  simp

def putInto (zone : DockZoneState) (front : List DockSectionState) (into : DockSectionState)
    (back : List DockSectionState) (id : String) (index : Option Rat) : DockZoneState :=
  ⟨front ++ ⟨insertTab into.tabs id index, some id⟩ :: back, zone.split, true⟩

theorem putInto_ok {zone : DockZoneState} (ok : ZoneOk zone) (missing : id ∉ zoneTabs zone)
    (split : zone.sections = front ++ into :: back) (index : Option Rat) :
    ZoneOk (putInto zone front into back id index) := by
  obtain ⟨sections, share, isOpen⟩ := zone
  dsimp only at split
  subst split
  rw [zoneTabs_hole] at missing
  have members := fun tab => (insertTab_perm into.tabs id index).mem_iff (a := tab)
  have full : insertTab into.tabs id index ≠ [] := by
    intro empty
    have listed := (members id).mpr mem_cons_self
    rw [empty] at listed
    cases listed
  refine ok.replace ?_ ?_ ?_ ?_ ?_ ok.split
  · exact fun empty => absurd empty full
  · exact (members id).mpr mem_cons_self
  · refine (insertTab_perm into.tabs id index).nodup_iff.mpr (nodup_cons.mpr ⟨?_, ?_⟩)
    · exact fun listed => missing (mem_append_right _ (mem_append_left _ listed))
    · have once := ok.once
      rw [zoneTabs_hole] at once
      exact (nodup_append.mp (nodup_append.mp once).2.1).1
  · intro tab listed
    cases mem_cons.mp ((members tab).mp listed) with
    | inl same =>
      rw [same]
      exact ⟨fun before => missing (mem_append_left _ before), fun behind =>
        missing (mem_append_right _ (mem_append_right _ behind))⟩
    | inr old => exact ok.hole old
  · exact fun empty => absurd empty full

/-- The zone a panel is docked in, as far as the panel is concerned: the section it is in shows
it and holds it where it was asked for, and the other panels are as they were. -/
structure Docked (id : String) (index : Option Rat) (rest : List String)
    (before after : DockZoneState) : Prop where
  section_there : ⟨insertTab rest id index, some id⟩ ∈ after.sections
  others : outline id after = outline id before
  isOpen : after.isOpen = true

theorem putInto_docked {zone : DockZoneState} (missing : id ∉ zoneTabs zone)
    (split : zone.sections = front ++ into :: back) (index : Option Rat) :
    Docked id index into.tabs zone (putInto zone front into back id index) where
  section_there := mem_append_right _ mem_cons_self
  others := by
    have absent : id ∉ into.tabs := by
      intro listed
      refine missing (mem_flatMap.mpr ⟨into, ?_, listed⟩)
      rw [split]
      exact mem_append_right _ mem_cons_self
    unfold outline putInto
    rw [split, map_append, map_append, map_cons, map_cons,
      insertTab_others index absent, filter_ne_of_notMem absent]
  isOpen := rfl

theorem insertInto_eq {removed : PanelDockState}
    (split : (removed.zones zone).sections = front ++ into :: back) (index : Option Rat) :
    insertInto removed zone id index (some front.length) =
      some (withZone removed zone (putInto (removed.zones zone) front into back id index)) := by
  unfold insertInto putInto
  rw [Option.bind_some, split, getElem?_append_right le_rfl, Nat.sub_self,
    getElem?_cons_zero, Option.map_some, set_at]

theorem insertInto_eq_some {removed next : PanelDockState} {target : Option Nat}
    (inserted : insertInto removed zone id index target = some next) :
    ∃ front into back, (removed.zones zone).sections = front ++ into :: back ∧
      target = some front.length ∧
      next = withZone removed zone (putInto (removed.zones zone) front into back id index) := by
  obtain ⟨place, rfl, found⟩ := Option.bind_eq_some_iff.mp inserted
  obtain ⟨into, there, _⟩ := Option.map_eq_some_iff.mp found
  obtain ⟨front, back, split, rfl⟩ := split_at there
  rw [insertInto_eq split] at inserted
  exact ⟨front, into, back, split, rfl, (Option.some.inj inserted).symm⟩

/-- A zone with a new section for a panel. -/
def putBehind (zone : DockZoneState) (id : String) : DockZoneState :=
  { zone with sections := zone.sections ++ [⟨[id], some id⟩], isOpen := true }

theorem putBehind_ok {zone : DockZoneState} (ok : ZoneOk zone) (missing : id ∉ zoneTabs zone)
    (room : zone.sections.length < maxZoneSections)
    (occupied : zone.sections.all (·.tabs ≠ []) = true) : ZoneOk (putBehind zone id) := by
  have tabs : zoneTabs (putBehind zone id) = zoneTabs zone ++ [id] := tabsOf_append _ _
  have full : ∀ held ∈ (putBehind zone id).sections, held.tabs ≠ [] := by
    intro held listed
    cases mem_append.mp listed with
    | inl old => exact of_decide_eq_true (List.all_eq_true.mp occupied held old)
    | inr new =>
      rw [mem_singleton.mp new]
      exact cons_ne_nil _ _
  refine ⟨append_ne_nil_of_right_ne_nil _ (cons_ne_nil _ _), ?_, ?_, ?_, ?_, ?_, ok.split⟩
  · exact (length_append ..).trans_le room
  · exact fun held listed empty => absurd empty (full held listed)
  · exact forall_mem_append.mpr ⟨ok.active, forall_mem_singleton.mpr (mem_singleton_self id)⟩
  · rw [tabs]
    refine nodup_append.mpr ⟨ok.once, nodup_singleton id, ?_⟩
    intro other old last single same
    rw [mem_singleton.mp single] at same
    exact missing (same ▸ old)
  · intro empty
    rw [tabs] at empty
    cases (append_eq_nil_iff.mp empty).2

theorem putBehind_docked (zone : DockZoneState) (id : String) (index : Option Rat) :
    Docked id index [] zone (putBehind zone id) where
  section_there := by
    rw [insertTab_nil]
    exact mem_append_right _ (mem_singleton_self _)
  others := by
    unfold outline putBehind
    rw [map_append, filter_append, map_singleton]
    simp
  isOpen := rfl

theorem dockPanelTab_cases {next : PanelDockState}
    (docked : dockPanelTab state id zone index asked = some next) :
    staysAlone (state.zones zone) (homeIn (sectionOf state id) zone) asked = true ∧
        next = setZoneOpen state zone true ∨
      staysAlone (state.zones zone) (homeIn (sectionOf state id) zone) asked = false ∧
      ((((removeFromZone state id).zones zone).sections.length : Rat) ≤
            dockTarget (state.zones zone) ((removeFromZone state id).zones zone)
              (homeIn (sectionOf state id) zone) asked ∧
          ((removeFromZone state id).zones zone).sections.length < maxZoneSections ∧
          ((removeFromZone state id).zones zone).sections.all (·.tabs ≠ []) = true ∧
          next = withZone (removeFromZone state id) zone
            (putBehind ((removeFromZone state id).zones zone) id) ∨ ∃ front into back,
          ((removeFromZone state id).zones zone).sections = front ++ into :: back ∧
          next = withZone (removeFromZone state id) zone
            (putInto ((removeFromZone state id).zones zone) front into back id index) ∧
          ((((removeFromZone state id).zones zone).sections.length : Rat) ≤
              dockTarget (state.zones zone) ((removeFromZone state id).zones zone)
                (homeIn (sectionOf state id) zone) asked ∨
            positionOf (dockTarget (state.zones zone) ((removeFromZone state id).zones zone)
              (homeIn (sectionOf state id) zone) asked) = some front.length)) := by
  unfold dockPanelTab at docked
  dsimp only at docked
  split at docked
  · rename_i stays
    exact .inl ⟨stays, (Option.some.inj docked).symm⟩
  · rename_i moves
    refine .inr ⟨Bool.eq_false_iff.mpr moves, ?_⟩
    split at docked
    · rename_i beyond
      split at docked
      · rename_i room
        exact .inl ⟨beyond, room.1, room.2, (Option.some.inj docked).symm⟩
      · obtain ⟨front, into, back, split, _, same⟩ := insertInto_eq_some docked
        exact .inr ⟨front, into, back, split, same, .inl beyond⟩
    · obtain ⟨front, into, back, split, target, same⟩ := insertInto_eq_some docked
      exact .inr ⟨front, into, back, split, same, .inr target⟩

/-! ### The section that was asked for -/

theorem position_cases {old : DockSectionState}
    (found : (front ++ held :: back)[place]? = some old) : (place = front.length ∧ old = held) ∨
      (∃ before behind, front = before ++ old :: behind ∧ place = before.length) ∨
      ∃ before behind, back = before ++ old :: behind ∧
        place = front.length + 1 + before.length := by
  rcases Nat.lt_trichotomy place front.length with less | same | more
  · rw [getElem?_append_left less] at found
    obtain ⟨before, behind, split, length⟩ := split_at found
    exact .inr (.inl ⟨before, behind, split, length.symm⟩)
  · rw [same, getElem?_append_right le_rfl, Nat.sub_self, getElem?_cons_zero] at found
    exact .inl ⟨same, (Option.some.inj found).symm⟩
  · obtain ⟨rest, rfl⟩ := Nat.exists_eq_add_of_lt more
    have step : front.length + rest + 1 - front.length = rest + 1 := by omega
    rw [getElem?_append_right more.le, step, getElem?_cons_succ] at found
    obtain ⟨before, behind, split, length⟩ := split_at found
    exact .inr (.inr ⟨before, behind, split, by omega⟩)

theorem removeFromZone_away (ok : WellFormed state)
    (away : sectionIn (state.zones zone) id = none) :
    (removeFromZone state id).zones zone = state.zones zone := by
  cases found : sectionOf state id with
  | none =>
    unfold removeFromZone
    rw [found]
  | some origin =>
    obtain ⟨other, place⟩ := origin
    obtain ⟨front, held, back, split, rfl, _⟩ := sectionIn_eq_some (sectionOf_eq_some found)
    rw [removeFromZone_of_section found split]
    refine withZone_other _ _ fun same => ?_
    have here := homeIn_sectionOf ok id zone
    rw [found, away] at here
    simp [homeIn, same] at here

theorem removeFromZone_home (ok : WellFormed state)
    (home : sectionIn (state.zones zone) id = some front.length)
    (split : (state.zones zone).sections = front ++ held :: back) :
    (removeFromZone state id).zones zone = removeAt (state.zones zone) front.length held id := by
  have found : sectionOf state id = some (zone, front.length) := by
    have here := homeIn_sectionOf ok id zone
    rw [home] at here
    obtain ⟨origin, found, place⟩ := Option.bind_eq_some_iff.mp here
    rw [found]
    split at place
    · rename_i same
      rw [← Option.some.inj place, ← same]
    · cases place
  rw [removeFromZone_of_section found split, withZone_same]

theorem dockTarget_still {after : DockZoneState} {home : Option Nat}
    (requested : asked.getD ((home.getD 0 : Nat) : Rat) = place)
    (still : ∀ from', home = some from' →
      after.sections.length = before.sections.length ∨ place ≤ from') :
    dockTarget before after home asked = place := by
  unfold dockTarget
  dsimp only
  rw [requested]
  have unshifted : (home.any fun (from' : Nat) =>
      after.sections.length < before.sections.length && decide ((from' : Rat) < place)) = false := by
    cases home with
    | none => rfl
    | some from' =>
      rw [Option.any_some, Bool.and_eq_false_iff]
      cases still from' rfl with
      | inl same => exact .inl (decide_eq_false (by omega))
      | inr less => exact .inr (decide_eq_false (by rw [Nat.cast_lt]; omega))
  rw [unshifted, if_neg Bool.false_ne_true]
  exact max_eq_right (Nat.cast_nonneg place)

theorem dockTarget_shifted {after : DockZoneState} {from' : Nat}
    (requested : asked.getD (from' : Rat) = ((place + 1 : Nat) : Rat))
    (fewer : after.sections.length < before.sections.length) (behind : from' ≤ place) :
    dockTarget before after (some from') asked = place := by
  unfold dockTarget
  dsimp only
  rw [Option.getD_some, requested]
  have shifted : (Option.any (fun from' : Nat =>
      decide (after.sections.length < before.sections.length) &&
        decide ((from' : Rat) < ((place + 1 : Nat) : Rat))) (some from')) = true := by
    rw [Option.any_some, Bool.and_eq_true]
    exact ⟨decide_eq_true fewer, decide_eq_true (Nat.cast_lt.mpr (by omega))⟩
  rw [if_pos shifted, Nat.cast_add, Nat.cast_one, add_sub_cancel_right]
  exact max_eq_right (Nat.cast_nonneg place)

theorem target_found (ok : WellFormed state) {old : DockSectionState}
    (moves : staysAlone (state.zones zone) (homeIn (sectionOf state id) zone) asked = false)
    (requested : asked.getD (((homeIn (sectionOf state id) zone).getD 0 : Nat) : Rat) = place)
    (there : (state.zones zone).sections[place]? = some old) : ∃ front into back,
      ((removeFromZone state id).zones zone).sections = front ++ into :: back ∧
      dockTarget (state.zones zone) ((removeFromZone state id).zones zone)
        (homeIn (sectionOf state id) zone) asked = front.length ∧
      into.tabs = old.tabs.filter (· ≠ id) := by
  rw [homeIn_sectionOf ok] at moves requested ⊢
  cases home : sectionIn (state.zones zone) id with
  | none =>
    rw [home] at requested
    rw [removeFromZone_away ok home]
    obtain ⟨front, back, split, rfl⟩ := split_at there
    refine ⟨front, old, back, split, dockTarget_still requested nofun, ?_⟩
    refine (filter_ne_of_notMem fun listed => ?_).symm
    refine sectionIn_eq_none.mp home (mem_flatMap.mpr ⟨old, ?_, listed⟩)
    rw [split]
    exact mem_append_right _ mem_cons_self
  | some origin =>
    obtain ⟨first, held, last, split, rfl, inside⟩ := sectionIn_eq_some home
    have zone_ok := ok.zone zone
    have apart : ∀ other ∈ first ++ last, other.tabs = other.tabs.filter (· ≠ id) := by
      intro other listed
      refine (filter_ne_of_notMem fun twice => ?_).symm
      have nowhere := (zone_ok.at_split split).hole inside
      cases mem_append.mp listed with
      | inl before => exact nowhere.1 (mem_tabsOf.mpr ⟨other, before, twice⟩)
      | inr behind => exact nowhere.2 (mem_tabsOf.mpr ⟨other, behind, twice⟩)
    rw [home] at requested moves
    rw [split] at there
    rw [removeFromZone_home ok home split]
    have lengths : (state.zones zone).sections.length = first.length + last.length + 1 := by
      rw [split, length_append, length_cons]
      omega
    cases (removeAt_spec zone_ok split inside).1 with
    | inl dropped =>
      obtain ⟨sections, sole, _⟩ := dropped
      have shorter : (removeAt (state.zones zone) first.length held id).sections.length =
          first.length + last.length := by
        rw [sections, length_append]
      rcases position_cases there with ⟨rfl, rfl⟩ | ⟨before, behind, rfl, rfl⟩ |
        ⟨before, behind, rfl, rfl⟩
      · -- A panel that is asked to its own section, which it leaves empty, stays.
        exfalso
        have alone : staysAlone (state.zones zone) (some first.length) asked = true := by
          unfold staysAlone
          rw [Option.any_some, split, getElem?_append_right le_rfl, Nat.sub_self,
            getElem?_cons_zero, Option.any_some, sole]
          cases asked with
          | none => rfl
          | some asked => simpa using requested
        rw [alone] at moves
        cases moves
      · refine ⟨before, old, behind ++ last, by rw [sections, append_assoc]; rfl, ?_,
          apart old (by simp)⟩
        refine dockTarget_still requested fun from' same => .inr ?_
        rw [← Option.some.inj same, length_append]
        omega
      · refine ⟨first ++ before, old, behind, by rw [sections, append_assoc], ?_,
          apart old (by simp)⟩
        rw [length_append]
        refine dockTarget_shifted ?_ (by omega) (by omega)
        refine requested.trans ?_
        congr 1
        omega
    | inr kept =>
      obtain ⟨sections, _⟩ := kept
      have same_length : (removeAt (state.zones zone) first.length held id).sections.length =
          (state.zones zone).sections.length := by
        rw [sections, lengths, length_append, length_cons]
        omega
      have target := dockTarget_still requested fun _ _ => .inl same_length
      rcases position_cases there with ⟨rfl, rfl⟩ | ⟨before, behind, rfl, rfl⟩ |
        ⟨before, behind, rfl, rfl⟩
      · exact ⟨first, withoutTab old id, last, sections, target, rfl⟩
      · refine ⟨before, old, behind ++ withoutTab held id :: last, ?_, target, apart old (by simp)⟩
        rw [sections, append_assoc]
        rfl
      · refine ⟨first ++ withoutTab held id :: before, old, behind, ?_, ?_, apart old (by simp)⟩
        · rw [sections, append_assoc]
          rfl
        · rw [target, length_append, length_cons]
          congr 1
          omega

theorem positionOf_natCast (place : Nat) : positionOf (place : Rat) = some place := by
  unfold positionOf
  rw [if_pos ⟨Rat.den_natCast place, Nat.cast_nonneg place⟩, Rat.num_natCast, Int.toNat_natCast]

theorem staysAlone_spec {zone : DockZoneState}
    (stays : staysAlone zone (sectionIn zone id) asked = true) :
    ∃ front held back, zone.sections = front ++ held :: back ∧ held.tabs = [id] ∧
      sectionIn zone id = some front.length ∧ ∀ number, asked = some number →
        number = front.length := by
  unfold staysAlone at stays
  cases home : sectionIn zone id with
  | none =>
    rw [home] at stays
    cases stays
  | some place =>
    obtain ⟨front, held, back, split, rfl, inside⟩ := sectionIn_eq_some home
    rw [home, Option.any_some, Bool.and_eq_true, split, getElem?_append_right le_rfl,
      Nat.sub_self, getElem?_cons_zero, Option.any_some] at stays
    refine ⟨front, held, back, split, ?_, rfl, ?_⟩
    · obtain ⟨tab, single⟩ := List.length_eq_one_iff.mp (of_decide_eq_true stays.2)
      rw [single] at inside
      rw [single, mem_singleton.mp inside]
    · rintro number rfl
      exact of_decide_eq_true stays.1

theorem setZoneOpen_zone (full : zoneTabs (state.zones zone) ≠ []) :
    (setZoneOpen state zone true).zones zone = { state.zones zone with isOpen := true } := by
  have next : (true && decide ((zoneTabs (state.zones zone)).length > 0)) = true := by
    rw [Bool.true_and]
    exact decide_eq_true (length_pos_iff.mpr full)
  unfold setZoneOpen
  dsimp only
  rw [next]
  split
  · rename_i already
    rw [already]
  · rw [withZone_same]

theorem setZoneOpen_other {other : DockZoneId} (isOpen : Bool) (apart : other ≠ zone) :
    (setZoneOpen state zone isOpen).zones other = state.zones other := by
  unfold setZoneOpen
  dsimp only
  split
  · rfl
  · exact withZone_other _ _ apart

theorem staysAlone_docked (ok : WellFormed state)
    (split : (state.zones zone).sections = front ++ held :: back) (sole : held.tabs = [id])
    (index : Option Rat) :
    Docked id index [] (state.zones zone) ((setZoneOpen state zone true).zones zone) := by
  have listed : held ∈ (state.zones zone).sections := by
    rw [split]
    exact mem_append_right _ mem_cons_self
  have full : zoneTabs (state.zones zone) ≠ [] := by
    refine ne_nil_of_mem (a := id) (mem_flatMap.mpr ⟨held, listed, ?_⟩)
    rw [sole]
    exact mem_singleton_self id
  have active := (ok.zone zone).active held listed
  rw [setZoneOpen_zone full]
  refine ⟨?_, rfl, rfl⟩
  rw [insertTab_nil]
  unfold ActiveOk at active
  obtain ⟨tabs, activeTab⟩ := held
  dsimp only at sole active
  subst sole
  cases activeTab with
  | none => cases active
  | some tab =>
    rw [mem_singleton.mp active] at listed
    exact listed

theorem mem_outline {zone : DockZoneState} (missing : id ∉ zoneTabs zone)
    (listed : held ∈ zone.sections) : held.tabs = [] ∨ held.tabs ∈ outline id zone := by
  by_cases empty : held.tabs = []
  · exact .inl empty
  · have whole : held.tabs.filter (· ≠ id) = held.tabs :=
      filter_ne_of_notMem fun inside => missing (mem_flatMap.mpr ⟨held, listed, inside⟩)
    refine .inr (mem_filter.mpr ⟨List.mem_map.mpr ⟨held, listed, whole⟩, ?_⟩)
    exact decide_eq_true empty

structure DockedAs (state next : PanelDockState) (id : String) (zone : DockZoneId)
    (index asked : Option Rat) : Prop where
  wellFormed : WellFormed next
  others : ∀ other, outline id (next.zones other) = outline id (state.zones other)
  placed : ∃ rest, (rest = [] ∨ rest ∈ outline id (state.zones zone)) ∧
    Docked id index rest (state.zones zone) (next.zones zone)
  requested : ∀ (place : Nat) (old : DockSectionState),
    (state.zones zone).sections[place]? = some old →
    asked.getD ((sectionIn (state.zones zone) id).getD 0 : Nat) = place →
    Docked id index (old.tabs.filter (· ≠ id)) (state.zones zone) (next.zones zone)

theorem Docked.of_removed {rest : List String} {removed after : DockZoneState}
    (docked : Docked id index rest removed after) (removal : Removed id before removed) :
    Docked id index rest before after :=
  ⟨docked.section_there, docked.others.trans removal.outline, docked.isOpen⟩

theorem zoneTabs_putInto (zone : DockZoneState) (split : zone.sections = front ++ into :: back)
    (id : String) (index : Option Rat) :
    (zoneTabs (putInto zone front into back id index)).Perm (id :: zoneTabs zone) := by
  unfold zoneTabs
  rw [split]
  change (tabsOf (front ++ _ :: back)).Perm (id :: tabsOf (front ++ into :: back))
  rw [tabsOf_append, tabsOf_append, tabsOf_cons, tabsOf_cons]
  refine List.Perm.trans ?_ perm_middle
  refine List.Perm.append_left _ ?_
  exact (insertTab_perm into.tabs id index).append_right _

theorem dockPanelTab_spec {next : PanelDockState} (ok : WellFormed state)
    (docked : dockPanelTab state id zone index asked = some next) :
    DockedAs state next id zone index asked := by
  have removed_ok := (removeFromZone_spec ok id).1
  have removal := (removeFromZone_spec ok id).2
  have missing := notMem_removeFromZone ok id
  have cases := dockPanelTab_cases docked
  rw [homeIn_sectionOf ok] at cases
  rcases cases with ⟨stays, rfl⟩ | ⟨moves, ⟨beyond, room, occupied, rfl⟩ |
    ⟨front, into, back, split, rfl, target⟩⟩
  · obtain ⟨front, held, back, split, sole, home, same⟩ := staysAlone_spec stays
    have alone := staysAlone_docked ok split sole index
    refine ⟨setZoneOpen_wellFormed ok zone true, ?_, ⟨[], .inl rfl, alone⟩, ?_⟩
    · intro other
      by_cases here : other = zone
      · rw [here]
        exact alone.others
      · rw [setZoneOpen_other true here]
    · intro place old there requested
      have place_eq : place = front.length := by
        rw [home] at requested
        cases asked with
        | none => exact (Nat.cast_injective requested).symm
        | some number => exact Nat.cast_injective (requested.symm.trans (same number rfl))
      rw [split, place_eq, getElem?_append_right le_rfl, Nat.sub_self, getElem?_cons_zero] at there
      rw [← Option.some.inj there, sole]
      simpa using alone
  · have behind := putBehind_docked ((removeFromZone state id).zones zone) id index
    refine ⟨removed_ok.withZone (putBehind_ok (removed_ok.zone zone) (missing zone) room occupied) ?_,
      ?_, ⟨[], .inl rfl, ?_⟩, ?_⟩
    · intro tab listed other apart there
      have members : zoneTabs (putBehind ((removeFromZone state id).zones zone) id) =
          zoneTabs ((removeFromZone state id).zones zone) ++ [id] := tabsOf_append _ _
      rw [members] at listed
      cases mem_append.mp listed with
      | inl old => exact apart (removed_ok.apart other zone tab there old)
      | inr new => exact missing other (mem_singleton.mp new ▸ there)
    · intro other
      by_cases here : other = zone
      · rw [here, withZone_same]
        exact (behind.of_removed (removal zone)).others
      · rw [withZone_other _ _ here]
        exact (removal other).outline
    · rw [withZone_same]
      exact behind.of_removed (removal zone)
    · intro place old there requested
      rw [← homeIn_sectionOf ok] at moves requested beyond
      obtain ⟨front, into, back, split, target, _⟩ := target_found ok moves requested there
      rw [target, split, Nat.cast_le, length_append, length_cons] at beyond
      omega
  · have put := putInto_docked (missing zone) split index
    have into_there : into ∈ ((removeFromZone state id).zones zone).sections := by
      rw [split]
      exact mem_append_right _ mem_cons_self
    refine ⟨removed_ok.withZone (putInto_ok (removed_ok.zone zone) (missing zone) split index) ?_,
      ?_, ⟨into.tabs, ?_, ?_⟩, ?_⟩
    · intro tab listed other apart there
      cases mem_cons.mp ((zoneTabs_putInto _ split id index).mem_iff.mp listed) with
      | inl new => exact missing other (new ▸ there)
      | inr old => exact apart (removed_ok.apart other zone tab there old)
    · intro other
      by_cases here : other = zone
      · rw [here, withZone_same]
        exact (put.of_removed (removal zone)).others
      · rw [withZone_other _ _ here]
        exact (removal other).outline
    · rw [← (removal zone).outline]
      exact mem_outline (missing zone) into_there
    · rw [withZone_same]
      exact put.of_removed (removal zone)
    · intro place old there requested
      rw [← homeIn_sectionOf ok] at moves requested target
      obtain ⟨first, found, last, split', position, tabs⟩ := target_found ok moves requested there
      have lengths : first.length = front.length := by
        rw [position] at target
        cases target with
        | inl beyond =>
          rw [split', Nat.cast_le, length_append, length_cons] at beyond
          omega
        | inr inside =>
          rw [positionOf_natCast] at inside
          exact Option.some.inj inside
      have same : found = into := by
        rw [split'] at split
        obtain ⟨_, rest⟩ := append_inj split lengths
        exact (List.cons.inj rest).1
      rw [← tabs, same, withZone_same]
      exact put.of_removed (removal zone)

/-- A section that is asked for by an integer is always found. -/
theorem dockPanelTab_isSome (ok : WellFormed state) (id : String) (zone : DockZoneId)
    (index asked : Option Rat) (integral : ∀ number, asked = some number → number.den = 1) :
    (dockPanelTab state id zone index asked).isSome := by
  have removed_ok := (removeFromZone_spec ok id).1.zone zone
  have whole : ∃ place : Nat, dockTarget (state.zones zone) ((removeFromZone state id).zones zone)
      (homeIn (sectionOf state id) zone) asked = place := by
    have target : ∃ number : Int,
        asked.getD (((homeIn (sectionOf state id) zone).getD 0 : Nat) : Rat) = number := by
      cases asked with
      | none => exact ⟨((homeIn (sectionOf state id) zone).getD 0 : Nat), by simp⟩
      | some number => exact ⟨number.num, (Rat.den_eq_one_iff number).mp (integral number rfl) |>.symm⟩
    obtain ⟨number, target⟩ := target
    have clamp : ∀ shifted : Int, ∃ place : Nat, max 0 (shifted : Rat) = place := by
      intro shifted
      refine ⟨shifted.toNat, ?_⟩
      rw [← Int.cast_natCast, Int.toNat_eq_max]
      cases le_total shifted 0 with
      | inl below => rw [max_eq_right below, max_eq_left (Int.cast_nonpos.mpr below), Int.cast_zero]
      | inr above => rw [max_eq_left above, max_eq_right (Int.cast_nonneg above)]
    unfold dockTarget
    dsimp only
    rw [target]
    split
    · obtain ⟨place, clamped⟩ := clamp (number - 1)
      exact ⟨place, by rw [← clamped, Int.cast_sub, Int.cast_one]⟩
    · exact clamp number
  obtain ⟨place, target⟩ := whole
  unfold dockPanelTab
  dsimp only
  split
  · rfl
  · rw [target]
    have found : ∀ at' : Nat, at' < ((removeFromZone state id).zones zone).sections.length →
        (insertInto (removeFromZone state id) zone id index (some at')).isSome := by
      intro at' within
      unfold insertInto
      rw [Option.bind_some, Option.isSome_map, getElem?_eq_getElem within]
      rfl
    split
    · split
      · rfl
      · refine found _ ?_
        have positive := length_pos_iff.mpr removed_ok.present
        omega
    · rename_i inside
      rw [positionOf_natCast]
      refine found place ?_
      rw [Nat.cast_le] at inside
      exact not_le.mp inside

end Dinkster.Layout
