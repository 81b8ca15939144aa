import Dinkster.Layout.Membership

/-!
# The stored dock state

Reading repairs what it finds: a tab that was claimed before is left out, a section that lost all
its tabs is dropped, the split is clamped.  A well-formed state needs none of it.
-/

namespace Dinkster.Layout

open Library Format List Option

variable {tabs claimed : List String}

theorem tabTexts_map (named : "" ∉ tabs) : tabTexts (tabs.map .str) = some tabs := by
  induction tabs with
  | nil => rfl
  | cons tab tabs ih =>
    obtain ⟨first, rest⟩ := not_or.mp (mem_cons.not.mp named)
    rw [map_cons]
    unfold tabTexts
    rw [if_neg (Ne.symm first), ih rest]
    rfl

theorem claimTabs_eq {before : List String} (once : tabs.Nodup)
    (fresh : ∀ tab ∈ tabs, tab ∉ claimed) :
    claimTabs before claimed tabs = (before ++ tabs, claimed ++ tabs) := by
  induction tabs generalizing before claimed with
  | nil => simp [claimTabs]
  | cons tab tabs ih =>
    obtain ⟨first, once⟩ := nodup_cons.mp once
    unfold claimTabs
    rw [if_neg (fresh tab mem_cons_self), ih once, append_assoc, append_assoc]
    · rfl
    · intro other listed
      rw [mem_append, mem_singleton, not_or]
      exact ⟨fresh other (mem_cons_of_mem _ listed), fun same => first (same ▸ listed)⟩

theorem decodeSection_encodeSection {held : DockSectionState} (active : ActiveOk held)
    (once : held.tabs.Nodup) (fresh : ∀ tab ∈ held.tabs, tab ∉ claimed) (named : "" ∉ held.tabs) :
    decodeSection (some (encodeSection held)) claimed = some (held, claimed ++ held.tabs) := by
  have tabs : decodeSectionTabs (some (.arr (held.tabs.map .str))) claimed =
      some (held.tabs, claimed ++ held.tabs) := by
    unfold decodeSectionTabs
    dsimp only
    rw [tabTexts_map named, map_some, claimTabs_eq once fresh, nil_append]
  obtain ⟨tabs', activeTab⟩ := held
  unfold ActiveOk at active
  unfold decodeSection encodeSection rowOf
  cases activeTab with
  | none =>
    dsimp only at active tabs ⊢
    subst active
    rw [map_nil] at tabs
    simp [tabs]
  | some tab =>
    dsimp only at active tabs ⊢
    simp [tabs, active]

theorem decodeSections_map {sections : List DockSectionState}
    (active : ∀ held ∈ sections, ActiveOk held) (once : (tabsOf sections).Nodup)
    (fresh : ∀ tab ∈ tabsOf sections, tab ∉ claimed) (named : "" ∉ tabsOf sections) :
    decodeSections claimed (sections.map encodeSection) =
      some (sections, claimed ++ tabsOf sections) := by
  induction sections generalizing claimed with
  | nil => simp [decodeSections]
  | cons held sections ih =>
    rw [tabsOf_cons] at once fresh named
    obtain ⟨held_once, rest_once, apart⟩ := nodup_append.mp once
    rw [mem_append, not_or] at named
    have first := decodeSection_encodeSection (active held mem_cons_self) held_once
      (fun tab listed => fresh tab (mem_append_left _ listed)) named.1
    have rest := @ih (claimed ++ held.tabs)
      (fun other listed => active other (mem_cons_of_mem _ listed)) rest_once (by
        intro tab listed
        rw [mem_append, not_or]
        exact ⟨fresh tab (mem_append_right _ listed),
          fun before => apart tab before tab listed rfl⟩) named.2
    rw [map_cons]
    unfold decodeSections
    rw [first, bind_some]
    dsimp only
    rw [rest, map_some, append_assoc]
    rfl

/-- A well-formed zone needs no repair. -/
theorem repairZone_eq {zone : DockZoneState} (ok : ZoneOk zone) :
    repairZone zone.sections (some (.num zone.split)) zone.isOpen = zone := by
  have sections : (if zone.sections.filter (·.tabs ≠ []) = [] then [emptySection]
      else zone.sections.filter (·.tabs ≠ [])) = zone.sections := by
    by_cases full : ∀ held ∈ zone.sections, held.tabs ≠ []
    · rw [filter_eq_self.mpr fun held listed => decide_eq_true (full held listed),
        if_neg ok.present]
    · obtain ⟨held, listed, empty⟩ : ∃ held ∈ zone.sections, held.tabs = [] := by
        simpa using full
      obtain ⟨only, single⟩ := length_eq_one_iff.mp (ok.occupied held listed empty)
      rw [single] at listed
      have blank : held = emptySection := by
        have active := ok.active held (single ▸ listed)
        obtain ⟨tabs, activeTab⟩ := held
        unfold ActiveOk at active
        dsimp only at empty active
        subst empty
        cases activeTab with
        | none => rfl
        | some tab => cases active
      rw [single, ← mem_singleton.mp listed, blank]
      rfl
  have split : clampZoneSplit zone.split = zone.split := by
    unfold clampZoneSplit
    rw [max_eq_right ok.split.1, min_eq_right ok.split.2]
  have isOpen : (zone.isOpen && decide ((zoneTabs zone).length > 0)) = zone.isOpen := by
    by_cases empty : zoneTabs zone = []
    · rw [ok.closed empty, Bool.false_and]
    · rw [decide_eq_true (length_pos_iff.mpr empty), Bool.and_true]
  unfold repairZone
  dsimp only
  rw [sections, split, show zone.sections.flatMap DockSectionState.tabs = zoneTabs zone from rfl,
    isOpen]

theorem decodeZoneV2_encodeZone {zone : DockZoneState} (ok : ZoneOk zone) {claimed : List String}
    (fresh : ∀ tab ∈ zoneTabs zone, tab ∉ claimed) (named : "" ∉ zoneTabs zone) :
    decodeZoneV2 (some (encodeZone zone)) claimed = some (zone, claimed ++ zoneTabs zone) := by
  have sections := decodeSections_map ok.active ok.once fresh named
  have positive := length_pos_iff.mpr ok.present
  have few := ok.few
  have counted : ¬ ((zone.sections.map encodeSection).length < 1 ∨
      maxZoneSections < (zone.sections.map encodeSection).length) := by
    rw [length_map]
    omega
  unfold decodeZoneV2 encodeZone rowOf
  rw [bind_some]
  simp only [getField_cons, String.reduceEq, if_true, if_false]
  rw [if_neg counted, sections, map_some]
  dsimp only
  rw [repairZone_eq ok]
  rfl

theorem decodeDockState_encodeDockState {state : PanelDockState} (ok : WellFormed state)
    (named : ∀ zone, "" ∉ zoneTabs (state.zones zone)) :
    decodeDockState (encodeDockState state) = some state := by
  have left := decodeZoneV2_encodeZone (ok.zone .left) (fun _ _ => not_mem_nil) (named .left)
  have right := @decodeZoneV2_encodeZone _ (ok.zone .right) ([] ++ zoneTabs (state.zones .left))
    (fun tab listed before => nomatch ok.apart .left .right tab before listed) (named .right)
  have bottom := @decodeZoneV2_encodeZone _ (ok.zone .bottom)
    ([] ++ zoneTabs (state.zones .left) ++ zoneTabs (state.zones .right))
    (fun tab listed before => by
      cases mem_append.mp before with
      | inl first => exact nomatch ok.apart .left .bottom tab first listed
      | inr second => exact nomatch ok.apart .right .bottom tab second listed) (named .bottom)
  unfold decodeDockState encodeDockState rowOf zoneDecoder
  simp only [getField_cons, String.reduceEq, if_true, if_false, bind_some]
  rw [if_neg (by decide), bind_some, left, bind_some]
  dsimp only
  rw [right, bind_some]
  dsimp only
  rw [bottom, map_some]
  dsimp only
  congr 1
  cases state with
  | mk zones =>
    congr 1
    funext zone
    cases zone <;> rfl

theorem emptyZone_ok : ZoneOk emptyZone where
  present := cons_ne_nil _ _
  few := by decide
  occupied _ _ _ := rfl
  active held listed := by
    rw [mem_singleton.mp listed]
    exact rfl
  once := nodup_nil
  closed _ := rfl
  split := defaultZoneSplit_bounds

theorem emptyDockState_wellFormed : WellFormed emptyDockState where
  zone _ := emptyZone_ok
  apart _ _ _ listed := nomatch listed

end Dinkster.Layout
