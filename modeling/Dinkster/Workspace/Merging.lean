import Dinkster.Workspace.Tabs

/-!
# No tab is lost by a mutation

The tabs that a mutation leaves are those that were there, less its removals, and its
additions.  The order it asks for decides only where they stand.
-/

namespace Dinkster.Workspace

open Library Format List Option

variable {Document : Type} {load : Option Json → Option Document} {lineage : Document → String}

/-- A list of tabs as the windows rely on it: no id twice, and every document under the id it
has as its lineage. -/
structure Proper (lineage : Document → String) (tabs : List (Tab Document)) : Prop where
  once : (tabs.map Tab.id).Nodup
  owned : ∀ tab ∈ tabs, lineage tab.document = tab.id

def ActiveIn (tabs : List (Tab Document)) (active : String) : Prop :=
  active ∈ tabs.map Tab.id ∨ tabs = [] ∧ active = ""

theorem Proper.nil : Proper lineage ([] : List (Tab Document)) :=
  ⟨nodup_nil, nofun⟩

theorem ActiveIn.first (tabs : List (Tab Document)) :
    ActiveIn tabs ((tabs.head?.map Tab.id).getD "") := by
  cases tabs with
  | nil => exact .inr ⟨rfl, rfl⟩
  | cons tab tabs => exact .inl mem_cons_self

theorem decodeFields_owned {value : Json} {record : Tab Document}
    (decoded : decodeFields load lineage value = .ok record) :
    lineage record.document = record.id := by
  unfold decodeFields at decoded
  split at decoded
  · split at decoded
    · split at decoded
      · rename_i same
        cases decoded
        exact same
      · cases decoded
    · cases decoded
  · cases decoded

theorem decodeRecord_owned {value : Json} {record : Tab Document}
    (decoded : decodeRecord load lineage value = .ok record) :
    lineage record.document = record.id := by
  unfold decodeRecord at decoded
  split at decoded
  · exact decodeFields_owned decoded
  · exact decodeFields_owned decoded
  · cases decoded

variable {tabs : List (Tab Document)} {byId : Table (Tab Document)}

theorem decodeRest_proper {records : List (Tab Document)} {values : List Json}
    (proper : Proper lineage records)
    (decoded : decodeRest load lineage records values = .ok tabs) : Proper lineage tabs := by
  induction values generalizing records with
  | nil =>
    cases decoded
    exact proper
  | cons value values ih =>
    unfold decodeRest at decoded
    split at decoded
    · cases decoded
    · rename_i record taken
      split at decoded
      · exact ih proper decoded
      · rename_i fresh
        refine ih ⟨?_, ?_⟩ decoded
        · rw [map_append, map_singleton]
          exact nodup_append.mpr ⟨proper.once, nodup_singleton _, by
            intro id listed other single same
            rw [mem_singleton.mp single] at same
            exact fresh (same ▸ listed)⟩
        · exact forall_mem_append.mpr ⟨proper.owned,
            forall_mem_singleton.mpr (decodeRecord_owned taken)⟩

theorem decodeUnique_proper {values : Option Json}
    (decoded : decodeUnique load lineage values = .ok tabs) : Proper lineage tabs := by
  unfold decodeUnique at decoded
  split at decoded
  · cases decoded
  · exact decodeRest_proper Proper.nil decoded

structure Filed (lineage : Document → String) (byId : Table (Tab Document)) : Prop where
  once : (byId.map Prod.fst).Nodup
  named : ∀ entry ∈ byId, entry.2.id = entry.1
  owned : ∀ entry ∈ byId, lineage entry.2.document = entry.2.id

theorem Filed.nil : Filed lineage ([] : Table (Tab Document)) :=
  ⟨nodup_nil, nofun, nofun⟩

theorem Filed.set {byId : Table (Tab Document)} (filed : Filed lineage byId) {id : String}
    {tab : Tab Document} (named : tab.id = id) (owned : lineage tab.document = tab.id) :
    Filed lineage (byId.set id tab) where
  once := Table.nodup_keys_set _ _ filed.once
  named entry listed := by
    cases Table.mem_set listed with
    | inl new => rw [new, named]
    | inr old => exact filed.named entry old
  owned entry listed := by
    cases Table.mem_set listed with
    | inl new => rw [new, owned]
    | inr old => exact filed.owned entry old

theorem Filed.get (filed : Filed lineage byId) {id : String} {tab : Tab Document}
    (found : byId.get id = some tab) : tab.id = id ∧ lineage tab.document = tab.id :=
  ⟨filed.named _ (Table.mem_of_get found), filed.owned _ (Table.mem_of_get found)⟩

theorem Filed.keepLast (filed : Filed lineage byId)
    (owned : ∀ tab ∈ tabs, lineage tab.document = tab.id) :
    Filed lineage (tabs.foldl (Table.keepLast Tab.id id) byId) := by
  induction tabs generalizing byId with
  | nil => exact filed
  | cons tab tabs ih =>
    rw [foldl_cons]
    exact ih (filed.set rfl (owned tab mem_cons_self)) fun other later =>
      owned other (mem_cons_of_mem tab later)

theorem filed_keptById (proper : Proper lineage tabs) (removals : List String) :
    Filed lineage (keptById removals tabs) :=
  Filed.nil.keepLast fun tab listed => proper.owned tab (mem_filter.mp listed).1

/-- Tabs that are not removed are found under their ids. -/
theorem get_keptById (proper : Proper lineage tabs) {removals : List String} {tab : Tab Document}
    (listed : tab ∈ tabs) (kept : tab.id ∉ removals) :
    (keptById removals tabs).get tab.id = some tab := by
  have single : ∀ first ∈ tabs, ∀ second ∈ tabs, first.id = second.id → first = second :=
    fun first left second right => inj_on_of_nodup_map proper.once left right
  have stays : tab ∈ tabs.filter fun tab => tab.id ∉ removals :=
    mem_filter.mpr ⟨listed, decide_eq_true kept⟩
  unfold keptById
  rw [Table.get_foldl_keepLast, Option.map_id_fun, id]
  · cases found : (tabs.filter fun tab => tab.id ∉ removals).find? (fun item => item.id = tab.id) with
    | none => exact absurd (List.find?_eq_none.mp found tab stays) (by simp)
    | some other =>
      have same : other.id = tab.id := by simpa using find?_some found
      have there := (mem_filter.mp (mem_of_find?_eq_some found)).1
      rw [single other there tab listed same]
  · intro first left second right same
    exact single first (mem_filter.mp left).1 second (mem_filter.mp right).1 same

/-- What the loops of a mutation do to the tabs: they stay filed, and no document is lost or
exchanged. -/
structure Grown (lineage : Document → String) (before after : Table (Tab Document)) : Prop where
  filed : Filed lineage before → Filed lineage after
  keeps : ∀ {id : String} {document : Document},
    (before.get id).map Tab.document = some document →
    (after.get id).map Tab.document = some document

theorem Grown.refl (byId : Table (Tab Document)) : Grown lineage byId byId := ⟨id, id⟩

theorem Grown.trans {first second third : Table (Tab Document)}
    (one : Grown lineage first second) (two : Grown lineage second third) :
    Grown lineage first third :=
  ⟨two.filed ∘ one.filed, two.keeps ∘ one.keeps⟩

theorem Grown.update {id : String} {current updated : Tab Document}
    (found : byId.get id = some current) (same : updated.id = current.id)
    (document : updated.document = current.document) :
    Grown lineage byId (byId.set id updated) where
  filed filed := by
    have current_filed := filed.get found
    refine filed.set (same.trans current_filed.1) ?_
    rw [document, current_filed.2, same]
  keeps {other kept} held := by
    rw [Table.get_set]
    by_cases here : id = other
    · rw [← here, found] at held
      rw [if_pos here, map_some, document]
      exact held
    · rw [if_neg here]
      exact held

theorem Grown.add {record : Tab Document} (owned : lineage record.document = record.id) :
    Grown lineage byId
      (if (byId.get record.id).isSome then byId else byId.set record.id record) := by
  split
  · exact .refl byId
  · rename_i missing
    rw [not_isSome_iff_eq_none] at missing
    refine ⟨fun filed => filed.set rfl owned, fun {id document} held => ?_⟩
    rw [Table.get_set]
    split
    · rename_i here
      rw [← here, missing] at held
      cases held
    · exact held

theorem updateTabs_grown {after : Table (Tab Document)} {values : List Json}
    (updated : updateTabs byId values = .ok after) : Grown lineage byId after := by
  fun_induction updateTabs byId values with
  | case1 =>
    cases updated
    exact .refl _
  | case2 => cases updated
  | case3 _ _ _ _ _ _ _ _ current found _ ih =>
    refine Grown.trans ?_ (ih updated)
    exact Grown.update found rfl rfl
  | case4 _ _ _ _ _ _ _ _ _ ih | case5 _ _ _ _ _ ih => exact ih updated

theorem addTabs_grown {after : Table (Tab Document)} {values : List Json}
    (added : addTabs load lineage byId values = .ok after) : Grown lineage byId after := by
  induction values generalizing byId with
  | nil =>
    cases added
    exact .refl _
  | cons value values ih =>
    unfold addTabs at added
    split at added
    · cases added
    · rename_i record taken
      exact (Grown.add (decodeRecord_owned taken)).trans (ih added)

theorem orderedIds_spec (byId : Table (Tab Document)) (order : List Json) {desired : List String}
    (once : desired.Nodup) (present : ∀ id ∈ desired, (byId.get id).isSome) :
    (orderedIds byId desired order).Nodup ∧
      ∀ id ∈ orderedIds byId desired order, (byId.get id).isSome := by
  fun_induction orderedIds byId desired order with
  | case1 => exact ⟨once, present⟩
  | case2 desired value rest id valid skipped ih => exact ih once present
  | case3 desired value rest id valid taken ih =>
    obtain ⟨fresh, found⟩ := not_or.mp taken
    refine ih ?_ ?_
    · refine nodup_append.mpr ⟨once, nodup_singleton _, ?_⟩
      intro other listed last single same
      rw [mem_singleton.mp single] at same
      exact fresh (same ▸ listed)
    · exact forall_mem_append.mpr ⟨present,
        forall_mem_singleton.mpr (isSome_iff_ne_none.mpr (by simpa using found))⟩
  | case4 desired value rest invalid ih => exact ih once present

theorem desiredIds_nodup (once : (byId.map Prod.fst).Nodup) (order : List Json) :
    (desiredIds byId order).Nodup := by
  have ordered := orderedIds_spec byId order nodup_nil nofun
  refine nodup_append.mpr ⟨ordered.1, once.filter _, ?_⟩
  intro id listed other rest same
  have left_out := (mem_filter.mp rest).2
  rw [← same] at left_out
  exact absurd listed (by simpa using left_out)

/-- Whatever order is asked for, it is one of all tabs. -/
theorem mem_desiredIds {order : List Json} {id : String} :
    id ∈ desiredIds byId order ↔ (byId.get id).isSome := by
  have ordered := orderedIds_spec byId order nodup_nil nofun
  unfold desiredIds
  rw [mem_append]
  constructor
  · rintro (asked | rest)
    · exact ordered.2 id asked
    · exact Table.isSome_get_iff.mpr (mem_filter.mp rest).1
  · intro found
    by_cases asked : id ∈ orderedIds byId [] order
    · exact .inl asked
    · exact .inr (mem_filter.mpr ⟨Table.isSome_get_iff.mp found, decide_eq_true asked⟩)

theorem ids_filterMap (filed : Filed lineage byId) {ids : List String}
    (present : ∀ id ∈ ids, (byId.get id).isSome) : (ids.filterMap byId.get).map Tab.id = ids := by
  induction ids with
  | nil => rfl
  | cons id ids ih =>
    obtain ⟨tab, found⟩ := Option.isSome_iff_exists.mp (present id mem_cons_self)
    rw [filterMap_cons, found, map_cons, (filed.get found).1,
      ih fun other later => present other (mem_cons_of_mem id later)]

theorem chooseActive_activeIn (all : ∀ id, id ∈ tabs.map Tab.id ↔ (byId.get id).isSome)
    (asked : Option Json) (before : String) :
    ActiveIn tabs (chooseActive byId asked before tabs) := by
  have kept : ActiveIn tabs
      (if (byId.get before).isSome then before else (tabs.head?.map Tab.id).getD "") := by
    split
    · rename_i found
      exact .inl ((all before).mpr found)
    · exact ActiveIn.first tabs
  unfold chooseActive
  dsimp only
  revert kept
  generalize (if (byId.get before).isSome then before
    else (tabs.head?.map Tab.id).getD "") = fallback
  intro kept
  split
  · split
    · rename_i found
      exact .inl ((all _).mpr found)
    · exact kept
  · exact kept

theorem applyMutation_spec {after : List (Tab Document)} {active chosen : String}
    {mutation : Json} (proper : Proper lineage tabs)
    (applied : applyMutation load lineage tabs active mutation = .ok (after, chosen)) :
    Proper lineage after ∧ ActiveIn after chosen ∧
      ∃ removals, removalsOf (own "removals" mutation) = .ok removals ∧
        ∀ tab ∈ tabs, tab.id ∉ removals →
          ∃ same ∈ after, same.id = tab.id ∧ same.document = tab.document := by
  unfold applyMutation at applied
  cases removed : removalsOf (own "removals" mutation) with
  | error failure => simp [removed, bind, Except.bind] at applied
  | ok removals =>
  cases updates : itemsOf (own "updates" mutation) with
  | error failure => simp [removed, updates, bind, Except.bind] at applied
  | ok updates' =>
  cases updated : updateTabs (keptById removals tabs) updates' with
  | error failure => simp [removed, updates, updated, bind, Except.bind] at applied
  | ok middle =>
  cases additions : itemsOf (own "additions" mutation) with
  | error failure => simp [removed, updates, updated, additions, bind, Except.bind] at applied
  | ok additions' =>
  cases added : addTabs load lineage middle additions' with
  | error failure =>
    simp [removed, updates, updated, additions, added, bind, Except.bind] at applied
  | ok byId =>
  cases ordered : itemsOf (own "order" mutation) with
  | error failure =>
    simp [removed, updates, updated, additions, added, ordered, bind, Except.bind] at applied
  | ok order =>
  simp only [removed, updates, updated, additions, added, ordered, bind, Except.bind, pure,
    Except.pure, Except.ok.injEq, Prod.mk.injEq] at applied
  obtain ⟨rfl, rfl⟩ := applied
  have grown : Grown lineage (keptById removals tabs) byId :=
    (updateTabs_grown updated).trans (addTabs_grown added)
  have filed := grown.filed (filed_keptById proper removals)
  have ids := ids_filterMap filed fun id (listed : id ∈ desiredIds byId order) =>
    mem_desiredIds.mp listed
  refine ⟨⟨?_, ?_⟩, ?_, removals, rfl, ?_⟩
  · rw [ids]
    exact desiredIds_nodup filed.once order
  · intro tab listed
    obtain ⟨id, _, found⟩ := mem_filterMap.mp listed
    exact (filed.get found).2
  · refine chooseActive_activeIn (fun id => ?_) _ _
    rw [ids]
    exact mem_desiredIds
  · intro tab listed kept
    have held : ((keptById removals tabs).get tab.id).map Tab.document = some tab.document := by
      rw [get_keptById proper listed kept, map_some]
    obtain ⟨same, found, document⟩ := map_eq_some_iff.mp (grown.keeps held)
    refine ⟨same, mem_filterMap.mpr ⟨tab.id, ?_, found⟩, (filed.get found).1, document⟩
    exact mem_desiredIds.mpr (by rw [found, isSome_some])

end Dinkster.Workspace
