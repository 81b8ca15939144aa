import Dinkster.Extensions.Gating

/-!
# Runs of the extension host

Every call keeps the invariant: a gate flip reconciles every slot of every pack, a pack is
installed with its slots reconciled, and a pack that goes gives everything back first.
-/

namespace Dinkster.Extensions

open Library List

variable {Value : Type} {around : Surroundings Value} {gates : GateState}

/-! ## Gate flips -/

/-- Packs that differ at most in what their slots hold and in their diagnostics. -/
structure SamePack (pack next : InstalledPack Value) : Prop where
  serial : next.serial = pack.serial
  manifest : next.manifest = pack.manifest
  slots : SameSlots pack.slots next.slots

/-- What reconciling all packs guarantees. -/
structure PacksApplied (around : Surroundings Value) (gates : GateState)
    (held later : Ticket → Option (Registration Ticket (Contribution Value)))
    (packs next : List (InstalledPack Value))
    (before after : Registry Ticket (Contribution Value)) : Prop where
  same : List.Forall₂ SamePack packs next
  tracks : Tracks after later
  holds : ∀ pack ∈ next, ∀ entry ∈ pack.slots,
    later (entry.2.ticket pack.serial) = entry.2.registration
  elsewhere : ∀ ticket,
    (∀ pack ∈ packs, ticket.serial = pack.serial → ticket.id ∉ pack.slots.map Prod.fst) →
      later ticket = held ticket ∧
        lastRefusal ticket after.entries = lastRefusal ticket before.entries
  settled : ∀ pack ∈ next, ∀ entry ∈ pack.slots,
    Settled around gates pack.serial entry.2 pack.diagnostics after.entries

theorem applyPacks_applied : ∀ {packs : List (InstalledPack Value)}
    {held : Ticket → Option (Registration Ticket (Contribution Value))}
    {registry : Registry Ticket (Contribution Value)}, (packs.map InstalledPack.serial).Nodup →
    (∀ pack ∈ packs, SlotTable pack.manifest pack.slots) → Tracks registry held →
    (∀ pack ∈ packs, ∀ entry ∈ pack.slots,
      held (entry.2.ticket pack.serial) = entry.2.registration) →
    (∀ pack ∈ packs, ∀ entry ∈ pack.slots, Genuine entry.2) →
      ∃ later, PacksApplied around gates held later packs
        (applyPacks around gates packs registry).1 registry
        (applyPacks around gates packs registry).2
  | [], held, registry, _, _, tracks, _, _ => by
    refine ⟨held, .nil, tracks, ?_, fun _ _ => ⟨rfl, rfl⟩, ?_⟩
    all_goals
      intro pack listed
      cases listed
  | pack :: rest, held, registry, apart, tables, tracks, holds, genuine => by
    have parts := nodup_cons.mp apart
    have table := tables pack mem_cons_self
    obtain ⟨middle, head⟩ := @applyGates_applied _ around gates pack.serial _ pack.slots held
      ⟨pack.diagnostics, registry⟩ table tracks (holds pack mem_cons_self)
      (genuine pack mem_cons_self)
    have aside : ∀ other ∈ rest, other.serial ≠ pack.serial := by
      intro other listed same
      exact parts.1 (same ▸ mem_map_of_mem listed)
    obtain ⟨later, tail⟩ := applyPacks_applied parts.2
      (fun other listed => tables other (mem_cons_of_mem _ listed)) head.tracks
      (by
        intro other listed entry inside
        have foreign := @SlotTable.foreign _ pack.serial _ _ table
          (entry.2.ticket other.serial) fun same => absurd same (aside other listed)
        rw [(head.elsewhere _ foreign).1]
        exact holds other (mem_cons_of_mem _ listed) entry inside)
      (fun other listed => genuine other (mem_cons_of_mem _ listed))
    -- the packs that follow leave the slots of the first one alone
    have quiet : ∀ ticket : Ticket, ticket.serial = pack.serial → later ticket = middle ticket ∧
          lastRefusal ticket (applyPacks around gates rest
            (applyGates around gates pack.serial pack.slots
              ⟨pack.diagnostics, registry⟩).2.registry).2.entries =
            lastRefusal ticket (applyGates around gates pack.serial pack.slots
              ⟨pack.diagnostics, registry⟩).2.registry.entries := by
      intro ticket mine
      apply tail.elsewhere
      intro other listed same
      exact absurd (same.symm.trans mine) (aside other listed)
    refine ⟨later, .cons ⟨rfl, rfl, head.same⟩ tail.same, tail.tracks, ?_, ?_, ?_⟩
    · intro other listed entry inside
      cases mem_cons.mp listed with
      | inl first =>
        rw [first] at inside ⊢
        rw [(quiet (entry.2.ticket pack.serial) rfl).1]
        exact head.holds entry inside
      | inr after => exact tail.holds other after entry inside
    · intro ticket outside
      have foreign := @SlotTable.foreign _ pack.serial _ _ table ticket (outside pack mem_cons_self)
      have front := head.elsewhere ticket foreign
      have back := tail.elsewhere ticket fun other listed =>
        outside other (mem_cons_of_mem _ listed)
      exact ⟨back.1.trans front.1, back.2.trans front.2⟩
    · intro other listed entry inside
      cases mem_cons.mp listed with
      | inl first =>
        rw [first] at inside ⊢
        exact (head.settled entry inside).transfer
          (quiet (entry.2.ticket pack.serial) rfl).2 fun _ recorded => recorded
      | inr after => exact tail.settled other after entry inside

theorem samePacks_mem {packs next : List (InstalledPack Value)}
    (same : List.Forall₂ SamePack packs next) :
    (∀ other ∈ next, ∃ pack ∈ packs, SamePack pack other) ∧
      ∀ pack ∈ packs, ∃ other ∈ next, SamePack pack other := by
  induction same with
  | nil =>
    constructor
    · intro other listed
      cases listed
    · intro pack listed
      cases listed
  | cons head _ ih =>
    constructor
    · intro other listed
      cases mem_cons.mp listed with
      | inl first => exact ⟨_, mem_cons_self, first ▸ head⟩
      | inr later =>
        obtain ⟨pack, inside, alike⟩ := ih.1 other later
        exact ⟨pack, mem_cons_of_mem _ inside, alike⟩
    · intro pack listed
      cases mem_cons.mp listed with
      | inl first => exact ⟨_, mem_cons_self, first ▸ head⟩
      | inr later =>
        obtain ⟨other, inside, alike⟩ := ih.2 pack later
        exact ⟨other, mem_cons_of_mem _ inside, alike⟩

theorem samePacks_map {Key : Type} {key : InstalledPack Value → Key}
    (kept : ∀ pack next, SamePack pack next → key next = key pack)
    {packs next : List (InstalledPack Value)} (same : List.Forall₂ SamePack packs next) :
    next.map key = packs.map key := by
  induction same with
  | nil => rfl
  | cons head _ ih => rw [map_cons, map_cons, ih, kept _ _ head]

theorem setGates_sound {host : Host Value} (sound : Sound around host) (gates : GateState) :
    Sound around (setGates around host gates) := by
  obtain ⟨held, holds⟩ := sound.holds
  obtain ⟨later, applied⟩ := @applyPacks_applied _ around gates host.installed held host.registry
    sound.apart sound.tables holds.tracks holds.slots
    fun pack listed entry inside => (sound.settled pack listed entry inside).genuine
  have members := samePacks_mem applied.same
  constructor
  · refine ⟨later, applied.tracks, applied.holds, ?_⟩
    intro ticket filled
    by_contra uncovered
    have outside : ∀ pack ∈ host.installed,
        ticket.serial = pack.serial → ticket.id ∉ pack.slots.map Prod.fst := by
      intro pack listed serial key
      obtain ⟨next, inside, same⟩ := members.2 pack listed
      refine uncovered ⟨next, inside, serial.trans same.serial.symm, ?_⟩
      rw [same.slots.keys]
      exact key
    rw [(applied.elsewhere ticket outside).1] at filled
    obtain ⟨pack, listed, serial, key⟩ := holds.covered ticket filled
    exact outside pack listed serial key
  · intro next inside
    obtain ⟨pack, listed, same⟩ := members.1 next inside
    rw [same.serial]
    exact sound.numbered pack listed
  · have equal := samePacks_map (fun _ _ same => same.serial) applied.same
    exact equal ▸ sound.apart
  · have equal := @samePacks_map _ _ (fun pack => pack.manifest.id)
      (fun _ _ same => congrArg PackManifest.id same.manifest) _ _ applied.same
    exact equal ▸ sound.named
  · intro next inside
    obtain ⟨pack, listed, same⟩ := members.1 next inside
    rw [same.manifest]
    exact (sound.tables pack listed).ofSame same.slots
  · exact applied.settled
  · exact sound.cleaned

/-! ## Activation -/

/-- A pack that is being activated: its slots are those of its manifest and hold nothing, and
its disposers are counted. -/
structure Staged (serial : Nat) (manifest : PackManifest) (pack : InstalledPack Value) : Prop where
  numbered : pack.serial = serial
  declares : pack.manifest = manifest
  table : SlotTable manifest pack.slots
  free : ∀ entry ∈ pack.slots, entry.2.registration = none
  counted : pack.disposers = List.range pack.disposers.length

theorem accept_ok {pack : InstalledPack Value} {id : String} {category : ContributionCategory}
    {carried : Option String} {slot : Slot Value}
    (accepted : accept pack id category carried = .ok slot) :
    pack.slots.get id = some slot ∧ slot.decl.category = category.text := by
  unfold accept at accepted
  split at accepted
  · rename_i found here
    split at accepted
    · cases accepted
    rename_i fits
    split at accepted
    · cases accepted
    split at accepted
    · cases accepted
    cases accepted
    exact ⟨here, not_not.mp fits⟩
  · cases accepted

theorem SlotTable.set {manifest : PackManifest} {slots : Table (Slot Value)}
    (table : SlotTable manifest slots) {id : String} {slot : Slot Value}
    (keyed : slot.decl.id = id) (owned : slot.packId = manifest.id)
    (declared : slot.decl ∈ manifest.contributions)
    (fitting : ∀ payload, slot.payload = some payload → slot.decl.category = payload.category.text)
    (unquoted : Unquoted slot.decl.id) : SlotTable manifest (slots.set id slot) := by
  have each : ∀ (property : String × Slot Value → Prop), property (id, slot) →
      (∀ entry ∈ slots, property entry) → ∀ entry ∈ slots.set id slot, property entry := by
    intro property new old entry listed
    cases Table.mem_set listed with
    | inl same => exact same ▸ new
    | inr inside => exact old entry inside
  exact
    { distinct := Table.nodup_keys_set _ _ table.distinct
      keyed := each _ keyed table.keyed
      owned := each _ owned table.owned
      declared := each _ declared table.declared
      fitting := each _ fitting table.fitting
      unquoted := each _ unquoted table.unquoted }

theorem free_set {slots : Table (Slot Value)} {id : String} {slot : Slot Value}
    (free : ∀ entry ∈ slots, entry.2.registration = none) (new : slot.registration = none) :
    ∀ entry ∈ slots.set id slot, entry.2.registration = none := by
  intro entry listed
  cases Table.mem_set listed with
  | inl same =>
    rw [same]
    exact new
  | inr old => exact free entry old

theorem store_staged {serial : Nat} {manifest : PackManifest} {pack : InstalledPack Value}
    (staged : Staged serial manifest pack) (id : String) (category : ContributionCategory)
    (carried : Option String) (kept : Except String Value) :
    Staged serial manifest (store pack id category carried kept) := by
  unfold store
  split
  · exact ⟨staged.numbered, staged.declares, staged.table, staged.free, staged.counted⟩
  rename_i slot accepted
  split
  · obtain ⟨found, fits⟩ := accept_ok accepted
    have inside := Table.mem_of_get found
    have table := staged.table
    refine ⟨staged.numbered, staged.declares, ?_, ?_, staged.counted⟩
    · apply SlotTable.set table
      · exact table.keyed _ inside
      · exact table.owned _ inside
      · exact table.declared _ inside
      · intro payload given
        cases given
        exact fits
      · exact table.unquoted _ inside
    · exact free_set staged.free (staged.free _ inside)
  · exact staged

theorem callApi_staged {serial : Nat} {manifest : PackManifest} {pack : InstalledPack Value}
    (staged : Staged serial manifest pack) (call : ApiCall Value) :
    Staged serial manifest (callApi around pack call) := by
  cases call with
  | onDispose =>
    refine ⟨staged.numbered, staged.declares, staged.table, staged.free, ?_⟩
    dsimp only [callApi]
    rw [length_append, length_singleton, range_succ, ← staged.counted]
  | contribute id category value =>
    dsimp only [callApi]
    split
    · split
      · exact store_staged staged _ _ _ _
      · exact staged
    · exact store_staged staged _ _ _ _

theorem SlotTable.nil (manifest : PackManifest) : SlotTable manifest ([] : Table (Slot Value)) where
  distinct := nodup_nil
  keyed _ listed := absurd listed not_mem_nil
  owned _ listed := absurd listed not_mem_nil
  declared _ listed := absurd listed not_mem_nil
  fitting _ listed := absurd listed not_mem_nil
  unquoted _ listed := absurd listed not_mem_nil

theorem declaredSlots_table {manifest : PackManifest}
    (unquoted : ∀ decl ∈ manifest.contributions, Unquoted decl.id) :
    SlotTable manifest (declaredSlots manifest : Table (Slot Value)) ∧
      ∀ entry ∈ (declaredSlots manifest : Table (Slot Value)), entry.2.registration = none := by
  have build : ∀ (decls : List ContributionDecl) (slots : Table (Slot Value)),
      (∀ decl ∈ decls, decl ∈ manifest.contributions) → SlotTable manifest slots →
        (∀ entry ∈ slots, entry.2.registration = none) →
          SlotTable manifest (decls.foldl
            (fun slots decl => slots.set decl.id ⟨manifest.id, decl, none, none⟩) slots) ∧
          ∀ entry ∈ decls.foldl
            (fun slots decl => slots.set decl.id ⟨manifest.id, decl, none, none⟩) slots,
              entry.2.registration = none := by
    intro decls
    induction decls with
    | nil => exact fun _ _ table free => ⟨table, free⟩
    | cons decl rest ih =>
      intro slots inside table free
      have here := inside decl mem_cons_self
      rw [foldl_cons]
      apply ih _ fun other listed => inside other (mem_cons_of_mem _ listed)
      · apply SlotTable.set table
        · rfl
        · rfl
        · exact here
        · intro payload given
          cases given
        · exact unquoted decl here
      · exact free_set free rfl
  exact build manifest.contributions [] (fun _ listed => listed) (.nil manifest)
    fun _ listed => absurd listed not_mem_nil

theorem activate_staged {serial : Nat} {manifest : PackManifest}
    (unquoted : ∀ decl ∈ manifest.contributions, Unquoted decl.id) (problems : List Diagnostic)
    (activation : Activation Value) (required : Required) :
    Staged serial manifest (activate around serial manifest problems activation required) := by
  have calls : ∀ (calls : List (ApiCall Value)) (pack : InstalledPack Value),
      Staged serial manifest pack → Staged serial manifest (calls.foldl (callApi around) pack) := by
    intro calls
    induction calls with
    | nil => exact fun _ staged => staged
    | cons call rest ih => exact fun pack staged => ih _ (callApi_staged staged call)
  have slots := @declaredSlots_table Value manifest unquoted
  have staged := calls activation.calls
    { serial, manifest, slots := declaredSlots manifest,
      diagnostics := problems ++ usesMissing around serial manifest, disposers := [] }
    ⟨rfl, rfl, slots.1, slots.2, rfl⟩
  exact ⟨staged.numbered, staged.declares, staged.table, staged.free, staged.counted⟩

/-! ## Registration -/

theorem install_sound {host : Host Value} (sound : Sound around host) {pack : InstalledPack Value}
    (staged : Staged pack.serial pack.manifest pack)
    (newest : ∀ other ∈ host.installed, other.serial < pack.serial)
    (counted : pack.serial < host.serials)
    (new : ∀ other ∈ host.installed, other.manifest.id ≠ pack.manifest.id) :
    Sound around (install around host pack).1 := by
  obtain ⟨held, holds⟩ := sound.holds
  -- no registration has the number of the new pack yet
  have unheld : ∀ ticket : Ticket, ticket.serial = pack.serial → held ticket = none := by
    intro ticket mine
    by_contra filled
    obtain ⟨owner, listed, serial, _⟩ := holds.covered ticket filled
    exact absurd (newest owner listed) (by omega)
  obtain ⟨later, applied⟩ := @applyGates_applied _ around host.gates pack.serial _ pack.slots held
    ⟨pack.diagnostics, host.registry⟩ staged.table holds.tracks
    (by
      intro entry listed
      rw [unheld _ rfl, staged.free entry listed])
    (by
      intro entry listed registration found
      rw [staged.free entry listed] at found
      cases found)
  have aside : ∀ other ∈ host.installed, ∀ entry ∈ other.slots, ∀ mine ∈ pack.slots,
      entry.2.ticket other.serial ≠ mine.2.ticket pack.serial := by
    intro other listed entry _ mine _ same
    have equal : other.serial = pack.serial := congrArg Ticket.serial same
    exact absurd (newest other listed) (by omega)
  have members : ∀ other ∈ (install around host pack).1.installed,
      other ∈ host.installed ∨ other = (install around host pack).2 := by
    intro other listed
    cases mem_append.mp listed with
    | inl old => exact .inl old
    | inr last => exact .inr (mem_singleton.mp last)
  constructor
  · refine ⟨later, applied.tracks, ?_, ?_⟩
    · intro other listed entry inside
      cases members other listed with
      | inl old =>
        rw [(applied.elsewhere _ (aside other old entry inside)).1]
        exact holds.slots other old entry inside
      | inr last =>
        subst last
        exact applied.holds entry inside
    · intro ticket filled
      by_cases mine : ticket.serial = pack.serial ∧ ticket.id ∈ pack.slots.map Prod.fst
      · refine ⟨(install around host pack).2, mem_append_right _ (mem_singleton_self _), mine.1, ?_⟩
        have keys := applied.same.keys
        exact keys ▸ mine.2
      · have foreign := @SlotTable.foreign _ pack.serial _ _ staged.table ticket
          fun serial key => mine ⟨serial, key⟩
        rw [(applied.elsewhere ticket foreign).1] at filled
        obtain ⟨owner, listed, serial, key⟩ := holds.covered ticket filled
        exact ⟨owner, mem_append_left _ listed, serial, key⟩
  · intro other listed
    cases members other listed with
    | inl old => exact sound.numbered other old
    | inr last =>
      subst last
      exact counted
  · have list : (install around host pack).1.installed.map InstalledPack.serial =
        host.installed.map InstalledPack.serial ++ [pack.serial] := map_append
    rw [list]
    apply nodup_append.mpr
    refine ⟨sound.apart, nodup_singleton _, ?_⟩
    intro serial listed other single same
    obtain ⟨owner, inside, rfl⟩ := mem_map.mp listed
    rw [mem_singleton.mp single] at same
    exact absurd (newest owner inside) (by omega)
  · have list : (install around host pack).1.installed.map (fun pack => pack.manifest.id) =
        host.installed.map (fun pack => pack.manifest.id) ++ [pack.manifest.id] :=
      map_append
    rw [list]
    apply nodup_append.mpr
    refine ⟨sound.named, nodup_singleton _, ?_⟩
    intro name listed other single same
    obtain ⟨owner, inside, rfl⟩ := mem_map.mp listed
    rw [mem_singleton.mp single] at same
    exact new owner inside same
  · intro other listed
    cases members other listed with
    | inl old => exact sound.tables other old
    | inr last =>
      subst last
      exact staged.table.ofSame applied.same
  · intro other listed entry inside
    cases members other listed with
    | inl old =>
      exact (sound.settled other old entry inside).transfer
        (applied.elsewhere _ (aside other old entry inside)).2 fun _ recorded => recorded
    | inr last =>
      subst last
      exact applied.settled entry inside
  · exact sound.cleaned

/-- A host that has given out a number. -/
theorem counted_sound {host : Host Value} (sound : Sound around host) :
    Sound around { host with serials := host.serials + 1 } :=
  { sound with
    holds := sound.holds.imp fun _ holds => ⟨holds.tracks, holds.slots, holds.covered⟩
    numbered := fun pack listed => Nat.lt_succ_of_lt (sound.numbered pack listed)
    cleaned := fun cleanup listed => Nat.lt_succ_of_lt (sound.cleaned cleanup listed) }

theorem rollBack_cleanups (host : Host Value) (pack : InstalledPack Value) :
    (rollBack around host pack).1.cleanups = host.cleanups ++ (.aborted pack.serial ::
        pack.disposers.reverse.map (Cleanup.disposed pack.serial)) := by
  unfold rollBack disposePackResources
  dsimp only
  rw [runDisposers_cleanups, append_assoc]
  rfl

theorem serial_of_cleanup {pack : InstalledPack Value} {cleanup : Cleanup}
    (listed : cleanup ∈ Cleanup.aborted pack.serial ::
      pack.disposers.reverse.map (Cleanup.disposed pack.serial)) :
    cleanup.serial = pack.serial := by
  cases mem_cons.mp listed with
  | inl aborted =>
    rw [aborted]
    rfl
  | inr disposed =>
    obtain ⟨disposer, _, same⟩ := mem_map.mp disposed
    rw [← same]
    rfl

theorem rollBack_sound {host : Host Value} (sound : Sound around host)
    {pack : InstalledPack Value} (counted : pack.serial < host.serials) :
    Sound around (rollBack around host pack).1 where
  holds := sound.holds.imp fun _ holds => ⟨holds.tracks, holds.slots, holds.covered⟩
  numbered := sound.numbered
  apart := sound.apart
  named := sound.named
  tables := sound.tables
  settled := sound.settled
  cleaned := by
    intro cleanup listed
    rw [rollBack_cleanups] at listed
    cases mem_append.mp listed with
    | inl old => exact sound.cleaned cleanup old
    | inr new =>
      rw [serial_of_cleanup new]
      exact counted

theorem register_staged {host : Host Value} {manifest : PackManifest}
    (accepted : hasError (registerProblems host manifest) = false)
    (activation : Activation Value) (required : Required) : Staged host.serials manifest
        (activate around host.serials manifest (registerProblems host manifest) activation
          required) ∧ ∀ other ∈ host.installed, other.manifest.id ≠ manifest.id := by
  unfold registerProblems at accepted
  rw [hasError_append, Bool.or_eq_false_iff] at accepted
  refine ⟨activate_staged (unquoted_of_accepted accepted.1) _ activation required, ?_⟩
  intro other listed same
  have installed : (host.installed.any fun pack => pack.manifest.id = manifest.id) = true :=
    any_eq_true.mpr ⟨other, listed, by simpa using same⟩
  rw [if_pos installed] at accepted
  cases accepted.2

theorem register_sound {host : Host Value} (sound : Sound around host) (manifest : PackManifest)
    (activation : Activation Value) (required : Required) :
    Sound around (register around host manifest activation required).1 := by
  unfold register
  dsimp only
  cases problem : hasError (registerProblems host manifest) with
  | true => exact sound
  | false =>
    obtain ⟨staged, new⟩ := @register_staged _ around host manifest problem activation required
    have counted := counted_sound sound
    rw [if_neg Bool.false_ne_true]
    split
    · apply rollBack_sound counted
      rw [staged.numbered]
      exact Nat.lt_succ_self _
    · have installed := @install_sound _ around _ counted
        (activate around host.serials manifest (registerProblems host manifest) activation
          required)
        (by
          rw [staged.numbered, staged.declares]
          exact staged)
        (by
          rw [staged.numbered]
          exact sound.numbered)
        (by
          rw [staged.numbered]
          exact Nat.lt_succ_self _)
        (by
          rw [staged.declares]
          exact new)
      unfold commit
      dsimp only
      split
      · exact deactivatePack_sound installed (mem_append_right _ (mem_singleton_self _))
      · exact installed

theorem unregister_sound {host : Host Value} (sound : Sound around host) (packId : String) :
    Sound around (unregister around host packId) := by
  unfold unregister
  split
  · rename_i pack found
    exact deactivatePack_sound sound (mem_of_find?_eq_some found)
  · exact sound

theorem dispose_sound {host : Host Value} (sound : Sound around host) :
    Sound around (dispose around host) := by
  unfold dispose
  -- the packs that are still to go are installed, each under a name of its own
  have go : ∀ (packs : List (InstalledPack Value)) (host : Host Value), Sound around host →
      (packs.map fun pack => pack.manifest.id).Nodup → (∀ pack ∈ packs, pack ∈ host.installed) →
        Sound around (packs.foldl (fun host pack => (deactivatePack around host pack).1) host) := by
    intro packs
    induction packs with
    | nil => exact fun _ sound _ _ => sound
    | cons pack rest ih =>
      intro host sound distinct listed
      have parts := nodup_cons.mp distinct
      rw [foldl_cons]
      apply ih _ (deactivatePack_sound sound (listed pack mem_cons_self)) parts.2
      intro other inside
      apply mem_filter.mpr
      refine ⟨listed other (mem_cons_of_mem _ inside), ?_⟩
      have apart : other.manifest.id ≠ pack.manifest.id := by
        intro same
        exact parts.1 (mem_map.mpr ⟨other, inside, same⟩)
      simpa using apart
  apply go _ host sound
  · rw [map_reverse]
    exact nodup_reverse.mpr sound.named
  · intro pack listed
    exact mem_reverse.mp listed

theorem step_sound {host next : Host Value} {call : Call Value} (sound : Sound around host)
    (taken : step around host call = some next) : Sound around next := by
  cases call with
  | register manifest activation required =>
    cases taken
    exact register_sound sound manifest activation required
  | unregister packId =>
    cases taken
    exact unregister_sound sound packId
  | setGates gates =>
    cases taken
    exact setGates_sound sound gates
  | setPackEnabled packId enabled | setCategoryEnabled packId category enabled
  | setContributionEnabled contributionId enabled =>
    cases taken
    exact setGates_sound sound _
  | dispose =>
    cases taken
    exact dispose_sound sound

/-- Every reachable host keeps the invariant. -/
theorem run_sound {gates : GateState} {calls : List (Call Value)} {host : Host Value}
    (reached : run (step around) (freshHost gates) calls = some host) : Sound around host :=
  @run_invariant _ _ _ (fun _ _ => True) (Sound around)
    (fun sound _ taken => step_sound sound taken) _ _ _ (freshHost_sound gates)
    (along_of_mem (freshHost gates) fun _ _ => trivial) reached

/-! ## Gating -/

/-- What is registered is what the gates admit, and is registered once at a time. -/
structure GatedStructurally (around : Surroundings Value) (host : Host Value) : Prop where
  admitted : ∀ registration ∈ host.registry.live, ∃ pack ∈ host.installed,
    ∃ decl ∈ pack.manifest.contributions,
      registration.holder = ⟨pack.serial, decl.id⟩ ∧
      registration.item.packId = pack.manifest.id ∧
      decl.category = registration.item.payload.category.text ∧
      contributionEnabled around.policy host.gates pack.manifest.id decl = true
  present : ∀ pack ∈ host.installed, ∀ entry ∈ pack.slots, ∀ payload,
    entry.2.payload = some payload →
      contributionEnabled around.policy host.gates pack.manifest.id entry.2.decl = true →
        (∃ registration ∈ host.registry.live,
          registration.holder = ⟨pack.serial, entry.2.decl.id⟩ ∧
            registration.item = ⟨pack.manifest.id, payload⟩) ∨
        ∃ thrown,
          lastRefusal ⟨pack.serial, entry.2.decl.id⟩ host.registry.entries = some thrown ∧
            conflict entry.2.decl.id thrown ∈ pack.diagnostics
  alternating : ∀ ticket, ∃ held,
    occupancy ticket none host.registry.entries = some held ∧
      ∀ token, held = some token ↔ ∃ registration ∈ host.registry.live,
        registration.holder = ticket ∧ registration.token = token

theorem Sound.gated {host : Host Value} (sound : Sound around host) :
    GatedStructurally around host := by
  obtain ⟨held, holds⟩ := sound.holds
  constructor
  · intro registration live
    have mine := (holds.tracks.live registration).mp live
    obtain ⟨pack, installed, serial, key⟩ := holds.covered registration.holder (by
      rw [mine]
      simp)
    obtain ⟨entry, listed, name⟩ := mem_map.mp key
    have table := sound.tables pack installed
    have settled := sound.settled pack installed entry listed
    have holder : registration.holder = ⟨pack.serial, entry.2.decl.id⟩ := by
      rw [table.keyed entry listed, name, ← serial]
    have filled : entry.2.registration = some registration := by
      rw [← holds.slots pack installed entry listed, ← mine, holder]
      rfl
    have given := settled.genuine registration filled
    have want := settled.admitted (by rw [filled]; rfl)
    obtain ⟨payload, stored, item⟩ := Option.map_eq_some_iff.mp given
    refine ⟨pack, installed, entry.2.decl, table.declared entry listed, holder, ?_, ?_, ?_⟩
    · rw [← item]
      exact table.owned entry listed
    · rw [← item]
      exact table.fitting entry listed payload stored
    · rw [← table.owned entry listed]
      exact (Bool.and_eq_true_iff.mp want).2
  · intro pack installed entry listed payload stored enabled
    have owned := (sound.tables pack installed).owned entry listed
    have settled := sound.settled pack installed entry listed
    have want : wanted around host.gates entry.2 = true := by
      unfold wanted
      rw [stored, owned, enabled]
      rfl
    cases filled : entry.2.registration with
    | none => exact .inr (settled.refused want filled)
    | some registration =>
      have mine := (holds.slots pack installed entry listed).trans filled
      have holder := holds.tracks.named _ registration mine
      refine .inl ⟨registration, (holds.tracks.live registration).mpr (holder ▸ mine), holder, ?_⟩
      have given := settled.genuine registration filled
      unfold Slot.contribution at given
      rw [stored, owned] at given
      exact (Option.some.inj given).symm
  · intro ticket
    refine ⟨_, holds.tracks.inOrder ticket, ?_⟩
    intro token
    rw [Option.map_eq_some_iff]
    constructor
    · intro found
      obtain ⟨registration, mine, same⟩ := found
      have holder := holds.tracks.named ticket registration mine
      exact ⟨registration, (holds.tracks.live registration).mpr (holder ▸ mine), holder, same⟩
    · intro found
      obtain ⟨registration, live, holder, same⟩ := found
      exact ⟨registration, holder ▸ (holds.tracks.live registration).mp live, same⟩

/-- How a registration ends that reports an error: the host is as before when no code has run,
and else the pack's signal is aborted and each of its disposers has run once. -/
structure TakenBack (host next : Host Value) (packId : String)
    (staged : Option (InstalledPack Value)) : Prop where
  untouched : staged = none → next = host
  absent : (∀ pack ∈ host.installed, pack.manifest.id ≠ packId) →
    ∀ registration ∈ next.registry.live, registration.item.packId ≠ packId
  aborted : ∀ pack, staged = some pack → Cleanup.aborted pack.serial ∈ next.cleanups
  disposed : ∀ pack, staged = some pack → ∀ disposer ∈ pack.disposers,
    next.cleanups.count (.disposed pack.serial disposer) = 1

theorem absent_of_sound {host : Host Value} (sound : Sound around host) {packId : String}
    (gone : ∀ pack ∈ host.installed, pack.manifest.id ≠ packId) :
    ∀ registration ∈ host.registry.live, registration.item.packId ≠ packId := by
  intro registration live same
  obtain ⟨pack, installed, _, _, _, owned, _⟩ := sound.gated.admitted registration live
  exact gone pack installed (owned.symm.trans same)

/-- The disposers of a pack that is rolled back run once each. -/
theorem disposed_once {host : Host Value} (sound : Sound around host) {manifest : PackManifest}
    {pack : InstalledPack Value} (staged : Staged host.serials manifest pack) :
    ∀ disposer ∈ pack.disposers, (host.cleanups ++ (.aborted pack.serial ::
        pack.disposers.reverse.map (Cleanup.disposed pack.serial))).count
          (.disposed pack.serial disposer) = 1 := by
  intro disposer listed
  have before : host.cleanups.count (.disposed pack.serial disposer) = 0 := by
    apply count_eq_zero.mpr
    intro earlier
    have small := sound.cleaned _ earlier
    rw [staged.numbered] at small
    exact absurd small (Nat.lt_irrefl _)
  have distinct : pack.disposers.Nodup := by
    rw [staged.counted]
    exact nodup_range
  have injective : Function.Injective (Cleanup.disposed pack.serial) := by
    intro first second same
    cases same
    rfl
  rw [count_append, before, count_cons_of_ne (by simp),
    count_map_of_injective _ _ injective, count_reverse, count_eq_one_of_mem distinct listed]

theorem register_takenBack {host : Host Value} (sound : Sound around host)
    (manifest : PackManifest) (activation : Activation Value) (required : Required)
    (reported : hasError (register around host manifest activation required).2.diagnostics) :
    TakenBack host (register around host manifest activation required).1 manifest.id
      (register around host manifest activation required).2.staged := by
  have after := register_sound sound manifest activation required
  revert reported after
  unfold register
  dsimp only
  cases problem : hasError (registerProblems host manifest) with
  | true =>
    intro _ after
    refine ⟨fun _ => rfl, absent_of_sound after, ?_, ?_⟩
    all_goals
      intro pack given
      cases given
  | false =>
    obtain ⟨staged, new⟩ := @register_staged _ around host manifest problem activation required
    rw [if_neg Bool.false_ne_true]
    generalize activate around host.serials manifest (registerProblems host manifest) activation
      required = pack at staged
    split
    · intro _ after
      refine ⟨?_, fun gone => absent_of_sound after gone, ?_, ?_⟩
      · intro given
        cases given
      · intro other given
        cases given
        rw [rollBack_cleanups]
        exact mem_append_right _ mem_cons_self
      · intro other given
        cases given
        rw [rollBack_cleanups]
        exact disposed_once sound staged
    · unfold commit
      dsimp only
      split
      · intro _ after
        have left := @deactivatePack_cleanups _ around
          (install around { host with serials := host.serials + 1 } pack).1
          (install around { host with serials := host.serials + 1 } pack).2
        refine ⟨?_, ?_, ?_, ?_⟩
        · intro given
          cases given
        · intro gone
          apply absent_of_sound after
          intro other listed
          have parts := mem_filter.mp listed
          cases mem_append.mp parts.1 with
          | inl old => exact gone other old
          | inr last =>
            rw [mem_singleton.mp last] at parts
            simp [install] at parts
        · intro other given
          cases given
          rw [left]
          exact mem_append_right _ mem_cons_self
        · intro other given
          cases given
          rw [left]
          exact disposed_once sound staged
      · rename_i clean
        intro reported _
        exact absurd reported clean

/-- In every state a host reaches, gating is structural, and a registration that reports an
error is taken back as a whole. -/
theorem gating_structural (around : Surroundings Value) (gates : GateState)
    (calls : List (Call Value)) (host : Host Value)
    (reached : run (step around) (freshHost gates) calls = some host) :
    GatedStructurally around host ∧ ∀ manifest activation required,
        hasError (register around host manifest activation required).2.diagnostics = true →
          TakenBack host (register around host manifest activation required).1 manifest.id
            (register around host manifest activation required).2.staged := by
  have sound := run_sound reached
  exact ⟨sound.gated, fun manifest activation required reported =>
    register_takenBack sound manifest activation required reported⟩

/-- Registries and disposers that never throw. -/
def calm : Surroundings String where
  policy := none
  ownId value := value
  kept _ _ value := .ok value
  provided _ _ := true
  registerThrows _ := none
  unregisterThrows _ := none
  disposerThrows _ := none

def menuPack : PackManifest := ⟨"kj", [], [⟨"kj.menu", "menu"⟩]⟩

/-- The code of that pack. -/
def addMenu : Activation String :=
  ⟨[.contribute "kj.menu" .menu "kj.menu", .onDispose], none⟩

def registerMenu : Call String := .register menuPack addMenu .all

/-- A second registration reports an error and leaves the contribution of the first one. -/
theorem registeredTwice_kept :
    ∃ host, run (step calm) (freshHost ⟨[], [], []⟩) [registerMenu] = some host ∧
      hasError (register calm host menuPack addMenu .all).2.diagnostics = true ∧
      ∃ registration ∈ (register calm host menuPack addMenu .all).1.registry.live,
        registration.item.packId = "kj" := by
  refine ⟨_, rfl, by decide +kernel, ?_⟩
  have kept : ((register calm (register calm (freshHost ⟨[], [], []⟩) menuPack addMenu .all).1
      menuPack addMenu .all).1.registry.live.any fun registration =>
        registration.item.packId = "kj") = true := by decide +kernel
  obtain ⟨registration, live, owned⟩ := any_eq_true.mp kept
  exact ⟨registration, live, by simpa using owned⟩

theorem gating_structural_menu : GatedStructurally calm
      (register calm (freshHost ⟨[], [], []⟩) menuPack addMenu .all).1 :=
  (gating_structural calm ⟨[], [], []⟩ [registerMenu] _ rfl).1

end Dinkster.Extensions
