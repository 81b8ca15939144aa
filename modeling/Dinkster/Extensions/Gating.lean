import Dinkster.Extensions.Host
import Dinkster.Library.Transition

/-!
# Gating is structural

In every state a host reaches, what is in a registry is exactly what the packs' slots hold,
and a slot holds its payload exactly when the gates let it, unless the registry refused it
when it was tried last.  A slot is reconciled by one of four steps, and each of them moves at
most the slot's own registration.
-/

namespace Dinkster.Extensions

open Library List

variable {Value : Type} {around : Surroundings Value} {gates : GateState} {serial : Nat}

theorem quoted_inj {mark : Char} : ∀ {first second rest other : List Char},
    mark ∉ first → mark ∉ second → first ++ mark :: rest = second ++ mark :: other → first = second
  | [], [], _, _, _, _, _ => rfl
  | [], head :: second, _, _, _, free, same | head :: first, [], _, _, free, _, same => by
    have equal := (List.cons.inj same).1
    exact absurd (equal ▸ mem_cons_self) free
  | head :: first, next :: second, _, _, left, right, same => by
    have parts := List.cons.inj same
    have rest := quoted_inj (fun listed => left (mem_cons_of_mem _ listed))
      (fun listed => right (mem_cons_of_mem _ listed)) parts.2
    rw [parts.1, rest]

theorem conflictMessage_toList (id : String) : (conflictMessage id).toList =
      "contribution '".toList ++ (id.toList ++ apostrophe :: " failed to register:".toList) := by
  unfold conflictMessage
  rw [String.toList_append, String.toList_append, append_assoc]
  rfl

/-- The message of a conflict belongs to one contribution only. -/
theorem eq_of_isConflictOf {id other thrown : String} (unquoted : Unquoted id)
    (plain : Unquoted other) (about : isConflictOf id (conflict other thrown) = true) :
    id = other := by
  have starts := (Bool.and_eq_true_iff.mp about).2
  obtain ⟨rest, same⟩ := isPrefixOf_iff_prefix.mp starts
  have whole : (conflict other thrown).message.toList =
      (conflictMessage other).toList ++ (" " ++ thrown).toList := by
    rw [← String.toList_append, ← String.append_assoc]
    rfl
  simp only [whole, conflictMessage_toList, append_assoc, cons_append] at same
  exact String.toList_injective (quoted_inj unquoted plain (append_cancel_left same))

/-- The declared contribution of a slot. -/
def Slot.ticket (slot : Slot Value) (serial : Nat) : Ticket := ⟨serial, slot.decl.id⟩

/-- What a registry is given for a slot. -/
def Slot.contribution (slot : Slot Value) : Option (Contribution Value) :=
  slot.payload.map fun payload => ⟨slot.packId, payload⟩

/-- A slot whose registration is one of its payload. -/
def Genuine (slot : Slot Value) : Prop :=
  ∀ registration, slot.registration = some registration →
    slot.contribution = some registration.item

/-- A slot that holds its payload exactly when it should, unless its last attempt was refused,
which the pack's diagnostics tell. -/
structure Settled (around : Surroundings Value) (gates : GateState) (serial : Nat)
    (slot : Slot Value) (diagnostics : List Diagnostic) (entries : List (Entry Ticket)) : Prop where
  genuine : Genuine slot
  admitted : slot.registration.isSome = true → wanted around gates slot = true
  refused : wanted around gates slot = true → slot.registration = none →
    ∃ thrown, lastRefusal (slot.ticket serial) entries = some thrown ∧
      conflict slot.decl.id thrown ∈ diagnostics

/-- Two slots that differ at most in what they hold. -/
structure SameSlot (slot next : Slot Value) : Prop where
  packId : next.packId = slot.packId
  decl : next.decl = slot.decl
  payload : next.payload = slot.payload

theorem SameSlot.refl (slot : Slot Value) : SameSlot slot slot := ⟨rfl, rfl, rfl⟩

variable {slot : Slot Value}

theorem SameSlot.wanted {next : Slot Value} (same : SameSlot slot next) :
    wanted around gates next = wanted around gates slot := by
  unfold Extensions.wanted
  rw [same.packId, same.decl, same.payload]

/-! ## One slot -/

theorem applyGate_cases (around : Surroundings Value) (gates : GateState) (serial : Nat)
    (slot : Slot Value) (progress : Progress Value) :
    (applyGate around gates serial slot progress = (slot, progress) ∧
      slot.registration.isSome = wanted around gates slot) ∨
    (∃ registration, slot.registration = some registration ∧ wanted around gates slot = false ∧
      applyGate around gates serial slot progress = ({ slot with registration := none },
          unregisterSlot around slot.decl.id registration progress)) ∨
    ∃ payload, slot.registration = none ∧ slot.payload = some payload ∧
      wanted around gates slot = true ∧ applyGate around gates serial slot progress =
        registerSlot around serial slot payload progress := by
  unfold applyGate
  cases held : slot.registration with
  | some registration =>
    dsimp only
    cases want : wanted around gates slot with
    | true => exact .inl ⟨rfl, rfl⟩
    | false => exact .inr (.inl ⟨registration, rfl, rfl, rfl⟩)
  | none =>
    dsimp only
    cases given : slot.payload with
    | none =>
      refine .inl ⟨rfl, ?_⟩
      unfold wanted
      rw [given]
      rfl
    | some payload =>
      dsimp only
      cases want : wanted around gates slot with
      | true => exact .inr (.inr ⟨payload, rfl, rfl, rfl, rfl⟩)
      | false => exact .inl ⟨rfl, rfl⟩

/-- What reconciling a slot guarantees. -/
structure SlotApplied (around : Surroundings Value) (gates : GateState) (serial : Nat)
    (held : Ticket → Option (Registration Ticket (Contribution Value)))
    (slot next : Slot Value) (before after : Progress Value) : Prop where
  same : SameSlot slot next
  tracks : Tracks after.registry
    (Function.update held (slot.ticket serial) next.registration)
  others : ∀ ticket, ticket ≠ slot.ticket serial →
    lastRefusal ticket after.registry.entries = lastRefusal ticket before.registry.entries
  spared : ∀ id thrown, Unquoted id → id ≠ slot.decl.id →
    conflict id thrown ∈ before.diagnostics → conflict id thrown ∈ after.diagnostics
  settled : Settled around gates serial next after.diagnostics after.registry.entries

theorem applyGate_applied {held : Ticket → Option (Registration Ticket (Contribution Value))}
    {slot : Slot Value} {progress : Progress Value} (tracks : Tracks progress.registry held)
    (holds : held (slot.ticket serial) = slot.registration) (genuine : Genuine slot)
    (unquoted : Unquoted slot.decl.id) :
    SlotApplied around gates serial held slot (applyGate around gates serial slot progress).1
      progress (applyGate around gates serial slot progress).2 := by
  cases applyGate_cases around gates serial slot progress with
  | inl kept =>
    rw [kept.1]
    refine ⟨.refl slot, ?_, fun _ _ => rfl, fun _ _ _ _ listed => listed, genuine, ?_, ?_⟩
    · rw [← holds, Function.update_eq_self]
      exact tracks
    · intro filled
      rw [← kept.2]
      exact filled
    · intro want free
      rw [← kept.2, free] at want
      cases want
  | inr moved =>
    cases moved with
    | inl closed =>
      obtain ⟨registration, filled, unwanted, result⟩ := closed
      rw [result]
      have gone : wanted around gates { slot with registration := none } = false := by
        rw [← unwanted]
        exact SameSlot.wanted ⟨rfl, rfl, rfl⟩
      refine ⟨⟨rfl, rfl, rfl⟩, tracks.giveBack (holds.trans filled), ?_, ?_, ?_, ?_, ?_⟩
      · intro ticket _
        exact lastRefusal_returned _ _ _ _
      · intro id thrown _ _ listed
        exact mem_append_left _ listed
      · intro other found
        cases found
      · intro found
        cases found
      · intro want
        rw [gone] at want
        cases want
    | inr opened =>
      obtain ⟨payload, free, given, want, result⟩ := opened
      rw [result]
      unfold registerSlot
      dsimp only
      cases around.registerThrows progress.registry.calls with
      | none =>
        refine ⟨⟨rfl, rfl, rfl⟩, tracks.take (holds.trans free) _, ?_, ?_, ?_, ?_, ?_⟩
        · intro ticket other
          exact (lastRefusal_taken _ _ _ _).trans (if_neg (Ne.symm other))
        · intro id thrown plain other listed
          apply mem_filter.mpr
          refine ⟨listed, ?_⟩
          by_contra about
          have about : isConflictOf slot.decl.id (conflict id thrown) = true := by
            simpa using about
          exact other (eq_of_isConflictOf unquoted plain about).symm
        · intro registration found
          cases found
          unfold Slot.contribution
          rw [given]
          rfl
        · intro _
          rw [← want]
          exact SameSlot.wanted ⟨rfl, rfl, rfl⟩
        · intro _ found
          cases found
      | some thrown =>
        refine ⟨.refl slot, ?_, ?_, ?_, genuine, ?_, ?_⟩
        · rw [← holds, Function.update_eq_self]
          exact tracks.refuse _ _
        · intro ticket other
          exact (lastRefusal_refused _ _ _ _).trans (if_neg (Ne.symm other))
        · intro id text _ _ listed
          dsimp only
          split
          · exact listed
          · exact mem_append_left _ listed
        · intro filled
          rw [free] at filled
          cases filled
        · intro _ _
          refine ⟨thrown, (lastRefusal_refused _ _ _ _).trans (if_pos rfl), ?_⟩
          dsimp only
          split
          · assumption
          · exact mem_append_right _ (mem_singleton_self _)

theorem Settled.transfer {diagnostics later : List Diagnostic} {entries more : List (Entry Ticket)}
    (settled : Settled around gates serial slot diagnostics entries)
    (quiet : lastRefusal (slot.ticket serial) more = lastRefusal (slot.ticket serial) entries)
    (spared : ∀ thrown, conflict slot.decl.id thrown ∈ diagnostics →
      conflict slot.decl.id thrown ∈ later) : Settled around gates serial slot later more where
  genuine := settled.genuine
  admitted := settled.admitted
  refused := by
    intro want free
    obtain ⟨thrown, last, recorded⟩ := settled.refused want free
    exact ⟨thrown, quiet.trans last, spared thrown recorded⟩

/-! ## The slots of a pack -/

def SameSlots (slots next : Table (Slot Value)) : Prop :=
  List.Forall₂ (fun entry other => other.1 = entry.1 ∧ SameSlot entry.2 other.2) slots next

variable {next slots : Table (Slot Value)} {manifest : PackManifest}

theorem SameSlots.mem (same : SameSlots slots next) :
    ∀ other ∈ next, ∃ entry ∈ slots, other.1 = entry.1 ∧ SameSlot entry.2 other.2 := by
  induction same with
  | nil =>
    intro other listed
    cases listed
  | cons head _ ih =>
    intro other listed
    cases mem_cons.mp listed with
    | inl first => exact ⟨_, mem_cons_self, first ▸ head⟩
    | inr later =>
      obtain ⟨entry, inside, alike⟩ := ih other later
      exact ⟨entry, mem_cons_of_mem _ inside, alike⟩

theorem SameSlots.keys (same : SameSlots slots next) : next.map Prod.fst = slots.map Prod.fst := by
  induction same with
  | nil => rfl
  | cons head _ ih => rw [map_cons, map_cons, ih, head.1]

/-- The slots of a pack: each is kept under the id it is declared with, and its payload came
through the door of its category. -/
structure SlotTable (manifest : PackManifest) (slots : Table (Slot Value)) : Prop where
  distinct : (slots.map Prod.fst).Nodup
  keyed : ∀ entry ∈ slots, entry.2.decl.id = entry.1
  owned : ∀ entry ∈ slots, entry.2.packId = manifest.id
  declared : ∀ entry ∈ slots, entry.2.decl ∈ manifest.contributions
  fitting : ∀ entry ∈ slots, ∀ payload, entry.2.payload = some payload →
    entry.2.decl.category = payload.category.text
  unquoted : ∀ entry ∈ slots, Unquoted entry.2.decl.id

theorem SlotTable.ofSame (table : SlotTable manifest slots) (same : SameSlots slots next) :
    SlotTable manifest next where
  distinct := by
    rw [same.keys]
    exact table.distinct
  keyed := by
    intro other listed
    obtain ⟨entry, inside, key, alike⟩ := same.mem other listed
    rw [alike.decl, key]
    exact table.keyed entry inside
  owned := by
    intro other listed
    obtain ⟨entry, inside, _, alike⟩ := same.mem other listed
    rw [alike.packId]
    exact table.owned entry inside
  declared := by
    intro other listed
    obtain ⟨entry, inside, _, alike⟩ := same.mem other listed
    rw [alike.decl]
    exact table.declared entry inside
  fitting := by
    intro other listed payload given
    obtain ⟨entry, inside, _, alike⟩ := same.mem other listed
    rw [alike.decl]
    exact table.fitting entry inside payload (alike.payload ▸ given)
  unquoted := by
    intro other listed
    obtain ⟨entry, inside, _, alike⟩ := same.mem other listed
    rw [alike.decl]
    exact table.unquoted entry inside

theorem SlotTable.tail {manifest : PackManifest} {first : String × Slot Value}
    {rest : Table (Slot Value)} (table : SlotTable manifest (first :: rest)) :
    SlotTable manifest rest where
  distinct := (nodup_cons.mp table.distinct).2
  keyed := fun entry listed => table.keyed entry (mem_cons_of_mem _ listed)
  owned := fun entry listed => table.owned entry (mem_cons_of_mem _ listed)
  declared := fun entry listed => table.declared entry (mem_cons_of_mem _ listed)
  fitting := fun entry listed => table.fitting entry (mem_cons_of_mem _ listed)
  unquoted := fun entry listed => table.unquoted entry (mem_cons_of_mem _ listed)

/-- Different slots of a pack declare different ids. -/
theorem SlotTable.apart {first : String × Slot Value} {rest : Table (Slot Value)}
    (table : SlotTable manifest (first :: rest)) :
    ∀ entry ∈ rest, entry.2.decl.id ≠ first.2.decl.id := by
  intro entry listed same
  rw [table.keyed first mem_cons_self, table.keyed entry (mem_cons_of_mem _ listed)] at same
  exact (nodup_cons.mp table.distinct).1 (same ▸ mem_map_of_mem listed)

/-- What reconciling the slots of a pack guarantees. -/
structure TableApplied (around : Surroundings Value) (gates : GateState) (serial : Nat)
    (held later : Ticket → Option (Registration Ticket (Contribution Value)))
    (slots next : Table (Slot Value)) (before after : Progress Value) : Prop where
  same : SameSlots slots next
  tracks : Tracks after.registry later
  holds : ∀ entry ∈ next, later (entry.2.ticket serial) = entry.2.registration
  elsewhere : ∀ ticket, (∀ entry ∈ slots, ticket ≠ entry.2.ticket serial) →
    later ticket = held ticket ∧
      lastRefusal ticket after.registry.entries = lastRefusal ticket before.registry.entries
  spared : ∀ id thrown, Unquoted id → (∀ entry ∈ slots, id ≠ entry.2.decl.id) →
    conflict id thrown ∈ before.diagnostics → conflict id thrown ∈ after.diagnostics
  settled : ∀ entry ∈ next,
    Settled around gates serial entry.2 after.diagnostics after.registry.entries

theorem applyGates_applied {manifest : PackManifest} : ∀ {slots : Table (Slot Value)}
    {held : Ticket → Option (Registration Ticket (Contribution Value))}
    {progress : Progress Value}, SlotTable manifest slots → Tracks progress.registry held →
      (∀ entry ∈ slots, held (entry.2.ticket serial) = entry.2.registration) →
      (∀ entry ∈ slots, Genuine entry.2) →
        ∃ later, TableApplied around gates serial held later slots
          (applyGates around gates serial slots progress).1 progress
          (applyGates around gates serial slots progress).2
  | [], held, progress, _, tracks, _, _ => by
    refine ⟨held, .nil, tracks, ?_, fun _ _ => ⟨rfl, rfl⟩, fun _ _ _ _ listed => listed, ?_⟩
    all_goals
      intro entry listed
      cases listed
  | (id, slot) :: rest, held, progress, table, tracks, holds, genuine => by
    have head := @applyGate_applied _ around gates serial held slot progress tracks
      (holds _ mem_cons_self) (genuine _ mem_cons_self)
      (table.unquoted _ mem_cons_self)
    have aside : ∀ entry ∈ rest, entry.2.ticket serial ≠ slot.ticket serial := by
      intro entry listed same
      exact table.apart entry listed (congrArg Ticket.id same)
    obtain ⟨later, tail⟩ := applyGates_applied table.tail head.tracks (by
        intro entry listed
        rw [Function.update_of_ne (aside entry listed)]
        exact holds entry (mem_cons_of_mem _ listed))
      (fun entry listed => genuine entry (mem_cons_of_mem _ listed))
    -- the slots that follow leave the first one alone
    have ticket : (applyGate around gates serial slot progress).1.ticket serial =
        slot.ticket serial := by
      unfold Slot.ticket
      rw [head.same.decl]
    have quiet := tail.elsewhere (slot.ticket serial) fun entry listed =>
      Ne.symm (aside entry listed)
    refine ⟨later, .cons ⟨rfl, head.same⟩ tail.same, tail.tracks, ?_, ?_, ?_, ?_⟩
    · intro entry listed
      cases mem_cons.mp listed with
      | inl first =>
        rw [first]
        dsimp only
        rw [ticket, quiet.1, Function.update_self]
      | inr after => exact tail.holds entry after
    · intro other outside
      have apart := outside _ mem_cons_self
      have rest := tail.elsewhere other fun entry listed =>
        outside entry (mem_cons_of_mem _ listed)
      refine ⟨?_, rest.2.trans (head.others other apart)⟩
      rw [rest.1, Function.update_of_ne apart]
    · intro other thrown plain outside listed
      apply tail.spared other thrown plain fun entry inside =>
        outside entry (mem_cons_of_mem _ inside)
      exact head.spared other thrown plain (outside _ mem_cons_self) listed
    · intro entry listed
      cases mem_cons.mp listed with
      | inl first =>
        rw [first]
        refine head.settled.transfer ?_ ?_
        · rw [ticket]
          exact quiet.2
        · intro thrown recorded
          rw [head.same.decl] at recorded ⊢
          exact tail.spared _ thrown (table.unquoted _ mem_cons_self)
            (fun entry inside => Ne.symm (table.apart entry inside)) recorded
      | inr after => exact tail.settled entry after

theorem SlotTable.foreign {manifest : PackManifest} {slots : Table (Slot Value)}
    (table : SlotTable manifest slots) {ticket : Ticket}
    (outside : ticket.serial = serial → ticket.id ∉ slots.map Prod.fst) :
    ∀ entry ∈ slots, ticket ≠ entry.2.ticket serial := by
  intro entry listed same
  have id : ticket.id = entry.1 := (congrArg Ticket.id same).trans (table.keyed entry listed)
  exact outside (congrArg Ticket.serial same) (id ▸ mem_map_of_mem listed)

theorem SlotTable.distinct_ids (table : SlotTable manifest slots) :
    (slots.map fun entry => entry.2.decl.id).Nodup := by
  rw [map_congr_left table.keyed]
  exact table.distinct

/-- Slots that are unregistered hold nothing, and nothing else changes hands. -/
theorem unregisterSlots_tracks : ∀ {slots : Table (Slot Value)}
    {held : Ticket → Option (Registration Ticket (Contribution Value))}
    {progress : Progress Value}, (slots.map fun entry => entry.2.decl.id).Nodup →
      Tracks progress.registry held →
      (∀ entry ∈ slots, held (entry.2.ticket serial) = entry.2.registration) →
        ∃ later, Tracks (unregisterSlots around slots progress).registry later ∧
          (∀ entry ∈ slots, later (entry.2.ticket serial) = none) ∧
          (∀ ticket, (∀ entry ∈ slots, ticket ≠ entry.2.ticket serial) →
            later ticket = held ticket) ∧
          ∀ ticket, lastRefusal ticket (unregisterSlots around slots progress).registry.entries =
            lastRefusal ticket progress.registry.entries
  | [], held, progress, _, tracks, _ => by
    refine ⟨held, tracks, ?_, fun _ _ => rfl, fun _ => rfl⟩
    intro entry listed
    cases listed
  | (id, slot) :: rest, held, progress, distinct, tracks, holds => by
    have parts := nodup_cons.mp distinct
    have aside : ∀ entry ∈ rest, entry.2.ticket serial ≠ slot.ticket serial := by
      intro entry listed same
      have equal : entry.2.decl.id = slot.decl.id := congrArg Ticket.id same
      exact parts.1 (mem_map.mpr ⟨entry, listed, equal⟩)
    have head := holds _ mem_cons_self
    dsimp only at head
    unfold unregisterSlots
    cases filled : slot.registration with
    | none =>
      rw [filled] at head
      obtain ⟨later, tracks, gone, kept, quiet⟩ := unregisterSlots_tracks parts.2 tracks
        fun entry listed => holds entry (mem_cons_of_mem _ listed)
      refine ⟨later, tracks, ?_, ?_, quiet⟩
      · intro entry listed
        cases mem_cons.mp listed with
        | inl first =>
          rw [first]
          dsimp only
          rw [kept _ fun entry inside => Ne.symm (aside entry inside), head]
        | inr after => exact gone entry after
      · intro ticket outside
        exact kept ticket fun entry listed => outside entry (mem_cons_of_mem _ listed)
    | some registration =>
      rw [filled] at head
      obtain ⟨later, tracks, gone, kept, quiet⟩ := @unregisterSlots_tracks rest
        (Function.update held (slot.ticket serial) none)
        (unregisterSlot around slot.decl.id registration progress) parts.2
        (tracks.giveBack head) fun entry listed => by
          rw [Function.update_of_ne (aside entry listed)]
          exact holds entry (mem_cons_of_mem _ listed)
      refine ⟨later, tracks, ?_, ?_, ?_⟩
      · intro entry listed
        cases mem_cons.mp listed with
        | inl first =>
          rw [first]
          dsimp only
          rw [kept _ fun entry inside => Ne.symm (aside entry inside), Function.update_self]
        | inr after => exact gone entry after
      · intro ticket outside
        rw [kept ticket fun entry listed => outside entry (mem_cons_of_mem _ listed),
          Function.update_of_ne (outside _ mem_cons_self)]
      · intro ticket
        exact (quiet ticket).trans (lastRefusal_returned _ _ _ _)

structure Holds (host : Host Value)
    (held : Ticket → Option (Registration Ticket (Contribution Value))) : Prop where
  tracks : Tracks host.registry held
  slots : ∀ pack ∈ host.installed, ∀ entry ∈ pack.slots,
    held (entry.2.ticket pack.serial) = entry.2.registration
  covered : ∀ ticket, held ticket ≠ none →
    ∃ pack ∈ host.installed, ticket.serial = pack.serial ∧ ticket.id ∈ pack.slots.map Prod.fst

/-- What every call of a host keeps. -/
structure Sound (around : Surroundings Value) (host : Host Value) : Prop where
  holds : ∃ held, Holds host held
  numbered : ∀ pack ∈ host.installed, pack.serial < host.serials
  apart : (host.installed.map InstalledPack.serial).Nodup
  named : (host.installed.map fun pack => pack.manifest.id).Nodup
  tables : ∀ pack ∈ host.installed, SlotTable pack.manifest pack.slots
  settled : ∀ pack ∈ host.installed, ∀ entry ∈ pack.slots,
    Settled around host.gates pack.serial entry.2 pack.diagnostics host.registry.entries
  cleaned : ∀ cleanup ∈ host.cleanups, cleanup.serial < host.serials

theorem freshHost_sound (gates : GateState) : Sound around (freshHost gates) where
  holds := by
    refine ⟨fun _ => none, Tracks.empty, ?_, ?_⟩
    · intro pack listed
      cases listed
    · intro ticket filled
      exact absurd rfl filled
  numbered := by
    intro pack listed
    cases listed
  apart := nodup_nil
  named := nodup_nil
  tables := by
    intro pack listed
    cases listed
  settled := by
    intro pack listed
    cases listed
  cleaned := by
    intro cleanup listed
    cases listed

theorem runDisposers_cleanups (packId : String) (serial : Nat) :
    ∀ (disposers : List Nat) (diagnostics : List Diagnostic) (cleanups : List Cleanup),
      (runDisposers around packId serial disposers diagnostics cleanups).2 =
        cleanups ++ disposers.map (Cleanup.disposed serial)
  | [], _, cleanups => (append_nil cleanups).symm
  | disposer :: rest, diagnostics, cleanups => by
    unfold runDisposers
    rw [runDisposers_cleanups packId serial rest, append_assoc]
    rfl

theorem deactivatePack_cleanups (host : Host Value) (pack : InstalledPack Value) :
    (deactivatePack around host pack).1.cleanups = host.cleanups ++ (.aborted pack.serial ::
        pack.disposers.reverse.map (Cleanup.disposed pack.serial)) := by
  unfold deactivatePack disposePackResources
  dsimp only
  rw [runDisposers_cleanups, append_assoc]
  rfl

theorem deactivatePack_sound {host : Host Value} (sound : Sound around host)
    {pack : InstalledPack Value} (listed : pack ∈ host.installed) :
    Sound around (deactivatePack around host pack).1 := by
  obtain ⟨held, holds⟩ := sound.holds
  have table := sound.tables pack listed
  obtain ⟨later, tracks, gone, kept, quiet⟩ := @unregisterSlots_tracks _ around pack.serial
    pack.slots.reverse held ⟨pack.diagnostics, host.registry⟩
    (by
      rw [map_reverse]
      exact nodup_reverse.mpr table.distinct_ids)
    holds.tracks
    (fun entry inside => holds.slots pack listed entry (mem_reverse.mp inside))
  -- another pack has another number and another name
  have other : ∀ remaining ∈ (deactivatePack around host pack).1.installed,
      remaining ∈ host.installed ∧ remaining.serial ≠ pack.serial := by
    intro remaining inside
    have parts := mem_filter.mp inside
    refine ⟨parts.1, fun same => ?_⟩
    rw [inj_on_of_nodup_map sound.apart parts.1 listed same] at parts
    simp at parts
  have sublist : (deactivatePack around host pack).1.installed.Sublist host.installed :=
    filter_sublist
  constructor
  · refine ⟨later, tracks, ?_, ?_⟩
    · intro remaining inside entry found
      have aside := other remaining inside
      rw [kept]
      · exact holds.slots remaining aside.1 entry found
      · intro mine _ same
        exact aside.2 (congrArg Ticket.serial same)
    · intro ticket filled
      by_cases mine : ∃ entry ∈ pack.slots, ticket = entry.2.ticket pack.serial
      · obtain ⟨entry, found, same⟩ := mine
        rw [same] at filled
        exact absurd (gone entry (mem_reverse.mpr found)) filled
      · rw [kept ticket fun entry found same => mine ⟨entry, mem_reverse.mp found, same⟩] at filled
        obtain ⟨owner, installed, serial, key⟩ := holds.covered ticket filled
        refine ⟨owner, mem_filter.mpr ⟨installed, ?_⟩, serial, key⟩
        have distinct : owner.manifest.id ≠ pack.manifest.id := by
          intro same
          have equal := inj_on_of_nodup_map sound.named installed listed same
          rw [equal] at serial key
          obtain ⟨entry, found, here⟩ := mem_map.mp key
          apply mine
          refine ⟨entry, found, ?_⟩
          have id : ticket.id = entry.2.decl.id := by rw [table.keyed entry found, here]
          cases ticket
          cases serial
          cases id
          rfl
        simpa using distinct
  · intro remaining inside
    exact sound.numbered remaining (other remaining inside).1
  · exact sound.apart.sublist (sublist.map _)
  · exact sound.named.sublist (sublist.map _)
  · intro remaining inside
    exact sound.tables remaining (other remaining inside).1
  · intro remaining inside entry found
    exact (sound.settled remaining (other remaining inside).1 entry found).transfer
      (quiet _) fun _ recorded => recorded
  · intro cleanup inside
    rw [deactivatePack_cleanups] at inside
    cases mem_append.mp inside with
    | inl old => exact sound.cleaned cleanup old
    | inr new =>
      have about : cleanup.serial = pack.serial := by
        cases mem_cons.mp new with
        | inl aborted =>
          rw [aborted]
          rfl
        | inr disposed =>
          obtain ⟨disposer, _, same⟩ := mem_map.mp disposed
          rw [← same]
          rfl
      rw [about]
      exact sound.numbered pack listed

end Dinkster.Extensions
