import Dinkster.Workspace.Authority
import Dinkster.Workspace.Merging

/-!
# Windows do not lose each other's tabs

The tabs are given up only by a reset: the last port leaves, or a window brings back a later
list.  Between two resets a tab goes only by a mutation that removes it, and the watermark of
an actor only rises, so that none of its operations is applied again.
-/

namespace Dinkster.Workspace

open Library Format List

namespace Authority

variable {Port Document : Type} [DecidableEq Port]

section

variable (load : Option Json → Option Document) (lineage : Document → String)
variable (state : Authority Port Document)

def lastLeaves (gone : List Port) : Bool :=
  !gone.isEmpty && state.ports.all fun port => port ∈ gone

/-- Whether a request to open replaces the tabs by a later list. -/
def replaces (request : Json) : Bool :=
  match state.tabs, safeNatural? (own "revision" request),
      decodeUnique load lineage (own "tabs" request) with
  | some _, some revision, .ok _ => state.revision < revision
  | _, _, _ => false

/-- Whether the tabs are given up when a message is received. -/
def resets (arrival : Arrival Port) : Bool :=
  let present := state.seenAt arrival.port arrival.now
  let refreshed := state.refresh arrival.port arrival.now
  present.lastLeaves (present.expired arrival.port arrival.now) ||
    (safeNatural? (own "id" arrival.message)).isSome &&
      match kindOf arrival.message with
      | .opening => refreshed.replaces load lineage arrival.message
      | .closing => (refreshed.tabsAt arrival.port).isSome && refreshed.lastLeaves [arrival.port]
      | _ => false

def applied? (arrival : Arrival Port) : Option Operation :=
  let refreshed := state.refresh arrival.port arrival.now
  match safeNatural? (own "id" arrival.message), kindOf arrival.message,
      refreshed.tabsAt arrival.port, refreshed.freshOperation (own "mutation" arrival.message) with
  | some _, .mutation, some tabs, .ok (some operation) =>
    match applyMutation load lineage tabs refreshed.active operation.body with
    | .ok _ => some operation
    | .error _ => none
  | _, _, _, _ => none

/-- Messages none of which gives up the tabs. -/
def Unbroken (state : Authority Port Document) : List (Arrival Port) → Prop
  | [] => True
  | arrival :: rest =>
    state.resets load lineage arrival = false ∧
      Unbroken (state.receive load lineage arrival).1 rest

end

/-- An operation names a tab among its removals. -/
def Removes (operation : Operation) (id : String) : Prop :=
  ∃ removals, removalsOf (own "removals" operation.body) = .ok removals ∧ id ∈ removals

/-- A tab is present, with its document. -/
def Holds (state : Authority Port Document) (id : String) (document : Document) : Prop :=
  ∃ tabs, state.tabs = some tabs ∧ ∃ tab ∈ tabs, tab.id = id ∧ tab.document = document

/-- Everything but the ports and their leases is the same. -/
def SameList (state next : Authority Port Document) : Prop :=
  ∃ ports lastSeen, next = { state with ports := ports, lastSeen := lastSeen }

/-- What holds of the tabs at all times. -/
structure Sound (lineage : Document → String) (state : Authority Port Document) : Prop where
  proper : Proper lineage (state.tabs.getD [])
  active : ActiveIn (state.tabs.getD []) state.active

omit [DecidableEq Port] in
theorem Sound.empty {lineage : Document → String} (lastSeen : List (Port × Int)) :
    Sound lineage { (empty : Authority Port Document) with lastSeen := lastSeen } :=
  ⟨Proper.nil, .inr ⟨rfl, rfl⟩⟩

variable {load : Option Json → Option Document} {lineage : Document → String}
variable {state : Authority Port Document}

variable {next : Authority Port Document} {port : Port} {tabs : List (Tab Document)}
    {request : Json} {arrival : Arrival Port}

omit [DecidableEq Port] in
theorem SameList.sound (same : SameList state next) (sound : Sound lineage state) :
    Sound lineage next := by
  obtain ⟨ports, lastSeen, rfl⟩ := same
  exact ⟨sound.proper, sound.active⟩

variable {document : Document} {id : String} {failure : Failure}

omit [DecidableEq Port] in
theorem SameList.holds (same : SameList state next) (held : Holds state id document) :
    Holds next id document := by
  obtain ⟨ports, lastSeen, rfl⟩ := same
  exact held

/-- Ports leave one after another: either somebody stays, or the tabs are forgotten. -/
theorem foldl_disconnect (state : Authority Port Document) (gone : List Port) :
    gone.foldl disconnect state =
      if state.lastLeaves gone then
        { empty with lastSeen := state.lastSeen.filter (·.1 ∉ gone) }
      else
        { state with
          ports := state.ports.filter (· ∉ gone)
          lastSeen := state.lastSeen.filter (·.1 ∉ gone) } := by
  induction gone generalizing state with
  | nil => simp [lastLeaves]
  | cons port gone ih =>
    have seen : (state.lastSeen.filter (·.1 ≠ port)).filter (·.1 ∉ gone) =
        state.lastSeen.filter (·.1 ∉ port :: gone) := by
      rw [filter_filter]
      exact filter_congr fun entry _ => by simp [Bool.and_comm]
    rw [foldl_cons, ih]
    unfold disconnect
    dsimp only
    by_cases alone : state.ports.filter (· ≠ port) = []
    · have all : state.lastLeaves (port :: gone) = true := by
        rw [filter_eq_nil_iff] at alone
        refine all_eq_true.mpr fun other listed => ?_
        have same : other = port := by simpa using alone other listed
        simp [same]
      rw [if_pos alone, if_pos all, ← seen]
      split <;> rfl
    · have rest : (state.ports.filter (· ≠ port)).filter (· ∉ gone) =
          state.ports.filter (· ∉ port :: gone) := by
        rw [filter_filter]
        exact filter_congr fun other _ => by simp [Bool.and_comm]
      obtain ⟨other, present⟩ := exists_mem_of_ne_nil _ alone
      obtain ⟨listed, different⟩ := mem_filter.mp present
      rw [if_neg alone]
      have agree : lastLeaves
          { state with
            ports := state.ports.filter (· ≠ port)
            lastSeen := state.lastSeen.filter (·.1 ≠ port) } gone =
          state.lastLeaves (port :: gone) := by
        cases gone with
        | nil =>
          symm
          simp only [lastLeaves, isEmpty_cons, Bool.not_false, Bool.true_and,
            isEmpty_nil, Bool.not_true, Bool.false_and, all_eq_false]
          exact ⟨other, listed, by simpa using different⟩
        | cons next gone =>
          simp [lastLeaves, all_filter]
      rw [agree, ← seen, ← rest]

/-- Before a message is looked at, leases may lapse. -/
theorem refresh_eq (state : Authority Port Document) (port : Port) (now : Int) :
    SameList state (state.refresh port now) ∨
      ∃ lastSeen, state.refresh port now = { empty with lastSeen := lastSeen } := by
  unfold refresh pruneExpired
  rw [foldl_disconnect]
  split
  · exact .inr ⟨_, rfl⟩
  · exact .inl ⟨_, _, rfl⟩

theorem refresh_same {now : Int}
    (stays : (state.seenAt port now).lastLeaves ((state.seenAt port now).expired port now) = false) :
    SameList state (state.refresh port now) := by
  unfold refresh pruneExpired
  rw [foldl_disconnect, if_neg (by rw [stays]; exact Bool.false_ne_true)]
  exact ⟨_, _, rfl⟩

/-- A port that is open was not given up. -/
theorem refresh_same_of_tabsAt {now : Int}
    (serves : ((state.refresh port now).tabsAt port).isSome) :
    SameList state (state.refresh port now) := by
  cases refresh_eq state port now with
  | inl same => exact same
  | inr lapsed =>
    obtain ⟨lastSeen, emptied⟩ := lapsed
    rw [emptied] at serves
    cases serves

theorem tabs_of_tabsAt (serves : state.tabsAt port = some tabs) : state.tabs = some tabs := by
  unfold tabsAt at serves
  split at serves
  · exact serves
  · cases serves

inductive Effect (load : Option Json → Option Document) (lineage : Document → String)
    (state : Authority Port Document) (port : Port) (request : Json) :
    Authority Port Document → Prop
  | still : Effect load lineage state port request state
  | joined (ports : List Port) :
      Effect load lineage state port request { state with ports := ports }
  | renewed {tabs : List (Tab Document)} {revision : Nat} (asked : Option Json)
      (ports : List Port) (watermarks : Table Int)
      (opening : kindOf request = .opening)
      (safe : safeNatural? (own "revision" request) = some revision)
      (outdated : state.outdated revision = true)
      (decoded : decodeUnique load lineage (own "tabs" request) = .ok tabs) :
      Effect load lineage state port request
        { state.renew tabs asked revision with
          ports := ports
          operationWatermarks := watermarks }
  | closed (closing : kindOf request = .closing) (serves : (state.tabsAt port).isSome) :
      Effect load lineage state port request (state.disconnect port)
  | applied {operation : Operation} {tabs after : List (Tab Document)} {active : String}
      (mutation : kindOf request = .mutation)
      (serves : state.tabsAt port = some tabs)
      (fresh : state.freshOperation (own "mutation" request) = .ok (some operation))
      (applies : applyMutation load lineage tabs state.active operation.body = .ok (after, active)) :
      Effect load lineage state port request (state.applied operation after active)

theorem openTabs_effect (opening : kindOf request = .opening) :
    Effect load lineage state port request (state.openTabs load lineage port request).state := by
  unfold openTabs
  split
  · exact .still
  · rename_i revision safe
    split
    · rename_i outdated
      split
      · exact .still
      · rename_i tabs decoded
        dsimp only
        split
        · exact .renewed _ state.ports [] opening safe outdated decoded
        · exact .renewed _ _ _ opening safe outdated decoded
    · exact .joined _

theorem mutate_effect (mutation : kindOf request = .mutation)
    (serves : state.tabsAt port = some tabs) : Effect load lineage state port request
      (state.mutate load lineage port tabs (own "mutation" request)).state := by
  unfold mutate
  split
  · exact .still
  · exact .still
  · rename_i operation fresh
    split
    · exact .still
    · rename_i after active applies
      exact .applied mutation serves fresh applies

variable (load lineage) in
theorem dispatch_effect (state : Authority Port Document) (port : Port) (request : Json) :
    Effect load lineage state port request (state.dispatch load lineage port request).state := by
  unfold dispatch
  split
  · rename_i opening
    exact openTabs_effect opening
  · split
    · exact .still
    · rename_i tabs serves
      split
      · rename_i closing
        exact .closed closing (by rw [serves]; rfl)
      · rename_i mutation
        exact mutate_effect mutation serves
      · exact .still

variable (load lineage) in
/-- A message that is no request does nothing, a request what it is dispatched to. -/
theorem receive_effect (state : Authority Port Document) (arrival : Arrival Port) :
    (state.receive load lineage arrival).1 = state.refresh arrival.port arrival.now ∨
      (safeNatural? (own "id" arrival.message)).isSome ∧
        Effect load lineage (state.refresh arrival.port arrival.now) arrival.port arrival.message
          (state.receive load lineage arrival).1 := by
  unfold receive
  dsimp only
  split
  · exact .inl rfl
  · rename_i id safe
    refine .inr ⟨by rw [safe]; rfl, ?_⟩
    have effect := dispatch_effect load lineage
      (state.refresh arrival.port arrival.now) arrival.port arrival.message
    split <;> exact effect

omit [DecidableEq Port] in
theorem renew_activeIn (state : Authority Port Document) (tabs : List (Tab Document)) (asked : Option Json) (revision : Nat) :
    ActiveIn tabs (state.renew tabs asked revision).active := by
  unfold renew
  dsimp only
  split
  · split
    · rename_i listed
      exact .inl listed
    · exact ActiveIn.first tabs
  · exact ActiveIn.first tabs

theorem Effect.sound (effect : Effect load lineage state port request next)
    (sound : Sound lineage state) : Sound lineage next := by
  cases effect with
  | still => exact sound
  | joined ports => exact ⟨sound.proper, sound.active⟩
  | @renewed tabs revision asked ports watermarks opening safe outdated decoded =>
    exact ⟨decodeUnique_proper decoded, renew_activeIn state tabs asked revision⟩
  | closed closing serves =>
    have same := foldl_disconnect state [port]
    rw [foldl_cons, foldl_nil] at same
    rw [same]
    split
    · exact Sound.empty _
    · exact ⟨sound.proper, sound.active⟩
  | applied mutation serves fresh applies =>
    have there := tabs_of_tabsAt serves
    have proper := sound.proper
    rw [there, Option.getD_some] at proper
    obtain ⟨after_proper, after_active, _⟩ := applyMutation_spec proper applies
    exact ⟨after_proper, after_active⟩

theorem Sound.receive (sound : Sound lineage state) (arrival : Arrival Port) :
    Sound lineage (state.receive load lineage arrival).1 := by
  have refreshed : Sound lineage (state.refresh arrival.port arrival.now) := by
    cases refresh_eq state arrival.port arrival.now with
    | inl same => exact same.sound sound
    | inr lapsed =>
      obtain ⟨lastSeen, emptied⟩ := lapsed
      rw [emptied]
      exact Sound.empty lastSeen
  cases receive_effect load lineage state arrival with
  | inl same => exact same ▸ refreshed
  | inr served => exact served.2.sound refreshed

theorem Sound.run (sound : Sound lineage state) (arrivals : List (Arrival Port)) :
    Sound lineage (state.run load lineage arrivals) := by
  induction arrivals generalizing state with
  | nil => exact sound
  | cons arrival arrivals ih => exact ih (sound.receive arrival)

/-! ## Between two resets -/

/-- What a message does that does not give up the tabs. -/
inductive Continues (load : Option Json → Option Document) (lineage : Document → String)
    (state : Authority Port Document) (arrival : Arrival Port) (next : Authority Port Document) :
    Prop
  | same (same : SameList state next)
  | started (absent : state.tabs = none) (present : next.tabs.isSome)
  | applied {operation : Operation} {tabs after : List (Tab Document)} {active : String}
      (taken : state.applied? load lineage arrival = some operation)
      (before : state.tabs = some tabs)
      (later : (state.operationWatermarks.get operation.actorId).getD (-1) < operation.sequence)
      (applies : applyMutation load lineage tabs state.active operation.body = .ok (after, active))
      (there : next.tabs = some after)
      (revision : next.revision = nextRevision state.revision)
      (watermarks : next.operationWatermarks =
        state.operationWatermarks.set operation.actorId operation.sequence)

variable {mutation : Option Json} {operation : Operation} {later : List (Arrival Port)}

omit [DecidableEq Port] in
theorem freshOperation_later (fresh : state.freshOperation mutation = .ok (some operation)) :
    (state.operationWatermarks.get operation.actorId).getD (-1) < operation.sequence := by
  unfold freshOperation at fresh
  split at fresh
  · cases fresh
  · split at fresh
    · cases fresh
    · rename_i later
      split at fresh
      · cases fresh
      · cases fresh
        exact not_le.mp later

theorem receive_continues (kept : state.resets load lineage arrival = false) :
    Continues load lineage state arrival (state.receive load lineage arrival).1 := by
  unfold resets at kept
  obtain ⟨stays, kept⟩ := Bool.or_eq_false_iff.mp kept
  have same := refresh_same stays
  cases receive_effect load lineage state arrival with
  | inl refused => exact .same (refused ▸ same)
  | inr served =>
    obtain ⟨safe, effect⟩ := served
    rw [safe, Bool.true_and] at kept
    obtain ⟨ports, lastSeen, refreshed⟩ := same
    generalize (state.receive load lineage arrival).1 = next at effect
    cases effect with
    | still => exact .same ⟨ports, lastSeen, refreshed⟩
    | joined joined => exact .same ⟨joined, lastSeen, by rw [refreshed]⟩
    | @renewed tabs revision asked joined watermarks opening safe outdated decoded =>
      rw [opening] at kept
      dsimp only [replaces] at kept
      rw [safe, decoded, refreshed] at kept
      rw [refreshed] at outdated
      refine .started ?_ rfl
      cases present : state.tabs with
      | none => rfl
      | some tabs =>
        have later : ¬ state.revision < revision := by simpa [present] using kept
        simp [Authority.outdated, present, later] at outdated
    | closed closing serves =>
      rw [closing] at kept
      dsimp only at kept
      rw [serves, Bool.true_and] at kept
      have left := foldl_disconnect (state.refresh arrival.port arrival.now) [arrival.port]
      rw [foldl_cons, foldl_nil, if_neg (by rw [kept]; exact Bool.false_ne_true)]
        at left
      rw [left, refreshed]
      exact .same ⟨_, _, rfl⟩
    | @applied operation tabs after active mutation serves fresh applies =>
      have taken : state.applied? load lineage arrival = some operation := by
        obtain ⟨id, safe⟩ := Option.isSome_iff_exists.mp safe
        unfold applied?
        dsimp only
        rw [safe, mutation, serves, fresh]
        dsimp only
        rw [applies]
      have later := freshOperation_later fresh
      have before := tabs_of_tabsAt serves
      rw [refreshed] at later before applies
      exact .applied taken before later applies rfl (by rw [refreshed]; rfl)
        (by rw [refreshed]; rfl)

theorem holds_receive (sound : Sound lineage state)
    (kept : state.resets load lineage arrival = false) (held : Holds state id document) :
    Holds (state.receive load lineage arrival).1 id document ∨
      ∃ operation, state.applied? load lineage arrival = some operation ∧ Removes operation id := by
  cases receive_continues kept with
  | same same => exact .inl (same.holds held)
  | started absent =>
    obtain ⟨tabs, present, _⟩ := held
    rw [absent] at present
    cases present
  | applied taken before later applies there =>
    obtain ⟨tabs, present, tab, listed, rfl, rfl⟩ := held
    have proper := sound.proper
    rw [before, Option.getD_some] at proper
    cases before.symm.trans present
    obtain ⟨_, _, removals, named, stays⟩ := applyMutation_spec proper applies
    by_cases removed : tab.id ∈ removals
    · exact .inr ⟨_, taken, removals, named, removed⟩
    · exact .inl ⟨_, there, stays tab listed removed⟩

/-- A tab that is present stays until a mutation removes it. -/
theorem holds_run (sound : Sound lineage state) (unbroken : Unbroken load lineage state later)
    (held : Holds state id document) : Holds (state.run load lineage later) id document ∨
      ∃ front arrival back operation, later = front ++ arrival :: back ∧
        (state.run load lineage front).applied? load lineage arrival = some operation ∧
        Removes operation id := by
  induction later generalizing state with
  | nil => exact .inl held
  | cons arrival later ih =>
    cases holds_receive sound unbroken.1 held with
    | inr removed =>
      obtain ⟨operation, taken, removes⟩ := removed
      exact .inr ⟨[], arrival, later, operation, rfl, taken, removes⟩
    | inl stays =>
      cases ih (sound.receive arrival) unbroken.2 stays with
      | inl held => exact .inl held
      | inr removed =>
        obtain ⟨front, other, back, operation, rfl, taken, removes⟩ := removed
        exact .inr ⟨arrival :: front, other, back, operation, rfl, taken, removes⟩

def Reached (state : Authority Port Document) (actorId : String) (sequence : Nat) : Prop :=
  state.tabs.isSome ∧ (sequence : Int) ≤ (state.operationWatermarks.get actorId).getD (-1)

theorem reached_receive (kept : state.resets load lineage arrival = false) {actorId : String}
    {sequence : Nat} (reached : Reached state actorId sequence) :
    Reached (state.receive load lineage arrival).1 actorId sequence := by
  obtain ⟨present, passed⟩ := reached
  cases receive_continues kept with
  | same same =>
    obtain ⟨ports, lastSeen, equal⟩ := same
    rw [equal]
    exact ⟨present, passed⟩
  | started absent =>
    rw [absent] at present
    cases present
  | @applied operation tabs after active taken before later applies there revision watermarks =>
    refine ⟨by rw [there]; rfl, ?_⟩
    rw [watermarks, Table.get_set]
    split
    · rename_i same
      rw [same] at later
      exact (passed.trans_lt later).le
    · exact passed

theorem reached_run (unbroken : Unbroken load lineage state later) {actorId : String}
    {sequence : Nat} (reached : Reached state actorId sequence) :
    Reached (state.run load lineage later) actorId sequence := by
  induction later generalizing state with
  | nil => exact reached
  | cons arrival later ih => exact ih unbroken.2 (reached_receive unbroken.1 reached)

theorem applied_reached (taken : state.applied? load lineage arrival = some operation) :
    ¬ Reached state operation.actorId operation.sequence ∧
      (state.receive load lineage arrival).1.revision = nextRevision state.revision ∧
      Reached (state.receive load lineage arrival).1 operation.actorId operation.sequence := by
  unfold applied? at taken
  dsimp only at taken
  split at taken
  · rename_i id tabs operation' safe mutation serves fresh
    split at taken
    · rename_i result applies
      cases taken
      have same : SameList state (state.refresh arrival.port arrival.now) :=
        refresh_same_of_tabsAt (by rw [serves]; rfl)
      have later := freshOperation_later fresh
      have next : (state.receive load lineage arrival).1 =
          (state.refresh arrival.port arrival.now).applied operation result.1 result.2 := by
        unfold receive
        dsimp only
        rw [safe]
        dsimp only [dispatch]
        rw [mutation, serves]
        dsimp only [mutate]
        rw [fresh]
        dsimp only
        rw [applies]
      obtain ⟨ports, lastSeen, refreshed⟩ := same
      rw [next]
      rw [refreshed] at later ⊢
      refine ⟨fun reached => absurd later (not_lt.mpr reached.2), rfl, rfl, ?_⟩
      unfold applied
      rw [Table.get_set, if_pos rfl]
      exact le_rfl
    · cases taken
  · cases taken

theorem run_append (state : Authority Port Document) (first second : List (Arrival Port)) :
    state.run load lineage (first ++ second) =
      (state.run load lineage first).run load lineage second :=
  foldl_append

theorem unbroken_append {first second : List (Arrival Port)} :
    Unbroken load lineage state (first ++ second) ↔ Unbroken load lineage state first ∧
        Unbroken load lineage (state.run load lineage first) second := by
  induction first generalizing state with
  | nil => exact ⟨fun later => ⟨trivial, later⟩, And.right⟩
  | cons arrival first ih =>
    exact (and_congr Iff.rfl ih).trans and_assoc.symm

theorem applied_once {front middle back : List (Arrival Port)} {other : Arrival Port}
    {first second : Operation}
    (unbroken : Unbroken load lineage state (front ++ arrival :: (middle ++ other :: back)))
    (taken : (state.run load lineage front).applied? load lineage arrival = some first)
    (again : (state.run load lineage (front ++ arrival :: middle)).applied? load lineage other =
      some second) : (first.actorId, first.sequence) ≠ (second.actorId, second.sequence) := by
  intro equal
  obtain ⟨actor, sequence⟩ := Prod.mk.inj equal
  obtain ⟨_, unbroken⟩ := unbroken_append.mp unbroken
  obtain ⟨unbroken, _⟩ := unbroken_append.mp unbroken.2
  have reached := reached_run unbroken (applied_reached taken).2.2
  rw [run_append] at again
  refine (applied_reached again).1 ?_
  rw [← actor, ← sequence]
  exact reached

theorem dispatch_events (state : Authority Port Document) (port : Port) (request : Json) :
    ∀ event ∈ (state.dispatch load lineage port request).events,
      ∃ snapshot, event.2 = .snapshot snapshot := by
  have peers : ∀ (state : Authority Port Document), ∀ event ∈ state.peers port,
      ∃ snapshot, event.2 = .snapshot snapshot := by
    intro state event listed
    obtain ⟨peer, _, rfl⟩ := mem_map.mp listed
    exact ⟨_, rfl⟩
  have join : ∀ (state : Authority Port Document) (replaced : Bool),
      ∀ event ∈ (state.join port replaced).events, ∃ snapshot, event.2 = .snapshot snapshot := by
    intro state replaced event listed
    unfold Authority.join at listed
    cases replaced with
    | false => cases listed
    | true => exact peers _ event listed
  unfold dispatch
  split
  · unfold openTabs
    split
    · exact fun _ listed => nomatch listed
    · split
      · split
        · exact fun _ listed => nomatch listed
        · dsimp only
          split
          · exact fun _ listed => nomatch listed
          · exact join _ _
      · exact join _ _
  · split
    · exact fun _ listed => nomatch listed
    · split
      · exact fun _ listed => nomatch listed
      · unfold mutate
        split
        · exact fun _ listed => nomatch listed
        · exact fun _ listed => nomatch listed
        · split
          · exact fun _ listed => nomatch listed
          · exact peers _
      · exact fun _ listed => nomatch listed

theorem mutate_error
    (thrown : (state.mutate load lineage port tabs mutation).value = .error failure) :
    (state.mutate load lineage port tabs mutation).state = state := by
  unfold mutate at thrown ⊢
  split
  · rfl
  · rfl
  · rename_i operation fresh
    rw [fresh] at thrown
    dsimp only at thrown ⊢
    split
    · rfl
    · rename_i applies
      rw [applies] at thrown
      cases thrown

theorem dispatch_error (other : kindOf request ≠ .opening)
    (thrown : (state.dispatch load lineage port request).value = .error failure) :
    (state.dispatch load lineage port request).state = state := by
  unfold dispatch at thrown ⊢
  split
  · rename_i opening
    exact absurd opening other
  · split
    · rfl
    · rename_i tabs serves
      cases asked : kindOf request with
      | opening => exact absurd asked other
      | heartbeat => rfl
      | closing =>
        rw [asked, serves] at thrown
        cases thrown
      | mutation =>
        rw [asked, serves] at thrown
        exact mutate_error thrown

theorem receive_error {id : Int} (other : kindOf arrival.message ≠ .opening)
    (thrown : (port, .error id failure) ∈ (state.receive load lineage arrival).2) :
    (state.receive load lineage arrival).1 = state.refresh arrival.port arrival.now := by
  unfold receive at thrown ⊢
  dsimp only at thrown ⊢
  split
  · rfl
  · rename_i safe
    rw [safe] at thrown
    dsimp only at thrown
    split
    · rename_i value answered
      rw [answered] at thrown
      cases mem_append.mp thrown with
      | inl event =>
        obtain ⟨snapshot, sent⟩ := dispatch_events _ _ _ _ event
        cases sent
      | inr last =>
        cases mem_singleton.mp last
    · rename_i failed
      exact dispatch_error other failed

/-- Windows never lose each other's tabs. -/
theorem windows_keep_tabs (load : Option Json → Option Document) (lineage : Document → String)
    (history : List (Arrival Port)) :
    Sound lineage ((empty : Authority Port Document).run load lineage history) ∧
    (∀ later, Unbroken load lineage (empty.run load lineage history) later →
      (∀ id document, Holds (empty.run load lineage history) id document →
        Holds (empty.run load lineage (history ++ later)) id document ∨
        ∃ front arrival back operation, later = front ++ arrival :: back ∧
          (empty.run load lineage (history ++ front)).applied? load lineage arrival =
            some operation ∧ Removes operation id) ∧ ∀ front arrival middle other back first second,
        later = front ++ arrival :: (middle ++ other :: back) →
        (empty.run load lineage (history ++ front)).applied? load lineage arrival = some first →
        (empty.run load lineage (history ++ (front ++ arrival :: middle))).applied? load lineage
          other = some second →
        (first.actorId, first.sequence) ≠ (second.actorId, second.sequence)) ∧ ∀ arrival,
      (∀ operation,
        (empty.run load lineage history).applied? load lineage arrival = some operation →
        (empty.run load lineage history).revision < 2 ^ 53 →
        (empty.run load lineage (history ++ [arrival])).revision =
          (empty.run load lineage history).revision + 1) ∧
      ∀ id failure, kindOf arrival.message ≠ .opening → (arrival.port, .error id failure) ∈
          ((empty.run load lineage history).receive load lineage arrival).2 →
        empty.run load lineage (history ++ [arrival]) =
          (empty.run load lineage history).refresh arrival.port arrival.now ∧
        ((empty.run load lineage history).resets load lineage arrival = false →
          SameList (empty.run load lineage history)
            (empty.run load lineage (history ++ [arrival]))) := by
  have sound : Sound lineage ((empty : Authority Port Document).run load lineage history) :=
    (Sound.empty []).run history
  refine ⟨sound, fun later unbroken => ⟨?_, ?_⟩, fun arrival => ⟨?_, ?_⟩⟩
  · intro id document held
    rw [run_append]
    cases holds_run sound unbroken held with
    | inl stays => exact .inl stays
    | inr removed =>
      obtain ⟨front, arrival, back, operation, split, taken, removes⟩ := removed
      refine .inr ⟨front, arrival, back, operation, split, ?_, removes⟩
      rw [run_append]
      exact taken
  · rintro front arrival middle other back first second rfl taken again
    rw [run_append] at taken again
    exact applied_once unbroken taken again
  · intro operation taken safe
    rw [run_append]
    refine (applied_reached taken).2.1.trans ?_
    rw [nextRevision, if_pos safe]
  · intro id failure other thrown
    rw [run_append]
    have refused := receive_error other thrown
    refine ⟨refused, fun kept => ?_⟩
    change SameList _ ((empty.run load lineage history).receive load lineage arrival).1
    rw [refused]
    exact refresh_same (Bool.or_eq_false_iff.mp kept).1

/-- A window opens without tabs. -/
def openingMessage (revision : Nat) : Json :=
  .obj [("id", .num 0), ("kind", .str "open"), ("tabs", .arr []), ("active", .str ""),
    ("revision", .num revision), ("operationWatermarks", .obj [])]

/-- A mutation that changes no tab. -/
def idleMutation (opId : String) (sequence : Nat) : Json :=
  .obj [("opId", .str opId), ("actorId", .str "window"), ("sequence", .num sequence),
    ("baseRevision", .num 0), ("additions", .arr []), ("removals", .arr []),
    ("updates", .arr []), ("order", .arr []), ("active", .str "")]

/-- A request with a mutation that changes no tab. -/
def mutatingMessage (opId : String) (sequence : Nat) : Json :=
  .obj [("id", .num 1), ("kind", .str "mutate"), ("mutation", idleMutation opId sequence)]

def closingMessage : Json :=
  .obj [("id", .num 2), ("kind", .str "close")]

theorem windows_keep_tabs_two : ((empty : Authority Bool Unit).run (fun _ => none) (fun _ => "")
        ([⟨true, 0, openingMessage 0⟩] ++ [⟨true, 1, mutatingMessage "first" 0⟩])).revision =
      ((empty : Authority Bool Unit).run (fun _ => none) (fun _ => "")
        [⟨true, 0, openingMessage 0⟩]).revision + 1 :=
  ((windows_keep_tabs (fun _ => none) (fun _ => "") [⟨true, 0, openingMessage 0⟩]).2.2
    ⟨true, 1, mutatingMessage "first" 0⟩).1 ⟨"first", "window", 0, idleMutation "first" 0⟩
      (by decide +kernel) (by decide +kernel)

/-- A revision that is not safe is not raised, and a window that closed may bring an operation
again. -/
theorem windows_repeat :
    (let state := (empty : Authority Bool Unit).run (fun _ => none) (fun _ => "")
        [⟨true, 0, openingMessage 9007199254740991⟩, ⟨true, 1, mutatingMessage "first" 0⟩]
      let arrival : Arrival Bool := ⟨true, 2, mutatingMessage "second" 1⟩
      (state.applied? (fun _ => none) (fun _ => "") arrival).isSome = true ∧
        (state.receive (fun _ => none) (fun _ => "") arrival).1.revision = state.revision) ∧
    (let first := (empty : Authority Bool Unit).run (fun _ => none) (fun _ => "")
        [⟨true, 0, openingMessage 0⟩]
      let second := (empty : Authority Bool Unit).run (fun _ => none) (fun _ => "")
        [⟨true, 0, openingMessage 0⟩, ⟨true, 1, mutatingMessage "first" 0⟩,
          ⟨true, 2, closingMessage⟩, ⟨true, 3, openingMessage 0⟩]
      let arrival : Arrival Bool := ⟨true, 4, mutatingMessage "first" 0⟩
      (first.applied? (fun _ => none) (fun _ => "") arrival).isSome = true ∧
        first.applied? (fun _ => none) (fun _ => "") arrival =
          second.applied? (fun _ => none) (fun _ => "") arrival) := by
  decide +kernel

end Authority

end Dinkster.Workspace
