import Mathlib

/-!
# Optimistic replication over an exact-base log

A server keeps a log of patches and appends one only when the submitter names the
head of the log as its base.  A replica follows the log: it knows the document of
some revision, shows that document with its own pending intentions applied, and
submits the first of them.  An intention may be submitted several times under
several ids, because a rebase gives it a new id and a new patch while the fate of
an earlier submission is unknown.

Documents, patches and ids are arbitrary.  The system is one replica next to the
log; other replicas appear as foreign appends.  Three results hold of every run:
an intention contributes at most one entry to the log; if no step is unsound, the
replica's document is the fold of the log up to its revision; and then every own
entry of the log is good over the fold before it, for any property `good` that
patches have over the document they were made on.
-/

namespace Dinkster.Library.Replication

open List Option

/-- One submission of an intention. -/
structure Attempt (Id Tag Patch : Type*) where
  id : Id
  tag : Tag
  base : Nat
  patch : Patch

/-- A pending intention: its current id and patch, the id it began under, a tag
that it keeps, and its remembered attempts. -/
structure Intention (Id Tag Patch : Type*) where
  id : Id
  intention : Id
  tag : Tag
  patch : Patch
  attempts : List (Attempt Id Tag Patch)

structure Logged (Id Patch : Type*) where
  id : Id
  patch : Patch

/-- A replica next to the log.  `sent` lists its submissions, `minted` the
intention of each id it made, and `target` the highest revision it has heard of. -/
structure State (Id Tag Doc Patch : Type*) where
  log : List (Logged Id Patch)
  confirmed : Doc
  revision : Nat
  optimistic : Doc
  pending : List (Intention Id Tag Patch)
  sent : List (Attempt Id Tag Patch)
  minted : List (Id × Id)
  target : Nat

/-- The parameters of a replica: the first document, the effect of patches, the
ids that are its own, and the property its patches have when they are made. -/
structure Protocol (Id Tag Doc Patch : Type*) where
  initial : Doc
  apply : Doc → Patch → Option Doc
  own : Id → Prop
  good : Doc → Tag → Patch → Prop

variable {Id Tag Doc Patch : Type*}

namespace Protocol

variable (protocol : Protocol Id Tag Doc Patch)

def applyAll : Doc → List Patch → Option Doc
  | doc, [] => some doc
  | doc, patch :: rest => (protocol.apply doc patch).bind fun next => applyAll next rest

theorem applyAll_append (doc : Doc) (front back : List Patch) :
    protocol.applyAll doc (front ++ back) =
      (protocol.applyAll doc front).bind fun middle => protocol.applyAll middle back := by
  induction front generalizing doc with
  | nil => rfl
  | cons patch front ih =>
    simp only [cons_append, applyAll, ih, bind_assoc]

def documentAt (log : List (Logged Id Patch)) (revision : Nat) : Option Doc :=
  protocol.applyAll protocol.initial ((log.take revision).map Logged.patch)

theorem documentAt_succ {log : List (Logged Id Patch)} {revision : Nat} {doc next : Doc}
    {entry : Logged Id Patch} (reached : protocol.documentAt log revision = some doc)
    (appended : log[revision]? = some entry) (applied : protocol.apply doc entry.patch = some next) :
    protocol.documentAt log (revision + 1) = some next := by
  rw [documentAt] at reached ⊢
  rw [take_add_one, appended, toList_some, map_append, applyAll_append, reached]
  simp [applyAll, applied]

theorem documentAt_append {log : List (Logged Id Patch)} {revision : Nat}
    (within : revision ≤ log.length) (entry : Logged Id Patch) :
    protocol.documentAt (log ++ [entry]) revision = protocol.documentAt log revision := by
  rw [documentAt, documentAt, take_append_of_le_length within]

end Protocol

def Fresh (minted : List (Id × Id)) (id : Id) : Prop :=
  ∀ pair ∈ minted, pair.1 ≠ id ∧ pair.2 ≠ id

/-- Re-execute intentions on a rebuilt replica: each is dropped, or survives under
a fresh id with a patch for the document at hand, without the attempts whose slot
has been seen. -/
inductive Rebuilds (protocol : Protocol Id Tag Doc Patch) :
    State Id Tag Doc Patch → List (Intention Id Tag Patch) → State Id Tag Doc Patch → Prop where
  | done {state : State Id Tag Doc Patch} : Rebuilds protocol state [] state
  | drop {state final : State Id Tag Doc Patch} {entry : Intention Id Tag Patch}
      {rest : List (Intention Id Tag Patch)} (later : Rebuilds protocol state rest final) :
      Rebuilds protocol state (entry :: rest) final
  | survive {state final : State Id Tag Doc Patch} {entry : Intention Id Tag Patch}
      {rest : List (Intention Id Tag Patch)} {attempts : List (Attempt Id Tag Patch)} (id : Id)
      (patch : Patch) (doc : Doc)
      (own : protocol.own id) (fresh : Fresh state.minted id)
      (applied : protocol.apply state.optimistic patch = some doc)
      (good : protocol.good state.optimistic entry.tag patch)
      (remembered : ∀ attempt,
        attempt ∈ attempts ↔ attempt ∈ entry.attempts ∧ state.revision ≤ attempt.base)
      (later : Rebuilds protocol
        { state with
          optimistic := doc
          pending := state.pending ++ [⟨id, entry.intention, entry.tag, patch, attempts⟩]
          minted := (id, entry.intention) :: state.minted } rest final) :
      Rebuilds protocol state (entry :: rest) final

/-- The state a rebuild starts from. -/
def State.detach (state : State Id Tag Doc Patch) (doc : Doc) (revision target : Nat) :
    State Id Tag Doc Patch :=
  { state with confirmed := doc, revision, optimistic := doc, pending := [], target }

/-- One step of the replica or of the log.  A resync to a document that is not the
one of its revision, and a collapse, which loses the pending intentions and leaves
the optimistic document behind, are unsound. -/
inductive Step (protocol : Protocol Id Tag Doc Patch) (sound : Prop) (state : State Id Tag Doc Patch) :
    State Id Tag Doc Patch → Prop where
  | foreign (entry : Logged Id Patch) (theirs : ¬ protocol.own entry.id)
      (unseen : ∀ other ∈ state.log, other.id ≠ entry.id) :
      Step protocol sound state { state with log := state.log ++ [entry] }
  | accept (attempt : Attempt Id Tag Patch) (sent : attempt ∈ state.sent)
      (exact : attempt.base = state.log.length)
      (unseen : ∀ other ∈ state.log, other.id ≠ attempt.id) :
      Step protocol sound state
        { state with log := state.log ++ [⟨attempt.id, attempt.patch⟩] }
  | announce (target : Nat) (raised : state.target ≤ target) :
      Step protocol sound state { state with target }
  | enqueue (id : Id) (tag : Tag) (patch : Patch) (doc : Doc) (own : protocol.own id)
      (fresh : Fresh state.minted id)
      (applied : protocol.apply state.optimistic patch = some doc)
      (good : protocol.good state.optimistic tag patch) :
      Step protocol sound state
        { state with
          optimistic := doc
          pending := state.pending ++ [⟨id, id, tag, patch, []⟩]
          minted := (id, id) :: state.minted }
  | submit (head : Intention Id Tag Patch) (rest : List (Intention Id Tag Patch))
      (attempts : List (Attempt Id Tag Patch)) (pending : state.pending = head :: rest)
      (rested : state.target ≤ state.revision)
      (remembered : attempts = head.attempts ++ [⟨head.id, head.tag, state.revision, head.patch⟩] ∨
        attempts = head.attempts ∧ ∃ attempt ∈ head.attempts, attempt.id = head.id) :
      Step protocol sound state
        { state with
          pending := { head with attempts } :: rest
          sent := state.sent ++ [⟨head.id, head.tag, state.revision, head.patch⟩] }
  | acknowledge (head : Intention Id Tag Patch) (rest : List (Intention Id Tag Patch))
      (entry : Logged Id Patch) (doc : Doc) (pending : state.pending = head :: rest)
      (next : state.log[state.revision]? = some entry) (same : entry.id = head.id)
      (adopted : rest = [] → doc = state.optimistic)
      (applied : rest ≠ [] → protocol.apply state.confirmed entry.patch = some doc) :
      Step protocol sound state
        { state with confirmed := doc, revision := state.revision + 1, pending := rest }
  | absorb (entry : Logged Id Patch) (doc : Doc) (kept : List (Intention Id Tag Patch))
      (final : State Id Tag Doc Patch) (next : state.log[state.revision]? = some entry)
      (applied : protocol.apply state.confirmed entry.patch = some doc)
      (sublist : kept.Sublist state.pending)
      (retired : ∀ survivor ∈ kept, ∀ attempt ∈ survivor.attempts, attempt.id ≠ entry.id)
      (rebuilt : Rebuilds protocol
        (state.detach doc (state.revision + 1) state.target) kept final) :
      Step protocol sound state final
  | resync (revision target : Nat) (doc : Doc) (kept : List (Intention Id Tag Patch))
      (final : State Id Tag Doc Patch)
      (faithful : sound → revision ≤ state.log.length ∧
        protocol.documentAt state.log revision = some doc)
      (raised : state.target ≤ target ∧ state.revision ≤ target)
      (sublist : kept.Sublist state.pending)
      (certain : ∀ survivor ∈ kept, ∀ attempt ∈ survivor.attempts, revision ≤ attempt.base)
      (rebuilt : Rebuilds protocol (state.detach doc revision target) kept final) :
      Step protocol sound state final
  | collapse (revision target : Nat) (doc : Doc) (lapsed : ¬ sound)
      (raised : max state.revision state.target ≤ max revision target) :
      Step protocol sound state
        { state with confirmed := doc, revision, pending := [], target }

/-- The slot of an attempt is taken by something else, so it can never commit. -/
def Dead (log : List (Logged Id Patch)) (attempt : Attempt Id Tag Patch) : Prop :=
  ∃ entry, log[attempt.base]? = some entry ∧ entry.id ≠ attempt.id

variable {attempt : Attempt Id Tag Patch} {intention : Id}
    {entries : List (Intention Id Tag Patch)} {final : State Id Tag Doc Patch}
    {entry : Logged Id Patch} {doc : Doc} {revision : Nat}

variable {log : List (Logged Id Patch)} {id : Id} {target : Nat}
    {kept : List (Intention Id Tag Patch)}

theorem Dead.append (dead : Dead log attempt) (entry : Logged Id Patch) :
    Dead (log ++ [entry]) attempt := by
  obtain ⟨occupant, taken, other⟩ := dead
  obtain ⟨inside, _⟩ := List.getElem?_eq_some_iff.mp taken
  exact ⟨occupant, by rw [getElem?_append_left inside, taken], other⟩

/-- What is known of the submissions of some intentions: those whose slot was seen
are dead, and the others are remembered or dead. -/
structure Tracks (state : State Id Tag Doc Patch) (entries : List (Intention Id Tag Patch)) : Prop where
  minted : ∀ entry ∈ entries, (entry.id, entry.intention) ∈ state.minted
  attempted : ∀ entry ∈ entries, ∀ attempt ∈ entry.attempts,
    (attempt.id, entry.intention) ∈ state.minted
  distinct : (entries.map Intention.intention).Nodup
  passed : ∀ entry ∈ entries, ∀ attempt ∈ state.sent,
    (attempt.id, entry.intention) ∈ state.minted → attempt.base < state.revision →
      Dead state.log attempt
  remembered : ∀ entry ∈ entries, ∀ attempt ∈ state.sent,
    (attempt.id, entry.intention) ∈ state.minted → state.revision ≤ attempt.base →
      (∃ known ∈ entry.attempts, known.id = attempt.id ∧ known.base = attempt.base) ∨
        Dead state.log attempt

/-- Ids are told apart and the log tells whose its entries are. -/
structure Identified (protocol : Protocol Id Tag Doc Patch) (state : State Id Tag Doc Patch) : Prop where
  own : ∀ pair ∈ state.minted, protocol.own pair.1
  functional : ∀ id first second, (id, first) ∈ state.minted → (id, second) ∈ state.minted →
    first = second
  sent : ∀ attempt ∈ state.sent, ∃ intention, (attempt.id, intention) ∈ state.minted
  logged : ∀ slot entry, state.log[slot]? = some entry → protocol.own entry.id →
    ∃ attempt ∈ state.sent, attempt.id = entry.id ∧ attempt.base = slot
  distinct : (state.log.map Logged.id).Nodup

/-- A later submission of an intention finds the earlier ones dead, and no base
lies above what the replica has heard of. -/
structure Ordered (state : State Id Tag Doc Patch) : Prop where
  reached : ∀ attempt ∈ state.sent, attempt.base ≤ max state.revision state.target
  dead : ∀ earlier ∈ state.sent, ∀ later ∈ state.sent, ∀ intention,
    (earlier.id, intention) ∈ state.minted → (later.id, intention) ∈ state.minted →
      earlier.base < later.base → Dead state.log earlier

/-- No attempt of an intention was made under its current id. -/
def Unsubmitted (entry : Intention Id Tag Patch) : Prop :=
  ∀ attempt ∈ entry.attempts, attempt.id ≠ entry.id

structure HeadSubmitted (state : State Id Tag Doc Patch) : Prop where
  head : ∀ head rest, state.pending = head :: rest → ∀ attempt ∈ head.attempts,
    attempt.id = head.id → attempt.base = state.revision
  tail : ∀ entry ∈ state.pending.tail, Unsubmitted entry

/-- The invariant behind at-most-once commits. -/
structure Once (protocol : Protocol Id Tag Doc Patch) (state : State Id Tag Doc Patch) : Prop where
  identified : Identified protocol state
  ordered : Ordered state
  tracks : Tracks state state.pending
  submitted : HeadSubmitted state

variable {protocol : Protocol Id Tag Doc Patch} {sound : Prop} {state next : State Id Tag Doc Patch}

theorem Once.at_most_once (once : Once protocol state) {first second : Nat}
    {left right : Logged Id Patch} (leftLogged : state.log[first]? = some left)
    (rightLogged : state.log[second]? = some right)
    (leftMinted : (left.id, intention) ∈ state.minted)
    (rightMinted : (right.id, intention) ∈ state.minted) : first = second := by
  -- The earlier of two slots would hold an attempt that its successor found dead.
  have apart {first second : Nat} {left right : Logged Id Patch}
      (leftLogged : state.log[first]? = some left)
      (rightLogged : state.log[second]? = some right)
      (leftMinted : (left.id, intention) ∈ state.minted)
      (rightMinted : (right.id, intention) ∈ state.minted) : ¬ first < second := by
    intro before
    obtain ⟨earlier, earlierSent, earlierId, earlierBase⟩ :=
      once.identified.logged first left leftLogged (once.identified.own _ leftMinted)
    obtain ⟨later, laterSent, laterId, laterBase⟩ :=
      once.identified.logged second right rightLogged (once.identified.own _ rightMinted)
    obtain ⟨occupant, taken, other⟩ := once.ordered.dead earlier earlierSent later laterSent
      intention (earlierId ▸ leftMinted) (laterId ▸ rightMinted)
      (by rw [earlierBase, laterBase]; exact before)
    rw [earlierBase, leftLogged] at taken
    cases taken
    exact other earlierId.symm
  rcases Nat.lt_trichotomy first second with before | equal | after
  · exact absurd before (apart leftLogged rightLogged leftMinted rightMinted)
  · exact equal
  · exact absurd after (apart rightLogged leftLogged rightMinted leftMinted)

/-! ### Preservation -/

/-- A submission is told of by the pairs minted before. -/
theorem minted_of_sent (identified : Identified protocol state) {claimed : Id}
    (fresh : Fresh state.minted id) (sent : attempt ∈ state.sent)
    (minted : (attempt.id, claimed) ∈ (id, intention) :: state.minted) :
    (attempt.id, claimed) ∈ state.minted := by
  rcases mem_cons.mp minted with equal | known
  · obtain ⟨origin, before⟩ := identified.sent attempt sent
    exact absurd (Prod.mk.inj equal).1 (fresh _ before).1
  · exact known

theorem Tracks.sublist {fewer : List (Intention Id Tag Patch)} (tracks : Tracks state entries)
    (sublist : fewer.Sublist entries) : Tracks state fewer := by
  constructor
  · exact fun entry member => tracks.minted entry (sublist.subset member)
  · exact fun entry member => tracks.attempted entry (sublist.subset member)
  · exact tracks.distinct.sublist (sublist.map _)
  · exact fun entry member => tracks.passed entry (sublist.subset member)
  · exact fun entry member => tracks.remembered entry (sublist.subset member)

theorem Identified.mint (identified : Identified protocol state) (own : protocol.own id)
    (fresh : Fresh state.minted id) (doc : Doc) (pending : List (Intention Id Tag Patch)) :
    Identified protocol
      { state with optimistic := doc, pending, minted := (id, intention) :: state.minted } := by
  constructor
  · intro pair member
    rcases mem_cons.mp member with rfl | before
    · exact own
    · exact identified.own pair before
  · intro other first second left right
    rcases mem_cons.mp left with leftNew | leftOld
    · rcases mem_cons.mp right with rightNew | rightOld
      · exact (Prod.mk.inj leftNew).2.trans (Prod.mk.inj rightNew).2.symm
      · exact absurd (Prod.mk.inj leftNew).1 (fresh _ rightOld).1
    · rcases mem_cons.mp right with rightNew | rightOld
      · exact absurd (Prod.mk.inj rightNew).1 (fresh _ leftOld).1
      · exact identified.functional other first second leftOld rightOld
  · intro attempt sent
    obtain ⟨origin, before⟩ := identified.sent attempt sent
    exact ⟨origin, mem_cons_of_mem _ before⟩
  · exact identified.logged
  · exact identified.distinct

theorem Ordered.mint (ordered : Ordered state) (identified : Identified protocol state)
    (fresh : Fresh state.minted id) (doc : Doc) (pending : List (Intention Id Tag Patch)) :
    Ordered { state with optimistic := doc, pending, minted := (id, intention) :: state.minted } := by
  constructor
  · exact ordered.reached
  · intro earlier earlierSent later laterSent claimed left right
    exact ordered.dead earlier earlierSent later laterSent claimed
      (minted_of_sent identified fresh earlierSent left)
      (minted_of_sent identified fresh laterSent right)

theorem Tracks.survive {entry : Intention Id Tag Patch} {before after : List (Intention Id Tag Patch)}
    {attempts : List (Attempt Id Tag Patch)} {id : Id} {patch : Patch} {doc : Doc}
    (tracks : Tracks state (before ++ entry :: after)) (identified : Identified protocol state)
    (fresh : Fresh state.minted id) (remembered : ∀ attempt,
      attempt ∈ attempts ↔ attempt ∈ entry.attempts ∧ state.revision ≤ attempt.base)
    (pending : List (Intention Id Tag Patch)) : Tracks { state with
        optimistic := doc, pending, minted := (id, entry.intention) :: state.minted }
      (before ++ [⟨id, entry.intention, entry.tag, patch, attempts⟩] ++ after) := by
  have here : entry ∈ before ++ entry :: after := by simp
  -- Every tracked intention is the new one or was tracked before.
  have cases {property : Intention Id Tag Patch → Prop}
      (survivor : property ⟨id, entry.intention, entry.tag, patch, attempts⟩)
      (others : ∀ other ∈ before ++ entry :: after, property other) :
      ∀ other ∈ before ++ [⟨id, entry.intention, entry.tag, patch, attempts⟩] ++ after, property other := by
    intro other member
    rcases mem_append.mp member with early | late
    · rcases mem_append.mp early with kept | single
      · exact others other (by simp [kept])
      · exact mem_singleton.mp single ▸ survivor
    · exact others other (by simp [late])
  constructor
  · apply cases
    · exact mem_cons_self
    · exact fun other member => mem_cons_of_mem _ (tracks.minted other member)
  · apply cases
    · intro attempt member
      exact mem_cons_of_mem _
        (tracks.attempted entry here attempt ((remembered attempt).mp member).1)
    · exact fun other member attempt inside =>
        mem_cons_of_mem _ (tracks.attempted other member attempt inside)
  · have distinct := tracks.distinct
    simpa using distinct
  · apply cases
    · intro attempt sent minted
      exact tracks.passed entry here attempt sent (minted_of_sent identified fresh sent minted)
    · intro other member attempt sent minted
      exact tracks.passed other member attempt sent (minted_of_sent identified fresh sent minted)
  · apply cases
    · intro attempt sent minted above
      rcases tracks.remembered entry here attempt sent
        (minted_of_sent identified fresh sent minted) above with ⟨known, inside, same, slot⟩ | dead
      · exact .inl ⟨known, (remembered known).mpr ⟨inside, slot ▸ above⟩, same, slot⟩
      · exact .inr dead
    · intro other member attempt sent minted
      exact tracks.remembered other member attempt sent
        (minted_of_sent identified fresh sent minted)

/-- A rebuild keeps what is known of the intentions it re-executes, and leaves none
submitted under its current id. -/
theorem Rebuilds.once (rebuilt : Rebuilds protocol state entries final)
    (identified : Identified protocol state) (ordered : Ordered state)
    (tracks : Tracks state (state.pending ++ entries))
    (unsubmitted : ∀ entry ∈ state.pending, Unsubmitted entry) : Once protocol final := by
  induction rebuilt with
  | done =>
    rw [append_nil] at tracks
    refine ⟨identified, ordered, tracks, ?_⟩
    constructor
    · intro head rest pending attempt member same
      exact absurd same (unsubmitted head (by simp [pending]) attempt member)
    · exact fun entry member => unsubmitted entry (mem_of_mem_tail member)
  | drop later ih =>
    apply ih identified ordered
    · exact tracks.sublist (List.Sublist.append_left (sublist_cons_self _ _) _)
    · exact unsubmitted
  | @survive state final entry rest attempts id patch doc own fresh applied good remembered later
      ih =>
      apply ih
      · exact identified.mint own fresh _ _
      · exact ordered.mint identified fresh _ _
      · exact tracks.survive identified fresh remembered _
      · intro other member
        rcases mem_append.mp member with kept | single
        · exact unsubmitted other kept
        · obtain rfl := mem_singleton.mp single
          intro attempt inside same
          have before := tracks.attempted entry (by simp) attempt ((remembered attempt).mp inside).1
          exact (fresh _ before).1 same

/-- Whatever is known of the log stays known when it grows. -/
theorem Once.append (once : Once protocol state) (unseen : ∀ other ∈ state.log, other.id ≠ entry.id)
    (submitted : protocol.own entry.id →
      ∃ attempt ∈ state.sent, attempt.id = entry.id ∧ attempt.base = state.log.length) :
    Once protocol { state with log := state.log ++ [entry] } := by
  obtain ⟨identified, ordered, tracks, heads⟩ := once
  constructor
  · constructor
    · exact identified.own
    · exact identified.functional
    · exact identified.sent
    · intro slot logged found own
      rcases Nat.lt_or_ge slot state.log.length with inside | outside
      · rw [getElem?_append_left inside] at found
        exact identified.logged slot logged found own
      · rw [getElem?_append_right outside] at found
        obtain ⟨last, equal⟩ := List.getElem?_eq_some_iff.mp found
        have here : slot = state.log.length := by
          simp only [length_singleton] at last
          omega
        obtain rfl : entry = logged := by simpa [here] using equal
        rw [here]
        exact submitted own
    · simp only [map_append, map_cons, map_nil]
      refine nodup_append.mpr ⟨identified.distinct, by simp, ?_⟩
      intro id known other single equal
      obtain ⟨logged, member, rfl⟩ := List.mem_map.mp known
      exact unseen logged member (equal.trans (mem_singleton.mp single))
  · constructor
    · exact ordered.reached
    · intro earlier earlierSent later laterSent intention left right before
      exact (ordered.dead earlier earlierSent later laterSent intention left right before).append _
  · constructor
    · exact tracks.minted
    · exact tracks.attempted
    · exact tracks.distinct
    · intro other member attempt sent minted below
      exact (tracks.passed other member attempt sent minted below).append _
    · intro other member attempt sent minted above
      exact (tracks.remembered other member attempt sent minted above).imp_right fun dead =>
        dead.append _
  · exact ⟨heads.head, heads.tail⟩

theorem Tracks.observe (tracks : Tracks state entries)
    (seen : state.log[state.revision]? = some entry)
    (unnamed : ∀ survivor ∈ entries, ∀ attempt ∈ state.sent,
      (attempt.id, survivor.intention) ∈ state.minted → attempt.base = state.revision →
        entry.id = attempt.id → Dead state.log attempt) (doc optimistic : Doc)
    (pending : List (Intention Id Tag Patch)) : Tracks
      { state with confirmed := doc, revision := state.revision + 1, optimistic, pending }
      entries := by
  constructor
  · exact tracks.minted
  · exact tracks.attempted
  · exact tracks.distinct
  · intro survivor member attempt sent minted below
    rcases Nat.lt_succ_iff_lt_or_eq.mp below with earlier | here
    · exact tracks.passed survivor member attempt sent minted earlier
    · by_cases named : entry.id = attempt.id
      · exact unnamed survivor member attempt sent minted here named
      · exact ⟨entry, by rw [here, seen], named⟩
  · intro survivor member attempt sent minted above
    exact tracks.remembered survivor member attempt sent minted (Nat.le_of_succ_le above)

theorem Once.announce (once : Once protocol state) (raised : state.target ≤ target) :
    Once protocol { state with target } := by
  refine ⟨⟨once.identified.own, once.identified.functional, once.identified.sent,
    once.identified.logged, once.identified.distinct⟩, ?_, ⟨once.tracks.minted,
    once.tracks.attempted, once.tracks.distinct, once.tracks.passed, once.tracks.remembered⟩,
    ⟨once.submitted.head, once.submitted.tail⟩⟩
  constructor
  · intro attempt sent
    have reached := once.ordered.reached attempt sent
    simp only
    omega
  · exact once.ordered.dead

theorem Once.enqueue (once : Once protocol state) {tag : Tag} {patch : Patch}
    (own : protocol.own id) (fresh : Fresh state.minted id) : Once protocol { state with
        optimistic := doc
        pending := state.pending ++ [⟨id, id, tag, patch, []⟩]
        minted := (id, id) :: state.minted } := by
  obtain ⟨identified, ordered, tracks, heads⟩ := once
  have unclaimed {attempt : Attempt Id Tag Patch} (sent : attempt ∈ state.sent) :
      (attempt.id, id) ∉ (id, id) :: state.minted := by
    intro minted
    exact (fresh _ (minted_of_sent identified fresh sent minted)).2 rfl
  have cases {property : Intention Id Tag Patch → Prop} (queued : property ⟨id, id, tag, patch, []⟩)
      (others : ∀ other ∈ state.pending, property other) :
      ∀ other ∈ state.pending ++ [⟨id, id, tag, patch, []⟩], property other := by
    intro other member
    rcases mem_append.mp member with before | single
    · exact others other before
    · exact mem_singleton.mp single ▸ queued
  refine ⟨identified.mint own fresh _ _, ordered.mint identified fresh _ _, ?_, ?_⟩
  · constructor
    · apply cases
      · exact mem_cons_self
      · exact fun other member => mem_cons_of_mem _ (tracks.minted other member)
    · apply cases
      · simp
      · exact fun other member attempt inside =>
          mem_cons_of_mem _ (tracks.attempted other member attempt inside)
    · simp only [map_append, map_cons, map_nil]
      refine nodup_append.mpr ⟨tracks.distinct, by simp, ?_⟩
      intro intention known other single equal
      obtain ⟨entry, member, rfl⟩ := mem_map.mp known
      exact (fresh _ (tracks.minted entry member)).2 (equal.trans (mem_singleton.mp single))
    · apply cases
      · exact fun attempt sent minted => absurd minted (unclaimed sent)
      · intro other member attempt sent minted
        exact tracks.passed other member attempt sent (minted_of_sent identified fresh sent minted)
    · apply cases
      · exact fun attempt sent minted => absurd minted (unclaimed sent)
      · intro other member attempt sent minted
        exact tracks.remembered other member attempt sent
          (minted_of_sent identified fresh sent minted)
  · cases pending : state.pending with
    | nil =>
      constructor
      · intro head rest equal attempt member same
        obtain ⟨rfl, _⟩ := List.cons.inj equal
        simp at member
      · simp
    | cons first others =>
      constructor
      · intro head rest equal
        obtain ⟨rfl, _⟩ := List.cons.inj equal
        exact heads.head first others pending
      · intro other member
        rcases mem_append.mp member with before | single
        · exact heads.tail other (by rw [pending]; exact before)
        · obtain rfl := mem_singleton.mp single
          intro attempt inside
          simp at inside

theorem Once.submit (once : Once protocol state) {head : Intention Id Tag Patch}
    {rest : List (Intention Id Tag Patch)} {attempts : List (Attempt Id Tag Patch)}
    (pending : state.pending = head :: rest) (rested : state.target ≤ state.revision)
    (remembered : attempts = head.attempts ++ [⟨head.id, head.tag, state.revision, head.patch⟩] ∨
      attempts = head.attempts ∧ ∃ attempt ∈ head.attempts, attempt.id = head.id) : Once protocol
      { state with
        pending := { head with attempts } :: rest
        sent := state.sent ++ [⟨head.id, head.tag, state.revision, head.patch⟩] } := by
  obtain ⟨identified, ordered, tracks, heads⟩ := once
  have headPending : head ∈ state.pending := by simp [pending]
  have headMinted := tracks.minted head headPending
  have headIntention {entry : Intention Id Tag Patch} (member : entry ∈ state.pending)
      (minted : (head.id, entry.intention) ∈ state.minted) :
      entry.intention = head.intention :=
    identified.functional head.id entry.intention head.intention minted headMinted
  have grown : ∀ attempt ∈ attempts, attempt ∈ head.attempts ∨
      attempt = ⟨head.id, head.tag, state.revision, head.patch⟩ := by
    intro attempt member
    rcases remembered with rfl | ⟨rfl, _⟩
    · exact (mem_append.mp member).imp_right mem_singleton.mp
    · exact .inl member
  have kept : ∀ attempt ∈ head.attempts, attempt ∈ attempts := by
    intro attempt member
    rcases remembered with rfl | ⟨rfl, _⟩
    · exact mem_append_left _ member
    · exact member
  -- The new attempt is remembered, whether it was appended or already known.
  have known : ∃ attempt ∈ attempts, attempt.id = head.id ∧ attempt.base = state.revision := by
    rcases remembered with rfl | ⟨rfl, attempt, member, same⟩
    · exact ⟨_, mem_append_right _ (mem_singleton.mpr rfl), rfl, rfl⟩
    · exact ⟨attempt, member, same, heads.head head rest pending attempt member same⟩
  have below (attempt : Attempt Id Tag Patch) (sent : attempt ∈ state.sent) :
      attempt.base ≤ state.revision := by
    have reached := ordered.reached attempt sent
    omega
  have cases {property : Intention Id Tag Patch → Prop} (submitted : property { head with attempts })
      (others : ∀ other ∈ state.pending, other.intention ≠ head.intention → property other) :
      ∀ other ∈ { head with attempts } :: rest, property other := by
    intro other member
    rcases mem_cons.mp member with rfl | later
    · exact submitted
    · apply others other (by simp [pending, later])
      have distinct := tracks.distinct
      rw [pending, map_cons, nodup_cons] at distinct
      intro equal
      exact distinct.1 (mem_map.mpr ⟨other, later, equal⟩)
  constructor
  · constructor
    · exact identified.own
    · exact identified.functional
    · intro attempt sent
      rcases mem_append.mp sent with before | single
      · exact identified.sent attempt before
      · obtain rfl := mem_singleton.mp single
        exact ⟨head.intention, headMinted⟩
    · intro slot entry found own
      obtain ⟨attempt, sent, same⟩ := identified.logged slot entry found own
      exact ⟨attempt, mem_append_left _ sent, same⟩
    · exact identified.distinct
  · constructor
    · intro attempt sent
      rcases mem_append.mp sent with before | single
      · exact ordered.reached attempt before
      · obtain rfl := mem_singleton.mp single
        exact Nat.le_max_left _ _
    · intro earlier earlierSent later laterSent intention left right before
      rcases mem_append.mp earlierSent with earlierOld | earlierNew
      · rcases mem_append.mp laterSent with laterOld | laterNew
        · exact ordered.dead earlier earlierOld later laterOld intention left right before
        · obtain rfl := mem_singleton.mp laterNew
          have same := identified.functional head.id intention head.intention right headMinted
          exact tracks.passed head headPending earlier earlierOld (same ▸ left) before
      · obtain rfl := mem_singleton.mp earlierNew
        rcases mem_append.mp laterSent with laterOld | laterNew
        · exact absurd before (Nat.not_lt.mpr (below later laterOld))
        · obtain rfl := mem_singleton.mp laterNew
          exact absurd before (Nat.lt_irrefl _)
  · constructor
    · apply cases
      · exact headMinted
      · exact fun other member _ => tracks.minted other member
    · apply cases
      · intro attempt member
        rcases grown attempt member with before | rfl
        · exact tracks.attempted head headPending attempt before
        · exact headMinted
      · exact fun other member _ => tracks.attempted other member
    · have distinct := tracks.distinct
      rw [pending] at distinct
      exact distinct
    · apply cases
      · intro attempt sent minted passed
        rcases mem_append.mp sent with before | single
        · exact tracks.passed head headPending attempt before minted passed
        · obtain rfl := mem_singleton.mp single
          exact absurd passed (Nat.lt_irrefl _)
      · intro other member different attempt sent minted passed
        rcases mem_append.mp sent with before | single
        · exact tracks.passed other member attempt before minted passed
        · obtain rfl := mem_singleton.mp single
          exact absurd (headIntention member minted) different
    · apply cases
      · intro attempt sent minted above
        rcases mem_append.mp sent with before | single
        · refine (tracks.remembered head headPending attempt before minted above).imp_left ?_
          intro found
          obtain ⟨remembered, member, same⟩ := found
          exact ⟨remembered, kept remembered member, same⟩
        · obtain rfl := mem_singleton.mp single
          exact .inl known
      · intro other member different attempt sent minted above
        rcases mem_append.mp sent with before | single
        · exact tracks.remembered other member attempt before minted above
        · obtain rfl := mem_singleton.mp single
          exact absurd (headIntention member minted) different
  · constructor
    · intro first others equal attempt member same
      cases equal
      rcases grown attempt member with before | rfl
      · exact heads.head head rest pending attempt before same
      · rfl
    · intro other member
      exact heads.tail other (by rw [pending]; exact member)

theorem Identified.detach (identified : Identified protocol state) (doc : Doc)
    (revision target : Nat) : Identified protocol (state.detach doc revision target) :=
  ⟨identified.own, identified.functional, identified.sent, identified.logged,
    identified.distinct⟩

theorem Ordered.detach (ordered : Ordered state) (doc : Doc)
    (raised : max state.revision state.target ≤ max revision target) :
    Ordered (state.detach doc revision target) :=
  ⟨fun attempt sent => Nat.le_trans (ordered.reached attempt sent) raised, ordered.dead⟩

section

variable (once : Once protocol state)

include once

theorem Once.acknowledge {head : Intention Id Tag Patch} {rest : List (Intention Id Tag Patch)}
    (pending : state.pending = head :: rest) (seen : state.log[state.revision]? = some entry)
    (same : entry.id = head.id) : Once protocol
      { state with confirmed := doc, revision := state.revision + 1, pending := rest } := by
  obtain ⟨identified, ordered, tracks, heads⟩ := once
  have distinct := tracks.distinct
  rw [pending, map_cons, nodup_cons] at distinct
  have later : rest.Sublist state.pending := pending ▸ sublist_cons_self head rest
  constructor
  · exact ⟨identified.own, identified.functional, identified.sent, identified.logged,
      identified.distinct⟩
  · constructor
    · intro attempt sent
      have reached := ordered.reached attempt sent
      simp only
      omega
    · exact ordered.dead
  · apply (tracks.sublist later).observe seen
    intro survivor member attempt sent minted _ named
    -- The seen entry is the head's, and no other intention shares the head's ids.
    have headMinted := tracks.minted head (by simp [pending])
    rw [← same, named] at headMinted
    have equal := identified.functional attempt.id _ _ minted headMinted
    exact absurd (mem_map.mpr ⟨survivor, member, equal⟩) distinct.1
  · constructor
    · intro first others equal attempt member claimed
      have following : rest = first :: others := equal
      have unsubmitted := heads.tail first (by simp [pending, following])
      exact absurd claimed (unsubmitted attempt member)
    · intro other member
      exact heads.tail other (by rw [pending]; exact mem_of_mem_tail member)

theorem Once.absorb (seen : state.log[state.revision]? = some entry)
    (sublist : kept.Sublist state.pending)
    (retired : ∀ survivor ∈ kept, ∀ attempt ∈ survivor.attempts, attempt.id ≠ entry.id)
    (rebuilt : Rebuilds protocol (state.detach doc (state.revision + 1) state.target) kept final) :
    Once protocol final := by
  obtain ⟨identified, ordered, tracks, _⟩ := once
  apply rebuilt.once (identified.detach _ _ _) (ordered.detach doc (by omega))
  · apply (tracks.sublist sublist).observe seen
    intro survivor member attempt sent minted here named
    rcases tracks.remembered survivor (sublist.subset member) attempt sent minted
      (Nat.le_of_eq here.symm) with ⟨known, inside, same, _⟩ | dead
    · exact absurd (same.trans named.symm) (retired survivor member known inside)
    · exact dead
  · exact fun other member => absurd member not_mem_nil

theorem Once.resync (raised : state.target ≤ target ∧ state.revision ≤ target)
    (sublist : kept.Sublist state.pending)
    (certain : ∀ survivor ∈ kept, ∀ attempt ∈ survivor.attempts, revision ≤ attempt.base)
    (rebuilt : Rebuilds protocol (state.detach doc revision target) kept final) :
    Once protocol final := by
  obtain ⟨identified, ordered, tracks, _⟩ := once
  have fewer := tracks.sublist sublist
  apply rebuilt.once (identified.detach _ _ _) (ordered.detach doc (by omega))
  · constructor
    · exact fewer.minted
    · exact fewer.attempted
    · exact fewer.distinct
    · intro survivor member attempt sent minted below
      rcases Nat.lt_or_ge attempt.base state.revision with passed | above
      · exact fewer.passed survivor member attempt sent minted passed
      · rcases fewer.remembered survivor member attempt sent minted above with
          ⟨known, inside, _, slot⟩ | dead
        · exact absurd (slot ▸ certain survivor member known inside) (Nat.not_le.mpr below)
        · exact dead
    · intro survivor member attempt sent minted _
      rcases Nat.lt_or_ge attempt.base state.revision with passed | above
      · exact .inr (fewer.passed survivor member attempt sent minted passed)
      · exact fewer.remembered survivor member attempt sent minted above
  · exact fun other member => absurd member not_mem_nil

theorem Once.collapse (doc : Doc) (raised : max state.revision state.target ≤ max revision target) :
    Once protocol { state with confirmed := doc, revision, pending := [], target } := by
  obtain ⟨identified, ordered, _, _⟩ := once
  refine ⟨⟨identified.own, identified.functional, identified.sent, identified.logged,
    identified.distinct⟩, ?_, ?_, ?_⟩
  · exact ⟨fun attempt sent => Nat.le_trans (ordered.reached attempt sent) raised, ordered.dead⟩
  all_goals constructor <;> simp

/-- Every step keeps what at-most-once commits rest on. -/
theorem Once.step (stepped : Step protocol sound state next) : Once protocol next := by
  cases stepped with
  | foreign entry theirs unseen => exact once.append unseen fun own => absurd own theirs
  | accept attempt sent exact unseen =>
    exact once.append unseen fun _ => ⟨attempt, sent, rfl, exact⟩
  | announce target raised => exact once.announce raised
  | enqueue id tag patch doc own fresh applied good => exact once.enqueue own fresh
  | submit head rest attempts pending rested remembered =>
    exact once.submit pending rested remembered
  | acknowledge head rest entry doc pending seen same adopted applied =>
    exact once.acknowledge pending seen same
  | absorb entry doc kept final seen applied sublist retired rebuilt =>
    exact once.absorb seen sublist retired rebuilt
  | resync revision target doc kept final faithful raised sublist certain rebuilt =>
    exact once.resync raised sublist certain rebuilt
  | collapse revision target doc lapsed raised => exact once.collapse doc raised

end

/-! ## The replica agrees with the log -/

def patches (entries : List (Intention Id Tag Patch)) : List Patch :=
  entries.map Intention.patch

/-- The confirmed document is the fold of the log, the optimistic one is that with
the pending patches, and the log holds what was submitted. -/
structure Agrees (protocol : Protocol Id Tag Doc Patch) (state : State Id Tag Doc Patch) : Prop where
  within : state.revision ≤ state.log.length
  confirmed : protocol.documentAt state.log state.revision = some state.confirmed
  optimistic : protocol.applyAll state.confirmed (patches state.pending) = some state.optimistic
  stated : ∀ entry ∈ state.pending, ∀ attempt ∈ state.sent, attempt.id = entry.id →
    attempt.patch = entry.patch ∧ attempt.tag = entry.tag
  logged : ∀ entry ∈ state.log, protocol.own entry.id →
    ∃ attempt ∈ state.sent, attempt.id = entry.id ∧ attempt.patch = entry.patch
  single : ∀ first ∈ state.sent, ∀ second ∈ state.sent, first.id = second.id →
    first.patch = second.patch ∧ first.tag = second.tag

theorem Rebuilds.agrees (rebuilt : Rebuilds protocol state entries final)
    (identified : Identified protocol state) (agrees : Agrees protocol state) :
    Agrees protocol final := by
  induction rebuilt with
  | done => exact agrees
  | drop later ih => exact ih identified agrees
  | @survive state final entry rest attempts id patch doc own fresh applied good remembered later
      ih =>
      apply ih
      · exact identified.mint own fresh _ _
      · constructor
        · exact agrees.within
        · exact agrees.confirmed
        · rw [patches, map_append, protocol.applyAll_append, ← patches, agrees.optimistic]
          simp [Protocol.applyAll, applied]
        · intro other member attempt sent same
          rcases mem_append.mp member with before | single
          · exact agrees.stated other before attempt sent same
          · obtain rfl := mem_singleton.mp single
            obtain ⟨origin, minted⟩ := identified.sent attempt sent
            exact absurd same (fresh _ minted).1
        · exact agrees.logged
        · exact agrees.single

theorem Agrees.detach (agrees : Agrees protocol state) (target : Nat)
    (within : revision ≤ state.log.length)
    (reached : protocol.documentAt state.log revision = some doc) :
    Agrees protocol (state.detach doc revision target) := by
  constructor
  · exact within
  · exact reached
  · rfl
  · exact fun entry member => absurd member not_mem_nil
  · exact agrees.logged
  · exact agrees.single

theorem Agrees.append (agrees : Agrees protocol state) (submitted : protocol.own entry.id →
      ∃ attempt ∈ state.sent, attempt.id = entry.id ∧ attempt.patch = entry.patch) :
    Agrees protocol { state with log := state.log ++ [entry] } := by
  constructor
  · have within := agrees.within
    simp only [length_append]
    omega
  · rw [protocol.documentAt_append agrees.within]
    exact agrees.confirmed
  · exact agrees.optimistic
  · exact agrees.stated
  · intro other member own
    rcases mem_append.mp member with before | single
    · exact agrees.logged other before own
    · obtain rfl := mem_singleton.mp single
      exact submitted own
  · exact agrees.single

/-- Every sound step keeps the replica in agreement with the log. -/
theorem Agrees.step (agrees : Agrees protocol state) (once : Once protocol state)
    (stepped : Step protocol True state next) : Agrees protocol next := by
  cases stepped with
  | foreign entry theirs unseen => exact agrees.append fun own => absurd own theirs
  | accept attempt sent exact unseen => exact agrees.append fun _ => ⟨attempt, sent, rfl, rfl⟩
  | announce target raised =>
    exact ⟨agrees.within, agrees.confirmed, agrees.optimistic, agrees.stated, agrees.logged,
      agrees.single⟩
  | enqueue id tag patch doc own fresh applied good =>
    constructor
    · exact agrees.within
    · exact agrees.confirmed
    · rw [patches, map_append, protocol.applyAll_append, ← patches, agrees.optimistic]
      simp [Protocol.applyAll, applied]
    · intro other member attempt sent same
      rcases mem_append.mp member with before | single
      · exact agrees.stated other before attempt sent same
      · obtain rfl := mem_singleton.mp single
        obtain ⟨origin, minted⟩ := once.identified.sent attempt sent
        exact absurd same (fresh _ minted).1
    · exact agrees.logged
    · exact agrees.single
  | submit head rest attempts pending rested remembered =>
    have headPending : head ∈ state.pending := by simp [pending]
    constructor
    · exact agrees.within
    · exact agrees.confirmed
    · have optimistic := agrees.optimistic
      rw [pending] at optimistic
      exact optimistic
    · intro other member attempt sent same
      have stated : ∃ before ∈ state.pending, before.id = other.id ∧
          before.patch = other.patch ∧ before.tag = other.tag := by
        rcases mem_cons.mp member with rfl | later
        · exact ⟨head, headPending, rfl, rfl, rfl⟩
        · exact ⟨other, by simp [pending, later], rfl, rfl, rfl⟩
      obtain ⟨before, inside, sameId, samePatch, sameTag⟩ := stated
      rw [← samePatch, ← sameTag]
      rcases mem_append.mp sent with known | single
      · exact agrees.stated before inside attempt known (same.trans sameId.symm)
      · obtain rfl := mem_singleton.mp single
        -- Two pending intentions with one id are the same intention.
        have headMinted := once.tracks.minted head headPending
        have otherMinted := once.tracks.minted before inside
        rw [sameId, ← same] at otherMinted
        have equal := once.identified.functional head.id _ _ headMinted otherMinted
        obtain rfl := inj_on_of_nodup_map once.tracks.distinct headPending inside equal
        exact ⟨rfl, rfl⟩
    · intro entry member own
      obtain ⟨attempt, sent, same⟩ := agrees.logged entry member own
      exact ⟨attempt, mem_append_left _ sent, same⟩
    · intro first firstSent second secondSent same
      rcases mem_append.mp firstSent with firstOld | firstNew
      · rcases mem_append.mp secondSent with secondOld | secondNew
        · exact agrees.single first firstOld second secondOld same
        · obtain rfl := mem_singleton.mp secondNew
          exact agrees.stated head headPending first firstOld same
      · obtain rfl := mem_singleton.mp firstNew
        rcases mem_append.mp secondSent with secondOld | secondNew
        · have stated := agrees.stated head headPending second secondOld same.symm
          exact ⟨stated.1.symm, stated.2.symm⟩
        · obtain rfl := mem_singleton.mp secondNew
          exact ⟨rfl, rfl⟩
  | acknowledge head rest entry doc pending seen same adopted applied =>
    have headPending : head ∈ state.pending := by simp [pending]
    obtain ⟨inside, _⟩ := List.getElem?_eq_some_iff.mp seen
    -- The entry carries the patch that the head was submitted with.
    have patch : entry.patch = head.patch := by
      have logged := mem_of_getElem? seen
      have own : protocol.own entry.id :=
        same ▸ once.identified.own _ (once.tracks.minted head headPending)
      obtain ⟨attempt, sent, sameId, samePatch⟩ := agrees.logged entry logged own
      rw [← samePatch]
      exact (agrees.stated head headPending attempt sent (sameId.trans same)).1
    have optimistic := agrees.optimistic
    rw [pending, patches, map_cons, Protocol.applyAll, ← patch] at optimistic
    have forward : protocol.apply state.confirmed entry.patch = some doc := by
      cases rest with
      | nil =>
        rw [adopted rfl]
        simpa [Protocol.applyAll] using optimistic
      | cons second others => exact applied (by simp)
    constructor
    · exact inside
    · exact protocol.documentAt_succ agrees.confirmed seen forward
    · rw [forward] at optimistic
      exact optimistic
    · exact fun other member => agrees.stated other (by simp [pending, member])
    · exact agrees.logged
    · exact agrees.single
  | absorb entry doc kept final seen applied sublist retired rebuilt =>
    obtain ⟨inside, _⟩ := List.getElem?_eq_some_iff.mp seen
    exact rebuilt.agrees (once.identified.detach _ _ _)
      (agrees.detach _ inside (protocol.documentAt_succ agrees.confirmed seen applied))
  | resync revision target doc kept final faithful raised sublist certain rebuilt =>
    obtain ⟨within, reached⟩ := faithful trivial
    exact rebuilt.agrees (once.identified.detach _ _ _) (agrees.detach _ within reached)
  | collapse revision target doc lapsed raised => exact absurd trivial lapsed

/-! ## What is committed is good -/

def GoodFrom (protocol : Protocol Id Tag Doc Patch) : Doc → List (Intention Id Tag Patch) → Prop
  | _, [] => True
  | doc, entry :: rest =>
    protocol.good doc entry.tag entry.patch ∧
      ∀ next, protocol.apply doc entry.patch = some next → GoodFrom protocol next rest

theorem goodFrom_append {reached : Doc} {entry : Intention Id Tag Patch}
    (goodFrom : GoodFrom protocol doc entries)
    (applied : protocol.applyAll doc (patches entries) = some reached)
    (good : protocol.good reached entry.tag entry.patch) :
    GoodFrom protocol doc (entries ++ [entry]) := by
  induction entries generalizing doc with
  | nil =>
    cases applied
    exact ⟨good, fun _ _ => trivial⟩
  | cons first rest ih =>
    obtain ⟨here, later⟩ := goodFrom
    refine ⟨here, ?_⟩
    intro next moved
    rw [patches, map_cons, Protocol.applyAll, moved] at applied
    exact ih (later next moved) applied

/-- Pending patches are good where they stand, and submitted ones where they were
submitted. -/
structure Good (protocol : Protocol Id Tag Doc Patch) (state : State Id Tag Doc Patch) : Prop where
  pending : GoodFrom protocol state.confirmed state.pending
  sent : ∀ attempt ∈ state.sent, attempt.base ≤ state.log.length ∧
    ∃ doc, protocol.documentAt state.log attempt.base = some doc ∧
      protocol.good doc attempt.tag attempt.patch

theorem Rebuilds.good (rebuilt : Rebuilds protocol state entries final)
    (identified : Identified protocol state) (agrees : Agrees protocol state)
    (good : Good protocol state) : Good protocol final := by
  induction rebuilt with
  | done => exact good
  | drop later ih => exact ih identified agrees good
  | @survive state final entry rest attempts id patch doc own fresh applied here remembered later
      ih =>
      have single : Rebuilds protocol state [entry] _ :=
        .survive id patch doc own fresh applied here remembered .done
      apply ih (identified.mint own fresh _ _) (single.agrees identified agrees)
      constructor
      · exact goodFrom_append good.pending agrees.optimistic here
      · exact good.sent

/-- Every sound step keeps patches good. -/
theorem Good.step (good : Good protocol state) (once : Once protocol state)
    (agrees : Agrees protocol state) (stepped : Step protocol True state next) :
    Good protocol next := by
  have grown {entry : Logged Id Patch} :
      Good protocol { state with log := state.log ++ [entry] } := by
    constructor
    · exact good.pending
    · intro attempt sent
      obtain ⟨below, doc, reached, here⟩ := good.sent attempt sent
      refine ⟨?_, doc, ?_, here⟩
      · simp only [length_append]
        omega
      · rw [protocol.documentAt_append below]
        exact reached
  have detached (doc : Doc) (revision target : Nat) :
      Good protocol (state.detach doc revision target) := ⟨trivial, good.sent⟩
  cases stepped with
  | foreign entry theirs unseen | accept attempt sent exact unseen => exact grown
  | announce target raised => exact ⟨good.pending, good.sent⟩
  | enqueue id tag patch doc own fresh applied here =>
    exact ⟨goodFrom_append good.pending agrees.optimistic here, good.sent⟩
  | submit head rest attempts pending rested remembered =>
    have goodFrom := good.pending
    rw [pending] at goodFrom
    constructor
    · exact goodFrom
    · intro attempt sent
      rcases mem_append.mp sent with before | single
      · exact good.sent attempt before
      · obtain rfl := mem_singleton.mp single
        exact ⟨agrees.within, state.confirmed, agrees.confirmed, goodFrom.1⟩
  | acknowledge head rest entry doc pending seen same adopted applied =>
    have goodFrom := good.pending
    rw [pending] at goodFrom
    have agreesNext := agrees.step once
      (.acknowledge head rest entry doc pending seen same adopted applied)
    constructor
    · have headPending : head ∈ state.pending := by simp [pending]
      have own : protocol.own entry.id :=
        same ▸ once.identified.own _ (once.tracks.minted head headPending)
      obtain ⟨attempt, sent, sameId, samePatch⟩ := agrees.logged entry (mem_of_getElem? seen) own
      have patch : entry.patch = head.patch := by
        rw [← samePatch]
        exact (agrees.stated head headPending attempt sent (sameId.trans same)).1
      have forward : protocol.apply state.confirmed head.patch = some doc := by
        cases rest with
        | nil =>
          have optimistic := agrees.optimistic
          rw [pending] at optimistic
          rw [adopted rfl]
          simpa [patches, Protocol.applyAll] using optimistic
        | cons second others => exact patch ▸ applied (by simp)
      exact goodFrom.2 doc forward
    · exact good.sent
  | absorb entry doc kept final seen applied sublist retired rebuilt =>
    obtain ⟨inside, _⟩ := List.getElem?_eq_some_iff.mp seen
    exact rebuilt.good (once.identified.detach _ _ _)
      (agrees.detach _ inside (protocol.documentAt_succ agrees.confirmed seen applied))
      (detached _ _ _)
  | resync revision target doc kept final faithful raised sublist certain rebuilt =>
    obtain ⟨within, reached⟩ := faithful trivial
    exact rebuilt.good (once.identified.detach _ _ _) (agrees.detach _ within reached)
      (detached _ _ _)
  | collapse revision target doc lapsed raised => exact absurd trivial lapsed

theorem Good.logged (good : Good protocol state) (once : Once protocol state)
    (agrees : Agrees protocol state) {slot : Nat} (found : state.log[slot]? = some entry)
    (sent : attempt ∈ state.sent) (same : attempt.id = entry.id) :
    ∃ doc, protocol.documentAt state.log slot = some doc ∧
      protocol.good doc attempt.tag entry.patch := by
  have own : protocol.own entry.id := by
    obtain ⟨intention, minted⟩ := once.identified.sent attempt sent
    exact same ▸ once.identified.own _ minted
  -- One submission has the slot for its base, another the entry's patch; all agree.
  obtain ⟨tried, triedSent, triedId, slotted⟩ := once.identified.logged slot entry found own
  obtain ⟨other, otherSent, otherId, otherPatch⟩ := agrees.logged entry (mem_of_getElem? found) own
  have patch : tried.patch = entry.patch := by
    rw [← otherPatch]
    exact (agrees.single tried triedSent other otherSent (triedId.trans otherId.symm)).1
  have tag : tried.tag = attempt.tag :=
    (agrees.single tried triedSent attempt sent (triedId.trans same.symm)).2
  obtain ⟨_, doc, reached, here⟩ := good.sent tried triedSent
  rw [slotted] at reached
  rw [patch, tag] at here
  exact ⟨doc, reached, here⟩

/-- At most one step. -/
def Moves (protocol : Protocol Id Tag Doc Patch) (sound : Prop)
    (state next : State Id Tag Doc Patch) : Prop :=
  next = state ∨ Step protocol sound state next

/-- What holds of a replica on every run, and what holds if its steps are sound. -/
structure Trusted (protocol : Protocol Id Tag Doc Patch) (sound : Prop)
    (state : State Id Tag Doc Patch) : Prop where
  once : Once protocol state
  agrees : sound → Agrees protocol state
  good : sound → Good protocol state

theorem Trusted.moves (trusted : Trusted protocol sound state)
    (moves : Moves protocol sound state next) : Trusted protocol sound next := by
  rcases moves with rfl | stepped
  · exact trusted
  · refine ⟨trusted.once.step stepped, ?_, ?_⟩
    · intro steady
      have certain : Step protocol True state next := eq_true steady ▸ stepped
      exact (trusted.agrees steady).step trusted.once certain
    · intro steady
      have certain : Step protocol True state next := eq_true steady ▸ stepped
      exact (trusted.good steady).step trusted.once (trusted.agrees steady) certain

def join (log : List (Logged Id Patch)) (doc : Doc) (revision : Nat) : State Id Tag Doc Patch where
  log := log
  confirmed := doc
  revision := revision
  optimistic := doc
  pending := []
  sent := []
  minted := []
  target := 0

theorem once_join (doc : Doc) (revision : Nat) (unseen : ∀ entry ∈ log, ¬ protocol.own entry.id)
    (distinct : (log.map Logged.id).Nodup) : Once protocol (join log doc revision) := by
  refine ⟨⟨?_, ?_, ?_, ?_, distinct⟩, ⟨?_, ?_⟩, ⟨?_, ?_, ?_, ?_, ?_⟩, ⟨?_, ?_⟩⟩
  case refine_4 =>
    intro slot entry found own
    exact absurd own (unseen entry (mem_of_getElem? found))
  all_goals simp [join]

theorem trusted_join {log : List (Logged Id Patch)} {doc : Doc} {revision : Nat}
    (unseen : ∀ entry ∈ log, ¬ protocol.own entry.id) (distinct : (log.map Logged.id).Nodup)
    (faithful : sound → revision ≤ log.length ∧ protocol.documentAt log revision = some doc) :
    Trusted protocol sound (join log doc revision) := by
  refine ⟨once_join doc revision unseen distinct, ?_, ?_⟩
  · intro steady
    obtain ⟨within, reached⟩ := faithful steady
    refine ⟨within, reached, rfl, ?_, ?_, ?_⟩
    · simp [join]
    · exact fun entry member own => absurd own (unseen entry member)
    · simp [join]
  · intro steady
    exact ⟨trivial, by simp [join]⟩

end Dinkster.Library.Replication
