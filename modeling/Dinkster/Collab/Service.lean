import Dinkster.Collab.Authority

/-!
# The authority serves its ports

Whatever arrives at the ports of an authority, and whichever leases expire, the document of
a session is the fold of its log over the document it was opened with, only accepted
operations change it, and a port that stays on a session is sent each of them once.
-/

namespace Dinkster.Collab

open Format Commands List Option
open Function (update update_eq_self update_of_ne update_self)

variable {Port : Type} {gate : DocumentGate}

/-! ## Sessions -/

namespace AuthoritySession

/-- What holds of a session: its document has no errors and is the fold of the log, whose
entries are numbered and have distinct ids, and the log is what it has seen. -/
structure Sound (gate : DocumentGate) (session : AuthoritySession Port) : Prop where
  clean : hasErrors (gate.checkDocument session.document) = false
  folds : session.ops.foldlM (fun document op => applyOps document op.patch) session.opened =
    .ok session.document
  numbered : ∀ (index : Nat) (op : AcceptedOp), session.ops[index]? = some op →
    op.baseRevision = index ∧ op.revision = index + 1
  revised : session.revision = session.ops.length
  distinct : (session.ops.map (·.opId)).Nodup
  known : session.seen = session.ops.map fun op => (op.opId, op)

theorem sound_opened {raw loaded : Json} (loads : gate.loadDocument raw = some loaded)
    (serial : Nat) : Sound gate (⟨loaded, 0, [], [], [], loaded, serial⟩ : AuthoritySession Port) where
  clean := gate.checked loads
  folds := rfl
  numbered := by simp
  revised := rfl
  distinct := nodup_nil
  known := rfl

/-- What posting comes to: the session is kept, or one valid entry is appended. -/
inductive Posts (gate : DocumentGate) (session : AuthoritySession Port) :
    AuthoritySession Port × WorkerAnswer → Prop where
  | kept {answer : WorkerAnswer} (quiet : ∀ op, answer ≠ .accepted op false) :
      Posts gate session (session, answer)
  | appended {document patch : Json} {opId actorId : String} {now : Int}
      (fresh : session.seen.lookup opId = none)
      (applied : applyOps session.document patch = .ok document)
      (clean : hasErrors (gate.checkDocument document) = false) :
      Posts gate session (session.append document (session.entry now opId actorId patch),
        .accepted (session.entry now opId actorId patch) false)

variable (session : AuthoritySession Port)

theorem posts_postFresh (now : Int) {op : PostedOp} (fresh : session.seen? op.opId = none) :
    Posts gate session (session.postFresh gate now op) := by
  unfold postFresh
  split
  · exact .kept (by simp)
  · split
    · rename_i opId actorId named _
      split
      · exact .kept (by simp)
      · split
        · exact .kept (by simp)
        · rename_i patch document applied
          split
          · exact .kept (by simp)
          · rename_i clean
            rw [Bool.not_eq_true] at clean
            rw [named] at fresh
            apply Posts.appended fresh _ clean
            unfold patched at applied
            split at applied
            · simp at applied
            · rename_i sent
              split at applied
              · simp at applied
              · rename_i made
                cases applied
                exact made
    · exact .kept (by simp)

theorem posts_postOp (now : Int) (op : PostedOp) :
    Posts gate session (session.postOp gate now op) := by
  unfold postOp
  split
  · exact .kept (by simp)
  · split
    · split
      all_goals exact .kept (by simp)
    · rename_i fresh
      exact session.posts_postFresh now fresh

theorem posts_replaceAuthoritative (now : Int) (op : PostedOp) (raw : Option Json) :
    Posts gate session (session.replaceAuthoritative gate now op raw) := by
  unfold replaceAuthoritative
  split
  · exact session.posts_postOp now op
  · split
    · exact .kept (by simp)
    · split
      · exact .kept (by simp)
      · split
        · exact .kept (by simp)
        · exact session.posts_postOp now op

variable {session : AuthoritySession Port}

theorem Sound.append (sound : session.Sound gate) {document patch : Json} {opId actorId : String}
    {now : Int} (fresh : session.seen.lookup opId = none)
    (applied : applyOps session.document patch = .ok document)
    (clean : hasErrors (gate.checkDocument document) = false) :
    (session.append document (session.entry now opId actorId patch)).Sound gate where
  clean := clean
  folds := by
    unfold AuthoritySession.append
    rw [foldlM_append, sound.folds]
    change (applyOps session.document patch >>= fun document => pure document) = _
    rw [applied]
    rfl
  numbered := by
    intro index op found
    change (session.ops ++ [session.entry now opId actorId patch])[index]? = some op at found
    rw [getElem?_append] at found
    split at found
    · exact sound.numbered index op found
    · rename_i beyond
      have last : index = session.ops.length := by
        by_contra apart
        rw [getElem?_eq_none (by simp; omega)] at found
        simp at found
      subst last
      rw [Nat.sub_self] at found
      cases found
      exact ⟨sound.revised, congrArg (· + 1) sound.revised⟩
  revised := by
    change session.revision + 1 = (session.ops ++ [_]).length
    rw [length_append, sound.revised]
    rfl
  distinct := by
    change ((session.ops ++ [session.entry now opId actorId patch]).map (·.opId)).Nodup
    rw [map_append]
    apply List.Nodup.append sound.distinct (nodup_singleton _)
    intro id old new
    have same : id = opId := mem_singleton.mp new
    subst same
    rw [sound.known, lookup_eq_none_iff] at fresh
    cases mem_map.mp old with
    | intro op found =>
      have apart := fresh _ (mem_map_of_mem found.1)
      simp [found.2] at apart
  known := by
    change session.seen ++ [_] = (session.ops ++ [_]).map _
    rw [map_append, sound.known]
    rfl

theorem Sound.posts (sound : session.Sound gate) {outcome : AuthoritySession Port × WorkerAnswer}
    (posts : Posts gate session outcome) : outcome.1.Sound gate := by
  cases posts with
  | kept => exact sound
  | appended fresh applied clean => exact sound.append fresh applied clean

structure Reposts (op : AcceptedOp) (posted : PostedOp) : Prop where
  version : posted.protocolVersion = some (.num collabProtocolVersion)
  named : posted.opId = some (.str op.opId)
  author : posted.actorId = some (.str op.actorId)
  based : posted.baseRevision = some (.num op.baseRevision)
  patch : posted.patch.any (jsonSameValue op.patch) = true

variable {posted : PostedOp}

theorem postOp_reposted (sound : session.Sound gate) {op : AcceptedOp} (logged : op ∈ session.ops)
    (reposts : Reposts op posted) (now : Int) : session.postOp gate now posted =
      (session, .accepted op true) := by
  have found : session.seen? posted.opId = some op := by
    unfold seen?
    rw [reposts.named, sound.known]
    dsimp only
    rw [lookup_eq_some_iff]
    obtain ⟨before, after, same⟩ := append_of_mem logged
    refine ⟨before.map fun op => (op.opId, op), after.map fun op => (op.opId, op), ?_, ?_⟩
    · rw [same, map_append, map_cons]
    · intro entry listed
      obtain ⟨earlier, known, equal⟩ := mem_map.mp listed
      have distinct := sound.distinct
      rw [same, map_append, map_cons, nodup_append] at distinct
      have apart := distinct.2.2 _ (mem_map_of_mem known) _ mem_cons_self
      rw [← equal]
      simpa using apart.symm
  unfold postOp
  rw [reposts.version, if_neg (by simp), found]
  dsimp only
  rw [reposts.author, reposts.based, reposts.patch]
  simp

/-- An authoritative replacement that was accepted is answered likewise, since its base is no
more the latest revision. -/
theorem replaceAuthoritative_reposted (sound : session.Sound gate) {op : AcceptedOp}
    (logged : op ∈ session.ops) (reposts : Reposts op posted) (now : Int) (raw : Option Json) :
    session.replaceAuthoritative gate now posted raw = (session, .accepted op true) := by
  obtain ⟨index, inside, found⟩ := getElem_of_mem logged
  have numbered := sound.numbered index op (by rw [getElem?_eq_getElem inside, found])
  have stale : validRevision? posted.baseRevision ≠ some session.revision := by
    rw [reposts.based, sound.revised]
    unfold validRevision?
    dsimp only
    split
    · intro same
      have equal : op.baseRevision = session.ops.length := by simpa using same
      omega
    · simp
  unfold replaceAuthoritative
  rw [if_pos stale]
  exact postOp_reposted sound logged reposts now

theorem follows {later : AuthoritySession Port} (sound : session.Sound gate)
    (sounder : later.Sound gate) {delivered : List AcceptedOp}
    (ops : later.ops = session.ops ++ delivered) (opened : later.opened = session.opened) :
    delivered.foldlM (fun document op => applyOps document op.patch) session.document =
        .ok later.document ∧ (∀ (index : Nat) (op : AcceptedOp), delivered[index]? = some op →
        op.revision = session.revision + index + 1) ∧
      later.revision = session.revision + delivered.length := by
  refine ⟨?_, ?_, ?_⟩
  · have folds := sounder.folds
    rw [ops, opened, foldlM_append, sound.folds] at folds
    exact folds
  · intro index op found
    have numbered := sounder.numbered (session.ops.length + index) op
    rw [ops, getElem?_append_right (Nat.le_add_right _ _), Nat.add_sub_cancel_left] at numbered
    rw [sound.revised]
    exact (numbered found).2
  · rw [sounder.revised, sound.revised, ops, length_append]

end AuthoritySession

/-! ## The registry -/

namespace Authority

/-- What holds of an authority: its sessions are sound and numbered apart, and a port is open
on the one session that lists it. -/
structure Sound (gate : DocumentGate) (state : Authority Port) : Prop where
  sessions : ∀ {sessionId session}, state.sessions sessionId = some session →
    session.Sound gate ∧ session.serial < state.created
  serials : ∀ {first second one other}, state.sessions first = some one →
    state.sessions second = some other → one.serial = other.serial → first = second
  attached : ∀ port sessionId, state.portSessions port = some sessionId ↔
    ∃ session, state.sessions sessionId = some session ∧ port ∈ session.ports
  listed : ∀ {sessionId session}, state.sessions sessionId = some session → session.ports.Nodup

theorem sound_empty : Sound gate (empty : Authority Port) where
  sessions := by simp [empty]
  serials := by simp [empty]
  attached := by simp [empty]
  listed := by simp [empty]

variable {state : Authority Port}

variable {session : AuthoritySession Port}

variable {port : Port} {sessionId : String}

theorem registered (found : state.sessionOf port = some (sessionId, session)) :
    state.portSessions port = some sessionId ∧ state.sessions sessionId = some session := by
  unfold sessionOf at found
  obtain ⟨id, attached, found⟩ := bind_eq_some_iff.mp found
  obtain ⟨known, registered, same⟩ := map_eq_some_iff.mp found
  cases same
  exact ⟨attached, registered⟩

theorem Sound.unregistered (sound : state.Sound gate) (found : state.sessionOf port = none) :
    state.portSessions port = none := by
  cases attached : state.portSessions port with
  | none => rfl
  | some sessionId =>
    obtain ⟨session, known, _⟩ := (sound.attached port sessionId).mp attached
    unfold sessionOf at found
    rw [attached, bind_some, known] at found
    simp at found

theorem mem_remaining {ports : List Port} :
    (∃ left, (if ports.isEmpty then none else some { session with ports := ports }) = some left ∧
      port ∈ left.ports) ↔ port ∈ ports := by
  split
  · rename_i ended
    rw [isEmpty_iff.mp ended]
    simp
  · constructor
    · intro remains
      obtain ⟨left, same, listed⟩ := remains
      rw [← Option.some.inj same] at listed
      exact listed
    · exact fun listed => ⟨_, rfl, listed⟩

theorem Sound.setSession (sound : state.Sound gate) {written : AuthoritySession Port}
    (known : state.sessions sessionId = some session) (sounder : written.Sound gate)
    (ports : written.ports = session.ports) (serial : written.serial = session.serial) :
    (state.setSession sessionId written).Sound gate := by
  have before : ∀ {id left}, (state.setSession sessionId written).sessions id = some left →
      ∃ earlier, state.sessions id = some earlier ∧ earlier.serial = left.serial ∧
        earlier.ports = left.ports ∧ left.Sound gate := by
    intro id left found
    change update state.sessions sessionId (some written) id = some left at found
    by_cases same : id = sessionId
    · subst same
      rw [update_self] at found
      cases found
      exact ⟨session, known, serial.symm, ports.symm, sounder⟩
    · rw [update_of_ne same] at found
      exact ⟨left, found, rfl, rfl, (sound.sessions found).1⟩
  constructor
  · intro id left found
    obtain ⟨earlier, knownEarlier, same, _, sounder⟩ := before found
    rw [← same]
    exact ⟨sounder, (sound.sessions knownEarlier).2⟩
  · intro first second one other firstFound secondFound same
    obtain ⟨_, firstKnown, firstSerial, _⟩ := before firstFound
    obtain ⟨_, secondKnown, secondSerial, _⟩ := before secondFound
    exact sound.serials firstKnown secondKnown (by rw [firstSerial, secondSerial, same])
  · intro port id
    change state.portSessions port = some id ↔ ∃ left,
      update state.sessions sessionId (some written) id = some left ∧ port ∈ left.ports
    rw [sound.attached]
    by_cases same : id = sessionId
    · subst same
      rw [update_self, known]
      simp [ports]
    · rw [update_of_ne same]
  · intro id left found
    obtain ⟨_, knownEarlier, _, same, _⟩ := before found
    rw [← same]
    exact sound.listed knownEarlier

section Leaving

variable [DecidableEq Port]

theorem Sound.seenAt (sound : state.Sound gate) (port : Port) (now : Int) :
    (state.seenAt port now).Sound gate :=
  ⟨sound.sessions, sound.serials, sound.attached, sound.listed⟩

variable {session : AuthoritySession Port}

variable {port : Port} {sessionId : String}

theorem sessions_disconnect {other : String} {left : AuthoritySession Port}
    (remains : (state.disconnect port sessionId session).sessions other = some left) :
    (other = sessionId ∧ left = { session with ports := session.ports.filter (· ≠ port) }) ∨
      (other ≠ sessionId ∧ state.sessions other = some left) := by
  unfold disconnect at remains
  by_cases same : other = sessionId
  · subst same
    dsimp only at remains
    rw [update_self] at remains
    split at remains
    · simp at remains
    · exact .inl ⟨rfl, (Option.some.inj remains).symm⟩
  · dsimp only at remains
    rw [update_of_ne same] at remains
    exact .inr ⟨same, remains⟩

section

variable (sound : state.Sound gate)

include sound

theorem Sound.disconnect (attached : state.portSessions port = some sessionId)
    (known : state.sessions sessionId = some session) :
    (state.disconnect port sessionId session).Sound gate where
  sessions := by
    intro other left remains
    cases sessions_disconnect remains with
    | inl here =>
      have before := sound.sessions known
      rw [here.2]
      exact ⟨⟨before.1.clean, before.1.folds, before.1.numbered, before.1.revised,
        before.1.distinct, before.1.known⟩, before.2⟩
    | inr apart => exact sound.sessions apart.2
  serials := by
    intro first second one other firstRemains secondRemains same
    have before : ∀ {id left}, (state.disconnect port sessionId session).sessions id = some left →
        ∃ earlier, state.sessions id = some earlier ∧ earlier.serial = left.serial := by
      intro id left remains
      cases sessions_disconnect remains with
      | inl here =>
        rw [here.1, here.2]
        exact ⟨session, known, rfl⟩
      | inr apart => exact ⟨left, apart.2, rfl⟩
    obtain ⟨_, firstKnown, firstSerial⟩ := before firstRemains
    obtain ⟨_, secondKnown, secondSerial⟩ := before secondRemains
    exact sound.serials firstKnown secondKnown (by rw [firstSerial, secondSerial, same])
  attached := by
    intro other id
    unfold Authority.disconnect
    dsimp only
    by_cases named : id = sessionId
    · subst named
      rw [update_self, mem_remaining, mem_filter]
      by_cases here : other = port
      · subst here
        simp
      · rw [update_of_ne here, sound.attached]
        constructor
        · intro joined
          obtain ⟨session', known', listed⟩ := joined
          rw [known] at known'
          rw [Option.some.inj known']
          exact ⟨listed, by simp [here]⟩
        · exact fun listed => ⟨session, known, listed.1⟩
    · rw [update_of_ne named]
      by_cases here : other = port
      · subst here
        rw [update_self]
        constructor
        · exact fun absent => absurd absent (by simp)
        · intro joined
          have elsewhere := (sound.attached other id).mpr joined
          rw [attached] at elsewhere
          exact absurd (Option.some.inj elsewhere).symm named
      · rw [update_of_ne here]
        exact sound.attached other id
  listed := by
    intro other left remains
    cases sessions_disconnect remains with
    | inl here =>
      rw [here.2]
      exact (sound.listed known).filter _
    | inr apart => exact sound.listed apart.2

theorem Sound.expire (port : Port) : (state.expire port).Sound gate := by
  unfold Authority.expire
  split
  · rename_i sessionId session found
    have known := registered found
    exact sound.disconnect known.1 known.2
  · rename_i absent
    have same : update state.portSessions port none = state.portSessions := by
      rw [← sound.unregistered absent]
      exact update_eq_self port state.portSessions
    rw [same]
    exact ⟨sound.sessions, sound.serials, sound.attached, sound.listed⟩

theorem Sound.pruneExpiredPorts (except : Port) (now : Int) :
    (state.pruneExpiredPorts except now).Sound gate := by
  unfold Authority.pruneExpiredPorts
  apply foldlRecOn
  · exact sound
  · intro earlier sound entry _
    split
    · exact sound
    · exact sound.expire entry.1

theorem Sound.attach {now : Int} (sounder : session.Sound gate)
    (serial : session.serial < state.created)
    (distinct : ∀ {other another}, state.sessions other = some another →
      another.serial = session.serial → other = sessionId)
    (alone : state.portSessions port = none ∨ state.portSessions port = some sessionId)
    (same : ∀ other, other ∈ session.ports ↔ state.portSessions other = some sessionId)
    (listed : session.ports.Nodup) :
    (state.attach port now sessionId session).state.Sound gate := by
  have joined : ∀ {id left}, (state.attach port now sessionId session).state.sessions id =
      some left → (id = sessionId ∧ left.ports = (if port ∈ session.ports then session.ports
        else session.ports ++ [port]) ∧ left.serial = session.serial ∧ left.Sound gate) ∨
      (id ≠ sessionId ∧ state.sessions id = some left) := by
    intro id left found
    change update state.sessions sessionId (some _) id = some left at found
    by_cases here : id = sessionId
    · subst here
      rw [update_self] at found
      cases found
      exact .inl ⟨rfl, rfl, rfl, sounder.clean, sounder.folds, sounder.numbered,
        sounder.revised, sounder.distinct, sounder.known⟩
    · rw [update_of_ne here] at found
      exact .inr ⟨here, found⟩
  constructor
  · intro id left found
    cases joined found with
    | inl here =>
      refine ⟨here.2.2.2, ?_⟩
      change left.serial < state.created
      rw [here.2.2.1]
      exact serial
    | inr apart => exact sound.sessions apart.2
  · intro first second one other firstFound secondFound same
    cases joined firstFound with
    | inl here =>
      cases joined secondFound with
      | inl there => rw [here.1, there.1]
      | inr apart =>
        rw [here.1]
        exact (distinct apart.2 (by rw [← same, here.2.2.1])).symm
    | inr apart =>
      cases joined secondFound with
      | inl there =>
        rw [there.1]
        exact distinct apart.2 (by rw [same, there.2.2.1])
      | inr away => exact sound.serials apart.2 away.2 same
  · intro other id
    change update state.portSessions port (some sessionId) other = some id ↔ ∃ left,
      update state.sessions sessionId (some _) id = some left ∧ other ∈ left.ports
    by_cases here : id = sessionId
    · subst here
      rw [update_self]
      by_cases self : other = port
      · subst self
        rw [update_self]
        constructor
        · intro _
          refine ⟨_, rfl, ?_⟩
          dsimp only
          split
          · assumption
          · exact mem_append_right _ (mem_singleton_self _)
        · exact fun _ => rfl
      · rw [update_of_ne self, ← same]
        constructor
        · intro known
          refine ⟨_, rfl, ?_⟩
          dsimp only
          split
          · exact known
          · exact mem_append_left _ known
        · intro found
          obtain ⟨left, equal, known⟩ := found
          rw [← Option.some.inj equal] at known
          dsimp only at known
          split at known
          · exact known
          · cases mem_append.mp known with
            | inl old => exact old
            | inr new => exact absurd (mem_singleton.mp new) self
    · rw [update_of_ne here]
      by_cases self : other = port
      · subst self
        rw [update_self]
        constructor
        · exact fun equal => absurd (Option.some.inj equal).symm here
        · intro found
          have elsewhere := (sound.attached other id).mpr found
          cases alone with
          | inl none =>
            rw [none] at elsewhere
            simp at elsewhere
          | inr some =>
            rw [some] at elsewhere
            exact absurd (Option.some.inj elsewhere).symm here
      · rw [update_of_ne self]
        exact sound.attached other id
  · intro id left found
    cases joined found with
    | inr apart => exact sound.listed apart.2
    | inl here =>
      rw [here.2.1]
      split
      · exact listed
      · rename_i absent
        apply List.Nodup.append listed (nodup_singleton _)
        intro other old new
        rw [mem_singleton.mp new] at old
        exact absent old

end

end Leaving

/-! ## What a message leaves -/

def recordOf (session : AuthoritySession Port) : Json × Nat × List AcceptedOp × Json × Nat :=
  (session.document, session.revision, session.ops, session.opened, session.serial)

/-- Sessions that go on keep their records; others are new. -/
structure Keeps (before after : Authority Port) : Prop where
  created : before.created ≤ after.created
  sessions : ∀ {sessionId later}, after.sessions sessionId = some later →
    (∃ session, before.sessions sessionId = some session ∧ recordOf session = recordOf later) ∨
      before.created ≤ later.serial

theorem Keeps.refl (state : Authority Port) : Keeps state state where
  created := Nat.le_refl _
  sessions := fun found => .inl ⟨_, found, rfl⟩

theorem Keeps.trans {first second third : Authority Port} (before : Keeps first second)
    (after : Keeps second third) : Keeps first third where
  created := Nat.le_trans before.created after.created
  sessions := by
    intro sessionId later found
    cases after.sessions found with
    | inr new => exact .inr (Nat.le_trans before.created new)
    | inl old =>
      obtain ⟨middle, known, same⟩ := old
      cases before.sessions known with
      | inl older =>
        obtain ⟨session, known, equal⟩ := older
        exact .inl ⟨session, known, equal.trans same⟩
      | inr new =>
        have serial : middle.serial = later.serial := congrArg (·.2.2.2.2) same
        rw [← serial]
        exact .inr new

theorem same_of_keeps (sound : state.Sound gate) {after : Authority Port}
    (keeps : Keeps state after) {laterId : String} {later : AuthoritySession Port}
    (known : state.sessions sessionId = some session)
    (found : after.sessions laterId = some later) (same : later.serial = session.serial) :
    sessionId = laterId ∧ recordOf session = recordOf later := by
  cases keeps.sessions found with
  | inl old =>
    obtain ⟨earlier, knownEarlier, equal⟩ := old
    have serial : earlier.serial = later.serial := congrArg (·.2.2.2.2) equal
    have named := sound.serials known knownEarlier (by rw [serial, same])
    subst named
    rw [known] at knownEarlier
    rw [Option.some.inj knownEarlier]
    exact ⟨rfl, equal⟩
  | inr new =>
    rw [same] at new
    exact absurd (sound.sessions known).2 (Nat.not_lt.mpr new)

section Keeping

variable [DecidableEq Port]

variable {port : Port} {session : AuthoritySession Port} {sessionId : String} {now : Int}

theorem keeps_disconnect (known : state.sessions sessionId = some session) :
    Keeps state (state.disconnect port sessionId session) where
  created := Nat.le_refl _
  sessions := by
    intro other later found
    cases sessions_disconnect found with
    | inl here =>
      rw [here.1, here.2]
      exact .inl ⟨session, known, rfl⟩
    | inr apart => exact .inl ⟨later, apart.2, rfl⟩

theorem keeps_pruneExpiredPorts (except : Port) (now : Int) :
    Keeps state (state.pruneExpiredPorts except now) := by
  unfold Authority.pruneExpiredPorts
  apply foldlRecOn (motive := Keeps state)
  · exact .refl state
  · intro earlier kept entry _
    split
    · exact kept
    · apply kept.trans
      unfold Authority.expire
      split
      · rename_i sessionId session found
        exact keeps_disconnect (registered found).2
      · exact ⟨Nat.le_refl _, fun found => .inl ⟨_, found, rfl⟩⟩

theorem keeps_attach
    (known : state.sessions sessionId = some session ∨ state.created ≤ session.serial) :
    Keeps state (state.attach port now sessionId session).state where
  created := Nat.le_refl _
  sessions := by
    intro other later found
    change update state.sessions sessionId (some _) other = some later at found
    by_cases here : other = sessionId
    · subst here
      rw [update_self] at found
      cases found
      cases known with
      | inl old => exact .inl ⟨session, old, rfl⟩
      | inr new => exact .inr new
    · rw [update_of_ne here] at found
      exact .inl ⟨later, found, rfl⟩

/-- What opening a session comes to. -/
structure Opens (gate : DocumentGate) (state : Authority Port) (port : Port)
    (handled : Handled Port) : Prop where
  sound : handled.state.Sound gate
  keeps : Keeps state handled.state
  quiet : handled.events = []
  answer : ∀ answer, handled.answer = .ok answer → ∃ sessionId session,
    handled.state.portSessions port = some sessionId ∧
      handled.state.sessions sessionId = some session ∧
      answer = .opened sessionId session.revision session.document

variable {before : Authority Port} {later : AuthoritySession Port} {posted : PostedOp}
    {raw : Option Json} {request : WorkerRequest}

theorem opens_attach (sound : state.Sound gate) (keeps : Keeps before state)
    (known : state.sessions sessionId = some session)
    (alone : state.portSessions port = none ∨ state.portSessions port = some sessionId) :
    Opens gate before port (state.attach port now sessionId session) where
  sound := by
    apply sound.attach (sound.sessions known).1 (sound.sessions known).2 _ alone _
      (sound.listed known)
    · exact fun other same => sound.serials other known same
    · intro other
      rw [sound.attached, known]
      simp
  keeps := keeps.trans (keeps_attach (.inl known))
  quiet := rfl
  answer := by
    intro answer same
    refine ⟨sessionId, _, update_self _ _ _, update_self _ _ _, ?_⟩
    exact (Except.ok.inj same).symm

theorem opens_new (sound : state.Sound gate) (keeps : Keeps before state) {raw loaded : Json}
    (loads : gate.loadDocument raw = some loaded) (absent : state.sessions sessionId = none)
    (alone : state.portSessions port = none ∨ state.portSessions port = some sessionId) :
    Opens gate before port ({ state with created := state.created + 1 }.attach port now sessionId
      ⟨loaded, 0, [], [], [], loaded, state.created⟩) where
  sound := by
    have later : ({ state with created := state.created + 1 } : Authority Port).Sound gate :=
      ⟨fun known => ⟨(sound.sessions known).1, Nat.lt_succ_of_lt (sound.sessions known).2⟩,
        sound.serials, sound.attached, sound.listed⟩
    apply later.attach (AuthoritySession.sound_opened loads _) (Nat.lt_succ_self _) _ alone _
      nodup_nil
    · intro other another known same
      have serial := (sound.sessions known).2
      rw [same] at serial
      exact absurd serial (Nat.lt_irrefl _)
    · intro other
      change _ ↔ state.portSessions other = some sessionId
      rw [sound.attached, absent]
      simp
  keeps := by
    apply keeps.trans
    have created : Keeps state ({ state with created := state.created + 1 }) :=
      ⟨Nat.le_succ _, fun found => .inl ⟨_, found, rfl⟩⟩
    constructor
    · exact Nat.le_succ _
    · intro other later found
      change update state.sessions sessionId (some _) other = some later at found
      by_cases here : other = sessionId
      · subst here
        rw [update_self] at found
        cases found
        exact .inr (Nat.le_refl _)
      · rw [update_of_ne here] at found
        exact created.sessions found
  quiet := rfl
  answer := by
    intro answer same
    refine ⟨sessionId, _, update_self _ _ _, update_self _ _ _, ?_⟩
    exact (Except.ok.inj same).symm

theorem opens_openSession (sound : state.Sound gate) (port : Port) (now : Int)
    (sessionId document : Option Json) :
    Opens gate state port (state.openSession gate port now sessionId document) := by
  have refuses : ∀ (after : Authority Port) (message : String), after.Sound gate →
      Keeps state after → Opens gate state port ⟨after, [], .error message⟩ := by
    intro after message sound keeps
    exact ⟨sound, keeps, rfl, fun answer same => absurd same (by simp)⟩
  have leaves : ∀ sessionId, (state.leaveOther port sessionId).Sound gate ∧
      Keeps state (state.leaveOther port sessionId) ∧
      ((state.leaveOther port sessionId).portSessions port = none ∨
        (state.leaveOther port sessionId).portSessions port = some sessionId) := by
    intro sessionId
    unfold Authority.leaveOther
    split
    · rename_i previousId previous found
      have known := registered found
      split
      · exact ⟨sound.disconnect known.1 known.2, keeps_disconnect known.2, .inl (update_self _ _ _)⟩
      · rename_i same
        rw [Decidable.not_not] at same
        subst same
        exact ⟨sound, .refl _, .inr known.1⟩
    · rename_i absent
      exact ⟨sound, .refl _, .inl (sound.unregistered absent)⟩
  unfold Authority.openSession
  split
  · rename_i sessionId
    split
    · exact refuses _ _ sound (.refl _)
    · dsimp only
      obtain ⟨sound, keeps, alone⟩ := leaves sessionId
      split
      · rename_i session known
        exact opens_attach sound keeps known alone
      · rename_i absent
        split
        · exact refuses _ _ sound keeps
        · rename_i loaded loads
          obtain ⟨raw, _, loads⟩ := bind_eq_some_iff.mp loads
          exact opens_new sound keeps loads absent alone
  · exact refuses _ _ sound (.refl _)

/-- What handling a request comes to: no entry is sent and the records are kept, or one
entry is appended to the session of the port, broadcast, and answered. -/
inductive Handles (gate : DocumentGate) (state : Authority Port) (port : Port)
    (handled : Handled Port) : Prop where
  | quiet (sound : handled.state.Sound gate) (keeps : Keeps state handled.state)
      (events : ∀ message ∈ handled.events, ∃ actorId payload,
        message.2 = .presence actorId payload)
      (answer : ∀ op, handled.answer ≠ .ok (.accepted op false)) :
      Handles gate state port handled
  | wrote {sessionId : String} {session written : AuthoritySession Port} {op : AcceptedOp}
      (attached : state.portSessions port = some sessionId)
      (known : state.sessions sessionId = some session)
      (posts : AuthoritySession.Posts gate session (written, .accepted op false))
      (result : handled = ⟨state.setSession sessionId written,
        broadcast written (.op op) port, .ok (.accepted op false)⟩) :
      Handles gate state port handled

theorem handles_same (sound : state.Sound gate) {events : List (Port × WorkerResponse)}
    {answer : Except String WorkerAnswer}
    (quiet : ∀ message ∈ events, ∃ actorId payload, message.2 = .presence actorId payload)
    (unaccepted : ∀ op, answer ≠ .ok (.accepted op false)) :
    Handles gate state port ⟨state, events, answer⟩ :=
  .quiet sound (.refl _) quiet unaccepted

theorem handles_withOp (sound : state.Sound gate)
    (attached : state.portSessions port = some sessionId)
    (known : state.sessions sessionId = some session) (op : Option Json)
    {post : PostedOp → AuthoritySession Port × WorkerAnswer}
    (posts : ∀ op, AuthoritySession.Posts gate session (post op)) :
    Handles gate state port (state.withOp port sessionId op post) := by
  unfold Authority.withOp
  split
  · exact handles_same sound (by simp) (by simp)
  · rename_i posted _
    have outcome := posts posted
    unfold Authority.write
    generalize post posted = result at outcome
    cases outcome with
    | kept quiet =>
      have same : state.setSession sessionId session = state := by
        unfold Authority.setSession
        rw [← known, update_eq_self]
      rw [same]
      apply handles_same sound
      · intro message listed
        split at listed
        · rename_i accepted
          exact absurd accepted (quiet _)
        · exact absurd listed not_mem_nil
      · intro op accepted
        exact quiet op (Except.ok.inj accepted)
    | appended fresh applied clean =>
      exact .wrote attached known (.appended fresh applied clean) rfl

theorem handles_dispatch (sound : state.Sound gate) (port : Port) (now : Int)
    (request : WorkerRequest) : Handles gate state port (state.dispatch gate port now request) := by
  have opening : ∀ id document,
      Handles gate state port (state.openSession gate port now id document) := by
    intro id document
    have opens := opens_openSession sound port now id document
    apply Handles.quiet opens.sound opens.keeps
    · rw [opens.quiet]
      simp
    · intro op accepted
      obtain ⟨sessionId, session, _, _, same⟩ := opens.answer _ accepted
      simp at same
  unfold Authority.dispatch
  split
  · exact opening _ _
  · split
    · exact handles_same sound (by simp) (by simp)
    · rename_i sessionId session found
      obtain ⟨attached, known⟩ := registered found
      unfold Authority.serve
      split
      · exact opening _ _
      · exact handles_withOp sound attached known _ fun op => session.posts_postOp now op
      · exact handles_withOp sound attached known _ fun op =>
          session.posts_replaceAuthoritative now op _
      · split
        · exact handles_same sound (by simp) (by simp)
        · exact handles_withOp sound attached known _ fun op =>
            session.posts_replaceAuthoritative now op _
      · exact handles_same sound (by simp) (by simp)
      · split <;> exact handles_same sound (by simp) (by simp)
      · apply handles_same sound (by simp)
        intro op
        unfold AuthoritySession.putSnapshot
        split
        · simp
        · split <;> simp
      · split
        · split
          · apply handles_same sound _ (by simp)
            intro message listed
            unfold broadcast at listed
            obtain ⟨other, _, same⟩ := mem_map.mp listed
            rw [← same]
            exact ⟨_, _, rfl⟩
          · exact handles_same sound (by simp) (by simp)
        · exact handles_same sound (by simp) (by simp)
      · exact handles_same sound (by simp) (by simp)
      · exact handles_same sound (by simp) (by simp)
      · exact .quiet (sound.disconnect attached known) (keeps_disconnect known) (by simp)
          (by simp)

/-! ## Deliveries -/

/-- The entry a message delivers to a port: an event, or the answer to a post of its own that
is no replay. -/
def deliveredTo (port : Port) (message : Port × WorkerResponse) : Option AcceptedOp :=
  if message.1 ≠ port then none
  else
    match message.2 with
    | .op op => some op
    | .response _ (.accepted op false) => some op
    | _ => none

/-- Whether some message answers a post with a new entry. -/
def Accepts (sent : List (Port × WorkerResponse)) : Prop :=
  ∃ port id op, (port, WorkerResponse.response id (.accepted op false)) ∈ sent

/-- What receiving a message comes to.  Either no entry is sent and the records are kept, or
an entry is appended to one session and sent to each of its ports once. -/
inductive Receives (gate : DocumentGate) (state : Authority Port) :
    Authority Port × List (Port × WorkerResponse) → Prop where
  | quiet {after : Authority Port} {sent : List (Port × WorkerResponse)}
      (sound : after.Sound gate) (keeps : Keeps state after)
      (silent : ∀ port, sent.filterMap (deliveredTo port) = []) (refused : ¬ Accepts sent) :
      Receives gate state (after, sent)
  | wrote {pruned : Authority Port} {sent : List (Port × WorkerResponse)} {sessionId : String}
      {session written : AuthoritySession Port} {op : AcceptedOp}
      (sound : pruned.Sound gate) (keeps : Keeps state pruned)
      (known : pruned.sessions sessionId = some session)
      (posts : AuthoritySession.Posts gate session (written, .accepted op false))
      (delivers : ∀ port, sent.filterMap (deliveredTo port) =
        if port ∈ session.ports then [op] else [])
      (accepts : Accepts sent) :
      Receives gate state (pruned.setSession sessionId written, sent)

theorem filterMap_broadcast (listed : session.ports.Nodup) (op : AcceptedOp) (except port : Port) :
    (broadcast session (.op op) except).filterMap (deliveredTo port) =
      if port ∈ session.ports ∧ port ≠ except then [op] else [] := by
  unfold broadcast
  rw [filterMap_map]
  have delivers : (deliveredTo port ∘ fun other => (other, WorkerResponse.op op)) =
      fun other => if other = port then some op else none := by
    funext other
    unfold deliveredTo
    rw [Function.comp_apply]
    by_cases same : other = port <;> simp [same]
  rw [delivers]
  have once : ∀ {ports : List Port}, ports.Nodup →
      ports.filterMap (fun other => if other = port then some op else none) =
        if port ∈ ports then [op] else [] := by
    intro ports
    induction ports with
    | nil => exact fun _ => rfl
    | cons first rest ih =>
      intro distinct
      obtain ⟨apart, distinct⟩ := nodup_cons.mp distinct
      rw [filterMap_cons]
      by_cases same : first = port
      · subst same
        simp [ih distinct, apart]
      · simp [same, Ne.symm same, ih distinct]
  rw [once (listed.filter _)]
  simp [mem_filter]

/-- What is done before a message is handled keeps the records. -/
theorem keeps_receiving (port : Port) (now : Int) :
    Keeps state ((state.seenAt port now).pruneExpiredPorts port now) := by
  have seen : Keeps state (state.seenAt port now) :=
    ⟨Nat.le_refl _, fun found => .inl ⟨_, found, rfl⟩⟩
  exact seen.trans (keeps_pruneExpiredPorts _ _)

theorem receives (sound : state.Sound gate) (arrival : Arrival Port) :
    Receives gate state (state.receive gate arrival) := by
  have pruned := (sound.seenAt arrival.port arrival.now).pruneExpiredPorts arrival.port arrival.now
  have kept := @keeps_receiving _ state _ arrival.port arrival.now
  unfold Authority.receive
  dsimp only
  split
  · apply Receives.quiet pruned kept
    · intro port
      unfold deliveredTo
      simp
    · rintro ⟨port, id, op, listed⟩
      simp at listed
  · rename_i id request _
    have handles := handles_dispatch pruned arrival.port arrival.now request
    generalize Authority.dispatch gate _ arrival.port arrival.now request = handled at handles ⊢
    cases handles with
    | quiet sounder keeps events answer =>
      have unanswered : ∀ port, deliveredTo port (arrival.port, answerOf id handled.answer) =
          none := by
        intro port
        unfold deliveredTo
        split
        · rfl
        · split
          · rename_i delivered
            cases answered : handled.answer with
            | ok value | error message =>
              rw [answered] at delivered
              exact absurd delivered (by simp [answerOf])
          · rename_i delivered
            cases answered : handled.answer with
            | ok value =>
              rw [answered] at delivered
              have same := (WorkerResponse.response.inj delivered).2
              exact absurd (by rw [answered, same]) (answer _)
            | error message =>
              rw [answered] at delivered
              exact absurd delivered (by simp [answerOf])
          · rfl
      apply Receives.quiet sounder (kept.trans keeps)
      · intro port
        rw [filterMap_append, append_eq_nil_iff]
        constructor
        · rw [filterMap_eq_nil_iff]
          intro message listed
          obtain ⟨actorId, payload, same⟩ := events message listed
          unfold deliveredTo
          rw [same]
          split <;> rfl
        · rw [filterMap_cons_none (unanswered port), filterMap_nil]
      · intro accepts
        obtain ⟨port, other, op, listed⟩ := accepts
        cases mem_append.mp listed with
        | inl event =>
          obtain ⟨actorId, payload, same⟩ := events _ event
          simp at same
        | inr response =>
          have delivered := unanswered arrival.port
          rw [← mem_singleton.mp response] at delivered
          have here : port = arrival.port := congrArg Prod.fst (mem_singleton.mp response)
          rw [here] at delivered
          unfold deliveredTo at delivered
          simp at delivered
    | @wrote sessionId session written op attached known posts result =>
      rw [result]
      have same : written.ports = session.ports := by
        cases posts with
        | kept quiet => exact absurd rfl (quiet op)
        | appended => rfl
      apply Receives.wrote pruned kept known posts
      · intro port
        have listed := pruned.listed known
        rw [filterMap_append, filterMap_broadcast (same.symm ▸ listed), same]
        have requester : arrival.port ∈ session.ports := by
          obtain ⟨other, knownToo, joined⟩ := (pruned.attached _ _).mp attached
          rw [known] at knownToo
          rw [Option.some.inj knownToo]
          exact joined
        by_cases here : port = arrival.port
        · subst here
          simp [deliveredTo, answerOf, requester]
        · simp [deliveredTo, answerOf, here, Ne.symm here]
      · exact ⟨arrival.port, id, op, mem_append_right _ (mem_singleton_self _)⟩

theorem Receives.sound {outcome : Authority Port × List (Port × WorkerResponse)}
    (receives : Receives gate state outcome) : outcome.1.Sound gate := by
  cases receives with
  | quiet sound => exact sound
  | wrote sound keeps known posts =>
    apply sound.setSession known ((sound.sessions known).1.posts posts)
    all_goals cases posts <;> rfl

theorem delivers_step (sound : state.Sound gate) {after : Authority Port}
    {sent : List (Port × WorkerResponse)} (receives : Receives gate state (after, sent))
    {laterId : String} (before : state.sessionOf port = some (sessionId, session))
    (found : after.sessionOf port = some (laterId, later)) (same : later.serial = session.serial) :
    later.ops = session.ops ++ sent.filterMap (deliveredTo port) ∧
      later.opened = session.opened := by
  have known := (registered before).2
  obtain ⟨attached, laterKnown⟩ := registered found
  cases receives with
  | quiet _ keeps silent _ =>
    have record := (same_of_keeps sound keeps known laterKnown same).2
    rw [silent port, append_nil]
    exact ⟨(congrArg (·.2.2.1) record).symm, (congrArg (·.2.2.2.1) record).symm⟩
  | @wrote pruned sent writtenId current written op prunedSound keeps currentKnown posts delivers _ =>
    rw [delivers port]
    change pruned.portSessions port = some laterId at attached
    change update pruned.sessions writtenId (some written) laterId = some later at laterKnown
    by_cases here : laterId = writtenId
    · subst here
      rw [update_self] at laterKnown
      have equal := Option.some.inj laterKnown
      subst equal
      have joined : port ∈ current.ports := by
        obtain ⟨other, otherKnown, joined⟩ := (prunedSound.attached _ _).mp attached
        rw [currentKnown] at otherKnown
        rw [Option.some.inj otherKnown]
        exact joined
      rw [if_pos joined]
      cases posts with
      | kept quiet => exact absurd rfl (quiet op)
      | appended =>
        have record := (same_of_keeps sound keeps known currentKnown same).2
        have ops : session.ops = current.ops := congrArg (·.2.2.1) record
        have opened : session.opened = current.opened := congrArg (·.2.2.2.1) record
        rw [ops, opened]
        exact ⟨rfl, rfl⟩
    · rw [update_of_ne here] at laterKnown
      have apart : port ∉ current.ports := by
        intro joined
        have elsewhere := (prunedSound.attached port writtenId).mpr ⟨_, currentKnown, joined⟩
        rw [attached] at elsewhere
        exact here (Option.some.inj elsewhere)
      have record := (same_of_keeps sound keeps known laterKnown same).2
      rw [if_neg apart, append_nil]
      exact ⟨(congrArg (·.2.2.1) record).symm, (congrArg (·.2.2.2.1) record).symm⟩

/-- A port is on the session with a number. -/
def On (state : Authority Port) (port : Port) (serial : Nat) : Prop :=
  ∃ sessionId session, state.sessionOf port = some (sessionId, session) ∧ session.serial = serial

/-- A port stays on a session throughout a run. -/
def Stays (gate : DocumentGate) (port : Port) (serial : Nat) :
    Authority Port → List (Arrival Port) → Prop
  | state, [] => On state port serial
  | state, arrival :: rest =>
    On state port serial ∧ Stays gate port serial (state.receive gate arrival).1 rest

theorem sound_run : ∀ (arrivals : List (Arrival Port)) {state : Authority Port},
    state.Sound gate → (state.run gate arrivals).1.Sound gate
  | [], _, sound => sound
  | arrival :: rest, _, sound => sound_run rest (receives sound arrival).sound

theorem Stays.on : ∀ {arrivals : List (Arrival Port)} {state : Authority Port} {port : Port}
    {serial : Nat}, Stays gate port serial state arrivals → On state port serial
  | [], _, _, _, stays => stays
  | _ :: _, _, _, _, stays => stays.1

theorem delivers_run {serial : Nat} :
    ∀ {arrivals : List (Arrival Port)} {state : Authority Port}, state.Sound gate →
      Stays gate port serial state arrivals →
      ∃ sessionId session laterId later, state.sessionOf port = some (sessionId, session) ∧
        (state.run gate arrivals).1.sessionOf port = some (laterId, later) ∧
        later.ops = session.ops ++ (state.run gate arrivals).2.filterMap (deliveredTo port) ∧
        later.opened = session.opened
  | [], state, _, stays => by
    obtain ⟨sessionId, session, found, _⟩ := stays
    exact ⟨sessionId, session, sessionId, session, found, found, (append_nil _).symm, rfl⟩
  | arrival :: rest, state, sound, stays => by
    have received := receives sound arrival
    obtain ⟨sessionId, session, found, numbered⟩ := stays.1
    obtain ⟨middleId, middle, laterId, later, middleFound, laterFound, ops, opened⟩ :=
      delivers_run received.sound stays.2
    obtain ⟨otherId, other, otherFound, otherNumbered⟩ := stays.2.on
    rw [middleFound] at otherFound
    obtain ⟨_, rfl⟩ := Prod.mk.inj (Option.some.inj otherFound)
    have step := delivers_step sound received found middleFound (otherNumbered.trans numbered.symm)
    refine ⟨sessionId, session, laterId, later, found, laterFound, ?_, ?_⟩
    · rw [ops, step.1, append_assoc, ← filterMap_append]
      rfl
    · rw [opened, step.2]

/-! ## Posting again -/

/-- A port that sends a message keeps its session. -/
theorem portSessions_receiving (port : Port) (now : Int) :
    ((state.seenAt port now).pruneExpiredPorts port now).portSessions port =
      state.portSessions port := by
  unfold Authority.pruneExpiredPorts
  apply foldlRecOn (motive := fun pruned : Authority Port =>
    pruned.portSessions port = state.portSessions port)
  · rfl
  · intro earlier same entry _
    split
    · exact same
    · rename_i expired
      have apart : port ≠ entry.1 := fun equal => expired (.inl equal.symm)
      unfold Authority.expire Authority.disconnect
      split <;> exact (update_of_ne apart _ _).trans same

/-- Expired leases start no session. -/
theorem created_receiving (port : Port) (now : Int) :
    ((state.seenAt port now).pruneExpiredPorts port now).created = state.created := by
  unfold Authority.pruneExpiredPorts
  apply foldlRecOn (motive := fun pruned : Authority Port => pruned.created = state.created)
  · rfl
  · intro earlier same entry _
    split
    · exact same
    · unfold Authority.expire Authority.disconnect
      split <;> exact same

/-- A port that sends a message finds its session as it was. -/
theorem session_receiving (sound : state.Sound gate) (now : Int)
    (found : state.sessionOf port = some (sessionId, session)) :
    ∃ later, ((state.seenAt port now).pruneExpiredPorts port now).sessionOf port =
      some (sessionId, later) ∧ recordOf later = recordOf session := by
  obtain ⟨attached, known⟩ := registered found
  have pruned := (sound.seenAt port now).pruneExpiredPorts port now
  have stillAttached := (@portSessions_receiving _ state _ port now).trans attached
  obtain ⟨later, laterKnown, _⟩ := (pruned.attached _ _).mp stillAttached
  refine ⟨later, ?_, ?_⟩
  · unfold sessionOf
    rw [stillAttached, bind_some, laterKnown]
    rfl
  · cases (@keeps_receiving _ state _ port now).sessions laterKnown with
    | inl old =>
      obtain ⟨earlier, earlierKnown, equal⟩ := old
      rw [known] at earlierKnown
      rw [Option.some.inj earlierKnown]
      exact equal.symm
    | inr new =>
      have serial := (pruned.sessions laterKnown).2
      rw [created_receiving] at serial
      exact absurd serial (Nat.not_lt.mpr new)

def Posting (raw : Option Json) (request : WorkerRequest) : Prop :=
  request = .postOp raw ∨ ∃ document, request = .replaceAuthoritative raw document

/-- Handling an accepted operation again changes nothing. -/
theorem dispatch_reposted (sound : state.Sound gate) {op : AcceptedOp}
    (found : state.sessionOf port = some (sessionId, session)) (logged : op ∈ session.ops)
    (posting : Posting raw request) (read : PostedOp.read raw = .ok posted)
    (reposts : AuthoritySession.Reposts op posted) :
    state.dispatch gate port now request = ⟨state, [], .ok (.accepted op true)⟩ := by
  have known := (registered found).2
  have sounder := (sound.sessions known).1
  have unwritten : state.setSession sessionId session = state := by
    unfold Authority.setSession
    rw [← known, update_eq_self]
  cases posting with
  | inl same =>
    rw [same]
    unfold Authority.dispatch
    dsimp only
    rw [found]
    unfold Authority.serve Authority.withOp Authority.write
    dsimp only
    rw [read]
    dsimp only
    rw [AuthoritySession.postOp_reposted sounder logged reposts now]
    dsimp only
    rw [unwritten]
  | inr replacing =>
    obtain ⟨document, same⟩ := replacing
    rw [same]
    unfold Authority.dispatch
    dsimp only
    rw [found]
    unfold Authority.serve Authority.withOp Authority.write
    dsimp only
    rw [read]
    dsimp only
    rw [AuthoritySession.replaceAuthoritative_reposted sounder logged reposts now document]
    dsimp only
    rw [unwritten]

/-- Posting an accepted operation again is answered with it and appends nothing. -/
theorem receive_reposted (sound : state.Sound gate) {id : Nat} {op : AcceptedOp}
    (found : state.sessionOf port = some (sessionId, session)) (logged : op ∈ session.ops)
    (posting : Posting raw request) (read : PostedOp.read raw = .ok posted)
    (reposts : AuthoritySession.Reposts op posted) :
    (state.receive gate ⟨port, now, .request id request⟩).2 =
        [(port, .response id (.accepted op true))] ∧
      ∃ later, (state.receive gate ⟨port, now, .request id request⟩).1.sessionOf port =
          some (sessionId, later) ∧ recordOf later = recordOf session := by
  obtain ⟨later, laterFound, record⟩ := session_receiving sound now found
  have pruned := (sound.seenAt port now).pruneExpiredPorts port now
  have logged : op ∈ later.ops := by
    have ops : later.ops = session.ops := congrArg (·.2.2.1) record
    rw [ops]
    exact logged
  unfold Authority.receive
  dsimp only
  rw [dispatch_reposted pruned laterFound logged posting read reposts]
  exact ⟨rfl, later, laterFound, record⟩

/-- What an authority guarantees after a run from the start. -/
structure Serves (gate : DocumentGate) (reached : Authority Port) : Prop where
  /-- Documents are clean and the fold of their logs, which are numbered without gaps. -/
  sessions : ∀ {sessionId session}, reached.sessions sessionId = some session → session.Sound gate
  /-- Only a message that is answered with a new entry changes a session. -/
  kept : ∀ arrival, ¬ Accepts (reached.receive gate arrival).2 →
    ∀ {sessionId session laterId later}, reached.sessions sessionId = some session →
      (reached.receive gate arrival).1.sessions laterId = some later →
      later.serial = session.serial →
      later.document = session.document ∧ later.ops = session.ops ∧
        later.revision = session.revision
  /-- An accepted operation that is posted again is answered with the original. -/
  reposted : ∀ {port now id sessionId session op raw posted request},
    reached.sessionOf port = some (sessionId, session) → op ∈ session.ops →
    Posting raw request → PostedOp.read raw = .ok posted →
    AuthoritySession.Reposts op posted →
    (reached.receive gate ⟨port, now, .request id request⟩).2 =
        [(port, .response id (.accepted op true))] ∧
      ∃ later, (reached.receive gate ⟨port, now, .request id request⟩).1.sessionOf port =
          some (sessionId, later) ∧ recordOf later = recordOf session
  /-- A port that opens a session is sent its document and its revision. -/
  opened : ∀ {port now id sessionId document answered revision snapshot},
    (port, WorkerResponse.response id (.opened answered revision snapshot)) ∈
      (reached.receive gate ⟨port, now, .request id (.opening sessionId document)⟩).2 →
    ∃ session, (reached.receive gate ⟨port, now,
        .request id (.opening sessionId document)⟩).1.sessionOf port = some (answered, session) ∧
      revision = session.revision ∧ snapshot = session.document
  /-- A port that stays is sent each later entry once, in order, and following them from where
  it began gives the document. -/
  followed : ∀ {port serial} (arrivals : List (Arrival Port)),
    Stays gate port serial reached arrivals →
    ∃ sessionId session laterId later, reached.sessionOf port = some (sessionId, session) ∧
      (reached.run gate arrivals).1.sessionOf port = some (laterId, later) ∧
      later.ops = session.ops ++ (reached.run gate arrivals).2.filterMap (deliveredTo port) ∧
      ((reached.run gate arrivals).2.filterMap (deliveredTo port)).foldlM
        (fun document op => applyOps document op.patch) session.document = .ok later.document ∧
      (∀ (index : Nat) (op : AcceptedOp),
        ((reached.run gate arrivals).2.filterMap (deliveredTo port))[index]? = some op →
          op.revision = session.revision + index + 1) ∧
      later.revision = session.revision +
        ((reached.run gate arrivals).2.filterMap (deliveredTo port)).length

theorem Sound.kept (sound : state.Sound gate) {arrival : Arrival Port}
    (refused : ¬ Accepts (state.receive gate arrival).2) {laterId : String}
    (known : state.sessions sessionId = some session)
    (found : (state.receive gate arrival).1.sessions laterId = some later)
    (same : later.serial = session.serial) : recordOf session = recordOf later := by
  have received := receives sound arrival
  generalize state.receive gate arrival = outcome at received refused found
  cases received with
  | quiet _ keeps => exact (same_of_keeps sound keeps known found same).2
  | wrote _ _ _ _ _ accepts => exact absurd accepts refused

theorem Sound.opened (sound : state.Sound gate) {id : Nat} {sessionId document : Option Json}
    {answered : String} {revision : Nat} {snapshot : Json}
    (sent : (port, WorkerResponse.response id (.opened answered revision snapshot)) ∈
      (state.receive gate ⟨port, now, .request id (.opening sessionId document)⟩).2) :
    ∃ session, (state.receive gate ⟨port, now,
        .request id (.opening sessionId document)⟩).1.sessionOf port = some (answered, session) ∧
      revision = session.revision ∧ snapshot = session.document := by
  have pruned := (sound.seenAt port now).pruneExpiredPorts port now
  have opens := opens_openSession pruned port now sessionId document
  unfold Authority.receive Authority.dispatch at sent ⊢
  dsimp only at sent ⊢
  rw [opens.quiet, nil_append] at sent
  have same := (Prod.mk.inj (mem_singleton.mp sent)).2
  cases answeredWith : (Authority.openSession gate _ port now sessionId document).answer with
  | error message =>
    rw [answeredWith] at same
    exact absurd same (by simp [answerOf])
  | ok answer =>
    obtain ⟨joinedId, session, attached, known, equal⟩ := opens.answer _ answeredWith
    rw [answeredWith, equal] at same
    obtain ⟨rfl, rfl, rfl⟩ := WorkerAnswer.opened.inj (WorkerResponse.response.inj same).2
    refine ⟨session, ?_, rfl, rfl⟩
    unfold sessionOf
    rw [attached, bind_some, known]
    rfl

end Keeping

end Authority

end Dinkster.Collab
