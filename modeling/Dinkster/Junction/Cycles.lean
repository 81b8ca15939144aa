import Dinkster.Junction.Check

/-!
# The cycle check is exact

The drivers that the pass over the links notes are the first link into every reroute and
candidate that exists.  When links leave no candidate and what they drive exists, the search
therefore follows the dependencies of the definition, and it reports a cycle exactly when
some choice of candidates has a cyclic trace.
-/

namespace Dinkster.Junction

open Format Library List Option

variable {definition : GraphDef} {missing : PortRef → Bool}

/-! ## What the pass notes -/

variable {code : String} {link : LinkData} {links : List LinkData}
    {after before check : TopologyCheck} {found : Violation}

variable {id what candidate : String} {target endpoint : LinkEndpoint}

theorem checkEndpoint_reroute : checkEndpoint definition missing what code (.reroute id) = none ↔
      id ∈ definition.reroutes := by
  unfold checkEndpoint
  split <;> simp_all

theorem checkEndpoint_candidate :
    checkEndpoint definition missing what code (.selector id (some candidate)) = none ↔
      (Stop.candidate id candidate).Known definition := by
  dsimp only [checkEndpoint, Stop.Known]
  cases found : definition.selector? id with
  | none | some selector => simp

def firstInto (links : List LinkData) (target : LinkEndpoint) : Option LinkData :=
  links.find? fun link => link.target = target

theorem firstInto_append {driver : LinkData} : firstInto (links ++ [link]) target = some driver ↔
      firstInto links target = some driver ∨
        (firstInto links target = none ∧ link.target = target ∧ link = driver) := by
  unfold firstInto
  rw [find?_append]
  cases links.find? fun link => link.target = target with
  | some found => simp
  | none =>
    by_cases here : link.target = target
    all_goals simp [here]

/-- What the check has noted after some of the links: the first drivers of what exists. -/
structure Filed (definition : GraphDef) (links : List LinkData) (check : TopologyCheck) :
    Prop where
  reroutes : ∀ id driver, check.drivenReroutes.get id = some driver ↔
    (Stop.reroute id).Known definition ∧ firstInto links (.reroute id) = some driver
  candidates : ∀ id candidate driver,
    check.drivenSelectorCandidates.get (selectorCandidateKey id candidate) = some driver ↔
      (Stop.candidate id candidate).Known definition ∧
        firstInto links (.selector id (some candidate)) = some driver
  selectors : ∀ id driver, driver ∈ (check.selectorDrivers.get id).getD [] ↔
    ∃ candidate, (Stop.candidate id candidate).Known definition ∧
      firstInto links (.selector id (some candidate)) = some driver

structure SameNotes (before after : TopologyCheck) : Prop where
  reroutes : after.drivenReroutes = before.drivenReroutes
  candidates : after.drivenSelectorCandidates = before.drivenSelectorCandidates
  selectors : after.selectorDrivers = before.selectorDrivers

theorem Filed.of_same (filed : Filed definition links before) (same : SameNotes before after) :
    Filed definition links after := by
  constructor
  · rw [same.reroutes]
    exact filed.reroutes
  · rw [same.candidates]
    exact filed.candidates
  · rw [same.selectors]
    exact filed.selectors

/-- A link that drives nothing, or nothing for the first time, leaves the notes right. -/
theorem Filed.keep (filed : Filed definition links check)
    (settled : ∀ stop, Stop.Known definition stop → link.target = stop.target →
      (∀ node input, stop ≠ .tap node input) → firstInto links stop.target ≠ none) :
    Filed definition (links ++ [link]) check := by
  have same : ∀ stop driver, Stop.Known definition stop → (∀ node input, stop ≠ .tap node input) →
        (firstInto (links ++ [link]) stop.target = some driver ↔
          firstInto links stop.target = some driver) := by
    intro stop driver known junction
    rw [firstInto_append]
    constructor
    · intro found
      cases found with
      | inl found => exact found
      | inr late => exact absurd late.1 (settled stop known late.2.1 junction)
    · exact .inl
  constructor
  · intro id driver
    rw [filed.reroutes]
    exact and_congr_right fun known => (same _ driver known (by simp)).symm
  · intro id candidate driver
    rw [filed.candidates]
    exact and_congr_right fun known => (same _ driver known (by simp)).symm
  · intro id driver
    rw [filed.selectors]
    exact exists_congr fun candidate => and_congr_right fun known =>
      (same (.candidate id candidate) driver known (by simp)).symm

theorem checkSource_same (check : TopologyCheck) (link : LinkData) :
    SameNotes check (checkSource definition missing check link) := by
  unfold checkSource
  split
  · exact ⟨rfl, rfl, rfl⟩
  · split <;> exact ⟨rfl, rfl, rfl⟩

theorem claimInput_same (check : TopologyCheck) (ref : PortRef) (driver : String) :
    SameNotes check (claimInput definition check ref driver) := by
  unfold claimInput
  split <;> exact ⟨rfl, rfl, rfl⟩

section

variable (filed : Filed definition links check)

include filed

/-- Noting the first driver of a reroute. -/
theorem Filed.addReroute (drives : link.target = .reroute id) (known : id ∈ definition.reroutes)
    (free : check.drivenReroutes.get id = none) : Filed definition (links ++ [link])
      { check with drivenReroutes := check.drivenReroutes.set id link } := by
  have fresh : firstInto links (.reroute id) = none := by
    cases found : firstInto links (.reroute id) with
    | none => rfl
    | some driver =>
      rw [(filed.reroutes id driver).mpr ⟨known, found⟩] at free
      cases free
  have others : ∀ candidates other driver,
      firstInto (links ++ [link]) (.selector other (some candidates)) = some driver ↔
        firstInto links (.selector other (some candidates)) = some driver := by
    intro candidates other driver
    simp [firstInto_append, drives]
  constructor
  · intro other driver
    dsimp only
    rw [Table.get_set, firstInto_append]
    by_cases same : id = other
    · subst same
      simp [fresh, drives, known, Stop.Known]
    · simp [same, drives, filed.reroutes]
  · intro other candidate driver
    simp only [filed.candidates, others]
  · intro other driver
    simp only [filed.selectors, others]

/-- Noting the first driver of a candidate. -/
theorem Filed.addCandidate (drives : link.target = .selector id (some candidate))
    (known : (Stop.candidate id candidate).Known definition)
    (free : check.drivenSelectorCandidates.get (selectorCandidateKey id candidate) = none) :
    Filed definition (links ++ [link]) { check with
        drivenSelectorCandidates :=
          check.drivenSelectorCandidates.set (selectorCandidateKey id candidate) link
        selectorDrivers :=
          check.selectorDrivers.set id ((check.selectorDrivers.get id).getD [] ++ [link]) } := by
  have fresh : firstInto links (.selector id (some candidate)) = none := by
    cases found : firstInto links (.selector id (some candidate)) with
    | none => rfl
    | some driver =>
      rw [(filed.candidates id candidate driver).mpr ⟨known, found⟩] at free
      cases free
  constructor
  · intro other driver
    rw [filed.reroutes]
    simp [firstInto_append, drives]
  · intro other choice driver
    dsimp only
    rw [Table.get_set, firstInto_append]
    by_cases same : id = other ∧ candidate = choice
    · obtain ⟨rfl, rfl⟩ := same
      simp [fresh, drives, known]
    · have apart : selectorCandidateKey id candidate ≠ selectorCandidateKey other choice :=
        fun equal => same (selectorCandidateKey_eq_iff.mp equal)
      have elsewhere : link.target ≠ .selector other (some choice) := by
        rw [drives]
        simpa using same
      simp [apart, elsewhere, filed.candidates]
  · intro other driver
    dsimp only
    rw [Table.get_set]
    by_cases same : id = other
    · subst same
      rw [if_pos rfl, getD_some, mem_append, filed.selectors, mem_singleton]
      constructor
      · intro listed
        cases listed with
        | inl older =>
          obtain ⟨choice, there, found⟩ := older
          exact ⟨choice, there, firstInto_append.mpr (.inl found)⟩
        | inr new =>
          subst new
          exact ⟨candidate, known, firstInto_append.mpr (.inr ⟨fresh, drives, rfl⟩)⟩
      · intro listed
        obtain ⟨choice, there, found⟩ := listed
        cases firstInto_append.mp found with
        | inl older => exact .inl ⟨choice, there, older⟩
        | inr new => exact .inr new.2.2.symm
    · rw [if_neg same, filed.selectors]
      simp [firstInto_append, drives, same]

theorem Filed.step (link : LinkData) :
    Filed definition (links ++ [link]) (checkLink definition missing check link) := by
  have filed := filed.of_same (@checkSource_same definition missing check link)
  unfold checkLink
  dsimp only
  generalize checkSource definition missing check link = check at filed ⊢
  cases reached : checkEndpoint definition missing s!"link '{link.id}' target"
      "doc.link.dangling" link.target with
  | some found =>
    -- what the link drives does not exist
    refine (filed.keep ?_).of_same ⟨rfl, rfl, rfl⟩
    intro stop known drives junction
    cases stop with
    | reroute id =>
      rw [drives] at reached
      rw [Stop.target, checkEndpoint_reroute.mpr known] at reached
      cases reached
    | candidate id choice =>
      rw [drives] at reached
      rw [Stop.target, checkEndpoint_candidate.mpr known] at reached
      cases reached
    | tap node input => exact absurd rfl (junction node input)
  | none =>
    dsimp only
    unfold driveTarget
    cases drives : link.target with
    | port ref =>
      refine (filed.keep ?_).of_same (claimInput_same check ref _)
      intro stop _ same junction
      rw [drives] at same
      cases stop with
      | reroute _ | candidate _ _ => cases same
      | tap node input => exact absurd rfl (junction node input)
    | valueSource id | tap node input =>
      refine (filed.keep ?_).of_same ⟨rfl, rfl, rfl⟩
      intro stop _ same _
      rw [drives] at same
      cases stop <;> cases same
    | reroute id =>
      rw [drives] at reached
      have known := checkEndpoint_reroute.mp reached
      dsimp only
      cases taken : check.drivenReroutes.get id with
      | none => exact filed.addReroute drives known taken
      | some existing =>
        refine (filed.keep ?_).of_same ⟨rfl, rfl, rfl⟩
        intro stop _ same _
        rw [← same, drives, ((filed.reroutes id existing).mp taken).2]
        exact some_ne_none existing
    | selector id candidate =>
      cases candidate with
      | none =>
        refine (filed.keep ?_).of_same ⟨rfl, rfl, rfl⟩
        intro stop _ same _
        rw [drives] at same
        cases stop <;> cases same
      | some candidate =>
        rw [drives] at reached
        have known := checkEndpoint_candidate.mp reached
        dsimp only
        cases taken : check.drivenSelectorCandidates.get
            (selectorCandidateKey id candidate) with
        | none => exact filed.addCandidate drives known taken
        | some existing =>
          refine (filed.keep ?_).of_same ⟨rfl, rfl, rfl⟩
          intro stop _ same _
          rw [← same, drives, ((filed.candidates id candidate existing).mp taken).2]
          exact some_ne_none existing

end

/-- After the pass the first drivers of everything that exists are noted. -/
theorem checkLinks_filed : Filed definition definition.links (checkLinks definition missing) := by
  unfold checkLinks
  generalize definition.links = links
  induction links using List.reverseRecOn with
  | nil =>
    constructor
    · intro id driver
      simp [firstInto]
    · intro id candidate driver
      simp [firstInto]
    · intro id driver
      simp [firstInto]
  | append_singleton links link ih =>
    rw [foldl_append, foldl_cons, foldl_nil]
    exact ih.step link

/-! ## What the search follows -/

/-- The search follows the dependencies of the definition. -/
theorem feeds_walkNext_iff {source target : Vertex} :
    Feeds (walkNext definition (checkLinks definition missing)) source target ↔
      Upstream definition source target := by
  have filed := @checkLinks_filed definition missing
  unfold Feeds Upstream
  cases target with
  | reroute id =>
    simp only [walkNext, mem_filterMap, mem_toList, filed.reroutes]
    constructor
    · intro listed
      obtain ⟨driver, ⟨known, found⟩, left⟩ := listed
      exact ⟨.reroute id, driver, rfl, known, found, left⟩
    · intro listed
      obtain ⟨stop, driver, same, known, found, left⟩ := listed
      cases stop with
      | reroute other =>
        cases same
        exact ⟨driver, ⟨known, found⟩, left⟩
      | candidate _ _ | tap _ _ => cases same
  | selector id =>
    simp only [walkNext, mem_filterMap, filed.selectors]
    constructor
    · intro listed
      obtain ⟨driver, ⟨candidate, known, found⟩, left⟩ := listed
      exact ⟨.candidate id candidate, driver, rfl, known, found, left⟩
    · intro listed
      obtain ⟨stop, driver, same, known, found, left⟩ := listed
      cases stop with
      | reroute _ | tap _ _ => cases same
      | candidate other candidate =>
        cases same
        exact ⟨driver, ⟨candidate, known, found⟩, left⟩
  | tap node input =>
    have driven : scanInputDriver definition (Stop.tapped node input) =
        driverInto definition (Stop.tap node input).target := scanInputDriver_eq definition _
    dsimp only [walkNext]
    rw [driven]
    constructor
    · intro listed
      cases found : driverInto definition (Stop.tap node input).target with
      | some driver =>
        rw [found] at listed
        exact ⟨.tap node input, driver, rfl, trivial, found, mem_toList.mp listed⟩
      | none =>
        -- a net comes from a port, which is no junction
        rw [found] at listed
        dsimp only at listed
        split at listed
        all_goals cases listed
    · intro listed
      obtain ⟨stop, driver, same, known, found, left⟩ := listed
      cases stop with
      | reroute _ | candidate _ _ => cases same
      | tap _ _ =>
        cases same
        rw [found]
        exact mem_toList.mpr left

theorem feeds_walkNext :
    Feeds (walkNext definition (checkLinks definition missing)) = Upstream definition := by
  funext source target
  exact propext feeds_walkNext_iff

def drivenVertex (link : LinkData) : Option Vertex :=
  match link.target with
  | .reroute id => some (.reroute id)
  | .selector id (some _) => some (.selector id)
  | .port ref => some (.tap ref.node ref.port)
  | _ => none

theorem drivenVertex_of_target {stop : Stop} (drives : link.target = stop.target) :
    drivenVertex link = some stop.vertex := by
  unfold drivenVertex
  rw [drives]
  cases stop <;> rfl

theorem mem_driven_of_walkNext {vertex : Vertex}
    (filled : walkNext definition (checkLinks definition missing) vertex ≠ []) :
    vertex ∈ definition.links.filterMap drivenVertex := by
  obtain ⟨source, listed⟩ := exists_mem_of_ne_nil _ filled
  obtain ⟨stop, driver, same, _, found, _⟩ := feeds_walkNext_iff.mp listed
  have driven := driverInto_eq found
  apply mem_filterMap.mpr
  exact ⟨driver, driven.1, same ▸ drivenVertex_of_target driven.2⟩

/-- The search reports nothing exactly when nothing depends on itself. -/
theorem walkReports_eq_nil_iff : walkReports definition (checkLinks definition missing) = [] ↔
      ∀ vertex, Acc (Upstream definition) vertex := by
  unfold walkReports
  rw [cycleReports_eq_nil_iff (fun _ => mem_driven_of_walkNext)
    (Nat.lt_succ_of_le (length_filterMap_le _ _)), feeds_walkNext]
  constructor
  · intro roots vertex
    constructor
    intro source edge
    obtain ⟨stop, driver, _, _, found, left⟩ := edge
    have known := (driverInto_eq found).1
    -- a junction that drives something is a root, or does not exist and depends on nothing
    cases source with
    | reroute id =>
      by_cases listed : id ∈ definition.reroutes
      · apply roots
        exact mem_append_left _ (mem_append_left _ (List.mem_map_of_mem listed))
      · constructor
        intro other edge
        obtain ⟨stop, _, same, there, _⟩ := edge
        cases stop with
        | reroute _ =>
          cases same
          exact absurd there listed
        | candidate _ _ | tap _ _ => cases same
    | selector id =>
      cases named : definition.selector? id with
      | some selector =>
        apply roots
        apply mem_append_left
        apply mem_append_right
        apply List.mem_map.mpr
        have same : selector.id = id := by simpa using find?_some named
        exact ⟨selector, mem_of_find?_eq_some named, by rw [same]⟩
      | none =>
        constructor
        intro other edge
        obtain ⟨stop, _, same, there, _⟩ := edge
        cases stop with
        | reroute _ | tap _ _ => cases same
        | candidate _ candidate =>
          cases same
          obtain ⟨_, found, _⟩ := there
          rw [named] at found
          cases found
    | tap node input =>
      apply roots
      apply mem_append_right
      apply mem_filterMap.mpr
      refine ⟨driver, known, ?_⟩
      cases endpoint : driver.source with
      | port _ | reroute _ | valueSource _ =>
        rw [endpoint] at left
        cases left
      | selector _ candidate =>
        rw [endpoint] at left
        cases candidate <;> cases left
      | tap _ _ =>
        rw [endpoint] at left
        cases left
        rfl
  · intro safe root _
    exact safe root

/-! ## What else is reported -/

def AddsPlain (before after : TopologyCheck) : Prop :=
  ∃ added, after.diagnostics = before.diagnostics ++ added ∧
    ∀ found ∈ added, found.code ∉ cycleCodes

theorem AddsPlain.refl (check : TopologyCheck) : AddsPlain check check :=
  ⟨[], by simp, by simp⟩

theorem AddsPlain.trans {first second third : TopologyCheck} (left : AddsPlain first second)
    (right : AddsPlain second third) : AddsPlain first third := by
  obtain ⟨early, shape, plain⟩ := left
  obtain ⟨late, image, clear⟩ := right
  refine ⟨early ++ late, by rw [image, shape, append_assoc], ?_⟩
  exact List.forall_mem_append.mpr ⟨plain, clear⟩

theorem AddsPlain.report (check : TopologyCheck) (plain : found.code ∉ cycleCodes) :
    AddsPlain check (check.report found) := by
  refine ⟨[found], rfl, ?_⟩
  intro other listed
  rw [mem_singleton.mp listed]
  exact plain

theorem plain_violation {message : String} (plain : code ∉ cycleCodes) :
    (violation definition code message).code ∉ cycleCodes := plain

theorem AddsPlain.violation (check : TopologyCheck) {message : String} (plain : code ∉ cycleCodes) :
    AddsPlain check (check.report (Junction.violation definition code message)) :=
  .report check plain

theorem AddsPlain.foldl {Item : Type} {step : TopologyCheck → Item → TopologyCheck}
    (each : ∀ check item, AddsPlain check (step check item)) (items : List Item)
    (check : TopologyCheck) : AddsPlain check (items.foldl step check) := by
  induction items generalizing check with
  | nil => exact .refl check
  | cons item items ih => exact (each check item).trans (ih _)

/-- The code of what `checkEndpoint` finds. -/
theorem checkEndpoint_code
    (reported : checkEndpoint definition missing what code endpoint = some found) :
    found.code = code ∨ found.code = "doc.dynamic.memberMissing" := by
  unfold checkEndpoint at reported
  split at reported
  · split at reported <;> cases reported
    exact .inl rfl
  · split at reported <;> cases reported
    exact .inl rfl
  · split at reported
    · cases reported
      exact .inl rfl
    · cases reported
    · split at reported <;> cases reported
      exact .inl rfl
  · split at reported <;> cases reported
    exact .inl rfl
  · split at reported
    · cases reported
      exact .inl rfl
    · split at reported <;> cases reported
      exact .inr rfl

theorem plain_of_checkEndpoint (plain : code ∉ cycleCodes)
    (reported : checkEndpoint definition missing what code endpoint = some found) :
    found.code ∉ cycleCodes := by
  cases checkEndpoint_code reported with
  | inl same => exact same ▸ plain
  | inr member =>
    rw [member]
    decide

theorem claimInput_plain (check : TopologyCheck) (ref : PortRef) (driver : String) :
    AddsPlain check (claimInput definition check ref driver) := by
  unfold claimInput
  split
  · exact .violation check (by decide)
  · exact ⟨[], by simp, by simp⟩

theorem checkSource_plain (check : TopologyCheck) (link : LinkData) :
    AddsPlain check (checkSource definition missing check link) := by
  unfold checkSource
  split
  · rename_i found reported
    exact .report check (plain_of_checkEndpoint (by decide) reported)
  · split
    · exact .violation check (by decide)
    · exact .refl check

theorem driveTarget_plain (check : TopologyCheck) (link : LinkData) :
    AddsPlain check (driveTarget definition check link) := by
  unfold driveTarget
  split
  · exact .violation check (by decide)
  · exact .violation check (by decide)
  · exact .violation check (by decide)
  · split
    · exact .violation check (by decide)
    · exact ⟨[], by simp, by simp⟩
  · split
    · exact .violation check (by decide)
    · exact ⟨[], by simp, by simp⟩
  · exact claimInput_plain check _ _

theorem checkLink_plain (check : TopologyCheck) (link : LinkData) :
    AddsPlain check (checkLink definition missing check link) := by
  refine (@checkSource_plain definition missing check link).trans ?_
  unfold checkLink
  dsimp only
  split
  · rename_i found reported
    exact .report _ (plain_of_checkEndpoint (by decide) reported)
  · exact driveTarget_plain _ link

theorem checkSink_plain (net : NamedNet) (check : TopologyCheck) (sink : PortRef) :
    AddsPlain check (checkSink definition missing net check sink) := by
  unfold checkSink
  split
  · rename_i found reported
    exact .report check (plain_of_checkEndpoint (by decide) reported)
  · exact claimInput_plain check sink _

theorem checkNet_plain (check : TopologyCheck) (net : NamedNet) :
    AddsPlain check (checkNet definition missing check net) := by
  unfold checkNet
  dsimp only
  refine AddsPlain.trans ?_ (.foldl (checkSink_plain net) net.sinks _)
  split
  · rename_i found reported
    exact .report check (plain_of_checkEndpoint (by decide) reported)
  · exact .refl check

theorem checkSelector_plain {selector : SelectorData}
    (listed : found ∈ checkSelector definition selector) : found.code ∉ cycleCodes := by
  unfold checkSelector at listed
  cases mem_append.mp listed with
  | inl repeated =>
    obtain ⟨_, _, rfl⟩ := List.mem_map.mp repeated
    exact plain_violation (by decide)
  | inr dangling =>
    split at dangling
    · split at dangling
      · cases dangling
      · rw [mem_singleton.mp dangling]
        exact plain_violation (by decide)
    · cases dangling

theorem checkGraphTopology_eq : ∃ added, checkGraphTopology definition missing =
        (checkLinks definition missing).diagnostics ++
          (walkReports definition (checkLinks definition missing)).map
            (cycleViolation definition) ++ added ∧ ∀ found ∈ added, found.code ∉ cycleCodes :=
  AddsPlain.foldl checkNet_plain definition.nets (checkCycles definition missing)

theorem checkLinks_plain (listed : found ∈ (checkLinks definition missing).diagnostics) :
    found.code ∉ cycleCodes := by
  obtain ⟨added, shape, plain⟩ := AddsPlain.foldl
    (@checkLink_plain definition missing) definition.links
    ⟨definition.selectors.flatMap (checkSelector definition), [], [], [], []⟩
  unfold checkLinks at listed
  rw [shape] at listed
  cases mem_append.mp listed with
  | inl before =>
    obtain ⟨_, _, found⟩ := mem_flatMap.mp before
    exact checkSelector_plain found
  | inr later => exact plain found later

theorem cycleViolation_code (vertex : Vertex) :
    (cycleViolation definition vertex).code ∈ cycleCodes := by
  cases vertex with
  | reroute _ => exact mem_cons_self
  | selector _ => exact mem_cons_of_mem _ mem_cons_self
  | tap _ _ => exact mem_cons_of_mem _ (mem_cons_of_mem _ mem_cons_self)

/-- A cycle is reported exactly when the search meets a vertex again. -/
theorem reportsCycle_iff : ReportsCycle definition missing ↔
      walkReports definition (checkLinks definition missing) ≠ [] := by
  obtain ⟨added, shape, plain⟩ := @checkGraphTopology_eq definition missing
  unfold ReportsCycle
  rw [shape]
  constructor
  · intro reported none
    obtain ⟨found, listed, about⟩ := reported
    rw [none, map_nil, append_nil] at listed
    cases mem_append.mp listed with
    | inl link => exact checkLinks_plain link about
    | inr net => exact plain found net about
  · intro filled
    obtain ⟨vertex, listed⟩ := exists_mem_of_ne_nil _ filled
    refine ⟨cycleViolation definition vertex, ?_, cycleViolation_code vertex⟩
    apply mem_append_left
    apply mem_append_right
    exact List.mem_map_of_mem listed

theorem reportsCycle_iff_looping :
    ReportsCycle definition missing ↔ ∃ vertex, ¬ Acc (Upstream definition) vertex := by
  rw [reportsCycle_iff, ne_eq, walkReports_eq_nil_iff, not_forall]

/-! ## A definition without errors -/

theorem AddsPlain.silent (adds : AddsPlain before after) (quiet : after.diagnostics = []) :
    before.diagnostics = [] := by
  obtain ⟨added, shape, _⟩ := adds
  rw [shape] at quiet
  exact (append_eq_nil_iff.mp quiet).1

theorem report_ne_nil (check : TopologyCheck) (found : Violation) :
    (check.report found).diagnostics ≠ [] := by
  simp [TopologyCheck.report]

theorem checkLink_silent (quiet : (checkLink definition missing check link).diagnostics = []) :
    (∀ id candidate, link.source ≠ .selector id (some candidate)) ∧
      ∃ what, checkEndpoint definition missing what "doc.link.dangling" link.target = none := by
  unfold checkLink at quiet
  dsimp only at quiet
  cases reached : checkEndpoint definition missing s!"link '{link.id}' target"
      "doc.link.dangling" link.target with
  | some found =>
    rw [reached] at quiet
    exact absurd quiet (report_ne_nil _ _)
  | none =>
    rw [reached] at quiet
    refine ⟨?_, _, reached⟩
    intro id candidate produces
    have before := (driveTarget_plain _ link).silent quiet
    unfold checkSource at before
    split at before
    · exact report_ne_nil _ _ before
    · rw [produces] at before
      exact report_ne_nil _ _ before

theorem foldl_checkLink_silent
    (quiet : (links.foldl (checkLink definition missing) check).diagnostics = []) :
    ∀ link ∈ links, (∀ id candidate, link.source ≠ .selector id (some candidate)) ∧
      ∃ what, checkEndpoint definition missing what "doc.link.dangling" link.target = none := by
  induction links generalizing check with
  | nil => exact fun _ listed => absurd listed not_mem_nil
  | cons link links ih =>
    intro other listed
    cases mem_cons.mp listed with
    | inl same =>
      rw [same]
      exact checkLink_silent
        ((AddsPlain.foldl (@checkLink_plain definition missing) links _).silent quiet)
    | inr later => exact ih quiet other later

def Claimed (check : TopologyCheck) : LinkEndpoint → Prop
  | .reroute id => (check.drivenReroutes.get id).isSome
  | .selector id (some candidate) =>
    (check.drivenSelectorCandidates.get (selectorCandidateKey id candidate)).isSome
  | .port ref => (check.drivenInputs.get (portRefKey ref)).isSome
  | _ => False

/-- The endpoints whose drivers were noted on the way from one state of the check to
another. -/
structure Claims (endpoints : List LinkEndpoint) (before after : TopologyCheck) : Prop where
  distinct : endpoints.Nodup
  fresh : ∀ endpoint ∈ endpoints, ¬ Claimed before endpoint
  claimed : ∀ endpoint ∈ endpoints, Claimed after endpoint
  kept : ∀ endpoint, Claimed before endpoint → Claimed after endpoint

theorem Claims.none (kept : ∀ endpoint, Claimed before endpoint → Claimed after endpoint) :
    Claims [] before after :=
  ⟨nodup_nil, by simp, by simp, kept⟩

theorem Claims.append {first second : List LinkEndpoint} {between : TopologyCheck}
    (left : Claims first before between) (right : Claims second between after) :
    Claims (first ++ second) before after := by
  constructor
  · apply nodup_append.mpr
    refine ⟨left.distinct, right.distinct, ?_⟩
    intro endpoint listed other later same
    exact right.fresh other later (same ▸ left.claimed endpoint listed)
  · intro endpoint listed
    cases mem_append.mp listed with
    | inl early => exact left.fresh endpoint early
    | inr late => exact fun taken => right.fresh endpoint late (left.kept endpoint taken)
  · intro endpoint listed
    cases mem_append.mp listed with
    | inl early => exact right.kept _ (left.claimed endpoint early)
    | inr late => exact right.claimed endpoint late
  · exact fun endpoint taken => right.kept endpoint (left.kept endpoint taken)

theorem Claims.foldl {Item : Type} {step : TopologyCheck → Item → TopologyCheck}
    {endpoints : Item → List LinkEndpoint} (plain : ∀ check item, AddsPlain check (step check item))
    (each : ∀ check item, (step check item).diagnostics = [] →
      Claims (endpoints item) check (step check item)) (items : List Item)
    (quiet : (items.foldl step check).diagnostics = []) :
    Claims (items.flatMap endpoints) check (items.foldl step check) := by
  induction items generalizing check with
  | nil => exact .none fun _ => id
  | cons item items ih =>
    have first := (AddsPlain.foldl plain items (step check item)).silent quiet
    exact (each check item first).append (ih quiet)

theorem Claims.single (fresh : ¬ Claimed before target)
    (noted : ∀ endpoint, Claimed after endpoint ↔ Claimed before endpoint ∨ endpoint = target) :
    Claims [target] before after := by
  constructor
  · exact nodup_singleton target
  · intro endpoint listed
    rw [mem_singleton.mp listed]
    exact fresh
  · intro endpoint listed
    exact (noted endpoint).mpr (.inr (mem_singleton.mp listed))
  · intro endpoint taken
    exact (noted endpoint).mpr (.inl taken)

theorem claimInput_claims {ref : PortRef} {driver : String}
    (quiet : (claimInput definition check ref driver).diagnostics = []) :
    Claims [.port ref] check (claimInput definition check ref driver) := by
  unfold claimInput at quiet ⊢
  cases taken : check.drivenInputs.get (portRefKey ref) with
  | some existing =>
    rw [taken] at quiet
    exact absurd quiet (report_ne_nil _ _)
  | none =>
    dsimp only
    apply Claims.single
    · simp [Claimed, taken]
    · intro endpoint
      cases endpoint with
      | port other =>
        simp only [Claimed, Table.get_set, portRefKey_eq_iff, LinkEndpoint.port.injEq]
        by_cases same : ref = other
        · simp [same]
        · simp [same, Ne.symm same]
      | reroute _ | valueSource _ | tap _ _ => simp [Claimed]
      | selector _ candidate => cases candidate <;> simp [Claimed]

theorem driveTarget_claims (quiet : (driveTarget definition check link).diagnostics = []) :
    Claims [link.target] check (driveTarget definition check link) := by
  unfold driveTarget at quiet ⊢
  cases drives : link.target with
  | valueSource _ | tap _ _ =>
    rw [drives] at quiet
    exact absurd quiet (report_ne_nil _ _)
  | port ref =>
    rw [drives] at quiet
    exact claimInput_claims quiet
  | reroute id =>
    rw [drives] at quiet
    dsimp only at quiet ⊢
    cases taken : check.drivenReroutes.get id with
    | some existing =>
      rw [taken] at quiet
      exact absurd quiet (report_ne_nil _ _)
    | none =>
      dsimp only
      apply Claims.single
      · simp [Claimed, taken]
      · intro endpoint
        cases endpoint with
        | reroute other =>
          simp only [Claimed, Table.get_set, LinkEndpoint.reroute.injEq]
          by_cases same : id = other
          · simp [same]
          · simp [same, Ne.symm same]
        | port _ | valueSource _ | tap _ _ => simp [Claimed]
        | selector _ candidate => cases candidate <;> simp [Claimed]
  | selector id candidate =>
    rw [drives] at quiet
    cases candidate with
    | none => exact absurd quiet (report_ne_nil _ _)
    | some candidate =>
      dsimp only at quiet ⊢
      cases taken : check.drivenSelectorCandidates.get
          (selectorCandidateKey id candidate) with
      | some existing =>
        rw [taken] at quiet
        exact absurd quiet (report_ne_nil _ _)
      | none =>
        dsimp only
        apply Claims.single
        · simp [Claimed, taken]
        · intro endpoint
          cases endpoint with
          | selector other choice =>
            cases choice with
            | none => simp [Claimed]
            | some choice =>
              simp only [Claimed, Table.get_set, selectorCandidateKey_eq_iff,
                LinkEndpoint.selector.injEq, some.injEq]
              by_cases same : id = other ∧ candidate = choice
              · simp [same.1, same.2]
              · have apart : ¬ (other = id ∧ choice = candidate) :=
                  fun equal => same ⟨equal.1.symm, equal.2.symm⟩
                simp [same, apart]
          | port _ | reroute _ | valueSource _ | tap _ _ => simp [Claimed]

theorem claimed_of_same (same : SameNotes before after)
    (inputs : after.drivenInputs = before.drivenInputs) (endpoint : LinkEndpoint)
    (taken : Claimed before endpoint) : Claimed after endpoint := by
  cases endpoint with
  | port _ =>
    unfold Claimed
    rw [inputs]
    exact taken
  | reroute _ =>
    unfold Claimed
    rw [same.reroutes]
    exact taken
  | valueSource _ | tap _ _ => exact taken
  | selector _ candidate =>
    cases candidate with
    | none => exact taken
    | some _ =>
      unfold Claimed
      rw [same.candidates]
      exact taken

theorem checkLink_claims (quiet : (checkLink definition missing check link).diagnostics = []) :
    Claims [link.target] check (checkLink definition missing check link) := by
  have source : Claims [] check (checkSource definition missing check link) := by
    apply Claims.none
    apply claimed_of_same (checkSource_same check link)
    unfold checkSource
    split
    · rfl
    · split <;> rfl
  unfold checkLink at quiet ⊢
  dsimp only at quiet ⊢
  split at quiet
  · exact absurd quiet (report_ne_nil _ _)
  · exact source.append (driveTarget_claims quiet)

theorem checkSink_claims {net : NamedNet} {sink : PortRef}
    (quiet : (checkSink definition missing net check sink).diagnostics = []) :
    Claims [.port sink] check (checkSink definition missing net check sink) := by
  unfold checkSink at quiet ⊢
  split at quiet
  · exact absurd quiet (report_ne_nil _ _)
  · exact claimInput_claims quiet

theorem checkNet_claims {net : NamedNet}
    (quiet : (checkNet definition missing check net).diagnostics = []) :
    Claims (net.sinks.flatMap fun sink => [.port sink]) check
      (checkNet definition missing check net) := by
  unfold checkNet at quiet ⊢
  dsimp only at quiet ⊢
  refine Claims.append (?_ : Claims [] check _)
    (.foldl (checkSink_plain net) (fun _ _ quiet => checkSink_claims quiet) net.sinks quiet)
  split
  · exact .none (claimed_of_same ⟨rfl, rfl, rfl⟩ rfl)
  · exact .none fun _ => id

/-- Every reroute, candidate and input has one driver at most. -/
def SingleDriven (definition : GraphDef) : Prop :=
  (definition.links.map (·.target) ++
    (netSinks definition).map fun delivery => LinkEndpoint.port delivery.1).Nodup

/-- A definition the check finds nothing wrong with. -/
def Clean (definition : GraphDef) (missing : PortRef → Bool) : Prop :=
  checkGraphTopology definition missing = []

namespace Clean

section

variable (clean : Clean definition missing)

include clean

theorem silent : (checkLinks definition missing).diagnostics = [] ∧
      walkReports definition (checkLinks definition missing) = [] := by
  obtain ⟨added, shape, _⟩ := @checkGraphTopology_eq definition missing
  have parts := append_eq_nil_iff.mp (shape.symm.trans clean)
  have parts := append_eq_nil_iff.mp parts.1
  exact ⟨parts.1, map_eq_nil_iff.mp parts.2⟩

theorem wired : Wired definition := by
  have links := foldl_checkLink_silent clean.silent.1
  constructor
  · intro link listed
    exact (links link listed).1
  · intro link listed stop drives
    obtain ⟨what, reached⟩ := (links link listed).2
    rw [drives] at reached
    cases stop with
    | reroute id => exact checkEndpoint_reroute.mp reached
    | candidate id choice => exact checkEndpoint_candidate.mp reached
    | tap _ _ => trivial

/-- Nothing depends on itself. -/
theorem safe (vertex : Vertex) : Acc (Upstream definition) vertex :=
  walkReports_eq_nil_iff.mp clean.silent.2 vertex

theorem singleDriven : SingleDriven definition := by
  have links : Claims (definition.links.flatMap fun link => [link.target]) _
      (checkLinks definition missing) :=
    .foldl checkLink_plain (fun _ _ quiet => checkLink_claims quiet) definition.links
      clean.silent.1
  have walked : Claims [] (checkLinks definition missing) (checkCycles definition missing) :=
    .none (claimed_of_same ⟨rfl, rfl, rfl⟩ rfl)
  have nets : Claims (definition.nets.flatMap fun net => net.sinks.flatMap fun sink =>
      [LinkEndpoint.port sink]) (checkCycles definition missing) _ :=
    .foldl checkNet_plain (fun _ _ quiet => checkNet_claims quiet) definition.nets clean
  have distinct := (links.append (walked.append nets)).distinct
  unfold SingleDriven netSinks
  rw [map_flatMap]
  simpa only [List.map_map, Function.comp_def, flatMap_singleton', nil_append,
    ← map_eq_flatMap] using distinct

/-- Links drive different endpoints. -/
theorem distinctTargets : (definition.links.map (·.target)).Nodup :=
  (nodup_append.mp clean.singleDriven).1

/-- Every input is a sink of one net at most. -/
theorem oneNetSource : OneNetSource definition := by
  have sinks := (nodup_append.mp clean.singleDriven).2.1
  intro first left second right same
  have equal := inj_on_of_nodup_map sinks left right (congrArg LinkEndpoint.port same)
  rw [equal]

end

end Clean

/-! ## The check against the traces -/

/-- A reported cycle is always found by some trace.  When links leave no candidate and what
they drive exists, a cycle that some trace finds is reported, and a definition without
errors has no cyclic trace at all, whatever is chosen. -/
theorem reportsCycle_iff_tracesCycle (definition : GraphDef) (missing : PortRef → Bool)
    (index : Option RerouteIndex) (indexes : Indexes definition index) :
    (ReportsCycle definition missing → TracesCycle definition index) ∧
      (Wired definition → TracesCycle definition index → ReportsCycle definition missing) ∧
        (Clean definition missing → ∀ start selection, ∃ trace,
          traceEndpoint definition start index selection = some trace ∧ trace.cyclic = false) := by
  refine ⟨?_, ?_, ?_⟩
  · intro reported
    obtain ⟨vertex, looping⟩ := reportsCycle_iff_looping.mp reported
    exact tracesCycle_of_looping indexes looping
  · intro wired cyclic
    exact reportsCycle_iff_looping.mpr (looping_of_tracesCycle indexes wired cyclic)
  · intro clean start selection
    obtain ⟨trace, traced⟩ := @traceEndpoint_total definition index selection indexes start
    exact ⟨trace, traced, traceEndpoint_acyclic indexes clean.wired clean.safe traced⟩

/-- A selector one candidate of which comes from its own output through a reroute. -/
def selfFed : GraphDef where
  id := "g"
  nodes := []
  links := [⟨"l1", .selector "s1" none, .reroute "r1"⟩,
    ⟨"l2", .reroute "r1", .selector "s1" (some "b")⟩]
  nets := []
  reroutes := ["r1"]
  selectors := [⟨"s1", ["a", "b"], .fixed "a"⟩]
  valueSources := []
  boundary := none

/-- A reroute whose only driver comes from nowhere. -/
def loneReroute : GraphDef where
  id := "g"
  nodes := []
  links := []
  nets := []
  reroutes := ["r1"]
  selectors := []
  valueSources := []
  boundary := none

theorem selfFed_wired : Wired selfFed := by
  constructor
  · intro link listed id candidate
    cases mem_cons.mp listed with
    | inl first => simp [first]
    | inr second => simp [mem_singleton.mp second]
  · intro link listed stop drives
    cases mem_cons.mp listed with
    | inl first =>
      rw [first] at drives
      cases stop with
      | reroute id =>
        cases drives
        exact mem_cons_self
      | candidate _ _ | tap _ _ => cases drives
    | inr second =>
      rw [mem_singleton.mp second] at drives
      cases stop with
      | reroute _ | tap _ _ => cases drives
      | candidate _ _ =>
        cases drives
        exact ⟨_, rfl, by decide⟩

theorem selfFed_tracesCycle : TracesCycle selfFed none := by
  refine ⟨[("s1", "b")], ?_, .reroute "r1", by decide, .cycle "r1", by decide +kernel, rfl⟩
  intro id selector named _
  have same : selector = ⟨"s1", ["a", "b"], .fixed "a"⟩ := by
    simpa [selfFed] using mem_of_find?_eq_some named
  have key : selector.id = id := by simpa using find?_some named
  subst same
  rw [← key]
  exact ⟨"b", by decide, by decide⟩

theorem reportsCycle_iff_tracesCycle_selfFed : ReportsCycle selfFed (fun _ => false) ∧
      ∃ trace, traceEndpoint loneReroute (.reroute "r1") none none = some trace ∧
        trace.cyclic = false :=
  ⟨(reportsCycle_iff_tracesCycle selfFed (fun _ => false) none trivial).2.1 selfFed_wired
      selfFed_tracesCycle,
    (reportsCycle_iff_tracesCycle loneReroute (fun _ => false) none trivial).2.2
      (by unfold Clean; decide +kernel) _ _⟩

/-- A link that leaves and enters a reroute the definition does not have. -/
def strayLoop : GraphDef where
  id := "g"
  nodes := []
  links := [⟨"l1", .reroute "r1", .reroute "r1"⟩]
  nets := []
  reroutes := []
  selectors := []
  valueSources := []
  boundary := none

/-- A cycle through a reroute that does not exist is traced and reported as dangling only. -/
theorem strayLoop_unreported : SingleDriven strayLoop ∧ TracesCycle strayLoop none ∧
      ¬ ReportsCycle strayLoop (fun _ => false) := by
  refine ⟨by unfold SingleDriven; decide, ?_, ?_⟩
  · refine ⟨[], ?_, .reroute "r1", by decide, .cycle "r1", by decide +kernel, rfl⟩
    intro id selector named
    cases named
  · intro reported
    obtain ⟨found, listed, about⟩ := reported
    have plain : ∀ found ∈ checkGraphTopology strayLoop (fun _ => false),
        found.code ∉ cycleCodes := by decide +kernel
    exact plain found listed about

end Dinkster.Junction
