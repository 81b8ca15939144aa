import Dinkster.Junction.Connect

/-!
# Which loops a connection is rejected for

Replacing the driver of an endpoint closes a loop exactly when what the endpoint belongs to
lies above the new source.  The walk into a junction sees such a path when it meets no tap,
the trace out of a tap sees it when it meets no selector, and nothing else is looked at.
-/

namespace Dinkster.Junction

open Format Library Relation List Option

variable {definition : GraphDef} {missing : PortRef → Bool}

variable {links : List LinkData}

theorem find?_of_distinct (distinct : (links.map (·.target)).Nodup) {link : LinkData}
    (listed : link ∈ links) :
    (links.find? fun other => other.target = link.target) = some link := by
  cases found : links.find? fun other => other.target = link.target with
  | none =>
    have missed := List.find?_eq_none.mp found link listed
    simp at missed
  | some other =>
    have same : other.target = link.target := by simpa using find?_some found
    rw [inj_on_of_nodup_map distinct (mem_of_find?_eq_some found) listed same]

/-- When links drive different endpoints, every link into a stop is its driver. -/
theorem upstream_iff (distinct : (definition.links.map (·.target)).Nodup) {source target : Vertex} :
    Upstream definition source target ↔
      ∃ stop, ∃ link ∈ definition.links, Stop.vertex stop = target ∧
        Stop.Known definition stop ∧ link.target = stop.target ∧
          follow link.source = some source := by
  constructor
  · intro edge
    obtain ⟨stop, driver, same, known, found, left⟩ := edge
    have driven := driverInto_eq found
    exact ⟨stop, driver, driven.1, same, known, driven.2, left⟩
  · intro edge
    obtain ⟨stop, link, listed, same, known, drives, left⟩ := edge
    refine ⟨stop, link, same, known, ?_, left⟩
    rw [← drives]
    exact find?_of_distinct distinct listed

theorem distinct_replaced {kept : LinkData → Bool} {new : LinkData}
    (distinct : (links.map (·.target)).Nodup)
    (spared : ∀ link, kept link = true → link.target ≠ new.target) :
    ((links.filter kept ++ [new]).map (·.target)).Nodup := by
  rw [map_append]
  apply nodup_append.mpr
  refine ⟨distinct.sublist ((filter_sublist).map _), nodup_singleton _, ?_⟩
  intro endpoint listed other single same
  obtain ⟨link, kept, rfl⟩ := List.mem_map.mp listed
  rw [map_singleton, mem_singleton] at single
  exact spared link (mem_filter.mp kept).2 (same.trans single)

/-- What a target that passes its check belongs to exists. -/
theorem known_of_endpointError {graphId what : String} {output : Bool} {target : LinkEndpoint}
    (passed : endpointError definition graphId output what target = none) {stop : Stop}
    (same : stop.target = target) : stop.Known definition := by
  subst same
  cases stop with
  | reroute id =>
    rw [Stop.target] at passed
    unfold endpointError at passed
    split at passed <;> simp_all [Stop.Known]
  | candidate id choice =>
    dsimp only [Stop.target, endpointError] at passed
    cases named : definition.selector? id with
    | none =>
      rw [named] at passed
      cases passed
    | some selector =>
      rw [named] at passed
      dsimp only at passed
      split at passed
      · exact ⟨selector, named, by assumption⟩
      · cases passed
  | tap _ _ => trivial

section Replace

variable {id : String} {source target : LinkEndpoint}

/-- A dependency of the edited definition is one of the old definition, or the new link. -/
theorem upstream_replaceDriver (distinct : (definition.links.map (·.target)).Nodup)
    {first second : Vertex} : Upstream (replaceDriver definition id source target) first second ↔
      (∃ stop, ∃ link ∈ definition.links, Stop.vertex stop = second ∧
        Stop.Known definition stop ∧ link.target = stop.target ∧ link.target ≠ target ∧
          follow link.source = some first) ∨
        ∃ stop, Stop.vertex stop = second ∧ Stop.Known definition stop ∧
          stop.target = target ∧ follow source = some first := by
  have replaced : ((replaceDriver definition id source target).links.map (·.target)).Nodup :=
    distinct_replaced distinct (by simp)
  rw [upstream_iff replaced]
  constructor
  · intro edge
    obtain ⟨stop, link, listed, same, known, drives, left⟩ := edge
    have known : Stop.Known definition stop := by
      cases stop <;> exact known
    cases mem_append.mp listed with
    | inl old =>
      have kept := mem_filter.mp old
      exact .inl ⟨stop, link, kept.1, same, known, drives, by simpa using kept.2, left⟩
    | inr new =>
      have new := mem_singleton.mp new
      subst new
      exact .inr ⟨stop, same, known, drives.symm, left⟩
  · intro edge
    have lift : ∀ stop, Stop.Known definition stop →
        Stop.Known (replaceDriver definition id source target) stop := by
      intro stop known
      cases stop <;> exact known
    cases edge with
    | inl old =>
      obtain ⟨stop, link, listed, same, known, drives, other, left⟩ := old
      refine ⟨stop, link, mem_append_left _ ?_, same, lift stop known, drives, left⟩
      exact mem_filter.mpr ⟨listed, by simpa using other⟩
    | inr new =>
      obtain ⟨stop, same, known, drives, left⟩ := new
      exact ⟨stop, ⟨id, source, target⟩, mem_append_right _ (mem_singleton_self _),
        same, lift stop known, drives.symm, left⟩

/-- A new driver closes a loop exactly when what it drives lies above its source. -/
theorem reportsCycle_replaceDriver (clean : Clean definition missing)
    (known : ∀ stop, Stop.target stop = target → Stop.Known definition stop) :
    ReportsCycle (replaceDriver definition id source target) missing ↔
      ∃ stop vertex, Stop.target stop = target ∧ follow source = some vertex ∧
        ReflTransGen (Upstream definition) stop.vertex vertex := by
  have distinct := clean.distinctTargets
  rw [reportsCycle_iff_looping]
  constructor
  · intro looping
    by_contra open_
    obtain ⟨vertex, looping⟩ := looping
    apply looping
    -- without such a path the new link makes nothing depend on itself
    by_cases closing : ∃ stop, Stop.target stop = target ∧ (follow source).isSome
    · obtain ⟨stop, drives, leads⟩ := closing
      obtain ⟨origin, leads⟩ := Option.isSome_iff_exists.mp leads
      refine @acc_of_edge _ (Upstream definition) _ origin stop.vertex ?_ clean.safe ?_ vertex
      · intro first second edge
        cases (upstream_replaceDriver distinct).mp edge with
        | inl old =>
          obtain ⟨other, link, listed, same, there, drives, _, left⟩ := old
          exact .inl ((upstream_iff distinct).mpr ⟨other, link, listed, same, there, drives, left⟩)
        | inr new =>
          obtain ⟨other, same, _, hits, left⟩ := new
          have equal := Stop.target_injective (hits.trans drives.symm)
          subst equal
          exact .inr ⟨some.inj (left.symm.trans leads), same.symm⟩
      · intro path
        exact open_ ⟨stop, origin, drives, leads, path⟩
    · refine Subrelation.accessible ?_ (clean.safe vertex)
      intro first second edge
      cases (upstream_replaceDriver distinct).mp edge with
      | inl old =>
        obtain ⟨other, link, listed, same, there, drives, _, left⟩ := old
        exact (upstream_iff distinct).mpr ⟨other, link, listed, same, there, drives, left⟩
      | inr new =>
        obtain ⟨other, _, _, hits, left⟩ := new
        exact absurd ⟨other, hits, by rw [left]; rfl⟩ closing
  · intro closed
    obtain ⟨stop, vertex, drives, leads, path⟩ := closed
    refine ⟨stop.vertex, fun safe => not_transGen_of_acc safe ?_⟩
    have edge : Upstream (replaceDriver definition id source target) vertex stop.vertex :=
      (upstream_replaceDriver distinct).mpr (.inr ⟨stop, rfl, known stop drives, drives, leads⟩)
    apply TransGen.tail' _ edge
    refine path_avoiding ?_ path
    intro first second old other
    obtain ⟨stop', link, listed, same, there, hits, left⟩ := (upstream_iff distinct).mp old
    refine (upstream_replaceDriver distinct).mpr
      (.inl ⟨stop', link, listed, same, there, hits, ?_, left⟩)
    intro replaced
    have equal := Stop.target_injective (hits.symm.trans (replaced.trans drives.symm))
    exact other (same ▸ equal ▸ rfl)

end Replace

/-- The kinds of vertices. -/
def Vertex.isTap : Vertex → Bool
  | .tap _ _ => true
  | _ => false

def Vertex.isSelector : Vertex → Bool
  | .selector _ => true
  | _ => false

/-- The dependencies of the vertices of some kind. -/
def Beside (definition : GraphDef) (kind : Vertex → Prop) (source target : Vertex) : Prop :=
  Upstream definition source target ∧ kind target

/-- The paths that meet no tap before they end. -/
def PastJunctions (definition : GraphDef) : Vertex → Vertex → Prop :=
  ReflTransGen (Beside definition fun vertex => vertex.isTap = false)

/-- The definition without the link whose id the trial link of a tap takes. -/
def spared (definition : GraphDef) : GraphDef :=
  { definition with links := definition.links.filter fun link => link.id ≠ tapCycleLink }

/-- The paths that meet no selector before they end. -/
def PastTaps (definition : GraphDef) : Vertex → Vertex → Prop :=
  ReflTransGen (Beside (spared definition) fun vertex => vertex.isSelector = false)

def around : LinkEndpoint → Option Vertex
  | .reroute id => some (.reroute id)
  | .selector id _ => some (.selector id)
  | .tap node input => some (.tap node input)
  | _ => none

variable {endpoint source : LinkEndpoint}

variable {vertex : Vertex} {hits : LinkEndpoint → Bool} {id : String}

theorem follow_of_around (belongs : around endpoint = some vertex)
    (plain : ∀ id candidate, endpoint ≠ .selector id (some candidate)) :
    follow endpoint = some vertex := by
  cases endpoint with
  | port _ | valueSource _ => cases belongs
  | reroute _ | tap _ _ => exact belongs
  | selector id candidate =>
    cases candidate with
    | none => exact belongs
    | some candidate => exact absurd rfl (plain id candidate)

/-! ## The walk into a junction -/

theorem mem_upstreamNext {other : LinkEndpoint} : other ∈ upstreamNext definition endpoint ↔
      other ∈ traceNext definition none none endpoint := by
  unfold upstreamNext traceNext
  rw [mem_reverse, mem_reverse]
  cases endpoint with
  | port _ | valueSource _ | reroute _ | tap _ _ => exact Iff.rfl
  | selector id candidate =>
    cases candidate with
    | some _ => exact Iff.rfl
    | none => exact mem_reverse

theorem pushes_of_passed (passed : isJunction endpoint = false) :
    upstreamPushes definition endpoint = [] := by
  cases endpoint with
  | port _ | valueSource _ | tap _ _ => rfl
  | reroute _ | selector _ _ => cases passed

/-- The loop is a worklist that is left at the first hit. -/
theorem upstreamLoop_eq : ∀ (turns : Nat) (stack visited seen : List LinkEndpoint),
      (∀ endpoint, isJunction endpoint = true → (endpoint ∈ visited ↔ endpoint ∈ seen)) →
      seen.any hits = false → upstreamLoop definition hits turns stack visited =
          (drain (upstreamNext definition) turns stack seen).any hits
  | 0, _, _, _, _, missed | _ + 1, [], _, _, _, missed => missed.symm
  | turns + 1, current :: stack, visited, seen, same, missed => by
    unfold upstreamLoop drain
    by_cases hit : hits current = true
    · have fresh : current ∉ seen := by
        intro met
        have found := List.any_eq_true.mpr ⟨current, met, hit⟩
        rw [missed] at found
        cases found
      rw [if_pos hit, if_neg fresh]
      symm
      apply List.any_eq_true.mpr
      refine ⟨current, mem_drain_of_seen turns _ ?_, hit⟩
      exact mem_append_right _ (mem_singleton_self _)
    have missed' : (seen ++ [current]).any hits = false := by
      simpa [any_append, missed] using hit
    rw [if_neg hit]
    cases junction : isJunction current with
    | true =>
      have known := same current junction
      by_cases met : current ∈ seen
      · rw [if_pos (by simp [known.mpr met]), if_pos met]
        exact upstreamLoop_eq turns stack visited seen same missed
      · rw [if_neg (by simp [mt known.mp met]), if_neg met]
        unfold upstreamNext
        rw [reverse_reverse, if_pos rfl]
        apply upstreamLoop_eq turns _ _ _ _ missed'
        intro endpoint marks
        rw [mem_cons, mem_append, mem_singleton, same endpoint marks]
        exact Or.comm
    | false =>
      have none : upstreamNext definition current = [] := by
        unfold upstreamNext
        rw [pushes_of_passed junction, reverse_nil]
      rw [if_neg (by simp), pushes_of_passed junction, nil_append, none,
        reverse_nil, nil_append, if_neg (by simp)]
      by_cases met : current ∈ seen
      · rw [if_pos met]
        exact upstreamLoop_eq turns stack visited seen same missed
      · rw [if_neg met]
        apply upstreamLoop_eq turns stack visited (seen ++ [current]) _ missed'
        intro endpoint marks
        rw [mem_append, mem_singleton, same endpoint marks]
        constructor
        · exact .inl
        · intro listed
          cases listed with
          | inl older => exact older
          | inr new =>
            rw [new, junction] at marks
            cases marks

theorem upstreamHitsJunction_iff (one : OneNetSource definition) :
    upstreamHitsJunction definition source hits = true ↔
      ∃ endpoint, Reaches (traceNext definition none none) [source] endpoint ∧
        hits endpoint = true := by
  have listed : ∀ endpoint, upstreamNext definition endpoint ≠ [] →
      endpoint ∈ traceNodes definition none := by
    intro endpoint filled
    obtain ⟨other, inside⟩ := exists_mem_of_ne_nil _ filled
    exact @mem_traceNodes definition none none trivial one endpoint
      (ne_nil_of_mem (mem_upstreamNext.mp inside))
  have walk : ∀ endpoint, endpoint ∈ drain (upstreamNext definition)
          (1 + owed (upstreamNext definition) [] (traceNodes definition none)) [source] [] ↔
        Reaches (traceNext definition none none) [source] endpoint := by
    intro endpoint
    have enough : workLeft (upstreamNext definition) (traceNodes definition none) [source] [] ≤
        1 + owed (upstreamNext definition) [] (traceNodes definition none) := Nat.le_refl _
    rw [mem_drain_iff listed enough]
    constructor
    · intro reached
      exact reached.mono (fun _ _ inside => mem_upstreamNext.mp inside) fun _ => id
    · intro reached
      exact reached.mono (fun _ _ inside => mem_upstreamNext.mpr inside) fun _ => id
  unfold upstreamHitsJunction
  rw [upstreamLoop_eq _ [source] [] [] (by simp) rfl, List.any_eq_true]
  exact exists_congr fun endpoint => and_congr_left fun _ => walk endpoint

/-- What the walk meets belongs to what lies above, past junctions only. -/
theorem path_of_reaches (wired : Wired definition)
    (plain : ∀ id candidate, source ≠ .selector id (some candidate))
    (reached : Reaches (traceNext definition none none) [source] endpoint) :
    ∀ vertex, around endpoint = some vertex →
      ∃ origin, follow source = some origin ∧ PastJunctions definition vertex origin := by
  apply reached.induct
  · intro start listed vertex belongs
    rw [mem_singleton.mp listed] at belongs
    exact ⟨vertex, follow_of_around belongs plain, .refl⟩
  · intro current _ ih next listed vertex belongs
    have listed := mem_reverse.mp listed
    -- a junction is left by the link that drives it
    have leave : ∀ stop driver, driverInto definition (Stop.target stop) = some driver →
        next = driver.source → stop.vertex.isTap = false →
          around current = some stop.vertex →
            ∃ origin, follow source = some origin ∧ PastJunctions definition vertex origin := by
      intro stop driver found same junction here
      have driven := driverInto_eq found
      obtain ⟨origin, leads, path⟩ := ih stop.vertex here
      refine ⟨origin, leads, .head ⟨?_, junction⟩ path⟩
      refine ⟨stop, driver, rfl, wired.known driver driven.1 stop driven.2, found, ?_⟩
      apply follow_of_around (same ▸ belongs)
      exact wired.produces driver driven.1
    cases current with
    | port _ | valueSource _ | tap _ _ => exact absurd listed not_mem_nil
    | reroute id =>
      obtain ⟨driver, found, same⟩ := List.mem_map.mp listed
      exact leave (.reroute id) driver (mem_toList.mp found) same.symm rfl rfl
    | selector id candidate =>
      cases candidate with
      | some candidate =>
        obtain ⟨driver, found, same⟩ := List.mem_map.mp listed
        exact leave (.candidate id candidate) driver (mem_toList.mp found) same.symm rfl rfl
      | none =>
        -- a candidate belongs to the selector it is entered from
        rw [tracePushes, bind_none] at listed
        obtain ⟨candidate, _, same⟩ := List.mem_map.mp listed
        subst same
        exact ih vertex belongs

theorem eq_reroute_of_follow (here : follow endpoint = some (.reroute id)) :
    endpoint = .reroute id := by
  cases endpoint with
  | reroute _ => exact congrArg _ (Vertex.reroute.inj (some.inj here))
  | selector _ candidate => cases candidate <;> cases here
  | _ => cases here

theorem eq_selector_of_follow (here : follow endpoint = some (.selector id)) :
    endpoint = .selector id none := by
  cases endpoint with
  | selector _ candidate =>
    cases candidate with
    | none => exact congrArg (LinkEndpoint.selector · none) (Vertex.selector.inj (some.inj here))
    | some _ => cases here
  | _ => cases here

/-- What lies above past junctions only is met by the walk. -/
theorem reaches_of_path {origin : Vertex} (leads : follow source = some origin)
    (path : PastJunctions definition vertex origin) :
    ∃ endpoint, Reaches (traceNext definition none none) [source] endpoint ∧
      follow endpoint = some vertex := by
  induction path using ReflTransGen.head_induction_on with
  | refl => exact ⟨source, .start mem_cons_self, leads⟩
  | head edge _ ih =>
    obtain ⟨endpoint, reached, here⟩ := ih
    obtain ⟨⟨stop, driver, same, known, found, left⟩, junction⟩ := edge
    refine ⟨driver.source, ?_, left⟩
    cases stop with
    | tap _ _ =>
      subst same
      cases junction
    | reroute id =>
      subst same
      obtain rfl := eq_reroute_of_follow here
      apply reached.step
      apply mem_reverse.mpr
      exact List.mem_map.mpr ⟨driver, mem_toList.mpr found, rfl⟩
    | candidate id choice =>
      subst same
      obtain rfl := eq_selector_of_follow here
      obtain ⟨selector, named, inside⟩ := known
      have entered : Reaches (traceNext definition none none) [source]
          (.selector id (some choice)) := by
        apply reached.step
        apply mem_reverse.mpr
        rw [tracePushes, bind_none, named]
        exact List.mem_map_of_mem inside
      apply entered.step
      apply mem_reverse.mpr
      exact List.mem_map.mpr ⟨driver, mem_toList.mpr found, rfl⟩

theorem upstreamHitsJunction_iff_path (clean : Clean definition missing)
    (plain : ∀ id candidate, source ≠ .selector id (some candidate))
    (around : ∀ endpoint, hits endpoint = true → around endpoint = some vertex)
    (hit : ∀ endpoint, follow endpoint = some vertex → hits endpoint = true) :
    upstreamHitsJunction definition source hits = true ↔
      ∃ origin, follow source = some origin ∧ PastJunctions definition vertex origin := by
  rw [upstreamHitsJunction_iff clean.oneNetSource]
  constructor
  · rintro ⟨endpoint, reached, met⟩
    exact path_of_reaches clean.wired plain reached _ (around endpoint met)
  · rintro ⟨origin, leads, path⟩
    obtain ⟨endpoint, reached, here⟩ := reaches_of_path leads path
    exact ⟨endpoint, reached, hit endpoint here⟩

theorem wouldCreateRerouteCycle_iff (clean : Clean definition missing)
    (plain : ∀ id candidate, source ≠ .selector id (some candidate)) :
    wouldCreateRerouteCycle definition source id = true ↔
      ∃ origin, follow source = some origin ∧ PastJunctions definition (.reroute id) origin := by
  refine upstreamHitsJunction_iff_path clean plain (fun endpoint met => ?_) fun endpoint here => ?_
  · cases endpoint with
    | reroute other => exact congrArg (some ∘ Vertex.reroute) (of_decide_eq_true met)
    | _ => cases met
  · rw [eq_reroute_of_follow here]
    exact decide_eq_true rfl

theorem wouldCreateSelectorCycle_iff (clean : Clean definition missing)
    (plain : ∀ id candidate, source ≠ .selector id (some candidate)) :
    wouldCreateSelectorCycle definition source id = true ↔
      ∃ origin, follow source = some origin ∧ PastJunctions definition (.selector id) origin := by
  refine upstreamHitsJunction_iff_path clean plain (fun endpoint met => ?_) fun endpoint here => ?_
  · cases endpoint with
    | selector other _ => exact congrArg (some ∘ Vertex.selector) (of_decide_eq_true met)
    | _ => cases met
  · rw [eq_selector_of_follow here]
    exact decide_eq_true rfl

/-! ## The trace out of a tap -/

section Tap

variable {node input : String} {target : LinkEndpoint}

theorem tapTrial_distinct (distinct : (definition.links.map (·.target)).Nodup)
    (source : LinkEndpoint) : ((tapTrial definition source target).links.map (·.target)).Nodup := by
  apply distinct_replaced distinct
  intro link kept
  have both : link.target ≠ target ∧ link.id ≠ tapCycleLink := by simpa using kept
  exact both.1

theorem spared_distinct (distinct : (definition.links.map (·.target)).Nodup) :
    ((spared definition).links.map (·.target)).Nodup :=
  distinct.sublist ((filter_sublist).map _)

variable {stop : Stop} {source : LinkEndpoint}

theorem known_spared : Stop.Known (spared definition) stop ↔ Stop.Known definition stop := by
  cases stop <;> exact Iff.rfl

theorem known_tapTrial :
    Stop.Known (tapTrial definition source target) stop ↔ Stop.Known definition stop := by
  cases stop <;> exact Iff.rfl

theorem upstream_tapTrial (distinct : (definition.links.map (·.target)).Nodup)
    {first second : Vertex} : Upstream (tapTrial definition source target) first second ↔
      (∃ stop, ∃ link ∈ (spared definition).links, Stop.vertex stop = second ∧
        Stop.Known (spared definition) stop ∧ link.target = stop.target ∧
          link.target ≠ target ∧ follow link.source = some first) ∨
        ∃ stop, Stop.vertex stop = second ∧ Stop.Known definition stop ∧
          stop.target = target ∧ follow source = some first := by
  rw [upstream_iff (tapTrial_distinct distinct source)]
  constructor
  · intro edge
    obtain ⟨stop, link, listed, same, known, drives, left⟩ := edge
    cases mem_append.mp listed with
    | inl old =>
      have kept := mem_filter.mp old
      have both : link.target ≠ target ∧ link.id ≠ tapCycleLink := by simpa using kept.2
      refine .inl ⟨stop, link, ?_, same, ?_, drives, both.1, left⟩
      · exact mem_filter.mpr ⟨kept.1, by simpa using both.2⟩
      · exact known_spared.mpr (known_tapTrial.mp known)
    | inr new =>
      have new := mem_singleton.mp new
      subst new
      exact .inr ⟨stop, same, known_tapTrial.mp known, drives.symm, left⟩
  · intro edge
    cases edge with
    | inl old =>
      obtain ⟨stop, link, listed, same, known, drives, other, left⟩ := old
      have kept := mem_filter.mp listed
      refine ⟨stop, link, mem_append_left _ ?_, same,
        known_tapTrial.mpr (known_spared.mp known), drives, left⟩
      exact mem_filter.mpr ⟨kept.1, by simpa using ⟨other, by simpa using kept.2⟩⟩
    | inr new =>
      obtain ⟨stop, same, known, drives, left⟩ := new
      exact ⟨stop, _, mem_append_right _ (mem_singleton_self _), same,
        known_tapTrial.mpr known, drives.symm, left⟩

theorem beside_spared_safe (clean : Clean definition missing) (kind : Vertex → Prop)
    (vertex : Vertex) : Acc (Beside (spared definition) kind) vertex := by
  refine Subrelation.accessible ?_ (clean.safe vertex)
  intro first second edge
  obtain ⟨stop, link, listed, same, known, drives, left⟩ :=
    (upstream_iff (spared_distinct clean.distinctTargets)).mp edge.1
  exact (upstream_iff clean.distinctTargets).mpr
    ⟨stop, link, (mem_filter.mp listed).1, same, known_spared.mp known, drives, left⟩

/-- The dependencies the trace out of a tap follows. -/
def TrialStep (definition : GraphDef) (source target : LinkEndpoint) : Vertex → Vertex → Prop :=
  Beside (tapTrial definition source target) fun vertex => vertex.isSelector = false

theorem trialStep_cases (clean : Clean definition missing) {first second : Vertex}
    (edge : TrialStep definition source target first second) :
    Beside (spared definition) (fun vertex => vertex.isSelector = false) first second ∨
      ∃ stop, Stop.vertex stop = second ∧ stop.target = target ∧ follow source = some first ∧
        second.isSelector = false := by
  cases (upstream_tapTrial clean.distinctTargets).mp edge.1 with
  | inl old =>
    obtain ⟨stop, link, listed, same, known, drives, _, left⟩ := old
    refine .inl ⟨?_, edge.2⟩
    exact (upstream_iff (spared_distinct clean.distinctTargets)).mpr
      ⟨stop, link, listed, same, known, drives, left⟩
  | inr new =>
    obtain ⟨stop, same, _, drives, left⟩ := new
    exact .inr ⟨stop, same, drives, left, edge.2⟩

/-- When no path leads back past taps, the trial has no loop for the trace to follow. -/
theorem trialStep_safe (clean : Clean definition missing)
    (open_ : ¬ ∃ stop origin, Stop.target stop = target ∧ follow source = some origin ∧
      stop.vertex.isSelector = false ∧ PastTaps definition stop.vertex origin) (vertex : Vertex) :
    Acc (TrialStep definition source target) vertex := by
  by_cases closing : ∃ stop, Stop.target stop = target ∧ stop.vertex.isSelector = false ∧
      (follow source).isSome
  · obtain ⟨stop, drives, plain, leads⟩ := closing
    obtain ⟨origin, leads⟩ := Option.isSome_iff_exists.mp leads
    refine @acc_of_edge _ (Beside (spared definition) fun vertex => vertex.isSelector = false)
      _ origin stop.vertex ?_ (beside_spared_safe clean _) ?_ vertex
    · intro first second edge
      cases trialStep_cases clean edge with
      | inl old => exact .inl old
      | inr new =>
        obtain ⟨other, same, hits, left, _⟩ := new
        have equal := Stop.target_injective (hits.trans drives.symm)
        subst equal
        exact .inr ⟨some.inj (left.symm.trans leads), same.symm⟩
    · exact fun path => open_ ⟨stop, origin, drives, leads, plain, path⟩
  · refine Subrelation.accessible ?_
      (beside_spared_safe clean (fun vertex => vertex.isSelector = false) vertex)
    intro first second edge
    cases trialStep_cases clean edge with
    | inl old => exact old
    | inr new =>
      obtain ⟨stop, same, hits, left, plain⟩ := new
      exact absurd ⟨stop, hits, same ▸ plain, by rw [left]; rfl⟩ closing

theorem tapTrial_wired (clean : Clean definition missing)
    (known : ∀ stop, Stop.target stop = target → Stop.Known definition stop) :
    Wired (tapTrial definition (.tap node input) target) := by
  constructor
  · intro link listed id candidate
    cases mem_append.mp listed with
    | inl old => exact clean.wired.produces link (mem_filter.mp old).1 id candidate
    | inr new =>
      rw [mem_singleton.mp new]
      simp
  · intro link listed stop drives
    apply known_tapTrial.mpr
    cases mem_append.mp listed with
    | inl old => exact clean.wired.known link (mem_filter.mp old).1 stop drives
    | inr new =>
      rw [mem_singleton.mp new] at drives
      exact known stop drives.symm

variable {endpoint : LinkEndpoint} {trace : RerouteTrace}

/-- Without a choice a trace passes through reroutes and taps only. -/
theorem isSelector_of_stopAt {lastLink : Option LinkData}
    (sent : stopAt none lastLink endpoint = .ok stop)
    (plain : ∀ id candidate, endpoint ≠ .selector id (some candidate)) :
    stop.vertex.isSelector = false := by
  cases endpoint with
  | port _ | valueSource _ => cases sent
  | reroute _ | tap _ _ =>
    cases sent
    rfl
  | selector id candidate =>
    cases candidate with
    | none => cases sent
    | some candidate => exact absurd rfl (plain id candidate)

/-- Where a trace without a choice goes from a vertex that is no selector. -/
theorem stopAt_of_follow (leads : follow endpoint = some stop.vertex)
    (plain : stop.vertex.isSelector = false) (lastLink : Option LinkData) :
    stopAt none lastLink endpoint = .ok stop := by
  cases stop with
  | candidate _ _ => cases plain
  | reroute _ =>
    cases endpoint with
    | reroute _ =>
      cases leads
      rfl
    | port _ | valueSource _ | tap _ _ => cases leads
    | selector _ candidate => cases candidate <;> cases leads
  | tap _ _ =>
    cases endpoint with
    | tap _ _ =>
      cases leads
      rfl
    | port _ | valueSource _ | reroute _ => cases leads
    | selector _ candidate => cases candidate <;> cases leads

theorem trial_acyclic (clean : Clean definition missing)
    (known : ∀ stop, Stop.target stop = target → Stop.Known definition stop)
    (open_ : ¬ ∃ stop origin, Stop.target stop = target ∧
      follow (.tap node input) = some origin ∧ stop.vertex.isSelector = false ∧
        PastTaps definition stop.vertex origin)
    (traced : traceEndpoint (tapTrial definition (.tap node input) target) (.tap node input)
      (some (buildRerouteIndex (tapTrial definition (.tap node input) target))) none =
        some trace) : trace.cyclic = false := by
  have wired := @tapTrial_wired definition missing node input target clean known
  have safe := trialStep_safe clean open_
  refine @traceLoop_acyclic (tapTrial definition (.tap node input) target)
    (some (buildRerouteIndex (tapTrial definition (.tap node input) target))) none
    (TrialStep definition (.tap node input) target)
    (fun endpoint => ∀ id candidate, endpoint ≠ .selector id (some candidate)) rfl ?_ _ _ _ _ _
    (by simp) ?_ traced
  · intro current lastLink stop driver plain sent found
    have driven := driverInto_eq found
    have onward := wired.produces driver driven.1
    refine ⟨onward, ?_⟩
    intro later next further
    refine ⟨?_, isSelector_of_stopAt sent plain⟩
    exact ⟨stop, driver, rfl, wired.known driver driven.1 stop driven.2, found,
      follow_of_stopAt further onward⟩
  · intro stop _
    exact ⟨safe stop.vertex, fun _ listed => absurd listed not_mem_nil⟩

theorem trial_cyclic (clean : Clean definition missing) (drives : stop.target = target)
    (plain : stop.vertex.isSelector = false)
    (path : PastTaps definition stop.vertex (.tap node input))
    (traced : traceEndpoint (tapTrial definition (.tap node input) target) (.tap node input)
      (some (buildRerouteIndex (tapTrial definition (.tap node input) target))) none =
        some trace) : trace.cyclic = true := by
  have distinct := @tapTrial_distinct definition target clean.distinctTargets (.tap node input)
  have back : ReflTransGen (TrialStep definition (.tap node input) target) stop.vertex
      (.tap node input) := by
    refine path_avoiding ?_ path
    intro first second old other
    obtain ⟨stop', link, listed, same, there, hits, left⟩ :=
      (upstream_iff (spared_distinct clean.distinctTargets)).mp old.1
    refine ⟨(upstream_tapTrial clean.distinctTargets).mpr
      (.inl ⟨stop', link, listed, same, there, hits, ?_, left⟩), old.2⟩
    intro replaced
    have equal := Stop.target_injective (hits.symm.trans (replaced.trans drives.symm))
    exact other (same ▸ equal ▸ rfl)
  -- every vertex on the way back leads on to another one
  refine @traceLoop_cyclic (tapTrial definition (.tap node input) target)
    (some (buildRerouteIndex (tapTrial definition (.tap node input) target))) none
    (fun vertex => ReflTransGen (TrialStep definition (.tap node input) target) stop.vertex
      vertex ∧ vertex.isSelector = false) rfl ?_ _ _ _ _ _ _ rfl ⟨back, rfl⟩ traced
  intro current vertex leads onward lastLink
  cases onward.1 with
  | refl =>
    have found : driverInto (tapTrial definition (.tap node input) target) stop.target =
        some ⟨tapCycleLink, .tap node input, target⟩ := by
      rw [drives]
      exact find?_of_distinct distinct (mem_append_right _ (mem_singleton_self _))
    exact ⟨stop, _, .tap node input, stopAt_of_follow leads plain lastLink, found, rfl, back, rfl⟩
  | @tail before _ earlier edge =>
    obtain ⟨⟨other, driver, same, there, found, left⟩, _⟩ := edge
    subst same
    refine ⟨other, driver, before, stopAt_of_follow leads onward.2 lastLink, found, left,
      earlier, ?_⟩
    cases earlier with
    | refl => exact plain
    | tail _ step => exact step.2

theorem wouldCreateTapCycle_iff (clean : Clean definition missing)
    (known : ∀ stop, Stop.target stop = target → Stop.Known definition stop) :
    wouldCreateTapCycle definition (.tap node input) target = true ↔
      ∃ stop, Stop.target stop = target ∧ stop.vertex.isSelector = false ∧
        PastTaps definition stop.vertex (.tap node input) := by
  obtain ⟨trace, traced⟩ := @traceEndpoint_total (tapTrial definition (.tap node input) target)
    (some (buildRerouteIndex (tapTrial definition (.tap node input) target))) none rfl
    (.tap node input)
  unfold wouldCreateTapCycle
  dsimp only
  rw [traced]
  dsimp only
  constructor
  · intro cyclic
    by_contra open_
    have plain := trial_acyclic clean known (fun path => open_ (by
      obtain ⟨stop, origin, drives, leads, plain, path⟩ := path
      cases leads
      exact ⟨stop, drives, plain, path⟩)) traced
    rw [plain] at cyclic
    cases cyclic
  · intro path
    obtain ⟨stop, drives, plain, path⟩ := path
    exact trial_cyclic clean drives plain path traced

end Tap

/-! ## What is rejected -/

/-- The codes of the rejections of a loop. -/
def cycleRejections : List String :=
  ["link.tapCycle", "reroute.cycle", "selector.cycle"]

def RejectedWith (codes : List String) (rejection : Option Rejection) : Prop :=
  ∃ found, rejection = some found ∧ found.code ∈ codes

/-- A loop through the new link that one of the tests looks for. -/
def Seen (definition : GraphDef) (stop : Stop) (origin : Vertex) : Prop :=
  (stop.vertex.isTap = false ∧ PastJunctions definition stop.vertex origin) ∨
    (origin.isTap = true ∧ stop.vertex.isSelector = false ∧
      PastTaps definition stop.vertex origin)

def LoopsSeen (definition : GraphDef) (source target : LinkEndpoint) : Prop :=
  ∀ stop origin, Stop.target stop = target → follow source = some origin →
    ReflTransGen (Upstream definition) stop.vertex origin → Seen definition stop origin

section Connect

variable {graphId what : String} {source target : LinkEndpoint}

variable {origin : Vertex}

theorem isTap_of_follow (leads : follow source = some origin) : isTap source = origin.isTap := by
  cases source with
  | port _ | valueSource _ => cases leads
  | reroute _ | tap _ _ =>
    cases leads
    rfl
  | selector _ candidate =>
    cases candidate with
    | some _ => cases leads
    | none =>
      cases leads
      rfl

variable {stop : Stop}

/-- What `connectError` does with a link from a junction or tap into something that may be
driven. -/
theorem connectError_of_stop (drives : stop.target = target) (leads : follow source = some origin) :
    connectError definition graphId source target what =
      let refs := endpointRefs graphId true source ++ endpointRefs graphId false target
      if ownInput source target then
        some ⟨"link.selfLoop", s!"{what}: cannot connect a widget tap to its own input", refs⟩
      else if isTap source && wouldCreateTapCycle definition source target then
        some ⟨"link.tapCycle", s!"{what}: connection would create a widget tap cycle", refs⟩
      else junctionError definition refs what source target := by
  have candidate : isCandidate source = false := by
    cases source with
    | selector _ candidate =>
      cases candidate with
      | none => rfl
      | some _ => cases leads
    | port _ | reroute _ | valueSource _ | tap _ _ => rfl
  have apart : samePortNode source target = false := by
    cases source with
    | port _ => cases leads
    | reroute _ | valueSource _ | tap _ _ | selector _ _ => rfl
  have consumes : isTap target = false ∧ isValueSource target = false ∧
      isSelectorOutput target = false := by
    rw [← drives]
    cases stop <;> exact ⟨rfl, rfl, rfl⟩
  unfold connectError
  simp only [candidate, apart, consumes.1, consumes.2.1, consumes.2.2, Bool.false_eq_true, if_false]

section

variable (clean : Clean definition missing)

include clean

section

variable (known : ∀ stop, Stop.target stop = target → Stop.Known definition stop)

include known

theorem rejected_of_seen (drives : stop.target = target) (leads : follow source = some origin)
    (seen : Seen definition stop origin) : RejectedWith ("link.selfLoop" :: cycleRejections)
      (connectError definition graphId source target what) := by
  have plain : ∀ id candidate, source ≠ .selector id (some candidate) := by
    intro id candidate same
    rw [same] at leads
    cases leads
  rw [connectError_of_stop drives leads]
  dsimp only
  split
  · exact ⟨_, rfl, mem_cons_self⟩
  split
  · exact ⟨_, rfl, by simp [cycleRejections]⟩
  rename_i own cycle
  cases seen with
  | inr past =>
    -- the trace out of the tap comes back
    have tap : isTap source = true := (isTap_of_follow leads).trans past.1
    cases source with
    | tap node input =>
      cases leads
      have traced := (@wouldCreateTapCycle_iff definition missing node input target clean
        known).mpr ⟨stop, drives, past.2.1, past.2.2⟩
      exact absurd (by simp [tap, traced]) cycle
    | port _ | reroute _ | valueSource _ | selector _ _ => cases tap
  | inl past =>
    cases stop with
    | tap _ _ => cases past.1
    | reroute id =>
      subst drives
      have hit := (wouldCreateRerouteCycle_iff clean plain).mpr ⟨origin, leads, past.2⟩
      dsimp only [Stop.target, junctionError, rerouteError]
      split
      · exact ⟨_, rfl, mem_cons_self⟩
      · exact ⟨_, rfl, by simp [cycleRejections]⟩
    | candidate id choice =>
      subst drives
      have hit := (wouldCreateSelectorCycle_iff clean plain).mpr ⟨origin, leads, past.2⟩
      dsimp only [Stop.target, junctionError, selectorError]
      split
      · exact ⟨_, rfl, mem_cons_self⟩
      · exact ⟨_, rfl, by simp [cycleRejections]⟩

/-- A rejected link into something that may be driven closes a loop that is seen, or is one of
a tap into a member of the input it taps. -/
theorem seen_of_rejected (drives : stop.target = target) (leads : follow source = some origin)
    {rejection : Rejection}
    (rejected : connectError definition graphId source target what = some rejection) :
    Seen definition stop origin := by
  have plain : ∀ id candidate, source ≠ .selector id (some candidate) := by
    intro id candidate same
    rw [same] at leads
    cases leads
  rw [connectError_of_stop drives leads] at rejected
  dsimp only at rejected
  split at rejected
  · -- a tap into the input it taps
    rename_i own
    cases source with
    | tap node input =>
      cases leads
      subst drives
      cases stop with
      | reroute _ | candidate _ _ => cases own
      | tap other port =>
        have same : node = other ∧ input = port := by
          simpa [ownInput, Stop.target, Stop.tapped] using own
        rw [same.1, same.2]
        exact .inr ⟨rfl, rfl, .refl⟩
    | port _ | reroute _ | valueSource _ | selector _ _ => cases own
  split at rejected
  · rename_i cycle
    cases source with
    | tap node input =>
      cases leads
      obtain ⟨other, hits, past, path⟩ :=
        (wouldCreateTapCycle_iff clean known).mp (by simpa [isTap] using cycle)
      have equal := Stop.target_injective (hits.trans drives.symm)
      subst equal
      exact .inr ⟨rfl, past, path⟩
    | port _ | valueSource _ => cases leads
    | reroute _ | selector _ _ => simp [isTap] at cycle
  subst drives
  cases stop with
  | tap _ _ => cases rejected
  | reroute id =>
    dsimp only [Stop.target, junctionError, rerouteError] at rejected
    split at rejected
    · rename_i same
      rw [same] at leads
      cases leads
      exact .inl ⟨rfl, .refl⟩
    · split at rejected
      · rename_i hit
        obtain ⟨other, here, path⟩ := (wouldCreateRerouteCycle_iff clean plain).mp hit
        rw [leads] at here
        cases here
        exact .inl ⟨rfl, path⟩
      · cases rejected
  | candidate id choice =>
    dsimp only [Stop.target, junctionError, selectorError] at rejected
    split at rejected
    · rename_i same
      cases source with
      | selector other candidate =>
        cases candidate with
        | some _ => cases leads
        | none =>
          cases leads
          have equal : other = id := some.inj same
          rw [equal]
          exact .inl ⟨rfl, .refl⟩
      | port _ | valueSource _ => cases leads
      | reroute _ | tap _ _ => cases same
    · split at rejected
      · rename_i hit
        obtain ⟨other, here, path⟩ := (wouldCreateSelectorCycle_iff clean plain).mp hit
        rw [leads] at here
        cases here
        exact .inl ⟨rfl, path⟩
      · cases rejected

end

/-- A path that is seen is a path. -/
theorem upstream_of_seen (seen : Seen definition stop origin) :
    ReflTransGen (Upstream definition) stop.vertex origin := by
  cases seen with
  | inl past => exact ReflTransGen.mono (fun _ _ edge => edge.1) _ _ past.2
  | inr past =>
    refine ReflTransGen.mono (fun first second edge => ?_) _ _ past.2.2
    obtain ⟨other, link, listed, same, there, drives, left⟩ :=
      (upstream_iff (spared_distinct clean.distinctTargets)).mp edge.1
    exact (upstream_iff clean.distinctTargets).mpr ⟨other, link,
      (mem_filter.mp listed).1, same, known_spared.mp there, drives, left⟩

/-- Only a link from a junction or a tap into something that may be driven is rejected for a
cycle. -/
theorem stop_of_cycleRejected
    (known : ∀ stop, Stop.target stop = target → Stop.Known definition stop)
    (rejected : RejectedWith cycleRejections (connectError definition graphId source target what)) :
    ∃ stop origin, Stop.target stop = target ∧ follow source = some origin := by
  obtain ⟨rejection, rejected, about⟩ := rejected
  unfold connectError at rejected
  dsimp only at rejected
  split at rejected
  · cases rejected
    simp [cycleRejections] at about
  split at rejected
  · cases rejected
    simp [cycleRejections] at about
  split at rejected
  · cases rejected
    simp [cycleRejections] at about
  rename_i candidate
  have plain : ∀ id choice, source ≠ .selector id (some choice) := by
    intro id choice same
    rw [same] at candidate
    exact candidate rfl
  split at rejected
  · cases rejected
    simp [cycleRejections] at about
  rename_i output
  split at rejected
  · cases rejected
    simp [cycleRejections] at about
  split at rejected
  · cases rejected
    simp [cycleRejections] at about
  split at rejected
  · rename_i cycle
    cases source with
    | tap node input =>
      obtain ⟨stop, drives, _⟩ :=
        (wouldCreateTapCycle_iff clean known).mp (by simpa [isTap] using cycle)
      exact ⟨stop, .tap node input, drives, rfl⟩
    | port _ | valueSource _ | reroute _ | selector _ _ => simp [isTap] at cycle
  cases target with
  | port _ | valueSource _ | tap _ _ => cases rejected
  | reroute id =>
    dsimp only [junctionError, rerouteError] at rejected
    split at rejected
    · cases rejected
      simp [cycleRejections] at about
    split at rejected
    · rename_i hit
      obtain ⟨origin, leads, _⟩ := (wouldCreateRerouteCycle_iff clean plain).mp hit
      exact ⟨.reroute id, origin, rfl, leads⟩
    · cases rejected
  | selector id choice =>
    cases choice with
    | none => exact absurd rfl output
    | some choice =>
      dsimp only [junctionError, selectorError] at rejected
      split at rejected
      · cases rejected
        simp [cycleRejections] at about
      split at rejected
      · rename_i hit
        obtain ⟨origin, leads, _⟩ := (wouldCreateSelectorCycle_iff clean plain).mp hit
        exact ⟨.candidate id choice, origin, rfl, leads⟩
      · cases rejected

end

/-- A connection into an endpoint that passes its check is rejected for the loops it closes, and
for no others, exactly when each of these loops is seen by a test. -/
theorem rejectsLoops_iff_loopsSeen {id : String} (clean : Clean definition missing)
    (toChecked : endpointError definition graphId false what target = none) :
    ((ReportsCycle (replaceDriver definition id source target) missing →
        RejectedWith ("link.selfLoop" :: cycleRejections)
          (connectError definition graphId source target what)) ∧
      (RejectedWith cycleRejections (connectError definition graphId source target what) →
        ReportsCycle (replaceDriver definition id source target) missing)) ↔
      LoopsSeen definition source target := by
  have known : ∀ stop, Stop.target stop = target → Stop.Known definition stop :=
    fun stop drives => known_of_endpointError toChecked drives
  rw [@reportsCycle_replaceDriver definition missing id source target clean known]
  constructor
  · intro meets stop origin drives leads path
    obtain ⟨rejection, rejected, _⟩ := meets.1 ⟨stop, origin, drives, leads, path⟩
    exact seen_of_rejected clean known drives leads rejected
  · intro seen
    constructor
    · intro closed
      obtain ⟨stop, origin, drives, leads, path⟩ := closed
      exact rejected_of_seen clean known drives leads (seen stop origin drives leads path)
    · intro rejected
      obtain ⟨stop, origin, drives, leads⟩ := stop_of_cycleRejected clean known rejected
      obtain ⟨rejection, rejected, _⟩ := rejected
      exact ⟨stop, origin, drives, leads,
        upstream_of_seen clean (seen_of_rejected clean known drives leads rejected)⟩

end Connect

def rerouteChain : GraphDef where
  id := "g"
  nodes := []
  links := [⟨"l1", .reroute "r1", .reroute "r2"⟩]
  nets := []
  reroutes := ["r1", "r2"]
  selectors := []
  valueSources := []
  boundary := none

theorem rerouteChain_loopsSeen : LoopsSeen rerouteChain (.reroute "r2") (.reroute "r1") := by
  intro stop origin drives leads _
  have named : stop = .reroute "r1" := Stop.target_injective drives
  cases leads
  rw [named]
  have edge : Upstream rerouteChain (.reroute "r1") (.reroute "r2") :=
    ⟨.reroute "r2", ⟨"l1", .reroute "r1", .reroute "r2"⟩, rfl, mem_cons_of_mem _
      mem_cons_self, by decide, rfl⟩
  exact .inl ⟨rfl, .single ⟨edge, rfl⟩⟩

theorem rejectsLoops_iff_loopsSeen_rerouteChain :
    ReportsCycle (replaceDriver rerouteChain "l2" (.reroute "r2") (.reroute "r1"))
        (fun _ => false) ∧ RejectedWith ("link.selfLoop" :: cycleRejections)
        (connectError rerouteChain "g" (.reroute "r2") (.reroute "r1") "link.connect") := by
  have closed : ReportsCycle (replaceDriver rerouteChain "l2" (.reroute "r2") (.reroute "r1"))
      (fun _ => false) := by
    unfold ReportsCycle
    decide +kernel
  have meets := (@rejectsLoops_iff_loopsSeen rerouteChain (fun _ => false) "g" "link.connect"
    (.reroute "r2") (.reroute "r1") "l2" (by unfold Clean; decide +kernel) (by decide)).mpr
    rerouteChain_loopsSeen
  exact ⟨closed, meets.1 closed⟩

/-- A reroute that is driven by the widget tap of an input. -/
def tappedReroute : GraphDef where
  id := "g"
  nodes := [⟨"n1", "Sink", false, ⟨[], List.nodup_nil⟩, .active, [], none⟩]
  links := [⟨"l1", .tap "n1" "in", .reroute "r1"⟩]
  nets := []
  reroutes := ["r1"]
  selectors := []
  valueSources := []
  boundary := none

/-- The loop from a tap through a reroute back into the tapped input is not rejected. -/
theorem tappedReroute_accepted : Clean tappedReroute (fun _ => false) ∧
      endpointError tappedReroute "g" true "link.connect" (.reroute "r1") = none ∧
      endpointError tappedReroute "g" false "link.connect" (.port ⟨"n1", "in", []⟩) = none ∧
      ReportsCycle (replaceDriver tappedReroute "l2" (.reroute "r1") (.port ⟨"n1", "in", []⟩))
        (fun _ => false) ∧
      connectError tappedReroute "g" (.reroute "r1") (.port ⟨"n1", "in", []⟩) "link.connect" =
        none := by
  refine ⟨by unfold Clean; decide +kernel, by decide, by decide, ?_, by decide +kernel⟩
  unfold ReportsCycle
  decide +kernel

end Dinkster.Junction
