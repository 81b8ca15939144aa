import Dinkster.Loops.Pairing

/-!
# Loops are nested

Of two pairs the one found first has no later end below it, so no way between two ends runs
upwards; a node in both bodies puts the first pair inside the second.
-/

namespace Dinkster.Loops

open Library Relation List

variable {nodes : List RawNode} {links : List RawLink}

variable {id source target start : Int} {remainingEnds remainingStarts : List Int}

theorem mem_nodeIds : id ∈ nodeIds nodes ↔ ∃ node ∈ nodes, node.id = id := by
  unfold nodeIds
  rw [mem_eraseDups, mem_map]

theorem mem_children : target ∈ children nodes links source ↔
      ∃ link ∈ innerLinks nodes links, link.source = source ∧ link.target = target := by
  unfold children
  rw [mem_eraseDups, mem_map]
  constructor
  · rintro ⟨link, listed, rfl⟩
    obtain ⟨inner, same⟩ := mem_filter.mp listed
    exact ⟨link, inner, of_decide_eq_true same, rfl⟩
  · rintro ⟨link, inner, same, rfl⟩
    exact ⟨link, mem_filter.mpr ⟨inner, decide_eq_true same⟩, rfl⟩

theorem mem_parents :
    source ∈ parents nodes links target ↔ target ∈ children nodes links source := by
  rw [mem_children]
  unfold parents
  rw [mem_eraseDups, mem_map]
  constructor
  · rintro ⟨link, listed, rfl⟩
    obtain ⟨inner, same⟩ := mem_filter.mp listed
    exact ⟨link, inner, rfl, of_decide_eq_true same⟩
  · rintro ⟨link, inner, rfl, same⟩
    exact ⟨link, mem_filter.mpr ⟨inner, decide_eq_true same⟩, rfl⟩

theorem inner_ends {link : RawLink} (inner : link ∈ innerLinks nodes links) :
    link.source ∈ nodeIds nodes ∧ link.target ∈ nodeIds nodes := by
  have both := (mem_filter.mp inner).2
  rw [Bool.and_eq_true] at both
  exact ⟨of_decide_eq_true both.1, of_decide_eq_true both.2⟩

theorem nodes_of_edge (edge : target ∈ children nodes links source) :
    source ∈ nodeIds nodes ∧ target ∈ nodeIds nodes := by
  obtain ⟨link, inner, rfl, rfl⟩ := mem_children.mp edge
  exact inner_ends inner

def Below (nodes : List RawNode) (links : List RawLink) (source target : Int) : Prop :=
  TransGen (Step (children nodes links)) source target

theorem below_of_parents (path : TransGen (Step (parents nodes links)) target source) :
    Below nodes links source target :=
  transGen_swap.mp (TransGen.mono (fun _ _ edge => mem_parents.mp edge) _ _ path)

theorem parents_of_below (path : Below nodes links source target) :
    TransGen (Step (parents nodes links)) target source :=
  transGen_swap.mp (TransGen.mono (fun _ _ edge => mem_parents.mpr edge) _ _ path)

def Inside (nodes : List RawNode) (edges : Int → List Int) : Prop :=
  ∀ {source target}, target ∈ edges source → source ∈ nodeIds nodes

theorem children_inside : Inside nodes (children nodes links) := fun edge => (nodes_of_edge edge).1

theorem parents_inside : Inside nodes (parents nodes links) := fun edge =>
  (nodes_of_edge (mem_parents.mp edge)).2

section Walk

variable {edges : Int → List Int} {starts stops : List Int} {id : Int}

theorem mem_walk (inside : Inside nodes edges) :
    id ∈ walk nodes starts edges stops ↔ Reaches (halting edges stops) starts id := by
  unfold walk
  refine mem_closure_iff fun node filled => ?_
  obtain ⟨target, listed⟩ := exists_mem_of_ne_nil _ filled
  exact inside (mem_halting.mp listed).2

theorem mem_walkStops (inside : Inside nodes edges) : id ∈ walkStops nodes starts edges stops ↔
      Reaches (halting edges stops) starts id ∧ id ∈ stops := by
  unfold walkStops
  rw [mem_filter, mem_walk inside]
  exact and_congr_right fun _ => decide_eq_true_iff

end Walk

theorem startDag_below {other : Int} (listed : other ∈ startDag nodes links start) :
    Below nodes links start other :=
  path_of_halting ((mem_walkStops children_inside).mp listed).1

theorem startDag_inside : Inside nodes (startDag nodes links) := by
  intro start other listed
  obtain ⟨child, edge, _⟩ := TransGen.head'_iff.mp (startDag_below listed)
  exact (nodes_of_edge edge).1

theorem startDescendants_below {other : Int} (listed : other ∈ startDescendants nodes links start) :
    Below nodes links start other := by
  have reached := (mem_walk startDag_inside).mp listed
  apply reached.induct
  · exact fun first known => startDag_below known
  · exact fun _ _ before _ edge => before.trans (startDag_below (mem_halting.mp edge).2)

/-- What is in a body is reached without passing through the end. -/
theorem mem_bodyOf {stop : Int} : id ∈ bodyOf nodes links start stop ↔
      TransGen (Avoiding (children nodes links) stop) start id := by
  unfold bodyOf
  rw [mem_filter, mem_walk children_inside]
  constructor
  · intro both
    exact (reaches_halting_iff (of_decide_eq_true both.2)).mp both.1
  · intro path
    exact ⟨(reaches_halting_iff (ne_of_avoiding path)).mpr path, decide_eq_true (ne_of_avoiding path)⟩

structure Encloses (nodes : List RawNode) (links : List RawLink) (start stop : Int) : Prop where
  below : Below nodes links start stop
  closed : ∀ last, children nodes links last = [] →
    ¬ TransGen (Avoiding (children nodes links) stop) start last

/-- What an earlier pair and a later one have to do with each other. -/
structure Precedes (nodes : List RawNode) (links : List RawLink) (first second : Int × Int) :
    Prop where
  other : second.2 ≠ first.2
  upwards : ¬ Below nodes links second.2 first.2
  separate : ¬ TransGen (Avoiding (children nodes links) first.2) first.1 second.2
  closest : Below nodes links second.1 first.2 → Below nodes links second.1 first.1

def Settled (nodes : List RawNode) (links : List RawLink) (remainingEnds : List Int) : Prop :=
  ∀ past ∈ ofType nodes "EndLoop", past ∉ remainingEnds →
    ∀ id ∈ remainingEnds, ¬ Below nodes links id past

theorem nextEnd_spec (settled : Settled nodes links remainingEnds)
    (known : ∀ stop ∈ remainingEnds, stop ∈ ofType nodes "EndLoop")
    (next : nextEnd nodes links remainingEnds = some id) :
    id ∈ remainingEnds ∧ ∀ other ∈ remainingEnds, ¬ Below nodes links other id := by
  have listed : id ∈ remainingEnds :=
    (perm_insertionSort _ _).mem_iff.mp (mem_of_find?_eq_some next)
  refine ⟨listed, fun other remains above => ?_⟩
  have free := find?_some next
  obtain ⟨first, stop, met, _, later⟩ :=
    first_stop (fun edge => edge) (parents_of_below above) (known other remains)
  have passed : first ∉ remainingEnds :=
    of_decide_eq_true (all_eq_true.mp free first ((mem_walkStops parents_inside).mpr ⟨met, stop⟩))
  cases reflTransGen_iff_eq_or_transGen.mp later with
  | inl same => exact passed (same ▸ remains)
  | inr path => exact settled first stop passed other remains (below_of_parents path)

theorem nextEnd_ne_none (filled : remainingEnds ≠ []) (acyclic : ∀ id, ¬ Below nodes links id id) :
    nextEnd nodes links remainingEnds ≠ none := by
  obtain ⟨highest, listed, none_above⟩ := exists_last (fun below above => Below nodes links above below)
    (fun first second => second.trans first) acyclic filled
  intro missing
  have refused := List.find?_eq_none.mp missing highest
    ((perm_insertionSort _ _).mem_iff.mpr listed)
  apply refused
  refine all_eq_true.mpr fun other met => decide_eq_true fun remains => ?_
  exact none_above other remains
    (below_of_parents (path_of_halting ((mem_walkStops parents_inside).mp met).1))

theorem candidatesOf_spec (listed : start ∈ candidatesOf nodes links remainingStarts id) :
    start ∈ remainingStarts ∧ Below nodes links start id := by
  have met := (mem_walkStops parents_inside).mp listed
  exact ⟨met.2, below_of_parents (path_of_halting met.1)⟩

theorem candidate_of_below (remains : start ∈ remainingStarts)
    (above : Below nodes links start id) :
    ∃ candidate ∈ candidatesOf nodes links remainingStarts id,
      start = candidate ∨ Below nodes links start candidate := by
  obtain ⟨first, stop, met, _, later⟩ := first_stop (fun edge => edge) (parents_of_below above) remains
  refine ⟨first, (mem_walkStops parents_inside).mpr ⟨met, stop⟩, ?_⟩
  cases reflTransGen_iff_eq_or_transGen.mp later with
  | inl same => exact .inl same
  | inr path => exact .inr (below_of_parents path)

theorem closestOf_spec {candidates : List Int} (listed : start ∈ closestOf nodes links candidates) :
    start ∈ candidates ∧ ∀ other ∈ candidates, other = start ∨ Below nodes links other start := by
  obtain ⟨candidate, lowest⟩ := mem_filter.mp listed
  refine ⟨candidate, fun other known => ?_⟩
  have compared := all_eq_true.mp lowest other known
  rw [Bool.or_eq_true] at compared
  cases compared with
  | inl same => exact .inl (of_decide_eq_true same)
  | inr met => exact .inr (startDescendants_below (of_decide_eq_true met))

theorem escapesOf_eq_nil (none_found : escapesOf nodes links remainingEnds start id = []) :
    ∀ stop, stop ∈ remainingEnds ∨ stop ∈ terminal nodes links →
      ¬ TransGen (Avoiding (children nodes links) id) start stop := by
  intro stop listed path
  have known : stop ∈ remainingEnds ++ terminal nodes links ++ [id] :=
    mem_append_left _ (mem_append.mpr listed)
  obtain ⟨first, halts, met, away, _⟩ := first_stop Avoiding.step path known
  have escaped : first ∈ escapesOf nodes links remainingEnds start id :=
    mem_filter.mpr ⟨(mem_walkStops children_inside).mpr ⟨met, halts⟩,
      decide_eq_true (ne_of_avoiding away)⟩
  exact not_mem_nil (none_found ▸ escaped)

theorem mem_terminal :
    id ∈ terminal nodes links ↔ id ∈ nodeIds nodes ∧ children nodes links id = [] := by
  unfold terminal
  rw [mem_filter]
  exact and_congr_right fun _ => decide_eq_true_iff

theorem startOf_spec (found : startOf nodes links remainingStarts remainingEnds id = .ok start) :
    start ∈ remainingStarts ∧ Encloses nodes links start id ∧
      (∀ other ∈ remainingStarts, Below nodes links other id →
        other = start ∨ Below nodes links other start) ∧ ∀ other ∈ remainingEnds, other ≠ id →
        ¬ TransGen (Avoiding (children nodes links) id) start other := by
  unfold startOf at found
  simp only at found
  split at found
  · exact nomatch found
  · split at found
    · rename_i _ only closest
      split at found
      · rename_i none_found
        cases found
        have inside := escapesOf_eq_nil none_found
        have lowest := closestOf_spec (closest ▸ mem_singleton_self start)
        have candidate := candidatesOf_spec lowest.1
        refine ⟨candidate.1, ⟨candidate.2, fun last ends path => ?_⟩, fun other remains above => ?_,
          fun other remains different => ?_⟩
        · obtain ⟨before, _, edge⟩ := TransGen.tail'_iff.mp path
          exact inside last (.inr (mem_terminal.mpr ⟨(nodes_of_edge edge.1).2, ends⟩)) path
        · obtain ⟨nearer, known, up⟩ := candidate_of_below remains above
          cases up with
          | inl same => exact same ▸ lowest.2 nearer known
          | inr up =>
            cases lowest.2 nearer known with
            | inl same => exact .inr (same ▸ up)
            | inr down => exact .inr (up.trans down)
        · exact inside other (.inl (mem_filter.mpr ⟨remains, decide_eq_true different⟩))
      · exact nomatch found
    · exact nomatch found

/-- Taking an element out of a list that holds it once. -/
theorem perm_cons_filter {ids : List Int} (once : ids.Nodup) (listed : id ∈ ids) :
    ids.Perm (id :: ids.filter (· ≠ id)) := by
  have fresh : (id :: ids.filter (· ≠ id)).Nodup :=
    nodup_cons.mpr ⟨fun again => of_decide_eq_true (mem_filter.mp again).2 rfl,
      once.filter _⟩
  refine (perm_ext_iff_of_nodup once fresh).mpr fun other => ?_
  rw [mem_cons, mem_filter, decide_eq_true_iff]
  constructor
  · intro known
    exact (em (other = id)).imp_right fun different => ⟨known, different⟩
  · rintro (rfl | ⟨known, _⟩)
    · exact listed
    · exact known

theorem pairEnds_spec (acyclic : ∀ id, ¬ Below nodes links id id) :
    ∀ (turns : Nat) {remainingStarts remainingEnds : List Int} {paired : List (Int × Int)}
      {left : List Int}, turns = remainingEnds.length → remainingStarts.Nodup →
      remainingEnds.Nodup → (∀ stop ∈ remainingEnds, stop ∈ ofType nodes "EndLoop") →
      Settled nodes links remainingEnds →
      pairEnds nodes links turns remainingStarts remainingEnds = .ok (paired, left) →
      (paired.map Prod.fst ++ left).Perm remainingStarts ∧
        (paired.map Prod.snd).Perm remainingEnds ∧
        (∀ pair ∈ paired, Encloses nodes links pair.1 pair.2) ∧
        paired.Pairwise (Precedes nodes links) := by
  intro turns
  induction turns with
  | zero =>
    intro remainingStarts remainingEnds paired left enough _ _ _ _ done
    cases done
    rw [length_eq_zero_iff.mp enough.symm]
    exact ⟨.refl _, .refl _, fun _ listed => absurd listed not_mem_nil, .nil⟩
  | succ turns ih =>
    intro remainingStarts remainingEnds paired left enough onceStart onceEnd known settled done
    have filled : remainingEnds ≠ [] := fun empty => by simp [empty] at enough
    unfold pairEnds at done
    cases next : nextEnd nodes links remainingEnds with
    | none => exact absurd next (nextEnd_ne_none filled acyclic)
    | some id =>
      simp only [next] at done
      obtain ⟨listed, highest⟩ := nextEnd_spec settled known next
      cases found : startOf nodes links remainingStarts remainingEnds id with
      | error error => simp only [found] at done; exact nomatch done
      | ok start =>
        simp only [found] at done
        obtain ⟨startListed, encloses, closest, separate⟩ := startOf_spec found
        have takenStart := perm_cons_filter onceStart startListed
        have takenEnd := perm_cons_filter onceEnd listed
        have fewer : turns = (remainingEnds.filter (· ≠ id)).length := by
          have lengths := takenEnd.length_eq
          rw [length_cons, ← enough] at lengths
          exact Nat.succ.inj lengths
        have settled : Settled nodes links (remainingEnds.filter (· ≠ id)) := by
          intro past stop gone other remains
          have otherListed := (mem_filter.mp remains).1
          by_cases same : past = id
          · exact same ▸ highest other otherListed
          · exact settled past stop (fun kept => gone (mem_filter.mpr
              ⟨kept, decide_eq_true same⟩)) other otherListed
        cases rest : pairEnds nodes links turns (remainingStarts.filter (· ≠ start))
            (remainingEnds.filter (· ≠ id)) with
        | error error => simp only [rest] at done; exact nomatch done
        | ok result =>
          simp only [rest] at done
          cases done
          obtain ⟨starts, ends, closed, ordered⟩ := ih fewer (onceStart.filter _)
            (onceEnd.filter _) (fun stop kept => known stop (mem_filter.mp kept).1)
            settled rest
          refine ⟨(starts.cons start).trans takenStart.symm,
            (ends.cons id).trans takenEnd.symm, ?_, pairwise_cons.mpr ⟨?_, ordered⟩⟩
          · intro pair known
            cases mem_cons.mp known with
            | inl here => exact here ▸ encloses
            | inr later => exact closed pair later
          · intro pair later
            have stop := mem_filter.mp (ends.mem_iff.mp (mem_map_of_mem (f := Prod.snd) later))
            have begun := mem_filter.mp (starts.mem_iff.mp
              (mem_append_left _ (mem_map_of_mem (f := Prod.fst) later)))
            have other := of_decide_eq_true stop.2
            refine ⟨other, highest _ stop.1, separate _ stop.1 other, fun above => ?_⟩
            exact (closest _ begun.1 above).resolve_left (of_decide_eq_true begun.2)

theorem below_of_avoiding {avoided : Int}
    (path : TransGen (Avoiding (children nodes links) avoided) source target) :
    Below nodes links source target :=
  TransGen.mono (fun _ _ edge => Avoiding.step edge) _ _ path

/-- A node that is reached from a closed start without its end has the end below it. -/
theorem Encloses.stop_below {stop : Int} (encloses : Encloses nodes links start stop)
    (acyclic : ∀ id, ¬ Below nodes links id id)
    (inside : TransGen (Avoiding (children nodes links) stop) start id) :
    Below nodes links id stop := by
  obtain ⟨last, path, ends⟩ := exists_dead_end (fun edge => (nodes_of_edge edge).2) acyclic id
  cases avoids_or_passes stop path with
  | inl away => exact absurd (inside.trans_left away) (encloses.closed last ends)
  | inr through => exact through

/-- If two bodies share a node, the pair that was found first is inside the other one. -/
theorem Precedes.nested {first second : Int × Int} (precedes : Precedes nodes links first second)
    (acyclic : ∀ id, ¬ Below nodes links id id)
    (outer : Encloses nodes links second.1 second.2) (inner : Encloses nodes links first.1 first.2)
    {shared : Int} (here : shared ∈ bodyOf nodes links first.1 first.2)
    (there : shared ∈ bodyOf nodes links second.1 second.2) :
    first.1 ∈ bodyOf nodes links second.1 second.2 ∧
      first.2 ∈ bodyOf nodes links second.1 second.2 ∧
      ∀ id ∈ bodyOf nodes links first.1 first.2, id ∈ bodyOf nodes links second.1 second.2 := by
  rw [mem_bodyOf] at here there
  -- The second end is not above the first one.
  have away : ∀ {node}, ReflTransGen (Step (children nodes links)) node first.2 →
      node ≠ second.2 := by
    intro node rest same
    cases reflTransGen_iff_eq_or_transGen.mp rest with
    | inl here => exact precedes.other (same.symm.trans here.symm)
    | inr path => exact precedes.upwards (same ▸ path)
  have down : Below nodes links shared first.2 := inner.stop_below acyclic here
  have toStop : TransGen (Avoiding (children nodes links) second.2) second.1 first.2 :=
    there.trans (avoiding_of_not_reached down fun _ _ rest => away rest)
  have toStart : TransGen (Avoiding (children nodes links) second.2) second.1 first.1 :=
    avoiding_of_not_reached (precedes.closest (below_of_avoiding toStop)) fun _ _ rest =>
      away (rest.trans inner.below.to_reflTransGen)
  refine ⟨mem_bodyOf.mpr toStart, mem_bodyOf.mpr toStop, fun id listed => mem_bodyOf.mpr ?_⟩
  refine toStart.trans (avoiding_of_avoiding (mem_bodyOf.mp listed) ?_)
  exact fun node met same => precedes.separate (same ▸ met)

end Dinkster.Loops
