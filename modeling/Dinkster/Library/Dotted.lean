import Mathlib

/-!
# Sorted paths and their extensions

A path extends another where it goes on after a separator.  In a sorted list a path and an
extension of it need not be neighbours: whatever continues the path by less than the separator
stands between them.
-/

namespace Dinkster.Library

open List

section Lexicographic

variable {α : Type} [LinearOrder α]

theorem lt_append_cons (text : List α) (next : α) (rest : List α) :
    text < text ++ next :: rest := by
  have shorter : List.Lex (· < ·) (text ++ []) (text ++ next :: rest) :=
    List.Lex.append_left _ .nil text
  rw [append_nil] at shorter
  exact shorter

theorem le_of_prefix {start text : List α} (starts : start <+: text) : start ≤ text := by
  obtain ⟨rest, rfl⟩ := starts
  cases rest with
  | nil => rw [append_nil]
  | cons next rest => exact (lt_append_cons start next rest).le

/-- What lies between a text and a continuation of it continues it too. -/
theorem prefix_of_between {start : List α} : ∀ {middle text : List α},
    start <+: text → start ≤ middle → middle ≤ text → start <+: middle := by
  induction start with
  | nil => exact fun _ _ _ => nil_prefix
  | cons first start ih =>
    intro middle text starts low high
    obtain ⟨rest, rfl⟩ := starts
    cases middle with
    | nil => exact absurd (List.Lex.nil : List.Lex (· < ·) [] (first :: start)) low.not_gt
    | cons other middle =>
      have same : other = first := by
        refine le_antisymm (not_lt.mp fun more => ?_) (not_lt.mp fun less => ?_)
        · exact high.not_gt (List.Lex.rel more)
        · exact low.not_gt (List.Lex.rel less)
      subst same
      have low : start ≤ middle := not_lt.mp fun less => low.not_gt (List.Lex.cons less)
      have high : middle ≤ start ++ rest := not_lt.mp fun more => high.not_gt (List.Lex.cons more)
      exact cons_prefix_cons.mpr ⟨rfl, ih ⟨rest, rfl⟩ low high⟩

end Lexicographic

section Neighbours

variable {α : Type} [LinearOrder α] {Extends : α → α → Prop} {bar : α → α}

theorem not_isChain_iff (above : ∀ path, path < bar path)
    (reaches : ∀ path other, Extends path other → bar path ≤ other)
    (convex : ∀ path middle other, Extends path other → bar path ≤ middle → middle ≤ other →
      Extends path middle) {paths : List α} (sorted : paths.Pairwise (· < ·)) :
    ¬ paths.IsChain (fun path next => ¬ Extends path next) ↔
      ∃ path ∈ paths, (∃ other ∈ paths, Extends path other) ∧
        ∀ middle ∈ paths, ¬ (path < middle ∧ middle < bar path) := by
  induction paths with
  | nil => simp
  | cons first rest ih =>
    obtain ⟨least, later⟩ := pairwise_cons.mp sorted
    have irreflexive : ∀ path, ¬ Extends path path := fun path extended =>
      (reaches path path extended).not_gt (above path)
    have back : ∀ path ∈ rest, ∀ other ∈ first :: rest, Extends path other → other ∈ rest := by
      intro path listed other there extended
      refine (mem_cons.mp there).resolve_left fun same => ?_
      have beyond := (above path).trans_le (reaches path other extended)
      exact (same ▸ beyond).not_gt (least path listed)
    cases rest with
    | nil =>
      refine ⟨fun chain => absurd (.singleton first) chain, ?_⟩
      rintro ⟨path, listed, ⟨other, there, extended⟩, _⟩
      rw [mem_singleton.mp listed, mem_singleton.mp there] at extended
      exact absurd extended (irreflexive first)
    | cons next rest =>
      rw [isChain_cons_cons, not_and_or, not_not]
      constructor
      · rintro (here | later')
        · refine ⟨first, mem_cons_self, ⟨next, by simp, here⟩, fun middle there between => ?_⟩
          have low : next ≤ middle := by
            cases mem_cons.mp there with
            | inl same => exact absurd between.1 (same ▸ lt_irrefl _)
            | inr there =>
              cases mem_cons.mp there with
              | inl same => exact same.ge
              | inr there => exact ((pairwise_cons.mp later).1 middle there).le
          exact ((reaches first next here).trans low).not_gt between.2
        · obtain ⟨path, listed, ⟨other, there, extended⟩, apart⟩ := (ih later).mp later'
          refine ⟨path, mem_cons_of_mem _ listed,
            ⟨other, mem_cons_of_mem _ there, extended⟩, fun middle near between => ?_⟩
          cases mem_cons.mp near with
          | inl same => exact (same ▸ between.1).not_gt (least path listed)
          | inr near => exact apart middle near between
      · rintro ⟨path, listed, ⟨other, there, extended⟩, apart⟩
        cases mem_cons.mp listed with
        | inr listed =>
          refine .inr ((ih later).mpr ⟨path, listed,
            ⟨other, back path listed other there extended, extended⟩, fun middle near =>
              apart middle (mem_cons_of_mem _ near)⟩)
        | inl same =>
          subst same
          have there : other ∈ next :: rest := by
            refine (mem_cons.mp there).resolve_left fun same => ?_
            exact irreflexive path (same ▸ extended)
          have low : next ≤ other := by
            cases mem_cons.mp there with
            | inl same => exact same.ge
            | inr there => exact ((pairwise_cons.mp later).1 other there).le
          have reached : bar path ≤ next := not_lt.mp fun short =>
            apart next (by simp) ⟨least next mem_cons_self, short⟩
          exact .inl (convex path next other extended reached low)

end Neighbours

section Segments

variable {α : Type}

theorem intercalate_append (dot : α) {front back : List (List α)} (some : front ≠ [])
    (more : back ≠ []) : [dot].intercalate (front ++ back) =
      [dot].intercalate front ++ dot :: [dot].intercalate back := by
  induction front with
  | nil => exact absurd rfl some
  | cons first rest ih =>
    cases rest with
    | nil =>
      obtain ⟨next, back, rfl⟩ := exists_cons_of_ne_nil more
      simp [intercalate]
    | cons second rest =>
      have made := ih (cons_ne_nil _ _)
      simp only [intercalate, cons_append, intersperse_cons_cons, flatten_cons,
        append_assoc] at made ⊢
      rw [made]

variable [BEq α] [LawfulBEq α] {dot : α}

/-- A path extends another exactly where its segments do. -/
theorem append_dot_prefix_iff {path other : List α} : path ++ [dot] <+: other ↔
      path.splitOn dot <+: other.splitOn dot ∧ path.splitOn dot ≠ other.splitOn dot := by
  constructor
  · rintro ⟨rest, rfl⟩
    rw [append_assoc, singleton_append, splitOn_append_cons_self]
    refine ⟨prefix_append _ _, fun same => ?_⟩
    exact splitOn_ne_nil dot rest (self_eq_append_right.mp same)
  · rintro ⟨⟨rest, split⟩, different⟩
    have more : rest ≠ [] := by
      rintro rfl
      rw [append_nil] at split
      exact different split
    have joined := intercalate_append dot (splitOn_ne_nil dot path) more
    rw [split, intercalate_splitOn, intercalate_splitOn] at joined
    rw [joined]
    exact ⟨_, by rw [append_assoc, singleton_append]⟩

end Segments

end Dinkster.Library
