import Mathlib

/-!
# Rounding to nearest, ties to even

A rational number is rounded to an integer, and by scaling to a floating-point format.  A
format has the values `m · 2 ^ e` whose significand `m` has a bounded number of bits and whose
exponent is admitted.  A value is represented canonically where its exponent is the least
that is admitted for it; a rounding picks, of two values that are equally near, the one whose
canonical significand is even.
-/

namespace Dinkster.Library

/-- The integer nearest to a number, the even one of two. -/
def halfEven (number : ℚ) : ℤ :=
  if Int.fract number < 1 / 2 then ⌊number⌋
  else if 1 / 2 < Int.fract number then ⌊number⌋ + 1
  else if Even ⌊number⌋ then ⌊number⌋ else ⌊number⌋ + 1

structure IsHalfEven (number : ℚ) (integer : ℤ) : Prop where
  within : |number - integer| ≤ 1 / 2
  even : |number - integer| = 1 / 2 → Even integer

theorem isHalfEven_halfEven (number : ℚ) : IsHalfEven number (halfEven number) := by
  have floor : number - ⌊number⌋ = Int.fract number := rfl
  have above : number - (⌊number⌋ + 1 : ℤ) = Int.fract number - 1 := by
    push_cast
    rw [← floor]
    ring
  have nonneg := Int.fract_nonneg number
  have small := Int.fract_lt_one number
  have below : |number - ⌊number⌋| = Int.fract number := by
    rw [floor, abs_of_nonneg nonneg]
  have beyond : |number - (⌊number⌋ + 1 : ℤ)| = 1 - Int.fract number := by
    rw [above, abs_of_nonpos (by linarith)]
    ring
  unfold halfEven
  split
  · rename_i less
    exact ⟨by rw [below]; exact less.le, fun tie => by rw [below] at tie; linarith⟩
  · split
    · rename_i more
      exact ⟨by rw [beyond]; linarith, fun tie => by rw [beyond] at tie; linarith⟩
    · rename_i least most
      have half : Int.fract number = 1 / 2 := le_antisymm (not_lt.mp most) (not_lt.mp least)
      split
      · rename_i even
        exact ⟨by rw [below, half], fun _ => even⟩
      · rename_i odd
        refine ⟨by rw [beyond, half]; norm_num, fun _ => ?_⟩
        exact (Int.not_even_iff_odd.mp odd).add_one

namespace IsHalfEven

variable {number : ℚ} {integer other : ℤ}

theorem one_le_abs_sub (apart : other ≠ integer) : (1 : ℚ) ≤ |(integer : ℚ) - other| := by
  have whole : 1 ≤ |integer - other| := Int.one_le_abs (sub_ne_zero.mpr (Ne.symm apart))
  exact_mod_cast whole

section

variable (rounded : IsHalfEven number integer)

include rounded

theorem nearest (other : ℤ) : |number - integer| ≤ |number - other| := by
  by_cases same : other = integer
  · rw [same]
  · have apart := one_le_abs_sub same
    have triangle : |(integer : ℚ) - other| ≤ |number - integer| + |number - other| := by
      have := abs_sub_le (integer : ℚ) number other
      rwa [abs_sub_comm (integer : ℚ) number] at this
    have within := rounded.within
    linarith

/-- Of two nearest integers the rounded one is even, and the other one odd. -/
theorem tie (apart : other ≠ integer) (equally : |number - integer| = |number - other|) :
    Even integer ∧ ¬ Even other := by
  have distance := one_le_abs_sub apart
  have triangle : |(integer : ℚ) - other| ≤ |number - integer| + |number - other| := by
    have := abs_sub_le (integer : ℚ) number other
    rwa [abs_sub_comm (integer : ℚ) number] at this
  have within := rounded.within
  have half : |number - integer| = 1 / 2 := by linarith
  have one : |(integer : ℚ) - other| = 1 := by linarith
  have whole : |integer - other| = 1 := by exact_mod_cast one
  have even := rounded.even half
  refine ⟨even, fun also => ?_⟩
  have difference := even.sub also
  rcases (abs_eq (by norm_num)).mp whole with up | down
  · rw [up] at difference
    exact absurd difference (by decide)
  · rw [down] at difference
    exact absurd difference (by decide)

theorem unique (also : IsHalfEven number other) : other = integer := by
  by_contra apart
  have equally := le_antisymm (rounded.nearest other) (also.nearest integer)
  exact (rounded.tie apart equally).2 (also.tie (Ne.symm apart) equally.symm).1

theorem le_of_le (bound : (other : ℚ) ≤ number) : other ≤ integer := by
  by_contra less
  have step : (integer : ℚ) + 1 ≤ other := by exact_mod_cast not_le.mp less
  have within := (abs_le.mp rounded.within).2
  linarith

theorem le_of_ge (bound : number ≤ (other : ℚ)) : integer ≤ other := by
  by_contra more
  have step : (other : ℚ) + 1 ≤ integer := by exact_mod_cast not_le.mp more
  have within := (abs_le.mp rounded.within).1
  linarith

theorem abs_le_of_le (bound : |number| ≤ (other : ℚ)) : |integer| ≤ other := by
  have bounds := abs_le.mp bound
  apply abs_le.mpr
  refine ⟨rounded.le_of_le ?_, rounded.le_of_ge bounds.2⟩
  push_cast
  exact bounds.1

theorem le_abs_of_le (bound : (other : ℚ) ≤ |number|) : other ≤ |integer| := by
  rcases le_abs.mp bound with positive | negative
  · exact (rounded.le_of_le positive).trans (le_abs_self integer)
  · have least : integer ≤ -other := by
      apply rounded.le_of_ge
      push_cast
      linarith
    exact (le_neg_of_le_neg least).trans (neg_le_abs integer)

end

end IsHalfEven

theorem isHalfEven_intCast (integer : ℤ) : IsHalfEven integer integer where
  within := by simp
  even := by simp

/-- Rounding to a multiple of a step. -/
theorem isHalfEven_div {number step : ℚ} {integer : ℤ} (positive : 0 < step)
    (within : 2 * |number - integer * step| ≤ step)
    (even : 2 * |number - integer * step| = step → Even integer) :
    IsHalfEven (number / step) integer := by
  have scaled : |number / step - integer| * step = |number - integer * step| := by
    rw [← abs_of_pos positive, ← abs_mul, abs_of_pos positive, sub_mul,
      div_mul_cancel₀ _ positive.ne']
  rw [← scaled] at within even
  refine ⟨?_, fun tie => even ?_⟩
  · exact le_of_mul_le_mul_right (by linarith) positive
  · rw [tie]
    ring

/-- The number of bits of a significand and the exponents that are admitted. -/
structure FloatFormat where
  precision : ℕ
  exponents : Set ℤ

namespace FloatFormat

/-- The format without bounds on the exponent. -/
def unbounded (precision : ℕ) : FloatFormat :=
  ⟨precision, Set.univ⟩

structure Represents (format : FloatFormat) (significand exponent : ℤ) (value : ℚ) : Prop where
  eq : value = significand * 2 ^ exponent
  bounded : |significand| < 2 ^ format.precision
  admitted : exponent ∈ format.exponents
  canonical : significand ≠ 0 → exponent - 1 ∈ format.exponents →
    2 ^ format.precision ≤ 2 * |significand|

def Member (format : FloatFormat) (value : ℚ) : Prop :=
  ∃ significand exponent, format.Represents significand exponent value

def HasEven (format : FloatFormat) (value : ℚ) : Prop :=
  ∃ significand exponent, format.Represents significand exponent value ∧ Even significand

/-- A value is the one of the format that is nearest to a number, ties going to the even one. -/
structure Rounds (format : FloatFormat) (number value : ℚ) : Prop where
  member : format.Member value
  nearest : ∀ other, format.Member other → |number - value| ≤ |number - other|
  even : ∀ other, format.Member other → other ≠ value →
    |number - value| = |number - other| → format.HasEven value

/-- The exponent of the grid on which a format rounds a number: all values at or above it are
multiples of its power of two, and only the least exponent has smaller significands. -/
structure Grid (format : FloatFormat) (number : ℚ) (exponent : ℤ) : Prop where
  admitted : exponent ∈ format.exponents
  below : |number| < 2 ^ format.precision * 2 ^ exponent
  above : (∀ other ∈ format.exponents, exponent ≤ other) ∨
    2 ^ format.precision * 2 ^ exponent ≤ 2 * |number|

variable {format : FloatFormat} {number value : ℚ} {significand exponent other at_ : ℤ}

theorem Represents.neg (represents : format.Represents significand exponent value) :
    format.Represents (-significand) exponent (-value) where
  eq := by
    rw [represents.eq]
    push_cast
    ring
  bounded := by
    rw [abs_neg]
    exact represents.bounded
  admitted := represents.admitted
  canonical := fun nonzero lower => by
    rw [abs_neg]
    exact represents.canonical (neg_ne_zero.mp nonzero) lower

theorem Member.neg (member : format.Member value) : format.Member (-value) := by
  obtain ⟨significand, exponent, represents⟩ := member
  exact ⟨_, _, represents.neg⟩

/-- Rounding commutes with the sign. -/
theorem Rounds.neg (rounds : format.Rounds number value) : format.Rounds (-number) (-value) where
  member := rounds.member.neg
  nearest := fun other member => by
    have nearest := rounds.nearest (-other) member.neg
    rwa [← abs_neg (number - value), ← abs_neg (number - -other), neg_sub', neg_sub',
      neg_neg] at nearest
  even := fun other member apart equally => by
    have equally : |number - value| = |number - -other| := by
      rwa [← abs_neg (number - value), ← abs_neg (number - -other), neg_sub', neg_sub', neg_neg]
    obtain ⟨significand, exponent, represents, even⟩ :=
      rounds.even (-other) member.neg (fun same => apart (by rw [← same, neg_neg])) equally
    exact ⟨_, _, represents.neg, even.neg⟩

theorem Rounds.restrict {smaller : FloatFormat} (rounds : format.Rounds number value)
    (fewer : ∀ other, smaller.Member other → format.Member other)
    (member : smaller.Member value) (even : format.HasEven value → smaller.HasEven value) :
    smaller.Rounds number value where
  member := member
  nearest := fun other listed => rounds.nearest other (fewer other listed)
  even := fun other listed apart equally =>
    even (rounds.even other (fewer other listed) apart equally)

theorem Grid.multiple (grid : format.Grid number at_)
    (represents : format.Represents significand exponent value) :
    (∃ multiple : ℤ, value = multiple * 2 ^ at_ ∧ (Even significand → Even multiple)) ∨
      (2 * |value| < 2 ^ format.precision * 2 ^ at_ ∧
        2 ^ format.precision * 2 ^ at_ ≤ 2 * |number|) := by
  by_cases fine : at_ ≤ exponent
  · left
    obtain ⟨steps, rfl⟩ := Int.le.dest fine
    refine ⟨significand * 2 ^ steps, ?_, fun even => even.mul_right _⟩
    rw [represents.eq, zpow_add₀ (by norm_num), zpow_natCast]
    push_cast
    ring
  · right
    have coarse : ¬ ∀ other ∈ format.exponents, at_ ≤ other :=
      fun least => fine (least _ represents.admitted)
    refine ⟨?_, grid.above.resolve_left coarse⟩
    have power : (2 : ℚ) ^ (exponent + 1) ≤ 2 ^ at_ := zpow_le_zpow_right₀ (by norm_num) (by omega)
    have bounded : |(significand : ℚ)| < 2 ^ format.precision := by
      exact_mod_cast represents.bounded
    have positive : (0 : ℚ) < 2 ^ exponent := zpow_pos (by norm_num) _
    calc 2 * |value| = |(significand : ℚ)| * 2 ^ (exponent + 1) := by
          rw [represents.eq, abs_mul, abs_of_pos positive, zpow_add_one₀ (by norm_num)]
          ring
      _ < 2 ^ format.precision * 2 ^ (exponent + 1) := by
          exact mul_lt_mul_of_pos_right bounded (zpow_pos (by norm_num) _)
      _ ≤ 2 ^ format.precision * 2 ^ at_ :=
          mul_le_mul_of_nonneg_left power (by positivity)

/-- The bound of the significands is even. -/
theorem two_pow_split {bits : ℕ} (wide : 2 ≤ bits) : (2 : ℤ) ^ bits = 2 * 2 ^ (bits - 1) := by
  rw [← pow_succ']
  congr 1
  omega

/-- The distance to a multiple of the grid, measured in grid steps. -/
theorem abs_sub_mul (number : ℚ) (multiple exponent : ℤ) :
    |number - multiple * 2 ^ exponent| = 2 ^ exponent * |number / 2 ^ exponent - multiple| := by
  have positive : (0 : ℚ) < 2 ^ exponent := zpow_pos (by norm_num) _
  rw [← abs_of_pos positive, ← abs_mul, abs_of_pos positive]
  congr 1
  field_simp

section Grid

variable (wide : 2 ≤ format.precision) (grid : format.Grid number exponent)
  (rounded : IsHalfEven (number / 2 ^ exponent) significand)

include rounded in
/-- The rounded multiple of the grid is at least as near as any other. -/
theorem nearest_multiple (multiple : ℤ) :
    |number - significand * 2 ^ exponent| ≤ |number - multiple * 2 ^ exponent| := by
  rw [abs_sub_mul, abs_sub_mul]
  exact mul_le_mul_of_nonneg_left (rounded.nearest multiple) (zpow_nonneg (by norm_num) _)

include wide rounded in
/-- A value below the grid is farther away than the rounded multiple. -/
theorem nearer_of_small (small : 2 * |value| < 2 ^ format.precision * 2 ^ exponent)
    (large : 2 ^ format.precision * 2 ^ exponent ≤ 2 * |number|) :
    |number - significand * 2 ^ exponent| < |number - value| := by
  obtain ⟨bits, precision⟩ := Nat.exists_eq_add_of_le wide
  have split : (2 : ℚ) ^ format.precision = 2 * 2 ^ (bits + 1) := by
    rw [precision, ← pow_succ']
    congr 1
    omega
  rw [split] at small large
  have bounds := abs_lt.mp (show |value| < 2 ^ (bits + 1) * 2 ^ exponent by linarith)
  rcases le_total 0 number with positive | negative
  · have boundary := nearest_multiple rounded (2 ^ (bits + 1))
    push_cast at boundary
    rw [abs_of_nonneg positive] at large
    rw [abs_of_nonneg (show 0 ≤ number - 2 ^ (bits + 1) * 2 ^ exponent by linarith)] at boundary
    have far := le_abs_self (number - value)
    linarith
  · have boundary := nearest_multiple rounded (-2 ^ (bits + 1))
    push_cast at boundary
    rw [abs_of_nonpos negative] at large
    rw [abs_of_nonpos (show number - -2 ^ (bits + 1) * 2 ^ exponent ≤ 0 by linarith)] at boundary
    have far := neg_le_abs (number - value)
    linarith

include rounded grid in
theorem abs_le_of_grid : |significand| ≤ 2 ^ format.precision := by
  have positive : (0 : ℚ) < 2 ^ exponent := zpow_pos (by norm_num) _
  apply rounded.abs_le_of_le
  push_cast
  rw [abs_div, abs_of_pos positive, div_le_iff₀ positive]
  exact grid.below.le

include wide rounded grid in
theorem half_le_of_grid (lower : exponent - 1 ∈ format.exponents) :
    2 ^ (format.precision - 1) ≤ |significand| := by
  have coarse : ¬ ∀ other ∈ format.exponents, exponent ≤ other :=
    fun least => absurd (least _ lower) (by omega)
  have large := grid.above.resolve_left coarse
  have positive : (0 : ℚ) < 2 ^ exponent := zpow_pos (by norm_num) _
  have split : (2 : ℚ) ^ format.precision = 2 * 2 ^ (format.precision - 1) := by
    exact_mod_cast two_pow_split wide
  apply rounded.le_abs_of_le
  push_cast
  rw [abs_div, abs_of_pos positive, le_div_iff₀ positive]
  rw [split] at large
  linarith

include wide rounded grid in
/-- A significand below the bound represents the rounded multiple canonically. -/
theorem represents_of_lt (small : |significand| < 2 ^ format.precision) :
    format.Represents significand exponent (significand * 2 ^ exponent) where
  eq := rfl
  bounded := small
  admitted := grid.admitted
  canonical := by
    intro _ lower
    have half := half_le_of_grid wide grid rounded lower
    rw [two_pow_split wide]
    linarith

include wide in
theorem represents_of_eq (full : |significand| = 2 ^ format.precision)
    (next : exponent + 1 ∈ format.exponents) :
    ∃ halved, format.Represents halved (exponent + 1) (significand * 2 ^ exponent) ∧
      Even halved := by
  have split := two_pow_split wide
  have power : (0 : ℤ) < 2 ^ (format.precision - 1) := by positivity
  have even : Even ((2 : ℤ) ^ (format.precision - 1)) := (Int.even_pow' (by omega)).mpr even_two
  have double : (2 : ℚ) ^ (exponent + 1) = 2 * 2 ^ exponent := by
    rw [zpow_add_one₀ (by norm_num), mul_comm]
  have represents : format.Represents (2 ^ (format.precision - 1)) (exponent + 1)
      ((2 ^ format.precision : ℤ) * 2 ^ exponent) := by
    refine ⟨?_, ?_, next, fun _ _ => ?_⟩
    · rw [split, double]
      push_cast
      ring
    · rw [abs_of_pos power, split]
      linarith
    · rw [abs_of_pos power, split]
  rcases (abs_eq (by positivity)).mp full with up | down
  · rw [up]
    exact ⟨_, represents, even⟩
  · refine ⟨_, ?_, even.neg⟩
    have negated := represents.neg
    rw [← neg_mul] at negated
    rw [down]
    push_cast at negated ⊢
    exact negated

variable (room : |significand| < 2 ^ format.precision ∨ exponent + 1 ∈ format.exponents)

include wide rounded grid room in
theorem member_of_grid : format.Member (significand * 2 ^ exponent) := by
  rcases (abs_le_of_grid grid rounded).lt_or_eq with small | full
  · exact ⟨_, _, represents_of_lt wide grid rounded small⟩
  · have next := room.resolve_left (by rw [full]; exact lt_irrefl _)
    obtain ⟨halved, represents, _⟩ := represents_of_eq wide full next
    exact ⟨_, _, represents⟩

include wide rounded grid room in
theorem hasEven_of_grid (even : Even significand) :
    format.HasEven (significand * 2 ^ exponent) := by
  rcases (abs_le_of_grid grid rounded).lt_or_eq with small | full
  · exact ⟨_, _, represents_of_lt wide grid rounded small, even⟩
  · have next := room.resolve_left (by rw [full]; exact lt_irrefl _)
    obtain ⟨halved, represents, even⟩ := represents_of_eq wide full next
    exact ⟨_, _, represents, even⟩

include wide rounded grid in
/-- A member of the format is no nearer than the rounded multiple, and where it is as near, it
lies on the grid. -/
theorem nearer_or_tie (represents : format.Represents other at_ value) :
    |number - significand * 2 ^ exponent| < |number - value| ∨
      ∃ multiple : ℤ, value = multiple * 2 ^ exponent ∧ (Even other → Even multiple) ∧
        |number - significand * 2 ^ exponent| ≤ |number - value| := by
  rcases grid.multiple represents with ⟨multiple, rfl, even⟩ | ⟨small, large⟩
  · exact .inr ⟨multiple, rfl, even, nearest_multiple rounded multiple⟩
  · exact .inl (nearer_of_small wide rounded small large)

theorem even_of_tie (rounded : IsHalfEven (number / 2 ^ exponent) significand) {multiple : ℤ}
    (apart : (multiple : ℚ) * 2 ^ exponent ≠ significand * 2 ^ exponent)
    (equally : |number - significand * 2 ^ exponent| = |number - multiple * 2 ^ exponent|) :
    Even significand ∧ ¬ Even multiple := by
  apply rounded.tie
  · rintro rfl
    exact apart rfl
  · rw [abs_sub_mul, abs_sub_mul] at equally
    exact mul_left_cancel₀ (zpow_ne_zero exponent (by norm_num)) equally

include wide rounded grid room in
theorem rounds_of_grid : format.Rounds number (significand * 2 ^ exponent) where
  member := member_of_grid wide grid rounded room
  nearest := by
    rintro other ⟨_, _, represents⟩
    rcases nearer_or_tie wide grid rounded represents with nearer | ⟨_, _, _, nearest⟩
    · exact nearer.le
    · exact nearest
  even := by
    rintro other ⟨_, _, represents⟩ apart equally
    rcases nearer_or_tie wide grid rounded represents with nearer | ⟨multiple, rfl, _, _⟩
    · exact absurd equally nearer.ne
    · exact hasEven_of_grid wide grid rounded room (even_of_tie rounded apart equally).1

include wide rounded grid room in
theorem rounds_unique (rounds : format.Rounds number value) :
    value = significand * 2 ^ exponent := by
  by_contra apart
  have own := rounds_of_grid wide grid rounded room
  have equally := le_antisymm (own.nearest value rounds.member) (rounds.nearest _ own.member)
  obtain ⟨other, at_, represents, even⟩ := rounds.even _ own.member (Ne.symm apart) equally.symm
  rcases nearer_or_tie wide grid rounded represents with nearer | ⟨multiple, rfl, keeps, _⟩
  · exact absurd equally nearer.ne
  · exact (even_of_tie rounded apart equally).2 (keeps even)

end Grid

end FloatFormat

end Dinkster.Library
