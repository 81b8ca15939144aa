import Dinkster.Library.Rounding

/-!
# Double precision

The numbers of binary64: finite ones with a significand below `2 ^ 53` and an exponent between
`-1074` and `971`, infinities and NaN.  An operation rounds the exact result to the nearest
finite number, ties to even, or overflows to an infinity.
-/

namespace Dinkster.Library

namespace FloatFormat

/-- The finite numbers of double precision. -/
def binary64 : FloatFormat :=
  ⟨53, Set.Icc (-1074) 971⟩

/-- Double precision without an upper bound on the exponent. -/
def gradual : FloatFormat :=
  ⟨53, Set.Ici (-1074)⟩

end FloatFormat

/-- The largest finite number. -/
def maxFinite : ℚ := (2 ^ 53 - 1) * 2 ^ (971 : ℤ)

/-- The power of two from which on a rounded value overflows. -/
def overflowBound : ℚ := 2 ^ (1024 : ℤ)

theorem two_pow_mul_two_zpow (bits : ℕ) (exponent : ℤ) :
    (2 : ℚ) ^ bits * 2 ^ exponent = 2 ^ (bits + exponent) := by
  rw [zpow_add₀ (by norm_num), zpow_natCast]

theorem two_pow_mul_two_zpow_eq {bits : ℕ} {exponent : ℤ} (sum : bits + exponent = 1024) :
    (2 : ℚ) ^ bits * 2 ^ exponent = overflowBound := by
  rw [two_pow_mul_two_zpow, sum, overflowBound]

theorem two_zpow_pos (exponent : ℤ) : (0 : ℚ) < 2 ^ exponent :=
  zpow_pos (by norm_num) exponent

theorem two_zpow_le {left right : ℤ} (le : left ≤ right) : (2 : ℚ) ^ left ≤ 2 ^ right :=
  zpow_le_zpow_right₀ (by norm_num) le

/-- A finite number. -/
structure Binary64 where
  negative : Bool
  significand : ℕ
  exponent : ℤ
  small : significand < 2 ^ 53
  least : -1074 ≤ exponent
  greatest : exponent ≤ 971
  canonical : -1074 < exponent → 2 ^ 52 ≤ significand
  deriving DecidableEq

namespace Binary64

variable (number : Binary64)

/-- The absolute value. -/
def magnitude : ℚ :=
  number.significand * 2 ^ number.exponent

/-- The exact value. -/
def toRat : ℚ :=
  if number.negative then -number.magnitude else number.magnitude

/-- A zero of either sign. -/
def zero (negative : Bool) : Binary64 where
  negative := negative
  significand := 0
  exponent := -1074
  small := by norm_num
  least := le_refl _
  greatest := by norm_num
  canonical := fun less => absurd less (lt_irrefl _)

/-- Change the sign. -/
def neg : Binary64 :=
  { number with negative := !number.negative }

@[simp] theorem toRat_neg : number.neg.toRat = -number.toRat := by
  unfold toRat neg magnitude
  cases number.negative <;> simp

theorem abs_toRat : |number.toRat| = number.magnitude := by
  have nonneg : 0 ≤ number.magnitude := mul_nonneg (Nat.cast_nonneg _) (zpow_nonneg (by norm_num) _)
  unfold toRat
  split
  · rw [abs_neg, abs_of_nonneg nonneg]
  · rw [abs_of_nonneg nonneg]

theorem magnitude_nonneg : 0 ≤ number.magnitude :=
  mul_nonneg (Nat.cast_nonneg _) (zpow_nonneg (by norm_num) _)

end Binary64

/-- A number of double precision. -/
inductive Double where
  | finite (number : Binary64)
  | infinite (negative : Bool)
  | nan
  deriving DecidableEq

namespace Double

def gridExponent (magnitude : ℚ) : ℤ :=
  if magnitude = 0 then -1074 else max (-1074) (Int.log 2 magnitude - 52)

def rounded (magnitude : ℚ) : ℤ :=
  halfEven (magnitude / 2 ^ gridExponent magnitude)

def roundedValue (magnitude : ℚ) : ℚ :=
  rounded magnitude * 2 ^ gridExponent magnitude

def ofScaled (negative : Bool) (significand : ℕ) (exponent : ℤ) : Double :=
  if fits : significand < 2 ^ 53 ∧ -1074 ≤ exponent ∧ exponent ≤ 971 ∧
      (-1074 < exponent → 2 ^ 52 ≤ significand) then
    .finite ⟨negative, significand, exponent, fits.1, fits.2.1, fits.2.2.1, fits.2.2.2⟩
  else .infinite negative

/-- The number nearest to a magnitude with a sign. -/
def round (negative : Bool) (magnitude : ℚ) : Double :=
  let significand := (rounded magnitude).toNat
  if significand < 2 ^ 53 then ofScaled negative significand (gridExponent magnitude)
  else ofScaled negative (2 ^ 52) (gridExponent magnitude + 1)

/-- The number nearest to an integer. -/
def ofInt (integer : ℤ) : Double :=
  round (integer < 0) integer.natAbs

/-- The number nearest to a power of two. -/
def twoPow (exponent : ℤ) : Double :=
  round false (2 ^ exponent)

def isFinite : Double → Bool
  | .finite _ => true
  | _ => false

/-- Change the sign. -/
def neg : Double → Double
  | .finite number => .finite number.neg
  | .infinite negative => .infinite !negative
  | .nan => .nan

/-- Multiply. -/
def mul : Double → Double → Double
  | .finite left, .finite right =>
    round (left.negative != right.negative) (left.magnitude * right.magnitude)
  | .infinite left, .finite right =>
    if right.significand = 0 then .nan else .infinite (left != right.negative)
  | .finite left, .infinite right =>
    if left.significand = 0 then .nan else .infinite (left.negative != right)
  | .infinite left, .infinite right => .infinite (left != right)
  | .nan, _ | _, .nan => .nan

/-- Add.  A sum of zero is negative only if both operands are. -/
def add : Double → Double → Double
  | .finite left, .finite right =>
    let sum := left.toRat + right.toRat
    if sum = 0 then .finite (.zero (left.negative && right.negative))
    else round (sum < 0) |sum|
  | .infinite left, .infinite right => if left = right then .infinite left else .nan
  | .infinite left, .finite _ => .infinite left
  | .finite _, .infinite right => .infinite right
  | .nan, _ | _, .nan => .nan

/-- Subtract. -/
def sub (left right : Double) : Double :=
  left.add right.neg

/-- Divide. -/
def div : Double → Double → Double
  | .finite left, .finite right =>
    if right.significand = 0 then
      if left.significand = 0 then .nan else .infinite (left.negative != right.negative)
    else round (left.negative != right.negative) (left.magnitude / right.magnitude)
  | .infinite left, .finite right => .infinite (left != right.negative)
  | .finite left, .infinite right => .finite (.zero (left.negative != right))
  | .infinite _, .infinite _ => .nan
  | .nan, _ | _, .nan => .nan

/-- The remainder of a truncated division, with the sign of the dividend. -/
def rem : Double → Double → Double
  | .finite left, .finite right =>
    if right.significand = 0 then .nan
    else round left.negative
      (left.magnitude - right.magnitude * ⌊left.magnitude / right.magnitude⌋)
  | .finite left, .infinite _ => .finite left
  | .infinite _, _ => .nan
  | .nan, _ | _, .nan => .nan

/-- The greatest integer that is not above a number. -/
def floor : Double → Double
  | .finite number => round number.negative |(⌊number.toRat⌋ : ℚ)|
  | other => other

/-- Whether a number is below another. -/
def lt : Double → Double → Bool
  | .finite left, .finite right => left.toRat < right.toRat
  | .infinite left, .finite _ => left
  | .finite _, .infinite right => !right
  | .infinite left, .infinite right => left && !right
  | .nan, _ | _, .nan => false

def isZero : Double → Bool
  | .finite number => number.significand = 0
  | _ => false

/-! ## Rounding -/

open FloatFormat

variable {magnitude value : ℚ} {negative : Bool}

section

variable (nonneg : 0 ≤ magnitude)

include nonneg

theorem grid_gridExponent : gradual.Grid magnitude (gridExponent magnitude) := by
  unfold gridExponent
  split
  · rename_i zero
    refine ⟨Set.mem_Ici.mpr (le_refl _), ?_, .inl fun other above => above⟩
    rw [zero, abs_zero]
    exact mul_pos (pow_pos (by norm_num) _) (zpow_pos (by norm_num) _)
  · rename_i nonzero
    have positive := lt_of_le_of_ne nonneg (Ne.symm nonzero)
    have upper := Int.lt_zpow_succ_log_self (b := 2) (by norm_num) magnitude
    have lower := Int.zpow_log_le_self (b := 2) (by norm_num) positive
    push_cast at upper lower
    refine ⟨Set.mem_Ici.mpr (le_max_left _ _), ?_, ?_⟩
    · rw [abs_of_nonneg nonneg]
      calc magnitude < 2 ^ (Int.log 2 magnitude + 1) := upper
        _ ≤ 2 ^ ((53 : ℤ) + max (-1074) (Int.log 2 magnitude - 52)) :=
            zpow_le_zpow_right₀ (by norm_num) (by omega)
        _ = 2 ^ 53 * 2 ^ max (-1074) (Int.log 2 magnitude - 52) := by
            rw [zpow_add₀ (by norm_num)]
            norm_cast
    · rcases le_total (Int.log 2 magnitude - 52) (-1074) with least | more
      · rw [max_eq_left least]
        exact .inl fun other above => above
      · rw [max_eq_right more, abs_of_nonneg nonneg]
        right
        calc (2 : ℚ) ^ 53 * 2 ^ (Int.log 2 magnitude - 52)
            = 2 * 2 ^ Int.log 2 magnitude := by
              rw [zpow_sub₀ (by norm_num)]
              norm_num
              ring
          _ ≤ 2 * magnitude := by linarith

theorem rounds_roundedValue : gradual.Rounds magnitude (roundedValue magnitude) :=
  rounds_of_grid (by decide) (grid_gridExponent nonneg) (isHalfEven_halfEven _)
    (.inr (Set.mem_Ici.mpr ((Set.mem_Ici.mp (grid_gridExponent nonneg).admitted).trans
      (by simp))))

/-- A rounded significand is not negative and has 53 bits, or one more when it carries. -/
theorem rounded_bounds : 0 ≤ rounded magnitude ∧ rounded magnitude ≤ 2 ^ 53 := by
  have whole := isHalfEven_halfEven (magnitude / 2 ^ gridExponent magnitude)
  constructor
  · apply whole.le_of_le
    push_cast
    exact div_nonneg nonneg (zpow_nonneg (by norm_num) _)
  · exact (le_abs_self _).trans (abs_le_of_grid (grid_gridExponent nonneg) whole)

/-- Above the least exponent a rounded significand has all its bits. -/
theorem half_le_rounded (more : -1074 < gridExponent magnitude) : 2 ^ 52 ≤ rounded magnitude := by
  have half := half_le_of_grid (by decide) (grid_gridExponent nonneg)
    (isHalfEven_halfEven (magnitude / 2 ^ gridExponent magnitude))
    (Set.mem_Ici.mpr (Int.le_sub_one_of_lt more))
  rwa [← rounded, abs_of_nonneg (rounded_bounds nonneg).1] at half

end

variable {exponent : ℤ}

variable {significand : ℕ}

/-- A canonical significand whose value is below `2 ^ 1024` is a finite number. -/
theorem ofScaled_of_lt (small : significand < 2 ^ 53) (least : -1074 ≤ exponent)
    (canonical : -1074 < exponent → 2 ^ 52 ≤ significand)
    (bounded : (significand : ℚ) * 2 ^ exponent < overflowBound) :
    ∃ number, ofScaled negative significand exponent = .finite number ∧
      number.negative = negative ∧ number.magnitude = significand * 2 ^ exponent := by
  have greatest : exponent ≤ 971 := by
    by_contra more
    have full : (2 : ℚ) ^ 52 ≤ significand := by
      exact_mod_cast canonical (by omega)
    have least : overflowBound ≤ significand * 2 ^ exponent := by
      calc overflowBound = 2 ^ 52 * 2 ^ (972 : ℤ) := (two_pow_mul_two_zpow_eq (by norm_num)).symm
        _ ≤ significand * 2 ^ exponent :=
            mul_le_mul full (two_zpow_le (by omega)) (two_zpow_pos _).le (Nat.cast_nonneg _)
    exact absurd bounded (not_lt.mpr least)
  unfold ofScaled
  rw [dif_pos ⟨small, least, greatest, canonical⟩]
  exact ⟨_, rfl, rfl, rfl⟩

/-- A significand whose value is not below `2 ^ 1024` overflows. -/
theorem ofScaled_of_le (large : overflowBound ≤ significand * 2 ^ exponent) :
    ofScaled negative significand exponent = .infinite negative := by
  unfold ofScaled
  rw [dif_neg]
  rintro ⟨small, _, greatest, _⟩
  have below : (significand : ℚ) < 2 ^ 53 := by exact_mod_cast small
  have value : (significand : ℚ) * 2 ^ exponent < overflowBound := by
    calc (significand : ℚ) * 2 ^ exponent < 2 ^ 53 * 2 ^ (971 : ℤ) :=
          mul_lt_mul below (two_zpow_le greatest) (two_zpow_pos _) (by positivity)
      _ = overflowBound := two_pow_mul_two_zpow_eq (by norm_num)
  exact absurd large (not_le.mpr value)

variable (negative : Bool)

theorem exists_round_eq (nonneg : 0 ≤ magnitude) :
    ∃ (significand : ℕ) (exponent : ℤ), significand < 2 ^ 53 ∧ -1074 ≤ exponent ∧
      (-1074 < exponent → 2 ^ 52 ≤ significand) ∧
      (significand : ℚ) * 2 ^ exponent = roundedValue magnitude ∧
      round negative magnitude = ofScaled negative significand exponent := by
  obtain ⟨least, most⟩ := rounded_bounds nonneg
  have admitted := Set.mem_Ici.mp (grid_gridExponent nonneg).admitted
  have cast : ((rounded magnitude).toNat : ℤ) = rounded magnitude := Int.toNat_of_nonneg least
  have castRat : ((rounded magnitude).toNat : ℚ) = rounded magnitude := by exact_mod_cast cast
  by_cases small : (rounded magnitude).toNat < 2 ^ 53
  · refine ⟨_, _, small, admitted, ?_, ?_, if_pos small⟩
    · intro more
      have half := half_le_rounded nonneg more
      omega
    · rw [castRat]
      rfl
  · refine ⟨2 ^ 52, gridExponent magnitude + 1, by norm_num, by omega, fun _ => le_refl _, ?_,
      if_neg small⟩
    have full : rounded magnitude = 2 ^ 53 := by omega
    unfold roundedValue
    rw [full, zpow_add_one₀ (by norm_num)]
    push_cast
    ring

theorem round_of_lt (nonneg : 0 ≤ magnitude) (bounded : roundedValue magnitude < overflowBound) :
    ∃ number, round negative magnitude = .finite number ∧ number.negative = negative ∧
      number.magnitude = roundedValue magnitude := by
  obtain ⟨significand, exponent, small, least, canonical, value, same⟩ :=
    exists_round_eq negative nonneg
  rw [same, ← value]
  exact ofScaled_of_lt small least canonical (by rw [value]; exact bounded)

theorem round_of_le (nonneg : 0 ≤ magnitude) (large : overflowBound ≤ roundedValue magnitude) :
    round negative magnitude = .infinite negative := by
  obtain ⟨significand, exponent, _, _, _, value, same⟩ := exists_round_eq negative nonneg
  rw [same]
  exact ofScaled_of_le (by rw [value]; exact large)

/-- A multiple of a power of two with at most 53 bits. -/
def IsShort (value : ℚ) (exponent : ℤ) : Prop :=
  ∃ (significand : ℕ) (power : ℤ), significand < 2 ^ 53 ∧ exponent ≤ power ∧
    value = significand * 2 ^ power

theorem IsShort.mul_zpow (short : IsShort value exponent) (shift : ℤ) :
    IsShort (value * 2 ^ shift) (exponent + shift) := by
  obtain ⟨significand, power, small, above, rfl⟩ := short
  refine ⟨significand, power + shift, small, by omega, ?_⟩
  rw [zpow_add₀ (by norm_num)]
  ring

theorem isShort_zpow (exponent : ℤ) : IsShort (2 ^ exponent) exponent :=
  ⟨1, exponent, by norm_num, le_refl _, by simp⟩

theorem IsShort.mono {other : ℤ} (short : IsShort value exponent) (lower : other ≤ exponent) :
    IsShort value other := by
  obtain ⟨significand, power, small, above, same⟩ := short
  exact ⟨significand, power, small, lower.trans above, same⟩

/-- A rounded significand has 53 bits even when it carries. -/
theorem isShort_of_le (bounded : significand ≤ 2 ^ 53) (exponent : ℤ) :
    IsShort (significand * 2 ^ exponent) exponent := by
  rcases bounded.lt_or_eq with small | full
  · exact ⟨significand, exponent, small, le_refl _, rfl⟩
  · refine ⟨1, exponent + 53, by norm_num, by omega, ?_⟩
    rw [full, zpow_add₀ (by norm_num)]
    push_cast
    norm_num
    ring

theorem roundedValue_of_isShort (short : IsShort value (-1074)) : roundedValue value = value := by
  obtain ⟨significand, power, small, above, rfl⟩ := short
  have below : (significand : ℚ) < 2 ^ 53 := by exact_mod_cast small
  have finer : significand = 0 ∨ gridExponent (significand * 2 ^ power) ≤ power := by
    by_cases zero : significand = 0
    · exact .inl zero
    · have positive : (0 : ℚ) < significand * 2 ^ power :=
        mul_pos (by exact_mod_cast Nat.pos_of_ne_zero zero) (zpow_pos (by norm_num) _)
      right
      unfold gridExponent
      rw [if_neg positive.ne']
      have log : Int.log 2 ((significand : ℚ) * 2 ^ power) < power + 53 := by
        rw [← Int.lt_zpow_iff_log_lt (by norm_num) positive]
        push_cast
        rw [zpow_add₀ (by norm_num), mul_comm]
        exact mul_lt_mul_of_pos_left below (zpow_pos (by norm_num) _)
      omega
  rcases finer with rfl | finer
  · unfold roundedValue rounded
    simp [halfEven]
  · obtain ⟨steps, same⟩ := Int.le.dest finer
    have whole : (significand : ℚ) * 2 ^ power / 2 ^ gridExponent (significand * 2 ^ power) =
        ((significand * 2 ^ steps : ℕ) : ℤ) := by
      have split : (2 : ℚ) ^ steps * 2 ^ gridExponent (significand * 2 ^ power) = 2 ^ power := by
        rw [two_pow_mul_two_zpow]
        congr 1
        omega
      rw [div_eq_iff (zpow_ne_zero _ (by norm_num))]
      push_cast
      rw [mul_assoc, split]
    have exact_ : rounded (significand * 2 ^ power) = (significand * 2 ^ steps : ℕ) := by
      unfold rounded
      rw [whole]
      exact ((isHalfEven_halfEven _).unique (isHalfEven_intCast _)).symm
    unfold roundedValue
    rw [exact_]
    rw [div_eq_iff (zpow_ne_zero _ (by norm_num))] at whole
    exact whole.symm

theorem round_of_isShort (nonneg : 0 ≤ value) (short : IsShort value (-1074))
    (bounded : value < overflowBound) :
    ∃ number, round negative value = .finite number ∧ number.negative = negative ∧
      number.magnitude = value := by
  have same := roundedValue_of_isShort short
  obtain ⟨number, rounded, sign, magnitude⟩ := round_of_lt negative nonneg (by rwa [same])
  exact ⟨number, rounded, sign, by rw [magnitude, same]⟩

theorem round_of_isShort_of_le (nonneg : 0 ≤ value) (short : IsShort value (-1074))
    (large : overflowBound ≤ value) : round negative value = .infinite negative :=
  round_of_le negative nonneg (by rwa [roundedValue_of_isShort short])

/-! ## Correct rounding -/

theorem le_maxFinite (number : Binary64) : number.magnitude ≤ maxFinite := by
  have small : (number.significand : ℚ) ≤ 2 ^ 53 - 1 := by
    have bound : (number.significand : ℚ) + 1 ≤ 2 ^ 53 := by exact_mod_cast number.small
    linarith
  exact mul_le_mul small (two_zpow_le number.greatest) (two_zpow_pos _).le (by norm_num)

theorem maxFinite_lt : maxFinite < overflowBound := by
  unfold maxFinite
  have bound : (2 : ℚ) ^ 53 * 2 ^ (971 : ℤ) = overflowBound := two_pow_mul_two_zpow_eq (by norm_num)
  rw [← bound]
  exact mul_lt_mul_of_pos_right (by norm_num) (two_zpow_pos _)

theorem represents_gradual {significand : ℤ}
    (represents : binary64.Represents significand exponent value) :
    gradual.Represents significand exponent value where
  eq := represents.eq
  bounded := represents.bounded
  admitted := represents.admitted.1
  canonical := fun nonzero lower => represents.canonical nonzero
    ⟨lower, (Int.sub_le_self _ (by norm_num)).trans represents.admitted.2⟩

theorem represents_binary64 {significand : ℤ}
    (represents : gradual.Represents significand exponent value)
    (bounded : |value| < overflowBound) :
    ∃ exponent, binary64.Represents significand exponent value := by
  by_cases zero : significand = 0
  · refine ⟨-1074, ?_, represents.bounded, ⟨le_refl _, by norm_num⟩,
      fun nonzero => absurd zero nonzero⟩
    rw [represents.eq, zero]
    simp
  · refine ⟨exponent, represents.eq, represents.bounded, ⟨represents.admitted, ?_⟩,
      fun nonzero lower => represents.canonical nonzero lower.1⟩
    by_contra more
    have full := represents.canonical zero (Set.mem_Ici.mpr (by omega))
    have cast : (2 : ℚ) ^ 53 ≤ 2 * |(significand : ℚ)| := by exact_mod_cast full
    have half : (2 : ℚ) ^ 52 ≤ |(significand : ℚ)| := by linarith
    have large : overflowBound ≤ |value| := by
      calc overflowBound = 2 ^ 52 * 2 ^ (972 : ℤ) := (two_pow_mul_two_zpow_eq (by norm_num)).symm
        _ ≤ |(significand : ℚ)| * 2 ^ exponent :=
            mul_le_mul half (two_zpow_le (by omega)) (two_zpow_pos _).le (abs_nonneg _)
        _ = |value| := by rw [represents.eq, abs_mul, abs_of_pos (two_zpow_pos exponent)]
    exact absurd bounded (not_lt.mpr large)

theorem rounds_binary64 {number : ℚ} (rounds : gradual.Rounds number value)
    (bounded : |value| < overflowBound) : binary64.Rounds number value := by
  apply rounds.restrict
  · rintro other ⟨_, _, represents⟩
    exact ⟨_, _, represents_gradual represents⟩
  · obtain ⟨_, _, represents⟩ := rounds.member
    obtain ⟨_, represents⟩ := represents_binary64 represents bounded
    exact ⟨_, _, represents⟩
  · rintro ⟨_, _, represents, even⟩
    obtain ⟨_, represents⟩ := represents_binary64 represents bounded
    exact ⟨_, _, represents, even⟩

/-- A number exceeds the finite range when it is rounded without a bound on the exponent. -/
def Overflows (number : ℚ) : Prop :=
  ∃ value, (unbounded 53).Rounds number value ∧ maxFinite < |value|

theorem overflows_neg (number : ℚ) : Overflows (-number) ↔ Overflows number := by
  have one : ∀ number, Overflows number → Overflows (-number) := by
    rintro number ⟨value, rounds, large⟩
    exact ⟨-value, rounds.neg, by rwa [abs_neg]⟩
  refine ⟨fun overflows => ?_, one number⟩
  rw [← neg_neg number]
  exact one _ overflows

/-- The grid of a positive number without a bound on the exponent. -/
theorem grid_unbounded (positive : 0 < magnitude) :
    (unbounded 53).Grid magnitude (Int.log 2 magnitude - 52) := by
  have upper := Int.lt_zpow_succ_log_self (b := 2) (by norm_num) magnitude
  have lower := Int.zpow_log_le_self (b := 2) (by norm_num) positive
  push_cast at upper lower
  have bound : (2 : ℚ) ^ 53 * 2 ^ (Int.log 2 magnitude - 52) = 2 ^ (Int.log 2 magnitude + 1) := by
    rw [two_pow_mul_two_zpow]
    congr 1
    push_cast
    ring
  refine ⟨Set.mem_univ _, ?_, .inr ?_⟩
  · rw [abs_of_pos positive]
    exact upper.trans_eq bound.symm
  · rw [abs_of_pos positive]
    calc (2 : ℚ) ^ 53 * 2 ^ (Int.log 2 magnitude - 52) = 2 * 2 ^ Int.log 2 magnitude := by
          rw [bound, zpow_add_one₀ (by norm_num), mul_comm]
      _ ≤ 2 * magnitude := by linarith

theorem maxFinite_lt_roundedValue (nonneg : 0 ≤ magnitude) :
    maxFinite < roundedValue magnitude ↔ overflowBound ≤ roundedValue magnitude := by
  refine ⟨fun more => ?_, maxFinite_lt.trans_le⟩
  by_contra less
  obtain ⟨number, _, _, same⟩ := round_of_lt false nonneg (not_le.mp less)
  exact absurd more (not_lt.mpr (same ▸ le_maxFinite number))

theorem roundedValue_nonneg (nonneg : 0 ≤ magnitude) : 0 ≤ roundedValue magnitude :=
  mul_nonneg (by exact_mod_cast (rounded_bounds nonneg).1) (two_zpow_pos _).le

/-- A significand with a carry at a subnormal exponent is far from the bound. -/
theorem lt_maxFinite_of_exponent (small : exponent ≤ -1074) :
    (2 : ℚ) ^ 53 * 2 ^ exponent < maxFinite := by
  have power : (2 : ℚ) ^ exponent ≤ 2 ^ (0 : ℤ) := two_zpow_le (by omega)
  have large : (2 : ℚ) ^ (2 : ℤ) ≤ 2 ^ (971 : ℤ) := two_zpow_le (by norm_num)
  calc (2 : ℚ) ^ 53 * 2 ^ exponent ≤ 2 ^ 53 * 2 ^ (0 : ℤ) :=
        mul_le_mul_of_nonneg_left power (by positivity)
    _ < (2 ^ 53 - 1) * 2 ^ (2 : ℤ) := by norm_num
    _ ≤ maxFinite := mul_le_mul_of_nonneg_left large (by norm_num)

theorem maxFinite_pos : 0 < maxFinite :=
  (mul_pos (by norm_num) (two_zpow_pos _)).trans (lt_maxFinite_of_exponent (le_refl (-1074)))

theorem not_overflows_zero : ¬ Overflows 0 := by
  rintro ⟨value, rounds, large⟩
  have member : (unbounded 53).Member 0 :=
    ⟨0, 0, by simp, by norm_num [unbounded], Set.mem_univ _, fun nonzero => absurd rfl nonzero⟩
  have nearest := rounds.nearest 0 member
  rw [sub_zero, abs_zero, zero_sub, abs_neg] at nearest
  exact absurd (large.trans_le nearest) (not_lt.mpr maxFinite_pos.le)

/-- The rounding of a positive number without a bound on the exponent. -/
def unboundedValue (magnitude : ℚ) : ℚ :=
  halfEven (magnitude / 2 ^ (Int.log 2 magnitude - 52)) * 2 ^ (Int.log 2 magnitude - 52)

theorem overflows_iff_unboundedValue (positive : 0 < magnitude) :
    Overflows magnitude ↔ maxFinite < |unboundedValue magnitude| := by
  have grid := grid_unbounded positive
  have whole := isHalfEven_halfEven (magnitude / 2 ^ (Int.log 2 magnitude - 52))
  constructor
  · rintro ⟨value, rounds, large⟩
    have same := rounds_unique (by decide) grid whole (.inr (Set.mem_univ _)) rounds
    rwa [same] at large
  · intro large
    exact ⟨_, rounds_of_grid (by decide) grid whole (.inr (Set.mem_univ _)), large⟩

/-- The rounding without a bound on the exponent exceeds the finite range exactly when the
rounding that respects the least exponent overflows. -/
theorem overflows_iff (nonneg : 0 ≤ magnitude) :
    Overflows magnitude ↔ overflowBound ≤ roundedValue magnitude := by
  rcases nonneg.eq_or_lt with zero | positive
  · rw [← zero, roundedValue_of_isShort ⟨0, 0, by norm_num, by norm_num, by simp⟩]
    exact iff_of_false not_overflows_zero (not_le.mpr (two_zpow_pos 1024))
  · rw [overflows_iff_unboundedValue positive, ← maxFinite_lt_roundedValue nonneg]
    rcases le_or_gt (-1074) (Int.log 2 magnitude - 52) with normal | subnormal
    · have same : gridExponent magnitude = Int.log 2 magnitude - 52 := by
        unfold gridExponent
        rw [if_neg positive.ne', max_eq_right normal]
      have value : unboundedValue magnitude = roundedValue magnitude := by
        unfold unboundedValue roundedValue rounded
        rw [same]
      rw [value, abs_of_nonneg (roundedValue_nonneg nonneg)]
    · have least : gridExponent magnitude = -1074 := by
        unfold gridExponent
        rw [if_neg positive.ne', max_eq_left subnormal.le]
      have whole := isHalfEven_halfEven (magnitude / 2 ^ (Int.log 2 magnitude - 52))
      have bound : (|halfEven (magnitude / 2 ^ (Int.log 2 magnitude - 52))| : ℚ) ≤ 2 ^ 53 := by
        exact_mod_cast abs_le_of_grid (grid_unbounded positive) whole
      have carry : (rounded magnitude : ℚ) ≤ 2 ^ 53 := by
        exact_mod_cast (rounded_bounds nonneg).2
      refine iff_of_false (not_lt.mpr ?_) (not_lt.mpr ?_)
      · unfold unboundedValue
        rw [abs_mul, abs_of_pos (two_zpow_pos _)]
        exact (mul_le_mul_of_nonneg_right bound (two_zpow_pos _).le).trans
          (lt_maxFinite_of_exponent subnormal.le).le
      · unfold roundedValue
        rw [least]
        exact (mul_le_mul_of_nonneg_right carry (two_zpow_pos _).le).trans
          (lt_maxFinite_of_exponent (le_refl _)).le

end Double

end Dinkster.Library
