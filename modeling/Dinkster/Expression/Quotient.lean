import Dinkster.Expression.Division

/-!
# Correct rounding of the true division

The scaled operands keep enough bits of the quotient for the grid of double precision, so that
the rounded quotient is the one of the exact quotient, and neither the conversion nor the
scaling rounds again.
-/

namespace Dinkster.Expression

open Library Double FloatFormat

/-! ## The quotient -/

theorem truncates_div (numerator : Nat) {denominator : Nat} (positive : 0 < denominator) :
    Truncates ((numerator : ℚ) / denominator) (numerator / denominator)
      (numerator % denominator != 0) where
  least := Nat.cast_div_le
  most := by
    have cast : (0 : ℚ) < denominator := by exact_mod_cast positive
    rw [div_lt_iff₀ cast]
    exact_mod_cast Nat.lt_mul_of_div_lt (Nat.lt_succ_self (numerator / denominator)) positive
  exact_ := by
    have cast : (denominator : ℚ) ≠ 0 := by exact_mod_cast positive.ne'
    rw [bne_eq_false_iff_eq, div_eq_iff cast]
    constructor
    · intro zero
      exact_mod_cast (Nat.div_mul_cancel (Nat.dvd_of_mod_eq_zero zero)).symm
    · intro whole
      have whole : numerator = numerator / denominator * denominator := by exact_mod_cast whole
      rw [whole]
      exact Nat.mul_mod_left _ _

theorem truncates_truncatedQuotient (a : Nat) {b : Nat} (positive : 0 < b) (shift : Int) :
    Truncates ((a : ℚ) / b / 2 ^ shift) (truncatedQuotient a b shift).1
      (truncatedQuotient a b shift).2 := by
  unfold truncatedQuotient
  split
  · rename_i small
    have scaled := truncates_div (a <<< (-shift).toNat) positive
    have same : ((a <<< (-shift).toNat : Nat) : ℚ) / b = (a : ℚ) / b / 2 ^ shift := by
      have power : (2 : ℚ) ^ shift = ((2 : ℚ) ^ (-shift).toNat)⁻¹ := by
        rw [← zpow_natCast, ← zpow_neg, Int.toNat_of_nonneg (by omega), neg_neg]
      rw [Nat.shiftLeft_eq, power, div_inv_eq_mul]
      push_cast
      ring
    rw [same] at scaled
    exact scaled
  · rename_i large
    have scaledPositive : 0 < b <<< shift.toNat := by
      rw [Nat.shiftLeft_eq]
      exact Nat.mul_pos positive (Nat.two_pow_pos _)
    have scaled := truncates_div a scaledPositive
    have same : (a : ℚ) / (b <<< shift.toNat : Nat) = (a : ℚ) / b / 2 ^ shift := by
      have power : (2 : ℚ) ^ shift = (2 : ℚ) ^ shift.toNat := by
        rw [← zpow_natCast, Int.toNat_of_nonneg (by omega)]
      rw [Nat.shiftLeft_eq, power, div_div]
      push_cast
      rfl
    rw [same] at scaled
    exact scaled

theorem bitLength_bounds {number : Nat} (positive : 0 < number) :
    (2 : ℚ) ^ (bitLength number - 1 : ℤ) ≤ number ∧ (number : ℚ) < 2 ^ (bitLength number : ℤ) := by
  have least := Nat.base_pow_length_digits_le 2 number (by norm_num) positive.ne'
  have most := Nat.lt_base_pow_length_digits (b := 2) (m := number) (by norm_num)
  have least : (2 : ℚ) ^ bitLength number ≤ 2 * number := by exact_mod_cast least
  have most : (number : ℚ) < 2 ^ bitLength number := by exact_mod_cast most
  rw [zpow_sub_one₀ (by norm_num), zpow_natCast]
  exact ⟨by linarith, most⟩

theorem bitLength_zero : bitLength (0 : Nat) = 0 := rfl

theorem lt_two_pow_bitLength (number : Nat) : (number : ℚ) + 1 ≤ 2 ^ (bitLength number : ℤ) := by
  have most := Nat.lt_base_pow_length_digits (b := 2) (m := number) (by norm_num)
  rw [zpow_natCast]
  exact_mod_cast most

section Quotient

variable {a b : Nat} (numerator : 0 < a) (denominator : 0 < b)

include numerator denominator in
theorem quotient_bounds : (2 : ℚ) ^ (lengthDifference a b - 1) < (a : ℚ) / b ∧
      (a : ℚ) / b < 2 ^ (lengthDifference a b + 1) := by
  obtain ⟨leastA, mostA⟩ := bitLength_bounds numerator
  obtain ⟨leastB, mostB⟩ := bitLength_bounds denominator
  have positive : (0 : ℚ) < b := by exact_mod_cast denominator
  unfold lengthDifference
  constructor
  · rw [lt_div_iff₀ positive]
    calc (2 : ℚ) ^ ((bitLength a : ℤ) - bitLength b - 1) * b
        < 2 ^ ((bitLength a : ℤ) - bitLength b - 1) * 2 ^ (bitLength b : ℤ) :=
          mul_lt_mul_of_pos_left mostB (two_zpow_pos _)
      _ = 2 ^ ((bitLength a : ℤ) - 1) := by
          rw [← zpow_add₀ (by norm_num)]
          congr 1
          ring
      _ ≤ a := leastA
  · rw [div_lt_iff₀ positive]
    calc (a : ℚ) < 2 ^ (bitLength a : ℤ) := mostA
      _ = 2 ^ ((bitLength a : ℤ) - bitLength b + 1) * 2 ^ ((bitLength b : ℤ) - 1) := by
          rw [← zpow_add₀ (by norm_num)]
          congr 1
          ring
      _ ≤ 2 ^ ((bitLength a : ℤ) - bitLength b + 1) * b :=
          mul_le_mul_of_nonneg_left leastB (two_zpow_pos _).le

include numerator denominator in
/-- The quotient has at most three extra bits, and two unless it is subnormal. -/
theorem extraBits_bounds (quotient : Nat) (inexact : Bool)
    (truncates : Truncates ((a : ℚ) / b / 2 ^ quotientShift a b) quotient inexact) :
    2 ≤ extraBits quotient (quotientShift a b) ∧ extraBits quotient (quotientShift a b) ≤ 3 := by
  obtain ⟨lower, upper⟩ := quotient_bounds numerator denominator
  have upperScaled : (a : ℚ) / b / 2 ^ quotientShift a b < 2 ^ (56 : ℤ) := by
    rw [div_lt_iff₀ (two_zpow_pos _), ← zpow_add₀ (by norm_num)]
    apply upper.trans_le
    apply two_zpow_le
    unfold quotientShift
    omega
  have most : bitLength quotient ≤ 56 := by
    by_contra more
    have positive : 0 < quotient := by
      by_contra zero
      rw [Nat.eq_zero_of_not_pos zero, bitLength_zero] at more
      omega
    have wide : (2 : ℚ) ^ (56 : ℤ) ≤ 2 ^ (bitLength quotient - 1 : ℤ) := two_zpow_le (by omega)
    have least := (bitLength_bounds positive).1
    have below := truncates.least
    linarith
  have enough : 55 ≤ max (bitLength quotient : ℤ) (-1021 - quotientShift a b) := by
    rcases le_or_gt (-1021) (lengthDifference a b) with normal | subnormal
    · have lowerScaled : (2 : ℚ) ^ (54 : ℤ) < (a : ℚ) / b / 2 ^ quotientShift a b := by
        rw [lt_div_iff₀ (two_zpow_pos _), ← zpow_add₀ (by norm_num)]
        apply lt_of_le_of_lt _ lower
        apply two_zpow_le
        unfold quotientShift
        omega
      have room := lt_two_pow_bitLength quotient
      have above := truncates.most
      have wide : (2 : ℚ) ^ (54 : ℤ) < 2 ^ (bitLength quotient : ℤ) := by linarith
      have length := (zpow_lt_zpow_iff_right₀ (by norm_num : (1 : ℚ) < 2)).mp wide
      exact le_max_of_le_left (by omega)
    · apply le_max_of_le_right
      unfold quotientShift
      omega
  have subnormal : -1021 - quotientShift a b ≤ 55 := by
    unfold quotientShift
    omega
  unfold extraBits
  omega

include numerator denominator in
/-- The surviving bits are those of the grid of double precision. -/
theorem grid_quotient (quotient : Nat) (inexact : Bool)
    (truncates : Truncates ((a : ℚ) / b / 2 ^ quotientShift a b) quotient inexact) :
    gradual.Grid ((a : ℚ) / b) (quotientShift a b + extraBits quotient (quotientShift a b)) := by
  have bits := extraBits_bounds numerator denominator quotient inexact truncates
  have positive : (0 : ℚ) < (a : ℚ) / b :=
    div_pos (by exact_mod_cast numerator) (by exact_mod_cast denominator)
  have split : (a : ℚ) / b = (a : ℚ) / b / 2 ^ quotientShift a b * 2 ^ quotientShift a b :=
    (div_mul_cancel₀ _ (two_zpow_pos _).ne').symm
  have exponent : quotientShift a b + extraBits quotient (quotientShift a b) =
      max (bitLength quotient + quotientShift a b - 53) (-1074) := by
    unfold extraBits
    omega
  refine ⟨?_, ?_, ?_⟩
  · rw [exponent]
    exact Set.mem_Ici.mpr (le_max_right _ _)
  · rw [abs_of_pos positive, split]
    calc (a : ℚ) / b / 2 ^ quotientShift a b * 2 ^ quotientShift a b
        < (quotient + 1) * 2 ^ quotientShift a b :=
          mul_lt_mul_of_pos_right truncates.most (two_zpow_pos _)
      _ ≤ 2 ^ (bitLength quotient : ℤ) * 2 ^ quotientShift a b :=
          mul_le_mul_of_nonneg_right (lt_two_pow_bitLength quotient) (two_zpow_pos _).le
      _ = 2 ^ ((bitLength quotient : ℤ) + quotientShift a b) := (zpow_add₀ (by norm_num) _ _).symm
      _ ≤ 2 ^ ((53 : ℕ) + (quotientShift a b + extraBits quotient (quotientShift a b))) := by
          apply two_zpow_le
          rw [exponent]
          omega
      _ = _ := (two_pow_mul_two_zpow 53 _).symm
  · rcases le_or_gt (bitLength quotient + quotientShift a b - 53 : ℤ) (-1074) with least | more
    · left
      rw [exponent, max_eq_right least]
      exact fun other above => above
    · right
      have present : 0 < quotient := by
        by_contra zero
        unfold extraBits at bits
        rw [Nat.eq_zero_of_not_pos zero, bitLength_zero] at more bits
        omega
      rw [abs_of_pos positive, exponent, max_eq_left more.le]
      calc (2 : ℚ) ^ 53 * 2 ^ ((bitLength quotient : ℤ) + quotientShift a b - 53)
          = 2 * (2 ^ ((bitLength quotient : ℤ) - 1) * 2 ^ quotientShift a b) := by
            rw [two_pow_mul_two_zpow, ← zpow_add₀ (by norm_num), mul_comm (2 : ℚ),
              ← zpow_add_one₀ (by norm_num)]
            congr 1
            push_cast
            ring
        _ ≤ 2 * (quotient * 2 ^ quotientShift a b) := by
            have least := mul_le_mul_of_nonneg_right (bitLength_bounds present).1
              (two_zpow_pos (quotientShift a b)).le
            linarith
        _ ≤ 2 * ((a : ℚ) / b) := by
            have least := mul_le_mul_of_nonneg_right truncates.least
              (two_zpow_pos (quotientShift a b)).le
            rw [← split] at least
            linarith

include numerator denominator in
theorem roundedQuotient_spec :
    (roundedQuotient a b : ℚ) * 2 ^ quotientShift a b = roundedValue ((a : ℚ) / b) ∧
      IsShort (roundedQuotient a b) 0 ∧
      IsShort ((roundedQuotient a b : ℚ) * 2 ^ quotientShift a b) (-1074) ∧
      (roundedQuotient a b : ℚ) ≤ 2 ^ (56 : ℤ) := by
  have truncates := truncates_truncatedQuotient a denominator (quotientShift a b)
  have bits := extraBits_bounds numerator denominator _ _ truncates
  have grid := grid_quotient numerator denominator _ _ truncates
  obtain ⟨more, extra⟩ := Int.le.dest bits.1
  have extra : extraBits (truncatedQuotient a b (quotientShift a b)).1 (quotientShift a b) =
      (more + 2 : Nat) := by omega
  have few : more ≤ 1 := by omega
  obtain ⟨multiple, rounded, nearest⟩ := isHalfEven_roundExtraBits truncates more
  have same : roundedQuotient a b = multiple * 2 ^ (more + 2) := by
    unfold roundedQuotient
    simp only [extra]
    exact rounded
  rw [extra] at grid
  have power : (2 : ℚ) ^ (quotientShift a b + (more + 2 : Nat)) =
      2 ^ quotientShift a b * 2 ^ (more + 2) := by
    rw [zpow_add₀ (by norm_num), zpow_natCast]
  have onGrid : IsHalfEven ((a : ℚ) / b / 2 ^ (quotientShift a b + (more + 2 : Nat))) multiple := by
    rw [power, ← div_div]
    exact nearest
  have value : (roundedQuotient a b : ℚ) * 2 ^ quotientShift a b =
      (multiple : ℤ) * 2 ^ (quotientShift a b + (more + 2 : Nat)) := by
    rw [same, power]
    push_cast
    ring
  have bounded : multiple ≤ 2 ^ 53 := by
    have bound := abs_le_of_grid grid onGrid
    rw [Int.abs_eq_natAbs, Int.natAbs_natCast] at bound
    exact_mod_cast bound
  refine ⟨?_, ?_, ?_, ?_⟩
  · rw [value]
    have nonneg : (0 : ℚ) ≤ (a : ℚ) / b := div_nonneg (Nat.cast_nonneg _) (Nat.cast_nonneg _)
    have rounds := rounds_of_grid (by decide) grid onGrid
      (.inr ((Set.mem_Ici.mp grid.admitted).trans (by simp)))
    exact rounds_unique (by decide) (grid_gridExponent nonneg) (isHalfEven_halfEven _)
      (.inr ((Set.mem_Ici.mp (grid_gridExponent nonneg).admitted).trans (by simp))) rounds
  · have short := isShort_of_le bounded (more + 2 : Nat)
    rw [zpow_natCast] at short
    rw [same]
    push_cast
    exact short.mono (by omega)
  · rw [value, Int.cast_natCast]
    exact (isShort_of_le bounded _).mono grid.admitted
  · rw [same]
    have power : 2 ^ (more + 2) ≤ 2 ^ 3 := Nat.pow_le_pow_right (by norm_num) (by omega)
    have product : multiple * 2 ^ (more + 2) ≤ 2 ^ 53 * 2 ^ 3 := Nat.mul_le_mul bounded power
    have bound : multiple * 2 ^ (more + 2) ≤ 2 ^ 56 := product.trans (by norm_num)
    exact_mod_cast bound

end Quotient

theorem twoPow_of_lt {exponent : Int} (least : -1074 ≤ exponent) (most : exponent < 1024) :
    ∃ number, twoPow exponent = .finite number ∧ number.negative = false ∧
      number.magnitude = 2 ^ exponent :=
  round_of_isShort false (two_zpow_pos _).le ((isShort_zpow exponent).mono least)
    (zpow_lt_zpow_right₀ (by norm_num) most)

/-- A product with at most 53 bits is exact, or overflows. -/
theorem mul_of_isShort {left right : Binary64} (leftSign : left.negative = false)
    (rightSign : right.negative = false)
    (short : IsShort (left.magnitude * right.magnitude) (-1074)) :
    (left.magnitude * right.magnitude < overflowBound → ∃ number,
      Double.mul (.finite left) (.finite right) = .finite number ∧ number.negative = false ∧
        number.magnitude = left.magnitude * right.magnitude) ∧
    (overflowBound ≤ left.magnitude * right.magnitude →
      Double.mul (.finite left) (.finite right) = .infinite false) := by
  have nonneg := mul_nonneg left.magnitude_nonneg right.magnitude_nonneg
  have product : Double.mul (.finite left) (.finite right) =
      Double.round false (left.magnitude * right.magnitude) := by
    change Double.round (left.negative != right.negative) _ = _
    rw [leftSign, rightSign]
    rfl
  rw [product]
  exact ⟨round_of_isShort false nonneg short, round_of_isShort_of_le false nonneg short⟩

/-- `ldexp` is exact, or overflows. -/
theorem ldexp_spec {mantissa : Binary64} (sign : mantissa.negative = false) {exponent : Int}
    (whole : IsShort mantissa.magnitude 0) (bounded : mantissa.magnitude ≤ 2 ^ (56 : ℤ))
    (short : IsShort (mantissa.magnitude * 2 ^ exponent) (-1074))
    (least : -1076 ≤ exponent) (most : exponent < 1024) :
    (mantissa.magnitude * 2 ^ exponent < overflowBound → ∃ number,
      ldexp (.finite mantissa) exponent = .finite number ∧ number.negative = false ∧
        number.magnitude = mantissa.magnitude * 2 ^ exponent) ∧
    (overflowBound ≤ mantissa.magnitude * 2 ^ exponent →
      ldexp (.finite mantissa) exponent = .infinite false) := by
  unfold ldexp
  split
  · obtain ⟨power, same, powerSign, value⟩ := twoPow_of_lt (show -1074 ≤ exponent by omega) most
    rw [same, ← value]
    rw [← value] at short
    exact mul_of_isShort sign powerSign short
  · obtain ⟨first, same, firstSign, value⟩ :=
      twoPow_of_lt (show (-1074 : Int) ≤ -1000 by norm_num) (by norm_num)
    obtain ⟨second, sameSecond, secondSign, valueSecond⟩ :=
      twoPow_of_lt (show -1074 ≤ exponent + 1000 by omega) (by omega)
    have shortFirst : IsShort (mantissa.magnitude * first.magnitude) (-1074) := by
      rw [value]
      exact (whole.mul_zpow (-1000)).mono (by norm_num)
    have belowFirst : mantissa.magnitude * first.magnitude < overflowBound := by
      rw [value]
      calc mantissa.magnitude * 2 ^ (-1000 : ℤ) ≤ 2 ^ (56 : ℤ) * 2 ^ (-1000 : ℤ) :=
            mul_le_mul_of_nonneg_right bounded (two_zpow_pos _).le
        _ = 2 ^ (56 + -1000 : ℤ) := (zpow_add₀ (by norm_num) _ _).symm
        _ < overflowBound := zpow_lt_zpow_right₀ (by norm_num) (by norm_num)
    obtain ⟨middle, product, middleSign, middleValue⟩ :=
      (mul_of_isShort sign firstSign shortFirst).1 belowFirst
    have total : middle.magnitude * second.magnitude = mantissa.magnitude * 2 ^ exponent := by
      rw [middleValue, value, valueSecond, mul_assoc, ← zpow_add₀ (by norm_num)]
      congr 2
      ring
    rw [same, product, sameSecond, ← total]
    rw [← total] at short
    exact mul_of_isShort middleSign secondSign short

section Rounding

variable {a b : Nat} (numerator : 0 < a) (denominator : 0 < b)

include numerator denominator in
theorem scaled_spec (most : lengthDifference a b ≤ 1024) :
    (∃ converted, Double.ofInt (roundedQuotient a b) = .finite converted ∧
      converted.toRat = roundedQuotient a b) ∧
    (roundedValue ((a : ℚ) / b) < overflowBound → ∃ number,
      ldexp (.ofInt (roundedQuotient a b)) (quotientShift a b) = .finite number ∧
        number.negative = false ∧ number.magnitude = roundedValue ((a : ℚ) / b)) ∧
    (overflowBound ≤ roundedValue ((a : ℚ) / b) →
      ldexp (.ofInt (roundedQuotient a b)) (quotientShift a b) = .infinite false) := by
  obtain ⟨value, whole, short, bounded⟩ := roundedQuotient_spec numerator denominator
  have converts : ∃ converted, Double.ofInt (roundedQuotient a b) = .finite converted ∧
      converted.negative = false ∧ converted.magnitude = roundedQuotient a b := by
    have positive : decide (((roundedQuotient a b : Nat) : Int) < 0) = false :=
      decide_eq_false (by omega)
    unfold Double.ofInt
    rw [positive, Int.natAbs_natCast]
    exact round_of_isShort false (Nat.cast_nonneg _) (whole.mono (by norm_num))
      (bounded.trans_lt (zpow_lt_zpow_right₀ (by norm_num) (by norm_num)))
  obtain ⟨converted, same, sign, magnitude⟩ := converts
  rw [← magnitude] at whole short bounded value
  have exact_ : converted.toRat = roundedQuotient a b := by
    unfold Binary64.toRat
    rw [sign, magnitude]
    rfl
  rw [same, ← value]
  exact ⟨⟨converted, rfl, exact_⟩, ldexp_spec sign whole bounded short
    (by unfold quotientShift; omega) (by unfold quotientShift; omega)⟩

theorem overflowBound_le_roundedValue {magnitude : ℚ} (large : overflowBound ≤ magnitude) :
    overflowBound ≤ roundedValue magnitude := by
  have positive : 0 < overflowBound := two_zpow_pos _
  have short : IsShort overflowBound (-1074) := (isShort_zpow 1024).mono (by norm_num)
  have own : gradual.Member overflowBound := by
    have rounds := rounds_roundedValue positive.le
    rw [roundedValue_of_isShort short] at rounds
    exact rounds.member
  have nearest := (rounds_roundedValue (positive.le.trans large)).nearest _ own
  by_contra less
  rw [abs_of_nonneg (by linarith), abs_of_nonneg (by linarith)] at nearest
  linarith

/-- What is below half of the least positive number is rounded to zero. -/
theorem roundedValue_of_lt {magnitude : ℚ} (positive : 0 < magnitude)
    (small : magnitude < 2 ^ (-1075 : ℤ)) : roundedValue magnitude = 0 := by
  have half : (2 : ℚ) ^ (-1075 : ℤ) = 1 / 2 * 2 ^ (-1074 : ℤ) := by
    rw [show (-1075 : ℤ) = -1074 - 1 by norm_num, zpow_sub_one₀ (by norm_num)]
    ring
  have grid : gridExponent magnitude = -1074 := by
    unfold gridExponent
    rw [if_neg positive.ne', max_eq_left]
    have log : Int.log 2 magnitude < -1075 := by
      rw [← Int.lt_zpow_iff_log_lt (by norm_num) positive]
      exact small
    omega
  have scaled : magnitude / 2 ^ (-1074 : ℤ) < 1 / 2 := by
    rw [div_lt_iff₀ (two_zpow_pos _), ← half]
    exact small
  have nonneg : 0 ≤ magnitude / 2 ^ (-1074 : ℤ) := div_nonneg positive.le (two_zpow_pos _).le
  have zero : IsHalfEven (magnitude / 2 ^ (-1074 : ℤ)) 0 := by
    constructor
    · rw [Int.cast_zero, sub_zero, abs_of_nonneg nonneg]
      exact scaled.le
    · exact fun _ => Even.zero
  unfold roundedValue rounded
  rw [grid, zero.unique (isHalfEven_halfEven _)]
  simp

end Rounding

variable (numerator denominator : Int)

/-- The quotient of two integers by the quotient of their magnitudes. -/
theorem div_eq_signed : (numerator : ℚ) / denominator =
      if (decide (numerator < 0) != decide (denominator < 0)) = true then
        -((numerator.natAbs : ℚ) / denominator.natAbs)
      else (numerator.natAbs : ℚ) / denominator.natAbs := by
  have magnitude : ∀ value : Int,
      ((value.natAbs : Nat) : ℚ) = if value < 0 then -(value : ℚ) else value := by
    intro value
    rw [Nat.cast_natAbs]
    split
    · rename_i less
      rw [abs_of_neg less, Int.cast_neg]
    · rename_i more
      rw [abs_of_nonneg (not_lt.mp more)]
  rw [magnitude, magnitude]
  by_cases left : numerator < 0
  · by_cases right : denominator < 0
    · simp [left, right, neg_div_neg_eq]
    · simp [left, right, neg_div]
  · by_cases right : denominator < 0
    · simp [left, right, div_neg]
    · simp [left, right]

/-- What the division computes from the magnitudes. -/
def divideMagnitudes (a b : Nat) : Except String Double :=
  if a = 0 then .ok (.finite (.zero false))
  else if 1024 < lengthDifference a b then
    .error "integer division result too large for a float"
  else if lengthDifference a b < -1075 then .ok (.finite (.zero false))
  else
    let result := ldexp (.ofInt (roundedQuotient a b)) (quotientShift a b)
    if result.isFinite then .ok result
    else .error "integer division result too large for a float"

/-- The sign is applied last. -/
theorem intTrueDivide_eq : intTrueDivide numerator denominator =
      (divideMagnitudes numerator.natAbs denominator.natAbs).map fun result =>
        if (decide (numerator < 0) != decide (denominator < 0)) = true then result.neg
        else result := by
  have zero : ∀ negative : Bool, Double.finite (.zero negative) =
      if negative = true then (Double.finite (.zero false)).neg else .finite (.zero false) := by
    decide
  unfold intTrueDivide divideMagnitudes
  simp only
  split
  · exact congrArg _ (zero _)
  · split
    · rfl
    · split
      · exact congrArg _ (zero _)
      · split <;> rfl

theorem divideMagnitudes_spec (a : Nat) {b : Nat} (denominator : 0 < b) :
    (roundedValue ((a : ℚ) / b) < overflowBound → ∃ number,
      divideMagnitudes a b = .ok (.finite number) ∧ number.negative = false ∧
        number.magnitude = roundedValue ((a : ℚ) / b)) ∧
    (overflowBound ≤ roundedValue ((a : ℚ) / b) → ∃ message,
      divideMagnitudes a b = .error message) := by
  unfold divideMagnitudes
  split
  · rename_i zero
    have value : roundedValue ((a : ℚ) / b) = 0 := by
      rw [zero, Nat.cast_zero, zero_div]
      exact roundedValue_of_isShort ⟨0, 0, by norm_num, by norm_num, by simp⟩
    rw [value]
    refine ⟨fun _ => ⟨_, rfl, rfl, by simp [Binary64.zero, Binary64.magnitude]⟩, fun large => ?_⟩
    exact absurd (two_zpow_pos 1024) (not_lt.mpr large)
  · rename_i nonzero
    have numerator := Nat.pos_of_ne_zero nonzero
    obtain ⟨lower, upper⟩ := quotient_bounds numerator denominator
    have positive : (0 : ℚ) < (a : ℚ) / b :=
      div_pos (by exact_mod_cast numerator) (by exact_mod_cast denominator)
    split
    · rename_i large
      have beyond := overflowBound_le_roundedValue
        ((two_zpow_le (by omega : 1024 ≤ lengthDifference a b - 1)).trans lower.le)
      exact ⟨fun less => absurd less (not_lt.mpr beyond), fun _ => ⟨_, rfl⟩⟩
    · split
      · rename_i small
        have value := roundedValue_of_lt positive
          (upper.trans_le (two_zpow_le (by omega : lengthDifference a b + 1 ≤ -1075)))
        rw [value]
        refine ⟨fun _ => ⟨_, rfl, rfl, by simp [Binary64.zero, Binary64.magnitude]⟩,
          fun large => ?_⟩
        exact absurd (two_zpow_pos 1024) (not_lt.mpr large)
      · rename_i most _
        obtain ⟨_, finite, overflows⟩ := scaled_spec numerator denominator (not_lt.mp most)
        constructor
        · intro less
          obtain ⟨number, same, sign, magnitude⟩ := finite less
          refine ⟨number, ?_, sign, magnitude⟩
          simp only [same, Double.isFinite, if_true]
        · intro large
          refine ⟨"integer division result too large for a float", ?_⟩
          simp only [overflows large, Double.isFinite]
          rfl

/-- The quotient of two integers is rounded to double precision, and the division fails exactly
when it overflows.  The steps in between are exact. -/
structure DividesCorrectly (numerator denominator : Int) : Prop where
  fails_iff : (∃ message, intTrueDivide numerator denominator = .error message) ↔
    Overflows ((numerator : ℚ) / denominator)
  rounds : ∀ result, intTrueDivide numerator denominator = .ok result →
    ∃ number, result = .finite number ∧
      binary64.Rounds ((numerator : ℚ) / denominator) number.toRat
  exact_ : numerator ≠ 0 →
    lengthDifference numerator.natAbs denominator.natAbs ≤ 1024 →
    (∃ converted,
      Double.ofInt (roundedQuotient numerator.natAbs denominator.natAbs) = .finite converted ∧
        converted.toRat = roundedQuotient numerator.natAbs denominator.natAbs) ∧
    ((∃ number, ldexp (.ofInt (roundedQuotient numerator.natAbs denominator.natAbs))
          (quotientShift numerator.natAbs denominator.natAbs) = .finite number ∧
        number.toRat = roundedQuotient numerator.natAbs denominator.natAbs *
          2 ^ quotientShift numerator.natAbs denominator.natAbs) ∨
      (ldexp (.ofInt (roundedQuotient numerator.natAbs denominator.natAbs))
          (quotientShift numerator.natAbs denominator.natAbs) = .infinite false ∧
        maxFinite < roundedQuotient numerator.natAbs denominator.natAbs *
          2 ^ quotientShift numerator.natAbs denominator.natAbs))

theorem overflows_div_iff : Overflows ((numerator : ℚ) / denominator) ↔
      overflowBound ≤ roundedValue ((numerator.natAbs : ℚ) / denominator.natAbs) := by
  have nonneg : (0 : ℚ) ≤ (numerator.natAbs : ℚ) / denominator.natAbs :=
    div_nonneg (Nat.cast_nonneg _) (Nat.cast_nonneg _)
  rw [div_eq_signed]
  split
  · rw [overflows_neg, overflows_iff nonneg]
  · rw [overflows_iff nonneg]

theorem rounds_signed {numerator denominator : Int} {number : Binary64}
    (sign : number.negative = false)
    (value : number.magnitude = roundedValue ((numerator.natAbs : ℚ) / denominator.natAbs))
    (bounded : roundedValue ((numerator.natAbs : ℚ) / denominator.natAbs) < overflowBound) :
    ∃ signed, (if (decide (numerator < 0) != decide (denominator < 0)) = true then
        (Double.finite number).neg else .finite number) = .finite signed ∧
      binary64.Rounds ((numerator : ℚ) / denominator) signed.toRat := by
  have nonneg : (0 : ℚ) ≤ (numerator.natAbs : ℚ) / denominator.natAbs :=
    div_nonneg (Nat.cast_nonneg _) (Nat.cast_nonneg _)
  have rounds := rounds_roundedValue nonneg
  have finite : |roundedValue ((numerator.natAbs : ℚ) / denominator.natAbs)| < overflowBound := by
    rwa [abs_of_nonneg (roundedValue_nonneg nonneg)]
  have own : number.toRat = roundedValue ((numerator.natAbs : ℚ) / denominator.natAbs) := by
    unfold Binary64.toRat
    rw [sign, value]
    rfl
  have rounds := rounds_binary64 rounds finite
  rw [← own] at rounds
  rw [div_eq_signed]
  split
  · refine ⟨number.neg, rfl, ?_⟩
    rw [Binary64.toRat_neg]
    exact rounds.neg
  · exact ⟨number, rfl, rounds⟩

/-- Integer true division is correctly rounded. -/
theorem intTrueDivide_correctlyRounded (numerator denominator : Int)
    (nonzero : denominator ≠ 0) : DividesCorrectly numerator denominator := by
  have positive : 0 < denominator.natAbs := Int.natAbs_pos.mpr nonzero
  have spec := divideMagnitudes_spec numerator.natAbs positive
  refine ⟨?_, ?_, ?_⟩
  · rw [overflows_div_iff, intTrueDivide_eq]
    constructor
    · rintro ⟨message, failed⟩
      by_contra less
      obtain ⟨number, same, _⟩ := spec.1 (not_le.mp less)
      rw [same] at failed
      exact nomatch failed
    · intro large
      obtain ⟨message, same⟩ := spec.2 large
      rw [same]
      exact ⟨message, rfl⟩
  · intro result returned
    rw [intTrueDivide_eq] at returned
    rcases lt_or_ge (roundedValue ((numerator.natAbs : ℚ) / denominator.natAbs)) overflowBound with
      less | large
    · obtain ⟨number, same, sign, value⟩ := spec.1 less
      rw [same] at returned
      obtain ⟨signed, own, rounds⟩ := rounds_signed sign value less
      refine ⟨signed, ?_, rounds⟩
      rw [← own]
      exact (Except.ok.inj returned).symm
    · obtain ⟨message, same⟩ := spec.2 large
      rw [same] at returned
      exact nomatch returned
  · intro present most
    have numeratorPositive : 0 < numerator.natAbs := Int.natAbs_pos.mpr present
    obtain ⟨converts, finite, overflows⟩ := scaled_spec numeratorPositive positive most
    have value := (roundedQuotient_spec numeratorPositive positive).1
    refine ⟨converts, ?_⟩
    rw [value]
    rcases lt_or_ge (roundedValue ((numerator.natAbs : ℚ) / denominator.natAbs)) overflowBound with
      less | large
    · obtain ⟨number, same, sign, magnitude⟩ := finite less
      refine .inl ⟨number, same, ?_⟩
      unfold Binary64.toRat
      rw [sign, magnitude]
      rfl
    · exact .inr ⟨overflows large, maxFinite_lt.trans_le large⟩

theorem minus_one_third_correctlyRounded : (3 : Int) ≠ 0 ∧ DividesCorrectly (-1) 3 :=
  ⟨by decide, intTrueDivide_correctlyRounded (-1) 3 (by decide)⟩

end Dinkster.Expression
