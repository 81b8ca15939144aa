import Dinkster.Library.Double

/-!
# True division of integers

`intTrueDivide` scales the operands so that the truncated quotient keeps two or three bits
beyond those that survive, rounds half to even with the remainder folded in as a sticky bit, and
scales the result back.
-/

namespace Dinkster.Expression

open Library

def bitLength (value : Int) : Nat :=
  (Nat.digits 2 value.natAbs).length

def ldexp (mantissa : Double) (exponent : Int) : Double :=
  if -1000 ≤ exponent then mantissa.mul (Double.twoPow exponent)
  else (mantissa.mul (Double.twoPow (-1000))).mul (Double.twoPow (exponent + 1000))

variable (a b : Nat)

def lengthDifference : Int :=
  bitLength a - bitLength b

def quotientShift : Int :=
  max (lengthDifference a b) (-1021) - 55

/-- The truncated quotient of the scaled operands, and whether there is a remainder. -/
def truncatedQuotient (shift : Int) : Nat × Bool :=
  if shift ≤ 0 then
    let scaled := a <<< (-shift).toNat
    (scaled / b, scaled % b != 0)
  else
    let scaled := b <<< shift.toNat
    (a / scaled, a % scaled != 0)

/-- The number of bits of a quotient beyond those that survive. -/
def extraBits (quotient : Nat) (shift : Int) : Int :=
  max (bitLength quotient : Int) (-1021 - shift) - 53

/-- The quotient, with its last bit set when there is a remainder. -/
def withSticky (quotient : Nat) (inexact : Bool) : Nat :=
  if inexact then quotient ||| 1 else quotient

def roundExtraBits (quotient : Nat) (inexact : Bool) (extraBits : Int) : Nat :=
  let mask := 1 <<< (extraBits - 1).toNat
  let x := withSticky quotient inexact
  let x := if x &&& mask ≠ 0 ∧ x &&& (3 * mask - 1) ≠ 0 then x + mask else x
  Nat.ldiff x (2 * mask - 1)

/-- The rounded quotient of two magnitudes, to be scaled by `quotientShift`. -/
def roundedQuotient : Nat :=
  let shift := quotientShift a b
  let (quotient, inexact) := truncatedQuotient a b shift
  roundExtraBits quotient inexact (extraBits quotient shift)

def intTrueDivide (numerator denominator : Int) : Except String Double :=
  let negative := decide (numerator < 0) != decide (denominator < 0)
  let a := numerator.natAbs
  let b := denominator.natAbs
  if a = 0 then .ok (.finite (.zero negative))
  else if 1024 < lengthDifference a b then
    .error "integer division result too large for a float"
  else if lengthDifference a b < -1075 then .ok (.finite (.zero negative))
  else
    let result := ldexp (.ofInt (roundedQuotient a b)) (quotientShift a b)
    if result.isFinite then .ok (if negative then result.neg else result)
    else .error "integer division result too large for a float"

example : intTrueDivide 1 3 = .ok (.finite
    ⟨false, 6004799503160661, -54, by decide, by decide, by decide, by decide⟩) := by
  decide +kernel


section ExtraBits

variable {quotient bits : Nat} {inexact : Bool}

theorem withSticky_div :
    withSticky quotient inexact / 2 ^ (bits + 1) = quotient / 2 ^ (bits + 1) := by
  unfold withSticky
  cases inexact with
  | false => rfl
  | true =>
    have one : 1 / 2 ^ (bits + 1) = 0 := Nat.div_eq_of_lt (Nat.one_lt_two_pow (by omega))
    rw [if_pos rfl, Nat.or_div_two_pow, one, Nat.or_zero]

theorem withSticky_mod : withSticky quotient inexact % 2 ^ (bits + 1) = 0 ↔
      inexact = false ∧ quotient % 2 ^ (bits + 1) = 0 := by
  unfold withSticky
  cases inexact with
  | false => simp
  | true =>
    have one : 1 % 2 ^ (bits + 1) = 1 := Nat.mod_eq_of_lt (Nat.one_lt_two_pow (by omega))
    rw [if_pos rfl, Nat.or_mod_two_pow, one, Nat.or_eq_zero_iff]
    simp

theorem withSticky_testBit :
    (withSticky quotient inexact).testBit (bits + 1) = quotient.testBit (bits + 1) := by
  rw [Nat.testBit_eq_decide_div_mod_eq, Nat.testBit_eq_decide_div_mod_eq, withSticky_div]

theorem and_three_mul_mask (x bits : Nat) :
    x &&& (3 * 2 ^ bits - 1) = 0 ↔ x % 2 ^ bits = 0 ∧ x.testBit (bits + 1) = false := by
  have positive : 0 < 2 ^ bits := Nat.two_pow_pos bits
  have below : 2 ^ bits - 1 < 2 ^ (bits + 1) := by
    rw [Nat.pow_succ]
    omega
  have split : 3 * 2 ^ bits - 1 = 2 ^ (bits + 1) ||| (2 ^ bits - 1) := by
    have sum := Nat.two_pow_add_eq_or_of_lt below 1
    rw [Nat.mul_one] at sum
    rw [← sum, Nat.pow_succ]
    omega
  rw [split, Nat.and_or_distrib_left, Nat.or_eq_zero_iff, Nat.and_two_pow_sub_one_eq_mod,
    Nat.and_two_pow, and_comm]
  simp

theorem ldiff_mask (x bits : Nat) :
    Nat.ldiff x (2 * 2 ^ bits - 1) = x / 2 ^ (bits + 1) * 2 ^ (bits + 1) := by
  apply Nat.eq_of_testBit_eq
  intro bit
  have mask : 2 * 2 ^ bits = 2 ^ (bits + 1) := by rw [Nat.pow_succ, Nat.mul_comm]
  rw [mask, Nat.testBit_ldiff, Nat.testBit_two_pow_sub_one, Nat.testBit_mul_two_pow,
    Nat.testBit_div_two_pow]
  by_cases low : bit < bits + 1
  · have unreached : ¬ bit ≥ bits + 1 := Nat.not_le.mpr low
    simp only [low, unreached, decide_true, decide_false, Bool.not_true, Bool.and_false,
      Bool.false_and]
  · have high : bit - (bits + 1) + (bits + 1) = bit := by omega
    have reached : bit ≥ bits + 1 := Nat.not_lt.mp low
    simp only [low, reached, high, decide_true, decide_false, Bool.not_false, Bool.and_true,
      Bool.true_and]

theorem add_mask_div {x bits : Nat} (set : x.testBit bits = true) :
    (x + 2 ^ bits) / 2 ^ (bits + 1) = x / 2 ^ (bits + 1) + 1 := by
  rw [Nat.testBit_eq_decide_div_mod_eq, decide_eq_true_eq] at set
  rw [Nat.pow_succ, ← Nat.div_div_eq_div_mul, ← Nat.div_div_eq_div_mul,
    Nat.add_div_right _ (Nat.two_pow_pos bits)]
  omega

def RoundsUp (quotient : Nat) (inexact : Bool) (bits : Nat) : Prop :=
  quotient.testBit (bits + 1) = true ∧
    ¬ (inexact = false ∧ quotient % 2 ^ (bits + 1) = 0 ∧ quotient.testBit (bits + 2) = false)

theorem roundExtraBits_eq (quotient bits : Nat) (inexact : Bool) :
    (RoundsUp quotient inexact bits ∧ roundExtraBits quotient inexact (bits + 2 : Nat) =
      (quotient / 2 ^ (bits + 2) + 1) * 2 ^ (bits + 2)) ∨
    (¬ RoundsUp quotient inexact bits ∧ roundExtraBits quotient inexact (bits + 2 : Nat) =
      quotient / 2 ^ (bits + 2) * 2 ^ (bits + 2)) := by
  have exponent : ((bits + 2 : Nat) - 1 : Int).toNat = bits + 1 := by omega
  have mask : 1 <<< (bits + 1) = 2 ^ (bits + 1) := Nat.one_shiftLeft _
  have up : RoundsUp quotient inexact bits ↔ withSticky quotient inexact &&& 2 ^ (bits + 1) ≠ 0 ∧
        withSticky quotient inexact &&& (3 * 2 ^ (bits + 1) - 1) ≠ 0 := by
    rw [ne_eq, ne_eq, and_three_mul_mask, withSticky_mod, Nat.and_two_pow, withSticky_testBit,
      withSticky_testBit]
    unfold RoundsUp
    simp [and_assoc]
  unfold roundExtraBits
  simp only [exponent, mask]
  by_cases rounds : RoundsUp quotient inexact bits
  · left
    rw [if_pos (up.mp rounds), ldiff_mask, add_mask_div, withSticky_div]
    · exact ⟨rounds, rfl⟩
    · rw [withSticky_testBit]
      exact rounds.1
  · right
    rw [if_neg (fun cond => rounds (up.mpr cond)), ldiff_mask, withSticky_div]
    exact ⟨rounds, rfl⟩

structure Truncates (number : ℚ) (quotient : Nat) (inexact : Bool) : Prop where
  least : (quotient : ℚ) ≤ number
  most : number < quotient + 1
  exact_ : inexact = false ↔ number = quotient

theorem eq_add_testBit (x bits : Nat) : (x : ℚ) = (x / 2 ^ (bits + 1) : Nat) * 2 ^ (bits + 1) +
      ((x.testBit bits).toNat * 2 ^ bits + (x % 2 ^ bits : Nat)) := by
  have below := Nat.mod_mul (x := x) (a := 2 ^ bits) (b := 2)
  rw [← Nat.pow_succ, ← Nat.toNat_testBit] at below
  have whole := Nat.div_add_mod' x (2 ^ (bits + 1))
  rw [below] at whole
  have cast : ((x / 2 ^ (bits + 1) * 2 ^ (bits + 1) +
      (x % 2 ^ bits + 2 ^ bits * (x.testBit bits).toNat) : Nat) : ℚ) = x := by
    exact_mod_cast whole
  rw [← cast]
  push_cast
  ring

theorem isHalfEven_roundExtraBits {number : ℚ} (truncates : Truncates number quotient inexact)
    (bits : Nat) :
    ∃ multiple : Nat, roundExtraBits quotient inexact (bits + 2 : Nat) = multiple * 2 ^ (bits + 2) ∧
      IsHalfEven (number / 2 ^ (bits + 2)) multiple := by
  have positive : (0 : ℚ) < 2 ^ (bits + 2) := by positivity
  have double : (2 : ℚ) ^ (bits + 2) = 2 * 2 ^ (bits + 1) := by ring
  have least := truncates.least
  have most := truncates.most
  have low : ((quotient % 2 ^ (bits + 1) : Nat) : ℚ) + 1 ≤ 2 ^ (bits + 1) := by
    exact_mod_cast Nat.mod_lt quotient (Nat.two_pow_pos (bits + 1))
  have low_nonneg : (0 : ℚ) ≤ (quotient % 2 ^ (bits + 1) : Nat) := Nat.cast_nonneg _
  have split : (quotient : ℚ) = (quotient / 2 ^ (bits + 2) : Nat) * 2 ^ (bits + 2) +
      ((quotient.testBit (bits + 1)).toNat * 2 ^ (bits + 1) +
        (quotient % 2 ^ (bits + 1) : Nat)) :=
    eq_add_testBit quotient (bits + 1)
  rcases roundExtraBits_eq quotient bits inexact with ⟨up, rounded⟩ | ⟨down, rounded⟩
  · refine ⟨_, rounded, ?_⟩
    rw [up.1, Bool.toNat_true, Nat.cast_one, one_mul] at split
    have distance : |number - ((quotient / 2 ^ (bits + 2) + 1 : Nat) : ℤ) * 2 ^ (bits + 2)| =
        2 ^ (bits + 1) - (number - quotient + (quotient % 2 ^ (bits + 1) : Nat)) := by
      rw [Int.cast_natCast, Nat.cast_add_one, abs_of_nonpos]
      all_goals linarith
    apply isHalfEven_div positive
    · rw [distance, double]
      linarith
    · intro tie
      rw [distance, double] at tie
      have whole : number = quotient := by linarith
      have zero : ((quotient % 2 ^ (bits + 1) : Nat) : ℚ) = 0 := by linarith
      have odd : quotient.testBit (bits + 2) = true := by
        rw [← Bool.not_eq_false]
        exact fun clear => up.2 ⟨truncates.exact_.mpr whole, by exact_mod_cast zero, clear⟩
      rw [Nat.testBit_eq_decide_div_mod_eq, decide_eq_true_eq] at odd
      rw [Int.even_coe_nat]
      exact (Nat.odd_iff.mpr odd).add_one
  · refine ⟨_, rounded, ?_⟩
    have distance : |number - ((quotient / 2 ^ (bits + 2) : Nat) : ℤ) * 2 ^ (bits + 2)| =
        (quotient.testBit (bits + 1)).toNat * 2 ^ (bits + 1) +
          (number - quotient + (quotient % 2 ^ (bits + 1) : Nat)) := by
      have part : (0 : ℚ) ≤ (quotient.testBit (bits + 1)).toNat * 2 ^ (bits + 1) := by positivity
      rw [Int.cast_natCast, abs_of_nonneg]
      all_goals linarith
    cases bit : quotient.testBit (bits + 1) with
    | false =>
      rw [bit, Bool.toNat_false, Nat.cast_zero, zero_mul, zero_add] at distance
      apply isHalfEven_div positive
      · rw [distance, double]
        linarith
      · intro tie
        rw [distance, double] at tie
        linarith
    | true =>
      have kept : inexact = false ∧ quotient % 2 ^ (bits + 1) = 0 ∧
          quotient.testBit (bits + 2) = false := by
        by_contra up
        exact down ⟨bit, up⟩
      have whole := truncates.exact_.mp kept.1
      rw [bit, Bool.toNat_true, Nat.cast_one, one_mul, kept.2.1, whole, sub_self,
        Nat.cast_zero, add_zero, add_zero] at distance
      apply isHalfEven_div positive
      · rw [whole, distance, double]
      · intro _
        have even := kept.2.2
        rw [Nat.testBit_eq_decide_div_mod_eq, decide_eq_false_iff_not] at even
        rw [Int.even_coe_nat, Nat.even_iff]
        exact Nat.mod_two_ne_one.mp even

end ExtraBits

end Dinkster.Expression
