import Dinkster.Expression.Division

/-!
# Scalars of expressions

Integers, finite numbers of double precision and booleans, their comparison and the integer
operations with the semantics of Python: floor division, modulo and rounding to decimal digits.
-/

namespace Dinkster.Expression

open Library

/-- `ExpressionScalar`: what `requireScalar` accepts.  A number is finite. -/
inductive ExpressionScalar where
  | int (value : Int)
  | float (value : Binary64)
  | bool (value : Bool)
  deriving DecidableEq

def maxIntegerBits : Nat := 16384

/-- `requireScalar` of an integer. -/
def requireInteger (value : Int) : Except String ExpressionScalar :=
  if maxIntegerBits < bitLength value then
    .error s!"integer magnitude exceeds the limit of {maxIntegerBits} bits"
  else .ok (.int value)

/-- `requireScalar` of a number. -/
def requireNumber : Double → Except String ExpressionScalar
  | .finite value => .ok (.float value)
  | .infinite true => .error "expression value is non-finite: -Infinity"
  | .infinite false => .error "expression value is non-finite: Infinity"
  | .nan => .error "expression value is non-finite: NaN"

namespace ExpressionScalar

/-- The integer of an integer or a boolean: `isIntLike` and `toBigInt`. -/
def toBigInt? : ExpressionScalar → Option Int
  | .int value => some value
  | .bool value => some (if value then 1 else 0)
  | .float _ => none

def toFloat : ExpressionScalar → Except String Double
  | .float value => .ok (.finite value)
  | .bool value => .ok (.ofInt (if value then 1 else 0))
  | .int value =>
    if (Double.ofInt value).isFinite then .ok (.ofInt value)
    else .error "integer is too large to represent as a float"

def exact : ExpressionScalar → ℚ
  | .int value => value
  | .float value => value.toRat
  | .bool value => if value then 1 else 0

end ExpressionScalar

def copySignZero (reference : Double) : Double :=
  match reference with
  | .finite number => .finite (.zero number.negative)
  | .infinite negative => .finite (.zero negative)
  | .nan => .finite (.zero false)

/-- The remainder with the sign of the divisor, and whether it was moved there. -/
def signedRem (a b : Double) : Double × Bool :=
  let remainder := a.rem b
  let zero := Double.finite (.zero false)
  if remainder.isZero = false ∧ b.lt zero ≠ remainder.lt zero then (remainder.add b, true)
  else (remainder, false)

def floatFloorDiv (a b : Double) : Except String Double :=
  if b.isZero then .error "float floor division by zero"
  else
    let quotient := (a.sub (a.rem b)).div b
    let quotient := if (signedRem a b).2 then quotient.sub (.ofInt 1) else quotient
    if quotient.isZero then .ok (copySignZero (a.div b))
    else
      let floor := quotient.floor
      .ok (if (Double.twoPow (-1)).lt (quotient.sub floor) then floor.add (.ofInt 1) else floor)

def floatMod (a b : Double) : Except String Double :=
  if b.isZero then .error "float modulo by zero"
  else if (a.rem b).isZero then .ok (copySignZero b)
  else .ok (signedRem a b).1

/-- The quotient of integers, truncated and then rounded down. -/
def floorQuotient (a b : Int) : Int :=
  let quotient := a.tdiv b
  if a.tmod b ≠ 0 ∧ ¬ (a < 0 ↔ b < 0) then quotient - 1 else quotient

/-- The remainder of integers, with the sign of the divisor. -/
def floorRemainder (a b : Int) : Int :=
  let remainder := a.tmod b
  if remainder ≠ 0 ∧ ¬ (remainder < 0 ↔ b < 0) then remainder + b else remainder

variable (left right : ExpressionScalar)

def pyFloorDivide : Except String ExpressionScalar :=
  match left.toBigInt?, right.toBigInt? with
  | some a, some b =>
    if b = 0 then .error "integer floor division by zero"
    else requireInteger (floorQuotient a b)
  | _, _ => do requireNumber (← floatFloorDiv (← left.toFloat) (← right.toFloat))

def pyModulo : Except String ExpressionScalar :=
  match left.toBigInt?, right.toBigInt? with
  | some a, some b =>
    if b = 0 then .error "integer modulo by zero"
    else requireInteger (floorRemainder a b)
  | _, _ => do requireNumber (← floatMod (← left.toFloat) (← right.toFloat))

/-- The order of two values by a strict comparison. -/
def orderOf (less greater : Bool) : Int :=
  if less then -1 else if greater then 1 else 0

/-- `BigInt` of a number, which raises an exception unless the number is an integer. -/
def bigIntOf (number : Binary64) : Except String Int :=
  if number.toRat.den = 1 then .ok number.toRat.num
  else .error "The number cannot be converted to a BigInt because it is not an integer"

/-- The order of an integer and a number. -/
def compareMixed (integer : Int) (float : Binary64) : Except String Int :=
  if -9007199254740992 ≤ integer ∧ integer ≤ 9007199254740992 then
    let approx := Double.ofInt integer
    .ok (orderOf (approx.lt (.finite float)) ((Double.finite float).lt approx))
  else if 9007199254740992 ≤ float.magnitude then do
    let exact ← bigIntOf float
    return orderOf (integer < exact) (exact < integer)
  else .ok (if 0 < integer then 1 else -1)

/-- A scalar whose boolean counts as an integer. -/
def ExpressionScalar.unboxed : ExpressionScalar → Int ⊕ Binary64
  | .int value => .inl value
  | .bool value => .inl (if value then 1 else 0)
  | .float value => .inr value

def compareScalars : Except String Int :=
  match left.unboxed, right.unboxed with
  | .inl left, .inl right => .ok (orderOf (left < right) (right < left))
  | .inr left, .inr right =>
    .ok (orderOf ((Double.finite left).lt (.finite right))
      ((Double.finite right).lt (.finite left)))
  | .inl integer, .inr float => compareMixed integer float
  | .inr float, .inl integer => (compareMixed integer float).map fun order => -order

def divideHalfEven (numerator denominator : Int) : Int :=
  let quotient := numerator.tdiv denominator
  let remainder := numerator.tmod denominator
  let (quotient, remainder) :=
    if remainder < 0 then (quotient - 1, remainder + denominator) else (quotient, remainder)
  let doubled := remainder * 2
  if denominator < doubled then quotient + 1
  else if doubled < denominator then quotient
  else if quotient.tmod 2 = 0 then quotient else quotient + 1

def roundIntToDigits (value ndigits : Int) : Int :=
  if 0 ≤ ndigits then value
  else
    let magnitude := -ndigits
    let digits : Int := (toString value.natAbs).length
    if digits < magnitude then 0
    else divideHalfEven value (10 ^ magnitude.toNat) * 10 ^ magnitude.toNat

example : roundIntToDigits (-25) (-1) = -20 := by decide +kernel

section Comparison

open Double

theorem orderOf_eq (left right : ℚ) : orderOf (decide (left < right)) (decide (right < left)) =
      ((SignType.sign (left - right) : SignType) : ℤ) := by
  unfold orderOf
  rcases lt_trichotomy left right with less | same | greater
  · rw [if_pos (decide_eq_true less), sign_neg (sub_neg.mpr less)]
    rfl
  · rw [same, sub_self, sign_zero]
    simp
  · rw [if_neg (by simp [greater.le]), if_pos (decide_eq_true greater),
      sign_pos (sub_pos.mpr greater)]
    rfl

theorem orderOf_intCast (left right : Int) :
    orderOf (decide (left < right)) (decide (right < left)) =
      ((SignType.sign ((left : ℚ) - right) : SignType) : ℤ) := by
  rw [← orderOf_eq]
  congr 1
  all_goals exact decide_eq_decide.mpr Int.cast_lt.symm

theorem ofInt_of_natAbs_le {integer : Int} (bounded : integer.natAbs ≤ 2 ^ 53) :
    ∃ number, ofInt integer = .finite number ∧ number.toRat = integer := by
  have short := (isShort_of_le bounded 0).mono (show (-1074 : ℤ) ≤ 0 by norm_num)
  rw [zpow_zero, mul_one] at short
  have below : ((integer.natAbs : Nat) : ℚ) < overflowBound := by
    have bound : ((integer.natAbs : Nat) : ℚ) ≤ 2 ^ (53 : ℤ) := by exact_mod_cast bounded
    exact bound.trans_lt (zpow_lt_zpow_right₀ (by norm_num) (by norm_num))
  obtain ⟨number, same, sign, magnitude⟩ :=
    round_of_isShort (decide (integer < 0)) (Nat.cast_nonneg _) short below
  refine ⟨number, same, ?_⟩
  unfold Binary64.toRat
  rw [sign, magnitude, Nat.cast_natAbs]
  by_cases less : integer < 0
  · rw [if_pos (decide_eq_true less), abs_of_neg less, Int.cast_neg, neg_neg]
  · rw [if_neg (by simpa using less), abs_of_nonneg (not_lt.mp less)]

/-- A number from `2 ^ 53` on is an integer. -/
theorem bigIntOf_of_le {number : Binary64} (large : 9007199254740992 ≤ number.magnitude) :
    ∃ integer : Int, bigIntOf number = .ok integer ∧ (integer : ℚ) = number.toRat := by
  have above : 0 ≤ number.exponent := by
    by_contra below
    have power : (2 : ℚ) ^ number.exponent ≤ 2 ^ (0 : ℤ) := two_zpow_le (by omega)
    have small : (number.significand : ℚ) < 2 ^ 53 := by exact_mod_cast number.small
    have product : number.magnitude ≤ number.significand * 2 ^ (0 : ℤ) :=
      mul_le_mul_of_nonneg_left power (Nat.cast_nonneg _)
    rw [zpow_zero, mul_one] at product
    linarith
  obtain ⟨power, same⟩ := Int.eq_ofNat_of_zero_le above
  have whole : ∃ integer : Int, number.toRat = integer := by
    unfold Binary64.toRat Binary64.magnitude
    rw [same, zpow_natCast]
    split
    · exact ⟨-(number.significand * 2 ^ power), by push_cast; rfl⟩
    · exact ⟨number.significand * 2 ^ power, by push_cast; rfl⟩
  obtain ⟨integer, value⟩ := whole
  refine ⟨integer, ?_, value.symm⟩
  unfold bigIntOf
  rw [value, Rat.den_intCast, if_pos rfl, Rat.num_intCast]

theorem compareMixed_eq (integer : Int) (float : Binary64) : compareMixed integer float =
      .ok ((SignType.sign ((integer : ℚ) - float.toRat) : SignType) : ℤ) := by
  unfold compareMixed
  split
  · rename_i small
    obtain ⟨number, same, value⟩ := @ofInt_of_natAbs_le integer (by omega)
    rw [← value, ← orderOf_eq, same]
    rfl
  · rename_i large
    split
    · rename_i whole
      obtain ⟨exact, same, value⟩ := bigIntOf_of_le whole
      rw [same, ← value, ← orderOf_intCast]
      rfl
    · rename_i small
      have bounds := abs_lt.mp ((Binary64.abs_toRat float).trans_lt (not_le.mp small))
      split
      · rename_i positive
        have above : (9007199254740992 : ℚ) ≤ integer := by
          exact_mod_cast (show (9007199254740992 : ℤ) ≤ integer by omega)
        rw [sign_pos (by linarith)]
        rfl
      · rename_i negative
        have below : (integer : ℚ) ≤ -9007199254740992 := by
          exact_mod_cast (show integer ≤ -(9007199254740992 : ℤ) by omega)
        rw [sign_neg (by linarith)]
        rfl

theorem compareScalars_eq (left right : ExpressionScalar) : compareScalars left right =
      .ok ((SignType.sign (left.exact - right.exact) : SignType) : ℤ) := by
  have exact_inl : ∀ scalar : ExpressionScalar, ∀ integer, scalar.unboxed = .inl integer →
      scalar.exact = integer := by
    intro scalar integer same
    cases scalar with
    | int value =>
      cases same
      rfl
    | bool value =>
      cases same
      cases value <;> rfl
    | float value => exact nomatch same
  have exact_inr : ∀ scalar : ExpressionScalar, ∀ number, scalar.unboxed = .inr number →
      scalar.exact = number.toRat := by
    intro scalar number same
    cases scalar with
    | float value =>
      cases same
      rfl
    | int value | bool value => exact nomatch same
  unfold compareScalars
  cases first : left.unboxed with
  | inl leftInteger =>
    cases second : right.unboxed with
    | inl rightInteger =>
      rw [exact_inl left _ first, exact_inl right _ second, ← orderOf_intCast]
    | inr rightNumber =>
      rw [exact_inl left _ first, exact_inr right _ second]
      exact compareMixed_eq leftInteger rightNumber
  | inr leftNumber =>
    cases second : right.unboxed with
    | inl rightInteger =>
      rw [exact_inr left _ first, exact_inl right _ second]
      dsimp only
      rw [compareMixed_eq, ← neg_sub (rightInteger : ℚ), Left.sign_neg, SignType.coe_neg]
      rfl
    | inr rightNumber =>
      rw [exact_inr left _ first, exact_inr right _ second, ← orderOf_eq]
      rfl

end Comparison

section Integers

variable {a b : Int}

/-- A truncated remainder is smaller than the divisor and has the sign of the dividend. -/
theorem tmod_bounds (nonzero : b ≠ 0) :
    b * a.tdiv b + a.tmod b = a ∧ |a.tmod b| < |b| ∧ (0 ≤ a → 0 ≤ a.tmod b) ∧
      (a ≤ 0 → a.tmod b ≤ 0) := by
  refine ⟨Int.mul_tdiv_add_tmod a b, ?_, Int.tmod_nonneg b, fun nonpos => ?_⟩
  · rcases lt_or_gt_of_ne nonzero with negative | positive
    · have upper := Int.tmod_lt_of_pos a (neg_pos.mpr negative)
      have lower := Int.lt_tmod_of_pos a (neg_pos.mpr negative)
      rw [Int.tmod_neg] at upper lower
      rw [abs_of_neg negative]
      exact abs_lt.mpr ⟨lower, upper⟩
    · rw [abs_of_pos positive]
      exact abs_lt.mpr ⟨Int.lt_tmod_of_pos a positive, Int.tmod_lt_of_pos a positive⟩
  · have opposite := Int.tmod_nonneg b (neg_nonneg.mpr nonpos)
    rw [Int.neg_tmod] at opposite
    omega

theorem floorDivision (nonzero : b ≠ 0) : a = b * floorQuotient a b + floorRemainder a b ∧
      (0 < b → 0 ≤ floorRemainder a b ∧ floorRemainder a b < b) ∧
      (b < 0 → b < floorRemainder a b ∧ floorRemainder a b ≤ 0) := by
  obtain ⟨whole, small, nonneg, nonpos⟩ := tmod_bounds (a := a) nonzero
  have bounds := abs_lt.mp small
  have moved : (a.tmod b ≠ 0 ∧ ¬ (a < 0 ↔ b < 0)) ↔ (a.tmod b ≠ 0 ∧ ¬ (a.tmod b < 0 ↔ b < 0)) := by
    constructor
    all_goals
      rintro ⟨present, apart⟩
      refine ⟨present, fun same => apart ?_⟩
      rcases le_total 0 a with positive | negative
      · have := nonneg positive
        omega
      · have := nonpos negative
        omega
  unfold floorQuotient floorRemainder
  simp only
  by_cases apart : a.tmod b ≠ 0 ∧ ¬ (a.tmod b < 0 ↔ b < 0)
  · rw [if_pos apart, if_pos (moved.mpr apart), mul_sub_one]
    refine ⟨by omega, fun positive => ?_, fun negative => ?_⟩
    · rw [abs_of_pos positive] at bounds
      omega
    · rw [abs_of_neg negative] at bounds
      omega
  · rw [if_neg apart, if_neg (fun other => apart (moved.mp other))]
    refine ⟨whole.symm, fun positive => ?_, fun negative => ?_⟩
    · rw [abs_of_pos positive] at bounds
      omega
    · rw [abs_of_neg negative] at bounds
      omega

theorem isHalfEven_divideHalfEven (positive : 0 < b) :
    IsHalfEven ((a : ℚ) / b) (divideHalfEven a b) := by
  obtain ⟨whole, small, _, _⟩ := tmod_bounds (a := a) positive.ne'
  rw [abs_of_pos positive] at small
  have bounds := abs_lt.mp small
  have floor : ∃ quotient remainder : Int, a = b * quotient + remainder ∧ 0 ≤ remainder ∧
      remainder < b ∧ divideHalfEven a b =
        if b < remainder * 2 then quotient + 1
        else if remainder * 2 < b then quotient
        else if quotient.tmod 2 = 0 then quotient else quotient + 1 := by
    unfold divideHalfEven
    by_cases negative : a.tmod b < 0
    · refine ⟨a.tdiv b - 1, a.tmod b + b, ?_, by omega, by omega, ?_⟩
      · rw [mul_sub_one]
        omega
      · simp only [if_pos negative]
    · refine ⟨a.tdiv b, a.tmod b, whole.symm, by omega, bounds.2, ?_⟩
      simp only [if_neg negative]
  obtain ⟨quotient, remainder, split, least, most, result⟩ := floor
  have cast : (0 : ℚ) < b := by exact_mod_cast positive
  have below : |(a : ℚ) - quotient * b| = remainder := by
    rw [split]
    push_cast
    rw [abs_of_nonneg]
    · ring
    · have : (0 : ℚ) ≤ remainder := by exact_mod_cast least
      linarith
  have above : |(a : ℚ) - (quotient + 1 : Int) * b| = b - remainder := by
    rw [split]
    push_cast
    rw [abs_of_nonpos]
    · ring
    · have : (remainder : ℚ) ≤ b := by exact_mod_cast most.le
      linarith
  rw [result]
  split
  · rename_i more
    have more : (b : ℚ) < remainder * 2 := by exact_mod_cast more
    apply isHalfEven_div cast
    · rw [above]
      linarith
    · intro tie
      rw [above] at tie
      linarith
  · rename_i most
    have most : (remainder : ℚ) * 2 ≤ b := by exact_mod_cast not_lt.mp most
    split
    · rename_i less
      have less : (remainder : ℚ) * 2 < b := by exact_mod_cast less
      apply isHalfEven_div cast
      · rw [below]
        linarith
      · intro tie
        rw [below] at tie
        linarith
    · rename_i least
      have least : (b : ℚ) ≤ remainder * 2 := by exact_mod_cast not_lt.mp least
      split
      · rename_i even
        apply isHalfEven_div cast
        · rw [below]
          linarith
        · exact fun _ => even_iff_two_dvd.mpr (Int.dvd_of_tmod_eq_zero even)
      · rename_i odd
        apply isHalfEven_div cast
        · rw [above]
          linarith
        · refine fun _ => (Int.not_even_iff_odd.mp fun even => odd ?_).add_one
          exact Int.tmod_eq_zero_of_dvd (even_iff_two_dvd.mp even)

/-- An integer is rounded to a multiple of a power of ten. -/
theorem roundIntToDigits_eq (value : Int) {digits : Nat} (positive : 0 < digits) :
    ∃ multiple : Int, roundIntToDigits value (-digits) = multiple * 10 ^ digits ∧
      IsHalfEven ((value : ℚ) / (10 ^ digits : Int)) multiple := by
  have power : (0 : Int) < 10 ^ digits := by positivity
  unfold roundIntToDigits
  rw [if_neg (by omega)]
  simp only [neg_neg, Int.toNat_natCast]
  split
  · rename_i few
    -- all digits are below the multiple: the value is less than a tenth of it
    refine ⟨0, by simp, ?_⟩
    have small : value.natAbs < 10 ^ (digits - 1) := by
      have few : (value.natAbs.repr.length : Int) < digits := few
      have present := Nat.length_repr_pos (n := value.natAbs)
      apply (Nat.length_repr_le_iff (by omega)).mp
      omega
    have tenth : (10 : ℚ) ^ digits = 10 * 10 ^ (digits - 1) := by
      rw [← pow_succ']
      congr 1
      omega
    have bound : |(value : ℚ)| * 10 ≤ 10 ^ digits := by
      have cast : ((value.natAbs : Nat) : ℚ) ≤ 10 ^ (digits - 1) := by exact_mod_cast small.le
      rw [Nat.cast_natAbs, Int.cast_abs] at cast
      linarith
    have least := abs_nonneg (value : ℚ)
    have unit : (0 : ℚ) < (10 ^ digits : Int) := by exact_mod_cast power
    apply isHalfEven_div unit
    · rw [Int.cast_zero, zero_mul, sub_zero]
      push_cast
      linarith
    · exact fun _ => Even.zero
  · exact ⟨_, rfl, isHalfEven_divideHalfEven power⟩

end Integers

/-- One scalar compares as at most another. -/
def AtMost : Prop :=
  ∃ order, compareScalars left right = .ok order ∧ order ≤ 0

/-- Scalars are compared by their exact values, integers are divided with rounding down, and
rounding an integer to decimal digits takes the nearest multiple, ties to even. -/
structure ComputesExactly : Prop where
  compares : ∀ left right, compareScalars left right =
    .ok ((SignType.sign (left.exact - right.exact) : SignType) : ℤ)
  total : ∀ left right, AtMost left right ∨ AtMost right left
  trans : ∀ left middle right, AtMost left middle → AtMost middle right → AtMost left right
  divides : ∀ a b : Int, b ≠ 0 → ∃ quotient remainder, a = b * quotient + remainder ∧
    (0 < b → 0 ≤ remainder ∧ remainder < b) ∧ (b < 0 → b < remainder ∧ remainder ≤ 0) ∧
    pyFloorDivide (.int a) (.int b) =
      (if maxIntegerBits < bitLength quotient then
        .error s!"integer magnitude exceeds the limit of {maxIntegerBits} bits"
      else .ok (.int quotient)) ∧
    pyModulo (.int a) (.int b) =
      (if maxIntegerBits < bitLength remainder then
        .error s!"integer magnitude exceeds the limit of {maxIntegerBits} bits"
      else .ok (.int remainder))
  rounds : ∀ (value : Int) (digits : Nat), 0 < digits → ∃ multiple : Int,
    roundIntToDigits value (-digits) = multiple * 10 ^ digits ∧
    (∀ other : Int, |value - multiple * 10 ^ digits| ≤ |value - other * 10 ^ digits|) ∧
    (∀ other : Int, other ≠ multiple →
      |value - multiple * 10 ^ digits| = |value - other * 10 ^ digits| → Even multiple)

theorem atMost_iff : AtMost left right ↔ left.exact ≤ right.exact := by
  unfold AtMost
  rw [compareScalars_eq]
  constructor
  · rintro ⟨order, same, small⟩
    rw [← Except.ok.inj same] at small
    by_contra greater
    rw [sign_pos (sub_pos.mpr (not_le.mp greater))] at small
    exact absurd small (by decide)
  · intro le
    refine ⟨_, rfl, ?_⟩
    rcases le.lt_or_eq with less | same
    · rw [sign_neg (sub_neg.mpr less)]
      decide
    · rw [same, sub_self, sign_zero]
      decide

theorem nearest_of_isHalfEven {value step multiple : Int} (positive : 0 < step)
    (rounded : IsHalfEven ((value : ℚ) / step) multiple) (other : Int) :
    |value - multiple * step| ≤ |value - other * step| ∧
      (other ≠ multiple → |value - multiple * step| = |value - other * step| → Even multiple) := by
  have cast : (0 : ℚ) < step := by exact_mod_cast positive
  have scaled : ∀ multiple : Int, ((|value - multiple * step| : Int) : ℚ) =
      |(value : ℚ) / step - multiple| * step := by
    intro multiple
    rw [← abs_of_pos cast, ← abs_mul, abs_of_pos cast, sub_mul, div_mul_cancel₀ _ cast.ne']
    push_cast
    rfl
  constructor
  · have nearest := mul_le_mul_of_nonneg_right (rounded.nearest other) cast.le
    rw [← scaled, ← scaled] at nearest
    exact_mod_cast nearest
  · intro apart equally
    have equally : ((|value - multiple * step| : Int) : ℚ) = (|value - other * step| : Int) :=
      congrArg _ equally
    rw [scaled, scaled] at equally
    exact (rounded.tie apart (mul_right_cancel₀ cast.ne' equally)).1

/-- The mirror compares, divides and rounds exactly. -/
theorem computesExactly : ComputesExactly where
  compares := compareScalars_eq
  total := fun left right => by
    rw [atMost_iff, atMost_iff]
    exact le_total _ _
  trans := fun left middle right first second => by
    rw [atMost_iff] at first second ⊢
    exact first.trans second
  divides := fun a b nonzero => by
    obtain ⟨whole, positive, negative⟩ := floorDivision (a := a) nonzero
    refine ⟨_, _, whole, positive, negative, ?_, ?_⟩
    all_goals exact if_neg nonzero
  rounds := fun value digits present => by
    obtain ⟨multiple, same, rounded⟩ := roundIntToDigits_eq value present
    have power : (0 : Int) < 10 ^ digits := by positivity
    exact ⟨multiple, same, fun other => (nearest_of_isHalfEven power rounded other).1,
      fun other => (nearest_of_isHalfEven power rounded other).2⟩

end Dinkster.Expression
