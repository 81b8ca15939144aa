import Dinkster.Format.Json

/-!
# Stepping integer widgets

The constraints an `INT` widget declares, the step of a stored value and the randomised
value.  Values are integers of up to 64 bits: a number while it is a safe integer, otherwise
its decimal text.
-/

namespace Dinkster.Widgets

open Format

def maxSafeInteger : Int := 9007199254740991

def minIntegerWidgetValue : Int := -9223372036854775808

def maxIntegerWidgetValue : Int := 18446744073709551615

def isSafe (value : Int) : Bool :=
  -maxSafeInteger ≤ value && value ≤ maxSafeInteger

inductive IntegerWidgetValue where
  | num (value : Rat)
  | str (text : String)
  deriving DecidableEq

/-- The number of a text of decimal digits without a leading zero. -/
def magnitude? : List Char → Option Nat
  | [] => none
  | ['0'] => some 0
  | digit :: rest =>
    if digit ≠ '0' ∧ (digit :: rest).all Char.isDigit = true then
      some (Nat.ofDigitChars 10 (digit :: rest) 0)
    else none

/-- The integer of a text that matches `CANONICAL_DECIMAL_INTEGER`. -/
def canonicalDecimal? (text : String) : Option Int :=
  match text.toList with
  | '-' :: digits => (magnitude? digits).map fun value => -(value : Int)
  | digits => (magnitude? digits).map fun value => (value : Int)

/-- The integer of a text, when `isCanonicalUnsafeInteger` accepts it. -/
def canonicalUnsafeInteger? (text : String) : Option Int :=
  match canonicalDecimal? text with
  | some parsed =>
    if minIntegerWidgetValue ≤ parsed ∧ parsed ≤ maxIntegerWidgetValue ∧ isSafe parsed = false then
      some parsed
    else none
  | none => none

def integerWidgetValue (value : Int) : IntegerWidgetValue :=
  if isSafe value then .num value else .str (toString value)

def integerOption : Option Json → Option Int
  | some (.str text) => canonicalUnsafeInteger? text
  | some (.num value) =>
    if value.den ≠ 1 then none
    else if maxSafeInteger < value.num then some maxSafeInteger
    else if value.num < -maxSafeInteger then some (-maxSafeInteger)
    else some value.num
  | _ => none

/-- `IntegerStepConstraints`: kept bounds are 64-bit integers in order. -/
structure IntegerStepConstraints where
  step : Int
  min : Option Int
  max : Option Int
  positive : 0 < step
  minBounded : ∀ low, min = some low → minIntegerWidgetValue ≤ low ∧ low ≤ maxIntegerWidgetValue
  maxBounded : ∀ high, max = some high →
    minIntegerWidgetValue ≤ high ∧ high ≤ maxIntegerWidgetValue
  ordered : ∀ low high, min = some low → max = some high → low ≤ high

variable {value : Int} {constraints : IntegerStepConstraints}

theorem canonicalUnsafeInteger?_bounded {text : String}
    (parsed : canonicalUnsafeInteger? text = some value) :
    minIntegerWidgetValue ≤ value ∧ value ≤ maxIntegerWidgetValue := by
  unfold canonicalUnsafeInteger? at parsed
  split at parsed
  · split at parsed
    · rename_i bounds
      cases parsed
      exact ⟨bounds.1, bounds.2.1⟩
    · cases parsed
  · cases parsed

theorem integerOption_bounded {option : Option Json} (kept : integerOption option = some value) :
    minIntegerWidgetValue ≤ value ∧ value ≤ maxIntegerWidgetValue := by
  unfold integerOption at kept
  split at kept
  · exact canonicalUnsafeInteger?_bounded kept
  · rename_i number
    split at kept
    · cases kept
    · split at kept
      · cases kept
        decide
      · split at kept
        · cases kept
          decide
        · rename_i notMore notLess
          cases kept
          unfold maxSafeInteger at notMore notLess
          unfold minIntegerWidgetValue maxIntegerWidgetValue
          omega
  · cases kept

/-- `invertedLegacyRange`: both bounds are numbers, and in the wrong order. -/
def invertedLegacyRange (options : List (String × Json)) : Bool :=
  match getField options "min", getField options "max" with
  | some (.num low), some (.num high) => high < low
  | _, _ => false

/-- Whether the integer bounds are in the wrong order. -/
def invertedBounds (low high : Option Int) : Bool :=
  match low, high with
  | some low, some high => high < low
  | _, _ => false

def declaredStep (options : List (String × Json)) : Int :=
  match integerOption (getField options "step") with
  | some step => if 0 < step then step else 1
  | none => 1

variable (options : List (String × Json))

theorem declaredStep_pos : 0 < declaredStep options := by
  unfold declaredStep
  split
  · split
    · assumption
    · decide
  · decide

/-- `numericStepConstraints` of an `INT` widget. -/
def numericStepConstraints (options : List (String × Json)) : IntegerStepConstraints :=
  if dropped : invertedLegacyRange options ||
      invertedBounds (integerOption (getField options "min"))
        (integerOption (getField options "max")) then
    { step := declaredStep options
      min := none
      max := none
      positive := declaredStep_pos options
      minBounded := by simp
      maxBounded := by simp
      ordered := by simp }
  else
    { step := declaredStep options
      min := integerOption (getField options "min")
      max := integerOption (getField options "max")
      positive := declaredStep_pos options
      minBounded := fun _ kept => integerOption_bounded kept
      maxBounded := fun _ kept => integerOption_bounded kept
      ordered := by
        intro low high keptLow keptHigh
        rw [Bool.or_eq_true, not_or, keptLow, keptHigh] at dropped
        simpa [invertedBounds] using dropped.2 }

def dropsBounds (options : List (String × Json)) : Bool :=
  invertedLegacyRange options ||
    invertedBounds (integerOption (getField options "min")) (integerOption (getField options "max"))

theorem min_numericStepConstraints : (numericStepConstraints options).min =
      if dropsBounds options then none else integerOption (getField options "min") := by
  unfold numericStepConstraints dropsBounds
  split <;> rfl

theorem max_numericStepConstraints : (numericStepConstraints options).max =
      if dropsBounds options then none else integerOption (getField options "max") := by
  unfold numericStepConstraints dropsBounds
  split <;> rfl

/-- `Math.round`. -/
def mathRound (value : Rat) : Int :=
  ⌊value + 1 / 2⌋

def integerValue : IntegerWidgetValue → Int
  | .str text => (canonicalUnsafeInteger? text).getD 0
  | .num value => mathRound (max (-maxSafeInteger) (min maxSafeInteger value))

inductive Direction where
  | down
  | up

def Direction.sign : Direction → Int
  | .down => -1
  | .up => 1

variable (current : IntegerWidgetValue)

/-- `stepNumericValue` of an integer widget. -/
def stepNumericValue (direction : Direction)
    (constraints : IntegerStepConstraints) : IntegerWidgetValue :=
  let low := constraints.min.getD minIntegerWidgetValue
  let high := constraints.max.getD maxIntegerWidgetValue
  let stepped := integerValue current + direction.sign * constraints.step
  integerWidgetValue (if stepped < low then low else if high < stepped then high else stepped)

/-- A random function: the value of each call is in `[0, 1)`. -/
structure Random where
  call : Nat → Rat
  nonneg : ∀ index, 0 ≤ call index
  below : ∀ index, call index < 1

/-- The 32 bits taken from one random value. -/
def chunk (value : Rat) : Nat :=
  ⌊max 0 (min (9007199254740991 / 9007199254740992) value) * 4294967296⌋.toNat

variable (random : Random)

def randomBits96 : Nat :=
  chunk (random.call 0) <<< 64 ||| chunk (random.call 1) <<< 32 ||| chunk (random.call 2)

/-- The least value randomising gives. -/
def IntegerStepConstraints.randomMin (constraints : IntegerStepConstraints) : Int :=
  constraints.min.getD 0

/-- The greatest value randomising gives. -/
def IntegerStepConstraints.randomMax (constraints : IntegerStepConstraints) : Int :=
  let declaredMax := constraints.max.getD maxSafeInteger
  if declaredMax < constraints.randomMin then constraints.randomMin else declaredMax

/-- `randomNumericValue` of an integer widget. -/
def randomNumericValue (constraints : IntegerStepConstraints) (random : Random) :
    IntegerWidgetValue :=
  let span := constraints.randomMax - constraints.randomMin + 1
  let offset := (randomBits96 random * span) >>> (96 : Nat)
  integerWidgetValue (constraints.randomMin + offset)

/-- An integer within the bounds a widget has kept and within 64 bits. -/
structure Within (constraints : IntegerStepConstraints) (value : Int) : Prop where
  low : ∀ low, constraints.min = some low → low ≤ value
  high : ∀ high, constraints.max = some high → value ≤ high
  least : minIntegerWidgetValue ≤ value
  greatest : value ≤ maxIntegerWidgetValue

theorem within_of_between (above : constraints.min.getD minIntegerWidgetValue ≤ value)
    (below : value ≤ constraints.max.getD maxIntegerWidgetValue) : Within constraints value where
  low := by
    intro low kept
    rw [kept] at above
    exact above
  high := by
    intro high kept
    rw [kept] at below
    exact below
  least := by
    cases kept : constraints.min with
    | none =>
      rw [kept] at above
      exact above
    | some low =>
      rw [kept] at above
      exact (constraints.minBounded low kept).1.trans above
  greatest := by
    cases kept : constraints.max with
    | none =>
      rw [kept] at below
      exact below
    | some high =>
      rw [kept] at below
      exact below.trans (constraints.maxBounded high kept).2

theorem bounds_ordered (constraints : IntegerStepConstraints) :
    constraints.min.getD minIntegerWidgetValue ≤ constraints.max.getD maxIntegerWidgetValue := by
  cases keptLow : constraints.min with
  | none =>
    cases keptHigh : constraints.max with
    | none => decide
    | some high => exact (constraints.maxBounded high keptHigh).1
  | some low =>
    cases keptHigh : constraints.max with
    | none => exact (constraints.minBounded low keptLow).2
    | some high => exact constraints.ordered low high keptLow keptHigh

/-- A step stays within the kept bounds. -/
theorem step_within (direction : Direction) (constraints : IntegerStepConstraints) :
    ∃ value, stepNumericValue current direction constraints = integerWidgetValue value ∧
      Within constraints value := by
  refine ⟨_, rfl, ?_⟩
  have ordered := bounds_ordered constraints
  generalize integerValue current + direction.sign * constraints.step = stepped
  apply within_of_between
  · split
    · exact le_refl _
    · split
      · exact ordered
      · omega
  · split
    · exact ordered
    · split
      · exact le_refl _
      · omega

theorem chunk_lt (value : Rat) : chunk value < 4294967296 := by
  unfold chunk
  have bound : max 0 (min (9007199254740991 / 9007199254740992) value) * 4294967296 <
      (4294967296 : ℤ) := by
    have clamped : max 0 (min (9007199254740991 / 9007199254740992) value) ≤
        (9007199254740991 / 9007199254740992 : Rat) :=
      max_le (by norm_num) (min_le_left _ _)
    push_cast
    linarith
  have floored := Int.floor_lt.mpr bound
  omega

/-- Every 32-bit number is taken from some random value. -/
theorem chunk_fraction {bits : Nat} (small : bits < 4294967296) :
    chunk (bits / 4294967296) = bits := by
  have atMost : (bits : Rat) ≤ 4294967295 := by
    exact_mod_cast (by omega : bits ≤ 4294967295)
  have nonneg : (0 : Rat) ≤ bits := Nat.cast_nonneg bits
  have clamped : max 0 (min (9007199254740991 / 9007199254740992) ((bits : Rat) / 4294967296)) =
      bits / 4294967296 := by
    rw [min_eq_right (by linarith), max_eq_right (by linarith)]
  unfold chunk
  rw [clamped, div_mul_cancel₀ _ (by norm_num), Int.floor_natCast, Int.toNat_natCast]

theorem randomBits96_eq : randomBits96 random =
    chunk (random.call 0) * 2 ^ 64 + chunk (random.call 1) * 2 ^ 32 + chunk (random.call 2) := by
  have second := chunk_lt (random.call 1)
  have third := chunk_lt (random.call 2)
  unfold randomBits96
  rw [← Nat.shiftLeft_add_eq_or_of_lt (by
      rw [Nat.shiftLeft_eq]
      omega : chunk (random.call 1) <<< 32 < 2 ^ 64)]
  rw [Nat.shiftLeft_eq, Nat.shiftLeft_eq]
  have joined : chunk (random.call 0) * 2 ^ 64 + chunk (random.call 1) * 2 ^ 32 =
      (chunk (random.call 0) * 2 ^ 32 + chunk (random.call 1)) <<< 32 := by
    rw [Nat.shiftLeft_eq]
    ring
  rw [joined, ← Nat.shiftLeft_add_eq_or_of_lt (by omega : chunk (random.call 2) < 2 ^ 32)]

theorem randomBits96_lt : randomBits96 random < 2 ^ 96 := by
  have first := chunk_lt (random.call 0)
  have second := chunk_lt (random.call 1)
  have third := chunk_lt (random.call 2)
  rw [randomBits96_eq]
  omega

theorem scaled_bounds {bits : Nat} (small : bits < 2 ^ 96) {span : Int} (positive : 0 < span) :
    0 ≤ ((bits : Int) * span) >>> (96 : Nat) ∧ ((bits : Int) * span) >>> (96 : Nat) < span := by
  rw [Int.shiftRight_eq_div_pow]
  have nonneg : 0 ≤ (bits : Int) * span := Int.mul_nonneg (Int.natCast_nonneg _) positive.le
  refine ⟨Int.ediv_nonneg nonneg (by positivity), ?_⟩
  refine Int.ediv_lt_of_lt_mul (by positivity) ?_
  rw [mul_comm span]
  exact mul_lt_mul_of_pos_right (by exact_mod_cast small) positive

/-- A span of at most `2 ^ 32` is covered by one value repeated three times. -/
theorem exists_scaled {span target : Nat} (small : span ≤ 2 ^ 32) (below : target < span) :
    ∃ bits < 2 ^ 32, (bits * (2 ^ 64 + 2 ^ 32 + 1) * span) / 2 ^ 96 = target := by
  by_cases whole : span = 2 ^ 32
  · subst whole
    refine ⟨target, below, ?_⟩
    refine Nat.div_eq_of_lt_le ?_ ?_ <;> omega
  · -- The least number of bits that reaches the target does not reach the next one.
    generalize shape : (2 ^ 64 + 2 ^ 32 + 1) * span = part
    have positive : 0 < part := by omega
    have narrow : part < 2 ^ 96 := by omega
    generalize chosen : (target * 2 ^ 96 + (part - 1)) / part = bits
    have split := Nat.div_add_mod (target * 2 ^ 96 + (part - 1)) part
    have rest := Nat.mod_lt (target * 2 ^ 96 + (part - 1)) positive
    rw [chosen, mul_comm] at split
    refine ⟨bits, ?_, ?_⟩
    · by_contra large
      have reached := Nat.mul_le_mul_right part (Nat.le_of_not_lt large)
      omega
    · rw [mul_assoc, shape]
      refine Nat.div_eq_of_lt_le ?_ ?_
      · omega
      · rw [Nat.succ_mul]
        omega

theorem randomMin_le_randomMax (constraints : IntegerStepConstraints) :
    constraints.randomMin ≤ constraints.randomMax := by
  unfold IntegerStepConstraints.randomMax
  dsimp only
  split
  · exact le_refl _
  · omega

theorem random_between (constraints : IntegerStepConstraints) (random : Random) :
    ∃ value, randomNumericValue constraints random = integerWidgetValue value ∧
      constraints.randomMin ≤ value ∧ value ≤ constraints.randomMax := by
  refine ⟨_, rfl, ?_⟩
  have ordered := randomMin_le_randomMax constraints
  have offset := scaled_bounds (randomBits96_lt random)
    (by omega : 0 < constraints.randomMax - constraints.randomMin + 1)
  omega

/-- The random function that always gives the same 32 bits. -/
def constantRandom (bits : Nat) (small : bits < 4294967296) : Random where
  call _ := bits / 4294967296
  nonneg _ := by positivity
  below _ := by
    rw [div_lt_one (by norm_num)]
    exact_mod_cast small

/-- Every value between the random bounds is reached when there are at most `2 ^ 32`. -/
theorem random_reaches (small : constraints.randomMax - constraints.randomMin + 1 ≤ 2 ^ 32)
    (above : constraints.randomMin ≤ value) (below : value ≤ constraints.randomMax) :
    ∃ random, randomNumericValue constraints random = integerWidgetValue value := by
  have spanned : ((constraints.randomMax - constraints.randomMin + 1).toNat : Int) =
      constraints.randomMax - constraints.randomMin + 1 := by omega
  have placed : ((value - constraints.randomMin).toNat : Int) =
      value - constraints.randomMin := by omega
  obtain ⟨bits, limit, reached⟩ := exists_scaled
    (by omega : (constraints.randomMax - constraints.randomMin + 1).toNat ≤ 2 ^ 32)
    (by omega : (value - constraints.randomMin).toNat <
      (constraints.randomMax - constraints.randomMin + 1).toNat)
  refine ⟨constantRandom bits limit, ?_⟩
  have drawn : randomBits96 (constantRandom bits limit) = bits * (2 ^ 64 + 2 ^ 32 + 1) := by
    rw [randomBits96_eq]
    change chunk (bits / 4294967296) * 2 ^ 64 + chunk (bits / 4294967296) * 2 ^ 32 +
      chunk (bits / 4294967296) = _
    rw [chunk_fraction limit]
    ring
  unfold randomNumericValue
  dsimp only
  rw [drawn, ← spanned, Int.shiftRight_eq_div_pow]
  have offset : ((bits * (2 ^ 64 + 2 ^ 32 + 1) : Nat) : Int) *
      (constraints.randomMax - constraints.randomMin + 1).toNat / ((2 ^ 96 : Nat) : Int) =
        (value - constraints.randomMin).toNat := by
    exact_mod_cast reached
  rw [offset, placed]
  congr 1
  omega

/-- Randomised values keep the bounds, unless only a negative maximum is kept. -/
theorem within_of_random
    (usable : ¬(constraints.min = none ∧ ∃ high, constraints.max = some high ∧ high < 0))
    (above : constraints.randomMin ≤ value) (below : value ≤ constraints.randomMax) :
    Within constraints value := by
  unfold IntegerStepConstraints.randomMax at below
  unfold IntegerStepConstraints.randomMin at above below
  apply within_of_between
  · cases keptLow : constraints.min with
    | none =>
      rw [keptLow] at above
      exact (by decide : minIntegerWidgetValue ≤ 0).trans above
    | some low =>
      rw [keptLow] at above
      exact above
  · cases keptHigh : constraints.max with
    | none =>
      have least : constraints.min.getD 0 ≤ maxIntegerWidgetValue := by
        cases keptLow : constraints.min with
        | none => decide
        | some low => exact (constraints.minBounded low keptLow).2
      rw [keptHigh] at below
      dsimp only [Option.getD_none] at below ⊢
      split at below
      · exact below.trans least
      · exact below.trans (by decide)
    | some high =>
      have least : constraints.min.getD 0 ≤ high := by
        cases keptLow : constraints.min with
        | none =>
          by_contra negative
          exact usable ⟨keptLow, high, keptHigh, Int.not_le.mp negative⟩
        | some low => exact constraints.ordered low high keptLow keptHigh
      rw [keptHigh] at below
      dsimp only [Option.getD_some] at below ⊢
      split at below
      · omega
      · exact below

theorem random_eq_zero {high : Int} (noMin : constraints.min = none)
    (kept : constraints.max = some high) (negative : high < 0) (random : Random) :
    randomNumericValue constraints random = integerWidgetValue 0 := by
  obtain ⟨value, same, above, below⟩ := random_between constraints random
  unfold IntegerStepConstraints.randomMax at below
  unfold IntegerStepConstraints.randomMin at above below
  rw [noMin] at above below
  rw [kept] at below
  dsimp only [Option.getD_none, Option.getD_some] at above below
  rw [if_pos negative] at below
  rw [same, Int.le_antisymm below above]

theorem eq_zero_of_encoded (same : integerWidgetValue 0 = integerWidgetValue value) :
    value = 0 := by
  have zero : integerWidgetValue 0 = .num 0 := by
    unfold integerWidgetValue
    rw [if_pos (by decide)]
    rfl
  rw [zero, integerWidgetValue] at same
  split at same
  · exact_mod_cast (IntegerWidgetValue.num.inj same).symm
  · cases same

/-- What is expected of the values an integer widget is stepped or randomised to: they are
encoded integers within the kept bounds, and a narrow range is reached wholly. -/
structure StaysInRange (constraints : IntegerStepConstraints) : Prop where
  stepped : ∀ current direction, ∃ value,
    stepNumericValue current direction constraints = integerWidgetValue value ∧
      Within constraints value
  randomised : ∀ random, ∃ value,
    randomNumericValue constraints random = integerWidgetValue value ∧ Within constraints value
  reached : constraints.randomMax - constraints.randomMin + 1 ≤ 2 ^ 32 →
    ∀ value, constraints.randomMin ≤ value → value ≤ constraints.randomMax →
      ∃ random, randomNumericValue constraints random = integerWidgetValue value

/-- The options declare a negative maximum and no minimum below which it could lie. -/
def OnlyNegativeMaximum (options : List (String × Json)) : Prop :=
  integerOption (getField options "min") = none ∧ invertedLegacyRange options = false ∧
    ∃ high, integerOption (getField options "max") = some high ∧ high < 0

theorem only_negative_maximum_iff : ((numericStepConstraints options).min = none ∧
      ∃ high, (numericStepConstraints options).max = some high ∧ high < 0) ↔
        OnlyNegativeMaximum options := by
  rw [min_numericStepConstraints, max_numericStepConstraints]
  unfold OnlyNegativeMaximum dropsBounds
  cases integerOption (getField options "min") with
  | none =>
    cases invertedLegacyRange options <;> simp [invertedBounds]
  | some low =>
    constructor
    · rintro ⟨noMin, high, keptHigh, _⟩
      split at noMin
      · rename_i dropped
        rw [if_pos dropped] at keptHigh
        cases keptHigh
      · cases noMin
    · rintro ⟨noMin, _⟩
      cases noMin

/-- A widget whose only bound is a maximum of `-1`. -/
def negativeOptions : List (String × Json) :=
  [("max", .num (-1))]

end Dinkster.Widgets
