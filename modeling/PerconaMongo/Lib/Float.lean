-- Floating-point arithmetic rounded to nearest, ties to even, as IEEE 754 defines it for finite
-- values that stay inside a format's exponent range. A finite binary value is a dyadic rational
-- `man * 2 ^ exp`; an operation takes the exact result and rounds it to the format's `p`
-- significant bits (binary32: 24, binary64: 53). A finite decimal value is `coef * 10 ^ exp`,
-- rounded in the same way to `p` significant digits (decimal128: 34), and a quantize rounds it
-- to a given exponent. All of it is integer arithmetic, so a result on given inputs is computed
-- by `decide`; `toRat` gives a binary value for stating what it means.
import Mathlib.Algebra.Order.Field.Power
import Mathlib.Data.Rat.Cast.Order
import Mathlib.Data.Nat.Log
import Mathlib.Tactic.Ring

/-! ## Binary formats -/

namespace binary_float

/-- The dyadic rational `man * 2 ^ exp`. -/
structure Dyadic where
  man : Int
  exp : Int
  deriving DecidableEq, Repr

namespace Dyadic

/-- The integer `n`. -/
def ofInt (n : Int) : Dyadic := ⟨n, 0⟩

/-- The exact sum, at the smaller of the two exponents. -/
def add (x y : Dyadic) : Dyadic :=
  let e := min x.exp y.exp
  ⟨x.man * 2 ^ (x.exp - e).toNat + y.man * 2 ^ (y.exp - e).toNat, e⟩

def neg (x : Dyadic) : Dyadic := ⟨-x.man, x.exp⟩

instance : Add Dyadic := ⟨add⟩
instance : Neg Dyadic := ⟨neg⟩
instance : Sub Dyadic := ⟨fun x y => x + -y⟩

-- Comparisons are by value, through the sign of the exact difference: one value has many
-- representations, so `≈` and not `=` is the equality of a C `==`.
instance : LT Dyadic := ⟨fun x y => (x - y).man < 0⟩
instance : LE Dyadic := ⟨fun x y => (x - y).man ≤ 0⟩
instance : HasEquiv Dyadic := ⟨fun x y => (x - y).man = 0⟩

instance (x y : Dyadic) : Decidable (x < y) := inferInstanceAs (Decidable ((x - y).man < 0))
instance (x y : Dyadic) : Decidable (x ≤ y) := inferInstanceAs (Decidable ((x - y).man ≤ 0))
instance (x y : Dyadic) : Decidable (x ≈ y) := inferInstanceAs (Decidable ((x - y).man = 0))

/-- The value `man * 2 ^ exp`. -/
def toRat (x : Dyadic) : ℚ := x.man * 2 ^ x.exp

/-- The number of significant bits of `n`, 0 for 0. -/
def bitLength (n : Nat) : Nat := if n = 0 then 0 else n.log2 + 1

/-- `n / 2 ^ s` rounded to the nearest integer, ties to even. -/
def shiftRoundEven (n s : Nat) : Nat :=
  if s = 0 then n
  else if 2 ^ (s - 1) < n % 2 ^ s ∨ (n % 2 ^ s = 2 ^ (s - 1) ∧ n / 2 ^ s % 2 = 1) then
    n / 2 ^ s + 1
  else n / 2 ^ s

/-- `x` rounded to `p` significant bits. -/
def round (p : Nat) (x : Dyadic) : Dyadic :=
  let s := bitLength x.man.natAbs - p
  ⟨x.man.sign * shiftRoundEven x.man.natAbs s, x.exp + s⟩

/-- The exact quotient `x / y` rounded to `p` significant bits. The magnitudes are divided at a
scale that leaves the integer quotient `q` at least `p + 2` bits (for `x ≠ 0`); the bits of `q`
below the `p` kept are the guard and the remainder of the division is the sticky bit. -/
def divRound (p : Nat) (x y : Dyadic) : Dyadic :=
  let t := p + 1 + bitLength y.man.natAbs
  let q := x.man.natAbs * 2 ^ t / y.man.natAbs
  let sticky := x.man.natAbs * 2 ^ t % y.man.natAbs ≠ 0
  let s := bitLength q - p
  let kept := q / 2 ^ s
  let low := q % 2 ^ s
  let up := 2 ^ (s - 1) < low ∨ (low = 2 ^ (s - 1) ∧ (sticky ∨ kept % 2 = 1))
  ⟨x.man.sign * y.man.sign * (if up then kept + 1 else kept), x.exp - y.exp - t + s⟩

/-- Addition in a binary format of `p` bits: the exact sum, rounded. -/
def fadd (p : Nat) (x y : Dyadic) : Dyadic := round p (x + y)

/-- Subtraction in a binary format of `p` bits. -/
def fsub (p : Nat) (x y : Dyadic) : Dyadic := round p (x - y)

/-- `x` rounded toward zero to an integer: C's conversion of a floating value to an integer
type, for a value in that type's range. -/
def truncate (x : Dyadic) : Int :=
  if 0 ≤ x.exp then x.man * 2 ^ x.exp.toNat else x.man.tdiv (2 ^ (-x.exp).toNat)

/-- `x` rounded to an integer, halfway cases away from zero: C's `roundf`, `round` and
`llround` on a value in range. -/
def roundHalfAway (x : Dyadic) : Int :=
  if 0 ≤ x.exp then x.man * 2 ^ x.exp.toNat
  else x.man.sign * ((x.man.natAbs + 2 ^ ((-x.exp).toNat - 1)) / 2 ^ (-x.exp).toNat)

/-! ## Values -/

@[simp] theorem toRat_ofInt (n : Int) : (ofInt n).toRat = n := by
  simp [toRat, ofInt]

theorem two_zpow_toNat_mul {a e : Int} (h : e ≤ a) :
    (2 : ℚ) ^ (a - e).toNat * 2 ^ e = 2 ^ a := by
  rw [← zpow_natCast, Int.toNat_of_nonneg (by omega), ← zpow_add₀ two_ne_zero]
  congr 1
  omega

@[simp] theorem toRat_add (x y : Dyadic) : (x + y).toRat = x.toRat + y.toRat := by
  show (add x y).toRat = _
  simp only [add, toRat, Int.cast_add, Int.cast_mul, Int.cast_pow, Int.cast_ofNat]
  rw [add_mul, mul_assoc, mul_assoc, two_zpow_toNat_mul (min_le_left _ _),
    two_zpow_toNat_mul (min_le_right _ _)]

@[simp] theorem toRat_neg (x : Dyadic) : (-x).toRat = -x.toRat := by
  show (neg x).toRat = _
  simp [neg, toRat, neg_mul]

@[simp] theorem toRat_sub (x y : Dyadic) : (x - y).toRat = x.toRat - y.toRat := by
  show (x + -y).toRat = _
  rw [toRat_add, toRat_neg, sub_eq_add_neg]

/-- The sign of a value is the sign of its significand, scaled by a positive power of two. -/
theorem man_lt_zero_iff (x : Dyadic) : x.man < 0 ↔ x.toRat < 0 := by
  have hpow : (0 : ℚ) < 2 ^ x.exp := zpow_pos two_pos _
  rw [toRat, ← zero_mul ((2 : ℚ) ^ x.exp), mul_lt_mul_iff_of_pos_right hpow]
  exact_mod_cast Iff.rfl

theorem lt_iff (x y : Dyadic) : x < y ↔ x.toRat < y.toRat := by
  show (x - y).man < 0 ↔ _
  rw [man_lt_zero_iff, toRat_sub, sub_neg]

theorem equiv_iff (x y : Dyadic) : x ≈ y ↔ x.toRat = y.toRat := by
  show (x - y).man = 0 ↔ _
  have hpow : (0 : ℚ) < 2 ^ (x - y).exp := zpow_pos two_pos _
  rw [← sub_eq_zero (a := x.toRat), ← toRat_sub, toRat, mul_eq_zero, or_iff_left hpow.ne']
  exact_mod_cast Iff.rfl

/-! ## Exact rounding -/

theorem bitLength_le_iff {n k : Nat} : bitLength n ≤ k ↔ n < 2 ^ k := by
  unfold bitLength
  split
  · subst n
    exact ⟨fun _ => Nat.two_pow_pos k, fun _ => Nat.zero_le k⟩
  · rw [← Nat.log2_lt ‹_›]
    omega

theorem shiftRoundEven_of_dvd {n s : Nat} (h : 2 ^ s ∣ n) : shiftRoundEven n s = n / 2 ^ s := by
  have hmod : n % 2 ^ s = 0 := Nat.mod_eq_zero_of_dvd h
  unfold shiftRoundEven
  split
  · subst s
    simp
  · have : 0 < 2 ^ (s - 1) := Nat.two_pow_pos _
    rw [if_neg (by omega)]

/-- A value whose significant bits beyond the first `p` are zeros rounds to itself. -/
theorem toRat_round_of_dvd (p : Nat) (x : Dyadic)
    (h : 2 ^ (bitLength x.man.natAbs - p) ∣ x.man.natAbs) : (round p x).toRat = x.toRat := by
  simp only [round, toRat]
  generalize bitLength x.man.natAbs - p = s at h ⊢
  have hdiv : ((x.man.natAbs / 2 ^ s : Nat) : ℚ) * 2 ^ (s : Int) = x.man.natAbs := by
    rw [zpow_natCast]
    exact_mod_cast Nat.div_mul_cancel h
  have hsign : (x.man.sign : ℚ) * x.man.natAbs = x.man := by
    rw [Nat.cast_natAbs, ← Int.cast_mul, Int.sign_mul_abs]
  rw [shiftRoundEven_of_dvd h, zpow_add₀ two_ne_zero, Int.cast_mul, Int.cast_natCast]
  calc (x.man.sign : ℚ) * ((x.man.natAbs / 2 ^ s : Nat) : ℚ) * (2 ^ x.exp * 2 ^ (s : Int))
      = x.man.sign * (((x.man.natAbs / 2 ^ s : Nat) : ℚ) * 2 ^ (s : Int)) * 2 ^ x.exp := by ring
    _ = x.man * 2 ^ x.exp := by rw [hdiv, hsign]

/-- A value of at most `p` significant bits is its own rounding. -/
theorem round_of_lt {p : Nat} {x : Dyadic} (h : x.man.natAbs < 2 ^ p) : round p x = x := by
  have hs : bitLength x.man.natAbs - p = 0 := by
    have := bitLength_le_iff.mpr h
    omega
  simp [round, hs, shiftRoundEven, Int.sign_mul_abs]

/-! ## Integers -/

@[simp] theorem ofInt_add (a b : Int) : ofInt a + ofInt b = ofInt (a + b) := by
  show add _ _ = _
  simp [add, ofInt]

@[simp] theorem neg_ofInt (a : Int) : -ofInt a = ofInt (-a) := rfl

@[simp] theorem ofInt_sub (a b : Int) : ofInt a - ofInt b = ofInt (a - b) := by
  show ofInt a + -ofInt b = _
  rw [neg_ofInt, ofInt_add, Int.sub_eq_add_neg]

/-- Integers of at most `p` bits add exactly. -/
theorem fadd_ofInt {p : Nat} {a b : Int} (h : (a + b).natAbs < 2 ^ p) :
    fadd p (ofInt a) (ofInt b) = ofInt (a + b) := by
  rw [fadd, ofInt_add, round_of_lt h]

theorem fsub_ofInt {p : Nat} {a b : Int} (h : (a - b).natAbs < 2 ^ p) :
    fsub p (ofInt a) (ofInt b) = ofInt (a - b) := by
  rw [fsub, ofInt_sub, round_of_lt h]

@[simp] theorem roundHalfAway_ofInt (a : Int) : roundHalfAway (ofInt a) = a := by
  simp [roundHalfAway, ofInt]

end Dyadic

end binary_float

/-! ## Decimal formats -/

namespace decimal_float

/-- The decimal `coef * 10 ^ exp`. -/
structure Decimal where
  coef : Int
  exp : Int
  deriving DecidableEq, Repr

namespace Decimal

/-- The integer `n`. -/
def ofInt (n : Int) : Decimal := ⟨n, 0⟩

/-- The exact value of the binary `man * 2 ^ exp`; below the units it is
`man * 5 ^ (-exp) * 10 ^ exp`. -/
def ofBinary (man exp : Int) : Decimal :=
  if 0 ≤ exp then ⟨man * 2 ^ exp.toNat, 0⟩ else ⟨man * 5 ^ (-exp).toNat, exp⟩

/-- The exact sum, at the smaller of the two exponents. -/
def add (x y : Decimal) : Decimal :=
  let e := min x.exp y.exp
  ⟨x.coef * 10 ^ (x.exp - e).toNat + y.coef * 10 ^ (y.exp - e).toNat, e⟩

/-- The number of decimal digits of `n`, 0 for 0. -/
def digits (n : Nat) : Nat := if n = 0 then 0 else Nat.log 10 n + 1

/-- `n / d` rounded to the nearest integer, ties to even. -/
def divRoundEven (n d : Nat) : Nat :=
  if d < 2 * (n % d) ∨ (2 * (n % d) = d ∧ n / d % 2 = 1) then n / d + 1 else n / d

/-- `x` with `s` digits of its coefficient rounded off. -/
def shiftRound (x : Decimal) (s : Nat) : Decimal :=
  ⟨x.coef.sign * divRoundEven x.coef.natAbs (10 ^ s), x.exp + s⟩

/-- `x` rounded to `p` significant digits. -/
def round (p : Nat) (x : Decimal) : Decimal := x.shiftRound (digits x.coef.natAbs - p)

/-- `x` at exponent `e`: rounded to a multiple of `10 ^ e`, or rescaled exactly when its own
exponent is larger. -/
def quantize (x : Decimal) (e : Int) : Decimal :=
  if x.exp < e then x.shiftRound (e - x.exp).toNat
  else ⟨x.coef * 10 ^ (x.exp - e).toNat, e⟩

/-- `x` rounded to an integer, ties to even. -/
def roundToInt (x : Decimal) : Int :=
  if 0 ≤ x.exp then x.coef * 10 ^ x.exp.toNat
  else x.coef.sign * divRoundEven x.coef.natAbs (10 ^ (-x.exp).toNat)

end Decimal

end decimal_float
