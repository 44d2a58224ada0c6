-- `DoubleDoubleSummation` of summation.h and summation.cpp: a sum kept as the unevaluated pair
-- `_sum + _addend` of doubles, updated by Fast2Sum and 2Sum, with `addLong` splitting an int64
-- into two doubles and `fitsLong`/`getLong` reading off the integer nearest the pair, halfway
-- cases away from zero. Doubles are finite binary64 values, rounded to nearest with ties to
-- even and without an exponent range; NaN and the infinities, the only values `_special` is
-- read for, are outside the model, which still keeps `_special` as the plain sum it is.
-- `getDecimal` reads the pair as a `Decimal128`, whose operations are those of decimal128 in the
-- same way: 34 digits, ties to even, no exponent range.
import PerconaMongo.Lib.Float

namespace mongo

open binary_float binary_float.Dyadic decimal_float

/-- A finite double, `man * 2 ^ exp`. -/
abbrev Double := binary_float.Dyadic

/-- The significant bits of a double. -/
def kDoubleDigits : Nat := 53

/-- The double nearest to an integer: C's implicit conversion of an integer to `double`. -/
def toDouble (n : Int) : Double := round kDoubleDigits (ofInt n)

/-- `a + b` on doubles. -/
def dadd (a b : Double) : Double := fadd kDoubleDigits a b

/-- `a - b` on doubles. -/
def dsub (a b : Double) : Double := fsub kDoubleDigits a b

/-- `std::numeric_limits<long long>::min()`. -/
def kLongLongMin : Int := -2 ^ 63

/-- `std::numeric_limits<long long>::max()`. -/
def kLongLongMax : Int := 2 ^ 63 - 1

/-- The double `-0.5`. -/
def kMinusHalf : Double := ⟨-1, -1⟩

/-- The significant digits of a `Decimal128`. -/
def kDecimal128Digits : Nat := 34

namespace Decimal128

/-- `Decimal128::add`. -/
def add (x y : Decimal) : Decimal := Decimal.round kDecimal128Digits (x.add y)

/-- `Decimal128(double, kRoundTo34Digits)`: `binary64_to_bid128`, the double's exact value
rounded to 34 digits. -/
def ofDouble34 (d : Double) : Decimal :=
  Decimal.round kDecimal128Digits (Decimal.ofBinary d.man d.exp)

/-- `Decimal128(double)`, whose default precision is `kRoundTo15Digits`: the 34-digit
conversion quantized at the exponent that leaves 15 digits, guessed from the binary exponent
and quantized once more one place higher when the guess leaves 16. -/
def ofDouble (d : Double) : Decimal :=
  let converted := ofDouble34 d
  if d.man = 0 then converted
  else
    -- `frexp`'s exponent less one: the place of the leading bit
    let base2Exp : Int := (bitLength d.man.natAbs : Int) - 1 + d.exp
    let base10Exp := (base2Exp * 30103).tdiv (100 * 1000)
    let base10Exp := if base2Exp < 0 then base10Exp - 1 else base10Exp
    let q := converted.quantize (base10Exp - 14)
    if 10 ^ 15 - 1 < q.coef.natAbs then converted.quantize (base10Exp - 13) else q

/-- `Decimal128::toLong()`: rounded to an integer, ties to even. Outside the int64 range the
conversion is invalid, and `bid128_to_int64_rnint` returns `0x8000000000000000`. -/
def toLong (x : Decimal) : Int :=
  let r := x.roundToInt
  if kLongLongMin ≤ r ∧ r ≤ kLongLongMax then r else kLongLongMin

end Decimal128

structure DoubleDoubleSummation where
  _sum : Double := ofInt 0
  _addend : Double := ofInt 0
  _special : Double := ofInt 0
  deriving DecidableEq, Repr

namespace DoubleDoubleSummation

/-- Dekker's Fast2Sum: for `|b| ≤ |a|`, the double nearest `a + b` and the remainder. -/
def _fast2Sum (a b : Double) : Double × Double :=
  let s := dadd a b
  let z := dsub s a
  let t := dsub b z
  (s, t)

/-- Møller and Knuth's 2Sum: the double nearest `a + b` and the remainder, in any order. -/
def _2Sum (a b : Double) : Double × Double :=
  let s := dadd a b
  let aPrime := dsub s b
  let bPrime := dsub s aPrime
  let deltaA := dsub a aPrime
  let deltaB := dsub b bPrime
  let t := dadd deltaA deltaB
  (s, t)

def addDouble (st : DoubleDoubleSummation) (x : Double) : DoubleDoubleSummation :=
  let special := dadd st._special x
  let (x, addend) := _fast2Sum x st._addend
  let (sum, x) := _2Sum st._sum x
  { _sum := sum, _addend := dadd addend x, _special := special }

/-- `addLong`: the int64 split into a multiple of `2 ^ 32` (C's division truncates) and the
rest, each added as a double. -/
def addLong (st : DoubleDoubleSummation) (x : Int) : DoubleDoubleSummation :=
  let high := x.tdiv (2 ^ 32) * 2 ^ 32
  let low := x - high
  (st.addDouble (toDouble low)).addDouble (toDouble high)

def addInt (st : DoubleDoubleSummation) (x : Int) : DoubleDoubleSummation :=
  st.addDouble (toDouble x)

/-- `getDouble`: `_sum`, as `_sum` is never NaN here. -/
def getDouble (st : DoubleDoubleSummation) : Double := st._sum

/-- `getDecimal`: the two halves converted at 34 digits and added, as `_sum` is finite. -/
def getDecimal (st : DoubleDoubleSummation) : Decimal :=
  Decimal128.add (Decimal128.ofDouble34 st._sum) (Decimal128.ofDouble34 st._addend)

/-- `fitsLong`: the fast path strictly inside the int64 range, then the two boundaries, where
the comparisons of `_sum` with a `long long` convert the `long long` to a double. -/
def fitsLong (st : DoubleDoubleSummation) : Bool :=
  if toDouble kLongLongMin < st._sum ∧ st._sum < toDouble kLongLongMax then true
  else if st._sum ≈ toDouble kLongLongMax then decide (st._addend < kMinusHalf)
  else if st._sum ≈ toDouble kLongLongMin then decide (kMinusHalf ≤ st._addend)
  else false

/-- `getLong`, with `llround` as rounding halfway cases away from zero and the `long long`
arithmetic done on unbounded integers: a result outside the int64 range is a signed overflow
of the source. -/
def getLong (st : DoubleDoubleSummation) : Except String Int :=
  if !st.fitsLong then .error "sum out of range of a 64-bit signed integer"
  else if st._sum ≈ toDouble kLongLongMax then
    .ok (roundHalfAway st._addend - kLongLongMin)
  else
    let sum := roundHalfAway st._sum
    .ok (sum + roundHalfAway (dadd (dsub st._sum (toDouble sum)) st._addend))

/-! ## The split of `addLong` -/

theorem natAbs_tmod_lt (x : Int) : (x - x.tdiv (2 ^ 32) * 2 ^ 32).natAbs < 2 ^ 32 := by
  have hmod : x - x.tdiv (2 ^ 32) * 2 ^ 32 = x.tmod (2 ^ 32) := by
    rw [Int.tmod_def]
    ring
  rw [hmod, Int.natAbs_tmod]
  exact Nat.mod_lt _ (by decide)

theorem natAbs_high_le (x : Int) (hx : x.natAbs ≤ 2 ^ 63) :
    (x.tdiv (2 ^ 32) * 2 ^ 32).natAbs ≤ 2 ^ 63 := by
  rw [Int.natAbs_mul, Int.natAbs_tdiv]
  have hq : x.natAbs.div (2 ^ 32) * 2 ^ 32 ≤ x.natAbs := Nat.div_mul_le_self _ _
  exact le_trans (by simpa using hq) hx

/-- The `dassert` of `addLong`: the two halves sum to `x`, and each converts to a double
exactly, the low one having at most 32 significant bits and the high one at most 32 bits
above its 32 trailing zeros. -/
theorem addLong_split (x : Int) (hx : kLongLongMin ≤ x ∧ x ≤ kLongLongMax) :
    let high := x.tdiv (2 ^ 32) * 2 ^ 32
    let low := x - high
    high + low = x ∧ (toDouble high).toRat = high ∧ (toDouble low).toRat = low := by
  intro high low
  have hxabs : x.natAbs ≤ 2 ^ 63 := by
    unfold kLongLongMin kLongLongMax at hx
    omega
  refine ⟨by omega, ?_, ?_⟩
  · -- the high half is a multiple of 2 ^ 32 of at most 64 bits, so rounding to 53 drops zeros
    have hlen : bitLength high.natAbs ≤ 64 :=
      bitLength_le_iff.mpr (lt_of_le_of_lt (natAbs_high_le x hxabs) (by decide))
    have hdvd : 2 ^ (bitLength high.natAbs - kDoubleDigits) ∣ high.natAbs := by
      have h32 : 2 ^ (bitLength high.natAbs - kDoubleDigits) ∣ 2 ^ 32 :=
        Nat.pow_dvd_pow 2 (by unfold kDoubleDigits; omega)
      exact h32.trans ⟨(x.tdiv (2 ^ 32)).natAbs, by simp [high, Int.natAbs_mul, mul_comm]⟩
    rw [toDouble, toRat_round_of_dvd kDoubleDigits (ofInt high) hdvd]
    simp [toRat, ofInt]
  · have hlow : (ofInt low).man.natAbs < 2 ^ kDoubleDigits :=
      lt_of_lt_of_le (natAbs_tmod_lt x) (Nat.pow_le_pow_right (by decide) (by decide))
    rw [toDouble, round_of_lt hlow]
    simp [toRat, ofInt]

/-! ## Integers of at most 53 bits add exactly -/

theorem toDouble_of_natAbs_lt {n : Int} (h : n.natAbs < 2 ^ 53) : toDouble n = ofInt n :=
  round_of_lt h

theorem dadd_ofInt {a b : Int} (h : (a + b).natAbs < 2 ^ 53) :
    dadd (ofInt a) (ofInt b) = ofInt (a + b) :=
  fadd_ofInt h

theorem dsub_ofInt {a b : Int} (h : (a - b).natAbs < 2 ^ 53) :
    dsub (ofInt a) (ofInt b) = ofInt (a - b) :=
  fsub_ofInt h

/-- The sum holds the integer `s` exactly, all of it in `_sum`. -/
structure HoldsInt (st : DoubleDoubleSummation) (s : Int) : Prop where
  sum : st._sum = ofInt s
  addend : st._addend = ofInt 0

theorem holdsInt_empty : ({} : DoubleDoubleSummation).HoldsInt 0 := ⟨rfl, rfl⟩

/-- Adding an integer to a sum that holds an integer: Fast2Sum of `b` and 0 gives `(b, 0)` and
2Sum of `a` and `b` gives `(a + b, 0)`, as every value on the way is an integer of at most 53
bits, which no operation rounds. -/
theorem HoldsInt.addDouble {st : DoubleDoubleSummation} {a b : Int} (h : st.HoldsInt a)
    (ha : a.natAbs < 2 ^ 53) (hb : b.natAbs < 2 ^ 53) (hab : (a + b).natAbs < 2 ^ 53) :
    (st.addDouble (ofInt b)).HoldsInt (a + b) := by
  obtain ⟨sum, addend, special⟩ := st
  obtain ⟨rfl, rfl⟩ := h
  constructor <;>
  · simp (disch := omega) only [DoubleDoubleSummation.addDouble, _fast2Sum, _2Sum, dadd_ofInt,
      dsub_ofInt]
    simp

theorem toDouble_kLongLongMin : (toDouble kLongLongMin).toRat = -2 ^ 63 := by
  have h : toDouble kLongLongMin = ⟨-2 ^ 52, 11⟩ := by decide
  rw [h, toRat]
  norm_num

theorem toDouble_kLongLongMax : (toDouble kLongLongMax).toRat = 2 ^ 63 := by
  have h : toDouble kLongLongMax = ⟨2 ^ 53, 10⟩ := by decide
  rw [h, toRat]
  norm_num

theorem inside_int64_of_natAbs_lt {s : Int} (hs : s.natAbs < 2 ^ 53) :
    (-2 ^ 63 : ℚ) < s ∧ (s : ℚ) < 2 ^ 63 := by
  have hlo := (Int.cast_lt (R := ℚ)).mpr (by omega : (-2 ^ 63 : Int) < s)
  have hhi := (Int.cast_lt (R := ℚ)).mpr (by omega : s < (2 ^ 63 : Int))
  push_cast at hlo hhi
  exact ⟨hlo, hhi⟩

/-- A sum holding an integer of at most 53 bits takes the fast path of `fitsLong`. -/
theorem HoldsInt.fitsLong {st : DoubleDoubleSummation} {s : Int} (h : st.HoldsInt s)
    (hs : s.natAbs < 2 ^ 53) : st.fitsLong = true := by
  obtain ⟨hlo, hhi⟩ := inside_int64_of_natAbs_lt hs
  have hmin : toDouble kLongLongMin < st._sum := by
    rw [h.sum, lt_iff, toDouble_kLongLongMin, toRat_ofInt]
    exact hlo
  have hmax : st._sum < toDouble kLongLongMax := by
    rw [h.sum, lt_iff, toDouble_kLongLongMax, toRat_ofInt]
    exact hhi
  simp only [DoubleDoubleSummation.fitsLong, if_pos (And.intro hmin hmax)]

/-- ... and `getLong` returns it. -/
theorem HoldsInt.getLong {st : DoubleDoubleSummation} {s : Int} (h : st.HoldsInt s)
    (hs : s.natAbs < 2 ^ 53) : st.getLong = .ok s := by
  have hne : ¬ ofInt s ≈ toDouble kLongLongMax := by
    rw [equiv_iff, toDouble_kLongLongMax, toRat_ofInt]
    exact ne_of_lt (inside_int64_of_natAbs_lt hs).2
  have hzero : dadd (dsub (ofInt s) (toDouble s)) (ofInt 0) = ofInt 0 := by
    rw [toDouble_of_natAbs_lt hs, dsub_ofInt (by omega), dadd_ofInt (by omega)]
    simp
  simp only [DoubleDoubleSummation.getLong, h.fitsLong hs, h.sum, h.addend, if_neg hne,
    roundHalfAway_ofInt, hzero]
  simp

/-! ## `fitsLong` and `getLong` below `INT64_MIN` -/

/-- `addLong(INT64_MIN)` then `addDouble(-0.5)`. -/
def minLongLessHalf : DoubleDoubleSummation :=
  (({} : DoubleDoubleSummation).addLong kLongLongMin).addDouble kMinusHalf

/-- On `addLong(INT64_MIN)` then `addDouble(-0.5)` the pair holds the sum `-2 ^ 63 - 0.5`
exactly and `_sum` is the double nearest it, but `fitsLong` accepts the sum, whose rounding
half away from zero is `-2 ^ 63 - 1`, and `getLong` then adds `llround(-0.5) = -1` to
`INT64_MIN`: a signed overflow. The split of `addLong` is exact for every int64, so the pair
holds `-2 ^ 63 - 0.5` through no fault of `addLong`. -/
theorem getLong_overflows_below_min :
    (dadd minLongLessHalf._sum minLongLessHalf._addend ≈ minLongLessHalf._sum ∧
      minLongLessHalf._sum + minLongLessHalf._addend ≈ (⟨-2 ^ 64 - 1, -1⟩ : Double) ∧
      minLongLessHalf.getDouble ≈ round kDoubleDigits ⟨-2 ^ 64 - 1, -1⟩ ∧
      minLongLessHalf.fitsLong = true ∧
      roundHalfAway ⟨-2 ^ 64 - 1, -1⟩ = kLongLongMin - 1 ∧
      minLongLessHalf.getLong = .ok (kLongLongMin - 1)) ∧
    ∀ x, kLongLongMin ≤ x ∧ x ≤ kLongLongMax →
      let high := x.tdiv (2 ^ 32) * 2 ^ 32
      let low := x - high
      high + low = x ∧ (toDouble high).toRat = high ∧ (toDouble low).toRat = low :=
  ⟨by decide, addLong_split⟩

end DoubleDoubleSummation

end mongo
