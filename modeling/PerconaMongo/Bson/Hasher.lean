-- `BSONElementHasher::hash64`, with which hashed indexes and hashed shard keys place a value:
-- MD5 over the seed, the canonical type and the value, with every number squashed to an int64
-- by `safeNumberLongForHash`. A double goes through the C cast, toward zero, and a decimal
-- through `Decimal128::toLong`, to the nearest integer with ties to even, so two numbers that
-- compare equal can feed the digest different int64s. Elements that hold sub-objects are not
-- modelled.
import PerconaMongo.Bson.Order
import PerconaMongo.Lib.Md5
import Mathlib.Data.Rat.Floor

namespace mongo

/-- `endian::nativeToLittle` of an integer `width` bytes wide: its two's complement bytes, low
byte first. -/
def littleEndianBytes (width : Nat) (x : Int) : List UInt8 :=
  (List.range width).map fun i => UInt8.ofNat ((x / 2 ^ (8 * i)) % 256).toNat

/-- `ConstDataView::read<LittleEndian<long long>>`: the signed integer of the bytes, low first. -/
def readLittleEndian (bytes : List UInt8) : Int :=
  let n : Int := bytes.foldr (fun b acc => b.toNat + 256 * acc) 0
  if n < 2 ^ (8 * bytes.length - 1) then n else n - 2 ^ (8 * bytes.length)

/-- `static_cast<long long>` of a finite double: toward zero. -/
def truncate (q : ℚ) : Int := if 0 ≤ q then ⌊q⌋ else ⌈q⌉

/-- `Decimal128::toLong` in its default mode, `kRoundTiesToEven`. -/
def roundTiesToEven (q : ℚ) : Int :=
  if Int.fract q < 1 / 2 then ⌊q⌋
  else if 1 / 2 < Int.fract q then ⌊q⌋ + 1
  else if ⌊q⌋ % 2 = 0 then ⌊q⌋ else ⌊q⌋ + 1

def kLongLongMaxPlusOneAsDouble : ℚ := 2 ^ 63

def longLongMax : Int := 2 ^ 63 - 1

def longLongMin : Int := -2 ^ 63

namespace BSONElement

/-- `BSONElement::numberLong`. -/
def castNumberLong : BSONElement → Int
  | numberDouble v => truncate v.value
  | numberInt v | numberLong v => v
  | numberDecimal v => roundTiesToEven v.value
  | _ => 0

/-- `BSONElement::safeNumberLong`: NaN to 0, and values out of range clamped, a double against
2^63 and a decimal against the largest int64. -/
def safeNumberLong (e : BSONElement) : Int :=
  match e with
  | numberDouble v =>
    if v.isNaN then 0
    else if ¬ v.compare (.finite kLongLongMaxPlusOneAsDouble) < 0 then longLongMax
    else if v.compare (.finite longLongMin) < 0 then longLongMin
    else e.castNumberLong
  | numberDecimal v =>
    if v.isNaN then 0
    else if 0 < v.compare (.finite longLongMax) then longLongMax
    else if v.compare (.finite longLongMin) < 0 then longLongMin
    else e.castNumberLong
  | _ => e.castNumberLong

/-- `BSONElement::safeNumberLongForHash`: the double 2^63 goes to the lowest int64, as the cast
that older versions made overflowed. -/
def safeNumberLongForHash (e : BSONElement) : Int :=
  match e with
  | numberDouble v => if v = .finite kLongLongMaxPlusOneAsDouble then longLongMin else e.safeNumberLong
  | _ => e.safeNumberLong

/-- `e.value()` for `e.valuesize()` bytes, for the types that are not numbers: nothing for the
types of one value, a byte for a boolean, and a string's length with its NUL, its bytes and the
NUL. -/
def valueBytes : BSONElement → List UInt8
  | bool b => [if b then 1 else 0]
  | string s => littleEndianBytes 4 (s.utf8ByteSize + 1) ++ s.toUTF8.toList ++ [0]
  | _ => []

end BSONElement

open BSONElement

/-- `recursiveHash` of an element without its field name: the canonical type as four bytes,
then a number squashed to eight or the bytes of another value. -/
def recursiveHash (h : md5.State) (e : BSONElement) : md5.State :=
  let h := h.append (littleEndianBytes 4 e.canonicalType)
  if e.isNumber then h.append (littleEndianBytes 8 e.safeNumberLongForHash)
  else h.append e.valueBytes

/-- `BSONElementHasher::hash64`: the seed, then the element, through MD5; the hash is the first
eight bytes of the digest. -/
def hash64 (e : BSONElement) (seed : Int) : Int :=
  let h := md5.init.append (littleEndianBytes 4 seed)
  readLittleEndian ((recursiveHash h e).finish.take 8)

-- two of the fixed values of the source's hasher tests
example : hash64 (numberDouble (.finite (42123 / 1000))) 0 = -944302157085130861 := by
  decide +kernel

example : hash64 (string "abc") 0 = 8478485326885698097 := by
  decide +kernel

/-! ## Bytes -/

theorem emod_mul_of_nonneg (x : Int) {b : Int} (hb : 0 ≤ b) (c : Int) :
    x % (b * c) = x % b + b * (x / b % c) := by
  rw [Int.emod_def, Int.emod_def, Int.emod_def, ← Int.ediv_ediv_of_nonneg hb]
  ring

/-- The bytes of `x` are its low byte, then the bytes of the rest. -/
theorem littleEndianBytes_succ (w : Nat) (x : Int) :
    littleEndianBytes (w + 1) x = UInt8.ofNat (x % 256).toNat :: littleEndianBytes w (x / 256) := by
  simp only [littleEndianBytes, List.range_succ_eq_map, List.map_cons, List.map_map]
  congr 2
  · simp
  · funext i
    simp only [Function.comp, Int.ediv_ediv_of_nonneg (by norm_num : (0 : Int) ≤ 256)]
    rw [Nat.mul_succ, pow_add, mul_comm]
    rfl

@[simp] theorem length_littleEndianBytes (w : Nat) (x : Int) :
    (littleEndianBytes w x).length = w := by
  simp [littleEndianBytes]

/-- Reading bytes low first gives the same number in `Nat` and in `Int`. -/
theorem natCast_foldr_bytes (l : List UInt8) :
    ((l.foldr (fun b acc => b.toNat + 256 * acc) 0 : Nat) : Int) =
      l.foldr (fun b acc => (b.toNat : Int) + 256 * acc) 0 := by
  induction l with
  | nil => rfl
  | cons b l ih => simp [ih]

/-- The bytes of `x`, read unsigned, are `x` modulo `2 ^ (8 * width)`. -/
theorem foldr_littleEndianBytes (w : Nat) (x : Int) :
    (littleEndianBytes w x).foldr (fun b acc => (b.toNat : Int) + 256 * acc) 0 =
      x % 2 ^ (8 * w) := by
  -- one byte per step: the low byte, then the bytes of x / 256 one width narrower
  induction w generalizing x with
  | zero => simp [littleEndianBytes]
  | succ w ih =>
    have hb : 0 ≤ x % 256 := Int.emod_nonneg x (by norm_num)
    have hb' : x % 256 < 256 := Int.emod_lt_of_pos x (by norm_num)
    rw [littleEndianBytes_succ, List.foldr_cons, ih, UInt8.toNat_ofNat', Nat.mul_succ, pow_add,
      mul_comm (2 ^ (8 * w) : Int), emod_mul_of_nonneg x (by norm_num)]
    push_cast
    omega

/-! ## Squashing numbers -/

@[simp]
theorem truncate_intCast (n : Int) : truncate n = n := by
  unfold truncate
  split_ifs <;> simp

@[simp]
theorem roundTiesToEven_intCast (n : Int) : roundTiesToEven n = n := by
  simp [roundTiesToEven]

theorem isNumber_of_numVal? {e : BSONElement} {v : NumVal} (h : e.numVal? = some v) :
    e.isNumber = true := by
  cases e <;> simp_all [numVal?, isNumber]

/-- A finite double below 2^63 and not below the least int64 is cast toward zero. -/
theorem safeNumberLongForHash_double {q : ℚ} (hlo : (longLongMin : ℚ) ≤ q)
    (hhi : q < kLongLongMaxPlusOneAsDouble) :
    (numberDouble (.finite q)).safeNumberLongForHash = truncate q := by
  have hlo' : ¬ q < longLongMin := not_lt.mpr hlo
  simp [safeNumberLongForHash, hhi.ne, safeNumberLong, NumVal.isNaN, hhi, hlo', castNumberLong,
    NumVal.value]

/-- A finite decimal within the range of an int64 is rounded to nearest, ties to even. -/
theorem safeNumberLongForHash_decimal {q : ℚ} (hlo : (longLongMin : ℚ) ≤ q)
    (hhi : q ≤ longLongMax) :
    (numberDecimal (.finite q)).safeNumberLongForHash = roundTiesToEven q := by
  have hlo' : ¬ q < longLongMin := not_lt.mpr hlo
  have hhi' : ¬ (longLongMax : ℚ) < q := not_lt.mpr hhi
  simp [safeNumberLongForHash, safeNumberLong, NumVal.isNaN, hlo', hhi', castNumberLong,
    NumVal.value]

/-- A number whose value is an int64 is squashed to that value, whatever its type. -/
theorem safeNumberLongForHash_of_numVal? {e : BSONElement} {n : Int}
    (h : e.numVal? = some (.finite n)) (hlo : longLongMin ≤ n) (hhi : n ≤ longLongMax) :
    e.safeNumberLongForHash = n := by
  have hlo' : (longLongMin : ℚ) ≤ n := by exact_mod_cast hlo
  have hhi' : (n : ℚ) ≤ longLongMax := by exact_mod_cast hhi
  -- 2^63 lies above every int64
  have hmax : (n : ℚ) < kLongLongMaxPlusOneAsDouble := by
    have : n < 2 ^ 63 := by unfold longLongMax at hhi; omega
    unfold kLongLongMaxPlusOneAsDouble
    exact_mod_cast this
  cases e with
  | numberInt v | numberLong v =>
    simp only [numVal?, Option.some.injEq, NumVal.finite.injEq, Int.cast_inj] at h
    simp [safeNumberLongForHash, safeNumberLong, castNumberLong, h]
  | numberDouble v =>
    simp only [numVal?, Option.some.injEq] at h
    rw [h, safeNumberLongForHash_double hlo' hmax, truncate_intCast]
  | numberDecimal v =>
    simp only [numVal?, Option.some.injEq] at h
    rw [h, safeNumberLongForHash_decimal hlo' hhi', roundTiesToEven_intCast]
  | eoo | minKey | maxKey | undefined | null | string _ | bool _ => simp [numVal?] at h

/-! ## Where the hash respects equality -/

/-- Two numbers that squash to one int64 hash alike: MD5 sees the same bytes. -/
theorem hash64_eq_of_safeNumberLongForHash_eq {a b : BSONElement} (ha : a.isNumber = true)
    (hb : b.isNumber = true) (h : a.safeNumberLongForHash = b.safeNumberLongForHash)
    (seed : Int) : hash64 a seed = hash64 b seed := by
  simp only [hash64, recursiveHash, canonicalType_of_isNumber ha, canonicalType_of_isNumber hb,
    ha, hb, if_true, h]

/-- Numbers that `woCompare` calls equal to a number whose value is an int64 hash alike, of
whichever numeric types they are. -/
theorem hash64_eq_of_woCompare_integral {a b : BSONElement} {n : Int}
    (hn : a.numVal? = some (.finite n)) (hlo : longLongMin ≤ n) (hhi : n ≤ longLongMax)
    (h : woCompare a b = 0) (seed : Int) : hash64 a seed = hash64 b seed := by
  obtain ⟨hc, hk⟩ := woCompare_eq_zero h
  have ha : a.isNumber = true := isNumber_of_numVal? hn
  have hb : b.isNumber = true :=
    isNumber_of_canonicalType (hc ▸ canonicalType_of_isNumber ha)
  have hbn : b.numVal? = some (.finite n) := numVal?_eq_of_key_eq ha hb hk ▸ hn
  apply hash64_eq_of_safeNumberLongForHash_eq ha hb
  rw [safeNumberLongForHash_of_numVal? hn hlo hhi, safeNumberLongForHash_of_numVal? hbn hlo hhi]

/-! ## Where it does not -/

/-- A double and a decimal of one non-negative value in range squash to one int64 exactly
when the fraction is below one half, or is one half above an even integer: the cast takes the
integer below, the rounding the nearest one. -/
theorem safeNumberLongForHash_double_eq_decimal_iff {q : ℚ} (h0 : 0 ≤ q)
    (hq : q ≤ longLongMax) :
    (numberDouble (.finite q)).safeNumberLongForHash =
        (numberDecimal (.finite q)).safeNumberLongForHash ↔
      Int.fract q < 1 / 2 ∨ (Int.fract q = 1 / 2 ∧ ⌊q⌋ % 2 = 0) := by
  have hlo : (longLongMin : ℚ) ≤ q := le_trans (by norm_num [longLongMin]) h0
  have hhi : q < kLongLongMaxPlusOneAsDouble := by
    refine lt_of_le_of_lt hq ?_
    norm_num [longLongMax, kLongLongMaxPlusOneAsDouble]
  rw [safeNumberLongForHash_double hlo hhi, safeNumberLongForHash_decimal hlo hq, truncate,
    if_pos h0, roundTiesToEven]
  -- the three ways the rounding goes
  split_ifs with hlt hgt hev
  · exact iff_of_true rfl (.inl hlt)
  · exact iff_of_false (by omega) (fun h => h.elim hlt fun h' => hgt.ne' h'.1)
  · have hhalf : Int.fract q = 1 / 2 := le_antisymm (not_lt.mp hgt) (not_lt.mp hlt)
    exact iff_of_true rfl (.inr ⟨hhalf, hev⟩)
  · exact iff_of_false (by omega) (fun h => h.elim hlt fun h' => hev h'.2)

/-- A double and a decimal of value 1.5 compare equal, yet the cast takes the double to 1 and
the rounding the decimal to 2, and under the default seed the two hashes differ. Equal numbers
of an integral value in range do hash alike, and a non-negative double and decimal of one value
squash alike exactly when the fraction is below one half or one half above an even integer. -/
theorem hash64_double_decimal_differ :
    (woCompare (numberDouble (.finite (3 / 2))) (numberDecimal (.finite (3 / 2))) = 0 ∧
      (numberDouble (.finite (3 / 2))).safeNumberLongForHash = 1 ∧
      (numberDecimal (.finite (3 / 2))).safeNumberLongForHash = 2 ∧
      hash64 (numberDouble (.finite (3 / 2))) 0 ≠ hash64 (numberDecimal (.finite (3 / 2))) 0) ∧
    (∀ (a b : BSONElement) (n : Int), a.numVal? = some (.finite n) → longLongMin ≤ n →
      n ≤ longLongMax → woCompare a b = 0 → ∀ seed, hash64 a seed = hash64 b seed) ∧
    ∀ q : ℚ, 0 ≤ q → q ≤ longLongMax →
      ((numberDouble (.finite q)).safeNumberLongForHash =
          (numberDecimal (.finite q)).safeNumberLongForHash ↔
        Int.fract q < 1 / 2 ∨ (Int.fract q = 1 / 2 ∧ ⌊q⌋ % 2 = 0)) := by
  refine ⟨⟨by decide +kernel, by decide +kernel, by decide +kernel, ?_⟩,
    fun _ _ _ hn hlo hhi h => hash64_eq_of_woCompare_integral hn hlo hhi h,
    fun _ h0 hq => safeNumberLongForHash_double_eq_decimal_iff h0 hq⟩
  decide +kernel

end mongo
