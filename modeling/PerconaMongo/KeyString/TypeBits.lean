-- `KeyString::TypeBits` (key_string.h, key_string.cpp): the bits that tell which BSON type a
-- number or a string of a KeyString had, kept apart from the key so as not to change its order.
-- The bits are packed from the low bit up into data bytes that follow a five byte prefix, where
-- `setRawSize` writes the size of the data. The serialized form has four cases: one zero byte
-- when no bit is one, the data byte alone when it is the only one and below 0x80, one size byte
-- 0x80 | n before up to 127 data bytes, and 0x80 with a four byte little-endian size before
-- more. `resetFromBuffer` reads each case back, and the `Reader` reads the bits from the low end.
-- The bit counter and the size are `uint32_t`; the round trip below keeps them in range.
import PerconaMongo.KeyString.RecordId
import PerconaMongo.Bson.Hasher
import Mathlib.Data.List.GetD
import Mathlib.Data.Nat.Bitwise

namespace mongo.KeyString

/-- `KeyString::Version`. -/
inductive Version
  | V0
  | V1
  deriving DecidableEq, Repr

/-- `TypeBits::kMaxBytesForShortEncoding`. -/
def kMaxBytesForShortEncoding : Nat := 127

/-- `TypeBits::kPrefixBytes`. -/
def kPrefixBytes : Nat := 5

/-- `ConstDataView::read<LittleEndian<uint32_t>>`: the bytes as an unsigned number, low first. -/
def readUInt32LittleEndian (bytes : List UInt8) : Nat :=
  bytes.foldr (fun b acc => b.toNat + 256 * acc) 0

/-- A `TypeBits`: its version, the bit counter, whether no bit is one, and `_buf`, kept as the
`kPrefixBytes` bytes before `getDataBuffer()` and the data bytes after. -/
structure TypeBits where
  version : Version
  curBit : Nat
  isAllZeros : Bool
  prefixBytes : List UInt8
  data : List UInt8
  prefixBytes_length : prefixBytes.length = kPrefixBytes

namespace TypeBits

/-- `reset`: `_buf.setlen(kPrefixBytes)` keeps the prefix and drops the data. -/
def reset (t : TypeBits) : TypeBits :=
  { t with curBit := 0, isAllZeros := true, data := [] }

/-- `TypeBits(version)`. The prefix bytes the constructor leaves unset are taken as zeros; no
reader looks at them before `setRawSize` writes them. -/
def new (version : Version) : TypeBits :=
  reset ⟨version, 0, true, List.replicate kPrefixBytes 0, [], rfl⟩

/-- The prefix after `setRawSize`: the long header over all of it, or the size byte in its last
byte. -/
def sizePrefix (prefixBytes : List UInt8) (size : Nat) : List UInt8 :=
  if size > kMaxBytesForShortEncoding then 0x80 :: littleEndianBytes 4 size
  else prefixBytes.set 4 (UInt8.ofNat (0x80 ||| size))

theorem sizePrefix_length {prefixBytes : List UInt8} (h : prefixBytes.length = kPrefixBytes)
    (size : Nat) : (sizePrefix prefixBytes size).length = kPrefixBytes := by
  unfold sizePrefix
  split
  · simp [kPrefixBytes]
  · simpa using h

/-- `setRawSize`: the data grown to `size` bytes, and the size written in the prefix. The bytes
`grow` adds are taken as zeros; each caller writes them next. -/
def setRawSize (t : TypeBits) (size : Nat) : TypeBits :=
  { t with
    data := if size > t.data.length then t.data ++ List.replicate (size - t.data.length) 0
      else t.data
    prefixBytes := sizePrefix t.prefixBytes size
    prefixBytes_length := sizePrefix_length t.prefixBytes_length size }

/-- `appendBit`: a new data byte holding the bit when the counter is at a byte boundary, else the
bit or-ed into the last byte. Callers pass 0 or 1 only, as the source asserts. -/
def appendBit (t : TypeBits) (oneOrZero : Bool) : TypeBits :=
  let t := if oneOrZero then { t with isAllZeros := false } else t
  let byte := t.curBit / 8
  let offsetInByte := t.curBit % 8
  let t :=
    if offsetInByte = 0 then
      let t := t.setRawSize (byte + 1)
      { t with data := t.data.set byte (if oneOrZero then 1 else 0) }
    else
      let bit : UInt8 := if oneOrZero then 1 else 0
      { t with data := t.data.set byte (t.data.getD byte 0 ||| (bit <<< UInt8.ofNat offsetInByte)) }
  { t with curBit := t.curBit + 1 }

/-- Bits appended one after another. -/
def appendBits (t : TypeBits) (bits : List Bool) : TypeBits := bits.foldl appendBit t

/-- The bits `bitPos = width - 1` down to 0 of `x`, as the loops of the appenders take them. -/
def highBitsFirst (x width : Nat) : List Bool := (List.range width).reverse.map x.testBit

/-- `kString`, `kSymbol`: the type bit of a string-like value. -/
def kString : Nat := 0
def kSymbol : Nat := 1

/-- The two type bits of a number. -/
def kInt : Nat := 0
def kLong : Nat := 1
def kDouble : Nat := 2
def kDecimal : Nat := 3

/-- The zero types: a negative double zero, two bits in V0 and five in V1, and the decimal zeros
whose five bits start `11010` to `11111`. -/
def kNegativeDoubleZero : Nat := 3
def kV0NegativeDoubleZero : Nat := 3
def kV1NegativeDoubleZero : Nat := 0x18
def kDecimalZero0xxx : Nat := 0x1a
def kDecimalZero5xxx : Nat := 0x1f

/-- `kStoredDecimalExponentBits`. -/
def kStoredDecimalExponentBits : Nat := 6

def appendString (t : TypeBits) : TypeBits := t.appendBit (kString == 1)

def appendSymbol (t : TypeBits) : TypeBits := t.appendBit (kSymbol == 1)

/-- The appenders of a number type: its high bit, then its low bit. -/
def appendNumber (t : TypeBits) (numberType : Nat) : TypeBits :=
  (t.appendBit (numberType >>> 1 == 1)).appendBit (numberType &&& 1 == 1)

def appendNumberDouble (t : TypeBits) : TypeBits := t.appendNumber kDouble

def appendNumberInt (t : TypeBits) : TypeBits := t.appendNumber kInt

def appendNumberLong (t : TypeBits) : TypeBits := t.appendNumber kLong

def appendNumberDecimal (t : TypeBits) : TypeBits := t.appendNumber kDecimal

/-- `appendZero`: two bits for an int, a long or a double zero, and for a negative double zero
in V0; five for a decimal zero, and for a negative double zero in V1, which falls through to the
decimal case. Any other type is `MONGO_UNREACHABLE`. -/
def appendZero (t : TypeBits) (zeroType : Nat) : Option TypeBits :=
  if zeroType = kInt ∨ zeroType = kDouble ∨ zeroType = kLong then
    some ((t.appendBit (zeroType >>> 1 == 1)).appendBit (zeroType &&& 1 == 1))
  else if zeroType = kNegativeDoubleZero then
    if t.version = .V0 then
      some ((t.appendBit (kV0NegativeDoubleZero >>> 1 == 1)).appendBit
        (kV0NegativeDoubleZero &&& 1 == 1))
    else some (t.appendBits (highBitsFirst kV1NegativeDoubleZero 5))
  else if kDecimalZero0xxx ≤ zeroType ∧ zeroType ≤ kDecimalZero5xxx then
    some (t.appendBits (highBitsFirst zeroType 5))
  else none

/-- `appendDecimalZero`: the zero type of the top bits, then the twelve bits below. -/
def appendDecimalZero (t : TypeBits) (whichZero : Nat) : Option TypeBits :=
  if whichZero >>> 12 ≤ kDecimalZero5xxx - kDecimalZero0xxx then
    (t.appendZero ((whichZero >>> 12) + kDecimalZero0xxx)).map (·.appendBits (highBitsFirst whichZero 12))
  else none

/-- `appendDecimalExponent`. -/
def appendDecimalExponent (t : TypeBits) (storedExponentBits : Nat) : Option TypeBits :=
  if storedExponentBits < 2 ^ kStoredDecimalExponentBits then
    some (t.appendBits (highBitsFirst storedExponentBits kStoredDecimalExponentBits))
  else none

/-- `isLongEncoding`. -/
def isLongEncoding (t : TypeBits) : Bool :=
  !t.isAllZeros && t.data.length > kMaxBytesForShortEncoding

/-- `getSize`: the four cases of the serialized form. -/
def getSize (t : TypeBits) : Nat :=
  if t.isAllZeros then 1
  else
    let rawSize := t.data.length
    if rawSize > kMaxBytesForShortEncoding then rawSize + kPrefixBytes
    else if rawSize = 1 ∧ t.data.getD 0 0 &&& 0x80 = 0 then 1
    else rawSize + 1

/-- `getBuffer`: the bytes from the pointer it returns to the end of `_buf`; for all zeros, the
empty C string, a zero byte. -/
def getBuffer (t : TypeBits) : List UInt8 :=
  if t.isAllZeros then [0]
  else if t.getSize = 1 then t.data
  else if t.isLongEncoding then t.prefixBytes ++ t.data
  else t.prefixBytes.drop 4 ++ t.data

/-- The `getSize()` bytes at `getBuffer()`, as a builder appends them to a key. -/
def serialize (t : TypeBits) : List UInt8 := t.getBuffer.take t.getSize

end TypeBits

/-- `TypeBits::readSizeFromBuffer`: the number of data bytes, and the bytes after the size. In the
second case the first byte is the data byte, and is not skipped. -/
def readSizeFromBuffer : List UInt8 → Except KeyStringError (Nat × List UInt8)
  | [] => throw .bufferOverrun
  | firstByte :: rest =>
    if 0 < firstByte ∧ firstByte < 0x80 then pure (1, firstByte :: rest)
    else if firstByte > 0x80 then pure ((firstByte &&& 0x7f).toNat, rest)
    else if firstByte = 0x80 then
      if rest.length < 4 then throw .bufferOverrun
      else
        let s := readUInt32LittleEndian (rest.take 4)
        if s > kMaxBytesForShortEncoding then pure (s, rest.drop 4)
        else throw (.keyStringAssertion 50910 "Invalid overlong encoding.")
    else pure (0, rest)

namespace TypeBits

/-- `resetFromBuffer`: the TypeBits the bytes encode, and the bytes after them. An empty buffer
is all zeros. -/
def resetFromBuffer (t : TypeBits) (buf : List UInt8) :
    Except KeyStringError (TypeBits × List UInt8) := do
  let t := t.reset
  if buf.isEmpty then return (t, buf)
  let (size, buf) ← readSizeFromBuffer buf
  let t := if size > 0 then { t with isAllZeros := false } else t
  let t := t.setRawSize size
  -- `reader->skip(size)` past the end throws before the copy
  if buf.length < size then throw .bufferOverrun
  pure ({ t with data := buf.take size }, buf.drop size)

/-- `TypeBits::fromBuffer`. -/
def fromBuffer (version : Version) (buf : List UInt8) :
    Except KeyStringError (TypeBits × List UInt8) :=
  (new version).resetFromBuffer buf

/-! ## The reader -/

/-- `Reader::readBit`: the bit at the reader's counter, which moves on unless all bits are zero. -/
def readBit (t : TypeBits) (curBit : Nat) : Except KeyStringError (UInt8 × Nat) :=
  if t.isAllZeros then pure (0, curBit)
  else
    let byte := curBit / 8
    let offsetInByte := curBit % 8
    if byte < t.data.length then
      pure (if t.data.getD byte 0 &&& (1 <<< UInt8.ofNat offsetInByte) ≠ 0 then 1 else 0,
        curBit + 1)
    else throw (.keyStringAssertion 50615 "Invalid size byte(s).")

/-- `n` bits read one after another from the counter `curBit`. -/
def readBits (t : TypeBits) : Nat → Nat → Except KeyStringError (List UInt8)
  | 0, _ => pure []
  | n + 1, curBit => do
    let (b, curBit) ← t.readBit curBit
    let bs ← t.readBits n curBit
    pure (b :: bs)

end TypeBits

/-! ## Bits in bytes -/

/-- The bit at position `i` of data bytes packed from the low bit up; none past the end. -/
def bitAt (data : List UInt8) (i : Nat) : Bool := (data.getD (i / 8) 0).toNat.testBit (i % 8)

theorem bitAt_nil (i : Nat) : bitAt [] i = false := by
  simp [bitAt]

/-- A byte appended after `data.length` bytes holds the next eight positions. -/
theorem bitAt_concat (data : List UInt8) (x : UInt8) (i : Nat) :
    bitAt (data ++ [x]) i =
      if i / 8 = data.length then x.toNat.testBit (i % 8) else bitAt data i := by
  unfold bitAt
  rcases lt_trichotomy (i / 8) data.length with h | h | h
  · rw [List.getD_append _ _ _ _ h, if_neg h.ne]
  · rw [List.getD_append_right _ _ _ _ h.ge, if_pos h, h, Nat.sub_self]
    rfl
  · rw [List.getD_append_right _ _ _ _ h.le, if_neg h.ne',
      List.getD_eq_default _ _ (by simp only [List.length_singleton]; omega),
      List.getD_eq_default _ _ h.le]

/-- A byte written in place holds its eight positions. -/
theorem bitAt_set (data : List UInt8) {j : Nat} (hj : j < data.length) (x : UInt8) (i : Nat) :
    bitAt (data.set j x) i = if i / 8 = j then x.toNat.testBit (i % 8) else bitAt data i := by
  unfold bitAt
  simp only [List.getD_eq_getElem?_getD, List.getElem?_set]
  by_cases h : i / 8 = j
  · rw [if_pos h.symm, if_pos hj, if_pos h]
    rfl
  · rw [if_neg (Ne.symm h), if_neg h]

/-- The byte `appendBit` writes at a byte boundary holds the bit at its lowest position. -/
theorem testBit_ofBool (b : Bool) (j : Nat) :
    ((if b then 1 else 0 : UInt8)).toNat.testBit j = (b && j == 0) := by
  cases b with
  | false => simp
  | true =>
    apply Bool.eq_iff_iff.mpr
    simpa using Nat.testBit_one_eq_true_iff_self_eq_zero

/-- Or-ing a bit in at `offset` sets that position and keeps the others. -/
theorem testBit_or_shiftLeft (x : UInt8) (b : Bool) {offset j : Nat} (hoff : offset < 8)
    (hj : j < 8) :
    (x ||| ((if b then 1 else 0 : UInt8) <<< UInt8.ofNat offset)).toNat.testBit j =
      (x.toNat.testBit j || (b && j == offset)) := by
  rw [UInt8.toNat_or, Nat.testBit_or, UInt8.toNat_shiftLeft, UInt8.toNat_ofNat',
    Nat.mod_eq_of_lt (show offset < 2 ^ 8 by omega), Nat.mod_eq_of_lt hoff, Nat.testBit_mod_two_pow,
    Nat.testBit_shiftLeft]
  congr 1
  rw [decide_eq_true hj, Bool.true_and]
  cases b with
  | false => simp
  | true =>
    apply Bool.eq_iff_iff.mpr
    simp only [if_true, UInt8.toNat_one, ge_iff_le, Bool.and_eq_true, decide_eq_true_eq,
      Nat.testBit_one_eq_true_iff_self_eq_zero, Bool.true_and, beq_iff_eq]
    omega

theorem getD_concat_false (bits : List Bool) (b : Bool) (i : Nat) :
    (bits ++ [b]).getD i false = if i = bits.length then b else bits.getD i false := by
  rcases lt_trichotomy i bits.length with h | rfl | h
  · rw [List.getD_append _ _ _ _ h, if_neg h.ne]
  · simp
  · rw [if_neg h.ne', List.getD_eq_default _ _ (by simp; omega), List.getD_eq_default _ _ h.le]

/-! ## What appending keeps -/

/-- The size that a prefix holds for `n` data bytes: the long header, or the size byte last. -/
def SizeWritten (prefixBytes : List UInt8) (n : Nat) : Prop :=
  if n > kMaxBytesForShortEncoding then prefixBytes = 0x80 :: littleEndianBytes 4 n
  else prefixBytes.getD 4 0 = UInt8.ofNat (0x80 ||| n)

theorem sizeWritten_sizePrefix {p : List UInt8} (hp : p.length = kPrefixBytes) (n : Nat) :
    SizeWritten (TypeBits.sizePrefix p n) n := by
  unfold SizeWritten TypeBits.sizePrefix
  split
  · rfl
  · simp [List.getD_eq_getElem?_getD, hp, kPrefixBytes]

/-- A TypeBits that holds `bits`: its counter at their end, all zeros when none is set, one data
byte for each eight of them with every position read as the bit there or as zero past the end,
and the size of the data in the prefix. -/
structure Holds (t : TypeBits) (bits : List Bool) : Prop where
  curBit_eq : t.curBit = bits.length
  isAllZeros_eq : t.isAllZeros = !bits.any id
  data_length : t.data.length = (bits.length + 7) / 8
  bitAt_eq : ∀ i, bitAt t.data i = bits.getD i false
  sizeWritten : 0 < t.data.length → SizeWritten t.prefixBytes t.data.length

theorem holds_reset (t : TypeBits) : Holds t.reset [] where
  curBit_eq := rfl
  isAllZeros_eq := rfl
  data_length := rfl
  bitAt_eq i := by simp [TypeBits.reset, bitAt_nil]
  sizeWritten h := absurd h (by simp [TypeBits.reset])

namespace TypeBits

variable {t : TypeBits} {b : Bool}

@[simp]
theorem appendBit_curBit : (t.appendBit b).curBit = t.curBit + 1 := by
  unfold appendBit setRawSize
  cases b <;> by_cases h : t.curBit % 8 = 0 <;> simp [h]

@[simp]
theorem appendBit_isAllZeros : (t.appendBit b).isAllZeros = (t.isAllZeros && !b) := by
  unfold appendBit setRawSize
  cases b <;> by_cases h : t.curBit % 8 = 0 <;> simp [h]

/-- At a byte boundary `appendBit` adds a byte holding the bit, and writes the new size. -/
theorem appendBit_of_boundary (h : t.curBit % 8 = 0) (hl : t.data.length = t.curBit / 8) :
    (t.appendBit b).data = t.data ++ [if b then 1 else 0] ∧
      (t.appendBit b).prefixBytes = sizePrefix t.prefixBytes (t.curBit / 8 + 1) := by
  unfold appendBit
  cases b <;> simp [h, setRawSize, hl]

/-- Within a byte `appendBit` ors the bit into it, and leaves the prefix. -/
theorem appendBit_of_within (h : t.curBit % 8 ≠ 0) :
    (t.appendBit b).data = t.data.set (t.curBit / 8) (t.data.getD (t.curBit / 8) 0 |||
      ((if b then 1 else 0) <<< UInt8.ofNat (t.curBit % 8))) ∧
      (t.appendBit b).prefixBytes = t.prefixBytes := by
  unfold appendBit
  cases b <;> simp [h]

end TypeBits

/-- `appendBit` keeps what a TypeBits holds, with the bit added at the end. -/
theorem Holds.appendBit {t : TypeBits} {bits : List Bool} (h : Holds t bits) (b : Bool) :
    Holds (t.appendBit b) (bits ++ [b]) := by
  have hn := h.curBit_eq
  have hpast : bits.getD bits.length false = false := List.getD_eq_default _ _ le_rfl
  by_cases hoff : t.curBit % 8 = 0
  · -- a new data byte, and the new size in the prefix
    have hl : t.data.length = t.curBit / 8 := by rw [h.data_length, hn]; omega
    obtain ⟨hdata, hpfx⟩ := TypeBits.appendBit_of_boundary hoff hl (b := b)
    refine ⟨by simp [hn], by simp [h.isAllZeros_eq], ?_, fun i => ?_, fun _ => ?_⟩
    · rw [hdata]
      simp only [List.length_append, List.length_singleton, hl, hn]
      omega
    · rw [hdata, bitAt_concat, testBit_ofBool, getD_concat_false, h.bitAt_eq, hl]
      by_cases hi : i = bits.length
      · simp [hi, ← hn, hoff]
      · rw [if_neg hi]
        by_cases hq : i / 8 = t.curBit / 8
        · -- past the last bit, in the new byte
          rw [if_pos hq, List.getD_eq_default _ _ (by omega)]
          simp only [Bool.and_eq_false_imp, beq_eq_false_iff_ne]
          intro _
          omega
        · rw [if_neg hq]
    · rw [hpfx, hdata, List.length_append, hl, List.length_singleton]
      exact sizeWritten_sizePrefix t.prefixBytes_length _
  · -- the bit or-ed into the last data byte
    have hl : t.curBit / 8 < t.data.length := by rw [h.data_length, hn]; omega
    obtain ⟨hdata, hpfx⟩ := TypeBits.appendBit_of_within hoff (b := b)
    refine ⟨by simp [hn], by simp [h.isAllZeros_eq], ?_, fun i => ?_, fun hpos => ?_⟩
    · rw [hdata, List.length_set, h.data_length]
      simp only [List.length_append, List.length_singleton]
      omega
    · rw [hdata, bitAt_set _ hl, getD_concat_false]
      by_cases hq : i / 8 = t.curBit / 8
      · rw [if_pos hq, testBit_or_shiftLeft _ _ (Nat.mod_lt _ (by decide)) (Nat.mod_lt _ (by decide))]
        have hold := h.bitAt_eq i
        unfold bitAt at hold
        rw [hq] at hold
        rw [hold]
        by_cases hi : i = bits.length
        · simp [hi, ← hn]
        · -- another position of the byte keeps its bit
          have hmod : ¬ i % 8 = t.curBit % 8 := fun hm => hi (by omega)
          simp [hi, hmod]
      · rw [if_neg hq, if_neg (fun hi => hq (by rw [hi, hn])), h.bitAt_eq]
    · rw [hpfx, hdata, List.length_set]
      rw [hdata, List.length_set] at hpos
      exact h.sizeWritten hpos

/-- A run of `appendBit` keeps what a TypeBits holds. -/
theorem Holds.appendBits {t : TypeBits} {bits : List Bool} (h : Holds t bits) (bs : List Bool) :
    Holds (t.appendBits bs) (bits ++ bs) := by
  induction bs generalizing t bits with
  | nil => simpa [TypeBits.appendBits] using h
  | cons b bs ih =>
    have := ih (h.appendBit b)
    simpa [TypeBits.appendBits] using this

/-! ## Every appender appends bits -/

namespace TypeBits

theorem appendBits_append (t : TypeBits) (bs cs : List Bool) :
    t.appendBits (bs ++ cs) = (t.appendBits bs).appendBits cs :=
  List.foldl_append

theorem appendNumber_eq_appendBits (t : TypeBits) (numberType : Nat) :
    t.appendNumber numberType = t.appendBits [numberType >>> 1 == 1, numberType &&& 1 == 1] := rfl

theorem appendZero_eq_appendBits {t t' : TypeBits} {zeroType : Nat}
    (h : t.appendZero zeroType = some t') : ∃ bs, t' = t.appendBits bs := by
  unfold appendZero at h
  split_ifs at h
  · exact ⟨[zeroType >>> 1 == 1, zeroType &&& 1 == 1], (Option.some.inj h).symm⟩
  · exact ⟨[kV0NegativeDoubleZero >>> 1 == 1, kV0NegativeDoubleZero &&& 1 == 1],
      (Option.some.inj h).symm⟩
  · exact ⟨_, (Option.some.inj h).symm⟩
  · exact ⟨_, (Option.some.inj h).symm⟩

theorem appendDecimalZero_eq_appendBits {t t' : TypeBits} {whichZero : Nat}
    (h : t.appendDecimalZero whichZero = some t') : ∃ bs, t' = t.appendBits bs := by
  unfold appendDecimalZero at h
  split_ifs at h
  obtain ⟨u, hu, rfl⟩ := Option.map_eq_some_iff.mp h
  obtain ⟨bs, rfl⟩ := appendZero_eq_appendBits hu
  exact ⟨bs ++ highBitsFirst whichZero 12, (appendBits_append _ _ _).symm⟩

theorem appendDecimalExponent_eq_appendBits {t t' : TypeBits} {storedExponentBits : Nat}
    (h : t.appendDecimalExponent storedExponentBits = some t') : ∃ bs, t' = t.appendBits bs := by
  unfold appendDecimalExponent at h
  split_ifs at h
  cases h
  exact ⟨_, rfl⟩

end TypeBits

/-- The TypeBits a builder reaches from `t` through the appenders, one after another. -/
inductive Appended (t : TypeBits) : TypeBits → Prop
  | refl : Appended t t
  | string {u} : Appended t u → Appended t u.appendString
  | symbol {u} : Appended t u → Appended t u.appendSymbol
  | number {u} (numberType : Nat) : Appended t u → Appended t (u.appendNumber numberType)
  | zero {u u'} (zeroType : Nat) : Appended t u → u.appendZero zeroType = some u' → Appended t u'
  | decimalZero {u u'} (whichZero : Nat) : Appended t u → u.appendDecimalZero whichZero = some u' →
      Appended t u'
  | decimalExponent {u u'} (bits : Nat) : Appended t u → u.appendDecimalExponent bits = some u' →
      Appended t u'

/-- What the appenders reach is the TypeBits with some bits appended. -/
theorem Appended.eq_appendBits {t u : TypeBits} (h : Appended t u) : ∃ bs, u = t.appendBits bs := by
  induction h with
  | refl => exact ⟨[], rfl⟩
  | string _ ih =>
    obtain ⟨bs, rfl⟩ := ih
    exact ⟨bs ++ [TypeBits.kString == 1], by rw [TypeBits.appendBits_append]; rfl⟩
  | symbol _ ih =>
    obtain ⟨bs, rfl⟩ := ih
    exact ⟨bs ++ [TypeBits.kSymbol == 1], by rw [TypeBits.appendBits_append]; rfl⟩
  | number numberType _ ih =>
    obtain ⟨bs, rfl⟩ := ih
    exact ⟨bs ++ _, by rw [TypeBits.appendNumber_eq_appendBits, ← TypeBits.appendBits_append]⟩
  | zero _ _ hz ih | decimalZero _ _ hz ih | decimalExponent _ _ hz ih =>
    obtain ⟨bs, rfl⟩ := ih
    first
      | obtain ⟨cs, rfl⟩ := TypeBits.appendZero_eq_appendBits hz
      | obtain ⟨cs, rfl⟩ := TypeBits.appendDecimalZero_eq_appendBits hz
      | obtain ⟨cs, rfl⟩ := TypeBits.appendDecimalExponent_eq_appendBits hz
    exact ⟨bs ++ cs, (TypeBits.appendBits_append _ _ _).symm⟩

/-! ## The serialized form -/

/-- The four byte size of the long form reads back. -/
theorem readUInt32LittleEndian_littleEndianBytes {n : Nat} (h : n < 2 ^ 32) :
    readUInt32LittleEndian (littleEndianBytes 4 n) = n := by
  have hval := foldr_littleEndianBytes 4 n
  rw [← natCast_foldr_bytes] at hval
  unfold readUInt32LittleEndian
  omega

/-- The size byte of the short form, for 1 to 127 data bytes. -/
theorem sizeByte_toNat {n : Nat} (h : n ≤ kMaxBytesForShortEncoding) :
    (UInt8.ofNat (0x80 ||| n)).toNat = 128 + n := by
  unfold kMaxBytesForShortEncoding at h
  have hor : 0x80 ||| n = 2 ^ 7 * 1 + n := by
    rw [Nat.or_comm, Nat.two_pow_add_eq_or_of_lt (by omega), Nat.or_comm]
  rw [UInt8.toNat_ofNat', hor]
  exact Nat.mod_eq_of_lt (by omega)

theorem readSizeFromBuffer_long {n : Nat} (h : kMaxBytesForShortEncoding < n) (h32 : n < 2 ^ 32)
    (rest : List UInt8) :
    readSizeFromBuffer (0x80 :: littleEndianBytes 4 n ++ rest) = pure (n, rest) := by
  have hlen := length_littleEndianBytes 4 n
  simp [readSizeFromBuffer, hlen, List.take_left' hlen, List.drop_left' hlen,
    readUInt32LittleEndian_littleEndianBytes h32, h]

theorem readSizeFromBuffer_single {d : UInt8} (h0 : 0 < d.toNat) (h : d.toNat < 0x80)
    (rest : List UInt8) : readSizeFromBuffer (d :: rest) = pure (1, d :: rest) := by
  have hd : 0 < d ∧ d < 0x80 := ⟨UInt8.lt_iff_toNat_lt.mpr h0, UInt8.lt_iff_toNat_lt.mpr h⟩
  simp [readSizeFromBuffer, hd]

theorem readSizeFromBuffer_short {n : Nat} (h1 : 0 < n) (h : n ≤ kMaxBytesForShortEncoding)
    (rest : List UInt8) : readSizeFromBuffer (UInt8.ofNat (0x80 ||| n) :: rest) = pure (n, rest) := by
  have hb := sizeByte_toNat h
  have hlow : ¬ (0 < UInt8.ofNat (0x80 ||| n) ∧ UInt8.ofNat (0x80 ||| n) < 0x80) := by
    rintro ⟨-, hlt⟩
    rw [UInt8.lt_iff_toNat_lt, hb] at hlt
    simp only [UInt8.reduceToNat] at hlt
    omega
  have hhigh : UInt8.ofNat (0x80 ||| n) > 0x80 := by
    rw [gt_iff_lt, UInt8.lt_iff_toNat_lt, hb]
    simp only [UInt8.reduceToNat]
    omega
  have hsize : (UInt8.ofNat (0x80 ||| n) &&& 0x7f).toNat = n := by
    rw [UInt8.toNat_and, hb, show (0x7f : UInt8).toNat = 2 ^ 7 - 1 from rfl,
      Nat.and_two_pow_sub_one_eq_mod]
    unfold kMaxBytesForShortEncoding at h
    omega
  simp only [readSizeFromBuffer, hlow, if_false, hhigh, if_true, hsize]

theorem readSizeFromBuffer_zero (rest : List UInt8) :
    readSizeFromBuffer (0 :: rest) = pure (0, rest) := by
  simp [readSizeFromBuffer]

namespace TypeBits

/-- `resetFromBuffer` on a size it reads and the data after it: the data copied, and the size in
the prefix. -/
theorem resetFromBuffer_of_readSize (t₀ : TypeBits) {buf rest : List UInt8} {size : Nat}
    (hne : buf ≠ []) (hsize : readSizeFromBuffer buf = pure (size, rest))
    (hlen : size ≤ rest.length) :
    ∃ t', t₀.resetFromBuffer buf = pure (t', rest.drop size) ∧ t'.isAllZeros = decide (size = 0) ∧
      t'.data = rest.take size ∧ SizeWritten t'.prefixBytes size := by
  refine ⟨{ ((if size > 0 then { t₀.reset with isAllZeros := false } else t₀.reset).setRawSize
    size) with data := rest.take size }, ?_, ?_, rfl, sizeWritten_sizePrefix (prefixBytes_length _) size⟩
  · simp [resetFromBuffer, hne, hsize, pure_bind, Nat.not_lt.mpr hlen]
  · by_cases h : size = 0 <;> simp [h, setRawSize, reset, Nat.pos_iff_ne_zero]

end TypeBits

/-- A byte is below 0x80 exactly when its top bit is clear. -/
theorem toNat_lt_0x80_iff (x : UInt8) : x.toNat < 0x80 ↔ x.toNat.testBit 7 = false := by
  have := x.toNat_lt
  rw [Nat.testBit_eq_decide_div_mod_eq, decide_eq_false_iff_not]
  omega

/-- The mask of a bit is non-zero exactly when the bit is set. -/
theorem and_shiftLeft_ne_zero_iff (x : UInt8) {offset : Nat} (h : offset < 8) :
    x &&& (1 <<< UInt8.ofNat offset) ≠ 0 ↔ x.toNat.testBit offset = true := by
  have hmask : (x &&& (1 <<< UInt8.ofNat offset)).toNat = (x.toNat.testBit offset).toNat * 2 ^ offset := by
    rw [UInt8.toNat_and, UInt8.toNat_shiftLeft, UInt8.toNat_ofNat', UInt8.toNat_one,
      Nat.mod_eq_of_lt (show offset < 2 ^ 8 by omega), Nat.mod_eq_of_lt h, Nat.one_shiftLeft,
      Nat.mod_eq_of_lt (Nat.pow_lt_pow_right (by decide) h), Nat.and_two_pow]
  rw [ne_eq, ← UInt8.toNat_inj, hmask, UInt8.toNat_zero]
  cases x.toNat.testBit offset <;> simp

theorem and_0x80_eq_zero_iff (x : UInt8) : x &&& 0x80 = 0 ↔ x.toNat.testBit 7 = false := by
  have := and_shiftLeft_ne_zero_iff x (show 7 < 8 by decide)
  simp only [ne_eq] at this
  rw [show (1 <<< UInt8.ofNat 7 : UInt8) = 0x80 from rfl] at this
  cases h : x.toNat.testBit 7 <;> simp_all

/-- The bytes of the serialized form when a bit is one: the data byte alone when it is the only
one and below 0x80, a size byte before up to 127 of them, and 0x80 and a four byte size before
more. -/
def serializedData (data : List UInt8) : List UInt8 :=
  if data.length > kMaxBytesForShortEncoding then 0x80 :: littleEndianBytes 4 data.length ++ data
  else if data.length = 1 ∧ data.getD 0 0 &&& 0x80 = 0 then data
  else UInt8.ofNat (0x80 ||| data.length) :: data

theorem drop_four_of_length {p : List UInt8} (hp : p.length = kPrefixBytes) :
    p.drop 4 = [p.getD 4 0] := by
  unfold kPrefixBytes at hp
  rw [List.drop_eq_getElem_cons (by omega), List.drop_eq_nil_of_le (by omega),
    List.getD_eq_getElem _ _ (by omega)]

namespace TypeBits

theorem serialize_of_isAllZeros {t : TypeBits} (h : t.isAllZeros = true) : t.serialize = [0] := by
  simp [serialize, getBuffer, getSize, h]

/-- A TypeBits with a one bit serializes as its data in the four-case form, once its prefix
holds the size. -/
theorem serialize_of_sizeWritten {t : TypeBits} (hz : t.isAllZeros = false)
    (hpos : 0 < t.data.length) (hw : SizeWritten t.prefixBytes t.data.length) :
    t.serialize = serializedData t.data := by
  unfold SizeWritten at hw
  unfold serialize serializedData
  by_cases hlong : t.data.length > kMaxBytesForShortEncoding
  · -- the long form: the whole buffer
    rw [if_pos hlong] at hw
    have hsize : t.getSize = t.data.length + kPrefixBytes := by
      unfold getSize
      dsimp only
      rw [if_neg (by simp [hz]), if_pos hlong]
    have hbuf : t.getBuffer = t.prefixBytes ++ t.data := by
      unfold getBuffer
      rw [if_neg (by simp [hz]), if_neg (by rw [hsize]; unfold kPrefixBytes; omega),
        if_pos (by simp [isLongEncoding, hz, hlong])]
    rw [hsize, hbuf, hw, if_pos hlong, List.take_of_length_le (by simp [kPrefixBytes]; omega)]
  · rw [if_neg hlong] at hw
    by_cases hone : t.data.length = 1 ∧ t.data.getD 0 0 &&& 0x80 = 0
    · -- the data byte alone
      have hsize : t.getSize = 1 := by
        unfold getSize
        dsimp only
        rw [if_neg (by simp [hz]), if_neg hlong, if_pos hone]
      have hbuf : t.getBuffer = t.data := by
        unfold getBuffer
        rw [if_neg (by simp [hz]), if_pos hsize]
      rw [hsize, hbuf, if_neg hlong, if_pos hone, List.take_of_length_le hone.1.le]
    · -- the size byte and the data
      have hsize : t.getSize = t.data.length + 1 := by
        unfold getSize
        dsimp only
        rw [if_neg (by simp [hz]), if_neg hlong, if_neg hone]
      have hbuf : t.getBuffer = t.prefixBytes.drop 4 ++ t.data := by
        unfold getBuffer
        rw [if_neg (by simp [hz]), if_neg (by rw [hsize]; omega),
          if_neg (by simp [isLongEncoding, hlong])]
      rw [hsize, hbuf, drop_four_of_length t.prefixBytes_length, hw, if_neg hlong, if_neg hone,
        List.singleton_append, List.take_of_length_le (by simp)]

end TypeBits

namespace TypeBits

/-- `resetFromBuffer` reads the four-case form back: the data, and its size in the prefix. -/
theorem resetFromBuffer_serializedData (t₀ : TypeBits) {data : List UInt8} (hpos : 0 < data.length)
    (h32 : data.length < 2 ^ 32) (hnz : data.length = 1 → data.getD 0 0 ≠ 0) (rest : List UInt8) :
    ∃ t', t₀.resetFromBuffer (serializedData data ++ rest) = pure (t', rest) ∧
      t'.isAllZeros = false ∧ t'.data = data ∧ SizeWritten t'.prefixBytes data.length := by
  -- each case reads the size, and then the data after it
  have finish : ∀ {buf : List UInt8}, buf ≠ [] →
      readSizeFromBuffer buf = pure (data.length, data ++ rest) →
      ∃ t', t₀.resetFromBuffer buf = pure (t', rest) ∧
        t'.isAllZeros = false ∧ t'.data = data ∧ SizeWritten t'.prefixBytes data.length := by
    intro buf hne hsize
    obtain ⟨t', h, hz, hd, hw⟩ := t₀.resetFromBuffer_of_readSize hne hsize (by simp)
    refine ⟨t', by rw [h, List.drop_left], by rw [hz]; exact decide_eq_false (by omega),
      by rw [hd, List.take_left], hw⟩
  unfold serializedData
  split_ifs with hlong hone
  · apply finish (by simp)
    simp only [List.cons_append, List.append_assoc]
    exact readSizeFromBuffer_long hlong h32 _
  · obtain ⟨d, rfl⟩ := List.length_eq_one_iff.mp hone.1
    have hd0 : 0 < d.toNat := by
      have := hnz rfl
      simp only [List.getD_cons_zero, ne_eq] at this
      rw [← UInt8.toNat_inj, UInt8.toNat_zero] at this
      omega
    have hd : d.toNat < 0x80 := (toNat_lt_0x80_iff d).mpr ((and_0x80_eq_zero_iff d).mp hone.2)
    exact finish (by simp) (readSizeFromBuffer_single hd0 hd rest)
  · apply finish (by simp)
    exact readSizeFromBuffer_short hpos (not_lt.mp hlong) _

/-- `resetFromBuffer` reads the zero byte of all zeros. -/
theorem resetFromBuffer_zero (t₀ : TypeBits) (rest : List UInt8) :
    ∃ t', t₀.resetFromBuffer ([0] ++ rest) = pure (t', rest) ∧ t'.isAllZeros = true := by
  obtain ⟨t', h, hz, -, -⟩ := t₀.resetFromBuffer_of_readSize (by simp) (readSizeFromBuffer_zero rest)
    (Nat.zero_le _)
  exact ⟨t', h, by simp [hz]⟩

/-! ## Reading the bits back -/

/-- The reader looks only at whether all bits are zero and, if not, at the data. -/
theorem readBit_congr {t t' : TypeBits} (h : t.isAllZeros = t'.isAllZeros)
    (hd : t.isAllZeros = false → t.data = t'.data) : t.readBit = t'.readBit := by
  funext c
  unfold readBit
  cases hz : t.isAllZeros
  · simp only [← h, hz, hd hz]
  · simp only [← h, hz, if_true]

theorem readBits_congr {t t' : TypeBits} (h : t.isAllZeros = t'.isAllZeros)
    (hd : t.isAllZeros = false → t.data = t'.data) (n c : Nat) : t.readBits n c = t'.readBits n c := by
  induction n generalizing c with
  | zero => rfl
  | succ n ih => simp only [readBits, readBit_congr h hd, ih]

theorem readBits_of_isAllZeros {t : TypeBits} (h : t.isAllZeros = true) (n c : Nat) :
    t.readBits n c = pure (List.replicate n 0) := by
  induction n generalizing c with
  | zero => rfl
  | succ n ih => simp [readBits, readBit, h, ih, List.replicate_succ]

/-- Within the data bytes the reader returns the bits there, one after another. -/
theorem readBits_of_le {t : TypeBits} (hz : t.isAllZeros = false) (n c : Nat)
    (hn : c + n ≤ 8 * t.data.length) :
    t.readBits n c = pure ((List.range n).map fun j => if bitAt t.data (c + j) then 1 else 0) := by
  induction n generalizing c with
  | zero => rfl
  | succ n ih =>
    have hbyte : c / 8 < t.data.length := by omega
    have hbit : t.readBit c = pure (if bitAt t.data c then 1 else 0, c + 1) := by
      unfold readBit bitAt
      rw [if_neg (by simp [hz]), if_pos hbyte]
      simp only [and_shiftLeft_ne_zero_iff _ (Nat.mod_lt c (by decide))]
    simp only [readBits, hbit, pure_bind, ih (c + 1) (by omega), List.range_succ_eq_map,
      List.map_cons, List.map_map, Nat.add_zero]
    congr 3
    funext j
    simp [Nat.add_assoc, Nat.add_comm 1 j]

end TypeBits

/-- The positions of a list of bits and past it, read with a default. -/
theorem range_map_getD (bits : List Bool) (k : Nat) (f : Bool → UInt8) :
    (List.range (bits.length + k)).map (fun j => f (bits.getD j false)) =
      bits.map f ++ List.replicate k (f false) := by
  apply List.ext_getElem (by simp)
  intro j h₁ h₂
  simp only [List.length_map, List.length_range] at h₁
  by_cases hj : j < bits.length
  · rw [List.getElem_append_left (by simpa using hj)]
    simp [List.getElem?_eq_getElem hj]
  · rw [List.getElem_append_right (by simpa using hj)]
    simp [List.getElem?_eq_none (not_lt.mp hj)]

namespace TypeBits

theorem getSize_of_holds {t : TypeBits} {bits : List Bool} (h : Holds t bits) :
    t.getSize =
      if bits.any id then
        (if (bits.length + 7) / 8 > kMaxBytesForShortEncoding then
          (bits.length + 7) / 8 + kPrefixBytes
        else if (bits.length + 7) / 8 = 1 ∧ bits.getD 7 false = false then 1
        else (bits.length + 7) / 8 + 1)
      else 1 := by
  -- the top bit of the first data byte is the eighth bit
  have h7 : (t.data.getD 0 0 &&& 0x80 = 0) ↔ bits.getD 7 false = false := by
    rw [and_0x80_eq_zero_iff, ← h.bitAt_eq 7]
    rfl
  unfold getSize
  rw [h.isAllZeros_eq, ← h.data_length]
  cases bits.any id
  · simp
  · simp only [Bool.not_true, Bool.false_eq_true, if_false, if_true, h7]

/-- The reader of a TypeBits that holds `bits` returns them, then zeros to the end of the last
data byte. -/
theorem readBits_of_holds {t : TypeBits} {bits : List Bool} (h : Holds t bits) (k : Nat)
    (hk : bits.length + k ≤ 8 * ((bits.length + 7) / 8)) :
    t.readBits (bits.length + k) 0 =
      pure (bits.map (fun b => if b then 1 else 0) ++ List.replicate k 0) := by
  have hmap := range_map_getD bits k (fun b => if b then 1 else 0)
  simp only [Bool.false_eq_true, if_false] at hmap
  cases hz : t.isAllZeros
  · rw [readBits_of_le hz _ 0 (by rw [h.data_length]; omega), ← hmap]
    simp [h.bitAt_eq]
  · -- no bit is one
    have hnone : ∀ b ∈ bits, b = false := by
      have := h.isAllZeros_eq
      rw [hz] at this
      simpa using this
    rw [readBits_of_isAllZeros hz, ← hmap]
    congr 1
    apply List.ext_getElem (by simp)
    intro j _ h₂
    simp only [List.getElem_replicate, List.getElem_map, List.getElem_range]
    by_cases hj : j < bits.length
    · simp [List.getElem?_eq_getElem hj, hnone _ (List.getElem_mem hj)]
    · simp [List.getElem?_eq_none (not_lt.mp hj)]

end TypeBits

namespace TypeBits

/-- A TypeBits with a one bit has data, and a first byte that is not zero when it is the only
one. -/
theorem data_of_holds {t : TypeBits} {bits : List Bool} (h : Holds t bits)
    (hz : t.isAllZeros = false) :
    0 < t.data.length ∧ (t.data.length = 1 → t.data.getD 0 0 ≠ 0) := by
  have hany : bits.any id = true := by simpa [h.isAllZeros_eq] using hz
  obtain ⟨i, hi, hbit⟩ : ∃ i, i < bits.length ∧ bits.getD i false = true := by
    obtain ⟨b, hb, hbt⟩ := List.any_eq_true.mp hany
    obtain ⟨i, hi, rfl⟩ := List.getElem_of_mem hb
    exact ⟨i, hi, by simpa [List.getElem?_eq_getElem hi] using hbt⟩
  refine ⟨by rw [h.data_length]; omega, fun h1 hzero => ?_⟩
  -- the one bit is in the first byte, which would then not be zero
  have h8 : i / 8 = 0 := by rw [h.data_length] at h1; omega
  have := h.bitAt_eq i
  rw [hbit, bitAt, h8, hzero] at this
  simp at this

/-- Bits appended to a TypeBits after a reset: `getSize` is one byte when no bit is one or the
only data byte is below 0x80, the data and one byte up to 127 data bytes, and the data and five
bytes above; the reader returns the bits, then zeros to the end of the last data byte; and
`fromBuffer` over the `getSize()` bytes at `getBuffer()` consumes exactly those bytes, giving a
TypeBits that reads and serializes as the first. What the appenders reach after a reset is such
a TypeBits. -/
theorem typeBits_round_trip (t₀ : TypeBits) (version : Version) {bits : List Bool}
    (hbits : bits.length < 2 ^ 32) (rest : List UInt8) :
    ((t₀.reset.appendBits bits).getSize =
      (if bits.any id then
        (if (bits.length + 7) / 8 > kMaxBytesForShortEncoding then
          (bits.length + 7) / 8 + kPrefixBytes
        else if (bits.length + 7) / 8 = 1 ∧ bits.getD 7 false = false then 1
        else (bits.length + 7) / 8 + 1)
      else 1) ∧
    (∀ k, bits.length + k ≤ 8 * ((bits.length + 7) / 8) →
      (t₀.reset.appendBits bits).readBits (bits.length + k) 0 =
        .ok (bits.map (fun b => if b then 1 else 0) ++ List.replicate k 0)) ∧
    ∃ t', fromBuffer version ((t₀.reset.appendBits bits).serialize ++ rest) = .ok (t', rest) ∧
      (∀ n c, t'.readBits n c = (t₀.reset.appendBits bits).readBits n c) ∧
      t'.serialize = (t₀.reset.appendBits bits).serialize) ∧
    ∀ u, Appended t₀.reset u → ∃ bs, u = t₀.reset.appendBits bs := by
  have h : Holds (t₀.reset.appendBits bits) bits := by
    simpa using (holds_reset t₀).appendBits bits
  refine ⟨⟨getSize_of_holds h, readBits_of_holds h, ?_⟩, fun u hu => hu.eq_appendBits⟩
  generalize t₀.reset.appendBits bits = t at h
  cases hz : t.isAllZeros
  · -- a bit is one: the data in the four-case form
    obtain ⟨hpos, hnz⟩ := data_of_holds h hz
    have h32 : t.data.length < 2 ^ 32 := by rw [h.data_length]; omega
    have hs := serialize_of_sizeWritten hz hpos (h.sizeWritten hpos)
    obtain ⟨t', hread, hz', hdata, hw⟩ := resetFromBuffer_serializedData (new version) hpos h32 hnz rest
    refine ⟨t', by rw [hs]; exact hread, fun n c => readBits_congr (by rw [hz, hz'])
      (fun _ => hdata) n c, ?_⟩
    rw [hs, serialize_of_sizeWritten hz' (by rw [hdata]; exact hpos) (by rw [hdata]; exact hw), hdata]
  · -- no bit is one: the zero byte
    obtain ⟨t', hread, hz'⟩ := resetFromBuffer_zero (new version) rest
    refine ⟨t', by rw [serialize_of_isAllZeros hz]; exact hread,
      fun n c => readBits_congr (by rw [hz, hz']) (fun h => absurd h (by simp [hz'])) n c, ?_⟩
    rw [serialize_of_isAllZeros hz, serialize_of_isAllZeros hz']

/-- `getSize` on each side of its cases: one bit in one byte, a first data byte of 0x80, and
127 and 128 data bytes; and one bit read back from its one byte. -/
theorem typeBits_round_trip_sizes :
    [true].length < 2 ^ 32 ∧ (List.replicate 7 false ++ [true]).length < 2 ^ 32 ∧
    (List.replicate 1016 true).length < 2 ^ 32 ∧ (List.replicate 1024 true).length < 2 ^ 32 ∧
    ((new .V1).reset.appendBits [true]).getSize = 1 ∧
    ((new .V1).reset.appendBits (List.replicate 7 false ++ [true])).getSize = 2 ∧
    ((new .V1).reset.appendBits (List.replicate 1016 true)).getSize = 128 ∧
    ((new .V1).reset.appendBits (List.replicate 1024 true)).getSize = 133 ∧
    ∃ t', fromBuffer .V1 (((new .V1).reset.appendBits [true]).serialize ++ []) = .ok (t', []) ∧
      (∀ n c, t'.readBits n c = ((new .V1).reset.appendBits [true]).readBits n c) ∧
      t'.serialize = ((new .V1).reset.appendBits [true]).serialize := by
  have h1 := typeBits_round_trip (new .V1) .V1 (show [true].length < 2 ^ 32 by decide) []
  have hl80 : (List.replicate 7 false ++ [true]).length < 2 ^ 32 := by
    rw [List.length_append, List.length_replicate]
    norm_num
  have hl127 : (List.replicate 1016 true).length < 2 ^ 32 := by
    rw [List.length_replicate]
    norm_num
  have hl128 : (List.replicate 1024 true).length < 2 ^ 32 := by
    rw [List.length_replicate]
    norm_num
  have h80 := typeBits_round_trip (new .V1) .V1 hl80 []
  have h127 := typeBits_round_trip (new .V1) .V1 hl127 []
  have h128 := typeBits_round_trip (new .V1) .V1 hl128 []
  refine ⟨by decide, hl80, hl127, hl128, ?_, ?_, ?_, ?_, h1.1.2.2⟩
  · rw [h1.1.1]
    decide
  · -- the eighth bit is the top bit of the only data byte
    rw [h80.1.1]
    simp only [List.getD_eq_getElem?_getD]
    decide
  · rw [h127.1.1]
    simp only [List.any_replicate, List.length_replicate, kMaxBytesForShortEncoding]
    decide
  · rw [h128.1.1]
    simp only [List.any_replicate, List.length_replicate, kMaxBytesForShortEncoding, kPrefixBytes]
    decide

end TypeBits

end mongo.KeyString
