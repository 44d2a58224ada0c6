-- `BSONColumnBuilder` of bsoncolumnbuilder.cpp for the types it stores as integer deltas, and
-- the reading of the binary it writes: literals, and control bytes each followed by Simple-8b
-- blocks of zigzag deltas against the previous value. The 64-bit deltas are computed modulo
-- 2 ^ 64 and zigzag-encoded, and that encoding sends the one delta INT64_MIN to the all-ones
-- uint64_t, which Simple-8b accepts and stores as the slot of a skip. NumberDouble, with its
-- scaling and rescaling, is not modelled: the elements here are never doubles.
import PerconaMongo.Bson.Simple8b
import PerconaMongo.Bson.Hasher
import PerconaMongo.Lib.BitField

namespace mongo.bsoncolumn

open mongo.simple8b

/-! ## Elements -/

/-- `BSONType`, the type byte of an element. -/
inductive BSONType
  | eoo
  | numberDouble
  | string
  | object
  | array
  | binData
  | undefined
  | jstOID
  | bool
  | date
  | jstNULL
  | regEx
  | dbRef
  | code
  | symbol
  | codeWScope
  | numberInt
  | bsonTimestamp
  | numberLong
  | numberDecimal
  | minKey
  | maxKey
  deriving DecidableEq, Repr

/-- The type byte. -/
def BSONType.toByte : BSONType → UInt8
  | .eoo => 0 | .numberDouble => 1 | .string => 2 | .object => 3 | .array => 4
  | .binData => 5 | .undefined => 6 | .jstOID => 7 | .bool => 8 | .date => 9
  | .jstNULL => 10 | .regEx => 11 | .dbRef => 12 | .code => 13 | .symbol => 14
  | .codeWScope => 15 | .numberInt => 16 | .bsonTimestamp => 17 | .numberLong => 18
  | .numberDecimal => 19 | .minKey => 255 | .maxKey => 127

/-- The type of a type byte. -/
def BSONType.ofByte (b : UInt8) : Option BSONType :=
  [BSONType.eoo, .numberDouble, .string, .object, .array, .binData, .undefined, .jstOID, .bool,
    .date, .jstNULL, .regEx, .dbRef, .code, .symbol, .codeWScope, .numberInt, .bsonTimestamp,
    .numberLong, .numberDecimal, .minKey, .maxKey].find? (·.toByte == b)

/-- The bytes up to and including the first NUL, if there is one. -/
def cstringSize (bytes : List UInt8) : Option Nat :=
  (bytes.idxOf? 0).map (· + 1)

/-- `BSONElement::valuesize` from `computeSize`: a fixed size, a fixed size plus the int32 the
value starts with, or for a regex two C strings. -/
def valueSize : BSONType → List UInt8 → Option Nat
  | .eoo, _ | .undefined, _ | .jstNULL, _ | .minKey, _ | .maxKey, _ => some 0
  | .bool, _ => some 1
  | .numberInt, _ => some 4
  | .numberDouble, _ | .date, _ | .bsonTimestamp, _ | .numberLong, _ => some 8
  | .jstOID, _ => some 12
  | .numberDecimal, _ => some 16
  | .string, v | .code, v | .symbol, v => intPlus 4 v
  | .object, v | .array, v | .codeWScope, v => intPlus 0 v
  | .binData, v => intPlus 5 v
  | .dbRef, v => intPlus 16 v
  | .regEx, v => do
    let pattern ← cstringSize v
    let flags ← cstringSize (v.drop pattern)
    pure (pattern + flags)
where
  /-- The fixed bytes and the non-negative int32 the value starts with. -/
  intPlus (fixed : Nat) (v : List UInt8) : Option Nat :=
    let n := readLittleEndian (v.take 4)
    if v.length < 4 ∨ n < 0 then none else some (fixed + n.toNat)

/-- A `BSONElement` as the column builder takes it: its type and its value bytes. The field
name is dropped by the builder. Doubles take the scaling path, which is not modelled. -/
structure ColumnElement where
  type : BSONType
  value : List UInt8
  notDouble : type ≠ .numberDouble
  deriving DecidableEq

/-- `BSONElement()`: end of object, no value. -/
def ColumnElement.eoo : ColumnElement := ⟨.eoo, [], by decide⟩

/-- The value bytes are one whole value of the type. -/
def ColumnElement.WellFormed (e : ColumnElement) : Prop :=
  valueSize e.type e.value = some e.value.length

/-- The unsigned number of bytes, low byte first. -/
def readUnsigned (bytes : List UInt8) : Nat :=
  bytes.foldr (fun b acc => b.toNat + 256 * acc) 0

/-- `static_cast<uint64_t>` (or of a wider or narrower integer) of `v`, `w` bits. -/
def toUnsigned (w : Nat) (v : Int) : Nat := (v % 2 ^ w).toNat

/-- `static_cast<intW_t>` of a `w`-bit pattern: its two's complement. -/
def toSigned (w : Nat) (u : Nat) : Int :=
  if u % 2 ^ w < 2 ^ (w - 1) then (u % 2 ^ w : Nat) else (u % 2 ^ w : Nat) - 2 ^ w

namespace ColumnElement

/-- `_numberInt()`. -/
def numberInt (e : ColumnElement) : Int := readLittleEndian (e.value.take 4)
/-- `_numberLong()`. -/
def numberLong (e : ColumnElement) : Int := readLittleEndian (e.value.take 8)
/-- `date().toMillisSinceEpoch()`. -/
def date (e : ColumnElement) : Int := readLittleEndian (e.value.take 8)
/-- `timestamp().asULL()`. -/
def timestamp (e : ColumnElement) : Nat := readUnsigned (e.value.take 8)
/-- `boolean()`. -/
def boolean (e : ColumnElement) : Int := if e.value.headD 0 = 0 then 0 else 1
/-- `OID().getInstanceUnique()`: the five bytes after the timestamp. -/
def instanceUnique (e : ColumnElement) : List UInt8 := (e.value.drop 4).take 5
/-- `_numberDecimal().getValue()`: the low 64 bits, then the high 64 bits. -/
def decimalBits (e : ColumnElement) : Nat := readUnsigned (e.value.take 16)

/-- `binaryEqualValues`: the same value bytes. -/
def binaryEqualValues (e other : ColumnElement) : Bool := e.value == other.value

/-- A NumberLong. -/
def ofLong (v : Int) : ColumnElement := ⟨.numberLong, littleEndianBytes 8 v, by decide⟩

/-- A Date, in milliseconds since the epoch. -/
def ofDate (millis : Int) : ColumnElement := ⟨.date, littleEndianBytes 8 millis, by decide⟩

/-- A String of the bytes `s`: its int32 size with the NUL, the bytes and the NUL. -/
def ofString (s : List UInt8) : ColumnElement :=
  ⟨.string, littleEndianBytes 4 (s.length + 1) ++ s ++ [0], by decide⟩

end ColumnElement

/-! ## `Simple8bTypeUtil` -/

namespace Simple8bTypeUtil

/-- `encodeInt64`: the zigzag encoding, `(uint64_t)val << 1` with the sign spread over it. -/
def encodeInt64 (val : Int) : Nat :=
  ((toUnsigned 64 val <<< 1) % 2 ^ 64) ^^^ (if val < 0 then 2 ^ 64 - 1 else 0)

/-- `decodeInt64`. -/
def decodeInt64 (val : Nat) : Int :=
  toSigned 64 ((val >>> 1) ^^^ ((2 ^ 64 - (val &&& 1)) % 2 ^ 64))

/-- `encodeInt128`. -/
def encodeInt128 (val : Int) : Nat :=
  ((toUnsigned 128 val <<< 1) % 2 ^ 128) ^^^ (if val < 0 then 2 ^ 128 - 1 else 0)

/-- `decodeInt128`. -/
def decodeInt128 (val : Nat) : Int :=
  toSigned 128 ((val >>> 1) ^^^ ((2 ^ 128 - (val &&& 1)) % 2 ^ 128))

/-- `encodeObjectId`: timestamp and counter bytes interleaved, as a little endian int64 whose top
byte is zero. -/
def encodeObjectId (oid : List UInt8) : Int :=
  readUnsigned ([3, 11, 2, 10, 1, 9, 0].map fun i => oid.getD i 0)

/-- `decodeObjectId`: the timestamp and counter bytes put back, with the instance unique bytes
given. -/
def decodeObjectId (val : Int) (instanceUnique : List UInt8) : List UInt8 :=
  let b := littleEndianBytes 8 val
  [b.getD 6 0, b.getD 4 0, b.getD 2 0, b.getD 0 0] ++ instanceUnique ++
    [b.getD 5 0, b.getD 3 0, b.getD 1 0]

/-- `encodeDecimal128`: the 128 bits as an int128. -/
def encodeDecimal128 (bits : Nat) : Int := toSigned 128 bits

end Simple8bTypeUtil

open Simple8bTypeUtil

/-- `calcDelta`: the subtraction done as uint64_t. -/
def calcDelta (val prev : Int) : Int := toSigned 64 (toUnsigned 64 val + 2 ^ 64 - toUnsigned 64 prev)

/-- `expandDelta`: the addition done as uint64_t. -/
def expandDelta (prev delta : Int) : Int := toSigned 64 (toUnsigned 64 prev + toUnsigned 64 delta)

/-! ## The zigzag encoding -/

/-- On an int64, `encodeInt64` is the zigzag map: `2 v` for `v ≥ 0`, `-2 v - 1` below. -/
theorem encodeInt64_eq {v : Int} (hlo : -2 ^ 63 ≤ v) (hhi : v < 2 ^ 63) :
    encodeInt64 v = if 0 ≤ v then (2 * v).toNat else (-2 * v - 1).toNat := by
  unfold encodeInt64
  rw [Nat.shiftLeft_eq, Nat.pow_one]
  split
  · rename_i hv
    -- the sign spread over the word complements the shifted two's complement
    rw [if_neg (by omega), bit_field.xor_two_pow_sub_one (Nat.mod_lt _ (Nat.two_pow_pos _))]
    unfold toUnsigned
    omega
  · rename_i hv
    rw [if_pos (by omega), Nat.xor_zero]
    unfold toUnsigned
    omega

/-- The one int64 that the zigzag map sends to all ones is INT64_MIN. -/
theorem encodeInt64_eq_all_ones_iff {v : Int} (hlo : -2 ^ 63 ≤ v) (hhi : v < 2 ^ 63) :
    encodeInt64 v = 2 ^ 64 - 1 ↔ v = -2 ^ 63 := by
  rw [encodeInt64_eq hlo hhi]
  split <;> omega

/-- `decodeInt64` undoes `encodeInt64` on every int64. -/
theorem decodeInt64_encodeInt64 {v : Int} (hlo : -2 ^ 63 ≤ v) (hhi : v < 2 ^ 63) :
    decodeInt64 (encodeInt64 v) = v := by
  rw [encodeInt64_eq hlo hhi]
  unfold decodeInt64
  rw [Nat.and_one_is_mod, Nat.shiftRight_eq_div_pow, Nat.pow_one]
  split
  · -- an even code: no sign to undo
    rw [show (2 * v).toNat % 2 = 0 by omega, Nat.sub_zero, Nat.mod_self, Nat.xor_zero]
    unfold toSigned
    omega
  · rw [show (-2 * v - 1).toNat % 2 = 1 by omega,
      Nat.mod_eq_of_lt (show 2 ^ 64 - 1 < 2 ^ 64 by omega),
      bit_field.xor_two_pow_sub_one (show (-2 * v - 1).toNat / 2 < 2 ^ 64 by omega)]
    unfold toSigned
    omega

/-- A delta is an int64. -/
theorem calcDelta_bounds (val prev : Int) :
    -2 ^ 63 ≤ calcDelta val prev ∧ calcDelta val prev < 2 ^ 63 := by
  unfold calcDelta toSigned
  omega

/-- The delta of two int64s is all ones in zigzag exactly when they differ by `2 ^ 63` modulo
`2 ^ 64`: then `calcDelta` wraps to INT64_MIN. -/
theorem encodeInt64_calcDelta_eq_all_ones_iff (val prev : Int) :
    encodeInt64 (calcDelta val prev) = 2 ^ 64 - 1 ↔ (val - prev) % 2 ^ 64 = 2 ^ 63 := by
  obtain ⟨hlo, hhi⟩ := calcDelta_bounds val prev
  rw [encodeInt64_eq_all_ones_iff hlo hhi]
  unfold calcDelta toSigned toUnsigned
  omega

/-- The reader's `expandDelta` undoes the builder's `calcDelta` on int64s, whatever wraps. -/
theorem expandDelta_calcDelta {val prev : Int} (hlo : -2 ^ 63 ≤ val) (hhi : val < 2 ^ 63) :
    expandDelta prev (calcDelta val prev) = val := by
  unfold expandDelta calcDelta toSigned toUnsigned
  omega

/-- So a delta that Simple-8b gives back brings the int64 back: the round trip of one delta. -/
theorem expandDelta_decodeInt64_encodeInt64 {val prev : Int} (hlo : -2 ^ 63 ≤ val)
    (hhi : val < 2 ^ 63) :
    expandDelta prev (decodeInt64 (encodeInt64 (calcDelta val prev))) = val := by
  obtain ⟨hdlo, hdhi⟩ := calcDelta_bounds val prev
  rw [decodeInt64_encodeInt64 hdlo hdhi, expandDelta_calcDelta hlo hhi]

/-! ## The builder -/

/-- `kControlByteForScaleIndex`: the control byte of each scale index; the last is
`kMemoryAsInteger`, the one of every type but a double. -/
def kControlByteForScaleIndex : List UInt8 := [0x90, 0xA0, 0xB0, 0xC0, 0xD0, 0x80]
def kMemoryAsInteger : Nat := 5
def kMaxCount : Nat := 16
def kCountMask : UInt8 := 0x0F
def kControlMask : UInt8 := 0xF0

/-- How the builder fails: `invariant(false)` on a type no delta is implemented for, or behaviour
the language leaves undefined: a signed overflow, or a path of Simple-8b that is. -/
inductive ColumnError
  | invariantFailure
  | undefinedBehaviour
  deriving DecidableEq, Repr

/-- The state of a `BSONColumnBuilder`: the previous element, the delta of the previous
Timestamp, the two Simple-8b builders, the offset of the open control byte, the scale index, the
buffer, and which builder the deltas go to. The two Simple-8b builders never hold a written word:
their callback moves each word to the buffer at once. -/
structure BSONColumnBuilder where
  prev : ColumnElement := .eoo
  prevDelta : Int := 0
  simple8bBuilder64 : Simple8bBuilder := {}
  simple8bBuilder128 : Simple8bBuilder := {}
  controlByteOffset : Nat := 0
  scaleIndex : Nat := kMemoryAsInteger
  buf : List UInt8 := []
  storeWith128 : Bool := false
  deriving DecidableEq

namespace BSONColumnBuilder

/-- A new control byte at the end of the buffer, counting one block. -/
def openControlByte (cb : BSONColumnBuilder) (control : UInt8) : BSONColumnBuilder :=
  { cb with buf := cb.buf ++ [control ||| (0 &&& kCountMask)], controlByteOffset := cb.buf.length }

/-- `_incrementSimple8bCount`: count one more block under the open control byte, or open one
when there is none, its scale index differs, or it has counted `kMaxCount` blocks. An offset of
0 stands for no open byte, also when the byte is the first of the buffer. -/
def _incrementSimple8bCount (cb : BSONColumnBuilder) : BSONColumnBuilder :=
  let control := kControlByteForScaleIndex.getD cb.scaleIndex 0
  if cb.controlByteOffset = 0 then cb.openControlByte control
  else
    let byte := cb.buf.getD cb.controlByteOffset 0
    if byte &&& kControlMask ≠ control then
      { cb with controlByteOffset := 0 }.openControlByte control
    else
      let count := (byte &&& kCountMask).toNat + 1
      let cb := { cb with
        buf := cb.buf.set cb.controlByteOffset (control ||| (UInt8.ofNat count &&& kCountMask)) }
      if count + 1 = kMaxCount then { cb with controlByteOffset := 0 } else cb

/-- The write callback of `_createBufferWriter`: count the block, then append it in little
endian byte order. -/
def writeBlock (cb : BSONColumnBuilder) (block : Nat) : BSONColumnBuilder :=
  let cb := cb._incrementSimple8bCount
  { cb with buf := cb.buf ++ littleEndianBytes 8 block }

/-- Runs an operation of the 64-bit Simple-8b builder with the buffer writer as its callback.
The callback touches only the buffer and the control byte, which the Simple-8b builder never
reads, so its words can be moved to the buffer after the call, in the order it wrote them. -/
def with64 {α : Type} (cb : BSONColumnBuilder)
    (op : Simple8bBuilder → Option (α × Simple8bBuilder)) :
    Except ColumnError (α × BSONColumnBuilder) :=
  match op cb.simple8bBuilder64 with
  | none => .error .undefinedBehaviour
  | some (a, s8) =>
    .ok (a, s8.written.foldl writeBlock { cb with simple8bBuilder64 := { s8 with written := [] } })

/-- The same for the 128-bit Simple-8b builder. -/
def with128 {α : Type} (cb : BSONColumnBuilder)
    (op : Simple8bBuilder → Option (α × Simple8bBuilder)) :
    Except ColumnError (α × BSONColumnBuilder) :=
  match op cb.simple8bBuilder128 with
  | none => .error .undefinedBehaviour
  | some (a, s8) =>
    .ok (a, s8.written.foldl writeBlock { cb with simple8bBuilder128 := { s8 with written := [] } })

/-- `_simple8bBuilder64.flush()` and `_simple8bBuilder128.flush()`, the 128-bit one first. -/
def flushBoth (cb : BSONColumnBuilder) : Except ColumnError BSONColumnBuilder := do
  let ((), cb) ← cb.with128 fun s => (Simple8bBuilder.flush .uint128 s).map ((), ·)
  let ((), cb) ← cb.with64 fun s => (Simple8bBuilder.flush .uint64 s).map ((), ·)
  pure cb

/-- `_storePrevious`. -/
def _storePrevious (cb : BSONColumnBuilder) (elem : ColumnElement) : BSONColumnBuilder :=
  { cb with prev := elem }

/-- `_writeLiteralFromPrevious`: the type byte, an empty field name and the value; the next block
opens a new control byte, and a Timestamp starts without a previous delta. -/
def _writeLiteralFromPrevious (cb : BSONColumnBuilder) : BSONColumnBuilder :=
  { cb with
    buf := cb.buf ++ [cb.prev.type.toByte, 0] ++ cb.prev.value,
    controlByteOffset := 0, prevDelta := 0, scaleIndex := kMemoryAsInteger }

/-- `_usesDeltaOfDelta`. -/
def _usesDeltaOfDelta (type : BSONType) : Bool := type == BSONType.bsonTimestamp

/-- `_objectIdDeltaPossible`. -/
def _objectIdDeltaPossible (elem prev : ColumnElement) : Bool :=
  elem.instanceUnique == prev.instanceUnique

/-- The 64-bit delta of `elem` after `previous` in the `switch` of `append`, with the delta of
Timestamps to keep: `none` where no encoding is possible. -/
def delta64 (cb : BSONColumnBuilder) (elem previous : ColumnElement) :
    Except ColumnError (Option Int × Int) :=
  match elem.type with
  | .numberInt => .ok (some (calcDelta elem.numberInt previous.numberInt), cb.prevDelta)
  | .numberLong => .ok (some (calcDelta elem.numberLong previous.numberLong), cb.prevDelta)
  | .jstOID =>
    if _objectIdDeltaPossible elem previous then
      .ok (some (calcDelta (encodeObjectId elem.value) (encodeObjectId previous.value)),
        cb.prevDelta)
    else .ok (none, cb.prevDelta)
  | .bsonTimestamp =>
    let currTimestampDelta :=
      calcDelta (toSigned 64 elem.timestamp) (toSigned 64 previous.timestamp)
    .ok (some (calcDelta currTimestampDelta cb.prevDelta), currTimestampDelta)
  | .date =>
    -- a subtraction of two int64, not through `calcDelta`
    let value := elem.date - previous.date
    if value < -2 ^ 63 ∨ 2 ^ 63 ≤ value then .error .undefinedBehaviour
    else .ok (some value, cb.prevDelta)
  | .bool => .ok (some (elem.boolean - previous.boolean), cb.prevDelta)
  | .undefined | .jstNULL => .ok (some 0, cb.prevDelta)
  | .regEx | .dbRef | .codeWScope | .symbol => .ok (none, cb.prevDelta)
  | _ => .error .invariantFailure

/-- The delta of `elem` after `previous` when it is not binary equal: into the 128-bit builder
for a decimal, into the 64-bit one otherwise; whether it was stored. -/
def appendDelta (cb : BSONColumnBuilder) (elem previous : ColumnElement) :
    Except ColumnError (Bool × BSONColumnBuilder) :=
  if cb.storeWith128 then
    match elem.type with
    | .numberDecimal =>
      -- an int128 subtraction
      let delta := encodeDecimal128 elem.decimalBits - encodeDecimal128 previous.decimalBits
      if delta < -2 ^ 127 ∨ 2 ^ 127 ≤ delta then .error .undefinedBehaviour
      else cb.with128 fun s => Simple8bBuilder.append .uint128 s (encodeInt128 delta)
    | _ => .error .invariantFailure
  else do
    let (value, prevDelta) ← cb.delta64 elem previous
    let cb := { cb with prevDelta := prevDelta }
    match value with
    | none => pure (false, cb)
    | some value => cb.with64 fun s => Simple8bBuilder.append .uint64 s (encodeInt64 value)

/-- `BSONColumnBuilder::append`. -/
def append (cb : BSONColumnBuilder) (elem : ColumnElement) :
    Except ColumnError BSONColumnBuilder := do
  let previous := cb.prev
  -- a change of type (or the first value): flush, and write the value as a literal
  if previous.type ≠ elem.type then
    let cb := cb._storePrevious elem
    let cb ← cb.flushBoth
    let cb := { cb with storeWith128 := elem.type == BSONType.numberDecimal }
    return cb._writeLiteralFromPrevious
  let compressed := !_usesDeltaOfDelta elem.type && elem.binaryEqualValues previous
  let (compressed, cb) ← if compressed then do
      -- the zero delta of a repeat; its result is not looked at
      let ((), cb) ← if cb.storeWith128 then
          cb.with128 fun s => (Simple8bBuilder.append .uint128 s 0).map fun r => ((), r.2)
        else cb.with64 fun s => (Simple8bBuilder.append .uint64 s 0).map fun r => ((), r.2)
      pure (true, cb)
    else cb.appendDelta elem previous
  let cb := cb._storePrevious elem
  if !compressed then
    let cb ← cb.flushBoth
    return cb._writeLiteralFromPrevious
  return cb

/-- `BSONColumnBuilder::skip`. The rescaling after a skip that wrote a block is for a previous
double, which the elements here never are. -/
def skip (cb : BSONColumnBuilder) : Except ColumnError BSONColumnBuilder := do
  if cb.storeWith128 then
    let ((), cb) ← cb.with128 fun s => (Simple8bBuilder.skip .uint128 s).map ((), ·)
    pure cb
  else
    let ((), cb) ← cb.with64 fun s => (Simple8bBuilder.skip .uint64 s).map ((), ·)
    pure cb

/-- `BSONColumnBuilder::finalize`: flush both builders and end with EOO. -/
def finalize (cb : BSONColumnBuilder) : Except ColumnError (List UInt8) := do
  let cb ← cb.flushBoth
  pure (cb.buf ++ [BSONType.eoo.toByte])

/-- An operation on the builder. -/
inductive Op
  | append (elem : ColumnElement)
  | skip

/-- The builder after a sequence of operations. -/
def run (cb : BSONColumnBuilder) : List Op → Except ColumnError BSONColumnBuilder
  | [] => pure cb
  | .append elem :: ops => do run (← cb.append elem) ops
  | .skip :: ops => do run (← cb.skip) ops

end BSONColumnBuilder

/-! ## Reading the binary back -/

/-- The element of type `type` rebuilt from a value, as the delta types store it. -/
def rebuild (previous : ColumnElement) (value : Int) : ColumnElement :=
  match previous.type with
  | .numberInt => { previous with value := littleEndianBytes 4 value }
  | .bool => { previous with value := [if value = 0 then 0 else 1] }
  | .jstOID => { previous with value := decodeObjectId value previous.instanceUnique }
  | .numberDecimal => { previous with value := littleEndianBytes 16 value }
  | .numberLong | .date | .bsonTimestamp => { previous with value := littleEndianBytes 8 value }
  | _ => previous

/-- The value a delta applies to: what `append` subtracted. -/
def deltaBase (e : ColumnElement) : Int :=
  match e.type with
  | .numberInt => e.numberInt
  | .numberLong => e.numberLong
  | .date => e.date
  | .bsonTimestamp => toSigned 64 e.timestamp
  | .bool => e.boolean
  | .jstOID => encodeObjectId e.value
  | .numberDecimal => encodeDecimal128 e.decimalBits
  | _ => 0

/-- The values of the Simple-8b blocks after a control byte, expanded against `previous` (and,
for a Timestamp, the previous delta), `none` for a skip. -/
def expandValues (previous : ColumnElement) (prevDelta : Int) :
    List (Option Nat) → List (Option ColumnElement) × ColumnElement × Int
  | [] => ([], previous, prevDelta)
  | none :: vs =>
    let (out, last, d) := expandValues previous prevDelta vs
    (none :: out, last, d)
  | some v :: vs =>
    let delta := if previous.type = .numberDecimal then decodeInt128 v else decodeInt64 v
    let (prevDelta, base) := if previous.type = .bsonTimestamp then
        (expandDelta prevDelta delta, expandDelta (deltaBase previous) (expandDelta prevDelta delta))
      else if previous.type = .numberDecimal then (prevDelta, deltaBase previous + delta)
      else (prevDelta, expandDelta (deltaBase previous) delta)
    let elem := rebuild previous base
    let (out, last, d) := expandValues elem prevDelta vs
    (some elem :: out, last, d)

/-- The words of `n` blocks of eight bytes, little endian. -/
def blockWords (n : Nat) (bytes : List UInt8) : List Nat :=
  (List.range n).map fun i => readUnsigned ((bytes.drop (8 * i)).take 8)

/-- A reader of the binary `BSONColumnBuilder` writes, which the source (its `BSONColumn` still
empty) has none of: EOO at the end; a control byte `0x80 | n` (or another scale's) followed by
`n + 1` blocks, whose values expand against the previous value; anything else a literal: a type
byte, the empty field name and a value of the type's size. At most `fuel` entries are read. -/
def readColumn : Nat → List UInt8 → ColumnElement → Int → Option (List (Option ColumnElement))
  | 0, _, _, _ => none
  | _ + 1, [], _, _ => none
  | fuel + 1, b :: rest, previous, prevDelta =>
    if b = 0 then (if rest = [] then some [] else none)
    else if b &&& 0x80 ≠ 0 then
      let count := (b &&& kCountMask).toNat + 1
      if rest.length < 8 * count then none
      else
        let T : ValueType := if previous.type = .numberDecimal then .uint128 else .uint64
        let vals := Iterator.values T (64 * 120 * count + count)
          (Iterator.begin T (blockWords count rest))
        let (out, last, d) := expandValues previous prevDelta vals
        (out ++ ·) <$> readColumn fuel (rest.drop (8 * count)) last d
    else do
      let type ← BSONType.ofByte b
      if h : type = .numberDouble then none
      else
        if rest.headD 1 ≠ 0 then none
        else
          let size ← valueSize type (rest.drop 1)
          if rest.length < 1 + size then none
          else
            let elem : ColumnElement := ⟨type, (rest.drop 1).take size, h⟩
            (some elem :: ·) <$> readColumn fuel (rest.drop (1 + size)) elem 0

/-! ## Where the round trip fails -/

/-- Three appends, of a NumberLong, a String and a Date, that do not come back. A NumberLong
INT64_MIN after a 0 is the delta INT64_MIN, whose zigzag code is all ones: Simple-8b takes it
and writes the slot of a skip, so the binary reads back a skip. Two different Strings reach
`invariant(false)`, since no delta is implemented for them. A Date after a Date more than
`2 ^ 63` ms apart subtracts int64s with a signed overflow. Two int64s give the all-ones delta
exactly when they differ by `2 ^ 63` modulo `2 ^ 64`, and every delta comes back. -/
theorem append_long_string_date_diverge :
    ((∃ bytes, (BSONColumnBuilder.run {}
        [.append (.ofLong 0), .append (.ofLong (-2 ^ 63))]).bind BSONColumnBuilder.finalize =
          .ok bytes ∧
      readColumn 100 bytes .eoo 0 = some [some (.ofLong 0), none]) ∧
    BSONColumnBuilder.run {} [.append (.ofString [97]), .append (.ofString [98])] =
      .error .invariantFailure ∧
    BSONColumnBuilder.run {} [.append (.ofDate (-1)), .append (.ofDate (2 ^ 63 - 1))] =
      .error .undefinedBehaviour) ∧
    (∀ val prev : Int,
      encodeInt64 (calcDelta val prev) = 2 ^ 64 - 1 ↔ (val - prev) % 2 ^ 64 = 2 ^ 63) ∧
    ∀ val prev : Int, -2 ^ 63 ≤ val → val < 2 ^ 63 →
      expandDelta prev (decodeInt64 (encodeInt64 (calcDelta val prev))) = val := by
  refine ⟨⟨⟨_, rfl, ?_⟩, ?_, ?_⟩, encodeInt64_calcDelta_eq_all_ones_iff,
    fun _ _ hlo hhi => expandDelta_decodeInt64_encodeInt64 hlo hhi⟩ <;> decide

end mongo.bsoncolumn
