-- The RecordId at the end of a KeyString (key_string.cpp). A long id is written in 2 to 9
-- bytes: a count N of middle bytes in the top three bits of the first byte and in the low three
-- bits of the last, and the value big-endian in the other 5 + 8N + 5 bits; so it can be read
-- from either end. A string id is written as its bytes and then its length in one byte, and is
-- read from the end. Keys are compared byte by byte with `memcmp`, the shorter first on a tie.
-- Long ids keep their order under that comparison; string ids keep it unless one is a prefix
-- of the other and the longer one's next byte is below the shorter one's length.
import PerconaMongo.Lib.BigEndian
import PerconaMongo.Value.Compare
import Mathlib.Data.Nat.Size

namespace mongo.KeyString

open three_way big_endian

/-- How reading a KeyString fails: an `invariant`, a `BufReader` read past the end of its
buffer, or a `keyStringAssert` with its code and message. -/
inductive KeyStringError
  | invariantFailure
  | bufferOverrun
  | keyStringAssertion (code : Nat) (reason : String)
  deriving DecidableEq, Repr

/-- A `RecordId`: null, a long, or a small binary string. -/
inductive RecordId
  | null
  | long (rid : Int)
  | str (bytes : List UInt8)
  deriving DecidableEq, Repr

/-- `StringData::compare`: the bytes both have, then the longer one last. -/
def StringData.compare (s other : List UInt8) : Int :=
  let res := memcmp s other
  if res ≠ 0 then (if res > 0 then 1 else -1)
  else if s.length = other.length then 0
  else if s.length > other.length then 1 else -1

/-- `RecordId::compare`: null first, and two ids of one format by their values. The source
asserts that two ids that are not null have one format. -/
def RecordId.compare : RecordId → RecordId → Except KeyStringError Int
  | .null, .null => pure 0
  | .null, _ => pure (-1)
  | _, .null => pure 1
  | .long rid, .long rhs => pure (if rid = rhs then 0 else if rid > rhs then 1 else -1)
  | .str s, .str t => pure (StringData.compare s t)
  | _, _ => throw .invariantFailure

/-- `KeyString::compare`: the bytes both keys have, by `memcmp`, then the shorter key first. -/
def compare (left right : List UInt8) : Int :=
  if left.length = 0 then (if right.length = 0 then 0 else -1)
  else if right.length = 0 then 1
  else
    let cmp := memcmp left right
    if cmp ≠ 0 then (if cmp < 0 then -1 else 1)
    else if left.length = right.length then 0
    else if left.length < right.length then -1 else 1

/-! ## Long ids -/

/-- `countLeadingZeros64`: 64 for zero. -/
def countLeadingZeros64 (num : Nat) : Nat := 64 - num.size

section LongLayout

variable {v : Nat}

end LongLayout

/-! ## Reading a long id back -/

theorem compare_swap (a b : List UInt8) : KeyString.compare b a = -KeyString.compare a b := by
  simp only [KeyString.compare, Value.memcmp_swap a b]
  split_ifs <;> omega

section LongOrder

variable {v w : Nat}

end LongOrder

/-! ## String ids -/

section StringIds

variable {s t : List UInt8}

end StringIds

/-! ## The suffix encodings -/

end mongo.KeyString
