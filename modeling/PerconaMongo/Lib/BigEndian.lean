-- Unsigned integers as bytes, the most significant first: the layout of `nativeToBig`, under
-- which two byte strings of one length compare byte by byte as the numbers they hold. A reader
-- shifts the bytes in one at a time.
import Mathlib.Tactic.Ring

namespace big_endian

/-- The low `n` bytes of `x`, the most significant first. -/
def bytes : Nat → Nat → List UInt8
  | 0, _ => []
  | n + 1, x => UInt8.ofNat (x / 256 ^ n) :: bytes n x

/-- One byte shifted in below the bits read so far. -/
def push (acc : Nat) (b : UInt8) : Nat := (acc <<< 8) ||| b.toNat

/-- The number that bytes hold, the most significant first. -/
def value (bs : List UInt8) : Nat := bs.foldl push 0

end big_endian
