-- BSON values as the matcher and the hasher see them: the types of `canonicalizeBSONType`, and
-- `BSONElement::compareElements` and `woCompare` without field names and without a collator.
-- The numeric comparisons of compare_numbers.h (`compareDoubles`, `compareLongToDouble`,
-- `compareDecimals` and the other mixed ones) all order numbers by their exact values with
-- NaN below every other number; the model states that order once, on the values.
import Mathlib.Data.Rat.Defs
import Mathlib.Algebra.Order.Ring.Rat

namespace mongo

/-- The value of a `NumberDouble` or a `NumberDecimal`: NaN, an infinity, or a finite number. -/
inductive NumVal
  | nan
  | negInf
  | finite (q : ℚ)
  | posInf
  deriving DecidableEq, Repr

namespace NumVal

/-- The rank of a value among the kinds: NaN, then -Inf, the finite numbers and +Inf. -/
def rank : NumVal → Nat
  | nan => 0
  | negInf => 1
  | finite _ => 2
  | posInf => 3

/-- The order of all numeric comparisons: NaN equals NaN and lies below every number, the
others compare by value. -/
def compare : NumVal → NumVal → Int
  | finite a, finite b => if a < b then -1 else if a = b then 0 else 1
  | a, b => if a.rank < b.rank then -1 else if a.rank = b.rank then 0 else 1

def isNaN (v : NumVal) : Bool := v == nan

end NumVal

/-- A BSON element of the types the model covers, field name left out. -/
inductive BSONElement
  | eoo
  | minKey
  | maxKey
  | undefined
  | null
  | numberInt (v : Int)
  | numberLong (v : Int)
  | numberDouble (v : NumVal)
  | numberDecimal (v : NumVal)
  | string (s : String)
  | bool (b : Bool)
  deriving DecidableEq, Repr

namespace BSONElement

/-- `canonicalizeBSONType`: the rank of the type among all types, with the numeric types
sharing one and `EOO` sharing `Undefined`'s. -/
def canonicalType : BSONElement → Int
  | minKey => -1
  | eoo | undefined => 0
  | null => 5
  | numberInt _ | numberLong _ | numberDouble _ | numberDecimal _ => 10
  | string _ => 15
  | bool _ => 40
  | maxKey => 127

def isNumber : BSONElement → Bool
  | numberInt _ | numberLong _ | numberDouble _ | numberDecimal _ => true
  | _ => false

/-- The value of a number. -/
def numVal? : BSONElement → Option NumVal
  | numberInt v | numberLong v => some (.finite v)
  | numberDouble v | numberDecimal v => some v
  | _ => none

/-- `std::isnan(e.numberDouble())`: the element is a double or a decimal NaN. -/
def isNaN (e : BSONElement) : Bool :=
  match e.numVal? with
  | some v => v.isNaN
  | none => false

/-- `compareElementStringValues`: the bytes compared in order, then the lengths. -/
def compareStrings (a b : String) : Int :=
  if a < b then -1 else if a = b then 0 else 1

/-- `BSONElement::compareElements` on two elements of one canonical type, without a
collator; the source does not call it on two of different canonical types. -/
def compareElements (l r : BSONElement) : Int :=
  match l, r with
  | eoo, _ | undefined, _ | null, _ | maxKey, _ | minKey, _ =>
    let f := l.canonicalType - r.canonicalType
    if f < 0 then -1 else if f = 0 then 0 else 1
  | bool a, bool b => (if a then 1 else 0) - (if b then 1 else 0)
  | string a, string b => compareStrings a b
  | l, r =>
    match l.numVal?, r.numVal? with
    | some a, some b => a.compare b
    | _, _ => 0

/-- `BSONElement::woCompare` without field names: the canonical types first, unless both are
numbers, then `compareElements`. -/
def woCompare (l r : BSONElement) : Int :=
  let x := l.canonicalType - r.canonicalType
  if x ≠ 0 ∧ !(l.isNumber && r.isNumber) then x else compareElements l r

end BSONElement

end mongo
