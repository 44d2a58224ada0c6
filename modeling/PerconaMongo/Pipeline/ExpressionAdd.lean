-- `$add` in the two query engines. The classic engine's `ExpressionAdd::evaluate` sums the
-- operands into a `DoubleDoubleSummation` and a `Decimal128` and returns the narrowest type that
-- holds the sum. For two operands the slot-based engine runs the expression the stage builder
-- makes of them: null or missing gives null, a type that is neither a number nor a date fails,
-- two dates fail, one date goes to the builtin `doubleDoubleSum`, and two numbers go to the VM's
-- add instruction, `genericArithmeticOp<Addition>`, which adds in the wider operand type and
-- moves on to the next wider one when an integer sum overflows.
import PerconaMongo.Util.Summation
import PerconaMongo.Value.Compare

namespace mongo

open binary_float decimal_float

/-- A value that `$add` reads or returns, as both engines see it: the numbers and dates with
their values, null, undefined, missing (the slot-based engine's Nothing), and a value of any
other type by its `typeName`. -/
inductive Operand
  | missing
  | null
  | undefined
  | numberInt (v : Int)
  | numberLong (v : Int)
  | numberDouble (v : Double)
  | numberDecimal (v : Decimal)
  | date (millis : Int)
  | other (typeName : String)
  deriving DecidableEq, Repr

/-- How an evaluation ends without a value: a user assertion with its code and message, or a
`massert` or `MONGO_UNREACHABLE`, which stops the server. -/
inductive AddError
  | uassert (code : Nat) (reason : String)
  | unreachable
  deriving DecidableEq, Repr

/-- `ErrorCodes::Overflow`. -/
def kOverflow : Nat := 15

namespace Operand

/-- `Value::nullish`. -/
def nullish : Operand → Bool
  | missing | null | undefined => true
  | _ => false

/-- `typeName` of the value's type. -/
def typeName : Operand → String
  | missing => "missing"
  | null => "null"
  | undefined => "undefined"
  | numberInt _ => "int"
  | numberLong _ => "long"
  | numberDouble _ => "double"
  | numberDecimal _ => "decimal"
  | date _ => "date"
  | other name => name

end Operand

/-- `Value::createIntOrLong`: an int when the value survives the conversion to `int`. -/
def createIntOrLong (v : Int) : Operand :=
  if -2 ^ 31 ≤ v ∧ v < 2 ^ 31 then .numberInt v else .numberLong v

/-- `getLong`, its `uassert` raised with `ErrorCodes::Overflow`. -/
def DoubleDoubleSummation.getLongChecked (st : DoubleDoubleSummation) : Except AddError Int :=
  match st.getLong with
  | .ok v => .ok v
  | .error reason => .error (.uassert kOverflow reason)

theorem DoubleDoubleSummation.getLongChecked_of_getLong {st : DoubleDoubleSummation} {v : Int}
    (h : st.getLong = .ok v) : st.getLongChecked = .ok v := by
  unfold getLongChecked
  rw [h]

/-! ## The classic engine -/

namespace ExpressionAdd

/-- The totals of the loop of `evaluate`. -/
structure Totals where
  nonDecimalTotal : DoubleDoubleSummation := {}
  decimalTotal : Decimal := Decimal.ofInt 0
  totalType : BSONType := .numberInt
  haveDate : Bool := false

/-- The loop of `evaluate` over the operands' values, or `none` where it returns null. -/
def sumOperands (t : Totals) : List Operand → Except AddError (Option Totals)
  | [] => .ok (some t)
  | val :: vals =>
    match val with
    | .numberDecimal v =>
      sumOperands
        { t with
          decimalTotal := Decimal128.add t.decimalTotal v
          totalType := .numberDecimal } vals
    | .numberDouble v =>
      sumOperands
        { t with
          nonDecimalTotal := t.nonDecimalTotal.addDouble v
          totalType := if t.totalType ≠ .numberDecimal then .numberDouble else t.totalType } vals
    | .numberLong v =>
      sumOperands
        { t with
          nonDecimalTotal := t.nonDecimalTotal.addLong v
          totalType := if t.totalType = .numberInt then .numberLong else t.totalType } vals
    | .numberInt v =>
      sumOperands { t with nonDecimalTotal := t.nonDecimalTotal.addDouble (toDouble v) } vals
    | .date millis =>
      if t.haveDate then .error (.uassert 16612 "only one date allowed in an $add expression")
      else
        sumOperands
          { t with
            haveDate := true
            nonDecimalTotal := t.nonDecimalTotal.addLong millis } vals
    | val =>
      if val.nullish then .ok none
      else .error (.uassert 16554 ("$add only supports numeric or date types, not " ++
        val.typeName))

/-- The `NumberDouble` case of the result. -/
def doubleResult (st : DoubleDoubleSummation) : Operand := .numberDouble st.getDouble

/-- The `NumberInt` case, falling through to `NumberDouble`. -/
def intResult (st : DoubleDoubleSummation) : Except AddError Operand :=
  if st.fitsLong then createIntOrLong <$> st.getLongChecked else .ok (doubleResult st)

/-- The `NumberLong` case, falling through to `NumberInt`. -/
def longResult (st : DoubleDoubleSummation) : Except AddError Operand :=
  if st.fitsLong then Operand.numberLong <$> st.getLongChecked else intResult st

def evaluate (vals : List Operand) : Except AddError Operand := do
  match ← sumOperands {} vals with
  | none => return .null
  | some t =>
    if t.haveDate then
      let longTotal ← (if t.totalType = .numberDecimal then
          pure (Decimal128.toLong (Decimal128.add t.decimalTotal t.nonDecimalTotal.getDecimal))
        else if !t.nonDecimalTotal.fitsLong then
          throw (.uassert kOverflow "date overflow in $add")
        else t.nonDecimalTotal.getLongChecked)
      return .date longTotal
    else
      match t.totalType with
      | .numberDecimal =>
        return .numberDecimal (Decimal128.add t.decimalTotal t.nonDecimalTotal.getDecimal)
      | .numberLong => longResult t.nonDecimalTotal
      | .numberInt => intResult t.nonDecimalTotal
      | .numberDouble => return doubleResult t.nonDecimalTotal
      | _ => throw .unreachable

end ExpressionAdd

/-! ## The slot-based engine -/

namespace sbe

/-- The numeric `value::TypeTags`. -/
inductive TypeTags
  | numberInt32
  | numberInt64
  | numberDouble
  | numberDecimal
  deriving DecidableEq, Repr

/-- The numeric tag of a value, `none` where `value::isNumber` is false. -/
def numericTag? : Operand → Option TypeTags
  | .numberInt _ => some .numberInt32
  | .numberLong _ => some .numberInt64
  | .numberDouble _ => some .numberDouble
  | .numberDecimal _ => some .numberDecimal
  | _ => none

def isNumber (v : Operand) : Bool := (numericTag? v).isSome

def isDate : Operand → Bool
  | .date _ => true
  | _ => false

def getWidestNumericalType (lhsTag rhsTag : TypeTags) : TypeTags :=
  if lhsTag = .numberDecimal ∨ rhsTag = .numberDecimal then .numberDecimal
  else if lhsTag = .numberDouble ∨ rhsTag = .numberDouble then .numberDouble
  else if lhsTag = .numberInt64 ∨ rhsTag = .numberInt64 then .numberInt64
  else .numberInt32

/-- `numericCast<int64_t>` (and `<int32_t>`): a double converted toward zero; a decimal is
`MONGO_UNREACHABLE`. -/
def numericCastInt : Operand → Except AddError Int
  | .numberInt v | .numberLong v => .ok v
  | .numberDouble d => .ok d.truncate
  | _ => .error .unreachable

/-- `numericCast<double>`: an integer converted to the nearest double. -/
def numericCastDouble : Operand → Except AddError Double
  | .numberInt v | .numberLong v => .ok (toDouble v)
  | .numberDouble d => .ok d
  | _ => .error .unreachable

/-- `numericCast<Decimal128>`: a double through `Decimal128(double)`, of 15 digits. -/
def numericCastDecimal : Operand → Except AddError Decimal
  | .numberInt v | .numberLong v => .ok (Decimal.ofInt v)
  | .numberDouble d => .ok (Decimal128.ofDouble d)
  | .numberDecimal d => .ok d
  | _ => .error .unreachable

/-- `overflow::add` on a signed type of `bits` bits: the sum, or `none` when it overflows. -/
def overflowAdd (bits : Nat) (a b : Int) : Option Int :=
  if -2 ^ (bits - 1) ≤ a + b ∧ a + b < 2 ^ (bits - 1) then some (a + b) else none

/-- The `NumberDecimal` case of `genericArithmeticOp`. -/
def addDecimals (lhs rhs : Operand) : Except AddError Operand := do
  return .numberDecimal (Decimal128.add (← numericCastDecimal lhs) (← numericCastDecimal rhs))

/-- The `NumberInt64` case, falling through to `NumberDecimal` on overflow. -/
def addInt64s (lhs rhs : Operand) : Except AddError Operand := do
  match overflowAdd 64 (← numericCastInt lhs) (← numericCastInt rhs) with
  | some result => return .numberLong result
  | none => addDecimals lhs rhs

/-- The `NumberInt32` case, falling through to `NumberInt64` on overflow. -/
def addInt32s (lhs rhs : Operand) : Except AddError Operand := do
  match overflowAdd 32 (← numericCastInt lhs) (← numericCastInt rhs) with
  | some result => return .numberInt result
  | none => addInt64s lhs rhs

/-- The `NumberDouble` case: both converted to double and added. -/
def addDoubles (lhs rhs : Operand) : Except AddError Operand := do
  return .numberDouble (dadd (← numericCastDouble lhs) (← numericCastDouble rhs))

/-- An int64 sum for the date branch: the result, or the `uasserted` overflow. -/
def dateSum (a b : Int) (tag : Int → Operand) : Except AddError Operand :=
  match overflowAdd 64 a b with
  | some result => .ok (tag result)
  | none => .error (.uassert kOverflow "date overflow")

/-- `genericArithmeticOp<Addition>`, the VM's add instruction. In its date branch, two
non-numbers add the left value to itself; a left value of a type stored behind a pointer gives
the pointer's bits, which the model does not have, and stops there. -/
def genericAdd (lhs rhs : Operand) : Except AddError Operand :=
  match numericTag? lhs, numericTag? rhs with
  | some lhsTag, some rhsTag =>
    match getWidestNumericalType lhsTag rhsTag with
    | .numberInt32 => addInt32s lhs rhs
    | .numberInt64 => addInt64s lhs rhs
    | .numberDecimal => addDecimals lhs rhs
    | .numberDouble => addDoubles lhs rhs
  | _, _ =>
    if isDate lhs || isDate rhs then
      match lhs, rhs with
      | .date l, .date _ => dateSum l l .numberLong
      | .date l, r => if isNumber r then do dateSum l (← numericCastInt r) .date
                      else dateSum l l .numberLong
      | l, .date r => if isNumber l then do dateSum (← numericCastInt l) r .date
                      else if l.nullish then dateSum 0 0 .numberLong
                      else .error .unreachable
      | _, _ => .ok .missing
    else .ok .missing

/-- The sweep of `builtinDoubleDoubleSum` over its arguments: the widest numeric type, a date
counting as an int64, and whether there was a date; `none` where the builtin returns
Nothing. -/
def sweepTags (resultTag : TypeTags) (haveDate : Bool) :
    List Operand → Except AddError (Option (TypeTags × Bool))
  | [] => .ok (some (resultTag, haveDate))
  | .date _ :: args =>
    if haveDate then .error (.uassert 4848404 "only one date allowed in an $add expression")
    else sweepTags (getWidestNumericalType resultTag .numberInt64) true args
  | arg :: args =>
    match numericTag? arg with
    | some tag => sweepTags (getWidestNumericalType resultTag tag) haveDate args
    | none => .ok none

/-- One argument added to the `Decimal128` sum of `builtinDoubleDoubleSum`. -/
def addToDecimalSum (sum : Decimal) : Operand → Except AddError Decimal
  | .date millis => .ok (Decimal128.add sum (Decimal.ofInt millis))
  | arg => return Decimal128.add sum (← numericCastDecimal arg)

/-- One argument added to the `DoubleDoubleSummation` of `builtinDoubleDoubleSum`. -/
def addToSum (sum : DoubleDoubleSummation) : Operand → DoubleDoubleSummation
  | .numberInt v => sum.addInt v
  | .numberLong v => sum.addLong v
  | .numberDouble v => sum.addDouble v
  | .date millis => sum.addLong millis
  | _ => sum

/-- The `NumberInt64` case of the result of `builtinDoubleDoubleSum`, falling through to
`NumberDouble`. -/
def int64Result (sum : DoubleDoubleSummation) : Except AddError Operand :=
  if sum.fitsLong then Operand.numberLong <$> sum.getLongChecked
  else .ok (.numberDouble sum.getDouble)

/-- The `NumberInt32` case, falling through to `NumberInt64`. It calls `getLong` before it
checks `fitsLong`, so a sum out of the int64 range throws here. -/
def int32Result (sum : DoubleDoubleSummation) : Except AddError Operand := do
  let result ← sum.getLongChecked
  if sum.fitsLong ∧ -2 ^ 31 ≤ result ∧ result < 2 ^ 31 then return .numberInt result
  else int64Result sum

/-- `builtinDoubleDoubleSum`. -/
def builtinDoubleDoubleSum (args : List Operand) : Except AddError Operand := do
  match ← sweepTags .numberInt32 false args with
  | none => return .missing
  | some (resultTag, haveDate) =>
    if resultTag = .numberDecimal then
      let sum ← args.foldlM addToDecimalSum (Decimal.ofInt 0)
      if haveDate then return .date (Decimal128.toLong sum)
      else return .numberDecimal sum
    else
      let sum := args.foldl addToSum {}
      if haveDate then
        if !sum.fitsLong then throw (.uassert kOverflow "date overflow in $add")
        return .date (← sum.getLongChecked)
      else
        match resultTag with
        | .numberInt32 => int32Result sum
        | .numberInt64 => int64Result sum
        | .numberDouble => return .numberDouble sum.getDouble
        | .numberDecimal => throw .unreachable

/-- The `nullOrMissing` test the stage builder generates: `!exists` or a null or undefined. -/
def generateNullOrMissing (v : Operand) : Bool := v.nullish

/-- The expression the stage builder makes for `{$add: [lhs, rhs]}`. -/
def add2 (lhs rhs : Operand) : Except AddError Operand :=
  if generateNullOrMissing lhs || generateNullOrMissing rhs then .ok .null
  else if (!isNumber lhs && !isDate lhs) || (!isNumber rhs && !isDate rhs) then
    .error (.uassert 4974201 "only numbers and dates are allowed in an $add expression")
  else if isDate lhs && isDate rhs then
    .error (.uassert 4974202 "only one date allowed in an $add expression")
  else if isDate lhs || isDate rhs then builtinDoubleDoubleSum [lhs, rhs]
  else genericAdd lhs rhs

end sbe

/-! ## Where the engines agree -/

open DoubleDoubleSummation in
/-- The classic engine on two int32s: the sum of two integers of at most 53 bits is exact, so
`fitsLong` holds and `getLong` returns it. -/
theorem evaluate_numberInt {x y : Int} (hx : -2 ^ 31 ≤ x ∧ x < 2 ^ 31)
    (hy : -2 ^ 31 ≤ y ∧ y < 2 ^ 31) :
    ExpressionAdd.evaluate [.numberInt x, .numberInt y] = .ok (createIntOrLong (x + y)) := by
  have hsum : ((({} : DoubleDoubleSummation).addDouble (toDouble x)).addDouble
      (toDouble y)).HoldsInt (x + y) := by
    rw [toDouble_of_natAbs_lt (by omega), toDouble_of_natAbs_lt (by omega)]
    have h₁ := holdsInt_empty.addDouble (b := x) (by decide) (by omega) (by omega)
    rw [zero_add] at h₁
    exact h₁.addDouble (by omega) (by omega) (by omega)
  have hs : (x + y).natAbs < 2 ^ 53 := by omega
  simp only [ExpressionAdd.evaluate, ExpressionAdd.sumOperands, bind, Except.bind,
    Bool.false_eq_true, if_false]
  rw [ExpressionAdd.intResult, if_pos (hsum.fitsLong hs),
    getLongChecked_of_getLong (hsum.getLong hs)]
  rfl

/-- The slot-based engine on two int32s: an int32 sum, or on overflow an int64 one, which never
overflows. -/
theorem add2_numberInt {x y : Int} (hx : -2 ^ 31 ≤ x ∧ x < 2 ^ 31)
    (hy : -2 ^ 31 ≤ y ∧ y < 2 ^ 31) :
    sbe.add2 (.numberInt x) (.numberInt y) = .ok (createIntOrLong (x + y)) := by
  have h64 : sbe.overflowAdd 64 x y = some (x + y) := by
    rw [sbe.overflowAdd, if_pos (by omega)]
  have hgen : sbe.add2 (.numberInt x) (.numberInt y) =
      sbe.addInt32s (.numberInt x) (.numberInt y) := rfl
  rw [hgen, sbe.addInt32s]
  by_cases h32 : -2 ^ 31 ≤ x + y ∧ x + y < 2 ^ 31
  · have h : sbe.overflowAdd 32 x y = some (x + y) := if_pos h32
    rw [createIntOrLong, if_pos h32]
    simp [sbe.numericCastInt, bind, Except.bind, h, pure, Except.pure]
  · have h : sbe.overflowAdd 32 x y = none := if_neg h32
    rw [createIntOrLong, if_neg h32]
    simp [sbe.numericCastInt, bind, Except.bind, h, sbe.addInt64s, h64, pure, Except.pure]

/-- Two int32s, including a sum that overflows int32: both engines return the exact sum, an int
where it fits one and a long otherwise. -/
theorem add2_numberInt_agrees (x y : Int) (hx : -2 ^ 31 ≤ x ∧ x < 2 ^ 31)
    (hy : -2 ^ 31 ≤ y ∧ y < 2 ^ 31) :
    sbe.add2 (.numberInt x) (.numberInt y) = ExpressionAdd.evaluate [.numberInt x, .numberInt y] := by
  rw [add2_numberInt hx hy, evaluate_numberInt hx hy]

/-- A date and an int, long or double, in either order: the builtin `doubleDoubleSum` makes the
same calls on a `DoubleDoubleSummation` as the classic loop, and reads the result the same way. -/
theorem add2_date_agrees (d : Int) (v : Operand) (hv : sbe.isNumber v = true)
    (hdec : ∀ m, v ≠ .numberDecimal m) :
    sbe.add2 (.date d) v = ExpressionAdd.evaluate [.date d, v] ∧
    sbe.add2 v (.date d) = ExpressionAdd.evaluate [v, .date d] := by
  cases v <;>
    simp_all [sbe.isNumber, sbe.numericTag?, sbe.add2, sbe.generateNullOrMissing,
      Operand.nullish, sbe.isDate, sbe.builtinDoubleDoubleSum, sbe.sweepTags,
      sbe.getWidestNumericalType, ExpressionAdd.evaluate, ExpressionAdd.sumOperands, bind,
      Except.bind, pure, Except.pure, sbe.addToSum, DoubleDoubleSummation.addInt] <;>
    constructor <;> split <;> rfl

theorem ExpressionAdd.sumOperands_nullish (t : ExpressionAdd.Totals) {v : Operand}
    (h : v.nullish = true) (vals : List Operand) :
    ExpressionAdd.sumOperands t (v :: vals) = .ok none := by
  cases v <;> simp_all [Operand.nullish, ExpressionAdd.sumOperands]

/-- A first operand that `$add` accepts leaves the loop running into the second. -/
theorem ExpressionAdd.sumOperands_pair_nullish {x y : Operand} (hx : ∀ n, x ≠ .other n)
    (hy : y.nullish = true) : ExpressionAdd.sumOperands {} [x, y] = .ok none := by
  -- a number or a date updates the totals and moves on; a nullish one stops the loop itself
  cases x <;> first
    | exact absurd rfl (hx _)
    | rfl
    | exact ExpressionAdd.sumOperands_nullish _ hy _

/-- A null, undefined or missing operand gives null in both engines: as the first operand
whatever the second is, and as the second after a first of a type `$add` accepts. -/
theorem add2_nullish_agrees (x y : Operand)
    (h : x.nullish = true ∨ (y.nullish = true ∧ ∀ n, x ≠ .other n)) :
    sbe.add2 x y = .ok .null ∧ ExpressionAdd.evaluate [x, y] = .ok .null := by
  have hsbe : sbe.add2 x y = .ok .null := by
    have hnull : (sbe.generateNullOrMissing x || sbe.generateNullOrMissing y) = true := by
      rcases h with hx | ⟨hy, -⟩ <;> simp [sbe.generateNullOrMissing, *]
    rw [sbe.add2, if_pos hnull]
  have hloop : ExpressionAdd.sumOperands {} [x, y] = .ok none := by
    rcases h with hx | ⟨hy, hx⟩
    · exact ExpressionAdd.sumOperands_nullish _ hx _
    · exact ExpressionAdd.sumOperands_pair_nullish hx hy
  refine ⟨hsbe, ?_⟩
  simp only [ExpressionAdd.evaluate, hloop, bind, Except.bind]
  rfl

/-! ## Where the engines part -/

/-- Three pairs of operands on which the slot-based engine's `$add` and the classic one return
different values: an int64 and a double, which the VM adds as doubles after rounding the int64
(`2 ^ 53 + 1 + 0.5` gives `2 ^ 53 + 2` in the classic engine, the double nearest the exact sum,
and `2 ^ 53` in the VM); two int64s whose sum overflows, a double in the classic engine and a
`Decimal128` in the VM; and a decimal and a double, which the classic engine converts at 34
digits and the VM at 15. The engines agree on two int32s, on a date with an int, long or
double, and when an operand is null or missing. -/
theorem sbe_add_differs_from_classic :
    (ExpressionAdd.evaluate [.numberLong (2 ^ 53 + 1), .numberDouble ⟨1, -1⟩] =
      .ok (.numberDouble ⟨2 ^ 52 + 1, 1⟩) ∧
    sbe.add2 (.numberLong (2 ^ 53 + 1)) (.numberDouble ⟨1, -1⟩) =
      .ok (.numberDouble ⟨2 ^ 52, 1⟩) ∧
    ExpressionAdd.evaluate [.numberLong kLongLongMax, .numberLong 1] =
      .ok (.numberDouble ⟨2 ^ 52, 11⟩) ∧
    sbe.add2 (.numberLong kLongLongMax) (.numberLong 1) = .ok (.numberDecimal ⟨2 ^ 63, 0⟩) ∧
    ExpressionAdd.evaluate [.numberDecimal ⟨1, 0⟩, .numberDouble ⟨3602879701896397, -55⟩] =
      .ok (.numberDecimal ⟨1100000000000000005551115123125783, -33⟩) ∧
    sbe.add2 (.numberDecimal ⟨1, 0⟩) (.numberDouble ⟨3602879701896397, -55⟩) =
      .ok (.numberDecimal ⟨1100000000000000, -15⟩)) ∧
    (∀ x y : Int, -2 ^ 31 ≤ x ∧ x < 2 ^ 31 → -2 ^ 31 ≤ y ∧ y < 2 ^ 31 →
      sbe.add2 (.numberInt x) (.numberInt y) =
        ExpressionAdd.evaluate [.numberInt x, .numberInt y]) ∧
    (∀ (d : Int) (v : Operand), sbe.isNumber v = true → (∀ m, v ≠ .numberDecimal m) →
      sbe.add2 (.date d) v = ExpressionAdd.evaluate [.date d, v] ∧
        sbe.add2 v (.date d) = ExpressionAdd.evaluate [v, .date d]) ∧
    ∀ x y : Operand, x.nullish = true ∨ (y.nullish = true ∧ ∀ n, x ≠ .other n) →
      sbe.add2 x y = .ok .null ∧ ExpressionAdd.evaluate [x, y] = .ok .null := by
  refine ⟨?_, add2_numberInt_agrees, add2_date_agrees, add2_nullish_agrees⟩
  decide +kernel

end mongo
