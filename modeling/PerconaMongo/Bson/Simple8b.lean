-- Simple8b, the integer packing of BSONColumn (simple8b.cpp). A builder buffers the appended
-- values and skips, packs them into 64-bit words (a 4-bit selector, then equal slots; selectors
-- 7 and 8 also store trailing zeros), counts repeats of the last value of a word for the RLE
-- selector 15, and hands each word to a write callback; an iterator reads the words back.
-- A value and a skip are told apart by the slot: a slot of all ones is a skip. The bit count
-- that keeps values off that pattern is taken of `value + 1`, which wraps for the all-ones
-- uint64_t, so that value is accepted and written as a skip.
import Mathlib

namespace mongo.simple8b

/-! ## Tables -/

/-- The four selector types, in the order of the source's arrays. -/
def kBaseSelector : Nat := 0
def kSevenSelector : Nat := 1
def kEightSelectorSmall : Nat := 2
def kEightSelectorLarge : Nat := 3

def kRleSelector : Nat := 15
def kMaxRleCount : Nat := 16
def kRleMultiplier : Nat := 120
def kBaseSelectorMask : Nat := 0xF
def kSelectorBits : Nat := 4
def kNibbleShiftSize : Nat := 4

def kMaxSelector : List Nat := [14, 9, 7, 13]
def kMinSelector : List Nat := [1, 1, 1, 8]
def kMaxDataBits : List Nat := [60, 56, 56, 56]
def kTrailingZeroBitSize : List Nat := [0, 4, 4, 5]
def kTrailingZerosMaxCount : List Nat := [0, 15, 60, 124]
def kTrailingZerosMask : List Nat := [0, 2 ^ 4 - 1, 2 ^ 4 - 1, 2 ^ 5 - 1]
def kTrailingZerosMultiplier : List Nat := [0, 1, kNibbleShiftSize, kNibbleShiftSize]

/-- Fifteen entries, of which the source initialises fourteen; the last is zero. -/
def kBaseSelectorToShiftSize : List Nat := [0, 0, 0, 0, 0, 0, 0, 4, 4, 0, 0, 0, 0, 0, 0]

def kSelectorToExtension : List (List Nat) :=
  [[0, 1, 1, 1, 1, 1, 1, 1, 1, 1, 1, 1, 1, 1],
   [0, 2, 2, 2, 2, 2, 2, 2, 3, 3, 3, 3, 3, 3]]

def kExtensionToBaseSelector : List (List Nat) :=
  [[0, 1, 2, 3, 4, 5, 6, 7, 8, 9, 10, 11, 12, 13, 14, 15],
   [7, 7, 7, 7, 7, 7, 7, 7, 7, 7, 7, 7, 7, 7, 7, 7],
   [8, 8, 8, 8, 8, 8, 8, 8, 8, 8, 8, 8, 8, 8, 8, 8],
   [8, 8, 8, 8, 8, 8, 8, 8, 8, 8, 8, 8, 8, 8, 8, 8]]

def kDecodeMask : List (List Nat) :=
  [[0, 1, 2 ^ 2 - 1, 2 ^ 3 - 1, 2 ^ 4 - 1, 2 ^ 5 - 1, 2 ^ 6 - 1, 2 ^ 7 - 1, 2 ^ 8 - 1,
     2 ^ 10 - 1, 2 ^ 12 - 1, 2 ^ 15 - 1, 2 ^ 20 - 1, 2 ^ 30 - 1, 2 ^ 60 - 1, 1],
   [0, 2 ^ 6 - 1, 2 ^ 7 - 1, 2 ^ 8 - 1, 2 ^ 9 - 1, 2 ^ 11 - 1, 2 ^ 14 - 1, 2 ^ 18 - 1,
     2 ^ 28 - 1, 2 ^ 56 - 1, 0, 0, 0, 0, 0, 0],
   [0, 2 ^ 8 - 1, 2 ^ 9 - 1, 2 ^ 11 - 1, 2 ^ 14 - 1, 2 ^ 18 - 1, 2 ^ 28 - 1, 2 ^ 56 - 1,
     0, 0, 0, 0, 0, 0, 0, 0],
   [0, 0, 0, 0, 0, 0, 0, 0, 2 ^ 9 - 1, 2 ^ 11 - 1, 2 ^ 14 - 1, 2 ^ 18 - 1, 2 ^ 28 - 1,
     2 ^ 56 - 1, 0, 0]]

def kBitsPerIntForSelector : List (List Nat) :=
  [[0, 1, 2, 3, 4, 5, 6, 7, 8, 10, 12, 15, 20, 30, 60, 0],
   [0, 2, 3, 4, 5, 7, 10, 14, 24, 52, 0, 0, 0, 0, 0, 0],
   [0, 4, 5, 7, 10, 14, 24, 52, 0, 0, 0, 0, 0, 0, 0, 0],
   [0, 0, 0, 0, 0, 0, 0, 0, 4, 6, 9, 13, 23, 51, 0, 0]]

def kIntsStoreForSelector : List (List Nat) :=
  [[0, 60, 30, 20, 15, 12, 10, 8, 7, 6, 5, 4, 3, 2, 1, 0],
   [0, 9, 8, 7, 6, 5, 4, 3, 2, 1, 0, 0, 0, 0, 0, 0],
   [0, 7, 6, 5, 4, 3, 2, 1, 0, 0, 0, 0, 0, 0, 0, 0],
   [0, 0, 0, 0, 0, 0, 0, 0, 6, 5, 4, 3, 2, 1, 0, 0]]

/-- `Simple8bBuilder::kMinDataBits`, the bit lengths of an empty word. -/
def kMinDataBits : List Nat := [1, 2, 4, 4]

def kNumOfSelectorTypes : Nat := 4

/-- `table[i][j]` of a two-level table. Every index the model reads is in range, so the
default of `getD` is never taken. -/
def get2 (table : List (List Nat)) (i j : Nat) : Nat := (table.getD i []).getD j 0

/-! ## Bit counts -/

/-- The template argument `T` of `Simple8bBuilder<T>` and `Simple8b<T>`. -/
inductive ValueType
  | uint64
  | uint128
deriving DecidableEq, Repr

def ValueType.width : ValueType → Nat
  | .uint64 => 64
  | .uint128 => 128

/-- `countLeadingZeros64` of platform/bits.h: 64 for zero. -/
def countLeadingZeros64 (num : Nat) : Nat := if num = 0 then 64 else 63 - Nat.log2 num

/-- `countLeadingZerosNonZero64` (`__builtin_clzll`). -/
def countLeadingZerosNonZero64 (num : Nat) : Nat := 63 - Nat.log2 num

/-- `countTrailingZerosNonZero64` (`__builtin_ctzll`): the lowest set bit. -/
def countTrailingZerosNonZero64 (num : Nat) : Nat :=
  ((List.range 64).find? fun i => num.testBit i).getD 64

/-- The uint64_t overload of `_countBitsWithoutLeadingZeros`: the bits of `value + 1`, in
uint64_t arithmetic, since a slot of all ones is a skip. -/
def _countBitsWithoutLeadingZeros64 (value : Nat) : Nat :=
  64 - countLeadingZeros64 ((value + 1) % 2 ^ 64)

/-- The uint64_t overload of `_countTrailingZerosWithZero`: one trailing zero for zero. -/
def _countTrailingZerosWithZero64 (value : Nat) : Nat :=
  if value = 0 then 1 else countTrailingZerosNonZero64 value

/-- `_countBitsWithoutLeadingZeros` at `T`. -/
def _countBitsWithoutLeadingZeros : ValueType → Nat → Nat
  | .uint64, value => _countBitsWithoutLeadingZeros64 value
  | .uint128, value =>
    let high := value / 2 ^ 64 % 2 ^ 64
    if high = 0 then _countBitsWithoutLeadingZeros64 (value % 2 ^ 64)
    else 128 - countLeadingZerosNonZero64 high

/-- `_countTrailingZerosWithZero` at `T`. -/
def _countTrailingZerosWithZero : ValueType → Nat → Nat
  | .uint64, value => _countTrailingZerosWithZero64 value
  | .uint128, value =>
    let low := value % 2 ^ 64
    if low = 0 then _countTrailingZerosWithZero64 (value / 2 ^ 64 % 2 ^ 64) + 64
    else _countTrailingZerosWithZero64 low

/-- A subtraction stored in a uint8_t. -/
def sub8 (a b : Nat) : Nat := (a + 256 - b) % 256

/-! ## The builder -/

/-- `Simple8bBuilder::PendingValue`: a value (`none` for a skip) with its bit count and its
stored trailing zeros under each selector type. -/
structure PendingValue where
  val : Option Nat
  bitCount : List Nat
  trailingZerosCount : List Nat
deriving DecidableEq, Repr

def PendingValue.isSkip (v : PendingValue) : Bool := v.val.isNone

/-- The pending value that `_appendSkip` pushes. -/
def skipValue : PendingValue := ⟨none, [0, 0, 0, 0], [0, 0, 0, 0]⟩

/-- The state of a `Simple8bBuilder<T>`, with the words it has handed to its write callback.
The defaults are the member initialisers. -/
structure Simple8bBuilder where
  rleCount : Nat := 0
  lastValueInPrevWord : PendingValue := ⟨some 0, [0, 0, 0, 0], [0, 0, 0, 0]⟩
  pendingValues : List PendingValue := []
  currMaxBitLen : List Nat := kMinDataBits
  lastValidExtensionType : Nat := 0
  isSelectorPossible : List Bool := [true, true, true, true]
  written : List Nat := []
deriving DecidableEq, Repr

/-- The first half of `_appendValue`: the pending value for `value` with its bit count under
each selector type, or `none` where the source returns false because no selector can hold it.
The three trailing-zero maxima differ, so the source's `else if` chain is three tests. -/
def pendingValueOf (T : ValueType) (value : Nat) : Option PendingValue :=
  let trailingZerosCount := _countTrailingZerosWithZero T value
  let bitCountWithoutLeadingZeros := _countBitsWithoutLeadingZeros T value
  let trailingZerosStoredInCountSeven :=
    min trailingZerosCount (kTrailingZerosMaxCount.getD kSevenSelector 0)
  let trailingZerosStoredInCountEightSmall :=
    min trailingZerosCount (kTrailingZerosMaxCount.getD kEightSelectorSmall 0) /
      kNibbleShiftSize * kNibbleShiftSize
  let trailingZerosStoredInCountEightLarge :=
    min trailingZerosCount (kTrailingZerosMaxCount.getD kEightSelectorLarge 0) /
      kNibbleShiftSize * kNibbleShiftSize
  -- a stored count of all ones would let the slot read as a skip: count one more bit
  let meaningfulValueBitsStoredWithSeven :=
    if trailingZerosCount = kTrailingZerosMaxCount.getD kSevenSelector 0 then
      _countBitsWithoutLeadingZeros T (value >>> trailingZerosCount)
    else sub8 bitCountWithoutLeadingZeros trailingZerosStoredInCountSeven
  let meaningfulValueBitsStoredWithEightSmall :=
    if trailingZerosCount = kTrailingZerosMaxCount.getD kEightSelectorSmall 0 then
      _countBitsWithoutLeadingZeros T (value >>> trailingZerosCount)
    else sub8 bitCountWithoutLeadingZeros trailingZerosStoredInCountEightSmall
  let meaningfulValueBitsStoredWithEightLarge :=
    if trailingZerosCount = kTrailingZerosMaxCount.getD kEightSelectorLarge 0 then
      _countBitsWithoutLeadingZeros T (value >>> trailingZerosCount)
    else sub8 bitCountWithoutLeadingZeros trailingZerosStoredInCountEightLarge
  if kMaxDataBits.getD kBaseSelector 0 < bitCountWithoutLeadingZeros ∧
      kMaxDataBits.getD kSevenSelector 0 < meaningfulValueBitsStoredWithSeven ∧
      kMaxDataBits.getD kEightSelectorSmall 0 < meaningfulValueBitsStoredWithEightSmall ∧
      kMaxDataBits.getD kEightSelectorLarge 0 < meaningfulValueBitsStoredWithEightLarge then
    none
  else
    some ⟨some value,
      [bitCountWithoutLeadingZeros, meaningfulValueBitsStoredWithSeven,
        meaningfulValueBitsStoredWithEightSmall, meaningfulValueBitsStoredWithEightLarge],
      [0, trailingZerosStoredInCountSeven, trailingZerosStoredInCountEightSmall,
        trailingZerosStoredInCountEightLarge]⟩

/-- `_getSelectorIndex`: the first selector of the type, from its least, whose count of
integers is at most `intsNeeded`; the type's greatest selector if none before it is. -/
def _getSelectorIndex (intsNeeded extensionType : Nat) : Nat :=
  let lo := kMinSelector.getD extensionType 0
  let hi := kMaxSelector.getD extensionType 0
  match (List.range' lo (hi - lo)).find? fun idx =>
      get2 kIntsStoreForSelector extensionType idx ≤ intsNeeded with
  | some idx => idx
  | none => hi

/-- `BaseSelectorEncodeFunctor`: the value itself. -/
def BaseSelectorEncodeFunctor (value : PendingValue) : Nat := value.val.getD 0 % 2 ^ 64

/-- `SevenSelectorEncodeFunctor`: the trailing zeros stored, then the value without them. -/
def SevenSelectorEncodeFunctor (T : ValueType) (value : PendingValue) : Nat :=
  let trailingZeros := value.trailingZerosCount.getD kSevenSelector 0
  trailingZeros |||
    ((value.val.getD 0 >>> trailingZeros) <<< kTrailingZeroBitSize.getD kSevenSelector 0) %
      2 ^ T.width % 2 ^ 64

/-- `EightSelectorEncodeFunctor<ExtensionType>`: the trailing zeros in nibbles, then the value
without them. -/
def EightSelectorEncodeFunctor (T : ValueType) (ExtensionType : Nat) (value : PendingValue) :
    Nat :=
  let trailingZeros := value.trailingZerosCount.getD ExtensionType 0 / kNibbleShiftSize
  trailingZeros |||
    ((value.val.getD 0 >>> (trailingZeros * kNibbleShiftSize)) <<<
      kTrailingZeroBitSize.getD ExtensionType 0) % 2 ^ T.width % 2 ^ 64

def EightSelectorSmallEncodeFunctor (T : ValueType) : PendingValue → Nat :=
  EightSelectorEncodeFunctor T kEightSelectorSmall

def EightSelectorLargeEncodeFunctor (T : ValueType) : PendingValue → Nat :=
  EightSelectorEncodeFunctor T kEightSelectorLarge

namespace Simple8bBuilder

/-- `_writeFn(word)`. -/
def write (b : Simple8bBuilder) (word : Nat) : Simple8bBuilder :=
  { b with written := b.written ++ [word] }

/-- `_updateSimple8bCurrentState`: each type's bit length grows to the value's. -/
def _updateSimple8bCurrentState (b : Simple8bBuilder) (val : PendingValue) : Simple8bBuilder :=
  { b with
    currMaxBitLen := (List.range kNumOfSelectorTypes).map
      (fun i => max (b.currMaxBitLen.getD i 0) (val.bitCount.getD i 0)) }

/-- `_doesIntegerFitInCurrentWordWithGivenSelectorType`: whether the pending values and one
more fit a word of the type; a miss marks the type impossible, a fit records it as the last
valid one. -/
def _doesIntegerFitInCurrentWordWithGivenSelectorType (b : Simple8bBuilder)
    (value : PendingValue) (extensionType : Nat) : Bool × Simple8bBuilder :=
  let numBitsWithValue :=
    (max (b.currMaxBitLen.getD extensionType 0) (value.bitCount.getD extensionType 0) +
      kTrailingZeroBitSize.getD extensionType 0) * (b.pendingValues.length + 1)
  if kMaxDataBits.getD extensionType 0 < numBitsWithValue then
    (false, { b with isSelectorPossible := b.isSelectorPossible.set extensionType false })
  else (true, { b with lastValidExtensionType := extensionType })

/-- The loop of `_doesIntegerFitInCurrentWord` over the types from `types` on. -/
def fitLoop (b : Simple8bBuilder) (value : PendingValue) :
    List Nat → Bool × Simple8bBuilder
  | [] => (false, b)
  | i :: types =>
    if b.isSelectorPossible.getD i false then
      match b._doesIntegerFitInCurrentWordWithGivenSelectorType value i with
      | (true, b') => (true, b')
      | (false, b') => b'.fitLoop value types
    else b.fitLoop value types

/-- `_doesIntegerFitInCurrentWord`: the types still possible, in order, stopping at the first
that fits. -/
def _doesIntegerFitInCurrentWord (b : Simple8bBuilder) (value : PendingValue) :
    Bool × Simple8bBuilder :=
  b.fitLoop value (List.range kNumOfSelectorTypes)

/-- `_encode`: the base selector, the slots of the first `integersCoded` pending values from
bit `kSelectorBits` (and the extension nibble) on, a skip as the slot's mask, and for the
extended types the selector index in the second nibble. The queue holds at least
`integersCoded` values at every call of the source; `take` makes that reading total. -/
def _encode (b : Simple8bBuilder) (func : PendingValue → Nat) (selectorIdx extensionType : Nat) :
    Nat :=
  let baseSelector := get2 kExtensionToBaseSelector extensionType selectorIdx
  let bitShiftExtension := kBaseSelectorToShiftSize.getD baseSelector 0
  let bitsPerInteger := get2 kBitsPerIntForSelector extensionType selectorIdx
  let integersCoded := get2 kIntsStoreForSelector extensionType selectorIdx
  let unshiftedMask := get2 kDecodeMask extensionType selectorIdx
  let bitsForTrailingZeros := kTrailingZeroBitSize.getD extensionType 0
  let encodedWord := (b.pendingValues.take integersCoded).zipIdx.foldl
    (fun encodedWord (value, i) =>
      let shiftSize :=
        (bitsPerInteger + bitsForTrailingZeros) * i + kSelectorBits + bitShiftExtension
      let currEncodedWord := if value.isSkip then unshiftedMask else func value
      encodedWord ||| (currEncodedWord <<< shiftSize) % 2 ^ 64)
    baseSelector
  if extensionType ≠ kBaseSelector then encodedWord ||| (selectorIdx <<< kSelectorBits) % 2 ^ 64
  else encodedWord

/-- `_encodeLargestPossibleWord`: encode the values of the smallest selector of the type that
leaves no slot unused, drop them from the queue and recompute the bit lengths of the rest. -/
def _encodeLargestPossibleWord (T : ValueType) (b : Simple8bBuilder) (extensionType : Nat) :
    Nat × Simple8bBuilder :=
  let selector := _getSelectorIndex b.pendingValues.length extensionType
  let integersCoded := get2 kIntsStoreForSelector extensionType selector
  let encodedWord :=
    if extensionType = kEightSelectorSmall then
      b._encode (EightSelectorSmallEncodeFunctor T) selector extensionType
    else if extensionType = kEightSelectorLarge then
      b._encode (EightSelectorLargeEncodeFunctor T) selector extensionType
    else if extensionType = kSevenSelector then
      b._encode (SevenSelectorEncodeFunctor T) selector extensionType
    else b._encode BaseSelectorEncodeFunctor selector extensionType
  let rest := b.pendingValues.drop integersCoded
  (encodedWord, rest.foldl _updateSimple8bCurrentState
    { b with pendingValues := rest, currMaxBitLen := kMinDataBits })

/-- `_pendingValues.push_back(value)` followed by `_updateSimple8bCurrentState(value)`. -/
def pushPending (b : Simple8bBuilder) (value : PendingValue) : Simple8bBuilder :=
  { b with pendingValues := b.pendingValues ++ [value] }._updateSimple8bCurrentState value

/-- The `do … while` loop of `_appendValue`: write words of the last valid type until the new
value fits. Each round codes at least one pending value, so the queue's length bounds the
rounds; `none` is the source running `_encode` on an empty queue, which is undefined. -/
def encodeUntilFits (T : ValueType) (value : PendingValue) :
    Nat → Simple8bBuilder → Option Simple8bBuilder
  | 0, _ => none
  | fuel + 1, b =>
    if b.pendingValues.isEmpty then none
    else
      let (word, b) := b._encodeLargestPossibleWord T b.lastValidExtensionType
      let b := { b with isSelectorPossible := [true, true, true, true] }.write word
      match b._doesIntegerFitInCurrentWord value with
      | (true, b) => some b
      | (false, b) => encodeUntilFits T value fuel b

/-- `_appendValue(value, tryRle)`: `false` for a value no selector holds; otherwise the value
joins the queue, after the words it does not fit beside, unless it repeats the last value of
those words and starts a run. `none` where the source's behaviour is undefined. -/
def _appendValue (T : ValueType) (b : Simple8bBuilder) (value : Nat) (tryRle : Bool) :
    Option (Bool × Simple8bBuilder) :=
  match pendingValueOf T value with
  | none => some (false, b)
  | some pendingValue =>
    match b._doesIntegerFitInCurrentWord pendingValue with
    | (true, b) => some (true, b.pushPending pendingValue)
    | (false, b) => do
      -- `_pendingValues.back()`, undefined on an empty queue
      let lastPendingValue ← b.pendingValues.getLast?
      let b ← encodeUntilFits T pendingValue b.pendingValues.length b
      if tryRle && b.pendingValues.isEmpty && lastPendingValue.val == some value then
        some (true, { b with rleCount := 1, lastValueInPrevWord := lastPendingValue })
      else some (true, b.pushPending pendingValue)

/-- `_appendSkip`: a skip takes one bit, so at most one word is written before it fits; when
that word empties the queue after a skip, the new skip starts a run instead. -/
def _appendSkip (T : ValueType) (b : Simple8bBuilder) : Simple8bBuilder :=
  match b.pendingValues.getLast? with
  | none => { b with pendingValues := b.pendingValues ++ [skipValue] }
  | some last =>
    let isLastValueSkip := last.isSkip
    let b := match b._doesIntegerFitInCurrentWord ⟨none, kMinDataBits, [0, 0, 0, 0]⟩ with
      | (true, b) => b
      | (false, b) =>
        let (word, b) := b._encodeLargestPossibleWord T b.lastValidExtensionType
        { b.write word with
          isSelectorPossible := [true, true, true, true],
          lastValidExtensionType := kBaseSelector }
    if b.pendingValues.isEmpty && isLastValueSkip then
      { b with rleCount := 1, lastValueInPrevWord := skipValue }
    else { b with pendingValues := b.pendingValues ++ [skipValue] }

/-- The RLE word for `count` runs of `kRleMultiplier`: selector 15, `count - 1` above it. -/
def createRleEncoding (count : Nat) : Nat := kRleSelector ||| ((count - 1) <<< kSelectorBits)

/-- The loop of `_appendRleEncoding`: words of `kMaxRleCount` while more remain, then the
rest. Each round lowers the count, so the count bounds the rounds. -/
def rleEncodings : Nat → Nat → List Nat
  | 0, count => [createRleEncoding count]
  | fuel + 1, count =>
    if kMaxRleCount < count then
      createRleEncoding kMaxRleCount :: rleEncodings fuel (count - kMaxRleCount)
    else [createRleEncoding count]

/-- `_appendRleEncoding`: the whole runs of `kRleMultiplier` as RLE words. The count of runs
is a uint8_t. -/
def _appendRleEncoding (b : Simple8bBuilder) : Simple8bBuilder :=
  let count := b.rleCount / kRleMultiplier % 256
  if 1 ≤ count then
    { b with
      written := b.written ++ rleEncodings count count, rleCount := b.rleCount % kRleMultiplier }
  else b

/-- The `while` loop of `_handleRleTermination`: append the repeated value (or skip) again,
once per count left. The body never raises the count and the loop lowers it, so the count
bounds the rounds. -/
def appendRleRemainder (T : ValueType) : Nat → Simple8bBuilder → Option Simple8bBuilder
  | 0, b => some b
  | fuel + 1, b =>
    if b.rleCount = 0 then some b
    else do
      let b ← if b.lastValueInPrevWord.isSkip then some (b._appendSkip T)
        else (b._appendValue T (b.lastValueInPrevWord.val.getD 0) false).map Prod.snd
      appendRleRemainder T fuel { b with rleCount := b.rleCount - 1 }

/-- `_handleRleTermination`: the RLE words, then the repeats they leave over. -/
def _handleRleTermination (T : ValueType) (b : Simple8bBuilder) : Option Simple8bBuilder :=
  if b.rleCount = 0 then some b
  else
    let b := b._appendRleEncoding
    appendRleRemainder T b.rleCount b

/-- `_rlePossible`. -/
def _rlePossible (b : Simple8bBuilder) : Bool := b.pendingValues.isEmpty || b.rleCount != 0

/-- `Simple8bBuilder::append`. -/
def append (T : ValueType) (b : Simple8bBuilder) (value : Nat) :
    Option (Bool × Simple8bBuilder) :=
  if b._rlePossible then
    if b.lastValueInPrevWord.val == some value then
      some (true, { b with rleCount := b.rleCount + 1 })
    else do
      let b ← b._handleRleTermination T
      b._appendValue T value true
  else b._appendValue T value true

/-- `Simple8bBuilder::skip`. -/
def skip (T : ValueType) (b : Simple8bBuilder) : Option Simple8bBuilder :=
  if b._rlePossible && b.lastValueInPrevWord.isSkip then
    some { b with rleCount := b.rleCount + 1 }
  else do
    let b ← b._handleRleTermination T
    some (b._appendSkip T)

/-- The `do … while` loop of `flush`: write words of the last valid type until the queue is
empty. -/
def flushPending (T : ValueType) : Nat → Simple8bBuilder → Simple8bBuilder
  | 0, b => b
  | fuel + 1, b =>
    if b.pendingValues.isEmpty then b
    else
      let (word, b) := b._encodeLargestPossibleWord T b.lastValidExtensionType
      flushPending T fuel (b.write word)

/-- `Simple8bBuilder::flush`. -/
def flush (T : ValueType) (b : Simple8bBuilder) : Option Simple8bBuilder := do
  let b ← b._handleRleTermination T
  match b.pendingValues.getLast? with
  | none => some b
  | some lastPendingValue =>
    let b := flushPending T b.pendingValues.length b
    some { b with rleCount := 0, lastValueInPrevWord := lastPendingValue }

end Simple8bBuilder

/-! ## The iterator -/

/-- `Simple8b<T>::Iterator`: the words from `_pos` to the end, and the decoding state of the
current word. -/
structure Iterator where
  pos : List Nat
  current : Nat := 0
  selector : Nat := 0
  extensionType : Nat := 0
  mask : Nat := 0
  countMask : Nat := 0
  countBits : Nat := 0
  countMultiplier : Nat := 0
  bitsPerValue : Nat := 0
  shift : Nat := 0
  rleRemaining : Nat := 0
  value : Option Nat := some 0
deriving DecidableEq, Repr

namespace Iterator

/-- `_rleCountInCurrent`. -/
def _rleCountInCurrent (selectorExtension : Nat) : Nat := (selectorExtension + 1) * kRleMultiplier

/-- `_loadValue`: the slot at `shift`; its mask is a skip, otherwise the value bits shifted
back over the stored trailing zeros. -/
def _loadValue (T : ValueType) (it : Iterator) : Iterator :=
  let shiftedMask := (it.mask <<< it.shift) % 2 ^ 64
  let value := (it.current &&& shiftedMask) >>> it.shift
  if value = it.mask then { it with value := none }
  else
    let trailingZeros := value &&& it.countMask
    let decoded :=
      (((value >>> it.countBits) % 2 ^ T.width) <<< (trailingZeros * it.countMultiplier)) %
        2 ^ T.width
    { it with value := some decoded }

/-- `_loadBlock`: read the selector of the word at `pos`. An RLE word keeps the value. -/
def _loadBlock (T : ValueType) (it : Iterator) : Iterator :=
  let current := it.pos.headD 0
  let selector := current &&& kBaseSelectorMask
  let selectorExtension := (current >>> kSelectorBits) &&& kBaseSelectorMask
  if selector = kRleSelector then
    { it with
      current := current, selector := selector, shift := 64 + 1,
      rleRemaining := _rleCountInCurrent selectorExtension - 1 }
  else
    let extended := selector = 7 ∨ selector = 8
    let extensionType :=
      if extended then get2 kSelectorToExtension (selector - 7) selectorExtension
      else kBaseSelector
    let selector := if extended ∧ extensionType ≠ kBaseSelector then selectorExtension
      else selector
    let extensionBits := if extended then 4 else 0
    let countBits := kTrailingZeroBitSize.getD extensionType 0
    _loadValue T { it with
      current := current, selector := selector, extensionType := extensionType,
      mask := get2 kDecodeMask extensionType selector,
      countMask := kTrailingZerosMask.getD extensionType 0,
      countBits := countBits,
      countMultiplier := kTrailingZerosMultiplier.getD extensionType 0,
      bitsPerValue := get2 kBitsPerIntForSelector extensionType selector + countBits,
      shift := kSelectorBits + extensionBits,
      rleRemaining := 0 }

/-- `advanceBlock`. -/
def advanceBlock (T : ValueType) (it : Iterator) : Iterator :=
  let pos := it.pos.tail
  if pos = [] then { it with pos := pos, rleRemaining := 0, shift := 0 }
  else _loadBlock T { it with pos := pos }

/-- `operator++`. -/
def next (T : ValueType) (it : Iterator) : Iterator :=
  if 0 < it.rleRemaining then { it with rleRemaining := it.rleRemaining - 1 }
  else
    let it := { it with shift := it.shift + it.bitsPerValue }
    if 64 < it.shift + it.bitsPerValue then advanceBlock T it
    else _loadValue T it

/-- `operator==` against `end()`: at the last word's end, with no run left. -/
def atEnd (it : Iterator) : Bool := it.pos.isEmpty && it.rleRemaining == 0 && it.shift == 0

/-- `Simple8b<T>::begin()` over the words of a buffer. -/
def begin (T : ValueType) (words : List Nat) : Iterator :=
  if words = [] then { pos := [] } else _loadBlock T { pos := words }

/-- The values of `for (it = begin(); it != end(); ++it)`, for at most `fuel` rounds. -/
def values (T : ValueType) : Nat → Iterator → List (Option Nat)
  | 0, _ => []
  | fuel + 1, it => if it.atEnd then [] else it.value :: values T fuel (next T it)

end Iterator

end mongo.simple8b
