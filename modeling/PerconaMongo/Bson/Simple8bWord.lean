-- The words of Simple8b read back. Every word that `_encodeLargestPossibleWord` writes, of
-- values whose bit counts fit the selector it picks, is read by the iterator as exactly the
-- values it takes off the queue. The bit counts keep a value's slot off the all-ones pattern of
-- a skip only while `value + 1` does not wrap: the all-ones uint64_t is written as a skip.
import PerconaMongo.Bson.Simple8b
import PerconaMongo.Lib.BitField

namespace mongo.simple8b

open bit_field

/-! ## Bit counts of a uint64_t -/

theorem _countBitsWithoutLeadingZeros64_eq {value : Nat} (h : value + 1 < 2 ^ 64) :
    _countBitsWithoutLeadingZeros64 value = Nat.log2 (value + 1) + 1 := by
  have hlog : Nat.log2 (value + 1) < 64 := (Nat.log2_lt (by omega)).2 h
  simp only [_countBitsWithoutLeadingZeros64, countLeadingZeros64, Nat.mod_eq_of_lt h,
    Nat.add_one_ne_zero, if_false]
  omega

theorem countBits64_le {value : Nat} (hv : value + 1 < 2 ^ 64) :
    _countBitsWithoutLeadingZeros64 value ≤ 64 := by
  rw [_countBitsWithoutLeadingZeros64_eq hv]
  have := (Nat.log2_lt (n := value + 1) (k := 64) (by omega)).2 hv
  omega

/-- The count the slot is sized by: `value + 1` fits it, so a value never fills its slot. -/
theorem lt_two_pow_countBits64 {value : Nat} (h : value + 1 < 2 ^ 64) :
    value + 1 < 2 ^ _countBitsWithoutLeadingZeros64 value := by
  rw [_countBitsWithoutLeadingZeros64_eq h]
  exact Nat.lt_log2_self

/-- The lowest set bit of a non-zero uint64_t: set, with every bit below it clear. -/
theorem countTrailingZerosNonZero64_spec {num : Nat} (h0 : num ≠ 0) (h : num < 2 ^ 64) :
    num.testBit (countTrailingZerosNonZero64 num) = true ∧
      ∀ i < countTrailingZerosNonZero64 num, num.testBit i = false := by
  obtain ⟨i, hi⟩ := Nat.exists_testBit_of_ne_zero h0
  have hi64 : i < 64 := by
    by_contra hge
    rw [Nat.testBit_lt_two_pow (lt_of_lt_of_le h (Nat.pow_le_pow_right (by omega) (by omega)))]
      at hi
    exact Bool.false_ne_true hi
  obtain ⟨t, ht⟩ : ∃ t, (List.range 64).find? (fun i => num.testBit i) = some t :=
    Option.isSome_iff_exists.mp (List.find?_isSome.mpr ⟨i, List.mem_range.mpr hi64, hi⟩)
  obtain ⟨hbit, k, hk, hkt, hbelow⟩ := List.find?_eq_some_iff_getElem.mp ht
  rw [List.getElem_range] at hkt
  subst hkt
  simp only [countTrailingZerosNonZero64, ht, Option.getD_some]
  refine ⟨hbit, fun j hj => ?_⟩
  simpa [List.getElem_range] using hbelow j hj

/-- The bits of a number below its lowest set bit are zero. -/
theorem two_pow_dvd_of_testBit_eq_false {num t : Nat} (h : ∀ i < t, num.testBit i = false) :
    2 ^ t ∣ num := by
  rw [Nat.dvd_iff_mod_eq_zero]
  apply Nat.eq_of_testBit_eq
  intro i
  rw [Nat.testBit_mod_two_pow, Nat.zero_testBit]
  by_cases hi : i < t
  · simp [hi, h i hi]
  · simp [hi]

/-- The trailing zeros the uint64_t overload counts: all of them, and at most 64. -/
theorem _countTrailingZerosWithZero64_spec {value : Nat} (h : value < 2 ^ 64) :
    2 ^ _countTrailingZerosWithZero64 value ∣ value ∧
      (∀ i < _countTrailingZerosWithZero64 value, value.testBit i = false) ∧
      _countTrailingZerosWithZero64 value ≤ 64 := by
  by_cases h0 : value = 0
  · subst h0
    simp [_countTrailingZerosWithZero64]
  · obtain ⟨-, hbelow⟩ := countTrailingZerosNonZero64_spec h0 h
    have hle : countTrailingZerosNonZero64 value ≤ 64 := by
      unfold countTrailingZerosNonZero64
      cases hf : (List.range 64).find? (fun i => value.testBit i) with
      | none => simp
      | some t => simpa using List.mem_range.mp (List.mem_of_find?_eq_some hf) |>.le
    simp only [_countTrailingZerosWithZero64, h0, if_false]
    exact ⟨two_pow_dvd_of_testBit_eq_false hbelow, hbelow, hle⟩

/-- A non-zero value has fewer trailing zeros than bits, so the stored zeros never exceed the
bit count and the uint8_t subtractions of `_appendValue` do not wrap. -/
theorem _countTrailingZerosWithZero64_le_countBits {value : Nat} (h : value + 1 < 2 ^ 64) :
    _countTrailingZerosWithZero64 value ≤ _countBitsWithoutLeadingZeros64 value := by
  rw [_countBitsWithoutLeadingZeros64_eq h]
  by_cases h0 : value = 0
  · subst h0
    simp [_countTrailingZerosWithZero64]
  · obtain ⟨hbit, -⟩ := countTrailingZerosNonZero64_spec h0 (by omega)
    have hge := Nat.ge_two_pow_of_testBit hbit
    have hlt : value + 1 < 2 ^ (Nat.log2 (value + 1) + 1) := Nat.lt_log2_self
    have hpow : countTrailingZerosNonZero64 value < Nat.log2 (value + 1) + 1 :=
      (Nat.pow_lt_pow_iff_right (by omega)).mp
        (lt_of_le_of_lt hge (lt_trans (Nat.lt_succ_self _) hlt))
    simp only [_countTrailingZerosWithZero64, h0, if_false]
    omega

/-! ## The slot of a pending uint64_t -/

/-- The stored trailing zeros of type `e` as its slot holds them: in nibbles for the two eight
selectors. -/
def zerosField (e : Nat) (pv : PendingValue) : Nat :=
  if e = kEightSelectorSmall ∨ e = kEightSelectorLarge then
    pv.trailingZerosCount.getD e 0 / kNibbleShiftSize
  else pv.trailingZerosCount.getD e 0

/-- The trailing zeros that the slot of type `e` stands for. -/
def storedZeros (e : Nat) (pv : PendingValue) : Nat :=
  zerosField e pv * kTrailingZerosMultiplier.getD e 0

/-- What a slot of type `e` with `bitsPerInt` value bits needs of the value it codes: the zeros
it drops are zeros, what is left fits, and a full count of zeros leaves the value bits short
of all ones, which with it would be the pattern of a skip. -/
structure SlotFits (e bitsPerInt value : Nat) (pv : PendingValue) : Prop where
  field_lt : zerosField e pv < 2 ^ kTrailingZeroBitSize.getD e 0
  dvd : 2 ^ storedZeros e pv ∣ value
  quot_lt : value / 2 ^ storedZeros e pv < 2 ^ bitsPerInt
  quot_ne : zerosField e pv = 2 ^ kTrailingZeroBitSize.getD e 0 - 1 →
    value / 2 ^ storedZeros e pv ≠ 2 ^ bitsPerInt - 1

theorem sub8_eq {a b : Nat} (hb : b ≤ a) (ha : a < 256) : sub8 a b = a - b := by
  unfold sub8
  omega

/-- Dropping `s` zeros of a value below `2 ^ bits` leaves it below `2 ^ (bits - s)`. -/
theorem div_two_pow_lt {value bits s : Nat} (h : value < 2 ^ bits) (hs : s ≤ bits) :
    value / 2 ^ s < 2 ^ (bits - s) := by
  rw [Nat.div_lt_iff_lt_mul (Nat.two_pow_pos _), ← Nat.pow_add, Nat.sub_add_cancel hs]
  exact h

/-- Above a clear bit the value bits are even, so never all ones. -/
theorem div_two_pow_ne_of_testBit {value s bitsPerInt : Nat} (h : value.testBit s = false)
    (hbits : 1 ≤ bitsPerInt) : value / 2 ^ s ≠ 2 ^ bitsPerInt - 1 := by
  intro heq
  have hodd : (2 ^ bitsPerInt - 1).testBit 0 = true := by
    rw [Nat.testBit_two_pow_sub_one]; simp; omega
  rw [← heq, Nat.testBit_div_two_pow, Nat.zero_add, h] at hodd
  exact Bool.false_ne_true hodd

/-- When every trailing zero is stored, the value bits are counted again with one bit more,
as for the base selector, so they are short of all ones. -/
theorem div_two_pow_of_recount {value s bitsPerInt : Nat} (hv : value + 1 < 2 ^ 64)
    (hb : _countBitsWithoutLeadingZeros64 (value >>> s) ≤ bitsPerInt) :
    value / 2 ^ s < 2 ^ bitsPerInt ∧ value / 2 ^ s ≠ 2 ^ bitsPerInt - 1 := by
  have hq : value >>> s + 1 < 2 ^ 64 := lt_of_le_of_lt (by
    rw [Nat.shiftRight_eq_div_pow]; exact Nat.add_le_add_right (Nat.div_le_self _ _) 1) hv
  have hlt := lt_of_lt_of_le (lt_two_pow_countBits64 hq) (Nat.pow_le_pow_right (by omega) hb)
  rw [Nat.shiftRight_eq_div_pow] at hlt
  omega

/-- What `_appendValue` records of a uint64_t, type by type. -/
theorem pendingValueOf_uint64 {value : Nat} {pv : PendingValue}
    (h : pendingValueOf .uint64 value = some pv) :
    pv.val = some value ∧
      zerosField kBaseSelector pv = 0 ∧
      zerosField kSevenSelector pv = min (_countTrailingZerosWithZero64 value) 15 ∧
      zerosField kEightSelectorSmall pv = min (_countTrailingZerosWithZero64 value) 60 / 4 ∧
      zerosField kEightSelectorLarge pv = min (_countTrailingZerosWithZero64 value) 124 / 4 ∧
      pv.bitCount.getD kBaseSelector 0 = _countBitsWithoutLeadingZeros64 value ∧
      pv.bitCount.getD kSevenSelector 0 =
        (if _countTrailingZerosWithZero64 value = 15 then
          _countBitsWithoutLeadingZeros64 (value >>> _countTrailingZerosWithZero64 value)
        else sub8 (_countBitsWithoutLeadingZeros64 value)
          (min (_countTrailingZerosWithZero64 value) 15)) ∧
      pv.bitCount.getD kEightSelectorSmall 0 =
        (if _countTrailingZerosWithZero64 value = 60 then
          _countBitsWithoutLeadingZeros64 (value >>> _countTrailingZerosWithZero64 value)
        else sub8 (_countBitsWithoutLeadingZeros64 value)
          (min (_countTrailingZerosWithZero64 value) 60 / 4 * 4)) ∧
      pv.bitCount.getD kEightSelectorLarge 0 =
        (if _countTrailingZerosWithZero64 value = 124 then
          _countBitsWithoutLeadingZeros64 (value >>> _countTrailingZerosWithZero64 value)
        else sub8 (_countBitsWithoutLeadingZeros64 value)
          (min (_countTrailingZerosWithZero64 value) 124 / 4 * 4)) := by
  obtain ⟨-, h⟩ := Option.ite_none_left_eq_some.mp h
  cases h
  simp [zerosField, kBaseSelector, kSevenSelector, kEightSelectorSmall, kEightSelectorLarge,
    kTrailingZerosMaxCount, kNibbleShiftSize, _countTrailingZerosWithZero,
    _countBitsWithoutLeadingZeros]
section SlotFits

variable {value bitsPerInt : Nat} {pv : PendingValue} (hv : value + 1 < 2 ^ 64)
  (h : pendingValueOf .uint64 value = some pv)
include hv h

theorem slotFits_base (hb : pv.bitCount.getD kBaseSelector 0 ≤ bitsPerInt) :
    SlotFits kBaseSelector bitsPerInt value pv := by
  obtain ⟨-, hf, -, -, -, hbc, -⟩ := pendingValueOf_uint64 h
  have hstored : storedZeros kBaseSelector pv = 0 := by rw [storedZeros, hf, Nat.zero_mul]
  have hlt := lt_of_lt_of_le (lt_two_pow_countBits64 hv)
    (Nat.pow_le_pow_right (by omega) (hbc ▸ hb))
  refine ⟨?_, ?_, ?_, ?_⟩
  · rw [hf]; exact Nat.two_pow_pos _
  · simp [hstored]
  · rw [hstored, Nat.pow_zero, Nat.div_one]
    omega
  · intro _
    rw [hstored, Nat.pow_zero, Nat.div_one]
    omega

theorem slotFits_seven (hbits : 1 ≤ bitsPerInt)
    (hb : pv.bitCount.getD kSevenSelector 0 ≤ bitsPerInt) :
    SlotFits kSevenSelector bitsPerInt value pv := by
  obtain ⟨-, -, hf, -, -, -, hbc, -⟩ := pendingValueOf_uint64 h
  obtain ⟨hdvd, hbelow, -⟩ := _countTrailingZerosWithZero64_spec (show value < 2 ^ 64 by omega)
  have hle := _countTrailingZerosWithZero64_le_countBits hv
  have hlt : value < 2 ^ _countBitsWithoutLeadingZeros64 value := by
    have := lt_two_pow_countBits64 hv; omega
  have h64 := countBits64_le hv
  have hstored : storedZeros kSevenSelector pv = min (_countTrailingZerosWithZero64 value) 15 := by
    rw [storedZeros, hf]; simp [kTrailingZerosMultiplier, kSevenSelector]
  rw [hbc] at hb
  have hfield : zerosField kSevenSelector pv < 2 ^ kTrailingZeroBitSize.getD kSevenSelector 0 := by
    rw [hf]; simp [kTrailingZeroBitSize, kSevenSelector]
  refine ⟨hfield, ?_, ?_, ?_⟩ <;> rw [hstored]
  · exact (Nat.pow_dvd_pow 2 (min_le_left _ _)).trans hdvd
  · by_cases h15 : _countTrailingZerosWithZero64 value = 15
    · rw [if_pos h15, h15] at hb
      rw [h15]
      exact (div_two_pow_of_recount hv hb).1
    · rw [if_neg h15, sub8_eq (by omega) (by omega)] at hb
      exact lt_of_lt_of_le (div_two_pow_lt hlt (by omega)) (Nat.pow_le_pow_right (by omega) hb)
  · intro hfull
    rw [hf] at hfull
    simp only [kTrailingZeroBitSize, kSevenSelector, List.getD_cons_succ,
      List.getD_cons_zero] at hfull
    by_cases h15 : _countTrailingZerosWithZero64 value = 15
    · rw [if_pos h15, h15] at hb
      rw [h15]
      exact (div_two_pow_of_recount hv hb).2
    · -- more zeros than the field holds: the value bits start with a zero
      rw [show min (_countTrailingZerosWithZero64 value) 15 = 15 by omega]
      exact div_two_pow_ne_of_testBit (hbelow 15 (by omega)) hbits

theorem slotFits_eightSmall (hbits : 1 ≤ bitsPerInt)
    (hb : pv.bitCount.getD kEightSelectorSmall 0 ≤ bitsPerInt) :
    SlotFits kEightSelectorSmall bitsPerInt value pv := by
  obtain ⟨-, -, -, hf, -, -, -, hbc, -⟩ := pendingValueOf_uint64 h
  obtain ⟨hdvd, hbelow, -⟩ := _countTrailingZerosWithZero64_spec (show value < 2 ^ 64 by omega)
  have hle := _countTrailingZerosWithZero64_le_countBits hv
  have hlt : value < 2 ^ _countBitsWithoutLeadingZeros64 value := by
    have := lt_two_pow_countBits64 hv; omega
  have h64 := countBits64_le hv
  have hstored :
      storedZeros kEightSelectorSmall pv = min (_countTrailingZerosWithZero64 value) 60 / 4 * 4 := by
    rw [storedZeros, hf]; simp [kTrailingZerosMultiplier, kEightSelectorSmall, kNibbleShiftSize]
  rw [hbc] at hb
  have hfield :
      zerosField kEightSelectorSmall pv < 2 ^ kTrailingZeroBitSize.getD kEightSelectorSmall 0 := by
    rw [hf]; simp [kTrailingZeroBitSize, kEightSelectorSmall]; omega
  refine ⟨hfield, ?_, ?_, ?_⟩ <;> rw [hstored]
  · exact (Nat.pow_dvd_pow 2 (by omega)).trans hdvd
  · by_cases h60 : _countTrailingZerosWithZero64 value = 60
    · rw [if_pos h60, h60] at hb
      rw [h60]
      exact (div_two_pow_of_recount hv hb).1
    · rw [if_neg h60, sub8_eq (by omega) (by omega)] at hb
      exact lt_of_lt_of_le (div_two_pow_lt hlt (by omega)) (Nat.pow_le_pow_right (by omega) hb)
  · intro hfull
    rw [hf] at hfull
    simp only [kTrailingZeroBitSize, kEightSelectorSmall, List.getD_cons_succ,
      List.getD_cons_zero] at hfull
    by_cases h60 : _countTrailingZerosWithZero64 value = 60
    · rw [if_pos h60, h60] at hb
      rw [h60]
      exact (div_two_pow_of_recount hv hb).2
    · rw [show min (_countTrailingZerosWithZero64 value) 60 / 4 * 4 = 60 by omega]
      exact div_two_pow_ne_of_testBit (hbelow 60 (by omega)) hbits

theorem slotFits_eightLarge (hb : pv.bitCount.getD kEightSelectorLarge 0 ≤ bitsPerInt) :
    SlotFits kEightSelectorLarge bitsPerInt value pv := by
  obtain ⟨-, -, -, -, hf, -, -, -, hbc⟩ := pendingValueOf_uint64 h
  obtain ⟨hdvd, -, h64tz⟩ := _countTrailingZerosWithZero64_spec (show value < 2 ^ 64 by omega)
  have hle := _countTrailingZerosWithZero64_le_countBits hv
  have hlt : value < 2 ^ _countBitsWithoutLeadingZeros64 value := by
    have := lt_two_pow_countBits64 hv; omega
  have h64 := countBits64_le hv
  have hstored :
      storedZeros kEightSelectorLarge pv = min (_countTrailingZerosWithZero64 value) 124 / 4 * 4 := by
    rw [storedZeros, hf]; simp [kTrailingZerosMultiplier, kEightSelectorLarge, kNibbleShiftSize]
  -- a uint64_t has at most 64 trailing zeros, never the 124 that fill the five-bit field
  rw [hbc, if_neg (by omega), sub8_eq (by omega) (by omega)] at hb
  have hfield : zerosField kEightSelectorLarge pv < 2 ^ kTrailingZeroBitSize.getD kEightSelectorLarge 0 - 1 := by
    rw [hf]; simp [kTrailingZeroBitSize, kEightSelectorLarge]; omega
  refine ⟨by omega, ?_, ?_, fun hfull => absurd hfull (by omega)⟩ <;> rw [hstored]
  · exact (Nat.pow_dvd_pow 2 (by omega)).trans hdvd
  · exact lt_of_lt_of_le (div_two_pow_lt hlt (by omega)) (Nat.pow_le_pow_right (by omega) hb)

/-- The slot contract at every selector type. -/
theorem slotFits_of_pendingValueOf {e : Nat} (he : e < kNumOfSelectorTypes)
    (hbits : 1 ≤ bitsPerInt) (hb : pv.bitCount.getD e 0 ≤ bitsPerInt) :
    SlotFits e bitsPerInt value pv := by
  rcases (by simp only [kNumOfSelectorTypes] at he; omega : e = 0 ∨ e = 1 ∨ e = 2 ∨ e = 3) with
    rfl | rfl | rfl | rfl
  · exact slotFits_base hv h hb
  · exact slotFits_seven hv h hbits hb
  · exact slotFits_eightSmall hv h hbits hb
  · exact slotFits_eightLarge hv h hb

end SlotFits

/-! ## The selector tables -/

/-- A selector of type `e` that `_getSelectorIndex` can return. -/
def Valid (e sel : Nat) : Prop :=
  e < kNumOfSelectorTypes ∧ kMinSelector.getD e 0 ≤ sel ∧ sel ≤ kMaxSelector.getD e 0

instance (e sel : Nat) : Decidable (Valid e sel) := inferInstanceAs (Decidable (_ ∧ _ ∧ _))

/-- The width of a slot: the value bits and the trailing-zero bits. -/
def slotWidth (e sel : Nat) : Nat :=
  get2 kBitsPerIntForSelector e sel + kTrailingZeroBitSize.getD e 0

/-- Where the first slot starts: after the selector, and after the extension nibble for the
base selectors 7 and 8. -/
def slotOffset (e sel : Nat) : Nat :=
  kSelectorBits + kBaseSelectorToShiftSize.getD (get2 kExtensionToBaseSelector e sel) 0

/-- The bits below the first slot: the base selector, and the selector index above it for an
extended type. -/
def wordHeader (e sel : Nat) : Nat :=
  get2 kExtensionToBaseSelector e sel + if e ≠ kBaseSelector then 2 ^ kSelectorBits * sel else 0

/-- The slots of a selector fill its word: they fit, and one more would not. -/
theorem valid_tables : ∀ e < kNumOfSelectorTypes, ∀ sel < 16, Valid e sel →
    1 ≤ get2 kBitsPerIntForSelector e sel ∧
    slotWidth e sel ≤ 60 ∧
    get2 kDecodeMask e sel = 2 ^ slotWidth e sel - 1 ∧
    1 ≤ get2 kIntsStoreForSelector e sel ∧
    slotOffset e sel + slotWidth e sel * get2 kIntsStoreForSelector e sel ≤ 64 ∧
    64 < slotOffset e sel + slotWidth e sel * (get2 kIntsStoreForSelector e sel + 1) ∧
    wordHeader e sel < 2 ^ slotOffset e sel := by
  decide

/-- The header tells the iterator the type and the selector back: the base selector is in the
low nibble, and it is never the RLE selector. -/
theorem valid_header_base : ∀ e < kNumOfSelectorTypes, ∀ sel < 16, Valid e sel →
    get2 kExtensionToBaseSelector e sel ≠ kRleSelector ∧
    wordHeader e sel % 16 = get2 kExtensionToBaseSelector e sel := by
  decide

set_option synthInstance.maxSize 1024 in
/-- Under base selector 7 or 8 the second nibble names the type, and for an extended type the
selector. -/
theorem valid_header_extended : ∀ e < kNumOfSelectorTypes, ∀ sel < 16, Valid e sel →
    (get2 kExtensionToBaseSelector e sel = 7 ∨ get2 kExtensionToBaseSelector e sel = 8) →
      slotOffset e sel = kSelectorBits + 4 ∧
      get2 kSelectorToExtension (get2 kExtensionToBaseSelector e sel - 7)
        (wordHeader e sel / 16 % 16) = e ∧
      (e ≠ kBaseSelector → wordHeader e sel / 16 % 16 = sel) ∧
      (e = kBaseSelector → get2 kExtensionToBaseSelector e sel = sel) := by
  decide

set_option synthInstance.maxSize 1024 in
/-- Any other base selector is a selector of the base type, with its slots from bit 4. -/
theorem valid_header_plain : ∀ e < kNumOfSelectorTypes, ∀ sel < 16, Valid e sel →
    ¬(get2 kExtensionToBaseSelector e sel = 7 ∨ get2 kExtensionToBaseSelector e sel = 8) →
      slotOffset e sel = kSelectorBits ∧ e = kBaseSelector ∧
      get2 kExtensionToBaseSelector e sel = sel := by
  decide

theorem kTrailingZerosMask_eq : ∀ e < kNumOfSelectorTypes,
    kTrailingZerosMask.getD e 0 = 2 ^ kTrailingZeroBitSize.getD e 0 - 1 := by
  decide

theorem Valid.lt {e sel : Nat} (h : Valid e sel) : e < kNumOfSelectorTypes ∧ sel < 16 := by
  obtain ⟨he, -, hsel⟩ := h
  have hmax : ∀ e < kNumOfSelectorTypes, kMaxSelector.getD e 0 ≤ 14 := by decide
  exact ⟨he, by have := hmax e he; omega⟩

/-- `_getSelectorIndex` of a non-empty queue: a selector of the type whose slots the queue
fills. -/
theorem _getSelectorIndex_spec {intsNeeded e : Nat} (he : e < kNumOfSelectorTypes)
    (hn : 1 ≤ intsNeeded) :
    Valid e (_getSelectorIndex intsNeeded e) ∧
      get2 kIntsStoreForSelector e (_getSelectorIndex intsNeeded e) ≤ intsNeeded := by
  have hlast : ∀ e < kNumOfSelectorTypes,
      kMinSelector.getD e 0 ≤ kMaxSelector.getD e 0 ∧
        get2 kIntsStoreForSelector e (kMaxSelector.getD e 0) = 1 := by decide
  obtain ⟨hle, hone⟩ := hlast e he
  unfold _getSelectorIndex
  dsimp only
  split
  · rename_i idx hfind
    obtain ⟨i, hi, rfl⟩ := List.mem_range'.mp (List.mem_of_find?_eq_some hfind)
    exact ⟨⟨he, by omega, by omega⟩, by simpa using List.find?_some hfind⟩
  · exact ⟨⟨he, hle, le_refl _⟩, by omega⟩

/-! ## The iterator over the slots of a word -/

namespace Iterator

/-- The iterator at slot `j` of a word of type `e` and selector `sel`, as `_loadBlock` sets it
up and `operator++` moves it, before `_loadValue` reads the slot. -/
def slotState (pos : List Nat) (word e sel j : Nat) (value : Option Nat) : Iterator :=
  { pos := pos, current := word, selector := sel, extensionType := e,
    mask := get2 kDecodeMask e sel,
    countMask := kTrailingZerosMask.getD e 0,
    countBits := kTrailingZeroBitSize.getD e 0,
    countMultiplier := kTrailingZerosMultiplier.getD e 0,
    bitsPerValue := slotWidth e sel,
    shift := slotOffset e sel + slotWidth e sel * j,
    rleRemaining := 0, value := value }

/-- What `_loadValue` makes of a slot of a word of type `e` and selector `sel`. -/
def decodeSlot (T : ValueType) (e sel slot : Nat) : Option Nat :=
  if slot = get2 kDecodeMask e sel then none
  else some ((((slot >>> kTrailingZeroBitSize.getD e 0) % 2 ^ T.width) <<<
    ((slot &&& kTrailingZerosMask.getD e 0) * kTrailingZerosMultiplier.getD e 0)) % 2 ^ T.width)

/-- The slot at `j`: the `slotWidth` bits from its shift. -/
def slotAt (word e sel j : Nat) : Nat :=
  word / 2 ^ (slotOffset e sel + slotWidth e sel * j) % 2 ^ slotWidth e sel

theorem next_slotState {T : ValueType} {pos : List Nat} {word e sel j : Nat} (value : Option Nat) :
    next T (slotState pos word e sel j value) =
      if 64 < slotOffset e sel + slotWidth e sel * (j + 1) + slotWidth e sel then
        advanceBlock T (slotState pos word e sel (j + 1) value)
      else _loadValue T (slotState pos word e sel (j + 1) value) := by
  have hshift : slotOffset e sel + slotWidth e sel * j + slotWidth e sel =
      slotOffset e sel + slotWidth e sel * (j + 1) := by rw [Nat.mul_succ, Nat.add_assoc]
  simp only [next, slotState, Nat.lt_irrefl, if_false, hshift]

section Slots

variable {T : ValueType} {pos : List Nat} {word e sel : Nat} (hv : Valid e sel)
include hv

theorem _loadValue_slotState {j : Nat} (value : Option Nat)
    (hj : j < get2 kIntsStoreForSelector e sel) :
    _loadValue T (slotState pos word e sel j value) =
      slotState pos word e sel j (decodeSlot T e sel (slotAt word e sel j)) := by
  obtain ⟨-, -, hmask, -, hfit, -, -⟩ := valid_tables e hv.lt.1 sel hv.lt.2 hv
  have hshift : slotOffset e sel + slotWidth e sel * j + slotWidth e sel ≤ 64 := by
    have := Nat.mul_le_mul_left (slotWidth e sel) (show j + 1 ≤ get2 kIntsStoreForSelector e sel by omega)
    rw [Nat.mul_succ] at this
    omega
  -- the mask moved to the slot stays inside the word
  have hmod : (2 ^ slotWidth e sel - 1) <<< (slotOffset e sel + slotWidth e sel * j) % 2 ^ 64 =
      (2 ^ slotWidth e sel - 1) <<< (slotOffset e sel + slotWidth e sel * j) := by
    apply Nat.mod_eq_of_lt
    rw [Nat.shiftLeft_eq]
    calc (2 ^ slotWidth e sel - 1) * 2 ^ (slotOffset e sel + slotWidth e sel * j)
        < 2 ^ slotWidth e sel * 2 ^ (slotOffset e sel + slotWidth e sel * j) :=
          Nat.mul_lt_mul_of_pos_right (Nat.sub_lt (Nat.two_pow_pos _) one_pos) (Nat.two_pow_pos _)
      _ ≤ 2 ^ 64 := by rw [← Nat.pow_add]; exact Nat.pow_le_pow_right (by omega) (by omega)
  simp only [_loadValue, slotState, hmask, hmod, bit_field.and_shiftLeft_shiftRight, slotAt,
    decodeSlot]
  split <;> rfl

/-- `_loadBlock` reads the type and the selector of a word back from its header and sets up the
iterator at the first slot. -/
theorem _loadBlock_word {rest : List Nat}
    (hw : word % 2 ^ slotOffset e sel = wordHeader e sel) :
    _loadBlock T { pos := word :: rest } =
      _loadValue T (slotState (word :: rest) word e sel 0 (some 0)) := by
  obtain ⟨he, hsel⟩ := hv.lt
  obtain ⟨hrle, hlow⟩ := valid_header_base e he sel hsel hv
  have hoff : kSelectorBits ≤ slotOffset e sel := Nat.le_add_right _ _
  -- the selector nibble is the header's: the slots start at bit 4 or above
  have hsel16 : word &&& kBaseSelectorMask = get2 kExtensionToBaseSelector e sel := by
    rw [show kBaseSelectorMask = 2 ^ 4 - 1 from rfl, Nat.and_two_pow_sub_one_eq_mod,
      ← Nat.mod_mod_of_dvd word (show 2 ^ 4 ∣ 2 ^ slotOffset e sel from Nat.pow_dvd_pow 2 hoff),
      hw]
    exact hlow
  have hnib : (word >>> kSelectorBits) &&& kBaseSelectorMask = word / 16 % 16 := by
    rw [show kBaseSelectorMask = 2 ^ 4 - 1 from rfl, Nat.and_two_pow_sub_one_eq_mod,
      Nat.shiftRight_eq_div_pow]
    rfl
  unfold _loadBlock
  simp only [List.headD_cons, hsel16, hnib, if_neg hrle]
  congr 1
  by_cases hext : get2 kExtensionToBaseSelector e sel = 7 ∨ get2 kExtensionToBaseSelector e sel = 8
  · obtain ⟨hoff8, hex, hsel1, hsel0⟩ := valid_header_extended e he sel hsel hv hext
    -- the extension nibble is the header's too: the slots start at bit 8
    have hnib' : word / 16 % 16 = wordHeader e sel / 16 % 16 := by
      rw [hoff8] at hw
      rw [← hw, show (2 : Nat) ^ (kSelectorBits + 4) = 16 * 16 from rfl,
        Nat.mod_mul_right_div_self, Nat.mod_mod]
    have hselector : (if e ≠ kBaseSelector then wordHeader e sel / 16 % 16
        else get2 kExtensionToBaseSelector e sel) = sel := by
      by_cases he0 : e = kBaseSelector
      · rw [if_neg (not_not.mpr he0), hsel0 he0]
      · rw [if_pos he0, hsel1 he0]
    simp only [hext, if_true, true_and, hnib', hex, hselector, slotState, slotWidth, hoff8,
      Nat.mul_zero, Nat.add_zero]
  · obtain ⟨hoff4, he0, hbase⟩ := valid_header_plain e he sel hsel hv hext
    simp only [hext, if_false, false_and]
    subst he0
    simp only [hbase, slotState, slotWidth, hoff4, Nat.mul_zero, Nat.add_zero]

/-- From slot `j` on, the iterator reads each slot of the word in turn, and after the last one
moves to the next word. -/
theorem values_slotState {rest : List Nat} (fuel k : Nat) :
    ∀ j (value : Option Nat), j + k + 1 = get2 kIntsStoreForSelector e sel →
      values T (fuel + k + 1) (_loadValue T (slotState (word :: rest) word e sel j value)) =
        ((List.range' j (k + 1)).map fun i => decodeSlot T e sel (slotAt word e sel i)) ++
          values T fuel (advanceBlock T (slotState (word :: rest) word e sel (j + k + 1)
            (decodeSlot T e sel (slotAt word e sel (j + k))))) := by
  obtain ⟨-, -, -, -, hfit, hfull, -⟩ := valid_tables e hv.lt.1 sel hv.lt.2 hv
  -- one slot per round; the induction is on the slots left after slot `j`
  induction k with
  | zero =>
    intro j value hj
    have hlast : 64 < slotOffset e sel + slotWidth e sel * (j + 1) + slotWidth e sel := by
      rw [Nat.add_assoc, ← Nat.mul_add_one,
        show j + 1 + 1 = get2 kIntsStoreForSelector e sel + 1 by omega]
      exact hfull
    rw [_loadValue_slotState hv value (by omega), values.eq_2, next_slotState, if_pos hlast]
    simp [atEnd, slotState]
  | succ k ih =>
    intro j value hj
    have hmore : ¬64 < slotOffset e sel + slotWidth e sel * (j + 1) + slotWidth e sel := by
      have := Nat.mul_le_mul_left (slotWidth e sel)
        (show j + 1 + 1 ≤ get2 kIntsStoreForSelector e sel by omega)
      rw [Nat.add_assoc, ← Nat.mul_add_one]
      omega
    rw [_loadValue_slotState hv value (by omega),
      show fuel + (k + 1) + 1 = fuel + k + 1 + 1 by omega, values.eq_2, next_slotState,
      if_neg hmore, ih (j + 1) _ (by omega)]
    simp [atEnd, slotState, List.range'_succ, Nat.add_assoc, Nat.add_comm 1 k]

end Slots

theorem values_atEnd {T : ValueType} {it : Iterator} (h : it.atEnd = true) (fuel : Nat) :
    values T fuel it = [] := by
  cases fuel with
  | zero => rfl
  | succ fuel => simp [values, h]

/-- A buffer of one word reads back as the decoded slots of the word, all of them. -/
theorem values_begin_word {T : ValueType} {word e sel : Nat} (hv : Valid e sel)
    (hw : word % 2 ^ slotOffset e sel = wordHeader e sel) (fuel : Nat) :
    values T (fuel + get2 kIntsStoreForSelector e sel) (begin T [word]) =
      (List.range (get2 kIntsStoreForSelector e sel)).map
        fun i => decodeSlot T e sel (slotAt word e sel i) := by
  obtain ⟨-, -, -, hone, -, -, -⟩ := valid_tables e hv.lt.1 sel hv.lt.2 hv
  obtain ⟨k, hk⟩ : ∃ k, get2 kIntsStoreForSelector e sel = k + 1 := ⟨_, (Nat.succ_pred_eq_of_pos hone).symm⟩
  have hbegin : begin T [word] = _loadValue T (slotState [word] word e sel 0 (some 0)) := by
    rw [begin, if_neg (List.cons_ne_nil _ _), _loadBlock_word hv hw]
  rw [hbegin, hk, ← Nat.add_assoc, values_slotState hv fuel k 0 (some 0) (by omega),
    values_atEnd (by simp [advanceBlock, atEnd, slotState]), List.append_nil, List.range_eq_range']

end Iterator

/-! ## The word -/

/-- The functor `_encodeLargestPossibleWord` hands `_encode` for type `e`. -/
def encodeFunctor (T : ValueType) (e : Nat) : PendingValue → Nat :=
  if e = kEightSelectorSmall then EightSelectorSmallEncodeFunctor T
  else if e = kEightSelectorLarge then EightSelectorLargeEncodeFunctor T
  else if e = kSevenSelector then SevenSelectorEncodeFunctor T
  else BaseSelectorEncodeFunctor

/-- What `_encode` writes in the slot of a pending value: the mask for a skip. -/
def slotOf (T : ValueType) (e sel : Nat) (pv : PendingValue) : Nat :=
  if pv.isSkip then get2 kDecodeMask e sel else encodeFunctor T e pv

namespace Simple8bBuilder

theorem foldl_updateState_pendingValues (l : List PendingValue) (b : Simple8bBuilder) :
    (l.foldl _updateSimple8bCurrentState b).pendingValues = b.pendingValues := by
  induction l generalizing b with
  | nil => rfl
  | cons v l ih => rw [List.foldl_cons, ih]; rfl

/-- `_encodeLargestPossibleWord` writes `_encode` of the type's functor at the selector that
`_getSelectorIndex` picks, and drops the values that selector codes. -/
theorem _encodeLargestPossibleWord_eq (T : ValueType) (b : Simple8bBuilder) (e : Nat) :
    (b._encodeLargestPossibleWord T e).1 =
        b._encode (encodeFunctor T e) (_getSelectorIndex b.pendingValues.length e) e ∧
      (b._encodeLargestPossibleWord T e).2.pendingValues =
        b.pendingValues.drop
          (get2 kIntsStoreForSelector e (_getSelectorIndex b.pendingValues.length e)) := by
  refine ⟨?_, foldl_updateState_pendingValues _ _⟩
  simp only [_encodeLargestPossibleWord, encodeFunctor]
  split_ifs <;> rfl

end Simple8bBuilder

/-- A header below the slots and the extension nibble above it are disjoint bits. -/
theorem or_nibble {base nibble packed : Nat} (hbase : base < 2 ^ 4) (hnib : nibble < 2 ^ 4) :
    (base + 2 ^ 8 * packed) ||| (nibble <<< 4) % 2 ^ 64 = base + 2 ^ 4 * nibble + 2 ^ 8 * packed := by
  have hsmall : nibble <<< 4 < 2 ^ 64 := by rw [Nat.shiftLeft_eq]; omega
  have hlow : base + 2 ^ 4 * nibble < 2 ^ 8 := by omega
  rw [Nat.mod_eq_of_lt hsmall, ← or_shiftLeft_eq_add packed (by omega : base < 2 ^ 8),
    ← or_shiftLeft_eq_add packed hlow, ← or_shiftLeft_eq_add nibble hbase, Nat.or_assoc,
    Nat.or_comm (packed <<< 8), ← Nat.or_assoc]

namespace Simple8bBuilder

/-- `_encode` at a selector whose slots all fit: the header, then the slots of the first
`integersCoded` pending values packed above it. -/
theorem _encode_eq {T : ValueType} {b : Simple8bBuilder} {e sel : Nat} (hv : Valid e sel)
    (hfits : Fits (slotWidth e sel)
      ((b.pendingValues.take (get2 kIntsStoreForSelector e sel)).map (slotOf T e sel))) :
    b._encode (encodeFunctor T e) sel e =
      wordHeader e sel + 2 ^ slotOffset e sel * pack (slotWidth e sel)
        ((b.pendingValues.take (get2 kIntsStoreForSelector e sel)).map (slotOf T e sel)) := by
  obtain ⟨he, hsel⟩ := hv.lt
  obtain ⟨-, -, -, -, hfit, -, hhead⟩ := valid_tables e he sel hsel hv
  obtain ⟨hrle, hlow⟩ := valid_header_base e he sel hsel hv
  have hbase : get2 kExtensionToBaseSelector e sel < 2 ^ slotOffset e sel := by
    unfold wordHeader at hhead; omega
  have hlen : slotOffset e sel + slotWidth e sel *
      (0 + (b.pendingValues.take (get2 kIntsStoreForSelector e sel)).length) ≤ 64 := by
    have := Nat.mul_le_mul_left (slotWidth e sel)
      (List.length_take_le (get2 kIntsStoreForSelector e sel) b.pendingValues)
    rw [Nat.zero_add]; omega
  unfold _encode
  dsimp only
  rw [foldl_or_shiftLeft (slotOf T e sel) _ (slotOffset e sel) 64
    (fun acc a i => by simp only [slotOf, slotWidth, slotOffset, Nat.add_assoc]) _ 0 _
    (by simpa using hbase) hfits hlen, Nat.mul_zero, Nat.add_zero]
  by_cases he0 : e = kBaseSelector
  · simp [he0, wordHeader]
  · -- an extended type: the selector index goes in the nibble above the base selector
    have hext : get2 kExtensionToBaseSelector e sel = 7 ∨ get2 kExtensionToBaseSelector e sel = 8 := by
      by_contra hplain
      exact he0 (valid_header_plain e he sel hsel hv hplain).2.1
    obtain ⟨hoff8, -⟩ := valid_header_extended e he sel hsel hv hext
    rw [if_pos he0, hoff8, show kSelectorBits + 4 = 8 from rfl, show kSelectorBits = 4 from rfl,
      or_nibble (by omega) hsel]
    simp [wordHeader, he0, kSelectorBits]

end Simple8bBuilder

/-! ## The slots of a uint64_t -/

/-- The stored zeros and the value bits above them are disjoint bits of the slot. -/
theorem or_shiftLeft_mod {f q t b : Nat} (hf : f < 2 ^ t) (hq : q < 2 ^ b) (htb : t + b ≤ 64) :
    f ||| (q <<< t) % 2 ^ 64 % 2 ^ 64 = f + 2 ^ t * q := by
  have hlt : q <<< t < 2 ^ 64 := by
    rw [Nat.shiftLeft_eq]
    calc q * 2 ^ t < 2 ^ b * 2 ^ t := Nat.mul_lt_mul_of_pos_right hq (Nat.two_pow_pos _)
      _ ≤ 2 ^ 64 := by rw [← Nat.pow_add]; exact Nat.pow_le_pow_right (by omega) (by omega)
  rw [Nat.mod_eq_of_lt hlt, Nat.mod_eq_of_lt hlt, or_shiftLeft_eq_add _ hf]

section Slot

variable {e bitsPerInt value : Nat} {pv : PendingValue} (hval : pv.val = some value)
  (hv64 : value < 2 ^ 64) (hfit : SlotFits e bitsPerInt value pv)
include hval hv64 hfit

/-- The encode functor of each type writes the stored zeros, then the value bits above them. -/
theorem encodeFunctor_uint64 (he : e < kNumOfSelectorTypes)
    (hwidth : kTrailingZeroBitSize.getD e 0 + bitsPerInt ≤ 64) :
    encodeFunctor .uint64 e pv = zerosField e pv +
      2 ^ kTrailingZeroBitSize.getD e 0 * (value / 2 ^ storedZeros e pv) := by
  have hq := hfit.quot_lt
  have hf := hfit.field_lt
  rcases (by simp only [kNumOfSelectorTypes] at he; omega : e = 0 ∨ e = 1 ∨ e = 2 ∨ e = 3) with
    rfl | rfl | rfl | rfl
  · -- the base type stores no zeros: the slot is the value
    have hz : zerosField 0 pv = 0 := by simpa [kTrailingZeroBitSize] using hf
    have hfun : encodeFunctor .uint64 0 pv = value % 2 ^ 64 := by
      simp [encodeFunctor, BaseSelectorEncodeFunctor, hval, kEightSelectorSmall,
        kEightSelectorLarge, kSevenSelector]
    rw [hfun, Nat.mod_eq_of_lt hv64, storedZeros, hz]
    simp [kTrailingZeroBitSize]
  · -- the seven selector counts zeros one by one
    have hs : storedZeros 1 pv = zerosField 1 pv := by
      simp [storedZeros, kTrailingZerosMultiplier]
    have hfun : encodeFunctor .uint64 1 pv =
        zerosField 1 pv ||| ((value / 2 ^ zerosField 1 pv) <<< kTrailingZeroBitSize.getD 1 0) %
          2 ^ 64 % 2 ^ 64 := by
      simp [encodeFunctor, SevenSelectorEncodeFunctor, zerosField, hval, ValueType.width,
        kEightSelectorSmall, kEightSelectorLarge, kSevenSelector, Nat.shiftRight_eq_div_pow]
    rw [hs] at hq ⊢
    rw [hfun]
    exact or_shiftLeft_mod hf hq hwidth
  · -- the eight selectors count zeros in nibbles
    have hs : storedZeros 2 pv = zerosField 2 pv * 4 := by
      simp [storedZeros, kTrailingZerosMultiplier, kNibbleShiftSize]
    rw [hs] at hq ⊢
    have hfun : encodeFunctor .uint64 2 pv =
        zerosField 2 pv ||| ((value / 2 ^ (zerosField 2 pv * 4)) <<< kTrailingZeroBitSize.getD 2 0) %
          2 ^ 64 % 2 ^ 64 := by
      simp [encodeFunctor, EightSelectorSmallEncodeFunctor, EightSelectorEncodeFunctor, zerosField,
        hval, ValueType.width, kEightSelectorSmall, kEightSelectorLarge, kNibbleShiftSize,
        Nat.shiftRight_eq_div_pow]
    rw [hfun]
    exact or_shiftLeft_mod hf hq hwidth
  · have hs : storedZeros 3 pv = zerosField 3 pv * 4 := by
      simp [storedZeros, kTrailingZerosMultiplier, kNibbleShiftSize]
    rw [hs] at hq ⊢
    have hfun : encodeFunctor .uint64 3 pv =
        zerosField 3 pv ||| ((value / 2 ^ (zerosField 3 pv * 4)) <<< kTrailingZeroBitSize.getD 3 0) %
          2 ^ 64 % 2 ^ 64 := by
      simp [encodeFunctor, EightSelectorLargeEncodeFunctor, EightSelectorEncodeFunctor, zerosField,
        hval, ValueType.width, kEightSelectorSmall, kEightSelectorLarge, kNibbleShiftSize,
        Nat.shiftRight_eq_div_pow]
    rw [hfun]
    exact or_shiftLeft_mod hf hq hwidth

omit hval in
/-- The slot reads back as the value: it is not the mask of a skip, and the value bits shifted
over the stored zeros give the value again. -/
theorem decodeSlot_uint64 {sel : Nat} (hv : Valid e sel)
    (hbits : bitsPerInt = get2 kBitsPerIntForSelector e sel) :
    Iterator.decodeSlot .uint64 e sel (zerosField e pv +
      2 ^ kTrailingZeroBitSize.getD e 0 * (value / 2 ^ storedZeros e pv)) = some value := by
  obtain ⟨he, hsel⟩ := hv.lt
  obtain ⟨-, hwidth, hmask, -⟩ := valid_tables e he sel hsel hv
  have hf := hfit.field_lt
  have hq := hfit.quot_lt
  have hpow : 2 ^ slotWidth e sel =
      2 ^ kTrailingZeroBitSize.getD e 0 * 2 ^ get2 kBitsPerIntForSelector e sel := by
    rw [slotWidth, Nat.add_comm, Nat.pow_add]
  -- the slot is not all ones: that would need a full zero count under all-ones value bits
  have hne : zerosField e pv + 2 ^ kTrailingZeroBitSize.getD e 0 * (value / 2 ^ storedZeros e pv) ≠
      get2 kDecodeMask e sel := by
    intro heq
    rw [hmask, hpow] at heq
    have hb1 : 1 ≤ 2 ^ get2 kBitsPerIntForSelector e sel := Nat.one_le_two_pow
    have hall : 2 ^ kTrailingZeroBitSize.getD e 0 * 2 ^ get2 kBitsPerIntForSelector e sel - 1 =
        (2 ^ kTrailingZeroBitSize.getD e 0 - 1) +
          2 ^ kTrailingZeroBitSize.getD e 0 * (2 ^ get2 kBitsPerIntForSelector e sel - 1) := by
      have := Nat.one_le_two_pow (n := kTrailingZeroBitSize.getD e 0)
      rw [Nat.mul_sub_one]
      have := Nat.le_mul_of_pos_right (2 ^ kTrailingZeroBitSize.getD e 0) hb1
      omega
    rw [hall] at heq
    have hfield := congrArg (· % 2 ^ kTrailingZeroBitSize.getD e 0) heq
    have hquot := congrArg (· / 2 ^ kTrailingZeroBitSize.getD e 0) heq
    simp only [Nat.add_mul_mod_self_left, Nat.mod_eq_of_lt hf,
      Nat.mod_eq_of_lt (Nat.sub_lt (Nat.two_pow_pos _) one_pos)] at hfield
    simp only [Nat.add_mul_div_left _ _ (Nat.two_pow_pos _), Nat.div_eq_of_lt hf,
      Nat.div_eq_of_lt (Nat.sub_lt (Nat.two_pow_pos _) one_pos), Nat.zero_add] at hquot
    exact hfit.quot_ne hfield (hbits ▸ hquot)
  have hqlt : value / 2 ^ storedZeros e pv < 2 ^ 64 :=
    lt_of_lt_of_le hq (Nat.pow_le_pow_right (by omega) (by rw [hbits]; unfold slotWidth at hwidth; omega))
  unfold Iterator.decodeSlot
  rw [if_neg hne, kTrailingZerosMask_eq e he, Nat.and_two_pow_sub_one_eq_mod,
    Nat.add_mul_mod_self_left, Nat.mod_eq_of_lt hf, Nat.shiftRight_eq_div_pow,
    Nat.add_mul_div_left _ _ (Nat.two_pow_pos _), Nat.div_eq_of_lt hf, Nat.zero_add,
    ValueType.width, Nat.mod_eq_of_lt hqlt, Nat.shiftLeft_eq]
  change some ((value / 2 ^ storedZeros e pv * 2 ^ storedZeros e pv) % 2 ^ 64) = some value
  rw [Nat.div_mul_cancel hfit.dvd, Nat.mod_eq_of_lt hv64]

end Slot

/-- A pending value as `_appendSkip` or `_appendValue` queues it, for a uint64_t whose
increment does not wrap. -/
def Pending64 (pv : PendingValue) : Prop :=
  pv = skipValue ∨ ∃ value, value + 1 < 2 ^ 64 ∧ pendingValueOf .uint64 value = some pv

/-- The slot `_encode` writes for such a value fits its width and reads back as the value, a
skip as `boost::none`. -/
theorem slotOf_uint64 {e sel : Nat} {pv : PendingValue} (hv : Valid e sel) (hp : Pending64 pv)
    (hb : pv.bitCount.getD e 0 ≤ get2 kBitsPerIntForSelector e sel) :
    slotOf .uint64 e sel pv < 2 ^ slotWidth e sel ∧
      Iterator.decodeSlot .uint64 e sel (slotOf .uint64 e sel pv) = pv.val := by
  obtain ⟨he, hsel⟩ := hv.lt
  obtain ⟨hbpi, hwidth, hmask, -⟩ := valid_tables e he sel hsel hv
  rcases hp with rfl | ⟨value, hv1, hpv⟩
  · -- a skip is written as the mask, which the iterator reads as a skip
    have hskip : slotOf .uint64 e sel skipValue = get2 kDecodeMask e sel := by
      simp [slotOf, skipValue, PendingValue.isSkip]
    rw [hskip]
    refine ⟨hmask ▸ Nat.sub_lt (Nat.two_pow_pos _) one_pos, ?_⟩
    simp [Iterator.decodeSlot, skipValue]
  · obtain ⟨hval, -⟩ := pendingValueOf_uint64 hpv
    have hv64 : value < 2 ^ 64 := by omega
    have hfit := slotFits_of_pendingValueOf hv1 hpv he hbpi hb
    have hslot : slotOf .uint64 e sel pv = encodeFunctor .uint64 e pv := by
      simp [slotOf, PendingValue.isSkip, hval]
    rw [hslot, encodeFunctor_uint64 hval hv64 hfit he (by unfold slotWidth at hwidth; omega), hval]
    refine ⟨?_, decodeSlot_uint64 hv64 hfit hv rfl⟩
    have hf := hfit.field_lt
    have hq := hfit.quot_lt
    -- the stored zeros below, the value bits above
    calc zerosField e pv + 2 ^ kTrailingZeroBitSize.getD e 0 * (value / 2 ^ storedZeros e pv)
        < 2 ^ kTrailingZeroBitSize.getD e 0 * (value / 2 ^ storedZeros e pv + 1) := by
          rw [Nat.mul_add_one]; omega
      _ ≤ 2 ^ kTrailingZeroBitSize.getD e 0 * 2 ^ get2 kBitsPerIntForSelector e sel :=
          Nat.mul_le_mul_left _ hq
      _ = 2 ^ slotWidth e sel := by rw [slotWidth, Nat.add_comm, Nat.pow_add]

/-- The word `_encodeLargestPossibleWord` writes of uint64_t values whose bit counts fit the
selector it picks reads back as the values it takes off the queue, skips included. -/
theorem _encodeLargestPossibleWord_values {b : Simple8bBuilder} {e : Nat}
    (he : e < kNumOfSelectorTypes) (hne : b.pendingValues ≠ [])
    (hpend : ∀ pv ∈ b.pendingValues, Pending64 pv ∧ pv.bitCount.getD e 0 ≤
      get2 kBitsPerIntForSelector e (_getSelectorIndex b.pendingValues.length e))
    (fuel : Nat) :
    Iterator.values .uint64
        (fuel + get2 kIntsStoreForSelector e (_getSelectorIndex b.pendingValues.length e))
        (Iterator.begin .uint64 [(b._encodeLargestPossibleWord .uint64 e).1]) =
      (b.pendingValues.take
        (get2 kIntsStoreForSelector e (_getSelectorIndex b.pendingValues.length e))).map
        PendingValue.val := by
  obtain ⟨hv, hle⟩ := _getSelectorIndex_spec he (List.length_pos_of_ne_nil hne)
  set sel := _getSelectorIndex b.pendingValues.length e
  set coded := b.pendingValues.take (get2 kIntsStoreForSelector e sel)
  have hlen : coded.length = get2 kIntsStoreForSelector e sel := List.length_take_of_le hle
  have hslot : ∀ pv ∈ coded, slotOf .uint64 e sel pv < 2 ^ slotWidth e sel ∧
      Iterator.decodeSlot .uint64 e sel (slotOf .uint64 e sel pv) = pv.val := by
    intro pv hpv
    obtain ⟨hp, hb⟩ := hpend pv (List.mem_of_mem_take hpv)
    exact slotOf_uint64 hv hp hb
  have hfits : Fits (slotWidth e sel) (coded.map (slotOf .uint64 e sel)) := by
    intro x hx
    obtain ⟨pv, hpv, rfl⟩ := List.mem_map.mp hx
    exact (hslot pv hpv).1
  obtain ⟨-, -, -, -, -, -, hhead⟩ := valid_tables e hv.lt.1 sel hv.lt.2 hv
  have hword : (b._encodeLargestPossibleWord .uint64 e).1 = wordHeader e sel +
      2 ^ slotOffset e sel * pack (slotWidth e sel) (coded.map (slotOf .uint64 e sel)) := by
    rw [(Simple8bBuilder._encodeLargestPossibleWord_eq _ b e).1, Simple8bBuilder._encode_eq hv hfits]
  have hw : (b._encodeLargestPossibleWord .uint64 e).1 % 2 ^ slotOffset e sel = wordHeader e sel := by
    rw [hword, Nat.add_mul_mod_self_left, Nat.mod_eq_of_lt hhead]
  rw [Iterator.values_begin_word hv hw]
  -- slot by slot: the packed slot at `i` is the slot of the `i`th coded value
  apply List.ext_getElem (by simp [hlen])
  intro i h1 h2
  have hi : i < (coded.map (slotOf .uint64 e sel)).length := by simpa [hlen] using h1
  rw [List.getElem_map, List.getElem_range, Iterator.slotAt, hword,
    header_pack_div_mod hhead hfits hi, List.getElem_map, List.getElem_map]
  exact (hslot _ (List.getElem_mem _)).2

/-- The all-ones uint64_t is accepted, but its increment wraps: its bit count is zero, the
base selector of one 60-bit slot takes it, and the slot it fills is the mask of a skip. Every
word of values whose increment does not wrap reads back as those values. -/
theorem append_all_ones_reads_as_skip :
    (∃ b b', Simple8bBuilder.append .uint64 {} (2 ^ 64 - 1) = some (true, b) ∧
      Simple8bBuilder.flush .uint64 b = some b' ∧
      b'.written = [0xFFFFFFFFFFFFFFFE] ∧
      Iterator.values .uint64 2 (Iterator.begin .uint64 b'.written) = [none]) ∧
    ∀ (b : Simple8bBuilder) e, e < kNumOfSelectorTypes → b.pendingValues ≠ [] →
      (∀ pv ∈ b.pendingValues, Pending64 pv ∧ pv.bitCount.getD e 0 ≤
        get2 kBitsPerIntForSelector e (_getSelectorIndex b.pendingValues.length e)) →
      ∀ fuel, Iterator.values .uint64
          (fuel + get2 kIntsStoreForSelector e (_getSelectorIndex b.pendingValues.length e))
          (Iterator.begin .uint64 [(b._encodeLargestPossibleWord .uint64 e).1]) =
        (b.pendingValues.take
          (get2 kIntsStoreForSelector e (_getSelectorIndex b.pendingValues.length e))).map
          PendingValue.val :=
  ⟨⟨_, _, rfl, rfl, by decide, by decide⟩,
    fun _ _ he hne hpend fuel => _encodeLargestPossibleWord_values he hne hpend fuel⟩

end mongo.simple8b
