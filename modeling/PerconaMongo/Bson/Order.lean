-- The order within one canonical type. There `compareElements` is the three-way comparison of
-- a key in a linear order (the kind and value of a number, a string, a boolean, or nothing for
-- the types of a single value), so it is transitive; the source never compares elements of
-- two canonical types with it.
import PerconaMongo.Bson.Element
import PerconaMongo.Lib.TotalPreorder
import Mathlib.Data.Prod.Lex
import Mathlib.Data.String.Basic

namespace mongo

open three_way total_preorder

/-- The keys of the order within a canonical type. -/
abbrev OrderKey := Lex (ℕ × Lex (ℚ × String))

namespace NumVal

/-- The value of a finite number, and 0 for the others. -/
def value : NumVal → ℚ
  | finite q => q
  | _ => 0

def key (v : NumVal) : OrderKey := toLex (v.rank, toLex (v.value, ""))

theorem compare_eq_threeWay (a b : NumVal) : a.compare b = threeWay a.key b.key := by
  cases a <;> cases b <;>
    simp [NumVal.compare, key, rank, value, threeWay, Prod.Lex.toLex_lt_toLex]

@[simp]
theorem compare_finite_neg_iff (a b : ℚ) : (finite a).compare (finite b) < 0 ↔ a < b := by
  simp [compare_eq_threeWay, key, rank, value, Prod.Lex.toLex_lt_toLex]

@[simp]
theorem compare_finite_pos_iff (a b : ℚ) : 0 < (finite a).compare (finite b) ↔ b < a := by
  simp [compare_eq_threeWay, key, rank, value, Prod.Lex.toLex_lt_toLex]

theorem key_injective : Function.Injective key := by
  intro v w h
  cases v <;> cases w <;> simp_all [key, rank, value]

end NumVal

namespace BSONElement

/-- The key that `compareElements` compares, within a canonical type. -/
def key : BSONElement → OrderKey
  | string s => toLex (0, toLex (0, s))
  | bool b => toLex (b.toNat, toLex (0, ""))
  | e =>
    match e.numVal? with
    | some v => v.key
    | none => toLex (0, toLex (0, ""))

theorem compareStrings_eq_threeWay (a b : String) :
    compareStrings a b = threeWay (string a).key (string b).key := by
  simp [compareStrings, key, threeWay, Prod.Lex.toLex_lt_toLex]

theorem compareBools_eq_threeWay (a b : Bool) :
    ((if a then 1 else 0) - (if b then 1 else 0) : Int) = threeWay (bool a).key (bool b).key := by
  cases a <;> cases b <;> simp [key, threeWay, Prod.Lex.toLex_lt_toLex]

/-- Within a canonical type, `compareElements` is the three-way comparison of the keys. -/
theorem compareElements_eq_threeWay {a b : BSONElement}
    (h : a.canonicalType = b.canonicalType) : compareElements a b = threeWay a.key b.key := by
  -- the pairs of one canonical type: the types of one value, numbers, strings, booleans
  cases a <;> cases b <;> simp only [canonicalType] at h <;> first
    | omega
    | exact compareStrings_eq_threeWay _ _
    | exact compareBools_eq_threeWay _ _
    | (simp only [compareElements, numVal?, key, NumVal.compare_eq_threeWay]; done)
    | simp [compareElements, canonicalType, key, numVal?, threeWay]

theorem canonicalType_of_isNumber {d : BSONElement} (h : d.isNumber = true) :
    d.canonicalType = 10 := by
  cases d <;> simp_all [isNumber, canonicalType]

theorem isNumber_of_canonicalType {d : BSONElement} (h : d.canonicalType = 10) :
    d.isNumber = true := by
  cases d <;> simp_all [isNumber, canonicalType]

/-- Data that `woCompare` calls equal have one canonical type and one key: two numbers of
different canonical types cannot be, as all numbers share one. -/
theorem woCompare_eq_zero {a b : BSONElement} (h : woCompare a b = 0) :
    a.canonicalType = b.canonicalType ∧ a.key = b.key := by
  unfold woCompare at h
  dsimp only at h
  have hc : a.canonicalType = b.canonicalType := by
    by_cases hn : (a.isNumber && b.isNumber) = true
    · simp only [Bool.and_eq_true] at hn
      rw [canonicalType_of_isNumber hn.1, canonicalType_of_isNumber hn.2]
    · by_contra hne
      have hn' : (!(a.isNumber && b.isNumber)) = true := by
        simpa only [Bool.not_eq_true', Bool.not_eq_true] using hn
      rw [if_pos ⟨sub_ne_zero.mpr hne, hn'⟩] at h
      exact hne (sub_eq_zero.mp h)
  rw [if_neg (fun hx => hx.1 (sub_eq_zero.mpr hc)), compareElements_eq_threeWay hc,
    threeWay_eq_zero_iff] at h
  exact ⟨hc, h⟩

theorem key_of_numVal? {a : BSONElement} {v : NumVal} (h : a.numVal? = some v) :
    a.key = v.key := by
  cases a <;> simp_all [numVal?, key]

theorem exists_numVal?_of_isNumber {a : BSONElement} (h : a.isNumber = true) :
    ∃ v, a.numVal? = some v := by
  cases a <;> simp_all [isNumber, numVal?]

/-- The key of a number determines its value. -/
theorem numVal?_eq_of_key_eq {a b : BSONElement} (ha : a.isNumber = true)
    (hb : b.isNumber = true) (hk : a.key = b.key) : a.numVal? = b.numVal? := by
  obtain ⟨v, hv⟩ := exists_numVal?_of_isNumber ha
  obtain ⟨w, hw⟩ := exists_numVal?_of_isNumber hb
  rw [key_of_numVal? hv, key_of_numVal? hw] at hk
  rw [hv, hw, NumVal.key_injective hk]

/-- `BSONElement()`: the end-of-object element. -/
instance : Inhabited BSONElement := ⟨eoo⟩

/-- The key that `woCompare` orders by: the canonical type, then the key within it. -/
def woKey (e : BSONElement) : Lex (Int × OrderKey) := toLex (e.canonicalType, e.key)

theorem woCompare_of_canonicalType_ne {a b : BSONElement}
    (hc : a.canonicalType ≠ b.canonicalType) :
    woCompare a b = a.canonicalType - b.canonicalType := by
  -- two numbers share a canonical type, so these are not both numbers
  have hn : (!(a.isNumber && b.isNumber)) = true := by
    cases ha : a.isNumber <;> cases hb : b.isNumber <;> simp
    exact hc ((canonicalType_of_isNumber ha).trans (canonicalType_of_isNumber hb).symm)
  unfold woCompare
  exact if_pos ⟨sub_ne_zero.mpr hc, hn⟩

theorem woCompare_of_canonicalType_eq {a b : BSONElement}
    (hc : a.canonicalType = b.canonicalType) : woCompare a b = threeWay a.key b.key := by
  unfold woCompare
  rw [if_neg (fun hx => hx.1 (sub_eq_zero.mpr hc)), compareElements_eq_threeWay hc]

theorem woCompare_neg_iff (a b : BSONElement) : woCompare a b < 0 ↔ a.woKey < b.woKey := by
  unfold woKey
  rw [Prod.Lex.toLex_lt_toLex]
  by_cases hc : a.canonicalType = b.canonicalType
  · rw [woCompare_of_canonicalType_eq hc, threeWay_neg_iff, hc]
    simp
  · rw [woCompare_of_canonicalType_ne hc]
    omega

theorem woCompare_pos_iff (a b : BSONElement) : 0 < woCompare a b ↔ b.woKey < a.woKey := by
  unfold woKey
  rw [Prod.Lex.toLex_lt_toLex]
  by_cases hc : a.canonicalType = b.canonicalType
  · rw [woCompare_of_canonicalType_eq hc, threeWay_pos_iff, hc]
    simp
  · rw [woCompare_of_canonicalType_ne hc]
    omega

/-- `woCompare` without field names is a total preorder: it compares keys of a linear order. -/
theorem woCompare_isTotalPreorder : IsTotalPreorder woCompare where
  flip a b := by rw [woCompare_neg_iff, woCompare_pos_iff]
  trans a b c hab hbc := by
    rw [← not_lt, woCompare_pos_iff] at hab hbc ⊢
    exact fun hca => hbc (lt_of_lt_of_le hca (not_lt.mp hab))

end BSONElement

end mongo
