-- `Value::compare` of the document layer, which `$group`, `$addToSet` and `$lookup` order and
-- deduplicate by: the canonical types first, then a switch on the type of the left value,
-- into `Document::compare` for objects and element by element for arrays, with the string
-- comparator passed down. The switch takes a `String` on the left through the comparator and
-- a `Symbol` or `Code` on the left byte by byte, though a `String` and a `Symbol` share a
-- canonical type. Without a comparator the order is antisymmetric over every value, nested
-- ones included; with one that calls two different strings equal it is not.
-- `CodeWScope` (whose scope is a `BSONObj` compared by `woCompare`) and the shortcut of
-- `Document::compare` for two documents sharing their storage are not modelled.
import PerconaMongo.Bson.Order

namespace mongo

open three_way

/-- `StringData::ComparatorInterface`: a comparison of strings, such as a collator's. -/
structure StringComparator where
  compare : String → String → Int

/-- The BSON types that a `Value` holds. -/
inductive BSONType
  | eoo
  | minKey
  | maxKey
  | undefined
  | jstNULL
  | bool
  | bsonTimestamp
  | date
  | numberInt
  | numberLong
  | numberDouble
  | numberDecimal
  | jstOID
  | string
  | symbol
  | code
  | object
  | array
  | dbRef
  | binData
  | regEx
  deriving DecidableEq, Repr

/-- `canonicalizeBSONType`. -/
def canonicalizeBSONType : BSONType → Int
  | .minKey => -1
  | .maxKey => 127
  | .eoo | .undefined => 0
  | .jstNULL => 5
  | .numberDecimal | .numberDouble | .numberInt | .numberLong => 10
  | .string | .symbol => 15
  | .object => 20
  | .array => 25
  | .binData => 30
  | .jstOID => 35
  | .bool => 40
  | .date => 45
  | .bsonTimestamp => 47
  | .regEx => 50
  | .dbRef => 55
  | .code => 60

/-- A `Value`: an object is its fields in order, an array its elements. -/
inductive Value
  | eoo
  | minKey
  | maxKey
  | undefined
  | null
  | bool (b : Bool)
  | timestamp (t : Nat)
  | date (millis : Int)
  | numberInt (v : Int)
  | numberLong (v : Int)
  | numberDouble (v : NumVal)
  | numberDecimal (v : NumVal)
  | oid (bytes : List UInt8)
  | string (s : String)
  | symbol (s : String)
  | code (s : String)
  | object (fields : List (String × Value))
  | array (elems : List Value)
  | dbRef (ns : String) (oid : List UInt8)
  | binData (subType : Nat) (bytes : List UInt8)
  | regEx (pattern flags : String)

/-- `memcmp` over two byte strings of one length: the first byte that differs decides. -/
def memcmp : List UInt8 → List UInt8 → Int
  | a :: as, b :: bs => if a < b then -1 else if b < a then 1 else memcmp as bs
  | _, _ => 0

namespace Value

def getType : Value → BSONType
  | eoo => .eoo
  | minKey => .minKey
  | maxKey => .maxKey
  | undefined => .undefined
  | null => .jstNULL
  | bool _ => .bool
  | timestamp _ => .bsonTimestamp
  | date _ => .date
  | numberInt _ => .numberInt
  | numberLong _ => .numberLong
  | numberDouble _ => .numberDouble
  | numberDecimal _ => .numberDecimal
  | oid _ => .jstOID
  | string _ => .string
  | symbol _ => .symbol
  | code _ => .code
  | object _ => .object
  | array _ => .array
  | dbRef _ _ => .dbRef
  | binData _ _ => .binData
  | regEx _ _ => .regEx

/-- The value of a number, whichever its type. -/
def numVal? : Value → Option NumVal
  | numberInt v | numberLong v => some (.finite v)
  | numberDouble v | numberDecimal v => some v
  | _ => none

/-- `cmp` of the canonical types, or 0 for two values of one type. -/
def compareTypes (l r : Value) : Int :=
  if l.getType = r.getType then 0
  else threeWay (canonicalizeBSONType l.getType) (canonicalizeBSONType r.getType)

open BSONElement (compareStrings)

mutual

/-- `Value::compare`. The pairs that the switch does not list have different canonical types,
so `compareTypes` has decided them. -/
def compare (c : Option StringComparator) : Value → Value → Int
  | l, r =>
    let ret := compareTypes l r
    if ret ≠ 0 then ret
    else
      match l, r with
      | eoo, _ | undefined, _ | null, _ | maxKey, _ | minKey, _ => ret
      | bool a, bool b => (if a then 1 else 0) - (if b then 1 else 0)
      | timestamp a, timestamp b => threeWay a b
      | date a, date b => threeWay a b
      | oid a, oid b => memcmp a b
      -- a `String` on the left goes through the comparator, whatever the right one is
      | string a, string b | string a, symbol b =>
        match c with
        | none => compareStrings a b
        | some c => c.compare a b
      | code a, code b | symbol a, symbol b | symbol a, string b => compareStrings a b
      | object a, object b => compareDocuments c a b
      | array a, array b => compareArrays c a b
      | dbRef ns a, dbRef ns' b =>
        -- the namespaces by their sizes only
        let ret := threeWay ns.utf8ByteSize ns'.utf8ByteSize
        if ret ≠ 0 then ret else memcmp a b
      | binData t a, binData t' b =>
        let ret := threeWay a.length b.length
        if ret ≠ 0 then ret
        else
          let ret := threeWay t t'
          if ret ≠ 0 then ret else memcmp a b
      | regEx p f, regEx p' f' => compareStrings (p ++ "\x00" ++ f) (p' ++ "\x00" ++ f')
      | l, r =>
        match l.numVal?, r.numVal? with
        | some a, some b => a.compare b
        | _, _ => 0

/-- `Document::compare`: field by field, the canonical types of the values, then the names,
then the values; a document that runs out first is the smaller. -/
def compareDocuments (c : Option StringComparator) :
    List (String × Value) → List (String × Value) → Int
  | [], [] => 0
  | [], _ :: _ => -1
  | _ :: _, [] => 1
  | (ln, lv) :: ls, (rn, rv) :: rs =>
    let lCType := canonicalizeBSONType lv.getType
    let rCType := canonicalizeBSONType rv.getType
    if lv.getType ≠ rv.getType ∧ lCType ≠ rCType then (if lCType < rCType then -1 else 1)
    else
      let nameCmp := compareStrings ln rn
      if nameCmp ≠ 0 then nameCmp
      else
        let valueCmp := compare c lv rv
        if valueCmp ≠ 0 then valueCmp else compareDocuments c ls rs

/-- The array case of `Value::compare`: the first elements that differ, else the lengths. -/
def compareArrays (c : Option StringComparator) : List Value → List Value → Int
  | l :: ls, r :: rs =>
    let ret := compare c l r
    if ret ≠ 0 then ret else compareArrays c ls rs
  | ls, rs => threeWay ls.length rs.length

end

example : compare none (object [("a", array [numberInt 1, string "x"])])
    (object [("a", array [numberDouble (.finite 1), string "y"])]) = -1 := by
  decide

/-! ## Without a comparator the order is antisymmetric -/


theorem memcmp_swap (a b : List UInt8) : memcmp b a = -memcmp a b := by
  induction a generalizing b with
  | nil => cases b <;> rfl
  | cons x xs ih =>
    cases b with
    | nil => rfl
    | cons y ys =>
      simp only [memcmp]
      -- the bytes as numbers: below, equal or above
      have hx := UInt8.lt_iff_toNat_lt (a := x) (b := y)
      have hy := UInt8.lt_iff_toNat_lt (a := y) (b := x)
      rcases lt_trichotomy x.toNat y.toNat with hxy | hxy | hxy
      · have hyx : ¬ y < x := by rw [hy]; omega
        rw [if_neg hyx, if_pos (hx.mpr hxy), if_pos (hx.mpr hxy)]
        rfl
      · obtain rfl : x = y := UInt8.toNat_inj.mp hxy
        simp [ih ys]
      · have hxy' : ¬ x < y := by rw [hx]; omega
        rw [if_pos (hy.mpr hxy), if_neg hxy', if_pos (hy.mpr hxy)]

theorem NumVal.compare_swap (a b : NumVal) : b.compare a = -a.compare b := by
  rw [NumVal.compare_eq_threeWay, NumVal.compare_eq_threeWay, threeWay_swap]

theorem compareStrings_swap (a b : String) : compareStrings b a = -compareStrings a b := by
  rw [BSONElement.compareStrings_eq_threeWay, BSONElement.compareStrings_eq_threeWay,
    threeWay_swap]

theorem compareTypes_swap (a b : Value) : compareTypes b a = -compareTypes a b := by
  unfold compareTypes
  by_cases h : a.getType = b.getType
  · simp [h]
  · rw [if_neg h, if_neg (Ne.symm h), threeWay_swap]

theorem compare_of_compareTypes_ne {c : Option StringComparator} {a b : Value}
    (h : compareTypes a b ≠ 0) : compare c a b = compareTypes a b := by
  rw [compare.eq_def]
  exact if_pos h

theorem canonicalizeBSONType_eq_of_compareTypes {a b : Value} (h : compareTypes a b = 0) :
    canonicalizeBSONType a.getType = canonicalizeBSONType b.getType := by
  unfold compareTypes at h
  split at h
  · rename_i he
    rw [he]
  · exact threeWay_eq_zero_iff.mp h

mutual

/-- Without a comparator, comparing the other way round negates the result, for every pair
of values, nested ones included. -/
theorem compare_swap (a b : Value) : compare none b a = -compare none a b := by
  by_cases h : compareTypes a b = 0
  case neg =>
    have h' : compareTypes b a ≠ 0 := by rw [compareTypes_swap]; omega
    rw [compare_of_compareTypes_ne h, compare_of_compareTypes_ne h', compareTypes_swap]
  case pos =>
    have h' : compareTypes b a = 0 := by rw [compareTypes_swap, h]; rfl
    rw [compare.eq_def, compare.eq_def]
    simp only [h, h', ne_eq, not_true_eq_false, if_false]
    -- the pairs of one canonical type, each by the swap law of what it compares
    have hc := canonicalizeBSONType_eq_of_compareTypes h
    cases a <;> cases b <;> simp only [getType, canonicalizeBSONType] at hc
    all_goals first
      | rfl
      | exact compareStrings_swap _ _
      | exact memcmp_swap _ _
      | exact threeWay_swap
      | exact NumVal.compare_swap _ _
      | exact compareDocuments_swap _ _
      | exact compareArrays_swap _ _
      | (rename_i x y; cases x <;> cases y <;> rfl)
      | exact ite_ne_zero_swap threeWay_swap (memcmp_swap _ _)
      | exact ite_ne_zero_swap threeWay_swap (ite_ne_zero_swap threeWay_swap (memcmp_swap _ _))

theorem compareDocuments_swap (as bs : List (String × Value)) :
    compareDocuments none bs as = -compareDocuments none as bs := by
  match as, bs with
  | [], [] => rfl
  | [], _ :: _ => rfl
  | _ :: _, [] => rfl
  | (ln, lv) :: ls, (rn, rv) :: rs =>
    simp only [compareDocuments]
    by_cases ht : lv.getType ≠ rv.getType ∧
        canonicalizeBSONType lv.getType ≠ canonicalizeBSONType rv.getType
    case pos =>
      -- values of different canonical types: their order decides
      have ht' : rv.getType ≠ lv.getType ∧
          canonicalizeBSONType rv.getType ≠ canonicalizeBSONType lv.getType :=
        ⟨Ne.symm ht.1, Ne.symm ht.2⟩
      rw [if_pos ht', if_pos ht]
      rcases lt_or_gt_of_ne ht.2 with h | h
      · rw [if_neg (not_lt_of_gt h), if_pos h]
        rfl
      · rw [if_pos h, if_neg (not_lt_of_gt h)]
    case neg =>
      have ht' : ¬ (rv.getType ≠ lv.getType ∧
          canonicalizeBSONType rv.getType ≠ canonicalizeBSONType lv.getType) :=
        fun h => ht ⟨Ne.symm h.1, Ne.symm h.2⟩
      rw [if_neg ht', if_neg ht]
      exact ite_ne_zero_swap (compareStrings_swap _ _)
        (ite_ne_zero_swap (compare_swap lv rv) (compareDocuments_swap ls rs))

theorem compareArrays_swap (as bs : List Value) :
    compareArrays none bs as = -compareArrays none as bs := by
  match as, bs with
  | l :: ls, r :: rs =>
    simp only [compareArrays]
    exact ite_ne_zero_swap (compare_swap l r) (compareArrays_swap ls rs)
  | [], [] | [], _ :: _ | _ :: _, [] =>
    simp only [compareArrays]
    exact threeWay_swap

end

/-! ## With a comparator it is not -/

/-- `CollatorInterfaceMock` of type `kToLowerString`: strings compared after `str::toLower`. -/
def toLowerStringComparator : StringComparator :=
  ⟨fun l r => compareStrings l.toLower r.toLower⟩

theorem compareStrings_eq_zero_iff {a b : String} : compareStrings a b = 0 ↔ a = b := by
  rw [BSONElement.compareStrings_eq_threeWay, threeWay_eq_zero_iff]
  simp [BSONElement.key]

/-- A `String` on the left is compared through the comparator, also against a `Symbol`. -/
theorem compare_string_symbol (c : StringComparator) (s t : String) :
    compare (some c) (string s) (symbol t) = c.compare s t := by
  rw [compare.eq_def]
  simp [compareTypes, getType, canonicalizeBSONType]

/-- A `Symbol` on the left is compared byte by byte, also against a `String`. -/
theorem compare_symbol_string (c : Option StringComparator) (s t : String) :
    compare c (symbol t) (string s) = compareStrings t s := by
  rw [compare.eq_def]
  simp [compareTypes, getType, canonicalizeBSONType]

/-- Under a comparator that calls two different strings equal, a `String` and a `Symbol` of
them compare equal one way round and unequal the other: `Value::compare` is not antisymmetric,
and the `String`/`Symbol` keys of a `ValueComparator` set depend on their order of insertion. -/
theorem compare_string_symbol_not_antisymm (c : StringComparator) {s t : String}
    (hc : c.compare s t = 0) (hst : s ≠ t) :
    (compare (some c) (symbol t) (string s)).sign ≠
      -(compare (some c) (string s) (symbol t)).sign ∧
    ∀ a b : Value, compare none b a = -compare none a b := by
  refine ⟨?_, compare_swap⟩
  rw [compare_string_symbol, compare_symbol_string, hc]
  have hts : compareStrings t s ≠ 0 := fun h => hst (compareStrings_eq_zero_iff.mp h).symm
  simpa using hts

theorem compare_string_symbol_not_antisymm_toLower :
    toLowerStringComparator.compare "a" "A" = 0 ∧ "a" ≠ "A" ∧
      (compare (some toLowerStringComparator) (symbol "A") (string "a")).sign ≠
        -(compare (some toLowerStringComparator) (string "a") (symbol "A")).sign := by
  -- each lowering against its literal result is quick to decide; "a".toLower = "A".toLower is not
  have ha : "a".toLower = "a" := by decide +kernel
  have hA : "A".toLower = "a" := by decide +kernel
  have hc : toLowerStringComparator.compare "a" "A" = 0 := by
    show compareStrings "a".toLower "A".toLower = 0
    rw [ha, hA, compareStrings_eq_zero_iff]
  exact ⟨hc, by decide,
    (compare_string_symbol_not_antisymm toLowerStringComparator hc (by decide)).1⟩

end Value

end mongo
