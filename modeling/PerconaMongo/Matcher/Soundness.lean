-- Where `isSubsetOf` is right: for a partial filter that is a comparison, every document that
-- the query matches is matched by the filter, for every query of comparisons, `$in`, `$and`,
-- `$or` and `$not`. The comparison rule is sound because within a canonical type the data
-- compare by a key in a linear order, and because every element of another canonical type
-- meets the two comparisons alike: null and a missing field are alike on both sides, and
-- MinKey and MaxKey are the only values of their types.
import PerconaMongo.Matcher.Subset
import PerconaMongo.Bson.Order
import Mathlib.Tactic.Order

namespace mongo

namespace MatchExpression

open BSONElement three_way

/-! ## The canonical types -/

theorem canonicalType_cases (e : BSONElement) :
    e.canonicalType = -1 ∨ e.canonicalType = 0 ∨ e.canonicalType = 5 ∨
      e.canonicalType = 10 ∨ e.canonicalType = 15 ∨ e.canonicalType = 40 ∨
      e.canonicalType = 127 := by
  cases e <;> simp [canonicalType]

theorem eq_maxKey_iff (e : BSONElement) : e = .maxKey ↔ e.canonicalType = 127 := by
  cases e <;> simp [canonicalType]

theorem eq_minKey_iff (e : BSONElement) : e = .minKey ↔ e.canonicalType = -1 := by
  cases e <;> simp [canonicalType]

/-- Two elements of a canonical type of one value, or of null and undefined, compare equal. -/
theorem compareElements_eq_zero_of_small {a b : BSONElement}
    (h : a.canonicalType = b.canonicalType)
    (ha : a.canonicalType = -1 ∨ a.canonicalType = 0 ∨ a.canonicalType = 5 ∨
      a.canonicalType = 127) : compareElements a b = 0 := by
  cases a <;> cases b <;> simp [canonicalType, compareElements] at h ha ⊢

/-- Only numbers are NaN, and among numbers of equal keys both or neither are. -/
theorem isNaN_eq_of_key_eq {a b : BSONElement} (h : a.canonicalType = b.canonicalType)
    (hk : a.key = b.key) : a.isNaN = b.isNaN := by
  cases a <;> cases b <;> simp only [canonicalType] at h <;>
    simp_all [key, isNaN, numVal?, NumVal.key, NumVal.isNaN] <;>
    rename_i v w <;> cases v <;> cases w <;> simp_all [NumVal.rank]

/-! ## The rule for two comparisons -/

section Cmp

variable {κ : Type*} [LinearOrder κ]

/-- How `subsetByCmp` decides is sound for data compared by a key in a linear order. -/
theorem subsetByCmp_sound {lt rt : ComparisonType} (ke k₁ k₂ : κ)
    (h : subsetByCmp lt rt (threeWay k₁ k₂) = true) (hm : lt.holds (threeWay ke k₁) = true) :
    rt.holds (threeWay ke k₂) = true := by
  cases lt <;> cases rt <;> simp [subsetByCmp, ComparisonType.holds] at h hm ⊢ <;>
    -- the same comparison is taken for equal data or a bound at least as wide
    (try rcases h with h | h) <;> order

end Cmp

/-! ## Elements of another canonical type than the data -/

theorem subsetByCmp_zero_equality {lt rt : ComparisonType} (h : subsetByCmp lt rt 0 = true)
    (hl : (lt == .EQ || lt == .LTE || lt == .GTE) = true) :
    (rt == .EQ || rt == .LTE || rt == .GTE) = true := by
  cases lt <;> cases rt <;> simp_all [subsetByCmp]

theorem subsetByCmp_zero_bound {lt rt : ComparisonType} {d : BSONElement}
    (h : subsetByCmp lt rt 0 = true) (hm : boundMatches lt d = true) :
    boundMatches rt d = true := by
  cases lt <;> cases rt <;> simp_all [subsetByCmp, boundMatches]

/-- An element of another canonical type than the data meets the two comparisons alike: as
null when both data are null or undefined, as a value between MinKey and MaxKey when both are
one of these, and not at all otherwise. -/
theorem comparisonMatches_sound_of_ne {lt rt : ComparisonType} {d₁ d₂ e : BSONElement}
    (hc : d₁.canonicalType = d₂.canonicalType) (he : e.canonicalType ≠ d₁.canonicalType)
    (h : subsetByCmp lt rt (compareElements d₁ d₂) = true)
    (hm : comparisonMatches lt d₁ e = true) : comparisonMatches rt d₂ e = true := by
  unfold comparisonMatches at hm ⊢
  rw [if_pos he] at hm
  rw [if_pos (hc ▸ he)]
  by_cases hs : e.canonicalType + d₁.canonicalType = 5
  · have hsmall : d₁.canonicalType = 0 ∨ d₁.canonicalType = 5 := by
      rcases canonicalType_cases e with h₁ | h₁ | h₁ | h₁ | h₁ | h₁ | h₁ <;>
        rcases canonicalType_cases d₁ with h₂ | h₂ | h₂ | h₂ | h₂ | h₂ | h₂ <;> omega
    rw [compareElements_eq_zero_of_small hc (by omega)] at h
    rw [if_pos hs] at hm
    rw [if_pos (hc ▸ hs)]
    exact subsetByCmp_zero_equality h hm
  · rw [if_neg hs] at hm
    rw [if_neg (hc ▸ hs)]
    by_cases hk : (d₁ == .maxKey || d₁ == .minKey) = true
    · -- MinKey and MaxKey are the only values of their canonical types
      have hd : d₂ = d₁ := by
        simp only [Bool.or_eq_true, beq_iff_eq] at hk
        rcases hk with rfl | rfl
        · exact (eq_maxKey_iff d₂).mpr (by rw [← hc]; rfl)
        · exact (eq_minKey_iff d₂).mpr (by rw [← hc]; rfl)
      subst hd
      have hsmall : d₂.canonicalType = -1 ∨ d₂.canonicalType = 127 := by
        simp only [Bool.or_eq_true, beq_iff_eq] at hk
        rcases hk with rfl | rfl <;> simp [canonicalType]
      rw [compareElements_eq_zero_of_small rfl (by omega)] at h
      rw [if_pos hk] at hm ⊢
      exact subsetByCmp_zero_bound h hm
    · rw [if_neg hk] at hm
      cases hm

/-! ## Elements of the data's canonical type -/

theorem canonicalType_of_isNaN {d : BSONElement} (h : d.isNaN = true) : d.canonicalType = 10 := by
  cases d <;> simp_all [isNaN, numVal?, canonicalType]

/-- Away from NaN, a comparison with data of an element's canonical type compares keys. -/
theorem comparisonMatches_of_key {t : ComparisonType} {d e : BSONElement}
    (he : e.canonicalType = d.canonicalType) (hn : (e.isNaN || d.isNaN) = false) :
    comparisonMatches t d e = t.holds (threeWay e.key d.key) := by
  unfold comparisonMatches
  rw [if_neg (not_not.mpr he), if_neg (by simp [hn]), compareElements_eq_threeWay he]

/-- With NaN data on either side, the rule takes only comparisons that admit equality with NaN
data on both, and such a comparison meets only NaN. -/
theorem comparisonSubsetOf_sound_nan {lt rt : ComparisonType} {d₁ d₂ e : BSONElement}
    (hc : d₁.canonicalType = d₂.canonicalType)
    (h : (supportsEquality lt && supportsEquality rt && d₁.isNaN && d₂.isNaN) = true)
    (hm : comparisonMatches lt d₁ e = true) : comparisonMatches rt d₂ e = true := by
  simp only [Bool.and_eq_true] at h
  obtain ⟨⟨⟨-, hs₂⟩, hn₁⟩, hn₂⟩ := h
  have h10 := canonicalType_of_isNaN hn₁
  unfold comparisonMatches at hm ⊢
  by_cases he : e.canonicalType = d₁.canonicalType
  · rw [if_neg (not_not.mpr he), if_pos (by simp [hn₁])] at hm
    rw [if_neg (not_not.mpr (he.trans hc)), if_pos (by simp [hn₂])]
    simp only [Bool.and_eq_true] at hm
    simp [hs₂, hm.1.2, hn₂]
  · -- a number is neither null nor MinKey nor MaxKey
    have hs : e.canonicalType + d₁.canonicalType ≠ 5 := by
      rcases canonicalType_cases e with h₁ | h₁ | h₁ | h₁ | h₁ | h₁ | h₁ <;> omega
    have hk : (d₁ == .maxKey || d₁ == .minKey) = false := by
      simp only [Bool.or_eq_false_iff, beq_eq_false_iff_ne, ne_eq, eq_maxKey_iff, eq_minKey_iff]
      omega
    rw [if_pos he, if_neg hs, if_neg (by simp [hk])] at hm
    cases hm

/-- The rule of `_isSubsetOf` for two comparisons is sound. -/
theorem comparisonSubsetOf_sound {lt rt : ComparisonType} {lp rp : String}
    {d₁ d₂ : BSONElement} (h : comparisonSubsetOf lt lp d₁ rt rp d₂ = true) (e : BSONElement)
    (hm : comparisonMatches lt d₁ e = true) : comparisonMatches rt d₂ e = true := by
  unfold comparisonSubsetOf at h
  split_ifs at h with hp hc hn
  · exact comparisonSubsetOf_sound_nan (not_not.mp hc) h hm
  have hc' := not_not.mp hc
  by_cases he : e.canonicalType = d₁.canonicalType
  · simp only [Bool.or_eq_true, not_or, Bool.not_eq_true] at hn
    -- an element NaN meets no comparison with a number other than NaN
    have hen : e.isNaN = false := by
      by_contra hen
      unfold comparisonMatches at hm
      rw [if_neg (not_not.mpr he), if_pos (by simp_all)] at hm
      simp_all
    rw [comparisonMatches_of_key he (by simp [hen, hn.1])] at hm
    rw [comparisonMatches_of_key (he.trans hc') (by simp [hen, hn.2])]
    rw [compareElements_eq_threeWay hc'] at h
    exact subsetByCmp_sound _ _ _ h hm
  · exact comparisonMatches_sound_of_ne hc' he h hm

/-! ## Data that `woCompare` calls equal -/

/-- A comparison with data that `woCompare` calls equal matches the same elements. -/
theorem comparisonMatches_congr {a b : BSONElement} (h : woCompare a b = 0) (t : ComparisonType)
    (e : BSONElement) : comparisonMatches t a e = comparisonMatches t b e := by
  obtain ⟨hc, hk⟩ := woCompare_eq_zero h
  have hmax : (a == .maxKey) = (b == .maxKey) := by
    simp only [beq_eq_decide, eq_maxKey_iff, hc]
  have hmin : (a == .minKey) = (b == .minKey) := by
    simp only [beq_eq_decide, eq_minKey_iff, hc]
  unfold comparisonMatches
  by_cases he : e.canonicalType = b.canonicalType
  · have he' : e.canonicalType = a.canonicalType := he.trans hc.symm
    rw [if_neg (not_not.mpr he'), if_neg (not_not.mpr he), isNaN_eq_of_key_eq hc hk,
      compareElements_eq_threeWay he', compareElements_eq_threeWay he, hk]
  · have he' : e.canonicalType ≠ a.canonicalType := by rwa [hc]
    rw [if_pos he', if_pos he]
    simp only [hc, hmax, hmin, boundMatches]

/-- An element that `woCompare` calls equal to the data meets the equality. -/
theorem comparisonMatches_of_woCompare {e x : BSONElement} (h : woCompare e x = 0) :
    comparisonMatches .EQ x e = true := by
  obtain ⟨hc, hk⟩ := woCompare_eq_zero h
  unfold comparisonMatches
  rw [if_neg (not_not.mpr hc), ← isNaN_eq_of_key_eq hc hk]
  by_cases hn : e.isNaN = true
  · simp [hn, supportsEquality]
  · rw [if_neg (by simpa using hn), compareElements_eq_threeWay hc, hk]
    simp [ComparisonType.holds]

/-! ## The rules for a comparison filter -/

/-- The rule for a `$in` inside a comparison is sound: each equality is inside it, and a null
among them stands for the missing field and undefined that the `$in` matches with it. -/
theorem inSubsetOf_sound {p rp : String} {rt : ComparisonType} {d₂ : BSONElement}
    {equalities : List BSONElement}
    (h : (equalities.all fun x => comparisonSubsetOf .EQ p x rt rp d₂) = true) (e : BSONElement)
    (hm : inMatches equalities e = true) : comparisonMatches rt d₂ e = true := by
  simp only [List.all_eq_true] at h
  unfold inMatches at hm
  simp only [Bool.or_eq_true, Bool.and_eq_true, List.any_eq_true, beq_iff_eq] at hm
  rcases hm with ⟨hn, he⟩ | ⟨x, hx, hw⟩
  · unfold hasNull at hn
    simp only [List.any_eq_true, beq_iff_eq] at hn
    obtain ⟨x, hx, rfl⟩ := hn
    refine comparisonSubsetOf_sound (h _ hx) e ?_
    rcases he with rfl | rfl <;> decide
  · exact comparisonSubsetOf_sound (h x hx) e (comparisonMatches_of_woCompare hw)

theorem subsetOfComparison_sound {lhs : MatchExpression} {t : ComparisonType} {p : String}
    {d : BSONElement} (h : subsetOfComparison lhs t p d = true) (doc : Document)
    (hm : «matches» doc lhs = true) : «matches» doc (comparison t p d) = true := by
  unfold subsetOfComparison at h
  split_ifs at h with hp
  have hp' : lhs.path = p := not_not.mp hp
  cases lhs with
  | comparison lt lp ld =>
    simp only [path] at hp'
    subst hp'
    simp only [«matches»] at hm ⊢
    exact comparisonSubsetOf_sound h _ hm
  | matchIn lp equalities =>
    simp only [path] at hp'
    subst hp'
    simp only [«matches»] at hm ⊢
    exact inSubsetOf_sound h _ hm
  | «exists» _ | not _ | and _ | or _ => simp at h

theorem equivalent_comparison_sound {lhs : MatchExpression} {t : ComparisonType} {p : String}
    {d : BSONElement} (h : lhs.equivalent (comparison t p d) = true) (doc : Document)
    (hm : «matches» doc lhs = true) : «matches» doc (comparison t p d) = true := by
  cases lhs with
  | comparison lt lp ld =>
    simp only [equivalent, Bool.and_eq_true, beq_iff_eq] at h
    obtain ⟨⟨rfl, rfl⟩, hw⟩ := h
    simp only [«matches»] at hm ⊢
    rwa [← comparisonMatches_congr hw]
  | «exists» _ | matchIn _ _ | not _ | and _ | or _ => simp [equivalent] at h

mutual

/-- The recursion through `$and` and `$or` on the left keeps the rules sound: one clause of an
`$and` inside the filter, or every clause of an `$or`. -/
theorem subsetOfNonAnd_sound {t : ComparisonType} {p : String} {d : BSONElement}
    (doc : Document) : ∀ lhs, subsetOfNonAnd (comparison t p d) lhs = true →
      «matches» doc lhs = true → «matches» doc (comparison t p d) = true
  | and cs, h, hm => anySubsetOfNonAnd_sound doc cs h hm
  | or cs, h, hm => allSubsetOfNonAnd_sound doc cs h hm
  | comparison .., h, hm | «exists» _, h, hm | matchIn .., h, hm | not _, h, hm =>
    subsetOfComparison_sound h doc hm

theorem anySubsetOfNonAnd_sound {t : ComparisonType} {p : String} {d : BSONElement}
    (doc : Document) : ∀ cs, anySubsetOfNonAnd (comparison t p d) cs = true →
      matchesAll doc cs = true → «matches» doc (comparison t p d) = true
  | [], h, _ => by simp [anySubsetOfNonAnd] at h
  | c :: cs, h, hm => by
    simp only [anySubsetOfNonAnd, Bool.or_eq_true] at h
    simp only [matchesAll, Bool.and_eq_true] at hm
    rcases h with (he | hs) | hcs
    · exact equivalent_comparison_sound he doc hm.1
    · exact subsetOfNonAnd_sound doc c hs hm.1
    · exact anySubsetOfNonAnd_sound doc cs hcs hm.2

theorem allSubsetOfNonAnd_sound {t : ComparisonType} {p : String} {d : BSONElement}
    (doc : Document) : ∀ cs, allSubsetOfNonAnd (comparison t p d) cs = true →
      matchesAny doc cs = true → «matches» doc (comparison t p d) = true
  | [], _, hm => by simp [matchesAny] at hm
  | c :: cs, h, hm => by
    simp only [allSubsetOfNonAnd, Bool.and_eq_true, Bool.or_eq_true] at h
    simp only [matchesAny, Bool.or_eq_true] at hm
    rcases hm with hc | hcs
    · rcases h.1 with he | hs
      · exact equivalent_comparison_sound he doc hc
      · exact subsetOfNonAnd_sound doc c hs hc
    · exact allSubsetOfNonAnd_sound doc cs h.2 hcs

end

/-- For an index whose partial filter is a comparison, `isSubsetOf` is sound: every document
that the query matches, the filter matches. -/
theorem isSubsetOf_comparison_sound {lhs : MatchExpression} {t : ComparisonType} {p : String}
    {d : BSONElement} (h : isSubsetOf lhs (comparison t p d) = true) (doc : Document)
    (hm : «matches» doc lhs = true) : «matches» doc (comparison t p d) = true := by
  simp only [isSubsetOf, Bool.or_eq_true] at h
  rcases h with he | hs
  · exact equivalent_comparison_sound he doc hm
  · exact subsetOfNonAnd_sound doc lhs hs hm

/-- A query on a field greater than MinKey is taken to fall within an index on that field's
existence, yet a document without the field matches the query: the missing field reaches
the comparison as EOO, whose canonical type is not MinKey's, and every such element lies above
MinKey. The rule at fault is the one for `$exists`: for a filter that is a comparison,
`isSubsetOf` is sound. -/
theorem gt_minKey_subset_of_exists_unsound :
    (isSubsetOf (comparison .GT "a" .minKey) («exists» "a") = true ∧
      «matches» [] (comparison .GT "a" .minKey) = true ∧
      «matches» [] («exists» "a") = false) ∧
    ∀ (lhs : MatchExpression) (t : ComparisonType) (p : String) (d : BSONElement),
      isSubsetOf lhs (comparison t p d) = true →
      ∀ doc, «matches» doc lhs = true → «matches» doc (comparison t p d) = true :=
  ⟨by decide, fun _ _ _ _ h doc hm => isSubsetOf_comparison_sound h doc hm⟩

end MatchExpression

end mongo
