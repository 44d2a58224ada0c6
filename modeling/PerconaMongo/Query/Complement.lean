-- `OrderedIntervalList::complement` of index_bounds.cpp: a sweep from MinKey to MaxKey that
-- keeps the boundary where the next gap starts and whether the list includes it, and emits the
-- gap before each interval and the one after the last. Over any total preorder with a greatest
-- value the gaps are sorted, disjoint and hold exactly the points past the first boundary that
-- the list does not; a gap the sweep leaves out must hold no point. Under `woCompare` the sweep
-- starts past nothing, and the one gap it leaves out on purpose, between `[undefined, undefined]`
-- and `[null, null]`, is empty because no value lies strictly between the two.
import PerconaMongo.Query.IndexBounds

namespace mongo

open total_preorder interval_bounds Interval

/-! ## The model -/

namespace OrderedIntervalList

/-- The loop of `complement` over the intervals left, from `curBoundary`, included in the list
when `curInclusive` holds; after the last interval, the gap up to `MaxKey`. The elements of an
index bound all carry the empty field name, so `woCompare` with field names compares values. -/
def complementLoop (curBoundary : BSONElement) (curInclusive : Bool) :
    List (Interval BSONElement) → List (Interval BSONElement)
  | [] =>
    if BSONElement.woCompare .maxKey curBoundary ≠ 0 ∨ !curInclusive then
      [⟨curBoundary, !curInclusive, .maxKey, true⟩]
    else []
  | curInt :: rest =>
    -- the points of `{a: {$eq: null}}` are undefined and null, with nothing between them
    let isProvablyEmptyRange :=
      decide (curBoundary = .undefined) && curInclusive && decide (curInt.start = .null) &&
        curInt.startInclusive
    let newIntervals :=
      if (BSONElement.woCompare curInt.start curBoundary ≠ 0 ∨
          (!curInclusive && !curInt.startInclusive)) ∧ !isProvablyEmptyRange then
        [⟨curBoundary, !curInclusive, curInt.start, !curInt.startInclusive⟩]
      else []
    newIntervals ++ complementLoop curInt.end curInt.endInclusive rest

/-- `OrderedIntervalList::complement`: the sweep from MinKey, which no interval includes yet. -/
def complement (oil : OrderedIntervalList BSONElement) : OrderedIntervalList BSONElement :=
  { oil with intervals := complementLoop .minKey false oil.intervals }

end OrderedIntervalList

/-! ## Points past a lower bound -/

/-- Cutting `X` by a chain `X ⊇ Y ⊇ Z ⊇ P`: what lies outside the band `Y \ Z` and outside `P`
is what lies before the band, and what lies after it outside `P`. -/
theorem diff_union_diff_of_subset {β : Type*} {X Y Z P : Set β} (hYX : Y ⊆ X) (hZY : Z ⊆ Y)
    (hPZ : P ⊆ Z) : X \ (Y \ Z ∪ P) = X \ Y ∪ Z \ P := by
  ext x
  have := @hYX x
  have := @hZY x
  have := @hPZ x
  simp only [Set.mem_sdiff, Set.mem_union]
  tauto

variable {α : Type} (cmp : α → α → Int)

/-- The points above the lower bound `s`. -/
def above (s : α × Bool) : Set α := {x | AboveStart cmp s x}

/-- What the sweep of `complement` gives from the boundary `b` over the intervals `L` it has
left: valid intervals, sorted and disjoint, starting past the boundary, that hold the points
past the boundary which `L` does not. -/
structure ComplementSpec (b : α × Bool) (L R : List (Interval α)) : Prop where
  starts : ∀ r ∈ R, StartLE cmp (b.1, !b.2) r.startBound
  sorted : R.Pairwise (Before cmp)
  valid : ∀ r ∈ R, r.Valid cmp
  points : pointsOf cmp R = above cmp (b.1, !b.2) \ pointsOf cmp L

theorem Interval.Valid.startLE_past {cmp : α → α → Int} {i : Interval α} (hv : i.Valid cmp) :
    StartLE cmp i.startBound (i.end, !i.endInclusive) := by
  rcases hv with hlt | ⟨heq, -, hei⟩
  · exact .inl hlt
  · exact .inr ⟨heq, fun hf => by simp [hei] at hf⟩

/-- Before a valid interval ends, the points below its start have ended. -/
theorem Interval.Valid.gap_past {cmp : α → α → Int} {i : Interval α} (hv : i.Valid cmp) :
    Gap cmp (i.start, !i.startInclusive) (i.end, !i.endInclusive) := by
  rcases hv with hlt | ⟨heq, hsi, -⟩
  · exact .inl hlt
  · exact .inr ⟨heq, .inl (by simp [hsi])⟩

section Preorder

variable {cmp} (h : IsTotalPreorder cmp)
include h

theorem above_subset_above {s s' : α × Bool} (hle : StartLE cmp s s') :
    above cmp s' ⊆ above cmp s :=
  fun _ hx => aboveStart_of_startLE h hle hx

/-- An interval holds the points above its start that are not past its end. -/
theorem points_eq_diff (i : Interval α) :
    i.points cmp = above cmp i.startBound \ above cmp (i.end, !i.endInclusive) := by
  ext x
  simp only [mem_points, above, Set.mem_sdiff, Set.mem_ofPred_eq]
  rw [endBound, belowEnd_iff_not_aboveStart h]

/-- The points of intervals that all start past `s` lie past `s`. -/
theorem pointsOf_subset_above {s : α × Bool} {L : List (Interval α)}
    (hL : ∀ r ∈ L, StartLE cmp s r.startBound) : pointsOf cmp L ⊆ above cmp s := by
  rintro x ⟨r, hr, hx⟩
  exact aboveStart_of_startLE h (hL r hr) hx.1

/-- The gap from the boundary `b` to the start of the next interval is a valid interval when the
sweep emits it: it starts before that start, or at it with both ends excluded from the list. -/
theorem valid_gap {b s : α × Bool} (hg : Gap cmp b s)
    (hne : cmp s.1 b.1 ≠ 0 ∨ (b.2 = false ∧ s.2 = false)) :
    (⟨b.1, !b.2, s.1, !s.2⟩ : Interval α).Valid cmp := by
  have hle : cmp b.1 s.1 ≤ 0 := by unfold Gap at hg; omega
  unfold Valid
  dsimp only
  rcases hne with hne | ⟨hb, hs⟩
  · exact .inl (by have := mt h.eq_zero_comm.mp hne; omega)
  · by_cases hlt : cmp b.1 s.1 < 0
    · exact .inl hlt
    · exact .inr ⟨by omega, by simp [hb], by simp [hs]⟩

/-! ## One step of the sweep -/

namespace ComplementSpec

variable {b : α × Bool} {I : Interval α} {L R : List (Interval α)}

/-- Past the last interval: the gap up to a greatest value `top`. -/
theorem last {top : α} (htop : ∀ x, cmp x top ≤ 0) (hne : cmp top b.1 ≠ 0 ∨ b.2 = false) :
    ComplementSpec cmp b [] [⟨b.1, !b.2, top, true⟩] where
  starts r hr := by
    rw [List.mem_singleton] at hr
    subst hr
    exact startLE_refl h _
  sorted := List.pairwise_singleton _ _
  valid r hr := by
    rw [List.mem_singleton] at hr
    subst hr
    have hle := htop b.1
    unfold Valid
    dsimp only
    rcases hne with hne | hb
    · exact .inl (by have := mt h.eq_zero_comm.mp hne; omega)
    · by_cases hlt : cmp b.1 top < 0
      · exact .inl hlt
      · exact .inr ⟨by omega, by simp [hb], rfl⟩
  points := by
    ext x
    simp only [pointsOf_cons, pointsOf_nil, Set.union_empty, mem_points, above, Set.sdiff_empty,
      Set.mem_ofPred_eq, BelowEnd, endBound, if_true, htop x, and_true]
    rfl

/-- Past the last interval, when the boundary is the greatest value and the list includes it:
nothing is left. -/
theorem none_left {top : α} (htop : ∀ x, cmp x top ≤ 0) (heq : cmp top b.1 = 0)
    (hb : b.2 = true) : ComplementSpec cmp b [] [] where
  starts := by simp
  sorted := List.Pairwise.nil
  valid := by simp
  points := by
    -- no point lies past the greatest value
    ext x
    simp only [pointsOf_nil, Set.sdiff_empty, Set.mem_empty_iff_false, above, Set.mem_ofPred_eq,
      AboveStart, hb, Bool.not_true, Bool.false_eq_true, if_false, false_iff]
    intro hlt
    have htb : cmp top b.1 ≤ 0 := by omega
    have := h.lt_of_lt_of_le hlt (h.trans x top b.1 (htop x) htb)
    have := h.refl b.1
    omega

/-- The points of the gap before `I` and the points past `I` that the rest of the list does not
hold are the points past the boundary that the list does not hold. -/
theorem points_step (hv : I.Valid cmp) (hg : Gap cmp b I.startBound)
    (hL : ∀ r ∈ L, Before cmp I r) :
    above cmp (b.1, !b.2) \ pointsOf cmp (I :: L) =
      above cmp (b.1, !b.2) \ above cmp I.startBound ∪
        above cmp (I.end, !I.endInclusive) \ pointsOf cmp L := by
  rw [pointsOf_cons, points_eq_diff h I]
  exact diff_union_diff_of_subset (above_subset_above h (startLE_of_gap hg))
    (above_subset_above h hv.startLE_past)
    (pointsOf_subset_above h fun r hr => startLE_of_gap (hL r hr))

/-- The sweep emits the gap before `I`. -/
theorem gap (hs : ComplementSpec cmp I.endBound L R) (hv : I.Valid cmp)
    (hg : Gap cmp b I.startBound) (hL : ∀ r ∈ L, Before cmp I r)
    (hne : cmp I.start b.1 ≠ 0 ∨ (b.2 = false ∧ I.startInclusive = false)) :
    ComplementSpec cmp b (I :: L) (⟨b.1, !b.2, I.start, !I.startInclusive⟩ :: R) where
  starts r hr := by
    rcases List.mem_cons.mp hr with rfl | hr
    · exact startLE_refl h _
    · exact startLE_trans h (startLE_trans h (startLE_of_gap hg) hv.startLE_past) (hs.starts r hr)
  sorted := by
    refine List.pairwise_cons.mpr ⟨fun r hr => ?_, hs.sorted⟩
    -- the gap ends where `I` starts, before `I` ends and so before the rest starts
    exact gap_mono h (endLE_refl h _) hv.gap_past (hs.starts r hr)
  valid r hr := by
    rcases List.mem_cons.mp hr with rfl | hr
    · exact valid_gap h hg hne
    · exact hs.valid r hr
  points := by
    rw [points_step h hv hg hL, pointsOf_cons, hs.points, points_eq_diff h, Bool.not_not]
    rfl

/-- The sweep leaves out a gap before `I` that holds no point. -/
theorem skip (hs : ComplementSpec cmp I.endBound L R) (hv : I.Valid cmp)
    (hg : Gap cmp b I.startBound) (hL : ∀ r ∈ L, Before cmp I r)
    (hempty : above cmp (b.1, !b.2) ⊆ above cmp I.startBound) :
    ComplementSpec cmp b (I :: L) R where
  starts r hr :=
    startLE_trans h (startLE_trans h (startLE_of_gap hg) hv.startLE_past) (hs.starts r hr)
  sorted := hs.sorted
  valid := hs.valid
  points := by
    rw [points_step h hv hg hL, Set.sdiff_eq_empty.mpr hempty, Set.empty_union, hs.points]
    rfl

end ComplementSpec

end Preorder

/-! ## The sweep under `woCompare` -/

namespace BSONElement

theorem woCompare_minKey_le (x : BSONElement) : woCompare .minKey x ≤ 0 := by
  cases x <;> simp [woCompare, canonicalType, compareElements, isNumber]

theorem woCompare_le_maxKey (x : BSONElement) : woCompare x .maxKey ≤ 0 := by
  cases x <;> simp [woCompare, canonicalType, compareElements, isNumber]

/-- No value lies strictly between undefined and null: past undefined is at or past null. -/
theorem woCompare_null_le_of_undefined_lt {x : BSONElement} (hx : woCompare .undefined x < 0) :
    woCompare .null x ≤ 0 := by
  cases x <;> simp_all [woCompare, canonicalType, compareElements, isNumber]

end BSONElement

open BSONElement

namespace OrderedIntervalList

/-- The sweep from the boundary `(b, c)` over valid, sorted and disjoint intervals that start
after it. The induction is on the intervals left, each step one of the three of `ComplementSpec`. -/
theorem complementLoop_spec (L : List (Interval BSONElement)) :
    ∀ (b : BSONElement) (c : Bool), (∀ i ∈ L, i.Valid woCompare) →
      L.Pairwise (Before woCompare) → (∀ i ∈ L, Gap woCompare (b, c) i.startBound) →
      ComplementSpec woCompare (b, c) L (complementLoop b c L) := by
  have h := woCompare_isTotalPreorder
  induction L with
  | nil =>
    intro b c _ _ _
    unfold complementLoop
    split
    · rename_i hne
      exact ComplementSpec.last h woCompare_le_maxKey (by simpa using hne)
    · rename_i hne
      simp only [not_or, not_not, Bool.not_eq_true', Bool.not_eq_false] at hne
      exact ComplementSpec.none_left h woCompare_le_maxKey hne.1 hne.2
  | cons I L ih =>
    intro b c hv hs hg
    have hI : I.Valid woCompare := hv I (by simp)
    have hL : ∀ r ∈ L, Before woCompare I r := fun r hr => List.rel_of_pairwise_cons hs hr
    have hrest := ih I.end I.endInclusive (fun i hi => hv i (by simp [hi])) hs.of_cons hL
    have hgI := hg I (by simp)
    unfold complementLoop
    dsimp only
    split
    · rename_i hemit
      obtain ⟨hne, -⟩ := hemit
      exact hrest.gap h hI hgI hL (by simpa using hne)
    · rename_i hleave
      refine hrest.skip h hI hgI hL ?_
      by_cases hempty : decide (b = .undefined) && c && decide (I.start = .null) &&
          I.startInclusive
      · -- `(undefined, null)`: nothing lies strictly between
        simp only [Bool.and_eq_true, decide_eq_true_eq] at hempty
        obtain ⟨⟨⟨rfl, rfl⟩, hnull⟩, hsi⟩ := hempty
        intro x hx
        simp only [above, Set.mem_ofPred_eq, AboveStart, startBound, Bool.not_true,
          Bool.false_eq_true, if_false, hsi, if_true, hnull] at hx ⊢
        exact woCompare_null_le_of_undefined_lt hx
      · -- `I` starts at the boundary, and one of the two includes it
        simp only [hempty, Bool.not_false, and_true, not_or, not_not] at hleave
        obtain ⟨heq, hincl⟩ := hleave
        apply above_subset_above h
        refine .inr ⟨heq, fun hb => ?_⟩
        cases c <;> cases hsi : I.startInclusive <;> simp_all

/-- `complement` of valid, sorted and disjoint intervals gives valid, sorted and disjoint
intervals holding exactly the points the list does not. -/
theorem complement_spec (oil : OrderedIntervalList BSONElement)
    (hv : ∀ i ∈ oil.intervals, i.Valid woCompare) (hs : oil.intervals.Pairwise (Before woCompare)) :
    (∀ r ∈ oil.complement.intervals, r.Valid woCompare) ∧
      oil.complement.intervals.Pairwise (Before woCompare) ∧
      pointsOf woCompare oil.complement.intervals = (pointsOf woCompare oil.intervals)ᶜ := by
  -- every interval starts past MinKey excluded: the sweep's first gap starts at MinKey
  have hg : ∀ i ∈ oil.intervals, Gap woCompare (.minKey, false) i.startBound := by
    intro i _
    rcases lt_or_eq_of_le (woCompare_minKey_le i.start) with hlt | heq
    · exact .inl hlt
    · exact .inr ⟨heq, .inl rfl⟩
  have hspec := complementLoop_spec oil.intervals .minKey false hv hs hg
  have huniv : above woCompare ((.minKey, !false) : BSONElement × Bool) = Set.univ := by
    ext x
    simp [above, AboveStart, woCompare_minKey_le x]
  refine ⟨hspec.valid, hspec.sorted, ?_⟩
  rw [complement, hspec.points, huniv, Set.compl_eq_univ_sdiff]

/-- `ComplementRanges2` of index_bounds_test.cpp: the complement of `(MinKey, 3), (3, MaxKey)`. -/
example : (complement ⟨[⟨.minKey, false, .numberInt 3, false⟩, ⟨.numberInt 3, false, .maxKey, false⟩],
    "a"⟩).intervals = [⟨.minKey, true, .minKey, true⟩, ⟨.numberInt 3, true, .numberInt 3, true⟩,
      ⟨.maxKey, true, .maxKey, true⟩] := by
  decide

/-- The list of `ComplementRanges`: `[MinKey, 3), [5, MaxKey)`. -/
def threeFive : OrderedIntervalList BSONElement :=
  ⟨[⟨.minKey, true, .numberInt 3, false⟩, ⟨.numberInt 5, true, .maxKey, false⟩], "a"⟩

theorem complement_is_set_complement (oil : OrderedIntervalList BSONElement)
    (hv : ∀ i ∈ oil.intervals, i.Valid woCompare) (hs : oil.intervals.Pairwise (Before woCompare)) :
    (∀ r ∈ oil.complement.intervals, r.Valid woCompare) ∧
      oil.complement.intervals.Pairwise (Before woCompare) ∧
      pointsOf woCompare oil.complement.intervals =
        {x | woCompare .minKey x ≤ 0 ∧ woCompare x .maxKey ≤ 0} \ pointsOf woCompare oil.intervals ∧
      pointsOf woCompare oil.complement.complement.intervals = pointsOf woCompare oil.intervals := by
  obtain ⟨hv', hs', hp'⟩ := complement_spec oil hv hs
  -- the complement meets the same conditions, so it can be complemented again
  obtain ⟨-, -, hp''⟩ := complement_spec oil.complement hv' hs'
  have hall : {x | woCompare .minKey x ≤ 0 ∧ woCompare x .maxKey ≤ 0} = Set.univ :=
    Set.eq_univ_of_forall fun x => ⟨woCompare_minKey_le x, woCompare_le_maxKey x⟩
  refine ⟨hv', hs', ?_, ?_⟩
  · rw [hp', hall, Set.compl_eq_univ_sdiff]
  · rw [hp'', hp', compl_compl]

/-- The complement of `[MinKey, 3), [5, MaxKey)`, as in `ComplementRanges`. -/
theorem complement_is_set_complement_ranges :
    ((∀ i ∈ threeFive.intervals, i.Valid woCompare) ∧
      threeFive.intervals.Pairwise (Before woCompare)) ∧
    (∀ r ∈ threeFive.complement.intervals, r.Valid woCompare) ∧
      threeFive.complement.intervals.Pairwise (Before woCompare) ∧
      pointsOf woCompare threeFive.complement.intervals =
        {x | woCompare .minKey x ≤ 0 ∧ woCompare x .maxKey ≤ 0} \ pointsOf woCompare threeFive.intervals ∧
      pointsOf woCompare threeFive.complement.complement.intervals =
        pointsOf woCompare threeFive.intervals := by
  have hv : ∀ i ∈ threeFive.intervals, i.Valid woCompare := by decide
  have hs : threeFive.intervals.Pairwise (Before woCompare) := by decide
  exact ⟨⟨hv, hs⟩, complement_is_set_complement threeFive hv hs⟩

end OrderedIntervalList

end mongo
