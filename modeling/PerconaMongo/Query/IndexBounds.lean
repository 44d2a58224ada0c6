-- `IndexBoundsBuilder::intersectize` and `unionize` of index_bounds_builder.cpp: the
-- intersection of two ordered interval lists by a walk over both, and the union of intervals in
-- any order by a sort and a walk that merges neighbours. Each is a set operation on the points the
-- intervals hold: what one step of a walk keeps is stated once as a spec of the lists that are
-- left, and the walk's own recursion carries it to the whole list.
import PerconaMongo.Query.Interval
import PerconaMongo.Bson.Order

namespace mongo

open total_preorder interval_bounds Interval IntervalComparison

/-- `OrderedIntervalList`: the intervals of one field of an index's bounds. -/
structure OrderedIntervalList (α : Type) where
  intervals : List (Interval α)
  name : String
  deriving Repr

variable {α : Type} (cmp : α → α → Int)

/-! ## The model -/

/-- `IntervalComparison`, the order of the sort in `unionize`: by start, an included start
first. It is a strict weak order: equivalent intervals compare false both ways. -/
def intervalComparison (lhs rhs : Interval α) : Bool :=
  let wo := cmp lhs.start rhs.start
  if wo ≠ 0 then decide (wo < 0)
  else if lhs.startInclusive = rhs.startInclusive then false
  else lhs.startInclusive

namespace IndexBoundsBuilder

variable [Inhabited α]

/-- The loop of `intersectize` over the intervals of `oilA` and `oilB` from the indexes it has
reached. Each step either passes the interval that lies before the other or keeps their
intersection and passes the one that ends first (both, for equal intervals). -/
def intersectizeLoop : List (Interval α) → List (Interval α) → Except IntervalError (List (Interval α))
  | [], _ => pure []
  | _ :: _, [] => pure []
  | a :: as, b :: bs =>
    match a.compare cmp b with
    | INTERVAL_UNKNOWN => throw .verifyFailed
    | INTERVAL_PRECEDES | INTERVAL_PRECEDES_COULD_UNION => intersectizeLoop as (b :: bs)
    | INTERVAL_SUCCEEDS => intersectizeLoop (a :: as) bs
    | INTERVAL_EQUALS => do
      let newInt ← a.intersect cmp b INTERVAL_EQUALS
      let result ← intersectizeLoop as bs
      pure (newInt :: result)
    | INTERVAL_WITHIN => do
      let newInt ← a.intersect cmp b INTERVAL_WITHIN
      let result ← intersectizeLoop as (b :: bs)
      pure (newInt :: result)
    | INTERVAL_CONTAINS => do
      let newInt ← a.intersect cmp b INTERVAL_CONTAINS
      let result ← intersectizeLoop (a :: as) bs
      pure (newInt :: result)
    | INTERVAL_OVERLAPS_BEFORE => do
      let newInt ← a.intersect cmp b INTERVAL_OVERLAPS_BEFORE
      let result ← intersectizeLoop as (b :: bs)
      pure (newInt :: result)
    | INTERVAL_OVERLAPS_AFTER => do
      let newInt ← a.intersect cmp b INTERVAL_OVERLAPS_AFTER
      let result ← intersectizeLoop (a :: as) bs
      pure (newInt :: result)
termination_by as bs => as.length + bs.length

/-- `IndexBoundsBuilder::intersectize`: `oilB` with its intervals replaced by the intersection.
The checks that both lists ascend are debug-build only and left out. -/
def intersectize (oilA oilB : OrderedIntervalList α) : Except IntervalError (OrderedIntervalList α) :=
  if oilA.name ≠ oilB.name then throw .invariantFailure
  else do
    let result ← intersectizeLoop cmp oilA.intervals oilB.intervals
    pure { oilB with intervals := result }

end IndexBoundsBuilder

/-- The walk of `unionize` after its sort, with `cur` the interval at `i` and the list the
intervals after it. An answer that no branch handles (`INTERVAL_OVERLAPS_AFTER`) leaves `i` and
the vector as they were, so the loop never ends. -/
def unionizeLoop (cur : Interval α) : List (Interval α) → Except IntervalError (List (Interval α))
  | [] => pure [cur]
  | next :: rest =>
    match cur.compare cmp next with
    | INTERVAL_SUCCEEDS => throw .verifyFailed
    | INTERVAL_PRECEDES => do
      let result ← unionizeLoop next rest
      pure (cur :: result)
    | INTERVAL_EQUALS | INTERVAL_WITHIN => unionizeLoop next rest
    | INTERVAL_CONTAINS => unionizeLoop cur rest
    | INTERVAL_OVERLAPS_BEFORE | INTERVAL_PRECEDES_COULD_UNION =>
      unionizeLoop ⟨cur.start, cur.startInclusive, next.end, next.endInclusive⟩ rest
    | INTERVAL_OVERLAPS_AFTER | INTERVAL_UNKNOWN => throw .nonTermination

/-- `IndexBoundsBuilder::unionize`. `std::sort` is modelled by a merge sort by the same order;
the results below hold for every list that the order sorts. The sort of an empty list is empty,
which is the early return. -/
def IndexBoundsBuilder.unionize (oilOut : OrderedIntervalList α) :
    Except IntervalError (OrderedIntervalList α) :=
  match oilOut.intervals.mergeSort (fun a b => !intervalComparison cmp b a) with
  | [] => pure oilOut
  | first :: rest => do
    let iv ← unionizeLoop cmp first rest
    pure { oilOut with intervals := iv }

/-! ## The points of a list of intervals -/

/-- The points of a list of intervals: those of any of them. -/
def pointsOf (l : List (Interval α)) : Set α := {x | ∃ i ∈ l, x ∈ i.points cmp}

@[simp]
theorem pointsOf_nil : pointsOf cmp ([] : List (Interval α)) = ∅ := by
  simp [pointsOf]

@[simp]
theorem pointsOf_cons (i : Interval α) (l : List (Interval α)) :
    pointsOf cmp (i :: l) = i.points cmp ∪ pointsOf cmp l := by
  ext x
  simp [pointsOf]

theorem pointsOf_perm {l l' : List (Interval α)} (hp : l.Perm l') : pointsOf cmp l = pointsOf cmp l' := by
  ext x
  simp [pointsOf, hp.mem_iff]

/-- What the walk of `intersectize` gives from the lists `A` and `B` it has left: intervals that
start no earlier than some interval of each list, sorted and disjoint, valid, and holding the
points that both lists hold. -/
structure IntersectSpec (A B R : List (Interval α)) : Prop where
  starts : ∀ r ∈ R, (∃ a ∈ A, StartLE cmp a.startBound r.startBound) ∧
    (∃ b ∈ B, StartLE cmp b.startBound r.startBound)
  sorted : R.Pairwise (Before cmp)
  valid : ∀ r ∈ R, r.Valid cmp
  points : pointsOf cmp R = pointsOf cmp A ∩ pointsOf cmp B

/-- What the walk of `unionize` gives from the interval `cur` it is at and the intervals after
it: intervals that start no earlier than `cur`, separated, valid, and holding the points of all. -/
structure UnionSpec (cur : Interval α) (rest R : List (Interval α)) : Prop where
  starts : ∀ r ∈ R, StartLE cmp cur.startBound r.startBound
  sorted : R.Pairwise (Separated cmp)
  valid : ∀ r ∈ R, r.Valid cmp
  points : pointsOf cmp R = cur.points cmp ∪ pointsOf cmp rest

section Preorder

variable {cmp} (h : IsTotalPreorder cmp)
include h

theorem points_inter_eq_empty {a b : Interval α} (hab : Before cmp a b) :
    a.points cmp ∩ b.points cmp = ∅ := by
  ext x
  simp only [Set.mem_inter_iff, Set.mem_empty_iff_false, iff_false, not_and]
  intro ⟨_, hxa⟩ ⟨hxb, _⟩
  exact not_aboveStart_of_gap h hab hxa hxb

theorem points_inter_pointsOf_eq_empty {a : Interval α} {B : List (Interval α)}
    (hB : ∀ b ∈ B, Before cmp a b) : a.points cmp ∩ pointsOf cmp B = ∅ := by
  induction B with
  | nil => simp
  | cons b bs ih =>
    rw [pointsOf_cons, Set.inter_union_distrib_left, points_inter_eq_empty h (hB b (by simp)),
      ih (fun b' hb' => hB b' (by simp [hb'])), Set.empty_union]

theorem pointsOf_inter_points_eq_empty {b : Interval α} {A : List (Interval α)}
    (hA : ∀ a ∈ A, Before cmp b a) : pointsOf cmp A ∩ b.points cmp = ∅ := by
  rw [Set.inter_comm]
  exact points_inter_pointsOf_eq_empty h hA

/-- Before a valid interval that is before `c`, an interval is before `c` too. -/
theorem before_trans {a b c : Interval α} (hb : b.Valid cmp) (hab : Before cmp a b)
    (hbc : Before cmp b c) : Before cmp a c :=
  gap_mono h (endLE_of_gap h hab ((valid_iff h b).mp hb)) hbc (startLE_refl h _)

/-! ## The walk of `intersectize` -/

namespace IntersectSpec

/-- Passing an interval of `A` that lies before all of `B`. -/
theorem cons_left {a : Interval α} {as B R : List (Interval α)} (hs : IntersectSpec cmp as B R)
    (hB : ∀ b ∈ B, Before cmp a b) : IntersectSpec cmp (a :: as) B R where
  starts r hr := ⟨(hs.starts r hr).1.imp fun _ ⟨ha, hle⟩ => ⟨by simp [ha], hle⟩, (hs.starts r hr).2⟩
  sorted := hs.sorted
  valid := hs.valid
  points := by
    rw [hs.points, pointsOf_cons, Set.union_inter_distrib_right,
      points_inter_pointsOf_eq_empty h hB, Set.empty_union]

/-- Passing an interval of `B` that lies before all of `A`. -/
theorem cons_right {b : Interval α} {A bs R : List (Interval α)} (hs : IntersectSpec cmp A bs R)
    (hA : ∀ a ∈ A, Before cmp b a) : IntersectSpec cmp A (b :: bs) R where
  starts r hr := ⟨(hs.starts r hr).1, (hs.starts r hr).2.imp fun _ ⟨hb, hle⟩ => ⟨by simp [hb], hle⟩⟩
  sorted := hs.sorted
  valid := hs.valid
  points := by
    rw [hs.points, pointsOf_cons, Set.inter_union_distrib_left,
      pointsOf_inter_points_eq_empty h hA, Set.empty_union]

/-- Keeping the meet of `a` and `b` and passing `a`, which ends first. -/
theorem meet_left {a b n : Interval α} {as bs R : List (Interval α)}
    (hs : IntersectSpec cmp as (b :: bs) R) (hm : IsMeet cmp n a b) (hn : n.Valid cmp)
    (hend : EndLE cmp a.endBound b.endBound) (hA : ∀ a' ∈ as, Before cmp a a')
    (hB : ∀ b' ∈ bs, Before cmp b b') : IntersectSpec cmp (a :: as) (b :: bs) (n :: R) where
  starts r hr := by
    rcases List.mem_cons.mp hr with rfl | hr
    · exact ⟨⟨a, by simp, hm.startLE_left⟩, ⟨b, by simp, hm.startLE_right⟩⟩
    · exact ⟨(hs.starts r hr).1.imp fun _ ⟨ha, hle⟩ => ⟨by simp [ha], hle⟩, (hs.starts r hr).2⟩
  sorted := by
    refine List.pairwise_cons.mpr ⟨fun r hr => ?_, hs.sorted⟩
    -- every later interval starts after an interval of `as`, which `a` is before
    obtain ⟨a', ha', hle⟩ := (hs.starts r hr).1
    exact gap_mono h hm.endLE_left (hA a' ha') hle
  valid r hr := by
    rcases List.mem_cons.mp hr with rfl | hr
    · exact hn
    · exact hs.valid r hr
  points := by
    have hdisj : a.points cmp ∩ pointsOf cmp bs = ∅ :=
      points_inter_pointsOf_eq_empty h fun b' hb' => gap_mono h hend (hB b' hb') (startLE_refl h _)
    rw [pointsOf_cons cmp n, hm.points_eq h, hs.points, pointsOf_cons cmp a, Set.union_inter_distrib_right,
      pointsOf_cons cmp b, Set.inter_union_distrib_left (a.points cmp), hdisj, Set.union_empty]

/-- Keeping the meet of `a` and `b` and passing `b`, which ends first. -/
theorem meet_right {a b n : Interval α} {as bs R : List (Interval α)}
    (hs : IntersectSpec cmp (a :: as) bs R) (hm : IsMeet cmp n a b) (hn : n.Valid cmp)
    (hend : EndLE cmp b.endBound a.endBound) (hA : ∀ a' ∈ as, Before cmp a a')
    (hB : ∀ b' ∈ bs, Before cmp b b') : IntersectSpec cmp (a :: as) (b :: bs) (n :: R) where
  starts r hr := by
    rcases List.mem_cons.mp hr with rfl | hr
    · exact ⟨⟨a, by simp, hm.startLE_left⟩, ⟨b, by simp, hm.startLE_right⟩⟩
    · exact ⟨(hs.starts r hr).1, (hs.starts r hr).2.imp fun _ ⟨hb, hle⟩ => ⟨by simp [hb], hle⟩⟩
  sorted := by
    refine List.pairwise_cons.mpr ⟨fun r hr => ?_, hs.sorted⟩
    obtain ⟨b', hb', hle⟩ := (hs.starts r hr).2
    exact gap_mono h hm.endLE_right (hB b' hb') hle
  valid r hr := by
    rcases List.mem_cons.mp hr with rfl | hr
    · exact hn
    · exact hs.valid r hr
  points := by
    have hdisj : pointsOf cmp as ∩ b.points cmp = ∅ :=
      pointsOf_inter_points_eq_empty h fun a' ha' => gap_mono h hend (hA a' ha') (startLE_refl h _)
    rw [pointsOf_cons cmp n, hm.points_eq h, hs.points, pointsOf_cons cmp b,
      Set.inter_union_distrib_left (pointsOf cmp (a :: as)), pointsOf_cons cmp a,
      Set.union_inter_distrib_right (a.points cmp) (pointsOf cmp as) (b.points cmp), hdisj,
      Set.union_empty]

end IntersectSpec

/-- An interval before the valid head of a sorted list is before all of it. -/
theorem before_of_before_head {a b : Interval α} {bs : List (Interval α)} (hb : b.Valid cmp)
    (hab : Before cmp a b) (hs : (b :: bs).Pairwise (Before cmp)) :
    ∀ b' ∈ b :: bs, Before cmp a b' := by
  intro b' hb'
  rcases List.mem_cons.mp hb' with rfl | hb'
  · exact hab
  · exact before_trans h hb hab (List.rel_of_pairwise_cons hs hb')

/-- An interval that ends no later than the head of a sorted list is before the rest of it. -/
theorem before_of_endLE {a b : Interval α} {bs : List (Interval α)}
    (hend : EndLE cmp a.endBound b.endBound) (hs : (b :: bs).Pairwise (Before cmp)) :
    ∀ b' ∈ bs, Before cmp a b' := fun _ hb' =>
  gap_mono h hend (List.rel_of_pairwise_cons hs hb') (startLE_refl h _)

section Walk

variable [Inhabited α]

/-- A step of the walk that keeps an intersection: where the intervals meet, `intersect` gives
their meet, valid, in front of what the rest of the walk gives. -/
theorem intersect_step {a b : Interval α} {c : IntervalComparison} (hc : a.compare cmp b = c)
    (hmeet : c = INTERVAL_EQUALS ∨ c = INTERVAL_WITHIN ∨ c = INTERVAL_CONTAINS ∨
      c = INTERVAL_OVERLAPS_BEFORE ∨ c = INTERVAL_OVERLAPS_AFTER)
    (ha : a.Valid cmp) (hb : b.Valid cmp) {rest : Except IntervalError (List (Interval α))}
    {R : List (Interval α)} (hR : rest = .ok R) :
    ∃ n, (do
        let newInt ← a.intersect cmp b c
        let result ← rest
        pure (newInt :: result)) = .ok (n :: R) ∧ IsMeet cmp n a b ∧ n.Valid cmp := by
  obtain ⟨n, hn, hm, hint⟩ := intersect_isMeet h hc hmeet
  refine ⟨n, ?_, hm, hm.valid h ha hb hint⟩
  rw [hn, hR]
  rfl

/-- The walk of `intersectize` over two sorted lists of valid intervals never fails, and gives
their intersection, sorted. -/
theorem intersectizeLoop_spec (A B : List (Interval α)) (hvA : ∀ a ∈ A, a.Valid cmp)
    (hvB : ∀ b ∈ B, b.Valid cmp) (hsA : A.Pairwise (Before cmp)) (hsB : B.Pairwise (Before cmp)) :
    ∃ R, IndexBoundsBuilder.intersectizeLoop cmp A B = .ok R ∧ IntersectSpec cmp A B R := by
  fun_induction IndexBoundsBuilder.intersectizeLoop cmp A B with
  | case1 B => exact ⟨[], rfl, ⟨by simp, .nil, by simp, by simp⟩⟩
  | case2 a as => exact ⟨[], rfl, ⟨by simp, .nil, by simp, by simp⟩⟩
  | case3 a as b bs hc => exact absurd hc (compare_ne_unknown cmp a b)
  | case4 a as b bs hc ih | case5 a as b bs hc ih =>
    -- `a` lies before `b`, so before all of `B`
    have hb := hvB b (by simp)
    have hab : Before cmp a b := before_of_compare_precedes h hb (by simp [hc])
    obtain ⟨R, hR, hs⟩ := ih (fun a' ha' => hvA a' (by simp [ha'])) hvB hsA.of_cons hsB
    exact ⟨R, hR, hs.cons_left h (before_of_before_head h hb hab hsB)⟩
  | case6 a as b bs hc ih =>
    have ha := hvA a (by simp)
    have hba := before_of_compare_succeeds h ha hc
    obtain ⟨R, hR, hs⟩ := ih hvA (fun b' hb' => hvB b' (by simp [hb'])) hsA hsB.of_cons
    exact ⟨R, hR, hs.cons_right h (before_of_before_head h ha hba hsA)⟩
  | case7 a as b bs hc ih =>
    -- equal intervals: both are passed, and each ends no later than the other
    obtain ⟨-, -, hab, hba⟩ := bounds_of_compare_equals h hc
    obtain ⟨R, hR, hs⟩ := ih (fun a' ha' => hvA a' (by simp [ha']))
      (fun b' hb' => hvB b' (by simp [hb'])) hsA.of_cons hsB.of_cons
    obtain ⟨n, hrun, hm, hn⟩ := intersect_step h hc (by simp) (hvA a (by simp)) (hvB b (by simp)) hR
    exact ⟨_, hrun, (hs.cons_right h (before_of_endLE h hba hsA)).meet_left h hm hn hab
      (fun _ ha' => List.rel_of_pairwise_cons hsA ha') (fun _ hb' => List.rel_of_pairwise_cons hsB hb')⟩
  | case8 a as b bs hc ih =>
    have hab := (bounds_of_compare_within h hc).2
    obtain ⟨R, hR, hs⟩ := ih (fun a' ha' => hvA a' (by simp [ha'])) hvB hsA.of_cons hsB
    obtain ⟨n, hrun, hm, hn⟩ := intersect_step h hc (by simp) (hvA a (by simp)) (hvB b (by simp)) hR
    exact ⟨_, hrun, hs.meet_left h hm hn hab (fun _ ha' => List.rel_of_pairwise_cons hsA ha')
      (fun _ hb' => List.rel_of_pairwise_cons hsB hb')⟩
  | case9 a as b bs hc ih =>
    have hba := (bounds_of_compare_contains h hc).2
    obtain ⟨R, hR, hs⟩ := ih hvA (fun b' hb' => hvB b' (by simp [hb'])) hsA hsB.of_cons
    obtain ⟨n, hrun, hm, hn⟩ := intersect_step h hc (by simp) (hvA a (by simp)) (hvB b (by simp)) hR
    exact ⟨_, hrun, hs.meet_right h hm hn hba (fun _ ha' => List.rel_of_pairwise_cons hsA ha')
      (fun _ hb' => List.rel_of_pairwise_cons hsB hb')⟩
  | case10 a as b bs hc ih =>
    have hab := (bounds_of_compare_overlapsBefore h hc).2.1
    obtain ⟨R, hR, hs⟩ := ih (fun a' ha' => hvA a' (by simp [ha'])) hvB hsA.of_cons hsB
    obtain ⟨n, hrun, hm, hn⟩ := intersect_step h hc (by simp) (hvA a (by simp)) (hvB b (by simp)) hR
    exact ⟨_, hrun, hs.meet_left h hm hn hab (fun _ ha' => List.rel_of_pairwise_cons hsA ha')
      (fun _ hb' => List.rel_of_pairwise_cons hsB hb')⟩
  | case11 a as b bs hc ih =>
    have hba := (bounds_of_compare_overlapsAfter h hc).2.1
    obtain ⟨R, hR, hs⟩ := ih hvA (fun b' hb' => hvB b' (by simp [hb'])) hsA hsB.of_cons
    obtain ⟨n, hrun, hm, hn⟩ := intersect_step h hc (by simp) (hvA a (by simp)) (hvB b (by simp)) hR
    exact ⟨_, hrun, hs.meet_right h hm hn hba (fun _ ha' => List.rel_of_pairwise_cons hsA ha')
      (fun _ hb' => List.rel_of_pairwise_cons hsB hb')⟩

/-- `intersectize` of two lists of one field, each sorted and of valid intervals, leaves in `oilB`
their intersection, sorted. -/
theorem intersectize_spec (oilA oilB : OrderedIntervalList α) (hname : oilA.name = oilB.name)
    (hvA : ∀ i ∈ oilA.intervals, i.Valid cmp) (hvB : ∀ i ∈ oilB.intervals, i.Valid cmp)
    (hsA : oilA.intervals.Pairwise (Before cmp)) (hsB : oilB.intervals.Pairwise (Before cmp)) :
    ∃ oilB', IndexBoundsBuilder.intersectize cmp oilA oilB = .ok oilB' ∧ oilB'.name = oilB.name ∧
      oilB'.intervals.Pairwise (Before cmp) ∧ (∀ i ∈ oilB'.intervals, i.Valid cmp) ∧
      pointsOf cmp oilB'.intervals = pointsOf cmp oilA.intervals ∩ pointsOf cmp oilB.intervals := by
  obtain ⟨R, hR, hs⟩ := intersectizeLoop_spec h _ _ hvA hvB hsA hsB
  refine ⟨{ oilB with intervals := R }, ?_, rfl, hs.sorted, hs.valid, hs.points⟩
  unfold IndexBoundsBuilder.intersectize
  rw [if_neg (not_not.mpr hname), hR]
  rfl

end Walk

/-! ## The walk of `unionize` -/

/-- The sort's order, read on the bounds: `b` is not ordered before `a` exactly when `a` starts
no later than `b`. -/
theorem not_intervalComparison_iff (a b : Interval α) :
    (!intervalComparison cmp b a) = true ↔ StartLE cmp a.startBound b.startBound := by
  obtain ⟨s, si, e, ei⟩ := a
  obtain ⟨s', si', e', ei'⟩ := b
  have := h.flip s s'
  have := h.flip s' s
  unfold intervalComparison StartLE
  cases si <;> cases si' <;> simp <;> omega

/-- Whatever order of equivalent intervals the sort gives, each interval starts no later than
those after it. -/
theorem pairwise_startLE_mergeSort (l : List (Interval α)) :
    (l.mergeSort fun a b => !intervalComparison cmp b a).Pairwise
      fun a b => StartLE cmp a.startBound b.startBound := by
  have hsort : (l.mergeSort fun a b => !intervalComparison cmp b a).Pairwise
      fun a b => (!intervalComparison cmp b a) = true := List.pairwise_mergeSort
    (fun a b c hab hbc => by
      rw [not_intervalComparison_iff h] at hab hbc ⊢
      exact startLE_trans h hab hbc)
    (fun a b => by
      by_cases hab : StartLE cmp a.startBound b.startBound
      · simp [(not_intervalComparison_iff h a b).mpr hab]
      · simp [(not_intervalComparison_iff h b a).mpr (startLE_of_not_startLE h hab)]) l
  exact hsort.imp fun hab => (not_intervalComparison_iff h _ _).mp hab

/-- One step of the walk, at an interval that starts no later than the next one: the comparison
is one of four kinds, and never one that fails the `verify` or loops. -/
theorem unionize_step {cur next : Interval α} (hc : cur.Valid cmp) (hn : next.Valid cmp)
    (hle : StartLE cmp cur.startBound next.startBound) :
    (cur.compare cmp next = INTERVAL_PRECEDES ∧ Separated cmp cur next) ∨
    ((cur.compare cmp next = INTERVAL_EQUALS ∨ cur.compare cmp next = INTERVAL_WITHIN) ∧
      cur.points cmp ⊆ next.points cmp) ∨
    (cur.compare cmp next = INTERVAL_CONTAINS ∧ next.points cmp ⊆ cur.points cmp) ∨
    ((cur.compare cmp next = INTERVAL_OVERLAPS_BEFORE ∨
        cur.compare cmp next = INTERVAL_PRECEDES_COULD_UNION) ∧
      ¬ Apart cmp cur.endBound next.startBound ∧ EndLE cmp cur.endBound next.endBound) := by
  cases hcmp : cur.compare cmp next with
  | INTERVAL_PRECEDES => exact .inl ⟨rfl, separated_of_compare_precedes h hn hcmp⟩
  | INTERVAL_EQUALS =>
    obtain ⟨-, hs, he, -⟩ := bounds_of_compare_equals h hcmp
    exact .inr (.inl ⟨.inl rfl, points_subset_of_within h hs he⟩)
  | INTERVAL_WITHIN =>
    obtain ⟨hs, he⟩ := bounds_of_compare_within h hcmp
    exact .inr (.inl ⟨.inr rfl, points_subset_of_within h hs he⟩)
  | INTERVAL_CONTAINS =>
    obtain ⟨hs, he⟩ := bounds_of_compare_contains h hcmp
    exact .inr (.inr (.inl ⟨rfl, points_subset_of_within h hs he⟩))
  | INTERVAL_OVERLAPS_BEFORE =>
    obtain ⟨-, he, hng⟩ := bounds_of_compare_overlapsBefore h hcmp
    exact .inr (.inr (.inr ⟨.inl rfl, fun ha => hng (gap_of_apart ha), he⟩))
  | INTERVAL_PRECEDES_COULD_UNION =>
    obtain ⟨hna, he⟩ := bounds_of_compare_couldUnion h hn hcmp
    exact .inr (.inr (.inr ⟨.inr rfl, hna, he⟩))
  | INTERVAL_SUCCEEDS =>
    -- `next` would end before `cur` starts, and so before it starts itself
    have hgap := gap_mono h (endLE_refl h _) (before_of_compare_succeeds h hc hcmp) hle
    exact absurd hgap ((valid_iff h next).mp hn)
  | INTERVAL_OVERLAPS_AFTER => exact absurd hle (bounds_of_compare_overlapsAfter h hcmp).1
  | INTERVAL_UNKNOWN => exact absurd hcmp (compare_ne_unknown cmp cur next)

/-- The interval that a merge makes, from the start of `cur` to the end of `next`, is valid and
holds the points of both. -/
theorem merge_spec {cur next : Interval α} (hn : next.Valid cmp)
    (hle : StartLE cmp cur.startBound next.startBound)
    (hend : EndLE cmp cur.endBound next.endBound) (hna : ¬ Apart cmp cur.endBound next.startBound) :
    Valid cmp ⟨cur.start, cur.startInclusive, next.end, next.endInclusive⟩ ∧
      points cmp ⟨cur.start, cur.startInclusive, next.end, next.endInclusive⟩ =
        cur.points cmp ∪ next.points cmp := by
  constructor
  · rw [valid_iff h]
    exact fun hgap => (valid_iff h next).mp hn (gap_mono h (endLE_refl h _) hgap hle)
  · ext x
    exact hull_iff h hle hend hna x

namespace UnionSpec

/-- Keeping `cur`, which is separated from `next`. -/
theorem keep {cur next : Interval α} {rest R : List (Interval α)} (hs : UnionSpec cmp next rest R)
    (hc : cur.Valid cmp) (hle : StartLE cmp cur.startBound next.startBound)
    (hsep : Separated cmp cur next) : UnionSpec cmp cur (next :: rest) (cur :: R) where
  starts r hr := by
    rcases List.mem_cons.mp hr with rfl | hr
    · exact startLE_refl h _
    · exact startLE_trans h hle (hs.starts r hr)
  sorted := List.pairwise_cons.mpr
    ⟨fun r hr => apart_mono h (endLE_refl h _) hsep (hs.starts r hr), hs.sorted⟩
  valid r hr := by
    rcases List.mem_cons.mp hr with rfl | hr
    · exact hc
    · exact hs.valid r hr
  points := by rw [pointsOf_cons, hs.points, pointsOf_cons]

/-- Passing `cur`, whose points `next` holds. -/
theorem drop_cur {cur next : Interval α} {rest R : List (Interval α)}
    (hs : UnionSpec cmp next rest R) (hle : StartLE cmp cur.startBound next.startBound)
    (hsub : cur.points cmp ⊆ next.points cmp) : UnionSpec cmp cur (next :: rest) R where
  starts r hr := startLE_trans h hle (hs.starts r hr)
  sorted := hs.sorted
  valid := hs.valid
  points := by rw [hs.points, pointsOf_cons, ← Set.union_assoc, Set.union_eq_self_of_subset_left hsub]

omit h in
/-- Dropping `next`, whose points `cur` holds. -/
theorem drop_next {cur next : Interval α} {rest R : List (Interval α)}
    (hs : UnionSpec cmp cur rest R) (hsub : next.points cmp ⊆ cur.points cmp) :
    UnionSpec cmp cur (next :: rest) R where
  starts := hs.starts
  sorted := hs.sorted
  valid := hs.valid
  points := by
    rw [hs.points, pointsOf_cons, ← Set.union_assoc, Set.union_eq_self_of_subset_right hsub]

omit h in
/-- Going on from the merge `m` of `cur` and `next`, which starts where `cur` does. -/
theorem merge {cur next m : Interval α} {rest R : List (Interval α)} (hs : UnionSpec cmp m rest R)
    (hstart : m.startBound = cur.startBound)
    (hpoints : m.points cmp = cur.points cmp ∪ next.points cmp) :
    UnionSpec cmp cur (next :: rest) R where
  starts r hr := hstart ▸ hs.starts r hr
  sorted := hs.sorted
  valid := hs.valid
  points := by rw [hs.points, hpoints, pointsOf_cons, Set.union_assoc]

end UnionSpec

/-- The walk of `unionize` over intervals sorted by start never fails or loops, and gives
separated intervals that hold the points of all. -/
theorem unionizeLoop_spec (cur : Interval α) (rest : List (Interval α)) (hcur : cur.Valid cmp)
    (hrest : ∀ r ∈ rest, r.Valid cmp)
    (hsorted : rest.Pairwise fun a b => StartLE cmp a.startBound b.startBound)
    (hfirst : ∀ r ∈ rest, StartLE cmp cur.startBound r.startBound) :
    ∃ R, unionizeLoop cmp cur rest = .ok R ∧ UnionSpec cmp cur rest R := by
  induction rest generalizing cur with
  | nil =>
    refine ⟨[cur], rfl, ⟨?_, List.pairwise_singleton _ _, by simp [hcur], by simp⟩⟩
    simp [startLE_refl h]
  | cons next rest ih =>
    have hn := hrest next (by simp)
    have hle := hfirst next (by simp)
    have hrest' : ∀ r ∈ rest, r.Valid cmp := fun r hr => hrest r (by simp [hr])
    have hnext : ∀ r ∈ rest, StartLE cmp next.startBound r.startBound := fun _ hr =>
      List.rel_of_pairwise_cons hsorted hr
    rcases unionize_step h hcur hn hle with ⟨hc, hsep⟩ | ⟨hc, hsub⟩ | ⟨hc, hsub⟩ |
      ⟨hc, hna, hend⟩
    · obtain ⟨R, hR, hs⟩ := ih next hn hrest' hsorted.of_cons hnext
      refine ⟨cur :: R, ?_, hs.keep h hcur hle hsep⟩
      rw [unionizeLoop, hc, hR]
      rfl
    · obtain ⟨R, hR, hs⟩ := ih next hn hrest' hsorted.of_cons hnext
      refine ⟨R, ?_, hs.drop_cur h hle hsub⟩
      rcases hc with hc | hc <;> rw [unionizeLoop, hc, hR]
    · obtain ⟨R, hR, hs⟩ := ih cur hcur hrest' hsorted.of_cons fun r hr => hfirst r (by simp [hr])
      refine ⟨R, ?_, hs.drop_next hsub⟩
      rw [unionizeLoop, hc, hR]
    · -- the merge starts where `cur` does, so it starts no later than the rest
      obtain ⟨hmv, hmp⟩ := merge_spec h hn hle hend hna
      obtain ⟨R, hR, hs⟩ := ih _ hmv hrest' hsorted.of_cons fun r hr => hfirst r (by simp [hr])
      refine ⟨R, ?_, hs.merge rfl hmp⟩
      rcases hc with hc | hc <;> rw [unionizeLoop, hc, hR]

/-- `unionize` over valid intervals in any order never fails or loops, and leaves separated
intervals that hold the points of the input. -/
theorem unionize_spec (oil : OrderedIntervalList α) (hv : ∀ i ∈ oil.intervals, i.Valid cmp) :
    ∃ oil', IndexBoundsBuilder.unionize cmp oil = .ok oil' ∧ oil'.name = oil.name ∧
      oil'.intervals.Pairwise (Separated cmp) ∧ (∀ i ∈ oil'.intervals, i.Valid cmp) ∧
      pointsOf cmp oil'.intervals = pointsOf cmp oil.intervals := by
  have hperm := List.mergeSort_perm oil.intervals (fun a b => !intervalComparison cmp b a)
  have hsorted := pairwise_startLE_mergeSort h oil.intervals
  unfold IndexBoundsBuilder.unionize
  split
  · rename_i hnil
    -- the sort of the intervals is empty, and so are they
    have hempty : oil.intervals = [] := (List.Perm.nil_eq (hnil ▸ hperm)).symm
    exact ⟨oil, rfl, rfl, by simp [hempty], hv, rfl⟩
  · rename_i first rest hsort
    rw [hsort] at hperm hsorted
    have hvs : ∀ i ∈ first :: rest, i.Valid cmp := fun i hi => hv i (hperm.mem_iff.mp hi)
    obtain ⟨R, hR, hs⟩ := unionizeLoop_spec h first rest (hvs first (by simp))
      (fun r hr => hvs r (by simp [hr])) hsorted.of_cons (fun _ hr => List.rel_of_pairwise_cons hsorted hr)
    refine ⟨{ oil with intervals := R }, by rw [hR]; rfl, rfl, hs.sorted, hs.valid, ?_⟩
    rw [hs.points, ← pointsOf_cons, pointsOf_perm cmp hperm]


/-! ## Intersection and union are set operations -/

theorem intersectize_unionize_set_operations [Inhabited α] (oilA oilB : OrderedIntervalList α)
    (hname : oilA.name = oilB.name) (hvA : ∀ i ∈ oilA.intervals, i.Valid cmp)
    (hvB : ∀ i ∈ oilB.intervals, i.Valid cmp) (hsA : oilA.intervals.Pairwise (Before cmp))
    (hsB : oilB.intervals.Pairwise (Before cmp)) (oil : OrderedIntervalList α)
    (hv : ∀ i ∈ oil.intervals, i.Valid cmp) :
    (∃ oilB', IndexBoundsBuilder.intersectize cmp oilA oilB = .ok oilB' ∧ oilB'.name = oilB.name ∧
      oilB'.intervals.Pairwise (Before cmp) ∧ (∀ i ∈ oilB'.intervals, i.Valid cmp) ∧
      pointsOf cmp oilB'.intervals = pointsOf cmp oilA.intervals ∩ pointsOf cmp oilB.intervals) ∧
    (∃ oil', IndexBoundsBuilder.unionize cmp oil = .ok oil' ∧ oil'.name = oil.name ∧
      oil'.intervals.Pairwise (Separated cmp) ∧ (∀ i ∈ oil'.intervals, i.Valid cmp) ∧
      pointsOf cmp oil'.intervals = pointsOf cmp oil.intervals) :=
  ⟨intersectize_spec h oilA oilB hname hvA hvB hsA hsB, unionize_spec h oil hv⟩


end Preorder

/-- Two sorted lists of int intervals, `[1, 3], [5, 7)` and `[0, 2], [6, 9]`, which meet in
`[1, 2], [6, 7)`. -/
def meetLeft : List (Interval BSONElement) :=
  [⟨.numberInt 1, true, .numberInt 3, true⟩, ⟨.numberInt 5, true, .numberInt 7, false⟩]

def meetRight : List (Interval BSONElement) :=
  [⟨.numberInt 0, true, .numberInt 2, true⟩, ⟨.numberInt 6, true, .numberInt 9, true⟩]

/-- Int intervals out of order, `[5, 8], [1, 3), [3, 4]`, which join into `[1, 4], [5, 8]`. -/
def joinInput : List (Interval BSONElement) :=
  [⟨.numberInt 5, true, .numberInt 8, true⟩, ⟨.numberInt 1, true, .numberInt 3, false⟩,
    ⟨.numberInt 3, true, .numberInt 4, true⟩]

theorem intersectize_unionize_set_operations_bson :
    IsTotalPreorder BSONElement.woCompare ∧
    (∀ i ∈ meetLeft, i.Valid BSONElement.woCompare) ∧
    (∀ i ∈ meetRight, i.Valid BSONElement.woCompare) ∧
    meetLeft.Pairwise (Before BSONElement.woCompare) ∧
    meetRight.Pairwise (Before BSONElement.woCompare) ∧
    (∀ i ∈ joinInput, i.Valid BSONElement.woCompare) ∧
    (∃ oilB', IndexBoundsBuilder.intersectize BSONElement.woCompare
        ⟨meetLeft, "a"⟩ ⟨meetRight, "a"⟩ = .ok oilB' ∧
      oilB'.name = "a" ∧ oilB'.intervals.Pairwise (Before BSONElement.woCompare) ∧
      (∀ i ∈ oilB'.intervals, i.Valid BSONElement.woCompare) ∧
      pointsOf BSONElement.woCompare oilB'.intervals =
        pointsOf BSONElement.woCompare meetLeft ∩ pointsOf BSONElement.woCompare meetRight) ∧
    (∃ oil', IndexBoundsBuilder.unionize BSONElement.woCompare ⟨joinInput, "a"⟩ = .ok oil' ∧
      oil'.name = "a" ∧ oil'.intervals.Pairwise (Separated BSONElement.woCompare) ∧
      (∀ i ∈ oil'.intervals, i.Valid BSONElement.woCompare) ∧
      pointsOf BSONElement.woCompare oil'.intervals = pointsOf BSONElement.woCompare joinInput) := by
  have hvA : ∀ i ∈ meetLeft, i.Valid BSONElement.woCompare := by decide
  have hvB : ∀ i ∈ meetRight, i.Valid BSONElement.woCompare := by decide
  have hsA : meetLeft.Pairwise (Before BSONElement.woCompare) := by decide
  have hsB : meetRight.Pairwise (Before BSONElement.woCompare) := by decide
  have hv : ∀ i ∈ joinInput, i.Valid BSONElement.woCompare := by decide
  exact ⟨BSONElement.woCompare_isTotalPreorder, hvA, hvB, hsA, hsB, hv,
    intersectize_unionize_set_operations BSONElement.woCompare_isTotalPreorder
      ⟨meetLeft, "a"⟩ ⟨meetRight, "a"⟩ rfl hvA hvB hsA hsB ⟨joinInput, "a"⟩ hv⟩

end mongo
