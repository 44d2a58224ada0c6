-- `Interval` of interval.cpp and the comparisons the index bounds builder walks lists with. An
-- interval holds two BSON elements and whether each is included; its functions compare elements
-- with `woCompare` without field names, here a parameter `cmp` that the proofs take to be a total
-- preorder. What each function decides is said once in the terms of interval_bounds, and the
-- nine answers of `compare` are inverted into what each one says about the bounds.
import PerconaMongo.Lib.IntervalBounds
import Mathlib.Data.Set.Basic

namespace mongo

open total_preorder interval_bounds

/-- `Interval`. The BSON object that owns the two elements is left out: only `isEmpty` reads it,
and only the debug checks of `getDirection` read that. -/
structure Interval (α : Type) where
  start : α
  startInclusive : Bool
  «end» : α
  endInclusive : Bool
  deriving DecidableEq, Repr

/-- How a `verify` or an `invariant` of the query code fails, or a loop that never ends. -/
inductive IntervalError
  | verifyFailed
  | invariantFailure
  | nonTermination
  deriving DecidableEq, Repr

namespace Interval

/-- `Interval::IntervalComparison`. -/
inductive IntervalComparison
  | INTERVAL_EQUALS
  | INTERVAL_CONTAINS
  | INTERVAL_WITHIN
  | INTERVAL_OVERLAPS_BEFORE
  | INTERVAL_OVERLAPS_AFTER
  | INTERVAL_PRECEDES
  | INTERVAL_PRECEDES_COULD_UNION
  | INTERVAL_SUCCEEDS
  | INTERVAL_UNKNOWN
  deriving DecidableEq, Repr

open IntervalComparison

variable {α : Type} (cmp : α → α → Int)

/-! ## The model -/

/-- `Interval()`: both elements empty, neither included. -/
def empty [Inhabited α] : Interval α := ⟨default, false, default, false⟩

/-- `Interval::equals`. -/
def equals (this other : Interval α) : Bool :=
  if this.startInclusive != other.startInclusive then false
  else if this.endInclusive != other.endInclusive then false
  else if cmp this.start other.start ≠ 0 then false
  else if cmp this.end other.end ≠ 0 then false
  else true

/-- `Interval::intersects`, for ascending intervals. -/
def intersects (this other : Interval α) : Bool :=
  let res := cmp this.start other.end
  if res > 0 then false
  else if res = 0 ∧ (!this.startInclusive || !other.endInclusive) then false
  else
    let res := cmp other.start this.end
    if res > 0 then false
    else if res = 0 ∧ (!other.startInclusive || !this.endInclusive) then false
    else true

/-- `Interval::within`. -/
def within (this other : Interval α) : Bool :=
  let res := cmp this.start other.start
  if res < 0 then false
  else if res = 0 ∧ this.startInclusive ∧ !other.startInclusive then false
  else
    let res := cmp this.end other.end
    if res > 0 then false
    else if res = 0 ∧ this.endInclusive ∧ !other.endInclusive then false
    else true

/-- `Interval::precedes`: the start of `this` comes before the start of `other`. -/
def precedes (this other : Interval α) : Bool :=
  let res := cmp this.start other.start
  if res < 0 then true
  else if res = 0 ∧ this.startInclusive ∧ !other.startInclusive then true
  else false

/-- `Interval::compare`. -/
def compare (this other : Interval α) : IntervalComparison :=
  if this.intersects cmp other then
    if this.equals cmp other then INTERVAL_EQUALS
    else if this.within cmp other then INTERVAL_WITHIN
    else if other.within cmp this then INTERVAL_CONTAINS
    else if this.precedes cmp other then INTERVAL_OVERLAPS_BEFORE
    else INTERVAL_OVERLAPS_AFTER
  else if this.precedes cmp other then
    if (this.endInclusive || other.startInclusive) ∧ cmp this.end other.start = 0 then
      INTERVAL_PRECEDES_COULD_UNION
    else INTERVAL_PRECEDES
  else INTERVAL_SUCCEEDS

/-- `Interval::intersect`, returning the updated `this`. An unknown comparison is computed first;
`default` is the `verify(false)` that `INTERVAL_PRECEDES_COULD_UNION` reaches. -/
def intersect [Inhabited α] (this other : Interval α) (comparison : IntervalComparison) :
    Except IntervalError (Interval α) :=
  let comparison := if comparison = INTERVAL_UNKNOWN then this.compare cmp other else comparison
  match comparison with
  | INTERVAL_EQUALS | INTERVAL_WITHIN => pure this
  | INTERVAL_CONTAINS => pure ⟨other.start, other.startInclusive, other.end, other.endInclusive⟩
  | INTERVAL_OVERLAPS_AFTER => pure ⟨this.start, this.startInclusive, other.end, other.endInclusive⟩
  | INTERVAL_OVERLAPS_BEFORE =>
    pure ⟨other.start, other.startInclusive, this.end, this.endInclusive⟩
  | INTERVAL_PRECEDES | INTERVAL_SUCCEEDS => pure empty
  | _ => throw .verifyFailed

/-! ## Bounds and points -/

/-- The lower bound of an interval: its start, and whether it is included. -/
def startBound (i : Interval α) : α × Bool := (i.start, i.startInclusive)

/-- The upper bound of an interval. -/
def endBound (i : Interval α) : α × Bool := (i.end, i.endInclusive)

@[simp] theorem startBound_fst (i : Interval α) : i.startBound.1 = i.start := rfl
@[simp] theorem startBound_snd (i : Interval α) : i.startBound.2 = i.startInclusive := rfl
@[simp] theorem endBound_fst (i : Interval α) : i.endBound.1 = i.end := rfl
@[simp] theorem endBound_snd (i : Interval α) : i.endBound.2 = i.endInclusive := rfl

/-- The points of an interval: above its start and below its end. -/
def points (i : Interval α) : Set α :=
  {x | AboveStart cmp i.startBound x ∧ BelowEnd cmp i.endBound x}

/-- An ascending, non-degenerate interval: its start comes before its end, or it is one point
with both ends included. -/
def Valid (i : Interval α) : Prop :=
  cmp i.start i.end < 0 ∨ cmp i.start i.end = 0 ∧ i.startInclusive = true ∧ i.endInclusive = true

instance (i : Interval α) : Decidable (i.Valid cmp) := inferInstanceAs (Decidable (_ ∨ _))

/-- `a` ends before `b` starts: they share no point, and `a` comes first. -/
def Before (a b : Interval α) : Prop := Gap cmp a.endBound b.startBound

/-- `a` ends before `b` starts, and the two cannot be joined into one interval. -/
def Separated (a b : Interval α) : Prop := Apart cmp a.endBound b.startBound

instance (a b : Interval α) : Decidable (Before cmp a b) := inferInstanceAs (Decidable (Gap _ _ _))

instance (a b : Interval α) : Decidable (Separated cmp a b) :=
  inferInstanceAs (Decidable (Apart _ _ _))

/-- `n` is the meet of `a` and `b`: its start is the later of theirs and its end the earlier. -/
structure IsMeet (n a b : Interval α) : Prop where
  start_eq : n.startBound = a.startBound ∨ n.startBound = b.startBound
  end_eq : n.endBound = a.endBound ∨ n.endBound = b.endBound
  startLE_left : StartLE cmp a.startBound n.startBound
  startLE_right : StartLE cmp b.startBound n.startBound
  endLE_left : EndLE cmp n.endBound a.endBound
  endLE_right : EndLE cmp n.endBound b.endBound

/-- The result of each comparison, as the bounds it asks about. -/
theorem compare_spec (this other : Interval α) :
    match this.compare cmp other with
    | INTERVAL_EQUALS => this.intersects cmp other ∧ this.equals cmp other
    | INTERVAL_WITHIN => this.intersects cmp other ∧ this.within cmp other
    | INTERVAL_CONTAINS =>
      this.intersects cmp other ∧ ¬ this.within cmp other ∧ other.within cmp this
    | INTERVAL_OVERLAPS_BEFORE =>
      this.intersects cmp other ∧ ¬ this.within cmp other ∧ ¬ other.within cmp this ∧
        this.precedes cmp other
    | INTERVAL_OVERLAPS_AFTER =>
      this.intersects cmp other ∧ ¬ this.within cmp other ∧ ¬ other.within cmp this ∧
        ¬ this.precedes cmp other
    | INTERVAL_PRECEDES =>
      ¬ this.intersects cmp other ∧ this.precedes cmp other ∧
        ¬ ((this.endInclusive || other.startInclusive) ∧ cmp this.end other.start = 0)
    | INTERVAL_PRECEDES_COULD_UNION =>
      ¬ this.intersects cmp other ∧ this.precedes cmp other ∧
        (this.endInclusive || other.startInclusive) ∧ cmp this.end other.start = 0
    | INTERVAL_SUCCEEDS => ¬ this.intersects cmp other ∧ ¬ this.precedes cmp other
    | INTERVAL_UNKNOWN => False := by
  unfold compare
  split_ifs <;> simp_all

theorem compare_ne_unknown (this other : Interval α) : this.compare cmp other ≠ INTERVAL_UNKNOWN := by
  intro hc
  have hs := compare_spec cmp this other
  rw [hc] at hs
  exact hs

theorem mem_points {i : Interval α} {x : α} :
    x ∈ i.points cmp ↔ AboveStart cmp i.startBound x ∧ BelowEnd cmp i.endBound x := Iff.rfl

section Preorder

variable {cmp} (h : IsTotalPreorder cmp)
include h

/-! ## The functions in terms of bounds -/

theorem valid_iff (i : Interval α) : i.Valid cmp ↔ ¬ Gap cmp i.endBound i.startBound := by
  obtain ⟨s, si, e, ei⟩ := i
  have := h.flip s e
  have := h.flip e s
  unfold Valid Gap
  cases si <;> cases ei <;> simp <;> omega

theorem intersects_iff (a b : Interval α) :
    a.intersects cmp b = true ↔
      ¬ Gap cmp b.endBound a.startBound ∧ ¬ Gap cmp a.endBound b.startBound := by
  obtain ⟨s, si, e, ei⟩ := a
  obtain ⟨s', si', e', ei'⟩ := b
  have := h.flip s e'
  have := h.flip e' s
  have := h.flip s' e
  have := h.flip e s'
  unfold intersects Gap
  cases si <;> cases ei <;> cases si' <;> cases ei' <;> simp <;> omega

theorem within_iff (a b : Interval α) :
    a.within cmp b = true ↔
      StartLE cmp b.startBound a.startBound ∧ EndLE cmp a.endBound b.endBound := by
  obtain ⟨s, si, e, ei⟩ := a
  obtain ⟨s', si', e', ei'⟩ := b
  have := h.flip s s'
  have := h.flip s' s
  unfold within StartLE EndLE
  cases si <;> cases ei <;> cases si' <;> cases ei' <;> simp <;> omega

theorem precedes_iff (a b : Interval α) :
    a.precedes cmp b = true ↔ ¬ StartLE cmp b.startBound a.startBound := by
  obtain ⟨s, si, e, ei⟩ := a
  obtain ⟨s', si', e', ei'⟩ := b
  have := h.flip s s'
  have := h.flip s' s
  unfold precedes StartLE
  cases si <;> cases si' <;> simp <;> omega

/-- Equal intervals bound each other both ways. -/
theorem bounds_of_equals {a b : Interval α} (he : a.equals cmp b = true) :
    StartLE cmp a.startBound b.startBound ∧ StartLE cmp b.startBound a.startBound ∧
      EndLE cmp a.endBound b.endBound ∧ EndLE cmp b.endBound a.endBound := by
  have := h.eq_zero_comm (a := a.start) (b := b.start)
  have := h.eq_zero_comm (a := a.end) (b := b.end)
  unfold equals at he
  unfold StartLE EndLE
  split_ifs at he with h₁ h₂ h₃ h₄
  simp only [bne_iff_ne, ne_eq, not_not] at h₁ h₂ h₃ h₄
  simp_all

/-! ## What each answer of `compare` says about the bounds -/

theorem bounds_of_compare_equals {a b : Interval α} (hc : a.compare cmp b = INTERVAL_EQUALS) :
    StartLE cmp a.startBound b.startBound ∧ StartLE cmp b.startBound a.startBound ∧
      EndLE cmp a.endBound b.endBound ∧ EndLE cmp b.endBound a.endBound := by
  have hs := compare_spec cmp a b
  rw [hc] at hs
  exact bounds_of_equals h hs.2

theorem bounds_of_compare_within {a b : Interval α} (hc : a.compare cmp b = INTERVAL_WITHIN) :
    StartLE cmp b.startBound a.startBound ∧ EndLE cmp a.endBound b.endBound := by
  have hs := compare_spec cmp a b
  rw [hc] at hs
  exact (within_iff h a b).mp hs.2

theorem bounds_of_compare_contains {a b : Interval α} (hc : a.compare cmp b = INTERVAL_CONTAINS) :
    StartLE cmp a.startBound b.startBound ∧ EndLE cmp b.endBound a.endBound := by
  have hs := compare_spec cmp a b
  rw [hc] at hs
  exact (within_iff h b a).mp hs.2.2

/-- Overlapping from before: `a` starts first and, not containing `b`, ends first. -/
theorem bounds_of_compare_overlapsBefore {a b : Interval α}
    (hc : a.compare cmp b = INTERVAL_OVERLAPS_BEFORE) :
    StartLE cmp a.startBound b.startBound ∧ EndLE cmp a.endBound b.endBound ∧
      ¬ Gap cmp a.endBound b.startBound := by
  have hs := compare_spec cmp a b
  rw [hc] at hs
  obtain ⟨hint, -, hnc, hpre⟩ := hs
  have hab := startLE_of_not_startLE h ((precedes_iff h a b).mp hpre)
  have hend : ¬ EndLE cmp b.endBound a.endBound := fun he =>
    hnc ((within_iff h b a).mpr ⟨hab, he⟩)
  exact ⟨hab, endLE_of_not_endLE h hend, ((intersects_iff h a b).mp hint).2⟩

/-- Overlapping from after: `b` starts strictly first and, not containing `a`, ends first. -/
theorem bounds_of_compare_overlapsAfter {a b : Interval α}
    (hc : a.compare cmp b = INTERVAL_OVERLAPS_AFTER) :
    ¬ StartLE cmp a.startBound b.startBound ∧ EndLE cmp b.endBound a.endBound ∧
      ¬ Gap cmp b.endBound a.startBound := by
  have hs := compare_spec cmp a b
  rw [hc] at hs
  obtain ⟨hint, hnw, hnc, hnpre⟩ := hs
  have hba : StartLE cmp b.startBound a.startBound := by
    simpa [precedes_iff h a b] using hnpre
  have hend : ¬ EndLE cmp a.endBound b.endBound := fun he =>
    hnw ((within_iff h a b).mpr ⟨hba, he⟩)
  refine ⟨fun hab => hnc ((within_iff h b a).mpr ⟨hab, ?_⟩), endLE_of_not_endLE h hend,
    ((intersects_iff h a b).mp hint).1⟩
  exact endLE_of_not_endLE h hend

/-- Apart from the interval it precedes: a valid `b` cannot lie wholly before `a`, which starts
first, so the two have a gap the other way. -/
theorem gap_of_not_intersects_of_precedes {a b : Interval α} (hb : b.Valid cmp)
    (hint : a.intersects cmp b = false) (hpre : a.precedes cmp b = true) :
    Gap cmp a.endBound b.startBound := by
  have hab := startLE_of_not_startLE h ((precedes_iff h a b).mp hpre)
  have hgap : ¬ (¬ Gap cmp b.endBound a.startBound ∧ ¬ Gap cmp a.endBound b.startBound) := by
    rw [← intersects_iff h]
    simp [hint]
  by_contra hn
  exact (valid_iff h b).mp hb (gap_mono h (endLE_refl h _) (not_not.mp (by tauto)) hab)

theorem before_of_compare_precedes {a b : Interval α} (hb : b.Valid cmp)
    (hc : a.compare cmp b = INTERVAL_PRECEDES ∨ a.compare cmp b = INTERVAL_PRECEDES_COULD_UNION) :
    Before cmp a b := by
  have hs := compare_spec cmp a b
  rcases hc with hc | hc <;> rw [hc] at hs
  · exact gap_of_not_intersects_of_precedes h hb (by simpa using hs.1) hs.2.1
  · exact gap_of_not_intersects_of_precedes h hb (by simpa using hs.1) hs.2.1

theorem before_of_compare_succeeds {a b : Interval α} (ha : a.Valid cmp)
    (hc : a.compare cmp b = INTERVAL_SUCCEEDS) : Before cmp b a := by
  have hs := compare_spec cmp a b
  rw [hc] at hs
  have hba : StartLE cmp b.startBound a.startBound := by
    simpa [precedes_iff h a b] using hs.2
  have hgap : ¬ (¬ Gap cmp b.endBound a.startBound ∧ ¬ Gap cmp a.endBound b.startBound) := by
    rw [← intersects_iff h]
    simpa using hs.1
  by_contra hn
  exact (valid_iff h a).mp ha (gap_mono h (endLE_refl h _) (not_not.mp (by tauto)) hba)

theorem separated_of_compare_precedes {a b : Interval α} (hb : b.Valid cmp)
    (hc : a.compare cmp b = INTERVAL_PRECEDES) : Separated cmp a b := by
  have hgap := before_of_compare_precedes h hb (.inl hc)
  have hs := compare_spec cmp a b
  rw [hc] at hs
  have hcu := hs.2.2
  unfold Before Gap at hgap
  unfold Separated Apart
  cases ha : a.endInclusive <;> cases hb' : b.startInclusive <;> simp_all

/-- Joinable without overlap: `a` ends where `b` starts, one of them including the value, and
ends no later than the valid `b`. -/
theorem bounds_of_compare_couldUnion {a b : Interval α} (hb : b.Valid cmp)
    (hc : a.compare cmp b = INTERVAL_PRECEDES_COULD_UNION) :
    ¬ Apart cmp a.endBound b.startBound ∧ EndLE cmp a.endBound b.endBound := by
  have hgap := before_of_compare_precedes h hb (.inr hc)
  have hs := compare_spec cmp a b
  rw [hc] at hs
  obtain ⟨-, -, hincl, heq⟩ := hs
  refine ⟨?_, endLE_of_gap h hgap ((valid_iff h b).mp hb)⟩
  unfold Apart
  simp only [endBound_fst, startBound_fst, endBound_snd, startBound_snd, heq]
  cases ha : a.endInclusive <;> cases hb' : b.startInclusive <;> simp_all

/-! ## Points -/

theorem points_subset_of_within {a b : Interval α} (hs : StartLE cmp b.startBound a.startBound)
    (he : EndLE cmp a.endBound b.endBound) : a.points cmp ⊆ b.points cmp := fun _ ⟨hx₁, hx₂⟩ =>
  ⟨aboveStart_of_startLE h hs hx₁, belowEnd_of_endLE h he hx₂⟩

theorem IsMeet.points_eq {n a b : Interval α} (hm : IsMeet cmp n a b) :
    n.points cmp = a.points cmp ∩ b.points cmp := by
  ext x
  simp only [Set.mem_inter_iff, mem_points]
  constructor
  · rintro ⟨hs, he⟩
    exact ⟨⟨aboveStart_of_startLE h hm.startLE_left hs, belowEnd_of_endLE h hm.endLE_left he⟩,
      aboveStart_of_startLE h hm.startLE_right hs, belowEnd_of_endLE h hm.endLE_right he⟩
  · rintro ⟨⟨has, hae⟩, hbs, hbe⟩
    constructor
    · rcases hm.start_eq with hs | hs <;> rw [hs] <;> assumption
    · rcases hm.end_eq with he | he <;> rw [he] <;> assumption

/-- The meet of two intersecting valid intervals is valid. -/
theorem IsMeet.valid {n a b : Interval α} (hm : IsMeet cmp n a b) (ha : a.Valid cmp)
    (hb : b.Valid cmp) (hint : a.intersects cmp b = true) : n.Valid cmp := by
  rw [valid_iff h] at ha hb ⊢
  obtain ⟨hba, hab⟩ := (intersects_iff h a b).mp hint
  rcases hm.start_eq with hs | hs <;> rcases hm.end_eq with he | he <;> rw [hs, he] <;> assumption

/-- In the five answers where the intervals meet, `intersect` gives their meet. -/
theorem intersect_isMeet [Inhabited α] {a b : Interval α} {c : IntervalComparison}
    (hc : a.compare cmp b = c)
    (hmeet : c = INTERVAL_EQUALS ∨ c = INTERVAL_WITHIN ∨ c = INTERVAL_CONTAINS ∨
      c = INTERVAL_OVERLAPS_BEFORE ∨ c = INTERVAL_OVERLAPS_AFTER) :
    ∃ n, a.intersect cmp b c = .ok n ∧ IsMeet cmp n a b ∧ a.intersects cmp b = true := by
  have hs := compare_spec cmp a b
  rcases hmeet with rfl | rfl | rfl | rfl | rfl <;> rw [hc] at hs
  · obtain ⟨h₁, h₂, h₃, h₄⟩ := bounds_of_compare_equals h hc
    exact ⟨a, rfl, ⟨.inl rfl, .inl rfl, startLE_refl h _, h₂, endLE_refl h _, h₃⟩, hs.1⟩
  · obtain ⟨h₁, h₂⟩ := bounds_of_compare_within h hc
    exact ⟨a, rfl, ⟨.inl rfl, .inl rfl, startLE_refl h _, h₁, endLE_refl h _, h₂⟩, hs.1⟩
  · obtain ⟨h₁, h₂⟩ := bounds_of_compare_contains h hc
    exact ⟨_, rfl, ⟨.inr rfl, .inr rfl, h₁, startLE_refl h _, h₂, endLE_refl h _⟩, hs.1⟩
  · obtain ⟨h₁, h₂, -⟩ := bounds_of_compare_overlapsBefore h hc
    exact ⟨_, rfl, ⟨.inr rfl, .inl rfl, h₁, startLE_refl h _, endLE_refl h _, h₂⟩, hs.1⟩
  · obtain ⟨h₁, h₂, -⟩ := bounds_of_compare_overlapsAfter h hc
    exact ⟨_, rfl, ⟨.inl rfl, .inr rfl, startLE_refl h _, startLE_of_not_startLE h h₁, h₂,
      endLE_refl h _⟩, hs.1⟩

end Preorder

end Interval

end mongo
