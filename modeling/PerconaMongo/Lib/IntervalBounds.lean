-- The bounds of intervals over a three-way comparator that is a total preorder: a value and
-- whether it is included. A point lies above a lower bound or below an upper bound; bounds of
-- one kind are ordered by the points they let through. An upper bound with a gap before a lower
-- bound lets no point through both; one that is not apart from it lets every point through one
-- of them, so two such intervals join into one. Intersections and hulls of intervals follow.
import PerconaMongo.Lib.TotalPreorder

namespace interval_bounds

open total_preorder

variable {α : Type*} {cmp : α → α → Int}

/-- The point `x` lies above the lower bound `s`: after its value, or at it if it is included. -/
def AboveStart (cmp : α → α → Int) (s : α × Bool) (x : α) : Prop :=
  if s.2 then cmp s.1 x ≤ 0 else cmp s.1 x < 0

/-- The point `x` lies below the upper bound `e`. -/
def BelowEnd (cmp : α → α → Int) (e : α × Bool) (x : α) : Prop :=
  if e.2 then cmp x e.1 ≤ 0 else cmp x e.1 < 0

/-- The lower bound `s` lets through every point that `s'` lets through. -/
def StartLE (cmp : α → α → Int) (s s' : α × Bool) : Prop :=
  cmp s.1 s'.1 < 0 ∨ cmp s.1 s'.1 = 0 ∧ (s'.2 = true → s.2 = true)

/-- The upper bound `e` lets through no point that `e'` does not. -/
def EndLE (cmp : α → α → Int) (e e' : α × Bool) : Prop :=
  cmp e.1 e'.1 < 0 ∨ cmp e.1 e'.1 = 0 ∧ (e.2 = true → e'.2 = true)

/-- The upper bound `e` stops before the lower bound `s` starts: no point is below one and above
the other. -/
def Gap (cmp : α → α → Int) (e s : α × Bool) : Prop :=
  cmp e.1 s.1 < 0 ∨ cmp e.1 s.1 = 0 ∧ (e.2 = false ∨ s.2 = false)

/-- The upper bound `e` stops before `s` starts, and a value where they meet is let through by
neither: the two sides cannot be joined into one interval. -/
def Apart (cmp : α → α → Int) (e s : α × Bool) : Prop :=
  cmp e.1 s.1 < 0 ∨ cmp e.1 s.1 = 0 ∧ e.2 = false ∧ s.2 = false

instance (s s' : α × Bool) : Decidable (StartLE cmp s s') := inferInstanceAs (Decidable (_ ∨ _))

instance (e e' : α × Bool) : Decidable (EndLE cmp e e') := inferInstanceAs (Decidable (_ ∨ _))

instance (e s : α × Bool) : Decidable (Gap cmp e s) := inferInstanceAs (Decidable (_ ∨ _))

instance (e s : α × Bool) : Decidable (Apart cmp e s) := inferInstanceAs (Decidable (_ ∨ _))

theorem gap_of_apart {e s : α × Bool} (h : Apart cmp e s) : Gap cmp e s := by
  unfold Apart at h
  unfold Gap
  tauto

/-- Past an upper bound with a gap before `s`, the points above `s` lie past the upper bound. -/
theorem startLE_of_gap {e s : α × Bool} (hg : Gap cmp e s) : StartLE cmp (e.1, !e.2) s := by
  rcases hg with hlt | ⟨heq, hi⟩
  · exact .inl hlt
  · refine .inr ⟨heq, fun hs => ?_⟩
    cases he : e.2 <;> simp_all

/-- Whatever the bound admits, the point lies at or after its value. -/
theorem le_of_aboveStart {s : α × Bool} {x : α} (hx : AboveStart cmp s x) : cmp s.1 x ≤ 0 := by
  unfold AboveStart at hx
  split at hx <;> omega

theorem le_of_belowEnd {e : α × Bool} {x : α} (hx : BelowEnd cmp e x) : cmp x e.1 ≤ 0 := by
  unfold BelowEnd at hx
  split at hx <;> omega

section Preorder

variable (h : IsTotalPreorder cmp)
include h

theorem aboveStart_of_startLE {s s' : α × Bool} {x : α} (hle : StartLE cmp s s')
    (hx : AboveStart cmp s' x) : AboveStart cmp s x := by
  have hx' := le_of_aboveStart hx
  unfold AboveStart at hx ⊢
  rcases hle with hlt | ⟨heq, hi⟩
  · have := h.lt_of_lt_of_le hlt hx'
    split <;> omega
  · cases hs' : s'.2 with
    | true =>
      rw [hi hs', if_pos rfl]
      exact h.trans _ _ _ (by omega) hx'
    | false =>
      rw [hs', if_neg (by decide)] at hx
      have := h.lt_of_le_of_lt (by omega : cmp s.1 s'.1 ≤ 0) hx
      split <;> omega

theorem belowEnd_of_endLE {e e' : α × Bool} {x : α} (hle : EndLE cmp e e')
    (hx : BelowEnd cmp e x) : BelowEnd cmp e' x := by
  have hx' := le_of_belowEnd hx
  unfold BelowEnd at hx ⊢
  rcases hle with hlt | ⟨heq, hi⟩
  · have := h.lt_of_le_of_lt hx' hlt
    split <;> omega
  · cases he : e.2 with
    | true =>
      rw [hi he, if_pos rfl]
      exact h.trans _ _ _ hx' (by omega)
    | false =>
      rw [he, if_neg (by decide)] at hx
      have := h.lt_of_lt_of_le hx (by omega : cmp e.1 e'.1 ≤ 0)
      split <;> omega

theorem startLE_refl (s : α × Bool) : StartLE cmp s s := .inr ⟨h.refl s.1, id⟩

theorem endLE_refl (e : α × Bool) : EndLE cmp e e := .inr ⟨h.refl e.1, id⟩

theorem startLE_trans {s₁ s₂ s₃ : α × Bool} (h₁₂ : StartLE cmp s₁ s₂) (h₂₃ : StartLE cmp s₂ s₃) :
    StartLE cmp s₁ s₃ := by
  have hle₁₂ : cmp s₁.1 s₂.1 ≤ 0 := by unfold StartLE at h₁₂; omega
  have hle₂₃ : cmp s₂.1 s₃.1 ≤ 0 := by unfold StartLE at h₂₃; omega
  rcases h₁₂ with hlt | ⟨heq₁₂, hi₁₂⟩
  · exact .inl (h.lt_of_lt_of_le hlt hle₂₃)
  · rcases h₂₃ with hlt | ⟨heq₂₃, hi₂₃⟩
    · exact .inl (h.lt_of_le_of_lt hle₁₂ hlt)
    · have h₃₂ : cmp s₃.1 s₂.1 ≤ 0 := by rw [h.eq_zero_comm] at heq₂₃; omega
      have h₂₁ : cmp s₂.1 s₁.1 ≤ 0 := by rw [h.eq_zero_comm] at heq₁₂; omega
      exact .inr ⟨h.eq_zero_of_le_of_le (h.trans _ _ _ hle₁₂ hle₂₃) (h.trans _ _ _ h₃₂ h₂₁),
        hi₁₂ ∘ hi₂₃⟩

/-- Of two lower bounds one lets through all that the other does; if the first does not, the
second is strictly tighter. -/
theorem startLE_of_not_startLE {s s' : α × Bool} (hn : ¬ StartLE cmp s s') : StartLE cmp s' s := by
  obtain ⟨v, i⟩ := s
  obtain ⟨v', i'⟩ := s'
  have hflip := h.flip v v'
  have hflip' := h.flip v' v
  unfold StartLE at hn ⊢
  cases i <;> cases i' <;> simp at hn ⊢ <;> omega

theorem endLE_of_not_endLE {e e' : α × Bool} (hn : ¬ EndLE cmp e e') : EndLE cmp e' e := by
  obtain ⟨v, i⟩ := e
  obtain ⟨v', i'⟩ := e'
  have hflip := h.flip v v'
  have hflip' := h.flip v' v
  unfold EndLE at hn ⊢
  cases i <;> cases i' <;> simp at hn ⊢ <;> omega

/-- Past a gap, no point lies below the upper bound and above the lower one. -/
theorem not_aboveStart_of_gap {e s : α × Bool} {x : α} (hg : Gap cmp e s) (hx : BelowEnd cmp e x) :
    ¬ AboveStart cmp s x := by
  intro hs
  have hxe := le_of_belowEnd hx
  have hsx := le_of_aboveStart hs
  unfold BelowEnd at hx
  unfold AboveStart at hs
  rcases hg with hlt | ⟨heq, hi⟩
  · have := h.lt_of_le_of_lt hxe (h.lt_of_lt_of_le hlt hsx)
    have := h.refl x
    omega
  · have hes : cmp e.1 x ≤ 0 := h.trans _ _ _ (by omega) hsx
    have hxs : cmp x s.1 ≤ 0 := h.trans _ _ _ hxe (by omega)
    -- the point sits at the meeting value, which one of the two bounds excludes
    rcases hi with he | hs'
    · rw [he, if_neg (by decide)] at hx
      have := h.flip x e.1
      omega
    · rw [hs', if_neg (by decide)] at hs
      have := h.flip s.1 x
      omega

/-- Where two bounds are not apart, every point is below the upper one or above the lower one. -/
theorem belowEnd_or_aboveStart {e s : α × Bool} (hna : ¬ Apart cmp e s) (x : α) :
    BelowEnd cmp e x ∨ AboveStart cmp s x := by
  obtain ⟨ve, ie⟩ := e
  obtain ⟨vs, is⟩ := s
  unfold Apart at hna
  unfold BelowEnd AboveStart
  dsimp only at *
  have hse : cmp vs ve ≤ 0 := by
    have := h.flip vs ve
    have := h.flip ve vs
    omega
  by_cases hxe : cmp x ve < 0
  · left
    split <;> omega
  · have hex : cmp ve x ≤ 0 := not_not.mp (h.lt_iff_not_le.not.mp hxe)
    by_cases hsx : cmp vs x < 0
    · right
      split <;> omega
    · -- the point, the upper bound and the lower bound share one value; one of them includes it
      have hxs : cmp x vs ≤ 0 := not_not.mp (h.lt_iff_not_le.not.mp hsx)
      have hxe' : cmp x ve = 0 := h.eq_zero_of_le_of_le (h.trans _ _ _ hxs hse) hex
      have hsx' : cmp vs x = 0 := h.eq_zero_of_le_of_le (h.trans _ _ _ hse hex) hxs
      have hes : cmp ve vs = 0 := h.eq_zero_trans (h.eq_zero_comm.mp hxe') (h.eq_zero_comm.mp hsx')
      cases ie <;> cases is <;> simp_all

/-- An upper bound and the lower bound at its value with the other inclusion split the points:
a point is below the one exactly when it is not above the other. -/
theorem belowEnd_iff_not_aboveStart (v : α) (i : Bool) (x : α) :
    BelowEnd cmp (v, i) x ↔ ¬ AboveStart cmp (v, !i) x := by
  have := h.flip x v
  have := h.flip v x
  unfold BelowEnd AboveStart
  cases i <;> simp <;> omega

/-- A gap before a lower bound stays one for a lower upper bound and a higher lower bound. -/
theorem gap_mono {e e' s s' : α × Bool} (he : EndLE cmp e' e) (hg : Gap cmp e s)
    (hs : StartLE cmp s s') : Gap cmp e' s' := by
  obtain ⟨ve', ie'⟩ := e'
  obtain ⟨ve, ie⟩ := e
  obtain ⟨vs, is⟩ := s
  obtain ⟨vs', is'⟩ := s'
  unfold EndLE at he
  unfold StartLE at hs
  unfold Gap at hg ⊢
  dsimp only at *
  have h₁ : cmp ve' ve ≤ 0 := by omega
  have h₂ : cmp vs vs' ≤ 0 := by omega
  by_cases hlt : cmp ve' ve < 0 ∨ cmp ve vs < 0 ∨ cmp vs vs' < 0
  · left
    rcases hlt with hlt | hlt | hlt
    · exact h.lt_of_lt_of_le hlt (h.trans _ _ _ (by omega) h₂)
    · exact h.lt_of_le_of_lt h₁ (h.lt_of_lt_of_le hlt h₂)
    · exact h.lt_of_le_of_lt (h.trans _ _ _ h₁ (by omega)) hlt
  · -- the four values are equivalent; the end excluded at the meeting value stays excluded
    right
    have e₁ : cmp ve' ve = 0 := by omega
    have e₂ : cmp ve vs = 0 := by omega
    have e₃ : cmp vs vs' = 0 := by omega
    refine ⟨h.eq_zero_trans e₁ (h.eq_zero_trans e₂ e₃), ?_⟩
    simp only [e₁, e₂, e₃, Int.lt_irrefl, false_or, true_and] at he hg hs
    revert he hg hs
    cases ie' <;> cases ie <;> cases is <;> cases is' <;> decide

/-- Being apart also carries over to a lower upper bound and a higher lower bound. -/
theorem apart_mono {e e' s s' : α × Bool} (he : EndLE cmp e' e) (hg : Apart cmp e s)
    (hs : StartLE cmp s s') : Apart cmp e' s' := by
  obtain ⟨ve', ie'⟩ := e'
  obtain ⟨ve, ie⟩ := e
  obtain ⟨vs, is⟩ := s
  obtain ⟨vs', is'⟩ := s'
  unfold EndLE at he
  unfold StartLE at hs
  unfold Apart at hg ⊢
  dsimp only at *
  have h₁ : cmp ve' ve ≤ 0 := by omega
  have h₂ : cmp vs vs' ≤ 0 := by omega
  by_cases hlt : cmp ve' ve < 0 ∨ cmp ve vs < 0 ∨ cmp vs vs' < 0
  · left
    rcases hlt with hlt | hlt | hlt
    · exact h.lt_of_lt_of_le hlt (h.trans _ _ _ (by omega) h₂)
    · exact h.lt_of_le_of_lt h₁ (h.lt_of_lt_of_le hlt h₂)
    · exact h.lt_of_le_of_lt (h.trans _ _ _ h₁ (by omega)) hlt
  · right
    have e₁ : cmp ve' ve = 0 := by omega
    have e₂ : cmp ve vs = 0 := by omega
    have e₃ : cmp vs vs' = 0 := by omega
    refine ⟨h.eq_zero_trans e₁ (h.eq_zero_trans e₂ e₃), ?_⟩
    simp only [e₁, e₂, e₃, Int.lt_irrefl, false_or, true_and] at he hg hs
    revert he hg hs
    cases ie' <;> cases ie <;> cases is <;> cases is' <;> decide

/-- An upper bound with a gap before the start of a nonempty range `[s, e']` ends before `e'`. -/
theorem endLE_of_gap {e e' s : α × Bool} (hg : Gap cmp e s) (hv : ¬ Gap cmp e' s) :
    EndLE cmp e e' := by
  by_contra hn
  exact hv (gap_mono h (endLE_of_not_endLE h hn) hg (startLE_refl h s))

/-- The hull of `[s, e]` and `[s', e']`, where the first starts and ends first and the two are
not apart, holds exactly their points. -/
theorem hull_iff {s s' e e' : α × Bool} (hs : StartLE cmp s s') (he : EndLE cmp e e')
    (hna : ¬ Apart cmp e s') (x : α) :
    AboveStart cmp s x ∧ BelowEnd cmp e' x ↔
      AboveStart cmp s x ∧ BelowEnd cmp e x ∨ AboveStart cmp s' x ∧ BelowEnd cmp e' x := by
  constructor
  · rintro ⟨hsx, hxe'⟩
    rcases belowEnd_or_aboveStart h hna x with hxe | hs'x
    · exact .inl ⟨hsx, hxe⟩
    · exact .inr ⟨hs'x, hxe'⟩
  · rintro (⟨hsx, hxe⟩ | ⟨hs'x, hxe'⟩)
    · exact ⟨hsx, belowEnd_of_endLE h he hxe⟩
    · exact ⟨aboveStart_of_startLE h hs hs'x, hxe'⟩

end Preorder

end interval_bounds
