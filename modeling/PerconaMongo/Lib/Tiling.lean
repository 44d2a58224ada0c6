-- Lists of half-open intervals `[lo x, hi x)` over a linear order that cover a range end to
-- end, each starting where the one before it ends. Such a list is sorted and pairwise
-- disjoint, and conversely a pairwise disjoint list of nonempty intervals, sorted, whose union
-- is a range tiles that range. The first interval that ends above a key holds it.
import Mathlib

namespace tiling

variable {α κ : Type*} [LinearOrder κ] (lo hi : α → κ)

/-- Interval `x` holds key `k`. -/
def Holds (x : α) (k : κ) : Prop := lo x ≤ k ∧ k < hi x

/-- `Tiles a b l`: the nonempty intervals of `l` cover `[a, b)` end to end. -/
inductive Tiles : κ → κ → List α → Prop
  | single {x : α} : lo x < hi x → Tiles (lo x) (hi x) [x]
  | cons {x : α} {b : κ} {l : List α} : lo x < hi x → Tiles (hi x) b l → Tiles (lo x) b (x :: l)

variable {lo hi}

/-- Where each interval ends before the next ones start, at most one interval holds a key. -/
theorem eq_of_holds_of_pairwise {l : List α} (hp : l.Pairwise (fun x y => hi x ≤ lo y))
    {x y : α} (hx : x ∈ l) (hy : y ∈ l) {k : κ} (hxk : Holds lo hi x k) (hyk : Holds lo hi y k) :
    x = y := by
  induction l with
  | nil => simp at hx
  | cons a l ih =>
    obtain ⟨ha, hp⟩ := List.pairwise_cons.mp hp
    rcases hx with _ | ⟨_, hx⟩ <;> rcases hy with _ | ⟨_, hy⟩
    · rfl
    · exact absurd (hxk.2.trans_le ((ha y hy).trans hyk.1)) (lt_irrefl k)
    · exact absurd (hyk.2.trans_le ((ha x hx).trans hxk.1)) (lt_irrefl k)
    · exact ih hp hx hy

namespace Tiles

theorem ne_nil {a b : κ} {l : List α} (h : Tiles lo hi a b l) : l ≠ [] := by
  cases h <;> simp

theorem nonempty {a b : κ} {l : List α} (h : Tiles lo hi a b l) : ∀ x ∈ l, lo x < hi x := by
  induction h with
  | single hx => simpa using hx
  | cons hx _ ih =>
    intro y hy
    rcases List.mem_cons.mp hy with rfl | hy
    · exact hx
    · exact ih y hy

theorem lt {a b : κ} {l : List α} (h : Tiles lo hi a b l) : a < b := by
  induction h with
  | single hx => exact hx
  | cons hx _ ih => exact hx.trans ih

/-- Every interval of a tiling lies within the range. -/
theorem bounds {a b : κ} {l : List α} (h : Tiles lo hi a b l) : ∀ x ∈ l, a ≤ lo x ∧ hi x ≤ b := by
  induction h with
  | single hx => simp
  | cons hx ht ih =>
    intro y hy
    rcases List.mem_cons.mp hy with rfl | hy
    · exact ⟨le_rfl, ht.lt.le⟩
    · obtain ⟨h₁, h₂⟩ := ih y hy
      exact ⟨hx.le.trans h₁, h₂⟩

/-- A tiling is sorted: each interval ends before the next ones start. -/
theorem pairwise {a b : κ} {l : List α} (h : Tiles lo hi a b l) :
    l.Pairwise (fun x y => hi x ≤ lo y) := by
  induction h with
  | single _ => simp
  | cons _ ht ih => exact List.pairwise_cons.mpr ⟨fun y hy => (ht.bounds y hy).1, ih⟩

/-- A tiling holds exactly the keys of its range. -/
theorem holds_iff {a b : κ} {l : List α} (h : Tiles lo hi a b l) (k : κ) :
    (∃ x ∈ l, Holds lo hi x k) ↔ a ≤ k ∧ k < b := by
  induction h with
  | single hx => simp [Holds]
  | @cons x b l hx ht ih =>
    simp only [List.mem_cons, exists_eq_or_imp]
    rw [ih]
    unfold Holds
    constructor
    · rintro (⟨h₁, h₂⟩ | ⟨h₁, h₂⟩)
      · exact ⟨h₁, h₂.trans_le ht.lt.le⟩
      · exact ⟨hx.le.trans h₁, h₂⟩
    · rintro ⟨h₁, h₂⟩
      by_cases hk : k < hi x
      · exact .inl ⟨h₁, hk⟩
      · exact .inr ⟨not_lt.mp hk, h₂⟩

theorem head_lo {a b : κ} {l : List α} (h : Tiles lo hi a b l) : ∀ x ∈ l.head?, lo x = a := by
  cases h <;> simp

theorem last_hi {a b : κ} {l : List α} (h : Tiles lo hi a b l) : ∀ x ∈ l.getLast?, hi x = b := by
  induction h with
  | single _ => simp
  | @cons x b l _ ht ih =>
    intro y hy
    obtain ⟨z, l', rfl⟩ := List.exists_cons_of_ne_nil ht.ne_nil
    rw [List.getLast?_cons_cons] at hy
    exact ih y hy

/-- Consecutive intervals of a tiling meet: each ends where the next starts. -/
theorem chain {a b : κ} {l : List α} (h : Tiles lo hi a b l) :
    l.IsChain (fun x y => hi x = lo y) := by
  induction h with
  | single _ => exact List.IsChain.singleton _
  | cons _ ht ih => exact ih.cons fun y hy => (ht.head_lo y hy).symm

/-- The first interval of a tiling that ends above a key of the range holds it. -/
theorem find?_holds {a b : κ} {l : List α} (h : Tiles lo hi a b l) {k : κ} (ha : a ≤ k)
    (hb : k < b) : ∃ x, l.find? (fun x => decide (k < hi x)) = some x ∧ Holds lo hi x k := by
  induction h with
  | @single x _ => exact ⟨x, by simp [hb], ha, hb⟩
  | @cons x b l _ _ ih =>
    by_cases hk : k < hi x
    · exact ⟨x, by simp [hk], ha, hk⟩
    · obtain ⟨y, hy, hyk⟩ := ih (not_lt.mp hk) hb
      exact ⟨y, by simp [hk, hy], hyk⟩

/-- Each interval of a tiling starts at the start of the range or where an earlier one ends. -/
theorem lo_getElem {a b : κ} {l : List α} (h : Tiles lo hi a b l) (j : Nat) (hj : j < l.length) :
    lo l[j] = a ∨ ∃ i, ∃ (hil : i < l.length), i < j ∧ hi l[i] = lo l[j] := by
  cases j with
  | zero =>
    have h0 : l.head? = some l[0] := by rw [List.head?_eq_getElem?, List.getElem?_eq_getElem hj]
    exact .inl (h.head_lo _ h0)
  | succ i => exact .inr ⟨i, by omega, by omega, List.isChain_iff_getElem.mp h.chain i hj⟩

/-- Distinct positions of a tiling hold distinct intervals. -/
theorem getElem_inj {a b : κ} {l : List α} (h : Tiles lo hi a b l) {i j : Nat}
    (hil : i < l.length) (hjl : j < l.length) (he : l[i] = l[j]) : i = j := by
  have hlt : ∀ i j (hil : i < l.length) (hjl : j < l.length), i < j → hi l[i] < hi l[j] :=
    fun i j hil hjl hij => (List.pairwise_iff_getElem.mp h.pairwise i j hil hjl hij).trans_lt
      (h.nonempty _ (List.getElem_mem hjl))
  rcases lt_trichotomy i j with hij | hij | hij
  · exact absurd (he ▸ hlt i j hil hjl hij) (lt_irrefl _)
  · exact hij
  · exact absurd (he ▸ hlt j i hjl hil hij) (lt_irrefl _)

/-- A tiling holds each key in one interval at most. -/
theorem eq_of_holds {a b : κ} {l : List α} (h : Tiles lo hi a b l) {x y : α} (hx : x ∈ l)
    (hy : y ∈ l) {k : κ} (hxk : Holds lo hi x k) (hyk : Holds lo hi y k) : x = y :=
  eq_of_holds_of_pairwise h.pairwise hx hy hxk hyk

end Tiles

/-- A list of nonempty intervals, each ending before the next ones start, whose union is
`[a, b)`, tiles `[a, b)`. -/
theorem tiles_of_cover {a b : κ} {l : List α} (hp : l.Pairwise (fun x y => hi x ≤ lo y))
    (hne : ∀ x ∈ l, lo x < hi x) (hl : l ≠ [])
    (hcov : ∀ k, (∃ x ∈ l, Holds lo hi x k) ↔ a ≤ k ∧ k < b) : Tiles lo hi a b l := by
  induction l generalizing a with
  | nil => exact absurd rfl hl
  | cons x l ih =>
    obtain ⟨hx, hp⟩ := List.pairwise_cons.mp hp
    have hxne : lo x < hi x := hne x (by simp)
    -- the range starts where `x` does: `lo x` is held, and a key held below it would lie in
    -- an interval after `x`
    have hlo : lo x = a := by
      have hx_in := (hcov (lo x)).mp ⟨x, by simp, le_rfl, hxne⟩
      obtain ⟨y, hy, hyk⟩ := (hcov a).mpr ⟨le_rfl, hx_in.1.trans_lt hx_in.2⟩
      rcases List.mem_cons.mp hy with rfl | hy
      · exact le_antisymm hyk.1 hx_in.1
      · exact le_antisymm ((hxne.le.trans (hx y hy)).trans hyk.1) hx_in.1
    subst hlo
    by_cases hnil : l = []
    case pos =>
      subst hnil
      -- a single interval: the range ends where it does, as neither holds a key the other
      -- does not
      have hhi : hi x = b := by
        rcases lt_trichotomy (hi x) b with h | h | h
        · obtain ⟨y, hy, hyk⟩ := (hcov (hi x)).mpr ⟨hxne.le, h⟩
          rw [List.mem_singleton] at hy
          subst hy
          exact absurd hyk.2 (lt_irrefl _)
        · exact h
        · have hb := (hcov (lo x)).mp ⟨x, by simp, le_rfl, hxne⟩
          have := ((hcov b).mp ⟨x, by simp, hb.2.le, h⟩).2
          exact absurd this (lt_irrefl _)
      exact hhi ▸ Tiles.single hxne
    case neg =>
      refine Tiles.cons hxne (ih hp (fun y hy => hne y (by simp [hy])) hnil fun k => ?_)
      -- the rest holds the keys of the range from `hi x` on
      constructor
      · rintro ⟨y, hy, hyk⟩
        have hk := (hcov k).mp ⟨y, by simp [hy], hyk⟩
        exact ⟨(hx y hy).trans hyk.1, hk.2⟩
      · rintro ⟨h₁, h₂⟩
        obtain ⟨y, hy, hyk⟩ := (hcov k).mpr ⟨hxne.le.trans h₁, h₂⟩
        rcases List.mem_cons.mp hy with rfl | hy
        · exact absurd hyk.2 (not_lt.mpr h₁)
        · exact ⟨y, hy, hyk⟩

end tiling
