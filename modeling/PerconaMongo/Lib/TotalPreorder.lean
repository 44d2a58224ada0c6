-- Three-way comparators that are total preorders, as C++ sorting code takes them: a negative
-- number, zero or a positive number, whose sign flips with the arguments and whose "at most" is
-- transitive. The three-way comparison of a key in a linear order is one, and inherits the
-- order's laws. What the element at a rank of a sorted list is, up to the comparator's
-- equivalence: it is fixed by how many elements lie at or below each value, so a list that
-- keeps, below every value, either all the elements of another or at least `k` of them agrees
-- with it on the first `k` ranks. The stable sort as the sort of the elements decorated with
-- their positions, which has only one sorted permutation. Last, sorting by a comparator that
-- is a total preorder only on the values a list is drawn from, and what the value at a rank of
-- such a sorted list lies below.
import Mathlib

/-! ## The three-way comparison of a linear order -/

namespace three_way

variable {β : Type*} [LinearOrder β] {x y : β}

/-- The three-way comparison of a linear order. -/
def threeWay (x y : β) : Int := if x < y then -1 else if x = y then 0 else 1

@[simp]
theorem threeWay_neg_iff : threeWay x y < 0 ↔ x < y := by
  unfold threeWay
  split_ifs with h₁ h₂ <;> simp [h₁]

@[simp]
theorem threeWay_eq_zero_iff : threeWay x y = 0 ↔ x = y := by
  unfold threeWay
  split_ifs with h₁ h₂
  · simp [ne_of_lt h₁]
  · simp [h₂]
  · simp [h₂]

@[simp]
theorem threeWay_pos_iff : 0 < threeWay x y ↔ y < x := by
  unfold threeWay
  split_ifs with h₁ h₂
  · simp [le_of_lt h₁]
  · simp [h₂]
  · simp only [Int.reduceLT, true_iff]
    exact lt_of_le_of_ne (not_lt.mp h₁) (Ne.symm h₂)

@[simp]
theorem threeWay_nonpos_iff : threeWay x y ≤ 0 ↔ x ≤ y := by
  simpa only [not_lt, Int.not_lt] using (threeWay_pos_iff (x := x) (y := y)).not

@[simp]
theorem threeWay_nonneg_iff : 0 ≤ threeWay x y ↔ y ≤ x := by
  simpa only [not_lt, Int.not_lt] using (threeWay_neg_iff (x := x) (y := y)).not

/-- Comparing the other way round negates the result. -/
theorem threeWay_swap : threeWay y x = -threeWay x y := by
  unfold threeWay
  rcases lt_trichotomy x y with h | rfl | h
  · simp [h, not_lt_of_gt h, ne_of_gt h]
  · simp
  · simp [h, not_lt_of_gt h, ne_of_gt h]

/-- A comparison that falls through to a second one on a tie, as in `if (ret) return ret;`,
negates when both do. -/
theorem ite_ne_zero_swap {x y x' y' : Int} (hx : x' = -x) (hy : y' = -y) :
    (if x' ≠ 0 then x' else y') = -(if x ≠ 0 then x else y) := by
  subst hx hy
  by_cases h : x = 0 <;> simp [h]

end three_way

/-! ## Comparators that are total preorders -/

namespace total_preorder

variable {α : Type*} {cmp : α → α → Int}

/-- A comparator that is a total preorder: the sign flips with the arguments, and "at most"
(`cmp a b ≤ 0`) is transitive. -/
structure IsTotalPreorder (cmp : α → α → Int) : Prop where
  flip : ∀ a b, cmp a b < 0 ↔ 0 < cmp b a
  trans : ∀ a b c, cmp a b ≤ 0 → cmp b c ≤ 0 → cmp a c ≤ 0

/-- "At most", as a `Bool` for sorting. -/
def le (cmp : α → α → Int) (a b : α) : Bool := decide (cmp a b ≤ 0)

@[simp]
theorem le_eq_true {a b : α} : le cmp a b = true ↔ cmp a b ≤ 0 := by
  simp [le]

namespace IsTotalPreorder

variable (h : IsTotalPreorder cmp)
include h

theorem refl (a : α) : cmp a a = 0 := by
  have := h.flip a a
  omega

theorem le_refl (a : α) : le cmp a a = true := by
  simp [h.refl a]

/-- Below a greater value lie at least as many elements. -/
theorem countP_le_countP {a b : α} (hab : cmp a b ≤ 0) (l : List α) :
    l.countP (fun x => le cmp x a) ≤ l.countP (fun x => le cmp x b) :=
  List.countP_mono_left fun x _ hx => by simpa using h.trans _ _ _ (by simpa using hx) hab

/-- The comparator read through a function is again a total preorder. -/
theorem comap {β : Type*} (f : β → α) : IsTotalPreorder fun a b => cmp (f a) (f b) :=
  ⟨fun a b => h.flip (f a) (f b), fun a b c => h.trans (f a) (f b) (f c)⟩

theorem lt_iff_not_le {a b : α} : cmp a b < 0 ↔ ¬ cmp b a ≤ 0 := by
  rw [h.flip]
  omega

theorem le_total (a b : α) : cmp a b ≤ 0 ∨ cmp b a ≤ 0 := by
  have := h.flip a b
  omega

theorem eq_zero_comm {a b : α} : cmp a b = 0 ↔ cmp b a = 0 := by
  have h₁ := h.flip a b
  have h₂ := h.flip b a
  omega

theorem eq_zero_of_le_of_le {a b : α} (h₁ : cmp a b ≤ 0) (h₂ : cmp b a ≤ 0) : cmp a b = 0 := by
  have := h.flip a b
  omega

theorem lt_of_lt_of_le {a b c : α} (hab : cmp a b < 0) (hbc : cmp b c ≤ 0) : cmp a c < 0 := by
  rw [h.lt_iff_not_le] at hab ⊢
  exact fun hca => hab (h.trans _ _ _ hbc hca)

theorem lt_of_le_of_lt {a b c : α} (hab : cmp a b ≤ 0) (hbc : cmp b c < 0) : cmp a c < 0 := by
  rw [h.lt_iff_not_le] at hbc ⊢
  exact fun hca => hbc (h.trans _ _ _ hca hab)

theorem eq_zero_trans {a b c : α} (hab : cmp a b = 0) (hbc : cmp b c = 0) : cmp a c = 0 := by
  have hba := h.eq_zero_comm.mp hab
  have hcb := h.eq_zero_comm.mp hbc
  exact h.eq_zero_of_le_of_le (h.trans _ _ _ (Int.le_of_eq hab) (Int.le_of_eq hbc))
    (h.trans _ _ _ (Int.le_of_eq hcb) (Int.le_of_eq hba))

/-- The `Bool` order is transitive and total, as `List.mergeSort` asks. -/
theorem le_trans' (a b c : α) (hab : le cmp a b = true) (hbc : le cmp b c = true) :
    le cmp a c = true := by
  simp only [le_eq_true] at *
  exact h.trans _ _ _ hab hbc

theorem le_total' (a b : α) : (le cmp a b || le cmp b a) = true := by
  simpa using h.le_total a b

/-! ### Ranks of sorted lists -/

/-- In a sorted list the element at rank `i` lies at or below `t` exactly when more than `i`
elements do: those at or below `t` come first. -/
theorem getElem_le_iff {l : List α} (hl : l.Pairwise fun a b => le cmp a b = true) {i : Nat}
    (hi : i < l.length) (t : α) :
    cmp l[i] t ≤ 0 ↔ i < l.countP fun x => le cmp x t := by
  induction l generalizing i with
  | nil => simp at hi
  | cons x l ih =>
    obtain ⟨hx, hl⟩ := List.pairwise_cons.mp hl
    -- an element at or below `t` has the head at or below `t`
    have hhead : ∀ y ∈ l, cmp y t ≤ 0 → cmp x t ≤ 0 := fun y hy hyt =>
      h.trans _ _ _ (by simpa using hx y hy) hyt
    by_cases hxt : cmp x t ≤ 0
    case pos =>
      cases i with
      | zero => simp [hxt]
      | succ i =>
        simp only [List.getElem_cons_succ, List.countP_cons, le_eq_true, hxt, if_true]
        rw [ih hl]
        omega
    case neg =>
      have hnone : l.countP (fun y => le cmp y t) = 0 :=
        List.countP_eq_zero.mpr fun y hy hyt => hxt (hhead y hy (by simpa using hyt))
      cases i with
      | zero => simp [hxt, hnone]
      | succ i =>
        simp only [List.getElem_cons_succ, List.countP_cons, le_eq_true, hxt, if_false, hnone]
        exact iff_of_false (fun hyt => hxt (hhead _ (List.getElem_mem _) hyt)) (by omega)

/-- Two sorted lists agree at rank `i`, up to equivalence, when below every value either both
or neither have more than `i` elements. -/
theorem getElem_eq_zero_of_counts {l₁ l₂ : List α}
    (h₁ : l₁.Pairwise fun a b => le cmp a b = true) (h₂ : l₂.Pairwise fun a b => le cmp a b = true)
    {i : Nat} (hi₁ : i < l₁.length) (hi₂ : i < l₂.length)
    (hcount : ∀ t, i < l₁.countP (fun x => le cmp x t) ↔ i < l₂.countP (fun x => le cmp x t)) :
    cmp l₁[i] l₂[i] = 0 := by
  apply h.eq_zero_of_le_of_le
  · apply (h.getElem_le_iff h₁ hi₁ _).mpr
    apply (hcount _).mpr
    exact (h.getElem_le_iff h₂ hi₂ _).mp (Int.le_of_eq (h.refl _))
  · apply (h.getElem_le_iff h₂ hi₂ _).mpr
    apply (hcount _).mp
    exact (h.getElem_le_iff h₁ hi₁ _).mp (Int.le_of_eq (h.refl _))

end IsTotalPreorder

/-! ### Keeping the least `k` elements -/

/-- `kept` keeps enough of `input` for its least `k` elements: below every value it has all the
elements `input` has, or at least `k`. -/
def KeepsLeast (cmp : α → α → Int) (k : Nat) (kept input : List α) : Prop :=
  ∀ t, kept.countP (fun x => le cmp x t) = input.countP (fun x => le cmp x t) ∨
    k ≤ kept.countP (fun x => le cmp x t)

theorem keepsLeast_refl (k : Nat) (l : List α) : KeepsLeast cmp k l l := fun _ => .inl rfl

namespace KeepsLeast

variable {k : Nat} {kept input : List α}

theorem perm {kept' : List α} (h : KeepsLeast cmp k kept input) (hp : kept.Perm kept') :
    KeepsLeast cmp k kept' input := by
  intro t
  rw [← hp.countP_eq]
  exact h t

theorem trans {l : List α} (h₁ : KeepsLeast cmp k l kept) (h₂ : KeepsLeast cmp k kept input) :
    KeepsLeast cmp k l input := by
  intro t
  rcases h₁ t with heq | hk
  · rw [heq]
    exact h₂ t
  · exact .inr hk

/-- An element both kept and given keeps the property. -/
theorem append (h : KeepsLeast cmp k kept input) (x : α) :
    KeepsLeast cmp k (kept ++ [x]) (input ++ [x]) := by
  intro t
  simp only [List.countP_append]
  rcases h t with heq | hk
  · exact .inl (by rw [heq])
  · exact .inr (by omega)

/-- An element may be dropped when below every value at or above it `k` elements are kept. -/
theorem append_of_le (h : KeepsLeast cmp k kept input) {x : α}
    (hx : ∀ t, cmp x t ≤ 0 → k ≤ kept.countP (fun y => le cmp y t)) :
    KeepsLeast cmp k kept (input ++ [x]) := by
  intro t
  by_cases hxt : cmp x t ≤ 0
  · exact .inr (hx t hxt)
  · have hzero : [x].countP (fun y => le cmp y t) = 0 := by simp [hxt]
    rw [List.countP_append, hzero, Nat.add_zero]
    exact h t

end KeepsLeast

namespace IsTotalPreorder

variable (h : IsTotalPreorder cmp)
include h

/-- The first elements of a list, each at or below all the others, keep enough for the least
`k` when they are `k` or all of them. -/
theorem keepsLeast_of_split {k : Nat} {out rest l : List α} (hp : (out ++ rest).Perm l)
    (hle : ∀ x ∈ out, ∀ y ∈ rest, cmp x y ≤ 0) (hlen : out.length = min k l.length) :
    KeepsLeast cmp k out l := by
  intro t
  have hl := hp.length_eq
  rw [List.length_append] at hl
  rw [← hp.countP_eq, List.countP_append]
  by_cases hr : ∃ y ∈ rest, cmp y t ≤ 0
  case pos =>
    -- an element left over lies below `t`, so every element of `out` does
    obtain ⟨y, hy, hyt⟩ := hr
    have hall : out.countP (fun x => le cmp x t) = out.length :=
      List.countP_eq_length.mpr fun x hx => by simpa using h.trans _ _ _ (hle x hx y hy) hyt
    have hrest : 0 < rest.length := List.length_pos_of_mem hy
    right
    omega
  case neg =>
    have hzero : rest.countP (fun x => le cmp x t) = 0 :=
      List.countP_eq_zero.mpr fun y hy hyt => hr ⟨y, hy, by simpa using hyt⟩
    left
    rw [hzero, Nat.add_zero]

/-- The greatest of `k` kept elements may give way to a new element below it. -/
theorem keepsLeast_replace {k : Nat} {S rest input : List α} {front x : α}
    (hkeep : KeepsLeast cmp k (S ++ front :: rest) input) (hrest : ∀ y ∈ rest, cmp y front ≤ 0)
    (hx : cmp x front < 0) (hlen : rest.length + 1 = k) :
    KeepsLeast cmp k (S ++ (rest ++ [x])) (input ++ [x]) := by
  intro t
  by_cases hft : cmp front t ≤ 0
  case pos =>
    -- the new batch lies at or below `front`, so at or below `t`
    have hall : (rest ++ [x]).countP (fun y => le cmp y t) = rest.length + 1 := by
      rw [List.countP_eq_length.mpr, List.length_append, List.length_singleton]
      intro y hy
      rcases List.mem_append.mp hy with hy | hy
      · simpa using h.trans _ _ _ (hrest y hy) hft
      · rw [List.mem_singleton.mp hy]
        simpa using h.trans _ _ _ (Int.le_of_lt hx) hft
    right
    rw [List.countP_append, hall]
    omega
  case neg =>
    -- `front` was not counted below `t`, and `x` is counted on both sides or on neither
    have h₁ := hkeep t
    simp only [List.countP_append, List.countP_cons, le_eq_true, hft, if_false,
      Nat.add_zero] at h₁ ⊢
    rcases h₁ with heq | hge
    · left
      omega
    · right
      omega

/-- A sorted permutation of kept elements agrees with a sorted permutation of the input at each
of the first `k` ranks, up to equivalence. -/
theorem getElem_eq_zero_of_keepsLeast {k : Nat} {kept input sk si : List α}
    (hsub : kept.Subperm input) (hkeep : KeepsLeast cmp k kept input)
    (hsk : sk.Perm kept) (hsi : si.Perm input)
    (hsk' : sk.Pairwise fun a b => le cmp a b = true) (hsi' : si.Pairwise fun a b => le cmp a b = true)
    {i : Nat} (hik : i < k) (hi₁ : i < sk.length) (hi₂ : i < si.length) :
    cmp sk[i] si[i] = 0 := by
  apply h.getElem_eq_zero_of_counts hsk' hsi' hi₁ hi₂
  intro t
  rw [hsk.countP_eq, hsi.countP_eq]
  have hle : kept.countP (fun x => le cmp x t) ≤ input.countP (fun x => le cmp x t) :=
    hsub.countP_le _
  rcases hkeep t with heq | hk
  · rw [heq]
  · omega

/-- A nonempty list has a greatest element. -/
theorem exists_max {l : List α} (hl : l ≠ []) : ∃ t ∈ l, ∀ y ∈ l, cmp y t ≤ 0 := by
  induction l with
  | nil => exact absurd rfl hl
  | cons x l ih =>
    by_cases hnil : l = []
    case pos =>
      subst hnil
      exact ⟨x, by simp, by simp [h.refl x]⟩
    case neg =>
      obtain ⟨t, ht, hmax⟩ := ih hnil
      by_cases hxt : cmp x t ≤ 0
      · exact ⟨t, by simp [ht], by simpa [hxt] using hmax⟩
      · -- `x` lies above `t`, so above everything after it
        have htx : cmp t x ≤ 0 := by have := h.flip t x; omega
        refine ⟨x, by simp, ?_⟩
        intro y hy
        rcases List.mem_cons.mp hy with rfl | hy
        · exact Int.le_of_eq (h.refl y)
        · exact h.trans _ _ _ (hmax y hy) htx

/-- Keeping enough for the least `k` keeps at least `k` elements, or all of them. -/
theorem min_le_length_of_keepsLeast {k : Nat} {kept input : List α} (hsub : kept.Subperm input)
    (hkeep : KeepsLeast cmp k kept input) : min k input.length ≤ kept.length := by
  rcases eq_or_ne input [] with rfl | hne
  · simp
  -- below a greatest element lie all the elements of both lists
  obtain ⟨t, -, hmax⟩ := h.exists_max hne
  have hin : input.countP (fun x => le cmp x t) = input.length :=
    List.countP_eq_length.mpr fun y hy => by simpa using hmax y hy
  have hkt : kept.countP (fun x => le cmp x t) = kept.length :=
    List.countP_eq_length.mpr fun y hy => by simpa using hmax y (hsub.subset hy)
  rcases hkeep t with heq | hk <;> omega

/-- A sorted sub-multiset of the input of at most `k` elements that keeps enough for the least
`k` has `min k n` elements, each equivalent to the element of the same rank in a sorting of the
input. -/
theorem output_of_keepsLeast {k : Nat} {out input sorted : List α} (hsub : out.Subperm input)
    (hkeep : KeepsLeast cmp k out input) (hlen : out.length ≤ k)
    (hout : out.Pairwise fun a b => le cmp a b = true) (hs : sorted.Perm input)
    (hs' : sorted.Pairwise fun a b => le cmp a b = true) :
    out.length = min k input.length ∧
      ∀ i (h₁ : i < out.length) (h₂ : i < sorted.length), cmp out[i] sorted[i] = 0 := by
  have hmin := h.min_le_length_of_keepsLeast hsub hkeep
  have hin := hsub.length_le
  refine ⟨by omega, fun i h₁ h₂ => ?_⟩
  exact h.getElem_eq_zero_of_keepsLeast hsub hkeep (List.Perm.refl out) hs hout hs' (by omega) h₁ h₂

end IsTotalPreorder

/-! ### Stable sorting -/

/-- `zipIdxLE` orders elements both ways only when they carry the same position. -/
theorem snd_eq_of_zipIdxLE {le : α → α → Bool} {a b : α × Nat}
    (hab : List.zipIdxLE le a b = true) (hba : List.zipIdxLE le b a = true) : a.2 = b.2 := by
  unfold List.zipIdxLE at hab hba
  by_cases h₁ : le a.1 b.1 <;> by_cases h₂ : le b.1 a.1 <;> simp_all
  omega

/-- Elements decorated with distinct positions have one sorted permutation under `zipIdxLE`. -/
theorem eq_of_perm_of_zipIdxLE {le : α → α → Bool} {l₁ l₂ : List (α × Nat)} (hp : l₁.Perm l₂)
    (hnd : (l₁.map Prod.snd).Nodup)
    (h₁ : l₁.Pairwise fun a b => List.zipIdxLE le a b = true)
    (h₂ : l₂.Pairwise fun a b => List.zipIdxLE le a b = true) : l₁ = l₂ := by
  apply hp.eq_of_pairwise _ h₁ h₂
  intro a b ha hb hab hba
  exact List.inj_on_of_nodup_map hnd ha (hp.mem_iff.mpr hb) (snd_eq_of_zipIdxLE hab hba)

/-- Sorting elements decorated with their positions, from any start, and forgetting the
positions is the stable sort: `zipIdxLE` sees only the order of the positions. -/
theorem map_fst_mergeSort_zipIdx (le : α → α → Bool) (l : List α) (n : Nat) :
    ((l.zipIdx n).mergeSort (List.zipIdxLE le)).map Prod.fst = l.mergeSort le := by
  have hshift : (l.zipIdx.mergeSort (List.zipIdxLE le)).map (fun p => (p.1, n + p.2)) =
      (l.zipIdx.map fun p => (p.1, n + p.2)).mergeSort (List.zipIdxLE le) := by
    apply List.map_mergeSort
    intro a _ b _
    simp [List.zipIdxLE]
  rw [List.zipIdx_eq_map_add, ← hshift, List.map_map]
  exact List.mergeSort_zipIdx

end total_preorder

/-! ## Sorting on a subset where the comparator is a total preorder -/

namespace rank_sort

variable {α : Type*} {le : α → α → Bool}

/-- Merge sort orders a list by a comparator that is a total preorder on the values its
elements are drawn from, even where the comparator is no order elsewhere. -/
theorem pairwise_mergeSort_of_forall {S : α → Prop}
    (trans : ∀ a b c, S a → S b → S c → le a b = true → le b c = true → le a c = true)
    (total : ∀ a b, S a → S b → (le a b || le b a) = true) {l : List α} (hl : ∀ a ∈ l, S a) :
    (l.mergeSort le).Pairwise (fun a b => le a b = true) := by
  -- sort the list of subtypes, where the comparator is a total preorder, then forget `S`
  have hsort := @List.pairwise_mergeSort {a // S a} (fun a b => le a.1 b.1)
    (fun a b c => trans a b c a.2 b.2 c.2) (fun a b => total a b a.2 b.2) (l.pmap Subtype.mk hl)
  have hmap : (l.pmap Subtype.mk hl).map Subtype.val = l := by
    rw [List.map_pmap, List.pmap_eq_map, List.map_id']
  rw [← hmap, ← List.map_mergeSort (f := Subtype.val) (fun _ _ _ _ => rfl)]
  exact List.pairwise_map.mpr hsort

/-- In a list sorted by a comparator reflexive at its `k`-th element, that element lies below
all the `length - k` elements from rank `k` on. -/
theorem length_sub_le_countP {l : List α} (hp : l.Pairwise (fun a b => le a b = true)) {k : Nat}
    (hk : k < l.length) (hrefl : le l[k] l[k] = true) :
    l.length - k ≤ l.countP (le l[k]) := by
  have hdrop : l.drop k = l[k] :: l.drop (k + 1) := List.drop_eq_getElem_cons hk
  have hpd : (l[k] :: l.drop (k + 1)).Pairwise (fun a b => le a b = true) := hdrop ▸ hp.drop
  have hall : ∀ x ∈ l.drop k, le l[k] x = true := by
    rw [hdrop]
    intro x hx
    rcases List.mem_cons.mp hx with rfl | hx
    · exact hrefl
    · exact List.rel_of_pairwise_cons hpd hx
  calc l.length - k = (l.drop k).length := (List.length_drop ..).symm
    _ = (l.drop k).countP (le l[k]) := (List.countP_eq_length.mpr hall).symm
    _ ≤ l.countP (le l[k]) := (List.drop_sublist k l).countP_le

end rank_sort
