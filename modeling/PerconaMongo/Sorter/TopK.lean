-- What a `TopKSorter` drops it may drop: every element it does not keep lies at or above `limit`
-- elements it keeps. The spilled runs and the elements in memory are a sub-multiset of the input
-- that keeps enough for its least `limit` elements; the cutoff has `limit` spilled elements at or
-- below it, and each candidate for the cutoff as many as its counter says. `updateCutoff` keeps
-- the counters honest, so a promoted candidate is a sound cutoff.
import PerconaMongo.Sorter.Sorters

namespace mongo

open binary_heap total_preorder

variable {α : Type}

namespace TopKSorter

/-- The counters of `updateCutoff` are honest over the spilled elements `S`: the cutoff has `k`
of them at or below it, and each candidate at least as many as its counter. -/
structure Counted (cmp : α → α → Int) (k : Nat) (S : List α) (s : TopKSorter α) : Prop where
  cutoff : s.haveCutoff = true → k ≤ S.countP fun x => le cmp x s.cutoff
  worst : s.worstCount ≤ S.countP fun x => le cmp x s.worstSeen
  median : s.medianCount ≤ S.countP fun x => le cmp x s.lastMedian

section Counters

variable {cmp : α → α → Int} {k : Nat} {S : List α}

theorem Counted.promote_cutoff {s : TopKSorter α} (h : Counted cmp k S s) {v : α}
    (hv : k ≤ S.countP fun x => le cmp x v) : Counted cmp k S (promote cmp s v) := by
  unfold TopKSorter.promote
  split
  · exact ⟨fun _ => hv, h.worst, h.median⟩
  · exact h

/-- The worst seen is promoted once its counter reaches `limit`, and the counter starts again. -/
theorem Counted.promote_worstSeen {t : TopKSorter α} (h : Counted cmp k S t) :
    Counted cmp k S
      (if k ≤ t.worstCount then { promote cmp t t.worstSeen with worstCount := 0 } else t) := by
  split_ifs with hw
  · have hp := h.promote_cutoff (hw.trans h.worst)
    exact ⟨hp.cutoff, Nat.zero_le _, hp.median⟩
  · exact h

/-- The last median is promoted once its counter reaches `limit`, and the counter starts again. -/
theorem Counted.promote_lastMedian {t : TopKSorter α} (h : Counted cmp k S t) :
    Counted cmp k S
      (if k ≤ t.medianCount then { promote cmp t t.lastMedian with medianCount := 0 } else t) := by
  split_ifs with hm
  · have hp := h.promote_cutoff (hm.trans h.median)
    exact ⟨hp.cutoff, hp.worst, Nat.zero_le _⟩
  · exact h

end Counters

variable [Inhabited α]

/-- What holds of a `TopKSorter` that was given `input`. -/
structure Inv (opts : SortOptions) (cmp : α → α → Int) (input : List α) (s : TopKSorter α) :
    Prop where
  sorted : ∀ f ∈ s.iters, f.Pairwise fun a b => le cmp a b = true
  subperm : (s.iters.flatten ++ s.data).Subperm input
  keeps : KeepsLeast cmp opts.limit (s.iters.flatten ++ s.data) input
  counted : Counted cmp opts.limit s.iters.flatten s
  data_length : s.data.length ≤ opts.limit

theorem init_inv (opts : SortOptions) (cmp : α → α → Int) : Inv opts cmp [] (init : TopKSorter α) :=
  ⟨by simp [init], by simp [init], keepsLeast_refl _ _, ⟨by simp [init], by simp [init],
    by simp [init]⟩, by simp [init]⟩

section Counters

variable {cmp : α → α → Int} {k : Nat} {S : List α} (hcmp : IsTotalPreorder cmp)
include hcmp

/-- The last element of a sorted batch lies at or above all of it. -/
theorem le_getLast {data : List α} (hsorted : data.Pairwise fun a b => le cmp a b = true) :
    ∀ y ∈ data, cmp y (data.getLast?.getD default) ≤ 0 := by
  intro y hy
  have hne : data ≠ [] := List.ne_nil_of_mem hy
  rw [List.getLast?_eq_some_getLast hne, Option.getD_some]
  have hsplit := List.dropLast_append_getLast hne
  rw [← hsplit, List.pairwise_append] at hsorted
  rw [← hsplit, List.mem_append, List.mem_singleton] at hy
  rcases hy with early | last
  · simpa using hsorted.2.2 y early _ (List.mem_singleton_self _)
  · rw [last]
    exact Int.le_of_eq (hcmp.refl _)

/-- `updateCutoff` counts a new sorted batch into its counters, and promotes a candidate only once
its counter reaches `limit`. -/
theorem updateCutoff_counted {opts : SortOptions} {s : TopKSorter α}
    (hsorted : s.data.Pairwise fun a b => le cmp a b = true)
    (h : Counted cmp opts.limit S s) :
    Counted cmp opts.limit (S ++ s.data) (updateCutoff opts cmp s) := by
  unfold updateCutoff
  set back := s.data.getLast?.getD default
  set worstSeen := if (decide (s.worstCount = 0) || less cmp s.worstSeen back) = true then back
    else s.worstSeen
  set lastMedian :=
    if s.medianCount = 0 then s.data.getD (s.data.length / 2) default else s.lastMedian
  have hback := le_getLast hcmp hsorted
  -- the batch lies below the new worst seen, and the old count carries over
  have hworst : s.worstCount + s.data.length ≤
      (S ++ s.data).countP fun x => le cmp x worstSeen := by
    rw [List.countP_append]
    by_cases hw : (decide (s.worstCount = 0) || less cmp s.worstSeen back) = true
    case pos =>
      have hbatch : s.data.countP (fun x => le cmp x back) = s.data.length :=
        List.countP_eq_length.mpr fun y hy => by simpa using hback y hy
      simp only [worstSeen, hw, if_true, hbatch]
      rcases Bool.or_eq_true_iff.mp hw with h0 | hlt
      · simp only [decide_eq_true_eq] at h0
        omega
      · have := hcmp.countP_le_countP (Int.le_of_lt (less_eq_true.mp hlt)) S
        have := h.worst
        omega
    case neg =>
      have hbw : cmp back s.worstSeen ≤ 0 := by
        simp only [Bool.or_eq_true, decide_eq_true_eq, not_or] at hw
        exact (less_eq_false_iff hcmp).mp (Bool.eq_false_iff.mpr hw.2)
      have hbatch : s.data.countP (fun x => le cmp x s.worstSeen) = s.data.length :=
        List.countP_eq_length.mpr fun y hy => by simpa using hcmp.trans _ _ _ (hback y hy) hbw
      simp only [worstSeen, hw, if_false, Bool.false_eq_true, hbatch]
      have := h.worst
      omega
  have hmedian : s.medianCount + upperBound cmp s.data lastMedian ≤
      (S ++ s.data).countP fun x => le cmp x lastMedian := by
    rw [List.countP_append]
    have hub := upperBound_le_countP hcmp s.data lastMedian
    by_cases hm : s.medianCount = 0
    case pos => omega
    case neg =>
      have := h.median
      simp only [lastMedian, hm, if_false] at hub ⊢
      omega
  have hcut : s.haveCutoff = true → opts.limit ≤ (S ++ s.data).countP fun x => le cmp x s.cutoff :=
    fun hc => (h.cutoff hc).trans (List.countP_append .. ▸ Nat.le_add_right _ _)
  have hcounted : Counted cmp opts.limit (S ++ s.data) { s with
      worstSeen := worstSeen
      lastMedian := lastMedian
      worstCount := s.worstCount + s.data.length
      medianCount := s.medianCount + upperBound cmp s.data lastMedian } :=
    ⟨hcut, hworst, hmedian⟩
  exact hcounted.promote_worstSeen.promote_lastMedian

end Counters

section Run

variable {opts : SortOptions} {cmp : α → α → Int} (hcmp : IsTotalPreorder cmp)
  (hext : opts.extSortAllowed = true)
include hcmp hext

/-- A spill keeps the invariant and leaves nothing in memory. -/
theorem Inv.spill {input : List α} {s : TopKSorter α} (hinv : s.Inv opts cmp input) :
    ∃ s', s.spill opts cmp = .ok s' ∧ s'.Inv opts cmp input ∧ s'.data = [] := by
  rw [spill_eq opts cmp hext]
  by_cases hd : s.data.isEmpty
  case pos =>
    exact ⟨s, by simp [hd], hinv, List.isEmpty_iff.mp hd⟩
  case neg =>
    simp only [hd, if_false, Bool.false_eq_true]
    refine ⟨_, rfl, ?_, rfl⟩
    have hflat : (s.iters ++ [stableSort cmp s.data]).flatten =
        s.iters.flatten ++ stableSort cmp s.data := by simp
    have hperm : (s.iters ++ [stableSort cmp s.data]).flatten ++ [] |>.Perm
        (s.iters.flatten ++ s.data) := by
      rw [List.append_nil, hflat]
      exact (stableSort_perm cmp s.data).append_left _
    have hcounted := updateCutoff_counted hcmp (s := { s with data := stableSort cmp s.data })
      (stableSort_pairwise hcmp s.data)
      ⟨hinv.counted.cutoff, hinv.counted.worst, hinv.counted.median⟩
    constructor
    · intro f hf
      rcases List.mem_append.mp hf with hf | hf
      · exact hinv.sorted f hf
      · rw [List.mem_singleton.mp hf]
        exact stableSort_pairwise hcmp s.data
    · exact hperm.subperm.trans hinv.subperm
    · exact hinv.keeps.perm hperm.symm
    · rw [hflat]
      exact ⟨hcounted.cutoff, hcounted.worst, hcounted.median⟩
    · exact Nat.zero_le _

theorem Inv.spill_if {input : List α} {s : TopKSorter α} (hinv : s.Inv opts cmp input)
    (c : Prop) [Decidable c] :
    ∃ s', (if c then s.spill opts cmp else .ok s) = .ok s' ∧ s'.Inv opts cmp input := by
  split_ifs
  · obtain ⟨s', hs', hinv', -⟩ := hinv.spill hcmp hext
    exact ⟨s', hs', hinv'⟩
  · exact ⟨s, rfl, hinv⟩

/-- `add` keeps the invariant: a contender it drops lies at or above the cutoff, or at or above
the `limit` elements in memory. -/
theorem Inv.add (hk : 0 < opts.limit) (memUsage : α → Nat) {input : List α} {s : TopKSorter α}
    (hinv : s.Inv opts cmp input) (x : α) :
    ∃ s', s.add opts cmp memUsage x = .ok s' ∧ s'.Inv opts cmp (input ++ [x]) := by
  have hsub : (s.iters.flatten ++ s.data).Subperm (input ++ [x]) :=
    hinv.subperm.trans (List.sublist_append_left _ _).subperm
  unfold TopKSorter.add
  split_ifs with hlt hcut
  · -- at or above the cutoff, which has `limit` spilled elements at or below it
    refine ⟨s, rfl, hinv.sorted, hsub, hinv.keeps.append_of_le fun t hxt => ?_, hinv.counted,
      hinv.data_length⟩
    simp only [Bool.and_eq_true, Bool.not_eq_true'] at hcut
    have hcx : cmp s.cutoff x ≤ 0 := (less_eq_false_iff hcmp).mp hcut.2
    calc opts.limit ≤ s.iters.flatten.countP (fun y => le cmp y s.cutoff) :=
          hinv.counted.cutoff hcut.1
      _ ≤ s.iters.flatten.countP (fun y => le cmp y t) :=
          hcmp.countP_le_countP (hcmp.trans _ _ _ hcx hxt) _
      _ ≤ (s.iters.flatten ++ s.data).countP (fun y => le cmp y t) := by
          rw [List.countP_append]
          exact Nat.le_add_right _ _
  · -- kept in memory
    apply Inv.spill_if hcmp hext
    refine ⟨hinv.sorted, ?_, ?_, ⟨hinv.counted.cutoff, hinv.counted.worst, hinv.counted.median⟩, ?_⟩
    · rw [← List.append_assoc]
      exact (List.subperm_append_right _).mpr hinv.subperm
    · rw [← List.append_assoc]
      exact hinv.keeps.append x
    · simp only [List.length_append, List.length_singleton]
      omega
  · -- `limit` elements in memory: the contender meets the front of the heap
    have hne : s.data ≠ [] := List.ne_nil_of_length_pos (by omega)
    split
    · rename_i hpop
      exact absurd (popHeap_eq_none_iff.mp hpop) hne
    · rename_i front rest hpop
      have hperm := popHeap_perm hpop
      have hrest := popHeap_less_le hcmp hpop
      have hlen : rest.length + 1 = opts.limit := by
        have h₁ := hperm.length_eq
        have h₂ := hinv.data_length
        simp only [List.length_cons] at h₁
        omega
      split_ifs with hx
      · -- at or above the front, which lies at or above everything in memory
        refine ⟨s, rfl, hinv.sorted, hsub, hinv.keeps.append_of_le fun t hxt => ?_, hinv.counted,
          hinv.data_length⟩
        have hfx : cmp front x ≤ 0 := (less_eq_false_iff hcmp).mp (by simpa using hx)
        have hall : s.data.countP (fun y => le cmp y t) = s.data.length := by
          rw [List.countP_eq_length]
          intro y hy
          rcases (hperm.mem_iff.mpr hy) with _ | ⟨_, hy⟩
          · simpa using hcmp.trans _ _ _ hfx hxt
          · simpa using hcmp.trans _ _ _ (hrest y hy) (hcmp.trans _ _ _ hfx hxt)
        rw [List.countP_append, hall, ← hperm.length_eq, List.length_cons, hlen]
        exact Nat.le_add_left _ _
      · -- below the front, which gives way to it
        apply Inv.spill_if hcmp hext
        have hkept : (s.iters.flatten ++ s.data).Perm (s.iters.flatten ++ front :: rest) :=
          hperm.symm.append_left _
        refine ⟨hinv.sorted, ?_, ?_,
          ⟨hinv.counted.cutoff, hinv.counted.worst, hinv.counted.median⟩, ?_⟩
        · rw [← List.append_assoc]
          apply (List.subperm_append_right _).mpr
          apply List.Subperm.trans _ (hkept.symm.subperm.trans hinv.subperm)
          exact (List.subperm_append_left _).mpr (List.sublist_cons_self front rest).subperm
        · exact hcmp.keepsLeast_replace (hinv.keeps.perm hkept) hrest (by simpa using hx) hlen
        · simp only [List.length_append, List.length_singleton]
          omega

/-- `done` returns a sorted sub-multiset of the input of at most `limit` elements that keeps
enough for its least `limit`: the elements in memory when nothing was spilled, otherwise the first
`limit` of the merged runs. -/
theorem Inv.done (hk : 0 < opts.limit) {input : List α} {s : TopKSorter α}
    (hinv : s.Inv opts cmp input) :
    ∃ it, s.done opts cmp = .ok it ∧ (it.drain cmp).Subperm input ∧
      KeepsLeast cmp opts.limit (it.drain cmp) input ∧ (it.drain cmp).length ≤ opts.limit ∧
      (it.drain cmp).Pairwise fun a b => le cmp a b = true := by
  unfold TopKSorter.done
  split_ifs with hempty
  · have hkept : s.iters.flatten ++ s.data = s.data := by simp [List.isEmpty_iff.mp hempty]
    refine ⟨_, rfl, ?_, ?_, ?_, stableSort_pairwise hcmp s.data⟩
    · exact (stableSort_perm cmp s.data).subperm.trans (hkept ▸ hinv.subperm)
    · exact (hkept ▸ hinv.keeps).perm (stableSort_perm cmp s.data).symm
    · exact (stableSort_perm cmp s.data).length_eq ▸ hinv.data_length
  · obtain ⟨s', hs', hinv', hdata⟩ := hinv.spill hcmp hext
    rw [hs']
    refine ⟨_, rfl, ?_⟩
    simp only [SortIterator.drain]
    have hkept : s'.iters.flatten ++ s'.data = s'.iters.flatten := by simp [hdata]
    obtain ⟨rest, hperm, hpw, hle, hlen⟩ :=
      MergeIterator.drain_create hcmp (runsOrdered_le hinv'.sorted) opts.limit
    simp only [ne_eq, Nat.pos_iff_ne_zero.mp hk, not_false_eq_true, if_true] at hlen
    refine ⟨?_, ?_, by rw [hlen]; exact Nat.min_le_left _ _, hpw⟩
    · exact (List.sublist_append_left _ rest).subperm.trans
        (hperm.subperm.trans (hkept ▸ hinv'.subperm))
    · have hle' : ∀ x ∈ (MergeIterator.create cmp s'.iters opts.limit).drain cmp, ∀ y ∈ rest,
          cmp x y ≤ 0 := fun x hx y hy => by simpa using hle x hx y hy
      exact (hcmp.keepsLeast_of_split hperm hle' hlen).trans (hkept ▸ hinv'.keeps)

end Run

end TopKSorter

end mongo
