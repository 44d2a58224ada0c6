-- The sorter returns the sorted input wherever it spills. Each sorter keeps an invariant from
-- `make` through every `add`: `NoLimitSorter` holds the stable sorts of consecutive pieces of the
-- input and the rest in memory, `LimitOneSorter` a least element, and `TopKSorter` what its own
-- module describes. From the invariant, `done` returns the stable sort of the input, or a sorted
-- sub-multiset of it that agrees with the sorted input, rank by rank, up to the comparator.
import PerconaMongo.Sorter.StableMerge
import PerconaMongo.Sorter.TopK
import Mathlib

namespace mongo

open total_preorder

variable {α : Type}

/-- What a sort of `input` with limit `k` is to return: `min k n` elements (all `n` when `k = 0`)
of the input, in order, each equivalent to the element of the same rank of the sorted input, and
with no limit the stable sort itself. -/
structure SortOutput (cmp : α → α → Int) (k : Nat) (input out : List α) : Prop where
  length : out.length = if k = 0 then input.length else min k input.length
  subperm : out.Subperm input
  sorted : out.Pairwise fun a b => cmp a b ≤ 0
  rank : ∀ i (h₁ : i < out.length) (h₂ : i < (stableSort cmp input).length),
    cmp out[i] (stableSort cmp input)[i] = 0
  stable : k = 0 → out = stableSort cmp input

section Output

variable {cmp : α → α → Int} (hcmp : IsTotalPreorder cmp)
include hcmp

theorem sortOutput_stableSort (input : List α) :
    SortOutput cmp 0 input (stableSort cmp input) := by
  refine ⟨(stableSort_perm cmp input).length_eq, (stableSort_perm cmp input).subperm, ?_,
    fun i _ _ => hcmp.refl _, fun _ => rfl⟩
  exact (stableSort_pairwise hcmp input).imp fun h => by simpa using h

/-- A sorted sub-multiset of at most `k` elements that keeps enough for the least `k` is what a
sort with limit `k` returns. -/
theorem sortOutput_of_keepsLeast {k : Nat} (hk : 0 < k) {input out : List α}
    (hsub : out.Subperm input) (hkeep : KeepsLeast cmp k out input) (hlen : out.length ≤ k)
    (hsorted : out.Pairwise fun a b => le cmp a b = true) : SortOutput cmp k input out := by
  obtain ⟨hlength, hrank⟩ := hcmp.output_of_keepsLeast hsub hkeep hlen hsorted
    (stableSort_perm cmp input) (stableSort_pairwise hcmp input)
  refine ⟨?_, hsub, hsorted.imp fun h => by simpa using h, hrank, fun h => absurd h hk.ne'⟩
  rw [if_neg hk.ne']
  exact hlength

end Output

/-! ## `NoLimitSorter` -/

namespace NoLimitSorter

/-- What holds of a `NoLimitSorter` that was given `input`: its runs are the stable sorts of
consecutive pieces of the input, and the elements in memory the rest. -/
def Inv (cmp : α → α → Int) (input : List α) (s : NoLimitSorter α) : Prop :=
  ∃ chunks : List (List α), s.iters = chunks.map (stableSort cmp) ∧ chunks.flatten ++ s.data = input

theorem init_inv (cmp : α → α → Int) : (init : NoLimitSorter α).Inv cmp [] := ⟨[], rfl, rfl⟩

variable {opts : SortOptions} {cmp : α → α → Int} (hext : opts.extSortAllowed = true)
include hext

theorem Inv.spill {input : List α} {s : NoLimitSorter α} (hinv : s.Inv cmp input) :
    ∃ s', s.spill opts cmp = .ok s' ∧ s'.Inv cmp input ∧ s'.data = [] := by
  obtain ⟨chunks, hiters, hinput⟩ := hinv
  rw [spill_eq opts cmp hext]
  by_cases hd : s.data.isEmpty
  case pos =>
    exact ⟨s, by simp [hd], ⟨chunks, hiters, hinput⟩, List.isEmpty_iff.mp hd⟩
  case neg =>
    simp only [hd, if_false, Bool.false_eq_true]
    exact ⟨_, rfl, ⟨chunks ++ [s.data], by simp [hiters], by simp [← hinput]⟩, rfl⟩

theorem Inv.add (memUsage : α → Nat) {input : List α} {s : NoLimitSorter α}
    (hinv : s.Inv cmp input) (x : α) :
    ∃ s', s.add opts cmp memUsage x = .ok s' ∧ s'.Inv cmp (input ++ [x]) := by
  obtain ⟨chunks, hiters, hinput⟩ := hinv
  have hinv' : Inv cmp (input ++ [x])
      { s with data := s.data ++ [x], memUsed := s.memUsed + memUsage x } :=
    ⟨chunks, hiters, by simp [← hinput]⟩
  unfold NoLimitSorter.add
  dsimp only
  split_ifs
  · obtain ⟨s', hs', hinv'', -⟩ := hinv'.spill hext
    exact ⟨s', hs', hinv''⟩
  · exact ⟨_, rfl, hinv'⟩

/-- With no limit, `done` returns the stable sort of the input: sorted in memory when nothing was
spilled, and otherwise merged from the runs. -/
theorem Inv.done (hcmp : IsTotalPreorder cmp) (hlimit : opts.limit = 0) {input : List α}
    (hlen : input.length ≤ unlimited) {s : NoLimitSorter α} (hinv : s.Inv cmp input) :
    ∃ it, s.done opts cmp = .ok it ∧ it.drain cmp = stableSort cmp input := by
  unfold NoLimitSorter.done
  split_ifs with hempty
  · obtain ⟨chunks, hiters, hinput⟩ := hinv
    have hchunks : chunks = [] := by
      simpa [hiters] using List.isEmpty_iff.mp hempty
    subst hchunks
    refine ⟨_, rfl, ?_⟩
    simp only [List.flatten_nil, List.nil_append] at hinput
    rw [← hinput]
    rfl
  · obtain ⟨s', hs', ⟨chunks, hiters, hinput⟩, hdata⟩ := hinv.spill hext
    rw [hs']
    refine ⟨_, rfl, ?_⟩
    rw [hdata, List.append_nil] at hinput
    subst hinput
    simp only [SortIterator.drain, hiters, hlimit]
    exact drain_create_stableSort hcmp chunks hlen

end NoLimitSorter

/-! ## `LimitOneSorter` -/

namespace LimitOneSorter

/-- What holds of a `LimitOneSorter` that was given `input`: it has a best element exactly when
the input is not empty, and then one of the input at or below all of it. -/
def Inv (cmp : α → α → Int) (input : List α) (s : LimitOneSorter α) : Prop :=
  match s.best with
  | none => input = []
  | some b => b ∈ input ∧ ∀ y ∈ input, cmp b y ≤ 0

theorem init_inv (cmp : α → α → Int) : (init : LimitOneSorter α).Inv cmp [] := rfl

variable {cmp : α → α → Int} (hcmp : IsTotalPreorder cmp)
include hcmp

theorem Inv.add {input : List α} {s : LimitOneSorter α} (hinv : s.Inv cmp input) (x : α) :
    (s.add cmp x).Inv cmp (input ++ [x]) := by
  unfold LimitOneSorter.add
  cases hb : s.best with
  | none =>
    simp only [Inv, hb] at hinv
    subst hinv
    exact ⟨by simp, by simp [hcmp.refl x]⟩
  | some b =>
    simp only [Inv, hb] at hinv
    obtain ⟨hbin, hbmin⟩ := hinv
    dsimp only
    split_ifs with hbx
    · -- the best stays: the contender is not below it
      simp only [Inv, hb]
      refine ⟨List.mem_append_left _ hbin, fun y hy => ?_⟩
      rcases List.mem_append.mp hy with hy | hy
      · exact hbmin y hy
      · rw [List.mem_singleton.mp hy]
        exact hbx
    · -- the contender lies below the best, so below the whole input
      have hxb : cmp x b ≤ 0 := Int.le_of_lt (hcmp.lt_iff_not_le.mpr hbx)
      refine ⟨List.mem_append_right _ (List.mem_singleton_self x), fun y hy => ?_⟩
      rcases List.mem_append.mp hy with hy | hy
      · exact hcmp.trans _ _ _ hxb (hbmin y hy)
      · rw [List.mem_singleton.mp hy]
        exact Int.le_of_eq (hcmp.refl x)

/-- `done` returns the best element, which keeps enough for the least one of the input. -/
theorem Inv.done {input : List α} {s : LimitOneSorter α} (hinv : s.Inv cmp input) :
    (s.done.drain cmp).Subperm input ∧ KeepsLeast cmp 1 (s.done.drain cmp) input ∧
      (s.done.drain cmp).length ≤ 1 ∧
      (s.done.drain cmp).Pairwise fun a b => le cmp a b = true := by
  unfold LimitOneSorter.done
  cases hb : s.best with
  | none =>
    simp only [Inv, hb] at hinv
    subst hinv
    exact ⟨List.Subperm.refl _, keepsLeast_refl _ _, by simp [SortIterator.drain],
      List.Pairwise.nil⟩
  | some b =>
    simp only [Inv, hb] at hinv
    obtain ⟨hbin, hbmin⟩ := hinv
    refine ⟨List.singleton_subperm_iff.mpr hbin, fun t => ?_, by simp [SortIterator.drain],
      List.pairwise_singleton _ _⟩
    by_cases hbt : cmp b t ≤ 0
    case pos => exact .inr (by simp [SortIterator.drain, hbt])
    case neg =>
      -- nothing of the input lies below `t`, as the best would
      have hnone : input.countP (fun y => le cmp y t) = 0 :=
        List.countP_eq_zero.mpr fun y hy hyt =>
          hbt (hcmp.trans _ _ _ (hbmin y hy) (by simpa using hyt))
      exact .inl (by simp [SortIterator.drain, hbt, hnone])

end LimitOneSorter

/-! ## `Sorter::make` and the whole sort -/

namespace Sorter

variable [Inhabited α]

/-- What holds of the sorter `make` returned, once it was given `input`. -/
def Inv (opts : SortOptions) (cmp : α → α → Int) (input : List α) : Sorter α → Prop
  | .noLimit s => opts.limit = 0 ∧ s.Inv cmp input
  | .limitOne s => opts.limit = 1 ∧ s.Inv cmp input
  | .topK s => 1 < opts.limit ∧ s.Inv opts cmp input

variable {opts : SortOptions}

theorem make_inv (cmp : α → α → Int) (htemp : opts.tempDir ≠ "") :
    ∃ s, make opts = .ok s ∧ s.Inv opts cmp [] := by
  unfold make
  have hdir : opts.tempDir.isEmpty = false := by simpa using htemp
  simp only [hdir, Bool.and_false, Bool.false_eq_true, if_false]
  rcases hk : opts.limit with _ | _ | k
  · exact ⟨_, rfl, hk, NoLimitSorter.init_inv cmp⟩
  · exact ⟨_, rfl, hk, LimitOneSorter.init_inv cmp⟩
  · exact ⟨_, rfl, by omega, TopKSorter.init_inv opts cmp⟩

variable {cmp : α → α → Int} (hcmp : IsTotalPreorder cmp) (hext : opts.extSortAllowed = true)
include hcmp hext

theorem Inv.add (memUsage : α → Nat) {input : List α} {s : Sorter α}
    (hinv : s.Inv opts cmp input) (x : α) :
    ∃ s', s.add opts cmp memUsage x = .ok s' ∧ s'.Inv opts cmp (input ++ [x]) := by
  cases s with
  | noLimit s =>
    obtain ⟨hk, hinv⟩ := hinv
    obtain ⟨s', hs', hinv'⟩ := hinv.add hext memUsage x
    exact ⟨.noLimit s', by simp [Sorter.add, hs'], hk, hinv'⟩
  | limitOne s =>
    obtain ⟨hk, hinv⟩ := hinv
    exact ⟨.limitOne (s.add cmp x), rfl, hk, hinv.add hcmp x⟩
  | topK s =>
    obtain ⟨hk, hinv⟩ := hinv
    obtain ⟨s', hs', hinv'⟩ := hinv.add hcmp hext (by omega) memUsage x
    exact ⟨.topK s', by simp [Sorter.add, hs'], hk, hinv'⟩

/-- Each `add` keeps the invariant, so the sorter keeps it over the whole input. -/
theorem Inv.foldlM (memUsage : α → Nat) {input : List α} {s : Sorter α}
    (hinv : s.Inv opts cmp input) (rest : List α) :
    ∃ s', rest.foldlM (Sorter.add opts cmp memUsage) s = .ok s' ∧
      s'.Inv opts cmp (input ++ rest) := by
  induction rest generalizing input s with
  | nil => exact ⟨s, rfl, by simpa using hinv⟩
  | cons x xs ih =>
    obtain ⟨s₁, hs₁, hinv₁⟩ := hinv.add hcmp hext memUsage x
    obtain ⟨s', hs', hinv'⟩ := ih hinv₁
    refine ⟨s', ?_, by simpa using hinv'⟩
    rw [List.foldlM_cons, hs₁]
    exact hs'

theorem Inv.done {input : List α} (hlen : input.length ≤ unlimited) {s : Sorter α}
    (hinv : s.Inv opts cmp input) :
    ∃ it, s.done opts cmp = .ok it ∧ SortOutput cmp opts.limit input (it.drain cmp) := by
  cases s with
  | noLimit s =>
    obtain ⟨hk, hinv⟩ := hinv
    obtain ⟨it, hit, hdrain⟩ := hinv.done hext hcmp hk hlen
    refine ⟨it, hit, ?_⟩
    rw [hdrain, hk]
    exact sortOutput_stableSort hcmp input
  | limitOne s =>
    obtain ⟨hk, hinv⟩ := hinv
    obtain ⟨hsub, hkeep, hlen', hsorted⟩ := hinv.done hcmp
    refine ⟨_, rfl, ?_⟩
    rw [hk]
    exact sortOutput_of_keepsLeast hcmp Nat.one_pos hsub hkeep hlen' hsorted
  | topK s =>
    obtain ⟨hk, hinv⟩ := hinv
    obtain ⟨it, hit, hsub, hkeep, hlen', hsorted⟩ := hinv.done hcmp hext (by omega)
    exact ⟨it, hit, sortOutput_of_keepsLeast hcmp (by omega) hsub hkeep hlen' hsorted⟩

end Sorter

theorem sortAll_sortOutput [Inhabited α] {cmp : α → α → Int} (hcmp : IsTotalPreorder cmp)
    (opts : SortOptions) (memUsage : α → Nat) (input : List α)
    (hext : opts.extSortAllowed = true) (htemp : opts.tempDir ≠ "")
    (hlen : input.length < 2 ^ 64) :
    ∃ out, sortAll opts cmp memUsage input = .ok out ∧ SortOutput cmp opts.limit input out := by
  obtain ⟨s₀, hs₀, hinv₀⟩ := Sorter.make_inv cmp htemp
  obtain ⟨s, hs, hinv⟩ := Sorter.Inv.foldlM hcmp hext memUsage hinv₀ input
  rw [List.nil_append] at hinv
  obtain ⟨it, hit, hout⟩ := hinv.done hcmp hext (by unfold unlimited; omega)
  refine ⟨it.drain cmp, ?_, hout⟩
  simp [sortAll, hs₀, hs, hit, bind, Except.bind]

/-- Keys compared by their first component; the second records the order of insertion. -/
def byKey (a b : Nat × Nat) : Int := (a.1 : Int) - b.1

theorem byKey_isTotalPreorder : IsTotalPreorder byKey :=
  ⟨fun a b => by simp only [byKey]; omega, fun a b c => by simp only [byKey]; omega⟩

/-- A top-two sort with a one-byte memory budget: at one byte an element, it spills each time it
holds two elements. -/
def topTwoOptions : SortOptions := ⟨2, 1, true, "tmp"⟩

theorem sortAll_sortOutput_topTwo :
    IsTotalPreorder byKey ∧ topTwoOptions.extSortAllowed = true ∧ topTwoOptions.tempDir ≠ "" ∧
      [(3, 0), (1, 1), (1, 2)].length < 2 ^ 64 ∧
      ∃ out, sortAll topTwoOptions byKey (fun _ => 1) [(3, 0), (1, 1), (1, 2)] = .ok out ∧
        SortOutput byKey 2 [(3, 0), (1, 1), (1, 2)] out :=
  ⟨byKey_isTotalPreorder, rfl, by decide, by decide,
    sortAll_sortOutput byKey_isTotalPreorder topTwoOptions (fun _ => 1) _ rfl (by decide)
      (by decide)⟩

end mongo
