-- The merge of stably sorted chunks is the stable sort of their concatenation. Each element is
-- decorated with its position in the concatenation: the decorated elements have one sorted order
-- under `zipIdxLE`, ties in the comparator broken by position, and the merge, which breaks ties by
-- run number and so by position, returns that order. The merge looks at elements only through the
-- comparator, so dropping the decoration gives the merge of the undecorated runs.
import PerconaMongo.Sorter.Sorters

namespace mongo

open total_preorder

variable {α : Type}

/-- The chunks, each element with its position in their concatenation, counted from `n`. -/
def decorate : List (List α) → Nat → List (List (α × Nat))
  | [], _ => []
  | c :: cs, n => c.zipIdx n :: decorate cs (n + c.length)

theorem le_snd_of_mem_decorate {chunks : List (List α)} {n j : Nat} {g : List (α × Nat)}
    (hg : (decorate chunks n)[j]? = some g) {y : α × Nat} (hy : y ∈ g) : n ≤ y.2 := by
  induction chunks generalizing n j with
  | nil => simp [decorate] at hg
  | cons c cs ih =>
    cases j with
    | zero =>
      simp only [decorate, List.getElem?_cons_zero, Option.some.injEq] at hg
      subst hg
      exact (List.mem_zipIdx hy).1
    | succ j =>
      simp only [decorate, List.getElem?_cons_succ] at hg
      have := ih hg
      omega

/-- An element of an earlier chunk has an earlier position. -/
theorem snd_lt_of_mem_decorate {chunks : List (List α)} {n i j : Nat} {f g : List (α × Nat)}
    (hf : (decorate chunks n)[i]? = some f) (hg : (decorate chunks n)[j]? = some g) (hij : i < j)
    {x y : α × Nat} (hx : x ∈ f) (hy : y ∈ g) : x.2 < y.2 := by
  induction chunks generalizing n i j with
  | nil => simp [decorate] at hf
  | cons c cs ih =>
    cases j with
    | zero => omega
    | succ j =>
      simp only [decorate, List.getElem?_cons_succ] at hg
      cases i with
      | zero =>
        simp only [decorate, List.getElem?_cons_zero, Option.some.injEq] at hf
        subst hf
        have hx' := (List.mem_zipIdx hx).2.1
        have hy' := le_snd_of_mem_decorate hg hy
        omega
      | succ i =>
        simp only [decorate, List.getElem?_cons_succ] at hf
        exact ih hf hg (by omega)

/-- Each decorated chunk sorted by `zipIdxLE` and undecorated is the chunk's stable sort. -/
theorem map_fst_sorted_decorate (cmp : α → α → Int) (chunks : List (List α)) (n : Nat) :
    ((decorate chunks n).map fun d => d.mergeSort (List.zipIdxLE (le cmp))).map
      (List.map Prod.fst) = chunks.map (stableSort cmp) := by
  induction chunks generalizing n with
  | nil => rfl
  | cons c cs ih =>
    simp only [decorate, List.map_cons, List.map_map] at ih ⊢
    rw [map_fst_mergeSort_zipIdx, ih (n + c.length)]
    rfl

theorem perm_flatten_sorted_decorate (cmp : α → α → Int) (chunks : List (List α)) (n : Nat) :
    ((decorate chunks n).map fun d => d.mergeSort (List.zipIdxLE (le cmp))).flatten.Perm
      (chunks.flatten.zipIdx n) := by
  induction chunks generalizing n with
  | nil => rfl
  | cons c cs ih =>
    simp only [decorate, List.map_cons, List.flatten_cons, List.zipIdx_append]
    exact (List.mergeSort_perm _ _).append (ih (n + c.length))

section Stable

variable {cmp : α → α → Int} (hcmp : IsTotalPreorder cmp)
include hcmp

/-- The decorated chunks, each sorted by `zipIdxLE`, are runs the merge orders by `zipIdxLE`. -/
theorem runsOrdered_decorate (chunks : List (List α)) :
    RunsOrdered (fun a b : α × Nat => cmp a.1 b.1) (fun a b => List.zipIdxLE (le cmp) a b = true)
      ((decorate chunks 0).map fun d => d.mergeSort (List.zipIdxLE (le cmp))) := by
  constructor
  · intro i f hf
    rw [List.getElem?_map, Option.map_eq_some_iff] at hf
    obtain ⟨d, -, rfl⟩ := hf
    have hsorted := List.pairwise_mergeSort (List.zipIdxLE_trans hcmp.le_trans')
      (List.zipIdxLE_total hcmp.le_total') d
    refine ⟨hsorted.imp fun {a b} hab => ?_, hsorted⟩
    simp only [List.zipIdxLE] at hab
    split_ifs at hab with h₁
    · simpa using h₁
    · simpa using h₁
  · intro i j f g hf hg hij x hx y hy hxy
    rw [List.getElem?_map, Option.map_eq_some_iff] at hf hg
    obtain ⟨df, hdf, rfl⟩ := hf
    obtain ⟨dg, hdg, rfl⟩ := hg
    have hxy' : le cmp x.1 y.1 = true := by
      rcases hxy with hlt | ⟨heq, -⟩
      · simpa using Int.le_of_lt hlt
      · simpa using Int.le_of_eq heq
    simp only [List.zipIdxLE, hxy', if_true]
    split_ifs with hyx
    · -- the elements tie, and the earlier chunk comes first
      rcases hxy with hlt | ⟨-, hlt⟩
      · exact absurd (by simpa using hyx) (hcmp.lt_iff_not_le.mp hlt)
      · exact decide_eq_true (Nat.le_of_lt (snd_lt_of_mem_decorate hdf hdg hlt
          (List.mem_mergeSort.mp hx) (List.mem_mergeSort.mp hy)))
    · rfl

/-- The merge with no limit of the stable sorts of chunks is the stable sort of their
concatenation, when it has fewer elements than the merge's count. -/
theorem drain_create_stableSort (chunks : List (List α))
    (hlen : chunks.flatten.length ≤ unlimited) :
    (MergeIterator.create cmp (chunks.map (stableSort cmp)) 0).drain cmp =
      stableSort cmp chunks.flatten := by
  rw [← map_fst_sorted_decorate cmp chunks 0, MergeIterator.create_map,
    MergeIterator.drain_map]
  obtain ⟨rest, hperm, hpw, -, hlen'⟩ :=
    MergeIterator.drain_create (hcmp.comap Prod.fst) (runsOrdered_decorate hcmp chunks) 0
  set out := (MergeIterator.create (fun a b : α × Nat => cmp a.1 b.1)
    ((decorate chunks 0).map fun d => d.mergeSort (List.zipIdxLE (le cmp))) 0).drain
      (fun a b : α × Nat => cmp a.1 b.1)
  have hflat := perm_flatten_sorted_decorate cmp chunks 0
  -- with no limit the merge returns every element, so it is a permutation of the positions
  have hrest : rest = [] := by
    have hl := (hperm.trans hflat).length_eq
    simp only [List.length_append, List.length_zipIdx] at hl hlen'
    rw [hflat.length_eq, List.length_zipIdx] at hlen'
    simp only [ne_eq, not_true_eq_false, if_false] at hlen'
    exact List.eq_nil_of_length_eq_zero (by omega)
  subst hrest
  rw [List.append_nil] at hperm
  have hout : out = chunks.flatten.zipIdx.mergeSort (List.zipIdxLE (le cmp)) := by
    apply eq_of_perm_of_zipIdxLE ((hperm.trans hflat).trans (List.mergeSort_perm _ _).symm)
    · rw [((hperm.trans hflat).map Prod.snd).nodup_iff, List.zipIdx_map_snd]
      exact List.nodup_range' _ (by decide)
    · exact hpw
    · exact List.pairwise_mergeSort (List.zipIdxLE_trans hcmp.le_trans')
        (List.zipIdxLE_total hcmp.le_total') _
  rw [hout, map_fst_mergeSort_zipIdx]
  rfl

end Stable

end mongo
