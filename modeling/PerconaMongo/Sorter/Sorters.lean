-- The sorters of sorter.cpp behind `Sorter::make`. `NoLimitSorter` keeps every element and, when
-- its memory runs over, spills the elements in memory as a sorted run; `LimitOneSorter` keeps the
-- least element; `TopKSorter` keeps at most `limit` elements in memory, spills them sorted, and
-- from the runs it spilled picks a cutoff at or above which later elements are dropped. `done`
-- returns the elements in memory, sorted, when nothing was spilled, and otherwise spills them too
-- and merges the runs. A spilled run is modelled by its elements; files are not modelled.
import Mathlib.Data.List.TakeWhile
import PerconaMongo.Sorter.MergeIterator

namespace mongo

open binary_heap total_preorder

variable {α : Type}

/-- The fields of `SortOptions` the sorters read. -/
structure SortOptions where
  limit : Nat
  maxMemoryUsageBytes : Nat
  extSortAllowed : Bool
  tempDir : String

/-- The error codes the sorters raise. -/
inductive ErrorCode
  | queryExceededMemoryLimitNoDiskUseAllowed
  | location17149
  deriving DecidableEq, Repr

/-- A `uassert` failure: its code and message. -/
structure SorterError where
  code : ErrorCode
  reason : String
  deriving DecidableEq, Repr

/-- The error of a spill without external sorting; each sorter ends the message its own way. -/
def memoryLimitError (opts : SortOptions) (tail : String) : SorterError :=
  ⟨.queryExceededMemoryLimitNoDiskUseAllowed,
    "Sort exceeded memory limit of " ++ toString opts.maxMemoryUsageBytes ++
      " bytes, but did not opt in to external sorting." ++ tail⟩

/-- `STLComparator` of the sorters: "less", and "better" for `TopKSorter`. -/
def less (cmp : α → α → Int) (a b : α) : Bool := decide (cmp a b < 0)

@[simp]
theorem less_eq_true {cmp : α → α → Int} {a b : α} : less cmp a b = true ↔ cmp a b < 0 := by
  simp [less]

theorem less_eq_false_iff {cmp : α → α → Int} (hcmp : IsTotalPreorder cmp) {a b : α} :
    less cmp a b = false ↔ cmp b a ≤ 0 := by
  rw [← Bool.not_eq_true, less_eq_true, hcmp.lt_iff_not_le, not_not]

/-- `std::stable_sort` under `less`, as merge sort by "at most". -/
def stableSort (cmp : α → α → Int) (l : List α) : List α := l.mergeSort (le cmp)

theorem stableSort_perm (cmp : α → α → Int) (l : List α) : (stableSort cmp l).Perm l :=
  List.mergeSort_perm l _

theorem stableSort_pairwise {cmp : α → α → Int} (hcmp : IsTotalPreorder cmp) (l : List α) :
    (stableSort cmp l).Pairwise fun a b => le cmp a b = true :=
  List.pairwise_mergeSort hcmp.le_trans' hcmp.le_total' l

/-- `std::upper_bound` on a sorted range: the number of elements before the first one above
`value`. -/
def upperBound (cmp : α → α → Int) (l : List α) (value : α) : Nat :=
  (l.takeWhile fun e => !less cmp value e).length

/-- The elements `upper_bound` passes over lie at or below the value. -/
theorem upperBound_le_countP {cmp : α → α → Int} (hcmp : IsTotalPreorder cmp) (l : List α)
    (value : α) : upperBound cmp l value ≤ l.countP fun e => le cmp e value := by
  unfold upperBound
  have hle : ∀ e ∈ l.takeWhile (fun e => !less cmp value e), le cmp e value = true := by
    intro e he
    have hnot := List.mem_takeWhile_imp he
    rw [Bool.not_eq_true'] at hnot
    simpa using (less_eq_false_iff hcmp).mp hnot
  rw [← List.countP_eq_length.mpr hle]
  exact (List.takeWhile_sublist _).countP_le

/-- The front of the max-heap of `TopKSorter` lies at or above every other element. -/
theorem popHeap_less_le {cmp : α → α → Int} (hcmp : IsTotalPreorder cmp) {l : List α} {m : α}
    {r : List α} (h : popHeap (less cmp) l = some (m, r)) : ∀ y ∈ r, cmp y m ≤ 0 := by
  have hasymm : ∀ a b, less cmp a b = true → less cmp b a = false := by
    intro a b hab
    rw [less_eq_false_iff hcmp]
    exact Int.le_of_lt ((less_eq_true).mp hab)
  have htrans : ∀ a b c, less cmp a b = false → less cmp b c = false → less cmp a c = false := by
    intro a b c hab hbc
    rw [less_eq_false_iff hcmp] at *
    exact hcmp.trans _ _ _ hbc hab
  intro y hy
  exact (less_eq_false_iff hcmp).mp (popHeap_greatest hasymm htrans h y hy)

/-- What `done` returns: an `InMemIterator` over a list, or a `MergeIterator`. -/
inductive SortIterator (α : Type)
  | inMem (data : List α)
  | merge (it : MergeIterator α)

/-- The iterator read to its end. -/
def SortIterator.drain (cmp : α → α → Int) : SortIterator α → List α
  | .inMem data => data
  | .merge it => it.drain cmp

/-! ## `NoLimitSorter` -/

/-- The state of a `NoLimitSorter`: the spilled runs, the memory in use and the elements not yet
spilled. -/
structure NoLimitSorter (α : Type) where
  iters : List (List α)
  memUsed : Nat
  data : List α

namespace NoLimitSorter

variable (opts : SortOptions) (cmp : α → α → Int) (memUsage : α → Nat)

def init : NoLimitSorter α := ⟨[], 0, []⟩

/-- `spill`: the elements in memory, sorted, become a run. -/
def spill (s : NoLimitSorter α) : Except SorterError (NoLimitSorter α) :=
  if s.data.isEmpty then .ok s
  else if !opts.extSortAllowed then .error (memoryLimitError opts "")
  else .ok ⟨s.iters ++ [stableSort cmp s.data], 0, []⟩

theorem spill_eq (hext : opts.extSortAllowed = true) (s : NoLimitSorter α) :
    spill opts cmp s =
      .ok (if s.data.isEmpty then s else ⟨s.iters ++ [stableSort cmp s.data], 0, []⟩) := by
  unfold spill
  split_ifs <;> simp_all

def add (s : NoLimitSorter α) (x : α) : Except SorterError (NoLimitSorter α) :=
  let s := { s with data := s.data ++ [x], memUsed := s.memUsed + memUsage x }
  if s.memUsed > opts.maxMemoryUsageBytes then spill opts cmp s else .ok s

def done (s : NoLimitSorter α) : Except SorterError (SortIterator α) :=
  if s.iters.isEmpty then .ok (.inMem (stableSort cmp s.data))
  else do
    let s ← spill opts cmp s
    .ok (.merge (MergeIterator.create cmp s.iters opts.limit))

end NoLimitSorter

/-! ## `LimitOneSorter` -/

/-- The state of a `LimitOneSorter`: the best element so far, if any. -/
structure LimitOneSorter (α : Type) where
  best : Option α

namespace LimitOneSorter

variable (cmp : α → α → Int)

def init : LimitOneSorter α := ⟨none⟩

/-- `add`: a contender replaces the best only when it lies strictly below it. -/
def add (s : LimitOneSorter α) (x : α) : LimitOneSorter α :=
  match s.best with
  | some b => if cmp b x ≤ 0 then s else ⟨some x⟩
  | none => ⟨some x⟩

def done (s : LimitOneSorter α) : SortIterator α := .inMem s.best.toList

end LimitOneSorter

/-! ## `TopKSorter` -/

/-- The state of a `TopKSorter`: the spilled runs, the memory in use, the elements in memory
(a max-heap once there are `limit` of them), and the cutoff with the two candidates for it and
their counters. -/
structure TopKSorter (α : Type) where
  iters : List (List α)
  memUsed : Nat
  data : List α
  haveCutoff : Bool
  cutoff : α
  worstSeen : α
  worstCount : Nat
  lastMedian : α
  medianCount : Nat

namespace TopKSorter

variable [Inhabited α] (opts : SortOptions) (cmp : α → α → Int) (memUsage : α → Nat)

def init : TopKSorter α := ⟨[], 0, [], false, default, default, 0, default, 0⟩

/-- A candidate below the cutoff, or the first, becomes the cutoff: the step `updateCutoff` takes
for `_worstSeen` and for `_lastMedian`. -/
def promote (s : TopKSorter α) (candidate : α) : TopKSorter α :=
  if !s.haveCutoff || less cmp candidate s.cutoff then
    { s with cutoff := candidate, haveCutoff := true }
  else s

/-- `updateCutoff`, on sorted data. -/
def updateCutoff (s : TopKSorter α) : TopKSorter α :=
  let back := s.data.getLast?.getD default
  let worstSeen := if s.worstCount = 0 || less cmp s.worstSeen back then back else s.worstSeen
  let lastMedian :=
    if s.medianCount = 0 then s.data.getD (s.data.length / 2) default else s.lastMedian
  let s := { s with
    worstSeen := worstSeen
    lastMedian := lastMedian
    worstCount := s.worstCount + s.data.length
    medianCount := s.medianCount + upperBound cmp s.data lastMedian }
  let s := if opts.limit ≤ s.worstCount then { (promote cmp s s.worstSeen) with worstCount := 0 }
    else s
  if opts.limit ≤ s.medianCount then { (promote cmp s s.lastMedian) with medianCount := 0 } else s

/-- `spill`: the elements in memory are sorted, the cutoff updated, and they become a run. -/
def spill (s : TopKSorter α) : Except SorterError (TopKSorter α) :=
  if s.data.isEmpty then .ok s
  else if !opts.extSortAllowed then
    .error (memoryLimitError opts " Aborting operation. Pass allowDiskUse:true to opt in.")
  else
    let s := updateCutoff opts cmp { s with data := stableSort cmp s.data }
    .ok { s with iters := s.iters ++ [s.data], data := [], memUsed := 0 }

theorem updateCutoff_iters (s : TopKSorter α) : (updateCutoff opts cmp s).iters = s.iters := by
  simp only [updateCutoff, promote]
  split_ifs <;> rfl

theorem updateCutoff_data (s : TopKSorter α) : (updateCutoff opts cmp s).data = s.data := by
  simp only [updateCutoff, promote]
  split_ifs <;> rfl

theorem spill_eq (hext : opts.extSortAllowed = true) (s : TopKSorter α) :
    spill opts cmp s =
      .ok (if s.data.isEmpty then s else
        { updateCutoff opts cmp { s with data := stableSort cmp s.data } with
          iters := s.iters ++ [stableSort cmp s.data], data := [], memUsed := 0 }) := by
  unfold spill
  split_ifs <;> simp_all [updateCutoff_iters, updateCutoff_data]

/-- `add`: below `limit` elements a contender is kept unless it lies at or above the cutoff; at
`limit` elements it replaces the front of the heap when it lies below it. -/
def add (s : TopKSorter α) (x : α) : Except SorterError (TopKSorter α) :=
  if s.data.length < opts.limit then
    if s.haveCutoff && !less cmp x s.cutoff then .ok s
    else
      let s := { s with data := s.data ++ [x], memUsed := s.memUsed + memUsage x }
      if s.memUsed > opts.maxMemoryUsageBytes then spill opts cmp s else .ok s
  else
    match popHeap (less cmp) s.data with
    | none => .ok s
    | some (front, rest) =>
      if !less cmp x front then .ok s
      else
        let s := { s with data := rest ++ [x], memUsed := s.memUsed + memUsage x - memUsage front }
        if s.memUsed > opts.maxMemoryUsageBytes then spill opts cmp s else .ok s

def done (s : TopKSorter α) : Except SorterError (SortIterator α) :=
  if s.iters.isEmpty then .ok (.inMem (stableSort cmp s.data))
  else do
    let s ← spill opts cmp s
    .ok (.merge (MergeIterator.create cmp s.iters opts.limit))

end TopKSorter

/-! ## `Sorter::make` -/

/-- The sorter `Sorter::make` returns. -/
inductive Sorter (α : Type)
  | noLimit (s : NoLimitSorter α)
  | limitOne (s : LimitOneSorter α)
  | topK (s : TopKSorter α)

namespace Sorter

variable [Inhabited α] (opts : SortOptions) (cmp : α → α → Int) (memUsage : α → Nat)

def make : Except SorterError (Sorter α) :=
  if opts.extSortAllowed && opts.tempDir.isEmpty then
    .error ⟨.location17149, "Attempting to use external sort without setting SortOptions::tempDir"⟩
  else
    match opts.limit with
    | 0 => .ok (.noLimit NoLimitSorter.init)
    | 1 => .ok (.limitOne LimitOneSorter.init)
    | _ => .ok (.topK TopKSorter.init)

def add : Sorter α → α → Except SorterError (Sorter α)
  | .noLimit s, x => .noLimit <$> s.add opts cmp memUsage x
  | .limitOne s, x => .ok (.limitOne (s.add cmp x))
  | .topK s, x => .topK <$> s.add opts cmp memUsage x

def done : Sorter α → Except SorterError (SortIterator α)
  | .noLimit s => s.done opts cmp
  | .limitOne s => .ok (s.done)
  | .topK s => s.done opts cmp

end Sorter

/-- A sort from start to end: `Sorter::make`, `add` for each element of the input, `done`, and
the iterator it returns read to its end. -/
def sortAll [Inhabited α] (opts : SortOptions) (cmp : α → α → Int) (memUsage : α → Nat)
    (input : List α) : Except SorterError (List α) := do
  let s ← Sorter.make opts
  let s ← input.foldlM (Sorter.add opts cmp memUsage) s
  let it ← s.done opts cmp
  .ok (it.drain cmp)

end mongo
