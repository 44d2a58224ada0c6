-- The merge of sorted runs in sorter.cpp. `MergeIterator` keeps a `Stream` for each nonempty
-- run: the current stream apart, the others in a heap that keeps the least stream in front under
-- `STLComparator`, the current elements compared first and file numbers on a tie. Each `next`
-- returns the least current element of all streams. The heap is modelled by its streams:
-- `pop_heap` takes the least stream under the heap's order, `push_heap` adds one, and as file
-- numbers are distinct the least stream is the same whichever way the heap is laid out.
import PerconaMongo.Lib.Heap
import PerconaMongo.Lib.TotalPreorder
import Mathlib

namespace mongo

open binary_heap total_preorder

variable {α : Type}

/-- A `Stream` of the merge: its file number, its current element and the rest of its run. -/
structure Stream (α : Type) where
  fileNum : Nat
  current : α
  rest : List α

namespace Stream

/-- The elements not yet returned, the current one first. -/
def elems (s : Stream α) : List α := s.current :: s.rest

/-- The stream over the run numbered `i`, none when the run is empty. -/
def ofRun : List α × Nat → Option (Stream α)
  | ([], _) => none
  | (x :: xs, i) => some ⟨i, x, xs⟩

/-- `Stream::advance`: the next element of the run becomes current, if there is one. -/
def advance (s : Stream α) : Option (Stream α) :=
  match s.rest with
  | [] => none
  | y :: ys => some ⟨s.fileNum, y, ys⟩

end Stream

/-- `STLComparator` of the merge, "greater" so that the heap is a min-heap: the stream with the
greater current element, or on a tie the one with the higher file number. -/
def greater (cmp : α → α → Int) (l r : Stream α) : Bool :=
  let ret := cmp l.current r.current
  if ret ≠ 0 then decide (0 < ret) else decide (r.fileNum < l.fileNum)

/-- `std::numeric_limits<unsigned long long>::max()`, the count of a merge without a limit. -/
def unlimited : Nat := 2 ^ 64 - 1

/-- The state of a `MergeIterator`: how many elements it may still return, whether the first has
been returned, the current stream (null when there is none) and the heap. -/
structure MergeIterator (α : Type) where
  remaining : Nat
  first : Bool
  current : Option (Stream α)
  heap : List (Stream α)

namespace MergeIterator

variable (cmp : α → α → Int)

/-- The constructor: a stream for each nonempty run, numbered by its place among the runs; the
least is taken out of the heap as the current stream. -/
def create (iters : List (List α)) (limit : Nat) : MergeIterator α :=
  match popHeap (greater cmp) (iters.zipIdx.filterMap Stream.ofRun) with
  | none => ⟨0, true, none, []⟩
  | some (c, h) => ⟨if limit ≠ 0 then limit else unlimited, true, some c, h⟩

/-- `more`. -/
def more (it : MergeIterator α) : Bool :=
  decide (0 < it.remaining) &&
    (it.first || !it.heap.isEmpty ||
      match it.current with
      | some c => !c.rest.isEmpty
      | none => false)

/-- `next`: the current element on the first call; afterwards the current stream advances, and
the least stream of the heap takes its place when it runs out or holds a smaller element. A
failed `verify` is `none`. -/
def next (it : MergeIterator α) : Option (α × MergeIterator α) :=
  if it.remaining = 0 then none
  else
    match it.current with
    | none => none
    | some c =>
      let remaining := it.remaining - 1
      if it.first then some (c.current, { it with remaining, first := false })
      else
        match c.advance with
        | none =>
          match popHeap (greater cmp) it.heap with
          | none => none
          | some (m, h) => some (m.current, { it with remaining, current := some m, heap := h })
        | some c' =>
          match popHeap (greater cmp) it.heap with
          | some (m, h) =>
            if greater cmp c' m then
              some (m.current, { it with remaining, current := some m, heap := c' :: h })
            else some (c'.current, { it with remaining, current := some c' })
          | none => some (c'.current, { it with remaining, current := some c' })

/-- The streams, the current one first. -/
def streams (it : MergeIterator α) : List (Stream α) := it.current.toList ++ it.heap

/-- The streams once the current one has moved past the element returned last. -/
def advanced (it : MergeIterator α) : List (Stream α) :=
  (match it.current with
    | some c => if it.first then [c] else c.advance.toList
    | none => []) ++ it.heap

/-- The elements the iterator has still to return, were there no limit. -/
def pending (it : MergeIterator α) : List α :=
  (match it.current with
    | some c => if it.first then c.elems else c.rest
    | none => []) ++ it.heap.flatMap Stream.elems

end MergeIterator

section Order

variable {cmp : α → α → Int}

/-- A stream is not greater than another when its current element lies below the other's, or
ties with it and its file comes first. -/
theorem greater_eq_false_iff {s t : Stream α} :
    greater cmp s t = false ↔
      cmp s.current t.current < 0 ∨ cmp s.current t.current = 0 ∧ s.fileNum ≤ t.fileNum := by
  simp only [greater]
  split_ifs with h <;> simp <;> omega

variable (hcmp : IsTotalPreorder cmp)
include hcmp

theorem greater_eq_false_of_greater {s t : Stream α} (h : greater cmp s t = true) :
    greater cmp t s = false := by
  have h₁ := hcmp.flip s.current t.current
  have h₂ := hcmp.flip t.current s.current
  rw [greater_eq_false_iff]
  simp only [greater] at h
  split_ifs at h <;> simp at h <;> omega

theorem greater_eq_false_trans {s t u : Stream α} (hst : greater cmp s t = false)
    (htu : greater cmp t u = false) : greater cmp s u = false := by
  rw [greater_eq_false_iff] at *
  rcases hst with hst | ⟨hst, hst'⟩ <;> rcases htu with htu | ⟨htu, htu'⟩
  · exact .inl (hcmp.lt_of_lt_of_le hst (Int.le_of_lt htu))
  · exact .inl (hcmp.lt_of_lt_of_le hst (Int.le_of_eq htu))
  · exact .inl (hcmp.lt_of_le_of_lt (Int.le_of_eq hst) htu)
  · -- both ties: the current elements tie and the file numbers increase
    have hsu := hcmp.trans _ _ _ (Int.le_of_eq hst) (Int.le_of_eq htu)
    have hus := hcmp.trans _ _ _ (Int.le_of_eq (hcmp.eq_zero_comm.mp htu))
      (Int.le_of_eq (hcmp.eq_zero_comm.mp hst))
    exact .inr ⟨hcmp.eq_zero_of_le_of_le hsu hus, Nat.le_trans hst' htu'⟩

/-- `pop_heap` takes a stream that no other stream of the heap lies below. -/
theorem popHeap_least {l : List (Stream α)} {m : Stream α} {r : List (Stream α)}
    (h : popHeap (greater cmp) l = some (m, r)) : ∀ t ∈ r, greater cmp m t = false :=
  popHeap_greatest (fun s t (hgt : greater cmp s t = true) => greater_eq_false_of_greater hcmp hgt)
    (fun _ _ _ h₁ h₂ => greater_eq_false_trans hcmp h₁ h₂) h

end Order

/-! ## One step of the merge -/

namespace Stream

theorem advance_eq_some {s s' : Stream α} (h : s.advance = some s') :
    s'.fileNum = s.fileNum ∧ s'.elems = s.rest := by
  unfold advance at h
  split at h
  · cases h
  · rename_i y ys hrest
    cases h
    exact ⟨rfl, hrest.symm⟩

theorem flatMap_elems_advance (s : Stream α) : s.advance.toList.flatMap elems = s.rest := by
  unfold advance
  split <;> simp_all [elems]

end Stream

namespace MergeIterator

variable {cmp : α → α → Int}

/-- After the first call, `next` takes the least of the advanced streams as the current one;
the first call returns the current element and leaves the streams as they are. -/
theorem next_eq_some {it it' : MergeIterator α} {x : α} (h : it.next cmp = some (x, it')) :
    it'.remaining + 1 = it.remaining ∧ it'.first = false ∧
      ∃ m, it'.current = some m ∧ x = m.current ∧
        (it.first = true ∧ it.current = some m ∧ it'.heap = it.heap ∨
          it.first = false ∧ ∃ r, popHeap (greater cmp) it.advanced = some (m, r) ∧ it'.heap.Perm r) := by
  obtain ⟨remaining, first, current, heap⟩ := it
  rcases current with _ | c
  · simp [next] at h
  unfold next at h
  dsimp only at h
  split_ifs at h with hrem hfirst
  · simp only [Option.some.injEq, Prod.mk.injEq] at h
    obtain ⟨rfl, rfl⟩ := h
    exact ⟨by dsimp only; omega, rfl, c, rfl, rfl, .inl ⟨hfirst, rfl, rfl⟩⟩
  · rw [Bool.not_eq_true] at hfirst
    subst hfirst
    split at h
    case h_1 hadv =>
      -- the current stream ran out: the least of the heap takes its place
      split at h
      · cases h
      · rename_i m r hpop
        simp only [Option.some.injEq, Prod.mk.injEq] at h
        obtain ⟨rfl, rfl⟩ := h
        refine ⟨by dsimp only; omega, rfl, m, rfl, rfl, .inr ⟨rfl, r, ?_, List.Perm.refl _⟩⟩
        simp [advanced, hadv, hpop]
    case h_2 c' hadv =>
      have hpop' : popHeap (greater cmp) (advanced ⟨remaining, false, some c, heap⟩) =
          popHeap (greater cmp) (c' :: heap) := by
        simp [advanced, hadv]
      split at h
      · rename_i m r hpop
        split_ifs at h with hgt <;> simp only [Option.some.injEq, Prod.mk.injEq] at h <;>
          obtain ⟨rfl, rfl⟩ := h
        · refine ⟨by dsimp only; omega, rfl, m, rfl, rfl, .inr ⟨rfl, c' :: r, ?_, List.Perm.refl _⟩⟩
          simp [hpop', popHeap, hpop, hgt]
        · refine ⟨by dsimp only; omega, rfl, c', rfl, rfl, .inr ⟨rfl, m :: r, ?_, popHeap_perm hpop |>.symm⟩⟩
          simp [hpop', popHeap, hpop, hgt]
      · rename_i hpop
        simp only [Option.some.injEq, Prod.mk.injEq] at h
        obtain ⟨rfl, rfl⟩ := h
        refine ⟨by dsimp only; omega, rfl, c', rfl, rfl, .inr ⟨rfl, [], ?_, ?_⟩⟩
        · simp [hpop', popHeap, hpop]
        · simp [popHeap_eq_none_iff.mp hpop]

theorem pending_eq_flatMap_advanced (it : MergeIterator α) :
    it.pending = it.advanced.flatMap Stream.elems := by
  obtain ⟨remaining, first, current, heap⟩ := it
  rcases current with _ | c
  · rfl
  · cases first
    · simp [pending, advanced, Stream.flatMap_elems_advance]
    · simp [pending, advanced, Stream.elems]

/-- The current stream and the heap after a call are the advanced streams before it. -/
theorem next_perm_advanced {it it' : MergeIterator α} {x : α} (h : it.next cmp = some (x, it')) :
    ∃ m, it'.current = some m ∧ x = m.current ∧ (m :: it'.heap).Perm it.advanced := by
  obtain ⟨-, -, m, hcur, rfl, hcase⟩ := next_eq_some h
  refine ⟨m, hcur, rfl, ?_⟩
  rcases hcase with ⟨hf, hc, hh⟩ | ⟨-, r, hpop, hr⟩
  · simp [advanced, hf, hc, hh]
  · exact (hr.cons m).trans (popHeap_perm hpop)

theorem pending_of_next {it it' : MergeIterator α} {x : α} {m : Stream α}
    (h : it.next cmp = some (x, it')) (hcur : it'.current = some m) :
    it'.pending = m.rest ++ it'.heap.flatMap Stream.elems := by
  obtain ⟨-, hfirst, -⟩ := next_eq_some h
  simp [pending, hcur, hfirst]

/-- A call returns one of the pending elements and leaves the others pending. -/
theorem next_pending {it it' : MergeIterator α} {x : α} (h : it.next cmp = some (x, it')) :
    it.pending.Perm (x :: it'.pending) := by
  obtain ⟨m, hcur, rfl, hperm⟩ := next_perm_advanced h
  rw [pending_eq_flatMap_advanced, pending_of_next h hcur]
  simpa [Stream.elems] using (hperm.flatMap_right Stream.elems).symm

variable (cmp) in
/-- The iterator read to its end: `next` as long as `more`. -/
def drain (it : MergeIterator α) : List α :=
  if it.more then
    match h : it.next cmp with
    | some (x, it') => x :: drain it'
    | none => []
  else []
termination_by it.pending.length
decreasing_by
  have := (next_pending h).length_eq
  simp only [List.length_cons] at this
  omega

end MergeIterator

/-! ## The merge returns its runs in order -/

/-- The runs merged: each sorted, and a relation `R` that holds along each run and between
elements of two runs that the comparator orders, or that tie with the earlier run first. -/
structure RunsOrdered (cmp : α → α → Int) (R : α → α → Prop) (runs : List (List α)) : Prop where
  sorted : ∀ (i : Nat) (f : List α), runs[i]? = some f → f.Pairwise (fun a b => le cmp a b = true) ∧ f.Pairwise R
  cross : ∀ (i j : Nat) (f g : List α), runs[i]? = some f → runs[j]? = some g → i ≠ j → ∀ x ∈ f, ∀ y ∈ g,
    cmp x y < 0 ∨ cmp x y = 0 ∧ i < j → R x y

/-- Sorted runs are ordered by "at most". -/
theorem runsOrdered_le {cmp : α → α → Int} {runs : List (List α)}
    (h : ∀ f ∈ runs, f.Pairwise fun a b => le cmp a b = true) :
    RunsOrdered cmp (fun a b => le cmp a b = true) runs := by
  constructor
  · intro i f hf
    have hmem := List.mem_of_getElem? hf
    exact ⟨h f hmem, h f hmem⟩
  · intro i j f g _ _ _ x _ y _ hxy
    rcases hxy with hlt | ⟨heq, -⟩
    · simpa using Int.le_of_lt hlt
    · simpa using Int.le_of_eq heq

namespace MergeIterator

variable {cmp : α → α → Int}

/-- What holds of an iterator over `runs` between calls: each stream holds the rest of its run,
the streams have distinct file numbers, before the first call the current stream is the least,
and an iterator without a current stream returns nothing. -/
structure Inv (cmp : α → α → Int) (runs : List (List α)) (it : MergeIterator α) : Prop where
  inRun : ∀ s ∈ it.streams, ∃ f, runs[s.fileNum]? = some f ∧ s.elems <:+ f
  nodup : (it.streams.map Stream.fileNum).Nodup
  first_least : it.first = true → ∀ c ∈ it.current, ∀ t ∈ it.heap, greater cmp c t = false
  current_none : it.current = none → it.remaining = 0

theorem mem_advanced {it : MergeIterator α} {s : Stream α} (hs : s ∈ it.advanced) :
    ∃ s₀ ∈ it.streams, s.fileNum = s₀.fileNum ∧ s.elems <:+ s₀.elems := by
  obtain ⟨remaining, first, current, heap⟩ := it
  simp only [advanced, streams, List.mem_append] at hs ⊢
  rcases hs with hs | hs
  · rcases current with _ | c
    · simp at hs
    refine ⟨c, by simp, ?_⟩
    cases first
    · cases hadv : c.advance with
      | none => simp [hadv] at hs
      | some c' =>
        simp only [hadv, Option.toList_some, List.mem_singleton, Bool.false_eq_true,
          if_false] at hs
        subst hs
        obtain ⟨hnum, helems⟩ := Stream.advance_eq_some hadv
        exact ⟨hnum, helems ▸ List.suffix_cons _ _⟩
    · simp only [if_true, List.mem_singleton] at hs
      subst hs
      exact ⟨rfl, List.suffix_refl _⟩
  · exact ⟨s, .inr hs, rfl, List.suffix_refl _⟩

theorem advanced_sublist (it : MergeIterator α) :
    (it.advanced.map Stream.fileNum).Sublist (it.streams.map Stream.fileNum) := by
  obtain ⟨remaining, first, current, heap⟩ := it
  simp only [advanced, streams, List.map_append]
  apply List.Sublist.append_right
  rcases current with _ | c
  · simp
  cases first
  · cases hadv : c.advance with
    | none => simp [hadv]
    | some c' => simp [hadv, (Stream.advance_eq_some hadv).1]
  · simp

/-- A call keeps the invariant. -/
theorem Inv.next {runs : List (List α)} {it it' : MergeIterator α} {x : α}
    (hinv : it.Inv cmp runs) (h : it.next cmp = some (x, it')) : it'.Inv cmp runs := by
  obtain ⟨-, hfirst, -⟩ := next_eq_some h
  obtain ⟨m, hcur, -, hperm⟩ := next_perm_advanced h
  have hstreams : it'.streams = m :: it'.heap := by simp [streams, hcur]
  constructor
  · intro s hs
    rw [hstreams] at hs
    obtain ⟨s₀, hs₀, hnum, hsuf⟩ := mem_advanced (hperm.subset hs)
    obtain ⟨f, hf, hsuf₀⟩ := hinv.inRun s₀ hs₀
    exact ⟨f, hnum ▸ hf, hsuf.trans hsuf₀⟩
  · rw [hstreams]
    exact (hperm.map Stream.fileNum).nodup_iff.mpr (hinv.nodup.sublist (advanced_sublist it))
  · simp [hfirst]
  · simp [hcur]

section Before

variable {R : α → α → Prop} {runs : List (List α)} (hcmp : IsTotalPreorder cmp)
  (hruns : RunsOrdered cmp R runs)
include hcmp hruns

/-- A stream's current element lies at or below its other elements. -/
theorem current_le {s : Stream α} {f : List α} {i : Nat} (hf : runs[i]? = some f)
    (hsuf : s.elems <:+ f) : ∀ y ∈ s.elems, cmp s.current y ≤ 0 := by
  have hs := (hruns.sorted i f hf).1.sublist hsuf.sublist
  intro y hy
  rcases hy with _ | ⟨_, hy⟩
  · exact Int.le_of_eq (hcmp.refl _)
  · simpa using List.rel_of_pairwise_cons hs hy

/-- The current element of a stream that no other stream lies below comes before every other
element of the streams: along its own run, and across runs by the comparator and the run
numbers. -/
theorem before_of_least {m : Stream α} {others : List (Stream α)}
    (hin : ∀ s ∈ m :: others, ∃ f, runs[s.fileNum]? = some f ∧ s.elems <:+ f)
    (hnd : ((m :: others).map Stream.fileNum).Nodup)
    (hleast : ∀ t ∈ others, greater cmp m t = false) :
    ∀ y ∈ m.rest ++ others.flatMap Stream.elems, R m.current y := by
  obtain ⟨f, hf, hsuf⟩ := hin m (by simp)
  intro y hy
  rcases List.mem_append.mp hy with hy | hy
  · exact List.rel_of_pairwise_cons ((hruns.sorted _ f hf).2.sublist hsuf.sublist) hy
  · obtain ⟨t, ht, hyt⟩ := List.mem_flatMap.mp hy
    obtain ⟨g, hg, hsuf'⟩ := hin t (by simp [ht])
    have hne : m.fileNum ≠ t.fileNum := by
      intro heq
      simp only [List.map_cons, List.nodup_cons, List.mem_map] at hnd
      exact hnd.1 ⟨t, ht, heq.symm⟩
    have hty : cmp t.current y ≤ 0 := current_le hcmp hruns hg hsuf' y hyt
    apply hruns.cross _ _ f g hf hg hne m.current (hsuf.subset (by simp [Stream.elems])) y
      (hsuf'.subset hyt)
    rcases greater_eq_false_iff.mp (hleast t ht) with hlt | ⟨heq, hle⟩
    · exact .inl (hcmp.lt_of_lt_of_le hlt hty)
    · rcases Int.lt_or_eq_of_le (hcmp.trans _ _ _ (Int.le_of_eq heq) hty) with hlt | heq'
      · exact .inl hlt
      · exact .inr ⟨heq', Nat.lt_of_le_of_ne hle hne⟩

/-- Each call returns an element that comes before every element still pending. -/
theorem next_before {it it' : MergeIterator α} {x : α} (hinv : it.Inv cmp runs)
    (h : it.next cmp = some (x, it')) : ∀ y ∈ it'.pending, R x y := by
  obtain ⟨-, -, m, hcur, rfl, hcase⟩ := next_eq_some h
  have hinv' := hinv.next h
  have hstreams : it'.streams = m :: it'.heap := by simp [streams, hcur]
  have hleast : ∀ t ∈ it'.heap, greater cmp m t = false := by
    rcases hcase with ⟨hf, hc, hh⟩ | ⟨-, r, hpop, hr⟩
    · rw [hh]
      exact hinv.first_least hf m (by simp [hc])
    · intro t ht
      exact popHeap_least hcmp hpop t (hr.subset ht)
  rw [pending_of_next h hcur]
  exact before_of_least hcmp hruns (hstreams ▸ hinv'.inRun) (hstreams ▸ hinv'.nodup) hleast

end Before

/-- While `more` holds, `next` passes its `verify`s. -/
theorem Inv.next_ne_none {runs : List (List α)} {it : MergeIterator α} (hinv : it.Inv cmp runs)
    (hmore : it.more = true) : it.next cmp ≠ none := by
  obtain ⟨remaining, first, current, heap⟩ := it
  have hrem : remaining ≠ 0 := by
    simp only [more, Bool.and_eq_true, decide_eq_true_eq] at hmore
    omega
  rcases current with _ | c
  · exact absurd (hinv.current_none rfl) hrem
  cases first
  · cases hadv : c.advance with
    | none =>
      -- the current stream has run out, so `more` found the heap nonempty
      have hrest : c.rest = [] := by
        unfold Stream.advance at hadv
        split at hadv
        · assumption
        · cases hadv
      have hheap : heap ≠ [] := by
        simp only [more, hrest, Bool.and_eq_true, decide_eq_true_eq] at hmore
        simpa using hmore.2
      cases hpop : popHeap (greater cmp) heap with
      | none => exact absurd (popHeap_eq_none_iff.mp hpop) hheap
      | some p => simp [MergeIterator.next, hrem, hadv, hpop]
    | some c' =>
      cases hpop : popHeap (greater cmp) heap with
      | none => simp [MergeIterator.next, hrem, hadv, hpop]
      | some p =>
        simp only [MergeIterator.next, hrem, hadv, hpop, if_false, Bool.false_eq_true, ne_eq]
        split <;> simp
  · simp [MergeIterator.next, hrem]

/-- Once `more` fails, nothing more may be returned: the limit is reached or no element is
pending. -/
theorem min_eq_zero_of_more_eq_false {it : MergeIterator α} (hmore : it.more = false) :
    min it.remaining it.pending.length = 0 := by
  obtain ⟨remaining, first, current, heap⟩ := it
  simp only [more, Bool.and_eq_false_iff, decide_eq_false_iff_not, Bool.or_eq_false_iff,
    Bool.not_eq_false', List.isEmpty_iff] at hmore
  rcases hmore with hrem | ⟨⟨hfirst, hheap⟩, hcur⟩
  · simp only at hrem ⊢
    omega
  · simp only at hfirst hheap hcur ⊢
    subst hfirst hheap
    rcases current with _ | c
    · simp [pending]
    · simp only [Bool.not_eq_false'] at hcur
      simp [pending, List.isEmpty_iff.mp hcur]


section Drain

variable {R : α → α → Prop} {runs : List (List α)} (hcmp : IsTotalPreorder cmp)
  (hruns : RunsOrdered cmp R runs)
include hcmp hruns

/-- Reading the iterator to its end returns, of the pending elements, as many as the limit
allows, each before the elements returned after it and those left over. The induction follows
`drain`, one call of `next` at a time, and the invariant carries from call to call. -/
theorem drain_spec {it : MergeIterator α} (hinv : it.Inv cmp runs) :
    ∃ rest, (it.drain cmp ++ rest).Perm it.pending ∧ (it.drain cmp).Pairwise R ∧
      (∀ x ∈ it.drain cmp, ∀ y ∈ rest, R x y) ∧
      (it.drain cmp).length = min it.remaining it.pending.length := by
  fun_induction drain cmp it with
  | case1 it hmore x it' h ih =>
    obtain ⟨rest, hperm, hpw, hrest, hlen⟩ := ih (hinv.next h)
    have hpend := next_pending h
    have hbefore := next_before hcmp hruns hinv h
    have hrem := (next_eq_some h).1
    refine ⟨rest, (hperm.cons x).trans hpend.symm, ?_, ?_, ?_⟩
    · rw [List.pairwise_cons]
      exact ⟨fun y hy => hbefore y (hperm.subset (List.mem_append_left _ hy)), hpw⟩
    · intro y hy z hz
      rcases hy with _ | ⟨_, hy⟩
      · exact hbefore z (hperm.subset (List.mem_append_right _ hz))
      · exact hrest y hy z hz
    · rw [List.length_cons, hlen, hpend.length_eq, List.length_cons]
      omega
  | case2 it hmore h => exact absurd h (hinv.next_ne_none hmore)
  | case3 it hmore =>
    refine ⟨it.pending, by simp, by simp, by simp, ?_⟩
    simp [min_eq_zero_of_more_eq_false (Bool.eq_false_iff.mpr hmore)]

end Drain

end MergeIterator

/-! ## The merge of a list of runs -/

namespace Stream

theorem flatMap_elems_ofRun (runs : List (List α)) (n : Nat) :
    ((runs.zipIdx n).filterMap ofRun).flatMap elems = runs.flatten := by
  induction runs generalizing n with
  | nil => rfl
  | cons r rs ih =>
    cases r with
    | nil => simpa [List.filterMap_cons, ofRun] using ih (n + 1)
    | cons x xs => simpa [List.filterMap_cons, ofRun, elems] using ih (n + 1)

theorem mem_filterMap_ofRun {runs : List (List α)} {s : Stream α}
    (hs : s ∈ runs.zipIdx.filterMap ofRun) : runs[s.fileNum]? = some s.elems := by
  obtain ⟨⟨r, i⟩, hri, hs⟩ := List.mem_filterMap.mp hs
  rw [List.mem_zipIdx_iff_getElem?] at hri
  cases r with
  | nil => cases hs
  | cons x xs =>
    cases hs
    exact hri

theorem map_fileNum_filterMap_ofRun_sublist (l : List (List α × Nat)) :
    ((l.filterMap ofRun).map fileNum).Sublist (l.map Prod.snd) := by
  induction l with
  | nil => simp
  | cons p l ih =>
    obtain ⟨r, i⟩ := p
    cases r with
    | nil => simpa [List.filterMap_cons, ofRun] using ih.cons i
    | cons x xs => simpa [List.filterMap_cons, ofRun] using ih.cons_cons i

end Stream

namespace MergeIterator

variable {cmp : α → α → Int}

theorem create_inv (hcmp : IsTotalPreorder cmp) (runs : List (List α)) (limit : Nat) :
    (create cmp runs limit).Inv cmp runs := by
  unfold create
  split
  · exact ⟨by simp [streams], by simp [streams], by simp, fun _ => rfl⟩
  · rename_i c h hpop
    have hperm := popHeap_perm hpop
    have hstreams : (MergeIterator.mk (if limit ≠ 0 then limit else unlimited) true (some c) h).streams
        = c :: h := rfl
    refine ⟨?_, ?_, ?_, by simp⟩
    · intro s hs
      rw [hstreams] at hs
      exact ⟨s.elems, Stream.mem_filterMap_ofRun (hperm.subset hs), List.suffix_refl _⟩
    · rw [hstreams, (hperm.map Stream.fileNum).nodup_iff]
      apply (Stream.map_fileNum_filterMap_ofRun_sublist _).nodup
      rw [List.zipIdx_map_snd]
      exact List.nodup_range' _ (by decide)
    · intro _ c' hc' t ht
      cases hc'
      exact popHeap_least hcmp hpop t ht

theorem create_pending (runs : List (List α)) (limit : Nat) :
    (create cmp runs limit).pending.Perm runs.flatten := by
  unfold create
  split
  · rename_i hpop
    simp [pending, ← Stream.flatMap_elems_ofRun runs 0, popHeap_eq_none_iff.mp hpop]
  · rename_i c h hpop
    rw [← Stream.flatMap_elems_ofRun runs 0]
    simpa [pending, Stream.elems] using (popHeap_perm hpop).flatMap_right Stream.elems

theorem create_remaining (runs : List (List α)) (limit : Nat) (hne : runs.flatten ≠ []) :
    (create cmp runs limit).remaining = if limit ≠ 0 then limit else unlimited := by
  unfold create
  split
  · rename_i hpop
    rw [popHeap_eq_none_iff] at hpop
    rw [← Stream.flatMap_elems_ofRun runs 0, hpop] at hne
    exact absurd rfl hne
  · rfl

/-- The `MergeIterator` over sorted runs, read to its end, returns as many elements of the runs
as its limit allows (all of them with no limit), each before the elements returned after it and
those it leaves. -/
theorem drain_create {R : α → α → Prop} {runs : List (List α)} (hcmp : IsTotalPreorder cmp)
    (hruns : RunsOrdered cmp R runs) (limit : Nat) :
    ∃ rest, ((create cmp runs limit).drain cmp ++ rest).Perm runs.flatten ∧
      ((create cmp runs limit).drain cmp).Pairwise R ∧
      (∀ x ∈ (create cmp runs limit).drain cmp, ∀ y ∈ rest, R x y) ∧
      ((create cmp runs limit).drain cmp).length =
        min (if limit ≠ 0 then limit else unlimited) runs.flatten.length := by
  obtain ⟨rest, hperm, hpw, hrest, hlen⟩ := drain_spec hcmp hruns (create_inv hcmp runs limit)
  have hpend : (create cmp runs limit).pending.Perm runs.flatten := create_pending runs limit
  refine ⟨rest, hperm.trans hpend, hpw, hrest, ?_⟩
  rw [hlen, hpend.length_eq]
  by_cases hne : runs.flatten = []
  · simp [hne]
  · rw [create_remaining runs limit hne]

end MergeIterator

/-! ## Merging decorated elements

The merge looks at elements only through the comparator, so merging elements decorated with
more data, under the comparator of their undecorated parts, and dropping the decoration gives
the merge of the undecorated runs. -/

namespace Stream

variable {β : Type}

def map (f : β → α) (s : Stream β) : Stream α := ⟨s.fileNum, f s.current, s.rest.map f⟩

theorem advance_map (f : β → α) (s : Stream β) : (s.map f).advance = s.advance.map (map f) := by
  unfold advance map
  cases s.rest <;> rfl

theorem filterMap_ofRun_map (f : β → α) (runs : List (List β)) (n : Nat) :
    ((runs.map (List.map f)).zipIdx n).filterMap ofRun =
      ((runs.zipIdx n).filterMap ofRun).map (map f) := by
  induction runs generalizing n with
  | nil => rfl
  | cons r rs ih =>
    cases r with
    | nil => simpa [List.filterMap_cons, ofRun] using ih (n + 1)
    | cons x xs => simpa [List.filterMap_cons, ofRun, map] using ih (n + 1)

end Stream

variable {β : Type} (f : β → α) (cmp : α → α → Int)

theorem greater_map (s t : Stream β) :
    greater cmp (s.map f) (t.map f) = greater (fun a b => cmp (f a) (f b)) s t := rfl

theorem popHeap_greater_map (l : List (Stream β)) :
    popHeap (greater cmp) (l.map (Stream.map f)) =
      (popHeap (greater fun a b => cmp (f a) (f b)) l).map
        fun p => (p.1.map f, p.2.map (Stream.map f)) :=
  popHeap_map (Stream.map f) l

namespace MergeIterator

def map (it : MergeIterator β) : MergeIterator α :=
  ⟨it.remaining, it.first, it.current.map (Stream.map f), it.heap.map (Stream.map f)⟩

theorem create_map (runs : List (List β)) (limit : Nat) :
    create cmp (runs.map (List.map f)) limit =
      (create (fun a b => cmp (f a) (f b)) runs limit).map f := by
  unfold create
  rw [Stream.filterMap_ofRun_map, popHeap_greater_map]
  cases popHeap (greater fun a b => cmp (f a) (f b)) (runs.zipIdx.filterMap Stream.ofRun) <;> rfl

theorem more_map (it : MergeIterator β) : (it.map f).more = it.more := by
  obtain ⟨remaining, first, current, heap⟩ := it
  rcases current with _ | c <;> simp only [more, map, Stream.map, Option.map, List.isEmpty_map] <;>
    rfl

theorem next_map (it : MergeIterator β) :
    (it.map f).next cmp =
      (it.next fun a b => cmp (f a) (f b)).map fun p => (f p.1, p.2.map f) := by
  obtain ⟨remaining, first, current, heap⟩ := it
  rcases current with _ | c
  · unfold MergeIterator.next map
    split <;> rfl
  by_cases hrem : remaining = 0
  · simp [MergeIterator.next, map, hrem]
  cases first
  · simp only [MergeIterator.next, map, hrem, if_false, Option.map_some, Bool.false_eq_true,
      Stream.advance_map, popHeap_greater_map]
    cases c.advance with
    | none => cases popHeap (greater fun a b => cmp (f a) (f b)) heap <;> rfl
    | some c' =>
      cases popHeap (greater fun a b => cmp (f a) (f b)) heap with
      | none => rfl
      | some p =>
        obtain ⟨m, r⟩ := p
        simp only [Option.map_some]
        rw [greater_map]
        split <;> rfl
  · simp [MergeIterator.next, map, hrem, Stream.map]

theorem drain_map (it : MergeIterator β) :
    (it.map f).drain cmp = (it.drain fun a b => cmp (f a) (f b)).map f := by
  fun_induction drain (fun a b => cmp (f a) (f b)) it with
  | case1 it hmore x it' h ih =>
    rw [drain, more_map, hmore, if_pos rfl]
    split
    · rename_i y it'' h'
      rw [next_map, h] at h'
      simp only [Option.map_some, Option.some.injEq, Prod.mk.injEq] at h'
      obtain ⟨rfl, rfl⟩ := h'
      simp [ih]
    · rename_i h'
      simp [next_map, h] at h'
  | case2 it hmore h =>
    rw [drain, more_map, hmore, if_pos rfl]
    split
    · rename_i y it'' h'
      simp [next_map, h] at h'
    · rfl
  | case3 it hmore =>
    rw [drain, more_map]
    simp [hmore]

end MergeIterator

end mongo
