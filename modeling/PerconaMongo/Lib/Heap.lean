-- A binary heap known by its elements. Whatever its layout, the front of a heap under `comp` is an
-- element no other lies above, and `pop_heap` takes it out; one pass over the elements finds such
-- an element, and that is the model of `pop_heap` here. Which of several greatest elements a
-- layout puts in front is not modelled; the lemmas use only that the one taken is greatest.
import Mathlib.Data.List.Perm.Basic

namespace binary_heap

variable {β γ : Type*}

/-- `std::pop_heap` under `comp`: a greatest element, the first of them, and the rest. -/
def popHeap (comp : β → β → Bool) : List β → Option (β × List β)
  | [] => none
  | x :: xs =>
    match popHeap comp xs with
    | none => some (x, [])
    | some (m, rest) => if comp x m then some (m, x :: rest) else some (x, m :: rest)

variable {comp : β → β → Bool}

theorem popHeap_eq_none_iff {l : List β} : popHeap comp l = none ↔ l = [] := by
  cases l with
  | nil => simp [popHeap]
  | cons x xs =>
    simp only [popHeap, reduceCtorEq, iff_false]
    split
    · simp
    · split_ifs <;> simp

theorem popHeap_perm {l : List β} {m : β} {r : List β} (h : popHeap comp l = some (m, r)) :
    (m :: r).Perm l := by
  induction l generalizing m r with
  | nil => simp [popHeap] at h
  | cons x xs ih =>
    simp only [popHeap] at h
    split at h
    · rename_i hnone
      simp only [Option.some.injEq, Prod.mk.injEq] at h
      obtain ⟨rfl, rfl⟩ := h
      rw [popHeap_eq_none_iff.mp hnone]
    · rename_i m' rest hsome
      have hp := ih hsome
      split_ifs at h <;> simp only [Option.some.injEq, Prod.mk.injEq] at h <;>
        obtain ⟨rfl, rfl⟩ := h
      · exact (List.Perm.swap _ _ _).trans (hp.cons x)
      · exact hp.cons x

/-- Under a comparator that is asymmetric and whose "not above" is transitive, no element left in
the heap lies above the one taken. -/
theorem popHeap_greatest (asymm : ∀ a b, comp a b = true → comp b a = false)
    (trans : ∀ a b c, comp a b = false → comp b c = false → comp a c = false) {l : List β}
    {m : β} {r : List β} (h : popHeap comp l = some (m, r)) : ∀ y ∈ r, comp m y = false := by
  induction l generalizing m r with
  | nil => simp [popHeap] at h
  | cons x xs ih =>
    simp only [popHeap] at h
    split at h
    · simp only [Option.some.injEq, Prod.mk.injEq] at h
      obtain ⟨rfl, rfl⟩ := h
      simp
    · rename_i m' rest hsome
      split_ifs at h with hgt <;> simp only [Option.some.injEq, Prod.mk.injEq] at h <;>
        obtain ⟨rfl, rfl⟩ := h
      · intro y hy
        rcases hy with _ | ⟨_, hy⟩
        · exact asymm _ _ hgt
        · exact ih hsome y hy
      · intro y hy
        rcases hy with _ | ⟨_, hy⟩
        · simpa using hgt
        · exact trans _ _ _ (by simpa using hgt) (ih hsome y hy)

/-- The heap looks at its elements only through the comparator. -/
theorem popHeap_map (f : γ → β) (l : List γ) :
    popHeap comp (l.map f) =
      (popHeap (fun a b => comp (f a) (f b)) l).map fun p => (f p.1, p.2.map f) := by
  induction l with
  | nil => rfl
  | cons x xs ih =>
    simp only [List.map_cons, popHeap, ih]
    cases popHeap (fun a b => comp (f a) (f b)) xs with
    | none => rfl
    | some p => by_cases hg : comp (f x) (f p.1) = true <;> simp [hg]

end binary_heap
