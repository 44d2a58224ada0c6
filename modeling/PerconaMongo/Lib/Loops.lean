-- Two loops of C++ code and the rules they are reasoned about by. The search loop of
-- std::lower_bound and std::upper_bound (libstdc++'s __lower_bound and __upper_bound) halves the
-- range at its middle element, and goes on after the middle when that element passes the test,
-- before it otherwise. On a list whose passing elements all come first the search returns the
-- partition point: every element before it passes, none from it on does. A `for` loop over a
-- list whose body may fail (an `invariant` that trips, a lookup that finds nothing) is a
-- `List.foldlM` in `Option`: what every successful step keeps holds of the result, and a body
-- that cannot fail where the invariant holds makes the whole loop succeed. Code that may stop
-- with an error is compared with the same code that cannot: it agrees with it when it returns
-- only what the other returns, and it refines it step by step, loops included.
import Mathlib.Data.List.Basic

/-! ## Binary search -/

namespace binary_search

variable {α β : Type*}

/-- The loop over the `len` elements from `first`. -/
def search (before : α → Bool) (l : List α) (first len : Nat) : Nat :=
  if len = 0 then first
  else
    match l[first + len / 2]? with
    | some middle =>
      if before middle then search before l (first + len / 2 + 1) (len - len / 2 - 1)
      else search before l first (len / 2)
    | none => first
termination_by len
decreasing_by all_goals omega

/-- `std::lower_bound(first, last, val, comp)`: the first element `x` with `!comp(x, val)`. -/
def lowerBound (l : List α) (val : β) (comp : α → β → Bool) : Nat :=
  search (fun x => comp x val) l 0 l.length

/-- `std::upper_bound(first, last, val, comp)`: the first element `x` with `comp(val, x)`. -/
def upperBound (l : List α) (val : β) (comp : β → α → Bool) : Nat :=
  search (fun x => !comp val x) l 0 l.length

/-- The elements that pass `before` come first. -/
def Partitioned (before : α → Bool) (l : List α) : Prop :=
  l.Pairwise fun x y => before y = true → before x = true

/-- `r` is the partition point of `l`: the elements before it pass, those from it on fail. -/
structure IsPartitionPoint (before : α → Bool) (l : List α) (r : Nat) : Prop where
  le_length : r ≤ l.length
  lt : ∀ i (h : i < l.length), i < r → before l[i] = true
  ge : ∀ i (h : i < l.length), r ≤ i → before l[i] = false

variable {before : α → Bool} {l : List α}

theorem Partitioned.before_of_le (hp : Partitioned before l) {i j : Nat} (hj : j < l.length)
    (hij : i ≤ j) (hb : before l[j] = true) : before l[i] = true := by
  rcases Nat.lt_or_eq_of_le hij with h | rfl
  · exact List.pairwise_iff_getElem.mp hp i j (by omega) hj h hb
  · exact hb

/-- The search keeps the invariant that the elements before `first` pass and those from
`first + len` on fail; it ends when the range is empty. -/
theorem search_isPartitionPoint (hp : Partitioned before l) (first len : Nat)
    (hlen : first + len ≤ l.length)
    (hlo : ∀ i (h : i < l.length), i < first → before l[i] = true)
    (hhi : ∀ i (h : i < l.length), first + len ≤ i → before l[i] = false) :
    IsPartitionPoint before l (search before l first len) := by
  fun_induction search before l first len with
  | case1 first =>
    exact ⟨by omega, hlo, hhi⟩
  | case2 first len hz middle hmid hb ih =>
    have hm : first + len / 2 < l.length := by omega
    rw [List.getElem?_eq_getElem hm, Option.some.injEq] at hmid
    subst hmid
    -- the middle passes, so everything up to it does
    refine ih (by omega) (fun i hi hlt => ?_) (fun i hi hge => hhi i hi (by omega))
    by_cases hif : i < first
    · exact hlo i hi hif
    · exact hp.before_of_le hm (by omega) hb
  | case3 first len hz middle hmid hb ih =>
    have hm : first + len / 2 < l.length := by omega
    rw [List.getElem?_eq_getElem hm, Option.some.injEq] at hmid
    subst hmid
    -- the middle fails, so everything from it on does
    refine ih (by omega) hlo (fun i hi hge => ?_)
    cases hbi : before l[i]
    · rfl
    · exact absurd (hp.before_of_le hi hge hbi) (by simp [hb])
  | case4 first len hz hmid =>
    rw [List.getElem?_eq_none_iff] at hmid
    omega

theorem lowerBound_isPartitionPoint (val : β) (comp : α → β → Bool)
    (hp : Partitioned (fun x => comp x val) l) :
    IsPartitionPoint (fun x => comp x val) l (lowerBound l val comp) :=
  search_isPartitionPoint hp 0 l.length (by omega) (fun _ _ h => absurd h (Nat.not_lt_zero _))
    (fun _ hi h => absurd hi (by omega))

theorem upperBound_isPartitionPoint (val : β) (comp : β → α → Bool)
    (hp : Partitioned (fun x => !comp val x) l) :
    IsPartitionPoint (fun x => !comp val x) l (upperBound l val comp) :=
  search_isPartitionPoint hp 0 l.length (by omega) (fun _ _ h => absurd h (Nat.not_lt_zero _))
    (fun _ hi h => absurd hi (by omega))

/-- Exactly the elements that pass stand before the partition point. -/
theorem IsPartitionPoint.lt_iff {r : Nat} (h : IsPartitionPoint before l r) {i : Nat}
    (hi : i < l.length) : i < r ↔ before l[i] = true := by
  constructor
  · exact h.lt i hi
  · intro hb
    by_contra hge
    have hf := h.ge i hi (by omega)
    simp [hf] at hb

/-- The element at the partition point is the first one that fails. -/
theorem IsPartitionPoint.getElem?_eq_find? {r : Nat} (h : IsPartitionPoint before l r) :
    l[r]? = l.find? fun x => !before x := by
  by_cases hr : r < l.length
  · rw [List.getElem?_eq_getElem hr, eq_comm, List.find?_eq_some_iff_getElem]
    refine ⟨by simp [h.ge r hr (Nat.le_refl r)], r, hr, rfl, fun j hj => ?_⟩
    simp [h.lt j (by omega) hj]
  · rw [List.getElem?_eq_none (by omega), eq_comm, List.find?_eq_none]
    intro x hx
    obtain ⟨i, hi, rfl⟩ := List.mem_iff_getElem.mp hx
    simp [h.lt i hi (by omega)]

end binary_search

/-! ## A loop whose body may fail -/

namespace option_fold

variable {α β : Type*} (f : β → α → Option β)

/-- An invariant that every successful step keeps holds of the result of a successful loop. -/
theorem foldlM_inv (P : β → Prop) {l : List α} {b r : β} (hb : P b)
    (hstep : ∀ b b' x, x ∈ l → P b → f b x = some b' → P b') (h : l.foldlM f b = some r) :
    P r := by
  induction l generalizing b with
  | nil =>
    cases h
    exact hb
  | cons x xs ih =>
    rw [List.foldlM_cons] at h
    cases hx : f b x with
    | none => simp [hx] at h
    | some b' =>
      rw [hx, Option.bind_eq_bind, Option.bind_some] at h
      exact ih (hstep b b' x (List.mem_cons_self ..) hb hx)
        (fun c c' y hy => hstep c c' y (List.mem_cons_of_mem _ hy)) h

/-- A loop whose body succeeds and keeps the invariant wherever the invariant holds succeeds,
with the invariant true of its result. -/
theorem exists_foldlM_inv (P : β → Prop) {l : List α} {b : β} (hb : P b)
    (hstep : ∀ b x, x ∈ l → P b → ∃ b', f b x = some b' ∧ P b') :
    ∃ r, l.foldlM f b = some r ∧ P r := by
  induction l generalizing b with
  | nil => exact ⟨b, rfl, hb⟩
  | cons x xs ih =>
    obtain ⟨b', hx, hb'⟩ := hstep b x (List.mem_cons_self ..) hb
    rw [List.foldlM_cons, hx, Option.bind_eq_bind, Option.bind_some]
    exact ih hb' fun c y hy => hstep c y (List.mem_cons_of_mem _ hy)

/-- A map whose function succeeds on every element succeeds. -/
theorem exists_mapM_eq_some {γ : Type*} (g : α → Option γ) {l : List α}
    (hg : ∀ x ∈ l, ∃ y, g x = some y) : ∃ ys, l.mapM g = some ys := by
  induction l with
  | nil => exact ⟨[], rfl⟩
  | cons x xs ih =>
    obtain ⟨y, hy⟩ := hg x (List.mem_cons_self ..)
    obtain ⟨ys, hys⟩ := ih fun z hz => hg z (List.mem_cons_of_mem _ hz)
    exact ⟨y :: ys, by simp [List.mapM_cons, hy, hys]⟩

end option_fold

/-! ## A computation that may stop, against one that cannot -/

namespace except_fold

universe u v

variable {ε : Type u} {α β : Type v} {γ : Type*}

/-- `x` returns `y` whenever it returns: a computation that may stop with an error agrees with
the value of one that cannot. -/
def Agrees (x : Except ε α) (y : α) : Prop := ∀ r, x = .ok r → r = y

theorem agrees_pure (y : α) : Agrees (pure y : Except ε α) y := by
  intro r h
  cases h
  rfl

theorem Agrees.bind {x : Except ε α} {y : α} {f : α → Except ε β} {z : β}
    (hx : Agrees x y) (hf : Agrees (f y) z) : Agrees (x >>= f) z := by
  intro r h
  cases hxr : x with
  | error e =>
    rw [hxr] at h
    cases h
  | ok a =>
    rw [hxr, hx a hxr] at h
    exact hf r h

theorem Agrees.map {x : Except ε α} {y : α} (f : α → β) (hx : Agrees x y) :
    Agrees (f <$> x) (f y) := by
  intro r h
  cases hxr : x with
  | error e =>
    rw [hxr] at h
    cases h
  | ok a =>
    rw [hxr, hx a hxr] at h
    cases h
    rfl

@[simp] theorem ok_bind (a : α) (f : α → Except ε β) : (Except.ok a >>= f) = f a := rfl

theorem bind_eq_ok {x : Except ε α} {y : α} {f : α → Except ε β} {z : β} (hx : x = .ok y)
    (hf : f y = .ok z) : x >>= f = .ok z := by
  rw [hx]
  exact hf

theorem map_eq_ok {x : Except ε α} {y : α} (f : α → β) (hx : x = .ok y) :
    f <$> x = .ok (f y) := by
  rw [hx]
  rfl

/-- A computation that agrees with `y` and returns at all returns `y`. -/
theorem eq_ok_of_agrees {x : Except ε α} {y : α} (hx : Agrees x y) (hok : ∃ r, x = .ok r) :
    x = .ok y := by
  obtain ⟨r, hr⟩ := hok
  rw [hr, hx r hr]

/-- A loop whose body agrees with the other's body at every step agrees with the other loop. -/
theorem agrees_foldlM {f : α → γ → Except ε α} {g : α → γ → α}
    (h : ∀ a c, Agrees (f a c) (g a c)) (l : List γ) (a : α) :
    Agrees (l.foldlM f a) (l.foldl g a) := by
  induction l generalizing a with
  | nil => exact agrees_pure a
  | cons c l ih =>
    rw [List.foldlM_cons, List.foldl_cons]
    exact (h a c).bind (ih (g a c))

/-- A loop whose body, from a state of the invariant, returns the other body's state and keeps
the invariant, returns the other loop's state. The invariant speaks of the elements still to
come, as a freshness condition must. -/
theorem foldlM_eq_ok {f : α → γ → Except ε α} {g : α → γ → α} (P : α → List γ → Prop)
    (hstep : ∀ a c l, P a (c :: l) → f a c = .ok (g a c) ∧ P (g a c) l) :
    ∀ (l : List γ) (a : α), P a l → l.foldlM f a = .ok (l.foldl g a)
  | [], _, _ => rfl
  | c :: l, a, ha => by
    obtain ⟨hc, ha'⟩ := hstep a c l ha
    rw [List.foldlM_cons, List.foldl_cons, hc]
    exact foldlM_eq_ok P hstep l (g a c) ha'

end except_fold
