-- Lists whose elements carry keys that no two of them share, as the queues of a
-- lock table do: writing to the element of one key in place, removing it, and
-- lists related element by element. Then lists of key-value pairs read with `List.lookup`, as
-- the field lists of a document and the tables built from them are: what `lookup` finds when
-- no two pairs share a key, and what appending a pair at the end does to it.
import Mathlib

namespace keyed_list

variable {α κ : Type*}

/-- No two elements of the list share a key. -/
def KeysDistinct (key : α → κ) (l : List α) : Prop := l.Pairwise fun a b => key a ≠ key b

/-- Apply `f` in place to the elements with key `k`. -/
def modifyAt [DecidableEq κ] (key : α → κ) (k : κ) (f : α → α) (l : List α) : List α :=
  l.map fun a => if key a == k then f a else a

variable {key : α → κ}

theorem KeysDistinct.nodup {l : List α} (h : KeysDistinct key l) : l.Nodup :=
  h.imp fun hab e => hab (congrArg key e)

theorem KeysDistinct.sublist {l l' : List α} (h : KeysDistinct key l') (s : List.Sublist l l') :
    KeysDistinct key l :=
  List.Pairwise.sublist s h

theorem KeysDistinct.eq_of_key_eq {l : List α} (h : KeysDistinct key l) {a b : α}
    (ha : a ∈ l) (hb : b ∈ l) (e : key a = key b) : a = b := by
  induction h with
  | nil => cases ha
  | @cons c l hc _ ih =>
    rcases List.mem_cons.mp ha with rfl | ha'
    · rcases List.mem_cons.mp hb with rfl | hb'
      · rfl
      · exact absurd e (hc b hb')
    · rcases List.mem_cons.mp hb with rfl | hb'
      · exact absurd e.symm (hc a ha')
      · exact ih ha' hb'

/-- In a list with distinct keys, erasing `x` removes exactly the element of its key. -/
theorem KeysDistinct.mem_erase_iff [DecidableEq α] {l : List α} (h : KeysDistinct key l) {x y : α}
    (hx : x ∈ l) : y ∈ l.erase x ↔ y ∈ l ∧ key y ≠ key x := by
  rw [h.nodup.mem_erase_iff]
  constructor
  · rintro ⟨hne, hy⟩
    exact ⟨hy, fun e => hne (h.eq_of_key_eq hy hx e)⟩
  · rintro ⟨hy, hne⟩
    exact ⟨fun e => hne (congrArg key e), hy⟩

/-- Distinct keys depend only on the keys, in any order. -/
theorem KeysDistinct.of_map_perm {l l' : List α} (h : KeysDistinct key l)
    (hp : (l'.map key).Perm (l.map key)) : KeysDistinct key l' := by
  have hm : (l.map key).Pairwise (· ≠ ·) := List.pairwise_map.mpr h
  exact List.pairwise_map.mp (hp.symm.pairwise hm fun e => Ne.symm e)

theorem modifyAt_of_forall_ne [DecidableEq κ] {k : κ} (f : α → α) {l : List α} (h : ∀ a ∈ l, key a ≠ k) :
    modifyAt key k f l = l := by
  unfold modifyAt
  conv => rhs; rw [← List.map_id l]
  apply List.map_congr_left
  intro a ha
  simp [h a ha]

theorem erase_append_perm [DecidableEq α] {l : List α} {x : α} (hx : x ∈ l) :
    (l.erase x ++ [x]).Perm l :=
  (List.perm_append_singleton x _).trans (List.perm_cons_erase hx).symm

theorem modifyAt_append_cons [DecidableEq κ] (k : κ) (f : α → α) (A B : List α) (x : α) :
    modifyAt key k f (A ++ x :: B) =
      modifyAt key k f A ++ (if key x == k then f x else x) :: modifyAt key k f B := by
  simp [modifyAt]

/-- Writing to the element of key `key x` rewrites `x` where it stands. -/
theorem modifyAt_eq_split [DecidableEq κ] {l : List α} (hl : KeysDistinct key l) {x : α}
    (hx : x ∈ l) (f : α → α) :
    ∃ A B, l = A ++ x :: B ∧ modifyAt key (key x) f l = A ++ f x :: B := by
  obtain ⟨A, B, rfl⟩ := List.append_of_mem hx
  have hsplit := List.pairwise_append.mp hl
  have hA : ∀ a ∈ A, key a ≠ key x := fun a ha => hsplit.2.2 a ha x List.mem_cons_self
  have hB : ∀ b ∈ B, key b ≠ key x := fun b hb => Ne.symm (List.rel_of_pairwise_cons hsplit.2.1 hb)
  refine ⟨A, B, rfl, ?_⟩
  rw [modifyAt_append_cons, modifyAt_of_forall_ne f hA, modifyAt_of_forall_ne f hB, beq_self_eq_true,
    if_pos rfl]

/-- Rewriting `x` to `y` where it stands, as a balance of lists. -/
theorem replace_append_perm (A B : List α) (x y : α) :
    ((A ++ y :: B) ++ [x]).Perm ((A ++ x :: B) ++ [y]) := by
  have h₁ : ((A ++ y :: B) ++ [x]).Perm (x :: y :: (A ++ B)) :=
    (List.perm_append_singleton x _).trans (List.perm_middle.cons x)
  have h₂ : ((A ++ x :: B) ++ [y]).Perm (y :: x :: (A ++ B)) :=
    (List.perm_append_singleton y _).trans (List.perm_middle.cons y)
  exact h₁.trans ((List.Perm.swap y x _).trans h₂.symm)

/-! ## Lists related element by element -/

theorem map_eq_of_forall₂ {R : α → α → Prop} {l' l : List α} (h : List.Forall₂ R l' l)
    (hR : ∀ a b, R a b → key a = key b) : l'.map key = l.map key := by
  induction h with
  | nil => rfl
  | cons hab _ ih => rw [List.map_cons, List.map_cons, hR _ _ hab, ih]

/-- A property that passes along the relation passes from a list to its image. -/
theorem exists_mem_of_forall₂ {R : α → α → Prop} {P : α → Prop} {l' l : List α}
    (h : List.Forall₂ R l' l) (hR : ∀ a b, R a b → P b → P a) :
    (∃ b ∈ l, P b) → ∃ a ∈ l', P a := by
  induction h with
  | nil => simp
  | @cons a b l' l hab _ ih =>
    rintro ⟨c, hc, hp⟩
    rcases List.mem_cons.mp hc with rfl | hc'
    · exact ⟨a, List.mem_cons_self, hR a c hab hp⟩
    · obtain ⟨d, hd, hpd⟩ := ih ⟨c, hc', hp⟩
      exact ⟨d, List.mem_cons_of_mem a hd, hpd⟩

end keyed_list

/-! ## Association lists -/

namespace assoc_list

variable {α β : Type*} [BEq α] [LawfulBEq α]

theorem lookup_cons_of_ne {k a : α} (h : k ≠ a) (value : β) (l : List (α × β)) :
    ((a, value) :: l).lookup k = l.lookup k := by
  have hbeq : (k == a) = false := by simpa using h
  rw [List.lookup_cons, hbeq]

theorem lookup_eq_none_of_not_mem {l : List (α × β)} {k : α} (h : k ∉ l.map Prod.fst) :
    l.lookup k = none := by
  induction l with
  | nil => rfl
  | cons p l ih =>
    obtain ⟨a, v⟩ := p
    simp only [List.map_cons, List.mem_cons, not_or] at h
    rw [lookup_cons_of_ne h.1, ih h.2]

/-- In a list whose keys are distinct, `lookup` finds exactly the pairs of the list. -/
theorem lookup_eq_some_iff {l : List (α × β)} (hnd : (l.map Prod.fst).Nodup) {k : α}
    {value : β} : l.lookup k = some value ↔ (k, value) ∈ l := by
  induction l with
  | nil => simp
  | cons p l ih =>
    obtain ⟨a, v⟩ := p
    simp only [List.map_cons, List.nodup_cons] at hnd
    by_cases hk : k = a
    · subst hk
      have hnot : ∀ w, (k, w) ∉ l := fun w hw => hnd.1 (List.mem_map.2 ⟨_, hw, rfl⟩)
      simp [hnot, eq_comm]
    · simp [lookup_cons_of_ne hk, ih hnd.2, hk]

/-- A pair appended at the end leaves what `lookup` finds under every other key. -/
theorem lookup_append_singleton_of_ne (l : List (α × β)) {k a : α} (h : k ≠ a) (value : β) :
    (l ++ [(a, value)]).lookup k = l.lookup k := by
  rw [List.lookup_append, lookup_cons_of_ne h]
  exact Option.or_none

/-- A pair appended at the end is found under its key when no pair before has that key. -/
theorem lookup_append_singleton_self {l : List (α × β)} {a : α} (h : l.lookup a = none)
    (value : β) : (l ++ [(a, value)]).lookup a = some value := by
  simp [List.lookup_append, h]

end assoc_list
