-- What a refresh makes of the routing table: `createMerged` over a table that tiles the key
-- space, with changed chunks that tile what they replace, keeps every changed chunk and exactly
-- the old chunks that no changed chunk overlaps, in key order, so the result tiles the key
-- space again. The loop's order of appends is `mergeOrder`: an old chunk comes before a changed
-- one exactly when it ends where the changed one starts or before. `appendChunkTo` then drops an
-- old chunk right after the last changed chunk that overlaps it, as that one is not older.
import PerconaMongo.Sharding.ChunkMap

namespace mongo

open tiling

/-! ## Versions within an epoch -/

namespace ChunkVersion

/-- Within an epoch a version is older than another exactly when its major and minor versions
come first in lexicographic order. -/
theorem isOlderThan_iff {v w : ChunkVersion} :
    v.isOlderThan w = true ↔
      v.epoch = w.epoch ∧ (v.major < w.major ∨ v.major = w.major ∧ v.minor < w.minor) := by
  unfold isOlderThan
  by_cases he : w.epoch = v.epoch
  · by_cases hm : v.major = w.major
    · simp [he, hm]
    · simp [he, hm]
  · simp [he, Ne.symm he]

theorem isOlderThan_irrefl (v : ChunkVersion) : v.isOlderThan v = false := by
  simp [isOlderThan]

theorem not_isOlderThan_iff {v w : ChunkVersion} :
    v.isOlderThan w = false ↔
      (v.epoch = w.epoch → w.major < v.major ∨ w.major = v.major ∧ w.minor ≤ v.minor) := by
  rw [← Bool.not_eq_true, isOlderThan_iff]
  constructor
  · intro h he
    by_contra h'
    exact h ⟨he, by omega⟩
  · rintro h ⟨he, hlt⟩
    have := h he
    omega

/-- A version newer than one that is not older than a third is not older than it either. -/
theorem not_isOlderThan_of_isOlderThan {u v w : ChunkVersion} (huv : u.isOlderThan v = true)
    (huw : u.isOlderThan w = false) : v.isOlderThan w = false := by
  rw [isOlderThan_iff] at huv
  rw [not_isOlderThan_iff] at huw ⊢
  intro he
  have := huw (huv.1.trans he)
  omega

theorem eq_of_not_isOlderThan {v w : ChunkVersion} (he : v.epoch = w.epoch)
    (h₁ : v.isOlderThan w = false) (h₂ : w.isOlderThan v = false) : v = w := by
  rw [not_isOlderThan_iff] at h₁ h₂
  have h₁ := h₁ he
  have h₂ := h₂ he.symm
  cases v
  cases w
  simp only at he h₁ h₂
  simp only [mk.injEq]
  omega

theorem not_isOlderThan_of_isOlderOrEqualThan {v w : ChunkVersion}
    (h : v.isOlderOrEqualThan w = true) : w.isOlderThan v = false := by
  unfold isOlderOrEqualThan at h
  rcases Bool.or_eq_true_iff.mp h with h | h
  · rw [isOlderThan_iff] at h
    rw [not_isOlderThan_iff]
    intro _
    omega
  · rw [beq_iff_eq] at h
    rw [h]
    exact isOlderThan_irrefl w

/-- "Not older" is transitive within an epoch. -/
theorem not_isOlderThan_trans {u v w : ChunkVersion} (hv : u.epoch = v.epoch)
    (huv : u.isOlderThan v = false) (hvw : v.isOlderThan w = false) : u.isOlderThan w = false := by
  rw [not_isOlderThan_iff] at huv hvw ⊢
  intro he
  have := huv hv
  have := hvw (hv.symm.trans he)
  omega

/-- A version not older than a set one of its epoch is set. -/
theorem isSet_of_not_isOlderThan {v w : ChunkVersion} (he : v.epoch = w.epoch)
    (h : v.isOlderThan w = false) (hw : w.isSet = true) : v.isSet = true := by
  rw [not_isOlderThan_iff] at h
  have := h he
  simp only [isSet, Bool.or_eq_true, decide_eq_true_eq] at hw ⊢
  omega

end ChunkVersion

variable {κ σ : Type} [LinearOrder κ]

/-! ## The newest version of a list of chunks -/

@[simp]
theorem maxShardVersionStep_epoch (v : ChunkVersion) (c : ChunkInfo κ σ) :
    (maxShardVersionStep v c).epoch = v.epoch := by
  unfold maxShardVersionStep
  split_ifs with h
  · exact ((ChunkVersion.isOlderThan_iff.mp h).1).symm
  · rfl

theorem foldl_maxShardVersionStep_epoch (l : List (ChunkInfo κ σ)) (v : ChunkVersion) :
    (l.foldl maxShardVersionStep v).epoch = v.epoch := by
  induction l generalizing v with
  | nil => rfl
  | cons c l ih => rw [List.foldl_cons, ih, maxShardVersionStep_epoch]

/-- One step keeps a version not older than both the version so far and the chunk's. -/
theorem maxShardVersionStep_not_isOlderThan (v : ChunkVersion) (c : ChunkInfo κ σ) :
    (maxShardVersionStep v c).isOlderThan v = false ∧
      (maxShardVersionStep v c).isOlderThan c.lastmod = false := by
  unfold maxShardVersionStep
  split_ifs with h
  · exact ⟨ChunkVersion.not_isOlderThan_of_isOlderThan h (ChunkVersion.isOlderThan_irrefl v),
      ChunkVersion.isOlderThan_irrefl _⟩
  · exact ⟨ChunkVersion.isOlderThan_irrefl v, Bool.eq_false_iff.mpr h⟩

/-- The fold ends with a version not older than the start or any chunk's. -/
theorem foldl_maxShardVersionStep_not_isOlderThan (l : List (ChunkInfo κ σ)) (v : ChunkVersion) :
    (l.foldl maxShardVersionStep v).isOlderThan v = false ∧
      ∀ c ∈ l, (l.foldl maxShardVersionStep v).isOlderThan c.lastmod = false := by
  induction l generalizing v with
  | nil => exact ⟨ChunkVersion.isOlderThan_irrefl v, by simp⟩
  | cons c l ih =>
    obtain ⟨hv, hc⟩ := maxShardVersionStep_not_isOlderThan v c
    obtain ⟨ih₁, ih₂⟩ := ih (maxShardVersionStep v c)
    -- the result has the epoch of the step, so "not older" chains through it
    have he : (l.foldl maxShardVersionStep (maxShardVersionStep v c)).epoch =
        (maxShardVersionStep v c).epoch := foldl_maxShardVersionStep_epoch l _
    rw [List.foldl_cons]
    refine ⟨ChunkVersion.not_isOlderThan_trans he ih₁ hv, fun x hx => ?_⟩
    rcases List.mem_cons.mp hx with rfl | hx
    · exact ChunkVersion.not_isOlderThan_trans he ih₁ hc
    · exact ih₂ x hx

/-- The fold ends with the start or with one of the chunks' versions. -/
theorem foldl_maxShardVersionStep_mem (l : List (ChunkInfo κ σ)) (v : ChunkVersion) :
    l.foldl maxShardVersionStep v = v ∨ ∃ c ∈ l, c.lastmod = l.foldl maxShardVersionStep v := by
  induction l generalizing v with
  | nil => exact .inl rfl
  | cons c l ih =>
    rw [List.foldl_cons]
    rcases ih (maxShardVersionStep v c) with h | ⟨x, hx, hxe⟩
    · unfold maxShardVersionStep at h ⊢
      split_ifs at h ⊢
      · exact .inr ⟨c, by simp, h.symm⟩
      · exact .inl h
    · exact .inr ⟨x, by simp [hx], hxe⟩

/-! ## Appending chunks -/

namespace ChunkMap

@[simp]
theorem appendChunk_chunkMap (m : ChunkMap κ σ) (c : ChunkInfo κ σ) :
    (m.appendChunk c).chunkMap = appendChunkTo m.chunkMap c := rfl

@[simp]
theorem appendChunk_collectionVersion (m : ChunkMap κ σ) (c : ChunkInfo κ σ) :
    (m.appendChunk c).collectionVersion = maxShardVersionStep m.collectionVersion c := rfl

/-- Appending a list of chunks appends each to the chunks and takes the newest version. -/
theorem foldl_appendChunk (l : List (ChunkInfo κ σ)) (m : ChunkMap κ σ) :
    l.foldl appendChunk m =
      ⟨l.foldl appendChunkTo m.chunkMap, l.foldl maxShardVersionStep m.collectionVersion⟩ := by
  induction l generalizing m with
  | nil => rfl
  | cons c l ih => rw [List.foldl_cons, ih]; rfl

end ChunkMap

/-! ## The order of the appends -/

/-- The chunks in the order the loop of `createMerged` appends them, each marked changed
(`true`) or old (`false`). -/
def mergeOrder : List (ChunkInfo κ σ) → List (ChunkInfo κ σ) → List (Bool × ChunkInfo κ σ)
  | [], cs => cs.map ((true, ·))
  | old :: os, [] => (false, old) :: mergeOrder os []
  | old :: os, changed :: cs =>
    if old.range.overlaps changed.range then (true, changed) :: mergeOrder (old :: os) cs
    else (false, old) :: mergeOrder os (changed :: cs)
termination_by os cs => os.length + cs.length

/-- The loop validates the changed chunks in order and appends the chunks in `mergeOrder`; as
an append never fails, the first failed validation is its error. -/
theorem mergeLoop_eq (version : ChunkVersion) (os cs : List (ChunkInfo κ σ)) (m : ChunkMap κ σ) :
    mergeLoop version os cs m =
      (cs.forM fun c => validateChunk c version) >>= fun _ =>
        .ok ((mergeOrder os cs).foldl (fun m x => m.appendChunk x.2) m) := by
  fun_induction mergeLoop version os cs m with
  | case1 m => simp [mergeOrder, pure, Except.pure, bind, Except.bind]
  | case2 c cs m ih =>
    cases h : validateChunk c version <;> simp [h, ih, mergeOrder, bind, Except.bind]
  | case3 o os m ih => simp [ih, mergeOrder]
  | case4 o os c cs m hov ih =>
    cases h : validateChunk c version <;> simp [h, ih, mergeOrder, hov, bind, Except.bind]
  | case5 o os c cs m hov ih => simp [ih, mergeOrder, hov]

theorem mem_mergeOrder {os cs : List (ChunkInfo κ σ)} {x : Bool × ChunkInfo κ σ} :
    x ∈ mergeOrder os cs ↔ (x.1 = false ∧ x.2 ∈ os) ∨ (x.1 = true ∧ x.2 ∈ cs) := by
  obtain ⟨t, y⟩ := x
  fun_induction mergeOrder os cs with
  | case1 cs => cases t <;> simp
  | case2 o os ih => cases t <;> simp_all
  | case3 o os c cs _ ih => cases t <;> simp_all
  | case4 o os c cs _ ih => cases t <;> simp_all

theorem overlaps_comm (r r' : ChunkRange κ) : r.overlaps r' = r'.overlaps r := by
  simp [ChunkRange.overlaps, Bool.and_comm]

/-- Two nonempty ranges that do not overlap lie one before the other. -/
theorem le_of_not_overlaps {r r' : ChunkRange κ} (h : r.overlaps r' = false)
    (hlt : r.min < r'.max) : r.max ≤ r'.min := by
  simp only [ChunkRange.overlaps, Bool.and_eq_false_iff, decide_eq_false_iff_not, not_lt] at h
  rcases h with h | h
  · exact absurd hlt (not_lt.mpr h)
  · exact h

/-- How a chunk stands to a later one in the order of the appends: an old chunk after a changed
one ends above the changed one's min, any other pair is ordered by range. -/
def Before : Bool × ChunkInfo κ σ → Bool × ChunkInfo κ σ → Prop
  | (true, x), (false, y) => x.range.min < y.range.max
  | (_, x), (_, y) => x.range.max ≤ y.range.min

/-- The loop appends in range order: old chunks in order, changed chunks in order, an old chunk
before every changed chunk it ends before, a changed chunk before every old chunk it starts
in or before. The induction keeps the current changed chunk ending above the current old
chunk's min. -/
theorem mergeOrder_pairwise {os cs : List (ChunkInfo κ σ)}
    (hos : os.Pairwise fun x y => x.range.max ≤ y.range.min)
    (hchain : os.IsChain fun x y => x.range.max = y.range.min)
    (hcs : cs.Pairwise fun x y => x.range.max ≤ y.range.min)
    (hfront : ∀ o ∈ os.head?, ∀ c ∈ cs.head?, o.range.min < c.range.max) :
    (mergeOrder os cs).Pairwise Before := by
  fun_induction mergeOrder os cs with
  | case1 cs => exact List.pairwise_map.mpr (hcs.imp id)
  | case2 o os ih =>
    obtain ⟨ho, hos⟩ := List.pairwise_cons.mp hos
    refine List.pairwise_cons.mpr ⟨fun y hy => ?_, ih hos hchain.tail hcs (by simp)⟩
    obtain ⟨t, y⟩ := y
    rcases mem_mergeOrder.mp hy with ⟨rfl, hy⟩ | ⟨rfl, hy⟩
    · exact ho y hy
    · simp at hy
  | case3 o os c cs hov ih =>
    simp only [ChunkRange.overlaps, Bool.and_eq_true, decide_eq_true_eq] at hov
    obtain ⟨hc, hcs'⟩ := List.pairwise_cons.mp hcs
    refine List.pairwise_cons.mpr ⟨fun y hy => ?_, ih hos hchain hcs' ?_⟩
    · obtain ⟨t, y⟩ := y
      rcases mem_mergeOrder.mp hy with ⟨rfl, hy⟩ | ⟨rfl, hy⟩
      · -- an old chunk from the current one on ends at or above the current one's max
        show c.range.min < y.range.max
        rcases List.mem_cons.mp hy with rfl | hy
        · exact hov.2
        · have := List.rel_of_pairwise_cons hos hy
          exact hov.2.trans_le (this.trans y.min_lt_max.le)
      · exact hc y hy
    · intro o' ho' c' hc'
      simp only [List.head?_cons, Option.mem_def, Option.some.injEq] at ho'
      subst ho'
      exact hov.1.trans_le ((hc c' (List.mem_of_mem_head? hc')).trans c'.min_lt_max.le)
  | case4 o os c cs hov ih =>
    have hoc : o.range.max ≤ c.range.min := le_of_not_overlaps (by simpa using hov)
      (hfront o (by simp) c (by simp))
    obtain ⟨ho, hos'⟩ := List.pairwise_cons.mp hos
    obtain ⟨hc, _⟩ := List.pairwise_cons.mp hcs
    refine List.pairwise_cons.mpr ⟨fun y hy => ?_, ih hos' hchain.tail hcs ?_⟩
    · obtain ⟨t, y⟩ := y
      rcases mem_mergeOrder.mp hy with ⟨rfl, hy⟩ | ⟨rfl, hy⟩
      · exact ho y hy
      · show o.range.max ≤ y.range.min
        rcases List.mem_cons.mp hy with rfl | hy
        · exact hoc
        · exact hoc.trans (c.min_lt_max.le.trans (hc y hy))
    · -- the next old chunk starts where this one ends, at or below the changed one's min
      intro o' ho' c' hc'
      simp only [List.head?_cons, Option.mem_def, Option.some.injEq] at hc'
      subst hc'
      have hmeet : o.range.max = o'.range.min := by
        cases os with
        | nil => simp at ho'
        | cons o'' os =>
          simp only [List.head?_cons, Option.mem_def, Option.some.injEq] at ho'
          subst ho'
          exact (List.isChain_cons_cons.mp hchain).1
      exact hmeet ▸ hoc.trans_lt c.min_lt_max

/-! ## What the appends keep -/

/-- What the loop keeps: every changed chunk, and an old chunk that overlaps none. -/
def keeps (cs : List (ChunkInfo κ σ)) (x : Bool × ChunkInfo κ σ) : Bool :=
  x.1 || !cs.any fun c => x.2.range.overlaps c.range

theorem eq_or_rel_of_getLast? {α : Type} {R : α → α → Prop} {l : List α} {y z : α}
    (h : l.Pairwise R) (hy : l.getLast? = some y) (hz : z ∈ l) : z = y ∨ R z y := by
  have hne : l ≠ [] := List.ne_nil_of_mem hz
  rw [List.getLast?_eq_some_getLast hne, Option.some.injEq] at hy
  subst hy
  rw [← List.dropLast_concat_getLast hne, List.mem_append, List.mem_singleton] at hz
  rcases hz with hz | hz
  · exact .inr (h.rel_dropLast_getLast hz)
  · exact .inl hz

/-- A kept chunk before another kept one does not overlap it. -/
theorem not_overlaps_of_before {cs : List (ChunkInfo κ σ)} {y x : Bool × ChunkInfo κ σ}
    (hb : Before y x) (hy : y.1 = true → y.2 ∈ cs) (hx : keeps cs x = true) :
    x.2.range.overlaps y.2.range = false := by
  obtain ⟨t, y⟩ := y
  obtain ⟨u, x⟩ := x
  -- an old chunk after a changed one is kept only if it overlaps no changed chunk
  cases t <;> cases u <;> simp only [Before] at hb
  case true.false =>
    simp only [keeps, Bool.false_or, Bool.not_eq_true', List.any_eq_false] at hx
    exact Bool.eq_false_iff.mpr (hx y (hy rfl))
  all_goals simp [ChunkRange.overlaps, not_lt.mpr hb]

/-- An old chunk that overlaps a changed chunk appended before it finds the last chunk kept
so far changed and overlapping it: a changed chunk appended later still reaches it, and an old
chunk kept after the changed one would overlap that one. -/
theorem last_kept_overlaps {cs : List (ChunkInfo κ σ)} {P : List (Bool × ChunkInfo κ σ)}
    {o c : ChunkInfo κ σ} {y : Bool × ChunkInfo κ σ}
    (hP : (P ++ [(false, o)]).Pairwise Before) (htrue : ∀ x ∈ P, x.1 = true → x.2 ∈ cs)
    (hc : (true, c) ∈ P) (hoc : o.range.overlaps c.range = true)
    (hy : (P.filter (keeps cs)).getLast? = some y) :
    y.1 = true ∧ o.range.overlaps y.2.range = true := by
  have hF : (P.filter (keeps cs)).Pairwise Before := (List.pairwise_append.mp hP).1.filter _
  have hyP : y ∈ P := List.mem_of_mem_filter (List.mem_of_getLast? hy)
  have hyo : Before y (false, o) := (List.pairwise_append.mp hP).2.2 y hyP _ (by simp)
  have hckept : (true, c) ∈ P.filter (keeps cs) := List.mem_filter.mpr ⟨hc, by simp [keeps]⟩
  simp only [ChunkRange.overlaps, Bool.and_eq_true, decide_eq_true_eq] at hoc
  rcases eq_or_rel_of_getLast? hF hy hckept with rfl | hcy
  · exact ⟨rfl, by simpa [ChunkRange.overlaps] using hoc⟩
  · obtain ⟨t, y⟩ := y
    cases t
    case true =>
      simp only [Before] at hcy hyo
      refine ⟨rfl, ?_⟩
      simp only [ChunkRange.overlaps, Bool.and_eq_true, decide_eq_true_eq]
      exact ⟨hoc.1.trans_le (hcy.trans y.min_lt_max.le), hyo⟩
    case false =>
      -- `y` would overlap `c`, so it was not kept
      simp only [Before] at hcy hyo
      have hkept := (List.mem_filter.mp (List.mem_of_getLast? hy)).2
      simp only [keeps, Bool.false_or, Bool.not_eq_true', List.any_eq_false] at hkept
      have hov : y.range.overlaps c.range = true := by
        simp only [ChunkRange.overlaps, Bool.and_eq_true, decide_eq_true_eq]
        exact ⟨(y.min_lt_max.trans_le hyo).trans hoc.1, hcy⟩
      exact absurd hov (by simp [hkept c (htrue _ hc rfl)])

/-- Appending chunks in an order like the loop's keeps exactly the chunks `keeps` keeps: a kept
chunk meets a last chunk it does not overlap, and a dropped old chunk meets a changed one that
overlaps it and is not older. -/
theorem foldl_appendChunkTo_eq_filter {cs : List (ChunkInfo κ σ)}
    {A : List (Bool × ChunkInfo κ σ)} (hA : A.Pairwise Before)
    (htrue : ∀ x ∈ A, x.1 = true → x.2 ∈ cs)
    (hin : ∀ o c, (false, o) ∈ A → c ∈ cs → o.range.overlaps c.range = true → (true, c) ∈ A)
    (hver : ∀ o c, (false, o) ∈ A → (true, c) ∈ A → c.lastmod.isOlderThan o.lastmod = false) :
    (A.map Prod.snd).foldl appendChunkTo [] = (A.filter (keeps cs)).map Prod.snd := by
  induction A using List.reverseRecOn with
  | nil => rfl
  | append_singleton P x ih =>
    have hP : P.Pairwise Before := (List.pairwise_append.mp hA).1
    have hPx : ∀ y ∈ P, Before y x := fun y hy => (List.pairwise_append.mp hA).2.2 y hy x (by simp)
    -- an old chunk of `P` finds every changed chunk it overlaps in `P`, not at `x`
    have hinP : ∀ o c, (false, o) ∈ P → c ∈ cs → o.range.overlaps c.range = true →
        (true, c) ∈ P := by
      intro o c ho hc hoc
      rcases List.mem_append.mp (hin o c (by simp [ho]) hc hoc) with h | h
      · exact h
      · rw [List.mem_singleton] at h
        have hb := hPx _ ho
        rw [← h] at hb
        simp only [Before] at hb
        simp only [ChunkRange.overlaps, Bool.and_eq_true, decide_eq_true_eq] at hoc
        exact absurd hoc.2 (not_lt.mpr hb)
    rw [List.map_append, List.foldl_append, ih hP (fun y hy => htrue y (by simp [hy])) hinP
      (fun o c ho hc => hver o c (by simp [ho]) (by simp [hc])), List.filter_append,
      List.map_append]
    simp only [List.map_cons, List.map_nil, List.foldl_cons, List.foldl_nil, List.filter_cons,
      List.filter_nil]
    unfold appendChunkTo
    rw [List.getLast?_map]
    cases hkx : keeps cs x
    case true =>
      cases hy : (P.filter (keeps cs)).getLast? with
      | none => rfl
      | some y =>
        have hyP : y ∈ P := List.mem_of_mem_filter (List.mem_of_getLast? hy)
        simp only [Option.map_some, if_true, List.map_cons, List.map_nil,
          not_overlaps_of_before (hPx y hyP) (htrue y (by simp [hyP])) hkx]
        rfl
    case false =>
      -- a dropped chunk is old and overlaps a changed chunk appended before it
      obtain ⟨t, o⟩ := x
      simp only [keeps, Bool.or_eq_false_iff, Bool.not_eq_false', List.any_eq_true] at hkx
      obtain ⟨rfl, c, hc, hoc⟩ := hkx
      have hcP : (true, c) ∈ P := by
        simpa using hin o c (by simp) hc hoc
      have hne : P.filter (keeps cs) ≠ [] :=
        List.ne_nil_of_mem (List.mem_filter.mpr ⟨hcP, by simp [keeps]⟩)
      obtain ⟨y, hy⟩ := Option.ne_none_iff_exists'.mp (mt List.getLast?_eq_none_iff.mp hne)
      obtain ⟨ht, hoy⟩ := last_kept_overlaps hA (fun z hz => htrue z (by simp [hz])) hcP hoc hy
      have hyP : (true, y.2) ∈ P := by
        obtain ⟨t, y⟩ := y
        simp only at ht
        subst ht
        exact List.mem_of_mem_filter (List.mem_of_getLast? hy)
      -- the changed chunk is not older, so the old one is dropped
      have hold : y.2.lastmod.isOlderThan o.lastmod = false := hver o y.2 (by simp) (by simp [hyP])
      simp [hy, hoy, hold]

/-! ## The table after a refresh -/

/-- The bounds of a chunk, as `tiling` sees them. -/
abbrev chunkMin (c : ChunkInfo κ σ) : κ := c.range.min

abbrev chunkMax (c : ChunkInfo κ σ) : κ := c.range.max

/-- The invariant of every `ChunkMap` the server builds: its chunks have its epoch, and none is
newer than its collection version. -/
structure ChunkMap.Valid (m : ChunkMap κ σ) : Prop where
  epoch : ∀ c ∈ m.chunkMap, c.lastmod.epoch = m.collectionVersion.epoch
  newest : ∀ c ∈ m.chunkMap, m.collectionVersion.isOlderThan c.lastmod = false

/-- The chunks that `createMerged` keeps, in the loop's order. -/
def overlayChunks (olds changed : List (ChunkInfo κ σ)) : List (ChunkInfo κ σ) :=
  ((mergeOrder olds changed).filter (keeps changed)).map Prod.snd

theorem validateChunk_eq_ok {c : ChunkInfo κ σ} {v : ChunkVersion} :
    validateChunk c v = .ok () ↔ v.epoch = c.lastmod.epoch ∧ v.isOlderOrEqualThan c.lastmod = true := by
  unfold validateChunk
  by_cases he : v.epoch = c.lastmod.epoch <;> by_cases ho : v.isOlderOrEqualThan c.lastmod = true <;>
    simp [he, ho]

theorem forM_validateChunk_eq_ok {cs : List (ChunkInfo κ σ)} {v : ChunkVersion} :
    (cs.forM fun c => validateChunk c v) = .ok () ↔ ∀ c ∈ cs, validateChunk c v = .ok () := by
  induction cs with
  | nil => simp [List.forM, pure, Except.pure]
  | cons c cs ih =>
    simp only [List.forM, List.forall_mem_cons, ← ih]
    cases validateChunk c v <;> simp [bind, Except.bind]

/-- A validated changed chunk is not older than any chunk of a valid table. -/
theorem not_isOlderThan_of_validated {m : ChunkMap κ σ} (hm : m.Valid) {c o : ChunkInfo κ σ}
    (hc : validateChunk c m.collectionVersion = .ok ()) (ho : o ∈ m.chunkMap) :
    c.lastmod.isOlderThan o.lastmod = false := by
  obtain ⟨he, hle⟩ := validateChunk_eq_ok.mp hc
  -- the changed chunk is at least the collection version, which is at least the old chunk
  exact ChunkVersion.not_isOlderThan_trans he.symm
    (ChunkVersion.not_isOlderThan_of_isOlderOrEqualThan hle) (hm.newest o ho)

theorem mem_appendChunkTo {chunks : List (ChunkInfo κ σ)} {c x : ChunkInfo κ σ}
    (h : x ∈ appendChunkTo chunks c) : x ∈ chunks ∨ x = c := by
  unfold appendChunkTo at h
  split at h
  · split_ifs at h
    · rcases List.mem_append.mp h with h | h
      · exact .inl (List.dropLast_subset _ h)
      · exact .inr (List.mem_singleton.mp h)
    · exact .inl h
    · simpa using h
  · simpa using h

/-- `appendChunkTo` only ever keeps chunks it was given. -/
theorem mem_foldl_appendChunkTo {l acc : List (ChunkInfo κ σ)} {x : ChunkInfo κ σ}
    (h : x ∈ l.foldl appendChunkTo acc) : x ∈ acc ∨ x ∈ l := by
  induction l generalizing acc with
  | nil => exact .inl h
  | cons c l ih =>
    rcases ih h with h | h
    · rcases mem_appendChunkTo h with h | rfl
      · exact .inl h
      · exact .inr (by simp)
    · exact .inr (by simp [h])

namespace ChunkMap

/-- Once every changed chunk is validated, a refresh appends the chunks in `mergeOrder` to an
empty table of the collection's epoch. -/
theorem createMerged_eq_ok {m : ChunkMap κ σ} {cs : List (ChunkInfo κ σ)}
    (hv : ∀ c ∈ cs, validateChunk c m.collectionVersion = .ok ()) :
    m.createMerged cs = .ok ⟨((mergeOrder m.chunkMap cs).map Prod.snd).foldl appendChunkTo [],
      ((mergeOrder m.chunkMap cs).map Prod.snd).foldl maxShardVersionStep
        ⟨0, 0, m.collectionVersion.epoch⟩⟩ := by
  rw [createMerged, mergeLoop_eq, forM_validateChunk_eq_ok.mpr hv, ← List.foldl_map,
    foldl_appendChunk]
  rfl

/-- A refresh that succeeds has validated every changed chunk. -/
theorem validateChunk_of_createMerged {m r : ChunkMap κ σ} {cs : List (ChunkInfo κ σ)}
    (h : m.createMerged cs = .ok r) : ∀ c ∈ cs, validateChunk c m.collectionVersion = .ok () := by
  rw [createMerged, mergeLoop_eq] at h
  apply forM_validateChunk_eq_ok.mp
  cases hf : (cs.forM fun c => validateChunk c m.collectionVersion) with
  | error e => simp [hf, bind, Except.bind] at h
  | ok u => rfl

/-- The chunks a refresh appends have the collection's epoch. -/
theorem epoch_of_mem_mergeOrder {m : ChunkMap κ σ} {cs : List (ChunkInfo κ σ)} (hm : m.Valid)
    (hv : ∀ c ∈ cs, validateChunk c m.collectionVersion = .ok ()) {x : ChunkInfo κ σ}
    (hx : x ∈ (mergeOrder m.chunkMap cs).map Prod.snd) :
    x.lastmod.epoch = m.collectionVersion.epoch := by
  obtain ⟨⟨t, y⟩, hy, rfl⟩ := List.mem_map.mp hx
  rcases mem_mergeOrder.mp hy with ⟨-, hy⟩ | ⟨-, hy⟩
  · exact hm.epoch y hy
  · exact (validateChunk_eq_ok.mp (hv y hy)).1.symm

/-- A refresh keeps the table's invariant: the result's chunks were all appended, in the
collection's epoch, and the version follows the newest of them. -/
theorem createMerged_valid {m r : ChunkMap κ σ} {cs : List (ChunkInfo κ σ)} (hm : m.Valid)
    (h : m.createMerged cs = .ok r) : r.Valid := by
  have hv := validateChunk_of_createMerged h
  rw [createMerged_eq_ok hv, Except.ok.injEq] at h
  subst h
  constructor
  · intro c hc
    rw [foldl_maxShardVersionStep_epoch]
    rcases mem_foldl_appendChunkTo hc with hc | hc
    · simp at hc
    · exact epoch_of_mem_mergeOrder hm hv hc
  · intro c hc
    rcases mem_foldl_appendChunkTo hc with hc | hc
    · simp at hc
    · exact (foldl_maxShardVersionStep_not_isOlderThan _ _).2 c hc

end ChunkMap

/-! ## The overlay tiles the key space -/

theorem mem_overlayChunks {os cs : List (ChunkInfo κ σ)} {z : ChunkInfo κ σ} :
    z ∈ overlayChunks os cs ↔
      z ∈ cs ∨ z ∈ os ∧ ∀ c ∈ cs, z.range.overlaps c.range = false := by
  unfold overlayChunks
  simp only [List.mem_map, List.mem_filter, Prod.exists, exists_eq_right]
  constructor
  · rintro ⟨t, hz, hk⟩
    rcases mem_mergeOrder.mp hz with ⟨rfl, hz⟩ | ⟨rfl, hz⟩
    · simp only [keeps, Bool.false_or, Bool.not_eq_eq_eq_not, Bool.not_true,
        List.any_eq_false] at hk
      exact .inr ⟨hz, fun c hc => Bool.eq_false_iff.mpr (hk c hc)⟩
    · exact .inl hz
  · rintro (hz | ⟨hz, hno⟩)
    · exact ⟨true, mem_mergeOrder.mpr (.inr ⟨rfl, hz⟩), rfl⟩
    · refine ⟨false, mem_mergeOrder.mpr (.inl ⟨rfl, hz⟩), ?_⟩
      simpa [keeps] using hno

/-- Of two kept chunks the earlier ends before the later starts. -/
theorem le_of_before_of_keeps {cs : List (ChunkInfo κ σ)} {y x : Bool × ChunkInfo κ σ}
    (hb : Before y x) (hy : y.1 = true → y.2 ∈ cs) (hx : keeps cs x = true) :
    y.2.range.max ≤ x.2.range.min := by
  obtain ⟨t, y⟩ := y
  obtain ⟨u, x⟩ := x
  cases t <;> cases u <;> simp only [Before] at hb
  case true.false =>
    -- the old chunk after a changed one overlaps no changed chunk
    apply le_of_not_overlaps _ hb
    rw [overlaps_comm]
    exact not_overlaps_of_before (y := (true, y)) (x := (false, x)) hb hy hx
  all_goals exact hb

theorem overlayChunks_pairwise {os cs : List (ChunkInfo κ σ)}
    (hA : (mergeOrder os cs).Pairwise Before) :
    (overlayChunks os cs).Pairwise fun x y => x.range.max ≤ y.range.min := by
  unfold overlayChunks
  apply List.pairwise_map.mpr
  apply (hA.filter _).imp_of_mem
  intro y x hy _ hb
  apply le_of_before_of_keeps hb _ (List.mem_filter.mp ‹x ∈ _›).2
  intro ht
  rcases mem_mergeOrder.mp (List.mem_of_mem_filter hy) with ⟨h, -⟩ | ⟨-, h⟩
  · simp [h] at ht
  · exact h

/-- The changed chunks hold exactly the keys of the old chunks they overlap. -/
def CoversOverlapped (os cs : List (ChunkInfo κ σ)) : Prop :=
  ∀ k, (∃ c ∈ cs, Holds chunkMin chunkMax c k) ↔
    ∃ o ∈ os, Holds chunkMin chunkMax o k ∧ ∃ c ∈ cs, o.range.overlaps c.range = true

theorem overlaps_of_holds {x y : ChunkInfo κ σ} {k : κ} (hx : Holds chunkMin chunkMax x k)
    (hy : Holds chunkMin chunkMax y k) : x.range.overlaps y.range = true := by
  simp only [ChunkRange.overlaps, Bool.and_eq_true, decide_eq_true_eq]
  exact ⟨hx.1.trans_lt hy.2, hy.1.trans_lt hx.2⟩

section Overlay

variable {os cs : List (ChunkInfo κ σ)} {lo hi : κ}

/-- A changed chunk starts within the old chunks' range, as its min is one of their keys. -/
theorem lo_le_of_covers (ht : Tiles chunkMin chunkMax lo hi os) (hcov : CoversOverlapped os cs)
    {c : ChunkInfo κ σ} (hc : c ∈ cs) : lo ≤ c.range.min := by
  obtain ⟨o, ho, hok, -⟩ := (hcov c.range.min).mp ⟨c, hc, le_rfl, c.min_lt_max⟩
  exact ((ht.holds_iff _).mp ⟨o, ho, hok⟩).1

theorem mergeOrder_pairwise_of_tiles (ht : Tiles chunkMin chunkMax lo hi os)
    (hcs : cs.Pairwise fun x y => x.range.max ≤ y.range.min) (hlo : ∀ c ∈ cs, lo ≤ c.range.min) :
    (mergeOrder os cs).Pairwise Before := by
  apply mergeOrder_pairwise ht.pairwise ht.chain hcs
  intro o ho c hc
  -- the first old chunk starts the range, where no changed chunk ends
  exact lt_of_eq_of_lt (ht.head_lo o ho) ((hlo c (List.mem_of_mem_head? hc)).trans_lt c.min_lt_max)

/-- The overlay holds the keys of the range: an old chunk that a changed one overlaps hands its
keys to the changed chunks. -/
theorem holds_overlayChunks_iff (ht : Tiles chunkMin chunkMax lo hi os)
    (hcov : CoversOverlapped os cs) (k : κ) :
    (∃ z ∈ overlayChunks os cs, Holds chunkMin chunkMax z k) ↔ lo ≤ k ∧ k < hi := by
  rw [← ht.holds_iff k]
  constructor
  · rintro ⟨z, hz, hzk⟩
    rcases mem_overlayChunks.mp hz with hz | ⟨hz, -⟩
    · obtain ⟨o, ho, hok, -⟩ := (hcov k).mp ⟨z, hz, hzk⟩
      exact ⟨o, ho, hok⟩
    · exact ⟨z, hz, hzk⟩
  · rintro ⟨o, ho, hok⟩
    by_cases hov : ∃ c ∈ cs, o.range.overlaps c.range = true
    · obtain ⟨c, hc, hck⟩ := (hcov k).mpr ⟨o, ho, hok, hov⟩
      exact ⟨c, mem_overlayChunks.mpr (.inl hc), hck⟩
    · simp only [not_exists, not_and, Bool.not_eq_true] at hov
      exact ⟨o, mem_overlayChunks.mpr (.inr ⟨ho, hov⟩), hok⟩

/-- The overlay tiles the range the old chunks tiled. -/
theorem overlayChunks_tiles (ht : Tiles chunkMin chunkMax lo hi os)
    (hcs : cs.Pairwise fun x y => x.range.max ≤ y.range.min) (hcov : CoversOverlapped os cs) :
    Tiles chunkMin chunkMax lo hi (overlayChunks os cs) := by
  have hcover := holds_overlayChunks_iff ht hcov
  apply tiles_of_cover
    (overlayChunks_pairwise (mergeOrder_pairwise_of_tiles ht hcs fun c hc => lo_le_of_covers ht hcov hc))
  · intro x _
    exact x.min_lt_max
  · obtain ⟨z, hz, -⟩ := (hcover lo).mpr ⟨le_rfl, ht.lt⟩
    exact List.ne_nil_of_mem hz
  · exact hcover

end Overlay

/-! ## Versions and owners after a refresh -/

/-- `v` is the newest version among the chunks of `chunks` that `p` selects: the version of one
of them, and not older than any. -/
def IsNewest (p : ChunkInfo κ σ → Prop) (chunks : List (ChunkInfo κ σ)) (v : ChunkVersion) :
    Prop :=
  (∃ c ∈ chunks, p c ∧ c.lastmod = v) ∧ ∀ c ∈ chunks, p c → v.isOlderThan c.lastmod = false

/-- Folding in a chunk of the start's epoch ends with a set version, as chunk versions are set. -/
theorem foldl_maxShardVersionStep_isSet {l : List (ChunkInfo κ σ)} {v : ChunkVersion}
    {c : ChunkInfo κ σ} (hc : c ∈ l) (he : v.epoch = c.lastmod.epoch) :
    (l.foldl maxShardVersionStep v).isSet = true := by
  apply ChunkVersion.isSet_of_not_isOlderThan _
    ((foldl_maxShardVersionStep_not_isOlderThan l v).2 c hc) c.lastmod_isSet
  rw [foldl_maxShardVersionStep_epoch, he]

theorem mem_mergeOrder_of_mem_overlayChunks {os cs : List (ChunkInfo κ σ)} {z : ChunkInfo κ σ}
    (hz : z ∈ overlayChunks os cs) : z ∈ (mergeOrder os cs).map Prod.snd :=
  ((List.filter_sublist).map _).subset hz

/-- A chunk the loop appends and the overlay drops is old and overlaps a changed chunk. -/
theorem dropped_overlaps {os cs : List (ChunkInfo κ σ)} {t : Bool} {x : ChunkInfo κ σ}
    (hx : (t, x) ∈ mergeOrder os cs) (hkept : x ∉ overlayChunks os cs) :
    x ∈ os ∧ ∃ c ∈ cs, x.range.overlaps c.range = true := by
  rcases mem_mergeOrder.mp hx with ⟨-, hxo⟩ | ⟨-, hxc⟩
  · refine ⟨hxo, ?_⟩
    by_contra hno
    simp only [not_exists, not_and, Bool.not_eq_true] at hno
    exact hkept (mem_overlayChunks.mpr (.inr ⟨hxo, hno⟩))
  · exact absurd (mem_overlayChunks.mpr (.inl hxc)) hkept

section Refresh

/-! A refresh of a valid table that tiles `[lo, hi)`, by changed chunks in key order that
cover exactly the old chunks they overlap and all pass validation. -/

variable {m : ChunkMap κ σ} {cs : List (ChunkInfo κ σ)} {lo hi : κ} (hm : m.Valid)
  (ht : Tiles chunkMin chunkMax lo hi m.chunkMap)
  (hcs : cs.Pairwise fun x y => x.range.max ≤ y.range.min)
  (hcov : CoversOverlapped m.chunkMap cs)
  (hv : ∀ c ∈ cs, validateChunk c m.collectionVersion = .ok ())
include hm ht hcs hcov hv

/-- The refresh yields the overlay, with the newest version among the chunks appended. -/
theorem ChunkMap.createMerged_eq_overlay :
    m.createMerged cs = .ok ⟨overlayChunks m.chunkMap cs,
      ((mergeOrder m.chunkMap cs).map Prod.snd).foldl maxShardVersionStep
        ⟨0, 0, m.collectionVersion.epoch⟩⟩ := by
  rw [createMerged_eq_ok hv]
  congr
  apply foldl_appendChunkTo_eq_filter
    (mergeOrder_pairwise_of_tiles ht hcs fun c hc => lo_le_of_covers ht hcov hc)
  · intro x hx h1
    rcases mem_mergeOrder.mp hx with ⟨h, -⟩ | ⟨-, h⟩
    · simp [h] at h1
    · exact h
  · intro o c _ hc _
    exact mem_mergeOrder.mpr (.inr ⟨rfl, hc⟩)
  · intro o c ho hc
    rcases mem_mergeOrder.mp ho with ⟨-, ho⟩ | ⟨h, -⟩
    · rcases mem_mergeOrder.mp hc with ⟨h, -⟩ | ⟨-, hc⟩
      · cases h
      · exact not_isOlderThan_of_validated hm (hv c hc) ho
    · cases h

/-- The version the refresh computes is the newest of the chunks it keeps: the empty table's
0|0 cannot survive a set chunk of its epoch, and an old chunk that was dropped hands its version
to a changed chunk that overlaps it, which is not older. -/
theorem overlay_isNewest :
    IsNewest (fun _ => True) (overlayChunks m.chunkMap cs)
      (((mergeOrder m.chunkMap cs).map Prod.snd).foldl maxShardVersionStep
        ⟨0, 0, m.collectionVersion.epoch⟩) := by
  set A := (mergeOrder m.chunkMap cs).map Prod.snd
  set V := A.foldl maxShardVersionStep ⟨0, 0, m.collectionVersion.epoch⟩
  have hnewest : ∀ c ∈ A, V.isOlderThan c.lastmod = false :=
    (foldl_maxShardVersionStep_not_isOlderThan A _).2
  have hepoch : ∀ c ∈ A, V.epoch = c.lastmod.epoch := by
    intro c hc
    rw [foldl_maxShardVersionStep_epoch, ChunkMap.epoch_of_mem_mergeOrder hm hv hc]
  refine ⟨?_, fun c hc _ => hnewest c (mem_mergeOrder_of_mem_overlayChunks hc)⟩
  rcases foldl_maxShardVersionStep_mem A _ with h0 | ⟨x, hx, hxV⟩
  · exfalso
    obtain ⟨z, hz⟩ := List.exists_mem_of_ne_nil _ (overlayChunks_tiles ht hcs hcov).ne_nil
    have hzA := mem_mergeOrder_of_mem_overlayChunks hz
    have hset : V.isSet = true :=
      foldl_maxShardVersionStep_isSet hzA (ChunkMap.epoch_of_mem_mergeOrder hm hv hzA).symm
    rw [show V = _ from h0] at hset
    simp [ChunkVersion.isSet] at hset
  · obtain ⟨⟨t, x⟩, hxo, rfl⟩ := List.mem_map.mp hx
    by_cases hkept : x ∈ overlayChunks m.chunkMap cs
    · exact ⟨x, hkept, trivial, hxV⟩
    · obtain ⟨hxold, c, hc, -⟩ := dropped_overlaps hxo hkept
      have hcA : c ∈ A := mem_mergeOrder_of_mem_overlayChunks (mem_overlayChunks.mpr (.inl hc))
      refine ⟨c, mem_overlayChunks.mpr (.inl hc), trivial, ?_⟩
      apply ChunkVersion.eq_of_not_isOlderThan (hepoch c hcA).symm
      · rw [show V = x.lastmod from hxV.symm]
        exact not_isOlderThan_of_validated hm (hv c hc) hxold
      · exact hnewest c hcA

/-- Each key of the range belongs, in the refreshed table, to a chunk that holds it and is not
older than any old or changed chunk that holds it. -/
theorem overlay_owner {k : κ} (hlo : lo ≤ k) (hhi : k < hi) :
    ∃ z, (overlayChunks m.chunkMap cs).find? (fun c => decide (k < c.range.max)) = some z ∧
      Holds chunkMin chunkMax z k ∧ (z ∈ m.chunkMap ∨ z ∈ cs) ∧
      ∀ x ∈ m.chunkMap ++ cs, Holds chunkMin chunkMax x k → z.lastmod.isOlderThan x.lastmod = false := by
  obtain ⟨z, hfind, hzk⟩ := (overlayChunks_tiles ht hcs hcov).find?_holds hlo hhi
  have hz := mem_overlayChunks.mp (List.mem_of_find?_eq_some hfind)
  refine ⟨z, hfind, hzk, hz.elim .inr fun h => .inl h.1, ?_⟩
  intro x hx hxk
  rcases hz with hzc | ⟨hzo, hno⟩ <;> rcases List.mem_append.mp hx with hxo | hxc
  · exact not_isOlderThan_of_validated hm (hv z hzc) hxo
  · -- changed chunks do not share keys
    rw [eq_of_holds_of_pairwise hcs hxc hzc hxk hzk]
    exact ChunkVersion.isOlderThan_irrefl _
  · rw [ht.eq_of_holds hxo hzo hxk hzk]
    exact ChunkVersion.isOlderThan_irrefl _
  · -- a kept old chunk overlaps no changed chunk, so none holds its keys
    exact absurd (overlaps_of_holds hzk hxk) (by simp [hno x hxc])

end Refresh

end mongo
