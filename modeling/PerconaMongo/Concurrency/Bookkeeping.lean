-- The bookkeeping of a lock head: `grantedCounts`, `conflictCounts`, their masks,
-- `conversionsCount` and `compatibleFirstCount` agree with the requests on the two
-- queues (`Counted`). Once they do, a test of a mask is a statement about the queue.
import PerconaMongo.Concurrency.LockManager

namespace mongo.lock_manager

open LockRequest.Status LockResult keyed_list

/-! ## What the counts count -/

/-- The count that `grantedCounts[m]` keeps: the requests of the queue holding `m`, and the
conversions to `m`. -/
def grantedCountOf (l : List LockRequest) (m : LockMode) : Nat :=
  l.countP (fun r => r.mode == m) +
    l.countP (fun r => r.status == STATUS_CONVERTING && r.convertMode == m)

/-- The count that `conflictCounts[m]` keeps. -/
def conflictCountOf (l : List LockRequest) (m : LockMode) : Nat := l.countP fun r => r.mode == m

/-- The counters of the granted queue agree with the list `l`. -/
structure GrantedCounted (h : LockHead) (l : List LockRequest) : Prop where
  counts : ∀ m, h.grantedCounts m = grantedCountOf l m
  modes : MaskOfCounts h.grantedCounts h.grantedModes
  conversions : h.conversionsCount = l.countP fun r => r.status == STATUS_CONVERTING
  compatibleFirst : h.compatibleFirstCount = l.countP (·.compatibleFirst)

/-- The counters of the conflict queue agree with the list `l`. -/
structure ConflictCounted (h : LockHead) (l : List LockRequest) : Prop where
  counts : ∀ m, h.conflictCounts m = conflictCountOf l m
  modes : MaskOfCounts h.conflictCounts h.conflictModes

/-- The bookkeeping invariant of a lock head. -/
structure LockHead.Counted (h : LockHead) : Prop where
  granted : GrantedCounted h h.grantedList
  conflict : ConflictCounted h h.conflictList

/-- A request of the granted queue blocks mode `m`: its mode, or the mode it converts to,
conflicts with `m`. -/
def conflictsHeld (m : LockMode) (q : LockRequest) : Bool :=
  conflictsWith m q.mode || (q.status == STATUS_CONVERTING && conflictsWith m q.convertMode)

theorem grantedCountOf_append (l l' : List LockRequest) (m : LockMode) :
    grantedCountOf (l ++ l') m = grantedCountOf l m + grantedCountOf l' m := by
  simp only [grantedCountOf, List.countP_append]
  omega

theorem grantedCountOf_perm {l l' : List LockRequest} (hp : l.Perm l') (m : LockMode) :
    grantedCountOf l m = grantedCountOf l' m := by
  simp only [grantedCountOf, hp.countP_eq]

theorem grantedCountOf_pos_iff (l : List LockRequest) (m : LockMode) :
    0 < grantedCountOf l m ↔
      ∃ q ∈ l, q.mode = m ∨ (q.status = STATUS_CONVERTING ∧ q.convertMode = m) := by
  simp [grantedCountOf, List.countP_pos_iff, Nat.add_pos_iff_pos_or_pos, ← exists_or,
    and_or_left]

theorem conflictCountOf_pos_iff (l : List LockRequest) (m : LockMode) :
    0 < conflictCountOf l m ↔ ∃ q ∈ l, q.mode = m := by
  simp [conflictCountOf, List.countP_pos_iff]

/-- The modes a queue holds, read mode by mode, are the requests that block. -/
theorem exists_held_iff (l : List LockRequest) (m : LockMode) :
    (∃ i, (∃ q ∈ l, q.mode = i ∨ (q.status = STATUS_CONVERTING ∧ q.convertMode = i)) ∧
      conflictsWith m i = true) ↔ ∃ q ∈ l, conflictsHeld m q = true := by
  constructor
  · rintro ⟨i, ⟨q, hq, rfl | ⟨hs, rfl⟩⟩, hc⟩
    · exact ⟨q, hq, by simp [conflictsHeld, hc]⟩
    · exact ⟨q, hq, by simp [conflictsHeld, hs, hc]⟩
  · rintro ⟨q, hq, hh⟩
    simp only [conflictsHeld, Bool.or_eq_true, Bool.and_eq_true, beq_iff_eq] at hh
    rcases hh with hc | ⟨hs, hc⟩
    · exact ⟨q.mode, ⟨q, hq, Or.inl rfl⟩, hc⟩
    · exact ⟨q.convertMode, ⟨q, hq, Or.inr ⟨hs, rfl⟩⟩, hc⟩

theorem initNew_counted : LockHead.initNew.Counted where
  granted := ⟨fun _ => rfl, by unfold MaskOfCounts; decide, rfl, rfl⟩
  conflict := ⟨fun _ => rfl, by unfold MaskOfCounts; decide⟩

/-! ## The masks read as queues -/

theorem GrantedCounted.conflicts_iff {h : LockHead} {l : List LockRequest} (hc : GrantedCounted h l)
    (m : LockMode) :
    conflicts m h.grantedModes = true ↔ ∃ q ∈ l, conflictsHeld m q = true := by
  rw [hc.modes, conflicts_maskOf, ← exists_held_iff]
  simp only [decide_eq_true_eq, hc.counts, grantedCountOf_pos_iff]

theorem ConflictCounted.conflicts_iff {h : LockHead} {l : List LockRequest}
    (hc : ConflictCounted h l) (m : LockMode) :
    conflicts m h.conflictModes = true ↔ ∃ q ∈ l, conflictsWith m q.mode = true := by
  rw [hc.modes, conflicts_maskOf]
  simp only [decide_eq_true_eq, hc.counts, conflictCountOf_pos_iff]
  constructor
  · rintro ⟨i, ⟨q, hq, rfl⟩, hc⟩
    exact ⟨q, hq, hc⟩
  · rintro ⟨q, hq, hc⟩
    exact ⟨q.mode, ⟨q, hq, rfl⟩, hc⟩

theorem grantedModesWithout_eq_maskOf (counts own : LockMode → Nat) :
    grantedModesWithout counts own =
      maskOf (fun i => i != .MODE_NONE && decide (own i < counts i)) := by
  unfold grantedModesWithout maskOf
  simp

/-- The mask `grantedModesWithoutCurrentRequest` of `convert` and `_onLockModeChanged` blocks
`m` exactly when another request of the queue does. -/
theorem GrantedCounted.conflicts_without_iff {h : LockHead} {l : List LockRequest}
    (hc : GrantedCounted h l) (hd : KeysDistinct LockRequest.locker l) {r : LockRequest}
    (hr : r ∈ l) (m : LockMode) :
    conflicts m (grantedModesWithout h.grantedCounts (grantedCountOf [r])) = true ↔
      ∃ q ∈ l, q.locker ≠ r.locker ∧ conflictsHeld m q = true := by
  have hsplit : ∀ i, h.grantedCounts i = grantedCountOf (l.erase r) i + grantedCountOf [r] i := by
    intro i
    rw [hc.counts, ← grantedCountOf_append, grantedCountOf_perm (erase_append_perm hr)]
  have hrest : ∀ q, q ∈ l.erase r ↔ q ∈ l ∧ q.locker ≠ r.locker := fun q => hd.mem_erase_iff hr
  rw [grantedModesWithout_eq_maskOf, conflicts_maskOf]
  constructor
  · rintro ⟨i, hi, hci⟩
    simp only [Bool.and_eq_true, bne_iff_ne, ne_eq, decide_eq_true_eq, hsplit] at hi
    obtain ⟨q, hq, hocc⟩ := (grantedCountOf_pos_iff (l.erase r) i).mp (by omega)
    obtain ⟨q', hq', hh⟩ := (exists_held_iff (l.erase r) m).mp ⟨i, ⟨q, hq, hocc⟩, hci⟩
    exact ⟨q', ((hrest q').mp hq').1, ((hrest q').mp hq').2, hh⟩
  · rintro ⟨q, hq, hne, hh⟩
    obtain ⟨i, ⟨q', hq', hocc⟩, hci⟩ :=
      (exists_held_iff (l.erase r) m).mpr ⟨q, (hrest q).mpr ⟨hq, hne⟩, hh⟩
    have hpos := (grantedCountOf_pos_iff _ i).mpr ⟨q', hq', hocc⟩
    have hi : i ≠ .MODE_NONE := by
      rintro rfl
      simp at hci
    refine ⟨i, ?_, hci⟩
    simp only [Bool.and_eq_true, bne_iff_ne, ne_eq, decide_eq_true_eq, hsplit]
    exact ⟨hi, by omega⟩

/-- No request holds or converts to `MODE_NONE`, so its count stays zero. -/
theorem GrantedCounted.count_none {h : LockHead} {l : List LockRequest} (hc : GrantedCounted h l)
    (hl : ∀ q ∈ l, q.mode ≠ .MODE_NONE ∧
      (q.status = STATUS_CONVERTING → q.convertMode ≠ .MODE_NONE)) :
    h.grantedCounts .MODE_NONE = 0 := by
  rw [hc.counts]
  by_contra hne
  obtain ⟨q, hq, hocc⟩ := (grantedCountOf_pos_iff l _).mp (Nat.pos_of_ne_zero hne)
  rcases hocc with e | ⟨hs, e⟩
  · exact (hl q hq).1 e
  · exact (hl q hq).2 hs e

/-- The mask of the granted modes is empty exactly when the queue is. -/
theorem GrantedCounted.modes_eq_zero_iff {h : LockHead} {l : List LockRequest}
    (hc : GrantedCounted h l) : h.grantedModes = 0 ↔ l = [] := by
  rw [hc.modes, maskOf_eq_zero_iff]
  constructor
  · intro h0
    refine List.eq_nil_iff_forall_not_mem.mpr fun q hq => ?_
    have hpos : 0 < h.grantedCounts q.mode :=
      hc.counts _ ▸ (grantedCountOf_pos_iff l _).mpr ⟨q, hq, Or.inl rfl⟩
    simpa [hpos] using h0 q.mode
  · rintro rfl m
    simp [hc.counts m, grantedCountOf]

theorem ConflictCounted.modes_eq_zero_iff {h : LockHead} {l : List LockRequest}
    (hc : ConflictCounted h l) : h.conflictModes = 0 ↔ l = [] := by
  rw [hc.modes, maskOf_eq_zero_iff]
  constructor
  · intro h0
    refine List.eq_nil_iff_forall_not_mem.mpr fun q hq => ?_
    have hpos : 0 < h.conflictCounts q.mode :=
      hc.counts _ ▸ (conflictCountOf_pos_iff l _).mpr ⟨q, hq, rfl⟩
    simpa [hpos] using h0 q.mode
  · rintro rfl m
    simp [hc.counts m, conflictCountOf]

/-! ## Moving requests in and out of a queue -/

/-- The granted counters follow any edit of the queue that takes the requests `xs` out and
puts `ys` in, when the counters move by the same amounts. -/
theorem GrantedCounted.transfer {h h' : LockHead} {l l' xs ys : List LockRequest}
    (hc : GrantedCounted h l) (hp : (l' ++ xs).Perm (l ++ ys))
    (hcounts : ∀ m, h'.grantedCounts m + grantedCountOf xs m =
      h.grantedCounts m + grantedCountOf ys m)
    (hmodes : MaskOfCounts h'.grantedCounts h'.grantedModes)
    (hconv : h'.conversionsCount + xs.countP (fun r => r.status == STATUS_CONVERTING) =
      h.conversionsCount + ys.countP fun r => r.status == STATUS_CONVERTING)
    (hcf : h'.compatibleFirstCount + xs.countP (·.compatibleFirst) =
      h.compatibleFirstCount + ys.countP (·.compatibleFirst)) :
    GrantedCounted h' l' := by
  obtain ⟨c1, -, c3, c4⟩ := hc
  refine ⟨fun m => ?_, hmodes, ?_, ?_⟩
  · have e := grantedCountOf_perm hp m
    rw [grantedCountOf_append, grantedCountOf_append] at e
    have := hcounts m
    rw [c1 m] at this
    omega
  · have e := hp.countP_eq fun r => r.status == STATUS_CONVERTING
    rw [List.countP_append, List.countP_append] at e
    omega
  · have e := hp.countP_eq (·.compatibleFirst)
    rw [List.countP_append, List.countP_append] at e
    omega

theorem ConflictCounted.transfer {h h' : LockHead} {l l' xs ys : List LockRequest}
    (hc : ConflictCounted h l) (hp : (l' ++ xs).Perm (l ++ ys))
    (hcounts : ∀ m, h'.conflictCounts m + conflictCountOf xs m =
      h.conflictCounts m + conflictCountOf ys m)
    (hmodes : MaskOfCounts h'.conflictCounts h'.conflictModes) :
    ConflictCounted h' l' := by
  refine ⟨fun m => ?_, hmodes⟩
  have e := hp.countP_eq fun r => r.mode == m
  rw [List.countP_append, List.countP_append] at e
  have := hcounts m
  rw [hc.counts m] at this
  simp only [conflictCountOf] at this ⊢
  omega

/-- The granted counters are all that `GrantedCounted` reads. -/
theorem GrantedCounted.congr {h h' : LockHead} {l : List LockRequest} (hc : GrantedCounted h l)
    (e₁ : h'.grantedCounts = h.grantedCounts) (e₂ : h'.grantedModes = h.grantedModes)
    (e₃ : h'.conversionsCount = h.conversionsCount)
    (e₄ : h'.compatibleFirstCount = h.compatibleFirstCount) : GrantedCounted h' l := by
  obtain ⟨c1, c2, c3, c4⟩ := hc
  exact ⟨e₁ ▸ c1, e₁ ▸ e₂ ▸ c2, e₃ ▸ c3, e₄ ▸ c4⟩

theorem ConflictCounted.congr {h h' : LockHead} {l : List LockRequest} (hc : ConflictCounted h l)
    (e₁ : h'.conflictCounts = h.conflictCounts) (e₂ : h'.conflictModes = h.conflictModes) :
    ConflictCounted h' l := by
  obtain ⟨c1, c2⟩ := hc
  exact ⟨e₁ ▸ c1, e₁ ▸ e₂ ▸ c2⟩

@[simp] theorem grantedCountOf_nil (m : LockMode) : grantedCountOf [] m = 0 := rfl

@[simp] theorem conflictCountOf_nil (m : LockMode) : conflictCountOf [] m = 0 := rfl

@[simp] theorem grantedCountOf_singleton (r : LockRequest) (m : LockMode) :
    grantedCountOf [r] m =
      (if r.mode = m then 1 else 0) +
        if r.status = STATUS_CONVERTING then (if r.convertMode = m then 1 else 0) else 0 := by
  by_cases hs : r.status = STATUS_CONVERTING <;> simp [grantedCountOf, List.countP_singleton, hs]

@[simp] theorem conflictCountOf_singleton (r : LockRequest) (m : LockMode) :
    conflictCountOf [r] m = if r.mode = m then 1 else 0 := by
  simp [conflictCountOf, List.countP_singleton]

/-- What a converting request counts for itself is what it adds to the granted counts. -/
theorem ownCounts_converting {r : LockRequest} (hs : r.status = STATUS_CONVERTING) :
    ownCounts r = grantedCountOf [r] := by
  funext i
  simp [ownCounts, hs]

/-- A granted request at the back of the queue, with its count. -/
theorem grantedCounted_push {h : LockHead} {l : List LockRequest} (hc : GrantedCounted h l)
    (r : LockRequest) (hr : r.status = STATUS_GRANTED) :
    GrantedCounted { h.incGrantedModeCount r.mode with
      compatibleFirstCount :=
        if r.compatibleFirst then h.compatibleFirstCount + 1 else h.compatibleFirstCount }
      (l ++ [r]) := by
  refine hc.transfer (show (l ++ [r] ++ []).Perm (l ++ [r]) by simp) (fun m => ?_)
    (incModeCount_mask r.mode hc.modes) (by simp [LockHead.incGrantedModeCount, hr]) ?_
  · by_cases hm : r.mode = m
    · simp [LockHead.incGrantedModeCount, hm, hr]
    · simp [LockHead.incGrantedModeCount, hm, Ne.symm hm, hr]
  · cases hf : r.compatibleFirst <;> simp [hf]

/-- A granted request leaves the queue, with its count. -/
theorem grantedCounted_erase {h : LockHead} {l : List LockRequest} (hc : GrantedCounted h l)
    {r : LockRequest} (hr : r ∈ l) (hs : r.status = STATUS_GRANTED) :
    GrantedCounted { h.decGrantedModeCount r.mode with
      compatibleFirstCount :=
        if r.compatibleFirst then h.compatibleFirstCount - 1 else h.compatibleFirstCount }
      (l.erase r) := by
  have hpos : 0 < h.grantedCounts r.mode :=
    hc.counts r.mode ▸ (grantedCountOf_pos_iff l _).mpr ⟨r, hr, Or.inl rfl⟩
  have hcf : r.compatibleFirst → 0 < h.compatibleFirstCount := by
    intro hf
    rw [hc.compatibleFirst]
    exact List.countP_pos_iff.mpr ⟨r, hr, hf⟩
  refine hc.transfer (show (l.erase r ++ [r]).Perm (l ++ []) by simpa using erase_append_perm hr)
    (fun m => ?_) (decModeCount_mask r.mode hc.modes) (by simp [LockHead.decGrantedModeCount, hs]) ?_
  · by_cases hm : r.mode = m
    · subst hm
      simp [LockHead.decGrantedModeCount, hs]
      omega
    · simp [LockHead.decGrantedModeCount, hm, Ne.symm hm, hs]
  · cases hf : r.compatibleFirst
    · simp [hf]
    · have := hcf hf
      simp [hf]
      omega

/-- A request of the granted queue is rewritten in place from `x` to `y`; the counters move
by what `y` adds and `x` took. -/
theorem GrantedCounted.replace {h h' : LockHead} {l l' : List LockRequest} {x y : LockRequest}
    (hc : GrantedCounted h l) (hp : (l' ++ [x]).Perm (l ++ [y]))
    (hcounts : ∀ m, h'.grantedCounts m + grantedCountOf [x] m =
      h.grantedCounts m + grantedCountOf [y] m)
    (hmodes : MaskOfCounts h'.grantedCounts h'.grantedModes)
    (hconv : h'.conversionsCount + (if x.status = STATUS_CONVERTING then 1 else 0) =
      h.conversionsCount + if y.status = STATUS_CONVERTING then 1 else 0)
    (hcf : y.compatibleFirst = x.compatibleFirst)
    (e : h'.compatibleFirstCount = h.compatibleFirstCount) : GrantedCounted h' l' := by
  refine hc.transfer hp hcounts hmodes (by simpa [List.countP_singleton] using hconv) ?_
  simp [List.countP_singleton, hcf, e]

theorem conflictCounted_erase {h : LockHead} {l : List LockRequest} (hc : ConflictCounted h l)
    {r : LockRequest} (hr : r ∈ l) :
    ConflictCounted (h.decConflictModeCount r.mode) (l.erase r) := by
  have hpos : 0 < h.conflictCounts r.mode :=
    hc.counts r.mode ▸ (conflictCountOf_pos_iff l _).mpr ⟨r, hr, rfl⟩
  refine hc.transfer (show (l.erase r ++ [r]).Perm (l ++ []) by simpa using erase_append_perm hr)
    (fun m => ?_) (decModeCount_mask r.mode hc.modes)
  by_cases hm : r.mode = m
  · subst hm
    simp [LockHead.decConflictModeCount]
    omega
  · simp [LockHead.decConflictModeCount, hm, Ne.symm hm]

/-- A new waiter at either end of the conflict queue, with its count. -/
theorem conflictCounted_push {h : LockHead} {l : List LockRequest} (hc : ConflictCounted h l)
    (r : LockRequest) {l' : List LockRequest} (hl : l' = r :: l ∨ l' = l ++ [r]) :
    ConflictCounted (h.incConflictModeCount r.mode) l' := by
  have hp : (l' ++ []).Perm (l ++ [r]) := by
    rcases hl with rfl | rfl
    · simpa using (List.perm_append_singleton r l).symm
    · simp
  refine hc.transfer hp (fun m => ?_) (incModeCount_mask r.mode hc.modes)
  by_cases hm : r.mode = m
  · simp [LockHead.incConflictModeCount, hm]
  · simp [LockHead.incConflictModeCount, hm, Ne.symm hm]

/-! ## `newRequest` -/

theorem newRequest_counted {h : LockHead} (hc : h.Counted) (request : LockRequest) :
    (h.newRequest request).1.Counted := by
  unfold LockHead.newRequest
  dsimp only
  split
  · refine ⟨hc.granted.congr rfl rfl rfl rfl, ?_⟩
    let r := { request with status := STATUS_WAITING }
    have hl : ConflictCounted (h.incConflictModeCount r.mode)
        (if request.enqueueAtFront then r :: h.conflictList else h.conflictList ++ [r]) :=
      conflictCounted_push hc.conflict r (by split <;> simp)
    exact hl.congr rfl rfl
  · refine ⟨?_, hc.conflict.congr rfl rfl⟩
    exact (grantedCounted_push hc.granted { request with status := STATUS_GRANTED } rfl).congr
      rfl rfl rfl rfl

/-- What `newRequest` does, said once: it queues the request as a waiter, or grants it. -/
theorem newRequest_cases (h : LockHead) (request : LockRequest) :
    ((h.newRequest request).2 = LOCK_WAITING ∧
      (conflicts request.mode h.grantedModes = true ∨
        (h.compatibleFirstCount = 0 ∧ conflicts request.mode h.conflictModes = true)) ∧
      (h.newRequest request).1.grantedList = h.grantedList ∧
      ((h.newRequest request).1.conflictList =
          (if request.enqueueAtFront then { request with status := STATUS_WAITING } :: h.conflictList
           else h.conflictList ++ [{ request with status := STATUS_WAITING }]))) ∨
    ((h.newRequest request).2 = LOCK_OK ∧
      conflicts request.mode h.grantedModes = false ∧
      (h.compatibleFirstCount = 0 → conflicts request.mode h.conflictModes = false) ∧
      (h.newRequest request).1.grantedList =
        h.grantedList ++ [{ request with status := STATUS_GRANTED }] ∧
      (h.newRequest request).1.conflictList = h.conflictList) := by
  unfold LockHead.newRequest
  split
  · rename_i hc
    left
    refine ⟨rfl, ?_, rfl, rfl⟩
    simpa using hc
  · rename_i hc
    right
    simp only [Bool.or_eq_true, Bool.and_eq_true, beq_iff_eq, not_or, not_and,
      Bool.not_eq_true] at hc
    exact ⟨rfl, hc.1, hc.2, rfl, rfl⟩

@[simp] theorem newRequest_partitions (h : LockHead) (request : LockRequest) :
    (h.newRequest request).1.partitions = h.partitions := by
  unfold LockHead.newRequest
  split <;> rfl

end mongo.lock_manager
