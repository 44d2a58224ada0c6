-- The entry points of the lock manager on one resource keep `ResourceEntry.Good` when
-- they are called as the code requires: a new locker for `lock`, a granted request
-- for `convert` and `downgrade`, a held request for `unlock`.
import PerconaMongo.Concurrency.EntryInvariant

namespace mongo.lock_manager

open LockRequest.Status LockResult keyed_list

/-! ## `lock` -/

theorem isIntent_of_partitioned {mode : LockMode}
    (h : (mode == .MODE_IX || mode == .MODE_IS) = true) : IsIntent mode := by
  cases mode <;> simp_all [IsIntent]

theorem partitionedListOf_update_some (plh : PartitionId → Option PartitionedLockHead)
    (p q : PartitionId) (pl : PartitionedLockHead) :
    partitionedListOf (Function.update plh p (some pl)) q =
      if q = p then pl.grantedList else partitionedListOf plh q := by
  by_cases hq : q = p
  · subst hq
    simp [partitionedListOf]
  · simp [partitionedListOf, hq]

/-- A granted intent request of a new locker at the back of the partitioned head of its
partition. -/
theorem PartitionsGood.push {plh : PartitionId → Option PartitionedLockHead} {l : List LockRequest}
    (hg : PartitionsGood plh l) {p : PartitionId} {r : LockRequest}
    (hr : r.status = STATUS_GRANTED ∧ r.partitioned = true ∧ IsIntent r.mode ∧
      partitionOf r.locker = p)
    (hfl : ∀ q ∈ l, q.locker ≠ r.locker)
    (hfp : ∀ q ∈ partitionedListOf plh p, q.locker ≠ r.locker) :
    PartitionsGood (Function.update plh p (some ⟨partitionedListOf plh p ++ [r]⟩)) l := by
  refine ⟨fun q s hs => ?_, fun q => ?_, fun q s hs t ht => ?_⟩
  · rw [partitionedListOf_update_some] at hs
    split at hs
    · rename_i hq
      subst hq
      rcases List.mem_append.mp hs with hs' | hs'
      · exact hg.requests q s hs'
      · rw [List.mem_singleton.mp hs']
        exact hr
    · exact hg.requests q s hs
  · rw [partitionedListOf_update_some]
    split
    · rename_i hq
      subst hq
      exact List.pairwise_append.mpr ⟨hg.distinct q, List.pairwise_singleton _ _,
        fun a ha b hb => by rw [List.mem_singleton.mp hb]; exact hfp a ha⟩
    · exact hg.distinct q
  · rw [partitionedListOf_update_some] at hs
    split at hs
    · rename_i hq
      subst hq
      rcases List.mem_append.mp hs with hs' | hs'
      · exact hg.disjoint q s hs' t ht
      · rw [List.mem_singleton.mp hs']
        exact Ne.symm (hfl t ht)
    · exact hg.disjoint q s hs t ht

/-- `PartitionedLockHead::newRequest` of a new locker's intent request on the partitioned head
of its partition. -/
theorem PartitionsGood.newRequest {plh : PartitionId → Option PartitionedLockHead}
    {l : List LockRequest} (hg : PartitionsGood plh l) {p : PartitionId} {pl : PartitionedLockHead}
    (hpl : pl.grantedList = partitionedListOf plh p) {r : LockRequest}
    (hr : r.partitioned = true ∧ IsIntent r.mode ∧ partitionOf r.locker = p)
    (hfl : ∀ q ∈ l, q.locker ≠ r.locker)
    (hfp : ∀ q ∈ partitionedListOf plh p, q.locker ≠ r.locker) :
    PartitionsGood (Function.update plh p (some (pl.newRequest r))) l := by
  have e : pl.newRequest r = ⟨partitionedListOf plh p ++ [{ r with status := STATUS_GRANTED }]⟩ := by
    rw [← hpl]
    rfl
  rw [e]
  exact hg.push ⟨rfl, hr⟩ hfl hfp

theorem GrantedCounted.intent_of_mask {h : LockHead} {l : List LockRequest}
    (hc : GrantedCounted h l) (hm : (h.grantedModes &&& ~~~intentModes == 0) = true) :
    ∀ q ∈ l, IsIntent q.mode ∧ (q.status = STATUS_CONVERTING → IsIntent q.convertMode) := by
  rw [hc.modes, maskOf_and_not_intent] at hm
  have hpos : ∀ m, (∃ q ∈ l, q.mode = m ∨ (q.status = STATUS_CONVERTING ∧ q.convertMode = m)) →
      IsIntent m := by
    intro m hq
    apply hm m
    simpa [hc.counts] using (grantedCountOf_pos_iff l m).mpr hq
  intro q hq
  exact ⟨hpos q.mode ⟨q, hq, Or.inl rfl⟩, fun hs => hpos q.convertMode ⟨q, hq, Or.inr ⟨hs, rfl⟩⟩⟩

/-- The test of `lock` for starting a partitioned lock: only intent modes are granted, and
nothing waits. Then no conversion waits either, since only `S` or `X` could block it. -/
theorem LockHead.Inv.intentOnly_of_masks {h : LockHead} (hi : h.Inv)
    (hg : (h.grantedModes &&& ~~~intentModes == 0) = true) (hc : (h.conflictModes == 0) = true) :
    IntentOnly h := by
  have hint := hi.granted.counted.intent_of_mask hg
  refine ⟨?_, fun q hq => ⟨?_, (hint q hq).1⟩⟩
  · cases hl : h.conflictList with
    | nil => rfl
    | cons r rs =>
      have hz : h.conflictModes = 0 := by simpa using hc
      rw [hi.conflict.modes, maskOf_eq_zero_iff] at hz
      have hr := (conflictCountOf_pos_iff h.conflictList r.mode).mpr ⟨r, by simp [hl], rfl⟩
      have := hz r.mode
      rw [hi.conflict.counts] at this
      simp only [decide_eq_false_iff_not, not_lt, Nat.le_zero] at this
      omega
  · rcases (hi.granted.shape q hq).2 with hs | ⟨hs, -, -⟩
    · exact hs
    · obtain ⟨q', hq', -, hb⟩ := hi.conversions q hq hs
      have hcm := (hint q hq).2 hs
      obtain ⟨hm', hcm'⟩ := hint q' hq'
      simp only [conflictsHeld, Bool.or_eq_true, Bool.and_eq_true, beq_iff_eq] at hb
      rcases hb with hb | ⟨hs', hb⟩
      · rw [not_conflictsWith_intent _ _ hcm hm'] at hb
        cases hb
      · rw [not_conflictsWith_intent _ _ hcm (hcm' hs')] at hb
        cases hb

/-- `lock` of a request of a locker with no request on the resource keeps the invariant, on
each of its three paths: the partitioned fast path, the start of a partitioned lock, and
`newRequest` on the head after the migration. -/
theorem ResourceEntry.Good.lock {e : ResourceEntry} (hg : e.Good) {request : LockRequest}
    {mode : LockMode} (hfresh : e.findRequest request.locker = none) (hmode : mode ≠ .MODE_NONE) :
    (lock e request mode).1.Good := by
  obtain ⟨hfh, hfp⟩ := hg.fresh_of_findRequest hfresh
  unfold mongo.lock_manager.lock
  dsimp only
  split
  · -- the partitioned fast path
    rename_i pl hpart hpl
    refine ⟨hg.head, ?_, fun q hq => ?_, hg.intentOnly⟩
    · exact hg.partitioned.newRequest (by simp [partitionedListOf, hpl])
        ⟨hpart, isIntent_of_partitioned hpart, rfl⟩ hfh (hfp _)
    · by_cases hqp : q = partitionOf request.locker
      · subst hqp
        exact hg.listed _ (by simp [hpl])
      · exact hg.listed q (by simpa [Function.update_of_ne hqp] using hq)
  · rename_i hnot
    split
    · -- a partitioned lock starts: no partitioned head is there yet
      rename_i hcond
      simp only [Bool.and_eq_true] at hcond
      obtain ⟨⟨hpart, hgm⟩, hcm⟩ := hcond
      have hnone : e.partitionedLockHeads (partitionOf request.locker) = none := by
        cases hpl : e.partitionedLockHeads (partitionOf request.locker) with
        | none => rfl
        | some pl => exact absurd hpl (fun h => hnot pl hpart h)
      have ho := hg.head.intentOnly_of_masks hgm hcm
      refine ⟨hg.head.withPartitions _, ?_, fun q hq => ?_, fun _ => ⟨ho.noWaiters, ho.granted⟩⟩
      · exact hg.partitioned.newRequest
          (by simp [hnone, partitionedListOf, PartitionedLockHead.initNew])
          ⟨hpart, isIntent_of_partitioned hpart, rfl⟩ hfh (hfp _)
      · show q ∈ e.head.partitions ++ [partitionOf request.locker]
        by_cases hqp : q = partitionOf request.locker
        · simp [hqp]
        · exact List.mem_append_left _ (hg.listed q (by simpa [Function.update_of_ne hqp] using hq))
    · -- the migration, then `newRequest` on the head
      have hm := hg.migrate
      have hfresh₁ : ∀ q ∈ (migrateIfPartitioned e.head e.partitionedLockHeads).1.grantedList ++
          (migrateIfPartitioned e.head e.partitionedLockHeads).1.conflictList,
          q.locker ≠ request.locker := by
        intro q hq
        rcases List.mem_append.mp hq with hq' | hq'
        · rcases (hm.granted q).mp hq' with hq'' | ⟨p, hq''⟩
          · exact hfh q (List.mem_append_left _ hq'')
          · exact hfp p q hq''
        · rw [hm.conflictList] at hq'
          exact hfh q (List.mem_append_right _ hq')
      refine ⟨newRequest_inv hm.inv hmode hfresh₁, partitionsGood_of_none hm.cleared _,
        fun p hp => ?_, fun hp => ?_⟩
      · simp [hm.cleared p] at hp
      · exact absurd (by simp only [ResourceEntry.head_some, newRequest_partitions, hm.partitions]) hp

/-! ## Where a request sits -/

/-- `modifyQueued` rewrites a granted request in place. -/
theorem LockHead.Inv.split_granted {h : LockHead} (hi : h.Inv) {x : LockRequest}
    (hx : x ∈ h.grantedList) (f : LockRequest → LockRequest) :
    ∃ A B, h.grantedList = A ++ x :: B ∧ modifyQueued x.locker f h.grantedList = A ++ f x :: B :=
  modifyAt_eq_split (hi.distinct.sublist (List.sublist_append_left _ _)) hx f

theorem LockHead.Inv.mem_granted {h : LockHead} (hi : h.Inv) {r : LockRequest}
    (hr : r ∈ h.grantedList ++ h.conflictList) (hs : r.status ≠ STATUS_WAITING) :
    r ∈ h.grantedList := by
  rcases List.mem_append.mp hr with hr | hr
  · exact hr
  · exact absurd (hi.waiting r hr).1 hs

theorem LockHead.Inv.mem_conflict {h : LockHead} (hi : h.Inv) {r : LockRequest}
    (hr : r ∈ h.grantedList ++ h.conflictList) (hs : r.status = STATUS_WAITING) :
    r ∈ h.conflictList := by
  rcases List.mem_append.mp hr with hr | hr
  · rcases (hi.granted.shape r hr).2 with h' | ⟨h', -⟩ <;> rw [hs] at h' <;> cases h'
  · exact hr

theorem GrantedShape.convertMode_ne_none {r : LockRequest} (hr : GrantedShape r)
    (hs : r.status = STATUS_CONVERTING) : r.convertMode ≠ .MODE_NONE := by
  rcases hr.2 with hg | ⟨-, hne, -⟩
  · rw [hs] at hg
    cases hg
  · exact hne

/-! ## A new head for the resource -/

/-- What the partitioned heads need of a new head `h'` for the resource: the same partitions,
and while the old head `h` was partitioned, granted intent modes of lockers `h` held. -/
structure PartitionSafe (h h' : LockHead) : Prop where
  partitions : h'.partitions = h.partitions
  intentOnly : IntentOnly h → IntentOnly h' ∧
    ∀ q ∈ h'.grantedList ++ h'.conflictList, ∃ q' ∈ h.grantedList ++ h.conflictList,
      q'.locker = q.locker

/-- `convertPass` leaves a queue with no conversion as it is. -/
theorem convertPass_of_granted (h : LockHead) {l : List LockRequest}
    (hl : ∀ q ∈ l, q.status = STATUS_GRANTED) : (h.convertPass l).2 = l := by
  induction l generalizing h with
  | nil => rfl
  | cons iter rest ih =>
    have hiter : (iter.status == STATUS_CONVERTING) = false := by
      simp [hl iter List.mem_cons_self]
    rw [convertPass_cons]
    split
    · simp only [hiter, Bool.false_and, Bool.false_eq_true, if_false]
      rw [ih h fun q hq => hl q (List.mem_cons_of_mem _ hq)]
    · rfl

/-- `_onLockModeChanged` leaves a head of granted requests and no waiter as it is. -/
theorem onLockModeChanged_of_granted {lock : LockHead} (check : Bool)
    (hg : ∀ q ∈ lock.grantedList, q.status = STATUS_GRANTED) (hc : lock.conflictList = []) :
    (onLockModeChanged lock check).grantedList = lock.grantedList ∧
      (onLockModeChanged lock check).conflictList = [] := by
  rw [onLockModeChanged_eq]
  cases check <;> simp [convertPass_of_granted _ hg, hc, LockHead.grantWaiters]

theorem PartitionSafe.onLockModeChanged {h h' : LockHead} (hs : PartitionSafe h h')
    (check : Bool) : PartitionSafe h (onLockModeChanged h' check) := by
  refine ⟨by rw [onLockModeChanged_partitions, hs.partitions], fun ho => ?_⟩
  obtain ⟨ho', hsub⟩ := hs.intentOnly ho
  obtain ⟨hG, hC⟩ := onLockModeChanged_of_granted check (fun q hq => (ho'.granted q hq).1)
    ho'.noWaiters
  refine ⟨⟨hC, by rw [hG]; exact ho'.granted⟩, ?_⟩
  rw [hG, hC, ← ho'.noWaiters]
  exact hsub

theorem PartitionsGood.mono {plh : PartitionId → Option PartitionedLockHead}
    {l l' : List LockRequest} (hp : PartitionsGood plh l)
    (hsub : ∀ q ∈ l', ∃ q' ∈ l, q'.locker = q.locker) : PartitionsGood plh l' := by
  refine ⟨hp.requests, hp.distinct, fun p r hr q hq => ?_⟩
  obtain ⟨q', hq', hk⟩ := hsub q hq
  rw [← hk]
  exact hp.disjoint p r hr q' hq'

theorem ResourceEntry.Good.partitionedLockHeads_none {e : ResourceEntry} (hg : e.Good)
    (hp : e.head.partitions = []) (p : PartitionId) : e.partitionedLockHeads p = none := by
  cases h : e.partitionedLockHeads p with
  | none => rfl
  | some _ =>
    have := hg.listed p (by simp [h])
    rw [hp] at this
    cases this

theorem ResourceEntry.head_of_lockHead {e : ResourceEntry} {lock : LockHead}
    (hlock : e.lockHead = some lock) : e.head = lock := by
  simp [ResourceEntry.head, hlock]

theorem ResourceEntry.Good.inv_of_lockHead {e : ResourceEntry} (hg : e.Good) {lock : LockHead}
    (hlock : e.lockHead = some lock) : lock.Inv :=
  ResourceEntry.head_of_lockHead hlock ▸ hg.head

/-- The entry stays good when its head is replaced by one with the invariant that is safe for
the partitioned heads. -/
theorem ResourceEntry.Good.withHead {e : ResourceEntry} (hg : e.Good) {lock h : LockHead}
    (hlock : e.lockHead = some lock) (hi : h.Inv) (hs : PartitionSafe lock h) :
    ({ e with lockHead := some h } : ResourceEntry).Good := by
  have hhead := ResourceEntry.head_of_lockHead hlock
  by_cases hnil : lock.partitions = []
  · have hnone := hg.partitionedLockHeads_none (hhead ▸ hnil)
    refine ⟨hi, partitionsGood_of_none hnone _, fun p hp => ?_, fun hne => ?_⟩
    · simp [hnone p] at hp
    · exact absurd (hs.partitions.trans hnil) hne
  · obtain ⟨ho, hsub⟩ := hs.intentOnly (hhead ▸ hg.intentOnly (hhead ▸ hnil))
    refine ⟨hi, hg.partitioned.mono (hhead ▸ hsub), fun p hp => ?_, fun _ => ho⟩
    simp only [ResourceEntry.head_some, hs.partitions]
    exact hhead ▸ hg.listed p hp

/-! ## `convert` -/

theorem findRequest_modifyRequest {e : ResourceEntry} {k : LockerId} {f : LockRequest → LockRequest}
    (hf : CountOnly f) {r : LockRequest} (hr : e.findRequest k = some r) :
    (e.modifyRequest k f).findRequest k = some (f r) := by
  have hk := hf.at k
  have hcomp : ((fun a : LockRequest => a.locker == k) ∘ fun a => if a.locker == k then f a else a) =
      fun a => a.locker == k := by
    funext a
    exact congrArg (· == k) (hk.locker a)
  have hlocker := (findRequest_some hr).1
  unfold ResourceEntry.findRequest at hr ⊢
  rw [ResourceEntry.partitionedList_eq, partitionedListOf_modifyRequest,
    ResourceEntry.head_modifyRequest]
  simp only [← List.map_append, List.find?_map, hcomp]
  rw [ResourceEntry.partitionedList_eq] at hr
  cases h1 : (partitionedListOf e.partitionedLockHeads (partitionOf k)).find? (·.locker == k) with
  | some a =>
    rw [h1, Option.some_or] at hr
    cases hr
    simp [hlocker]
  | none =>
    rw [h1, Option.none_or] at hr
    simp [hr, hlocker]

/-- A granted request that `findRequest` finds is on the granted queue or on a partitioned
head. -/
theorem ResourceEntry.Good.granted_of_findRequest {e : ResourceEntry} (hg : e.Good) {k : LockerId}
    {r : LockRequest} (hr : e.findRequest k = some r) (hs : r.status = STATUS_GRANTED) :
    r.locker = k ∧ (r ∈ e.head.grantedList ∨ ∃ p, r ∈ e.partitionedList p) := by
  obtain ⟨hk, hmem | hmem⟩ := findRequest_some hr
  · exact ⟨hk, Or.inr ⟨_, hmem⟩⟩
  · refine ⟨hk, ?_⟩
    rcases List.mem_append.mp hmem with hm | hm
    · exact Or.inl hm
    · rw [(hg.head.waiting r hm).1] at hs
      cases hs

@[simp] theorem isModeCovered_none (m : LockMode) : isModeCovered .MODE_NONE m = true := by
  cases m <;> decide

theorem ownCounts_granted {x : LockRequest} (hs : x.status = STATUS_GRANTED) :
    (fun i => if x.mode = i then 1 else 0) = grantedCountOf [x] := by
  funext i
  simp [hs]

/-- The conversion waits: `x` converts to `newMode`, which counts as granted. -/
theorem LockHead.Inv.convertWait {h : LockHead} (hi : h.Inv) {A B : List LockRequest}
    {x : LockRequest} (hl : h.grantedList = A ++ x :: B) (hs : x.status = STATUS_GRANTED)
    {newMode : LockMode} (hnone : newMode ≠ .MODE_NONE) (hcov : Covers x.mode newMode)
    (hblock : conflicts newMode
      (grantedModesWithout h.grantedCounts (fun i => if x.mode = i then 1 else 0)) = true) :
    ({ h with
        grantedList := A ++ { x with status := STATUS_CONVERTING, convertMode := newMode } :: B,
        conversionsCount := h.conversionsCount + 1 }.incGrantedModeCount newMode).Inv := by
  have hx : x ∈ h.grantedList := by rw [hl]; exact mem_append_cons_iff.mpr (Or.inl rfl)
  have hc := hi.granted.counted
  have hd : KeysDistinct LockRequest.locker h.grantedList :=
    hi.distinct.sublist (List.sublist_append_left _ _)
  rw [ownCounts_granted hs, hc.conflicts_without_iff hd hx] at hblock
  rw [hl] at hc
  refine hi.replace hl rfl rfl rfl rfl ?_ ⟨rfl, fun m hm => ?_⟩
    ⟨(hi.granted.shape x hx).1, Or.inr ⟨rfl, hnone, hcov⟩⟩ ?_ fun _ => ?_
  · refine hc.replace (replace_append_perm A B x _) (fun m => ?_)
      (incModeCount_mask newMode hi.granted.counted.modes) (by simp [LockHead.incGrantedModeCount, hs])
      rfl rfl
    by_cases hm : newMode = m
    · subst hm
      simp [LockHead.incGrantedModeCount, hs]
      omega
    · simp [LockHead.incGrantedModeCount, hs, hm, Ne.symm hm]
  · simp only [conflictsHeld, hs, Bool.or_eq_true, Bool.and_eq_true, beq_iff_eq] at hm ⊢
    rcases hm with hm | ⟨hs', -⟩
    · exact Or.inl hm
    · cases hs'
  · intro q hq hne
    exact hi.granted.compatible x hx q (by rw [hl]; exact mem_append_cons_iff.mpr (Or.inr hq))
      (Ne.symm hne)
  · obtain ⟨q, hq, hne, hb⟩ := hblock
    rw [hl] at hq
    rcases mem_append_cons_iff.mp hq with rfl | hq'
    · exact absurd rfl hne
    · exact ⟨q, mem_append_cons_iff.mpr (Or.inr hq'), hne, hb⟩

/-- The counters after a granted request `x` changes its mode in place. -/
theorem GrantedCounted.changeMode {h : LockHead} {A B : List LockRequest} {x : LockRequest}
    (hc : GrantedCounted h (A ++ x :: B)) (hs : x.status = STATUS_GRANTED) (newMode : LockMode) :
    GrantedCounted { (h.incGrantedModeCount newMode).decGrantedModeCount x.mode with
      grantedList := A ++ { x with mode := newMode } :: B } (A ++ { x with mode := newMode } :: B) := by
  have hpos : 0 < h.grantedCounts x.mode :=
    hc.counts x.mode ▸ (grantedCountOf_pos_iff _ _).mpr ⟨x, mem_append_cons_iff.mpr (Or.inl rfl),
      Or.inl rfl⟩
  refine hc.replace (replace_append_perm A B x _) (fun m => ?_)
    (decModeCount_mask x.mode (incModeCount_mask newMode hc.modes))
    (by simp [LockHead.incGrantedModeCount, LockHead.decGrantedModeCount, hs]) rfl rfl
  by_cases hm : x.mode = m <;> by_cases hn : newMode = m
  · subst hm; subst hn
    simp [LockHead.incGrantedModeCount, LockHead.decGrantedModeCount, hs]
  · subst hm
    simp [LockHead.incGrantedModeCount, LockHead.decGrantedModeCount, hs, hn, Ne.symm hn]
    omega
  · subst hn
    simp [LockHead.incGrantedModeCount, LockHead.decGrantedModeCount, hs, hm, Ne.symm hm]
  · simp [LockHead.incGrantedModeCount, LockHead.decGrantedModeCount, hs, hm, hn, Ne.symm hm,
      Ne.symm hn]

/-- The conversion is granted at once: `x` holds `newMode`, which covers its old mode. -/
theorem LockHead.Inv.convertGrant {h : LockHead} (hi : h.Inv) {A B : List LockRequest}
    {x : LockRequest} (hl : h.grantedList = A ++ x :: B) (hs : x.status = STATUS_GRANTED)
    {newMode : LockMode} (hnone : newMode ≠ .MODE_NONE) (hcov : Covers x.mode newMode)
    (hfree : conflicts newMode
      (grantedModesWithout h.grantedCounts (fun i => if x.mode = i then 1 else 0)) = false) :
    { (h.incGrantedModeCount newMode).decGrantedModeCount x.mode with
        grantedList := A ++ { x with mode := newMode } :: B }.Inv := by
  have hx : x ∈ h.grantedList := by rw [hl]; exact mem_append_cons_iff.mpr (Or.inl rfl)
  have hc := hi.granted.counted
  have hd : KeysDistinct LockRequest.locker h.grantedList :=
    hi.distinct.sublist (List.sublist_append_left _ _)
  have hother : ∀ q ∈ h.grantedList, q.locker ≠ x.locker → conflictsHeld newMode q = false := by
    intro q hq hne
    rw [ownCounts_granted hs] at hfree
    by_contra hb
    have := (hc.conflicts_without_iff hd hx newMode).mpr ⟨q, hq, hne, by simpa using hb⟩
    rw [hfree] at this
    cases this
  rw [hl] at hc
  refine hi.replace hl rfl rfl rfl rfl (hc.changeMode hs newMode) ⟨rfl, fun m hm => ?_⟩
    ⟨hnone, Or.inl hs⟩ (fun q hq hne => ?_) (fun hs' => by simp [hs] at hs')
  · simp only [conflictsHeld, hs, Bool.or_eq_true, Bool.and_eq_true, beq_iff_eq] at hm ⊢
    rcases hm with hm | ⟨hs', -⟩
    · exact Or.inl (hcov m hm)
    · cases hs'
  · have := hother q (by rw [hl]; exact mem_append_cons_iff.mpr (Or.inr hq)) hne
    simp only [conflictsHeld, Bool.or_eq_false_iff] at this
    exact this.1

/-- After the migration, the granted request that `findRequest` finds sits on the granted
queue, where `modifyQueued` rewrites it in place. -/
theorem Migrated.split {e : ResourceEntry} {res : LockHead × (PartitionId → Option PartitionedLockHead)}
    (hm : Migrated e res) (hg : e.Good) {k : LockerId} {r : LockRequest}
    (hr : e.findRequest k = some r) (hs : r.status = STATUS_GRANTED) (f : LockRequest → LockRequest) :
    ∃ A B, res.1.grantedList = A ++ r :: B ∧ modifyQueued k f res.1.grantedList = A ++ f r :: B := by
  obtain ⟨hk, hmem⟩ := hg.granted_of_findRequest hr hs
  obtain ⟨A, B, h₁, h₂⟩ := hm.inv.split_granted ((hm.granted r).mpr hmem) f
  rw [hk] at h₂
  exact ⟨A, B, h₁, h₂⟩

/-- An entry whose head has the invariant and no partitions, once no partitioned head is
left, is good. -/
theorem Migrated.good {e : ResourceEntry} {res : LockHead × (PartitionId → Option PartitionedLockHead)}
    (hm : Migrated e res) {h : LockHead} (hi : h.Inv) (hp : h.partitions = []) :
    ({ lockHead := some h, partitionedLockHeads := res.2 } : ResourceEntry).Good :=
  ⟨hi, partitionsGood_of_none hm.cleared _, fun p hq => by simp [hm.cleared p] at hq,
    fun hq => absurd hp hq⟩

theorem ResourceEntry.Good.convert {e : ResourceEntry} (hg : e.Good) {locker : LockerId}
    {newMode : LockMode} {r : LockRequest} (hr : e.findRequest locker = some r)
    (hs : r.status = STATUS_GRANTED) (hcov : isModeCovered r.mode newMode = true) :
    (convert e locker newMode).1.Good := by
  have hf : CountOnly fun r : LockRequest => { r with recursiveCount := r.recursiveCount + 1 } :=
    fun _ => rfl
  have hg' := hg.modifyRequest hf locker
  have hr' := findRequest_modifyRequest hf hr
  unfold mongo.lock_manager.convert
  dsimp only
  set e' := e.modifyRequest locker fun r => { r with recursiveCount := r.recursiveCount + 1 }
  set r' : LockRequest := { r with recursiveCount := r.recursiveCount + 1 }
  rw [hr']
  dsimp only
  split
  · exact hg'
  · rename_i hfast
    split
    · exact hg'
    · rename_i lock hlock
      have hm := hg'.migrate
      rw [show e'.head = lock by simp [ResourceEntry.head, hlock]] at hm
      obtain ⟨A, B, hl, hq⟩ := hm.split hg' hr' hs
        fun r => { r with status := STATUS_CONVERTING, convertMode := newMode }
      obtain ⟨A', B', hl', hq'⟩ := hm.split hg' hr' hs fun r => { r with mode := newMode }
      generalize migrateIfPartitioned lock e'.partitionedLockHeads = res at hm hl hq hl' hq' ⊢
      have hnone : newMode ≠ .MODE_NONE := by
        rintro rfl
        exact hfast (isModeCovered_none _)
      split
      · rename_i hblock
        rw [hq]
        exact hm.good (hm.inv.convertWait hl hs hnone (covers_of_isModeCovered hcov) hblock)
          hm.partitions
      · rename_i hfree
        have hkeep : ((res.1.incGrantedModeCount newMode).decGrantedModeCount r'.mode).grantedList =
            res.1.grantedList := rfl
        rw [hkeep, hq']
        exact hm.good (hm.inv.convertGrant hl' hs hnone (covers_of_isModeCovered hcov)
          (Bool.eq_false_iff.mpr hfree)) hm.partitions

/-! ## `unlock` -/

/-- A granted request released: the front of the conflict queue still waits when its mode
stays held, which is when the code does not look at the queue. -/
theorem LockHead.Inv.unlockGranted {h : LockHead} (hi : h.Inv) {x : LockRequest}
    (hx : x ∈ h.grantedList) (hs : x.status = STATUS_GRANTED) :
    let lock₁ := { h with grantedList := h.grantedList.erase x }.decGrantedModeCount x.mode
    let lock₂ := if x.compatibleFirst then
      { lock₁ with compatibleFirstCount := lock₁.compatibleFirstCount - 1 } else lock₁
    let lock₃ := onLockModeChanged lock₂ (lock₂.grantedCounts x.mode == 0)
    lock₃.Inv ∧ PartitionSafe h lock₃ := by
  intro lock₁ lock₂ lock₃
  have e : lock₂ = { h.decGrantedModeCount x.mode with
      grantedList := h.grantedList.erase x,
      compatibleFirstCount := if x.compatibleFirst then h.compatibleFirstCount - 1
        else h.compatibleFirstCount } := by
    simp only [lock₂, lock₁]
    cases x.compatibleFirst <;> rfl
  have hsub : ∀ q ∈ lock₂.grantedList, q ∈ h.grantedList := by
    rw [e]
    exact fun q hq => List.mem_of_mem_erase hq
  have hcounted : GrantedCounted lock₂ lock₂.grantedList := by
    rw [e]
    exact (grantedCounted_erase hi.granted.counted hx hs).congr rfl rfl rfl rfl
  have hq : GrantedQueue lock₂ lock₂.grantedList :=
    ⟨hcounted, fun r hr => hi.granted.shape r (hsub r hr),
      fun a ha b hb => hi.granted.compatible a (hsub a ha) b (hsub b hb)⟩
  have hcl : lock₂.conflictList = h.conflictList := by rw [e]; rfl
  have hsafe : PartitionSafe h lock₂ := by
    refine ⟨by rw [e]; rfl, fun ho => ⟨⟨hcl.trans ho.noWaiters, fun q hq => ho.granted q (hsub q hq)⟩,
      fun q hq => ⟨q, ?_, rfl⟩⟩⟩
    rw [hcl] at hq
    rcases List.mem_append.mp hq with hq | hq
    · exact List.mem_append_left _ (hsub q hq)
    · exact List.mem_append_right _ hq
  refine ⟨onLockModeChanged_inv hq (hcl ▸ hi.conflict.congr (by rw [e]; rfl) (by rw [e]; rfl))
    (hcl ▸ hi.waiting) ?_ fun hcheck => ?_, hsafe.onLockModeChanged _⟩
  · rw [hcl, e]
    exact hi.distinct.sublist ((List.erase_sublist).append_right _)
  -- the mode of `x` is still held by another request `q'`, which blocks what `x` blocked
  have hpos : 0 < grantedCountOf lock₂.grantedList x.mode := by
    rw [← hcounted.counts]
    exact Nat.pos_of_ne_zero (by simpa using hcheck)
  obtain ⟨q', hq', hheld⟩ := (grantedCountOf_pos_iff _ _).mp hpos
  refine ⟨fun f tl hf => ?_, fun _ => List.ne_nil_of_mem hq'⟩
  rw [hcl] at hf
  rcases hi.front f tl hf with ⟨q, hq, hb⟩ | hr
  · by_cases hqx : q = x
    · subst hqx
      have hfx : conflictsWith f.mode q.mode = true := by simpa [conflictsHeld, hs] using hb
      refine Or.inl ⟨q', hq', ?_⟩
      rcases hheld with e' | ⟨hs', e'⟩
      · simp [conflictsHeld, e', hfx]
      · simp [conflictsHeld, hs', e', hfx]
    · refine Or.inl ⟨q, ?_, hb⟩
      rw [e]
      exact (List.mem_erase_of_ne hqx).mpr hq
  · exact Or.inr hr

/-- A waiting request cancelled: the conflict queue is looked at again. -/
theorem LockHead.Inv.unlockWaiting {h : LockHead} (hi : h.Inv) {x : LockRequest}
    (hx : x ∈ h.conflictList) :
    let lock₁ := { h with conflictList := h.conflictList.erase x }.decConflictModeCount x.mode
    let lock₂ := onLockModeChanged lock₁ true
    lock₂.Inv ∧ PartitionSafe h lock₂ := by
  intro lock₁ lock₂
  have hsafe : PartitionSafe h lock₁ := by
    refine ⟨rfl, fun ho => ?_⟩
    rw [ho.noWaiters] at hx
    cases hx
  refine ⟨onLockModeChanged_inv ⟨hi.granted.counted.congr rfl rfl rfl rfl, hi.granted.shape,
    hi.granted.compatible⟩ ((conflictCounted_erase hi.conflict hx).congr rfl rfl)
    (fun r hr => hi.waiting r (List.mem_of_mem_erase hr))
    (hi.distinct.sublist ((List.erase_sublist).append_left _)) (fun hc => ?_),
    hsafe.onLockModeChanged _⟩
  cases hc

/-- A conversion cancelled: the request holds its granted mode again. `MODE_NONE` is never
held, so the code always looks at the conflict queue. -/
theorem LockHead.Inv.unlockConverting {h : LockHead} (hi : h.Inv) {A B : List LockRequest}
    {x : LockRequest} (hl : h.grantedList = A ++ x :: B) (hs : x.status = STATUS_CONVERTING) :
    let lock₁ := { h with
      grantedList := A ++ { x with status := STATUS_GRANTED, convertMode := .MODE_NONE } :: B,
      conversionsCount := h.conversionsCount - 1 }.decGrantedModeCount x.convertMode
    let lock₂ := onLockModeChanged lock₁ (lock₁.grantedCounts .MODE_NONE == 0)
    lock₂.Inv ∧ PartitionSafe h lock₂ := by
  intro lock₁ lock₂
  have hx : x ∈ h.grantedList := by rw [hl]; exact mem_append_cons_iff.mpr (Or.inl rfl)
  have hc := hi.granted.counted
  have hshape := hi.granted.shape x hx
  have hpos : 0 < h.grantedCounts x.convertMode :=
    hc.counts _ ▸ (grantedCountOf_pos_iff _ _).mpr ⟨x, hx, Or.inr ⟨hs, rfl⟩⟩
  have hconv : 0 < h.conversionsCount := by
    rw [hc.conversions]
    exact List.countP_pos_iff.mpr ⟨x, hx, by simp [hs]⟩
  have hold : ∀ q ∈ A ++ B, q ∈ h.grantedList := fun q hq => by
    rw [hl]
    exact mem_append_cons_iff.mpr (Or.inr hq)
  rw [hl] at hc
  have hq : GrantedQueue lock₁ lock₁.grantedList := by
    refine ⟨hc.replace (replace_append_perm A B x _) (fun m => ?_)
      (decModeCount_mask _ hi.granted.counted.modes) ?_ rfl rfl, fun r hr => ?_, ?_⟩
    · by_cases hm : x.convertMode = m
      · subst hm
        simp [lock₁, LockHead.decGrantedModeCount, hs]
        omega
      · simp [lock₁, LockHead.decGrantedModeCount, hs, hm, Ne.symm hm]
    · simp [lock₁, LockHead.decGrantedModeCount, hs]
      omega
    · rcases mem_append_cons_iff.mp hr with rfl | hr'
      · exact ⟨hshape.1, Or.inl rfl⟩
      · exact hi.granted.shape r (hold r hr')
    · exact (hl ▸ hi.granted.compatible).replace rfl
        fun q hq hne => hi.granted.compatible x hx q (hold q hq) (Ne.symm hne)
  have hnone : lock₁.grantedCounts .MODE_NONE = 0 :=
    hq.counted.count_none fun q hq' =>
      ⟨(hq.shape q hq').1, (hq.shape q hq').convertMode_ne_none⟩
  have hsafe : PartitionSafe h lock₁ := by
    refine ⟨rfl, fun ho => ?_⟩
    rw [(ho.granted x hx).1] at hs
    cases hs
  have hd : KeysDistinct LockRequest.locker (lock₁.grantedList ++ lock₁.conflictList) := by
    have hd := hi.distinct
    rw [hl] at hd
    exact hd.of_map_perm (by simp [lock₁, LockHead.decGrantedModeCount])
  refine ⟨onLockModeChanged_inv hq (hi.conflict.congr rfl rfl) hi.waiting hd fun hcheck => ?_,
    hsafe.onLockModeChanged _⟩
  rw [hnone] at hcheck
  cases hcheck

theorem PartitionsGood.update_sublist {plh : PartitionId → Option PartitionedLockHead}
    {l : List LockRequest} (hp : PartitionsGood plh l) {p : PartitionId} {l' : List LockRequest}
    (hs : l'.Sublist (partitionedListOf plh p)) :
    PartitionsGood (Function.update plh p (some ⟨l'⟩)) l := by
  have hmem : ∀ q, ∀ r ∈ partitionedListOf (Function.update plh p (some ⟨l'⟩)) q,
      r ∈ partitionedListOf plh q := by
    intro q r hr
    rw [partitionedListOf_update_some] at hr
    split at hr
    · subst_vars
      exact hs.subset hr
    · exact hr
  refine ⟨fun q r hr => hp.requests q r (hmem q r hr), fun q => ?_,
    fun q r hr => hp.disjoint q r (hmem q r hr)⟩
  rw [partitionedListOf_update_some]
  split
  · subst_vars
    exact (hp.distinct _).sublist hs
  · exact hp.distinct q

/-- A request leaves its partitioned head. -/
theorem ResourceEntry.Good.erasePartitioned {e : ResourceEntry} (hg : e.Good) {p : PartitionId}
    {r : LockRequest} (hr : r ∈ e.partitionedList p) :
    ({ e with
        partitionedLockHeads := Function.update e.partitionedLockHeads p
          (some ⟨(e.partitionedList p).erase r⟩) } : ResourceEntry).Good := by
  refine ⟨hg.head, hg.partitioned.update_sublist List.erase_sublist, fun q hq => ?_,
    hg.intentOnly⟩
  by_cases hqp : q = p
  · subst hqp
    exact hg.listed q (isSome_of_mem_partitionedListOf hr)
  · exact hg.listed q (by simpa [Function.update_of_ne hqp] using hq)

/-- A request that is not on its partitioned head is on the head. -/
theorem ResourceEntry.Good.mem_head_of_findRequest {e : ResourceEntry} (hg : e.Good)
    {k : LockerId} {r : LockRequest} (hr : e.findRequest k = some r)
    (hnot : ¬(r.partitioned && (e.partitionedList (partitionOf k)).contains r) = true) :
    r ∈ e.head.grantedList ++ e.head.conflictList := by
  obtain ⟨-, hp | hh⟩ := findRequest_some hr
  · have hpart := (hg.partitioned.requests _ r hp).2.1
    simp [hpart, hp] at hnot
  · exact hh

theorem ResourceEntry.Good.unlock {e : ResourceEntry} (hg : e.Good) (locker : LockerId) :
    (unlock e locker).1.Good := by
  have hf : CountOnly fun r : LockRequest => { r with recursiveCount := r.recursiveCount - 1 } :=
    fun _ => rfl
  have hg' := hg.modifyRequest hf locker
  unfold mongo.lock_manager.unlock
  dsimp only
  set e' := e.modifyRequest locker fun r => { r with recursiveCount := r.recursiveCount - 1 }
  split
  · exact hg'
  · rename_i r hr
    split
    · exact hg'
    · split
      · rename_i hpart
        simp only [Bool.and_eq_true] at hpart
        exact hg'.erasePartitioned (by simpa using hpart.2)
      · rename_i hnot
        have hmem := hg'.mem_head_of_findRequest hr hnot
        have hk := (findRequest_some hr).1
        split
        · rename_i lock hlock hs
          split
          · exact hg'
          · have hi := hg'.inv_of_lockHead hlock
            rw [ResourceEntry.head_of_lockHead hlock] at hmem
            obtain ⟨hi₃, hsafe⟩ := hi.unlockGranted (hi.mem_granted hmem (by simp [hs])) hs
            exact hg'.withHead hlock hi₃ hsafe
        · rename_i lock hlock hs
          have hi := hg'.inv_of_lockHead hlock
          rw [ResourceEntry.head_of_lockHead hlock] at hmem
          obtain ⟨hi₂, hsafe⟩ := hi.unlockWaiting (hi.mem_conflict hmem hs)
          exact hg'.withHead hlock hi₂ hsafe
        · rename_i lock hlock hs
          have hi := hg'.inv_of_lockHead hlock
          rw [ResourceEntry.head_of_lockHead hlock] at hmem
          obtain ⟨A, B, hl, hq⟩ := hi.split_granted (hi.mem_granted hmem (by simp [hs]))
            fun r => { r with status := STATUS_GRANTED, convertMode := .MODE_NONE }
          rw [← hk, hq]
          obtain ⟨hi₂, hsafe⟩ := hi.unlockConverting hl hs
          exact hg'.withHead hlock hi₂ hsafe
        · exact hg'

/-! ## `downgrade` -/

theorem isIntent_of_isModeCovered {m n : LockMode} (hm : IsIntent m) (hc : isModeCovered n m = true)
    (hn : n ≠ .MODE_NONE) : IsIntent n := by
  simp only [IsIntent] at hm ⊢
  revert hc hn
  rcases hm with rfl | rfl <;> cases n <;> decide

/-- A granted request moves to a mode its old mode covers: it blocks less, so the queues are
looked at again. -/
theorem LockHead.Inv.downgrade {h : LockHead} (hi : h.Inv) {A B : List LockRequest}
    {x : LockRequest} (hl : h.grantedList = A ++ x :: B) (hs : x.status = STATUS_GRANTED)
    {newMode : LockMode} (hnone : newMode ≠ .MODE_NONE) (hcov : isModeCovered newMode x.mode = true) :
    let lock₂ := { (h.incGrantedModeCount newMode).decGrantedModeCount x.mode with
      grantedList := A ++ { x with mode := newMode } :: B }
    (onLockModeChanged lock₂ true).Inv ∧ PartitionSafe h (onLockModeChanged lock₂ true) := by
  intro lock₂
  have hx : x ∈ h.grantedList := by rw [hl]; exact mem_append_cons_iff.mpr (Or.inl rfl)
  have hold : ∀ q ∈ A ++ B, q ∈ h.grantedList := fun q hq => by
    rw [hl]
    exact mem_append_cons_iff.mpr (Or.inr hq)
  have hc := hi.granted.counted
  rw [hl] at hc
  have hq : GrantedQueue lock₂ lock₂.grantedList := by
    refine ⟨hc.changeMode hs newMode, fun r hr => ?_, ?_⟩
    · rcases mem_append_cons_iff.mp hr with rfl | hr'
      · exact ⟨hnone, Or.inl hs⟩
      · exact hi.granted.shape r (hold r hr')
    · refine (hl ▸ hi.granted.compatible).replace rfl fun q hq hne => ?_
      have hxq := hi.granted.compatible x hx q (hold q hq) (Ne.symm hne)
      -- the old mode covers the new one, so what conflicts with the new mode conflicts with it
      rw [conflictsWith_comm] at hxq ⊢
      exact Bool.eq_false_iff.mpr fun hb => by
        rw [covers_of_isModeCovered hcov q.mode hb] at hxq
        cases hxq
  have hd : KeysDistinct LockRequest.locker (lock₂.grantedList ++ lock₂.conflictList) := by
    have hd := hi.distinct
    rw [hl] at hd
    exact hd.of_map_perm (by simp [lock₂, LockHead.decGrantedModeCount, LockHead.incGrantedModeCount])
  have hsafe : PartitionSafe h lock₂ := by
    refine ⟨rfl, fun ho => ⟨⟨ho.noWaiters, fun q hq => ?_⟩, fun q hq => ?_⟩⟩
    · rcases mem_append_cons_iff.mp hq with rfl | hq'
      · exact ⟨hs, isIntent_of_isModeCovered (ho.granted x hx).2 hcov hnone⟩
      · exact ho.granted q (hold q hq')
    · refine ⟨if q.locker = x.locker then x else q, ?_, by split <;> simp_all⟩
      rw [hl]
      rcases List.mem_append.mp hq with hq | hq
      · rcases mem_append_cons_iff.mp hq with rfl | hq'
        · simp
        · split
          · simp
          · exact List.mem_append_left _ (mem_append_cons_iff.mpr (Or.inr hq'))
      · split
        · simp
        · exact List.mem_append_right _ hq
  exact ⟨onLockModeChanged_inv hq (hi.conflict.congr rfl rfl) hi.waiting hd (fun hc => by cases hc),
    hsafe.onLockModeChanged _⟩

theorem ResourceEntry.Good.downgrade {e : ResourceEntry} (hg : e.Good) {locker : LockerId}
    {newMode : LockMode} {r : LockRequest}
    (hr : e.head.grantedList.find? (·.locker == locker) = some r) (hs : r.status = STATUS_GRANTED)
    (hnone : newMode ≠ .MODE_NONE) (hcov : isModeCovered newMode r.mode = true) :
    (downgrade e locker newMode).Good := by
  unfold mongo.lock_manager.downgrade
  split
  · rename_i lock request hlock hfind
    obtain rfl : r = request := Option.some.inj (hr.symm.trans hfind)
    have hi := hg.inv_of_lockHead hlock
    have hx : r ∈ lock.grantedList :=
      ResourceEntry.head_of_lockHead hlock ▸ List.mem_of_find?_eq_some hr
    have hk : r.locker = locker := by simpa using List.find?_some hr
    obtain ⟨A, B, hl, hq⟩ := hi.split_granted hx fun q => { q with mode := newMode }
    have hkeep : ((lock.incGrantedModeCount newMode).decGrantedModeCount r.mode).grantedList =
        lock.grantedList := rfl
    dsimp only
    rw [hkeep, ← hk, hq]
    obtain ⟨hi₂, hsafe⟩ := hi.downgrade hl hs hnone hcov
    exact hg.withHead hlock hi₂ hsafe
  · exact hg

/-! ## `cleanupUnusedLocks` -/

theorem ResourceEntry.Good.cleanupUnusedLocks {e : ResourceEntry} (hg : e.Good) :
    (cleanupUnusedLocks e).Good := by
  unfold mongo.lock_manager.cleanupUnusedLocks
  split
  · exact hg
  · rename_i lock hlock
    have hm := hg.migrate
    rw [ResourceEntry.head_of_lockHead hlock] at hm
    dsimp only
    generalize migrateIfPartitioned lock e.partitionedLockHeads = res at hm ⊢
    split
    · exact ⟨initNew_inv, partitionsGood_of_none hm.cleared _,
        fun p hp => by simp [hm.cleared p] at hp, fun hp => absurd rfl hp⟩
    · exact hm.good hm.inv hm.partitions

end mongo.lock_manager
