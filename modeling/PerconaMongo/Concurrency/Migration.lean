-- The migration of the partitioned heads (`migratePartitionedLockHeads`). While a head
-- is partitioned it holds only granted intent modes and no waiter, so each migrated
-- intent request is granted again: the check `res == LOCK_OK` of the code never fails.
import PerconaMongo.Concurrency.HeadInvariant

namespace mongo.lock_manager

open LockRequest.Status LockResult keyed_list

/-! ## Partitioned heads -/

def IsIntent (m : LockMode) : Prop := m = .MODE_IS ∨ m = .MODE_IX

/-- The requests of the partitioned head of partition `p`, if there is one. -/
def partitionedListOf (plh : PartitionId → Option PartitionedLockHead) (p : PartitionId) :
    List LockRequest :=
  ((plh p).map (·.grantedList)).getD []

theorem ResourceEntry.partitionedList_eq (e : ResourceEntry) (p : PartitionId) :
    e.partitionedList p = partitionedListOf e.partitionedLockHeads p := rfl

@[simp] theorem partitionedListOf_update_none (plh : PartitionId → Option PartitionedLockHead)
    (p q : PartitionId) :
    partitionedListOf (Function.update plh p none) q =
      if q = p then [] else partitionedListOf plh q := by
  by_cases hq : q = p
  · subst hq
    simp [partitionedListOf]
  · simp [partitionedListOf, Function.update_of_ne hq, hq]

/-- The partitioned heads hold granted intent requests of their own partition, of lockers
that no other queue holds; `l` is the queues of the head. -/
structure PartitionsGood (plh : PartitionId → Option PartitionedLockHead) (l : List LockRequest) :
    Prop where
  requests : ∀ p, ∀ r ∈ partitionedListOf plh p,
    r.status = STATUS_GRANTED ∧ r.partitioned = true ∧ IsIntent r.mode ∧ partitionOf r.locker = p
  distinct : ∀ p, KeysDistinct LockRequest.locker (partitionedListOf plh p)
  disjoint : ∀ p, ∀ r ∈ partitionedListOf plh p, ∀ q ∈ l, r.locker ≠ q.locker

/-- A partitioned head holds only granted intent modes, and no waiter. -/
structure IntentOnly (h : LockHead) : Prop where
  noWaiters : h.conflictList = []
  granted : ∀ q ∈ h.grantedList, q.status = STATUS_GRANTED ∧ IsIntent q.mode

theorem IntentOnly.not_conflicts {h : LockHead} (hi : h.Inv) (ho : IntentOnly h) {m : LockMode}
    (hm : IsIntent m) :
    conflicts m h.grantedModes = false ∧ conflicts m h.conflictModes = false := by
  constructor
  · cases hc : conflicts m h.grantedModes
    · rfl
    · obtain ⟨q, hq, hh⟩ := (hi.granted.counted.conflicts_iff m).mp hc
      obtain ⟨hs, hqm⟩ := ho.granted q hq
      simp [conflictsHeld, hs, not_conflictsWith_intent m q.mode hm hqm] at hh
  · cases hc : conflicts m h.conflictModes
    · rfl
    · obtain ⟨q, hq, -⟩ := (hi.conflict.conflicts_iff m).mp hc
      rw [ho.noWaiters] at hq
      cases hq

theorem LockRequest.with_status_self {r : LockRequest} {s : LockRequest.Status} (h : r.status = s) :
    { r with status := s } = r := by
  cases r
  cases h
  rfl

/-! ## Granting the migrated requests again -/

theorem regrantAll_cons (h : LockHead) (r : LockRequest) (rs : List LockRequest) :
    h.regrantAll (r :: rs) =
      (((h.newRequest r).1.regrantAll rs).1,
        (h.newRequest r).2 == LOCK_OK && ((h.newRequest r).1.regrantAll rs).2) := rfl

/-- The inner loop of the migration grants every request of a partitioned head again, in
order, at the back of the granted queue. -/
theorem regrantAll_spec {h : LockHead} (hi : h.Inv) (ho : IntentOnly h) {rs : List LockRequest}
    (hrs : ∀ r ∈ rs, r.status = STATUS_GRANTED ∧ IsIntent r.mode)
    (hd : KeysDistinct LockRequest.locker (h.grantedList ++ rs)) :
    (h.regrantAll rs).2 = true ∧ (h.regrantAll rs).1.Inv ∧ IntentOnly (h.regrantAll rs).1 ∧
      (h.regrantAll rs).1.grantedList = h.grantedList ++ rs ∧
      (h.regrantAll rs).1.partitions = h.partitions := by
  induction rs generalizing h with
  | nil => exact ⟨rfl, hi, ho, (List.append_nil _).symm, rfl⟩
  | cons r rs ih =>
    rw [regrantAll_cons]
    obtain ⟨hs, hm⟩ := hrs r List.mem_cons_self
    obtain ⟨hfg, hfc⟩ := ho.not_conflicts hi hm
    have hmode : r.mode ≠ .MODE_NONE := by rcases hm with e | e <;> rw [e] <;> decide
    -- no granted mode conflicts, and no waiter: `newRequest` grants the request
    rcases newRequest_cases h r with ⟨-, hwhy, -, -⟩ | ⟨hres, -, -, hg, hcl⟩
    · rcases hwhy with hc | ⟨-, hc⟩
      · rw [hfg] at hc; cases hc
      · rw [hfc] at hc; cases hc
    · rw [LockRequest.with_status_self hs] at hg
      have hfresh : ∀ q ∈ h.grantedList ++ h.conflictList, q.locker ≠ r.locker := by
        rw [ho.noWaiters, List.append_nil]
        intro q hq
        have := List.pairwise_append.mp hd
        exact this.2.2 q hq r List.mem_cons_self
      have hi₁ := newRequest_inv hi hmode hfresh
      have ho₁ : IntentOnly (h.newRequest r).1 := by
        refine ⟨by rw [hcl, ho.noWaiters], fun q hq => ?_⟩
        rw [hg] at hq
        rcases List.mem_append.mp hq with hq' | hq'
        · exact ho.granted q hq'
        · rw [List.mem_singleton.mp hq']
          exact ⟨hs, hm⟩
      have hd₁ : KeysDistinct LockRequest.locker ((h.newRequest r).1.grantedList ++ rs) := by
        rw [hg, List.append_assoc, List.singleton_append]
        exact hd
      obtain ⟨hok, hi₂, ho₂, hg₂, hp₂⟩ :=
        ih hi₁ ho₁ (fun q hq => hrs q (List.mem_cons_of_mem r hq)) hd₁
      refine ⟨by simp [hres, hok], hi₂, ho₂, ?_, by rw [hp₂, newRequest_partitions]⟩
      rw [hg₂, hg, List.append_assoc, List.singleton_append]

/-! ## The outer loop, over the partitions -/

theorem migrateLoop_cons (h : LockHead) (plh : PartitionId → Option PartitionedLockHead)
    (p : PartitionId) (ps : List PartitionId) :
    h.migrateLoop plh (p :: ps) =
      match plh p with
      | none => h.migrateLoop plh ps
      | some pl =>
        (((h.regrantAll pl.grantedList).1.migrateLoop (Function.update plh p none) ps).1,
          ((h.regrantAll pl.grantedList).1.migrateLoop (Function.update plh p none) ps).2.1,
          (h.regrantAll pl.grantedList).2 &&
            ((h.regrantAll pl.grantedList).1.migrateLoop (Function.update plh p none) ps).2.2) :=
  rfl

/-- What the migration loop returns over the partitions `ps`: every check passes, the head
keeps its invariant, the partitioned heads of `ps` are gone, and their requests are granted
on the head. -/
structure MigrateResult (h : LockHead) (plh : PartitionId → Option PartitionedLockHead)
    (ps : List PartitionId)
    (res : LockHead × (PartitionId → Option PartitionedLockHead) × Bool) : Prop where
  ok : res.2.2 = true
  inv : res.1.Inv
  intentOnly : IntentOnly res.1
  good : PartitionsGood res.2.1 (res.1.grantedList ++ res.1.conflictList)
  cleared : ∀ p ∈ ps, res.2.1 p = none
  untouched : ∀ p, p ∉ ps → res.2.1 p = plh p
  partitions : res.1.partitions = h.partitions
  granted : ∀ r, r ∈ res.1.grantedList ↔
    r ∈ h.grantedList ∨ ∃ p ∈ ps, r ∈ partitionedListOf plh p

/-- One partitioned head moved onto the head keeps the partitioned heads good. -/
theorem partitionsGood_migrate {h : LockHead} (ho : IntentOnly h)
    {plh : PartitionId → Option PartitionedLockHead}
    (hg : PartitionsGood plh (h.grantedList ++ h.conflictList)) (p : PartitionId) {h' : LockHead}
    (hg' : h'.grantedList = h.grantedList ++ partitionedListOf plh p)
    (hc' : h'.conflictList = []) :
    PartitionsGood (Function.update plh p none) (h'.grantedList ++ h'.conflictList) := by
  refine ⟨fun q r hr => ?_, fun q => ?_, fun q r hr s hs => ?_⟩
  · rw [partitionedListOf_update_none] at hr
    split at hr
    · cases hr
    · exact hg.requests q r hr
  · rw [partitionedListOf_update_none]
    split
    · exact List.Pairwise.nil
    · exact hg.distinct q
  · rw [partitionedListOf_update_none] at hr
    split at hr
    · cases hr
    · rename_i hqp
      rw [hg', hc', List.append_nil] at hs
      rcases List.mem_append.mp hs with hs' | hs'
      · rw [ho.noWaiters, List.append_nil] at hg
        exact hg.disjoint q r hr s hs'
      · -- requests of two partitioned heads have lockers of two partitions
        intro e
        have h₁ := (hg.requests q r hr).2.2.2
        have h₂ := (hg.requests p s hs').2.2.2
        rw [e] at h₁
        exact hqp (h₁.symm.trans h₂)

theorem migrateLoop_spec {h : LockHead} (hi : h.Inv) (ho : IntentOnly h)
    {plh : PartitionId → Option PartitionedLockHead}
    (hg : PartitionsGood plh (h.grantedList ++ h.conflictList)) (ps : List PartitionId) :
    MigrateResult h plh ps (h.migrateLoop plh ps) := by
  induction ps generalizing h plh with
  | nil =>
    refine ⟨rfl, hi, ho, hg, by simp, fun _ _ => rfl, rfl, fun r => ?_⟩
    show r ∈ h.grantedList ↔ _
    simp
  | cons p ps ih =>
    rw [migrateLoop_cons]
    cases hp : plh p with
    | none =>
      have r := ih hi ho hg
      refine ⟨r.ok, r.inv, r.intentOnly, r.good, ?_, ?_, r.partitions, ?_⟩
      · intro q hq
        rcases List.mem_cons.mp hq with rfl | hq'
        · by_cases hin : q ∈ ps
          · exact r.cleared q hin
          · rw [r.untouched q hin, hp]
        · exact r.cleared q hq'
      · intro q hq
        exact r.untouched q (fun hq' => hq (List.mem_cons_of_mem p hq'))
      · intro s
        rw [r.granted s]
        simp only [List.mem_cons, exists_eq_or_imp, partitionedListOf, hp]
        simp
    | some pl =>
      have hpl : partitionedListOf plh p = pl.grantedList := by simp [partitionedListOf, hp]
      have hrs : ∀ r ∈ pl.grantedList, r.status = STATUS_GRANTED ∧ IsIntent r.mode := by
        intro r hr
        obtain ⟨hs, -, hm, -⟩ := hg.requests p r (hpl ▸ hr)
        exact ⟨hs, hm⟩
      have hd : KeysDistinct LockRequest.locker (h.grantedList ++ pl.grantedList) := by
        refine List.pairwise_append.mpr ⟨?_, hpl ▸ hg.distinct p, fun a ha b hb => ?_⟩
        · exact hi.distinct.sublist (List.sublist_append_left _ _)
        · exact Ne.symm (hg.disjoint p b (hpl ▸ hb) a (List.mem_append_left _ ha))
      obtain ⟨hok, hi₁, ho₁, hg₁, hp₁⟩ := regrantAll_spec hi ho hrs hd
      have hgood := partitionsGood_migrate ho hg p (hpl ▸ hg₁) ho₁.noWaiters
      have r := ih hi₁ ho₁ hgood
      refine ⟨by simp [hok, r.ok], r.inv, r.intentOnly, r.good, ?_, ?_, by rw [r.partitions, hp₁], ?_⟩
      · intro q hq
        rcases List.mem_cons.mp hq with rfl | hq'
        · by_cases hin : q ∈ ps
          · exact r.cleared q hin
          · rw [r.untouched q hin]
            simp
        · exact r.cleared q hq'
      · intro q hq
        rw [r.untouched q (fun hq' => hq (List.mem_cons_of_mem p hq'))]
        exact Function.update_of_ne (fun e => hq (by rw [e]; exact List.mem_cons_self)) _ _
      · intro s
        rw [r.granted s, hg₁]
        simp only [List.mem_append, List.mem_cons, exists_eq_or_imp, partitionedListOf_update_none,
          hpl]
        constructor
        · rintro ((hs | hs) | ⟨q, hq, hs⟩)
          · exact Or.inl hs
          · exact Or.inr (Or.inl hs)
          · split at hs
            · cases hs
            · exact Or.inr (Or.inr ⟨q, hq, hs⟩)
        · rintro (hs | hs | ⟨q, hq, hs⟩)
          · exact Or.inl (Or.inl hs)
          · exact Or.inl (Or.inr hs)
          · by_cases hqp : q = p
            · subst hqp
              exact Or.inl (Or.inr (hpl ▸ hs))
            · exact Or.inr ⟨q, hq, by simp [hqp, hs]⟩

/-! ## `migratePartitionedLockHeads` -/

/-- The invariant of a head does not read its list of partitions. -/
theorem LockHead.Inv.withPartitions {h : LockHead} (hi : h.Inv) (ps : List PartitionId) :
    { h with partitions := ps }.Inv :=
  ⟨⟨hi.granted.counted.congr rfl rfl rfl rfl, hi.granted.shape, hi.granted.compatible⟩,
    hi.conflict.congr rfl rfl, hi.waiting, hi.distinct, hi.conversions, hi.front, hi.waitersGranted⟩

theorem migratePartitionedLockHeads_eq (h : LockHead)
    (plh : PartitionId → Option PartitionedLockHead) :
    h.migratePartitionedLockHeads plh =
      ({ (h.migrateLoop plh h.partitions.reverse).1 with partitions := [] },
        (h.migrateLoop plh h.partitions.reverse).2.1,
        (h.migrateLoop plh h.partitions.reverse).2.2) := rfl

theorem isSome_of_mem_partitionedListOf {plh : PartitionId → Option PartitionedLockHead}
    {p : PartitionId} {r : LockRequest} (hr : r ∈ partitionedListOf plh p) : (plh p).isSome := by
  cases hp : plh p with
  | none => simp [partitionedListOf, hp] at hr
  | some _ => rfl

/-- `migratePartitionedLockHeads` of a partitioned head: every migrated request is granted
again (`res == LOCK_OK` each time), no partitioned head is left, and the head holds every
request the partitioned heads held. -/
theorem migratePartitionedLockHeads_spec {h : LockHead} (hi : h.Inv) (ho : IntentOnly h)
    {plh : PartitionId → Option PartitionedLockHead}
    (hg : PartitionsGood plh (h.grantedList ++ h.conflictList))
    (hp : ∀ p, (plh p).isSome → p ∈ h.partitions) :
    (h.migratePartitionedLockHeads plh).2.2 = true ∧ (h.migratePartitionedLockHeads plh).1.Inv ∧
      IntentOnly (h.migratePartitionedLockHeads plh).1 ∧
      (h.migratePartitionedLockHeads plh).1.partitions = [] ∧
      (∀ p, (h.migratePartitionedLockHeads plh).2.1 p = none) ∧
      ∀ r, r ∈ (h.migratePartitionedLockHeads plh).1.grantedList ↔
        r ∈ h.grantedList ∨ ∃ p, r ∈ partitionedListOf plh p := by
  have res := migrateLoop_spec hi ho hg h.partitions.reverse
  rw [migratePartitionedLockHeads_eq]
  refine ⟨res.ok, res.inv.withPartitions [], ⟨res.intentOnly.noWaiters, res.intentOnly.granted⟩,
    rfl, fun p => ?_, fun r => ?_⟩
  · by_cases hin : p ∈ h.partitions.reverse
    · exact res.cleared p hin
    · rw [res.untouched p hin]
      cases hq : plh p with
      | none => rfl
      | some _ => exact absurd (List.mem_reverse.mpr (hp p (by simp [hq]))) hin
  · rw [show r ∈ ({ (h.migrateLoop plh h.partitions.reverse).1 with partitions := [] } :
      LockHead).grantedList ↔ r ∈ (h.migrateLoop plh h.partitions.reverse).1.grantedList from
      Iff.rfl, res.granted r]
    constructor
    · rintro (hr | ⟨p, -, hr⟩)
      · exact Or.inl hr
      · exact Or.inr ⟨p, hr⟩
    · rintro (hr | ⟨p, hr⟩)
      · exact Or.inl hr
      · exact Or.inr ⟨p, List.mem_reverse.mpr (hp p (isSome_of_mem_partitionedListOf hr)), hr⟩

end mongo.lock_manager
