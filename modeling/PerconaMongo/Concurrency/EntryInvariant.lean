-- The invariant of the entries of one resource (`ResourceEntry.Good`): the head keeps its
-- invariant, the partitioned heads hold granted intent requests of their partition, and
-- a head with partitions holds only granted intent modes. Here: the invariant, the writes
-- to recursion counts, the lookup of a locker's request, and the migration.
import PerconaMongo.Concurrency.Migration

namespace mongo.lock_manager

open LockRequest.Status LockResult keyed_list

/-! ## The invariant of a resource -/

/-- The invariant of the entries of one resource. -/
structure ResourceEntry.Good (e : ResourceEntry) : Prop where
  head : e.head.Inv
  partitioned : PartitionsGood e.partitionedLockHeads (e.head.grantedList ++ e.head.conflictList)
  listed : ∀ p, (e.partitionedLockHeads p).isSome → p ∈ e.head.partitions
  intentOnly : e.head.partitions ≠ [] → IntentOnly e.head

theorem empty_good : ResourceEntry.empty.Good where
  head := initNew_inv
  partitioned := ⟨fun _ r hr => by simp [partitionedListOf, ResourceEntry.empty] at hr,
    fun _ => by simp [partitionedListOf, ResourceEntry.empty, KeysDistinct],
    fun _ r hr => by simp [partitionedListOf, ResourceEntry.empty] at hr⟩
  listed := fun _ hp => by simp [ResourceEntry.empty] at hp
  intentOnly := fun hp => absurd rfl hp

/-! ## Writes to the recursion count -/

/-- `f` changes at most the recursion count of a request. -/
def CountOnly (f : LockRequest → LockRequest) : Prop :=
  ∀ r, f r = { r with recursiveCount := (f r).recursiveCount }

section count_only

variable {g : LockRequest → LockRequest} (hg : CountOnly g)
include hg

theorem CountOnly.locker (r : LockRequest) : (g r).locker = r.locker := congrArg (·.locker) (hg r)

theorem CountOnly.mode (r : LockRequest) : (g r).mode = r.mode := congrArg (·.mode) (hg r)

theorem CountOnly.status (r : LockRequest) : (g r).status = r.status := congrArg (·.status) (hg r)

theorem CountOnly.convertMode (r : LockRequest) : (g r).convertMode = r.convertMode :=
  congrArg (·.convertMode) (hg r)

theorem CountOnly.compatibleFirst (r : LockRequest) : (g r).compatibleFirst = r.compatibleFirst :=
  congrArg (·.compatibleFirst) (hg r)

theorem CountOnly.partitioned (r : LockRequest) : (g r).partitioned = r.partitioned :=
  congrArg (·.partitioned) (hg r)

/-- Writing through the pointer of one locker changes only that request. -/
theorem CountOnly.at (k : LockerId) : CountOnly fun r => if r.locker == k then g r else r := by
  intro r
  dsimp only
  split
  · exact hg r
  · rfl

theorem covering_countOnly (r : LockRequest) : Covering (g r) r := by
  refine ⟨hg.locker r, fun m hm => ?_⟩
  simpa [conflictsHeld, hg.mode, hg.status, hg.convertMode] using hm

theorem forall₂_covering_map (l : List LockRequest) : List.Forall₂ Covering (l.map g) l := by
  induction l with
  | nil => exact List.Forall₂.nil
  | cons r l ih => exact List.Forall₂.cons (covering_countOnly hg r) ih

theorem GrantedCounted.map {h h' : LockHead} {l : List LockRequest} (hc : GrantedCounted h l)
    (e₁ : h'.grantedCounts = h.grantedCounts) (e₂ : h'.grantedModes = h.grantedModes)
    (e₃ : h'.conversionsCount = h.conversionsCount)
    (e₄ : h'.compatibleFirstCount = h.compatibleFirstCount) : GrantedCounted h' (l.map g) := by
  obtain ⟨c1, c2, c3, c4⟩ := hc
  refine ⟨fun m => ?_, e₁ ▸ e₂ ▸ c2, ?_, ?_⟩
  · rw [e₁, c1]
    simp [grantedCountOf, List.countP_map, Function.comp_def, hg.mode, hg.status, hg.convertMode]
  · rw [e₃, c3]
    simp [List.countP_map, Function.comp_def, hg.status]
  · rw [e₄, c4]
    simp [List.countP_map, Function.comp_def, hg.compatibleFirst]

theorem ConflictCounted.map {h h' : LockHead} {l : List LockRequest} (hc : ConflictCounted h l)
    (e₁ : h'.conflictCounts = h.conflictCounts) (e₂ : h'.conflictModes = h.conflictModes) :
    ConflictCounted h' (l.map g) := by
  obtain ⟨c1, c2⟩ := hc
  refine ⟨fun m => ?_, e₁ ▸ e₂ ▸ c2⟩
  rw [e₁, c1]
  simp [conflictCountOf, List.countP_map, Function.comp_def, hg.mode]

theorem keysDistinct_map {l : List LockRequest} (hd : KeysDistinct LockRequest.locker l) :
    KeysDistinct LockRequest.locker (l.map g) :=
  hd.of_map_perm (by simp [Function.comp_def, hg.locker])

/-- The head with the requests of its queues rewritten by `g`. -/
theorem LockHead.Inv.mapRequests {h : LockHead} (hi : h.Inv) :
    { h with grantedList := h.grantedList.map g, conflictList := h.conflictList.map g }.Inv := by
  have hf := forall₂_covering_map hg h.grantedList
  refine ⟨⟨hi.granted.counted.map hg rfl rfl rfl rfl, ?_, ?_⟩, hi.conflict.map hg rfl rfl, ?_,
    ?_, ?_, ?_, ?_⟩
  · intro r hr
    obtain ⟨a, ha, rfl⟩ := List.mem_map.mp hr
    have := hi.granted.shape a ha
    simpa [GrantedShape, hg.mode, hg.status, hg.convertMode] using this
  · intro a ha b hb hne
    obtain ⟨a', ha', rfl⟩ := List.mem_map.mp ha
    obtain ⟨b', hb', rfl⟩ := List.mem_map.mp hb
    rw [hg.locker, hg.locker] at hne
    rw [hg.mode, hg.mode]
    exact hi.granted.compatible a' ha' b' hb' hne
  · intro r hr
    obtain ⟨a, ha, rfl⟩ := List.mem_map.mp hr
    rw [hg.status, hg.mode]
    exact hi.waiting a ha
  · rw [← List.map_append]
    exact keysDistinct_map hg hi.distinct
  · intro r hr hrs
    obtain ⟨a, ha, rfl⟩ := List.mem_map.mp hr
    rw [hg.status] at hrs
    rw [hg.locker, hg.convertMode]
    exact (hi.conversions a ha hrs).of_forall₂ hf
  · intro f tl e
    cases hc : h.conflictList with
    | nil => simp [hc] at e
    | cons f' tl' =>
      simp only [hc, List.map_cons, List.cons.injEq] at e
      obtain ⟨rfl, rfl⟩ := e
      rw [hg.mode]
      rcases hi.front f' tl' hc with hq | ⟨w, hw, hcw⟩
      · exact Or.inl (exists_held_of_forall₂ hf hq)
      · exact Or.inr ⟨g w, List.mem_map_of_mem hw, by rw [hg.mode]; exact hcw⟩
  · intro hne
    simp only [ne_eq, List.map_eq_nil_iff] at hne ⊢
    exact hi.waitersGranted hne

theorem IntentOnly.mapRequests {h : LockHead} (ho : IntentOnly h) :
    IntentOnly { h with grantedList := h.grantedList.map g, conflictList := h.conflictList.map g } := by
  refine ⟨by simp [ho.noWaiters], fun q hq => ?_⟩
  obtain ⟨a, ha, rfl⟩ := List.mem_map.mp hq
  rw [hg.status, hg.mode]
  exact ho.granted a ha

end count_only

@[simp] theorem ResourceEntry.head_some (h : LockHead)
    (plh : PartitionId → Option PartitionedLockHead) :
    ({ lockHead := some h, partitionedLockHeads := plh } : ResourceEntry).head = h := rfl

theorem ResourceEntry.head_modifyRequest (e : ResourceEntry) (k : LockerId)
    (f : LockRequest → LockRequest) :
    (e.modifyRequest k f).head =
      { e.head with
        grantedList := e.head.grantedList.map fun r => if r.locker == k then f r else r,
        conflictList := e.head.conflictList.map fun r => if r.locker == k then f r else r } := by
  cases hl : e.lockHead with
  | none => simp [ResourceEntry.modifyRequest, ResourceEntry.head, hl, LockHead.initNew]
  | some h => simp [ResourceEntry.modifyRequest, ResourceEntry.head, hl, modifyQueued, modifyAt]

theorem partitionedListOf_modifyRequest (e : ResourceEntry) (k : LockerId)
    (f : LockRequest → LockRequest) (p : PartitionId) :
    partitionedListOf (e.modifyRequest k f).partitionedLockHeads p =
      (partitionedListOf e.partitionedLockHeads p).map fun r => if r.locker == k then f r else r := by
  cases hp : e.partitionedLockHeads p with
  | none => simp [partitionedListOf, ResourceEntry.modifyRequest, hp]
  | some pl => simp [partitionedListOf, ResourceEntry.modifyRequest, hp, modifyQueued, modifyAt]

/-- The writes of `convert` and `unlock` to `recursiveCount` keep the invariant. -/
theorem ResourceEntry.Good.modifyRequest {e : ResourceEntry} (hg : e.Good)
    {f : LockRequest → LockRequest} (hf : CountOnly f) (k : LockerId) :
    (e.modifyRequest k f).Good := by
  have hk := hf.at k
  refine ⟨?_, ⟨fun p r hr => ?_, fun p => ?_, fun p r hr q hq => ?_⟩, fun p hp => ?_, fun hp => ?_⟩
  · rw [ResourceEntry.head_modifyRequest]
    exact hg.head.mapRequests hk
  · rw [partitionedListOf_modifyRequest] at hr
    obtain ⟨a, ha, rfl⟩ := List.mem_map.mp hr
    rw [hk.status, hk.partitioned, hk.mode, hk.locker]
    exact hg.partitioned.requests p a ha
  · rw [partitionedListOf_modifyRequest]
    exact keysDistinct_map hk (hg.partitioned.distinct p)
  · rw [partitionedListOf_modifyRequest] at hr
    rw [ResourceEntry.head_modifyRequest, ← List.map_append] at hq
    obtain ⟨a, ha, rfl⟩ := List.mem_map.mp hr
    obtain ⟨b, hb, rfl⟩ := List.mem_map.mp hq
    rw [hk.locker, hk.locker]
    exact hg.partitioned.disjoint p a ha b hb
  · have hp' : (e.partitionedLockHeads p).isSome := by
      simpa [ResourceEntry.modifyRequest] using hp
    rw [ResourceEntry.head_modifyRequest]
    exact hg.listed p hp'
  · rw [ResourceEntry.head_modifyRequest] at hp ⊢
    exact (hg.intentOnly hp).mapRequests hk

/-! ## Finding the request of a locker -/

theorem findRequest_some {e : ResourceEntry} {k : LockerId} {r : LockRequest}
    (h : e.findRequest k = some r) :
    r.locker = k ∧
      (r ∈ e.partitionedList (partitionOf k) ∨ r ∈ e.head.grantedList ++ e.head.conflictList) := by
  unfold ResourceEntry.findRequest at h
  cases hp : (e.partitionedList (partitionOf k)).find? (·.locker == k) with
  | some r' =>
    rw [hp, Option.some_or] at h
    cases h
    exact ⟨by simpa using List.find?_some hp, Or.inl (List.mem_of_find?_eq_some hp)⟩
  | none =>
    rw [hp, Option.none_or] at h
    exact ⟨by simpa using List.find?_some h, Or.inr (List.mem_of_find?_eq_some h)⟩

/-- A locker that `findRequest` does not find has no request on any queue of the resource. -/
theorem ResourceEntry.Good.fresh_of_findRequest {e : ResourceEntry} (hg : e.Good) {k : LockerId}
    (h : e.findRequest k = none) :
    (∀ q ∈ e.head.grantedList ++ e.head.conflictList, q.locker ≠ k) ∧
      ∀ p, ∀ q ∈ e.partitionedList p, q.locker ≠ k := by
  unfold ResourceEntry.findRequest at h
  rw [Option.or_eq_none_iff, List.find?_eq_none, List.find?_eq_none] at h
  refine ⟨fun q hq e' => ?_, fun p q hq e' => ?_⟩
  · have := h.2 q hq
    simp [e'] at this
  have hpart := (hg.partitioned.requests p q hq).2.2.2
  rw [e'] at hpart
  subst hpart
  simpa [e'] using h.1 q hq

/-! ## The migration of a partitioned head -/

theorem partitioned_eq_true_iff (h : LockHead) : h.partitioned = true ↔ h.partitions ≠ [] := by
  simp [LockHead.partitioned]

theorem partitionsGood_of_none {plh : PartitionId → Option PartitionedLockHead}
    (h : ∀ p, plh p = none) (l : List LockRequest) : PartitionsGood plh l :=
  ⟨fun p r hr => by simp [partitionedListOf, h p] at hr,
    fun p => by simp [partitionedListOf, h p, KeysDistinct],
    fun p r hr => by simp [partitionedListOf, h p] at hr⟩

/-- What `migrateIfPartitioned` leaves: a head with its invariant and no partitions, no
partitioned head, and on the granted queue every request that was granted before. -/
structure Migrated (e : ResourceEntry)
    (res : LockHead × (PartitionId → Option PartitionedLockHead)) : Prop where
  inv : res.1.Inv
  partitions : res.1.partitions = []
  cleared : ∀ p, res.2 p = none
  conflictList : res.1.conflictList = e.head.conflictList
  granted : ∀ r, r ∈ res.1.grantedList ↔ r ∈ e.head.grantedList ∨ ∃ p, r ∈ e.partitionedList p

theorem migrateIfPartitioned_eq (lock : LockHead) (plh : PartitionId → Option PartitionedLockHead) :
    migrateIfPartitioned lock plh =
      if lock.partitioned then
        ((lock.migratePartitionedLockHeads plh).1, (lock.migratePartitionedLockHeads plh).2.1)
      else (lock, plh) := rfl

/-- Under the invariant the migration of a partitioned head passes every check. -/
theorem ResourceEntry.Good.migrate_ok {e : ResourceEntry} (hg : e.Good)
    (hp : e.head.partitioned = true) :
    (e.head.migratePartitionedLockHeads e.partitionedLockHeads).2.2 = true :=
  (migratePartitionedLockHeads_spec hg.head (hg.intentOnly ((partitioned_eq_true_iff _).mp hp))
    hg.partitioned hg.listed).1

theorem ResourceEntry.Good.migrate {e : ResourceEntry} (hg : e.Good) :
    Migrated e (migrateIfPartitioned e.head e.partitionedLockHeads) := by
  rw [migrateIfPartitioned_eq]
  split
  · rename_i hp
    have ho := hg.intentOnly ((partitioned_eq_true_iff _).mp hp)
    obtain ⟨-, hi, ho', hps, hcl, hmem⟩ :=
      migratePartitionedLockHeads_spec hg.head ho hg.partitioned hg.listed
    exact ⟨hi, hps, hcl, by rw [ho'.noWaiters, ho.noWaiters], hmem⟩
  · rename_i hp
    have hps : e.head.partitions = [] := by
      by_contra hne
      exact hp ((partitioned_eq_true_iff _).mpr hne)
    have hnone : ∀ p, e.partitionedLockHeads p = none := by
      intro p
      cases hq : e.partitionedLockHeads p with
      | none => rfl
      | some _ =>
        have := hg.listed p (by simp [hq])
        rw [hps] at this
        cases this
    refine ⟨hg.head, hps, hnone, rfl, fun r => ?_⟩
    simp [ResourceEntry.partitionedList_eq, partitionedListOf, hnone]

end mongo.lock_manager
