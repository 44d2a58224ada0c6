-- The lock manager under any run of its entry points, called as the code requires: every
-- resource keeps `ResourceEntry.Good`, so the modes held on it never conflict, the
-- migration of its partitioned heads never fails, the counters of its head agree with the
-- queues, and every waiter has a request to wait on.
import PerconaMongo.Concurrency.Operations

namespace mongo.lock_manager

open LockRequest.Status LockResult keyed_list

/-! ## Runs on one resource -/

/-- One call of an entry point of the lock manager on a resource, with the preconditions the
code asserts or its callers keep: a locker has at most one request on the resource, locks in
a mode, converts only to a mode that covers the one it holds, and downgrades only to a mode
its own covers. -/
inductive ResourceEntry.Step : ResourceEntry → ResourceEntry → Prop
  | lock (e : ResourceEntry) (locker : LockerId) (enqueueAtFront compatibleFirst : Bool)
      (mode : LockMode) (hfresh : e.findRequest locker = none) (hmode : mode ≠ .MODE_NONE) :
      Step e (lock e { LockRequest.initNew locker with enqueueAtFront, compatibleFirst } mode).1
  | convert (e : ResourceEntry) (locker : LockerId) (newMode : LockMode) (r : LockRequest)
      (hr : e.findRequest locker = some r) (hs : r.status = STATUS_GRANTED)
      (hcov : isModeCovered r.mode newMode = true) :
      Step e (convert e locker newMode).1
  | unlock (e : ResourceEntry) (locker : LockerId) (r : LockRequest)
      (hr : e.findRequest locker = some r) :
      Step e (unlock e locker).1
  | downgrade (e : ResourceEntry) (locker : LockerId) (newMode : LockMode) (r : LockRequest)
      (hr : e.head.grantedList.find? (·.locker == locker) = some r)
      (hs : r.status = STATUS_GRANTED) (hnone : newMode ≠ .MODE_NONE)
      (hcov : isModeCovered newMode r.mode = true) :
      Step e (downgrade e locker newMode)
  | cleanupUnusedLocks (e : ResourceEntry) : Step e (cleanupUnusedLocks e)

/-- The states a resource reaches from no lock at all. -/
def ResourceEntry.Reachable (e : ResourceEntry) : Prop :=
  Relation.ReflTransGen ResourceEntry.Step ResourceEntry.empty e

theorem ResourceEntry.Step.good {e e' : ResourceEntry} (hg : e.Good) (hs : e.Step e') :
    e'.Good := by
  cases hs with
  | lock _ _ _ _ hfresh hmode => exact hg.lock hfresh hmode
  | convert _ _ _ hr hs hcov => exact hg.convert hr hs hcov
  | unlock locker _ _ => exact hg.unlock locker
  | downgrade _ _ _ hr hs hnone hcov => exact hg.downgrade hr hs hnone hcov
  | cleanupUnusedLocks => exact hg.cleanupUnusedLocks

theorem ResourceEntry.Reachable.good {e : ResourceEntry} (he : e.Reachable) : e.Good := by
  induction he with
  | refl => exact empty_good
  | tail _ hs ih => exact hs.good ih

/-! ## Runs of the lock manager -/

/-- A resource is named by its `ResourceId`; the model keeps its hash as a number. -/
abbrev ResourceId := Nat

/-- The lock manager: the entry of each resource, its head and its partitioned heads. -/
abbrev LockManager := ResourceId → ResourceEntry

/-- One call of an entry point on one resource; the entries of the others stay as they are. -/
def LockManager.Step (m m' : LockManager) : Prop :=
  ∃ res e', (m res).Step e' ∧ m' = Function.update m res e'

def LockManager.Reachable (m : LockManager) : Prop :=
  Relation.ReflTransGen LockManager.Step (fun _ => ResourceEntry.empty) m

/-- Each resource of a reachable lock manager is reached by the calls made on it. -/
theorem LockManager.Reachable.entry {m : LockManager} (hm : m.Reachable) (res : ResourceId) :
    (m res).Reachable := by
  induction hm with
  | refl => exact Relation.ReflTransGen.refl
  | tail _ hs ih =>
    obtain ⟨res', e', hstep, rfl⟩ := hs
    by_cases hres : res = res'
    · subst hres
      rw [Function.update_self]
      exact ih.tail hstep
    · rw [Function.update_of_ne hres]
      exact ih

/-! ## The requests that hold a mode -/

/-- A request that holds its mode on the resource: granted or converting on the head, or
granted on a partitioned head. -/
def ResourceEntry.Holds (e : ResourceEntry) (r : LockRequest) : Prop :=
  (r ∈ e.head.grantedList ∧ (r.status = STATUS_GRANTED ∨ r.status = STATUS_CONVERTING)) ∨
    ∃ p, r ∈ e.partitionedList p ∧ r.status = STATUS_GRANTED

/-- A request on a partitioned head holds an intent mode, and so does each granted request
of the head then. -/
theorem ResourceEntry.Good.intent_of_partitioned {e : ResourceEntry} (hg : e.Good)
    {p : PartitionId} {r : LockRequest} (hr : r ∈ e.partitionedList p) :
    IsIntent r.mode ∧ ∀ q ∈ e.head.grantedList, IsIntent q.mode := by
  have hp : e.head.partitions ≠ [] := by
    intro hnil
    have := hg.listed p (isSome_of_mem_partitionedListOf hr)
    rw [hnil] at this
    cases this
  exact ⟨(hg.partitioned.requests p r hr).2.2.1,
    fun q hq => ((hg.intentOnly hp).granted q hq).2⟩

theorem ResourceEntry.Good.holds_mode_ne_none {e : ResourceEntry} (hg : e.Good)
    {r : LockRequest} (hr : e.Holds r) : r.mode ≠ .MODE_NONE := by
  rcases hr with ⟨hr, -⟩ | ⟨p, hr, -⟩
  · exact (hg.head.granted.shape r hr).1
  · rcases (hg.intent_of_partitioned hr).1 with e | e <;> rw [e] <;> decide

/-- Requests of different lockers that hold modes hold compatible ones. -/
theorem ResourceEntry.Good.holds_compatible {e : ResourceEntry} (hg : e.Good)
    {a b : LockRequest} (ha : e.Holds a) (hb : e.Holds b) (hne : a.locker ≠ b.locker) :
    conflictsWith a.mode b.mode = false := by
  rcases ha with ⟨ha, -⟩ | ⟨p, ha, -⟩ <;> rcases hb with ⟨hb, -⟩ | ⟨p', hb, -⟩
  · exact hg.head.granted.compatible a ha b hb hne
  · have hi := hg.intent_of_partitioned hb
    exact not_conflictsWith_intent _ _ (hi.2 a ha) hi.1
  · have hi := hg.intent_of_partitioned ha
    exact not_conflictsWith_intent _ _ hi.1 (hi.2 b hb)
  · exact not_conflictsWith_intent _ _ (hg.intent_of_partitioned ha).1
      (hg.intent_of_partitioned hb).1

/-- A locker has one request on the resource. -/
theorem ResourceEntry.Good.holds_eq_of_locker {e : ResourceEntry} (hg : e.Good)
    {a b : LockRequest} (ha : e.Holds a) (hb : e.Holds b) (hk : a.locker = b.locker) : a = b := by
  have hd := hg.head.distinct.sublist (List.sublist_append_left _ _)
  rcases ha with ⟨ha, -⟩ | ⟨p, ha, -⟩ <;> rcases hb with ⟨hb, -⟩ | ⟨p', hb, -⟩
  · exact hd.eq_of_key_eq ha hb hk
  · exact absurd hk.symm (hg.partitioned.disjoint p' b hb a (List.mem_append_left _ ha))
  · exact absurd hk (hg.partitioned.disjoint p a ha b (List.mem_append_left _ hb))
  · -- both partitioned heads are the one of the locker's partition
    have hp : p = p' := by
      rw [← (hg.partitioned.requests p a ha).2.2.2, ← (hg.partitioned.requests p' b hb).2.2.2, hk]
    subst hp
    exact (hg.partitioned.distinct p).eq_of_key_eq ha hb hk

/-! ## Mutual exclusion -/

/-- The modes held on a resource: pairwise compatible, `MODE_X` held alone, and a migration
of the partitioned heads that passes every check `res == LOCK_OK`. -/
def ResourceEntry.MutualExclusion (e : ResourceEntry) : Prop :=
  (∀ a b, e.Holds a → e.Holds b → a ≠ b → conflictsWith a.mode b.mode = false) ∧
  (∀ a b, e.Holds a → e.Holds b → a.mode = .MODE_X → b = a) ∧
  (e.head.partitioned = true →
    (e.head.migratePartitionedLockHeads e.partitionedLockHeads).2.2 = true)

theorem ResourceEntry.Good.mutualExclusion {e : ResourceEntry} (hg : e.Good) :
    e.MutualExclusion := by
  refine ⟨fun a b ha hb hne => hg.holds_compatible ha hb fun hk =>
    hne (hg.holds_eq_of_locker ha hb hk), fun a b ha hb hx => ?_, hg.migrate_ok⟩
  by_contra hne
  have := hg.holds_compatible ha hb fun hk => hne (hg.holds_eq_of_locker ha hb hk).symm
  rw [hx, conflictsWith_comm, conflictsWith_x _ (hg.holds_mode_ne_none hb)] at this
  cases this

theorem held_modes_pairwise_compatible {m : LockManager} (hm : m.Reachable) (res : ResourceId) :
    (m res).MutualExclusion :=
  (hm.entry res).good.mutualExclusion

/-! ## The counters and the waiters of a head -/

/-- The counters of the head agree with its queues, the masks are empty exactly when the
queues are, the front of the conflict queue waits on a granted mode or on a waiter behind it,
and every conversion waits on the modes granted to the other requests. -/
def LockHead.Bookkeeping (h : LockHead) : Prop :=
  h.Counted ∧
  (h.grantedModes = 0 ↔ h.grantedList = []) ∧
  (h.conflictModes = 0 ↔ h.conflictList = []) ∧
  (∀ f rest, h.conflictList = f :: rest →
    conflicts f.mode h.grantedModes = true ∨ ∃ w ∈ rest, conflictsWith f.mode w.mode = true) ∧
  (∀ r ∈ h.grantedList, r.status = STATUS_CONVERTING →
    conflicts r.convertMode (grantedModesWithout h.grantedCounts (ownCounts r)) = true)

theorem LockHead.Inv.bookkeeping {h : LockHead} (hi : h.Inv) : h.Bookkeeping := by
  have hc := hi.granted.counted
  refine ⟨hi.counted, hc.modes_eq_zero_iff, hi.conflict.modes_eq_zero_iff,
    fun f rest hf => ?_, fun r hr hs => ?_⟩
  · rw [hc.conflicts_iff]
    exact hi.front f rest hf
  · rw [ownCounts_converting hs,
      hc.conflicts_without_iff (hi.distinct.sublist (List.sublist_append_left _ _)) hr]
    exact hi.conversions r hr hs

theorem lock_head_counts_and_waiters {m : LockManager} (hm : m.Reachable) (res : ResourceId) :
    (m res).head.Bookkeeping :=
  (hm.entry res).good.head.bookkeeping

/-! ## A contended resource -/

/-- Every state a resource reaches is the entry of a lock manager that reaches it by calls
on that resource alone. -/
theorem ResourceEntry.Reachable.manager {e : ResourceEntry} (he : e.Reachable) (res : ResourceId) :
    LockManager.Reachable (Function.update (fun _ => ResourceEntry.empty) res e) := by
  induction he with
  | refl =>
    rw [Function.update_eq_self_iff.mpr rfl]
    exact Relation.ReflTransGen.refl
  | tail _ hs ih =>
    refine ih.tail ⟨res, _, by rw [Function.update_self]; exact hs, ?_⟩
    rw [Function.update_idem]

/-- Resource 0 after three lockers: locker 1 takes `MODE_IS` on a partitioned head, locker 2
asks for `MODE_X`, which migrates the head and waits, and locker 3 asks for `MODE_S` at the
front of the conflict queue. -/
def contendedManager : LockManager :=
  Function.update (fun _ => ResourceEntry.empty) 0
    (lock (lock (lock ResourceEntry.empty
      { LockRequest.initNew 1 with enqueueAtFront := false, compatibleFirst := false } .MODE_IS).1
      { LockRequest.initNew 2 with enqueueAtFront := false, compatibleFirst := false } .MODE_X).1
      { LockRequest.initNew 3 with enqueueAtFront := true, compatibleFirst := false } .MODE_S).1

theorem contendedManager_reachable : contendedManager.Reachable := by
  refine ResourceEntry.Reachable.manager ?_ 0
  exact ((Relation.ReflTransGen.single
    (ResourceEntry.Step.lock _ 1 false false .MODE_IS (by decide) (by decide))).tail
    (ResourceEntry.Step.lock _ 2 false false .MODE_X (by decide) (by decide))).tail
    (ResourceEntry.Step.lock _ 3 true false .MODE_S (by decide) (by decide))

theorem contended_mutual_exclusion :
    contendedManager.Reachable ∧ (contendedManager 0).MutualExclusion :=
  ⟨contendedManager_reachable, held_modes_pairwise_compatible contendedManager_reachable 0⟩

theorem contended_bookkeeping :
    contendedManager.Reachable ∧ (contendedManager 0).head.Bookkeeping :=
  ⟨contendedManager_reachable, lock_head_counts_and_waiters contendedManager_reachable 0⟩

/-- The front of the conflict queue of the contended resource, `MODE_S`, does not conflict
with the granted `MODE_IS`: it waits behind `MODE_X`. -/
theorem contended_front_not_blocked_by_granted :
    contendedManager.Reachable ∧ ∃ f rest, (contendedManager 0).head.conflictList = f :: rest ∧
      conflicts f.mode (contendedManager 0).head.grantedModes = false :=
  ⟨contendedManager_reachable, _, _, rfl, by decide⟩

end mongo.lock_manager
