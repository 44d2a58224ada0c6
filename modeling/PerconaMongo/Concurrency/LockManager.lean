-- The entry points of `LockManager` (lock_manager.cpp): lock, convert, unlock,
-- downgrade and cleanupUnusedLocks, with the wake-up pass `_onLockModeChanged`.
-- Each one acts on the entries of a single resource, `ResourceEntry`, so the
-- whole manager is a map from resources to entries.
import PerconaMongo.Concurrency.LockHead
import PerconaMongo.Lib.KeyedList

namespace mongo.lock_manager

open LockRequest.Status LockResult

/-! ## The entries of one resource -/

/-- What the lock manager keeps for one resource: the `LockHead` in its bucket, if any, and
the `PartitionedLockHead` of each partition, if any. -/
structure ResourceEntry where
  lockHead : Option LockHead
  partitionedLockHeads : PartitionId → Option PartitionedLockHead

def ResourceEntry.empty : ResourceEntry := ⟨none, fun _ => none⟩

/-- The head of the resource, or the one `findOrInsert` would make. -/
def ResourceEntry.head (e : ResourceEntry) : LockHead := e.lockHead.getD LockHead.initNew

/-- The requests of a `PartitionedLockHead` that is there, or none. -/
def ResourceEntry.partitionedList (e : ResourceEntry) (p : PartitionId) : List LockRequest :=
  ((e.partitionedLockHeads p).map (·.grantedList)).getD []

/-- The request of `locker`: the code gets it by pointer, the model finds it where it is
queued. -/
def ResourceEntry.findRequest (e : ResourceEntry) (locker : LockerId) : Option LockRequest :=
  ((e.partitionedList (partitionOf locker)).find? (·.locker == locker)).or
    (((e.head.grantedList ++ e.head.conflictList).find? (·.locker == locker)))

/-- Write to the request of `locker` through its pointer, in whichever queue holds it. -/
def modifyQueued (locker : LockerId) (f : LockRequest → LockRequest) (l : List LockRequest) :
    List LockRequest :=
  keyed_list.modifyAt LockRequest.locker locker f l

def ResourceEntry.modifyRequest (e : ResourceEntry) (locker : LockerId)
    (f : LockRequest → LockRequest) : ResourceEntry :=
  { lockHead := e.lockHead.map fun h =>
      { h with grantedList := modifyQueued locker f h.grantedList,
               conflictList := modifyQueued locker f h.conflictList }
    partitionedLockHeads := fun p =>
      (e.partitionedLockHeads p).map fun pl => ⟨modifyQueued locker f pl.grantedList⟩ }

/-! ## `_onLockModeChanged` -/

/-- The granted mask without one request: the modes other than `MODE_NONE` whose count is more
than what the request itself adds to it (`own`). -/
def grantedModesWithout (counts own : LockMode → Nat) : UInt32 :=
  (if counts .MODE_IS > own .MODE_IS then modeMask .MODE_IS else 0) |||
  (if counts .MODE_IX > own .MODE_IX then modeMask .MODE_IX else 0) |||
  (if counts .MODE_S > own .MODE_S then modeMask .MODE_S else 0) |||
  (if counts .MODE_X > own .MODE_X then modeMask .MODE_X else 0)

/-- What a request adds to the granted counts: the mode it holds and the one it waits for. -/
def ownCounts (r : LockRequest) (i : LockMode) : Nat :=
  (if r.mode = i then 1 else 0) + (if r.convertMode = i then 1 else 0)

/-- The request once its conversion is granted: it holds the mode it waited for. -/
def LockRequest.grantConversion (r : LockRequest) : LockRequest :=
  { r with status := STATUS_GRANTED, mode := r.convertMode, convertMode := .MODE_NONE }

@[simp] theorem LockRequest.grantConversion_status (r : LockRequest) :
    r.grantConversion.status = STATUS_GRANTED := rfl

@[simp] theorem LockRequest.grantConversion_mode (r : LockRequest) :
    r.grantConversion.mode = r.convertMode := rfl

@[simp] theorem LockRequest.grantConversion_convertMode (r : LockRequest) :
    r.grantConversion.convertMode = .MODE_NONE := rfl

@[simp] theorem LockRequest.grantConversion_locker (r : LockRequest) :
    r.grantConversion.locker = r.locker := rfl

@[simp] theorem LockRequest.grantConversion_compatibleFirst (r : LockRequest) :
    r.grantConversion.compatibleFirst = r.compatibleFirst := rfl

/-- The first loop of `_onLockModeChanged`: grant each conversion, in queue order, that no
other granted mode blocks, while `conversionsCount > 0`. It returns the new granted queue. -/
def LockHead.convertPass (h : LockHead) : List LockRequest → LockHead × List LockRequest
  | [] => (h, [])
  | iter :: rest =>
    if h.conversionsCount > 0 then
      if iter.status == STATUS_CONVERTING &&
          !conflicts iter.convertMode (grantedModesWithout h.grantedCounts (ownCounts iter)) then
        let h₁ := { h with conversionsCount := h.conversionsCount - 1 }.decGrantedModeCount iter.mode
        let (h₂, rest₂) := h₁.convertPass rest
        (h₂, iter.grantConversion :: rest₂)
      else
        let (h₂, rest₂) := h.convertPass rest
        (h₂, iter :: rest₂)
    else (h, iter :: rest)

/-- A grant of the second loop of `_onLockModeChanged`: the waiter leaves the conflict queue
for the back of the granted queue. -/
def LockHead.grantWaiter (h : LockHead) (iter : LockRequest) : LockHead :=
  let h₁ := { h with conflictList := h.conflictList.erase iter }.decConflictModeCount iter.mode
  let h₂ := { h₁ with grantedList := h₁.grantedList ++ [{ iter with status := STATUS_GRANTED }] }
    |>.incGrantedModeCount iter.mode
  if iter.compatibleFirst then { h₂ with compatibleFirstCount := h₂.compatibleFirstCount + 1 }
  else h₂

/-- The second loop of `_onLockModeChanged`, over the conflict queue as it was when the loop
began: grant each compatible waiter; a blocked front request stops the loop unless the
compatible-first policy was just switched on, and a granted `MODE_X` stops it too. -/
def LockHead.grantWaiters (h : LockHead) (newlyCompatibleFirst : Bool) :
    List LockRequest → LockHead
  | [] => h
  | iter :: rest =>
    if conflicts iter.mode h.grantedModes then
      if h.conflictList.head? == some iter && !newlyCompatibleFirst then h
      else h.grantWaiters newlyCompatibleFirst rest
    else
      -- `newlyCompatibleFirst |= (lock->compatibleFirstCount++ == 0)`
      let newlyCompatibleFirst :=
        newlyCompatibleFirst || (iter.compatibleFirst && h.compatibleFirstCount == 0)
      if iter.mode == .MODE_X then h.grantWaiter iter
      else (h.grantWaiter iter).grantWaiters newlyCompatibleFirst rest

/-- `LockManager::_onLockModeChanged`. -/
def onLockModeChanged (lock : LockHead) (checkConflictQueue : Bool) : LockHead :=
  let (lock₁, grantedList) := lock.convertPass lock.grantedList
  let lock₂ := { lock₁ with grantedList }
  if checkConflictQueue then lock₂.grantWaiters false lock₂.conflictList else lock₂

/-! ## The entry points -/

/-- Run `migratePartitionedLockHeads` when the head is partitioned. -/
def migrateIfPartitioned (lock : LockHead) (plh : PartitionId → Option PartitionedLockHead) :
    LockHead × (PartitionId → Option PartitionedLockHead) :=
  if lock.partitioned then
    let (lock₁, plh₁, _) := lock.migratePartitionedLockHeads plh
    (lock₁, plh₁)
  else (lock, plh)

/-- `LockManager::lock` for a new request of the locker. -/
def lock (e : ResourceEntry) (request : LockRequest) (mode : LockMode) :
    ResourceEntry × LockResult :=
  let request := { request with partitioned := mode == LockMode.MODE_IX || mode == LockMode.MODE_IS, mode }
  let partition := partitionOf request.locker
  match request.partitioned, e.partitionedLockHeads partition with
  | true, some partitionedLock =>
    -- fast path for intent locks
    let plh := Function.update e.partitionedLockHeads partition
      (some (partitionedLock.newRequest request))
    ({ e with partitionedLockHeads := plh }, LOCK_OK)
  | _, _ =>
    let lock := e.head
    if request.partitioned && (lock.grantedModes &&& ~~~intentModes) == 0 &&
        lock.conflictModes == 0 then
      -- start a partitioned lock
      let partitionedLock := (e.partitionedLockHeads partition).getD PartitionedLockHead.initNew
      ({ lockHead := some { lock with partitions := lock.partitions ++ [partition] },
         partitionedLockHeads := Function.update e.partitionedLockHeads partition
           (some (partitionedLock.newRequest request)) }, LOCK_OK)
    else
      let (lock₁, plh₁) := migrateIfPartitioned lock e.partitionedLockHeads
      let (lock₂, res) := lock₁.newRequest { request with partitioned := false }
      ({ lockHead := some lock₂, partitionedLockHeads := plh₁ }, res)

/-- `LockManager::convert` of the granted request of `locker` to `newMode`. -/
def convert (e : ResourceEntry) (locker : LockerId) (newMode : LockMode) :
    ResourceEntry × LockResult :=
  let e := e.modifyRequest locker fun r => { r with recursiveCount := r.recursiveCount + 1 }
  match e.findRequest locker with
  | none => (e, LOCK_INVALID)
  | some request =>
    -- fast path: the held mode already covers the new one
    if isModeCovered newMode request.mode then (e, LOCK_OK)
    else match e.lockHead with
    | none => (e, LOCK_INVALID)
    | some lock =>
      let (lock₁, plh₁) := migrateIfPartitioned lock e.partitionedLockHeads
      -- the check favours conversions: it does not look at the conflict queue
      if conflicts newMode (grantedModesWithout lock₁.grantedCounts
          (fun i => if request.mode = i then 1 else 0)) then
        let lock₂ := { lock₁ with
          grantedList := modifyQueued locker
            (fun r => { r with status := STATUS_CONVERTING, convertMode := newMode })
            lock₁.grantedList,
          conversionsCount := lock₁.conversionsCount + 1 }.incGrantedModeCount newMode
        ({ lockHead := some lock₂, partitionedLockHeads := plh₁ }, LOCK_WAITING)
      else
        let lock₂ := (lock₁.incGrantedModeCount newMode).decGrantedModeCount request.mode
        let lock₃ := { lock₂ with
          grantedList := modifyQueued locker (fun r => { r with mode := newMode }) lock₂.grantedList }
        ({ lockHead := some lock₃, partitionedLockHeads := plh₁ }, LOCK_OK)

/-- `LockManager::unlock` of the request of `locker`; `true` when the request is released. -/
def unlock (e : ResourceEntry) (locker : LockerId) : ResourceEntry × Bool :=
  let e := e.modifyRequest locker fun r => { r with recursiveCount := r.recursiveCount - 1 }
  match e.findRequest locker with
  | none => (e, false)
  | some request =>
    let partition := partitionOf locker
    if request.partitioned && request.status == STATUS_GRANTED && request.recursiveCount > 0 then
      (e, false)
    else if request.partitioned && (e.partitionedList partition).contains request then
      -- still partitioned
      let plh := Function.update e.partitionedLockHeads partition
        (some ⟨(e.partitionedList partition).erase request⟩)
      ({ e with partitionedLockHeads := plh }, true)
    else
      match e.lockHead, request.status with
      | some lock, STATUS_GRANTED =>
        if request.recursiveCount > 0 then (e, false)
        else
          let lock₁ := { lock with grantedList := lock.grantedList.erase request }
            |>.decGrantedModeCount request.mode
          let lock₂ := if request.compatibleFirst then
              { lock₁ with compatibleFirstCount := lock₁.compatibleFirstCount - 1 } else lock₁
          let lock₃ := onLockModeChanged lock₂ (lock₂.grantedCounts request.mode == 0)
          ({ e with lockHead := some lock₃ }, true)
      | some lock, STATUS_WAITING =>
        let lock₁ := { lock with conflictList := lock.conflictList.erase request }
          |>.decConflictModeCount request.mode
        ({ e with lockHead := some (onLockModeChanged lock₁ true) },
          request.recursiveCount == 0)
      | some lock, STATUS_CONVERTING =>
        -- cancelling the conversion brings the request back to its granted mode
        let lock₁ := { lock with
          grantedList := modifyQueued locker
            (fun r => { r with status := STATUS_GRANTED, convertMode := .MODE_NONE })
            lock.grantedList,
          conversionsCount := lock.conversionsCount - 1 }.decGrantedModeCount request.convertMode
        -- `request->convertMode` is already `MODE_NONE` when the count is read
        let lock₂ := onLockModeChanged lock₁ (lock₁.grantedCounts .MODE_NONE == 0)
        ({ e with lockHead := some lock₂ }, request.recursiveCount == 0)
      | _, _ => (e, false)

/-- `LockManager::downgrade` of the granted request of `locker` to `newMode`. -/
def downgrade (e : ResourceEntry) (locker : LockerId) (newMode : LockMode) : ResourceEntry :=
  match e.lockHead, e.head.grantedList.find? (·.locker == locker) with
  | some lock, some request =>
    let lock₁ := (lock.incGrantedModeCount newMode).decGrantedModeCount request.mode
    let lock₂ := { lock₁ with
      grantedList := modifyQueued locker (fun r => { r with mode := newMode }) lock₁.grantedList }
    { e with lockHead := some (onLockModeChanged lock₂ true) }
  | _, _ => e

/-- `LockManager::_cleanupUnusedLocksInBucket` for this resource: a head with no granted
mode is dropped, after the migration of its partitioned heads. -/
def cleanupUnusedLocks (e : ResourceEntry) : ResourceEntry :=
  match e.lockHead with
  | none => e
  | some lock =>
    let (lock₁, plh₁) := migrateIfPartitioned lock e.partitionedLockHeads
    if lock₁.grantedModes == 0 then { lockHead := none, partitionedLockHeads := plh₁ }
    else { lockHead := some lock₁, partitionedLockHeads := plh₁ }

end mongo.lock_manager
