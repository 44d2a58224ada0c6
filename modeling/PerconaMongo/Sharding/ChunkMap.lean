-- The routing table of a sharded collection, chunk_manager.cpp: the `ChunkMap` of chunks sorted
-- by their max keys, the refresh that overlays the changed chunks a shard reports on it
-- (`flatten`, then `ChunkMap::createMerged` through `appendChunkTo`), the shard versions that
-- `constructShardVersionMap` derives from it with its gap and overlap checks, and the lookup
-- of the chunk that holds a key. Shard keys are a linear order (`woCompare`); the sort of
-- `flatten` and the searches compare the KeyStrings of the keys instead, a map `keyString` into
-- an order of its own (`ShardKeyPattern::toKeyString`, whose encoder is not modelled here). A
-- chunk's version is compared within its epoch only. The writes trackers, chunk histories and
-- the jumbo flag are not modelled.
import PerconaMongo.Lib.Tiling
import Mathlib.Data.List.TakeWhile
import Mathlib.Data.List.Sort

namespace mongo

/-- `ChunkVersion`: the major and minor versions and the collection epoch. -/
structure ChunkVersion where
  major : Nat
  minor : Nat
  epoch : Nat
  deriving DecidableEq, Repr

namespace ChunkVersion

/-- `isSet`: a combined version above 0|0. -/
def isSet (v : ChunkVersion) : Bool := 0 < v.major || 0 < v.minor

/-- `isOlderThan`: older within the same epoch; versions of different epochs are not
comparable. -/
def isOlderThan (v other : ChunkVersion) : Bool :=
  if other.epoch ≠ v.epoch then false
  else if v.major ≠ other.major then v.major < other.major
  else v.minor < other.minor

def isOlderOrEqualThan (v other : ChunkVersion) : Bool := v.isOlderThan other || v == other

end ChunkVersion

/-- A `ChunkRange`: the keys from `min`, inclusive, to `max`, exclusive. -/
structure ChunkRange (κ : Type) where
  min : κ
  max : κ

variable {κ σ K : Type} [LinearOrder κ] [LinearOrder K]

/-- `ChunkRange::overlaps`. -/
def ChunkRange.overlaps (r other : ChunkRange κ) : Bool :=
  decide (r.min < other.max) && decide (other.min < r.max)

/-- A `ChunkInfo` as built from a `ChunkType`, whose `validate` the constructor asserts: its
max lies above its min and its version is set. -/
structure ChunkInfo (κ σ : Type) [LinearOrder κ] where
  range : ChunkRange κ
  shardId : σ
  lastmod : ChunkVersion
  min_lt_max : range.min < range.max
  lastmod_isSet : lastmod.isSet = true

/-- `appendChunkTo`: a chunk that overlaps the last one replaces it if that one is older, and
is dropped otherwise. -/
def appendChunkTo (chunks : List (ChunkInfo κ σ)) (chunk : ChunkInfo κ σ) :
    List (ChunkInfo κ σ) :=
  match chunks.getLast? with
  | some back =>
    if chunk.range.overlaps back.range then
      if back.lastmod.isOlderThan chunk.lastmod then chunks.dropLast ++ [chunk] else chunks
    else chunks ++ [chunk]
  | none => chunks ++ [chunk]

/-- `flatten`: the changed chunks sorted by the KeyStrings of their maxima, highest first
(`std::sort`), the older of two overlapping neighbours dropped, and the result reversed. -/
def flatten (keyString : κ → K) (changedChunks : List (ChunkInfo κ σ)) : List (ChunkInfo κ σ) :=
  match changedChunks.mergeSort
      (fun a b => decide (keyString b.range.max ≤ keyString a.range.max)) with
  | [] => []
  | first :: rest => (rest.foldl appendChunkTo [first]).reverse

/-- What stops a refresh or the shard version map: `validateChunk`'s epoch check and its
invariant, the gap and overlap checks of `constructShardVersionMap`, its invariant that a shard
version is set, and its checks that the first min and the last max are the global bounds. -/
inductive ChunkMapError
  | epochMismatch
  | olderChangedChunk
  | gap
  | overlap
  | unsetShardVersion
  | notAllMinKey
  | notAllMaxKey
  deriving DecidableEq, Repr

/-- A `ChunkMap`: the chunks sorted by max and the collection version. -/
structure ChunkMap (κ σ : Type) [LinearOrder κ] where
  chunkMap : List (ChunkInfo κ σ)
  collectionVersion : ChunkVersion

namespace ChunkMap

/-- `ChunkMap(epoch, timestamp, ...)`: no chunks, version 0|0. -/
def empty (epoch : Nat) : ChunkMap κ σ := ⟨[], ⟨0, 0, epoch⟩⟩

/-- `ChunkMap::appendChunk`: the collection version follows every newer chunk appended. -/
def appendChunk (m : ChunkMap κ σ) (chunk : ChunkInfo κ σ) : ChunkMap κ σ where
  chunkMap := appendChunkTo m.chunkMap chunk
  collectionVersion :=
    if m.collectionVersion.isOlderThan chunk.lastmod then chunk.lastmod else m.collectionVersion

end ChunkMap

/-- `validateChunk`: a changed chunk has the collection's epoch, and a version not older than
the collection's. -/
def validateChunk (chunk : ChunkInfo κ σ) (version : ChunkVersion) : Except ChunkMapError Unit :=
  if version.epoch ≠ chunk.lastmod.epoch then .error .epochMismatch
  else if !version.isOlderOrEqualThan chunk.lastmod then .error .olderChangedChunk
  else .ok ()

/-- The loop of `ChunkMap::createMerged` over the old chunks and the changed ones: a changed
chunk that overlaps the current old chunk is appended and only the changed index advances;
otherwise the old chunk is appended. -/
def mergeLoop (version : ChunkVersion) :
    List (ChunkInfo κ σ) → List (ChunkInfo κ σ) → ChunkMap κ σ → Except ChunkMapError (ChunkMap κ σ)
  | [], [], updated => .ok updated
  | [], changed :: cs, updated => do
    validateChunk changed version
    mergeLoop version [] cs (updated.appendChunk changed)
  | old :: os, [], updated => mergeLoop version os [] (updated.appendChunk old)
  | old :: os, changed :: cs, updated =>
    if old.range.overlaps changed.range then do
      validateChunk changed version
      mergeLoop version (old :: os) cs (updated.appendChunk changed)
    else mergeLoop version os (changed :: cs) (updated.appendChunk old)
termination_by os cs => os.length + cs.length

namespace ChunkMap

/-- `ChunkMap::createMerged`. -/
def createMerged (m : ChunkMap κ σ) (changedChunks : List (ChunkInfo κ σ)) :
    Except ChunkMapError (ChunkMap κ σ) :=
  mergeLoop m.collectionVersion m.chunkMap changedChunks (empty m.collectionVersion.epoch)

/-- `findIntersectingChunk`: the first chunk whose max's KeyString lies above the key's
(`upper_bound`). -/
def findIntersectingChunk (keyString : κ → K) (m : ChunkMap κ σ) (shardKey : κ) :
    Option (ChunkInfo κ σ) :=
  m.chunkMap.find? fun c => decide (keyString shardKey < keyString c.range.max)

/-- Where the KeyStrings are ordered as the keys they encode, the search finds the first chunk
whose max lies above the key. -/
theorem findIntersectingChunk_eq_find? {keyString : κ → K} (hks : StrictMono keyString)
    (m : ChunkMap κ σ) (shardKey : κ) :
    m.findIntersectingChunk keyString shardKey =
      m.chunkMap.find? fun c => decide (shardKey < c.range.max) := by
  unfold findIntersectingChunk
  simp only [hks.lt_iff_lt]

end ChunkMap

/-- The continuity check of `constructShardVersionMap` between the max of one range of chunks
and the min of the next. -/
def checkContinuity (lastMax : Option κ) (rangeMin : κ) : Option ChunkMapError :=
  match lastMax with
  | some m => if m = rangeMin then none else if m < rangeMin then some .gap else some .overlap
  | none => none

/-- The newer of a shard's version so far and a chunk's, as the `find_if` predicate keeps it. -/
def maxShardVersionStep (v : ChunkVersion) (chunk : ChunkInfo κ σ) : ChunkVersion :=
  if v.isOlderThan chunk.lastmod then chunk.lastmod else v

variable [DecidableEq σ]

/-- The loop of `constructShardVersionMap`: each range of consecutive chunks on one shard raises
that shard's version to the newest among them, and meets the range before it. -/
def shardVersionLoop (epoch : Nat) (shardVersions : σ → Option ChunkVersion)
    (firstMin lastMax : Option κ) :
    List (ChunkInfo κ σ) → Except ChunkMapError ((σ → Option ChunkVersion) × Option κ × Option κ)
  | [] => .ok (shardVersions, firstMin, lastMax)
  | firstChunkInRange :: rest =>
    let currentRangeShardId := firstChunkInRange.shardId
    let inRange := rest.takeWhile fun c => c.shardId = currentRangeShardId
    let maxShardVersion := (firstChunkInRange :: inRange).foldl maxShardVersionStep
      ((shardVersions currentRangeShardId).getD ⟨0, 0, epoch⟩)
    let rangeLast := (firstChunkInRange :: inRange).getLast (List.cons_ne_nil _ _)
    match checkContinuity lastMax firstChunkInRange.range.min with
    | some e => .error e
    | none =>
      if !maxShardVersion.isSet then .error .unsetShardVersion
      else
        shardVersionLoop epoch
          (Function.update shardVersions currentRangeShardId (some maxShardVersion))
          (firstMin <|> some firstChunkInRange.range.min) (some rangeLast.range.max)
          (rest.dropWhile fun c => c.shardId = currentRangeShardId)
termination_by chunks => chunks.length
decreasing_by
  simp only [List.length_cons]
  exact Nat.lt_succ_of_le (List.length_dropWhile_le _ _)

/-- `ChunkMap::constructShardVersionMap`, with the global min and max keys of the shard key
pattern that `checkAllElementsAreOfType` asks for at the ends. -/
def ChunkMap.constructShardVersionMap (globalMin globalMax : κ) (m : ChunkMap κ σ) :
    Except ChunkMapError (σ → Option ChunkVersion) := do
  let (shardVersions, firstMin, lastMax) ←
    shardVersionLoop m.collectionVersion.epoch (fun _ => none) none none m.chunkMap
  if m.chunkMap ≠ [] then
    if firstMin ≠ some globalMin then throw .notAllMinKey
    if lastMax ≠ some globalMax then throw .notAllMaxKey
  return shardVersions

end mongo
