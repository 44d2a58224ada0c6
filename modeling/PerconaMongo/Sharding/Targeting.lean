-- Targeting on a routing table, chunk_manager.h and chunk_manager.cpp: `_findIntersectingChunk`,
-- the std::lower_bound or std::upper_bound over the chunks' maxima, `_overlappingBounds`, the
-- loop of `forEachOverlappingChunk` with a handler that may stop it, and
-- `ChunkManager::getShardIdsForRange` and `rangeOverlapsShard` on a routing table read at its
-- latest version. Iterators are indexes into the chunk vector, `end` its length; the searches
-- compare the KeyStrings of the keys, `keyString`, as `ShardKeyPattern::toKeyString` and
-- `getMaxKeyString` give them. Where the KeyStrings are ordered as the shard keys they encode,
-- on a table that tiles the key space the search finds the chunk that holds the key and the
-- loop visits the chunks that meet the range, except that with an exclusive max and
-- `min = max` it still visits the chunk that holds `min`.
import PerconaMongo.Sharding.ShardVersions
import PerconaMongo.Lib.Loops
import Mathlib

namespace mongo

open tiling binary_search

variable {κ σ K : Type} [LinearOrder κ] [LinearOrder K]

/-- `ChunkRange::containsKey`. -/
def ChunkRange.containsKey (r : ChunkRange κ) (key : κ) : Bool :=
  decide (r.min ≤ key) && decide (key < r.max)

namespace ChunkMap

/-- `_findIntersectingChunk`: `std::lower_bound` for an exclusive max, the first chunk whose
max's KeyString is not below the key's, and `std::upper_bound` otherwise, the first chunk whose
max's KeyString lies above it. -/
def _findIntersectingChunk (keyString : κ → K) (m : ChunkMap κ σ) (shardKey : κ)
    (isMaxInclusive : Bool) : Nat :=
  let shardKeyString := keyString shardKey
  if !isMaxInclusive then
    lowerBound m.chunkMap shardKey fun chunkInfo _ =>
      decide (keyString chunkInfo.range.max < shardKeyString)
  else
    upperBound m.chunkMap shardKey fun _ chunkInfo =>
      decide (shardKeyString < keyString chunkInfo.range.max)

/-- `_overlappingBounds`: from the chunk `min` falls in to one past the chunk `max` falls in. -/
def _overlappingBounds (keyString : κ → K) (m : ChunkMap κ σ) (min max : κ)
    (isMaxInclusive : Bool) : Nat × Nat :=
  let itMin := m._findIntersectingChunk keyString min true
  let itMax :=
    let it := m._findIntersectingChunk keyString max isMaxInclusive
    if it = m.chunkMap.length then it else it + 1
  (itMin, itMax)

/-- The chunks from the first of the overlapping bounds up to the second, which the loop of
`forEachOverlappingChunk` walks. -/
def overlappingChunks (keyString : κ → K) (m : ChunkMap κ σ) (min max : κ)
    (isMaxInclusive : Bool) : List (ChunkInfo κ σ) :=
  let bounds := m._overlappingBounds keyString min max isMaxInclusive
  (m.chunkMap.drop bounds.1).take (bounds.2 - bounds.1)

end ChunkMap

/-- The loop of `forEach` and `forEachOverlappingChunk`: the handler takes the state it captures
with each chunk, and stops the loop by returning false. -/
def forEachLoop {β : Type} (handler : β → ChunkInfo κ σ → β × Bool) :
    β → List (ChunkInfo κ σ) → β
  | s, [] => s
  | s, chunkInfo :: rest =>
    let (s', more) := handler s chunkInfo
    if more then forEachLoop handler s' rest else s'

/-- `ChunkMap::forEachOverlappingChunk`. -/
def ChunkMap.forEachOverlappingChunk {β : Type} (keyString : κ → K) (m : ChunkMap κ σ)
    (min max : κ) (isMaxInclusive : Bool) (handler : β → ChunkInfo κ σ → β × Bool) (s : β) : β :=
  forEachLoop handler s (m.overlappingChunks keyString min max isMaxInclusive)

/-- `ChunkManager::getShardIdsForRange` on a routing table read at its latest version (no
`_clusterTime`), whose `_shardVersions` hold the shards `shardVersions`: all of them for the
range from the all-MinKey key to the all-MaxKey key, and otherwise the shard of each chunk that
meets [min, max], until the set holds as many shards as `_shardVersions`. -/
def getShardIdsForRange [DecidableEq σ] (keyString : κ → K) (globalMin globalMax : κ)
    (m : ChunkMap κ σ) (shardVersions : Finset σ) (min max : κ) (shardIds : Finset σ) :
    Finset σ :=
  if min = globalMin ∧ max = globalMax then shardIds ∪ shardVersions
  else
    m.forEachOverlappingChunk keyString min max true
      (fun shardIds chunkInfo =>
        let shardIds := insert chunkInfo.shardId shardIds
        (shardIds, decide (shardIds.card ≠ shardVersions.card)))
      shardIds

/-- `ChunkManager::rangeOverlapsShard` on a routing table read at its latest version: the loop
over the chunks that meet the range, its max excluded, stops at the first chunk on the shard. -/
def rangeOverlapsShard [DecidableEq σ] (keyString : κ → K) (m : ChunkMap κ σ)
    (range : ChunkRange κ) (shardId : σ) : Bool :=
  m.forEachOverlappingChunk keyString range.min range.max false
    (fun overlapFound chunkInfo =>
      if chunkInfo.shardId = shardId then (true, false) else (overlapFound, true))
    false

/-- Chunk `c` holds a key of the range from `min` to `max`, `max` included or not. -/
def MeetsRange (c : ChunkInfo κ σ) (min max : κ) (isMaxInclusive : Bool) : Prop :=
  ∃ k, c.range.containsKey k = true ∧ min ≤ k ∧ if isMaxInclusive then k ≤ max else k < max

theorem containsKey_iff_holds {c : ChunkInfo κ σ} {k : κ} :
    c.range.containsKey k = true ↔ Holds chunkMin chunkMax c k := by
  simp [ChunkRange.containsKey, Holds, chunkMin, chunkMax]

/-- A chunk meets a range when it ends above `min` and starts at or below `max`, or below an
exclusive `max`; a key where both start is in both. -/
theorem meetsRange_iff {c : ChunkInfo κ σ} {min max : κ} {isMaxInclusive : Bool}
    (hle : min ≤ max) (hincl : isMaxInclusive = true ∨ min < max) :
    MeetsRange c min max isMaxInclusive ↔
      min < c.range.max ∧
        if isMaxInclusive then c.range.min ≤ max else c.range.min < max := by
  unfold MeetsRange
  constructor
  · rintro ⟨k, hk, hmin, hmax⟩
    rw [containsKey_iff_holds] at hk
    refine ⟨hmin.trans_lt hk.2, ?_⟩
    cases isMaxInclusive
    · exact hk.1.trans_lt hmax
    · exact hk.1.trans hmax
  · rintro ⟨hmin, hmax⟩
    have hc := c.min_lt_max
    -- the later of the two starts
    refine ⟨if c.range.min ≤ min then min else c.range.min, ?_, ?_, ?_⟩
    · rw [containsKey_iff_holds]
      unfold Holds chunkMin chunkMax
      split <;> exact ⟨by order, by order⟩
    · split <;> order
    · cases isMaxInclusive
      · have hlt : min < max := by simpa using hincl
        rw [if_neg (by decide)] at hmax ⊢
        split
        · exact hlt
        · exact hmax
      · rw [if_pos rfl] at hmax ⊢
        split
        · exact hle
        · exact hmax

section Tiling

variable {m : ChunkMap κ σ} {globalMin globalMax : κ} {keyString : κ → K}

/-- On a tiling the maxima increase, so the chunks whose max lies at or below a key come
first. -/
theorem partitioned_upperBound (ht : Tiles chunkMin chunkMax globalMin globalMax m.chunkMap)
    (k : κ) : Partitioned (fun c : ChunkInfo κ σ => !decide (k < c.range.max)) m.chunkMap := by
  refine ht.pairwise.imp_of_mem fun {x y} _ hy hxy hb => ?_
  have hy' := y.min_lt_max
  simp only [chunkMin, chunkMax, Bool.not_eq_eq_eq_not, Bool.not_true, decide_eq_false_iff_not,
    not_lt] at hxy hb ⊢
  order

theorem partitioned_lowerBound (ht : Tiles chunkMin chunkMax globalMin globalMax m.chunkMap)
    (k : κ) : Partitioned (fun c : ChunkInfo κ σ => decide (c.range.max < k)) m.chunkMap := by
  refine ht.pairwise.imp_of_mem fun {x y} _ hy hxy hb => ?_
  have hy' := y.min_lt_max
  simp only [chunkMin, chunkMax, decide_eq_true_eq] at hxy hb ⊢
  order

/-- The chunk at position `j` is among those the loop walks exactly when `j` lies between the
overlapping bounds. -/
theorem getElem_mem_overlappingChunks_iff
    (ht : Tiles chunkMin chunkMax globalMin globalMax m.chunkMap) {min max : κ}
    {isMaxInclusive : Bool} {j : Nat} (hj : j < m.chunkMap.length) :
    m.chunkMap[j] ∈ m.overlappingChunks keyString min max isMaxInclusive ↔
      (m._overlappingBounds keyString min max isMaxInclusive).1 ≤ j ∧
        j < (m._overlappingBounds keyString min max isMaxInclusive).2 := by
  unfold ChunkMap.overlappingChunks
  simp only [List.mem_take_iff_getElem, List.getElem_drop, List.length_drop]
  constructor
  · rintro ⟨i, hi, he⟩
    have hij := ht.getElem_inj (by omega) hj he
    omega
  · rintro ⟨h₁, h₂⟩
    refine ⟨j - (m._overlappingBounds keyString min max isMaxInclusive).1, by omega, ?_⟩
    congr 1
    omega

section KeyString

variable (hks : StrictMono keyString)
include hks

/-- The inclusive search ends at the partition point of the chunks ending at or below the
key. -/
theorem findIntersectingChunk_inclusive (ht : Tiles chunkMin chunkMax globalMin globalMax m.chunkMap)
    (k : κ) :
    IsPartitionPoint (fun c : ChunkInfo κ σ => !decide (k < c.range.max)) m.chunkMap
      (m._findIntersectingChunk keyString k true) := by
  -- the KeyStrings compare as the keys, so the search's predicate is the keys'
  have hpred : (fun c : ChunkInfo κ σ => !decide (k < c.range.max)) =
      fun c => !decide (keyString k < keyString c.range.max) := by
    funext c
    simp only [hks.lt_iff_lt]
  unfold ChunkMap._findIntersectingChunk
  rw [if_neg (by decide), hpred]
  exact upperBound_isPartitionPoint k
    (fun _ (chunkInfo : ChunkInfo κ σ) => decide (keyString k < keyString chunkInfo.range.max))
    (hpred ▸ partitioned_upperBound ht k)

/-- The exclusive search ends at the partition point of the chunks ending below the key. -/
theorem findIntersectingChunk_exclusive (ht : Tiles chunkMin chunkMax globalMin globalMax m.chunkMap)
    (k : κ) :
    IsPartitionPoint (fun c : ChunkInfo κ σ => decide (c.range.max < k)) m.chunkMap
      (m._findIntersectingChunk keyString k false) := by
  have hpred : (fun c : ChunkInfo κ σ => decide (c.range.max < k)) =
      fun c => decide (keyString c.range.max < keyString k) := by
    funext c
    simp only [hks.lt_iff_lt]
  unfold ChunkMap._findIntersectingChunk
  rw [if_pos (by decide), hpred]
  exact lowerBound_isPartitionPoint k
    (fun (chunkInfo : ChunkInfo κ σ) _ => decide (keyString chunkInfo.range.max < keyString k))
    (hpred ▸ partitioned_lowerBound ht k)

/-- The inclusive search lands on the first chunk whose max lies above the key. -/
theorem getElem?_findIntersectingChunk
    (ht : Tiles chunkMin chunkMax globalMin globalMax m.chunkMap) (k : κ) :
    m.chunkMap[m._findIntersectingChunk keyString k true]? =
      m.chunkMap.find? fun c => decide (k < c.range.max) := by
  rw [(findIntersectingChunk_inclusive hks ht k).getElem?_eq_find?]
  simp

/-- `ChunkMap::findIntersectingChunk` dereferences the inclusive search. -/
theorem findIntersectingChunk_eq_getElem?
    (ht : Tiles chunkMin chunkMax globalMin globalMax m.chunkMap) (k : κ) :
    m.chunkMap[m._findIntersectingChunk keyString k true]? = m.findIntersectingChunk keyString k := by
  rw [getElem?_findIntersectingChunk hks ht, ChunkMap.findIntersectingChunk_eq_find? hks]

/-- On a table that tiles the key space from `globalMin`, the inclusive search finds the chunk
that contains a key at or above `globalMin`, and no chunk when none contains it. -/
theorem findIntersectingChunk_some_iff (ht : Tiles chunkMin chunkMax globalMin globalMax m.chunkMap)
    {k : κ} (hk : globalMin ≤ k) (c : ChunkInfo κ σ) :
    m.chunkMap[m._findIntersectingChunk keyString k true]? = some c ↔
      c ∈ m.chunkMap ∧ c.range.containsKey k = true := by
  rw [getElem?_findIntersectingChunk hks ht, containsKey_iff_holds]
  constructor
  · intro hc
    by_cases hkb : k < globalMax
    · obtain ⟨x, hx, hxk⟩ := ht.find?_holds hk hkb
      rw [hx, Option.some.injEq] at hc
      subst hc
      exact ⟨List.mem_of_find?_eq_some hx, hxk⟩
    · -- past the last max no chunk ends above the key
      have hnone : (m.chunkMap.find? fun c => decide (k < c.range.max)) = none := by
        rw [List.find?_eq_none]
        intro x hx
        have hb := (ht.bounds x hx).2
        simp only [chunkMax] at hb
        simp only [decide_eq_true_eq, not_lt]
        exact hb.trans (not_lt.mp hkb)
      rw [hnone] at hc
      cases hc
  · rintro ⟨hc, hck⟩
    have hkb : k < globalMax := ((ht.holds_iff k).mp ⟨c, hc, hck⟩).2
    obtain ⟨x, hx, hxk⟩ := ht.find?_holds hk hkb
    have hxc := ht.eq_of_holds (List.mem_of_find?_eq_some hx) hc hxk hck
    subst hxc
    exact hx

/-- The walk starts at the first chunk that ends above `min`. -/
theorem fst_overlappingBounds_le_iff
    (ht : Tiles chunkMin chunkMax globalMin globalMax m.chunkMap) {min max : κ}
    {isMaxInclusive : Bool} {j : Nat} (hj : j < m.chunkMap.length) :
    (m._overlappingBounds keyString min max isMaxInclusive).1 ≤ j ↔
      min < m.chunkMap[j].range.max := by
  have hp := findIntersectingChunk_inclusive hks ht min
  change m._findIntersectingChunk keyString min true ≤ j ↔ _
  constructor
  · intro hle
    simpa using hp.ge j hj hle
  · intro hlt
    by_contra hgt
    have := hp.lt j hj (by omega)
    simp [hlt] at this

/-- The walk ends after the chunk that `max` falls in: it takes the chunks that start at or
below `max`, or below an exclusive `max`. A chunk starts at `globalMin` or where an earlier one
ends, and an earlier chunk ends at or below `max`. -/
theorem lt_snd_overlappingBounds_iff
    (ht : Tiles chunkMin chunkMax globalMin globalMax m.chunkMap) {min max : κ}
    {isMaxInclusive : Bool} (hmin : globalMin ≤ min) (hle : min ≤ max)
    (hincl : isMaxInclusive = true ∨ min < max) {j : Nat} (hj : j < m.chunkMap.length) :
    j < (m._overlappingBounds keyString min max isMaxInclusive).2 ↔
      if isMaxInclusive then m.chunkMap[j].range.min ≤ max else m.chunkMap[j].range.min < max := by
  have hnonempty := ht.nonempty m.chunkMap[j] (List.getElem_mem hj)
  have hstart := ht.lo_getElem j hj
  have hsorted := List.pairwise_iff_getElem.mp ht.pairwise
  simp only [chunkMin, chunkMax] at hnonempty hstart hsorted
  change j < (let it := m._findIntersectingChunk keyString max isMaxInclusive
    if it = m.chunkMap.length then it else it + 1) ↔ _
  cases isMaxInclusive with
  | true =>
    have hp := findIntersectingChunk_inclusive hks ht max
    simp only [if_true]
    constructor
    · intro hlt
      by_cases hjr : j < m._findIntersectingChunk keyString max true
      · have := hp.lt j hj hjr
        simp only [Bool.not_eq_eq_eq_not, Bool.not_true, decide_eq_false_iff_not, not_lt] at this
        exact hnonempty.le.trans this
      · rcases hstart with h0 | ⟨i, hil, hij, he⟩
        · rw [h0]
          exact hmin.trans hle
        · have := hp.lt i hil (by split at hlt <;> omega)
          simp only [Bool.not_eq_eq_eq_not, Bool.not_true, decide_eq_false_iff_not, not_lt] at this
          exact he ▸ this
    · intro hmax
      by_contra hge
      have hr : m._findIntersectingChunk keyString max true < m.chunkMap.length := by
        have := hp.le_length
        split at hge <;> omega
      have hrj : m._findIntersectingChunk keyString max true < j := by split at hge <;> omega
      have hgt := hp.ge _ hr (Nat.le_refl _)
      simp only [Bool.not_eq_eq_eq_not, Bool.not_false, decide_eq_true_eq] at hgt
      exact absurd ((hgt.trans_le (hsorted _ j hr hj hrj)).trans_le hmax) (lt_irrefl _)
  | false =>
    have hp := findIntersectingChunk_exclusive hks ht max
    have hlt : min < max := by simpa using hincl
    simp only [Bool.false_eq_true, if_false]
    constructor
    · intro hjlt
      by_cases hjr : j < m._findIntersectingChunk keyString max false
      · have := hp.lt j hj hjr
        simp only [decide_eq_true_eq] at this
        exact hnonempty.trans this
      · rcases hstart with h0 | ⟨i, hil, hij, he⟩
        · rw [h0]
          exact hmin.trans_lt hlt
        · have := hp.lt i hil (by split at hjlt <;> omega)
          simp only [decide_eq_true_eq] at this
          exact he ▸ this
    · intro hmax
      by_contra hge
      have hr : m._findIntersectingChunk keyString max false < m.chunkMap.length := by
        have := hp.le_length
        split at hge <;> omega
      have hrj : m._findIntersectingChunk keyString max false < j := by split at hge <;> omega
      have hgt := hp.ge _ hr (Nat.le_refl _)
      simp only [decide_eq_false_iff_not, not_lt] at hgt
      exact absurd ((hgt.trans (hsorted _ j hr hj hrj)).trans_lt hmax) (lt_irrefl _)

/-- Off an empty exclusive range, the loop walks, in the table's order, exactly the chunks that
meet the range. -/
theorem overlappingChunks_meets (ht : Tiles chunkMin chunkMax globalMin globalMax m.chunkMap)
    {min max : κ} {isMaxInclusive : Bool} (hmin : globalMin ≤ min) (hle : min ≤ max)
    (hincl : isMaxInclusive = true ∨ min < max) :
    (m.overlappingChunks keyString min max isMaxInclusive).Sublist m.chunkMap ∧
      ∀ c ∈ m.chunkMap, c ∈ m.overlappingChunks keyString min max isMaxInclusive ↔
        MeetsRange c min max isMaxInclusive := by
  refine ⟨(List.take_sublist _ _).trans (List.drop_sublist _ _), fun c hc => ?_⟩
  obtain ⟨j, hj, rfl⟩ := List.mem_iff_getElem.mp hc
  rw [getElem_mem_overlappingChunks_iff ht hj, fst_overlappingBounds_le_iff hks ht hj,
    lt_snd_overlappingBounds_iff hks ht hmin hle hincl hj, meetsRange_iff hle hincl]

end KeyString

end Tiling

/-- The shards `constructShardVersionMap` gives a version are those that own a chunk. -/
theorem ShardVersionsOf.ne_none_iff {epoch : Nat} {chunks : List (ChunkInfo κ σ)}
    {shardVersions : σ → Option ChunkVersion} (h : ShardVersionsOf epoch chunks shardVersions)
    (s : σ) : shardVersions s ≠ none ↔ ∃ c ∈ chunks, c.shardId = s := by
  rcases h s with ⟨hnone, hno⟩ | ⟨v, hv, -, ⟨c, hc, hcs, -⟩, -⟩
  · simp only [hnone, ne_eq, not_true_eq_false, false_iff, not_exists, not_and]
    exact hno
  · simp only [hv, ne_eq, reduceCtorEq, not_false_eq_true, true_iff]
    exact ⟨c, hc, hcs⟩

variable [DecidableEq σ]

/-- The handler of `getShardIdsForRange` adds the shard of each chunk it sees. Stopping once the
set has as many shards as `_shardVersions` loses none: the set then holds every shard of the
table. -/
theorem forEachLoop_insertShard {shardVersions : Finset σ} (cs : List (ChunkInfo κ σ))
    (shardIds : Finset σ) (hS : shardIds ⊆ shardVersions)
    (hcs : ∀ c ∈ cs, c.shardId ∈ shardVersions) :
    forEachLoop (fun shardIds (chunkInfo : ChunkInfo κ σ) =>
        let shardIds := insert chunkInfo.shardId shardIds
        (shardIds, decide (shardIds.card ≠ shardVersions.card))) shardIds cs =
      shardIds ∪ (cs.map (·.shardId)).toFinset := by
  induction cs generalizing shardIds with
  | nil => simp [forEachLoop]
  | cons c cs ih =>
    have hins : insert c.shardId shardIds ⊆ shardVersions :=
      Finset.insert_subset (hcs c List.mem_cons_self) hS
    have hrest : ∀ x ∈ cs, x.shardId ∈ shardVersions := fun x hx => hcs x (List.mem_cons_of_mem _ hx)
    simp only [forEachLoop]
    by_cases hcard : (insert c.shardId shardIds).card = shardVersions.card
    · -- the set has every shard, and so every shard of the rest
      have heq := Finset.eq_of_subset_of_card_le hins hcard.ge
      simp only [hcard, ne_eq, not_true_eq_false, decide_false, Bool.false_eq_true, if_false]
      rw [heq]
      refine Finset.Subset.antisymm ?_ (Finset.union_subset hS ?_)
      · rw [← heq]
        intro x hx
        simp only [Finset.mem_insert] at hx
        simp only [Finset.mem_union, List.mem_toFinset, List.mem_map, List.mem_cons]
        rcases hx with rfl | hx
        · exact .inr ⟨c, .inl rfl, rfl⟩
        · exact .inl hx
      · intro x hx
        simp only [List.mem_toFinset, List.mem_map, List.mem_cons] at hx
        obtain ⟨y, hy, rfl⟩ := hx
        rcases hy with rfl | hy
        · exact hcs y List.mem_cons_self
        · exact hrest y hy
    · simp only [hcard, ne_eq, not_false_eq_true, decide_true, if_true]
      rw [ih _ hins hrest]
      ext x
      simp only [Finset.mem_union, Finset.mem_insert, List.mem_toFinset, List.mem_map,
        List.mem_cons]
      constructor
      · rintro ((rfl | hx) | ⟨y, hy, rfl⟩)
        · exact .inr ⟨c, .inl rfl, rfl⟩
        · exact .inl hx
        · exact .inr ⟨y, .inr hy, rfl⟩
      · rintro (hx | ⟨y, rfl | hy, rfl⟩)
        · exact .inl (.inr hx)
        · exact .inl (.inl rfl)
        · exact .inr ⟨y, hy, rfl⟩

/-- The handler of `rangeOverlapsShard` stops at the first chunk on the shard, having found
it. -/
theorem forEachLoop_findShard (shardId : σ) (cs : List (ChunkInfo κ σ)) (overlapFound : Bool) :
    forEachLoop (fun overlapFound (chunkInfo : ChunkInfo κ σ) =>
        if chunkInfo.shardId = shardId then (true, false) else (overlapFound, true))
      overlapFound cs = (overlapFound || cs.any fun c => decide (c.shardId = shardId)) := by
  induction cs generalizing overlapFound with
  | nil => simp [forEachLoop]
  | cons c cs ih =>
    by_cases hc : c.shardId = shardId
    · simp [forEachLoop, hc]
    · simp [forEachLoop, hc, ih]

/-- On a valid table that tiles the key space, `getShardIdsForRange` adds to a set of the
table's shards the shards of exactly the chunks that meet [min, max]. -/
theorem mem_getShardIdsForRange_iff {keyString : κ → K} (hks : StrictMono keyString)
    {m : ChunkMap κ σ} {globalMin globalMax : κ} (hm : m.Valid)
    (ht : Tiles chunkMin chunkMax globalMin globalMax m.chunkMap)
    {sv : σ → Option ChunkVersion} (hsv : m.constructShardVersionMap globalMin globalMax = .ok sv)
    {shardVersions : Finset σ} (hkeys : ∀ s, s ∈ shardVersions ↔ sv s ≠ none)
    {min max : κ} (hmin : globalMin ≤ min) (hle : min ≤ max) {shardIds : Finset σ}
    (hS : shardIds ⊆ shardVersions) (s : σ) :
    s ∈ getShardIdsForRange keyString globalMin globalMax m shardVersions min max shardIds ↔
      s ∈ shardIds ∨ ∃ c ∈ m.chunkMap, MeetsRange c min max true ∧ c.shardId = s := by
  obtain ⟨sv', hsv', hof⟩ := ChunkMap.constructShardVersionMap_eq_ok hm ht
  rw [hsv] at hsv'
  injection hsv' with hsv'
  subst hsv'
  have hshards : ∀ s, s ∈ shardVersions ↔ ∃ c ∈ m.chunkMap, c.shardId = s :=
    fun s => (hkeys s).trans (hof.ne_none_iff s)
  unfold getShardIdsForRange
  split
  · -- from the all-MinKey to the all-MaxKey key: every chunk meets the range
    rename_i hall
    obtain ⟨rfl, rfl⟩ := hall
    rw [Finset.mem_union, hshards]
    apply or_congr_right
    constructor
    · rintro ⟨c, hc, rfl⟩
      obtain ⟨hlo, hhi⟩ := ht.bounds c hc
      have hne := c.min_lt_max
      simp only [chunkMin, chunkMax] at hlo hhi
      refine ⟨c, hc, (meetsRange_iff hle (.inl rfl)).mpr ⟨hlo.trans_lt hne, ?_⟩, rfl⟩
      exact hne.le.trans hhi
    · rintro ⟨c, hc, -, rfl⟩
      exact ⟨c, hc, rfl⟩
  · obtain ⟨hsub, hmem⟩ := overlappingChunks_meets hks ht hmin hle (.inl rfl)
    unfold ChunkMap.forEachOverlappingChunk
    rw [forEachLoop_insertShard _ _ hS fun c hc => (hshards _).mpr ⟨c, hsub.subset hc, rfl⟩]
    simp only [Finset.mem_union, List.mem_toFinset, List.mem_map]
    apply or_congr_right
    constructor
    · rintro ⟨c, hc, rfl⟩
      exact ⟨c, hsub.subset hc, (hmem c (hsub.subset hc)).mp hc, rfl⟩
    · rintro ⟨c, hc, hmc, rfl⟩
      exact ⟨c, (hmem c hc).mpr hmc, rfl⟩

theorem chunk_targeting_agrees_with_ranges {keyString : κ → K} (hks : StrictMono keyString)
    {m : ChunkMap κ σ} {globalMin globalMax : κ}
    (hm : m.Valid) (ht : Tiles chunkMin chunkMax globalMin globalMax m.chunkMap) :
    (∀ k, m.chunkMap[m._findIntersectingChunk keyString k true]? =
      m.findIntersectingChunk keyString k) ∧
    (∀ k, globalMin ≤ k → ∀ c, m.chunkMap[m._findIntersectingChunk keyString k true]? = some c ↔
      c ∈ m.chunkMap ∧ c.range.containsKey k = true) ∧
    (∀ min max isMaxInclusive, globalMin ≤ min → min ≤ max →
      (isMaxInclusive = true ∨ min < max) →
      ∃ visited : List (ChunkInfo κ σ), visited.Sublist m.chunkMap ∧
        (∀ c ∈ m.chunkMap, c ∈ visited ↔ MeetsRange c min max isMaxInclusive) ∧
        ∀ (β : Type) (handler : β → ChunkInfo κ σ → β × Bool) (s : β),
          m.forEachOverlappingChunk keyString min max isMaxInclusive handler s =
            forEachLoop handler s visited) ∧
    (∀ sv shardVersions, m.constructShardVersionMap globalMin globalMax = .ok sv →
      (∀ s, s ∈ shardVersions ↔ sv s ≠ none) →
      ∀ min max shardIds, globalMin ≤ min → min ≤ max → shardIds ⊆ shardVersions →
        ∀ s, s ∈ getShardIdsForRange keyString globalMin globalMax m shardVersions min max
            shardIds ↔
          s ∈ shardIds ∨ ∃ c ∈ m.chunkMap, MeetsRange c min max true ∧ c.shardId = s) := by
  refine ⟨findIntersectingChunk_eq_getElem? hks ht,
    fun k hk c => findIntersectingChunk_some_iff hks ht hk c, ?_, ?_⟩
  · intro min max isMaxInclusive hmin hle hincl
    obtain ⟨hsub, hmem⟩ := overlappingChunks_meets hks ht hmin hle hincl
    exact ⟨_, hsub, hmem, fun _ _ _ => rfl⟩
  · intro sv shardVersions hsv hkeys min max shardIds hmin hle hS s
    exact mem_getShardIdsForRange_iff hks hm ht hsv hkeys hmin hle hS s

/-- On a table that tiles the key space, `rangeOverlapsShard` on a range of keys, its min below
its max as `ChunkRange`'s constructor asserts, answers whether the shard owns a chunk that
overlaps the range. -/
theorem rangeOverlapsShard_iff_overlaps {keyString : κ → K} (hks : StrictMono keyString)
    {m : ChunkMap κ σ} {globalMin globalMax : κ}
    (ht : Tiles chunkMin chunkMax globalMin globalMax m.chunkMap) {range : ChunkRange κ}
    (hmin : globalMin ≤ range.min) (hr : range.min < range.max) (shardId : σ) :
    rangeOverlapsShard keyString m range shardId = true ↔
      ∃ c ∈ m.chunkMap, c.shardId = shardId ∧ c.range.overlaps range = true := by
  obtain ⟨hsub, hmem⟩ := overlappingChunks_meets hks ht hmin hr.le (.inr hr)
  -- a chunk meets the range, max excluded, exactly when it overlaps it
  have hmeets : ∀ c : ChunkInfo κ σ,
      MeetsRange c range.min range.max false ↔ c.range.overlaps range = true := by
    intro c
    rw [meetsRange_iff hr.le (.inr hr)]
    simp [ChunkRange.overlaps, and_comm]
  unfold rangeOverlapsShard ChunkMap.forEachOverlappingChunk
  rw [forEachLoop_findShard]
  simp only [Bool.false_or, List.any_eq_true, decide_eq_true_eq]
  constructor
  · rintro ⟨c, hc, hcs⟩
    exact ⟨c, hsub.subset hc, hcs, (hmeets c).mp ((hmem c (hsub.subset hc)).mp hc)⟩
  · rintro ⟨c, hc, hcs, hov⟩
    exact ⟨c, (hmem c hc).mpr ((hmeets c).mpr hov), hcs⟩

/-- Two chunks, [0, 10) on shard 0 and [10, 20) on shard 1. -/
def twoChunkTable : ChunkMap Nat Nat :=
  ⟨[⟨⟨0, 10⟩, 0, ⟨1, 0, 1⟩, (by decide : (0 : Nat) < 10),
      (by decide : (0 < 1 || 0 < 0) = true)⟩,
    ⟨⟨10, 20⟩, 1, ⟨1, 1, 1⟩, by decide, by decide⟩], ⟨1, 1, 1⟩⟩

theorem twoChunkTable_tiles : Tiles chunkMin chunkMax 0 20 twoChunkTable.chunkMap :=
  Tiles.cons (x := twoChunkTable.chunkMap[0]) (by decide)
    (Tiles.single (x := twoChunkTable.chunkMap[1]) (by decide))

theorem chunk_targeting_agrees_with_ranges_two_chunks :
    StrictMono (id : Nat → Nat) ∧ twoChunkTable.Valid ∧
      Tiles chunkMin chunkMax 0 20 twoChunkTable.chunkMap ∧
      twoChunkTable.chunkMap[twoChunkTable._findIntersectingChunk id 15 true]? =
        some twoChunkTable.chunkMap[1] := by
  have hm : twoChunkTable.Valid := ⟨by decide, by decide⟩
  refine ⟨strictMono_id, hm, twoChunkTable_tiles, ?_⟩
  exact ((chunk_targeting_agrees_with_ranges strictMono_id hm twoChunkTable_tiles).2.1 15
    (by decide) _).mpr ⟨by simp [twoChunkTable], by decide⟩

/-- With an exclusive max and `min = max = 5`, the loop still visits [0, 10), though the range
holds no key. -/
theorem forEachOverlappingChunk_empty_exclusive_range :
    Tiles chunkMin chunkMax 0 20 twoChunkTable.chunkMap ∧
      twoChunkTable.forEachOverlappingChunk id 5 5 false
        (fun seen (c : ChunkInfo Nat Nat) => (seen ++ [c.range.min], true)) [] = [0] ∧
      ∀ c ∈ twoChunkTable.chunkMap, ¬ MeetsRange c 5 5 false := by
  refine ⟨twoChunkTable_tiles, ?_, ?_⟩
  · simp [twoChunkTable, ChunkMap.forEachOverlappingChunk, ChunkMap.overlappingChunks,
      ChunkMap._overlappingBounds, ChunkMap._findIntersectingChunk, upperBound, lowerBound, search,
      forEachLoop]
  · rintro c - ⟨k, -, hk, hk'⟩
    simp only [Bool.false_eq_true, if_false] at hk'
    omega

/-- Shard 1 owns [10, 20), which overlaps [5, 15). -/
theorem rangeOverlapsShard_iff_overlaps_two_chunks :
    StrictMono (id : Nat → Nat) ∧ Tiles chunkMin chunkMax 0 20 twoChunkTable.chunkMap ∧
      rangeOverlapsShard id twoChunkTable ⟨5, 15⟩ 1 = true := by
  refine ⟨strictMono_id, twoChunkTable_tiles, ?_⟩
  exact (rangeOverlapsShard_iff_overlaps strictMono_id twoChunkTable_tiles
    (show (0 : Nat) ≤ (⟨5, 15⟩ : ChunkRange Nat).min by decide) (by decide) 1).mpr ⟨twoChunkTable.chunkMap[1], by simp [twoChunkTable], rfl, by decide⟩

end mongo
