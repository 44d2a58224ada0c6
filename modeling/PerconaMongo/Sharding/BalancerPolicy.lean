-- The migrations the balancer chooses for one collection, balancer_policy.cpp: the chunk counts
-- of `DistributionStatus`, the searches for the least loaded receiver and the most loaded
-- donor, and `BalancerPolicy::balance` with its three phases (chunks off draining shards, chunks
-- off shards outside their zone, and in each zone chunks from the most to the least loaded shard
-- while both are off the rounded average), which share the set of shards already used. The
-- random-migration failpoint is off; log lines, and the jumbo counters only they print, are
-- left out. `none` is a call that trips an `invariant`.
import PerconaMongo.Sharding.ZoneInfo
import PerconaMongo.Lib.Float
import Mathlib

namespace mongo

open binary_float

variable {κ : Type} [LinearOrder κ]

deriving instance DecidableEq for ChunkRange

/-- A `ShardId`: the name of a shard. -/
abbrev ShardId := String

/-- `ShardId::isValid`: a non-empty name. -/
def ShardId.isValid (s : ShardId) : Bool := !s.isEmpty

/-- `ClusterStatistics::ShardStatistics`, without the mongo version, which nothing here reads. -/
structure ShardStatistics where
  shardId : ShardId
  maxSizeMB : Nat
  currSizeMB : Nat
  isDraining : Bool
  shardTags : List String
  deriving DecidableEq

/-- `isSizeMaxed`: a maximum is set and the current size has reached it. -/
def ShardStatistics.isSizeMaxed (stat : ShardStatistics) : Bool :=
  if stat.maxSizeMB = 0 ∨ stat.currSizeMB = 0 then false else stat.maxSizeMB ≤ stat.currSizeMB

/-- A `ChunkType`, with the fields the balancer reads. -/
structure ChunkType (κ : Type) where
  range : ChunkRange κ
  version : ChunkVersion
  shard : ShardId
  jumbo : Bool
  deriving DecidableEq

/-- `ChunkType::validate` on the fields modelled: a set version, a valid shard and a max above
the min. -/
def ChunkType.validate (c : ChunkType κ) : Bool :=
  c.version.isSet && c.shard.isValid && decide (c.range.min < c.range.max)

/-- `DistributionStatus`: `_shardChunks`, the map from each shard to its chunks, as its
entries, and the zones of the collection. -/
structure DistributionStatus (κ : Type) where
  shardChunks : List (ShardId × List (ChunkType κ))
  zoneInfo : ZoneInfo κ

namespace DistributionStatus

/-- `getChunks`: `invariant(i != _shardChunks.end())`. -/
def getChunks (d : DistributionStatus κ) (shardId : ShardId) : Option (List (ChunkType κ)) :=
  d.shardChunks.lookup shardId

def getTagForChunk (d : DistributionStatus κ) (chunk : ChunkType κ) : String :=
  d.zoneInfo.getZoneForChunk chunk.range

def numberOfChunksInShard (d : DistributionStatus κ) (shardId : ShardId) : Option Nat :=
  (d.getChunks shardId).map List.length

def numberOfChunksInShardWithTag (d : DistributionStatus κ) (shardId : ShardId) (tag : String) :
    Option Nat :=
  (d.getChunks shardId).map fun chunks => chunks.countP fun chunk => tag == d.getTagForChunk chunk

def totalChunks (d : DistributionStatus κ) : Nat := (d.shardChunks.map fun p => p.2.length).sum

def totalChunksWithTag (d : DistributionStatus κ) (tag : String) : Option Nat :=
  (d.shardChunks.mapM fun p => d.numberOfChunksInShardWithTag p.1 tag).map List.sum

/-- `tags`: the zones, as the ordered set of `ZoneInfo` holds them. -/
def tags (d : DistributionStatus κ) : List String := d.zoneInfo.allZones

end DistributionStatus

inductive ForceJumbo where
  | kDoNotForce
  | kForceBalancer
  deriving DecidableEq

inductive MigrationReason where
  | none
  | drain
  | zoneViolation
  | chunksImbalance
  deriving DecidableEq

/-- A `MigrateInfo` of the collection; `from` and `to` are keywords of Lean, so the donor and the
receiver are `fromShard` and `toShard`. -/
structure MigrateInfo (κ : Type) where
  toShard : ShardId
  fromShard : ShardId
  minKey : κ
  maxKey : κ
  version : ChunkVersion
  forceJumbo : ForceJumbo
  reason : MigrationReason
  deriving DecidableEq

/-- The fields the `MigrateInfo` constructor takes from the chunk. -/
def MigrateInfo.ofChunk (toShard : ShardId) (chunk : ChunkType κ) (forceJumbo : ForceJumbo)
    (reason : MigrationReason) : MigrateInfo κ :=
  ⟨toShard, chunk.shard, chunk.range.min, chunk.range.max, chunk.version, forceJumbo, reason⟩

/-- The `MigrateInfo` constructor: `invariant(a_chunk.validate())` and
`invariant(a_to.isValid())`. -/
def MigrateInfo.make (toShard : ShardId) (chunk : ChunkType κ) (forceJumbo : ForceJumbo)
    (reason : MigrationReason) : Option (MigrateInfo κ) :=
  if chunk.validate && toShard.isValid then some (.ofChunk toShard chunk forceJumbo reason) else none

namespace BalancerPolicy

/-- `kDefaultImbalanceThreshold`. -/
def kDefaultImbalanceThreshold : Nat := 1

/-- `isShardSuitableReceiver`. -/
def isShardSuitableReceiver (stat : ShardStatistics) (chunkTag : String) : Except String Unit :=
  if stat.isSizeMaxed then .error (stat.shardId ++ " has reached its maximum storage size.")
  else if stat.isDraining then .error (stat.shardId ++ " is currently draining.")
  else if !chunkTag.isEmpty && !decide (chunkTag ∈ stat.shardTags) then
    .error (stat.shardId ++ " is not in the correct zone " ++ chunkTag)
  else .ok ()

/-- One iteration of the loop of `_getLeastLoadedReceiverShard` over `(best, minChunks)`; the
chunk count is read into an `unsigned`. -/
def leastLoadedStep (d : DistributionStatus κ) (tag : String) (excludedShards : Finset ShardId)
    (acc : ShardId × Nat) (stat : ShardStatistics) : Option (ShardId × Nat) :=
  if stat.shardId ∈ excludedShards then some acc
  else
    match isShardSuitableReceiver stat tag with
    | .error _ => some acc
    | .ok () =>
      (d.numberOfChunksInShard stat.shardId).map fun n =>
        if acc.2 ≤ n % 2 ^ 32 then acc else (stat.shardId, n % 2 ^ 32)

/-- `_getLeastLoadedReceiverShard`: `""` when no shard qualifies. -/
def _getLeastLoadedReceiverShard (shardStats : List ShardStatistics) (d : DistributionStatus κ)
    (tag : String) (excludedShards : Finset ShardId) : Option ShardId :=
  (shardStats.foldlM (leastLoadedStep d tag excludedShards) ("", 2 ^ 32 - 1)).map Prod.fst

/-- One iteration of the loop of `_getMostOverloadedShard` over `(worst, maxChunks)`. -/
def mostOverloadedStep (d : DistributionStatus κ) (chunkTag : String)
    (excludedShards : Finset ShardId) (acc : ShardId × Nat) (stat : ShardStatistics) :
    Option (ShardId × Nat) :=
  if stat.shardId ∈ excludedShards then some acc
  else
    (d.numberOfChunksInShardWithTag stat.shardId chunkTag).map fun n =>
      if n % 2 ^ 32 ≤ acc.2 then acc else (stat.shardId, n % 2 ^ 32)

/-- `_getMostOverloadedShard`: `""` when no shard has a chunk of the zone. -/
def _getMostOverloadedShard (shardStats : List ShardStatistics) (d : DistributionStatus κ)
    (chunkTag : String) (excludedShards : Finset ShardId) : Option ShardId :=
  (shardStats.foldlM (mostOverloadedStep d chunkTag excludedShards) ("", 0)).map Prod.fst

/-- The shards `balance` has used and the migrations it has chosen. -/
structure BalanceState (κ : Type) where
  migrations : List (MigrateInfo κ)
  usedShards : Finset ShardId

/-- `invariant(usedShards->insert(shardId).second)`: the shard is not used yet. -/
def insertShard (usedShards : Finset ShardId) (shardId : ShardId) : Option (Finset ShardId) :=
  if shardId ∈ usedShards then none else some (insert shardId usedShards)

/-- A migration recorded, and its donor and receiver marked used. -/
def BalanceState.push (st : BalanceState κ) (m : MigrateInfo κ) (fromShard toShard : ShardId) :
    Option (BalanceState κ) := do
  let used ← insertShard st.usedShards fromShard
  let used ← insertShard used toShard
  some ⟨st.migrations ++ [m], used⟩

/-- The chunk loop of the draining and of the zone-violation phase of `balance`: the first chunk
of `stat` that `skip` does not pass over and that has a receiver moves to the least loaded one,
and the loop stops. -/
def moveChunkOff (shardStats : List ShardStatistics) (d : DistributionStatus κ)
    (stat : ShardStatistics) (skip : ChunkType κ → Bool) (forceJumbo : ForceJumbo)
    (reason : MigrationReason) : List (ChunkType κ) → BalanceState κ → Option (BalanceState κ)
  | [], st => some st
  | chunk :: chunks, st =>
    if skip chunk then moveChunkOff shardStats d stat skip forceJumbo reason chunks st
    else do
      let toShard ← _getLeastLoadedReceiverShard shardStats d (d.getTagForChunk chunk) st.usedShards
      if !toShard.isValid then moveChunkOff shardStats d stat skip forceJumbo reason chunks st
      -- invariant(to != stat.shardId)
      else if toShard = stat.shardId then none
      else do
        let m ← MigrateInfo.make toShard chunk forceJumbo reason
        st.push m stat.shardId toShard

/-- Phase 1 of `balance` at one shard: a draining shard not used yet gives up its first chunk
that is not jumbo and has a receiver. -/
def drainShard (shardStats : List ShardStatistics) (d : DistributionStatus κ)
    (st : BalanceState κ) (stat : ShardStatistics) : Option (BalanceState κ) :=
  if !stat.isDraining then some st
  else if stat.shardId ∈ st.usedShards then some st
  else do
    let chunks ← d.getChunks stat.shardId
    if chunks.isEmpty then some st
    else moveChunkOff shardStats d stat (fun chunk => chunk.jumbo) .kForceBalancer .drain chunks st

/-- Phase 2 of `balance` at one shard: a shard not used yet gives up its first chunk of a zone
it is not in that is not jumbo and has a receiver. -/
def moveZoneViolation (shardStats : List ShardStatistics) (d : DistributionStatus κ)
    (forceJumbo : Bool) (st : BalanceState κ) (stat : ShardStatistics) :
    Option (BalanceState κ) :=
  if stat.shardId ∈ st.usedShards then some st
  else do
    let chunks ← d.getChunks stat.shardId
    moveChunkOff shardStats d stat
      (fun chunk => (d.getTagForChunk chunk).isEmpty ||
        decide (d.getTagForChunk chunk ∈ stat.shardTags) || chunk.jumbo)
      (if forceJumbo then .kForceBalancer else .kDoNotForce) .zoneViolation chunks st

/-- `_singleZoneBalance`: one chunk of the zone from the most loaded shard, if it is above the
ideal count, to the least loaded one, if it is below; `true` when a chunk moves. -/
def _singleZoneBalance (shardStats : List ShardStatistics) (d : DistributionStatus κ)
    (tag : String) (idealNumberOfChunksPerShardForTag : Nat) (forceJumbo : ForceJumbo)
    (st : BalanceState κ) : Option (Bool × BalanceState κ) := do
  let fromShard ← _getMostOverloadedShard shardStats d tag st.usedShards
  if !fromShard.isValid then some (false, st) else do
  let max ← d.numberOfChunksInShardWithTag fromShard tag
  -- a shard at or below the ideal count gives nothing
  if max ≤ idealNumberOfChunksPerShardForTag then some (false, st) else do
  let toShard ← _getLeastLoadedReceiverShard shardStats d tag st.usedShards
  if !toShard.isValid then some (false, st) else do
  let min ← d.numberOfChunksInShardWithTag toShard tag
  -- a shard at or above the ideal count takes nothing
  if idealNumberOfChunksPerShardForTag ≤ min then some (false, st) else do
  let imbalance := max - idealNumberOfChunksPerShardForTag
  if imbalance < kDefaultImbalanceThreshold then some (false, st) else do
  let chunks ← d.getChunks fromShard
  match chunks.find? fun chunk => d.getTagForChunk chunk == tag && !chunk.jumbo with
  | none => some (false, st)
  | some chunk => do
    let m ← MigrateInfo.make toShard chunk forceJumbo .chunksImbalance
    let st ← st.push m chunk.shard toShard
    some (true, st)

/-! ## The searches and the used set -/

variable {shardStats : List ShardStatistics} {d : DistributionStatus κ} {tag : String}
  {excluded : Finset ShardId}

theorem isShardSuitableReceiver_eq_ok_iff {stat : ShardStatistics} {chunkTag : String} :
    isShardSuitableReceiver stat chunkTag = .ok () ↔
      stat.isSizeMaxed = false ∧ stat.isDraining = false ∧
        (chunkTag = "" ∨ chunkTag ∈ stat.shardTags) := by
  unfold isShardSuitableReceiver
  by_cases h₁ : stat.isSizeMaxed <;> by_cases h₂ : stat.isDraining <;>
    by_cases h₃ : chunkTag = "" <;> by_cases h₄ : chunkTag ∈ stat.shardTags <;> simp [h₁, h₂, h₃, h₄]

omit [LinearOrder κ] in
/-- The shard `_getLeastLoadedReceiverShard` returns, if valid, is a shard of the statistics,
not excluded, that may receive a chunk of the zone. -/
theorem _getLeastLoadedReceiverShard_valid {best : ShardId}
    (h : _getLeastLoadedReceiverShard shardStats d tag excluded = some best)
    (hv : best.isValid = true) :
    ∃ stat ∈ shardStats, stat.shardId = best ∧ best ∉ excluded ∧
      isShardSuitableReceiver stat tag = .ok () := by
  obtain ⟨acc, hacc, rfl⟩ := Option.map_eq_some_iff.mp h
  -- the loop keeps `""` or a qualifying shard as its best
  have hinv := option_fold.foldlM_inv _ (fun acc : ShardId × Nat => acc.1 = "" ∨
      ∃ stat ∈ shardStats, stat.shardId = acc.1 ∧ acc.1 ∉ excluded ∧
        isShardSuitableReceiver stat tag = .ok ()) (.inl rfl) ?_ hacc
  · rcases hinv with h0 | h1
    · simp [ShardId.isValid, h0] at hv
    · exact h1
  intro acc acc' stat hmem hacc hstep
  unfold leastLoadedStep at hstep
  split_ifs at hstep with hex
  · cases hstep
    exact hacc
  · split at hstep
    · cases hstep
      exact hacc
    · rename_i hok
      obtain ⟨n, -, rfl⟩ := Option.map_eq_some_iff.mp hstep
      split_ifs
      · exact hacc
      · exact .inr ⟨stat, hmem, rfl, hex, hok⟩

/-- The shard `_getMostOverloadedShard` returns, if valid, is a shard of the statistics, not
excluded. -/
theorem _getMostOverloadedShard_valid {worst : ShardId}
    (h : _getMostOverloadedShard shardStats d tag excluded = some worst)
    (hv : worst.isValid = true) :
    ∃ stat ∈ shardStats, stat.shardId = worst ∧ worst ∉ excluded := by
  obtain ⟨acc, hacc, rfl⟩ := Option.map_eq_some_iff.mp h
  have hinv := option_fold.foldlM_inv _ (fun acc : ShardId × Nat => acc.1 = "" ∨
      ∃ stat ∈ shardStats, stat.shardId = acc.1 ∧ acc.1 ∉ excluded) (.inl rfl) ?_ hacc
  · rcases hinv with h0 | h1
    · simp [ShardId.isValid, h0] at hv
    · exact h1
  intro acc acc' stat hmem hacc hstep
  unfold mostOverloadedStep at hstep
  split_ifs at hstep with hex
  · cases hstep
    exact hacc
  · obtain ⟨n, -, rfl⟩ := Option.map_eq_some_iff.mp hstep
    split_ifs
    · exact hacc
    · exact .inr ⟨stat, hmem, rfl, hex⟩

omit [LinearOrder κ] in
theorem push_eq_some_iff {st st' : BalanceState κ} {m : MigrateInfo κ} {fromShard toShard : ShardId} :
    st.push m fromShard toShard = some st' ↔
      fromShard ∉ st.usedShards ∧ toShard ∉ insert fromShard st.usedShards ∧
        st' = ⟨st.migrations ++ [m], insert toShard (insert fromShard st.usedShards)⟩ := by
  unfold BalanceState.push insertShard
  by_cases h₁ : fromShard ∈ st.usedShards <;>
    by_cases h₂ : toShard ∈ insert fromShard st.usedShards <;> simp [h₁, h₂, eq_comm]

omit [LinearOrder κ] in
/-- The branches of `_singleZoneBalance` that move nothing. -/
theorem eq_false_of_some {st st' : BalanceState κ} {b : Bool}
    (h : some (false, st) = some (b, st')) : b = false ∧ st' = st := by
  simp only [Option.some.injEq, Prod.mk.injEq] at h
  exact ⟨h.1.symm, h.2.symm⟩

/-- What `_singleZoneBalance` can do: move nothing, or move the first chunk of the zone that is
not jumbo of the most loaded shard, which holds more chunks of the zone than the ideal count,
to the least loaded receiver, which holds fewer. -/
theorem _singleZoneBalance_cases {ideal : Nat} {fj : ForceJumbo} {st st' : BalanceState κ}
    {b : Bool} (h : _singleZoneBalance shardStats d tag ideal fj st = some (b, st')) :
    (b = false ∧ st' = st) ∨
      (b = true ∧ ∃ fromShard toShard max min chunks chunk m,
        _getMostOverloadedShard shardStats d tag st.usedShards = some fromShard ∧
        fromShard.isValid = true ∧ d.numberOfChunksInShardWithTag fromShard tag = some max ∧
        ideal < max ∧ _getLeastLoadedReceiverShard shardStats d tag st.usedShards = some toShard ∧
        toShard.isValid = true ∧ d.numberOfChunksInShardWithTag toShard tag = some min ∧
        min < ideal ∧ d.getChunks fromShard = some chunks ∧
        chunks.find? (fun chunk => d.getTagForChunk chunk == tag && !chunk.jumbo) = some chunk ∧
        MigrateInfo.make toShard chunk fj .chunksImbalance = some m ∧
        st.push m chunk.shard toShard = some st') := by
  simp only [_singleZoneBalance, Option.bind_eq_bind] at h
  obtain ⟨fromShard, hfrom, h⟩ := Option.bind_eq_some_iff.mp h
  by_cases hf : (!fromShard.isValid) = true
  · rw [if_pos hf] at h
    exact .inl (eq_false_of_some h)
  rw [if_neg hf] at h
  obtain ⟨max, hmax, h⟩ := Option.bind_eq_some_iff.mp h
  by_cases hm : max ≤ ideal
  · rw [if_pos hm] at h
    exact .inl (eq_false_of_some h)
  rw [if_neg hm] at h
  obtain ⟨toShard, hto, h⟩ := Option.bind_eq_some_iff.mp h
  by_cases hv : (!toShard.isValid) = true
  · rw [if_pos hv] at h
    exact .inl (eq_false_of_some h)
  rw [if_neg hv] at h
  obtain ⟨min, hmin, h⟩ := Option.bind_eq_some_iff.mp h
  by_cases hn : ideal ≤ min
  · rw [if_pos hn] at h
    exact .inl (eq_false_of_some h)
  rw [if_neg hn] at h
  by_cases hi : max - ideal < kDefaultImbalanceThreshold
  · rw [if_pos hi] at h
    exact .inl (eq_false_of_some h)
  rw [if_neg hi] at h
  obtain ⟨chunks, hchunks, h⟩ := Option.bind_eq_some_iff.mp h
  split at h
  · exact .inl (eq_false_of_some h)
  rename_i chunk hfind
  obtain ⟨m, hmake, h⟩ := Option.bind_eq_some_iff.mp h
  obtain ⟨st'', hpush, hst⟩ := Option.bind_eq_some_iff.mp h
  obtain ⟨rfl, rfl⟩ := Prod.mk.inj (Option.some.inj hst)
  exact .inr ⟨rfl, fromShard, toShard, max, min, chunks, chunk, m, hfrom, by simpa using hf, hmax,
    by omega, hto, by simpa using hv, hmin, by omega, hchunks, hfind, hmake, hpush⟩

/-- Each chunk `_singleZoneBalance` moves marks a shard of the statistics that was not used. -/
theorem unused_card_lt {ideal : Nat} {fj : ForceJumbo} {st st' : BalanceState κ}
    (h : _singleZoneBalance shardStats d tag ideal fj st = some (true, st')) :
    ((shardStats.map (·.shardId)).toFinset \ st'.usedShards).card <
      ((shardStats.map (·.shardId)).toFinset \ st.usedShards).card := by
  rcases _singleZoneBalance_cases h with ⟨hb, -⟩ |
      ⟨-, -, toShard, -, -, -, chunk, m, -, -, -, -, hto, hv, -, -, -, -, -, hpush⟩
  · cases hb
  obtain ⟨stat, hstat, rfl, hfree, -⟩ := _getLeastLoadedReceiverShard_valid hto hv
  obtain ⟨-, -, rfl⟩ := push_eq_some_iff.mp hpush
  apply Finset.card_lt_card
  have hsub : st.usedShards ⊆ insert stat.shardId (insert chunk.shard st.usedShards) :=
    (Finset.subset_insert _ _).trans (Finset.subset_insert _ _)
  rw [Finset.ssubset_iff_of_subset (Finset.sdiff_subset_sdiff subset_rfl hsub)]
  exact ⟨stat.shardId, Finset.mem_sdiff.mpr ⟨List.mem_toFinset.mpr (List.mem_map_of_mem hstat), hfree⟩,
    by simp⟩

/-- The loop of `balance` over one zone, `while (_singleZoneBalance(...));`. -/
def balanceZone (shardStats : List ShardStatistics) (d : DistributionStatus κ) (tag : String)
    (ideal : Nat) (forceJumbo : ForceJumbo) (st : BalanceState κ) : Option (BalanceState κ) :=
  match h : _singleZoneBalance shardStats d tag ideal forceJumbo st with
  | none => none
  | some (false, st') => some st'
  | some (true, st') => balanceZone shardStats d tag ideal forceJumbo st'
termination_by ((shardStats.map (·.shardId)).toFinset \ st.usedShards).card
decreasing_by exact unused_card_lt h

/-- `(size_t)std::roundf(totalNumberOfChunksWithTag / (float)totalNumberOfShardsWithTag)`: both
counts become floats, their quotient is a float, and `roundf` rounds it half away from zero. -/
def idealNumberOfChunksPerShard (totalNumberOfChunksWithTag totalNumberOfShardsWithTag : Nat) :
    Nat :=
  (Dyadic.roundHalfAway (Dyadic.divRound 24 (Dyadic.round 24 (.ofInt totalNumberOfChunksWithTag))
    (Dyadic.round 24 (.ofInt totalNumberOfShardsWithTag)))).toNat

/-- Phase 3 of `balance` for one zone, `""` standing for the chunks in no zone. -/
def balanceTag (shardStats : List ShardStatistics) (d : DistributionStatus κ)
    (forceJumbo : ForceJumbo) (st : BalanceState κ) (tag : String) : Option (BalanceState κ) := do
  let totalNumberOfChunksWithTag ←
    (if tag.isEmpty then some d.totalChunks else d.totalChunksWithTag tag)
  let totalNumberOfShardsWithTag :=
    shardStats.countP fun stat => tag.isEmpty || decide (tag ∈ stat.shardTags)
  -- a zone with no shards is skipped, with a warning
  if totalNumberOfShardsWithTag = 0 then some st
  else
    balanceZone shardStats d tag
      (idealNumberOfChunksPerShard totalNumberOfChunksWithTag totalNumberOfShardsWithTag)
      forceJumbo st

/-- `BalancerPolicy::balance`: the migrations, and `usedShards` as the call leaves it. -/
def balance (shardStats : List ShardStatistics) (d : DistributionStatus κ)
    (usedShards : Finset ShardId) (forceJumbo : Bool) :
    Option (List (MigrateInfo κ) × Finset ShardId) := do
  -- 1) chunks off draining shards
  let st ← shardStats.foldlM (drainShard shardStats d) ⟨[], usedShards⟩
  -- 2) chunks off shards outside their zone
  let st ← (if d.tags.isEmpty then some st
    else shardStats.foldlM (moveZoneViolation shardStats d forceJumbo) st)
  -- 3) each zone, and the chunks in none, balanced on its own
  let st ← (d.tags ++ [""]).foldlM
    (balanceTag shardStats d (if forceJumbo then .kForceBalancer else .kDoNotForce)) st
  some (st.migrations, st.usedShards)

/-- Three inputs, each distribution listing every chunk under its own shard, on which `balance`
trips an `invariant`: a draining shard of the statistics that the distribution does not list
(`getChunks`), a shard listed twice in the statistics, once draining, which the draining phase
then picks as the receiver of its own chunk (`to != stat.shardId`), and a chunk whose max is not
above its min (the `MigrateInfo` constructor's `validate`). -/
theorem balance_trips_outside_its_input :
    balance [⟨"s0", 0, 0, true, []⟩] (⟨[], .empty⟩ : DistributionStatus Nat) ∅ false = none ∧
    balance [⟨"s0", 0, 0, true, []⟩, ⟨"s0", 0, 0, false, []⟩]
      (⟨[("s0", [⟨⟨0, 1⟩, ⟨1, 0, 1⟩, "s0", false⟩])], .empty⟩ : DistributionStatus Nat) ∅ false =
      none ∧
    balance [⟨"s0", 0, 0, true, []⟩, ⟨"s1", 0, 0, false, []⟩]
      (⟨[("s0", [⟨⟨1, 1⟩, ⟨1, 0, 1⟩, "s0", false⟩]), ("s1", [])], .empty⟩ : DistributionStatus Nat)
      ∅ false = none :=
  ⟨by decide, by decide +kernel, by decide +kernel⟩

/-! ## A round keeps its invariant -/

/-- What `balance` is given: every chunk of the distribution passes `validate` and is listed
under its own shard, and the statistics name each shard once, each one the distribution
lists. -/
structure BalancerInput (shardStats : List ShardStatistics) (d : DistributionStatus κ) :
    Prop where
  chunk_shard : ∀ p ∈ d.shardChunks, ∀ c ∈ p.2, c.shard = p.1
  chunk_valid : ∀ p ∈ d.shardChunks, ∀ c ∈ p.2, c.validate = true
  stats_nodup : (shardStats.map (·.shardId)).Nodup
  stats_listed : ∀ stat ∈ shardStats, (d.getChunks stat.shardId).isSome

/-- The migration `m` moves the chunk `c`: `c` is listed under the donor and is not jumbo, and
the receiver is another shard of the statistics, one that may take a chunk of `c`'s zone. -/
structure MovesChunk (shardStats : List ShardStatistics) (d : DistributionStatus κ)
    (m : MigrateInfo κ) (c : ChunkType κ) : Prop where
  listed : ∃ cs, d.getChunks m.fromShard = some cs ∧ c ∈ cs
  not_jumbo : c.jumbo = false
  eq : m = .ofChunk m.toShard c m.forceJumbo m.reason
  receiver : ∃ stat ∈ shardStats, stat.shardId = m.toShard ∧
    isShardSuitableReceiver stat (d.getTagForChunk c) = .ok ()
  ne : m.fromShard ≠ m.toShard

/-- The invariant of a round that started with the used shards `used₀`: each migration chosen
moves a chunk, and the donors and receivers are all distinct, used, and not in `used₀`. -/
structure BalanceState.Inv (shardStats : List ShardStatistics) (d : DistributionStatus κ)
    (used₀ : Finset ShardId) (st : BalanceState κ) : Prop where
  used_mono : used₀ ⊆ st.usedShards
  moves : ∀ m ∈ st.migrations, ∃ c, MovesChunk shardStats d m c
  used : ∀ m ∈ st.migrations, m.fromShard ∈ st.usedShards ∧ m.toShard ∈ st.usedShards
  fresh : ∀ m ∈ st.migrations, m.fromShard ∉ used₀ ∧ m.toShard ∉ used₀
  nodup : (st.migrations.flatMap fun m => [m.fromShard, m.toShard]).Nodup

variable {used₀ : Finset ShardId}

theorem inv_start : (⟨[], used₀⟩ : BalanceState κ).Inv shardStats d used₀ :=
  ⟨subset_rfl, by simp, by simp, by simp, by simp⟩

/-- Recording a migration that moves a chunk between two unused shards keeps the invariant. -/
theorem BalanceState.Inv.push {st : BalanceState κ} {m : MigrateInfo κ} {c : ChunkType κ}
    (hinv : st.Inv shardStats d used₀) (hm : MovesChunk shardStats d m c)
    (hfrom : m.fromShard ∉ st.usedShards) (hto : m.toShard ∉ st.usedShards) :
    ∃ st', st.push m m.fromShard m.toShard = some st' ∧ st'.Inv shardStats d used₀ := by
  have hto' : m.toShard ∉ insert m.fromShard st.usedShards := by
    simp only [Finset.mem_insert, not_or]
    exact ⟨hm.ne.symm, hto⟩
  have hsub : st.usedShards ⊆ insert m.toShard (insert m.fromShard st.usedShards) :=
    (Finset.subset_insert _ _).trans (Finset.subset_insert _ _)
  refine ⟨_, push_eq_some_iff.mpr ⟨hfrom, hto', rfl⟩, ⟨hinv.used_mono.trans hsub, ?_, ?_, ?_, ?_⟩⟩
  · intro m' hm'
    rcases List.mem_append.mp hm' with hm' | hm'
    · exact hinv.moves m' hm'
    · rw [List.mem_singleton.mp hm']
      exact ⟨c, hm⟩
  · intro m' hm'
    rcases List.mem_append.mp hm' with hm' | hm'
    · exact ⟨hsub (hinv.used m' hm').1, hsub (hinv.used m' hm').2⟩
    · rw [List.mem_singleton.mp hm']
      simp
  · intro m' hm'
    rcases List.mem_append.mp hm' with hm' | hm'
    · exact hinv.fresh m' hm'
    · rw [List.mem_singleton.mp hm']
      exact ⟨fun h => hfrom (hinv.used_mono h), fun h => hto (hinv.used_mono h)⟩
  · rw [List.flatMap_append, List.nodup_append]
    refine ⟨hinv.nodup, by simpa using hm.ne, fun a ha b hb hab => ?_⟩
    -- the shards of the earlier migrations are used, the two new ones are not
    obtain ⟨m', hm', ha'⟩ := List.mem_flatMap.mp ha
    have hused : a ∈ st.usedShards := by
      rcases List.mem_cons.mp ha' with rfl | ha'
      · exact (hinv.used m' hm').1
      · rw [List.mem_singleton.mp ha']
        exact (hinv.used m' hm').2
    subst hab
    simp only [List.flatMap_cons, List.flatMap_nil, List.append_nil, List.mem_cons,
      List.not_mem_nil, or_false] at hb
    rcases hb with rfl | rfl
    · exact hfrom hused
    · exact hto hused

omit [LinearOrder κ] in
theorem DistributionStatus.mem_of_getChunks {s : ShardId} {cs : List (ChunkType κ)}
    (h : d.getChunks s = some cs) : (s, cs) ∈ d.shardChunks := by
  obtain ⟨l₁, l₂, hl, -⟩ := List.lookup_eq_some_iff.mp h
  rw [hl]
  exact List.mem_append_right _ (List.mem_cons_self ..)

omit [LinearOrder κ] in
theorem DistributionStatus.getChunks_of_mem {p : ShardId × List (ChunkType κ)}
    (hp : p ∈ d.shardChunks) : ∃ cs, d.getChunks p.1 = some cs :=
  Option.isSome_iff_exists.mp (List.lookup_isSome_iff.mpr ⟨p, hp, by simp⟩)

namespace BalancerInput

variable (hin : BalancerInput shardStats d)
include hin

theorem shard_eq {s : ShardId} {cs : List (ChunkType κ)} (h : d.getChunks s = some cs)
    {c : ChunkType κ} (hc : c ∈ cs) : c.shard = s :=
  hin.chunk_shard _ (DistributionStatus.mem_of_getChunks h) c hc

theorem validate {s : ShardId} {cs : List (ChunkType κ)} (h : d.getChunks s = some cs)
    {c : ChunkType κ} (hc : c ∈ cs) : c.validate = true :=
  hin.chunk_valid _ (DistributionStatus.mem_of_getChunks h) c hc

theorem getChunks {stat : ShardStatistics} (hstat : stat ∈ shardStats) :
    ∃ cs, d.getChunks stat.shardId = some cs :=
  Option.isSome_iff_exists.mp (hin.stats_listed stat hstat)

theorem eq_of_shardId {stat stat' : ShardStatistics} (h₁ : stat ∈ shardStats)
    (h₂ : stat' ∈ shardStats) (h : stat.shardId = stat'.shardId) : stat = stat' :=
  List.inj_on_of_nodup_map hin.stats_nodup h₁ h₂ h

theorem leastLoaded (tag : String) (excluded : Finset ShardId) :
    ∃ best, _getLeastLoadedReceiverShard shardStats d tag excluded = some best := by
  obtain ⟨acc, hacc, -⟩ : ∃ acc, shardStats.foldlM (leastLoadedStep d tag excluded)
      ("", 2 ^ 32 - 1) = some acc ∧ True :=
    option_fold.exists_foldlM_inv _ _ trivial fun acc stat hstat _ => by
      obtain ⟨cs, hcs⟩ := hin.getChunks hstat
      unfold leastLoadedStep
      split_ifs
      · exact ⟨acc, rfl, trivial⟩
      · split
        · exact ⟨acc, rfl, trivial⟩
        · simp [DistributionStatus.numberOfChunksInShard, hcs]
  exact ⟨acc.1, by rw [_getLeastLoadedReceiverShard, hacc]; rfl⟩

theorem mostOverloaded (tag : String) (excluded : Finset ShardId) :
    ∃ worst, _getMostOverloadedShard shardStats d tag excluded = some worst := by
  obtain ⟨acc, hacc, -⟩ : ∃ acc, shardStats.foldlM (mostOverloadedStep d tag excluded)
      ("", 0) = some acc ∧ True :=
    option_fold.exists_foldlM_inv _ _ trivial fun acc stat hstat _ => by
      obtain ⟨cs, hcs⟩ := hin.getChunks hstat
      unfold mostOverloadedStep
      split_ifs
      · exact ⟨acc, rfl, trivial⟩
      · simp [DistributionStatus.numberOfChunksInShardWithTag, hcs]
  exact ⟨acc.1, by rw [_getMostOverloadedShard, hacc]; rfl⟩

end BalancerInput

theorem make_eq_some {toShard : ShardId} {chunk : ChunkType κ} {fj : ForceJumbo}
    {reason : MigrationReason} (hc : chunk.validate = true) (ht : toShard.isValid = true) :
    MigrateInfo.make toShard chunk fj reason = some (.ofChunk toShard chunk fj reason) := by
  simp [MigrateInfo.make, hc, ht]

/-- The chunk loop of phases 1 and 2 keeps the invariant and never trips, on the chunks of a
shard of the statistics that is not used yet and cannot receive any chunk the loop does not
pass over. -/
theorem moveChunkOff_spec (hin : BalancerInput shardStats d) {stat : ShardStatistics}
    (hstat : stat ∈ shardStats) {cs : List (ChunkType κ)} (hcs : d.getChunks stat.shardId = some cs)
    {skip : ChunkType κ → Bool} {fj : ForceJumbo} {reason : MigrationReason}
    (hskip : ∀ c ∈ cs, skip c = false →
      c.jumbo = false ∧ isShardSuitableReceiver stat (d.getTagForChunk c) ≠ .ok ())
    {chunks : List (ChunkType κ)} (hsub : chunks ⊆ cs) {st : BalanceState κ}
    (hfree : stat.shardId ∉ st.usedShards) (hinv : st.Inv shardStats d used₀) :
    ∃ st', moveChunkOff shardStats d stat skip fj reason chunks st = some st' ∧
      st'.Inv shardStats d used₀ := by
  induction chunks with
  | nil => exact ⟨st, rfl, hinv⟩
  | cons chunk chunks ih =>
    have hrest := ih fun c hc => hsub (List.mem_cons_of_mem _ hc)
    have hc : chunk ∈ cs := hsub (List.mem_cons_self ..)
    simp only [moveChunkOff]
    by_cases hsk : skip chunk = true
    · rw [if_pos hsk]
      exact hrest
    rw [if_neg hsk]
    obtain ⟨toShard, hto⟩ := hin.leastLoaded (d.getTagForChunk chunk) st.usedShards
    rw [hto, Option.bind_eq_bind, Option.bind_some]
    by_cases hv : toShard.isValid = true
    swap
    · rw [if_pos (by simpa using hv)]
      exact hrest
    -- a receiver: it is another shard than `stat`, which cannot take the chunk
    obtain ⟨stat', hstat', rfl, hnotused, hok⟩ := _getLeastLoadedReceiverShard_valid hto hv
    obtain ⟨hj, hns⟩ := hskip chunk hc (by simpa using hsk)
    have hne : stat'.shardId ≠ stat.shardId := fun heq =>
      hns (hin.eq_of_shardId hstat' hstat heq ▸ hok)
    rw [if_neg (by simpa using hv), if_neg hne, make_eq_some (hin.validate hcs hc) hv,
      Option.bind_eq_bind, Option.bind_some]
    have hshard := hin.shard_eq hcs hc
    have hmove : MovesChunk shardStats d (.ofChunk stat'.shardId chunk fj reason) chunk :=
      ⟨⟨cs, by simp [MigrateInfo.ofChunk, hshard, hcs], hc⟩, hj, rfl, ⟨stat', hstat', rfl, hok⟩,
        by simpa [MigrateInfo.ofChunk, hshard] using hne.symm⟩
    have hpush := hinv.push hmove (by simpa [MigrateInfo.ofChunk, hshard] using hfree) hnotused
    simpa [MigrateInfo.ofChunk, hshard] using hpush

/-- Phase 1 at one shard of the statistics keeps the invariant and never trips. -/
theorem drainShard_spec (hin : BalancerInput shardStats d) {st : BalanceState κ}
    {stat : ShardStatistics} (hstat : stat ∈ shardStats) (hinv : st.Inv shardStats d used₀) :
    ∃ st', drainShard shardStats d st stat = some st' ∧ st'.Inv shardStats d used₀ := by
  unfold drainShard
  by_cases hd : stat.isDraining = true
  swap
  · rw [if_pos (by simpa using hd)]
    exact ⟨st, rfl, hinv⟩
  rw [if_neg (by simpa using hd)]
  by_cases hu : stat.shardId ∈ st.usedShards
  · rw [if_pos hu]
    exact ⟨st, rfl, hinv⟩
  rw [if_neg hu]
  obtain ⟨cs, hcs⟩ := hin.getChunks hstat
  rw [hcs, Option.bind_eq_bind, Option.bind_some]
  split_ifs
  · exact ⟨st, rfl, hinv⟩
  -- a draining shard is no receiver
  · exact moveChunkOff_spec hin hstat hcs (fun c _ hj => ⟨by simpa using hj,
      by simp [isShardSuitableReceiver_eq_ok_iff, hd]⟩) (List.Subset.refl _) hu hinv

/-- Phase 2 at one shard of the statistics keeps the invariant and never trips. -/
theorem moveZoneViolation_spec (hin : BalancerInput shardStats d) {forceJumbo : Bool}
    {st : BalanceState κ} {stat : ShardStatistics} (hstat : stat ∈ shardStats)
    (hinv : st.Inv shardStats d used₀) :
    ∃ st', moveZoneViolation shardStats d forceJumbo st stat = some st' ∧
      st'.Inv shardStats d used₀ := by
  unfold moveZoneViolation
  by_cases hu : stat.shardId ∈ st.usedShards
  · rw [if_pos hu]
    exact ⟨st, rfl, hinv⟩
  rw [if_neg hu]
  obtain ⟨cs, hcs⟩ := hin.getChunks hstat
  rw [hcs, Option.bind_eq_bind, Option.bind_some]
  -- a chunk the loop does not pass over has a zone the shard is not in
  refine moveChunkOff_spec hin hstat hcs (fun c _ hskip => ?_) (List.Subset.refl _) hu hinv
  simp only [Bool.or_eq_false_iff, String.isEmpty_eq_false_iff, decide_eq_false_iff_not] at hskip
  obtain ⟨⟨hne, hnot⟩, hj⟩ := hskip
  exact ⟨hj, by simp [isShardSuitableReceiver_eq_ok_iff, hne, hnot]⟩

/-- `_singleZoneBalance` keeps the invariant and never trips. -/
theorem _singleZoneBalance_spec (hin : BalancerInput shardStats d) {ideal : Nat}
    {fj : ForceJumbo} {st : BalanceState κ} (hinv : st.Inv shardStats d used₀) :
    ∃ b st', _singleZoneBalance shardStats d tag ideal fj st = some (b, st') ∧
      st'.Inv shardStats d used₀ := by
  obtain ⟨fromShard, hfrom⟩ := hin.mostOverloaded tag st.usedShards
  simp only [_singleZoneBalance, Option.bind_eq_bind, hfrom, Option.bind_some]
  by_cases hf : fromShard.isValid = true
  swap
  · rw [if_pos (by simpa using hf)]
    exact ⟨false, st, rfl, hinv⟩
  rw [if_neg (by simpa using hf)]
  obtain ⟨statF, hF, rfl, hfreeF⟩ := _getMostOverloadedShard_valid hfrom hf
  obtain ⟨csF, hcsF⟩ := hin.getChunks hF
  simp only [DistributionStatus.numberOfChunksInShardWithTag, hcsF, Option.map_some,
    Option.bind_some]
  by_cases hm : csF.countP (fun chunk => tag == d.getTagForChunk chunk) ≤ ideal
  · rw [if_pos hm]
    exact ⟨false, st, rfl, hinv⟩
  rw [if_neg hm]
  obtain ⟨toShard, hto⟩ := hin.leastLoaded tag st.usedShards
  rw [hto, Option.bind_some]
  by_cases hv : toShard.isValid = true
  swap
  · rw [if_pos (by simpa using hv)]
    exact ⟨false, st, rfl, hinv⟩
  rw [if_neg (by simpa using hv)]
  obtain ⟨statT, hT, rfl, hfreeT, hok⟩ := _getLeastLoadedReceiverShard_valid hto hv
  obtain ⟨csT, hcsT⟩ := hin.getChunks hT
  rw [hcsT, Option.map_some, Option.bind_some]
  by_cases hn : ideal ≤ csT.countP (fun chunk => tag == d.getTagForChunk chunk)
  · rw [if_pos hn]
    exact ⟨false, st, rfl, hinv⟩
  rw [if_neg hn]
  split_ifs
  · exact ⟨false, st, rfl, hinv⟩
  -- the donor holds more chunks of the zone than the ideal count, the receiver fewer
  have hne : statF.shardId ≠ statT.shardId := by
    intro heq
    rw [heq, hcsT, Option.some.injEq] at hcsF
    subst hcsF
    omega
  split
  · exact ⟨false, st, rfl, hinv⟩
  rename_i chunk hfind
  have hc := List.mem_of_find?_eq_some hfind
  have hp := List.find?_some hfind
  simp only [Bool.and_eq_true, beq_iff_eq, Bool.not_eq_eq_eq_not, Bool.not_true] at hp
  have hshard := hin.shard_eq hcsF hc
  rw [make_eq_some (hin.validate hcsF hc) hv, Option.bind_some]
  have hmove : MovesChunk shardStats d (.ofChunk statT.shardId chunk fj .chunksImbalance) chunk :=
    ⟨⟨csF, by simp [MigrateInfo.ofChunk, hshard, hcsF], hc⟩, hp.2, rfl, ⟨statT, hT, rfl, hp.1 ▸ hok⟩,
      by simpa [MigrateInfo.ofChunk, hshard] using hne⟩
  obtain ⟨st', hpush, hinv'⟩ :=
    hinv.push hmove (by simpa [MigrateInfo.ofChunk, hshard] using hfreeF) hfreeT
  exact ⟨true, st', Option.bind_eq_some_iff.mpr ⟨st', hpush, rfl⟩, hinv'⟩

/-- The loop of one zone ends, keeps the invariant and never trips. -/
theorem balanceZone_spec (hin : BalancerInput shardStats d) {ideal : Nat} {fj : ForceJumbo}
    {st : BalanceState κ} (hinv : st.Inv shardStats d used₀) :
    ∃ st', balanceZone shardStats d tag ideal fj st = some st' ∧ st'.Inv shardStats d used₀ := by
  -- induction on the loop, whose measure is the number of unused shards
  fun_induction balanceZone shardStats d tag ideal fj st with
  | case1 st h =>
    obtain ⟨b, st', h', -⟩ : ∃ b st', _singleZoneBalance shardStats d tag ideal fj st =
        some (b, st') ∧ st'.Inv shardStats d used₀ := _singleZoneBalance_spec hin hinv
    simp [h] at h'
  | case2 st st' h =>
    obtain ⟨b, st'', h', hinv'⟩ : ∃ b st'', _singleZoneBalance shardStats d tag ideal fj st =
        some (b, st'') ∧ st''.Inv shardStats d used₀ := _singleZoneBalance_spec hin hinv
    rw [h] at h'
    obtain ⟨-, rfl⟩ := Prod.mk.inj (Option.some.inj h')
    exact ⟨_, rfl, hinv'⟩
  | case3 st st' h ih =>
    obtain ⟨b, st'', h', hinv'⟩ : ∃ b st'', _singleZoneBalance shardStats d tag ideal fj st =
        some (b, st'') ∧ st''.Inv shardStats d used₀ := _singleZoneBalance_spec hin hinv
    rw [h] at h'
    obtain ⟨-, rfl⟩ := Prod.mk.inj (Option.some.inj h')
    exact ih hinv'

/-- Phase 3 at one zone keeps the invariant and never trips. -/
theorem balanceTag_spec (hin : BalancerInput shardStats d) {fj : ForceJumbo}
    {st : BalanceState κ} (hinv : st.Inv shardStats d used₀) :
    ∃ st', balanceTag shardStats d fj st tag = some st' ∧ st'.Inv shardStats d used₀ := by
  -- the count of the zone's chunks reads only shards the distribution lists
  obtain ⟨total, htotal⟩ : ∃ total,
      (if tag.isEmpty then some d.totalChunks else d.totalChunksWithTag tag) = some total := by
    split_ifs
    · exact ⟨_, rfl⟩
    · obtain ⟨counts, hcounts⟩ := option_fold.exists_mapM_eq_some
        (fun p => d.numberOfChunksInShardWithTag p.1 tag) (l := d.shardChunks) fun p hp => by
          obtain ⟨cs, hcs⟩ := DistributionStatus.getChunks_of_mem hp
          simp [DistributionStatus.numberOfChunksInShardWithTag, hcs]
      exact ⟨counts.sum, by simp [DistributionStatus.totalChunksWithTag, hcounts]⟩
  unfold balanceTag
  rw [Option.bind_eq_bind, htotal, Option.bind_some]
  dsimp only
  split_ifs
  · exact ⟨st, rfl, hinv⟩
  · exact balanceZone_spec hin hinv

/-- A round of `balance` on its input returns, and its migrations keep the invariant. -/
theorem balance_spec (hin : BalancerInput shardStats d) (usedShards : Finset ShardId)
    (forceJumbo : Bool) :
    ∃ ms used, balance shardStats d usedShards forceJumbo = some (ms, used) ∧
      (⟨ms, used⟩ : BalanceState κ).Inv shardStats d usedShards := by
  obtain ⟨st₁, h₁, hinv₁⟩ := option_fold.exists_foldlM_inv (drainShard shardStats d)
    (fun st => st.Inv shardStats d usedShards) inv_start
    fun _ _ hstat hinv => drainShard_spec hin hstat hinv
  obtain ⟨st₂, h₂, hinv₂⟩ : ∃ st₂, (if d.tags.isEmpty then some st₁
      else shardStats.foldlM (moveZoneViolation shardStats d forceJumbo) st₁) = some st₂ ∧
      st₂.Inv shardStats d usedShards := by
    split_ifs
    · exact ⟨st₁, rfl, hinv₁⟩
    · exact option_fold.exists_foldlM_inv _ _ hinv₁
        fun _ _ hstat hinv => moveZoneViolation_spec hin hstat hinv
  obtain ⟨st₃, h₃, hinv₃⟩ := option_fold.exists_foldlM_inv
    (balanceTag shardStats d (if forceJumbo then .kForceBalancer else .kDoNotForce))
    (fun st => st.Inv shardStats d usedShards) (l := d.tags ++ [""]) hinv₂
    fun _ _ _ hinv => balanceTag_spec hin hinv
  refine ⟨st₃.migrations, st₃.usedShards, ?_, hinv₃⟩
  simp only [balance, Option.bind_eq_bind, h₁, Option.bind_some, h₂, h₃]

/-- Zone ranges are disjoint and locate chunks, and a round of `balance` on a well-formed input
returns migrations between distinct unused shards, each moving a chunk that is not jumbo to a
shard that is neither draining nor full and carries the chunk's zone. -/
theorem balancer_rounds_zone_respecting (ranges : List (ZoneRange κ))
    (hranges : ∀ r ∈ ranges, r.min < r.max) (shardStats : List ShardStatistics)
    (d : DistributionStatus κ) (usedShards : Finset ShardId) (forceJumbo : Bool)
    (hin : BalancerInput shardStats d) :
    (∃ zi, ZoneInfo.empty.addRangesToZone ranges = some zi ∧
      zi.zoneRanges.Pairwise (fun r s => Disjoint r.keys s.keys) ∧
      (∀ range : ZoneRange κ, range.min < range.max → ∃ st zi',
        zi.addRangeToZone range = some (st, zi') ∧
        zi'.zoneRanges.Pairwise (fun r s => Disjoint r.keys s.keys) ∧
        (st = .ok ↔ (∀ r ∈ zi.zoneRanges, Disjoint r.keys range.keys) ∨ range ∈ zi.zoneRanges) ∧
        ((∀ r ∈ zi.zoneRanges, Disjoint r.keys range.keys) →
          zi'.zoneRanges.Perm (range :: zi.zoneRanges)) ∧
        (¬ (∀ r ∈ zi.zoneRanges, Disjoint r.keys range.keys) → zi' = zi)) ∧
      ∀ chunk : ChunkRange κ, chunk.min < chunk.max → ∀ z, zi.getZoneForChunk chunk = z ↔
        (∃ r ∈ zi.zoneRanges, r.zone = z ∧ Set.Ico chunk.min chunk.max ⊆ r.keys) ∨
          (z = "" ∧ ¬ ∃ r ∈ zi.zoneRanges, Set.Ico chunk.min chunk.max ⊆ r.keys)) ∧
    ∃ ms used, balance shardStats d usedShards forceJumbo = some (ms, used) ∧
      (ms.flatMap fun m => [m.fromShard, m.toShard]).Nodup ∧
      ∀ m ∈ ms, m.fromShard ≠ m.toShard ∧ m.fromShard ∉ usedShards ∧ m.toShard ∉ usedShards ∧
        ∃ c cs, d.getChunks m.fromShard = some cs ∧ c ∈ cs ∧ c.jumbo = false ∧
          m = .ofChunk m.toShard c m.forceJumbo m.reason ∧
          ∃ stat ∈ shardStats, stat.shardId = m.toShard ∧ stat.isDraining = false ∧
            stat.isSizeMaxed = false ∧
            (d.getTagForChunk c = "" ∨ d.getTagForChunk c ∈ stat.shardTags) := by
  refine ⟨?_, ?_⟩
  · obtain ⟨zi, hzi, hinv⟩ := ZoneInfo.addRangesToZone_inv ZoneInfo.empty_inv hranges
    refine ⟨zi, hzi, hinv.pairwise_disjoint, fun range hr => ?_,
      fun chunk hc z => ZoneInfo.getZoneForChunk_eq_iff hinv hc z⟩
    obtain ⟨st, zi', hcall, hinv', hfree, hover⟩ := ZoneInfo.addRangeToZone_spec hinv hr
    refine ⟨st, zi', hcall, hinv'.pairwise_disjoint, ?_, fun hall => (hfree hall).2,
      fun hn => (hover hn).1⟩
    -- a range that overlaps a stored one is accepted only as a copy of it
    by_cases hall : ∀ r ∈ zi.zoneRanges, Disjoint r.keys range.keys
    · exact iff_of_true (hfree hall).1 (.inl hall)
    · rw [(hover hall).2]
      exact (or_iff_right hall).symm
  · obtain ⟨ms, used, hbal, hinv⟩ := balance_spec hin usedShards forceJumbo
    refine ⟨ms, used, hbal, hinv.nodup, fun m hm => ?_⟩
    obtain ⟨c, hmove⟩ := hinv.moves m hm
    obtain ⟨cs, hcs, hc⟩ := hmove.listed
    obtain ⟨stat, hstat, hid, hok⟩ := hmove.receiver
    obtain ⟨hmax, hdrain, htag⟩ := isShardSuitableReceiver_eq_ok_iff.mp hok
    exact ⟨hmove.ne, (hinv.fresh m hm).1, (hinv.fresh m hm).2, c, cs, hcs, hc, hmove.not_jumbo,
      hmove.eq, stat, hstat, hid, hdrain, hmax, htag⟩

/-- Two shards, one in zone `z`, and a chunk of the zone on the other. -/
def twoShardStats : List ShardStatistics := [⟨"s0", 0, 0, false, []⟩, ⟨"s1", 0, 0, false, ["z"]⟩]

def twoShardDistribution : DistributionStatus Nat :=
  ⟨[("s0", [⟨⟨0, 5⟩, ⟨1, 0, 1⟩, "s0", false⟩]), ("s1", [])], ⟨[⟨0, 10, "z"⟩], ["z"]⟩⟩

theorem balancer_rounds_zone_respecting_two_shards :
    BalancerInput twoShardStats twoShardDistribution ∧
      ∃ ms used, balance twoShardStats twoShardDistribution ∅ false = some (ms, used) ∧
        ∀ m ∈ ms, m.fromShard ≠ m.toShard := by
  have hin : BalancerInput twoShardStats twoShardDistribution :=
    ⟨by decide, by decide +kernel, by decide, by decide⟩
  obtain ⟨-, ms, used, hbal, -, hms⟩ := balancer_rounds_zone_respecting [⟨0, 10, "z"⟩]
    (by decide) twoShardStats twoShardDistribution ∅ false hin
  exact ⟨hin, ms, used, hbal, fun m hm => (hms m hm).1⟩

end BalancerPolicy

end mongo
