-- The shard versions of a table that tiles the key space: `constructShardVersionMap` walks the
-- chunks in ranges of consecutive chunks on one shard. On a tiling each range meets the one
-- before it, so neither the gap nor the overlap check fires, the first min and the last max are
-- the ends of the key space, and each shard ends with the newest version among its chunks.
import PerconaMongo.Sharding.Overlay

namespace mongo

open tiling

variable {κ σ : Type} [LinearOrder κ]

/-- What the shard versions record of the chunks seen so far: a shard with no chunk among them
has none, and a shard with some has the newest of their versions, of the collection's epoch. -/
def ShardVersionsOf (epoch : Nat) (chunks : List (ChunkInfo κ σ))
    (shardVersions : σ → Option ChunkVersion) : Prop :=
  ∀ s, (shardVersions s = none ∧ ∀ z ∈ chunks, z.shardId ≠ s) ∨
    ∃ v, shardVersions s = some v ∧ v.epoch = epoch ∧ IsNewest (fun z => z.shardId = s) chunks v

theorem shardVersionsOf_nil (epoch : Nat) :
    ShardVersionsOf epoch ([] : List (ChunkInfo κ σ)) fun _ => none :=
  fun _ => .inl ⟨rfl, by simp⟩

section Run

variable {epoch : Nat} {done run : List (ChunkInfo κ σ)} {shardVersions : σ → Option ChunkVersion}
  {s₀ : σ}

/-- The version a range of chunks starts from has the collection's epoch. -/
theorem ShardVersionsOf.getD_epoch (h : ShardVersionsOf epoch done shardVersions) (s : σ) :
    ((shardVersions s).getD ⟨0, 0, epoch⟩).epoch = epoch := by
  rcases h s with ⟨hs, -⟩ | ⟨v, hs, hv, -⟩
  · rw [hs]
    rfl
  · rw [hs]
    exact hv

/-- A range with a chunk of the collection's epoch raises its shard to a set version. -/
theorem ShardVersionsOf.foldl_isSet (h : ShardVersionsOf epoch done shardVersions)
    {c : ChunkInfo κ σ} (hc : c ∈ run) (hE : c.lastmod.epoch = epoch) :
    (run.foldl maxShardVersionStep ((shardVersions s₀).getD ⟨0, 0, epoch⟩)).isSet = true :=
  foldl_maxShardVersionStep_isSet hc ((h.getD_epoch s₀).trans hE.symm)

variable [DecidableEq σ]

/-- A range of chunks on shard `s₀` records the newest version among `s₀`'s chunks so far and
leaves every other shard as it was. -/
theorem ShardVersionsOf.append_run (h : ShardVersionsOf epoch done shardVersions)
    (hrun : ∀ z ∈ run, z.shardId = s₀) (hE : ∀ z ∈ run, z.lastmod.epoch = epoch)
    (hne : run ≠ []) :
    ShardVersionsOf epoch (done ++ run) (Function.update shardVersions s₀
      (some (run.foldl maxShardVersionStep ((shardVersions s₀).getD ⟨0, 0, epoch⟩)))) := by
  set start := (shardVersions s₀).getD ⟨0, 0, epoch⟩
  set v := run.foldl maxShardVersionStep start
  obtain ⟨c, hc⟩ := List.exists_mem_of_ne_nil run hne
  have hset : v.isSet = true := h.foldl_isSet hc (hE c hc)
  have hv₁ : v.isOlderThan start = false := (foldl_maxShardVersionStep_not_isOlderThan run _).1
  have hv₂ : ∀ z ∈ run, v.isOlderThan z.lastmod = false :=
    (foldl_maxShardVersionStep_not_isOlderThan run _).2
  have hvE : v.epoch = epoch := by rw [foldl_maxShardVersionStep_epoch, h.getD_epoch]
  intro s
  by_cases hs : s = s₀
  case pos =>
    subst hs
    refine .inr ⟨v, Function.update_self .., hvE, ?_, ?_⟩
    · -- the version is the start, one of the shard's earlier chunks, or one of the range's
      rcases foldl_maxShardVersionStep_mem run start with h0 | ⟨z, hz, hzv⟩
      · rcases h s with ⟨hs, -⟩ | ⟨w, hs, -, ⟨z, hz, hzs, hzw⟩, -⟩
        · rw [show v = start from h0, show start = ⟨0, 0, epoch⟩ by simp [start, hs]] at hset
          simp [ChunkVersion.isSet] at hset
        · refine ⟨z, List.mem_append_left _ hz, hzs, ?_⟩
          rw [hzw, show v = start from h0, show start = w by simp [start, hs]]
      · exact ⟨z, List.mem_append_right _ hz, hrun z hz, hzv⟩
    · intro z hz hzs
      rcases List.mem_append.mp hz with hz | hz
      · -- an earlier chunk of the shard is not newer than the start
        rcases h s with ⟨-, hno⟩ | ⟨w, hs, hw, -, hnewest⟩
        · exact absurd hzs (hno z hz)
        · have hstart : start = w := by simp [start, hs]
          rw [hstart] at hv₁
          exact ChunkVersion.not_isOlderThan_trans (hvE.trans hw.symm) hv₁ (hnewest z hz hzs)
      · exact hv₂ z hz
  case neg =>
    rw [Function.update_of_ne hs]
    -- the range has none of this shard's chunks
    have hnot : ∀ z ∈ run, z.shardId ≠ s := fun z hz => (hrun z hz).trans_ne (Ne.symm hs)
    rcases h s with ⟨hs', hno⟩ | ⟨w, hs', hw, ⟨z, hz, hzs, hzw⟩, hnewest⟩
    · refine .inl ⟨hs', fun z hz => ?_⟩
      rcases List.mem_append.mp hz with hz | hz
      · exact hno z hz
      · exact hnot z hz
    · refine .inr ⟨w, hs', hw, ⟨z, List.mem_append_left _ hz, hzs, hzw⟩, fun z hz hzs => ?_⟩
      rcases List.mem_append.mp hz with hz | hz
      · exact hnewest z hz hzs
      · exact absurd hzs (hnot z hz)

end Run

/-- On chunks that meet end to end, the next range starts where the chunks seen so far end. -/
theorem checkContinuity_of_chain {done rest : List (ChunkInfo κ σ)} {first : ChunkInfo κ σ}
    {lastMax : Option κ} (hlast : lastMax = done.getLast?.map (·.range.max))
    (hchain : (done ++ first :: rest).IsChain fun x y => x.range.max = y.range.min) :
    checkContinuity lastMax first.range.min = none := by
  subst hlast
  cases hd : done.getLast? with
  | none => rfl
  | some d =>
    have hmeet : d.range.max = first.range.min :=
      (List.isChain_append.mp hchain).2.2 d hd first (by simp)
    simp [checkContinuity, hmeet]

variable [DecidableEq σ]

/-- The loop of `constructShardVersionMap` over the chunks after `done`, on a table whose chunks
meet end to end and have the collection's epoch, succeeds with the first min and the last max
of all chunks and the newest version of each shard. The induction follows the loop, one range
of chunks on one shard at a time, and `done` grows by that range. -/
theorem shardVersionLoop_eq_ok {epoch : Nat} (chunks done : List (ChunkInfo κ σ))
    (shardVersions : σ → Option ChunkVersion) (firstMin lastMax : Option κ)
    (hfirst : firstMin = done.head?.map (·.range.min))
    (hlast : lastMax = done.getLast?.map (·.range.max))
    (hE : ∀ z ∈ done ++ chunks, z.lastmod.epoch = epoch)
    (hchain : (done ++ chunks).IsChain fun x y => x.range.max = y.range.min)
    (hsv : ShardVersionsOf epoch done shardVersions) :
    ∃ sv, shardVersionLoop epoch shardVersions firstMin lastMax chunks =
      .ok (sv, (done ++ chunks).head?.map (·.range.min),
        (done ++ chunks).getLast?.map (·.range.max)) ∧
      ShardVersionsOf epoch (done ++ chunks) sv := by
  fun_induction shardVersionLoop epoch shardVersions firstMin lastMax chunks generalizing done with
  | case1 shardVersions firstMin lastMax =>
    subst hfirst hlast
    exact ⟨shardVersions, by simp, by simpa using hsv⟩
  | case2 _ _ lastMax first rest _ hcont =>
    rw [checkContinuity_of_chain hlast hchain] at hcont
    cases hcont
  | case3 shardVersions _ _ first rest _ inRange maxShardVersion _ hunset =>
    -- the range's first chunk is set and of the collection's epoch
    have hset : maxShardVersion.isSet = true :=
      hsv.foldl_isSet (List.mem_cons_self : first ∈ first :: inRange) (hE first (by simp))
    simp [hset] at hunset
  | case4 shardVersions firstMin lastMax first rest currentRangeShardId inRange maxShardVersion
      rangeLast _ _ ih =>
    have hsplit : done ++ first :: rest =
        (done ++ first :: inRange) ++ rest.dropWhile fun c => c.shardId = currentRangeShardId := by
      simp [inRange]
    have hrun : ∀ z ∈ first :: inRange, z.shardId = currentRangeShardId := by
      intro z hz
      rcases List.mem_cons.mp hz with rfl | hz
      · rfl
      · simpa using List.mem_takeWhile_imp hz
    rw [hsplit] at hE hchain ⊢
    apply ih (done ++ first :: inRange) _ _ hE hchain
      (hsv.append_run hrun (fun z hz => hE z (List.mem_append_left _ (List.mem_append_right _ hz)))
        (List.cons_ne_nil _ _))
    · subst hfirst
      cases done <;> rfl
    · simp [rangeLast, List.getLast?_eq_some_getLast]

/-- On a valid table that tiles the key space from `globalMin` to `globalMax`,
`constructShardVersionMap` raises none of its errors, and each shard's version is the newest
among its chunks. -/
theorem ChunkMap.constructShardVersionMap_eq_ok {m : ChunkMap κ σ} {globalMin globalMax : κ}
    (hm : m.Valid) (ht : Tiles chunkMin chunkMax globalMin globalMax m.chunkMap) :
    ∃ sv, m.constructShardVersionMap globalMin globalMax = .ok sv ∧
      ShardVersionsOf m.collectionVersion.epoch m.chunkMap sv := by
  obtain ⟨sv, hloop, hsv⟩ := shardVersionLoop_eq_ok m.chunkMap [] (fun _ => none) none none rfl rfl
    (by simpa using hm.epoch) (by simpa using ht.chain) (shardVersionsOf_nil _)
  rw [List.nil_append] at hloop hsv
  -- the first min and the last max are the ends of the key space
  have hhead : m.chunkMap.head?.map (·.range.min) = some globalMin := by
    cases hh : m.chunkMap.head? with
    | none => exact absurd (List.head?_eq_none_iff.mp hh) ht.ne_nil
    | some x => exact congrArg some (ht.head_lo x hh)
  have hlast : m.chunkMap.getLast?.map (·.range.max) = some globalMax := by
    cases hl : m.chunkMap.getLast? with
    | none => exact absurd (List.getLast?_eq_none_iff.mp hl) ht.ne_nil
    | some x => exact congrArg some (ht.last_hi x hl)
  refine ⟨sv, ?_, hsv⟩
  unfold constructShardVersionMap
  rw [hloop, hhead, hlast]
  simp [ht.ne_nil, bind, Except.bind, pure, Except.pure]

end mongo
