-- A routing-table refresh as the server runs it: the chunks a shard reports changed go through
-- `flatten` and are overlaid on the table by `createMerged`. Where the KeyStrings of the keys
-- are ordered as the keys, changed chunks that do not overlap one another pass `flatten`
-- unchanged, in key order, and the overlay lemmas then give the
-- refreshed table: it tiles the key space again, each key belongs to the newest chunk that
-- holds it, and the collection version and each shard's version are the newest of the chunks
-- they stand for.
import PerconaMongo.Sharding.ShardVersions

namespace mongo

open tiling

variable {κ σ K : Type} [LinearOrder κ] [LinearOrder K]

/-! ## `flatten` of chunks that do not overlap -/

/-- Chunks each ending where the chunks before them start, highest first, are all appended. -/
theorem foldl_appendChunkTo_of_pairwise {acc l : List (ChunkInfo κ σ)}
    (h : (acc ++ l).Pairwise fun x y => y.range.max ≤ x.range.min) :
    l.foldl appendChunkTo acc = acc ++ l := by
  induction l generalizing acc with
  | nil => simp
  | cons c l ih =>
    -- `c` ends at or before the start of the last chunk so far, so it does not overlap it
    have happ : appendChunkTo acc c = acc ++ [c] := by
      unfold appendChunkTo
      cases hb : acc.getLast? with
      | none => rfl
      | some back =>
        have hcb : c.range.max ≤ back.range.min :=
          (List.pairwise_append.mp h).2.2 back (List.mem_of_getLast? hb) c (by simp)
        simp [ChunkRange.overlaps, not_lt.mpr hcb]
    rw [List.foldl_cons, happ, ih (by simpa using h)]
    simp

/-- `flatten`'s sort of chunks that do not overlap orders them by range, highest first. -/
theorem mergeSort_pairwise_of_disjoint {S : List (ChunkInfo κ σ)}
    (hS : S.Pairwise fun x y => x.range.overlaps y.range = false) :
    (S.mergeSort fun a b => decide (b.range.max ≤ a.range.max)).Pairwise
      fun x y => y.range.max ≤ x.range.min := by
  have hsorted := @List.pairwise_mergeSort _ (fun a b : ChunkInfo κ σ => decide (b.range.max ≤ a.range.max))
    (fun a b c hab hbc => by simp only [decide_eq_true_eq] at *; exact hbc.trans hab)
    (fun a b => by simpa using le_total _ _) S
  have hdisj : (S.mergeSort fun a b => decide (b.range.max ≤ a.range.max)).Pairwise
      fun x y => x.range.overlaps y.range = false :=
    hS.perm (List.mergeSort_perm S _).symm fun h => by rwa [overlaps_comm]
  apply (hsorted.and hdisj).imp
  rintro x y ⟨hxy, hov⟩
  -- `y` ends at or below `x`'s max and does not overlap it, so it ends where `x` starts
  apply le_of_not_overlaps (by rwa [overlaps_comm])
  exact y.min_lt_max.trans_le (by simpa using hxy)

/-- Where the KeyStrings are ordered as the keys they encode, `flatten` sorts by the maxima
themselves. -/
theorem sortByMaxKeyString_eq {keyString : κ → K} (hks : StrictMono keyString) :
    (fun a b : ChunkInfo κ σ => decide (keyString b.range.max ≤ keyString a.range.max)) =
      fun a b => decide (b.range.max ≤ a.range.max) := by
  funext a b
  simp only [hks.le_iff_le]

/-- Changed chunks that do not overlap one another come out of `flatten` all kept, in the
reverse of its sort. -/
theorem flatten_eq_reverse {keyString : κ → K} (hks : StrictMono keyString)
    {S : List (ChunkInfo κ σ)} (hS : S.Pairwise fun x y => x.range.overlaps y.range = false) :
    flatten keyString S =
      (S.mergeSort fun a b => decide (b.range.max ≤ a.range.max)).reverse := by
  have hdesc := mergeSort_pairwise_of_disjoint hS
  unfold flatten
  rw [sortByMaxKeyString_eq hks]
  split
  case h_1 h =>
    rw [h]
    rfl
  case h_2 first rest h =>
    rw [h] at hdesc ⊢
    rw [foldl_appendChunkTo_of_pairwise (by simpa using hdesc)]
    rfl

theorem mem_flatten {keyString : κ → K} (hks : StrictMono keyString) {S : List (ChunkInfo κ σ)}
    (hS : S.Pairwise fun x y => x.range.overlaps y.range = false) {c : ChunkInfo κ σ} :
    c ∈ flatten keyString S ↔ c ∈ S := by
  rw [flatten_eq_reverse hks hS, List.mem_reverse, List.mem_mergeSort]

theorem flatten_pairwise {keyString : κ → K} (hks : StrictMono keyString)
    {S : List (ChunkInfo κ σ)} (hS : S.Pairwise fun x y => x.range.overlaps y.range = false) :
    (flatten keyString S).Pairwise fun x y => x.range.max ≤ y.range.min := by
  rw [flatten_eq_reverse hks hS, List.pairwise_reverse]
  exact mergeSort_pairwise_of_disjoint hS

/-! ## The refreshed table -/

variable [DecidableEq σ]

theorem createMerged_flatten_newest_overlay {keyString : κ → K} (hks : StrictMono keyString)
    {M : ChunkMap κ σ} {S : List (ChunkInfo κ σ)} {globalMin globalMax : κ} (hM : M.Valid)
    (ht : Tiles chunkMin chunkMax globalMin globalMax M.chunkMap)
    (hS : ∀ c ∈ S, c.lastmod.epoch = M.collectionVersion.epoch ∧
      M.collectionVersion.isOlderOrEqualThan c.lastmod = true)
    (hdisj : S.Pairwise fun x y => x.range.overlaps y.range = false)
    (hcov : CoversOverlapped M.chunkMap S) :
    ∃ R, M.createMerged (flatten keyString S) = .ok R ∧ R.Valid ∧
      Tiles chunkMin chunkMax globalMin globalMax R.chunkMap ∧
      (∀ k, globalMin ≤ k → k < globalMax → ∃ z, R.findIntersectingChunk keyString k = some z ∧
        Holds chunkMin chunkMax z k ∧ (z ∈ M.chunkMap ∨ z ∈ S) ∧
        ∀ x ∈ M.chunkMap ++ S, Holds chunkMin chunkMax x k →
          z.lastmod.isOlderThan x.lastmod = false) ∧
      IsNewest (fun _ => True) R.chunkMap R.collectionVersion ∧
      ∃ sv, R.constructShardVersionMap globalMin globalMax = .ok sv ∧
        ShardVersionsOf R.collectionVersion.epoch R.chunkMap sv := by
  -- `flatten` passes the same chunks on, in key order
  have hmem : ∀ c, c ∈ flatten keyString S ↔ c ∈ S := fun c => mem_flatten hks hdisj
  have hcs := flatten_pairwise hks hdisj
  have hcov' : CoversOverlapped M.chunkMap (flatten keyString S) := by
    intro k
    simp only [hmem]
    exact hcov k
  have hv : ∀ c ∈ flatten keyString S, validateChunk c M.collectionVersion = .ok () := by
    intro c hc
    obtain ⟨he, hle⟩ := hS c ((hmem c).mp hc)
    exact validateChunk_eq_ok.mpr ⟨he.symm, hle⟩
  have hR := ChunkMap.createMerged_eq_overlay hM ht hcs hcov' hv
  have hRv := ChunkMap.createMerged_valid hM hR
  have htiles := overlayChunks_tiles ht hcs hcov'
  refine ⟨_, hR, hRv, htiles, fun k hlo hhi => ?_, overlay_isNewest hM ht hcs hcov' hv, ?_⟩
  · obtain ⟨z, hfind, hzk, hz, hnewest⟩ := overlay_owner hM ht hcs hcov' hv hlo hhi
    refine ⟨z, ?_, hzk, hz.imp_right (hmem z).mp, fun x hx hxk => hnewest x ?_ hxk⟩
    · rw [ChunkMap.findIntersectingChunk_eq_find? hks]
      exact hfind
    simpa [hmem] using hx
  · exact ChunkMap.constructShardVersionMap_eq_ok hRv htiles

/-- A table of one chunk `[0, 10)` on shard 0 at version 1|0. -/
def splitTable : ChunkMap Nat Nat :=
  ⟨[⟨⟨0, 10⟩, 0, ⟨1, 0, 1⟩, by decide, by decide⟩], ⟨1, 0, 1⟩⟩

/-- The chunk split at 5 and its upper half moved to shard 1. -/
def splitChanges : List (ChunkInfo Nat Nat) :=
  [⟨⟨0, 5⟩, 0, ⟨2, 0, 1⟩, by decide, by decide⟩, ⟨⟨5, 10⟩, 1, ⟨2, 1, 1⟩, by decide, by decide⟩]

theorem createMerged_flatten_newest_overlay_split :
    StrictMono (id : Nat → Nat) ∧ splitTable.Valid ∧ Tiles chunkMin chunkMax 0 10 splitTable.chunkMap ∧
      (∀ c ∈ splitChanges, c.lastmod.epoch = splitTable.collectionVersion.epoch ∧
        splitTable.collectionVersion.isOlderOrEqualThan c.lastmod = true) ∧
      splitChanges.Pairwise (fun x y => x.range.overlaps y.range = false) ∧
      CoversOverlapped splitTable.chunkMap splitChanges ∧
      ∃ R, splitTable.createMerged (flatten id splitChanges) = .ok R ∧
        Tiles chunkMin chunkMax 0 10 R.chunkMap ∧
        IsNewest (fun _ => True) R.chunkMap R.collectionVersion := by
  have hM : splitTable.Valid := ⟨by decide, by decide⟩
  have ht : Tiles chunkMin chunkMax 0 10 splitTable.chunkMap :=
    Tiles.single (x := splitTable.chunkMap[0]) (by decide)
  have hS : ∀ c ∈ splitChanges, c.lastmod.epoch = splitTable.collectionVersion.epoch ∧
      splitTable.collectionVersion.isOlderOrEqualThan c.lastmod = true := by decide
  have hdisj : splitChanges.Pairwise (fun x y => x.range.overlaps y.range = false) := by decide
  have hcov : CoversOverlapped splitTable.chunkMap splitChanges := by
    intro k
    simp [splitTable, splitChanges, Holds, chunkMin, chunkMax, ChunkRange.overlaps]
    omega
  obtain ⟨R, hR, -, hT, -, hV, -⟩ :=
    createMerged_flatten_newest_overlay strictMono_id hM ht hS hdisj hcov
  exact ⟨strictMono_id, hM, ht, hS, hdisj, hcov, R, hR, hT, hV⟩

end mongo
