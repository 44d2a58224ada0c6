-- The zones of a sharded collection, balancer_policy.cpp: `ZoneInfo` keeps the zone ranges in
-- a map keyed by the max of each range, `addRangeToZone` admits a range only if it overlaps no
-- stored one (or repeats one exactly), and `getZoneForChunk` finds the zone of a chunk by two
-- searches of the map. Keys are a linear order, as the shard keys of `Sharding.ChunkMap`; the
-- map is its entries in key order, and its `upper_bound` and `lower_bound` are the searches of
-- `Lib.Loops` on them.
import PerconaMongo.Sharding.ChunkMap
import PerconaMongo.Lib.Loops
import Mathlib

namespace mongo

open binary_search

variable {κ : Type} [LinearOrder κ]

/-- A `ZoneRange`: the keys from `min`, inclusive, to `max`, exclusive, assigned to `zone`. -/
@[ext]
structure ZoneRange (κ : Type) where
  min : κ
  max : κ
  zone : String
  deriving DecidableEq

/-- The keys of a range. -/
def ZoneRange.keys (r : ZoneRange κ) : Set κ := Set.Ico r.min r.max

/-- Two valid ranges are disjoint when one ends before the other starts. -/
theorem ZoneRange.disjoint_keys_iff {r s : ZoneRange κ} (hr : r.min < r.max) (hs : s.min < s.max) :
    Disjoint r.keys s.keys ↔ r.max ≤ s.min ∨ s.max ≤ r.min := by
  rw [ZoneRange.keys, ZoneRange.keys, Set.Ico_disjoint_Ico, min_le_iff, le_max_iff, le_max_iff]
  have h₁ : ¬ r.max ≤ r.min := not_le.mpr hr
  have h₂ : ¬ s.max ≤ s.min := not_le.mpr hs
  tauto

/-- What `addRangeToZone` returns: OK, or `RangeOverlapConflict` with the two ranges that its
message prints, the new one and the stored one in the way. -/
inductive ZoneStatus (κ : Type) where
  | ok
  | rangeOverlapConflict (range existing : ZoneRange κ)
  deriving DecidableEq

/-- `ZoneInfo`: `_zoneRanges`, the map from the max of each range to the range, as its entries
in key order, and `_allZones`, the set of zone names in its order. -/
structure ZoneInfo (κ : Type) where
  zoneRanges : List (ZoneRange κ)
  allZones : List String
  deriving DecidableEq

namespace ZoneInfo

/-- The `ZoneInfo` a `DistributionStatus` starts with. -/
def empty : ZoneInfo κ := ⟨[], []⟩

/-- `_zoneRanges.upper_bound(key)`: the first range whose max is above `key`. -/
def upperBoundOf (rs : List (ZoneRange κ)) (key : κ) : Nat :=
  upperBound rs key fun k r => decide (k < r.max)

/-- `_zoneRanges.lower_bound(key)`: the first range whose max is not below `key`. -/
def lowerBoundOf (rs : List (ZoneRange κ)) (key : κ) : Nat :=
  lowerBound rs key fun r k => decide (r.max < k)

/-- `_zoneRanges.emplace(range.max, range)`: the range goes in at the place of its key, unless
a range with that key is there already. -/
def emplace (rs : List (ZoneRange κ)) (range : ZoneRange κ) : List (ZoneRange κ) :=
  let pos := lowerBoundOf rs range.max
  match rs[pos]? with
  | some r => if r.max = range.max then rs else rs.take pos ++ range :: rs.drop pos
  | none => rs.take pos ++ range :: rs.drop pos

/-- `_allZones.insert(zone)` on the ordered set. -/
def insertZone (zones : List String) (zone : String) : List String :=
  if zone ∈ zones then zones else zones.orderedInsert (· ≤ ·) zone

/-- The tail of `addRangeToZone`, a range that overlaps nothing: the map and the zone set take it. -/
def insertNew (zi : ZoneInfo κ) (range : ZoneRange κ) : ZoneInfo κ :=
  ⟨emplace zi.zoneRanges range, insertZone zi.allZones range.zone⟩

/-- `addRangeToZone`. `none` is a call that trips `invariant` or reads the range at the end of
the map. -/
def addRangeToZone (zi : ZoneInfo κ) (range : ZoneRange κ) : Option (ZoneStatus κ × ZoneInfo κ) :=
  let minIntersect := upperBoundOf zi.zoneRanges range.min
  let maxIntersect := upperBoundOf zi.zoneRanges range.max
  if minIntersect ≠ maxIntersect then
    -- partial overlap; invariant(minIntersect != _zoneRanges.end())
    match zi.zoneRanges[minIntersect]? with
    | none => none
    | some minRange =>
      -- the range at `maxIntersect`, taken when `minRange` starts at or past the new max, may be
      -- the end of the map
      match (if minRange.min < range.max then some minRange else zi.zoneRanges[maxIntersect]?) with
      | none => none
      | some intersectingRange =>
        if intersectingRange.min = range.min ∧ intersectingRange.max = range.max ∧
            intersectingRange.zone = range.zone then some (.ok, zi)
        else some (.rangeOverlapConflict range intersectingRange, zi)
  else
    match zi.zoneRanges[minIntersect]? with
    | some nextRange =>
      if nextRange.min < range.max then
        -- containment; invariant(range.max < nextRange.max)
        if range.max < nextRange.max then some (.rangeOverlapConflict range nextRange, zi)
        else none
      else some (.ok, zi.insertNew range)
    | none => some (.ok, zi.insertNew range)

/-- `addRangeToZone` called on each range in turn. -/
def addRangesToZone (zi : ZoneInfo κ) (ranges : List (ZoneRange κ)) : Option (ZoneInfo κ) :=
  ranges.foldlM (fun zi range => (zi.addRangeToZone range).map Prod.snd) zi

/-- `getZoneForChunk`: the zone of the range that holds the chunk, or `""`. -/
def getZoneForChunk (zi : ZoneInfo κ) (chunk : ChunkRange κ) : String :=
  let minIntersect := upperBoundOf zi.zoneRanges chunk.min
  let maxIntersect := lowerBoundOf zi.zoneRanges chunk.max
  -- a chunk that partially overlaps a range is taken as in no zone
  if minIntersect ≠ maxIntersect then ""
  else
    match zi.zoneRanges[minIntersect]? with
    | none => ""
    | some intersectRange =>
      if intersectRange.min ≤ chunk.min ∧ chunk.max ≤ intersectRange.max then intersectRange.zone
      else ""

/-! ## The invariant: valid ranges, each ending before the next starts -/

/-- The stored ranges are valid and each ends at or before the start of every range after it:
they are disjoint and in the order of their maxes, the keys of the map. -/
structure Inv (zi : ZoneInfo κ) : Prop where
  valid : ∀ r ∈ zi.zoneRanges, r.min < r.max
  sorted : zi.zoneRanges.Pairwise fun r s => r.max ≤ s.min

theorem empty_inv : (empty : ZoneInfo κ).Inv := ⟨by simp [empty], by simp [empty]⟩

variable {zi : ZoneInfo κ}

theorem Inv.pairwise_disjoint (h : zi.Inv) :
    zi.zoneRanges.Pairwise fun r s => Disjoint r.keys s.keys :=
  h.sorted.imp_of_mem fun hr hs hrs =>
    (ZoneRange.disjoint_keys_iff (h.valid _ hr) (h.valid _ hs)).mpr (.inl hrs)

theorem Inv.max_le_min (h : zi.Inv) {i j : Nat} (hij : i < j) (hj : j < zi.zoneRanges.length) :
    zi.zoneRanges[i].max ≤ zi.zoneRanges[j].min :=
  List.pairwise_iff_getElem.mp h.sorted i j (by omega) hj hij

/-! ## The two searches

Under the invariant the maxes increase along the map, so `upper_bound` and `lower_bound` stop at
the first range whose max is above, or not below, the key. -/

theorem Inv.partitioned_upper (h : zi.Inv) (key : κ) :
    Partitioned (fun r => !decide (key < r.max)) zi.zoneRanges := by
  refine h.sorted.imp_of_mem fun {_ s} _ hs hrs hb => ?_
  simp only [Bool.not_eq_eq_eq_not, Bool.not_true, decide_eq_false_iff_not, not_lt] at hb ⊢
  exact hrs.trans ((h.valid s hs).le.trans hb)

theorem Inv.partitioned_lower (h : zi.Inv) (key : κ) :
    Partitioned (fun r => decide (r.max < key)) zi.zoneRanges := by
  refine h.sorted.imp_of_mem fun {_ s} _ hs hrs hb => ?_
  simp only [decide_eq_true_eq] at hb ⊢
  exact (hrs.trans (h.valid s hs).le).trans_lt hb

theorem Inv.lt_upperBoundOf_iff (h : zi.Inv) (key : κ) {i : Nat}
    (hi : i < zi.zoneRanges.length) :
    i < upperBoundOf zi.zoneRanges key ↔ zi.zoneRanges[i].max ≤ key := by
  rw [upperBoundOf, (upperBound_isPartitionPoint key _ (h.partitioned_upper key)).lt_iff hi]
  simp

theorem Inv.lt_lowerBoundOf_iff (h : zi.Inv) (key : κ) {i : Nat}
    (hi : i < zi.zoneRanges.length) :
    i < lowerBoundOf zi.zoneRanges key ↔ zi.zoneRanges[i].max < key := by
  rw [lowerBoundOf, (lowerBound_isPartitionPoint key _ (h.partitioned_lower key)).lt_iff hi]
  simp

theorem Inv.upperBoundOf_le_length (h : zi.Inv) (key : κ) :
    upperBoundOf zi.zoneRanges key ≤ zi.zoneRanges.length :=
  (upperBound_isPartitionPoint key _ (h.partitioned_upper key)).le_length

theorem Inv.lowerBoundOf_le_length (h : zi.Inv) (key : κ) :
    lowerBoundOf zi.zoneRanges key ≤ zi.zoneRanges.length :=
  (lowerBound_isPartitionPoint key _ (h.partitioned_lower key)).le_length

/-- The range at the upper bound of a key ends above it. -/
theorem Inv.lt_max_of_upperBoundOf (h : zi.Inv) {key : κ} {i : Nat}
    (hi : upperBoundOf zi.zoneRanges key = i) (hl : i < zi.zoneRanges.length) :
    key < zi.zoneRanges[i].max :=
  not_le.mp fun hle => lt_irrefl i (hi ▸ (h.lt_upperBoundOf_iff key hl).mpr hle)

theorem Inv.upperBoundOf_mono (h : zi.Inv) {a b : κ} (hab : a ≤ b) :
    upperBoundOf zi.zoneRanges a ≤ upperBoundOf zi.zoneRanges b := by
  by_contra hlt
  have hl : upperBoundOf zi.zoneRanges b < zi.zoneRanges.length :=
    lt_of_lt_of_le (not_le.mp hlt) (h.upperBoundOf_le_length a)
  have hle := (h.lt_upperBoundOf_iff a hl).mp (not_le.mp hlt)
  exact absurd (hle.trans hab) (not_le.mpr (h.lt_max_of_upperBoundOf rfl hl))

/-- A stored range sits at the upper bound of its own min. -/
theorem Inv.getElem?_upperBoundOf_of_mem (h : zi.Inv) {range : ZoneRange κ}
    (hmem : range ∈ zi.zoneRanges) :
    zi.zoneRanges[upperBoundOf zi.zoneRanges range.min]? = some range := by
  obtain ⟨k, hk, rfl⟩ := List.mem_iff_getElem.mp hmem
  have hv := h.valid _ (List.getElem_mem hk)
  -- the ranges before `k` end at or before its min, and `k` itself ends after it
  have hlo : ¬ k < upperBoundOf zi.zoneRanges zi.zoneRanges[k].min := fun hlt =>
    absurd ((h.lt_upperBoundOf_iff _ hk).mp hlt) (not_le.mpr hv)
  have hhi : ¬ upperBoundOf zi.zoneRanges zi.zoneRanges[k].min < k := fun hlt =>
    absurd (h.max_le_min hlt hk) (not_le.mpr (h.lt_max_of_upperBoundOf rfl (hlt.trans hk)))
  rw [show upperBoundOf zi.zoneRanges zi.zoneRanges[k].min = k by omega]
  exact List.getElem?_eq_getElem hk

/-! ## `addRangeToZone` -/

/-- The partial-overlap branch: a stored range ends inside the new one. It overlaps the new
range, and the call changes nothing. -/
theorem addRangeToZone_of_lt (h : zi.Inv) {range : ZoneRange κ} (hr : range.min < range.max)
    {i j : Nat} (hi : upperBoundOf zi.zoneRanges range.min = i)
    (hj : upperBoundOf zi.zoneRanges range.max = j) (hij : i < j) :
    ∃ hl : i < zi.zoneRanges.length, ¬ Disjoint zi.zoneRanges[i].keys range.keys ∧
      zi.addRangeToZone range =
        some (if zi.zoneRanges[i] = range then .ok
          else .rangeOverlapConflict range zi.zoneRanges[i], zi) := by
  have hl : i < zi.zoneRanges.length := lt_of_lt_of_le hij (hj ▸ h.upperBoundOf_le_length _)
  have hgt := h.lt_max_of_upperBoundOf hi hl
  have hle : zi.zoneRanges[i].max ≤ range.max := (h.lt_upperBoundOf_iff _ hl).mp (hj ▸ hij)
  have hmin : zi.zoneRanges[i].min < range.max :=
    (h.valid _ (List.getElem_mem hl)).trans_le hle
  refine ⟨hl, ?_, ?_⟩
  · rw [ZoneRange.disjoint_keys_iff (h.valid _ (List.getElem_mem hl)) hr, not_or, not_le, not_le]
    exact ⟨hgt, hmin⟩
  · simp only [addRangeToZone, hi, hj, ne_eq, hij.ne, not_false_eq_true, if_true,
      List.getElem?_eq_getElem hl, hmin, ZoneRange.ext_iff]
    split <;> rfl

/-- The containment branch: the next stored range starts before the new one ends. It overlaps
the new range, which is not stored, and the call changes nothing. -/
theorem addRangeToZone_of_next (h : zi.Inv) {range : ZoneRange κ} (hr : range.min < range.max)
    {i : Nat} (hi : upperBoundOf zi.zoneRanges range.min = i)
    (hj : upperBoundOf zi.zoneRanges range.max = i) (hl : i < zi.zoneRanges.length)
    (hnext : zi.zoneRanges[i].min < range.max) :
    ¬ Disjoint zi.zoneRanges[i].keys range.keys ∧ range ∉ zi.zoneRanges ∧
      zi.addRangeToZone range = some (.rangeOverlapConflict range zi.zoneRanges[i], zi) := by
  have hgt := h.lt_max_of_upperBoundOf hj hl
  refine ⟨?_, fun hmem => ?_, ?_⟩
  · rw [ZoneRange.disjoint_keys_iff (h.valid _ (List.getElem_mem hl)) hr, not_or, not_le, not_le]
    exact ⟨hr.trans hgt, hnext⟩
  · -- a stored copy would sit at `i`, yet the range at `i` ends past the new max
    have hat := h.getElem?_upperBoundOf_of_mem hmem
    rw [hi, List.getElem?_eq_getElem hl, Option.some.injEq] at hat
    exact absurd (hat ▸ hgt) (lt_irrefl _)
  · simp only [addRangeToZone, hi, hj, ne_eq, not_true_eq_false, if_false,
      List.getElem?_eq_getElem hl, hnext, if_true, hgt]

/-- The new-entry branch: the new range overlaps no stored one, and it goes into the map at
the position `i` of its max. -/
theorem addRangeToZone_of_free (h : zi.Inv) {range : ZoneRange κ} (hr : range.min < range.max)
    {i : Nat} (hi : upperBoundOf zi.zoneRanges range.min = i)
    (hj : upperBoundOf zi.zoneRanges range.max = i)
    (hfree : ∀ hl : i < zi.zoneRanges.length, range.max ≤ zi.zoneRanges[i].min) :
    (∀ r ∈ zi.zoneRanges, Disjoint r.keys range.keys) ∧
      (zi.insertNew range).zoneRanges = zi.zoneRanges.take i ++ range :: zi.zoneRanges.drop i ∧
      zi.addRangeToZone range = some (.ok, zi.insertNew range) := by
  -- the ranges before `i` end at or before the new min, those from `i` on start at or after
  -- the new max
  have hbefore : ∀ k (hk : k < zi.zoneRanges.length), k < i → zi.zoneRanges[k].max ≤ range.min :=
    fun k hk hki => (h.lt_upperBoundOf_iff _ hk).mp (hi ▸ hki)
  have hafter : ∀ k (hk : k < zi.zoneRanges.length), i ≤ k → range.max ≤ zi.zoneRanges[k].min := by
    intro k hk hik
    rcases Nat.lt_or_eq_of_le hik with hlt | rfl
    · exact (h.lt_max_of_upperBoundOf hj (hlt.trans hk)).le.trans (h.max_le_min hlt hk)
    · exact hfree hk
  refine ⟨fun r hr' => ?_, ?_, ?_⟩
  · obtain ⟨k, hk, rfl⟩ := List.mem_iff_getElem.mp hr'
    rw [ZoneRange.disjoint_keys_iff (h.valid _ hr') hr]
    by_cases hki : k < i
    · exact .inl (hbefore k hk hki)
    · exact .inr (hafter k hk (by omega))
  · -- `lower_bound(range.max)` is `i` too, and no stored range has that max
    have hlow : lowerBoundOf zi.zoneRanges range.max = i := by
      have hle := h.lowerBoundOf_le_length range.max
      have hil := hj ▸ h.upperBoundOf_le_length range.max
      by_contra hne
      rcases Nat.lt_or_gt_of_ne hne with hlt | hlt
      · have hk : lowerBoundOf zi.zoneRanges range.max < zi.zoneRanges.length := by omega
        exact lt_irrefl _ ((h.lt_lowerBoundOf_iff range.max hk).mpr
          ((hbefore _ hk hlt).trans_lt hr))
      · have hk : i < zi.zoneRanges.length := by omega
        exact absurd ((h.lt_lowerBoundOf_iff range.max hk).mp hlt)
          (not_lt.mpr (h.lt_max_of_upperBoundOf hj hk).le)
    simp only [insertNew, emplace, hlow]
    cases hget : zi.zoneRanges[i]? with
    | none => rfl
    | some r =>
      obtain ⟨hk, rfl⟩ := List.getElem?_eq_some_iff.mp hget
      simp [(h.lt_max_of_upperBoundOf hj hk).ne']
  · have hfree' : ∀ r, zi.zoneRanges[i]? = some r → ¬ r.min < range.max := by
      intro r hr'
      obtain ⟨hk, rfl⟩ := List.getElem?_eq_some_iff.mp hr'
      exact not_lt.mpr (hfree hk)
    simp only [addRangeToZone, hi, hj, ne_eq, not_true_eq_false, if_false]
    cases hget : zi.zoneRanges[i]? with
    | none => rfl
    | some r => simp [hfree' r hget]

/-- A range inserted where it overlaps nothing keeps the invariant. -/
theorem Inv.insert (h : zi.Inv) {range : ZoneRange κ} (hr : range.min < range.max) (i : Nat)
    (hbefore : ∀ r ∈ zi.zoneRanges.take i, r.max ≤ range.min)
    (hafter : ∀ r ∈ zi.zoneRanges.drop i, range.max ≤ r.min) :
    (zi.zoneRanges.take i ++ range :: zi.zoneRanges.drop i).Pairwise fun r s => r.max ≤ s.min := by
  have hsplit := h.sorted
  rw [← List.take_append_drop i zi.zoneRanges, List.pairwise_append] at hsplit
  rw [List.pairwise_append, List.pairwise_cons]
  refine ⟨hsplit.1, ⟨hafter, hsplit.2.1⟩, fun r hr' s hs => ?_⟩
  rcases List.mem_cons.mp hs with rfl | hs
  · exact hbefore r hr'
  · exact hsplit.2.2 r hr' s hs

/-- `addRangeToZone` on a valid range: it always returns, it keeps the invariant, it stores the
range exactly when the range overlaps no stored one, and then it returns OK; otherwise it returns
OK exactly when the range is already stored. -/
theorem addRangeToZone_spec (h : zi.Inv) {range : ZoneRange κ} (hr : range.min < range.max) :
    ∃ st zi', zi.addRangeToZone range = some (st, zi') ∧ zi'.Inv ∧
      ((∀ r ∈ zi.zoneRanges, Disjoint r.keys range.keys) →
        st = .ok ∧ zi'.zoneRanges.Perm (range :: zi.zoneRanges)) ∧
      (¬ (∀ r ∈ zi.zoneRanges, Disjoint r.keys range.keys) →
        zi' = zi ∧ (st = .ok ↔ range ∈ zi.zoneRanges)) := by
  obtain ⟨i, hi⟩ : ∃ i, upperBoundOf zi.zoneRanges range.min = i := ⟨_, rfl⟩
  obtain ⟨j, hj⟩ : ∃ j, upperBoundOf zi.zoneRanges range.max = j := ⟨_, rfl⟩
  have hij : i ≤ j := hi ▸ hj ▸ h.upperBoundOf_mono hr.le
  rcases Nat.lt_or_eq_of_le hij with hlt | rfl
  · -- partial overlap
    obtain ⟨hl, hov, hcall⟩ := addRangeToZone_of_lt h hr hi hj hlt
    have hnot : ¬ ∀ r ∈ zi.zoneRanges, Disjoint r.keys range.keys :=
      fun hall => hov (hall _ (List.getElem_mem hl))
    refine ⟨_, zi, hcall, h, fun hall => absurd hall hnot, fun _ => ⟨rfl, ?_⟩⟩
    constructor
    · intro hok
      by_cases heq : zi.zoneRanges[i] = range
      · exact heq ▸ List.getElem_mem hl
      · simp [heq] at hok
    · intro hmem
      have hat := h.getElem?_upperBoundOf_of_mem hmem
      rw [hi, List.getElem?_eq_getElem hl, Option.some.injEq] at hat
      simp [hat]
  · by_cases hnext : ∃ hl : i < zi.zoneRanges.length, zi.zoneRanges[i].min < range.max
    · -- the next range starts inside the new one
      obtain ⟨hl, hnext⟩ := hnext
      obtain ⟨hov, hnmem, hcall⟩ := addRangeToZone_of_next h hr hi hj hl hnext
      have hnot : ¬ ∀ r ∈ zi.zoneRanges, Disjoint r.keys range.keys :=
        fun hall => hov (hall _ (List.getElem_mem hl))
      refine ⟨_, zi, hcall, h, fun hall => absurd hall hnot, fun _ => ⟨rfl, ?_⟩⟩
      simp [hnmem]
    · -- a new entry
      have hfree : ∀ hl : i < zi.zoneRanges.length, range.max ≤ zi.zoneRanges[i].min :=
        fun hl => not_lt.mp fun hlt => hnext ⟨hl, hlt⟩
      obtain ⟨hall, hins, hcall⟩ := addRangeToZone_of_free h hr hi hj hfree
      refine ⟨_, _, hcall, ⟨?_, ?_⟩, fun _ => ⟨rfl, ?_⟩, fun hn => absurd hall hn⟩
      · intro r hr'
        rw [hins] at hr'
        rcases List.mem_append.mp hr' with hr' | hr'
        · exact h.valid r (List.mem_of_mem_take hr')
        · rcases List.mem_cons.mp hr' with rfl | hr'
          · exact hr
          · exact h.valid r (List.mem_of_mem_drop hr')
      · rw [hins]
        refine h.insert hr i (fun r hr' => ?_) (fun r hr' => ?_)
        · obtain ⟨k, hk, rfl⟩ := List.mem_take_iff_getElem.mp hr'
          have hk' : k < zi.zoneRanges.length := by omega
          exact (h.lt_upperBoundOf_iff range.min hk').mp (by omega)
        · obtain ⟨k, hk, rfl⟩ := List.mem_drop_iff_getElem.mp hr'
          have hil : i < zi.zoneRanges.length := by omega
          rcases Nat.eq_zero_or_pos k with rfl | hk0
          · simpa using hfree hil
          · have hlt : i < i + k := by omega
            exact (h.lt_max_of_upperBoundOf hj hil).le.trans (h.max_le_min hlt (by omega))
      · rw [hins]
        exact List.perm_middle.trans (by rw [List.take_append_drop])

/-- Every call of a sequence of valid ranges returns, and the stored ranges keep the
invariant. -/
theorem addRangesToZone_inv (h : zi.Inv) {ranges : List (ZoneRange κ)}
    (hranges : ∀ r ∈ ranges, r.min < r.max) :
    ∃ zi', zi.addRangesToZone ranges = some zi' ∧ zi'.Inv :=
  option_fold.exists_foldlM_inv _ Inv h fun zi range hmem hzi => by
    obtain ⟨st, zi', hcall, hinv, -⟩ := addRangeToZone_spec hzi (hranges range hmem)
    exact ⟨zi', by simp [hcall], hinv⟩

/-! ## `getZoneForChunk` -/

/-- A chunk inside a stored range gets that range's zone. -/
theorem getZoneForChunk_of_mem (h : zi.Inv) {chunk : ChunkRange κ} (hc : chunk.min < chunk.max)
    {r : ZoneRange κ} (hr : r ∈ zi.zoneRanges) (hmin : r.min ≤ chunk.min)
    (hmax : chunk.max ≤ r.max) : zi.getZoneForChunk chunk = r.zone := by
  obtain ⟨k, hk, rfl⟩ := List.mem_iff_getElem.mp hr
  -- both searches stop at `k`: the ranges before it end at or before its min
  have hup : upperBoundOf zi.zoneRanges chunk.min = k := by
    have hlo : ¬ k < upperBoundOf zi.zoneRanges chunk.min := fun hlt =>
      absurd ((h.lt_upperBoundOf_iff _ hk).mp hlt) (not_le.mpr (hc.trans_le hmax))
    have hhi : ¬ upperBoundOf zi.zoneRanges chunk.min < k := fun hlt =>
      absurd ((h.max_le_min hlt hk).trans hmin)
        (not_le.mpr (h.lt_max_of_upperBoundOf rfl (hlt.trans hk)))
    omega
  have hlow : lowerBoundOf zi.zoneRanges chunk.max = k := by
    have hlo : ¬ k < lowerBoundOf zi.zoneRanges chunk.max := fun hlt =>
      absurd ((h.lt_lowerBoundOf_iff _ hk).mp hlt) (not_lt.mpr hmax)
    have hhi : ¬ lowerBoundOf zi.zoneRanges chunk.max < k := by
      intro hlt
      have hk' := hlt.trans hk
      have hle := (h.lt_lowerBoundOf_iff chunk.max hk').not.mp (lt_irrefl _)
      exact hle (((h.max_le_min hlt hk).trans hmin).trans_lt hc)
    omega
  simp [getZoneForChunk, hup, hlow, List.getElem?_eq_getElem hk, hmin, hmax]

/-- A chunk in no stored range has no zone. -/
theorem getZoneForChunk_of_not_mem {chunk : ChunkRange κ}
    (hno : ¬ ∃ r ∈ zi.zoneRanges, r.min ≤ chunk.min ∧ chunk.max ≤ r.max) :
    zi.getZoneForChunk chunk = "" := by
  dsimp only [getZoneForChunk]
  split
  · rfl
  · split
    · rfl
    · rename_i r hget
      have hr : r ∈ zi.zoneRanges := List.mem_of_getElem? hget
      split
      · exact absurd ⟨r, hr, ‹_›⟩ hno
      · rfl

/-- The zone of a valid chunk is `z` exactly when a stored range of zone `z` holds the chunk's
keys, or no stored range does and `z` is `""`. -/
theorem getZoneForChunk_eq_iff (h : zi.Inv) {chunk : ChunkRange κ} (hc : chunk.min < chunk.max)
    (z : String) :
    zi.getZoneForChunk chunk = z ↔
      (∃ r ∈ zi.zoneRanges, r.zone = z ∧ Set.Ico chunk.min chunk.max ⊆ r.keys) ∨
        (z = "" ∧ ¬ ∃ r ∈ zi.zoneRanges, Set.Ico chunk.min chunk.max ⊆ r.keys) := by
  simp only [ZoneRange.keys, Set.Ico_subset_Ico_iff hc]
  by_cases hin : ∃ r ∈ zi.zoneRanges, r.min ≤ chunk.min ∧ chunk.max ≤ r.max
  · obtain ⟨r, hr, hmin, hmax⟩ := hin
    rw [getZoneForChunk_of_mem h hc hr hmin hmax]
    constructor
    · rintro rfl
      exact .inl ⟨r, hr, rfl, hmin, hmax⟩
    · rintro (⟨r', hr', rfl, hmin', hmax'⟩ | ⟨-, hno⟩)
      · rw [← getZoneForChunk_of_mem h hc hr hmin hmax, getZoneForChunk_of_mem h hc hr' hmin' hmax']
      · exact absurd ⟨r, hr, hmin, hmax⟩ hno
  · rw [getZoneForChunk_of_not_mem hin]
    constructor
    · rintro rfl
      exact .inr ⟨rfl, hin⟩
    · rintro (⟨r, hr, -, hmin, hmax⟩ | ⟨rfl, -⟩)
      · exact absurd ⟨r, hr, hmin, hmax⟩ hin
      · rfl

end ZoneInfo

end mongo
