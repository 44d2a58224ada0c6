-- The invariant of one `LockHead`: its queues are counted, the modes granted to
-- different lockers do not conflict, a conversion waits only while another request
-- blocks it, and the front of the conflict queue waits for a reason. The two loops
-- of `_onLockModeChanged` and `newRequest` keep it.
import PerconaMongo.Concurrency.Bookkeeping

namespace mongo.lock_manager

open LockRequest.Status LockResult keyed_list

/-! ## The parts of the invariant -/

/-- A request of the granted queue holds a mode, and converts, if at all, to a mode that
covers it. -/
def GrantedShape (r : LockRequest) : Prop :=
  r.mode ≠ .MODE_NONE ∧
    (r.status = STATUS_GRANTED ∨
      (r.status = STATUS_CONVERTING ∧ r.convertMode ≠ .MODE_NONE ∧ Covers r.mode r.convertMode))

/-- The modes held by requests of different lockers do not conflict. -/
def Compatible (l : List LockRequest) : Prop :=
  ∀ a ∈ l, ∀ b ∈ l, a.locker ≠ b.locker → conflictsWith a.mode b.mode = false

/-- A request of `l` of a locker other than `k` blocks mode `m`. -/
def BlockedBy (l : List LockRequest) (k : LockerId) (m : LockMode) : Prop :=
  ∃ q ∈ l, q.locker ≠ k ∧ conflictsHeld m q = true

/-- Every conversion waits on another request. -/
def ConversionsBlocked (l : List LockRequest) : Prop :=
  ∀ r ∈ l, r.status = STATUS_CONVERTING → BlockedBy l r.locker r.convertMode

/-- The front of the conflict queue waits on a granted request, or on a waiter behind it. -/
def FrontWaits (h : LockHead) : Prop :=
  ∀ f rest, h.conflictList = f :: rest →
    (∃ q ∈ h.grantedList, conflictsHeld f.mode q = true) ∨
      ∃ w ∈ rest, conflictsWith f.mode w.mode = true

/-- The granted queue of a head, read at the list `l` it has reached in a loop. -/
structure GrantedQueue (h : LockHead) (l : List LockRequest) : Prop where
  counted : GrantedCounted h l
  shape : ∀ r ∈ l, GrantedShape r
  compatible : Compatible l

/-- The invariant of a lock head. -/
structure LockHead.Inv (h : LockHead) : Prop where
  granted : GrantedQueue h h.grantedList
  conflict : ConflictCounted h h.conflictList
  waiting : ∀ r ∈ h.conflictList, r.status = STATUS_WAITING ∧ r.mode ≠ .MODE_NONE
  distinct : KeysDistinct LockRequest.locker (h.grantedList ++ h.conflictList)
  conversions : ConversionsBlocked h.grantedList
  front : FrontWaits h
  waitersGranted : h.conflictList ≠ [] → h.grantedList ≠ []

theorem LockHead.Inv.counted {h : LockHead} (hi : h.Inv) : h.Counted :=
  ⟨hi.granted.counted, hi.conflict⟩

theorem initNew_inv : LockHead.initNew.Inv where
  granted := ⟨initNew_counted.granted, by simp [LockHead.initNew], by simp [Compatible, LockHead.initNew]⟩
  conflict := initNew_counted.conflict
  waiting := by simp [LockHead.initNew]
  distinct := by simp [LockHead.initNew, KeysDistinct]
  conversions := by simp [ConversionsBlocked, LockHead.initNew]
  front := by simp [FrontWaits, LockHead.initNew]
  waitersGranted := by simp [LockHead.initNew]

/-! ## Requests that block at least as much -/

/-- `y` stands for `x` in a queue and blocks every mode `x` blocks. -/
def Covering (y x : LockRequest) : Prop :=
  y.locker = x.locker ∧ ∀ m, conflictsHeld m x = true → conflictsHeld m y = true

theorem covering_refl (x : LockRequest) : Covering x x := ⟨rfl, fun _ h => h⟩

theorem forall₂_covering_refl (l : List LockRequest) : List.Forall₂ Covering l l :=
  List.forall₂_same.mpr fun x _ => covering_refl x

theorem BlockedBy.of_forall₂ {l l' : List LockRequest} (hf : List.Forall₂ Covering l' l)
    {k : LockerId} {m : LockMode} (hb : BlockedBy l k m) : BlockedBy l' k m :=
  exists_mem_of_forall₂ hf (fun _ _ hc ⟨hk, hm⟩ => ⟨hc.1 ▸ hk, hc.2 m hm⟩) hb

theorem exists_held_of_forall₂ {l l' : List LockRequest} (hf : List.Forall₂ Covering l' l)
    {m : LockMode} (hb : ∃ q ∈ l, conflictsHeld m q = true) : ∃ q ∈ l', conflictsHeld m q = true :=
  exists_mem_of_forall₂ hf (fun _ _ hc hm => hc.2 m hm) hb

theorem BlockedBy.mono {l l' : List LockRequest} (hs : ∀ q ∈ l, q ∈ l') {k : LockerId}
    {m : LockMode} (hb : BlockedBy l k m) : BlockedBy l' k m := by
  obtain ⟨q, hq, hk, hm⟩ := hb
  exact ⟨q, hs q hq, hk, hm⟩

/-- A granted conversion holds the mode it waited for, which covers the one it held. -/
theorem covering_grantConversion {x : LockRequest} (hx : GrantedShape x)
    (hs : x.status = STATUS_CONVERTING) :
    Covering x.grantConversion x := by
  refine ⟨rfl, fun m hm => ?_⟩
  have hcov : Covers x.mode x.convertMode := by
    rcases hx.2 with h | ⟨-, -, hc⟩
    · rw [h] at hs; cases hs
    · exact hc
  simp only [conflictsHeld, hs, Bool.or_eq_true, Bool.and_eq_true, beq_self_eq_true,
    true_and] at hm
  simp only [conflictsHeld, LockRequest.grantConversion_mode, Bool.or_eq_true]
  rcases hm with h | h
  · exact Or.inl (hcov m h)
  · exact Or.inl h

/-! ## Rewriting one request of the granted queue -/

theorem mem_append_cons_iff {a y : LockRequest} {A B : List LockRequest} :
    a ∈ A ++ y :: B ↔ a = y ∨ a ∈ A ++ B := by
  simp only [List.mem_append, List.mem_cons]
  tauto

theorem keysDistinct_replace {A B : List LockRequest} {x y : LockRequest}
    (hd : KeysDistinct LockRequest.locker (A ++ x :: B)) (hk : y.locker = x.locker) :
    KeysDistinct LockRequest.locker (A ++ y :: B) :=
  hd.of_map_perm (by simp [hk])

theorem Compatible.replace {A B : List LockRequest} {x y : LockRequest}
    (hc : Compatible (A ++ x :: B)) (hk : y.locker = x.locker)
    (hy : ∀ q ∈ A ++ B, q.locker ≠ x.locker → conflictsWith y.mode q.mode = false) :
    Compatible (A ++ y :: B) := by
  have hold : ∀ q ∈ A ++ B, q ∈ A ++ x :: B := fun q hq =>
    mem_append_cons_iff.mpr (Or.inr hq)
  intro a ha b hb hne
  rcases mem_append_cons_iff.mp ha with rfl | ha'
  · rcases mem_append_cons_iff.mp hb with rfl | hb'
    · exact absurd rfl hne
    · exact hy b hb' (hk ▸ Ne.symm hne)
  · rcases mem_append_cons_iff.mp hb with rfl | hb'
    · rw [conflictsWith_comm]
      exact hy a ha' (hk ▸ hne)
    · exact hc a (hold a ha') b (hold b hb') hne

/-- `_onLockModeChanged` grants the conversion `x` that no other request blocks. -/
theorem GrantedQueue.grantConversion {h : LockHead} {A B : List LockRequest} {x : LockRequest}
    (hq : GrantedQueue h (A ++ x :: B)) (hd : KeysDistinct LockRequest.locker (A ++ x :: B))
    (hs : x.status = STATUS_CONVERTING)
    (hfree : conflicts x.convertMode (grantedModesWithout h.grantedCounts (ownCounts x)) = false) :
    GrantedQueue ({ h with conversionsCount := h.conversionsCount - 1 }.decGrantedModeCount x.mode)
      (A ++ x.grantConversion :: B) := by
  have hx : x ∈ A ++ x :: B := mem_append_cons_iff.mpr (Or.inl rfl)
  have hown := ownCounts_converting hs
  have hshape := hq.shape x hx
  have hpos : 0 < h.grantedCounts x.mode :=
    hq.counted.counts x.mode ▸ (grantedCountOf_pos_iff _ _).mpr ⟨x, hx, Or.inl rfl⟩
  have hconv : 0 < h.conversionsCount := by
    rw [hq.counted.conversions]
    exact List.countP_pos_iff.mpr ⟨x, hx, by simp [hs]⟩
  have hother : ∀ q ∈ A ++ x :: B, q.locker ≠ x.locker → conflictsHeld x.convertMode q = false := by
    intro q hq' hne
    rw [hown] at hfree
    by_contra hb
    have := (hq.counted.conflicts_without_iff hd hx x.convertMode).mpr
      ⟨q, hq', hne, by simpa using hb⟩
    rw [hfree] at this
    cases this
  refine ⟨?_, ?_, ?_⟩
  · refine hq.counted.replace (replace_append_perm A B x _) (fun m => ?_)
      (decModeCount_mask x.mode hq.counted.modes) ?_ rfl rfl
    · by_cases hm : x.mode = m
      · subst hm
        simp [LockHead.decGrantedModeCount, LockRequest.grantConversion, hs]
        omega
      · simp [LockHead.decGrantedModeCount, LockRequest.grantConversion, hs, hm, Ne.symm hm]
    · simp [LockHead.decGrantedModeCount, hs]
      omega
  · intro r hr
    rcases mem_append_cons_iff.mp hr with rfl | hr'
    · rcases hshape with ⟨-, h' | ⟨-, hne, -⟩⟩
      · rw [h'] at hs; cases hs
      · exact ⟨hne, Or.inl rfl⟩
    · exact hq.shape r (mem_append_cons_iff.mpr (Or.inr hr'))
  · refine hq.compatible.replace rfl fun q hq' hne => ?_
    have := hother q (mem_append_cons_iff.mpr (Or.inr hq')) hne
    simp only [conflictsHeld, Bool.or_eq_false_iff] at this
    exact this.1

/-! ## The first loop of `_onLockModeChanged` -/

/-- `convertPass` unfolded once, with the rest of the loop read through its two results. -/
theorem convertPass_cons (h : LockHead) (iter : LockRequest) (rest : List LockRequest) :
    h.convertPass (iter :: rest) =
      if h.conversionsCount > 0 then
        if iter.status == STATUS_CONVERTING &&
            !conflicts iter.convertMode (grantedModesWithout h.grantedCounts (ownCounts iter)) then
          let h₁ := { h with conversionsCount := h.conversionsCount - 1 }.decGrantedModeCount iter.mode
          ((h₁.convertPass rest).1, iter.grantConversion :: (h₁.convertPass rest).2)
        else ((h.convertPass rest).1, iter :: (h.convertPass rest).2)
      else (h, iter :: rest) := rfl

/-- `convertPass` changes the granted counts, their mask and `conversionsCount`, and nothing
else of the head. -/
theorem convertPass_frame (h : LockHead) (l : List LockRequest) :
    ∃ c m n, (h.convertPass l).1 =
      { h with grantedCounts := c, grantedModes := m, conversionsCount := n } := by
  induction l generalizing h with
  | nil => exact ⟨h.grantedCounts, h.grantedModes, h.conversionsCount, rfl⟩
  | cons iter rest ih =>
    rw [convertPass_cons]
    split
    · split
      · obtain ⟨c, m, n, e⟩ := ih ({ h with conversionsCount := h.conversionsCount - 1 }.decGrantedModeCount iter.mode)
        exact ⟨c, m, n, by rw [e]; rfl⟩
      · obtain ⟨c, m, n, e⟩ := ih h
        exact ⟨c, m, n, by rw [e]⟩
    · exact ⟨h.grantedCounts, h.grantedModes, h.conversionsCount, rfl⟩

@[simp] theorem convertPass_conflictList (h : LockHead) (l : List LockRequest) :
    (h.convertPass l).1.conflictList = h.conflictList := by
  obtain ⟨c, m, n, e⟩ := convertPass_frame h l
  rw [e]

@[simp] theorem convertPass_conflictCounts (h : LockHead) (l : List LockRequest) :
    (h.convertPass l).1.conflictCounts = h.conflictCounts := by
  obtain ⟨c, m, n, e⟩ := convertPass_frame h l
  rw [e]

@[simp] theorem convertPass_conflictModes (h : LockHead) (l : List LockRequest) :
    (h.convertPass l).1.conflictModes = h.conflictModes := by
  obtain ⟨c, m, n, e⟩ := convertPass_frame h l
  rw [e]

@[simp] theorem convertPass_partitions (h : LockHead) (l : List LockRequest) :
    (h.convertPass l).1.partitions = h.partitions := by
  obtain ⟨c, m, n, e⟩ := convertPass_frame h l
  rw [e]

theorem forall₂_covering_replace (A B : List LockRequest) {x y : LockRequest} (hc : Covering y x) :
    List.Forall₂ Covering (A ++ y :: B) (A ++ x :: B) := by
  induction A with
  | nil => exact List.Forall₂.cons hc (forall₂_covering_refl B)
  | cons a A ih => exact List.Forall₂.cons (covering_refl a) ih

/-- What holds at each turn of the first loop of `_onLockModeChanged`: the conversions it
has passed over (in `done`) are blocked. -/
structure ConvertLoop (h : LockHead) (done rest : List LockRequest) : Prop where
  granted : GrantedQueue h (done ++ rest)
  distinct : KeysDistinct LockRequest.locker (done ++ rest)
  doneBlocked : ∀ r ∈ done, r.status = STATUS_CONVERTING →
    BlockedBy (done ++ rest) r.locker r.convertMode

theorem ConvertLoop.grant {h : LockHead} {done rest : List LockRequest} {iter : LockRequest}
    (hl : ConvertLoop h done (iter :: rest)) (hs : iter.status = STATUS_CONVERTING)
    (hfree : conflicts iter.convertMode (grantedModesWithout h.grantedCounts (ownCounts iter)) = false) :
    ConvertLoop ({ h with conversionsCount := h.conversionsCount - 1 }.decGrantedModeCount iter.mode)
      (done ++ [iter.grantConversion]) rest := by
  have hshape := hl.granted.shape iter (mem_append_cons_iff.mpr (Or.inl rfl))
  have hcov := forall₂_covering_replace done rest (covering_grantConversion hshape hs)
  have e : done ++ [iter.grantConversion] ++ rest = done ++ iter.grantConversion :: rest := by simp
  refine ⟨e ▸ hl.granted.grantConversion hl.distinct hs hfree,
    e ▸ keysDistinct_replace hl.distinct rfl, ?_⟩
  rw [e]
  intro r hr hrs
  rcases List.mem_append.mp hr with hr' | hr'
  · exact (hl.doneBlocked r hr' hrs).of_forall₂ hcov
  · rw [List.mem_singleton.mp hr'] at hrs
    simp at hrs

theorem ConvertLoop.skip {h : LockHead} {done rest : List LockRequest} {iter : LockRequest}
    (hl : ConvertLoop h done (iter :: rest))
    (hb : iter.status = STATUS_CONVERTING →
      conflicts iter.convertMode (grantedModesWithout h.grantedCounts (ownCounts iter)) = true) :
    ConvertLoop h (done ++ [iter]) rest := by
  have hiter : iter ∈ done ++ iter :: rest := mem_append_cons_iff.mpr (Or.inl rfl)
  have e : done ++ [iter] ++ rest = done ++ iter :: rest := by simp
  refine ⟨e ▸ hl.granted, e ▸ hl.distinct, ?_⟩
  rw [e]
  intro r hr hrs
  rcases List.mem_append.mp hr with hr' | hr'
  · exact hl.doneBlocked r hr' hrs
  · rw [List.mem_singleton.mp hr'] at hrs ⊢
    have := hb hrs
    rw [ownCounts_converting hrs] at this
    exact (hl.granted.counted.conflicts_without_iff hl.distinct hiter _).mp this

/-- The first loop grants conversions until none is left or the queue ends; after it every
conversion still waiting is blocked, and every request blocks at least what it blocked. -/
theorem convertPass_spec {h : LockHead} {done rest : List LockRequest}
    (hl : ConvertLoop h done rest) :
    GrantedQueue (h.convertPass rest).1 (done ++ (h.convertPass rest).2) ∧
      ConversionsBlocked (done ++ (h.convertPass rest).2) ∧
      List.Forall₂ Covering (h.convertPass rest).2 rest := by
  induction rest generalizing h done with
  | nil =>
    have e : done ++ (h.convertPass []).2 = done ++ [] := rfl
    rw [e]
    exact ⟨hl.granted, fun r hr hrs => hl.doneBlocked r (by simpa using hr) hrs, List.Forall₂.nil⟩
  | cons iter rest ih =>
    rw [convertPass_cons]
    by_cases hpos : h.conversionsCount > 0
    · rw [if_pos hpos]
      by_cases hgo : (iter.status == STATUS_CONVERTING &&
          !conflicts iter.convertMode (grantedModesWithout h.grantedCounts (ownCounts iter))) = true
      · -- the conversion is granted
        rw [if_pos hgo]
        simp only [Bool.and_eq_true, beq_iff_eq, Bool.not_eq_true'] at hgo
        obtain ⟨hq, hb, hf⟩ := ih (hl.grant hgo.1 hgo.2)
        simp only [List.append_assoc, List.singleton_append] at hq hb
        exact ⟨hq, hb, List.Forall₂.cons (covering_grantConversion
          (hl.granted.shape iter (mem_append_cons_iff.mpr (Or.inl rfl))) hgo.1) hf⟩
      · -- the request is passed over
        rw [if_neg hgo]
        have hskip := hl.skip fun hs => by simpa [hs] using hgo
        obtain ⟨hq, hb, hf⟩ := ih hskip
        simp only [List.append_assoc, List.singleton_append] at hq hb
        exact ⟨hq, hb, List.Forall₂.cons (covering_refl iter) hf⟩
    · -- `conversionsCount` is zero: no request of the queue converts
      rw [if_neg hpos]
      have hnone : ∀ r ∈ done ++ iter :: rest, r.status ≠ STATUS_CONVERTING := by
        intro r hr hrs
        have : 0 < h.conversionsCount := by
          rw [hl.granted.counted.conversions]
          exact List.countP_pos_iff.mpr ⟨r, hr, by simp [hrs]⟩
        exact hpos this
      exact ⟨hl.granted, fun r hr hrs => absurd hrs (hnone r hr), forall₂_covering_refl _⟩

/-! ## The second loop of `_onLockModeChanged` -/

theorem grantWaiters_cons (h : LockHead) (ncf : Bool) (iter : LockRequest)
    (rest : List LockRequest) :
    h.grantWaiters ncf (iter :: rest) =
      if conflicts iter.mode h.grantedModes then
        if h.conflictList.head? == some iter && !ncf then h else h.grantWaiters ncf rest
      else if iter.mode == .MODE_X then h.grantWaiter iter
      else (h.grantWaiter iter).grantWaiters
        (ncf || (iter.compatibleFirst && h.compatibleFirstCount == 0)) rest := rfl

@[simp] theorem grantWaiter_grantedList (h : LockHead) (iter : LockRequest) :
    (h.grantWaiter iter).grantedList = h.grantedList ++ [{ iter with status := STATUS_GRANTED }] := by
  unfold LockHead.grantWaiter
  split <;> rfl

@[simp] theorem grantWaiter_conflictList (h : LockHead) (iter : LockRequest) :
    (h.grantWaiter iter).conflictList = h.conflictList.erase iter := by
  unfold LockHead.grantWaiter
  split <;> rfl

@[simp] theorem grantWaiter_partitions (h : LockHead) (iter : LockRequest) :
    (h.grantWaiter iter).partitions = h.partitions := by
  unfold LockHead.grantWaiter
  split <;> rfl

@[simp] theorem grantWaiters_partitions (h : LockHead) (ncf : Bool) (l : List LockRequest) :
    (h.grantWaiters ncf l).partitions = h.partitions := by
  induction l generalizing h ncf with
  | nil => rfl
  | cons iter rest ih =>
    rw [grantWaiters_cons]
    split
    · split
      · rfl
      · exact ih h ncf
    · split
      · exact grantWaiter_partitions h iter
      · rw [ih, grantWaiter_partitions]

/-- The counters follow a waiter from the conflict queue to the granted queue. -/
theorem grantWaiter_counted {h : LockHead} (hg : GrantedCounted h h.grantedList)
    (hc : ConflictCounted h h.conflictList) {iter : LockRequest} (hmem : iter ∈ h.conflictList) :
    GrantedCounted (h.grantWaiter iter) (h.grantWaiter iter).grantedList ∧
      ConflictCounted (h.grantWaiter iter) (h.grantWaiter iter).conflictList := by
  have hpush := grantedCounted_push hg { iter with status := STATUS_GRANTED } rfl
  have herase := conflictCounted_erase hc hmem
  rw [grantWaiter_grantedList, grantWaiter_conflictList]
  unfold LockHead.grantWaiter
  split
  · rename_i hcf
    exact ⟨hpush.congr rfl rfl rfl (by simp [hcf, LockHead.incGrantedModeCount,
      LockHead.decConflictModeCount]), herase.congr rfl rfl⟩
  · rename_i hcf
    exact ⟨hpush.congr rfl rfl rfl (by simp [hcf, LockHead.incGrantedModeCount,
      LockHead.decConflictModeCount]), herase.congr rfl rfl⟩

theorem Compatible.push {l : List LockRequest} (hc : Compatible l) {y : LockRequest}
    (hy : ∀ q ∈ l, conflictsWith y.mode q.mode = false) : Compatible (l ++ [y]) := by
  intro a ha b hb hne
  rcases List.mem_append.mp ha with ha' | ha'
  · rcases List.mem_append.mp hb with hb' | hb'
    · exact hc a ha' b hb' hne
    · rw [List.mem_singleton.mp hb', conflictsWith_comm]
      exact hy a ha'
  · rw [List.mem_singleton.mp ha']
    rcases List.mem_append.mp hb with hb' | hb'
    · exact hy b hb'
    · rw [List.mem_singleton.mp ha'] at hne
      exact absurd (by rw [List.mem_singleton.mp hb']) hne

theorem ConversionsBlocked.push {l : List LockRequest} (hc : ConversionsBlocked l) {y : LockRequest}
    (hy : y.status ≠ STATUS_CONVERTING) : ConversionsBlocked (l ++ [y]) := by
  intro r hr hrs
  rcases List.mem_append.mp hr with hr' | hr'
  · exact (hc r hr' hrs).mono fun q hq => List.mem_append_left _ hq
  · rw [List.mem_singleton.mp hr'] at hrs
    exact absurd hrs hy

/-- The front of the conflict queue waits on a granted request. -/
def FrontBlocked (h : LockHead) : Prop :=
  ∀ f rest, h.conflictList = f :: rest → ∃ q ∈ h.grantedList, conflictsHeld f.mode q = true

/-- What holds at each turn of the second loop: the waiters it has passed over and left on
the queue (`skipped`) are blocked by granted requests. -/
structure WaitersLoop (h : LockHead) (skipped rest : List LockRequest) : Prop where
  granted : GrantedQueue h h.grantedList
  conversions : ConversionsBlocked h.grantedList
  conflict : ConflictCounted h h.conflictList
  waiting : ∀ r ∈ h.conflictList, r.status = STATUS_WAITING ∧ r.mode ≠ .MODE_NONE
  distinct : KeysDistinct LockRequest.locker (h.grantedList ++ h.conflictList)
  split : h.conflictList = skipped ++ rest
  skippedBlocked : ∀ w ∈ skipped, ∃ q ∈ h.grantedList, conflictsHeld w.mode q = true

theorem WaitersLoop.skip {h : LockHead} {skipped rest : List LockRequest} {iter : LockRequest}
    (hl : WaitersLoop h skipped (iter :: rest)) (hb : conflicts iter.mode h.grantedModes = true) :
    WaitersLoop h (skipped ++ [iter]) rest := by
  refine ⟨hl.granted, hl.conversions, hl.conflict, hl.waiting, hl.distinct, by simp [hl.split], ?_⟩
  intro w hw
  rcases List.mem_append.mp hw with hw' | hw'
  · exact hl.skippedBlocked w hw'
  · rw [List.mem_singleton.mp hw']
    exact (hl.granted.counted.conflicts_iff _).mp hb

/-- A waiter that no granted mode blocks moves to the granted queue. -/
theorem WaitersLoop.grant {h : LockHead} {skipped rest : List LockRequest} {iter : LockRequest}
    (hl : WaitersLoop h skipped (iter :: rest)) (hfree : conflicts iter.mode h.grantedModes = false) :
    WaitersLoop (h.grantWaiter iter) skipped rest := by
  have hmem : iter ∈ h.conflictList := by
    rw [hl.split]
    exact mem_append_cons_iff.mpr (Or.inl rfl)
  have hw := hl.waiting iter hmem
  have hnotin : iter ∉ skipped := by
    have hnd := (hl.distinct.nodup.sublist (List.sublist_append_right _ _))
    rw [hl.split] at hnd
    intro hs
    exact (List.nodup_append.mp hnd).2.2 iter hs iter List.mem_cons_self rfl
  have hfree' : ∀ q ∈ h.grantedList, conflictsWith iter.mode q.mode = false := by
    intro q hq
    by_contra hc
    have := (hl.granted.counted.conflicts_iff iter.mode).mpr
      ⟨q, hq, by simp [conflictsHeld, Bool.eq_true_of_not_eq_false hc]⟩
    rw [hfree] at this
    cases this
  obtain ⟨hg, hc⟩ := grantWaiter_counted hl.granted.counted hl.conflict hmem
  refine ⟨⟨hg, ?_, ?_⟩, ?_, hc, ?_, ?_, ?_, ?_⟩
  · intro r hr
    rw [grantWaiter_grantedList] at hr
    rcases List.mem_append.mp hr with hr' | hr'
    · exact hl.granted.shape r hr'
    · rw [List.mem_singleton.mp hr']
      exact ⟨hw.2, Or.inl rfl⟩
  · rw [grantWaiter_grantedList]
    exact hl.granted.compatible.push hfree'
  · rw [grantWaiter_grantedList]
    exact hl.conversions.push (by simp)
  · intro r hr
    rw [grantWaiter_conflictList] at hr
    exact hl.waiting r (List.mem_of_mem_erase hr)
  · rw [grantWaiter_grantedList, grantWaiter_conflictList]
    refine hl.distinct.of_map_perm ?_
    have hp := ((List.perm_cons_erase hmem).map LockRequest.locker).symm
    simp only [List.map_append, List.map_cons, List.append_assoc, List.singleton_append]
    exact hp.append_left _
  · rw [grantWaiter_conflictList, hl.split, List.erase_append_right _ hnotin, List.erase_cons_head]
  · intro w hw'
    obtain ⟨q, hq, hb⟩ := hl.skippedBlocked w hw'
    exact ⟨q, by simp [hq], hb⟩

theorem frontBlocked_of_split {h : LockHead} {skipped rest : List LockRequest}
    (hs : h.conflictList = skipped ++ rest)
    (hb : ∀ w ∈ skipped ++ rest, ∃ q ∈ h.grantedList, conflictsHeld w.mode q = true) :
    FrontBlocked h := by
  intro f tl hf
  rw [hs] at hf
  exact hb f (by rw [hf]; exact List.mem_cons_self)

/-- The loop state at its end, with a blocked front, gives back the invariant. -/
theorem WaitersLoop.inv {h : LockHead} {skipped rest : List LockRequest}
    (hl : WaitersLoop h skipped rest) (hf : FrontBlocked h) : h.Inv := by
  refine ⟨hl.granted, hl.conflict, hl.waiting, hl.distinct, hl.conversions,
    fun f tl e => Or.inl (hf f tl e), ?_⟩
  intro hne
  obtain ⟨f, tl, e⟩ := List.exists_cons_of_ne_nil hne
  obtain ⟨q, hq, -⟩ := hf f tl e
  exact List.ne_nil_of_mem hq

/-- The second loop leaves every waiter still queued blocked by a granted request: at the
end of the queue, at a blocked front, and after a grant of `MODE_X`, which blocks every
waiter. -/
theorem grantWaiters_spec {h : LockHead} {skipped rest : List LockRequest} {ncf : Bool}
    (hl : WaitersLoop h skipped rest) :
    (h.grantWaiters ncf rest).Inv ∧ FrontBlocked (h.grantWaiters ncf rest) := by
  induction rest generalizing h skipped ncf with
  | nil =>
    have hf : FrontBlocked h :=
      frontBlocked_of_split hl.split (by simpa using hl.skippedBlocked)
    exact ⟨hl.inv hf, hf⟩
  | cons iter rest ih =>
    rw [grantWaiters_cons]
    by_cases hc : conflicts iter.mode h.grantedModes = true
    · rw [if_pos hc]
      by_cases hfront : (h.conflictList.head? == some iter && !ncf) = true
      · -- the blocked front stops the loop
        rw [if_pos hfront]
        have hhead : h.conflictList.head? = some iter :=
          beq_iff_eq.mp (Bool.and_eq_true _ _ ▸ hfront).1
        have hf : FrontBlocked h := by
          intro f tl e
          rw [e] at hhead
          cases hhead
          exact (hl.granted.counted.conflicts_iff _).mp hc
        exact ⟨hl.inv hf, hf⟩
      · rw [if_neg hfront]
        exact ih (hl.skip hc)
    · rw [if_neg hc]
      have hg := hl.grant (Bool.not_eq_true _ ▸ hc)
      split
      · -- a granted `MODE_X` blocks every waiter behind it
        rename_i hx
        have hxm : iter.mode = .MODE_X := by simpa using hx
        have hf : FrontBlocked (h.grantWaiter iter) := by
          refine frontBlocked_of_split hg.split fun w hw => ?_
          rcases List.mem_append.mp hw with hw' | hw'
          · exact hg.skippedBlocked w hw'
          · have hwm := (hl.waiting w (by rw [hl.split]; simp [hw'])).2
            refine ⟨{ iter with status := STATUS_GRANTED }, by simp, ?_⟩
            simp [conflictsHeld, hxm, conflictsWith_x w.mode hwm]
        exact ⟨hg.inv hf, hf⟩
      · exact ih hg

/-! ## `_onLockModeChanged` -/

theorem onLockModeChanged_eq (lock : LockHead) (check : Bool) :
    onLockModeChanged lock check =
      let lock₂ := { (lock.convertPass lock.grantedList).1 with
        grantedList := (lock.convertPass lock.grantedList).2 }
      if check then lock₂.grantWaiters false lock₂.conflictList else lock₂ := rfl

@[simp] theorem onLockModeChanged_partitions (lock : LockHead) (check : Bool) :
    (onLockModeChanged lock check).partitions = lock.partitions := by
  rw [onLockModeChanged_eq]
  cases check <;> simp

/-- `_onLockModeChanged` restores the invariant from counted, well-formed queues. The front of
the conflict queue may have lost its reason to wait only when the queue is checked. -/
theorem onLockModeChanged_inv {lock : LockHead} {check : Bool}
    (hq : GrantedQueue lock lock.grantedList) (hc : ConflictCounted lock lock.conflictList)
    (hw : ∀ r ∈ lock.conflictList, r.status = STATUS_WAITING ∧ r.mode ≠ .MODE_NONE)
    (hd : KeysDistinct LockRequest.locker (lock.grantedList ++ lock.conflictList))
    (hfront : check = false →
      FrontWaits lock ∧ (lock.conflictList ≠ [] → lock.grantedList ≠ [])) :
    (onLockModeChanged lock check).Inv := by
  rw [onLockModeChanged_eq]
  dsimp only
  have hloop : ConvertLoop lock [] lock.grantedList :=
    ⟨hq, hd.sublist (List.sublist_append_left _ _), by simp⟩
  obtain ⟨hq₁, hb₁, hf₁⟩ := convertPass_spec hloop
  simp only [List.nil_append] at hq₁ hb₁
  -- after the first loop the granted queue has the same lockers, each blocking at least as much
  have hmap : (lock.convertPass lock.grantedList).2.map LockRequest.locker =
      lock.grantedList.map LockRequest.locker :=
    map_eq_of_forall₂ hf₁ fun _ _ hc => hc.1
  set lock₂ : LockHead := { (lock.convertPass lock.grantedList).1 with
    grantedList := (lock.convertPass lock.grantedList).2 } with hlock₂
  have hq₂ : GrantedQueue lock₂ lock₂.grantedList :=
    ⟨hq₁.counted.congr rfl rfl rfl rfl, hq₁.shape, hq₁.compatible⟩
  have hcl₂ : lock₂.conflictList = lock.conflictList := by simp [lock₂]
  have hc₂ : ConflictCounted lock₂ lock₂.conflictList :=
    hcl₂ ▸ hc.congr (by simp [lock₂]) (by simp [lock₂])
  have hw₂ : ∀ r ∈ lock₂.conflictList, r.status = STATUS_WAITING ∧ r.mode ≠ .MODE_NONE :=
    hcl₂ ▸ hw
  have hd₂ : KeysDistinct LockRequest.locker (lock₂.grantedList ++ lock₂.conflictList) := by
    rw [hcl₂]
    exact hd.of_map_perm (by simp [lock₂, hmap])
  cases check with
  | true =>
    exact (grantWaiters_spec (show WaitersLoop lock₂ [] lock₂.conflictList from
      ⟨hq₂, hb₁, hc₂, hw₂, hd₂, rfl, by simp⟩)).1
  | false =>
    obtain ⟨hfw, hwg⟩ := hfront rfl
    rw [if_neg Bool.false_ne_true]
    refine ⟨hq₂, hc₂, hw₂, hd₂, hb₁, ?_, ?_⟩
    · intro f tl e
      rw [hcl₂] at e
      rcases hfw f tl e with hg | hr
      · exact Or.inl (exists_held_of_forall₂ hf₁ hg)
      · exact Or.inr hr
    · intro hne hnil
      rw [hcl₂] at hne
      have hlen := hf₁.length_eq
      rw [show lock₂.grantedList = (lock.convertPass lock.grantedList).2 from rfl] at hnil
      simp only [hnil, List.length_nil] at hlen
      exact hwg hne (List.eq_nil_of_length_eq_zero hlen.symm)

/-! ## `newRequest` -/

theorem GrantedCounted.forall_not_conflicts {h : LockHead} {l : List LockRequest}
    (hc : GrantedCounted h l) {m : LockMode} (hfree : conflicts m h.grantedModes = false) :
    ∀ q ∈ l, conflictsWith m q.mode = false := by
  intro q hq
  by_contra hne
  have := (hc.conflicts_iff m).mpr
    ⟨q, hq, by simp [conflictsHeld, Bool.eq_true_of_not_eq_false hne]⟩
  rw [hfree] at this
  cases this

theorem keysDistinct_insert {A B : List LockRequest} (hd : KeysDistinct LockRequest.locker (A ++ B))
    {y : LockRequest} (hy : ∀ q ∈ A ++ B, q.locker ≠ y.locker) :
    KeysDistinct LockRequest.locker (A ++ y :: B) ∧
      KeysDistinct LockRequest.locker (A ++ B ++ [y]) := by
  have hback : KeysDistinct LockRequest.locker (A ++ B ++ [y]) :=
    List.pairwise_append.mpr ⟨hd, List.pairwise_singleton _ _,
      fun a ha b hb => by rw [List.mem_singleton.mp hb]; exact hy a ha⟩
  refine ⟨hback.of_map_perm ?_, hback⟩
  simp only [List.map_append, List.map_cons, List.map_nil]
  exact List.perm_middle.trans (List.perm_append_singleton _ _).symm

/-- `newRequest` of a request of a new locker keeps the invariant: a request it queues waits
on a granted mode or on a waiter it jumps ahead of, and a request it grants conflicts with no
granted mode. -/
theorem newRequest_inv {h : LockHead} (hi : h.Inv) {request : LockRequest}
    (hmode : request.mode ≠ .MODE_NONE)
    (hfresh : ∀ q ∈ h.grantedList ++ h.conflictList, q.locker ≠ request.locker) :
    (h.newRequest request).1.Inv := by
  have hcnt := newRequest_counted hi.counted request
  rcases newRequest_cases h request with ⟨-, hwhy, hg, hcl⟩ | ⟨-, hfree, -, hg, hcl⟩
  · -- queued: the reason it waits is a granted request or a waiter it went ahead of
    let w := { request with status := STATUS_WAITING }
    have hwhy' : (∃ q ∈ h.grantedList, conflictsHeld request.mode q = true) ∨
        ∃ q ∈ h.conflictList, conflictsWith request.mode q.mode = true := by
      rcases hwhy with hc | ⟨-, hc⟩
      · exact Or.inl ((hi.granted.counted.conflicts_iff _).mp hc)
      · exact Or.inr ((hi.conflict.conflicts_iff _).mp hc)
    have hins := keysDistinct_insert hi.distinct (y := w) hfresh
    refine ⟨⟨hcnt.granted, hg ▸ hi.granted.shape, hg ▸ hi.granted.compatible⟩, hcnt.conflict,
      ?_, ?_, hg ▸ hi.conversions, ?_, ?_⟩
    · intro r hr
      rw [hcl] at hr
      split at hr
      · rcases List.mem_cons.mp hr with rfl | hr'
        · exact ⟨rfl, hmode⟩
        · exact hi.waiting r hr'
      · rcases List.mem_append.mp hr with hr' | hr'
        · exact hi.waiting r hr'
        · rw [List.mem_singleton.mp hr']
          exact ⟨rfl, hmode⟩
    · rw [hg, hcl]
      split
      · exact hins.1
      · simpa using hins.2
    · intro f tl e
      rw [hcl, hg] at *
      split at e
      · obtain ⟨rfl, rfl⟩ := List.cons.inj e
        exact hwhy'
      · cases hc : h.conflictList with
        | nil =>
          rw [hc, List.nil_append] at e
          obtain ⟨rfl, rfl⟩ := List.cons.inj e
          rcases hwhy' with hq | ⟨q, hq, -⟩
          · exact Or.inl hq
          · rw [hc] at hq; cases hq
        | cons f' tl' =>
          rw [hc, List.cons_append] at e
          injection e with e₁ e₂
          subst e₁ e₂
          rcases hi.front _ tl' hc with hq | ⟨q, hq, hcw⟩
          · exact Or.inl hq
          · exact Or.inr ⟨q, List.mem_append_left _ hq, hcw⟩
    · intro _
      rw [hg]
      rcases hwhy' with ⟨q, hq, -⟩ | ⟨q, hq, -⟩
      · exact List.ne_nil_of_mem hq
      · exact hi.waitersGranted (List.ne_nil_of_mem hq)
  · -- granted: no granted mode conflicts with it
    let y := { request with status := STATUS_GRANTED }
    have hins := keysDistinct_insert hi.distinct (y := y) hfresh
    refine ⟨⟨hcnt.granted, ?_, ?_⟩, hcnt.conflict, hcl ▸ hi.waiting, ?_, ?_, ?_, ?_⟩
    · rw [hg]
      intro r hr
      rcases List.mem_append.mp hr with hr' | hr'
      · exact hi.granted.shape r hr'
      · rw [List.mem_singleton.mp hr']
        exact ⟨hmode, Or.inl rfl⟩
    · rw [hg]
      exact hi.granted.compatible.push (hi.granted.counted.forall_not_conflicts hfree)
    · rw [hg, hcl, List.append_assoc, List.singleton_append]
      exact hins.1
    · rw [hg]
      exact hi.conversions.push (by simp)
    · intro f tl e
      rw [hcl] at e
      rcases hi.front f tl e with ⟨q, hq, hh⟩ | hr
      · exact Or.inl ⟨q, by rw [hg]; exact List.mem_append_left _ hq, hh⟩
      · exact Or.inr hr
    · intro _
      rw [hg]
      simp

/-! ## A request of the granted queue rewritten in place -/

/-- The invariant after a request `x` of the granted queue is rewritten to `y` in place, with
the counters following: `y` blocks at least what `x` blocked, holds a mode no other request
conflicts with, and, if it converts, waits on another request. -/
theorem LockHead.Inv.replace {h h' : LockHead} (hi : h.Inv) {A B : List LockRequest}
    {x y : LockRequest} (hl : h.grantedList = A ++ x :: B) (hl' : h'.grantedList = A ++ y :: B)
    (hcl : h'.conflictList = h.conflictList) (hcc : h'.conflictCounts = h.conflictCounts)
    (hcm : h'.conflictModes = h.conflictModes) (hcounted : GrantedCounted h' (A ++ y :: B))
    (hcov : Covering y x) (hshape : GrantedShape y)
    (hcompat : ∀ q ∈ A ++ B, q.locker ≠ x.locker → conflictsWith y.mode q.mode = false)
    (hblocked : y.status = STATUS_CONVERTING → BlockedBy (A ++ y :: B) y.locker y.convertMode) :
    h'.Inv := by
  have hf := forall₂_covering_replace A B hcov
  have hold : ∀ q ∈ A ++ B, q ∈ h.grantedList := fun q hq => by
    rw [hl]
    exact mem_append_cons_iff.mpr (Or.inr hq)
  refine ⟨⟨hl' ▸ hcounted, ?_, ?_⟩, hcl ▸ hi.conflict.congr hcc hcm, hcl ▸ hi.waiting, ?_, ?_, ?_, ?_⟩
  · intro r hr
    rw [hl'] at hr
    rcases mem_append_cons_iff.mp hr with rfl | hr'
    · exact hshape
    · exact hi.granted.shape r (hold r hr')
  · rw [hl']
    exact (hl ▸ hi.granted.compatible).replace hcov.1 hcompat
  · rw [hl', hcl]
    have hd := hi.distinct
    rw [hl, List.append_assoc, List.cons_append] at hd
    rw [List.append_assoc, List.cons_append]
    exact keysDistinct_replace hd hcov.1
  · intro r hr hrs
    rw [hl'] at hr ⊢
    rcases mem_append_cons_iff.mp hr with rfl | hr'
    · exact hblocked hrs
    · have hb := hi.conversions r (hold r hr') hrs
      rw [hl] at hb
      exact hb.of_forall₂ hf
  · intro f tl e
    rw [hcl] at e
    rcases hi.front f tl e with hq | hr
    · rw [hl] at hq
      rw [hl']
      exact Or.inl (exists_held_of_forall₂ hf hq)
    · exact Or.inr hr
  · intro _
    rw [hl']
    simp

end mongo.lock_manager
