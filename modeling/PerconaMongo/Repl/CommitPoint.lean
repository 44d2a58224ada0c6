-- The commit point of a replica set node: `advanceLastCommittedOpTimeAndWallTime`, which
-- installs an `OpTime` only above the current one, and `updateLastCommittedOpTimeAndWallTime`,
-- with which a primary takes the `OpTime` that a write majority of the voters has reached.
-- The wall times ride along with the `OpTime`s, and `OpTimeAndWallTime::operator<` compares
-- the `OpTime`s alone, so the model keeps the `OpTime`s.
import PerconaMongo.Lib.TotalPreorder
import PerconaMongo.Repl.Topology

namespace mongo.repl

/-- `std::min` by `operator<`: the first unless the second is below it. -/
def OpTime.min (a b : OpTime) : OpTime := if b.lt a then b else a

namespace TopologyCoordinator

/-- `TopologyCoordinator::advanceLastCommittedOpTimeAndWallTime`. -/
def advanceLastCommittedOpTimeAndWallTime (t : TopologyCoordinator) (committedOpTime : OpTime)
    (fromSyncSource : Bool) : TopologyCoordinator × Bool :=
  if t.selfIndex = -1 then (t, false)
  -- a primary does not commit an `OpTime` from a previous term
  else if t.iAmPrimary && committedOpTime.lt t.firstOpTimeOfMyTerm then (t, false)
  else
    -- a commit point of another term than the node's last applied entry may lie on another
    -- branch of the oplog; only one from the sync source is taken, capped by that entry
    let otherBranch := !t.selfIsArbiter && t.getMyLastAppliedOpTime.term != committedOpTime.term
    if otherBranch && !fromSyncSource then (t, false)
    else
      let committedOpTime :=
        if otherBranch then committedOpTime.min t.getMyLastAppliedOpTime else committedOpTime
      if committedOpTime.beq t.lastCommittedOpTime then (t, false)
      else if committedOpTime.lt t.lastCommittedOpTime then (t, false)
      else ({ t with lastCommittedOpTime := committedOpTime }, true)

/-- The durable or applied `OpTime` that each voting member of the config reported, as the
config's `writeConcernMajorityJournalDefault` says. -/
def votingNodesOpTimes (t : TopologyCoordinator) : List OpTime :=
  (t.rsConfig.members.zip t.memberData).filterMap fun (m, d) =>
    if m.isVoter then
      some (if t.rsConfig.writeConcernMajorityShouldJournal then d.lastDurableOpTime
        else d.lastAppliedOpTime)
    else none

/-- `std::sort` by `operator<`: no element is left after one it is below. -/
def sortOpTimes (l : List OpTime) : List OpTime := l.mergeSort fun a b => !b.lt a

/-- `TopologyCoordinator::updateLastCommittedOpTimeAndWallTime`: the `OpTime` at the rank of a
write majority from the top among the voters'. A `writeMajority` of zero, which a valid config
does not have, would index past the end; the model then installs nothing. -/
def updateLastCommittedOpTimeAndWallTime (t : TopologyCoordinator) : TopologyCoordinator × Bool :=
  -- not on a secondary, nor while a step-down for a newer term is under way
  if !t.iAmPrimary || t.leaderMode == .kSteppingDown then (t, false)
  else
    let votingNodesOpTimes := t.votingNodesOpTimes
    if votingNodesOpTimes.length < t.rsConfig.writeMajority then (t, false)
    else
      let sorted := sortOpTimes votingNodesOpTimes
      match sorted[sorted.length - t.rsConfig.writeMajority]? with
      | some committedOpTime => t.advanceLastCommittedOpTimeAndWallTime committedOpTime false
      | none => (t, false)

/-! ## What advancing installs -/

section Advance

variable {t : TopologyCoordinator} {committedOpTime : OpTime} {fromSyncSource : Bool}

/-- A commit point that is not taken leaves the node as it was. -/
theorem advance_of_not_installed
    (h : (t.advanceLastCommittedOpTimeAndWallTime committedOpTime fromSyncSource).2 = false) :
    (t.advanceLastCommittedOpTimeAndWallTime committedOpTime fromSyncSource).1 = t := by
  unfold advanceLastCommittedOpTimeAndWallTime at h ⊢
  dsimp only at h ⊢
  split_ifs at h ⊢ <;> simp_all

/-- A commit point that is taken is neither equal to nor below the current one, and on a
primary not below its first `OpTime` of the term; it is the offered `OpTime`, or, from the
sync source only, that capped by the node's last applied one. -/
theorem advance_of_installed
    (h : (t.advanceLastCommittedOpTimeAndWallTime committedOpTime fromSyncSource).2 = true) :
    ∃ c, (t.advanceLastCommittedOpTimeAndWallTime committedOpTime fromSyncSource).1 =
        { t with lastCommittedOpTime := c } ∧
      c.beq t.lastCommittedOpTime = false ∧ c.lt t.lastCommittedOpTime = false ∧
      (t.iAmPrimary = true → committedOpTime.lt t.firstOpTimeOfMyTerm = false) ∧
      (c = committedOpTime ∨
        fromSyncSource = true ∧ c = committedOpTime.min t.getMyLastAppliedOpTime) := by
  unfold advanceLastCommittedOpTimeAndWallTime at h ⊢
  dsimp only at h ⊢
  split_ifs at h ⊢ <;> simp_all

theorem advance_lastCommitted_gt
    (h : (t.advanceLastCommittedOpTimeAndWallTime committedOpTime fromSyncSource).2 = true) :
    t.lastCommittedOpTime.lt
      (t.advanceLastCommittedOpTimeAndWallTime committedOpTime fromSyncSource).1.lastCommittedOpTime
      = true := by
  obtain ⟨c, hc, hbeq, hlt, -⟩ := advance_of_installed h
  rw [hc]
  rcases OpTime.lt_or_beq_or_gt c t.lastCommittedOpTime with h' | h' | h'
  · simp_all
  · simp_all
  · exact h'

/-- Advancing the commit point from the valid `OpTime`s of a node installs a valid one. -/
theorem advance_lastCommitted_valid (hc : committedOpTime.Valid) (hl : t.lastCommittedOpTime.Valid)
    (ha : t.getMyLastAppliedOpTime.Valid) :
    (t.advanceLastCommittedOpTimeAndWallTime committedOpTime
      fromSyncSource).1.lastCommittedOpTime.Valid := by
  cases hb : (t.advanceLastCommittedOpTimeAndWallTime committedOpTime fromSyncSource).2
  case false => rwa [advance_of_not_installed hb]
  case true =>
    obtain ⟨c, hc', -, -, -, hcases⟩ := advance_of_installed hb
    rw [hc']
    rcases hcases with rfl | ⟨-, rfl⟩
    · exact hc
    · unfold OpTime.min
      split <;> assumption

end Advance

/-! ## The commit point of a primary -/

section Update

variable {t : TopologyCoordinator}

theorem length_sortOpTimes (l : List OpTime) : (sortOpTimes l).length = l.length :=
  List.length_mergeSort _

theorem sortOpTimes_perm (l : List OpTime) : (sortOpTimes l).Perm l :=
  List.mergeSort_perm _ _

/-- A primary that installs no commit point is left as it was. -/
theorem update_of_not_installed (h : t.updateLastCommittedOpTimeAndWallTime.2 = false) :
    t.updateLastCommittedOpTimeAndWallTime.1 = t := by
  unfold updateLastCommittedOpTimeAndWallTime at h ⊢
  dsimp only at h ⊢
  split_ifs at h ⊢
  · rfl
  · rfl
  · split
    case h_1 c hc =>
      simp only [hc] at h
      exact advance_of_not_installed h
    case h_2 => rfl

/-- What `updateLastCommittedOpTimeAndWallTime` offers when it installs a commit point: it runs
on a primary, and offers the voters' `OpTime` at the rank of a write majority from the top. -/
theorem update_of_installed (h : t.updateLastCommittedOpTimeAndWallTime.2 = true) :
    t.iAmPrimary = true ∧ t.rsConfig.writeMajority ≤ t.votingNodesOpTimes.length ∧
      ∃ (k : Nat) (hk : k < (sortOpTimes t.votingNodesOpTimes).length),
        k = t.votingNodesOpTimes.length - t.rsConfig.writeMajority ∧
        t.updateLastCommittedOpTimeAndWallTime =
          t.advanceLastCommittedOpTimeAndWallTime (sortOpTimes t.votingNodesOpTimes)[k] false := by
  unfold updateLastCommittedOpTimeAndWallTime at h ⊢
  dsimp only at h ⊢
  by_cases h₁ : (!t.iAmPrimary || t.leaderMode == .kSteppingDown) = true
  · simp [h₁] at h
  by_cases h₂ : t.votingNodesOpTimes.length < t.rsConfig.writeMajority
  · simp [h₁, h₂] at h
  rw [if_neg h₁, if_neg h₂] at h ⊢
  refine ⟨by simp at h₁; exact h₁.1, by omega, ?_⟩
  split at h
  case h_2 => simp at h
  case h_1 c hc =>
    obtain ⟨hk, hck⟩ := List.getElem?_eq_some_iff.mp hc
    refine ⟨_, hk, by rw [length_sortOpTimes], ?_⟩
    simp only [hck]

/-- Sorting the valid `OpTime`s of the voters leaves no element after one it is below. -/
theorem sortOpTimes_pairwise {l : List OpTime} (hl : ∀ x ∈ l, x.Valid) :
    (sortOpTimes l).Pairwise (fun a b => (!b.lt a) = true) := by
  apply rank_sort.pairwise_mergeSort_of_forall (S := OpTime.Valid) _ _ hl
  · intro a b c ha hb hc hab hbc
    simp only [Bool.not_eq_true'] at *
    exact OpTime.not_lt_trans ha hb hc hab hbc
  · intro a b _ _
    cases hab : a.lt b
    · simp
    · simp [OpTime.lt_asymm hab]

/-- A primary installs an `OpTime` that no earlier than its first `OpTime` of the term. -/
theorem update_not_lt_firstOpTime (h : t.updateLastCommittedOpTimeAndWallTime.2 = true) :
    t.updateLastCommittedOpTimeAndWallTime.1.lastCommittedOpTime.lt t.firstOpTimeOfMyTerm =
      false := by
  obtain ⟨hp, -, k, hk, -, heq⟩ := update_of_installed h
  rw [heq] at h ⊢
  obtain ⟨c, hc, -, -, hfirst, hcases⟩ := advance_of_installed h
  rw [hc]
  rcases hcases with rfl | ⟨hf, -⟩
  · exact hfirst hp
  · cases hf

/-- Among valid `OpTime`s, the commit point a primary installs is at or below the `OpTime`
reported by a write majority of the voters. -/
theorem update_write_majority (hv : ∀ x ∈ t.votingNodesOpTimes, x.Valid)
    (h : t.updateLastCommittedOpTimeAndWallTime.2 = true) :
    t.rsConfig.writeMajority ≤ t.votingNodesOpTimes.countP
      (fun x => !x.lt t.updateLastCommittedOpTimeAndWallTime.1.lastCommittedOpTime) := by
  obtain ⟨-, hwm, k, hk, hkeq, heq⟩ := update_of_installed h
  rw [heq] at h ⊢
  obtain ⟨c, hc, -, -, -, hcases⟩ := advance_of_installed h
  have hck : c = (sortOpTimes t.votingNodesOpTimes)[k] := by
    rcases hcases with hc' | ⟨hf, -⟩
    · exact hc'
    · cases hf
  rw [hc, hck]
  -- the elements from rank `k` on lie above the `k`-th, and sorting keeps the count
  have hcount := rank_sort.length_sub_le_countP (sortOpTimes_pairwise hv) hk
    (by simp [OpTime.lt_irrefl])
  rw [(sortOpTimes_perm _).countP_eq, length_sortOpTimes] at hcount
  dsimp only
  omega

end Update

end TopologyCoordinator

end mongo.repl
