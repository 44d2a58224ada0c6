-- A replica set node as a state machine over its `TopologyCoordinator`: the terms it learns,
-- its elections and step-downs, the `OpTime`s its members report, the commit points it is
-- offered or computes, and the votes it grants. Along every run the commit point never moves
-- back and a primary commits only what a write majority has reached; the vote check, though,
-- lets a primary grant two votes in one term.
import PerconaMongo.Repl.CommitPoint
import PerconaMongo.Repl.Election

namespace mongo.repl

/-- The node at startup: the term restored to the greater of the last oplog entry's and the
last vote's, and the last vote loaded when its document is there. -/
def TopologyCoordinator.startup (t : TopologyCoordinator) (lastOpTimeTerm : Int)
    (lastVote : Option LastVote) : TopologyCoordinator :=
  match lastVote with
  | none => { t with term := lastOpTimeTerm, role := .follower }
  | some v => { t.loadLastVote v with term := max lastOpTimeTerm v.term, role := .follower }

/-- A vote granted in a real election: its term and its candidate. -/
structure Vote where
  term : Int
  candidateIndex : Int
  deriving DecidableEq, Repr

/-- The vote a response records, if it grants one in a real election. -/
def votesOf (args : ReplSetRequestVotesArgs) :
    Except (ErrorCodes × String) ReplSetRequestVotesResponse → List Vote
  | .ok r => if r.voteGranted && !args.dryRun then [⟨args.term, args.candidateIndex⟩] else []
  | .error _ => []

/-- The `OpTime`s a member reported, of protocol version 1. -/
def MemberData.Valid (d : MemberData) : Prop :=
  d.lastAppliedOpTime.Valid ∧ d.lastDurableOpTime.Valid

instance (d : MemberData) : Decidable d.Valid := by
  unfold MemberData.Valid
  infer_instance

/-- One event that the topology coordinator handles by itself: an election of the node's own
(its new term and its vote for itself, then the outcome), the end of the drain, a step-down
started by a reconfig or a heartbeat or attempted on request, the `OpTime`s a member reports,
and a commit point that a heartbeat or the sync source offers or that a primary computes. Each
step is taken under the precondition that the source asserts or checks before the call, and
the `OpTime`s that come from other nodes are of protocol version 1. -/
inductive TopologyStep : TopologyCoordinator → TopologyCoordinator → Prop
  | startElection (t : TopologyCoordinator) (h : t.role = .follower) :
      TopologyStep t { ({ t with term := t.term + 1 } : TopologyCoordinator).voteForMyselfV1 with
        role := .candidate }
  | processWinElection (t : TopologyCoordinator) (h : t.role = .candidate)
      (hm : t.leaderMode = .kNotLeader) : TopologyStep t t.processWinElection
  | processLoseElection (t : TopologyCoordinator) (h : t.role = .candidate) :
      TopologyStep t t.processLoseElection
  | completeTransitionToPrimary (t : TopologyCoordinator) (firstOpTimeOfTerm : OpTime)
      (hv : firstOpTimeOfTerm.Valid)
      (h : t.canCompleteTransitionToPrimary firstOpTimeOfTerm.term = true) :
      TopologyStep t (t.completeTransitionToPrimary firstOpTimeOfTerm)
  | prepareForUnconditionalStepDown (t : TopologyCoordinator) (h : t.iAmPrimary = true) :
      TopologyStep t t.prepareForUnconditionalStepDown.1
  | prepareForStepDownAttempt (t t' : TopologyCoordinator) (previousLeaderMode : LeaderMode)
      (h : t.prepareForStepDownAttempt = .ok (t', previousLeaderMode)) : TopologyStep t t'
  | abortStepDownAttempt (t : TopologyCoordinator) (previousLeaderMode : LeaderMode)
      (h : previousLeaderMode = .kLeaderElect ∨ previousLeaderMode = .kWritablePrimary) :
      TopologyStep t (t.abortStepDownAttempt previousLeaderMode)
  | setMemberData (t : TopologyCoordinator) (i : Nat) (d : MemberData) (hv : d.Valid) :
      TopologyStep t { t with memberData := t.memberData.set i d }
  | advanceCommitPoint (t : TopologyCoordinator) (committedOpTime : OpTime)
      (fromSyncSource : Bool) (hv : committedOpTime.Valid) :
      TopologyStep t (t.advanceLastCommittedOpTimeAndWallTime committedOpTime fromSyncSource).1
  | updateCommitPoint (t : TopologyCoordinator) :
      TopologyStep t t.updateLastCommittedOpTimeAndWallTime.1

/-- One event at the node, with the votes it grants: an event of the topology coordinator, a
newer term heard in a heartbeat or in metadata (whose step-down finishes later, on the
executor), the end of a step-down, or a vote request. -/
inductive NodeStep : ReplicationCoordinatorImpl → List Vote → ReplicationCoordinatorImpl → Prop
  | topology (r : ReplicationCoordinatorImpl) (t : TopologyCoordinator)
      (h : TopologyStep r.topCoord t) : NodeStep r [] { r with topCoord := t }
  | updateTerm (r : ReplicationCoordinatorImpl) (term : Int) :
      NodeStep r [] (r.updateTermInlock term).1
  | stepDownFinish (r : ReplicationCoordinatorImpl) : NodeStep r [] r.stepDownFinish
  | requestVotes (r : ReplicationCoordinatorImpl) (args : ReplSetRequestVotesArgs)
      (betterPrimary : Bool) :
      NodeStep r (votesOf args (r.processReplSetRequestVotes args betterPrimary).2)
        (r.processReplSetRequestVotes args betterPrimary).1

/-- The votes a node grants along a run of steps. -/
inductive NodeRun : ReplicationCoordinatorImpl → List Vote → ReplicationCoordinatorImpl → Prop
  | refl (r : ReplicationCoordinatorImpl) : NodeRun r [] r
  | tail {r₀ r r' : ReplicationCoordinatorImpl} {vs v : List Vote} :
      NodeRun r₀ vs r → NodeStep r v r' → NodeRun r₀ (vs ++ v) r'

/-! ## The `OpTime`s of a node stay valid -/

namespace TopologyCoordinator

/-- Every `OpTime` the node holds is of protocol version 1. -/
def OpTimesValid (t : TopologyCoordinator) : Prop :=
  (∀ d ∈ t.memberData, d.Valid) ∧ t.lastCommittedOpTime.Valid ∧ t.firstOpTimeOfMyTerm.Valid

instance (t : TopologyCoordinator) : Decidable t.OpTimesValid := by
  unfold OpTimesValid
  infer_instance

theorem OpTimesValid.of_same {t t' : TopologyCoordinator} (h : t.OpTimesValid)
    (hs : t.SameOpTimes t') : t'.OpTimesValid := by
  unfold OpTimesValid
  rw [hs.memberData, hs.lastCommittedOpTime, hs.firstOpTimeOfMyTerm]
  exact h

theorem getMyLastAppliedOpTime_valid {t : TopologyCoordinator} (h : ∀ d ∈ t.memberData, d.Valid) :
    t.getMyLastAppliedOpTime.Valid := by
  unfold getMyLastAppliedOpTime
  split
  case h_1 d hd => exact (h d (List.mem_of_getElem? hd)).1
  case h_2 => exact Or.inl ⟨rfl, rfl⟩

theorem votingNodesOpTimes_valid {t : TopologyCoordinator} (h : ∀ d ∈ t.memberData, d.Valid) :
    ∀ x ∈ t.votingNodesOpTimes, x.Valid := by
  intro x hx
  unfold votingNodesOpTimes at hx
  obtain ⟨⟨m, d⟩, hmd, hx⟩ := List.mem_filterMap.mp hx
  have hd := h d (List.of_mem_zip hmd).2
  dsimp only at hx
  split at hx <;> simp only [Option.some.injEq, reduceCtorEq] at hx
  subst x
  split
  · exact hd.2
  · exact hd.1

theorem drainingFirstOpTime_valid : drainingFirstOpTime.Valid :=
  Or.inr ⟨by decide, by decide⟩

/-- Advancing the commit point to a valid `OpTime` keeps the node's `OpTime`s valid. -/
theorem OpTimesValid.advance {t : TopologyCoordinator} (h : t.OpTimesValid) {c : OpTime}
    (hc : c.Valid) (fromSyncSource : Bool) :
    (t.advanceLastCommittedOpTimeAndWallTime c fromSyncSource).1.OpTimesValid := by
  have hlc :
      (t.advanceLastCommittedOpTimeAndWallTime c fromSyncSource).1.lastCommittedOpTime.Valid :=
    advance_lastCommitted_valid hc h.2.1 (getMyLastAppliedOpTime_valid h.1)
  cases hb : (t.advanceLastCommittedOpTimeAndWallTime c fromSyncSource).2
  · rw [advance_of_not_installed hb]
    exact h
  · obtain ⟨c', hc', -⟩ := advance_of_installed hb
    rw [hc'] at hlc ⊢
    exact ⟨h.1, hlc, h.2.2⟩

/-- The `OpTime` that a primary offers as its commit point is one of the voters'. -/
theorem update_offers_valid {t : TopologyCoordinator} (h : t.OpTimesValid) {k : Nat}
    (hk : k < (sortOpTimes t.votingNodesOpTimes).length) :
    (sortOpTimes t.votingNodesOpTimes)[k].Valid :=
  votingNodesOpTimes_valid h.1 _ ((sortOpTimes_perm _).mem_iff.mp (List.getElem_mem hk))

end TopologyCoordinator

open TopologyCoordinator

/-- The steps of the topology coordinator that touch neither the member data nor the commit
point, and only replace the first `OpTime` of the term by a valid one. -/
theorem TopologyStep.opTimesValid {t t' : TopologyCoordinator} (hs : TopologyStep t t')
    (h : t.OpTimesValid) : t'.OpTimesValid := by
  cases hs
  case processWinElection => exact ⟨h.1, h.2.1, drainingFirstOpTime_valid⟩
  case completeTransitionToPrimary first hv _ => exact ⟨h.1, h.2.1, hv⟩
  case prepareForUnconditionalStepDown => exact h.of_same (prepareForUnconditionalStepDown_sameOpTimes t)
  case prepareForStepDownAttempt prev hp =>
    unfold TopologyCoordinator.prepareForStepDownAttempt at hp
    split_ifs at hp
    cases hp
    exact h
  case abortStepDownAttempt prev _ =>
    unfold TopologyCoordinator.abortStepDownAttempt
    split_ifs
    · exact h
    · exact h
  case setMemberData i d hv =>
    refine ⟨fun d' hd' => ?_, h.2.1, h.2.2⟩
    rcases List.mem_or_eq_of_mem_set hd' with hd' | rfl
    · exact h.1 d' hd'
    · exact hv
  case advanceCommitPoint c f hv => exact h.advance hv f
  case updateCommitPoint =>
    cases hb : t.updateLastCommittedOpTimeAndWallTime.2
    · rw [update_of_not_installed hb]
      exact h
    · obtain ⟨-, -, k, hk, -, heq⟩ := update_of_installed hb
      rw [heq]
      exact h.advance (update_offers_valid h hk) false
  all_goals exact h

/-- What the replication coordinator does besides the topology coordinator's steps changes
no `OpTime` of the node. -/
theorem NodeStep.sameOpTimes_or_topology {r r' : ReplicationCoordinatorImpl} {v : List Vote}
    (hs : NodeStep r v r') :
    r.topCoord.SameOpTimes r'.topCoord ∨ TopologyStep r.topCoord r'.topCoord := by
  cases hs
  case topology t ht => exact Or.inr ht
  case updateTerm term => exact Or.inl (r.updateTermInlock_sameOpTimes term)
  case stepDownFinish => exact Or.inl r.stepDownFinish_sameOpTimes
  case requestVotes args bp => exact Or.inl (r.processReplSetRequestVotes_sameOpTimes args bp)

theorem NodeRun.opTimesValid {r₀ r : ReplicationCoordinatorImpl} {vs : List Vote}
    (hr : NodeRun r₀ vs r) (h₀ : r₀.topCoord.OpTimesValid) : r.topCoord.OpTimesValid := by
  induction hr with
  | refl => exact h₀
  | tail _ hs ih =>
    rcases hs.sameOpTimes_or_topology with hsame | ht
    · exact ih.of_same hsame
    · exact ht.opTimesValid ih

/-! ## The commit point along a run -/

/-- Each step of the topology coordinator leaves the commit point where it was or moves it
above. -/
theorem TopologyStep.lastCommitted_mono {t t' : TopologyCoordinator} (hs : TopologyStep t t') :
    t'.lastCommittedOpTime = t.lastCommittedOpTime ∨
      t.lastCommittedOpTime.lt t'.lastCommittedOpTime = true := by
  cases hs
  case prepareForUnconditionalStepDown =>
    exact Or.inl (prepareForUnconditionalStepDown_sameOpTimes t).lastCommittedOpTime
  case prepareForStepDownAttempt prev hp =>
    unfold TopologyCoordinator.prepareForStepDownAttempt at hp
    split_ifs at hp
    cases hp
    exact Or.inl rfl
  case abortStepDownAttempt prev _ =>
    unfold TopologyCoordinator.abortStepDownAttempt
    split_ifs <;> exact Or.inl rfl
  case advanceCommitPoint c f _ =>
    cases hb : (t.advanceLastCommittedOpTimeAndWallTime c f).2
    · exact Or.inl (by rw [advance_of_not_installed hb])
    · exact Or.inr (advance_lastCommitted_gt hb)
  case updateCommitPoint =>
    cases hb : t.updateLastCommittedOpTimeAndWallTime.2
    · exact Or.inl (by rw [update_of_not_installed hb])
    · obtain ⟨-, -, k, hk, -, heq⟩ := update_of_installed hb
      rw [heq] at hb ⊢
      exact Or.inr (advance_lastCommitted_gt hb)
  all_goals exact Or.inl rfl

theorem NodeStep.lastCommitted_mono {r r' : ReplicationCoordinatorImpl} {v : List Vote}
    (hs : NodeStep r v r') :
    r'.topCoord.lastCommittedOpTime = r.topCoord.lastCommittedOpTime ∨
      r.topCoord.lastCommittedOpTime.lt r'.topCoord.lastCommittedOpTime = true := by
  rcases hs.sameOpTimes_or_topology with hsame | ht
  · exact Or.inl hsame.lastCommittedOpTime
  · exact ht.lastCommitted_mono

/-- Along a run of valid `OpTime`s, the commit point stays or moves above where it started. -/
theorem NodeRun.lastCommitted_mono {r₀ r : ReplicationCoordinatorImpl} {vs : List Vote}
    (hr : NodeRun r₀ vs r) (h₀ : r₀.topCoord.OpTimesValid) :
    r.topCoord.lastCommittedOpTime = r₀.topCoord.lastCommittedOpTime ∨
      r₀.topCoord.lastCommittedOpTime.lt r.topCoord.lastCommittedOpTime = true := by
  induction hr with
  | refl => exact Or.inl rfl
  | @tail r₂ r₃ _ _ hr hs ih =>
    -- compose with the step's move, by transitivity among the run's valid commit points
    have hv₂ := (hr.opTimesValid h₀).2.1
    have hv₃ := ((hr.tail hs).opTimesValid h₀).2.1
    rcases ih with h₁₂ | h₁₂ <;> rcases hs.lastCommitted_mono with h₂₃ | h₂₃
    · exact Or.inl (h₂₃.trans h₁₂)
    · exact Or.inr (h₁₂ ▸ h₂₃)
    · exact Or.inr (h₂₃ ▸ h₁₂)
    · exact Or.inr (OpTime.lt_trans h₀.2.1 hv₂ hv₃ h₁₂ h₂₃)

/-- From a node whose `OpTime`s are of protocol version 1, the last committed `OpTime` never
decreases along a run; and whenever the node, at any point of such a run, installs a commit
point through `updateLastCommittedOpTimeAndWallTime`, it is primary, the commit point is no
earlier than its `_firstOpTimeOfMyTerm`, and no later than the `OpTime` (durable or applied,
as the config says) that a write majority of the config's voters reported. -/
theorem last_committed_monotone_and_majority_backed {r₀ r r' : ReplicationCoordinatorImpl}
    {vs vs' : List Vote} (h₀ : r₀.topCoord.OpTimesValid) (hr : NodeRun r₀ vs r)
    (hr' : NodeRun r vs' r') :
    r'.topCoord.lastCommittedOpTime.lt r.topCoord.lastCommittedOpTime = false ∧
    (r.topCoord.updateLastCommittedOpTimeAndWallTime.2 = true →
      r.topCoord.iAmPrimary = true ∧
      r.topCoord.updateLastCommittedOpTimeAndWallTime.1.lastCommittedOpTime.lt
        r.topCoord.firstOpTimeOfMyTerm = false ∧
      r.topCoord.rsConfig.writeMajority ≤ r.topCoord.votingNodesOpTimes.countP
        (fun x => !x.lt r.topCoord.updateLastCommittedOpTimeAndWallTime.1.lastCommittedOpTime)) := by
  have hv := hr.opTimesValid h₀
  refine ⟨?_, fun hu => ⟨(update_of_installed hu).1, update_not_lt_firstOpTime hu,
    update_write_majority (votingNodesOpTimes_valid hv.1) hu⟩⟩
  rcases hr'.lastCommitted_mono hv with he | hlt
  · rw [he, OpTime.lt_irrefl]
  · exact OpTime.lt_asymm hlt

/-! ## Two votes in one term -/

/-- The node with index 0 of the five-member set, after startup at term 1 with no last vote:
no member has reported an `OpTime`, and there is no commit point yet. -/
def voterAtStartup : ReplicationCoordinatorImpl :=
  ⟨TopologyCoordinator.startup
    ⟨0, ⟨kInitialTerm, -1⟩, .follower, .kNotLeader, fiveVoters, 0,
      List.replicate 5 ⟨⟨0, kUninitializedTerm⟩, ⟨0, kUninitializedTerm⟩⟩,
      ⟨0, kUninitializedTerm⟩, ⟨0, kUninitializedTerm⟩⟩ 1 none, none⟩

/-- What members 0 to 2 report once the primary of term 2 has written its first entry. -/
def wroteFirstEntry : MemberData := ⟨⟨5, 2⟩, ⟨5, 2⟩⟩

/-- Node 0 as primary of term 2, its first entry held by members 0 to 2 and nothing committed. -/
def primaryAfterFirstEntry : TopologyCoordinator :=
  ⟨2, ⟨2, 0⟩, .leader, .kWritablePrimary, fiveVoters, 0,
    [wroteFirstEntry, wroteFirstEntry, wroteFirstEntry, ⟨⟨0, -1⟩, ⟨0, -1⟩⟩, ⟨⟨0, -1⟩, ⟨0, -1⟩⟩],
    ⟨0, -1⟩, ⟨5, 2⟩⟩

theorem votingNodesOpTimes_primaryAfterFirstEntry :
    primaryAfterFirstEntry.votingNodesOpTimes = [⟨5, 2⟩, ⟨5, 2⟩, ⟨5, 2⟩, ⟨0, -1⟩, ⟨0, -1⟩] := by
  decide

theorem sortOpTimes_primaryAfterFirstEntry :
    TopologyCoordinator.sortOpTimes [⟨5, 2⟩, ⟨5, 2⟩, ⟨5, 2⟩, ⟨0, -1⟩, ⟨0, -1⟩] =
      [⟨0, -1⟩, ⟨0, -1⟩, ⟨5, 2⟩, ⟨5, 2⟩, ⟨5, 2⟩] := by
  simp [TopologyCoordinator.sortOpTimes, List.mergeSort, OpTime.lt, kUninitializedTerm]

/-- A write majority of the five voters holds the first entry, so the primary commits it. -/
theorem update_primaryAfterFirstEntry :
    primaryAfterFirstEntry.updateLastCommittedOpTimeAndWallTime =
      ({ primaryAfterFirstEntry with lastCommittedOpTime := ⟨5, 2⟩ }, true) := by
  simp only [TopologyCoordinator.updateLastCommittedOpTimeAndWallTime,
    votingNodesOpTimes_primaryAfterFirstEntry, sortOpTimes_primaryAfterFirstEntry]
  decide

/-- Node 0 starts an election, wins term 2, writes its first entry, hears that members 0 to 2
hold it, and then computes its commit point, which installs that entry: the theorem holds of the
run up to the computation and of the step that installs it. -/
theorem primaryAfterFirstEntry_commit_point :
    ∃ vs vs', NodeRun voterAtStartup vs ⟨primaryAfterFirstEntry, none⟩ ∧
      NodeRun ⟨primaryAfterFirstEntry, none⟩ vs'
        ⟨{ primaryAfterFirstEntry with lastCommittedOpTime := ⟨5, 2⟩ }, none⟩ ∧
      primaryAfterFirstEntry.updateLastCommittedOpTimeAndWallTime.2 = true ∧
      ((⟨5, 2⟩ : OpTime).lt primaryAfterFirstEntry.lastCommittedOpTime = false ∧
      (primaryAfterFirstEntry.updateLastCommittedOpTimeAndWallTime.2 = true →
        primaryAfterFirstEntry.iAmPrimary = true ∧
        primaryAfterFirstEntry.updateLastCommittedOpTimeAndWallTime.1.lastCommittedOpTime.lt
          primaryAfterFirstEntry.firstOpTimeOfMyTerm = false ∧
        primaryAfterFirstEntry.rsConfig.writeMajority ≤
          primaryAfterFirstEntry.votingNodesOpTimes.countP (fun x => !x.lt
            primaryAfterFirstEntry.updateLastCommittedOpTimeAndWallTime.1.lastCommittedOpTime))) := by
  have hr : NodeRun voterAtStartup _ ⟨primaryAfterFirstEntry, none⟩ :=
    (((((((NodeRun.refl voterAtStartup).tail
      (.topology _ _ (TopologyStep.startElection _ rfl))).tail
      (.topology _ _ (TopologyStep.processWinElection _ rfl rfl))).tail
      (.topology _ _ (TopologyStep.completeTransitionToPrimary _ ⟨5, 2⟩ (by decide) rfl))).tail
      (.topology _ _ (TopologyStep.setMemberData _ 0 wroteFirstEntry (by decide)))).tail
      (.topology _ _ (TopologyStep.setMemberData _ 1 wroteFirstEntry (by decide)))).tail
      (.topology _ _ (TopologyStep.setMemberData _ 2 wroteFirstEntry (by decide))))
  have hr' : NodeRun ⟨primaryAfterFirstEntry, none⟩ ([] ++ [])
      ⟨{ primaryAfterFirstEntry with lastCommittedOpTime := ⟨5, 2⟩ }, none⟩ := by
    have hstep := (NodeRun.refl ⟨primaryAfterFirstEntry, none⟩).tail
      (.topology _ _ (TopologyStep.updateCommitPoint _))
    rwa [update_primaryAfterFirstEntry] at hstep
  refine ⟨_, _, hr, hr', by rw [update_primaryAfterFirstEntry], ?_⟩
  exact last_committed_monotone_and_majority_backed (by decide) hr hr'

/-- A request of a real election from candidate `c` in term `term`, with the node's config and
data. -/
def voteRequest (term c : Int) : ReplSetRequestVotesArgs :=
  ⟨"rs0", term, c, ⟨1, 1⟩, ⟨0, kUninitializedTerm⟩, false⟩

/-- The node wins term 2, then hears of term 4 in a heartbeat and starts to step down. Until
the step-down finishes, `updateTerm` leaves its term at 2 and the vote handler does not wait:
the node votes for candidate 1 in term 4, then for candidate 2 in term 3, which moves its last
vote back to term 3, and then for candidate 3 in term 4 again. Every granted vote passes the
checks of the config, the term against the node's own and the data, and its only guard against
a second vote is that the last vote is not of the request's term; a real vote then moves the
last vote to the request. -/
theorem two_votes_in_one_term :
    (∃ r votes, NodeRun voterAtStartup votes r ∧ (⟨4, 1⟩ : Vote) ∈ votes ∧
      (⟨4, 3⟩ : Vote) ∈ votes) ∧
    ∀ (t : TopologyCoordinator) (args : ReplSetRequestVotesArgs) (betterPrimary : Bool),
      (t.processReplSetRequestVotes args betterPrimary).2.voteGranted = true →
      (args.configVersionAndTerm.lt t.rsConfig.getConfigVersionAndTerm = false ∧
        t.term ≤ args.term ∧ args.lastAppliedOpTime.lt t.getMyLastAppliedOpTime = false ∧
        (args.dryRun = false → t.lastVote.term ≠ args.term)) ∧
      (args.dryRun = false →
        (t.processReplSetRequestVotes args betterPrimary).1.lastVote =
          ⟨args.term, args.candidateIndex⟩) :=
  ⟨⟨_, _, ((((((NodeRun.refl voterAtStartup).tail
    (.topology _ _ (TopologyStep.startElection _ rfl))).tail
    (.topology _ _ (TopologyStep.processWinElection _ rfl rfl))).tail
    (NodeStep.updateTerm _ 4)).tail
    (NodeStep.requestVotes _ (voteRequest 4 1) false)).tail
    (NodeStep.requestVotes _ (voteRequest 3 2) false)).tail
    (NodeStep.requestVotes _ (voteRequest 4 3) false), by decide, by decide⟩,
    fun _ _ _ h => ⟨processReplSetRequestVotes_granted h,
      fun hd => processReplSetRequestVotes_lastVote h hd⟩⟩

end mongo.repl
