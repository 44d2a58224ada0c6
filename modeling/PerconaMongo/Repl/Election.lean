-- Votes of a replica set node: `TopologyCoordinator::processReplSetRequestVotes`, and the
-- handler `ReplicationCoordinatorImpl::processReplSetRequestVotes`, which updates the term
-- first. A primary that hears of a newer term keeps its own until its step-down finishes; the
-- handler waits for a step-down only if it started it. The only guard against a second vote
-- in a term is the comparison of the request's term with the term of the last vote.
import PerconaMongo.Repl.Topology

namespace mongo.repl

structure ReplSetRequestVotesArgs where
  setName : String
  term : Int
  candidateIndex : Int
  configVersionAndTerm : ConfigVersionAndTerm
  lastAppliedOpTime : OpTime
  dryRun : Bool
  deriving DecidableEq, Repr

/-- The reason of a response, one for each branch of `processReplSetRequestVotes`. -/
inductive VoteReason
  | granted
  | configOlder
  | termLower
  | setNameDiffers
  | dataStaler
  | alreadyVoted
  | seesHealthyPrimary
  deriving DecidableEq, Repr

structure ReplSetRequestVotesResponse where
  term : Int
  voteGranted : Bool
  reason : VoteReason
  deriving DecidableEq, Repr

/-- `TopologyCoordinator::processReplSetRequestVotes` with its failpoints off;
`betterPrimary` is whether `_findHealthyPrimaryOfEqualOrGreaterPriority` finds a primary in
the heartbeat data. -/
def TopologyCoordinator.processReplSetRequestVotes (t : TopologyCoordinator)
    (args : ReplSetRequestVotesArgs) (betterPrimary : Bool) :
    TopologyCoordinator × ReplSetRequestVotesResponse :=
  if args.configVersionAndTerm.lt t.rsConfig.getConfigVersionAndTerm then
    (t, ⟨t.term, false, .configOlder⟩)
  else if args.term < t.term then (t, ⟨t.term, false, .termLower⟩)
  else if args.setName ≠ t.rsConfig.replSetName then (t, ⟨t.term, false, .setNameDiffers⟩)
  else if args.lastAppliedOpTime.lt t.getMyLastAppliedOpTime then
    (t, ⟨t.term, false, .dataStaler⟩)
  else if !args.dryRun && t.lastVote.term == args.term then (t, ⟨t.term, false, .alreadyVoted⟩)
  else if args.configVersionAndTerm.beq t.rsConfig.getConfigVersionAndTerm && t.selfIsArbiter &&
      betterPrimary then
    (t, ⟨t.term, false, .seesHealthyPrimary⟩)
  else
    let t' := if !args.dryRun then { t with lastVote := ⟨args.term, args.candidateIndex⟩ } else t
    (t', ⟨t.term, true, .granted⟩)

/-! ## Terms and votes at the replication coordinator -/

/-- The fields of a `ReplicationCoordinatorImpl` that terms and votes read and write: its
topology coordinator, and the newest term learned while a step-down is under way, which the
step-down installs when it finishes. -/
structure ReplicationCoordinatorImpl where
  topCoord : TopologyCoordinator
  pendingTermUpdateDuringStepDown : Option Int
  deriving DecidableEq, Repr

namespace ReplicationCoordinatorImpl

/-- `_updateTerm_inlock`: a primary that learns a newer term keeps the newest such term for
later and starts a step-down unless one is under way already; the flag says whether it
started one, which then finishes on the executor. -/
def updateTermInlock (r : ReplicationCoordinatorImpl) (term : Int) :
    ReplicationCoordinatorImpl × TopologyCoordinator.UpdateTermResult × Bool :=
  let (topCoord, result) := r.topCoord.updateTerm term
  if result = .kTriggerStepDown then
    let pending := match r.pendingTermUpdateDuringStepDown with
      | some p => if p < term then term else p
      | none => term
    let (topCoord, started) := topCoord.prepareForUnconditionalStepDown
    (⟨topCoord, some pending⟩, result, started)
  else (⟨topCoord, r.pendingTermUpdateDuringStepDown⟩, result, false)

/-- `_stepDownFinish`: the node leaves the primary state and installs the term it learned
meanwhile. A node that has already stepped down, through a reconfig, is left as it is. -/
def stepDownFinish (r : ReplicationCoordinatorImpl) : ReplicationCoordinatorImpl :=
  if !r.topCoord.isSteppingDownUnconditionally then r
  else
    let r₁ : ReplicationCoordinatorImpl :=
      { r with topCoord := r.topCoord.finishUnconditionalStepDown }
    match r₁.pendingTermUpdateDuringStepDown with
    | some term => { (r₁.updateTermInlock term).1 with pendingTermUpdateDuringStepDown := none }
    | none => r₁

/-- `ReplicationCoordinatorImpl::updateTerm`: it waits for a step-down that it started itself
to finish. The status it returns is `StaleTerm` or OK, which its callers here go past. -/
def updateTerm (r : ReplicationCoordinatorImpl) (term : Int) : ReplicationCoordinatorImpl :=
  let (r, _, started) := r.updateTermInlock term
  if started then r.stepDownFinish else r

/-- `ReplicationCoordinatorImpl::processReplSetRequestVotes` before it stores the last vote:
the term first, then the topology coordinator, unless the candidate index is out of range or
the node is not in its config. -/
def processReplSetRequestVotes (r : ReplicationCoordinatorImpl)
    (args : ReplSetRequestVotesArgs) (betterPrimary : Bool) :
    ReplicationCoordinatorImpl × Except (ErrorCodes × String) ReplSetRequestVotesResponse :=
  let r₁ := r.updateTerm args.term
  let numMembers := r₁.topCoord.rsConfig.members.length
  if args.candidateIndex < 0 ∨ numMembers ≤ args.candidateIndex then
    (r₁, .error (.BadValue, "Invalid candidateIndex: " ++ toString args.candidateIndex ++
      ". Must be between 0 and " ++ toString ((numMembers : Int) - 1) ++ " inclusive"))
  else if r₁.topCoord.selfIndex = -1 then
    (r₁, .error (.InvalidReplicaSetConfig,
      "Invalid replica set config, or this node is not a member"))
  else
    let (topCoord, response) := r₁.topCoord.processReplSetRequestVotes args betterPrimary
    ({ r₁ with topCoord }, .ok response)

end ReplicationCoordinatorImpl

/-! ## What voting leaves alone -/

theorem TopologyCoordinator.processReplSetRequestVotes_sameOpTimes (t : TopologyCoordinator)
    (args : ReplSetRequestVotesArgs) (betterPrimary : Bool) :
    t.SameOpTimes (t.processReplSetRequestVotes args betterPrimary).1 := by
  unfold TopologyCoordinator.processReplSetRequestVotes
  dsimp only
  split_ifs <;> exact ⟨rfl, rfl, rfl⟩

namespace ReplicationCoordinatorImpl

open TopologyCoordinator

theorem updateTermInlock_sameOpTimes (r : ReplicationCoordinatorImpl) (term : Int) :
    r.topCoord.SameOpTimes (r.updateTermInlock term).1.topCoord := by
  unfold updateTermInlock
  dsimp only
  split_ifs
  · exact (updateTerm_sameOpTimes _ _).trans (prepareForUnconditionalStepDown_sameOpTimes _)
  · exact updateTerm_sameOpTimes _ _

theorem stepDownFinish_sameOpTimes (r : ReplicationCoordinatorImpl) :
    r.topCoord.SameOpTimes r.stepDownFinish.topCoord := by
  unfold stepDownFinish
  split_ifs
  · exact .refl _
  · dsimp only
    split
    case h_1 term _ =>
      exact (finishUnconditionalStepDown_sameOpTimes _).trans (updateTermInlock_sameOpTimes
        ⟨r.topCoord.finishUnconditionalStepDown, r.pendingTermUpdateDuringStepDown⟩ term)
    case h_2 => exact finishUnconditionalStepDown_sameOpTimes _

theorem updateTerm_sameOpTimes (r : ReplicationCoordinatorImpl) (term : Int) :
    r.topCoord.SameOpTimes (r.updateTerm term).topCoord := by
  have h := r.updateTermInlock_sameOpTimes term
  unfold updateTerm
  rcases hu : r.updateTermInlock term with ⟨r₁, result, started⟩
  rw [hu] at h
  cases started
  · exact h
  · exact h.trans (stepDownFinish_sameOpTimes _)

/-- A vote request leaves the node's `OpTime`s, its commit point and its first `OpTime` of the
term as they were. -/
theorem processReplSetRequestVotes_sameOpTimes (r : ReplicationCoordinatorImpl)
    (args : ReplSetRequestVotesArgs) (betterPrimary : Bool) :
    r.topCoord.SameOpTimes (r.processReplSetRequestVotes args betterPrimary).1.topCoord := by
  unfold processReplSetRequestVotes
  dsimp only
  split_ifs
  · exact updateTerm_sameOpTimes r args.term
  · exact updateTerm_sameOpTimes r args.term
  · exact (updateTerm_sameOpTimes r args.term).trans
      (TopologyCoordinator.processReplSetRequestVotes_sameOpTimes _ _ _)

end ReplicationCoordinatorImpl

/-! ## A granted vote -/

/-- What the topology coordinator checks before it grants a vote: a config not older than its
own, a term not lower than its own, and data not staler than its own. -/
theorem processReplSetRequestVotes_granted {t : TopologyCoordinator}
    {args : ReplSetRequestVotesArgs} {betterPrimary : Bool}
    (h : (t.processReplSetRequestVotes args betterPrimary).2.voteGranted = true) :
    args.configVersionAndTerm.lt t.rsConfig.getConfigVersionAndTerm = false ∧ t.term ≤ args.term ∧
      args.lastAppliedOpTime.lt t.getMyLastAppliedOpTime = false ∧
      (args.dryRun = false → t.lastVote.term ≠ args.term) := by
  unfold TopologyCoordinator.processReplSetRequestVotes at h
  split_ifs at h with h₁ h₂ h₃ h₄ h₅ h₆ <;> simp_all

/-- A vote of a real election moves the last vote to the request's term and candidate. -/
theorem processReplSetRequestVotes_lastVote {t : TopologyCoordinator}
    {args : ReplSetRequestVotesArgs} {betterPrimary : Bool}
    (h : (t.processReplSetRequestVotes args betterPrimary).2.voteGranted = true)
    (hd : args.dryRun = false) :
    (t.processReplSetRequestVotes args betterPrimary).1.lastVote =
      ⟨args.term, args.candidateIndex⟩ := by
  unfold TopologyCoordinator.processReplSetRequestVotes at h ⊢
  split_ifs at h ⊢ <;> simp_all

end mongo.repl
