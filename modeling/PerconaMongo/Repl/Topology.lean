-- The state of a replica set node's `TopologyCoordinator` that votes and the commit point read
-- and write, and its changes of role: a term learned, an election won or lost, the drain
-- completed, and the steps of a step-down, each with the leader modes `_setLeaderMode` allows.
import PerconaMongo.Repl.Config
import PerconaMongo.Repl.OpTime
import Mathlib

namespace mongo.repl

/-- `ReplSetConfig::getConfigVersionAndTerm`. -/
def ReplSetConfig.getConfigVersionAndTerm (c : ReplSetConfig) : ConfigVersionAndTerm :=
  ⟨c.version, c.term⟩

/-- `LastVote`: the term of the node's last vote and the index of its candidate. -/
structure LastVote where
  term : Int
  candidateIndex : Int
  deriving DecidableEq, Repr

/-- `TopologyCoordinator::Role`. -/
inductive Role
  | leader
  | follower
  | candidate
  deriving DecidableEq, Repr

/-- `TopologyCoordinator::LeaderMode`: how far a leader is in taking or giving up writes. -/
inductive LeaderMode
  | kNotLeader
  | kLeaderElect
  | kWritablePrimary
  | kSteppingDown
  | kAttemptingStepDown
  deriving DecidableEq, Repr

/-- `MemberData`: the applied and durable `OpTime`s a member reported last. -/
structure MemberData where
  lastAppliedOpTime : OpTime
  lastDurableOpTime : OpTime
  deriving DecidableEq, Repr

/-- The `ErrorCodes` of the statuses that the modelled code returns. -/
inductive ErrorCodes
  | BadValue
  | InvalidReplicaSetConfig
  | ConflictingOperationInProgress
  | NotWritablePrimary
  deriving DecidableEq, Repr

/-- The fields of a `TopologyCoordinator` that votes and the commit point read and write;
`memberData` holds one entry for each member of `rsConfig`, in the config's order. -/
structure TopologyCoordinator where
  term : Int
  lastVote : LastVote
  role : Role
  leaderMode : LeaderMode
  rsConfig : ReplSetConfig
  selfIndex : Int
  memberData : List MemberData
  lastCommittedOpTime : OpTime
  firstOpTimeOfMyTerm : OpTime
  deriving DecidableEq, Repr

namespace TopologyCoordinator

def iAmPrimary (t : TopologyCoordinator) : Bool := t.role == .leader

/-- `_selfConfig().isArbiter()`; the callers have checked that the node is in its config. -/
def selfIsArbiter (t : TopologyCoordinator) : Bool :=
  match t.rsConfig.members[t.selfIndex.toNat]? with
  | some m => m.isArbiter
  | none => false

/-- `_selfMemberDataIndex`: the node's own entry, or the first one while it has no config. -/
def selfMemberDataIndex (t : TopologyCoordinator) : Nat :=
  if 0 ≤ t.selfIndex then t.selfIndex.toNat else 0

/-- `getMyLastAppliedOpTime`: the applied `OpTime` of the node's own member data. -/
def getMyLastAppliedOpTime (t : TopologyCoordinator) : OpTime :=
  match t.memberData[t.selfMemberDataIndex]? with
  | some d => d.lastAppliedOpTime
  | none => ⟨0, kUninitializedTerm⟩

/-! ## Terms and roles -/

/-- `TopologyCoordinator::UpdateTermResult`. -/
inductive UpdateTermResult
  | kAlreadyUpToDate
  | kTriggerStepDown
  | kUpdatedTerm
  deriving DecidableEq, Repr

/-- `TopologyCoordinator::updateTerm`: a primary keeps its term until it has stepped down. -/
def updateTerm (t : TopologyCoordinator) (term : Int) : TopologyCoordinator × UpdateTermResult :=
  if term ≤ t.term then (t, .kAlreadyUpToDate)
  else if t.iAmPrimary then (t, .kTriggerStepDown)
  else ({ t with term }, .kUpdatedTerm)

/-- `TopologyCoordinator::voteForMyselfV1`. -/
def voteForMyselfV1 (t : TopologyCoordinator) : TopologyCoordinator :=
  { t with lastVote := ⟨t.term, t.selfIndex⟩ }

/-- `TopologyCoordinator::loadLastVote`. -/
def loadLastVote (t : TopologyCoordinator) (lastVote : LastVote) : TopologyCoordinator :=
  { t with lastVote }

/-- The `_firstOpTimeOfMyTerm` of a primary that is still draining,
`OpTime(Timestamp(INT_MAX, 0), INT_MAX)`, above every `OpTime` a node writes: the timestamp
counts seconds in its high 32 bits. -/
def drainingFirstOpTime : OpTime := ⟨(2 ^ 31 - 1) * 2 ^ 32, 2 ^ 31 - 1⟩

/-- `TopologyCoordinator::processWinElection`: "Prevent last committed optime from updating
until we finish draining." -/
def processWinElection (t : TopologyCoordinator) : TopologyCoordinator :=
  { t with
    role := .leader
    leaderMode := .kLeaderElect
    firstOpTimeOfMyTerm := drainingFirstOpTime }

/-- `TopologyCoordinator::processLoseElection`. -/
def processLoseElection (t : TopologyCoordinator) : TopologyCoordinator :=
  { t with role := .follower }

/-- `TopologyCoordinator::canCompleteTransitionToPrimary`: the drain ended in the node's term,
and the node still leads, possibly in the middle of a step-down. -/
def canCompleteTransitionToPrimary (t : TopologyCoordinator) (termWhenDrainCompleted : Int) :
    Bool :=
  termWhenDrainCompleted == t.term &&
    (t.leaderMode == .kLeaderElect || t.leaderMode == .kAttemptingStepDown ||
      t.leaderMode == .kSteppingDown)

/-- `TopologyCoordinator::completeTransitionToPrimary`. -/
def completeTransitionToPrimary (t : TopologyCoordinator) (firstOpTimeOfTerm : OpTime) :
    TopologyCoordinator :=
  { t with
    leaderMode := if t.leaderMode = .kLeaderElect then .kWritablePrimary else t.leaderMode
    firstOpTimeOfMyTerm := firstOpTimeOfTerm }

/-- `TopologyCoordinator::prepareForUnconditionalStepDown`: one required step-down at a time;
it takes precedence over a step-down attempt. -/
def prepareForUnconditionalStepDown (t : TopologyCoordinator) : TopologyCoordinator × Bool :=
  if t.leaderMode = .kSteppingDown then (t, false)
  else ({ t with leaderMode := .kSteppingDown }, true)

/-- `TopologyCoordinator::prepareForStepDownAttempt`: the new state and the leader mode that
the returned abort function restores, or the error and its message. -/
def prepareForStepDownAttempt (t : TopologyCoordinator) :
    Except (ErrorCodes × String) (TopologyCoordinator × LeaderMode) :=
  if t.leaderMode = .kSteppingDown ∨ t.leaderMode = .kAttemptingStepDown then
    .error (.ConflictingOperationInProgress,
      "This node is already in the process of stepping down")
  else if t.leaderMode = .kNotLeader then
    .error (.NotWritablePrimary, "This node is not a primary.")
  else .ok ({ t with leaderMode := .kAttemptingStepDown }, t.leaderMode)

/-- The abort function of `prepareForStepDownAttempt`. -/
def abortStepDownAttempt (t : TopologyCoordinator) (previousLeaderMode : LeaderMode) :
    TopologyCoordinator :=
  if t.leaderMode = .kAttemptingStepDown then { t with leaderMode := previousLeaderMode } else t

def isSteppingDownUnconditionally (t : TopologyCoordinator) : Bool :=
  t.leaderMode == .kSteppingDown

/-- `TopologyCoordinator::finishUnconditionalStepDown`, through `_stepDownSelfAndReplaceWith`. -/
def finishUnconditionalStepDown (t : TopologyCoordinator) : TopologyCoordinator :=
  { t with role := .follower, leaderMode := .kNotLeader }

/-! ## What terms and roles leave alone -/

/-- Two states of a node with the same member `OpTime`s, commit point and first `OpTime` of
the term: what a change of term or role leaves alone. -/
structure SameOpTimes (t t' : TopologyCoordinator) : Prop where
  memberData : t'.memberData = t.memberData
  lastCommittedOpTime : t'.lastCommittedOpTime = t.lastCommittedOpTime
  firstOpTimeOfMyTerm : t'.firstOpTimeOfMyTerm = t.firstOpTimeOfMyTerm

theorem SameOpTimes.refl (t : TopologyCoordinator) : SameOpTimes t t := ⟨rfl, rfl, rfl⟩

theorem SameOpTimes.trans {t₁ t₂ t₃ : TopologyCoordinator} (h₁ : SameOpTimes t₁ t₂)
    (h₂ : SameOpTimes t₂ t₃) : SameOpTimes t₁ t₃ :=
  ⟨h₂.1.trans h₁.1, h₂.2.trans h₁.2, h₂.3.trans h₁.3⟩

theorem updateTerm_sameOpTimes (t : TopologyCoordinator) (term : Int) :
    SameOpTimes t (t.updateTerm term).1 := by
  unfold updateTerm
  split_ifs <;> exact ⟨rfl, rfl, rfl⟩

theorem prepareForUnconditionalStepDown_sameOpTimes (t : TopologyCoordinator) :
    SameOpTimes t t.prepareForUnconditionalStepDown.1 := by
  unfold prepareForUnconditionalStepDown
  split_ifs <;> exact ⟨rfl, rfl, rfl⟩

theorem finishUnconditionalStepDown_sameOpTimes (t : TopologyCoordinator) :
    SameOpTimes t t.finishUnconditionalStepDown := ⟨rfl, rfl, rfl⟩

end TopologyCoordinator

end mongo.repl
