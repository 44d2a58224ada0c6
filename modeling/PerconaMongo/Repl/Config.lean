-- Replica set configurations: the internal tags of each member, the majorities of
-- `ReplSetConfig::_calculateMajorities`, the internal write concern modes of
-- `_addInternalWriteConcernModes`, and the tag matcher with which
-- `TopologyCoordinator::haveTaggedNodesSatisfiedCondition` decides that a set of members
-- satisfies a mode.
import Mathlib.Data.List.Dedup

namespace mongo.repl

/-! ## Members and their tags -/

/-- The keys of the internal tags that `MemberConfig::addTagInfo` gives a member. -/
inductive TagKey
  | voter
  | electable
  | all
  | configVoter
  | configAll
  deriving DecidableEq, Repr

/-- A tag: its key, and the member's `_id` as its value. -/
abbrev ReplSetTag := TagKey × Nat

structure MemberConfig where
  id : Nat
  votes : Nat
  newlyAdded : Bool
  arbiterOnly : Bool
  priority : Nat
  deriving DecidableEq, Repr

def MemberConfig.isVoter (m : MemberConfig) : Bool := m.votes != 0 && !m.newlyAdded

def MemberConfig.isArbiter (m : MemberConfig) : Bool := m.arbiterOnly

def MemberConfig.isElectable (m : MemberConfig) : Bool := !m.isArbiter && 0 < m.priority

/-- `MemberConfig::addTagInfo`, past the user tags: their keys never start with `$`, so no
internal write concern mode reads them. -/
def MemberConfig.tags (m : MemberConfig) : List ReplSetTag :=
  (if m.isVoter && !m.isArbiter then [(.voter, m.id)] else []) ++
  (if m.isElectable then [(.electable, m.id)] else []) ++
  (if !m.isArbiter then [(.all, m.id)] else []) ++
  (if m.isVoter then [(.configVoter, m.id)] else []) ++
  [(.configAll, m.id)]

/-- A member has a `$configVoter` tag exactly when it votes, and its value is its `_id`. -/
theorem MemberConfig.mem_tags_configVoter (m : MemberConfig) (v : Nat) :
    (TagKey.configVoter, v) ∈ m.tags ↔ m.isVoter = true ∧ v = m.id := by
  unfold MemberConfig.tags
  cases m.isVoter <;> cases m.isArbiter <;> cases m.isElectable <;> simp

/-- The fields of a `ReplSetConfig` that the modelled code reads. -/
structure ReplSetConfig where
  replSetName : String
  version : Int
  term : Int
  members : List MemberConfig
  writeConcernMajorityShouldJournal : Bool
  deriving DecidableEq, Repr

/-! ## `_calculateMajorities` -/

def ReplSetConfig.totalVotingMembers (c : ReplSetConfig) : Nat := c.members.countP (·.isVoter)

def ReplSetConfig.majorityVoteCount (c : ReplSetConfig) : Nat := c.totalVotingMembers / 2 + 1

def ReplSetConfig.writableVotingMembersCount (c : ReplSetConfig) : Nat :=
  c.totalVotingMembers - c.members.countP (·.isArbiter)

def ReplSetConfig.writeMajority (c : ReplSetConfig) : Nat :=
  min c.majorityVoteCount c.writableVotingMembersCount

/-! ## Tag patterns and the internal write concern modes -/

/-- A constraint of a pattern: at least `minCount` distinct values of the tag key. -/
structure TagCountConstraint where
  key : TagKey
  minCount : Nat
  deriving DecidableEq, Repr

abbrev ReplSetTagPattern := List TagCountConstraint

/-- `ReplSetTagConfig::addTagCountConstraintToPattern`: `NoSuchKey` (here `none`) when no
member has a tag of the key. -/
def ReplSetConfig.addTagCountConstraintToPattern (c : ReplSetConfig) (p : ReplSetTagPattern)
    (key : TagKey) (minCount : Nat) : Option ReplSetTagPattern :=
  if c.members.any fun m => m.tags.any (·.1 == key) then some (p ++ [⟨key, minCount⟩]) else none

/-- The modes `_addInternalWriteConcernModes` adds to `_customWriteConcernModes`. -/
inductive InternalWriteConcernMode
  | majority
  | votingMembers
  | stepDownCheck
  | configMajority
  | configAll
  deriving DecidableEq, Repr

/-- The pattern of each internal mode, or `none` when its tag key is in no member. -/
def ReplSetConfig.internalWriteConcernMode (c : ReplSetConfig) :
    InternalWriteConcernMode → Option ReplSetTagPattern
  | .majority => c.addTagCountConstraintToPattern [] .voter c.writeMajority
  | .votingMembers => c.addTagCountConstraintToPattern [] .voter c.writableVotingMembersCount
  | .stepDownCheck => c.addTagCountConstraintToPattern [] .electable 2
  | .configMajority =>
    c.addTagCountConstraintToPattern [] .configVoter (c.majorityVoteCount / 2 + 1)
  | .configAll => c.addTagCountConstraintToPattern [] .configAll c.members.length

/-! ## `ReplSetTagMatch` -/

/-- `ReplSetTagMatch::BoundTagValue`: a constraint and the distinct values seen for it. -/
structure BoundTagValue where
  constraint : TagCountConstraint
  boundValues : List Nat
  deriving DecidableEq, Repr

def BoundTagValue.isSatisfied (b : BoundTagValue) : Bool :=
  b.constraint.minCount ≤ b.boundValues.length

/-- A value bound once: `sequenceContains`, then `push_back`. -/
def bindValue (values : List Nat) (v : Nat) : List Nat :=
  if values.contains v then values else values ++ [v]

/-- `ReplSetTagMatch::update`: the tag binds its value to the first constraint of its key. -/
def updateBound : List BoundTagValue → ReplSetTag → List BoundTagValue
  | [], _ => []
  | b :: bs, tag =>
    if b.constraint.key == tag.1 then { b with boundValues := bindValue b.boundValues tag.2 } :: bs
    else b :: updateBound bs tag

def ReplSetTagMatch.init (p : ReplSetTagPattern) : List BoundTagValue := p.map fun c => ⟨c, []⟩

def ReplSetTagMatch.isSatisfied (bs : List BoundTagValue) : Bool := bs.all (·.isSatisfied)

/-- The loop of `haveTaggedNodesSatisfiedCondition` over the tags it reads: true at the first
update after which the pattern is satisfied. -/
def matchTags (bs : List BoundTagValue) : List ReplSetTag → Bool
  | [] => false
  | tag :: tags =>
    let bs' := updateBound bs tag
    if ReplSetTagMatch.isSatisfied bs' then true else matchTags bs' tags

/-- `TopologyCoordinator::haveTaggedNodesSatisfiedCondition`: the tags of the members that
pass `pred`, in config order. -/
def haveTaggedNodesSatisfiedCondition (c : ReplSetConfig) (pred : MemberConfig → Bool)
    (p : ReplSetTagPattern) : Bool :=
  matchTags (ReplSetTagMatch.init p) ((c.members.filter pred).flatMap MemberConfig.tags)

/-! ## A pattern of one constraint -/

/-- The values of key `k` bound by the tags, in order, each once. -/
def boundValuesOf (k : TagKey) (values : List Nat) : List ReplSetTag → List Nat
  | [] => values
  | tag :: tags => boundValuesOf k (if tag.1 = k then bindValue values tag.2 else values) tags

theorem bindValue_nodup {values : List Nat} (h : values.Nodup) (v : Nat) :
    (bindValue values v).Nodup := by
  unfold bindValue
  split
  · exact h
  · rename_i hv
    refine List.nodup_append.mpr ⟨h, by simp, fun a ha b hb => ?_⟩
    rw [List.mem_singleton.mp hb]
    rintro rfl
    simp_all

@[simp] theorem mem_bindValue (values : List Nat) (v x : Nat) :
    x ∈ bindValue values v ↔ x ∈ values ∨ x = v := by
  unfold bindValue
  split
  · rename_i hv
    constructor
    · exact Or.inl
    · rintro (h | rfl)
      · exact h
      · simpa using hv
  · simp

theorem length_le_bindValue (values : List Nat) (v : Nat) :
    values.length ≤ (bindValue values v).length := by
  unfold bindValue
  split <;> simp

theorem boundValuesOf_nodup (k : TagKey) {values : List Nat} (h : values.Nodup)
    (tags : List ReplSetTag) : (boundValuesOf k values tags).Nodup := by
  induction tags generalizing values with
  | nil => exact h
  | cons tag tags ih =>
    apply ih
    split
    · exact bindValue_nodup h _
    · exact h

theorem mem_boundValuesOf (k : TagKey) (values : List Nat) (tags : List ReplSetTag) (x : Nat) :
    x ∈ boundValuesOf k values tags ↔ x ∈ values ∨ (k, x) ∈ tags := by
  induction tags generalizing values with
  | nil => simp [boundValuesOf]
  | cons tag tags ih =>
    obtain ⟨k', v⟩ := tag
    rw [boundValuesOf, ih]
    by_cases hk : k' = k
    · subst hk
      simp [or_assoc]
    · simp [hk, Ne.symm hk]

theorem length_le_boundValuesOf (k : TagKey) (values : List Nat) (tags : List ReplSetTag) :
    values.length ≤ (boundValuesOf k values tags).length := by
  induction tags generalizing values with
  | nil => exact Nat.le_refl _
  | cons tag tags ih =>
    refine Nat.le_trans ?_ (ih _)
    split
    · exact length_le_bindValue _ _
    · exact Nat.le_refl _

/-- With one constraint, the matcher answers whether the tags bind enough distinct values;
the loop stops at the first update that binds the last one it needs. -/
theorem matchTags_single (c : TagCountConstraint) (values : List Nat)
    (hq : values.length < c.minCount) (tags : List ReplSetTag) :
    matchTags [⟨c, values⟩] tags = decide (c.minCount ≤ (boundValuesOf c.key values tags).length) := by
  induction tags generalizing values with
  | nil =>
    simp only [matchTags, boundValuesOf]
    exact (decide_eq_false (Nat.not_le.mpr hq)).symm
  | cons tag tags ih =>
    have hupd : updateBound [⟨c, values⟩] tag =
        [⟨c, if tag.1 = c.key then bindValue values tag.2 else values⟩] := by
      by_cases hk : tag.1 = c.key
      · rw [updateBound, if_pos (beq_iff_eq.mpr hk.symm), if_pos hk]
      · rw [updateBound, if_neg fun h => hk (beq_iff_eq.mp h).symm, if_neg hk, updateBound]
    rw [matchTags, hupd, boundValuesOf]
    by_cases hsat : c.minCount ≤ (if tag.1 = c.key then bindValue values tag.2 else values).length
    · have := length_le_boundValuesOf c.key
        (if tag.1 = c.key then bindValue values tag.2 else values) tags
      simp [ReplSetTagMatch.isSatisfied, BoundTagValue.isSatisfied, hsat]
      omega
    · simp only [ReplSetTagMatch.isSatisfied, BoundTagValue.isSatisfied, List.all_cons,
        List.all_nil, Bool.and_true, decide_eq_true_eq, hsat, if_false]
      exact ih _ (by omega)

/-! ## `$configMajority` -/

/-- The `$configVoter` values the selected members bind are the `_id`s of the selected voters,
each once when the `_id`s are distinct. -/
theorem boundValuesOf_configVoter (c : ReplSetConfig) (hid : (c.members.map (·.id)).Nodup)
    (pred : MemberConfig → Bool) :
    (boundValuesOf .configVoter [] ((c.members.filter pred).flatMap MemberConfig.tags)).length =
      (c.members.filter fun m => pred m && m.isVoter).length := by
  have hsel : ((c.members.filter fun m => pred m && m.isVoter).map (·.id)).Nodup :=
    hid.sublist (List.Sublist.map _ (List.filter_sublist))
  have hperm : (boundValuesOf .configVoter [] ((c.members.filter pred).flatMap MemberConfig.tags)).Perm
      ((c.members.filter fun m => pred m && m.isVoter).map (·.id)) :=
    (List.perm_ext_iff_of_nodup (boundValuesOf_nodup _ List.nodup_nil _) hsel).mpr fun x => by
      rw [mem_boundValuesOf]
      simp only [List.not_mem_nil, false_or, List.mem_flatMap, List.mem_filter,
        MemberConfig.mem_tags_configVoter, List.mem_map, Bool.and_eq_true]
      constructor
      · rintro ⟨m, ⟨hm, hp⟩, hv, rfl⟩
        exact ⟨m, ⟨hm, hp, hv⟩, rfl⟩
      · rintro ⟨m, ⟨hm, hp, hv⟩, rfl⟩
        exact ⟨m, ⟨hm, hp⟩, hv, rfl⟩
  rw [hperm.length_eq, List.length_map]

/-- What the code makes of `$configMajority`: when some member votes, the mode asks for
`majorityVoteCount / 2 + 1` distinct voting members, where `majorityVoteCount` is itself
`voters / 2 + 1`. -/
theorem configMajority_satisfied_iff (c : ReplSetConfig) (hid : (c.members.map (·.id)).Nodup)
    (hv : c.members.any (·.isVoter) = true) (pred : MemberConfig → Bool) :
    ∃ p, c.internalWriteConcernMode .configMajority = some p ∧
      (haveTaggedNodesSatisfiedCondition c pred p = true ↔
        c.majorityVoteCount / 2 + 1 ≤ (c.members.filter fun m => pred m && m.isVoter).length) := by
  have hkey : (c.members.any fun m => m.tags.any (·.1 == TagKey.configVoter)) = true := by
    obtain ⟨m, hm, hvm⟩ := List.any_eq_true.mp hv
    exact List.any_eq_true.mpr ⟨m, hm, List.any_eq_true.mpr
      ⟨(.configVoter, m.id), (m.mem_tags_configVoter _).mpr ⟨hvm, rfl⟩, rfl⟩⟩
  refine ⟨[⟨.configVoter, c.majorityVoteCount / 2 + 1⟩], by
    simp [ReplSetConfig.internalWriteConcernMode, ReplSetConfig.addTagCountConstraintToPattern,
      hkey], ?_⟩
  unfold haveTaggedNodesSatisfiedCondition
  rw [show ReplSetTagMatch.init [⟨.configVoter, c.majorityVoteCount / 2 + 1⟩] =
    [⟨⟨.configVoter, c.majorityVoteCount / 2 + 1⟩, []⟩] from rfl,
    matchTags_single _ [] (Nat.succ_pos _), boundValuesOf_configVoter c hid pred]
  simp

/-! ## `validateSingleNodeChange` -/

def ReplSetConfig.votingMemberIds (c : ReplSetConfig) : List Nat :=
  (c.members.filter (·.isVoter)).map (·.id)

/-- `validateSingleNodeChange`: the sets of `_id`s of the voting members differ by one `_id`
at most. -/
def validateSingleNodeChange (oldConfig newConfig : ReplSetConfig) : Except String Unit :=
  let oldIdSet := oldConfig.votingMemberIds.dedup
  let newIdSet := newConfig.votingMemberIds.dedup
  let symmDiff := oldIdSet.filter (· ∉ newIdSet) ++ newIdSet.filter (· ∉ oldIdSet)
  if symmDiff.length > 1 then
    .error "Non force replica set reconfig can only add or remove at most 1 voting member."
  else .ok ()

/-! ## Five voters -/

/-- Five voting members with `_id`s 0 to 4. -/
def fiveVoters : ReplSetConfig :=
  ⟨"rs0", 1, 1, (List.range 5).map fun i => ⟨i, 1, false, false, 1⟩, true⟩

/-- In a config of five voters, which is its own single-node successor, the members 0 and 1
satisfy `$configMajority`, and so do the members 2 and 3: the two sets share no voter. In every
config with a voter and distinct `_id`s the mode asks for `majorityVoteCount / 2 + 1` voters,
a quarter of them, not a majority. -/
theorem configMajority_disjoint_quorums :
    (validateSingleNodeChange fiveVoters fiveVoters = .ok () ∧
      ∃ p, fiveVoters.internalWriteConcernMode .configMajority = some p ∧
        haveTaggedNodesSatisfiedCondition fiveVoters (fun m => m.id < 2) p = true ∧
        haveTaggedNodesSatisfiedCondition fiveVoters (fun m => 2 ≤ m.id && m.id < 4) p = true) ∧
    ∀ c : ReplSetConfig, (c.members.map (·.id)).Nodup → c.members.any (·.isVoter) = true →
      ∀ pred, ∃ p, c.internalWriteConcernMode .configMajority = some p ∧
        (haveTaggedNodesSatisfiedCondition c pred p = true ↔
          c.majorityVoteCount / 2 + 1 ≤ (c.members.filter fun m => pred m && m.isVoter).length) :=
  ⟨⟨rfl, _, rfl, by decide, by decide⟩,
    fun c hid hv pred => configMajority_satisfied_iff c hid hv pred⟩

end mongo.repl
