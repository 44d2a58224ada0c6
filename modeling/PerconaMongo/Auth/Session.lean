-- The privilege check of authorization_session_impl.cpp. `isAuthorizedForPrivilege` walks the
-- default privileges and then the authenticated users, removes from the requested actions those
-- granted on each pattern of the search list, and answers true as soon as none is left. An
-- `ActionSet` is the bitset of action_set.cpp, whose anyAction bit is set only together with
-- all the others. Off the targets where the search list fails its invariant, the check answers
-- exactly `Authorized`: some grant is examined, and the request is empty or, anyAction apart,
-- held by a non-empty union of the actions granted on the patterns that cover the target.
import PerconaMongo.Auth.ResourcePattern
import Mathlib.Data.Fintype.Basic

namespace mongo.auth

/-- The enumeration `ActionType` of action_types.txt: finitely many actions, among them
`anyAction`. -/
class ActionType (A : Type) where
  anyAction : A

open ActionType (anyAction)

/-- An `ActionSet`: the set bits of its bitset. The bit of anyAction is set only with every
other bit: `addAction(anyAction)` sets them all, and every removal clears it. -/
structure ActionSet (A : Type) [Fintype A] [ActionType A] where
  actions : Finset A
  all_of_anyAction : anyAction ∈ actions → actions = Finset.univ

variable {A : Type} [Fintype A] [DecidableEq A] [ActionType A]

namespace ActionSet

/-- `ActionSet()`: no bit set. -/
instance : EmptyCollection (ActionSet A) := ⟨⟨∅, by simp⟩⟩

omit [DecidableEq A] in
@[simp] theorem actions_emptyCollection : (∅ : ActionSet A).actions = ∅ := rfl

/-- `empty()`. -/
def empty (s : ActionSet A) : Bool := decide (s.actions = ∅)

/-- `removeAllActionsFromSet`: clears the bits of `other`, and the bit of anyAction when
`other` is not empty. -/
def removeAllActionsFromSet (s other : ActionSet A) : ActionSet A where
  actions := if other.empty then s.actions \ other.actions
    else (s.actions \ other.actions).erase anyAction
  all_of_anyAction := by
    unfold empty
    split
    · rename_i ho
      rw [of_decide_eq_true ho, Finset.sdiff_empty]
      exact s.all_of_anyAction
    · simp

@[simp] theorem mem_removeAllActionsFromSet {s other : ActionSet A} {a : A} :
    a ∈ (s.removeAllActionsFromSet other).actions ↔
      a ∈ s.actions ∧ a ∉ other.actions ∧ (a = anyAction → other.actions = ∅) := by
  unfold removeAllActionsFromSet empty
  by_cases ho : other.actions = ∅
  · simp [ho]
  · simp only [ho, decide_false, Bool.false_eq_true, if_false, Finset.mem_erase,
      Finset.mem_sdiff, imp_false]
    tauto

/-- After a run of removals an action is left exactly when it was requested, no grant holds
it, and, for anyAction, every grant was empty. -/
theorem mem_foldl_removeAllActionsFromSet {gs : List (ActionSet A)} {s : ActionSet A} {a : A} :
    a ∈ (gs.foldl removeAllActionsFromSet s).actions ↔
      a ∈ s.actions ∧ (∀ g ∈ gs, a ∉ g.actions) ∧ (a = anyAction → ∀ g ∈ gs, g.actions = ∅) := by
  induction gs generalizing s with
  | nil => simp
  | cons g gs ih =>
    rw [List.foldl_cons, ih, mem_removeAllActionsFromSet]
    simp only [List.forall_mem_cons]
    tauto

theorem foldl_removeAllActionsFromSet_subset {gs : List (ActionSet A)} {s : ActionSet A} :
    (gs.foldl removeAllActionsFromSet s).actions ⊆ s.actions :=
  fun _ ha => (mem_foldl_removeAllActionsFromSet.mp ha).1

/-- The actions some grant of a list holds. -/
def grantedBy (gs : List (ActionSet A)) : Set A := {a | ∃ g ∈ gs, a ∈ g.actions}

/-- A run of removals leaves nothing exactly when nothing was requested, or the grants hold
an action and hold every requested one but anyAction. -/
theorem foldl_removeAllActionsFromSet_eq_empty {gs : List (ActionSet A)} {s : ActionSet A} :
    (gs.foldl removeAllActionsFromSet s).actions = ∅ ↔
      s.actions = ∅ ∨
        ((grantedBy gs).Nonempty ∧ ∀ a ∈ s.actions, a ≠ anyAction → a ∈ grantedBy gs) := by
  rw [Finset.eq_empty_iff_forall_notMem]
  simp only [mem_foldl_removeAllActionsFromSet, grantedBy, Set.Nonempty, Set.mem_ofPred_eq]
  constructor
  · intro h
    by_cases hs : s.actions = ∅
    · exact .inl hs
    obtain ⟨a, ha⟩ := Finset.nonempty_iff_ne_empty.mpr hs
    -- an action left over would be one no grant holds, anyAction with every grant empty
    have hleft : ∀ b ∈ s.actions, (∀ g ∈ gs, b ∉ g.actions) →
        b = anyAction ∧ ∃ g ∈ gs, g.actions ≠ ∅ := by
      intro b hb hnot
      by_contra hne
      refine h b ⟨hb, hnot, fun hb' g hg => ?_⟩
      by_contra hg'
      exact hne ⟨hb', g, hg, hg'⟩
    refine .inr ⟨?_, fun b hb hne => ?_⟩
    · by_cases hx : ∃ g ∈ gs, a ∈ g.actions
      · exact ⟨a, hx⟩
      · simp only [not_exists, not_and] at hx
        obtain ⟨-, g, hg, hg'⟩ := hleft a ha hx
        obtain ⟨c, hc⟩ := Finset.nonempty_iff_ne_empty.mpr hg'
        exact ⟨c, g, hg, hc⟩
    · by_contra hx
      simp only [not_exists, not_and] at hx
      exact hne (hleft b hb hx).1
  · rintro (hs | ⟨⟨c, g, hg, hc⟩, hall⟩) a ⟨ha, hnot, hany⟩
    · simp [hs] at ha
    · by_cases hne : a = anyAction
      · have hempty := hany hne g hg
        simp [hempty] at hc
      · obtain ⟨g', hg', hag'⟩ := hall a ha hne
        exact hnot g' hg' hag'

end ActionSet

/-- A `Privilege`: a resource pattern and the actions on it. -/
structure Privilege (A : Type) [Fintype A] [ActionType A] where
  resourcePattern : ResourcePattern
  actions : ActionSet A

/-- A `User`, with its privileges keyed by their patterns. -/
structure User (A : Type) [Fintype A] [ActionType A] where
  privileges : List (ResourcePattern × ActionSet A)

/-- `User::getActionsForResource`: the actions of the privilege on exactly that pattern, or
none. -/
def User.getActionsForResource (user : User A) (resource : ResourcePattern) : ActionSet A :=
  (user.privileges.lookup resource).getD ∅

open ActionSet

/-- One step of the loops of `_isAuthorizedForPrivilege`: the granted actions leave the unmet
requirements; `none` is the loops' `return true`, taken once nothing is unmet. -/
def removeGranted (unmetRequirements granted : ActionSet A) : Option (ActionSet A) :=
  let unmet := unmetRequirements.removeAllActionsFromSet granted
  if unmet.empty then none else some unmet

/-- The grants the loop over the default privileges removes, in its order: a default
privilege's actions once for each pattern of the search list equal to its own. -/
def defaultGrants (defaultPrivileges : List (Privilege A))
    (resourceSearchList : List ResourcePattern) : List (ActionSet A) :=
  defaultPrivileges.flatMap fun p =>
    (resourceSearchList.filter fun r => p.resourcePattern == r).map fun _ => p.actions

/-- The grants the loop over the authenticated users removes, in its order. -/
def userGrants (authenticatedUsers : List (User A)) (resourceSearchList : List ResourcePattern) :
    List (ActionSet A) :=
  authenticatedUsers.flatMap fun user => resourceSearchList.map user.getActionsForResource

/-- `_isAuthorizedForPrivilege`: the loop over the default privileges and then the one over
the users; true once no requirement is unmet, false after both loops. -/
def _isAuthorizedForPrivilege (defaultPrivileges : List (Privilege A))
    (authenticatedUsers : List (User A)) (privilege : Privilege A) : Except AuthError Bool := do
  let resourceSearchList ← buildResourceSearchList privilege.resourcePattern
  let unmetRequirements :=
    (defaultGrants defaultPrivileges resourceSearchList ++
      userGrants authenticatedUsers resourceSearchList).foldlM removeGranted privilege.actions
  pure unmetRequirements.isNone

/-- `isAuthorizedForPrivilege`. -/
def isAuthorizedForPrivilege (shouldIgnoreAuthChecks : Bool)
    (defaultPrivileges : List (Privilege A)) (authenticatedUsers : List (User A))
    (privilege : Privilege A) : Except AuthError Bool :=
  if shouldIgnoreAuthChecks then pure true
  else _isAuthorizedForPrivilege defaultPrivileges authenticatedUsers privilege

/-! ## What the check grants -/

/-- The actions granted on the patterns that cover the target: by a default privilege on such
a pattern, or by an authenticated user's privilege on one. -/
def grantedActions (defaultPrivileges : List (Privilege A)) (authenticatedUsers : List (User A))
    (target : ResourcePattern) : Set A :=
  {a | (∃ p ∈ defaultPrivileges, Covers p.resourcePattern target ∧ a ∈ p.actions.actions) ∨
    ∃ user ∈ authenticatedUsers, ∃ r, Covers r target ∧ a ∈ (user.getActionsForResource r).actions}

/-- Some grant is examined: a user is authenticated, or a default privilege is on a pattern
that covers the target. -/
def Examined (defaultPrivileges : List (Privilege A)) (authenticatedUsers : List (User A))
    (target : ResourcePattern) : Prop :=
  authenticatedUsers ≠ [] ∨ ∃ p ∈ defaultPrivileges, Covers p.resourcePattern target

/-- The privileges the check grants: some grant is examined, and nothing is requested or the
granted actions are not empty and hold every requested action but anyAction. -/
def Authorized (defaultPrivileges : List (Privilege A)) (authenticatedUsers : List (User A))
    (privilege : Privilege A) : Prop :=
  let granted := grantedActions defaultPrivileges authenticatedUsers privilege.resourcePattern
  Examined defaultPrivileges authenticatedUsers privilege.resourcePattern ∧
    (privilege.actions.actions = ∅ ∨
      (granted.Nonempty ∧ ∀ a ∈ privilege.actions.actions, a ≠ anyAction → a ∈ granted))

/-- The loops return true exactly when some grant was removed and nothing is left after the
last one: the unmet requirements only shrink, so the first empty one stays empty. -/
theorem foldlM_removeGranted_eq_none {gs : List (ActionSet A)} {s : ActionSet A} :
    gs.foldlM removeGranted s = none ↔
      gs ≠ [] ∧ (gs.foldl removeAllActionsFromSet s).actions = ∅ := by
  induction gs generalizing s with
  | nil => simp
  | cons g gs ih =>
    rw [List.foldlM_cons, List.foldl_cons]
    by_cases he : (s.removeAllActionsFromSet g).actions = ∅
    · have hleft : (gs.foldl removeAllActionsFromSet (s.removeAllActionsFromSet g)).actions = ∅ :=
        Finset.subset_empty.mp (he ▸ foldl_removeAllActionsFromSet_subset)
      simp [removeGranted, empty, he, hleft]
    · simp only [removeGranted, empty, he, decide_false, Bool.false_eq_true, if_false,
        Option.bind_eq_bind, Option.bind_some]
      rw [ih]
      constructor
      · rintro ⟨-, hF⟩
        exact ⟨List.cons_ne_nil _ _, hF⟩
      · rintro ⟨-, hF⟩
        refine ⟨?_, hF⟩
        rintro rfl
        exact he hF

section Loops

variable {defaultPrivileges : List (Privilege A)} {authenticatedUsers : List (User A)}
  {target : ResourcePattern} {l : List ResourcePattern}

omit [DecidableEq A] in
/-- Over a search list that holds exactly the patterns covering the target, the grants the
loops remove hold exactly the actions granted on those patterns. -/
theorem grantedBy_grants (hl : ∀ p, p ∈ l ↔ Covers p target) :
    grantedBy (defaultGrants defaultPrivileges l ++ userGrants authenticatedUsers l) =
      grantedActions defaultPrivileges authenticatedUsers target := by
  ext a
  simp only [grantedBy, grantedActions, Set.mem_ofPred_eq, List.mem_append, defaultGrants,
    userGrants, List.mem_flatMap, List.mem_map, List.mem_filter, beq_iff_eq]
  constructor
  · rintro ⟨g, (⟨p, hp, r, ⟨hr, rfl⟩, rfl⟩ | ⟨user, hu, r, hr, rfl⟩), ha⟩
    · exact .inl ⟨p, hp, (hl _).mp hr, ha⟩
    · exact .inr ⟨user, hu, r, (hl r).mp hr, ha⟩
  · rintro (⟨p, hp, hc, ha⟩ | ⟨user, hu, r, hc, ha⟩)
    · exact ⟨p.actions, .inl ⟨p, hp, p.resourcePattern, ⟨(hl _).mpr hc, rfl⟩, rfl⟩, ha⟩
    · exact ⟨_, .inr ⟨user, hu, r, (hl r).mpr hc, rfl⟩, ha⟩

omit [DecidableEq A] in
/-- The loops remove some grant exactly when a grant is examined: the search list is never
empty, as anyResource covers every target. -/
theorem grants_ne_nil (hl : ∀ p, p ∈ l ↔ Covers p target) :
    defaultGrants defaultPrivileges l ++ userGrants authenticatedUsers l ≠ [] ↔
      Examined defaultPrivileges authenticatedUsers target := by
  have hany : ResourcePattern.anyResource ∈ l := (hl _).mpr (.inr trivial)
  unfold Examined
  constructor
  · intro hne
    obtain ⟨g, hg⟩ := List.exists_mem_of_ne_nil _ hne
    simp only [List.mem_append, defaultGrants, userGrants, List.mem_flatMap, List.mem_map,
      List.mem_filter, beq_iff_eq] at hg
    rcases hg with ⟨p, hp, r, ⟨hr, rfl⟩, -⟩ | ⟨user, hu, -⟩
    · exact .inr ⟨p, hp, (hl _).mp hr⟩
    · exact .inl (List.ne_nil_of_mem hu)
  · rintro (hu | ⟨p, hp, hc⟩)
    · obtain ⟨user, hu⟩ := List.exists_mem_of_ne_nil _ hu
      have hg : user.getActionsForResource .anyResource ∈
          defaultGrants defaultPrivileges l ++ userGrants authenticatedUsers l := by
        simp only [List.mem_append, userGrants, List.mem_flatMap, List.mem_map]
        exact .inr ⟨user, hu, _, hany, rfl⟩
      exact List.ne_nil_of_mem hg
    · have hg : p.actions ∈ defaultGrants defaultPrivileges l ++ userGrants authenticatedUsers l := by
        simp only [List.mem_append, defaultGrants, List.mem_flatMap, List.mem_map, List.mem_filter,
          beq_iff_eq]
        exact .inl ⟨p, hp, _, ⟨(hl _).mpr hc, rfl⟩, rfl⟩
      exact List.ne_nil_of_mem hg

end Loops

/-- Off the nested buckets targets the check returns, and it returns true exactly on the
authorized privileges. -/
theorem _isAuthorizedForPrivilege_iff {defaultPrivileges : List (Privilege A)}
    {authenticatedUsers : List (User A)} {privilege : Privilege A}
    (ht : ¬ NestedBuckets privilege.resourcePattern) :
    ∃ b, _isAuthorizedForPrivilege defaultPrivileges authenticatedUsers privilege = .ok b ∧
      (b = true ↔ Authorized defaultPrivileges authenticatedUsers privilege) := by
  obtain ⟨l, hbuild, hl⟩ := mem_buildResourceSearchList ht
  refine ⟨_, by rw [_isAuthorizedForPrivilege, hbuild]; rfl, ?_⟩
  rw [Option.isNone_iff_eq_none, foldlM_removeGranted_eq_none,
    foldl_removeAllActionsFromSet_eq_empty, grants_ne_nil hl, grantedBy_grants hl]
  rfl

/-- On db.system.buckets.system.buckets.x the check does not return: the process aborts. -/
theorem _isAuthorizedForPrivilege_nested (defaultPrivileges : List (Privilege A))
    (authenticatedUsers : List (User A)) (db x : String) (actions : ActionSet A) :
    _isAuthorizedForPrivilege defaultPrivileges authenticatedUsers
      ⟨bucketsNs db (SYSTEM_BUCKETS_PREFIX ++ x), actions⟩ = .error .invariantFailure := by
  rw [_isAuthorizedForPrivilege, buildResourceSearchList_nested]
  rfl

omit [DecidableEq A] in
/-- For a non-empty request without anyAction, the check grants exactly the requests whose
actions are all granted on patterns that cover the target. -/
theorem authorized_iff_subset {defaultPrivileges : List (Privilege A)}
    {authenticatedUsers : List (User A)} {privilege : Privilege A}
    (hne : privilege.actions.actions.Nonempty) (hany : anyAction ∉ privilege.actions.actions) :
    Authorized defaultPrivileges authenticatedUsers privilege ↔
      ↑privilege.actions.actions ⊆
        grantedActions defaultPrivileges authenticatedUsers privilege.resourcePattern := by
  constructor
  · rintro ⟨-, h0 | ⟨-, hall⟩⟩
    · exact absurd h0 hne.ne_empty
    · intro a ha
      exact hall a ha (fun h => hany (h ▸ ha))
  · intro hsub
    obtain ⟨a, ha⟩ := hne
    have hg := hsub ha
    refine ⟨?_, .inr ⟨⟨a, hg⟩, fun b hb _ => hsub hb⟩⟩
    rcases hg with ⟨p, hp, hc, -⟩ | ⟨user, hu, -⟩
    · exact .inr ⟨p, hp, hc⟩
    · exact .inl (List.ne_nil_of_mem hu)

/-- Without an authenticated user or a default privilege on a pattern that covers the target,
every request is refused, the empty one too, which every union of grants holds. -/
theorem isAuthorizedForPrivilege_unexamined {defaultPrivileges : List (Privilege A)}
    {privilege : Privilege A} (ht : ¬ NestedBuckets privilege.resourcePattern)
    (hd : ∀ p ∈ defaultPrivileges, ¬ Covers p.resourcePattern privilege.resourcePattern) :
    isAuthorizedForPrivilege false defaultPrivileges [] privilege = .ok false := by
  have hspec : ∃ b, _isAuthorizedForPrivilege defaultPrivileges [] privilege = .ok b ∧
      (b = true ↔ Authorized defaultPrivileges [] privilege) := _isAuthorizedForPrivilege_iff ht
  obtain ⟨b, hb, hiff⟩ := hspec
  have hna : ¬ Authorized defaultPrivileges [] privilege := by
    rintro ⟨hex | ⟨p, hp, hc⟩, -⟩
    · exact hex rfl
    · exact hd p hp hc
  have hbf : b = false := by
    cases b
    · rfl
    · exact absurd (hiff.mp rfl) hna
  subst hbf
  exact hb

/-- With the auth checks on, the check fails its invariant on the nested buckets targets, and
on every other target returns, with true exactly on the authorized privileges. These are the
requests whose actions the covering patterns grant, when the request is not empty and has no
anyAction; with no authenticated user and no covering default privilege, none is. The search
list always fits the array it is written to. -/
theorem isAuthorizedForPrivilege_covering_patterns (defaultPrivileges : List (Privilege A))
    (authenticatedUsers : List (User A)) (privilege : Privilege A) :
    (NestedBuckets privilege.resourcePattern →
      isAuthorizedForPrivilege false defaultPrivileges authenticatedUsers privilege =
        .error .invariantFailure) ∧
    (¬ NestedBuckets privilege.resourcePattern →
      ∃ b, isAuthorizedForPrivilege false defaultPrivileges authenticatedUsers privilege = .ok b ∧
        (b = true ↔ Authorized defaultPrivileges authenticatedUsers privilege)) ∧
    (privilege.actions.actions.Nonempty → anyAction ∉ privilege.actions.actions →
      (Authorized defaultPrivileges authenticatedUsers privilege ↔
        ↑privilege.actions.actions ⊆
          grantedActions defaultPrivileges authenticatedUsers privilege.resourcePattern)) ∧
    (¬ NestedBuckets privilege.resourcePattern → authenticatedUsers = [] →
      (∀ p ∈ defaultPrivileges, ¬ Covers p.resourcePattern privilege.resourcePattern) →
      isAuthorizedForPrivilege false defaultPrivileges authenticatedUsers privilege =
        .ok false) ∧
    ∀ l, buildResourceSearchList privilege.resourcePattern = .ok l →
      l.length ≤ resourceSearchListCapacity := by
  refine ⟨?_, _isAuthorizedForPrivilege_iff, authorized_iff_subset, ?_,
    fun _ h => buildResourceSearchList_length_le h⟩
  · rintro ⟨db, x, hx⟩
    obtain ⟨target, actions⟩ := privilege
    dsimp only at hx
    subst hx
    exact _isAuthorizedForPrivilege_nested defaultPrivileges authenticatedUsers db x actions
  · rintro ht rfl hd
    exact isAuthorizedForPrivilege_unexamined ht hd

section BoolActions

local instance : ActionType Bool := ⟨true⟩

/-- A check on test.system.buckets.system.buckets.x aborts the server, whatever is asked. -/
theorem isAuthorizedForPrivilege_nested_buckets_abort :
    isAuthorizedForPrivilege false [] []
      ⟨bucketsNs "test" "system.buckets.x", (∅ : ActionSet Bool)⟩ = .error .invariantFailure :=
  (isAuthorizedForPrivilege_covering_patterns [] [] _).1 ⟨"test", "x", by decide⟩

end BoolActions

end mongo.auth
