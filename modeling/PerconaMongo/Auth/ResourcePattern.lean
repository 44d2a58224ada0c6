-- Resource patterns (resource_pattern.h) and the search list of a privilege check
-- (`buildResourceSearchList`, authorization_session_impl.cpp): the patterns whose grants count
-- for a target. Over them stands `Covers`, the lattice the comments of both files describe. The
-- search list holds exactly the patterns that cover its target, except on the targets
-- db.system.buckets.system.buckets.x, where `forExactSystemBucketsCollection` fails its
-- invariant.
import Mathlib.Data.List.Basic

namespace mongo.auth

/-- `StringData::startsWith`. -/
def startsWith (s pre : String) : Bool := pre.toList.isPrefixOf s.toList

theorem startsWith_iff {s pre : String} : startsWith s pre = true ↔ ∃ x, s = pre ++ x := by
  unfold startsWith
  rw [List.isPrefixOf_iff_prefix]
  constructor
  · rintro ⟨t, ht⟩
    refine ⟨String.ofList t, ?_⟩
    rw [← String.toList_inj, String.toList_append, String.toList_ofList, ht]
  · rintro ⟨x, rfl⟩
    exact ⟨x.toList, String.toList_append.symm⟩

theorem startsWith_append (pre x : String) : startsWith (pre ++ x) pre = true :=
  startsWith_iff.mpr ⟨x, rfl⟩

/-- A `NamespaceString` db.coll. A database name holds no dot (the constructor asserts it), so
the string is determined by its two parts. -/
structure NamespaceString where
  db : String
  coll : String
  deriving DecidableEq, Repr

namespace NamespaceString

def isLocal (ns : NamespaceString) : Bool := ns.db == "local"

def isSystem (ns : NamespaceString) : Bool := startsWith ns.coll "system."

def isNormalCollection (ns : NamespaceString) : Bool :=
  !ns.isSystem && !(ns.isLocal && startsWith ns.coll "replset.")

end NamespaceString

def SYSTEM_BUCKETS_PREFIX : String := "system.buckets."

/-- A `ResourcePattern`: its `MatchTypeEnum` with the namespace the factory stores, one
constructor per factory (`forAnyResource`, `forDatabaseName`, ...). Two patterns are equal
exactly when `operator==` says so, as the namespaces of the factories are determined by their
arguments. -/
inductive ResourcePattern
  | never
  | anyResource
  | anyNormalResource
  | clusterResource
  | databaseName (db : String)
  | collectionName (coll : String)
  | exactNamespace (ns : NamespaceString)
  | anySystemBuckets
  | anySystemBucketsInDatabase (db : String)
  | anySystemBucketsInAnyDatabase (coll : String)
  | exactSystemBucketsCollection (db coll : String)
  deriving DecidableEq, Repr

/-- What stops a privilege check: a failed `invariant`, which aborts the process. -/
inductive AuthError
  | invariantFailure
  deriving DecidableEq, Repr

/-- `ResourcePattern::forExactSystemBucketsCollection`, with its invariant. -/
def forExactSystemBucketsCollection (dbName collectionName : String) :
    Except AuthError ResourcePattern :=
  if startsWith collectionName "system.buckets." then throw .invariantFailure
  else pure (.exactSystemBucketsCollection dbName collectionName)

/-- The size of the array `buildResourceSearchList` writes the search list to. -/
def resourceSearchListCapacity : Nat := 7

/-- `buildResourceSearchList`: the any-resource pattern, the patterns the target's kind adds,
and the target itself. -/
def buildResourceSearchList (target : ResourcePattern) :
    Except AuthError (List ResourcePattern) := do
  let middle ← match target with
    | .exactNamespace ns =>
      if ns.isNormalCollection then
        pure ((if ns.db ≠ "local" ∧ ns.db ≠ "config" then [.anyNormalResource] else []) ++
          [.databaseName ns.db, .collectionName ns.coll])
      else if startsWith ns.coll SYSTEM_BUCKETS_PREFIX ∧
          ns.coll.length > SYSTEM_BUCKETS_PREFIX.length then
        let bucketColl := String.ofList (ns.coll.toList.drop SYSTEM_BUCKETS_PREFIX.length)
        let exact ← forExactSystemBucketsCollection ns.db bucketColl
        pure [exact, .anySystemBuckets, .anySystemBucketsInDatabase ns.db,
          .anySystemBucketsInAnyDatabase bucketColl, .collectionName ns.coll]
      else pure [.collectionName ns.coll]
    | .databaseName db =>
      pure (if db ≠ "local" ∧ db ≠ "config" then [.anyNormalResource] else [])
    | _ => pure []
  pure (.anyResource :: middle ++ [target])

/-! ## The lattice of patterns -/

/-- The databases whose resources are normal: all but local and config. -/
def NormalDb (db : String) : Prop := db ≠ "local" ∧ db ≠ "config"

/-- The system.buckets collection db.system.buckets.coll. -/
def bucketsNs (db coll : String) : ResourcePattern :=
  .exactNamespace ⟨db, SYSTEM_BUCKETS_PREFIX ++ coll⟩

/-- What a pattern matches besides itself, as resource_pattern.h documents its factories:
anyNormalResource the databases and normal collections outside local and config, a database
its normal collections, a collection name that collection in every database, and the
system.buckets patterns the buckets collections with a non-empty name they describe. -/
def Matches : ResourcePattern → ResourcePattern → Prop
  | .anyResource, _ => True
  | .anyNormalResource, t => (∃ db, t = .databaseName db ∧ NormalDb db) ∨
      ∃ ns, t = .exactNamespace ns ∧ NormalDb ns.db ∧ ns.isNormalCollection
  | .databaseName db, t => ∃ ns, t = .exactNamespace ns ∧ ns.db = db ∧ ns.isNormalCollection
  | .collectionName coll, t => ∃ ns, t = .exactNamespace ns ∧ ns.coll = coll
  | .anySystemBuckets, t => ∃ db coll, coll ≠ "" ∧ t = bucketsNs db coll
  | .anySystemBucketsInDatabase db, t => ∃ coll, coll ≠ "" ∧ t = bucketsNs db coll
  | .anySystemBucketsInAnyDatabase coll, t => coll ≠ "" ∧ ∃ db, t = bucketsNs db coll
  | .exactSystemBucketsCollection db coll, t => coll ≠ "" ∧ t = bucketsNs db coll
  | .never, _ | .clusterResource, _ | .exactNamespace _, _ => False

/-- A pattern covers a target when it is the target or matches it. -/
def Covers (p target : ResourcePattern) : Prop := p = target ∨ Matches p target

/-- The targets on which the search list asks for a system.buckets pattern of a collection
name that itself starts with system.buckets. -/
def NestedBuckets (target : ResourcePattern) : Prop :=
  ∃ db x, target = bucketsNs db (SYSTEM_BUCKETS_PREFIX ++ x)

/-! ## The names the search list tests -/

theorem isSystem_buckets (db x : String) :
    NamespaceString.isSystem ⟨db, SYSTEM_BUCKETS_PREFIX ++ x⟩ = true := by
  unfold NamespaceString.isSystem startsWith
  rw [List.isPrefixOf_iff_prefix, String.toList_append]
  have hsys : "system.".toList <+: SYSTEM_BUCKETS_PREFIX.toList := by decide
  exact hsys.trans (List.prefix_append _ _)

theorem not_isNormalCollection_buckets (db x : String) :
    NamespaceString.isNormalCollection ⟨db, SYSTEM_BUCKETS_PREFIX ++ x⟩ = false := by
  simp [NamespaceString.isNormalCollection, isSystem_buckets]

/-- The test of the buckets branch: the collection is system.buckets. followed by a
non-empty name. -/
theorem isBuckets_iff (coll : String) :
    (startsWith coll SYSTEM_BUCKETS_PREFIX = true ∧ coll.length > SYSTEM_BUCKETS_PREFIX.length) ↔
      ∃ x, x ≠ "" ∧ coll = SYSTEM_BUCKETS_PREFIX ++ x := by
  rw [startsWith_iff]
  constructor
  · rintro ⟨⟨x, rfl⟩, hlen⟩
    refine ⟨x, ?_, rfl⟩
    rintro rfl
    simp at hlen
  · rintro ⟨x, hx, rfl⟩
    refine ⟨⟨x, rfl⟩, ?_⟩
    rw [String.length_append]
    have hpos : x.length ≠ 0 := fun h => hx (String.length_eq_zero_iff.mp h)
    omega

/-- `bucketColl`: the name after system.buckets.. -/
theorem bucketColl_eq (x : String) :
    String.ofList ((SYSTEM_BUCKETS_PREFIX ++ x).toList.drop SYSTEM_BUCKETS_PREFIX.length) = x := by
  rw [String.toList_append, ← String.length_toList, List.drop_left, String.ofList_toList]

/-! ## What covers each kind of target -/

/-- A database is covered by anyResource, by anyNormalResource when it is normal, and by its
own pattern. -/
theorem covers_databaseName_iff {p : ResourcePattern} {db : String} :
    Covers p (.databaseName db) ↔
      p = .anyResource ∨ (p = .anyNormalResource ∧ NormalDb db) ∨ p = .databaseName db := by
  unfold Covers
  cases p <;> simp [Matches, bucketsNs]

/-- A normal collection is covered by anyResource, anyNormalResource outside local and config,
its database, its collection name and itself. -/
theorem covers_normal_iff {p : ResourcePattern} {ns : NamespaceString}
    (hn : ns.isNormalCollection = true) :
    Covers p (.exactNamespace ns) ↔
      p = .anyResource ∨ (p = .anyNormalResource ∧ NormalDb ns.db) ∨ p = .databaseName ns.db ∨
        p = .collectionName ns.coll ∨ p = .exactNamespace ns := by
  have hnb : ∀ db coll, ns ≠ ⟨db, SYSTEM_BUCKETS_PREFIX ++ coll⟩ := by
    rintro db coll rfl
    simp [not_isNormalCollection_buckets] at hn
  unfold Covers
  cases p <;> simp [Matches, bucketsNs, hn, hnb] <;> exact eq_comm

/-- A buckets collection with a non-empty name is covered by anyResource, the four
system.buckets patterns of its database and name, its collection name and itself. -/
theorem covers_buckets_iff {p : ResourcePattern} {db x : String} (hx : x ≠ "") :
    Covers p (bucketsNs db x) ↔
      p = .anyResource ∨ p = .exactSystemBucketsCollection db x ∨ p = .anySystemBuckets ∨
        p = .anySystemBucketsInDatabase db ∨ p = .anySystemBucketsInAnyDatabase x ∨
        p = .collectionName (SYSTEM_BUCKETS_PREFIX ++ x) ∨ p = bucketsNs db x := by
  unfold Covers
  cases p <;> simp [Matches, bucketsNs, not_isNormalCollection_buckets, hx] <;> grind

/-- Any other collection, a system collection or a replset. one of local, is covered by
anyResource, its collection name and itself only. -/
theorem covers_system_iff {p : ResourcePattern} {ns : NamespaceString}
    (hn : ns.isNormalCollection = false) (hb : ∀ x, x ≠ "" → ns.coll ≠ SYSTEM_BUCKETS_PREFIX ++ x) :
    Covers p (.exactNamespace ns) ↔
      p = .anyResource ∨ p = .collectionName ns.coll ∨ p = .exactNamespace ns := by
  have hnb : ∀ db coll, coll ≠ "" → ns ≠ ⟨db, SYSTEM_BUCKETS_PREFIX ++ coll⟩ := by
    rintro db coll hc rfl
    exact hb coll hc rfl
  unfold Covers
  cases p <;> simp [Matches, bucketsNs, hn] <;> grind

/-- Every other target is covered by anyResource and itself only. -/
theorem covers_other_iff {p target : ResourcePattern}
    (hns : ∀ ns, target ≠ .exactNamespace ns) (hdb : ∀ db, target ≠ .databaseName db) :
    Covers p target ↔ p = .anyResource ∨ p = target := by
  unfold Covers
  cases p <;> simp [Matches, bucketsNs, hns, hdb]

/-! ## The search list -/

theorem buckets_ne_empty (x : String) : SYSTEM_BUCKETS_PREFIX ++ x ≠ "" := by
  intro h
  have hlen := congrArg String.length h
  have hpfx : SYSTEM_BUCKETS_PREFIX.length = 15 := by decide
  rw [String.length_append, hpfx] at hlen
  simp at hlen

theorem forExactSystemBucketsCollection_ok {db x : String}
    (hx : startsWith x SYSTEM_BUCKETS_PREFIX = false) :
    forExactSystemBucketsCollection db x = .ok (.exactSystemBucketsCollection db x) := by
  have hx' : startsWith x "system.buckets." = false := hx
  unfold forExactSystemBucketsCollection
  rw [if_neg (by simp [hx'])]
  rfl

/-- The buckets branch: the search list of db.system.buckets.x for a non-empty x. -/
theorem buildResourceSearchList_buckets {db x : String} (hx : x ≠ "") :
    buildResourceSearchList (bucketsNs db x) =
      (forExactSystemBucketsCollection db x).map fun exact =>
        [.anyResource, exact, .anySystemBuckets, .anySystemBucketsInDatabase db,
          .anySystemBucketsInAnyDatabase x, .collectionName (SYSTEM_BUCKETS_PREFIX ++ x),
          bucketsNs db x] := by
  have hb := (isBuckets_iff (SYSTEM_BUCKETS_PREFIX ++ x)).mpr ⟨x, hx, rfl⟩
  have hn := not_isNormalCollection_buckets db x
  dsimp only [buildResourceSearchList, bucketsNs]
  rw [if_neg (by simp [hn]), if_pos hb, bucketColl_eq]
  cases forExactSystemBucketsCollection db x <;> rfl

/-- On db.system.buckets.system.buckets.x, `forExactSystemBucketsCollection` is asked for the
name system.buckets.x and fails its invariant. -/
theorem buildResourceSearchList_nested (db x : String) :
    buildResourceSearchList (bucketsNs db (SYSTEM_BUCKETS_PREFIX ++ x)) =
      .error .invariantFailure := by
  have hs : startsWith (SYSTEM_BUCKETS_PREFIX ++ x) "system.buckets." = true :=
    startsWith_append _ _
  rw [buildResourceSearchList_buckets (buckets_ne_empty x)]
  unfold forExactSystemBucketsCollection
  rw [if_pos hs]
  rfl

/-- Off the nested buckets targets the search list is built, and it holds exactly the patterns
that cover the target. -/
theorem mem_buildResourceSearchList {target : ResourcePattern} (ht : ¬ NestedBuckets target) :
    ∃ l, buildResourceSearchList target = .ok l ∧ ∀ p, p ∈ l ↔ Covers p target := by
  cases target
  case databaseName db =>
    refine ⟨_, rfl, fun p => ?_⟩
    rw [covers_databaseName_iff, NormalDb]
    by_cases hd : db ≠ "local" ∧ db ≠ "config"
    · simp only [if_pos hd]
      simp [hd.1, hd.2]
    · simp only [hd, and_false, false_or]
      simp
  case exactNamespace ns =>
    by_cases hn : ns.isNormalCollection = true
    · refine ⟨_, by simp only [buildResourceSearchList, hn, if_true]; rfl, fun p => ?_⟩
      rw [covers_normal_iff hn, NormalDb]
      by_cases hd : ns.db ≠ "local" ∧ ns.db ≠ "config"
      · simp only [if_pos hd]
        simp [hd.1, hd.2]
      · simp only [hd, and_false, false_or]
        simp
    by_cases hb : ∃ x, x ≠ "" ∧ ns.coll = SYSTEM_BUCKETS_PREFIX ++ x
    · obtain ⟨x, hx, hcoll⟩ := hb
      obtain ⟨db, coll⟩ := ns
      dsimp only at hcoll
      subst hcoll
      have hnx : startsWith x SYSTEM_BUCKETS_PREFIX = false := by
        cases hs : startsWith x SYSTEM_BUCKETS_PREFIX
        · rfl
        · obtain ⟨y, rfl⟩ := startsWith_iff.mp hs
          exact absurd ⟨db, y, rfl⟩ ht
      change ∃ l, buildResourceSearchList (bucketsNs db x) = .ok l ∧ ∀ p, p ∈ l ↔ Covers p (bucketsNs db x)
      rw [buildResourceSearchList_buckets hx, forExactSystemBucketsCollection_ok hnx]
      refine ⟨_, rfl, fun p => ?_⟩
      rw [covers_buckets_iff hx]
      simp
    · have hb' : ¬ (startsWith ns.coll SYSTEM_BUCKETS_PREFIX = true ∧
          ns.coll.length > SYSTEM_BUCKETS_PREFIX.length) := by
        rwa [isBuckets_iff]
      refine ⟨_, by simp only [buildResourceSearchList, hn, hb', if_false]; rfl, fun p => ?_⟩
      rw [covers_system_iff (by simpa using hn) (fun x hx h => hb ⟨x, hx, h⟩)]
      simp
  all_goals
    refine ⟨_, rfl, fun p => ?_⟩
    rw [covers_other_iff (by simp) (by simp)]
    simp

/-- The search list fits the array of `resourceSearchListCapacity` patterns it is written to,
as the source's `dassert` asks. -/
theorem buildResourceSearchList_length_le {target : ResourcePattern} {l : List ResourcePattern}
    (h : buildResourceSearchList target = .ok l) : l.length ≤ resourceSearchListCapacity := by
  unfold resourceSearchListCapacity
  cases target
  case databaseName db =>
    cases h
    split <;> simp
  case exactNamespace ns =>
    unfold buildResourceSearchList at h
    dsimp only at h
    -- the two normal cases, with and without anyNormalResource, the buckets case and the rest
    split_ifs at h
    · cases h
      simp
    · cases h
      simp
    · cases hf : forExactSystemBucketsCollection ns.db
        (String.ofList (ns.coll.toList.drop SYSTEM_BUCKETS_PREFIX.length)) <;>
        rw [hf] at h <;> cases h
      simp
    · cases h
      simp
  all_goals
    cases h
    simp

end mongo.auth
