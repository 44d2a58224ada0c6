-- `MatchExpression::optimize` over trees of `$and`, `$or`, `$nor`, `$not` and
-- `$_internalSchemaXor` with equality, comparison, `$regex` and `$in` leaves and `$alwaysTrue`
-- and `$alwaysFalse`. A list node optimises its children, absorbs nested nodes of its kind,
-- drops neutral children, collapses single children and short-circuits, and then an `$or`
-- with at least two equalities on one path and under one collator becomes an `$in` with a
-- residual `$or`. Each `tassert` is an error of the result. The two passes of that rewrite
-- sort a `$regex` on the path differently once the equalities carry a collator: the first
-- counts it with the residual clauses and the second moves it into the `$in`.
import PerconaMongo.Matcher.Expression

namespace mongo

/-- A collator: its address, which the optimizer compares, and its string comparison. -/
structure Collator where
  id : Nat
  compare : String → String → Int

/-- The operand of a comparison: an element, or a regular expression, which `$eq` may hold and
which `$in` does not accept among its equalities. -/
inductive MatchData
  | element (e : BSONElement)
  | regex (regex flags : String)
  deriving DecidableEq, Repr

def MatchData.isRegEx : MatchData → Bool
  | regex _ _ => true
  | element _ => false

/-- The kinds of `ListOfMatchExpression`. -/
inductive ListKind
  | and
  | or
  | nor
  | internalSchemaXor
  deriving DecidableEq, Repr

/-- A match expression as the optimizer sees it. -/
inductive MatchTree
  | comparison (matchType : ComparisonType) (path : String) (data : MatchData)
      (collator : Option Collator)
  | regex (path : String) (regex flags : String)
  | matchIn (path : String) (equalitySet : List BSONElement) (regexes : List (String × String))
      (collator : Option Collator)
  | alwaysTrue
  | alwaysFalse
  | list (kind : ListKind) (children : List MatchTree)
  | not (child : MatchTree)

/-- What stops `optimize`: a failed `tassert` with its code, or a call through the null
residual `$or`. -/
inductive OptimizeError
  | tassert (code : Nat)
  | nullDereference
  deriving DecidableEq, Repr

namespace MatchTree

/-- `path()`: the path of a leaf, empty for a logical node. -/
def path : MatchTree → String
  | comparison _ p _ _ | regex p _ _ | matchIn p _ _ _ => p
  | alwaysTrue | alwaysFalse | list _ _ | not _ => ""

/-- An `$and` without children, or `$alwaysTrue`. -/
def isTriviallyTrue : MatchTree → Bool
  | alwaysTrue => true
  | list .and [] => true
  | _ => false

/-- An `$or` without children, or `$alwaysFalse`. -/
def isTriviallyFalse : MatchTree → Bool
  | alwaysFalse => true
  | list .or [] => true
  | _ => false

/-- The element comparator of an `$in` under a collator: strings by the collator, the rest as
`woCompare`. -/
def compareUnder (collator : Option Collator) (a b : BSONElement) : Int :=
  match collator, a, b with
  | some c, .string s, .string t => c.compare s t
  | _, _, _ => BSONElement.woCompare a b

/-- One element of each run of equal elements, as `std::unique_copy`. -/
def uniqueCopy (eq : BSONElement → BSONElement → Bool) : List BSONElement → List BSONElement
  | [] => []
  | [a] => [a]
  | a :: b :: rest => if eq a b then uniqueCopy eq (a :: rest) else a :: uniqueCopy eq (b :: rest)

/-- `InMatchExpression::setEqualities` and then `setCollator`: the equalities sorted and
deduplicated under the collator. A regex or undefined equality is refused; the model's
elements hold no regex, so only undefined is. -/
def setEqualities (collator : Option Collator) (equalities : List BSONElement) :
    Except String (List BSONElement) :=
  if equalities.any (· == .undefined) then .error "InMatchExpression equality cannot be undefined"
  else
    let sorted := equalities.mergeSort fun a b => compareUnder collator a b ≤ 0
    .ok (uniqueCopy (fun a b => compareUnder collator a b == 0) sorted)

/-- `InMatchExpression::getOptimizer`: an `$in` of one regex is that `$regex`, an `$in` of one
equality is that equality. -/
def optimizeIn (p : String) (equalitySet : List BSONElement) (regexes : List (String × String))
    (collator : Option Collator) : MatchTree :=
  match equalitySet, regexes with
  | [], [(r, f)] => regex p r f
  | [e], [] => comparison .EQ p (.element e) collator
  | _, _ => matchIn p equalitySet regexes collator

/-- The counts and the path and collator that the first pass of the `$or` rewrite keeps. -/
structure OrClassification where
  countEquivEqPaths : Nat
  countNonEquivExpr : Nat
  childPath : Option String
  eqCollator : Option Collator

/-- The first pass for an equality or a regex on path `p` under collator `cur`: the first one
fixes the path and the collator, the later ones count when they share both. -/
def classifyEquality (s : OrClassification) (p : String) (cur : Option Collator) :
    OrClassification :=
  match s.childPath with
  | none => { s with childPath := some p, eqCollator := cur, countEquivEqPaths := 1 }
  | some q =>
    if q = p ∧ s.eqCollator.map (·.id) = cur.map (·.id) then
      { s with countEquivEqPaths := s.countEquivEqPaths + 1 }
    else { s with countNonEquivExpr := s.countNonEquivExpr + 1 }

/-- The first pass over one child: an equality whose data is not a regex, or a `$regex` (whose
collator is taken as null), is an equality with `$in` semantics; every other child is not. -/
def classifyChild (s : OrClassification) : MatchTree → OrClassification
  | comparison .EQ p d c =>
    if d.isRegEx then { s with countNonEquivExpr := s.countNonEquivExpr + 1 }
    else classifyEquality s p c
  | regex p _ _ => classifyEquality s p none
  | _ => { s with countNonEquivExpr := s.countNonEquivExpr + 1 }

def classify (children : List MatchTree) : OrClassification :=
  children.foldl classifyChild ⟨0, 0, none, none⟩

/-- The parts that the second pass builds: the equalities of the `$in`, its regexes, and the
residual clauses. -/
structure OrParts where
  equalities : List BSONElement
  regexes : List (String × String)
  residual : List MatchTree

/-- The second pass over one child: off the path it is residual; on it, an equality under the
first equality's collator goes to the `$in` and every `$regex` goes to the `$in`. -/
def partitionChild (childPath : String) (eqCollator : Option Collator) (s : OrParts)
    (child : MatchTree) : OrParts :=
  if childPath ≠ child.path then { s with residual := s.residual ++ [child] }
  else
    match child with
    | comparison .EQ _ d c =>
      match d with
      | .element e =>
        if c.map (·.id) ≠ eqCollator.map (·.id) then { s with residual := s.residual ++ [child] }
        else { s with equalities := s.equalities ++ [e] }
      | .regex _ _ => { s with residual := s.residual ++ [child] }
    | regex _ r f => { s with regexes := s.regexes ++ [(r, f)] }
    | _ => { s with residual := s.residual ++ [child] }

def partition (childPath : String) (eqCollator : Option Collator) (children : List MatchTree) :
    OrParts :=
  children.foldl (partitionChild childPath eqCollator) ⟨[], [], []⟩

/-- The rewrite of an `$or` of at least two children into an `$in` and a residual `$or`, with
the `tassert`s of the source. The residual `$or` exists only when the first pass counted a
residual clause. -/
def rewriteOrToIn (children : List MatchTree) : Except OptimizeError MatchTree :=
  let s := classify children
  if s.countEquivEqPaths + s.countNonEquivExpr ≠ children.length then .error (.tassert 3401201)
  else if s.countEquivEqPaths ≤ 1 then .ok (list .or children)
  else
    match s.childPath with
    | none => .error (.tassert 3401202)
    | some childPath =>
      let parts := partition childPath s.eqCollator children
      if s.countNonEquivExpr = 0 ∧ parts.residual ≠ [] then .error .nullDereference
      else if 0 < s.countNonEquivExpr ∧ parts.residual.length ≠ s.countNonEquivExpr then
        .error (.tassert 3401204)
      else if parts.equalities.length + parts.regexes.length ≠ s.countEquivEqPaths then
        .error (.tassert 3401205)
      else
        match setEqualities s.eqCollator parts.equalities with
        | .error _ => .error (.tassert 3401206)
        | .ok equalitySet =>
          let inExpression := matchIn childPath equalitySet parts.regexes s.eqCollator
          match parts.residual with
          | [] => .ok inExpression
          | [child] => .ok (list .or [inExpression, child])
          | residual => .ok (list .or [inExpression, list .or residual])

/-- An `$and` takes the children of its `$and` children, an `$or` those of its `$or` children,
after the others. -/
def absorb (kind : ListKind) (children : List MatchTree) : List MatchTree :=
  let isKind : MatchTree → Bool := fun
    | list k _ => k == kind
    | _ => false
  children.filter (fun c => !isKind c) ++
    (children.filter isKind).flatMap fun
      | list _ cs => cs
      | _ => []

/-- `ListOfMatchExpression::getOptimizer` once the children are optimised. -/
def optimizeListOf (kind : ListKind) (children : List MatchTree) :
    Except OptimizeError MatchTree :=
  let andOr := kind == .and || kind == .or
  let children := if andOr then absorb kind children else children
  -- an $and drops its true children and an $or its false ones
  let children :=
    if andOr then
      children.filter fun c =>
        !((c.isTriviallyTrue && kind == .and) || (c.isTriviallyFalse && kind == .or))
    else children
  if children.isEmpty ∧ kind = .or then .ok alwaysFalse
  else
    match children with
    | [child] =>
      if kind = .nor then .ok (not child)
      else .ok child
    | _ =>
      if kind = .and ∧ children.any isTriviallyFalse then .ok alwaysFalse
      else if kind = .or ∧ children.any isTriviallyTrue then .ok alwaysTrue
      else if kind = .or ∧ 1 < children.length then rewriteOrToIn children
      else .ok (list kind children)

mutual

/-- `MatchExpression::optimize`. -/
def optimize : MatchTree → Except OptimizeError MatchTree
  | list kind children => do
    let children ← optimizeAll children
    optimizeListOf kind children
  | not child => do
    let child ← optimize child
    return not child
  | matchIn p equalitySet regexes collator => .ok (optimizeIn p equalitySet regexes collator)
  | e => .ok e

def optimizeAll : List MatchTree → Except OptimizeError (List MatchTree)
  | [] => .ok []
  | c :: cs => do
    let c ← optimize c
    let cs ← optimizeAll cs
    return c :: cs

end

/-! ## The two passes of the `$or` rewrite -/

/-- A child that can fix the path and the collator of the first pass: an equality whose data
is not a regex, or a `$regex`. -/
def isEqualityLike : MatchTree → Bool
  | comparison .EQ _ d _ => !d.isRegEx
  | regex _ _ _ => true
  | _ => false

/-- The collator that such a child gives the first pass: a `$regex` gives none. -/
def firstCollator : MatchTree → Option Collator
  | comparison _ _ _ c => c
  | _ => none

/-- A child that the first pass counts with the `$in`, once it has fixed path `p` and collator
`coll`. -/
def countsEquiv (p : String) (coll : Option Collator) : MatchTree → Bool
  | comparison .EQ q d c => !d.isRegEx && p == q && coll.map (·.id) == c.map (·.id)
  | regex q _ _ => p == q && coll.isNone
  | _ => false

/-- A `$regex` on path `p`. -/
def isRegexOn (p : String) : MatchTree → Bool
  | regex q _ _ => p == q
  | _ => false

/-- A child that the second pass moves into the `$in`: what the first pass counted there, and
also every `$regex` on the path. -/
def goesIn (p : String) (coll : Option Collator) (c : MatchTree) : Bool :=
  countsEquiv p coll c || (isRegexOn p c && coll.isSome)

theorem classifyChild_of_not_equalityLike {s : OrClassification} {c : MatchTree}
    (hc : isEqualityLike c = false) :
    classifyChild s c = { s with countNonEquivExpr := s.countNonEquivExpr + 1 } := by
  cases c with
  | comparison t q d col =>
    cases t <;> simp only [classifyChild]
    -- only an equality with regex data is left
    simp only [isEqualityLike, Bool.not_eq_false'] at hc
    simp [hc]
  | regex => simp [isEqualityLike] at hc
  | _ => rfl

theorem classifyChild_first {s : OrClassification} {c : MatchTree} (hs : s.childPath = none)
    (hc : isEqualityLike c = true) :
    classifyChild s c =
      { s with childPath := some c.path, eqCollator := firstCollator c, countEquivEqPaths := 1 } := by
  cases c with
  | comparison t q d col =>
    cases t <;> simp only [isEqualityLike, reduceCtorEq] at hc
    simp only [Bool.not_eq_true'] at hc
    simp [classifyChild, hc, classifyEquality, hs, path, firstCollator]
  | regex => simp [classifyChild, classifyEquality, hs, path, firstCollator]
  | _ => simp [isEqualityLike] at hc

/-- Once the path and the collator are fixed, a child adds one to one of the two counts. -/
theorem classifyChild_fixed {s : OrClassification} {p : String} (hs : s.childPath = some p)
    (c : MatchTree) :
    classifyChild s c =
      if countsEquiv p s.eqCollator c then { s with countEquivEqPaths := s.countEquivEqPaths + 1 }
      else { s with countNonEquivExpr := s.countNonEquivExpr + 1 } := by
  cases c with
  | comparison t q d col =>
    cases t
    case EQ =>
      cases d <;> simp [classifyChild, countsEquiv, MatchData.isRegEx, classifyEquality, hs]
    all_goals simp [classifyChild, countsEquiv]
  | regex q r f =>
    cases h : s.eqCollator <;> simp [classifyChild, classifyEquality, hs, countsEquiv, h]
  | _ => rfl

theorem foldl_classifyChild_leading (pre : List MatchTree) (s : OrClassification)
    (hpre : ∀ x ∈ pre, isEqualityLike x = false) :
    pre.foldl classifyChild s = { s with countNonEquivExpr := s.countNonEquivExpr + pre.length } := by
  induction pre generalizing s with
  | nil => rfl
  | cons x xs ih =>
    rw [List.foldl_cons, classifyChild_of_not_equalityLike (hpre x (by simp)),
      ih _ fun y hy => hpre y (by simp [hy])]
    simp only [List.length_cons]
    congr 1
    omega

theorem foldl_classifyChild_fixed (post : List MatchTree) (s : OrClassification) {p : String}
    (hs : s.childPath = some p) :
    post.foldl classifyChild s =
      { s with
        countEquivEqPaths := s.countEquivEqPaths + post.countP (countsEquiv p s.eqCollator)
        countNonEquivExpr :=
          s.countNonEquivExpr + post.countP (fun x => !countsEquiv p s.eqCollator x) } := by
  induction post generalizing s with
  | nil => rfl
  | cons x xs ih =>
    rw [List.foldl_cons, classifyChild_fixed hs]
    split_ifs with hx
    · rw [ih { s with countEquivEqPaths := s.countEquivEqPaths + 1 } hs]
      simp only [List.countP_cons, hx, if_true, Bool.not_true, Bool.false_eq_true, if_false]
      congr 1
      omega
    · rw [ih { s with countNonEquivExpr := s.countNonEquivExpr + 1 } hs]
      simp only [List.countP_cons, hx, if_true, Bool.not_false, Bool.false_eq_true, if_false]
      congr 1
      omega

/-- The second pass sends a child to the residual clauses or to the `$in`, as `goesIn` says. -/
theorem partitionChild_lengths (p : String) (coll : Option Collator) (s : OrParts)
    (c : MatchTree) :
    (partitionChild p coll s c).residual.length =
        s.residual.length + (if goesIn p coll c then 0 else 1) ∧
      (partitionChild p coll s c).equalities.length + (partitionChild p coll s c).regexes.length =
        s.equalities.length + s.regexes.length + (if goesIn p coll c then 1 else 0) := by
  by_cases hp : p = c.path
  case neg =>
    -- off the path nothing goes in
    have hg : goesIn p coll c = false := by
      cases c with
      | comparison t q d col =>
        simp only [path] at hp
        cases t <;> simp [goesIn, countsEquiv, isRegexOn, hp]
      | regex q r f =>
        simp only [path] at hp
        simp [goesIn, countsEquiv, isRegexOn, hp]
      | _ => simp [goesIn, countsEquiv, isRegexOn]
    simp [partitionChild, hp, hg]
  case pos =>
    cases c with
    | comparison t q d col =>
      simp only [path] at hp
      subst hp
      cases t
      case EQ =>
        cases d with
        | element e =>
          by_cases hc : col.map (·.id) = coll.map (·.id)
          · simp [partitionChild, path, goesIn, countsEquiv, MatchData.isRegEx, hc]
            omega
          · have hc' : ¬ coll.map (·.id) = col.map (·.id) := fun h => hc h.symm
            simp [partitionChild, path, goesIn, countsEquiv, MatchData.isRegEx, hc, hc',
              isRegexOn]
        | regex r f => simp [partitionChild, path, goesIn, countsEquiv, MatchData.isRegEx, isRegexOn]
      all_goals simp [partitionChild, path, goesIn, countsEquiv, isRegexOn]
    | regex q r f =>
      simp only [path] at hp
      subst hp
      cases coll <;> simp [partitionChild, path, goesIn, countsEquiv, isRegexOn] <;> omega
    | _ => simp [partitionChild, goesIn, countsEquiv, isRegexOn]

theorem foldl_partitionChild_lengths (p : String) (coll : Option Collator) (cs : List MatchTree)
    (s : OrParts) :
    (cs.foldl (partitionChild p coll) s).residual.length =
        s.residual.length + cs.countP (fun x => !goesIn p coll x) ∧
      (cs.foldl (partitionChild p coll) s).equalities.length +
          (cs.foldl (partitionChild p coll) s).regexes.length =
        s.equalities.length + s.regexes.length + cs.countP (goesIn p coll) := by
  induction cs generalizing s with
  | nil => simp
  | cons x xs ih =>
    obtain ⟨h₁, h₂⟩ := partitionChild_lengths p coll s x
    obtain ⟨ih₁, ih₂⟩ := ih (partitionChild p coll s x)
    rw [List.foldl_cons, ih₁, ih₂, h₁, h₂]
    simp only [List.countP_cons]
    split_ifs <;> simp_all <;> omega

theorem goesIn_of_not_equalityLike {p : String} {coll : Option Collator} {x : MatchTree}
    (hx : isEqualityLike x = false) : goesIn p coll x = false := by
  cases x with
  | comparison t q d c =>
    cases t <;> simp_all [isEqualityLike, goesIn, countsEquiv, isRegexOn]
  | regex => simp [isEqualityLike] at hx
  | _ => rfl

/-- The child that fixes the path and the collator counts with the `$in` under them. -/
theorem countsEquiv_first {c : MatchTree} (hc : isEqualityLike c = true) :
    countsEquiv c.path (firstCollator c) c = true := by
  cases c with
  | comparison t q d col =>
    cases t <;> simp_all [isEqualityLike, countsEquiv, path, firstCollator]
  | regex => simp [countsEquiv, path, firstCollator]
  | _ => simp [isEqualityLike] at hc

/-- A child counted with the `$in` is not a `$regex` under a collator. -/
theorem countsEquiv_exclusive {p : String} {coll : Option Collator} {x : MatchTree}
    (hx : countsEquiv p coll x = true) : (isRegexOn p x && coll.isSome) = false := by
  cases x with
  | regex q r f =>
    simp only [countsEquiv, Bool.and_eq_true, Option.isNone_iff_eq_none] at hx
    simp [hx.2]
  | _ => simp [isRegexOn]

theorem countP_goesIn (p : String) (coll : Option Collator) (cs : List MatchTree) :
    cs.countP (goesIn p coll) =
      cs.countP (countsEquiv p coll) + cs.countP (fun x => isRegexOn p x && coll.isSome) := by
  induction cs with
  | nil => rfl
  | cons x xs ih =>
    simp only [List.countP_cons, ih]
    by_cases hx : countsEquiv p coll x = true
    · simp [goesIn, hx, countsEquiv_exclusive hx]
      omega
    · simp only [Bool.not_eq_true] at hx
      cases hr : (isRegexOn p x && coll.isSome) <;> simp [goesIn, hx, hr]
      omega

theorem countP_not_countsEquiv (p : String) (coll : Option Collator) (cs : List MatchTree) :
    cs.countP (fun x => !countsEquiv p coll x) =
      cs.countP (fun x => !goesIn p coll x) +
        cs.countP (fun x => isRegexOn p x && coll.isSome) := by
  induction cs with
  | nil => rfl
  | cons x xs ih =>
    simp only [List.countP_cons, ih]
    by_cases hx : countsEquiv p coll x = true
    · simp [goesIn, hx, countsEquiv_exclusive hx]
    · simp only [Bool.not_eq_true] at hx
      cases hr : (isRegexOn p x && coll.isSome) <;> simp [goesIn, hx, hr] <;> omega

/-- A list with an equality-like child splits at the first one. -/
theorem exists_first_equalityLike {cs : List MatchTree} (h : ∃ x ∈ cs, isEqualityLike x = true) :
    ∃ pre c post, cs = pre ++ c :: post ∧ (∀ x ∈ pre, isEqualityLike x = false) ∧
      isEqualityLike c = true := by
  induction cs with
  | nil => simp at h
  | cons x xs ih =>
    cases hx : isEqualityLike x
    · obtain ⟨y, hy, hyl⟩ := h
      have hyx : y ∈ xs := by
        rcases List.mem_cons.mp hy with rfl | hy
        · simp [hx] at hyl
        · exact hy
      obtain ⟨pre, c, post, rfl, hpre, hc⟩ := ih ⟨y, hyx, hyl⟩
      refine ⟨x :: pre, c, post, rfl, ?_, hc⟩
      intro z hz
      rcases List.mem_cons.mp hz with rfl | hz
      · exact hx
      · exact hpre z hz
    · exact ⟨[], x, xs, rfl, by simp, hx⟩

theorem classify_of_none {cs : List MatchTree} (h : ∀ x ∈ cs, isEqualityLike x = false) :
    classify cs = ⟨0, cs.length, none, none⟩ := by
  unfold classify
  rw [foldl_classifyChild_leading cs _ h]
  simp

/-- The first pass: the children before the first equality are residual, that one fixes the
path and the collator, and the later ones count by `countsEquiv`. -/
theorem classify_of_first {pre post : List MatchTree} {c : MatchTree}
    (hpre : ∀ x ∈ pre, isEqualityLike x = false) (hc : isEqualityLike c = true) :
    classify (pre ++ c :: post) =
      ⟨1 + post.countP (countsEquiv c.path (firstCollator c)),
        pre.length + post.countP (fun x => !countsEquiv c.path (firstCollator c) x),
        some c.path, firstCollator c⟩ := by
  unfold classify
  rw [List.foldl_append, foldl_classifyChild_leading pre _ hpre, List.foldl_cons,
    classifyChild_first rfl hc, foldl_classifyChild_fixed post _ rfl]
  simp

/-- The second pass over the same children: the residual clauses are those before the first
equality and the later ones that do not go in. -/
theorem partition_of_first {pre : List MatchTree} (post : List MatchTree) {c : MatchTree}
    (hpre : ∀ x ∈ pre, isEqualityLike x = false) (hc : isEqualityLike c = true) :
    (partition c.path (firstCollator c) (pre ++ c :: post)).residual.length =
        pre.length + post.countP (fun x => !goesIn c.path (firstCollator c) x) ∧
      (partition c.path (firstCollator c) (pre ++ c :: post)).equalities.length +
          (partition c.path (firstCollator c) (pre ++ c :: post)).regexes.length =
        1 + post.countP (goesIn c.path (firstCollator c)) := by
  obtain ⟨h₁, h₂⟩ := foldl_partitionChild_lengths c.path (firstCollator c) (pre ++ c :: post)
    ⟨[], [], []⟩
  have hin : goesIn c.path (firstCollator c) c = true := by
    simp [goesIn, countsEquiv_first hc]
  have hpre' : pre.countP (fun x => !goesIn c.path (firstCollator c) x) = pre.length :=
    List.countP_eq_length.mpr fun x hx => by simp [goesIn_of_not_equalityLike (hpre x hx)]
  have hpre'' : pre.countP (goesIn c.path (firstCollator c)) = 0 :=
    List.countP_eq_zero.mpr fun x hx => by simp [goesIn_of_not_equalityLike (hpre x hx)]
  unfold partition
  rw [List.countP_append, List.countP_cons, hpre', hin] at h₁
  rw [List.countP_append, List.countP_cons, hpre'', if_pos hin] at h₂
  simp only [List.length_nil, Bool.not_true, Bool.false_eq_true, if_false] at h₁ h₂
  constructor <;> omega

/-- Every child adds one to one of the two counts of the first pass. -/
theorem classify_counts (cs : List MatchTree) :
    (classify cs).countEquivEqPaths + (classify cs).countNonEquivExpr = cs.length := by
  by_cases h : ∃ x ∈ cs, isEqualityLike x = true
  case neg =>
    simp only [not_exists, not_and, Bool.not_eq_true] at h
    simp [classify_of_none h]
  case pos =>
    obtain ⟨pre, c, post, rfl, hpre, hc⟩ := exists_first_equalityLike h
    have hlen := List.length_eq_countP_add_countP (countsEquiv c.path (firstCollator c)) (l := post)
    simp only [Bool.not_eq_true, Bool.decide_eq_false] at hlen
    simp only [classify_of_first hpre hc, List.length_append, List.length_cons]
    omega

theorem exists_equalityLike_of_childPath {cs : List MatchTree} {p : String}
    (h : (classify cs).childPath = some p) : ∃ x ∈ cs, isEqualityLike x = true := by
  by_contra hn
  simp only [not_exists, not_and, Bool.not_eq_true] at hn
  simp [classify_of_none hn] at h

/-- The two passes disagree by the `$regex`es on the path under a collator after the first
equality: the first counts them with the residual clauses, the second moves them into the
`$in`. -/
theorem passes_differ {pre : List MatchTree} (post : List MatchTree) {c : MatchTree}
    (hpre : ∀ x ∈ pre, isEqualityLike x = false) (hc : isEqualityLike c = true) :
    (classify (pre ++ c :: post)).countNonEquivExpr =
        (partition c.path (firstCollator c) (pre ++ c :: post)).residual.length +
          post.countP (fun x => isRegexOn c.path x && (firstCollator c).isSome) ∧
      (partition c.path (firstCollator c) (pre ++ c :: post)).equalities.length +
          (partition c.path (firstCollator c) (pre ++ c :: post)).regexes.length =
        (classify (pre ++ c :: post)).countEquivEqPaths +
          post.countP (fun x => isRegexOn c.path x && (firstCollator c).isSome) := by
  obtain ⟨hres, hins⟩ := partition_of_first post hpre hc
  rw [hres, hins, classify_of_first hpre hc]
  simp only
  rw [countP_not_countsEquiv, countP_goesIn]
  constructor <;> omega

/-- Under a collator, a `$regex` on the path of the equalities makes the rewrite fail its
`tassert` 3401204, whatever the other children are. -/
theorem rewriteOrToIn_regex_under_collator {cs : List MatchTree} {p r f : String}
    {k : Collator} (hp : (classify cs).childPath = some p)
    (hcol : (classify cs).eqCollator = some k) (hce : 1 < (classify cs).countEquivEqPaths)
    (hr : regex p r f ∈ cs) :
    rewriteOrToIn cs = .error (.tassert 3401204) := by
  obtain ⟨pre, c, post, rfl, hpre, hc⟩ :=
    exists_first_equalityLike (exists_equalityLike_of_childPath hp)
  obtain ⟨hres, -⟩ := passes_differ post hpre hc
  have hpc : c.path = p := by simpa [classify_of_first hpre hc] using hp
  have hcc : firstCollator c = some k := by simpa [classify_of_first hpre hc] using hcol
  -- the regex is not before the first equality, and it is not that one, which fixes no collator
  have hpost : regex p r f ∈ post := by
    rcases List.mem_append.mp hr with hr | hr
    · simpa [isEqualityLike] using hpre _ hr
    · rcases List.mem_cons.mp hr with rfl | hr
      · simp [firstCollator] at hcc
      · exact hr
  have hpos : 0 < post.countP (fun x => isRegexOn c.path x && (firstCollator c).isSome) :=
    List.countP_pos_iff.mpr ⟨_, hpost, by simp [isRegexOn, hpc, hcc]⟩
  rw [hpc, hcc, ← hcol] at hres hpos
  simp only [rewriteOrToIn, classify_counts, ne_eq, not_true_eq_false, if_false,
    Nat.not_le.mpr hce, hp]
  rw [if_neg (by omega), if_pos (by omega)]

/-- The rewrite fails only two of its `tassert`s: 3401204, where the two passes disagree, and
3401206, where `$in` refuses an equality. The count check, the path check, the null residual
and the size check of the `$in` never fire. -/
theorem rewriteOrToIn_error {cs : List MatchTree} {e : OptimizeError}
    (h : rewriteOrToIn cs = .error e) : e = .tassert 3401204 ∨ e = .tassert 3401206 := by
  by_cases hx : ∃ x ∈ cs, isEqualityLike x = true
  case neg =>
    simp only [not_exists, not_and, Bool.not_eq_true] at hx
    simp [rewriteOrToIn, classify_of_none hx] at h
  case pos =>
    obtain ⟨pre, c, post, rfl, hpre, hc⟩ := exists_first_equalityLike hx
    obtain ⟨hres, hins⟩ := passes_differ post hpre hc
    have hp : (classify (pre ++ c :: post)).childPath = some c.path := by
      rw [classify_of_first hpre hc]
    have hcol : (classify (pre ++ c :: post)).eqCollator = firstCollator c := by
      rw [classify_of_first hpre hc]
    simp only [rewriteOrToIn, classify_counts, ne_eq, not_true_eq_false, if_false, hp,
      hcol] at h
    split_ifs at h with hce hnull h04 h05
    · -- no residual clause was counted, so none was built
      obtain ⟨hcn, hne⟩ := hnull
      exact absurd (List.eq_nil_of_length_eq_zero (by omega)) hne
    · exact .inl (Except.error.inj h).symm
    · split at h
      · exact .inr (Except.error.inj h).symm
      · split at h <;> cases h
    · -- the residual sizes agree, so no regex was moved and the `$in` has its count
      exfalso
      simp only [not_and, Decidable.not_not] at h04
      by_cases hcn : (classify (pre ++ c :: post)).countNonEquivExpr = 0
      · omega
      · have := h04 (Nat.pos_of_ne_zero hcn)
        omega

/-! ## `$or` nodes over leaves -/

/-- A comparison or a `$regex`: a leaf that `optimize` keeps as it is and that no list node
absorbs or drops. -/
def isPlainLeaf : MatchTree → Bool
  | comparison _ _ _ _ | regex _ _ _ => true
  | _ => false

/-- A plain leaf is a comparison or a `$regex`. -/
theorem isPlainLeaf_cases {x : MatchTree} (h : isPlainLeaf x = true) :
    (∃ t p d k, x = comparison t p d k) ∨ ∃ p r f, x = regex p r f := by
  cases x with
  | comparison t p d k => exact .inl ⟨t, p, d, k, rfl⟩
  | regex p r f => exact .inr ⟨p, r, f, rfl⟩
  | _ => simp [isPlainLeaf] at h

theorem optimizeAll_of_plainLeaves {cs : List MatchTree} (h : ∀ x ∈ cs, isPlainLeaf x = true) :
    optimizeAll cs = .ok cs := by
  induction cs with
  | nil => rfl
  | cons x xs ih =>
    obtain ⟨hx, hxs⟩ := List.forall_mem_cons.mp h
    have hopt : optimize x = .ok x := by
      rcases isPlainLeaf_cases hx with ⟨t, p, d, k, rfl⟩ | ⟨p, r, f, rfl⟩ <;> rfl
    rw [optimizeAll, hopt, ih hxs]
    rfl

/-- A node whose children are leaves absorbs nothing. -/
theorem absorb_of_plainLeaves (kind : ListKind) {cs : List MatchTree}
    (h : ∀ x ∈ cs, isPlainLeaf x = true) : absorb kind cs = cs := by
  -- no leaf is a list node of the kind, so the first filter keeps all and the second none
  unfold absorb
  dsimp only
  rw [List.filter_eq_self.mpr fun x hx => ?keep, List.filter_eq_nil_iff.mpr fun x hx => ?drop,
    List.flatMap_nil, List.append_nil]
  case keep =>
    rcases isPlainLeaf_cases (h x hx) with ⟨t, p, d, k, rfl⟩ | ⟨p, r, f, rfl⟩ <;> rfl
  case drop =>
    rcases isPlainLeaf_cases (h x hx) with ⟨t, p, d, k, rfl⟩ | ⟨p, r, f, rfl⟩ <;> simp

/-- A leaf is neither trivially true nor trivially false, so no list node drops it. -/
theorem filter_trivial_of_plainLeaves (kind : ListKind) {cs : List MatchTree}
    (h : ∀ x ∈ cs, isPlainLeaf x = true) :
    cs.filter (fun c => !((c.isTriviallyTrue && kind == .and) ||
      (c.isTriviallyFalse && kind == .or))) = cs := by
  refine List.filter_eq_self.mpr fun x hx => ?_
  rcases isPlainLeaf_cases (h x hx) with ⟨t, p, d, k, rfl⟩ | ⟨p, r, f, rfl⟩ <;> rfl

/-- An `$or` of at least two leaves goes straight to the rewrite into an `$in`. -/
theorem optimize_or_of_plainLeaves {cs : List MatchTree} (h : ∀ x ∈ cs, isPlainLeaf x = true)
    (hlen : 1 < cs.length) : optimize (list .or cs) = rewriteOrToIn cs := by
  have hnotTrue : cs.any isTriviallyTrue = false := by
    refine List.any_eq_false.mpr fun x hx => ?_
    rcases isPlainLeaf_cases (h x hx) with ⟨t, p, d, k, rfl⟩ | ⟨p, r, f, rfl⟩ <;> simp [isTriviallyTrue]
  obtain ⟨a, b, rest, rfl⟩ : ∃ a b rest, cs = a :: b :: rest := by
    rcases cs with _ | ⟨a, _ | ⟨b, rest⟩⟩ <;> simp_all
  simp only [optimize, optimizeAll_of_plainLeaves h, bind, Except.bind, optimizeListOf,
    absorb_of_plainLeaves .or h, ite_self, filter_trivial_of_plainLeaves .or h]
  simp [hnotTrue]

/-- An `$or` of two equalities on one path under a collator and a `$regex` on that path does
not optimise: the first pass counts the regex with the residual clauses, as its collator is
not the equalities', the second moves it into the `$in`, and the residual `$or` then has fewer
children than counted. So it goes for every list of children whose first pass fixes a collator
and that holds a `$regex` on the path; no `tassert` but 3401204 and 3401206 ever fails. -/
theorem optimize_or_collated_equalities_regex (c : Collator) :
    optimize (list .or [comparison .EQ "a" (.element (.string "x")) (some c),
      comparison .EQ "a" (.element (.string "y")) (some c), regex "a" "z" ""]) =
      .error (.tassert 3401204) ∧
    (∀ (cs : List MatchTree) (p r f : String) (k : Collator),
      (classify cs).childPath = some p → (classify cs).eqCollator = some k →
      1 < (classify cs).countEquivEqPaths → regex p r f ∈ cs →
      rewriteOrToIn cs = .error (.tassert 3401204)) ∧
    ∀ (cs : List MatchTree) (e : OptimizeError),
      rewriteOrToIn cs = .error e → e = .tassert 3401204 ∨ e = .tassert 3401206 := by
  refine ⟨?_, fun _ _ _ _ _ hp hcol hce hr => rewriteOrToIn_regex_under_collator hp hcol hce hr,
    fun _ _ h => rewriteOrToIn_error h⟩
  rw [optimize_or_of_plainLeaves (by simp [isPlainLeaf]) (by simp)]
  -- the first pass fixes path "a" and the collator, and counts the second equality with them
  apply rewriteOrToIn_regex_under_collator (p := "a") (r := "z") (f := "") (k := c)
  all_goals simp [classify, classifyChild, classifyEquality, MatchData.isRegEx]

end MatchTree

end mongo
