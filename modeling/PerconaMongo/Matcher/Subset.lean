-- `expression::isSubsetOf`, with which the planner decides that a query may use an index whose
-- `partialFilterExpression` is `rhs`: the syntactic rules for a comparison and for `$exists`
-- on the right, and the recursion through `$and` and `$or`. The `$exists` rule takes every
-- comparison but one with null for a sign that the field is there, which a comparison with
-- MinKey or MaxKey does not give.
import PerconaMongo.Matcher.Expression

namespace mongo

namespace MatchExpression

open BSONElement

/-- The end of `_isSubsetOf` for two comparisons, once `cmp` compares their data: the
same comparison of equal data, or a bound on the same side that is at least as wide. -/
def subsetByCmp (lhsType rhsType : ComparisonType) (cmp : Int) : Bool :=
  if lhsType == rhsType && cmp == 0 then true
  else
    match rhsType with
    | .LT | .LTE =>
      match lhsType with
      | .LT | .LTE | .EQ => if rhsType == .LTE then cmp ≤ 0 else cmp < 0
      | .GT | .GTE => false
    | .GT | .GTE =>
      match lhsType with
      | .GT | .GTE | .EQ => if rhsType == .GTE then cmp ≥ 0 else cmp > 0
      | .LT | .LTE => false
    | .EQ => false

/-- `_isSubsetOf(const ComparisonMatchExpression*, const ComparisonMatchExpression*)`, with no
collator on either side. -/
def comparisonSubsetOf (lhsType : ComparisonType) (lhsPath : String) (lhsData : BSONElement)
    (rhsType : ComparisonType) (rhsPath : String) (rhsData : BSONElement) : Bool :=
  if lhsPath ≠ rhsPath then false
  else if lhsData.canonicalType ≠ rhsData.canonicalType then false
  -- NaN compares equal only to itself
  else if lhsData.isNaN || rhsData.isNaN then
    supportsEquality lhsType && supportsEquality rhsType && lhsData.isNaN && rhsData.isNaN
  else subsetByCmp lhsType rhsType (compareElements lhsData rhsData)

/-- `_isSubsetOf(const MatchExpression*, const ComparisonMatchExpression*)`: a comparison,
or a `$in` each of whose equalities is. -/
def subsetOfComparison (lhs : MatchExpression) (rhsType : ComparisonType) (rhsPath : String)
    (rhsData : BSONElement) : Bool :=
  if lhs.path ≠ rhsPath then false
  else
    match lhs with
    | comparison t p d => comparisonSubsetOf t p d rhsType rhsPath rhsData
    | matchIn p equalities =>
      equalities.all fun e => comparisonSubsetOf .EQ p e rhsType rhsPath rhsData
    | _ => false

/-- `_isSubsetOf(const MatchExpression*, const ExistsMatchExpression*)`. -/
def subsetOfExists (lhs : MatchExpression) (rhsPath : String) : Bool :=
  match lhs with
  | not child =>
    if child.path ≠ rhsPath then false
    else
      match child with
      | comparison .EQ _ d => d == .null
      | matchIn _ equalities => hasNull equalities
      | _ => false
  | lhs =>
    if lhs.path ≠ rhsPath then false
    else
      match lhs with
      -- a comparison holds the data of a type other than EOO and Undefined
      | comparison _ _ d => d != .null
      | «exists» _ => true
      | matchIn _ equalities => !hasNull equalities
      | _ => false

/-- The rules of `isSubsetOf` for a leaf `rhs`. -/
def leafSubsetOf (lhs : MatchExpression) : MatchExpression → Bool
  | comparison t p d => subsetOfComparison lhs t p d
  | «exists» p => subsetOfExists lhs p
  | _ => false

mutual

/-- `isSubsetOf` for an `rhs` that is not an `$and`, once `lhs` is not equivalent to it: an
`$and` on the left needs one clause inside `rhs`, an `$or` needs every clause inside it. -/
def subsetOfNonAnd (rhs : MatchExpression) : MatchExpression → Bool
  | and children => anySubsetOfNonAnd rhs children
  | or children => allSubsetOfNonAnd rhs children
  | lhs => leafSubsetOf lhs rhs

def anySubsetOfNonAnd (rhs : MatchExpression) : List MatchExpression → Bool
  | [] => false
  | c :: cs => (c.equivalent rhs || subsetOfNonAnd rhs c) || anySubsetOfNonAnd rhs cs

def allSubsetOfNonAnd (rhs : MatchExpression) : List MatchExpression → Bool
  | [] => true
  | c :: cs => (c.equivalent rhs || subsetOfNonAnd rhs c) && allSubsetOfNonAnd rhs cs

end

mutual

/-- `expression::isSubsetOf(lhs, rhs)`: `lhs` is the query, `rhs` the index's filter. An
`$and` on the right needs `lhs` inside each of its clauses. -/
def isSubsetOf (lhs : MatchExpression) : MatchExpression → Bool
  | and children => lhs.equivalent (and children) || isSubsetOfAll lhs children
  | rhs => lhs.equivalent rhs || subsetOfNonAnd rhs lhs

def isSubsetOfAll (lhs : MatchExpression) : List MatchExpression → Bool
  | [] => true
  | c :: cs => isSubsetOf lhs c && isSubsetOfAll lhs cs

end

end MatchExpression

end mongo
