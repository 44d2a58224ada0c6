-- Match expressions over one level of fields: the comparisons `$eq`, `$lt`, `$lte`, `$gt`,
-- `$gte`, `$exists`, `$in` without regexes, `$not`, `$and` and `$or`, with the matching of
-- `ComparisonMatchExpression::matchesSingleElement` and the others, and `equivalent`. A field
-- that a document lacks reaches a leaf as the `EOO` element.
import PerconaMongo.Bson.Element

namespace mongo

open BSONElement

/-- The `MatchType` of a comparison. -/
inductive ComparisonType
  | EQ
  | LT
  | LTE
  | GT
  | GTE
  deriving DecidableEq, Repr

/-- The outcome of a comparison of type `t` when `compareElements` returns `x`. -/
def ComparisonType.holds (t : ComparisonType) (x : Int) : Bool :=
  match t with
  | .LT => x < 0
  | .LTE => x ≤ 0
  | .EQ => x = 0
  | .GT => x > 0
  | .GTE => x ≥ 0

/-- A match expression: a leaf on a field path, or a tree of them. -/
inductive MatchExpression
  | comparison (matchType : ComparisonType) (path : String) (rhs : BSONElement)
  | «exists» (path : String)
  | matchIn (path : String) (equalities : List BSONElement)
  | not (child : MatchExpression)
  | and (children : List MatchExpression)
  | or (children : List MatchExpression)
  deriving Repr

/-- A document: its top-level fields in order. -/
abbrev Document := List (String × BSONElement)

/-- The element of the first field of that name, or `EOO` when there is none. -/
def Document.getField (doc : Document) (path : String) : BSONElement :=
  match doc.find? (·.1 == path) with
  | some (_, e) => e
  | none => .eoo

namespace MatchExpression

/-- `MatchExpression::path`: the path of a leaf, empty for the others. -/
def path : MatchExpression → String
  | comparison _ p _ | «exists» p | matchIn p _ => p
  | not _ | and _ | or _ => ""

/-- `InMatchExpression::hasNull`: a null among the equalities. -/
def hasNull (equalities : List BSONElement) : Bool := equalities.any (· == .null)

/-- `supportsEquality`. -/
def supportsEquality : ComparisonType → Bool
  | .LTE | .EQ | .GTE => true
  | .LT | .GT => false

/-- How a comparison with MinKey or MaxKey meets an element of another canonical type: every
such element lies above MinKey and below MaxKey. -/
def boundMatches (matchType : ComparisonType) (rhs : BSONElement) : Bool :=
  match matchType with
  | .LT | .LTE => rhs == .maxKey
  | .EQ => false
  | .GT | .GTE => rhs == .minKey

/-- `ComparisonMatchExpression::matchesSingleElement`. -/
def comparisonMatches (matchType : ComparisonType) (rhs e : BSONElement) : Bool :=
  if e.canonicalType ≠ rhs.canonicalType then
    -- null, undefined and a missing field are alike
    if e.canonicalType + rhs.canonicalType = 5 then
      matchType == .EQ || matchType == .LTE || matchType == .GTE
    else if rhs == .maxKey || rhs == .minKey then boundMatches matchType rhs
    else false
  -- NaN equals only NaN
  else if e.isNaN || rhs.isNaN then
    supportsEquality matchType && e.isNaN && rhs.isNaN
  else matchType.holds (compareElements e rhs)

/-- `InMatchExpression::matchesSingleElement` without regexes: with a null among the
equalities it matches a missing field and undefined too, as `{$eq: null}` does. -/
def inMatches (equalities : List BSONElement) (e : BSONElement) : Bool :=
  (hasNull equalities && (e == .eoo || e == .undefined)) ||
    equalities.any (fun x => woCompare e x == 0)

mutual

/-- `MatchExpression::matches` on a document. -/
def «matches» (doc : Document) : MatchExpression → Bool
  | comparison t p rhs => comparisonMatches t rhs (doc.getField p)
  | «exists» p => doc.getField p != .eoo
  | matchIn p equalities => inMatches equalities (doc.getField p)
  | not child => !«matches» doc child
  | and children => matchesAll doc children
  | or children => matchesAny doc children

def matchesAll (doc : Document) : List MatchExpression → Bool
  | [] => true
  | c :: cs => «matches» doc c && matchesAll doc cs

def matchesAny (doc : Document) : List MatchExpression → Bool
  | [] => false
  | c :: cs => «matches» doc c || matchesAny doc cs

end

/-- The element-wise comparison of two `$in` sets. -/
def equalitiesEquivalent : List BSONElement → List BSONElement → Bool
  | [], [] => true
  | a :: as, b :: bs => woCompare a b == 0 && equalitiesEquivalent as bs
  | _, _ => false

mutual

/-- `MatchExpression::equivalent`: the same kind, path and children, and data that
`woCompare` calls equal. -/
def equivalent : MatchExpression → MatchExpression → Bool
  | comparison t p a, comparison t' p' b => t == t' && p == p' && woCompare a b == 0
  | «exists» p, «exists» p' => p == p'
  | matchIn p as, matchIn p' bs =>
    p == p' && hasNull as == hasNull bs && equalitiesEquivalent as bs
  | not a, not b => equivalent a b
  | and as, and bs => equivalentAll as bs
  | or as, or bs => equivalentAll as bs
  | _, _ => false

def equivalentAll : List MatchExpression → List MatchExpression → Bool
  | [], [] => true
  | a :: as, b :: bs => equivalent a b && equivalentAll as bs
  | _, _ => false

end

end MatchExpression

end mongo
