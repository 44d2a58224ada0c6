-- `OpTime` and `ConfigVersionAndTerm`: pairs ordered by term, then by timestamp or version,
-- except that a side whose term is uninitialized (-1, the old protocol) is compared by its
-- timestamp or version alone.
import Mathlib.Order.Basic

namespace mongo.repl

/-- `OpTime::kUninitializedTerm`. -/
def kUninitializedTerm : Int := -1

/-- `OpTime::kInitialTerm`. -/
def kInitialTerm : Int := 0

/-- An `OpTime`: the timestamp of an oplog entry, as one number, and the term of the primary
that wrote it. -/
structure OpTime where
  timestamp : Nat
  term : Int
  deriving DecidableEq, Repr

/-- `OpTime::operator<`. -/
def OpTime.lt (a b : OpTime) : Bool :=
  if a.term = kUninitializedTerm ∨ b.term = kUninitializedTerm then a.timestamp < b.timestamp
  else a.term < b.term ∨ (a.term = b.term ∧ a.timestamp < b.timestamp)

/-- `OpTime::operator==`: `(Timestamp(), 0) == (Timestamp(), -1)`. -/
def OpTime.beq (a b : OpTime) : Bool :=
  if a.term = kUninitializedTerm ∨ b.term = kUninitializedTerm then a.timestamp = b.timestamp
  else a.term = b.term ∧ a.timestamp = b.timestamp

/-- `OpTime::operator<=`. -/
def OpTime.le (a b : OpTime) : Bool := a.lt b || a.beq b

/-- `ConfigVersionAndTerm`: a config's version and the term it was written in. -/
structure ConfigVersionAndTerm where
  version : Int
  term : Int
  deriving DecidableEq, Repr

/-- `ConfigVersionAndTerm::operator<`. -/
def ConfigVersionAndTerm.lt (a b : ConfigVersionAndTerm) : Bool :=
  if a.term = kUninitializedTerm ∨ b.term = kUninitializedTerm then a.version < b.version
  else a.term < b.term ∨ (a.term = b.term ∧ a.version < b.version)

/-- `ConfigVersionAndTerm::operator==`. -/
def ConfigVersionAndTerm.beq (a b : ConfigVersionAndTerm) : Bool :=
  if a.term = kUninitializedTerm ∨ b.term = kUninitializedTerm then a.version = b.version
  else a.term = b.term ∧ a.version = b.version

/-! ## The order of `OpTime`s -/

namespace OpTime

/-- An `OpTime` of protocol version 1: the null `OpTime()`, whose term is uninitialized, or a
timestamp with the term it was written in. The source warns that "comparison of arbitrary
OpTimes may not be safe"; among these, `operator<` is the lexicographic order. -/
def Valid (a : OpTime) : Prop :=
  (a.term = kUninitializedTerm ∧ a.timestamp = 0) ∨ (kInitialTerm ≤ a.term ∧ 0 < a.timestamp)

instance (a : OpTime) : Decidable a.Valid := by
  unfold Valid
  infer_instance

theorem lt_irrefl (a : OpTime) : a.lt a = false := by
  unfold OpTime.lt
  split <;> simp

theorem lt_asymm {a b : OpTime} (h : a.lt b = true) : b.lt a = false := by
  unfold OpTime.lt at *
  by_cases ha : a.term = kUninitializedTerm <;> by_cases hb : b.term = kUninitializedTerm <;>
    simp_all <;> omega

/-- An `OpTime` is `lt`, `beq` or above any other: `operator>=` is `!operator<`. -/
theorem lt_or_beq_or_gt (a b : OpTime) : a.lt b = true ∨ a.beq b = true ∨ b.lt a = true := by
  unfold OpTime.lt OpTime.beq
  by_cases ha : a.term = kUninitializedTerm <;> by_cases hb : b.term = kUninitializedTerm <;>
    simp_all <;> omega

/-- Between valid `OpTime`s, `lt` compares `(term, timestamp)` lexicographically: the null
`OpTime` sits below every other, as its term -1 does. -/
theorem lt_eq_lex {a b : OpTime} (ha : a.Valid) (hb : b.Valid) :
    a.lt b = decide (a.term < b.term ∨ (a.term = b.term ∧ a.timestamp < b.timestamp)) := by
  unfold Valid at ha hb
  unfold OpTime.lt
  by_cases hu : a.term = kUninitializedTerm ∨ b.term = kUninitializedTerm
  · rw [if_pos hu, decide_eq_decide]
    simp only [kUninitializedTerm, kInitialTerm] at *
    omega
  · rw [if_neg hu]

theorem lt_trans {a b c : OpTime} (ha : a.Valid) (hb : b.Valid) (hc : c.Valid)
    (hab : a.lt b = true) (hbc : b.lt c = true) : a.lt c = true := by
  rw [lt_eq_lex ha hb] at hab
  rw [lt_eq_lex hb hc] at hbc
  rw [lt_eq_lex ha hc]
  simp only [decide_eq_true_eq] at *
  omega

/-- `operator>=` is transitive between valid `OpTime`s. -/
theorem not_lt_trans {a b c : OpTime} (ha : a.Valid) (hb : b.Valid) (hc : c.Valid)
    (hab : b.lt a = false) (hbc : c.lt b = false) : c.lt a = false := by
  rw [lt_eq_lex hb ha] at hab
  rw [lt_eq_lex hc hb] at hbc
  rw [lt_eq_lex hc ha]
  simp only [decide_eq_false_iff_not] at *
  omega

end OpTime

end mongo.repl
