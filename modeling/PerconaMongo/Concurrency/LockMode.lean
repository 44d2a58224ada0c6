-- The lock modes of the lock manager (db/concurrency/lock_manager_defs.h) and
-- the conflict table of lock_manager.cpp. The lock heads keep sets of modes as
-- uint32 bit masks; `maskOf` reads such a mask as the set of modes it holds.
import Mathlib.Data.Fintype.Pi

namespace mongo.lock_manager

/-! ## Modes and the conflict table -/

inductive LockMode where
  | MODE_NONE
  | MODE_IS
  | MODE_IX
  | MODE_S
  | MODE_X
  deriving DecidableEq, Repr

instance : Fintype LockMode where
  elems := {.MODE_NONE, .MODE_IS, .MODE_IX, .MODE_S, .MODE_X}
  complete := fun m => by cases m <;> decide

/-- The value of the enumerator in `enum LockMode`. -/
def LockMode.toUInt32 : LockMode → UInt32
  | .MODE_NONE => 0
  | .MODE_IS => 1
  | .MODE_IX => 2
  | .MODE_S => 3
  | .MODE_X => 4

def modeMask (mode : LockMode) : UInt32 := 1 <<< mode.toUInt32

open LockMode in
/-- `LockConflictsTable[newMode] & existingMode != 0` means that a new request with
`newMode` conflicts with an existing request with `existingMode`. -/
def LockConflictsTable : LockMode → UInt32
  | MODE_NONE => 0
  | MODE_IS => modeMask MODE_X
  | MODE_IX => modeMask MODE_S ||| modeMask MODE_X
  | MODE_S => modeMask MODE_IX ||| modeMask MODE_X
  | MODE_X => modeMask MODE_S ||| modeMask MODE_X ||| modeMask MODE_IS ||| modeMask MODE_IX

def intentModes : UInt32 := modeMask .MODE_IS ||| modeMask .MODE_IX

def conflicts (newMode : LockMode) (existingModesMask : UInt32) : Bool :=
  (LockConflictsTable newMode &&& existingModesMask) != 0

/-- Whether `coveringMode` already grants all that `mode` asks for. -/
def isModeCovered (mode coveringMode : LockMode) : Bool :=
  (LockConflictsTable coveringMode ||| LockConflictsTable mode) == LockConflictsTable coveringMode

/-- Two single modes conflict. -/
def conflictsWith (a b : LockMode) : Bool := conflicts a (modeMask b)

/-- Mode `b` conflicts with every mode that `a` conflicts with: `b` covers `a`, as a
conversion from `a` to `b` requires. -/
def Covers (a b : LockMode) : Prop := ∀ c, conflictsWith c a = true → conflictsWith c b = true

/-! ## The table -/

theorem conflictsWith_comm (a b : LockMode) : conflictsWith a b = conflictsWith b a := by
  cases a <;> cases b <;> decide

@[simp] theorem conflicts_none_left (mask : UInt32) : conflicts .MODE_NONE mask = false := by
  simp [conflicts, LockConflictsTable]

@[simp] theorem conflictsWith_none_right (a : LockMode) : conflictsWith a .MODE_NONE = false := by
  cases a <;> decide

theorem conflictsWith_x (a : LockMode) (h : a ≠ .MODE_NONE) : conflictsWith a .MODE_X = true := by
  cases a <;> simp_all [conflictsWith] <;> decide

/-- Intent modes never conflict with each other. -/
theorem not_conflictsWith_intent (a b : LockMode) (ha : a = .MODE_IS ∨ a = .MODE_IX)
    (hb : b = .MODE_IS ∨ b = .MODE_IX) : conflictsWith a b = false := by
  rcases ha with rfl | rfl <;> rcases hb with rfl | rfl <;> decide

/-- `isModeCovered m c` says that `c` covers `m`. -/
theorem covers_of_isModeCovered {m c : LockMode} (h : isModeCovered m c = true) : Covers m c := by
  intro x hx
  cases m <;> cases c <;> cases x <;> revert h hx <;> decide

/-! ## Masks read as sets of modes -/

/-- The mask with the bit of each mode that `p` holds for. -/
def maskOf (p : LockMode → Bool) : UInt32 :=
  (if p .MODE_NONE then modeMask .MODE_NONE else 0) |||
  (if p .MODE_IS then modeMask .MODE_IS else 0) |||
  (if p .MODE_IX then modeMask .MODE_IX else 0) |||
  (if p .MODE_S then modeMask .MODE_S else 0) |||
  (if p .MODE_X then modeMask .MODE_X else 0)

theorem conflicts_maskOf (m : LockMode) (p : LockMode → Bool) :
    conflicts m (maskOf p) = true ↔ ∃ m', p m' = true ∧ conflictsWith m m' = true := by
  cases m <;> revert p <;> decide

theorem maskOf_eq_zero_iff (p : LockMode → Bool) : maskOf p = 0 ↔ ∀ m, p m = false := by
  revert p; decide

theorem maskOf_or_modeMask (p : LockMode → Bool) (m : LockMode) :
    maskOf p ||| modeMask m = maskOf (Function.update p m true) := by
  cases m <;> revert p <;> decide

theorem maskOf_and_not_modeMask (p : LockMode → Bool) (m : LockMode) :
    maskOf p &&& ~~~modeMask m = maskOf (Function.update p m false) := by
  cases m <;> revert p <;> decide

/-- A mask has no bit outside the intent modes exactly when each mode it holds is
an intent mode. -/
theorem maskOf_and_not_intent (p : LockMode → Bool) :
    (maskOf p &&& ~~~intentModes == 0) = true ↔
      ∀ m, p m = true → m = .MODE_IS ∨ m = .MODE_IX := by
  revert p; decide

theorem maskOf_congr {p q : LockMode → Bool} (h : ∀ m, p m = q m) : maskOf p = maskOf q := by
  rw [funext h]

end mongo.lock_manager
