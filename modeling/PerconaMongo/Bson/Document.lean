-- BSON documents as the delta updates of doc_diff read and write them: an object is its fields
-- in order, an array its elements (the array builders number the keys "0", "1", ... so the
-- keys carry nothing), and a value of any other type is its type and the bytes of its value.
-- That is all doc_diff reads of such a value: whether two are binary equal, and how many bytes
-- they take. Sizes are those of the BSON encoding: a four byte length, the elements, a zero
-- byte; an element is its type byte, its name with a zero byte, and its value.
import PerconaMongo.Value.Compare
import PerconaMongo.Bson.Hasher

namespace mongo

/-- The types doc_diff sees as bytes: every type but Object and Array, and EOO, which ends an
object rather than being in one. -/
def BSONType.isScalar : BSONType → Bool
  | .eoo | .object | .array => false
  | _ => true

/-- `typeName`. -/
def BSONType.typeName : BSONType → String
  | .minKey => "minKey"
  | .eoo => "missing"
  | .numberDouble => "double"
  | .string => "string"
  | .object => "object"
  | .array => "array"
  | .binData => "binData"
  | .undefined => "undefined"
  | .jstOID => "objectId"
  | .bool => "bool"
  | .date => "date"
  | .jstNULL => "null"
  | .regEx => "regex"
  | .dbRef => "dbPointer"
  | .code => "javascript"
  | .symbol => "symbol"
  | .numberInt => "int"
  | .bsonTimestamp => "timestamp"
  | .numberLong => "long"
  | .numberDecimal => "decimal"
  | .maxKey => "maxKey"

/-- A BSON value: the type and value bytes of a scalar, or an embedded object or array. -/
inductive BSONValue
  | scalar (type : BSONType) (data : List UInt8) (isScalar : type.isScalar = true)
  | object (fields : List (String × BSONValue))
  | array (elems : List BSONValue)

/-- A `BSONObj`: its elements, each a field name and a value. -/
abbrev BSONObj := List (String × BSONValue)

namespace BSONValue

/-- `BSONElement::type`. -/
def type : BSONValue → BSONType
  | scalar t _ _ => t
  | object _ => .object
  | array _ => .array

/-- `BSONElement::embeddedObject`: the fields of an object; the source calls it on objects only. -/
def embeddedObject : BSONValue → BSONObj
  | object fields => fields
  | _ => []

/-- `appendNull`. -/
def null : BSONValue := scalar .jstNULL [] rfl

/-- `append(fieldName, bool)`: one byte. -/
def bool (b : Bool) : BSONValue := scalar .bool [if b then 1 else 0] rfl

/-- `append(fieldName, int)`: four bytes, low byte first. -/
def int32 (n : Int) : BSONValue := scalar .numberInt (littleEndianBytes 4 n) rfl

/-- `BSONElement::Bool`: any byte but zero is true. -/
def boolean : BSONValue → Bool
  | scalar _ (b :: _) _ => b != 0
  | _ => false

/-- `BSONElement::numberInt` on an int. -/
def numberInt : BSONValue → Int
  | scalar _ data _ => readLittleEndian data
  | _ => 0

mutual

/-- `BSONElement::binaryEqual` on the values: one type and the same bytes. -/
def binaryEqual : BSONValue → BSONValue → Bool
  | scalar t d _, scalar t' d' _ => t == t' && d == d'
  | object fs, object gs => fieldsBinaryEqual fs gs
  | array es, array gs => elemsBinaryEqual es gs
  | _, _ => false

/-- The elements of two objects, names and values, byte for byte. -/
def fieldsBinaryEqual : BSONObj → BSONObj → Bool
  | [], [] => true
  | (n, v) :: fs, (m, w) :: gs => n == m && binaryEqual v w && fieldsBinaryEqual fs gs
  | _, _ => false

/-- The elements of two arrays, byte for byte. -/
def elemsBinaryEqual : List BSONValue → List BSONValue → Bool
  | [], [] => true
  | v :: vs, w :: ws => binaryEqual v w && elemsBinaryEqual vs ws
  | _, _ => false

end

mutual

theorem binaryEqual_iff : ∀ {a b : BSONValue}, binaryEqual a b = true ↔ a = b
  | scalar _ _ _, scalar _ _ _ => by simp [binaryEqual]
  | object _, object _ => by simp [binaryEqual, fieldsBinaryEqual_iff]
  | array _, array _ => by simp [binaryEqual, elemsBinaryEqual_iff]
  | scalar .., object _ | scalar .., array _ | object _, scalar .. | object _, array _
  | array _, scalar .. | array _, object _ => by simp [binaryEqual]

theorem fieldsBinaryEqual_iff : ∀ {fs gs : BSONObj}, fieldsBinaryEqual fs gs = true ↔ fs = gs
  | [], [] => by simp [fieldsBinaryEqual]
  | (_, _) :: _, (_, _) :: _ => by
    simp [fieldsBinaryEqual, binaryEqual_iff, fieldsBinaryEqual_iff, and_assoc]
  | [], _ :: _ | _ :: _, [] => by simp [fieldsBinaryEqual]

theorem elemsBinaryEqual_iff : ∀ {es gs : List BSONValue}, elemsBinaryEqual es gs = true ↔ es = gs
  | [], [] => by simp [elemsBinaryEqual]
  | _ :: _, _ :: _ => by simp [elemsBinaryEqual, binaryEqual_iff, elemsBinaryEqual_iff]
  | [], _ :: _ | _ :: _, [] => by simp [elemsBinaryEqual]

end

instance : DecidableEq BSONValue := fun _ _ => decidable_of_iff _ binaryEqual_iff

mutual

/-- `BSONElement::valuesize`. -/
def valuesize : BSONValue → Nat
  | scalar _ data _ => data.length
  | object fields => fieldsSize fields + 5
  | array elems => elementsSize elems 0 + 5

/-- The bytes of the elements of an object. -/
def fieldsSize : BSONObj → Nat
  | [] => 0
  | (name, v) :: rest => 1 + (name.utf8ByteSize + 1) + valuesize v + fieldsSize rest

/-- The bytes of the elements of an array, the first numbered `i`. -/
def elementsSize : List BSONValue → Nat → Nat
  | [], _ => 0
  | v :: rest, i => 1 + ((toString i).utf8ByteSize + 1) + valuesize v + elementsSize rest (i + 1)

end

mutual

/-- No two fields of one object share a name, at any depth. -/
def hasUniqueNames : BSONValue → Bool
  | scalar _ _ _ => true
  | object fields => decide (fields.map Prod.fst).Nodup && fieldsHaveUniqueNames fields
  | array elems => elemsHaveUniqueNames elems

def fieldsHaveUniqueNames : BSONObj → Bool
  | [] => true
  | (_, v) :: rest => hasUniqueNames v && fieldsHaveUniqueNames rest

def elemsHaveUniqueNames : List BSONValue → Bool
  | [] => true
  | v :: rest => hasUniqueNames v && elemsHaveUniqueNames rest

end

end BSONValue

open BSONValue

/-- `BSONObj::objsize`. -/
def objsize (fields : BSONObj) : Nat := fieldsSize fields + 5

/-- `BSONObj::objsize` of an array, its keys numbered from 0. -/
def arrayObjsize (elems : List BSONValue) : Nat := elementsSize elems 0 + 5

/-- A document as `computeDiff` and `applyDiff` are given one: no two fields of one object share a
name, at any depth, and its size fits the int32 that starts its encoding. -/
structure ValidDocument (doc : BSONObj) : Prop where
  uniqueNames : (BSONValue.object doc).hasUniqueNames = true
  objsize_lt : objsize doc < 2 ^ 31

instance (doc : BSONObj) : Decidable (ValidDocument doc) :=
  decidable_of_iff ((BSONValue.object doc).hasUniqueNames = true ∧ objsize doc < 2 ^ 31)
    ⟨fun h => ⟨h.1, h.2⟩, fun h => ⟨h.1, h.2⟩⟩

@[simp] theorem BSONValue.valuesize_object (fields : BSONObj) :
    (BSONValue.object fields).valuesize = objsize fields := rfl

@[simp] theorem BSONValue.valuesize_array (elems : List BSONValue) :
    (BSONValue.array elems).valuesize = arrayObjsize elems := rfl

/-- An int written in four bytes reads back as itself, when it is not negative. -/
theorem readLittleEndian_four {n : Int} (h0 : 0 ≤ n) (h : n < 2 ^ 31) :
    readLittleEndian (littleEndianBytes 4 n) = n := by
  have hval := foldr_littleEndianBytes 4 n
  rw [Int.emod_eq_of_lt h0 (by omega)] at hval
  unfold readLittleEndian
  rw [hval, length_littleEndianBytes, if_pos (by omega)]

theorem BSONValue.numberInt_int32 {n : Int} (h0 : 0 ≤ n) (h : n < 2 ^ 31) :
    (BSONValue.int32 n).numberInt = n := by
  unfold BSONValue.int32 BSONValue.numberInt
  exact readLittleEndian_four h0 h

end mongo
