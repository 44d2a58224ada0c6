-- The buckets of a time-series collection (write_commands.cpp, bucket_unpacker.cpp). A batch of
-- measurements becomes a bucket whose `data` holds one column per field: each value of a field,
-- but the meta field's, goes into that field's column under the decimal row number of its
-- measurement. `BucketUnpacker` reads the measurements back: `getNext` walks the time column
-- and takes from every other column the value at the same row key, if that column has one, and
-- `extractSingleMeasurement` looks row `j` up in every column. `reset` counts the measurements
-- from the byte size of the time column with `kTimestampObjSizeTable`.
import PerconaMongo.Bson.Document
import Mathlib.Data.List.GetD

namespace mongo.timeseries

open BSONValue

/-- How the unpacker stops: a `uassert` or a `tassert` with its code and message, a row key
that `NumberParser` does not read as an int, or `computeMeasurementCount` finding no entry of
the table, after which the source reads past the table's end. -/
inductive UnpackError
  | uassert (code : Nat) (reason : String)
  | tassert (code : Nat) (reason : String)
  | rowIndexNotAnInt (rowKey : String)
  | pastTableEnd
  deriving DecidableEq, Repr

def kBucketIdFieldName : String := "_id"
def kBucketDataFieldName : String := "data"
def kBucketMetaFieldName : String := "meta"
def kBucketControlFieldName : String := "control"

/-! ## The bucket catalog's metadata -/

mutual

/-- The value of an element as the normalizers rebuild it: an array through `normalizeArray`, an
object through `normalizeObject`, anything else appended as it is. The fields of an object are
normalized before the sort here, which reads their names only (`normalizeValue_object`). -/
def normalizeValue : BSONValue → BSONValue
  | scalar t data h => scalar t data h
  | object fields => object ((normalizeFields fields).mergeSort fun a b => decide (a.1 ≤ b.1))
  | array elems => array (normalizeArray elems)

/-- The fields of an object, each value normalized. -/
def normalizeFields : BSONObj → BSONObj
  | [] => []
  | (name, v) :: rest => (name, normalizeValue v) :: normalizeFields rest

/-- `normalizeArray`: the elements in their order, each normalized. -/
def normalizeArray : List BSONValue → List BSONValue
  | [] => []
  | v :: rest => normalizeValue v :: normalizeArray rest

end

/-- `normalizeObject`: the fields sorted by name (`std::sort` with `Field::operator<`, the names
compared byte by byte), then each value normalized. The model's sort is stable; the source
leaves the order of two fields of one name unspecified. -/
def normalizeObject (fields : BSONObj) : BSONObj :=
  (fields.mergeSort fun a b => decide (a.1 ≤ b.1)).map fun (name, v) => (name, normalizeValue v)

/-- `normalizeTopLevel`: the meta element, an array or object among them rebuilt. -/
def normalizeTopLevel : String × BSONValue → String × BSONValue
  | (name, array elems) => (name, array (normalizeArray elems))
  | (name, object fields) => (name, object (normalizeObject fields))
  | elem => elem

/-- `BucketMetadata::normalize`: the meta element of a measurement, if it has one, normalized;
without one the metadata stays the empty object. -/
def BucketMetadata.normalize (metadataElement : Option (String × BSONValue)) :
    Option (String × BSONValue) :=
  metadataElement.map normalizeTopLevel

theorem normalizeFields_eq_map (fields : BSONObj) :
    normalizeFields fields = fields.map fun (name, v) => (name, normalizeValue v) := by
  induction fields with
  | nil => rfl
  | cons field fields ih =>
    obtain ⟨name, v⟩ := field
    rw [normalizeFields, ih, List.map_cons]

/-- Sorting by name and normalizing the values commute, so the object case of `normalizeValue`
is `normalizeObject`. -/
theorem normalizeValue_object (fields : BSONObj) :
    normalizeValue (object fields) = object (normalizeObject fields) := by
  rw [normalizeValue, normalizeObject, normalizeFields_eq_map, List.map_mergeSort]
  intro a _ b _
  rfl

theorem normalizeTopLevel_eq (name : String) (v : BSONValue) :
    normalizeTopLevel (name, v) = (name, normalizeValue v) := by
  cases v with
  | scalar t data h => rfl
  | object fields => rw [normalizeTopLevel, normalizeValue_object]
  | array elems => rfl

/-! ## Writing a bucket -/

/-- `kTimeseriesControlVersion`. -/
def kTimeseriesControlVersion : Int := 1

/-- The part of `BucketCatalog::WriteBatch` that the writes read. -/
structure WriteBatch where
  bucketId : BSONValue
  measurements : List BSONObj
  min : BSONObj
  max : BSONObj
  numPreviouslyCommittedMeasurements : Nat

/-- `dataBuilders[key].appendAs(elem, count)`: the value under the row key, in the builder of
its field, made at the end for a field not seen before. The source's map is a hash map; the
model keeps its builders in the order their fields first appear. -/
def appendAs (builders : List (String × BSONObj)) (key rowKey : String) (value : BSONValue) :
    List (String × BSONObj) :=
  match builders with
  | [] => [(key, [(rowKey, value)])]
  | (name, col) :: rest =>
    if name = key then (name, col ++ [(rowKey, value)]) :: rest
    else (name, col) :: appendAs rest key rowKey value

/-- The loop over the measurements of `makeTimeseriesInsertDocument` and
`makeTimeseriesUpdateOpEntry`: each field but the meta field goes into its builder under the
row number of its measurement, counted from `count`. -/
def buildDataFields (metaFieldName : Option String) :
    Nat → List (String × BSONObj) → List BSONObj → List (String × BSONObj)
  | _, builders, [] => builders
  | count, builders, doc :: docs =>
    let builders := doc.foldl (fun builders elem =>
      if metaFieldName = some elem.1 then builders
      else appendAs builders elem.1 (toString count) elem.2) builders
    buildDataFields metaFieldName (count + 1) builders docs

/-- `makeTimeseriesInsertDocument`: the bucket's id, its control object, the meta value under
`meta` when the batch has one, and the columns under `data`. -/
def makeTimeseriesInsertDocument (batch : WriteBatch) (metadata : BSONObj) : BSONObj :=
  let metadataElem := metadata.head?
  let dataBuilders := buildDataFields (metadataElem.map Prod.fst) 0 [] batch.measurements
  [(kBucketIdFieldName, batch.bucketId),
    (kBucketControlFieldName, .object [("version", .int32 kTimeseriesControlVersion),
      ("min", .object batch.min), ("max", .object batch.max)])] ++
  (match metadataElem with
    | some (_, value) => [(kBucketMetaFieldName, value)]
    | none => []) ++
  [(kBucketDataFieldName, .object (dataBuilders.map fun (name, col) => (name, .object col)))]

/-! ## Reading a bucket -/

/-- `BSONObj::getField`: the first element of that name. -/
def getField (obj : BSONObj) (name : String) : Option (String × BSONValue) :=
  obj.find? (·.1 == name)

/-- `BSONElement::Obj`: the fields of an object, or of an array under its index keys; any other
element, the missing one included, fails `embeddedObjectUserCheck`. -/
def embeddedObjectUserCheck : Option (String × BSONValue) → Except UnpackError BSONObj
  | some (_, .object fields) => pure fields
  | some (_, .array elems) => pure (elems.zipIdx.map fun (v, i) => (toString i, v))
  | some (name, _) =>
    throw (.uassert 10065 ("invalid parameter: expected an object (" ++ name ++ ")"))
  | none => throw (.uassert 10065 "invalid parameter: expected an object ()")

/-- `MutableDocument::addField` of a `Value` made from an element: a missing element makes a
missing value, which every reader of the document skips. -/
def addField (doc : BSONObj) (name : String) : Option BSONValue → BSONObj
  | some value => doc ++ [(name, value)]
  | none => doc

/-- `kTimestampObjSizeTable`: for the first row number with one, two, ... seven digits (and
for 0), the row count and the byte size of a time column with that many rows. -/
def kTimestampObjSizeTable : List (Int × Int) :=
  [(0, 5), (10, 115), (100, 1195), (1000, 12895), (10000, 138895), (100000, 1488895),
    (1000000, 15888895), (10000000, 168888895)]

/-- `BucketUnpacker::computeMeasurementCount`: the first table entry whose size is not below the
target; its count on a hit, else the count of the entry before plus the rows of its width that
the rest of the size holds. -/
def computeMeasurementCount (targetTimestampObjSize : Int) : Except UnpackError Int :=
  match kTimestampObjSizeTable.findIdx? (fun entry => targetTimestampObjSize ≤ entry.2) with
  | none => throw .pastTableEnd
  | some i =>
    let currentInterval := kTimestampObjSizeTable.getD i (0, 0)
    if currentInterval.2 = targetTimestampObjSize then pure currentInterval.1
    else if i = 0 then
      throw (.tassert 5422104 "currentInterval should not point to the first table entry")
    else
      let previous := kTimestampObjSizeTable.getD (i - 1) (0, 0)
      let nDigitsInRowKey : Int := 1 + (i - 1 : Nat)
      pure (previous.1 +
        (targetTimestampObjSize - previous.2).tdiv (10 + nDigitsInRowKey))

/-- `BucketUnpacker::Behavior`. -/
inductive Behavior
  | include
  | exclude
  deriving DecidableEq, Repr

/-- `BucketSpec`. -/
structure BucketSpec where
  timeField : String
  metaField : Option String
  fieldSet : List String
  computedMetaProjFields : List String
  includeBucketIdAndRowIndex : Bool

/-- `determineIncludeField`. -/
def determineIncludeField (fieldName : String) (unpackerBehavior : Behavior)
    (bucketSpec : BucketSpec) : Bool :=
  (unpackerBehavior == .include) == bucketSpec.fieldSet.contains fieldName

/-- `determineIncludeTimeField`. -/
def determineIncludeTimeField (unpackerBehavior : Behavior) (bucketSpec : BucketSpec) : Bool :=
  (unpackerBehavior == .include) == bucketSpec.fieldSet.contains bucketSpec.timeField

/-- `eraseMetaFromFieldSetAndDetermineIncludeMeta`: whether to include the meta field, and the
spec without the meta field in its field set. -/
def eraseMetaFromFieldSetAndDetermineIncludeMeta (unpackerBehavior : Behavior)
    (bucketSpec : BucketSpec) : Bool × BucketSpec :=
  match bucketSpec.metaField with
  | none => (false, bucketSpec)
  | some metaField =>
    if bucketSpec.computedMetaProjFields.contains metaField then (false, bucketSpec)
    else if bucketSpec.fieldSet.contains metaField then
      (unpackerBehavior == .include,
        { bucketSpec with fieldSet := bucketSpec.fieldSet.erase metaField })
    else (unpackerBehavior == .exclude, bucketSpec)

/-- `eraseExcludedComputedMetaProjFields`. -/
def eraseExcludedComputedMetaProjFields (unpackerBehavior : Behavior) (bucketSpec : BucketSpec) :
    BucketSpec :=
  if unpackerBehavior = .exclude then
    { bucketSpec with
      computedMetaProjFields :=
        bucketSpec.computedMetaProjFields.filter fun f => !bucketSpec.fieldSet.contains f }
  else bucketSpec

/-- `BucketUnpacker`: each `BSONObjIterator` is kept as the fields it has yet to give. -/
structure BucketUnpacker where
  spec : BucketSpec
  unpackerBehavior : Behavior
  timeFieldIter : Option BSONObj
  includeTimeField : Bool
  includeMetaField : Bool
  bucket : BSONObj
  metaValue : Option BSONValue
  fieldIters : List (String × BSONObj)
  computedMetaProjections : List (String × Option BSONValue)
  numberOfMeasurements : Int

namespace BucketUnpacker

/-- The constructor, through `setBucketSpecAndBehavior`, before any bucket. -/
def make (spec : BucketSpec) (behavior : Behavior) : BucketUnpacker :=
  let (includeMetaField, spec) := eraseMetaFromFieldSetAndDetermineIncludeMeta behavior spec
  let includeTimeField := determineIncludeTimeField behavior spec
  let spec := eraseExcludedComputedMetaProjFields behavior spec
  ⟨spec, behavior, none, includeTimeField, includeMetaField, [], none, [], [], 0⟩

/-- The loop of `reset` over the data region: an iterator over each column to include, but the
time column's. -/
def makeFieldIters (u : BucketUnpacker) :
    BSONObj → Except UnpackError (List (String × BSONObj))
  | [] => pure []
  | (colName, col) :: rest => do
    if colName = u.spec.timeField then makeFieldIters u rest
    else if determineIncludeField colName u.unpackerBehavior u.spec then do
      let iter ← embeddedObjectUserCheck (some (colName, col))
      let iters ← makeFieldIters u rest
      pure ((colName, iter) :: iters)
    else makeFieldIters u rest

/-- `BucketUnpacker::reset`. -/
def reset (u : BucketUnpacker) (bucket : BSONObj) : Except UnpackError BucketUnpacker := do
  let u := { u with fieldIters := [], timeFieldIter := none, bucket := bucket }
  if bucket.isEmpty then throw (.uassert 5346510 "An empty bucket cannot be unpacked")
  let dataRegion ← embeddedObjectUserCheck (getField bucket kBucketDataFieldName)
  if dataRegion.isEmpty then return u
  let some timeFieldElem := getField dataRegion u.spec.timeField
    | throw (.uassert 5346700
        "The $_internalUnpackBucket stage requires the data region to have a timeField object")
  let timeColumn ← embeddedObjectUserCheck (some timeFieldElem)
  let metaValue := (getField bucket kBucketMetaFieldName).map Prod.snd
  if u.spec.metaField.isSome then
    if metaValue.any (·.type == .undefined) then
      throw (.uassert 5369600 ("The $_internalUnpackBucket stage allows metadata to be absent " ++
        "or otherwise, it must not be the deprecated undefined bson type"))
  else if metaValue.isSome then
    throw (.uassert 5369601 ("The $_internalUnpackBucket stage expects buckets to have " ++
      "missing metadata regions if the metaField parameter is not provided"))
  let fieldIters ← makeFieldIters u dataRegion
  let computedMetaProjections :=
    u.spec.computedMetaProjFields.map fun name => (name, (getField bucket name).map Prod.snd)
  let numberOfMeasurements ← computeMeasurementCount (objsize timeColumn)
  pure { u with
    timeFieldIter := some timeColumn, metaValue, fieldIters, computedMetaProjections,
    numberOfMeasurements }

def hasNext (u : BucketUnpacker) : Bool :=
  match u.timeFieldIter with
  | some iter => !iter.isEmpty
  | none => false

/-- The loop of `getNext` over the column iterators: the value of each column whose current
row key is the time column's, which then moves on. -/
def takeRow (currentIdx : String) :
    List (String × BSONObj) → BSONObj × List (String × BSONObj)
  | [] => ([], [])
  | (colName, (rowKey, value) :: rest) :: iters =>
    let (fields, iters) := takeRow currentIdx iters
    if rowKey = currentIdx then ((colName, value) :: fields, (colName, rest) :: iters)
    else (fields, (colName, (rowKey, value) :: rest) :: iters)
  | (colName, []) :: iters =>
    let (fields, iters) := takeRow currentIdx iters
    (fields, (colName, []) :: iters)

/-- The value `_computedMetaProjections[name]` of each computed meta projection; a name not in
the map reads as the missing element. -/
def computedFields (u : BucketUnpacker) (measurement : BSONObj) : BSONObj :=
  u.spec.computedMetaProjFields.foldl (fun measurement name =>
    addField measurement name ((u.computedMetaProjections.lookup name).getD none)) measurement

/-- `NumberParser()(rowKey, &rowIndex)` on a row key: its decimal value, if it fits an int. -/
def parseRowIndex (rowKey : String) : Option Int :=
  match rowKey.toNat? with
  | some n => if n < 2 ^ 31 then some n else none
  | none => none

/-- The end of `getNext` and `extractSingleMeasurement`: the measurement, or, when the spec
asks for them, the bucket id and row index with the measurement under `rowData`. -/
def wrapRow (u : BucketUnpacker) (rowIndex : Int) (measurement : BSONObj) : BSONObj :=
  if u.spec.includeBucketIdAndRowIndex then
    addField [] "bucketId" ((getField u.bucket kBucketIdFieldName).map Prod.snd) ++
      [("rowIndex", .int32 rowIndex), ("rowData", .object measurement)]
  else measurement

/-- The meta field and its value, as `getNext` adds them. -/
def metaOf (u : BucketUnpacker) (measurement : BSONObj) : BSONObj :=
  match u.spec.metaField with
  | some metaField => if u.includeMetaField then addField measurement metaField u.metaValue
    else measurement
  | none => measurement

/-- `BucketUnpacker::getNext`: the next measurement, and the unpacker moved past it. -/
def getNext (u : BucketUnpacker) : Except UnpackError (BSONObj × BucketUnpacker) := do
  let some ((currentIdx, timeValue) :: timeRest) := u.timeFieldIter
    | throw (.tassert 5422100 "'getNext()' was called after the bucket has been exhausted")
  let measurement : BSONObj :=
    if u.includeTimeField then [(u.spec.timeField, timeValue)] else []
  let measurement := u.metaOf measurement
  let (fields, fieldIters) := takeRow currentIdx u.fieldIters
  let measurement := u.computedFields (measurement ++ fields)
  let u := { u with timeFieldIter := some timeRest, fieldIters }
  if u.spec.includeBucketIdAndRowIndex then
    let some rowIndex := parseRowIndex currentIdx | throw (.rowIndexNotAnInt currentIdx)
    pure (u.wrapRow rowIndex measurement, u)
  else pure (measurement, u)

/-- The value of row `targetIdx` in each column to include, in the order of the data region. -/
def rowValues (u : BucketUnpacker) (targetIdx : String) :
    BSONObj → Except UnpackError BSONObj
  | [] => pure []
  | (colName, col) :: rest => do
    if !determineIncludeField colName u.unpackerBehavior u.spec then rowValues u targetIdx rest
    else do
      let column ← embeddedObjectUserCheck (some (colName, col))
      let fields ← rowValues u targetIdx rest
      pure (addField [] colName ((getField column targetIdx).map Prod.snd) ++ fields)

/-- `BucketUnpacker::extractSingleMeasurement`. Its meta check is `!_metaValue.isNull()`, where
`getNext` asks whether the meta element exists. -/
def extractSingleMeasurement (u : BucketUnpacker) (j : Int) : Except UnpackError BSONObj := do
  if !(0 ≤ j ∧ j < u.numberOfMeasurements) then
    throw (.tassert 5422101 ("'extractSingleMeasurment' expects j to be greater than or equal " ++
      "to zero and less than or equal to the number of measurements in a bucket"))
  let targetIdx := toString j.toNat
  let dataRegion ← embeddedObjectUserCheck (getField u.bucket kBucketDataFieldName)
  let measurement : BSONObj :=
    match u.spec.metaField with
    | some metaField =>
      if u.includeMetaField && !(u.metaValue.map (·.type == .jstNULL)).getD false then
        addField [] metaField u.metaValue
      else []
    | none => []
  let fields ← u.rowValues targetIdx dataRegion
  pure (u.wrapRow j (u.computedFields (measurement ++ fields)))

/-- `getNext` called `n` times: the measurements, and the unpacker after them. -/
def getNextN (u : BucketUnpacker) : Nat → Except UnpackError (List BSONObj × BucketUnpacker)
  | 0 => pure ([], u)
  | n + 1 => do
    let (measurement, u) ← u.getNext
    let (measurements, u) ← getNextN u n
    pure (measurement :: measurements, u)

end BucketUnpacker

/-! ## Row keys and the measurement count -/

theorem digitChar_inj {a b : Nat} (ha : a < 10) (hb : b < 10) (h : a.digitChar = b.digitChar) :
    a = b := by
  rw [← Nat.toNat_digitChar_sub_48_of_lt_ten ha, ← Nat.toNat_digitChar_sub_48_of_lt_ten hb, h]

/-- Distinct row numbers have distinct row keys. -/
theorem toString_injective {m n : Nat} (h : toString m = toString n) : m = n := by
  have hd : Nat.toDigits 10 m = Nat.toDigits 10 n := by
    rw [Nat.toString_eq_ofList_toDigits, Nat.toString_eq_ofList_toDigits] at h
    exact String.ofList_injective h
  clear h
  induction m using Nat.strong_induction_on generalizing n with
  | _ m ih =>
    rw [Nat.toDigits_eq_if (by decide), Nat.toDigits_eq_if (n := n) (by decide)] at hd
    split_ifs at hd with hm hn hn
    · exact digitChar_inj hm hn (List.singleton_inj.1 hd)
    · have hlen := congrArg List.length hd
      simp at hlen
    · have hlen := congrArg List.length hd
      simp at hlen
    · obtain ⟨hq, hr⟩ := List.append_inj' hd rfl
      have hq := ih (m / 10) (Nat.div_lt_self (by omega) (by decide)) hq
      have hr := digitChar_inj (Nat.mod_lt m (by decide)) (Nat.mod_lt n (by decide))
        (List.singleton_inj.1 hr)
      omega

theorem utf8ByteSize_ofList (l : List Char) :
    (String.ofList l).utf8ByteSize = (l.map Char.utf8Size).sum := by
  induction l with
  | nil => simp
  | cons c l ih =>
    rw [show c :: l = [c] ++ l from rfl, String.ofList_append, String.utf8ByteSize_append, ih]
    simp

/-- A row key has one byte per decimal digit. -/
theorem utf8ByteSize_toString (n : Nat) :
    (toString n).utf8ByteSize = (Nat.toDigits 10 n).length := by
  have hdigit : ∀ c ∈ Nat.toDigits 10 n, c.utf8Size = 1 := fun c hc => by
    have h := Nat.isDigit_of_mem_toDigits (by decide) (by decide) hc
    simp only [Char.isDigit, Bool.and_eq_true, decide_eq_true_eq] at h
    have h57 : c.val.toNat ≤ 57 := h.2
    exact Char.utf8Size_eq_one_iff.2 (UInt32.le_iff_toNat_le.2 (by show c.val.toNat ≤ 127; omega))
  rw [Nat.toString_eq_ofList_toDigits, utf8ByteSize_ofList, List.map_congr_left hdigit,
    List.map_const', List.sum_replicate]
  simp

/-- The byte size of a time column of `n` rows: the empty object, and for each row its type
byte, its row key with the zero byte after it, and the eight bytes of a date. -/
def timeColumnSize : Nat → Nat
  | 0 => 5
  | n + 1 => timeColumnSize n + (10 + (toString n).utf8ByteSize)

/-- The first row count with `k + 1` digits, 0 for one digit. -/
def tableRows (k : Nat) : Nat := if k = 0 then 0 else 10 ^ k

/-- The size the table gives for `tableRows k` rows. -/
def tableSize (k : Nat) : Int := (kTimestampObjSizeTable.getD k (0, 0)).2

theorem length_toDigits_of_tableRows_le {k n : Nat} (h1 : tableRows k ≤ n)
    (h2 : n < 10 ^ (k + 1)) :
    (Nat.toDigits 10 n).length = k + 1 := by
  have hle : (Nat.toDigits 10 n).length ≤ k + 1 :=
    (Nat.length_toDigits_le_iff (by decide) (by omega)).2 h2
  by_cases hk : k = 0
  · have := Nat.length_toDigits_pos (b := 10) (n := n)
    omega
  · have hlo : ¬ (Nat.toDigits 10 n).length ≤ k := by
      rw [Nat.length_toDigits_le_iff (by decide) (by omega)]
      simp only [tableRows, hk, if_false] at h1
      omega
    omega

/-- Between two row counts of the table a row takes `11 + k` bytes. -/
theorem timeColumnSize_of_le {k n : Nat} (h1 : tableRows k ≤ n) (h2 : n ≤ 10 ^ (k + 1)) :
    timeColumnSize n = timeColumnSize (tableRows k) + (n - tableRows k) * (11 + k) := by
  induction n, h1 using Nat.le_induction with
  | base => simp
  | succ n hkn ih =>
    rw [timeColumnSize, ih (by omega), utf8ByteSize_toString,
      length_toDigits_of_tableRows_le hkn (by omega), Nat.sub_add_comm hkn, Nat.succ_mul]
    omega

theorem tableSize_succ : ∀ k < 7,
    tableSize (k + 1) = tableSize k + ((tableRows (k + 1) - tableRows k) * (11 + k) : Nat) := by
  decide

/-- Each size of the table is the size of a time column with its row count. -/
theorem timeColumnSize_tableRows {k : Nat} (hk : k < 8) :
    (timeColumnSize (tableRows k) : Int) = tableSize k := by
  induction k with
  | zero => rfl
  | succ k ih =>
    have hrows : tableRows (k + 1) = 10 ^ (k + 1) := by simp [tableRows]
    have hle : tableRows k ≤ tableRows (k + 1) := by
      rw [hrows]; unfold tableRows; split <;> simp [Nat.pow_le_pow_right]
    rw [timeColumnSize_of_le hle (by rw [hrows]), tableSize_succ k (by omega), ← ih (by omega)]
    push_cast
    ring

theorem tableSize_lt_succ : ∀ k < 7, tableSize k < tableSize (k + 1) := by
  decide

theorem tableSize_mono {j k : Nat} (hjk : j ≤ k) (hk : k < 8) : tableSize j ≤ tableSize k := by
  induction k, hjk using Nat.le_induction with
  | base => exact le_refl _
  | succ k hjk ih => exact (ih (by omega)).trans (tableSize_lt_succ k (by omega)).le

theorem getD_kTimestampObjSizeTable {k : Nat} (hk : k < 8) :
    kTimestampObjSizeTable.getD k (0, 0) = ((tableRows k : Int), tableSize k) := by
  have : ∀ k < 8, kTimestampObjSizeTable.getD k (0, 0) = ((tableRows k : Int), tableSize k) := by
    decide
  exact this k hk

/-- A size past the `k`th entry and up to the next is probed at the next entry. -/
theorem findIdx?_kTimestampObjSizeTable {t : Int} {k : Nat} (hk : k < 7) (h1 : tableSize k < t)
    (h2 : t ≤ tableSize (k + 1)) :
    kTimestampObjSizeTable.findIdx? (fun entry => t ≤ entry.2) = some (k + 1) := by
  rw [List.findIdx?_eq_some_iff_getElem]
  have hlen : kTimestampObjSizeTable.length = 8 := rfl
  refine ⟨by omega, ?_, fun j hj => ?_⟩
  · have := getD_kTimestampObjSizeTable (k := k + 1) (by omega)
    rw [List.getD_eq_getElem _ _ (by rw [hlen]; omega)] at this
    simpa [this] using h2
  · have := getD_kTimestampObjSizeTable (k := j) (by omega)
    rw [List.getD_eq_getElem _ _ (by rw [hlen]; omega)] at this
    have hj := tableSize_mono (j := j) (k := k) (by omega) (by omega)
    simp only [this, decide_eq_true_eq, not_le]
    omega

/-- `computeMeasurementCount` reads the row count of a time column back from its size, up to
the last row count of the table. -/
theorem computeMeasurementCount_timeColumnSize {n : Nat} (hn : n ≤ 10 ^ 7) :
    computeMeasurementCount (timeColumnSize n) = .ok n := by
  rcases Nat.eq_zero_or_pos n with rfl | hpos
  · decide
  -- the interval of the table that holds `n`: rows with `k + 1` digits, past `tableRows k`
  obtain ⟨k, hk, hlo, hhi⟩ : ∃ k < 7, tableRows k < n ∧ n ≤ 10 ^ (k + 1) := by
    simp only [tableRows]
    by_cases h1 : n ≤ 10; · exact ⟨0, by omega, by simp; omega, by omega⟩
    by_cases h2 : n ≤ 100; · exact ⟨1, by omega, by simp; omega, by omega⟩
    by_cases h3 : n ≤ 1000; · exact ⟨2, by omega, by simp; omega, by omega⟩
    by_cases h4 : n ≤ 10000; · exact ⟨3, by omega, by simp; omega, by omega⟩
    by_cases h5 : n ≤ 100000; · exact ⟨4, by omega, by simp; omega, by omega⟩
    by_cases h6 : n ≤ 1000000; · exact ⟨5, by omega, by simp; omega, by omega⟩
    exact ⟨6, by omega, by simp; omega, by omega⟩
  have hsize := timeColumnSize_of_le hlo.le hhi
  have hbase := timeColumnSize_tableRows (k := k) (by omega)
  have hnext := timeColumnSize_tableRows (k := k + 1) (by omega)
  have hrows : tableRows (k + 1) = 10 ^ (k + 1) := by simp [tableRows]
  have htop := timeColumnSize_of_le (k := k) (n := tableRows (k + 1)) (by omega) (by omega)
  -- the size lies past the entry of `tableRows k` and up to the next one
  have h1 : tableSize k < (timeColumnSize n : Int) := by
    rw [← hbase, hsize]
    have : 0 < (n - tableRows k) * (11 + k) := Nat.mul_pos (by omega) (by omega)
    omega
  have h2 : (timeColumnSize n : Int) ≤ tableSize (k + 1) := by
    rw [← hnext, htop, hsize]
    have : (n - tableRows k) * (11 + k) ≤ (tableRows (k + 1) - tableRows k) * (11 + k) :=
      Nat.mul_le_mul_right _ (by omega)
    omega
  unfold computeMeasurementCount
  rw [findIdx?_kTimestampObjSizeTable hk h1 h2]
  simp only [getD_kTimestampObjSizeTable (k := k + 1) (by omega), Nat.add_sub_cancel,
    getD_kTimestampObjSizeTable (k := k) (by omega), Nat.add_one_ne_zero, if_false]
  split
  · -- a hit: the size of `tableRows (k + 1)` rows is that of `n` rows only at `n` itself
    rename_i hhit
    have : (n - tableRows k) * (11 + k) = (tableRows (k + 1) - tableRows k) * (11 + k) := by
      rw [← hnext, htop, hsize] at hhit
      omega
    have := Nat.eq_of_mul_eq_mul_right (by omega) this
    congr 1
    omega
  · -- `n - tableRows k` whole rows of `11 + k` bytes past the entry
    have hdiv : ((timeColumnSize n : Int) - tableSize k).tdiv (10 + (1 + (k : Int))) =
        (n - tableRows k : Nat) := by
      rw [← hbase, hsize, Nat.cast_add, add_sub_cancel_left, Nat.cast_mul,
        show (10 + (1 + (k : Int))) = ((11 + k : Nat) : Int) by push_cast; ring,
        Int.mul_tdiv_cancel _ (by omega)]
    rw [hdiv]
    congr 1
    omega

end mongo.timeseries
