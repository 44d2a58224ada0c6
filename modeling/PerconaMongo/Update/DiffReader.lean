-- The readers of document_diff_serialization, which check a `$v: 2` diff as they read it. A
-- document diff has a `d`, a `u` and an `i` section, each at most once and in that order, then
-- its `s<field>` sub-diffs; an array diff starts with `a: true`, may have a resize `l`, then
-- `u<index>` and `s<index>` entries. A sub-diff is an array diff when its first field is `a`.
-- Where a message prints an element (`<< next`), the model keeps the text around it only.
import PerconaMongo.Update.DiffCalculator

namespace mongo.doc_diff

/-- How reading or applying a diff fails: a `uassert` with its code and message, the invariant
at the end of `applyDiffToArray`, or its second loop never ending, on a modification whose
index it has passed. -/
inductive DiffError
  | userAssertion (code : Nat) (reason : String)
  | invariantFailure
  | nonTermination
  deriving DecidableEq, Repr

/-- `kArrayHeader`. -/
def kArrayHeader : String := "a"

/-- `kResizeSectionFieldName`. -/
def kResizeSectionFieldName : String := "l"

/-- `assertDiffNonEmpty`. -/
def diffEmptyError : DiffError := .userAssertion 4770500 "Expected diff to be non-empty"

/-- `checkSection`. -/
def checkSection (element : String × BSONValue) (sectionName : Char) (expectedType : BSONType) :
    Except DiffError Unit :=
  if element.2.type = expectedType then pure ()
  else throw (.userAssertion 4770507
    ("Expected " ++ sectionName.toString ++ " section to be type " ++ expectedType.typeName))

/-- `str::parseUnsignedBase10Integer`: a string of decimal digits, the first a digit, whose value
fits an `unsigned int`. -/
def parseUnsignedBase10Integer (fieldName : String) : Option Nat :=
  match fieldName.toList with
  | [] => none
  | digits =>
    if digits.all Char.isDigit then
      let index := Nat.ofDigitChars 10 digits 0
      if index < 2 ^ 32 then some index else none
    else none

/-- `extractArrayIndex`. -/
def extractArrayIndex (fieldName : String) : Except DiffError Nat :=
  match parseUnsignedBase10Integer fieldName with
  | some idx => pure idx
  | none => throw (.userAssertion 4770512 ("Expected integer but got " ++ fieldName))

/-- The conversion of `_newSize.emplace(int)`: an `int` as a `size_t`. -/
def sizeTOfInt (n : Int) : Nat := (n % 2 ^ 64).toNat

/-- A `DocumentDiffReader` after its constructor: the iterator of each section it found, the
last one over the diff's fields from the first sub-diff on. -/
structure DocumentDiffReader where
  deletes : Option BSONObj
  updates : Option BSONObj
  inserts : Option BSONObj
  subDiffs : Option BSONObj

/-- An `ArrayDiffReader` after its constructor: the resize, and the fields `next` reads. -/
structure ArrayDiffReader where
  newSize : Option Nat
  modifications : BSONObj

/-- The reader `getReader` makes of a sub-diff. -/
inductive SubDiffReader
  | document (reader : DocumentDiffReader)
  | array (reader : ArrayDiffReader)

/-- `ArrayDiffReader::ArrayModification`: an update, or a sub-diff. -/
inductive ArrayModification
  | update (elt : BSONValue)
  | subDiff (reader : SubDiffReader)

/-- The sections map of the `DocumentDiffReader` constructor: each section's letter and the
place it must come in. -/
def sectionOrder : Char → Option Nat
  | 'd' => some 1
  | 'u' => some 2
  | 'i' => some 3
  | 's' => some 4
  | _ => none

namespace DocumentDiffReader

def empty : DocumentDiffReader := ⟨none, none, none, none⟩

/-- The iterator of a `d`, `u` or `i` section. -/
def setSection (reader : DocumentDiffReader) (sectionName : Char) (fields : BSONObj) :
    DocumentDiffReader :=
  match sectionName with
  | 'd' => { reader with deletes := some fields }
  | 'u' => { reader with updates := some fields }
  | _ => { reader with inserts := some fields }

/-- The loop of the constructor: each section once and in order, until the first sub-diff,
whose field and those after it are left to `nextSubDiff`. -/
def scan (prev : Nat) (reader : DocumentDiffReader) : BSONObj → Except DiffError DocumentDiffReader
  | [] => pure reader
  | field :: rest =>
    match field.1.toList with
    | [] => throw (.userAssertion 4770505 "Expected sections field names in diff to be non-empty ")
    | sectionName :: _ =>
      match sectionOrder sectionName with
      | some order =>
        if prev < order then do
          checkSection field sectionName .object
          if sectionName = 's' then pure { reader with subDiffs := some (field :: rest) }
          else scan order (reader.setSection sectionName field.2.embeddedObject) rest
        else throw (.userAssertion 4770503
          ("Unexpected section: " ++ sectionName.toString ++ " in document diff"))
      | none => throw (.userAssertion 4770503
          ("Unexpected section: " ++ sectionName.toString ++ " in document diff"))

/-- The constructor. The check after its loop cannot fail: the loop stops at the end or at a
sub-diff. -/
def make (diff : Diff) : Except DiffError DocumentDiffReader :=
  if diff.isEmpty then throw diffEmptyError else scan 0 empty diff

end DocumentDiffReader

/-- The constructor of `ArrayDiffReader`: the header, then the resize if there is one. -/
def ArrayDiffReader.make (diff : Diff) : Except DiffError ArrayDiffReader :=
  match diff with
  | [] => throw diffEmptyError
  | (fieldName, header) :: rest =>
    if fieldName ≠ kArrayHeader then
      throw (.userAssertion 4770504
        ("Expected first field to be array header " ++ kArrayHeader ++ " but found " ++ fieldName))
    else if header.type ≠ .bool then
      throw (.userAssertion 4770519 "Expected array header to be bool but got ")
    else if !header.boolean then
      throw (.userAssertion 4770520 "Expected array header to be value true but got ")
    else
      match rest with
      | (name, size) :: rest' =>
        if name = kResizeSectionFieldName then do
          checkSection (name, size) 'l' .numberInt
          pure ⟨some (sizeTOfInt size.numberInt), rest'⟩
        else pure ⟨none, rest⟩
      | [] => pure ⟨none, []⟩

/-- `getReader`: by `identifyType`, an array diff when the first field is the header. -/
def getReader (diff : Diff) : Except DiffError SubDiffReader :=
  match diff with
  | [] => throw diffEmptyError
  | (fieldName, _) :: _ =>
    if fieldName = kArrayHeader then .array <$> ArrayDiffReader.make diff
    else .document <$> DocumentDiffReader.make diff

/-- `ArrayDiffReader::next` on the field it reads: the index after the first letter, then an
update for `u` or a sub-diff for `s`. -/
def ArrayDiffReader.parseModification (field : String × BSONValue) :
    Except DiffError (Nat × ArrayModification) := do
  let (fieldName, value) := field
  if fieldName.utf8ByteSize ≤ 1 then
    throw (.userAssertion 4770521
      ("expected field name to be at least two characters long, but found: " ++ fieldName))
  let idx ← extractArrayIndex (String.ofList (fieldName.toList.drop 1))
  match fieldName.toList, value with
  | 'u' :: _, _ => pure (idx, .update value)
  | 's' :: _, .object sub => do
    let reader ← getReader sub
    pure (idx, .subDiff reader)
  | 's' :: _, _ =>
    throw (.userAssertion 4770501 ("expected sub diff at index " ++ toString idx ++ " but got "))
  | _, _ =>
    throw (.userAssertion 4770502
      ("Expected either 'u' (update) or 's' (sub diff) at index " ++ toString idx ++ " but got "))

/-- `ArrayDiffReader::next`: the next modification, if any, and the fields after it. -/
def ArrayDiffReader.next : BSONObj → Except DiffError (Option (Nat × ArrayModification) × BSONObj)
  | [] => pure (none, [])
  | field :: rest => do
    let modification ← ArrayDiffReader.parseModification field
    pure (some modification, rest)

/-- `DocumentDiffReader::nextSubDiff` on the field it reads: the field name after the `s`, and
the reader of the sub-diff. -/
def DocumentDiffReader.parseSubDiff (field : String × BSONValue) :
    Except DiffError (String × SubDiffReader) :=
  match field.1.toList, field.2 with
  | 's' :: name, .object sub => do
    let reader ← getReader sub
    pure (String.ofList name, reader)
  | 's' :: _, _ => throw (.userAssertion 470510 "Subdiffs should be objects, got ")
  | _, _ =>
    throw (.userAssertion 4770514 ("Did not expect more sections in diff but found one: " ++ field.1))

end mongo.doc_diff
