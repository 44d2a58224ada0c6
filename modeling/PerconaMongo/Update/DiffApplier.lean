-- `doc_diff::applyDiff` of document_diff_applier: a `$v: 2` diff applied to a pre-image. The
-- diff of an object is first read into tables, one entry per field name; the pre-image's
-- fields are then copied in order, each deleted, replaced, dropped (an insert, added at the
-- end) or diffed as its entry says, and the updates and inserts not yet written are appended.
-- A sub-diff meets a value of another type when an old diff is applied again to a later
-- document; the field is then set to null, for a later diff to overwrite. An array diff is
-- applied by index, padding with nulls past the pre-image's end. Whether indexes are affected,
-- which the result also carries, is not modelled.
import PerconaMongo.Update.DiffReader

namespace mongo.doc_diff

/-- `DocumentDiffTables::FieldModification`. -/
inductive FieldModification
  | delete
  | update (newElt : String × BSONValue)
  | insert (newElt : String × BSONValue)
  | subDiff (reader : SubDiffReader)

/-- `DocumentDiffTables`: the modification of each field name, the fields to add at the end in
order, and whether the diff only inserts. The size of the fields to insert, used only to reserve
the buffer, is left out. -/
structure DocumentDiffTables where
  fieldMap : List (String × FieldModification)
  fieldsToInsert : BSONObj
  insertOnly : Bool

namespace DocumentDiffTables

/-- `safeInsert`: a second entry for one field name makes the diff invalid. -/
def safeInsert (tables : DocumentDiffTables) (fieldName : String) (mod : FieldModification) :
    Except DiffError DocumentDiffTables :=
  if (tables.fieldMap.lookup fieldName).isSome then
    throw (.userAssertion 4728000 ("duplicate field name in diff: " ++ fieldName))
  else pure { tables with fieldMap := tables.fieldMap ++ [(fieldName, mod)] }

def addDelete (tables : DocumentDiffTables) (field : String × BSONValue) :
    Except DiffError DocumentDiffTables := do
  let tables ← tables.safeInsert field.1 .delete
  pure { tables with insertOnly := false }

def addUpdate (tables : DocumentDiffTables) (elt : String × BSONValue) :
    Except DiffError DocumentDiffTables := do
  let tables ← tables.safeInsert elt.1 (.update elt)
  pure { tables with fieldsToInsert := tables.fieldsToInsert ++ [elt], insertOnly := false }

def addInsert (tables : DocumentDiffTables) (elt : String × BSONValue) :
    Except DiffError DocumentDiffTables := do
  let tables ← tables.safeInsert elt.1 (.insert elt)
  pure { tables with fieldsToInsert := tables.fieldsToInsert ++ [elt] }

def addSubDiff (tables : DocumentDiffTables) (field : String × BSONValue) :
    Except DiffError DocumentDiffTables := do
  let (fieldName, reader) ← DocumentDiffReader.parseSubDiff field
  let tables ← tables.safeInsert fieldName (.subDiff reader)
  pure { tables with insertOnly := false }

end DocumentDiffTables

/-- `buildObjDiffTables`: the deletes, the updates, the inserts, then the sub-diffs. -/
def buildObjDiffTables (reader : DocumentDiffReader) : Except DiffError DocumentDiffTables := do
  let out : DocumentDiffTables := ⟨[], [], true⟩
  let out ← (reader.deletes.getD []).foldlM DocumentDiffTables.addDelete out
  let out ← (reader.updates.getD []).foldlM DocumentDiffTables.addUpdate out
  let out ← (reader.inserts.getD []).foldlM DocumentDiffTables.addInsert out
  (reader.subDiffs.getD []).foldlM DocumentDiffTables.addSubDiff out

/-- `DiffApplier::applyDiffToObject`. Its loop over the pre-image's fields is passed in as
`appendPreImageFields`, which returns the fields written and the names not to insert again; so
the recursion into sub-objects stays structural. -/
def applyDiffToObject (mustCheckExistenceForInsertOperations : Bool) (preImage : BSONObj)
    (reader : DocumentDiffReader)
    (appendPreImageFields : DocumentDiffTables → Except DiffError (BSONObj × List String)) :
    Except DiffError BSONObj := do
  let tables ← buildObjDiffTables reader
  if !mustCheckExistenceForInsertOperations && tables.insertOnly then
    pure (preImage ++ tables.fieldsToInsert)
  else do
    let (out, fieldsToSkipInserting) ← appendPreImageFields tables
    pure (out ++ tables.fieldsToInsert.filter fun elt => !fieldsToSkipInserting.contains elt.1)

/-- The invariant at the end of `applyDiffToArray`, once no modification is left: the nulls up
to the resize, which the loop may not have passed. -/
def padToResize (resizeVal : Option Nat) (idx : Nat) : Except DiffError (List BSONValue) :=
  match resizeVal with
  | none => pure []
  | some size => if idx ≤ size then pure (List.replicate (size - idx) .null)
    else throw .invariantFailure

/-- The second loop of `applyDiffToArray`, past the pre-image's end: nulls up to the next
modification, which `appendNewValueForArrayIndex` applies with no pre-image value (an update's
value, or null for a sub-diff), and so on to the resize. A modification whose index is behind
the loop's is never reached, and the loop never ends. -/
def appendRemaining (resizeVal : Option Nat) :
    Option (Nat × ArrayModification) → BSONObj → Nat → Except DiffError (List BSONValue)
  | none, _, idx => padToResize resizeVal idx
  | some (j, mod), mods, idx =>
    if j < idx then throw .nonTermination
    else do
      let value : BSONValue := match mod with
        | .update elt => elt
        | .subDiff _ => .null
      let tail ← match mods with
        | [] => padToResize resizeVal (j + 1)
        | field :: fields => do
          let nextMod ← ArrayDiffReader.parseModification field
          appendRemaining resizeVal (some nextMod) fields (j + 1)
      pure (List.replicate (j - idx) .null ++ value :: tail)

/-- `DiffApplier::applyDiffToArray`. Its first loop, over the pre-image, is passed in as
`appendPreImageElements`. -/
def applyDiffToArray (reader : ArrayDiffReader)
    (appendPreImageElements :
      Option Nat → Nat → Option (Nat × ArrayModification) → BSONObj →
        Except DiffError (List BSONValue)) :
    Except DiffError (List BSONValue) := do
  let (nextMod, mods) ← ArrayDiffReader.next reader.modifications
  appendPreImageElements reader.newSize 0 nextMod mods

/-- The modification at index `idx`, if it is the next one. -/
def modificationAt : Option (Nat × ArrayModification) → Nat → Option ArrayModification
  | some (j, mod), idx => if idx = j then some mod else none
  | none, _ => none

mutual

/-- A sub-diff applied to a value the pre-image has, as the `SubDiff` case of
`applyDiffToObject` and `appendNewValueForArrayIndex` with a pre-image value do: into an
object or an array of the type the diff expects, and null on any other. -/
def applySubDiff (mustCheck : Bool) : BSONValue → SubDiffReader → Except DiffError BSONValue
  | .object fields, .document reader =>
    .object <$> applyDiffToObject mustCheck fields reader (appendPreImageFields mustCheck fields · [])
  | .array elems, .array reader =>
    .array <$> applyDiffToArray reader (appendPreImageElements mustCheck elems)
  | _, _ => pure .null

/-- The loop of `applyDiffToObject` over the pre-image's fields. -/
def appendPreImageFields (mustCheck : Bool) :
    BSONObj → DocumentDiffTables → List String → Except DiffError (BSONObj × List String)
  | [], _, fieldsToSkipInserting => pure ([], fieldsToSkipInserting)
  | (fieldName, elt) :: rest, tables, skip =>
    match tables.fieldMap.lookup fieldName with
    | none => do
      let (out, skip) ← appendPreImageFields mustCheck rest tables skip
      pure ((fieldName, elt) :: out, skip)
    | some .delete => appendPreImageFields mustCheck rest tables skip
    | some (.update newElt) => do
      let (out, skip) ← appendPreImageFields mustCheck rest tables (fieldName :: skip)
      pure (newElt :: out, skip)
    | some (.insert _) => appendPreImageFields mustCheck rest tables skip
    | some (.subDiff reader) => do
      let value ← applySubDiff mustCheck elt reader
      let (out, skip) ← appendPreImageFields mustCheck rest tables skip
      pure ((fieldName, value) :: out, skip)

/-- The first loop of `applyDiffToArray`, over the pre-image up to the resize: the element kept,
or the modification at its index applied to it. -/
def appendPreImageElements (mustCheck : Bool) :
    List BSONValue → Option Nat → Nat → Option (Nat × ArrayModification) → BSONObj →
      Except DiffError (List BSONValue)
  | [], resizeVal, idx, nextMod, mods => appendRemaining resizeVal nextMod mods idx
  | elt :: rest, resizeVal, idx, nextMod, mods =>
    if resizeVal.all (idx < ·) then
      match modificationAt nextMod idx with
      | some mod => do
        let value ← match mod with
          | .update newElt => pure newElt
          | .subDiff reader => applySubDiff mustCheck elt reader
        let (nextMod, mods) ← ArrayDiffReader.next mods
        (value :: ·) <$> appendPreImageElements mustCheck rest resizeVal (idx + 1) nextMod mods
      | none => (elt :: ·) <$> appendPreImageElements mustCheck rest resizeVal (idx + 1) nextMod mods
    else appendRemaining resizeVal nextMod mods idx

end

/-- `doc_diff::applyDiff`: the post-image. -/
def applyDiff (pre : BSONObj) (diff : Diff) (mustCheckExistenceForInsertOperations : Bool) :
    Except DiffError BSONObj := do
  let reader ← DocumentDiffReader.make diff
  applyDiffToObject mustCheckExistenceForInsertOperations pre reader
    (appendPreImageFields mustCheckExistenceForInsertOperations pre · [])

end mongo.doc_diff
