-- The diff tree of document_diff_serialization: the nodes the diff calculator builds, the
-- approximate BSON size each internal node tracks as children are added, and `writeDiff`,
-- which turns a tree into the `$v: 2` diff object. A document node writes its deletes as
-- `{d: {f: false}}`, its updates under `u` and its inserts under `i`, each in the order they
-- were added, then one `s<field>` object per sub-diff; an array node writes the header
-- `a: true`, a resize `l` and one `u<index>` or `s<index>` per child. Each internal node also
-- keeps its children in a map, by name or by index, and `addChild` stops the server with
-- `invariant(result.second)` when the map already holds the key; the map's keys are the names
-- of the node's sections, or the indexes of its children, so the model keeps the sections and
-- checks the key against them. `appendChild` is what `addChild` does once the key is new. The
-- mutable-element payloads of the update driver are not modelled: the calculator adds only
-- `BSONElement`s.
import PerconaMongo.Bson.Document

namespace mongo.diff_tree

/-- `kSizeOfEmptyDocumentDiffBuilder`. -/
def kSizeOfEmptyDocumentDiffBuilder : Nat := 5

/-- `kSizeOfEmptyArrayDiffBuilder`: the empty object, the header field and its value. -/
def kSizeOfEmptyArrayDiffBuilder : Nat := 9

/-- `DocumentSubDiffNode`: its entries by kind, each list in the order of `addChild`, and its
size tracker. -/
structure DocumentSubDiffNode (Node : Type) where
  deletes : List String
  updates : List (String × BSONValue)
  inserts : List (String × BSONValue)
  subDiffs : List (String × Node)
  sizeTracker : Nat

/-- `ArrayNode`: its children by index, a resize, and its size tracker. -/
structure ArrayNode (Node : Type) where
  children : List (Nat × Node)
  resize : Option Nat
  sizeTracker : Nat

/-- `diff_tree::Node`, by its `NodeType`. -/
inductive Node
  | documentSubDiff (node : DocumentSubDiffNode Node)
  | array (node : ArrayNode Node)
  | delete
  | update (elt : BSONValue)
  | insert (elt : BSONValue)

/-- The part of `ApproxBSONSizeTracker::addEntry` that depends on the node: the tracked size of
an internal node, the value of an update or an insert, the boolean of a delete. -/
def Node.entrySize : Node → Nat
  | .documentSubDiff node => node.sizeTracker
  | .array node => node.sizeTracker
  | .update elt | .insert elt => elt.valuesize
  | .delete => 1

/-- `ApproxBSONSizeTracker::addSizeForWrapping`: the type byte, one-byte name, zero byte and
empty object of a section. -/
def sizeForWrapping : Nat := 8

/-- The `invariant` of a node that the calculator can trip: `invariant(result.second)` of an
`addChild` whose key the children map already holds. -/
inductive DiffTreeError
  | invariantFailure
  deriving DecidableEq, Repr

namespace DocumentSubDiffNode

/-- `DocumentSubDiffNode(size)`: the padding and the empty object. -/
def init (size : Nat) : DocumentSubDiffNode Node :=
  ⟨[], [], [], [], size + kSizeOfEmptyDocumentDiffBuilder⟩

/-- The keys of the children map: every field name the node has an entry for. -/
def names (n : DocumentSubDiffNode Node) : List String :=
  n.deletes ++ n.updates.map Prod.fst ++ n.inserts.map Prod.fst ++ n.subDiffs.map Prod.fst

/-- `DocumentSubDiffNode::addChild` once the children map has taken the name: the entry's size,
then the entry in its section, with the wrapping of a section when it gets its first entry and
the `s` prefix of a sub-diff. -/
def appendChild (n : DocumentSubDiffNode Node) (fieldName : String) (node : Node) :
    DocumentSubDiffNode Node :=
  let n := { n with sizeTracker := n.sizeTracker + (fieldName.utf8ByteSize + 2 + node.entrySize) }
  match node with
  | .documentSubDiff _ | .array _ =>
    { n with
      sizeTracker := n.sizeTracker + 1
      subDiffs := n.subDiffs ++ [(fieldName, node)] }
  | .insert elt =>
    { n with
      sizeTracker := n.sizeTracker + (if n.inserts.isEmpty then sizeForWrapping else 0)
      inserts := n.inserts ++ [(fieldName, elt)] }
  | .delete =>
    { n with
      sizeTracker := n.sizeTracker + (if n.deletes.isEmpty then sizeForWrapping else 0)
      deletes := n.deletes ++ [fieldName] }
  | .update elt =>
    { n with
      sizeTracker := n.sizeTracker + (if n.updates.isEmpty then sizeForWrapping else 0)
      updates := n.updates ++ [(fieldName, elt)] }

/-- `DocumentSubDiffNode::addChild`: `children.insert` of a name the map holds fails
`invariant(result.second)`. -/
def addChild (n : DocumentSubDiffNode Node) (fieldName : String) (node : Node) :
    Except DiffTreeError (DocumentSubDiffNode Node) :=
  if fieldName ∈ n.names then .error .invariantFailure else .ok (n.appendChild fieldName node)

def appendUpdate (n : DocumentSubDiffNode Node) (fieldName : String) (value : BSONValue) :
    DocumentSubDiffNode Node :=
  n.appendChild fieldName (.update value)

def appendInsert (n : DocumentSubDiffNode Node) (fieldName : String) (value : BSONValue) :
    DocumentSubDiffNode Node :=
  n.appendChild fieldName (.insert value)

def appendDelete (n : DocumentSubDiffNode Node) (fieldName : String) : DocumentSubDiffNode Node :=
  n.appendChild fieldName .delete

def addUpdate (n : DocumentSubDiffNode Node) (fieldName : String) (value : BSONValue) :
    Except DiffTreeError (DocumentSubDiffNode Node) :=
  n.addChild fieldName (.update value)

def addInsert (n : DocumentSubDiffNode Node) (fieldName : String) (value : BSONValue) :
    Except DiffTreeError (DocumentSubDiffNode Node) :=
  n.addChild fieldName (.insert value)

def addDelete (n : DocumentSubDiffNode Node) (fieldName : String) :
    Except DiffTreeError (DocumentSubDiffNode Node) :=
  n.addChild fieldName .delete

end DocumentSubDiffNode

namespace ArrayNode

def init : ArrayNode Node := ⟨[], none, kSizeOfEmptyArrayDiffBuilder⟩

/-- `ArrayNode::addChild` once the children map has taken the index: the modification type byte
and the digits of the index. The map is ordered by index; the calculator adds indexes in
increasing order, so appending keeps that order. -/
def appendChild (n : ArrayNode Node) (idx : Nat) (node : Node) : ArrayNode Node :=
  { n with
    sizeTracker := n.sizeTracker + (1 + (toString idx).length + 2 + node.entrySize)
    children := n.children ++ [(idx, node)] }

/-- `ArrayNode::addChild`: `children.insert` of an index the map holds fails
`invariant(itr.second)`. -/
def addChild (n : ArrayNode Node) (idx : Nat) (node : Node) :
    Except DiffTreeError (ArrayNode Node) :=
  if idx ∈ n.children.map Prod.fst then .error .invariantFailure else .ok (n.appendChild idx node)

def appendUpdate (n : ArrayNode Node) (idx : Nat) (value : BSONValue) : ArrayNode Node :=
  n.appendChild idx (.update value)

def addUpdate (n : ArrayNode Node) (idx : Nat) (value : BSONValue) :
    Except DiffTreeError (ArrayNode Node) :=
  n.addChild idx (.update value)

/-- `ArrayNode::setResize`: the name `l`, an int, the type byte and the zero byte. -/
def setResize (n : ArrayNode Node) (size : Nat) : ArrayNode Node :=
  { n with resize := some size, sizeTracker := n.sizeTracker + (1 + 4 + 2) }

end ArrayNode

/-- The `d` section of a document diff: each deleted field with the value false. -/
def deleteSection (deletes : List String) : BSONObj :=
  if deletes.isEmpty then [] else [("d", .object (deletes.map fun f => (f, .bool false)))]

/-- The `u` or the `i` section of a document diff, if it has entries. -/
def wrapSection (name : String) (entries : BSONObj) : BSONObj :=
  if entries.isEmpty then [] else [(name, .object entries)]

/-- The header of an array diff and its resize: `static_cast<int>` of the size, in an int. -/
def arrayHeader (resize : Option Nat) : BSONObj :=
  ("a", .bool true) :: (match resize with
    | some size => [("l", .int32 size)]
    | none => [])

mutual

/-- `writeDiff` of an internal node; the source writes only internal nodes as sub-diffs. -/
def Node.serialize : Node → BSONObj
  | .documentSubDiff node => DocumentSubDiffNode.serialize node
  | .array node => ArrayNode.serialize node
  | _ => []

/-- `DocumentSubDiffFrame::execute`: deletes, updates, inserts, then the sub-diffs. -/
def DocumentSubDiffNode.serialize : DocumentSubDiffNode Node → BSONObj
  | ⟨deletes, updates, inserts, subDiffs, _⟩ =>
    deleteSection deletes ++ wrapSection "u" updates ++ wrapSection "i" inserts ++
      serializeSubDiffs subDiffs

/-- `ArrayFrame::execute`: the header, the resize, then the children by index. -/
def ArrayNode.serialize : ArrayNode Node → BSONObj
  | ⟨children, resize, _⟩ => arrayHeader resize ++ serializeChildren children

def serializeSubDiffs : List (String × Node) → BSONObj
  | [] => []
  | (fieldName, child) :: rest =>
    ("s" ++ fieldName, .object child.serialize) :: serializeSubDiffs rest

/-- The children of an array node: an update or an insert under `u<index>`, a sub-diff under
`s<index>`. -/
def serializeChildren : List (Nat × Node) → BSONObj
  | [] => []
  | (idx, .update elt) :: rest | (idx, .insert elt) :: rest =>
    ("u" ++ toString idx, elt) :: serializeChildren rest
  | (idx, child) :: rest => ("s" ++ toString idx, .object child.serialize) :: serializeChildren rest

end

end mongo.diff_tree
