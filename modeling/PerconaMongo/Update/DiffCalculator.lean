-- `doc_diff::computeDiff` of document_diff_calculator: the `$v: 2` delta between a pre-image
-- and a post-image. The fields of the two objects are walked in step: equal fields are
-- skipped, a field of one name in both is updated (or diffed, when both are objects or both
-- arrays), and a pre-image field whose name is not the post-image's is deleted for now, to be
-- taken back as an insert if it turns up later. Arrays are walked by position, with a resize
-- when the new one is shorter. Each level gives up, and the parent writes the whole new value,
-- once its diff is not smaller than the new value. Every entry goes through `addChild`, whose
-- `invariant` stops the calculator on a name added twice, as a document with a repeated field
-- name makes it do. The same walk on nodes without the children map, `walkDocDiff` and the
-- others, is what the proofs about the diff are stated on: whenever the calculator returns, it
-- returns what the walk returns. The check of the indexes that the result carries
-- (`anyIndexesMightBeAffected`) is not modelled.
import PerconaMongo.Update.DiffTree
import PerconaMongo.Lib.Loops
import Mathlib.Data.List.Sort

namespace mongo.doc_diff

open diff_tree except_fold

/-- `doc_diff::Diff`. -/
abbrev Diff := BSONObj

/-- The end of `calculateSubDiffHelper`: the sub-diff as the child, or the whole new value where
there is no sub-diff smaller than it. -/
def calculateSubDiffHelper {N K : Type} (addChild : N → K → Node → Except DiffTreeError N)
    (subDiff : Option Node) (postVal : BSONValue) (fieldIdentifier : K) (diffNode : N) :
    Except DiffTreeError N :=
  match subDiff with
  | none => addChild diffNode fieldIdentifier (.update postVal)
  | some sub => addChild diffNode fieldIdentifier sub

/-- `std::set<StringData>::insert`: the set kept sorted. -/
def insertName (fieldName : String) (deletes : List String) : List String :=
  if fieldName ∈ deletes then deletes else deletes.orderedInsert (· ≤ ·) fieldName

/-- The end of `computeDocDiff`, once one of the two objects has no fields left: the rest of the
pre-image deleted, the rest of the post-image inserted (each insert taking its name out of the
pending deletes), the pending deletes in the order of the set, and the bail-out. -/
def computeDocDiffEnd (preRest postRest : BSONObj) (postObjSize : Nat)
    (diffNode : DocumentSubDiffNode Node) (deletes : List String) :
    Except DiffTreeError (Option (DocumentSubDiffNode Node)) := do
  let diffNode ← preRest.foldlM (fun n elt => n.addDelete elt.1) diffNode
  let (diffNode, deletes) ← postRest.foldlM
    (fun (nd : DocumentSubDiffNode Node × List String) elt =>
      (fun n => (n, nd.2.erase elt.1)) <$> nd.1.addInsert elt.1 elt.2) (diffNode, deletes)
  let diffNode ← deletes.foldlM (fun n deleteField => n.addDelete deleteField) diffNode
  pure (if postObjSize > diffNode.sizeTracker then some diffNode else none)

/-- The end of `computeArrayDiff`, once one of the two arrays has no elements left: the rest of
the post-image as updates, a resize if the pre-image is longer, and the bail-out. -/
def computeArrayDiffEnd (preRest postRest : List BSONValue) (postObjSize : Nat)
    (nFieldsInPostArray : Nat) (diffNode : ArrayNode Node) :
    Except DiffTreeError (Option (ArrayNode Node)) := do
  let (diffNode, nFieldsInPostArray) ← postRest.foldlM
    (fun (ni : ArrayNode Node × Nat) postVal =>
      (fun n => (n, ni.2 + 1)) <$> ni.1.addUpdate ni.2 postVal) (diffNode, nFieldsInPostArray)
  let diffNode := if preRest.isEmpty then diffNode else diffNode.setResize nFieldsInPostArray
  pure (if postObjSize > diffNode.sizeTracker then some diffNode else none)

mutual

/-- The sub-diff that `calculateSubDiffHelper` computes for two values of one type:
`computeDocDiff` of two objects, `computeArrayDiff` of two arrays, and none where it is not
smaller than the new value. -/
def computeSubDiff : BSONValue → BSONValue → Except DiffTreeError (Option Node)
  | .object pre, .object post =>
    Option.map .documentSubDiff <$>
      computeDocDiffLoop pre post (objsize post) (DocumentSubDiffNode.init 0) []
  | .array pre, .array post =>
    Option.map .array <$> computeArrayDiffLoop pre post (arrayObjsize post) 0 ArrayNode.init
  | _, _ => pure none

/-- The loop of `computeDocDiff` over the fields of the two objects, in step. -/
def computeDocDiffLoop (pre post : BSONObj) (postObjSize : Nat)
    (diffNode : DocumentSubDiffNode Node) (deletes : List String) :
    Except DiffTreeError (Option (DocumentSubDiffNode Node)) :=
  match pre, post with
  | (fieldName, preVal) :: preRest, (postName, postVal) :: postRest =>
    if postObjSize < diffNode.sizeTracker then pure none
    else if fieldName == postName && preVal.binaryEqual postVal then
      computeDocDiffLoop preRest postRest postObjSize diffNode deletes
    else if fieldName == postName then do
      let diffNode ← match preVal, postVal with
        | .object _, .object _ | .array _, .array _ => do
          calculateSubDiffHelper DocumentSubDiffNode.addChild (← computeSubDiff preVal postVal)
            postVal fieldName diffNode
        | _, _ => diffNode.addUpdate fieldName postVal
      computeDocDiffLoop preRest postRest postObjSize diffNode deletes
    else
      computeDocDiffLoop preRest ((postName, postVal) :: postRest) postObjSize diffNode
        (insertName fieldName deletes)
  | preRest, postRest => computeDocDiffEnd preRest postRest postObjSize diffNode deletes

/-- The loop of `computeArrayDiff` over the elements of the two arrays, in step. -/
def computeArrayDiffLoop (pre post : List BSONValue) (postObjSize : Nat)
    (nFieldsInPostArray : Nat) (diffNode : ArrayNode Node) :
    Except DiffTreeError (Option (ArrayNode Node)) :=
  match pre, post with
  | preVal :: preRest, postVal :: postRest =>
    if postObjSize < diffNode.sizeTracker then pure none
    else do
      let diffNode ←
        if preVal.binaryEqual postVal then pure diffNode
        else match preVal, postVal with
          | .object _, .object _ | .array _, .array _ => do
            calculateSubDiffHelper ArrayNode.addChild (← computeSubDiff preVal postVal) postVal
              nFieldsInPostArray diffNode
          | _, _ => diffNode.addUpdate nFieldsInPostArray postVal
      computeArrayDiffLoop preRest postRest postObjSize (nFieldsInPostArray + 1) diffNode
  | preRest, postRest => computeArrayDiffEnd preRest postRest postObjSize nFieldsInPostArray diffNode

end

/-- `computeDocDiff`. -/
def computeDocDiff (pre post : BSONObj) (padding : Nat) :
    Except DiffTreeError (Option (DocumentSubDiffNode Node)) :=
  computeDocDiffLoop pre post (objsize post) (DocumentSubDiffNode.init padding) []

/-- `computeArrayDiff`. -/
def computeArrayDiff (pre post : List BSONValue) : Except DiffTreeError (Option (ArrayNode Node)) :=
  computeArrayDiffLoop pre post (arrayObjsize post) 0 ArrayNode.init

/-- `doc_diff::computeDiff`: the diff of the two documents, if it is smaller than the
post-image. -/
def computeDiff (pre post : BSONObj) (padding : Nat) : Except DiffTreeError (Option Diff) := do
  match ← computeDocDiff pre post padding with
  | none => pure none
  | some diffNode =>
    let diff := diffNode.serialize
    pure (if objsize diff < objsize post then some diff else none)

/-! ## The walk without the children map -/

/-- `calculateSubDiffHelper` on nodes without the map. -/
def walkSubDiffHelper {N K : Type} (appendChild : N → K → Node → N) (subDiff : Option Node)
    (postVal : BSONValue) (fieldIdentifier : K) (diffNode : N) : N :=
  match subDiff with
  | none => appendChild diffNode fieldIdentifier (.update postVal)
  | some sub => appendChild diffNode fieldIdentifier sub

/-- `computeDocDiffEnd` on nodes without the map. -/
def walkDocDiffEnd (preRest postRest : BSONObj) (postObjSize : Nat)
    (diffNode : DocumentSubDiffNode Node) (deletes : List String) :
    Option (DocumentSubDiffNode Node) :=
  let diffNode := preRest.foldl (fun n elt => n.appendDelete elt.1) diffNode
  let (diffNode, deletes) := postRest.foldl
    (fun (nd : DocumentSubDiffNode Node × List String) elt =>
      (nd.1.appendInsert elt.1 elt.2, nd.2.erase elt.1)) (diffNode, deletes)
  let diffNode := deletes.foldl (fun n deleteField => n.appendDelete deleteField) diffNode
  if postObjSize > diffNode.sizeTracker then some diffNode else none

/-- `computeArrayDiffEnd` on nodes without the map. -/
def walkArrayDiffEnd (preRest postRest : List BSONValue) (postObjSize : Nat)
    (nFieldsInPostArray : Nat) (diffNode : ArrayNode Node) : Option (ArrayNode Node) :=
  let (diffNode, nFieldsInPostArray) := postRest.foldl
    (fun (ni : ArrayNode Node × Nat) postVal => (ni.1.appendUpdate ni.2 postVal, ni.2 + 1))
    (diffNode, nFieldsInPostArray)
  let diffNode := if preRest.isEmpty then diffNode else diffNode.setResize nFieldsInPostArray
  if postObjSize > diffNode.sizeTracker then some diffNode else none

mutual

/-- `computeSubDiff` on nodes without the map. -/
def walkSubDiff : BSONValue → BSONValue → Option Node
  | .object pre, .object post =>
    (walkDocDiffLoop pre post (objsize post) (DocumentSubDiffNode.init 0) []).map
      .documentSubDiff
  | .array pre, .array post =>
    (walkArrayDiffLoop pre post (arrayObjsize post) 0 ArrayNode.init).map .array
  | _, _ => none

/-- `computeDocDiffLoop` on nodes without the map. -/
def walkDocDiffLoop (pre post : BSONObj) (postObjSize : Nat)
    (diffNode : DocumentSubDiffNode Node) (deletes : List String) :
    Option (DocumentSubDiffNode Node) :=
  match pre, post with
  | (fieldName, preVal) :: preRest, (postName, postVal) :: postRest =>
    if postObjSize < diffNode.sizeTracker then none
    else if fieldName == postName && preVal.binaryEqual postVal then
      walkDocDiffLoop preRest postRest postObjSize diffNode deletes
    else if fieldName == postName then
      let diffNode := match preVal, postVal with
        | .object _, .object _ | .array _, .array _ =>
          walkSubDiffHelper DocumentSubDiffNode.appendChild (walkSubDiff preVal postVal)
            postVal fieldName diffNode
        | _, _ => diffNode.appendUpdate fieldName postVal
      walkDocDiffLoop preRest postRest postObjSize diffNode deletes
    else
      walkDocDiffLoop preRest ((postName, postVal) :: postRest) postObjSize diffNode
        (insertName fieldName deletes)
  | preRest, postRest => walkDocDiffEnd preRest postRest postObjSize diffNode deletes

/-- `computeArrayDiffLoop` on nodes without the map. -/
def walkArrayDiffLoop (pre post : List BSONValue) (postObjSize : Nat)
    (nFieldsInPostArray : Nat) (diffNode : ArrayNode Node) : Option (ArrayNode Node) :=
  match pre, post with
  | preVal :: preRest, postVal :: postRest =>
    if postObjSize < diffNode.sizeTracker then none
    else
      let diffNode :=
        if preVal.binaryEqual postVal then diffNode
        else match preVal, postVal with
          | .object _, .object _ | .array _, .array _ =>
            walkSubDiffHelper ArrayNode.appendChild (walkSubDiff preVal postVal) postVal
              nFieldsInPostArray diffNode
          | _, _ => diffNode.appendUpdate nFieldsInPostArray postVal
      walkArrayDiffLoop preRest postRest postObjSize (nFieldsInPostArray + 1) diffNode
  | preRest, postRest => walkArrayDiffEnd preRest postRest postObjSize nFieldsInPostArray diffNode

end

/-- `computeDocDiff` on nodes without the map. -/
def walkDocDiff (pre post : BSONObj) (padding : Nat) : Option (DocumentSubDiffNode Node) :=
  walkDocDiffLoop pre post (objsize post) (DocumentSubDiffNode.init padding) []

/-- `computeArrayDiff` on nodes without the map. -/
def walkArrayDiff (pre post : List BSONValue) : Option (ArrayNode Node) :=
  walkArrayDiffLoop pre post (arrayObjsize post) 0 ArrayNode.init

theorem walkSubDiff_object (pre post : BSONObj) :
    walkSubDiff (.object pre) (.object post) =
      (walkDocDiff pre post 0).map .documentSubDiff := rfl

theorem walkSubDiff_array (pre post : List BSONValue) :
    walkSubDiff (.array pre) (.array post) = (walkArrayDiff pre post).map .array := rfl


/-! ## The ends of the loops -/

section LoopEnds

variable {postObjSize : Nat}

section Doc

variable {pre post : BSONObj} {n : DocumentSubDiffNode Node} {deletes : List String}
  (hnot : ∀ fieldName preVal preRest postName postVal postRest,
    pre = (fieldName, preVal) :: preRest → post = (postName, postVal) :: postRest → False)
include hnot

theorem computeDocDiffLoop_end :
    computeDocDiffLoop pre post postObjSize n deletes =
      computeDocDiffEnd pre post postObjSize n deletes := by
  rw [computeDocDiffLoop]
  exact hnot

theorem walkDocDiffLoop_end :
    walkDocDiffLoop pre post postObjSize n deletes = walkDocDiffEnd pre post postObjSize n deletes := by
  rw [walkDocDiffLoop]
  exact hnot

theorem docEnd_nil_or_nil : pre = [] ∨ post = [] := by
  cases pre with
  | nil => exact .inl rfl
  | cons field pre =>
    cases post with
    | nil => exact .inr rfl
    | cons field' post => exact absurd rfl (hnot _ _ _ _ _ _ rfl)

end Doc

section Array

variable {pre post : List BSONValue} {idx : Nat} {n : ArrayNode Node}
  (hnot : ∀ preVal preRest postVal postRest,
    pre = preVal :: preRest → post = postVal :: postRest → False)
include hnot

theorem computeArrayDiffLoop_end :
    computeArrayDiffLoop pre post postObjSize idx n = computeArrayDiffEnd pre post postObjSize idx n := by
  rw [computeArrayDiffLoop]
  exact hnot

theorem walkArrayDiffLoop_end :
    walkArrayDiffLoop pre post postObjSize idx n = walkArrayDiffEnd pre post postObjSize idx n := by
  rw [walkArrayDiffLoop]
  exact hnot

theorem arrayEnd_nil_or_nil : pre = [] ∨ post = [] := by
  cases pre with
  | nil => exact .inl rfl
  | cons v pre =>
    cases post with
    | nil => exact .inr rfl
    | cons w post => exact absurd rfl (hnot _ _ _ _ rfl)

end Array

end LoopEnds

/-! ## The calculator returns what the walk returns -/

/-- `addChild` of a document node, where it returns, returns what `appendChild` does. -/
theorem agrees_docAddChild (n : DocumentSubDiffNode Node) (fieldName : String)
    (node : Node) : Agrees (n.addChild fieldName node) (n.appendChild fieldName node) := by
  intro r h
  unfold DocumentSubDiffNode.addChild at h
  split at h
  · cases h
  · exact (Except.ok.inj h).symm

/-- `addChild` of an array node, where it returns, returns what `appendChild` does. -/
theorem agrees_arrayAddChild (n : ArrayNode Node) (idx : Nat) (node : Node) :
    Agrees (n.addChild idx node) (n.appendChild idx node) := by
  intro r h
  unfold ArrayNode.addChild at h
  split at h
  · cases h
  · exact (Except.ok.inj h).symm

theorem agrees_calculateSubDiffHelper {N K : Type} {addChild : N → K → Node → Except DiffTreeError N}
    {appendChild : N → K → Node → N} (hadd : ∀ n k c, Agrees (addChild n k c) (appendChild n k c))
    (subDiff : Option Node) (postVal : BSONValue) (fieldIdentifier : K) (diffNode : N) :
    Agrees (calculateSubDiffHelper addChild subDiff postVal fieldIdentifier diffNode)
      (walkSubDiffHelper appendChild subDiff postVal fieldIdentifier diffNode) := by
  cases subDiff <;> exact hadd _ _ _

theorem agrees_computeDocDiffEnd (preRest postRest : BSONObj) (postObjSize : Nat)
    (diffNode : DocumentSubDiffNode Node) (deletes : List String) :
    Agrees (computeDocDiffEnd preRest postRest postObjSize diffNode deletes)
      (walkDocDiffEnd preRest postRest postObjSize diffNode deletes) := by
  unfold computeDocDiffEnd walkDocDiffEnd
  refine (agrees_foldlM (fun n elt => agrees_docAddChild n elt.1 .delete) preRest diffNode).bind ?_
  refine (agrees_foldlM (fun (nd : DocumentSubDiffNode Node × List String) elt =>
    (agrees_docAddChild nd.1 elt.1 (.insert elt.2)).map fun n => (n, nd.2.erase elt.1)) postRest _).bind ?_
  refine (agrees_foldlM (fun n d => agrees_docAddChild n d .delete) _ _).bind ?_
  exact agrees_pure _

theorem agrees_computeArrayDiffEnd (preRest postRest : List BSONValue) (postObjSize idx : Nat)
    (diffNode : ArrayNode Node) :
    Agrees (computeArrayDiffEnd preRest postRest postObjSize idx diffNode)
      (walkArrayDiffEnd preRest postRest postObjSize idx diffNode) := by
  unfold computeArrayDiffEnd walkArrayDiffEnd
  refine (agrees_foldlM (fun (ni : ArrayNode Node × Nat) v =>
    (agrees_arrayAddChild ni.1 ni.2 (.update v)).map fun n => (n, ni.2 + 1)) postRest _).bind ?_
  exact agrees_pure _

/-- Wherever the calculator returns, sub-diffs and both loops from any state, it returns what the
walk returns. By the walk's mutual induction, whose branches the calculator's follow. -/
theorem calculator_agrees :
    (∀ pre post, Agrees (computeSubDiff pre post) (walkSubDiff pre post)) ∧
      (∀ pre post postObjSize idx n, Agrees (computeArrayDiffLoop pre post postObjSize idx n)
        (walkArrayDiffLoop pre post postObjSize idx n)) ∧
      (∀ pre post postObjSize n deletes, Agrees (computeDocDiffLoop pre post postObjSize n deletes)
        (walkDocDiffLoop pre post postObjSize n deletes)) := by
  refine walkSubDiff.mutual_induct (fun pre post => Agrees (computeSubDiff pre post) (walkSubDiff pre post))
    (fun pre post postObjSize idx n => Agrees (computeArrayDiffLoop pre post postObjSize idx n)
      (walkArrayDiffLoop pre post postObjSize idx n))
    (fun pre post postObjSize n deletes => Agrees (computeDocDiffLoop pre post postObjSize n deletes)
      (walkDocDiffLoop pre post postObjSize n deletes))
    ?object ?array ?other ?docBail ?docEqual ?docMatched ?docMismatch ?docEnd ?arrBail ?arrStep
    ?arrEnd
  case object =>
    intro pre post ih
    exact ih.map (Option.map Node.documentSubDiff)
  case array =>
    intro pre post ih
    exact ih.map (Option.map Node.array)
  case other =>
    intro pre post hobj harr
    cases pre <;> cases post
    case object.object => exact absurd rfl (hobj _ _ rfl)
    case array.array => exact absurd rfl (harr _ _ rfl)
    all_goals exact agrees_pure none
  case docBail =>
    intro postObjSize n deletes fieldName preVal pre postName postVal post hsize
    simp only [computeDocDiffLoop, walkDocDiffLoop, hsize, if_true]
    exact agrees_pure none
  case docEqual =>
    intro postObjSize n deletes fieldName preVal pre postName postVal post hsize hsame ih
    simp only [computeDocDiffLoop, walkDocDiffLoop, hsize, hsame, if_false, if_true]
    exact ih
  case docMatched =>
    intro postObjSize n deletes fieldName preVal pre postName postVal post hsize hsame hname n'
      ihSub ih
    simp only [computeDocDiffLoop, walkDocDiffLoop, if_neg hsize, if_neg hsame, if_pos hname]
    -- the calculator's bind sits in each arm of the match on the two values
    cases preVal <;> cases postVal
    all_goals first
      | exact ihSub.bind ((agrees_calculateSubDiffHelper agrees_docAddChild _ _ _ _).bind ih)
      | exact (agrees_docAddChild _ _ _).bind ih
  case docMismatch =>
    intro postObjSize n deletes fieldName preVal pre postName postVal post hsize _ hname ih
    simp only [computeDocDiffLoop, walkDocDiffLoop, hsize, hname, if_false]
    exact ih
  case docEnd =>
    intro postObjSize n deletes pre post hnot
    rw [computeDocDiffLoop_end hnot, walkDocDiffLoop_end hnot]
    exact agrees_computeDocDiffEnd pre post postObjSize n deletes
  case arrBail =>
    intro postObjSize idx n preVal pre postVal post hsize
    simp only [computeArrayDiffLoop, walkArrayDiffLoop, hsize, if_true]
    exact agrees_pure none
  case arrStep =>
    intro postObjSize idx n preVal pre postVal post hsize n' ihSub ih
    simp only [computeArrayDiffLoop, walkArrayDiffLoop, if_neg hsize]
    simp only [n'] at ih
    by_cases hsame : preVal.binaryEqual postVal = true
    · simp only [hsame, if_true] at ih ⊢
      exact (agrees_pure n).bind ih
    · simp only [hsame, Bool.false_eq_true, if_false] at ih ⊢
      cases preVal <;> cases postVal
      all_goals first
        | exact ihSub.bind ((agrees_calculateSubDiffHelper agrees_arrayAddChild _ _ _ _).bind ih)
        | exact (agrees_arrayAddChild _ _ _).bind ih
  case arrEnd =>
    intro postObjSize idx n pre post hnot
    rw [computeArrayDiffLoop_end hnot, walkArrayDiffLoop_end hnot]
    exact agrees_computeArrayDiffEnd pre post postObjSize idx n

/-- `computeDocDiff`, where it returns, returns what the walk returns. -/
theorem walkDocDiff_of_computeDocDiff {pre post : BSONObj} {padding : Nat}
    {r : Option (DocumentSubDiffNode Node)} (h : computeDocDiff pre post padding = .ok r) :
    walkDocDiff pre post padding = r :=
  (calculator_agrees.2.2 pre post _ _ [] r h).symm

/-- A diff `computeDiff` returns is the serialization of a node `computeDocDiff` returned. -/
theorem computeDiff_ok_some {pre post : BSONObj} {padding : Nat} {diff : Diff}
    (h : computeDiff pre post padding = .ok (some diff)) :
    ∃ N, computeDocDiff pre post padding = .ok (some N) ∧ N.serialize = diff := by
  unfold computeDiff at h
  cases hc : computeDocDiff pre post padding with
  | error e =>
    rw [hc] at h
    cases h
  | ok r =>
    rw [hc] at h
    cases r with
    | none => cases h
    | some N =>
      refine ⟨N, rfl, ?_⟩
      by_cases hsmall : objsize N.serialize < objsize post
      · simp only [bind, Except.bind, pure, Except.pure, if_pos hsmall] at h
        exact Option.some.inj (Except.ok.inj h)
      · simp only [bind, Except.bind, pure, Except.pure, if_neg hsmall] at h
        cases h

end mongo.doc_diff
