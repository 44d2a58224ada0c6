-- The size that each node of a diff tree tracks as the calculator adds entries to it
-- (`ApproxBSONSizeTracker`) is the exact size of the `$v: 2` object that `writeDiff` makes of
-- the node, plus the padding of the root. So the calculator's bail-outs compare the true size of
-- the diff so far with the post-image's, and the last size check of `computeDiff` never
-- rejects a diff that `computeDocDiff` returned.
import Mathlib
import PerconaMongo.Update.DiffSemantics

namespace mongo.diff_tree

open BSONValue doc_diff

/-! ## The sizes of written entries -/

theorem fieldsSize_append (a b : BSONObj) : fieldsSize (a ++ b) = fieldsSize a + fieldsSize b := by
  induction a with
  | nil => simp [fieldsSize]
  | cons field rest ih =>
    obtain ⟨name, value⟩ := field
    simp only [List.cons_append, fieldsSize, ih]
    omega

theorem fieldsSize_singleton (name : String) (value : BSONValue) :
    fieldsSize [(name, value)] = name.utf8ByteSize + 2 + value.valuesize := by
  simp only [fieldsSize]
  omega

theorem utf8Size_of_isDigit {c : Char} (h : c.isDigit = true) : c.utf8Size = 1 := by
  rw [Char.utf8Size_eq_one_iff]
  simp only [Char.isDigit, Bool.and_eq_true, decide_eq_true_eq] at h
  rw [UInt32.le_iff_toNat_le] at h ⊢
  have h9 : ('9' : Char).val.toNat = 57 := rfl
  have h127 : (127 : UInt32).toNat = 127 := rfl
  omega

/-- The digits of an index take one byte each: `ItoA(idx).size()` is their number. -/
theorem utf8ByteSize_toString (idx : Nat) : (toString idx).utf8ByteSize = (toString idx).length := by
  rw [Nat.toString_eq_ofList_toDigits, String.utf8ByteSize_ofList, String.length_ofList]
  have h : ∀ c ∈ Nat.toDigits 10 idx, c.isDigit = true :=
    fun c hc => Nat.isDigit_of_mem_toDigits (by decide) (by decide) hc
  generalize Nat.toDigits 10 idx = digits at h ⊢
  induction digits with
  | nil => rfl
  | cons c cs ih =>
    rw [String.utf8Len_cons, List.length_cons, ih fun d hd => h d (List.mem_cons_of_mem c hd),
      utf8Size_of_isDigit (h c List.mem_cons_self)]

/-- A section of a one-letter name, once it has entries: an element around them. -/
theorem fieldsSize_wrapSection {name : String} (hname : name.utf8ByteSize = 1)
    (entries : BSONObj) :
    fieldsSize (wrapSection name entries) =
      if entries.isEmpty then 0 else sizeForWrapping + fieldsSize entries := by
  unfold wrapSection
  split
  · rfl
  · rw [fieldsSize_singleton, hname, valuesize_object, objsize, sizeForWrapping]
    omega

theorem deleteSection_eq (deletes : List String) :
    deleteSection deletes = wrapSection "d" (deletes.map fun f => (f, .bool false)) := by
  simp [deleteSection, wrapSection]

theorem serializeSubDiffs_eq_map (subDiffs : List (String × Node)) :
    serializeSubDiffs subDiffs =
      subDiffs.map fun s => ("s" ++ s.1, .object s.2.serialize) := by
  induction subDiffs with
  | nil => rfl
  | cons s rest ih => simp [serializeSubDiffs, ih]

/-- The entry `serializeChildren` writes for the child at `idx`. -/
def childEntry (idx : Nat) : Node → String × BSONValue
  | .update elt | .insert elt => ("u" ++ toString idx, elt)
  | c => ("s" ++ toString idx, .object c.serialize)

theorem serializeChildren_cons (idx : Nat) (c : Node) (rest : List (Nat × Node)) :
    serializeChildren ((idx, c) :: rest) = childEntry idx c :: serializeChildren rest := by
  cases c <;> rfl

theorem serializeChildren_append (children more : List (Nat × Node)) :
    serializeChildren (children ++ more) = serializeChildren children ++ serializeChildren more := by
  induction children with
  | nil => rfl
  | cons child rest ih =>
    obtain ⟨idx, c⟩ := child
    rw [List.cons_append, serializeChildren_cons, serializeChildren_cons, ih, List.cons_append]

/-! ## Exact tracked sizes -/

/-- The size a document node tracks is that of the object it is written as, plus `padding`. -/
def DocumentSubDiffNode.SizeExact (padding : Nat) (n : DocumentSubDiffNode Node) : Prop :=
  n.sizeTracker = padding + objsize n.serialize

/-- The size an array node tracks is that of the object it is written as. -/
def ArrayNode.SizeExact (n : ArrayNode Node) : Prop :=
  n.sizeTracker = objsize n.serialize

/-- A sub-diff, which has no padding, tracks the size of the object it is written as; any other
node adds the size of its value. -/
def Node.EntryExact : Node → Prop
  | .documentSubDiff n => n.SizeExact 0
  | .array n => n.SizeExact
  | _ => True

theorem DocumentSubDiffNode.sizeExact_init (padding : Nat) :
    (DocumentSubDiffNode.init padding : DocumentSubDiffNode Node).SizeExact padding := rfl

theorem ArrayNode.sizeExact_init : (ArrayNode.init : ArrayNode Node).SizeExact := rfl

theorem fieldsSize_wrapSection_append {name : String} (hname : name.utf8ByteSize = 1)
    (entries : BSONObj) (entry : String × BSONValue) :
    fieldsSize (wrapSection name (entries ++ [entry])) =
      fieldsSize (wrapSection name entries) + (if entries.isEmpty then sizeForWrapping else 0) +
        fieldsSize [entry] := by
  rw [fieldsSize_wrapSection hname, fieldsSize_wrapSection hname, fieldsSize_append]
  cases entries <;> simp [fieldsSize]
  omega

namespace DocumentSubDiffNode

/-- The size of a written document diff, section by section. -/
theorem objsize_serialize (n : DocumentSubDiffNode Node) :
    objsize n.serialize = 5 + fieldsSize (deleteSection n.deletes) +
      fieldsSize (wrapSection "u" n.updates) + fieldsSize (wrapSection "i" n.inserts) +
      fieldsSize (serializeSubDiffs n.subDiffs) := by
  obtain ⟨deletes, updates, inserts, subDiffs, size⟩ := n
  simp only [serialize, objsize, fieldsSize_append]
  omega

/-- A sub-diff keeps the tracked size exact: it adds `s<field>` and the object it is written
as. -/
theorem SizeExact.appendChild_internal {padding : Nat} {n : DocumentSubDiffNode Node}
    (h : n.SizeExact padding) (fieldName : String) {c : Node} (hint : c.isInternal = true)
    (hc : c.entrySize = objsize c.serialize) : (n.appendChild fieldName c).SizeExact padding := by
  unfold SizeExact at h ⊢
  rw [objsize_serialize] at h ⊢
  have hs : ("s" ++ fieldName).utf8ByteSize = fieldName.utf8ByteSize + 1 := by
    rw [String.utf8ByteSize_append]
    exact Nat.add_comm _ _
  have hsize : (n.appendChild fieldName c).sizeTracker =
      n.sizeTracker + (fieldName.utf8ByteSize + 2 + c.entrySize) + 1 := by
    cases c <;> first | rfl | cases hint
  rw [appendChild_deletes n fieldName hint, appendChild_updates n fieldName hint,
    appendChild_inserts n fieldName hint, appendChild_subDiffs n fieldName hint, hsize,
    serializeSubDiffs_eq_map, List.map_append, fieldsSize_append, ← serializeSubDiffs_eq_map,
    List.map_singleton, fieldsSize_singleton, hs, valuesize_object, ← hc]
  omega

/-- An entry keeps the tracked size exact: it adds its name, type byte and value, the prefix of a
sub-diff, and the element of its section when it is the section's first. -/
theorem SizeExact.appendChild {padding : Nat} {n : DocumentSubDiffNode Node}
    (h : n.SizeExact padding) (fieldName : String) {c : Node} (hc : c.EntryExact) :
    (n.appendChild fieldName c).SizeExact padding := by
  cases c with
  | documentSubDiff m =>
    rw [Node.EntryExact, SizeExact, Nat.zero_add] at hc
    exact h.appendChild_internal fieldName rfl hc
  | array m => exact h.appendChild_internal fieldName rfl hc
  | delete =>
    have hsize : (n.appendDelete fieldName).sizeTracker = n.sizeTracker +
        (fieldName.utf8ByteSize + 2 + 1) + (if n.deletes.isEmpty then sizeForWrapping else 0) :=
      rfl
    have hfalse : (BSONValue.bool false).valuesize = 1 := rfl
    show (n.appendDelete fieldName).SizeExact padding
    unfold SizeExact at h ⊢
    rw [objsize_serialize] at h ⊢
    rw [appendDelete_deletes, appendDelete_updates, appendDelete_inserts, appendDelete_subDiffs, hsize,
      deleteSection_eq, List.map_append, List.map_singleton,
      fieldsSize_wrapSection_append (show "d".utf8ByteSize = 1 from rfl), ← deleteSection_eq,
      fieldsSize_singleton, List.isEmpty_map, hfalse]
    omega
  | update v =>
    have hsize : (n.appendUpdate fieldName v).sizeTracker = n.sizeTracker +
        (fieldName.utf8ByteSize + 2 + v.valuesize) +
          (if n.updates.isEmpty then sizeForWrapping else 0) := rfl
    show (n.appendUpdate fieldName v).SizeExact padding
    unfold SizeExact at h ⊢
    rw [objsize_serialize] at h ⊢
    rw [appendUpdate_deletes, appendUpdate_updates, appendUpdate_inserts, appendUpdate_subDiffs, hsize,
      fieldsSize_wrapSection_append (show "u".utf8ByteSize = 1 from rfl), fieldsSize_singleton]
    omega
  | insert v =>
    have hsize : (n.appendInsert fieldName v).sizeTracker = n.sizeTracker +
        (fieldName.utf8ByteSize + 2 + v.valuesize) +
          (if n.inserts.isEmpty then sizeForWrapping else 0) := rfl
    show (n.appendInsert fieldName v).SizeExact padding
    unfold SizeExact at h ⊢
    rw [objsize_serialize] at h ⊢
    rw [appendInsert_deletes, appendInsert_updates, appendInsert_inserts, appendInsert_subDiffs, hsize,
      fieldsSize_wrapSection_append (show "i".utf8ByteSize = 1 from rfl), fieldsSize_singleton]
    omega

end DocumentSubDiffNode

/-- What the entry of a child of an array node adds to its size: the modification letter, the
digits of the index, the type byte and zero byte, and the value. -/
theorem fieldsSize_childEntry (idx : Nat) {c : Node} (hc : c.EntryExact) (hdel : c ≠ .delete) :
    fieldsSize [childEntry idx c] = 1 + (toString idx).length + 2 + c.entrySize := by
  have hletter : ∀ letter : String, letter.utf8ByteSize = 1 →
      (letter ++ toString idx).utf8ByteSize = 1 + (toString idx).length := fun letter h => by
    rw [String.utf8ByteSize_append, h, utf8ByteSize_toString]
  cases c with
  | update v | insert v =>
    rw [childEntry, fieldsSize_singleton, hletter "u" rfl]
    rfl
  | documentSubDiff m =>
    rw [Node.EntryExact, DocumentSubDiffNode.SizeExact, Nat.zero_add] at hc
    have he : childEntry idx (.documentSubDiff m) = ("s" ++ toString idx, .object m.serialize) :=
      rfl
    rw [he, fieldsSize_singleton, hletter "s" rfl, valuesize_object, ← hc]
    rfl
  | array m =>
    rw [Node.EntryExact, ArrayNode.SizeExact] at hc
    have he : childEntry idx (.array m) = ("s" ++ toString idx, .object m.serialize) := rfl
    rw [he, fieldsSize_singleton, hletter "s" rfl, valuesize_object, ← hc]
    rfl
  | delete => exact absurd rfl hdel

namespace ArrayNode

/-- The size of a written array diff: the header, the resize if any, and the entries. -/
theorem objsize_serialize (n : ArrayNode Node) :
    objsize n.serialize = kSizeOfEmptyArrayDiffBuilder + (if n.resize.isSome then 7 else 0) +
      fieldsSize (serializeChildren n.children) := by
  obtain ⟨children, resize, size⟩ := n
  have hint : ∀ size : Nat, (BSONValue.int32 size).valuesize = 4 := fun size => by
    simp [BSONValue.int32, valuesize, length_littleEndianBytes]
  have ha : "a".utf8ByteSize = 1 := rfl
  have hl : "l".utf8ByteSize = 1 := rfl
  cases resize <;>
    simp [serialize, arrayHeader, objsize, fieldsSize, hint, ha, hl,
      kSizeOfEmptyArrayDiffBuilder, BSONValue.bool, valuesize] <;> omega

/-- A child keeps the tracked size exact, as its entry adds what the tracker adds. -/
theorem SizeExact.appendChild {n : ArrayNode Node} (h : n.SizeExact) (idx : Nat) {c : Node}
    (hc : c.EntryExact) (hdel : c ≠ .delete) : (n.appendChild idx c).SizeExact := by
  unfold SizeExact at h ⊢
  rw [objsize_serialize] at h ⊢
  have hsize : (n.appendChild idx c).sizeTracker =
      n.sizeTracker + (1 + (toString idx).length + 2 + c.entrySize) := rfl
  have hnil : serializeChildren ([] : List (Nat × Node)) = [] := rfl
  rw [hsize, appendChild_children, appendChild_resize, serializeChildren_append, fieldsSize_append,
    serializeChildren_cons, hnil, fieldsSize_childEntry idx hc hdel]
  omega

/-- The resize, set once, adds its element `l`. -/
theorem SizeExact.setResize {n : ArrayNode Node} (h : n.SizeExact) (hnone : n.resize = none)
    (size : Nat) : (n.setResize size).SizeExact := by
  unfold SizeExact at h ⊢
  rw [objsize_serialize] at h ⊢
  have hsize : (n.setResize size).sizeTracker = n.sizeTracker + (1 + 4 + 2) := rfl
  rw [hnone, Option.isSome_none] at h
  rw [hsize, setResize_children, setResize_resize, Option.isSome_some, if_pos rfl]
  simp only [Bool.false_eq_true, if_false] at h
  omega

end ArrayNode

/-! ## The calculator's nodes -/

section Calculator

open DocumentSubDiffNode in
/-- The end of `walkDocDiff` keeps the tracked size exact, and returns a node only when it
is smaller than the post-image. -/
theorem walkDocDiffEnd_sizeExact {preRest postRest : BSONObj} {postObjSize padding : Nat}
    {n N : DocumentSubDiffNode Node} {deletes : List String} (hn : n.SizeExact padding)
    (h : walkDocDiffEnd preRest postRest postObjSize n deletes = some N) :
    N.SizeExact padding ∧ N.sizeTracker < postObjSize := by
  have hdel : ∀ {α : Type} (name : α → String) (l : List α) (m : DocumentSubDiffNode Node),
      m.SizeExact padding → (l.foldl (fun m elt => m.appendDelete (name elt)) m).SizeExact padding := by
    intro α name l
    induction l with
    | nil => exact fun m hm => hm
    | cons elt rest ih => exact fun m hm => ih _ (hm.appendChild (name elt) trivial)
  have hins : ∀ (l : BSONObj) (m : DocumentSubDiffNode Node) (ds : List String),
      m.SizeExact padding →
        (l.foldl (fun (nd : DocumentSubDiffNode Node × List String) elt =>
          (nd.1.appendInsert elt.1 elt.2, nd.2.erase elt.1)) (m, ds)).1.SizeExact padding := by
    intro l
    induction l with
    | nil => exact fun m _ hm => hm
    | cons elt rest ih => exact fun m ds hm => ih _ _ (hm.appendChild elt.1 trivial)
  unfold walkDocDiffEnd at h
  simp only at h
  split at h
  · cases h
    refine ⟨hdel id _ _ (hins postRest _ deletes (hdel Prod.fst preRest n hn)), ?_⟩
    omega
  · cases h

/-- The end of `walkArrayDiff` keeps the tracked size exact: its resize is the first. -/
theorem walkArrayDiffEnd_sizeExact {preRest postRest : List BSONValue} {postObjSize idx : Nat}
    {n N : ArrayNode Node} (hn : n.SizeExact) (hnone : n.resize = none)
    (h : walkArrayDiffEnd preRest postRest postObjSize idx n = some N) : N.SizeExact := by
  have hupd : ∀ (l : List BSONValue) (m : ArrayNode Node) (k : Nat), m.SizeExact →
      m.resize = none →
        (l.foldl (fun (ni : ArrayNode Node × Nat) postVal =>
          (ni.1.appendUpdate ni.2 postVal, ni.2 + 1)) (m, k)).1.SizeExact ∧
        (l.foldl (fun (ni : ArrayNode Node × Nat) postVal =>
          (ni.1.appendUpdate ni.2 postVal, ni.2 + 1)) (m, k)).1.resize = none := by
    intro l
    induction l with
    | nil => exact fun m _ hm hr => ⟨hm, hr⟩
    | cons v rest ih =>
      exact fun m k hm hr => ih _ _ (hm.appendChild k trivial (by simp)) (by simpa using hr)
  unfold walkArrayDiffEnd at h
  obtain ⟨hexact, hr⟩ := hupd postRest n idx hn hnone
  obtain ⟨-, h⟩ := Option.ite_none_right_eq_some.1 h
  cases Option.some.inj h
  split
  · exact hexact
  · exact hexact.setResize hr _

/-- A sub-diff of two values is written in as many bytes as it tracks. -/
def SubDiffSized (pre post : BSONValue) : Prop :=
  ∀ c, walkSubDiff pre post = some c → c.EntryExact

/-- From a state whose tracked size is exact and with no resize yet, the array loop returns a
node whose tracked size is exact. -/
def ArrayLoopSized (pre post : List BSONValue) (postObjSize idx : Nat) (n : ArrayNode Node) :
    Prop :=
  n.SizeExact → n.resize = none →
    ∀ N, walkArrayDiffLoop pre post postObjSize idx n = some N → N.SizeExact

/-- From a state whose tracked size is exact up to a padding, the document loop returns a node
whose tracked size is exact up to that padding and below the post-image's size. -/
def DocLoopSized (pre post : BSONObj) (postObjSize : Nat) (n : DocumentSubDiffNode Node)
    (deletes : List String) : Prop :=
  ∀ padding, n.SizeExact padding → ∀ N, walkDocDiffLoop pre post postObjSize n deletes = some N →
    N.SizeExact padding ∧ N.sizeTracker < postObjSize

/-- Every node the calculator builds tracks its exact size: a sub-diff, and the loops of the
document and the array diffs from any state of their walks. By the calculator's own mutual
induction; each step adds entries, and an entry keeps the size exact. -/
theorem calculator_sizeExact :
    (∀ pre post, SubDiffSized pre post) ∧
      (∀ pre post postObjSize idx n, ArrayLoopSized pre post postObjSize idx n) ∧
      (∀ pre post postObjSize n deletes, DocLoopSized pre post postObjSize n deletes) := by
  refine walkSubDiff.mutual_induct SubDiffSized ArrayLoopSized DocLoopSized ?object ?array
    ?other ?docBail ?docEqual ?docMatched ?docMismatch ?docEnd ?arrBail ?arrStep ?arrEnd
  case object =>
    intro pre post ih c hc
    obtain ⟨N, hN, rfl⟩ := Option.map_eq_some_iff.1 hc
    exact (ih 0 (DocumentSubDiffNode.sizeExact_init 0) N hN).1
  case array =>
    intro pre post ih c hc
    obtain ⟨N, hN, rfl⟩ := Option.map_eq_some_iff.1 hc
    exact ih ArrayNode.sizeExact_init rfl N hN
  case other =>
    intro pre post hobj harr c hc
    unfold walkSubDiff at hc
    split at hc
    · exact absurd rfl (hobj _ _ rfl)
    · exact absurd rfl (harr _ _ rfl)
    · cases hc
  case docBail =>
    intro postObjSize n deletes fieldName preVal pre postName postVal post hsize padding _ N hN
    simp [walkDocDiffLoop, hsize] at hN
  case docEqual =>
    intro postObjSize n deletes fieldName preVal pre postName postVal post hsize hsame ih
      padding hn N hN
    simp only [walkDocDiffLoop, hsize, hsame, if_false, if_true] at hN
    exact ih padding hn N hN
  case docMatched =>
    intro postObjSize n deletes fieldName preVal pre postName postVal post hsize hsame hname n'
      ihSub ih padding hn N hN
    simp only [beq_iff_eq] at hname
    subst hname
    have hne : preVal ≠ postVal := fun h => hsame (by simp [h, binaryEqual_iff])
    have hloop : walkDocDiffLoop ((fieldName, preVal) :: pre) ((fieldName, postVal) :: post)
        postObjSize n deletes = walkDocDiffLoop pre post postObjSize n' deletes := by
      simp [walkDocDiffLoop, hsize, hne, binaryEqual_iff, n']
    refine ih padding ?_ N (hloop ▸ hN)
    -- the field is updated, or diffed when the calculator found a sub-diff
    have hhelper : ∀ sub : Option Node, (∀ c, sub = some c → c.EntryExact) →
        (walkSubDiffHelper DocumentSubDiffNode.appendChild sub postVal fieldName n).SizeExact
          padding := fun sub hsub => by
      rcases walkSubDiffHelper_cases DocumentSubDiffNode.appendChild sub postVal fieldName n
        with h | ⟨c, hc, h⟩
      · rw [h]
        exact hn.appendChild fieldName trivial
      · rw [h]
        exact hn.appendChild fieldName (hsub c hc)
    simp only [n']
    split
    · exact hhelper _ ihSub
    · exact hhelper _ ihSub
    · exact hn.appendChild fieldName trivial
  case docMismatch =>
    intro postObjSize n deletes fieldName preVal pre postName postVal post hsize hsame hname ih
      padding hn N hN
    simp only [beq_iff_eq] at hname
    have hloop : walkDocDiffLoop ((fieldName, preVal) :: pre) ((postName, postVal) :: post)
        postObjSize n deletes =
          walkDocDiffLoop pre ((postName, postVal) :: post) postObjSize n
            (insertName fieldName deletes) := by
      simp [walkDocDiffLoop, hsize, hname]
    exact ih padding hn N (hloop ▸ hN)
  case docEnd =>
    intro postObjSize n deletes pre post hnot padding hn N hN
    rw [walkDocDiffLoop_end hnot] at hN
    exact walkDocDiffEnd_sizeExact hn hN
  case arrBail =>
    intro postObjSize idx n preVal pre postVal post hsize _ _ N hN
    simp [walkArrayDiffLoop, hsize] at hN
  case arrStep =>
    intro postObjSize idx n preVal pre postVal post hsize n' ihSub ih hn hnone N hN
    simp only [walkArrayDiffLoop, hsize, if_false] at hN
    -- the element is kept, updated, or diffed when the calculator found a sub-diff
    have hhelper : ∀ sub : Option Node, (∀ c, sub = some c → c.EntryExact ∧ c ≠ .delete) →
        (walkSubDiffHelper ArrayNode.appendChild sub postVal idx n).SizeExact ∧
          (walkSubDiffHelper ArrayNode.appendChild sub postVal idx n).resize = none :=
      fun sub hsub => by
        rcases walkSubDiffHelper_cases ArrayNode.appendChild sub postVal idx n
          with h | ⟨c, hc, h⟩
        · rw [h]
          exact ⟨hn.appendChild idx trivial (by simp), hnone⟩
        · rw [h]
          exact ⟨hn.appendChild idx (hsub c hc).1 (hsub c hc).2, hnone⟩
    have hsub : ∀ c, walkSubDiff preVal postVal = some c → c.EntryExact ∧ c ≠ .delete :=
      fun c hc => ⟨ihSub c hc, fun hdel => by
        simpa [hdel, Node.isInternal] using isInternal_of_walkSubDiff hc⟩
    have hstep : n'.SizeExact ∧ n'.resize = none := by
      simp only [n']
      split
      · exact ⟨hn, hnone⟩
      · split
        · exact hhelper _ hsub
        · exact hhelper _ hsub
        · exact ⟨hn.appendChild idx trivial (by simp), hnone⟩
    exact ih hstep.1 hstep.2 N hN
  case arrEnd =>
    intro postObjSize idx n pre post hnot hn hnone N hN
    rw [walkArrayDiffLoop_end hnot] at hN
    exact walkArrayDiffEnd_sizeExact hn hnone hN

end Calculator

end mongo.diff_tree

namespace mongo.doc_diff

open diff_tree BSONValue

/-- The size `walkDocDiff` tracks for the diff it returns is the exact size of the diff
`writeDiff` makes of it, plus the padding it was given, and it is below the post-image's. -/
theorem walkDocDiff_sizeTracker {pre post : BSONObj} {padding : Nat}
    {N : DocumentSubDiffNode Node} (h : walkDocDiff pre post padding = some N) :
    N.sizeTracker = padding + objsize N.serialize ∧ N.sizeTracker < objsize post :=
  calculator_sizeExact.2.2 pre post (objsize post) (DocumentSubDiffNode.init padding) [] padding
    (DocumentSubDiffNode.sizeExact_init padding) N h

/-- Forty bytes of a string, which no diff rewrites. -/
def sampleText : BSONValue := scalar .string (List.replicate 40 0) rfl

def samplePre : BSONObj := [("s", sampleText), ("a", int32 1), ("b", .object [("c", sampleText)])]

def samplePost : BSONObj :=
  [("s", sampleText), ("a", int32 3), ("b", .object [("c", sampleText), ("d", int32 4)])]

/-- The size `computeDocDiff` tracks for the diff it returns is the exact size of the diff
`writeDiff` makes of it, plus the padding it was given, and it is below the post-image's. -/
theorem computeDocDiff_sizeTracker {pre post : BSONObj} {padding : Nat}
    {N : DocumentSubDiffNode Node} (h : computeDocDiff pre post padding = .ok (some N)) :
    N.sizeTracker = padding + objsize N.serialize ∧ N.sizeTracker < objsize post :=
  walkDocDiff_sizeTracker (walkDocDiff_of_computeDocDiff h)

theorem computeDocDiff_sizeTracker_sample :
    ∃ N, computeDocDiff samplePre samplePost 3 = .ok (some N) ∧
      N.sizeTracker = 3 + objsize N.serialize ∧ N.sizeTracker < objsize samplePost :=
  ⟨_, rfl, @computeDocDiff_sizeTracker samplePre samplePost 3 _ rfl⟩

/-- The last size check of `computeDiff` never rejects: the diff is written exactly when
`computeDocDiff` returns a node, since the node's exact size, padding and all, is already below
the post-image's; and `computeDiff` stops exactly where `computeDocDiff` does. -/
theorem computeDiff_eq_map (pre post : BSONObj) (padding : Nat) :
    computeDiff pre post padding =
      Option.map DocumentSubDiffNode.serialize <$> computeDocDiff pre post padding := by
  unfold computeDiff
  cases hc : computeDocDiff pre post padding with
  | error e => rfl
  | ok r =>
    cases r with
    | none => rfl
    | some N =>
      obtain ⟨hexact, hlt⟩ := walkDocDiff_sizeTracker (walkDocDiff_of_computeDocDiff hc)
      have hsmall : objsize N.serialize < objsize post := by omega
      simp only [bind, Except.bind, pure, Except.pure, if_pos hsmall]
      rfl

end mongo.doc_diff
