-- What a `$v: 2` diff means, stated on the diff tree: a document diff deletes, replaces and
-- sub-diffs fields in place and appends its inserts; an array diff replaces or sub-diffs
-- elements by index and cuts or pads the array to its length. The calculator's walk is proved
-- against this meaning: whenever it returns a diff tree, the tree applied to the pre-image is
-- the post-image, and it names each field once and each index once, in increasing order.
import Mathlib
import PerconaMongo.Update.DiffCalculator

namespace mongo.diff_tree

open BSONValue

/-! ## What a diff does -/

/-- One past the largest index an array node has a child at. -/
def endIndex (children : List (Nat × Node)) : Nat :=
  children.foldr (fun child m => max (child.1 + 1) m) 0

mutual

/-- What a node does to the value at its place: a sub-diff rewrites an object or an array of its
own kind and makes any other value null, as the applier does; an update or an insert is its
value. -/
def Node.applyTo : Node → BSONValue → BSONValue
  | .documentSubDiff node, .object fields => .object (node.applyToFields fields)
  | .array node, .array elems => .array (node.applyToElems elems)
  | .update elt, _ | .insert elt, _ => elt
  | _, _ => .null

/-- A document diff on the fields of an object: deleted and inserted fields leave their place,
updated and sub-diffed ones are rewritten in it, then the updates of absent fields and the
inserts are appended. -/
def DocumentSubDiffNode.applyToFields : DocumentSubDiffNode Node → BSONObj → BSONObj
  | ⟨deletes, updates, inserts, subDiffs, _⟩, pre =>
    pre.filterMap (fun field =>
      if field.1 ∈ deletes ∨ field.1 ∈ inserts.map Prod.fst then none
      else match updates.lookup field.1 with
        | some value => some (field.1, value)
        | none => some (field.1, (applyNamed subDiffs field.1 field.2).getD field.2)) ++
      updates.filter (fun elt => elt.1 ∉ pre.map Prod.fst) ++ inserts

/-- An array diff on the elements of an array: the array is as long as the resize says, or
else as long as the longer of itself and the modifications; each index holds its child applied
to the element there, null past the end. -/
def ArrayNode.applyToElems : ArrayNode Node → List BSONValue → List BSONValue
  | ⟨children, resize, _⟩, pre =>
    (List.range (resize.getD (max pre.length (endIndex children)))).map fun i =>
      (applyIndexed children i (pre.getD i .null)).getD (pre.getD i .null)

/-- The sub-diff of field `name`, applied to `value`. -/
def applyNamed : List (String × Node) → String → BSONValue → Option BSONValue
  | [], _, _ => none
  | (fieldName, child) :: rest, name, value =>
    if fieldName = name then some (child.applyTo value) else applyNamed rest name value

/-- The child at index `i`, applied to `value`. -/
def applyIndexed : List (Nat × Node) → Nat → BSONValue → Option BSONValue
  | [], _, _ => none
  | (idx, child) :: rest, i, value =>
    if idx = i then some (child.applyTo value) else applyIndexed rest i value

end

/-- What a document diff does to one field of the pre-image. -/
def fieldStep (n : DocumentSubDiffNode Node) (field : String × BSONValue) :
    Option (String × BSONValue) :=
  if field.1 ∈ n.deletes ∨ field.1 ∈ n.inserts.map Prod.fst then none
  else match n.updates.lookup field.1 with
    | some value => some (field.1, value)
    | none => some (field.1, (applyNamed n.subDiffs field.1 field.2).getD field.2)

theorem applyToFields_eq (n : DocumentSubDiffNode Node) (pre : BSONObj) :
    n.applyToFields pre = pre.filterMap (fieldStep n) ++
      n.updates.filter (fun elt => elt.1 ∉ pre.map Prod.fst) ++ n.inserts := by
  cases n
  rfl

theorem applyToElems_eq (n : ArrayNode Node) (pre : List BSONValue) :
    n.applyToElems pre =
      (List.range (n.resize.getD (max pre.length (endIndex n.children)))).map fun i =>
        (applyIndexed n.children i (pre.getD i .null)).getD (pre.getD i .null) := by
  cases n
  rfl

/-- A node a sub-diff is made of: a document or an array diff. -/
def Node.isInternal : Node → Bool
  | .documentSubDiff _ | .array _ => true
  | _ => false

/-! ## The sections as the calculator adds entries -/

namespace DocumentSubDiffNode

variable (n : DocumentSubDiffNode Node) (fieldName : String) (value : BSONValue)

@[simp] theorem appendDelete_deletes : (n.appendDelete fieldName).deletes = n.deletes ++ [fieldName] :=
  rfl
@[simp] theorem appendDelete_updates : (n.appendDelete fieldName).updates = n.updates := rfl
@[simp] theorem appendDelete_inserts : (n.appendDelete fieldName).inserts = n.inserts := rfl
@[simp] theorem appendDelete_subDiffs : (n.appendDelete fieldName).subDiffs = n.subDiffs := rfl

@[simp] theorem appendUpdate_deletes : (n.appendUpdate fieldName value).deletes = n.deletes := rfl
@[simp] theorem appendUpdate_updates :
    (n.appendUpdate fieldName value).updates = n.updates ++ [(fieldName, value)] := rfl
@[simp] theorem appendUpdate_inserts : (n.appendUpdate fieldName value).inserts = n.inserts := rfl
@[simp] theorem appendUpdate_subDiffs : (n.appendUpdate fieldName value).subDiffs = n.subDiffs := rfl

@[simp] theorem appendInsert_deletes : (n.appendInsert fieldName value).deletes = n.deletes := rfl
@[simp] theorem appendInsert_updates : (n.appendInsert fieldName value).updates = n.updates := rfl
@[simp] theorem appendInsert_inserts :
    (n.appendInsert fieldName value).inserts = n.inserts ++ [(fieldName, value)] := rfl
@[simp] theorem appendInsert_subDiffs : (n.appendInsert fieldName value).subDiffs = n.subDiffs := rfl

variable {child : Node} (hchild : child.isInternal = true)
include hchild

theorem appendChild_deletes : (n.appendChild fieldName child).deletes = n.deletes := by
  cases child <;> first | rfl | cases hchild
theorem appendChild_updates : (n.appendChild fieldName child).updates = n.updates := by
  cases child <;> first | rfl | cases hchild
theorem appendChild_inserts : (n.appendChild fieldName child).inserts = n.inserts := by
  cases child <;> first | rfl | cases hchild
theorem appendChild_subDiffs :
    (n.appendChild fieldName child).subDiffs = n.subDiffs ++ [(fieldName, child)] := by
  cases child <;> first | rfl | cases hchild

end DocumentSubDiffNode

namespace ArrayNode

variable (n : ArrayNode Node) (idx : Nat) (child : Node)

@[simp] theorem appendChild_children : (n.appendChild idx child).children = n.children ++ [(idx, child)] :=
  rfl
@[simp] theorem appendChild_resize : (n.appendChild idx child).resize = n.resize := rfl
@[simp] theorem appendUpdate_children (value : BSONValue) :
    (n.appendUpdate idx value).children = n.children ++ [(idx, .update value)] := rfl
@[simp] theorem appendUpdate_resize (value : BSONValue) : (n.appendUpdate idx value).resize = n.resize :=
  rfl
@[simp] theorem setResize_children (size : Nat) : (n.setResize size).children = n.children := rfl
@[simp] theorem setResize_resize (size : Nat) : (n.setResize size).resize = some size := rfl

end ArrayNode

/-! ## Finding a child -/

theorem applyNamed_append (l₁ l₂ : List (String × Node)) (name : String) (value : BSONValue) :
    applyNamed (l₁ ++ l₂) name value = (applyNamed l₁ name value).or (applyNamed l₂ name value) := by
  induction l₁ with
  | nil => simp [applyNamed]
  | cons child rest ih =>
    obtain ⟨fieldName, child⟩ := child
    by_cases h : fieldName = name <;> simp [applyNamed, h, ih]

theorem applyNamed_eq_none {l : List (String × Node)} {name : String} (h : name ∉ l.map Prod.fst)
    (value : BSONValue) : applyNamed l name value = none := by
  induction l with
  | nil => rfl
  | cons child rest ih =>
    obtain ⟨fieldName, child⟩ := child
    simp only [List.map_cons, List.mem_cons, not_or] at h
    simp [applyNamed, Ne.symm h.1, ih h.2]

theorem applyIndexed_append (l₁ l₂ : List (Nat × Node)) (i : Nat) (value : BSONValue) :
    applyIndexed (l₁ ++ l₂) i value = (applyIndexed l₁ i value).or (applyIndexed l₂ i value) := by
  induction l₁ with
  | nil => simp [applyIndexed]
  | cons child rest ih =>
    obtain ⟨idx, child⟩ := child
    by_cases h : idx = i <;> simp [applyIndexed, h, ih]

theorem applyIndexed_eq_none {l : List (Nat × Node)} {i : Nat} (h : i ∉ l.map Prod.fst)
    (value : BSONValue) : applyIndexed l i value = none := by
  induction l with
  | nil => rfl
  | cons child rest ih =>
    obtain ⟨idx, child⟩ := child
    simp only [List.map_cons, List.mem_cons, not_or] at h
    simp [applyIndexed, Ne.symm h.1, ih h.2]

/-! ## One field of the pre-image -/

section FieldStep

variable {n : DocumentSubDiffNode Node} {name : String} {value : BSONValue}

theorem fieldStep_of_removed (h : name ∈ n.deletes ∨ name ∈ n.inserts.map Prod.fst) :
    fieldStep n (name, value) = none := by
  unfold fieldStep
  rw [if_pos h]

theorem fieldStep_of_lookup (hdel : name ∉ n.deletes) (hins : name ∉ n.inserts.map Prod.fst)
    {newValue : BSONValue} (hupd : n.updates.lookup name = some newValue) :
    fieldStep n (name, value) = some (name, newValue) := by
  simp [fieldStep, hdel, hins, hupd]

theorem fieldStep_of_applyNamed (hdel : name ∉ n.deletes) (hins : name ∉ n.inserts.map Prod.fst)
    (hupd : n.updates.lookup name = none) {newValue : BSONValue}
    (hsub : applyNamed n.subDiffs name value = some newValue) :
    fieldStep n (name, value) = some (name, newValue) := by
  simp [fieldStep, hdel, hins, hupd, hsub]

theorem fieldStep_of_not_mem (h : name ∉ n.names) : fieldStep n (name, value) = some (name, value) := by
  simp only [DocumentSubDiffNode.names, List.mem_append, not_or] at h
  obtain ⟨⟨⟨hdel, hupd⟩, hins⟩, hsub⟩ := h
  have hlookup : n.updates.lookup name = none := by
    rw [List.lookup_eq_none_iff]
    intro entry hmem
    have hne : name ≠ entry.1 := fun h => hupd (h ▸ List.mem_map_of_mem hmem)
    simpa using hne
  simp [fieldStep, hdel, hins, hlookup, applyNamed_eq_none hsub]

end FieldStep

/-! ## The end of the document loop -/

namespace DocumentSubDiffNode

/-- Deleting the fields of a list, one by one. -/
theorem foldl_appendDelete {α : Type} (name : α → String) (l : List α) (n : DocumentSubDiffNode Node) :
    ∃ t, l.foldl (fun n elt => n.appendDelete (name elt)) n =
      ⟨n.deletes ++ l.map name, n.updates, n.inserts, n.subDiffs, t⟩ := by
  induction l generalizing n with
  | nil => exact ⟨n.sizeTracker, by cases n; simp⟩
  | cons elt rest ih =>
    obtain ⟨t, ht⟩ := ih (n.appendDelete (name elt))
    exact ⟨t, by simpa using ht⟩

/-- Inserting the fields of a list, each taking its name out of the pending deletes. -/
theorem foldl_appendInsert (l : BSONObj) (n : DocumentSubDiffNode Node) (deletes : List String) :
    ∃ t, l.foldl (fun (nd : DocumentSubDiffNode Node × List String) elt =>
        (nd.1.appendInsert elt.1 elt.2, nd.2.erase elt.1)) (n, deletes) =
      (⟨n.deletes, n.updates, n.inserts ++ l, n.subDiffs, t⟩,
        l.foldl (fun deletes elt => deletes.erase elt.1) deletes) := by
  induction l generalizing n deletes with
  | nil => exact ⟨n.sizeTracker, by cases n; simp⟩
  | cons elt rest ih =>
    obtain ⟨t, ht⟩ := ih (n.appendInsert elt.1 elt.2) (deletes.erase elt.1)
    exact ⟨t, by simpa using ht⟩

end DocumentSubDiffNode

open doc_diff

theorem foldl_erase_eq_filter {deletes : List String} (hD : deletes.Nodup) (l : BSONObj) :
    l.foldl (fun deletes elt => deletes.erase elt.1) deletes =
      deletes.filter (fun name => name ∉ l.map Prod.fst) := by
  induction l generalizing deletes with
  | nil => simp
  | cons elt rest ih =>
    rw [List.foldl_cons, ih (hD.erase _), hD.erase_eq_filter, List.filter_filter]
    congr 1
    funext name
    by_cases h : name = elt.1
    · simp [h]
    · simp [h, bne_iff_ne.2 h]

/-- What `walkDocDiffEnd` adds: the rest of the pre-image and the pending deletes that are
not inserted after all as deletes, the rest of the post-image as inserts. -/
theorem walkDocDiffEnd_eq {preRest postRest : BSONObj} {postObjSize : Nat}
    {n N : DocumentSubDiffNode Node} {deletes : List String} (hD : deletes.Nodup)
    (h : walkDocDiffEnd preRest postRest postObjSize n deletes = some N) :
    ∃ t, N = ⟨n.deletes ++ preRest.map Prod.fst ++
        deletes.filter (fun name => name ∉ postRest.map Prod.fst),
      n.updates, n.inserts ++ postRest, n.subDiffs, t⟩ := by
  unfold walkDocDiffEnd at h
  obtain ⟨t₁, h₁⟩ := DocumentSubDiffNode.foldl_appendDelete Prod.fst preRest n
  obtain ⟨t₂, h₂⟩ := DocumentSubDiffNode.foldl_appendInsert postRest
    ⟨n.deletes ++ preRest.map Prod.fst, n.updates, n.inserts, n.subDiffs, t₁⟩ deletes
  obtain ⟨t₃, h₃⟩ := DocumentSubDiffNode.foldl_appendDelete id
    (postRest.foldl (fun deletes elt => deletes.erase elt.1) deletes)
    ⟨n.deletes ++ preRest.map Prod.fst, n.updates, n.inserts ++ postRest, n.subDiffs, t₂⟩
  simp only [List.map_id_fun, id_eq] at h₃
  simp only [h₁, h₂, h₃] at h
  split at h
  · cases h
    exact ⟨t₃, by rw [foldl_erase_eq_filter hD]⟩
  · cases h

/-! ## The pending deletes -/

theorem mem_insertName {fieldName name : String} {deletes : List String} :
    name ∈ insertName fieldName deletes ↔ name = fieldName ∨ name ∈ deletes := by
  unfold insertName
  split
  · constructor
    · exact .inr
    · rintro (rfl | h) <;> assumption
  · rw [(List.perm_orderedInsert _ _ _).mem_iff, List.mem_cons]

theorem nodup_insertName (fieldName : String) {deletes : List String} (hD : deletes.Nodup) :
    (insertName fieldName deletes).Nodup := by
  unfold insertName
  split
  · exact hD
  · rename_i hmem
    exact (List.perm_orderedInsert _ _ _).nodup_iff.2 (List.nodup_cons.2 ⟨hmem, hD⟩)

/-- A diff tree as the calculator builds it: a document node names each field once, which is
the `invariant(result.second)` of the children map in `addChild`, has an entry, and has only
document and array nodes as sub-diffs; an array node has its children at increasing indexes
below `bound` and below its resize, and none of them a delete or an insert. -/
inductive Node.WF (bound : Nat) : Node → Prop
  | update (elt : BSONValue) : WF bound (.update elt)
  | documentSubDiff (n : DocumentSubDiffNode Node) (nonempty : n.names ≠ [])
      (nodup : n.names.Nodup)
      (internal : ∀ s ∈ n.subDiffs, s.2.isInternal = true)
      (subDiffs : ∀ s ∈ n.subDiffs, WF bound s.2) :
      WF bound (.documentSubDiff n)
  | array (n : ArrayNode Node) (sorted : (n.children.map Prod.fst).Pairwise (· < ·))
      (bounded : ∀ c ∈ n.children, c.1 < bound)
      (resize : ∀ size ∈ n.resize, size < bound ∧ ∀ c ∈ n.children, c.1 < size)
      (children : ∀ c ∈ n.children, WF bound c.2) : WF bound (.array n)

namespace DocumentSubDiffNode

theorem names_appendUpdate (n : DocumentSubDiffNode Node) (fieldName : String) (value : BSONValue) :
    (n.appendUpdate fieldName value).names.Perm (fieldName :: n.names) := by
  have h : (n.deletes ++ n.updates.map Prod.fst ++
      fieldName :: (n.inserts.map Prod.fst ++ n.subDiffs.map Prod.fst)).Perm
      (fieldName :: (n.deletes ++ n.updates.map Prod.fst ++
        (n.inserts.map Prod.fst ++ n.subDiffs.map Prod.fst))) := List.perm_middle
  simpa [names, List.append_assoc] using h

theorem names_appendChild (n : DocumentSubDiffNode Node) (fieldName : String) {child : Node}
    (hchild : child.isInternal = true) :
    (n.appendChild fieldName child).names.Perm (fieldName :: n.names) := by
  simp only [names, appendChild_deletes n fieldName hchild, appendChild_updates n fieldName hchild,
    appendChild_inserts n fieldName hchild, appendChild_subDiffs n fieldName hchild, List.map_append,
    List.map_cons, List.map_nil, ← List.append_assoc]
  exact List.perm_append_singleton _ _

end DocumentSubDiffNode


/-! ## The document loop -/

/-- A state of the loop of `walkDocDiff`: the fields `pre` and `post` still to walk, with
distinct names and values of unique names (and of fitting size, in the post-image); the node so
far, with updates and sub-diffs only, each of a field that neither list still has; and the
pending deletes, names of fields the walk has passed in the pre-image. -/
structure DocLoopState (pre post : BSONObj) (n : DocumentSubDiffNode Node)
    (deletes : List String) : Prop where
  preNodup : (pre.map Prod.fst).Nodup
  postNodup : (post.map Prod.fst).Nodup
  preValues : ∀ e ∈ pre, e.2.hasUniqueNames = true
  postValues : ∀ e ∈ post, e.2.hasUniqueNames = true ∧ e.2.valuesize < 2 ^ 31
  noDeletes : n.deletes = []
  noInserts : n.inserts = []
  nodeNodup : n.names.Nodup
  nodeFresh : ∀ x ∈ n.names, x ∉ pre.map Prod.fst ∧ x ∉ post.map Prod.fst
  pendingNodup : deletes.Nodup
  pendingFresh : ∀ x ∈ deletes, x ∉ pre.map Prod.fst ∧ x ∉ n.names

/-- What the loop returns from such a state: the node with more updates and sub-diffs, of fields
of `pre`; deletes and inserts of fields of the two lists or pending; every pending delete a
delete or an insert after all; each name once; and `pre` taken to `post` by the node. -/
structure DocLoopResult (pre post : BSONObj) (n N : DocumentSubDiffNode Node)
    (deletes : List String) : Prop where
  updates : ∃ U, N.updates = n.updates ++ U ∧ ∀ u ∈ U, u.1 ∈ pre.map Prod.fst
  subDiffs : ∃ S, N.subDiffs = n.subDiffs ++ S ∧
    ∀ s ∈ S, s.1 ∈ pre.map Prod.fst ∧ s.2.isInternal = true ∧ s.2.WF (2 ^ 31)
  removed : ∀ x ∈ N.deletes ++ N.inserts.map Prod.fst,
    x ∈ pre.map Prod.fst ∨ x ∈ post.map Prod.fst ∨ x ∈ deletes
  pending : ∀ x ∈ deletes, x ∈ N.deletes ∨ x ∈ N.inserts.map Prod.fst
  nodup : N.names.Nodup
  fields : pre.filterMap (fieldStep N) ++ N.inserts = post

/-- `walkSubDiff` is right: a sub-diff it finds between two different values with unique
names, the new one of fitting size, takes the old value to the new one and is well formed. -/
def SubDiffCorrect (pre post : BSONValue) : Prop :=
  ∀ c, walkSubDiff pre post = some c → pre.hasUniqueNames = true →
    post.hasUniqueNames = true → post.valuesize < 2 ^ 31 → pre ≠ post →
    c.applyTo pre = post ∧ c.isInternal = true ∧ c.WF (2 ^ 31)

/-- The loop of `walkDocDiff` is right from a state of the walk. -/
def DocLoopCorrect (pre post : BSONObj) (postObjSize : Nat) (n : DocumentSubDiffNode Node)
    (deletes : List String) : Prop :=
  ∀ N, walkDocDiffLoop pre post postObjSize n deletes = some N →
    DocLoopState pre post n deletes → DocLoopResult pre post n N deletes

namespace DocLoopResult

variable {pre post : BSONObj} {n N : DocumentSubDiffNode Node} {deletes : List String}

/-- The names of the result: the node's, and those of the two lists and the pending deletes. -/
theorem mem_names (h : DocLoopResult pre post n N deletes) {x : String} (hx : x ∈ N.names) :
    x ∈ n.names ∨ x ∈ pre.map Prod.fst ∨ x ∈ post.map Prod.fst ∨ x ∈ deletes := by
  obtain ⟨U, hU, hUpre⟩ := h.updates
  obtain ⟨S, hS, hSpre⟩ := h.subDiffs
  simp only [DocumentSubDiffNode.names, List.mem_append, hU, hS, List.map_append] at hx
  rcases hx with ((hdel | hupd | hupd) | hins) | hsub | hsub
  · exact .inr (h.removed x (List.mem_append_left _ hdel))
  · exact .inl (by simp [DocumentSubDiffNode.names, hupd])
  · obtain ⟨u, hu, rfl⟩ := List.mem_map.1 hupd
    exact .inr (.inl (hUpre u hu))
  · exact .inr (h.removed x (List.mem_append_right _ hins))
  · exact .inl (by simp [DocumentSubDiffNode.names, hsub])
  · obtain ⟨s, hs, rfl⟩ := List.mem_map.1 hsub
    exact .inr (.inl (hSpre s hs).1)

variable {fieldName : String} {preVal postVal : BSONValue}

/-- A node with no entry leaves every field as it is. -/
theorem filterMap_fieldStep_of_names_nil {N : DocumentSubDiffNode Node} (hN : N.names = [])
    (fields : BSONObj) : fields.filterMap (fieldStep N) = fields :=
  (List.filterMap_congr fun e _ => by
    obtain ⟨name, value⟩ := e
    exact fieldStep_of_not_mem (by simp [hN])).trans List.filterMap_some

/-- The loop returns a node with no entry only for equal lists. -/
theorem eq_of_names_nil (h : DocLoopResult pre post n N deletes) (hN : N.names = []) :
    pre = post := by
  have hins : N.inserts = [] := by
    simp only [DocumentSubDiffNode.names, List.append_eq_nil_iff, List.map_eq_nil_iff] at hN
    exact hN.1.2
  simpa [filterMap_fieldStep_of_names_nil hN, hins] using h.fields

/-- A name the two lists and the pending deletes do not have is neither deleted nor inserted. -/
theorem not_removed (h : DocLoopResult pre post n N deletes) {x : String}
    (hpre : x ∉ pre.map Prod.fst) (hpost : x ∉ post.map Prod.fst) (hdel : x ∉ deletes) :
    x ∉ N.deletes ∧ x ∉ N.inserts.map Prod.fst := by
  constructor
  all_goals
    intro hx
    rcases h.removed x (by simp [hx]) with hp | hq | hd
    exacts [hpre hp, hpost hq, hdel hd]

/-- The result one field earlier, when that field got the entries `U₀` and `S₀` and the node
takes it to the post-image's field. -/
theorem cons {n' : DocumentSubDiffNode Node} {U₀ : List (String × BSONValue)}
    {S₀ : List (String × Node)} (h : DocLoopResult pre post n' N deletes)
    (hupd : n'.updates = n.updates ++ U₀) (hU₀ : ∀ u ∈ U₀, u.1 = fieldName)
    (hsub : n'.subDiffs = n.subDiffs ++ S₀)
    (hS₀ : ∀ s ∈ S₀, s.1 = fieldName ∧ s.2.isInternal = true ∧ s.2.WF (2 ^ 31))
    (hstep : fieldStep N (fieldName, preVal) = some (fieldName, postVal)) :
    DocLoopResult ((fieldName, preVal) :: pre) ((fieldName, postVal) :: post) n N deletes := by
  obtain ⟨U, hU, hUpre⟩ := h.updates
  obtain ⟨S, hS, hSpre⟩ := h.subDiffs
  refine ⟨⟨U₀ ++ U, by rw [hU, hupd, List.append_assoc], fun u hu => ?_⟩,
    ⟨S₀ ++ S, by rw [hS, hsub, List.append_assoc], fun s hs => ?_⟩,
    fun x hx => ?_, h.pending, h.nodup, ?_⟩
  · rcases List.mem_append.1 hu with hu | hu
    · simp [hU₀ u hu]
    · exact List.mem_cons_of_mem _ (hUpre u hu)
  · rcases List.mem_append.1 hs with hs | hs
    · exact ⟨by simp [(hS₀ s hs).1], (hS₀ s hs).2⟩
    · exact ⟨List.mem_cons_of_mem _ (hSpre s hs).1, (hSpre s hs).2⟩
  · rcases h.removed x hx with hp | hq | hd
    · exact .inl (List.mem_cons_of_mem _ hp)
    · exact .inr (.inl (List.mem_cons_of_mem _ hq))
    · exact .inr (.inr hd)
  · rw [List.filterMap_cons, hstep, List.cons_append, h.fields]

end DocLoopResult

namespace DocLoopState

variable {fieldName : String} {preVal postVal : BSONValue} {pre post : BSONObj}
  {n : DocumentSubDiffNode Node} {deletes : List String}

/-- Passing a field of both lists. -/
theorem tail (h : DocLoopState ((fieldName, preVal) :: pre) ((fieldName, postVal) :: post) n deletes)
    (n' : DocumentSubDiffNode Node) (hdel : n'.deletes = []) (hins : n'.inserts = [])
    (hnames : ∀ x ∈ n'.names, x = fieldName ∨ x ∈ n.names) (hnodup : n'.names.Nodup) :
    DocLoopState pre post n' deletes where
  preNodup := (List.nodup_cons.1 h.preNodup).2
  postNodup := (List.nodup_cons.1 h.postNodup).2
  preValues e he := h.preValues e (List.mem_cons_of_mem _ he)
  postValues e he := h.postValues e (List.mem_cons_of_mem _ he)
  noDeletes := hdel
  noInserts := hins
  nodeNodup := hnodup
  nodeFresh x hx := by
    have hpre := List.nodup_cons.1 h.preNodup
    have hpost := List.nodup_cons.1 h.postNodup
    rcases hnames x hx with rfl | hx
    · exact ⟨hpre.1, hpost.1⟩
    · have := h.nodeFresh x hx
      simp only [List.map_cons, List.mem_cons, not_or] at this
      exact ⟨this.1.2, this.2.2⟩
  pendingNodup := h.pendingNodup
  pendingFresh x hx := by
    have := h.pendingFresh x hx
    simp only [List.map_cons, List.mem_cons, not_or] at this
    refine ⟨this.1.2, fun hmem => ?_⟩
    rcases hnames x hmem with rfl | hmem
    · exact this.1.1 rfl
    · exact this.2 hmem

/-- Passing a field of both lists that the node takes an entry for: an update or a sub-diff. -/
theorem matched (h : DocLoopState ((fieldName, preVal) :: pre) ((fieldName, postVal) :: post) n
      deletes) {n' : DocumentSubDiffNode Node}
    (hn' : n' = n.appendUpdate fieldName postVal ∨
      ∃ c : Node, c.isInternal = true ∧ n' = n.appendChild fieldName c) :
    DocLoopState pre post n' deletes := by
  have hfresh : fieldName ∉ n.names := fun hx => (h.nodeFresh fieldName hx).1 (by simp)
  -- the node gets one name more, in the section of its entry
  obtain ⟨hperm, hdel, hins⟩ : n'.names.Perm (fieldName :: n.names) ∧ n'.deletes = n.deletes ∧
      n'.inserts = n.inserts := by
    rcases hn' with rfl | ⟨c, hc, rfl⟩
    · exact ⟨DocumentSubDiffNode.names_appendUpdate n fieldName postVal, rfl, rfl⟩
    · exact ⟨DocumentSubDiffNode.names_appendChild n fieldName hc,
        DocumentSubDiffNode.appendChild_deletes n fieldName hc,
        DocumentSubDiffNode.appendChild_inserts n fieldName hc⟩
  exact h.tail n' (hdel.trans h.noDeletes) (hins.trans h.noInserts)
    (fun x hx => List.mem_cons.1 (hperm.mem_iff.1 hx))
    (hperm.nodup_iff.2 (List.nodup_cons.2 ⟨hfresh, h.nodeNodup⟩))

/-- Passing a field of the pre-image alone: its name is pending from now on. -/
theorem mismatch (h : DocLoopState ((fieldName, preVal) :: pre) post n deletes) :
    DocLoopState pre post n (insertName fieldName deletes) :=
  have hpre := List.nodup_cons.1 h.preNodup
  { h with
    preNodup := hpre.2
    preValues := fun e he => h.preValues e (List.mem_cons_of_mem _ he)
    nodeFresh := fun x hx => ⟨fun hx' => (h.nodeFresh x hx).1 (List.mem_cons_of_mem _ hx'),
      (h.nodeFresh x hx).2⟩
    pendingNodup := nodup_insertName fieldName h.pendingNodup
    pendingFresh := fun x hx => by
      rcases mem_insertName.1 hx with rfl | hx
      · exact ⟨hpre.1, fun hx' => (h.nodeFresh _ hx').1 (by simp)⟩
      · exact ⟨fun hx' => (h.pendingFresh x hx).1 (List.mem_cons_of_mem _ hx'),
          (h.pendingFresh x hx).2⟩ }

end DocLoopState

namespace DocLoopCorrect

variable {postObjSize : Nat} {n : DocumentSubDiffNode Node} {deletes : List String}
  {fieldName : String} {preVal postVal : BSONValue} {pre post : BSONObj}

/-- A field equal in both: the loop passes it, and the node leaves it as it is. -/
theorem equal (ih : DocLoopCorrect pre post postObjSize n deletes)
    (heq : walkDocDiffLoop ((fieldName, preVal) :: pre) ((fieldName, preVal) :: post)
      postObjSize n deletes = walkDocDiffLoop pre post postObjSize n deletes) :
    DocLoopCorrect ((fieldName, preVal) :: pre) ((fieldName, preVal) :: post) postObjSize n
      deletes := by
  intro N hN hstate
  rw [heq] at hN
  have hres := ih N hN
    (hstate.tail n hstate.noDeletes hstate.noInserts (fun _ => .inr) hstate.nodeNodup)
  -- the field is in neither list that is left, nor in the node, nor pending: so untouched
  have hfresh : fieldName ∉ N.names := by
    intro hmem
    have hpre := List.nodup_cons.1 hstate.preNodup
    have hpost := List.nodup_cons.1 hstate.postNodup
    rcases hres.mem_names hmem with hn | hp | hq | hd
    · exact (hstate.nodeFresh fieldName hn).1 (by simp)
    · exact hpre.1 hp
    · exact hpost.1 hq
    · exact (hstate.pendingFresh fieldName hd).1 (by simp)
  exact hres.cons (by simp : n.updates = n.updates ++ []) (by simp)
    (by simp : n.subDiffs = n.subDiffs ++ []) (by simp) (fieldStep_of_not_mem hfresh)

/-- A field of one name in both, with another value: the node updates it, or takes the sub-diff
of the two values, and so rewrites it in place. -/
theorem matched (hne : preVal ≠ postVal) {n' : DocumentSubDiffNode Node}
    (hn' : n' = n.appendUpdate fieldName postVal ∨
      ∃ c, walkSubDiff preVal postVal = some c ∧ n' = n.appendChild fieldName c)
    (ihSub : SubDiffCorrect preVal postVal) (ih : DocLoopCorrect pre post postObjSize n' deletes)
    (heq : walkDocDiffLoop ((fieldName, preVal) :: pre) ((fieldName, postVal) :: post)
      postObjSize n deletes = walkDocDiffLoop pre post postObjSize n' deletes) :
    DocLoopCorrect ((fieldName, preVal) :: pre) ((fieldName, postVal) :: post) postObjSize n
      deletes := by
  intro N hN hstate
  rw [heq] at hN
  have hpre := List.nodup_cons.1 hstate.preNodup
  have hpost := List.nodup_cons.1 hstate.postNodup
  have hfresh : fieldName ∉ n.names := fun h => (hstate.nodeFresh fieldName h).1 (by simp)
  have hpending : fieldName ∉ deletes := fun h => (hstate.pendingFresh fieldName h).1 (by simp)
  have hfreshUpdates : fieldName ∉ n.updates.map Prod.fst := fun h =>
    hfresh (by simp only [DocumentSubDiffNode.names, List.mem_append]; exact .inl (.inl (.inr h)))
  have hfreshSubDiffs : fieldName ∉ n.subDiffs.map Prod.fst := fun h =>
    hfresh (by simp only [DocumentSubDiffNode.names, List.mem_append]; exact .inr h)
  rcases hn' with rfl | ⟨c, hc, rfl⟩
  · have hres := ih N hN (hstate.matched (.inl rfl))
    obtain ⟨hdel, hins⟩ := hres.not_removed hpre.1 hpost.1 hpending
    obtain ⟨U, hU, -⟩ := hres.updates
    refine hres.cons (DocumentSubDiffNode.appendUpdate_updates n fieldName postVal)
      (by simp) (by simp : _ = n.subDiffs ++ []) (by simp) (fieldStep_of_lookup hdel hins ?_)
    rw [hU, DocumentSubDiffNode.appendUpdate_updates, List.lookup_append, List.lookup_append,
      (List.lookup_eq_none_iff.2 fun e he => ?_)]
    · simp
    · simpa using fun h : fieldName = e.1 => hfreshUpdates (h ▸ List.mem_map_of_mem he)
  · have hpostVal := hstate.postValues (fieldName, postVal) (by simp)
    obtain ⟨happly, hinternal, hwf⟩ := ihSub c hc (hstate.preValues (fieldName, preVal) (by simp))
      hpostVal.1 hpostVal.2 hne
    have hres := ih N hN (hstate.matched (.inr ⟨c, hinternal, rfl⟩))
    obtain ⟨hdel, hins⟩ := hres.not_removed hpre.1 hpost.1 hpending
    obtain ⟨U, hU, hUpre⟩ := hres.updates
    obtain ⟨S, hS, -⟩ := hres.subDiffs
    refine hres.cons
      ((DocumentSubDiffNode.appendChild_updates n fieldName hinternal).trans (List.append_nil _).symm)
      (by simp) (DocumentSubDiffNode.appendChild_subDiffs n fieldName hinternal)
      (by simpa using ⟨hinternal, hwf⟩) (fieldStep_of_applyNamed hdel hins ?_ ?_)
    · rw [hU, DocumentSubDiffNode.appendChild_updates n fieldName hinternal, List.lookup_eq_none_iff]
      intro e he
      have hne : fieldName ≠ e.1 := by
        rcases List.mem_append.1 he with he | he
        · exact fun h => hfreshUpdates (h ▸ List.mem_map_of_mem he)
        · exact fun h => hpre.1 (h ▸ hUpre e he)
      simpa using hne
    · rw [hS, DocumentSubDiffNode.appendChild_subDiffs n fieldName hinternal, applyNamed_append,
        applyNamed_append, applyNamed_eq_none hfreshSubDiffs]
      simp [applyNamed, happly]

/-- A pre-image field whose name is not the post-image's: the loop passes it and deletes it for
now, and the node takes it out. -/
theorem mismatch (ih : DocLoopCorrect pre post postObjSize n (insertName fieldName deletes))
    (heq : walkDocDiffLoop ((fieldName, preVal) :: pre) post postObjSize n deletes =
      walkDocDiffLoop pre post postObjSize n (insertName fieldName deletes)) :
    DocLoopCorrect ((fieldName, preVal) :: pre) post postObjSize n deletes := by
  intro N hN hstate
  rw [heq] at hN
  have hres := ih N hN hstate.mismatch
  obtain ⟨U, hU, hUpre⟩ := hres.updates
  obtain ⟨S, hS, hSpre⟩ := hres.subDiffs
  refine ⟨⟨U, hU, fun u hu => List.mem_cons_of_mem _ (hUpre u hu)⟩,
    ⟨S, hS, fun s hs => ⟨List.mem_cons_of_mem _ (hSpre s hs).1, (hSpre s hs).2⟩⟩,
    fun x hx => ?_, fun x hx => hres.pending x (mem_insertName.2 (.inr hx)), hres.nodup, ?_⟩
  · rcases hres.removed x hx with hp | hq | hd
    · exact .inl (List.mem_cons_of_mem _ hp)
    · exact .inr (.inl hq)
    · rcases mem_insertName.1 hd with rfl | hd
      · exact .inl (by simp)
      · exact .inr (.inr hd)
  · -- the field itself is deleted or inserted in the end
    have hgone := hres.pending fieldName (mem_insertName.2 (.inl rfl))
    rw [List.filterMap_cons, fieldStep_of_removed hgone, hres.fields]

/-- One list at its end: the rest of the other is deleted or inserted, and so are the pending
deletes. -/
theorem finish (hend : pre = [] ∨ post = [])
    (heq : walkDocDiffLoop pre post postObjSize n deletes =
      walkDocDiffEnd pre post postObjSize n deletes) :
    DocLoopCorrect pre post postObjSize n deletes := by
  intro N hN hstate
  rw [heq] at hN
  obtain ⟨t, rfl⟩ := walkDocDiffEnd_eq hstate.pendingNodup hN
  have hdel₀ := hstate.noDeletes
  have hins₀ := hstate.noInserts
  set kept := deletes.filter fun name => name ∉ post.map Prod.fst
  have hkept : kept.Nodup := hstate.pendingNodup.filter _
  refine ⟨⟨[], by simp, by simp⟩, ⟨[], by simp, by simp⟩, fun x hx => ?_, fun x hx => ?_, ?_, ?_⟩
  · simp only [hdel₀, hins₀, List.nil_append, List.mem_append] at hx
    rcases hx with (hp | hd) | hq
    · exact .inl hp
    · exact .inr (.inr (List.mem_of_mem_filter hd))
    · exact .inr (.inl hq)
  · by_cases hq : x ∈ post.map Prod.fst
    · exact .inr (by simpa [hins₀] using hq)
    · exact .inl (List.mem_append_right _ (List.mem_filter.2 ⟨hx, by simpa using hq⟩))
  · -- the names: the two rests and the kept deletes, then the node's own
    have hperm : (DocumentSubDiffNode.names ⟨n.deletes ++ pre.map Prod.fst ++ kept, n.updates,
        n.inserts ++ post, n.subDiffs, t⟩).Perm
        ((pre.map Prod.fst ++ kept ++ post.map Prod.fst) ++ n.names) := by
      simp only [DocumentSubDiffNode.names, hdel₀, hins₀, List.nil_append, List.map_nil,
        List.append_assoc]
      exact ((List.perm_append_comm_assoc _ _ _).append_left _).append_left _
    refine hperm.nodup_iff.2 (List.nodup_append.2 ⟨?_, hstate.nodeNodup, ?_⟩)
    · refine List.nodup_append.2 ⟨List.nodup_append.2 ⟨hstate.preNodup, hkept, ?_⟩,
        hstate.postNodup, ?_⟩
      · intro a ha b hb hab
        subst hab
        exact (hstate.pendingFresh a (List.mem_of_mem_filter hb)).1 ha
      · intro a ha b hb hab
        subst hab
        rcases List.mem_append.1 ha with ha | ha
        · rcases hend with rfl | rfl
          · simp at ha
          · simp at hb
        · exact (by simpa using (List.mem_filter.1 ha).2 : a ∉ post.map Prod.fst) hb
    · intro a ha b hb hab
      subst hab
      have := hstate.nodeFresh a hb
      rcases List.mem_append.1 ha with ha | hq
      · rcases List.mem_append.1 ha with hp | hd
        · exact this.1 hp
        · exact (hstate.pendingFresh a (List.mem_of_mem_filter hd)).2 hb
      · exact this.2 hq
  · rcases hend with rfl | rfl
    · simp [hins₀]
    · rw [List.filterMap_eq_nil_iff.2 fun e he => ?_]
      · simp [hins₀]
      · obtain ⟨name, value⟩ := e
        exact fieldStep_of_removed (.inl (by simp [hdel₀, List.mem_map_of_mem he]))

end DocLoopCorrect

/-! ## The array loop -/

/-- The updates `walkArrayDiffEnd` adds for the rest of the post-image, from index `idx`. -/
def updatesFrom : Nat → List BSONValue → List (Nat × Node)
  | _, [] => []
  | idx, value :: rest => (idx, .update value) :: updatesFrom (idx + 1) rest

theorem map_fst_updatesFrom (idx : Nat) (values : List BSONValue) :
    (updatesFrom idx values).map Prod.fst = List.range' idx values.length := by
  induction values generalizing idx with
  | nil => rfl
  | cons value rest ih => simp [updatesFrom, ih, List.range'_succ]

theorem applyIndexed_updatesFrom (idx : Nat) (values : List BSONValue) {j : Nat}
    (hj : j < values.length) (value : BSONValue) :
    applyIndexed (updatesFrom idx values) (idx + j) value = some values[j] := by
  induction values generalizing idx j with
  | nil => simp at hj
  | cons head rest ih =>
    cases j with
    | zero => simp [updatesFrom, applyIndexed, Node.applyTo]
    | succ j =>
      have := ih (idx + 1) (j := j) (by simpa using hj)
      rw [show idx + 1 + j = idx + (j + 1) by omega] at this
      simp [updatesFrom, applyIndexed, this]

theorem wf_updatesFrom (bound idx : Nat) (values : List BSONValue) :
    ∀ c ∈ updatesFrom idx values, c.2.WF bound := by
  induction values generalizing idx with
  | nil => simp [updatesFrom]
  | cons value rest ih =>
    intro c hc
    rcases List.mem_cons.1 hc with rfl | hc
    · exact .update value
    · exact ih (idx + 1) c hc

namespace ArrayNode

/-- Updating the elements of a list, one index after the other. -/
theorem foldl_appendUpdate (values : List BSONValue) (n : ArrayNode Node) (idx : Nat) :
    ∃ t, values.foldl (fun (ni : ArrayNode Node × Nat) postVal =>
        (ni.1.appendUpdate ni.2 postVal, ni.2 + 1)) (n, idx) =
      (⟨n.children ++ updatesFrom idx values, n.resize, t⟩, idx + values.length) := by
  induction values generalizing n idx with
  | nil => exact ⟨n.sizeTracker, by cases n; simp [updatesFrom]⟩
  | cons value rest ih =>
    obtain ⟨t, ht⟩ := ih (n.appendUpdate idx value) (idx + 1)
    refine ⟨t, ?_⟩
    rw [List.foldl_cons, ht]
    simp [updatesFrom, Nat.add_assoc, Nat.add_comm 1]

end ArrayNode

/-- What `walkArrayDiffEnd` adds: the rest of the post-image as updates, and a resize to the
post-image's length when the pre-image has elements left. -/
theorem walkArrayDiffEnd_eq {preRest postRest : List BSONValue} {postObjSize idx : Nat}
    {n N : ArrayNode Node}
    (h : walkArrayDiffEnd preRest postRest postObjSize idx n = some N) :
    ∃ t, N = ⟨n.children ++ updatesFrom idx postRest,
      if preRest.isEmpty then n.resize else some (idx + postRest.length), t⟩ := by
  unfold walkArrayDiffEnd at h
  obtain ⟨t, ht⟩ := ArrayNode.foldl_appendUpdate postRest n idx
  simp only [ht] at h
  obtain ⟨-, h⟩ := Option.ite_none_right_eq_some.1 h
  cases Option.some.inj h
  split <;> exact ⟨_, rfl⟩

/-- A state of the loop of `walkArrayDiff` at index `idx`: values of unique names, those of
the post-image of fitting size and fewer than `2 ^ 31` in all, and no resize yet. -/
structure ArrayLoopState (pre post : List BSONValue) (idx : Nat) (n : ArrayNode Node) : Prop where
  preValues : ∀ v ∈ pre, v.hasUniqueNames = true
  postValues : ∀ v ∈ post, v.hasUniqueNames = true ∧ v.valuesize < 2 ^ 31
  bound : idx + post.length < 2 ^ 31
  noResize : n.resize = none

/-- Passing the elements at index `idx`, with no resize set. -/
theorem ArrayLoopState.tail {preVal postVal : BSONValue} {pre post : List BSONValue} {idx : Nat}
    {n n' : ArrayNode Node} (h : ArrayLoopState (preVal :: pre) (postVal :: post) idx n)
    (hresize : n'.resize = n.resize) : ArrayLoopState pre post (idx + 1) n' where
  preValues v hv := h.preValues v (List.mem_cons_of_mem _ hv)
  postValues v hv := h.postValues v (List.mem_cons_of_mem _ hv)
  bound := by
    have := h.bound
    simp only [List.length_cons] at this
    omega
  noResize := by rw [hresize, h.noResize]

/-- The children the loop adds from index `idx` on: at increasing indexes of the post-image,
well formed, one at the last index when the post-image is the longer, and each taking the
element of `pre` to the element of `post` at its index. -/
structure ArrayChildren (pre post : List BSONValue) (idx : Nat) (C : List (Nat × Node)) :
    Prop where
  sorted : (C.map Prod.fst).Pairwise (· < ·)
  range : ∀ c ∈ C, idx ≤ c.1 ∧ c.1 < idx + post.length
  wf : ∀ c ∈ C, c.2.WF (2 ^ 31)
  last : pre.length < post.length → idx + post.length - 1 ∈ C.map Prod.fst
  elems : ∀ j (hj : j < post.length),
    (applyIndexed C (idx + j) (pre.getD j .null)).getD (pre.getD j .null) = post[j]

/-- The loop of `walkArrayDiff` is right from a state of the walk. -/
def ArrayLoopCorrect (pre post : List BSONValue) (postObjSize idx : Nat) (n : ArrayNode Node) :
    Prop :=
  ∀ N, walkArrayDiffLoop pre post postObjSize idx n = some N → ArrayLoopState pre post idx n →
    ∃ C, N.children = n.children ++ C ∧
      N.resize = (if post.length < pre.length then some (idx + post.length) else none) ∧
      ArrayChildren pre post idx C

namespace ArrayLoopCorrect

variable {postObjSize idx : Nat} {n : ArrayNode Node} {pre post : List BSONValue}

/-- One list at its end: the rest of the post-image is updated, and a longer pre-image cut. -/
theorem finish (hend : pre = [] ∨ post = [])
    (heq : walkArrayDiffLoop pre post postObjSize idx n =
      walkArrayDiffEnd pre post postObjSize idx n) :
    ArrayLoopCorrect pre post postObjSize idx n := by
  intro N hN hstate
  rw [heq] at hN
  obtain ⟨t, rfl⟩ := walkArrayDiffEnd_eq hN
  refine ⟨updatesFrom idx post, rfl, ?_, ?_⟩
  · rcases hend with rfl | rfl
    · simp [hstate.noResize]
    · cases pre <;> simp [hstate.noResize]
  · have hfst := map_fst_updatesFrom idx post
    refine ⟨by rw [hfst]; exact List.pairwise_lt_range', fun c hc => ?_,
      wf_updatesFrom _ idx post, fun hlt => ?_, fun j hj => ?_⟩
    · have := List.mem_map_of_mem (f := Prod.fst) hc
      rw [hfst, List.mem_range'_1] at this
      exact this
    · rw [hfst, List.mem_range'_1]
      omega
    · -- a post-image element left over means the pre-image is at its end
      have hpre : pre = [] := by
        rcases hend with h | rfl
        · exact h
        · simp at hj
      subst hpre
      simp [applyIndexed_updatesFrom idx post hj]

/-- The elements at index `idx`: the node gets no child when they are equal, else an update or
the sub-diff of the two, and the loop goes on at `idx + 1`. -/
theorem step {preVal postVal : BSONValue} {n' : ArrayNode Node}
    (hn' : (preVal = postVal ∧ n' = n) ∨ (preVal ≠ postVal ∧ (n' = n.appendUpdate idx postVal ∨
      ∃ c, walkSubDiff preVal postVal = some c ∧ n' = n.appendChild idx c)))
    (ihSub : SubDiffCorrect preVal postVal)
    (ih : ArrayLoopCorrect pre post postObjSize (idx + 1) n')
    (heq : walkArrayDiffLoop (preVal :: pre) (postVal :: post) postObjSize idx n =
      walkArrayDiffLoop pre post postObjSize (idx + 1) n') :
    ArrayLoopCorrect (preVal :: pre) (postVal :: post) postObjSize idx n := by
  intro N hN hstate
  rw [heq] at hN
  have hpostVal := hstate.postValues postVal (by simp)
  -- what the node gets at `idx`: nothing, an update or a sub-diff, each taking `preVal` to
  -- `postVal`
  obtain ⟨C₀, hchildren, hresize, hsorted₀, hC₀, happly₀⟩ : ∃ C₀,
      n'.children = n.children ++ C₀ ∧ n'.resize = n.resize ∧
      (C₀.map Prod.fst).Pairwise (· < ·) ∧ (∀ c ∈ C₀, c.1 = idx ∧ c.2.WF (2 ^ 31)) ∧
      (applyIndexed C₀ idx preVal).getD preVal = postVal := by
    rcases hn' with ⟨rfl, rfl⟩ | ⟨hne, rfl | ⟨c, hc, rfl⟩⟩
    · exact ⟨[], by simp, rfl, by simp, by simp, rfl⟩
    · exact ⟨[(idx, .update postVal)], by simp, by simp, by simp, by simp [Node.WF.update],
        by simp [applyIndexed, Node.applyTo]⟩
    · obtain ⟨happly, -, hwf⟩ := ihSub c hc (hstate.preValues preVal (by simp)) hpostVal.1
        hpostVal.2 hne
      exact ⟨[(idx, c)], by simp, by simp, by simp,
        fun d hd => by rw [List.mem_singleton.1 hd]; exact ⟨rfl, hwf⟩,
        by simp [applyIndexed, happly]⟩
  obtain ⟨C, hC, hres, hspec⟩ := ih N hN (hstate.tail hresize)
  -- no child the loop adds later is at `idx`
  have hlater : ∀ i ≤ idx, i ∉ C.map Prod.fst := fun i hi hmem => by
    obtain ⟨c, hc, rfl⟩ := List.mem_map.1 hmem
    have := (hspec.range c hc).1
    omega
  refine ⟨C₀ ++ C, by rw [hC, hchildren, List.append_assoc], ?_, ?_, ?_,
    fun c hc => (List.mem_append.1 hc).elim (fun h => (hC₀ c h).2) (hspec.wf c), ?_, ?_⟩
  · rw [hres]
    simp only [List.length_cons, Nat.add_lt_add_iff_right]
    rw [show idx + 1 + post.length = idx + (post.length + 1) by omega]
  · rw [List.map_append, List.pairwise_append]
    refine ⟨hsorted₀, hspec.sorted, fun a ha b hb => ?_⟩
    obtain ⟨c, hc, rfl⟩ := List.mem_map.1 ha
    obtain ⟨d, hd, rfl⟩ := List.mem_map.1 hb
    have := (hspec.range d hd).1
    rw [(hC₀ c hc).1]
    omega
  · intro c hc
    rcases List.mem_append.1 hc with hc | hc
    · rw [(hC₀ c hc).1]
      simp
    · have := hspec.range c hc
      simp only [List.length_cons]
      omega
  · intro hlt
    have := hspec.last (by simpa using hlt)
    rw [List.map_append]
    refine List.mem_append_right _ ?_
    simpa [show idx + (post.length + 1) - 1 = idx + 1 + post.length - 1 by omega] using this
  · -- index `idx` is the one the step decided; the later ones are the loop's
    have hnone (i : Nat) (hi : i ≠ idx) (value : BSONValue) : applyIndexed C₀ i value = none :=
      applyIndexed_eq_none (fun hmem => by
        obtain ⟨c, hc, rfl⟩ := List.mem_map.1 hmem
        exact hi (hC₀ c hc).1) value
    intro j hj
    cases j with
    | zero =>
      simp only [Nat.add_zero, List.getD_cons_zero, List.getElem_cons_zero, applyIndexed_append,
        applyIndexed_eq_none (hlater idx le_rfl), Option.or_none]
      exact happly₀
    | succ j =>
      simp only [List.getD_cons_succ, List.getElem_cons_succ, applyIndexed_append,
        hnone (idx + (j + 1)) (by omega), Option.none_or]
      rw [show idx + (j + 1) = idx + 1 + j by omega]
      exact hspec.elems j (by simpa using hj)

end ArrayLoopCorrect

/-! ## Sizes and unique names of the values inside -/

theorem fieldsHaveUniqueNames_iff {fields : BSONObj} :
    fieldsHaveUniqueNames fields = true ↔ ∀ e ∈ fields, e.2.hasUniqueNames = true := by
  induction fields with
  | nil => simp [fieldsHaveUniqueNames]
  | cons field rest ih =>
    obtain ⟨name, value⟩ := field
    simp [fieldsHaveUniqueNames, ih]

theorem elemsHaveUniqueNames_iff {elems : List BSONValue} :
    elemsHaveUniqueNames elems = true ↔ ∀ v ∈ elems, v.hasUniqueNames = true := by
  induction elems with
  | nil => simp [elemsHaveUniqueNames]
  | cons value rest ih => simp [elemsHaveUniqueNames, ih]

theorem hasUniqueNames_object {fields : BSONObj} :
    (BSONValue.object fields).hasUniqueNames = true ↔
      (fields.map Prod.fst).Nodup ∧ ∀ e ∈ fields, e.2.hasUniqueNames = true := by
  simp [hasUniqueNames, fieldsHaveUniqueNames_iff]

theorem valuesize_lt_fieldsSize {fields : BSONObj} {e : String × BSONValue} (he : e ∈ fields) :
    e.2.valuesize < fieldsSize fields := by
  induction fields with
  | nil => simp at he
  | cons field rest ih =>
    obtain ⟨name, value⟩ := field
    rcases List.mem_cons.1 he with rfl | he
    · simp only [fieldsSize]
      omega
    · have := ih he
      simp only [fieldsSize]
      omega

theorem valuesize_lt_objsize {fields : BSONObj} {e : String × BSONValue} (he : e ∈ fields) :
    e.2.valuesize < objsize fields :=
  (valuesize_lt_fieldsSize he).trans (by simp [objsize])

theorem length_le_elementsSize (elems : List BSONValue) (i : Nat) :
    elems.length ≤ elementsSize elems i := by
  induction elems generalizing i with
  | nil => simp
  | cons value rest ih =>
    have := ih (i + 1)
    simp only [elementsSize, List.length_cons]
    omega

/-- Each element takes its value's bytes and at least one more, its type byte. -/
theorem valuesize_add_length_le_elementsSize {elems : List BSONValue} {v : BSONValue}
    (hv : v ∈ elems) (i : Nat) : v.valuesize + elems.length ≤ elementsSize elems i := by
  induction elems generalizing i with
  | nil => simp at hv
  | cons value rest ih =>
    simp only [elementsSize, List.length_cons]
    rcases List.mem_cons.1 hv with rfl | hv
    · have := length_le_elementsSize rest (i + 1)
      omega
    · have := ih hv (i + 1)
      omega

theorem valuesize_lt_arrayObjsize {elems : List BSONValue} {v : BSONValue} (hv : v ∈ elems) :
    v.valuesize < arrayObjsize elems := by
  have := valuesize_add_length_le_elementsSize hv 0
  simp only [arrayObjsize]
  omega

theorem length_lt_arrayObjsize (elems : List BSONValue) : elems.length < arrayObjsize elems := by
  cases elems with
  | nil => simp [arrayObjsize]
  | cons v rest =>
    have := valuesize_add_length_le_elementsSize (List.mem_cons_self (a := v) (l := rest)) 0
    simp only [arrayObjsize]
    omega

/-- The document loop starts from a state of its walk: the empty node, nothing pending. -/
theorem DocLoopState.init {pre post : BSONObj} (hpre : (BSONValue.object pre).hasUniqueNames = true)
    (hpost : (BSONValue.object post).hasUniqueNames = true) (hsize : objsize post < 2 ^ 31)
    (padding : Nat) : DocLoopState pre post (DocumentSubDiffNode.init padding) [] := by
  rw [hasUniqueNames_object] at hpre hpost
  have hinit : (DocumentSubDiffNode.init padding : DocumentSubDiffNode Node).names = [] := by
    simp [DocumentSubDiffNode.names, DocumentSubDiffNode.init]
  exact ⟨hpre.1, hpost.1, hpre.2,
    fun e he => ⟨hpost.2 e he, (valuesize_lt_objsize he).trans hsize⟩, rfl, rfl,
    by simp [hinit], by simp [hinit], List.nodup_nil, by simp⟩

/-- The array loop starts from a state of its walk: index 0, no child and no resize. -/
theorem ArrayLoopState.init {pre post : List BSONValue}
    (hpre : (BSONValue.array pre).hasUniqueNames = true)
    (hpost : (BSONValue.array post).hasUniqueNames = true) (hsize : arrayObjsize post < 2 ^ 31) :
    ArrayLoopState pre post 0 ArrayNode.init := by
  simp only [hasUniqueNames, elemsHaveUniqueNames_iff] at hpre hpost
  have := length_lt_arrayObjsize post
  exact ⟨hpre, fun v hv => ⟨hpost v hv, (valuesize_lt_arrayObjsize hv).trans hsize⟩, by omega, rfl⟩

/-! ## The sub-diff of two values -/

theorem le_endIndex {children : List (Nat × Node)} {c : Nat × Node} (hc : c ∈ children) :
    c.1 + 1 ≤ endIndex children := by
  induction children with
  | nil => simp at hc
  | cons d rest ih =>
    rcases List.mem_cons.1 hc with rfl | hc
    · simp [endIndex]
    · have := ih hc
      simp only [endIndex, List.foldr_cons] at this ⊢
      omega

theorem endIndex_le {children : List (Nat × Node)} {bound : Nat}
    (h : ∀ c ∈ children, c.1 < bound) : endIndex children ≤ bound := by
  induction children with
  | nil => simp [endIndex]
  | cons d rest ih =>
    have hd := h d (by simp)
    have := ih fun c hc => h c (List.mem_cons_of_mem _ hc)
    simp only [endIndex, List.foldr_cons] at this ⊢
    omega

namespace SubDiffCorrect

/-- Two objects: the document diff the loop builds from the empty node. -/
theorem object {pre post : BSONObj}
    (ih : DocLoopCorrect pre post (objsize post) (DocumentSubDiffNode.init 0) []) :
    SubDiffCorrect (.object pre) (.object post) := by
  intro c hc hpre hpost hsize hne
  rw [walkSubDiff_object] at hc
  obtain ⟨N, hN, rfl⟩ := Option.map_eq_some_iff.1 hc
  rw [valuesize_object] at hsize
  have hres := ih N hN (DocLoopState.init hpre hpost hsize 0)
  obtain ⟨U, hU, hUpre⟩ := hres.updates
  obtain ⟨S, hS, hSpre⟩ := hres.subDiffs
  -- every update is of a field the pre-image has, so none is appended
  have hupdates : N.updates.filter (fun elt => elt.1 ∉ pre.map Prod.fst) = [] := by
    rw [List.filter_eq_nil_iff]
    intro u hu
    simpa [DocumentSubDiffNode.init] using hUpre u (by simpa [hU, DocumentSubDiffNode.init] using hu)
  refine ⟨?_, rfl, .documentSubDiff N (fun hnil => ?_) hres.nodup (fun s hs => ?_) (fun s hs => ?_)⟩
  · simp only [Node.applyTo, applyToFields_eq, hupdates, List.append_nil, hres.fields]
  · exact hne (congrArg BSONValue.object (hres.eq_of_names_nil hnil))
  · exact (hSpre s (by simpa [hS, DocumentSubDiffNode.init] using hs)).2.1
  · exact (hSpre s (by simpa [hS, DocumentSubDiffNode.init] using hs)).2.2

/-- Two arrays: the array diff the loop builds from index 0. -/
theorem array {pre post : List BSONValue}
    (ih : ArrayLoopCorrect pre post (arrayObjsize post) 0 ArrayNode.init) :
    SubDiffCorrect (.array pre) (.array post) := by
  intro c hc hpre hpost hsize _
  rw [walkSubDiff_array] at hc
  obtain ⟨N, hN, rfl⟩ := Option.map_eq_some_iff.1 hc
  rw [valuesize_array] at hsize
  obtain ⟨C, hC, hres, hspec⟩ := ih N hN (ArrayLoopState.init hpre hpost hsize)
  simp only [ArrayNode.init, List.nil_append] at hC
  -- the array the diff makes is as long as the post-image
  have hlength : N.resize.getD (max pre.length (endIndex N.children)) = post.length := by
    rw [hres, hC]
    split
    · simp
    · have hle := endIndex_le fun c hc => by simpa using (hspec.range c hc).2
      by_cases hlt : pre.length < post.length
      · obtain ⟨c, hc, hlast⟩ := List.mem_map.1 (hspec.last hlt)
        have := le_endIndex hc
        simp only [Option.getD_none]
        omega
      · simp only [Option.getD_none]
        omega
  refine ⟨?_, rfl, .array N (by rw [hC]; exact hspec.sorted) (fun c hc => ?_) (fun size hs => ?_)
    (fun c hc => hspec.wf c (hC ▸ hc))⟩
  · simp only [Node.applyTo, applyToElems_eq, hlength]
    congr 1
    refine List.ext_getElem (by simp) fun j hj _ => ?_
    simp only [List.getElem_map, List.getElem_range, hC]
    simpa using hspec.elems j (by simpa using hj)
  · have := (hspec.range c (hC ▸ hc)).2
    have := length_lt_arrayObjsize post
    omega
  · rw [hres] at hs
    split at hs
    · cases hs
      refine ⟨by have := length_lt_arrayObjsize post; omega, fun c hc => ?_⟩
      simpa using (hspec.range c (hC ▸ hc)).2
    · cases hs

end SubDiffCorrect

/-! ## The calculator against the meaning -/

/-- `walkSubDiffHelper` adds the whole new value, or the sub-diff it was given. -/
theorem walkSubDiffHelper_cases {N K : Type} (appendChild : N → K → Node → N)
    (subDiff : Option Node) (postVal : BSONValue) (fieldIdentifier : K) (diffNode : N) :
    walkSubDiffHelper appendChild subDiff postVal fieldIdentifier diffNode =
        appendChild diffNode fieldIdentifier (.update postVal) ∨
      ∃ c, subDiff = some c ∧ walkSubDiffHelper appendChild subDiff postVal fieldIdentifier
        diffNode = appendChild diffNode fieldIdentifier c := by
  cases subDiff <;> simp [walkSubDiffHelper]

/-- The walk's sub-diffs are document and array nodes. -/
theorem isInternal_of_walkSubDiff {pre post : BSONValue} {c : Node}
    (h : walkSubDiff pre post = some c) : c.isInternal = true := by
  cases pre <;> cases post <;> simp only [walkSubDiff, Option.map_eq_some_iff, reduceCtorEq] at h
  all_goals
    obtain ⟨N, -, rfl⟩ := h
    rfl

/-- Every part of the walk is right: a sub-diff, and the loops of the document and the array
diffs from any state of their walks. By the calculator's own mutual induction, one lemma per
case. -/
theorem calculator_correct :
    (∀ pre post, SubDiffCorrect pre post) ∧
      (∀ pre post postObjSize idx n, ArrayLoopCorrect pre post postObjSize idx n) ∧
      (∀ pre post postObjSize n deletes, DocLoopCorrect pre post postObjSize n deletes) := by
  refine walkSubDiff.mutual_induct SubDiffCorrect ArrayLoopCorrect DocLoopCorrect
    (fun _ _ ih => SubDiffCorrect.object ih) (fun _ _ ih => SubDiffCorrect.array ih) ?other
    ?docBail ?docEqual ?docMatched ?docMismatch ?docEnd ?arrBail ?arrStep ?arrEnd
  case other =>
    intro pre post hobj harr c hc
    unfold walkSubDiff at hc
    split at hc
    · exact absurd rfl (hobj _ _ rfl)
    · exact absurd rfl (harr _ _ rfl)
    · cases hc
  case docBail =>
    intro postObjSize n deletes fieldName preVal pre postName postVal post hsize N hN
    simp [walkDocDiffLoop, hsize] at hN
  case docEqual =>
    intro postObjSize n deletes fieldName preVal pre postName postVal post hsize hsame ih
    simp only [Bool.and_eq_true, beq_iff_eq, binaryEqual_iff] at hsame
    obtain ⟨rfl, rfl⟩ := hsame
    have hself : preVal.binaryEqual preVal = true := binaryEqual_iff.2 rfl
    exact DocLoopCorrect.equal ih (by simp [walkDocDiffLoop, hsize, hself])
  case docMatched =>
    intro postObjSize n deletes fieldName preVal pre postName postVal post hsize hsame hname n'
      ihSub ih
    simp only [beq_iff_eq] at hname
    subst hname
    have hne : preVal ≠ postVal := fun h => hsame (by simp [h, binaryEqual_iff])
    refine DocLoopCorrect.matched hne ?_ ihSub ih (by simp [walkDocDiffLoop, hsize, hne,
      binaryEqual_iff, n'])
    simp only [n']
    split
    · exact walkSubDiffHelper_cases _ _ _ _ _
    · exact walkSubDiffHelper_cases _ _ _ _ _
    · exact .inl rfl
  case docMismatch =>
    intro postObjSize n deletes fieldName preVal pre postName postVal post hsize _ hname ih
    simp only [beq_iff_eq] at hname
    exact DocLoopCorrect.mismatch ih (by simp [walkDocDiffLoop, hsize, hname])
  case docEnd =>
    intro postObjSize n deletes pre post hnot
    exact DocLoopCorrect.finish (docEnd_nil_or_nil hnot) (walkDocDiffLoop_end hnot)
  case arrBail =>
    intro postObjSize idx n preVal pre postVal post hsize N hN
    simp [walkArrayDiffLoop, hsize] at hN
  case arrStep =>
    intro postObjSize idx n preVal pre postVal post hsize n' ihSub ih
    refine ArrayLoopCorrect.step ?_ ihSub ih (by simp [walkArrayDiffLoop, hsize, n'])
    by_cases hsame : preVal.binaryEqual postVal = true
    · exact .inl ⟨binaryEqual_iff.1 hsame, by simp only [n', hsame, if_true]⟩
    · refine .inr ⟨fun h => hsame (binaryEqual_iff.2 h), ?_⟩
      simp only [n', hsame, Bool.false_eq_true, if_false]
      split
      · exact walkSubDiffHelper_cases _ _ _ _ _
      · exact walkSubDiffHelper_cases _ _ _ _ _
      · exact .inl rfl
  case arrEnd =>
    intro postObjSize idx n pre post hnot
    exact ArrayLoopCorrect.finish (arrayEnd_nil_or_nil hnot) (walkArrayDiffLoop_end hnot)

/-- `walkDocDiff` of a list with itself, when it returns, adds nothing to its node. -/
theorem walkDocDiffLoop_self {postObjSize : Nat} {n N : DocumentSubDiffNode Node}
    (fields : BSONObj) (h : walkDocDiffLoop fields fields postObjSize n [] = some N) :
    N.names = n.names := by
  induction fields with
  | nil =>
    rw [walkDocDiffLoop] at h
    · obtain ⟨t, rfl⟩ := walkDocDiffEnd_eq List.nodup_nil h
      simp [DocumentSubDiffNode.names]
    · simp
  | cons field rest ih =>
    obtain ⟨name, value⟩ := field
    have hself : value.binaryEqual value = true := binaryEqual_iff.2 rfl
    simp only [walkDocDiffLoop, beq_self_eq_true, hself, Bool.and_self, if_true] at h
    split at h
    · cases h
    · exact ih h

/-- What `walkDocDiff` returns for a document with unique names and a valid one: a node that
takes the first to the second, names each field once, has well-formed sub-diffs, and has no
entry exactly when the two are equal. -/
theorem walkDocDiff_spec {pre post : BSONObj} {padding : Nat} {N : DocumentSubDiffNode Node}
    (hpre : (BSONValue.object pre).hasUniqueNames = true) (hpost : ValidDocument post)
    (h : walkDocDiff pre post padding = some N) :
    N.applyToFields pre = post ∧ N.names.Nodup ∧
      (∀ s ∈ N.subDiffs, s.2.isInternal = true ∧ s.2.WF (2 ^ 31)) ∧ (N.names = [] ↔ pre = post) := by
  have hinit : (DocumentSubDiffNode.init padding : DocumentSubDiffNode Node).names = [] := by
    simp [DocumentSubDiffNode.names, DocumentSubDiffNode.init]
  have hres := calculator_correct.2.2 pre post (objsize post) (DocumentSubDiffNode.init padding) []
    N h (DocLoopState.init hpre hpost.uniqueNames hpost.objsize_lt padding)
  obtain ⟨U, hU, hUpre⟩ := hres.updates
  obtain ⟨S, hS, hSpre⟩ := hres.subDiffs
  have hupdates : N.updates.filter (fun elt => elt.1 ∉ pre.map Prod.fst) = [] := by
    rw [List.filter_eq_nil_iff]
    intro u hu
    simpa [DocumentSubDiffNode.init] using hUpre u (by simpa [hU, DocumentSubDiffNode.init] using hu)
  refine ⟨by rw [applyToFields_eq, hupdates, List.append_nil, hres.fields], hres.nodup,
    fun s hs => (hSpre s (by simpa [hS, DocumentSubDiffNode.init] using hs)).2,
    ⟨hres.eq_of_names_nil, ?_⟩⟩
  rintro rfl
  rw [walkDocDiffLoop_self pre h, hinit]

end mongo.diff_tree
