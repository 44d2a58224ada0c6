-- The children map of the diff tree never trips its `invariant` on the documents the round trip
-- is about: a pre-image with unique field names in every sub-document and a valid post-image.
-- From every state of the walk's invariant, each name and each index the calculator adds is new
-- to its node, so every `addChild` goes through and the calculator returns what the walk
-- returns. A repeated field name in the pre-image can trip it.
import Mathlib
import PerconaMongo.Update.DiffSize

namespace mongo.diff_tree

open BSONValue doc_diff except_fold

namespace DocumentSubDiffNode

theorem mem_names_appendChild {n : DocumentSubDiffNode Node} {fieldName x : String}
    {node : Node} : x ∈ (n.appendChild fieldName node).names ↔ x = fieldName ∨ x ∈ n.names := by
  cases node <;> simp [names, appendChild] <;> tauto

/-- The names of a node with more deletes: its own and theirs. -/
theorem mem_names_moreDeletes {n : DocumentSubDiffNode Node} {ds : List String} {t : Nat}
    {x : String} : x ∈ names ⟨n.deletes ++ ds, n.updates, n.inserts, n.subDiffs, t⟩ ↔
      x ∈ n.names ∨ x ∈ ds := by
  simp only [names, List.mem_append]
  tauto

/-- The names of a node with more deletes and inserts: its own and theirs. -/
theorem mem_names_moreDeletesInserts {n : DocumentSubDiffNode Node} {ds : List String}
    {ins : BSONObj} {t : Nat} {x : String} :
    x ∈ names ⟨n.deletes ++ ds, n.updates, n.inserts ++ ins, n.subDiffs, t⟩ ↔
      x ∈ n.names ∨ x ∈ ds ∨ x ∈ ins.map Prod.fst := by
  simp only [names, List.map_append, List.mem_append]
  tauto

/-- `addChild` of a name the node has no entry for goes through. -/
theorem addChild_of_not_mem {n : DocumentSubDiffNode Node} {fieldName : String}
    (h : fieldName ∉ n.names) (node : Node) :
    n.addChild fieldName node = .ok (n.appendChild fieldName node) := by
  rw [addChild, if_neg h]

/-- Names still to add, new to the node and each once, stay new once the first is added. -/
theorem fresh_appendChild {n : DocumentSubDiffNode Node} {name : String} {rest : List String}
    (hnd : name ∉ rest) (hfr : ∀ x ∈ name :: rest, x ∉ n.names) (node : Node) :
    ∀ x ∈ rest, x ∉ (n.appendChild name node).names := by
  intro x hx hmem
  rcases mem_names_appendChild.1 hmem with rfl | hmem
  · exact hnd hx
  · exact hfr x (List.mem_cons_of_mem _ hx) hmem

/-- Deleting names the node has no entry for, each once, goes through. -/
theorem foldlM_addDelete_eq_ok {l : List String} {n : DocumentSubDiffNode Node} (hnodup : l.Nodup)
    (hfresh : ∀ x ∈ l, x ∉ n.names) :
    l.foldlM (fun n deleteField => n.addDelete deleteField) n =
      .ok (l.foldl (fun n deleteField => n.appendDelete deleteField) n) := by
  refine foldlM_eq_ok (fun n rest => rest.Nodup ∧ ∀ x ∈ rest, x ∉ n.names) ?_ l n ⟨hnodup, hfresh⟩
  rintro n name rest ⟨hnd, hfr⟩
  rw [List.nodup_cons] at hnd
  exact ⟨addChild_of_not_mem (hfr name (List.mem_cons_self ..)) _, hnd.2,
    fresh_appendChild hnd.1 hfr _⟩

/-- Inserting fields whose names the node has no entry for, each once, goes through. -/
theorem foldlM_addInsert_eq_ok {l : BSONObj} {n : DocumentSubDiffNode Node}
    (hnodup : (l.map Prod.fst).Nodup) (hfresh : ∀ x ∈ l.map Prod.fst, x ∉ n.names)
    (deletes : List String) :
    l.foldlM (fun (nd : DocumentSubDiffNode Node × List String) elt =>
        (fun n => (n, nd.2.erase elt.1)) <$> nd.1.addInsert elt.1 elt.2) (n, deletes) =
      .ok (l.foldl (fun (nd : DocumentSubDiffNode Node × List String) elt =>
        (nd.1.appendInsert elt.1 elt.2, nd.2.erase elt.1)) (n, deletes)) := by
  refine foldlM_eq_ok (fun nd rest => (rest.map Prod.fst).Nodup ∧
    ∀ x ∈ rest.map Prod.fst, x ∉ nd.1.names) ?_ l (n, deletes) ⟨hnodup, hfresh⟩
  rintro ⟨n, deletes⟩ ⟨name, value⟩ rest ⟨hnd, hfr⟩
  rw [List.map_cons, List.nodup_cons] at hnd
  exact ⟨map_eq_ok _ (addChild_of_not_mem (hfr name (List.mem_cons_self ..)) _), hnd.2,
    fresh_appendChild hnd.1 hfr _⟩

end DocumentSubDiffNode

namespace ArrayNode

/-- `addChild` at an index the node has no child at goes through. -/
theorem addChild_of_not_mem {n : ArrayNode Node} {idx : Nat} (h : idx ∉ n.children.map Prod.fst)
    (node : Node) : n.addChild idx node = .ok (n.appendChild idx node) := by
  rw [addChild, if_neg h]

/-- Children all below `idx` leave `idx` free. -/
theorem not_mem_of_below {n : ArrayNode Node} {idx : Nat} (hbelow : ∀ c ∈ n.children, c.1 < idx) :
    idx ∉ n.children.map Prod.fst := fun hmem => by
  obtain ⟨c, hc, rfl⟩ := List.mem_map.1 hmem
  exact lt_irrefl _ (hbelow c hc)

/-- What the array loop passes on after index `idx`: the resize as it was, and children below
`idx + 1`. -/
theorem appendChild_below {n : ArrayNode Node} {idx : Nat} (hbelow : ∀ c ∈ n.children, c.1 < idx)
    (node : Node) : (n.appendChild idx node).resize = n.resize ∧
      ∀ c ∈ (n.appendChild idx node).children, c.1 < idx + 1 := by
  refine ⟨rfl, fun c hc => ?_⟩
  rcases List.mem_append.1 hc with hc | hc
  · exact Nat.lt_succ_of_lt (hbelow c hc)
  · rw [List.mem_singleton.1 hc]
    exact Nat.lt_succ_self idx

/-- Updating the elements of a list at the indexes from `idx` on, with every child below `idx`,
goes through. -/
theorem foldlM_addUpdate_eq_ok (l : List BSONValue) {n : ArrayNode Node} {idx : Nat}
    (hbelow : ∀ c ∈ n.children, c.1 < idx) :
    l.foldlM (fun (ni : ArrayNode Node × Nat) postVal =>
        (fun n => (n, ni.2 + 1)) <$> ni.1.addUpdate ni.2 postVal) (n, idx) =
      .ok (l.foldl (fun (ni : ArrayNode Node × Nat) postVal =>
        (ni.1.appendUpdate ni.2 postVal, ni.2 + 1)) (n, idx)) := by
  refine foldlM_eq_ok (fun ni _ => ∀ c ∈ ni.1.children, c.1 < ni.2) ?_ l (n, idx) hbelow
  rintro ⟨n, i⟩ value rest hlt
  exact ⟨map_eq_ok _ (addChild_of_not_mem (not_mem_of_below hlt) _), (appendChild_below hlt _).2⟩

end ArrayNode

end mongo.diff_tree

namespace mongo.doc_diff

open diff_tree BSONValue except_fold

/-- `calculateSubDiffHelper` goes through where its `addChild` does. -/
theorem calculateSubDiffHelper_eq_ok {N K : Type} {addChild : N → K → Node → Except DiffTreeError N}
    {appendChild : N → K → Node → N} {diffNode : N} {fieldIdentifier : K}
    (hadd : ∀ c, addChild diffNode fieldIdentifier c = .ok (appendChild diffNode fieldIdentifier c))
    (subDiff : Option Node) (postVal : BSONValue) :
    calculateSubDiffHelper addChild subDiff postVal fieldIdentifier diffNode =
      .ok (walkSubDiffHelper appendChild subDiff postVal fieldIdentifier diffNode) := by
  cases subDiff <;> exact hadd _

/-- The entry the walk gives a field of both documents: an update, or a sub-diff. -/
theorem walkSubDiffHelper_doc_cases (preVal postVal : BSONValue) (fieldName : String)
    (n : DocumentSubDiffNode Node) :
    walkSubDiffHelper DocumentSubDiffNode.appendChild (walkSubDiff preVal postVal) postVal fieldName
        n = n.appendUpdate fieldName postVal ∨
      ∃ c : Node, c.isInternal = true ∧ walkSubDiffHelper DocumentSubDiffNode.appendChild
        (walkSubDiff preVal postVal) postVal fieldName n = n.appendChild fieldName c := by
  rcases walkSubDiffHelper_cases DocumentSubDiffNode.appendChild (walkSubDiff preVal postVal) postVal
    fieldName n with h | ⟨c, hc, h⟩
  · exact .inl h
  · exact .inr ⟨c, isInternal_of_walkSubDiff hc, h⟩

/-- The array loop's node after a sub-diff at `idx`: no new resize, children below `idx + 1`. -/
theorem walkSubDiffHelper_array_below {n : ArrayNode Node} {idx : Nat}
    (hbelow : ∀ c ∈ n.children, c.1 < idx) (subDiff : Option Node) (postVal : BSONValue) :
    (walkSubDiffHelper ArrayNode.appendChild subDiff postVal idx n).resize = n.resize ∧
      ∀ c ∈ (walkSubDiffHelper ArrayNode.appendChild subDiff postVal idx n).children,
        c.1 < idx + 1 := by
  cases subDiff <;> exact ArrayNode.appendChild_below hbelow _

/-- The end of the document loop goes through from a state of the walk: the rest of one
document is new to the node, and so are the pending deletes that are not inserted after all. -/
theorem computeDocDiffEnd_eq_ok {pre post : BSONObj} {postObjSize : Nat}
    {n : DocumentSubDiffNode Node} {deletes : List String} (h : DocLoopState pre post n deletes)
    (hend : pre = [] ∨ post = []) :
    computeDocDiffEnd pre post postObjSize n deletes =
      .ok (walkDocDiffEnd pre post postObjSize n deletes) := by
  refine eq_ok_of_agrees (agrees_computeDocDiffEnd pre post postObjSize n deletes) ?_
  -- the deletes of the rest of the pre-image
  obtain ⟨t₁, h₁⟩ := DocumentSubDiffNode.foldl_appendDelete Prod.fst pre n
  have e₁ := DocumentSubDiffNode.foldlM_addDelete_eq_ok h.preNodup
    (fun x hx hn => (h.nodeFresh x hn).1 hx)
  simp only [List.foldlM_map, List.foldl_map] at e₁
  rw [h₁] at e₁
  -- the inserts of the rest of the post-image, which is empty if the pre-image's rest is not
  have hfresh₂ : ∀ x ∈ post.map Prod.fst, x ∉ DocumentSubDiffNode.names
      ⟨n.deletes ++ pre.map Prod.fst, n.updates, n.inserts, n.subDiffs, t₁⟩ := by
    intro x hx hmem
    rcases DocumentSubDiffNode.mem_names_moreDeletes.1 hmem with hn | hp
    · exact (h.nodeFresh x hn).2 hx
    · rcases hend with rfl | rfl
      · simp at hp
      · simp at hx
  obtain ⟨t₂, h₂⟩ := DocumentSubDiffNode.foldl_appendInsert post
    ⟨n.deletes ++ pre.map Prod.fst, n.updates, n.inserts, n.subDiffs, t₁⟩ deletes
  dsimp only at h₂
  have e₂ := DocumentSubDiffNode.foldlM_addInsert_eq_ok h.postNodup hfresh₂ deletes
  rw [h₂, foldl_erase_eq_filter h.pendingNodup] at e₂
  -- the pending deletes that no insert took back
  have e₃ := DocumentSubDiffNode.foldlM_addDelete_eq_ok
    (n := ⟨n.deletes ++ pre.map Prod.fst, n.updates, n.inserts ++ post, n.subDiffs, t₂⟩)
    (h.pendingNodup.filter fun name => decide (name ∉ post.map Prod.fst)) (fun x hx hmem => by
      obtain ⟨hdel, hpost⟩ := List.mem_filter.1 hx
      obtain ⟨hpre, hnode⟩ := h.pendingFresh x hdel
      rcases DocumentSubDiffNode.mem_names_moreDeletesInserts.1 hmem with hn | hp | hq
      · exact hnode hn
      · exact hpre hp
      · exact (by simpa using hpost : x ∉ post.map Prod.fst) hq)
  unfold computeDocDiffEnd
  simp only [e₁, ok_bind, e₂, e₃]
  exact ⟨_, rfl⟩

/-- The end of the array loop goes through with every child below the index it starts at. -/
theorem computeArrayDiffEnd_eq_ok {pre post : List BSONValue} {postObjSize idx : Nat}
    {n : ArrayNode Node} (hbelow : ∀ c ∈ n.children, c.1 < idx) :
    computeArrayDiffEnd pre post postObjSize idx n =
      .ok (walkArrayDiffEnd pre post postObjSize idx n) := by
  refine eq_ok_of_agrees (agrees_computeArrayDiffEnd pre post postObjSize idx n) ?_
  unfold computeArrayDiffEnd
  rw [ArrayNode.foldlM_addUpdate_eq_ok post hbelow, ok_bind]
  exact ⟨_, rfl⟩

/-- From every state of the walk's invariant, every `addChild` of the calculator goes through,
sub-diffs and both loops, so the calculator returns what the walk returns. The array loop needs
one more fact, that every child is below the index. By the walk's mutual induction, as
`calculator_agrees`. -/
theorem calculator_eq_ok :
    (∀ pre post, pre.hasUniqueNames = true → post.hasUniqueNames = true →
      post.valuesize < 2 ^ 31 → computeSubDiff pre post = .ok (walkSubDiff pre post)) ∧
      (∀ pre post postObjSize idx n, ArrayLoopState pre post idx n →
        (∀ c ∈ n.children, c.1 < idx) → computeArrayDiffLoop pre post postObjSize idx n =
          .ok (walkArrayDiffLoop pre post postObjSize idx n)) ∧
      (∀ pre post postObjSize n deletes, DocLoopState pre post n deletes →
        computeDocDiffLoop pre post postObjSize n deletes =
          .ok (walkDocDiffLoop pre post postObjSize n deletes)) := by
  refine walkSubDiff.mutual_induct
    (fun pre post => pre.hasUniqueNames = true → post.hasUniqueNames = true →
      post.valuesize < 2 ^ 31 → computeSubDiff pre post = .ok (walkSubDiff pre post))
    (fun pre post postObjSize idx n => ArrayLoopState pre post idx n →
      (∀ c ∈ n.children, c.1 < idx) → computeArrayDiffLoop pre post postObjSize idx n =
        .ok (walkArrayDiffLoop pre post postObjSize idx n))
    (fun pre post postObjSize n deletes => DocLoopState pre post n deletes →
      computeDocDiffLoop pre post postObjSize n deletes =
        .ok (walkDocDiffLoop pre post postObjSize n deletes))
    ?object ?array ?other ?docBail ?docEqual ?docMatched ?docMismatch ?docEnd ?arrBail ?arrStep
    ?arrEnd
  case object =>
    intro pre post ih hpre hpost hsize
    rw [valuesize_object] at hsize
    exact map_eq_ok _ (ih (DocLoopState.init hpre hpost hsize 0))
  case array =>
    intro pre post ih hpre hpost hsize
    rw [valuesize_array] at hsize
    exact map_eq_ok _ (ih (ArrayLoopState.init hpre hpost hsize) (by simp [ArrayNode.init]))
  case other =>
    intro pre post hobj harr _ _ _
    cases pre <;> cases post
    case object.object => exact absurd rfl (hobj _ _ rfl)
    case array.array => exact absurd rfl (harr _ _ rfl)
    all_goals rfl
  case docBail =>
    intro postObjSize n deletes fieldName preVal pre postName postVal post hsize _
    simp only [computeDocDiffLoop, walkDocDiffLoop, hsize, if_true]
    rfl
  case docEqual =>
    intro postObjSize n deletes fieldName preVal pre postName postVal post hsize hsame ih hstate
    simp only [computeDocDiffLoop, walkDocDiffLoop, if_neg hsize, if_pos hsame]
    simp only [Bool.and_eq_true, beq_iff_eq] at hsame
    obtain ⟨rfl, -⟩ := hsame
    exact ih (hstate.tail n hstate.noDeletes hstate.noInserts (fun _ => .inr) hstate.nodeNodup)
  case docMatched =>
    intro postObjSize n deletes fieldName preVal pre postName postVal post hsize hsame hname n'
      ihSub ih hstate
    simp only [computeDocDiffLoop, walkDocDiffLoop, if_neg hsize, if_neg hsame, if_pos hname]
    simp only [beq_iff_eq] at hname
    subst hname
    have hfresh : fieldName ∉ n.names := fun hx => (hstate.nodeFresh fieldName hx).1 (by simp)
    have hpreVal := hstate.preValues (fieldName, preVal) (by simp)
    have hpostVal := hstate.postValues (fieldName, postVal) (by simp)
    cases preVal <;> cases postVal
    all_goals first
      | exact bind_eq_ok (ihSub hpreVal hpostVal.1 hpostVal.2)
          (bind_eq_ok (calculateSubDiffHelper_eq_ok
            (DocumentSubDiffNode.addChild_of_not_mem hfresh) _ _)
          (ih (hstate.matched (walkSubDiffHelper_doc_cases _ _ fieldName n))))
      | exact bind_eq_ok (DocumentSubDiffNode.addChild_of_not_mem hfresh _)
          (ih (hstate.matched (.inl rfl)))
  case docMismatch =>
    intro postObjSize n deletes fieldName preVal pre postName postVal post hsize _ hname ih hstate
    simp only [computeDocDiffLoop, walkDocDiffLoop, hsize, hname, if_false]
    exact ih hstate.mismatch
  case docEnd =>
    intro postObjSize n deletes pre post hnot hstate
    rw [computeDocDiffLoop_end hnot, walkDocDiffLoop_end hnot]
    exact computeDocDiffEnd_eq_ok hstate (docEnd_nil_or_nil hnot)
  case arrBail =>
    intro postObjSize idx n preVal pre postVal post hsize _ _
    simp only [computeArrayDiffLoop, walkArrayDiffLoop, hsize, if_true]
    rfl
  case arrStep =>
    intro postObjSize idx n preVal pre postVal post hsize n' ihSub ih hstate hbelow
    simp only [computeArrayDiffLoop, walkArrayDiffLoop, if_neg hsize]
    simp only [n'] at ih
    have hfresh := ArrayNode.not_mem_of_below hbelow
    have hpreVal := hstate.preValues preVal (by simp)
    have hpostVal := hstate.postValues postVal (by simp)
    by_cases hsame : preVal.binaryEqual postVal = true
    · simp only [hsame, if_true] at ih ⊢
      exact bind_eq_ok rfl (ih (hstate.tail rfl) fun c hc => Nat.lt_succ_of_lt (hbelow c hc))
    · simp only [hsame, Bool.false_eq_true, if_false] at ih ⊢
      cases preVal <;> cases postVal
      all_goals first
        | exact bind_eq_ok (ihSub hpreVal hpostVal.1 hpostVal.2)
            (bind_eq_ok (calculateSubDiffHelper_eq_ok (ArrayNode.addChild_of_not_mem hfresh) _ _)
            (ih (hstate.tail (walkSubDiffHelper_array_below hbelow _ _).1)
              (walkSubDiffHelper_array_below hbelow _ _).2))
        | exact bind_eq_ok (ArrayNode.addChild_of_not_mem hfresh _)
            (ih (hstate.tail (ArrayNode.appendChild_below hbelow _).1)
              (ArrayNode.appendChild_below hbelow _).2)
  case arrEnd =>
    intro postObjSize idx n pre post hnot _ hbelow
    rw [computeArrayDiffLoop_end hnot, walkArrayDiffLoop_end hnot]
    exact computeArrayDiffEnd_eq_ok hbelow

/-- `computeDocDiff` of a document with unique names and a valid one returns what the walk
returns. -/
theorem computeDocDiff_eq_ok {pre post : BSONObj}
    (hpre : (BSONValue.object pre).hasUniqueNames = true) (hpost : ValidDocument post)
    (padding : Nat) : computeDocDiff pre post padding = .ok (walkDocDiff pre post padding) :=
  calculator_eq_ok.2.2 pre post _ _ []
    (DocLoopState.init hpre hpost.uniqueNames hpost.objsize_lt padding)

/-- `doc_diff::computeDiff` never trips the `invariant` of `addChild` on a pre-image with unique
field names in every sub-document and a valid post-image: it returns, a diff or none. -/
theorem computeDiff_ok_of_unique_names {pre post : BSONObj}
    (hpre : (BSONValue.object pre).hasUniqueNames = true) (hpost : ValidDocument post)
    (padding : Nat) : ∃ r, computeDiff pre post padding = .ok r := by
  unfold computeDiff
  rw [computeDocDiff_eq_ok hpre hpost padding, ok_bind]
  cases walkDocDiff pre post padding <;> exact ⟨_, rfl⟩

theorem computeDiff_ok_of_unique_names_sample :
    (BSONValue.object samplePre).hasUniqueNames = true ∧ ValidDocument samplePost ∧
      ∃ r, computeDiff samplePre samplePost 0 = .ok r :=
  have hpre : (BSONValue.object samplePre).hasUniqueNames = true := by decide
  have hpost : ValidDocument samplePost := by decide
  ⟨hpre, hpost, computeDiff_ok_of_unique_names hpre hpost 0⟩

-- A repeated name in the pre-image: `a` is updated, and then its second field deleted.
example : computeDiff [("a", int32 1), ("a", int32 2)] [("a", int32 3)] 0 =
    .error .invariantFailure := rfl

end mongo.doc_diff
