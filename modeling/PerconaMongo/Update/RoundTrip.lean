-- The `$v: 2` diff read back: `writeDiff` of a well formed diff tree, read by the readers of
-- document_diff_serialization and applied by document_diff_applier, does to a pre-image what
-- the tree means (`Node.applyTo`). With the calculator's correctness, a diff that
-- `computeDiff` returns, applied with existence checks to the pre-image, gives the post-image;
-- when the two documents are equal the diff is empty and the applier refuses it. Without the
-- existence checks, the applier writes a level that only inserts by appending to the pre-image;
-- it still gives the same result wherever the diff inserts no field the pre-image has.
import Mathlib
import PerconaMongo.Update.DiffApplier
import PerconaMongo.Update.DiffSize
import PerconaMongo.Lib.KeyedList

namespace mongo.diff_tree

open BSONValue

/-! ## The guarantee of a caller that skips the existence checks -/

mutual

/-- What a caller of `applyDiff` guarantees when it turns off
`mustCheckExistenceForInsertOperations`: wherever the diff only inserts into an object of the
value, none of the inserted fields is already there. -/
def Node.insertsFresh : Node → BSONValue → Bool
  | .documentSubDiff n, .object fields =>
    (!(n.deletes.isEmpty && n.updates.isEmpty && n.subDiffs.isEmpty) ||
      n.inserts.all fun e => !(fields.map Prod.fst).contains e.1) &&
    fieldsInsertFresh n.subDiffs fields
  | .array n, .array elems => elemsInsertFresh n.children elems 0
  | _, _ => true

/-- The guarantee for the sub-diff of each field, on the field's value. -/
def fieldsInsertFresh (subDiffs : List (String × Node)) : BSONObj → Bool
  | [] => true
  | (name, value) :: rest =>
    (subDiffs.all fun s => s.1 != name || s.2.insertsFresh value) &&
      fieldsInsertFresh subDiffs rest

/-- The guarantee for the child at each index, on the element there. -/
def elemsInsertFresh (children : List (Nat × Node)) : List BSONValue → Nat → Bool
  | [], _ => true
  | value :: rest, i =>
    (children.all fun c => c.1 != i || c.2.insertsFresh value) &&
      elemsInsertFresh children rest (i + 1)

end

@[simp] theorem insertsFresh_null (c : Node) : c.insertsFresh .null = true := by
  cases c <;> rfl

theorem fieldsInsertFresh_mem {subDiffs : List (String × Node)} :
    ∀ {fields : BSONObj}, fieldsInsertFresh subDiffs fields = true →
      ∀ s ∈ subDiffs, ∀ value, (s.1, value) ∈ fields → s.2.insertsFresh value = true
  | [], _, _, _, _, hv => by cases hv
  | (name, v) :: rest, h, s, hs, value, hv => by
    simp only [fieldsInsertFresh, Bool.and_eq_true, List.all_eq_true, Bool.or_eq_true,
      bne_iff_ne] at h
    rcases List.mem_cons.1 hv with hv | hv
    · obtain ⟨rfl, rfl⟩ := Prod.mk.inj hv
      exact (h.1 s hs).resolve_left (not_not.2 rfl)
    · exact fieldsInsertFresh_mem h.2 s hs value hv

/-- The guarantee on the elements from index `i` on holds for each child at or past `i`, on its
element (null past the end, where the applier applies nothing). -/
theorem elemsInsertFresh_getD {children : List (Nat × Node)} :
    ∀ {elems : List BSONValue} {i : Nat}, elemsInsertFresh children elems i = true →
      ∀ c ∈ children, i ≤ c.1 → c.2.insertsFresh (elems.getD (c.1 - i) .null) = true
  | [], _, _, c, _, _ => by simp
  | value :: rest, i, h, c, hc, hi => by
    simp only [elemsInsertFresh, Bool.and_eq_true, List.all_eq_true, Bool.or_eq_true,
      bne_iff_ne] at h
    by_cases hci : c.1 = i
    · rw [hci, Nat.sub_self, List.getD_cons_zero]
      exact (h.1 c hc).resolve_left (not_not.2 hci)
    · rw [show c.1 - i = (c.1 - (i + 1)) + 1 by omega, List.getD_cons_succ]
      exact elemsInsertFresh_getD h.2 c hc (by omega)

end mongo.diff_tree

namespace mongo.doc_diff

open diff_tree BSONValue assoc_list

/-! ## Reading an index back -/

theorem toString_ne_empty (idx : Nat) : toString idx ≠ "" := by
  intro h
  have hl := congrArg String.toList h
  rw [Nat.toString_eq_ofList_toDigits, String.toList_ofList] at hl
  exact Nat.toDigits_ne_nil hl

/-- The digits of an index that fits an `unsigned int` read back as the index. -/
theorem parseUnsignedBase10Integer_toString {idx : Nat} (h : idx < 2 ^ 32) :
    parseUnsignedBase10Integer (toString idx) = some idx := by
  have hdigits : (toString idx).toList = Nat.toDigits 10 idx := by
    rw [Nat.toString_eq_ofList_toDigits, String.toList_ofList]
  have hall : (Nat.toDigits 10 idx).all Char.isDigit = true :=
    List.all_eq_true.2 fun c hc => Nat.isDigit_of_mem_toDigits (by decide) (by decide) hc
  unfold parseUnsignedBase10Integer
  rw [hdigits]
  split
  · exact absurd ‹_› Nat.toDigits_ne_nil
  · rw [if_pos hall, Nat.ofDigitChars_toDigits (by decide) (by decide), if_pos h]

theorem extractArrayIndex_toString {idx : Nat} (h : idx < 2 ^ 32) :
    extractArrayIndex (toString idx) = .ok idx := by
  rw [extractArrayIndex, parseUnsignedBase10Integer_toString h]
  rfl

/-- The field name of an array entry: its letter, then its index. -/
theorem entryName {letter : String} {c : Char} (hletter : letter.toList = [c]) (idx : Nat) :
    ¬ (letter ++ toString idx).utf8ByteSize ≤ 1 ∧
      (letter ++ toString idx).toList = c :: (toString idx).toList := by
  have hne : letter.utf8ByteSize ≠ 0 := fun hz => by
    rw [String.utf8ByteSize_eq_zero_iff] at hz
    simp [hz] at hletter
  have hidx : (toString idx).utf8ByteSize ≠ 0 :=
    fun hz => toString_ne_empty idx (String.utf8ByteSize_eq_zero_iff.1 hz)
  refine ⟨by rw [String.utf8ByteSize_append]; omega, ?_⟩
  rw [String.toList_append, hletter, List.singleton_append]

/-! ## Reading a document diff -/

namespace DocumentDiffReader

/-- A `d`, `u` or `i` section, if it has entries, is read into its place of the reader. -/
theorem scan_wrapSection {name : String} {c : Char} {order prev : Nat} (hname : name.toList = [c])
    (hc : sectionOrder c = some order) (hs : c ≠ 's') (hprev : prev < order)
    (reader : DocumentDiffReader) (entries rest : BSONObj) :
    scan prev reader (wrapSection name entries ++ rest) =
      scan (if entries.isEmpty then prev else order)
        (if entries.isEmpty then reader else reader.setSection c entries) rest := by
  unfold wrapSection
  split
  · rw [List.nil_append]
  · simp [scan, hname, hc, hprev, hs, checkSection, embeddedObject, type, bind, Except.bind,
      pure, Except.pure]

@[simp] theorem setSection_d (reader : DocumentDiffReader) (fields : BSONObj) :
    reader.setSection 'd' fields = { reader with deletes := some fields } := rfl
@[simp] theorem setSection_u (reader : DocumentDiffReader) (fields : BSONObj) :
    reader.setSection 'u' fields = { reader with updates := some fields } := rfl
@[simp] theorem setSection_i (reader : DocumentDiffReader) (fields : BSONObj) :
    reader.setSection 'i' fields = { reader with inserts := some fields } := rfl

theorem scan_serializeSubDiffs {prev : Nat} (hprev : prev < 4) (reader : DocumentDiffReader)
    (subDiffs : List (String × Node)) :
    scan prev reader (serializeSubDiffs subDiffs) =
      .ok (if subDiffs.isEmpty then reader
        else { reader with subDiffs := some (serializeSubDiffs subDiffs) }) := by
  cases subDiffs with
  | nil => rfl
  | cons sub rest =>
    simp [serializeSubDiffs, scan, sectionOrder, hprev, checkSection, type, bind, Except.bind,
      pure, Except.pure]

end DocumentDiffReader

theorem serialize_eq_nil_iff (n : DocumentSubDiffNode Node) :
    n.serialize = [] ↔ n.names = [] := by
  obtain ⟨deletes, updates, inserts, subDiffs, size⟩ := n
  cases subDiffs <;>
    simp [DocumentSubDiffNode.serialize, DocumentSubDiffNode.names, deleteSection, wrapSection,
      serializeSubDiffs]

/-- The reader of a document diff written from a node with entries: each section as the node
has it, and the sub-diffs from the first one on. -/
theorem make_serialize (n : DocumentSubDiffNode Node) (hne : n.names ≠ []) :
    ∃ reader, DocumentDiffReader.make n.serialize = .ok reader ∧
      reader.deletes.getD [] = n.deletes.map (fun f => (f, .bool false)) ∧
      reader.updates.getD [] = n.updates ∧ reader.inserts.getD [] = n.inserts ∧
      reader.subDiffs.getD [] = serializeSubDiffs n.subDiffs := by
  have hser : n.serialize.isEmpty = false := by
    rw [List.isEmpty_eq_false_iff, Ne, serialize_eq_nil_iff]
    exact hne
  obtain ⟨deletes, updates, inserts, subDiffs, size⟩ := n
  simp only [DocumentDiffReader.make, hser, Bool.false_eq_true, if_false]
  simp only [DocumentSubDiffNode.serialize, deleteSection_eq, List.append_assoc]
  rw [DocumentDiffReader.scan_wrapSection (c := 'd') rfl rfl (by decide) (by decide),
    DocumentDiffReader.scan_wrapSection (c := 'u') rfl rfl (by decide) (by split_ifs <;> decide),
    DocumentDiffReader.scan_wrapSection (c := 'i') rfl rfl (by decide) (by split_ifs <;> decide),
    DocumentDiffReader.scan_serializeSubDiffs (by split_ifs <;> decide)]
  refine ⟨_, rfl, ?_, ?_, ?_, ?_⟩ <;>
    split_ifs <;> simp_all [DocumentDiffReader.empty, serializeSubDiffs]

/-! ## The tables of a document diff -/

/-- What the applier may assume of a value it applies a node to: nothing with existence
checks, and the caller's guarantee without them. -/
def Admits (mustCheck : Bool) (c : Node) (value : BSONValue) : Prop :=
  mustCheck = true ∨ c.insertsFresh value = true

namespace Admits

variable {mustCheck : Bool}

theorem subDiff {n : DocumentSubDiffNode Node} {fields : BSONObj}
    (h : Admits mustCheck (.documentSubDiff n) (.object fields)) {s : String × Node}
    (hs : s ∈ n.subDiffs) {value : BSONValue} (hv : (s.1, value) ∈ fields) :
    Admits mustCheck s.2 value := by
  refine h.imp id fun h => ?_
  simp only [Node.insertsFresh, Bool.and_eq_true] at h
  exact fieldsInsertFresh_mem h.2 s hs value hv

theorem child {n : ArrayNode Node} {elems : List BSONValue}
    (h : Admits mustCheck (.array n) (.array elems)) {c : Nat × Node} (hc : c ∈ n.children) :
    Admits mustCheck c.2 (elems.getD c.1 .null) := by
  refine h.imp id fun h => ?_
  simpa using elemsInsertFresh_getD h c hc (Nat.zero_le _)

/-- Without the checks, a level that only inserts inserts no field the object has. -/
theorem inserts {n : DocumentSubDiffNode Node} {fields : BSONObj}
    (h : Admits false (.documentSubDiff n) (.object fields)) (hd : n.deletes = [])
    (hu : n.updates = []) (hs : n.subDiffs = []) :
    ∀ e ∈ n.inserts, e.1 ∉ fields.map Prod.fst := by
  have hfresh : (Node.documentSubDiff n).insertsFresh (.object fields) = true :=
    h.resolve_left Bool.false_ne_true
  simp only [Node.insertsFresh, hd, hu, hs, List.isEmpty_nil, Bool.and_self, Bool.not_true,
    Bool.false_or, Bool.and_eq_true, List.all_eq_true, Bool.not_eq_true', List.contains_eq_mem,
    decide_eq_false_iff_not] at hfresh
  exact hfresh.1

end Admits

/-- A sub-diff reader that does to every value what the node means, with or without the
existence checks, on every value the applier may assume it is given. -/
def ReadsAs (reader : SubDiffReader) (c : Node) : Prop :=
  ∀ mustCheck value, Admits mustCheck c value →
    applySubDiff mustCheck value reader = .ok (c.applyTo value)

/-- The tables a document node is read into: the entry of each of its field names, by its
section, none for any other name, its updates then its inserts to add at the end, and whether
it only inserts. -/
structure TablesFor (tables : DocumentDiffTables) (n : DocumentSubDiffNode Node) : Prop where
  fieldsToInsert : tables.fieldsToInsert = n.updates ++ n.inserts
  delete : ∀ f ∈ n.deletes, tables.fieldMap.lookup f = some .delete
  update : ∀ e ∈ n.updates, tables.fieldMap.lookup e.1 = some (.update e)
  insert : ∀ e ∈ n.inserts, tables.fieldMap.lookup e.1 = some (.insert e)
  subDiff : ∀ s ∈ n.subDiffs,
    ∃ reader, tables.fieldMap.lookup s.1 = some (.subDiff reader) ∧ ReadsAs reader s.2
  absent : ∀ f ∉ n.names, tables.fieldMap.lookup f = none
  insertOnly : tables.insertOnly = (n.deletes.isEmpty && n.updates.isEmpty && n.subDiffs.isEmpty)

namespace DocumentDiffTables

theorem safeInsert_of_lookup {tables : DocumentDiffTables} {fieldName : String}
    (h : tables.fieldMap.lookup fieldName = none) (mod : FieldModification) :
    tables.safeInsert fieldName mod =
      .ok { tables with fieldMap := tables.fieldMap ++ [(fieldName, mod)] } := by
  simp [safeInsert, h, pure, Except.pure]

/-- The folds of `buildObjDiffTables`: each entry of a name not yet in the tables is added at
the end of the field map, so after the fold every name of the list has the entry its step
chose and every other name keeps its entry. A step keeps the tables insert-only, or not, as
`keep` says. -/
theorem foldlM_fresh {α : Type} (step : DocumentDiffTables → α → Except DiffError DocumentDiffTables)
    (key : α → String) (extra : α → BSONObj) (R : α → FieldModification → Prop) (keep : Bool) :
    ∀ (l : List α) (tables : DocumentDiffTables),
      (∀ x ∈ l, ∀ t : DocumentDiffTables, t.fieldMap.lookup (key x) = none →
        ∃ mod, R x mod ∧ step t x =
          .ok ⟨t.fieldMap ++ [(key x, mod)], t.fieldsToInsert ++ extra x, t.insertOnly && keep⟩) →
      (l.map key).Nodup → (∀ x ∈ l, tables.fieldMap.lookup (key x) = none) →
      ∃ out, l.foldlM step tables = .ok out ∧
        out.fieldsToInsert = tables.fieldsToInsert ++ l.flatMap extra ∧
        out.insertOnly = (tables.insertOnly && (l.isEmpty || keep)) ∧
        (∀ f ∉ l.map key, out.fieldMap.lookup f = tables.fieldMap.lookup f) ∧
        ∀ x ∈ l, ∃ mod, R x mod ∧ out.fieldMap.lookup (key x) = some mod
  | [], tables, _, _, _ => ⟨tables, rfl, by simp, by simp, fun _ _ => rfl, by simp⟩
  | x :: l, tables, hstep, hnd, hfresh => by
    simp only [List.map_cons, List.nodup_cons] at hnd
    obtain ⟨mod, hR, hx⟩ := hstep x List.mem_cons_self tables (hfresh x List.mem_cons_self)
    -- the entry of `x` is added; the names after it are still fresh
    have hfresh' : ∀ y ∈ l, (tables.fieldMap ++ [(key x, mod)]).lookup (key y) = none := by
      intro y hy
      have hne : key y ≠ key x := fun h => hnd.1 (h ▸ List.mem_map_of_mem hy)
      rw [lookup_append_singleton_of_ne _ hne, hfresh y (List.mem_cons_of_mem x hy)]
    obtain ⟨out, hout, hins, hio, hkeep, hfound⟩ := foldlM_fresh step key extra R keep l
      ⟨tables.fieldMap ++ [(key x, mod)], tables.fieldsToInsert ++ extra x, tables.insertOnly && keep⟩
      (fun y hy => hstep y (List.mem_cons_of_mem x hy)) hnd.2 hfresh'
    refine ⟨out, by simp [hx, hout, bind, Except.bind], by simp [hins], ?_, ?_, ?_⟩
    · cases keep <;> simp [hio]
    · intro f hf
      simp only [List.map_cons, List.mem_cons, not_or] at hf
      rw [hkeep f hf.2, lookup_append_singleton_of_ne _ hf.1]
    · intro y hy
      rcases List.mem_cons.1 hy with rfl | hy
      · exact ⟨mod, hR, by rw [hkeep _ hnd.1, lookup_append_singleton_self (hfresh y hy)]⟩
      · exact hfound y hy

variable {tables : DocumentDiffTables}

theorem addDelete_of_lookup {field : String × BSONValue}
    (h : tables.fieldMap.lookup field.1 = none) :
    tables.addDelete field =
      .ok ⟨tables.fieldMap ++ [(field.1, .delete)], tables.fieldsToInsert, false⟩ := by
  simp [addDelete, safeInsert_of_lookup h, bind, Except.bind, pure, Except.pure]

theorem addUpdate_of_lookup {elt : String × BSONValue} (h : tables.fieldMap.lookup elt.1 = none) :
    tables.addUpdate elt =
      .ok ⟨tables.fieldMap ++ [(elt.1, .update elt)], tables.fieldsToInsert ++ [elt], false⟩ := by
  simp [addUpdate, safeInsert_of_lookup h, bind, Except.bind, pure, Except.pure]

theorem addInsert_of_lookup {elt : String × BSONValue} (h : tables.fieldMap.lookup elt.1 = none) :
    tables.addInsert elt = .ok
      ⟨tables.fieldMap ++ [(elt.1, .insert elt)], tables.fieldsToInsert ++ [elt], tables.insertOnly⟩ := by
  simp [addInsert, safeInsert_of_lookup h, bind, Except.bind, pure, Except.pure]

theorem addSubDiff_of_lookup {field : String × BSONValue} {fieldName : String}
    {reader : SubDiffReader} (hparse : DocumentDiffReader.parseSubDiff field = .ok (fieldName, reader))
    (h : tables.fieldMap.lookup fieldName = none) :
    tables.addSubDiff field =
      .ok ⟨tables.fieldMap ++ [(fieldName, .subDiff reader)], tables.fieldsToInsert, false⟩ := by
  simp [addSubDiff, hparse, safeInsert_of_lookup h, bind, Except.bind, pure, Except.pure]

end DocumentDiffTables

theorem parseSubDiff_field {fieldName : String} {c : Node} {reader : SubDiffReader}
    (h : getReader c.serialize = .ok reader) :
    DocumentDiffReader.parseSubDiff ("s" ++ fieldName, .object c.serialize) =
      .ok (fieldName, reader) := by
  simp [DocumentDiffReader.parseSubDiff, h, bind, Except.bind, pure, Except.pure]

/-- The tables of a document diff read from a node whose names are distinct and whose
sub-diffs are read as they mean. -/
theorem buildObjDiffTables_spec {n : DocumentSubDiffNode Node} (hnd : n.names.Nodup)
    (hsub : ∀ s ∈ n.subDiffs, ∃ reader, getReader s.2.serialize = .ok reader ∧ ReadsAs reader s.2)
    {reader : DocumentDiffReader}
    (hd : reader.deletes.getD [] = n.deletes.map (fun f => (f, .bool false)))
    (hu : reader.updates.getD [] = n.updates) (hi : reader.inserts.getD [] = n.inserts)
    (hs : reader.subDiffs.getD [] = serializeSubDiffs n.subDiffs) :
    ∃ tables, buildObjDiffTables reader = .ok tables ∧ TablesFor tables n := by
  obtain ⟨deletes, updates, inserts, subDiffs, size⟩ := n
  simp only [DocumentSubDiffNode.names, List.nodup_append, List.mem_append] at hnd
  obtain ⟨⟨⟨hD, hU, hDU⟩, hI, hDUI⟩, hS, hDUIS⟩ := hnd
  -- the four folds, each over names that the folds before it did not add
  obtain ⟨t₁, h₁, hins₁, hio₁, hkeep₁, hfound₁⟩ := DocumentDiffTables.foldlM_fresh
    DocumentDiffTables.addDelete Prod.fst (fun _ => []) (fun _ mod => mod = .delete) false
    (deletes.map fun f => (f, .bool false)) ⟨[], [], true⟩
    (fun _ _ t ht => ⟨_, rfl, by
      rw [List.append_nil, Bool.and_false]
      exact DocumentDiffTables.addDelete_of_lookup ht⟩)
    (by simpa [Function.comp_def] using hD) (fun _ _ => rfl)
  obtain ⟨t₂, h₂, hins₂, hio₂, hkeep₂, hfound₂⟩ := DocumentDiffTables.foldlM_fresh
    DocumentDiffTables.addUpdate Prod.fst (fun e => [e]) (fun e mod => mod = .update e) false
    updates t₁ (fun _ _ t ht => ⟨_, rfl, by
      rw [Bool.and_false]
      exact DocumentDiffTables.addUpdate_of_lookup ht⟩) hU
    (fun e he => by
      have hne : e.1 ∉ deletes := fun hm => hDU _ hm _ (List.mem_map_of_mem he) rfl
      rw [hkeep₁ e.1 (by simpa [Function.comp_def] using hne)]
      rfl)
  obtain ⟨t₃, h₃, hins₃, hio₃, hkeep₃, hfound₃⟩ := DocumentDiffTables.foldlM_fresh
    DocumentDiffTables.addInsert Prod.fst (fun e => [e]) (fun e mod => mod = .insert e) true
    inserts t₂ (fun _ _ t ht => ⟨_, rfl, by
      rw [Bool.and_true]
      exact DocumentDiffTables.addInsert_of_lookup ht⟩) hI
    (fun e he => by
      have hm := List.mem_map_of_mem (f := Prod.fst) he
      have hne₁ : e.1 ∉ deletes := fun hd => hDUI _ (.inl hd) _ hm rfl
      have hne₂ : e.1 ∉ updates.map Prod.fst := fun hu => hDUI _ (.inr hu) _ hm rfl
      rw [hkeep₂ e.1 hne₂, hkeep₁ e.1 (by simpa [Function.comp_def] using hne₁)]
      rfl)
  obtain ⟨t₄, h₄, hins₄, hio₄, hkeep₄, hfound₄⟩ := DocumentDiffTables.foldlM_fresh
    (fun t s => t.addSubDiff ("s" ++ s.1, .object s.2.serialize)) Prod.fst (fun _ => [])
    (fun s mod => ∃ reader, mod = .subDiff reader ∧ ReadsAs reader s.2) false subDiffs t₃
    (fun s hs t ht => by
      obtain ⟨reader, hr, hreads⟩ := hsub s hs
      exact ⟨_, ⟨reader, rfl, hreads⟩, by
        rw [List.append_nil, Bool.and_false]
        exact DocumentDiffTables.addSubDiff_of_lookup (parseSubDiff_field hr) ht⟩) hS
    (fun s hs => by
      have hm := List.mem_map_of_mem (f := Prod.fst) hs
      have hne₁ : s.1 ∉ deletes := fun hd => hDUIS _ (.inl (.inl hd)) _ hm rfl
      have hne₂ : s.1 ∉ updates.map Prod.fst := fun hu => hDUIS _ (.inl (.inr hu)) _ hm rfl
      have hne₃ : s.1 ∉ inserts.map Prod.fst := fun hi => hDUIS _ (.inr hi) _ hm rfl
      rw [hkeep₃ s.1 hne₃, hkeep₂ s.1 hne₂, hkeep₁ s.1 (by simpa [Function.comp_def] using hne₁)]
      rfl)
  have hkeep₁' : ∀ f ∉ deletes, t₁.fieldMap.lookup f = none := fun f hf =>
    hkeep₁ f (by simpa [Function.comp_def] using hf)
  refine ⟨t₄, ?_, ⟨?_, ?_, ?_, ?_, ?_, ?_, ?_⟩⟩
  · simp only [buildObjDiffTables, hd, hu, hi, hs, serializeSubDiffs_eq_map, List.foldlM_map, h₁,
      h₂, h₃, h₄, bind, Except.bind]
  · have hnil : ∀ {γ : Type} (l : List γ), l.flatMap (fun _ => ([] : BSONObj)) = [] :=
      fun _ => List.flatMap_eq_nil_iff.2 fun _ _ => rfl
    simp [hins₄, hins₃, hins₂, hins₁, hnil]
  · intro f hf
    have hne₂ : f ∉ updates.map Prod.fst := fun hu => hDU _ hf _ hu rfl
    have hne₃ : f ∉ inserts.map Prod.fst := fun hi => hDUI _ (.inl hf) _ hi rfl
    have hne₄ : f ∉ subDiffs.map Prod.fst := fun hs => hDUIS _ (.inl (.inl hf)) _ hs rfl
    obtain ⟨_, rfl, hmod⟩ := hfound₁ (f, .bool false) (List.mem_map_of_mem hf)
    rw [hkeep₄ f hne₄, hkeep₃ f hne₃, hkeep₂ f hne₂, hmod]
  · intro e he
    have hm := List.mem_map_of_mem (f := Prod.fst) he
    have hne₃ : e.1 ∉ inserts.map Prod.fst := fun hi => hDUI _ (.inr hm) _ hi rfl
    have hne₄ : e.1 ∉ subDiffs.map Prod.fst := fun hs => hDUIS _ (.inl (.inr hm)) _ hs rfl
    obtain ⟨_, rfl, hmod⟩ := hfound₂ e he
    rw [hkeep₄ e.1 hne₄, hkeep₃ e.1 hne₃, hmod]
  · intro e he
    have hm := List.mem_map_of_mem (f := Prod.fst) he
    have hne₄ : e.1 ∉ subDiffs.map Prod.fst := fun hs => hDUIS _ (.inr hm) _ hs rfl
    obtain ⟨_, rfl, hmod⟩ := hfound₃ e he
    rw [hkeep₄ e.1 hne₄, hmod]
  · intro s hs
    obtain ⟨_, ⟨reader, rfl, hreads⟩, hmod⟩ := hfound₄ s hs
    exact ⟨reader, hmod, hreads⟩
  · intro f hf
    simp only [DocumentSubDiffNode.names, List.mem_append, not_or] at hf
    obtain ⟨⟨⟨hf₁, hf₂⟩, hf₃⟩, hf₄⟩ := hf
    rw [hkeep₄ f hf₄, hkeep₃ f hf₃, hkeep₂ f hf₂, hkeep₁' f hf₁]
  · simp [hio₄, hio₃, hio₂, hio₁]

/-! ## The fields of the pre-image -/

theorem applyNamed_of_mem {subDiffs : List (String × Node)} (hnd : (subDiffs.map Prod.fst).Nodup)
    {fieldName : String} {c : Node} (h : (fieldName, c) ∈ subDiffs) (value : BSONValue) :
    applyNamed subDiffs fieldName value = some (c.applyTo value) := by
  induction subDiffs with
  | nil => cases h
  | cons s rest ih =>
    obtain ⟨name, child⟩ := s
    simp only [List.map_cons, List.nodup_cons] at hnd
    rcases List.mem_cons.1 h with h | h
    · cases h
      simp [applyNamed]
    · have hne : name ≠ fieldName := fun he => hnd.1 (he ▸ List.mem_map_of_mem (f := Prod.fst) h)
      simp [applyNamed, hne, ih hnd.2 h]

/-- The loop over the pre-image's fields writes what the node does to each of them, and it
marks as written the names of the updated fields that the pre-image has. -/
theorem appendPreImageFields_spec {n : DocumentSubDiffNode Node} {tables : DocumentDiffTables}
    (ht : TablesFor tables n) (hnd : n.names.Nodup) (mustCheck : Bool) :
    ∀ (pre : BSONObj) (skip : List String),
      (∀ s ∈ n.subDiffs, ∀ value, (s.1, value) ∈ pre → Admits mustCheck s.2 value) → ∃ skip',
      appendPreImageFields mustCheck pre tables skip = .ok (pre.filterMap (fieldStep n), skip') ∧
      ∀ x, x ∈ skip' ↔ x ∈ skip ∨ (x ∈ pre.map Prod.fst ∧ x ∈ n.updates.map Prod.fst)
  | [], skip, _ => ⟨skip, rfl, by simp⟩
  | (f, v) :: rest, skip, hassume => by
    have hassume' : ∀ s ∈ n.subDiffs, ∀ value, (s.1, value) ∈ rest → Admits mustCheck s.2 value :=
      fun s hs value hv => hassume s hs value (List.mem_cons_of_mem _ hv)
    have hnd' := hnd
    simp only [DocumentSubDiffNode.names, List.nodup_append, List.mem_append] at hnd'
    obtain ⟨⟨⟨-, hU, hDU⟩, -, hDUI⟩, hS, hDUIS⟩ := hnd'
    -- a field that is not updated leaves the names marked as the rest of the loop marks them
    have hkeep : f ∉ n.updates.map Prod.fst → ∀ skip' : List String,
        (∀ x, x ∈ skip' ↔ x ∈ skip ∨ (x ∈ rest.map Prod.fst ∧ x ∈ n.updates.map Prod.fst)) →
        ∀ x, x ∈ skip' ↔
          x ∈ skip ∨ (x ∈ ((f, v) :: rest).map Prod.fst ∧ x ∈ n.updates.map Prod.fst) := by
      intro hf skip' h x
      rw [h x, List.map_cons, List.mem_cons]
      constructor
      · rintro (h | ⟨h₁, h₂⟩)
        · exact .inl h
        · exact .inr ⟨.inr h₁, h₂⟩
      · rintro (h | ⟨rfl | h₁, h₂⟩)
        · exact .inl h
        · exact absurd h₂ hf
        · exact .inr ⟨h₁, h₂⟩
    by_cases hd : f ∈ n.deletes
    · obtain ⟨skip', hrest, hskip⟩ := appendPreImageFields_spec ht hnd mustCheck rest skip hassume'
      have hu : f ∉ n.updates.map Prod.fst := fun hu => hDU _ hd _ hu rfl
      refine ⟨skip', ?_, hkeep hu skip' hskip⟩
      simp only [appendPreImageFields, ht.delete f hd, hrest, List.filterMap_cons,
        fieldStep_of_removed (.inl hd)]
    by_cases hu : f ∈ n.updates.map Prod.fst
    · obtain ⟨⟨g, w⟩, he, rfl⟩ := List.mem_map.1 hu
      have hi : g ∉ n.inserts.map Prod.fst := fun hi => hDUI _ (.inr hu) _ hi rfl
      obtain ⟨skip', hrest, hskip⟩ :=
        appendPreImageFields_spec ht hnd mustCheck rest (g :: skip) hassume'
      refine ⟨skip', ?_, fun x => ?_⟩
      · simp only [appendPreImageFields, ht.update _ he, hrest, List.filterMap_cons,
          fieldStep_of_lookup hd hi ((lookup_eq_some_iff hU).2 he), bind, Except.bind, pure,
          Except.pure]
      · rw [hskip x, List.mem_cons, List.map_cons, List.mem_cons]
        constructor
        · rintro ((rfl | h) | ⟨h₁, h₂⟩)
          · exact .inr ⟨.inl rfl, hu⟩
          · exact .inl h
          · exact .inr ⟨.inr h₁, h₂⟩
        · rintro (h | ⟨rfl | h₁, h₂⟩)
          · exact .inl (.inr h)
          · exact .inl (.inl rfl)
          · exact .inr ⟨h₁, h₂⟩
    by_cases hi : f ∈ n.inserts.map Prod.fst
    · obtain ⟨⟨g, w⟩, he, rfl⟩ := List.mem_map.1 hi
      have hu : g ∉ n.updates.map Prod.fst := fun hu' => hDUI _ (.inr hu') _ hi rfl
      obtain ⟨skip', hrest, hskip⟩ := appendPreImageFields_spec ht hnd mustCheck rest skip hassume'
      refine ⟨skip', ?_, hkeep hu skip' hskip⟩
      simp only [appendPreImageFields, ht.insert _ he, hrest, List.filterMap_cons,
        fieldStep_of_removed (.inr hi)]
    by_cases hs : f ∈ n.subDiffs.map Prod.fst
    · obtain ⟨⟨g, c⟩, hc, rfl⟩ := List.mem_map.1 hs
      obtain ⟨reader, hlookup, hreads⟩ := ht.subDiff _ hc
      obtain ⟨skip', hrest, hskip⟩ := appendPreImageFields_spec ht hnd mustCheck rest skip hassume'
      refine ⟨skip', ?_, hkeep hu skip' hskip⟩
      simp only [appendPreImageFields, hlookup,
        hreads mustCheck v (hassume _ hc v List.mem_cons_self), hrest, List.filterMap_cons,
        fieldStep_of_applyNamed hd hi (lookup_eq_none_of_not_mem hu) (applyNamed_of_mem hS hc v),
        bind, Except.bind, pure, Except.pure]
    · have hf : f ∉ n.names := by
        simp only [DocumentSubDiffNode.names, List.mem_append, not_or]
        exact ⟨⟨⟨hd, hu⟩, hi⟩, hs⟩
      obtain ⟨skip', hrest, hskip⟩ := appendPreImageFields_spec ht hnd mustCheck rest skip hassume'
      refine ⟨skip', ?_, hkeep hu skip' hskip⟩
      simp only [appendPreImageFields, ht.absent f hf, hrest, List.filterMap_cons,
        fieldStep_of_not_mem hf, bind, Except.bind, pure, Except.pure]

/-- A node that names no field of the pre-image leaves each of them as it is. -/
theorem filterMap_fieldStep_of_not_mem {n : DocumentSubDiffNode Node} {pre : BSONObj}
    (h : ∀ f ∈ pre.map Prod.fst, f ∉ n.names) : pre.filterMap (fieldStep n) = pre := by
  have hstep : ∀ x ∈ pre, fieldStep n x = some x := fun ⟨f, v⟩ hx =>
    fieldStep_of_not_mem (h f (List.mem_map_of_mem hx))
  rw [List.filterMap_congr hstep, List.filterMap_some]

/-- The applier writes the pre-image's fields as the node does, then the updates of fields the
pre-image lacks, then the inserts: what the node means. Without the existence checks, a level
that only inserts appends its inserts to the pre-image, which is the same under the caller's
guarantee. -/
theorem applyDiffToObject_spec {n : DocumentSubDiffNode Node} {reader : DocumentDiffReader}
    {tables : DocumentDiffTables} (hb : buildObjDiffTables reader = .ok tables)
    (ht : TablesFor tables n) (hnd : n.names.Nodup) (pre : BSONObj) {mustCheck : Bool}
    (hassume : Admits mustCheck (.documentSubDiff n) (.object pre)) :
    applyDiffToObject mustCheck pre reader (appendPreImageFields mustCheck pre · []) =
      .ok (n.applyToFields pre) := by
  by_cases hfast : (!mustCheck && tables.insertOnly) = true
  · -- without the checks, a level that only inserts is appended to the pre-image, which the
    -- caller guarantees has none of its fields
    obtain ⟨rfl, hio⟩ : mustCheck = false ∧ tables.insertOnly = true := by simpa using hfast
    obtain ⟨⟨hd, hu⟩, hs⟩ : (n.deletes = [] ∧ n.updates = []) ∧ n.subDiffs = [] := by
      simpa [ht.insertOnly] using hio
    have hfresh := hassume.inserts hd hu hs
    have hkeep : pre.filterMap (fieldStep n) = pre := by
      refine filterMap_fieldStep_of_not_mem fun f hf hn => ?_
      simp only [DocumentSubDiffNode.names, hd, hu, hs, List.map_nil, List.nil_append,
        List.append_nil] at hn
      obtain ⟨e, he, rfl⟩ := List.mem_map.1 hn
      exact hfresh e he hf
    simp only [applyDiffToObject, hb, hfast, if_true, ht.fieldsToInsert, applyToFields_eq, hkeep,
      hu, List.filter_nil, List.nil_append, List.append_nil, bind, Except.bind, pure, Except.pure]
  -- otherwise the loop goes over every field of the pre-image
  obtain ⟨skip, hfields, hskip⟩ := appendPreImageFields_spec ht hnd mustCheck pre []
    fun s hs value hv => hassume.subDiff hs hv
  have hnd' := hnd
  simp only [DocumentSubDiffNode.names, List.nodup_append, List.mem_append] at hnd'
  obtain ⟨⟨-, -, hDUI⟩, -⟩ := hnd'
  -- an updated field is written in place exactly when the pre-image has it
  have hupd : n.updates.filter (fun elt => !skip.contains elt.1) =
      n.updates.filter (fun elt => elt.1 ∉ pre.map Prod.fst) := by
    refine List.filter_congr fun e he => ?_
    have hu := List.mem_map_of_mem (f := Prod.fst) he
    simp [hskip, hu]
  -- an inserted field never is: it is not an updated one
  have hins : n.inserts.filter (fun elt => !skip.contains elt.1) = n.inserts := by
    refine List.filter_eq_self.2 fun e he => ?_
    have hi := List.mem_map_of_mem (f := Prod.fst) he
    have hu : e.1 ∉ n.updates.map Prod.fst := fun hu => hDUI _ (.inr hu) _ hi rfl
    simp [hskip, hu]
  simp only [applyDiffToObject, hb, hfields, ht.fieldsToInsert, List.filter_append, hupd, hins,
    applyToFields_eq, List.append_assoc, bind, Except.bind, pure, Except.pure, hfast,
    Bool.false_eq_true, if_false]

/-- A document diff read into its tables applies as its node means, to every value: into an
object, and null for any other. -/
theorem readsAs_document {n : DocumentSubDiffNode Node} {reader : DocumentDiffReader}
    {tables : DocumentDiffTables} (hb : buildObjDiffTables reader = .ok tables)
    (ht : TablesFor tables n) (hnd : n.names.Nodup) :
    ReadsAs (.document reader) (.documentSubDiff n) := by
  intro mustCheck value hassume
  cases value with
  | object fields =>
    simp [applySubDiff, Node.applyTo, applyDiffToObject_spec hb ht hnd fields hassume, Functor.map,
      Except.map]
  | scalar t data h => rfl
  | array elems => rfl

/-! ## Reading an array diff -/

/-- A modification read from an array diff that does what the child at its index means: an
update gives the child's value, a sub-diff applies as the child and gives null past the end. -/
def ModFor : ArrayModification → Node → Prop
  | .update elt, c => ∀ value, c.applyTo value = elt
  | .subDiff reader, c => c.applyTo .null = .null ∧ ReadsAs reader c

/-- The modifications an array reader has still to give, one for each child of `children`, in
order: the next one read, and the fields left to read. -/
def ModsFor : Option (Nat × ArrayModification) → BSONObj → List (Nat × Node) → Prop
  | none, _, [] => True
  | some (j, mod), mods, (idx, c) :: rest =>
    j = idx ∧ ModFor mod c ∧
      ∃ next mods', ArrayDiffReader.next mods = .ok (next, mods') ∧ ModsFor next mods' rest
  | _, _, _ => False

theorem arrayHeader_ne_childEntry (idx : Nat) (c : Node) :
    (childEntry idx c).1 ≠ kResizeSectionFieldName := by
  intro h
  have hl := congrArg String.toList h
  cases c <;> simp [childEntry, kResizeSectionFieldName] at hl

/-- The reader of an array diff written from a node whose resize fits an `int`. -/
theorem make_arraySerialize (n : ArrayNode Node) (hresize : ∀ size ∈ n.resize, size < 2 ^ 31) :
    ArrayDiffReader.make n.serialize = .ok ⟨n.resize, serializeChildren n.children⟩ := by
  have hheader : (BSONValue.bool true).type = .bool ∧ (BSONValue.bool true).boolean = true :=
    ⟨rfl, rfl⟩
  obtain ⟨children, resize, size⟩ := n
  cases resize with
  | some size =>
    have hsize : size < 2 ^ 31 := hresize size rfl
    have hint : (BSONValue.int32 size).numberInt = size :=
      BSONValue.numberInt_int32 (by omega) (by exact_mod_cast hsize)
    have htype : (BSONValue.int32 size).type = .numberInt := rfl
    have hsizeT : sizeTOfInt size = size := by
      unfold sizeTOfInt
      rw [Int.emod_eq_of_lt (by omega) (by omega)]
      rfl
    simp [ArrayNode.serialize, arrayHeader, ArrayDiffReader.make, kArrayHeader,
      kResizeSectionFieldName, checkSection, hint, htype, hsizeT, hheader, bind, Except.bind,
      pure, Except.pure]
  | none =>
    cases children with
    | nil => rfl
    | cons child rest =>
      obtain ⟨idx, c⟩ := child
      simp [ArrayNode.serialize, arrayHeader, ArrayDiffReader.make, kArrayHeader,
        serializeChildren_cons, arrayHeader_ne_childEntry, hheader, pure, Except.pure]

/-- The entry of a child at an index that fits an `unsigned int` reads back as a modification
at that index that does what the child means, when a sub-diff child is read as it means. -/
theorem parseModification_childEntry {idx : Nat} (hidx : idx < 2 ^ 32) {c : Node}
    (hdel : c ≠ .delete)
    (hsub : c.isInternal = true → ∃ reader, getReader c.serialize = .ok reader ∧ ReadsAs reader c) :
    ∃ mod, ArrayDiffReader.parseModification (childEntry idx c) = .ok (idx, mod) ∧ ModFor mod c := by
  cases c with
  | update elt | insert elt =>
    obtain ⟨hlen, hlist⟩ := entryName (show "u".toList = ['u'] from rfl) idx
    refine ⟨.update elt, ?_, fun _ => rfl⟩
    simp only [childEntry, ArrayDiffReader.parseModification, hlen, hlist, List.drop_one,
      List.tail_cons, String.ofList_toList, extractArrayIndex_toString hidx, if_false, bind,
      Except.bind, pure, Except.pure]
  | delete => exact absurd rfl hdel
  | documentSubDiff n | array n =>
    obtain ⟨reader, hr, hreads⟩ := hsub rfl
    obtain ⟨hlen, hlist⟩ := entryName (show "s".toList = ['s'] from rfl) idx
    refine ⟨.subDiff reader, ?_, rfl, hreads⟩
    simp only [childEntry, ArrayDiffReader.parseModification, hlen, hlist, List.drop_one,
      List.tail_cons, String.ofList_toList, extractArrayIndex_toString hidx, hr, if_false, bind,
      Except.bind, pure, Except.pure]

/-- The entries of children each read back as a modification read the children in order. -/
theorem next_serializeChildren : ∀ (children : List (Nat × Node)),
    (∀ x ∈ children, ∃ mod,
      ArrayDiffReader.parseModification (childEntry x.1 x.2) = .ok (x.1, mod) ∧ ModFor mod x.2) →
    ∃ next mods, ArrayDiffReader.next (serializeChildren children) = .ok (next, mods) ∧
      ModsFor next mods children
  | [], _ => ⟨none, [], rfl, trivial⟩
  | (idx, c) :: rest, h => by
    obtain ⟨mod, hparse, hmod⟩ := h (idx, c) List.mem_cons_self
    obtain ⟨next, mods, hnext, hmods⟩ :=
      next_serializeChildren rest fun x hx => h x (List.mem_cons_of_mem _ hx)
    refine ⟨some (idx, mod), serializeChildren rest, ?_, rfl, hmod, next, mods, hnext, hmods⟩
    simp [serializeChildren_cons, ArrayDiffReader.next, hparse, bind, Except.bind, pure,
      Except.pure]

/-! ## Applying an array diff -/

/-- The elements at indexes `idx` up to `len` of what an array node means, where `pre` holds the
pre-image's elements from `idx` on. -/
def elemsFrom (children : List (Nat × Node)) (pre : List BSONValue) (idx len : Nat) :
    List BSONValue :=
  (List.range' idx (len - idx)).map fun i =>
    (applyIndexed children i (pre.getD (i - idx) .null)).getD (pre.getD (i - idx) .null)

theorem elemsFrom_of_le {children : List (Nat × Node)} {pre : List BSONValue} {idx len : Nat}
    (h : len ≤ idx) : elemsFrom children pre idx len = [] := by
  simp [elemsFrom, Nat.sub_eq_zero_of_le h]

/-- The first element of the window, and the window after it. -/
theorem elemsFrom_cons {idx len : Nat} (h : idx < len) (children : List (Nat × Node))
    (pre : List BSONValue) :
    elemsFrom children pre idx len =
      (applyIndexed children idx (pre.getD 0 .null)).getD (pre.getD 0 .null) ::
        elemsFrom children pre.tail (idx + 1) len := by
  have hlen : len - idx = (len - (idx + 1)) + 1 := by omega
  unfold elemsFrom
  rw [hlen, List.range'_succ, List.map_cons, Nat.sub_self]
  congr 1
  refine List.map_congr_left fun i hi => ?_
  have hi : idx + 1 ≤ i := (List.mem_range'_1.1 hi).1
  have hsub : i - idx = (i - (idx + 1)) + 1 := by omega
  have htail : pre.getD (i - (idx + 1) + 1) .null = pre.tail.getD (i - (idx + 1)) .null := by
    cases pre <;> simp
  rw [hsub, htail]

theorem applyIndexed_cons_of_ne {idx i : Nat} (h : idx ≠ i) (c : Node)
    (rest : List (Nat × Node)) (value : BSONValue) :
    applyIndexed ((idx, c) :: rest) i value = applyIndexed rest i value := by
  simp [applyIndexed, h]

/-- A child behind the window does not show in it. -/
theorem elemsFrom_cons_of_lt {j idx : Nat} (h : j < idx) (c : Node) (rest : List (Nat × Node))
    (pre : List BSONValue) (len : Nat) :
    elemsFrom ((j, c) :: rest) pre idx len = elemsFrom rest pre idx len := by
  unfold elemsFrom
  refine List.map_congr_left fun i hi => ?_
  have hi : idx ≤ i := (List.mem_range'_1.1 hi).1
  rw [applyIndexed_cons_of_ne (by omega)]

/-- Past the pre-image, the window up to a child is nulls, then the child applied to null. -/
theorem elemsFrom_gap {j : Nat} {c : Node} {rest : List (Nat × Node)} (hrest : ∀ x ∈ rest, j < x.1)
    {len : Nat} (hj : j < len) :
    ∀ d idx, idx + d = j →
      elemsFrom ((j, c) :: rest) [] idx len =
        List.replicate d .null ++ c.applyTo .null :: elemsFrom rest [] (j + 1) len
  | 0, idx, h => by
    obtain rfl : idx = j := by omega
    rw [elemsFrom_cons hj, elemsFrom_cons_of_lt (by omega)]
    simp [applyIndexed]
  | d + 1, idx, h => by
    have hnone : applyIndexed rest idx .null = none :=
      applyIndexed_eq_none (fun hm => by
        obtain ⟨x, hx, hxi⟩ := List.mem_map.1 hm
        have := hrest x hx
        omega) _
    rw [elemsFrom_cons (by omega), applyIndexed_cons_of_ne (by omega), List.getD_nil, hnone,
      Option.getD_none, List.tail_nil, elemsFrom_gap hrest hj d (idx + 1) (by omega)]
    rfl

theorem appendRemaining_some {resizeVal : Option Nat} {j idx : Nat} (hle : idx ≤ j)
    (mod : ArrayModification) {mods : BSONObj} {next : Option (Nat × ArrayModification)}
    {mods' : BSONObj} (hnext : ArrayDiffReader.next mods = .ok (next, mods')) :
    appendRemaining resizeVal (some (j, mod)) mods idx =
      (fun tail => List.replicate (j - idx) .null ++
        (match mod with
          | .update elt => elt
          | .subDiff _ => .null) :: tail) <$> appendRemaining resizeVal next mods' (j + 1) := by
  cases mods with
  | nil =>
    simp only [ArrayDiffReader.next, pure, Except.pure, Except.ok.injEq, Prod.mk.injEq] at hnext
    obtain ⟨rfl, rfl⟩ := hnext
    simp only [appendRemaining, Nat.not_lt.2 hle, if_false]
    cases padToResize resizeVal (j + 1) <;> rfl
  | cons field fields =>
    cases hp : ArrayDiffReader.parseModification field with
    | error e => simp [ArrayDiffReader.next, hp, bind, Except.bind] at hnext
    | ok m =>
      simp only [ArrayDiffReader.next, hp, bind, Except.bind, pure, Except.pure, Except.ok.injEq,
        Prod.mk.injEq] at hnext
      obtain ⟨rfl, rfl⟩ := hnext
      simp only [appendRemaining, Nat.not_lt.2 hle, if_false, hp, bind, Except.bind]
      cases appendRemaining resizeVal (some m) fields (j + 1) <;> rfl

/-- The second loop of the array applier, past the pre-image's end, writes the window of what
the node means from where it starts. -/
theorem appendRemaining_spec (resizeVal : Option Nat) :
    ∀ (children : List (Nat × Node)) (next : Option (Nat × ArrayModification)) (mods : BSONObj)
      (idx : Nat), ModsFor next mods children → (children.map Prod.fst).Pairwise (· < ·) →
      (∀ x ∈ children, idx ≤ x.1) → (∀ size ∈ resizeVal, idx ≤ size ∧ ∀ x ∈ children, x.1 < size) →
      appendRemaining resizeVal next mods idx =
        .ok (elemsFrom children [] idx (resizeVal.getD (max idx (endIndex children))))
  | [], none, mods, idx, _, _, _, hresize => by
    cases resizeVal with
    | none => simp [appendRemaining, padToResize, endIndex, elemsFrom_of_le, pure, Except.pure]
    | some size =>
      have hle := (hresize size rfl).1
      simp [appendRemaining, padToResize, hle, elemsFrom, applyIndexed, pure, Except.pure,
        List.map_const']
  | [], some _, _, _, h, _, _, _ => h.elim
  | _ :: _, none, _, _, h, _, _, _ => h.elim
  | (j, c) :: rest, some (j', mod), mods, idx, h, hsorted, hge, hresize => by
    obtain ⟨rfl, hmod, next, mods', hnext, hmods⟩ := h
    simp only [List.map_cons, List.pairwise_cons, List.mem_map] at hsorted
    have hj : idx ≤ j' := hge _ List.mem_cons_self
    have hrest : ∀ x ∈ rest, j' < x.1 := fun x hx => hsorted.1 x.1 ⟨x, hx, rfl⟩
    have hresize' : ∀ size ∈ resizeVal, j' + 1 ≤ size ∧ ∀ x ∈ rest, x.1 < size :=
      fun size hs => ⟨(hresize size hs).2 _ List.mem_cons_self,
        fun x hx => (hresize size hs).2 x (List.mem_cons_of_mem _ hx)⟩
    have ih := appendRemaining_spec resizeVal rest next mods' (j' + 1) hmods hsorted.2
      (fun x hx => hrest x hx) hresize'
    -- the window ends where it ends after the child, and past the child
    have hlen : max idx (endIndex ((j', c) :: rest)) = max (j' + 1) (endIndex rest) := by
      show max idx (max (j' + 1) (endIndex rest)) = _
      omega
    have hjlen : j' < resizeVal.getD (max (j' + 1) (endIndex rest)) := by
      cases resizeVal with
      | none => simp
      | some size => simpa using (hresize' size rfl).1
    rw [appendRemaining_some hj mod hnext, ih, hlen,
      elemsFrom_gap hrest hjlen (j' - idx) idx (by omega)]
    -- past the end, an update writes its value and a sub-diff null: the child applied to null
    cases mod with
    | update elt => rw [hmod .null]; rfl
    | subDiff reader => rw [hmod.1]; rfl

/-- No modification at the loop's index: no child is there, and every child is past it. -/
theorem ModsFor.of_modificationAt_none {next : Option (Nat × ArrayModification)} {mods : BSONObj}
    {children : List (Nat × Node)} (h : ModsFor next mods children)
    (hsorted : (children.map Prod.fst).Pairwise (· < ·)) {idx : Nat}
    (hge : ∀ x ∈ children, idx ≤ x.1) (hm : modificationAt next idx = none) :
    ∀ x ∈ children, idx + 1 ≤ x.1 := by
  cases children with
  | nil => simp
  | cons x rest =>
    obtain ⟨j, c⟩ := x
    cases next with
    | none => exact h.elim
    | some p =>
      obtain ⟨j', mod⟩ := p
      obtain ⟨rfl, -⟩ := h
      have hne : idx ≠ j' := fun he => by simp [modificationAt, he] at hm
      have hj : idx ≤ j' := hge _ List.mem_cons_self
      simp only [List.map_cons, List.pairwise_cons, List.mem_map] at hsorted
      intro x hx
      rcases List.mem_cons.1 hx with rfl | hx
      · show idx + 1 ≤ j'
        omega
      · have := hsorted.1 x.1 ⟨x, hx, rfl⟩
        omega

/-- The modification at the loop's index is the first child's, which is there. -/
theorem ModsFor.of_modificationAt_some {next : Option (Nat × ArrayModification)} {mods : BSONObj}
    {children : List (Nat × Node)} (h : ModsFor next mods children) {idx : Nat}
    {mod : ArrayModification} (hm : modificationAt next idx = some mod) :
    ∃ c rest next' mods', children = (idx, c) :: rest ∧ ModFor mod c ∧
      ArrayDiffReader.next mods = .ok (next', mods') ∧ ModsFor next' mods' rest := by
  cases children with
  | nil =>
    cases next with
    | none => simp [modificationAt] at hm
    | some _ => exact h.elim
  | cons x rest =>
    obtain ⟨j, c⟩ := x
    cases next with
    | none => exact h.elim
    | some p =>
      obtain ⟨j', mod'⟩ := p
      obtain ⟨rfl, hmod, next', mods', hnext, hmods⟩ := h
      by_cases he : idx = j'
      · subst he
        simp only [modificationAt, if_true, Option.some.injEq] at hm
        subst hm
        exact ⟨c, rest, next', mods', rfl, hmod, hnext, hmods⟩
      · simp [modificationAt, he] at hm

/-- The first loop of the array applier writes the window of what the node means, from its
index over the rest of the pre-image, and on past it to the end. -/
theorem appendPreImageElements_spec (resizeVal : Option Nat) (mustCheck : Bool) :
    ∀ (pre : List BSONValue) (children : List (Nat × Node))
      (next : Option (Nat × ArrayModification)) (mods : BSONObj) (idx : Nat),
      ModsFor next mods children → (children.map Prod.fst).Pairwise (· < ·) →
      (∀ x ∈ children, idx ≤ x.1) → (∀ size ∈ resizeVal, idx ≤ size ∧ ∀ x ∈ children, x.1 < size) →
      (∀ x ∈ children, Admits mustCheck x.2 (pre.getD (x.1 - idx) .null)) →
      appendPreImageElements mustCheck pre resizeVal idx next mods =
        .ok (elemsFrom children pre idx
          (resizeVal.getD (max (idx + pre.length) (endIndex children))))
  | [], children, next, mods, idx, h, hsorted, hge, hresize, _ => by
    rw [appendPreImageElements, appendRemaining_spec resizeVal children next mods idx h hsorted hge
      hresize, List.length_nil, Nat.add_zero]
  | elt :: pre, children, next, mods, idx, h, hsorted, hge, hresize, hassume => by
    -- a child past this index admits the element it meets in the rest of the pre-image
    have hassume' : ∀ x ∈ children, idx + 1 ≤ x.1 →
        Admits mustCheck x.2 (pre.getD (x.1 - (idx + 1)) .null) := fun x hx hle => by
      have h := hassume x hx
      rwa [show x.1 - idx = (x.1 - (idx + 1)) + 1 by omega, List.getD_cons_succ] at h
    have hlength : idx + (elt :: pre).length = idx + 1 + pre.length := by simp; omega
    by_cases hlt : resizeVal.all (idx < ·) = true
    · have hidx : ∀ size ∈ resizeVal, idx < size := fun size hs => by
        rw [Option.mem_def] at hs
        subst hs
        simpa using hlt
      have hidxlen : idx < resizeVal.getD (max (idx + (elt :: pre).length) (endIndex children)) := by
        cases resizeVal with
        | none => simp
        | some size => simpa using hidx size rfl
      rw [elemsFrom_cons hidxlen, List.getD_cons_zero, List.tail_cons]
      cases hm : modificationAt next idx with
      | none =>
        -- no child at this index: the element is kept
        have hge' := h.of_modificationAt_none hsorted hge hm
        have hnone : applyIndexed children idx elt = none :=
          applyIndexed_eq_none (fun hmem => by
            obtain ⟨x, hx, hxi⟩ := List.mem_map.1 hmem
            have := hge' x hx
            omega) _
        have ih := appendPreImageElements_spec resizeVal mustCheck pre children next mods (idx + 1) h
          hsorted hge' (fun size hs => ⟨hidx size hs, (hresize size hs).2⟩)
          fun x hx => hassume' x hx (hge' x hx)
        simp only [appendPreImageElements, hlt, if_true, hm, ih, hnone, hlength, Option.getD_none,
          Functor.map, Except.map]
      | some mod =>
        -- the child at this index applied to the element
        obtain ⟨c, rest, next', mods', rfl, hmod, hnext, hmods⟩ := h.of_modificationAt_some hm
        simp only [List.map_cons, List.pairwise_cons, List.mem_map] at hsorted
        have hrest : ∀ x ∈ rest, idx + 1 ≤ x.1 := fun x hx => hsorted.1 x.1 ⟨x, hx, rfl⟩
        have ih := appendPreImageElements_spec resizeVal mustCheck pre rest next' mods' (idx + 1)
          hmods hsorted.2 hrest
          (fun size hs => ⟨hidx size hs, fun x hx => (hresize size hs).2 x (List.mem_cons_of_mem _ hx)⟩)
          fun x hx => hassume' x (List.mem_cons_of_mem _ hx) (hrest x hx)
        have hlen : max (idx + (elt :: pre).length) (endIndex ((idx, c) :: rest)) =
            max (idx + 1 + pre.length) (endIndex rest) := by
          show max _ (max (idx + 1) (endIndex rest)) = _
          rw [hlength]
          omega
        have happly : applyIndexed ((idx, c) :: rest) idx elt = some (c.applyTo elt) := by
          simp [applyIndexed]
        rw [hlen, happly, Option.getD_some, elemsFrom_cons_of_lt (Nat.lt_succ_self idx)]
        cases mod with
        | update newElt =>
          simp only [appendPreImageElements, hlt, if_true, hm, hnext, ih, ← hmod elt, bind,
            Except.bind, pure, Except.pure, Functor.map, Except.map]
        | subDiff reader =>
          have helt : Admits mustCheck c elt := by
            simpa using hassume (idx, c) List.mem_cons_self
          simp only [appendPreImageElements, hlt, if_true, hm, hnext, ih, hmod.2 mustCheck elt helt,
            bind, Except.bind, Functor.map, Except.map]
    · -- the resize is reached: the loop stops at the index, which is the end
      cases resizeVal with
      | none => exact absurd rfl hlt
      | some size =>
        have hsize : size = idx := by
          have := (hresize size rfl).1
          simp at hlt
          omega
        subst hsize
        cases children with
        | cons x rest =>
          have := (hresize size rfl).2 x List.mem_cons_self
          have := hge x List.mem_cons_self
          omega
        | nil =>
          cases next with
          | some _ => exact h.elim
          | none =>
            simp [appendPreImageElements, hlt, appendRemaining, padToResize, elemsFrom_of_le,
              pure, Except.pure]

/-- The array applier on the reader of a node's entries gives what the node means. -/
theorem applyDiffToArray_spec {n : ArrayNode Node} (hsorted : (n.children.map Prod.fst).Pairwise (· < ·))
    (hresize : ∀ size ∈ n.resize, ∀ x ∈ n.children, x.1 < size)
    (hparse : ∀ x ∈ n.children, ∃ mod,
      ArrayDiffReader.parseModification (childEntry x.1 x.2) = .ok (x.1, mod) ∧ ModFor mod x.2)
    (pre : List BSONValue) {mustCheck : Bool}
    (hassume : ∀ x ∈ n.children, Admits mustCheck x.2 (pre.getD x.1 .null)) :
    applyDiffToArray ⟨n.resize, serializeChildren n.children⟩ (appendPreImageElements mustCheck pre) =
      .ok (n.applyToElems pre) := by
  obtain ⟨next, mods, hnext, hmods⟩ := next_serializeChildren n.children hparse
  have hloop := appendPreImageElements_spec n.resize mustCheck pre n.children next mods 0 hmods
    hsorted (fun x _ => Nat.zero_le x.1) (fun size hs => ⟨Nat.zero_le size, hresize size hs⟩)
    fun x hx => by simpa using hassume x hx
  simp only [applyDiffToArray, hnext, hloop, bind, Except.bind, applyToElems_eq, elemsFrom,
    Nat.zero_add, Nat.sub_zero, List.range_eq_range']

theorem readsAs_array {n : ArrayNode Node} (hsorted : (n.children.map Prod.fst).Pairwise (· < ·))
    (hresize : ∀ size ∈ n.resize, ∀ x ∈ n.children, x.1 < size)
    (hparse : ∀ x ∈ n.children, ∃ mod,
      ArrayDiffReader.parseModification (childEntry x.1 x.2) = .ok (x.1, mod) ∧ ModFor mod x.2) :
    ReadsAs (.array ⟨n.resize, serializeChildren n.children⟩) (.array n) := by
  intro mustCheck value hassume
  cases value with
  | array elems =>
    simp [applySubDiff, Node.applyTo,
      applyDiffToArray_spec hsorted hresize hparse elems fun x hx => hassume.child hx, Functor.map,
      Except.map]
  | scalar t data h => rfl
  | object fields => rfl

/-! ## A well formed diff read back -/

theorem serialize_name_ne (n : DocumentSubDiffNode Node) :
    ∀ field ∈ n.serialize, field.1 ≠ kArrayHeader := by
  obtain ⟨deletes, updates, inserts, subDiffs, size⟩ := n
  intro field hfield hname
  simp only [DocumentSubDiffNode.serialize, deleteSection, wrapSection, serializeSubDiffs_eq_map,
    List.mem_append, List.mem_map] at hfield
  have hl := congrArg String.toList hname
  rcases hfield with ((h | h) | h) | ⟨s, -, rfl⟩
  all_goals first
    | (split at h <;> simp_all [kArrayHeader])
    | simp [kArrayHeader] at hl

theorem getReader_document {n : DocumentSubDiffNode Node} (hne : n.names ≠ []) :
    getReader n.serialize = .document <$> DocumentDiffReader.make n.serialize := by
  cases h : n.serialize with
  | nil => exact absurd ((serialize_eq_nil_iff n).1 h) hne
  | cons field rest =>
    have hname := serialize_name_ne n field (by rw [h]; exact List.mem_cons_self)
    simp only [getReader, hname, if_false]

theorem getReader_array (n : ArrayNode Node) :
    getReader n.serialize = .array <$> ArrayDiffReader.make n.serialize := by
  obtain ⟨children, resize, size⟩ := n
  rfl

/-- Every well formed sub-diff is written so that it reads back as what it means. -/
theorem getReader_serialize {c : Node} (hwf : c.WF (2 ^ 31)) (hc : c.isInternal = true) :
    ∃ reader, getReader c.serialize = .ok reader ∧ ReadsAs reader c := by
  induction hwf with
  | update elt => cases hc
  | documentSubDiff n hne hnd hint _ ih =>
    obtain ⟨reader, hmake, hd, hu, hi, hs⟩ := make_serialize n hne
    obtain ⟨tables, hb, ht⟩ :=
      buildObjDiffTables_spec hnd (fun s hs => ih s hs (hint s hs)) hd hu hi hs
    refine ⟨.document reader, ?_, readsAs_document hb ht hnd⟩
    simp only [Node.serialize, getReader_document hne, hmake]
    rfl
  | array n hsorted hbounded hresize hchildren ih =>
    -- each child is read back at its index, which fits an `unsigned int`
    have hparse : ∀ x ∈ n.children, ∃ mod,
        ArrayDiffReader.parseModification (childEntry x.1 x.2) = .ok (x.1, mod) ∧ ModFor mod x.2 :=
      fun x hx => parseModification_childEntry (lt_trans (hbounded x hx) (by decide))
        (fun hdel => by
          have hwf := hchildren x hx
          rw [hdel] at hwf
          cases hwf)
        (ih x hx)
    refine ⟨.array ⟨n.resize, serializeChildren n.children⟩, ?_,
      readsAs_array hsorted (fun size hs => (hresize size hs).2) hparse⟩
    simp only [Node.serialize, getReader_array, make_arraySerialize n fun size hs => (hresize size hs).1]
    rfl

/-- A document diff with entries, distinct names and well formed sub-diffs, once written, does
to every pre-image what it means: with existence checks, and without them under the caller's
guarantee. -/
theorem applyDiff_serialize_of {n : DocumentSubDiffNode Node} (hne : n.names ≠ [])
    (hnd : n.names.Nodup) (hsub : ∀ s ∈ n.subDiffs, s.2.isInternal = true ∧ s.2.WF (2 ^ 31))
    (pre : BSONObj) {mustCheck : Bool}
    (hassume : Admits mustCheck (.documentSubDiff n) (.object pre)) :
    applyDiff pre n.serialize mustCheck = .ok (n.applyToFields pre) := by
  obtain ⟨reader, hmake, hd, hu, hi, hs⟩ := make_serialize n hne
  obtain ⟨tables, hb, ht⟩ := buildObjDiffTables_spec hnd
    (fun s hs => getReader_serialize (hsub s hs).2 (hsub s hs).1) hd hu hi hs
  simp only [applyDiff, hmake, bind, Except.bind]
  exact applyDiffToObject_spec hb ht hnd pre hassume

/-- `applyDiff` with existence checks implements what a diff tree means: every well formed
document diff tree, written by `writeDiff`, applied to any pre-image, gives the tree applied
to it. -/
theorem applyDiff_serialize {n : DocumentSubDiffNode Node}
    (hwf : (Node.documentSubDiff n).WF (2 ^ 31)) (pre : BSONObj) :
    applyDiff pre n.serialize true = .ok (n.applyToFields pre) := by
  cases hwf with
  | documentSubDiff _ hne hnd hint hsub =>
    exact applyDiff_serialize_of hne hnd (fun s hs => ⟨hint s hs, hsub s hs⟩) pre (.inl rfl)

/-- A diff that deletes `x`, updates `u`, inserts `i`, and diffs the array `arr`: its element 0
replaced, its element 2 an object that loses `y`, and its length set to 3. -/
def sampleDiff : DocumentSubDiffNode Node :=
  ⟨["x"], [("u", int32 5)], [("i", int32 6)],
    [("arr", .array ⟨[(0, .update (int32 7)), (2, .documentSubDiff ⟨["y"], [], [], [], 0⟩)],
      some 3, 0⟩)], 0⟩

theorem wf_sampleDiff : (Node.documentSubDiff sampleDiff).WF (2 ^ 31) := by
  refine .documentSubDiff _ (by decide) (by decide) (by decide) fun s hs => ?_
  simp only [sampleDiff, List.mem_singleton] at hs
  subst hs
  refine .array _ (by decide) (by decide) (by decide) fun c hc => ?_
  simp only [List.mem_cons, List.not_mem_nil, or_false] at hc
  rcases hc with rfl | rfl
  · exact .update _
  · exact .documentSubDiff _ (by decide) (by decide) (by decide) fun s hs => by simp at hs

theorem applyDiff_serialize_sampleDiff :
    (Node.documentSubDiff sampleDiff).WF (2 ^ 31) ∧
      applyDiff [("x", int32 1), ("arr", .array [int32 1, int32 2])] sampleDiff.serialize true =
        .ok (sampleDiff.applyToFields [("x", int32 1), ("arr", .array [int32 1, int32 2])]) :=
  ⟨wf_sampleDiff, applyDiff_serialize wf_sampleDiff _⟩

/-! ## The round trip -/

/-- A diff that `computeDiff` returns gives the post-image back when it is applied to the
pre-image with existence checks, unless the two documents are equal: their diff is then empty,
and the applier refuses it. -/
theorem applyDiff_computeDiff {pre post : BSONObj} {padding : Nat} {diff : Diff}
    (hpre : (BSONValue.object pre).hasUniqueNames = true) (hpost : ValidDocument post)
    (h : computeDiff pre post padding = .ok (some diff)) :
    applyDiff pre diff true = if pre = post then .error diffEmptyError else .ok post := by
  obtain ⟨N, hc, rfl⟩ := computeDiff_ok_some h
  -- the calculator returned what the walk returns, whose diff means the step to post
  obtain ⟨happly, hnd, hsub, hnames⟩ := walkDocDiff_spec hpre hpost (walkDocDiff_of_computeDocDiff hc)
  by_cases heq : pre = post
  · -- equal documents: the diff is empty
    have hempty : N.serialize = [] := (serialize_eq_nil_iff N).2 (hnames.2 heq)
    simp [heq, hempty, applyDiff, DocumentDiffReader.make, bind, Except.bind, throw,
      throwThe, MonadExceptOf.throw]
  · rw [if_neg heq, applyDiff_serialize_of (fun hN => heq (hnames.1 hN)) hnd hsub pre (.inl rfl),
      happly]

theorem applyDiff_computeDiff_sample :
    (BSONValue.object samplePre).hasUniqueNames = true ∧ ValidDocument samplePost ∧
      computeDiff samplePre samplePost 0 =
        .ok (some [("u", .object [("a", int32 3)]),
          ("sb", .object [("i", .object [("d", int32 4)])])]) ∧
      applyDiff samplePre
          [("u", .object [("a", int32 3)]), ("sb", .object [("i", .object [("d", int32 4)])])] true =
        if samplePre = samplePost then .error diffEmptyError else .ok samplePost :=
  have hpre : (BSONValue.object samplePre).hasUniqueNames = true := by decide
  have hpost : ValidDocument samplePost := by decide
  have hdiff : computeDiff samplePre samplePost 0 =
      .ok (some [("u", .object [("a", int32 3)]),
        ("sb", .object [("i", .object [("d", int32 4)])])]) := rfl
  ⟨hpre, hpost, hdiff, applyDiff_computeDiff hpre hpost hdiff⟩

/-- The diff of a valid document with itself is the empty object, which `applyDiff`
rejects. -/
theorem applyDiff_computeDiff_same_document :
    ValidDocument samplePre ∧ computeDiff samplePre samplePre 0 = .ok (some []) ∧
      applyDiff samplePre [] true = .error diffEmptyError := by
  refine ⟨by decide, rfl, ?_⟩
  simp [applyDiff, DocumentDiffReader.make, bind, Except.bind, throw, throwThe,
    MonadExceptOf.throw]

/-! ## Without existence checks -/

/-- The applier's fast path is exact under its caller's guarantee: for every well formed
document diff tree and every pre-image that the tree inserts no existing field into, applying
the written diff without existence checks gives what applying it with them gives. -/
theorem applyDiff_unchecked_eq_checked {n : DocumentSubDiffNode Node}
    (hwf : (Node.documentSubDiff n).WF (2 ^ 31)) {pre : BSONObj}
    (hfresh : (Node.documentSubDiff n).insertsFresh (.object pre) = true) :
    applyDiff pre n.serialize false = applyDiff pre n.serialize true := by
  cases hwf with
  | documentSubDiff _ hne hnd hint hsub =>
    have hsub' : ∀ s ∈ n.subDiffs, s.2.isInternal = true ∧ s.2.WF (2 ^ 31) :=
      fun s hs => ⟨hint s hs, hsub s hs⟩
    rw [applyDiff_serialize_of hne hnd hsub' pre (.inr hfresh),
      applyDiff_serialize_of hne hnd hsub' pre (.inl rfl)]

/-- A diff that only inserts `d` into the object `b`. -/
def insertOnlyDiff : DocumentSubDiffNode Node :=
  ⟨[], [], [], [("b", .documentSubDiff ⟨[], [], [("d", int32 4)], [], 0⟩)], 0⟩

theorem wf_insertOnlyDiff : (Node.documentSubDiff insertOnlyDiff).WF (2 ^ 31) := by
  refine .documentSubDiff _ (by decide) (by decide) (by decide) fun s hs => ?_
  simp only [insertOnlyDiff, List.mem_singleton] at hs
  subst hs
  exact .documentSubDiff _ (by decide) (by decide) (by decide) fun s hs => by simp at hs

theorem applyDiff_unchecked_eq_checked_insertOnlyDiff :
    (Node.documentSubDiff insertOnlyDiff).WF (2 ^ 31) ∧
      (Node.documentSubDiff insertOnlyDiff).insertsFresh
        (.object [("b", .object [("c", int32 1)])]) = true ∧
      applyDiff [("b", .object [("c", int32 1)])] insertOnlyDiff.serialize false =
        applyDiff [("b", .object [("c", int32 1)])] insertOnlyDiff.serialize true :=
  have hfresh : (Node.documentSubDiff insertOnlyDiff).insertsFresh
      (.object [("b", .object [("c", int32 1)])]) = true := by decide
  ⟨wf_insertOnlyDiff, hfresh, applyDiff_unchecked_eq_checked wf_insertOnlyDiff hfresh⟩

end mongo.doc_diff
