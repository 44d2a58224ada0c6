-- What a bucket gives back. The columns that `makeTimeseriesInsertDocument` writes are described
-- once, by `column`: the values of one field, each under the row key of its measurement. The
-- writer is shown to build exactly these columns, and the unpacker to stand, after `r` calls of
-- `getNext`, at row `r` of every column. Each call then returns the measurement of that row:
-- its time, the meta value, and its other fields in the order of the columns. The catalog puts
-- measurements in one bucket when their meta values agree once normalized, and the bucket holds
-- the normalized value, so a measurement comes back with its meta value normalized.
import PerconaMongo.Timeseries.Bucket
import PerconaMongo.Lib.KeyedList

namespace mongo.timeseries

open BSONValue BucketUnpacker assoc_list

/-! ## Lists of fields -/

/-- The fields of `doc` named `f`, as the entries of a column under the row key `rowKey`. -/
def rowsOf (f rowKey : String) (doc : BSONObj) : BSONObj :=
  doc.filterMap fun elem => if elem.1 = f then some (rowKey, elem.2) else none

/-- A measurement whose names are distinct has at most one entry in a column. -/
theorem rowsOf_of_nodup {doc : BSONObj} (hnd : (doc.map Prod.fst).Nodup) (f rowKey : String) :
    rowsOf f rowKey doc = ((doc.lookup f).map (rowKey, ·)).toList := by
  induction doc with
  | nil => rfl
  | cons field doc ih =>
    obtain ⟨n, v⟩ := field
    simp only [List.map_cons, List.nodup_cons] at hnd
    by_cases hn : n = f
    · subst hn
      have hnone : doc.lookup n = none := by
        cases hl : doc.lookup n with
        | none => rfl
        | some w =>
          exact absurd (List.mem_map.2 ⟨_, (lookup_eq_some_iff hnd.2).1 hl, rfl⟩) hnd.1
      have hrest : rowsOf n rowKey doc = [] := by rw [ih hnd.2, hnone]; rfl
      simp only [rowsOf] at hrest ⊢
      simp [hrest]
    · have hrest := ih hnd.2
      simp only [rowsOf] at hrest ⊢
      simp [hn, lookup_cons_of_ne (Ne.symm hn), hrest]

/-! ## The columns a batch is written into -/

/-- The column of field `f` for the measurements `docs`, numbered from `count`: the field's
values, each under the row key of its measurement. The meta field has no column. -/
def column (metaFieldName : Option String) (f : String) : Nat → List BSONObj → BSONObj
  | _, [] => []
  | count, doc :: docs =>
    (if metaFieldName = some f then [] else rowsOf f (toString count) doc) ++
      column metaFieldName f (count + 1) docs

/-- The column of field `f` among the builders, empty if there is none. -/
def colOf (builders : List (String × BSONObj)) (f : String) : BSONObj :=
  (builders.lookup f).getD []

theorem colOf_cons (name f : String) (col : BSONObj) (builders : List (String × BSONObj)) :
    colOf ((name, col) :: builders) f = if f = name then col else colOf builders f := by
  by_cases h : f = name
  · subst h
    simp [colOf]
  · simp [colOf, lookup_cons_of_ne h, h]

theorem colOf_appendAs (builders : List (String × BSONObj)) (key rowKey f : String)
    (value : BSONValue) :
    colOf (appendAs builders key rowKey value) f =
      colOf builders f ++ if f = key then [(rowKey, value)] else [] := by
  induction builders with
  | nil =>
    by_cases h : f = key
    · subst h
      simp [appendAs, colOf]
    · simp [appendAs, colOf, lookup_cons_of_ne h, h]
  | cons builder builders ih =>
    obtain ⟨name, col⟩ := builder
    by_cases hname : name = key
    · subst hname
      by_cases h : f = name <;> simp [appendAs, colOf_cons, h]
    · simp only [appendAs, hname, if_false, colOf_cons, ih]
      by_cases h : f = name
      · subst h
        simp [hname]
      · simp [h]

/-- `appendAs` makes a builder only for a field that has none. -/
theorem names_appendAs (builders : List (String × BSONObj)) (key rowKey : String)
    (value : BSONValue) :
    (appendAs builders key rowKey value).map Prod.fst =
      if key ∈ builders.map Prod.fst then builders.map Prod.fst
      else builders.map Prod.fst ++ [key] := by
  induction builders with
  | nil => simp [appendAs]
  | cons builder builders ih =>
    obtain ⟨name, col⟩ := builder
    by_cases hname : name = key
    · subst hname
      simp [appendAs]
    · have hmem : key ∈ name :: builders.map Prod.fst ↔ key ∈ builders.map Prod.fst := by
        simp [Ne.symm hname]
      simp only [appendAs, hname, if_false, List.map_cons, ih, List.map_cons, hmem]
      split <;> simp

theorem nodup_appendAs {builders : List (String × BSONObj)}
    (hnd : (builders.map Prod.fst).Nodup) (key rowKey : String) (value : BSONValue) :
    ((appendAs builders key rowKey value).map Prod.fst).Nodup := by
  rw [names_appendAs]
  split
  · exact hnd
  · rename_i hkey
    exact hnd.append (List.nodup_singleton key) (by simpa using hkey)

/-- The step of `buildDataFields` on one field of a measurement. -/
def addElem (metaFieldName : Option String) (rowKey : String) (builders : List (String × BSONObj))
    (elem : String × BSONValue) : List (String × BSONObj) :=
  if metaFieldName = some elem.1 then builders else appendAs builders elem.1 rowKey elem.2

theorem rowsOf_cons (f rowKey n : String) (v : BSONValue) (doc : BSONObj) :
    rowsOf f rowKey ((n, v) :: doc) =
      (if n = f then [(rowKey, v)] else []) ++ rowsOf f rowKey doc := by
  by_cases h : n = f <;> simp [rowsOf, h]

/-- The fields of one measurement, each added to its column. -/
theorem colOf_foldl_addElem (metaFieldName : Option String) (rowKey f : String) (doc : BSONObj)
    (builders : List (String × BSONObj)) :
    colOf (doc.foldl (addElem metaFieldName rowKey) builders) f =
      colOf builders f ++ if metaFieldName = some f then [] else rowsOf f rowKey doc := by
  induction doc generalizing builders with
  | nil => simp [rowsOf]
  | cons elem doc ih =>
    obtain ⟨n, v⟩ := elem
    rw [List.foldl_cons, ih, rowsOf_cons]
    unfold addElem
    by_cases hmeta : metaFieldName = some n
    · -- the meta field is skipped, and has no column
      by_cases hf : n = f
      · subst hf
        simp [hmeta]
      · simp [hmeta, hf]
    · rw [if_neg hmeta, colOf_appendAs]
      by_cases hf : n = f
      · subst hf
        simp [hmeta]
      · simp [Ne.symm hf, hf]

theorem nodup_foldl_addElem (metaFieldName : Option String) (rowKey : String) (doc : BSONObj)
    {builders : List (String × BSONObj)} (hnd : (builders.map Prod.fst).Nodup) :
    ((doc.foldl (addElem metaFieldName rowKey) builders).map Prod.fst).Nodup := by
  induction doc generalizing builders with
  | nil => exact hnd
  | cons elem doc ih =>
    rw [List.foldl_cons]
    apply ih
    unfold addElem
    split
    · exact hnd
    · exact nodup_appendAs hnd _ _ _

theorem buildDataFields_cons (metaFieldName : Option String) (count : Nat)
    (builders : List (String × BSONObj)) (doc : BSONObj) (docs : List BSONObj) :
    buildDataFields metaFieldName count builders (doc :: docs) =
      buildDataFields metaFieldName (count + 1)
        (doc.foldl (addElem metaFieldName (toString count)) builders) docs := rfl

/-- The builders hold the columns of the measurements, each after what it held before. -/
theorem colOf_buildDataFields (metaFieldName : Option String) (f : String) (docs : List BSONObj)
    (count : Nat) (builders : List (String × BSONObj)) :
    colOf (buildDataFields metaFieldName count builders docs) f =
      colOf builders f ++ column metaFieldName f count docs := by
  induction docs generalizing count builders with
  | nil => simp [buildDataFields, column]
  | cons doc docs ih =>
    rw [buildDataFields_cons, ih, colOf_foldl_addElem, column, List.append_assoc]

theorem nodup_buildDataFields (metaFieldName : Option String) (docs : List BSONObj)
    (count : Nat) {builders : List (String × BSONObj)} (hnd : (builders.map Prod.fst).Nodup) :
    ((buildDataFields metaFieldName count builders docs).map Prod.fst).Nodup := by
  induction docs generalizing count builders with
  | nil => exact hnd
  | cons doc docs ih =>
    rw [buildDataFields_cons]
    exact ih _ (nodup_foldl_addElem _ _ _ hnd)

theorem nodup_buildDataFields_nil (metaFieldName : Option String) (docs : List BSONObj) :
    ((buildDataFields metaFieldName 0 [] docs).map Prod.fst).Nodup :=
  nodup_buildDataFields metaFieldName docs 0 List.nodup_nil

/-- A field with entries has a builder. -/
theorem mem_names_of_colOf_ne_nil {builders : List (String × BSONObj)} {f : String}
    (h : colOf builders f ≠ []) : f ∈ builders.map Prod.fst := by
  induction builders with
  | nil => simp [colOf] at h
  | cons builder builders ih =>
    obtain ⟨name, col⟩ := builder
    rw [colOf_cons] at h
    by_cases hf : f = name
    · simp [hf]
    · rw [if_neg hf] at h
      exact List.mem_cons_of_mem _ (ih h)

/-- With distinct names, each builder holds the column `colOf` finds for its name. -/
theorem colOf_of_mem {builders : List (String × BSONObj)} (hnd : (builders.map Prod.fst).Nodup)
    {builder : String × BSONObj} (hb : builder ∈ builders)
      : colOf builders builder.1 = builder.2 := by
  rw [colOf, (lookup_eq_some_iff hnd).2 hb]
  rfl

/-- A column counted from `count` has only the row keys of rows from `count` on. -/
theorem column_keys {metaFieldName : Option String} {f : String} {count : Nat}
    {docs : List BSONObj} {entry : String × BSONValue}
    (h : entry ∈ column metaFieldName f count docs)
      : ∃ i, count ≤ i ∧ entry.1 = toString i := by
  induction docs generalizing count with
  | nil => simp [column] at h
  | cons doc docs ih =>
    rw [column, List.mem_append] at h
    rcases h with h | h
    · split at h
      · simp at h
      · -- an entry of this row
        obtain ⟨elem, -, helem⟩ := List.mem_filterMap.1 h
        split at helem
        · cases helem
          exact ⟨count, le_rfl, rfl⟩
        · cases helem
    · obtain ⟨i, hi, hkey⟩ := ih h
      exact ⟨i, by omega, hkey⟩

theorem column_cons_of_nodup (metaFieldName : Option String) (f : String) (count : Nat)
    {doc : BSONObj} (hnd : (doc.map Prod.fst).Nodup) (docs : List BSONObj) :
    column metaFieldName f count (doc :: docs) =
      (if metaFieldName = some f then []
        else ((doc.lookup f).map (toString count, ·)).toList) ++
      column metaFieldName f (count + 1) docs := by
  rw [column, rowsOf_of_nodup hnd]

theorem getField_append (l₁ l₂ : BSONObj) (name : String) :
    getField (l₁ ++ l₂) name = (getField l₁ name).or (getField l₂ name) := by
  simp [getField, List.find?_append]

/-- Row `j` of a column counted from `count` is the field of the `j`th measurement. -/
theorem getField_column {metaFieldName : Option String} {f : String} {docs : List BSONObj}
    (hdocs : ∀ doc ∈ docs, (doc.map Prod.fst).Nodup) (count : Nat)
    {j : Nat} (hj : j < docs.length) :
    getField (column metaFieldName f count docs) (toString (count + j)) =
      if metaFieldName = some f then none
      else (docs[j].lookup f).map (toString (count + j), ·) := by
  induction docs generalizing count j with
  | nil => simp at hj
  | cons doc docs ih =>
    have hnd := hdocs doc (by simp)
    have ih := fun c j' (hj' : j' < docs.length) => ih (fun d hd => hdocs d (by simp [hd])) c hj'
    rw [column_cons_of_nodup _ _ _ hnd, getField_append]
    -- the rest of the column has only the keys of later rows
    have hrest : ∀ c, getField (column metaFieldName f (c + 1) docs) (toString c) = none := by
      intro c
      cases hg : getField (column metaFieldName f (c + 1) docs) (toString c) with
      | none => rfl
      | some e =>
        have he := List.mem_of_find?_eq_some hg
        have hkey := List.find?_some hg
        obtain ⟨i, hi, hi'⟩ := column_keys he
        have : e.1 = toString c := by simpa using hkey
        have := toString_injective (this.symm.trans hi')
        omega
    cases j with
    | zero =>
      rw [Nat.add_zero, hrest]
      by_cases hmeta : metaFieldName = some f
      · simp [hmeta, getField]
      · cases hv : doc.lookup f <;> simp [hmeta, hv, getField]
    | succ j =>
      have hne : toString (count + (j + 1)) ≠ toString count := fun h => by
        have := toString_injective h
        omega
      have hhead : getField (if metaFieldName = some f then [] else
          ((doc.lookup f).map (toString count, ·)).toList)
          (toString (count + (j + 1))) = none := by
        split
        · rfl
        · cases doc.lookup f with
          | none => rfl
          | some v =>
            simp only [Option.map_some, Option.toList_some, getField, List.find?_cons]
            rw [show ((toString count, v).1 == toString (count + (j + 1))) = false from
              beq_eq_false_iff_ne.mpr (Ne.symm hne)]
            rfl
      rw [hhead, Option.none_or, show count + (j + 1) = count + 1 + j by omega,
        ih (count + 1) j (by simpa using hj)]
      simp

/-! ## Taking one row -/

theorem takeRow_cons_take (currentIdx colName : String) (value : BSONValue) (rest : BSONObj)
    (iters : List (String × BSONObj)) :
    takeRow currentIdx ((colName, (currentIdx, value) :: rest) :: iters) =
      ((colName, value) :: (takeRow currentIdx iters).1,
        (colName, rest) :: (takeRow currentIdx iters).2) := by
  simp [takeRow]

/-- A column whose current row key is not the time column's is left where it is. -/
theorem takeRow_cons_skip (currentIdx colName : String) {iter : BSONObj}
    (h : ∀ entry ∈ iter.head?, entry.1 ≠ currentIdx) (iters : List (String × BSONObj)) :
    takeRow currentIdx ((colName, iter) :: iters) =
      ((takeRow currentIdx iters).1, (colName, iter) :: (takeRow currentIdx iters).2) := by
  cases iter with
  | nil => rfl
  | cons entry rest =>
    have hne : entry.1 ≠ currentIdx := h entry rfl
    simp [takeRow, hne]

/-- At row `r`, `takeRow` takes from each column the field of the row's measurement and moves
that column to row `r + 1`; every other column is already past row `r`. -/
theorem takeRow_columns (metaFieldName : Option String) {doc : BSONObj}
    (hnd : (doc.map Prod.fst).Nodup) (r : Nat) (docs : List BSONObj) (names : List String) :
    takeRow (toString r) (names.map fun f => (f, column metaFieldName f r (doc :: docs))) =
      (names.filterMap fun f =>
          if metaFieldName = some f then none else (doc.lookup f).map (f, ·),
        names.map fun f => (f, column metaFieldName f (r + 1) docs)) := by
  induction names with
  | nil => rfl
  | cons f names ih =>
    have hskip : ∀ entry ∈ (column metaFieldName f (r + 1) docs).head?,
        entry.1 ≠ toString r := by
      intro entry hentry hkey
      obtain ⟨i, hi, hkey'⟩ := column_keys (List.mem_of_mem_head? hentry)
      have := toString_injective (hkey.symm.trans hkey')
      omega
    simp only [List.map_cons, column_cons_of_nodup metaFieldName f r hnd docs]
    rw [List.filterMap_cons]
    by_cases hmeta : metaFieldName = some f
    · -- the meta field has no column to take from
      rw [if_pos hmeta, if_pos hmeta, List.nil_append, takeRow_cons_skip _ _ hskip, ih]
    · rw [if_neg hmeta, if_neg hmeta]
      cases doc.lookup f with
      | none =>
        rw [Option.map_none, Option.toList_none, List.nil_append, takeRow_cons_skip _ _ hskip, ih]
        rfl
      | some v =>
        rw [Option.map_some, Option.toList_some, List.cons_append, List.nil_append,
          takeRow_cons_take, ih]
        rfl

/-! ## The bucket of one batch -/

/-- The data region of the bucket: each builder as an object. -/
def dataRegionOf (builders : List (String × BSONObj)) : BSONObj :=
  builders.map fun (name, col) => (name, .object col)

theorem getField_dataRegionOf (builders : List (String × BSONObj)) (f : String) :
    getField (dataRegionOf builders) f = (builders.lookup f).map fun col => (f, .object col) := by
  induction builders with
  | nil => rfl
  | cons builder builders ih =>
    obtain ⟨name, col⟩ := builder
    by_cases h : f = name
    · subst h
      simp [getField, dataRegionOf]
    · have hbeq : (name == f) = false := by simpa using Ne.symm h
      simp only [getField, dataRegionOf, List.map_cons, List.find?_cons, hbeq] at ih ⊢
      rw [ih, lookup_cons_of_ne h]

theorem getField_insertDocument_data (batch : WriteBatch) (metadata : BSONObj) :
    getField (makeTimeseriesInsertDocument batch metadata) kBucketDataFieldName =
      some (kBucketDataFieldName, .object (dataRegionOf
        (buildDataFields (metadata.head?.map Prod.fst) 0 [] batch.measurements))) := by
  unfold makeTimeseriesInsertDocument
  cases metadata.head? <;> rfl

theorem getField_insertDocument_meta (batch : WriteBatch) (metadata : BSONObj) :
    getField (makeTimeseriesInsertDocument batch metadata) kBucketMetaFieldName =
      metadata.head?.map fun elem => (kBucketMetaFieldName, elem.2) := by
  unfold makeTimeseriesInsertDocument
  cases metadata.head? <;> rfl

/-- `reset` makes an iterator over every column but the time column, when it excludes nothing. -/
theorem makeFieldIters_dataRegionOf {u : BucketUnpacker} (hset : u.spec.fieldSet = [])
    (hbeh : u.unpackerBehavior = .exclude) (builders : List (String × BSONObj)) :
    u.makeFieldIters (dataRegionOf builders) =
      .ok (builders.filter fun builder => builder.1 ≠ u.spec.timeField) := by
  induction builders with
  | nil => rfl
  | cons builder builders ih =>
    obtain ⟨name, col⟩ := builder
    have hinclude : determineIncludeField name u.unpackerBehavior u.spec = true := by
      simp [determineIncludeField, hset, hbeh]
    simp only [dataRegionOf, List.map_cons] at ih ⊢
    rw [makeFieldIters]
    by_cases htime : name = u.spec.timeField
    · simp [htime, ih]
    · simp only [htime, if_false, hinclude, if_true, ih]
      simp [embeddedObjectUserCheck, htime, bind, Except.bind, pure, Except.pure]

/-- The time column of `n` rows has the size `timeColumnSize` counts, dates being eight bytes. -/
theorem fieldsSize_column_time {metaFieldName : Option String} {tf : String}
    (hmt : metaFieldName ≠ some tf) (docs : List BSONObj)
    (hdocs : ∀ doc ∈ docs, (doc.map Prod.fst).Nodup ∧
      ∃ t, doc.lookup tf = some t ∧ t.valuesize = 8) (count : Nat) :
    fieldsSize (column metaFieldName tf count docs) + timeColumnSize count =
      timeColumnSize (count + docs.length) := by
  induction docs generalizing count with
  | nil => simp [column, fieldsSize]
  | cons doc docs ih =>
    obtain ⟨hnd, t, ht, h8⟩ := hdocs doc (by simp)
    have ih := ih (fun d hd => hdocs d (by simp [hd])) (count + 1)
    have hsucc : timeColumnSize (count + 1) =
        timeColumnSize count + (10 + (toString count).utf8ByteSize) := rfl
    rw [column_cons_of_nodup _ _ _ hnd, if_neg hmt, ht, List.length_cons,
      show count + (docs.length + 1) = count + 1 + docs.length by omega, ← ih]
    simp only [Option.map_some, Option.toList_some, List.cons_append, List.nil_append,
      fieldsSize, h8]
    omega

/-! ## Unpacking the bucket of one batch -/

/-- A batch whose measurements carry the bucket's meta element itself, for a collection with
time field `timeField` and meta field `metaField`: at least one measurement, each with distinct
field names and a date (eight bytes) as its time; `metaElem` is the meta field with the value
the measurements share, if they have one, and not the deprecated undefined. A bucket past 16MB
cannot exist, and a time column of `10 ^ 7` rows is already larger. -/
structure UniformBatch (timeField : String) (metaField : Option String)
    (metaElem : Option (String × BSONValue)) (docs : List BSONObj) : Prop where
  nonempty : docs ≠ []
  nodup : ∀ doc ∈ docs, (doc.map Prod.fst).Nodup
  time : ∀ doc ∈ docs, ∃ t, doc.lookup timeField = some t ∧ t.type = .date
    ∧ t.valuesize = 8
  sameMeta : ∀ doc ∈ docs, metaElem = metaField.bind fun mf => (doc.lookup mf).map (mf, ·)
  metaNotTime : metaField ≠ some timeField
  notUndefined : ∀ e ∈ metaElem, e.2.type ≠ .undefined
  fits : docs.length ≤ 10 ^ 7

theorem make_exclude (tf : String) (mf : Option String) :
    make ⟨tf, mf, [], [], false⟩ .exclude =
      ⟨⟨tf, mf, [], [], false⟩, .exclude, none, true, mf.isSome, [], none, [], [], 0⟩ := by
  cases mf <;> rfl

namespace UniformBatch
variable {tf : String} {mf : Option String} {metaElem : Option (String × BSONValue)}
  {docs : List BSONObj}

theorem metaName_ne (h : UniformBatch tf mf metaElem docs) : metaElem.map Prod.fst ≠ some tf := by
  obtain ⟨doc, hdoc⟩ := List.exists_mem_of_ne_nil _ h.nonempty
  rw [h.sameMeta doc hdoc]
  cases mf with
  | none => simp
  | some m =>
    have := h.metaNotTime
    cases doc.lookup m <;> simp_all

theorem colOf_time_ne_nil (h : UniformBatch tf mf metaElem docs) :
    colOf (buildDataFields (metaElem.map Prod.fst) 0 [] docs) tf ≠ [] := by
  obtain ⟨doc, docs', rfl⟩ := List.exists_cons_of_ne_nil h.nonempty
  obtain ⟨t, ht, -⟩ := h.time doc (by simp)
  rw [colOf_buildDataFields, column_cons_of_nodup _ _ _ (h.nodup doc (by simp)),
    if_neg h.metaName_ne, ht]
  simp [colOf]

theorem count_time (h : UniformBatch tf mf metaElem docs) :
    computeMeasurementCount
      (objsize (colOf (buildDataFields (metaElem.map Prod.fst) 0 [] docs) tf)) =
        .ok docs.length := by
  have hsize := fieldsSize_column_time h.metaName_ne docs
    (fun doc hdoc => ⟨h.nodup doc hdoc, by
      obtain ⟨t, ht, -, h8⟩ := h.time doc hdoc
      exact ⟨t, ht, h8⟩⟩) 0
  rw [colOf_buildDataFields, colOf, List.lookup_nil, Option.getD_none, List.nil_append, objsize]
  have h0 : timeColumnSize 0 = 5 := rfl
  rw [h0, Nat.zero_add] at hsize
  rw [show fieldsSize (column (metaElem.map Prod.fst) tf 0 docs) + 5 = timeColumnSize docs.length
    from hsize]
  exact computeMeasurementCount_timeColumnSize h.fits

end UniformBatch

open UniformBatch in
theorem reset_insertDocument {tf : String} {mf : Option String}
    {metaElem : Option (String × BSONValue)} {batch : WriteBatch}
    (h : UniformBatch tf mf metaElem batch.measurements) :
    (make ⟨tf, mf, [], [], false⟩ .exclude).reset
        (makeTimeseriesInsertDocument batch metaElem.toList) =
      .ok ⟨⟨tf, mf, [], [], false⟩, .exclude,
        some (column (metaElem.map Prod.fst) tf 0 batch.measurements), true, mf.isSome,
        makeTimeseriesInsertDocument batch metaElem.toList, metaElem.map Prod.snd,
        (buildDataFields (metaElem.map Prod.fst) 0 [] batch.measurements).filter
          (fun builder => builder.1 ≠ tf), [], batch.measurements.length⟩ := by
  set B := buildDataFields (metaElem.map Prod.fst) 0 [] batch.measurements with hB
  have hhead : metaElem.toList.head? = metaElem := by cases metaElem <;> rfl
  have hdata := getField_insertDocument_data batch metaElem.toList
  have hmeta := getField_insertDocument_meta batch metaElem.toList
  rw [hhead, ← hB] at hdata
  rw [hhead] at hmeta
  have hnonempty : (makeTimeseriesInsertDocument batch metaElem.toList).isEmpty = false := by
    unfold makeTimeseriesInsertDocument; rfl
  -- the data region has the time column, and so is not empty
  have htime : getField (dataRegionOf B) tf = some (tf, .object (colOf B tf)) := by
    rw [getField_dataRegionOf]
    have hne := h.colOf_time_ne_nil
    rw [← hB] at hne
    cases hl : B.lookup tf with
    | none => simp [colOf, hl] at hne
    | some col => simp [colOf, hl]
  have hregion : (dataRegionOf B).isEmpty = false := by
    cases hd : dataRegionOf B with
    | nil => simp [hd, getField] at htime
    | cons _ _ => rfl
  have hmv : (getField (makeTimeseriesInsertDocument batch metaElem.toList)
      kBucketMetaFieldName).map Prod.snd = metaElem.map Prod.snd := by
    rw [hmeta, Option.map_map]
    rfl
  have hundef : (metaElem.map Prod.snd).any (·.type == .undefined) = false := by
    cases he : metaElem with
    | none => rfl
    | some e => simpa using h.notUndefined e (by simp [he])
  have hcount := h.count_time
  rw [← hB] at hcount
  have hcol : colOf B tf = column (metaElem.map Prod.fst) tf 0 batch.measurements := by
    rw [hB, colOf_buildDataFields]
    rfl
  rw [hcol] at htime hcount
  have hiters (mf' : Option String) :
      ({ spec := ⟨tf, mf', [], [], false⟩, unpackerBehavior := .exclude, timeFieldIter := none,
          includeTimeField := true, includeMetaField := mf'.isSome,
          bucket := makeTimeseriesInsertDocument batch metaElem.toList, metaValue := none,
          fieldIters := [], computedMetaProjections := [], numberOfMeasurements := 0 } :
          BucketUnpacker).makeFieldIters (dataRegionOf B) =
        .ok (B.filter fun builder => builder.1 ≠ tf) :=
    makeFieldIters_dataRegionOf rfl rfl B
  rw [make_exclude, reset]
  cases mf with
  | none =>
    -- without a meta field the catalog gives no meta value
    have hnone : metaElem = none := by
      obtain ⟨doc, hdoc⟩ := List.exists_mem_of_ne_nil _ h.nonempty
      simpa using h.sameMeta doc hdoc
    subst hnone
    have hiters' := hiters none
    simp only [Option.map_none, Option.isSome_none] at hcount hiters' htime
    simp only [hnonempty, hdata, Bool.false_eq_true, if_false, embeddedObjectUserCheck, bind,
      Except.bind, pure, Except.pure, hregion, htime, hmv, Option.isSome_none, Option.map_none,
      hiters', hcount, List.map_nil]
  | some m =>
    have hiters' := hiters (some m)
    simp only [Option.isSome_some] at hiters'
    simp only [hnonempty, hdata, Bool.false_eq_true, if_false, embeddedObjectUserCheck, bind,
      Except.bind, pure, Except.pure, hregion, htime, hmv, Option.isSome_some, if_true, hundef,
      hiters', hcount, List.map_nil]

/-- The fields of `doc` that have a column among `names`, in the order of the columns. -/
def rowFields (metaFieldName : Option String) (names : List String) (doc : BSONObj) : BSONObj :=
  names.filterMap fun f => if metaFieldName = some f then none else (doc.lookup f).map (f, ·)

theorem mem_rowFields {metaFieldName : Option String} {names : List String} {doc : BSONObj}
    {f : String} {v : BSONValue} :
    (f, v) ∈ rowFields metaFieldName names doc ↔
      f ∈ names ∧ metaFieldName ≠ some f ∧ doc.lookup f = some v := by
  simp only [rowFields, List.mem_filterMap]
  constructor
  · rintro ⟨g, hg, hgv⟩
    split at hgv
    · cases hgv
    · rename_i hmeta
      obtain ⟨w, hw, hpair⟩ := Option.map_eq_some_iff.1 hgv
      cases hpair
      exact ⟨hg, hmeta, hw⟩
  · rintro ⟨hf, hmeta, hv⟩
    exact ⟨f, hf, by simp [hmeta, hv]⟩

theorem keys_rowFields_sublist (metaFieldName : Option String) (names : List String)
    (doc : BSONObj) : List.Sublist ((rowFields metaFieldName names doc).map Prod.fst) names := by
  induction names with
  | nil => simp [rowFields]
  | cons f names ih =>
    simp only [rowFields, List.filterMap_cons] at ih ⊢
    by_cases hmeta : metaFieldName = some f
    · simpa [hmeta] using ih.cons f
    · cases hv : doc.lookup f with
      | none => simpa [hmeta, hv] using ih.cons f
      | some v => simpa [hmeta, hv] using ih.cons_cons f

/-- The meta field and the fields of `doc` that have a column, in the order of the columns,
are the fields of `doc` in another order, when every other field of `doc` has a column. -/
theorem fields_perm {doc : BSONObj} (hnd : (doc.map Prod.fst).Nodup)
    {metaElem : Option (String × BSONValue)}
    (hmeta : ∀ e ∈ metaElem, doc.lookup e.1 = some e.2)
    {names : List String} (hnames : names.Nodup)
    (hcover : ∀ f ∈ doc.map Prod.fst, metaElem.map Prod.fst ≠ some f → f ∈ names) :
    (metaElem.toList ++ rowFields (metaElem.map Prod.fst) names doc).Perm doc := by
  have hrows : (rowFields (metaElem.map Prod.fst) names doc).Nodup :=
    List.Nodup.of_map Prod.fst ((keys_rowFields_sublist _ _ _).nodup hnames)
  -- the meta field has no column, so the two parts have different names
  have hnodup : (metaElem.toList ++ rowFields (metaElem.map Prod.fst) names doc).Nodup := by
    refine List.nodup_append.2 ⟨by cases metaElem <;> simp, hrows, ?_⟩
    intro a ha b hb hab
    subst hab
    cases metaElem with
    | none => simp at ha
    | some e =>
      simp only [Option.toList_some, List.mem_singleton] at ha
      subst ha
      exact (mem_rowFields.1 hb).2.1 rfl
  refine (List.perm_ext_iff_of_nodup hnodup (List.Nodup.of_map Prod.fst hnd)).2 fun ⟨f, v⟩ => ?_
  rw [← lookup_eq_some_iff hnd, List.mem_append, mem_rowFields]
  constructor
  · rintro (hm | ⟨-, -, hv⟩)
    · cases metaElem with
      | none => simp at hm
      | some e =>
        simp only [Option.toList_some, List.mem_singleton] at hm
        subst hm
        exact hmeta _ rfl
    · exact hv
  · intro hv
    by_cases hfm : metaElem.map Prod.fst = some f
    · obtain ⟨e, he, rfl⟩ := Option.map_eq_some_iff.1 hfm
      have := hmeta e (by simp [he])
      rw [hv] at this
      cases Option.some.inj this
      exact .inl (by simp [he])
    · have hmem : f ∈ doc.map Prod.fst :=
        List.mem_map.2 ⟨(f, v), (lookup_eq_some_iff hnd).1 hv, rfl⟩
      exact .inr ⟨hcover f hmem hfm, hfm, hv⟩

theorem rowFields_cons_of_lookup {metaFieldName : Option String} {f : String}
    (hmeta : metaFieldName ≠ some f) (names : List String) {doc : BSONObj} {v : BSONValue}
    (hv : doc.lookup f = some v) :
    rowFields metaFieldName (f :: names) doc = (f, v) :: rowFields metaFieldName names doc := by
  simp [rowFields, hmeta, hv]

/-- A measurement as `getNext` rebuilds it: its time, the meta value, then its other fields
in the order of the columns, holds the fields of the measurement written, in another order. -/
theorem measurement_perm {doc : BSONObj} (hnd : (doc.map Prod.fst).Nodup) {tf : String}
    {t : BSONValue} (ht : doc.lookup tf = some t) {metaElem : Option (String × BSONValue)}
    (hmeta : ∀ e ∈ metaElem, doc.lookup e.1 = some e.2 ∧ e.1 ≠ tf) {names : List String}
    (hnames : names.Nodup) (htf : tf ∉ names)
    (hcover : ∀ f ∈ doc.map Prod.fst, f ≠ tf →
      metaElem.map Prod.fst ≠ some f → f ∈ names) :
    ((tf, t) :: (metaElem.toList ++ rowFields (metaElem.map Prod.fst) names doc)).Perm doc := by
  have hmt : metaElem.map Prod.fst ≠ some tf := by
    cases metaElem with
    | none => simp
    | some e => simpa using (hmeta e rfl).2
  -- the time field is the first column of `tf :: names`
  have hmiddle : ((tf, t) :: (metaElem.toList ++ rowFields (metaElem.map Prod.fst) names doc)).Perm
      (metaElem.toList ++ (tf, t) :: rowFields (metaElem.map Prod.fst) names doc) :=
    List.perm_middle.symm
  rw [← rowFields_cons_of_lookup hmt names ht] at hmiddle
  refine hmiddle.trans (fields_perm hnd (fun e he => (hmeta e he).1)
    (List.nodup_cons.2 ⟨htf, hnames⟩) fun f hf hfm => ?_)
  by_cases hft : f = tf
  · exact hft ▸ List.mem_cons_self ..
  · exact List.mem_cons_of_mem _ (hcover f hf hft hfm)

/-- The measurement `getNext` makes of the row of `doc`, when no computed field and no row
index is asked for: the time, the meta value as `metaOf` adds it, then the row's fields. -/
def measurementOf (u : BucketUnpacker) (metaFieldName : Option String) (names : List String)
    (doc : BSONObj) : BSONObj :=
  u.metaOf (if u.includeTimeField then ((doc.lookup u.spec.timeField).map
    (u.spec.timeField, ·)).toList else []) ++ rowFields metaFieldName names doc

/-- One call of `getNext` at row `r`: the measurement of the row, and every iterator moved to
row `r + 1`. -/
theorem getNext_row {u : BucketUnpacker} (hbid : u.spec.includeBucketIdAndRowIndex = false)
    (hcomp : u.spec.computedMetaProjFields = []) {metaFieldName : Option String}
    (hmt : metaFieldName ≠ some u.spec.timeField) (names : List String) (r : Nat)
    {doc : BSONObj} (hnd : (doc.map Prod.fst).Nodup) {t : BSONValue}
    (ht : doc.lookup u.spec.timeField = some t) (docs : List BSONObj) :
    ({ u with
        timeFieldIter := some (column metaFieldName u.spec.timeField r (doc :: docs)),
        fieldIters := names.map fun f => (f, column metaFieldName f r (doc :: docs)) }).getNext =
      .ok (measurementOf u metaFieldName names doc,
        { u with
          timeFieldIter := some (column metaFieldName u.spec.timeField (r + 1) docs),
          fieldIters := names.map fun f => (f, column metaFieldName f (r + 1) docs) }) := by
  rw [getNext, column_cons_of_nodup _ _ _ hnd, if_neg hmt, ht]
  simp only [Option.map_some, Option.toList_some, List.cons_append, List.nil_append]
  rw [takeRow_columns _ hnd]
  simp [measurementOf, computedFields, metaOf, hcomp, hbid, ht]
  rfl


/-- `getNext` called once per measurement from row `r` gives back the measurements in order and
leaves every iterator at the end. -/
theorem getNextN_rows {u : BucketUnpacker} (hbid : u.spec.includeBucketIdAndRowIndex = false)
    (hcomp : u.spec.computedMetaProjFields = []) {metaFieldName : Option String}
    (hmt : metaFieldName ≠ some u.spec.timeField) (names : List String) (docs : List BSONObj)
    (hdocs : ∀ doc ∈ docs, (doc.map Prod.fst).Nodup ∧
      ∃ t, doc.lookup u.spec.timeField = some t)
    (r : Nat) :
    ({ u with
        timeFieldIter := some (column metaFieldName u.spec.timeField r docs),
        fieldIters := names.map fun f => (f, column metaFieldName f r docs) }).getNextN
        docs.length =
      .ok (docs.map (measurementOf u metaFieldName names),
        { u with timeFieldIter := some [], fieldIters := names.map fun f => (f, []) }) := by
  induction docs generalizing r with
  | nil => rfl
  | cons doc docs ih =>
    obtain ⟨hnd, t, ht⟩ := hdocs doc (by simp)
    have ih := ih (fun d hd => hdocs d (by simp [hd])) (r + 1)
    rw [List.length_cons, getNextN, getNext_row hbid hcomp hmt names r hnd ht]
    simp only [bind, Except.bind]
    rw [ih]
    rfl


/-- A field of any measurement has a non-empty column, unless it is the meta field. -/
theorem column_ne_nil {metaFieldName : Option String} {f : String} {docs : List BSONObj}
    (hdocs : ∀ doc ∈ docs, (doc.map Prod.fst).Nodup) {doc : BSONObj} (hdoc : doc ∈ docs)
    {v : BSONValue} (hv : doc.lookup f = some v) (hmeta : metaFieldName ≠ some f) (count : Nat) :
    column metaFieldName f count docs ≠ [] := by
  induction docs generalizing count with
  | nil => simp at hdoc
  | cons d docs ih =>
    rw [column_cons_of_nodup _ _ _ (hdocs d (by simp)), if_neg hmeta]
    rcases List.mem_cons.1 hdoc with rfl | hdoc
    · simp [hv]
    · have := ih (fun d' hd' => hdocs d' (by simp [hd'])) hdoc (count + 1)
      simp [this]

/-- Each builder of a batch holds the column of its field. -/
theorem column_of_mem_buildDataFields {metaFieldName : Option String} {docs : List BSONObj}
    {b : String × BSONObj} (hb : b ∈ buildDataFields metaFieldName 0 [] docs) :
    column metaFieldName b.1 0 docs = b.2 := by
  have hcol := colOf_of_mem (nodup_buildDataFields_nil metaFieldName docs) hb
  rw [colOf_buildDataFields] at hcol
  simpa [colOf] using hcol

/-- The iterators `reset` makes, as the columns of the names other than the time field. -/
theorem filter_builders {metaFieldName : Option String} (tf : String) (docs : List BSONObj) :
    (buildDataFields metaFieldName 0 [] docs).filter (fun builder => builder.1 ≠ tf) =
      (((buildDataFields metaFieldName 0 [] docs).map Prod.fst).filter (· ≠ tf)).map
        fun f => (f, column metaFieldName f 0 docs) := by
  rw [List.filter_map, List.map_map]
  conv => lhs; rw [← List.map_id (List.filter _ _)]
  refine List.map_congr_left fun b hb => ?_
  simp only [Function.comp, id]
  rw [column_of_mem_buildDataFields (List.mem_of_mem_filter hb)]

namespace UniformBatch
variable {tf : String} {mf : Option String} {metaElem : Option (String × BSONValue)}
  {docs : List BSONObj}

/-- The catalog's meta field is the collection's meta field. -/
theorem metaName_eq (h : UniformBatch tf mf metaElem docs) : ∀ e ∈ metaElem, mf = some e.1 := by
  intro e he
  obtain ⟨doc, hdoc⟩ := List.exists_mem_of_ne_nil _ h.nonempty
  have hsame := h.sameMeta doc hdoc
  cases mf with
  | none => simp [hsame] at he
  | some m =>
    simp only [Option.bind_some] at hsame
    rw [hsame] at he
    obtain ⟨w, -, rfl⟩ := Option.map_eq_some_iff.1 he
    rfl

/-- Every measurement carries the catalog's meta field, which is not the time field. -/
theorem lookup_meta (h : UniformBatch tf mf metaElem docs) {doc : BSONObj} (hdoc : doc ∈ docs) :
    ∀ e ∈ metaElem, doc.lookup e.1 = some e.2 ∧ e.1 ≠ tf := by
  intro e he
  have hsame := h.sameMeta doc hdoc
  cases mf with
  | none => simp [hsame] at he
  | some m =>
    simp only [Option.bind_some] at hsame
    rw [hsame] at he
    obtain ⟨w, hw, rfl⟩ := Option.map_eq_some_iff.1 he
    exact ⟨hw, fun hmt => h.metaNotTime (by simp only at hmt; rw [hmt])⟩

/-- Every field of a measurement but the meta field has a builder. -/
theorem mem_names (h : UniformBatch tf mf metaElem docs) {doc : BSONObj} (hdoc : doc ∈ docs)
    {f : String} (hf : f ∈ doc.map Prod.fst) (hfm : metaElem.map Prod.fst ≠ some f) :
    f ∈ (buildDataFields (metaElem.map Prod.fst) 0 [] docs).map Prod.fst := by
  obtain ⟨⟨g, v⟩, hgv, rfl⟩ := List.mem_map.1 hf
  have hne := column_ne_nil h.nodup hdoc ((lookup_eq_some_iff (h.nodup doc hdoc)).2 hgv) hfm 0
  refine mem_names_of_colOf_ne_nil ?_
  rw [colOf_buildDataFields]
  simpa [colOf] using hne

end UniformBatch

open UniformBatch in
/-- The bucket written from a uniform batch unpacks, one `getNext` per measurement, to the
batch's measurements in their order, each with the same fields and values; `reset` counts them
from the size of the time column. -/
theorem insertDocument_round_trip_uniform {tf : String} {mf : Option String}
    {metaElem : Option (String × BSONValue)} {batch : WriteBatch}
    (h : UniformBatch tf mf metaElem batch.measurements) :
    ∃ u, (make ⟨tf, mf, [], [], false⟩ .exclude).reset
        (makeTimeseriesInsertDocument batch metaElem.toList) = .ok u ∧
      u.numberOfMeasurements = batch.measurements.length ∧
      ∃ outs u', u.getNextN batch.measurements.length = .ok (outs, u') ∧ u'.hasNext = false ∧
        List.Forall₂ List.Perm outs batch.measurements := by
  set docs := batch.measurements
  set metaName := metaElem.map Prod.fst
  set B := buildDataFields metaName 0 [] docs
  set names := (B.map Prod.fst).filter (· ≠ tf)
  have hreset := reset_insertDocument h
  rw [filter_builders] at hreset
  set u0 : BucketUnpacker := ⟨⟨tf, mf, [], [], false⟩, .exclude,
      some (column metaName tf 0 docs),
      true, mf.isSome, makeTimeseriesInsertDocument batch metaElem.toList, metaElem.map Prod.snd,
      names.map (fun f => (f, column metaName f 0 docs)), [], docs.length⟩ with hu0
  refine ⟨u0, hreset, rfl, _, _, getNextN_rows (u := u0) rfl rfl h.metaName_ne names docs
    (fun doc hdoc => ⟨h.nodup doc hdoc, by
      obtain ⟨t, ht, -⟩ := h.time doc hdoc
      exact ⟨t, ht⟩⟩) 0, rfl, ?_⟩
  rw [List.forall₂_map_left_iff, List.forall₂_same]
  intro doc hdoc
  obtain ⟨t, ht, -⟩ := h.time doc hdoc
  have hnd := h.nodup doc hdoc
  have hsame := h.sameMeta doc hdoc
  -- the meta value that `metaOf` adds is the measurement's own meta field, if it has one
  have hmeasure : measurementOf u0 metaName names doc =
      (tf, t) :: (metaElem.toList ++ rowFields metaName names doc) := by
    cases mf with
    | none =>
      simp only [Option.bind_none] at hsame
      simp [hu0, measurementOf, metaOf, ht, hsame]
    | some m =>
      simp only [Option.bind_some] at hsame
      cases hm : doc.lookup m <;> simp [hu0, measurementOf, metaOf, addField, ht, hsame, hm]
  rw [hmeasure]
  refine measurement_perm hnd ht ?_ ?_ ?_ ?_
  · exact h.lookup_meta hdoc
  · exact (nodup_buildDataFields_nil metaName docs).filter _
  · simp [names]
  · intro f hf hft hfm
    exact List.mem_filter.2 ⟨h.mem_names hdoc hf hfm, by simpa using hft⟩

/-! ## Reading one row -/

/-- With nothing excluded, `rowValues` reads row `targetIdx` of every column of the region. -/
theorem rowValues_dataRegionOf {u : BucketUnpacker} (hset : u.spec.fieldSet = [])
    (hbeh : u.unpackerBehavior = .exclude) (targetIdx : String)
    (builders : List (String × BSONObj)) :
    u.rowValues targetIdx (dataRegionOf builders) =
      .ok (builders.filterMap fun builder =>
        (getField builder.2 targetIdx).map fun e => (builder.1, e.2)) := by
  induction builders with
  | nil => rfl
  | cons builder builders ih =>
    obtain ⟨name, col⟩ := builder
    have hinclude : determineIncludeField name u.unpackerBehavior u.spec = true := by
      simp [determineIncludeField, hset, hbeh]
    simp only [dataRegionOf, List.map_cons] at ih ⊢
    rw [rowValues]
    simp only [hinclude, Bool.not_true, Bool.false_eq_true, if_false, embeddedObjectUserCheck,
      bind, Except.bind, pure, Except.pure, ih, List.filterMap_cons]
    cases getField col targetIdx <;> rfl

/-- Row `j` of the data region of a batch: the fields of the `j`th measurement that have a
column, in the order of the columns. -/
theorem row_buildDataFields {metaFieldName : Option String} {docs : List BSONObj}
    (hdocs : ∀ doc ∈ docs, (doc.map Prod.fst).Nodup) {j : Nat} (hj : j < docs.length) :
    (buildDataFields metaFieldName 0 [] docs).filterMap (fun builder =>
        (getField builder.2 (toString j)).map fun e => (builder.1, e.2)) =
      rowFields metaFieldName ((buildDataFields metaFieldName 0 [] docs).map Prod.fst) docs[j] := by
  rw [rowFields, List.filterMap_map]
  refine List.filterMap_congr fun b hb => ?_
  have hrow := @getField_column metaFieldName b.1 docs hdocs 0 j hj
  rw [Nat.zero_add] at hrow
  rw [← column_of_mem_buildDataFields hb, hrow, Function.comp]
  split
  · rfl
  · cases docs[j].lookup b.1 <;> rfl

/-- The meta field `extractSingleMeasurement` puts first in a row: the catalog's, unless its
value is null. -/
theorem extract_meta {m : String} {metaElem : Option (String × BSONValue)}
    (hname : ∀ e ∈ metaElem, e.1 = m) :
    (if !((metaElem.map Prod.snd).map (·.type == .jstNULL)).getD false then
        addField [] m (metaElem.map Prod.snd)
      else []) = (metaElem.filter fun e => e.2.type != .jstNULL).toList := by
  cases metaElem with
  | none => rfl
  | some e =>
    obtain ⟨name, v⟩ := e
    obtain rfl : name = m := hname _ rfl
    by_cases hnull : v.type = .jstNULL <;> simp [hnull, addField, Option.filter]

open UniformBatch in
/-- `extractSingleMeasurement` on the bucket of a uniform batch gives back row `j` as the `j`th
measurement, with the same fields and values, exactly when the meta value is not null: a null
meta value is left out of the row, where `getNext` keeps it. -/
theorem extractSingleMeasurement_uniform {tf : String} {mf : Option String}
    {metaElem : Option (String × BSONValue)} {batch : WriteBatch}
    (h : UniformBatch tf mf metaElem batch.measurements) {j : Nat}
    (hj : j < batch.measurements.length) :
    ∃ u out, (make ⟨tf, mf, [], [], false⟩ .exclude).reset
        (makeTimeseriesInsertDocument batch metaElem.toList) = .ok u ∧
      u.extractSingleMeasurement j = .ok out ∧
      (out.Perm batch.measurements[j] ↔ ∀ e ∈ metaElem, e.2.type ≠ .jstNULL) := by
  set docs := batch.measurements
  set metaName := metaElem.map Prod.fst
  set B := buildDataFields metaName 0 [] docs
  set u0 : BucketUnpacker := ⟨⟨tf, mf, [], [], false⟩, .exclude,
      some (column metaName tf 0 docs),
      true, mf.isSome, makeTimeseriesInsertDocument batch metaElem.toList, metaElem.map Prod.snd,
      B.filter (fun builder => builder.1 ≠ tf), [], docs.length⟩ with hu0
  have hdata : getField u0.bucket kBucketDataFieldName =
      some (kBucketDataFieldName, .object (dataRegionOf B)) := by
    have hhead : metaElem.toList.head? = metaElem := by cases metaElem <;> rfl
    simpa [hu0, hhead] using getField_insertDocument_data batch metaElem.toList
  have hfields : u0.rowValues (toString j) (dataRegionOf B) =
      .ok (rowFields metaName (B.map Prod.fst) docs[j]) := by
    rw [rowValues_dataRegionOf rfl rfl, row_buildDataFields h.nodup hj]
  have hrange : (0 ≤ (j : Int) ∧ (j : Int) < u0.numberOfMeasurements) := by
    simp only [hu0]
    omega
  have hextract : u0.extractSingleMeasurement j =
      .ok ((metaElem.filter fun e => e.2.type != .jstNULL).toList ++
        rowFields metaName (B.map Prod.fst) docs[j]) := by
    rw [extractSingleMeasurement, if_neg (by simpa using hrange), Int.toNat_natCast]
    simp only [hdata, embeddedObjectUserCheck, bind, Except.bind, pure, Except.pure, hfields]
    -- which meta field the row starts with depends on the collection's meta field
    split
    · rename_i m hm
      have hname : ∀ e ∈ metaElem, e.1 = m := fun e he =>
        Option.some.inj ((h.metaName_eq e he).symm.trans hm)
      have hinc : u0.includeMetaField = true := by simp [hu0, show mf = some m from hm]
      rw [hinc, Bool.true_and, show u0.metaValue = metaElem.map Prod.snd from rfl,
        extract_meta hname]
      rfl
    · rename_i hm
      have hnone : metaElem = none := by
        cases metaElem with
        | none => rfl
        | some e => exact absurd ((h.metaName_eq e rfl).symm.trans hm) (by simp)
      rw [hnone]
      rfl
  refine ⟨u0, _, reset_insertDocument h, hextract, ?_⟩
  have hdoc : docs[j] ∈ docs := List.getElem_mem hj
  constructor
  · -- a null meta value is a field of the measurement that the row lacks
    intro hperm e he hnull
    have hfilter : metaElem.filter (fun e => e.2.type != .jstNULL) = none := by
      cases metaElem with
      | none => simp at he
      | some e' =>
        cases he
        simp [Option.filter, hnull]
    rw [hfilter, Option.toList_none, List.nil_append] at hperm
    have hin : e ∈ docs[j] :=
      (lookup_eq_some_iff (h.nodup _ hdoc)).1 (h.lookup_meta hdoc e he).1
    have := mem_rowFields.1 (hperm.mem_iff.2 hin)
    exact this.2.1 (Option.map_eq_some_iff.2 ⟨e, he, rfl⟩)
  · intro hnotNull
    have hfilter : metaElem.filter (fun e => e.2.type != .jstNULL) = metaElem := by
      cases metaElem with
      | none => rfl
      | some e => simpa [Option.filter] using hnotNull e rfl
    rw [hfilter]
    exact fields_perm (h.nodup _ hdoc) (fun e he => (h.lookup_meta hdoc e he).1)
      (nodup_buildDataFields_nil metaName docs)
      fun f hf hfm => h.mem_names hdoc hf hfm

/-! ## Batches as the catalog groups them -/

/-- A batch as the bucket catalog hands it over: as a `UniformBatch`, but the measurements' meta
values need only normalize to the bucket's meta element `metaElem`. `BucketAccess` finds an open
bucket by the normalized metadata, and `getMetadata` hands the writer the normalized one. -/
structure CatalogBatch (timeField : String) (metaField : Option String)
    (metaElem : Option (String × BSONValue)) (docs : List BSONObj) : Prop where
  nonempty : docs ≠ []
  nodup : ∀ doc ∈ docs, (doc.map Prod.fst).Nodup
  time : ∀ doc ∈ docs, ∃ t, doc.lookup timeField = some t ∧ t.type = .date
    ∧ t.valuesize = 8
  sameMeta : ∀ doc ∈ docs,
    metaElem = BucketMetadata.normalize (metaField.bind fun mf => (doc.lookup mf).map (mf, ·))
  metaNotTime : metaField ≠ some timeField
  notUndefined : ∀ e ∈ metaElem, e.2.type ≠ .undefined
  fits : docs.length ≤ 10 ^ 7

/-- A measurement with the value of its meta field normalized, as the bucket holds it for all
its measurements. -/
def withNormalizedMeta (metaField : Option String) (doc : BSONObj) : BSONObj :=
  doc.map fun elem => if metaField = some elem.1 then normalizeTopLevel elem else elem

theorem names_withNormalizedMeta (metaField : Option String) (doc : BSONObj) :
    (withNormalizedMeta metaField doc).map Prod.fst = doc.map Prod.fst := by
  rw [withNormalizedMeta, List.map_map]
  refine List.map_congr_left fun ⟨name, v⟩ _ => ?_
  by_cases h : metaField = some name <;> simp [h, normalizeTopLevel_eq]

theorem withNormalizedMeta_cons (metaField : Option String) (name : String) (v : BSONValue)
    (doc : BSONObj) :
    withNormalizedMeta metaField ((name, v) :: doc) =
      (name, if metaField = some name then normalizeValue v else v) ::
        withNormalizedMeta metaField doc := by
  by_cases h : metaField = some name <;> simp [withNormalizedMeta, h, normalizeTopLevel_eq]

theorem lookup_withNormalizedMeta (metaField : Option String) (doc : BSONObj) (f : String) :
    (withNormalizedMeta metaField doc).lookup f =
      if metaField = some f then (doc.lookup f).map normalizeValue else doc.lookup f := by
  induction doc with
  | nil => split <;> rfl
  | cons elem doc ih =>
    obtain ⟨name, v⟩ := elem
    rw [withNormalizedMeta_cons]
    by_cases hf : f = name
    · subst hf
      by_cases hm : metaField = some f <;> simp [hm]
    · have hfalse : (f == name) = false := by simpa using hf
      simp [List.lookup, hfalse, ih]

/-- The writer skips the meta field, so normalizing the meta values of measurements that hold
the bucket's meta field leaves the columns as they were. -/
theorem buildDataFields_withNormalizedMeta {metaField metaFieldName : Option String}
    {docs : List BSONObj}
    (hskip : ∀ doc ∈ docs, ∀ e ∈ doc, metaField = some e.1 → metaFieldName = some e.1)
    (count : Nat) (builders : List (String × BSONObj)) :
    buildDataFields metaFieldName count builders (docs.map (withNormalizedMeta metaField)) =
      buildDataFields metaFieldName count builders docs := by
  induction docs generalizing count builders with
  | nil => rfl
  | cons doc docs ih =>
    rw [List.map_cons, buildDataFields, buildDataFields,
      ih (fun d hd => hskip d (List.mem_cons_of_mem _ hd))]
    congr 1
    rw [withNormalizedMeta, List.foldl_map]
    refine List.foldl_ext _ _ _ fun b e he => ?_
    by_cases hm : metaField = some e.1
    · obtain ⟨name, v⟩ := e
      have hname := hskip doc List.mem_cons_self _ he hm
      simp only [if_pos hm, normalizeTopLevel_eq, hname]
      simp
    · rw [if_neg hm]

namespace CatalogBatch
variable {tf : String} {mf : Option String} {metaElem : Option (String × BSONValue)}
  {docs : List BSONObj}

/-- A measurement that holds the collection's meta field puts the catalog's meta element under
that name. -/
theorem metaName_of_mem (h : CatalogBatch tf mf metaElem docs) {doc : BSONObj}
    (hdoc : doc ∈ docs) {e : String × BSONValue} (he : e ∈ doc) (hmf : mf = some e.1) :
    metaElem.map Prod.fst = some e.1 := by
  obtain ⟨name, v⟩ := e
  have hv : doc.lookup name = some v := (lookup_eq_some_iff (h.nodup doc hdoc)).2 he
  rw [h.sameMeta doc hdoc, hmf]
  simp [hv, BucketMetadata.normalize, normalizeTopLevel_eq]

/-- With their meta values normalized, the measurements carry the bucket's meta element
itself. -/
theorem uniform (h : CatalogBatch tf mf metaElem docs) :
    UniformBatch tf mf metaElem (docs.map (withNormalizedMeta mf)) where
  nonempty := by simpa using h.nonempty
  nodup := by
    simp only [List.mem_map]
    rintro _ ⟨doc, hdoc, rfl⟩
    rw [names_withNormalizedMeta]
    exact h.nodup doc hdoc
  time := by
    simp only [List.mem_map]
    rintro _ ⟨doc, hdoc, rfl⟩
    rw [lookup_withNormalizedMeta, if_neg h.metaNotTime]
    exact h.time doc hdoc
  sameMeta := by
    simp only [List.mem_map]
    rintro _ ⟨doc, hdoc, rfl⟩
    rw [h.sameMeta doc hdoc]
    cases mf with
    | none => rfl
    | some m =>
      cases hv : doc.lookup m <;>
        simp [lookup_withNormalizedMeta, hv, BucketMetadata.normalize, normalizeTopLevel_eq]
  metaNotTime := h.metaNotTime
  notUndefined := h.notUndefined
  fits := by simpa using h.fits

/-- The bucket written from the batch is the one written from its measurements with their meta
values normalized. -/
theorem insertDocument_withNormalizedMeta (h : CatalogBatch tf mf metaElem docs)
    (batch : WriteBatch) (hdocs : batch.measurements = docs) :
    makeTimeseriesInsertDocument
        { batch with measurements := docs.map (withNormalizedMeta mf) } metaElem.toList =
      makeTimeseriesInsertDocument batch metaElem.toList := by
  have hhead : metaElem.toList.head? = metaElem := by cases metaElem <;> rfl
  have hdata : buildDataFields (metaElem.map Prod.fst) 0 [] (docs.map (withNormalizedMeta mf)) =
      buildDataFields (metaElem.map Prod.fst) 0 [] docs :=
    buildDataFields_withNormalizedMeta (fun doc hdoc e he hmf => h.metaName_of_mem hdoc he hmf) 0 []
  simp only [makeTimeseriesInsertDocument, hhead, hdocs, hdata]

end CatalogBatch

/-- The bucket written from one batch unpacks, one `getNext` per measurement, to the batch's
measurements in their order, each with the same fields and values, the meta value normalized as
the bucket holds it; `reset` counts them from the size of the time column. -/
theorem insertDocument_round_trip {tf : String} {mf : Option String}
    {metaElem : Option (String × BSONValue)} {batch : WriteBatch}
    (h : CatalogBatch tf mf metaElem batch.measurements) :
    ∃ u, (make ⟨tf, mf, [], [], false⟩ .exclude).reset
        (makeTimeseriesInsertDocument batch metaElem.toList) = .ok u ∧
      u.numberOfMeasurements = batch.measurements.length ∧
      ∃ outs u', u.getNextN batch.measurements.length = .ok (outs, u') ∧ u'.hasNext = false ∧
        List.Forall₂ List.Perm outs (batch.measurements.map (withNormalizedMeta mf)) := by
  have hround := @insertDocument_round_trip_uniform tf mf metaElem
    { batch with measurements := batch.measurements.map (withNormalizedMeta mf) } h.uniform
  rw [h.insertDocument_withNormalizedMeta batch rfl] at hround
  simpa only [List.length_map] using hround

/-- `extractSingleMeasurement` on the bucket of one batch gives back row `j` as the `j`th
measurement, its meta value normalized, with the same fields and values exactly when the meta
value is not null: a null meta value is left out of the row, where `getNext` keeps it. -/
theorem extractSingleMeasurement_round_trip {tf : String} {mf : Option String}
    {metaElem : Option (String × BSONValue)} {batch : WriteBatch}
    (h : CatalogBatch tf mf metaElem batch.measurements) {j : Nat}
    (hj : j < batch.measurements.length) :
    ∃ u out, (make ⟨tf, mf, [], [], false⟩ .exclude).reset
        (makeTimeseriesInsertDocument batch metaElem.toList) = .ok u ∧
      u.extractSingleMeasurement j = .ok out ∧
      (out.Perm (withNormalizedMeta mf batch.measurements[j]) ↔
        ∀ e ∈ metaElem, e.2.type ≠ .jstNULL) := by
  have hextract := @extractSingleMeasurement_uniform tf mf metaElem
    { batch with measurements := batch.measurements.map (withNormalizedMeta mf) } h.uniform j
    (by simpa using hj)
  rw [h.insertDocument_withNormalizedMeta batch rfl] at hextract
  simpa only [List.getElem_map] using hextract

/-- The bucket written from one batch, unpacked with nothing excluded: `reset` counts the
measurements from the size of the time column, `getNext` returns them in order, each with the
same fields and values, its meta value normalized, and `extractSingleMeasurement(j)` returns the
`j`th of them exactly when the meta value is not null. -/
theorem bucket_unpack_round_trip {tf : String} {mf : Option String}
    {metaElem : Option (String × BSONValue)} {batch : WriteBatch}
    (h : CatalogBatch tf mf metaElem batch.measurements) :
    ∃ u, (make ⟨tf, mf, [], [], false⟩ .exclude).reset
        (makeTimeseriesInsertDocument batch metaElem.toList) = .ok u ∧
      u.numberOfMeasurements = batch.measurements.length ∧
      (∃ outs u', u.getNextN batch.measurements.length = .ok (outs, u') ∧ u'.hasNext = false ∧
        List.Forall₂ List.Perm outs (batch.measurements.map (withNormalizedMeta mf))) ∧
      ∀ j (hj : j < batch.measurements.length), ∃ out, u.extractSingleMeasurement j = .ok out ∧
        (out.Perm (withNormalizedMeta mf batch.measurements[j]) ↔
          ∀ e ∈ metaElem, e.2.type ≠ .jstNULL) := by
  obtain ⟨u, hu, hcount, hnext⟩ := insertDocument_round_trip h
  refine ⟨u, hu, hcount, hnext, fun j hj => ?_⟩
  -- `reset` gives one unpacker, which both halves read
  obtain ⟨u', out, hu', hout, hiff⟩ := extractSingleMeasurement_round_trip h hj
  rw [hu, Except.ok.injEq] at hu'
  subst hu'
  exact ⟨out, hout, hiff⟩

/-- A date of `millis` milliseconds: eight bytes, low byte first. -/
def dateAt (millis : Int) : BSONValue := scalar .date (littleEndianBytes 8 millis) rfl

/-- Two measurements of a collection with time field `t` and meta field `m`, in the order a
client may send their fields. -/
def sampleBatch (m : BSONValue) : WriteBatch :=
  ⟨int32 0, [[("t", dateAt 0), ("m", m), ("x", int32 1)],
    [("m", m), ("t", dateAt 1)]], [], [], 0⟩

/-- An object meta value, and the same value with its fields in the other order. -/
def sortedMeta : BSONValue := object [("a", int32 1), ("b", int32 2)]

def reorderedMeta : BSONValue := object [("b", int32 2), ("a", int32 1)]

/-- Two measurements whose meta values differ in the order of their fields, which the catalog
puts in one bucket. -/
def reorderedMetaBatch : WriteBatch :=
  ⟨int32 0, [[("t", dateAt 0), ("m", sortedMeta), ("x", int32 1)],
    [("m", reorderedMeta), ("t", dateAt 1)]], [], [], 0⟩

theorem normalizeValue_reorderedMeta : normalizeValue reorderedMeta = sortedMeta := by
  simp [normalizeValue, normalizeFields, reorderedMeta, sortedMeta, List.mergeSort, int32]

theorem normalizeValue_sortedMeta : normalizeValue sortedMeta = sortedMeta := by
  simp [normalizeValue, normalizeFields, sortedMeta, List.mergeSort, int32]

theorem catalogBatch_reorderedMetaBatch :
    CatalogBatch "t" (some "m") (some ("m", sortedMeta)) reorderedMetaBatch.measurements where
  nonempty := by simp [reorderedMetaBatch]
  nodup := by simp [reorderedMetaBatch]
  time := by simp [reorderedMetaBatch, List.lookup, dateAt, type, valuesize]
  sameMeta := by
    simp [reorderedMetaBatch, List.lookup, BucketMetadata.normalize, normalizeTopLevel_eq,
      normalizeValue_reorderedMeta, normalizeValue_sortedMeta]
  metaNotTime := by simp
  notUndefined := by simp [sortedMeta, type]
  fits := by simp [reorderedMetaBatch]

theorem catalogBatch_sampleBatch_null :
    CatalogBatch "t" (some "m") (some ("m", null)) (sampleBatch null).measurements where
  nonempty := by simp [sampleBatch]
  nodup := by simp [sampleBatch]
  time := by simp [sampleBatch, List.lookup, dateAt, type, valuesize]
  sameMeta := by
    simp [sampleBatch, List.lookup, BucketMetadata.normalize, normalizeTopLevel, null]
  metaNotTime := by simp
  notUndefined := by decide
  fits := by simp [sampleBatch]

/-- A batch whose meta objects differ in field order comes back with the normalized meta value,
and on a batch whose meta value is null `extractSingleMeasurement(0)` misses the meta field. -/
theorem bucket_unpack_round_trip_null_meta :
    CatalogBatch "t" (some "m") (some ("m", sortedMeta)) reorderedMetaBatch.measurements ∧
    (∃ u, (make ⟨"t", some "m", [], [], false⟩ .exclude).reset
        (makeTimeseriesInsertDocument reorderedMetaBatch [("m", sortedMeta)]) = .ok u ∧
      ∃ outs u', u.getNextN 2 = .ok (outs, u') ∧ u'.hasNext = false ∧
        List.Forall₂ List.Perm outs
          (reorderedMetaBatch.measurements.map (withNormalizedMeta (some "m")))) ∧
    CatalogBatch "t" (some "m") (some ("m", null)) (sampleBatch null).measurements ∧
    ∃ u, (make ⟨"t", some "m", [], [], false⟩ .exclude).reset
        (makeTimeseriesInsertDocument (sampleBatch null) [("m", null)]) = .ok u ∧
      ∃ out, u.extractSingleMeasurement 0 = .ok out ∧
        ¬ out.Perm (withNormalizedMeta (some "m") (sampleBatch null).measurements[0]) := by
  obtain ⟨u, hu, -, hnext, -⟩ := bucket_unpack_round_trip catalogBatch_reorderedMetaBatch
  obtain ⟨v, hv, -, -, hextract⟩ := bucket_unpack_round_trip catalogBatch_sampleBatch_null
  obtain ⟨out, hout, hiff⟩ := hextract 0 (by simp [sampleBatch])
  refine ⟨catalogBatch_reorderedMetaBatch, ⟨u, hu, hnext⟩, catalogBatch_sampleBatch_null,
    v, hv, out, hout, fun hperm => ?_⟩
  -- the meta value is null, so the row is not the measurement
  exact hiff.mp hperm ("m", null) rfl (by decide)

end mongo.timeseries
