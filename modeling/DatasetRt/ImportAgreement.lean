import DatasetRt.TableRows

/-! # All importers read the same table

`extract_metadata_arrow` walks the positions of a view through the offsets of its batches, `extract_metadata_ipc`
walks the batches of a file, and both check columns and cells on the way.  `importRows` is what they have in common:
the import of a list of rows under a schema.  Each importer gives what `importRows` gives for the rows it is shown
(`imported_extractMetadataArrow`, `imported_extractMetadataIpc`), so a view and the gathered table, a table and its
file, and any two ways to cut the same rows into batches agree (`importers_agree`).  Which error is reported may
differ. -/

namespace DatasetRt

/-- The population that an import gives, if it succeeds. -/
def imported : CacheResult ActiveMetadataTable → Option (List ℕ × List Float)
  | .ok active => some (active.physicalIndices, active.weights)
  | .error _ => none

/-- The import of rows. -/
def importRows (pop : Population) (schema : List Field) (rows : List TableRow) : Option (List ℕ × List Float) :=
  if rows.isEmpty then none
  else
    match rows.mapM (readRow pop schema) with
    | .error _ => none
    | .ok updates =>
        match validateWeights (updates.map Prod.snd) rows.length with
        | .error _ => none
        | .ok () => some (updates.map Prod.fst, updates.map Prod.snd)

/-! ### Loops over rows -/

theorem mapM_range_eq {α β : Type} {g : α → CacheResult β} : ∀ {l : List α} {f : ℕ → CacheResult β},
    (∀ (i : ℕ) (hi : i < l.length), f i = g l[i]) → (List.range l.length).mapM f = l.mapM g
  | [], f, _ => rfl
  | a :: l, f, h => by
      have htail : (List.range l.length).mapM (fun i => f (i + 1)) = l.mapM g :=
        mapM_range_eq fun i hi => h (i + 1) (Nat.succ_lt_succ hi)
      have hhead : f 0 = g a := h 0 (Nat.succ_pos _)
      rw [List.length_cons, List.range_succ_eq_map, List.mapM_cons, List.mapM_map, List.mapM_cons, hhead]
      exact congrArg (fun rest => (g a >>= fun b => rest >>= fun bs => pure (b :: bs))) htail

theorem importRows_rejected {pop : Population} {schema : List Field} {rows : List TableRow}
    (h : ∀ row ∈ rows, ∃ error, readRow pop schema row = .error error) : importRows pop schema rows = none := by
  cases rows with
  | nil => rfl
  | cons row rest =>
      obtain ⟨error, herror⟩ := h row List.mem_cons_self
      rw [importRows, if_neg (by simp), List.mapM_cons, herror]
      rfl

theorem mem_tableRows {batches : List RecordBatch} {row : TableRow} (h : row ∈ tableRows batches) :
    ∃ batch ∈ batches, ∃ r < batch.numRows, row = batch.rowAt r := by
  obtain ⟨batch, hbatch, hrow⟩ := List.mem_flatMap.mp h
  obtain ⟨r, hr, rfl⟩ := List.mem_map.mp hrow
  exact ⟨batch, hbatch, r, List.mem_range.mp hr, rfl⟩

section importers

variable {pop : Population} {schema : List Field} {batches : List RecordBatch}

theorem readRow_rejected_of_mem (hbatches : ∀ batch ∈ batches, batch.WellFormed ∧ batch.schema = schema)
    (hrejects : ¬ AcceptsColumns pop schema) {row : TableRow} (hrow : row ∈ tableRows batches) :
    ∃ error, readRow pop schema row = .error error := by
  obtain ⟨batch, hbatch, r, -, rfl⟩ := mem_tableRows hrow
  obtain ⟨hwell, rfl⟩ := hbatches batch hbatch
  exact readRow_rejected hwell hrejects r

/-! ### Views -/

theorem ArrowMetadata.Valid.mem_viewRows {table : ArrowMetadata} (h : table.Valid) {row : TableRow}
    (hrow : row ∈ table.viewRows) : row ∈ tableRows table.batches := by
  obtain ⟨position, hp, rfl⟩ := List.getElem_of_mem hrow
  have hlt : position < table.len := by
    rw [← h.length_viewRows]
    exact hp
  have hget := h.getElem?_viewRows hlt
  rw [List.getElem?_eq_getElem hp] at hget
  exact List.mem_of_getElem? hget.symm

/-- The importer of views imports the rows of the view. -/
theorem imported_extractMetadataArrow {table : ArrowMetadata} (h : table.Valid)
    (hschema : ∀ batch ∈ table.batches, batch.schema = table.schema) (pop : Population) :
    imported (extractMetadataArrow pop table) = importRows pop table.schema table.viewRows := by
  have hlen := h.length_viewRows
  unfold extractMetadataArrow
  by_cases hempty : table.len = 0
  · have hnil : table.viewRows = [] := List.eq_nil_of_length_eq_zero (hlen.trans hempty)
    rw [validateActiveMetadata, if_pos hempty, hnil]
    rfl
  · rw [validateActiveMetadata, if_neg hempty]
    have hne : ¬ table.viewRows.isEmpty = true := by
      rw [List.isEmpty_iff, ← List.length_eq_zero_iff, hlen]
      exact hempty
    cases hcolumns : table.batches.mapM (checkedColumns pop) with
    | error error =>
        have hrejects : ¬ AcceptsColumns pop table.schema := by
          intro haccepts
          obtain ⟨columns, hok⟩ : ∃ columns, table.batches.mapM (checkedColumns pop) = .ok columns := by
            refine mapM_ok_of_forall fun batch hbatch => (checkedColumns_iff (h.batches batch hbatch) pop).mpr ?_
            rw [hschema batch hbatch]
            exact haccepts
          rw [hcolumns] at hok
          cases hok
        rw [importRows_rejected fun row hrow => readRow_rejected_of_mem
          (fun batch hbatch => ⟨h.batches batch hbatch, hschema batch hbatch⟩) hrejects (h.mem_viewRows hrow)]
        rfl
    | ok columns =>
        have hread : (List.range table.len).mapM (readPosition pop table columns) =
            table.viewRows.mapM (readRow pop table.schema) := by
          rw [← hlen]
          refine mapM_range_eq fun position hp => ?_
          obtain ⟨b, r, batch, hbatch, hr, -, hlocation, hrow⟩ := h.location (hlen ▸ hp)
          rw [List.getElem?_eq_getElem hp, Option.some.injEq] at hrow
          obtain ⟨hcount, hall⟩ := mapM_eq_ok_iff_getElem.mp hcolumns
          obtain ⟨hlt, rfl⟩ := List.getElem?_eq_some_iff.mp hbatch
          have hmem := List.getElem_mem hlt
          rw [hrow, ← hschema _ hmem, ← readUpdate_rowAt (h.batches _ hmem) (hall b hlt (by omega)) hr]
          simp only [readPosition, hlocation, bind, Except.bind, List.getElem?_eq_getElem (hcount ▸ hlt), okOr]
        simp only [bind, Except.bind, hread]
        rw [importRows, if_neg hne, hlen]
        cases table.viewRows.mapM (readRow pop table.schema) with
        | error error => rfl
        | ok updates =>
            simp only
            cases validateWeights (updates.map Prod.snd) table.len <;> rfl

/-! ### Files -/

theorem applyMetadataBatch_eq {batch : RecordBatch} (h : batch.WellFormed) (haccepts : AcceptsColumns pop batch.schema) :
    applyMetadataBatch pop batch = batch.rows.mapM (readRow pop batch.schema) := by
  obtain ⟨columns, hcolumns⟩ := (checkedColumns_iff h pop).mpr haccepts
  have hloop : (List.range batch.numRows).mapM (readUpdate pop columns) =
      batch.rows.mapM (readRow pop batch.schema) := by
    rw [← batch.length_rows]
    refine mapM_range_eq fun row hrow => ?_
    rw [readUpdate_rowAt h hcolumns (batch.length_rows ▸ hrow), RecordBatch.getElem_rows hrow]
  rw [← hloop]
  obtain ⟨⟨⟩, hvalid, hids⟩ := bind_eq_ok hcolumns
  simp only [applyMetadataBatch, hvalid, hids, bind, Except.bind]

theorem applyMetadataBatches_eq (haccepts : AcceptsColumns pop schema) : ∀ (batches : List RecordBatch) (count : ℕ),
    (∀ batch ∈ batches, batch.WellFormed ∧ batch.schema = schema) →
    count + (batches.map RecordBatch.numRows).sum < wordSize →
    applyMetadataBatches pop count batches = ((tableRows batches).mapM (readRow pop schema)).map fun updates =>
      (count + (batches.map RecordBatch.numRows).sum, updates)
  | [], count, _, _ => rfl
  | batch :: rest, count, hbatches, hcount => by
      obtain ⟨hwell, hschema⟩ := hbatches batch List.mem_cons_self
      rw [List.map_cons, List.sum_cons] at hcount ⊢
      have hadd : checkedAdd count batch.numRows = some (count + batch.numRows) :=
        checkedAdd_eq_some.mpr ⟨by omega, rfl⟩
      have hbatch : applyMetadataBatch pop batch = batch.rows.mapM (readRow pop schema) := by
        rw [applyMetadataBatch_eq hwell (hschema ▸ haccepts), hschema]
      have hrest := applyMetadataBatches_eq haccepts rest (count + batch.numRows)
        (fun other hother => hbatches other (List.mem_cons_of_mem _ hother)) (by omega)
      rw [tableRows, List.flatMap_cons, List.mapM_append]
      simp only [applyMetadataBatches, hadd, okOr, bind, Except.bind, hbatch, hrest, tableRows]
      cases batch.rows.mapM (readRow pop schema) with
      | error error => rfl
      | ok updates =>
          simp only [Nat.add_assoc]
          cases (rest.flatMap RecordBatch.rows).mapM (readRow pop schema) <;> rfl

theorem applyMetadataBatches_rejected (hrejects : ¬ AcceptsColumns pop schema) {batch : RecordBatch}
    (h : batch.WellFormed) (hschema : batch.schema = schema) (rest : List RecordBatch) (count : ℕ) :
    ∃ error, applyMetadataBatches pop count (batch :: rest) = .error error := by
  have hbatch : ∃ error, applyMetadataBatch pop batch = .error error := by
    cases happly : applyMetadataBatch pop batch with
    | error error => exact ⟨error, rfl⟩
    | ok updates =>
        obtain ⟨⟨⟩, hvalid, happly⟩ := bind_eq_ok happly
        obtain ⟨columns, hids, -⟩ := bind_eq_ok happly
        have hcolumns : checkedColumns pop batch = .ok columns := by
          simp only [checkedColumns, hvalid, hids, bind, Except.bind]
        exact absurd ((checkedColumns_iff h pop).mp ⟨columns, hcolumns⟩) (hschema ▸ hrejects)
  obtain ⟨error, herror⟩ := hbatch
  simp only [applyMetadataBatches, herror, bind, Except.bind]
  cases okOr (checkedAdd count batch.numRows)
    (CacheError.invalidInput "samples metadata row count overflowed usize") <;> exact ⟨_, rfl⟩

/-- The importer of files imports the rows of the file. -/
theorem imported_extractMetadataIpc {A : ArrowLib} {ipc : Bytes} (hread : A.readFile ipc = .ok (schema, batches))
    (hbatches : ∀ batch ∈ batches, batch.WellFormed ∧ batch.schema = schema)
    (hcount : (tableRows batches).length < wordSize) (pop : Population) :
    imported (extractMetadataIpc A pop ipc) = importRows pop schema (tableRows batches) := by
  by_cases haccepts : AcceptsColumns pop schema
  · have hrows := length_tableRows batches
    have happly := applyMetadataBatches_eq haccepts batches 0 hbatches (by rw [Nat.zero_add, ← hrows]; exact hcount)
    rw [Nat.zero_add, ← hrows] at happly
    obtain ⟨table, htable⟩ := ArrowMetadata.exists_new schema hcount
    simp only [extractMetadataIpc, hread, arrowResult, bind, Except.bind, happly]
    rw [importRows]
    cases hupdates : (tableRows batches).mapM (readRow pop schema) with
    | error error =>
        simp only [Except.map]
        split_ifs <;> rfl
    | ok updates =>
        simp only [Except.map, htable]
        by_cases hempty : (tableRows batches).length = 0
        · rw [validateActiveMetadata, if_pos hempty, if_pos (by rw [List.isEmpty_iff_length_eq_zero]; exact hempty)]
          rfl
        · rw [validateActiveMetadata, if_neg hempty, if_neg (by rw [List.isEmpty_iff_length_eq_zero]; exact hempty)]
          simp only
          cases validateWeights (updates.map Prod.snd) (tableRows batches).length <;> rfl
  · rw [importRows_rejected fun row hrow => readRow_rejected_of_mem hbatches haccepts hrow]
    simp only [extractMetadataIpc, hread, arrowResult, bind, Except.bind]
    cases batches with
    | nil => rfl
    | cons batch rest =>
        obtain ⟨hwell, hschema⟩ := hbatches batch List.mem_cons_self
        obtain ⟨error, herror⟩ := applyMetadataBatches_rejected haccepts hwell hschema rest 0
        rw [herror]
        rfl

/-- **All importers agree.**  For every table of batches with one schema, empty ones included: a view of it is imported
as the table with the selected rows gathered is, whatever batches that has; the same rows in other batches, and a
file of them, are imported as the table is.  Importing succeeds for both or for none, with the same physical indices
and weights. -/
theorem importers_agree {A : ArrowLib} (hA : A.Lawful) (pop : Population)
    (hbatches : ∀ batch ∈ batches, batch.WellFormed ∧ batch.schema = schema) {table : ArrowMetadata}
    (htable : ArrowMetadata.new schema batches = .ok table) :
    (∀ (selection : UInt64Array) view, table.select selection = .ok view →
      ∀ gathered gatheredTable, (∀ batch ∈ gathered, batch.WellFormed ∧ batch.schema = schema) →
        ArrowMetadata.new schema gathered = .ok gatheredTable →
        tableRows gathered = selection.1.map (fun row => (tableRows batches).getD (row.getD 0).toNat []) →
        imported (extractMetadataArrow pop view) = imported (extractMetadataArrow pop gatheredTable)) ∧
    ∀ split splitTable, (∀ batch ∈ split, batch.WellFormed ∧ batch.schema = schema) →
      ArrowMetadata.new schema split = .ok splitTable → tableRows split = tableRows batches →
      imported (extractMetadataArrow pop splitTable) = imported (extractMetadataArrow pop table) ∧
        ∀ ipc, A.writeFile schema split = .ok ipc →
          imported (extractMetadataIpc A pop ipc) = imported (extractMetadataArrow pop table) := by
  have hwhole : ∀ {batches : List RecordBatch} {table : ArrowMetadata},
      (∀ batch ∈ batches, batch.WellFormed ∧ batch.schema = schema) → ArrowMetadata.new schema batches = .ok table →
      imported (extractMetadataArrow pop table) = importRows pop schema (tableRows batches) := by
    intro batches table hbatches htable
    obtain ⟨hvalid, hrows⟩ := ArrowMetadata.valid_new htable fun batch hbatch => (hbatches batch hbatch).1
    obtain ⟨hschema, heq⟩ := ArrowMetadata.fields_new htable
    rw [← hrows, ← hschema]
    refine imported_extractMetadataArrow hvalid (fun batch hbatch => ?_) pop
    rw [hschema]
    exact (hbatches batch (heq ▸ hbatch)).2
  constructor
  · intro selection view hview gathered gatheredTable hgathered hnew hrows
    obtain ⟨hvalid, -⟩ := ArrowMetadata.valid_new htable fun batch hbatch => (hbatches batch hbatch).1
    obtain ⟨hschema, heq⟩ := ArrowMetadata.fields_new htable
    obtain ⟨hviewValid, hviewRows⟩ := ArrowMetadata.valid_select hview hvalid
    obtain ⟨hviewSchema, hviewBatches⟩ := ArrowMetadata.fields_select hview
    rw [hwhole hgathered hnew, hrows, ← heq, ← hviewRows, ← hschema, ← hviewSchema]
    refine imported_extractMetadataArrow hviewValid (fun batch hbatch => ?_) pop
    rw [hviewSchema, hschema]
    exact (hbatches batch (heq ▸ hviewBatches ▸ hbatch)).2
  · intro split splitTable hsplit hnew hrows
    refine ⟨by rw [hwhole hsplit hnew, hwhole hbatches htable, hrows], fun ipc hwrite => ?_⟩
    obtain ⟨hvalid, -⟩ := ArrowMetadata.valid_new hnew fun batch hbatch => (hsplit batch hbatch).1
    have hcount := hvalid.length_lt
    rw [(ArrowMetadata.fields_new hnew).2] at hcount
    rw [imported_extractMetadataIpc (hA _ _ _ hwrite) hsplit hcount, hwhole hbatches htable, hrows]

end importers

namespace TwoRows

def schema : List Field :=
  [⟨"cache_id", .uint64, false⟩, ⟨"sample_id", .uint64, false⟩, ⟨"weight", .float64, true⟩]

/-- Rows of the two samples of cache 7; the first one has no weight. -/
def batch : RecordBatch where
  schema
  columns := [.ofValues .uint64 [(7 : UInt64), (7 : UInt64), (7 : UInt64)],
    .ofValues .uint64 [(0 : UInt64), (1 : UInt64), (0 : UInt64)],
    ⟨.float64, [none, some (2.0 : Float), some (0.5 : Float)]⟩]
  numRows := 3

theorem wellFormed_batch : batch.WellFormed := by
  refine ⟨rfl, ?_⟩
  simp only [batch, List.forall_mem_cons, List.not_mem_nil, false_implies, implies_true, and_true]
  exact ⟨rfl, rfl, rfl⟩

/-- The rows with weights. -/
def selection : UInt64Array := ⟨[some 1, some 2], by decide⟩

open Classical in
/-- An Arrow library on one file, that of the two rows; a byte stands for its content. -/
noncomputable def arrow : ArrowLib where
  writeFile fields batches :=
    if fields = schema ∧ batches = [batch.gather [1, 2]] then .ok [1] else .error "unexpected batches"
  readFile bytes := if bytes = [1] then .ok (schema, [batch.gather [1, 2]]) else .error "unexpected file"

theorem lawful_arrow : arrow.Lawful := by
  intro fields batches bytes h
  simp only [arrow] at h ⊢
  split_ifs at h with hknown
  cases h
  obtain ⟨rfl, rfl⟩ := hknown
  exact if_pos rfl

theorem uniform_gathered (rows : List ℕ) : ∀ b ∈ [batch.gather rows], b.WellFormed ∧ b.schema = schema := by
  intro b hb
  rw [List.mem_singleton.mp hb]
  exact ⟨RecordBatch.wellFormed_gather wellFormed_batch _, rfl⟩

theorem uniform_batches : ∀ b ∈ [batch, emptyBatch schema], b.WellFormed ∧ b.schema = schema := by
  intro b hb
  rcases List.mem_cons.mp hb with rfl | hb
  · exact ⟨wellFormed_batch, rfl⟩
  · rw [List.mem_singleton.mp hb]
    exact ⟨⟨rfl, by simp [emptyBatch, schema, Column.len]⟩, rfl⟩

end TwoRows

open TwoRows Dataset in
/-- The view leaves the row without a weight out, and one batch is empty; the file has the same rows, each of which is
in a batch of its own in the last table. -/
theorem importers_agree_two_rows : ∃ table view gatheredTable splitTable ipc,
    ArrowMetadata.new schema [batch, emptyBatch schema] = .ok table ∧ table.select selection = .ok view ∧
      ArrowMetadata.new schema [batch.gather [1, 2]] = .ok gatheredTable ∧
      ArrowMetadata.new schema [batch.gather [1], batch.gather [2]] = .ok splitTable ∧
      arrow.writeFile schema [batch.gather [1, 2]] = .ok ipc ∧
      imported (extractMetadataArrow OneRow.dataset.pop view) = some ([1, 0], [2.0, 0.5]) ∧
      imported (extractMetadataArrow OneRow.dataset.pop view) =
        imported (extractMetadataArrow OneRow.dataset.pop gatheredTable) ∧
      imported (extractMetadataArrow OneRow.dataset.pop gatheredTable) =
        imported (extractMetadataArrow OneRow.dataset.pop splitTable) ∧
      imported (extractMetadataIpc arrow OneRow.dataset.pop ipc) =
        imported (extractMetadataArrow OneRow.dataset.pop splitTable) := by
  have hsplit : ∀ b ∈ [batch.gather [1], batch.gather [2]], b.WellFormed ∧ b.schema = schema := by
    intro b hb
    rcases List.mem_cons.mp hb with rfl | hb
    · exact uniform_gathered [1] _ (List.mem_singleton_self _)
    · exact uniform_gathered [2] _ hb
  have hrows : tableRows [batch.gather [1, 2]] = tableRows [batch.gather [1], batch.gather [2]] := by
    simp only [tableRows, List.flatMap_cons, List.flatMap_nil, RecordBatch.rows_gather, List.map_cons, List.map_nil,
      List.append_nil, List.singleton_append]
  have hselected : tableRows [batch.gather [1, 2]] =
      selection.1.map (fun row => (tableRows [batch, emptyBatch schema]).getD (row.getD 0).toNat []) := by
    have htable : tableRows [batch, emptyBatch schema] = [batch.rowAt 0, batch.rowAt 1, batch.rowAt 2] := rfl
    rw [htable, tableRows, List.flatMap_cons, RecordBatch.rows_gather]
    rfl
  have hwrites : arrow.writeFile schema [batch.gather [1, 2]] = .ok [1] := if_pos ⟨rfl, rfl⟩
  obtain ⟨table, htable⟩ : ∃ table, ArrowMetadata.new schema [batch, emptyBatch schema] = .ok table := ⟨_, rfl⟩
  obtain ⟨view, hview⟩ : ∃ view, table.select selection = .ok view := by
    cases htable
    exact ⟨_, rfl⟩
  obtain ⟨gatheredTable, hgathered⟩ : ∃ table, ArrowMetadata.new schema [batch.gather [1, 2]] = .ok table := ⟨_, rfl⟩
  obtain ⟨splitTable, hnew⟩ : ∃ table, ArrowMetadata.new schema [batch.gather [1], batch.gather [2]] = .ok table :=
    ⟨_, rfl⟩
  have hsame := (importers_agree lawful_arrow OneRow.dataset.pop uniform_batches htable).1 selection view hview _ _
    (uniform_gathered [1, 2]) hgathered hselected
  obtain ⟨hwhole, hfile⟩ := (importers_agree lawful_arrow OneRow.dataset.pop hsplit hnew).2 _ _
    (uniform_gathered [1, 2]) hgathered hrows
  refine ⟨table, view, gatheredTable, splitTable, [1], htable, hview, hgathered, hnew, hwrites, ?_, hsame, hwhole,
    hfile _ hwrites⟩
  cases htable
  cases hview
  rfl

end DatasetRt
