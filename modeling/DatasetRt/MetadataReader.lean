import DatasetRt.ImportAgreement

/-! # Exporting a table

`MetadataReader` (`arrow_metadata.rs`) cuts the rows of a table or view into batches of at most `METADATA_BATCH_ROWS`:
slices of the batches of a whole table, gathered runs of the rows of a view.  `readerNext` is one call of it and
`readerItems` a loop over it, which is still running when the allowed calls are used up.

One call yields the next rows of the view and moves past them (`readerNext_spec`); so the loop ends after at most one
call for each row and one more, and its batches are the rows of the view (`readerItems_spec`).  Hence the file that
`export_metadata_arrow` writes is imported as the table it was written from, after every history of operations
(`export_preserves`). -/

namespace DatasetRt

namespace ArrowMetadata

/-! ### The reader -/

/-- The batch of a position and the row in it.  A reference into `batches` is an index and the batch there. -/
def row (table : ArrowMetadata) (position : ℕ) : CacheResult (ℕ × RecordBatch × ℕ) := do
  let (batchIndex, row) ← table.location position
  let batch ← okOr table.batches[batchIndex]? .workerFailed
  .ok (batchIndex, batch, row)

/-- The position that `shared_batch` leaves, and the slice. -/
def sharedBatch (table : ArrowMetadata) (position : ℕ) : CacheResult (ℕ × RecordBatch) := do
  let (_, batch, row) ← table.row position
  let len := min (batch.numRows - row) metadataBatchRows
  .ok (position + len, batch.slice row len)

/-- The `while` of `selected_batch`, with room for so many more rows: where it stops, and the rows. -/
def selectedRun (table : ArrowMetadata) (batchIndex : ℕ) : ℕ → ℕ → CacheResult (ℕ × List ℕ)
  | 0, stop => .ok (stop, [])
  | room + 1, stop =>
      if table.len ≤ stop then .ok (stop, [])
      else do
        let (nextIndex, _, row) ← table.row stop
        -- `ptr::eq` of the two batches
        if nextIndex ≠ batchIndex then .ok (stop, [])
        else
          let (stop, rows) ← selectedRun table batchIndex room (stop + 1)
          .ok (stop, row :: rows)

/-- The position that `selected_batch` leaves, and the gathered run. -/
def selectedBatch (table : ArrowMetadata) (position : ℕ) : CacheResult (ℕ × RecordBatch) := do
  let (batchIndex, batch, firstRow) ← table.row position
  let (stop, rows) ← table.selectedRun batchIndex (metadataBatchRows - 1) (position + 1)
  .ok (stop, batch.gather (firstRow :: rows))

/-- `MetadataReader::next`: the position it leaves and the item.  After an error there are no more items. -/
def readerNext (table : ArrowMetadata) (position : ℕ) : Option (ℕ × CacheResult RecordBatch) :=
  if table.len ≤ position then none
  else
    match if table.selection.isNone then table.sharedBatch position else table.selectedBatch position with
    | .ok (stop, batch) => some (stop, .ok batch)
    | .error error => some (table.len, .error error)

/-- The items of a loop over the reader; `none` if it is still running after so many calls of `next`. -/
def readerItems (table : ArrowMetadata) : ℕ → ℕ → Option (List (CacheResult RecordBatch))
  | 0, _ => none
  | calls + 1, position =>
      match table.readerNext position with
      | none => some []
      | some (stop, item) => (readerItems table calls stop).map (item :: ·)

end ArrowMetadata

/-! ### Files -/

/-- A new file with the given content, in a directory that is there.  What a failed export leaves of its file is not
looked at. -/
def createFile (path : Path) (content : CacheResult Bytes) (fs : FileTree) : CacheResult FileTree :=
  if fs path.dropLast ≠ some .dir then .error (.io "No such file or directory (os error 2)")
  else if fs.pathExists path then .error (.io "File exists (os error 17)")
  else content.map fun bytes => fs.write path bytes

/-- `write_file`, with so many calls of `next`. -/
def ArrowMetadata.writeFile (A : ArrowLib) (table : ArrowMetadata) (calls : ℕ) (path : Path) (fs : FileTree) :
    Option (CacheResult FileTree) :=
  (table.readerItems calls 0).map fun items =>
    createFile path (items.mapM id >>= fun batches => arrowResult (A.writeFile table.schema batches)) fs

section export_

-- The iterator of `LoadedCache::metadata_batches`.
variable (metadataBatches : LoadedCache → CacheResult (List (CacheResult RecordBatch)))

def writeSamplesMetadataFile (A : ArrowLib) (pop : Population) (path : Path) (fs : FileTree) : CacheResult FileTree :=
  createFile path (visitSamplesMetadata metadataBatches pop >>= fun batches =>
    arrowResult (A.writeFile (samplesMetadataFields pop.schema) batches)) fs

/-- `export_metadata_arrow`: the files after it and the row count. -/
def Dataset.exportMetadataArrow (A : ArrowLib) (d : Dataset) (s : MutableDatasetState) (calls : ℕ) (path : Path)
    (fs : FileTree) : Option (CacheResult (FileTree × ℕ)) :=
  match s.active with
  | .full => some ((writeSamplesMetadataFile metadataBatches A d.pop path fs).map fun fs => (fs, d.totalSamples))
  | .table active => (active.metadata.writeFile A calls path fs).map fun written =>
      written.map fun fs => (fs, active.metadata.len)

end export_

/-! ### One call -/

theorem drop_tableRows : ∀ {batches : List RecordBatch} {b r : ℕ} {batch : RecordBatch},
    batches[b]? = some batch → r ≤ batch.numRows →
    (tableRows batches).drop (((batches.map RecordBatch.numRows).take b).sum + r) =
      batch.rows.drop r ++ tableRows (batches.drop (b + 1))
  | first :: rest, 0, r, batch, hb, hr => by
      obtain rfl : first = batch := by simpa using hb
      rw [List.take_zero, List.sum_nil, Nat.zero_add, tableRows, List.flatMap_cons,
        List.drop_append_of_le_length (by rw [first.length_rows]; exact hr)]
      rfl
  | first :: rest, b + 1, r, batch, hb, hr => by
      have hrest : (tableRows rest).drop (((rest.map RecordBatch.numRows).take b).sum + r) =
          batch.rows.drop r ++ tableRows (rest.drop (b + 1)) := drop_tableRows (by simpa using hb) hr
      rw [List.map_cons, List.take_succ_cons, List.sum_cons, Nat.add_assoc, tableRows, List.flatMap_cons,
        List.drop_append, first.length_rows, Nat.add_sub_cancel_left, List.drop_eq_nil_of_le
          (by rw [first.length_rows]; exact Nat.le_add_right _ _), List.nil_append]
      exact hrest

namespace ArrowMetadata

variable {table : ArrowMetadata}

/-- A batch that shows the rows of the view from a position on, up to `stop`. -/
structure Yields (table : ArrowMetadata) (position stop : ℕ) (batch : RecordBatch) : Prop where
  wellFormed : batch.WellFormed
  schema : ∃ source ∈ table.batches, batch.schema = source.schema
  rows : batch.rows = (table.viewRows.drop position).take batch.numRows
  stop : stop = position + batch.numRows
  pos : 1 ≤ batch.numRows
  le : batch.numRows ≤ metadataBatchRows

theorem Valid.row (h : table.Valid) {position : ℕ} (hp : position < table.len) :
    ∃ (b r : ℕ) (batch : RecordBatch), table.batches[b]? = some batch ∧ r < batch.numRows ∧
      table.selectedRow position = ((table.batches.map RecordBatch.numRows).take b).sum + r ∧
      table.row position = .ok (b, batch, r) ∧ table.viewRows[position]? = some (batch.rowAt r) := by
  obtain ⟨b, r, batch, hb, hr, hselected, hlocation, hview⟩ := h.location hp
  refine ⟨b, r, batch, hb, hr, hselected, ?_, hview⟩
  simp only [ArrowMetadata.row, hlocation, hb, okOr, bind, Except.bind]

theorem sharedBatch_spec (h : table.Valid) (hnone : table.selection = none) {position : ℕ}
    (hp : position < table.len) : ∃ stop batch, table.sharedBatch position = .ok (stop, batch) ∧
      table.Yields position stop batch := by
  obtain ⟨b, r, batch, hb, hr, hselected, hrow, -⟩ := h.row hp
  have hmem := List.mem_of_getElem? hb
  have hposition : position = ((table.batches.map RecordBatch.numRows).take b).sum + r := by
    rw [← hselected, selectedRow, hnone]
  have hview : table.viewRows = tableRows table.batches := by rw [viewRows, hnone]
  have hrows : metadataBatchRows = 65536 := rfl
  have hfits : r + min (batch.numRows - r) metadataBatchRows ≤ batch.numRows := by omega
  refine ⟨position + min (batch.numRows - r) metadataBatchRows,
    batch.slice r (min (batch.numRows - r) metadataBatchRows), ?_, ?_⟩
  · simp only [sharedBatch, hrow, bind, Except.bind]
  · refine ⟨RecordBatch.wellFormed_slice (h.batches batch hmem) hfits, ⟨batch, hmem, rfl⟩, ?_, rfl, ?_, ?_⟩
    · rw [RecordBatch.rows_slice batch hfits, hview, hposition, drop_tableRows hb hr.le,
        List.take_append_of_le_length]
      · rfl
      · rw [List.length_drop, batch.length_rows]
        exact Nat.min_le_left _ _
    · show 1 ≤ min (batch.numRows - r) metadataBatchRows
      omega
    · exact Nat.min_le_right _ _

/-- The loop collects rows of one batch that the view shows in a row. -/
theorem selectedRun_spec (h : table.Valid) {b : ℕ} {batch : RecordBatch} (hb : table.batches[b]? = some batch) :
    ∀ (room position : ℕ), ∃ rows, table.selectedRun b room position = .ok (position + rows.length, rows) ∧
      rows.length ≤ room ∧ (table.viewRows.drop position).take rows.length = rows.map batch.rowAt
  | 0, position => ⟨[], rfl, le_rfl, rfl⟩
  | room + 1, position => by
      by_cases hlen : table.len ≤ position
      · exact ⟨[], by rw [selectedRun, if_pos hlen]; rfl, Nat.zero_le _, rfl⟩
      · obtain ⟨b', r, batch', hb', hr, -, hrow, hview⟩ := h.row (Nat.not_le.mp hlen)
        by_cases hsame : b' = b
        · subst hsame
          obtain rfl : batch' = batch := Option.some.inj (hb'.symm.trans hb)
          obtain ⟨rows, hrun, hroom, htake⟩ := selectedRun_spec h hb room (position + 1)
          refine ⟨r :: rows, ?_, Nat.succ_le_succ hroom, ?_⟩
          · rw [selectedRun, if_neg hlen]
            simp only [hrow, bind, Except.bind, ne_eq, not_true_eq_false, if_false, hrun, List.length_cons,
              Except.ok.injEq, Prod.mk.injEq, and_true]
            omega
          · obtain ⟨hlt, hget⟩ := List.getElem?_eq_some_iff.mp hview
            rw [List.drop_eq_getElem_cons hlt, List.length_cons, List.take_succ_cons, htake, hget]
            rfl
        · refine ⟨[], ?_, Nat.zero_le _, rfl⟩
          rw [selectedRun, if_neg hlen]
          simp only [hrow, bind, Except.bind, ne_eq, hsame, not_false_eq_true, if_true]
          rfl

theorem selectedBatch_spec (h : table.Valid) {position : ℕ} (hp : position < table.len) :
    ∃ stop batch, table.selectedBatch position = .ok (stop, batch) ∧ table.Yields position stop batch := by
  obtain ⟨b, r, batch, hb, hr, -, hrow, hview⟩ := h.row hp
  obtain ⟨rows, hrun, hroom, htake⟩ := selectedRun_spec h hb (metadataBatchRows - 1) (position + 1)
  have hmem := List.mem_of_getElem? hb
  refine ⟨position + 1 + rows.length, batch.gather (r :: rows), ?_, ?_⟩
  · simp only [selectedBatch, hrow, hrun, bind, Except.bind]
  · refine ⟨RecordBatch.wellFormed_gather (h.batches batch hmem) _, ⟨batch, hmem, rfl⟩, ?_, ?_, ?_, ?_⟩
    · obtain ⟨hlt, hget⟩ := List.getElem?_eq_some_iff.mp hview
      show (batch.gather (r :: rows)).rows = (table.viewRows.drop position).take (rows.length + 1)
      rw [RecordBatch.rows_gather, List.drop_eq_getElem_cons hlt, List.take_succ_cons, htake, hget]
      rfl
    · show position + 1 + rows.length = position + (rows.length + 1)
      omega
    · exact Nat.succ_le_succ (Nat.zero_le _)
    · exact Nat.succ_le_succ hroom

/-- A call before the end yields the next rows. -/
theorem readerNext_spec (h : table.Valid) {position : ℕ} (hp : position < table.len) :
    ∃ stop batch, table.readerNext position = some (stop, .ok batch) ∧ table.Yields position stop batch := by
  rw [readerNext, if_neg (Nat.not_le.mpr hp)]
  cases hselection : table.selection with
  | none =>
      obtain ⟨stop, batch, hshared, hyields⟩ := sharedBatch_spec h hselection hp
      exact ⟨stop, batch, by simp only [Option.isNone_none, if_true, hshared], hyields⟩
  | some selection =>
      obtain ⟨stop, batch, hselected, hyields⟩ := selectedBatch_spec h hp
      exact ⟨stop, batch, by simp only [Option.isNone_some, Bool.false_eq_true, if_false, hselected], hyields⟩

/-! ### Whole loops -/

theorem Yields.stop_le (h : table.Valid) {position stop : ℕ} {batch : RecordBatch}
    (hp : position < table.len) (hyields : table.Yields position stop batch) : position < stop ∧ stop ≤ table.len := by
  have hcount := congrArg List.length hyields.rows
  rw [batch.length_rows, List.length_take, List.length_drop, h.length_viewRows] at hcount
  have hstop := hyields.stop
  have hpos := hyields.pos
  omega

theorem readerItems_mono {items : List (CacheResult RecordBatch)} : ∀ {calls position more : ℕ},
    table.readerItems calls position = some items → calls ≤ more → table.readerItems more position = some items
  | 0, position, more, h, _ => by cases h
  | calls + 1, position, 0, h, hle => absurd hle (by omega)
  | calls + 1, position, more + 1, h, hle => by
      rw [readerItems] at h ⊢
      cases hnext : table.readerNext position with
      | none =>
          rw [hnext] at h
          exact h
      | some yielded =>
          obtain ⟨stop, item⟩ := yielded
          rw [hnext] at h
          obtain ⟨rest, hrest, rfl⟩ := Option.map_eq_some_iff.mp h
          show (table.readerItems more stop).map (item :: ·) = some (item :: rest)
          rw [readerItems_mono hrest (by omega)]
          rfl

/-- A loop from a position ends and yields the rows that are left. -/
theorem readerItems_from (h : table.Valid) : ∀ (calls position : ℕ), position ≤ table.len →
    table.len - position < calls → ∃ batches : List RecordBatch,
      table.readerItems calls position = some (batches.map .ok) ∧ tableRows batches = table.viewRows.drop position ∧
      ∀ batch ∈ batches, ∃ start stop, table.Yields start stop batch
  | 0, position, _, hcalls => absurd hcalls (by omega)
  | calls + 1, position, hle, hcalls => by
      by_cases hend : position = table.len
      · refine ⟨[], ?_, ?_, by simp⟩
        · rw [readerItems, readerNext, if_pos hend.ge]
          rfl
        · rw [hend, ← h.length_viewRows, List.drop_length]
          rfl
      · have hp : position < table.len := by omega
        obtain ⟨stop, batch, hnext, hyields⟩ := readerNext_spec h hp
        obtain ⟨hlt, hstop⟩ := hyields.stop_le h hp
        obtain ⟨batches, hitems, hrows, hall⟩ := readerItems_from h calls stop hstop (by omega)
        refine ⟨batch :: batches, ?_, ?_, fun b hb => ?_⟩
        · rw [readerItems, hnext]
          simp only [hitems, Option.map_some, List.map_cons]
        · calc tableRows (batch :: batches) = batch.rows ++ tableRows batches := List.flatMap_cons
            _ = (table.viewRows.drop position).take batch.numRows ++
                  (table.viewRows.drop position).drop batch.numRows := by
                rw [hrows, hyields.rows, List.drop_drop, ← hyields.stop]
            _ = table.viewRows.drop position := List.take_append_drop _ _
        · rcases List.mem_cons.mp hb with rfl | hb
          · exact ⟨position, stop, hyields⟩
          · exact hall b hb

/-- The batches of a reader: any loop that may call `next` once more than there are rows ends with them. -/
theorem readerItems_spec (h : table.Valid) : ∃ batches : List RecordBatch,
    (∀ calls, table.len < calls → table.readerItems calls 0 = some (batches.map .ok)) ∧
      tableRows batches = table.viewRows ∧ ∀ batch ∈ batches, ∃ start stop, table.Yields start stop batch := by
  obtain ⟨batches, hitems, hrows, hall⟩ :=
    readerItems_from h (table.len + 1) 0 (Nat.zero_le _) (Nat.lt_succ_of_le (Nat.sub_le _ _))
  exact ⟨batches, fun calls hcalls => readerItems_mono hitems hcalls, hrows, hall⟩

end ArrowMetadata

/-! ### Accepted tables -/

/-- What Arrow guarantees of the batches of one table. -/
def Uniform (schema : List Field) (batches : List RecordBatch) : Prop :=
  ∀ batch ∈ batches, batch.WellFormed ∧ batch.schema = schema

/-- An import of the metadata of a table gives its population. -/
structure ActiveMetadataTable.Accepted (pop : Population) (active : ActiveMetadataTable) : Prop where
  valid : active.metadata.Valid
  uniform : Uniform active.metadata.schema active.metadata.batches
  len_lt : active.metadata.len < wordSize
  imported : imported (extractMetadataArrow pop active.metadata) = some (active.physicalIndices, active.weights)

theorem extractMetadataArrow_ok {pop : Population} {table : ArrowMetadata} {active : ActiveMetadataTable}
    (h : extractMetadataArrow pop table = .ok active) : active.metadata = table := by
  obtain ⟨⟨⟩, -, h⟩ := bind_eq_ok h
  obtain ⟨columns, -, h⟩ := bind_eq_ok h
  obtain ⟨updates, -, h⟩ := bind_eq_ok h
  obtain ⟨⟨⟩, -, h⟩ := bind_eq_ok h
  cases h
  rfl

theorem extractMetadataIpc_ok {A : ArrowLib} {pop : Population} {ipc : Bytes} {active : ActiveMetadataTable}
    (h : extractMetadataIpc A pop ipc = .ok active) : ∃ schema batches, A.readFile ipc = .ok (schema, batches) ∧
      ArrowMetadata.new schema batches = .ok active.metadata := by
  obtain ⟨⟨schema, batches⟩, hread, h⟩ := bind_eq_ok h
  obtain ⟨⟨rowCount, updates⟩, -, h⟩ := bind_eq_ok h
  obtain ⟨⟨⟩, -, h⟩ := bind_eq_ok h
  obtain ⟨⟨⟩, -, h⟩ := bind_eq_ok h
  obtain ⟨metadata, hmetadata, h⟩ := bind_eq_ok h
  cases h
  exact ⟨schema, batches, arrowResult_ok hread, hmetadata⟩

theorem Dataset.ImportedTable.valid {t : Dataset.ImportedTable} {table : ArrowMetadata}
    (ht : Uniform t.schema t.batches) (h : t.toArrow = .ok table) :
    table.Valid ∧ Uniform table.schema table.batches := by
  obtain ⟨whole, hwhole, h⟩ := bind_eq_ok h
  obtain ⟨hvalid, -⟩ := ArrowMetadata.valid_new hwhole fun batch hbatch => (ht batch hbatch).1
  obtain ⟨hschema, hbatches⟩ := ArrowMetadata.fields_new hwhole
  have huniform : Uniform whole.schema whole.batches := by
    rw [hschema, hbatches]
    exact ht
  cases hselection : t.selection with
  | none =>
      rw [hselection] at h
      cases h
      exact ⟨hvalid, huniform⟩
  | some selection =>
      rw [hselection] at h
      obtain ⟨hviewSchema, hviewBatches⟩ := ArrowMetadata.fields_select h
      rw [hviewSchema, hviewBatches]
      exact ⟨(ArrowMetadata.valid_select h hvalid).1, huniform⟩

namespace Dataset

/-- The batches that an operation brings in are batches of one table. -/
def Op.Uniform (A : ArrowLib) : Op → Prop
  | .updateArrow t => DatasetRt.Uniform t.schema t.batches
  | .updateIpc ipc => ∀ schema batches, A.readFile ipc = .ok (schema, batches) → DatasetRt.Uniform schema batches
  | _ => True

variable {A : ArrowLib} {d : Dataset}

/-- The active table, if there is one, was accepted. -/
def ActiveAccepted (d : Dataset) (s : MutableDatasetState) : Prop :=
  ∀ active, s.active = .table active → active.Accepted d.pop

theorem accepted_of_arrow {t : ImportedTable} (ht : DatasetRt.Uniform t.schema t.batches)
    {active : ActiveMetadataTable} (h : (t.toArrow >>= extractMetadataArrow d.pop) = .ok active) :
    active.Accepted d.pop := by
  obtain ⟨table, htable, h⟩ := bind_eq_ok h
  obtain rfl := extractMetadataArrow_ok h
  obtain ⟨hvalid, huniform⟩ := ImportedTable.valid ht htable
  exact ⟨hvalid, huniform, ArrowMetadata.len_lt_of_toArrow htable, by rw [h]; rfl⟩

theorem accepted_of_ipc {ipc : Bytes} (hipc : (Op.updateIpc ipc).Uniform A) {active : ActiveMetadataTable}
    (h : extractMetadataIpc A d.pop ipc = .ok active) : active.Accepted d.pop := by
  obtain ⟨schema, batches, hread, hnew⟩ := extractMetadataIpc_ok h
  have huniform : DatasetRt.Uniform schema batches := hipc schema batches hread
  obtain ⟨hvalid, hrows⟩ := ArrowMetadata.valid_new hnew fun batch hbatch => (huniform batch hbatch).1
  obtain ⟨hschema, hbatches⟩ := ArrowMetadata.fields_new hnew
  have hcount := hvalid.length_lt
  rw [hbatches] at hcount
  have himported := imported_extractMetadataIpc hread huniform hcount d.pop
  have hsame : DatasetRt.Uniform active.metadata.schema active.metadata.batches := by
    rw [hschema, hbatches]
    exact huniform
  refine ⟨hvalid, hsame, by rw [← hvalid.length_viewRows, hrows]; exact hcount, ?_⟩
  rw [imported_extractMetadataArrow hvalid (fun batch hbatch => (hsame batch hbatch).2), hschema, hrows,
    ← himported, h]
  rfl

theorem activeAccepted_of_load {loadCaches : List Path → CacheResult (List LoadedCache)} {paths : List Path}
    {seed : BitVec 64} {prefetchSize : ℕ} {numWorkers : Positive} {shuffle : Bool} {s : MutableDatasetState}
    (h : load loadCaches paths seed prefetchSize numWorkers shuffle = .ok (d, s)) : d.ActiveAccepted s := by
  unfold load at h
  split_ifs at h
  obtain ⟨prefetch, -, h⟩ := bind_eq_ok h
  obtain ⟨caches, -, h⟩ := bind_eq_ok h
  obtain ⟨lookup, -, h⟩ := bind_eq_ok h
  obtain ⟨schema, -, h⟩ := bind_eq_ok h
  obtain ⟨⟨offsets, total⟩, -, h⟩ := bind_eq_ok h
  simp only at h
  split_ifs at h
  obtain ⟨epochLen, -, h⟩ := bind_eq_ok h
  cases h
  exact fun active hactive => nomatch hactive

theorem activeAccepted_replaceWith {extracted : CacheResult ActiveMetadataTable} {s : MutableDatasetState}
    (hs : d.ActiveAccepted s) (h : ∀ active, extracted = .ok active → active.Accepted d.pop) :
    d.ActiveAccepted (replaceWith extracted s).1 := by
  rcases replaceWith_cases extracted s with ⟨error, heq⟩ | ⟨active, epochLen, hok, heq⟩
  · rw [heq]
    exact hs
  · rw [heq]
    intro other hother
    cases hother
    exact h active hok

theorem epochPlan_active (R : RandLib) (d : Dataset) (s : MutableDatasetState) :
    (d.epochPlan R s).1.active = s.active := by
  unfold epochPlan
  cases d.shuffle with
  | true =>
      cases advanceDrawOffset s.shuffledDrawOffset s.epochLen.1 with
      | error error => rfl
      | ok next => cases d.sampler R s <;> simp only [if_true]
  | false => cases hoffset : advanceCyclicOffset s.sequentialOffset s.epochLen.1 (d.activeLen s.active) <;>
      simp only [Bool.false_eq_true, if_false, hoffset]

theorem activeAccepted_apply (R : RandLib) (op : Op) (hop : op.Uniform A) {s : MutableDatasetState}
    (hs : d.ActiveAccepted s) : d.ActiveAccepted (d.apply R A s op) := by
  cases op with
  | setEpochLen epochLen =>
      simp only [apply, setEpochLen]
      cases epochLenNew epochLen <;> exact hs
  | updateArrow t => exact activeAccepted_replaceWith hs fun active hactive => accepted_of_arrow hop hactive
  | updateIpc ipc => exact activeAccepted_replaceWith hs fun active hactive => accepted_of_ipc hop hactive
  | epochPlan =>
      have hactive : (d.epochPlan R s).1.active = s.active := epochPlan_active R d s
      intro active hs'
      exact hs active (hactive ▸ hs')

theorem activeAccepted_applyAll (R : RandLib) : ∀ (ops : List Op), (∀ op ∈ ops, op.Uniform A) →
    ∀ {s : MutableDatasetState}, d.ActiveAccepted s → d.ActiveAccepted (d.applyAll R A s ops)
  | [], _, _, hs => hs
  | op :: ops, hops, _, hs => activeAccepted_applyAll R ops (fun o ho => hops o (List.mem_cons_of_mem _ ho))
      (activeAccepted_apply R op (hops op List.mem_cons_self) hs)

end Dataset

/-! ### Exports -/

theorem createFile_ok {path : Path} {content : CacheResult Bytes} {fs fs' : FileTree}
    (h : createFile path content fs = .ok fs') : ∃ bytes, content = .ok bytes ∧ fs' = fs.write path bytes := by
  unfold createFile at h
  split_ifs at h
  cases content with
  | error error => cases h
  | ok bytes =>
      cases h
      exact ⟨bytes, rfl, rfl⟩

theorem mapM_id_map_ok {α : Type} (l : List α) : ((l.map .ok).mapM id : CacheResult (List α)) = .ok l := by
  rw [List.mapM_map]
  exact mapM_eq_ok_iff_getElem.mpr ⟨rfl, fun _ _ _ => rfl⟩

/-- The file of a table holds the batches of its reader. -/
theorem ArrowMetadata.writeFile_spec {A : ArrowLib} {table : ArrowMetadata} (h : table.Valid) {calls : ℕ}
    (hcalls : table.len < calls) (path : Path) (fs : FileTree) : ∃ batches : List RecordBatch,
      table.writeFile A calls path fs =
        some (createFile path (arrowResult (A.writeFile table.schema batches)) fs) ∧
      tableRows batches = table.viewRows ∧ ∀ batch ∈ batches, ∃ start stop, table.Yields start stop batch := by
  obtain ⟨batches, hitems, hrows, hall⟩ := readerItems_spec h
  refine ⟨batches, ?_, hrows, hall⟩
  rw [ArrowMetadata.writeFile, hitems calls hcalls, Option.map_some, mapM_id_map_ok]
  rfl

theorem uniform_of_yields {table : ArrowMetadata} (h : Uniform table.schema table.batches) {batches : List RecordBatch}
    (hall : ∀ batch ∈ batches, ∃ start stop, table.Yields start stop batch) : Uniform table.schema batches := by
  intro batch hbatch
  obtain ⟨start, stop, hyields⟩ := hall batch hbatch
  obtain ⟨source, hsource, hschema⟩ := hyields.schema
  exact ⟨hyields.wellFormed, hschema.trans (h source hsource).2⟩

/-- Every import of the rows of an accepted table gives its population. -/
theorem ActiveMetadataTable.Accepted.importRows_eq {pop : Population} {active : ActiveMetadataTable}
    (h : active.Accepted pop) :
    importRows pop active.metadata.schema active.metadata.viewRows = some (active.physicalIndices, active.weights) := by
  rw [← imported_extractMetadataArrow h.valid (fun batch hbatch => (h.uniform batch hbatch).2) pop]
  exact h.imported

/-- A file at `path` that holds `count` rows, which every importer takes for the population of `active`. -/
def HoldsPopulation (A : ArrowLib) (pop : Population) (active : ActiveMetadataTable) (fs : FileTree) (path : Path)
    (count : ℕ) : Prop :=
  ∃ bytes schema batches, fs.read path = some bytes ∧ A.readFile bytes = .ok (schema, batches) ∧
    count = (tableRows batches).length ∧
    imported (extractMetadataIpc A pop bytes) = some (active.physicalIndices, active.weights) ∧
    imported ((⟨schema, batches, none⟩ : Dataset.ImportedTable).toArrow >>= extractMetadataArrow pop) =
      some (active.physicalIndices, active.weights)

theorem holdsPopulation_of_writeFile {A : ArrowLib} (hA : A.Lawful) {pop : Population} {active : ActiveMetadataTable}
    (h : active.Accepted pop) {calls : ℕ} (hcalls : active.metadata.len < calls) {path : Path} {fs fs' : FileTree}
    (hwrite : active.metadata.writeFile A calls path fs = some (.ok fs')) :
    HoldsPopulation A pop active fs' path active.metadata.len := by
  obtain ⟨batches, hfile, hrows, hall⟩ := ArrowMetadata.writeFile_spec (A := A) h.valid hcalls path fs
  rw [hfile, Option.some.injEq] at hwrite
  obtain ⟨bytes, hbytes, rfl⟩ := createFile_ok hwrite
  have hread := hA _ _ _ (arrowResult_ok hbytes)
  have huniform := uniform_of_yields h.uniform hall
  have hcount : (tableRows batches).length = active.metadata.len := by
    rw [hrows]
    exact h.valid.length_viewRows
  have hlt : (tableRows batches).length < wordSize := hcount ▸ h.len_lt
  refine ⟨bytes, active.metadata.schema, batches, FileTree.read_write_self _ _ _, hread, hcount.symm, ?_, ?_⟩
  · rw [imported_extractMetadataIpc hread huniform hlt, hrows]
    exact h.importRows_eq
  · obtain ⟨table, htable⟩ := ArrowMetadata.exists_new active.metadata.schema hlt
    obtain ⟨hvalid, hview⟩ := ArrowMetadata.valid_new htable fun batch hbatch => (huniform batch hbatch).1
    obtain ⟨hschema, heq⟩ := ArrowMetadata.fields_new htable
    simp only [Dataset.ImportedTable.toArrow, htable, bind, Except.bind]
    rw [imported_extractMetadataArrow hvalid (fun batch hbatch => by
      rw [hschema]
      exact (huniform batch (heq ▸ hbatch)).2), hschema, hview, hrows]
    exact h.importRows_eq

section export_

variable {metadataBatches : LoadedCache → CacheResult (List (CacheResult RecordBatch))}

theorem rows_of_writeSamplesMetadataFile {A : ArrowLib} (hA : A.Lawful) {pop : Population} {total : ℕ}
    (hpop : pop.Valid total) {path : Path} {fs fs' : FileTree}
    (h : writeSamplesMetadataFile metadataBatches A pop path fs = .ok fs') :
    ∃ bytes schema batches, fs'.read path = some bytes ∧ A.readFile bytes = .ok (schema, batches) ∧
      total = (tableRows batches).length := by
  obtain ⟨bytes, hbytes, rfl⟩ := createFile_ok h
  obtain ⟨batches, hvisit, hbytes⟩ := bind_eq_ok hbytes
  refine ⟨bytes, _, batches, FileTree.read_write_self _ _ _, hA _ _ _ (arrowResult_ok hbytes), ?_⟩
  rw [length_tableRows, (visitSamplesMetadata_ok hpop hvisit).1.stop_eq, Nat.zero_add]

/-- **Exports preserve tables.**  A reader of a table or view ends after at most one call for each row and one more;
its batches have between 1 and 65536 rows and are together the rows of the view.  Whatever was done with a loaded
dataset, the export of its active table ends, and the file it leaves has as many rows as it reports and is imported
as the active population.  The export of the original population reports the rows it writes. -/
theorem export_preserves (R : RandLib) {A : ArrowLib} (hA : A.Lawful) :
    (∀ (t : Dataset.ImportedTable) table, Uniform t.schema t.batches → t.toArrow = .ok table →
      ∃ batches : List RecordBatch,
        (∀ calls, table.len < calls → table.readerItems calls 0 = some (batches.map .ok)) ∧
        tableRows batches = table.viewRows ∧ ∀ batch ∈ batches, 1 ≤ batch.numRows ∧ batch.numRows ≤ 65536) ∧
    ∀ (loadCaches : List Path → CacheResult (List LoadedCache)) paths seed prefetchSize numWorkers shuffle d s₀,
      Dataset.load loadCaches paths seed prefetchSize numWorkers shuffle = .ok (d, s₀) →
      ∀ ops, (∀ op ∈ ops, Dataset.Op.Uniform A op) → ∀ s, d.applyAll R A s₀ ops = s →
      (∀ active, s.active = .table active → ∀ calls, active.metadata.len < calls → ∀ path fs,
        ∃ result, d.exportMetadataArrow metadataBatches A s calls path fs = some result ∧
          ∀ fs' count, result = .ok (fs', count) → HoldsPopulation A d.pop active fs' path count) ∧
      (s.active = .full → ∀ calls path fs, ∃ result,
        d.exportMetadataArrow metadataBatches A s calls path fs = some result ∧
          ∀ fs' count, result = .ok (fs', count) → ∃ bytes schema batches, fs'.read path = some bytes ∧
            A.readFile bytes = .ok (schema, batches) ∧ count = (tableRows batches).length) := by
  constructor
  · intro t table ht htable
    obtain ⟨hvalid, -⟩ := Dataset.ImportedTable.valid ht htable
    obtain ⟨batches, hitems, hrows, hall⟩ := ArrowMetadata.readerItems_spec hvalid
    refine ⟨batches, hitems, hrows, fun batch hbatch => ?_⟩
    obtain ⟨start, stop, hyields⟩ := hall batch hbatch
    exact ⟨hyields.pos, hyields.le⟩
  · intro loadCaches paths seed prefetchSize numWorkers shuffle d s₀ hload ops hops s hs
    have hd : d.Valid := (Dataset.valid_of_load hload).1
    constructor
    · intro active hactive calls hcalls path fs
      have haccepted : active.Accepted d.pop :=
        Dataset.activeAccepted_applyAll R ops hops (Dataset.activeAccepted_of_load hload) active (hs ▸ hactive)
      obtain ⟨batches, hfile, -⟩ := ArrowMetadata.writeFile_spec (A := A) haccepted.valid hcalls path fs
      refine ⟨_, by rw [Dataset.exportMetadataArrow, hactive]; simp only [hfile, Option.map_some]; rfl, ?_⟩
      intro fs' count hresult
      cases hcreate : createFile path (arrowResult (A.writeFile active.metadata.schema batches)) fs with
      | error error =>
          rw [hcreate] at hresult
          cases hresult
      | ok written =>
          rw [hcreate] at hresult
          cases hresult
          exact holdsPopulation_of_writeFile hA haccepted hcalls (hfile.trans (by rw [hcreate]))
    · intro hfull calls path fs
      refine ⟨_, by rw [Dataset.exportMetadataArrow, hfull], ?_⟩
      intro fs' count hresult
      cases hwrite : writeSamplesMetadataFile metadataBatches A d.pop path fs with
      | error error =>
          rw [hwrite] at hresult
          cases hresult
      | ok written =>
          rw [hwrite] at hresult
          cases hresult
          exact rows_of_writeSamplesMetadataFile hA hd.pop hwrite

end export_

namespace TwoRows

/-- The table without its first row, which has no weight. -/
def table : Dataset.ImportedTable := ⟨schema, [batch, emptyBatch schema], some selection⟩

def disk : FileTree := fun path => if path = [] then some .dir else none

end TwoRows

open TwoRows Dataset in
/-- The view is exported as one batch of two rows. -/
theorem export_preserves_two_rows : ∃ s active fs',
    OneRow.dataset.applyAll RandLib.first arrow OneRow.start [.updateArrow TwoRows.table] = s ∧
      s.active = .table active ∧ active.physicalIndices = [1, 0] ∧
      OneRow.dataset.exportMetadataArrow (fun _ => .ok []) arrow s 3 ["m"] disk = some (.ok (fs', 2)) ∧
      HoldsPopulation arrow OneRow.dataset.pop active fs' ["m"] 2 := by
  have hops : ∀ op ∈ [Op.updateArrow TwoRows.table], op.Uniform arrow := by
    intro op hop
    rw [List.mem_singleton.mp hop]
    exact uniform_batches
  have hwrites : arrow.writeFile schema [batch.gather [1, 2]] = .ok [1] := if_pos ⟨rfl, rfl⟩
  have hexport : OneRow.dataset.exportMetadataArrow (fun _ => .ok []) arrow
      (OneRow.dataset.applyAll RandLib.first arrow OneRow.start [.updateArrow TwoRows.table]) 3 ["m"] disk =
      some (.ok (disk.write ["m"] [1], 2)) := by
    show some ((createFile ["m"] (arrowResult (arrow.writeFile schema [batch.gather [1, 2]])) disk).map
      fun fs => (fs, 2)) = _
    rw [hwrites]
    rfl
  obtain ⟨result, hresult, hholds⟩ := ((export_preserves RandLib.first lawful_arrow).2 _ _ _ _ _ _ _ _
    OneRow.load_eq _ hops _ rfl).1 _ rfl 3 (by decide) ["m"] disk
  rw [hexport, Option.some.injEq] at hresult
  exact ⟨_, _, _, rfl, rfl, rfl, hexport, hholds _ _ hresult.symm⟩

end DatasetRt
