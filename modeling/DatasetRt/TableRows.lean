import DatasetRt.SamplesExport

/-! # The rows of a table

A table is a list of record batches, and its meaning is the list of its rows, however they are cut into batches.
`RecordBatch.rows` are the rows of a batch; slicing and gathering are `drop`, `take` and indexing of rows.  What the
importers read of a row depends on the schema and the cells of that row only (`readUpdate_rowAt`), and whether they
accept the columns of a batch depends on its schema only (`checkedColumns_iff`). -/

namespace DatasetRt

/-- A cell with its type. -/
abbrev TableCell := (dataType : DataType) × Option dataType.Cell

abbrev TableRow := List TableCell

namespace Column

/-- The cell of a row. -/
def cell (c : Column) (row : ℕ) : TableCell := ⟨c.dataType, c.cells[row]?.join⟩

/-- A column of one cell. -/
def ofCell (cell : TableCell) : Column := ⟨cell.1, [cell.2]⟩

/-- `take`: the cells of the given rows. -/
def gather (c : Column) (rows : List ℕ) : Column := ⟨c.dataType, rows.map fun row => c.cells[row]?.join⟩

end Column

namespace RecordBatch

/-- What `RecordBatch` guarantees: columns of the types of its fields, all of one length. -/
structure WellFormed (batch : RecordBatch) : Prop where
  types : batch.columns.map Column.dataType = batch.schema.map Field.dataType
  lengths : ∀ column ∈ batch.columns, column.len = batch.numRows

def rowAt (batch : RecordBatch) (row : ℕ) : TableRow := batch.columns.map fun c => c.cell row

def rows (batch : RecordBatch) : List TableRow := (List.range batch.numRows).map batch.rowAt

/-- `take_record_batch`. -/
def gather (batch : RecordBatch) (rows : List ℕ) : RecordBatch :=
  { batch with columns := batch.columns.map fun c => c.gather rows, numRows := rows.length }

/-- Every column changed in the same way. -/
def mapColumns (batch : RecordBatch) (f : Column → Column) (numRows : ℕ) : RecordBatch :=
  { batch with columns := batch.columns.map f, numRows }

end RecordBatch

/-- The rows of a list of batches. -/
def tableRows (batches : List RecordBatch) : List TableRow := batches.flatMap RecordBatch.rows

/-! ### Slices and gathered rows -/

namespace RecordBatch

variable {batch : RecordBatch}

theorem length_rows (batch : RecordBatch) : batch.rows.length = batch.numRows := by
  rw [rows, List.length_map, List.length_range]

theorem getElem?_rows {row : ℕ} (h : row < batch.numRows) : batch.rows[row]? = some (batch.rowAt row) := by
  rw [rows, List.getElem?_map, List.getElem?_range h, Option.map_some]

theorem getElem_rows {row : ℕ} (h : row < batch.rows.length) : batch.rows[row] = batch.rowAt row := by
  simp only [rows, List.getElem_map, List.getElem_range]

theorem wellFormed_slice (h : batch.WellFormed) {start len : ℕ} (hfits : start + len ≤ batch.numRows) :
    (batch.slice start len).WellFormed where
  types := by
    rw [slice, List.map_map]
    exact h.types
  lengths column hcolumn := by
    obtain ⟨c, hc, rfl⟩ := List.mem_map.mp hcolumn
    have hlen : c.cells.length = batch.numRows := h.lengths c hc
    show ((c.cells.drop start).take len).length = len
    rw [List.length_take, List.length_drop]
    omega

theorem rows_slice (batch : RecordBatch) {start len : ℕ} (hfits : start + len ≤ batch.numRows) :
    (batch.slice start len).rows = (batch.rows.drop start).take len := by
  refine List.ext_getElem? fun i => ?_
  by_cases hi : i < len
  · have hcell : ∀ c : Column, (c.slice start len).cell i = c.cell (start + i) := by
      intro c
      have hget : ((c.cells.drop start).take len)[i]? = c.cells[start + i]? := by
        rw [List.getElem?_take, if_pos hi, List.getElem?_drop]
      exact congrArg (fun o => (⟨c.dataType, o.join⟩ : TableCell)) hget
    rw [getElem?_rows (show i < (batch.slice start len).numRows from hi), List.getElem?_take, if_pos hi,
      List.getElem?_drop, getElem?_rows (by omega), rowAt, rowAt, slice, List.map_map]
    exact congrArg some (List.map_congr_left fun c _ => hcell c)
  · rw [List.getElem?_eq_none (by rw [length_rows]; exact Nat.not_lt.mp hi), List.getElem?_take, if_neg hi]

theorem wellFormed_gather (h : batch.WellFormed) (indices : List ℕ) : (batch.gather indices).WellFormed where
  types := by
    rw [gather, List.map_map]
    exact h.types
  lengths column hcolumn := by
    obtain ⟨c, -, rfl⟩ := List.mem_map.mp hcolumn
    exact List.length_map _

theorem rows_gather (batch : RecordBatch) (indices : List ℕ) :
    (batch.gather indices).rows = indices.map batch.rowAt := by
  refine List.ext_getElem? fun i => ?_
  by_cases hi : i < indices.length
  · have hcell : ∀ c : Column, (c.gather indices).cell i = c.cell indices[i] := by
      intro c
      have hget : ((indices.map fun row => c.cells[row]?.join)[i]?).join = c.cells[indices[i]]?.join := by
        rw [List.getElem?_map, List.getElem?_eq_getElem hi]
        rfl
      exact congrArg (fun o => (⟨c.dataType, o⟩ : TableCell)) hget
    rw [getElem?_rows (show i < (batch.gather indices).numRows from hi), List.getElem?_map,
      List.getElem?_eq_getElem hi, Option.map_some, rowAt, rowAt, gather, List.map_map]
    exact congrArg some (List.map_congr_left fun c _ => hcell c)
  · rw [List.getElem?_eq_none (by rw [length_rows]; exact Nat.not_lt.mp hi),
      List.getElem?_eq_none (by rw [List.length_map]; exact Nat.not_lt.mp hi)]

end RecordBatch

theorem length_tableRows (batches : List RecordBatch) :
    (tableRows batches).length = (batches.map RecordBatch.numRows).sum := by
  rw [tableRows, List.length_flatMap]
  exact congrArg List.sum (List.map_congr_left fun batch _ => batch.length_rows)

theorem getElem?_tableRows : ∀ {batches : List RecordBatch} {b r : ℕ} {batch : RecordBatch},
    batches[b]? = some batch → r < batch.numRows →
    (tableRows batches)[((batches.map RecordBatch.numRows).take b).sum + r]? = some (batch.rowAt r)
  | first :: rest, 0, r, batch, hb, hr => by
      obtain rfl : first = batch := by simpa using hb
      rw [List.take_zero, List.sum_nil, Nat.zero_add, tableRows, List.flatMap_cons,
        List.getElem?_append_left (by rw [first.length_rows]; exact hr)]
      exact RecordBatch.getElem?_rows hr
  | first :: rest, b + 1, r, batch, hb, hr => by
      have hrest : (tableRows rest)[((rest.map RecordBatch.numRows).take b).sum + r]? = some (batch.rowAt r) :=
        getElem?_tableRows (by simpa using hb) hr
      rw [List.map_cons, List.take_succ_cons, List.sum_cons, Nat.add_assoc, tableRows, List.flatMap_cons,
        List.getElem?_append_right (by rw [first.length_rows]; exact Nat.le_add_right _ _), first.length_rows,
        Nat.add_sub_cancel_left]
      exact hrest

/-! ### What is read of a row -/

namespace Column

theorem isNull_ofCell {c : Column} {row : ℕ} (h : row < c.len) : (ofCell (c.cell row)).isNull 0 = c.isNull row := by
  have hget : c.cells[row]? = some c.cells[row] := List.getElem?_eq_getElem h
  unfold isNull
  simp only [ofCell, cell, hget, Option.join_some]
  cases c.cells[row] <;> rfl

end Column

theorem readU64Cell_ofCell {c : Column} {row : ℕ} (h : row < c.len) (name : String) :
    readU64Cell (.ofCell (c.cell row)) 0 name = readU64Cell c row name := by
  unfold readU64Cell
  rw [Column.isNull_ofCell h]
  obtain ⟨dataType, cells⟩ := c
  cases dataType <;> rfl

theorem readF64Cell_ofCell {c : Column} {row : ℕ} (h : row < c.len) (name : String) :
    readF64Cell (.ofCell (c.cell row)) 0 name = readF64Cell c row name := by
  unfold readF64Cell
  rw [Column.isNull_ofCell h]
  obtain ⟨dataType, cells⟩ := c
  cases dataType <;> rfl

/-- The identity columns changed in the same way. -/
def IdentityColumns.map (f : Column → Column) (columns : IdentityColumns) : IdentityColumns :=
  ⟨f columns.cacheIds, f columns.sampleIds, f columns.weights⟩

section mapped

variable {f : Column → Column} {batch : RecordBatch} {numRows : ℕ}

theorem requiredColumn_mapColumns (name : String) :
    requiredColumn (batch.mapColumns f numRows) name = (requiredColumn batch name).map f := by
  have hfind : (batch.mapColumns f numRows).columnByName name = (batch.columnByName name).map f := by
    simp only [RecordBatch.columnByName, RecordBatch.mapColumns, List.zip_map_right, List.find?_map, Option.map_map]
    rfl
  rw [requiredColumn, requiredColumn, hfind]
  cases batch.columnByName name <;> rfl

theorem identityColumns_mapColumns :
    identityColumns (batch.mapColumns f numRows) = (identityColumns batch).map (IdentityColumns.map f) := by
  simp only [identityColumns, requiredColumn_mapColumns]
  cases requiredColumn batch "cache_id" with
  | error error => rfl
  | ok cacheIds =>
      cases requiredColumn batch "sample_id" with
      | error error => rfl
      | ok sampleIds => cases requiredColumn batch "weight" <;> rfl

/-- The stored columns are checked by their types. -/
theorem validateRequiredMetadataColumns_mapColumns (hf : ∀ c, (f c).dataType = c.dataType)
    (schema : List MetadataField) :
    validateRequiredMetadataColumns (batch.mapColumns f numRows) schema =
      validateRequiredMetadataColumns batch schema := by
  have hone : validateRequiredMetadataColumn (batch.mapColumns f numRows) = validateRequiredMetadataColumn batch := by
    funext field
    simp only [validateRequiredMetadataColumn, requiredColumn_mapColumns]
    cases requiredColumn batch field.name with
    | error error => rfl
    | ok column =>
        show (if metadataUpdateTypeMatches (f column).dataType _ then _ else _) = _
        rw [hf]
        rfl
  rw [validateRequiredMetadataColumns, hone, validateRequiredMetadataColumns]

variable (f) in
theorem checkedColumns_mapColumns (hf : ∀ c, (f c).dataType = c.dataType) (pop : Population) :
    checkedColumns pop (batch.mapColumns f numRows) = (checkedColumns pop batch).map (IdentityColumns.map f) := by
  rw [checkedColumns, validateRequiredMetadataColumns_mapColumns hf, identityColumns_mapColumns, checkedColumns]
  cases validateRequiredMetadataColumns batch pop.schema <;> rfl

end mapped

/-- The batch of a schema without rows. -/
def emptyBatch (schema : List Field) : RecordBatch := ⟨schema, schema.map fun field => ⟨field.dataType, []⟩, 0⟩

/-- The batch of one row. -/
def oneRowBatch (schema : List Field) (row : TableRow) : RecordBatch := ⟨schema, row.map Column.ofCell, 1⟩

/-- The columns of a schema are accepted. -/
def AcceptsColumns (pop : Population) (schema : List Field) : Prop :=
  ∃ columns, checkedColumns pop (emptyBatch schema) = .ok columns

/-- Whether the columns of a batch are accepted depends on its schema. -/
theorem checkedColumns_iff {batch : RecordBatch} (h : batch.WellFormed) (pop : Population) :
    (∃ columns, checkedColumns pop batch = .ok columns) ↔ AcceptsColumns pop batch.schema := by
  have hempty : emptyBatch batch.schema = batch.mapColumns (fun c => ⟨c.dataType, []⟩) 0 := by
    have hcolumns := congrArg (List.map fun dataType => (⟨dataType, []⟩ : Column)) h.types
    rw [List.map_map, List.map_map] at hcolumns
    rw [emptyBatch, RecordBatch.mapColumns]
    exact congrArg (fun columns => RecordBatch.mk batch.schema columns 0) hcolumns.symm
  rw [AcceptsColumns, hempty, checkedColumns_mapColumns (fun c => ⟨c.dataType, []⟩) (fun _ => rfl)]
  constructor
  · rintro ⟨columns, hcolumns⟩
    exact ⟨_, by rw [hcolumns]; rfl⟩
  · rintro ⟨columns, hcolumns⟩
    cases hbatch : checkedColumns pop batch with
    | error error =>
        rw [hbatch] at hcolumns
        cases hcolumns
    | ok columns' => exact ⟨columns', rfl⟩

/-- What an importer makes of a row. -/
def readRow (pop : Population) (schema : List Field) (row : TableRow) : CacheResult (ℕ × Float) := do
  let columns ← checkedColumns pop (oneRowBatch schema row)
  readUpdate pop columns 0

theorem mem_of_requiredColumn {batch : RecordBatch} {name : String} {column : Column}
    (h : requiredColumn batch name = .ok column) : column ∈ batch.columns := by
  rw [requiredColumn, okOr_eq_ok, RecordBatch.columnByName, Option.map_eq_some_iff] at h
  obtain ⟨p, hp, rfl⟩ := h
  exact (List.of_mem_zip (List.mem_of_find?_eq_some hp)).2

theorem checkedColumns_oneRow (pop : Population) (batch : RecordBatch) (row : ℕ) :
    checkedColumns pop (oneRowBatch batch.schema (batch.rowAt row)) =
      (checkedColumns pop batch).map (IdentityColumns.map fun c => .ofCell (c.cell row)) := by
  have hone : oneRowBatch batch.schema (batch.rowAt row) = batch.mapColumns (fun c => .ofCell (c.cell row)) 1 := by
    rw [oneRowBatch, RecordBatch.rowAt, List.map_map]
    rfl
  rw [hone]
  exact checkedColumns_mapColumns (fun c => .ofCell (c.cell row)) (fun _ => rfl) pop

theorem readUpdate_rowAt {batch : RecordBatch} (h : batch.WellFormed) {pop : Population} {columns : IdentityColumns}
    (hcolumns : checkedColumns pop batch = .ok columns) {row : ℕ} (hrow : row < batch.numRows) :
    readUpdate pop columns row = readRow pop batch.schema (batch.rowAt row) := by
  have hchecked := checkedColumns_oneRow pop batch row
  rw [hcolumns] at hchecked
  obtain ⟨⟨⟩, -, hids⟩ := bind_eq_ok hcolumns
  obtain ⟨cacheIds, hcache, hids⟩ := bind_eq_ok hids
  obtain ⟨sampleIds, hsample, hids⟩ := bind_eq_ok hids
  obtain ⟨weights, hweight, hids⟩ := bind_eq_ok hids
  cases hids
  have hlen : ∀ {name : String} {column : Column}, requiredColumn batch name = .ok column → row < column.len := by
    intro name column hcolumn
    rw [h.lengths column (mem_of_requiredColumn hcolumn)]
    exact hrow
  rw [readRow, hchecked]
  simp only [Except.map, bind, Except.bind, IdentityColumns.map, readUpdate]
  rw [readU64Cell_ofCell (hlen hcache), readU64Cell_ofCell (hlen hsample), readF64Cell_ofCell (hlen hweight)]

theorem readRow_rejected {batch : RecordBatch} (h : batch.WellFormed) {pop : Population}
    (hrejects : ¬ AcceptsColumns pop batch.schema) (row : ℕ) :
    ∃ error, readRow pop batch.schema (batch.rowAt row) = .error error := by
  rw [readRow, checkedColumns_oneRow]
  cases hbatch : checkedColumns pop batch with
  | error error => exact ⟨error, rfl⟩
  | ok columns => exact absurd ((checkedColumns_iff h pop).mp ⟨columns, hbatch⟩) hrejects

/-! ### Views -/

namespace ArrowMetadata

/-- The rows that a view shows, in the order of the selection. -/
def viewRows (table : ArrowMetadata) : List TableRow :=
  match table.selection with
  | some selection => selection.map fun row => (tableRows table.batches).getD row []
  | none => tableRows table.batches

/-- A table that `new` and `select` can build. -/
structure Valid (table : ArrowMetadata) : Prop where
  batches : ∀ batch ∈ table.batches, batch.WellFormed
  offsets : Segments.offsets wordSize 0 (table.batches.map RecordBatch.numRows) = some (table.offsets, table.rows)
  selection : ∀ selection, table.selection = some selection → ∀ row ∈ selection, row < table.rows

variable {table : ArrowMetadata}

theorem valid_new {schema : List Field} {batches : List RecordBatch} (h : new schema batches = .ok table)
    (hbatches : ∀ batch ∈ batches, batch.WellFormed) : table.Valid ∧ table.viewRows = tableRows batches := by
  obtain ⟨⟨offsets, rows⟩, hoffsets, h⟩ := bind_eq_ok h
  cases h
  exact ⟨⟨hbatches, okOr_eq_ok.mp hoffsets, by simp⟩, rfl⟩

theorem fields_new {schema : List Field} {batches : List RecordBatch} (h : new schema batches = .ok table) :
    table.schema = schema ∧ table.batches = batches := by
  obtain ⟨⟨offsets, rows⟩, -, h⟩ := bind_eq_ok h
  cases h
  exact ⟨rfl, rfl⟩

theorem fields_select {view : ArrowMetadata} {selection : UInt64Array} (h : table.select selection = .ok view) :
    view.schema = table.schema ∧ view.batches = table.batches := by
  unfold select at h
  split_ifs at h
  cases h
  exact ⟨rfl, rfl⟩

/-- The rows of a table are counted in a word, and that is all. -/
theorem exists_new (schema : List Field) {batches : List RecordBatch} (h : (tableRows batches).length < wordSize) :
    ∃ table, new schema batches = .ok table := by
  rw [length_tableRows] at h
  obtain ⟨result, hresult⟩ := Segments.exists_offsets
    (show 0 + (batches.map RecordBatch.numRows).sum < wordSize by rw [Nat.zero_add]; exact h)
  rw [new, hresult]
  exact ⟨_, rfl⟩

theorem valid_select {view : ArrowMetadata} {selection : UInt64Array} (h : table.select selection = .ok view)
    (htable : table.Valid) :
    view.Valid ∧ view.viewRows =
      selection.1.map fun row => (tableRows table.batches).getD (row.getD 0).toNat [] := by
  unfold select at h
  split_ifs at h with hnull hrange
  cases h
  refine ⟨⟨htable.batches, htable.offsets, fun rows hrows row hrow => ?_⟩, ?_⟩
  · obtain rfl := Option.some.inj hrows
    obtain ⟨cell, hcell, rfl⟩ := List.mem_map.mp hrow
    by_contra hge
    exact hrange (List.any_eq_true.mpr ⟨cell, hcell, by simpa using Nat.not_lt.mp hge⟩)
  · exact List.map_map

theorem Valid.rows_eq (h : table.Valid) : table.rows = (tableRows table.batches).length := by
  rw [length_tableRows, Segments.total_offsets h.offsets, Nat.zero_add]

theorem Valid.length_lt (h : table.Valid) : (tableRows table.batches).length < wordSize := by
  rw [← h.rows_eq]
  exact Segments.total_lt_bound (by norm_num [wordSize]) h.offsets

theorem Valid.length_viewRows (h : table.Valid) : table.viewRows.length = table.len := by
  unfold viewRows len
  cases table.selection with
  | some selection => exact List.length_map _
  | none => exact h.rows_eq.symm

theorem Valid.selectedRow_lt (h : table.Valid) {position : ℕ} (hp : position < table.len) :
    table.selectedRow position < table.rows := by
  unfold selectedRow
  unfold len at hp
  cases hs : table.selection with
  | some selection =>
      rw [hs] at hp
      have hlt : position < selection.length := hp
      simp only [List.getD_eq_getElem?_getD, List.getElem?_eq_getElem hlt, Option.getD_some]
      exact h.selection selection hs _ (List.getElem_mem hlt)
  | none =>
      rw [hs] at hp
      exact hp

theorem Valid.getElem?_viewRows (h : table.Valid) {position : ℕ} (hp : position < table.len) :
    table.viewRows[position]? = (tableRows table.batches)[table.selectedRow position]? := by
  have hrow := h.selectedRow_lt hp
  rw [h.rows_eq] at hrow
  unfold viewRows
  unfold selectedRow at hrow ⊢
  unfold len at hp
  cases hs : table.selection with
  | some selection =>
      rw [hs] at hp hrow
      have hlt : position < selection.length := hp
      simp only [List.getD_eq_getElem?_getD, List.getElem?_eq_getElem hlt, Option.getD_some] at hrow ⊢
      rw [List.getElem?_map, List.getElem?_eq_getElem hlt, Option.map_some, List.getElem?_eq_getElem hrow,
        Option.getD_some]
  | none => rfl

/-- Every position of a view is a row of a batch. -/
theorem Valid.location (h : table.Valid) {position : ℕ} (hp : position < table.len) :
    ∃ (b r : ℕ) (batch : RecordBatch), table.batches[b]? = some batch ∧ r < batch.numRows ∧
      table.selectedRow position = ((table.batches.map RecordBatch.numRows).take b).sum + r ∧
      table.location position = .ok (b, r) ∧ table.viewRows[position]? = some (batch.rowAt r) := by
  have hrow := h.selectedRow_lt hp
  rw [h.rows_eq, length_tableRows] at hrow
  obtain ⟨b, len, r, hb, hr, heq⟩ := Segments.exists_segment hrow
  have hlocation := ArrowMetadata.location_of_selectedRow h.offsets hp hb hr heq
  rw [List.getElem?_map, Option.map_eq_some_iff] at hb
  obtain ⟨batch, hbatch, rfl⟩ := hb
  refine ⟨b, r, batch, hbatch, hr, heq, hlocation, ?_⟩
  rw [h.getElem?_viewRows hp, heq]
  exact getElem?_tableRows hbatch hr

end ArrowMetadata

end DatasetRt
