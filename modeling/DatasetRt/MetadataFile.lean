import DatasetRt.Record

/-! # `metadata.arrow`

The rows of a cache are written as Arrow batches of bounded size (`write_metadata_file`) and
read back row by row against the schema of the manifest (`read_metadata_file`).
`readMetadataBytes_write` says that the rows written are the rows read. -/

namespace DatasetRt

def arrowType : MetadataKind → DataType
  | .bool => .boolean
  | .int => .int64
  | .float => .float64
  | .string => .utf8

/-- The Arrow schema of a metadata schema; no column is nullable. -/
def arrowSchema (schema : List MetadataField) : List Field :=
  schema.map fun field => ⟨field.name, arrowType field.kind, false⟩

abbrev Row := List MetadataValue

/-! ### Batching -/

/-- `i32::MAX`. -/
def i32Max : ℕ := 2 ^ 31 - 1

/-- The string bytes of a row, added to `rowBytes`. -/
def rowStringBytes (rowBytes : ℕ) : Row → CacheResult ℕ
  | [] => .ok rowBytes
  | .string value :: rest =>
      if i32Max < value.utf8ByteSize then
        .error (.invalidInput "metadata string exceeds Arrow UTF-8 offset limit")
      else
        match checkedAdd rowBytes value.utf8ByteSize with
        | none => .error (.invalidInput "metadata row byte length overflowed usize")
        | some rowBytes => rowStringBytes rowBytes rest
  | _ :: rest => rowStringBytes rowBytes rest

/-- The loop of `metadata_batch_len`, after `count` rows with `bytes` string bytes. -/
def batchLenFrom (maxStringBytes bytes count : ℕ) : List Row → CacheResult ℕ
  | [] => .ok count
  | row :: rest =>
      match rowStringBytes 0 row with
      | .error error => .error error
      | .ok rowBytes =>
          if 0 < count ∧ maxStringBytes - bytes < rowBytes then .ok count
          else
            match checkedAdd bytes rowBytes with
            | none => .error (.invalidInput "metadata batch byte length overflowed usize")
            | some bytes => batchLenFrom maxStringBytes bytes (count + 1) rest

def metadataBatchLen (rows : List Row) (maxRows maxStringBytes : ℕ) : CacheResult ℕ :=
  batchLenFrom maxStringBytes 0 0 (rows.take maxRows)

/-! ### Columns -/

def metadataCell (row : Row) (column : ℕ) : CacheResult MetadataValue :=
  okOr row[column]? (.invalidInput "metadata column is out of range")

/-- A value as a cell of the column of its kind. -/
def cellOf : (kind : MetadataKind) → MetadataValue → CacheResult (arrowType kind).Cell
  | .bool, .bool value => .ok value
  | .int, .int value => .ok value
  | .float, .float value => .ok value
  | .string, .string value => .ok value
  | _, _ => .error (.invalidInput "metadata kind drifted")

def buildArray (column : ℕ) (kind : MetadataKind) (rows : List Row) : CacheResult Column := do
  let values ← rows.mapM fun row => do
    let value ← metadataCell row column
    cellOf kind value
  .ok (Column.ofValues (arrowType kind) values)

/-- The cell of a column of the right type; the type was checked before. -/
def valueOf (field : MetadataField) (column : Column) (row : ℕ) : CacheResult MetadataValue :=
  match field.kind, column with
  | .bool, ⟨.boolean, cells⟩ => .ok (.bool (cells[row]?.join.getD false))
  | .int, ⟨.int64, cells⟩ => .ok (.int (cells[row]?.join.getD (0 : Int64)))
  | .float, ⟨.float64, cells⟩ => .ok (.float (cells[row]?.join.getD (0.0 : Float)))
  | .string, ⟨.utf8, cells⟩ => .ok (.string (cells[row]?.join.getD ""))
  | kind, _ => .error (.invalidCache s!"metadata '{field.name}' is not {kind.name}")

/-! ### The file -/

section file

variable (L : StorageLib)

/-- One batch of rows. -/
def metadataBatch (schema : List MetadataField) (rows : List Row) : CacheResult RecordBatch := do
  let columns ← schema.zipIdx.mapM fun p => buildArray p.2 p.1.kind rows
  RecordBatch.tryNew (arrowSchema schema) columns

/-- The loop of `write_metadata_file`; every round takes at least one row, so the number of
rows is enough fuel. -/
def metadataBatches (schema : List MetadataField) : ℕ → List Row → CacheResult (List RecordBatch)
  | _, [] => .ok []
  | 0, _ => .ok []
  | fuel + 1, remaining => do
      let len ← metadataBatchLen remaining 65536 (8 * 1024 * 1024)
      if remaining.length < len then .error (.invalidInput "metadata batch range is invalid")
      else
        let batch ← metadataBatch schema (remaining.take len)
        let rest ← metadataBatches schema fuel (remaining.drop len)
        .ok (batch :: rest)

/-- The bytes of `metadata.arrow`. -/
def metadataFileBytes (schema : List MetadataField) (rows : List Row) : CacheResult Bytes := do
  let batches ← metadataBatches schema rows.length rows
  arrowResult (L.arrow.writeFile (arrowSchema schema) batches)

/-- `read_metadata_row`. -/
def readMetadataRow (batch : RecordBatch) (schema : List MetadataField) (row : ℕ) : CacheResult Row :=
  schema.zipIdx.mapM fun p => do
    let column ← okOr batch.columns[p.2]? (.invalidCache "metadata column is missing")
    valueOf p.1 column row

/-- The rows of one batch, after its columns were checked against the schema. -/
def readBatchRows (schema : List MetadataField) (batch : RecordBatch) : CacheResult (List Row) :=
  if batch.columns.length ≠ schema.length then
    .error (.invalidCache "metadata column count does not match manifest schema")
  else
    match (batch.schema.zip schema).find? fun p => p.1.name ≠ p.2.name with
    | some p => .error (.invalidCache s!"metadata column name does not match '{p.2.name}'")
    | none =>
        match (batch.columns.zip schema).find? fun p =>
          p.1.dataType ≠ arrowType p.2.kind ∨ p.1.nullCount ≠ 0 with
        | some p => .error (.invalidCache s!"metadata '{p.2.name}' has invalid type or null values")
        | none => (List.range batch.numRows).mapM (readMetadataRow batch schema)

/-- The rows in the bytes of `metadata.arrow`. -/
def readMetadataBytes (bytes : Bytes) (schema : List MetadataField) : CacheResult (List Row) := do
  let (_, batches) ← arrowResult (L.arrow.readFile bytes)
  let rows ← batches.mapM (readBatchRows schema)
  .ok rows.flatten

end file

/-! ### The rows written are the rows read -/

/-- The value in a cell. -/
def ofCell : (kind : MetadataKind) → (arrowType kind).Cell → MetadataValue
  | .bool, value => .bool value
  | .int, value => .int value
  | .float, value => .float value
  | .string, value => .string value

theorem ofCell_cellOf {kind : MetadataKind} {value : MetadataValue} {cell : (arrowType kind).Cell}
    (h : cellOf kind value = .ok cell) : ofCell kind cell = value ∧ value.kind = kind := by
  cases kind <;> cases value <;> cases h <;> exact ⟨rfl, rfl⟩

theorem getD_map_some {α : Type} (values : List α) (default : α) {j : ℕ} (hj : j < values.length) :
    (values.map some)[j]?.join.getD default = values[j] := by
  simp [hj]

theorem valueOf_ofValues (field : MetadataField) (values : List (arrowType field.kind).Cell) {j : ℕ}
    (hj : j < values.length) :
    valueOf field (Column.ofValues (arrowType field.kind) values) j =
      .ok (ofCell field.kind values[j]) := by
  obtain ⟨name, kind⟩ := field
  cases kind with
  | bool =>
      exact congrArg (fun v => Except.ok (MetadataValue.bool v))
        (getD_map_some (α := Bool) values false hj)
  | int =>
      exact congrArg (fun v => Except.ok (MetadataValue.int v))
        (getD_map_some (α := Int64) values 0 hj)
  | float =>
      exact congrArg (fun v => Except.ok (MetadataValue.float v))
        (getD_map_some (α := Float) values 0.0 hj)
  | string =>
      exact congrArg (fun v => Except.ok (MetadataValue.string v))
        (getD_map_some (α := String) values "" hj)

theorem nullCount_ofValues (dataType : DataType) (values : List dataType.Cell) :
    (Column.ofValues dataType values).nullCount = 0 := by
  simp [Column.nullCount, Column.ofValues, List.countP_map, Function.comp_def]

theorem buildArray_ok {i : ℕ} {kind : MetadataKind} {rows : List Row} {column : Column}
    (h : buildArray i kind rows = .ok column) :
    ∃ values, column = Column.ofValues (arrowType kind) values ∧ values.length = rows.length ∧
      ∀ (j : ℕ) (hj : j < rows.length) (hv : j < values.length),
        rows[j][i]? = some (ofCell kind values[j]) ∧ (ofCell kind values[j]).kind = kind := by
  obtain ⟨values, hvalues, h⟩ := bind_eq_ok h
  cases h
  obtain ⟨hlen, hall⟩ := mapM_eq_ok_iff_getElem.mp hvalues
  refine ⟨values, rfl, hlen.symm, fun j hj hv => ?_⟩
  obtain ⟨value, hcell, hvalue⟩ := bind_eq_ok (hall j hj hv)
  obtain ⟨hof, hkind⟩ := ofCell_cellOf hvalue
  rw [hof]
  exact ⟨okOr_eq_ok.mp hcell, hkind⟩

section batch

variable {schema : List MetadataField} {rows : List Row} {batch : RecordBatch}

/-- Column `i` of a batch is the column of field `i`. -/
structure BatchOf (schema : List MetadataField) (rows : List Row) (batch : RecordBatch) : Prop where
  nonempty : schema ≠ []
  fields : batch.schema = arrowSchema schema
  numRows : batch.numRows = rows.length
  length_eq : batch.columns.length = schema.length
  column : ∀ (i : ℕ) (h : i < schema.length) (hc : i < batch.columns.length),
    buildArray i schema[i].kind rows = .ok batch.columns[i]

theorem batchOf_metadataBatch (h : metadataBatch schema rows = .ok batch) : BatchOf schema rows batch := by
  obtain ⟨columns, hcolumns, h⟩ := bind_eq_ok h
  obtain ⟨hlen, hne, hschema, hcols, hrows⟩ := RecordBatch.tryNew_ok h
  obtain ⟨hlen', hall⟩ := mapM_eq_ok_iff_getElem.mp hcolumns
  rw [List.length_zipIdx] at hlen'
  have hcolumn : ∀ (i : ℕ) (h : i < schema.length) (hc : i < columns.length),
      buildArray i schema[i].kind rows = .ok columns[i] := by
    intro i hi hc
    have := hall i (by simpa using hi) hc
    simpa [List.getElem_zipIdx] using this
  refine ⟨?_, hschema, ?_, by rw [hcols, ← hlen'], ?_⟩
  · rintro rfl
    exact hne (List.eq_nil_of_length_eq_zero (by simpa using hlen'.symm))
  · have hpos : 0 < columns.length := List.length_pos_iff.mpr hne
    obtain ⟨values, hcol, hvlen, -⟩ := buildArray_ok (hcolumn 0 (by omega) hpos)
    rw [← hrows _ (List.getElem_mem hpos), hcol]
    simpa [Column.len, Column.ofValues] using hvlen
  · intro i hi hc
    simp only [hcols] at hc ⊢
    exact hcolumn i hi hc

/-- Every field of the schema has a value of its kind in every row. -/
theorem BatchOf.fits (h : BatchOf schema rows batch) {row : Row} (hrow : row ∈ rows) (i : ℕ)
    (hi : i < schema.length) : ∃ v, row[i]? = some v ∧ v.kind = schema[i].kind := by
  obtain ⟨j, hj, rfl⟩ := List.getElem_of_mem hrow
  obtain ⟨values, -, hvlen, hvalues⟩ := buildArray_ok (h.column i hi (by rw [h.length_eq]; exact hi))
  obtain ⟨hget, hkind⟩ := hvalues j hj (by omega)
  exact ⟨_, hget, hkind⟩

theorem BatchOf.readMetadataRow (h : BatchOf schema rows batch) (j : ℕ) (hj : j < rows.length) :
    readMetadataRow batch schema j = .ok (rows[j].take schema.length) := by
  have hlong : schema.length ≤ rows[j].length := by
    by_contra hlt
    have hi : rows[j].length < schema.length := by omega
    obtain ⟨v, hv, -⟩ := h.fits (List.getElem_mem hj) _ hi
    rw [List.getElem?_eq_none (le_refl _)] at hv
    cases hv
  refine mapM_eq_ok_iff_getElem.mpr ⟨by simp [hlong], fun i h₁ h₂ => ?_⟩
  rw [List.length_zipIdx] at h₁
  have hc : i < batch.columns.length := by rw [h.length_eq]; exact h₁
  obtain ⟨values, hcol, hvlen, hvalues⟩ := buildArray_ok (h.column i h₁ hc)
  obtain ⟨hget, -⟩ := hvalues j hj (by omega)
  have hvalue := valueOf_ofValues schema[i] values (j := j) (by omega)
  rw [← hcol] at hvalue
  have hi : i < rows[j].length := by omega
  rw [List.getElem?_eq_getElem hi, Option.some.injEq] at hget
  simp only [List.getElem_zipIdx, Nat.zero_add, List.getElem?_eq_getElem hc, okOr, bind, Except.bind,
    hvalue, List.getElem_take, hget]

theorem BatchOf.readBatchRows (h : BatchOf schema rows batch) :
    readBatchRows schema batch = .ok (rows.map fun row => row.take schema.length) := by
  have hnames : ((batch.schema.zip schema).find? fun p => p.1.name ≠ p.2.name) = none := by
    rw [List.find?_eq_none, h.fields, arrowSchema, ← List.map_prod_right_eq_zip]
    intro p hp
    obtain ⟨field, -, rfl⟩ := List.mem_map.mp hp
    simp
  have htypes : ((batch.columns.zip schema).find? fun p =>
      p.1.dataType ≠ arrowType p.2.kind ∨ p.1.nullCount ≠ 0) = none := by
    rw [List.find?_eq_none]
    intro p hp
    obtain ⟨i, hi, rfl⟩ := List.mem_iff_getElem.mp hp
    rw [List.length_zip] at hi
    obtain ⟨values, hcol, -, -⟩ := buildArray_ok (h.column i (by omega) (by omega))
    have hnull := nullCount_ofValues (arrowType schema[i].kind) values
    rw [List.getElem_zip, hcol]
    simp only [hnull, ne_eq, not_true_eq_false, or_false]
    simp [Column.ofValues]
  simp only [DatasetRt.readBatchRows, h.length_eq, hnames, htypes, ne_eq, not_true_eq_false, if_false]
  rw [h.numRows]
  refine mapM_eq_ok_iff_getElem.mpr ⟨by simp, fun j h₁ h₂ => ?_⟩
  rw [List.length_range] at h₁
  rw [List.getElem_range, List.getElem_map]
  exact h.readMetadataRow j h₁

end batch

/-! ### All batches -/

theorem batchLenFrom_ok {maxStringBytes : ℕ} : ∀ {rows : List Row} {bytes count n : ℕ},
    batchLenFrom maxStringBytes bytes count rows = .ok n →
    count ≤ n ∧ n ≤ count + rows.length ∧ (count = 0 → rows ≠ [] → 0 < n)
  | [], bytes, count, n, h => by
      cases h
      simp
  | row :: rest, bytes, count, n, h => by
      simp only [batchLenFrom] at h
      cases hrow : rowStringBytes 0 row with
      | error e => rw [hrow] at h; cases h
      | ok rowBytes =>
          rw [hrow] at h
          simp only at h
          split_ifs at h with hbreak
          · cases h
            exact ⟨le_refl _, by omega, fun hzero => by omega⟩
          · cases hadd : checkedAdd bytes rowBytes with
            | none => rw [hadd] at h; cases h
            | some bytes' =>
                rw [hadd] at h
                obtain ⟨hle, hub, -⟩ := batchLenFrom_ok h
                exact ⟨by omega, by simp only [List.length_cons]; omega, fun _ _ => by omega⟩

theorem metadataBatchLen_ok {rows : List Row} {maxRows maxStringBytes n : ℕ}
    (h : metadataBatchLen rows maxRows maxStringBytes = .ok n) (hrows : rows ≠ []) (hmax : 0 < maxRows) :
    0 < n ∧ n ≤ rows.length := by
  obtain ⟨-, hub, hpos⟩ := batchLenFrom_ok h
  refine ⟨hpos rfl ?_, ?_⟩
  · intro hnil
    rcases List.take_eq_nil_iff.mp hnil with h0 | h0
    · omega
    · exact hrows h0
  · rw [List.length_take] at hub
    omega

/-- Every row fits the schema, and the batches are read back as the rows. -/
structure BatchesOf (schema : List MetadataField) (rows : List Row) (batches : List RecordBatch) :
    Prop where
  nonempty : rows ≠ [] → schema ≠ []
  fits : ∀ row ∈ rows, ∀ (i : ℕ) (hi : i < schema.length),
    ∃ v, row[i]? = some v ∧ v.kind = schema[i].kind
  read : ∃ parts, batches.mapM (readBatchRows schema) = .ok parts ∧
    parts.flatten = rows.map fun row => row.take schema.length

theorem batchesOf_metadataBatches {schema : List MetadataField} :
    ∀ (fuel : ℕ) {rows : List Row} {batches : List RecordBatch}, rows.length ≤ fuel →
    metadataBatches schema fuel rows = .ok batches → BatchesOf schema rows batches
  | fuel, [], batches, _, h => by
      have hnil : metadataBatches schema fuel [] = .ok [] := by cases fuel <;> rfl
      rw [hnil] at h
      cases h
      exact ⟨fun hc => absurd rfl hc, by simp, [], rfl, rfl⟩
  | 0, row :: rest, _, hfuel, _ => by simp at hfuel
  | fuel + 1, row :: rest, batches, hfuel, h => by
      obtain ⟨len, hlen, h⟩ := bind_eq_ok h
      obtain ⟨hpos, hle⟩ := metadataBatchLen_ok hlen (by simp) (by norm_num)
      rw [if_neg (Nat.not_lt.mpr hle)] at h
      obtain ⟨batch, hbatch, h⟩ := bind_eq_ok h
      obtain ⟨others, hothers, h⟩ := bind_eq_ok h
      cases h
      have hhead := batchOf_metadataBatch hbatch
      have htail := batchesOf_metadataBatches fuel (by
        rw [List.length_drop]; simp only [List.length_cons] at hfuel ⊢; omega) hothers
      have hsplit := List.take_append_drop len (row :: rest)
      refine ⟨fun _ => hhead.nonempty, fun r hr => ?_, ?_⟩
      · rw [← hsplit] at hr
        rcases List.mem_append.mp hr with hr | hr
        · exact fun i hi => hhead.fits hr i hi
        · exact htail.fits r hr
      · obtain ⟨parts, hparts, hflat⟩ := htail.read
        refine ⟨(((row :: rest).take len).map fun row => row.take schema.length) :: parts, ?_, ?_⟩
        · rw [List.mapM_cons, hhead.readBatchRows, hparts]
          rfl
        · rw [List.flatten_cons, hflat, ← List.map_append, hsplit]

theorem arrowResult_ok {α : Type} {x : Except String α} {a : α} (h : arrowResult x = .ok a) : x = .ok a := by
  cases x <;> simp_all [arrowResult]

/-- **Metadata round trip.**  A file that could be written holds rows that fit the schema, and
reading it gives these rows. -/
theorem readMetadataBytes_write {L : StorageLib} (hL : L.arrow.Lawful) {schema : List MetadataField}
    {rows : List Row} {bytes : Bytes} (h : metadataFileBytes L schema rows = .ok bytes)
    (hrows : rows ≠ []) (hlen : ∀ row ∈ rows, row = [] ∨ row.length = schema.length) :
    schema ≠ [] ∧ (∀ row ∈ rows, RowFits schema row) ∧ readMetadataBytes L bytes schema = .ok rows := by
  obtain ⟨batches, hbatches, h⟩ := bind_eq_ok h
  have hof := batchesOf_metadataBatches rows.length (le_refl _) hbatches
  have hschema := hof.nonempty hrows
  have hlength : ∀ row ∈ rows, row.length = schema.length := by
    intro row hrow
    rcases hlen row hrow with rfl | heq
    · obtain ⟨v, hv, -⟩ := hof.fits [] hrow 0 (List.length_pos_iff.mpr hschema)
      cases hv
    · exact heq
  refine ⟨hschema, fun row hrow => ?_, ?_⟩
  · refine List.forall₂_iff_get.mpr ⟨(hlength row hrow).symm, fun i h₁ h₂ => ?_⟩
    obtain ⟨v, hv, hkind⟩ := hof.fits row hrow i h₁
    rw [List.getElem?_eq_getElem h₂, Option.some.injEq] at hv
    rw [List.get_eq_getElem, List.get_eq_getElem, hv]
    exact hkind
  · obtain ⟨parts, hparts, hflat⟩ := hof.read
    have htake : (rows.map fun row => row.take schema.length) = rows := by
      conv_rhs => rw [← List.map_id rows]
      refine List.map_congr_left fun row hrow => ?_
      rw [← hlength row hrow, List.take_length]
      rfl
    simp only [readMetadataBytes, hL _ _ _ (arrowResult_ok h), arrowResult, bind, Except.bind, hparts,
      hflat, htake]

end DatasetRt
