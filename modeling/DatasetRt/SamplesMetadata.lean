import DatasetRt.LoadedCache
import DatasetRt.Sampling
import DatasetRt.Lib.Segments

/-! # The samples metadata table

The population of a dataset is shown to the user as an Arrow table with one row per sample:
its identity, the metadata of its cache and a sampling weight.  This module is the exporter of
the original population (`visit_samples_metadata`), the importers that turn an edited table into
a population (`extract_metadata_arrow`, `extract_metadata_ipc` in `samples_metadata.rs`), and the
row view they work on (`ArrowMetadata` in `arrow_metadata.rs`). -/

namespace DatasetRt

/-! ### Tables with a row view -/

/-- A column of row numbers; an array has a `usize` length. -/
abbrev UInt64Array := { cells : List (Option UInt64) // cells.length < wordSize }

structure ArrowMetadata where
  schema : List Field
  batches : List RecordBatch
  offsets : List ℕ
  rows : ℕ
  selection : Option (List ℕ)

namespace ArrowMetadata

def new (schema : List Field) (batches : List RecordBatch) : CacheResult ArrowMetadata := do
  let (offsets, rows) ← okOr (Segments.offsets wordSize 0 (batches.map RecordBatch.numRows))
    (.invalidInput "metadata row count overflowed usize")
  .ok { schema, batches, offsets, rows, selection := none }

def select (table : ArrowMetadata) (selection : UInt64Array) : CacheResult ArrowMetadata :=
  if selection.1.any Option.isNone then .error (.invalidInput "metadata selection contains nulls")
  else if selection.1.any fun row => table.rows ≤ (row.getD 0).toNat then
    .error (.invalidInput "metadata selection is out of range")
  else .ok { table with selection := some (selection.1.map fun row => (row.getD 0).toNat) }

/-- The number of selected rows. -/
def len (table : ArrowMetadata) : ℕ :=
  match table.selection with
  | some selection => selection.length
  | none => table.rows

/-- The row of the table at a position of the view. -/
def selectedRow (table : ArrowMetadata) (position : ℕ) : ℕ :=
  match table.selection with
  | some selection => selection.getD position 0
  | none => position

def location (table : ArrowMetadata) (position : ℕ) : CacheResult (ℕ × ℕ) :=
  if table.len ≤ position then .error (.invalidInput "metadata row is out of range")
  else
    let row := table.selectedRow position
    match Segments.partitionPoint table.offsets row with
    | 0 => .error (.invalidInput "metadata batch is missing")
    | batchIndex + 1 => do
        let offset ← okOr table.offsets[batchIndex]? .workerFailed
        .ok (batchIndex, row - offset)

end ArrowMetadata

/-! ### Identities -/

/-- `cache_lookup` after the caches before `position`: where a cache identity is. -/
def cacheLookupFrom (lookup : AList fun _ : ℕ => ℕ) (position : ℕ) :
    List LoadedCache → CacheResult (AList fun _ : ℕ => ℕ)
  | [] => .ok lookup
  | cache :: rest =>
      if (lookup.lookup cache.cacheId).isSome then
        .error (.invalidCache s!"duplicate cache_id {cache.cacheId}")
      else cacheLookupFrom (lookup.insert cache.cacheId position) (position + 1) rest

def cacheLookup (caches : List LoadedCache) : CacheResult (AList fun _ : ℕ => ℕ) :=
  cacheLookupFrom ∅ 0 caches

/-- `collect_cache_offsets`: the first physical index of every cache, and the number of samples. -/
def collectCacheOffsets (caches : List LoadedCache) : CacheResult (List ℕ × ℕ) :=
  okOr (Segments.offsets wordSize 0 (caches.map LoadedCache.sampleCount))
    (.invalidInput "total sample count overflowed usize")

/-- What `DatasetState` knows about its caches. -/
structure Population where
  caches : List LoadedCache
  cacheOffsets : List ℕ
  cacheLookup : AList fun _ : ℕ => ℕ
  schema : List MetadataField

def unknownIdentity (cacheId sampleId : ℕ) : CacheError :=
  .invalidInput s!"unknown samples metadata row identity cache_id={cacheId} sample_id={sampleId}"

def physicalIndex (pop : Population) (cacheId sampleId : ℕ) : CacheResult ℕ := do
  let cacheIndex ← okOr (pop.cacheLookup.lookup cacheId) (unknownIdentity cacheId sampleId)
  let cache ← okOr pop.caches[cacheIndex]? (unknownIdentity cacheId sampleId)
  if cache.sampleCount ≤ sampleId then .error (unknownIdentity cacheId sampleId)
  else
    let offset ← okOr pop.cacheOffsets[cacheIndex]? (.invalidCache "cache offset is out of range")
    okOr (checkedAdd offset sampleId) (.invalidInput "physical weight index overflowed usize")

/-- `locate_physical_sample` (`runtime.rs`): the cache and the sample in it. -/
def locatePhysicalSample (pop : Population) (physical : ℕ) : CacheResult (ℕ × ℕ) :=
  match Segments.partitionPoint pop.cacheOffsets physical with
  | 0 => .error (.invalidCache s!"physical sample {physical} is out of range")
  | cacheIndex + 1 => do
      let offset ← okOr pop.cacheOffsets[cacheIndex]? (.invalidCache "cache offset is out of range")
      if physical < offset then .error (.invalidCache s!"physical sample {physical} is out of range")
      else
        let cache ← okOr pop.caches[cacheIndex]? (.invalidCache "cache id is out of range")
        if cache.sampleCount ≤ physical - offset then
          .error (.invalidCache s!"physical sample {physical} is out of range")
        else .ok (cacheIndex, physical - offset)

/-! ### Cells -/

def requiredColumn (batch : RecordBatch) (name : String) : CacheResult Column :=
  okOr (batch.columnByName name) (.invalidInput s!"samples metadata missing '{name}' column")

def nonNegativeI64AsU64 (value : ℤ) (name : String) : CacheResult ℕ :=
  if 0 ≤ value then .ok value.toNat
  else .error (.invalidInput s!"samples metadata column '{name}' must be non-negative")

/-- A cell that `row` of the column holds. -/
def cellAt {α : Type} (cells : List (Option α)) (row : ℕ) (default : α) : α := cells[row]?.join.getD default

def readU64Cell (column : Column) (row : ℕ) (name : String) : CacheResult ℕ :=
  if column.isNull row then .error (.invalidInput s!"samples metadata column '{name}' contains null")
  else
    match column with
    | ⟨.uint64, cells⟩ => .ok (cellAt (α := UInt64) cells row 0).toNat
    | ⟨.uint32, cells⟩ => .ok (cellAt (α := UInt32) cells row 0).toNat
    | ⟨.int64, cells⟩ => nonNegativeI64AsU64 (cellAt (α := Int64) cells row 0).toInt name
    | ⟨.int32, cells⟩ => nonNegativeI64AsU64 (cellAt (α := Int32) cells row 0).toInt name
    | _ => .error (.invalidInput s!"samples metadata column '{name}' must be an integer")

def readF64Cell (column : Column) (row : ℕ) (name : String) : CacheResult Float :=
  if column.isNull row then .error (.invalidInput s!"samples metadata column '{name}' contains null")
  else
    match column with
    | ⟨.float64, cells⟩ => .ok (cellAt (α := Float) cells row 0)
    | ⟨.float32, cells⟩ => .ok (cellAt (α := Float32) cells row 0).toFloat
    | ⟨.uint64, cells⟩ => .ok (Float.ofNat (cellAt (α := UInt64) cells row 0).toNat)
    | ⟨.uint32, cells⟩ => .ok (Float.ofNat (cellAt (α := UInt32) cells row 0).toNat)
    | ⟨.int64, cells⟩ => .ok (Float.ofInt (cellAt (α := Int64) cells row 0).toInt)
    | ⟨.int32, cells⟩ => .ok (Float.ofInt (cellAt (α := Int32) cells row 0).toInt)
    | _ => .error (.invalidInput s!"samples metadata column '{name}' must be numeric")

/-! ### Import -/

/-- `ActiveMetadataTable`. -/
structure ActiveMetadataTable where
  physicalIndices : List ℕ
  weights : List Float
  metadata : ArrowMetadata

def metadataUpdateTypeMatches (actual expected : DataType) : Bool :=
  actual = expected ||
    match actual, expected with
    | .largeUtf8, .utf8 => true
    | .utf8View, .utf8 => true
    | _, _ => false

/-- `Debug` of the Arrow type of a kind. -/
def arrowTypeName : MetadataKind → String
  | .bool => "Boolean"
  | .int => "Int64"
  | .float => "Float64"
  | .string => "Utf8"

/-- One stored column: there, and of its Arrow type. -/
def validateRequiredMetadataColumn (batch : RecordBatch) (field : MetadataField) : CacheResult Unit := do
  let column ← requiredColumn batch field.name
  if metadataUpdateTypeMatches column.dataType (arrowType field.kind) then .ok ()
  else .error (.invalidInput
    s!"samples metadata column '{field.name}' must have Arrow type {arrowTypeName field.kind}")

def validateRequiredMetadataColumns (batch : RecordBatch) (schema : List MetadataField) :
    CacheResult Unit :=
  schema.forM (validateRequiredMetadataColumn batch)

def validateActiveMetadata (rowCount : ℕ) : CacheResult Unit :=
  if rowCount = 0 then .error (.invalidInput "metadata table must include at least one sample") else .ok ()

/-- The identity and weight columns of a batch. -/
structure IdentityColumns where
  cacheIds : Column
  sampleIds : Column
  weights : Column

def identityColumns (batch : RecordBatch) : CacheResult IdentityColumns := do
  let cacheIds ← requiredColumn batch "cache_id"
  let sampleIds ← requiredColumn batch "sample_id"
  let weights ← requiredColumn batch "weight"
  .ok { cacheIds, sampleIds, weights }

/-- One row: its physical index and its weight. -/
def readUpdate (pop : Population) (columns : IdentityColumns) (row : ℕ) : CacheResult (ℕ × Float) := do
  let cacheId ← readU64Cell columns.cacheIds row "cache_id"
  let sampleId ← readU64Cell columns.sampleIds row "sample_id"
  let weight ← readF64Cell columns.weights row "weight"
  let physical ← physicalIndex pop cacheId sampleId
  .ok (physical, weight)

/-- The columns of a batch once it was checked against the schema. -/
def checkedColumns (pop : Population) (batch : RecordBatch) : CacheResult IdentityColumns := do
  validateRequiredMetadataColumns batch pop.schema
  identityColumns batch

/-- The row at a position of the view. -/
def readPosition (pop : Population) (table : ArrowMetadata) (columns : List IdentityColumns)
    (position : ℕ) : CacheResult (ℕ × Float) := do
  let (batchIndex, row) ← table.location position
  let batch ← okOr columns[batchIndex]? .workerFailed
  readUpdate pop batch row

def extractMetadataArrow (pop : Population) (table : ArrowMetadata) : CacheResult ActiveMetadataTable := do
  validateActiveMetadata table.len
  let columns ← table.batches.mapM (checkedColumns pop)
  let updates ← (List.range table.len).mapM (readPosition pop table columns)
  validateWeights (updates.map Prod.snd) table.len
  .ok { physicalIndices := updates.map Prod.fst, weights := updates.map Prod.snd, metadata := table }

/-- One batch of `extract_metadata_ipc`. -/
def applyMetadataBatch (pop : Population) (batch : RecordBatch) : CacheResult (List (ℕ × Float)) := do
  validateRequiredMetadataColumns batch pop.schema
  let columns ← identityColumns batch
  (List.range batch.numRows).mapM (readUpdate pop columns)

/-- The loop of `extract_metadata_ipc` over the batches the reader yields. -/
def applyMetadataBatches (pop : Population) (rowCount : ℕ) :
    List RecordBatch → CacheResult (ℕ × List (ℕ × Float))
  | [] => .ok (rowCount, [])
  | batch :: rest => do
      let next ← okOr (checkedAdd rowCount batch.numRows)
        (.invalidInput "samples metadata row count overflowed usize")
      let updates ← applyMetadataBatch pop batch
      let (total, others) ← applyMetadataBatches pop next rest
      .ok (total, updates ++ others)

def extractMetadataIpc (A : ArrowLib) (pop : Population) (ipc : Bytes) :
    CacheResult ActiveMetadataTable := do
  let (schema, batches) ← arrowResult (A.readFile ipc)
  let (rowCount, updates) ← applyMetadataBatches pop 0 batches
  validateActiveMetadata rowCount
  validateWeights (updates.map Prod.snd) rowCount
  let metadata ← ArrowMetadata.new schema batches
  .ok { physicalIndices := updates.map Prod.fst, weights := updates.map Prod.snd, metadata }

/-! ### Export -/

/-- `METADATA_BATCH_ROWS`. -/
def metadataBatchRows : ℕ := 65536

/-- `samples_metadata_fields`: the columns of the public table. -/
def samplesMetadataFields (schema : List MetadataField) : List Field :=
  [⟨"cache_id", .uint64, false⟩, ⟨"sample_id", .uint64, false⟩] ++ arrowSchema schema ++
    [⟨"weight", .float64, false⟩]

def sampleIdArray (sampleStart rowCount : ℕ) : CacheResult Column := do
  let _stop ← okOr (checkedAdd sampleStart rowCount) (.invalidInput "sample_id range overflowed usize")
  .ok (Column.ofValues .uint64 ((List.range rowCount).map fun i => UInt64.ofNat (sampleStart + i)))

def metadataColumn (batch : RecordBatch) (columnIndex : ℕ) (expected : MetadataField) :
    CacheResult Column := do
  let actual ← okOr batch.schema[columnIndex]? (.invalidCache "metadata field is out of range")
  if actual.name ≠ expected.name ∨ actual.dataType ≠ arrowType expected.kind then
    .error (.invalidCache s!"metadata column '{expected.name}' does not match manifest schema")
  else okOr batch.columns[columnIndex]? (.invalidCache "metadata column is out of range")

def metadataColumns (batch : RecordBatch) (schema : List MetadataField) : CacheResult (List Column) :=
  if batch.columns.length ≠ schema.length then
    .error (.invalidCache "metadata batch column count does not match manifest")
  else schema.zipIdx.mapM fun p => metadataColumn batch p.2 p.1

/-- One batch of the public table; the weights are uniform, one for each row. -/
def samplesMetadataBatch (cacheId sampleStart : ℕ) (schema : List MetadataField) (batch : RecordBatch)
    (weightLen : ℕ) : CacheResult RecordBatch := do
  if batch.numRows ≠ weightLen then
    .error (.invalidCache "metadata and weight row counts diverged")
  else
    let sampleIds ← sampleIdArray sampleStart batch.numRows
    let stored ← metadataColumns batch schema
    RecordBatch.tryNew (samplesMetadataFields schema)
      ([Column.ofValues .uint64 (List.replicate batch.numRows (UInt64.ofNat cacheId)), sampleIds] ++
        stored ++ [Column.ofValues .float64 (List.replicate weightLen (1.0 : Float))])

section visit

-- The iterator of `LoadedCache::metadata_batches`: it opens or fails, and then yields batches.
variable (metadataBatches : LoadedCache → CacheResult (List (CacheResult RecordBatch)))

/-- `(0..rows).step_by(METADATA_BATCH_ROWS)`. -/
def chunkStarts (rows : ℕ) : List ℕ :=
  (List.range ((rows + metadataBatchRows - 1) / metadataBatchRows)).map fun i => i * metadataBatchRows

/-- The chunks of one batch, from sample `sampleStart` of its cache on. -/
def visitChunks (cacheId cacheOffset : ℕ) (schema : List MetadataField) (batch : RecordBatch) :
    ℕ → List ℕ → CacheResult (ℕ × List RecordBatch)
  | sampleStart, [] => .ok (sampleStart, [])
  | sampleStart, start :: rest => do
      let rowCount := min (batch.numRows - start) metadataBatchRows
      let _physical ← okOr (checkedAdd cacheOffset sampleStart)
        (.invalidInput "physical metadata offset overflowed usize")
      let output ← samplesMetadataBatch cacheId sampleStart schema (batch.slice start rowCount) rowCount
      let next ← okOr (checkedAdd sampleStart rowCount)
        (.invalidInput "metadata row count overflowed usize")
      let (stop, others) ← visitChunks cacheId cacheOffset schema batch next rest
      .ok (stop, output :: others)

/-- The batches of one cache. -/
def visitBatches (cacheId cacheOffset : ℕ) (schema : List MetadataField) :
    ℕ → List (CacheResult RecordBatch) → CacheResult (ℕ × List RecordBatch)
  | sampleStart, [] => .ok (sampleStart, [])
  | sampleStart, batch :: rest => do
      let batch ← batch
      let (next, outputs) ←
        visitChunks cacheId cacheOffset schema batch sampleStart (chunkStarts batch.numRows)
      let (stop, others) ← visitBatches cacheId cacheOffset schema next rest
      .ok (stop, outputs ++ others)

/-- One cache. -/
def visitCache (pop : Population) (cacheIndex : ℕ) (cache : LoadedCache) :
    CacheResult (List RecordBatch) := do
  let cacheOffset ← okOr pop.cacheOffsets[cacheIndex]? (.invalidCache "cache offset is out of range")
  let batches ← metadataBatches cache
  let (actual, outputs) ← visitBatches cache.cacheId cacheOffset pop.schema 0 batches
  if actual ≠ cache.sampleCount then
    .error (.invalidCache
      s!"metadata row count for cache {cacheIndex} expected {cache.sampleCount}, got {actual}")
  else .ok outputs

/-- The batches that `visit_samples_metadata` hands to its consumer. -/
def visitSamplesMetadata (pop : Population) : CacheResult (List RecordBatch) := do
  let outputs ← pop.caches.zipIdx.mapM fun p => visitCache metadataBatches pop p.2 p.1
  .ok outputs.flatten

/-- `build_samples_metadata`. -/
def buildSamplesMetadata (pop : Population) : CacheResult ArrowMetadata := do
  let batches ← visitSamplesMetadata metadataBatches pop
  ArrowMetadata.new (samplesMetadataFields pop.schema) batches

end visit

end DatasetRt
