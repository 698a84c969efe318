import DatasetRt.Lib.Raises
import DatasetRt.SourceWriter

/-! # Errors of the data

The storage functions return errors of their own, never one that stands for an interrupt of Python.  So what
`write_one_source_result` propagates comes from the source. -/

namespace DatasetRt

/-- The result is not a Python interrupt. -/
abbrev DataErrors {α : Type} (r : CacheResult α) : Prop := Raises (fun error => error.isInterrupt = false) r

theorem dataErrors_okOr {α : Type} (o : Option α) {error : CacheError} (h : error.isInterrupt = false) :
    DataErrors (okOr o error) := by
  cases o with
  | none => exact .error h
  | some a => exact .ok a

/-! ### Codecs and records -/

section records

variable (L : StorageLib)

theorem dataErrors_jsonResult {α : Type} (x : Except String α) : DataErrors (jsonResult x) := by
  cases x with
  | error message => exact .error rfl
  | ok a => exact .ok a

theorem dataErrors_arrowResult {α : Type} (x : Except String α) : DataErrors (arrowResult x) := by
  cases x with
  | error message => exact .error rfl
  | ok a => exact .ok a

theorem dataErrors_codecResult {α : Type} (message : String) (x : Except String α) :
    DataErrors (codecResult message x) := by
  cases x with
  | error error => exact .error rfl
  | ok a => exact .ok a

theorem dataErrors_sizePrefix (data : Bytes) (message : String) : DataErrors (sizePrefix data message) := by
  unfold sizePrefix
  split_ifs
  · exact .ok _
  · exact .error rfl

theorem dataErrors_lengthU64 (bytes : Bytes) (message : String) : DataErrors (lengthU64 bytes message) := by
  unfold lengthU64
  split_ifs
  · exact .ok _
  · exact .error rfl

theorem dataErrors_compressPayload (data : Bytes) (compression : ShardCompression) :
    DataErrors (compressPayload L.codec data compression) := by
  have hrecord : ∀ mode, DataErrors (compressRecord L.codec data mode) := fun mode =>
    (dataErrors_codecResult _ _).bind fun _ => dataErrors_codecResult _ _
  have hlz4 : DataErrors (do
      let size ← sizePrefix data "LZ4 payload exceeds u32 size-prefix limit"
      let body ← codecResult "failed to compress LZ4 payload: " (L.codec.lz4FlexCompress data)
      (.ok (size ++ body) : CacheResult Bytes)) :=
    (dataErrors_sizePrefix _ _).bind fun _ => (dataErrors_codecResult _ _).bind fun _ => .ok _
  cases compression with
  | none => exact .ok _
  | lz4Fast acceleration => exact hrecord _
  | lz4HC level => exact hrecord _
  | brotli level =>
      exact (dataErrors_sizePrefix _ _).bind fun _ => (dataErrors_codecResult _ _).bind fun _ => .ok _
  | legacy algo ratio =>
      cases algo with
      | none => exact .ok _
      | lz4 => exact hlz4
      | brotli => exact hlz4

theorem dataErrors_fieldValue (what : String) (metadata : MetadataMap) (field : MetadataField) :
    DataErrors (fieldValue .invalidInput what metadata field) := by
  unfold fieldValue
  split
  · split_ifs
    · exact .ok _
    · exact .error rfl
  · exact .error rfl

theorem dataErrors_encodeSampleRecord (payload : Bytes) (schema : List MetadataField) (row : Row) :
    DataErrors (encodeSampleRecord L payload schema row) := by
  have hobject : DataErrors (metadataRowToObject schema row) := by
    unfold metadataRowToObject
    split_ifs
    · exact .error rfl
    · exact .ok _
  refine hobject.bind fun object => (dataErrors_jsonResult _).bind fun json => ?_
  exact (dataErrors_lengthU64 _ _).bind fun len => (dataErrors_okOr _ rfl).bind fun _ => .ok _

theorem dataErrors_encodeStoredRecord (data : Bytes) (schema : List MetadataField) (row : Row)
    (compression : ShardCompression) : DataErrors (encodeStoredRecord L data schema row compression) := by
  unfold encodeStoredRecord
  split_ifs
  · refine (dataErrors_encodeSampleRecord L _ _ _).bind fun record => (dataErrors_lengthU64 _ _).bind fun len => ?_
    exact (dataErrors_compressPayload L _ _).bind fun bytes => .ok _
  · refine (dataErrors_lengthU64 _ _).bind fun len => (dataErrors_compressPayload L _ _).bind fun payload => ?_
    exact (dataErrors_encodeSampleRecord L _ _ _).bind fun bytes => .ok _

theorem dataErrors_readU64 (bytes : Bytes) : DataErrors (readU64 bytes) := by
  unfold readU64
  split_ifs
  · exact .ok _
  · exact .error rfl

theorem dataErrors_readIndexEntry (bytes : Bytes) : DataErrors (readIndexEntry bytes) := by
  unfold readIndexEntry
  refine (dataErrors_okOr _ rfl).bind fun _ => (dataErrors_readU64 _).bind fun _ => ?_
  refine (dataErrors_okOr _ rfl).bind fun _ => (dataErrors_readU64 _).bind fun _ => ?_
  exact (dataErrors_okOr _ rfl).bind fun _ => (dataErrors_readU64 _).bind fun _ => .ok _

end records

/-! ### The metadata file -/

section metadata

variable (L : StorageLib)

theorem dataErrors_rowStringBytes : ∀ (rowBytes : ℕ) (row : Row), DataErrors (rowStringBytes rowBytes row)
  | _, [] => .ok _
  | rowBytes, value :: rest => by
      cases value with
      | string text =>
          rw [rowStringBytes]
          split_ifs
          · exact .error rfl
          · cases checkedAdd rowBytes text.utf8ByteSize with
            | none => exact .error rfl
            | some sum => exact dataErrors_rowStringBytes sum rest
      | bool _ => exact dataErrors_rowStringBytes rowBytes rest
      | int _ => exact dataErrors_rowStringBytes rowBytes rest
      | float _ => exact dataErrors_rowStringBytes rowBytes rest

theorem dataErrors_batchLenFrom (maxStringBytes : ℕ) : ∀ (bytes count : ℕ) (rows : List Row),
    DataErrors (batchLenFrom maxStringBytes bytes count rows)
  | _, _, [] => .ok _
  | bytes, count, row :: rest => by
      have hrow := dataErrors_rowStringBytes 0 row
      rw [batchLenFrom]
      cases hbytes : rowStringBytes 0 row with
      | error error => exact .error (hrow error hbytes)
      | ok rowBytes =>
          simp only
          split_ifs
          · exact .ok _
          · cases checkedAdd bytes rowBytes with
            | none => exact .error rfl
            | some sum => exact dataErrors_batchLenFrom maxStringBytes sum (count + 1) rest

theorem dataErrors_cellOf (kind : MetadataKind) (value : MetadataValue) : DataErrors (cellOf kind value) := by
  cases kind <;> cases value <;> first | exact .ok _ | exact .error rfl

theorem dataErrors_tryNew (schema : List Field) (columns : List Column) :
    DataErrors (RecordBatch.tryNew schema columns) := by
  unfold RecordBatch.tryNew
  split_ifs
  · exact .error rfl
  · cases columns with
    | nil => exact .error rfl
    | cons first rest =>
        simp only
        split_ifs
        · exact .ok _
        · exact .error rfl

theorem dataErrors_metadataBatch (schema : List MetadataField) (rows : List Row) :
    DataErrors (metadataBatch schema rows) := by
  have harray : ∀ column kind, DataErrors (buildArray column kind rows) := fun column kind =>
    (Raises.mapM fun row _ => (dataErrors_okOr _ rfl).bind fun value => dataErrors_cellOf kind value).bind
      fun values => .ok _
  exact (Raises.mapM fun p _ => harray p.2 p.1.kind).bind fun columns => dataErrors_tryNew _ _

theorem dataErrors_metadataBatches (schema : List MetadataField) : ∀ (fuel : ℕ) (rows : List Row),
    DataErrors (metadataBatches schema fuel rows)
  | 0, [] => .ok _
  | _ + 1, [] => .ok _
  | 0, _ :: _ => .ok _
  | fuel + 1, row :: rest => by
      have hlen : DataErrors (metadataBatchLen (row :: rest) 65536 (8 * 1024 * 1024)) :=
        dataErrors_batchLenFrom _ _ _ _
      refine hlen.bind fun len => ?_
      split_ifs
      · exact .error rfl
      · refine (dataErrors_metadataBatch schema _).bind fun batch => ?_
        exact (dataErrors_metadataBatches schema fuel _).bind fun rest => .ok _

theorem dataErrors_metadataFileBytes (schema : List MetadataField) (rows : List Row) :
    DataErrors (metadataFileBytes L schema rows) :=
  (dataErrors_metadataBatches schema _ _).bind fun _ => dataErrors_arrowResult _

theorem dataErrors_valueOf (field : MetadataField) (column : Column) (row : ℕ) :
    DataErrors (valueOf field column row) := by
  unfold valueOf
  split <;> first | exact .ok _ | exact .error rfl

theorem dataErrors_readBatchRows (schema : List MetadataField) (batch : RecordBatch) :
    DataErrors (readBatchRows schema batch) := by
  have hrow : ∀ row, DataErrors (readMetadataRow batch schema row) := fun row =>
    Raises.mapM fun p _ => (dataErrors_okOr _ rfl).bind fun column => dataErrors_valueOf p.1 column row
  unfold readBatchRows
  split_ifs
  · exact .error rfl
  · split
    · exact .error rfl
    · split
      · exact .error rfl
      · exact Raises.mapM fun row _ => hrow row

theorem dataErrors_readMetadataBytes (bytes : Bytes) (schema : List MetadataField) :
    DataErrors (readMetadataBytes L bytes schema) := by
  refine (dataErrors_arrowResult _).bind fun file => ?_
  exact (Raises.mapM fun batch _ => dataErrors_readBatchRows schema batch).bind fun rows => .ok _

end metadata

/-! ### The builder -/

namespace CacheBuilder

variable {L : StorageLib}

theorem dataErrors_pushRecord (b : CacheBuilder) (row : Row) (record : EncodedRecord) :
    DataErrors (b.pushRecord L row record).2 := by
  have hrotate : DataErrors (b.rotateShardIfNeeded L record.bytes.length).2 := by
    unfold rotateShardIfNeeded
    split_ifs
    · exact .ok _
    · exact .ok _
    · cases checkedAdd b.currentShard.id 1 with
      | none => exact .error rfl
      | some nextId => exact .ok _
  unfold pushRecord
  rcases hrotated : b.rotateShardIfNeeded L record.bytes.length with ⟨b', error | u⟩
  · exact .error (hrotate error (by rw [hrotated]))
  · have hwrite : DataErrors (b'.currentShard.writePayload record.bytes record.uncompressedByteLen) := by
      refine (dataErrors_lengthU64 _ _).bind fun dataLen => (dataErrors_okOr _ rfl).bind fun byteLen => ?_
      exact (dataErrors_okOr _ rfl).bind fun _ => .ok _
    simp only
    cases hshard : b'.currentShard.writePayload record.bytes record.uncompressedByteLen with
    | error error => exact .error (hwrite error hshard)
    | ok written => exact .ok _

theorem dataErrors_pushSample (b : CacheBuilder) (data : Bytes) (metadata : MetadataMap) :
    DataErrors (b.pushSample L data metadata).2 := by
  have hvalidated : DataErrors (validateMetadata b.schema metadata).2 := by
    unfold validateMetadata
    simp only
    split_ifs <;> first | exact .error rfl | exact Raises.mapM fun field _ => dataErrors_fieldValue _ _ _
  unfold pushSample
  simp only
  cases hrow : (validateMetadata b.schema metadata).2 with
  | error error => exact .error (hvalidated error hrow)
  | ok row =>
      simp only
      cases hrecord : encodeStoredRecord L data (validateMetadata b.schema metadata).1 row b.shardCompression with
      | error error => exact .error (dataErrors_encodeStoredRecord L _ _ _ _ error hrecord)
      | ok record =>
          exact dataErrors_pushRecord _ row record

theorem dataErrors_finish (b : CacheBuilder) : DataErrors (b.finish L).2 := by
  unfold finish
  split_ifs
  · exact .error rfl
  · cases hmetadata : metadataFileBytes L b.schema b.metadataRows with
    | error error => exact .error (dataErrors_metadataFileBytes L _ _ error hmetadata)
    | ok metadata =>
        simp only
        split
        · rename_i error herror
          exact .error (dataErrors_jsonResult _ error herror)
        · exact .ok _

section faults

variable (faults : WriterFaults)

theorem dataErrors_pushSampleOn (b : CacheBuilder) (data : Bytes) (metadata : MetadataMap) :
    DataErrors (b.pushSampleOn L faults data metadata).2 := by
  have hpush := dataErrors_pushSample (L := L) b data metadata
  unfold pushSampleOn
  rcases hpushed : b.pushSample L data metadata with ⟨b', error | u⟩
  · exact .error (hpush error (by rw [hpushed]))
  · cases faults.push b.index.length with
    | none => exact .ok _
    | some message => exact .error rfl

theorem dataErrors_pushAllOn (b : CacheBuilder) (samples : List (Bytes × MetadataMap)) :
    DataErrors (b.pushAllOn L faults samples).2 := by
  induction samples generalizing b with
  | nil => exact .ok _
  | cons sample rest ih =>
      obtain ⟨data, metadata⟩ := sample
      have hpush := dataErrors_pushSampleOn (L := L) faults b data metadata
      rw [pushAllOn]
      rcases hpushed : b.pushSampleOn L faults data metadata with ⟨b', error | u⟩
      · exact .error (hpush error (by rw [hpushed]))
      · exact ih b'

theorem dataErrors_finishOn (b : CacheBuilder) : DataErrors (b.finishOn L faults).2 := by
  have hfinish := dataErrors_finish (L := L) b
  unfold finishOn
  cases faults.finish with
  | some message =>
      simp only
      split_ifs
      · exact hfinish
      · exact .error rfl
  | none =>
      simp only
      rcases hfinished : b.finish L with ⟨dir, error | manifest⟩
      · exact .error (hfinish error (by rw [hfinished]))
      · exact .ok _

end faults

theorem dataErrors_create (present parents : Bool) (path : Path) (sourceName : String) (maxShardBytes : ℕ)
    (compression : ShardCompression) :
    DataErrors (create present parents path sourceName maxShardBytes compression) := by
  unfold create
  split_ifs
  · exact .error rfl
  · exact .ok _
  · exact .error rfl

end CacheBuilder

/-! ### Loading a cache -/

section load

variable (L : StorageLib) (fs : FileTree)

theorem dataErrors_ofJson (json : Json) : DataErrors (Manifest.ofJson L.json json) := by
  have hunique : ∀ (fields : List (String × Json)) (seen : FieldMap), DataErrors (Manifest.uniqueFields seen fields) := by
    intro fields
    induction fields with
    | nil => exact fun seen => .ok _
    | cons field rest ih =>
        intro seen
        obtain ⟨name, value⟩ := field
        rw [Manifest.uniqueFields]
        split_ifs
        · exact .error rfl
        · exact ih _
  have hversion : ∀ version body, DataErrors (Manifest.ofVersion version body (.json (L.json.describe json))) := by
    intro version body
    unfold Manifest.ofVersion
    split_ifs
    · exact (dataErrors_okOr _ rfl).map _
    · exact (dataErrors_okOr _ rfl).map _
    · exact (dataErrors_okOr _ rfl).map _
    · exact .error rfl
  unfold Manifest.ofJson
  refine (dataErrors_okOr _ rfl).bind fun object => (hunique object ∅).bind fun fields => ?_
  refine (dataErrors_okOr _ rfl).bind fun version => (hversion version _).bind fun manifest => ?_
  split_ifs
  · exact .error rfl
  · exact .ok _

theorem dataErrors_openFile (path : Path) : DataErrors (openFile fs path) := dataErrors_okOr _ rfl

theorem dataErrors_readManifest (path : Path) : DataErrors (readManifest L fs path) := by
  unfold readManifest
  simp only
  split_ifs
  · refine (dataErrors_openFile fs _).bind fun text => (dataErrors_jsonResult _).bind fun json => ?_
    exact dataErrors_ofJson L json
  · exact .error rfl

theorem dataErrors_verifyFileChecksum (path : Path) (expected : String) :
    DataErrors (verifyFileChecksum L fs path expected) := by
  have hhash : DataErrors (hashFile L fs path) := (dataErrors_openFile fs _).bind fun bytes => .ok _
  refine hhash.bind fun actual => ?_
  split_ifs
  · exact .error rfl
  · exact .ok _

theorem dataErrors_verifyShard (path : Path) (validateCache : Bool) (shard : ShardManifest) :
    DataErrors (verifyShard L fs path validateCache shard) := by
  refine (dataErrors_openFile fs _).bind fun bytes => ?_
  split_ifs
  · exact .error rfl
  · exact dataErrors_verifyFileChecksum L fs _ _
  · exact .ok _

theorem dataErrors_verifyChecksums (path : Path) (manifest : Manifest) (validateCache : Bool) :
    DataErrors (verifyChecksums L fs path manifest validateCache) := by
  unfold verifyChecksums
  split_ifs
  · exact (dataErrors_verifyFileChecksum L fs _ _).bind fun _ => dataErrors_verifyFileChecksum L fs _ _
  · exact .ok _

theorem dataErrors_openIndex (path : Path) : DataErrors (MappedIndex.openFile fs path) := by
  refine (dataErrors_okOr _ rfl).bind fun bytes => ?_
  split_ifs
  · exact .error rfl
  · exact .ok _

theorem dataErrors_loadRows (path : Path) (manifest : Manifest) (validateCache : Bool) :
    DataErrors (loadRows L fs path manifest validateCache) := by
  unfold loadRows
  simp only
  split_ifs
  · exact ((dataErrors_openFile fs _).bind fun bytes => dataErrors_readMetadataBytes L bytes _).map _
  · exact .ok _
  · exact .error rfl

theorem dataErrors_validateLoadedShapes (manifest : Manifest) (rows : Option (List Row)) (index : MappedIndex) :
    DataErrors (validateLoadedShapes manifest rows index) := by
  unfold validateLoadedShapes
  simp only
  split_ifs
  · exact .error rfl
  · exact .error rfl
  · refine Raises.forM fun entry hentry => ?_
    obtain ⟨i, -, rfl⟩ := List.mem_map.mp hentry
    refine (dataErrors_readIndexEntry _).bind fun entry => ?_
    split_ifs
    · exact .error rfl
    · exact .ok _

/-- **Loading a cache** never raises an interrupt. -/
theorem dataErrors_loadCache (path : Path) (validateCache : Bool) (position : ℕ) :
    DataErrors (loadCache L fs path validateCache position) := by
  have hid : ∀ manifest : Manifest, DataErrors (manifest.resolveCacheId position) := by
    intro manifest
    cases manifest <;> exact .ok _
  refine (dataErrors_readManifest L fs _).bind fun manifest => (hid manifest).bind fun cacheId => ?_
  refine (dataErrors_verifyChecksums L fs _ _ _).bind fun _ => ?_
  refine Raises.bind (Raises.forM fun shard _ => dataErrors_verifyShard L fs _ _ shard) fun _ => ?_
  refine (dataErrors_openIndex fs _).bind fun index => (dataErrors_loadRows L fs _ _ _).bind fun rows => ?_
  exact (dataErrors_validateLoadedShapes _ _ _).bind fun _ => .ok _

end load

/-! ### Directories of a source -/

section directories

variable (fs : FileTree)

theorem dataErrors_removeDirectory (path : Path) : DataErrors (removeDirectory fs path) := by
  unfold removeDirectory
  split
  · exact .ok _
  · exact .error rfl
  · exact .error rfl

theorem dataErrors_prepareCachePaths (cachePath tempPath : Path) :
    DataErrors (prepareCachePaths fs cachePath tempPath) := by
  unfold prepareCachePaths
  split_ifs
  · exact .error rfl
  · exact dataErrors_removeDirectory fs _
  · exact .ok _

end directories

end DatasetRt
