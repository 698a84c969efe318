import DatasetRt.MetadataFile

/-! # Building a cache

`CacheBuilder` (`storage.rs`) appends records to shard files, keeps the index and the metadata
rows in memory, and writes `metadata.arrow`, `index.bin` and, last, `manifest.json` when it is
finished.  It owns its directory: `dir` is what lies below `path`.

A buffered writer is the list of bytes handed to it; they are in the file once it is flushed.
Operations that can fail half way return the builder as they leave it. -/

namespace DatasetRt

structure IndexEntry where
  shardId : ℕ
  offset : ℕ
  byteLen : ℕ
deriving DecidableEq, Repr

/-- `hex::encode`. -/
def hexEncode (bytes : Bytes) : String :=
  String.ofList (bytes.flatMap fun b => [Nat.digitChar (b.toNat / 16), Nat.digitChar (b.toNat % 16)])

/-- `format!("{id:06}.bin")`. -/
def shardName (id : ℕ) : String :=
  let digits := Nat.toDigits 10 id
  String.ofList (List.replicate (6 - digits.length) '0' ++ digits ++ ".bin".toList)

structure OpenShard where
  id : ℕ
  name : String
  /-- The bytes handed to the file. -/
  writer : Bytes
  byteLen : ℕ
  uncompressedByteLen : ℕ
  /-- The bytes handed to the hash. -/
  hasher : Bytes

namespace OpenShard

def create (id : ℕ) : OpenShard :=
  { id, name := shardName id, writer := [], byteLen := 0, uncompressedByteLen := 0, hasher := [] }

def writePayload (s : OpenShard) (data : Bytes) (uncompressedByteLen : ℕ) :
    CacheResult (OpenShard × IndexEntry) := do
  let dataLen ← lengthU64 data "stored payload byte length does not fit in u64"
  let byteLen ← okOr (checkedAdd s.byteLen dataLen) (.invalidInput "shard byte length overflowed u64")
  let uncompressedByteLen ← okOr (checkedAdd s.uncompressedByteLen uncompressedByteLen)
    (.invalidInput "shard uncompressed byte length overflowed u64")
  .ok ({ s with
      writer := s.writer ++ data
      hasher := s.hasher ++ data
      byteLen
      uncompressedByteLen },
    { shardId := s.id, offset := s.byteLen, byteLen := data.length })

/-- `OpenShard::finish`, after the flush. -/
def finish (L : StorageLib) (s : OpenShard) (compression : ShardCompression) : ShardManifest :=
  { name := s.name
    uncompressedByteLen := s.uncompressedByteLen
    byteLen := s.byteLen
    compression
    sha256 := hexEncode (L.sha256 s.hasher) }

end OpenShard

structure CacheBuilder where
  path : Path
  dir : FileTree
  sourceName : String
  maxShardBytes : ℕ
  schema : List MetadataField
  metadataRows : List Row
  index : List IndexEntry
  shards : List ShardManifest
  shardCompression : ShardCompression
  currentShard : OpenShard

/-- Where a shard lies in the directory of its cache. -/
def shardFile (name : String) : Path := ["shards", name]

/-- `cache_id_from_name`: the first 63 bits of the hash of the name. -/
def cacheIdFromName (L : StorageLib) (name : String) : ℕ :=
  Bytes.toNatLe ((L.sha256 name.toUTF8.data.toList).take 8).reverse % 2 ^ 63

/-- One row of `index.bin`. -/
def IndexEntry.toBytes (entry : IndexEntry) : Bytes :=
  Bytes.ofNatLe 8 entry.shardId ++ Bytes.ofNatLe 8 entry.offset ++ Bytes.ofNatLe 8 entry.byteLen

/-- The bytes of `index.bin`. -/
def indexBytes (index : List IndexEntry) : Bytes := index.flatMap IndexEntry.toBytes

namespace CacheBuilder

variable (L : StorageLib)

/-- A directory with an empty first shard. -/
def emptyDir : FileTree := fun p =>
  if p = [] ∨ p = ["shards"] then some .dir
  else if p = shardFile (shardName 0) then some (.file [])
  else none

/-- `create` with the directory made; `parents` says whether `create_dir_all` succeeds. -/
def create (present parents : Bool) (path : Path) (sourceName : String) (maxShardBytes : ℕ)
    (shardCompression : ShardCompression) : CacheResult CacheBuilder :=
  if present then .error (.invalidInput s!"cache path already exists: {path.display}")
  else if parents then
    .ok { path, dir := emptyDir, sourceName, maxShardBytes, schema := [], metadataRows := []
          index := [], shards := [], shardCompression, currentShard := OpenShard.create 0 }
  else .error (.io s!"cannot create {path.display}")

/-- `validate_metadata`: the first metadata with a key fixes the schema. -/
def validateMetadata (schema : List MetadataField) (metadata : MetadataMap) :
    List MetadataField × CacheResult Row :=
  let schema :=
    if schema = [] then metadata.toList.map fun p => ⟨p.1, p.2.kind⟩ else schema
  (schema,
    if metadata.size ≠ schema.length then
      .error (.invalidInput "metadata keys must be identical for every sample")
    else schema.mapM (fieldValue .invalidInput "metadata" metadata))

def rotateShardIfNeeded (b : CacheBuilder) (nextPayloadLen : ℕ) : CacheBuilder × CacheResult Unit :=
  if b.currentShard.byteLen = 0 then (b, .ok ())
  else if nextPayloadLen ≤ b.maxShardBytes - b.currentShard.byteLen then (b, .ok ())
  else
    match checkedAdd b.currentShard.id 1 with
    | none => (b, .error (.invalidInput "shard id overflowed u64"))
    | some nextId =>
        let closed := b.currentShard
        let created := b.dir.write (shardFile (shardName nextId)) []
        ({ b with
            currentShard := OpenShard.create nextId
            dir := created.write (shardFile closed.name) closed.writer
            shards := b.shards ++ [closed.finish L b.shardCompression] },
          .ok ())

/-- The end of `push_sample`, once the record is encoded. -/
def pushRecord (b : CacheBuilder) (row : Row) (record : EncodedRecord) :
    CacheBuilder × CacheResult Unit :=
  match b.rotateShardIfNeeded L record.bytes.length with
  | (b, .error error) => (b, .error error)
  | (b, .ok ()) =>
      match b.currentShard.writePayload record.bytes record.uncompressedByteLen with
      | .error error => (b, .error error)
      | .ok (currentShard, entry) =>
          ({ b with
              currentShard
              index := b.index ++ [entry]
              metadataRows := b.metadataRows ++ [row] },
            .ok ())

def pushSample (b : CacheBuilder) (data : Bytes) (metadata : MetadataMap) :
    CacheBuilder × CacheResult Unit :=
  let validated := validateMetadata b.schema metadata
  let b := { b with schema := validated.1 }
  match validated.2 with
  | .error error => (b, .error error)
  | .ok row =>
      match encodeStoredRecord L data b.schema row b.shardCompression with
      | .error error => (b, .error error)
      | .ok record => b.pushRecord L row record

/-- The manifest of a finished cache. -/
def manifestOf (b : CacheBuilder) (metadataSha256 indexSha256 : String) (shards : List ShardManifest) :
    Manifest :=
  let fields : ManifestFields :=
    { sourceName := b.sourceName
      sampleCount := b.index.length
      metadataSchema := b.schema
      metadataSha256
      indexSha256
      shards
      extra := ∅ }
  let cacheId := cacheIdFromName L b.sourceName
  if b.shardCompression.wholeRecord then .v4 cacheId fields else .v3 cacheId fields

/-- `finish`: the directory as it is left, and the manifest. -/
def finish (b : CacheBuilder) : FileTree × CacheResult Manifest :=
  if b.index = [] then (b.dir, .error (.invalidInput "cache source yielded no samples"))
  else
    let finalShard := b.currentShard.finish L b.shardCompression
    let dir := b.dir.write (shardFile b.currentShard.name) b.currentShard.writer
    match metadataFileBytes L b.schema b.metadataRows with
    | .error error => (dir.write ["metadata.arrow"] [], .error error)
    | .ok metadata =>
        let dir := dir.write ["metadata.arrow"] metadata
        let index := indexBytes b.index
        let dir := dir.write ["index.bin"] index
        let manifest := b.manifestOf L (hexEncode (L.sha256 metadata)) (hexEncode (L.sha256 index))
          (b.shards ++ [finalShard])
        match jsonResult (L.json.print manifest.toJson) with
        | .error error => (dir.write ["manifest.json"] [], .error error)
        | .ok text => (dir.write ["manifest.json"] text, .ok manifest)

/-- The samples of a source, one after the other; the first rejected one ends it. -/
def pushAll (b : CacheBuilder) : List (Bytes × MetadataMap) → CacheBuilder × CacheResult Unit
  | [] => (b, .ok ())
  | (data, metadata) :: rest =>
      match b.pushSample L data metadata with
      | (b, .ok ()) => b.pushAll rest
      | (b, .error error) => (b, .error error)

end CacheBuilder

end DatasetRt
