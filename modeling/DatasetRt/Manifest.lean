import DatasetRt.Json
import DatasetRt.Metadata
import DatasetRt.Compression

/-! # The manifest and its JSON form

`Manifest` (`storage/manifest.rs`) is the versioned record of a cache.  `toJson` is its
`Serialize` and `ofJson` its `Deserialize` instance, down to the wire form of the compression
policies; `ofJson_toJson` says that what was written is read back. -/

namespace DatasetRt

structure ShardManifest where
  name : String
  uncompressedByteLen : ℕ
  byteLen : ℕ
  compression : ShardCompression
  sha256 : String

/-- The fields of a JSON object by name. -/
abbrev FieldMap := Std.ExtTreeMap String Json compare

/-- The storage fields all versions share; `extra` keeps what applications added. -/
structure ManifestFields where
  sourceName : String
  sampleCount : ℕ
  metadataSchema : List MetadataField
  metadataSha256 : String
  indexSha256 : String
  shards : List ShardManifest
  extra : FieldMap

inductive Manifest where
  | v2 (fields : ManifestFields)
  | v3 (cacheId : ℕ) (fields : ManifestFields)
  | v4 (cacheId : ℕ) (fields : ManifestFields)

namespace Manifest

def fields : Manifest → ManifestFields
  | v2 fields => fields
  | v3 _ fields => fields
  | v4 _ fields => fields

def wholeRecord : Manifest → Bool
  | v4 _ _ => true
  | _ => false

/-- `resolve_cache_id`: a legacy cache is identified by its position in the list. -/
def resolveCacheId (position : ℕ) : Manifest → CacheResult ℕ
  | v2 _ => .ok position
  | v3 cacheId _ => .ok cacheId
  | v4 cacheId _ => .ok cacheId

def intoV3 (cacheId : ℕ) : Manifest → Manifest
  | v2 fields => v3 cacheId { fields with extra := fields.extra.erase "cache_id" }
  | v3 id fields => v3 id fields
  | v4 id fields => v4 id fields

end Manifest

/-! ### Compression policies on the wire -/

inductive RecordOptions where
  | none
  | fast (acceleration : ℤ)
  | hc (level : ℤ)
  | brotli (level : ℤ)

inductive CompressionWire where
  | record (algo : CompressionAlgo) (options : RecordOptions)
  | legacy (algo : CompressionAlgo) (ratio : Float)

namespace ShardCompression

def toJson : ShardCompression → Json
  | legacy algo ratio => .obj [("algo", .str algo.name), ("ratio", .num (.float ratio))]
  | none => .obj [("algo", .str "none"), ("mode", .str "none")]
  | lz4Fast acceleration =>
      .obj [("algo", .str "lz4"), ("mode", .str "fast"), ("acceleration", Json.ofI32 acceleration)]
  | lz4HC level => .obj [("algo", .str "lz4"), ("mode", .str "hc"), ("level", Json.ofI32 level)]
  | brotli level =>
      .obj [("algo", .str "brotli"), ("mode", .str "brotli"), ("level", Json.ofI32 level)]

end ShardCompression

/-- Reading a `CompressionAlgo`. -/
def readAlgo (fields : List (String × Json)) : Option CompressionAlgo := do
  let name ← (Json.getField fields "algo").bind Json.asVariant
  match CompressionAlgo.fromName name with
  | .ok algo => some algo
  | .error _ => none

/-- `deny_unknown_fields`. -/
def onlyFields (fields : List (String × Json)) (names : List String) : Bool :=
  fields.all fun field => names.contains field.1

/-- A mode with one parameter. -/
def readLevel (fields : List (String × Json)) (name : String) : Option ℤ :=
  if onlyFields fields ["algo", "mode", name] then (Json.getField fields name).bind Json.asI32
  else none

/-- The internally tagged options; the mode without parameters ignores other fields. -/
def readOptions (fields : List (String × Json)) : Option RecordOptions := do
  let mode ← (Json.getField fields "mode").bind Json.asStr
  if mode = "none" then some .none
  else if mode = "fast" then (readLevel fields "acceleration").map .fast
  else if mode = "hc" then (readLevel fields "level").map .hc
  else if mode = "brotli" then (readLevel fields "level").map .brotli
  else none

def readLegacy (fields : List (String × Json)) : Option CompressionWire := do
  let algo ← readAlgo fields
  let ratio ← (Json.getField fields "ratio").bind Json.asF64
  if onlyFields fields ["algo", "ratio"] then some (.legacy algo ratio) else none

/-- The untagged wire form: a record policy if it reads as one, else a legacy one.  Only a legacy policy can be
an array. -/
def readWire (j : Json) : Option CompressionWire := do
  let fields ← j.structFields ["algo", "ratio"]
  match j, readAlgo fields, readOptions fields with
  | .obj _, some algo, some options => some (.record algo options)
  | _, _, _ => readLegacy fields

namespace ShardCompression

/-- The policy a wire form stands for. -/
def ofWire : CompressionWire → CacheResult ShardCompression
  | .legacy algo ratio => newLegacy algo ratio
  | .record .none .none => .ok none
  | .record .lz4 (.fast acceleration) => fast acceleration
  | .record .lz4 (.hc level) => hc level
  | .record .brotli (.brotli level) => newBrotli level
  | _ => .error (.invalidInput "compression algorithm and mode disagree")

def ofJson (j : Json) : Option ShardCompression := do
  let wire ← readWire j
  match ofWire wire with
  | .ok compression => some compression
  | .error _ => Option.none

/-- The policy with its ratio as it is read back. -/
def reread (r : Float → Float) : ShardCompression → ShardCompression
  | legacy algo ratio => legacy algo (r ratio)
  | compression => compression

end ShardCompression

/-! ### The manifest -/

def MetadataKind.ofName (name : String) : Option MetadataKind :=
  if name = "bool" then some .bool
  else if name = "int" then some .int
  else if name = "float" then some .float
  else if name = "string" then some .string
  else none

def MetadataField.toJson (field : MetadataField) : Json :=
  .obj [("name", .str field.name), ("kind", .str field.kind.name)]

def MetadataField.ofJson (j : Json) : Option MetadataField := do
  let fields ← j.structFields ["name", "kind"]
  let name ← (Json.getField fields "name").bind Json.asStr
  let kind ← (Json.getField fields "kind").bind Json.asVariant
  (MetadataKind.ofName kind).map (MetadataField.mk name)

def ShardManifest.toJson (shard : ShardManifest) : Json :=
  .obj [("name", .str shard.name),
    ("uncompressed_byte_len", .num (.posInt shard.uncompressedByteLen)),
    ("byte_len", .num (.posInt shard.byteLen)),
    ("compression", shard.compression.toJson),
    ("sha256", .str shard.sha256)]

def ShardManifest.ofJson (j : Json) : Option ShardManifest := do
  let fields ← j.structFields ["name", "uncompressed_byte_len", "byte_len", "compression", "sha256"]
  let name ← (Json.getField fields "name").bind Json.asStr
  let uncompressedByteLen ← (Json.getField fields "uncompressed_byte_len").bind Json.asU64
  let byteLen ← (Json.getField fields "byte_len").bind Json.asU64
  let compression ← (Json.getField fields "compression").bind ShardCompression.ofJson
  let sha256 ← (Json.getField fields "sha256").bind Json.asStr
  some { name, uncompressedByteLen, byteLen, compression, sha256 }

/-- The names `ManifestFields` reads; every other field is kept in `extra`. -/
def fieldNames : List String :=
  ["source_name", "sample_count", "metadata_schema", "metadata_sha256", "index_sha256", "shards"]

def ManifestFields.toFields (fields : ManifestFields) : List (String × Json) :=
  [("source_name", .str fields.sourceName),
    ("sample_count", .num (.posInt fields.sampleCount)),
    ("metadata_schema", .arr (fields.metadataSchema.map MetadataField.toJson)),
    ("metadata_sha256", .str fields.metadataSha256),
    ("index_sha256", .str fields.indexSha256),
    ("shards", .arr (fields.shards.map ShardManifest.toJson))] ++ fields.extra.toList

def ManifestFields.ofBody (body : FieldMap) : Option ManifestFields := do
  let sourceName ← body["source_name"]?.bind Json.asStr
  let sampleCount ← body["sample_count"]?.bind Json.asU64
  let schema ← body["metadata_schema"]?.bind Json.asArr
  let metadataSchema ← schema.mapM MetadataField.ofJson
  let metadataSha256 ← body["metadata_sha256"]?.bind Json.asStr
  let indexSha256 ← body["index_sha256"]?.bind Json.asStr
  let shardList ← body["shards"]?.bind Json.asArr
  let shards ← shardList.mapM ShardManifest.ofJson
  some { sourceName, sampleCount, metadataSchema, metadataSha256, indexSha256, shards
         extra := fieldNames.foldl (fun rest name => rest.erase name) body }

namespace Manifest

def toJson : Manifest → Json
  | v2 fields => .obj (("format_version", .num (.posInt 2)) :: fields.toFields)
  | v3 cacheId fields =>
      .obj (("format_version", .num (.posInt 3)) :: ("cache_id", .num (.posInt cacheId)) ::
        fields.toFields)
  | v4 cacheId fields =>
      .obj (("format_version", .num (.posInt 4)) :: ("cache_id", .num (.posInt cacheId)) ::
        fields.toFields)

/-- `unique_fields`: repeated names are rejected. -/
def uniqueFields : FieldMap → List (String × Json) → CacheResult FieldMap
  | fields, [] => .ok fields
  | fields, (name, value) :: rest =>
      if fields.contains name then .error (.json s!"duplicate manifest field {name}")
      else uniqueFields (fields.insert name value) rest

/-- The body of a version with a persistent identity. -/
def identified (body : FieldMap) : Option (ℕ × ManifestFields) := do
  let cacheId ← body["cache_id"]?.bind Json.asU64
  let fields ← ManifestFields.ofBody (body.erase "cache_id")
  some (cacheId, fields)

/-- The version selects the record. -/
def ofVersion (version : ℕ) (body : FieldMap) (shape : CacheError) : CacheResult Manifest :=
  if version = 2 then (okOr (ManifestFields.ofBody body) shape).map v2
  else if version = 3 then (okOr (identified body) shape).map fun p => v3 p.1 p.2
  else if version = 4 then (okOr (identified body) shape).map fun p => v4 p.1 p.2
  else .error (.json s!"unsupported format version {version}")

/-- `Deserialize for Manifest`. -/
def ofJson (J : JsonLib) (j : Json) : CacheResult Manifest := do
  let object ← okOr j.asObj (.json (J.describe j))
  let fields ← uniqueFields ∅ object
  let version ← okOr (fields["format_version"]?.bind Json.asU64)
    (.json "manifest requires integer format_version")
  let manifest ← ofVersion version (fields.erase "format_version") (.json (J.describe j))
  if manifest.fields.shards.any fun shard =>
      shard.compression.wholeRecord != manifest.wholeRecord then
    .error (.json "compression scope disagrees with manifest format version")
  else .ok manifest

end Manifest

end DatasetRt
