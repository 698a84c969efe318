import DatasetRt.Manifest
import DatasetRt.Arrow
import DatasetRt.Lib.FileTree

/-! # Stored records

A stored record is a sample in a shard file: the length of its metadata object, the object as
JSON, and the payload (`encode_sample_record`, `split_sample_record` in `storage.rs`).  Legacy
policies compress the payload before it is put into the record, the others compress the record;
`decodeStoredRecord_encode` says that either way the reader gets the sample back. -/

namespace DatasetRt

/-- The libraries the storage format rests on. -/
structure StorageLib where
  codec : CodecLib
  json : JsonLib
  arrow : ArrowLib
  /-- `serde_json::to_vec` of a metadata object. -/
  encodeObject : MetadataMap → Except String Bytes
  /-- `serde_json::from_slice` into a metadata object. -/
  decodeObject : Bytes → Except String MetadataMap
  sha256 : Bytes → Bytes

/-- What the documentation of the libraries promises. -/
structure StorageLib.Lawful (L : StorageLib) : Prop where
  codec : L.codec.Lawful
  json : L.json.Lawful
  arrow : L.arrow.Lawful
  /-- JSON has no `NaN`. -/
  decodeObject : ∀ text object, L.decodeObject text = .ok object →
    ∀ (k : String) v, object[k]? = some v → ¬ v.IsNaN

/-- A JSON error of the library. -/
def jsonResult {α : Type} : Except String α → CacheResult α
  | .ok value => .ok value
  | .error message => .error (.json message)

/-- An Arrow error of the library. -/
def arrowResult {α : Type} : Except String α → CacheResult α
  | .ok value => .ok value
  | .error message => .error (.arrow message)

/-- An I/O operation on something that does not exist. -/
def ioResult {α : Type} (message : String) (o : Option α) : CacheResult α := okOr o (.io message)

/-! ### Metadata objects and rows -/

/-- The value of one schema field, with the errors of the writer and of the reader. -/
def fieldValue (error : String → CacheError) (what : String) (metadata : MetadataMap)
    (field : MetadataField) : CacheResult MetadataValue :=
  match metadata[field.name]? with
  | some value =>
      if value.kind = field.kind then .ok value
      else .error (error
        s!"{what} field '{field.name}' expected {field.kind.name}, got {value.kind.name}")
  | none => .error (error s!"{what} field '{field.name}' is missing")

def metadataRowToObject (schema : List MetadataField) (row : List MetadataValue) :
    CacheResult MetadataMap :=
  if row.length ≠ schema.length then
    .error (.invalidInput "metadata row length does not match schema")
  else .ok (Std.ExtTreeMap.ofList ((schema.map MetadataField.name).zip row) compare)

def metadataObjectToRow (schema : List MetadataField) (metadata : MetadataMap) :
    CacheResult (List MetadataValue) :=
  if metadata.size ≠ schema.length then
    .error (.invalidCache "embedded metadata keys do not match schema")
  else schema.mapM (fieldValue .invalidCache "embedded metadata" metadata)

/-- A row has one value of the right kind for each field. -/
def RowFits (schema : List MetadataField) (row : List MetadataValue) : Prop :=
  List.Forall₂ (fun (field : MetadataField) (value : MetadataValue) => value.kind = field.kind)
    schema row

/-- The schema names no field twice. -/
def SchemaOk (schema : List MetadataField) : Prop := (schema.map MetadataField.name).Nodup

/-! ### Records -/

/-- `RECORD_METADATA_LEN_BYTES`. -/
def recordMetadataLenBytes : ℕ := 8

/-- `record_range`. -/
def recordRange (bytes : Bytes) (start stop : ℕ) : CacheResult Bytes :=
  okOr (Bytes.slice bytes start stop) (.invalidCache "invalid binary record")

/-- `read_u64`. -/
def readU64 (bytes : Bytes) : CacheResult ℕ :=
  if bytes.length = 8 then .ok (Bytes.toNatLe bytes)
  else .error (.invalidCache "invalid index integer")

/-- A length as a `u64`. -/
def lengthU64 (bytes : Bytes) (message : String) : CacheResult ℕ :=
  if bytes.length < wordSize then .ok bytes.length else .error (.invalidInput message)

section record

variable (L : StorageLib)

def encodeSampleRecord (storedPayload : Bytes) (schema : List MetadataField)
    (metadataRow : List MetadataValue) : CacheResult Bytes := do
  let object ← metadataRowToObject schema metadataRow
  let metadataJson ← jsonResult (L.encodeObject object)
  let metadataLen ← lengthU64 metadataJson "metadata record length does not fit in u64"
  let _capacity ← okOr
    ((checkedAdd recordMetadataLenBytes metadataLen).bind fun len => checkedAdd len storedPayload.length)
    (.invalidInput "record byte length overflowed usize")
  .ok (Bytes.ofNatLe 8 metadataLen ++ metadataJson ++ storedPayload)

def splitSampleRecord (record : Bytes) (schema : List MetadataField) :
    CacheResult (List MetadataValue × Bytes) := do
  let metadataLen ← readU64 (← recordRange record 0 recordMetadataLenBytes)
  let payloadStart ← okOr (checkedAdd recordMetadataLenBytes metadataLen)
    (.invalidCache "metadata record length overflowed")
  let metadataJson ← recordRange record recordMetadataLenBytes payloadStart
  let metadataObject ← jsonResult (L.decodeObject metadataJson)
  let metadata ← metadataObjectToRow schema metadataObject
  .ok (metadata, record.drop payloadStart)

/-- `EncodedRecord`: the bytes to store and the length the codec compressed. -/
structure EncodedRecord where
  bytes : Bytes
  uncompressedByteLen : ℕ

def encodeStoredRecord (data : Bytes) (schema : List MetadataField) (metadata : List MetadataValue)
    (compression : ShardCompression) : CacheResult EncodedRecord :=
  if compression.wholeRecord then do
    let record ← encodeSampleRecord L data schema metadata
    let uncompressedByteLen ← lengthU64 record "record length does not fit u64"
    let bytes ← compressPayload L.codec record compression
    .ok { bytes, uncompressedByteLen }
  else do
    let uncompressedByteLen ← lengthU64 data "payload length does not fit u64"
    let payload ← compressPayload L.codec data compression
    let bytes ← encodeSampleRecord L payload schema metadata
    .ok { bytes, uncompressedByteLen }

/-- The record inside a codec block. -/
def decodedRecord (record : Bytes) (shard : ShardManifest) : CacheResult Bytes :=
  if shard.compression.compressed then
    decompressPayload L.codec record shard.compression shard.uncompressedByteLen
  else .ok record

def decodeStoredRecord (record : Bytes) (manifest : Manifest) (shard : ShardManifest) :
    CacheResult CacheSample := do
  let schema := manifest.fields.metadataSchema
  if manifest.wholeRecord then
    let decoded ← decodedRecord L record shard
    let (metadata, payload) ← splitSampleRecord L decoded schema
    let envelopeLen := decoded.length - payload.length
    .ok { data := decoded.drop envelopeLen, metadata }
  else
    let (metadata, payload) ← splitSampleRecord L record schema
    let data ← decompressPayload L.codec payload shard.compression shard.uncompressedByteLen
    .ok { data, metadata }

end record

/-! ### Reading back what was encoded -/

section roundtrip

variable {L : StorageLib} {schema : List MetadataField} {row : List MetadataValue}

theorem jsonResult_ok {α : Type} {x : Except String α} {a : α} (h : jsonResult x = .ok a) : x = .ok a := by
  cases x <;> simp_all [jsonResult]

theorem lengthU64_ok {bytes : Bytes} {message : String} {n : ℕ} (h : lengthU64 bytes message = .ok n) :
    n = bytes.length ∧ bytes.length < wordSize := by
  unfold lengthU64 at h
  split_ifs at h with hlt
  cases h
  exact ⟨rfl, hlt⟩

theorem pairwise_zip {names : List String} (values : List MetadataValue) (hnodup : names.Nodup)
    (hlen : names.length ≤ values.length) :
    (names.zip values).Pairwise fun a b => ¬ compare a.1 b.1 = .eq := by
  have hkeys : ((names.zip values).map Prod.fst).Nodup := by
    rw [List.map_fst_zip hlen]
    exact hnodup
  rw [List.Nodup, List.pairwise_map] at hkeys
  exact hkeys.imp fun {a b} hne h => hne (by simpa using h)

theorem mapM_fieldValue {error : String → CacheError} {what : String} {object : MetadataMap} :
    ∀ {schema : List MetadataField} {row : List MetadataValue}, RowFits schema row →
    (∀ p ∈ (schema.map MetadataField.name).zip row, object[p.1]? = some p.2) →
    schema.mapM (fieldValue error what object) = .ok row
  | [], [], _, _ => rfl
  | field :: schema, value :: row, hfit, hget => by
      obtain ⟨hkind, hrest⟩ := List.forall₂_cons.mp hfit
      have hhead := hget (field.name, value) (by simp)
      have ih : schema.mapM (fieldValue error what object) = .ok row := mapM_fieldValue hrest fun p hp =>
        hget p (by simp only [List.map_cons, List.zip_cons_cons, List.mem_cons]; exact .inr hp)
      have hone : fieldValue error what object field = .ok value := by
        simp only [fieldValue, hhead, hkind]
        simp
      rw [List.mapM_cons, hone, ih]
      rfl

theorem metadataObjectToRow_object (hschema : SchemaOk schema) (hfit : RowFits schema row)
    {object : MetadataMap} (hobject : metadataRowToObject schema row = .ok object) :
    metadataObjectToRow schema object = .ok row := by
  have hlen : row.length = schema.length := (List.Forall₂.length_eq hfit).symm
  unfold metadataRowToObject at hobject
  rw [if_neg (by simp [hlen])] at hobject
  cases hobject
  have hpair := pairwise_zip row hschema (by simp [hlen])
  have hsize : (Std.ExtTreeMap.ofList ((schema.map MetadataField.name).zip row) compare).size =
      schema.length := by
    rw [Std.ExtTreeMap.size_ofList hpair]
    simp [hlen]
  unfold metadataObjectToRow
  rw [if_neg (by simp [hsize])]
  exact mapM_fieldValue hfit fun p hp =>
    Std.ExtTreeMap.getElem?_ofList_of_mem (k := p.1) (by simp) hpair hp

/-- The reader of a record decodes the object that was put into it and finds the payload behind it. -/
theorem splitSampleRecord_of_encode {payload record : Bytes}
    (h : encodeSampleRecord L payload schema row = .ok record) :
    ∃ object json, metadataRowToObject schema row = .ok object ∧ L.encodeObject object = .ok json ∧
      record = Bytes.ofNatLe 8 json.length ++ json ++ payload ∧
      splitSampleRecord L record schema = (do
        let decoded ← jsonResult (L.decodeObject json)
        let metadata ← metadataObjectToRow schema decoded
        .ok (metadata, payload)) := by
  obtain ⟨object, hobj, h⟩ := bind_eq_ok h
  obtain ⟨json, hjson, h⟩ := bind_eq_ok h
  obtain ⟨len, hlen, h⟩ := bind_eq_ok h
  obtain ⟨capacity, hcap, h⟩ := bind_eq_ok h
  obtain ⟨rfl, hlt⟩ := lengthU64_ok hlen
  cases h
  refine ⟨object, json, hobj, jsonResult_ok hjson, rfl, ?_⟩
  have h8 : (Bytes.ofNatLe 8 json.length).length = 8 := Bytes.length_ofNatLe 8 _
  have hsplit : Bytes.ofNatLe 8 json.length ++ json ++ payload =
      Bytes.ofNatLe 8 json.length ++ (json ++ payload) := List.append_assoc _ _ _
  have hlength : recordRange (Bytes.ofNatLe 8 json.length ++ json ++ payload) 0 8 =
      .ok (Bytes.ofNatLe 8 json.length) := by
    have := Bytes.slice_append_zero (Bytes.ofNatLe 8 json.length) (json ++ payload)
    rw [h8, ← hsplit] at this
    rw [recordRange, this]
    rfl
  have hbody : recordRange (Bytes.ofNatLe 8 json.length ++ json ++ payload) 8 (8 + json.length) =
      .ok json := by
    have := Bytes.slice_append (Bytes.ofNatLe 8 json.length) json payload
    rw [h8] at this
    rw [recordRange, this]
    rfl
  have hnat : readU64 (Bytes.ofNatLe 8 json.length) = .ok json.length := by
    rw [readU64, if_pos h8, Bytes.toNatLe_ofNatLe 8 _ (by simpa [wordSize] using hlt)]
  have hadd : checkedAdd recordMetadataLenBytes json.length = some (8 + json.length) := by
    cases hc : checkedAdd recordMetadataLenBytes json.length with
    | none => simp [hc, okOr] at hcap
    | some n =>
        obtain ⟨-, rfl⟩ := checkedAdd_eq_some.mp hc
        rfl
  have hpayload : (Bytes.ofNatLe 8 json.length ++ json ++ payload).drop (8 + json.length) = payload := by
    simp [List.drop_append, h8]
  simp only [splitSampleRecord, recordMetadataLenBytes] at hadd ⊢
  simp only [hlength, bind, Except.bind, hnat, hadd, okOr, hbody, hpayload]

theorem splitSampleRecord_encode (hschema : SchemaOk schema) (hfit : RowFits schema row)
    (hobject : ∀ object text, metadataRowToObject schema row = .ok object →
      L.encodeObject object = .ok text → L.decodeObject text = .ok object)
    {payload record : Bytes} (h : encodeSampleRecord L payload schema row = .ok record) :
    splitSampleRecord L record schema = .ok (row, payload) ∧
      ∃ envelope, record = envelope ++ payload := by
  obtain ⟨object, json, hobj, hjson, hrecord, hsplit⟩ := splitSampleRecord_of_encode h
  refine ⟨?_, _, hrecord⟩
  rw [hsplit, hobject object json hobj hjson]
  simp only [jsonResult, bind, Except.bind, metadataObjectToRow_object hschema hfit hobj]

/-- **Record round trip.**  The reader decodes with the policy and the limits of the manifest. -/
theorem decodeStoredRecord_encode (hL : L.Lawful) (hschema : SchemaOk schema)
    (hfit : RowFits schema row)
    (hobject : ∀ object text, metadataRowToObject schema row = .ok object →
      L.encodeObject object = .ok text → L.decodeObject text = .ok object)
    {data : Bytes} {compression : ShardCompression} {record : EncodedRecord}
    (h : encodeStoredRecord L data schema row compression = .ok record)
    {manifest : Manifest} {shard : ShardManifest} {r : Float → Float}
    (hman : manifest.fields.metadataSchema = schema)
    (hscope : manifest.wholeRecord = compression.wholeRecord)
    (hshard : shard.compression = compression.reread r)
    (hmax : record.uncompressedByteLen ≤ shard.uncompressedByteLen) :
    decodeStoredRecord L record.bytes manifest shard = .ok { data, metadata := row } := by
  have hdecompress : ∀ (input output : Bytes) (maxLen : ℕ),
      decompressPayload L.codec input (compression.reread r) maxLen = .ok output ↔
        decompressPayload L.codec input compression maxLen = .ok output := by
    intro input output maxLen
    cases compression with
    | legacy algo ratio => cases algo <;> rfl
    | _ => rfl
  have hcompressed : (compression.reread r).compressed = compression.compressed := by
    cases compression with
    | legacy algo ratio => cases algo <;> rfl
    | _ => rfl
  unfold encodeStoredRecord at h
  cases hw : compression.wholeRecord with
  | true =>
      rw [hw, if_pos rfl] at h
      obtain ⟨raw, hraw, h⟩ := bind_eq_ok h
      obtain ⟨len, hlen, h⟩ := bind_eq_ok h
      obtain ⟨bytes, hbytes, h⟩ := bind_eq_ok h
      obtain ⟨rfl, -⟩ := lengthU64_ok hlen
      cases h
      obtain ⟨hsplit, envelope, henv⟩ := splitSampleRecord_encode hschema hfit hobject hraw
      have hdecoded : decodedRecord L bytes shard = .ok raw := by
        have hback := decompressPayload_compressPayload hL.codec compression hbytes hmax
        rw [decodedRecord, hshard, hcompressed]
        cases hc : compression.compressed with
        | true => simpa using (hdecompress _ _ _).mpr hback
        | false =>
            have : bytes = raw := by
              cases compression with
              | legacy algo ratio =>
                  cases algo with
                  | none => cases hbytes; rfl
                  | lz4 => cases hc
                  | brotli => cases hc
              | none => cases hbytes; rfl
              | lz4Fast a => cases hc
              | lz4HC l => cases hc
              | brotli l => cases hc
            simp [this]
      have hdata : raw.drop (raw.length - data.length) = data := by
        rw [henv]
        simp
      simp only [decodeStoredRecord, hman, hscope, hw, if_true, bind, Except.bind, hdecoded, hsplit,
        hdata]
  | false =>
      rw [hw, if_neg (by simp)] at h
      obtain ⟨len, hlen, h⟩ := bind_eq_ok h
      obtain ⟨payload, hpayload, h⟩ := bind_eq_ok h
      obtain ⟨bytes, hbytes, h⟩ := bind_eq_ok h
      obtain ⟨rfl, -⟩ := lengthU64_ok hlen
      cases h
      obtain ⟨hsplit, -⟩ := splitSampleRecord_encode hschema hfit hobject hbytes
      have hback := (hdecompress _ _ _).mpr
        (decompressPayload_compressPayload hL.codec compression hpayload hmax)
      simp [decodeStoredRecord, hman, hscope, hw, bind, Except.bind, hsplit, hshard, hback]

end roundtrip

end DatasetRt
