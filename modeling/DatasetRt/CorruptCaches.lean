import DatasetRt.Lib.Guarded
import DatasetRt.ShardPaths

/-! # Reading corrupt caches

The lengths that `read_sample_with_cache` and `decode_stored_record` (`storage.rs`) work with come from the index row,
from the envelope of a record and from the size prefix of a codec block, and none of them need be right.  The functions
of the namespace `Guarded` are the read path with its panics: the subtraction and the `drain` of a decoded record, and
a decoder that would write beyond its buffer.  All other positions go through `get`, `split_at_checked` and
`checked_add`, which give an error.  The accesses are the bytes that are read from a shard and the buffers that are
allocated for decoding.

`corrupt_caches_safe` holds for every cache in memory, whatever its manifest, its index and the files are. -/

namespace DatasetRt

/-- The decoders write only into the buffer. -/
structure CodecLib.Bounded (C : CodecLib) : Prop where
  lz4 : ∀ body len output, C.lz4Decompress body len = .ok output → output.length ≤ len
  brotli : ∀ body len, (C.brotliDecompress body len).output.length ≤ len

/-- The size prefix of a codec block. -/
def blockPrefix (block : Bytes) : ℕ := Bytes.toNatLe (block.take 4)

inductive Access where
  /-- The bytes from `start` to `stop` of a file. -/
  | request (file : Path) (start stop : ℕ)
  /-- A buffer for decoding. -/
  | buffer (len : ℕ)

namespace Guarded

abbrev GuardedRead (α : Type) := Guarded Access CacheError α

section decode

variable (C : CodecLib)

/-- `byte_buffer`. -/
def byteBuffer (len : ℕ) : GuardedRead Unit := access (.buffer len)

/-- `brotli::decompress`. -/
def brotliDecompress (data : Bytes) (maxUncompressedLen : ℕ) : GuardedRead Bytes := do
  let (len, body) ← ofResult (readPrefix data maxUncompressedLen "Brotli record is missing its size prefix"
    "Brotli size prefix exceeds shard uncompressed length")
  byteBuffer len
  let outcome := C.brotliDecompress body len
  let output ← fill len outcome.output
  ofResult <| match outcome.result with
    | .resultSuccess =>
        if outcome.availableIn = 0 ∧ output.length = len then .ok output
        else .error (.invalidCache "Brotli record has trailing bytes or decoded length mismatch")
    | .needsMoreInput => .error (.invalidCache "truncated Brotli record")
    | .needsMoreOutput => .error (.invalidCache "Brotli decoded length exceeds size prefix")
    | .resultFailure => .error (.invalidCache "invalid Brotli record")

def decompressLz4OrPlain (data : Bytes) (compression : ShardCompression) (maxUncompressedLen : ℕ) :
    GuardedRead Bytes :=
  if compression.compressed then do
    let (len, body) ← ofResult (readPrefix data maxUncompressedLen "LZ4 payload is missing its size prefix"
      "LZ4 size prefix exceeds shard uncompressed length")
    byteBuffer len
    match C.lz4Decompress body len with
    | .error error => ofResult (.error (.invalidCache ("failed to decompress lz4 payload: " ++ error)))
    | .ok written => do
        let output ← fill len written
        ofResult <|
          if output.length ≠ len then .error (.invalidCache "LZ4 decoded length does not match size prefix")
          else .ok output
  else pure data

def decompressPayload (data : Bytes) (compression : ShardCompression) (maxUncompressedLen : ℕ) :
    GuardedRead Bytes :=
  match compression with
  | .brotli _ => brotliDecompress C data maxUncompressedLen
  | _ => decompressLz4OrPlain C data compression maxUncompressedLen

end decode

section read

variable (L : StorageLib)

def decodeStoredRecord (record : Bytes) (manifest : Manifest) (shard : ShardManifest) : GuardedRead CacheSample := do
  let schema := manifest.fields.metadataSchema
  if manifest.wholeRecord then
    let decoded ←
      if shard.compression.compressed then
        decompressPayload L.codec record shard.compression shard.uncompressedByteLen
      else pure record
    let (metadata, payload) ← ofResult (splitSampleRecord L decoded schema)
    let envelopeLen ← sub decoded.length payload.length
    let data ← drainTo decoded envelopeLen
    pure { data, metadata }
  else
    let (metadata, payload) ← ofResult (splitSampleRecord L record schema)
    let data ← decompressPayload L.codec payload shard.compression shard.uncompressedByteLen
    pure { data, metadata }

variable (fs : FileTree) (cache : LoadedCache)

/-- The rest of `read_sample_with_cache`, with the shard open. -/
def readRecord (sampleIndex : ℕ) (entry : IndexEntry) (shard : ShardManifest) (stop : ℕ) (file : Bytes) :
    GuardedRead CacheSample := do
  if shard.byteLen < stop then ofResult (.error (.invalidCache "record extends beyond shard length"))
  else
    access (.request (shardPath cache.path shard) entry.offset stop)
    let record ← ofResult (ioResult "failed to fill whole buffer" (file.slice entry.offset stop))
    let sample ← decodeStoredRecord L record cache.manifest shard
    ofResult (cache.validateEmbedded L fs sampleIndex sample)
    pure sample

def readSampleWithCache (sampleIndex : ℕ) (readers : ShardReaderCache) : ShardReaderCache × GuardedRead CacheSample :=
  match cache.locateRecord sampleIndex with
  | .error error => (readers, ofResult (.error error))
  | .ok (entry, shard, stop) =>
      match readers.readerFor fs (shardPath cache.path shard) with
      | (readers, .error error) => (readers, ofResult (.error error))
      | (readers, .ok file) => (readers, readRecord L fs cache sampleIndex entry shard stop file)

end read

/-! ### One block -/

section block

variable {C : CodecLib} {P : Access → Prop} {data : Bytes} {maxLen : ℕ}

theorem readPrefix_ok {missing exceeds : String} {len : ℕ} {body : Bytes}
    (h : readPrefix data maxLen missing exceeds = .ok (len, body)) : len = blockPrefix data ∧ len ≤ maxLen := by
  unfold readPrefix at h
  split_ifs at h with hshort
  simp only at h
  split_ifs at h with hexceeds
  cases h
  exact ⟨rfl, Nat.not_lt.mp hexceeds⟩

/-- A decoder gets a buffer of the length that the prefix says, if the shard allows it. -/
theorem safe_decompressPayload (hC : C.Bounded) (hbuffer : ∀ len ≤ maxLen, P (.buffer len))
    (compression : ShardCompression) :
    Safe P (decompressPayload C data compression maxLen) (DatasetRt.decompressPayload C data compression maxLen) := by
  have hlz4 : ∀ policy, Safe P (decompressLz4OrPlain C data policy maxLen)
      (DatasetRt.decompressLz4OrPlain C data policy maxLen) := by
    intro policy
    unfold decompressLz4OrPlain DatasetRt.decompressLz4OrPlain
    split_ifs with hcompressed
    · refine Safe.bind (safe_ofResult _) fun block hblock => ?_
      obtain ⟨len, body⟩ := block
      refine Safe.seq (safe_access (hbuffer len (readPrefix_ok hblock).2)) ?_
      simp only
      cases hwritten : C.lz4Decompress body len with
      | error error => exact safe_ofResult _
      | ok written => exact Safe.seq (safe_fill (hC.lz4 body len written hwritten)) (safe_ofResult _)
    · exact safe_pure _
  have hbrotli : Safe P (brotliDecompress C data maxLen) (DatasetRt.brotliDecompress C data maxLen) := by
    unfold brotliDecompress DatasetRt.brotliDecompress
    refine Safe.bind (safe_ofResult _) fun block hblock => ?_
    obtain ⟨len, body⟩ := block
    refine Safe.seq (safe_access (hbuffer len (readPrefix_ok hblock).2)) ?_
    exact Safe.seq (safe_fill (hC.brotli body len)) (safe_ofResult _)
  cases compression with
  | brotli level => exact hbrotli
  | _ => exact hlz4 _

/-- A block that is decoded has the length of its prefix, and one buffer of that length was allocated. -/
theorem decompressPayload_exact {compression : ShardCompression} (hcompressed : compression.compressed = true)
    {decoded : Bytes} (h : (decompressPayload C data compression maxLen).result = .ok (.ok decoded)) :
    (decompressPayload C data compression maxLen).accesses = [.buffer (blockPrefix data)] ∧
      decoded.length = blockPrefix data ∧ blockPrefix data ≤ maxLen := by
  have hlz4 : ∀ policy : ShardCompression, policy.compressed = true →
      (decompressLz4OrPlain C data policy maxLen).result = .ok (.ok decoded) →
      (decompressLz4OrPlain C data policy maxLen).accesses = [.buffer (blockPrefix data)] ∧
        decoded.length = blockPrefix data ∧ blockPrefix data ≤ maxLen := by
    intro policy hpolicy h
    unfold decompressLz4OrPlain at h ⊢
    rw [if_pos hpolicy] at h ⊢
    obtain ⟨⟨len, body⟩, hblock, h, haccesses⟩ := exists_of_bind h
    obtain ⟨hlen, hmax⟩ := readPrefix_ok (Except.ok.inj hblock)
    obtain ⟨⟨⟩, -, h, hbuffer⟩ := exists_of_bind h
    simp only at h haccesses hbuffer
    rw [haccesses, hbuffer]
    cases hwritten : C.lz4Decompress body len with
    | error error =>
        rw [hwritten] at h
        cases h
    | ok written =>
        simp only [hwritten] at h ⊢
        obtain ⟨output, hfill, h, hlast⟩ := exists_of_bind h
        obtain ⟨rfl, hnone⟩ := eq_of_fill hfill
        rw [hlast, hnone]
        have hresult := Except.ok.inj h
        split_ifs at hresult with hlength
        cases hresult
        exact ⟨by rw [← hlen]; rfl, (not_not.mp hlength).trans hlen, hlen ▸ hmax⟩
  cases compression with
  | brotli level =>
      unfold decompressPayload brotliDecompress at h ⊢
      simp only at h ⊢
      obtain ⟨⟨len, body⟩, hblock, h, haccesses⟩ := exists_of_bind h
      obtain ⟨hlen, hmax⟩ := readPrefix_ok (Except.ok.inj hblock)
      obtain ⟨⟨⟩, -, h, hbuffer⟩ := exists_of_bind h
      obtain ⟨output, hfill, h, hlast⟩ := exists_of_bind h
      obtain ⟨rfl, hnone⟩ := eq_of_fill hfill
      rw [haccesses, hbuffer, hlast, hnone]
      have hresult := Except.ok.inj h
      split at hresult
      · split_ifs at hresult with hdone
        cases hresult
        exact ⟨by rw [← hlen]; rfl, hdone.2.trans hlen, hlen ▸ hmax⟩
      · cases hresult
      · cases hresult
      · cases hresult
  | _ => exact hlz4 _ hcompressed h

end block

/-! ### One record -/

section record

variable {L : StorageLib} {P : Access → Prop} {record : Bytes} {manifest : Manifest} {shard : ShardManifest}

theorem payload_suffix {schema : List MetadataField} {metadata : List MetadataValue} {payload : Bytes}
    (h : splitSampleRecord L record schema = .ok (metadata, payload)) :
    payload.length ≤ record.length ∧ record.drop (record.length - payload.length) = payload := by
  obtain ⟨head, -, h⟩ := bind_eq_ok h
  obtain ⟨metadataLen, -, h⟩ := bind_eq_ok h
  obtain ⟨payloadStart, -, h⟩ := bind_eq_ok h
  obtain ⟨json, hjson, h⟩ := bind_eq_ok h
  obtain ⟨object, -, h⟩ := bind_eq_ok h
  obtain ⟨row, -, h⟩ := bind_eq_ok h
  cases h
  have hslice := okOr_eq_ok.mp hjson
  unfold Bytes.slice at hslice
  split_ifs at hslice with hrange
  have hstart : record.length - (record.length - payloadStart) = payloadStart := by omega
  rw [List.length_drop, hstart]
  exact ⟨Nat.sub_le _ _, rfl⟩

/-- Decoding a record does not panic, whatever its bytes are. -/
theorem safe_decodeStoredRecord (hL : L.codec.Bounded)
    (hbuffer : ∀ len ≤ shard.uncompressedByteLen, P (.buffer len)) :
    Safe P (decodeStoredRecord L record manifest shard) (DatasetRt.decodeStoredRecord L record manifest shard) := by
  unfold decodeStoredRecord DatasetRt.decodeStoredRecord
  simp only
  split_ifs with hwhole hcompressed
  · rw [decodedRecord, if_pos hcompressed]
    refine Safe.bind (safe_decompressPayload hL hbuffer _) fun decoded _ => ?_
    refine Safe.bind (safe_ofResult _) fun parts hparts => ?_
    obtain ⟨metadata, payload⟩ := parts
    refine Safe.seq (safe_sub (payload_suffix hparts).1) ?_
    exact Safe.seq (safe_drainTo (Nat.sub_le _ _)) (safe_pure _)
  · rw [decodedRecord, if_neg hcompressed]
    refine Safe.seq (safe_pure _) ?_
    refine Safe.bind (safe_ofResult _) fun parts hparts => ?_
    obtain ⟨metadata, payload⟩ := parts
    refine Safe.seq (safe_sub (payload_suffix hparts).1) ?_
    exact Safe.seq (safe_drainTo (Nat.sub_le _ _)) (safe_pure _)
  · refine Safe.bind (safe_ofResult _) fun parts _ => ?_
    obtain ⟨metadata, payload⟩ := parts
    exact Safe.bind (safe_decompressPayload hL hbuffer _) fun data _ => safe_pure _

/-- The codec block of a record, and what it decodes to: the whole record, or the payload inside it. -/
def BlockOf (L : StorageLib) (record : Bytes) (manifest : Manifest) (sample : CacheSample) (block decoded : Bytes) :
    Prop :=
  if manifest.wholeRecord then
    block = record ∧ splitSampleRecord L decoded manifest.fields.metadataSchema = .ok (sample.metadata, sample.data)
  else
    splitSampleRecord L record manifest.fields.metadataSchema = .ok (sample.metadata, block) ∧ decoded = sample.data

theorem decodeStoredRecord_exact (hcompressed : shard.compression.compressed = true) {sample : CacheSample}
    (h : (decodeStoredRecord L record manifest shard).result = .ok (.ok sample)) :
    ∃ block decoded, BlockOf L record manifest sample block decoded ∧
      (decodeStoredRecord L record manifest shard).accesses = [.buffer (blockPrefix block)] ∧
      decoded.length = blockPrefix block ∧ blockPrefix block ≤ shard.uncompressedByteLen := by
  unfold BlockOf
  unfold decodeStoredRecord at h ⊢
  simp only at h ⊢
  split_ifs at h ⊢ with hwhole
  · obtain ⟨decoded, hdecoded, h, haccesses⟩ := exists_of_bind h
    obtain ⟨⟨metadata, payload⟩, hparts, h, hfirst⟩ := exists_of_bind h
    have hsplit : splitSampleRecord L decoded manifest.fields.metadataSchema = .ok (metadata, payload) :=
      Except.ok.inj hparts
    obtain ⟨hbuffer, hlength, hmax⟩ := decompressPayload_exact hcompressed hdecoded
    obtain ⟨envelopeLen, henvelope, h, hsecond⟩ := exists_of_bind h
    obtain ⟨rfl, hsub⟩ := eq_of_sub henvelope
    obtain ⟨data, hdata, h, hthird⟩ := exists_of_bind h
    obtain ⟨rfl, hdrain⟩ := eq_of_drainTo hdata
    cases h
    refine ⟨record, decoded, ⟨rfl, ?_⟩, ?_, hlength, hmax⟩
    · simp only [(payload_suffix hsplit).2, hsplit]
    · rw [haccesses, hfirst, hsecond, hthird, hbuffer, hsub, hdrain]
      rfl
  · obtain ⟨⟨metadata, payload⟩, hparts, h, haccesses⟩ := exists_of_bind h
    obtain ⟨data, hdata, h, hfirst⟩ := exists_of_bind h
    cases h
    obtain ⟨hbuffer, hlength, hmax⟩ := decompressPayload_exact hcompressed hdata
    refine ⟨payload, data, ⟨Except.ok.inj hparts, rfl⟩, ?_, hlength, hmax⟩
    rw [haccesses, hfirst, hbuffer]
    rfl

end record

/-! ### One read -/

section read

variable {L : StorageLib} {fs : FileTree} {cache : LoadedCache}

/-- What a read may access: of the shard that the index row names, the bytes of the row, inside the shard; and buffers
of at most the length that the shard declares. -/
def Within (cache : LoadedCache) (sampleIndex : ℕ) (a : Access) : Prop :=
  ∃ entry shard, cache.index.get sampleIndex = .ok entry ∧
    cache.manifest.fields.shards[entry.shardId]? = some shard ∧
    match a with
    | .request file start stop =>
        file = shardPath cache.path shard ∧ start = entry.offset ∧ stop = entry.offset + entry.byteLen ∧
          stop ≤ shard.byteLen
    | .buffer len => len ≤ shard.uncompressedByteLen

theorem locateRecord_ok {i stop : ℕ} {entry : IndexEntry} {shard : ShardManifest}
    (h : cache.locateRecord i = .ok (entry, shard, stop)) :
    cache.index.get i = .ok entry ∧ cache.manifest.fields.shards[entry.shardId]? = some shard ∧
      stop = entry.offset + entry.byteLen := by
  obtain ⟨entry', hentry, h⟩ := bind_eq_ok h
  obtain ⟨shard', hshard, h⟩ := bind_eq_ok h
  obtain ⟨stop', hstop, h⟩ := bind_eq_ok h
  cases h
  exact ⟨hentry, okOr_eq_ok.mp hshard, (checkedAdd_eq_some.mp (okOr_eq_ok.mp hstop)).2.symm⟩

theorem safe_readRecord (hL : L.codec.Bounded) {i stop : ℕ} {entry : IndexEntry} {shard : ShardManifest}
    (hlocate : cache.locateRecord i = .ok (entry, shard, stop)) (file : Bytes) :
    Safe (Within cache i) (readRecord L fs cache i entry shard stop file)
      (cache.readRecord L fs i entry shard stop file) := by
  obtain ⟨hentry, hshard, hstop⟩ := locateRecord_ok hlocate
  unfold readRecord LoadedCache.readRecord
  split_ifs with hbeyond
  · exact safe_ofResult _
  · have hrequest : Within cache i (.request (shardPath cache.path shard) entry.offset stop) :=
      ⟨entry, shard, hentry, hshard, rfl, rfl, hstop, Nat.not_lt.mp hbeyond⟩
    have hbuffer : ∀ len ≤ shard.uncompressedByteLen, Within cache i (.buffer len) :=
      fun len hlen => ⟨entry, shard, hentry, hshard, hlen⟩
    refine Safe.seq (safe_access hrequest) ?_
    refine Safe.bind (safe_ofResult _) fun record _ => ?_
    refine Safe.bind (safe_decodeStoredRecord hL hbuffer) fun sample _ => ?_
    exact Safe.bind (safe_ofResult _) fun _ _ => safe_pure _

theorem safe_readSample (hL : L.codec.Bounded) (i : ℕ) (readers : ShardReaderCache) :
    (readSampleWithCache L fs cache i readers).1 = (cache.readSampleWithCache L fs i readers).1 ∧
      Safe (Within cache i) (readSampleWithCache L fs cache i readers).2
        (cache.readSampleWithCache L fs i readers).2 := by
  unfold readSampleWithCache LoadedCache.readSampleWithCache
  cases hlocate : cache.locateRecord i with
  | error error => exact ⟨rfl, safe_ofResult _⟩
  | ok located =>
      obtain ⟨entry, shard, stop⟩ := located
      simp only
      rcases readers.readerFor fs (shardPath cache.path shard) with ⟨readers', error | file⟩
      · exact ⟨rfl, safe_ofResult _⟩
      · exact ⟨rfl, safe_readRecord hL hlocate file⟩

end read

end Guarded

/-- **Corrupt caches.**  Whatever a cache in memory and its files say, a read does not panic and returns what the model
of the read returns; it requests bytes of the shard that the index row names, inside the length of that shard, and
allocates no buffer for decoding beyond the declared length.  Decoding does not panic on any bytes.  A compressed block
that is decoded has the length of its prefix, at most the declared length, and this is the length of its only buffer. -/
theorem corrupt_caches_safe {L : StorageLib} (hL : L.codec.Bounded) :
    (∀ fs cache i readers, ∃ result, (Guarded.readSampleWithCache L fs cache i readers).2.result = .ok result ∧
      cache.readSampleWithCache L fs i readers = ((Guarded.readSampleWithCache L fs cache i readers).1, result) ∧
      ∀ a ∈ (Guarded.readSampleWithCache L fs cache i readers).2.accesses, Guarded.Within cache i a) ∧
    (∀ record manifest shard, (Guarded.decodeStoredRecord L record manifest shard).result =
      .ok (decodeStoredRecord L record manifest shard)) ∧
    ∀ record manifest shard sample, shard.compression.compressed = true →
      decodeStoredRecord L record manifest shard = .ok sample →
      ∃ block decoded, Guarded.BlockOf L record manifest sample block decoded ∧
        (Guarded.decodeStoredRecord L record manifest shard).accesses = [.buffer (blockPrefix block)] ∧
        decoded.length = blockPrefix block ∧ blockPrefix block ≤ shard.uncompressedByteLen := by
  have hdecode : ∀ record manifest shard, (Guarded.decodeStoredRecord L record manifest shard).result =
      .ok (decodeStoredRecord L record manifest shard) :=
    fun record manifest shard => (Guarded.safe_decodeStoredRecord (P := fun _ => True) hL fun _ _ => trivial).result
  refine ⟨fun fs cache i readers => ?_, hdecode, fun record manifest shard sample hcompressed h => ?_⟩
  · obtain ⟨hreaders, hsafe⟩ := @Guarded.safe_readSample L fs cache hL i readers
    exact ⟨_, hsafe.result, by rw [hreaders], hsafe.accesses⟩
  · exact Guarded.decodeStoredRecord_exact hcompressed (by rw [hdecode, h])

namespace OneLetter

/-- The LZ4 block of the letter `A`. -/
def lz4Block : Bytes := [16, 65]

/-- A record of the legacy scope: the metadata `\x7b\x7d`, then the size of the payload and its block. -/
def record : Bytes := [2, 0, 0, 0, 0, 0, 0, 0, 123, 125, 1, 0, 0, 0] ++ lz4Block

def shard : ShardManifest := ⟨"000000.bin", 1, 16, .legacy .lz4 2, ""⟩

def manifest : Manifest := .v2
  { sourceName := "s"
    sampleCount := 1
    metadataSchema := []
    metadataSha256 := ""
    indexSha256 := ""
    shards := [shard]
    extra := ∅ }

def lib : StorageLib :=
  { SharedShard.lib "000000.bin" with
    codec :=
      { (SharedShard.lib "000000.bin").codec with
        lz4Decompress := fun body len => if body = lz4Block ∧ 1 ≤ len then .ok [65] else .error "" }
    decodeObject := fun text => if text = [123, 125] then .ok ∅ else .error "" }

theorem bounded_lib : lib.codec.Bounded where
  lz4 body len output h := by
    have hwritten : (if body = lz4Block ∧ 1 ≤ len then Except.ok [65] else .error "") = Except.ok output := h
    split_ifs at hwritten with hfits
    cases hwritten
    exact hfits.2
  brotli body len := Nat.zero_le len

end OneLetter

open OneLetter in
/-- The letter is decoded into a buffer of one byte. -/
theorem corrupt_caches_safe_letter :
    (Guarded.decodeStoredRecord lib record manifest shard).result = .ok (.ok ⟨[65], []⟩) ∧
      ∃ block decoded, Guarded.BlockOf lib record manifest ⟨[65], []⟩ block decoded ∧
        (Guarded.decodeStoredRecord lib record manifest shard).accesses = [.buffer (blockPrefix block)] ∧
        decoded.length = blockPrefix block ∧ blockPrefix block ≤ 1 := by
  have hsafe := corrupt_caches_safe bounded_lib
  have hdecode : decodeStoredRecord lib record manifest shard = .ok ⟨[65], []⟩ := rfl
  exact ⟨by rw [hsafe.2.1, hdecode], hsafe.2.2 record manifest shard ⟨[65], []⟩ rfl hdecode⟩

end DatasetRt
