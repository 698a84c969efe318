import DatasetRt.CacheBuilder

/-! # Loading a cache and reading its samples

`load_cache` (`storage.rs`) opens a published directory; `LoadedCache` then reads one record at
a time through a bounded set of open shard files.

An open file is the list of its bytes: published files are never written in place, so a handle
keeps what it was opened on, whatever later happens to the name. -/

namespace DatasetRt

/-! ### The index -/

/-- `INDEX_ROW_BYTES`. -/
def indexRowBytes : ℕ := 24

def checkedMul (a b : ℕ) : Option ℕ := if a * b < wordSize then some (a * b) else none

def readIndexEntry (bytes : Bytes) : CacheResult IndexEntry := do
  let shardId ← readU64 (← recordRange bytes 0 8)
  let offset ← readU64 (← recordRange bytes 8 16)
  let byteLen ← readU64 (← recordRange bytes 16 24)
  .ok { shardId, offset, byteLen }

/-- The mapped bytes of `index.bin`. -/
structure MappedIndex where
  bytes : Bytes

namespace MappedIndex

/-- `MappedIndex::open`. -/
def openFile (fs : FileTree) (path : Path) : CacheResult MappedIndex := do
  let bytes ← ioResult s!"cannot open {path.display}" (fs.read path)
  if bytes.length % indexRowBytes ≠ 0 then
    .error (.invalidCache "index length is not divisible by row size")
  else .ok ⟨bytes⟩

def len (index : MappedIndex) : ℕ := index.bytes.length / indexRowBytes

/-- The bytes of one row, where there is one. -/
def row (index : MappedIndex) (position : ℕ) : Option Bytes := do
  let start ← checkedMul position indexRowBytes
  let remaining ← index.bytes.slice start index.bytes.length
  remaining.slice 0 indexRowBytes

def get (index : MappedIndex) (position : ℕ) : CacheResult IndexEntry := do
  let row ← okOr (index.row position) (.invalidCache s!"sample index {position} is out of range")
  readIndexEntry row

/-- `iter`: the whole rows, in order. -/
def iter (index : MappedIndex) : List (CacheResult IndexEntry) :=
  (List.range index.len).map fun i =>
    readIndexEntry ((index.bytes.drop (i * indexRowBytes)).take indexRowBytes)

end MappedIndex

@[simp] theorem IndexEntry.length_toBytes (entry : IndexEntry) : entry.toBytes.length = indexRowBytes := by
  simp [toBytes, indexRowBytes]

theorem readU64_ofNatLe {n : ℕ} (h : n < wordSize) : readU64 (Bytes.ofNatLe 8 n) = .ok n := by
  rw [readU64, if_pos (Bytes.length_ofNatLe 8 n), Bytes.toNatLe_ofNatLe 8 n (by simpa [wordSize] using h)]

theorem readIndexEntry_toBytes {entry : IndexEntry} (hid : entry.shardId < wordSize)
    (hoffset : entry.offset < wordSize) (hlen : entry.byteLen < wordSize) :
    readIndexEntry entry.toBytes = .ok entry := by
  have hfirst : recordRange entry.toBytes 0 8 = .ok (Bytes.ofNatLe 8 entry.shardId) := by
    simp [recordRange, IndexEntry.toBytes, Bytes.slice, okOr]
  have hsecond : recordRange entry.toBytes 8 16 = .ok (Bytes.ofNatLe 8 entry.offset) := by
    simp [recordRange, IndexEntry.toBytes, Bytes.slice, okOr]
  have hthird : recordRange entry.toBytes 16 24 = .ok (Bytes.ofNatLe 8 entry.byteLen) := by
    have := Bytes.slice_append (Bytes.ofNatLe 8 entry.shardId ++ Bytes.ofNatLe 8 entry.offset)
      (Bytes.ofNatLe 8 entry.byteLen) []
    simp only [List.length_append, Bytes.length_ofNatLe, List.append_nil] at this
    rw [recordRange, IndexEntry.toBytes, this]
    rfl
  simp only [readIndexEntry, hfirst, hsecond, hthird, bind, Except.bind, readU64_ofNatLe, hid, hoffset,
    hlen]

@[simp] theorem length_indexBytes (index : List IndexEntry) :
    (indexBytes index).length = index.length * indexRowBytes := by
  induction index with
  | nil => simp [indexBytes]
  | cons entry rest ih =>
      have : indexBytes (entry :: rest) = entry.toBytes ++ indexBytes rest := rfl
      rw [this, List.length_append, ih, IndexEntry.length_toBytes, List.length_cons]
      ring

theorem indexBytes_row : ∀ (index : List IndexEntry) (i : ℕ) (h : i < index.length),
    ((indexBytes index).drop (i * indexRowBytes)).take indexRowBytes = index[i].toBytes
  | entry :: rest, 0, _ => by
      have : indexBytes (entry :: rest) = entry.toBytes ++ indexBytes rest := rfl
      rw [this, Nat.zero_mul, List.drop_zero, ← IndexEntry.length_toBytes entry, List.take_left']
      · rfl
      · rfl
  | entry :: rest, i + 1, h => by
      have hcons : indexBytes (entry :: rest) = entry.toBytes ++ indexBytes rest := rfl
      have hskip : (i + 1) * indexRowBytes = entry.toBytes.length + i * indexRowBytes := by
        rw [IndexEntry.length_toBytes]; ring
      rw [hcons, hskip, List.drop_length_add_append, indexBytes_row rest i (by simpa using h)]
      rfl

namespace MappedIndex

theorem len_indexBytes (index : List IndexEntry) : (⟨indexBytes index⟩ : MappedIndex).len = index.length := by
  simp [len, indexRowBytes]

theorem get_indexBytes {index : List IndexEntry} {i : ℕ} (h : i < index.length)
    (hfits : (indexBytes index).length < wordSize) :
    (⟨indexBytes index⟩ : MappedIndex).get i = readIndexEntry index[i].toBytes := by
  have hle : (i + 1) * indexRowBytes ≤ (indexBytes index).length := by
    rw [length_indexBytes]
    exact Nat.mul_le_mul_right _ h
  have hstep : (i + 1) * indexRowBytes = i * indexRowBytes + indexRowBytes := by ring
  have hmul : checkedMul i indexRowBytes = some (i * indexRowBytes) := by
    rw [checkedMul, if_pos (by omega)]
  have hrest : Bytes.slice (indexBytes index) (i * indexRowBytes) (indexBytes index).length =
      some ((indexBytes index).drop (i * indexRowBytes)) := by
    rw [Bytes.slice, if_pos (by omega), List.take_of_length_le (by simp)]
  have hrow : Bytes.slice ((indexBytes index).drop (i * indexRowBytes)) 0 indexRowBytes =
      some index[i].toBytes := by
    rw [Bytes.slice, if_pos (by rw [List.length_drop]; omega), List.drop_zero, Nat.sub_zero,
      indexBytes_row index i h]
  simp only [get, row, hmul, Option.bind_some, hrest, hrow, okOr, bind, Except.bind]

end MappedIndex

/-! ### Loading -/

structure LoadedCache where
  cacheId : ℕ
  manifest : Manifest
  /-- Loaded on first use when the cache was not validated. -/
  metadataRows : Option (List Row)
  index : MappedIndex
  path : Path
  validateEmbeddedMetadata : Bool

def LoadedCache.sampleCount (cache : LoadedCache) : ℕ := cache.index.len

/-- The file of a shard. -/
def shardPath (path : Path) (shard : ShardManifest) : Path := (path.join "shards").join shard.name

section load

variable (L : StorageLib) (fs : FileTree)

def openFile (path : Path) : CacheResult Bytes :=
  ioResult s!"cannot open {path.display}" (fs.read path)

def hashFile (path : Path) : CacheResult String := do
  let bytes ← openFile fs path
  .ok (hexEncode (L.sha256 bytes))

def verifyFileChecksum (path : Path) (expected : String) : CacheResult Unit := do
  let actual ← hashFile L fs path
  if actual ≠ expected then .error (.invalidCache s!"checksum mismatch for {path.display}") else .ok ()

def readManifest (path : Path) : CacheResult Manifest := do
  let manifestPath := path.join "manifest.json"
  if fs.pathExists manifestPath then
    let text ← openFile fs manifestPath
    let json ← jsonResult (L.json.parse text)
    Manifest.ofJson L.json json
  else .error (.invalidCache s!"missing manifest: {manifestPath.display}")

/-- The two checks of a shard file. -/
def verifyShard (path : Path) (validateCache : Bool) (shard : ShardManifest) : CacheResult Unit := do
  let bytes ← openFile fs (shardPath path shard)
  if bytes.length ≠ shard.byteLen then
    .error (.invalidCache s!"shard length mismatch for {(shardPath path shard).display}")
  else if validateCache then verifyFileChecksum L fs (shardPath path shard) shard.sha256
  else .ok ()

def verifyShards (path : Path) (manifest : Manifest) (validateCache : Bool) : CacheResult Unit :=
  manifest.fields.shards.forM (verifyShard L fs path validateCache)

def readMetadataFile (path : Path) (schema : List MetadataField) : CacheResult (List Row) := do
  let bytes ← openFile fs path
  readMetadataBytes L bytes schema

/-- An index row must name a shard of the manifest. -/
def checkEntry (manifest : Manifest) (entry : CacheResult IndexEntry) : CacheResult Unit := do
  let entry ← entry
  if manifest.fields.shards[entry.shardId]?.isNone then
    .error (.invalidCache s!"index references missing shard {entry.shardId}")
  else .ok ()

def validateLoadedShapes (manifest : Manifest) (metadataRows : Option (List Row))
    (index : MappedIndex) : CacheResult Unit :=
  let sampleCount := manifest.fields.sampleCount
  if metadataRows.any fun rows => rows.length ≠ sampleCount then
    .error (.invalidCache "metadata row count does not match manifest")
  else if index.len ≠ sampleCount then
    .error (.invalidCache "index row count does not match manifest")
  else index.iter.forM (checkEntry manifest)

/-- The checksums of the files beside the shards. -/
def verifyChecksums (path : Path) (manifest : Manifest) (validateCache : Bool) : CacheResult Unit :=
  if validateCache then do
    verifyFileChecksum L fs (path.join "metadata.arrow") manifest.fields.metadataSha256
    verifyFileChecksum L fs (path.join "index.bin") manifest.fields.indexSha256
  else .ok ()

/-- The rows are read to be compared later, else the file must only exist. -/
def loadRows (path : Path) (manifest : Manifest) (validateCache : Bool) :
    CacheResult (Option (List Row)) :=
  let metadataPath := path.join "metadata.arrow"
  if validateCache then (readMetadataFile L fs metadataPath manifest.fields.metadataSchema).map some
  else if fs.pathExists metadataPath then .ok none
  else .error (.io s!"cannot open {metadataPath.display}")

def loadCache (path : Path) (validateCache : Bool) (position : ℕ) : CacheResult LoadedCache := do
  let manifest ← readManifest L fs path
  let cacheId ← manifest.resolveCacheId position
  verifyChecksums L fs path manifest validateCache
  verifyShards L fs path manifest validateCache
  let index ← MappedIndex.openFile fs (path.join "index.bin")
  let metadataRows ← loadRows L fs path manifest validateCache
  validateLoadedShapes manifest metadataRows index
  .ok { cacheId, manifest, metadataRows, index, path, validateEmbeddedMetadata := validateCache }

/-- What `load_cache` checked and kept. -/
structure LoadedFrom (path : Path) (validateCache : Bool) (position : ℕ) (cache : LoadedCache) : Prop where
  manifest : readManifest L fs path = .ok cache.manifest
  cacheId : cache.manifest.resolveCacheId position = .ok cache.cacheId
  checksums : verifyChecksums L fs path cache.manifest validateCache = .ok ()
  shards : verifyShards L fs path cache.manifest validateCache = .ok ()
  index : MappedIndex.openFile fs (path.join "index.bin") = .ok cache.index
  rows : loadRows L fs path cache.manifest validateCache = .ok cache.metadataRows
  shapes : validateLoadedShapes cache.manifest cache.metadataRows cache.index = .ok ()
  path : cache.path = path
  embedded : cache.validateEmbeddedMetadata = validateCache

variable {L fs} in
theorem loadedFrom_of_loadCache {path : Path} {validateCache : Bool} {position : ℕ} {cache : LoadedCache}
    (h : loadCache L fs path validateCache position = .ok cache) :
    LoadedFrom L fs path validateCache position cache := by
  obtain ⟨manifest, hmanifest, h⟩ := bind_eq_ok h
  obtain ⟨cacheId, hcacheId, h⟩ := bind_eq_ok h
  obtain ⟨⟨⟩, hchecksums, h⟩ := bind_eq_ok h
  obtain ⟨⟨⟩, hshards, h⟩ := bind_eq_ok h
  obtain ⟨index, hindex, h⟩ := bind_eq_ok h
  obtain ⟨rows, hrows, h⟩ := bind_eq_ok h
  obtain ⟨⟨⟩, hshapes, h⟩ := bind_eq_ok h
  cases h
  exact ⟨hmanifest, hcacheId, hchecksums, hshards, hindex, hrows, hshapes, rfl, rfl⟩

end load

/-! ### Open shard files -/

/-- `ShardReaderCache`: the open files of one worker, and the order of their last use. -/
structure ShardReaderCache where
  readers : AList fun _ : Path => Bytes
  recentPaths : List Path
  maxReaders : ℕ

namespace ShardReaderCache

/-- `MAX_CACHED_SHARD_READERS`. -/
def maxCachedShardReaders : ℕ := 64

def new : ShardReaderCache := ⟨∅, [], maxCachedShardReaders⟩

def markRecent (c : ShardReaderCache) (path : Path) : ShardReaderCache :=
  { c with recentPaths := c.recentPaths.filter (fun existing => existing ≠ path) ++ [path] }

/-- The loop of `evict_if_full` on the paths in order of use. -/
def evict (maxReaders : ℕ) : (AList fun _ : Path => Bytes) → List Path →
    (AList fun _ : Path => Bytes) × List Path
  | readers, [] => (readers, [])
  | readers, path :: rest =>
      if maxReaders ≤ readers.entries.length then evict maxReaders (readers.erase path) rest
      else (readers, path :: rest)

def evictIfFull (c : ShardReaderCache) : ShardReaderCache :=
  let evicted := evict c.maxReaders c.readers c.recentPaths
  { c with readers := evicted.1, recentPaths := evicted.2 }

def openReader (fs : FileTree) (c : ShardReaderCache) (path : Path) :
    ShardReaderCache × CacheResult Unit :=
  let c := c.evictIfFull
  match openFile fs path with
  | .error error => (c, .error error)
  | .ok file =>
      ({ c with readers := c.readers.insert path file, recentPaths := c.recentPaths ++ [path] }, .ok ())

def readerMut (c : ShardReaderCache) (path : Path) : CacheResult Bytes :=
  okOr (c.readers.lookup path) (.invalidCache "shard reader is unavailable")

def readerFor (fs : FileTree) (c : ShardReaderCache) (path : Path) :
    ShardReaderCache × CacheResult Bytes :=
  if (c.readers.lookup path).isSome then
    let c := c.markRecent path
    (c, c.readerMut path)
  else
    match c.openReader fs path with
    | (c, .error error) => (c, .error error)
    | (c, .ok ()) => (c, c.readerMut path)

/-- Every open file is the one its path names now. -/
def Fresh (fs : FileTree) (c : ShardReaderCache) : Prop :=
  ∀ path file, c.readers.lookup path = some file → fs.read path = some file

theorem fresh_new (fs : FileTree) : Fresh fs new := by
  intro path file h
  simp [new] at h

theorem lookup_evict {maxReaders : ℕ} {path : Path} {file : Bytes} :
    ∀ {recent : List Path} {readers : AList fun _ : Path => Bytes},
    (evict maxReaders readers recent).1.lookup path = some file → readers.lookup path = some file
  | [], readers, h => h
  | oldest :: rest, readers, h => by
      simp only [evict] at h
      split_ifs at h with hfull
      · have hlookup := lookup_evict h
        by_cases heq : path = oldest
        · rw [heq, AList.lookup_erase] at hlookup
          cases hlookup
        · rwa [AList.lookup_erase_ne heq] at hlookup
      · exact h

theorem lookup_evictIfFull {c : ShardReaderCache} {path : Path} {file : Bytes}
    (h : c.evictIfFull.readers.lookup path = some file) : c.readers.lookup path = some file :=
  lookup_evict h

/-- What a request for a path can do: the file was open, or it is opened now. -/
theorem readerFor_cases (fs : FileTree) (c : ShardReaderCache) (path : Path) :
    (∃ file, c.readers.lookup path = some file ∧
      c.readerFor fs path = (c.markRecent path, .ok file)) ∨
    (c.readers.lookup path = none ∧ ∃ c', (c.readerFor fs path) = (c', openFile fs path) ∧
      ∀ p file, c'.readers.lookup p = some file →
        c.readers.lookup p = some file ∨ (p = path ∧ fs.read path = some file)) := by
  unfold readerFor
  cases hopen : c.readers.lookup path with
  | some file =>
      have : (c.markRecent path).readers.lookup path = some file := hopen
      exact .inl ⟨file, rfl, by simp [readerMut, this, okOr]⟩
  | none =>
      refine .inr ⟨rfl, ?_⟩
      simp only [Option.isSome_none, Bool.false_eq_true, if_false]
      cases hfile : openFile fs path with
      | error error =>
          refine ⟨c.evictIfFull, by simp [openReader, hfile], fun p file h => ?_⟩
          exact .inl (lookup_evictIfFull h)
      | ok file =>
          have hread : fs.read path = some file := okOr_eq_ok.mp hfile
          refine ⟨{ c.evictIfFull with
              readers := c.evictIfFull.readers.insert path file
              recentPaths := c.evictIfFull.recentPaths ++ [path] },
            by simp only [openReader, hfile, readerMut, AList.lookup_insert, okOr], fun p f h => ?_⟩
          by_cases heq : p = path
          · rw [heq, AList.lookup_insert] at h
            exact .inr ⟨heq, by rw [hread, h]⟩
          · rw [AList.lookup_insert_ne heq] at h
            exact .inl (lookup_evictIfFull h)

/-- Open files of an unchanged tree are as good as opening anew. -/
theorem readerFor_of_fresh {fs : FileTree} {c : ShardReaderCache} (h : Fresh fs c) (path : Path) :
    (c.readerFor fs path).2 = openFile fs path ∧ Fresh fs (c.readerFor fs path).1 := by
  rcases readerFor_cases fs c path with ⟨file, hlookup, heq⟩ | ⟨-, c', heq, hc'⟩
  · rw [heq]
    refine ⟨?_, h⟩
    rw [openFile, h path file hlookup]
    rfl
  · rw [heq]
    refine ⟨rfl, fun p file hp => ?_⟩
    rcases hc' p file hp with hold | ⟨rfl, hread⟩
    · exact h p file hold
    · exact hread

end ShardReaderCache

/-! ### Reading a sample -/

namespace LoadedCache

variable (L : StorageLib) (fs : FileTree) (cache : LoadedCache)

/-- `with_metadata_rows`: the rows are there, or are read now.  Only validated caches are asked
for them, and these have them from the start. -/
def withMetadataRows : CacheResult (List Row) :=
  match cache.metadataRows with
  | some rows => .ok rows
  | none => readMetadataFile L fs (cache.path.join "metadata.arrow") cache.manifest.fields.metadataSchema

def validateRedundantMetadata (metadata embeddedMetadata : Row) (sampleIndex : ℕ) : CacheResult Unit :=
  if MetadataValue.eqRow metadata embeddedMetadata then .ok ()
  else .error (.invalidCache
    s!"embedded metadata does not match metadata.arrow for sample {sampleIndex}")

/-- The comparison with the row of `metadata.arrow`. -/
def validateEmbedded (sampleIndex : ℕ) (sample : CacheSample) : CacheResult Unit :=
  if cache.validateEmbeddedMetadata then do
    let rows ← cache.withMetadataRows L fs
    let metadata ← okOr rows[sampleIndex]? (.invalidCache s!"metadata row {sampleIndex} is out of range")
    validateRedundantMetadata metadata sample.metadata sampleIndex
  else .ok ()

/-- The index entry, its shard, and the end of the record. -/
def locateRecord (sampleIndex : ℕ) : CacheResult (IndexEntry × ShardManifest × ℕ) := do
  let entry ← cache.index.get sampleIndex
  let shard ← okOr cache.manifest.fields.shards[entry.shardId]?
    (.invalidCache s!"shard id {entry.shardId} is out of range")
  let stop ← okOr (checkedAdd entry.offset entry.byteLen)
    (.invalidCache "record offset and length overflowed u64")
  .ok (entry, shard, stop)

/-- The rest of `read_sample_with_cache`, with the shard open. -/
def readRecord (sampleIndex : ℕ) (entry : IndexEntry) (shard : ShardManifest) (stop : ℕ)
    (file : Bytes) : CacheResult CacheSample := do
  if shard.byteLen < stop then .error (.invalidCache "record extends beyond shard length")
  else
    let record ← ioResult "failed to fill whole buffer" (file.slice entry.offset stop)
    let sample ← decodeStoredRecord L record cache.manifest shard
    cache.validateEmbedded L fs sampleIndex sample
    .ok sample

def readSampleWithCache (sampleIndex : ℕ) (readers : ShardReaderCache) :
    ShardReaderCache × CacheResult CacheSample :=
  match cache.locateRecord sampleIndex with
  | .error error => (readers, .error error)
  | .ok (entry, shard, stop) =>
      match readers.readerFor fs (shardPath cache.path shard) with
      | (readers, .error error) => (readers, .error error)
      | (readers, .ok file) => (readers, cache.readRecord L fs sampleIndex entry shard stop file)

/-- Reads one after the other through the same open files. -/
def readAll : ShardReaderCache → List ℕ → ShardReaderCache × List (CacheResult CacheSample)
  | readers, [] => (readers, [])
  | readers, i :: rest =>
      let first := cache.readSampleWithCache L fs i readers
      let others := readAll first.1 rest
      (others.1, first.2 :: others.2)

end LoadedCache

end DatasetRt
