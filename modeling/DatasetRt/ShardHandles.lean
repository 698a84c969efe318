import DatasetRt.CacheRoundTrip
import DatasetRt.Lib.Machine

/-! # Shard handles of a runtime

The threads of a `DatasetRuntime` keep the shard files they opened (`SHARD_READERS` in
`runtime.rs`), by path, beyond the life of the caches and datasets they were opened for.
`Runtime` is the file system with the caches that are alive and the open files of every thread;
`Runtime.step` is one call: publishing or removing a directory, loading or dropping a cache, or
reading a sample on some thread.

A handle keeps the file it was opened on when its name goes away or is taken by another file.
`faithful_of_unheld` says that reads are right as long as nothing is published over a path that a
thread still holds. -/

namespace DatasetRt

/-- A `LoadedCache` that is alive, with the tree in which `load_cache` checked its files. -/
structure LiveCache where
  cache : LoadedCache
  loadedIn : FileTree

/-- A read, with the trees it is compared with. -/
structure ReadRecord where
  live : LiveCache
  now : FileTree
  sampleIndex : ℕ
  result : CacheResult CacheSample

structure Runtime where
  fs : FileTree
  /-- `none` for a cache that was dropped. -/
  caches : List (Option LiveCache)
  /-- The open files of every thread. -/
  threads : ℕ → ShardReaderCache
  reads : List ReadRecord

inductive RuntimeCall where
  | publish (path : Path) (dir : FileTree)
  | remove (path : Path)
  | load (path : Path) (validate : Bool) (position : ℕ)
  | drop (k : ℕ)
  | read (thread k sampleIndex : ℕ)

namespace Runtime

/-- No cache of that path is alive. -/
def unused (s : Runtime) (path : Path) : Bool :=
  s.caches.all fun c => c.all fun live => live.cache.path ≠ path

/-- One call; a directory is replaced or removed only while no cache of its path is alive. -/
def step (L : StorageLib) (s : Runtime) : RuntimeCall → Option Runtime
  | .publish path dir => if s.unused path then some { s with fs := s.fs.graft path dir } else none
  | .remove path => if s.unused path then some { s with fs := s.fs.removeDirAll path } else none
  | .load path validate position =>
      match loadCache L s.fs path validate position with
      | .ok cache => some { s with caches := s.caches ++ [some ⟨cache, s.fs⟩] }
      | .error _ => some s
  | .drop k => some { s with caches := s.caches.set k none }
  | .read thread k sampleIndex =>
      match s.caches[k]? with
      | some (some live) =>
          let read := live.cache.readSampleWithCache L s.fs sampleIndex (s.threads thread)
          some { s with
            threads := Function.update s.threads thread read.1
            reads := s.reads ++ [⟨live, s.fs, sampleIndex, read.2⟩] }
      | _ => none

/-- A runtime whose threads have opened nothing. -/
def new (fs : FileTree) : Runtime := ⟨fs, [], fun _ => .new, []⟩

/-- What the read would give if its file were opened anew in a tree. -/
def readAnew (L : StorageLib) (r : ReadRecord) (fs : FileTree) : CacheResult CacheSample :=
  (r.live.cache.readSampleWithCache L fs r.sampleIndex .new).2

/-- Every read gave what the files that `load_cache` checked give, and what opening the file anew
gives. -/
def Faithful (L : StorageLib) (s : Runtime) : Prop :=
  ∀ r ∈ s.reads, r.result = readAnew L r r.live.loadedIn ∧ r.result = readAnew L r r.now

/-- Some file of a live cache lies at or below the path. -/
def Below (s : Runtime) (path : Path) : Prop :=
  ∃ c, some c ∈ s.caches ∧ ∃ shard ∈ c.cache.manifest.fields.shards, path <+: shardPath c.cache.path shard

/-- Some thread holds a file at or below the path. -/
def Held (s : Runtime) (path : Path) : Prop :=
  ∃ thread q file, (s.threads thread).readers.lookup q = some file ∧ path <+: q

/-- The condition on a call: a directory is published only where no thread holds a file, and published
or removed only where no live cache has one. -/
def Unheld (s : Runtime) : RuntimeCall → Prop
  | .publish path _ => ¬ s.Held path ∧ ¬ s.Below path
  | .remove path => ¬ s.Below path
  | _ => True

/-! ### What a loaded cache needs of the tree -/

/-- The files of a live cache are those it was loaded from. -/
structure Intact (fs : FileTree) (c : LiveCache) : Prop where
  shards : ∀ shard ∈ c.cache.manifest.fields.shards, ∃ bytes,
    c.loadedIn.read (shardPath c.cache.path shard) = some bytes ∧
      fs.read (shardPath c.cache.path shard) = some bytes
  /-- The rows to compare with are in memory. -/
  rows : c.cache.validateEmbeddedMetadata = true → c.cache.metadataRows.isSome

theorem intact_of_load {L : StorageLib} {fs : FileTree} {path : Path} {validate : Bool} {position : ℕ}
    {cache : LoadedCache} (h : loadCache L fs path validate position = .ok cache) :
    Intact fs ⟨cache, fs⟩ := by
  have hloaded := loadedFrom_of_loadCache h
  refine ⟨fun shard hshard => ?_, fun hvalidate => ?_⟩
  · have hverify := forM_eq_ok_iff.mp hloaded.shards shard hshard
    obtain ⟨bytes, hbytes, -⟩ := bind_eq_ok hverify
    rw [hloaded.path]
    exact ⟨bytes, okOr_eq_ok.mp hbytes, okOr_eq_ok.mp hbytes⟩
  · have hrows := hloaded.rows
    rw [loadRows, if_pos (hloaded.embedded.symm.trans hvalidate)] at hrows
    cases hread : readMetadataFile L fs (path.join "metadata.arrow") cache.manifest.fields.metadataSchema with
    | error error => rw [hread] at hrows; cases hrows
    | ok read =>
        rw [hread] at hrows
        exact Option.isSome_iff_exists.mpr ⟨read, (Except.ok.inj hrows).symm⟩

theorem readRecord_eq {L : StorageLib} {fs fs' : FileTree} {c : LiveCache} (h : Intact fs c) (i : ℕ)
    (entry : IndexEntry) (shard : ShardManifest) (stop : ℕ) (file : Bytes) :
    c.cache.readRecord L fs' i entry shard stop file = c.cache.readRecord L fs i entry shard stop file := by
  have hembedded : ∀ sample, c.cache.validateEmbedded L fs' i sample = c.cache.validateEmbedded L fs i sample := by
    intro sample
    unfold LoadedCache.validateEmbedded
    split_ifs with hvalidate
    · obtain ⟨rows, hrows⟩ := Option.isSome_iff_exists.mp (h.rows hvalidate)
      simp only [LoadedCache.withMetadataRows, hrows]
    · rfl
  simp only [LoadedCache.readRecord, hembedded]

/-! ### Reading through handles -/

/-- Every open file is the one its path names, if the path names one. -/
def Honest (fs : FileTree) (readers : ShardReaderCache) : Prop :=
  ∀ q file, readers.readers.lookup q = some file → fs.read q = some file ∨ fs.read q = none

theorem honest_new (fs : FileTree) : Honest fs .new := by
  intro q file h
  simp [ShardReaderCache.new] at h

theorem honest_readerFor {fs : FileTree} {readers : ShardReaderCache} (h : Honest fs readers) (path : Path) :
    Honest fs (readers.readerFor fs path).1 := by
  rcases ShardReaderCache.readerFor_cases fs readers path with ⟨file, -, heq⟩ | ⟨-, readers', heq, hopen⟩
  · rw [heq]
    exact h
  · rw [heq]
    intro q file hq
    rcases hopen q file hq with hold | ⟨rfl, hread⟩
    · exact h q file hold
    · exact .inl hread

theorem readerFor_of_honest {fs : FileTree} {readers : ShardReaderCache} (h : Honest fs readers) {path : Path}
    {bytes : Bytes} (hread : fs.read path = some bytes) : (readers.readerFor fs path).2 = .ok bytes := by
  rcases ShardReaderCache.readerFor_cases fs readers path with ⟨file, hlookup, heq⟩ | ⟨-, readers', heq, -⟩
  · rw [heq]
    rcases h path file hlookup with hsame | hnone
    · rw [hread, Option.some.injEq] at hsame
      rw [hsame]
    · rw [hread] at hnone
      cases hnone
  · rw [heq]
    exact okOr_eq_ok.mpr hread

theorem readSampleWithCache_eq {L : StorageLib} {fs : FileTree} {cache : LoadedCache} {i stop : ℕ}
    {entry : IndexEntry} {shard : ShardManifest} (hlocate : cache.locateRecord i = .ok (entry, shard, stop))
    {readers : ShardReaderCache} {bytes : Bytes}
    (hopen : (readers.readerFor fs (shardPath cache.path shard)).2 = .ok bytes) :
    (cache.readSampleWithCache L fs i readers).2 = cache.readRecord L fs i entry shard stop bytes := by
  unfold LoadedCache.readSampleWithCache
  rw [hlocate]
  rcases hfor : readers.readerFor fs (shardPath cache.path shard) with ⟨readers', result⟩
  rw [hfor] at hopen
  obtain rfl : result = .ok bytes := hopen
  simp only [hfor]

theorem locateRecord_shard {cache : LoadedCache} {i stop : ℕ} {entry : IndexEntry} {shard : ShardManifest}
    (h : cache.locateRecord i = .ok (entry, shard, stop)) : shard ∈ cache.manifest.fields.shards := by
  obtain ⟨entry', -, h⟩ := bind_eq_ok h
  obtain ⟨shard', hshard, h⟩ := bind_eq_ok h
  obtain ⟨stop', -, h⟩ := bind_eq_ok h
  cases h
  exact List.mem_of_getElem? (okOr_eq_ok.mp hshard)

/-- A read of an intact cache through honest handles, in the tree of now and in the tree it was loaded
from. -/
theorem read_of_honest {L : StorageLib} {fs : FileTree} {c : LiveCache} (hc : Intact fs c)
    {readers : ShardReaderCache} (hreaders : Honest fs readers) (i : ℕ) :
    (c.cache.readSampleWithCache L fs i readers).2 = (c.cache.readSampleWithCache L c.loadedIn i .new).2 ∧
      (c.cache.readSampleWithCache L fs i readers).2 = (c.cache.readSampleWithCache L fs i .new).2 := by
  cases hlocate : c.cache.locateRecord i with
  | error error => simp only [LoadedCache.readSampleWithCache, hlocate, and_self]
  | ok located =>
      obtain ⟨entry, shard, stop⟩ := located
      obtain ⟨bytes, hold, hnow⟩ := hc.shards shard (locateRecord_shard hlocate)
      rw [readSampleWithCache_eq hlocate (readerFor_of_honest hreaders hnow),
        readSampleWithCache_eq hlocate (readerFor_of_honest (honest_new fs) hnow),
        readSampleWithCache_eq hlocate (readerFor_of_honest (honest_new c.loadedIn) hold)]
      exact ⟨(readRecord_eq hc i entry shard stop bytes).symm, rfl⟩

theorem honest_read {L : StorageLib} {fs : FileTree} {readers : ShardReaderCache} (h : Honest fs readers)
    (cache : LoadedCache) (i : ℕ) : Honest fs (cache.readSampleWithCache L fs i readers).1 := by
  unfold LoadedCache.readSampleWithCache
  cases hlocate : cache.locateRecord i with
  | error error => exact h
  | ok located =>
      obtain ⟨entry, shard, stop⟩ := located
      have hnext := honest_readerFor h (shardPath cache.path shard)
      rcases hfor : readers.readerFor fs (shardPath cache.path shard) with ⟨readers', error | file⟩ <;>
      · rw [hfor] at hnext
        simp only [hfor]
        exact hnext

/-! ### Histories -/

structure Inv (L : StorageLib) (s : Runtime) : Prop where
  honest : ∀ thread, Honest s.fs (s.threads thread)
  intact : ∀ c, some c ∈ s.caches → Intact s.fs c
  faithful : Faithful L s

theorem inv_new (L : StorageLib) (fs : FileTree) : Inv L (new fs) where
  honest := fun _ => honest_new fs
  intact := fun _ h => absurd h List.not_mem_nil
  faithful := fun _ h => absurd h List.not_mem_nil

section replaced

variable {s : Runtime} {path : Path} {dir : FileTree}

theorem read_graft_of_outside (t : FileTree) {q : Path} (h : ¬ path <+: q) :
    (t.graft path dir).read q = t.read q := by
  simp only [FileTree.read, FileTree.graft_of_not_prefix t h]

theorem intact_graft (hbelow : ¬ s.Below path) {c : LiveCache} (hmem : some c ∈ s.caches)
    (h : Intact s.fs c) : Intact (s.fs.graft path dir) c := by
  refine ⟨fun shard hshard => ?_, h.rows⟩
  obtain ⟨bytes, hold, hnow⟩ := h.shards shard hshard
  refine ⟨bytes, hold, ?_⟩
  rw [read_graft_of_outside _ fun hpre => hbelow ⟨c, hmem, shard, hshard, hpre⟩]
  exact hnow

end replaced

theorem inv_step {L : StorageLib} {s s' : Runtime} {call : RuntimeCall} (h : Inv L s)
    (hok : s.Unheld call) (hstep : s.step L call = some s') : Inv L s' := by
  cases call with
  | publish path dir =>
      simp only [step] at hstep
      split_ifs at hstep
      cases hstep
      refine ⟨fun thread q file hq => ?_, fun c hc => intact_graft hok.2 hc (h.intact c hc), h.faithful⟩
      rw [read_graft_of_outside _ fun hpre => hok.1 ⟨thread, q, file, hq, hpre⟩]
      exact h.honest thread q file hq
  | remove path =>
      simp only [step] at hstep
      split_ifs at hstep
      cases hstep
      refine ⟨fun thread q file hq => ?_, fun c hc => intact_graft hok hc (h.intact c hc), h.faithful⟩
      -- a handle on a removed file stays open; the path names nothing
      by_cases hpre : path <+: q
      · refine .inr ?_
        simp [FileTree.removeDirAll, FileTree.read, FileTree.graft, hpre, FileTree.empty]
      · rw [FileTree.removeDirAll, read_graft_of_outside _ hpre]
        exact h.honest thread q file hq
  | load path validate position =>
      simp only [step] at hstep
      cases hload : loadCache L s.fs path validate position with
      | error error =>
          rw [hload] at hstep
          cases hstep
          exact h
      | ok cache =>
          rw [hload] at hstep
          cases hstep
          refine ⟨h.honest, fun c hc => ?_, h.faithful⟩
          rcases List.mem_append.mp hc with hold | hnew
          · exact h.intact c hold
          · rw [List.mem_singleton, Option.some.injEq] at hnew
            subst hnew
            exact intact_of_load hload
  | drop k =>
      cases hstep
      refine ⟨h.honest, fun c hc => ?_, h.faithful⟩
      rcases List.mem_or_eq_of_mem_set hc with hold | hnone
      · exact h.intact c hold
      · cases hnone
  | read thread k sampleIndex =>
      simp only [step] at hstep
      split at hstep
      · rename_i live hlive
        cases hstep
        have hintact := h.intact live (List.mem_of_getElem? hlive)
        refine ⟨fun t => ?_, h.intact, fun r hr => ?_⟩
        · by_cases ht : t = thread
          · subst ht
            simpa using honest_read (h.honest t) live.cache sampleIndex
          · simpa [ht] using h.honest t
        · rcases List.mem_append.mp hr with hold | hnew
          · exact h.faithful r hold
          · rw [List.mem_singleton] at hnew
            subst hnew
            exact read_of_honest hintact (h.honest thread) sampleIndex
      · cases hstep

/-- **Handles.**  In every history in which nothing is published over a path that a thread holds, or over
or under the files of a live cache, every read gives what the files checked at load time give. -/
theorem faithful_of_unheld (L : StorageLib) (fs : FileTree) (calls : List RuntimeCall) (s : Runtime)
    (hunheld : Machine.Guarded (step L) Unheld (new fs) calls)
    (hrun : Machine.run (step L) (new fs) calls = some s) : Faithful L s :=
  (Machine.run_invariant_of_guarded (I := Inv L) (step L) (fun _ _ _ h hok hstep => inv_step h hok hstep)
    (inv_new L fs) hunheld hrun).faithful

namespace Replaced

/-- The manifest of a cache with one sample; the identity is the digest of its name. -/
def manifest (cacheId : ℕ) (sourceName : String) (payload : UInt8) : Manifest :=
  .v4 cacheId
    { sourceName
      sampleCount := 1
      metadataSchema := TwoShards.schema
      metadataSha256 := hexEncode (TwoShards.sha256 TwoShards.arrowBytes)
      indexSha256 := "f3359a4dadeb81127a63f0565d0bcef6d003388338fb76ffcfb0016c9858500e"
      shards := [⟨shardName 0, 19, 19, .none, hexEncode (TwoShards.sha256 (TwoShards.record payload))⟩]
      extra := ∅ }

def first : Manifest := manifest 304680751394550461 "s" 1

def second : Manifest := manifest 7185926746499846781 "t" 2

/-- There is no float in a manifest. -/
def text (m : Manifest) : Bytes := m.toJson.text fun _ => ""

/-- The texts that are parsed are those of the two manifests: the first digits of the identities tell them apart. -/
def lib : StorageLib where
  codec :=
    { lz4FlexCompress := fun _ => .error ""
      lz4CompressBound := fun _ => .error ""
      lz4Compress := fun _ _ => .error ""
      lz4Decompress := fun _ _ => .error ""
      brotliCompress := fun _ _ => .error ""
      brotliDecompress := fun _ _ => ⟨.resultFailure, 0, []⟩ }
  json :=
    { print := fun _ => .error ""
      parse := fun text => .ok (if text[39]? = some 51 then first else second).toJson
      reread := id
      describe := fun _ => "" }
  arrow := ⟨fun _ _ => .error "", fun _ => .error ""⟩
  encodeObject := fun _ => .error ""
  decodeObject := fun text => if text = TwoShards.objectText then .ok TwoShards.metadata else .error ""
  sha256 := TwoShards.sha256

def dir (m : Manifest) (payload : UInt8) : FileTree :=
  (((CacheBuilder.emptyDir.write (shardFile (shardName 0)) (TwoShards.record payload)).write
    ["metadata.arrow"] TwoShards.arrowBytes).write ["index.bin"] (indexBytes [⟨0, 0, 19⟩])).write
    ["manifest.json"] (text m)

/-- One cache is published, read, dropped and removed. -/
def firstCache : List RuntimeCall :=
  [.publish ["c"] (dir first 1), .load ["c"] false 0, .read 0 0 0, .drop 0, .remove ["c"]]

/-- Another cache takes its place and is read on a thread. -/
def secondCache (thread : ℕ) : List RuntimeCall :=
  [.publish ["c"] (dir second 2), .load ["c"] false 0, .read thread 1 0]

end Replaced

/-- Two reads of one cache, the second through the handle of the first. -/
theorem faithful_through_handle : ∃ s,
    Machine.run (step Replaced.lib) (new FileTree.empty)
      [.publish ["c"] (Replaced.dir Replaced.first 1), .load ["c"] false 0, .read 0 0 0, .read 0 0 0] = some s ∧
    s.reads.map ReadRecord.result = [.ok ⟨[1], [.bool true]⟩, .ok ⟨[1], [.bool true]⟩] ∧
    Faithful Replaced.lib s := by
  have hreads : (Machine.run (step Replaced.lib) (new FileTree.empty)
      [.publish ["c"] (Replaced.dir Replaced.first 1), .load ["c"] false 0, .read 0 0 0, .read 0 0 0]).map
        (fun s => s.reads.map ReadRecord.result) =
      some [.ok ⟨[1], [.bool true]⟩, .ok ⟨[1], [.bool true]⟩] := rfl
  obtain ⟨s, hrun, hreads⟩ := Option.map_eq_some_iff.mp hreads
  refine ⟨s, hrun, hreads, faithful_of_unheld Replaced.lib FileTree.empty _ s ?_ hrun⟩
  have hheld : ¬ (new FileTree.empty).Held ["c"] := by
    rintro ⟨thread, q, file, hq, -⟩
    simp [new, ShardReaderCache.new] at hq
  have hbelow : ¬ (new FileTree.empty).Below ["c"] := by
    rintro ⟨c, hc, -⟩
    exact absurd hc List.not_mem_nil
  exact ⟨⟨hheld, hbelow⟩, fun _ _ => ⟨trivial, fun _ _ => ⟨trivial, fun _ _ => ⟨trivial, fun _ _ => trivial⟩⟩⟩⟩

/-- The thread that read the first cache reads the first cache again where the second one is. -/
theorem stale_handle : ∃ s,
    Machine.run (step Replaced.lib) (new FileTree.empty) (Replaced.firstCache ++ Replaced.secondCache 0) = some s ∧
    ¬ Faithful Replaced.lib s := by
  have hreads : (Machine.run (step Replaced.lib) (new FileTree.empty)
      (Replaced.firstCache ++ Replaced.secondCache 0)).map (fun s => s.reads.map fun r =>
        (r.result, readAnew Replaced.lib r r.now)) =
      some [(.ok ⟨[1], [.bool true]⟩, .ok ⟨[1], [.bool true]⟩),
        (.ok ⟨[1], [.bool true]⟩, .ok ⟨[2], [.bool true]⟩)] := rfl
  obtain ⟨s, hrun, hreads⟩ := Option.map_eq_some_iff.mp hreads
  refine ⟨s, hrun, fun hfaithful => ?_⟩
  have hmem : (Except.ok ⟨[1], [.bool true]⟩, Except.ok ⟨[2], [.bool true]⟩) ∈
      s.reads.map fun r => (r.result, readAnew Replaced.lib r r.now) := by
    rw [hreads]
    simp
  obtain ⟨r, hr, heq⟩ := List.mem_map.mp hmem
  rw [Prod.mk.injEq] at heq
  have hsame := (hfaithful r hr).2
  rw [heq.1, heq.2] at hsame
  simp at hsame

end Runtime

end DatasetRt
