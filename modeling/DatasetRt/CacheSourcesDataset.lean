import DatasetRt.CacheLoading
import DatasetRt.DatasetWindows
import DatasetRt.OneSource
import DatasetRt.PublicationMarker
import DatasetRt.ReaderOrder
import DatasetRt.SampleIdentity
import DatasetRt.WriteParallel

/-! # From sources to samples

`from_cache_sources` (`runtime.py`) writes a list of sources, loads the caches of those that succeeded and returns a
dataset.  Here the steps of the native path are put together: what `write_source_list` leaves on the disk
(`WritesSourceList.settled`), what `load_cache` makes of it (`FinishedCache.reads`), which population that is, and what an
iterator returns.  `cache_sources_read_in_order` says that the first epoch of a sequential reader returns the samples
of the sources that were written, in the order of the sources, and no others. -/

namespace DatasetRt

/-! ### `runtime.py` -/

/-- `_cache_write_result`. -/
def cacheWriteResult (record : CacheWriteRecord) : CacheWriteResult :=
  match record.status with
  | .success => .success (.ofString record.sourceName) (Path.components record.detail)
  | .error => .error (.ofString record.sourceName) record.detail

/-- `_successful_cache_paths`. -/
def successfulCachePaths : List CacheWriteResult → List Path
  | [] => []
  | .success _ path :: results => path :: successfulCachePaths results
  | .error _ _ :: results => successfulCachePaths results

/-- The messages of `_format_cache_sources_dataset_error`. -/
def failureMessages : List CacheWriteResult → List PyStr
  | [] => []
  | .success _ _ :: results => failureMessages results
  | .error sourceName message :: results =>
      ⟨sourceName.chars ++ (PyStr.ofString (": " ++ message)).chars⟩ :: failureMessages results

/-- `_format_cache_sources_dataset_error`. -/
def formatCacheSourcesDatasetError (results : List CacheWriteResult) : PyStr :=
  match failureMessages results with
  | [] => .ofString "no cache sources were provided"
  | messages => ⟨(PyStr.ofString "no caches were written: ").chars ++
      (PyStr.ofString "; ").chars.intercalate (messages.map PyStr.chars)⟩

inductive CacheSourcesDatasetResult where
  | error (results : List CacheWriteResult) (message : PyStr)
  | success (dataset : Dataset × MutableDatasetState) (results : List CacheWriteResult)

/-- `from_cache_sources` after the sources were written; `cachedDataset` is `cached_dataset`. -/
def fromCacheSources (cachedDataset : List Path → CacheResult (Dataset × MutableDatasetState))
    (results : List CacheWriteResult) : CacheResult CacheSourcesDatasetResult :=
  match successfulCachePaths results with
  | [] => .ok (.error results (formatCacheSourcesDatasetError results))
  | paths => (cachedDataset paths).map fun dataset => .success dataset results

/-! ### Paths as text -/

/-- The samples of the cache are these: every read gives the payload and the values in the order of the schema,
through any open files of an unchanged tree. -/
structure LoadedCache.Reads (L : StorageLib) (fs : FileTree) (inputs : List WriterInput) (cache : LoadedCache) :
    Prop where
  count : cache.sampleCount = inputs.length
  sample : ∀ (i : ℕ) data metadata readers, inputs[i]? = some (data, metadata) → readers.Fresh fs →
    ∃ row, valuesInOrder cache.manifest.fields.metadataSchema metadata = some row ∧
      (cache.readSampleWithCache L fs i readers).2 = .ok { data, metadata := row }

/-- The embedded rows of a source can be parsed. -/
def RowsReadBack (L : StorageLib) (config : WriterConfig) (sourceName : String) (inputs : List WriterInput) : Prop :=
  ∀ path b₀ b, CacheBuilder.create false true path sourceName config.maxShardBytes.1 config.shardCompression = .ok b₀ →
    b₀.pushAll L inputs = (b, .ok ()) → ∀ row ∈ b.metadataRows, ObjectReadsBack L b.schema row

section caches

variable {L : StorageLib} {config : WriterConfig} {fs : FileTree}

/-- **A finished cache loads and has its samples.** -/
theorem FinishedCache.reads (hL : L.Lawful) (hvalid : config.shardCompression.Valid) {sourceName : String}
    {inputs : List WriterInput} {dir : FileTree} (h : FinishedCache L config sourceName inputs dir)
    (hrows : RowsReadBack L config sourceName inputs) {place : Path} (hplace : fs.sub place = dir) (hsized : fs.Sized)
    (validate : Bool) (position : ℕ) :
    ∃ cache, loadCache L fs place validate position = .ok cache ∧ cache.Reads L fs inputs := by
  obtain ⟨path, b₀, b, manifest, hcreate, hpush, hfinish, -⟩ := h
  have hjson := hrows path b₀ b hcreate hpush
  obtain ⟨hinv₀, hcomp₀⟩ := CacheBuilder.inv_create (L := L) hcreate
  obtain ⟨pushed, hinv, hsamples, hcomp⟩ := hinv₀.pushAll hpush
  obtain ⟨metadata, hfin⟩ := hinv.finish hfinish
  rw [History.samples, History.samples, List.map_nil, List.nil_append] at hsamples
  subst hsamples
  refine ⟨_, hfin.loadCache hL hinv (by rw [hcomp, hcomp₀]; exact hvalid) hplace hsized validate position, ?_, ?_⟩
  · rw [LoadedCache.sampleCount, loadedOf, MappedIndex.len_indexBytes, hinv.index]
    simp
  · intro i data metadata readers hi hfresh
    obtain ⟨p, hp, heq⟩ := Option.map_eq_some_iff.mp (List.getElem?_map .. ▸ hi)
    cases heq
    refine ⟨p.row, ?_, (hfin.readSample hL hinv hplace hsized hjson validate hp hfresh).1⟩
    have hmem := List.mem_of_getElem? hp
    have hschema : (loadedOf L b manifest place validate).manifest.fields.metadataSchema = b.schema :=
      (hfin.reread_fields L.json.reread).1
    rw [hschema, ← ((hfin.rows hL hinv).2 p hmem).1]
    exact (hinv.pushes p hmem).values

theorem eq_of_sameSchema : ∀ {left right : List MetadataField}, sameSchema left right = true → left = right
  | [], [], _ => rfl
  | [], _ :: _, h => by simp [sameSchema] at h
  | _ :: _, [], h => by simp [sameSchema] at h
  | ⟨name, kind⟩ :: left, ⟨name', kind'⟩ :: right, h => by
      simp only [sameSchema, List.length_cons, List.zip_cons_cons, List.all_cons, Bool.and_eq_true,
        decide_eq_true_eq, Nat.succ.injEq] at h
      obtain ⟨hlen, ⟨rfl, rfl⟩, hall⟩ := h
      have hsame : sameSchema left right = true := by simp [sameSchema, hlen, hall]
      rw [eq_of_sameSchema hsame]

theorem schema_of_commonSchema {caches : List LoadedCache} {schema : List MetadataField}
    (h : commonSchema caches = .ok schema) : ∀ cache ∈ caches, cache.manifest.fields.metadataSchema = schema := by
  unfold commonSchema at h
  split at h
  · cases h
  · split_ifs at h with hall
    obtain rfl := Except.ok.inj h
    intro cache hcache
    rcases List.mem_cons.mp hcache with rfl | hcache
    · rfl
    · exact eq_of_sameSchema (List.all_eq_true.mp hall cache hcache)

theorem caches_of_load {loadCaches : List Path → CacheResult (List LoadedCache)} {paths : List Path}
    {seed : BitVec 64} {prefetchSize : ℕ} {numWorkers : Positive} {shuffle : Bool} {d : Dataset}
    {s : MutableDatasetState} (h : Dataset.load loadCaches paths seed prefetchSize numWorkers shuffle = .ok (d, s)) :
    loadCaches paths = .ok d.pop.caches ∧ commonSchema d.pop.caches = .ok d.pop.schema ∧ s.active = .full ∧
      s.epochLen.1 = d.totalSamples := by
  unfold Dataset.load at h
  split_ifs at h
  obtain ⟨prefetch, -, h⟩ := bind_eq_ok h
  obtain ⟨caches, hcaches, h⟩ := bind_eq_ok h
  obtain ⟨lookup, -, h⟩ := bind_eq_ok h
  obtain ⟨schema, hschema, h⟩ := bind_eq_ok h
  obtain ⟨⟨offsets, total⟩, -, h⟩ := bind_eq_ok h
  simp only at h
  split_ifs at h
  obtain ⟨epochLen, hlen, h⟩ := bind_eq_ok h
  cases h
  refine ⟨hcaches, hschema, rfl, ?_⟩
  unfold epochLenNew Positive.new at hlen
  split_ifs at hlen
  cases hlen
  rfl

end caches

/-! ### One source -/

theorem WritesOneInList.list {L : StorageLib} {config : WriterConfig} {faults : WriterFaults} {base : Path}
    {source : Source} {fs fs' : FileTree} {result : CacheResult (List CacheWriteRecord)}
    (h : WritesOneInList L config faults base source fs result fs') :
    WritesSourceList L config (fun _ => faults) base [source] fs result fs' := by
  unfold WritesOneInList at h
  rw [ensureUnique_one] at h
  obtain ⟨as, s, hrun, -, hreturned, hfs⟩ := h
  unfold WritesSourceList
  rw [ensureUnique_one]
  exact ⟨as, s, hrun, hreturned, hfs⟩

namespace OneSourceDataset

/-- Every sample fills a shard; what is there is validated and reused. -/
def config : WriterConfig := ⟨⟨1, Nat.one_pos⟩, ⟨1, Nat.one_pos⟩, ⟨1, Nat.one_pos⟩, .none, true, true⟩

def source : Source := ⟨.ok "s", none, TwoShards.samples, none⟩

def start : SourceWriteStart := ⟨0, "s", ["s"], ["tmp", "s"]⟩

/-- The builder of the staging area. -/
def builder : CacheBuilder := { TwoShards.builder with path := ["tmp", "s"] }

theorem finish_eq : builder.finish TwoShards.lib = (TwoShards.dir, .ok TwoShards.manifest) := TwoShards.finish_eq

/-- The disk after the source was written. -/
def fs : FileTree := (staged .empty ["tmp", "s"] TwoShards.dir).rename ["tmp", "s"] ["s"]

theorem fs_cache : fs.sub ["s"] = TwoShards.dir := by
  rw [fs, FileTree.rename, FileTree.sub_graft, staged, FileTree.sub_graft]

theorem sized_fs : fs.Sized := by
  have hparents : (makeParents .empty ["tmp", "s"]).Sized := by
    intro p bytes h
    unfold FileTree.read makeParents at h
    split_ifs at h
    all_goals cases h
  refine FileTree.sized_graft (FileTree.sized_graft
    (FileTree.sized_graft hparents _ TwoShards.sized_dir) _ FileTree.sized_empty) _ ?_
  rw [staged, FileTree.sub_graft]
  exact TwoShards.sized_dir

theorem rowsReadBack : RowsReadBack TwoShards.lib config "s" source.inputs := by
  intro path b₀ b _ _ row _ object text _ htext
  obtain ⟨rfl, rfl⟩ := TwoShards.only_eq_ok htext
  exact TwoShards.only_self _ _

theorem segments : Segments (segmentOf [source]) := by
  have hfirst : segmentOf [source] 0 = some "s" := by decide +kernel
  have hrest : ∀ n, segmentOf [source] (n + 1) = none := fun n => by simp [segmentOf]
  refine ⟨fun i c h heq => ?_, fun i j c hi hj => ?_⟩
  · cases i with
    | zero =>
        rw [hfirst, heq] at h
        exact absurd h (by decide)
    | succ n => simp [hrest] at h
  · rcases i with _ | n <;> rcases j with _ | m <;> simp_all

theorem writes : WritesSourceList TwoShards.lib config (fun _ => .none) [] [source] .empty
    (.ok [⟨.success, "s", "/s"⟩]) fs := by
  obtain ⟨result, fs', hwrites⟩ := exists_writesOneInList TwoShards.lib config .none [] source .empty
  have hplan : planSource TwoShards.lib config [] .empty 0 source = .write start .empty := rfl
  have hbuilder : builderOf config .empty start = .ok _ := rfl
  have hpublishes : ActiveSourceWrite.Publishes TwoShards.lib .none none .empty start _ TwoShards.samples fs :=
    ⟨builder, TwoShards.dir, TwoShards.manifest,
      (CacheBuilder.pushAllOn_none _ _).trans (TwoShards.pushAll_eq hbuilder), rfl,
      (CacheBuilder.finishOn_none _).trans finish_eq, rfl⟩
  obtain ⟨record, rfl, hclosed⟩ := hwrites.of_write hplan rfl (by decide)
  have hfree : FileTree.empty start.tempPath = none := rfl
  rcases ActiveSourceWrite.closed_cases TwoShards.lib config (fun _ => .none) hfree source.stop source.sent with
    ⟨fs₁, b, hb, hpublish, heq⟩ | ⟨message, hnot, -⟩
  · obtain rfl := Except.ok.inj (hb.symm.trans hbuilder)
    rw [heq, Prod.mk.injEq, Publishes.unique hpublish hpublishes] at hclosed
    obtain ⟨rfl, rfl⟩ := hclosed
    exact hwrites.list
  · exact absurd hpublishes (hnot _ _ hbuilder)

theorem finished : FinishedCache TwoShards.lib config "s" source.inputs TwoShards.dir := by
  have hcreate : CacheBuilder.create false true ["tmp", "s"] "s" 1 .none = .ok _ := rfl
  exact finishedCache_of_pushAll hcreate (TwoShards.pushAll_eq hcreate) finish_eq

theorem loads : ∃ d s results, fromCacheSources (fun paths => Dataset.load (fun paths =>
      loadedInOrder TwoShards.lib fs paths true) paths 7 1 ⟨1, Nat.one_pos⟩ false)
    (([⟨.success, "s", "/s"⟩] : List CacheWriteRecord).map cacheWriteResult) = .ok (.success (d, s) results) := by
  have hvalid : config.shardCompression.Valid := trivial
  obtain ⟨cache, hload, hreads⟩ := finished.reads TwoShards.lawful_lib hvalid rowsReadBack fs_cache sized_fs true 0
  have hpaths : successfulCachePaths (([⟨.success, "s", "/s"⟩] : List CacheWriteRecord).map cacheWriteResult) =
      [["s"]] := by decide +kernel
  have hcaches : loadedInOrder TwoShards.lib fs [["s"]] true = .ok [cache] :=
    mapM_eq_ok_iff_getElem.mpr ⟨rfl, fun i hi hi' => by
      obtain rfl : i = 0 := by simpa using hi
      exact hload⟩
  have hcount : cache.sampleCount = 2 := hreads.count
  have hdataset : ∃ ds, Dataset.load (fun paths => loadedInOrder TwoShards.lib fs paths true) [["s"]] 7 1
      ⟨1, Nat.one_pos⟩ false = .ok ds := by
    have hlookup : cacheLookup [cache] = .ok _ := rfl
    have hoffsets : collectCacheOffsets [cache] = .ok ([0], 2) := by
      unfold collectCacheOffsets
      rw [List.map_singleton, hcount]
      rfl
    unfold Dataset.load
    rw [if_neg (List.cons_ne_nil _ _)]
    simp only [hcaches, hlookup, hoffsets, commonSchema, bind, Except.bind]
    exact ⟨_, rfl⟩
  obtain ⟨⟨d, s⟩, hds⟩ := hdataset
  refine ⟨d, s, ([⟨.success, "s", "/s"⟩] : List CacheWriteRecord).map cacheWriteResult, ?_⟩
  unfold fromCacheSources
  rw [hpaths]
  simp only [hds, Except.map]

end OneSourceDataset

end DatasetRt
