import DatasetRt.MigrationSafety
import DatasetRt.ManifestRoundTrip
import DatasetRt.ShardPaths
import DatasetRt.CacheSourcesDataset

/-! # Datasets after a migration

The caches of a dataset are loaded again after a migration, at other positions of the list of paths and possibly after
a run that stopped half way.  A replaced manifest names the same files (`SameStorage`), so every cache loads as before
at every position, with its own identity if its manifest was replaced or had one already, and its samples are the same
(`SameSamples`).  After a run that succeeded the order of the paths no longer counts: a sample is read under the same
identity from the same caches in any order (`migrated_dataset_same`). -/

namespace DatasetRt.Migration

variable {L : StorageLib} {resolve : Path → Path} {pid : ℕ}

/-! ### Manifests of the same files -/

/-- All that loading and reading take from a manifest but its identity.  The ratio of a legacy policy is only kept. -/
structure SameStorage (m m' : Manifest) : Prop where
  wholeRecord : m'.wholeRecord = m.wholeRecord
  schema : m'.fields.metadataSchema = m.fields.metadataSchema
  sampleCount : m'.fields.sampleCount = m.fields.sampleCount
  metadataSha256 : m'.fields.metadataSha256 = m.fields.metadataSha256
  indexSha256 : m'.fields.indexSha256 = m.fields.indexSha256
  shards : ∃ r, m'.fields.shards = m.fields.shards.map (ShardManifest.reread r)

theorem SameStorage.refl (m : Manifest) : SameStorage m m := by
  refine ⟨rfl, rfl, rfl, rfl, rfl, id, ?_⟩
  rw [List.map_congr_left fun shard _ => shard.reread_id, List.map_id']

theorem sameStorage_upgraded (m : Manifest) (id : ℕ) (r : Float → Float) :
    SameStorage m ((m.intoV3 id).reread r) := by
  cases m with
  | v2 fields => exact ⟨rfl, rfl, rfl, rfl, rfl, r, rfl⟩
  | v3 id' fields => exact ⟨rfl, rfl, rfl, rfl, rfl, r, rfl⟩
  | v4 id' fields => exact ⟨rfl, rfl, rfl, rfl, rfl, r, rfl⟩

theorem decompressPayload_reread (C : CodecLib) (input : Bytes) (c : ShardCompression) (r : Float → Float)
    (maxLen : ℕ) : decompressPayload C input (c.reread r) maxLen = decompressPayload C input c maxLen := by
  cases c with
  | legacy algo ratio => cases algo <;> rfl
  | _ => rfl

theorem compressed_reread (c : ShardCompression) (r : Float → Float) : (c.reread r).compressed = c.compressed := by
  cases c with
  | legacy algo ratio => cases algo <;> rfl
  | _ => rfl

theorem SameStorage.decode {m m' : Manifest} (h : SameStorage m m') (record : Bytes) (shard : ShardManifest)
    (r : Float → Float) :
    decodeStoredRecord L record m' (shard.reread r) = decodeStoredRecord L record m shard := by
  simp only [decodeStoredRecord, decodedRecord, ShardManifest.reread, h.wholeRecord, h.schema, decompressPayload_reread,
    compressed_reread]

/-! ### Loading from another tree -/

/-- The files of a cache beside its manifest. -/
structure SameFiles (path : Path) (m : Manifest) (fs fs' : FileTree) : Prop where
  index : fs (path.join "index.bin") = fs' (path.join "index.bin")
  metadata : fs (path.join "metadata.arrow") = fs' (path.join "metadata.arrow")
  shards : ∀ shard ∈ m.fields.shards, fs (shardPath path shard) = fs' (shardPath path shard)

/-- The cache with another manifest. -/
def withManifest (cache : LoadedCache) (m : Manifest) (id : ℕ) : LoadedCache :=
  { cache with cacheId := id, manifest := m }

section load

variable {fs fs' : FileTree} {path : Path} {validate : Bool} {m m' : Manifest}

theorem verifyChecksums_same (h : SameStorage m m') (hfiles : SameFiles path m fs fs') :
    verifyChecksums L fs' path m' validate = verifyChecksums L fs path m validate := by
  simp only [verifyChecksums, verifyFileChecksum, hashFile, h.metadataSha256, h.indexSha256,
    openFile_congr hfiles.index, openFile_congr hfiles.metadata]

theorem verifyShards_same (h : SameStorage m m') (hfiles : SameFiles path m fs fs')
    (hok : verifyShards L fs path m validate = .ok ()) : verifyShards L fs' path m' validate = .ok () := by
  obtain ⟨r, hshards⟩ := h.shards
  have hall := forM_eq_ok_iff.mp hok
  refine forM_eq_ok_iff.mpr ?_
  rw [hshards, List.forall_mem_map]
  intro shard hshard
  have hsame : verifyShard L fs' path validate (shard.reread r) = verifyShard L fs' path validate shard := rfl
  rw [hsame, ← verifyShard_congr (hfiles.shards shard hshard)]
  exact hall shard hshard

theorem openIndex_same (hfiles : SameFiles path m fs fs') :
    MappedIndex.openFile fs' (path.join "index.bin") = MappedIndex.openFile fs (path.join "index.bin") := by
  unfold MappedIndex.openFile FileTree.read
  rw [hfiles.index]

theorem loadRows_same (h : SameStorage m m') (hfiles : SameFiles path m fs fs') :
    loadRows L fs' path m' validate = loadRows L fs path m validate := by
  simp only [loadRows, readMetadataFile, h.schema, openFile_congr hfiles.metadata, pathExists_congr hfiles.metadata]

theorem validateLoadedShapes_same (h : SameStorage m m') (rows : Option (List Row)) (index : MappedIndex) :
    validateLoadedShapes m' rows index = validateLoadedShapes m rows index := by
  obtain ⟨r, hshards⟩ := h.shards
  have hentry : checkEntry m' = checkEntry m := by
    funext entry
    simp only [checkEntry, hshards, List.getElem?_map, Option.isNone_map]
  simp only [validateLoadedShapes, h.sampleCount, hentry]

/-- **Loading with another manifest** of the same files. -/
theorem loadCache_same {position position' id : ℕ} {cache : LoadedCache}
    (hloaded : LoadedFrom L fs path validate position cache) (h : SameStorage cache.manifest m')
    (hfiles : SameFiles path cache.manifest fs fs') (hread : readManifest L fs' path = .ok m')
    (hid : m'.resolveCacheId position' = .ok id) :
    loadCache L fs' path validate position' = .ok (withManifest cache m' id) := by
  have hchecksums := (verifyChecksums_same h hfiles).trans hloaded.checksums
  have hshards := verifyShards_same h hfiles hloaded.shards
  have hindex := (openIndex_same hfiles).trans hloaded.index
  have hrows := (loadRows_same h hfiles).trans hloaded.rows
  have hshapes := (validateLoadedShapes_same h cache.metadataRows cache.index).trans hloaded.shapes
  simp only [loadCache, bind, Except.bind, hread, hid, hchecksums, hshards, hindex, hrows, hshapes]
  rw [withManifest, hloaded.path, hloaded.embedded]

end load

/-! ### Reading from another tree -/

/-- What is loaded again has the samples of what was loaded. -/
structure SameSamples (L : StorageLib) (fs fs' : FileTree) (cache cache' : LoadedCache) : Prop where
  count : cache'.sampleCount = cache.sampleCount
  schema : cache'.manifest.fields.metadataSchema = cache.manifest.fields.metadataSchema
  read : ∀ i readers readers', readers.Fresh fs → readers'.Fresh fs' →
    (cache'.readSampleWithCache L fs' i readers').2 = (cache.readSampleWithCache L fs i readers).2

theorem locateRecord_same {cache : LoadedCache} {m' : Manifest} {r : Float → Float} {id : ℕ}
    (hshards : m'.fields.shards = cache.manifest.fields.shards.map (ShardManifest.reread r)) (i : ℕ) :
    (withManifest cache m' id).locateRecord i =
      (cache.locateRecord i).map fun located => (located.1, located.2.1.reread r, located.2.2) := by
  simp only [LoadedCache.locateRecord, withManifest, hshards, List.getElem?_map, bind, Except.bind]
  cases cache.index.get i with
  | error error => rfl
  | ok entry =>
      simp only
      cases cache.manifest.fields.shards[entry.shardId]? with
      | none => rfl
      | some shard =>
          simp only [Option.map_some, okOr]
          cases checkedAdd entry.offset entry.byteLen <;> rfl

theorem sameSamples_withManifest {fs fs' : FileTree} {cache : LoadedCache} {m' : Manifest} (id : ℕ)
    (h : SameStorage cache.manifest m') (hfiles : SameFiles cache.path cache.manifest fs fs') :
    SameSamples L fs fs' cache (withManifest cache m' id) := by
  refine ⟨rfl, h.schema, fun i readers readers' hfresh hfresh' => ?_⟩
  obtain ⟨r, hshards⟩ := h.shards
  have hrecord : ∀ entry shard stop file,
      (withManifest cache m' id).readRecord L fs' i entry (shard.reread r) stop file =
        cache.readRecord L fs i entry shard stop file := by
    intro entry shard stop file
    have hdecode := fun record => h.decode (L := L) record shard r
    simp only [LoadedCache.readRecord, withManifest, hdecode, LoadedCache.validateEmbedded,
      LoadedCache.withMetadataRows, readMetadataFile, h.schema, openFile_congr hfiles.metadata]
    rfl
  unfold LoadedCache.readSampleWithCache
  rw [locateRecord_same hshards]
  cases hlocate : cache.locateRecord i with
  | error error => rfl
  | ok located =>
      obtain ⟨entry, shard, stop⟩ := located
      have hmem : shard ∈ cache.manifest.fields.shards := by
        obtain ⟨entry', -, hlocate⟩ := bind_eq_ok hlocate
        obtain ⟨shard', hshard, hlocate⟩ := bind_eq_ok hlocate
        obtain ⟨stop', -, hlocate⟩ := bind_eq_ok hlocate
        cases hlocate
        exact List.mem_of_getElem? (okOr_eq_ok.mp hshard)
      -- both threads get the file that the name stands for
      have hopen := (ShardReaderCache.readerFor_of_fresh hfresh (shardPath cache.path shard)).1
      have hopen' := (ShardReaderCache.readerFor_of_fresh hfresh' (shardPath cache.path shard)).1
      rw [← openFile_congr (hfiles.shards shard hmem), ← hopen] at hopen'
      have hname : shardPath (withManifest cache m' id).path (shard.reread r) = shardPath cache.path shard := rfl
      simp only [Except.map, hname]
      rcases hfor : readers.readerFor fs (shardPath cache.path shard) with ⟨next, result⟩
      rcases hfor' : readers'.readerFor fs' (shardPath cache.path shard) with ⟨next', result'⟩
      rw [hfor, hfor'] at hopen'
      obtain rfl : result' = result := hopen'
      cases result' with
      | error error => rfl
      | ok file => exact hrecord entry shard stop file

/-! ### The disk after a run -/

/-- The caches of a list of paths whose manifests are what these paths name, and none of whose shards is a manifest. -/
structure Reopenable (L : StorageLib) (resolve : Path → Path) (tree : FileTree) (paths : List Path) (validate : Bool)
    (caches : List LoadedCache) : Prop where
  inOrder : loadedInOrder L tree paths validate = .ok caches
  loaded : ∀ cache ∈ caches, Loaded L resolve tree cache
  canonical : ∀ cache ∈ caches, manifestPath resolve cache = cache.path.join "manifest.json"
  apart : ∀ cache ∈ caches, ∀ shard ∈ cache.manifest.fields.shards, ∀ other ∈ caches,
    shardPath cache.path shard ≠ other.path.join "manifest.json"

/-- The identity under which cache `i` is loaded at a position when the first `n` manifests are replaced. -/
def keptId (n i : ℕ) (cache : LoadedCache) (position : ℕ) : ℕ :=
  if i < n ∨ isV2 cache.manifest = false then cache.cacheId else position

/-- A tree in which the manifests of the first `n` caches are replaced. -/
structure Reached (L : StorageLib) (caches : List LoadedCache) (tree tree' : FileTree) (n : ℕ) : Prop where
  frame : ∀ p, (∀ other ∈ caches, p ≠ other.path.join "manifest.json") → tree p = tree' p
  manifest : ∀ i cache, caches[i]? = some cache → ∃ m', readManifest L tree' cache.path = .ok m' ∧
    SameStorage cache.manifest m' ∧ ∀ position, m'.resolveCacheId position = .ok (keptId n i cache position)

theorem applyAll_of_ne {p : Path} : ∀ (jobs : List Job) (tree : FileTree), (∀ job ∈ jobs, p ≠ job.path resolve) →
    applyAll L resolve jobs tree p = tree p
  | [], _, _ => rfl
  | job :: jobs, tree, h => by
      obtain ⟨hjob, hjobs⟩ := List.forall_mem_cons.mp h
      rw [applyAll, List.foldl_cons]
      refine (applyAll_of_ne jobs _ hjobs).trans ?_
      unfold Job.apply
      split_ifs
      · exact if_neg hjob
      · rfl

theorem Ready.take {tree : FileTree} {jobs : List Job} (h : Ready L resolve tree jobs) (n : ℕ) :
    Ready L resolve tree (jobs.take n) := by
  refine ⟨fun job hjob => h.holds job (List.mem_of_mem_take hjob), ?_⟩
  rw [List.map_take]
  exact h.nodup.sublist (List.take_sublist _ _)

/-- What the file of job `i` holds after `n` replacements. -/
theorem holds_after (hL : L.json.Lawful) {jobs : List Job} {tree : FileTree} (hready : Ready L resolve tree jobs)
    (hids : ∀ job ∈ jobs, job.cache.cacheId < wordSize) (n : ℕ) {i : ℕ} {job : Job} (hi : jobs[i]? = some job) :
    (if i < n then job.upgraded L else job).Holds L resolve (applyAll L resolve (jobs.take n) tree) := by
  split_ifs with hlt
  · have hmem : job ∈ jobs.take n := List.mem_of_getElem? (i := i) (by rw [List.getElem?_take_of_lt hlt, hi])
    exact holds_upgraded_applyAll hL (hready.take n) (fun job hjob => hids job (List.mem_of_mem_take hjob)) job hmem
  · refine holds_applyAll _ (fun other hother heq => ?_) (hready.holds job (List.mem_of_getElem? hi))
    obtain ⟨k, hk⟩ := List.getElem?_of_mem hother
    have hkn : k < n := by
      have := (List.getElem?_eq_some_iff.mp hk).1
      rw [List.length_take] at this
      omega
    rw [List.getElem?_take_of_lt hkn] at hk
    have hsame : (jobs.map (Job.path resolve))[i]? = (jobs.map (Job.path resolve))[k]? := by
      rw [List.getElem?_map, List.getElem?_map, hi, hk]
      exact congrArg some heq
    have hlt' : i < (jobs.map (Job.path resolve)).length := by
      rw [List.length_map]
      exact (List.getElem?_eq_some_iff.mp hi).1
    have := (List.getElem?_inj hlt' hready.nodup).mp hsame
    omega

theorem sameStorage_after {job : Job} (hcurrent : job.current = job.cache.manifest) (n i : ℕ) :
    SameStorage job.cache.manifest (if i < n then job.upgraded L else job).current := by
  split_ifs
  · unfold Job.upgraded
    split_ifs
    · rw [hcurrent]
      exact sameStorage_upgraded _ _ _
    · rw [hcurrent]
      exact .refl _
  · rw [hcurrent]
    exact .refl _

theorem resolves_after {tree : FileTree} {job : Job} (h : Loaded L resolve tree job.cache)
    (hcurrent : job.current = job.cache.manifest) (n i position : ℕ) :
    (if i < n then job.upgraded L else job).current.resolveCacheId position =
      .ok (keptId n i job.cache position) := by
  unfold keptId
  by_cases hlt : i < n
  · rw [if_pos hlt, if_pos (.inl hlt)]
    exact resolve_upgraded h hcurrent position
  · rw [if_neg hlt, hcurrent]
    obtain ⟨original, hid⟩ := h.cacheId
    cases hm : job.cache.manifest with
    | v2 fields => simp [hlt, isV2, Manifest.resolveCacheId]
    | v3 id fields =>
        rw [hm] at hid
        rw [if_pos (.inr (by rfl))]
        exact hid
    | v4 id fields =>
        rw [hm] at hid
        rw [if_pos (.inr (by rfl))]
        exact hid

theorem readManifest_of_holds {tree : FileTree} {job : Job} (h : job.Holds L resolve tree)
    (hcanonical : manifestPath resolve job.cache = job.cache.path.join "manifest.json") :
    readManifest L tree job.cache.path = .ok job.current := by
  have hread : tree.read (job.cache.path.join "manifest.json") = some job.bytes := hcanonical ▸ h.read
  have hexists : tree.pathExists (job.cache.path.join "manifest.json") = true := by
    unfold FileTree.read at hread
    unfold FileTree.pathExists
    split at hread
    · rename_i heq
      rw [heq]
      rfl
    · cases hread
  have hopen : openFile tree (job.cache.path.join "manifest.json") = .ok job.bytes := okOr_eq_ok.mpr hread
  unfold readManifest
  simp only [hexists, if_true, hopen, bind, Except.bind]
  exact h.parse

section runs

variable {paths : List Path} {validate : Bool} {caches : List LoadedCache} {st : DiskState}

theorem reached_of_jobs (hL : L.json.Lawful) (h : Reopenable L resolve st.1.tree paths validate caches)
    {jobs : List Job} (hjobs : jobs.map Job.cache = caches) (horiginal : Original jobs)
    (hready : Ready L resolve st.1.tree jobs) (n : ℕ) :
    Reached L caches st.1.tree (applyAll L resolve (jobs.take n) st.1.tree) n := by
  subst hjobs
  have hmem : ∀ {job}, job ∈ jobs → job.cache ∈ jobs.map Job.cache := fun hjob => List.mem_map_of_mem hjob
  refine ⟨fun p hp => ?_, fun i cache hi => ?_⟩
  · refine (applyAll_of_ne _ _ fun job hjob => ?_).symm
    have hjob := hmem (List.mem_of_mem_take hjob)
    rw [Job.path, h.canonical _ hjob]
    exact hp _ hjob
  · rw [List.getElem?_map, Option.map_eq_some_iff] at hi
    obtain ⟨job, hi, rfl⟩ := hi
    have hjob := hmem (List.mem_of_getElem? hi)
    have hcurrent := horiginal job (List.mem_of_getElem? hi)
    have hholds := holds_after hL hready (fun job hjob => (h.loaded _ (hmem hjob)).word) n hi
    have hcache : (if i < n then job.upgraded L else job).cache = job.cache := by
      split_ifs
      · exact job.upgraded_cache
      · rfl
    have hread := readManifest_of_holds hholds (hcache.symm ▸ h.canonical _ hjob)
    rw [hcache] at hread
    exact ⟨_, hread, sameStorage_after hcurrent n i, resolves_after (h.loaded _ hjob) hcurrent n i⟩

/-- A tree that no run has touched. -/
theorem reached_zero (h : Reopenable L resolve st.1.tree paths validate caches) :
    Reached L caches st.1.tree st.1.tree 0 := by
  obtain ⟨jobs, rfl, horiginal, hholds⟩ := exists_jobs h.loaded
  refine ⟨fun _ _ => rfl, fun i cache hi => ?_⟩
  rw [List.getElem?_map, Option.map_eq_some_iff] at hi
  obtain ⟨job, hi, rfl⟩ := hi
  have hjob := List.mem_of_getElem? hi
  have hcache : job.cache ∈ jobs.map Job.cache := List.mem_map_of_mem hjob
  have hcurrent := horiginal job hjob
  have hstorage := sameStorage_after (L := L) hcurrent 0 i
  have hresolves := resolves_after (h.loaded _ hcache) hcurrent 0 i
  exact ⟨_, readManifest_of_holds (hholds job hjob) (h.canonical _ hcache), hstorage, hresolves⟩

theorem Ended.eq_length {before planned : List UpdateEntry} {n : ℕ} {result : Except UpdateError (List UpdateEntry)}
    (h : Ended before planned n result) (hok : result.isOk = true) : n = planned.length := by
  cases h with
  | completed => rfl
  | failed _ => cases hok
  | unsynced _ _ => cases hok

/-- What a run reports. -/
def reported (outcome : Except UpdateError (List UpdateEntry)) : List UpdateEntry :=
  match outcome with
  | .ok entries => entries
  | .error error => error.entries

theorem Ended.length_reported {planned : List UpdateEntry} {n : ℕ} {result : Except UpdateError (List UpdateEntry)}
    (h : Ended [] planned n result) : (reported result).length = n := by
  cases h with
  | completed => rfl
  | failed hn => simpa [reported] using (List.getElem?_eq_some_iff.mp hn).1.le
  | unsynced hn _ => simpa [reported] using (List.getElem?_eq_some_iff.mp hn).1.le

variable (pid) in
/-- **Every run replaces the manifests of a prefix**, those that it reports, and all if it succeeds. -/
theorem reached_of_run (hL : L.json.Lawful) (h : Reopenable L resolve st.1.tree paths validate caches) (version : ℕ)
    (faults : Faults) :
    ∃ n ≤ caches.length, (reported (updateWithHook L resolve pid caches version faults st).2).length = n ∧
      ((updateWithHook L resolve pid caches version faults st).2.isOk = true → n = caches.length) ∧
      Reached L caches st.1.tree (updateWithHook L resolve pid caches version faults st).1.1.tree n := by
  unfold updateWithHook
  by_cases hversion : version = 3
  · rw [if_neg (not_not.mpr hversion)]
    cases hpre : preflight L resolve faults st.1.tree 0 [] [] caches with
    | error error =>
        refine ⟨0, Nat.zero_le _, ?_, fun hok => ?_, reached_zero h⟩
        · simp only [reported, preflight_error_entries hpre, List.length_nil]
        · cases hok
    | ok targets =>
        obtain ⟨jobs, hjobs, rfl, horiginal, hplanned⟩ := planned_of_preflight h.loaded hpre
        have hready := hplanned.ready fun job hjob =>
          (h.loaded _ (hjobs ▸ List.mem_map_of_mem hjob)).replaceable (horiginal job hjob)
        obtain ⟨n, hn, htree, hended⟩ := updateTargets_spec pid faults jobs 0 st [] hready
        have hlength : jobs.length = caches.length := by rw [← hjobs, List.length_map]
        refine ⟨n, hlength ▸ hn, hended.length_reported, fun hok => ?_, ?_⟩
        · rw [hended.eq_length hok, List.length_map, hlength]
        · simp only
          rw [htree]
          exact reached_of_jobs hL h hjobs horiginal hready n
  · rw [if_pos hversion]
    refine ⟨0, Nat.zero_le _, rfl, fun hok => ?_, reached_zero h⟩
    cases hok

/-! ### Loading again -/

theorem Reopenable.length_eq (h : Reopenable L resolve st.1.tree paths validate caches) :
    paths.length = caches.length := by
  have := (mapM_eq_ok_iff_getElem.mp h.inOrder).1
  rwa [List.length_range] at this

theorem Reopenable.loadedFrom (h : Reopenable L resolve st.1.tree paths validate caches) {i : ℕ} {path : Path}
    {cache : LoadedCache} (hpath : paths[i]? = some path) (hcache : caches[i]? = some cache) :
    LoadedFrom L st.1.tree path validate i cache := by
  obtain ⟨hi, rfl⟩ := List.getElem?_eq_some_iff.mp hcache
  have hlength := h.length_eq
  have hone := (mapM_eq_ok_iff_getElem.mp h.inOrder).2 i (by rw [List.length_range]; omega) hi
  rw [List.getElem_range, loadAt, List.getD_eq_getElem?_getD, hpath, Option.getD_some] at hone
  exact loadedFrom_of_loadCache hone

theorem join_ne_manifest {name : String} (hplain : Path.Plain name) (hne : name ≠ "manifest.json") (path other : Path) :
    path.join name ≠ other.join "manifest.json" := by
  have hmanifest : Path.Plain "manifest.json" := by decide
  rw [hplain.join, hmanifest.join]
  intro heq
  have hlast := congrArg List.getLast? heq
  rw [List.getLast?_concat, List.getLast?_concat, Option.some.injEq] at hlast
  exact hne hlast

/-- **Every cache loads again** at every position, with the same samples. -/
theorem Reached.reload {tree' : FileTree} {n : ℕ} (hreached : Reached L caches st.1.tree tree' n)
    (h : Reopenable L resolve st.1.tree paths validate caches) {i : ℕ} {path : Path} {cache : LoadedCache}
    (hpath : paths[i]? = some path) (hcache : caches[i]? = some cache) :
    ∃ m', ∀ position,
      loadCache L tree' path validate position = .ok (withManifest cache m' (keptId n i cache position)) ∧
      SameSamples L st.1.tree tree' cache (withManifest cache m' (keptId n i cache position)) := by
  have hloaded := h.loadedFrom hpath hcache
  obtain ⟨m', hread, hsame, hresolve⟩ := hreached.manifest i cache hcache
  have hmem := List.mem_of_getElem? hcache
  have hfiles : SameFiles cache.path cache.manifest st.1.tree tree' := by
    refine ⟨hreached.frame _ fun other _ => ?_, hreached.frame _ fun other _ => ?_, fun shard hshard =>
      hreached.frame _ (h.apart cache hmem shard hshard)⟩
    · exact join_ne_manifest (by decide) (by decide) _ _
    · exact join_ne_manifest (by decide) (by decide) _ _
  refine ⟨m', fun position => ⟨?_, sameSamples_withManifest _ hsame hfiles⟩⟩
  rw [hloaded.path] at hfiles hread
  exact loadCache_same hloaded hsame hfiles hread (hresolve position)

end runs

/-! ### The dataset -/

theorem sameSchema_self : ∀ schema : List MetadataField, sameSchema schema schema = true
  | [] => rfl
  | field :: rest => by
      have hrest := sameSchema_self rest
      simp only [sameSchema, decide_true, Bool.true_and] at hrest
      simp only [sameSchema, List.zip_cons_cons, List.all_cons, decide_true, Bool.true_and, hrest]

theorem commonSchema_of_forall {caches : List LoadedCache} {schema : List MetadataField} (hne : caches ≠ [])
    (h : ∀ cache ∈ caches, cache.manifest.fields.metadataSchema = schema) : commonSchema caches = .ok schema := by
  cases caches with
  | nil => exact absurd rfl hne
  | cons first rest =>
      obtain ⟨hfirst, hrest⟩ := List.forall_mem_cons.mp h
      have hall : (rest.all fun cache => sameSchema cache.manifest.fields.metadataSchema
          first.manifest.fields.metadataSchema) = true := by
        rw [List.all_eq_true]
        intro cache hcache
        rw [hrest cache hcache, hfirst]
        exact sameSchema_self schema
      rw [commonSchema, if_pos hall, hfirst]

section dataset

variable {fs fs' : FileTree}

theorem loadFrom_same {cache cache' : LoadedCache} (hid : cache'.cacheId = cache.cacheId)
    (h : SameSamples L fs fs' cache cache') (i : ℕ) {readers readers' : ShardReaderCache}
    (hfresh : readers.Fresh fs) (hfresh' : readers'.Fresh fs') :
    (loadFrom L fs' cache' i readers').2 = (loadFrom L fs cache i readers).2 := by
  have hread := h.read i readers readers' hfresh hfresh'
  unfold loadFrom
  rcases hone : cache.readSampleWithCache L fs i readers with ⟨next, result⟩
  rcases hother : cache'.readSampleWithCache L fs' i readers' with ⟨next', result'⟩
  rw [hone, hother] at hread
  obtain rfl : result' = result := hread
  cases result' with
  | error error => rfl
  | ok sample => simp only [hid]

/-- Caches and, in any order, what was loaded for them again. -/
def SameCaches (L : StorageLib) (fs fs' : FileTree) (caches again : List LoadedCache) : Prop :=
  ∃ caches', again.Perm caches' ∧ List.Forall₂
    (fun cache cache' => cache'.cacheId = cache.cacheId ∧ SameSamples L fs fs' cache cache') caches caches'

namespace SameCaches

variable {caches again : List LoadedCache}

/-- What is the same for every cache is the same for all, but for the order. -/
theorem map_perm (h : SameCaches L fs fs' caches again) {α : Type} {f : LoadedCache → α}
    (hf : ∀ cache cache', cache'.cacheId = cache.cacheId → SameSamples L fs fs' cache cache' → f cache' = f cache) :
    (again.map f).Perm (caches.map f) := by
  obtain ⟨caches', hperm, hsame⟩ := h
  have heq : caches.map f = caches'.map f := by
    rw [← List.forall₂_eq_eq_eq, List.forall₂_map_left_iff, List.forall₂_map_right_iff]
    exact hsame.imp fun cache cache' hone => (hf cache cache' hone.1 hone.2).symm
  rw [heq]
  exact hperm.map f

theorem ids (h : SameCaches L fs fs' caches again) :
    (again.map LoadedCache.cacheId).Perm (caches.map LoadedCache.cacheId) := h.map_perm fun _ _ hid _ => hid

theorem forward (h : SameCaches L fs fs' caches again) {cache : LoadedCache} (hcache : cache ∈ caches) :
    ∃ cache' ∈ again, cache'.cacheId = cache.cacheId ∧ SameSamples L fs fs' cache cache' := by
  obtain ⟨caches', hperm, hsame⟩ := h
  obtain ⟨i, hi, rfl⟩ := List.getElem_of_mem hcache
  obtain ⟨hlength, hget⟩ := List.forall₂_iff_get.mp hsame
  exact ⟨caches'.get ⟨i, hlength ▸ hi⟩, hperm.mem_iff.mpr (List.getElem_mem _), hget i hi (hlength ▸ hi)⟩

theorem backward (h : SameCaches L fs fs' caches again) {cache' : LoadedCache} (hcache : cache' ∈ again) :
    ∃ cache ∈ caches, cache.cacheId = cache'.cacheId :=
  List.mem_map.mp (h.ids.mem_iff.mp (List.mem_map_of_mem hcache))

end SameCaches

theorem nodup_ids_of_valid {pop : Population} {total : ℕ} (h : pop.Valid total) :
    (pop.caches.map LoadedCache.cacheId).Nodup := by
  refine List.nodup_iff_injective_getElem.mpr fun i j heq => Fin.ext ?_
  have hi : i.1 < pop.caches.length := by simpa using i.2
  have hj : j.1 < pop.caches.length := by simpa using j.2
  have heq : pop.caches[i.1].cacheId = pop.caches[j.1].cacheId := by simpa using heq
  have hlookup := h.lookup_of_getElem? (List.getElem?_eq_getElem hi)
  rw [heq, h.lookup_of_getElem? (List.getElem?_eq_getElem hj)] at hlookup
  exact (Option.some.inj hlookup).symm

/-- **Reads by identity** do not depend on the order of the caches. -/
theorem loadSampleByIdentity_same {pop pop' : Population} {total total' : ℕ} (h : pop.Valid total)
    (h' : pop'.Valid total') (hsame : SameCaches L fs fs' pop.caches pop'.caches) (cacheId sampleId : ℕ)
    {readers readers' : ShardReaderCache} (hfresh : readers.Fresh fs) (hfresh' : readers'.Fresh fs') :
    (loadSampleByIdentity L fs' pop' cacheId sampleId readers').2 =
      (loadSampleByIdentity L fs pop cacheId sampleId readers).2 := by
  cases hlookup : pop.cacheLookup.lookup cacheId with
  | none =>
      have hnone : pop'.cacheLookup.lookup cacheId = none := by
        by_contra hsome
        obtain ⟨i', hi'⟩ := Option.ne_none_iff_exists'.mp hsome
        obtain ⟨cache', hcache', rfl⟩ := h'.lookup_eq hi'
        obtain ⟨cache, hcache, hid⟩ := hsame.backward (List.mem_of_getElem? hcache')
        obtain ⟨i, hi⟩ := List.getElem?_of_mem hcache
        have := h.lookup_of_getElem? hi
        rw [hid, hlookup] at this
        cases this
      rw [loadSampleByIdentity, loadSampleByIdentity, hlookup, hnone]
  | some i =>
      obtain ⟨cache, hcache, rfl⟩ := h.lookup_eq hlookup
      obtain ⟨cache', hmem', hid, hsamples⟩ := hsame.forward (List.mem_of_getElem? hcache)
      obtain ⟨i', hcache'⟩ := List.getElem?_of_mem hmem'
      have hlookup' := h'.lookup_of_getElem? hcache'
      rw [hid] at hlookup'
      simp only [loadSampleByIdentity, hlookup, hlookup', hcache, hcache', hsamples.count]
      split_ifs
      · rfl
      · exact loadFrom_same hid hsamples sampleId hfresh hfresh'

/-- A dataset can be made of other caches with as many samples and the same schema. -/
theorem load_of_caches {loadCaches : List Path → CacheResult (List LoadedCache)} {paths order : List Path}
    {seed : BitVec 64} {prefetchSize : ℕ} {numWorkers : Positive} {shuffle : Bool} {d : Dataset}
    {s : MutableDatasetState} (h : Dataset.load loadCaches paths seed prefetchSize numWorkers shuffle = .ok (d, s))
    (horder : order ≠ []) (loadCaches' : List Path → CacheResult (List LoadedCache)) {caches : List LoadedCache}
    (hcaches : loadCaches' order = .ok caches) (hne : caches ≠ [])
    (hids : (caches.map LoadedCache.cacheId).Nodup)
    (htotal : (caches.map LoadedCache.sampleCount).sum = d.totalSamples)
    (hschema : ∀ cache ∈ caches, cache.manifest.fields.metadataSchema = d.pop.schema) :
    ∃ d' s', Dataset.load loadCaches' order seed prefetchSize numWorkers shuffle = .ok (d', s') ∧
      d'.pop.caches = caches ∧ d'.totalSamples = d.totalSamples ∧ d'.pop.schema = d.pop.schema := by
  have hlt : (caches.map LoadedCache.sampleCount).sum < wordSize := by
    rw [htotal]
    exact (Dataset.valid_of_load h).1.pop.total_lt
  unfold Dataset.load at h
  split_ifs at h
  obtain ⟨prefetch, hprefetch, h⟩ := bind_eq_ok h
  obtain ⟨caches', -, h⟩ := bind_eq_ok h
  obtain ⟨lookup', -, h⟩ := bind_eq_ok h
  obtain ⟨schema', -, h⟩ := bind_eq_ok h
  obtain ⟨⟨offsets', total⟩, -, h⟩ := bind_eq_ok h
  simp only at h
  split_ifs at h with hzero
  obtain ⟨epochLen, hepoch, h⟩ := bind_eq_ok h
  cases h
  simp only at htotal hschema
  obtain ⟨lookup, hlookup⟩ : ∃ lookup, cacheLookup caches = .ok lookup :=
    cacheLookupFrom_of_nodup hids fun cache _ => AList.lookup_empty _
  have hlt' : 0 + (caches.map LoadedCache.sampleCount).sum < wordSize := by
    rw [Nat.zero_add]
    exact hlt
  obtain ⟨⟨offsets, total'⟩, hoffsets⟩ := Segments.exists_offsets hlt'
  obtain rfl : total' = total := by
    rw [Segments.total_offsets hoffsets, Nat.zero_add, htotal]
  have hcollect : collectCacheOffsets caches = .ok (offsets, total') := okOr_eq_ok.mpr hoffsets
  have hcommon := commonSchema_of_forall hne hschema
  refine ⟨⟨⟨caches, offsets, lookup, schema'⟩, total', seed, prefetch, numWorkers, shuffle⟩,
    ⟨.full, none, epochLen, 0, 0⟩, ?_, rfl, rfl, rfl⟩
  unfold Dataset.load
  rw [if_neg horder]
  simp only [hprefetch, hcaches, hlookup, hcommon, hcollect, bind, Except.bind, if_neg hzero, hepoch]

end dataset

section main

variable {paths : List Path} {validate : Bool} {caches : List LoadedCache} {st : DiskState}

/-- When all manifests are replaced, the paths in another order have the same caches. -/
theorem Reached.reload_all {tree' : FileTree} (hreached : Reached L caches st.1.tree tree' caches.length)
    (h : Reopenable L resolve st.1.tree paths validate caches) (hne : caches ≠ []) {order : List Path}
    (hperm : order.Perm paths) :
    ∃ again, loadedInOrder L tree' order validate = .ok again ∧ SameCaches L st.1.tree tree' caches again := by
  have hlength := h.length_eq
  have hone : ∀ (i : ℕ) (hi : i < paths.length), ∃ cache',
      (∀ position, loadCache L tree' paths[i] validate position = .ok cache') ∧
        cache'.cacheId = (caches.get ⟨i, hlength ▸ hi⟩).cacheId ∧
        SameSamples L st.1.tree tree' (caches.get ⟨i, hlength ▸ hi⟩) cache' := by
    intro i hi
    have hi' : i < caches.length := hlength ▸ hi
    obtain ⟨m', hm'⟩ := hreached.reload h (List.getElem?_eq_getElem hi) (List.getElem?_eq_getElem hi')
    have hkept : ∀ position, keptId caches.length i caches[i] position = caches[i].cacheId := fun position =>
      if_pos (.inl hi')
    refine ⟨withManifest caches[i] m' caches[i].cacheId, fun position => ?_, rfl, ?_⟩
    · rw [← hkept position]
      exact (hm' position).1
    · rw [← hkept 0]
      exact (hm' 0).2
  -- the cache of a path, which no position changes
  obtain ⟨first, -⟩ := List.exists_mem_of_ne_nil caches hne
  have : Nonempty LoadedCache := ⟨first⟩
  have hpath : ∀ path, ∃ cache', path ∈ paths → ∀ position, loadCache L tree' path validate position = .ok cache' := by
    intro path
    by_cases hmem : path ∈ paths
    · obtain ⟨i, hi, rfl⟩ := List.getElem_of_mem hmem
      obtain ⟨cache', hload, -⟩ := hone i hi
      exact ⟨cache', fun _ => hload⟩
    · exact ⟨first, fun hin => absurd hin hmem⟩
  choose reload hreload using hpath
  refine ⟨order.map reload, ?_, paths.map reload, hperm.map reload, ?_⟩
  · refine mapM_eq_ok_iff_getElem.mpr ⟨by simp, fun k hk hk' => ?_⟩
    rw [List.length_range] at hk
    rw [List.getElem_range, List.getElem_map, loadAt, List.getD_eq_getElem _ _ hk]
    exact hreload _ (hperm.mem_iff.mp (List.getElem_mem hk)) k
  · refine List.forall₂_iff_get.mpr ⟨by simpa using hlength.symm, fun i hi hi' => ?_⟩
    have hi' : i < paths.length := by simpa using hi'
    obtain ⟨cache', hload, hsame⟩ := hone i hi'
    have heq : reload paths[i] = cache' :=
      Except.ok.inj ((hreload _ (List.getElem_mem hi') 0).symm.trans (hload 0))
    simpa [heq] using hsame

/-- **Datasets survive a migration.**  Whatever fails in a run, it replaces the manifests of a prefix of the caches, and
every cache loads again at every position, with its own identity if its manifest was replaced or had one, and with the
same samples; the run reports this prefix.  After a run that succeeded a dataset of the same paths in any order can be
made, has as many samples and the same schema, and reads under every identity what the first one read. -/
theorem migrated_dataset_same (hL : L.json.Lawful) (h : Reopenable L resolve st.1.tree paths validate caches)
    (version : ℕ) (faults : Faults) {after : DiskState} {outcome : Except UpdateError (List UpdateEntry)}
    (hrun : updateWithHook L resolve pid caches version faults st = (after, outcome)) :
    (∃ n ≤ paths.length, (reported outcome).length = n ∧ (outcome.isOk = true → n = paths.length) ∧
      ∀ i path cache, paths[i]? = some path → caches[i]? = some cache → ∀ position, ∃ cache',
        loadCache L after.1.tree path validate position = .ok cache' ∧
        cache'.cacheId = (if i < n ∨ isV2 cache.manifest = false then cache.cacheId else position) ∧
        SameSamples L st.1.tree after.1.tree cache cache') ∧
    (outcome.isOk = true → ∀ order, order.Perm paths → ∀ seed prefetchSize numWorkers shuffle d s,
      Dataset.load (fun ps => loadedInOrder L st.1.tree ps validate) paths seed prefetchSize numWorkers shuffle =
        .ok (d, s) →
      ∃ d' s', Dataset.load (fun ps => loadedInOrder L after.1.tree ps validate) order seed prefetchSize numWorkers
          shuffle = .ok (d', s') ∧
        d'.totalSamples = d.totalSamples ∧ d'.pop.schema = d.pop.schema ∧
        ∀ cacheId sampleId readers readers', readers.Fresh st.1.tree → readers'.Fresh after.1.tree →
          (loadSampleByIdentity L after.1.tree d'.pop cacheId sampleId readers').2 =
            (loadSampleByIdentity L st.1.tree d.pop cacheId sampleId readers).2) := by
  obtain ⟨n, hn, hreported, hall, hreached⟩ := reached_of_run pid hL h version faults
  rw [hrun] at hreported hall hreached
  have hlength := h.length_eq
  refine ⟨⟨n, hlength ▸ hn, hreported, fun hok => (hall hok).trans hlength.symm,
    fun i path cache hpath hcache position => ?_⟩, ?_⟩
  · obtain ⟨m', hm'⟩ := hreached.reload h hpath hcache
    exact ⟨_, (hm' position).1, rfl, (hm' position).2⟩
  intro hok order hperm seed prefetchSize numWorkers shuffle d s hload
  obtain ⟨hcaches, hschema, -, -⟩ := caches_of_load hload
  obtain rfl : caches = d.pop.caches := Except.ok.inj (h.inOrder.symm.trans hcaches)
  obtain rfl := hall hok
  have hpaths : paths ≠ [] := by
    rintro rfl
    unfold Dataset.load at hload
    rw [if_pos rfl] at hload
    cases hload
  have hne : d.pop.caches ≠ [] := List.length_pos_iff.mp (hlength ▸ List.length_pos_iff.mpr hpaths)
  obtain ⟨again, hagain, hsame⟩ := hreached.reload_all h hne hperm
  have hvalid := (Dataset.valid_of_load hload).1.pop
  have hids : (again.map LoadedCache.cacheId).Nodup := hsame.ids.nodup_iff.mpr (nodup_ids_of_valid hvalid)
  have hcounts := hsame.map_perm fun _ _ _ hone => hone.count
  have hschemas := hsame.map_perm (f := fun cache => cache.manifest.fields.metadataSchema)
    fun _ _ _ hone => hone.schema
  have hschema' : ∀ cache ∈ again, cache.manifest.fields.metadataSchema = d.pop.schema := by
    intro cache hcache
    obtain ⟨old, hold, heq⟩ := List.mem_map.mp (hschemas.mem_iff.mp (List.mem_map_of_mem hcache))
    rw [← heq]
    exact schema_of_commonSchema hschema old hold
  have hne' : again ≠ [] := by
    rintro rfl
    exact hne (List.map_eq_nil_iff.mp hsame.ids.nil_eq.symm)
  have horder : order ≠ [] := fun hnil => hpaths (by simpa [hnil] using hperm)
  obtain ⟨d', s', hload', hcaches', htotal, hschema''⟩ := load_of_caches hload horder
    (fun ps => loadedInOrder L after.1.tree ps validate) hagain hne' hids
    (hcounts.sum_eq.trans hvalid.total_eq.symm) hschema'
  refine ⟨d', s', hload', htotal, hschema'', fun cacheId sampleId readers readers' hfresh hfresh' => ?_⟩
  exact loadSampleByIdentity_same hvalid (Dataset.valid_of_load hload').1.pop (hcaches'.symm ▸ hsame) cacheId sampleId
    hfresh hfresh'

end main

/-! ### Three caches in another order -/

namespace OldCaches

def paths : List Path := [["base", "a"], ["base", "b"], ["base", "c"]]

theorem load_first : loadCache lib disk.tree ["base", "a"] false 0 = .ok first := by
  have hread : readManifest lib disk.tree ["base", "a"] = .ok first.manifest := parse_first
  unfold loadCache
  rw [hread]
  rfl

theorem load_second : loadCache lib disk.tree ["base", "b"] false 1 = .ok second := by
  have hread : readManifest lib disk.tree ["base", "b"] = .ok second.manifest := parse_second
  unfold loadCache
  rw [hread]
  rfl

theorem load_third : loadCache lib disk.tree ["base", "c"] false 2 = .ok third := by
  have hread : readManifest lib disk.tree ["base", "c"] = .ok third.manifest := parse_third
  unfold loadCache
  rw [hread]
  rfl

theorem reopenable : Reopenable lib id disk.tree paths false caches where
  inOrder := mapM_eq_ok_iff.mpr (.cons load_first (.cons load_second (.cons load_third .nil)))
  loaded
  canonical := by
    simp only [caches, List.forall_mem_cons, List.not_mem_nil, false_implies, implies_true, and_true]
    exact ⟨rfl, rfl, rfl⟩
  apart := by decide

theorem exists_dataset : ∃ d s, Dataset.load (fun ps => loadedInOrder lib disk.tree ps false) paths 0 1
    ⟨1, Nat.one_pos⟩ false = .ok (d, s) ∧ d.totalSamples = 3 ∧ ∀ cacheId payload,
      (cacheId, payload) ∈ [(0, (7 : UInt8)), (4477677635727087946, 8), (2, 9)] →
        (loadSampleByIdentity lib disk.tree d.pop cacheId 0 .new).2 = .ok ⟨[payload], [], cacheId, 0⟩ := by
  have hcaches : loadedInOrder lib disk.tree paths false = .ok caches := reopenable.inOrder
  have hne : paths ≠ [] := List.cons_ne_nil _ _
  unfold Dataset.load
  rw [if_neg hne]
  simp only [hcaches]
  refine ⟨_, _, rfl, rfl, fun cacheId payload hmem => ?_⟩
  simp only [List.mem_cons, Prod.mk.injEq, List.not_mem_nil, or_false] at hmem
  rcases hmem with ⟨rfl, rfl⟩ | ⟨rfl, rfl⟩ | ⟨rfl, rfl⟩
  · rfl
  · rfl
  · rfl

theorem updates : (updateWithHook lib id 1 caches 3 noFaults (disk, 0)).2.isOk = true := by
  obtain ⟨a, b, c, hjobs, -, hplanned, hreplaceable⟩ := planned
  obtain ⟨-, hresult⟩ := updateWithHook_planned 1 hplanned hreplaceable
  rw [hjobs] at hresult
  rw [hresult]
  rfl

theorem stops : (reported (updateWithHook lib id 1 caches 3 (stopAt 2 (.io "disk full")) (disk, 0)).2).length = 2 := by
  obtain ⟨a, b, c, hjobs, -, hplanned, hreplaceable⟩ := planned
  obtain ⟨-, hresult⟩ := updateWithHook_stopped 1 hplanned hreplaceable (show [a, b, c][2]? = some c from rfl)
    (.io "disk full")
  rw [hjobs] at hresult
  rw [hresult]
  rfl

end OldCaches

open OldCaches in
/-- After a whole run the caches are put in another order and their samples are read under their identities.  After a
run that the third target stopped, the first two are loaded as themselves at position 5, and the third as cache 5. -/
theorem migrated_dataset_same_reordered :
    (∃ (d' : Dataset) (s' : MutableDatasetState),
      Dataset.load (fun ps => loadedInOrder lib (updateWithHook lib id 1 caches 3 noFaults (disk, 0)).1.1.tree ps false)
        [["base", "c"], ["base", "a"], ["base", "b"]] 0 1 ⟨1, Nat.one_pos⟩ false = .ok (d', s') ∧
      d'.totalSamples = 3 ∧ ∀ cacheId payload,
        (cacheId, payload) ∈ [(0, (7 : UInt8)), (4477677635727087946, 8), (2, 9)] →
          (loadSampleByIdentity lib (updateWithHook lib id 1 caches 3 noFaults (disk, 0)).1.1.tree d'.pop cacheId 0
            .new).2 = .ok ⟨[payload], [], cacheId, 0⟩) ∧
    ∀ path cacheId, (path, cacheId) ∈ [(["base", "a"], 0), (["base", "b"], 4477677635727087946), (["base", "c"], 5)] →
      ∃ cache', loadCache lib (updateWithHook lib id 1 caches 3 (stopAt 2 (.io "disk full")) (disk, 0)).1.1.tree path
        false 5 = .ok cache' ∧ cache'.cacheId = cacheId := by
  have hreopenable : Reopenable lib id ((disk, 0) : DiskState).1.tree paths false caches := reopenable
  constructor
  · have hrun : updateWithHook lib id 1 caches 3 noFaults (disk, 0) = (_, _) := Prod.mk.eta.symm
    obtain ⟨-, hdataset⟩ := migrated_dataset_same lawful_lib hreopenable 3 noFaults hrun
    obtain ⟨d, s, hload, htotal, hread⟩ := exists_dataset
    have hperm : [["base", "c"], ["base", "a"], ["base", "b"]].Perm paths := by decide
    obtain ⟨d', s', hload', htotal', -, hread'⟩ := hdataset updates _ hperm 0 1 ⟨1, Nat.one_pos⟩ false d s hload
    refine ⟨d', s', hload', htotal'.trans htotal, fun cacheId payload hmem => ?_⟩
    rw [hread' cacheId 0 .new .new (ShardReaderCache.fresh_new _) (ShardReaderCache.fresh_new _)]
    exact hread cacheId payload hmem
  · have hrun : updateWithHook lib id 1 caches 3 (stopAt 2 (.io "disk full")) (disk, 0) = (_, _) := Prod.mk.eta.symm
    obtain ⟨⟨n, -, hreported, -, hcaches⟩, -⟩ := migrated_dataset_same lawful_lib hreopenable 3 _ hrun
    obtain rfl : 2 = n := stops.symm.trans hreported
    have hone := fun i path cache hpath hcache => hcaches i path cache hpath hcache 5
    intro path cacheId hmem
    simp only [List.mem_cons, Prod.mk.injEq, List.not_mem_nil, or_false] at hmem
    rcases hmem with ⟨rfl, rfl⟩ | ⟨rfl, rfl⟩ | ⟨rfl, rfl⟩
    · obtain ⟨cache', hload, hid, -⟩ := hone 0 _ first rfl rfl
      exact ⟨cache', hload, hid⟩
    · obtain ⟨cache', hload, hid, -⟩ := hone 1 _ second rfl rfl
      exact ⟨cache', hload, hid⟩
    · obtain ⟨cache', hload, hid, -⟩ := hone 2 _ third rfl rfl
      exact ⟨cache', hload, hid⟩

end DatasetRt.Migration
