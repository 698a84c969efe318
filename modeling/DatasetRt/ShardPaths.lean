import DatasetRt.SourceListContract
import DatasetRt.ShardHandles

/-! # The shard files of a cache

`verify_shards` and `read_sample_with_cache` (`storage.rs`) join the name of a shard, as the manifest has it, to the
directory of the shards.  No check of the manifest looks at the names, and joining a name that starts with a separator
or climbs to the parent leaves that directory.

`visitedShards` and `openedShard` are the files that the two functions ask for; what they return depends on no other
shard file (`verifyShards_congr`, `readSample_congr`).  `shard_files_inside` says that plain names, and only these,
keep them in the directory; then nothing outside it makes a difference (`shards_framed`). -/

namespace DatasetRt

/-- A direct child of the directory of the shards. -/
def InShards (path p : Path) : Prop := ∃ c, Path.Plain c ∧ p = path ++ ["shards", c]

section files

variable (L : StorageLib) (fs : FileTree) (path : Path)

/-- The files that `verify_shards` asks for; a shard that is rejected is the last. -/
def visitedShards (validateCache : Bool) : List ShardManifest → List Path
  | [] => []
  | shard :: rest =>
      shardPath path shard ::
        match verifyShard L fs path validateCache shard with
        | .error _ => []
        | .ok () => visitedShards validateCache rest

/-- The file that a read opens, unless it is open already. -/
def LoadedCache.openedShard (cache : LoadedCache) (sampleIndex : ℕ) (readers : ShardReaderCache) : List Path :=
  match cache.locateRecord sampleIndex with
  | .error _ => []
  | .ok (_, shard, _) =>
      if (readers.readers.lookup (shardPath cache.path shard)).isSome then [] else [shardPath cache.path shard]

end files

/-! ### These are all the shard files that count -/

section frame

variable {L : StorageLib} {fs fs' : FileTree} {path : Path}

theorem verifyShard_congr {validate : Bool} {shard : ShardManifest}
    (h : fs (shardPath path shard) = fs' (shardPath path shard)) :
    verifyShard L fs path validate shard = verifyShard L fs' path validate shard := by
  simp only [verifyShard, verifyFileChecksum, hashFile, openFile_congr h]

/-- What `verify_shards` returns depends on the files it asks for. -/
theorem verifyShards_congr {validate : Bool} : ∀ {shards : List ShardManifest},
    (∀ p ∈ visitedShards L fs path validate shards, fs p = fs' p) →
      shards.forM (verifyShard L fs path validate) = shards.forM (verifyShard L fs' path validate)
  | [], _ => rfl
  | shard :: rest, h => by
      have hfirst : verifyShard L fs path validate shard = verifyShard L fs' path validate shard :=
        verifyShard_congr (h _ List.mem_cons_self)
      show (verifyShard L fs path validate shard >>= fun _ => rest.forM (verifyShard L fs path validate)) =
        verifyShard L fs' path validate shard >>= fun _ => rest.forM (verifyShard L fs' path validate)
      rw [← hfirst]
      cases hverify : verifyShard L fs path validate shard with
      | error error => rfl
      | ok u =>
          refine verifyShards_congr fun p hp => h p (List.mem_cons_of_mem _ ?_)
          rw [hverify]
          exact hp

/-- What a read returns depends on the shard it opens and on the metadata file. -/
theorem readSample_congr {cache : LoadedCache} {i : ℕ} {readers : ShardReaderCache}
    (hshard : ∀ p ∈ cache.openedShard i readers, fs p = fs' p)
    (hmetadata : fs (cache.path.join "metadata.arrow") = fs' (cache.path.join "metadata.arrow")) :
    cache.readSampleWithCache L fs i readers = cache.readSampleWithCache L fs' i readers := by
  have hrecord : ∀ entry shard stop file,
      cache.readRecord L fs i entry shard stop file = cache.readRecord L fs' i entry shard stop file := by
    intro entry shard stop file
    simp only [LoadedCache.readRecord, LoadedCache.validateEmbedded, LoadedCache.withMetadataRows, readMetadataFile,
      openFile_congr hmetadata]
  unfold LoadedCache.openedShard at hshard
  unfold LoadedCache.readSampleWithCache
  cases hlocate : cache.locateRecord i with
  | error error => rfl
  | ok located =>
      obtain ⟨entry, shard, stop⟩ := located
      simp only [hlocate] at hshard
      have hreader : readers.readerFor fs (shardPath cache.path shard) =
          readers.readerFor fs' (shardPath cache.path shard) := by
        unfold ShardReaderCache.readerFor
        split_ifs with hopen
        · rfl
        · rw [if_neg hopen] at hshard
          simp only [ShardReaderCache.openReader, openFile_congr (hshard _ List.mem_cons_self)]
      simp only [hreader, hrecord]

theorem visitedShards_of_ok {validate : Bool} : ∀ {shards : List ShardManifest},
    shards.forM (verifyShard L fs path validate) = .ok () →
      visitedShards L fs path validate shards = shards.map (shardPath path)
  | [], _ => rfl
  | shard :: rest, h => by
      have hall := List.forall_mem_cons.mp (forM_eq_ok_iff.mp h)
      rw [visitedShards, hall.1, List.map_cons, visitedShards_of_ok (forM_eq_ok_iff.mpr hall.2)]

end frame

/-! ### Where they are -/

theorem shardPath_plain (path : Path) {shard : ShardManifest} (h : Path.Plain shard.name) :
    shardPath path shard = path ++ ["shards", shard.name] := by
  have hshards : Path.Plain "shards" := by decide
  rw [shardPath, hshards.join, h.join, List.append_assoc]
  rfl

/-- A name without a separator that stays in the directory is plain. -/
theorem plain_of_inShards {path : Path} {shard : ShardManifest} (hslash : '/' ∉ shard.name.toList)
    (h : InShards path (shardPath path shard)) : Path.Plain shard.name := by
  obtain ⟨c, hplain, hc⟩ := h
  have hshards : Path.Plain "shards" := by decide
  have hhead : ¬ shard.name.toList.head? = some '/' := fun hmem => hslash (List.mem_of_mem_head? hmem)
  rw [shardPath, hshards.join, Path.join, if_neg hhead, List.append_assoc, List.append_cancel_left_eq,
    List.singleton_append, List.cons.injEq] at hc
  have hjoin : shard.name ≠ "" → shard.name ≠ "." → shard.name = c := by
    intro hempty hdot
    have hone := Path.join_of_plain [] hslash hempty hdot
    rw [Path.join, if_neg hhead, hc.2] at hone
    exact (List.cons.inj hone).1.symm
  have hempty : shard.name ≠ "" := by
    intro hname
    rw [hname] at hc
    exact absurd hc.2 (by simp [Path.components])
  have hdot : shard.name ≠ "." := by
    intro hname
    rw [hname] at hc
    have hnone : Path.components "." = [] := by decide
    rw [hnone] at hc
    exact absurd hc.2 (by simp)
  rw [hjoin hempty hdot]
  exact hplain

/-- The shard files of a cache are direct children of the directory of the shards, those that were looked up when the
cache was loaded and those that reads open, and no name leads elsewhere. -/
structure StaysInside (L : StorageLib) (fs : FileTree) (path : Path) (validate : Bool) (cache : LoadedCache) : Prop where
  visited : ∀ p ∈ visitedShards L fs path validate cache.manifest.fields.shards, InShards path p
  opened : ∀ sampleIndex readers, ∀ p ∈ cache.openedShard sampleIndex readers, InShards path p
  names : ∀ shard ∈ cache.manifest.fields.shards, '/' ∉ shard.name.toList ∧ shard.name ≠ ".."

theorem exists_shard_of_opened {cache : LoadedCache} {sampleIndex : ℕ} {readers : ShardReaderCache} {p : Path}
    (h : p ∈ cache.openedShard sampleIndex readers) :
    ∃ shard ∈ cache.manifest.fields.shards, p = shardPath cache.path shard := by
  unfold LoadedCache.openedShard at h
  cases hlocate : cache.locateRecord sampleIndex with
  | error error =>
      rw [hlocate] at h
      cases h
  | ok located =>
      obtain ⟨entry, shard, stop⟩ := located
      simp only [hlocate] at h
      obtain ⟨entry', -, hlocate⟩ := bind_eq_ok hlocate
      obtain ⟨shard', hshard, hlocate⟩ := bind_eq_ok hlocate
      obtain ⟨stop', -, hlocate⟩ := bind_eq_ok hlocate
      cases hlocate
      split_ifs at h with hopen
      · cases h
      · exact ⟨shard, List.mem_of_getElem? (okOr_eq_ok.mp hshard), List.mem_singleton.mp h⟩

theorem staysInside_of_plain {L : StorageLib} {fs : FileTree} {path : Path} {validate : Bool} {position : ℕ}
    {cache : LoadedCache} (hloaded : LoadedFrom L fs path validate position cache)
    (hplain : ∀ shard ∈ cache.manifest.fields.shards, Path.Plain shard.name) : StaysInside L fs path validate cache := by
  have hchild : ∀ shard ∈ cache.manifest.fields.shards, InShards path (shardPath path shard) :=
    fun shard hshard => ⟨shard.name, hplain shard hshard, shardPath_plain path (hplain shard hshard)⟩
  constructor
  · intro p hp
    rw [visitedShards_of_ok hloaded.shards] at hp
    obtain ⟨shard, hshard, rfl⟩ := List.mem_map.mp hp
    exact hchild shard hshard
  · intro i readers p hp
    obtain ⟨shard, hshard, rfl⟩ := exists_shard_of_opened hp
    rw [hloaded.path]
    exact hchild shard hshard
  · exact fun shard hshard => ⟨(hplain shard hshard).slash, (hplain shard hshard).parent⟩

/-- A cache with plain names is as good where everything outside the directory of its shards, its metadata apart, is
different. -/
theorem shards_framed {L : StorageLib} {fs fs' : FileTree} {path : Path} {validate : Bool} {position : ℕ}
    {cache : LoadedCache} (h : loadCache L fs path validate position = .ok cache)
    (hplain : ∀ shard ∈ cache.manifest.fields.shards, Path.Plain shard.name)
    (hshards : ∀ p, InShards path p → fs p = fs' p)
    (hmetadata : fs (path.join "metadata.arrow") = fs' (path.join "metadata.arrow")) :
    verifyShards L fs' path cache.manifest validate = .ok () ∧ ∀ i readers,
      cache.readSampleWithCache L fs i readers = cache.readSampleWithCache L fs' i readers := by
  have hloaded := loadedFrom_of_loadCache h
  have hinside := staysInside_of_plain hloaded hplain
  constructor
  · exact (verifyShards_congr fun p hp => hshards p (hinside.visited p hp)).symm.trans hloaded.shards
  · intro i readers
    refine readSample_congr (fun p hp => hshards p (hinside.opened i readers p hp)) ?_
    rw [hloaded.path]
    exact hmetadata

/-- **Shard paths.**  The shard files of an accepted cache stay in its directory exactly when every shard has a plain
name; the manifest is accepted whatever the names are. -/
theorem shard_files_inside {L : StorageLib} {fs : FileTree} {path : Path} {validate : Bool} {position : ℕ}
    {cache : LoadedCache} (h : loadCache L fs path validate position = .ok cache) :
    StaysInside L fs path validate cache ↔ ∀ shard ∈ cache.manifest.fields.shards, Path.Plain shard.name := by
  have hloaded := loadedFrom_of_loadCache h
  have hvisited := visitedShards_of_ok hloaded.shards
  constructor
  · intro hinside shard hshard
    refine plain_of_inShards (hinside.names shard hshard).1 (hinside.visited _ ?_)
    rw [hvisited]
    exact List.mem_map_of_mem hshard
  · exact staysInside_of_plain hloaded

open SharedShard in
/-- The cache `a` with the shard `000000.bin`. -/
theorem shard_files_inside_plain : ∃ cache, loadCache (lib "000000.bin") fs ["d", "a"] true 0 = .ok cache ∧
    StaysInside (lib "000000.bin") fs ["d", "a"] true cache := by
  obtain ⟨cache, hload⟩ : ∃ cache, loadCache (lib "000000.bin") fs ["d", "a"] true 0 = .ok cache := ⟨_, rfl⟩
  refine ⟨cache, hload, (shard_files_inside hload).mpr ?_⟩
  have hnames : (loadCache (lib "000000.bin") fs ["d", "a"] true 0).map
      (fun cache => cache.manifest.fields.shards.map ShardManifest.name) = .ok ["000000.bin"] := rfl
  rw [hload] at hnames
  intro shard hshard
  have hmem := List.mem_map_of_mem (f := ShardManifest.name) hshard
  rw [show cache.manifest.fields.shards.map ShardManifest.name = _ from Except.ok.inj hnames,
    List.mem_singleton] at hmem
  rw [hmem]
  decide

namespace SharedShard

/-- A file beside the directory of a cache whose shard it is. -/
def withSecret : FileTree := (store "/secret").write ["secret"] []

end SharedShard

open SharedShard in
/-- An absolute name. -/
theorem absolute_shard_accepted : ∃ cache,
    loadCache (lib "/secret") withSecret ["d", "a"] true 0 = .ok cache ∧
      ["secret"] ∈ visitedShards (lib "/secret") withSecret ["d", "a"] true cache.manifest.fields.shards ∧
      ¬ StaysInside (lib "/secret") withSecret ["d", "a"] true cache := by
  obtain ⟨cache, hload⟩ : ∃ cache, loadCache (lib "/secret") withSecret ["d", "a"] true 0 = .ok cache := ⟨_, rfl⟩
  have hvisited : visitedShards (lib "/secret") withSecret ["d", "a"] true cache.manifest.fields.shards =
      [["secret"]] := by
    have hnames : (loadCache (lib "/secret") withSecret ["d", "a"] true 0).map
        (fun cache => visitedShards (lib "/secret") withSecret ["d", "a"] true cache.manifest.fields.shards) =
          .ok [["secret"]] := rfl
    rw [hload] at hnames
    exact Except.ok.inj hnames
  refine ⟨cache, hload, by rw [hvisited]; exact List.mem_cons_self, fun hinside => ?_⟩
  obtain ⟨c, -, hc⟩ := hinside.visited ["secret"] (by rw [hvisited]; exact List.mem_cons_self)
  have hlength := congrArg List.length hc
  simp at hlength

end DatasetRt
