import DatasetRt.ShardPaths

/-! # Validated loads are tamper-evident

`load_cache` with validation compares the digests of `metadata.arrow`, of `index.bin` and of every shard with the
manifest (`verify_file_checksum`, `verify_shards` in `storage.rs`), and a read uses no other file of the directory.
With an injective digest, two directories that have the same manifest and pass the validation have the same files and
give the same samples (`validated_load_tamper_evident`); they may lie at different places. -/

namespace DatasetRt

/-! ### Digests -/

theorem digitChar_inj {a b : ℕ} (ha : a < 16) (hb : b < 16) (h : Nat.digitChar a = Nat.digitChar b) : a = b := by
  have hall : ∀ a b : Fin 16, Nat.digitChar a.1 = Nat.digitChar b.1 → a = b := by decide
  exact congrArg Fin.val (hall ⟨a, ha⟩ ⟨b, hb⟩ h)

theorem hexEncode_injective : Function.Injective hexEncode := by
  intro xs ys h
  replace h := String.ofList_injective h
  induction xs generalizing ys with
  | nil =>
      cases ys with
      | nil => rfl
      | cons y ys => simp at h
  | cons x xs ih =>
      cases ys with
      | nil => simp at h
      | cons y ys =>
          simp only [List.flatMap_cons, List.cons_append, List.nil_append, List.cons.injEq] at h
          obtain ⟨hhigh, hlow, hrest⟩ := h
          have hx := x.toNat_lt
          have hy := y.toNat_lt
          have hdiv : x.toNat / 16 = y.toNat / 16 := digitChar_inj (by omega) (by omega) hhigh
          have hmod : x.toNat % 16 = y.toNat % 16 := digitChar_inj (by omega) (by omega) hlow
          have hbyte : x = y := UInt8.toNat_inj.mp (by omega)
          rw [hbyte, ih hrest]

/-! ### One file -/

section files

variable {L : StorageLib} {fs fs₁ fs₂ : FileTree} {path path₁ path₂ : Path}

theorem exists_of_verifyFileChecksum {expected : String} (h : verifyFileChecksum L fs path expected = .ok ()) :
    ∃ bytes, fs.read path = some bytes ∧ hexEncode (L.sha256 bytes) = expected := by
  obtain ⟨actual, hactual, h⟩ := bind_eq_ok h
  obtain ⟨bytes, hbytes, hactual⟩ := bind_eq_ok hactual
  cases hactual
  split_ifs at h with hne
  exact ⟨bytes, okOr_eq_ok.mp hbytes, not_not.mp hne⟩

/-- Two files that passed with one digest. -/
theorem read_eq_of_checksums (hsha : Function.Injective L.sha256) {expected : String}
    (h₁ : verifyFileChecksum L fs₁ path₁ expected = .ok ()) (h₂ : verifyFileChecksum L fs₂ path₂ expected = .ok ()) :
    ∃ bytes, fs₁.read path₁ = some bytes ∧ fs₂.read path₂ = some bytes := by
  obtain ⟨bytes₁, hbytes₁, hhash₁⟩ := exists_of_verifyFileChecksum h₁
  obtain ⟨bytes₂, hbytes₂, hhash₂⟩ := exists_of_verifyFileChecksum h₂
  have hsame : bytes₁ = bytes₂ := hsha (hexEncode_injective (hhash₁.trans hhash₂.symm))
  exact ⟨bytes₁, hbytes₁, hsame ▸ hbytes₂⟩

end files

/-! ### Two directories -/

/-- Every file that the manifest has a digest of is the same. -/
structure SameFiles (manifest : Manifest) (fs₁ fs₂ : FileTree) (path₁ path₂ : Path) : Prop where
  metadata : ∃ bytes, fs₁.read (path₁.join "metadata.arrow") = some bytes ∧
    fs₂.read (path₂.join "metadata.arrow") = some bytes
  index : ∃ bytes, fs₁.read (path₁.join "index.bin") = some bytes ∧ fs₂.read (path₂.join "index.bin") = some bytes
  shards : ∀ shard ∈ manifest.fields.shards, ∃ bytes, fs₁.read (shardPath path₁ shard) = some bytes ∧
    fs₂.read (shardPath path₂ shard) = some bytes

section directories

variable {L : StorageLib} {fs₁ fs₂ : FileTree} {path₁ path₂ : Path} {position₁ position₂ : ℕ}
  {cache₁ cache₂ : LoadedCache}

/-- The manifest depends on the bytes of its file. -/
theorem manifest_eq_of_read (h : fs₁.read (path₁.join "manifest.json") = fs₂.read (path₂.join "manifest.json"))
    {manifest₁ manifest₂ : Manifest} (h₁ : readManifest L fs₁ path₁ = .ok manifest₁)
    (h₂ : readManifest L fs₂ path₂ = .ok manifest₂) : manifest₁ = manifest₂ := by
  unfold readManifest at h₁ h₂
  simp only at h₁ h₂
  split_ifs at h₁ h₂
  obtain ⟨text₁, htext₁, h₁⟩ := bind_eq_ok h₁
  obtain ⟨text₂, htext₂, h₂⟩ := bind_eq_ok h₂
  have htext : text₁ = text₂ := by
    have hread₁ := okOr_eq_ok.mp htext₁
    have hread₂ := okOr_eq_ok.mp htext₂
    rw [h, hread₂] at hread₁
    exact (Option.some.inj hread₁).symm
  rw [htext, h₂] at h₁
  exact (Except.ok.inj h₁).symm

/-- The files that a validated load compared with the manifest. -/
theorem sameFiles_of_loaded (hsha : Function.Injective L.sha256) (hmanifest : cache₁.manifest = cache₂.manifest)
    (h₁ : LoadedFrom L fs₁ path₁ true position₁ cache₁) (h₂ : LoadedFrom L fs₂ path₂ true position₂ cache₂) :
    SameFiles cache₁.manifest fs₁ fs₂ path₁ path₂ := by
  obtain ⟨⟨⟩, hmetadata₁, hindex₁⟩ := bind_eq_ok h₁.checksums
  obtain ⟨⟨⟩, hmetadata₂, hindex₂⟩ := bind_eq_ok h₂.checksums
  rw [← hmanifest] at hmetadata₂ hindex₂
  refine ⟨read_eq_of_checksums hsha hmetadata₁ hmetadata₂, read_eq_of_checksums hsha hindex₁ hindex₂,
    fun shard hshard => ?_⟩
  have hchecksum : ∀ {fs : FileTree} {path : Path}, verifyShard L fs path true shard = .ok () →
      verifyFileChecksum L fs (shardPath path shard) shard.sha256 = .ok () := by
    intro fs path h
    obtain ⟨bytes, -, h⟩ := bind_eq_ok h
    by_cases hlength : bytes.length ≠ shard.byteLen
    · rw [if_pos hlength] at h
      cases h
    · rw [if_neg hlength, if_pos rfl] at h
      exact h
  have hshard₁ := forM_eq_ok_iff.mp h₁.shards shard hshard
  have hshard₂ := forM_eq_ok_iff.mp h₂.shards shard (hmanifest ▸ hshard)
  exact read_eq_of_checksums hsha (hchecksum hshard₁) (hchecksum hshard₂)

theorem openFile_of_read {fs : FileTree} {path : Path} {bytes : Bytes} (h : fs.read path = some bytes) :
    openFile fs path = .ok bytes := by
  rw [openFile, h]
  rfl

theorem readMetadata_of_loaded (h : LoadedFrom L fs₁ path₁ true position₁ cache₁) :
    ∃ rows, cache₁.metadataRows = some rows ∧
      readMetadataFile L fs₁ (path₁.join "metadata.arrow") cache₁.manifest.fields.metadataSchema = .ok rows := by
  have hrows := h.rows
  rw [loadRows, if_pos rfl] at hrows
  cases hread : readMetadataFile L fs₁ (path₁.join "metadata.arrow") cache₁.manifest.fields.metadataSchema with
  | error error =>
      rw [hread] at hrows
      cases hrows
  | ok rows =>
      rw [hread] at hrows
      exact ⟨rows, (Except.ok.inj hrows).symm, rfl⟩

theorem memory_eq_of_sameFiles (hmanifest : cache₁.manifest = cache₂.manifest)
    (h : SameFiles cache₁.manifest fs₁ fs₂ path₁ path₂) (h₁ : LoadedFrom L fs₁ path₁ true position₁ cache₁)
    (h₂ : LoadedFrom L fs₂ path₂ true position₂ cache₂) :
    cache₁.index = cache₂.index ∧ cache₁.metadataRows = cache₂.metadataRows := by
  constructor
  · obtain ⟨bytes, hread₁, hread₂⟩ := h.index
    have hindex₁ := h₁.index
    have hindex₂ := h₂.index
    simp only [MappedIndex.openFile, ioResult, hread₁, hread₂, okOr, bind, Except.bind] at hindex₁ hindex₂
    exact Except.ok.inj (hindex₁.symm.trans hindex₂)
  · obtain ⟨bytes, hread₁, hread₂⟩ := h.metadata
    obtain ⟨rows₁, hrows₁, hfile₁⟩ := readMetadata_of_loaded h₁
    obtain ⟨rows₂, hrows₂, hfile₂⟩ := readMetadata_of_loaded h₂
    simp only [readMetadataFile, openFile_of_read hread₁, openFile_of_read hread₂, bind, Except.bind,
      ← hmanifest] at hfile₁ hfile₂
    rw [hrows₁, hrows₂, Except.ok.inj (hfile₁.symm.trans hfile₂)]

theorem readSample_loaded (h : LoadedFrom L fs₁ path₁ true position₁ cache₁) {i stop : ℕ} {entry : IndexEntry}
    {shard : ShardManifest} {bytes : Bytes} (hlocate : cache₁.locateRecord i = .ok (entry, shard, stop))
    (hread : fs₁.read (shardPath path₁ shard) = some bytes) {readers : ShardReaderCache} (hreaders : readers.Fresh fs₁) :
    (cache₁.readSampleWithCache L fs₁ i readers).2 = cache₁.readRecord L fs₁ i entry shard stop bytes := by
  refine Runtime.readSampleWithCache_eq hlocate ?_
  rw [h.path, (ShardReaderCache.readerFor_of_fresh hreaders _).1]
  exact openFile_of_read hread

theorem reads_eq_of_sameFiles (hmanifest : cache₁.manifest = cache₂.manifest)
    (h : SameFiles cache₁.manifest fs₁ fs₂ path₁ path₂) (h₁ : LoadedFrom L fs₁ path₁ true position₁ cache₁)
    (h₂ : LoadedFrom L fs₂ path₂ true position₂ cache₂) (i : ℕ) {readers₁ readers₂ : ShardReaderCache}
    (hreaders₁ : readers₁.Fresh fs₁) (hreaders₂ : readers₂.Fresh fs₂) :
    (cache₁.readSampleWithCache L fs₁ i readers₁).2 = (cache₂.readSampleWithCache L fs₂ i readers₂).2 := by
  obtain ⟨hindex, hrows⟩ := memory_eq_of_sameFiles hmanifest h h₁ h₂
  have hlocate : cache₁.locateRecord i = cache₂.locateRecord i := by
    simp only [LoadedCache.locateRecord, hindex, hmanifest]
  cases hlocate₁ : cache₁.locateRecord i with
  | error error =>
      have hlocate₂ := hlocate.symm.trans hlocate₁
      simp only [LoadedCache.readSampleWithCache, hlocate₁, hlocate₂]
  | ok located =>
      obtain ⟨entry, shard, stop⟩ := located
      have hshard : shard ∈ cache₁.manifest.fields.shards := by
        obtain ⟨entry', -, hrest⟩ := bind_eq_ok hlocate₁
        obtain ⟨shard', hshard, hrest⟩ := bind_eq_ok hrest
        obtain ⟨stop', -, hrest⟩ := bind_eq_ok hrest
        cases hrest
        exact List.mem_of_getElem? (okOr_eq_ok.mp hshard)
      obtain ⟨bytes, hread₁, hread₂⟩ := h.shards shard hshard
      obtain ⟨rows, hmemory, -⟩ := readMetadata_of_loaded h₁
      rw [readSample_loaded h₁ hlocate₁ hread₁ hreaders₁,
        readSample_loaded h₂ (hlocate.symm.trans hlocate₁) hread₂ hreaders₂]
      simp only [LoadedCache.readRecord, LoadedCache.validateEmbedded, LoadedCache.withMetadataRows, h₁.embedded,
        h₂.embedded, ← hrows, hmemory, hmanifest]

end directories

/-- The directory of a cache that was finished with some samples. -/
def FinishedDirectory (L : StorageLib) (dir : FileTree) (manifest : Manifest) : Prop :=
  ∃ path sourceName maxShardBytes compression b₀ b samples, ShardCompression.Valid compression ∧
    CacheBuilder.create false true path sourceName maxShardBytes compression = .ok b₀ ∧
    b₀.pushAll L samples = (b, .ok ()) ∧ b.finish L = (dir, .ok manifest)

theorem FinishedDirectory.loads {L : StorageLib} (hL : L.Lawful) {dir : FileTree} {manifest : Manifest}
    (h : FinishedDirectory L dir manifest) {fs : FileTree} {path : Path} (hfs : fs.sub path = dir) (hsized : fs.Sized)
    (position : ℕ) : ∃ cache, loadCache L fs path true position = .ok cache ∧
      cache.manifest = manifest.reread L.json.reread := by
  obtain ⟨builderPath, sourceName, maxShardBytes, compression, b₀, b, samples, hvalid, hcreate, hpush, hfinish⟩ := h
  obtain ⟨hinv₀, hcomp₀⟩ := CacheBuilder.inv_create (L := L) hcreate
  obtain ⟨history, hinv, -, hcomp⟩ := hinv₀.pushAll hpush
  obtain ⟨metadata, hfin⟩ := hinv.finish hfinish
  exact ⟨_, hfin.loadCache hL hinv (by rw [hcomp, hcomp₀]; exact hvalid) hfs hsized true position, rfl⟩

theorem mem_shards_reread {manifest : Manifest} {shard : ShardManifest} (h : shard ∈ manifest.fields.shards)
    (r : Float → Float) : shard.reread r ∈ (manifest.reread r).fields.shards := by
  cases manifest <;> exact List.mem_map_of_mem h

/-- One of the files that the manifest has a digest of is not what it was. -/
def Tampered (manifest : Manifest) (path : Path) (fs fs' : FileTree) : Prop :=
  fs'.read (path.join "metadata.arrow") ≠ fs.read (path.join "metadata.arrow") ∨
    fs'.read (path.join "index.bin") ≠ fs.read (path.join "index.bin") ∨
    ∃ shard ∈ manifest.fields.shards, fs'.read (shardPath path shard) ≠ fs.read (shardPath path shard)

theorem SameFiles.not_tampered {manifest : Manifest} {fs fs' : FileTree} {path : Path} {r : Float → Float}
    (h : SameFiles (manifest.reread r) fs fs' path path) : ¬ Tampered manifest path fs fs' := by
  rintro (hmetadata | hindex | ⟨shard, hshard, hread⟩)
  · obtain ⟨bytes, hbytes, hbytes'⟩ := h.metadata
    exact hmetadata (hbytes'.trans hbytes.symm)
  · obtain ⟨bytes, hbytes, hbytes'⟩ := h.index
    exact hindex (hbytes'.trans hbytes.symm)
  · obtain ⟨bytes, hbytes, hbytes'⟩ := h.shards _ (mem_shards_reread hshard r)
    exact hread (hbytes'.trans hbytes.symm)

/-- **Tamper evidence.**  Two directories with the same manifest that pass the validation have the same files, and
every read gives the same in both.  A finished cache in which a file was changed later does not pass. -/
theorem validated_load_tamper_evident {L : StorageLib} (hsha : Function.Injective L.sha256) :
    (∀ (fs₁ fs₂ : FileTree) (path₁ path₂ : Path) (position₁ position₂ : ℕ) (cache₁ cache₂ : LoadedCache),
      fs₁.read (path₁.join "manifest.json") = fs₂.read (path₂.join "manifest.json") →
      loadCache L fs₁ path₁ true position₁ = .ok cache₁ → loadCache L fs₂ path₂ true position₂ = .ok cache₂ →
      cache₁.manifest = cache₂.manifest ∧ SameFiles cache₁.manifest fs₁ fs₂ path₁ path₂ ∧
        ∀ i readers₁ readers₂, ShardReaderCache.Fresh fs₁ readers₁ → ShardReaderCache.Fresh fs₂ readers₂ →
          (cache₁.readSampleWithCache L fs₁ i readers₁).2 = (cache₂.readSampleWithCache L fs₂ i readers₂).2) ∧
    (L.Lawful → ∀ dir manifest, FinishedDirectory L dir manifest → ∀ (fs fs' : FileTree) (path : Path),
      fs.sub path = dir → fs.Sized → fs'.read (path.join "manifest.json") = fs.read (path.join "manifest.json") →
      Tampered manifest path fs fs' → ∀ position, ∃ error, loadCache L fs' path true position = .error error) := by
  constructor
  · intro fs₁ fs₂ path₁ path₂ position₁ position₂ cache₁ cache₂ hread h₁ h₂
    have hloaded₁ := loadedFrom_of_loadCache h₁
    have hloaded₂ := loadedFrom_of_loadCache h₂
    have hmanifest := manifest_eq_of_read hread hloaded₁.manifest hloaded₂.manifest
    have hsame := sameFiles_of_loaded hsha hmanifest hloaded₁ hloaded₂
    exact ⟨hmanifest, hsame, fun i readers₁ readers₂ hreaders₁ hreaders₂ =>
      reads_eq_of_sameFiles hmanifest hsame hloaded₁ hloaded₂ i hreaders₁ hreaders₂⟩
  · intro hL dir manifest hfinished fs fs' path hfs hsized hread htampered position
    cases hload : loadCache L fs' path true position with
    | error error => exact ⟨error, rfl⟩
    | ok cache' =>
        -- the finished cache passes too, so nothing was changed
        obtain ⟨cache, hcache, hmanifest⟩ := hfinished.loads hL hfs hsized position
        have hloaded := loadedFrom_of_loadCache hcache
        have hloaded' := loadedFrom_of_loadCache hload
        have heq := manifest_eq_of_read hread.symm hloaded.manifest hloaded'.manifest
        have hsame := sameFiles_of_loaded hsha heq hloaded hloaded'
        rw [hmanifest] at hsame
        exact absurd htampered hsame.not_tampered

namespace TwoShards

theorem sha256_injective : Function.Injective sha256 := by
  have hlength : ∀ e ∈ digests, e.2.length = 32 := by decide
  have hnodup : (digests.map Prod.snd).Nodup := by decide
  have hmem : ∀ {bytes digest : Bytes}, digests.lookup bytes = some digest → (bytes, digest) ∈ digests := by
    intro bytes digest h
    obtain ⟨before, after, heq, -⟩ := List.lookup_eq_some_iff.mp h
    rw [heq]
    simp
  have hlong : ∀ {bytes digest rest : Bytes}, digests.lookup bytes = some digest →
      digest ≠ List.replicate 33 0 ++ rest := by
    intro bytes digest rest h heq
    have hshort := hlength _ (hmem h)
    rw [heq, List.length_append, List.length_replicate] at hshort
    omega
  intro x y h
  simp only [sha256] at h
  cases hx : digests.lookup x with
  | none =>
      cases hy : digests.lookup y with
      | none =>
          rw [hx, hy] at h
          exact List.append_cancel_left h
      | some digest =>
          rw [hx, hy] at h
          exact absurd h.symm (hlong hy)
  | some digest =>
      cases hy : digests.lookup y with
      | none =>
          rw [hx, hy] at h
          exact absurd h (hlong hx)
      | some digest' =>
          rw [hx, hy] at h
          have hdigest : digest = digest' := h
          exact congrArg Prod.fst (List.inj_on_of_nodup_map hnodup (hmem hx) (hmem hy) hdigest)

/-- The same directory at another place. -/
def copy : FileTree := FileTree.empty.graft ["d"] dir

/-- The second shard has another payload. -/
def tampered : FileTree := fs.write ["c", "shards", "000001.bin"] (record 3)

theorem finished : FinishedDirectory lib dir manifest :=
  ⟨["c"], "s", 1, .none, _, builder, samples, trivial, rfl, pushAll_eq rfl, finish_eq⟩

end TwoShards

open TwoShards in
/-- Two copies of a cache with two samples give the same, and a third one with another payload is not loaded. -/
theorem validated_load_tamper_evident_two_shards :
    (∃ cache₁ cache₂, loadCache lib fs ["c"] true 0 = .ok cache₁ ∧ loadCache lib copy ["d"] true 1 = .ok cache₂ ∧
      cache₁.manifest.fields.sampleCount = 2 ∧ SameFiles cache₁.manifest fs copy ["c"] ["d"] ∧
      ∀ i, (cache₁.readSampleWithCache lib fs i .new).2 = (cache₂.readSampleWithCache lib copy i .new).2) ∧
    ∃ error, loadCache lib tampered ["c"] true 0 = .error error := by
  have hevident := validated_load_tamper_evident (L := lib) sha256_injective
  constructor
  · obtain ⟨cache₁, h₁, hmanifest⟩ := finished.loads lawful_lib (FileTree.sub_graft .empty ["c"] dir) sized_fs 0
    obtain ⟨cache₂, h₂, -⟩ := finished.loads lawful_lib (FileTree.sub_graft .empty ["d"] dir)
      (FileTree.sized_graft FileTree.sized_empty _ sized_dir) 1
    obtain ⟨-, hsame, hreads⟩ := hevident.1 fs copy ["c"] ["d"] 0 1 cache₁ cache₂ rfl h₁ h₂
    refine ⟨cache₁, cache₂, h₁, h₂, ?_, hsame, fun i => ?_⟩
    · rw [hmanifest]
      rfl
    · exact hreads i _ _ (ShardReaderCache.fresh_new _) (ShardReaderCache.fresh_new _)
  · refine hevident.2 lawful_lib dir manifest finished fs tampered ["c"] (FileTree.sub_graft .empty ["c"] dir) sized_fs
      rfl (.inr (.inr ⟨⟨shardName 1, 19, 19, .none, hexEncode (sha256 (record 2))⟩, ?_, fun h => ?_⟩)) 0
    · exact List.mem_cons_of_mem _ List.mem_cons_self
    · have hrecord : record 3 = record 2 := Option.some.inj h
      exact absurd hrecord (by decide)

end DatasetRt
