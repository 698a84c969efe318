import DatasetRt.DatasetStream

/-! # Identities and physical indices

A sample is named in two ways: by the identity `(cache_id, sample_id)` that its caches were stored with, and by its
place in the list of all samples, which plans use.  `physicalIndex` goes from the first to the second through a map
of identities, `locatePhysicalSample` goes back by a search over the offsets of the caches, several of which are
equal when a cache is empty.  `identity_physical_inverse` says that the two are inverse for every list of caches, and
that a direct read by identity (`load_sample_by_identity`) is the planned read of the same sample
(`load_planned_sample`). -/

namespace DatasetRt

/-! ### Reads -/

structure LoadedSample where
  data : Bytes
  metadata : Row
  cacheId : ℕ
  sampleId : ℕ

/-- A sample under its identity. -/
def CacheSample.identified (sample : CacheSample) (cacheId sampleId : ℕ) : LoadedSample :=
  ⟨sample.data, sample.metadata, cacheId, sampleId⟩

section reads

variable (L : StorageLib) (fs : FileTree) (pop : Population)

/-- The end of both reads: one sample of a cache through the open files of the thread. -/
def loadFrom (cache : LoadedCache) (sampleIndex : ℕ) (readers : ShardReaderCache) :
    ShardReaderCache × CacheResult LoadedSample :=
  match cache.readSampleWithCache L fs sampleIndex readers with
  | (readers, .error error) => (readers, .error error)
  | (readers, .ok sample) => (readers, .ok (sample.identified cache.cacheId sampleIndex))

/-- `load_planned_sample` (`runtime.rs`). -/
def loadPlannedSample (physical : ℕ) (readers : ShardReaderCache) : ShardReaderCache × CacheResult LoadedSample :=
  match locatePhysicalSample pop physical with
  | .error error => (readers, .error error)
  | .ok (cacheIndex, sampleIndex) =>
      match pop.caches[cacheIndex]? with
      | none => (readers, .error (.invalidCache "cache id is out of range"))
      | some cache => loadFrom L fs cache sampleIndex readers

/-- `load_sample_by_identity` (`runtime.rs`), with the open files of the calling thread. -/
def loadSampleByIdentity (cacheId sampleId : ℕ) (readers : ShardReaderCache) :
    ShardReaderCache × CacheResult LoadedSample :=
  match pop.cacheLookup.lookup cacheId with
  | none => (readers, .error (.invalidInput s!"cache_id {cacheId} is out of range"))
  | some cacheIndex =>
      match pop.caches[cacheIndex]? with
      | none => (readers, .error (.invalidInput s!"cache_id {cacheId} is out of range"))
      | some cache =>
          if cache.sampleCount ≤ sampleId then
            (readers, .error (.invalidInput s!"sample_id {sampleId} is out of range for cache_id {cacheId}"))
          else loadFrom L fs cache sampleId readers

end reads

/-- Open files of an unchanged tree do not change what is read. -/
theorem LoadedCache.readSampleWithCache_of_fresh {L : StorageLib} {fs : FileTree} (cache : LoadedCache)
    (sampleIndex : ℕ) {readers readers' : ShardReaderCache} (h : readers.Fresh fs) (h' : readers'.Fresh fs) :
    (cache.readSampleWithCache L fs sampleIndex readers).2 =
      (cache.readSampleWithCache L fs sampleIndex readers').2 := by
  unfold readSampleWithCache
  cases cache.locateRecord sampleIndex with
  | error error => rfl
  | ok located =>
      obtain ⟨entry, shard, stop⟩ := located
      have hopen := (ShardReaderCache.readerFor_of_fresh h (shardPath cache.path shard)).1
      have hopen' := (ShardReaderCache.readerFor_of_fresh h' (shardPath cache.path shard)).1
      simp only
      rcases hfor : readers.readerFor fs (shardPath cache.path shard) with ⟨next, result⟩
      rcases hfor' : readers'.readerFor fs (shardPath cache.path shard) with ⟨next', result'⟩
      rw [hfor] at hopen
      rw [hfor'] at hopen'
      obtain rfl : result = result' := hopen.trans hopen'.symm
      cases result with
      | error error => rfl
      | ok file => rfl

theorem loadFrom_of_fresh {L : StorageLib} {fs : FileTree} (cache : LoadedCache) (sampleIndex : ℕ)
    {readers readers' : ShardReaderCache} (h : readers.Fresh fs) (h' : readers'.Fresh fs) :
    (loadFrom L fs cache sampleIndex readers).2 = (loadFrom L fs cache sampleIndex readers').2 := by
  have hread := cache.readSampleWithCache_of_fresh (L := L) sampleIndex h h'
  unfold loadFrom
  rcases hone : cache.readSampleWithCache L fs sampleIndex readers with ⟨next, result⟩
  rcases hother : cache.readSampleWithCache L fs sampleIndex readers' with ⟨next', result'⟩
  rw [hone, hother] at hread
  obtain rfl : result = result' := hread
  cases result with
  | error error => rfl
  | ok sample => rfl

/-! ### The map of identities -/

theorem cacheLookupFrom_of_nodup : ∀ {caches : List LoadedCache} {lookup : AList fun _ : ℕ => ℕ} {position : ℕ},
    (caches.map LoadedCache.cacheId).Nodup → (∀ cache ∈ caches, lookup.lookup cache.cacheId = none) →
    ∃ result, cacheLookupFrom lookup position caches = .ok result
  | [], lookup, position, _, _ => ⟨lookup, rfl⟩
  | cache :: rest, lookup, position, hnodup, hfresh => by
      rw [List.map_cons, List.nodup_cons] at hnodup
      rw [cacheLookupFrom, hfresh cache List.mem_cons_self, if_neg (by decide)]
      refine cacheLookupFrom_of_nodup hnodup.2 fun other hother => ?_
      rw [AList.lookup_insert_ne]
      · exact hfresh other (List.mem_cons_of_mem _ hother)
      · exact fun heq => hnodup.1 (List.mem_map.mpr ⟨other, hother, heq⟩)

theorem mem_of_cacheLookupFrom : ∀ {caches : List LoadedCache} {lookup result : AList fun _ : ℕ => ℕ}
    {position : ℕ}, cacheLookupFrom lookup position caches = .ok result →
    ∀ id i, result.lookup id = some i → lookup.lookup id = some i ∨
      ∃ (j : ℕ) (cache : LoadedCache), caches[j]? = some cache ∧ cache.cacheId = id ∧ i = position + j
  | [], lookup, result, position, h, id, i, hi => by
      cases h
      exact .inl hi
  | cache :: rest, lookup, result, position, h, id, i, hi => by
      unfold cacheLookupFrom at h
      split_ifs at h
      rcases mem_of_cacheLookupFrom h id i hi with hold | ⟨j, found, hj, hid, rfl⟩
      · by_cases hid : id = cache.cacheId
        · subst hid
          rw [AList.lookup_insert, Option.some.injEq] at hold
          exact .inr ⟨0, cache, rfl, rfl, hold.symm⟩
        · rw [AList.lookup_insert_ne hid] at hold
          exact .inl hold
      · exact .inr ⟨j + 1, found, by simpa using hj, hid, by omega⟩

/-! ### Both ways -/

/-- An identity that names a sample. -/
def Population.Names (pop : Population) (cacheId sampleId : ℕ) : Prop :=
  ∃ (i : ℕ) (cache : LoadedCache), pop.caches[i]? = some cache ∧ cache.cacheId = cacheId ∧ sampleId < cache.sampleCount

namespace Population.Valid

variable {pop : Population} {total : ℕ}

theorem eq_of_locate (h : pop.Valid total) {physical i j : ℕ} (hlocate : locatePhysicalSample pop physical = .ok (i, j)) :
    ∃ cache, pop.caches[i]? = some cache ∧ j < cache.sampleCount ∧
      physical = ((pop.caches.map LoadedCache.sampleCount).take i).sum + j := by
  unfold locatePhysicalSample at hlocate
  split at hlocate
  · cases hlocate
  · obtain ⟨offset, hoffset, hlocate⟩ := bind_eq_ok hlocate
    split_ifs at hlocate with hbefore
    obtain ⟨cache, hcache, hlocate⟩ := bind_eq_ok hlocate
    split_ifs at hlocate with hcount
    cases hlocate
    rw [okOr_eq_ok] at hoffset hcache
    rw [h.offset (List.getElem?_eq_some_iff.mp hcache).1, Option.some.injEq] at hoffset
    exact ⟨cache, hcache, Nat.not_le.mp hcount, by omega⟩

theorem locate_error_iff (h : pop.Valid total) (physical : ℕ) :
    (∃ error, locatePhysicalSample pop physical = .error error) ↔ total ≤ physical := by
  constructor
  · rintro ⟨error, herror⟩
    by_contra hlt
    obtain ⟨location, hlocation⟩ := h.locate (Nat.not_le.mp hlt)
    rw [hlocation] at herror
    cases herror
  · intro hge
    cases hlocate : locatePhysicalSample pop physical with
    | error error => exact ⟨error, rfl⟩
    | ok location =>
        obtain ⟨cache, hcache, hj, rfl⟩ := h.eq_of_locate hlocate
        have hlt := h.offset_add_lt hcache hj
        omega

theorem lookup_eq (h : pop.Valid total) {id i : ℕ} (hi : pop.cacheLookup.lookup id = some i) :
    ∃ cache, pop.caches[i]? = some cache ∧ cache.cacheId = id := by
  rcases mem_of_cacheLookupFrom h.lookup id i hi with hempty | ⟨j, cache, hj, hid, rfl⟩
  · rw [AList.lookup_empty] at hempty
    cases hempty
  · exact ⟨cache, by rwa [Nat.zero_add], hid⟩

theorem lookup_of_getElem? (h : pop.Valid total) {i : ℕ} {cache : LoadedCache} (hi : pop.caches[i]? = some cache) :
    pop.cacheLookup.lookup cache.cacheId = some i := by
  have hlookup := (cacheLookupFrom_ok h.lookup).2 i cache hi
  rwa [Nat.zero_add] at hlookup

/-- An identity that names no sample is rejected by both. -/
theorem rejected (h : pop.Valid total) {cacheId sampleId : ℕ} (hnot : ¬ pop.Names cacheId sampleId) :
    (∃ error, physicalIndex pop cacheId sampleId = .error error) ∧
      ∀ L fs readers, ∃ error, loadSampleByIdentity L fs pop cacheId sampleId readers = (readers, .error error) := by
  cases hlookup : pop.cacheLookup.lookup cacheId with
  | none =>
      refine ⟨⟨_, by simp only [physicalIndex, hlookup, okOr]; rfl⟩, fun L fs readers => ?_⟩
      rw [loadSampleByIdentity, hlookup]
      exact ⟨_, rfl⟩
  | some i =>
      obtain ⟨cache, hi, hid⟩ := h.lookup_eq hlookup
      have hcount : cache.sampleCount ≤ sampleId := by
        by_contra hlt
        exact hnot ⟨i, cache, hi, hid, Nat.not_le.mp hlt⟩
      refine ⟨⟨_, by simp only [physicalIndex, hlookup, hi, okOr, bind, Except.bind, if_pos hcount]; rfl⟩,
        fun L fs readers => ?_⟩
      simp only [loadSampleByIdentity, hlookup, hi, if_pos hcount]
      exact ⟨_, rfl⟩

/-- The read by identity is the planned read at the physical index. -/
theorem loadSampleByIdentity_eq (h : pop.Valid total) {i : ℕ} {cache : LoadedCache} (hi : pop.caches[i]? = some cache)
    {j : ℕ} (hj : j < cache.sampleCount) (L : StorageLib) (fs : FileTree) (readers readers' : ShardReaderCache) :
    loadSampleByIdentity L fs pop cache.cacheId j readers = loadFrom L fs cache j readers ∧
      loadPlannedSample L fs pop (((pop.caches.map LoadedCache.sampleCount).take i).sum + j) readers' =
        loadFrom L fs cache j readers' := by
  constructor
  · simp only [loadSampleByIdentity, h.lookup_of_getElem? hi, hi, if_neg (Nat.not_le.mpr hj)]
  · simp only [loadPlannedSample, h.locate_eq hi hj, hi]

theorem physicalIndex_bijOn (h : pop.Valid total) :
    Set.BijOn (fun p : ℕ × ℕ => physicalIndex pop p.1 p.2) {p | pop.Names p.1 p.2} (Except.ok '' Set.Iio total) := by
  refine ⟨?_, ?_, ?_⟩
  · rintro ⟨cacheId, sampleId⟩ ⟨i, cache, hi, rfl, hj⟩
    exact ⟨_, h.offset_add_lt hi hj, (h.physicalIndex_eq hi hj).symm⟩
  · rintro ⟨cacheId, sampleId⟩ ⟨i, cache, hi, rfl, hj⟩ ⟨cacheId', sampleId'⟩ ⟨i', cache', hi', rfl, hj'⟩ heq
    simp only [h.physicalIndex_eq hi hj, h.physicalIndex_eq hi' hj', Except.ok.injEq] at heq
    -- both are located at the same place
    have hlocate := h.locate_eq hi hj
    rw [heq, h.locate_eq hi' hj', Except.ok.injEq, Prod.mk.injEq] at hlocate
    obtain ⟨rfl, rfl⟩ := hlocate
    obtain rfl : cache = cache' := Option.some.inj (hi.symm.trans hi')
    rfl
  · rintro _ ⟨physical, hlt, rfl⟩
    obtain ⟨⟨i, j⟩, hlocate⟩ := h.locate hlt
    obtain ⟨cache, hi, hj, rfl⟩ := h.eq_of_locate hlocate
    exact ⟨(cache.cacheId, j), ⟨i, cache, hi, rfl, hj⟩, h.physicalIndex_eq hi hj⟩

end Population.Valid

/-- **Identities and physical indices are inverse.**  For every list of caches with distinct identities whose samples
can be counted in a word, empty caches included: the map of identities is built, `physicalIndex` is a bijection from
the identities of samples onto the numbers below `total`, `locatePhysicalSample` is its inverse and fails exactly from
`total` on, a direct read is the planned read at the physical index, through the same open files and through those
of another thread as long as the files are unchanged, and an identity that names no sample is rejected. -/
theorem identity_physical_inverse {caches : List LoadedCache} (hdistinct : (caches.map LoadedCache.cacheId).Nodup)
    {offsets : List ℕ} {total : ℕ} (hoffsets : collectCacheOffsets caches = .ok (offsets, total))
    (schema : List MetadataField) :
    ∃ lookup, cacheLookup caches = .ok lookup ∧ ∀ pop : Population, pop = ⟨caches, offsets, lookup, schema⟩ →
      Set.BijOn (fun p : ℕ × ℕ => physicalIndex pop p.1 p.2) {p | pop.Names p.1 p.2} (Except.ok '' Set.Iio total) ∧
      (∀ (i : ℕ) (cache : LoadedCache) (j : ℕ), caches[i]? = some cache → j < cache.sampleCount →
        ∃ physical, physicalIndex pop cache.cacheId j = .ok physical ∧
          locatePhysicalSample pop physical = .ok (i, j) ∧
          (∀ L fs readers, loadSampleByIdentity L fs pop cache.cacheId j readers =
            loadPlannedSample L fs pop physical readers) ∧
          ∀ L fs readers readers', readers.Fresh fs → readers'.Fresh fs →
            (loadSampleByIdentity L fs pop cache.cacheId j readers).2 =
              (loadPlannedSample L fs pop physical readers').2) ∧
      (∀ physical, (∃ error, locatePhysicalSample pop physical = .error error) ↔ total ≤ physical) ∧
      ∀ cacheId sampleId, ¬ pop.Names cacheId sampleId →
        (∃ error, physicalIndex pop cacheId sampleId = .error error) ∧
          ∀ L fs readers, ∃ error, loadSampleByIdentity L fs pop cacheId sampleId readers = (readers, .error error) := by
  obtain ⟨lookup, hlookup⟩ : ∃ lookup, cacheLookup caches = .ok lookup :=
    cacheLookupFrom_of_nodup hdistinct fun cache _ => AList.lookup_empty _
  refine ⟨lookup, hlookup, ?_⟩
  rintro pop rfl
  have h : Population.Valid ⟨caches, offsets, lookup, schema⟩ total := ⟨okOr_eq_ok.mp hoffsets, hlookup⟩
  refine ⟨h.physicalIndex_bijOn, fun i cache j hi hj => ?_, h.locate_error_iff, fun cacheId sampleId => h.rejected⟩
  refine ⟨_, h.physicalIndex_eq hi hj, h.locate_eq hi hj, fun L fs readers => ?_,
    fun L fs readers readers' hfresh hfresh' => ?_⟩
  · obtain ⟨hdirect, hplanned⟩ := h.loadSampleByIdentity_eq hi hj L fs readers readers
    rw [hdirect, hplanned]
  · obtain ⟨hdirect, hplanned⟩ := h.loadSampleByIdentity_eq hi hj L fs readers readers'
    rw [hdirect, hplanned]
    exact loadFrom_of_fresh cache j hfresh hfresh'

/-- A cache of `count` samples. -/
def countedCache (cacheId count : ℕ) : LoadedCache where
  cacheId
  manifest := .v3 cacheId ⟨"s", count, [], "", "", [], ∅⟩
  metadataRows := none
  index := ⟨List.replicate (24 * count) 0⟩
  path := ["c"]
  validateEmbeddedMetadata := false

/-- Two of three caches have samples; the offsets of the last two are equal. -/
theorem identity_physical_inverse_empty_cache :
    ∃ lookup, cacheLookup [countedCache 7 1, countedCache 3 0, countedCache 5 2] = .ok lookup ∧
      physicalIndex ⟨[countedCache 7 1, countedCache 3 0, countedCache 5 2], [0, 1, 1], lookup, []⟩ 5 0 = .ok 1 ∧
      locatePhysicalSample ⟨[countedCache 7 1, countedCache 3 0, countedCache 5 2], [0, 1, 1], lookup, []⟩ 1 =
        .ok (2, 0) := by
  obtain ⟨lookup, hlookup, hall⟩ := identity_physical_inverse
    (show ([countedCache 7 1, countedCache 3 0, countedCache 5 2].map LoadedCache.cacheId).Nodup by decide)
    (show collectCacheOffsets [countedCache 7 1, countedCache 3 0, countedCache 5 2] = .ok ([0, 1, 1], 3) from rfl) []
  obtain ⟨-, hsample, -, -⟩ := hall _ rfl
  obtain ⟨physical, hphysical, hlocate, -⟩ := hsample 2 (countedCache 5 2) 0 rfl (by decide)
  refine ⟨lookup, hlookup, ?_⟩
  obtain rfl := Except.ok.inj (hlookup : Except.ok _ = Except.ok lookup)
  obtain rfl : 1 = physical := Except.ok.inj (hphysical : Except.ok 1 = Except.ok physical)
  exact ⟨hphysical, hlocate⟩

end DatasetRt
