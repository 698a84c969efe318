import DatasetRt.DatasetState

/-! # The stream of a dataset

What every reachable state of a dataset keeps: a population that is not empty, a cursor inside
it, and physical indices that name samples.  Every plan made from such a state is total, and the
only thing that can stop a plan is the end of the draw numbers. -/

namespace DatasetRt

/-- What the documentation of `rand` promises. -/
structure RandLib.Lawful (R : RandLib) : Prop where
  genRange_lt : ∀ seed n, 0 < n → R.genRange seed n < n
  /-- Positive finite weights with a finite total are accepted. -/
  weightedIndex : ∀ weights, weights ≠ [] → WeightsOk 0.0 weights →
    ∃ distribution, R.weightedIndex weights = .ok distribution
  sample_lt : ∀ weights distribution seed, R.weightedIndex weights = .ok distribution →
    R.sample distribution seed < weights.length

theorem RandLib.lawful_first : RandLib.first.Lawful where
  genRange_lt := fun _ _ h => h
  weightedIndex := fun weights hne _ => ⟨weights, if_neg hne⟩
  sample_lt := by
    intro weights distribution seed h
    rcases weights with _ | ⟨w, weights⟩
    · cases h
    · exact Nat.succ_pos _

/-! ### The population -/

theorem cacheLookupFrom_ok : ∀ {caches : List LoadedCache} {lookup result : AList fun _ : ℕ => ℕ} {position : ℕ},
    cacheLookupFrom lookup position caches = .ok result →
    (∀ id i, lookup.lookup id = some i → result.lookup id = some i) ∧
      ∀ i cache, caches[i]? = some cache → result.lookup cache.cacheId = some (position + i)
  | [], lookup, result, position, h => by
      cases h
      exact ⟨fun id i hi => hi, fun i cache hi => by simp at hi⟩
  | first :: rest, lookup, result, position, h => by
      unfold cacheLookupFrom at h
      split_ifs at h with hseen
      obtain ⟨hkeep, hrest⟩ := cacheLookupFrom_ok h
      refine ⟨fun id i hi => hkeep id i ?_, fun i cache hi => ?_⟩
      · rw [AList.lookup_insert_ne, hi]
        rintro rfl
        rw [hi] at hseen
        exact hseen rfl
      · cases i with
        | zero =>
            obtain rfl : first = cache := by simpa using hi
            exact hkeep _ _ (AList.lookup_insert _)
        | succ i =>
            rw [hrest i cache (by simpa using hi), Nat.add_assoc, Nat.add_comm 1 i]

/-- A population whose offsets were computed from its caches. -/
structure Population.Valid (pop : Population) (total : ℕ) : Prop where
  offsets : Segments.offsets wordSize 0 (pop.caches.map LoadedCache.sampleCount) =
    some (pop.cacheOffsets, total)
  lookup : DatasetRt.cacheLookup pop.caches = .ok pop.cacheLookup

namespace Population.Valid

variable {pop : Population} {total : ℕ}

theorem total_lt (h : pop.Valid total) : total < wordSize :=
  Segments.total_lt_bound (by norm_num [wordSize]) h.offsets

theorem total_eq (h : pop.Valid total) : total = (pop.caches.map LoadedCache.sampleCount).sum := by
  simpa using Segments.total_offsets h.offsets

/-- The offset of cache `i`. -/
theorem offset (h : pop.Valid total) {i : ℕ} (hi : i < pop.caches.length) :
    pop.cacheOffsets[i]? = some (((pop.caches.map LoadedCache.sampleCount).take i).sum) := by
  simpa using Segments.getElem?_offsets h.offsets (i := i) (by simpa using hi)

theorem offset_add_lt (h : pop.Valid total) {i : ℕ} {cache : LoadedCache} (hi : pop.caches[i]? = some cache)
    {j : ℕ} (hj : j < cache.sampleCount) :
    ((pop.caches.map LoadedCache.sampleCount).take i).sum + j < total := by
  obtain ⟨hlt, rfl⟩ := List.getElem?_eq_some_iff.mp hi
  rw [h.total_eq]
  have hsplit := congrArg List.sum
    (List.take_append_drop (i + 1) (pop.caches.map LoadedCache.sampleCount))
  rw [List.sum_append, List.take_add_one, List.sum_append] at hsplit
  simp only [List.getElem?_map, List.getElem?_eq_getElem hlt, Option.map_some, Option.toList_some,
    List.sum_singleton] at hsplit
  omega

theorem locate_eq (h : pop.Valid total) {i : ℕ} {cache : LoadedCache} (hi : pop.caches[i]? = some cache) {j : ℕ}
    (hj : j < cache.sampleCount) :
    locatePhysicalSample pop (((pop.caches.map LoadedCache.sampleCount).take i).sum + j) = .ok (i, j) := by
  have hlt := (List.getElem?_eq_some_iff.mp hi).1
  have hpoint := Segments.partitionPoint_offsets h.offsets (by rw [List.getElem?_map, hi]; rfl) hj
  rw [Nat.zero_add] at hpoint
  have hge : ¬ ((pop.caches.map LoadedCache.sampleCount).take i).sum + j <
      ((pop.caches.map LoadedCache.sampleCount).take i).sum := by omega
  have hsub : ((pop.caches.map LoadedCache.sampleCount).take i).sum + j -
      ((pop.caches.map LoadedCache.sampleCount).take i).sum = j := by omega
  simp only [locatePhysicalSample, hpoint, h.offset hlt, okOr, bind, Except.bind, hi, hsub, hge, if_false]
  rw [if_neg (Nat.not_le.mpr hj)]

theorem locate (h : pop.Valid total) {physical : ℕ} (hp : physical < total) :
    ∃ location, locatePhysicalSample pop physical = .ok location := by
  rw [h.total_eq] at hp
  obtain ⟨i, len, j, hi, hj, rfl⟩ := Segments.exists_segment hp
  rw [List.getElem?_map, Option.map_eq_some_iff] at hi
  obtain ⟨cache, hcache, rfl⟩ := hi
  exact ⟨(i, j), h.locate_eq hcache hj⟩

theorem physicalIndex_lt (h : pop.Valid total) {cacheId sampleId physical : ℕ}
    (hp : physicalIndex pop cacheId sampleId = .ok physical) : physical < total := by
  obtain ⟨cacheIndex, -, hp⟩ := bind_eq_ok hp
  obtain ⟨cache, hcache, hp⟩ := bind_eq_ok hp
  rw [okOr_eq_ok] at hcache
  split_ifs at hp with hcount
  obtain ⟨offset, hoffset, hp⟩ := bind_eq_ok hp
  rw [okOr_eq_ok] at hoffset hp
  obtain ⟨-, rfl⟩ := checkedAdd_eq_some.mp hp
  rw [h.offset (List.getElem?_eq_some_iff.mp hcache).1, Option.some.injEq] at hoffset
  rw [← hoffset]
  exact h.offset_add_lt hcache (Nat.not_le.mp hcount)

/-- The identity of a sample leads to its physical index. -/
theorem physicalIndex_eq (h : pop.Valid total) {i : ℕ} {cache : LoadedCache} (hi : pop.caches[i]? = some cache)
    {j : ℕ} (hj : j < cache.sampleCount) :
    physicalIndex pop cache.cacheId j =
      .ok (((pop.caches.map LoadedCache.sampleCount).take i).sum + j) := by
  have hlookup := (cacheLookupFrom_ok h.lookup).2 i cache hi
  rw [Nat.zero_add] at hlookup
  have hlt := h.offset_add_lt hi hj
  have hadd : checkedAdd (((pop.caches.map LoadedCache.sampleCount).take i).sum) j =
      some (((pop.caches.map LoadedCache.sampleCount).take i).sum + j) :=
    checkedAdd_eq_some.mpr ⟨hlt.trans h.total_lt, rfl⟩
  simp only [physicalIndex, hlookup, hi, okOr, bind, Except.bind, Nat.not_le.mpr hj, if_false,
    h.offset (List.getElem?_eq_some_iff.mp hi).1, hadd]

end Population.Valid

/-! ### Accepted tables -/

/-- What an accepted table is. -/
structure ActiveMetadataTable.Valid (t : ActiveMetadataTable) (total : ℕ) : Prop where
  physical_length : t.physicalIndices.length = t.metadata.len
  weights_length : t.weights.length = t.metadata.len
  nonempty : 1 ≤ t.metadata.len
  len_lt : t.metadata.len < wordSize
  physical_lt : ∀ physical ∈ t.physicalIndices, physical < total
  weights : WeightsOk 0.0 t.weights

theorem ArrowMetadata.new_ok {schema : List Field} {batches : List RecordBatch} {table : ArrowMetadata}
    (h : ArrowMetadata.new schema batches = .ok table) :
    Segments.offsets wordSize 0 (batches.map RecordBatch.numRows) = some (table.offsets, table.rows) ∧
      table.batches = batches ∧ table.selection = none := by
  obtain ⟨⟨offsets, rows⟩, hoffsets, h⟩ := bind_eq_ok h
  cases h
  exact ⟨okOr_eq_ok.mp hoffsets, rfl, rfl⟩

theorem ArrowMetadata.len_lt_of_toArrow {t : Dataset.ImportedTable} {table : ArrowMetadata}
    (h : t.toArrow = .ok table) : table.len < wordSize := by
  obtain ⟨base, hbase, h⟩ := bind_eq_ok h
  obtain ⟨hoffsets, -, hnone⟩ := new_ok hbase
  cases hsel : t.selection with
  | none =>
      rw [hsel] at h
      cases h
      rw [ArrowMetadata.len, hnone]
      exact Segments.total_lt_bound (by norm_num [wordSize]) hoffsets
  | some selection =>
      rw [hsel] at h
      simp only [select] at h
      split_ifs at h
      cases h
      simpa [ArrowMetadata.len] using selection.2

theorem readUpdate_lt {pop : Population} {total : ℕ} (hpop : pop.Valid total) {columns : IdentityColumns}
    {row : ℕ} {update : ℕ × Float} (h : readUpdate pop columns row = .ok update) : update.1 < total := by
  obtain ⟨cacheId, -, h⟩ := bind_eq_ok h
  obtain ⟨sampleId, -, h⟩ := bind_eq_ok h
  obtain ⟨weight, -, h⟩ := bind_eq_ok h
  obtain ⟨physical, hphysical, h⟩ := bind_eq_ok h
  cases h
  exact hpop.physicalIndex_lt hphysical

theorem validateActiveMetadata_ok {rowCount : ℕ} (h : validateActiveMetadata rowCount = .ok ()) :
    1 ≤ rowCount := by
  unfold validateActiveMetadata at h
  split_ifs at h with hzero
  omega

theorem extractMetadataArrow_valid {pop : Population} {total : ℕ} (hpop : pop.Valid total)
    {table : ArrowMetadata} (hlt : table.len < wordSize) {active : ActiveMetadataTable}
    (h : extractMetadataArrow pop table = .ok active) : active.Valid total := by
  obtain ⟨⟨⟩, hactive, h⟩ := bind_eq_ok h
  obtain ⟨columns, -, h⟩ := bind_eq_ok h
  obtain ⟨updates, hupdates, h⟩ := bind_eq_ok h
  obtain ⟨⟨⟩, hweights, h⟩ := bind_eq_ok h
  cases h
  have hall := mapM_eq_ok_iff.mp hupdates
  have hlen : updates.length = table.len := by simpa using hall.length_eq.symm
  refine ⟨by simpa using hlen, by simpa using hlen, validateActiveMetadata_ok hactive, hlt, ?_,
    (validateWeights_ok.mp hweights).2⟩
  intro physical hp
  obtain ⟨update, hu, rfl⟩ := List.mem_map.mp hp
  obtain ⟨j, hj, rfl⟩ := List.getElem_of_mem hu
  have hrow := (mapM_eq_ok_iff_getElem.mp hupdates).2 j (by simpa [hlen] using hj) hj
  obtain ⟨location, -, hrow⟩ := bind_eq_ok hrow
  obtain ⟨batch, -, hrow⟩ := bind_eq_ok hrow
  exact readUpdate_lt hpop hrow

theorem applyMetadataBatches_ok {pop : Population} {total : ℕ} (hpop : pop.Valid total) :
    ∀ {batches : List RecordBatch} {start rowCount : ℕ} {updates : List (ℕ × Float)},
    applyMetadataBatches pop start batches = .ok (rowCount, updates) →
    rowCount = start + updates.length ∧ (∀ update ∈ updates, update.1 < total) ∧
      ∃ offsets, Segments.offsets wordSize start (batches.map RecordBatch.numRows) = some (offsets, rowCount)
  | [], start, rowCount, updates, h => by
      cases h
      exact ⟨by simp, by simp, [], rfl⟩
  | batch :: rest, start, rowCount, updates, h => by
      obtain ⟨next, hnext, h⟩ := bind_eq_ok h
      obtain ⟨first, hfirst, h⟩ := bind_eq_ok h
      obtain ⟨⟨stop, others⟩, hothers, h⟩ := bind_eq_ok h
      cases h
      obtain ⟨hlt, rfl⟩ := checkedAdd_eq_some.mp (okOr_eq_ok.mp hnext)
      obtain ⟨hcount, hall, offsets, hoffsets⟩ := applyMetadataBatches_ok hpop hothers
      obtain ⟨⟨⟩, -, hfirst⟩ := bind_eq_ok hfirst
      obtain ⟨columns, -, hfirst⟩ := bind_eq_ok hfirst
      obtain ⟨hlen, hrows⟩ := mapM_eq_ok_iff_getElem.mp hfirst
      rw [List.length_range] at hlen
      refine ⟨by rw [List.length_append, hcount]; omega, fun update hu => ?_, start :: offsets, ?_⟩
      · rcases List.mem_append.mp hu with hu | hu
        · obtain ⟨j, hj, rfl⟩ := List.getElem_of_mem hu
          exact readUpdate_lt hpop (hrows j (by simpa [hlen] using hj) hj)
        · exact hall update hu
      · simp [Segments.offsets, hlt, hoffsets]

theorem extractMetadataIpc_valid {A : ArrowLib} {pop : Population} {total : ℕ} (hpop : pop.Valid total)
    {ipc : Bytes} {active : ActiveMetadataTable} (h : extractMetadataIpc A pop ipc = .ok active) :
    active.Valid total := by
  obtain ⟨⟨schema, batches⟩, -, h⟩ := bind_eq_ok h
  obtain ⟨⟨rowCount, updates⟩, hupdates, h⟩ := bind_eq_ok h
  obtain ⟨⟨⟩, hactive, h⟩ := bind_eq_ok h
  obtain ⟨⟨⟩, hweights, h⟩ := bind_eq_ok h
  obtain ⟨metadata, hmetadata, h⟩ := bind_eq_ok h
  cases h
  obtain ⟨hcount, hall, offsets, hoffsets⟩ := applyMetadataBatches_ok hpop hupdates
  obtain ⟨hoffsets', -, hnone⟩ := ArrowMetadata.new_ok hmetadata
  rw [hoffsets', Option.some.injEq, Prod.mk.injEq] at hoffsets
  have hlen : metadata.len = rowCount := by rw [ArrowMetadata.len, hnone]; exact hoffsets.2
  have hupdate : updates.length = metadata.len := by omega
  refine ⟨by simpa using hupdate, by simpa using hupdate, ?_, ?_, ?_, (validateWeights_ok.mp hweights).2⟩
  · rw [hlen]
    exact validateActiveMetadata_ok hactive
  · rw [hlen, ← hoffsets.2]
    exact Segments.total_lt_bound (by norm_num [wordSize]) hoffsets'
  · intro physical hp
    obtain ⟨update, hu, rfl⟩ := List.mem_map.mp hp
    exact hall update hu

/-! ### The state -/

/-- What every reachable state keeps. -/
structure MutableDatasetState.Inv (s : MutableDatasetState) (d : Dataset) : Prop where
  cursor : s.sequentialOffset < d.activeLen s.active
  table : ∀ t, s.active = .table t → t.Valid d.totalSamples

/-- A dataset as `load` builds it. -/
structure Dataset.Valid (d : Dataset) : Prop where
  pop : d.pop.Valid d.totalSamples
  nonempty : 1 ≤ d.totalSamples

namespace Dataset

theorem valid_of_load {loadCaches : List Path → CacheResult (List LoadedCache)} {paths : List Path}
    {seed : BitVec 64} {prefetchSize : ℕ} {numWorkers : Positive} {shuffle : Bool} {d : Dataset}
    {s : MutableDatasetState}
    (h : load loadCaches paths seed prefetchSize numWorkers shuffle = .ok (d, s)) :
    d.Valid ∧ s.Inv d := by
  unfold load at h
  split_ifs at h with hpaths
  obtain ⟨prefetch, -, h⟩ := bind_eq_ok h
  obtain ⟨caches, -, h⟩ := bind_eq_ok h
  obtain ⟨lookup, hlookup, h⟩ := bind_eq_ok h
  obtain ⟨schema, -, h⟩ := bind_eq_ok h
  obtain ⟨⟨offsets, total⟩, hoffsets, h⟩ := bind_eq_ok h
  simp only at h
  split_ifs at h with hzero
  obtain ⟨epochLen, -, h⟩ := bind_eq_ok h
  cases h
  refine ⟨⟨⟨okOr_eq_ok.mp hoffsets, hlookup⟩, Nat.one_le_iff_ne_zero.mpr hzero⟩,
    Nat.pos_of_ne_zero hzero, fun t ht => nomatch ht⟩

variable {d : Dataset} {s : MutableDatasetState}

theorem activeLen_bounds (hd : d.Valid) (hs : s.Inv d) :
    1 ≤ d.activeLen s.active ∧ d.activeLen s.active < wordSize := by
  cases hactive : s.active with
  | full => exact ⟨hd.nonempty, hd.pop.total_lt⟩
  | table t =>
      have ht := hs.table t hactive
      rw [activeLen, ht.physical_length]
      exact ⟨ht.nonempty, ht.len_lt⟩

theorem advanceCyclicOffset_lt (step : ℕ) {start populationLen : ℕ} (hstart : start < populationLen)
    (hlen : populationLen < wordSize) :
    ∃ next, advanceCyclicOffset start step populationLen = .ok next ∧ next < populationLen := by
  have hmod : step % populationLen < populationLen := Nat.mod_lt _ (by omega)
  unfold advanceCyclicOffset
  rw [if_neg (by omega)]
  simp only
  split_ifs with hwrap
  · exact ⟨_, rfl, by omega⟩
  · refine ⟨_, rfl, ?_⟩
    rw [Nat.mod_eq_of_lt (by omega)]
    omega

theorem physical_lt (hs : s.Inv d) {row : ℕ} (hrow : row < d.activeLen s.active) :
    ∃ physical, EpochPlan.physical (activePhysicalIndices s.active) row = some physical ∧
      physical < d.totalSamples := by
  cases hactive : s.active with
  | full =>
      rw [hactive] at hrow
      exact ⟨row, rfl, hrow⟩
  | table t =>
      rw [hactive] at hrow
      have hlt : row < t.physicalIndices.length := hrow
      exact ⟨t.physicalIndices[row], List.getElem?_eq_getElem hlt,
        (hs.table t hactive).physical_lt _ (List.getElem_mem hlt)⟩

theorem wrappingAddMod_lt (offset : ℕ) {start modulo : ℕ} (hstart : start < modulo) (hmodulo : modulo < wordSize) :
    ∃ row, wrappingAddMod start offset modulo = some row ∧ row < modulo := by
  have hmod : offset % modulo < modulo := Nat.mod_lt _ (by omega)
  unfold wrappingAddMod
  rw [if_neg (by omega)]
  simp only
  split_ifs with hwrap
  · exact ⟨_, rfl, by omega⟩
  · refine ⟨_, rfl, ?_⟩
    rw [Nat.mod_eq_of_lt (by omega)]
    omega

variable {R : RandLib}

theorem sequential_after (len start populationLen : ℕ) (indices : Option (List ℕ)) : ∀ k,
    (EpochPlan.sequential len start populationLen indices : EpochPlan R).after k =
      .sequential len start populationLen indices
  | 0 => rfl
  | k + 1 => by
      rw [EpochPlan.after, sequential_after len start populationLen indices k]
      simp only [EpochPlan.nextPhysicalIndex]
      split_ifs <;> rfl

/-- A sampler that draws rows of a population of `count`. -/
def DrawsBelow (count : ℕ) : EpochSampler R → Prop
  | .uniform _ _ _ sampleCount => 0 < count ∧ sampleCount = count
  | .weighted distribution _ _ _ => ∀ seed, R.sample distribution seed < count

/-- A shuffled plan draws once for every number. -/
theorem shuffled_after {count : ℕ} (indices : Option (List ℕ)) {sampler : EpochSampler R}
    (hdraws : DrawsBelow count sampler) : ∀ k, k ≤ sampler.len →
    ∃ sampler', (EpochPlan.shuffled sampler indices).after k = .shuffled sampler' indices ∧
      DrawsBelow count sampler' ∧ sampler'.len = sampler.len - k
  | 0, _ => ⟨sampler, rfl, hdraws, rfl⟩
  | k + 1, hk => by
      obtain ⟨t, ht, hdraws', hlen⟩ := shuffled_after indices hdraws k (by omega)
      refine ⟨t.next.2, by rw [EpochPlan.after, ht]; rfl, ?_, ?_⟩
      · cases t with
        | uniform seed nextDraw remaining sampleCount =>
            simp only [EpochSampler.next]
            split_ifs <;> exact hdraws'
        | weighted distribution seed nextDraw remaining =>
            simp only [EpochSampler.next]
            split_ifs <;> exact hdraws'
      · cases t with
        | uniform seed nextDraw remaining sampleCount =>
            simp only [EpochSampler.len] at hlen
            simp only [EpochSampler.next]
            split_ifs <;> simp only [EpochSampler.len] <;> omega
        | weighted distribution seed nextDraw remaining =>
            simp only [EpochSampler.len] at hlen
            simp only [EpochSampler.next]
            split_ifs <;> simp only [EpochSampler.len] <;> omega

theorem next_lt (hR : R.Lawful) {count : ℕ} {sampler : EpochSampler R} (hdraws : DrawsBelow count sampler)
    (hlen : 0 < sampler.len) : ∃ row, sampler.next.1 = some row ∧ row < count := by
  cases sampler with
  | uniform seed nextDraw remaining sampleCount =>
      obtain ⟨hcount, rfl⟩ := hdraws
      have hne : ¬ remaining = 0 := Nat.ne_of_gt hlen
      exact ⟨R.genRange (sampleRng seed nextDraw) sampleCount, by simp only [EpochSampler.next, if_neg hne],
        hR.genRange_lt _ _ hcount⟩
  | weighted distribution seed nextDraw remaining =>
      have hne : ¬ remaining = 0 := Nat.ne_of_gt hlen
      exact ⟨R.sample distribution (sampleRng seed nextDraw), by simp only [EpochSampler.next, if_neg hne],
        hdraws _⟩

theorem sampler_ok (hR : R.Lawful) (hd : d.Valid) (hs : s.Inv d) :
    ∃ sampler, d.sampler R s = .ok sampler ∧ DrawsBelow (d.activeLen s.active) sampler ∧
      sampler.len = s.epochLen.1 := by
  unfold Dataset.sampler
  cases hactive : s.active with
  | full =>
      have hne : ¬ d.totalSamples = 0 := by have := hd.nonempty; omega
      exact ⟨_, if_neg hne, ⟨hd.nonempty, rfl⟩, rfl⟩
  | table t =>
      have ht := hs.table t hactive
      have hne : t.weights ≠ [] := by
        intro hnil
        have hlen := ht.weights_length
        have hpos := ht.nonempty
        rw [hnil, List.length_nil] at hlen
        omega
      obtain ⟨distribution, hdist⟩ := hR.weightedIndex t.weights hne ht.weights
      refine ⟨.weighted distribution d.seed s.shuffledDrawOffset s.epochLen.1, ?_, ?_, rfl⟩
      · have hweights := validateWeights_ok.mpr ⟨rfl, ht.weights⟩
        simp only [EpochSampler.newWeighted, hweights, hdist, bind, Except.bind]
      · intro seed
        have := hR.sample_lt t.weights distribution seed hdist
        rwa [ht.weights_length, ← ht.physical_length] at this

/-- What making a plan can do: advance the cursor, advance the draws, or fail for want of draw
numbers. -/
theorem epochPlan_cases (hR : R.Lawful) (hd : d.Valid) (hs : s.Inv d) :
    (d.shuffle = false ∧ ∃ next, next < d.activeLen s.active ∧
      d.epochPlan R s = ({ s with sequentialOffset := next }, .ok (.sequential s.epochLen.1
        s.sequentialOffset (d.activeLen s.active) (activePhysicalIndices s.active)))) ∨
    (d.shuffle = true ∧ s.shuffledDrawOffset + s.epochLen.1 < wordSize ∧
      ∃ sampler, DrawsBelow (d.activeLen s.active) sampler ∧ sampler.len = s.epochLen.1 ∧
        d.epochPlan R s = ({ s with shuffledDrawOffset := s.shuffledDrawOffset + s.epochLen.1 },
          .ok (.shuffled sampler (activePhysicalIndices s.active)))) ∨
    (d.shuffle = true ∧ wordSize ≤ s.shuffledDrawOffset + s.epochLen.1 ∧
      d.epochPlan R s = (s, .error (.invalidInput "shuffled draw offset overflowed u64"))) := by
  unfold Dataset.epochPlan
  cases hshuffle : d.shuffle with
  | false =>
      obtain ⟨next, hnext, hlt⟩ := advanceCyclicOffset_lt s.epochLen.1 hs.cursor
        (activeLen_bounds hd hs).2
      refine .inl ⟨rfl, next, hlt, ?_⟩
      simp [hnext]
  | true =>
      rcases Nat.lt_or_ge (s.shuffledDrawOffset + s.epochLen.1) wordSize with hlt | hge
      · obtain ⟨sampler, hsampler, hdraws, hlen⟩ := sampler_ok hR hd hs
        refine .inr (.inl ⟨rfl, hlt, sampler, hdraws, hlen, ?_⟩)
        simp [advanceDrawOffset, checkedAdd, hlt, okOr, hsampler]
      · refine .inr (.inr ⟨rfl, hge, ?_⟩)
        simp [advanceDrawOffset, checkedAdd, Nat.not_lt.mpr hge, okOr]

theorem epochPlan_total (hR : R.Lawful) (hd : d.Valid) (hs : s.Inv d) {s' : MutableDatasetState}
    {plan : EpochPlan R} (h : d.epochPlan R s = (s', .ok plan)) {k : ℕ} (hk : k < plan.len) :
    ∃ physical, plan.planned k = some physical ∧ physical < d.totalSamples ∧
      ∃ location, locatePhysicalSample d.pop physical = .ok location := by
  have hphysical : ∃ physical, plan.planned k = some physical ∧ physical < d.totalSamples := by
    rcases epochPlan_cases hR hd hs with ⟨-, next, -, heq⟩ | ⟨-, -, sampler, hdraws, -, heq⟩ | ⟨-, -, heq⟩
    · rw [heq, Prod.mk.injEq, Except.ok.injEq] at h
      obtain ⟨-, rfl⟩ := h
      obtain ⟨row, hrow, hlt⟩ := wrappingAddMod_lt k hs.cursor (activeLen_bounds hd hs).2
      obtain ⟨physical, hp, hplt⟩ := physical_lt hs hlt
      refine ⟨physical, ?_, hplt⟩
      have hlen : ¬ s.epochLen.1 ≤ k := Nat.not_le.mpr hk
      rw [EpochPlan.planned, sequential_after]
      simp only [EpochPlan.nextPhysicalIndex, if_neg hlen, hrow, Option.bind_some, hp]
    · rw [heq, Prod.mk.injEq, Except.ok.injEq] at h
      obtain ⟨-, rfl⟩ := h
      have hlen : k < sampler.len := hk
      obtain ⟨later, hafter, hdraws', hlen'⟩ :=
        shuffled_after (activePhysicalIndices s.active) hdraws k hlen.le
      obtain ⟨row, hrow, hlt⟩ := next_lt hR hdraws' (by omega)
      obtain ⟨physical, hp, hplt⟩ := physical_lt hs hlt
      refine ⟨physical, ?_, hplt⟩
      rw [EpochPlan.planned, hafter]
      simp only [EpochPlan.nextPhysicalIndex, hrow, Option.bind_some, hp]
    · rw [heq, Prod.mk.injEq] at h
      cases h.2
  obtain ⟨physical, hplanned, hlt⟩ := hphysical
  exact ⟨physical, hplanned, hlt, hd.pop.locate hlt⟩

/-! ### Every operation -/

theorem inv_epochPlan (hR : R.Lawful) (hd : d.Valid) (hs : s.Inv d) : (d.epochPlan R s).1.Inv d := by
  rcases epochPlan_cases hR hd hs with ⟨-, next, hlt, heq⟩ | ⟨-, -, sampler, -, -, heq⟩ | ⟨-, -, heq⟩
  · rw [heq]
    exact ⟨hlt, hs.table⟩
  · rw [heq]
    exact ⟨hs.cursor, hs.table⟩
  · rw [heq]
    exact hs

/-- An extraction is put in place, or nothing changes. -/
theorem replaceWith_cases (extracted : CacheResult ActiveMetadataTable) (s : MutableDatasetState) :
    (∃ error, replaceWith extracted s = (s, .error error)) ∨
    (∃ active epochLen, extracted = .ok active ∧
      replaceWith extracted s = ({ active := .table active, originalMetadata := none, epochLen
                                   sequentialOffset := 0, shuffledDrawOffset := 0 }, .ok ())) := by
  cases extracted with
  | error error => exact .inl ⟨error, rfl⟩
  | ok active =>
      simp only [replaceWith, replaceActive]
      cases epochLenNew active.physicalIndices.length with
      | error error => exact .inl ⟨error, rfl⟩
      | ok epochLen => exact .inr ⟨active, epochLen, rfl, rfl⟩

theorem inv_replaceWith {extracted : CacheResult ActiveMetadataTable} (hs : s.Inv d)
    (hvalid : ∀ active, extracted = .ok active → active.Valid d.totalSamples) :
    (replaceWith extracted s).1.Inv d := by
  rcases replaceWith_cases extracted s with ⟨error, heq⟩ | ⟨active, epochLen, hok, heq⟩
  · rw [heq]
    exact hs
  · rw [heq]
    have hactive := hvalid active hok
    refine ⟨?_, fun t ht => ?_⟩
    · simp only [activeLen, hactive.physical_length]
      exact hactive.nonempty
    · cases ht
      exact hactive

theorem inv_apply (hR : R.Lawful) (hd : d.Valid) (A : ArrowLib) (op : Op) (hs : s.Inv d) :
    (d.apply R A s op).Inv d := by
  cases op with
  | setEpochLen epochLen =>
      simp only [apply, setEpochLen]
      cases epochLenNew epochLen with
      | error error => exact hs
      | ok epochLen => exact ⟨hs.cursor, hs.table⟩
  | updateArrow table =>
      refine inv_replaceWith hs fun active hactive => ?_
      obtain ⟨arrow, harrow, hactive⟩ := bind_eq_ok hactive
      exact extractMetadataArrow_valid hd.pop (ArrowMetadata.len_lt_of_toArrow harrow) hactive
  | updateIpc ipc => exact inv_replaceWith hs fun active hactive => extractMetadataIpc_valid hd.pop hactive
  | epochPlan => exact inv_epochPlan hR hd hs

theorem inv_applyAll (hR : R.Lawful) (hd : d.Valid) (A : ArrowLib) : ∀ (ops : List Op)
    {s : MutableDatasetState}, s.Inv d → (d.applyAll R A s ops).Inv d
  | [], _, hs => hs
  | op :: ops, _, hs => inv_applyAll hR hd A ops (inv_apply hR hd A op hs)

/-- **Streams.**  After any history of operations on a loaded dataset the state is consistent, a
plan made from it gives a sample to every number, only the end of the draw numbers stops a plan,
and a failed operation leaves the state as it was. -/
theorem stream_consistent (hR : R.Lawful) (A : ArrowLib)
    {loadCaches : List Path → CacheResult (List LoadedCache)} {paths : List Path} {seed : BitVec 64}
    {prefetchSize : ℕ} {numWorkers : Positive} {shuffle : Bool} {d : Dataset} {s₀ : MutableDatasetState}
    (hload : load loadCaches paths seed prefetchSize numWorkers shuffle = .ok (d, s₀)) (ops : List Op)
    {s : MutableDatasetState} (hs : d.applyAll R A s₀ ops = s) :
    1 ≤ s.epochLen.1 ∧ s.sequentialOffset < d.activeLen s.active ∧
    (∀ t, s.active = .table t → t.physicalIndices.length = t.weights.length ∧
      t.weights.length = t.metadata.len ∧ 1 ≤ t.metadata.len ∧
      ∀ physical ∈ t.physicalIndices, physical < d.totalSamples) ∧
    (∀ s' plan, d.epochPlan R s = (s', .ok plan) → ∀ k < plan.len, ∃ physical,
      plan.planned k = some physical ∧ physical < d.totalSamples ∧
      ∃ location, locatePhysicalSample d.pop physical = .ok location) ∧
    (∀ s' error, d.epochPlan R s = (s', .error error) → s' = s ∧ d.shuffle = true ∧
      error = .invalidInput "shuffled draw offset overflowed u64" ∧
      wordSize ≤ s.shuffledDrawOffset + s.epochLen.1) ∧
    (∀ epochLen s' error, setEpochLen epochLen s = (s', .error error) → s' = s) ∧
    (∀ table s' error, d.updateMetadataArrow table s = (s', .error error) → s' = s) ∧
    (∀ ipc s' error, d.updateMetadataIpc A ipc s = (s', .error error) → s' = s) := by
  obtain ⟨hd, hs₀⟩ := valid_of_load hload
  have hinv : s.Inv d := hs ▸ inv_applyAll hR hd A ops hs₀
  have hreplace : ∀ extracted s' error, replaceWith extracted s = (s', .error error) → s' = s := by
    intro extracted s' error h
    rcases replaceWith_cases extracted s with ⟨e, heq⟩ | ⟨active, epochLen, -, heq⟩
    · rw [heq, Prod.mk.injEq] at h
      exact h.1.symm
    · rw [heq, Prod.mk.injEq] at h
      cases h.2
  refine ⟨s.epochLen.2, hinv.cursor, fun t ht => ?_, fun s' plan h k hk => ?_, fun s' error h => ?_,
    fun epochLen s' error h => ?_, fun table s' error h => hreplace _ _ _ h,
    fun ipc s' error h => hreplace _ _ _ h⟩
  · have hvalid := hinv.table t ht
    exact ⟨hvalid.physical_length.trans hvalid.weights_length.symm, hvalid.weights_length,
      hvalid.nonempty, hvalid.physical_lt⟩
  · exact epochPlan_total hR hd hinv h hk
  · rcases epochPlan_cases hR hd hinv with ⟨-, next, -, heq⟩ | ⟨-, -, sampler, -, -, heq⟩ | ⟨hsh, hge, heq⟩
    · rw [heq, Prod.mk.injEq] at h
      cases h.2
    · rw [heq, Prod.mk.injEq] at h
      cases h.2
    · rw [heq, Prod.mk.injEq, Except.error.injEq] at h
      exact ⟨h.1.symm, hsh, h.2.symm, hge⟩
  · unfold setEpochLen at h
    cases hnew : epochLenNew epochLen with
    | error e =>
        rw [hnew, Prod.mk.injEq] at h
        exact h.1.symm
    | ok n =>
        rw [hnew, Prod.mk.injEq] at h
        cases h.2

namespace OneRow

/-- A cache of two samples. -/
def cache : LoadedCache where
  cacheId := 7
  manifest := .v3 7 ⟨"s", 2, [], "", "", [], ∅⟩
  metadataRows := none
  index := ⟨List.replicate 48 0⟩
  path := ["c"]
  validateEmbeddedMetadata := false

/-- A table that selects the second sample with weight 2. -/
def table : ImportedTable where
  schema := [⟨"cache_id", .uint64, false⟩, ⟨"sample_id", .uint64, false⟩, ⟨"weight", .float64, false⟩]
  batches := [⟨[⟨"cache_id", .uint64, false⟩, ⟨"sample_id", .uint64, false⟩, ⟨"weight", .float64, false⟩],
    [.ofValues .uint64 [(7 : UInt64)], .ofValues .uint64 [(1 : UInt64)], .ofValues .float64 [(2.0 : Float)]],
    1⟩]
  selection := none

def noArrow : ArrowLib := ⟨fun _ _ => .error "", fun _ => .error ""⟩

def dataset : Dataset :=
  ⟨⟨[cache], [0], (∅ : AList fun _ : ℕ => ℕ).insert 7 0, []⟩, 2, 0, ⟨1, by decide⟩, ⟨1, by decide⟩, false⟩

def start : MutableDatasetState := ⟨.full, none, ⟨2, by decide⟩, 0, 0⟩

theorem load_eq : load (fun _ => .ok [cache]) [["c"]] 0 1 ⟨1, by decide⟩ false = .ok (dataset, start) := rfl

end OneRow

/-- A rejected length, a plan and an accepted table. -/
theorem stream_consistent_one_row : ∃ s,
    OneRow.dataset.applyAll RandLib.first OneRow.noArrow OneRow.start
      [.setEpochLen 0, .epochPlan, .updateArrow OneRow.table] = s ∧
    activePhysicalIndices s.active = some [1] ∧ s.sequentialOffset < OneRow.dataset.activeLen s.active ∧
    ∀ s' plan, OneRow.dataset.epochPlan RandLib.first s = (s', .ok plan) → ∀ k < plan.len,
      ∃ physical, plan.planned k = some physical ∧ physical < 2 ∧
        ∃ location, locatePhysicalSample OneRow.dataset.pop physical = .ok location := by
  obtain ⟨-, hcursor, -, hplan, -⟩ := stream_consistent RandLib.lawful_first OneRow.noArrow OneRow.load_eq
    [.setEpochLen 0, .epochPlan, .updateArrow OneRow.table] rfl
  exact ⟨_, rfl, by decide +kernel, hcursor, hplan⟩

end Dataset

end DatasetRt
