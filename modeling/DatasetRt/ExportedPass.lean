import DatasetRt.WorkerDatasets

/-! # A pass over an exported dataset

The first windows of all consumers of all ranks, put one after the other, are a sequential pass of the loaders.  With
the rows of the dataset as the budget, in split mode and without dropped tails, the pass reads the exported population in
its order, and begins again at its first rows where the ranks do not divide it (`loader_pass_reads_export`). -/

namespace DatasetRt

/-- The rows of the first window of a reader. -/
def ProcessReader.firstWindow (R : RandLib) : ProcessReader → CacheResult (List (Option ℕ))
  | .empty => .ok []
  | .ready d s => (d.epochPlan R s).2.map EpochPlan.rows

/-- The settings of a sequential pass over all rows. -/
def AdapterOptions.sequentialPass (rows : ℕ) (batchSize : Positive) (processes : ℕ) (nativeThreads : Positive) :
    AdapterOptions where
  shuffle := false
  dropLast := false
  batchSize
  workerPartition := .split
  processes
  nativeThreads
  seed := none
  sampleCount := rows

theorem AdapterOptions.accepted_sequentialPass {rows processes : ℕ} (hrows : rows ≤ 2 ^ 53)
    (hprocesses : processes < 2 ^ 32) (batchSize nativeThreads : Positive) :
    (sequentialPass rows batchSize processes nativeThreads).Accepted where
  processes := hprocesses
  sampleCount := hrows
  seed := fun s hs => by cases hs
  seeded := fun h => by cases h

section window

variable {R : RandLib} {N : NumpyRandom} {call : DumpCall} {plan : WorkerPlan} {s : MutableDatasetState}

/-- **The first window** of a worker whose quota is its population: every row of the plan once, in order. -/
theorem WorkerPlan.firstWindow_eq (h : plan.PopulationOf N call s) (hquota : plan.populationSize = plan.sampleCount)
    (hpos : 0 < plan.sampleCount) (hshort : plan.populationSize < wordSize) (nativeThreads : Positive) :
    (ProcessReader.ready (plan.datasetOf call nativeThreads false) s).firstWindow R =
      .ok ((plan.rows N (call.dataset.activeLen call.state.active)).map
        fun row => some ((call.dataset.populationIndices call.state.active).getD row 0)) := by
  obtain ⟨table, hactive, hindices, -⟩ := h.active
  have hlength : table.physicalIndices.length = plan.populationSize := by
    rw [hindices, List.length_map, WorkerPlan.length_rows]
  have hlen : (plan.datasetOf call nativeThreads false).activeLen s.active = plan.populationSize := by
    rw [hactive, Dataset.activeLen, hlength]
  obtain ⟨next, hnext, -⟩ := Dataset.advanceCyclicOffset_lt s.epochLen.1 (show 0 < plan.populationSize by omega) hshort
  have hplan : ((plan.datasetOf call nativeThreads false).epochPlan R s).2 =
      .ok (.sequential plan.sampleCount 0 plan.populationSize (some table.physicalIndices)) := by
    unfold Dataset.epochPlan
    rw [if_neg (by simp [WorkerPlan.datasetOf]), hlen, h.sequentialOffset]
    simp only [hnext]
    simp only [h.epochLen, hactive, Dataset.activePhysicalIndices]
  rw [ProcessReader.firstWindow, hplan]
  refine congrArg Except.ok (List.ext_getElem ?_ fun k hk hk' => ?_)
  · rw [EpochPlan.rows, List.length_map, List.length_range, List.length_map, WorkerPlan.length_rows, hquota]
    rfl
  · have hlt : k < plan.populationSize := by simpa using hk'
    simp only [EpochPlan.rows, List.getElem_map, List.getElem_range]
    rw [Dataset.sequential_planned (by omega) hshort (by omega), EpochPlan.physical, Nat.zero_add, Nat.mod_eq_of_lt hlt]
    simp only [hindices, List.getElem?_map, List.getElem?_eq_getElem (show k < (plan.rows N _).length by simpa using hlt),
      Option.map_some]

end window

/-- What a consumer reads for its plan. -/
def WorkerPlan.windowOf (indices : List ℕ) (rowCount : ℕ) (plan : WorkerPlan) : List (Option ℕ) :=
  (positions WorkerPlan.offset WorkerPlan.populationSize plan).map fun k => some (indices.getD (k % rowCount) 0)

section pass

variable {R : RandLib} {N : NumpyRandom} {A : ArrowLib} {J : ConfigJson} {L : StorageLib} {call : DumpCall}
  {tree : FileTree} {config : DatasetConfiguration} {schema : List Field} {batches : List RecordBatch}
  {active : ActiveMetadataTable} {s₀ : MutableDatasetState}

theorem firstWindows_rank (hN : N.Lawful) (h : call.ReadableExport L A J tree config schema batches active s₀)
    (hrows : call.dataset.activeLen call.state.active < maxWords) {replica : ReplicaIdentity} {population : ℕ}
    {r : ReaderInputs} {processes : ℕ} (hpath : r.configPath = call.path .config) (hshuffle : r.shuffle = false)
    (hlength : r.partitions.length = max 1 processes)
    (hplans : ∀ (k : ℕ) plan, r.partitions[k]? = some plan → plan.rank = r.replica.rank ∧ plan.workerId = k ∧
      (0 < plan.sampleCount → 0 < plan.populationSize) ∧ plan.populationSize < maxWords ∧
      ∀ seed ∈ plan.partitionSeed, r.order = some (prepareRowOrder N config.rowCount seed))
    (htiling : RankTiling replica population false r.partitions)
    (hfull : ∀ plan ∈ r.partitions, plan.populationSize = plan.sampleCount) {readers : List ProcessReader}
    (hreaders : (List.range (max 1 processes)).mapM (fun k => r.setup L A J tree (consumer processes k)) = .ok readers) :
    readers.mapM (ProcessReader.firstWindow R) = .ok (r.partitions.map
      (WorkerPlan.windowOf (call.dataset.populationIndices call.state.active)
        (call.dataset.activeLen call.state.active))) := by
  obtain ⟨hcount, hall⟩ := mapM_eq_ok_iff_getElem.mp hreaders
  rw [List.length_range] at hcount
  refine mapM_eq_ok_iff_getElem.mpr ⟨by rw [List.length_map]; omega, fun k hk hk' => ?_⟩
  rw [List.length_map] at hk'
  have hplan : r.partitions[k]? = some r.partitions[k] := List.getElem?_eq_getElem hk'
  have hmem : r.partitions[k] ∈ r.partitions := List.getElem_mem hk'
  obtain ⟨hrank, hworker, hpos, hshort, horder⟩ := hplans k _ hplan
  obtain ⟨hidle, hbusy⟩ := ReaderInputs.setup_iff hN h hrows hpath
    (ReaderInputs.workerPlan_consumer hlength hplan hrank hworker) hpos hshort horder
  have hreader := hall k (by rw [List.length_range]; omega) hk
  rw [List.getElem_range] at hreader
  rw [List.getElem_map]
  rcases Nat.eq_zero_or_pos r.partitions[k].sampleCount with hzero | hquota
  · rw [hidle hzero] at hreader
    rw [← Except.ok.inj hreader, ProcessReader.firstWindow, WorkerPlan.windowOf, positions, htiling.idle _ hmem hzero]
    rfl
  · obtain ⟨s, heq, hpopulation⟩ := (hbusy hquota).2 _ hreader
    rw [heq, hshuffle, WorkerPlan.firstWindow_eq hpopulation (hfull _ hmem) hquota
      (hshort.trans (by decide : maxWords < wordSize)), WorkerPlan.rows, htiling.seeds rfl _ hmem, List.map_map]
    rfl

end pass

/-- **One pass of the loaders reads the export.**  A dataset of at most 2⁵³ rows is exported, and whatever a crash leaves
of the export is read in split mode, without shuffling and dropped tails, by any number of ranks with any numbers of
loading processes: where all consumers are set up, their first windows, put one after the other, are the exported
population in its order, again from its first rows on until the ranks have equal shares. -/
theorem loader_pass_reads_export {R : RandLib} (hR : R.Lawful) {A : ArrowLib} (hA : A.Lawful)
    (hfiles : ∀ bytes schema batches, A.readFile bytes = .ok (schema, batches) → Uniform schema batches)
    {J : ConfigJson} (hJ : J.Lawful) {L : StorageLib}
    {metadataBatches : LoadedCache → CacheResult (List (CacheResult RecordBatch))} {call : DumpCall} {left : FileTree}
    (hexport : CrashedExport R A J L metadataBatches call left) {N : NumpyRandom} (hN : N.Lawful) {worldSize : ℕ}
    (hpos : 0 < worldSize) (hworld : worldSize ≤ 2 ^ 32) {processes : Fin worldSize → ℕ}
    (hprocesses : ∀ rank, processes rank < 2 ^ 32) (nativeThreads : Fin worldSize → Positive) (batchSize : Positive)
    (randbits : Fin worldSize → ℕ → BitVec 64) (hrows : call.dataset.activeLen call.state.active ≤ 2 ^ 53) :
    ∃ r : Fin worldSize → ReaderInputs,
      (∀ rank : Fin worldSize, prepareAdapter J N left (call.path .config) ⟨rank, worldSize, hworld, rank.isLt⟩
        (.sequentialPass (call.dataset.activeLen call.state.active) batchSize (processes rank) (nativeThreads rank))
        (randbits rank) = .ok (r rank)) ∧
      ∀ readers : Fin worldSize → List ProcessReader,
        (∀ rank, (List.range (max 1 (processes rank))).mapM
          (fun k => (r rank).setup L A J left (consumer (processes rank) k)) = .ok (readers rank)) →
        ∃ windows, (List.ofFn readers).flatten.mapM (ProcessReader.firstWindow R) = .ok windows ∧
          windows.flatten =
            (List.range (worldSize * (call.dataset.activeLen call.state.active ⌈/⌉ worldSize))).map fun k =>
              some ((call.dataset.populationIndices call.state.active).getD
                (k % call.dataset.activeLen call.state.active) 0) := by
  obtain ⟨config, schema, batches, active, s₀, h⟩ := hexport.readable hR hA hfiles hJ
  obtain ⟨hcount, -⟩ := ReaderInputs.rowCount_eq h
  have hshort : call.dataset.activeLen call.state.active < maxWords := hrows.trans_lt (by decide)
  have hranks := fun rank : Fin worldSize => prepareAdapter_ok N h.configuration ⟨rank, worldSize, hworld, rank.isLt⟩
    (AdapterOptions.accepted_sequentialPass hrows (hprocesses rank) batchSize (nativeThreads rank)) (randbits rank)
    (hcount ▸ hshort)
  choose r hprepare hpath hshuffle hthreads hlength hplans hall using hranks
  refine ⟨r, hprepare, fun readers hreaders => ?_⟩
  set rows := call.dataset.activeLen call.state.active with hrowsDef
  have hsplit : SplitPlans config.rowCount batchSize rows false false none hworld processes randbits
      fun rank => (r rank).partitions := hplans
  set count := rankBudget rows ⟨0, worldSize, hworld, hpos⟩ batchSize false with hbudget
  have hceil : count = rows ⌈/⌉ worldSize := by
    rw [hbudget, rankBudget_eq]
    rfl
  have hne : count ≠ 0 := by
    have hle : rows ≤ worldSize * (rows ⌈/⌉ worldSize) := le_smul_ceilDiv hpos
    rintro hzero
    rw [← hceil, hzero, Nat.mul_zero, ← hcount] at hle
    exact absurd config.rowCount.2 (Nat.not_lt.mpr hle)
  have hsum : ∀ rank, ((r rank).partitions.map WorkerPlan.sampleCount).sum = count := hsplit.sum_eq
  have htiling : ∀ rank : Fin worldSize, RankTiling ⟨rank, worldSize, hworld, rank.isLt⟩ (count * worldSize) false
      (r rank).partitions := by
    intro rank
    have htiles := rankTiling_of_ok (hsplit rank) hne
    rwa [splitPopulation, if_pos hcount.symm] at htiles
  have hfull : ∀ rank, ∀ plan ∈ (r rank).partitions, plan.populationSize = plan.sampleCount := fun rank =>
    (htiling rank).full ((hsum rank).trans (Split.size_mul count hpos).symm)
  have hwindows := fun rank => firstWindows_rank (R := R) hN h hshort (hpath rank) (hshuffle rank) (hlength rank)
    (hall rank) (htiling rank) (hfull rank) (hreaders rank)
  have htiles : Tiles WorkerPlan.offset WorkerPlan.populationSize
      (Split.first (count * worldSize) worldSize 0) (Split.first (count * worldSize) worldSize worldSize)
      (List.ofFn fun rank => (r rank).partitions).flatten := Tiles.ofFn_flatten fun rank => (htiling rank).tiles
  have hpositions : (List.ofFn fun rank => (r rank).partitions).flatten.flatMap
      (positions WorkerPlan.offset WorkerPlan.populationSize) = List.range (count * worldSize) := by
    rw [htiles.flatMap_positions, Split.first_zero, Split.first_parts hpos, List.range_eq_range']
    rfl
  refine ⟨(List.ofFn fun rank => (r rank).partitions).flatten.map
    (WorkerPlan.windowOf (call.dataset.populationIndices call.state.active) rows), ?_, ?_⟩
  · rw [mapM_eq_ok_iff, List.map_flatten, List.map_ofFn]
    refine List.rel_flatten (List.forall₂_iff_get.mpr ⟨by simp, fun rank hrank hrank' => ?_⟩)
    have hone := mapM_eq_ok_iff.mp (hwindows ⟨rank, by simpa using hrank⟩)
    simpa using hone
  · rw [← hceil, Nat.mul_comm, ← hpositions, List.map_flatMap, List.flatMap_def]
    rfl

open StoredRows in
/-- Three ranks read the view of two rows, the second one with a loading process; the third one begins again. -/
theorem loader_pass_reads_export_two_rows : ∃ (left : FileTree) (r : Fin 3 → ReaderInputs)
    (readers : Fin 3 → List ProcessReader) (windows : List (List (Option ℕ))),
    (∀ rank : Fin 3, prepareAdapter TwoRows.json .sampled left (call.path .config) ⟨rank, 3, by decide, rank.isLt⟩
      (.sequentialPass 2 ⟨1, Nat.one_pos⟩ (![0, 1, 0] rank) ⟨1, Nat.one_pos⟩) (fun _ => 0) = .ok (r rank)) ∧
    (∀ rank : Fin 3, (List.range (max 1 (![0, 1, 0] rank))).mapM
      (fun k => (r rank).setup lib TwoRows.arrow TwoRows.json left (consumer (![0, 1, 0] rank) k)) =
        .ok (readers rank)) ∧
    (List.ofFn readers).flatten.mapM (ProcessReader.firstWindow RandLib.first) = .ok windows ∧
    windows.flatten = [some 1, some 0, some 1] := by
  obtain ⟨ended, -, hexport⟩ := exists_export
  have hprocesses : ∀ rank : Fin 3, ![0, 1, 0] rank < 2 ^ 32 := by decide
  obtain ⟨r, hprepare, hpass⟩ := loader_pass_reads_export RandLib.lawful_first TwoRows.lawful_arrow uniform_files
    TwoRows.lawful_json hexport NumpyRandom.lawful_sampled (by decide : 0 < 3) (by decide) hprocesses
    (fun _ => ⟨1, Nat.one_pos⟩) ⟨1, Nat.one_pos⟩ (fun _ _ => 0) (show 2 ≤ 2 ^ 53 by decide)
  have hindices : call.dataset.populationIndices call.state.active = [1, 0] := rfl
  -- every rank has one consumer, which reads one row
  have hplan : ∀ rank : Fin 3, ∃ plan row, preparePartitions ⟨2, Nat.two_pos⟩ ⟨rank, 3, by decide, rank.isLt⟩
      (![0, 1, 0] rank) ⟨1, Nat.one_pos⟩ 2 .split false none false (fun _ => 0) = .ok [plan] ∧
      0 < plan.sampleCount ∧ row < 2 ∧ plan.rows .sampled 2 = [row] := by
    intro rank
    fin_cases rank
    · exact ⟨⟨0, 0, 0, 1, 1, 0, none, by decide, by decide, by decide, fun s hs => by cases hs⟩, 0,
        by decide +kernel, by decide, by decide, by decide⟩
    · exact ⟨⟨1, 0, 1, 1, 1, 0, none, by decide, by decide, by decide, fun s hs => by cases hs⟩, 1,
        by decide +kernel, by decide, by decide, by decide⟩
    · exact ⟨⟨2, 0, 2, 1, 1, 0, none, by decide, by decide, by decide, fun s hs => by cases hs⟩, 0,
        by decide +kernel, by decide, by decide, by decide⟩
  have hreader : ∀ rank : Fin 3, ∃ reader, (List.range (max 1 (![0, 1, 0] rank))).mapM
      (fun k => (r rank).setup lib TwoRows.arrow TwoRows.json ended.disk.tree (consumer (![0, 1, 0] rank) k)) =
        .ok [reader] := by
    intro rank
    obtain ⟨plan, row, hpartitions, hquota, hrow, hrows⟩ := hplan rank
    obtain ⟨r', hprepare', hplans, hready⟩ := exists_prepared hexport (AdapterOptions.accepted_sequentialPass
      (show 2 ≤ 2 ^ 53 by decide) (hprocesses rank) ⟨1, Nat.one_pos⟩ ⟨1, Nat.one_pos⟩) ⟨rank, 3, by decide, rank.isLt⟩
    obtain rfl := Except.ok.inj ((hprepare rank).symm.trans hprepare')
    have hone := Except.ok.inj (hplans.symm.trans hpartitions)
    obtain ⟨s, hsetup, -⟩ := hready 0 plan (by rw [hone]; rfl) hquota (summable_of_rows hrow hrows)
    have hcount : max 1 ((![0, 1, 0] : Fin 3 → ℕ) rank) = 1 := by
      fin_cases rank <;> rfl
    rw [hcount]
    exact ⟨_, mapM_eq_ok_iff.mpr (.cons hsetup .nil)⟩
  choose reader hreaders using hreader
  obtain ⟨windows, hwindows, hrows⟩ := hpass (fun rank => [reader rank]) hreaders
  rw [show call.dataset.activeLen call.state.active = 2 from rfl, hindices] at hrows
  exact ⟨ended.disk.tree, r, _, windows, hprepare, hreaders, hwindows, hrows.trans (by decide)⟩

end DatasetRt
