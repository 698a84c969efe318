import DatasetRt.LoaderCoverage
import DatasetRt.LoaderPasses
import DatasetRt.PopulationSelection
import DatasetRt.RestoredDataset

/-! # Datasets of the loading workers

`make_dataloader` (`integrations/loader.py`) exports a dataset, plans the partitions of its workers and writes the row
order that shuffled partitions share.  A worker finds its plan, maps the exported files and selects the rows of its
partition from the exported table (`ReaderInputs.setup`).

`worker_datasets` follows this through an export and the crashes after it.  The rows of a plan are positions of the
exported table, taken modulo its length and through the shared order (`WorkerPlan.rows`).  The dataset of a worker has
the samples and weights of these rows; only a sum of their weights that is not finite keeps it from being made.  It is
the dataset of an adapter, so that the passes over it continue one stream (`ReaderInputs.passes_of_setup`). -/

namespace DatasetRt

/-! ### Preparation and set-up -/

/-- The exceptions of the preparation and of a set-up. -/
inductive SetupError where
  | runtime (message : String)
  | index
  | loader (error : LoaderError)
  | restore (error : RestoreError)
  | selection (error : SelectionError)

/-- `get_worker_info` in a loading process. -/
structure WorkerInfo where
  id : ℕ
  numWorkers : ℕ

/-- What a `ReaderAdapter` is made of, with the order file that lies next to its configuration. -/
structure ReaderInputs where
  replica : ReplicaIdentity
  shuffle : Bool
  nativeNumWorkers : Positive
  rowCount : ℕ
  partitions : List WorkerPlan
  configPath : Path
  order : Option NpyFile

/-- The settings that `_prepare_adapter` reads, resolved. -/
structure AdapterOptions where
  shuffle : Bool
  dropLast : Bool
  batchSize : Positive
  workerPartition : WorkerPartition
  processes : ℕ
  nativeThreads : Positive
  seed : Option ℕ
  sampleCount : ℕ

/-- The row order that shuffled partitions share. -/
def AdapterOptions.prepareOrder (N : NumpyRandom) (o : AdapterOptions) (rowCount : Positive) :
    Except SetupError (Option NpyFile) :=
  if o.shuffle ∧ o.workerPartition = .split then
    match o.seed with
    | none => .error (.runtime "shuffled partitions require a resolved seed")
    | some seed => .ok (some (prepareRowOrder N rowCount seed))
  else .ok none

/-- `_prepare_adapter` after the export. -/
def prepareAdapter (J : ConfigJson) (N : NumpyRandom) (tree : FileTree) (configPath : Path) (replica : ReplicaIdentity)
    (o : AdapterOptions) (randbits : ℕ → BitVec 64) : Except SetupError ReaderInputs := do
  let config ← (loadConfiguration J tree configPath).mapError fun message => .restore (.validation message)
  let partitions ← (preparePartitions config.rowCount replica o.processes o.batchSize o.sampleCount o.workerPartition
    o.shuffle o.seed o.dropLast randbits).mapError .loader
  let order ← o.prepareOrder N config.rowCount
  .ok { replica, shuffle := o.shuffle, nativeNumWorkers := o.nativeThreads
        rowCount := (partitions.map WorkerPlan.sampleCount).sum, partitions, configPath, order }

/-- The processes that consume, the main process if there are no loading processes. -/
def consumer (processes k : ℕ) : Option WorkerInfo := if processes = 0 then none else some ⟨k, processes⟩

/-- A `uint64` column. -/
def uint64Column (indices : List ℕ) : Except SetupError UInt64Array :=
  if h : indices.length < wordSize then
    .ok ⟨indices.map fun i => some (UInt64.ofNat i), (List.length_map _).trans_lt h⟩
  else .error (.selection (.value "array is too big"))

/-- The table of a selection. -/
def selectionColumn : Option (List ℕ) → Except SetupError (Option UInt64Array)
  | none => .ok none
  | some indices => (uint64Column indices).map some

/-- What a process has after `setup`. -/
inductive ProcessReader where
  | empty
  | ready (dataset : Dataset) (state : MutableDatasetState)

namespace ReaderInputs

/-- `_worker_plan`. -/
def workerPlan (r : ReaderInputs) (info : Option WorkerInfo) : Except SetupError WorkerPlan :=
  let (workerId, workerCount) := match info with
    | none => (0, 1)
    | some info => (info.id, info.numWorkers)
  if workerCount ≠ r.partitions.length then
    .error (.runtime "DataLoader worker count differs from prepared partitions")
  else
    match r.partitions[workerId]? with
    | none => .error .index
    | some recipe =>
        if recipe.rank ≠ r.replica.rank ∨ recipe.workerId ≠ workerId then
          .error (.runtime "worker plan does not match consumer identity")
        else .ok recipe

/-- The configuration of a worker; its row count is not read any more. -/
def modelCopy (r : ReaderInputs) (config : DatasetConfiguration) (recipe : WorkerPlan)
    (hquota : 0 < recipe.sampleCount) : DatasetConfiguration :=
  { config with
    readerConfig := { config.readerConfig with seed := recipe.seed, shuffle := r.shuffle }
    numWorkers := r.nativeNumWorkers
    epochLen := ⟨_, hquota⟩ }

variable (L : StorageLib) (A : ArrowLib) (J : ConfigJson) (tree : FileTree)

/-- `_create_dataset`. -/
def createDataset (r : ReaderInputs) (recipe : WorkerPlan) (hquota : 0 < recipe.sampleCount) :
    Except SetupError (Dataset × MutableDatasetState) := do
  let config ← (loadConfiguration J tree r.configPath).mapError fun message => .restore (.validation message)
  let (schema, batches) ← (loadMetadata A tree r.configPath config).mapError fun message =>
    .restore (.validation message)
  let indices ← (NpyFile.populationSelection r.order config.rowCount recipe.offset recipe.populationSize
    recipe.partitionSeed).mapError .selection
  let selection ← selectionColumn indices
  (CachedDataset.fromConfiguration L tree (r.modelCopy config recipe hquota) ⟨schema, batches, selection⟩).mapError .restore

/-- `setup`, in a process where it was not called before. -/
def setup (r : ReaderInputs) (info : Option WorkerInfo) : Except SetupError ProcessReader := do
  let recipe ← r.workerPlan info
  if h : recipe.sampleCount = 0 then .ok .empty
  else do
    let (d, s) ← r.createDataset L A J tree recipe (Nat.pos_of_ne_zero h)
    .ok (.ready d s)

end ReaderInputs

/-! ### The rows of a plan -/

/-- The positions of the exported table that a plan selects, in their order. -/
def WorkerPlan.rows (N : NumpyRandom) (rowCount : ℕ) (plan : WorkerPlan) : List ℕ :=
  (positions WorkerPlan.offset WorkerPlan.populationSize plan).map fun k =>
    match plan.partitionSeed with
    | none => k % rowCount
    | some seed => (N.permutation seed rowCount).getD (k % rowCount) 0

section rows

variable {N : NumpyRandom} {rowCount : Positive} {plan : WorkerPlan}

@[simp] theorem WorkerPlan.length_rows (rowCount : ℕ) : (plan.rows N rowCount).length = plan.populationSize := by
  simp [rows, positions]

theorem getD_permutation_lt (hN : N.Lawful) (seed : ℕ) {k : ℕ} (hk : k < rowCount.1) :
    (N.permutation seed rowCount.1).getD k 0 < rowCount.1 := by
  have hperm := hN.perm seed rowCount.1
  have hlength : k < (N.permutation seed rowCount.1).length := by rwa [hperm.length_eq, List.length_range]
  rw [List.getD_eq_getElem _ _ hlength]
  exact List.mem_range.mp (hperm.mem_iff.mp (List.getElem_mem hlength))

theorem WorkerPlan.rows_lt (hN : N.Lawful) {row : ℕ} (hrow : row ∈ plan.rows N rowCount.1) : row < rowCount.1 := by
  obtain ⟨k, -, rfl⟩ := List.mem_map.mp hrow
  have hk := Nat.mod_lt k rowCount.2
  cases plan.partitionSeed with
  | none => exact hk
  | some seed => exact getD_permutation_lt hN seed hk

/-- **The selection of a plan** are its rows; the whole table is not selected. -/
theorem populationSelection_rows (hN : N.Lawful) (hcount : rowCount.1 < maxWords) (hpos : 0 < plan.populationSize)
    (hshort : plan.populationSize < maxWords) {order : Option NpyFile}
    (horder : ∀ seed ∈ plan.partitionSeed, order = some (prepareRowOrder N rowCount seed)) :
    ∃ selection, NpyFile.populationSelection order rowCount plan.offset plan.populationSize plan.partitionSeed =
        .ok selection ∧ selection.getD (List.range rowCount.1) = plan.rows N rowCount.1 := by
  have hargs : ¬ ((plan.offset : ℤ) < 0 ∨ (plan.populationSize : ℤ) ≤ 0) := by omega
  have hstart : plan.offset % rowCount.1 < maxWords := lt_trans (Nat.mod_lt _ rowCount.2) hcount
  have hcyclic : cyclicSpan rowCount.1 (plan.offset % rowCount.1) plan.populationSize =
      (positions WorkerPlan.offset WorkerPlan.populationSize plan).map fun k => k % rowCount.1 := by
    rw [cyclicSpan, positions, List.range'_eq_map_range, List.map_map]
    refine List.map_congr_left fun i _ => ?_
    rw [Function.comp_apply, Nat.add_mod_mod, Nat.add_comm]
  unfold NpyFile.populationSelection WorkerPlan.rows
  simp only [if_neg hargs, Int.toNat_natCast, arange_ok hshort, bind, Except.bind]
  cases hseed : plan.partitionSeed with
  | none =>
      simp only [positions_u64 hshort hstart, hcyclic]
      split_ifs with hwhole
      · refine ⟨none, rfl, ?_⟩
        obtain ⟨hoffset, hlength⟩ := hwhole
        rw [Option.getD_none, positions, show plan.offset = 0 by omega, show plan.populationSize = rowCount.1 by omega,
          ← List.range_eq_range']
        refine (List.map_congr_left fun k hk => ?_).trans (List.map_id _) |>.symm
        exact Nat.mod_eq_of_lt (List.mem_range.mp hk)
      · exact ⟨_, rfl, rfl⟩
  | some seed =>
      have hvalues := values_prepareRowOrder hN rowCount seed
      have hperm := hN.perm seed rowCount.1
      have hlength : (prepareRowOrder N rowCount seed).values.length = rowCount.1 := by
        rw [hvalues, hperm.length_eq, List.length_range]
      rw [horder seed hseed]
      have hdtype : ¬ ((prepareRowOrder N rowCount seed).dtype ≠ .uint64 ∨
          (prepareRowOrder N rowCount seed).shape ≠ [rowCount.1]) := fun h => h.elim (fun h => h rfl) fun h => h rfl
      simp only [if_neg hdtype]
      split_ifs with hfits
      · -- a span that does not wrap is a slice of the order
        refine ⟨_, rfl, ?_⟩
        rw [Option.getD_some, hvalues]
        refine List.ext_getElem ?_ fun k hk hk' => ?_
        · rw [hvalues] at hlength
          simp only [List.length_take, List.length_drop, List.length_map, positions, List.length_range', hlength]
          omega
        · have hk'' : k < plan.populationSize := by simpa [positions] using hk'
          have hmod : (plan.offset + k) % rowCount.1 = plan.offset % rowCount.1 + k := by
            rw [← Nat.mod_add_mod, Nat.mod_eq_of_lt (by omega)]
          have hin : plan.offset % rowCount.1 + k < (N.permutation seed rowCount.1).length := by
            rw [← hvalues, hlength]
            omega
          simp only [List.getElem_take, List.getElem_drop, List.getElem_map, positions, List.getElem_range', Nat.one_mul,
            hmod, List.getD_eq_getElem _ _ hin]
      · have hgathered : fancyIndex (prepareRowOrder N rowCount seed).values
            ((cyclicSpan rowCount.1 (plan.offset % rowCount.1) plan.populationSize).map Int.ofNat) =
            .ok ((cyclicSpan rowCount.1 (plan.offset % rowCount.1) plan.populationSize).map
              fun i => (N.permutation seed rowCount.1).getD i 0) := by
          refine fancyIndex_ok (by rw [List.length_map]) fun i hi => ?_
          have hmem := mem_cyclicSpan rowCount.2 (List.getElem_mem hi)
          rw [List.getElem?_map, List.getElem?_eq_getElem hi, Option.map_some, hvalues, List.getD_eq_getElem?_getD,
            List.getElem?_eq_getElem (by rw [← hvalues, hlength]; exact hmem), Option.getD_some]
        have hpositions : ((List.range plan.populationSize).map
            fun i => ((addU64 i (plan.offset % rowCount.1) % rowCount.1 : ℕ) : ℤ)) =
            (cyclicSpan rowCount.1 (plan.offset % rowCount.1) plan.populationSize).map Int.ofNat := by
          rw [← positions_u64 hshort hstart, List.map_map]
          rfl
        rw [hpositions, hgathered]
        refine ⟨_, rfl, ?_⟩
        rw [Option.getD_some, hcyclic, List.map_map]
        rfl

end rows

/-! ### Importing a selection -/

section imports

variable {pop : Population} {schema : List Field} {rows : List TableRow} {indices selection : List ℕ}
  {weights : List Float}

theorem updates_of_importRows (h : importRows pop schema rows = some (indices, weights)) :
    ∃ updates : List (ℕ × Float), rows.mapM (readRow pop schema) = .ok updates ∧ indices = updates.map Prod.fst ∧
      weights = updates.map Prod.snd := by
  unfold importRows at h
  split_ifs at h
  cases hread : rows.mapM (readRow pop schema) with
  | error error =>
      rw [hread] at h
      cases h
  | ok updates =>
      rw [hread] at h
      simp only at h
      cases hweights : validateWeights (updates.map Prod.snd) rows.length with
      | error error =>
          rw [hweights] at h
          cases h
      | ok =>
          rw [hweights] at h
          obtain ⟨hindices, hweights⟩ := Prod.mk.inj (Option.some.inj h)
          exact ⟨updates, rfl, hindices.symm, hweights.symm⟩

theorem accepted_of_importRows (h : importRows pop schema rows = some (indices, weights)) :
    indices.length = rows.length ∧ weights.length = rows.length ∧ WeightsOk 0.0 weights := by
  have hrows := h
  unfold importRows at h
  split_ifs at h
  obtain ⟨updates, hread, rfl, rfl⟩ := updates_of_importRows hrows
  have hlength := (mapM_eq_ok_iff_getElem.mp hread).1
  rw [hread] at h
  simp only at h
  refine ⟨by rw [List.length_map, hlength], by rw [List.length_map, hlength], ?_⟩
  cases hweights : validateWeights (updates.map Prod.snd) rows.length with
  | error error =>
      rw [hweights] at h
      cases h
  | ok => exact (validateWeights_ok.mp hweights).2

/-- **Selected rows** are imported with their samples and weights, if the sum of the weights is finite. -/
theorem importRows_select (h : importRows pop schema rows = some (indices, weights)) (hne : selection ≠ [])
    (hlt : ∀ row ∈ selection, row < rows.length) (population : List ℕ × List Float) :
    importRows pop schema (selection.map fun row => rows.getD row []) = some population ↔
      WeightsOk 0.0 (selection.map fun row => weights.getD row 0.0) ∧
        population = (selection.map fun row => indices.getD row 0, selection.map fun row => weights.getD row 0.0) := by
  obtain ⟨updates, hread, rfl, rfl⟩ := updates_of_importRows h
  obtain ⟨hlength, hrows⟩ := mapM_eq_ok_iff_getElem.mp hread
  have hselected : (selection.map fun row => rows.getD row []).mapM (readRow pop schema) =
      .ok (selection.map fun row => updates.getD row (0, 0.0)) := by
    refine mapM_eq_ok_iff_getElem.mpr ⟨by simp, fun i hi hi' => ?_⟩
    have hi : i < selection.length := by simpa using hi
    have hrow := hlt selection[i] (List.getElem_mem hi)
    simp only [List.getElem_map, List.getD_eq_getElem _ _ hrow, List.getD_eq_getElem _ _ (hlength ▸ hrow)]
    exact hrows _ hrow _
  have hfst : (selection.map fun row => updates.getD row (0, 0.0)).map Prod.fst =
      selection.map fun row => (updates.map Prod.fst).getD row 0 := by
    rw [List.map_map]
    exact List.map_congr_left fun row _ => (List.getD_map _ _ Prod.fst).symm
  have hsnd : (selection.map fun row => updates.getD row (0, 0.0)).map Prod.snd =
      selection.map fun row => (updates.map Prod.snd).getD row 0.0 := by
    rw [List.map_map]
    exact List.map_congr_left fun row _ => (List.getD_map _ _ Prod.snd).symm
  have hcount : (selection.map fun row => (updates.map Prod.snd).getD row 0.0).length = selection.length :=
    List.length_map _
  unfold importRows
  rw [if_neg (by simpa using hne), hselected]
  simp only [hfst, hsnd, List.length_map]
  constructor
  · intro hsome
    cases hvalidate : validateWeights (selection.map fun row => (updates.map Prod.snd).getD row 0.0)
        selection.length with
    | error error =>
        rw [hvalidate] at hsome
        cases hsome
    | ok =>
        rw [hvalidate] at hsome
        exact ⟨(validateWeights_ok.mp hvalidate).2, (Option.some.inj hsome).symm⟩
  · rintro ⟨hweights, rfl⟩
    rw [validateWeights_ok.mpr ⟨hcount, hweights⟩]

theorem imported_eq_some {result : CacheResult ActiveMetadataTable} {population : List ℕ × List Float} :
    imported result = some population ↔
      ∃ active, result = .ok active ∧ population = (active.physicalIndices, active.weights) := by
  cases result with
  | error error => simp [imported]
  | ok active => simp [imported, eq_comm]

theorem uint64Column_eq_ok {column : UInt64Array} (h : uint64Column selection = .ok column) :
    column.1 = selection.map (fun i => some (UInt64.ofNat i)) ∧ selection.length < wordSize := by
  unfold uint64Column at h
  split_ifs at h with hlt
  cases h
  exact ⟨rfl, hlt⟩

variable {batches : List RecordBatch} {active : ActiveMetadataTable} {column : UInt64Array}

theorem importRows_of_table (huniform : Uniform schema batches)
    (h : ((⟨schema, batches, none⟩ : Dataset.ImportedTable).toArrow >>= extractMetadataArrow pop) = .ok active) :
    importRows pop schema (tableRows batches) = some (active.physicalIndices, active.weights) ∧
      ∃ table, ArrowMetadata.new schema batches = .ok table ∧ table.Valid ∧ table.rows = (tableRows batches).length := by
  obtain ⟨table, htable, hextract⟩ := bind_eq_ok h
  obtain ⟨table', hnew, htable⟩ := bind_eq_ok htable
  cases htable
  simp only at hnew
  obtain ⟨hvalid, hview⟩ := ArrowMetadata.valid_new hnew fun batch hbatch => (huniform batch hbatch).1
  obtain ⟨hschema, hbatches⟩ := ArrowMetadata.fields_new hnew
  refine ⟨?_, table, hnew, hvalid, by rw [hvalid.rows_eq, hbatches]⟩
  rw [← hview, ← hschema, ← imported_extractMetadataArrow hvalid, hextract]
  · rfl
  · intro batch hbatch
    rw [hschema]
    exact (huniform batch (hbatches ▸ hbatch)).2

/-- **A selection of an accepted table** is accepted if the sum of its weights is finite. -/
theorem import_selection (huniform : Uniform schema batches)
    (h : ((⟨schema, batches, none⟩ : Dataset.ImportedTable).toArrow >>= extractMetadataArrow pop) = .ok active)
    (hcolumn : uint64Column selection = .ok column) (hne : selection ≠ [])
    (hlt : ∀ row ∈ selection, row < (tableRows batches).length) (population : List ℕ × List Float) :
    imported ((⟨schema, batches, some column⟩ : Dataset.ImportedTable).toArrow >>= extractMetadataArrow pop) =
        some population ↔
      WeightsOk 0.0 (selection.map fun row => active.weights.getD row 0.0) ∧
        population = (selection.map fun row => active.physicalIndices.getD row 0,
          selection.map fun row => active.weights.getD row 0.0) := by
  obtain ⟨himport, table, hnew, hvalid, hrows⟩ := importRows_of_table huniform h
  obtain ⟨hcells, -⟩ := uint64Column_eq_ok hcolumn
  obtain ⟨hschema, hbatches⟩ := ArrowMetadata.fields_new hnew
  have hword : ∀ row ∈ selection, (UInt64.ofNat row).toNat = row := fun row hrow =>
    UInt64.toNat_ofNat_of_lt' ((hlt row hrow).trans (hbatches ▸ hvalid.length_lt))
  obtain ⟨view, hview⟩ : ∃ view, table.select column = .ok view := by
    unfold ArrowMetadata.select
    rw [if_neg, if_neg]
    · exact ⟨_, rfl⟩
    · rw [hcells, List.any_map, List.any_eq_true]
      rintro ⟨row, hrow, hge⟩
      have hge := of_decide_eq_true hge
      rw [Option.getD_some, hword row hrow, hrows] at hge
      exact absurd (hlt row hrow) (Nat.not_lt.mpr hge)
    · rw [hcells]
      simp
  obtain ⟨hviewValid, hviewRows⟩ := ArrowMetadata.valid_select hview hvalid
  obtain ⟨hviewSchema, hviewBatches⟩ := ArrowMetadata.fields_select hview
  have hselected : view.viewRows = selection.map fun row => (tableRows batches).getD row [] := by
    rw [hviewRows, hcells, hbatches, List.map_map]
    refine List.map_congr_left fun row hrow => ?_
    rw [Function.comp_apply, Option.getD_some, hword row hrow]
  simp only [Dataset.ImportedTable.toArrow, hnew, bind, Except.bind, hview]
  rw [imported_extractMetadataArrow hviewValid, hviewSchema, hschema, hselected]
  · exact importRows_select himport hne hlt population
  · intro batch hbatch
    rw [hviewSchema, hschema]
    exact (huniform batch (hbatches ▸ hviewBatches ▸ hbatch)).2

end imports

/-! ### The plans of the consumers -/

section plans

theorem WorkerPlan.identity_of_make {rank workerId offset populationSize sampleCount seed : ℕ}
    {partitionSeed : Option ℕ} {plan : WorkerPlan}
    (h : make rank workerId offset populationSize sampleCount seed partitionSeed = .ok plan) :
    plan.rank = rank ∧ plan.workerId = workerId ∧ plan.partitionSeed = partitionSeed := by
  unfold make at h
  split_ifs at h
  cases h
  exact ⟨rfl, rfl, rfl⟩

theorem PlanInputs.plans_identity {p : PlanInputs} : ∀ {budgets : List ℕ} {plans : List WorkerPlan}
    {worker offset : ℕ}, p.plans worker offset budgets = .ok plans → ∀ (i : ℕ) plan, plans[i]? = some plan →
      plan.rank = p.replica.rank ∧ plan.workerId = worker + i ∧
        plan.partitionSeed = if p.shuffle ∧ p.workerPartition = .split then p.seed else none
  | [], plans, worker, offset, h, i, plan, hi => by
      cases h
      cases hi
  | budget :: budgets, plans, worker, offset, h, i, plan, hi => by
      obtain ⟨size, hsize, h⟩ := bind_eq_ok h
      obtain ⟨seed, -, h⟩ := bind_eq_ok h
      obtain ⟨first, hfirst, h⟩ := bind_eq_ok h
      obtain ⟨rest, hrest, h⟩ := bind_eq_ok h
      cases h
      cases i with
      | zero =>
          cases hi
          exact WorkerPlan.identity_of_make hfirst
      | succ i =>
          obtain ⟨hrank, hworker, hseed⟩ := plans_identity hrest i plan hi
          exact ⟨hrank, by rw [hworker, Nat.add_assoc, Nat.add_comm 1], hseed⟩

variable {rowCount : Positive} {replica : ReplicaIdentity} {samples : ℕ}

theorem splitPopulation_lt (batchSize : Positive) (dropLast : Bool) (hrows : rowCount.1 < maxWords)
    (hsamples : samples ≤ 2 ^ 53) :
    splitPopulation rowCount samples (rankBudget samples replica batchSize dropLast) replica.worldSize < maxWords := by
  have hmul := rankBudget_mul_lt samples replica batchSize dropLast
  have hworld := replica.worldSize_le
  have hrow := rowCount.2
  unfold splitPopulation
  unfold maxWords at hrows ⊢
  split_ifs with hfull hfew
  · omega
  · have hone : (rowCount.1 + replica.worldSize - 1) / replica.worldSize = 1 :=
      Nat.div_eq_of_lt_le (by omega) (by omega)
    rw [hone, Nat.one_mul]
    omega
  · exact hrows

/-- A population is not larger than the rows that the workers share. -/
theorem PlanInputs.populationSize_le {p : PlanInputs} {worker budget size : ℕ}
    (h : p.populationSize worker budget = .ok size) (hfull : p.fullPass = true → budget ≤ p.rankSpan.length) :
    size ≤ max p.rowCount.1 p.rankSpan.length := by
  unfold populationSize at h
  by_cases hzero : budget = 0
  · rw [if_pos hzero] at h
    cases h
    exact Nat.zero_le _
  rw [if_neg hzero] at h
  cases hpartition : p.workerPartition with
  | replicate =>
      rw [hpartition] at h
      cases h
      exact Nat.le_max_left _ _
  | split =>
      simp only [hpartition] at h
      split_ifs at h with hpass
      · cases h
        exact (hfull hpass).trans (Nat.le_max_right _ _)
      · obtain ⟨span, hspan, h⟩ := bind_eq_ok h
        cases h
        obtain ⟨⟨-, -, hlt⟩, rfl⟩ := partitionRows_eq_ok_iff.mp hspan
        exact (Split.size_le (Nat.zero_lt_of_lt hlt)).trans (Nat.le_max_right _ _)

theorem preparePartitions_plans (replica : ReplicaIdentity) {numWorkers : ℕ} (batchSize : Positive)
    (workerPartition : WorkerPartition) (shuffle dropLast : Bool) {seed : Option ℕ} (randbits : ℕ → BitVec 64)
    (hrows : rowCount.1 < maxWords) (hsamples : samples ≤ 2 ^ 53) (hworkers : numWorkers < 2 ^ 32)
    (hseed : ∀ s ∈ seed, s < 2 ^ 64) :
    ∃ plans, preparePartitions rowCount replica numWorkers batchSize samples workerPartition shuffle seed dropLast
        randbits = .ok plans ∧ plans.length = max 1 numWorkers ∧ ∀ (i : ℕ) plan, plans[i]? = some plan →
      plan.rank = replica.rank ∧ plan.workerId = i ∧
        plan.partitionSeed = (if shuffle ∧ workerPartition = .split then seed else none) ∧
        (0 < plan.sampleCount → 0 < plan.populationSize) ∧ plan.populationSize < maxWords := by
  obtain ⟨plans, populations, hplans, hbudgeted, hpos⟩ := preparePartitions_ok batchSize workerPartition shuffle
    dropLast replica randbits (hrows.trans (by decide : maxWords < 2 ^ 63)) hsamples hworkers hseed
  refine ⟨plans, hplans, by rw [← hbudgeted.length_eq, List.length_map], fun i plan hi => ?_⟩
  have hmem := List.mem_of_getElem? hi
  obtain ⟨⟨span, populations'⟩, hspan, hplans⟩ := bind_eq_ok hplans
  obtain ⟨budgets, -, hplans⟩ := bind_eq_ok hplans
  obtain ⟨hrank, hworker, hpartition⟩ := PlanInputs.plans_identity hplans i plan hi
  refine ⟨hrank, by rw [hworker, Nat.zero_add], hpartition, hpos plan hmem, ?_⟩
  obtain ⟨worker, hsize⟩ := PlanInputs.plans_populationSize hplans plan hmem
  have hcounts := PlanInputs.plans_sampleCount hplans
  refine (PlanInputs.populationSize_le hsize fun hfull => ?_).trans_lt (max_lt hrows ?_)
  · have hsum : budgets.sum = span.length := of_decide_eq_true hfull
    rw [← hsum, ← hcounts]
    exact List.single_le_sum (fun _ _ => Nat.zero_le _) _ (List.mem_map_of_mem hmem (f := WorkerPlan.sampleCount))
  · cases workerPartition with
    | replicate =>
        cases hspan
        exact hrows
    | split =>
        obtain ⟨rfl, -⟩ := rankRows_split hspan
        exact (Split.size_le (Nat.zero_lt_of_lt replica.rank_lt)).trans_lt
          (splitPopulation_lt batchSize dropLast hrows hsamples)

end plans

/-! ### The dataset of a worker -/

/-- The seed, the workers and the shuffling have no part in loading. -/
theorem Dataset.load_settings {loadCaches : List Path → CacheResult (List LoadedCache)} {paths : List Path}
    {seed seed' : BitVec 64} {prefetchSize : ℕ} {numWorkers numWorkers' : Positive} {shuffle shuffle' : Bool}
    {d : Dataset} {s : MutableDatasetState}
    (h : Dataset.load loadCaches paths seed prefetchSize numWorkers shuffle = .ok (d, s)) :
    Dataset.load loadCaches paths seed' prefetchSize numWorkers' shuffle' =
      .ok ({ d with seed := seed', numWorkers := numWorkers', shuffle := shuffle' }, s) := by
  unfold Dataset.load at h ⊢
  split_ifs at h with hpaths
  rw [if_neg hpaths]
  obtain ⟨prefetch, hprefetch, h⟩ := bind_eq_ok h
  obtain ⟨caches, hcaches, h⟩ := bind_eq_ok h
  obtain ⟨lookup, hlookup, h⟩ := bind_eq_ok h
  obtain ⟨schema, hschema, h⟩ := bind_eq_ok h
  obtain ⟨⟨offsets, total⟩, hoffsets, h⟩ := bind_eq_ok h
  simp only at h
  split_ifs at h with htotal
  obtain ⟨epochLen, hlen, h⟩ := bind_eq_ok h
  cases h
  simp only [hprefetch, hcaches, hlookup, hschema, hoffsets, if_neg htotal, hlen, bind, Except.bind]

theorem nativeSeed_natCast {seed : ℕ} (h : seed < wordSize) : nativeSeed seed = .ok (BitVec.ofNat 64 seed) := by
  have hlt : (seed : ℤ) < (wordSize : ℤ) := Int.ofNat_lt.mpr h
  unfold nativeSeed
  rw [if_pos ⟨Int.natCast_nonneg seed, hlt⟩, BitVec.ofInt_natCast]

theorem CachedDataset.load_settings {L : StorageLib} {tree : FileTree} {paths : List Path}
    {readerConfig : ReaderConfig} {numWorkers numWorkers' : Positive} {d : Dataset} {s : MutableDatasetState}
    (h : load L tree paths readerConfig numWorkers = .ok (d, s)) {seed : ℕ} (hseed : seed < wordSize) (shuffle : Bool) :
    load L tree paths { readerConfig with seed, shuffle } numWorkers' =
      .ok ({ d with seed := BitVec.ofNat 64 seed, numWorkers := numWorkers', shuffle }, s) := by
  obtain ⟨seed', -, hdataset⟩ := load_eq_ok h
  unfold load
  rw [nativeSeed_natCast hseed]
  exact congrArg (Except.mapError RestoreError.native) (Dataset.load_settings hdataset)

/-- What a rejected table leaves of the construction. -/
theorem CachedDataset.fromConfiguration_error {L : StorageLib} {tree : FileTree} {config : DatasetConfiguration} {d : Dataset}
    {s₀ : MutableDatasetState}
    (hload : CachedDataset.load L tree config.cachePaths config.readerConfig config.numWorkers = .ok (d, s₀))
    {table : Dataset.ImportedTable} {error : CacheError}
    (himport : (table.toArrow >>= extractMetadataArrow d.pop) = .error error) :
    CachedDataset.fromConfiguration L tree config table = .error (.native error) := by
  have hupdate : d.updateMetadataArrow table s₀ = (s₀, .error error) := by
    unfold Dataset.updateMetadataArrow
    rw [himport]
    rfl
  simp only [CachedDataset.fromConfiguration, hload, bind, Except.bind, hupdate, Except.mapError]

/-- Settings that `LoaderOptions` and `common_seed` let through. -/
structure AdapterOptions.Accepted (o : AdapterOptions) : Prop where
  processes : o.processes < 2 ^ 32
  sampleCount : o.sampleCount ≤ 2 ^ 53
  seed : ∀ s ∈ o.seed, s < 2 ^ 64
  seeded : o.shuffle = true → o.seed ≠ none

/-- The state of a worker's dataset: the samples and weights of the rows of its plan, for as many draws as its quota. -/
structure WorkerPlan.PopulationOf (plan : WorkerPlan) (N : NumpyRandom) (call : DumpCall) (s : MutableDatasetState) :
    Prop where
  active : ∃ table, s.active = .table table ∧
    table.physicalIndices = (plan.rows N (call.dataset.activeLen call.state.active)).map
      (fun row => (call.dataset.populationIndices call.state.active).getD row 0) ∧
    table.weights = (plan.rows N (call.dataset.activeLen call.state.active)).map
      fun row => (call.dataset.populationWeights call.state.active).getD row 0.0
  epochLen : s.epochLen.1 = plan.sampleCount
  sequentialOffset : s.sequentialOffset = 0
  shuffledDrawOffset : s.shuffledDrawOffset = 0

/-- The weights of the rows of a plan have a finite sum. -/
def WorkerPlan.Summable (plan : WorkerPlan) (N : NumpyRandom) (call : DumpCall) : Prop :=
  WeightsOk 0.0 ((plan.rows N (call.dataset.activeLen call.state.active)).map
    fun row => (call.dataset.populationWeights call.state.active).getD row 0.0)

/-- The dataset of a worker, beside its population. -/
def WorkerPlan.datasetOf (plan : WorkerPlan) (call : DumpCall) (numWorkers : Positive) (shuffle : Bool) : Dataset :=
  { call.dataset with seed := BitVec.ofNat 64 plan.seed, numWorkers, shuffle }

theorem ok_bind {ε α β : Type} (a : α) (f : α → Except ε β) : (Except.ok a >>= f) = f a := rfl

theorem mapError_ok {ε ε' α : Type} (f : ε → ε') (a : α) : (Except.ok a : Except ε α).mapError f = .ok a := rfl

theorem map_range_getD {α : Type} (l : List α) (a : α) : (List.range l.length).map (fun i => l.getD i a) = l := by
  refine List.ext_getElem (by simp) fun i hi hi' => ?_
  rw [List.getElem_map, List.getElem_range, List.getD_eq_getElem _ _ hi']

namespace ReaderInputs

variable {L : StorageLib} {A : ArrowLib} {J : ConfigJson} {N : NumpyRandom} {call : DumpCall} {tree : FileTree}
  {config : DatasetConfiguration} {schema : List Field} {batches : List RecordBatch} {active : ActiveMetadataTable}
  {s₀ : MutableDatasetState} {r : ReaderInputs} {plan : WorkerPlan}

theorem rowCount_eq (h : call.ReadableExport L A J tree config schema batches active s₀) :
    config.rowCount.1 = call.dataset.activeLen call.state.active ∧
      (tableRows batches).length = call.dataset.activeLen call.state.active := by
  obtain ⟨himport, -⟩ := importRows_of_table h.uniform h.imports
  have hrows : (tableRows batches).length = call.dataset.activeLen call.state.active := by
    rw [← h.length_indices, (accepted_of_importRows himport).1]
  refine ⟨?_, hrows⟩
  have hmetadata := h.metadata
  unfold loadMetadata at hmetadata
  split_ifs at hmetadata
  split at hmetadata
  · cases hmetadata
  · obtain ⟨⟨schema', batches'⟩, -, hmetadata⟩ := bind_eq_ok hmetadata
    simp only at hmetadata
    split_ifs at hmetadata with hcount
    cases hmetadata
    rw [← hrows, not_not.mp hcount]

/-- **The rows of a plan** are imported if the sum of their weights is finite. -/
theorem import_plan (hN : N.Lawful) (h : call.ReadableExport L A J tree config schema batches active s₀)
    (hrows : call.dataset.activeLen call.state.active < maxWords) (hpos : 0 < plan.populationSize)
    (hshort : plan.populationSize < maxWords) {order : Option NpyFile}
    (horder : ∀ seed ∈ plan.partitionSeed, order = some (prepareRowOrder N config.rowCount seed)) :
    ∃ indices column, NpyFile.populationSelection order config.rowCount plan.offset plan.populationSize
        plan.partitionSeed = .ok indices ∧ selectionColumn indices = .ok column ∧
      ∀ population, imported ((⟨schema, batches, column⟩ : Dataset.ImportedTable).toArrow >>=
          extractMetadataArrow call.dataset.pop) = some population ↔
        plan.Summable N call ∧ population =
          ((plan.rows N (call.dataset.activeLen call.state.active)).map
              (fun row => (call.dataset.populationIndices call.state.active).getD row 0),
            (plan.rows N (call.dataset.activeLen call.state.active)).map
              fun row => (call.dataset.populationWeights call.state.active).getD row 0.0) := by
  obtain ⟨hcount, hlength⟩ := rowCount_eq h
  obtain ⟨indices, hselection, hindices⟩ :=
    populationSelection_rows hN (hcount ▸ hrows) hpos hshort horder
  obtain ⟨himport, -⟩ := importRows_of_table h.uniform h.imports
  obtain ⟨hlengthIndices, hlengthWeights, hweights⟩ := accepted_of_importRows himport
  rw [hcount] at hindices
  unfold WorkerPlan.Summable
  rw [← h.restores.indices, ← h.restores.weights]
  cases indices with
  | none =>
      refine ⟨none, none, hselection, rfl, fun population => ?_⟩
      rw [Option.getD_none, ← hlength] at hindices
      have hallIndices : (List.range (tableRows batches).length).map (fun row => active.physicalIndices.getD row 0) =
          active.physicalIndices := by
        rw [← hlengthIndices, map_range_getD]
      have hallWeights : (List.range (tableRows batches).length).map (fun row => active.weights.getD row 0.0) =
          active.weights := by
        rw [← hlengthWeights, map_range_getD]
      rw [← hlength, ← hindices, imported_eq_some, hallIndices, hallWeights]
      constructor
      · rintro ⟨other, hother, rfl⟩
        obtain rfl := Except.ok.inj (h.imports.symm.trans hother)
        exact ⟨hweights, rfl⟩
      · rintro ⟨-, rfl⟩
        exact ⟨active, h.imports, rfl⟩
  | some selected =>
      rw [Option.getD_some] at hindices
      have hword : selected.length < wordSize := by
        rw [hindices, WorkerPlan.length_rows]
        exact hshort.trans (by decide : maxWords < wordSize)
      obtain ⟨column, hcolumn⟩ : ∃ column, uint64Column selected = .ok column := ⟨_, dif_pos hword⟩
      refine ⟨some selected, some column, hselection, by rw [selectionColumn, hcolumn]; rfl, fun population => ?_⟩
      rw [← hindices]
      refine import_selection h.uniform h.imports hcolumn ?_ ?_ population
      · rw [hindices]
        exact List.length_pos_iff.mp (by rw [WorkerPlan.length_rows]; exact hpos)
      · intro row hrow
        rw [hindices, ← hcount] at hrow
        rw [hlength, ← hcount]
        exact WorkerPlan.rows_lt hN hrow

/-- **The dataset of a plan** is made if the sum of its weights is finite. -/
theorem createDataset_iff (hN : N.Lawful) (h : call.ReadableExport L A J tree config schema batches active s₀)
    (hrows : call.dataset.activeLen call.state.active < maxWords) (hpath : r.configPath = call.path .config)
    (hquota : 0 < plan.sampleCount) (hpos : 0 < plan.populationSize) (hshort : plan.populationSize < maxWords)
    (horder : ∀ seed ∈ plan.partitionSeed, r.order = some (prepareRowOrder N config.rowCount seed)) :
    ((∃ made, r.createDataset L A J tree plan hquota = .ok made) ↔ plan.Summable N call) ∧
      ∀ d s, r.createDataset L A J tree plan hquota = .ok (d, s) →
        d = plan.datasetOf call r.nativeNumWorkers r.shuffle ∧ plan.PopulationOf N call s := by
  obtain ⟨indices, column, hselection, hcolumn, himport⟩ := import_plan hN h hrows hpos hshort horder
  have hseed : plan.seed < wordSize := by
    unfold wordSize
    exact plan.seed_lt
  have hload : CachedDataset.load L tree (r.modelCopy config plan hquota).cachePaths
      (r.modelCopy config plan hquota).readerConfig (r.modelCopy config plan hquota).numWorkers =
      .ok (plan.datasetOf call r.nativeNumWorkers r.shuffle, s₀) := CachedDataset.load_settings h.loads hseed r.shuffle
  set table : Dataset.ImportedTable := ⟨schema, batches, column⟩ with htable
  have hcreate : r.createDataset L A J tree plan hquota =
      (CachedDataset.fromConfiguration L tree (r.modelCopy config plan hquota) table).mapError .restore := by
    rw [createDataset, hpath, h.configuration, mapError_ok, ok_bind, h.metadata, mapError_ok, ok_bind]
    dsimp only
    rw [hselection, mapError_ok, ok_bind, hcolumn, ok_bind]
  rw [hcreate]
  cases hextract : (table.toArrow >>= extractMetadataArrow call.dataset.pop) with
  | error error =>
      rw [CachedDataset.fromConfiguration_error hload hextract]
      refine ⟨⟨fun hmade => ?_, fun hsum => ?_⟩, fun d s hmade => ?_⟩
      · obtain ⟨made, hmade⟩ := hmade
        cases hmade
      · have hsome := (himport _).mpr ⟨hsum, rfl⟩
        rw [hextract] at hsome
        cases hsome
      · cases hmade
  | ok selected =>
      obtain ⟨hsum, hpopulation⟩ := (himport (selected.physicalIndices, selected.weights)).mp (by rw [hextract]; rfl)
      obtain ⟨hindices, hweights⟩ := Prod.mk.inj hpopulation
      have hne : 0 < selected.physicalIndices.length := by
        rw [hindices, List.length_map, WorkerPlan.length_rows]
        exact hpos
      rw [CachedDataset.fromConfiguration_ok hload hextract hne]
      refine ⟨⟨fun _ => hsum, fun _ => ⟨_, rfl⟩⟩, fun d s hmade => ?_⟩
      cases hmade
      exact ⟨rfl, ⟨selected, rfl, hindices, hweights⟩, rfl, rfl, rfl⟩

theorem workerPlan_consumer {processes k : ℕ} (hlength : r.partitions.length = max 1 processes)
    (hplan : r.partitions[k]? = some plan) (hrank : plan.rank = r.replica.rank) (hworker : plan.workerId = k) :
    r.workerPlan (consumer processes k) = .ok plan := by
  have hk : k < r.partitions.length := (List.getElem?_eq_some_iff.mp hplan).1
  have hidentity : ¬ (plan.rank ≠ r.replica.rank ∨ plan.workerId ≠ k) := by simp [hrank, hworker]
  by_cases hzero : processes = 0
  · obtain rfl : k = 0 := by omega
    have hone : ¬ 1 ≠ r.partitions.length := by omega
    rw [consumer, if_pos hzero, workerPlan]
    simp only [if_neg hone, hplan, if_neg hidentity]
  · have hsame : ¬ processes ≠ r.partitions.length := by omega
    rw [consumer, if_neg hzero, workerPlan]
    simp only [if_neg hsame, hplan, if_neg hidentity]

/-- **The set-up of a consumer.** -/
theorem setup_iff (hN : N.Lawful) (h : call.ReadableExport L A J tree config schema batches active s₀)
    (hrows : call.dataset.activeLen call.state.active < maxWords) (hpath : r.configPath = call.path .config)
    {info : Option WorkerInfo} (hplan : r.workerPlan info = .ok plan)
    (hpos : 0 < plan.sampleCount → 0 < plan.populationSize) (hshort : plan.populationSize < maxWords)
    (horder : ∀ seed ∈ plan.partitionSeed, r.order = some (prepareRowOrder N config.rowCount seed)) :
    (plan.sampleCount = 0 → r.setup L A J tree info = .ok .empty) ∧
    (0 < plan.sampleCount →
      ((∃ reader, r.setup L A J tree info = .ok reader) ↔ plan.Summable N call) ∧
      ∀ reader, r.setup L A J tree info = .ok reader →
        ∃ s, reader = .ready (plan.datasetOf call r.nativeNumWorkers r.shuffle) s ∧ plan.PopulationOf N call s) := by
  have hsetup : r.setup L A J tree info =
      if hquota : plan.sampleCount = 0 then .ok .empty
      else r.createDataset L A J tree plan (Nat.pos_of_ne_zero hquota) >>= fun made => .ok (.ready made.1 made.2) := by
    rw [setup, hplan, ok_bind]
  rw [hsetup]
  refine ⟨fun hzero => dif_pos hzero, fun hquota => ?_⟩
  rw [dif_neg hquota.ne']
  obtain ⟨hiff, hmade⟩ := createDataset_iff hN h hrows hpath hquota (hpos hquota) hshort horder
  constructor
  · rw [← hiff]
    constructor
    · rintro ⟨reader, hreader⟩
      obtain ⟨made, hcreate, -⟩ := bind_eq_ok hreader
      exact ⟨made, hcreate⟩
    · rintro ⟨⟨d, s⟩, hcreate⟩
      rw [hcreate, ok_bind]
      exact ⟨_, rfl⟩
  · intro reader hreader
    obtain ⟨⟨d, s⟩, hcreate, hreader⟩ := bind_eq_ok hreader
    obtain ⟨rfl, hpopulation⟩ := hmade d s hcreate
    cases hreader
    exact ⟨s, rfl, hpopulation⟩

/-! ### Passes over the dataset of a worker -/

/-- The dataset of a worker is that of an adapter, made of the caches and the settings of the configuration. -/
theorem createDataset_created {hquota : 0 < plan.sampleCount} {d : Dataset} {s : MutableDatasetState}
    (h : r.createDataset L A J tree plan hquota = .ok (d, s)) :
    ∃ (config : DatasetConfiguration) (seed : BitVec 64) (table : Dataset.ImportedTable),
      loadConfiguration J tree r.configPath = .ok config ∧
      DatasetRt.createDataset (fun paths => loadedInOrder L tree paths config.readerConfig.validateCache)
        config.cachePaths seed config.readerConfig.prefetchSize.1 r.nativeNumWorkers r.shuffle table plan.sampleCount =
          .ok (d, s) := by
  obtain ⟨config, hconfig, h⟩ := bind_eq_ok h
  obtain ⟨⟨schema, batches⟩, -, h⟩ := bind_eq_ok h
  obtain ⟨indices, -, h⟩ := bind_eq_ok h
  obtain ⟨selection, -, h⟩ := bind_eq_ok h
  obtain ⟨⟨d', s'⟩, hload, h⟩ := bind_eq_ok (mapError_eq_ok h)
  obtain ⟨seed, -, hload⟩ := bind_eq_ok hload
  obtain ⟨⟨⟩, hupdated, h⟩ := bind_eq_ok h
  obtain ⟨⟨⟩, hresized, h⟩ := bind_eq_ok h
  refine ⟨config, seed, ⟨schema, batches, selection⟩, mapError_eq_ok hconfig, ?_⟩
  have hupdated : (d'.updateMetadataArrow ⟨schema, batches, selection⟩ s').2 = .ok () := mapError_eq_ok hupdated
  have hresized : (Dataset.setEpochLen plan.sampleCount (d'.updateMetadataArrow ⟨schema, batches, selection⟩ s').1).2 =
      .ok () := mapError_eq_ok hresized
  have hload : Dataset.load (fun paths => loadedInOrder L tree paths config.readerConfig.validateCache)
      config.cachePaths seed config.readerConfig.prefetchSize.1 r.nativeNumWorkers r.shuffle = .ok (d', s') :=
    mapError_eq_ok hload
  rw [DatasetRt.createDataset, hload, ok_bind]
  show (d'.updateMetadataArrow ⟨schema, batches, selection⟩ s').2 >>= _ = _
  rw [hupdated, ok_bind]
  show (Dataset.setEpochLen plan.sampleCount (d'.updateMetadataArrow ⟨schema, batches, selection⟩ s').1).2 >>= _ = _
  rw [hresized, ok_bind]
  exact congrArg Except.ok (Except.ok.inj h)

/-- **Passes over the dataset of a worker** deliver the beginning of consecutive windows, each as long as its quota. -/
theorem passes_of_setup {R : RandLib} (hR : R.Lawful) {info : Option WorkerInfo} {d : Dataset}
    {s : MutableDatasetState} (h : r.setup L A J tree info = .ok (.ready d s)) :
    ∃ plan, r.workerPlan info = .ok plan ∧ ∀ {σ τ : Type} (sample : ℕ → σ) (transform : σ → τ) (calls : List PassCall)
      (a : ReaderAdapter R σ τ),
      Machine.run (ReaderAdapter.step plan.sampleCount (.ok (d, s)) sample transform) ReaderAdapter.opened calls =
        some a →
      ∃ (s' : MutableDatasetState) (windows : List (EpochPlan R)),
        Windows d s s' windows ∧ (∀ window ∈ windows, window.len = plan.sampleCount) ∧
        (a.delivered.map fun p => some p.2) <+:
          (windowRows windows).map (Option.map fun physical => transform (sample physical)) := by
  obtain ⟨plan, hplan, h⟩ := bind_eq_ok h
  refine ⟨plan, hplan, fun sample transform calls a hrun => ?_⟩
  split_ifs at h with hquota
  · cases h
  · obtain ⟨⟨d', s'⟩, hcreate, h⟩ := bind_eq_ok h
    cases h
    obtain ⟨config, seed, table, -, hcreated⟩ := createDataset_created hcreate
    refine ReaderAdapter.exists_windows hR (Nat.pos_of_ne_zero hquota) (fun d₀ s₀ hok => ?_) hrun rfl
    cases hok
    exact createDataset_ok hcreated

end ReaderInputs

theorem prepareAdapter_ok {J : ConfigJson} (N : NumpyRandom) {tree : FileTree} {configPath : Path}
    {config : DatasetConfiguration} (hconfig : loadConfiguration J tree configPath = .ok config)
    (replica : ReplicaIdentity) {o : AdapterOptions} (ho : o.Accepted) (randbits : ℕ → BitVec 64)
    (hrows : config.rowCount.1 < maxWords) :
    ∃ r, prepareAdapter J N tree configPath replica o randbits = .ok r ∧ r.configPath = configPath ∧
      r.shuffle = o.shuffle ∧ r.nativeNumWorkers = o.nativeThreads ∧ r.partitions.length = max 1 o.processes ∧
      preparePartitions config.rowCount replica o.processes o.batchSize o.sampleCount o.workerPartition o.shuffle o.seed
        o.dropLast randbits = .ok r.partitions ∧
      ∀ (k : ℕ) plan, r.partitions[k]? = some plan → plan.rank = r.replica.rank ∧ plan.workerId = k ∧
        (0 < plan.sampleCount → 0 < plan.populationSize) ∧ plan.populationSize < maxWords ∧
        ∀ seed ∈ plan.partitionSeed, r.order = some (prepareRowOrder N config.rowCount seed) := by
  obtain ⟨plans, hplans, hlength, hall⟩ := preparePartitions_plans replica o.batchSize o.workerPartition o.shuffle
    o.dropLast randbits hrows ho.sampleCount ho.processes ho.seed
  obtain ⟨order, horder, hshared⟩ : ∃ order, o.prepareOrder N config.rowCount = .ok order ∧
      ∀ seed ∈ if o.shuffle ∧ o.workerPartition = .split then o.seed else none,
        order = some (prepareRowOrder N config.rowCount seed) := by
    unfold AdapterOptions.prepareOrder
    split_ifs with hshuffled
    · obtain ⟨seed, hseed⟩ := Option.ne_none_iff_exists'.mp (ho.seeded hshuffled.1)
      rw [hseed]
      refine ⟨_, rfl, fun other hother => ?_⟩
      cases hother
      rfl
    · exact ⟨none, rfl, fun seed hseed => by cases hseed⟩
  refine ⟨⟨replica, o.shuffle, o.nativeThreads, (plans.map WorkerPlan.sampleCount).sum, plans, configPath, order⟩, ?_, rfl,
    rfl, rfl, hlength, hplans, fun k plan hk => ?_⟩
  · rw [prepareAdapter, hconfig, mapError_ok, ok_bind, hplans, mapError_ok, ok_bind, horder, ok_bind]
  · obtain ⟨hrank, hworker, hseed, hpos, hshort⟩ := hall k plan hk
    exact ⟨hrank, hworker, hpos, hshort, fun seed hmem => hshared seed (hseed ▸ hmem)⟩

/-- **Loading workers read the exported dataset.**  From whatever a crash leaves of an export, with settings that
`LoaderOptions` lets through, every rank finds plans for its consumers, and every consumer finds its plan.  A consumer
without a quota needs no reader.  Every other consumer makes a dataset exactly if the weights of its rows have a finite
sum; it has the caches of the exported dataset, its population are the samples and weights of the rows of the plan in
their order, its epoch is its quota, and its cursors are fresh. -/
theorem worker_datasets {R : RandLib} (hR : R.Lawful) {A : ArrowLib} (hA : A.Lawful)
    (hfiles : ∀ bytes schema batches, A.readFile bytes = .ok (schema, batches) → Uniform schema batches)
    {J : ConfigJson} (hJ : J.Lawful) {L : StorageLib}
    {metadataBatches : LoadedCache → CacheResult (List (CacheResult RecordBatch))} {call : DumpCall} {left : FileTree}
    (hexport : CrashedExport R A J L metadataBatches call left) {N : NumpyRandom} (hN : N.Lawful)
    (replica : ReplicaIdentity) {o : AdapterOptions} (ho : o.Accepted) (randbits : ℕ → BitVec 64)
    (hrows : call.dataset.activeLen call.state.active < maxWords) :
    ∃ r, prepareAdapter J N left (call.path .config) replica o randbits = .ok r ∧
      r.partitions.length = max 1 o.processes ∧
      ∀ (k : ℕ) plan, r.partitions[k]? = some plan →
        (plan.sampleCount = 0 → r.setup L A J left (consumer o.processes k) = .ok .empty) ∧
        (0 < plan.sampleCount →
          ((∃ reader, r.setup L A J left (consumer o.processes k) = .ok reader) ↔ plan.Summable N call) ∧
          ∀ reader, r.setup L A J left (consumer o.processes k) = .ok reader →
            ∃ s, reader = .ready (plan.datasetOf call o.nativeThreads o.shuffle) s ∧ plan.PopulationOf N call s) := by
  obtain ⟨config, schema, batches, active, s₀, h⟩ := hexport.readable hR hA hfiles hJ
  obtain ⟨hcount, -⟩ := ReaderInputs.rowCount_eq h
  obtain ⟨r, hprepare, hpath, hshuffle, hthreads, hlength, -, hplans⟩ :=
    prepareAdapter_ok N h.configuration replica ho randbits (hcount ▸ hrows)
  refine ⟨r, hprepare, hlength, fun k plan hk => ?_⟩
  obtain ⟨hrank, hworker, hpos, hshort, horder⟩ := hplans k plan hk
  rw [← hshuffle, ← hthreads]
  exact ReaderInputs.setup_iff hN h hrows hpath (ReaderInputs.workerPlan_consumer hlength hk hrank hworker) hpos hshort
    horder

namespace StoredRows

/-- The only rank. -/
def replica : ReplicaIdentity := ⟨0, 1, by decide, Nat.one_pos⟩

/-- Two loading processes share the shuffled rows. -/
def options : AdapterOptions := ⟨true, false, ⟨1, Nat.one_pos⟩, .split, 2, ⟨1, Nat.one_pos⟩, some 3, 2⟩

theorem accepted_options : options.Accepted :=
  ⟨by decide, by decide, fun s hs => by cases hs; decide, fun _ h => by cases h⟩

theorem exists_prepared {left : FileTree}
    (hexport : CrashedExport RandLib.first TwoRows.arrow TwoRows.json lib (fun _ => .ok []) call left)
    {o : AdapterOptions} (ho : o.Accepted) (rank : ReplicaIdentity) :
    ∃ r, prepareAdapter TwoRows.json .sampled left (call.path .config) rank o (fun _ => 0) = .ok r ∧
      preparePartitions ⟨2, Nat.two_pos⟩ rank o.processes o.batchSize o.sampleCount o.workerPartition o.shuffle o.seed
        o.dropLast (fun _ => 0) = .ok r.partitions ∧
      ∀ (k : ℕ) plan, r.partitions[k]? = some plan → 0 < plan.sampleCount → plan.Summable .sampled call →
        ∃ s, r.setup lib TwoRows.arrow TwoRows.json left (consumer o.processes k) =
          .ok (.ready (plan.datasetOf call o.nativeThreads o.shuffle) s) ∧ s.epochLen.1 = plan.sampleCount := by
  obtain ⟨config, schema, batches, active, s₀, h⟩ := hexport.readable RandLib.lawful_first TwoRows.lawful_arrow
    uniform_files TwoRows.lawful_json
  have hrows : config.rowCount = ⟨2, Nat.two_pos⟩ := Subtype.ext (ReaderInputs.rowCount_eq h).1
  obtain ⟨r, hprepare, hpath, hshuffle, hthreads, hlength, hplans, hall⟩ := prepareAdapter_ok .sampled
    h.configuration rank ho (fun _ => 0) (by rw [hrows]; decide)
  refine ⟨r, hprepare, hrows ▸ hplans, fun k plan hk hquota hsummable => ?_⟩
  obtain ⟨hrank, hworker, hpos, hshort, horder⟩ := hall k plan hk
  obtain ⟨hiff, hmade⟩ := (ReaderInputs.setup_iff NumpyRandom.lawful_sampled h (by decide) hpath
    (ReaderInputs.workerPlan_consumer hlength hk hrank hworker) hpos hshort horder).2 hquota
  obtain ⟨reader, hreader⟩ := hiff.mpr hsummable
  obtain ⟨s, rfl, hpopulation⟩ := hmade reader hreader
  exact ⟨s, by rw [hreader, hshuffle, hthreads], hpopulation.epochLen⟩

theorem summable_of_rows {plan : WorkerPlan} {row : ℕ} (hrow : row < 2) (h : plan.rows .sampled 2 = [row]) :
    plan.Summable .sampled call := by
  unfold WorkerPlan.Summable
  rw [show call.dataset.activeLen call.state.active = 2 from rfl, h]
  match row, hrow with
  | 0, _ => exact ⟨by decide +kernel, by decide +kernel, by decide +kernel, trivial⟩
  | 1, _ => exact ⟨by decide +kernel, by decide +kernel, by decide +kernel, trivial⟩

theorem exists_second_plan {partitions : List WorkerPlan}
    (h : preparePartitions ⟨2, Nat.two_pos⟩ replica options.processes options.batchSize options.sampleCount
      options.workerPartition options.shuffle options.seed options.dropLast (fun _ => 0) = .ok partitions) :
    ∃ plan, partitions[1]? = some plan ∧ plan.rows .sampled 2 = [0] ∧ plan.sampleCount = 1 := by
  have hconcrete : preparePartitions ⟨2, Nat.two_pos⟩ replica 2 ⟨1, Nat.one_pos⟩ 2 .split true (some 3) false
      (fun _ => 0) = .ok [
        ⟨0, 0, 0, 1, 1, 3571654488517972352, some 3, by decide, by decide, by decide, by decide⟩,
        ⟨0, 1, 1, 1, 1, 11036868982324205000, some 3, by decide, by decide, by decide, by decide⟩] := by
    decide +kernel
  rw [← Except.ok.inj (hconcrete.symm.trans h)]
  exact ⟨_, rfl, by decide, rfl⟩

end StoredRows

open StoredRows in
/-- The second process reads the first row of the table, which is the last one of the order. -/
theorem worker_datasets_two_rows : ∃ left r plan s,
    prepareAdapter TwoRows.json .sampled left (call.path .config) replica options (fun _ => 0) = .ok r ∧
    r.partitions[1]? = some plan ∧ plan.rows .sampled 2 = [0] ∧
    r.setup lib TwoRows.arrow TwoRows.json left (some ⟨1, 2⟩) =
      .ok (.ready (plan.datasetOf call ⟨1, Nat.one_pos⟩ true) s) ∧ s.epochLen.1 = 1 := by
  obtain ⟨ended, -, hexport⟩ := exists_export
  obtain ⟨r, hprepare, -, hall⟩ := worker_datasets RandLib.lawful_first TwoRows.lawful_arrow uniform_files
    TwoRows.lawful_json hexport NumpyRandom.lawful_sampled replica accepted_options (fun _ => 0) (by decide)
  obtain ⟨r', hprepare', hplans, -⟩ := exists_prepared hexport accepted_options replica
  obtain rfl := Except.ok.inj (hprepare.symm.trans hprepare')
  obtain ⟨plan, hplan, hrows, hquota⟩ := exists_second_plan hplans
  obtain ⟨hiff, hmade⟩ := (hall 1 plan hplan).2 (by omega)
  obtain ⟨reader, hreader⟩ := hiff.mpr (summable_of_rows Nat.two_pos hrows)
  obtain ⟨s, rfl, hpopulation⟩ := hmade reader hreader
  exact ⟨ended.disk.tree, r, plan, s, hprepare, hplan, hrows, hreader, hpopulation.epochLen.trans hquota⟩

end DatasetRt
