import DatasetRt.MetadataCodec
import DatasetRt.WorkerDatasets

/-! # Settings of a loader

`make_dataloader` (`integrations/loader.py`) takes its settings as a caller gives them.  `LoaderOptions` refuses what it
does not know before anything is counted or exported; then the worker counts are chosen from the CPUs that the ranks of
a machine share, and the ranks agree on a seed (`LoaderArguments.resolve`).

The ranks of a training get the same settings and have the same dataset.  If they all come so far, each of them prepares
its adapter after the export, and their loaders agree in length and order (`loaders_prepared`). -/

namespace DatasetRt

/-! ### Validation -/

/-- `sys.maxsize`. -/
def maxSize : ℕ := 2 ^ 63 - 1

def maxSampleBudget : ℕ := min maxSize (2 ^ 53)

/-- A count that is chosen automatically, or is given within its bounds. -/
inductive CountSetting (minimum maximum : ℕ) where
  | auto
  | exactly (value : ℕ) (bounds : minimum ≤ value ∧ value ≤ maximum)

/-- The arguments; `none` is Python's `None`. -/
structure LoaderArguments where
  shuffle : PyObject
  seed : PyObject
  samplesPerEpoch : Option PyObject
  partition : Option PyObject
  batchSize : PyObject
  numWorkers : PyObject
  nativeNumWorkers : PyObject
  dropLast : PyObject
  pinMemory : PyObject
  persistentWorkers : PyObject
  timeout : Float
  /-- `none` is a context of `multiprocessing`. -/
  context : Option PyObject
  prefetch : PyObject
  verbose : PyObject
  /-- Whether `pickle` takes the transform; `none` without one. -/
  picklable : Option Bool
  /-- The keys of `dataloader_kwargs`. -/
  extraNames : List String

/-- The settings that `__post_init__` lets through; `none` is `"random"`, the dataset's length, the default of the
partition and `"auto"`. -/
structure LoaderOptions where
  shuffle : Bool
  seed : Option ℕ
  samplesPerEpoch : Option ℕ
  partition : Option WorkerPartition
  batchSize : Positive
  numWorkers : CountSetting 0 (2 ^ 32 - 1)
  nativeNumWorkers : CountSetting 1 maxSize
  dropLast : Bool
  persistentWorkers : Option Bool
  timeout : Float
  prefetch : CountSetting 1 maxSize
  seed_lt : ∀ s ∈ seed, s < 2 ^ 64

/-- `_validate_count`. -/
def validateCount (name : String) (minimum maximum : ℕ) : PyObject → Except String (CountSetting minimum maximum)
  | .str mode =>
      if mode = "auto" then .ok .auto
      else .error s!"{name} must be 'auto' or an integer between {minimum} and {maximum}"
  | .int value =>
      if h : minimum ≤ value.toNat ∧ value.toNat ≤ maximum ∧ 0 ≤ value then .ok (.exactly value.toNat ⟨h.1, h.2.1⟩)
      else .error s!"{name} must be 'auto' or an integer between {minimum} and {maximum}"
  | _ => .error s!"{name} must be 'auto' or an integer between {minimum} and {maximum}"

def validateBool (name : String) : PyObject → Except String Bool
  | .bool b => .ok b
  | _ => .error s!"{name} must be a boolean"

def validateBatchSize : PyObject → Except String Positive
  | .int value =>
      if h : 0 < value.toNat ∧ value.toNat ≤ maxSize then .ok ⟨value.toNat, h.1⟩
      else .error "batch_size must be a positive integer fitting sys.maxsize"
  | _ => .error "batch_size must be a positive integer fitting sys.maxsize"

def validateSamples : Option PyObject → Except String (Option ℕ)
  | none => .ok none
  | some (.int value) =>
      if 1 ≤ value ∧ value ≤ maxSampleBudget then .ok (some value.toNat)
      else .error s!"samples_per_epoch must be a positive integer <= {maxSampleBudget} or None"
  | _ => .error s!"samples_per_epoch must be a positive integer <= {maxSampleBudget} or None"

def validatePersistence : PyObject → Except String (Option Bool)
  | .bool b => .ok (some b)
  | .str mode => if mode = "auto" then .ok none else .error "persistent_workers must be a boolean or 'auto'"
  | _ => .error "persistent_workers must be a boolean or 'auto'"

/-- `_validate_seed`. -/
def validateSeed (shuffle : Bool) : PyObject → Except String {seed : Option ℕ // ∀ s ∈ seed, s < 2 ^ 64}
  | .str mode =>
      if mode = "random" then .ok ⟨none, fun s hs => absurd hs (Option.not_mem_none s)⟩
      else .error "seed must be 'random' or an unsigned 64-bit integer"
  | .int value =>
      if shuffle then
        if h : 0 ≤ value ∧ value.toNat < 2 ^ 64 then .ok ⟨some value.toNat, fun _ hs => Option.some.inj hs ▸ h.2⟩
        else .error "seed must be 'random' or an unsigned 64-bit integer"
      else .error "seed requires shuffle=True; use 'random' for sequential reading"
  | _ => .error "seed must be 'random' or an unsigned 64-bit integer"

/-- `_validate_context`, with the start methods of the platform. -/
def validateContext (startMethods : List String) : Option PyObject → Except String Unit
  | none => .ok ()
  | some (.str method) =>
      if method = "inherit" ∨ method ∈ startMethods then .ok ()
      else .error "multiprocessing_context must be 'inherit', an available start method, or BaseContext"
  | some _ => .error "multiprocessing_context must be 'inherit', an available start method, or BaseContext"

def validatePartition : Option PyObject → Except String (Option WorkerPartition)
  | none => .ok none
  | some (.str name) =>
      if name = "split" then .ok (some .split)
      else if name = "replicate" then .ok (some .replicate)
      else .error "worker_partition must be 'split', 'replicate', or None"
  | some _ => .error "worker_partition must be 'split', 'replicate', or None"

/-- `LoaderOptions(...)` with `__post_init__`. -/
def LoaderArguments.options (a : LoaderArguments) (startMethods : List String) : Except String LoaderOptions := do
  let numWorkers ← validateCount "num_workers" 0 (2 ^ 32 - 1) a.numWorkers
  let nativeNumWorkers ← validateCount "native_num_workers" 1 maxSize a.nativeNumWorkers
  let shuffle ← validateBool "shuffle" a.shuffle
  let dropLast ← validateBool "drop_last" a.dropLast
  let _ ← validateBool "pin_memory" a.pinMemory
  let _ ← validateBool "verbose" a.verbose
  let batchSize ← validateBatchSize a.batchSize
  let samplesPerEpoch ← validateSamples a.samplesPerEpoch
  if a.timeout.isFinite = false ∨ a.timeout < 0.0 then .error "timeout must be finite and nonnegative"
  else do
    let prefetch ← validateCount "prefetch_factor" 1 maxSize a.prefetch
    let persistentWorkers ← validatePersistence a.persistentWorkers
    let seed ← validateSeed shuffle a.seed
    validateContext startMethods a.context
    let partition ← validatePartition a.partition
    .ok { shuffle, seed := seed.1, samplesPerEpoch, partition, batchSize, numWorkers, nativeNumWorkers, dropLast
          persistentWorkers, timeout := a.timeout, prefetch, seed_lt := seed.2 }

/-- The names that `dataloader_kwargs` may not have. -/
def reservedArguments : List String :=
  ["dataset", "sampler", "batch_sampler", "shuffle", "seed", "samples_per_epoch", "worker_partition", "work_dir",
    "batch_size", "num_workers", "sample_transform_fn", "collate_fn", "drop_last", "pin_memory", "timeout",
    "native_num_workers", "multiprocessing_context", "worker_init_fn", "prefetch_factor", "persistent_workers",
    "verbose", "dataloader_kwargs"]

def validateExtra (names : List String) : Except String Unit :=
  let conflicts := names.filter fun name => decide (name ∈ reservedArguments)
  if conflicts.isEmpty then .ok ()
  else .error ("dataloader_kwargs contains reserved arguments: " ++
    ", ".intercalate (conflicts.mergeSort fun a b => decide (a ≤ b)))

/-- `_validate_transform`. -/
def validateTransform (picklable : Option Bool) (numWorkers : ℕ) : Except String Unit :=
  if picklable = some false ∧ numWorkers ≠ 0 then
    .error "sample_transform_fn must be picklable for multiprocess loading"
  else .ok ()

/-! ### Worker counts -/

/-- `local_rank_count`; `configured` is what `int` makes of `LOCAL_WORLD_SIZE`, if it is set. -/
def localRankCount (configured : Option (Except String ℤ)) (worldSize : ℕ) : Except String ℕ :=
  if 1 < worldSize then
    match configured with
    | none => .ok worldSize
    | some parsed => do
        let ranks ← parsed
        if 1 ≤ ranks ∧ ranks ≤ worldSize then .ok ranks.toNat
        else .error "LOCAL_WORLD_SIZE must be between one and the distributed world size"
  else .ok worldSize

def loadingWorkerCount (cpuCount localRanks : ℕ) : Except String ℕ :=
  if cpuCount < 1 ∨ localRanks < 1 then .error "CPU and rank budgets must be positive"
  else .ok (min 4 (cpuCount / localRanks - 1))

def nativeWorkerCount (cpuCount numWorkers localRanks : ℕ) : Except String Positive :=
  if cpuCount < 1 ∨ localRanks < 1 then .error "CPU and rank budgets must be positive; loading workers nonnegative"
  else
    .ok ⟨max 1 (min 4 (cpuCount / (max 1 numWorkers * localRanks))), Nat.lt_of_lt_of_le Nat.one_pos (le_max_left _ _)⟩

structure WorkerCounts where
  processes : ℕ
  nativeThreads : Positive

/-- The CPUs of a machine suffice for the native threads of all consumers of its ranks, and for the training processes
beside their loading processes.  Where the ranks alone are more than the CPUs, they load by themselves. -/
structure WorkerCounts.Fit (counts : WorkerCounts) (cpuCount localRanks : ℕ) : Prop where
  threads : localRanks ≤ cpuCount → localRanks * (max 1 counts.processes * counts.nativeThreads.1) ≤ cpuCount
  training : 0 < counts.processes → localRanks * (counts.processes + 1) ≤ cpuCount
  crowded : cpuCount < localRanks → counts.processes = 0 ∧ counts.nativeThreads.1 = 1

section workers

variable (cpus : Positive) (configured : Option (Except String ℤ)) (worldSize : ℕ)

/-- `resolve_worker_counts`, with what `available_cpu_count` gives. -/
def resolveWorkerCounts (numWorkers : CountSetting 0 (2 ^ 32 - 1)) (nativeNumWorkers : CountSetting 1 maxSize) :
    Except String WorkerCounts :=
  match numWorkers, nativeNumWorkers with
  | .exactly processes _, .exactly threads bounds => .ok ⟨processes, threads, bounds.1⟩
  | .exactly processes _, .auto => do
      let ranks ← localRankCount configured worldSize
      let threads ← nativeWorkerCount cpus.1 processes ranks
      .ok ⟨processes, threads⟩
  | .auto, .exactly threads bounds => do
      let ranks ← localRankCount configured worldSize
      let processes ← loadingWorkerCount cpus.1 ranks
      .ok ⟨processes, threads, bounds.1⟩
  | .auto, .auto => do
      let ranks ← localRankCount configured worldSize
      let processes ← loadingWorkerCount cpus.1 ranks
      let threads ← nativeWorkerCount cpus.1 processes ranks
      .ok ⟨processes, threads⟩

structure ResolvedWorkers where
  counts : WorkerCounts
  persistent : Bool
  prefetch : Option ℕ

def LoaderOptions.resolvePersistence (o : LoaderOptions) (processes : ℕ) : Except String Bool :=
  match o.persistentWorkers with
  | none => .ok (decide (0 < processes))
  | some persistent =>
      if persistent ∧ processes = 0 then .error "persistent_workers=True requires num_workers > 0" else .ok persistent

def LoaderOptions.resolvePrefetch (o : LoaderOptions) (processes : ℕ) : Except String (Option ℕ) :=
  match o.prefetch with
  | .auto => .ok (if 0 < processes then some 2 else none)
  | .exactly prefetch _ =>
      if processes = 0 then .error "prefetch_factor requires num_workers > 0" else .ok (some prefetch)

def LoaderOptions.resolveWorkers (o : LoaderOptions) : Except String ResolvedWorkers := do
  let counts ← resolveWorkerCounts cpus configured worldSize o.numWorkers o.nativeNumWorkers
  if counts.processes = 0 ∧ (o.timeout != 0.0) = true then .error "timeout must be zero with num_workers=0"
  else do
    let persistent ← o.resolvePersistence counts.processes
    let prefetch ← o.resolvePrefetch counts.processes
    .ok { counts, persistent, prefetch }

end workers

def LoaderOptions.resolvedPartition (o : LoaderOptions) : WorkerPartition :=
  match o.partition with
  | none => if o.shuffle then .replicate else .split
  | some partition => partition

/-- `common_seed`; `drawn` is what rank zero has drawn and every rank receives. -/
def commonSeed (shuffle : Bool) (seed : Option ℕ) (drawn : BitVec 64) : Option ℕ :=
  if shuffle then some (seed.getD drawn.toNat) else none

/-- `make_dataloader` up to the export. -/
def LoaderArguments.resolve (a : LoaderArguments) (startMethods : List String) (replica : ReplicaIdentity)
    (cpus : Positive) (configured : Option (Except String ℤ)) (datasetLen : ℕ) (drawn : BitVec 64) :
    Except String AdapterOptions := do
  validateExtra a.extraNames
  let o ← a.options startMethods
  let workers ← o.resolveWorkers cpus configured replica.worldSize
  validateTransform a.picklable workers.counts.processes
  let sampleCount := o.samplesPerEpoch.getD datasetLen
  if 1 ≤ sampleCount ∧ sampleCount ≤ maxSampleBudget then
    .ok { shuffle := o.shuffle, dropLast := o.dropLast, batchSize := o.batchSize, workerPartition := o.resolvedPartition
          processes := workers.counts.processes, nativeThreads := workers.counts.nativeThreads
          seed := commonSeed o.shuffle o.seed drawn, sampleCount }
  else .error s!"inherited samples_per_epoch must be between 1 and {maxSampleBudget}"

/-! ### What was resolved -/

section resolved

variable {a : LoaderArguments} {startMethods : List String} {replica : ReplicaIdentity} {cpus : Positive}
  {configured : Option (Except String ℤ)} {worldSize datasetLen : ℕ} {drawn : BitVec 64} {s : AdapterOptions}

theorem LoaderArguments.resolve_eq_ok (h : a.resolve startMethods replica cpus configured datasetLen drawn = .ok s) :
    ∃ o workers, a.options startMethods = .ok o ∧
      o.resolveWorkers cpus configured replica.worldSize = .ok workers ∧
      o.samplesPerEpoch.getD datasetLen ≤ maxSampleBudget ∧
      s = { shuffle := o.shuffle, dropLast := o.dropLast, batchSize := o.batchSize
            workerPartition := o.resolvedPartition, processes := workers.counts.processes
            nativeThreads := workers.counts.nativeThreads, seed := commonSeed o.shuffle o.seed drawn
            sampleCount := o.samplesPerEpoch.getD datasetLen } := by
  obtain ⟨-, -, h⟩ := bind_eq_ok h
  obtain ⟨o, ho, h⟩ := bind_eq_ok h
  obtain ⟨workers, hworkers, h⟩ := bind_eq_ok h
  obtain ⟨-, -, h⟩ := bind_eq_ok h
  simp only at h
  split_ifs at h with hcount
  exact ⟨o, workers, ho, hworkers, hcount.2, (Except.ok.inj h).symm⟩

theorem LoaderArguments.options_eq_ok {o : LoaderOptions} (h : a.options startMethods = .ok o) :
    validateCount "num_workers" 0 (2 ^ 32 - 1) a.numWorkers = .ok o.numWorkers ∧
      validateCount "native_num_workers" 1 maxSize a.nativeNumWorkers = .ok o.nativeNumWorkers := by
  obtain ⟨numWorkers, hnumWorkers, h⟩ := bind_eq_ok h
  obtain ⟨nativeNumWorkers, hnative, h⟩ := bind_eq_ok h
  obtain ⟨shuffle, -, h⟩ := bind_eq_ok h
  obtain ⟨dropLast, -, h⟩ := bind_eq_ok h
  obtain ⟨-, -, h⟩ := bind_eq_ok h
  obtain ⟨-, -, h⟩ := bind_eq_ok h
  obtain ⟨batchSize, -, h⟩ := bind_eq_ok h
  obtain ⟨samplesPerEpoch, -, h⟩ := bind_eq_ok h
  split_ifs at h
  obtain ⟨prefetch, -, h⟩ := bind_eq_ok h
  obtain ⟨persistentWorkers, -, h⟩ := bind_eq_ok h
  obtain ⟨seed, -, h⟩ := bind_eq_ok h
  obtain ⟨-, -, h⟩ := bind_eq_ok h
  obtain ⟨partition, -, h⟩ := bind_eq_ok h
  cases h
  exact ⟨hnumWorkers, hnative⟩

/-- What ranks resolve from the same arguments differs in the workers only. -/
theorem LoaderArguments.resolve_agree {replica' : ReplicaIdentity} {cpus' : Positive}
    {configured' : Option (Except String ℤ)} {s' : AdapterOptions}
    (h : a.resolve startMethods replica cpus configured datasetLen drawn = .ok s)
    (h' : a.resolve startMethods replica' cpus' configured' datasetLen drawn = .ok s') :
    s' = { s with processes := s'.processes, nativeThreads := s'.nativeThreads } := by
  obtain ⟨o, workers, ho, -, -, rfl⟩ := resolve_eq_ok h
  obtain ⟨o', workers', ho', -, -, rfl⟩ := resolve_eq_ok h'
  obtain rfl := Except.ok.inj (ho.symm.trans ho')
  rfl

theorem LoaderOptions.resolveWorkers_eq_ok {o : LoaderOptions} {workers : ResolvedWorkers}
    (h : o.resolveWorkers cpus configured worldSize = .ok workers) :
    resolveWorkerCounts cpus configured worldSize o.numWorkers o.nativeNumWorkers = .ok workers.counts := by
  obtain ⟨counts, hcounts, h⟩ := bind_eq_ok h
  split_ifs at h
  obtain ⟨persistent, -, h⟩ := bind_eq_ok h
  obtain ⟨prefetch, -, h⟩ := bind_eq_ok h
  cases h
  exact hcounts

theorem loadingWorkerCount_eq_ok {cpuCount localRanks processes : ℕ}
    (h : loadingWorkerCount cpuCount localRanks = .ok processes) : processes = min 4 (cpuCount / localRanks - 1) := by
  unfold loadingWorkerCount at h
  split_ifs at h
  exact (Except.ok.inj h).symm

theorem nativeWorkerCount_eq_ok {cpuCount numWorkers localRanks : ℕ} {threads : Positive}
    (h : nativeWorkerCount cpuCount numWorkers localRanks = .ok threads) :
    0 < localRanks ∧ threads.1 = max 1 (min 4 (cpuCount / (max 1 numWorkers * localRanks))) := by
  unfold nativeWorkerCount at h
  split_ifs at h with hpos
  cases h
  constructor
  · omega
  · rfl

theorem resolveWorkerCounts_lt {numWorkers : CountSetting 0 (2 ^ 32 - 1)} {nativeNumWorkers : CountSetting 1 maxSize}
    {counts : WorkerCounts}
    (h : resolveWorkerCounts cpus configured worldSize numWorkers nativeNumWorkers = .ok counts) :
    counts.processes < 2 ^ 32 := by
  have hchosen : ∀ {ranks processes : ℕ}, loadingWorkerCount cpus.1 ranks = .ok processes → processes < 2 ^ 32 := by
    intro ranks processes hprocesses
    have heq := loadingWorkerCount_eq_ok hprocesses
    omega
  cases numWorkers with
  | exactly processes bounds =>
      cases nativeNumWorkers with
      | exactly threads hthreads =>
          cases h
          exact Nat.lt_succ_of_le bounds.2
      | auto =>
          obtain ⟨ranks, -, h⟩ := bind_eq_ok h
          obtain ⟨threads, -, h⟩ := bind_eq_ok h
          cases h
          exact Nat.lt_succ_of_le bounds.2
  | auto =>
      cases nativeNumWorkers with
      | exactly threads hthreads =>
          obtain ⟨ranks, -, h⟩ := bind_eq_ok h
          obtain ⟨processes, hprocesses, h⟩ := bind_eq_ok h
          cases h
          exact hchosen hprocesses
      | auto =>
          obtain ⟨ranks, -, h⟩ := bind_eq_ok h
          obtain ⟨processes, hprocesses, h⟩ := bind_eq_ok h
          obtain ⟨threads, -, h⟩ := bind_eq_ok h
          cases h
          exact hchosen hprocesses

theorem resolveWorkerCounts_fit {counts : WorkerCounts}
    (h : resolveWorkerCounts cpus configured worldSize .auto .auto = .ok counts) :
    ∃ ranks, localRankCount configured worldSize = .ok ranks ∧ counts.Fit cpus.1 ranks := by
  obtain ⟨ranks, hranks, h⟩ := bind_eq_ok h
  obtain ⟨processes, hprocesses, h⟩ := bind_eq_ok h
  obtain ⟨threads, hthreads, h⟩ := bind_eq_ok h
  cases h
  have hprocesses := loadingWorkerCount_eq_ok hprocesses
  obtain ⟨hpos, hthreads⟩ := nativeWorkerCount_eq_ok hthreads
  have hshare : ranks * (cpus.1 / ranks) ≤ cpus.1 := Nat.mul_div_le cpus.1 ranks
  refine ⟨ranks, hranks, fun hle => ?_, fun hbusy => ?_, fun hlt => ?_⟩
  · -- the consumers of a rank are at most its share
    have hone : 1 ≤ cpus.1 / ranks := (Nat.one_le_div_iff hpos).mpr hle
    have hconsumers : max 1 processes ≤ cpus.1 / ranks := by omega
    have hused : max 1 processes * ranks ≤ cpus.1 := by
      rw [Nat.mul_comm]
      exact (Nat.mul_le_mul_left ranks hconsumers).trans hshare
    have hthread : 1 ≤ cpus.1 / (max 1 processes * ranks) :=
      (Nat.one_le_div_iff (Nat.mul_pos (by omega) hpos)).mpr hused
    have hbound : threads.1 ≤ cpus.1 / (max 1 processes * ranks) := by omega
    calc ranks * (max 1 processes * threads.1)
        = max 1 processes * ranks * threads.1 := by rw [← Nat.mul_assoc, Nat.mul_comm ranks]
      _ ≤ max 1 processes * ranks * (cpus.1 / (max 1 processes * ranks)) := Nat.mul_le_mul_left _ hbound
      _ ≤ cpus.1 := Nat.mul_div_le _ _
  · have hle : processes + 1 ≤ cpus.1 / ranks := by
      simp only at hbusy
      omega
    exact (Nat.mul_le_mul_left ranks hle).trans hshare
  · have hzero : cpus.1 / ranks = 0 := Nat.div_eq_of_lt hlt
    have hidle : processes = 0 := by omega
    subst hidle
    rw [max_eq_left (Nat.zero_le 1), Nat.one_mul, hzero] at hthreads
    exact ⟨rfl, by simpa using hthreads⟩

theorem LoaderArguments.accepted_resolve (h : a.resolve startMethods replica cpus configured datasetLen drawn = .ok s) :
    s.Accepted := by
  obtain ⟨o, workers, -, hworkers, hcount, rfl⟩ := resolve_eq_ok h
  refine ⟨resolveWorkerCounts_lt (LoaderOptions.resolveWorkers_eq_ok hworkers), ?_, ?_, ?_⟩
  · exact hcount.trans (min_le_right _ _)
  · intro seed hseed
    unfold commonSeed at hseed
    split_ifs at hseed
    · cases Option.some.inj hseed
      cases hgiven : o.seed with
      | none => exact drawn.isLt
      | some given => exact o.seed_lt given hgiven
    · cases hseed
  · intro hshuffle
    simp only at hshuffle
    simp [commonSeed, hshuffle]

theorem LoaderArguments.resolve_fit (h : a.resolve startMethods replica cpus configured datasetLen drawn = .ok s)
    (hnumWorkers : a.numWorkers = .str "auto") (hnative : a.nativeNumWorkers = .str "auto") :
    ∃ ranks, localRankCount configured replica.worldSize = .ok ranks ∧
      WorkerCounts.Fit ⟨s.processes, s.nativeThreads⟩ cpus.1 ranks := by
  obtain ⟨o, workers, ho, hworkers, -, rfl⟩ := resolve_eq_ok h
  obtain ⟨hcount, hthreads⟩ := options_eq_ok ho
  have hresolved := LoaderOptions.resolveWorkers_eq_ok hworkers
  rw [hnumWorkers] at hcount
  rw [hnative] at hthreads
  rw [← Except.ok.inj hcount, ← Except.ok.inj hthreads] at hresolved
  exact resolveWorkerCounts_fit hresolved

end resolved

/-! ### The loaders of the ranks -/

/-- The length, the batches and the order of a rank come from the settings that it shares. -/
theorem prepareAdapter_lengths {J : ConfigJson} {N : NumpyRandom} {tree : FileTree} {configPath : Path}
    {config : DatasetConfiguration} (hconfig : loadConfiguration J tree configPath = .ok config)
    {replica : ReplicaIdentity} {o : AdapterOptions} (ho : o.Accepted) {randbits : ℕ → BitVec 64}
    (hrows : config.rowCount.1 < maxWords) {r : ReaderInputs}
    (h : prepareAdapter J N tree configPath replica o randbits = .ok r) :
    r.rowCount = rankBudget o.sampleCount replica o.batchSize o.dropLast ∧
      o.prepareOrder N config.rowCount = .ok r.order ∧
      (r.partitions.map fun plan => batchCount o.batchSize.1 o.dropLast plan.sampleCount).sum =
        batchCount o.batchSize.1 o.dropLast r.rowCount := by
  obtain ⟨loaded, hloaded, h⟩ := bind_eq_ok h
  obtain rfl := Except.ok.inj (hconfig.symm.trans (mapError_eq_ok hloaded))
  obtain ⟨plans, hplans, h⟩ := bind_eq_ok h
  obtain ⟨order, horder, h⟩ := bind_eq_ok h
  cases h
  obtain ⟨plans', populations, hok, hbudgeted, -⟩ := preparePartitions_ok o.batchSize o.workerPartition o.shuffle
    o.dropLast replica randbits (hrows.trans (by decide)) ho.sampleCount ho.processes ho.seed
  obtain rfl := Except.ok.inj (hok.symm.trans (mapError_eq_ok hplans))
  have hbatches := hbudgeted.sum_batchCount o.dropLast o.batchSize.2
  rw [List.map_map, ← hbudgeted.sum_eq] at hbatches
  exact ⟨hbudgeted.sum_eq, horder, hbatches⟩

/-- **The loaders of the ranks.**  Every rank has exported a dataset of the same length, and has resolved the same
arguments with what its machine has.  Then every rank prepares its adapter after the export; the loaders have the same
length, the same number of batches and the same row order, whatever their numbers of workers are; and automatic counts
fit the CPUs. -/
theorem loaders_prepared {R : RandLib} (hR : R.Lawful) {A : ArrowLib} (hA : A.Lawful)
    (hfiles : ∀ bytes schema batches, A.readFile bytes = .ok (schema, batches) → Uniform schema batches)
    {J : ConfigJson} (hJ : J.Lawful) {L : StorageLib}
    {metadataBatches : LoadedCache → CacheResult (List (CacheResult RecordBatch))} (N : NumpyRandom) {worldSize : ℕ}
    (hworld : worldSize ≤ 2 ^ 32) {call : Fin worldSize → DumpCall} {left : Fin worldSize → FileTree}
    (hexport : ∀ rank, CrashedExport R A J L metadataBatches (call rank) (left rank)) {rows datasetLen : ℕ}
    (hrows : ∀ rank, (call rank).dataset.activeLen (call rank).state.active = rows) (hshort : rows < maxWords)
    (hlen : ∀ rank, (call rank).state.epochLen.1 = datasetLen) {a : LoaderArguments} {startMethods : List String}
    {cpus : Fin worldSize → Positive} {configured : Fin worldSize → Option (Except String ℤ)} {drawn : BitVec 64}
    {s : Fin worldSize → AdapterOptions}
    (hresolved : ∀ rank : Fin worldSize, a.resolve startMethods ⟨rank, worldSize, hworld, rank.isLt⟩ (cpus rank)
      (configured rank) (call rank).state.epochLen.1 drawn = .ok (s rank)) (randbits : Fin worldSize → ℕ → BitVec 64) :
    ∃ r : Fin worldSize → ReaderInputs,
      (∀ rank : Fin worldSize, prepareAdapter J N (left rank) ((call rank).path .config)
        ⟨rank, worldSize, hworld, rank.isLt⟩ (s rank) (randbits rank) = .ok (r rank)) ∧
      (∀ rank rank', (r rank).rowCount = (r rank').rowCount ∧ (r rank).order = (r rank').order ∧
        ((r rank).partitions.map fun plan => batchCount (s rank).batchSize.1 (s rank).dropLast plan.sampleCount).sum =
          ((r rank').partitions.map fun plan =>
            batchCount (s rank').batchSize.1 (s rank').dropLast plan.sampleCount).sum) ∧
      (a.numWorkers = .str "auto" → a.nativeNumWorkers = .str "auto" → ∀ rank, ∃ ranks,
        localRankCount (configured rank) worldSize = .ok ranks ∧
          WorkerCounts.Fit ⟨(s rank).processes, (s rank).nativeThreads⟩ (cpus rank).1 ranks) := by
  have hconfigs : ∀ rank, ∃ config, loadConfiguration J (left rank) ((call rank).path .config) = .ok config ∧
      config.rowCount.1 = rows := by
    intro rank
    obtain ⟨config, schema, batches, active, s₀, h⟩ := (hexport rank).readable hR hA hfiles hJ
    exact ⟨config, h.configuration, (ReaderInputs.rowCount_eq h).1.trans (hrows rank)⟩
  choose config hconfig hcount using hconfigs
  have hshorts : ∀ rank, (config rank).rowCount.1 < maxWords := fun rank => hcount rank ▸ hshort
  have haccepted := fun rank => LoaderArguments.accepted_resolve (hresolved rank)
  have hprepared := fun rank : Fin worldSize => prepareAdapter_ok N (hconfig rank) ⟨rank, worldSize, hworld, rank.isLt⟩
    (haccepted rank) (randbits rank) (hshorts rank)
  choose r hprepare _ using hprepared
  refine ⟨r, hprepare, fun rank rank' => ?_, fun hnumWorkers hnative rank =>
    LoaderArguments.resolve_fit (hresolved rank) hnumWorkers hnative⟩
  obtain ⟨hlength, horder, hbatches⟩ :=
    prepareAdapter_lengths (hconfig rank) (haccepted rank) (hshorts rank) (hprepare rank)
  obtain ⟨hlength', horder', hbatches'⟩ :=
    prepareAdapter_lengths (hconfig rank') (haccepted rank') (hshorts rank') (hprepare rank')
  have hagree := LoaderArguments.resolve_agree (hlen rank ▸ hresolved rank) (hlen rank' ▸ hresolved rank')
  have hsame : (config rank').rowCount = (config rank).rowCount := Subtype.ext ((hcount rank').trans (hcount rank).symm)
  have hbudget : (r rank).rowCount = (r rank').rowCount := by
    rw [hlength, hlength', hagree, rankBudget_eq, rankBudget_eq]
  refine ⟨hbudget, ?_, ?_⟩
  · have hshared :
        (s rank').prepareOrder N (config rank').rowCount = (s rank).prepareOrder N (config rank).rowCount := by
      rw [hsame, hagree]
      rfl
    exact Except.ok.inj (horder.symm.trans (hshared.symm.trans horder'))
  · rw [hbatches, hbatches', hbudget, hagree]

namespace StoredRows

/-- A shuffled pass with automatic counts. -/
def arguments : LoaderArguments where
  shuffle := .bool true
  seed := .int 3
  samplesPerEpoch := none
  partition := some (.str "split")
  batchSize := .int 1
  numWorkers := .str "auto"
  nativeNumWorkers := .str "auto"
  dropLast := .bool false
  pinMemory := .bool false
  persistentWorkers := .str "auto"
  timeout := 0.0
  context := some (.str "inherit")
  prefetch := .str "auto"
  verbose := .bool true
  picklable := none
  extraNames := []

/-- What two ranks resolve where one has a machine of two CPUs and the other one of eight. -/
theorem resolve_arguments : ∀ rank : Fin 2,
    arguments.resolve [] ⟨rank, 2, by decide, rank.isLt⟩ (![⟨2, by decide⟩, ⟨8, by decide⟩] rank) none
      call.state.epochLen.1 0 = .ok { options with processes := ![0, 3] rank } :=
  Fin.forall_fin_two.mpr ⟨rfl, rfl⟩

end StoredRows

open StoredRows in
/-- One rank loads by itself, and the other one with three processes on a machine of eight CPUs. -/
theorem loaders_prepared_two_ranks : ∃ left, ∃ r : Fin 2 → ReaderInputs,
    (∀ rank : Fin 2, prepareAdapter TwoRows.json .sampled left (call.path .config) ⟨rank, 2, by decide, rank.isLt⟩
      { options with processes := ![0, 3] rank } (fun _ => 0) = .ok (r rank)) ∧
    (r 0).rowCount = (r 1).rowCount ∧ (r 0).order = (r 1).order ∧
    WorkerCounts.Fit ⟨3, ⟨1, Nat.one_pos⟩⟩ 8 2 := by
  obtain ⟨ended, -, hexport⟩ := exists_export
  obtain ⟨r, hprepare, hshared, hfit⟩ := loaders_prepared RandLib.lawful_first TwoRows.lawful_arrow uniform_files
    TwoRows.lawful_json .sampled (by decide) (fun _ => hexport) (fun _ => rfl) (by decide : 2 < maxWords)
    (fun _ => rfl) resolve_arguments fun _ _ => 0
  obtain ⟨hlength, horder, -⟩ := hshared 0 1
  obtain ⟨ranks, hranks, hfits⟩ := hfit rfl rfl 1
  cases hranks
  exact ⟨ended.disk.tree, r, hprepare, hlength, horder, hfits⟩

end DatasetRt
