import DatasetRt.Types
import DatasetRt.Lib.Tiling

/-! # Plans of the loading workers

`prepare_partitions` (`integrations/loader.py`) and the helpers of `integrations/loading.py`: the budget of a
rank, its split into quotas of the loading workers, and the population each of them reads.  Every rank computes
its plans alone, from the rows of the dataset, the budget of the epoch and its own number of workers.

A Python integer that the callers have checked to be nonnegative is a natural number.  The warning of
`rank_budget` and the texts of Pydantic's validation errors are left out. -/

namespace DatasetRt

/-- The exceptions of the planning functions. -/
inductive LoaderError where
  | value (message : String)
  | index (message : String)
  /-- Pydantic's error for a field of `WorkerPlan`. -/
  | validation (field : String)
deriving DecidableEq, Repr

abbrev LoaderResult (α : Type) := Except LoaderError α

structure RowSpan where
  offset : ℕ
  length : ℕ
deriving DecidableEq, Repr

structure ReplicaIdentity where
  rank : ℕ
  worldSize : ℕ
  worldSize_le : worldSize ≤ 2 ^ 32
  rank_lt : rank < worldSize

/-- Compact instructions for one logical consumer. -/
structure WorkerPlan where
  rank : ℕ
  workerId : ℕ
  offset : ℕ
  populationSize : ℕ
  sampleCount : ℕ
  seed : ℕ
  partitionSeed : Option ℕ
  rank_lt : rank < 2 ^ 32
  workerId_lt : workerId < 2 ^ 32
  seed_lt : seed < 2 ^ 64
  partitionSeed_lt : ∀ s ∈ partitionSeed, s < 2 ^ 64
deriving DecidableEq, Repr

/-- The construction of a `WorkerPlan`, with its checks in the order of the fields. -/
def WorkerPlan.make (rank workerId offset populationSize sampleCount seed : ℕ) (partitionSeed : Option ℕ) :
    LoaderResult WorkerPlan :=
  if hrank : rank < 2 ^ 32 then
    if hworker : workerId < 2 ^ 32 then
      if hseed : seed < 2 ^ 64 then
        if hpartition : ∀ s ∈ partitionSeed, s < 2 ^ 64 then
          .ok { rank, workerId, offset, populationSize, sampleCount, seed, partitionSeed, rank_lt := hrank
                workerId_lt := hworker, seed_lt := hseed, partitionSeed_lt := hpartition }
        else .error (.validation "partition_seed")
      else .error (.validation "seed")
    else .error (.validation "worker_id")
  else .error (.validation "rank")

inductive WorkerPartition where
  | split
  | replicate
deriving DecidableEq, Repr

/-! ### Budgets and spans -/

/-- `rank_budget`. -/
def rankBudget (samples : ℕ) (replica : ReplicaIdentity) (batchSize : Positive) (dropLast : Bool) : ℕ :=
  let ranks := replica.worldSize
  if dropLast then samples / (ranks * batchSize.1) * batchSize.1
  else (samples + ranks - 1) / ranks

def requireU64 (name : String) (value : ℕ) : LoaderResult Unit :=
  if value < wordSize then .ok () else .error (.value (name ++ " must be a u64 integer"))

/-- `partition_rows`. -/
def partitionRows (count parts partId : ℕ) : LoaderResult RowSpan := do
  requireU64 "count" count
  requireU64 "parts" parts
  requireU64 "part_id" partId
  if parts = 0 ∨ parts ≤ partId then .error (.value "part_id must belong to a positive partition count")
  else
    let size := count / parts
    let extra := count % parts
    .ok ⟨partId * size + min partId extra, size + if partId < extra then 1 else 0⟩

/-- `budgets[-1] += tail`. -/
def addToLast (budgets : List ℕ) (tail : ℕ) : LoaderResult (List ℕ) :=
  match budgets.getLast? with
  | none => .error (.index "list index out of range")
  | some last => .ok (budgets.dropLast ++ [last + tail])

/-- `worker_budgets`. -/
def workerBudgets (samples workers populations : ℕ) (batchSize : Positive) : LoaderResult (List ℕ) :=
  if samples = 0 then .ok (List.replicate workers 0)
  else if populations = 0 then .error (.value "samples_per_epoch requires a nonempty population")
  else do
    let batches := samples / batchSize.1
    let tail := samples % batchSize.1
    let active := min workers (min populations (max 1 batches))
    let budgets ← (List.range active).mapM fun i => do
      let span ← partitionRows batches active i
      pure (span.length * batchSize.1)
    let budgets ← addToLast budgets tail
    pure (budgets ++ List.replicate (workers - active) 0)

/-! ### Seeds -/

def u64Max : ℕ := 2 ^ 64 - 1

/-- `_mix_u64`. -/
def mixU64 (value : ℕ) : ℕ :=
  let value := ((value ^^^ (value >>> 30)) * 0xBF58476D1CE4E5B9) &&& u64Max
  let value := ((value ^^^ (value >>> 27)) * 0x94D049BB133111EB) &&& u64Max
  value ^^^ (value >>> 31)

/-- `derive_seed`. -/
def deriveSeed (baseSeed rankId workerId : ℕ) : LoaderResult ℕ := do
  requireU64 "base_seed" baseSeed
  requireU64 "rank_id" rankId
  requireU64 "worker_id" workerId
  if 2 ^ 32 ≤ rankId ∨ 2 ^ 32 ≤ workerId then .error (.value "rank_id and worker_id must fit u32")
  else
    let slot := (rankId <<< 32) ||| workerId
    let key := mixU64 (baseSeed ^^^ 0x4453545253454544)
    .ok (mixU64 (slot ^^^ key))

/-- `reader_seed`; `randbits` is what `secrets.randbits(64)` returns. -/
def readerSeed (shuffle : Bool) (seed : Option ℕ) (rankId workerId : ℕ) (randbits : BitVec 64) :
    LoaderResult ℕ :=
  if shuffle then deriveSeed (seed.getD randbits.toNat) rankId workerId else .ok 0

/-! ### Plans -/

/-- What the plans of a rank's workers share: the arguments of `prepare_partitions` that its loop reads and the
values it has computed before the loop. -/
structure PlanInputs where
  rowCount : Positive
  replica : ReplicaIdentity
  workerPartition : WorkerPartition
  shuffle : Bool
  seed : Option ℕ
  /-- The random words that the workers' seeds are drawn from when there is no common seed. -/
  randbits : ℕ → BitVec 64
  rankSpan : RowSpan
  active : ℕ
  fullPass : Bool

/-- The population of a worker. -/
def PlanInputs.populationSize (p : PlanInputs) (worker budget : ℕ) : LoaderResult ℕ :=
  if budget = 0 then .ok 0
  else match p.workerPartition with
    | .replicate => .ok p.rowCount.1
    | .split =>
        if p.fullPass then .ok budget
        else do
          let span ← partitionRows p.rankSpan.length p.active worker
          pure span.length

/-- The loop of `prepare_partitions` from worker `worker` on. -/
def PlanInputs.plans (p : PlanInputs) : ℕ → ℕ → List ℕ → LoaderResult (List WorkerPlan)
  | _, _, [] => .ok []
  | worker, offset, budget :: budgets => do
      let populationSize ← p.populationSize worker budget
      let seed ← readerSeed p.shuffle p.seed p.replica.rank worker (p.randbits worker)
      let plan ← WorkerPlan.make p.replica.rank worker
        (if p.workerPartition = .replicate then 0 else offset) populationSize budget seed
        (if p.shuffle ∧ p.workerPartition = .split then p.seed else none)
      let rest ← p.plans (worker + 1) (offset + populationSize) budgets
      pure (plan :: rest)

/-- The population that the ranks share in split mode, padded or truncated to a multiple of the ranks where the
budget or the ranks ask for it. -/
def splitPopulation (rowCount : Positive) (samplesPerEpoch count worldSize : ℕ) : ℕ :=
  if samplesPerEpoch = rowCount.1 then count * worldSize
  else if rowCount.1 < worldSize then (rowCount.1 + worldSize - 1) / worldSize * worldSize
  else rowCount.1

/-- The rows of a rank, and the number of populations its workers can have. -/
def rankRows (rowCount : Positive) (samplesPerEpoch count workers : ℕ) (replica : ReplicaIdentity) :
    WorkerPartition → LoaderResult (RowSpan × ℕ)
  | .replicate => .ok (⟨0, rowCount.1⟩, workers)
  | .split => do
      let span ← partitionRows (splitPopulation rowCount samplesPerEpoch count replica.worldSize)
        replica.worldSize replica.rank
      pure (span, span.length)

/-- `prepare_partitions`. -/
def preparePartitions (rowCount : Positive) (replica : ReplicaIdentity) (numWorkers : ℕ) (batchSize : Positive)
    (samplesPerEpoch : ℕ) (workerPartition : WorkerPartition) (shuffle : Bool) (seed : Option ℕ)
    (dropLast : Bool) (randbits : ℕ → BitVec 64) : LoaderResult (List WorkerPlan) := do
  let count := rankBudget samplesPerEpoch replica batchSize dropLast
  let workers := max 1 numWorkers
  let (rankSpan, populations) ← rankRows rowCount samplesPerEpoch count workers replica workerPartition
  let budgets ← workerBudgets count workers populations batchSize
  let active := budgets.countP (0 < ·)
  let fullPass := decide (budgets.sum = rankSpan.length)
  PlanInputs.plans { rowCount, replica, workerPartition, shuffle, seed, randbits, rankSpan, active, fullPass }
    0 rankSpan.offset budgets

/-! ### Spans and budgets in closed form -/

theorem partitionRows_eq_ok_iff {count parts partId : ℕ} {span : RowSpan} :
    partitionRows count parts partId = .ok span ↔ (count < wordSize ∧ parts < wordSize ∧ partId < parts) ∧
      span = ⟨Split.first count parts partId, Split.size count parts partId⟩ := by
  have hu64 : ∀ (name : String) (value : ℕ), requireU64 name value = .ok () ↔ value < wordSize := by
    intro name value
    unfold requireU64
    split_ifs with h <;> simp [h]
  unfold partitionRows
  constructor
  · intro h
    obtain ⟨⟨⟩, hcount, h⟩ := bind_eq_ok h
    obtain ⟨⟨⟩, hparts, h⟩ := bind_eq_ok h
    obtain ⟨⟨⟩, -, h⟩ := bind_eq_ok h
    split_ifs at h with hid
    cases h
    exact ⟨⟨(hu64 _ _).mp hcount, (hu64 _ _).mp hparts, by omega⟩, rfl⟩
  · rintro ⟨⟨hcount, hparts, hid⟩, rfl⟩
    rw [(hu64 _ _).mpr hcount, (hu64 _ _).mpr hparts, (hu64 _ _).mpr (hid.trans hparts)]
    have hnot : ¬ (parts = 0 ∨ parts ≤ partId) := by omega
    simp only [hnot, if_false, bind, Except.bind]
    rfl

/-- What `worker_budgets` gives: nothing to anybody, or whole batches to some workers, whole batches and the tail
to one more, and nothing to the others. -/
inductive Budgeted (samples workers populations batchSize : ℕ) : List ℕ → Prop where
  | idle : samples = 0 → Budgeted samples workers populations batchSize (List.replicate workers 0)
  | busy {whole : List ℕ} {last idle : ℕ} : (∀ quota ∈ whole, batchSize ∣ quota ∧ 0 < quota) → 0 < last →
      whole.sum + last = samples → whole.length + 1 + idle = workers → whole.length + 1 ≤ populations →
      Budgeted samples workers populations batchSize (whole ++ last :: List.replicate idle 0)

theorem addToLast_concat (budgets : List ℕ) (last tail : ℕ) :
    addToLast (budgets ++ [last]) tail = .ok (budgets ++ [last + tail]) := by
  simp [addToLast]

theorem wholeBatches_eq {batches active : ℕ} (batchSize : Positive) (hbatches : batches < wordSize)
    (hactive : active < wordSize) :
    ((List.range active).mapM fun i => do
      let span ← partitionRows batches active i
      pure (span.length * batchSize.1) : LoaderResult (List ℕ)) =
      .ok ((List.range active).map fun i => Split.size batches active i * batchSize.1) := by
  rw [mapM_eq_ok_iff, List.forall₂_map_right_iff, List.forall₂_same]
  intro i hi
  rw [partitionRows_eq_ok_iff.mpr ⟨⟨hbatches, hactive, List.mem_range.mp hi⟩, rfl⟩]
  rfl

/-- The quotas before the tail is added, once they were found. -/
theorem eq_wholeBatches {batches active : ℕ} {batchSize : Positive} {budgets : List ℕ}
    (h : ((List.range active).mapM fun i => do
      let span ← partitionRows batches active i
      pure (span.length * batchSize.1) : LoaderResult (List ℕ)) = .ok budgets) :
    budgets = (List.range active).map fun i => Split.size batches active i * batchSize.1 := by
  obtain ⟨hlength, hrounds⟩ := mapM_eq_ok_iff_getElem.mp h
  refine List.ext_getElem (by simpa using hlength.symm) fun i hi hi' => ?_
  obtain ⟨span, hspan, hquota⟩ := bind_eq_ok (hrounds i (hlength ▸ hi) hi)
  obtain ⟨-, rfl⟩ := partitionRows_eq_ok_iff.mp hspan
  simpa using (Except.ok.inj hquota).symm

theorem active_eq_succ {workers populations : ℕ} (batches : ℕ) (hworkers : 0 < workers) (hpos : 0 < populations) :
    ∃ n, min workers (min populations (max 1 batches)) = n + 1 :=
  ⟨min workers (min populations (max 1 batches)) - 1, by omega⟩

theorem workerBudgets_ok {samples workers populations : ℕ} (batchSize : Positive) (hworkers : 0 < workers)
    (hsamples : samples < wordSize) (hbound : workers < wordSize) (hpopulations : samples ≠ 0 → 0 < populations) :
    ∃ budgets, workerBudgets samples workers populations batchSize = .ok budgets := by
  unfold workerBudgets
  by_cases hzero : samples = 0
  · exact ⟨_, if_pos hzero⟩
  rw [if_neg hzero, if_neg (hpopulations hzero).ne']
  have hbatches : samples / batchSize.1 ≤ samples := Nat.div_le_self _ _
  obtain ⟨n, hn⟩ := active_eq_succ (samples / batchSize.1) hworkers (hpopulations hzero)
  simp only [hn]
  rw [wholeBatches_eq batchSize (by omega) (by omega), List.range_succ, List.map_append, List.map_singleton]
  simp only [bind, Except.bind, pure, Except.pure]
  rw [addToLast_concat]
  exact ⟨_, rfl⟩

theorem budgeted_of_ok {samples workers populations : ℕ} {batchSize : Positive} {budgets : List ℕ}
    (hworkers : 0 < workers) (h : workerBudgets samples workers populations batchSize = .ok budgets) :
    Budgeted samples workers populations batchSize.1 budgets := by
  unfold workerBudgets at h
  split_ifs at h with hzero hpos
  · cases h
    exact .idle hzero
  have hsplit : samples = samples / batchSize.1 * batchSize.1 + samples % batchSize.1 :=
    (Nat.div_add_mod' samples batchSize.1).symm
  generalize samples / batchSize.1 = batches at hsplit h
  generalize samples % batchSize.1 = tail at hsplit h
  obtain ⟨n, hn⟩ := active_eq_succ batches hworkers (Nat.pos_of_ne_zero hpos)
  simp only [hn] at h
  obtain ⟨quotas, hquotas, h⟩ := bind_eq_ok h
  obtain rfl := eq_wholeBatches hquotas
  rw [List.range_succ, List.map_append, List.map_singleton, addToLast_concat] at h
  obtain rfl := Except.ok.inj h
  rw [List.append_assoc, List.singleton_append]
  -- every active worker has a batch, unless there is only one and it has the tail
  have hparts : ∀ i, (n + 1 ≤ batches → 0 < Split.size batches (n + 1) i * batchSize.1) := fun i hle =>
    Nat.mul_pos (Split.size_pos n.succ_pos hle) batchSize.2
  have hsum : ((List.range n).map fun i => Split.size batches (n + 1) i * batchSize.1).sum +
      Split.size batches (n + 1) n * batchSize.1 = batches * batchSize.1 := by
    have hall : ((List.range (n + 1)).map (Split.size batches (n + 1))).sum = batches := Split.sum_size n.succ_pos
    rw [List.range_succ, List.map_append, List.sum_append, List.map_singleton, List.sum_singleton] at hall
    rw [List.sum_map_mul_right, ← Nat.add_mul, hall]
  refine .busy (fun quota hquota => ?_) ?_ (by omega) ?_ ?_
  · obtain ⟨i, hi, rfl⟩ := List.mem_map.mp hquota
    refine ⟨Nat.dvd_mul_left _ _, hparts i ?_⟩
    have := List.mem_range.mp hi
    omega
  · rcases Nat.lt_or_ge batches (n + 1) with hlt | hge
    · have hbatchesZero : batches = 0 := by omega
      rw [hbatchesZero] at hsplit
      omega
    · exact Nat.add_pos_left (hparts n hge) _
  · simp only [List.length_map, List.length_range]
    omega
  · simp only [List.length_map, List.length_range]
    omega

/-- The number of batches that Torch makes of the samples of one worker. -/
def batchCount (batchSize : ℕ) (dropLast : Bool) (quota : ℕ) : ℕ :=
  if dropLast then quota / batchSize else quota ⌈/⌉ batchSize

theorem batchCount_add {batchSize whole : ℕ} (dropLast : Bool) (rest : ℕ) (hpos : 0 < batchSize)
    (hwhole : batchSize ∣ whole) :
    batchCount batchSize dropLast (whole + rest) =
      batchCount batchSize dropLast whole + batchCount batchSize dropLast rest := by
  obtain ⟨n, rfl⟩ := hwhole
  unfold batchCount
  cases dropLast with
  | true => simp [Nat.mul_add_div hpos, hpos]
  | false =>
      simp only [Bool.false_eq_true, if_false, Nat.ceilDiv_eq_add_pred_div]
      rw [show batchSize * n + rest + batchSize - 1 = batchSize * n + (rest + batchSize - 1) by omega,
        show batchSize * n + batchSize - 1 = batchSize * n + (batchSize - 1) by omega, Nat.mul_add_div hpos,
        Nat.mul_add_div hpos, Nat.div_eq_of_lt (by omega : batchSize - 1 < batchSize)]
      omega

@[simp] theorem batchCount_zero (batchSize : ℕ) (dropLast : Bool) : batchCount batchSize dropLast 0 = 0 := by
  cases dropLast <;> simp [batchCount]

theorem sum_batchCount_whole {batchSize : ℕ} (dropLast : Bool) (hpos : 0 < batchSize) (last : ℕ) :
    ∀ {whole : List ℕ}, (∀ quota ∈ whole, batchSize ∣ quota) →
      (whole.map (batchCount batchSize dropLast)).sum + batchCount batchSize dropLast last =
        batchCount batchSize dropLast (whole.sum + last)
  | [], _ => by simp
  | quota :: whole, h => by
      have hrest := sum_batchCount_whole dropLast hpos last fun q hq => h q (List.mem_cons_of_mem _ hq)
      rw [List.map_cons, List.sum_cons, List.sum_cons, Nat.add_assoc, hrest, Nat.add_assoc,
        batchCount_add dropLast _ hpos (h quota List.mem_cons_self)]

namespace Budgeted

variable {samples workers populations batchSize : ℕ} {budgets : List ℕ}

theorem length_eq (h : Budgeted samples workers populations batchSize budgets) : budgets.length = workers := by
  cases h with
  | idle _ => simp
  | busy _ _ _ hlength _ =>
      simp
      omega

theorem sum_eq (h : Budgeted samples workers populations batchSize budgets) : budgets.sum = samples := by
  cases h with
  | idle hzero => simp [hzero]
  | busy _ _ hsum _ _ => simpa using hsum

theorem eq_append (h : Budgeted samples workers populations batchSize budgets) :
    ∃ busy idle, budgets = busy ++ List.replicate idle 0 ∧ (∀ quota ∈ busy, 0 < quota) ∧
      (samples ≠ 0 → busy ≠ [] ∧ busy.length ≤ populations) := by
  cases h with
  | idle hzero => exact ⟨[], workers, rfl, nofun, fun hne => absurd hzero hne⟩
  | @busy whole last idle hwhole hlast _ _ hle =>
      refine ⟨whole ++ [last], idle, by simp, fun quota hquota => ?_, fun _ => ⟨by simp, by simpa using hle⟩⟩
      rcases List.mem_append.mp hquota with hmem | hmem
      · exact (hwhole quota hmem).2
      · rwa [List.mem_singleton.mp hmem]

/-- At most one quota has an incomplete batch. -/
theorem filter_length_le (h : Budgeted samples workers populations batchSize budgets) :
    (budgets.filter fun quota => ¬ batchSize ∣ quota).length ≤ 1 := by
  cases h with
  | idle _ => simp
  | @busy whole last idle hwhole _ _ _ _ =>
      have hnil : whole.filter (fun quota => ¬ batchSize ∣ quota) = [] := by
        rw [List.filter_eq_nil_iff]
        intro quota hquota
        simp [(hwhole quota hquota).1]
      rw [List.filter_append, hnil, List.nil_append, List.filter_cons]
      split_ifs <;> simp

theorem sum_batchCount (h : Budgeted samples workers populations batchSize budgets) (dropLast : Bool)
    (hpos : 0 < batchSize) :
    (budgets.map (batchCount batchSize dropLast)).sum = batchCount batchSize dropLast samples := by
  cases h with
  | idle hzero => simp [hzero]
  | @busy whole last idle hwhole _ hsum _ _ =>
      have hbatches := sum_batchCount_whole dropLast hpos last fun quota hquota => (hwhole quota hquota).1
      rw [hsum] at hbatches
      simpa using hbatches

end Budgeted

/-! ### Seeds that can be encoded -/

theorem mixU64_lt (value : ℕ) : mixU64 value < 2 ^ 64 := by
  have hmask : ∀ n, n &&& u64Max < 2 ^ 64 := fun n =>
    Nat.lt_of_le_of_lt Nat.and_le_right (by decide : u64Max < 2 ^ 64)
  refine Nat.xor_lt_two_pow (hmask _) ?_
  rw [Nat.shiftRight_eq_div_pow]
  exact Nat.lt_of_le_of_lt (Nat.div_le_self _ _) (hmask _)

theorem readerSeed_ok (shuffle : Bool) {seed : Option ℕ} {rankId workerId : ℕ} (randbits : BitVec 64)
    (hseed : ∀ s ∈ seed, s < 2 ^ 64) (hrank : rankId < 2 ^ 32) (hworker : workerId < 2 ^ 32) :
    ∃ s < 2 ^ 64, readerSeed shuffle seed rankId workerId randbits = .ok s := by
  unfold readerSeed
  cases shuffle with
  | false => exact ⟨0, by decide, rfl⟩
  | true =>
      have hbase : seed.getD randbits.toNat < 2 ^ 64 := by
        cases seed with
        | none => exact randbits.isLt
        | some s => exact hseed s rfl
      refine ⟨_, mixU64_lt ((rankId <<< 32 ||| workerId) ^^^ mixU64 (seed.getD randbits.toNat ^^^ 0x4453545253454544)),
        ?_⟩
      have hfits : ¬ (2 ^ 32 ≤ rankId ∨ 2 ^ 32 ≤ workerId) := by omega
      have hu64 : ∀ (name : String) {value : ℕ}, value < 2 ^ 64 → requireU64 name value = .ok () :=
        fun name _ h => if_pos h
      rw [if_pos rfl, deriveSeed, hu64 _ hbase, hu64 _ (by omega), hu64 _ (by omega)]
      simp only [hfits, if_false, bind, Except.bind]

/-! ### The loop over the workers -/

theorem WorkerPlan.make_eq_ok {rank workerId offset populationSize sampleCount seed : ℕ}
    {partitionSeed : Option ℕ} {plan : WorkerPlan}
    (h : make rank workerId offset populationSize sampleCount seed partitionSeed = .ok plan) :
    plan.offset = offset ∧ plan.populationSize = populationSize ∧ plan.sampleCount = sampleCount ∧
      plan.partitionSeed = partitionSeed := by
  unfold make at h
  split_ifs at h
  cases h
  exact ⟨rfl, rfl, rfl, rfl⟩

theorem WorkerPlan.make_ok {rank workerId seed : ℕ} (offset populationSize sampleCount : ℕ)
    {partitionSeed : Option ℕ} (hrank : rank < 2 ^ 32) (hworker : workerId < 2 ^ 32) (hseed : seed < 2 ^ 64)
    (hpartition : ∀ s ∈ partitionSeed, s < 2 ^ 64) :
    ∃ plan, make rank workerId offset populationSize sampleCount seed partitionSeed = .ok plan := by
  unfold make
  rw [dif_pos hrank, dif_pos hworker, dif_pos hseed, dif_pos hpartition]
  exact ⟨_, rfl⟩

namespace PlanInputs

variable {p : PlanInputs} {worker offset budget size : ℕ} {budgets : List ℕ} {plans : List WorkerPlan}

theorem plans_cons (h : p.plans worker offset (budget :: budgets) = .ok plans) :
    ∃ plan rest size, plans = plan :: rest ∧ p.populationSize worker budget = .ok size ∧
      p.plans (worker + 1) (offset + size) budgets = .ok rest ∧
      plan.offset = (if p.workerPartition = .replicate then 0 else offset) ∧ plan.populationSize = size ∧
      plan.sampleCount = budget ∧
      plan.partitionSeed = if p.shuffle ∧ p.workerPartition = .split then p.seed else none := by
  obtain ⟨size, hsize, h⟩ := bind_eq_ok h
  obtain ⟨seed, -, h⟩ := bind_eq_ok h
  obtain ⟨plan, hplan, h⟩ := bind_eq_ok h
  obtain ⟨rest, hrest, h⟩ := bind_eq_ok h
  cases h
  exact ⟨plan, rest, size, rfl, hsize, hrest, WorkerPlan.make_eq_ok hplan⟩

theorem plans_sampleCount : ∀ {budgets : List ℕ} {plans : List WorkerPlan} {worker offset : ℕ},
    p.plans worker offset budgets = .ok plans → plans.map WorkerPlan.sampleCount = budgets
  | [], plans, worker, offset, h => by
      cases h
      rfl
  | budget :: budgets, plans, worker, offset, h => by
      obtain ⟨plan, rest, size, rfl, -, hrest, -, -, hcount, -⟩ := plans_cons h
      rw [List.map_cons, hcount, plans_sampleCount hrest]

theorem plans_populationSize : ∀ {budgets : List ℕ} {plans : List WorkerPlan} {worker offset : ℕ},
    p.plans worker offset budgets = .ok plans → ∀ plan ∈ plans,
      ∃ worker, p.populationSize worker plan.sampleCount = .ok plan.populationSize
  | [], plans, worker, offset, h => by
      cases h
      exact nofun
  | budget :: budgets, plans, worker, offset, h => by
      obtain ⟨plan, rest, size, rfl, hsize, hrest, -, hpopulation, hcount, -⟩ := plans_cons h
      intro plan' hmem
      rcases List.mem_cons.mp hmem with rfl | hmem
      · exact ⟨worker, by rw [hcount, hpopulation, hsize]⟩
      · exact plans_populationSize hrest plan' hmem

theorem populationSize_zero (h : p.populationSize worker 0 = .ok size) : size = 0 := by
  cases h
  rfl

theorem populationSize_pos (hactive : 0 < p.active) (hle : p.workerPartition = .split → p.active ≤ p.rankSpan.length)
    (hbudget : 0 < budget) (h : p.populationSize worker budget = .ok size) : 0 < size := by
  unfold populationSize at h
  rw [if_neg hbudget.ne'] at h
  cases hpartition : p.workerPartition with
  | replicate =>
      rw [hpartition] at h
      cases h
      exact p.rowCount.2
  | split =>
      simp only [hpartition] at h
      split_ifs at h with hfull
      · cases h
        exact hbudget
      · obtain ⟨span, hspan, h⟩ := bind_eq_ok h
        cases h
        obtain ⟨-, rfl⟩ := partitionRows_eq_ok_iff.mp hspan
        exact Split.size_pos hactive (hle hpartition)

/-- The loop ends with a plan for every worker. -/
theorem plans_ok (hseed : ∀ s ∈ p.seed, s < 2 ^ 64) :
    ∀ {budgets : List ℕ} {worker : ℕ} (offset : ℕ), worker + budgets.length ≤ 2 ^ 32 →
      (∀ (i budget : ℕ), budgets[i]? = some budget → ∃ size, p.populationSize (worker + i) budget = .ok size) →
      ∃ plans, p.plans worker offset budgets = .ok plans
  | [], worker, offset, _, _ => ⟨[], rfl⟩
  | budget :: budgets, worker, offset, hlength, hsizes => by
      rw [List.length_cons] at hlength
      have hrank : p.replica.rank < 2 ^ 32 := p.replica.rank_lt.trans_le p.replica.worldSize_le
      have hworker : worker < 2 ^ 32 := by omega
      obtain ⟨size, hsize⟩ := hsizes 0 budget rfl
      obtain ⟨seed, hlt, hderived⟩ := readerSeed_ok p.shuffle (p.randbits worker) hseed hrank hworker
      have htail : ∀ (i b : ℕ), budgets[i]? = some b → ∃ size, p.populationSize (worker + 1 + i) b = .ok size := by
        intro i b hi
        rw [Nat.add_assoc, Nat.add_comm 1]
        exact hsizes (i + 1) b hi
      obtain ⟨rest, hrest⟩ := plans_ok hseed (offset + size) (by omega) htail
      have hpartition : ∀ s ∈ if p.shuffle ∧ p.workerPartition = .split then p.seed else none, s < 2 ^ 64 := by
        intro s hs
        split_ifs at hs
        · exact hseed s hs
        · cases hs
      obtain ⟨plan, hplan⟩ := WorkerPlan.make_ok (if p.workerPartition = .replicate then 0 else offset) size budget
        hrank hworker hlt hpartition
      rw [plans, show p.populationSize worker budget = .ok size from hsize]
      simp only [bind, Except.bind, hderived, hplan, hrest]
      exact ⟨_, rfl⟩

end PlanInputs

/-! ### The plans of a rank -/

theorem countP_busy {busy : List ℕ} (idle : ℕ) (h : ∀ quota ∈ busy, 0 < quota) :
    (busy ++ List.replicate idle 0).countP (0 < ·) = busy.length := by
  rw [List.countP_append, List.countP_eq_length.mpr fun quota hquota => by simpa using h quota hquota]
  simp [List.countP_replicate]

theorem populationSize_ok {p : PlanInputs} {budgets : List ℕ} {samples workers populations batchSize : ℕ}
    (h : Budgeted samples workers populations batchSize budgets) (hworkers : workers < wordSize)
    (hactive : p.active = budgets.countP (0 < ·)) (hspan : p.rankSpan.length < wordSize) (i budget : ℕ)
    (hi : budgets[i]? = some budget) : ∃ size, p.populationSize i budget = .ok size := by
  obtain ⟨busy, idle, hbudgets, hbusy, -⟩ := h.eq_append
  have hlength := h.length_eq
  have hcount : p.active = busy.length := by rw [hactive, hbudgets, countP_busy idle hbusy]
  rw [hbudgets, List.length_append, List.length_replicate] at hlength
  unfold PlanInputs.populationSize
  by_cases hzero : budget = 0
  · exact ⟨0, if_pos hzero⟩
  rw [if_neg hzero]
  cases p.workerPartition with
  | replicate => exact ⟨_, rfl⟩
  | split =>
      by_cases hfull : p.fullPass
      · exact ⟨budget, if_pos hfull⟩
      simp only [if_neg hfull]
      -- an index past the busy workers has no quota
      have hlt : i < busy.length := by
        by_contra hge
        rw [hbudgets, List.getElem?_append_right (Nat.le_of_not_lt hge)] at hi
        exact hzero (List.eq_of_mem_replicate (List.mem_of_getElem? hi))
      rw [partitionRows_eq_ok_iff.mpr ⟨⟨hspan, by omega, by omega⟩, rfl⟩]
      exact ⟨_, rfl⟩

theorem rankBudget_eq (samples : ℕ) (replica : ReplicaIdentity) (batchSize : Positive) (dropLast : Bool) :
    rankBudget samples replica batchSize dropLast =
      if dropLast then batchSize.1 * (samples / (replica.worldSize * batchSize.1))
      else samples ⌈/⌉ replica.worldSize := by
  unfold rankBudget
  simp only [Nat.ceilDiv_eq_add_pred_div, Nat.mul_comm]

/-- The ranks together take less than one more sample each than the budget. -/
theorem rankBudget_mul_lt (samples : ℕ) (replica : ReplicaIdentity) (batchSize : Positive) (dropLast : Bool) :
    rankBudget samples replica batchSize dropLast * replica.worldSize < samples + replica.worldSize := by
  have hworld : 0 < replica.worldSize := Nat.zero_lt_of_lt replica.rank_lt
  unfold rankBudget
  cases dropLast with
  | true =>
      have hle := Nat.div_mul_le_self samples (replica.worldSize * batchSize.1)
      rw [Nat.mul_comm replica.worldSize, ← Nat.mul_assoc, Nat.mul_comm batchSize.1] at hle
      simp only [if_true]
      omega
  | false =>
      have hle := Nat.div_mul_le_self (samples + replica.worldSize - 1) replica.worldSize
      simp only [Bool.false_eq_true, if_false]
      omega

theorem rankBudget_lt {samples : ℕ} (hsamples : samples ≤ 2 ^ 53) (replica : ReplicaIdentity)
    (batchSize : Positive) (dropLast : Bool) : rankBudget samples replica batchSize dropLast < wordSize := by
  have hworld : 0 < replica.worldSize := Nat.zero_lt_of_lt replica.rank_lt
  have hmul := rankBudget_mul_lt samples replica batchSize dropLast
  have hle := Nat.le_mul_of_pos_right (rankBudget samples replica batchSize dropLast) hworld
  have hbound := replica.worldSize_le
  unfold wordSize
  omega

/-- The population of the ranks fits a word, and has a row for each rank if the ranks read at all. -/
theorem splitPopulation_bounds {rowCount : Positive} {samples : ℕ} (replica : ReplicaIdentity)
    (batchSize : Positive) (dropLast : Bool) (hrows : rowCount.1 < 2 ^ 63) (hsamples : samples ≤ 2 ^ 53) :
    splitPopulation rowCount samples (rankBudget samples replica batchSize dropLast) replica.worldSize < wordSize ∧
      (rankBudget samples replica batchSize dropLast ≠ 0 → replica.worldSize ≤
        splitPopulation rowCount samples (rankBudget samples replica batchSize dropLast) replica.worldSize) := by
  have hmul := rankBudget_mul_lt samples replica batchSize dropLast
  have hworld := replica.worldSize_le
  have hrow := rowCount.2
  unfold splitPopulation
  split_ifs with hfull hfew
  · refine ⟨by unfold wordSize; omega, fun hne => Nat.le_mul_of_pos_left _ (Nat.pos_of_ne_zero hne)⟩
  · have hone : (rowCount.1 + replica.worldSize - 1) / replica.worldSize = 1 :=
      Nat.div_eq_of_lt_le (by omega) (by omega)
    rw [hone, Nat.one_mul]
    exact ⟨by unfold wordSize; omega, fun _ => le_rfl⟩
  · exact ⟨by unfold wordSize; omega, fun _ => Nat.le_of_not_lt hfew⟩

theorem rankRows_split {rowCount : Positive} {samples count workers populations : ℕ} {replica : ReplicaIdentity}
    {span : RowSpan} (h : rankRows rowCount samples count workers replica .split = .ok (span, populations)) :
    span = ⟨Split.first (splitPopulation rowCount samples count replica.worldSize) replica.worldSize replica.rank,
        Split.size (splitPopulation rowCount samples count replica.worldSize) replica.worldSize replica.rank⟩ ∧
      populations = span.length := by
  obtain ⟨span', hspan, h⟩ := bind_eq_ok h
  cases h
  exact ⟨(partitionRows_eq_ok_iff.mp hspan).2, rfl⟩

theorem rankRows_ok {rowCount : Positive} {samples workers : ℕ} (replica : ReplicaIdentity)
    (batchSize : Positive) (dropLast : Bool) (workerPartition : WorkerPartition) (hrows : rowCount.1 < 2 ^ 63)
    (hsamples : samples ≤ 2 ^ 53) (hworkers : 0 < workers) :
    ∃ span populations, rankRows rowCount samples (rankBudget samples replica batchSize dropLast) workers replica
        workerPartition = .ok (span, populations) ∧ span.length < wordSize ∧
      (rankBudget samples replica batchSize dropLast ≠ 0 → 0 < populations) := by
  have hworld : 0 < replica.worldSize := Nat.zero_lt_of_lt replica.rank_lt
  have hworldLe := replica.worldSize_le
  cases workerPartition with
  | replicate =>
      exact ⟨_, _, rfl, hrows.trans (by decide : 2 ^ 63 < wordSize), fun _ => hworkers⟩
  | split =>
      obtain ⟨hlt, hle⟩ := splitPopulation_bounds replica batchSize dropLast hrows hsamples
      unfold rankRows
      rw [partitionRows_eq_ok_iff.mpr ⟨⟨hlt, by unfold wordSize; omega, replica.rank_lt⟩, rfl⟩]
      exact ⟨_, _, rfl, (Split.size_le hworld).trans_lt hlt, fun hne => Split.size_pos hworld (hle hne)⟩

/-- What a rank has computed when its plans are made. -/
theorem preparePartitions_eq_ok {rowCount : Positive} {replica : ReplicaIdentity} {numWorkers : ℕ}
    {batchSize : Positive} {samples : ℕ} {workerPartition : WorkerPartition} {shuffle : Bool} {seed : Option ℕ}
    {dropLast : Bool} {randbits : ℕ → BitVec 64} {plans : List WorkerPlan}
    (h : preparePartitions rowCount replica numWorkers batchSize samples workerPartition shuffle seed dropLast
      randbits = .ok plans) :
    ∃ (p : PlanInputs) (populations : ℕ) (budgets : List ℕ),
      rankRows rowCount samples (rankBudget samples replica batchSize dropLast) (max 1 numWorkers) replica
        workerPartition = .ok (p.rankSpan, populations) ∧
      workerBudgets (rankBudget samples replica batchSize dropLast) (max 1 numWorkers) populations batchSize =
        .ok budgets ∧
      p.workerPartition = workerPartition ∧ p.shuffle = shuffle ∧ p.active = budgets.countP (0 < ·) ∧
      p.fullPass = decide (budgets.sum = p.rankSpan.length) ∧
      p.plans 0 p.rankSpan.offset budgets = .ok plans := by
  obtain ⟨⟨span, populations⟩, hspan, h⟩ := bind_eq_ok h
  obtain ⟨budgets, hbudgets, h⟩ := bind_eq_ok h
  exact ⟨_, populations, budgets, hspan, hbudgets, rfl, rfl, rfl, rfl, h⟩

section

variable {rowCount : Positive} (batchSize : Positive) {samples : ℕ} (workerPartition : WorkerPartition)
  (shuffle dropLast : Bool) {seed : Option ℕ}

/-- A rank finds plans for its workers; their quotas are its budget, in whole batches but for one tail, and every
quota has rows to be read from. -/
theorem preparePartitions_ok (replica : ReplicaIdentity) {numWorkers : ℕ} (randbits : ℕ → BitVec 64)
    (hrows : rowCount.1 < 2 ^ 63) (hsamples : samples ≤ 2 ^ 53) (hworkers : numWorkers < 2 ^ 32)
    (hseed : ∀ s ∈ seed, s < 2 ^ 64) :
    ∃ plans populations, preparePartitions rowCount replica numWorkers batchSize samples workerPartition shuffle
        seed dropLast randbits = .ok plans ∧
      Budgeted (rankBudget samples replica batchSize dropLast) (max 1 numWorkers) populations batchSize.1
        (plans.map WorkerPlan.sampleCount) ∧
      ∀ plan ∈ plans, 0 < plan.sampleCount → 1 ≤ plan.populationSize := by
  have hworkersPos : 0 < max 1 numWorkers := by omega
  have hword : max 1 numWorkers < wordSize := by unfold wordSize; omega
  obtain ⟨span, populations, hspan, hlength, hpos⟩ :=
    rankRows_ok replica batchSize dropLast workerPartition hrows hsamples hworkersPos
  obtain ⟨budgets, hbudgets⟩ :=
    workerBudgets_ok batchSize hworkersPos (rankBudget_lt hsamples replica batchSize dropLast) hword hpos
  have hbudgeted := budgeted_of_ok hworkersPos hbudgets
  let p : PlanInputs :=
    { rowCount, replica, workerPartition, shuffle, seed, randbits, rankSpan := span
      active := budgets.countP (0 < ·), fullPass := decide (budgets.sum = span.length) }
  have hlast : 0 + budgets.length ≤ 2 ^ 32 := by rw [hbudgeted.length_eq]; omega
  obtain ⟨plans, hplans⟩ := p.plans_ok hseed span.offset hlast fun i budget hi => by
    rw [Nat.zero_add]
    exact populationSize_ok hbudgeted hword rfl hlength i budget hi
  have hcounts := PlanInputs.plans_sampleCount hplans
  refine ⟨plans, populations, ?_, by rwa [hcounts], fun plan hmem hquota => ?_⟩
  · unfold preparePartitions
    simp only [hspan, hbudgets, bind, Except.bind]
    exact hplans
  obtain ⟨worker, hsize⟩ := PlanInputs.plans_populationSize hplans plan hmem
  -- there is a quota, so the rank reads, and has a population for each of its busy workers
  obtain ⟨busy, idle, heq, hbusy, hle⟩ := hbudgeted.eq_append
  have hactive : p.active = busy.length := by rw [← countP_busy idle hbusy, ← heq]
  have hne : rankBudget samples replica batchSize dropLast ≠ 0 := by
    intro hzero
    have hsum := hbudgeted.sum_eq
    rw [hzero, ← hcounts] at hsum
    have hle := List.single_le_sum (fun _ _ => Nat.zero_le _) _ (List.mem_map_of_mem hmem (f := WorkerPlan.sampleCount))
    omega
  obtain ⟨hnil, hle⟩ := hle hne
  refine PlanInputs.populationSize_pos (hactive ▸ List.length_pos_iff.mpr hnil) (fun hsplit => ?_) hquota hsize
  obtain rfl : workerPartition = .split := hsplit
  rw [hactive, ← (rankRows_split hspan).2]
  exact hle

variable (rowCount samples seed) in
/-- **Loader lengths.**  Whatever the numbers of workers of the ranks are, every rank gets plans; the quotas of
its workers add up to the same count on every rank, at most one of them has an incomplete batch, the batches of
the workers together are those of the count, and every worker with a quota has rows. -/
theorem loader_lengths_agree (hrows : rowCount.1 < 2 ^ 63) (hsamples : 1 ≤ samples ∧ samples ≤ 2 ^ 53)
    (hseed : ∀ s ∈ seed, s < 2 ^ 64) {worldSize : ℕ} (hworld : worldSize ≤ 2 ^ 32) (numWorkers : Fin worldSize → ℕ)
    (hworkers : ∀ rank, numWorkers rank < 2 ^ 32) (randbits : Fin worldSize → ℕ → BitVec 64) :
    ∃ plans : Fin worldSize → List WorkerPlan,
      (∀ rank : Fin worldSize, preparePartitions rowCount ⟨rank, worldSize, hworld, rank.isLt⟩ (numWorkers rank) batchSize
        samples workerPartition shuffle seed dropLast (randbits rank) = .ok (plans rank)) ∧
      (∀ rank, ((plans rank).map WorkerPlan.sampleCount).sum =
        if dropLast then batchSize.1 * (samples / (worldSize * batchSize.1)) else samples ⌈/⌉ worldSize) ∧
      (∀ rank, ((plans rank).filter fun plan => ¬ batchSize.1 ∣ plan.sampleCount).length ≤ 1) ∧
      (∀ rank, ((plans rank).map fun plan => batchCount batchSize.1 dropLast plan.sampleCount).sum =
        if dropLast then ((plans rank).map WorkerPlan.sampleCount).sum / batchSize.1
        else ((plans rank).map WorkerPlan.sampleCount).sum ⌈/⌉ batchSize.1) ∧
      (∀ rank rank', ((plans rank).map fun plan => batchCount batchSize.1 dropLast plan.sampleCount).sum =
        ((plans rank').map fun plan => batchCount batchSize.1 dropLast plan.sampleCount).sum) ∧
      ∀ rank, ∀ plan ∈ plans rank, 0 < plan.sampleCount → 1 ≤ plan.populationSize := by
  have hplans := fun rank : Fin worldSize => preparePartitions_ok batchSize workerPartition shuffle dropLast
    ⟨rank, worldSize, hworld, rank.isLt⟩ (randbits rank) hrows hsamples.2 (hworkers rank) hseed
  choose plans populations hok hbudgeted hpopulation using hplans
  have hsum := fun rank => (hbudgeted rank).sum_eq
  have hbatches := fun rank => (hbudgeted rank).sum_batchCount dropLast batchSize.2
  simp only [List.map_map, Function.comp_def] at hbatches
  refine ⟨plans, hok, fun rank => ?_, fun rank => ?_, fun rank => ?_, fun rank rank' => ?_, hpopulation⟩
  · rw [hsum, rankBudget_eq]
  · have hfilter := (hbudgeted rank).filter_length_le
    rwa [List.filter_map, List.length_map] at hfilter
  · rw [hsum]
    exact hbatches rank
  · rw [hbatches, hbatches]
    rfl

end

/-- Two ranks with one and with three workers share ten samples in batches of two. -/
theorem loader_lengths_agree_two : ∃ plans : Fin 2 → List WorkerPlan,
    (plans 0).map WorkerPlan.sampleCount = [5] ∧ (plans 1).map WorkerPlan.sampleCount = [2, 3, 0] ∧
    ((plans 0).map fun plan => batchCount 2 false plan.sampleCount).sum =
      ((plans 1).map fun plan => batchCount 2 false plan.sampleCount).sum := by
  have hworkers : ∀ rank, ![0, 3] rank < 2 ^ 32 := by decide
  obtain ⟨plans, hok, -, -, -, hbatches, -⟩ := loader_lengths_agree ⟨7, by decide⟩ ⟨2, by decide⟩ 10 .split false
    false none (by decide) (by decide) nofun (by decide : 2 ≤ 2 ^ 32) ![0, 3] hworkers fun _ _ => 0
  refine ⟨plans, ?_, ?_, hbatches 0 1⟩
  · exact congrArg (List.map WorkerPlan.sampleCount) (Except.ok.inj ((hok 0).symm.trans rfl))
  · exact congrArg (List.map WorkerPlan.sampleCount) (Except.ok.inj ((hok 1).symm.trans rfl))

end DatasetRt
