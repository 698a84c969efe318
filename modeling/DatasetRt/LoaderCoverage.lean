import DatasetRt.LoaderPartitions
import DatasetRt.DatasetWindows

/-! # What the loading workers cover

In split mode the workers of a rank take the rows of the rank one after the other, and the ranks take the rows of
the population one after the other: the populations tile.  The population can be longer than the table, and
`population_selection` (`reconstruction.py`) takes positions modulo the rows of the table, so that a full
sequential pass of all workers of all ranks reads the positions of the population each once
(`split_partitions_tile`). -/

namespace DatasetRt

/-! ### Selections -/

/-- `population_selection`: the rows of the table that a reader selects, `none` for the whole table as it is.
`order` is the row order that was prepared for shuffled partitions.  NumPy's arithmetic is exact here. -/
def populationSelection (order : List ℕ) (count offset length : ℕ) (partitionSeed : Option ℕ) :
    LoaderResult (Option (List ℕ)) :=
  if length = 0 then
    .error (.value "population selection requires a nonnegative offset and positive length")
  else match partitionSeed with
    | none =>
        if offset = 0 ∧ length = count then .ok none
        else .ok (some ((List.range length).map fun i => (i + offset % count) % count))
    | some _ =>
        if order.length ≠ count then .error (.value "partition order does not match metadata row count")
        else
          let start := offset % count
          if start + length ≤ count then .ok (some ((order.drop start).take length))
          else .ok (some ((List.range length).map fun i => order.getD ((i + start) % count) 0))

/-- The rows of the table that the population of a worker consists of. -/
def WorkerPlan.population (order : List ℕ) (rowCount : Positive) (plan : WorkerPlan) : LoaderResult (List ℕ) := do
  match ← populationSelection order rowCount.1 plan.offset plan.populationSize plan.partitionSeed with
  | none => pure (List.range rowCount.1)
  | some selection => pure selection

/-- The rows of the table that a worker's sequential reader reads in its first window, which has the length of
the quota and begins at the first row of the population.  A worker without a quota makes no reader. -/
def WorkerPlan.sequentialRows (R : RandLib) (order : List ℕ) (rowCount : Positive) (plan : WorkerPlan) :
    LoaderResult (List (Option ℕ)) :=
  if plan.sampleCount = 0 then .ok []
  else do
    let population ← plan.population order rowCount
    pure (EpochPlan.sequential plan.sampleCount 0 population.length (some population) : EpochPlan R).rows

/-- Without a shuffled order the population are the positions of the span, modulo the rows of the table. -/
theorem WorkerPlan.population_eq (order : List ℕ) (rowCount : Positive) {plan : WorkerPlan}
    (hpos : 0 < plan.populationSize) (hseed : plan.partitionSeed = none) :
    plan.population order rowCount =
      .ok ((positions WorkerPlan.offset WorkerPlan.populationSize plan).map fun k => k % rowCount.1) := by
  have hcyclic : (positions WorkerPlan.offset WorkerPlan.populationSize plan).map (fun k => k % rowCount.1) =
      (List.range plan.populationSize).map fun i => (i + plan.offset % rowCount.1) % rowCount.1 := by
    rw [positions, List.range'_eq_map_range, List.map_map]
    refine List.map_congr_left fun i _ => ?_
    rw [Function.comp_apply, Nat.add_mod_mod, Nat.add_comm]
  unfold WorkerPlan.population populationSelection
  rw [if_neg hpos.ne', hseed, hcyclic]
  by_cases hfull : plan.offset = 0 ∧ plan.populationSize = rowCount.1
  · simp only [bind, Except.bind, hfull.1, hfull.2]
    refine congrArg Except.ok ?_
    rw [List.map_congr_left (g := id) fun i hi => ?_, List.map_id]
    simp only [Nat.zero_mod, Nat.add_zero, id]
    exact Nat.mod_eq_of_lt (List.mem_range.mp hi)
  · simp only [if_neg hfull, bind, Except.bind]
    rfl

theorem WorkerPlan.sequentialRows_eq (R : RandLib) (order : List ℕ) (rowCount : Positive) {plan : WorkerPlan}
    (hseed : plan.partitionSeed = none) (hquota : plan.populationSize = plan.sampleCount)
    (hword : plan.populationSize < wordSize) :
    plan.sequentialRows R order rowCount =
      .ok ((positions WorkerPlan.offset WorkerPlan.populationSize plan).map fun k => some (k % rowCount.1)) := by
  unfold WorkerPlan.sequentialRows
  split_ifs with hzero
  · simp [positions, hquota, hzero]
  rw [WorkerPlan.population_eq order rowCount (by omega) hseed]
  refine congrArg Except.ok ?_
  have hlength : ((positions WorkerPlan.offset WorkerPlan.populationSize plan).map fun k => k % rowCount.1).length =
      plan.populationSize := by simp [positions]
  refine List.ext_getElem (by simp [EpochPlan.rows, EpochPlan.len, positions, hquota]) fun k hk hk' => ?_
  have hlt : k < plan.populationSize := by simpa [positions] using hk'
  simp only [EpochPlan.rows, List.getElem_map, List.getElem_range]
  rw [Dataset.sequential_planned (by omega) (by omega) (by omega), EpochPlan.physical, hlength, Nat.zero_add,
    Nat.mod_eq_of_lt hlt, List.getElem?_map, List.getElem?_eq_getElem (by simpa [positions] using hlt)]
  rfl

/-! ### The populations of the workers of a rank -/

namespace PlanInputs

variable {p : PlanInputs}

theorem plans_partitionSeed (hshuffle : p.shuffle = false) :
    ∀ {budgets : List ℕ} {plans : List WorkerPlan} {worker offset : ℕ},
      p.plans worker offset budgets = .ok plans → ∀ plan ∈ plans, plan.partitionSeed = none
  | [], plans, worker, offset, h => by
      cases h
      exact nofun
  | budget :: budgets, plans, worker, offset, h => by
      obtain ⟨plan, rest, size, rfl, -, hrest, -, -, -, hseed⟩ := plans_cons h
      intro plan' hmem
      rcases List.mem_cons.mp hmem with rfl | hmem
      · rw [hseed, hshuffle]
        exact if_neg nofun
      · exact plans_partitionSeed hshuffle hrest plan' hmem

theorem plans_tiles (hsplit : p.workerPartition = .split) :
    ∀ {budgets : List ℕ} {plans : List WorkerPlan} {worker offset : ℕ},
      p.plans worker offset budgets = .ok plans →
      Tiles WorkerPlan.offset WorkerPlan.populationSize offset
        (offset + (plans.map WorkerPlan.populationSize).sum) plans
  | [], plans, worker, offset, h => by
      cases h
      rfl
  | budget :: budgets, plans, worker, offset, h => by
      obtain ⟨plan, rest, size, rfl, -, hrest, hoffset, rfl, -, -⟩ := plans_cons h
      have htail := plans_tiles hsplit hrest
      rw [Nat.add_assoc] at htail
      rw [hsplit] at hoffset
      exact ⟨hoffset, htail⟩

theorem populationSize_full (hsplit : p.workerPartition = .split) (hfull : p.fullPass = true)
    {worker budget size : ℕ} (h : p.populationSize worker budget = .ok size) : size = budget := by
  unfold populationSize at h
  split_ifs at h with hzero
  · rw [hzero]
    exact (Except.ok.inj h).symm
  · simp only [hsplit] at h
    exact (Except.ok.inj h).symm

theorem populationSize_part (hsplit : p.workerPartition = .split) (hfull : p.fullPass = false)
    {worker budget size : ℕ} (hbudget : 0 < budget) (h : p.populationSize worker budget = .ok size) :
    size = Split.size p.rankSpan.length p.active worker := by
  unfold populationSize at h
  simp only [if_neg hbudget.ne', hsplit, hfull, Bool.false_eq_true, if_false] at h
  obtain ⟨span, hspan, h⟩ := bind_eq_ok h
  obtain ⟨-, rfl⟩ := partitionRows_eq_ok_iff.mp hspan
  exact (Except.ok.inj h).symm

theorem sum_populationSize_idle {idle worker offset : ℕ} {plans : List WorkerPlan}
    (h : p.plans worker offset (List.replicate idle 0) = .ok plans) :
    (plans.map WorkerPlan.populationSize).sum = 0 := by
  refine List.sum_eq_zero fun size hsize => ?_
  obtain ⟨plan, hmem, rfl⟩ := List.mem_map.mp hsize
  have hcount : plan.sampleCount ∈ List.replicate idle 0 := plans_sampleCount h ▸ List.mem_map_of_mem hmem
  obtain ⟨worker', hpopulation⟩ := plans_populationSize h plan hmem
  rw [List.eq_of_mem_replicate hcount] at hpopulation
  exact populationSize_zero hpopulation

/-- The parts of the busy workers, from one of them on. -/
theorem sum_populationSize_parts (hsplit : p.workerPartition = .split) (hfull : p.fullPass = false) {idle : ℕ} :
    ∀ {busy : List ℕ} {plans : List WorkerPlan} {worker offset : ℕ}, (∀ quota ∈ busy, 0 < quota) →
      p.plans worker offset (busy ++ List.replicate idle 0) = .ok plans →
      Split.first p.rankSpan.length p.active worker + (plans.map WorkerPlan.populationSize).sum =
        Split.first p.rankSpan.length p.active (worker + busy.length)
  | [], plans, worker, offset, _, h => by
      rw [sum_populationSize_idle h]
      rfl
  | budget :: busy, plans, worker, offset, hbusy, h => by
      obtain ⟨plan, rest, size, rfl, hsize, hrest, -, rfl, -, -⟩ := plans_cons h
      have htail := sum_populationSize_parts hsplit hfull
        (fun quota hquota => hbusy quota (List.mem_cons_of_mem _ hquota)) hrest
      have hpart := populationSize_part hsplit hfull (hbusy budget List.mem_cons_self) hsize
      rw [List.map_cons, List.sum_cons, ← Nat.add_assoc, hpart, Split.first_succ, htail, List.length_cons]
      congr 1
      omega

end PlanInputs

/-- A rank that reads at all. -/
structure RankTiling (replica : ReplicaIdentity) (population : ℕ) (shuffle : Bool) (plans : List WorkerPlan) :
    Prop where
  tiles : Tiles WorkerPlan.offset WorkerPlan.populationSize (Split.first population replica.worldSize replica.rank)
    (Split.first population replica.worldSize (replica.rank + 1)) plans
  idle : ∀ plan ∈ plans, plan.sampleCount = 0 → plan.populationSize = 0
  population_lt : population < wordSize
  seeds : shuffle = false → ∀ plan ∈ plans, plan.partitionSeed = none
  full : (plans.map WorkerPlan.sampleCount).sum = Split.size population replica.worldSize replica.rank →
    ∀ plan ∈ plans, plan.populationSize = plan.sampleCount

theorem rankTiling_of_ok {rowCount : Positive} {replica : ReplicaIdentity} {numWorkers : ℕ} {batchSize : Positive}
    {samples : ℕ} {shuffle : Bool} {seed : Option ℕ} {dropLast : Bool} {randbits : ℕ → BitVec 64}
    {plans : List WorkerPlan}
    (h : preparePartitions rowCount replica numWorkers batchSize samples .split shuffle seed dropLast randbits =
      .ok plans) (hcount : rankBudget samples replica batchSize dropLast ≠ 0) :
    RankTiling replica
      (splitPopulation rowCount samples (rankBudget samples replica batchSize dropLast) replica.worldSize) shuffle
      plans := by
  obtain ⟨p, populations, budgets, hrows, hbudgets, hsplit, hshuffle, hactive, hfull, hplans⟩ :=
    preparePartitions_eq_ok h
  have hbudgeted := budgeted_of_ok (by omega) hbudgets
  obtain ⟨hspan, -⟩ := rankRows_split hrows
  have hcounts := PlanInputs.plans_sampleCount hplans
  set population := splitPopulation rowCount samples (rankBudget samples replica batchSize dropLast)
    replica.worldSize with hpopulation
  -- the populations fill the rows of the rank, in both ways of sizing them
  have hsum : (plans.map WorkerPlan.populationSize).sum = p.rankSpan.length := by
    cases hpass : p.fullPass with
    | true =>
        have hsizes : plans.map WorkerPlan.populationSize = plans.map WorkerPlan.sampleCount :=
          List.map_congr_left fun plan hmem => by
            obtain ⟨worker, hsize⟩ := PlanInputs.plans_populationSize hplans plan hmem
            exact PlanInputs.populationSize_full hsplit hpass hsize
        rw [hsizes, hcounts]
        exact of_decide_eq_true (hfull ▸ hpass)
    | false =>
        obtain ⟨busy, idle, heq, hbusy, hne⟩ := hbudgeted.eq_append
        have hlength : p.active = busy.length := by rw [hactive, heq, countP_busy idle hbusy]
        rw [heq] at hplans
        have hparts := PlanInputs.sum_populationSize_parts hsplit hpass hbusy hplans
        have hpos : 0 < p.active := hlength ▸ List.length_pos_iff.mpr (hne hcount).1
        rwa [Split.first_zero, Nat.zero_add, Nat.zero_add, ← hlength, Split.first_parts hpos] at hparts
  have htiles := PlanInputs.plans_tiles hsplit hplans
  refine ⟨?_, fun plan hmem hzero => ?_, ?_,
    fun hfalse => PlanInputs.plans_partitionSeed (hshuffle.trans hfalse) hplans, fun hquotas plan hmem => ?_⟩
  · rwa [hsum, hspan, Split.first_succ] at htiles
  · obtain ⟨worker, hsize⟩ := PlanInputs.plans_populationSize hplans plan hmem
    rw [hzero] at hsize
    exact PlanInputs.populationSize_zero hsize
  · obtain ⟨span, hpart, -⟩ := bind_eq_ok hrows
    exact (partitionRows_eq_ok_iff.mp hpart).1.1
  · obtain ⟨worker, hsize⟩ := PlanInputs.plans_populationSize hplans plan hmem
    refine PlanInputs.populationSize_full hsplit ?_ hsize
    rw [hfull, ← hcounts, hquotas, hspan]
    exact decide_eq_true rfl

/-! ### All ranks -/

theorem count_cyclic (rows population row : ℕ) :
    ((List.range population).map fun k => some (k % rows)).count (some row) =
      ((Finset.range population).filter fun k => k % rows = row).card := by
  rw [← Nat.count_eq_card_filter_range, Nat.count, List.count_eq_countP, List.countP_map]
  refine List.countP_congr fun k _ => ?_
  simp

section

variable (rowCount batchSize : Positive) (samples : ℕ) (shuffle dropLast : Bool) (seed : Option ℕ)
  {worldSize : ℕ} (hworld : worldSize ≤ 2 ^ 32) (numWorkers : Fin worldSize → ℕ)
  (randbits : Fin worldSize → ℕ → BitVec 64)

/-- The plans that the ranks find in split mode. -/
def SplitPlans (plans : Fin worldSize → List WorkerPlan) : Prop :=
  ∀ rank : Fin worldSize, preparePartitions rowCount ⟨rank, worldSize, hworld, rank.isLt⟩ (numWorkers rank)
    batchSize samples .split shuffle seed dropLast (randbits rank) = .ok (plans rank)

variable {rowCount batchSize samples shuffle dropLast seed hworld numWorkers randbits}
  {plans : Fin worldSize → List WorkerPlan}

theorem SplitPlans.sum_eq (h : SplitPlans rowCount batchSize samples shuffle dropLast seed hworld numWorkers
    randbits plans) (rank : Fin worldSize) : ((plans rank).map WorkerPlan.sampleCount).sum =
      rankBudget samples ⟨rank, worldSize, hworld, rank.isLt⟩ batchSize dropLast := by
  obtain ⟨p, populations, budgets, -, hbudgets, -, -, -, -, hplans⟩ := preparePartitions_eq_ok (h rank)
  rw [PlanInputs.plans_sampleCount hplans, (budgeted_of_ok (by omega) hbudgets).sum_eq]

theorem SplitPlans.sequential_pass (R : RandLib) (order : List ℕ)
    (h : SplitPlans rowCount batchSize samples false dropLast seed hworld numWorkers randbits plans) {count : ℕ}
    (htiling : ∀ rank : Fin worldSize, RankTiling ⟨rank, worldSize, hworld, rank.isLt⟩ (count * worldSize) false
      (plans rank)) (hcount : ∀ rank, ((plans rank).map WorkerPlan.sampleCount).sum = count) :
    ∃ reads, (List.ofFn plans).flatten.mapM (WorkerPlan.sequentialRows R order rowCount) = .ok reads ∧
      reads.flatten = (List.range (count * worldSize)).map fun k => some (k % rowCount.1) := by
  have htiles : Tiles WorkerPlan.offset WorkerPlan.populationSize
      (Split.first (count * worldSize) worldSize 0) (Split.first (count * worldSize) worldSize worldSize)
      (List.ofFn plans).flatten := Tiles.ofFn_flatten fun rank => (htiling rank).tiles
  have hpositions : (List.ofFn plans).flatten.flatMap (positions WorkerPlan.offset WorkerPlan.populationSize) =
      List.range (count * worldSize) := by
    rcases Nat.eq_zero_or_pos worldSize with rfl | hpos
    · simp
    · rw [htiles.flatMap_positions, Split.first_zero, Split.first_parts hpos, List.range_eq_range']
      rfl
  have hrows : ∀ plan ∈ (List.ofFn plans).flatten, plan.sequentialRows R order rowCount =
      .ok ((positions WorkerPlan.offset WorkerPlan.populationSize plan).map fun k => some (k % rowCount.1)) := by
    intro plan hmem
    obtain ⟨ofRank, hofRank, hplan⟩ := List.mem_flatten.mp hmem
    obtain ⟨rank, rfl⟩ := (List.mem_ofFn' plans ofRank).mp hofRank
    have hworldPos : 0 < worldSize := Nat.zero_lt_of_lt rank.isLt
    have hfull := (htiling rank).full ((hcount rank).trans (Split.size_mul count hworldPos).symm) plan hplan
    refine WorkerPlan.sequentialRows_eq R order rowCount ((htiling rank).seeds rfl plan hplan) hfull ?_
    -- a quota is not larger than the quotas of its rank together
    have hle := List.single_le_sum (fun _ _ => Nat.zero_le _) _
      (List.mem_map_of_mem hplan (f := WorkerPlan.sampleCount))
    rw [hcount rank, ← hfull] at hle
    exact (hle.trans (Nat.le_mul_of_pos_right count hworldPos)).trans_lt (htiling rank).population_lt
  refine ⟨(List.ofFn plans).flatten.map fun plan =>
    (positions WorkerPlan.offset WorkerPlan.populationSize plan).map fun k => some (k % rowCount.1), ?_, ?_⟩
  · rw [mapM_eq_ok_iff, List.forall₂_map_right_iff, List.forall₂_same]
    exact hrows
  · rw [← hpositions, List.map_flatMap, List.flatMap_def]

variable (rowCount batchSize samples shuffle dropLast seed hworld numWorkers randbits) in
/-- **Coverage.**  In split mode the ranks find plans, and whenever they do and read at all, the spans of the
ranks tile the population, and the populations of the busy workers of a rank tile its span.  If the budget is the
number of rows, nothing is dropped and nothing is shuffled, then the population is the number of rows rounded up
to a multiple of the ranks, and one pass of all workers of all ranks reads a row as often as the population has
positions that are this row modulo the rows of the table: at least once, and once if the ranks divide the rows. -/
theorem split_partitions_tile (R : RandLib) (order : List ℕ) (hpos : 0 < worldSize) :
    (rowCount.1 < 2 ^ 63 → samples ≤ 2 ^ 53 → (∀ rank, numWorkers rank < 2 ^ 32) → (∀ s ∈ seed, s < 2 ^ 64) →
      ∃ plans, SplitPlans rowCount batchSize samples shuffle dropLast seed hworld numWorkers randbits plans) ∧
    ∀ plans, SplitPlans rowCount batchSize samples shuffle dropLast seed hworld numWorkers randbits plans →
      (∀ rank, 0 < ((plans rank).map WorkerPlan.sampleCount).sum) →
      ∃ (count population : ℕ) (spans : Fin worldSize → RowSpan),
        (∀ rank, ((plans rank).map WorkerPlan.sampleCount).sum = count) ∧
        population = splitPopulation rowCount samples count worldSize ∧
        Tiles RowSpan.offset RowSpan.length 0 population (List.ofFn spans) ∧
        (∀ rank, Tiles WorkerPlan.offset WorkerPlan.populationSize (spans rank).offset
          ((spans rank).offset + (spans rank).length) ((plans rank).filter fun plan => 0 < plan.sampleCount)) ∧
        (samples = rowCount.1 → dropLast = false → shuffle = false →
          population = worldSize * (rowCount.1 ⌈/⌉ worldSize) ∧
          ∃ reads, (List.ofFn plans).flatten.mapM (WorkerPlan.sequentialRows R order rowCount) = .ok reads ∧
            ∀ row < rowCount.1,
              reads.flatten.count (some row) =
                ((Finset.range population).filter fun k => k % rowCount.1 = row).card ∧
              1 ≤ reads.flatten.count (some row) ∧
              (worldSize ∣ rowCount.1 → reads.flatten.count (some row) = 1)) := by
  refine ⟨fun hrows hsamples hworkers hseed => ?_, fun plans hplans hcounts => ?_⟩
  · have hall := fun rank : Fin worldSize => preparePartitions_ok batchSize .split shuffle dropLast
      ⟨rank, worldSize, hworld, rank.isLt⟩ (randbits rank) hrows hsamples (hworkers rank) hseed
    choose plans populations hok _ _ using hall
    exact ⟨plans, hok⟩
  set count := rankBudget samples ⟨0, worldSize, hworld, hpos⟩ batchSize dropLast with hcount
  have hsum : ∀ rank, ((plans rank).map WorkerPlan.sampleCount).sum = count := hplans.sum_eq
  have htiling : ∀ rank : Fin worldSize, RankTiling ⟨rank, worldSize, hworld, rank.isLt⟩
      (splitPopulation rowCount samples count worldSize) shuffle (plans rank) := fun rank =>
    rankTiling_of_ok (hplans rank) (hplans.sum_eq rank ▸ (hcounts rank).ne')
  generalize hpopulation : splitPopulation rowCount samples count worldSize = population at htiling
  refine ⟨count, population, fun rank => ⟨Split.first population worldSize rank,
    Split.size population worldSize rank⟩, hsum, hpopulation.symm, ?_, fun rank => ?_,
    fun hfull hdrop hshuffle => ?_⟩
  · have htiles : Tiles RowSpan.offset RowSpan.length
        (Split.first population worldSize 0) (Split.first population worldSize worldSize)
        (List.ofFn fun rank : Fin worldSize => ⟨Split.first population worldSize rank,
          Split.size population worldSize rank⟩) :=
      Tiles.ofFn fun rank : Fin worldSize => ⟨rfl, Split.first_succ⟩
    rwa [Split.first_zero, Split.first_parts hpos] at htiles
  · simp only [Split.first_succ]
    exact (htiling rank).tiles.filter fun plan hmem hzero => (htiling rank).idle plan hmem (by simpa using hzero)
  subst hdrop hshuffle
  obtain rfl : count * worldSize = population := hpopulation ▸ (if_pos hfull).symm
  have hceil : count = rowCount.1 ⌈/⌉ worldSize := by
    rw [hcount, rankBudget_eq, hfull]
    rfl
  obtain ⟨reads, hreads, hflatten⟩ := hplans.sequential_pass R order htiling hsum
  refine ⟨by rw [hceil, Nat.mul_comm], reads, hreads, fun row hrow => ?_⟩
  have hcard := count_cyclic rowCount.1 (count * worldSize) row
  rw [← hflatten] at hcard
  refine ⟨hcard, ?_, fun hdvd => ?_⟩
  · -- the position of the row itself is one of them
    rw [hcard, Nat.one_le_iff_ne_zero, Finset.card_ne_zero]
    refine ⟨row, Finset.mem_filter.mpr ⟨Finset.mem_range.mpr (hrow.trans_le ?_), Nat.mod_eq_of_lt hrow⟩⟩
    rw [hceil, Nat.mul_comm]
    exact le_smul_ceilDiv hpos
  · have hexact : count * worldSize = rowCount.1 := by
      obtain ⟨n, hn⟩ := hdvd
      rw [hceil, hn, Nat.mul_comm, ← smul_eq_mul worldSize n, smul_ceilDiv hpos, smul_eq_mul]
    rw [hcard, hexact, Finset.card_eq_one]
    refine ⟨row, Finset.ext fun k => ?_⟩
    simp only [Finset.mem_filter, Finset.mem_range, Finset.mem_singleton]
    constructor
    · rintro ⟨hk, rfl⟩
      exact (Nat.mod_eq_of_lt hk).symm
    · rintro rfl
      exact ⟨hrow, Nat.mod_eq_of_lt hrow⟩

end

/-- Two ranks, with one and with two workers, read three rows: one of them twice. -/
theorem split_partitions_tile_three : ∃ plans reads,
    SplitPlans ⟨3, by decide⟩ ⟨2, by decide⟩ 3 false false none (by decide : 2 ≤ 2 ^ 32) ![0, 2] (fun _ _ => 0) plans ∧
    (List.ofFn plans).flatten.mapM (WorkerPlan.sequentialRows RandLib.first [] ⟨3, by decide⟩) = .ok reads ∧
    reads.flatten.count (some 0) = 2 ∧ reads.flatten.count (some 1) = 1 := by
  obtain ⟨hfound, htiled⟩ := split_partitions_tile ⟨3, by decide⟩ ⟨2, by decide⟩ 3 false false none
    (by decide : 2 ≤ 2 ^ 32) ![0, 2] (fun _ _ => 0) RandLib.first [] (by decide)
  obtain ⟨plans, hplans⟩ := hfound (by decide) (by decide) (by decide) nofun
  have hsum : ∀ rank, ((plans rank).map WorkerPlan.sampleCount).sum = 2 := fun rank =>
    (hplans.sum_eq rank).trans (by simp [rankBudget])
  obtain ⟨count, population, -, hcount, -, -, -, hpass⟩ := htiled plans hplans fun rank => hsum rank ▸ Nat.two_pos
  obtain ⟨rfl, reads, hreads, hrows⟩ := hpass rfl rfl rfl
  exact ⟨plans, reads, hplans, hreads, (hrows 0 (by decide)).1.trans rfl, (hrows 1 (by decide)).1.trans rfl⟩

end DatasetRt
