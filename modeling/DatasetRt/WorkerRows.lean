import DatasetRt.LoaderPartitions

/-! # The rows of a consumer

`worker_rows` (`integrations/loading.py`) splits the positions among the ranks and the positions of a rank among its
workers.  A rank knows only its own number of workers; still the spans of all consumers, rank by rank and worker by
worker, tile the positions (`worker_rows_tile`). -/

namespace DatasetRt

/-- `worker_rows`. -/
def workerRows (count : ℕ) (replica : ReplicaIdentity) (numWorkers workerId : ℕ) : LoaderResult RowSpan := do
  requireU64 "num_workers" numWorkers
  let rankSpan ← partitionRows count replica.worldSize replica.rank
  let localSpan ← partitionRows rankSpan.length (max 1 numWorkers) workerId
  .ok ⟨rankSpan.offset + localSpan.offset, localSpan.length⟩

/-- The span of a consumer in closed form. -/
def consumerSpan (count worldSize rank numWorkers workerId : ℕ) : RowSpan :=
  ⟨Split.first count worldSize rank + Split.first (Split.size count worldSize rank) (max 1 numWorkers) workerId,
    Split.size (Split.size count worldSize rank) (max 1 numWorkers) workerId⟩

section spans

variable {count worldSize rank numWorkers workerId : ℕ}

theorem workerRows_eq_ok {replica : ReplicaIdentity} (hcount : count < wordSize) (hworkers : numWorkers < wordSize)
    (hid : workerId < max 1 numWorkers) :
    workerRows count replica numWorkers workerId =
      .ok (consumerSpan count replica.worldSize replica.rank numWorkers workerId) := by
  have hworld : replica.worldSize < wordSize := by
    have hle := replica.worldSize_le
    unfold wordSize
    omega
  have hpos : 0 < replica.worldSize := Nat.zero_lt_of_lt replica.rank_lt
  have hlength : Split.size count replica.worldSize replica.rank < wordSize := (Split.size_le hpos).trans_lt hcount
  have hmax : max 1 numWorkers < wordSize := max_lt (by decide) hworkers
  have hrequire : requireU64 "num_workers" numWorkers = .ok () := if_pos hworkers
  have hrank := partitionRows_eq_ok_iff.mpr ⟨⟨hcount, hworld, replica.rank_lt⟩, rfl⟩
  have hlocal := partitionRows_eq_ok_iff.mpr ⟨⟨hlength, hmax, hid⟩, rfl⟩
  simp only [workerRows, hrequire, hrank, hlocal, bind, Except.bind, consumerSpan]

theorem tiles_rank :
    Tiles RowSpan.offset RowSpan.length (Split.first count worldSize rank) (Split.first count worldSize (rank + 1))
      (List.ofFn fun worker : Fin (max 1 numWorkers) => consumerSpan count worldSize rank numWorkers worker) := by
  have hpos : 0 < max 1 numWorkers := Nat.lt_of_lt_of_le Nat.zero_lt_one (le_max_left _ _)
  let bound (worker : ℕ) : ℕ := Split.first count worldSize rank +
    Split.first (Split.size count worldSize rank) (max 1 numWorkers) worker
  have htiles : Tiles RowSpan.offset RowSpan.length (bound 0) (bound (max 1 numWorkers))
      (List.ofFn fun worker : Fin (max 1 numWorkers) => consumerSpan count worldSize rank numWorkers worker) :=
    Tiles.ofFn fun worker => ⟨rfl, by simp only [bound, consumerSpan, Nat.add_assoc, Split.first_succ]⟩
  simpa only [bound, Split.first_zero, Split.first_parts hpos, Nat.add_zero, Split.first_succ] using htiles

theorem sum_rank :
    ((List.ofFn fun worker : Fin (max 1 numWorkers) => consumerSpan count worldSize rank numWorkers worker).map
      RowSpan.length).sum = Split.size count worldSize rank := by
  have hsum := Tiles.add_sum (@tiles_rank count worldSize rank numWorkers)
  rw [← Split.first_succ] at hsum
  exact Nat.add_left_cancel hsum

theorem mem_positions {span : RowSpan} {position : ℕ} :
    position ∈ positions RowSpan.offset RowSpan.length span ↔
      span.offset ≤ position ∧ position < span.offset + span.length := by
  simp [positions, List.mem_range'_1]

/-- **Every position has one consumer.** -/
theorem existsUnique_consumer (workers : Fin worldSize → ℕ) (hworld : 0 < worldSize) {position : ℕ}
    (h : position < count) :
    ∃! consumer : (rank : Fin worldSize) × Fin (max 1 (workers rank)),
      position ∈ positions RowSpan.offset RowSpan.length
        (consumerSpan count worldSize consumer.1 (workers consumer.1) consumer.2) := by
  have hmax : ∀ rank, 0 < max 1 (workers rank) := fun rank => Nat.lt_of_lt_of_le Nat.zero_lt_one (le_max_left _ _)
  obtain ⟨rank, ⟨hbelow, habove⟩, hrank⟩ := Split.existsUnique_part hworld h
  have hinside : position - Split.first count worldSize rank < Split.size count worldSize rank := by omega
  obtain ⟨worker, ⟨hbelow', habove'⟩, hworker⟩ := Split.existsUnique_part (hmax rank) hinside
  refine ⟨⟨rank, worker⟩, ?_, ?_⟩
  · simp only [mem_positions, consumerSpan]
    omega
  · rintro ⟨rank', worker'⟩ hother
    simp only [mem_positions, consumerSpan] at hother
    -- the span lies within its rank, which is therefore the rank of the position
    have hwithin : Split.first (Split.size count worldSize rank') (max 1 (workers rank')) worker' +
        Split.size (Split.size count worldSize rank') (max 1 (workers rank')) worker' ≤
        Split.size count worldSize rank' := Split.first_add_size_le worker'.2
    obtain rfl : rank' = rank := hrank rank' ⟨by omega, by omega⟩
    obtain rfl : worker' = worker := hworker worker' ⟨by omega, by omega⟩
    rfl

end spans

/-- **The spans of the consumers tile the rows.**  They follow one another by rank and worker from the first row to
the last, so every position has one consumer; the ranks, and the workers of a rank, differ by one row at most, and
the larger ones come first. -/
theorem worker_rows_tile {count worldSize : ℕ} (hcount : count < wordSize) (hpos : 1 ≤ worldSize)
    (hworld : worldSize ≤ 2 ^ 32) (workers : Fin worldSize → ℕ) (hworkers : ∀ rank, workers rank < wordSize) :
    ∃ span : (rank : Fin worldSize) → Fin (max 1 (workers rank)) → RowSpan,
      (∀ (rank : Fin worldSize) (worker : Fin (max 1 (workers rank))),
        workerRows count ⟨rank, worldSize, hworld, rank.2⟩ (workers rank) worker = .ok (span rank worker)) ∧
      Tiles RowSpan.offset RowSpan.length 0 count (List.ofFn fun rank => List.ofFn (span rank)).flatten ∧
      (∀ position < count, ∃! consumer : (rank : Fin worldSize) × Fin (max 1 (workers rank)),
        position ∈ positions RowSpan.offset RowSpan.length (span consumer.1 consumer.2)) ∧
      (∀ rank rank' : Fin worldSize, rank ≤ rank' →
        ((List.ofFn (span rank')).map RowSpan.length).sum ≤ ((List.ofFn (span rank)).map RowSpan.length).sum ∧
        ((List.ofFn (span rank)).map RowSpan.length).sum ≤ ((List.ofFn (span rank')).map RowSpan.length).sum + 1) ∧
      ∀ (rank : Fin worldSize) (worker worker' : Fin (max 1 (workers rank))), worker ≤ worker' →
        (span rank worker').length ≤ (span rank worker).length ∧
        (span rank worker).length ≤ (span rank worker').length + 1 := by
  refine ⟨fun rank worker => consumerSpan count worldSize rank (workers rank) worker, fun rank worker => ?_, ?_,
    fun position hposition => existsUnique_consumer workers hpos hposition, fun rank rank' hle => ?_,
    fun rank worker worker' hle => Split.size_anti hle⟩
  · exact workerRows_eq_ok hcount (hworkers rank) worker.2
  · have htiles : Tiles RowSpan.offset RowSpan.length (Split.first count worldSize 0)
        (Split.first count worldSize worldSize) (List.ofFn fun rank : Fin worldSize =>
          List.ofFn fun worker : Fin (max 1 (workers rank)) =>
            consumerSpan count worldSize rank (workers rank) worker).flatten :=
      Tiles.ofFn_flatten fun rank => tiles_rank
    rwa [Split.first_zero, Split.first_parts hpos] at htiles
  · simp only [sum_rank]
    exact Split.size_anti hle

/-- Ten rows for three ranks, the second of which has no worker of its own and the third more than rows. -/
theorem worker_rows_tile_ten_rows :
    (∃! consumer : (rank : Fin 3) × Fin (max 1 (![2, 0, 5] rank)),
      7 ∈ positions RowSpan.offset RowSpan.length (consumerSpan 10 3 consumer.1 (![2, 0, 5] consumer.1) consumer.2)) ∧
    workerRows 10 ⟨2, 3, by decide, by decide⟩ 5 0 = .ok ⟨7, 1⟩ ∧
    workerRows 10 ⟨2, 3, by decide, by decide⟩ 5 4 = .ok ⟨10, 0⟩ := by
  have hworkers : ∀ rank : Fin 3, ![2, 0, 5] rank < wordSize := by decide
  obtain ⟨span, hspan, -, hunique, -⟩ := @worker_rows_tile 10 3 (by decide) (by decide) (by decide) ![2, 0, 5] hworkers
  have hsame : ∀ rank worker, span rank worker = consumerSpan 10 3 rank (![2, 0, 5] rank) worker := by
    intro rank worker
    have hclosed := (hspan rank worker).symm.trans (workerRows_eq_ok (by decide) (hworkers rank) worker.2)
    exact Except.ok.inj hclosed
  refine ⟨?_, rfl, rfl⟩
  simpa only [hsame] using hunique 7 (by decide)

end DatasetRt
