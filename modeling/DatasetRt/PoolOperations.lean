import DatasetRt.WorkerPool
import DatasetRt.Lib.Machine

/-! # The short operations on the pool

Besides the iterator and the two write pipelines, `DatasetState::get_item` and `load_caches`
(`dataset.rs`) use the runtime's worker pool.  Both are one call of the calling thread, so their
receiver lives until the call returns.

* `GetItem`: one job, one result, a channel of capacity one.
* `CacheLoad`: `load_caches` fills a window of jobs, and submits the next path after each result.
  What comes back out of order is sorted by position at the end (`orderLoadedCaches`).

`load` is what a job computes: `load_sample_by_identity`, or `load_cache` of a path. -/

namespace DatasetRt

/-! ### Reading one sample -/

inductive GetItemPhase (σ : Type) where
  | submitting
  | receiving
  | returned (result : CacheResult σ)

structure GetItem (σ : Type) where
  pool : Pool Unit (CacheResult σ)
  phase : GetItemPhase σ

inductive GetItemAct where
  | submit (accepted : Bool)
  | receive
  | start
  | complete (i : ℕ)
deriving DecidableEq, Repr

namespace GetItem

variable {σ : Type}

def new (numWorkers : Positive) : GetItem σ := { pool := Pool.new numWorkers.1 1, phase := .submitting }

/-- The call returns and drops its receiver. -/
def ret (s : GetItem σ) (result : CacheResult σ) : GetItem σ :=
  { pool := s.pool.close, phase := .returned result }

def step (load : CacheResult σ) (s : GetItem σ) : GetItemAct → Option (GetItem σ)
  | .submit accepted =>
      match s.phase with
      | .submitting =>
          if accepted then some { pool := s.pool.submit (), phase := .receiving }
          else some (s.ret (.error .workerFailed))
      | _ => none
  | .receive =>
      match s.phase with
      | .receiving =>
          match s.pool.recv with
          | some (result, pool) => some ({ s with pool }.ret result)
          | none => none
      | _ => none
  | .start =>
      match s.pool.start id with
      | some pool => some { s with pool }
      | none => none
  | .complete i =>
      match s.pool.complete (fun _ => load) i with
      | some pool => some { s with pool }
      | none => none

end GetItem

/-! ### Loading the caches of a dataset -/

structure CacheLoadResult (γ : Type) where
  position : ℕ
  cache : γ

/-- `order_loaded_caches`. -/
def orderLoadedCaches {γ : Type} (results : List (CacheLoadResult γ)) : List γ :=
  (results.mergeSort fun a b => a.position ≤ b.position).map CacheLoadResult.cache

/-- Where `load_caches` is. -/
inductive LoadPhase (γ : Type) where
  /-- In the first loop. -/
  | filling
  /-- At the head of the second loop. -/
  | receiving
  /-- A result was received, and the next path may follow. -/
  | refilling
  | returned (result : CacheResult (List γ))

structure CacheLoad (γ : Type) where
  pool : Pool (ℕ × String) (CacheResult (CacheLoadResult γ))
  paths : List (ℕ × String)
  total : ℕ
  parallelism : ℕ
  scheduled : ℕ
  results : List (CacheLoadResult γ)
  phase : LoadPhase γ

inductive LoadAct where
  | submit (accepted : Bool)
  | receive
  /-- The loop or the test at hand is left. -/
  | proceed
  | start
  | complete (i : ℕ)
deriving DecidableEq, Repr

namespace CacheLoad

variable {γ : Type}

def new (paths : List String) (numWorkers : Positive) : CacheLoad γ :=
  let total := paths.length
  let parallelism := min numWorkers.1 total
  { pool := Pool.new numWorkers.1 parallelism
    paths := paths.zipIdx.map Prod.swap
    total
    parallelism
    scheduled := 0
    results := []
    phase := .filling }

/-- `load_caches` returns and drops its receiver. -/
def ret (s : CacheLoad γ) (result : CacheResult (List γ)) : CacheLoad γ :=
  { s with pool := s.pool.close, phase := .returned result }

/-- `submit_next_cache_load`, with the pool's answer, and the counting after it. -/
def submitNextCacheLoad (s : CacheLoad γ) (accepted : Bool) (phase : LoadPhase γ) : CacheLoad γ :=
  match s.paths with
  | [] => s.ret (.error .workerFailed)
  | job :: rest =>
      if accepted then
        { s with paths := rest, pool := s.pool.submit job, scheduled := s.scheduled + 1, phase }
      else { s with paths := rest }.ret (.error .workerFailed)

def jobResult (load : String → ℕ → CacheResult γ) (job : ℕ × String) : CacheResult (CacheLoadResult γ) :=
  (load job.2 job.1).map (CacheLoadResult.mk job.1)

def step (load : String → ℕ → CacheResult γ) (s : CacheLoad γ) : LoadAct → Option (CacheLoad γ)
  | .submit accepted =>
      match s.phase with
      | .filling =>
          if s.scheduled < s.parallelism then some (s.submitNextCacheLoad accepted .filling) else none
      | .refilling => if s.scheduled < s.total then some (s.submitNextCacheLoad accepted .receiving) else none
      | _ => none
  | .proceed =>
      match s.phase with
      | .filling => if s.scheduled < s.parallelism then none else some { s with phase := .receiving }
      | .refilling => if s.scheduled < s.total then none else some { s with phase := .receiving }
      | .receiving =>
          if s.results.length < s.total then none else some (s.ret (.ok (orderLoadedCaches s.results)))
      | .returned _ => none
  | .receive =>
      match s.phase with
      | .receiving =>
          if s.results.length < s.total then
            match s.pool.recv with
            | some (.ok result, pool) =>
                some { s with pool, results := s.results ++ [result], phase := .refilling }
            | some (.error error, pool) => some ({ s with pool }.ret (.error error))
            | none => none
          else none
      | _ => none
  | .start =>
      match s.pool.start id with
      | some pool => some { s with pool }
      | none => none
  | .complete i =>
      match s.pool.complete (jobResult load) i with
      | some pool => some { s with pool }
      | none => none

end CacheLoad

end DatasetRt
