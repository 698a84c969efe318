import DatasetRt.Sampling
import DatasetRt.WorkerPool
import DatasetRt.Lib.Machine

/-! # The ordered reader

`RuntimeIterator` (`runtime.rs`) keeps a window of read jobs on the worker pool and hands
their results out in planned order.  `Reader` is the iterator together with what it shares
with the pool; `Reader.step` is one atomic step of the consumer thread or of a worker.

* The consumer: `call` enters `next()`, `schedule` is one round of the loop of
  `schedule_available` (in `start` or in `next()`), `scheduleDone` leaves that loop, `emit`
  takes the awaited sample out of `pending`, `receive` takes one result out of the channel,
  `drop` is `Drop for RuntimeIterator`.
* The workers: `start` and `complete i`, in any interleaving; `read` says what reading
  planned number `k` at its physical index gives.

`returned` lists what the `next()` calls returned so far, `None` included.  The unsigned
subtraction `scheduled - emitted` is modelled with its failure: evaluated with
`scheduled < emitted` it leads to the phase `overflowed`. -/

namespace DatasetRt

structure ReadJob where
  sequence : ℕ
  physicalIndex : ℕ
  /-- The check at the beginning of the job saw the iterator cancelled. -/
  skipped : Bool

structure LoadedResult (σ : Type) where
  sequence : ℕ
  result : σ

/-- Where the consumer thread is. -/
inductive Phase where
  | starting
  | idle
  | scheduling
  | receiving
  | closed
  | overflowed
deriving DecidableEq, Repr

structure Reader (R : RandLib) (σ : Type) where
  pool : Pool ReadJob (CacheResult (LoadedResult σ))
  plan : EpochPlan R
  cancelled : Bool
  pending : AList fun _ : ℕ => σ
  parallelism : ℕ
  scheduled : ℕ
  emitted : ℕ
  total : ℕ
  phase : Phase
  returned : List (Option (CacheResult σ))

inductive ReaderAct where
  | schedule (accepted : Bool)
  | scheduleDone
  | call
  | emit
  | receive
  | start
  | complete (i : ℕ)
  | drop
deriving DecidableEq, Repr

namespace Reader

variable {R : RandLib} {σ : Type}

/-- `RuntimeIterator::start`, up to the first round of its scheduling loop. -/
def begin (plan : EpochPlan R) (prefetchSize numWorkers : Positive) : Reader R σ :=
  let total := plan.len
  let parallelism := min (min numWorkers.1 prefetchSize.1) total
  { pool := Pool.new numWorkers.1 parallelism
    plan
    cancelled := false
    pending := ∅
    parallelism
    scheduled := 0
    emitted := 0
    total
    phase := .starting
    returned := [] }

/-- The guard of `schedule_available`; `none` when `scheduled - emitted` underflows. -/
def wantsJob (s : Reader R σ) : Option Bool :=
  if s.emitted ≤ s.scheduled then
    some (decide (s.scheduled - s.emitted < s.parallelism ∧ s.scheduled < s.total))
  else none

/-- `next()` returns an error: the iterator is exhausted and its jobs are cancelled. -/
def fail (s : Reader R σ) (error : CacheError) : Reader R σ :=
  { s with
    emitted := s.total
    cancelled := true
    phase := .idle
    returned := s.returned ++ [some (.error error)] }

/-- Dropping the iterator cancels its jobs and disconnects the result channel. -/
def drop (s : Reader R σ) : Reader R σ :=
  { s with cancelled := true, pool := s.pool.close, phase := .closed }

/-- `schedule_available` ends with an error: `start` gives up the iterator, `next()` fails. -/
def scheduleError (s : Reader R σ) (error : CacheError) : Reader R σ :=
  if s.phase = .starting then s.drop else s.fail error

/-- `schedule_next`, with the pool's answer to the submission. -/
def scheduleNext (s : Reader R σ) (accepted : Bool) : Reader R σ :=
  let next := s.plan.nextPhysicalIndex s.scheduled
  match next.1 with
  | none => { s with plan := next.2 }.scheduleError .workerFailed
  | some physicalIndex =>
      if accepted then
        { s with
          plan := next.2
          pool := s.pool.submit ⟨s.scheduled, physicalIndex, false⟩
          scheduled := s.scheduled + 1 }
      else { s with plan := next.2 }.scheduleError .workerFailed

/-- `next()` returns the sample planned for `emitted`. -/
def emitSample (s : Reader R σ) (sample : σ) : Reader R σ :=
  { s with
    emitted := s.emitted + 1
    phase := .idle
    returned := s.returned ++ [some (.ok sample)] }

/-- One result in `next()`; a sample ahead of its turn waits in `pending`. -/
def receiveResult (s : Reader R σ) : CacheResult (LoadedResult σ) → Reader R σ
  | .error error => s.fail error
  | .ok loaded =>
      if loaded.sequence = s.emitted then s.emitSample loaded.result
      else
        let inserted := { s with pending := s.pending.insert loaded.sequence loaded.result }
        if (s.pending.lookup loaded.sequence).isSome then inserted.fail .workerFailed
        else inserted

/-- The closure of `schedule_next`: cancellation is checked before and after the read. -/
def jobResult (read : ℕ → ℕ → CacheResult σ) (cancelled : Bool) (job : ReadJob) :
    CacheResult (LoadedResult σ) :=
  if job.skipped then .error .workerFailed
  else
    match read job.sequence job.physicalIndex with
    | .error error => .error error
    | .ok result => if cancelled then .error .workerFailed else .ok ⟨job.sequence, result⟩

def step (read : ℕ → ℕ → CacheResult σ) (s : Reader R σ) : ReaderAct → Option (Reader R σ)
  | .schedule accepted =>
      if s.phase = .starting ∨ s.phase = .scheduling then
        match s.wantsJob with
        | none => some { s with phase := .overflowed }
        | some true => some (s.scheduleNext accepted)
        | some false => none
      else none
  | .scheduleDone =>
      if s.phase = .starting ∨ s.phase = .scheduling then
        match s.wantsJob with
        | some false =>
            some { s with phase := if s.phase = .starting then .idle else .receiving }
        | _ => none
      else none
  | .call =>
      if s.phase = .idle then
        if s.total ≤ s.emitted then some { s with returned := s.returned ++ [none] }
        else some { s with phase := .scheduling }
      else none
  | .emit =>
      if s.phase = .receiving then
        match s.pending.lookup s.emitted with
        | some sample => some ({ s with pending := s.pending.erase s.emitted }.emitSample sample)
        | none => none
      else none
  | .receive =>
      if s.phase = .receiving ∧ s.pending.lookup s.emitted = none then
        match s.pool.recv with
        | some (result, pool) => some ({ s with pool }.receiveResult result)
        | none => none
      else none
  | .start =>
      match s.pool.start fun job => { job with skipped := s.cancelled } with
      | some pool => some { s with pool }
      | none => none
  | .complete i =>
      match s.pool.complete (jobResult read s.cancelled) i with
      | some pool => some { s with pool }
      | none => none
  | .drop => if s.phase = .idle then some s.drop else none

end Reader

end DatasetRt
