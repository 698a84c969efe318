import DatasetRt.WorkerPool
import DatasetRt.Lib.Machine

/-! # The write pipelines

`SampleWritePipeline` (`writer.rs`) and `SourceListWritePipeline` (`writer/pipeline.rs`) send
every item through the worker pool and commit what comes back in submission order.  They share
one scheme, `WritePipeline`, and differ in what they commit to: `Committer` holds the
differences, `sampleWritePipeline` and `sourceListWritePipeline` are the two members.

* The calling thread: `submit` enters `submit` with the next item, `enqueue` is the hand-over
  to the pool, `receive` is `complete_one` with a result, `interrupt` is `complete_one` ended by
  a pending Python signal, `finish` and `finishIncomplete` enter the two closing loops, `settle`
  leaves them, `drop` gives the pipeline up.
* The workers: `start` and `complete i`, in any interleaving.

`submitted`, `committed` and `errors` are histories: the items the pool accepted, the items
`commit` was called on, and the errors the pipeline returned. -/

namespace DatasetRt

/-- A queued item and, unchanged, its serialized form. -/
structure Message (ι : Type) where
  sequence : ℕ
  item : ι

/-- What an item is committed to, and the two texts and orders of the overflow check of the
sequence numbers. -/
structure Committer (ι β : Type) where
  commit : β → ι → β × CacheResult Unit
  /-- The end of `finish`, after the last commit. -/
  finish : β → β × CacheResult Unit
  /-- `Drop`, and the end of `finish_incomplete`. -/
  abandon : β → β
  overflowed : CacheError
  /-- The next sequence number is computed before the current one is submitted. -/
  checksFirst : Bool

/-- `SampleWritePipeline`: the samples of one source go to one builder. -/
def sampleWritePipeline {ι β : Type} (pushSample : β → ι → β × CacheResult Unit)
    (finish : β → β × CacheResult Unit) : Committer ι β where
  commit := pushSample
  finish
  abandon := id
  overflowed := .invalidInput "sample sequence overflowed u64"
  checksFirst := false

/-- `SourceListWritePipeline`: the events of all sources go to one committer. -/
def sourceListWritePipeline {ι β : Type} (commitEvent : β → ι → β × CacheResult Unit)
    (cleanupUnfinishedSource : β → β) : Committer ι β where
  commit := commitEvent
  finish target := (target, .ok ())
  abandon := cleanupUnfinishedSource
  overflowed := .invalidInput "pipeline sequence overflowed u64"
  checksFirst := true

/-- The committing side: what has come back and what has been committed. -/
structure CommitState (ι β : Type) where
  target : β
  pending : AList fun _ : ℕ => ι
  nextSequence : ℕ
  committed : List ι

/-- Where the calling thread is. -/
inductive WritePhase (ι : Type) where
  | ready
  /-- In `submit`, waiting for a credit. -/
  | crediting (message : Message ι)
  /-- In `submit`, before the hand-over to the pool. -/
  | enqueueing (message : Message ι)
  | finishing
  | draining
  /-- `submit` returned an error, and nothing is submitted any more.  (Where a signal handler raises an ordinary
  exception, `ingest_source_samples` still sends an abort; such handlers are left out.) -/
  | failed
  /-- `finish` returned. -/
  | finished (result : CacheResult Unit)
  /-- The pipeline was drained after an error, or dropped. -/
  | abandoned

structure WritePipeline (ι β : Type) extends CommitState ι β where
  pool : Pool (Message ι) (CacheResult (Message ι))
  inFlight : ℕ
  parallelism : ℕ
  /-- The number of the next item, kept by the caller. -/
  sequence : ℕ
  phase : WritePhase ι
  submitted : List ι
  errors : List CacheError

inductive WriteAct (ι : Type) where
  | submit (item : ι)
  | enqueue (accepted : Bool)
  | receive
  | interrupt (error : CacheError)
  | finish
  | finishIncomplete
  | settle
  | drop
  | start
  | complete (i : ℕ)

namespace CommitState

variable {ι β : Type}

/-- `commit_ready_samples`, `commit_ready_events`: as long as the next number is there, commit
it.  Each round takes one entry out of `pending`, so its size is enough fuel. -/
def commitReady (K : Committer ι β) : ℕ → CommitState ι β → CommitState ι β × CacheResult Unit
  | 0, c => (c, .ok ())
  | fuel + 1, c =>
      match c.pending.lookup c.nextSequence with
      | none => (c, .ok ())
      | some item =>
          let c' := { c with
            pending := c.pending.erase c.nextSequence
            target := (K.commit c.target item).1
            committed := c.committed ++ [item] }
          match (K.commit c.target item).2 with
          | .error error => (c', .error error)
          | .ok () =>
              match checkedAdd c.nextSequence 1 with
              | none => (c', .error K.overflowed)
              | some nextSequence => commitReady K fuel { c' with nextSequence }

end CommitState

namespace WritePipeline

variable {ι β : Type} (K : Committer ι β)

def new (target : β) (prefetchSize numWorkers : Positive) : WritePipeline ι β :=
  let parallelism := min prefetchSize.1 numWorkers.1
  { target
    pending := ∅
    nextSequence := 0
    committed := []
    pool := Pool.new numWorkers.1 parallelism
    inFlight := 0
    parallelism
    sequence := 0
    phase := .ready
    submitted := []
    errors := [] }

/-- `complete_one` after a result was received. -/
def completeOne (s : WritePipeline ι β) :
    CacheResult (Message ι) → WritePipeline ι β × CacheResult Unit
  | .error error => (s, .error error)
  | .ok message =>
      if s.inFlight = 0 then (s, .error .workerFailed)
      else
        let pending := s.pending.insert message.sequence message.item
        let s' := { s with inFlight := s.inFlight - 1, pending }
        if (s.pending.lookup message.sequence).isSome then (s', .error .workerFailed)
        else
          let done := s'.toCommitState.commitReady K pending.keys.length
          ({ s' with toCommitState := done.1 }, done.2)

/-- The pipeline is dropped: nobody receives the remaining results. -/
def abandon (s : WritePipeline ι β) (phase : WritePhase ι) : WritePipeline ι β :=
  { s with target := K.abandon s.target, pool := s.pool.close, phase }

/-- An error leaves `complete_one`: `submit` and `finish` return it, `finish_incomplete` stops
draining.  `finish` owns the pipeline, so its return drops it. -/
def raise (s : WritePipeline ι β) (error : CacheError) : WritePipeline ι β :=
  let s' := { s with errors := s.errors ++ [error] }
  match s.phase with
  | .finishing => abandon K s' (.finished (.error error))
  | .draining => abandon K s' .abandoned
  | _ => { s' with phase := .failed }

/-- The phase after `complete_one` succeeded. -/
def credited : WritePhase ι → WritePhase ι
  | .crediting message => .enqueueing message
  | phase => phase

/-- `complete_one` is called in the current phase. -/
def wantsResult (s : WritePipeline ι β) : Bool :=
  match s.phase with
  | .crediting _ => true
  | .finishing => decide (0 < s.inFlight)
  | .draining => decide (0 < s.inFlight)
  | _ => false

/-- The end of `finish`. -/
def close (s : WritePipeline ι β) : WritePipeline ι β :=
  if s.pending.keys ≠ [] then s.raise K .workerFailed
  else
    let done := K.finish s.target
    match done.2 with
    | .error error => { s with target := done.1 }.raise K error
    | .ok () => { s with target := done.1, pool := s.pool.close, phase := .finished (.ok ()) }

/-- The caller sends `item`: `send_event`, or the end of a round of `ingest_python_samples`. -/
def send (s : WritePipeline ι β) (item : ι) : WritePipeline ι β :=
  if K.checksFirst ∧ checkedAdd s.sequence 1 = none then s.raise K K.overflowed
  else if s.inFlight = s.parallelism then { s with phase := .crediting ⟨s.sequence, item⟩ }
  else { s with phase := .enqueueing ⟨s.sequence, item⟩ }

/-- The pool took the message; the caller moves on to the next number. -/
def enqueued (s : WritePipeline ι β) (message : Message ι) : WritePipeline ι β :=
  let s' := { s with
    pool := s.pool.submit message
    inFlight := s.inFlight + 1
    submitted := s.submitted ++ [message.item] }
  match checkedAdd s.sequence 1 with
  | some sequence => { s' with sequence, phase := .ready }
  | none => s'.raise K K.overflowed

def step (s : WritePipeline ι β) : WriteAct ι → Option (WritePipeline ι β)
  | .submit item =>
      match s.phase with
      | .ready => some (s.send K item)
      | _ => none
  | .enqueue accepted =>
      match s.phase with
      | .enqueueing message =>
          if accepted then some (s.enqueued K message) else some (s.raise K .workerFailed)
      | _ => none
  | .receive =>
      if s.wantsResult then
        match s.pool.recv with
        | some (result, pool) =>
            match completeOne K { s with pool } result with
            | (s', .ok ()) => some { s' with phase := credited s'.phase }
            | (s', .error error) => some (s'.raise K error)
        | none => none
      else none
  | .interrupt error =>
      if s.wantsResult ∧ s.pool.recv.isNone then some (s.raise K error) else none
  | .finish =>
      match s.phase with
      | .ready => some { s with phase := .finishing }
      | _ => none
  | .finishIncomplete =>
      match s.phase with
      | .ready => some { s with phase := .draining }
      | .failed => some { s with phase := .draining }
      | _ => none
  | .settle =>
      if s.inFlight = 0 then
        match s.phase with
        | .finishing => some (s.close K)
        | .draining => some (abandon K s .abandoned)
        | _ => none
      else none
  | .drop =>
      match s.phase with
      | .ready => some (abandon K s .abandoned)
      | .failed => some (abandon K s .abandoned)
      | _ => none
  | .start =>
      match s.pool.start id with
      | some pool => some { s with pool }
      | none => none
  | .complete i =>
      match s.pool.complete .ok i with
      | some pool => some { s with pool }
      | none => none

/-! ### What a step can do -/

/-- The steps, one constructor for each way through `step`. -/
inductive Moves (s : WritePipeline ι β) : WriteAct ι → WritePipeline ι β → Prop where
  | send (item : ι) (hphase : s.phase = .ready) : Moves s (.submit item) (s.send K item)
  | enqueued {message : Message ι} (hphase : s.phase = .enqueueing message) :
      Moves s (.enqueue true) (s.enqueued K message)
  | refused {message : Message ι} (hphase : s.phase = .enqueueing message) :
      Moves s (.enqueue false) (s.raise K .workerFailed)
  | received {result : CacheResult (Message ι)} {pool : Pool (Message ι) (CacheResult (Message ι))}
      {t : WritePipeline ι β} (hwant : s.wantsResult = true) (hrecv : s.pool.recv = some (result, pool))
      (hone : completeOne K { s with pool } result = (t, .ok ())) :
      Moves s .receive { t with phase := credited t.phase }
  | broken {result : CacheResult (Message ι)} {pool : Pool (Message ι) (CacheResult (Message ι))}
      {t : WritePipeline ι β} {error : CacheError} (hwant : s.wantsResult = true)
      (hrecv : s.pool.recv = some (result, pool))
      (hone : completeOne K { s with pool } result = (t, .error error)) : Moves s .receive (t.raise K error)
  | interrupted (error : CacheError) (hwant : s.wantsResult = true) (hrecv : s.pool.recv.isNone = true) :
      Moves s (.interrupt error) (s.raise K error)
  | finish (hphase : s.phase = .ready) : Moves s .finish { s with phase := .finishing }
  | finishIncomplete (hphase : s.phase = .ready ∨ s.phase = .failed) :
      Moves s .finishIncomplete { s with phase := .draining }
  | closed (hphase : s.phase = .finishing) (hout : s.inFlight = 0) : Moves s .settle (s.close K)
  | drained (hphase : s.phase = .draining) (hout : s.inFlight = 0) : Moves s .settle (abandon K s .abandoned)
  | dropped (hphase : s.phase = .ready ∨ s.phase = .failed) : Moves s .drop (abandon K s .abandoned)
  | start {pool : Pool (Message ι) (CacheResult (Message ι))} (hpool : s.pool.start id = some pool) :
      Moves s .start { s with pool }
  | complete {i : ℕ} {pool : Pool (Message ι) (CacheResult (Message ι))}
      (hpool : s.pool.complete .ok i = some pool) : Moves s (.complete i) { s with pool }

variable {K} in
theorem moves_of_step {s s' : WritePipeline ι β} {a : WriteAct ι} (hs : s.step K a = some s') :
    Moves K s a s' := by
  cases a with
  | submit item =>
      cases hp : s.phase <;> simp only [step, hp, Option.some.injEq, reduceCtorEq] at hs
      exact hs ▸ .send item hp
  | enqueue accepted =>
      cases hp : s.phase <;> simp only [step, hp, reduceCtorEq] at hs
      cases accepted with
      | true => exact Option.some.inj hs ▸ .enqueued hp
      | false => exact Option.some.inj hs ▸ .refused hp
  | receive =>
      simp only [step] at hs
      split_ifs at hs with hwant
      cases hr : s.pool.recv with
      | none => simp [hr] at hs
      | some rp =>
          simp only [hr] at hs
          split at hs
          · rename_i t hone
            exact Option.some.inj hs ▸ .received hwant hr hone
          · rename_i t error hone
            exact Option.some.inj hs ▸ .broken hwant hr hone
  | interrupt error =>
      simp only [step] at hs
      split_ifs at hs with hwant
      exact Option.some.inj hs ▸ .interrupted error hwant.1 hwant.2
  | finish =>
      cases hp : s.phase <;> simp only [step, hp, Option.some.injEq, reduceCtorEq] at hs
      exact hs ▸ .finish hp
  | finishIncomplete =>
      cases hp : s.phase <;> simp only [step, hp, Option.some.injEq, reduceCtorEq] at hs
      · exact hs ▸ .finishIncomplete (.inl hp)
      · exact hs ▸ .finishIncomplete (.inr hp)
  | settle =>
      simp only [step] at hs
      split_ifs at hs with hout
      cases hp : s.phase <;> simp only [hp, Option.some.injEq, reduceCtorEq] at hs
      · exact hs ▸ .closed hp hout
      · exact hs ▸ .drained hp hout
  | drop =>
      cases hp : s.phase <;> simp only [step, hp, Option.some.injEq, reduceCtorEq] at hs
      · exact hs ▸ .dropped (.inl hp)
      · exact hs ▸ .dropped (.inr hp)
  | start =>
      simp only [step] at hs
      split at hs
      · rename_i pool hpool
        exact Option.some.inj hs ▸ .start hpool
      · cases hs
  | complete i =>
      simp only [step] at hs
      split at hs
      · rename_i pool hpool
        exact Option.some.inj hs ▸ .complete hpool
      · cases hs

end WritePipeline

end DatasetRt
