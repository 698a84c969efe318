import DatasetRt.SampleRuns
import DatasetRt.SourceNames

/-! # The parallel writer

`write_parallel` (`writer.py`) starts child processes, each with a mailbox for one job and a pipe for what it reports,
and `_supervise` polls them one after the other and gives a source to each that is idle.  A child follows `_worker`.

The machine has the steps of the parent, those of the children, and those of the world: time passes, the disk
changes, a child dies, also in the middle of a message.  `history` is what the parent has done; nothing reads it. -/

namespace DatasetRt

/-! ### Records -/

/-- `CacheWriteResult`. -/
inductive CacheWriteResult where
  | success (sourceName : PyStr) (path : Path)
  | error (sourceName : PyStr) (message : String)

def CacheWriteResult.sourceName : CacheWriteResult → PyStr
  | .success sourceName _ => sourceName
  | .error sourceName _ => sourceName

namespace WriteParallel

inductive ExitStatus where
  | code (value : ℤ)
  | text (message : String)

/-- A Python exception, with its `_diagnostic`. -/
inductive PyException where
  | keyboardInterrupt (diagnostic : String)
  | systemExit (diagnostic : String) (status : ExitStatus)
  | osError (diagnostic : String)
  | exception (diagnostic : String)

/-- A `CacheSource`: what its name is, and what iterating it does. -/
structure CacheSource where
  name : Except PyException PyStr
  iter : Option CacheError
  inputs : List WriterInput
  ending : Option CacheError

/-- Only a source with a valid name becomes a job. -/
structure SourceJob where
  name : PyStr
  source : CacheSource
  valid : name.validateSourceName = .ok name

namespace SourceJob

/-- The name as text; a valid name has an encoding. -/
def text (job : SourceJob) : String := job.name.encode.getD ""

/-- The job as the native writer sees it. -/
def native (job : SourceJob) : Source := ⟨.ok job.text, job.source.iter, job.source.inputs, job.source.ending⟩

end SourceJob

/-- `SourceJob | CacheWriteError`. -/
inductive SourceItem where
  | job (job : SourceJob)
  | failed (sourceName : PyStr) (message : String)

def SourceItem.name : SourceItem → PyStr
  | .job j => j.name
  | .failed sourceName _ => sourceName

inductive Interrupted where
  | keyboard (message : String)
  | exit (message : String) (exitStatus : ExitStatus)

inductive WorkerMessage where
  | ready
  | finished (result : CacheWriteResult)
  | interrupted (interrupted : Interrupted)
  | failed (message : String)

/-! ### Preflight -/

theorem validated {name accepted : PyStr} (h : name.validateSourceName = .ok accepted) : accepted = name := by
  unfold PyStr.validateSourceName at h
  split_ifs at h
  cases hencode : name.encode with
  | none =>
      rw [hencode] at h
      cases h
  | some text =>
      simp only [hencode] at h
      split_ifs at h
      cases h
      rfl

/-- The first loop of `_preflight`. -/
def preflightItem (index : ℕ) (source : CacheSource) : Except PyException SourceItem :=
  match source.name with
  | .error (.osError diagnostic) => .ok (.failed (.ofString (sourceLabel index)) diagnostic)
  | .error (.exception diagnostic) => .ok (.failed (.ofString (sourceLabel index)) diagnostic)
  | .error error => .error error
  | .ok name =>
      match h : name.validateSourceName with
      | .error message => .ok (.failed (.ofString (sourceLabel index)) message)
      | .ok accepted => .ok (.job ⟨accepted, source, validated h ▸ h⟩)

/-- The second loop of `_preflight`: the first job with the destination of an earlier one.  `identity` is
`_destination_identity`. -/
def duplicate (identity : PyStr → PyStr) : List PyStr → List SourceItem → Option SourceJob
  | _, [] => none
  | seen, .failed _ _ :: rest => duplicate identity seen rest
  | seen, .job job :: rest =>
      if identity job.name ∈ seen then some job else duplicate identity (identity job.name :: seen) rest

/-- What a source is to the caller if a destination is generated twice. -/
def SourceItem.rejected (message : String) : SourceItem → CacheWriteResult
  | .failed sourceName message => .error sourceName message
  | .job j => .error j.name message

def preflight (identity : PyStr → PyStr) (sources : List CacheSource) :
    Except PyException (Except (List CacheWriteResult) (List SourceItem)) := do
  let items ← sources.zipIdx.mapM fun source => preflightItem source.2 source.1
  match duplicate identity [] items with
  | some job => .ok (.error (items.map (SourceItem.rejected s!"duplicate generated cache path: {job.text}")))
  | none => .ok (.ok items)

/-! ### Children -/

/-- The bound on diagnostics. -/
def clip (text : String) : String := String.ofList (text.toList.take 2048)

/-- `_run_source`: what `write_cache` returned, or the diagnostic of a `ValueError` or a `RuntimeError`.  An error
here is raised. -/
def runSource (job : SourceJob) : Except String (List CacheWriteRecord) → Except String CacheWriteResult
  | .error diagnostic => .ok (.error job.name diagnostic)
  | .ok [record] =>
      match record.status with
      | .success => .ok (.success (.ofString record.sourceName) (Path.components record.detail))
      | .error => .ok (.error (.ofString record.sourceName) (clip record.detail))
  | .ok _ => .error "native single-source writer returned an invalid outcome count"

/-- Where a child is in `_worker`: `leaving` is before `results.close()`, `closed` after it. -/
inductive ChildState where
  | starting
  | waiting
  | running (job : SourceJob)
  | leaving
  | closed
  | dead (exitcode : ℤ)

/-- What the parent puts into a mailbox. -/
inductive Mail where
  | stop
  | job (job : SourceJob)

inductive WorkerState where
  | starting (deadline : ℕ)
  | idle
  | active (index : ℕ) (deadline : ℕ) (destination : Path)

/-- `WriterProcess`.  A message that was not sent to its end cannot be received. -/
structure WriterProcess where
  state : WorkerState
  jobs : Option Mail
  process : ChildState
  results : List (Except String WorkerMessage)

inductive ChildAct where
  | ready
  | get
  | finish (records : Except String (List CacheWriteRecord))
  | undecodable (diagnostic : String)
  | interrupt (interrupted : Interrupted)
  | fail
  | close
  | exit (exitcode : ℤ)
  | die (exitcode : ℤ) (torn : Bool)

namespace WriterProcess

def send (w : WriterProcess) (message : WorkerMessage) (process : ChildState) : WriterProcess :=
  { w with results := w.results ++ [.ok message], process }

/-- A step of `_worker`, or the death of the process. -/
def work (w : WriterProcess) : ChildAct → Option WriterProcess
  | .ready =>
      match w.process with
      | .starting => some (w.send .ready .waiting)
      | _ => none
  | .get =>
      match w.process, w.jobs with
      | .waiting, some .stop => some { w with jobs := none, process := .leaving }
      | .waiting, some (.job job) => some { w with jobs := none, process := .running job }
      | _, _ => none
  | .finish records =>
      match w.process with
      | .running job =>
          match runSource job records with
          | .ok result => some (w.send (.finished result) .waiting)
          | .error _ => some { w with process := .leaving }
      | _ => none
  | .undecodable diagnostic =>
      match w.process with
      | .running _ => some (w.send (.failed s!"source deserialization failed: {diagnostic}") .leaving)
      | _ => none
  | .interrupt interrupted =>
      match w.process with
      | .starting | .waiting | .running _ => some (w.send (.interrupted interrupted) .leaving)
      | _ => none
  -- Any other exception reaches `finally`.
  | .fail =>
      match w.process with
      | .starting | .waiting | .running _ => some { w with process := .leaving }
      | _ => none
  | .close =>
      match w.process with
      | .leaving => some { w with process := .closed }
      | _ => none
  | .exit exitcode =>
      match w.process with
      | .closed => some { w with process := .dead exitcode }
      | _ => none
  | .die exitcode torn =>
      match w.process with
      | .dead _ => none
      | _ =>
          some { w with
            process := .dead exitcode
            results := w.results ++ if torn then [.error "EOFError: "] else [] }

/-- `process.exitcode`. -/
def exitcode (w : WriterProcess) : Option ℤ :=
  match w.process with
  | .dead exitcode => some exitcode
  | _ => none

/-- `results.poll()` and `_receive`: an end of the pipe is an error as well. -/
def receive (w : WriterProcess) : Option (Except String WorkerMessage × WriterProcess) :=
  match w.results, w.process with
  | .ok message :: rest, _ => some (.ok message, { w with results := rest })
  | .error diagnostic :: rest, _ => some (.error s!"writer transport failed: {diagnostic}", { w with results := rest })
  | [], .closed => some (.error "writer transport failed: EOFError: ", w)
  | [], .dead _ => some (.error "writer transport failed: EOFError: ", w)
  | [], _ => none

end WriterProcess

/-! ### The parent -/

/-- How `write_parallel` ends once all children have stopped. -/
inductive Ending where
  | failure (message : String)
  | raised (error : PyException)

/-- The three questions of `_poll`. -/
inductive PollPoint where
  | results
  | exitcode
  | deadline

/-- `stop` asks an idle child to leave.  Then it sends signals; a child can die at any point, so what is left is
whether it has. -/
inductive StopPoint where
  | ask
  | release

/-- Where the parent is.  `failure` is the first error of a round of polls, `firstError` that of `_stop_all`. -/
inductive ParentPhase where
  | spawning
  | looping
  | polling (k : ℕ) (point : PollPoint) (failure : Option String)
  | dispatching (k : ℕ)
  | stopping (k : ℕ) (point : StopPoint) (ending : Ending) (firstError : Option PyException)
  | returned (results : List CacheWriteResult)
  | raised (error : PyException)

/-- What the parent has done, with what it found. -/
inductive Event where
  /-- A job was given away; `disk` is what `_destination` saw. -/
  | dispatched (index : ℕ) (destination : Path) (disk : FileTree)
  /-- Something was put into a mailbox that held `found`. -/
  | put (found : Option Mail)
  /-- `outcomes[index]` was assigned; it was `found` before. -/
  | assigned (index : ℕ) (found : Option CacheWriteResult)
  /-- A destination was removed; its writer was `worker`. -/
  | removed (index : ℕ) (destination : Path) (worker : WriterProcess)

/-- The arguments of the call: the resolved path, and the path as the caller wrote it. -/
structure ParallelCall where
  path : Path
  publicPath : Path
  numProcesses : ℕ
  processTimeout : ℕ

/-- What goes wrong in a step of the parent: the diagnostics of the exceptions that it catches. -/
structure Faults where
  spawn : Option PyException
  serialization : Option String
  destination : Option String
  cleanup : Option String

inductive ParallelAct where
  | tick
  | disk (fs : FileTree)
  | child (k : ℕ) (a : ChildAct)
  | parent (faults : Faults)
  /-- A signal handler of the parent raises. -/
  | interrupt (diagnostic : String)

/-- `dict.__setitem__`. -/
def setItem (outcomes : List (ℕ × CacheWriteResult)) (index : ℕ) (result : CacheWriteResult) :
    List (ℕ × CacheWriteResult) :=
  if index ∈ outcomes.map Prod.fst then outcomes.map fun o => if o.1 = index then (index, result) else o
  else outcomes ++ [(index, result)]

/-- `dict.get`. -/
def getItem (outcomes : List (ℕ × CacheWriteResult)) (index : ℕ) : Option CacheWriteResult :=
  (outcomes.find? fun o => o.1 = index).map Prod.snd

/-- An outcome with the path as the caller wrote it. -/
def publicOutcome (publicPath : Path) : CacheWriteResult → CacheWriteResult
  | .success sourceName _ => .success sourceName (publicPath.join (sourceName.encode.getD ""))
  | .error sourceName message => .error sourceName message

/-- One entry of `_ordered_outcomes`; `rejected` is what a job without an outcome gets. -/
def orderedOutcome (publicPath : Path) (outcomes : List (ℕ × CacheWriteResult)) (failure : String) (index : ℕ)
    (item : SourceItem) : CacheWriteResult :=
  publicOutcome publicPath ((getItem outcomes index).getD (item.rejected failure))

def orderedOutcomes (c : ParallelCall) (jobs : List SourceItem) (outcomes : List (ℕ × CacheWriteResult))
    (failure : String) : List CacheWriteResult :=
  jobs.zipIdx.map fun item => orderedOutcome c.publicPath outcomes failure item.2 item.1

end WriteParallel

open WriteParallel

/-- The state of `write_parallel` after the preflight. -/
structure WriteParallel where
  workers : List WriterProcess
  nextIndex : ℕ
  outcomes : List (ℕ × CacheWriteResult)
  phase : ParentPhase
  now : ℕ
  disk : FileTree
  history : List Event

namespace WriteParallel

def new (disk : FileTree) : WriteParallel := ⟨[], 0, [], .spawning, 0, disk, []⟩

def setWorker (s : WriteParallel) (k : ℕ) (w : WriterProcess) : WriteParallel := { s with workers := s.workers.set k w }

def goto (s : WriteParallel) (phase : ParentPhase) : WriteParallel := { s with phase }

def record (s : WriteParallel) (event : Event) : WriteParallel := { s with history := s.history ++ [event] }

/-- `outcomes[index] = result`. -/
def assign (s : WriteParallel) (index : ℕ) (result : CacheWriteResult) : WriteParallel :=
  { s.record (.assigned index (getItem s.outcomes index)) with outcomes := setItem s.outcomes index result }

/-- An exception in the `try` of `write_parallel`. -/
def raise (s : WriteParallel) (error : PyException) : WriteParallel :=
  s.goto (.stopping 0 .ask
    (match error with
      | .osError diagnostic => .failure s!"writer pool failed: {diagnostic}"
      | error => .raised error) none)

/-- `put_nowait`: a full mailbox raises. -/
def put (s : WriteParallel) (k : ℕ) (w : WriterProcess) (mail : Mail) : WriteParallel × Option PyException :=
  match w.jobs with
  | none => ((s.record (.put none)).setWorker k { w with jobs := some mail }, none)
  | some found => ((s.record (.put (some found))).setWorker k w, some (.exception "Full: "))

/-- `TemporaryDestination.cleanup`. -/
def cleanup (s : WriteParallel) (index : ℕ) (destination : Path) (w : WriterProcess) (fault : Option String) :
    WriteParallel × Option PyException :=
  if s.disk destination = some .dir then
    match fault with
    | none => ({ s.record (.removed index destination w) with disk := s.disk.removeDirAll destination }, none)
    | some diagnostic => (s.record (.removed index destination w), some (.osError diagnostic))
  else (s, none)

/-- `_poll` returns `result`, and the next worker is polled. -/
def polled (s : WriteParallel) (k : ℕ) (failure result : Option String) : WriteParallel :=
  s.goto (.polling (k + 1) .results (failure.or result))

/-- The message that `_poll` received from worker `k`. -/
def handle (s : WriteParallel) (k : ℕ) (w : WriterProcess) (failure : Option String) (fault : Option String) :
    WorkerMessage → WriteParallel
  | .ready => (s.setWorker k { w with state := .idle }).goto (.polling k .exitcode failure)
  | .finished result =>
      match w.state with
      | .active index _ destination =>
          match ((s.assign index result).setWorker k { w with state := .idle }).cleanup index destination w fault with
          | (s, none) => s.goto (.polling k .exitcode failure)
          | (s, some error) => s.raise error
      | _ => (s.setWorker k w).polled k failure (some "writer protocol violation")
  | .interrupted (.keyboard message) => (s.setWorker k w).raise (.keyboardInterrupt message)
  | .interrupted (.exit message exitStatus) => (s.setWorker k w).raise (.systemExit message exitStatus)
  | .failed message => (s.setWorker k w).polled k failure (some message)

/-- `_poll`. -/
def poll (s : WriteParallel) (k : ℕ) (w : WriterProcess) (failure : Option String) (fault : Option String) :
    PollPoint → WriteParallel
  | .results =>
      match w.receive with
      | none => s.goto (.polling k .exitcode failure)
      | some (.error message, w) => (s.setWorker k w).polled k failure (some message)
      | some (.ok message, w) => s.handle k w failure fault message
  | .exitcode =>
      match w.exitcode with
      | some exitcode => s.polled k failure (some s!"writer child exited with code {exitcode}")
      | none => s.goto (.polling k .deadline failure)
  | .deadline =>
      match w.state with
      | .idle => s.polled k failure none
      | .starting deadline | .active _ deadline _ =>
          s.polled k failure (if deadline ≤ s.now then some "writer process timeout exceeded" else none)

/-- `_dispatch`, and the outcome of a job that it refuses. -/
def dispatch (c : ParallelCall) (s : WriteParallel) (k : ℕ) (w : WriterProcess) (index : ℕ) (job : SourceJob)
    (faults : Faults) : WriteParallel :=
  match faults.serialization with
  | some diagnostic => s.assign index (.error job.name s!"source serialization failed: {diagnostic}")
  | none =>
      match faults.destination with
      | some diagnostic => s.assign index (.error job.name s!"destination preflight failed: {diagnostic}")
      | none =>
          let temporary := tempCachePathForSource c.path job.text
          if s.disk.pathExists temporary then
            s.assign index (.error job.name s!"refusing unowned temporary cache: {temporary.display}")
          else
            match (s.record (.dispatched index temporary s.disk)).put k
              { w with state := .active index (s.now + c.processTimeout) temporary } (.job job) with
            | (s, none) => s
            | (s, some error) => s.raise error

/-- `WriterProcess.stop`. -/
def stop (s : WriteParallel) (k : ℕ) (w : WriterProcess) (ending : Ending) (firstError : Option PyException)
    (fault : Option String) : StopPoint → WriteParallel
  | .ask =>
      match w.state, w.exitcode with
      | .idle, none =>
          match s.put k w .stop with
          | (s, none) => s.goto (.stopping k .release ending firstError)
          | (s, some error) => s.goto (.stopping (k + 1) .ask ending (firstError.or (some error)))
      | _, _ => s.goto (.stopping k .release ending firstError)
  | .release =>
      match w.exitcode, w.state with
      | none, _ =>
          s.goto (.stopping (k + 1) .ask ending (firstError.or
            (some (.exception "RuntimeError: writer child could not be stopped; temporary cache retained"))))
      | some _, .active index _ destination =>
          let cleaned := (s.setWorker k { w with state := .idle }).cleanup index destination w fault
          cleaned.1.goto (.stopping (k + 1) .ask ending (firstError.or cleaned.2))
      | some _, _ => s.goto (.stopping (k + 1) .ask ending firstError)

/-- A step of `write_parallel`. -/
def parent (c : ParallelCall) (jobs : List SourceItem) (s : WriteParallel) (faults : Faults) : Option WriteParallel :=
  match s.phase with
  | .spawning =>
      match faults.spawn with
      | some error => some (s.raise error)
      | none =>
          if s.workers.length < min c.numProcesses jobs.length then
            some { s with workers := s.workers ++ [⟨.starting (s.now + c.processTimeout), none, .starting, []⟩] }
          else some (s.goto .looping)
  | .looping =>
      if s.outcomes.length < jobs.length then some (s.goto (.polling 0 .results none))
      else some (s.goto (.stopping 0 .ask (.failure "writer pool stopped") none))
  | .polling k point failure =>
      match s.workers[k]?, failure with
      | some w, failure => some (s.poll k w failure faults.cleanup point)
      | none, some message => some (s.goto (.stopping 0 .ask (.failure message) none))
      | none, none => some (s.goto (.dispatching 0))
  | .dispatching k =>
      match s.workers[k]? with
      | none => some (s.goto .looping)
      | some w =>
          match w.state, jobs[s.nextIndex]? with
          | .idle, some item =>
              let next := { s with nextIndex := s.nextIndex + 1 }
              match item with
              | .failed sourceName message => some (next.assign s.nextIndex (.error sourceName message))
              | .job job => some (next.dispatch c k w s.nextIndex job faults)
          | _, _ => some (s.goto (.dispatching (k + 1)))
  | .stopping k point ending firstError =>
      match s.workers[k]?, firstError, ending with
      | some w, firstError, ending => some (s.stop k w ending firstError faults.cleanup point)
      | none, some error, _ => some (s.goto (.raised error))
      | none, none, .raised error => some (s.goto (.raised error))
      | none, none, .failure message => some (s.goto (.returned (orderedOutcomes c jobs s.outcomes message)))
  | .returned _ | .raised _ => none

/-- One step of anyone. -/
def step (c : ParallelCall) (jobs : List SourceItem) (s : WriteParallel) : ParallelAct → Option WriteParallel
  | .tick => some { s with now := s.now + 1 }
  | .disk fs => some { s with disk := fs }
  | .child k a =>
      match s.workers[k]? with
      | some w => (w.work a).map (s.setWorker k)
      | none => none
  | .parent faults => s.parent c jobs faults
  | .interrupt diagnostic =>
      match s.phase with
      | .returned _ | .raised _ => none
      | .stopping _ _ _ _ => some (s.goto (.raised (.keyboardInterrupt diagnostic)))
      | _ => some (s.raise (.keyboardInterrupt diagnostic))

/-- What the native writer returns for a job is what `write_one_source_result` can return for it. -/
def runsNatively (L : StorageLib) (config : WriterConfig) (c : ParallelCall) (s : WriteParallel) : ParallelAct → Prop
  | .child k (.finish (.ok records)) => ∀ w job, s.workers[k]? = some w → w.process = .running job →
      ∃ writerFaults fs fs' record, records = [record] ∧
        WritesSource L config writerFaults c.path 0 fs job.native (.ok record) fs'
  | _ => True

end WriteParallel

open WriteParallel in
/-- `write_parallel` returns `result`. -/
def WritesParallel (L : StorageLib) (config : WriterConfig) (identity : PyStr → PyStr) (sources : List CacheSource)
    (c : ParallelCall) (result : Except PyException (List CacheWriteResult)) : Prop :=
  match preflight identity sources with
  | .error error => result = .error error
  | .ok (.error errors) => result = .ok errors
  | .ok (.ok []) => result = .ok []
  | .ok (.ok jobs) => ∃ disk as s, Machine.run (step c jobs) (new disk) as = some s ∧
      Machine.Guarded (step c jobs) (runsNatively L config c) (new disk) as ∧
      ((∃ results, s.phase = .returned results ∧ result = .ok results) ∨
        ∃ error, s.phase = .raised error ∧ result = .error error)

end DatasetRt
