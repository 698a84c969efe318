import DatasetRt.SourceWriter

/-! # Writing a list of sources

`writer/pipeline.rs`: the calling thread turns the sources, one after the other, into events and sends
them through the pool; `PipelineCommitter` takes the events in the order they were sent and does all the
writing.  Several sources are in flight at the same time, but at most one is `active` in the committer.

* `commitEvent` is the committer; the file system is part of its state.
* `ListWrite` is a whole call of `write_source_list` after `ensure_unique_source_paths`: the pipeline and
  the place (`Stage`) of the calling thread in the loops of `ingest_source_list`.  `ListWrite.step` is one
  step of the calling thread or of a worker.
* What the calling thread reads and removes on disk it does when it gets to a source, which can be before
  the events of earlier sources are committed.

The interrupts are those that a source raises, that `check_signals` finds at the head of a loop, and that
it finds while the thread waits for a result. -/

namespace DatasetRt

structure SourceWriteStart where
  sourceIndex : ℕ
  sourceName : String
  cachePath : Path
  tempPath : Path

inductive PipelineEvent where
  | sourceResult (sourceIndex : ℕ) (record : CacheWriteRecord)
  | beginSource (start : SourceWriteStart)
  | sample (input : WriterInput)
  | endSource
  | abortSource (message : String)

structure ActiveSourceWrite where
  start : SourceWriteStart
  builder : Option CacheBuilder
  failure : Option String

structure PipelineCommitter where
  fs : FileTree
  results : List (Option CacheWriteRecord)
  active : Option ActiveSourceWrite

/-! ### The active source -/

namespace ActiveSourceWrite

/-- `cleanup_temp_cache`: an error is added to the failure. -/
def cleanupTempCache (a : ActiveSourceWrite) (fs : FileTree) : FileTree × ActiveSourceWrite :=
  match DatasetRt.cleanupTempCache fs a.start.tempPath with
  | .ok fs => (fs, a)
  | .error error =>
      let text := error.toString
      let message :=
        match a.failure with
        | some failure => s!"{failure}; cleanup failed: {text}"
        | none => text
      (fs, { a with failure := some message })

def markFailed (a : ActiveSourceWrite) (fs : FileTree) (error : CacheError) : FileTree × ActiveSourceWrite :=
  cleanupTempCache { a with failure := some (a.failure.getD error.toString), builder := none } fs

def new (config : WriterConfig) (fs : FileTree) (start : SourceWriteStart) : FileTree × ActiveSourceWrite :=
  match createCache config fs start.tempPath start.sourceName with
  | (fs, .ok builder) => (fs, { start, builder := some builder, failure := none })
  | (fs, .error error) => cleanupTempCache { start, builder := none, failure := some error.toString } fs

def pushSample (L : StorageLib) (faults : WriterFaults) (a : ActiveSourceWrite) (fs : FileTree) (input : WriterInput) :
    FileTree × ActiveSourceWrite :=
  if a.failure.isSome then (fs, a)
  else
    match a.builder with
    | none => a.markFailed fs .workerFailed
    | some builder =>
        match builder.pushSampleOn L faults input.1 input.2 with
        | (builder, .ok ()) => (fs.graft a.start.tempPath builder.dir, { a with builder := some builder })
        | (builder, .error error) => a.markFailed (fs.graft a.start.tempPath builder.dir) error

def errorResult (a : ActiveSourceWrite) (fs : FileTree) : FileTree × CacheWriteRecord :=
  let cleaned := cleanupTempCache { a with builder := none } fs
  (cleaned.1,
    errorWriteMessage a.start.sourceName (cleaned.2.failure.getD CacheError.workerFailed.toString))

/-- The source failed now: `mark_failed`, then `error_result`. -/
def failWith (a : ActiveSourceWrite) (fs : FileTree) (error : CacheError) : FileTree × CacheWriteRecord :=
  let marked := a.markFailed fs error
  marked.2.errorResult marked.1

def finish (L : StorageLib) (faults : WriterFaults) (a : ActiveSourceWrite) (fs : FileTree) :
    FileTree × CacheWriteRecord :=
  if a.failure.isSome then a.errorResult fs
  else
    match a.builder with
    | none => a.failWith fs .workerFailed
    | some builder =>
        let finished := builder.finishOn L faults
        let fs := fs.graft a.start.tempPath finished.1
        match finished.2 with
        | .error error => { a with builder := none }.failWith fs error
        | .ok _ =>
            match publishCache faults.rename fs a.start.tempPath a.start.cachePath with
            | .error error => { a with builder := none }.failWith fs error
            | .ok fs => (fs, successWriteResult a.start.sourceName a.start.cachePath)

end ActiveSourceWrite

/-! ### The committer -/

namespace PipelineCommitter

section commit

variable (L : StorageLib) (config : WriterConfig) (faults : ℕ → WriterFaults)

def new (fs : FileTree) (totalSources : ℕ) : PipelineCommitter :=
  { fs, results := List.replicate totalSources none, active := none }

def recordResult (c : PipelineCommitter) (sourceIndex : ℕ) (record : CacheWriteRecord) :
    PipelineCommitter × CacheResult Unit :=
  match c.results[sourceIndex]? with
  | some none => ({ c with results := c.results.set sourceIndex (some record) }, .ok ())
  | _ => (c, .error .workerFailed)

def beginSource (c : PipelineCommitter) (start : SourceWriteStart) : PipelineCommitter × CacheResult Unit :=
  match c.active with
  | some _ => (c, .error .workerFailed)
  | none =>
      let opened := ActiveSourceWrite.new config c.fs start
      ({ c with fs := opened.1, active := some opened.2 }, .ok ())

def pushSample (c : PipelineCommitter) (input : WriterInput) : PipelineCommitter × CacheResult Unit :=
  match c.active with
  | none => (c, .error .workerFailed)
  | some active =>
      let pushed := active.pushSample L (faults active.start.sourceIndex) c.fs input
      ({ c with fs := pushed.1, active := some pushed.2 }, .ok ())

def endSource (c : PipelineCommitter) : PipelineCommitter × CacheResult Unit :=
  match c.active with
  | none => (c, .error .workerFailed)
  | some active =>
      let finished := active.finish L (faults active.start.sourceIndex) c.fs
      recordResult { c with fs := finished.1, active := none } active.start.sourceIndex finished.2

def abortSource (c : PipelineCommitter) (message : String) : PipelineCommitter × CacheResult Unit :=
  match c.active with
  | none => (c, .error .workerFailed)
  | some active =>
      let failed := active.failWith c.fs (.invalidInput message)
      recordResult { c with fs := failed.1, active := none } active.start.sourceIndex failed.2

def commitEvent (c : PipelineCommitter) : PipelineEvent → PipelineCommitter × CacheResult Unit
  | .sourceResult sourceIndex record => c.recordResult sourceIndex record
  | .beginSource start => c.beginSource config start
  | .sample input => c.pushSample L faults input
  | .endSource => c.endSource L faults
  | .abortSource message => c.abortSource message

def cleanupUnfinishedSource (c : PipelineCommitter) : PipelineCommitter :=
  match c.active with
  | none => c
  | some active => { c with fs := (active.markFailed c.fs .workerFailed).1, active := none }

end commit

end PipelineCommitter

/-! ### The calling thread -/

/-- Where `ingest_source_list` is. -/
inductive Stage where
  /-- At the head of its loop, with this many sources done. -/
  | source (index : ℕ)
  /-- After `send_begin_source`. -/
  | begun (index : ℕ)
  /-- In `ingest_source_samples`, with this many samples sent. -/
  | sampling (index sent : ℕ)
  /-- It returned, and `finish` was called. -/
  | ended
  /-- It returned this error, and `finish_incomplete` was called. -/
  | failed (error : CacheError)
deriving DecidableEq, Repr

structure ListWrite where
  pipeline : WritePipeline PipelineEvent PipelineCommitter
  stage : Stage

inductive ListAct where
  /-- The calling thread goes on with the sources. -/
  | ingest
  /-- `check_signals` finds an interrupt at the head of a loop. -/
  | signal (error : CacheError)
  /-- `submit` returned an error, which ends the ingestion. -/
  | propagate
  /-- A step inside `submit`, `finish` or `finish_incomplete`, or one of a worker. -/
  | pipeline (act : WriteAct PipelineEvent)

namespace ListWrite

section machine

variable (L : StorageLib) (config : WriterConfig) (faults : ℕ → WriterFaults) (base : Path)
  (sources : List Source)

def committer : Committer PipelineEvent PipelineCommitter :=
  sourceListWritePipeline (PipelineCommitter.commitEvent L config faults)
    PipelineCommitter.cleanupUnfinishedSource

def new (fs : FileTree) : ListWrite :=
  { pipeline := WritePipeline.new (PipelineCommitter.new fs sources.length) config.prefetchSize config.numWorkers
    stage := .source 0 }

/-- `ingest_source_list` ends with an error. -/
def fail (s : ListWrite) (error : CacheError) : Option ListWrite :=
  (s.pipeline.step (committer L config faults) .finishIncomplete).map fun pipeline =>
    { pipeline, stage := .failed error }

/-- An event is sent, and the calling thread goes on at `stage` once it was accepted. -/
def sendEvent (s : ListWrite) (event : PipelineEvent) (stage : Stage) : Option ListWrite :=
  (s.pipeline.step (committer L config faults) (.submit event)).map fun pipeline => { pipeline, stage }

/-- The file system as the calling thread sees it. -/
def fs (s : ListWrite) : FileTree := s.pipeline.target.fs

def withFs (s : ListWrite) (fs : FileTree) : ListWrite :=
  { s with pipeline := { s.pipeline with target := { s.pipeline.target with fs } } }

def existingCacheResult (fs : FileTree) (sourceName : String) (cachePath : Path) : CacheWriteRecord :=
  if config.validateCache then
    match loadCache L fs cachePath true 0 with
    | .ok _ => successWriteResult sourceName cachePath
    | .error error => errorWriteResult sourceName error
  else successWriteResult sourceName cachePath

/-- `ingest_one_source`, up to the iterator. -/
def ingestOneSource (s : ListWrite) (index : ℕ) (source : Source) : Option ListWrite :=
  match extractSourceName source with
  | .error error =>
      if error.isInterrupt then s.fail L config faults error
      else
        s.sendEvent L config faults (.sourceResult index (errorWriteResult (sourceLabel index) error))
          (.source (index + 1))
  | .ok sourceName =>
      let cachePath := cachePathForSource base sourceName
      if config.reuseExisting && s.fs.pathExists cachePath then
        s.sendEvent L config faults
          (.sourceResult index (existingCacheResult L config s.fs sourceName cachePath)) (.source (index + 1))
      else
        let tempPath := tempCachePathForSource base sourceName
        match prepareCachePaths s.fs cachePath tempPath with
        | .error error =>
            s.sendEvent L config faults (.sourceResult index (errorWriteResult sourceName error))
              (.source (index + 1))
        | .ok fs =>
            (s.withFs fs).sendEvent L config faults
              (.beginSource { sourceIndex := index, sourceName, cachePath, tempPath }) (.begun index)

/-- An error of the iterator: an interrupt ends the call, another error the source. -/
def iterationError (s : ListWrite) (index : ℕ) (error : CacheError) : Option ListWrite :=
  if error.isInterrupt then s.fail L config faults error
  else s.sendEvent L config faults (.abortSource error.toString) (.source (index + 1))

/-- What the calling thread does next, when it is not inside a call of the pipeline. -/
def ingest (s : ListWrite) : Option ListWrite :=
  match s.stage with
  | .source index =>
      match sources[index]? with
      | some source => s.ingestOneSource L config faults base index source
      | none =>
          (s.pipeline.step (committer L config faults) .finish).map fun pipeline => { pipeline, stage := .ended }
  | .begun index =>
      match sources[index]? with
      | some source =>
          match source.iter with
          | some error => s.iterationError L config faults index error
          | none => if s.pipeline.phase matches .ready then some { s with stage := .sampling index 0 } else none
      | none => none
  | .sampling index sent =>
      match sources[index]? with
      | some source =>
          match source.inputs[sent]? with
          | some input => s.sendEvent L config faults (.sample input) (.sampling index (sent + 1))
          | none =>
              match source.ending with
              | some error => s.iterationError L config faults index error
              | none => s.sendEvent L config faults .endSource (.source (index + 1))
      | none => none
  | _ => none

/-- The steps that are made inside the pipeline. -/
def isInner : WriteAct PipelineEvent → Bool
  | .enqueue accepted => accepted
  | .receive => true
  | .interrupt error => error.isInterrupt
  | .settle => true
  | .start => true
  | .complete _ => true
  | _ => false

def step (s : ListWrite) : ListAct → Option ListWrite
  | .ingest => if s.pipeline.phase matches .ready then s.ingest L config faults base sources else none
  | .signal error =>
      if error.isInterrupt then
        match s.stage with
        | .source index =>
            if s.pipeline.phase matches .ready then
              if index < sources.length then s.fail L config faults error else none
            else none
        | .sampling _ _ => if s.pipeline.phase matches .ready then s.fail L config faults error else none
        | _ => none
      else none
  | .propagate =>
      if s.pipeline.phase matches .failed then
        match s.pipeline.errors.getLast? with
        | some error => s.fail L config faults error
        | none => none
      else none
  | .pipeline act =>
      if isInner act then
        (s.pipeline.step (committer L config faults) act).map fun pipeline => { s with pipeline }
      else none

variable {L config faults base sources} in
theorem step_cases {s s' : ListWrite} {a : ListAct} (hs : s.step L config faults base sources a = some s') :
    (a = .ingest ∧ s.pipeline.phase = .ready ∧ s.ingest L config faults base sources = some s') ∨
      (∃ error, a = .signal error ∧ error.isInterrupt = true ∧ s.pipeline.phase = .ready ∧
        s.fail L config faults error = some s') ∨
      (∃ error, a = .propagate ∧ s.pipeline.phase = .failed ∧ error ∈ s.pipeline.errors ∧
        s.fail L config faults error = some s') ∨
      ∃ act pipeline, a = .pipeline act ∧ isInner act = true ∧
        s.pipeline.step (committer L config faults) act = some pipeline ∧ s' = { s with pipeline } := by
  cases a with
  | ingest =>
      simp only [step] at hs
      cases hp : s.pipeline.phase <;> simp only [hp, Bool.false_eq_true, if_false, if_true, reduceCtorEq] at hs
      exact .inl ⟨rfl, rfl, hs⟩
  | signal error =>
      cases hint : error.isInterrupt with
      | false => simp [step, hint] at hs
      | true =>
          simp only [step, hint, if_true] at hs
          cases hst : s.stage <;> simp only [hst, reduceCtorEq] at hs
          all_goals
            cases hp : s.pipeline.phase <;>
              simp only [hp, Bool.false_eq_true, if_false, if_true, reduceCtorEq] at hs
            try split_ifs at hs
            exact .inr (.inl ⟨error, rfl, hint, rfl, hs⟩)
  | propagate =>
      simp only [step] at hs
      cases hp : s.pipeline.phase <;> simp only [hp, Bool.false_eq_true, if_false, if_true, reduceCtorEq] at hs
      cases hlast : s.pipeline.errors.getLast? with
      | none => simp [hlast] at hs
      | some error =>
          simp only [hlast] at hs
          exact .inr (.inr (.inl ⟨error, rfl, rfl, List.mem_of_getLast? hlast, hs⟩))
  | pipeline act =>
      simp only [step] at hs
      split_ifs at hs with hinner
      obtain ⟨pipeline, hstep, rfl⟩ := Option.map_eq_some_iff.mp hs
      exact .inr (.inr (.inr ⟨act, pipeline, rfl, hinner, hstep, rfl⟩))

/-- What `write_source_list` returns in a state where it is over. -/
def returned (s : ListWrite) : Option (CacheResult (List CacheWriteRecord)) :=
  match s.pipeline.phase with
  | .finished (.ok ()) => some (s.pipeline.target.results.mapM fun record => okOr record .workerFailed)
  | .finished (.error error) => some (.error error)
  | .abandoned =>
      match s.stage with
      | .failed error => some (.error error)
      | _ => none
  | _ => none

end machine

end ListWrite

/-! ### The whole call -/

/-- `ensure_unique_source_paths`; the names are extracted once more later. -/
def ensureUniqueSourcePaths (base : Path) (sources : List Source) : CacheResult Unit :=
  go [] sources
where
  go (seen : List Path) : List Source → CacheResult Unit
    | [] => .ok ()
    | source :: rest =>
        match extractSourceName source with
        | .error _ => go seen rest
        | .ok sourceName =>
            let cachePath := cachePathForSource base sourceName
            if cachePath ∈ seen then
              .error (.invalidInput s!"duplicate generated cache path: {cachePath.display}")
            else go (cachePath :: seen) rest

theorem ensureUniqueSourcePaths_cons (base : Path) (seen : List Path) (source : Source) (rest : List Source) :
    ensureUniqueSourcePaths.go base seen (source :: rest) =
      match extractSourceName source with
      | .error _ => ensureUniqueSourcePaths.go base seen rest
      | .ok sourceName =>
          if cachePathForSource base sourceName ∈ seen then
            .error (.invalidInput
              s!"duplicate generated cache path: {(cachePathForSource base sourceName).display}")
          else ensureUniqueSourcePaths.go base (cachePathForSource base sourceName :: seen) rest := rfl

/-- `write_source_list` returns `result` and leaves the file system `fs'`. -/
def WritesSourceList (L : StorageLib) (config : WriterConfig) (faults : ℕ → WriterFaults) (base : Path)
    (sources : List Source) (fs : FileTree) (result : CacheResult (List CacheWriteRecord)) (fs' : FileTree) : Prop :=
  match ensureUniqueSourcePaths base sources with
  | .error error => result = .error error ∧ fs' = fs
  | .ok () => ∃ as s, Machine.run (ListWrite.step L config faults base sources)
      (ListWrite.new config sources fs) as = some s ∧ s.returned = some result ∧ fs' = s.fs

end DatasetRt
