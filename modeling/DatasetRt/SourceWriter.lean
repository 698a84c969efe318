import DatasetRt.LoadedCache
import DatasetRt.WriterFaults
import DatasetRt.WritePipeline

/-! # Writing one source

`writer.rs`: a source is written to a staging directory below `base/tmp` and published by renaming it to
`base/name`.  The file system is a value that every function takes and returns, so what an error leaves
behind is part of its result.

* `validateSourceName`, `cachePathForSource`, `tempCachePathForSource`: where a source goes.
* `prepareCachePaths`, `cleanupTempCache`, `publishCache` and `createCache`: the operations on these paths.
* `writeOneSourceResult`: one source that is not in a list.  `write_with_pipeline` is the only part whose
  course depends on the worker pool; it is `WritesWith`, a run of the `SampleWritePipeline`.

A `Source` says what the Python object does when it is asked for its name, for its iterator and for its
samples; the samples are those that `extract_cache_input` accepts, and the first one that it refuses ends
them with its error. -/

namespace DatasetRt

structure WriterConfig where
  maxShardBytes : Positive
  prefetchSize : Positive
  numWorkers : Positive
  shardCompression : ShardCompression
  validateCache : Bool
  reuseExisting : Bool

abbrev WriterInput := Bytes × MetadataMap

structure Source where
  name : CacheResult String
  /-- What `iter()` raises. -/
  iter : Option CacheError
  inputs : List WriterInput
  /-- What ends the samples, if it is not their end. -/
  ending : Option CacheError

inductive WriteStatus where
  | success
  | error
deriving DecidableEq, Repr

/-- `CacheWriteRecord`: the last field is the path or the message. -/
structure CacheWriteRecord where
  status : WriteStatus
  sourceName : String
  detail : String
deriving DecidableEq, Repr

/-- The text of a path with a name joined to it, which keeps the trailing separators of the name. -/
def Path.pushText (base : Path) (name : String) : String :=
  if base = [] then "/" ++ name else base.display ++ "/" ++ name

/-- `path` has `sourceName` joined to its directory. -/
def successWriteResult (sourceName : String) (path : Path) : CacheWriteRecord :=
  ⟨.success, sourceName, Path.pushText path.dropLast sourceName⟩

def errorWriteMessage (sourceName message : String) : CacheWriteRecord := ⟨.error, sourceName, message⟩

def errorWriteResult (sourceName : String) (error : CacheError) : CacheWriteRecord :=
  errorWriteMessage sourceName error.toString

def sourceLabel (sourceIndex : ℕ) : String := s!"source[{sourceIndex}]"

/-! ### Names and paths -/

/-- `std::path::Component`. -/
inductive Component where
  | rootDir
  | curDir
  | parentDir
  | normal (name : String)
deriving DecidableEq, Repr

/-- `Path::components`: repeated separators and inner `.` do not count. -/
def pathComponents (name : String) : List Component :=
  let parts := (name.toList.splitOn '/').map String.ofList
  let first :=
    if name.toList.head? = some '/' then [.rootDir] else if parts.head? = some "." then [.curDir] else []
  first ++ (Path.components name).map fun c => if c = ".." then .parentDir else .normal c

def validateSourceName (name : String) : CacheResult Unit :=
  if name = "" then .error (.invalidInput "CacheSource.name must not be empty")
  else
    match pathComponents name with
    | [.normal _] => .ok ()
    | _ => .error (.invalidInput "CacheSource.name must be a plain path segment")

def extractSourceName (source : Source) : CacheResult String := do
  let name ← source.name
  validateSourceName name
  .ok name

def cachePathForSource (base : Path) (sourceName : String) : Path := base.join sourceName

def tempCachePathForSource (base : Path) (sourceName : String) : Path := (base.join "tmp").join sourceName

/-! ### The file system -/

/-- `fs::remove_dir_all`.  The real call also refuses a path whose text ends in `/.`; a `Path` has no text. -/
def removeDirectory (fs : FileTree) (path : Path) : CacheResult FileTree :=
  match fs path with
  | some .dir => .ok (fs.removeDirAll path)
  | some (.file _) => .error (.io "Not a directory")
  | none => .error (.io "No such file or directory")

def prepareCachePaths (fs : FileTree) (cachePath tempPath : Path) : CacheResult FileTree :=
  if fs.pathExists cachePath then .error (.invalidInput s!"cache path already exists: {cachePath.display}")
  else if fs.pathExists tempPath then removeDirectory fs tempPath
  else .ok fs

def cleanupTempCache (fs : FileTree) (tempPath : Path) : CacheResult FileTree :=
  if fs.pathExists tempPath then removeDirectory fs tempPath else .ok fs

/-- `publish_cache`; `failure` is an error of the rename itself, as for a path whose text ends in `/.`.  A target that
exists by now holds the staging area, and a directory that is not empty is not replaced. -/
def publishCache (failure : Option String) (fs : FileTree) (tempPath cachePath : Path) : CacheResult FileTree :=
  match failure with
  | some message => .error (.io message)
  | none =>
      if fs.pathExists cachePath then .error (.io "Directory not empty") else .ok (fs.rename tempPath cachePath)

/-- No name on the way to `path` is a file. -/
def parentsOk (fs : FileTree) (path : Path) : Bool :=
  path.inits.all fun p =>
    match fs p with
    | some (.file _) => false
    | _ => true

/-- The directories above a path that is created. -/
def makeParents (fs : FileTree) (path : Path) : FileTree := fun q =>
  if q <+: path ∧ fs q = none then some .dir else fs q

/-- `CacheBuilder::create` on the file system. -/
def createCache (config : WriterConfig) (fs : FileTree) (path : Path) (sourceName : String) :
    FileTree × CacheResult CacheBuilder :=
  match CacheBuilder.create (fs.pathExists path) (parentsOk fs path) path sourceName config.maxShardBytes.1
    config.shardCompression with
  | .ok builder => ((makeParents fs path).graft path builder.dir, .ok builder)
  | .error error => (fs, .error error)

/-! ### One source -/

/-- The builder of a `SampleWritePipeline` and its directory. -/
structure SampleTarget where
  builder : CacheBuilder
  dir : FileTree

section one

variable (L : StorageLib)

def samplePipeline (faults : WriterFaults) : Committer WriterInput SampleTarget :=
  sampleWritePipeline
    (fun target input =>
      let pushed := target.builder.pushSampleOn L faults input.1 input.2
      ({ builder := pushed.1, dir := pushed.1.dir }, pushed.2))
    fun target =>
      let finished := target.builder.finishOn L faults
      ({ target with dir := finished.1 }, finished.2.map fun _ => ())

/-- `ingest_python_samples`: which samples are submitted, and how the loop ends.  The jobs do not fail and
no signal is pending. -/
def ingestPythonSamples (source : Source) (s : WritePipeline WriterInput SampleTarget) : WriteAct WriterInput → Prop
  | .submit input => source.inputs[s.submitted.length]? = some input
  | .enqueue accepted => accepted = true
  | .interrupt _ => False
  | .finish => s.submitted.length = source.inputs.length ∧ source.ending = none
  | .drop =>
      (s.phase matches .failed) = true ∨ (s.submitted.length = source.inputs.length ∧ source.ending ≠ none)
  | .finishIncomplete => False
  | _ => True

/-- `write_with_pipeline` returns `result` and leaves `dir` in the staging directory. -/
def WritesWith (config : WriterConfig) (faults : WriterFaults) (source : Source) (builder : CacheBuilder)
    (result : CacheResult Unit) (dir : FileTree) : Prop :=
  ∃ as s, Machine.run (WritePipeline.step (samplePipeline L faults))
      (WritePipeline.new ⟨builder, builder.dir⟩ config.prefetchSize config.numWorkers) as = some s ∧
    Machine.Guarded (WritePipeline.step (samplePipeline L faults)) (ingestPythonSamples source)
      (WritePipeline.new ⟨builder, builder.dir⟩ config.prefetchSize config.numWorkers) as ∧
    (s.phase = .finished result ∨
      s.phase = .abandoned ∧ result = .error ((s.errors.getLast?.or source.ending).getD .workerFailed)) ∧
    dir = s.target.dir

/-- `write_named_source`; `written` is what `write_with_pipeline` returns and leaves. -/
def writeNamedSource (config : WriterConfig) (faults : WriterFaults)
    (written : CacheBuilder → CacheResult Unit × FileTree) (base : Path) (fs : FileTree) (source : Source)
    (sourceName : String) : FileTree × CacheResult Path :=
  let cachePath := cachePathForSource base sourceName
  if config.reuseExisting && fs.pathExists cachePath then
    if config.validateCache then (fs, (loadCache L fs cachePath true 0).map fun _ => cachePath)
    else (fs, .ok cachePath)
  else
    let tempPath := tempCachePathForSource base sourceName
    match prepareCachePaths fs cachePath tempPath with
    | .error error => (fs, .error error)
    | .ok fs =>
        match createCache config fs tempPath sourceName with
        | (fs, .error error) =>
            match cleanupTempCache fs tempPath with
            | .error error => (fs, .error error)
            | .ok fs => (fs, .error error)
        | (fs, .ok builder) =>
            match source.iter with
            | some error => (fs, .error error)
            | none =>
                let fs := fs.graft tempPath (written builder).2
                match (written builder).1 with
                | .error error =>
                    match cleanupTempCache fs tempPath with
                    | .error error => (fs, .error error)
                    | .ok fs => (fs, .error error)
                | .ok () =>
                    match publishCache faults.rename fs tempPath cachePath with
                    | .ok fs => (fs, .ok cachePath)
                    | .error error =>
                        match cleanupTempCache fs tempPath with
                        | .error error => (fs, .error error)
                        | .ok fs => (fs, .error error)

/-- `write_one_source_result`. -/
def writeOneSourceResult (config : WriterConfig) (faults : WriterFaults)
    (written : CacheBuilder → CacheResult Unit × FileTree) (base : Path) (sourceIndex : ℕ) (fs : FileTree)
    (source : Source) : FileTree × CacheResult CacheWriteRecord :=
  match extractSourceName source with
  | .error error =>
      if error.isInterrupt then (fs, .error error)
      else (fs, .ok (errorWriteResult (sourceLabel sourceIndex) error))
  | .ok sourceName =>
      match writeNamedSource L config faults written base fs source sourceName with
      | (fs, .ok path) => (fs, .ok (successWriteResult sourceName path))
      | (fs, .error error) =>
          if error.isInterrupt then (fs, .error error) else (fs, .ok (errorWriteResult sourceName error))

end one

end DatasetRt
