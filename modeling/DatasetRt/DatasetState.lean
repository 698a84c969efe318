import DatasetRt.SamplesMetadata

/-! # Dataset state

`DatasetState` (`dataset.rs`): the caches of a dataset, fixed at construction, and what
`set_epoch_len`, `update_metadata` and the creation of iterators change, behind one lock.  An
operation returns the state it leaves and its result, so that what a failed operation leaves is
part of the model. -/

namespace DatasetRt

inductive ActiveMetadata where
  | full
  | table (active : ActiveMetadataTable)

structure MutableDatasetState where
  active : ActiveMetadata
  originalMetadata : Option ArrowMetadata
  epochLen : Positive
  sequentialOffset : ℕ
  shuffledDrawOffset : ℕ

/-- The part of `DatasetState` that never changes. -/
structure Dataset where
  pop : Population
  totalSamples : ℕ
  seed : BitVec 64
  prefetchSize : Positive
  numWorkers : Positive
  shuffle : Bool

/-! ### Construction -/

/-- Two schemas with the same fields in the same order. -/
def sameSchema (left right : List MetadataField) : Bool :=
  left.length = right.length && (left.zip right).all fun p => p.1.name = p.2.name && p.1.kind = p.2.kind

def commonSchema : List LoadedCache → CacheResult (List MetadataField)
  | [] => .error (.invalidInput "no caches provided")
  | first :: rest =>
      if rest.all fun cache => sameSchema cache.manifest.fields.metadataSchema
          first.manifest.fields.metadataSchema then
        .ok first.manifest.fields.metadataSchema
      else .error (.invalidCache "all caches must share the same metadata schema")

namespace Dataset

/-- `DatasetState::load`; `loadCaches` loads the paths on the pool. -/
def load (loadCaches : List Path → CacheResult (List LoadedCache)) (paths : List Path)
    (seed : BitVec 64) (prefetchSize : ℕ) (numWorkers : Positive) (shuffle : Bool) :
    CacheResult (Dataset × MutableDatasetState) := do
  if paths = [] then .error (.invalidInput "CachedDataset requires at least one cache path")
  else
    let prefetchSize ← prefetchSizeNew prefetchSize
    let caches ← loadCaches paths
    let cacheLookup ← cacheLookup caches
    let schema ← commonSchema caches
    let (cacheOffsets, totalSamples) ← collectCacheOffsets caches
    if totalSamples = 0 then .error (.invalidCache "dataset contains no physical samples")
    else
      let epochLen ← epochLenNew totalSamples
      .ok ({ pop := { caches, cacheOffsets, cacheLookup, schema }, totalSamples, seed, prefetchSize
             numWorkers, shuffle },
        { active := .full, originalMetadata := none, epochLen, sequentialOffset := 0
          shuffledDrawOffset := 0 })

/-! ### Plans -/

def activeLen (d : Dataset) : ActiveMetadata → ℕ
  | .full => d.totalSamples
  | .table active => active.physicalIndices.length

def activePhysicalIndices : ActiveMetadata → Option (List ℕ)
  | .full => none
  | .table active => some active.physicalIndices

/-- `advance_cyclic_offset`; the sum of the last branch is a `usize` sum. -/
def advanceCyclicOffset (start step populationLen : ℕ) : CacheResult ℕ :=
  if populationLen = 0 then .error (.invalidInput "cannot iterate an empty active population")
  else
    let step := step % populationLen
    let distanceToWrap := populationLen - step
    if distanceToWrap ≤ start then .ok (start - distanceToWrap)
    else .ok ((start + step) % wordSize)

def advanceDrawOffset (start step : ℕ) : CacheResult ℕ :=
  okOr (checkedAdd start step) (.invalidInput "shuffled draw offset overflowed u64")

variable (R : RandLib)

/-- The sampler of a shuffled window. -/
def sampler (d : Dataset) (s : MutableDatasetState) : CacheResult (EpochSampler R) :=
  match s.active with
  | .full => EpochSampler.newUniform d.totalSamples d.seed s.shuffledDrawOffset s.epochLen.1
  | .table active => EpochSampler.newWeighted active.weights d.seed s.shuffledDrawOffset s.epochLen.1

def epochPlan (d : Dataset) (s : MutableDatasetState) : MutableDatasetState × CacheResult (EpochPlan R) :=
  if d.shuffle then
    match advanceDrawOffset s.shuffledDrawOffset s.epochLen.1 with
    | .error error => (s, .error error)
    | .ok nextDraw =>
        match d.sampler R s with
        | .error error => (s, .error error)
        | .ok sampler =>
            ({ s with shuffledDrawOffset := nextDraw },
              .ok (.shuffled sampler (activePhysicalIndices s.active)))
  else
    let populationLen := d.activeLen s.active
    match advanceCyclicOffset s.sequentialOffset s.epochLen.1 populationLen with
    | .error error => (s, .error error)
    | .ok next =>
        ({ s with sequentialOffset := next },
          .ok (.sequential s.epochLen.1 s.sequentialOffset populationLen (activePhysicalIndices s.active)))

/-! ### Updates -/

def setEpochLen (epochLen : ℕ) (s : MutableDatasetState) : MutableDatasetState × CacheResult Unit :=
  match epochLenNew epochLen with
  | .error error => (s, .error error)
  | .ok epochLen => ({ s with epochLen }, .ok ())

def replaceActive (active : ActiveMetadataTable) (s : MutableDatasetState) :
    MutableDatasetState × CacheResult Unit :=
  match epochLenNew active.physicalIndices.length with
  | .error error => (s, .error error)
  | .ok epochLen =>
      ({ active := .table active, originalMetadata := none, epochLen, sequentialOffset := 0
         shuffledDrawOffset := 0 }, .ok ())

/-- A table as Python hands it over: the batches of its stream and an optional row view. -/
structure ImportedTable where
  schema : List Field
  batches : List RecordBatch
  selection : Option UInt64Array

/-- `import_table`, with the selection applied. -/
def ImportedTable.toArrow (t : ImportedTable) : CacheResult ArrowMetadata := do
  let table ← ArrowMetadata.new t.schema t.batches
  match t.selection with
  | some selection => table.select selection
  | none => .ok table

/-- The outcome of an extraction put in place. -/
def replaceWith (extracted : CacheResult ActiveMetadataTable) (s : MutableDatasetState) :
    MutableDatasetState × CacheResult Unit :=
  match extracted with
  | .error error => (s, .error error)
  | .ok active => replaceActive active s

def updateMetadataArrow (d : Dataset) (t : ImportedTable) (s : MutableDatasetState) :
    MutableDatasetState × CacheResult Unit :=
  replaceWith (t.toArrow >>= extractMetadataArrow d.pop) s

def updateMetadataIpc (A : ArrowLib) (d : Dataset) (ipc : Bytes) (s : MutableDatasetState) :
    MutableDatasetState × CacheResult Unit :=
  replaceWith (extractMetadataIpc A d.pop ipc) s

/-- The operations on the state of a dataset. -/
inductive Op where
  | setEpochLen (epochLen : ℕ)
  | updateArrow (table : ImportedTable)
  | updateIpc (ipc : Bytes)
  | epochPlan

/-- The state an operation leaves. -/
def apply (A : ArrowLib) (d : Dataset) (s : MutableDatasetState) : Op → MutableDatasetState
  | .setEpochLen epochLen => (setEpochLen epochLen s).1
  | .updateArrow table => (d.updateMetadataArrow table s).1
  | .updateIpc ipc => (d.updateMetadataIpc A ipc s).1
  | .epochPlan => (d.epochPlan R s).1

/-- The state after a history of operations. -/
def applyAll (A : ArrowLib) (d : Dataset) (s : MutableDatasetState) (ops : List Op) :
    MutableDatasetState :=
  ops.foldl (apply R A d) s

end Dataset

end DatasetRt
