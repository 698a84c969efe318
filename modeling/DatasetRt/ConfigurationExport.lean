import DatasetRt.MetadataReader
import DatasetRt.Lib.CrashDisk
import DatasetRt.Lib.Machine

/-! # Exporting a dataset configuration

`dump_configuration` (`reconstruction.py`) writes the active table and the configuration of a dataset into a directory
that nobody else uses.  It refuses to begin where one of its four names exists, writes both files under partial names,
synchronises them, and gives them their names, the configuration last; on any exception it removes all four names.

`DumpCall.effect` is what the step of a phase does when nothing goes wrong.  A step can also raise, before or after its
effect or with part of its file written (`Left`): an interrupt, a full disk, or an error of its own.  An exception
goes to the clean-up, whose steps do not fail, or to the caller where no clean-up stands (`DumpCall.handler`).

`Sound` describes the four names in each phase.  A state is `Settled` when a configuration stands there only with the
complete table, both safe from a crash: that is what every crash leaves (`loads_of_crash`). -/

namespace DatasetRt

/-! ### Configurations -/

def configName : String := "dataset.json"
def metadataName : String := "metadata.arrow"

structure ReaderConfig where
  seed : ℤ
  prefetchSize : Positive
  shuffle : Bool
  validateCache : Bool
deriving DecidableEq

/-- The `version` and the name of the metadata file are constants. -/
structure DatasetConfiguration where
  cachePaths : List Path
  nonempty : cachePaths ≠ []
  readerConfig : ReaderConfig
  numWorkers : Positive
  epochLen : Positive
  rowCount : Positive
deriving DecidableEq

namespace DatasetConfiguration

/-- Every `DirectoryPath` is a directory. -/
def CachesExist (tree : FileTree) (config : DatasetConfiguration) : Prop :=
  ∀ path ∈ config.cachePaths, tree path = some .dir

instance (tree : FileTree) (config : DatasetConfiguration) : Decidable (config.CachesExist tree) :=
  @List.decidableBAll _ (fun path => tree path = some .dir) (fun _ => inferInstance) config.cachePaths

/-- The constructor; `none` is a `ValidationError`. -/
def new (tree : FileTree) (cachePaths : List Path) (readerConfig : ReaderConfig) (numWorkers epochLen rowCount : ℕ) :
    Option DatasetConfiguration :=
  if h : cachePaths ≠ [] ∧ 0 < numWorkers ∧ 0 < epochLen ∧ 0 < rowCount then
    let config : DatasetConfiguration :=
      ⟨cachePaths, h.1, readerConfig, ⟨numWorkers, h.2.1⟩, ⟨epochLen, h.2.2.1⟩, ⟨rowCount, h.2.2.2⟩⟩
    if config.CachesExist tree then some config else none
  else none

end DatasetConfiguration

/-- Pydantic: the JSON text of a configuration, and the configuration of a text. -/
structure ConfigJson where
  modelDumpJson : DatasetConfiguration → Except String Bytes
  modelValidateJson : Bytes → Except String DatasetConfiguration

def ConfigJson.Lawful (J : ConfigJson) : Prop :=
  ∀ config text, J.modelDumpJson config = .ok text → J.modelValidateJson text = .ok config

def loadConfiguration (J : ConfigJson) (tree : FileTree) (path : Path) : Except String DatasetConfiguration :=
  match tree.read path with
  | none => .error "Path does not point to a file"
  | some text => do
      let config ← J.modelValidateJson text
      if config.CachesExist tree then .ok config else .error "Path does not point to a directory"

def loadMetadata (A : ArrowLib) (tree : FileTree) (path : Path) (config : DatasetConfiguration) :
    Except String (List Field × List RecordBatch) :=
  if tree.read path = none then .error "Path does not point to a file"
  else
    match tree.read (path.dropLast ++ [metadataName]) with
    | none => .error "Path does not point to a file"
    | some bytes => do
        let (schema, batches) ← A.readFile bytes
        if (tableRows batches).length ≠ config.rowCount.1 then
          .error "metadata row count does not match dataset configuration"
        else .ok (schema, batches)

/-! ### The call -/

inductive DumpTarget where
  | config
  | metadata
  | pendingConfig
  | pendingMetadata
deriving DecidableEq, Repr

def DumpTarget.name : DumpTarget → String
  | .config => configName
  | .metadata => metadataName
  | .pendingConfig => configName ++ ".partial"
  | .pendingMetadata => metadataName ++ ".partial"

/-- What `dump_configuration` reads of the dataset, and the resolved directory. -/
structure DumpCall where
  dataset : Dataset
  state : MutableDatasetState
  /-- How often the reader of the active table may be called. -/
  calls : ℕ
  cachePaths : List Path
  readerConfig : ReaderConfig
  runtimeNumWorkers : ℕ
  directory : Path

/-- The step that comes next. -/
inductive DumpPhase where
  | checking
  | exporting
  | configuring (rowCount : ℕ)
  | syncingMetadata (config : DatasetConfiguration)
  | writingConfig (config : DatasetConfiguration)
  | syncingConfig
  | publishingMetadata
  | publishingConfig
  | returning
  | cleaning (targets : List DumpTarget)
  | returned
  | raised

structure DumpState where
  disk : CrashDisk
  phase : DumpPhase

/-- What a step that raises has done. -/
inductive Left where
  | nothing
  | part (bytes : Bytes)
  | everything

inductive DumpAct where
  | done
  | fails (left : Left)

/-- The order of `targets`. -/
def dumpTargets : List DumpTarget := [.config, .metadata, .pendingConfig, .pendingMetadata]

namespace DumpCall

section libraries

variable (metadataBatches : LoadedCache → CacheResult (List (CacheResult RecordBatch))) (A : ArrowLib) (J : ConfigJson)

def path (call : DumpCall) (target : DumpTarget) : Path := call.directory ++ [target.name]

/-- The file that `export_metadata_arrow` creates, with its own `sync_all`, and the row count. -/
def exportMetadata (call : DumpCall) (disk : CrashDisk) : Option (CrashDisk × ℕ) :=
  match call.dataset.exportMetadataArrow metadataBatches A call.state call.calls (call.path .pendingMetadata)
      disk.tree with
  | some (.ok (tree, rowCount)) => do
      let bytes ← tree.read (call.path .pendingMetadata)
      let disk ← disk.createNew (call.path .pendingMetadata) bytes
      let disk ← disk.sync (call.path .pendingMetadata)
      some (disk, rowCount)
  | _ => none

def configuration (call : DumpCall) (disk : CrashDisk) (rowCount : ℕ) : Option DatasetConfiguration :=
  DatasetConfiguration.new disk.tree call.cachePaths call.readerConfig call.runtimeNumWorkers call.state.epochLen.1
    rowCount

/-- A step that does not raise, and the phase after it. -/
def effect (call : DumpCall) (disk : CrashDisk) : DumpPhase → Option (CrashDisk × DumpPhase)
  | .checking =>
      if dumpTargets.any fun target => disk.pathExists (call.path target) then none else some (disk, .exporting)
  | .exporting => (call.exportMetadata metadataBatches A disk).map fun (disk, rowCount) => (disk, .configuring rowCount)
  | .configuring rowCount => (call.configuration disk rowCount).map fun config => (disk, .syncingMetadata config)
  | .syncingMetadata config => (disk.sync (call.path .pendingMetadata)).map (·, .writingConfig config)
  | .writingConfig config =>
      match J.modelDumpJson config with
      | .error _ => none
      | .ok text => (disk.writeText (call.path .pendingConfig) text).map (·, .syncingConfig)
  | .syncingConfig => (disk.sync (call.path .pendingConfig)).map (·, .publishingMetadata)
  | .publishingMetadata =>
      (disk.replace (call.path .pendingMetadata) (call.path .metadata)).map (·, .publishingConfig)
  | .publishingConfig => (disk.replace (call.path .pendingConfig) (call.path .config)).map (·, .returning)
  | .returning => if disk.isFile (call.path .config) then some (disk, .returned) else none
  | .cleaning [] => some (disk, .raised)
  | .cleaning (target :: rest) => some (disk.unlink (call.path target), .cleaning rest)
  | .returned => none
  | .raised => none

/-- A file that is written in part. -/
def partialEffect (call : DumpCall) (disk : CrashDisk) (bytes : Bytes) : DumpPhase → Option CrashDisk
  | .exporting => disk.createNew (call.path .pendingMetadata) bytes
  | .writingConfig _ => disk.writeText (call.path .pendingConfig) bytes
  | _ => none

/-- Where an exception leads: the `try` does not hold the check and the return. -/
def handler : DumpPhase → Option DumpPhase
  | .checking => some .raised
  | .returning => some .raised
  | .cleaning _ => none
  | .returned => none
  | .raised => none
  | _ => some (.cleaning dumpTargets)

def leaves (call : DumpCall) (disk : CrashDisk) (phase : DumpPhase) : Left → Option CrashDisk
  | .nothing => some disk
  | .part bytes => call.partialEffect disk bytes phase
  | .everything => (call.effect metadataBatches A J disk phase).map Prod.fst

def step (call : DumpCall) (s : DumpState) : DumpAct → Option DumpState
  | .done => (call.effect metadataBatches A J s.disk s.phase).map fun (disk, phase) => ⟨disk, phase⟩
  | .fails left => do
      let phase ← handler s.phase
      let disk ← call.leaves metadataBatches A J s.disk s.phase left
      some ⟨disk, phase⟩

/-- `Path.exists` finds one of the names. -/
def Refused (call : DumpCall) (disk : CrashDisk) : Prop := ∃ target, disk.pathExists (call.path target) = true

/-- The directory has one of the names, perhaps as a link to nothing. -/
def Occupied (call : DumpCall) (disk : CrashDisk) : Prop :=
  ∃ target, disk.tree (call.path target) ≠ none ∨ disk.links (call.path target) ≠ none

end libraries

/-! ### The four names -/

theorem name_injective : Function.Injective DumpTarget.name := by
  intro a b h
  cases a <;> cases b <;> first | rfl | exact absurd h (by decide)

@[simp] theorem path_inj {call : DumpCall} {a b : DumpTarget} : call.path a = call.path b ↔ a = b := by
  refine ⟨fun h => name_injective ?_, fun h => h ▸ rfl⟩
  simpa [path] using h

theorem mem_dumpTargets : ∀ target, target ∈ dumpTargets := by
  intro target
  cases target <;> decide

/-- What is found under the names. -/
def contents (call : DumpCall) (disk : CrashDisk) (target : DumpTarget) : Option Node := disk.tree (call.path target)

def holds (config metadata pendingConfig pendingMetadata : Option Node) : DumpTarget → Option Node
  | .config => config
  | .metadata => metadata
  | .pendingConfig => pendingConfig
  | .pendingMetadata => pendingMetadata

section holds

variable (config metadata pendingConfig pendingMetadata node : Option Node)

@[simp] theorem update_config : Function.update (holds config metadata pendingConfig pendingMetadata) .config node =
    holds node metadata pendingConfig pendingMetadata := by
  funext target
  cases target <;> rfl

@[simp] theorem update_metadata : Function.update (holds config metadata pendingConfig pendingMetadata) .metadata node =
    holds config node pendingConfig pendingMetadata := by
  funext target
  cases target <;> rfl

@[simp] theorem update_pendingConfig :
    Function.update (holds config metadata pendingConfig pendingMetadata) .pendingConfig node =
      holds config metadata node pendingMetadata := by
  funext target
  cases target <;> rfl

@[simp] theorem update_pendingMetadata :
    Function.update (holds config metadata pendingConfig pendingMetadata) .pendingMetadata node =
      holds config metadata pendingConfig node := by
  funext target
  cases target <;> rfl

end holds

/-- Only files under the four names came or went. -/
structure Framed (call : DumpCall) (d₀ disk : CrashDisk) : Prop where
  links : disk.links = d₀.links
  frame : ∀ p, (∀ target, p ≠ call.path target) → disk.tree p = d₀.tree p

variable {call : DumpCall} {d₀ disk disk' : CrashDisk} {target source : DumpTarget} {bytes : Bytes}

theorem contents_put (hlink : disk.links (call.path target) = none) :
    call.contents (disk.put (call.path target) bytes hlink) =
      Function.update (call.contents disk) target (some (.file bytes)) := by
  funext other
  by_cases h : other = target
  · subst h
    simp [contents, CrashDisk.put, FileTree.write]
  · simp [contents, CrashDisk.put, FileTree.write, h]

theorem contents_move : call.contents (disk.move (call.path source) (call.path target)) =
    Function.update (Function.update (call.contents disk) source none) target (call.contents disk source) := by
  funext other
  by_cases h : other = target
  · subst h
    simp [contents, CrashDisk.move, FileTree.renameFile]
  · by_cases h' : other = source
    · subst h'
      simp [contents, CrashDisk.move, FileTree.renameFile, FileTree.removeFile, h]
    · simp [contents, CrashDisk.move, FileTree.renameFile, FileTree.removeFile, h, h']

theorem contents_unlink : call.contents (disk.unlink (call.path target)) =
    Function.update (call.contents disk) target none := by
  funext other
  by_cases h : other = target
  · subst h
    simp [contents, CrashDisk.unlink, FileTree.removeFile]
  · simp [contents, CrashDisk.unlink, FileTree.removeFile, h]

theorem Framed.put (h : call.Framed d₀ disk) (hlink : disk.links (call.path target) = none) :
    call.Framed d₀ (disk.put (call.path target) bytes hlink) where
  links := h.links
  frame p hp := (if_neg (hp target)).trans (h.frame p hp)

theorem Framed.move (h : call.Framed d₀ disk) (hfree : ∀ target, d₀.links (call.path target) = none) :
    call.Framed d₀ (disk.move (call.path source) (call.path target)) where
  links := by
    rw [CrashDisk.links_move, h.links]
    · rw [h.links, hfree]
    · rw [h.links, hfree]
  frame p hp := (if_neg (hp target)).trans ((if_neg (hp source)).trans (h.frame p hp))

theorem Framed.unlink (h : call.Framed d₀ disk) (hfree : ∀ target, d₀.links (call.path target) = none) :
    call.Framed d₀ (disk.unlink (call.path target)) where
  links := by
    rw [CrashDisk.links_unlink (by rw [h.links, hfree]), h.links]
  frame p hp := (if_neg (hp target)).trans (h.frame p hp)

theorem Framed.tree_eq (h : call.Framed d₀ disk) (hd₀ : ∀ target, call.contents d₀ target = none)
    (hdisk : ∀ target, call.contents disk target = none) : disk.tree = d₀.tree := by
  funext p
  by_cases hp : ∃ target, p = call.path target
  · obtain ⟨target, rfl⟩ := hp
    exact (hdisk target).trans (hd₀ target).symm
  · exact h.frame p fun target heq => hp ⟨target, heq⟩

/-! ### The exported table -/

section libraries

variable (metadataBatches : LoadedCache → CacheResult (List (CacheResult RecordBatch))) (A : ArrowLib) (J : ConfigJson)

/-- An Arrow file with all the rows of the dataset. -/
def Exported (call : DumpCall) (schema : List Field) (batches : List RecordBatch) : Prop :=
  match call.state.active with
  | .full => schema = samplesMetadataFields call.dataset.pop.schema ∧
      visitSamplesMetadata metadataBatches call.dataset.pop = .ok batches
  | .table active => schema = active.metadata.schema ∧ tableRows batches = active.metadata.viewRows

/-- The bytes of a complete table of so many rows. -/
def IsExport (call : DumpCall) (bytes : Bytes) (rowCount : ℕ) : Prop :=
  ∃ schema batches, A.readFile bytes = .ok (schema, batches) ∧ (tableRows batches).length = rowCount ∧
    call.Exported metadataBatches schema batches

/-- A table and a configuration that belong together. -/
def Match (call : DumpCall) (d₀ : CrashDisk) (bytes text : Bytes) : Prop :=
  ∃ config, J.modelDumpJson config = .ok text ∧ config.CachesExist d₀.tree ∧
    call.IsExport metadataBatches A bytes config.rowCount.1

end libraries

end DumpCall

theorem ArrowMetadata.writeFile_mono {A : ArrowLib} {table : ArrowMetadata} {calls more : ℕ} {path : Path}
    {fs : FileTree} {result : CacheResult FileTree} (h : table.writeFile A calls path fs = some result)
    (hle : calls ≤ more) : table.writeFile A more path fs = some result := by
  obtain ⟨items, hitems, rfl⟩ := Option.map_eq_some_iff.mp h
  rw [ArrowMetadata.writeFile, ArrowMetadata.readerItems_mono hitems hle]
  rfl

theorem map_eq_ok {ε α β : Type} {x : Except ε α} {f : α → β} {b : β} (h : x.map f = .ok b) :
    ∃ a, x = .ok a ∧ f a = b := by
  cases x with
  | error e => cases h
  | ok a => exact ⟨a, rfl, Except.ok.inj h⟩

namespace DumpCall

variable {metadataBatches : LoadedCache → CacheResult (List (CacheResult RecordBatch))} {A : ArrowLib} {J : ConfigJson}
variable {call : DumpCall} {d₀ disk disk' : CrashDisk} {bytes : Bytes}

/-- A dataset that can be exported: its population and its active table are as `load` and the updates leave them. -/
structure Ready (call : DumpCall) : Prop where
  valid : call.dataset.Valid
  active : call.dataset.ActiveAccepted call.state

theorem isExport_of_exportMetadataArrow (hA : A.Lawful) (hcall : call.Ready) {path : Path} {fs fs' : FileTree}
    {rowCount : ℕ} (h : call.dataset.exportMetadataArrow metadataBatches A call.state call.calls path fs =
      some (.ok (fs', rowCount))) (hread : fs'.read path = some bytes) :
    call.IsExport metadataBatches A bytes rowCount := by
  unfold Dataset.exportMetadataArrow at h
  unfold IsExport Exported
  cases hactive : call.state.active with
  | full =>
      rw [hactive, Option.some.injEq] at h
      obtain ⟨written, hwrite, hresult⟩ := map_eq_ok h
      cases hresult
      obtain ⟨content, hcontent, rfl⟩ := createFile_ok hwrite
      obtain ⟨batches, hvisit, hfile⟩ := bind_eq_ok hcontent
      rw [FileTree.read_write_self, Option.some.injEq] at hread
      subst hread
      refine ⟨_, batches, hA _ _ _ (arrowResult_ok hfile), ?_, rfl, hvisit⟩
      rw [length_tableRows, (visitSamplesMetadata_ok hcall.valid.pop hvisit).1.stop_eq, Nat.zero_add]
  | table active =>
      rw [hactive] at h
      obtain ⟨result, hresult, h⟩ := Option.map_eq_some_iff.mp h
      obtain ⟨written, rfl, hpair⟩ := map_eq_ok h
      cases hpair
      have hvalid := (hcall.active active hactive).valid
      -- the loop has ended, so that more calls of the reader change nothing
      have hmore := ArrowMetadata.writeFile_mono hresult (Nat.le_max_left call.calls (active.metadata.len + 1))
      obtain ⟨batches, hfile, hrows, -⟩ := ArrowMetadata.writeFile_spec (A := A) hvalid
        (Nat.lt_of_lt_of_le (Nat.lt_succ_self _) (Nat.le_max_right call.calls (active.metadata.len + 1))) path fs
      rw [hfile, Option.some.injEq] at hmore
      obtain ⟨content, hcontent, rfl⟩ := createFile_ok hmore
      rw [FileTree.read_write_self, Option.some.injEq] at hread
      subst hread
      refine ⟨_, batches, hA _ _ _ (arrowResult_ok hcontent), ?_, rfl, hrows⟩
      rw [hrows]
      exact hvalid.length_viewRows

/-! ### What holds in each phase -/

section invariant

variable (metadataBatches : LoadedCache → CacheResult (List (CacheResult RecordBatch))) (A : ArrowLib) (J : ConfigJson)

/-- A configuration stands there only with the complete table, and a crash cannot damage them. -/
structure Settled (call : DumpCall) (d₀ disk : CrashDisk) : Prop where
  config : call.path .config ∉ disk.unsynced
  metadata : call.path .metadata ∉ disk.unsynced
  complete : call.contents disk .config ≠ none → ∃ bytes text, call.contents disk .config = some (.file text) ∧
    call.contents disk .metadata = some (.file bytes) ∧ call.Match metadataBatches A J d₀ bytes text

/-- The four names before the step of a phase; `late` allows that the last step has failed. -/
def Sound (call : DumpCall) (late : Prop) (d₀ disk : CrashDisk) : DumpPhase → Prop
  | .checking => call.contents disk = holds none none none none
  | .exporting => call.contents disk = holds none none none none
  | .configuring rowCount => ∃ bytes, call.contents disk = holds none none none (some (.file bytes)) ∧
      call.path .pendingMetadata ∉ disk.unsynced ∧ call.IsExport metadataBatches A bytes rowCount
  | .syncingMetadata config | .writingConfig config =>
      ∃ bytes, call.contents disk = holds none none none (some (.file bytes)) ∧
        call.path .pendingMetadata ∉ disk.unsynced ∧ config.CachesExist d₀.tree ∧
        call.IsExport metadataBatches A bytes config.rowCount.1
  | .syncingConfig => ∃ bytes text, call.contents disk = holds none none (some (.file text)) (some (.file bytes)) ∧
      call.path .pendingMetadata ∉ disk.unsynced ∧ call.Match metadataBatches A J d₀ bytes text
  | .publishingMetadata =>
      ∃ bytes text, call.contents disk = holds none none (some (.file text)) (some (.file bytes)) ∧
        call.path .pendingMetadata ∉ disk.unsynced ∧ call.path .pendingConfig ∉ disk.unsynced ∧
        call.Match metadataBatches A J d₀ bytes text
  | .publishingConfig =>
      ∃ bytes text, call.contents disk = holds none (some (.file bytes)) (some (.file text)) none ∧
        call.path .pendingConfig ∉ disk.unsynced ∧ call.Match metadataBatches A J d₀ bytes text
  | .returning | .returned =>
      ∃ bytes text, call.contents disk = holds (some (.file text)) (some (.file bytes)) none none ∧
        call.Match metadataBatches A J d₀ bytes text
  | .cleaning targets => targets <:+ dumpTargets ∧ ∀ target ∉ targets, call.contents disk target = none
  | .raised => (∀ target, call.contents disk target = none) ∨ late

structure Inv (call : DumpCall) (late : Prop) (d₀ : CrashDisk) (s : DumpState) : Prop where
  framed : call.Framed d₀ s.disk
  settled : call.Settled metadataBatches A J d₀ s.disk
  sound : call.Sound metadataBatches A J late d₀ s.disk s.phase

end invariant

/-! ### One step -/

variable {late : Prop} {target source : DumpTarget} {phase phase' : DumpPhase} {s s' : DumpState}

theorem Settled.put (h : call.Settled metadataBatches A J d₀ disk) (hconfig : target ≠ .config)
    (hmetadata : target ≠ .metadata) (hlink : disk.links (call.path target) = none) :
    call.Settled metadataBatches A J d₀ (disk.put (call.path target) bytes hlink) where
  config := by simp [CrashDisk.put, hconfig.symm, h.config]
  metadata := by simp [CrashDisk.put, hmetadata.symm, h.metadata]
  complete hne := by
    rw [contents_put, Function.update_of_ne hconfig.symm] at hne ⊢
    rw [Function.update_of_ne hmetadata.symm]
    exact h.complete hne

theorem Settled.sync (h : call.Settled metadataBatches A J d₀ disk) (htree : disk'.tree = disk.tree)
    (hmarks : ∀ p ∈ disk'.unsynced, p ∈ disk.unsynced) : call.Settled metadataBatches A J d₀ disk' where
  config hmem := h.config (hmarks _ hmem)
  metadata hmem := h.metadata (hmarks _ hmem)
  complete := by
    unfold contents
    rw [htree]
    exact h.complete

/-- The configuration is removed before the table. -/
theorem Settled.unlink (h : call.Settled metadataBatches A J d₀ disk)
    (horder : target = .metadata → call.contents disk .config = none) :
    call.Settled metadataBatches A J d₀ (disk.unlink (call.path target)) where
  config hmem := h.config (List.mem_of_mem_filter hmem)
  metadata hmem := h.metadata (List.mem_of_mem_filter hmem)
  complete hne := by
    rw [contents_unlink] at hne ⊢
    by_cases hconfig : target = .config
    · rw [hconfig, Function.update_self] at hne
      exact absurd rfl hne
    · rw [Function.update_of_ne (Ne.symm hconfig)] at hne ⊢
      have hmetadata : target ≠ .metadata := fun heq => hne (horder heq)
      rw [Function.update_of_ne hmetadata.symm]
      exact h.complete hne

/-- The clean-up comes to the table after the configuration. -/
theorem config_not_mem_of_suffix {rest : List DumpTarget} (h : .metadata :: rest <:+ dumpTargets) :
    DumpTarget.config ∉ DumpTarget.metadata :: rest := by
  simp only [dumpTargets, List.suffix_cons_iff, List.cons.injEq, reduceCtorEq, false_and, true_and, false_or,
    List.suffix_nil, or_false] at h
  rw [h]
  decide

theorem exportMetadata_eq_some {rowCount : ℕ}
    (h : call.exportMetadata metadataBatches A disk = some (disk', rowCount)) : ∃ fs bytes hlink,
      call.dataset.exportMetadataArrow metadataBatches A call.state call.calls (call.path .pendingMetadata) disk.tree =
        some (.ok (fs, rowCount)) ∧ fs.read (call.path .pendingMetadata) = some bytes ∧
      (disk.put (call.path .pendingMetadata) bytes hlink).sync (call.path .pendingMetadata) = some disk' := by
  unfold exportMetadata at h
  split at h
  · next fs count hexport =>
      obtain ⟨bytes, hread, h⟩ := Option.bind_eq_some_iff.mp h
      obtain ⟨created, hcreate, h⟩ := Option.bind_eq_some_iff.mp h
      obtain ⟨hlink, -, rfl⟩ := CrashDisk.createNew_eq_some hcreate
      obtain ⟨synced, hsync, h⟩ := Option.bind_eq_some_iff.mp h
      cases h
      exact ⟨fs, bytes, hlink, hexport, hread, hsync⟩
  · cases h

theorem configuration_eq_some {rowCount : ℕ} {config : DatasetConfiguration}
    (h : call.configuration disk rowCount = some config) :
    config.rowCount.1 = rowCount ∧ config.CachesExist disk.tree := by
  unfold configuration DatasetConfiguration.new at h
  split_ifs at h with hvalid
  simp only at h
  split_ifs at h with hcaches
  cases h
  exact ⟨rfl, hcaches⟩

/-- The directories of the caches are none of the files that the export writes. -/
theorem Framed.cachesExist (h : call.Framed d₀ disk) {config : DatasetConfiguration}
    (hfiles : ∀ target, call.contents disk target ≠ some .dir) (hcaches : config.CachesExist disk.tree) :
    config.CachesExist d₀.tree := by
  intro path hpath
  rw [← h.frame path]
  · exact hcaches path hpath
  · intro target heq
    apply hfiles target
    rw [contents, ← heq]
    exact hcaches path hpath

theorem inv_exporting (hA : A.Lawful) (hcall : call.Ready) {rowCount : ℕ}
    (h : call.Inv metadataBatches A J late d₀ ⟨disk, .exporting⟩)
    (hexport : call.exportMetadata metadataBatches A disk = some (disk', rowCount)) :
    call.Inv metadataBatches A J late d₀ ⟨disk', .configuring rowCount⟩ := by
  obtain ⟨fs, bytes, hlink, hfile, hread, hsync⟩ := exportMetadata_eq_some hexport
  obtain ⟨htree, hlinks, hmarks⟩ := CrashDisk.sync_eq_some (by exact hlink) hsync
  have hcontents : call.contents disk' = holds none none none (some (.file bytes)) := by
    have hsame : call.contents disk' = call.contents (disk.put (call.path .pendingMetadata) bytes hlink) := by
      unfold contents
      rw [htree]
    rw [hsame, contents_put, h.sound, update_pendingMetadata]
  have hframed : call.Framed d₀ (disk.put (call.path .pendingMetadata) bytes hlink) := h.framed.put hlink
  refine ⟨⟨hlinks.trans hframed.links, fun p hp => ?_⟩, ?_, bytes, hcontents, ?_, ?_⟩
  · exact (congrFun htree p).trans (hframed.frame p hp)
  · have hput : call.Settled metadataBatches A J d₀ (disk.put (call.path .pendingMetadata) bytes hlink) :=
      h.settled.put (by decide) (by decide) hlink
    refine hput.sync htree fun p hp => ?_
    rw [hmarks] at hp
    exact List.mem_of_mem_filter hp
  · rw [hmarks]
    simp
  · exact isExport_of_exportMetadataArrow hA hcall hfile hread

theorem inv_sync (h : call.Inv metadataBatches A J late d₀ ⟨disk, phase⟩)
    (hfree : ∀ target, d₀.links (call.path target) = none) (hsync : disk.sync (call.path target) = some disk')
    (hsound : call.contents disk' = call.contents disk → call.path target ∉ disk'.unsynced →
      (∀ p ∈ disk'.unsynced, p ∈ disk.unsynced) → call.Sound metadataBatches A J late d₀ disk' phase') :
    call.Inv metadataBatches A J late d₀ ⟨disk', phase'⟩ := by
  have hlink : disk.links (call.path target) = none := by rw [h.framed.links, hfree]
  obtain ⟨htree, hlinks, hmarks⟩ := CrashDisk.sync_eq_some hlink hsync
  have hsub : ∀ p ∈ disk'.unsynced, p ∈ disk.unsynced := fun p hp => by
    rw [hmarks] at hp
    exact List.mem_of_mem_filter hp
  refine ⟨⟨hlinks.trans h.framed.links, fun p hp => (congrFun htree p).trans (h.framed.frame p hp)⟩,
    h.settled.sync htree hsub, hsound ?_ ?_ hsub⟩
  · unfold contents
    rw [htree]
  · rw [hmarks]
    simp

theorem inv_publishingMetadata (hfree : ∀ target, d₀.links (call.path target) = none)
    (h : call.Inv metadataBatches A J late d₀ ⟨disk, .publishingMetadata⟩) : call.Inv metadataBatches A J late d₀
      ⟨disk.move (call.path .pendingMetadata) (call.path .metadata), .publishingConfig⟩ := by
  obtain ⟨bytes, text, hcontents, hmetadata, hconfig, hmatch⟩ := h.sound
  have hmoved : call.contents (disk.move (call.path .pendingMetadata) (call.path .metadata)) =
      holds none (some (.file bytes)) (some (.file text)) none := by
    rw [contents_move, hcontents, update_pendingMetadata, update_metadata]
    rfl
  refine ⟨h.framed.move hfree, ⟨?_, CrashDisk.target_not_mem_unsynced_move hmetadata, ?_⟩, bytes, text, hmoved, ?_, hmatch⟩
  · intro hmem
    exact h.settled.config (CrashDisk.mem_unsynced_move (by simp) hmem).1
  · intro hne
    rw [hmoved] at hne
    exact absurd rfl hne
  · intro hmem
    exact hconfig (CrashDisk.mem_unsynced_move (by simp) hmem).1

theorem inv_publishingConfig (hfree : ∀ target, d₀.links (call.path target) = none)
    (h : call.Inv metadataBatches A J late d₀ ⟨disk, .publishingConfig⟩) : call.Inv metadataBatches A J late d₀
      ⟨disk.move (call.path .pendingConfig) (call.path .config), .returning⟩ := by
  obtain ⟨bytes, text, hcontents, hconfig, hmatch⟩ := h.sound
  have hmoved : call.contents (disk.move (call.path .pendingConfig) (call.path .config)) =
      holds (some (.file text)) (some (.file bytes)) none none := by
    rw [contents_move, hcontents, update_pendingConfig, update_config]
    rfl
  refine ⟨h.framed.move hfree, ⟨CrashDisk.target_not_mem_unsynced_move hconfig, ?_, ?_⟩, bytes, text, hmoved, hmatch⟩
  · intro hmem
    exact h.settled.metadata (CrashDisk.mem_unsynced_move (by simp) hmem).1
  · intro _
    exact ⟨bytes, text, by rw [hmoved]; rfl, by rw [hmoved]; rfl, hmatch⟩

theorem inv_cleaning (hfree : ∀ target, d₀.links (call.path target) = none) {rest : List DumpTarget}
    (h : call.Inv metadataBatches A J late d₀ ⟨disk, .cleaning (target :: rest)⟩) :
    call.Inv metadataBatches A J late d₀ ⟨disk.unlink (call.path target), .cleaning rest⟩ := by
  obtain ⟨hsuffix, hgone⟩ := h.sound
  refine ⟨h.framed.unlink hfree, h.settled.unlink fun heq => ?_, ?_, fun other hother => ?_⟩
  · subst heq
    exact hgone _ (config_not_mem_of_suffix hsuffix)
  · exact (List.suffix_cons target rest).trans hsuffix
  · rw [contents_unlink]
    by_cases heq : other = target
    · rw [heq, Function.update_self]
    · rw [Function.update_of_ne heq]
      exact hgone other fun hmem => (List.mem_cons.mp hmem).elim heq hother

theorem inv_effect (hA : A.Lawful) (hcall : call.Ready) (hfree : ∀ target, d₀.links (call.path target) = none)
    (h : call.Inv metadataBatches A J late d₀ ⟨disk, phase⟩)
    (heffect : call.effect metadataBatches A J disk phase = some (disk', phase')) :
    call.Inv metadataBatches A J late d₀ ⟨disk', phase'⟩ := by
  cases phase with
  | checking =>
      rw [effect] at heffect
      split_ifs at heffect
      cases heffect
      exact ⟨h.framed, h.settled, h.sound⟩
  | exporting =>
      obtain ⟨⟨exported, rowCount⟩, hexport, hpair⟩ := Option.map_eq_some_iff.mp heffect
      cases hpair
      exact inv_exporting hA hcall h hexport
  | configuring rowCount =>
      obtain ⟨config, hconfig, hpair⟩ := Option.map_eq_some_iff.mp heffect
      cases hpair
      obtain ⟨bytes, hcontents, hmarks, hexport⟩ := h.sound
      obtain ⟨rfl, hcaches⟩ := configuration_eq_some hconfig
      refine ⟨h.framed, h.settled, bytes, hcontents, hmarks, h.framed.cachesExist (fun target => ?_) hcaches, hexport⟩
      rw [hcontents]
      cases target <;> exact fun hdir => nomatch hdir
  | syncingMetadata config =>
      obtain ⟨synced, hsync, hpair⟩ := Option.map_eq_some_iff.mp heffect
      cases hpair
      obtain ⟨bytes, hcontents, -, hrest⟩ := h.sound
      exact inv_sync h hfree hsync fun hsame hmark _ => ⟨bytes, hsame.trans hcontents, hmark, hrest⟩
  | writingConfig config =>
      rw [effect] at heffect
      cases hdump : J.modelDumpJson config with
      | error message =>
          rw [hdump] at heffect
          cases heffect
      | ok text =>
          rw [hdump] at heffect
          obtain ⟨written, hwrite, hpair⟩ := Option.map_eq_some_iff.mp heffect
          cases hpair
          obtain ⟨bytes, hcontents, hmarks, hcaches, hexport⟩ := h.sound
          have hlink : disk.links (call.path .pendingConfig) = none := by rw [h.framed.links, hfree]
          obtain rfl := CrashDisk.writeText_eq_some hlink hwrite
          refine ⟨h.framed.put hlink, h.settled.put (by decide) (by decide) hlink, bytes, text, ?_, ?_, config, hdump,
            hcaches, hexport⟩
          · rw [contents_put, hcontents, update_pendingConfig]
          · simp [CrashDisk.put, hmarks]
  | syncingConfig =>
      obtain ⟨synced, hsync, hpair⟩ := Option.map_eq_some_iff.mp heffect
      cases hpair
      obtain ⟨bytes, text, hcontents, hmarks, hmatch⟩ := h.sound
      exact inv_sync h hfree hsync fun hsame hmark hsub =>
        ⟨bytes, text, hsame.trans hcontents, fun hmem => hmarks (hsub _ hmem), hmark, hmatch⟩
  | publishingMetadata =>
      obtain ⟨moved, hmove, hpair⟩ := Option.map_eq_some_iff.mp heffect
      cases hpair
      obtain rfl := CrashDisk.replace_eq_some hmove
      exact inv_publishingMetadata hfree h
  | publishingConfig =>
      obtain ⟨moved, hmove, hpair⟩ := Option.map_eq_some_iff.mp heffect
      cases hpair
      obtain rfl := CrashDisk.replace_eq_some hmove
      exact inv_publishingConfig hfree h
  | returning =>
      rw [effect] at heffect
      split_ifs at heffect
      cases heffect
      exact ⟨h.framed, h.settled, h.sound⟩
  | cleaning targets =>
      cases targets with
      | nil =>
          cases heffect
          exact ⟨h.framed, h.settled, .inl fun target => h.sound.2 target List.not_mem_nil⟩
      | cons target rest =>
          cases heffect
          exact inv_cleaning hfree h
  | returned => cases heffect
  | raised => cases heffect

/-- A file that is cut short is one that no reader looks for. -/
theorem inv_partialEffect (hfree : ∀ target, d₀.links (call.path target) = none)
    (h : call.Inv metadataBatches A J late d₀ ⟨disk, phase⟩)
    (heffect : call.partialEffect disk bytes phase = some disk') :
    call.Framed d₀ disk' ∧ call.Settled metadataBatches A J d₀ disk' ∧ handler phase = some (.cleaning dumpTargets) := by
  unfold partialEffect at heffect
  split at heffect
  · obtain ⟨hlink, -, rfl⟩ := CrashDisk.createNew_eq_some heffect
    exact ⟨h.framed.put hlink, h.settled.put (by decide) (by decide) hlink, rfl⟩
  · have hlink : disk.links (call.path .pendingConfig) = none := by rw [h.framed.links, hfree]
    obtain rfl := CrashDisk.writeText_eq_some hlink heffect
    exact ⟨h.framed.put hlink, h.settled.put (by decide) (by decide) hlink, rfl⟩
  · cases heffect

/-- A step that raises goes to the clean-up, except the first and the last. -/
theorem handler_cases (h : handler phase = some phase') :
    phase' = .cleaning dumpTargets ∨ phase' = .raised ∧ (phase = .checking ∨ phase = .returning) := by
  cases phase with
  | checking =>
      cases h
      exact .inr ⟨rfl, .inl rfl⟩
  | returning =>
      cases h
      exact .inr ⟨rfl, .inr rfl⟩
  | cleaning targets => cases h
  | returned => cases h
  | raised => cases h
  | _ =>
      cases h
      exact .inl rfl

/-- The last step does not raise. -/
def ReturnSucceeds (s : DumpState) (a : DumpAct) : Prop := s.phase = .returning → a = .done

theorem inv_fails (hA : A.Lawful) (hcall : call.Ready) (hfree : ∀ target, d₀.links (call.path target) = none)
    {left : Left} (h : call.Inv metadataBatches A J late d₀ ⟨disk, phase⟩) (hhandler : handler phase = some phase')
    (hleaves : call.leaves metadataBatches A J disk phase left = some disk') (hlate : phase = .returning → late) :
    call.Inv metadataBatches A J late d₀ ⟨disk', phase'⟩ := by
  have hdisk : call.Framed d₀ disk' ∧ call.Settled metadataBatches A J d₀ disk' ∧
      (phase = .checking → disk' = disk) := by
    cases left with
    | nothing =>
        cases hleaves
        exact ⟨h.framed, h.settled, fun _ => rfl⟩
    | part bytes =>
        obtain ⟨hframed, hsettled, hcleaning⟩ := inv_partialEffect hfree h hleaves
        refine ⟨hframed, hsettled, fun hphase => ?_⟩
        rw [hphase] at hcleaning
        cases hcleaning
    | everything =>
        obtain ⟨⟨after, next⟩, heffect, rfl⟩ := Option.map_eq_some_iff.mp hleaves
        have hinv := inv_effect hA hcall hfree h heffect
        refine ⟨hinv.framed, hinv.settled, fun hphase => ?_⟩
        rw [hphase, effect] at heffect
        split_ifs at heffect
        cases heffect
        rfl
  refine ⟨hdisk.1, hdisk.2.1, ?_⟩
  rcases handler_cases hhandler with rfl | ⟨rfl, hphase | hphase⟩
  · exact ⟨List.suffix_refl _, fun target htarget => absurd (mem_dumpTargets target) htarget⟩
  · refine .inl fun target => ?_
    have hempty := h.sound
    simp only [hphase] at hempty
    rw [hdisk.2.2 hphase, hempty]
    cases target <;> rfl
  · exact .inr (hlate hphase)

/-- **Step lemma.** -/
theorem inv_step (hA : A.Lawful) (hcall : call.Ready) (hfree : ∀ target, d₀.links (call.path target) = none)
    {a : DumpAct} (h : call.Inv metadataBatches A J late d₀ s) (hguard : late ∨ ReturnSucceeds s a)
    (hstep : call.step metadataBatches A J s a = some s') : call.Inv metadataBatches A J late d₀ s' := by
  cases a with
  | done =>
      obtain ⟨⟨disk', phase'⟩, heffect, rfl⟩ := Option.map_eq_some_iff.mp hstep
      exact inv_effect hA hcall hfree h heffect
  | fails left =>
      obtain ⟨phase', hhandler, hstep⟩ := Option.bind_eq_some_iff.mp hstep
      obtain ⟨disk', hleaves, hstep⟩ := Option.bind_eq_some_iff.mp hstep
      cases hstep
      refine inv_fails hA hcall hfree h hhandler hleaves fun hphase => hguard.resolve_right fun hsucceeds => ?_
      cases hsucceeds hphase

/-! ### Whole calls -/

section atomic

variable (metadataBatches : LoadedCache → CacheResult (List (CacheResult RecordBatch))) (A : ArrowLib) (J : ConfigJson)

/-- A directory from which the exported dataset can be loaded. -/
def Loads (call : DumpCall) (tree : FileTree) : Prop :=
  ∃ config schema batches, loadConfiguration J tree (call.path .config) = .ok config ∧
    loadMetadata A tree (call.path .config) config = .ok (schema, batches) ∧
    (tableRows batches).length = config.rowCount.1 ∧ call.Exported metadataBatches schema batches

/-- What an atomic export promises of a state that is reached from `d₀`. -/
structure Atomic (call : DumpCall) (d₀ : CrashDisk) (s : DumpState) : Prop where
  occupied : call.Occupied d₀ → s.disk = d₀
  raised : s.phase = .raised → s.disk.tree = d₀.tree ∧ s.disk.links = d₀.links
  crash : ¬ call.Occupied d₀ → ∀ left, s.disk.Crash left → left (call.path .config) ≠ none →
    call.Loads metadataBatches A J left

end atomic

theorem refused_iff (hfree : ∀ target, disk.links (call.path target) = none) : call.Refused disk ↔ call.Occupied disk := by
  refine exists_congr fun target => ?_
  rw [CrashDisk.pathExists, CrashDisk.follow_of_free (hfree target)]
  simp [FileTree.pathExists, Option.isSome_iff_ne_none, hfree target]

theorem disk_of_refused (h : call.Refused d₀) {acts : List DumpAct}
    (hrun : Machine.run (call.step metadataBatches A J) ⟨d₀, .checking⟩ acts = some s) :
    s.disk = d₀ ∧ (s.phase = .checking ∨ s.phase = .raised) := by
  have hany : (dumpTargets.any fun target => d₀.pathExists (call.path target)) = true := by
    obtain ⟨target, htarget⟩ := h
    exact List.any_eq_true.mpr ⟨target, mem_dumpTargets target, htarget⟩
  have heffect : call.effect metadataBatches A J d₀ .checking = none := by rw [effect, if_pos hany]
  refine Machine.run_invariant (call.step metadataBatches A J)
    (I := fun s => s.disk = d₀ ∧ (s.phase = .checking ∨ s.phase = .raised)) ?_ ⟨rfl, .inl rfl⟩ hrun
  rintro ⟨disk, phase⟩ a s' ⟨rfl, hphase⟩ hstep
  simp only at hphase
  rcases hphase with rfl | rfl
  · cases a with
    | done =>
        simp only [step, heffect] at hstep
        cases hstep
    | fails left =>
        cases left with
        | nothing =>
            cases hstep
            exact ⟨rfl, .inr rfl⟩
        | part bytes => cases hstep
        | everything =>
            simp only [step, handler, leaves, heffect] at hstep
            cases hstep
  · cases a <;> cases hstep

theorem links_of_not_occupied (h : ¬ call.Occupied d₀) (target : DumpTarget) : d₀.links (call.path target) = none := by
  by_contra hne
  exact h ⟨target, .inr hne⟩

theorem inv_start (hempty : ¬ call.Occupied d₀) :
    call.Inv metadataBatches A J late d₀ ⟨d₀, .checking⟩ := by
  have hnone : ∀ target, call.contents d₀ target = none := fun target => by
    by_contra hne
    exact hempty ⟨target, .inl hne⟩
  have hsynced : ∀ target, call.path target ∉ d₀.unsynced := fun target hmem => by
    obtain ⟨bytes, hfile⟩ := d₀.unsynced_file _ hmem
    exact hempty ⟨target, .inl (by rw [hfile]; exact Option.some_ne_none _)⟩
  refine ⟨⟨rfl, fun _ _ => rfl⟩, ⟨hsynced _, hsynced _, fun hne => absurd (hnone _) hne⟩, ?_⟩
  funext target
  rw [hnone]
  cases target <;> rfl

/-- **Run lemma.** -/
theorem inv_run (hA : A.Lawful) (hcall : call.Ready) (hempty : ¬ call.Occupied d₀) {acts : List DumpAct}
    (hguard : Machine.Guarded (call.step metadataBatches A J) (fun s a => late ∨ ReturnSucceeds s a) ⟨d₀, .checking⟩ acts)
    (hrun : Machine.run (call.step metadataBatches A J) ⟨d₀, .checking⟩ acts = some s) :
    call.Inv metadataBatches A J late d₀ s :=
  Machine.run_invariant_of_guarded (call.step metadataBatches A J)
    (fun _ _ _ hinv hok hstep => inv_step hA hcall (links_of_not_occupied hempty) hinv hok hstep) (inv_start hempty)
    hguard hrun

/-- Every crash leaves no configuration, or one that can be loaded with its table. -/
theorem loads_of_crash (hJ : J.Lawful) (hempty : ¬ call.Occupied d₀) (h : call.Inv metadataBatches A J late d₀ s)
    {left : FileTree} (hcrash : s.disk.Crash left) (hconfig : left (call.path .config) ≠ none) :
    call.Loads metadataBatches A J left := by
  have hleftConfig := hcrash _ h.settled.config
  have hleftMetadata := hcrash _ h.settled.metadata
  obtain ⟨bytes, text, htext, hbytes, config, hdump, hcaches, schema, batches, hread, hcount, hexported⟩ :=
    h.settled.complete (by rwa [hleftConfig] at hconfig)
  have hreadText : left.read (call.path .config) = some text := by
    rw [FileTree.read, hleftConfig, show s.disk.tree (call.path .config) = some (.file text) from htext]
  have hreadBytes : left.read ((call.path .config).dropLast ++ [metadataName]) = some bytes := by
    have hpath : (call.path .config).dropLast ++ [metadataName] = call.path .metadata := by
      simp [path, DumpTarget.name]
    rw [hpath, FileTree.read, hleftMetadata, show s.disk.tree (call.path .metadata) = some (.file bytes) from hbytes]
  -- directories are not marked, and none of the names was one
  have hdirs : config.CachesExist left := by
    intro path hpath
    have hdir : s.disk.tree path = some .dir := by
      rw [h.framed.frame path, hcaches path hpath]
      intro target heq
      refine hempty ⟨target, .inl ?_⟩
      rw [← heq, hcaches path hpath]
      exact Option.some_ne_none _
    rw [hcrash path, hdir]
    intro hmem
    obtain ⟨content, hfile⟩ := s.disk.unsynced_file path hmem
    rw [hdir] at hfile
    cases hfile
  refine ⟨config, schema, batches, ?_, ?_, hcount, hexported⟩
  · simp only [loadConfiguration, hreadText, hJ config text hdump, bind, Except.bind, if_pos hdirs]
  · simp only [loadMetadata, hreadText, reduceCtorEq, if_false, hreadBytes, hread, bind, Except.bind, hcount, ne_eq,
      not_true_eq_false]

variable (metadataBatches A J) in
/-- A call that is not refused can be interrupted at once, and then removes all four names. -/
theorem exists_run_cleaned (h : ¬ call.Refused d₀) : ∃ acts s,
    Machine.Guarded (call.step metadataBatches A J) ReturnSucceeds ⟨d₀, .checking⟩ acts ∧
      Machine.run (call.step metadataBatches A J) ⟨d₀, .checking⟩ acts = some s ∧
      ∀ target, s.disk.links (call.path target) = none := by
  have hany : ¬ (dumpTargets.any fun target => d₀.pathExists (call.path target)) = true := by
    intro hany
    obtain ⟨target, -, htarget⟩ := List.any_eq_true.mp hany
    exact h ⟨target, htarget⟩
  have hcheck : call.step metadataBatches A J ⟨d₀, .checking⟩ .done = some ⟨d₀, .exporting⟩ := by
    simp only [step, effect, if_neg hany, Option.map_some]
  refine ⟨.done :: .fails .nothing :: List.replicate 4 .done,
    ⟨(((d₀.unlink (call.path .config)).unlink (call.path .metadata)).unlink (call.path .pendingConfig)).unlink
      (call.path .pendingMetadata), .cleaning []⟩, ⟨fun _ => rfl, fun s' hs' => ?_⟩, ?_, ?_⟩
  · obtain rfl : ⟨d₀, .exporting⟩ = s' := Option.some.inj (hcheck.symm.trans hs')
    refine ⟨(fun hphase => nomatch hphase), fun s' _ => Machine.guarded_of_forall _ s' ?_⟩
    intro s a ha _
    exact List.eq_of_mem_replicate ha
  · rw [Machine.run_cons_of_step _ _ hcheck]
    rfl
  · intro target
    cases target <;> simp [CrashDisk.unlink]

theorem raised_of_returning (hA : A.Lawful) (hcall : call.Ready) (hempty : ¬ call.Occupied d₀) {acts : List DumpAct}
    {left : Left} (hrun : Machine.run (call.step metadataBatches A J) ⟨d₀, .checking⟩ acts = some s)
    (hphase : s.phase = .returning) (hstep : call.step metadataBatches A J s (.fails left) = some s') :
    s'.phase = .raised ∧ s'.disk.tree ≠ d₀.tree := by
  have hinv : call.Inv metadataBatches A J True d₀ s :=
    inv_run hA hcall hempty (Machine.guarded_of_forall _ _ fun _ _ _ => .inl trivial) hrun
  obtain ⟨disk, phase⟩ := s
  simp only at hphase
  subst hphase
  obtain ⟨bytes, text, hcontents, -⟩ := hinv.sound
  have hraised : s' = ⟨disk, .raised⟩ := by
    cases left with
    | nothing =>
        cases hstep
        rfl
    | part bytes => cases hstep
    | everything =>
        simp only [step, handler, leaves, effect] at hstep
        split_ifs at hstep
        · cases hstep
          rfl
        · cases hstep
  rw [hraised]
  refine ⟨rfl, fun htree => hempty ⟨.config, .inl ?_⟩⟩
  have hconfig : disk.tree (call.path .config) = some (.file text) := congrFun hcontents .config
  rw [← htree, hconfig]
  exact Option.some_ne_none _

theorem ready_of_load (R : RandLib) {loadCaches : List Path → CacheResult (List LoadedCache)} {paths : List Path}
    {seed : BitVec 64} {prefetchSize : ℕ} {numWorkers : Positive} {shuffle : Bool} {s₀ : MutableDatasetState}
    {ops : List Dataset.Op} (hload : Dataset.load loadCaches paths seed prefetchSize numWorkers shuffle =
      .ok (call.dataset, s₀)) (hops : ∀ op ∈ ops, Dataset.Op.Uniform A op)
    (hstate : call.dataset.applyAll R A s₀ ops = call.state) : call.Ready where
  valid := (Dataset.valid_of_load hload).1
  active := hstate ▸ Dataset.activeAccepted_applyAll R ops hops (Dataset.activeAccepted_of_load hload)

end DumpCall

open DumpCall in
/-- **Configuration export is atomic** unless one of its names is a symbolic link that the check does not see.  Whatever
was done with a loaded dataset, in every run of the export whose last step does not raise: where one of the names is
taken nothing is changed; when the call has raised, the disk is as before; and whatever a crash leaves, a configuration
that is there can be loaded, together with the complete table of as many rows as it says.  This holds exactly where the
check refuses or none of the names is a link.  An exception after the publication leaves the export. -/
theorem dump_configuration_atomic (R : RandLib) {A : ArrowLib} (hA : A.Lawful) {J : ConfigJson} (hJ : J.Lawful)
    (metadataBatches : LoadedCache → CacheResult (List (CacheResult RecordBatch)))
    (loadCaches : List Path → CacheResult (List LoadedCache)) (paths : List Path) (seed : BitVec 64) (prefetchSize : ℕ)
    (numWorkers : Positive) (shuffle : Bool) (s₀ : MutableDatasetState) (ops : List Dataset.Op) (call : DumpCall)
    (hload : Dataset.load loadCaches paths seed prefetchSize numWorkers shuffle = .ok (call.dataset, s₀))
    (hops : ∀ op ∈ ops, Dataset.Op.Uniform A op) (hstate : call.dataset.applyAll R A s₀ ops = call.state) (d₀ : CrashDisk) :
    ((∀ acts s, Machine.Guarded (call.step metadataBatches A J) ReturnSucceeds ⟨d₀, .checking⟩ acts →
        Machine.run (call.step metadataBatches A J) ⟨d₀, .checking⟩ acts = some s →
        call.Atomic metadataBatches A J d₀ s) ↔
      (call.Refused d₀ ∨ ∀ target, d₀.links (call.path target) = none)) ∧
    (¬ call.Occupied d₀ → ∀ acts s left s',
      Machine.run (call.step metadataBatches A J) ⟨d₀, .checking⟩ acts = some s → s.phase = .returning →
      call.step metadataBatches A J s (.fails left) = some s' → s'.phase = .raised ∧ s'.disk.tree ≠ d₀.tree) := by
  have hcall : call.Ready := ready_of_load R hload hops hstate
  refine ⟨⟨fun hatomic => ?_, fun hcondition acts s hguard hrun => ?_⟩, fun hempty acts s left s' hrun hphase hstep =>
    raised_of_returning hA hcall hempty hrun hphase hstep⟩
  · by_contra hcondition
    rw [not_or, not_forall] at hcondition
    obtain ⟨hrefused, target, hlink⟩ := hcondition
    obtain ⟨acts, s, hguard, hrun, hcleaned⟩ := exists_run_cleaned metadataBatches A J hrefused
    have hdisk := (hatomic acts s hguard hrun).occupied ⟨target, .inr hlink⟩
    exact hlink (hdisk ▸ hcleaned target)
  · by_cases hoccupied : call.Occupied d₀
    · have hrefused : call.Refused d₀ := hcondition.elim id fun hfree => (refused_iff hfree).mpr hoccupied
      obtain ⟨hdisk, -⟩ := disk_of_refused hrefused hrun
      exact ⟨fun _ => hdisk, fun _ => by rw [hdisk]; exact ⟨rfl, rfl⟩, fun hempty => absurd hoccupied hempty⟩
    · have hinv : call.Inv metadataBatches A J False d₀ s :=
        inv_run hA hcall hoccupied (by simpa only [false_or] using hguard) hrun
      refine ⟨fun h => absurd h hoccupied, fun hphase => ⟨?_, hinv.framed.links⟩, fun hempty left hcrash hconfig =>
        loads_of_crash hJ hempty hinv hcrash hconfig⟩
      have hsound := hinv.sound
      rw [hphase] at hsound
      refine hinv.framed.tree_eq (fun target => ?_) (hsound.resolve_right id)
      by_contra hne
      exact hoccupied ⟨target, .inl hne⟩

namespace TwoRows

open Dataset

/-- The view of two rows, exported to the root. -/
def call : DumpCall where
  dataset := OneRow.dataset
  state := OneRow.dataset.applyAll RandLib.first OneRow.noArrow OneRow.start [.updateArrow TwoRows.table]
  calls := 3
  cachePaths := [["c"]]
  readerConfig := ⟨0, ⟨1, Nat.one_pos⟩, false, false⟩
  runtimeNumWorkers := 1
  directory := []

/-- A disk with the root and the directory of a cache. -/
def cacheDisk : CrashDisk where
  tree path := if path = [] ∨ path = ["c"] then some .dir else none
  links _ := none
  unsynced := []
  links_free _ h := absurd rfl h
  unsynced_file _ h := absurd h List.not_mem_nil

/-- The same with a link to nothing under the name of the configuration. -/
def linkedDisk : CrashDisk where
  tree := cacheDisk.tree
  links path := if path = ["dataset.json"] then some ["gone"] else none
  unsynced := []
  links_free path h := by
    by_cases hpath : path = ["dataset.json"]
    · subst hpath
      rfl
    · rw [if_neg hpath] at h
      exact absurd rfl h
  unsynced_file _ h := absurd h List.not_mem_nil

/-- The configuration of the call. -/
def config : DatasetConfiguration :=
  ⟨[["c"]], by decide, ⟨0, ⟨1, Nat.one_pos⟩, false, false⟩, ⟨1, Nat.one_pos⟩, ⟨2, Nat.two_pos⟩, ⟨2, Nat.two_pos⟩⟩

/-- What `model_dump_json` writes for it. -/
def configText : Bytes :=
  (Json.obj [
    ("version", .num (.posInt 2)),
    ("cache_paths", .arr [.str "/c"]),
    ("reader_config", .obj [
      ("seed", .num (.posInt 0)),
      ("prefetch_size", .num (.posInt 1)),
      ("shuffle", .bool false),
      ("validate_cache", .bool false)]),
    ("num_workers", .num (.posInt 1)),
    ("epoch_len", .num (.posInt 2)),
    ("row_count", .num (.posInt 2)),
    ("metadata_file", .str "metadata.arrow")]).text fun _ => ""

/-- A library on this configuration. -/
def json : ConfigJson where
  modelDumpJson c := if c = config then .ok configText else .error "unexpected configuration"
  modelValidateJson text := if text = configText then .ok config else .error "unexpected text"

theorem lawful_json : json.Lawful := by
  intro c text h
  simp only [json] at h ⊢
  split_ifs at h with hknown
  cases h
  rw [hknown]
  exact if_pos rfl

end TwoRows

open TwoRows DumpCall in
/-- An interrupted export removes a link that was there before. -/
theorem dangling_link_removed : ∃ acts s,
    Machine.Guarded (call.step (fun _ => .ok []) arrow json) ReturnSucceeds ⟨linkedDisk, .checking⟩ acts ∧
      Machine.run (call.step (fun _ => .ok []) arrow json) ⟨linkedDisk, .checking⟩ acts = some s ∧
      s.phase = .raised ∧ linkedDisk.links (call.path .config) = some ["gone"] ∧
      s.disk.links (call.path .config) = none ∧ ¬ call.Atomic (fun _ => .ok []) arrow json linkedDisk s := by
  have hcheck : call.step (fun _ => .ok []) arrow json ⟨linkedDisk, .checking⟩ .done =
      some ⟨linkedDisk, .exporting⟩ := rfl
  refine ⟨.done :: .fails .nothing :: List.replicate 5 .done,
    ⟨(((linkedDisk.unlink (call.path .config)).unlink (call.path .metadata)).unlink (call.path .pendingConfig)).unlink
      (call.path .pendingMetadata), .raised⟩, ⟨fun _ => rfl, fun s' hs' => ?_⟩, rfl, rfl, rfl, rfl, fun hatomic => ?_⟩
  · obtain rfl : ⟨linkedDisk, .exporting⟩ = s' := Option.some.inj (hcheck.symm.trans hs')
    refine ⟨(fun hphase => nomatch hphase), fun s' _ => Machine.guarded_of_forall _ s' ?_⟩
    intro s a ha _
    exact List.eq_of_mem_replicate ha
  · have hlinks := congrFun (hatomic.raised rfl).2 (call.path .config)
    cases hlinks

open TwoRows DumpCall Dataset in
/-- The export of the two rows ends, and can be loaded. -/
theorem dump_configuration_atomic_two_rows : ∃ s,
    Machine.run (call.step (fun _ => .ok []) arrow json) ⟨cacheDisk, .checking⟩ (List.replicate 9 .done) = some s ∧
      s.phase = .returned ∧ call.Loads (fun _ => .ok []) arrow json s.disk.tree := by
  have hops : ∀ op ∈ [Dataset.Op.updateArrow TwoRows.table], op.Uniform arrow := by
    intro op hop
    rw [List.mem_singleton.mp hop]
    exact uniform_batches
  have hwrites : arrow.writeFile schema [batch.gather [1, 2]] = .ok [1] := if_pos ⟨rfl, rfl⟩
  have hexport : call.dataset.exportMetadataArrow (fun _ => .ok []) arrow call.state call.calls
      (call.path .pendingMetadata) cacheDisk.tree =
      some (.ok (cacheDisk.tree.write (call.path .pendingMetadata) [1], 2)) := by
    show some ((createFile (call.path .pendingMetadata) (arrowResult (arrow.writeFile schema [batch.gather [1, 2]]))
      cacheDisk.tree).map fun fs => (fs, 2)) = _
    rw [hwrites]
    rfl
  have hcheck : call.step (fun _ => .ok []) arrow json ⟨cacheDisk, .checking⟩ .done =
      some ⟨cacheDisk, .exporting⟩ := rfl
  have hrun : ∃ s, Machine.run (call.step (fun _ => .ok []) arrow json) ⟨cacheDisk, .checking⟩
      (List.replicate 9 .done) = some s ∧ s.phase = .returned ∧ s.disk.tree (call.path .config) ≠ none := by
    obtain ⟨exported, hstep, hrest⟩ : ∃ exported, call.step (fun _ => .ok []) arrow json ⟨cacheDisk, .exporting⟩ .done =
        some exported ∧ ∃ s, Machine.run (call.step (fun _ => .ok []) arrow json) exported (List.replicate 7 .done) =
          some s ∧ s.phase = .returned ∧ s.disk.tree (call.path .config) ≠ none := by
      simp only [step, effect, exportMetadata, hexport]
      exact ⟨_, rfl, _, rfl, rfl, (fun h => nomatch h)⟩
    rw [List.replicate_succ, Machine.run_cons_of_step _ _ hcheck, List.replicate_succ,
      Machine.run_cons_of_step _ _ hstep]
    exact hrest
  obtain ⟨s, hrun, hphase, hconfig⟩ := hrun
  have hatomic := ((dump_configuration_atomic RandLib.first lawful_arrow lawful_json (fun _ => .ok [])
    (fun _ => .ok [OneRow.cache]) [["c"]] 0 1 ⟨1, by decide⟩ false OneRow.start [.updateArrow TwoRows.table] call
    OneRow.load_eq hops rfl cacheDisk).1.mpr (.inr fun _ => rfl)) _ s
    (Machine.guarded_of_forall _ _ fun _ a ha _ => List.eq_of_mem_replicate ha) hrun
  have hempty : ¬ call.Occupied cacheDisk := by
    rintro ⟨target, htarget⟩
    cases target <;> exact htarget.elim (fun h => h rfl) fun h => h rfl
  exact ⟨s, hrun, hphase, hatomic.crash hempty _ (fun _ _ => rfl) hconfig⟩

end DatasetRt
