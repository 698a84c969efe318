import DatasetRt.ConfigurationExport
import DatasetRt.MigratedDataset

/-! # Datasets restored from their configuration

`from_config` (`dataset.py`) makes a dataset of an exported configuration and its table.  `exported_dataset_restored`
follows an export through any interruption and crash: where a configuration is left, it is that of the exported dataset
(`Own`), its caches load as before, and the restored dataset has the exported population, weights and epoch length.

Its cursors are fresh.  Two states with the same population and the same cursors are `Alike`: whatever is done with both
of them, they make the same plans (`alike_recordAll`), so that the restored dataset gives the stream that the exported
one would give from the beginning.  An original population becomes a table on the way; its rows are the same, but its
weighted draws are not its uniform ones. -/

namespace DatasetRt

/-! ### States that make the same plans -/

/-- Plans of the same length with the same rows. -/
def EpochPlan.Alike {R : RandLib} (p p' : EpochPlan R) : Prop := p'.len = p.len ∧ ∀ k, p'.planned k = p.planned k

/-- Populations with the same rows and weights; without shuffling a table of all samples is the original population. -/
inductive SameActive (d : Dataset) : ActiveMetadata → ActiveMetadata → Prop
  | full : SameActive d .full .full
  | table {t t' : ActiveMetadataTable} : t'.physicalIndices = t.physicalIndices → t'.weights = t.weights →
      SameActive d (.table t) (.table t')
  | original {t : ActiveMetadataTable} : d.shuffle = false → t.physicalIndices = List.range d.totalSamples →
      SameActive d .full (.table t)

structure MutableDatasetState.Alike (d : Dataset) (s s' : MutableDatasetState) : Prop where
  active : SameActive d s.active s'.active
  epochLen : s'.epochLen = s.epochLen
  sequentialOffset : s'.sequentialOffset = s.sequentialOffset
  shuffledDrawOffset : s'.shuffledDrawOffset = s.shuffledDrawOffset

theorem SameActive.activeLen_eq {d : Dataset} {active active' : ActiveMetadata} (h : SameActive d active active') :
    d.activeLen active' = d.activeLen active := by
  cases h with
  | full => rfl
  | table hindices _ => simp only [Dataset.activeLen, hindices]
  | original _ hindices => simp only [Dataset.activeLen, hindices, List.length_range]

namespace Dataset

variable {R : RandLib} {A : ArrowLib} {d : Dataset} {s s' : MutableDatasetState}

theorem sequential_planned_of_le {len start populationLen : ℕ} {indices : Option (List ℕ)} {k : ℕ} (hk : len ≤ k) :
    (EpochPlan.sequential len start populationLen indices : EpochPlan R).planned k = none := by
  rw [EpochPlan.planned, sequential_after]
  simp only [EpochPlan.nextPhysicalIndex, if_pos hk]

/-- A table of all samples is read as the samples themselves. -/
theorem alike_sequential_range {len start total : ℕ} (hstart : start < total) (htotal : total < wordSize) :
    (EpochPlan.sequential len start total none : EpochPlan R).Alike
      (.sequential len start total (some (List.range total))) := by
  refine ⟨rfl, fun k => ?_⟩
  rcases Nat.lt_or_ge k len with hk | hk
  · rw [sequential_planned hstart htotal hk, sequential_planned hstart htotal hk]
    have hrow : (start + k) % total < total := Nat.mod_lt _ (by omega)
    simp only [EpochPlan.physical, List.getElem?_range hrow]
  · rw [sequential_planned_of_le hk, sequential_planned_of_le hk]

/-- What a call of `epoch_plan` did, on either state. -/
def PlansAlike (d : Dataset) (p p' : MutableDatasetState × CacheResult (EpochPlan R)) : Prop :=
  p.1.Alike d p'.1 ∧
    ((∃ error, p.2 = .error error ∧ p'.2 = .error error) ∨
      ∃ plan plan', p.2 = .ok plan ∧ p'.2 = .ok plan' ∧ plan.Alike plan')

theorem alike_epochPlan (hd : d.Valid) (hs : s.Inv d) (h : s.Alike d s') :
    PlansAlike d (d.epochPlan R s) (d.epochPlan R s') := by
  obtain ⟨active, original, epochLen, offset, draw⟩ := s
  obtain ⟨active', original', epochLen', offset', draw'⟩ := s'
  obtain ⟨hactive, rfl, rfl, rfl⟩ := h
  have hlen := hactive.activeLen_eq
  have hcursor := hs.cursor
  simp only at hactive hlen hcursor
  unfold epochPlan
  cases hshuffle : d.shuffle with
  | false =>
      simp only [Bool.false_eq_true, if_false, hlen]
      cases advanceCyclicOffset offset' epochLen'.1 (d.activeLen active) with
      | error error => exact ⟨⟨hactive, rfl, rfl, rfl⟩, .inl ⟨error, rfl, rfl⟩⟩
      | ok next =>
          refine ⟨⟨hactive, rfl, rfl, rfl⟩, .inr ⟨_, _, rfl, rfl, ?_⟩⟩
          cases hactive with
          | full => exact ⟨rfl, fun _ => rfl⟩
          | table hindices _ =>
              simp only [activePhysicalIndices, hindices]
              exact ⟨rfl, fun _ => rfl⟩
          | original _ hindices =>
              simp only [activePhysicalIndices, hindices]
              exact alike_sequential_range hcursor hd.pop.total_lt
  | true =>
      simp only [if_true]
      cases advanceDrawOffset draw' epochLen'.1 with
      | error error => exact ⟨⟨hactive, rfl, rfl, rfl⟩, .inl ⟨error, rfl, rfl⟩⟩
      | ok next =>
          have hsampler : d.sampler R ⟨active', original', epochLen', offset', draw'⟩ =
              d.sampler R ⟨active, original, epochLen', offset', draw'⟩ := by
            cases hactive with
            | full => rfl
            | table _ hweights => simp only [sampler, hweights]
            | original hno _ => cases hshuffle.symm.trans hno
          simp only [hsampler]
          cases d.sampler R ⟨active, original, epochLen', offset', draw'⟩ with
          | error error => exact ⟨⟨hactive, rfl, rfl, rfl⟩, .inl ⟨error, rfl, rfl⟩⟩
          | ok sampler =>
              refine ⟨⟨hactive, rfl, rfl, rfl⟩, .inr ⟨_, _, rfl, rfl, ?_⟩⟩
              cases hactive with
              | full => exact ⟨rfl, fun _ => rfl⟩
              | table hindices _ =>
                  simp only [activePhysicalIndices, hindices]
                  exact ⟨rfl, fun _ => rfl⟩
              | original hno _ => cases hshuffle.symm.trans hno

/-- Recordings that were alike so far. -/
def RecordingsAlike (d : Dataset) (r r' : Recording R) : Prop :=
  r.1.Inv d ∧ r.1.Alike d r'.1 ∧ List.Forall₂ EpochPlan.Alike r.2 r'.2

theorem alike_replaceWith {extracted : CacheResult ActiveMetadataTable} {windows windows' : List (EpochPlan R)}
    (h : s.Alike d s') (hwindows : List.Forall₂ EpochPlan.Alike windows windows') :
    (recordUpdate R (replaceWith extracted s) windows).1.Alike d
        (recordUpdate R (replaceWith extracted s') windows').1 ∧
      List.Forall₂ EpochPlan.Alike (recordUpdate R (replaceWith extracted s) windows).2
        (recordUpdate R (replaceWith extracted s') windows').2 := by
  unfold replaceWith
  cases extracted with
  | error error => exact ⟨h, hwindows⟩
  | ok active =>
      simp only [replaceActive]
      cases epochLenNew active.physicalIndices.length with
      | error error => exact ⟨h, hwindows⟩
      | ok epochLen => exact ⟨⟨.table rfl rfl, rfl, rfl, rfl⟩, .nil⟩

/-- **One operation** on both states. -/
theorem alike_record (hR : R.Lawful) (hd : d.Valid) {r r' : Recording R} (h : RecordingsAlike d r r') (op : Op) :
    RecordingsAlike d (d.record R A r op) (d.record R A r' op) := by
  obtain ⟨hinv, halike, hwindows⟩ := h
  refine ⟨by rw [record_fst]; exact inv_apply hR hd A op hinv, ?_⟩
  cases op with
  | setEpochLen epochLen =>
      simp only [record, setEpochLen]
      cases epochLenNew epochLen with
      | error error => exact ⟨halike, hwindows⟩
      | ok epochLen => exact ⟨⟨halike.active, rfl, halike.sequentialOffset, halike.shuffledDrawOffset⟩, hwindows⟩
  | updateArrow table => exact alike_replaceWith halike hwindows
  | updateIpc ipc => exact alike_replaceWith halike hwindows
  | epochPlan =>
      obtain ⟨hstates, hplans⟩ := alike_epochPlan (R := R) hd hinv halike
      simp only [record]
      rcases hone : d.epochPlan R r.1 with ⟨next, result⟩
      rcases hother : d.epochPlan R r'.1 with ⟨next', result'⟩
      rw [hone, hother] at hstates hplans
      rcases hplans with ⟨error, rfl, rfl⟩ | ⟨plan, plan', rfl, rfl, hplan⟩
      · exact ⟨hstates, hwindows⟩
      · exact ⟨hstates, List.rel_append hwindows (.cons hplan .nil)⟩

/-- **Run lemma.**  States that are alike make the same plans, whatever is done with them. -/
theorem alike_recordAll (hR : R.Lawful) (hd : d.Valid) (hs : s.Inv d) (h : s.Alike d s') (ops : List Op) :
    List.Forall₂ EpochPlan.Alike (d.recordAll R A s ops).2 (d.recordAll R A s' ops).2 := by
  have hall : ∀ (ops : List Op) (r r' : Recording R), RecordingsAlike d r r' →
      RecordingsAlike d (ops.foldl (d.record R A) r) (ops.foldl (d.record R A) r') := by
    intro ops
    induction ops with
    | nil => exact fun r r' hr => hr
    | cons op ops ih => exact fun r r' hr => ih _ _ (alike_record hR hd hr op)
  exact (hall ops (s, []) (s', []) ⟨hs, h, .nil⟩).2.2

end Dataset

/-! ### The configuration that is published -/

namespace DumpCall

variable {metadataBatches : LoadedCache → CacheResult (List (CacheResult RecordBatch))} {A : ArrowLib} {J : ConfigJson}
variable {call : DumpCall} {d₀ disk disk' : CrashDisk} {phase phase' : DumpPhase} {s s' : DumpState} {late : Prop}

/-- The configuration of the dataset that is exported. -/
structure Describes (call : DumpCall) (config : DatasetConfiguration) : Prop where
  cachePaths : config.cachePaths = call.cachePaths
  readerConfig : config.readerConfig = call.readerConfig
  numWorkers : config.numWorkers.1 = call.runtimeNumWorkers
  epochLen : config.epochLen = call.state.epochLen

/-- The file under a name, if there is one, holds that configuration. -/
def OwnText (call : DumpCall) (J : ConfigJson) (disk : CrashDisk) (target : DumpTarget) : Prop :=
  ∀ text, call.contents disk target = some (.file text) →
    ∃ config, J.modelDumpJson config = .ok text ∧ call.Describes config

/-- What the phases before the publication know of the configuration. -/
def Prepared (call : DumpCall) (J : ConfigJson) (disk : CrashDisk) : DumpPhase → Prop
  | .syncingMetadata config | .writingConfig config => call.Describes config
  | .syncingConfig | .publishingMetadata | .publishingConfig => call.OwnText J disk .pendingConfig
  | _ => True

structure Own (call : DumpCall) (J : ConfigJson) (s : DumpState) : Prop where
  published : call.OwnText J s.disk .config
  prepared : call.Prepared J s.disk s.phase

theorem describes_of_configuration {rowCount : ℕ} {config : DatasetConfiguration}
    (h : call.configuration disk rowCount = some config) : call.Describes config := by
  unfold configuration DatasetConfiguration.new at h
  split_ifs at h
  simp only at h
  split_ifs at h
  cases h
  exact ⟨rfl, rfl, rfl, rfl⟩

theorem OwnText.of_eq {target target' : DumpTarget} (h : call.OwnText J disk target)
    (hsame : call.contents disk' target' = call.contents disk target) : call.OwnText J disk' target' := by
  intro text htext
  exact h text (hsame ▸ htext)

theorem ownText_of_none {target : DumpTarget} (h : call.contents disk target = none) : call.OwnText J disk target := by
  intro text htext
  rw [h] at htext
  cases htext

theorem contents_of_tree (h : disk'.tree = disk.tree) : call.contents disk' = call.contents disk := by
  unfold contents
  rw [h]

theorem own_effect (hfree : ∀ target, disk.links (call.path target) = none) (h : call.Own J ⟨disk, phase⟩)
    (heffect : call.effect metadataBatches A J disk phase = some (disk', phase')) : call.Own J ⟨disk', phase'⟩ := by
  obtain ⟨hpublished, hprepared⟩ := h
  simp only at hpublished hprepared
  cases phase with
  | checking =>
      rw [effect] at heffect
      split_ifs at heffect
      cases heffect
      exact ⟨hpublished, trivial⟩
  | exporting =>
      obtain ⟨⟨exported, rowCount⟩, hexport, hpair⟩ := Option.map_eq_some_iff.mp heffect
      cases hpair
      obtain ⟨fs, bytes, hlink, -, -, hsync⟩ := exportMetadata_eq_some hexport
      obtain ⟨htree, -, -⟩ := CrashDisk.sync_eq_some (by exact hlink) hsync
      refine ⟨hpublished.of_eq ?_, trivial⟩
      rw [contents_of_tree htree, contents_put]
      exact Function.update_of_ne (by decide) _ _
  | configuring rowCount =>
      obtain ⟨config, hconfig, hpair⟩ := Option.map_eq_some_iff.mp heffect
      cases hpair
      exact ⟨hpublished, describes_of_configuration hconfig⟩
  | syncingMetadata config =>
      obtain ⟨synced, hsync, hpair⟩ := Option.map_eq_some_iff.mp heffect
      cases hpair
      obtain ⟨htree, -, -⟩ := CrashDisk.sync_eq_some (hfree _) hsync
      exact ⟨hpublished.of_eq (by rw [contents_of_tree htree]), hprepared⟩
  | writingConfig config =>
      rw [effect] at heffect
      cases hdump : J.modelDumpJson config with
      | error message =>
          rw [hdump] at heffect
          cases heffect
      | ok text =>
          rw [hdump] at heffect
          obtain ⟨written, hwrite, hpair⟩ := Option.map_eq_some_iff.mp heffect
          cases hpair
          obtain rfl := CrashDisk.writeText_eq_some (hfree _) hwrite
          refine ⟨hpublished.of_eq ?_, fun other hother => ?_⟩
          · rw [contents_put]
            exact Function.update_of_ne (by decide) _ _
          · rw [contents_put, Function.update_self] at hother
            cases hother
            exact ⟨config, hdump, hprepared⟩
  | syncingConfig =>
      obtain ⟨synced, hsync, hpair⟩ := Option.map_eq_some_iff.mp heffect
      cases hpair
      obtain ⟨htree, -, -⟩ := CrashDisk.sync_eq_some (hfree _) hsync
      have hsame : call.contents disk' = call.contents disk := contents_of_tree htree
      exact ⟨hpublished.of_eq (by rw [hsame]), hprepared.of_eq (by rw [hsame])⟩
  | publishingMetadata =>
      obtain ⟨moved, hmove, hpair⟩ := Option.map_eq_some_iff.mp heffect
      cases hpair
      obtain rfl := CrashDisk.replace_eq_some hmove
      refine ⟨hpublished.of_eq ?_, hprepared.of_eq ?_⟩
      · rw [contents_move, Function.update_of_ne (by decide), Function.update_of_ne (by decide)]
      · rw [contents_move, Function.update_of_ne (by decide), Function.update_of_ne (by decide)]
  | publishingConfig =>
      obtain ⟨moved, hmove, hpair⟩ := Option.map_eq_some_iff.mp heffect
      cases hpair
      obtain rfl := CrashDisk.replace_eq_some hmove
      refine ⟨hprepared.of_eq ?_, trivial⟩
      rw [contents_move, Function.update_self]
  | returning =>
      rw [effect] at heffect
      split_ifs at heffect
      cases heffect
      exact ⟨hpublished, trivial⟩
  | cleaning targets =>
      cases targets with
      | nil =>
          cases heffect
          exact ⟨hpublished, trivial⟩
      | cons target rest =>
          cases heffect
          refine ⟨?_, trivial⟩
          by_cases htarget : target = .config
          · subst htarget
            exact ownText_of_none (by rw [contents_unlink, Function.update_self])
          · refine hpublished.of_eq ?_
            rw [contents_unlink, Function.update_of_ne (Ne.symm htarget)]
  | returned => cases heffect
  | raised => cases heffect

/-- **Step lemma.** -/
theorem own_step (hfree : ∀ target, s.disk.links (call.path target) = none) {a : DumpAct} (h : call.Own J s)
    (hstep : call.step metadataBatches A J s a = some s') : call.Own J s' := by
  cases a with
  | done =>
      obtain ⟨⟨disk', phase'⟩, heffect, rfl⟩ := Option.map_eq_some_iff.mp hstep
      exact own_effect hfree h heffect
  | fails left =>
      obtain ⟨phase', hhandler, hstep⟩ := Option.bind_eq_some_iff.mp hstep
      obtain ⟨disk', hleaves, hstep⟩ := Option.bind_eq_some_iff.mp hstep
      cases hstep
      have hphase : call.Prepared J disk' phase' := by
        rcases handler_cases hhandler with rfl | ⟨rfl, -⟩ <;> trivial
      refine ⟨?_, hphase⟩
      cases left with
      | nothing =>
          cases hleaves
          exact h.published
      | part bytes =>
          -- the two files that can be cut short have other names
          simp only [leaves, partialEffect] at hleaves
          split at hleaves
          · obtain ⟨hlink, -, rfl⟩ := CrashDisk.createNew_eq_some hleaves
            refine h.published.of_eq ?_
            rw [contents_put]
            exact Function.update_of_ne (by decide) _ _
          · obtain rfl := CrashDisk.writeText_eq_some (hfree _) hleaves
            refine h.published.of_eq ?_
            rw [contents_put]
            exact Function.update_of_ne (by decide) _ _
          · cases hleaves
      | everything =>
          obtain ⟨⟨after, next⟩, heffect, rfl⟩ := Option.map_eq_some_iff.mp hleaves
          exact (own_effect hfree h heffect).published

/-- **Run lemma.**  No exception and no interruption publishes another configuration. -/
theorem own_run (hA : A.Lawful) (hcall : call.Ready) (hempty : ¬ call.Occupied d₀) {acts : List DumpAct}
    (hrun : Machine.run (call.step metadataBatches A J) ⟨d₀, .checking⟩ acts = some s) :
    call.Inv metadataBatches A J True d₀ s ∧ call.Own J s := by
  refine Machine.run_invariant (call.step metadataBatches A J)
    (I := fun s => call.Inv metadataBatches A J True d₀ s ∧ call.Own J s) ?_ ⟨inv_start hempty, ?_⟩ hrun
  · rintro s a s' ⟨hinv, hown⟩ hstep
    have hlinks : ∀ target, s.disk.links (call.path target) = none := fun target => by
      rw [hinv.framed.links]
      exact links_of_not_occupied hempty target
    exact ⟨inv_step hA hcall (links_of_not_occupied hempty) hinv (.inl trivial) hstep, own_step hlinks hown hstep⟩
  · refine ⟨ownText_of_none ?_, trivial⟩
    by_contra hne
    exact hempty ⟨.config, .inl hne⟩

end DumpCall

/-! ### The dataset of a configuration -/

/-- What `from_config` can raise. -/
inductive RestoreError where
  | validation (message : String)
  /-- The seed is no `u64`. -/
  | overflow
  | native (error : CacheError)
deriving DecidableEq, Repr

/-- A Python integer as the native seed. -/
def nativeSeed (seed : ℤ) : Except RestoreError (BitVec 64) :=
  if 0 ≤ seed ∧ seed < wordSize then .ok (BitVec.ofInt 64 seed) else .error .overflow

namespace CachedDataset

/-- `CachedDataset._load`, on a runtime of so many workers. -/
def load (L : StorageLib) (tree : FileTree) (paths : List Path) (readerConfig : ReaderConfig) (numWorkers : Positive) :
    Except RestoreError (Dataset × MutableDatasetState) := do
  let seed ← nativeSeed readerConfig.seed
  (Dataset.load (fun paths => loadedInOrder L tree paths readerConfig.validateCache) paths seed
    readerConfig.prefetchSize.1 numWorkers readerConfig.shuffle).mapError .native

/-- `CachedDataset._from_configuration`; the table comes with its selection. -/
def fromConfiguration (L : StorageLib) (tree : FileTree) (config : DatasetConfiguration)
    (table : Dataset.ImportedTable) : Except RestoreError (Dataset × MutableDatasetState) := do
  let (d, s) ← load L tree config.cachePaths config.readerConfig config.numWorkers
  let (s, updated) := d.updateMetadataArrow table s
  updated.mapError .native
  let (s, resized) := Dataset.setEpochLen config.epochLen.1 s
  resized.mapError .native
  .ok (d, s)

def fromConfig (L : StorageLib) (A : ArrowLib) (J : ConfigJson) (tree : FileTree) (path : Path) :
    Except RestoreError (Dataset × MutableDatasetState) := do
  let config ← (loadConfiguration J tree path).mapError .validation
  let (schema, batches) ← (loadMetadata A tree path config).mapError .validation
  fromConfiguration L tree config ⟨schema, batches, none⟩

end CachedDataset

theorem Dataset.updateMetadataArrow_ok {d : Dataset} {s₀ : MutableDatasetState} {table : Dataset.ImportedTable}
    {active : ActiveMetadataTable} (himport : (table.toArrow >>= extractMetadataArrow d.pop) = .ok active)
    (hpos : 0 < active.physicalIndices.length) :
    d.updateMetadataArrow table s₀ = (⟨.table active, none, ⟨_, hpos⟩, 0, 0⟩, .ok ()) := by
  unfold Dataset.updateMetadataArrow
  rw [himport]
  simp only [Dataset.replaceWith, Dataset.replaceActive, epochLenNew, Positive.new, dif_pos hpos]

theorem CachedDataset.fromConfiguration_ok {L : StorageLib} {tree : FileTree} {config : DatasetConfiguration} {d : Dataset}
    {s₀ : MutableDatasetState}
    (hload : CachedDataset.load L tree config.cachePaths config.readerConfig config.numWorkers = .ok (d, s₀))
    {table : Dataset.ImportedTable} {active : ActiveMetadataTable}
    (himport : (table.toArrow >>= extractMetadataArrow d.pop) = .ok active)
    (hpos : 0 < active.physicalIndices.length) :
    CachedDataset.fromConfiguration L tree config table = .ok (d, ⟨.table active, none, config.epochLen, 0, 0⟩) := by
  have hlen : epochLenNew config.epochLen.1 = .ok config.epochLen := by
    rw [epochLenNew, Positive.new, dif_pos config.epochLen.2]
  simp only [fromConfiguration, hload, bind, Except.bind, Dataset.updateMetadataArrow_ok himport hpos,
    Dataset.setEpochLen, hlen, Except.mapError]

/-! ### Loading where nothing was lost -/

section kept

variable {L : StorageLib} {fs fs' : FileTree}

/-- Everything that is there stays. -/
def KeepsFiles (fs fs' : FileTree) : Prop := ∀ p, fs p ≠ none → fs' p = fs p

theorem KeepsFiles.of_openFile (h : KeepsFiles fs fs') {p : Path} {bytes : Bytes} (hopen : openFile fs p = .ok bytes) :
    fs p = fs' p := by
  refine (h p fun hnone => ?_).symm
  rw [openFile, FileTree.read, hnone] at hopen
  cases hopen

theorem KeepsFiles.of_pathExists (h : KeepsFiles fs fs') {p : Path} (hexists : fs.pathExists p = true) :
    fs p = fs' p :=
  (h p (Option.isSome_iff_ne_none.mp hexists)).symm

theorem loadCache_kept (h : KeepsFiles fs fs') {path : Path} {validate : Bool} {position : ℕ} {cache : LoadedCache}
    (hload : loadCache L fs path validate position = .ok cache) :
    loadCache L fs' path validate position = .ok cache := by
  have hloaded := loadedFrom_of_loadCache hload
  have hmanifest : fs (path.join "manifest.json") = fs' (path.join "manifest.json") := by
    have hread := hloaded.manifest
    unfold readManifest at hread
    simp only at hread
    split_ifs at hread with hexists
    exact h.of_pathExists hexists
  have hfiles : Migration.SameFiles path cache.manifest fs fs' := by
    refine ⟨?_, ?_, fun shard hshard => ?_⟩
    · obtain ⟨bytes, hread, -⟩ := bind_eq_ok hloaded.index
      exact h.of_openFile hread
    · have hrows := hloaded.rows
      unfold loadRows at hrows
      simp only at hrows
      split_ifs at hrows with hvalidate hexists
      · obtain ⟨rows, hread, -⟩ := map_eq_ok hrows
        obtain ⟨bytes, hopen, -⟩ := bind_eq_ok hread
        exact h.of_openFile hopen
      · exact h.of_pathExists hexists
    · have hone := forM_eq_ok_iff.mp hloaded.shards shard hshard
      obtain ⟨bytes, hopen, -⟩ := bind_eq_ok hone
      exact h.of_openFile hopen
  have hread : readManifest L fs' path = .ok cache.manifest := by
    rw [← hloaded.manifest]
    unfold readManifest
    simp only [pathExists_congr hmanifest, openFile_congr hmanifest]
  exact Migration.loadCache_same hloaded (.refl _) hfiles hread hloaded.cacheId

theorem loadedInOrder_kept (h : KeepsFiles fs fs') {paths : List Path} {validate : Bool} {caches : List LoadedCache}
    (hload : loadedInOrder L fs paths validate = .ok caches) : loadedInOrder L fs' paths validate = .ok caches := by
  obtain ⟨hlength, hall⟩ := mapM_eq_ok_iff_getElem.mp hload
  exact mapM_eq_ok_iff_getElem.mpr ⟨hlength, fun i hi hi' => loadCache_kept h (hall i hi hi')⟩

theorem load_congr (loadCaches other : List Path → CacheResult (List LoadedCache)) {paths : List Path}
    (h : other paths = loadCaches paths) (seed : BitVec 64) (prefetchSize : ℕ) (numWorkers : Positive)
    (shuffle : Bool) : Dataset.load other paths seed prefetchSize numWorkers shuffle =
      Dataset.load loadCaches paths seed prefetchSize numWorkers shuffle := by
  unfold Dataset.load
  rw [h]

theorem mapError_eq_ok {ε ε' α : Type} {f : ε → ε'} {x : Except ε α} {a : α} (h : x.mapError f = .ok a) :
    x = .ok a := by
  cases x with
  | error error => cases h
  | ok b =>
      cases h
      rfl

theorem CachedDataset.load_eq_ok {paths : List Path} {readerConfig : ReaderConfig} {numWorkers : Positive}
    {d : Dataset} {s : MutableDatasetState} (h : load L fs paths readerConfig numWorkers = .ok (d, s)) :
    ∃ seed, nativeSeed readerConfig.seed = .ok seed ∧
      Dataset.load (fun paths => loadedInOrder L fs paths readerConfig.validateCache) paths seed
        readerConfig.prefetchSize.1 numWorkers readerConfig.shuffle = .ok (d, s) := by
  obtain ⟨seed, hseed, h⟩ := bind_eq_ok h
  exact ⟨seed, hseed, mapError_eq_ok h⟩

theorem CachedDataset.load_kept (h : KeepsFiles fs fs') {paths : List Path} {readerConfig : ReaderConfig}
    {numWorkers : Positive} {d : Dataset} {s : MutableDatasetState}
    (hload : load L fs paths readerConfig numWorkers = .ok (d, s)) :
    load L fs' paths readerConfig numWorkers = .ok (d, s) := by
  obtain ⟨seed, hseed, hdataset⟩ := load_eq_ok hload
  obtain ⟨hcaches, -⟩ := caches_of_load hdataset
  have hagain := loadedInOrder_kept h hcaches
  have hcongr := load_congr (fun paths => loadedInOrder L fs paths readerConfig.validateCache)
    (fun paths => loadedInOrder L fs' paths readerConfig.validateCache) (hagain.trans hcaches.symm) seed
    readerConfig.prefetchSize.1 numWorkers readerConfig.shuffle
  simp only [load, hseed, bind, Except.bind, hcongr, hdataset, Except.mapError]

end kept

/-! ### The population of the export -/

/-- The samples of the active rows. -/
def Dataset.populationIndices (d : Dataset) : ActiveMetadata → List ℕ
  | .full => List.range d.totalSamples
  | .table active => active.physicalIndices

/-- Their weights; the original rows have weight one. -/
def Dataset.populationWeights (d : Dataset) : ActiveMetadata → List Float
  | .full => List.replicate d.totalSamples 1.0
  | .table active => active.weights

theorem Dataset.length_populationIndices (d : Dataset) (active : ActiveMetadata) :
    (d.populationIndices active).length = d.activeLen active := by
  cases active with
  | full => exact List.length_range
  | table active => rfl

/-- A table with the same population. -/
structure RestoresActive (d : Dataset) (exported : ActiveMetadata) (active : ActiveMetadataTable) : Prop where
  indices : active.physicalIndices = d.populationIndices exported
  weights : active.weights = d.populationWeights exported

namespace DumpCall

variable {metadataBatches : LoadedCache → CacheResult (List (CacheResult RecordBatch))} {A : ArrowLib} {J : ConfigJson}
variable {call : DumpCall}

/-- A table of the rows of an accepted one is imported as its population. -/
theorem exists_import_of_rows {pop : Population} {table : ActiveMetadataTable} (h : table.Accepted pop)
    {batches : List RecordBatch} (huniform : Uniform table.metadata.schema batches)
    (hrows : tableRows batches = table.metadata.viewRows) :
    ∃ active, ((⟨table.metadata.schema, batches, none⟩ : Dataset.ImportedTable).toArrow >>= extractMetadataArrow pop) =
      .ok active ∧ active.physicalIndices = table.physicalIndices ∧ active.weights = table.weights := by
  have hlt : (tableRows batches).length < wordSize := by
    rw [hrows, h.valid.length_viewRows]
    exact h.len_lt
  obtain ⟨arrow, harrow⟩ := ArrowMetadata.exists_new table.metadata.schema hlt
  obtain ⟨hvalid, hview⟩ := ArrowMetadata.valid_new harrow fun batch hbatch => (huniform batch hbatch).1
  obtain ⟨hschema, hbatches⟩ := ArrowMetadata.fields_new harrow
  have himported : imported (extractMetadataArrow pop arrow) = some (table.physicalIndices, table.weights) := by
    rw [imported_extractMetadataArrow hvalid, hschema, hview, hrows]
    · exact h.importRows_eq
    · intro batch hbatch
      rw [hschema]
      exact (huniform batch (hbatches ▸ hbatch)).2
  simp only [Dataset.ImportedTable.toArrow, harrow, bind, Except.bind]
  cases hextract : extractMetadataArrow pop arrow with
  | error error =>
      rw [hextract] at himported
      cases himported
  | ok active =>
      rw [hextract] at himported
      obtain ⟨hindices, hweights⟩ := Prod.mk.inj (Option.some.inj himported)
      exact ⟨active, rfl, hindices, hweights⟩

/-- **The exported table is imported** as the population of the dataset. -/
theorem exists_import (hcall : call.Ready) {schema : List Field} {batches : List RecordBatch}
    (huniform : Uniform schema batches) (hexported : call.Exported metadataBatches schema batches)
    (hfull : call.state.active = .full → Importable metadataBatches call.dataset.pop ∧
      ∀ cache ∈ call.dataset.pop.caches, cache.cacheId < wordSize) :
    ∃ active, ((⟨schema, batches, none⟩ : Dataset.ImportedTable).toArrow >>= extractMetadataArrow call.dataset.pop) =
      .ok active ∧ RestoresActive call.dataset call.state.active active := by
  unfold Exported at hexported
  cases hactive : call.state.active with
  | table table =>
      rw [hactive] at hexported
      obtain ⟨rfl, hrows⟩ := hexported
      obtain ⟨active, hextract, hindices, hweights⟩ :=
        exists_import_of_rows (hcall.active table hactive) huniform hrows
      exact ⟨active, hextract, hindices, hweights⟩
  | full =>
      rw [hactive] at hexported
      obtain ⟨rfl, hvisit⟩ := hexported
      obtain ⟨himportable, hids⟩ := hfull hactive
      have hlt : (tableRows batches).length < wordSize := by
        rw [length_tableRows, ← Nat.zero_add (List.sum _), ← (visitSamplesMetadata_ok hcall.valid.pop hvisit).1.stop_eq]
        exact hcall.valid.pop.total_lt
      obtain ⟨arrow, harrow⟩ := ArrowMetadata.exists_new (samplesMetadataFields call.dataset.pop.schema) hlt
      have hbuild : buildSamplesMetadata metadataBatches call.dataset.pop = .ok arrow := by
        simp only [buildSamplesMetadata, hvisit, harrow, bind, Except.bind]
      have hexport := ExportOf.of_build hcall.valid hids hbuild
      obtain ⟨active, hextract, hindices, hweights⟩ := hexport.importsOriginal himportable
      refine ⟨active, ?_, hindices, hweights⟩
      simp only [Dataset.ImportedTable.toArrow, harrow, bind, Except.bind, hextract]

/-- A configuration that is found after a crash is that of the exported dataset. -/
theorem describes_of_loadConfiguration {late : Prop} {d₀ : CrashDisk} {s : DumpState} (hJ : J.Lawful)
    (hinv : call.Inv metadataBatches A J late d₀ s) (hown : call.Own J s) {left : FileTree} (hcrash : s.disk.Crash left)
    {config : DatasetConfiguration} (hload : loadConfiguration J left (call.path .config) = .ok config) :
    call.Describes config := by
  unfold loadConfiguration at hload
  cases hread : left.read (call.path .config) with
  | none =>
      rw [hread] at hload
      cases hload
  | some text =>
      rw [hread] at hload
      obtain ⟨found, hvalidate, hload⟩ := bind_eq_ok hload
      split_ifs at hload
      cases hload
      have htext : call.contents s.disk .config = some (.file text) := by
        rw [contents, ← hcrash _ hinv.settled.config]
        unfold FileTree.read at hread
        split at hread
        · next bytes hfile =>
            cases hread
            exact hfile
        · cases hread
      obtain ⟨own, hdump, hdescribes⟩ := hown.published text htext
      obtain rfl : own = config := Except.ok.inj ((hJ own text hdump).symm.trans hvalidate)
      exact hdescribes

theorem Framed.keepsFiles {d₀ disk : CrashDisk} (h : call.Framed d₀ disk) (hempty : ¬ call.Occupied d₀) :
    KeepsFiles d₀.tree disk.tree := by
  intro p hp
  refine h.frame p fun target heq => hempty ⟨target, .inl ?_⟩
  rwa [← heq]

/-- The state of a dataset that was restored from an export. -/
structure Restored (call : DumpCall) (s : MutableDatasetState) : Prop where
  active : ∃ table, s.active = .table table ∧ RestoresActive call.dataset call.state.active table
  epochLen : s.epochLen = call.state.epochLen
  sequentialOffset : s.sequentialOffset = 0
  shuffledDrawOffset : s.shuffledDrawOffset = 0

/-- The state of the exported dataset with fresh cursors. -/
def fresh (call : DumpCall) : MutableDatasetState :=
  { call.state with sequentialOffset := 0, shuffledDrawOffset := 0 }

theorem inv_fresh (h : call.state.Inv call.dataset) : call.fresh.Inv call.dataset where
  cursor := Nat.zero_lt_of_lt h.cursor
  table := h.table

theorem Restored.alike {s : MutableDatasetState} (h : call.Restored s)
    (horiginal : call.state.active = .full → call.dataset.shuffle = false) : call.fresh.Alike call.dataset s := by
  obtain ⟨table, hactive, hrestores⟩ := h.active
  refine ⟨?_, h.epochLen, h.sequentialOffset, h.shuffledDrawOffset⟩
  rw [hactive]
  show SameActive call.dataset call.state.active _
  cases hstate : call.state.active with
  | full =>
      rw [hstate] at hrestores
      exact .original (horiginal hstate) hrestores.indices
  | table exported =>
      rw [hstate] at hrestores
      exact .table hrestores.indices hrestores.weights

/-- A published export that can be read from `tree`. -/
structure ReadableExport (L : StorageLib) (A : ArrowLib) (J : ConfigJson) (call : DumpCall) (tree : FileTree)
    (config : DatasetConfiguration) (schema : List Field) (batches : List RecordBatch) (active : ActiveMetadataTable)
    (s₀ : MutableDatasetState) : Prop where
  valid : call.dataset.Valid
  inv : call.state.Inv call.dataset
  configuration : loadConfiguration J tree (call.path .config) = .ok config
  metadata : loadMetadata A tree (call.path .config) config = .ok (schema, batches)
  uniform : Uniform schema batches
  describes : call.Describes config
  loads : CachedDataset.load L tree config.cachePaths config.readerConfig config.numWorkers = .ok (call.dataset, s₀)
  imports : ((⟨schema, batches, none⟩ : Dataset.ImportedTable).toArrow >>= extractMetadataArrow call.dataset.pop) =
    .ok active
  restores : RestoresActive call.dataset call.state.active active

theorem ReadableExport.length_indices {L : StorageLib} {tree : FileTree} {config : DatasetConfiguration}
    {schema : List Field} {batches : List RecordBatch} {active : ActiveMetadataTable} {s₀ : MutableDatasetState}
    (h : ReadableExport L A J call tree config schema batches active s₀) :
    active.physicalIndices.length = call.dataset.activeLen call.state.active := by
  rw [h.restores.indices, Dataset.length_populationIndices]

end DumpCall

/-- What a crash can leave of an export: the dataset was loaded and used, the export ran into an unused directory, and
the crash lost none of the earlier files and left a configuration.  The stored metadata of an original population leaves
the generated columns visible. -/
inductive CrashedExport (R : RandLib) (A : ArrowLib) (J : ConfigJson) (L : StorageLib)
    (metadataBatches : LoadedCache → CacheResult (List (CacheResult RecordBatch))) (call : DumpCall) (left : FileTree) :
    Prop
  | intro {d₀ : CrashDisk} {numWorkers : Positive} {s₀ : MutableDatasetState} {ops : List Dataset.Op}
      {acts : List DumpAct} {s : DumpState} (hworkers : call.runtimeNumWorkers = numWorkers.1)
      (hload : CachedDataset.load L d₀.tree call.cachePaths call.readerConfig numWorkers = .ok (call.dataset, s₀))
      (hops : ∀ op ∈ ops, Dataset.Op.Uniform A op) (hstate : call.dataset.applyAll R A s₀ ops = call.state)
      (hempty : ¬ call.Occupied d₀)
      (hfull : call.state.active = .full → Importable metadataBatches call.dataset.pop ∧
        ∀ cache ∈ call.dataset.pop.caches, cache.cacheId < wordSize)
      (hrun : Machine.run (call.step metadataBatches A J) ⟨d₀, .checking⟩ acts = some s)
      (hcrash : s.disk.Crash left) (hkept : KeepsFiles d₀.tree left) (hconfig : left (call.path .config) ≠ none) :
      CrashedExport R A J L metadataBatches call left

open DumpCall in
/-- **Every crash leaves a readable export**, where it leaves a configuration. -/
theorem CrashedExport.readable {R : RandLib} (hR : R.Lawful) {A : ArrowLib} (hA : A.Lawful)
    (hfiles : ∀ bytes schema batches, A.readFile bytes = .ok (schema, batches) → Uniform schema batches)
    {J : ConfigJson} (hJ : J.Lawful) {L : StorageLib}
    {metadataBatches : LoadedCache → CacheResult (List (CacheResult RecordBatch))} {call : DumpCall} {left : FileTree}
    (h : CrashedExport R A J L metadataBatches call left) :
    ∃ config schema batches active s₀, ReadableExport L A J call left config schema batches active s₀ := by
  obtain @⟨d₀, numWorkers, s₀, ops, acts, s, hworkers, hload, hops, hstate, hempty, hfull, hrun, hcrash, hkept,
    hconfig⟩ := h
  obtain ⟨seed, -, hdataset⟩ := CachedDataset.load_eq_ok hload
  obtain ⟨hd, hs₀⟩ := Dataset.valid_of_load hdataset
  have hcall := ready_of_load R hdataset hops hstate
  obtain ⟨hinv, hown⟩ := own_run hA hcall hempty hrun
  obtain ⟨config, schema, batches, hloadConfig, hloadMetadata, -, hexported⟩ :=
    loads_of_crash hJ hempty hinv hcrash hconfig
  have hdescribes := describes_of_loadConfiguration hJ hinv hown hcrash hloadConfig
  have huniform : Uniform schema batches := by
    unfold loadMetadata at hloadMetadata
    split_ifs at hloadMetadata
    split at hloadMetadata
    · cases hloadMetadata
    · next bytes hbytes =>
        obtain ⟨⟨schema', batches'⟩, hread, hloadMetadata⟩ := bind_eq_ok hloadMetadata
        simp only at hloadMetadata
        split_ifs at hloadMetadata
        cases hloadMetadata
        exact hfiles _ _ _ hread
  obtain ⟨active, himport, hactive⟩ := exists_import hcall huniform hexported hfull
  have hagain : CachedDataset.load L left config.cachePaths config.readerConfig config.numWorkers =
      .ok (call.dataset, s₀) := by
    rw [hdescribes.cachePaths, hdescribes.readerConfig, Subtype.ext (hdescribes.numWorkers.trans hworkers)]
    exact CachedDataset.load_kept hkept hload
  exact ⟨config, schema, batches, active, s₀, hd, hstate ▸ Dataset.inv_applyAll hR hd A ops hs₀, hloadConfig,
    hloadMetadata, huniform, hdescribes, hagain, himport, hactive⟩

open DumpCall in
/-- **A restored dataset is the exported one from the beginning.**  Whatever was done with a dataset that was loaded,
whichever exceptions and interruptions its export met, and whatever a crash left that lost none of the earlier files: if
a configuration is there, `from_config` makes of it a dataset of the same caches, with the active rows, the weights and
the epoch length of the exported one and fresh cursors.  Whatever is then done with the restored dataset, its windows
are those of the exported one with fresh cursors, unless an original population is sampled, which becomes a weighted
one. -/
theorem exported_dataset_restored {R : RandLib} (hR : R.Lawful) {A : ArrowLib} (hA : A.Lawful)
    (hfiles : ∀ bytes schema batches, A.readFile bytes = .ok (schema, batches) → Uniform schema batches)
    {J : ConfigJson} (hJ : J.Lawful) {L : StorageLib}
    {metadataBatches : LoadedCache → CacheResult (List (CacheResult RecordBatch))} {call : DumpCall} {left : FileTree}
    (hexport : CrashedExport R A J L metadataBatches call left) :
    ∃ restored, CachedDataset.fromConfig L A J left (call.path .config) = .ok (call.dataset, restored) ∧
      call.Restored restored ∧
      ((call.state.active = .full → call.dataset.shuffle = false) → ∀ later,
        List.Forall₂ EpochPlan.Alike (call.dataset.recordAll R A call.fresh later).2
          (call.dataset.recordAll R A restored later).2) := by
  obtain ⟨config, schema, batches, active, s₀, h⟩ := hexport.readable hR hA hfiles hJ
  have hpos : 0 < active.physicalIndices.length := h.length_indices ▸ Nat.zero_lt_of_lt h.inv.cursor
  have hrestored : call.Restored ⟨.table active, none, config.epochLen, 0, 0⟩ :=
    ⟨⟨active, rfl, h.restores⟩, h.describes.epochLen, rfl, rfl⟩
  refine ⟨_, ?_, hrestored, fun horiginal later => ?_⟩
  · simp only [CachedDataset.fromConfig, h.configuration, h.metadata, Except.mapError, bind, Except.bind]
    exact CachedDataset.fromConfiguration_ok h.loads h.imports hpos
  · exact Dataset.alike_recordAll hR h.valid (inv_fresh h.inv) (hrestored.alike horiginal) later

/-! ### A view of two rows -/

namespace StoredRows

open Dataset

def manifest : Manifest :=
  .v3 7
    { sourceName := "s"
      sampleCount := 2
      metadataSchema := []
      metadataSha256 := Migration.OldCaches.metadataSha256
      indexSha256 := "2687011c8d3aa1d5648874204d6aefcacbd6b4a245ab4e76622624b0b21ba1f9"
      shards := [⟨"000000.bin", 22, 22, .legacy .none 1.0,
        "20bff8572f949bd535bba62fe14f13f41cfd4a6075ccdcde1556afae82640e05"⟩]
      extra := ∅ }

/-- Two samples in one shard. -/
def cache : LoadedCache := ⟨7, manifest, none, ⟨indexBytes [⟨0, 0, 11⟩, ⟨0, 11, 11⟩]⟩, ["c"], false⟩

/-- The only float is the ratio. -/
def manifestText : Bytes := manifest.toJson.text fun _ => "1.0"

/-- The manifest is the only text that is parsed. -/
noncomputable def lib : StorageLib :=
  { Migration.OldCaches.lib with json := { Migration.OldCaches.lib.json with parse := fun _ => .ok manifest.toJson } }

def disk : CrashDisk where
  tree := (((TwoRows.cacheDisk.tree.write ["c", "manifest.json"] manifestText).write
    ["c", "index.bin"] cache.index.bytes).write ["c", "metadata.arrow"] TwoShards.arrowBytes).write
      ["c", "shards", "000000.bin"] (Migration.OldCaches.record 7 ++ Migration.OldCaches.record 8)
  links _ := none
  unsynced := []
  links_free _ h := absurd rfl h
  unsynced_file _ h := absurd h List.not_mem_nil

def dataset : Dataset :=
  ⟨⟨[cache], [0], (∅ : AList fun _ : ℕ => ℕ).insert 7 0, []⟩, 2, 0, ⟨1, Nat.one_pos⟩, ⟨1, Nat.one_pos⟩, false⟩

/-- The table, read from its second row on. -/
noncomputable def ops : List Op := [.updateArrow TwoRows.table, .setEpochLen 1, .epochPlan, .setEpochLen 2]

noncomputable def call : DumpCall :=
  { TwoRows.call with dataset, state := dataset.applyAll RandLib.first TwoRows.arrow OneRow.start ops }

theorem load_eq : CachedDataset.load lib disk.tree call.cachePaths call.readerConfig ⟨1, Nat.one_pos⟩ =
    .ok (dataset, OneRow.start) := rfl

theorem uniform_ops : ∀ op ∈ ops, op.Uniform TwoRows.arrow := by
  unfold ops
  simp only [List.forall_mem_cons, List.not_mem_nil, false_implies, implies_true, and_true]
  exact ⟨TwoRows.uniform_batches, trivial, trivial, trivial⟩

theorem uniform_files (bytes : Bytes) (schema : List Field) (batches : List RecordBatch)
    (h : TwoRows.arrow.readFile bytes = .ok (schema, batches)) : Uniform schema batches := by
  simp only [TwoRows.arrow] at h
  split_ifs at h
  cases h
  exact TwoRows.uniform_gathered _

open DumpCall in
theorem exists_run : ∃ s, Machine.run (call.step (fun _ => .ok []) TwoRows.arrow TwoRows.json) ⟨disk, .checking⟩
    (List.replicate 9 .done) = some s ∧ s.disk.tree (call.path .config) ≠ none := by
  have hwrites : TwoRows.arrow.writeFile TwoRows.schema [TwoRows.batch.gather [1, 2]] = .ok [1] := if_pos ⟨rfl, rfl⟩
  have hexport : call.dataset.exportMetadataArrow (fun _ => .ok []) TwoRows.arrow call.state call.calls
      (call.path .pendingMetadata) disk.tree = some (.ok (disk.tree.write (call.path .pendingMetadata) [1], 2)) := by
    show some ((createFile (call.path .pendingMetadata)
      (arrowResult (TwoRows.arrow.writeFile TwoRows.schema [TwoRows.batch.gather [1, 2]])) disk.tree).map
        fun fs => (fs, 2)) = _
    rw [hwrites]
    rfl
  have hcheck : call.step (fun _ => .ok []) TwoRows.arrow TwoRows.json ⟨disk, .checking⟩ .done =
      some ⟨disk, .exporting⟩ := rfl
  obtain ⟨exported, hstep, hrest⟩ : ∃ exported,
      call.step (fun _ => .ok []) TwoRows.arrow TwoRows.json ⟨disk, .exporting⟩ .done = some exported ∧
      ∃ s, Machine.run (call.step (fun _ => .ok []) TwoRows.arrow TwoRows.json) exported (List.replicate 7 .done) =
        some s ∧ s.disk.tree (call.path .config) ≠ none := by
    simp only [step, effect, exportMetadata, hexport]
    exact ⟨_, rfl, _, rfl, fun h => by cases h⟩
  rw [List.replicate_succ, Machine.run_cons_of_step _ _ hcheck, List.replicate_succ,
    Machine.run_cons_of_step _ _ hstep]
  exact hrest

theorem not_occupied : ¬ call.Occupied disk := by
  rintro ⟨target, htarget⟩
  cases target <;> exact htarget.elim (fun h => h rfl) fun h => h rfl

open DumpCall in
theorem exists_export : ∃ s,
    Machine.run (call.step (fun _ => .ok []) TwoRows.arrow TwoRows.json) ⟨disk, .checking⟩ (List.replicate 9 .done) =
      some s ∧
    CrashedExport RandLib.first TwoRows.arrow TwoRows.json lib (fun _ => .ok []) call s.disk.tree := by
  obtain ⟨s, hrun, hconfig⟩ := exists_run
  obtain ⟨seed, -, hload⟩ := CachedDataset.load_eq_ok load_eq
  have hcall : call.Ready := ready_of_load RandLib.first hload uniform_ops rfl
  have hkept := (own_run TwoRows.lawful_arrow hcall not_occupied hrun).1.framed.keepsFiles not_occupied
  exact ⟨s, hrun, .intro rfl load_eq uniform_ops rfl not_occupied (fun h => by cases h) hrun (fun _ _ => rfl) hkept
    hconfig⟩

end StoredRows

open StoredRows DumpCall in
/-- The view is exported after its second row was read, and restored from its first row on. -/
theorem exported_dataset_restored_two_rows : ∃ s restored, call.state.sequentialOffset = 1 ∧
    Machine.run (call.step (fun _ => .ok []) TwoRows.arrow TwoRows.json) ⟨disk, .checking⟩ (List.replicate 9 .done) =
      some s ∧
    CachedDataset.fromConfig lib TwoRows.arrow TwoRows.json s.disk.tree (call.path .config) = .ok (dataset, restored) ∧
    restored.sequentialOffset = 0 ∧ restored.epochLen.1 = 2 := by
  obtain ⟨s, hrun, hexport⟩ := exists_export
  obtain ⟨restored, hrestored, ⟨-, hepoch, hsequential, -⟩, -⟩ := exported_dataset_restored RandLib.lawful_first
    TwoRows.lawful_arrow uniform_files TwoRows.lawful_json hexport
  exact ⟨s, restored, rfl, hrun, hrestored, hsequential, by rw [hepoch]; rfl⟩

end DatasetRt
