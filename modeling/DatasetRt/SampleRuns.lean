import DatasetRt.SourceStaging
import DatasetRt.WriteTarget

/-! # Runs of the sample pipeline

`write_with_pipeline` is a run of the pipeline whose committer is one builder.  `SampleRun` is its invariant: what
was sent is a prefix of the samples, and as long as no error was returned the builder has taken what was committed.

* `sampleRun_step`, `WritesWith.sampleRun`: every run keeps it.
* `WritesWith.ok`: the call returned, the builder took all the samples and was finished.
* `WritesWith.error`: what an error of the call can be, and that it is never the fault of the pipeline. -/

namespace DatasetRt

section runs

variable (L : StorageLib) (faults : WriterFaults) (source : Source) (builder : CacheBuilder)

/-- The builder of the target after some of the samples. -/
def Pushed (t : SampleTarget) (done : List WriterInput) : Prop :=
  builder.pushAllOn L faults done = (t.builder, .ok ()) ∧ t.dir = t.builder.dir

/-- The builder was finished. -/
def Ended (t : SampleTarget) (done : List WriterInput) : Prop :=
  ∃ b manifest, builder.pushAllOn L faults done = (b, .ok ()) ∧ b.finishOn L faults = (t.dir, .ok manifest)

/-- Both directories of the target are directories. -/
def Rooted (t : SampleTarget) : Prop := t.builder.dir [] = some .dir ∧ t.dir [] = some .dir

structure SampleRun (s : WritePipeline WriterInput SampleTarget) : Prop where
  counted : WritePipeline.Counted (samplePipeline L faults) s
  known : s.known <+: source.inputs
  finishing : s.phase = .finishing → s.submitted = source.inputs ∧ source.ending = none ∧
    source.inputs.length < wordSize
  finished : ∀ r, s.phase = .finished r → s.submitted = source.inputs ∧ source.ending = none ∧
    source.inputs.length < wordSize ∧ ∀ e, r = .error e → e ∈ s.errors
  abandoned : s.phase = .abandoned → s.errors ≠ [] ∨ s.submitted = source.inputs ∧ source.ending ≠ none
  draining : s.phase ≠ .draining
  clean : s.errors = [] → s.Upheld (Pushed L faults builder) (Ended L faults builder) (Pushed L faults builder)
  rooted : Rooted s.target

end runs

section steps

variable {L : StorageLib} {config : WriterConfig} {faults : WriterFaults} {source : Source} {builder : CacheBuilder}
  {s s' : WritePipeline WriterInput SampleTarget}

theorem cleans_pushed : WritePipeline.Cleans (samplePipeline L faults) (Pushed L faults builder) (Ended L faults builder)
    (Pushed L faults builder) where
  commit t done item h hok := by
    have hpush : t.builder.pushSampleOn L faults item.1 item.2 =
        ((t.builder.pushSampleOn L faults item.1 item.2).1, .ok ()) :=
      Prod.ext rfl hok
    refine ⟨?_, rfl⟩
    rw [CacheBuilder.pushAllOn_append, h.1]
    simp only [CacheBuilder.pushAllOn]
    rw [hpush]
    rfl
  finish t done hok h := by
    rcases hfinish : t.builder.finishOn L faults with ⟨dir, error | manifest⟩
    · simp [samplePipeline, sampleWritePipeline, hfinish, Except.map] at hok
    · refine ⟨t.builder, manifest, h.1, ?_⟩
      simp [samplePipeline, sampleWritePipeline, hfinish]
  abandon _ _ h := h

theorem upholds_rooted (submitted : List WriterInput) :
    WritePipeline.Upholds (samplePipeline L faults) (fun t _ => Rooted t) (fun t _ => Rooted t) (fun t _ => Rooted t)
      submitted where
  commit t done item _ h := by
    have hroot : (t.builder.pushSampleOn L faults item.1 item.2).1.dir [] = some .dir :=
      (CacheBuilder.pushSampleOn_root faults t.builder item.1 item.2).trans h.1
    exact ⟨hroot, hroot⟩
  finish t _ h := ⟨h.1, (CacheBuilder.finishOn_root faults t.builder).trans h.1⟩
  finishError t _ _ h := ⟨h.1, (CacheBuilder.finishOn_root faults t.builder).trans h.1⟩
  abandon _ _ h := h

theorem sampleRun_new (hroot : builder.dir [] = some .dir) : SampleRun L faults source builder
    (WritePipeline.new ⟨builder, builder.dir⟩ config.prefetchSize config.numWorkers) where
  counted := WritePipeline.counted_new _ _ _
  known := List.nil_prefix
  finishing := nofun
  finished := nofun
  abandoned := nofun
  draining := nofun
  clean _ := ⟨rfl, rfl⟩
  rooted := ⟨hroot, hroot⟩

theorem prefix_snoc {α : Type} {xs ys : List α} {y : α} (h : xs <+: ys) (hy : ys[xs.length]? = some y) :
    xs ++ [y] <+: ys := by
  obtain ⟨rest, rfl⟩ := h
  rw [List.getElem?_append_right le_rfl, Nat.sub_self] at hy
  cases rest with
  | nil => cases hy
  | cons z rest =>
      obtain rfl := Option.some.inj hy
      rw [List.prefix_append_right_inj]
      exact ⟨rest, rfl⟩

theorem SampleRun.known_step (h : SampleRun L faults source builder s) {a : WriteAct WriterInput}
    (hguard : ingestPythonSamples source s a) (hs : s.step (samplePipeline L faults) a = some s') :
    s'.known <+: source.inputs := by
  rcases WritePipeline.known_step hs with ⟨-, hpre⟩ | ⟨-, ⟨item, rfl, hphase, heq⟩ | ⟨-, heq⟩⟩
  · exact hpre.trans h.known
  · have hknown : s.known = s.submitted := by simp [WritePipeline.known, WritePipeline.inHand, hphase]
    rw [heq, hknown]
    exact prefix_snoc (hknown ▸ h.known) hguard
  · rw [heq]
    exact h.known

theorem SampleRun.submitted_eq (h : SampleRun L faults source builder s)
    (hlength : s.submitted.length = source.inputs.length) : s.submitted = source.inputs :=
  (s.submitted_prefix_known.trans h.known).eq_of_length hlength

/-- **One step.** -/
theorem sampleRun_step (h : SampleRun L faults source builder s) {a : WriteAct WriterInput}
    (hguard : ingestPythonSamples source s a) (hs : s.step (samplePipeline L faults) a = some s') :
    SampleRun L faults source builder s' := by
  have hends := WritePipeline.ends_step hs
  have hsubmitted : (∀ message, s.phase ≠ .enqueueing message) → s'.submitted = s.submitted := by
    intro hphase
    rcases WritePipeline.submitted_cases hs with heq | ⟨message, hp, -⟩
    · exact heq
    · exact absurd hp (hphase message)
  have hgrow : ∀ e ∈ s.errors, e ∈ s'.errors := by
    intro e he
    rcases WritePipeline.errors_step hs with heq | ⟨e', heq, -⟩
    · exact heq ▸ he
    · exact heq ▸ List.mem_append_left _ he
  refine ⟨WritePipeline.counted_step h.counted hs, h.known_step hguard hs, fun hphase => ?_, fun r hphase => ?_,
    fun hphase => ?_, fun hphase => ?_, WritePipeline.clean_step cleans_pushed h.clean hs, ?_⟩
  · rcases hends.finishing hphase with hp | ⟨rfl, hp⟩
    · rw [hsubmitted (fun _ hq => by rw [hp] at hq; cases hq)]
      exact h.finishing hp
    · obtain ⟨hlength, hending⟩ := hguard
      obtain ⟨-, -, hsequence⟩ := h.counted.inv.ready hp
      have hlt := h.counted.numbered.sequence_lt
      rw [hsubmitted (fun _ hq => by rw [hp] at hq; cases hq)]
      exact ⟨h.submitted_eq hlength, hending, by omega⟩
  · rcases hends.finished r hphase with hp | ⟨hp, herror⟩
    · obtain ⟨hall, hending, hlt, herror⟩ := h.finished r hp
      rw [hsubmitted (fun _ hq => by rw [hp] at hq; cases hq)]
      exact ⟨hall, hending, hlt, fun e he => hgrow e (herror e he)⟩
    · obtain ⟨hall, hending, hlt⟩ := h.finishing hp
      rw [hsubmitted (fun _ hq => by rw [hp] at hq; cases hq)]
      exact ⟨hall, hending, hlt, herror⟩
  · rcases hends.abandoned hphase with hp | hp | ⟨rfl, hp⟩
    · rw [hsubmitted (fun _ hq => by rw [hp] at hq; cases hq)]
      refine (h.abandoned hp).imp_left fun hne hnone => hne ?_
      exact List.eq_nil_iff_forall_not_mem.mpr fun e he => by simpa [hnone] using hgrow e he
    · exact absurd hp h.draining
    · rcases hguard with hfailed | ⟨hlength, hending⟩
      · refine .inl fun hnone => ?_
        have hp : s.phase = .failed := by
          cases hp' : s.phase <;> simp [hp'] at hfailed ⊢
        rcases h.counted.inv with ⟨-, -, hphaseOk⟩ | hc
        · simp only [WritePipeline.PhaseOk, hp] at hphaseOk
          refine hphaseOk (List.eq_nil_iff_forall_not_mem.mpr fun e he => ?_)
          simpa [hnone] using hgrow e he
        · rcases hc.phase with hq | ⟨r, hq⟩ <;> simp [hp] at hq
      · refine .inr ⟨?_, hending⟩
        rw [hsubmitted (fun _ hq => by rcases hp with hp | hp <;> rw [hp] at hq <;> cases hq)]
        exact h.submitted_eq hlength
  · rcases hends.draining hphase with hp | rfl
    · exact h.draining hp
    · exact hguard
  · exact WritePipeline.upheld_same.mp
      (WritePipeline.upheld_step h.counted.inv (upholds_rooted _) (WritePipeline.upheld_same.mpr h.rooted) hs)

end steps

/-! ### The whole call -/

section calls

variable {L : StorageLib} {config : WriterConfig} {faults : WriterFaults} {source : Source} {builder : CacheBuilder}
  {result : CacheResult Unit} {dir : FileTree}

theorem WritesWith.sampleRun (hroot : builder.dir [] = some .dir)
    (h : WritesWith L config faults source builder result dir) :
    ∃ s, SampleRun L faults source builder s ∧ dir = s.target.dir ∧
      (s.phase = .finished result ∨
        s.phase = .abandoned ∧ result = .error ((s.errors.getLast?.or source.ending).getD .workerFailed)) := by
  obtain ⟨as, s, hrun, hguard, hresult, hdir⟩ := h
  refine ⟨s, ?_, hdir, hresult⟩
  exact Machine.run_invariant_of_guarded _ (I := SampleRun L faults source builder)
    (fun _ _ _ h hguard hs => sampleRun_step h hguard hs) (sampleRun_new hroot) hguard hrun

theorem WritesWith.root (hroot : builder.dir [] = some .dir) (h : WritesWith L config faults source builder result dir) :
    dir [] = some .dir := by
  obtain ⟨s, hrun, rfl, -⟩ := h.sampleRun hroot
  exact hrun.rooted.2

/-- **The call returned.** -/
theorem WritesWith.ok (hroot : builder.dir [] = some .dir) (h : WritesWith L config faults source builder (.ok ()) dir) :
    (∃ b manifest, builder.pushAllOn L faults source.inputs = (b, .ok ()) ∧
        b.finishOn L faults = (dir, .ok manifest)) ∧
      source.ending = none ∧ source.inputs.length < wordSize := by
  obtain ⟨s, hrun, rfl, hphase | ⟨-, herror⟩⟩ := h.sampleRun hroot
  · obtain ⟨hall, hending, hlt, -⟩ := hrun.finished _ hphase
    refine ⟨?_, hending, hlt⟩
    rcases hrun.counted.inv with ⟨-, -, hphaseOk⟩ | hclosed
    · simp [WritePipeline.PhaseOk, hphase] at hphaseOk
    · obtain ⟨hnone, hcommitted⟩ := hclosed.finished hphase
      have hended := hrun.clean hnone
      simp only [WritePipeline.Upheld, hphase, hcommitted, hall] at hended
      exact hended
  · cases herror

variable (L config) in
/-- `write_one_source_result` returns `result` and leaves the file system `fs'`. -/
def WritesSource (faults : WriterFaults) (base : Path) (sourceIndex : ℕ) (fs : FileTree) (source : Source)
    (result : CacheResult CacheWriteRecord) (fs' : FileTree) : Prop :=
  ∃ written : CacheBuilder → CacheResult Unit × FileTree,
    (∀ name prepared created builder, extractSourceName source = .ok name →
      prepareCachePaths fs (cachePathForSource base name) (tempCachePathForSource base name) = .ok prepared →
      createCache config prepared (tempCachePathForSource base name) name = (created, .ok builder) →
      WritesWith L config faults source builder (written builder).1 (written builder).2) ∧
    writeOneSourceResult L config faults written base sourceIndex fs source = (fs', result)

end calls

end DatasetRt
