import DatasetRt.SourceReplay

/-! # Runs of a source list

`Tracks` is the invariant of a call of `write_source_list`: what was sent is a trace of the calling thread's
places, and what was committed is a prefix of it, so the committer and the disk are those of a `Snapshot`.

* `tracks_step`: every step keeps it, whatever the workers do and wherever an interrupt comes.
* `Tracks.returned_ok`, `Tracks.returned_error`: what is known when the call returns.
* `run_length_le`, `exists_step`: the call ends, and nothing blocks it.

`Q` are the interrupts that come from outside, through `check_signals`. -/

namespace DatasetRt

namespace ListWrite

section tracks

variable (L : StorageLib) (config : WriterConfig) (faults : ℕ → WriterFaults) (base : Path)
  (sources : List Source) (fs₀ : FileTree) (R : ℕ → FileTree → FileTree → Prop) (Q : CacheError → Prop)

/-- The events that a list can have. -/
def eventCount (sources : List Source) : ℕ := (sources.map fun source => source.inputs.length + 2).sum

/-- Why an ingestion that no other error ended stopped at a place. -/
inductive Stops : Place → CacheError → Prop where
  | name {i : ℕ} {source : Source} {error : CacheError} (hsource : sources[i]? = some source)
      (hplan : planSource L config base fs₀ i source = .interrupt error) : Stops (.between i) error
  | source {i k : ℕ} {source : Source} {error : CacheError} (hsource : sources[i]? = some source)
      (hall : k = source.sent.length) (hstop : source.stop = some error) (herror : error.isInterrupt = true) :
      Stops (.inside i k) error
  | signal {p : Place} {error : CacheError} (hsignal : Q error) : Stops p error

/-- The calling thread is at a place. -/
def AtStage : Stage → Place → Prop
  | .source i, q => q = .between i
  | .begun i, q => q = .inside i 0
  | .sampling i k, q => q = .inside i k
  | .ended, q => q = .between sources.length
  | .failed error, q => Stops L config base sources fs₀ Q q error

/-- The ingestion is not over. -/
def working : WritePhase PipelineEvent → Bool
  | .ready => true
  | .crediting _ => true
  | .enqueueing _ => true
  | .failed => true
  | _ => false

def StageOk (s : ListWrite) : Prop :=
  match s.stage with
  | .source i => i ≤ sources.length ∧ working s.pipeline.phase = true
  | .begun i => i < sources.length ∧ working s.pipeline.phase = true
  | .sampling i k => (∃ source, sources[i]? = some source ∧ source.iter = none ∧ k ≤ source.inputs.length) ∧
      working s.pipeline.phase = true
  | .ended => s.pipeline.phase = .finishing ∨ ∃ result, s.pipeline.phase = .finished result ∧
      ∀ error, result = .error error → error ∈ s.pipeline.errors
  | .failed error => (s.pipeline.phase = .draining ∨ s.pipeline.phase = .abandoned) ∧
      ((∃ q, Stops L config base sources fs₀ Q q error) ∨ error ∈ s.pipeline.errors)

/-- The committer and the disk after some of the events. -/
def Replayed (prepared : ℕ → Bool) (t : PipelineCommitter) (done : List PipelineEvent) : Prop :=
  ∃ p, Trace (Sends L config base sources fs₀) (.between 0) done p ∧
    Snapshot L config faults base sources fs₀ R prepared t p

/-- The same after the active source was cleaned up. -/
def Cleaned (prepared : ℕ → Bool) (t : PipelineCommitter) (done : List PipelineEvent) : Prop :=
  ∃ t₀, Replayed L config faults base sources fs₀ R prepared t₀ done ∧ t = t₀.cleanupUnfinishedSource

/-- The trace of the calling thread behind the state of the pipeline. -/
structure Follows (stage : Stage) (pipeline : WritePipeline PipelineEvent PipelineCommitter) (q : Place)
    (prepared : ℕ → Bool) : Prop where
  trace : Trace (Sends L config base sources fs₀) (.between 0) pipeline.known q
  looked : ∀ i, q.begun i = true → prepared i = true
  exact : pipeline.errors = [] → AtStage L config base sources fs₀ Q stage q ∧ ∀ i, prepared i = q.begun i
  upheld : pipeline.Upheld (Replayed L config faults base sources fs₀ R prepared)
    (Replayed L config faults base sources fs₀ R prepared)
    (Cleaned L config faults base sources fs₀ R prepared)

structure Tracks (s : ListWrite) : Prop where
  counted : WritePipeline.Counted (committer L config faults) s.pipeline
  stage : StageOk L config base sources fs₀ Q s
  errors : ∀ error ∈ s.pipeline.errors,
    Q error ∨ error = .invalidInput "pipeline sequence overflowed u64" ∧ wordSize ≤ eventCount sources
  drained : s.pipeline.phase = .abandoned → s.pipeline.errors = [] →
    s.pipeline.committed = s.pipeline.submitted
  follows : ∃ q prepared, Follows L config faults base sources fs₀ R Q s.stage s.pipeline q prepared

end tracks

section steps

variable {L : StorageLib} {config : WriterConfig} {faults : ℕ → WriterFaults} {base : Path}
  {sources : List Source} {fs₀ : FileTree} {R : ℕ → FileTree → FileTree → Prop} {Q : CacheError → Prop}

/-- The next event that was sent is the next that can be committed. -/
theorem replayed_commit (hR : Footprints L config faults base sources fs₀ R)
    {pipeline : WritePipeline PipelineEvent PipelineCommitter} {q : Place} {prepared : ℕ → Bool}
    (htrace : Trace (Sends L config base sources fs₀) (.between 0) pipeline.known q)
    (hlooked : ∀ i, q.begun i = true → prepared i = true) (t : PipelineCommitter)
    (done : List PipelineEvent) (item : PipelineEvent) (hnext : done ++ [item] <+: pipeline.submitted)
    (ht : Replayed L config faults base sources fs₀ R prepared t done) :
    Replayed L config faults base sources fs₀ R prepared
        ((committer L config faults).commit t item).1 (done ++ [item]) ∧
      ((committer L config faults).commit t item).2 = .ok () := by
  obtain ⟨p, hdone, hsnap⟩ := ht
  obtain ⟨p', hsend, hdone', rest, hrest⟩ := htrace.next Sends.unique
    (hnext.trans pipeline.submitted_prefix_known) hdone
  obtain ⟨hsnap', hok⟩ := snapshot_commit hR hsnap hsend (hlooked _ (begun_trace hrest hsend.begun_target))
  exact ⟨⟨p', hdone', hsnap'⟩, hok⟩

theorem replayed_upholds (hR : Footprints L config faults base sources fs₀ R)
    {pipeline : WritePipeline PipelineEvent PipelineCommitter} {q : Place} {prepared : ℕ → Bool}
    (htrace : Trace (Sends L config base sources fs₀) (.between 0) pipeline.known q)
    (hlooked : ∀ i, q.begun i = true → prepared i = true) :
    WritePipeline.Upholds (committer L config faults)
      (Replayed L config faults base sources fs₀ R prepared)
      (Replayed L config faults base sources fs₀ R prepared)
      (Cleaned L config faults base sources fs₀ R prepared) pipeline.submitted where
  commit t done item hnext ht := (replayed_commit hR htrace hlooked t done item hnext ht).1
  finish _ _ ht := ht
  finishError _ _ herror _ := nomatch herror
  abandon t _ ht := ⟨t, ht, rfl⟩

/-! ### Counting -/

/-- The events sent before a place. -/
def sentCount (sources : List Source) : Place → ℕ
  | .between i => eventCount (sources.take i)
  | .inside i k => eventCount (sources.take i) + 1 + k

theorem eventCount_take_succ {i : ℕ} {source : Source} (h : sources[i]? = some source) :
    eventCount (sources.take (i + 1)) = eventCount (sources.take i) + (source.inputs.length + 2) := by
  rw [List.take_add_one, h]
  simp [eventCount]

variable (sources) in
theorem eventCount_take_le (i : ℕ) : eventCount (sources.take i) ≤ eventCount sources := by
  conv_rhs => rw [← List.take_append_drop i sources]
  simp only [eventCount, List.map_append, List.sum_append]
  exact Nat.le_add_right _ _

theorem sentCount_lt {p q : Place} {event : PipelineEvent} (h : Sends L config base sources fs₀ p event q) :
    sentCount sources p < sentCount sources q ∧ sentCount sources q ≤ eventCount sources := by
  cases h with
  | @result i source record hsource hplan =>
      have hsucc := eventCount_take_succ hsource
      have hle := eventCount_take_le sources (i + 1)
      simp only [sentCount]
      omega
  | @begin i source start fs hsource hplan =>
      have hsucc := eventCount_take_succ hsource
      have hle := eventCount_take_le sources (i + 1)
      simp only [sentCount]
      omega
  | @sample i k source input hsource hinput =>
      have hsucc := eventCount_take_succ hsource
      have hle := eventCount_take_le sources (i + 1)
      have hk := (List.getElem?_eq_some_iff.mp hinput).1
      have hsent := source.length_sent_le
      simp only [sentCount]
      omega
  | @finish i k source hsource hall hstop =>
      have hsucc := eventCount_take_succ hsource
      have hle := eventCount_take_le sources (i + 1)
      have hsent := source.length_sent_le
      simp only [sentCount]
      omega
  | @abort i k source error hsource hall hstop herror =>
      have hsucc := eventCount_take_succ hsource
      have hle := eventCount_take_le sources (i + 1)
      have hsent := source.length_sent_le
      simp only [sentCount]
      omega

theorem length_le_sentCount {es : List PipelineEvent} {q : Place}
    (h : Trace (Sends L config base sources fs₀) (.between 0) es q) : es.length ≤ sentCount sources q := by
  induction h with
  | nil => exact Nat.zero_le _
  | snoc htrace hsend ih =>
      have hlt := (sentCount_lt hsend).1
      rw [List.length_append, List.length_singleton]
      omega

/-! ### Steps inside the pipeline -/

theorem phase_inner {s s' : WritePipeline PipelineEvent PipelineCommitter} {a : WriteAct PipelineEvent}
    {K : Committer PipelineEvent PipelineCommitter} (hinner : isInner a = true) (hs : s.step K a = some s') :
    (working s.phase = true → working s'.phase = true) ∧
      (s.phase = .finishing → s'.phase = .finishing ∨ ∃ result, s'.phase = .finished result ∧
        ∀ error, result = .error error → error ∈ s'.errors) ∧
      (s.phase = .draining → s'.phase = .draining ∨ s'.phase = .abandoned) ∧
      (∀ result, s.phase = .finished result → s'.phase = .finished result) ∧
      (s.phase = .abandoned → s'.phase = .abandoned) := by
  have hraise : ∀ (t : WritePipeline PipelineEvent PipelineCommitter) e, t.phase = s.phase →
      s.wantsResult = true ∨ (∃ message, s.phase = .enqueueing message) →
      (working s.phase = true → working (t.raise K e).phase = true) ∧
      (s.phase = .finishing → (t.raise K e).phase = .finishing ∨ ∃ result, (t.raise K e).phase = .finished result ∧
        ∀ error, result = .error error → error ∈ (t.raise K e).errors) ∧
      (s.phase = .draining → (t.raise K e).phase = .draining ∨ (t.raise K e).phase = .abandoned) ∧
      (∀ result, s.phase = .finished result → (t.raise K e).phase = .finished result) ∧
      (s.phase = .abandoned → (t.raise K e).phase = .abandoned) := by
    intro t e hphase hwhere
    rw [WritePipeline.errors_raise]
    unfold WritePipeline.raise
    rw [hphase]
    cases hp : s.phase <;>
      simp_all [working, WritePipeline.wantsResult, WritePipeline.abandon]
  cases WritePipeline.moves_of_step hs with
  | send item hphase => cases hinner
  | enqueued hphase =>
      unfold WritePipeline.enqueued
      cases checkedAdd s.sequence 1 with
      | none => exact hraise _ _ rfl (.inr ⟨_, hphase⟩)
      | some n => simp [hphase, working]
  | refused hphase => cases hinner
  | @received result pool t hwant hrecv hone =>
      have hframe := WritePipeline.completeOne_sent (K := K) { s with pool } result
      rw [hone] at hframe
      have hphase : t.phase = s.phase := hframe.1
      simp only [hphase]
      cases hp : s.phase <;> simp_all [working, WritePipeline.wantsResult, WritePipeline.credited]
  | @broken result pool t e hwant hrecv hone =>
      have hframe := WritePipeline.completeOne_sent (K := K) { s with pool } result
      rw [hone] at hframe
      exact hraise _ _ hframe.1 (.inl hwant)
  | interrupted e hwant hrecv => exact hraise _ _ rfl (.inl hwant)
  | finish hphase => cases hinner
  | finishIncomplete hphase => cases hinner
  | closed hphase hout =>
      have hclose : ∃ result, (s.close K).phase = .finished result ∧
          ∀ error, result = .error error → error ∈ (s.close K).errors := by
        unfold WritePipeline.close
        split_ifs
        · exact ⟨.error .workerFailed, by simp [WritePipeline.raise, hphase, WritePipeline.abandon]⟩
        · cases hf : (K.finish s.target).2 with
          | error e => exact ⟨.error e, by simp [hf, WritePipeline.raise, hphase, WritePipeline.abandon]⟩
          | ok u => exact ⟨.ok (), by simp [hf]⟩
      simp [hphase, working, hclose]
  | drained hphase hout => simp [hphase, working, WritePipeline.abandon]
  | dropped hphase => cases hinner
  | start hpool => exact ⟨id, .inl, .inl, fun _ h => h, id⟩
  | complete hpool => exact ⟨id, .inl, .inl, fun _ h => h, id⟩

theorem drained_step {s s' : WritePipeline PipelineEvent PipelineCommitter} {a : WriteAct PipelineEvent}
    {K : Committer PipelineEvent PipelineCommitter} (hinv : s.Inv)
    (h : s.phase = .abandoned → s.errors = [] → s.committed = s.submitted) (hinner : isInner a = true)
    (hs : s.step K a = some s') (hphase' : s'.phase = .abandoned) (hnone : s'.errors = []) :
    s'.committed = s'.submitted := by
  cases WritePipeline.moves_of_step hs with
  | send item hphase => cases hinner
  | enqueued hphase =>
      unfold WritePipeline.enqueued at hphase' hnone
      cases hadd : checkedAdd s.sequence 1 with
      | none => simp [hadd] at hnone
      | some n => simp [hadd] at hphase'
  | refused hphase => cases hinner
  | @received result pool t hwant hrecv hone =>
      have hframe := WritePipeline.completeOne_sent (K := K) { s with pool } result
      rw [hone] at hframe
      have hphase : t.phase = s.phase := hframe.1
      rw [hphase] at hphase'
      cases hp : s.phase <;> simp [hp, WritePipeline.wantsResult, WritePipeline.credited] at hwant hphase'
  | broken hwant hrecv hone => simp at hnone
  | interrupted e hwant hrecv => simp at hnone
  | finish hphase => cases hinner
  | finishIncomplete hphase => cases hinner
  | closed hphase hout =>
      obtain ⟨-, hfinishing, -⟩ := phase_inner hinner hs
      rcases hfinishing hphase with hp | ⟨r, hp⟩ <;> simp [hp] at hphase'
  | drained hphase hout =>
      rcases hinv with ⟨hl, hclean, -⟩ | hc
      · exact (hl.all_committed (hclean hnone) hout).2
      · rcases hc.phase with hp | ⟨r, hp⟩ <;> simp [hphase] at hp
  | dropped hphase => cases hinner
  | start hpool => exact h hphase' hnone
  | complete hpool => exact h hphase' hnone

theorem numbers_lt (L : StorageLib) (config : WriterConfig) (faults : ℕ → WriterFaults) :
    (committer L config faults).numbers < wordSize := by
  show wordSize - 1 < wordSize
  decide

/-- An error ends the trace where the last accepted event led. -/
theorem follows_of_error (stage' : Stage) {known : List PipelineEvent}
    {pipeline' : WritePipeline PipelineEvent PipelineCommitter} {q : Place} {prepared : ℕ → Bool}
    (htrace : Trace (Sends L config base sources fs₀) (.between 0) known q)
    (hlooked : ∀ i, q.begun i = true → prepared i = true) (hne : pipeline'.errors ≠ [])
    (hpre : pipeline'.known <+: known)
    (hupheld : pipeline'.Upheld (Replayed L config faults base sources fs₀ R prepared)
      (Replayed L config faults base sources fs₀ R prepared)
      (Cleaned L config faults base sources fs₀ R prepared)) :
    ∃ q', Follows L config faults base sources fs₀ R Q stage' pipeline' q' prepared := by
  obtain ⟨rest, rfl⟩ := hpre
  obtain ⟨q', hq', hlast⟩ := htrace.split
  exact ⟨q', hq', fun i hi => hlooked i (begun_trace hlast hi), fun hnone => absurd hnone hne, hupheld⟩

/-- Only an interrupt makes a step inside the pipeline fail. -/
theorem fault_inner (hR : Footprints L config faults base sources fs₀ R) {s : ListWrite}
    (h : Tracks L config faults base sources fs₀ R Q s) {a : WriteAct PipelineEvent} {error : CacheError}
    (hinner : isInner a = true) (hfault : WritePipeline.Fault (committer L config faults) s.pipeline a error) :
    a = .interrupt error := by
  obtain ⟨q, prepared, hfollows⟩ := h.follows
  cases hfault with
  | overflow hfirst hadd => cases hinner
  | overflowLate hphase hadd =>
      have hlt := h.counted.numbered.succ_lt rfl (by rw [hphase]; rfl)
      rw [checkedAdd, if_pos hlt] at hadd
      cases hadd
  | refused => cases hinner
  | @broken r pool t e hwant hrecv hone =>
      have hok := WritePipeline.completeOne_ok (h.counted.inv.ledger_of_wantsResult hwant)
        (replayed_commit hR hfollows.trace hfollows.looked)
        (lt_of_le_of_lt h.counted.submitted_le (numbers_lt L config faults)) hrecv hone
        (WritePipeline.upheld_of_wantsResult hfollows.upheld hwant)
      cases hok
  | interrupted e => rfl
  | pending hphase hout hpending =>
      rcases h.counted.inv with ⟨hl, hclean, hphaseOk⟩ | hc
      · simp only [WritePipeline.PhaseOk, hphase] at hphaseOk
        exact absurd (hl.all_committed (hclean hphaseOk) hout).1 hpending
      · rcases hc.phase with hp | ⟨r, hp⟩ <;> simp [hphase] at hp
  | unfinished hphase hout hfinish => cases hfinish

theorem tracks_inner (hR : Footprints L config faults base sources fs₀ R) {s : ListWrite}
    (h : Tracks L config faults base sources fs₀ R Q s) {a : WriteAct PipelineEvent}
    (hinner : isInner a = true) (hQ : ∀ error, a = .interrupt error → Q error)
    {pipeline : WritePipeline PipelineEvent PipelineCommitter}
    (hs : s.pipeline.step (committer L config faults) a = some pipeline) :
    Tracks L config faults base sources fs₀ R Q { s with pipeline } := by
  have herrors := WritePipeline.errors_step hs
  have hgrow : ∀ e ∈ s.pipeline.errors, e ∈ pipeline.errors := by
    intro e he
    rcases herrors with heq | ⟨e', heq, -⟩
    · rw [heq]
      exact he
    · rw [heq]
      exact List.mem_append_left _ he
  obtain ⟨hworking, hfinishing, hdraining, hfinished, habandoned⟩ := phase_inner hinner hs
  refine ⟨WritePipeline.counted_step h.counted hs, ?_, ?_, ?_, ?_⟩
  · have hstage := h.stage
    unfold StageOk at hstage ⊢
    cases hst : s.stage with
    | source i =>
        simp only [hst] at hstage
        exact ⟨hstage.1, hworking hstage.2⟩
    | begun i =>
        simp only [hst] at hstage
        exact ⟨hstage.1, hworking hstage.2⟩
    | sampling i k =>
        simp only [hst] at hstage
        exact ⟨hstage.1, hworking hstage.2⟩
    | ended =>
        simp only [hst] at hstage
        rcases hstage with hp | ⟨result, hp, hmem⟩
        · exact hfinishing hp
        · exact .inr ⟨result, hfinished result hp, fun error herror => hgrow error (hmem error herror)⟩
    | failed error =>
        simp only [hst] at hstage
        refine ⟨?_, hstage.2.imp_right (hgrow error)⟩
        rcases hstage.1 with hp | hp
        · exact hdraining hp
        · exact .inr (habandoned hp)
  · intro e he
    rcases herrors with heq | ⟨e', heq, hfault⟩
    · rw [heq] at he
      exact h.errors e he
    · rw [heq] at he
      rcases List.mem_append.mp he with he | he
      · exact h.errors e he
      · rw [List.mem_singleton.mp he]
        exact .inl (hQ e' (fault_inner hR h hinner hfault))
  · intro hphase hnone
    exact drained_step h.counted.inv h.drained hinner hs hphase hnone
  · obtain ⟨q, prepared, hfollows⟩ := h.follows
    have hupheld := WritePipeline.upheld_step h.counted.inv (replayed_upholds hR hfollows.trace hfollows.looked)
      hfollows.upheld hs
    rcases WritePipeline.known_step hs with ⟨hne, hpre⟩ | ⟨heq, ⟨item, rfl, -⟩ | ⟨-, hknown⟩⟩
    · obtain ⟨q', hq'⟩ := follows_of_error s.stage hfollows.trace hfollows.looked hne hpre hupheld
      exact ⟨q', prepared, hq'⟩
    · cases hinner
    · exact ⟨q, prepared, hknown ▸ hfollows.trace, hfollows.looked, fun hnone => hfollows.exact (heq ▸ hnone), hupheld⟩

/-! ### Steps of the calling thread -/

theorem Tracks.ready {s : ListWrite} (h : Tracks L config faults base sources fs₀ R Q s)
    (hphase : s.pipeline.phase = .ready) :
    s.pipeline.errors = [] ∧ s.pipeline.sequence = s.pipeline.submitted.length ∧
      s.pipeline.known = s.pipeline.submitted := by
  refine and_assoc.mp ⟨?_, by simp [WritePipeline.known, WritePipeline.inHand, hphase]⟩
  rcases h.counted.inv with ⟨-, -, hphaseOk⟩ | hc
  · simpa only [WritePipeline.PhaseOk, hphase] using hphaseOk
  · rcases hc.phase with hp | ⟨r, hp⟩ <;> simp [hphase] at hp

/-- The ingestion ends with an error. -/
theorem tracks_fail (hR : Footprints L config faults base sources fs₀ R) {s s' : ListWrite}
    (h : Tracks L config faults base sources fs₀ R Q s) {error : CacheError}
    (hreason : s.pipeline.phase = .ready ∧ (∀ q, AtStage L config base sources fs₀ Q s.stage q →
        Stops L config base sources fs₀ Q q error) ∨
      s.pipeline.phase = .failed ∧ error ∈ s.pipeline.errors)
    (hs : s.fail L config faults error = some s') : Tracks L config faults base sources fs₀ R Q s' := by
  obtain ⟨pipeline, hstep, rfl⟩ := Option.map_eq_some_iff.mp hs
  have herrors : pipeline.errors = s.pipeline.errors ∧ pipeline.phase = .draining ∧
      pipeline.known = s.pipeline.known := by
    cases WritePipeline.moves_of_step hstep with
    | finishIncomplete hphase =>
        rcases hphase with hphase | hphase <;>
          simp [WritePipeline.known, WritePipeline.inHand, hphase]
  obtain ⟨herrors, hdraining, hknown⟩ := herrors
  obtain ⟨q, prepared, hfollows⟩ := h.follows
  refine ⟨WritePipeline.counted_step h.counted hstep, ⟨.inl hdraining, ?_⟩, ?_, ?_, q, prepared, ?_⟩
  · rcases hreason with ⟨hphase, hstops⟩ | ⟨-, hmem⟩
    · exact .inl ⟨q, hstops q (hfollows.exact (h.ready hphase).1).1⟩
    · exact .inr (by rw [herrors]; exact hmem)
  · intro e he
    exact h.errors e (by rw [← herrors]; exact he)
  · intro hphase
    rw [hdraining] at hphase
    cases hphase
  · refine ⟨hknown ▸ hfollows.trace, hfollows.looked, fun hnone => ?_,
      WritePipeline.upheld_step h.counted.inv (replayed_upholds hR hfollows.trace hfollows.looked) hfollows.upheld hstep⟩
    rw [herrors] at hnone
    obtain ⟨hat, hprepared⟩ := hfollows.exact hnone
    refine ⟨?_, hprepared⟩
    rcases hreason with ⟨-, hstops⟩ | ⟨-, hmem⟩
    · exact hstops q hat
    · rw [hnone] at hmem
      cases hmem

/-- An event is sent at `q`; what the calling thread did to the disk before is in `hJ`. -/
theorem tracks_send (hR : Footprints L config faults base sources fs₀ R) (stage' : Stage)
    (prepared : ℕ → Bool) {s s' : ListWrite} {event : PipelineEvent} {q q' : Place}
    (hcounted : WritePipeline.Counted (committer L config faults) s.pipeline)
    (hready : s.pipeline.phase = .ready) (hnone : s.pipeline.errors = [])
    (hsequence : s.pipeline.sequence = s.pipeline.submitted.length)
    (htrace : Trace (Sends L config base sources fs₀) (.between 0) s.pipeline.known q)
    (hsend : Sends L config base sources fs₀ q event q') (hprepared : ∀ i, prepared i = q'.begun i)
    (hJ : Replayed L config faults base sources fs₀ R prepared s.pipeline.target s.pipeline.committed)
    (hat : AtStage L config base sources fs₀ Q stage' q')
    (hstage : ∀ pipeline, working pipeline.phase = true → StageOk L config base sources fs₀ Q ⟨pipeline, stage'⟩)
    (hs : s.sendEvent L config faults event stage' = some s') :
    Tracks L config faults base sources fs₀ R Q s' := by
  obtain ⟨pipeline, hstep, rfl⟩ := Option.map_eq_some_iff.mp hs
  have hlooked : ∀ i, q.begun i = true → prepared i = true := fun i hi => by
    rw [hprepared]
    exact hsend.begun_mono hi
  have hupheld := WritePipeline.upheld_step hcounted.inv (replayed_upholds hR htrace hlooked)
    (by simpa only [WritePipeline.Upheld, hready] using hJ) hstep
  have hworking : working pipeline.phase = true := by
    cases WritePipeline.moves_of_step hstep with
    | send item hphase =>
        unfold WritePipeline.send
        split_ifs
        · simp [WritePipeline.raise, hready, working]
        · rfl
        · rfl
  refine ⟨WritePipeline.counted_step hcounted hstep, hstage pipeline hworking, ?_, ?_, ?_⟩
  · intro e he
    rcases WritePipeline.errors_step hstep with heq | ⟨e', heq, hfault⟩
    · rw [heq, hnone] at he
      cases he
    · rw [heq, hnone, List.nil_append] at he
      rw [List.mem_singleton.mp he]
      cases hfault with
      | overflow hfirst hadd =>
          refine .inr ⟨rfl, ?_⟩
          obtain ⟨-, hcount⟩ := sentCount_lt hsend
          have hlen := length_le_sentCount (htrace.snoc hsend)
          simp only [WritePipeline.known, hready, WritePipeline.inHand, List.append_nil, List.length_append,
            List.length_singleton] at hlen
          unfold checkedAdd at hadd
          split_ifs at hadd
          omega
  · intro hphase
    rw [hphase] at hworking
    cases hworking
  · rcases WritePipeline.known_step hstep with ⟨hne, hpre⟩ | ⟨heq, ⟨item, hitem, -, hknown⟩ | ⟨hno, -⟩⟩
    · obtain ⟨r, hr⟩ := follows_of_error stage' htrace hlooked hne hpre hupheld
      exact ⟨r, prepared, hr⟩
    · obtain rfl : event = item := by simpa using hitem
      refine ⟨q', prepared, ?_, fun i hi => by rw [hprepared]; exact hi, fun _ => ⟨hat, hprepared⟩, hupheld⟩
      rw [hknown]
      exact htrace.snoc hsend
    · exact absurd rfl (hno event)

theorem Replayed.prepare {prepared prepared' : ℕ → Bool} {t : PipelineCommitter} {done : List PipelineEvent}
    (h : Replayed L config faults base sources fs₀ R prepared t done) (fs : FileTree)
    (hdisk : ∀ p, Trace (Sends L config base sources fs₀) (.between 0) done p →
      (∀ j source, sources[j]? = some source →
        R j t.fs (expectedFs L config faults base fs₀ (prepared j) p j source)) →
      ∀ j source, sources[j]? = some source →
        R j fs (expectedFs L config faults base fs₀ (prepared' j) p j source)) :
    Replayed L config faults base sources fs₀ R prepared' { t with fs } done := by
  obtain ⟨p, htrace, hsnap⟩ := h
  exact ⟨p, htrace, ⟨hsnap.length, hsnap.done, hsnap.open_, hsnap.active, hdisk p htrace hsnap.disk⟩⟩

theorem expectedFs_of_not_begun {p : Place} {i : ℕ} (hp : p.begun i = false) (b : Bool) (source : Source) :
    expectedFs L config faults base fs₀ b p i source =
      match planSource L config base fs₀ i source with
      | .write _ fs => if b then fs else fs₀
      | _ => fs₀ := by
  cases p with
  | between m =>
      simp only [Place.begun, decide_eq_false_iff_not, not_lt] at hp
      cases hplan : planSource L config base fs₀ i source <;>
        simp only [expectedFs, Place.index, Nat.not_lt.mpr hp, if_false, hplan]
  | inside m k =>
      simp only [Place.begun, decide_eq_false_iff_not, not_le] at hp
      cases hplan : planSource L config base fs₀ i source <;>
        simp only [expectedFs, Place.index, Nat.not_lt.mpr (Nat.le_of_lt hp), if_false, Nat.ne_of_gt hp, hplan]

/-- `ingest_one_source` up to the iterator. -/
theorem tracks_ingestOneSource (hR : Footprints L config faults base sources fs₀ R) {s s' : ListWrite}
    (h : Tracks L config faults base sources fs₀ R Q s) {i : ℕ} {source : Source}
    (hready : s.pipeline.phase = .ready) (hst : s.stage = .source i) (hsource : sources[i]? = some source)
    (hs : s.ingestOneSource L config faults base i source = some s') :
    Tracks L config faults base sources fs₀ R Q s' := by
  obtain ⟨hnone, hsequence, hknown⟩ := h.ready hready
  obtain ⟨q, prepared, hfollows⟩ := h.follows
  obtain ⟨hat, hprepared⟩ := hfollows.exact hnone
  rw [hst] at hat
  obtain rfl : q = .between i := hat
  have hlt : i < sources.length := (List.getElem?_eq_some_iff.mp hsource).1
  have hJ : Replayed L config faults base sources fs₀ R prepared s.pipeline.target s.pipeline.committed := by
    simpa only [WritePipeline.Upheld, hready] using hfollows.upheld
  -- The committer is not beyond the calling thread, so it has not touched this source.
  have hbehind : ∀ p, Trace (Sends L config base sources fs₀) (.between 0) s.pipeline.committed p →
      p.begun i = false := by
    intro p hp
    obtain ⟨rest, hrest⟩ := h.counted.inv.committed_prefix.trans s.pipeline.submitted_prefix_known
    have htrace := hfollows.trace
    rw [← hrest] at htrace
    obtain ⟨p', hp', hlast⟩ := htrace.split
    obtain rfl := hp.unique Sends.unique hp'
    by_contra hc
    have := begun_trace hlast (Bool.not_eq_false _ ▸ hc)
    simp [Place.begun] at this
  have hsees : R i s.fs fs₀ := by
    show R i s.pipeline.target.fs fs₀
    obtain ⟨p, hp, hsnap⟩ := hJ
    have hdisk := hsnap.disk i source hsource
    rw [expectedFs_of_not_begun (hbehind p hp), hprepared] at hdisk
    simp only [Place.begun, lt_irrefl, decide_false, Bool.false_eq_true, if_false] at hdisk
    cases hplan : planSource L config base fs₀ i source <;> simpa only [hplan] using hdisk
  have hplans := hR.plan i source s.fs hsource hsees
  rw [ingestOneSource_eq] at hs
  cases hplan : planSource L config base fs₀ i source with
  | interrupt error =>
      simp only [hplan] at hplans
      simp only [hplans] at hs
      refine tracks_fail hR h (.inl ⟨hready, fun q hq => ?_⟩) hs
      rw [hst] at hq
      obtain rfl : q = .between i := hq
      exact .name hsource hplan
  | result record =>
      simp only [hplan] at hplans
      simp only [hplans] at hs
      refine tracks_send hR (.source (i + 1)) (Place.between (i + 1)).begun h.counted hready hnone hsequence
        hfollows.trace (.result hsource hplan) (fun _ => rfl) ?_ rfl (fun _ hw => ⟨hlt, hw⟩) hs
      refine hJ.prepare s.pipeline.target.fs fun p hp hdisk j source' hsource' => ?_
      by_cases hj : j = i
      · subst hj
        obtain rfl : source' = source := by rw [hsource] at hsource'; exact (Option.some.inj hsource').symm
        rw [expectedFs_of_not_begun (hbehind p hp), hplan]
        exact hsees
      · have hsame : (Place.between (i + 1)).begun j = prepared j := by
          rw [hprepared]
          simp only [Place.begun, decide_eq_decide]
          omega
        rw [hsame]
        exact hdisk j source' hsource'
  | write start x =>
      simp only [hplan] at hplans
      obtain ⟨y, hy, hown, hother⟩ := hplans
      simp only [hy] at hs
      refine tracks_send hR (.begun i) (Place.inside i 0).begun (s := s.withFs y) ?_ hready hnone hsequence
        hfollows.trace (.begin hsource hplan) (fun _ => rfl) ?_ rfl (fun _ hw => ⟨hlt, hw⟩) hs
      · exact h.counted.withTarget _
      · refine hJ.prepare y fun p hp hdisk j source' hsource' => ?_
        by_cases hj : j = i
        · subst hj
          obtain rfl : source' = source := by rw [hsource] at hsource'; exact (Option.some.inj hsource').symm
          rw [expectedFs_of_not_begun (hbehind p hp), hplan]
          simp only [Place.begun, le_refl, decide_true, if_true]
          exact hown
        · have hsame : (Place.inside i 0).begun j = prepared j := by
            rw [hprepared]
            simp only [Place.begun, decide_eq_decide]
            omega
          rw [hsame]
          exact hother j _ hj (hdisk j source' hsource')

theorem tracks_send_inside (hR : Footprints L config faults base sources fs₀ R) {s s' : ListWrite}
    (h : Tracks L config faults base sources fs₀ R Q s) (stage' : Stage) {event : PipelineEvent} {i k : ℕ}
    {q' : Place} (hready : s.pipeline.phase = .ready)
    (hat : ∀ q, AtStage L config base sources fs₀ Q s.stage q → q = .inside i k)
    (hsend : Sends L config base sources fs₀ (.inside i k) event q')
    (hat' : AtStage L config base sources fs₀ Q stage' q')
    (hstage : ∀ pipeline, working pipeline.phase = true → StageOk L config base sources fs₀ Q ⟨pipeline, stage'⟩)
    (hs : s.sendEvent L config faults event stage' = some s') :
    Tracks L config faults base sources fs₀ R Q s' := by
  obtain ⟨hnone, hsequence, hknown⟩ := h.ready hready
  obtain ⟨q, prepared, hfollows⟩ := h.follows
  obtain ⟨hq, hprepared⟩ := hfollows.exact hnone
  obtain rfl := hat q hq
  have hsame : ∀ j, prepared j = q'.begun j := by
    intro j
    rw [hprepared]
    cases hsend <;> simp only [Place.begun, Nat.lt_succ_iff]
  refine tracks_send hR stage' prepared h.counted hready hnone hsequence hfollows.trace hsend hsame ?_ hat' hstage hs
  simpa only [WritePipeline.Upheld, hready] using hfollows.upheld

/-- The iterator raised: an interrupt ends the call, another error the source. -/
theorem tracks_raised (hR : Footprints L config faults base sources fs₀ R) {s s' : ListWrite}
    (h : Tracks L config faults base sources fs₀ R Q s) (hready : s.pipeline.phase = .ready) {i k : ℕ}
    {source : Source} {error : CacheError} (hsource : sources[i]? = some source)
    (hat : ∀ q, AtStage L config base sources fs₀ Q s.stage q → q = .inside i k) (hall : k = source.sent.length)
    (hstop : source.stop = some error) (hs : s.iterationError L config faults i error = some s') :
    Tracks L config faults base sources fs₀ R Q s' := by
  have hlt := (List.getElem?_eq_some_iff.mp hsource).1
  unfold iterationError at hs
  split_ifs at hs with hint
  · refine tracks_fail hR h (.inl ⟨hready, fun q hq => ?_⟩) hs
    rw [hat q hq]
    exact .source hsource hall hstop hint
  · exact tracks_send_inside hR h (.source (i + 1)) hready hat
      (.abort hsource hall hstop (by simpa using hint)) rfl (fun _ hw => ⟨hlt, hw⟩) hs

theorem tracks_exhausted (hR : Footprints L config faults base sources fs₀ R) {s s' : ListWrite}
    (h : Tracks L config faults base sources fs₀ R Q s) {i : ℕ} (hready : s.pipeline.phase = .ready)
    (hst : s.stage = .source i) (hsource : sources[i]? = none) (hs : s.ingest L config faults base sources = some s') :
    Tracks L config faults base sources fs₀ R Q s' := by
  have hstage := h.stage
  unfold StageOk at hstage
  unfold ingest at hs
  simp only [hst, hsource] at hs hstage
  have hi : i = sources.length := le_antisymm hstage.1 (List.getElem?_eq_none_iff.mp hsource)
  obtain ⟨pipeline, hstep, rfl⟩ := Option.map_eq_some_iff.mp hs
  obtain ⟨q, prepared, hfollows⟩ := h.follows
  have hupheld := WritePipeline.upheld_step h.counted.inv
    (replayed_upholds hR hfollows.trace hfollows.looked) hfollows.upheld hstep
  have hcounted := WritePipeline.counted_step h.counted hstep
  cases WritePipeline.moves_of_step hstep with
  | finish hphase =>
      refine ⟨hcounted, .inl rfl, h.errors, nofun, q, prepared, ?_, hfollows.looked, ?_, hupheld⟩
      · have hknown : ({ s.pipeline with phase := .finishing } :
            WritePipeline PipelineEvent PipelineCommitter).known = s.pipeline.known := by
          simp [WritePipeline.known, WritePipeline.inHand, hready]
        exact hknown ▸ hfollows.trace
      · intro hnone
        obtain ⟨hat, hprepared⟩ := hfollows.exact hnone
        rw [hst, hi] at hat
        exact ⟨hat, hprepared⟩

theorem tracks_begun (hR : Footprints L config faults base sources fs₀ R) {s s' : ListWrite}
    (h : Tracks L config faults base sources fs₀ R Q s) {i : ℕ} (hready : s.pipeline.phase = .ready)
    (hst : s.stage = .begun i) (hs : s.ingest L config faults base sources = some s') :
    Tracks L config faults base sources fs₀ R Q s' := by
  have hstage := h.stage
  unfold StageOk at hstage
  unfold ingest at hs
  simp only [hst] at hs hstage
  have hat : ∀ q, AtStage L config base sources fs₀ Q s.stage q → q = .inside i 0 := by
    rw [hst]
    exact fun _ hq => hq
  cases hsource : sources[i]? with
  | none => simp [hsource] at hs
  | some source =>
      simp only [hsource] at hs
      cases hiter : source.iter with
      | some error =>
          simp only [hiter] at hs
          exact tracks_raised hR h hready hsource hat (by simp [Source.sent, hiter]) (by simp [Source.stop, hiter]) hs
      | none =>
          simp only [hiter, hready, if_true, Option.some.injEq] at hs
          subst hs
          obtain ⟨q, prepared, hfollows⟩ := h.follows
          refine ⟨h.counted, ?_, h.errors, h.drained, q, prepared, hfollows.trace, hfollows.looked, ?_,
            hfollows.upheld⟩
          · exact ⟨⟨source, hsource, hiter, Nat.zero_le _⟩, hstage.2⟩
          · intro hnone
            exact ⟨hat q (hfollows.exact hnone).1, (hfollows.exact hnone).2⟩

theorem tracks_sampling (hR : Footprints L config faults base sources fs₀ R) {s s' : ListWrite}
    (h : Tracks L config faults base sources fs₀ R Q s) {i k : ℕ} (hready : s.pipeline.phase = .ready)
    (hst : s.stage = .sampling i k) (hs : s.ingest L config faults base sources = some s') :
    Tracks L config faults base sources fs₀ R Q s' := by
  have hstage := h.stage
  unfold StageOk at hstage
  unfold ingest at hs
  simp only [hst] at hs hstage
  have hat : ∀ q, AtStage L config base sources fs₀ Q s.stage q → q = .inside i k := by
    rw [hst]
    exact fun _ hq => hq
  obtain ⟨⟨source, hsource, hiter, hk⟩, hworking⟩ := hstage
  have hlt := (List.getElem?_eq_some_iff.mp hsource).1
  have hsent : source.sent = source.inputs := by simp [Source.sent, hiter]
  simp only [hsource] at hs
  cases hinput : source.inputs[k]? with
  | some input =>
      simp only [hinput] at hs
      refine tracks_send_inside hR h (.sampling i (k + 1)) hready hat
        (.sample hsource (by rw [hsent]; exact hinput)) rfl (fun _ hw => ⟨⟨source, hsource, hiter, ?_⟩, hw⟩) hs
      exact (List.getElem?_eq_some_iff.mp hinput).1
  | none =>
      have hall : k = source.sent.length := by
        rw [hsent]
        exact le_antisymm hk (List.getElem?_eq_none_iff.mp hinput)
      simp only [hinput] at hs
      cases hending : source.ending with
      | some error =>
          simp only [hending] at hs
          exact tracks_raised hR h hready hsource hat hall (by simp [Source.stop, hiter, hending]) hs
      | none =>
          simp only [hending] at hs
          exact tracks_send_inside hR h (.source (i + 1)) hready hat
            (.finish hsource hall (by simp [Source.stop, hiter, hending])) rfl (fun _ hw => ⟨hlt, hw⟩) hs

theorem tracks_ingest (hR : Footprints L config faults base sources fs₀ R) {s s' : ListWrite}
    (h : Tracks L config faults base sources fs₀ R Q s) (hready : s.pipeline.phase = .ready)
    (hs : s.ingest L config faults base sources = some s') :
    Tracks L config faults base sources fs₀ R Q s' := by
  cases hst : s.stage with
  | source i =>
      cases hsource : sources[i]? with
      | some source =>
          unfold ingest at hs
          simp only [hst, hsource] at hs
          exact tracks_ingestOneSource hR h hready hst hsource hs
      | none => exact tracks_exhausted hR h hready hst hsource hs
  | begun i => exact tracks_begun hR h hready hst hs
  | sampling i k => exact tracks_sampling hR h hready hst hs
  | ended => simp [ingest, hst] at hs
  | failed error => simp [ingest, hst] at hs

/-- The interrupts of an action. -/
def ListAct.Signals (Q : CacheError → Prop) : ListAct → Prop
  | .signal error => Q error
  | .pipeline (.interrupt error) => Q error
  | _ => True

theorem tracks_step (hR : Footprints L config faults base sources fs₀ R) {s s' : ListWrite}
    (h : Tracks L config faults base sources fs₀ R Q s) {a : ListAct} (hQ : ListAct.Signals Q a)
    (hs : s.step L config faults base sources a = some s') :
    Tracks L config faults base sources fs₀ R Q s' := by
  rcases step_cases hs with ⟨rfl, hready, hs⟩ | ⟨error, rfl, -, hready, hs⟩ | ⟨error, rfl, hfailed, hmem, hs⟩ |
    ⟨act, pipeline, rfl, hinner, hstep, rfl⟩
  · exact tracks_ingest hR h hready hs
  · exact tracks_fail hR h (.inl ⟨hready, fun _ _ => .signal hQ⟩) hs
  · exact tracks_fail hR h (.inr ⟨hfailed, hmem⟩) hs
  · refine tracks_inner hR h hinner (fun error herror => ?_) hstep
    subst herror
    exact hQ

/-! ### Whole calls -/

theorem tracks_new (hR : Footprints L config faults base sources fs₀ R) :
    Tracks L config faults base sources fs₀ R Q (new config sources fs₀) := by
  have hfs : ∀ i source, expectedFs L config faults base fs₀ ((Place.between 0).begun i) (.between 0) i source =
      fs₀ := by
    intro i source
    rw [expectedFs_of_not_begun (by simp [Place.begun])]
    cases planSource L config base fs₀ i source <;> simp [Place.begun]
  refine ⟨WritePipeline.counted_new _ _ _, ⟨Nat.zero_le _, rfl⟩, by simp [new, WritePipeline.new],
    by simp [new, WritePipeline.new], .between 0, (Place.between 0).begun, .nil _, fun _ hi => hi,
    fun _ => ⟨rfl, fun _ => rfl⟩, .between 0, .nil _, ?_⟩
  exact
    { length := by simp [new, WritePipeline.new, PipelineCommitter.new]
      done := fun i source _ hi => absurd hi (Nat.not_lt_zero i)
      open_ := fun i hi _ => by simp [new, WritePipeline.new, PipelineCommitter.new, hi]
      active := rfl
      disk := fun i source _ => by
        rw [hfs]
        exact hR.refl i fs₀ }

theorem mapM_okOr {records : List (Option CacheWriteRecord)} {found : List CacheWriteRecord}
    (h : records.mapM (fun record => okOr record .workerFailed) = .ok found) : records = found.map some := by
  induction records generalizing found with
  | nil =>
      cases h
      rfl
  | cons record rest ih =>
      rw [List.mapM_cons] at h
      obtain ⟨r, hr, h⟩ := bind_eq_ok h
      obtain ⟨rs, hrs, h⟩ := bind_eq_ok h
      cases h
      rw [okOr_eq_ok.mp hr, ih hrs]
      rfl

theorem mapM_okOr_error {records : List (Option CacheWriteRecord)} {error : CacheError}
    (h : records.mapM (fun record => okOr record .workerFailed) = .error error) : none ∈ records := by
  induction records generalizing error with
  | nil => cases h
  | cons record rest ih =>
      cases record with
      | none => exact List.mem_cons_self
      | some r =>
          cases hrest : rest.mapM (fun record => okOr record .workerFailed) with
          | error e => exact List.mem_cons_of_mem _ (ih hrest)
          | ok found =>
              rw [List.mapM_cons, hrest] at h
              cases h

/-- `finish` returned: every source has its result, and the disk is what each of them makes of it. -/
theorem Tracks.finished {s : ListWrite} (h : Tracks L config faults base sources fs₀ R Q s)
    (hphase : s.pipeline.phase = .finished (.ok ())) :
    Trace (Sends L config base sources fs₀) (.between 0) s.pipeline.committed (.between sources.length) ∧
      ∃ prepared, Snapshot L config faults base sources fs₀ R prepared s.pipeline.target
        (.between sources.length) := by
  have hclosed : s.pipeline.errors = [] ∧ s.pipeline.committed = s.pipeline.submitted := by
    rcases h.counted.inv with ⟨-, -, hphaseOk⟩ | hc
    · simp [WritePipeline.PhaseOk, hphase] at hphaseOk
    · exact hc.finished hphase
  have hstage := h.stage
  unfold StageOk at hstage
  have hended : s.stage = .ended := by
    cases hst : s.stage <;> simp [hst, hphase, working] at hstage ⊢
  obtain ⟨q, prepared, hfollows⟩ := h.follows
  obtain ⟨hat, -⟩ := hfollows.exact hclosed.1
  rw [hended] at hat
  have hupheld := hfollows.upheld
  simp only [WritePipeline.Upheld, hphase] at hupheld
  obtain ⟨p, hp, hsnap⟩ := hupheld
  have htrace := hfollows.trace
  simp only [WritePipeline.known, hphase, WritePipeline.inHand, List.append_nil, ← hclosed.2] at htrace
  obtain rfl := hp.unique Sends.unique htrace
  obtain rfl : p = .between sources.length := hat
  exact ⟨hp, prepared, hsnap⟩

theorem finished_of_returned {s : ListWrite} {records : List CacheWriteRecord} (hret : s.returned = some (.ok records)) :
    s.pipeline.phase = .finished (.ok ()) := by
  unfold returned at hret
  split at hret
  · assumption
  · cases hret
  · split at hret <;> cases hret
  · cases hret

/-- **The call returned its records.** -/
theorem Tracks.returned_ok {s : ListWrite} (h : Tracks L config faults base sources fs₀ R Q s)
    {records : List CacheWriteRecord} (hret : s.returned = some (.ok records)) :
    records.length = sources.length ∧ ∀ i source, sources[i]? = some source →
      ∃ fs record, sourceOutcome L config faults base fs₀ i source = some (fs, record) ∧
        records[i]? = some record ∧ R i s.fs fs := by
  have hphase := finished_of_returned hret
  obtain ⟨-, prepared, hsnap⟩ := h.finished hphase
  simp only [returned, hphase, Option.some.injEq] at hret
  have hmap := mapM_okOr hret
  refine ⟨by rw [← hsnap.length, hmap, List.length_map], fun i source hsource => ?_⟩
  have hlt := (List.getElem?_eq_some_iff.mp hsource).1
  obtain ⟨fs, record, houtcome, hrecord⟩ := hsnap.done i source hsource hlt
  have hdisk := hsnap.disk i source hsource
  simp only [expectedFs, Place.index, hlt, if_true, houtcome, Option.map_some, Option.getD_some] at hdisk
  rw [hmap, List.getElem?_map, Option.map_eq_some_iff] at hrecord
  obtain ⟨r, hr, hrr⟩ := hrecord
  exact ⟨fs, record, houtcome, by rw [hr, Option.some.inj hrr], hdisk⟩

/-- **The call returned an error.**  It has a cause, and the committer was cleaned up. -/
theorem Tracks.returned_error {s : ListWrite} (h : Tracks L config faults base sources fs₀ R Q s)
    {error : CacheError} (hret : s.returned = some (.error error)) :
    (Q error ∨ error = .invalidInput "pipeline sequence overflowed u64" ∧ wordSize ≤ eventCount sources ∨
      ∃ q, Stops L config base sources fs₀ Q q error) ∧
    ∃ t p prepared, Trace (Sends L config base sources fs₀) (.between 0) s.pipeline.committed p ∧
      Snapshot L config faults base sources fs₀ R prepared t p ∧
      s.pipeline.target = t.cleanupUnfinishedSource ∧
      (s.pipeline.errors = [] → Stops L config base sources fs₀ Q p error) := by
  have hstage := h.stage
  unfold StageOk at hstage
  obtain ⟨q, prepared, hfollows⟩ := h.follows
  have hupheld := hfollows.upheld
  unfold returned at hret
  cases hp : s.pipeline.phase with
  | finished result =>
      simp only [hp] at hret
      cases result with
      | ok u =>
          -- Every source has a result, so there is nothing to complain about.
          exfalso
          obtain ⟨-, prepared', hsnap⟩ := h.finished hp
          simp only [Option.some.injEq] at hret
          obtain ⟨i, hi, hnone⟩ := List.getElem_of_mem (mapM_okOr_error hret)
          have hlt : i < sources.length := hsnap.length ▸ hi
          obtain ⟨fs, record, -, hrecord⟩ := hsnap.done i sources[i] (List.getElem?_eq_getElem hlt) hlt
          rw [List.getElem?_eq_getElem hi, hnone] at hrecord
          cases hrecord
      | error e =>
          simp only [Option.some.injEq, Except.error.injEq] at hret
          subst hret
          simp only [WritePipeline.Upheld, hp] at hupheld
          obtain ⟨t, ⟨p, htrace, hsnap⟩, htarget⟩ := hupheld
          have hmem : e ∈ s.pipeline.errors := by
            cases hst : s.stage <;> simp [hst, hp, working] at hstage
            exact hstage
          refine ⟨(h.errors e hmem).imp_right .inl, t, p, prepared, htrace, hsnap, htarget, fun hnone => ?_⟩
          rw [hnone] at hmem
          cases hmem
  | abandoned =>
      simp only [hp] at hret
      simp only [WritePipeline.Upheld, hp] at hupheld
      obtain ⟨t, ⟨p, htrace, hsnap⟩, htarget⟩ := hupheld
      cases hst : s.stage with
      | failed e =>
          simp only [hst, Option.some.injEq, Except.error.injEq] at hret
          subst hret
          simp only [hst] at hstage
          refine ⟨?_, t, p, prepared, htrace, hsnap, htarget, fun hnone => ?_⟩
          · rcases hstage.2 with hstops | hmem
            · exact .inr (.inr hstops)
            · exact (h.errors e hmem).imp_right .inl
          · obtain ⟨hat, -⟩ := hfollows.exact hnone
            have hall := hfollows.trace
            simp only [WritePipeline.known, hp, WritePipeline.inHand, List.append_nil, ← h.drained hp hnone] at hall
            obtain rfl := htrace.unique Sends.unique hall
            rw [hst] at hat
            exact hat
      | source i => simp [hst] at hret
      | begun i => simp [hst] at hret
      | sampling i k => simp [hst] at hret
      | ended => simp [hst] at hret
  | ready => simp [hp] at hret
  | crediting message => simp [hp] at hret
  | enqueueing message => simp [hp] at hret
  | finishing => simp [hp] at hret
  | draining => simp [hp] at hret
  | failed => simp [hp] at hret

end steps

/-! ### The call ends -/

section progress

variable {L : StorageLib} {config : WriterConfig} {faults : ℕ → WriterFaults} {base : Path}
  {sources : List Source} {fs₀ : FileTree} {R : ℕ → FileTree → FileTree → Prop} {Q : CacheError → Prop}
  {s s' : ListWrite}

/-- The steps of the calling thread for the sources from `i` on. -/
def stepsFrom (sources : List Source) (i : ℕ) : ℕ :=
  ((sources.drop i).map fun source => source.inputs.length + 3).sum

theorem stepsFrom_of_getElem? {i : ℕ} {source : Source} (h : sources[i]? = some source) :
    stepsFrom sources i = source.inputs.length + 3 + stepsFrom sources (i + 1) := by
  obtain ⟨hi, rfl⟩ := List.getElem?_eq_some_iff.mp h
  rw [stepsFrom, List.drop_eq_getElem_cons hi, List.map_cons, List.sum_cons]
  rfl

def stageWeight (sources : List Source) : Stage → ℕ
  | .source i => stepsFrom sources i + 1
  | .begun i => stepsFrom sources i
  | .sampling i k => (sources[i]?.elim 0 fun source => source.inputs.length) - k + 2 + stepsFrom sources (i + 1)
  | .ended => 0
  | .failed _ => 0

def weight (sources : List Source) (s : ListWrite) : ℕ := 10 * stageWeight sources s.stage + s.pipeline.weight

theorem weight_fail {error : CacheError} (hs : s.fail L config faults error = some s') :
    weight sources s' < weight sources s := by
  obtain ⟨pipeline, hstep, rfl⟩ := Option.map_eq_some_iff.mp hs
  rcases WritePipeline.weight_step hstep with hlt | ⟨⟨item, hitem⟩, -⟩
  · simp only [weight, stageWeight]
    omega
  · cases hitem

theorem weight_sendEvent {event : PipelineEvent} {stage' : Stage}
    (hstage : stageWeight sources stage' < stageWeight sources s.stage)
    (hs : s.sendEvent L config faults event stage' = some s') : weight sources s' < weight sources s := by
  obtain ⟨pipeline, hstep, rfl⟩ := Option.map_eq_some_iff.mp hs
  simp only [weight]
  rcases WritePipeline.weight_step hstep with hlt | ⟨-, -, hle⟩ <;> omega

theorem weight_iterationError {i : ℕ} {error : CacheError}
    (hstage : stageWeight sources (.source (i + 1)) < stageWeight sources s.stage)
    (hs : s.iterationError L config faults i error = some s') : weight sources s' < weight sources s := by
  unfold iterationError at hs
  split_ifs at hs
  · exact weight_fail hs
  · exact weight_sendEvent hstage hs

theorem weight_ingest (hs : s.ingest L config faults base sources = some s') :
    weight sources s' < weight sources s := by
  unfold ingest at hs
  cases hst : s.stage with
  | source i =>
      simp only [hst] at hs
      cases hsource : sources[i]? with
      | none =>
          simp only [hsource] at hs
          obtain ⟨pipeline, hstep, rfl⟩ := Option.map_eq_some_iff.mp hs
          simp only [weight, hst, stageWeight]
          rcases WritePipeline.weight_step hstep with hlt | ⟨⟨item, hitem⟩, -⟩
          · omega
          · cases hitem
      | some source =>
          have hsteps := stepsFrom_of_getElem? hsource
          simp only [hsource] at hs
          rw [ingestOneSource_eq] at hs
          split at hs
          · exact weight_fail hs
          · exact weight_sendEvent (by simp only [hst, stageWeight]; omega) hs
          · refine (weight_sendEvent (s := s.withFs _) ?_ hs).trans_eq ?_
            · show stageWeight sources (.begun i) < stageWeight sources s.stage
              simp only [hst, stageWeight]
              omega
            · rfl
  | begun i =>
      simp only [hst] at hs
      cases hsource : sources[i]? with
      | none => simp [hsource] at hs
      | some source =>
          have hsteps := stepsFrom_of_getElem? hsource
          simp only [hsource] at hs
          cases hiter : source.iter with
          | some error =>
              simp only [hiter] at hs
              exact weight_iterationError (by simp only [hst, stageWeight]; omega) hs
          | none =>
              simp only [hiter] at hs
              split at hs
              · obtain rfl := Option.some.inj hs
                simp only [weight, hst, stageWeight, hsource, Option.elim_some]
                omega
              · cases hs
  | sampling i k =>
      simp only [hst] at hs
      cases hsource : sources[i]? with
      | none => simp [hsource] at hs
      | some source =>
          simp only [hsource] at hs
          cases hinput : source.inputs[k]? with
          | some input =>
              have hk := (List.getElem?_eq_some_iff.mp hinput).1
              simp only [hinput] at hs
              refine weight_sendEvent ?_ hs
              simp only [hst, stageWeight, hsource, Option.elim_some]
              omega
          | none =>
              simp only [hinput] at hs
              cases hending : source.ending with
              | some error =>
                  simp only [hending] at hs
                  exact weight_iterationError (by simp only [hst, stageWeight]; omega) hs
              | none =>
                  simp only [hending] at hs
                  exact weight_sendEvent (by simp only [hst, stageWeight]; omega) hs
  | ended => simp [hst] at hs
  | failed error => simp [hst] at hs

theorem weight_step {a : ListAct} (hs : s.step L config faults base sources a = some s') :
    weight sources s' < weight sources s := by
  rcases step_cases hs with ⟨rfl, hready, hs⟩ | ⟨error, rfl, -, hready, hs⟩ | ⟨error, rfl, hfailed, hmem, hs⟩ |
    ⟨act, pipeline, rfl, hinner, hstep, rfl⟩
  · exact weight_ingest hs
  · exact weight_fail hs
  · exact weight_fail hs
  · simp only [weight]
    rcases WritePipeline.weight_step hstep with hlt | ⟨⟨item, rfl⟩, -⟩
    · omega
    · cases hinner

/-- **The call ends.** -/
theorem run_length_le {as : List ListAct}
    (hrun : Machine.run (step L config faults base sources) s as = some s') :
    as.length ≤ weight sources s := by
  have hguarded : Machine.Guarded (step L config faults base sources) (fun _ _ => True) s as :=
    Machine.guarded_of_forall _ _ fun _ _ _ => trivial
  have hle := Machine.run_length_le (step L config faults base sources) (I := fun _ => True) (weight sources)
    (fun _ _ _ _ _ hs => ⟨trivial, weight_step hs⟩) trivial hguarded hrun
  omega

theorem isSome_fail {error : CacheError} (hphase : s.pipeline.phase = .ready ∨ s.pipeline.phase = .failed) :
    (s.fail L config faults error).isSome = true := by
  rcases hphase with hphase | hphase <;> simp [fail, WritePipeline.step, hphase]

theorem isSome_sendEvent {event : PipelineEvent} {stage' : Stage} (hphase : s.pipeline.phase = .ready) :
    (s.sendEvent L config faults event stage').isSome = true := by
  simp [sendEvent, WritePipeline.step, hphase]

theorem isSome_iterationError {i : ℕ} {error : CacheError} (hphase : s.pipeline.phase = .ready) :
    (s.iterationError L config faults i error).isSome = true := by
  unfold iterationError
  split_ifs
  · exact isSome_fail (.inl hphase)
  · exact isSome_sendEvent hphase

theorem isSome_ingest (hready : s.pipeline.phase = .ready) (hstage : StageOk L config base sources fs₀ Q s) :
    (s.ingest L config faults base sources).isSome = true := by
  unfold StageOk at hstage
  unfold ingest
  cases hst : s.stage with
  | source i =>
      simp only
      cases hsource : sources[i]? with
      | none => simp [WritePipeline.step, hready]
      | some source =>
          simp only
          rw [ingestOneSource_eq]
          split
          · exact isSome_fail (.inl hready)
          · exact isSome_sendEvent hready
          · exact isSome_sendEvent (s := s.withFs _) hready
  | begun i =>
      simp only [hst] at hstage
      simp only [List.getElem?_eq_getElem hstage.1]
      cases sources[i].iter with
      | some error => exact isSome_iterationError hready
      | none => simp [hready]
  | sampling i k =>
      simp only [hst] at hstage
      obtain ⟨⟨source, hsource, -⟩, -⟩ := hstage
      simp only [hsource]
      cases source.inputs[k]? with
      | some input => exact isSome_sendEvent hready
      | none =>
          cases source.ending with
          | some error => exact isSome_iterationError hready
          | none => exact isSome_sendEvent hready
  | ended => simp [hst, hready] at hstage
  | failed error => simp [hst, hready] at hstage

/-- **Nothing blocks the call.**  As long as it has not returned, some step is possible without an interrupt. -/
theorem exists_step (h : Tracks L config faults base sources fs₀ R Q s) (hret : s.returned = none) :
    ∃ a, ListAct.Signals (fun _ => False) a ∧ (s.step L config faults base sources a).isSome = true := by
  have hinner : s.pipeline.wantsResult = true →
      ∃ a, ListAct.Signals (fun _ => False) a ∧ (s.step L config faults base sources a).isSome = true := by
    intro hwant
    rcases h.counted.exists_step hwant with hs | hs | hs
    · exact ⟨.pipeline .receive, trivial, by simp [step, isInner, hs]⟩
    · exact ⟨.pipeline (.complete 0), trivial, by simp [step, isInner, hs]⟩
    · exact ⟨.pipeline .start, trivial, by simp [step, isInner, hs]⟩
  have hstage := h.stage
  cases hp : s.pipeline.phase with
  | ready => exact ⟨.ingest, trivial, by simp only [step, hp, if_true]; exact isSome_ingest hp hstage⟩
  | crediting message => exact hinner (by simp [WritePipeline.wantsResult, hp])
  | enqueueing message =>
      exact ⟨.pipeline (.enqueue true), trivial, by simp [step, isInner, WritePipeline.step, hp]⟩
  | finishing =>
      by_cases hout : s.pipeline.inFlight = 0
      · exact ⟨.pipeline .settle, trivial, by simp [step, isInner, WritePipeline.step, hp, hout]⟩
      · exact hinner (by simp [WritePipeline.wantsResult, hp]; omega)
  | draining =>
      by_cases hout : s.pipeline.inFlight = 0
      · exact ⟨.pipeline .settle, trivial, by simp [step, isInner, WritePipeline.step, hp, hout]⟩
      · exact hinner (by simp [WritePipeline.wantsResult, hp]; omega)
  | failed =>
      have herrors : s.pipeline.errors ≠ [] := by
        rcases h.counted.inv with ⟨-, -, hphaseOk⟩ | hc
        · simpa only [WritePipeline.PhaseOk, hp] using hphaseOk
        · rcases hc.phase with hq | ⟨r, hq⟩ <;> simp [hp] at hq
      refine ⟨.propagate, trivial, ?_⟩
      simp only [step, hp, if_true, List.getLast?_eq_some_getLast herrors]
      exact isSome_fail (.inr hp)
  | finished result =>
      exfalso
      cases result <;> simp [returned, hp] at hret
  | abandoned =>
      exfalso
      unfold StageOk at hstage
      cases hst : s.stage <;> simp [hst, hp, working, returned] at hstage hret

end progress

end ListWrite

end DatasetRt
