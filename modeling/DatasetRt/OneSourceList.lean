import DatasetRt.SourceListContract

/-! # A list of one source

What `write_source_list` does with one source, when no signal comes from outside.  Nothing else writes to the disk in
between, so the disk of the call is that of the source (`oneSource_footprints`), and the call can be told in closed
form, by what its source is planned to be: `WritesOneInList.of_interrupt`, `of_result`, `of_write`, `of_interrupted`.

The events of the source have 64-bit numbers.  `eventsOf` counts them exactly; if they do not fit, the call ends with
an error of its own (`Numbered`). -/

namespace DatasetRt

variable {L : StorageLib} {config : WriterConfig} {faults : WriterFaults} {base : Path} {source : Source}
  {fs fs' : FileTree}

variable (L config faults base source fs) in
/-- `write_source_list` on `[source]` returns `result` and leaves the file system `fs'`; no signal is pending. -/
def WritesOneInList (result : CacheResult (List CacheWriteRecord)) (fs' : FileTree) : Prop :=
  match ensureUniqueSourcePaths base [source] with
  | .error error => result = .error error ∧ fs' = fs
  | .ok () => ∃ as s, Machine.run (ListWrite.step L config (fun _ => faults) base [source])
      (ListWrite.new config [source] fs) as = some s ∧ (∀ a ∈ as, ListWrite.ListAct.Signals (fun _ => False) a) ∧
      s.returned = some result ∧ fs' = s.fs

/-- Whatever is done, it is done for the only source. -/
def Own (i : ℕ) (s t : FileTree) : Prop := i = 0 → s = t

theorem getElem?_one {i : ℕ} {source' : Source} (h : [source][i]? = some source') : i = 0 ∧ source' = source := by
  cases i with
  | zero =>
      simp only [List.getElem?_cons_zero, Option.some.injEq] at h
      exact ⟨rfl, h.symm⟩
  | succ i => simp at h

theorem local_own {α : Type} (i : ℕ) (hi : i = 0) (op : FileTree → FileTree × α) : Local Own i op where
  own s t h := by
    rw [h hi]
    exact ⟨fun _ => rfl, rfl⟩
  other j _ _ hj _ h := absurd (h.trans hi.symm) hj

variable (L config faults base source fs) in
theorem oneSource_footprints : Footprints L config (fun _ => faults) base [source] fs Own where
  refl _ _ _ := rfl
  plan i source' fs' hsource hfs := by
    obtain ⟨rfl, rfl⟩ := getElem?_one hsource
    rw [hfs rfl]
    cases planSource L config base fs 0 source' with
    | interrupt error => rfl
    | result record => rfl
    | write start x => exact ⟨x, rfl, fun _ => rfl, fun j z hj _ h => absurd h hj⟩
  ops i source' start x hsource hplan := by
    obtain ⟨rfl, rfl⟩ := getElem?_one hsource
    exact ⟨local_own 0 rfl _, fun _ _ _ => local_own 0 rfl _, fun _ _ _ => local_own 0 rfl _,
      fun _ _ _ => local_own 0 rfl _⟩

/-! ### The events of one source -/

variable (L config base fs source) in
/-- How many events the source has. -/
def eventsOf : ℕ :=
  match planSource L config base fs 0 source with
  | .interrupt _ => 0
  | .result _ => 1
  | .write _ _ => source.sent.length + if source.stop.any CacheError.isInterrupt then 1 else 2

namespace ListWrite

/-- The events before a place. -/
def numberAt (source : Source) : Place → ℕ
  | .between 0 => 0
  | .inside _ k => k + 1
  | .between (_ + 1) => source.sent.length + 2

theorem length_of_trace {start : SourceWriteStart} {x : FileTree}
    (hplan : planSource L config base fs 0 source = .write start x) {es : List PipelineEvent} {q : Place}
    (h : Trace (Sends L config base [source] fs) (.between 0) es q) : es.length = numberAt source q := by
  induction h with
  | nil => rfl
  | @snoc q r es e htrace hsend ih =>
      rw [List.length_append, List.length_singleton, ih]
      cases hsend with
      | @result i source' record hsource hplan' =>
          obtain ⟨rfl, rfl⟩ := getElem?_one hsource
          rw [hplan] at hplan'
          cases hplan'
      | @begin i source' start' x' hsource hplan' =>
          obtain ⟨rfl, rfl⟩ := getElem?_one hsource
          rfl
      | sample hsource hinput => rfl
      | @finish i k source' hsource hall hstop =>
          obtain ⟨rfl, rfl⟩ := getElem?_one hsource
          rw [hall]
          rfl
      | @abort i k source' error hsource hall hstop herror =>
          obtain ⟨rfl, rfl⟩ := getElem?_one hsource
          rw [hall]
          rfl

theorem errors_fail {s s' : ListWrite} {error : CacheError}
    (hs : s.fail L config (fun _ => faults) error = some s') :
    s'.pipeline.errors = s.pipeline.errors ∧ s'.stage = .failed error := by
  obtain ⟨pipeline, hstep, rfl⟩ := Option.map_eq_some_iff.mp hs
  cases WritePipeline.moves_of_step hstep with
  | finishIncomplete hphase => exact ⟨rfl, rfl⟩

theorem errors_sendEvent {s s' : ListWrite} {event : PipelineEvent} {stage' : Stage}
    (hs : s.sendEvent L config (fun _ => faults) event stage' = some s') :
    s'.stage = stage' ∧ (s'.pipeline.errors = s.pipeline.errors ∨ wordSize ≤ s.pipeline.sequence + 1) := by
  obtain ⟨pipeline, hstep, rfl⟩ := Option.map_eq_some_iff.mp hs
  refine ⟨rfl, ?_⟩
  rcases WritePipeline.errors_step hstep with heq | ⟨e, -, hfault⟩
  · exact .inl heq
  · cases hfault with
    | overflow hfirst hadd =>
        refine .inr ?_
        unfold checkedAdd at hadd
        split_ifs at hadd with hlt
        omega

variable (L config base fs source) in
/-- Errors come up only when the events have no numbers, and then no interrupt is returned. -/
def Numbered (s : ListWrite) : Prop :=
  s.pipeline.errors ≠ [] → wordSize ≤ eventsOf L config base source fs ∧
    ∀ error, s.stage = .failed error → error.isInterrupt = false

/-- A state that the call can reach. -/
abbrev Reached (L : StorageLib) (config : WriterConfig) (faults : WriterFaults) (base : Path)
    (source : Source) (fs : FileTree) (s : ListWrite) : Prop :=
  Tracks L config (fun _ => faults) base [source] fs Own (fun _ => False) s

section steps

variable {s s' : ListWrite}

theorem numbered_fail {error : CacheError} (hnone : s.pipeline.errors = [])
    (hs : s.fail L config (fun _ => faults) error = some s') : Numbered L config base source fs s' :=
  fun herrors => absurd ((errors_fail hs).1.trans hnone) herrors

theorem numbered_sendEvent {event : PipelineEvent} {stage' : Stage} (hnone : s.pipeline.errors = [])
    (hstage : ∀ error, stage' ≠ .failed error)
    (hfits : wordSize ≤ s.pipeline.sequence + 1 → wordSize ≤ eventsOf L config base source fs)
    (hs : s.sendEvent L config (fun _ => faults) event stage' = some s') : Numbered L config base source fs s' := by
  obtain ⟨hstage', herrors⟩ := errors_sendEvent hs
  intro hne
  rcases herrors with hsame | hover
  · exact absurd (hsame.trans hnone) hne
  · exact ⟨hfits hover, fun error herror => absurd (hstage'.symm.trans herror) (hstage error)⟩

theorem numbered_iterationError {i : ℕ} {error : CacheError} (hnone : s.pipeline.errors = [])
    (hfits : error.isInterrupt = false → wordSize ≤ s.pipeline.sequence + 1 → wordSize ≤ eventsOf L config base source fs)
    (hs : s.iterationError L config (fun _ => faults) i error = some s') :
    Numbered L config base source fs s' := by
  unfold iterationError at hs
  split_ifs at hs with hint
  · exact numbered_fail hnone hs
  · exact numbered_sendEvent hnone (fun _ => by simp) (hfits (by simpa using hint)) hs

theorem exists_write_of_trace {es : List PipelineEvent} {i k : ℕ}
    (h : Trace (Sends L config base [source] fs) (.between 0) es (.inside i k)) :
    ∃ start x, planSource L config base fs 0 source = .write start x := by
  have hinside := h.invariant (I := fun p => ∀ i k, p = .inside i k →
    ∃ start x, planSource L config base fs 0 source = .write start x) (fun p e q hp hsend => ?_) nofun
  · exact hinside i k rfl
  · cases hsend with
    | @begin i source' start x hsource hplan =>
        obtain ⟨rfl, rfl⟩ := getElem?_one hsource
        exact fun _ _ _ => ⟨start, x, hplan⟩
    | @sample i k source' input hsource hinput => exact fun _ _ _ => hp i k rfl
    | result => exact nofun
    | finish => exact nofun
    | abort => exact nofun

/-- The calling thread, back from its last event, is where the events that were sent have led. -/
theorem Reached.place (h : Reached L config faults base source fs s) (hready : s.pipeline.phase = .ready) :
    s.pipeline.errors = [] ∧ ∃ q, AtStage L config base [source] fs (fun _ => False) s.stage q ∧
      Trace (Sends L config base [source] fs) (.between 0) s.pipeline.submitted q ∧
      s.pipeline.sequence ≤ sentCount [source] q := by
  obtain ⟨hnone, hsequence, hknown⟩ := h.ready hready
  obtain ⟨q, prepared, hfollows⟩ := h.follows
  have htrace := hfollows.trace
  rw [hknown] at htrace
  exact ⟨hnone, q, (hfollows.exact hnone).1, htrace, hsequence ▸ length_le_sentCount htrace⟩

theorem numbered_ingestOneSource (hnone : s.pipeline.errors = []) (hzero : s.pipeline.sequence = 0)
    (hs : s.ingestOneSource L config (fun _ => faults) base 0 source = some s') :
    Numbered L config base source fs s' := by
  have hword : 3 < wordSize := by decide
  rw [ingestOneSource_eq] at hs
  cases hplan : planSource L config base s.fs 0 source with
  | interrupt error =>
      simp only [hplan] at hs
      exact numbered_fail hnone hs
  | result record =>
      simp only [hplan] at hs
      exact numbered_sendEvent hnone (fun _ => by simp) (fun hover => by omega) hs
  | write start x =>
      simp only [hplan] at hs
      exact numbered_sendEvent (s := s.withFs x) hnone (fun _ => by simp) (fun hover => by
        have hover' : wordSize ≤ s.pipeline.sequence + 1 := hover
        omega) hs

theorem numbered_sampling (h : Reached L config faults base source fs s) (hready : s.pipeline.phase = .ready)
    {i k : ℕ} (hst : s.stage = .sampling i k)
    (hs : s.ingest L config (fun _ => faults) base [source] = some s') : Numbered L config base source fs s' := by
  obtain ⟨hnone, q, hat, htrace, hlength⟩ := h.place hready
  have hstage := h.stage
  unfold StageOk at hstage
  unfold ingest at hs
  simp only [hst] at hs hat hstage
  obtain ⟨⟨source', hsource, hiter, hk⟩, -⟩ := hstage
  obtain ⟨rfl, rfl⟩ := getElem?_one hsource
  obtain rfl : q = .inside 0 k := hat
  obtain ⟨start, x, hplan⟩ := exists_write_of_trace htrace
  have hmore : s.pipeline.sequence ≤ k + 1 := hlength.trans (by simp [sentCount, eventCount]; omega)
  have hevents : eventsOf L config base source' fs =
      source'.inputs.length + if source'.ending.any CacheError.isInterrupt then 1 else 2 := by
    simp [eventsOf, hplan, Source.sent, Source.stop, hiter]
  simp only [hsource] at hs
  cases hinput : source'.inputs[k]? with
  | some input =>
      have hlt := (List.getElem?_eq_some_iff.mp hinput).1
      simp only [hinput] at hs
      refine numbered_sendEvent hnone (fun _ => by simp) (fun hover => ?_) hs
      rw [hevents]
      split_ifs <;> omega
  | none =>
      have hge := List.getElem?_eq_none_iff.mp hinput
      simp only [hinput] at hs
      cases hending : source'.ending with
      | some error =>
          simp only [hending] at hs
          refine numbered_iterationError hnone (fun hint hover => ?_) hs
          rw [hevents, hending, Option.any_some, hint, if_neg Bool.false_ne_true]
          omega
      | none =>
          simp only [hending] at hs
          refine numbered_sendEvent hnone (fun _ => by simp) (fun hover => ?_) hs
          rw [hevents, hending, Option.any_none, if_neg Bool.false_ne_true]
          omega

/-- The calling thread sends only events that are counted. -/
theorem numbered_ingest (h : Reached L config faults base source fs s) (hready : s.pipeline.phase = .ready)
    (hs : s.ingest L config (fun _ => faults) base [source] = some s') : Numbered L config base source fs s' := by
  obtain ⟨hnone, q, hat, -, hlength⟩ := h.place hready
  have hstage := h.stage
  have hword : 3 < wordSize := by decide
  unfold StageOk at hstage
  cases hst : s.stage with
  | source i =>
      unfold ingest at hs
      simp only [hst] at hs hat
      cases hsource : [source][i]? with
      | none =>
          simp only [hsource] at hs
          obtain ⟨pipeline, hstep, rfl⟩ := Option.map_eq_some_iff.mp hs
          cases WritePipeline.moves_of_step hstep with
          | finish hphase => exact fun herrors => absurd hnone herrors
      | some source' =>
          obtain ⟨rfl, rfl⟩ := getElem?_one hsource
          obtain rfl : q = .between 0 := hat
          simp only [hsource] at hs
          exact numbered_ingestOneSource hnone (Nat.le_zero.mp hlength) hs
  | begun i =>
      unfold ingest at hs
      simp only [hst] at hs hat hstage
      obtain rfl : i = 0 := by simpa using hstage.1
      obtain rfl : q = .inside 0 0 := hat
      have hone : s.pipeline.sequence ≤ 1 := hlength
      simp only [List.getElem?_cons_zero] at hs
      cases hiter : source.iter with
      | some error =>
          simp only [hiter] at hs
          exact numbered_iterationError hnone (fun _ hover => by omega) hs
      | none =>
          simp only [hiter, hready, if_true, Option.some.injEq] at hs
          rw [← hs]
          exact fun herrors => absurd hnone herrors
  | sampling i k => exact numbered_sampling h hready hst hs
  | ended => simp [ingest, hst] at hs
  | failed error => simp [ingest, hst] at hs

theorem numbered_step (h : Reached L config faults base source fs s)
    (hnumbered : Numbered L config base source fs s) {a : ListAct} (hQ : ListAct.Signals (fun _ => False) a)
    (hs : s.step L config (fun _ => faults) base [source] a = some s') : Numbered L config base source fs s' := by
  rcases step_cases hs with ⟨rfl, hready, hs⟩ | ⟨error, rfl, -, hready, hs⟩ | ⟨error, rfl, hfailed, hmem, hs⟩ |
    ⟨act, pipeline, rfl, hinner, hstep, rfl⟩
  · exact numbered_ingest h hready hs
  · exact absurd hQ id
  · obtain ⟨-, hstage⟩ := errors_fail hs
    intro _
    refine ⟨(hnumbered (List.ne_nil_of_mem hmem)).1, fun error' herror => ?_⟩
    rw [hstage, Stage.failed.injEq] at herror
    rcases h.errors error hmem with hfalse | ⟨hover, -⟩
    · exact absurd hfalse id
    · rw [← herror, hover]
      rfl
  · rcases WritePipeline.errors_step hstep with heq | ⟨e, -, hfault⟩
    · exact fun hne => hnumbered (by rwa [← heq])
    · have hinterrupt := fault_inner (oneSource_footprints L config faults base source fs) h hinner hfault
      subst hinterrupt
      exact absurd hQ id

end steps

end ListWrite

/-! ### The whole call -/

theorem ensureUnique_one (base : Path) (source : Source) : ensureUniqueSourcePaths base [source] = .ok () := by
  unfold ensureUniqueSourcePaths
  rw [ensureUniqueSourcePaths_cons]
  cases extractSourceName source with
  | error error => rfl
  | ok name => rfl

variable {result : CacheResult (List CacheWriteRecord)}

theorem WritesOneInList.reached (h : WritesOneInList L config faults base source fs result fs') :
    ∃ s, ListWrite.Reached L config faults base source fs s ∧ ListWrite.Numbered L config base source fs s ∧
      s.returned = some result ∧ fs' = s.fs := by
  unfold WritesOneInList at h
  rw [ensureUnique_one] at h
  obtain ⟨as, s, hrun, hquiet, hret, hfs⟩ := h
  have hR := oneSource_footprints L config faults base source fs
  have hguard : Machine.Guarded (ListWrite.step L config (fun _ => faults) base [source])
      (fun _ => ListWrite.ListAct.Signals fun _ => False) (ListWrite.new config [source] fs) as :=
    Machine.guarded_of_forall _ _ fun _ a ha => hquiet a ha
  have hinv := Machine.run_invariant_of_guarded _
    (I := fun s => ListWrite.Reached L config faults base source fs s ∧
      ListWrite.Numbered L config base source fs s)
    (fun _ _ _ h hok hs => ⟨ListWrite.tracks_step hR h.1 hok hs, ListWrite.numbered_step h.1 h.2 hok hs⟩)
    ⟨ListWrite.tracks_new hR, fun hne => absurd rfl hne⟩ hguard hrun
  exact ⟨s, hinv.1, hinv.2, hret, hfs⟩

variable (L config faults base source fs) in
/-- **The call returns.** -/
theorem exists_writesOneInList : ∃ result fs', WritesOneInList L config faults base source fs result fs' := by
  have hR := oneSource_footprints L config faults base source fs
  have hend : ∃ as s, Machine.Guarded (ListWrite.step L config (fun _ => faults) base [source])
      (fun _ => ListWrite.ListAct.Signals fun _ => False) (ListWrite.new config [source] fs) as ∧
      Machine.run (ListWrite.step L config (fun _ => faults) base [source]) (ListWrite.new config [source] fs) as =
        some s ∧ s.returned ≠ none :=
    Machine.exists_run _ (I := ListWrite.Reached L config faults base source fs) (ListWrite.weight [source])
      (fun s a s' h hok hs => ⟨ListWrite.tracks_step hR h hok hs, ListWrite.weight_step hs⟩)
      (fun s h hret => ListWrite.exists_step h (not_not.mp hret)) (ListWrite.tracks_new hR)
  obtain ⟨as, s, hguard, hrun, hret⟩ := hend
  obtain ⟨result, hresult⟩ := Option.ne_none_iff_exists'.mp hret
  refine ⟨result, s.fs, ?_⟩
  unfold WritesOneInList
  rw [ensureUnique_one]
  exact ⟨as, s, hrun, Machine.forall_of_guarded _ hguard hrun, hresult, rfl⟩

/-- What was committed had numbers. -/
theorem ListWrite.Reached.committed_lt {s : ListWrite} (h : ListWrite.Reached L config faults base source fs s) :
    s.pipeline.committed.length < wordSize :=
  (h.counted.inv.committed_prefix.length_le.trans h.counted.submitted_le).trans_lt
    (ListWrite.numbers_lt L config fun _ => faults)

/-- **The call returned records.** -/
theorem WritesOneInList.ok {records : List CacheWriteRecord}
    (h : WritesOneInList L config faults base source fs (.ok records) fs') :
    eventsOf L config base source fs < wordSize ∧ ∃ record, records = [record] ∧
      sourceOutcome L config (fun _ => faults) base fs 0 source = some (fs', record) := by
  obtain ⟨s, hreached, -, hret, rfl⟩ := h.reached
  obtain ⟨hlength, hrecords⟩ := hreached.returned_ok hret
  obtain ⟨record, rfl⟩ := List.length_eq_one_iff.mp hlength
  obtain ⟨fs₁, record', houtcome, hrecord, hown⟩ := hrecords 0 source rfl
  obtain rfl : record = record' := by simpa using hrecord
  rw [hown rfl]
  refine ⟨?_, record, rfl, houtcome⟩
  have hphase := ListWrite.finished_of_returned hret
  have hlt := hreached.committed_lt
  have hword : 1 < wordSize := by decide
  unfold eventsOf
  cases hplan : planSource L config base fs 0 source with
  | interrupt error => simp only; omega
  | result record => exact hword
  | write start x =>
      have hcount : s.pipeline.committed.length = source.sent.length + 2 :=
        ListWrite.length_of_trace hplan (hreached.finished hphase).1
      simp only
      split_ifs <;> omega

/-- **The call returned an error**: the events had no numbers, or the source interrupted it. -/
theorem WritesOneInList.error {error : CacheError}
    (h : WritesOneInList L config faults base source fs (.error error) fs') :
    (wordSize ≤ eventsOf L config base source fs ∧ error.isInterrupt = false) ∨
      eventsOf L config base source fs < wordSize ∧ error.isInterrupt = true ∧
        (planSource L config base fs 0 source = .interrupt error ∧ fs' = fs ∨
          ∃ start x, planSource L config base fs 0 source = .write start x ∧ source.stop = some error ∧
            fs' = match builderOf config x start with
              | .ok _ => staged x start.tempPath .empty
              | .error _ => x) := by
  obtain ⟨s, hreached, hnumbered, hret, rfl⟩ := h.reached
  obtain ⟨-, t, p, prepared, htrace, hsnap, htarget, hstops⟩ := hreached.returned_error hret
  by_cases hnone : s.pipeline.errors = []
  · right
    have hlt := hreached.committed_lt
    have hdisk := hsnap.disk 0 source rfl rfl
    have hfs : s.fs = t.cleanupUnfinishedSource.fs := congrArg PipelineCommitter.fs htarget
    cases hstops hnone with
    | @name i source' e hsource hplan =>
        obtain ⟨rfl, rfl⟩ := getElem?_one hsource
        refine ⟨?_, planSource_interrupt hplan, .inl ⟨hplan, ?_⟩⟩
        · simp [eventsOf, hplan, wordSize]
        · have hactive : t.active = none := hsnap.active
          simp only [expectedFs, Place.index, lt_irrefl, if_false, hplan] at hdisk
          rw [hfs, PipelineCommitter.cleanupUnfinishedSource, hactive]
          exact hdisk
    | @source i k source' e hsource hall hstop herror =>
        obtain ⟨rfl, rfl⟩ := getElem?_one hsource
        obtain ⟨source'', start, x, hsource', -, hplan, hactive⟩ := hsnap.active
        obtain ⟨-, rfl⟩ := getElem?_one hsource'
        have hcount := ListWrite.length_of_trace hplan htrace
        simp only [ListWrite.numberAt] at hcount
        have hfree : x start.tempPath = none := by
          obtain ⟨name, -, hstart, -, hprepare⟩ := planSource_write L config base hplan
          exact (prepareCachePaths_ok hprepare).2.1
        refine ⟨?_, herror, .inr ⟨start, x, hplan, hstop, ?_⟩⟩
        · simp only [eventsOf, hplan, hstop, Option.any_some, herror, if_true]
          omega
        · simp only [expectedFs, Place.index, lt_irrefl, if_false, hplan, if_true] at hdisk
          rw [hfs, PipelineCommitter.cleanupUnfinishedSource, hactive]
          simp only
          rw [hdisk]
          exact ActiveSourceWrite.markFailed_opened L config (fun _ => faults) hfree _ _
    | signal hsignal => exact absurd hsignal id
  · left
    obtain ⟨hlong, hstage⟩ := hnumbered hnone
    refine ⟨hlong, ?_⟩
    have hok := hreached.stage
    unfold ListWrite.StageOk at hok
    unfold ListWrite.returned at hret
    cases hp : s.pipeline.phase with
    | finished r =>
        cases r with
        | ok u =>
            rcases hreached.counted.inv with ⟨-, -, hphaseOk⟩ | hc
            · simp [WritePipeline.PhaseOk, hp] at hphaseOk
            · exact absurd (hc.finished hp).1 hnone
        | error e =>
            simp only [hp, Option.some.injEq, Except.error.injEq] at hret
            have hmem : e ∈ s.pipeline.errors := by
              cases hst : s.stage <;> simp [hst, hp, ListWrite.working] at hok
              exact hok
            rcases hreached.errors e hmem with hfalse | ⟨hover, -⟩
            · exact absurd hfalse id
            · rw [← hret, hover]
              rfl
    | abandoned =>
        cases hst : s.stage with
        | failed e =>
            simp only [hp, hst, Option.some.injEq, Except.error.injEq] at hret
            rw [← hret]
            exact hstage e hst
        | source i => simp [hp, hst] at hret
        | begun i => simp [hp, hst] at hret
        | sampling i k => simp [hp, hst] at hret
        | ended => simp [hp, hst] at hret
    | ready => simp [hp] at hret
    | crediting message => simp [hp] at hret
    | enqueueing message => simp [hp] at hret
    | finishing => simp [hp] at hret
    | draining => simp [hp] at hret
    | failed => simp [hp] at hret

/-! ### What the call returns -/

theorem WritesOneInList.of_interrupt {error : CacheError}
    (hplan : planSource L config base fs 0 source = .interrupt error)
    (h : WritesOneInList L config faults base source fs result fs') : result = .error error ∧ fs' = fs := by
  cases result with
  | ok records =>
      obtain ⟨-, record, -, houtcome⟩ := h.ok
      simp [sourceOutcome, hplan] at houtcome
  | error e =>
      rcases h.error with ⟨hlong, -⟩ | ⟨-, -, ⟨hplan', hfs⟩ | ⟨start, x, hplan', -⟩⟩
      · simp [eventsOf, hplan, wordSize] at hlong
      · rw [hplan, SourcePlan.interrupt.injEq] at hplan'
        exact ⟨congrArg _ hplan'.symm, hfs⟩
      · rw [hplan] at hplan'
        cases hplan'

theorem WritesOneInList.of_result {record : CacheWriteRecord}
    (hplan : planSource L config base fs 0 source = .result record)
    (h : WritesOneInList L config faults base source fs result fs') : result = .ok [record] ∧ fs' = fs := by
  cases result with
  | ok records =>
      obtain ⟨-, record', rfl, houtcome⟩ := h.ok
      simp only [sourceOutcome, hplan, Option.some.injEq, Prod.mk.injEq] at houtcome
      exact ⟨by rw [houtcome.2], houtcome.1.symm⟩
  | error e =>
      rcases h.error with ⟨hlong, -⟩ | ⟨-, -, ⟨hplan', -⟩ | ⟨start, x, hplan', -⟩⟩
      · simp [eventsOf, hplan, wordSize] at hlong
      · rw [hplan] at hplan'
        cases hplan'
      · rw [hplan] at hplan'
        cases hplan'

theorem WritesOneInList.of_write {start : SourceWriteStart} {x : FileTree}
    (hplan : planSource L config base fs 0 source = .write start x)
    (hstop : source.stop.any CacheError.isInterrupt = false) (hfits : eventsOf L config base source fs < wordSize)
    (h : WritesOneInList L config faults base source fs result fs') :
    ∃ record, result = .ok [record] ∧ ActiveSourceWrite.closed L (fun _ => faults) source.stop
      (ActiveSourceWrite.opened L config (fun _ => faults) x start source.sent).2
      (ActiveSourceWrite.opened L config (fun _ => faults) x start source.sent).1 = (fs', record) := by
  cases result with
  | ok records =>
      obtain ⟨-, record, rfl, houtcome⟩ := h.ok
      simp only [sourceOutcome, hplan, hstop, Bool.false_eq_true, if_false, Option.some.injEq] at houtcome
      exact ⟨record, rfl, houtcome⟩
  | error e =>
      rcases h.error with ⟨hlong, -⟩ | ⟨-, hint, ⟨hplan', -⟩ | ⟨start', x', -, hstop', -⟩⟩
      · omega
      · rw [hplan] at hplan'
        cases hplan'
      · rw [hstop', Option.any_some, hint] at hstop
        cases hstop

theorem WritesOneInList.of_interrupted {start : SourceWriteStart} {x : FileTree} {error : CacheError}
    (hplan : planSource L config base fs 0 source = .write start x) (hstop : source.stop = some error)
    (hint : error.isInterrupt = true) (hfits : eventsOf L config base source fs < wordSize)
    (h : WritesOneInList L config faults base source fs result fs') :
    result = .error error ∧ fs' = match builderOf config x start with
      | .ok _ => staged x start.tempPath .empty
      | .error _ => x := by
  cases result with
  | ok records =>
      obtain ⟨-, record, -, houtcome⟩ := h.ok
      simp [sourceOutcome, hplan, hstop, hint] at houtcome
  | error e =>
      rcases h.error with ⟨hlong, -⟩ | ⟨-, -, ⟨hplan', -⟩ | ⟨start', x', hplan', hstop', hfs⟩⟩
      · omega
      · rw [hplan] at hplan'
        cases hplan'
      · rw [hplan, SourcePlan.write.injEq] at hplan'
        obtain ⟨rfl, rfl⟩ := hplan'
        rw [hstop, Option.some.injEq] at hstop'
        exact ⟨congrArg _ hstop'.symm, hfs⟩

end DatasetRt
