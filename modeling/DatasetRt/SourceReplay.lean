import DatasetRt.SourceList
import DatasetRt.WriteTarget
import DatasetRt.Lib.Trace
import DatasetRt.Lib.Footprint

/-! # A source list, one source after the other

`write_source_list` keeps events of several sources in flight, and looks at the disk for one source while
earlier ones are still being written.  Here is what it amounts to: each source alone, on the file system as it
was when the call began.

* `planSource` is what `ingest_one_source` makes of a source before its iterator, and `sourceOutcome` what
  becomes of the source.
* `Sends` are the moves of the calling thread from `Place` to `Place`, with the event of each.
* `Snapshot` says what the committer and the disk look like when it has taken the events up to a place.
  `R i` relates the disk to the one of source `i` alone, as far as source `i` can see; what is needed of `R`
  is `Footprints`: whatever is done for a source is local to it.
* `Tracks` is the invariant of a whole call, `tracks_step` its preservation. -/

namespace DatasetRt

/-! ### One source -/

section source

variable (L : StorageLib) (config : WriterConfig) (faults : ℕ → WriterFaults) (base : Path)

inductive SourcePlan where
  | interrupt (error : CacheError)
  | result (record : CacheWriteRecord)
  | write (start : SourceWriteStart) (fs : FileTree)

def planSource (fs : FileTree) (index : ℕ) (source : Source) : SourcePlan :=
  match extractSourceName source with
  | .error error =>
      if error.isInterrupt then .interrupt error else .result (errorWriteResult (sourceLabel index) error)
  | .ok sourceName =>
      let cachePath := cachePathForSource base sourceName
      if config.reuseExisting && fs.pathExists cachePath then
        .result (ListWrite.existingCacheResult L config fs sourceName cachePath)
      else
        let tempPath := tempCachePathForSource base sourceName
        match prepareCachePaths fs cachePath tempPath with
        | .error error => .result (errorWriteResult sourceName error)
        | .ok fs => .write { sourceIndex := index, sourceName, cachePath, tempPath } fs

/-- What ends the samples, also before the first one. -/
def Source.stop (source : Source) : Option CacheError := source.iter.or source.ending

/-- The samples that the iterator gives. -/
def Source.sent (source : Source) : List WriterInput := if source.iter.isSome then [] else source.inputs

theorem Source.length_sent_le (source : Source) : source.sent.length ≤ source.inputs.length := by
  unfold Source.sent
  split_ifs
  · exact Nat.zero_le _
  · exact le_refl _

namespace ActiveSourceWrite

def pushAll (faults : WriterFaults) (p : FileTree × ActiveSourceWrite) (inputs : List WriterInput) :
    FileTree × ActiveSourceWrite :=
  inputs.foldl (fun p input => p.2.pushSample L faults p.1 input) p

/-- A source with some of its samples written. -/
def opened (fs : FileTree) (start : SourceWriteStart) (inputs : List WriterInput) : FileTree × ActiveSourceWrite :=
  pushAll L (faults start.sourceIndex) (new config fs start) inputs

/-- The end of a source. -/
def closed (stop : Option CacheError) (a : ActiveSourceWrite) (fs : FileTree) : FileTree × CacheWriteRecord :=
  match stop with
  | none => a.finish L (faults a.start.sourceIndex) fs
  | some error => a.failWith fs (.invalidInput error.toString)

@[simp] theorem cleanupTempCache_start (a : ActiveSourceWrite) (fs : FileTree) :
    (a.cleanupTempCache fs).2.start = a.start := by
  unfold cleanupTempCache
  cases DatasetRt.cleanupTempCache fs a.start.tempPath <;> rfl

@[simp] theorem markFailed_start (a : ActiveSourceWrite) (fs : FileTree) (error : CacheError) :
    (a.markFailed fs error).2.start = a.start := cleanupTempCache_start _ _

@[simp] theorem new_start (fs : FileTree) (start : SourceWriteStart) : (new config fs start).2.start = start := by
  unfold new
  rcases createCache config fs start.tempPath start.sourceName with ⟨fs', error | builder⟩
  · exact cleanupTempCache_start _ _
  · rfl

@[simp] theorem pushSample_start (faults : WriterFaults) (a : ActiveSourceWrite) (fs : FileTree) (input : WriterInput) :
    (a.pushSample L faults fs input).2.start = a.start := by
  unfold pushSample
  split_ifs
  · rfl
  · cases a.builder with
    | none => exact markFailed_start _ _ _
    | some builder =>
        simp only
        rcases builder.pushSampleOn L faults input.1 input.2 with ⟨b, error | u⟩
        · exact markFailed_start _ _ _
        · rfl

@[simp] theorem pushAll_start (faults : WriterFaults) (p : FileTree × ActiveSourceWrite) (inputs : List WriterInput) :
    (pushAll L faults p inputs).2.start = p.2.start := by
  induction inputs generalizing p with
  | nil => rfl
  | cons input rest ih => exact (ih _).trans (pushSample_start L faults _ _ _)

@[simp] theorem opened_start (fs : FileTree) (start : SourceWriteStart) (inputs : List WriterInput) :
    (opened L config faults fs start inputs).2.start = start := by
  simp [opened]

theorem opened_snoc (fs : FileTree) (start : SourceWriteStart) (inputs : List WriterInput) (input : WriterInput) :
    opened L config faults fs start (inputs ++ [input]) =
      (opened L config faults fs start inputs).2.pushSample L (faults start.sourceIndex)
        (opened L config faults fs start inputs).1 input := by
  simp [opened, pushAll]

end ActiveSourceWrite

open ActiveSourceWrite in
/-- What becomes of a source that is written alone; nothing if it interrupts the call. -/
def sourceOutcome (fs : FileTree) (index : ℕ) (source : Source) : Option (FileTree × CacheWriteRecord) :=
  match planSource L config base fs index source with
  | .interrupt _ => none
  | .result record => some (fs, record)
  | .write start fs =>
      if source.stop.any CacheError.isInterrupt then none
      else
        let p := opened L config faults fs start source.sent
        some (closed L faults source.stop p.2 p.1)

theorem planSource_write {fs fs' : FileTree} {index : ℕ} {source : Source} {start : SourceWriteStart}
    (h : planSource L config base fs index source = .write start fs') :
    ∃ sourceName, extractSourceName source = .ok sourceName ∧
      start = ⟨index, sourceName, cachePathForSource base sourceName, tempCachePathForSource base sourceName⟩ ∧
      ¬ (config.reuseExisting && fs.pathExists start.cachePath) = true ∧
      prepareCachePaths fs start.cachePath start.tempPath = .ok fs' := by
  unfold planSource at h
  cases hname : extractSourceName source with
  | error error =>
      simp only [hname] at h
      split_ifs at h
  | ok sourceName =>
      simp only [hname] at h
      split_ifs at h with hreuse
      cases hprepare : prepareCachePaths fs (cachePathForSource base sourceName)
        (tempCachePathForSource base sourceName) with
      | error error => simp [hprepare] at h
      | ok prepared =>
          simp only [hprepare, SourcePlan.write.injEq] at h
          obtain ⟨rfl, rfl⟩ := h
          exact ⟨sourceName, rfl, rfl, hreuse, hprepare⟩

/-- `ingest_one_source` follows the plan. -/
theorem ListWrite.ingestOneSource_eq (s : ListWrite) (index : ℕ) (source : Source) :
    s.ingestOneSource L config faults base index source =
      match planSource L config base s.fs index source with
      | .interrupt error => s.fail L config faults error
      | .result record => s.sendEvent L config faults (.sourceResult index record) (.source (index + 1))
      | .write start fs => (s.withFs fs).sendEvent L config faults (.beginSource start) (.begun index) := by
  unfold ListWrite.ingestOneSource planSource
  cases extractSourceName source with
  | error error =>
      simp only
      split_ifs <;> rfl
  | ok sourceName =>
      simp only
      split_ifs
      · rfl
      · cases prepareCachePaths s.fs (cachePathForSource base sourceName) (tempCachePathForSource base sourceName) <;>
          rfl

end source

/-! ### Places -/

/-- How far a list has been sent, or committed. -/
inductive Place where
  /-- This many sources are done, and no other is begun. -/
  | between (index : ℕ)
  /-- A source is begun, and this many of its samples followed. -/
  | inside (index sent : ℕ)

namespace Place

/-- The sources that are done. -/
def index : Place → ℕ
  | between i => i
  | inside i _ => i

/-- A source was looked at. -/
def begun : Place → ℕ → Bool
  | between m, i => decide (i < m)
  | inside m _, i => decide (i ≤ m)

/-- Where an event leads. -/
def after : Place → PipelineEvent → Place
  | p, .beginSource _ => inside p.index 0
  | inside i k, .sample _ => inside i (k + 1)
  | p, _ => between (p.index + 1)

end Place

section replay

variable (L : StorageLib) (config : WriterConfig) (faults : ℕ → WriterFaults) (base : Path)
  (sources : List Source) (fs₀ : FileTree)

inductive Sends : Place → PipelineEvent → Place → Prop where
  | result {i : ℕ} {source : Source} {record : CacheWriteRecord} (hsource : sources[i]? = some source)
      (hplan : planSource L config base fs₀ i source = .result record) :
      Sends (.between i) (.sourceResult i record) (.between (i + 1))
  | begin {i : ℕ} {source : Source} {start : SourceWriteStart} {fs : FileTree}
      (hsource : sources[i]? = some source) (hplan : planSource L config base fs₀ i source = .write start fs) :
      Sends (.between i) (.beginSource start) (.inside i 0)
  | sample {i k : ℕ} {source : Source} {input : WriterInput} (hsource : sources[i]? = some source)
      (hinput : source.sent[k]? = some input) : Sends (.inside i k) (.sample input) (.inside i (k + 1))
  | finish {i k : ℕ} {source : Source} (hsource : sources[i]? = some source) (hall : k = source.sent.length)
      (hstop : source.stop = none) : Sends (.inside i k) .endSource (.between (i + 1))
  | abort {i k : ℕ} {source : Source} {error : CacheError} (hsource : sources[i]? = some source)
      (hall : k = source.sent.length) (hstop : source.stop = some error) (herror : error.isInterrupt = false) :
      Sends (.inside i k) (.abortSource error.toString) (.between (i + 1))

variable {L config faults base sources fs₀}

theorem Sends.eq_after {p q : Place} {e : PipelineEvent} (h : Sends L config base sources fs₀ p e q) :
    q = p.after e := by
  cases h <;> rfl

theorem Sends.unique (p : Place) (e : PipelineEvent) (q r : Place) (hq : Sends L config base sources fs₀ p e q)
    (hr : Sends L config base sources fs₀ p e r) : q = r := hq.eq_after.trans hr.eq_after.symm

theorem Sends.begun_mono {p q : Place} {e : PipelineEvent} (h : Sends L config base sources fs₀ p e q) {i : ℕ}
    (hi : p.begun i = true) : q.begun i = true := by
  cases h <;> simp only [Place.begun, decide_eq_true_eq] at hi ⊢ <;> omega

theorem Sends.begun_target {p q : Place} {e : PipelineEvent} (h : Sends L config base sources fs₀ p e q) :
    q.begun p.index = true := by
  cases h <;> simp [Place.begun, Place.index]

theorem begun_trace {p q : Place} {es : List PipelineEvent} (h : Trace (Sends L config base sources fs₀) p es q)
    {i : ℕ} (hi : p.begun i = true) : q.begun i = true :=
  h.invariant (I := fun p => p.begun i = true) (fun _ _ _ hp hs => hs.begun_mono hp) hi

/-! ### What the committer has done -/

variable (L config faults base) in
/-- The disk of source `i` alone, when the committer is at a place; `prepared` says whether the calling thread
has looked at the source. -/
def expectedFs (fs : FileTree) (prepared : Bool) (p : Place) (i : ℕ) (source : Source) : FileTree :=
  if i < p.index then ((sourceOutcome L config faults base fs i source).map Prod.fst).getD fs
  else
    match planSource L config base fs i source with
    | .write start fs' =>
        match p with
        | .inside m k =>
            if i = m then (ActiveSourceWrite.opened L config faults fs' start (source.sent.take k)).1
            else if prepared then fs' else fs
        | .between _ => if prepared then fs' else fs
    | _ => fs

variable (L config faults base sources fs₀) in
/-- The active source at a place. -/
def ActiveAt (active : Option ActiveSourceWrite) : Place → Prop
  | .between _ => active = none
  | .inside m k => ∃ source start fs, sources[m]? = some source ∧ k ≤ source.sent.length ∧
      planSource L config base fs₀ m source = .write start fs ∧
      active = some (ActiveSourceWrite.opened L config faults fs start (source.sent.take k)).2

variable (L config faults base sources fs₀) in
structure Snapshot (R : ℕ → FileTree → FileTree → Prop) (prepared : ℕ → Bool) (t : PipelineCommitter) (p : Place) :
    Prop where
  length : t.results.length = sources.length
  done : ∀ i source, sources[i]? = some source → i < p.index →
    ∃ fs record, sourceOutcome L config faults base fs₀ i source = some (fs, record) ∧
      t.results[i]? = some (some record)
  open_ : ∀ i, i < sources.length → p.index ≤ i → t.results[i]? = some none
  active : ActiveAt L config faults base sources fs₀ t.active p
  disk : ∀ i source, sources[i]? = some source →
    R i t.fs (expectedFs L config faults base fs₀ (prepared i) p i source)

/-- The operations of a source are local to it. -/
structure SourceOps (L : StorageLib) (config : WriterConfig) (faults : ℕ → WriterFaults)
    (R : ℕ → FileTree → FileTree → Prop) (i : ℕ) (start : SourceWriteStart) : Prop where
  new : Local R i fun fs => ActiveSourceWrite.new config fs start
  push : ∀ a : ActiveSourceWrite, a.start = start → ∀ input,
    Local R i fun fs => a.pushSample L (faults start.sourceIndex) fs input
  close : ∀ a : ActiveSourceWrite, a.start = start → ∀ stop, Local R i fun fs => a.closed L faults stop fs
  mark : ∀ a : ActiveSourceWrite, a.start = start → ∀ error, Local R i fun fs => a.markFailed fs error

variable (L config faults base sources fs₀) in
structure Footprints (R : ℕ → FileTree → FileTree → Prop) : Prop where
  refl : ∀ i fs, R i fs fs
  /-- A source that looks at the disk sees what was there when the call began. -/
  plan : ∀ i source fs, sources[i]? = some source → R i fs fs₀ →
    match planSource L config base fs₀ i source with
    | .interrupt error => planSource L config base fs i source = .interrupt error
    | .result record => planSource L config base fs i source = .result record
    | .write start x => ∃ y, planSource L config base fs i source = .write start y ∧ R i y x ∧
        ∀ j z, j ≠ i → R j fs z → R j y z
  ops : ∀ i source start x, sources[i]? = some source → planSource L config base fs₀ i source = .write start x →
    SourceOps L config faults R i start

section snapshot

variable {R : ℕ → FileTree → FileTree → Prop} {prepared : ℕ → Bool} {t : PipelineCommitter} {p p' : Place}

/-- An event of one source changes nothing for the others. -/
theorem expectedFs_other {event : PipelineEvent} (hsend : Sends L config base sources fs₀ p event p') {j : ℕ}
    (hj : j ≠ p.index) (b : Bool) (source : Source) :
    expectedFs L config faults base fs₀ b p' j source =
      expectedFs L config faults base fs₀ b p j source := by
  have hlt : ∀ m, j ≠ m → (j < m + 1 ↔ j < m) := fun m hm => by omega
  cases hsend with
  | begin hsource hplan =>
      simp only [Place.index] at hj
      simp only [expectedFs, Place.index, hj, if_false]
      congr
  | sample hsource hinput =>
      simp only [Place.index] at hj
      simp only [expectedFs, Place.index, hj, if_false]
  | result hsource hplan =>
      simp only [Place.index] at hj
      simp only [expectedFs, Place.index, hlt _ hj]
      congr
  | finish hsource hall hstop =>
      simp only [Place.index] at hj
      simp only [expectedFs, Place.index, hj, if_false, hlt _ hj]
  | abort hsource hall hstop herror =>
      simp only [Place.index] at hj
      simp only [expectedFs, Place.index, hj, if_false, hlt _ hj]

theorem recordResult_eq {i : ℕ} (record : CacheWriteRecord) (h : t.results[i]? = some none) :
    t.recordResult i record = ({ t with results := t.results.set i (some record) }, .ok ()) := by
  simp [PipelineCommitter.recordResult, h]

theorem Snapshot.record {m : ℕ} {source : Source} {fs fs' : FileTree} {record : CacheWriteRecord}
    (h : Snapshot L config faults base sources fs₀ R prepared t p) (hindex : p.index = m)
    (hsource : sources[m]? = some source)
    (houtcome : sourceOutcome L config faults base fs₀ m source = some (fs', record)) (hdisk : R m fs fs')
    (hother : ∀ j source, j ≠ m → sources[j]? = some source →
      R j fs (expectedFs L config faults base fs₀ (prepared j) (.between (m + 1)) j source)) :
    Snapshot L config faults base sources fs₀ R prepared
      { fs, results := t.results.set m (some record), active := none } (.between (m + 1)) where
  length := by simp [h.length]
  done := by
    intro i source' hsource' hi
    simp only [Place.index] at hi
    by_cases him : i = m
    · subst him
      obtain rfl : source' = source := by rw [hsource] at hsource'; exact (Option.some.inj hsource').symm
      have hlt : i < t.results.length := by
        rw [h.length]
        exact (List.getElem?_eq_some_iff.mp hsource).1
      exact ⟨fs', record, houtcome, by simp [hlt]⟩
    · obtain ⟨x, r, hx, hr⟩ := h.done i source' hsource' (by omega)
      exact ⟨x, r, hx, by rw [List.getElem?_set_ne (Ne.symm him)]; exact hr⟩
  open_ := by
    intro i hi hle
    simp only [Place.index] at hle
    rw [List.getElem?_set_ne (by omega)]
    exact h.open_ i hi (by omega)
  active := rfl
  disk := by
    intro j source' hsource'
    by_cases hjm : j = m
    · subst hjm
      obtain rfl : source' = source := by rw [hsource] at hsource'; exact (Option.some.inj hsource').symm
      have hx : expectedFs L config faults base fs₀ (prepared j) (.between (j + 1)) j source' = fs' := by
        simp [expectedFs, Place.index, houtcome]
      rw [hx]
      exact hdisk
    · exact hother j source' hjm hsource'

theorem Snapshot.close (hR : Footprints L config faults base sources fs₀ R) {m k : ℕ} {source : Source}
    {start : SourceWriteStart} {x : FileTree} {a : ActiveSourceWrite}
    (h : Snapshot L config faults base sources fs₀ R prepared t (.inside m k))
    (hsource : sources[m]? = some source) (hplan : planSource L config base fs₀ m source = .write start x)
    (hactive : t.active = some a) (hall : source.sent.take k = source.sent)
    (hstop : source.stop.any CacheError.isInterrupt = false)
    (hother : ∀ {fs : FileTree}, (∀ j z, j ≠ m → R j t.fs z → R j fs z) → ∀ j source, j ≠ m →
      sources[j]? = some source →
      R j fs (expectedFs L config faults base fs₀ (prepared j) (.between (m + 1)) j source)) :
    Snapshot L config faults base sources fs₀ R prepared
        (PipelineCommitter.recordResult
          { t with fs := (a.closed L faults source.stop t.fs).1, active := none } a.start.sourceIndex
          (a.closed L faults source.stop t.fs).2).1 (.between (m + 1)) ∧
      (PipelineCommitter.recordResult
          { t with fs := (a.closed L faults source.stop t.fs).1, active := none } a.start.sourceIndex
          (a.closed L faults source.stop t.fs).2).2 = .ok () := by
  obtain ⟨source', start', x', hsource', hk, hplan', hactive'⟩ := h.active
  obtain rfl : source' = source := by rw [hsource] at hsource'; exact (Option.some.inj hsource').symm
  rw [hplan, SourcePlan.write.injEq] at hplan'
  obtain ⟨rfl, rfl⟩ := hplan'
  rw [hall, hactive, Option.some.injEq] at hactive'
  subst hactive'
  have hdisk := h.disk m source' hsource
  simp only [expectedFs, Place.index, lt_irrefl, if_false, hplan, if_true, hall] at hdisk
  have hlocal := (hR.ops m source' start x hsource hplan).close
    (ActiveSourceWrite.opened L config faults x start source'.sent).2 (by simp) source'.stop
  obtain ⟨hstate, hsame⟩ := hlocal.own _ _ hdisk
  have hindex : (ActiveSourceWrite.opened L config faults x start source'.sent).2.start.sourceIndex = m := by
    obtain ⟨name, -, hstart, -⟩ := planSource_write L config base hplan
    rw [ActiveSourceWrite.opened_start, hstart]
  have houtcome : sourceOutcome L config faults base fs₀ m source' =
      some (ActiveSourceWrite.closed L faults source'.stop
        (ActiveSourceWrite.opened L config faults x start source'.sent).2
        (ActiveSourceWrite.opened L config faults x start source'.sent).1) := by
    simp [sourceOutcome, hplan, hstop]
  rw [hindex, recordResult_eq (t := { t with fs := _, active := none }) _
    (h.open_ m (List.getElem?_eq_some_iff.mp hsource).1 (le_refl m)), hsame]
  exact ⟨h.record rfl hsource houtcome hstate (hother fun j z hj hz => hlocal.other j _ _ hj hz), rfl⟩

/-- **One commit.**  The event is taken, and the committer and the disk are where the next place says. -/
theorem snapshot_commit (hR : Footprints L config faults base sources fs₀ R)
    (h : Snapshot L config faults base sources fs₀ R prepared t p) {event : PipelineEvent}
    (hsend : Sends L config base sources fs₀ p event p') (hprepared : prepared p.index = true) :
    Snapshot L config faults base sources fs₀ R prepared
        (t.commitEvent L config faults event).1 p' ∧
      (t.commitEvent L config faults event).2 = .ok () := by
  have hother : ∀ {fs : FileTree}, (∀ j z, j ≠ p.index → R j t.fs z → R j fs z) → ∀ j source, j ≠ p.index →
      sources[j]? = some source →
      R j fs (expectedFs L config faults base fs₀ (prepared j) p' j source) := by
    intro fs hframe j source hj hsource
    rw [expectedFs_other hsend hj]
    exact hframe j _ hj (h.disk j source hsource)
  cases hsend with
  | @result i source record hsource hplan =>
      simp only [Place.index] at hother hprepared
      have hdisk := h.disk i source hsource
      simp only [expectedFs, Place.index, lt_irrefl, if_false, hplan] at hdisk
      rw [PipelineCommitter.commitEvent,
        recordResult_eq record (h.open_ i (List.getElem?_eq_some_iff.mp hsource).1 (le_refl i))]
      refine ⟨?_, rfl⟩
      have houtcome : sourceOutcome L config faults base fs₀ i source = some (fs₀, record) := by
        simp [sourceOutcome, hplan]
      have hrec := h.record rfl hsource houtcome hdisk (hother fun _ _ _ hz => hz)
      have hactive : t.active = none := h.active
      rw [← hactive] at hrec
      exact hrec
  | @begin i source start x hsource hplan =>
      simp only [Place.index] at hother hprepared
      have hactive : t.active = none := h.active
      have hdisk := h.disk i source hsource
      simp only [expectedFs, Place.index, lt_irrefl, if_false, hplan, hprepared, if_true] at hdisk
      have hlocal := (hR.ops i source start x hsource hplan).new
      obtain ⟨hstate, hsame⟩ := hlocal.own _ _ hdisk
      simp only [PipelineCommitter.commitEvent, PipelineCommitter.beginSource, hactive]
      refine ⟨⟨h.length, h.done, h.open_, ?_, ?_⟩, trivial⟩
      · exact ⟨source, start, x, hsource, Nat.zero_le _, hplan, by rw [hsame]; rfl⟩
      · intro j source' hsource'
        by_cases hj : j = i
        · subst hj
          obtain rfl : source' = source := by rw [hsource] at hsource'; exact (Option.some.inj hsource').symm
          simp only [expectedFs, Place.index, lt_irrefl, if_false, hplan, if_true]
          exact hstate
        · exact hother (fun j z hj hz => hlocal.other j _ _ hj hz) j source' hj hsource'
  | @sample i k source input hsource hinput =>
      simp only [Place.index] at hother hprepared
      obtain ⟨source', start, x, hsource', hk, hplan, hactive⟩ := h.active
      obtain rfl : source' = source := by rw [hsource] at hsource'; exact (Option.some.inj hsource').symm
      have hdisk := h.disk i source' hsource
      simp only [expectedFs, Place.index, lt_irrefl, if_false, hplan, if_true] at hdisk
      have hlocal := (hR.ops i source' start x hsource hplan).push
        (ActiveSourceWrite.opened L config faults x start (source'.sent.take k)).2 (by simp) input
      obtain ⟨hstate, hsame⟩ := hlocal.own _ _ hdisk
      obtain ⟨hlt, hget⟩ := List.getElem?_eq_some_iff.mp hinput
      have htake : source'.sent.take (k + 1) = source'.sent.take k ++ [input] := by
        rw [List.take_add_one, hinput]
        rfl
      simp only [PipelineCommitter.commitEvent, PipelineCommitter.pushSample, hactive,
        ActiveSourceWrite.opened_start]
      refine ⟨⟨h.length, h.done, h.open_, ?_, ?_⟩, trivial⟩
      · exact ⟨source', start, x, hsource, hlt, hplan, by rw [hsame, htake, ActiveSourceWrite.opened_snoc]⟩
      · intro j source'' hsource''
        by_cases hj : j = i
        · subst hj
          obtain rfl : source'' = source' := by rw [hsource] at hsource''; exact (Option.some.inj hsource'').symm
          simp only [expectedFs, Place.index, lt_irrefl, if_false, hplan, if_true, htake,
            ActiveSourceWrite.opened_snoc]
          exact hstate
        · exact hother (fun j z hj hz => hlocal.other j _ _ hj hz) j source'' hj hsource''
  | @finish i k source hsource hall hstop =>
      obtain ⟨source', start, x, hsource', hk, hplan, hactive⟩ := h.active
      obtain rfl : source' = source := by rw [hsource] at hsource'; exact (Option.some.inj hsource').symm
      obtain ⟨-, -, hstart, -⟩ := planSource_write L config base hplan
      have hclosed := h.close hR hsource hplan hactive (by rw [hall, List.take_length])
        (by simp [hstop]) hother
      simp only [PipelineCommitter.commitEvent, PipelineCommitter.endSource, hactive]
      simp only [hstop, ActiveSourceWrite.closed] at hclosed
      exact hclosed
  | @abort i k source error hsource hall hstop herror =>
      obtain ⟨source', start, x, hsource', hk, hplan, hactive⟩ := h.active
      obtain rfl : source' = source := by rw [hsource] at hsource'; exact (Option.some.inj hsource').symm
      have hclosed := h.close hR hsource hplan hactive (by rw [hall, List.take_length])
        (by simp [hstop, herror]) hother
      simp only [PipelineCommitter.commitEvent, PipelineCommitter.abortSource, hactive]
      simp only [hstop, ActiveSourceWrite.closed] at hclosed
      exact hclosed

end snapshot

end replay

end DatasetRt
