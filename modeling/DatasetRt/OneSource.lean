import DatasetRt.OneSourceList
import DatasetRt.SampleErrors

/-! # One source, alone and in a list

`write_cache` takes a source or a list of sources, and the two ways are different code: `write_named_source`
(`writer.rs`) runs one step after the other and cleans up on each of its errors, `write_source_list`
(`writer/pipeline.rs`) sends events and leaves the cleaning to the active source.

They do not always agree.  `iter()` is called when the builder is there, and `write_named_source` returns its error
with `?`, so the staging directory stays; the list aborts the source.  And where the samples end with an interrupt,
the list returns it whatever the builder said, while `write_named_source` returns the record of an error that it
noticed first: that the builder could not be created, or that it refused a sample.

* `writeOneSource_write`: what `write_one_source_result` does with a source that is written.
* `SameWay`: when the two ways agree. -/

namespace DatasetRt

section alone

variable {L : StorageLib} {config : WriterConfig} {faults : WriterFaults} {base : Path} {source : Source}
  {fs x : FileTree} {written : CacheBuilder → CacheResult Unit × FileTree} {start : SourceWriteStart}

/-- What a failed `write_named_source` is to the caller. -/
def failedWith (sourceName : String) (error : CacheError) : CacheResult CacheWriteRecord :=
  if error.isInterrupt then .error error else .ok (errorWriteResult sourceName error)

theorem writeOneSource_interrupt {error : CacheError}
    (hplan : planSource L config base fs 0 source = .interrupt error) :
    writeOneSourceResult L config faults written base 0 fs source = (fs, .error error) := by
  unfold planSource at hplan
  unfold writeOneSourceResult
  cases hname : extractSourceName source with
  | error e =>
      simp only [hname] at hplan
      split_ifs at hplan with hint
      cases hplan
      simp [hint]
  | ok name =>
      simp only [hname] at hplan
      split_ifs at hplan
      cases hprepare : prepareCachePaths fs (cachePathForSource base name) (tempCachePathForSource base name) <;>
        simp [hprepare] at hplan

theorem writeOneSource_result {record : CacheWriteRecord}
    (hplan : planSource L config base fs 0 source = .result record) :
    writeOneSourceResult L config faults written base 0 fs source = (fs, .ok record) := by
  unfold planSource at hplan
  unfold writeOneSourceResult
  cases hname : extractSourceName source with
  | error e =>
      simp only [hname] at hplan
      split_ifs at hplan with hint
      cases hplan
      simp [hint]
  | ok name =>
      simp only [hname] at hplan
      unfold writeNamedSource
      split_ifs at hplan with hreuse
      · cases hplan
        simp only [hreuse, if_true, ListWrite.existingCacheResult]
        split_ifs
        · have hload := dataErrors_loadCache L fs (cachePathForSource base name) true 0
          cases hcache : loadCache L fs (cachePathForSource base name) true 0 with
          | ok cache => rfl
          | error error => simp [Except.map, hload error hcache]
        · rfl
      · have hprepared := dataErrors_prepareCachePaths fs (cachePathForSource base name) (tempCachePathForSource base name)
        cases hprepare : prepareCachePaths fs (cachePathForSource base name) (tempCachePathForSource base name) with
        | ok prepared => simp [hprepare] at hplan
        | error error =>
            simp only [hprepare] at hplan
            cases hplan
            simp [hreuse, hprepare, hprepared error hprepare]

theorem publishCache_dataErrors {failure : Option String} {tempPath cachePath : Path} :
    DataErrors (publishCache failure fs tempPath cachePath) := by
  cases failure with
  | some message => exact .error rfl
  | none =>
      simp only [publishCache]
      split_ifs
      · exact .error rfl
      · exact .ok _

/-- **A source that is written alone.** -/
theorem writeOneSource_write (hplan : planSource L config base fs 0 source = .write start x)
    (hroot : ∀ builder, builderOf config x start = .ok builder → source.iter = none → (written builder).2 [] = some .dir) :
    writeOneSourceResult L config faults written base 0 fs source =
      match builderOf config x start with
      | .error error => (x, .ok (errorWriteResult start.sourceName error))
      | .ok builder =>
          match source.iter with
          | some error => (staged x start.tempPath builder.dir, failedWith start.sourceName error)
          | none =>
              match (written builder).1 with
              | .error error => (staged x start.tempPath .empty, failedWith start.sourceName error)
              | .ok () =>
                  match publishCache faults.rename (staged x start.tempPath (written builder).2) start.tempPath
                    start.cachePath with
                  | .ok fs' => (fs', .ok (successWriteResult start.sourceName start.cachePath))
                  | .error error => (staged x start.tempPath .empty, failedWith start.sourceName error) := by
  obtain ⟨name, hname, rfl, hreuse, hprepare⟩ := planSource_write L config base hplan
  have hfree := (prepareCachePaths_ok hprepare).2.1
  have hcreate := @ActiveSourceWrite.createCache_eq config x ⟨0, name, cachePathForSource base name,
    tempCachePathForSource base name⟩ hfree
  simp only at hreuse hprepare hfree hcreate hroot ⊢
  unfold writeOneSourceResult writeNamedSource
  simp only [hname, hreuse, Bool.false_eq_true, if_false, hprepare, hcreate]
  cases hbuilder : builderOf config x ⟨0, name, cachePathForSource base name, tempCachePathForSource base name⟩ with
  | error error =>
      have hint : error.isInterrupt = false := CacheBuilder.dataErrors_create _ _ _ _ _ _ error hbuilder
      simp [cleanupTempCache_none hfree, hint]
  | ok builder =>
      cases hiter : source.iter with
      | some error =>
          simp only [failedWith]
          split_ifs <;> rfl
      | none =>
          have hcleanup := @cleanupTempCache_staged x (tempCachePathForSource base name) _ (hroot builder hbuilder hiter)
          simp only [staged_graft]
          cases (written builder).1 with
          | error error =>
              simp only [hcleanup, failedWith]
              split_ifs <;> rfl
          | ok u =>
              simp only
              cases publishCache faults.rename (staged x (tempCachePathForSource base name) (written builder).2)
                  (tempCachePathForSource base name) (cachePathForSource base name) with
              | ok fs' => rfl
              | error error =>
                  simp only [hcleanup, failedWith]
                  split_ifs <;> rfl

/-- What the call behind `write_with_pipeline` is. -/
theorem WritesSource.course {alone : CacheResult CacheWriteRecord} {fs' : FileTree}
    (h : WritesSource L config faults base 0 fs source alone fs') :
    ∃ written : CacheBuilder → CacheResult Unit × FileTree,
      (∀ start x builder, planSource L config base fs 0 source = .write start x → builderOf config x start = .ok builder →
        WritesWith L config faults source builder (written builder).1 (written builder).2) ∧
      writeOneSourceResult L config faults written base 0 fs source = (fs', alone) := by
  obtain ⟨written, hwritten, heq⟩ := h
  refine ⟨written, fun start x builder hplan hbuilder => ?_, heq⟩
  obtain ⟨name, hname, rfl, -, hprepare⟩ := planSource_write L config base hplan
  have hcreate := @ActiveSourceWrite.createCache_eq config x ⟨0, name, cachePathForSource base name,
    tempCachePathForSource base name⟩ (prepareCachePaths_ok hprepare).2.1
  rw [hbuilder] at hcreate
  exact hwritten name x _ builder hname hprepare hcreate

theorem writesSource_of_written
    (hwritten : ∀ builder, builder.dir [] = some .dir →
      WritesWith L config faults source builder (written builder).1 (written builder).2) :
    WritesSource L config faults base 0 fs source
      (writeOneSourceResult L config faults written base 0 fs source).2
      (writeOneSourceResult L config faults written base 0 fs source).1 := by
  refine ⟨written, fun name prepared created builder _ _ hcreate => hwritten builder ?_, rfl⟩
  unfold createCache at hcreate
  cases hbuilder : CacheBuilder.create (prepared.pathExists (tempCachePathForSource base name))
      (parentsOk prepared (tempCachePathForSource base name)) (tempCachePathForSource base name) name
      config.maxShardBytes.1 config.shardCompression with
  | error error => simp [hbuilder] at hcreate
  | ok b =>
      simp only [hbuilder, Prod.mk.injEq, Except.ok.injEq] at hcreate
      rw [← hcreate.2]
      exact CacheBuilder.create_root hbuilder

variable (L config faults source) in
/-- One course of the pipeline for each builder, and the given one for `builder`. -/
theorem exists_written {builder : CacheBuilder} {result : CacheResult Unit} {dir : FileTree}
    (h : WritesWith L config faults source builder result dir) :
    ∃ written : CacheBuilder → CacheResult Unit × FileTree, written builder = (result, dir) ∧
      ∀ b, b.dir [] = some .dir → WritesWith L config faults source b (written b).1 (written b).2 := by
  have hall : ∀ b, ∃ w : CacheResult Unit × FileTree, (b = builder → w = (result, dir)) ∧
      (b.dir [] = some .dir → WritesWith L config faults source b w.1 w.2) := by
    intro b
    by_cases hb : b = builder
    · exact ⟨(result, dir), fun _ => rfl, fun _ => hb ▸ h⟩
    · by_cases hroot : b.dir [] = some .dir
      · obtain ⟨r, d, hw⟩ := exists_writesWith L config faults source hroot
        exact ⟨(r, d), fun heq => absurd heq hb, fun _ => hw⟩
      · exact ⟨(result, dir), fun heq => absurd heq hb, fun hr => absurd hr hroot⟩
  choose written hwritten using hall
  exact ⟨written, (hwritten builder).1 rfl, fun b => (hwritten b).2⟩

end alone

/-! ### When the two ways agree -/

/-- Both calls end in the same way: with a record of the same status, or with the same interrupt. -/
inductive SameStatus : CacheResult CacheWriteRecord → CacheResult (List CacheWriteRecord) → Prop where
  | record {r r' : CacheWriteRecord} (h : r.status = r'.status) : SameStatus (.ok r) (.ok [r'])
  | interrupt {error : CacheError} (h : error.isInterrupt = true) : SameStatus (.error error) (.error error)

/-- An error was recorded or propagated. -/
def EndsInError : CacheResult CacheWriteRecord → Prop
  | .ok record => record.status = .error
  | .error _ => True

/-- The same status and the same disk, and no staging directory that a failed call has made. -/
structure Agree (base : Path) (fs : FileTree) (source : Source) (alone : CacheResult CacheWriteRecord) (fs₁ : FileTree)
    (listed : CacheResult (List CacheWriteRecord)) (fs₂ : FileTree) : Prop where
  status : SameStatus alone listed
  disk : fs₁ = fs₂
  staging : EndsInError alone → ∀ name, extractSourceName source = .ok name →
    NotLeft fs fs₁ (tempCachePathForSource base name)

section agreement

variable (L : StorageLib) (config : WriterConfig) (faults : WriterFaults) (base : Path) (source : Source)
  (fs : FileTree)

/-- How many samples are committed for sure before the iterator is at its end. -/
def committedBefore : ℕ := source.inputs.length - min config.prefetchSize.1 config.numWorkers.1

/-- When the two ways agree. -/
def SameWay : Prop :=
  match planSource L config base fs 0 source with
  | .write start prepared =>
      eventsOf L config base source fs < wordSize ∧
        match builderOf config prepared start with
        | .error _ => source.stop.any CacheError.isInterrupt = false
        | .ok builder => source.iter = none ∧ (source.ending.any CacheError.isInterrupt = true →
            (builder.pushAllOn L faults (source.inputs.take (committedBefore config source))).2 = .ok ())
  | _ => True

end agreement

section sufficient

variable {L : StorageLib} {config : WriterConfig} {faults : WriterFaults} {base : Path} {source : Source}
  {fs fs₁ fs₂ x : FileTree} {alone : CacheResult CacheWriteRecord} {listed : CacheResult (List CacheWriteRecord)}
  {builder : CacheBuilder} {start : SourceWriteStart}

theorem Publishes.unique {stop : Option CacheError} {inputs : List WriterInput}
    (h₁ : ActiveSourceWrite.Publishes L faults stop fs start builder inputs fs₁)
    (h₂ : ActiveSourceWrite.Publishes L faults stop fs start builder inputs fs₂) : fs₁ = fs₂ := by
  obtain ⟨b, dir, manifest, hpush, -, hfinish, hpublish⟩ := h₁
  obtain ⟨b', dir', manifest', hpush', -, hfinish', hpublish'⟩ := h₂
  rw [hpush, Prod.mk.injEq] at hpush'
  rw [← hpush'.1, hfinish, Prod.mk.injEq] at hfinish'
  rw [← hfinish'.1, hpublish] at hpublish'
  exact Except.ok.inj hpublish'

theorem Rejected.not_publishes {parallelism : ℕ} {e : CacheError} (h : Rejected L faults source builder parallelism e)
    (hlt : source.inputs.length < wordSize) {stop : Option CacheError} :
    ¬ ActiveSourceWrite.Publishes L faults stop fs start builder source.inputs fs₁ := by
  rintro ⟨b, dir, manifest, hpush, -, hfinish, -⟩
  cases h with
  | early hk herror =>
      have hall := CacheBuilder.pushAllOn_error_of_first (List.take_prefix _ _) herror
      rw [hpush] at hall
      cases hall
  | late hending _ herror =>
      rw [hpush] at herror
      cases herror
  | finish hending _ hpush' hfinish' =>
      rw [hpush, Prod.mk.injEq] at hpush'
      rw [← hpush'.1, hfinish] at hfinish'
      cases hfinish'
  | overflow hlong => omega

theorem Rejected.not_interrupted {e error : CacheError}
    (h : Rejected L faults source builder (min config.prefetchSize.1 config.numWorkers.1) e)
    (hending : source.ending = some error) (hlt : source.inputs.length < wordSize)
    (hok : (builder.pushAllOn L faults (source.inputs.take (committedBefore config source))).2 = .ok ()) : False := by
  cases h with
  | @early k e hk herror =>
      have hle : k + 1 ≤ committedBefore config source := by
        unfold committedBefore
        omega
      rw [CacheBuilder.pushAllOn_ok_of_first (List.take_prefix_take_left hle) hok] at herror
      cases herror
  | late hnone _ _ =>
      rw [hending] at hnone
      cases hnone
  | finish hnone _ _ _ =>
      rw [hending] at hnone
      cases hnone
  | overflow hlong => omega

theorem notLeft_staged {name : String} : NotLeft fs (staged x (tempCachePathForSource base name) .empty)
    (tempCachePathForSource base name) := .inr (FileTree.sub_graft _ _ _)

theorem notLeft_prepared {cachePath tempPath : Path} (h : prepareCachePaths fs cachePath tempPath = .ok x) :
    NotLeft fs x tempPath := by
  obtain ⟨-, -, rfl | rfl⟩ := prepareCachePaths_ok h
  · exact .inl rfl
  · exact .inr (FileTree.sub_graft _ _ _)

theorem agree_of_uninterrupted (hplan : planSource L config base fs 0 source = .write start x)
    (hbuilder : builderOf config x start = .ok builder) (hiter : source.iter = none)
    (hending : source.ending.any CacheError.isInterrupt = false) (hfits : eventsOf L config base source fs < wordSize)
    (halone : WritesSource L config faults base 0 fs source alone fs₁)
    (hlisted : WritesOneInList L config faults base source fs listed fs₂) :
    SameStatus alone listed ∧ fs₁ = fs₂ ∧ (EndsInError alone → fs₁ = staged x start.tempPath .empty) := by
  have hstop : source.stop = source.ending := by simp [Source.stop, hiter]
  have hsent : source.sent = source.inputs := by simp [Source.sent, hiter]
  have hlt : source.inputs.length < wordSize := by
    simp only [eventsOf, hplan, hsent] at hfits
    omega
  obtain ⟨-, -, -, -, hprepare⟩ := planSource_write L config base hplan
  have hroot := CacheBuilder.create_root hbuilder
  obtain ⟨written, hwritten, heq⟩ := halone.course
  have hwrites := hwritten start x builder hplan hbuilder
  rw [writeOneSource_write hplan fun b hb _ => (hwritten start x b hplan hb).root (CacheBuilder.create_root hb)] at heq
  simp only [hbuilder, hiter] at heq
  obtain ⟨record, rfl, hclosed⟩ := hlisted.of_write hplan (hstop ▸ hending) hfits
  rw [hsent] at hclosed
  -- What the list leaves: the published directory, or nothing.
  have hlist : (∃ fs', ActiveSourceWrite.Publishes L faults source.stop x start builder
        source.inputs fs' ∧ fs₂ = fs' ∧ record.status = .success) ∨
      ((∀ fs', ¬ ActiveSourceWrite.Publishes L faults source.stop x start builder source.inputs fs') ∧
        fs₂ = staged x start.tempPath .empty ∧ record.status = .error) := by
    rcases ActiveSourceWrite.closed_cases L config (fun _ => faults) (prepareCachePaths_ok hprepare).2.1
        source.stop source.inputs with
      ⟨fs', b, hb, hpublishes, hdone⟩ | ⟨message, hnot, hdone⟩
    · rw [hclosed, Prod.mk.injEq] at hdone
      rw [hbuilder, Except.ok.injEq] at hb
      exact .inl ⟨fs', hb ▸ hpublishes, hdone.1, by rw [hdone.2]; rfl⟩
    · rw [hclosed, hbuilder, Prod.mk.injEq] at hdone
      exact .inr ⟨fun fs' => hnot builder fs' hbuilder, hdone.1, by rw [hdone.2]; rfl⟩
  rcases hw : written builder with ⟨error | u, dir⟩
  · -- The pipeline failed.
    rw [hw] at hwrites heq
    simp only [Prod.mk.injEq] at heq
    obtain ⟨rfl, rfl⟩ := heq
    have hcause : error.isInterrupt = false ∧ ∀ fs', ¬ ActiveSourceWrite.Publishes L faults
        source.stop x start builder source.inputs fs' := by
      rcases hwrites.error hroot with hrejected | herror
      · exact ⟨hrejected.isInterrupt, fun _ => hrejected.not_publishes hlt⟩
      · rw [herror, Option.any_some] at hending
        refine ⟨hending, ?_⟩
        rintro fs' ⟨-, -, -, -, hnone, -⟩
        rw [hstop, herror] at hnone
        cases hnone
    rcases hlist with ⟨fs', hpublishes, -⟩ | ⟨-, rfl, hstatus⟩
    · exact absurd hpublishes (hcause.2 fs')
    · rw [failedWith, hcause.1, if_neg Bool.false_ne_true]
      exact ⟨.record hstatus.symm, rfl, fun _ => rfl⟩
  · -- The pipeline returned.
    rw [hw] at hwrites heq
    obtain ⟨⟨b, manifest, hpush, hfinish⟩, hnone, -⟩ := hwrites.ok hroot
    have hdone : source.stop = none := hstop.trans hnone
    simp only at heq
    have hpublished : ∀ fs', publishCache faults.rename (staged x start.tempPath dir) start.tempPath
        start.cachePath = .ok fs' → ActiveSourceWrite.Publishes L faults source.stop x start builder
          source.inputs fs' := fun fs' h => ⟨b, dir, manifest, hpush, hdone, hfinish, h⟩
    cases hpublish : publishCache faults.rename (staged x start.tempPath dir) start.tempPath
        start.cachePath with
    | ok fs' =>
        simp only [hpublish, Prod.mk.injEq] at heq
        obtain ⟨rfl, rfl⟩ := heq
        rcases hlist with ⟨fs'', hpublishes, rfl, hstatus⟩ | ⟨hnot, -⟩
        · exact ⟨.record hstatus.symm, Publishes.unique (hpublished _ hpublish) hpublishes, fun hend => by cases hend⟩
        · exact absurd (hpublished _ hpublish) (hnot _)
    | error error =>
        simp only [hpublish, Prod.mk.injEq] at heq
        obtain ⟨rfl, rfl⟩ := heq
        rcases hlist with ⟨fs'', ⟨b', dir', manifest', hpush', -, hfinish', hpublish'⟩, -⟩ | ⟨-, rfl, hstatus⟩
        · rw [hpush, Prod.mk.injEq] at hpush'
          rw [← hpush'.1, hfinish, Prod.mk.injEq] at hfinish'
          rw [← hfinish'.1, hpublish] at hpublish'
          cases hpublish'
        · rw [failedWith, publishCache_dataErrors error hpublish, if_neg Bool.false_ne_true]
          exact ⟨.record hstatus.symm, rfl, fun _ => rfl⟩

/-- A written source whose samples end with an interrupt, and nothing was refused before. -/
theorem agree_of_interrupted (hplan : planSource L config base fs 0 source = .write start x)
    (hbuilder : builderOf config x start = .ok builder) (hiter : source.iter = none) {error : CacheError}
    (hending : source.ending = some error) (hint : error.isInterrupt = true)
    (hfits : eventsOf L config base source fs < wordSize)
    (hok : (builder.pushAllOn L faults (source.inputs.take (committedBefore config source))).2 = .ok ())
    (halone : WritesSource L config faults base 0 fs source alone fs₁)
    (hlisted : WritesOneInList L config faults base source fs listed fs₂) :
    SameStatus alone listed ∧ fs₁ = fs₂ ∧ (EndsInError alone → fs₁ = staged x start.tempPath .empty) := by
  have hstop : source.stop = some error := by simp [Source.stop, hiter, hending]
  have hlt : source.inputs.length < wordSize := by
    simp only [eventsOf, hplan, Source.sent, hiter, Option.isSome_none, Bool.false_eq_true, if_false] at hfits
    omega
  have hroot := CacheBuilder.create_root hbuilder
  obtain ⟨written, hwritten, heq⟩ := halone.course
  have hwrites := hwritten start x builder hplan hbuilder
  rw [writeOneSource_write hplan fun b hb _ => (hwritten start x b hplan hb).root (CacheBuilder.create_root hb)] at heq
  simp only [hbuilder, hiter] at heq
  obtain ⟨rfl, rfl⟩ := hlisted.of_interrupted hplan hstop hint hfits
  rw [hbuilder]
  rcases hw : written builder with ⟨error' | u, dir⟩
  · rw [hw] at hwrites heq
    simp only [Prod.mk.injEq] at heq
    obtain ⟨rfl, rfl⟩ := heq
    rcases hwrites.error hroot with hrejected | herror
    · exact absurd (hrejected.not_interrupted hending hlt hok) id
    · rw [hending, Option.some.injEq] at herror
      rw [← herror, failedWith, if_pos hint]
      exact ⟨.interrupt hint, rfl, fun _ => rfl⟩
  · rw [hw] at hwrites
    obtain ⟨-, hnone, -⟩ := hwrites.ok hroot
    rw [hending] at hnone
    cases hnone

/-- **Enough for the two ways to agree.** -/
theorem agree_of_sameWay (hsame : SameWay L config faults base source fs)
    (halone : WritesSource L config faults base 0 fs source alone fs₁)
    (hlisted : WritesOneInList L config faults base source fs listed fs₂) :
    Agree base fs source alone fs₁ listed fs₂ := by
  unfold SameWay at hsame
  cases hplan : planSource L config base fs 0 source with
  | interrupt error =>
      obtain ⟨written, -, heq⟩ := halone.course
      rw [writeOneSource_interrupt hplan, Prod.mk.injEq] at heq
      obtain ⟨rfl, rfl⟩ := heq
      obtain ⟨rfl, rfl⟩ := hlisted.of_interrupt hplan
      exact ⟨.interrupt (planSource_interrupt hplan), rfl, fun _ _ _ => .inl rfl⟩
  | result record =>
      obtain ⟨written, -, heq⟩ := halone.course
      rw [writeOneSource_result hplan, Prod.mk.injEq] at heq
      obtain ⟨rfl, rfl⟩ := heq
      obtain ⟨rfl, rfl⟩ := hlisted.of_result hplan
      exact ⟨.record rfl, rfl, fun _ _ _ => .inl rfl⟩
  | write start x =>
      simp only [hplan] at hsame
      obtain ⟨hfits, hbuilder⟩ := hsame
      obtain ⟨name, hname, hstart, -, hprepare⟩ := planSource_write L config base hplan
      -- The staging directory of the source, whatever name is asked for.
      have hstaging : fs₁ = x ∨ fs₁ = staged x start.tempPath .empty → ∀ name, extractSourceName source = .ok name →
          NotLeft fs fs₁ (tempCachePathForSource base name) := by
        intro hleft name' hname'
        rw [hname, Except.ok.injEq] at hname'
        subst hname'
        rw [hstart] at hleft hprepare
        rcases hleft with rfl | rfl
        · exact notLeft_prepared hprepare
        · exact notLeft_staged
      cases hcreate : builderOf config x start with
      | error error =>
          simp only [hcreate] at hbuilder
          obtain ⟨written, hwritten, heq⟩ := halone.course
          rw [writeOneSource_write hplan fun b hb _ =>
            (hwritten start x b hplan hb).root (CacheBuilder.create_root hb)] at heq
          simp only [hcreate, Prod.mk.injEq] at heq
          obtain ⟨rfl, rfl⟩ := heq
          obtain ⟨record, rfl, hclosed⟩ := hlisted.of_write hplan hbuilder hfits
          rcases ActiveSourceWrite.closed_cases L config (fun _ => faults) (prepareCachePaths_ok hprepare).2.1
              source.stop source.sent with
            ⟨fs', b, hb, -⟩ | ⟨message, -, hdone⟩
          · rw [hcreate] at hb
            cases hb
          · rw [hclosed, hcreate, Prod.mk.injEq] at hdone
            obtain ⟨rfl, rfl⟩ := hdone
            exact ⟨.record rfl, rfl, fun _ => hstaging (.inl rfl)⟩
      | ok builder =>
          simp only [hcreate] at hbuilder
          obtain ⟨hiter, hok⟩ := hbuilder
          have hagree : SameStatus alone listed ∧ fs₁ = fs₂ ∧
              (EndsInError alone → fs₁ = staged x start.tempPath .empty) := by
            cases hending : source.ending with
            | none => exact agree_of_uninterrupted hplan hcreate hiter (by simp [hending]) hfits halone hlisted
            | some error =>
                cases hint : error.isInterrupt with
                | false =>
                    exact agree_of_uninterrupted hplan hcreate hiter (by simp [hending, hint]) hfits halone hlisted
                | true =>
                    exact agree_of_interrupted hplan hcreate hiter hending hint hfits (hok (by simp [hending, hint]))
                      halone hlisted
          exact ⟨hagree.1, hagree.2.1, fun hfails => hstaging (.inr (hagree.2.2 hfails))⟩

end sufficient

section necessary

variable {L : StorageLib} {config : WriterConfig} {faults : WriterFaults} {base : Path} {source : Source}
  {fs fs₁ fs₂ x : FileTree} {alone : CacheResult CacheWriteRecord} {listed : CacheResult (List CacheWriteRecord)}
  {builder : CacheBuilder} {start : SourceWriteStart}

theorem SameStatus.not_record_interrupt {record : CacheWriteRecord} {error : CacheError} :
    ¬ SameStatus (.ok record) (.error error) := nofun

variable (L config faults base source fs) in
theorem exists_writesSource : ∃ alone fs₁, WritesSource L config faults base 0 fs source alone fs₁ := by
  have hall : ∀ b : CacheBuilder, ∃ w : CacheResult Unit × FileTree, b.dir [] = some .dir →
      WritesWith L config faults source b w.1 w.2 := by
    intro b
    by_cases hroot : b.dir [] = some .dir
    · obtain ⟨r, d, hw⟩ := exists_writesWith L config faults source hroot
      exact ⟨(r, d), fun _ => hw⟩
    · exact ⟨(.ok (), .empty), fun hr => absurd hr hroot⟩
  choose written hwritten using hall
  exact ⟨_, _, writesSource_of_written hwritten⟩

/-- `iter()` is called when the builder is there, and only the list removes what the builder has made. -/
theorem not_agree_of_iter (hplan : planSource L config base fs 0 source = .write start x)
    (hbuilder : builderOf config x start = .ok builder) {error : CacheError} (hiter : source.iter = some error)
    (hfits : eventsOf L config base source fs < wordSize)
    (halone : WritesSource L config faults base 0 fs source alone fs₁)
    (hlisted : WritesOneInList L config faults base source fs listed fs₂) : fs₁ ≠ fs₂ := by
  have hstop : source.stop = some error := by simp [Source.stop, hiter]
  obtain ⟨-, -, -, -, hprepare⟩ := planSource_write L config base hplan
  obtain ⟨written, hwritten, heq⟩ := halone.course
  rw [writeOneSource_write hplan fun b hb _ => (hwritten start x b hplan hb).root (CacheBuilder.create_root hb)] at heq
  simp only [hbuilder, hiter, Prod.mk.injEq] at heq
  have hleft : fs₁ start.tempPath = some .dir := by
    rw [← heq.1, staged_self]
    exact CacheBuilder.create_root hbuilder
  have hremoved : fs₂ = staged x start.tempPath .empty := by
    cases hint : error.isInterrupt with
    | true =>
        obtain ⟨-, rfl⟩ := hlisted.of_interrupted hplan hstop hint hfits
        rw [hbuilder]
    | false =>
        obtain ⟨record, -, hclosed⟩ := hlisted.of_write hplan (by rw [hstop, Option.any_some, hint]) hfits
        rcases ActiveSourceWrite.closed_cases L config (fun _ => faults) (prepareCachePaths_ok hprepare).2.1
            source.stop source.sent with
          ⟨fs', b, -, ⟨-, -, -, -, hnone, -⟩, -⟩ | ⟨message, -, hdone⟩
        · rw [hstop] at hnone
          cases hnone
        · rw [hclosed, hbuilder, Prod.mk.injEq] at hdone
          exact hdone.1
  intro hsame
  rw [hsame, hremoved, staged_self] at hleft
  cases hleft

theorem CacheBuilder.exists_first_refused {b : CacheBuilder} {inputs : List WriterInput} :
    ∀ {m : ℕ}, (b.pushAllOn L faults (inputs.take m)).2 ≠ .ok () →
      ∃ k e, k < m ∧ (b.pushAllOn L faults (inputs.take k)).2 = .ok () ∧
        (b.pushAllOn L faults (inputs.take (k + 1))).2 = .error e
  | 0, h => absurd rfl h
  | m + 1, h => by
      cases hbefore : (b.pushAllOn L faults (inputs.take m)).2 with
      | ok u =>
          cases hlast : (b.pushAllOn L faults (inputs.take (m + 1))).2 with
          | ok u => exact absurd hlast h
          | error e => exact ⟨m, e, m.lt_succ_self, hbefore, hlast⟩
      | error e =>
          have hne : (b.pushAllOn L faults (inputs.take m)).2 ≠ .ok () := by simp [hbefore]
          obtain ⟨k, e', hk, hok, herror⟩ := exists_first_refused hne
          exact ⟨k, e', hk.trans m.lt_succ_self, hok, herror⟩

/-- A sample is refused, and then the samples end with an interrupt: the workers can be so fast that the call alone
returns a record. -/
theorem exists_record_of_refused (hplan : planSource L config base fs 0 source = .write start x)
    (hbuilder : builderOf config x start = .ok builder) (hiter : source.iter = none)
    (hlong : source.inputs.length < wordSize)
    (hrefused : (builder.pushAllOn L faults (source.inputs.take (committedBefore config source))).2 ≠ .ok ()) :
    ∃ record fs₁, WritesSource L config faults base 0 fs source (.ok record) fs₁ := by
  obtain ⟨k, e, hk, hok, herror⟩ := CacheBuilder.exists_first_refused hrefused
  unfold committedBefore at hk
  obtain ⟨dir, hwrites⟩ : ∃ dir, WritesWith L config faults source builder (.error e) dir :=
    exists_rejected (by omega) hlong hok herror
  obtain ⟨written, hw, hwritten⟩ := exists_written L config faults source hwrites
  have halone : WritesSource L config faults base 0 fs source _ _ := writesSource_of_written hwritten
  rw [writeOneSource_write hplan fun b hb _ => (hwritten b (CacheBuilder.create_root hb)).root
    (CacheBuilder.create_root hb)] at halone
  have hint : e.isInterrupt = false := CacheBuilder.dataErrors_pushAllOn _ _ _ _ herror
  simp only [hbuilder, hiter, hw, failedWith, hint, Bool.false_eq_true, if_false] at halone
  exact ⟨_, _, halone⟩

/-- **Needed for the two ways to agree.** -/
theorem sameWay_of_agree (h : ∀ alone fs₁ listed fs₂, WritesSource L config faults base 0 fs source alone fs₁ →
      WritesOneInList L config faults base source fs listed fs₂ → Agree base fs source alone fs₁ listed fs₂) :
    SameWay L config faults base source fs := by
  obtain ⟨alone, fs₁, halone⟩ := exists_writesSource L config faults base source fs
  obtain ⟨listed, fs₂, hlisted⟩ := exists_writesOneInList L config faults base source fs
  have hagree := h _ _ _ _ halone hlisted
  unfold SameWay
  cases hplan : planSource L config base fs 0 source with
  | interrupt error => trivial
  | result record => trivial
  | write start x =>
      -- A list whose events have no numbers ends with an error that is no interrupt.
      have hfits : eventsOf L config base source fs < wordSize := by
        cases listed with
        | ok records => exact hlisted.ok.1
        | error error =>
            rcases hlisted.error with ⟨-, hint⟩ | ⟨hfits, -⟩
            · cases hagree.status with
              | interrupt hinterrupt =>
                  rw [hint] at hinterrupt
                  cases hinterrupt
            · exact hfits
      refine ⟨hfits, ?_⟩
      cases hcreate : builderOf config x start with
      | error error =>
          simp only
          by_contra hany
          obtain ⟨stop, hstop, hint⟩ := (Option.any_eq_true _ _).mp (Bool.eq_true_of_not_eq_false hany)
          obtain ⟨rfl, -⟩ := hlisted.of_interrupted hplan hstop hint hfits
          obtain ⟨written, hwritten, heq⟩ := halone.course
          rw [writeOneSource_write hplan fun b hb _ => (hwritten start x b hplan hb).root
            (CacheBuilder.create_root hb)] at heq
          simp only [hcreate, Prod.mk.injEq] at heq
          obtain ⟨-, rfl⟩ := heq
          exact SameStatus.not_record_interrupt hagree.status
      | ok builder =>
          simp only
          have hiter : source.iter = none := by
            by_contra hsome
            obtain ⟨error, herror⟩ := Option.ne_none_iff_exists'.mp hsome
            exact not_agree_of_iter hplan hcreate herror hfits halone hlisted hagree.disk
          refine ⟨hiter, fun hany => ?_⟩
          obtain ⟨error, hending, hint⟩ := (Option.any_eq_true _ _).mp hany
          by_contra hrefused
          have hstop : source.stop = some error := by simp [Source.stop, hiter, hending]
          have hlong : source.inputs.length < wordSize := by
            simp only [eventsOf, hplan, Source.sent, hiter, Option.isSome_none, Bool.false_eq_true, if_false] at hfits
            omega
          obtain ⟨record, fs', hrecord⟩ := exists_record_of_refused hplan hcreate hiter hlong hrefused
          obtain ⟨rfl, -⟩ := hlisted.of_interrupted hplan hstop hint hfits
          exact SameStatus.not_record_interrupt (h _ _ _ _ hrecord hlisted).status

end necessary

/-! ### Exactly when -/

/-- **The two ways agree, exactly when**, whatever writes and renames fail. -/
theorem one_source_agrees_iff (L : StorageLib) (config : WriterConfig) (base : Path) (source : Source) (fs : FileTree)
    (faults : WriterFaults) :
    (∀ alone fs₁ listed fs₂, WritesSource L config faults base 0 fs source alone fs₁ →
      WritesOneInList L config faults base source fs listed fs₂ →
      Agree base fs source alone fs₁ listed fs₂) ↔ SameWay L config faults base source fs :=
  ⟨sameWay_of_agree, fun hsame _ _ _ _ halone hlisted => agree_of_sameWay hsame halone hlisted⟩

/-- A source without samples: `iter()` raises an ordinary error. -/
def raising : Source := ⟨.ok "b", some (.python "no samples"), [], none⟩

open SharedShard in
/-- The call alone leaves the staging directory that it has made, and the list does not. -/
theorem raising_iter_leaves_staging :
    (∀ alone fs₁, WritesSource (lib "000000.bin") config .none ["d"] 0 fs raising alone fs₁ →
      EndsInError alone ∧ fs ["d", "tmp", "b"] = none ∧ fs₁ ["d", "tmp", "b"] = some .dir) ∧
    (∀ listed fs₂, WritesOneInList (lib "000000.bin") config .none ["d"] raising fs listed fs₂ →
      fs₂ ["d", "tmp", "b"] = none) ∧
    ¬ ∀ alone fs₁ listed fs₂, WritesSource (lib "000000.bin") config .none ["d"] 0 fs raising alone fs₁ →
      WritesOneInList (lib "000000.bin") config .none ["d"] raising fs listed fs₂ →
      Agree ["d"] fs raising alone fs₁ listed fs₂ := by
  have hplan : planSource (lib "000000.bin") config ["d"] fs 0 raising =
      .write ⟨0, "b", ["d", "b"], ["d", "tmp", "b"]⟩ fs := rfl
  obtain ⟨builder, hbuilder⟩ : ∃ builder, builderOf config fs ⟨0, "b", ["d", "b"], ["d", "tmp", "b"]⟩ = .ok builder :=
    ⟨_, rfl⟩
  have hfits : eventsOf (lib "000000.bin") config ["d"] raising fs < wordSize := by decide
  refine ⟨fun alone fs₁ halone => ?_, fun listed fs₂ hlisted => ?_, fun hagree => ?_⟩
  · obtain ⟨written, hwritten, heq⟩ := halone.course
    rw [writeOneSource_write hplan fun b hb _ => (hwritten _ fs b hplan hb).root (CacheBuilder.create_root hb)] at heq
    simp only [hbuilder, raising, Prod.mk.injEq] at heq
    obtain ⟨rfl, rfl⟩ := heq
    exact ⟨rfl, rfl, (staged_self _).trans (CacheBuilder.create_root hbuilder)⟩
  · obtain ⟨record, -, hclosed⟩ := hlisted.of_write hplan rfl hfits
    cases hclosed
    rfl
  · obtain ⟨alone, fs₁, halone⟩ := exists_writesSource (lib "000000.bin") config .none ["d"] raising fs
    obtain ⟨listed, fs₂, hlisted⟩ := exists_writesOneInList (lib "000000.bin") config .none ["d"] raising fs
    exact not_agree_of_iter hplan hbuilder rfl hfits halone hlisted (hagree _ _ _ _ halone hlisted).disk

end DatasetRt
