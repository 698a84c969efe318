import DatasetRt.SourceListRuns
import DatasetRt.SourceViews
import DatasetRt.SourceStaging

/-! # The contract of `write_source_list`

What a call returns and leaves on the disk, source by source, when the sources have distinct names other than
`tmp`: `Settled` for a source with a record, `Kept` for the sources of a call that was interrupted.  Both follow
from the runs of the list (`Tracks`), which reduce a source to the source alone, and from what a source does to
its two directories (`settled_of_sourceOutcome`, `markFailed_opened`).

A cache that is reused and validated is read wherever its manifest says, so another source can be seen through
it; `outcome_depends_on_other_source` is such a cache, and `PlainShards` excludes it. -/

namespace DatasetRt

/-! ### The directories of a source -/

section directories

variable {base : Path} {c : String} {fs : FileTree}

theorem sub_eq_of_forall {fs fs' : FileTree} {path : Path} (h : ∀ q, path <+: q → fs q = fs' q) :
    fs.sub path = fs'.sub path :=
  funext fun q => h (path ++ q) (List.prefix_append _ _)

theorem View.sub_cache {fs' : FileTree} (h : View base c fs fs') : fs.sub (base ++ [c]) = fs'.sub (base ++ [c]) :=
  sub_eq_of_forall h.cache

theorem View.sub_temp {fs' : FileTree} (h : View base c fs fs') :
    fs.sub (base ++ ["tmp", c]) = fs'.sub (base ++ ["tmp", c]) :=
  sub_eq_of_forall h.temp

theorem graft_temp_cache (hc : c ≠ "tmp") (dir : FileTree) :
    (fs.graft (base ++ ["tmp", c]) dir).sub (base ++ [c]) = fs.sub (base ++ [c]) :=
  sub_eq_of_forall fun _ hq => FileTree.graft_of_not_prefix _ (not_prefix_of_ne hc hq) _

theorem staged_cache (hc : c ≠ "tmp") (dir : FileTree) :
    (staged fs (base ++ ["tmp", c]) dir).sub (base ++ [c]) = fs.sub (base ++ [c]) := by
  rw [staged, graft_temp_cache hc]
  refine sub_eq_of_forall fun q hq => ?_
  have hnot : ¬ q <+: base ++ ["tmp", c] := by
    intro hpre
    have hle := hq.trans hpre
    rw [List.prefix_append_right_inj, List.cons_prefix_cons] at hle
    exact hc hle.1
  simp [makeParents, hnot]

theorem staged_temp (dir : FileTree) : (staged fs (base ++ ["tmp", c]) dir).sub (base ++ ["tmp", c]) = dir :=
  FileTree.sub_graft _ _ _

theorem rename_cache (source target : Path) : (fs.rename source target).sub target = fs.sub source :=
  FileTree.sub_graft _ _ _

theorem rename_temp (hc : c ≠ "tmp") :
    (fs.rename (base ++ ["tmp", c]) (base ++ [c])).sub (base ++ ["tmp", c]) = .empty := by
  funext q
  have hq : base ++ ["tmp", c] <+: (base ++ ["tmp", c]) ++ q := List.prefix_append _ _
  have hnot : ¬ base ++ [c] <+: (base ++ ["tmp", c]) ++ q := not_prefix_of_ne hc.symm hq
  simp only [FileTree.sub, FileTree.rename, FileTree.graft_of_not_prefix _ hnot]
  simp only [FileTree.removeDirAll, FileTree.graft, if_pos hq, FileTree.empty]

end directories

/-! ### What a source can expect -/

section outcome

variable (L : StorageLib) (config : WriterConfig)

/-- The directory of a cache that was finished with exactly these samples, and from which they can be read. -/
def FinishedCache (sourceName : String) (inputs : List WriterInput) (dir : FileTree) : Prop :=
  ∃ (path : Path) (b₀ b : CacheBuilder) (manifest : Manifest),
    CacheBuilder.create false true path sourceName config.maxShardBytes.1 config.shardCompression = .ok b₀ ∧
    b₀.pushAll L inputs = (b, .ok ()) ∧ b.finish L = (dir, .ok manifest) ∧
    (L.Lawful → config.shardCompression.Valid → (∀ row ∈ b.metadataRows, ObjectReadsBack L b.schema row) →
      ∀ (fs : FileTree) (place : Path), fs.sub place = dir → fs.Sized →
        HoldsSamples L fs place manifest.fields.metadataSchema inputs)

/-- No staging directory that this call made is left. -/
def NotLeft (fs fs' : FileTree) (tempPath : Path) : Prop :=
  fs'.sub tempPath = fs.sub tempPath ∨ fs'.sub tempPath = .empty

/-- The name in the record of a source. -/
def recordName (index : ℕ) (source : Source) : String :=
  match extractSourceName source with
  | .ok sourceName => sourceName
  | .error _ => sourceLabel index

/-- The cache was there before and is the result. -/
def Reused (base : Path) (fs fs' : FileTree) (sourceName : String) : Prop :=
  config.reuseExisting = true ∧ fs.pathExists (cachePathForSource base sourceName) = true ∧
    fs'.sub (cachePathForSource base sourceName) = fs.sub (cachePathForSource base sourceName)

/-- The cache was not there before and has the samples of the source. -/
def Published (base : Path) (fs fs' : FileTree) (source : Source) (sourceName : String) : Prop :=
  fs (cachePathForSource base sourceName) = none ∧ source.stop = none ∧
    FinishedCache L config sourceName source.inputs (fs'.sub (cachePathForSource base sourceName))

/-- A source with a record. -/
structure Settled (base : Path) (fs fs' : FileTree) (index : ℕ) (source : Source) (record : CacheWriteRecord) :
    Prop where
  name : record.sourceName = recordName index source
  success : record.status = .success → ∃ sourceName, extractSourceName source = .ok sourceName ∧
    record.detail = base.pushText sourceName ∧
    (Reused config base fs fs' sourceName ∨ Published L config base fs fs' source sourceName)
  error : record.status = .error → ∀ sourceName, extractSourceName source = .ok sourceName →
    fs'.sub (cachePathForSource base sourceName) = fs.sub (cachePathForSource base sourceName)
  temp : ∀ sourceName, extractSourceName source = .ok sourceName →
    NotLeft fs fs' (tempCachePathForSource base sourceName)

/-- A source of a call that was interrupted. -/
structure Kept (base : Path) (fs fs' : FileTree) (source : Source) (sourceName : String) : Prop where
  cache : fs'.sub (cachePathForSource base sourceName) = fs.sub (cachePathForSource base sourceName) ∨
    Published L config base fs fs' source sourceName
  temp : NotLeft fs fs' (tempCachePathForSource base sourceName)

end outcome

/-! ### The source alone -/

section alone

variable {L : StorageLib} {config : WriterConfig} {base : Path} {fs fs' : FileTree} {index : ℕ} {source : Source}
  {sourceName : String}

theorem finishedCache_of_pushAll {path : Path} {parents : Bool} {b₀ b : CacheBuilder} {inputs : List WriterInput}
    {dir : FileTree} {manifest : Manifest}
    (hcreate : CacheBuilder.create false parents path sourceName config.maxShardBytes.1 config.shardCompression =
      .ok b₀)
    (hpush : b₀.pushAll L inputs = (b, .ok ())) (hfinish : b.finish L = (dir, .ok manifest)) :
    FinishedCache L config sourceName inputs dir := by
  have hparents : parents = true := by
    cases parents with
    | true => rfl
    | false => simp [CacheBuilder.create] at hcreate
  subst hparents
  exact ⟨path, b₀, b, manifest, hcreate, hpush, hfinish, fun hL hvalid hjson _ _ hplace hsized =>
    CacheBuilder.holdsSamples hL hvalid hcreate hpush hjson hfinish hplace hsized⟩

theorem prepared_directories {c : String} (hc : c ≠ "tmp") {x : FileTree}
    (h : prepareCachePaths fs (base ++ [c]) (base ++ ["tmp", c]) = .ok x) :
    fs (base ++ [c]) = none ∧ x (base ++ ["tmp", c]) = none ∧ x.sub (base ++ [c]) = fs.sub (base ++ [c]) ∧
      NotLeft fs x (base ++ ["tmp", c]) := by
  obtain ⟨hcache, htemp, rfl | rfl⟩ := prepareCachePaths_ok h
  · exact ⟨hcache, htemp, rfl, .inl rfl⟩
  · exact ⟨hcache, htemp, graft_temp_cache hc _, .inr (FileTree.sub_graft _ _ _)⟩

theorem planSource_result {record : CacheWriteRecord} (h : planSource L config base fs index source = .result record) :
    record.sourceName = recordName index source ∧
      (record.status = .success → ∃ name, extractSourceName source = .ok name ∧
        record.detail = base.pushText name ∧ config.reuseExisting = true ∧
        fs.pathExists (cachePathForSource base name) = true) := by
  unfold planSource at h
  unfold recordName
  cases hname : extractSourceName source with
  | error error =>
      simp only [hname] at h
      split_ifs at h
      cases h
      exact ⟨rfl, nofun⟩
  | ok name =>
      simp only [hname] at h
      split_ifs at h with hreuse
      · rw [Bool.and_eq_true] at hreuse
        cases h
        unfold ListWrite.existingCacheResult
        rw [successWriteResult_eq hname]
        split_ifs
        · cases loadCache L fs (cachePathForSource base name) true 0 with
          | ok cache => exact ⟨rfl, fun _ => ⟨name, rfl, rfl, hreuse⟩⟩
          | error error => exact ⟨rfl, nofun⟩
        · exact ⟨rfl, fun _ => ⟨name, rfl, rfl, hreuse⟩⟩
      · cases hprepare : prepareCachePaths fs (cachePathForSource base name) (tempCachePathForSource base name) with
        | error error =>
            simp only [hprepare] at h
            cases h
            exact ⟨rfl, nofun⟩
        | ok prepared => simp [hprepare] at h

/-- The staging directory once more, for a source that has one. -/
theorem written_directories {c : String} (hc : c ≠ "tmp") {x y : FileTree} {start : SourceWriteStart}
    (hstart : AtSegment base c start) (hprepare : prepareCachePaths fs start.cachePath start.tempPath = .ok x)
    (hy : y = match builderOf config x start with
      | .ok _ => staged x start.tempPath .empty
      | .error _ => x) :
    y.sub start.cachePath = fs.sub start.cachePath ∧ NotLeft fs y start.tempPath := by
  obtain ⟨htemp, hcache⟩ := hstart
  rw [htemp, hcache] at hprepare
  obtain ⟨-, -, hsame, hleft⟩ := prepared_directories hc hprepare
  rw [htemp, hcache]
  cases hbuilder : builderOf config x start with
  | ok builder =>
      simp only [hbuilder, htemp] at hy
      rw [hy, staged_cache hc, hsame]
      exact ⟨rfl, .inr (staged_temp _)⟩
  | error error =>
      simp only [hbuilder] at hy
      rw [hy]
      exact ⟨hsame, hleft⟩

theorem Source.sent_of_stop (h : source.stop = none) : source.sent = source.inputs := by
  have hiter : source.iter = none := (Option.or_eq_none_iff.mp h).1
  simp [Source.sent, hiter]

theorem published_directories {c : String} (hc : c ≠ "tmp") {x y : FileTree} {start : SourceWriteStart}
    (hstart : AtSegment base c start) (hprepare : prepareCachePaths fs start.cachePath start.tempPath = .ok x)
    {builder : CacheBuilder} (hbuilder : builderOf config x start = .ok builder)
    {faults : WriterFaults} (hkept : faults.kept = none)
    (h : ActiveSourceWrite.Publishes L faults source.stop x start builder source.sent y) :
    fs start.cachePath = none ∧ source.stop = none ∧
      FinishedCache L config start.sourceName source.inputs (y.sub start.cachePath) ∧
      y.sub start.tempPath = .empty := by
  obtain ⟨b, dir, manifest, hpush, hstop, hfinish, hpublish⟩ := h
  rw [Source.sent_of_stop hstop] at hpush
  obtain ⟨hfree, -⟩ := prepareCachePaths_ok hprepare
  obtain ⟨htemp, hcache⟩ := hstart
  obtain ⟨-, rfl⟩ := publishCache_ok hpublish
  refine ⟨hfree, hstop, ?_, ?_⟩
  · rw [rename_cache, htemp, staged_temp]
    exact finishedCache_of_pushAll hbuilder (CacheBuilder.pushAllOn_ok hpush)
      (CacheBuilder.finishOn_whole hkept hfinish)
  · rw [htemp, hcache]
    exact rename_temp hc

/-- **A source that is written alone.** -/
theorem settled_of_sourceOutcome (hne : ∀ name, extractSourceName source = .ok name →
      Path.components name ≠ ["tmp"]) {faults : ℕ → WriterFaults} (hkept : (faults index).kept = none)
    {record : CacheWriteRecord} (h : sourceOutcome L config faults base fs index source = some (fs', record)) :
    Settled L config base fs fs' index source record := by
  unfold sourceOutcome at h
  cases hplan : planSource L config base fs index source with
  | interrupt error => simp [hplan] at h
  | result record' =>
      simp only [hplan, Option.some.injEq, Prod.mk.injEq] at h
      obtain ⟨rfl, rfl⟩ := h
      obtain ⟨hrecord, hsuccess⟩ := planSource_result hplan
      refine ⟨hrecord, fun hs => ?_, fun _ _ _ => rfl, fun _ _ => .inl rfl⟩
      obtain ⟨name, hname, hdetail, hreuse, hexists⟩ := hsuccess hs
      exact ⟨name, hname, hdetail, .inl ⟨hreuse, hexists, rfl⟩⟩
  | write start x =>
      obtain ⟨name, hname, hstart, -, hprepare⟩ := planSource_write L config base hplan
      obtain ⟨c, hcomponents, hjoin⟩ := segment_of_extractSourceName hname
      have hc : c ≠ "tmp" := fun heq => hne name hname (by rw [hcomponents, heq])
      have hat : AtSegment base c start := hstart ▸ atSegment base hjoin index
      have hrecord : recordName index source = name := by simp [recordName, hname]
      obtain ⟨hfree, htempFree, -⟩ := prepareCachePaths_ok hprepare
      simp only [hplan] at h
      split_ifs at h
      rw [Option.some.injEq] at h
      have hunique : ∀ name', extractSourceName source = .ok name' → name' = name := fun name' h' => by
        rw [hname, Except.ok.injEq] at h'
        exact h'.symm
      rcases ActiveSourceWrite.closed_cases L config faults htempFree source.stop source.sent with
        ⟨y, builder, hbuilder, hpublishes, heq⟩ | ⟨message, -, heq⟩
      · rw [heq, Prod.mk.injEq] at h
        obtain ⟨rfl, rfl⟩ := h
        obtain ⟨hnew, hstop, hfinished, htemp⟩ := published_directories hc hat hprepare hbuilder
          (by rw [hstart]; exact hkept) hpublishes
        subst hstart
        refine ⟨hrecord.symm, fun _ => ⟨name, hname, ?_, .inr ⟨hnew, hstop, hfinished⟩⟩, nofun, fun name' h' => ?_⟩
        · rw [successWriteResult_eq hname]
        rw [hunique name' h']
        exact .inr htemp
      · rw [heq, Prod.mk.injEq] at h
        obtain ⟨hy, rfl⟩ := h
        obtain ⟨hcache, htemp⟩ := written_directories hc hat hprepare hy.symm
        subst hstart
        refine ⟨hrecord.symm, nofun, fun _ name' h' => ?_, fun name' h' => ?_⟩
        · rw [hunique name' h']
          exact hcache
        · rw [hunique name' h']
          exact htemp

/-- What is said of a source speaks of its two directories only. -/
theorem Settled.of_same {fs₁ : FileTree} {record : CacheWriteRecord}
    (h : Settled L config base fs fs₁ index source record)
    (hsame : ∀ name, extractSourceName source = .ok name →
      fs'.sub (cachePathForSource base name) = fs₁.sub (cachePathForSource base name) ∧
        fs'.sub (tempCachePathForSource base name) = fs₁.sub (tempCachePathForSource base name)) :
    Settled L config base fs fs' index source record where
  name := h.name
  success hs := by
    obtain ⟨name, hname, hdetail, hcase⟩ := h.success hs
    refine ⟨name, hname, hdetail, ?_⟩
    unfold Reused Published at hcase ⊢
    rw [(hsame name hname).1]
    exact hcase
  error hs name hname := (hsame name hname).1.trans (h.error hs name hname)
  temp name hname := by
    have htemp := h.temp name hname
    unfold NotLeft at htemp ⊢
    rw [(hsame name hname).2]
    exact htemp

/-- A record says more than is known after an interrupt. -/
theorem Settled.kept {record : CacheWriteRecord} (h : Settled L config base fs fs' index source record)
    (hname : extractSourceName source = .ok sourceName) : Kept L config base fs fs' source sourceName where
  cache := by
    cases hs : record.status with
    | error => exact .inl (h.error hs sourceName hname)
    | success =>
        obtain ⟨name, hname', -, hcase⟩ := h.success hs
        obtain rfl : name = sourceName := Except.ok.inj (hname'.symm.trans hname)
        rcases hcase with hreused | hpublished
        · exact .inl hreused.2.2
        · exact .inr hpublished
  temp := h.temp sourceName hname

end alone

/-! ### The whole call -/

section contract

variable {L : StorageLib} {config : WriterConfig} {faults : ℕ → WriterFaults} {base : Path} {sources : List Source}
  {fs fs' : FileTree}

variable (L config base sources fs) in
/-- The caches that are there and are validated keep their shards in their own directories. -/
def ReusesPlainShards : Prop :=
  config.reuseExisting = true → config.validateCache = true → ∀ source ∈ sources, ∀ name,
    extractSourceName source = .ok name → PlainShards L fs (cachePathForSource base name)

theorem ensureUniqueSourcePaths_go {seen : List Path} {rest : List Source}
    (hfresh : ∀ source ∈ rest, ∀ name, extractSourceName source = .ok name → cachePathForSource base name ∉ seen)
    (hpair : rest.Pairwise fun source source' => ∀ name name', extractSourceName source = .ok name →
      extractSourceName source' = .ok name' → cachePathForSource base name ≠ cachePathForSource base name') :
    ensureUniqueSourcePaths.go base seen rest = .ok () := by
  induction rest generalizing seen with
  | nil => rfl
  | cons source rest ih =>
      rw [List.pairwise_cons] at hpair
      rw [ensureUniqueSourcePaths_cons]
      cases hname : extractSourceName source with
      | error error => exact ih (fun s hs => hfresh s (List.mem_cons_of_mem _ hs)) hpair.2
      | ok name =>
          simp only [hfresh source List.mem_cons_self name hname, if_false]
          refine ih (fun s hs name' hname' hmem => ?_) hpair.2
          rcases List.mem_cons.mp hmem with heq | hold
          · exact hpair.1 s hs name name' hname hname' heq.symm
          · exact hfresh s (List.mem_cons_of_mem _ hs) name' hname' hold

theorem ensureUniqueSourcePaths_ok (hseg : Segments (segmentOf sources)) :
    ensureUniqueSourcePaths base sources = .ok () := by
  refine ensureUniqueSourcePaths_go (by simp) (List.pairwise_iff_getElem.mpr fun i j hi hj hlt name name' h h' heq => ?_)
  obtain ⟨c, hc, hjoin⟩ := segment_of_extractSourceName h
  obtain ⟨c', hc', hjoin'⟩ := segment_of_extractSourceName h'
  have hcc : c = c' := by
    rw [cachePathForSource, cachePathForSource, hjoin, hjoin'] at heq
    simpa using heq
  have hij := hseg.inj i j c (segmentOf_eq (List.getElem?_eq_getElem hi) h hc)
    (segmentOf_eq (List.getElem?_eq_getElem hj) h' (hcc ▸ hc'))
  omega

theorem Seen.directories {i : ℕ} {source : Source} {fs₁ : FileTree}
    (hsource : sources[i]? = some source) (hseen : Seen base (segmentOf sources) i fs' fs₁) (name : String)
    (hname : extractSourceName source = .ok name) :
    fs'.sub (cachePathForSource base name) = fs₁.sub (cachePathForSource base name) ∧
      fs'.sub (tempCachePathForSource base name) = fs₁.sub (tempCachePathForSource base name) := by
  obtain ⟨c, hc, hjoin⟩ := segment_of_extractSourceName hname
  have hview := hseen c (segmentOf_eq hsource hname hc)
  obtain ⟨htemp, hcache⟩ := atSegment base hjoin i
  simp only at htemp hcache
  rw [htemp, hcache]
  exact ⟨hview.sub_cache, hview.sub_temp⟩

theorem components_ne_tmp (hseg : Segments (segmentOf sources)) {i : ℕ} {source : Source}
    (hsource : sources[i]? = some source) (name : String) (hname : extractSourceName source = .ok name) :
    Path.components name ≠ ["tmp"] := fun heq => hseg.ne_tmp i "tmp" (segmentOf_eq hsource hname heq) rfl

namespace ListWrite

theorem signals_of_step {s s' : ListWrite} {a : ListAct}
    (hs : s.step L config faults base sources a = some s') :
    ListAct.Signals (fun error => error.isInterrupt = true) a := by
  rcases step_cases hs with ⟨rfl, -⟩ | ⟨error, rfl, hint, -⟩ | ⟨error, rfl, -⟩ | ⟨act, pipeline, rfl, hinner, -⟩
  · trivial
  · exact hint
  · trivial
  · cases act <;> trivial

theorem tracks_interrupted {s : ListWrite} {as : List ListAct} (hseg : Segments (segmentOf sources))
    (hshards : ReusesPlainShards L config base sources fs)
    (hrun : Machine.run (step L config faults base sources) (new config sources fs) as = some s) :
    Tracks L config faults base sources fs (Seen base (segmentOf sources))
      (fun error => error.isInterrupt = true) s :=
  Machine.run_invariant _ (fun _ _ _ h hs => tracks_step (footprints _ hseg hshards) h (signals_of_step hs) hs)
    (tracks_new (footprints _ hseg hshards)) hrun

end ListWrite

theorem Kept.of_same {source : Source} {name : String} {fs₁ : FileTree} (h : Kept L config base fs fs₁ source name)
    (hcache : fs'.sub (cachePathForSource base name) = fs₁.sub (cachePathForSource base name))
    (htemp : fs'.sub (tempCachePathForSource base name) = fs₁.sub (tempCachePathForSource base name)) :
    Kept L config base fs fs' source name := by
  obtain ⟨hc, ht⟩ := h
  unfold Published at hc
  unfold NotLeft at ht
  rw [← hcache] at hc
  rw [← htemp] at ht
  exact ⟨hc, ht⟩

/-- A source that is not being written: it is done, or its staging directory may have been removed. -/
theorem kept_expectedFs (hkept : ∀ i, (faults i).kept = none) (hseg : Segments (segmentOf sources)) {i : ℕ}
    {source : Source} {name : String}
    (hsource : sources[i]? = some source) (hname : extractSourceName source = .ok name) {p : Place}
    (hdone : i < p.index → (sourceOutcome L config faults base fs i source).isSome = true)
    (hplace : ∀ k, p ≠ .inside i k) (prepared : Bool) :
    Kept L config base fs (expectedFs L config faults base fs prepared p i source) source name := by
  have hrefl : Kept L config base fs fs source name := ⟨.inl rfl, .inl rfl⟩
  have hne := components_ne_tmp hseg hsource
  have hprepared : ∀ start x, planSource L config base fs i source = .write start x →
      Kept L config base fs (if prepared then x else fs) source name := by
    intro start x hplan
    split_ifs
    · obtain ⟨name', hname', rfl, -, hprepare⟩ := planSource_write L config base hplan
      obtain rfl : name' = name := Except.ok.inj (hname'.symm.trans hname)
      obtain ⟨c, hcomponents, hjoin⟩ := segment_of_extractSourceName hname
      have hc : c ≠ "tmp" := fun heq => hne name' hname (by rw [hcomponents, heq])
      obtain ⟨htemp, hcache⟩ := atSegment base hjoin i
      simp only at htemp hcache hprepare
      rw [htemp, hcache] at hprepare
      obtain ⟨-, -, hsame, hleft⟩ := prepared_directories hc hprepare
      rw [← hcache] at hsame
      rw [← htemp] at hleft
      exact ⟨.inl hsame, hleft⟩
    · exact hrefl
  unfold expectedFs
  by_cases hlt : i < p.index
  · obtain ⟨⟨fs₁, record⟩, houtcome⟩ := Option.isSome_iff_exists.mp (hdone hlt)
    rw [if_pos hlt, houtcome]
    exact (settled_of_sourceOutcome hne (hkept i) houtcome).kept hname
  · rw [if_neg hlt]
    cases hplan : planSource L config base fs i source with
    | interrupt error => exact hrefl
    | result record => exact hrefl
    | write start x =>
        cases p with
        | between m => exact hprepared start x hplan
        | inside m k =>
            have him : i ≠ m := fun heq => hplace k (heq ▸ rfl)
            simp only [him, if_false]
            exact hprepared start x hplan

/-- **What an interrupt leaves.** -/
theorem Snapshot.kept (hkept : ∀ i, (faults i).kept = none) (hseg : Segments (segmentOf sources))
    (hshards : ReusesPlainShards L config base sources fs)
    {prepared : ℕ → Bool} {t : PipelineCommitter} {p : Place}
    (h : Snapshot L config faults base sources fs (Seen base (segmentOf sources)) prepared t p) {i : ℕ}
    {source : Source} {name : String} (hsource : sources[i]? = some source)
    (hname : extractSourceName source = .ok name) :
    Kept L config base fs t.cleanupUnfinishedSource.fs source name := by
  have hR := footprints (L := L) faults hseg hshards
  have hdone : i < p.index → (sourceOutcome L config faults base fs i source).isSome = true := by
    intro hlt
    obtain ⟨fs₁, record, houtcome, -⟩ := h.done i source hsource hlt
    simp [houtcome]
  have hdisk := h.disk i source hsource
  have hfinal : ∀ {y fs₁ : FileTree}, Seen base (segmentOf sources) i y fs₁ → Kept L config base fs fs₁ source name →
      Kept L config base fs y source name := by
    intro y fs₁ hseen hsame
    obtain ⟨hcache, htemp⟩ := hseen.directories hsource name hname
    exact hsame.of_same hcache htemp
  unfold PipelineCommitter.cleanupUnfinishedSource
  have hactive := h.active
  cases p with
  | between m =>
      have hnone : t.active = none := hactive
      simp only [hnone]
      exact hfinal hdisk (kept_expectedFs hkept hseg hsource hname hdone nofun _)
  | inside m k =>
      obtain ⟨source', start, x, hsource', hk, hplan, hsome⟩ := hactive
      simp only [hsome]
      have hlocal := (hR.ops m source' start x hsource' hplan).mark
        (ActiveSourceWrite.opened L config faults x start (source'.sent.take k)).2 (by simp) .workerFailed
      by_cases him : i = m
      · subst him
        obtain rfl : source' = source := Option.some.inj (hsource'.symm.trans hsource)
        simp only [expectedFs, Place.index, lt_irrefl, if_false, hplan, if_true] at hdisk
        refine hfinal (hlocal.own _ _ hdisk).1 ?_
        obtain ⟨name', hname', hstart, -, hprepare⟩ := planSource_write L config base hplan
        obtain rfl : name' = name := Except.ok.inj (hname'.symm.trans hname)
        obtain ⟨c, hcomponents, hjoin⟩ := segment_of_extractSourceName hname
        have hc : c ≠ "tmp" := fun heq => components_ne_tmp hseg hsource name' hname (by rw [hcomponents, heq])
        obtain ⟨-, hfree, -⟩ := prepareCachePaths_ok hprepare
        obtain ⟨hcache, htemp⟩ := written_directories hc (hstart ▸ atSegment base hjoin i) hprepare
          (ActiveSourceWrite.markFailed_opened L config faults hfree (source'.sent.take k) .workerFailed)
        subst hstart
        exact ⟨.inl hcache, htemp⟩
      · refine hfinal (hlocal.other i _ _ him hdisk) (kept_expectedFs hkept hseg hsource hname hdone ?_ _)
        rintro k' heq
        cases heq
        exact him rfl

theorem planSource_interrupt {i : ℕ} {source : Source} {error : CacheError}
    (h : planSource L config base fs i source = .interrupt error) : error.isInterrupt = true := by
  unfold planSource at h
  cases hname : extractSourceName source with
  | error error' =>
      simp only [hname] at h
      split_ifs at h with hint
      cases h
      exact hint
  | ok name =>
      simp only [hname] at h
      split_ifs at h
      cases hprepare : prepareCachePaths fs (cachePathForSource base name) (tempCachePathForSource base name) with
      | error error' => simp [hprepare] at h
      | ok prepared => simp [hprepare] at h

theorem ListWrite.Stops.isInterrupt {p : Place} {error : CacheError}
    (h : ListWrite.Stops L config base sources fs (fun error => error.isInterrupt = true) p error) :
    error.isInterrupt = true := by
  cases h with
  | name hsource hplan => exact planSource_interrupt hplan
  | source hsource hall hstop herror => exact herror
  | signal hsignal => exact hsignal

theorem WritesSourceList.tracks (hseg : Segments (segmentOf sources))
    (hshards : ReusesPlainShards L config base sources fs) {result : CacheResult (List CacheWriteRecord)}
    (h : WritesSourceList L config faults base sources fs result fs') :
    ∃ s, ListWrite.Tracks L config faults base sources fs (Seen base (segmentOf sources))
      (fun error => error.isInterrupt = true) s ∧ s.returned = some result ∧ fs' = s.fs := by
  unfold WritesSourceList at h
  rw [ensureUniqueSourcePaths_ok hseg] at h
  obtain ⟨as, s, hrun, hret, hfs⟩ := h
  exact ⟨s, ListWrite.tracks_interrupted hseg hshards hrun, hret, hfs⟩

/-- The record of a source and its part of the disk are those of the source alone. -/
theorem WritesSourceList.outcome (hseg : Segments (segmentOf sources))
    (hshards : ReusesPlainShards L config base sources fs) {records : List CacheWriteRecord}
    (h : WritesSourceList L config faults base sources fs (.ok records) fs') :
    records.length = sources.length ∧ ∀ i source, sources[i]? = some source →
      ∃ fs₁ record, sourceOutcome L config faults base fs i source = some (fs₁, record) ∧
        records[i]? = some record ∧ ∀ name, extractSourceName source = .ok name →
          fs'.sub (cachePathForSource base name) = fs₁.sub (cachePathForSource base name) ∧
            fs'.sub (tempCachePathForSource base name) = fs₁.sub (tempCachePathForSource base name) := by
  obtain ⟨s, htracks, hret, rfl⟩ := h.tracks hseg hshards
  obtain ⟨hlength, hrecords⟩ := htracks.returned_ok hret
  refine ⟨hlength, fun i source hsource => ?_⟩
  obtain ⟨fs₁, record, houtcome, hrecord, hseen⟩ := hrecords i source hsource
  exact ⟨fs₁, record, houtcome, hrecord, hseen.directories hsource⟩

/-- What a returned list says of each source. -/
theorem WritesSourceList.settled (hkept : ∀ i, (faults i).kept = none) (hseg : Segments (segmentOf sources))
    (hshards : ReusesPlainShards L config base sources fs) {records : List CacheWriteRecord}
    (h : WritesSourceList L config faults base sources fs (.ok records) fs') :
    records.length = sources.length ∧ ∀ i source, sources[i]? = some source →
      ∃ record, records[i]? = some record ∧ Settled L config base fs fs' i source record := by
  obtain ⟨hlength, hrecords⟩ := h.outcome hseg hshards
  refine ⟨hlength, fun i source hsource => ?_⟩
  obtain ⟨fs₁, record, houtcome, hrecord, hsame⟩ := hrecords i source hsource
  have hsettled := settled_of_sourceOutcome (components_ne_tmp hseg hsource) (hkept i) houtcome
  exact ⟨record, hrecord, hsettled.of_same hsame⟩

/-- What a returned error is, and what it leaves of each source. -/
theorem WritesSourceList.interrupted (hkept : ∀ i, (faults i).kept = none) (hseg : Segments (segmentOf sources))
    (hshards : ReusesPlainShards L config base sources fs) {error : CacheError}
    (h : WritesSourceList L config faults base sources fs (.error error) fs') :
    (error.isInterrupt = true ∨
      error = .invalidInput "pipeline sequence overflowed u64" ∧ wordSize ≤ ListWrite.eventCount sources) ∧
    ∀ (i : ℕ) source name, sources[i]? = some source → extractSourceName source = .ok name →
      Kept L config base fs fs' source name := by
  obtain ⟨s, htracks, hret, rfl⟩ := h.tracks hseg hshards
  obtain ⟨hcause, t, p, prepared, -, hsnap, htarget, -⟩ := htracks.returned_error hret
  refine ⟨?_, fun i source name hsource hname => ?_⟩
  · rcases hcause with hint | hover | ⟨q, hstops⟩
    · exact .inl hint
    · exact .inr hover
    · exact .inl hstops.isInterrupt
  · rw [ListWrite.fs, htarget]
    exact hsnap.kept hkept hseg hshards hsource hname

variable (L config faults base sources fs) in
/-- **Writing a list of sources.**  The call ends; it returns one record per source, each with what its source
did alone, or the interrupt that ended it, and then nothing unfinished is left. -/
theorem source_list_contract (hkept : ∀ i, (faults i).kept = none) (hseg : Segments (segmentOf sources))
    (hshards : ReusesPlainShards L config base sources fs) :
    (ensureUniqueSourcePaths base sources = .ok () ∧
      ∀ as s, Machine.run (ListWrite.step L config faults base sources) (ListWrite.new config sources fs) as =
          some s →
        as.length ≤ ListWrite.weight sources (ListWrite.new config sources fs) ∧
          (s.returned = none → ∃ a, (s.step L config faults base sources a).isSome = true)) ∧
    (∀ records fs', WritesSourceList L config faults base sources fs (.ok records) fs' →
      records.length = sources.length ∧ ∀ i source, sources[i]? = some source →
        ∃ record, records[i]? = some record ∧ Settled L config base fs fs' i source record) ∧
    (∀ error fs', WritesSourceList L config faults base sources fs (.error error) fs' →
      (error.isInterrupt = true ∨
        error = .invalidInput "pipeline sequence overflowed u64" ∧ wordSize ≤ ListWrite.eventCount sources) ∧
      ∀ (i : ℕ) source name, sources[i]? = some source → extractSourceName source = .ok name →
        Kept L config base fs fs' source name) ∧
    ∀ sources', Segments (segmentOf sources') → ReusesPlainShards L config base sources' fs →
      ∀ records fs' records' fs'', WritesSourceList L config faults base sources fs (.ok records) fs' →
        WritesSourceList L config faults base sources' fs (.ok records') fs'' →
        ∀ (i : ℕ) source, sources[i]? = some source → sources'[i]? = some source →
          records[i]? = records'[i]? ∧ ∀ name, extractSourceName source = .ok name →
            fs'.sub (cachePathForSource base name) = fs''.sub (cachePathForSource base name) ∧
              fs'.sub (tempCachePathForSource base name) = fs''.sub (tempCachePathForSource base name) := by
  refine ⟨⟨ensureUniqueSourcePaths_ok hseg, fun as s hrun => ⟨ListWrite.run_length_le hrun, fun hnone => ?_⟩⟩,
    fun _ _ h => h.settled hkept hseg hshards, fun _ _ h => h.interrupted hkept hseg hshards,
    fun sources' hseg' hshards' records fs' records' fs'' h h' => ?_⟩
  · obtain ⟨a, -, hstep⟩ := ListWrite.exists_step (ListWrite.tracks_interrupted hseg hshards hrun) hnone
    exact ⟨a, hstep⟩
  · intro i source hsource hsource'
    obtain ⟨fs₁, record, houtcome, hrecord, hsame⟩ := (h.outcome hseg hshards).2 i source hsource
    obtain ⟨fs₂, record', houtcome', hrecord', hsame'⟩ := (h'.outcome hseg' hshards').2 i source hsource'
    rw [houtcome, Option.some.injEq, Prod.mk.injEq] at houtcome'
    obtain ⟨rfl, rfl⟩ := houtcome'
    refine ⟨hrecord.trans hrecord'.symm, fun name hname => ?_⟩
    exact ⟨(hsame name hname).1.trans (hsame' name hname).1.symm,
      (hsame name hname).2.trans (hsame' name hname).2.symm⟩

end contract

/-! ### A shard in the staging directory of another source -/

namespace SharedShard

def emptySha256 : Bytes :=
  [227, 176, 196, 66, 152, 252, 28, 20, 154, 251, 244, 200, 153, 111, 185, 36, 39, 174, 65, 228, 100, 155, 147,
    76, 164, 149, 153, 27, 120, 82, 184, 85]

def arrowSha256 : Bytes :=
  [135, 115, 222, 93, 80, 53, 112, 72, 236, 206, 66, 125, 108, 116, 145, 108, 22, 16, 62, 46, 193, 175, 157, 245,
    48, 209, 36, 244, 109, 76, 197, 43]

/-- The cache `a` has no samples, and one empty shard of the given name. -/
def manifest (shard : String) : Manifest :=
  .v4 7
    { sourceName := "a"
      sampleCount := 0
      metadataSchema := []
      metadataSha256 := hexEncode arrowSha256
      indexSha256 := hexEncode emptySha256
      shards := [⟨shard, 0, 0, .none, hexEncode emptySha256⟩]
      extra := ∅ }

/-- The first bytes of an Arrow file stand for the whole of it. -/
def arrowBytes : Bytes := [65, 82, 82, 79, 87, 49]

/-- What is not in the table has a longer word, so that no two contents have the same. -/
def sha256 (bytes : Bytes) : Bytes :=
  ([([], emptySha256), (arrowBytes, arrowSha256)].lookup bytes).getD (List.replicate 33 0 ++ bytes)

/-- The manifest is the only text that is parsed, and the metadata the only file that Arrow reads. -/
def lib (shard : String) : StorageLib where
  codec :=
    { lz4FlexCompress := fun _ => .error ""
      lz4CompressBound := fun _ => .error ""
      lz4Compress := fun _ _ => .error ""
      lz4Decompress := fun _ _ => .error ""
      brotliCompress := fun _ _ => .error ""
      brotliDecompress := fun _ _ => ⟨.resultFailure, 0, []⟩ }
  json :=
    { print := fun _ => .error ""
      parse := fun _ => .ok (manifest shard).toJson
      reread := id
      describe := fun _ => "" }
  arrow :=
    { writeFile := fun _ _ => .error ""
      readFile := fun _ => .ok ([], []) }
  encodeObject := fun _ => .error ""
  decodeObject := fun _ => .error ""
  sha256

/-- Caches are reused and validated. -/
def config : WriterConfig := ⟨⟨1, Nat.one_pos⟩, ⟨1, Nat.one_pos⟩, ⟨1, Nat.one_pos⟩, .none, true, true⟩

/-- The base directory holds the cache `a`; there is no float in its manifest. -/
def store (shard : String) : FileTree := fun q =>
  if q = [] ∨ q = ["d"] ∨ q = ["d", "a"] ∨ q = ["d", "a", "shards"] then some .dir
  else if q = ["d", "a", "manifest.json"] then some (.file ((manifest shard).toJson.text fun _ => ""))
  else if q = ["d", "a", "index.bin"] ∨ q = ["d", "a", "shards", "000000.bin"] then some (.file [])
  else if q = ["d", "a", "metadata.arrow"] then some (.file arrowBytes)
  else none

def fs : FileTree := store "000000.bin"

def source (name : CacheResult String) : Source := ⟨name, none, [], none⟩

/-- A source without samples comes before `a`. -/
def withB : List Source := [source (.ok "b"), source (.ok "a")]

/-- That source cannot say its name. -/
def withoutB : List Source := [source (.error (.python "no name")), source (.ok "a")]

theorem segments_pair {sources : List Source} (hlength : sources.length = 2)
    (hfirst : segmentOf sources 0 ≠ some "tmp") (hsecond : segmentOf sources 1 = some "a")
    (hne : segmentOf sources 0 ≠ some "a") : Segments (segmentOf sources) := by
  have hrest : ∀ n, segmentOf sources (n + 2) = none := fun n => by
    rw [segmentOf, List.getElem?_eq_none (by omega)]
    rfl
  refine ⟨fun i c h heq => ?_, fun i j c hi hj => ?_⟩
  · rcases i with _ | _ | n
    · exact hfirst (heq ▸ h)
    · rw [hsecond, heq] at h
      exact absurd h (by decide)
    · simp [hrest] at h
  · rcases i with _ | _ | n <;> rcases j with _ | _ | m <;> simp_all

theorem segments_withB : Segments (segmentOf withB) :=
  segments_pair rfl (by decide +kernel) (by decide +kernel) (by decide +kernel)

theorem segments_withoutB : Segments (segmentOf withoutB) :=
  segments_pair rfl (by decide +kernel) (by decide +kernel) (by decide +kernel)

/-- One job, from the pool to the committer. -/
def job : List ListAct := [.pipeline .start, .pipeline (.complete 0), .pipeline .receive]

/-- The events are sent one after the other; each waits for the one before. -/
def withBActs : List ListAct :=
  [.ingest, .pipeline (.enqueue true), .ingest, .ingest] ++ job ++ [.pipeline (.enqueue true), .ingest] ++ job ++
    [.pipeline (.enqueue true), .ingest] ++ job ++ [.pipeline .settle]

def withoutBActs : List ListAct :=
  [.ingest, .pipeline (.enqueue true), .ingest] ++ job ++ [.pipeline (.enqueue true), .ingest] ++ job ++
    [.pipeline .settle]

theorem writes (shard : String) {sources : List Source} (acts : List ListAct) (records : List CacheWriteRecord)
    (hseg : Segments (segmentOf sources))
    (h : (Machine.run (ListWrite.step (lib shard) config (fun _ => .none) ["d"] sources)
      (ListWrite.new config sources (store shard)) acts).bind ListWrite.returned = some (.ok records)) :
    ∃ fs', WritesSourceList (lib shard) config (fun _ => .none) ["d"] sources (store shard) (.ok records) fs' := by
  obtain ⟨s, hrun, hret⟩ := Option.bind_eq_some_iff.mp h
  refine ⟨s.fs, ?_⟩
  unfold WritesSourceList
  rw [ensureUniqueSourcePaths_ok hseg]
  exact ⟨acts, s, hrun, hret, rfl⟩

theorem reusesPlainShards {sources : List Source}
    (hnames : ∀ source ∈ sources, ∀ name, extractSourceName source = .ok name → name = "a" ∨ name = "b") :
    ReusesPlainShards (lib "000000.bin") config ["d"] sources fs := by
  intro _ _ source hsource name hname m hm shard hshard
  rcases hnames source hsource name hname with rfl | rfl
  · have hread : (readManifest (lib "000000.bin") fs (cachePathForSource ["d"] "a")).map
        (fun m => m.fields.shards.map ShardManifest.name) = .ok ["000000.bin"] := rfl
    rw [hm] at hread
    have hmem := List.mem_map_of_mem (f := ShardManifest.name) hshard
    rw [show m.fields.shards.map ShardManifest.name = _ from Except.ok.inj hread, List.mem_singleton] at hmem
    rw [hmem]
    decide
  · have hread : (readManifest (lib "000000.bin") fs (cachePathForSource ["d"] "b")).isOk = false := rfl
    rw [hm] at hread
    cases hread

end SharedShard

open SharedShard in
/-- With a plain shard name the first source makes no difference. -/
theorem source_list_contract_plain_shard :
    ∃ records fs', WritesSourceList (lib "000000.bin") config (fun _ => .none) ["d"] withB fs (.ok records) fs' ∧
      records.length = 2 ∧ records[1]? = some ⟨.success, "a", "/d/a"⟩ ∧
      ∀ records' fs'',
        WritesSourceList (lib "000000.bin") config (fun _ => .none) ["d"] withoutB fs (.ok records') fs'' →
        records'[1]? = some ⟨.success, "a", "/d/a"⟩ := by
  have hplain : ReusesPlainShards (lib "000000.bin") config ["d"] withB fs := by
    refine reusesPlainShards fun source hsource name hname => ?_
    rcases List.mem_pair.mp hsource with rfl | rfl
    · exact .inr (Except.ok.inj hname).symm
    · exact .inl (Except.ok.inj hname).symm
  have hplain' : ReusesPlainShards (lib "000000.bin") config ["d"] withoutB fs := by
    refine reusesPlainShards fun source hsource name hname => ?_
    rcases List.mem_pair.mp hsource with rfl | rfl
    · cases hname
    · exact .inl (Except.ok.inj hname).symm
  obtain ⟨-, hrecords, -, hindependent⟩ :=
    source_list_contract _ _ (fun _ => .none) _ _ _ (fun _ => rfl) segments_withB hplain
  obtain ⟨fs', hwrites⟩ := writes "000000.bin" withBActs
    [⟨.error, "b", "cache source yielded no samples"⟩, ⟨.success, "a", "/d/a"⟩] segments_withB rfl
  refine ⟨_, fs', hwrites, (hrecords _ _ hwrites).1, rfl, fun records' fs'' h' => ?_⟩
  exact (hindependent withoutB segments_withoutB hplain' _ _ _ _ hwrites h' 1 _ rfl rfl).1.symm

open SharedShard in
/-- The manifest of the cache `a` names a file in the staging directory of `b`: `a` is validated while `b` is
being written, and passes because of it. -/
theorem outcome_depends_on_other_source :
    Segments (segmentOf withB) ∧ Segments (segmentOf withoutB) ∧ withB[1]? = withoutB[1]? ∧
      (∃ first fs', WritesSourceList (lib "/d/tmp/b/shards/000000.bin") config (fun _ => .none) ["d"] withB
        (store "/d/tmp/b/shards/000000.bin") (.ok [first, ⟨.success, "a", "/d/a"⟩]) fs') ∧
      ∃ first fs', WritesSourceList (lib "/d/tmp/b/shards/000000.bin") config (fun _ => .none) ["d"] withoutB
        (store "/d/tmp/b/shards/000000.bin")
        (.ok [first, ⟨.error, "a", "I/O error: cannot open /d/tmp/b/shards/000000.bin"⟩]) fs' :=
  ⟨segments_withB, segments_withoutB, rfl,
    ⟨⟨.error, "b", "cache source yielded no samples"⟩, writes _ withBActs _ segments_withB rfl⟩,
    ⟨⟨.error, "source[0]", "Python error: no name"⟩, writes _ withoutBActs _ segments_withoutB rfl⟩⟩

end DatasetRt
