import DatasetRt.SourceListRuns
import DatasetRt.SourceViews
import DatasetRt.SampleRuns

/-! # Success records and the publication marker

A cache is published once its directory holds a `manifest.json` that the decoder accepts (`Marked`).  A record of
success names a directory that was published or that was found and reused; a reused directory is marked if it was
validated, and else nobody looks.

The staging area is a directory of the base directory like the caches, so that a source of the name `tmp` reads a
cache there, and other sources write below it.  `Stages` is what staging can do to the disk: missing directories
appear, and below its own directory, where no file was, anything can change.  That never unmarks a directory
(`Marked.stages`), and neither does a publication (`Marked.rename`).  `Sealed` says so of the records that the
committer has and of those that are on their way to it, for every list of sources (`ListWrite.sealed_run`).  A source
alone ends with a builder that took all its samples (`WritesWith.ok`). -/

namespace DatasetRt

/-! ### Marked directories -/

/-- A directory with an accepted manifest. -/
def Marked (L : StorageLib) (fs : FileTree) (path : Path) : Prop :=
  fs path ≠ none ∧ (readManifest L fs path).isOk = true

section marker

variable {L : StorageLib} {base path : Path} {c c' : String} {fs fs' : FileTree}

theorem manifest_join (path : Path) : path.join "manifest.json" = path ++ ["manifest.json"] :=
  Path.join_of_plain path (by decide) (by decide) (by decide)

theorem Marked.isFile (h : Marked L fs path) : fs.isFile (path ++ ["manifest.json"]) = true := by
  have hread := h.2
  unfold readManifest at hread
  simp only [manifest_join] at hread
  split_ifs at hread
  · cases hopen : openFile fs (path ++ ["manifest.json"]) with
    | error error =>
        simp only [hopen, bind, Except.bind] at hread
        cases hread
    | ok text =>
        have hfile := okOr_eq_ok.mp hopen
        unfold FileTree.read at hfile
        unfold FileTree.isFile
        cases hnode : fs (path ++ ["manifest.json"]) with
        | none => simp [hnode] at hfile
        | some node =>
            cases node with
            | dir => simp [hnode] at hfile
            | file bytes => rfl
  · cases hread

theorem Marked.of_same (h : Marked L fs path) (hdir : fs' path = fs path)
    (hfile : fs' (path ++ ["manifest.json"]) = fs (path ++ ["manifest.json"])) : Marked L fs' path := by
  refine ⟨by rw [hdir]; exact h.1, ?_⟩
  have hsame : readManifest L fs' path = readManifest L fs path := by
    unfold readManifest
    simp only [manifest_join, pathExists_congr hfile, openFile_congr hfile]
  rw [hsame]
  exact h.2

theorem marked_of_loadCache {validate : Bool} {position : ℕ} {cache : LoadedCache} (hdir : fs path ≠ none)
    (h : loadCache L fs path validate position = .ok cache) : Marked L fs path := by
  refine ⟨hdir, ?_⟩
  rw [(loadedFrom_of_loadCache h).manifest]
  rfl

/-! ### Staging and publishing -/

/-- What staging the source with segment `c` can do. -/
structure Stages (base : Path) (c : String) (fs fs' : FileTree) : Prop where
  outside : ∀ q, ¬ base ++ ["tmp", c] <+: q → fs' q = fs q ∨ fs q = none ∧ fs' q = some .dir
  before : fs.isFile (base ++ ["tmp", c]) = false
  after : fs'.isFile (base ++ ["tmp", c]) = false

/-- Something of that kind, or nothing. -/
def Staging (base : Path) (c : String) (fs fs' : FileTree) : Prop := fs' = fs ∨ Stages base c fs fs'

theorem Stages.keeps (h : Stages base c fs fs') {q : Path} (hq : ¬ base ++ ["tmp", c] <+: q) (hne : fs q ≠ none) :
    fs' q = fs q := by
  rcases h.outside q hq with heq | ⟨hnone, -⟩
  · exact heq
  · exact absurd hnone hne

theorem isFile_ne_none {q : Path} (h : fs.isFile q = true) : fs q ≠ none := by
  intro hnone
  simp [FileTree.isFile, hnone] at h

/-- **Staging unmarks nothing.** -/
theorem Marked.stages (h : Marked L fs (base ++ [c'])) (hstages : Stages base c fs fs') :
    Marked L fs' (base ++ [c']) := by
  have hdir : ¬ base ++ ["tmp", c] <+: base ++ [c'] := by
    intro hpre
    have hlen := hpre.length_le
    simp at hlen
  have hfile : ¬ base ++ ["tmp", c] <+: base ++ [c'] ++ ["manifest.json"] := by
    intro hpre
    have heq : base ++ ["tmp", c] = base ++ [c'] ++ ["manifest.json"] := hpre.eq_of_length (by simp)
    -- the manifest of the cache `tmp` is a file, which no staging directory was
    have hmanifest := h.isFile
    rw [← heq, hstages.before] at hmanifest
    cases hmanifest
  exact h.of_same (hstages.keeps hdir h.1) (hstages.keeps hfile (isFile_ne_none h.isFile))

theorem Staging.marked (h : Staging base c fs fs') (hmarked : Marked L fs (base ++ [c'])) :
    Marked L fs' (base ++ [c']) := by
  rcases h with rfl | h
  · exact hmarked
  · exact hmarked.stages h

/-- Staging keeps the directory of another staging, or makes it. -/
theorem Staging.isFile (h : Staging base c fs fs') (hfile : fs.isFile (base ++ ["tmp", c']) = false) :
    fs'.isFile (base ++ ["tmp", c']) = false := by
  rcases h with rfl | h
  · exact hfile
  · by_cases heq : c' = c
    · rw [heq]
      exact h.after
    · have hnot : ¬ base ++ ["tmp", c] <+: base ++ ["tmp", c'] := by
        intro hpre
        have hsame := hpre.eq_of_length (by simp)
        simp at hsame
        exact heq hsame.symm
      rcases h.outside _ hnot with hsame | ⟨-, hdir⟩
      · rw [FileTree.isFile, hsame]
        exact hfile
      · rw [FileTree.isFile, hdir]

theorem Staging.trans {fs'' : FileTree} (h : Staging base c fs fs') (h' : Staging base c fs' fs'') :
    Staging base c fs fs'' := by
  rcases h with rfl | h
  · exact h'
  · rcases h' with rfl | h'
    · exact .inr h
    · refine .inr ⟨fun q hq => ?_, h.before, h'.after⟩
      rcases h.outside q hq with heq | ⟨hnone, hdir⟩
      · rw [← heq]
        exact h'.outside q hq
      · refine .inr ⟨hnone, ?_⟩
        rw [h'.keeps hq (by rw [hdir]; exact Option.some_ne_none _), hdir]

theorem Staging.exists_tmp (h : Staging base c fs fs') (htmp : fs (base ++ ["tmp"]) ≠ none) :
    fs' (base ++ ["tmp"]) ≠ none := by
  rcases h with rfl | h
  · exact htmp
  · rw [h.keeps (not_below_temp (List.prefix_refl _)) htmp]
    exact htmp

theorem stages_graft (hfile : fs.isFile (base ++ ["tmp", c]) = false) {dir : FileTree} (hroot : dir.isFile [] = false) :
    Stages base c fs (fs.graft (base ++ ["tmp", c]) dir) where
  outside _ hq := .inl (FileTree.graft_of_not_prefix _ hq _)
  before := hfile
  after := by
    rw [FileTree.isFile, graft_self]
    exact hroot

theorem isFile_of_dir {q : Path} (h : fs q = some .dir) : fs.isFile q = false := by
  rw [FileTree.isFile, h]

theorem isFile_of_none {q : Path} (h : fs q = none) : fs.isFile q = false := by
  rw [FileTree.isFile, h]

theorem stages_staged (hfree : fs (base ++ ["tmp", c]) = none) {dir : FileTree} (hroot : dir [] = some .dir) :
    Stages base c fs (staged fs (base ++ ["tmp", c]) dir) where
  outside q hq := by
    rw [staged, FileTree.graft_of_not_prefix _ hq]
    by_cases hparent : q <+: base ++ ["tmp", c] ∧ fs q = none
    · exact .inr ⟨hparent.2, if_pos hparent⟩
    · exact .inl (if_neg hparent)
  before := isFile_of_none hfree
  after := isFile_of_dir ((staged_self _).trans hroot)

theorem staged_tmp (dir : FileTree) : staged fs (base ++ ["tmp", c]) dir (base ++ ["tmp"]) ≠ none := by
  rw [staged, FileTree.graft_of_not_prefix _ (not_below_temp (List.prefix_refl _))]
  have hparent : base ++ ["tmp"] <+: base ++ ["tmp", c] := by simp
  cases hnode : fs (base ++ ["tmp"]) with
  | none =>
      rw [makeParents, if_pos ⟨hparent, hnode⟩]
      exact Option.some_ne_none _
  | some node =>
      rw [makeParents, if_neg (fun h => by rw [hnode] at h; cases h.2), hnode]
      exact Option.some_ne_none _

/-- A publication puts a directory where none was. -/
theorem Marked.rename (h : Marked L fs (base ++ [c'])) (hfree : fs (base ++ [c]) = none)
    (hfile : fs.isFile (base ++ ["tmp", c]) = false) :
    Marked L (fs.rename (base ++ ["tmp", c]) (base ++ [c])) (base ++ [c']) := by
  have hremoved : Marked L (fs.removeDirAll (base ++ ["tmp", c])) (base ++ [c']) := h.stages (stages_graft hfile rfl)
  have hne : c' ≠ c := fun heq => h.1 (heq ▸ hfree)
  have hnot : ∀ q, base ++ [c'] <+: q → ¬ base ++ [c] <+: q := fun q hq => not_prefix_of_ne hne hq
  refine hremoved.of_same ?_ ?_
  · exact FileTree.graft_of_not_prefix _ (hnot _ (List.prefix_refl _)) _
  · exact FileTree.graft_of_not_prefix _ (hnot _ (List.prefix_append _ _)) _

end marker

/-! ### A published directory -/

/-- A builder that took samples, at most `n` of them. -/
def Built (L : StorageLib) (config : WriterConfig) (sourceName : String) (b : CacheBuilder) (n : ℕ) : Prop :=
  ∃ (present parents : Bool) (path : Path) (b₀ : CacheBuilder) (inputs : List WriterInput),
    CacheBuilder.create present parents path sourceName config.maxShardBytes.1 config.shardCompression = .ok b₀ ∧
      b₀.pushAll L inputs = (b, .ok ()) ∧ inputs.length ≤ n

section built

variable {L : StorageLib} {config : WriterConfig} {sourceName : String} {b b' : CacheBuilder} {n : ℕ}

theorem Built.push (h : Built L config sourceName b n) {input : WriterInput}
    (hpush : b.pushSample L input.1 input.2 = (b', .ok ())) : Built L config sourceName b' (n + 1) := by
  obtain ⟨present, parents, path, b₀, inputs, hcreate, hall, hle⟩ := h
  refine ⟨present, parents, path, b₀, inputs ++ [input], hcreate, ?_, ?_⟩
  · rw [CacheBuilder.pushAll_append, hall]
    simp only [CacheBuilder.pushAll, hpush]
  · rw [List.length_append, List.length_singleton]
    omega

theorem Built.mono (h : Built L config sourceName b n) {m : ℕ} (hle : n ≤ m) : Built L config sourceName b m := by
  obtain ⟨present, parents, path, b₀, inputs, hcreate, hall, hlength⟩ := h
  exact ⟨present, parents, path, b₀, inputs, hcreate, hall, hlength.trans hle⟩

theorem Built.root (h : Built L config sourceName b n) : b.dir [] = some .dir := by
  obtain ⟨present, parents, path, b₀, inputs, hcreate, hall, -⟩ := h
  have hroot := CacheBuilder.pushAll_root (L := L) b₀ inputs
  rw [hall, CacheBuilder.create_root hcreate] at hroot
  exact hroot

/-- **A finished directory is marked** wherever it is put. -/
theorem Built.marked (hL : L.Lawful) (hvalid : config.shardCompression.Valid) (h : Built L config sourceName b n)
    (hn : n < wordSize) {dir : FileTree} {manifest : Manifest} (hfinish : b.finish L = (dir, .ok manifest))
    {fs : FileTree} {path : Path} (hfs : fs.sub path = dir) : Marked L fs path := by
  have hdir : fs path ≠ none := by
    have hroot := CacheBuilder.finish_root (L := L) b
    rw [hfinish, h.root] at hroot
    have hpath : fs path = dir [] := by rw [← hfs, FileTree.sub, List.append_nil]
    rw [hpath]
    exact fun hnone => by cases hnone.symm.trans hroot
  obtain ⟨present, parents, builderPath, b₀, inputs, hcreate, hall, hle⟩ := h
  obtain ⟨hinv₀, hcomp₀⟩ := CacheBuilder.inv_create (L := L) hcreate
  obtain ⟨history, hinv, hsamples, hcomp⟩ := hinv₀.pushAll hall
  obtain ⟨metadata, hfin⟩ := hinv.finish hfinish
  have hcount : b.index.length < wordSize := by
    have hlength := congrArg List.length hsamples
    simp only [History.samples, List.length_map, List.length_append, List.length_nil] at hlength
    rw [hinv.index, List.length_map]
    omega
  have hcompression : b.shardCompression.Valid := by
    rw [hcomp, hcomp₀]
    exact hvalid
  refine ⟨hdir, ?_⟩
  rw [hfin.readManifest hL (hfin.wellFormed hinv hcompression hcount) hfs]
  rfl

end built

/-! ### The active source -/

/-- The start of one of the sources. -/
def StartOf (base : Path) (sources : List Source) (start : SourceWriteStart) : Prop :=
  ∃ source ∈ sources, extractSourceName source = .ok start.sourceName ∧
    start.cachePath = cachePathForSource base start.sourceName ∧
    start.tempPath = tempCachePathForSource base start.sourceName

/-- A builder and its staging directory. -/
structure Staged (L : StorageLib) (config : WriterConfig) (base : Path) (fs : FileTree) (start : SourceWriteStart)
    (b : CacheBuilder) (n : ℕ) : Prop where
  built : Built L config start.sourceName b n
  isFile : fs.isFile start.tempPath = false
  tmp : fs (base ++ ["tmp"]) ≠ none

section active

variable {L : StorageLib} {config : WriterConfig} {base : Path} {sources : List Source} {fs fs' : FileTree}
  {start : SourceWriteStart} {a : ActiveSourceWrite} {c : String} {n : ℕ}

theorem StartOf.atSegment (h : StartOf base sources start) : ∃ c, AtSegment base c start := by
  obtain ⟨source, -, hname, hcache, htemp⟩ := h
  obtain ⟨c, -, hjoin⟩ := segment_of_extractSourceName hname
  obtain ⟨htemp', hcache'⟩ := DatasetRt.atSegment base hjoin start.sourceIndex
  exact ⟨c, htemp.trans htemp', hcache.trans hcache'⟩

theorem Staged.mono {b : CacheBuilder} (h : Staged L config base fs start b n) {m : ℕ} (hle : n ≤ m) :
    Staged L config base fs start b m :=
  ⟨h.built.mono hle, h.isFile, h.tmp⟩

/-- Another staging does not disturb a builder. -/
theorem Staged.staging {b : CacheBuilder} (h : Staged L config base fs start b n) (hat : AtSegment base c start)
    {c' : String} (hstaging : Staging base c' fs fs') : Staged L config base fs' start b n := by
  refine ⟨h.built, ?_, hstaging.exists_tmp h.tmp⟩
  rw [hat.1]
  exact hstaging.isFile (hat.1 ▸ h.isFile)

namespace ActiveSourceWrite

theorem staging_cleanup (hat : AtSegment base c a.start) : Staging base c fs (a.cleanupTempCache fs).1 := by
  rw [cleanupTempCache_eq, hat.1]
  cases hnode : fs (base ++ ["tmp", c]) with
  | none => exact .inl rfl
  | some node =>
      cases node with
      | file bytes => exact .inl rfl
      | dir =>
          simp only [cleanupNode, hat.1]
          exact .inr (stages_graft (isFile_of_dir hnode) rfl)

theorem builder_cleanup : (a.cleanupTempCache fs).2.builder = a.builder := by
  unfold cleanupTempCache
  cases DatasetRt.cleanupTempCache fs a.start.tempPath <;> rfl

theorem staging_markFailed (hat : AtSegment base c a.start) (error : CacheError) :
    Staging base c fs (a.markFailed fs error).1 := staging_cleanup hat

theorem builder_markFailed (error : CacheError) : (a.markFailed fs error).2.builder = none := builder_cleanup

theorem staging_failWith (hat : AtSegment base c a.start) (error : CacheError) :
    Staging base c fs (a.failWith fs error).1 ∧ (a.failWith fs error).2.status = .error := by
  refine ⟨(staging_markFailed hat error).trans ?_, rfl⟩
  exact staging_cleanup (by rw [markFailed_start]; exact hat)

theorem staging_new (hat : AtSegment base c start) : Staging base c fs (new config fs start).1 ∧
    ∀ b, (new config fs start).2.builder = some b → Staged L config base (new config fs start).1 start b n := by
  cases hnode : fs start.tempPath with
  | some node =>
      have hcreate : createCache config fs start.tempPath start.sourceName =
          (fs, .error (.invalidInput s!"cache path already exists: {start.tempPath.display}")) := by
        simp only [createCache, FileTree.pathExists, hnode, Option.isSome_some, CacheBuilder.create, if_true]
      unfold new
      rw [hcreate]
      refine ⟨staging_cleanup hat, fun b hb => ?_⟩
      rw [builder_cleanup] at hb
      cases hb
  | none =>
      rw [new_eq hnode]
      cases hbuilder : builderOf config fs start with
      | error error => exact ⟨.inl rfl, fun b hb => by cases hb⟩
      | ok builder =>
          have hroot := CacheBuilder.create_root hbuilder
          have hself : staged fs start.tempPath builder.dir start.tempPath = some .dir := (staged_self _).trans hroot
          refine ⟨?_, fun b hb => ?_⟩
          · simp only [hat.1]
            exact .inr (stages_staged (hat.1 ▸ hnode) hroot)
          · obtain rfl : builder = b := Option.some.inj hb
            refine ⟨⟨_, _, _, _, [], hbuilder, rfl, Nat.zero_le _⟩, isFile_of_dir hself, ?_⟩
            simp only [hat.1]
            exact staged_tmp _

/-- A sample is written, or the source fails. -/
theorem staging_pushSample (hat : AtSegment base c a.start)
    (h : ∀ b, a.builder = some b → Staged L config base fs a.start b n) (faults : WriterFaults)
    (input : WriterInput) :
    Staging base c fs (a.pushSample L faults fs input).1 ∧ ∀ b, (a.pushSample L faults fs input).2.builder = some b →
      Staged L config base (a.pushSample L faults fs input).1 a.start b (n + 1) := by
  unfold pushSample
  split_ifs with hfailure
  · exact ⟨.inl rfl, fun b hb => (h b hb).mono (Nat.le_succ n)⟩
  · cases hbuilder : a.builder with
    | none =>
        refine ⟨staging_markFailed hat _, fun b hb => ?_⟩
        rw [builder_markFailed] at hb
        cases hb
    | some builder =>
        have hstaged := h builder hbuilder
        have hroot := CacheBuilder.pushSampleOn_root (L := L) faults builder input.1 input.2
        rw [hstaged.built.root] at hroot
        simp only
        rcases hpush : builder.pushSampleOn L faults input.1 input.2 with ⟨b', error | u⟩
        · rw [hpush] at hroot
          have hgraft : Stages base c fs (fs.graft a.start.tempPath b'.dir) := by
            rw [hat.1]
            exact stages_graft (hat.1 ▸ hstaged.isFile) (isFile_of_dir hroot)
          refine ⟨.trans (.inr hgraft) (staging_markFailed hat error), fun b hb => ?_⟩
          rw [builder_markFailed] at hb
          cases hb
        · rw [hpush] at hroot
          have hgraft : Stages base c fs (fs.graft a.start.tempPath b'.dir) := by
            rw [hat.1]
            exact stages_graft (hat.1 ▸ hstaged.isFile) (isFile_of_dir hroot)
          refine ⟨.inr hgraft, fun b hb => ?_⟩
          obtain rfl : b' = b := Option.some.inj hb
          have hafter := hgraft.after
          rw [← hat.1] at hafter
          exact ⟨hstaged.built.push (CacheBuilder.pushSampleOn_ok hpush), hafter,
            Staging.exists_tmp (.inr hgraft) hstaged.tmp⟩

theorem marked_finish (hL : L.Lawful) (hvalid : config.shardCompression.Valid) (hn : n < wordSize)
    (hat : AtSegment base c a.start) (h : ∀ b, a.builder = some b → Staged L config base fs a.start b n)
    {faults : WriterFaults} (hkept : faults.kept = none) :
    ((a.finish L faults fs).2.status = .error ∧ Staging base c fs (a.finish L faults fs).1) ∨
      ((a.finish L faults fs).2 = successWriteResult a.start.sourceName a.start.cachePath ∧
        Marked L (a.finish L faults fs).1 a.start.cachePath ∧
        ∀ c', Marked L fs (base ++ [c']) → Marked L (a.finish L faults fs).1 (base ++ [c'])) := by
  unfold finish
  split_ifs with hfailure
  · exact .inl ⟨rfl, staging_cleanup hat⟩
  · cases hbuilder : a.builder with
    | none =>
        obtain ⟨hstaging, hstatus⟩ := staging_failWith hat .workerFailed
        exact .inl ⟨hstatus, hstaging⟩
    | some builder =>
        have hstaged := h builder hbuilder
        have hroot := CacheBuilder.finishOn_root (L := L) faults builder
        rw [hstaged.built.root] at hroot
        rcases hfinish : builder.finishOn L faults with ⟨dir, error | manifest⟩
        all_goals
          rw [hfinish] at hroot
          have hgraft : Stages base c fs (fs.graft a.start.tempPath dir) := by
            rw [hat.1]
            exact stages_graft (hat.1 ▸ hstaged.isFile) (isFile_of_dir hroot)
          simp only [hfinish]
        · obtain ⟨hstaging, hstatus⟩ := staging_failWith (a := { a with builder := none }) hat error
          exact .inl ⟨hstatus, .trans (.inr hgraft) hstaging⟩
        · cases hpublish : publishCache faults.rename (fs.graft a.start.tempPath dir) a.start.tempPath
              a.start.cachePath with
          | error error =>
              obtain ⟨hstaging, hstatus⟩ := staging_failWith (a := { a with builder := none }) hat error
              exact .inl ⟨hstatus, .trans (.inr hgraft) hstaging⟩
          | ok published =>
              obtain ⟨hfree, hrename⟩ := publishCache_ok hpublish
              subst hrename
              refine .inr ⟨rfl, ?_, fun c' hmarked => ?_⟩
              · refine hstaged.built.marked hL hvalid hn (CacheBuilder.finishOn_whole hkept hfinish) ?_
                rw [FileTree.rename, FileTree.sub_graft, FileTree.sub_graft]
              · rw [hat.1, hat.2] at hfree ⊢
                exact (hmarked.stages (hat.1 ▸ hgraft)).rename hfree (hat.1 ▸ hgraft.after)

end ActiveSourceWrite

end active

/-! ### The records of a list -/

section records

variable (L : StorageLib) (config : WriterConfig) (base : Path) (sources : List Source)

/-- A record of success names a marked directory. -/
def RecordMarked (fs : FileTree) (record : CacheWriteRecord) : Prop :=
  record.status = .success → ∃ source ∈ sources, ∃ name, extractSourceName source = .ok name ∧
    record.sourceName = name ∧ record.detail = base.pushText name ∧
    Marked L fs (cachePathForSource base name)

/-- The same for a record on its way to the committer. -/
def EventMarked (fs : FileTree) : PipelineEvent → Prop
  | .sourceResult _ record => RecordMarked L base sources fs record
  | .beginSource start => StartOf base sources start
  | _ => True

def ResultsMarked (t : PipelineCommitter) : Prop :=
  ∀ record, some record ∈ t.results → RecordMarked L base sources t.fs record

def ActiveStaged (t : PipelineCommitter) (n : ℕ) : Prop :=
  ∀ a, t.active = some a → StartOf base sources a.start ∧
    ∀ b, a.builder = some b → Staged L config base t.fs a.start b n

/-- The records that the committer has and those that it will get. -/
structure Sealed (known : List PipelineEvent) (t : PipelineCommitter) (done : List PipelineEvent) : Prop where
  results : ResultsMarked L base sources t
  active : ActiveStaged L config base sources t done.length
  events : ∀ event ∈ known, EventMarked L base sources t.fs event

end records

section commits

variable {L : StorageLib} {config : WriterConfig} {faults : ℕ → WriterFaults} {base : Path}
  {sources : List Source} {fs fs' : FileTree} {t : PipelineCommitter} {known done : List PipelineEvent}

/-- What leaves every cache below the base directory marked leaves the records true. -/
theorem RecordMarked.mono {record : CacheWriteRecord} (h : RecordMarked L base sources fs record)
    (hkeeps : ∀ c, Marked L fs (base ++ [c]) → Marked L fs' (base ++ [c])) : RecordMarked L base sources fs' record := by
  intro hsuccess
  obtain ⟨source, hsource, name, hname, hrecord, hdetail, hmarked⟩ := h hsuccess
  obtain ⟨c, -, hjoin⟩ := segment_of_extractSourceName hname
  refine ⟨source, hsource, name, hname, hrecord, hdetail, ?_⟩
  rw [cachePathForSource, hjoin] at hmarked ⊢
  exact hkeeps c hmarked

theorem EventMarked.mono {event : PipelineEvent} (h : EventMarked L base sources fs event)
    (hkeeps : ∀ c, Marked L fs (base ++ [c]) → Marked L fs' (base ++ [c])) : EventMarked L base sources fs' event := by
  cases event with
  | sourceResult index record => exact RecordMarked.mono h hkeeps
  | beginSource start => exact h
  | sample input => trivial
  | endSource => trivial
  | abortSource message => trivial

theorem RecordMarked.of_error {record : CacheWriteRecord} (h : record.status = .error) :
    RecordMarked L base sources fs record := by
  intro hsuccess
  rw [h] at hsuccess
  cases hsuccess

theorem Sealed.move (h : Sealed L config base sources known t done)
    (hkeeps : ∀ c, Marked L t.fs (base ++ [c]) → Marked L fs' (base ++ [c])) {active : Option ActiveSourceWrite}
    {done' : List PipelineEvent}
    (hactive : ActiveStaged L config base sources { t with fs := fs', active } done'.length) :
    Sealed L config base sources known { t with fs := fs', active } done' where
  results record hmem := (h.results record hmem).mono hkeeps
  active := hactive
  events event hmem := (h.events event hmem).mono hkeeps

theorem Sealed.snoc (h : Sealed L config base sources known t done) (event : PipelineEvent) :
    Sealed L config base sources known t (done ++ [event]) where
  results := h.results
  active a ha := by
    refine ⟨(h.active a ha).1, fun b hb => ((h.active a ha).2 b hb).mono ?_⟩
    simp
  events := h.events

theorem Sealed.recordResult (h : Sealed L config base sources known t done) {record : CacheWriteRecord}
    (hrecord : RecordMarked L base sources t.fs record) (i : ℕ) :
    Sealed L config base sources known (t.recordResult i record).1 done := by
  unfold PipelineCommitter.recordResult
  split
  · refine ⟨fun r hr => ?_, h.active, h.events⟩
    rcases List.mem_or_eq_of_mem_set hr with hmem | heq
    · exact h.results r hmem
    · rw [Option.some.inj heq]
      exact hrecord
  · exact h

theorem Sealed.ended (h : Sealed L config base sources known t done) {record : CacheWriteRecord}
    (hkeeps : ∀ c, Marked L t.fs (base ++ [c]) → Marked L fs' (base ++ [c]))
    (hrecord : RecordMarked L base sources fs' record) (i : ℕ) :
    Sealed L config base sources known (({ t with fs := fs', active := none } : PipelineCommitter).recordResult i record).1
      done := by
  refine (h.move hkeeps ?_).recordResult hrecord i
  intro a ha
  cases ha

/-- **One commit.** -/
theorem sealed_commitEvent (hL : L.Lawful) (hvalid : config.shardCompression.Valid)
    (hkept : ∀ i, (faults i).kept = none) (h : Sealed L config base sources known t done) {event : PipelineEvent}
    (hknown : event ∈ known) (hn : done.length < wordSize) :
    Sealed L config base sources known (t.commitEvent L config faults event).1 (done ++ [event]) := by
  have hevent := h.events event hknown
  have hsame := h.snoc event
  cases event with
  | sourceResult index record => exact hsame.recordResult hevent index
  | beginSource start =>
      simp only [PipelineCommitter.commitEvent, PipelineCommitter.beginSource]
      cases hactive : t.active with
      | some a => exact hsame
      | none =>
          obtain ⟨c, hat⟩ := StartOf.atSegment hevent
          have hnew : Staging base c t.fs (ActiveSourceWrite.new config t.fs start).1 ∧
              ∀ b, (ActiveSourceWrite.new config t.fs start).2.builder = some b →
                Staged L config base (ActiveSourceWrite.new config t.fs start).1 start b
                  (done ++ [PipelineEvent.beginSource start]).length := ActiveSourceWrite.staging_new hat
          obtain ⟨hstaging, hstaged⟩ := hnew
          refine hsame.move (fun c' => hstaging.marked) fun a ha => ?_
          obtain rfl := Option.some.inj ha
          rw [ActiveSourceWrite.new_start]
          exact ⟨hevent, hstaged⟩
  | sample input =>
      simp only [PipelineCommitter.commitEvent, PipelineCommitter.pushSample]
      cases hactive : t.active with
      | none => exact hsame
      | some active =>
          obtain ⟨hstart, hbuilder⟩ := h.active active hactive
          obtain ⟨c, hat⟩ := hstart.atSegment
          obtain ⟨hstaging, hstaged⟩ := ActiveSourceWrite.staging_pushSample hat hbuilder
            (faults active.start.sourceIndex) input
          refine hsame.move (fun c' => hstaging.marked) fun a ha => ?_
          obtain rfl := Option.some.inj ha
          rw [ActiveSourceWrite.pushSample_start]
          refine ⟨hstart, fun b hb => ?_⟩
          rw [List.length_append, List.length_singleton]
          exact hstaged b hb
  | endSource =>
      simp only [PipelineCommitter.commitEvent, PipelineCommitter.endSource]
      cases hactive : t.active with
      | none => exact hsame
      | some active =>
          obtain ⟨hstart, hbuilder⟩ := h.active active hactive
          obtain ⟨c, hat⟩ := hstart.atSegment
          rcases ActiveSourceWrite.marked_finish hL hvalid hn hat hbuilder
            (hkept active.start.sourceIndex) with ⟨hstatus, hstaging⟩ | ⟨hrecord, hmarked, hkeeps⟩
          · exact hsame.ended (fun c' => hstaging.marked) (.of_error hstatus) _
          · refine hsame.ended hkeeps (fun _ => ?_) _
            obtain ⟨source, hsource, hname, hcache, -⟩ := hstart
            rw [hcache] at hmarked
            rw [hrecord, hcache, successWriteResult_eq hname]
            exact ⟨source, hsource, _, hname, rfl, rfl, hmarked⟩
  | abortSource message =>
      simp only [PipelineCommitter.commitEvent, PipelineCommitter.abortSource]
      cases hactive : t.active with
      | none => exact hsame
      | some active =>
          obtain ⟨c, hat⟩ := (h.active active hactive).1.atSegment
          have hfail : Staging base c t.fs (active.failWith t.fs (.invalidInput message)).1 ∧
              (active.failWith t.fs (.invalidInput message)).2.status = .error :=
            ActiveSourceWrite.staging_failWith hat (.invalidInput message)
          exact hsame.ended (fun c' => hfail.1.marked) (.of_error hfail.2) _

theorem Sealed.cleanup (h : Sealed L config base sources known t done) :
    ResultsMarked L base sources t.cleanupUnfinishedSource := by
  unfold PipelineCommitter.cleanupUnfinishedSource
  cases hactive : t.active with
  | none => exact h.results
  | some active =>
      obtain ⟨c, hat⟩ := (h.active active hactive).1.atSegment
      have hstaging : Staging base c t.fs (active.markFailed t.fs .workerFailed).1 :=
        ActiveSourceWrite.staging_markFailed hat .workerFailed
      intro record hmem
      exact (h.results record hmem).mono fun c' => hstaging.marked

end commits

/-! ### Runs of a list -/

namespace ListWrite

section runs

variable (L : StorageLib) (config : WriterConfig) (faults : ℕ → WriterFaults) (base : Path)
  (sources : List Source)

/-- A directory that is reused and not validated has an accepted manifest. -/
def ReusesMarked (fs : FileTree) (source : Source) : Prop :=
  config.reuseExisting = true → config.validateCache = false → ∀ name, extractSourceName source = .ok name →
    fs.pathExists (cachePathForSource base name) = true → (readManifest L fs (cachePathForSource base name)).isOk = true

/-- The same for the source that the calling thread gets to. -/
def LooksAtMarked (s : ListWrite) : ListAct → Prop
  | .ingest => ∀ i source, s.stage = .source i → sources[i]? = some source → ReusesMarked L config base s.fs source
  | _ => True

structure SealedRun (s : ListWrite) : Prop where
  counted : WritePipeline.Counted (committer L config faults) s.pipeline
  upheld : s.pipeline.Upheld (Sealed L config base sources s.pipeline.known)
    (Sealed L config base sources s.pipeline.known) fun t _ => ResultsMarked L base sources t

end runs

section steps

variable {L : StorageLib} {config : WriterConfig} {faults : ℕ → WriterFaults} {base : Path}
  {sources : List Source} {s s' : ListWrite}

theorem upholds_sealed (hL : L.Lawful) (hvalid : config.shardCompression.Valid)
    (hkept : ∀ i, (faults i).kept = none) {known submitted : List PipelineEvent}
    (hknown : submitted <+: known) (hlength : submitted.length ≤ (committer L config faults).numbers) :
    WritePipeline.Upholds (committer L config faults) (Sealed L config base sources known)
      (Sealed L config base sources known) (fun t _ => ResultsMarked L base sources t) submitted where
  commit t done item hnext h := by
    have hle := hnext.length_le
    have hlt := numbers_lt L config faults
    rw [List.length_append, List.length_singleton] at hle
    exact sealed_commitEvent hL hvalid hkept h ((hnext.trans hknown).subset (by simp)) (by omega)
  finish _ _ h := h
  finishError _ _ herror _ := nomatch herror
  abandon _ _ h := h.cleanup

theorem upheld_mono {known known' : List PipelineEvent} {pipeline : WritePipeline PipelineEvent PipelineCommitter}
    (h : pipeline.Upheld (Sealed L config base sources known) (Sealed L config base sources known)
      fun t _ => ResultsMarked L base sources t)
    (hevents : ∀ event ∈ known', event ∈ known ∨ EventMarked L base sources pipeline.target.fs event) :
    pipeline.Upheld (Sealed L config base sources known') (Sealed L config base sources known')
      fun t _ => ResultsMarked L base sources t := by
  have hsealed : ∀ done, Sealed L config base sources known pipeline.target done →
      Sealed L config base sources known' pipeline.target done := fun done h =>
    ⟨h.results, h.active, fun event hmem => (hevents event hmem).elim (h.events event) id⟩
  unfold WritePipeline.Upheld at h ⊢
  split at h
  · exact hsealed _ h
  · exact h
  · exact h
  · exact hsealed _ h

/-- A step of the pipeline, with the event that it sends. -/
theorem sealed_pipeline (hL : L.Lawful) (hvalid : config.shardCompression.Valid)
    (hkept : ∀ i, (faults i).kept = none) (h : SealedRun L config faults base sources s) {act : WriteAct PipelineEvent}
    {pipeline : WritePipeline PipelineEvent PipelineCommitter}
    (hstep : s.pipeline.step (committer L config faults) act = some pipeline)
    (hsent : ∀ event, act = .submit event → EventMarked L base sources pipeline.target.fs event) (stage : Stage) :
    SealedRun L config faults base sources { pipeline, stage } := by
  refine ⟨WritePipeline.counted_step h.counted hstep, ?_⟩
  have hupheld := WritePipeline.upheld_step h.counted.inv
    (upholds_sealed hL hvalid hkept s.pipeline.submitted_prefix_known h.counted.submitted_le) h.upheld hstep
  refine upheld_mono hupheld fun event hmem => ?_
  rcases WritePipeline.known_step hstep with ⟨-, hpre⟩ | ⟨-, ⟨item, rfl, -, heq⟩ | ⟨-, heq⟩⟩
  · exact .inl (hpre.subset hmem)
  · rw [heq, List.mem_append, List.mem_singleton] at hmem
    rcases hmem with hmem | rfl
    · exact .inl hmem
    · exact .inr (hsent event rfl)
  · rw [heq] at hmem
    exact .inl hmem

theorem sealed_fail (hL : L.Lawful) (hvalid : config.shardCompression.Valid)
    (hkept : ∀ i, (faults i).kept = none) (h : SealedRun L config faults base sources s) {error : CacheError}
    (hs : s.fail L config faults error = some s') : SealedRun L config faults base sources s' := by
  obtain ⟨pipeline, hstep, rfl⟩ := Option.map_eq_some_iff.mp hs
  exact sealed_pipeline hL hvalid hkept h hstep (fun event hevent => nomatch hevent) _

/-- Sending leaves the disk alone. -/
theorem target_submit {event : PipelineEvent} {pipeline pipeline' : WritePipeline PipelineEvent PipelineCommitter}
    (hstep : pipeline.step (committer L config faults) (.submit event) = some pipeline') :
    pipeline'.target = pipeline.target := by
  cases WritePipeline.moves_of_step hstep with
  | send item hphase =>
      unfold WritePipeline.send
      split_ifs
      · simp [WritePipeline.raise, hphase]
      · rfl
      · rfl

theorem sealed_sendEvent (hL : L.Lawful) (hvalid : config.shardCompression.Valid)
    (hkept : ∀ i, (faults i).kept = none) (h : SealedRun L config faults base sources s) {event : PipelineEvent}
    {stage : Stage} (hs : s.sendEvent L config faults event stage = some s')
    (hevent : EventMarked L base sources s.fs event) : SealedRun L config faults base sources s' := by
  obtain ⟨pipeline, hstep, rfl⟩ := Option.map_eq_some_iff.mp hs
  refine sealed_pipeline hL hvalid hkept h hstep (fun event' heq => ?_) _
  obtain rfl : event = event' := by simpa using heq
  rw [target_submit hstep]
  exact hevent

/-- The calling thread removes an old staging directory. -/
theorem sealed_withFs (h : SealedRun L config faults base sources s) (hready : s.pipeline.phase = .ready)
    {c : String} {fs' : FileTree} (hstaging : Staging base c s.fs fs') :
    SealedRun L config faults base sources (s.withFs fs') := by
  refine ⟨h.counted.withTarget _, ?_⟩
  have hupheld := h.upheld
  simp only [WritePipeline.Upheld, hready] at hupheld
  have hknown : (s.withFs fs').pipeline.known = s.pipeline.known := rfl
  rw [hknown]
  simp only [withFs, WritePipeline.Upheld, hready]
  refine hupheld.move (fun c' => hstaging.marked) fun a ha => ?_
  obtain ⟨hstart, hbuilder⟩ := hupheld.active a ha
  obtain ⟨c', hat⟩ := hstart.atSegment
  exact ⟨hstart, fun b hb => (hbuilder b hb).staging hat hstaging⟩

/-- The record of a source that is not written. -/
theorem recordMarked_of_planSource {fs : FileTree} {i : ℕ} {source : Source} {record : CacheWriteRecord}
    (hsource : source ∈ sources) (hreuses : ReusesMarked L config base fs source)
    (hplan : planSource L config base fs i source = .result record) : RecordMarked L base sources fs record := by
  unfold planSource at hplan
  cases hname : extractSourceName source with
  | error error =>
      simp only [hname] at hplan
      split_ifs at hplan
      cases hplan
      exact .of_error rfl
  | ok name =>
      simp only [hname] at hplan
      split_ifs at hplan with hreuse
      · rw [Bool.and_eq_true] at hreuse
        have hdir : fs (cachePathForSource base name) ≠ none := by
          intro hnone
          simp [FileTree.pathExists, hnone] at hreuse
        cases hplan
        unfold existingCacheResult
        split_ifs with hvalidate
        · cases hload : loadCache L fs (cachePathForSource base name) true 0 with
          | error error => exact .of_error rfl
          | ok cache =>
              have hmarked := marked_of_loadCache hdir hload
              simp only [successWriteResult_eq hname]
              exact fun _ => ⟨source, hsource, name, hname, rfl, rfl, hmarked⟩
        · rw [Bool.not_eq_true] at hvalidate
          rw [successWriteResult_eq hname]
          exact fun _ => ⟨source, hsource, name, hname, rfl, rfl, hdir, hreuses hreuse.1 hvalidate name hname hreuse.2⟩
      · cases hprepare : prepareCachePaths fs (cachePathForSource base name) (tempCachePathForSource base name) with
        | error error =>
            simp only [hprepare] at hplan
            cases hplan
            exact .of_error rfl
        | ok prepared => simp [hprepare] at hplan

theorem staging_prepareCachePaths {fs fs' : FileTree} {c : String} {start : SourceWriteStart}
    (hat : AtSegment base c start) (h : prepareCachePaths fs start.cachePath start.tempPath = .ok fs') :
    Staging base c fs fs' := by
  unfold prepareCachePaths at h
  split_ifs at h with hcache htemp
  · unfold removeDirectory at h
    cases hnode : fs start.tempPath with
    | none => simp [hnode] at h
    | some node =>
        cases node with
        | file bytes => simp [hnode] at h
        | dir =>
            simp only [hnode, Except.ok.injEq] at h
            rw [← h, hat.1]
            exact .inr (stages_graft (isFile_of_dir (hat.1 ▸ hnode)) rfl)
  · exact .inl (Except.ok.inj h).symm

theorem sealed_iterationError (hL : L.Lawful) (hvalid : config.shardCompression.Valid)
    (hkept : ∀ i, (faults i).kept = none) (h : SealedRun L config faults base sources s) {i : ℕ} {error : CacheError}
    (hs : s.iterationError L config faults i error = some s') :
    SealedRun L config faults base sources s' := by
  unfold iterationError at hs
  split_ifs at hs
  · exact sealed_fail hL hvalid hkept h hs
  · exact sealed_sendEvent hL hvalid hkept h hs trivial

theorem sealed_ingest (hL : L.Lawful) (hvalid : config.shardCompression.Valid)
    (hkept : ∀ i, (faults i).kept = none) (h : SealedRun L config faults base sources s)
    (hready : s.pipeline.phase = .ready)
    (hguard : LooksAtMarked L config base sources s .ingest)
    (hs : s.ingest L config faults base sources = some s') :
    SealedRun L config faults base sources s' := by
  unfold ingest at hs
  cases hst : s.stage with
  | source i =>
      simp only [hst] at hs
      cases hsource : sources[i]? with
      | none =>
          simp only [hsource] at hs
          obtain ⟨pipeline, hstep, rfl⟩ := Option.map_eq_some_iff.mp hs
          exact sealed_pipeline hL hvalid hkept h hstep (fun event hevent => nomatch hevent) _
      | some source =>
          have hmem := List.mem_of_getElem? hsource
          simp only [hsource] at hs
          rw [ingestOneSource_eq] at hs
          cases hplan : planSource L config base s.fs i source with
          | interrupt error =>
              simp only [hplan] at hs
              exact sealed_fail hL hvalid hkept h hs
          | result record =>
              simp only [hplan] at hs
              exact sealed_sendEvent hL hvalid hkept h hs
                (recordMarked_of_planSource hmem (hguard i source hst hsource) hplan)
          | write start fs =>
              simp only [hplan] at hs
              obtain ⟨name, hname, rfl, -, hprepare⟩ := planSource_write L config base hplan
              have hstart :
                  StartOf base sources ⟨i, name, cachePathForSource base name, tempCachePathForSource base name⟩ :=
                ⟨source, hmem, hname, rfl, rfl⟩
              obtain ⟨c, hat⟩ := hstart.atSegment
              have hprepared := sealed_withFs h hready (staging_prepareCachePaths hat hprepare)
              exact sealed_sendEvent hL hvalid hkept hprepared hs hstart
  | begun i =>
      simp only [hst] at hs
      cases hsource : sources[i]? with
      | none => simp [hsource] at hs
      | some source =>
          simp only [hsource] at hs
          cases hiter : source.iter with
          | some error =>
              simp only [hiter] at hs
              exact sealed_iterationError hL hvalid hkept h hs
          | none =>
              simp only [hiter] at hs
              split at hs
              · obtain rfl := Option.some.inj hs
                exact ⟨h.counted, h.upheld⟩
              · cases hs
  | sampling i k =>
      simp only [hst] at hs
      cases hsource : sources[i]? with
      | none => simp [hsource] at hs
      | some source =>
          simp only [hsource] at hs
          cases hinput : source.inputs[k]? with
          | some input =>
              simp only [hinput] at hs
              exact sealed_sendEvent hL hvalid hkept h hs trivial
          | none =>
              simp only [hinput] at hs
              cases hending : source.ending with
              | some error =>
                  simp only [hending] at hs
                  exact sealed_iterationError hL hvalid hkept h hs
              | none =>
                  simp only [hending] at hs
                  exact sealed_sendEvent hL hvalid hkept h hs trivial
  | ended => simp [hst] at hs
  | failed error => simp [hst] at hs

/-- **One step of a list.** -/
theorem sealed_step (hL : L.Lawful) (hvalid : config.shardCompression.Valid)
    (hkept : ∀ i, (faults i).kept = none) (h : SealedRun L config faults base sources s) {a : ListAct}
    (hguard : LooksAtMarked L config base sources s a)
    (hs : s.step L config faults base sources a = some s') : SealedRun L config faults base sources s' := by
  rcases step_cases hs with ⟨rfl, hready, hs⟩ | ⟨error, rfl, -, hready, hs⟩ | ⟨error, rfl, hfailed, hmem, hs⟩ |
    ⟨act, pipeline, rfl, hinner, hstep, rfl⟩
  · exact sealed_ingest hL hvalid hkept h hready hguard hs
  · exact sealed_fail hL hvalid hkept h hs
  · exact sealed_fail hL hvalid hkept h hs
  · refine sealed_pipeline hL hvalid hkept h hstep (fun event heq => ?_) _
    subst heq
    cases hinner

/-- **A whole call.** -/
theorem sealed_run (hL : L.Lawful) (hvalid : config.shardCompression.Valid)
    (hkept : ∀ i, (faults i).kept = none) {fs : FileTree} {as : List ListAct}
    (hguard : Machine.Guarded (step L config faults base sources) (LooksAtMarked L config base sources)
      (new config sources fs) as)
    (hrun : Machine.run (step L config faults base sources) (new config sources fs) as = some s) :
    SealedRun L config faults base sources s := by
  refine Machine.run_invariant_of_guarded _ (I := SealedRun L config faults base sources)
    (fun s a s' h hguard hs => sealed_step hL hvalid hkept h hguard hs) ?_ hguard hrun
  refine ⟨WritePipeline.counted_new _ _ _, fun record hmem => ?_, fun a ha => ?_, fun event hmem => ?_⟩
  · exact nomatch (List.mem_replicate.mp hmem).2
  · cases ha
  · cases hmem

theorem SealedRun.resultsMarked (h : SealedRun L config faults base sources s) :
    ResultsMarked L base sources s.pipeline.target := by
  have hupheld := h.upheld
  unfold WritePipeline.Upheld at hupheld
  split at hupheld
  · exact hupheld.results
  · exact hupheld
  · exact hupheld
  · exact hupheld.results

end steps

end ListWrite

/-! ### One source -/

section single

variable {L : StorageLib} {config : WriterConfig} {faults : WriterFaults} {base : Path} {fs fs' : FileTree}
  {source : Source} {name : String}

theorem create_of_createCache {created : FileTree} {path : Path} {builder : CacheBuilder}
    (h : createCache config fs path name = (created, .ok builder)) :
    CacheBuilder.create (fs.pathExists path) (parentsOk fs path) path name config.maxShardBytes.1
      config.shardCompression = .ok builder := by
  unfold createCache at h
  cases hcreate : CacheBuilder.create (fs.pathExists path) (parentsOk fs path) path name config.maxShardBytes.1
    config.shardCompression with
  | error error => simp [hcreate] at h
  | ok b =>
      simp only [hcreate, Prod.mk.injEq, Except.ok.injEq] at h
      rw [h.2]

/-- **The path that a source is written to is marked.** -/
theorem marked_writeNamedSource (hL : L.Lawful) (hvalid : config.shardCompression.Valid)
    (hkept : faults.kept = none) (hname : extractSourceName source = .ok name)
    (hreuses : ListWrite.ReusesMarked L config base fs source)
    {written : CacheBuilder → CacheResult Unit × FileTree}
    (hwritten : ∀ prepared created builder,
      prepareCachePaths fs (cachePathForSource base name) (tempCachePathForSource base name) = .ok prepared →
      createCache config prepared (tempCachePathForSource base name) name = (created, .ok builder) →
      WritesWith L config faults source builder (written builder).1 (written builder).2) {path : Path}
    (h : writeNamedSource L config faults written base fs source name = (fs', .ok path)) :
    path = cachePathForSource base name ∧ Marked L fs' path := by
  unfold writeNamedSource at h
  simp only at h
  split_ifs at h with hreuse hvalidate
  · rw [Bool.and_eq_true] at hreuse
    cases hload : loadCache L fs (cachePathForSource base name) true 0 with
    | error error => simp [hload, Except.map] at h
    | ok cache =>
        simp only [hload, Except.map, Prod.mk.injEq, Except.ok.injEq] at h
        obtain ⟨rfl, rfl⟩ := h
        exact ⟨rfl, marked_of_loadCache (Option.isSome_iff_ne_none.mp hreuse.2) hload⟩
  · rw [Bool.and_eq_true] at hreuse
    rw [Bool.not_eq_true] at hvalidate
    simp only [Prod.mk.injEq, Except.ok.injEq] at h
    obtain ⟨rfl, rfl⟩ := h
    exact ⟨rfl, Option.isSome_iff_ne_none.mp hreuse.2, hreuses hreuse.1 hvalidate name hname hreuse.2⟩
  · cases hprepare : prepareCachePaths fs (cachePathForSource base name) (tempCachePathForSource base name) with
    | error error => simp [hprepare] at h
    | ok prepared =>
        simp only [hprepare] at h
        rcases hcreated : createCache config prepared (tempCachePathForSource base name) name with
          ⟨created, error | builder⟩
        · simp only [hcreated] at h
          split at h <;> simp at h
        · simp only [hcreated] at h
          cases hiter : source.iter with
          | some error => simp [hiter] at h
          | none =>
              simp only [hiter] at h
              have hwrites := hwritten prepared created builder hprepare hcreated
              have hcreate := create_of_createCache hcreated
              have hroot := CacheBuilder.create_root hcreate
              cases hresult : (written builder).1 with
              | error error =>
                  simp only [hresult] at h
                  split at h <;> simp at h
              | ok u =>
                  rw [hresult] at hwrites
                  simp only [hresult] at h
                  obtain ⟨⟨b, manifest, hpush, hfinish⟩, -, hlt⟩ := hwrites.ok hroot
                  cases hpublish : publishCache faults.rename
                      (created.graft (tempCachePathForSource base name) (written builder).2)
                      (tempCachePathForSource base name) (cachePathForSource base name) with
                  | error error =>
                      simp only [hpublish] at h
                      split at h <;> simp at h
                  | ok published =>
                      simp only [hpublish, Prod.mk.injEq, Except.ok.injEq] at h
                      obtain ⟨rfl, rfl⟩ := h
                      obtain ⟨-, rfl⟩ := publishCache_ok hpublish
                      have hbuilt : Built L config name b source.inputs.length :=
                        ⟨_, _, _, _, _, hcreate, CacheBuilder.pushAllOn_ok hpush, le_rfl⟩
                      refine ⟨rfl, hbuilt.marked hL hvalid hlt (CacheBuilder.finishOn_whole hkept hfinish) ?_⟩
                      rw [FileTree.rename, FileTree.sub_graft, FileTree.sub_graft]

theorem recordMarked_of_writesSource (hL : L.Lawful) (hvalid : config.shardCompression.Valid)
    (hkept : faults.kept = none) (hreuses : ListWrite.ReusesMarked L config base fs source) {i : ℕ}
    {record : CacheWriteRecord}
    (h : WritesSource L config faults base i fs source (.ok record) fs') :
    RecordMarked L base [source] fs' record := by
  obtain ⟨written, hwritten, h⟩ := h
  unfold writeOneSourceResult at h
  cases hname : extractSourceName source with
  | error error =>
      simp only [hname] at h
      split_ifs at h
      · simp at h
      · simp only [Prod.mk.injEq, Except.ok.injEq] at h
        exact .of_error (by rw [← h.2]; rfl)
  | ok name =>
      simp only [hname] at h
      rcases hwrite : writeNamedSource L config faults written base fs source name with ⟨fs₁, error | path⟩
      · simp only [hwrite] at h
        split_ifs at h
        · simp at h
        · simp only [Prod.mk.injEq, Except.ok.injEq] at h
          exact .of_error (by rw [← h.2]; rfl)
      · simp only [hwrite, Prod.mk.injEq, Except.ok.injEq] at h
        obtain ⟨rfl, rfl⟩ := h
        obtain ⟨rfl, hmarked⟩ := marked_writeNamedSource hL hvalid hkept hname hreuses
          (fun prepared created builder => hwritten name prepared created builder hname) hwrite
        rw [successWriteResult_eq hname]
        exact fun _ => ⟨source, List.mem_singleton_self _, name, hname, rfl, rfl, hmarked⟩

end single

/-! ### Every record of success -/

/-- **A record of success names a published cache**, in every state of a call whose reused directories are marked or
validated, if no part of a manifest is lost when its file is closed. -/
theorem success_names_published_cache {L : StorageLib} (hL : L.Lawful) {config : WriterConfig}
    (hvalid : config.shardCompression.Valid) (base : Path) :
    (∀ faults sources fs as s, (∀ i, (faults i).kept = none) →
      Machine.Guarded (ListWrite.step L config faults base sources)
          (ListWrite.LooksAtMarked L config base sources) (ListWrite.new config sources fs) as →
        Machine.run (ListWrite.step L config faults base sources) (ListWrite.new config sources fs) as = some s →
        (∀ record, some record ∈ s.pipeline.target.results → RecordMarked L base sources s.fs record) ∧
          ∀ records, s.returned = some (.ok records) → ∀ record ∈ records, RecordMarked L base sources s.fs record) ∧
    ∀ faults source fs i record fs', faults.kept = none → ListWrite.ReusesMarked L config base fs source →
      WritesSource L config faults base i fs source (.ok record) fs' →
      RecordMarked L base [source] fs' record := by
  refine ⟨fun faults sources fs as s hkept hguard hrun => ?_,
    fun faults source fs i record fs' hkept hreuses h => recordMarked_of_writesSource hL hvalid hkept hreuses h⟩
  have hmarked := (ListWrite.sealed_run hL hvalid hkept hguard hrun).resultsMarked
  refine ⟨hmarked, fun records hret record hrecord => hmarked record ?_⟩
  unfold ListWrite.returned at hret
  split at hret
  · rw [ListWrite.mapM_okOr (Option.some.inj hret)]
    exact List.mem_map_of_mem hrecord
  · cases hret
  · split at hret <;> cases hret
  · cases hret

namespace Unvalidated

/-- Caches are reused, and nobody looks into them. -/
def config : WriterConfig := ⟨⟨1, Nat.one_pos⟩, ⟨1, Nat.one_pos⟩, ⟨1, Nat.one_pos⟩, .none, false, true⟩

def source : Source := ⟨.ok "c", none, [], none⟩

/-- There is an empty directory. -/
def emptyFs : FileTree := fun q => if q = [] ∨ q = ["c"] then some .dir else none

def acts : List ListAct :=
  [.ingest, .pipeline (.enqueue true), .ingest, .pipeline .start, .pipeline (.complete 0), .pipeline .receive,
    .pipeline .settle]

theorem writesSource {fs : FileTree} (hexists : fs.pathExists ["c"] = true) :
    WritesSource TwoShards.lib config .none [] 0 fs source (.ok ⟨.success, "c", "/c"⟩) fs := by
  have hname : extractSourceName source = .ok "c" := rfl
  have hpath : cachePathForSource [] "c" = ["c"] := rfl
  refine ⟨fun _ => (.ok (), .empty), fun name prepared created builder h hprepare _ => ?_, ?_⟩
  · rw [hname, Except.ok.injEq] at h
    subst h
    rw [hpath, prepareCachePaths, if_pos hexists] at hprepare
    cases hprepare
  · simp only [writeOneSourceResult, hname, writeNamedSource, hpath, hexists]
    rfl

theorem runs_empty : ∃ s, Machine.run (ListWrite.step TwoShards.lib config (fun _ => .none) [] [source])
      (ListWrite.new config [source] emptyFs) acts = some s ∧
    s.returned = some (.ok [⟨.success, "c", "/c"⟩]) ∧ s.fs = emptyFs := ⟨_, rfl, rfl, rfl⟩

theorem runs_published : ∃ s, Machine.run (ListWrite.step TwoShards.lib config (fun _ => .none) [] [source])
      (ListWrite.new config [source] TwoShards.fs) acts = some s ∧
    s.returned = some (.ok [⟨.success, "c", "/c"⟩]) ∧ s.fs = TwoShards.fs := ⟨_, rfl, rfl, rfl⟩

theorem reusesMarked {src : Source} (hsrc : src = source) :
    ListWrite.ReusesMarked TwoShards.lib config [] TwoShards.fs src := by
  intro _ _ name hname _
  subst hsrc
  obtain rfl : "c" = name := Except.ok.inj hname
  have hcreate : CacheBuilder.create false true ["c"] "s" 1 .none = .ok _ := rfl
  have hbuilt : Built TwoShards.lib config "s" TwoShards.builder 2 :=
    ⟨_, _, _, _, _, hcreate, TwoShards.pushAll_eq hcreate, le_rfl⟩
  have hvalid : config.shardCompression.Valid := trivial
  exact (hbuilt.marked TwoShards.lawful_lib hvalid (by decide) TwoShards.finish_eq (FileTree.sub_graft _ ["c"] _)).2

theorem guarded_published : Machine.Guarded (ListWrite.step TwoShards.lib config (fun _ => .none) [] [source])
    (ListWrite.LooksAtMarked TwoShards.lib config [] [source]) (ListWrite.new config [source] TwoShards.fs) acts := by
  refine ⟨fun i src hst hsrc => reusesMarked ?_, fun s₁ h₁ => ⟨trivial, fun s₂ h₂ => ⟨fun i src hst hsrc => ?_,
    fun s₃ h₃ => ⟨trivial, fun s₄ h₄ => ⟨trivial, fun s₅ h₅ => ⟨trivial, fun s₆ h₆ => ⟨trivial, fun _ _ => trivial⟩⟩⟩⟩⟩⟩⟩
  · exact List.mem_singleton.mp (List.mem_of_getElem? hsrc)
  · obtain rfl := Option.some.inj h₁
    obtain rfl := Option.some.inj h₂
    obtain rfl : 1 = i := Stage.source.inj hst
    cases hsrc

end Unvalidated

open Unvalidated in
/-- A cache that was published is reused. -/
theorem success_names_published_cache_reused :
    Marked TwoShards.lib TwoShards.fs ["c"] ∧ ∃ s,
      Machine.run (ListWrite.step TwoShards.lib config (fun _ => .none) [] [source])
        (ListWrite.new config [source] TwoShards.fs) acts = some s ∧
      s.returned = some (.ok [⟨.success, "c", "/c"⟩]) ∧
      RecordMarked TwoShards.lib [] [source] s.fs ⟨.success, "c", "/c"⟩ := by
  obtain ⟨hlist, hsingle⟩ := success_names_published_cache TwoShards.lawful_lib
    (show config.shardCompression.Valid from trivial) []
  obtain ⟨s, hrun, hret, -⟩ := runs_published
  refine ⟨?_, s, hrun, hret,
    (hlist _ _ _ _ _ (fun _ => rfl) guarded_published hrun).2 _ hret _ (List.mem_singleton_self _)⟩
  obtain ⟨src, hsrc, name, hname, -, -, hmarked⟩ :=
    hsingle .none source TwoShards.fs 0 _ _ rfl (reusesMarked rfl) (writesSource rfl) rfl
  rw [List.mem_singleton.mp hsrc] at hname
  obtain rfl : "c" = name := Except.ok.inj hname
  exact hmarked

open Unvalidated in
/-- An empty directory is reported as a cache. -/
theorem empty_directory_reported :
    WritesSource TwoShards.lib config .none [] 0 emptyFs source (.ok ⟨.success, "c", "/c"⟩) emptyFs ∧
      (∃ s, Machine.run (ListWrite.step TwoShards.lib config (fun _ => .none) [] [source])
          (ListWrite.new config [source] emptyFs) acts = some s ∧
        s.returned = some (.ok [⟨.success, "c", "/c"⟩]) ∧ s.fs = emptyFs) ∧
      loadCache TwoShards.lib emptyFs ["c"] false 0 = .error (.invalidCache "missing manifest: /c/manifest.json") ∧
      ¬ RecordMarked TwoShards.lib [] [source] emptyFs ⟨.success, "c", "/c"⟩ := by
  refine ⟨writesSource rfl, runs_empty, rfl, fun h => ?_⟩
  obtain ⟨src, hsrc, name, hname, -, -, -, hread⟩ := h rfl
  rw [List.mem_singleton.mp hsrc] at hname
  obtain rfl : "c" = name := Except.ok.inj hname
  cases hread

end DatasetRt
