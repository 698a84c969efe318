import DatasetRt.SourceReplay
import DatasetRt.CacheRoundTrip

/-! # The staging directory of a source

What a source leaves in its staging directory, in closed form: `staged fs path dir` is the disk with the
directories above `path` made and `dir` at `path`.  A source that has not failed holds the directory of its
builder there, a source that has failed nothing (`opened_eq`), and the end of a source publishes the directory
or removes it (`closed_cases`). -/

namespace DatasetRt

/-! ### The root of a cache directory -/

namespace CacheBuilder

variable {L : StorageLib}

theorem rotateShardIfNeeded_root (b : CacheBuilder) (n : ℕ) : (b.rotateShardIfNeeded L n).1.dir [] = b.dir [] := by
  unfold rotateShardIfNeeded
  split_ifs
  · rfl
  · rfl
  · cases checkedAdd b.currentShard.id 1 with
    | none => rfl
    | some nextId => simp [FileTree.write, shardFile]

theorem pushSample_root (b : CacheBuilder) (data : Bytes) (metadata : MetadataMap) :
    (b.pushSample L data metadata).1.dir [] = b.dir [] := by
  unfold pushSample
  simp only
  split
  · rfl
  · split
    · rfl
    · unfold pushRecord
      split
      · rename_i b' error hrotate
        have hroot := rotateShardIfNeeded_root (L := L) { b with schema := (validateMetadata b.schema metadata).1 }
        simp only at hroot
        exact (congrArg (fun r => r.1.dir []) hrotate).symm.trans (hroot _)
      · rename_i b' hrotate
        have hroot := rotateShardIfNeeded_root (L := L) { b with schema := (validateMetadata b.schema metadata).1 }
        simp only at hroot
        have hb : b'.dir [] = b.dir [] := (congrArg (fun r => r.1.dir []) hrotate).symm.trans (hroot _)
        split
        · exact hb
        · exact hb

theorem finish_root (b : CacheBuilder) : (b.finish L).1 [] = b.dir [] := by
  unfold finish
  split_ifs
  · rfl
  · simp only
    split
    · simp [FileTree.write, shardFile]
    · split <;> simp [FileTree.write, shardFile]

section faults

variable (faults : WriterFaults)

theorem pushAllOn_append (b : CacheBuilder) (first rest : List (Bytes × MetadataMap)) :
    b.pushAllOn L faults (first ++ rest) =
      match b.pushAllOn L faults first with
      | (b, .ok ()) => b.pushAllOn L faults rest
      | (b, .error error) => (b, .error error) := by
  induction first generalizing b with
  | nil => rfl
  | cons sample first ih =>
      obtain ⟨data, metadata⟩ := sample
      rw [List.cons_append, pushAllOn, pushAllOn]
      rcases b.pushSampleOn L faults data metadata with ⟨b', error | u⟩
      · rfl
      · exact ih b'

theorem pushSampleOn_root (b : CacheBuilder) (data : Bytes) (metadata : MetadataMap) :
    (b.pushSampleOn L faults data metadata).1.dir [] = b.dir [] := by
  rw [pushSampleOn_fst, pushSample_root]

theorem pushAllOn_root (b : CacheBuilder) (samples : List (Bytes × MetadataMap)) :
    (b.pushAllOn L faults samples).1.dir [] = b.dir [] := by
  induction samples generalizing b with
  | nil => rfl
  | cons sample rest ih =>
      obtain ⟨data, metadata⟩ := sample
      have hroot := pushSampleOn_root (L := L) faults b data metadata
      rw [pushAllOn]
      rcases hpush : b.pushSampleOn L faults data metadata with ⟨b', error | u⟩
      · rw [hpush] at hroot
        exact hroot
      · rw [hpush] at hroot
        exact (ih b').trans hroot

theorem keepManifest_root (kept : Option ℕ) (dir : FileTree) : keepManifest kept dir [] = dir [] := by
  cases kept with
  | none => rfl
  | some n => simp [keepManifest, FileTree.write]

theorem finishOn_root (b : CacheBuilder) : (b.finishOn L faults).1 [] = b.dir [] := by
  have hroot := finish_root (L := L) b
  unfold finishOn
  cases faults.finish with
  | some message =>
      simp only
      split_ifs
      · exact hroot
      · rfl
  | none =>
      simp only
      rcases hfinish : b.finish L with ⟨dir, error | manifest⟩
      · rwa [hfinish] at hroot
      · rw [hfinish] at hroot
        exact (keepManifest_root _ _).trans hroot

end faults

theorem pushAll_append (b : CacheBuilder) (first rest : List (Bytes × MetadataMap)) :
    b.pushAll L (first ++ rest) =
      match b.pushAll L first with
      | (b, .ok ()) => b.pushAll L rest
      | (b, .error error) => (b, .error error) := by
  simpa only [pushAllOn_none] using pushAllOn_append .none b first rest

theorem pushAll_root (b : CacheBuilder) (samples : List (Bytes × MetadataMap)) :
    (b.pushAll L samples).1.dir [] = b.dir [] := by
  simpa only [pushAllOn_none] using pushAllOn_root .none b samples

theorem create_root {present parents : Bool} {path : Path} {sourceName : String} {maxShardBytes : ℕ}
    {compression : ShardCompression} {b : CacheBuilder}
    (h : create present parents path sourceName maxShardBytes compression = .ok b) : b.dir [] = some .dir := by
  unfold create at h
  split_ifs at h
  cases h
  rfl

end CacheBuilder

/-! ### The staging directory -/

/-- The directory `dir` in place of what was at `path`. -/
def staged (fs : FileTree) (path : Path) (dir : FileTree) : FileTree := (makeParents fs path).graft path dir

section staging

variable {fs : FileTree} {path : Path}

@[simp] theorem graft_graft (t : FileTree) (p : Path) (dir dir' : FileTree) :
    (t.graft p dir).graft p dir' = t.graft p dir' := by
  funext q
  unfold FileTree.graft
  split_ifs <;> rfl

theorem graft_self (t : FileTree) (p : Path) (dir : FileTree) : t.graft p dir p = dir [] := by
  simp [FileTree.graft]

@[simp] theorem staged_graft (dir dir' : FileTree) : (staged fs path dir).graft path dir' = staged fs path dir' :=
  graft_graft _ _ _ _

@[simp] theorem staged_self (dir : FileTree) : staged fs path dir path = dir [] := graft_self _ _ _

theorem cleanupTempCache_staged {dir : FileTree} (hroot : dir [] = some .dir) :
    cleanupTempCache (staged fs path dir) path = .ok (staged fs path .empty) := by
  simp [cleanupTempCache, removeDirectory, FileTree.pathExists, hroot, FileTree.removeDirAll]

theorem cleanupTempCache_none (h : fs path = none) : cleanupTempCache fs path = .ok fs := by
  simp [cleanupTempCache, FileTree.pathExists, h]

theorem prepareCachePaths_ok {fs' : FileTree} {cachePath tempPath : Path}
    (h : prepareCachePaths fs cachePath tempPath = .ok fs') :
    fs cachePath = none ∧ fs' tempPath = none ∧ (fs' = fs ∨ fs' = fs.graft tempPath .empty) := by
  unfold prepareCachePaths removeDirectory at h
  split_ifs at h with hcache htemp
  · have hnone : fs cachePath = none := by simpa [FileTree.pathExists] using hcache
    cases hnode : fs tempPath with
    | none => simp [FileTree.pathExists, hnode] at htemp
    | some node =>
        cases node with
        | file bytes => simp [hnode] at h
        | dir =>
            simp only [hnode, Except.ok.injEq] at h
            subst h
            exact ⟨hnone, graft_self _ _ _, .inr rfl⟩
  · have hnone : fs cachePath = none := by simpa [FileTree.pathExists] using hcache
    simp only [Except.ok.injEq] at h
    subst h
    exact ⟨hnone, by simpa [FileTree.pathExists] using htemp, .inl rfl⟩

theorem publishCache_ok {fs' : FileTree} {failure : Option String} {tempPath cachePath : Path}
    (h : publishCache failure fs tempPath cachePath = .ok fs') :
    fs cachePath = none ∧ fs' = fs.rename tempPath cachePath := by
  unfold publishCache at h
  cases failure with
  | some message => cases h
  | none =>
      simp only at h
      split_ifs at h with hexists
      cases h
      exact ⟨by simpa [FileTree.pathExists] using hexists, rfl⟩

end staging

/-- The builder of a source. -/
def builderOf (config : WriterConfig) (fs : FileTree) (start : SourceWriteStart) : CacheResult CacheBuilder :=
  CacheBuilder.create false (parentsOk fs start.tempPath) start.tempPath start.sourceName config.maxShardBytes.1
    config.shardCompression

namespace ActiveSourceWrite

variable {L : StorageLib} {config : WriterConfig} {faults : ℕ → WriterFaults} {fs : FileTree}
  {start : SourceWriteStart}

theorem createCache_eq (hfree : fs start.tempPath = none) :
    createCache config fs start.tempPath start.sourceName =
      match builderOf config fs start with
      | .ok builder => (staged fs start.tempPath builder.dir, .ok builder)
      | .error error => (fs, .error error) := by
  cases hcreate : CacheBuilder.create false (parentsOk fs start.tempPath) start.tempPath start.sourceName
      config.maxShardBytes.1 config.shardCompression <;>
    simp only [createCache, FileTree.pathExists, hfree, Option.isSome_none, builderOf, staged, hcreate]

theorem new_eq (hfree : fs start.tempPath = none) :
    new config fs start =
      match builderOf config fs start with
      | .ok builder => (staged fs start.tempPath builder.dir, ⟨start, some builder, none⟩)
      | .error error => (fs, ⟨start, none, some error.toString⟩) := by
  unfold new
  rw [createCache_eq hfree]
  cases builderOf config fs start with
  | ok builder => rfl
  | error error => simp [cleanupTempCache, cleanupTempCache_none hfree]

theorem markFailed_free {a : ActiveSourceWrite} (hfree : fs a.start.tempPath = none) (error : CacheError) :
    a.markFailed fs error = (fs, ⟨a.start, none, some (a.failure.getD error.toString)⟩) := by
  simp [markFailed, cleanupTempCache, cleanupTempCache_none hfree]

theorem markFailed_staged {a : ActiveSourceWrite} {dir : FileTree} (hroot : dir [] = some .dir) (error : CacheError) :
    a.markFailed (staged fs a.start.tempPath dir) error =
      (staged fs a.start.tempPath .empty, ⟨a.start, none, some (a.failure.getD error.toString)⟩) := by
  simp [markFailed, cleanupTempCache, cleanupTempCache_staged hroot]

/-- **A source with some of its samples written.** -/
theorem opened_eq (hfree : fs start.tempPath = none) (inputs : List WriterInput) :
    opened L config faults fs start inputs =
      match builderOf config fs start with
      | .error error => (fs, ⟨start, none, some error.toString⟩)
      | .ok builder =>
          match builder.pushAllOn L (faults start.sourceIndex) inputs with
          | (builder, .ok ()) => (staged fs start.tempPath builder.dir, ⟨start, some builder, none⟩)
          | (_, .error error) => (staged fs start.tempPath .empty, ⟨start, none, some error.toString⟩) := by
  induction inputs using List.reverseRecOn with
  | nil =>
      rw [opened, pushAll, List.foldl_nil, new_eq hfree]
      cases builderOf config fs start <;> rfl
  | append_singleton inputs input ih =>
      rw [opened_snoc, ih]
      cases hbuilder : builderOf config fs start with
      | error error => simp [pushSample]
      | ok builder =>
          simp only
          rw [CacheBuilder.pushAllOn_append]
          have hroot := CacheBuilder.pushAllOn_root (L := L) (faults start.sourceIndex) builder inputs
          rcases hpush : builder.pushAllOn L (faults start.sourceIndex) inputs with ⟨b, error | u⟩
          · simp [pushSample]
          · rw [hpush, CacheBuilder.create_root hbuilder] at hroot
            have hroot' := CacheBuilder.pushSampleOn_root (L := L) (faults start.sourceIndex) b input.1
              input.2
            simp only [pushSample, Option.isSome_none, Bool.false_eq_true, if_false, CacheBuilder.pushAllOn]
            rcases hone : b.pushSampleOn L (faults start.sourceIndex) input.1 input.2 with ⟨b', error | u'⟩
            · rw [hone, hroot] at hroot'
              simp only [staged_graft]
              rw [markFailed_staged (a := ⟨start, some b, none⟩) hroot']
              rfl
            · simp

variable (L config faults) in
/-- A builder that is there holds its directory in the staging area. -/
theorem opened_cases (hfree : fs start.tempPath = none) (inputs : List WriterInput) :
    (∃ failure, opened L config faults fs start inputs = (fs, ⟨start, none, some failure⟩) ∧
        ∃ error, builderOf config fs start = .error error) ∨
      ∃ builder, builderOf config fs start = .ok builder ∧
        ((∃ failure error b, opened L config faults fs start inputs =
            (staged fs start.tempPath .empty, ⟨start, none, some failure⟩) ∧
            builder.pushAllOn L (faults start.sourceIndex) inputs = (b, .error error)) ∨
          ∃ b, opened L config faults fs start inputs =
              (staged fs start.tempPath b.dir, ⟨start, some b, none⟩) ∧
            builder.pushAllOn L (faults start.sourceIndex) inputs = (b, .ok ()) ∧ b.dir [] = some .dir) := by
  rw [opened_eq hfree]
  cases hbuilder : builderOf config fs start with
  | error error => exact .inl ⟨_, rfl, error, rfl⟩
  | ok builder =>
      refine .inr ⟨builder, rfl, ?_⟩
      have hroot := CacheBuilder.pushAllOn_root (L := L) (faults start.sourceIndex) builder inputs
      rcases hpush : builder.pushAllOn L (faults start.sourceIndex) inputs with ⟨b, error | u⟩
      · exact .inl ⟨error.toString, error, b, by simp only [hpush], rfl⟩
      · rw [hpush, CacheBuilder.create_root hbuilder] at hroot
        exact .inr ⟨b, by simp only [hpush], rfl, hroot⟩

variable (L config faults) in
/-- **An unfinished source is cleaned up.** -/
theorem markFailed_opened (hfree : fs start.tempPath = none) (inputs : List WriterInput) (error : CacheError) :
    ((opened L config faults fs start inputs).2.markFailed (opened L config faults fs start inputs).1 error).1 =
      match builderOf config fs start with
      | .ok _ => staged fs start.tempPath .empty
      | .error _ => fs := by
  have hempty : staged fs start.tempPath .empty start.tempPath = none := staged_self _
  rcases opened_cases L config faults hfree inputs with
    ⟨failure, heq, e, he⟩ | ⟨builder, hb, ⟨failure, e, b, heq, -⟩ | ⟨b, heq, -, hroot⟩⟩
  · rw [heq, he, markFailed_free hfree]
  · rw [heq, hb, markFailed_free hempty]
  · rw [heq, hb, markFailed_staged (a := ⟨start, some b, none⟩) hroot]

theorem errorResult_free {a : ActiveSourceWrite} (hfree : fs a.start.tempPath = none) :
    a.errorResult fs = (fs, errorWriteMessage a.start.sourceName (a.failure.getD CacheError.workerFailed.toString)) := by
  simp [errorResult, cleanupTempCache, cleanupTempCache_none hfree]

theorem failWith_free {a : ActiveSourceWrite} (hfree : fs a.start.tempPath = none) (error : CacheError) :
    ∃ message, a.failWith fs error = (fs, errorWriteMessage a.start.sourceName message) := by
  unfold failWith
  rw [markFailed_free hfree]
  exact ⟨_, errorResult_free hfree⟩

variable (fs) in
theorem failWith_staged {a : ActiveSourceWrite} {dir : FileTree} (hroot : dir [] = some .dir) (error : CacheError) :
    ∃ message, a.failWith (staged fs a.start.tempPath dir) error =
      (staged fs a.start.tempPath .empty, errorWriteMessage a.start.sourceName message) := by
  unfold failWith
  rw [markFailed_staged hroot]
  exact ⟨_, errorResult_free (staged_self _)⟩

/-- The samples were all accepted, the files were written, and the directory was moved. -/
def Publishes (L : StorageLib) (faults : WriterFaults) (stop : Option CacheError) (fs : FileTree)
    (start : SourceWriteStart) (builder : CacheBuilder) (inputs : List WriterInput) (fs' : FileTree) : Prop :=
  ∃ b dir manifest, builder.pushAllOn L faults inputs = (b, .ok ()) ∧ stop = none ∧
    b.finishOn L faults = (dir, .ok manifest) ∧
    publishCache faults.rename (staged fs start.tempPath dir) start.tempPath start.cachePath = .ok fs'

variable (L config faults) in
/-- **The end of a source.**  It is published, or nothing is left of it. -/
theorem closed_cases (hfree : fs start.tempPath = none) (stop : Option CacheError) (inputs : List WriterInput) :
    (∃ fs' builder, builderOf config fs start = .ok builder ∧
        Publishes L (faults start.sourceIndex) stop fs start builder inputs fs' ∧
        closed L faults stop (opened L config faults fs start inputs).2 (opened L config faults fs start inputs).1 =
          (fs', successWriteResult start.sourceName start.cachePath)) ∨
      (∃ message, (∀ builder fs', builderOf config fs start = .ok builder →
          ¬ Publishes L (faults start.sourceIndex) stop fs start builder inputs fs') ∧
        closed L faults stop (opened L config faults fs start inputs).2 (opened L config faults fs start inputs).1 =
          (match builderOf config fs start with
            | .ok _ => staged fs start.tempPath .empty
            | .error _ => fs,
          errorWriteMessage start.sourceName message)) := by
  have hempty : staged fs start.tempPath .empty start.tempPath = none := staged_self _
  rcases opened_cases L config faults hfree inputs with
    ⟨failure, heq, e, he⟩ | ⟨builder, hb, ⟨failure, e, b, heq, hpush⟩ | ⟨b, heq, hpush, hroot⟩⟩
  · right
    rw [heq, he]
    cases stop with
    | none => exact ⟨failure, nofun, errorResult_free (a := ⟨start, none, some failure⟩) hfree⟩
    | some error =>
        obtain ⟨message, hm⟩ := failWith_free (a := ⟨start, none, some failure⟩) hfree (.invalidInput error.toString)
        exact ⟨message, nofun, hm⟩
  · right
    rw [heq, hb]
    have hnot : ∀ builder' fs', Except.ok builder = (.ok builder' : CacheResult CacheBuilder) →
        ¬ Publishes L (faults start.sourceIndex) stop fs start builder' inputs fs' := by
      rintro builder' fs' hsame ⟨b', dir, manifest, hpush', -⟩
      rw [← Except.ok.inj hsame, hpush] at hpush'
      cases hpush'
    cases stop with
    | none => exact ⟨failure, hnot, errorResult_free (a := ⟨start, none, some failure⟩) hempty⟩
    | some error =>
        obtain ⟨message, hm⟩ := failWith_free (a := ⟨start, none, some failure⟩) hempty (.invalidInput error.toString)
        exact ⟨message, hnot, hm⟩
  · rw [heq, hb]
    cases stop with
    | some error =>
        right
        obtain ⟨message, hm⟩ := failWith_staged fs (a := ⟨start, some b, none⟩) hroot
          (.invalidInput error.toString)
        refine ⟨message, ?_, hm⟩
        rintro builder' fs' - ⟨b', dir, manifest, -, hstop, -⟩
        cases hstop
    | none =>
        have hroot' := CacheBuilder.finishOn_root (L := L) (faults start.sourceIndex) b
        rw [hroot] at hroot'
        simp only [closed, finish, Option.isSome_none, Bool.false_eq_true, if_false, staged_graft]
        rcases hfinish : b.finishOn L (faults start.sourceIndex) with ⟨dir, error | manifest⟩
        · right
          rw [hfinish] at hroot'
          obtain ⟨message, hm⟩ := failWith_staged fs (a := ⟨start, none, none⟩) hroot' error
          refine ⟨message, ?_, hm⟩
          rintro builder' fs' hsame ⟨b', dir', manifest', hpush', -, hfinish', -⟩
          rw [← Except.ok.inj hsame, hpush, Prod.mk.injEq] at hpush'
          rw [← hpush'.1, hfinish] at hfinish'
          cases hfinish'
        · rw [hfinish] at hroot'
          cases hpublish : publishCache (faults start.sourceIndex).rename (staged fs start.tempPath dir)
            start.tempPath start.cachePath with
          | ok fs' =>
              left
              exact ⟨fs', builder, rfl, ⟨b, dir, manifest, hpush, rfl, hfinish, hpublish⟩, by simp⟩
          | error error =>
              right
              obtain ⟨message, hm⟩ := failWith_staged fs (a := ⟨start, none, none⟩) hroot' error
              refine ⟨message, ?_, hm⟩
              rintro builder' fs' hsame ⟨b', dir', manifest', hpush', -, hfinish', hpublish'⟩
              rw [← Except.ok.inj hsame, hpush, Prod.mk.injEq] at hpush'
              rw [← hpush'.1, hfinish, Prod.mk.injEq] at hfinish'
              rw [← hfinish'.1, hpublish] at hpublish'
              cases hpublish'

end ActiveSourceWrite

end DatasetRt
