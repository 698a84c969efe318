import DatasetRt.SourceReplay

/-! # What a source sees of the disk

A source with the segment `c` works below `base/c` and `base/tmp/c`, and needs to know of the directories above
whether one of them is a file.  `View base c` relates disks that look the same to it.

* `Touch`: what the operations of another source can do to the disk; a source with a different segment does not
  see it, as long as neither is called `tmp`.
* The operations on the staging directory and on the cache directory are local, and so are `prepare_cache_paths`
  and everything that `ActiveSourceWrite` does (`sourceOps`).
* `footprints`: a list of sources with distinct segments other than `tmp`.  The caches that are there and are
  validated must name their shards by plain names: any other name is looked up outside of the cache. -/

namespace DatasetRt

/-! ### Names -/

theorem components_of_validateSourceName {name : String} (h : validateSourceName name = .ok ()) :
    ∃ c, c ≠ ".." ∧ Path.components name = [c] ∧ name.toList.head? ≠ some '/' ∧
      ((name.toList.splitOn '/').map String.ofList).head? ≠ some "." := by
  unfold validateSourceName at h
  split_ifs at h with hne
  split at h
  · rename_i last hc
    unfold pathComponents at hc
    simp only at hc
    split_ifs at hc with hslash hdot
    · simp at hc
    · simp at hc
    · rw [List.nil_append] at hc
      obtain ⟨c, hd, hlast⟩ := List.map_eq_singleton_iff.mp hc
      refine ⟨c, ?_, hd, hslash, hdot⟩
      rintro rfl
      rw [if_pos rfl] at hlast
      cases hlast
  · cases h

theorem segment_of_extractSourceName {source : Source} {name : String} (h : extractSourceName source = .ok name) :
    ∃ c, Path.components name = [c] ∧ ∀ path : Path, path.join name = path ++ [c] := by
  unfold extractSourceName at h
  obtain ⟨n, -, h⟩ := bind_eq_ok h
  obtain ⟨⟨⟩, hvalid, h⟩ := bind_eq_ok h
  cases h
  obtain ⟨c, -, hcomponents, hslash, -⟩ := components_of_validateSourceName hvalid
  exact ⟨c, hcomponents, fun path => by rw [Path.join, if_neg hslash, hcomponents]⟩

/-- The path of a success is the one that the caller sees. -/
theorem successWriteResult_eq {source : Source} {name : String} (h : extractSourceName source = .ok name)
    (base : Path) : successWriteResult name (cachePathForSource base name) = ⟨.success, name, base.pushText name⟩ := by
  obtain ⟨c, -, hjoin⟩ := segment_of_extractSourceName h
  rw [successWriteResult, cachePathForSource, hjoin, List.dropLast_concat]

theorem join_tmp (path : Path) : path.join "tmp" = path ++ ["tmp"] :=
  Path.join_of_plain path (by decide) (by decide) (by decide)

/-! ### Views -/

def FileTree.isFile (t : FileTree) (p : Path) : Bool :=
  match t p with
  | some (.file _) => true
  | _ => false

/-- Two disks look the same to the source with segment `c`. -/
structure View (base : Path) (c : String) (fs fs' : FileTree) : Prop where
  cache : ∀ q, base ++ [c] <+: q → fs q = fs' q
  temp : ∀ q, base ++ ["tmp", c] <+: q → fs q = fs' q
  above : ∀ q, q <+: base ++ ["tmp"] → fs.isFile q = fs'.isFile q

/-- What the source with segment `c` can do to a disk: below its own paths anything, above them missing
directories appear. -/
def Touch (base : Path) (c : String) (fs fs' : FileTree) : Prop :=
  ∀ q, ¬ base ++ [c] <+: q → ¬ base ++ ["tmp", c] <+: q →
    fs' q = fs q ∨ q <+: base ++ ["tmp"] ∧ fs q = none ∧ fs' q = some .dir

section view

variable {base : Path} {c c' : String} {fs fs' fs'' : FileTree}

theorem View.refl (base : Path) (c : String) (fs : FileTree) : View base c fs fs :=
  ⟨fun _ _ => rfl, fun _ _ => rfl, fun _ _ => rfl⟩

theorem View.trans (h : View base c fs fs') (h' : View base c fs' fs'') : View base c fs fs'' :=
  ⟨fun q hq => (h.cache q hq).trans (h'.cache q hq), fun q hq => (h.temp q hq).trans (h'.temp q hq),
    fun q hq => (h.above q hq).trans (h'.above q hq)⟩

theorem not_prefix_of_ne {q rest rest' : Path} (hne : c ≠ c') (h : base ++ c :: rest <+: q) :
    ¬ base ++ c' :: rest' <+: q := by
  intro h'
  rcases List.prefix_or_prefix_of_prefix h h' with hle | hle
  · rw [List.prefix_append_right_inj, List.cons_prefix_cons] at hle
    exact hne hle.1
  · rw [List.prefix_append_right_inj, List.cons_prefix_cons] at hle
    exact hne hle.1.symm

theorem not_prefix_tmp {q : Path} (hc : c ≠ "tmp") (hq : q <+: base ++ ["tmp"]) (rest : Path) :
    ¬ base ++ c :: rest <+: q := by
  intro h
  have hle := h.trans hq
  rw [List.prefix_append_right_inj, List.cons_prefix_cons] at hle
  exact hc hle.1

theorem not_below_temp {q : Path} (hq : q <+: base ++ ["tmp"]) : ¬ base ++ ["tmp", c] <+: q := by
  intro h
  have hlen := (h.trans hq).length_le
  simp at hlen

/-- **Other sources do not see it.** -/
theorem Touch.view (h : Touch base c fs fs') (hc : c ≠ "tmp") (hc' : c' ≠ "tmp") (hne : c ≠ c') :
    View base c' fs' fs where
  cache q hq := by
    rcases h q (not_prefix_of_ne hne.symm hq) (not_prefix_of_ne hc' hq) with heq | ⟨hpre, -⟩
    · exact heq
    · exact absurd hq (not_prefix_tmp hc' hpre [])
  temp q hq := by
    have htemp : ¬ base ++ ["tmp", c] <+: q := by
      intro hq'
      have h₁ : (base ++ ["tmp"]) ++ c' :: [] <+: q := by simpa using hq
      have h₂ : (base ++ ["tmp"]) ++ c :: [] <+: q := by simpa using hq'
      exact not_prefix_of_ne hne.symm h₁ h₂
    rcases h q (not_prefix_of_ne hc.symm hq) htemp with heq | ⟨hpre, -⟩
    · exact heq
    · exact absurd hq (not_below_temp hpre)
  above q hq := by
    rcases h q (not_prefix_tmp hc hq []) (not_below_temp hq) with heq | ⟨-, hnone, hdir⟩
    · rw [FileTree.isFile, heq]
      rfl
    · rw [FileTree.isFile, FileTree.isFile, hnone, hdir]

/-! ### The operations on the paths of a source -/

theorem view_graft (hc : c ≠ "tmp") (h : View base c fs fs') (dir : FileTree) :
    View base c (fs.graft (base ++ ["tmp", c]) dir) (fs'.graft (base ++ ["tmp", c]) dir) where
  cache q hq := by
    rw [FileTree.graft_of_not_prefix _ (not_prefix_of_ne hc hq), FileTree.graft_of_not_prefix _ (not_prefix_of_ne hc hq)]
    exact h.cache q hq
  temp q hq := by simp only [FileTree.graft, if_pos hq]
  above q hq := by
    simp only [FileTree.isFile, FileTree.graft_of_not_prefix _ (not_below_temp hq)]
    exact h.above q hq

theorem touch_graft (dir : FileTree) : Touch base c fs (fs.graft (base ++ ["tmp", c]) dir) :=
  fun _ _ hq => .inl (FileTree.graft_of_not_prefix _ hq _)

theorem isFile_makeParents (fs : FileTree) (path q : Path) : (makeParents fs path).isFile q = fs.isFile q := by
  unfold FileTree.isFile makeParents
  split_ifs with h
  · rw [h.2]
  · rfl

theorem view_makeParents (hc : c ≠ "tmp") (h : View base c fs fs') :
    View base c (makeParents fs (base ++ ["tmp", c])) (makeParents fs' (base ++ ["tmp", c])) where
  cache q hq := by
    have hnot : ¬ q <+: base ++ ["tmp", c] := by
      intro hpre
      have hle := hq.trans hpre
      rw [List.prefix_append_right_inj, List.cons_prefix_cons] at hle
      exact hc hle.1
    simp only [makeParents, hnot, false_and, if_false]
    exact h.cache q hq
  temp q hq := by
    simp only [makeParents, h.temp q hq]
  above q hq := by
    rw [isFile_makeParents, isFile_makeParents]
    exact h.above q hq

theorem prefix_temp {q : Path} (hpre : q <+: base ++ ["tmp", c]) (hne : q ≠ base ++ ["tmp", c]) :
    q <+: base ++ ["tmp"] := by
  have hsplit : base ++ ["tmp", c] = (base ++ ["tmp"]) ++ [c] := by simp
  rw [hsplit] at hpre hne
  exact (List.prefix_concat_iff.mp hpre).resolve_left hne

theorem touch_makeParents : Touch base c fs (makeParents fs (base ++ ["tmp", c])) := by
  intro q _ hq
  unfold makeParents
  split_ifs with h
  · exact .inr ⟨prefix_temp h.1 (fun heq => hq (heq ▸ List.prefix_refl _)), h.2, rfl⟩
  · exact .inl rfl

theorem view_rename (hc : c ≠ "tmp") (h : View base c fs fs') :
    View base c (fs.rename (base ++ ["tmp", c]) (base ++ [c])) (fs'.rename (base ++ ["tmp", c]) (base ++ [c])) where
  cache q hq := by
    simp only [FileTree.rename, FileTree.graft, if_pos hq, FileTree.sub]
    exact h.temp _ (List.prefix_append _ _)
  temp q hq := by
    have hnot : ¬ base ++ [c] <+: q := not_prefix_of_ne hc.symm hq
    simp only [FileTree.rename, FileTree.graft_of_not_prefix _ hnot]
    simp only [FileTree.removeDirAll, FileTree.graft, if_pos hq, FileTree.empty]
  above q hq := by
    simp only [FileTree.isFile, FileTree.rename, FileTree.removeDirAll,
      FileTree.graft_of_not_prefix _ (not_prefix_tmp hc hq []), FileTree.graft_of_not_prefix _ (not_below_temp hq)]
    exact h.above q hq

theorem touch_rename : Touch base c fs (fs.rename (base ++ ["tmp", c]) (base ++ [c])) := by
  intro q hcache htemp
  left
  simp only [FileTree.rename, FileTree.removeDirAll, FileTree.graft_of_not_prefix _ hcache,
    FileTree.graft_of_not_prefix _ htemp]

theorem parentsOk_eq (fs : FileTree) (path : Path) : parentsOk fs path = path.inits.all fun p => !fs.isFile p := by
  unfold parentsOk
  congr 1
  funext p
  unfold FileTree.isFile
  cases fs p with
  | none => rfl
  | some node => cases node <;> rfl

theorem View.parentsOk (h : View base c fs fs') :
    DatasetRt.parentsOk fs (base ++ ["tmp", c]) = DatasetRt.parentsOk fs' (base ++ ["tmp", c]) := by
  rw [parentsOk_eq, parentsOk_eq, Bool.eq_iff_iff, List.all_eq_true, List.all_eq_true]
  refine forall₂_congr fun q hq => ?_
  rw [List.mem_inits] at hq
  by_cases heq : q = base ++ ["tmp", c]
  · simp only [FileTree.isFile, h.temp q (heq ▸ List.prefix_refl _)]
  · rw [h.above q (prefix_temp hq heq)]

end view

/-! ### The operations of a source -/

/-- The disk as each source of a list sees it; `segment` gives their segments. -/
def Seen (base : Path) (segment : ℕ → Option String) (i : ℕ) (fs fs' : FileTree) : Prop :=
  ∀ c, segment i = some c → View base c fs fs'

structure Segments (segment : ℕ → Option String) : Prop where
  ne_tmp : ∀ i c, segment i = some c → c ≠ "tmp"
  inj : ∀ i j c, segment i = some c → segment j = some c → i = j

section ops

variable {base : Path} {segment : ℕ → Option String} {i : ℕ} {c : String}

theorem local_of_touch (hseg : Segments segment) (hi : segment i = some c) {α : Type}
    {op : FileTree → FileTree × α} (hown : ∀ s t, View base c s t → View base c (op s).1 (op t).1 ∧ (op s).2 = (op t).2)
    (htouch : ∀ s, Touch base c s (op s).1) : Local (Seen base segment) i op where
  own s t h := by
    obtain ⟨hview, hsame⟩ := hown s t (h c hi)
    refine ⟨fun d hd => ?_, hsame⟩
    rw [hi] at hd
    exact Option.some.inj hd ▸ hview
  other j s t hne h d hd := by
    have hcd : c ≠ d := fun heq => hne (hseg.inj j i d hd (heq ▸ hi))
    exact ((htouch s).view (hseg.ne_tmp i c hi) (hseg.ne_tmp j d hd) hcd).trans (h d hd)

variable (base) in
theorem local_graft (hseg : Segments segment) (hi : segment i = some c) {α : Type} (dir : FileTree) (a : α) :
    Local (Seen base segment) i fun fs => (fs.graft (base ++ ["tmp", c]) dir, a) :=
  local_of_touch hseg hi (fun _ _ h => ⟨view_graft (hseg.ne_tmp i c hi) h dir, rfl⟩) fun _ => touch_graft dir

theorem local_makeParents (hseg : Segments segment) (hi : segment i = some c) {α : Type} (a : α) :
    Local (Seen base segment) i fun fs => (makeParents fs (base ++ ["tmp", c]), a) :=
  local_of_touch hseg hi (fun _ _ h => ⟨view_makeParents (hseg.ne_tmp i c hi) h, rfl⟩) fun _ => touch_makeParents

theorem local_rename (hseg : Segments segment) (hi : segment i = some c) {α : Type} (a : α) :
    Local (Seen base segment) i fun fs => (fs.rename (base ++ ["tmp", c]) (base ++ [c]), a) :=
  local_of_touch hseg hi (fun _ _ h => ⟨view_rename (hseg.ne_tmp i c hi) h, rfl⟩) fun _ => touch_rename

/-- The start of the source with segment `c`. -/
def AtSegment (base : Path) (c : String) (start : SourceWriteStart) : Prop :=
  start.tempPath = base ++ ["tmp", c] ∧ start.cachePath = base ++ [c]

namespace ActiveSourceWrite

variable {a : ActiveSourceWrite}

/-- `cleanup_temp_cache` by what is at the path. -/
def cleanupNode (a : ActiveSourceWrite) (fs : FileTree) : Option Node → FileTree × ActiveSourceWrite
  | none => (fs, a)
  | some .dir => (fs.graft a.start.tempPath .empty, a)
  | some (.file _) =>
      let text := (CacheError.io "Not a directory").toString
      let message :=
        match a.failure with
        | some failure => s!"{failure}; cleanup failed: {text}"
        | none => text
      (fs, { a with failure := some message })

theorem cleanupTempCache_eq (a : ActiveSourceWrite) (fs : FileTree) :
    a.cleanupTempCache fs = a.cleanupNode fs (fs a.start.tempPath) := by
  unfold cleanupTempCache DatasetRt.cleanupTempCache removeDirectory FileTree.pathExists
  cases hnode : fs a.start.tempPath with
  | none => rfl
  | some node => cases node <;> rfl

theorem local_cleanup (hseg : Segments segment) (hi : segment i = some c) (hstart : AtSegment base c a.start) :
    Local (Seen base segment) i fun fs => a.cleanupTempCache fs := by
  have hsee : ∀ s t, Seen base segment i s t → s a.start.tempPath = t a.start.tempPath := fun s t h => by
    rw [hstart.1]
    exact (h c hi).temp _ (List.prefix_refl _)
  simp only [cleanupTempCache_eq]
  refine Local.choose (fun fs : FileTree => fs a.start.tempPath) (fun node fs => a.cleanupNode fs node) hsee ?_
  rintro (_ | _ | bytes)
  · exact .pure _
  · simp only [cleanupNode, hstart.1]
    exact local_graft base hseg hi _ _
  · exact .pure _

theorem local_markFailed (hseg : Segments segment) (hi : segment i = some c) (hstart : AtSegment base c a.start)
    (error : CacheError) : Local (Seen base segment) i fun fs => a.markFailed fs error :=
  local_cleanup hseg hi hstart

theorem local_errorResult (hseg : Segments segment) (hi : segment i = some c) (hstart : AtSegment base c a.start) :
    Local (Seen base segment) i fun fs => a.errorResult fs :=
  Local.map (local_cleanup (a := { a with builder := none }) hseg hi hstart) fun b =>
    errorWriteMessage a.start.sourceName (b.failure.getD CacheError.workerFailed.toString)

theorem local_failWith (hseg : Segments segment) (hi : segment i = some c) (hstart : AtSegment base c a.start)
    (error : CacheError) : Local (Seen base segment) i fun fs => a.failWith fs error := by
  have hmark := local_markFailed hseg hi hstart error
  refine ⟨fun s t h => ?_, fun j s t hne h => ?_⟩
  · obtain ⟨hstate, hsame⟩ := hmark.own s t h
    unfold failWith
    simp only [hsame]
    exact (local_errorResult hseg hi (by rw [markFailed_start]; exact hstart)).own _ _ hstate
  · exact (local_errorResult hseg hi (by rw [markFailed_start]; exact hstart)).other j _ _ hne (hmark.other j s t hne h)

/-- `ActiveSourceWrite::new` once the builder is there, or is not. -/
def newFrom (start : SourceWriteStart) (created : CacheResult CacheBuilder) (fs : FileTree) :
    FileTree × ActiveSourceWrite :=
  match created with
  | .ok builder => ((makeParents fs start.tempPath).graft start.tempPath builder.dir,
      { start, builder := some builder, failure := none })
  | .error error => cleanupTempCache { start, builder := none, failure := some error.toString } fs

theorem local_new (hseg : Segments segment) (hi : segment i = some c) (config : WriterConfig)
    {start : SourceWriteStart} (hstart : AtSegment base c start) :
    Local (Seen base segment) i fun fs => new config fs start := by
  have hsee : ∀ s t, Seen base segment i s t →
      CacheBuilder.create (s.pathExists start.tempPath) (parentsOk s start.tempPath) start.tempPath start.sourceName
          config.maxShardBytes.1 config.shardCompression =
        CacheBuilder.create (t.pathExists start.tempPath) (parentsOk t start.tempPath) start.tempPath start.sourceName
          config.maxShardBytes.1 config.shardCompression := by
    intro s t h
    have hview := h c hi
    rw [hstart.1, hview.parentsOk, FileTree.pathExists, FileTree.pathExists, hview.temp _ (List.prefix_refl _)]
  have hchoose := Local.choose _ (newFrom start) hsee ?_
  · have heq : (fun fs => new config fs start) = fun fs => newFrom start
        (CacheBuilder.create (fs.pathExists start.tempPath) (parentsOk fs start.tempPath) start.tempPath
          start.sourceName config.maxShardBytes.1 config.shardCompression) fs := by
      funext fs
      unfold new createCache newFrom
      cases CacheBuilder.create (fs.pathExists start.tempPath) (parentsOk fs start.tempPath) start.tempPath
        start.sourceName config.maxShardBytes.1 config.shardCompression <;> rfl
    rw [heq]
    exact hchoose
  · rintro (error | builder)
    · exact local_cleanup hseg hi hstart
    · unfold newFrom
      simp only [hstart.1]
      exact (local_makeParents hseg hi ()).bind fun _ => local_graft base hseg hi _ _

theorem local_pushSample (hseg : Segments segment) (hi : segment i = some c) (L : StorageLib)
    (faults : WriterFaults) (hstart : AtSegment base c a.start) (input : WriterInput) :
    Local (Seen base segment) i fun fs => a.pushSample L faults fs input := by
  unfold pushSample
  split_ifs
  · exact .pure a
  · cases a.builder with
    | none => exact local_markFailed hseg hi hstart _
    | some builder =>
        simp only [hstart.1]
        rcases builder.pushSampleOn L faults input.1 input.2 with ⟨b, error | u⟩
        · exact (local_graft base hseg hi b.dir ()).bind fun _ => local_markFailed hseg hi hstart error
        · exact local_graft base hseg hi _ _

theorem local_publish (hseg : Segments segment) (hi : segment i = some c) (hstart : AtSegment base c a.start)
    (failure : Option String) :
    Local (Seen base segment) i fun fs =>
      match publishCache failure fs a.start.tempPath a.start.cachePath with
      | .error error => ({ a with builder := none } : ActiveSourceWrite).failWith fs error
      | .ok fs => (fs, successWriteResult a.start.sourceName a.start.cachePath) := by
  have hsee : ∀ s t : FileTree, Seen base segment i s t →
      s.pathExists a.start.cachePath = t.pathExists a.start.cachePath := fun s t h => by
    rw [hstart.2, FileTree.pathExists, FileTree.pathExists, (h c hi).cache _ (List.prefix_refl _)]
  have hfail : ∀ error, Local (Seen base segment) i fun fs =>
      ({ a with builder := none } : ActiveSourceWrite).failWith fs error :=
    fun error => local_failWith (a := { a with builder := none }) hseg hi hstart error
  unfold publishCache
  cases failure with
  | some message => exact hfail (.io message)
  | none =>
      have hchoose := Local.choose _ (fun present fs =>
          if present then ({ a with builder := none } : ActiveSourceWrite).failWith fs (.io "Directory not empty")
          else (fs.rename a.start.tempPath a.start.cachePath,
            successWriteResult a.start.sourceName a.start.cachePath)) hsee ?_
      · refine cast (congrArg _ (funext fun fs => ?_)) hchoose
        simp only
        split_ifs <;> rfl
      · rintro (_ | _)
        · simp only [Bool.false_eq_true, if_false, hstart.1, hstart.2]
          exact local_rename hseg hi _
        · simp only [if_true]
          exact hfail _

theorem local_finish (hseg : Segments segment) (hi : segment i = some c) (L : StorageLib)
    (faults : WriterFaults) (hstart : AtSegment base c a.start) :
    Local (Seen base segment) i fun fs => a.finish L faults fs := by
  unfold finish
  split_ifs
  · exact local_errorResult hseg hi hstart
  · cases a.builder with
    | none => exact local_failWith hseg hi hstart _
    | some builder =>
        simp only
        have hgraft : Local (Seen base segment) i fun fs =>
            (fs.graft a.start.tempPath (builder.finishOn L faults).1, ()) := by
          rw [hstart.1]
          exact local_graft base hseg hi _ _
        cases (builder.finishOn L faults).2 with
        | error error =>
            exact hgraft.bind fun _ => local_failWith (a := { a with builder := none }) hseg hi hstart error
        | ok manifest => exact hgraft.bind fun _ => local_publish hseg hi hstart faults.rename

end ActiveSourceWrite

theorem sourceOps (hseg : Segments segment) (hi : segment i = some c) (L : StorageLib) (config : WriterConfig)
    (faults : ℕ → WriterFaults) {start : SourceWriteStart} (hstart : AtSegment base c start) :
    SourceOps L config faults (Seen base segment) i start where
  new := ActiveSourceWrite.local_new hseg hi config hstart
  push a ha input := ActiveSourceWrite.local_pushSample hseg hi L _ (ha ▸ hstart) input
  close a ha stop := by
    cases stop with
    | none => exact ActiveSourceWrite.local_finish hseg hi L _ (ha ▸ hstart)
    | some error => exact ActiveSourceWrite.local_failWith hseg hi (ha ▸ hstart) _
  mark a ha error := ActiveSourceWrite.local_markFailed hseg hi (ha ▸ hstart) error

end ops

/-! ### Looking at the disk -/

/-- The shards of the cache at `path` lie in its directory. -/
def PlainShards (L : StorageLib) (fs : FileTree) (path : Path) : Prop :=
  ∀ manifest, readManifest L fs path = .ok manifest →
    ∀ shard ∈ manifest.fields.shards, '/' ∉ shard.name.toList ∧ shard.name ≠ ".."

section load

variable {L : StorageLib} {fs fs' : FileTree} {path : Path}

theorem openFile_congr {q : Path} (h : fs q = fs' q) : openFile fs q = openFile fs' q := by
  unfold openFile FileTree.read
  rw [h]

theorem pathExists_congr {q : Path} (h : fs q = fs' q) : fs.pathExists q = fs'.pathExists q := by
  unfold FileTree.pathExists
  rw [h]

theorem readManifest_congr (h : ∀ q, path <+: q → fs q = fs' q) : readManifest L fs path = readManifest L fs' path := by
  have hfile : fs (path.join "manifest.json") = fs' (path.join "manifest.json") := by
    rw [Path.join_of_plain path (by decide) (by decide) (by decide)]
    exact h _ (List.prefix_append _ _)
  unfold readManifest
  simp only [pathExists_congr hfile, openFile_congr hfile]

theorem forM_congr {α : Type} {f g : α → CacheResult Unit} : ∀ {l : List α}, (∀ x ∈ l, f x = g x) → l.forM f = l.forM g
  | [], _ => rfl
  | x :: l, h => by
      show (f x >>= fun _ => l.forM f) = g x >>= fun _ => l.forM g
      rw [h x List.mem_cons_self, forM_congr fun y hy => h y (List.mem_cons_of_mem _ hy)]

/-- `load_cache` reads below its directory only. -/
theorem loadCache_congr (h : ∀ q, path <+: q → fs q = fs' q) (hplain : PlainShards L fs' path) (validate : Bool)
    (position : ℕ) : loadCache L fs path validate position = loadCache L fs' path validate position := by
  have hfile : ∀ name : String, '/' ∉ name.toList → name ≠ "" → name ≠ "." →
      fs (path.join name) = fs' (path.join name) := by
    intro name h₁ h₂ h₃
    rw [Path.join_of_plain path h₁ h₂ h₃]
    exact h _ (List.prefix_append _ _)
  have hindex := hfile "index.bin" (by decide) (by decide) (by decide)
  have hmetadata := hfile "metadata.arrow" (by decide) (by decide) (by decide)
  unfold loadCache
  rw [readManifest_congr h]
  cases hmanifest : readManifest L fs' path with
  | error error => rfl
  | ok manifest =>
      have hshards : verifyShards L fs path manifest validate = verifyShards L fs' path manifest validate := by
        refine forM_congr fun shard hshard => ?_
        have hplace : fs (shardPath path shard) = fs' (shardPath path shard) := by
          have hhead : ¬ shard.name.toList.head? = some '/' := fun hc =>
            (hplain manifest hmanifest shard hshard).1 (List.mem_of_mem_head? hc)
          rw [shardPath, Path.join_of_plain path (by decide) (by decide) (by decide), Path.join, if_neg hhead]
          exact h _ ((List.prefix_append _ _).trans (List.prefix_append _ _))
        unfold verifyShard verifyFileChecksum hashFile
        rw [openFile_congr hplace]
      have hchecksums : verifyChecksums L fs path manifest validate = verifyChecksums L fs' path manifest validate := by
        unfold verifyChecksums verifyFileChecksum hashFile
        rw [openFile_congr hindex, openFile_congr hmetadata]
      have hopen : MappedIndex.openFile fs (path.join "index.bin") = MappedIndex.openFile fs' (path.join "index.bin") := by
        unfold MappedIndex.openFile FileTree.read
        rw [hindex]
      have hrows : loadRows L fs path manifest validate = loadRows L fs' path manifest validate := by
        unfold loadRows readMetadataFile
        simp only [openFile_congr hmetadata, pathExists_congr hmetadata]
      show (do
          let cacheId ← Manifest.resolveCacheId position manifest
          verifyChecksums L fs path manifest validate
          verifyShards L fs path manifest validate
          let index ← MappedIndex.openFile fs (path.join "index.bin")
          let metadataRows ← loadRows L fs path manifest validate
          validateLoadedShapes manifest metadataRows index
          .ok (⟨cacheId, manifest, metadataRows, index, path, validate⟩ : LoadedCache)) = _
      rw [hshards, hchecksums, hopen, hrows]
      rfl

end load

section footprints

variable {L : StorageLib} {config : WriterConfig} {faults : ℕ → WriterFaults} {base : Path}
  {sources : List Source} {fs₀ : FileTree}

/-- The segment of a source that has a name. -/
def segmentOf (sources : List Source) (i : ℕ) : Option String := do
  let source ← sources[i]?
  let name ← (extractSourceName source).toOption
  (Path.components name).head?

theorem segmentOf_eq {i : ℕ} {source : Source} {name c : String} (hsource : sources[i]? = some source)
    (hname : extractSourceName source = .ok name) (hc : Path.components name = [c]) : segmentOf sources i = some c := by
  simp [segmentOf, hsource, hname, hc, Except.toOption]

variable (base) in
theorem atSegment {name c : String} (hjoin : ∀ path : Path, path.join name = path ++ [c]) (i : ℕ) :
    AtSegment base c ⟨i, name, cachePathForSource base name, tempCachePathForSource base name⟩ := by
  refine ⟨?_, hjoin base⟩
  show (base.join "tmp").join name = _
  rw [join_tmp, hjoin]
  simp

/-- Removing what is left of an earlier call. -/
theorem prepareCachePaths_eq (fs : FileTree) (cachePath tempPath : Path) :
    prepareCachePaths fs cachePath tempPath =
      if fs.pathExists cachePath then .error (.invalidInput s!"cache path already exists: {cachePath.display}")
      else
        match fs tempPath with
        | none => .ok fs
        | some .dir => .ok (fs.graft tempPath .empty)
        | some (.file _) => .error (.io "Not a directory") := by
  unfold prepareCachePaths removeDirectory
  split_ifs with hcache htemp
  · rfl
  · cases hnode : fs tempPath with
    | none => simp [FileTree.pathExists, hnode] at htemp
    | some node => cases node <;> rfl
  · cases hnode : fs tempPath with
    | none => rfl
    | some node => simp [FileTree.pathExists, hnode] at htemp

variable (faults) in
theorem footprints (hseg : Segments (segmentOf sources))
    (hshards : config.reuseExisting = true → config.validateCache = true → ∀ source ∈ sources, ∀ name,
      extractSourceName source = .ok name → PlainShards L fs₀ (cachePathForSource base name)) :
    Footprints L config faults base sources fs₀ (Seen base (segmentOf sources)) where
  refl i fs c _ := View.refl base c fs
  ops i source start x hsource hplan := by
    obtain ⟨name, hname, rfl, -, -⟩ := planSource_write L config base hplan
    obtain ⟨c, hc, hjoin⟩ := segment_of_extractSourceName hname
    exact sourceOps hseg (segmentOf_eq hsource hname hc) L config faults (atSegment base hjoin i)
  plan i source fs hsource hsees := by
    unfold planSource
    cases hname : extractSourceName source with
    | error error =>
        simp only
        cases error.isInterrupt <;> simp
    | ok name =>
        obtain ⟨c, hc, hjoin⟩ := segment_of_extractSourceName hname
        have hi := segmentOf_eq hsource hname hc
        have hview := hsees c hi
        obtain ⟨htemp, hcache⟩ := atSegment base hjoin i
        simp only at htemp hcache
        have hcacheNode : fs (cachePathForSource base name) = fs₀ (cachePathForSource base name) := by
          rw [hcache]
          exact hview.cache _ (List.prefix_refl _)
        have htempNode : fs (tempCachePathForSource base name) = fs₀ (tempCachePathForSource base name) := by
          rw [htemp]
          exact hview.temp _ (List.prefix_refl _)
        simp only [pathExists_congr hcacheNode]
        split_ifs with hreuse
        · simp only [Bool.and_eq_true] at hreuse
          simp only
          unfold ListWrite.existingCacheResult
          cases hvalidate : config.validateCache with
          | false => rfl
          | true =>
              rw [loadCache_congr (fun q hq => hview.cache q (hcache ▸ hq))
                (hshards hreuse.1 hvalidate source (List.mem_of_getElem? hsource) name hname)]
        · simp only [prepareCachePaths_eq, pathExists_congr hcacheNode, htempNode]
          cases fs₀.pathExists (cachePathForSource base name) with
          | true => rfl
          | false =>
              simp only [Bool.false_eq_true, if_false]
              cases hnode : fs₀ (tempCachePathForSource base name) with
              | none => exact ⟨fs, rfl, hsees, fun _ _ _ hz => hz⟩
              | some node =>
                  cases node with
                  | file bytes => rfl
                  | dir =>
                      have hlocal := local_graft base hseg hi .empty ()
                      rw [← htemp] at hlocal
                      exact ⟨_, rfl, (hlocal.own _ _ hsees).1, fun j z hj hz => hlocal.other j _ _ hj hz⟩

end footprints

end DatasetRt
