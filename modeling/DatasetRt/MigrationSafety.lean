import DatasetRt.Migration

/-! # Migration is a prefix and can be resumed

A run is described by its `Job`s: the loaded caches with what their manifest files hold when the run
begins.  `Job.apply` is the replacement of one manifest, so a run that gets as far as job `n` leaves
`(jobs.take n).foldl apply tree`, whatever fails and wherever it fails (`updateTargets_spec`).

A rerun compares the loaded, still legacy, manifest with the upgraded one that a partial run left.
That one was printed and parsed, and a float that changes on the way makes the rerun refuse the
manifest (`Stable`, `resumable_iff`). -/

namespace DatasetRt.Migration

variable {L : StorageLib} {resolve : Path → Path} {pid : ℕ}

/-! ### Jobs -/

/-- A loaded cache and what its manifest file holds when a run begins. -/
structure Job where
  cache : LoadedCache
  bytes : Bytes
  current : Manifest

namespace Job

def path (resolve : Path → Path) (job : Job) : Path := manifestPath resolve job.cache

/-- The text of the upgraded manifest. -/
def text (L : StorageLib) (job : Job) : Bytes :=
  match L.json.print (job.current.intoV3 job.cache.cacheId).toJson with
  | .ok text => text
  | .error _ => []

/-- The replacement of one manifest. -/
def apply (L : StorageLib) (resolve : Path → Path) (tree : FileTree) (job : Job) : FileTree :=
  if isV2 job.current then tree.write (job.path resolve) (job.text L) else tree

def target (L : StorageLib) (resolve : Path → Path) (job : Job) : Target :=
  ⟨job.path resolve, job.cache.cacheId, L.sha256 job.bytes, isV2 job.current⟩

def entry (resolve : Path → Path) (job : Job) : UpdateEntry :=
  ⟨job.path resolve, job.cache.cacheId, if isV2 job.current then .updated else .unchanged⟩

/-- The upgraded manifest can be printed, and it is not the root of the file system. -/
structure Replaceable (L : StorageLib) (resolve : Path → Path) (job : Job) : Prop where
  path_ne : job.path resolve ≠ []
  prints : isV2 job.current = true →
    ∃ text, L.json.print (job.current.intoV3 job.cache.cacheId).toJson = .ok text

/-- The file of the job holds its bytes, which are its manifest. -/
structure Holds (L : StorageLib) (resolve : Path → Path) (tree : FileTree) (job : Job) : Prop
    extends job.Replaceable L resolve where
  read : tree.read (job.path resolve) = some job.bytes
  parse : parseManifest L job.bytes = .ok job.current

theorem Replaceable.print_eq {job : Job} (h : job.Replaceable L resolve) (hv : isV2 job.current = true) :
    L.json.print (job.current.intoV3 job.cache.cacheId).toJson = .ok (job.text L) := by
  obtain ⟨text, htext⟩ := h.prints hv
  rw [Job.text, htext]

end Job

/-! ### One target -/

theorem attempt_none : attempt none = .ok () := rfl

theorem Job.digest_eq (job : Job) : ¬ L.sha256 job.bytes ≠ (job.target L resolve).digest := not_not.mpr rfl

/-- What an inspection before the update decides. -/
theorem reinspect_cases (faults : Point → Option CacheError) {tree : FileTree} {job : Job}
    (h : job.Holds L resolve tree) :
    (∃ error, reinspect L faults tree (job.target L resolve) = .error error) ∨
    (isV2 job.current = false ∧ reinspect L faults tree (job.target L resolve) = .ok none) ∨
    (isV2 job.current = true ∧ reinspect L faults tree (job.target L resolve) =
      .ok (some (job.current.intoV3 job.cache.cacheId))) := by
  cases hr : reinspect L faults tree (job.target L resolve) with
  | error error => exact .inl ⟨error, rfl⟩
  | ok decided =>
      refine .inr ?_
      obtain ⟨⟨⟩, -, hr⟩ := bind_eq_ok hr
      obtain ⟨⟨⟩, -, hr⟩ := bind_eq_ok hr
      obtain ⟨bytes, hbytes, hr⟩ := bind_eq_ok hr
      have hopen : tree.read (job.path resolve) = some bytes := okOr_eq_ok.mp hbytes
      rw [h.read, Option.some.injEq] at hopen
      subst hopen
      rw [if_neg job.digest_eq] at hr
      cases hv : isV2 job.current with
      | false =>
          refine .inl ⟨rfl, ?_⟩
          rw [if_pos (by simp [Job.target, hv])] at hr
          obtain ⟨⟨⟩, -, hr⟩ := bind_eq_ok hr
          exact hr.symm
      | true =>
          refine .inr ⟨rfl, ?_⟩
          rw [if_neg (by simp [Job.target, hv]), h.parse] at hr
          exact hr.symm

theorem reinspect_noFaults (i : ℕ) {tree : FileTree} {job : Job} (h : job.Holds L resolve tree) :
    reinspect L (noFaults i) tree (job.target L resolve) =
      .ok (if isV2 job.current then some (job.current.intoV3 job.cache.cacheId) else none) := by
  have hopen : openFile tree (job.target L resolve).path = .ok job.bytes := okOr_eq_ok.mpr h.read
  have hsync : syncManifestDirectory (noFaults i) (job.target L resolve).path = .ok () := if_neg h.path_ne
  simp only [reinspect, noFaults, attempt_none, bind, Except.bind, hopen]
  rw [if_neg job.digest_eq]
  cases hv : isV2 job.current with
  | false =>
      rw [if_pos (by simp [Job.target, hv])]
      rw [hsync]
      rfl
  | true =>
      rw [if_neg (by simp [Job.target, hv]), h.parse]
      rfl

theorem stagedText_ok {faults : Point → Option CacheError} {manifest : Manifest} {text : Bytes}
    (h : stagedText L faults manifest = .ok text) : L.json.print manifest.toJson = .ok text := by
  obtain ⟨⟨⟩, -, h⟩ := bind_eq_ok h
  obtain ⟨⟨⟩, -, h⟩ := bind_eq_ok h
  obtain ⟨⟨⟩, -, h⟩ := bind_eq_ok h
  obtain ⟨printed, ed, h⟩ := bind_eq_ok h
  obtain ⟨⟨⟩, -, h⟩ := bind_eq_ok h
  obtain ⟨⟨⟩, -, h⟩ := bind_eq_ok h
  obtain ⟨⟨⟩, -, h⟩ := bind_eq_ok h
  obtain ⟨⟨⟩, -, h⟩ := bind_eq_ok h
  obtain ⟨⟨⟩, -, h⟩ := bind_eq_ok h
  cases h
  exact jsonResult_ok ed

variable (pid) in
theorem temporary_free {disk : Disk} {path : Path} {bytes : Bytes} (hread : disk.tree.read path = some bytes)
    (next : ℕ) : disk.tree (temporaryPath pid path (freeSequence pid disk path next)) = none ∧
      temporaryPath pid path (freeSequence pid disk path next) ≠ path := by
  have hfree : disk.tree (temporaryPath pid path (freeSequence pid disk path next)) = none := by
    exact Option.isNone_iff_eq_none.mp (Nat.find_spec (exists_free pid disk path next)).2
  refine ⟨hfree, fun heq => ?_⟩
  rw [heq] at hfree
  simp [FileTree.read, hfree] at hread

variable (pid) in
/-- **One target.**  It fails and leaves the disk as it was, or is left unchanged, or its manifest is
replaced as a whole; only a replaced one can still fail. -/
theorem updateTarget_cases (faults : Point → Option CacheError) {st : DiskState} {job : Job}
    (h : job.Holds L resolve st.1.tree) :
    ((updateTarget L pid faults st (job.target L resolve)).1.1.tree = st.1.tree ∧
      ∃ error, (updateTarget L pid faults st (job.target L resolve)).2 = .error (error, false)) ∨
    ((updateTarget L pid faults st (job.target L resolve)).1.1.tree = job.apply L resolve st.1.tree ∧
      (updateTarget L pid faults st (job.target L resolve)).2 =
        .ok (if isV2 job.current then .updated else .unchanged)) ∨
    (isV2 job.current = true ∧
      (updateTarget L pid faults st (job.target L resolve)).1.1.tree = job.apply L resolve st.1.tree ∧
      ∃ error, (updateTarget L pid faults st (job.target L resolve)).2 = .error (error, true)) := by
  obtain ⟨hfree, hne⟩ := temporary_free pid h.read st.2
  unfold updateTarget
  rcases reinspect_cases faults h with ⟨error, hr⟩ | ⟨hv, hr⟩ | ⟨hv, hr⟩
  · rw [hr]
    exact .inl ⟨rfl, error, rfl⟩
  · rw [hr]
    exact .inr (.inl ⟨by simp [Job.apply, hv], by simp [hv]⟩)
  · rw [hr]
    simp only
    cases hcreate : createTemporary faults (job.target L resolve).path with
    | error error => exact .inl ⟨rfl, error, rfl⟩
    | ok created =>
        cases hstaged : stagedText L faults (job.current.intoV3 job.cache.cacheId) with
        | error error =>
            simp only [replaceManifest, hstaged]
            exact .inl ⟨FileTree.removeFile_write hfree [], error, rfl⟩
        | ok text =>
            obtain rfl : text = job.text L :=
              Except.ok.inj ((stagedText_ok hstaged).symm.trans (h.print_eq hv))
            have htree := FileTree.renameFile_write hfree hne (job.text L)
            have happly : job.apply L resolve st.1.tree = st.1.tree.write (job.path resolve) (job.text L) := by
              simp [Job.apply, hv]
            simp only [replaceManifest, hstaged]
            cases hsynced : attempt (faults (.hook .directorySync)) >>= fun _ =>
                syncManifestDirectory faults (job.target L resolve).path with
            | error error => exact .inr (.inr ⟨hv, by rw [happly]; exact htree, error, rfl⟩)
            | ok synced =>
                refine .inr (.inl ⟨by rw [happly]; exact htree, ?_⟩)
                simp [hv]

variable (pid) in
theorem updateTarget_noFaults (i : ℕ) {st : DiskState} {job : Job}
    (h : job.Holds L resolve st.1.tree) :
    (updateTarget L pid (noFaults i) st (job.target L resolve)).1.1.tree = job.apply L resolve st.1.tree ∧
      (updateTarget L pid (noFaults i) st (job.target L resolve)).2 =
        .ok (if isV2 job.current then .updated else .unchanged) := by
  have hok : ∃ status, (updateTarget L pid (noFaults i) st (job.target L resolve)).2 = .ok status := by
    unfold updateTarget
    rw [reinspect_noFaults i h]
    cases hv : isV2 job.current with
    | false => exact ⟨.unchanged, rfl⟩
    | true =>
        have hcreate : createTemporary (noFaults i) (job.target L resolve).path = .ok () := if_neg h.path_ne
        have hsync : syncManifestDirectory (noFaults i) (job.target L resolve).path = .ok () :=
          if_neg h.path_ne
        have hstaged : stagedText L (noFaults i) (job.current.intoV3 job.cache.cacheId) = .ok (job.text L) := by
          simp only [stagedText, noFaults, attempt_none, bind, Except.bind, h.print_eq hv, jsonResult]
        refine ⟨.updated, ?_⟩
        simp only [if_true, hcreate, replaceManifest, hstaged, hsync]
        rfl
  obtain ⟨status, hstatus⟩ := hok
  rcases updateTarget_cases pid (noFaults i) h with
    ⟨-, error, herror⟩ | hdone | ⟨-, -, error, herror⟩
  · rw [hstatus] at herror
    cases herror
  · exact hdone
  · rw [hstatus] at herror
    cases herror

/-! ### All targets -/

/-- The tree after the replacements of some jobs. -/
def applyAll (L : StorageLib) (resolve : Path → Path) (jobs : List Job) (tree : FileTree) : FileTree :=
  jobs.foldl (Job.apply L resolve) tree

theorem read_apply_of_ne {job : Job} {p : Path} (h : p ≠ job.path resolve) (tree : FileTree) :
    (job.apply L resolve tree).read p = tree.read p := by
  unfold Job.apply
  split_ifs
  · exact FileTree.read_write_of_ne tree h _
  · rfl

/-- A replacement does not touch the other jobs. -/
theorem holds_apply {first job : Job} {tree : FileTree} (hne : job.path resolve ≠ first.path resolve)
    (h : job.Holds L resolve tree) : job.Holds L resolve (first.apply L resolve tree) :=
  ⟨h.toReplaceable, by rw [read_apply_of_ne hne]; exact h.read, h.parse⟩

/-- Jobs that a run works on: their files hold what they say, and no two of them share a file. -/
structure Ready (L : StorageLib) (resolve : Path → Path) (tree : FileTree) (jobs : List Job) : Prop where
  holds : ∀ job ∈ jobs, job.Holds L resolve tree
  nodup : (jobs.map (Job.path resolve)).Nodup

theorem Ready.tail {tree : FileTree} {job : Job} {jobs : List Job} (h : Ready L resolve tree (job :: jobs)) :
    Ready L resolve (job.apply L resolve tree) jobs := by
  have hnodup := h.nodup
  rw [List.map_cons, List.nodup_cons] at hnodup
  refine ⟨fun other hother => ?_, hnodup.2⟩
  refine holds_apply (fun heq => hnodup.1 ?_) (h.holds other (List.mem_cons_of_mem _ hother))
  exact heq ▸ List.mem_map_of_mem hother

/-- How a run ends that replaced what is planned for the first `n` targets; `before` is what it had
reported already. -/
inductive Ended (before planned : List UpdateEntry) : ℕ → Except UpdateError (List UpdateEntry) → Prop
  | completed : Ended before planned planned.length (.ok (before ++ planned))
  | failed {n : ℕ} {entry : UpdateEntry} {message : String} : planned[n]? = some entry →
      Ended before planned n
        (.error { path := some entry.path, message, entries := before ++ planned.take n })
  | unsynced {n : ℕ} {entry : UpdateEntry} {message : String} : planned[n]? = some entry →
      entry.status = .updated →
      Ended before planned (n + 1)
        (.error
          { path := some entry.path
            message
            entries := before ++ planned.take n ++ [{ entry with status := .durabilityUnknown }] })

theorem Ended.cons {before planned : List UpdateEntry} {entry : UpdateEntry} {n : ℕ}
    {result : Except UpdateError (List UpdateEntry)} (h : Ended (before ++ [entry]) planned n result) :
    Ended before (entry :: planned) (n + 1) result := by
  cases h with
  | completed =>
      have hall : Ended before (entry :: planned) _ (.ok (before ++ entry :: planned)) := .completed
      simpa using hall
  | @failed n failing message hn =>
      have hlater : Ended before (entry :: planned) (n + 1)
          (.error { path := some failing.path, message, entries := before ++ (entry :: planned).take (n + 1) }) :=
        .failed (by simpa using hn)
      simpa using hlater
  | @unsynced n failing message hn hstatus =>
      have hlater : Ended before (entry :: planned) (n + 1 + 1)
          (.error { path := some failing.path, message, entries := before ++ (entry :: planned).take (n + 1) ++
            [{ failing with status := .durabilityUnknown }] }) :=
        .unsynced (by simpa using hn) hstatus
      simpa using hlater

variable (pid) in
/-- **A run is a prefix**, whatever fails. -/
theorem updateTargets_spec (faults : Faults) : ∀ (jobs : List Job) (i : ℕ) (st : DiskState)
    (before : List UpdateEntry), Ready L resolve st.1.tree jobs →
    ∃ n ≤ jobs.length,
      (updateTargets L pid faults i st before (jobs.map (Job.target L resolve))).1.1.tree =
        applyAll L resolve (jobs.take n) st.1.tree ∧
      Ended before (jobs.map (Job.entry resolve)) n
        (updateTargets L pid faults i st before (jobs.map (Job.target L resolve))).2
  | [], i, st, before, _ =>
      ⟨0, le_refl _, rfl, by simpa [updateTargets] using (.completed : Ended before [] _ _)⟩
  | job :: jobs, i, st, before, hready => by
      have hone := updateTarget_cases pid (faults i) (hready.holds job List.mem_cons_self)
      rcases hup : updateTarget L pid (faults i) st (job.target L resolve) with ⟨st', result⟩
      rw [hup] at hone
      simp only [List.map_cons, updateTargets, hup]
      have hhead : (job.entry resolve :: jobs.map (Job.entry resolve))[0]? = some (job.entry resolve) := rfl
      rcases hone with ⟨htree, error, rfl⟩ | ⟨htree, rfl⟩ | ⟨hv, htree, error, rfl⟩
      · refine ⟨0, Nat.zero_le _, htree, ?_⟩
        have hended : Ended before (job.entry resolve :: jobs.map (Job.entry resolve)) 0
            (.error { path := some (job.entry resolve).path, message := error.toString, entries := before ++ [] }) :=
          .failed hhead
        simpa [Job.target, Job.entry] using hended
      · have hready' : Ready L resolve st'.1.tree jobs := htree ▸ hready.tail
        obtain ⟨n, hn, hfinal, hended⟩ := updateTargets_spec faults jobs (i + 1) st'
          (before ++ [job.entry resolve]) hready'
        refine ⟨n + 1, Nat.succ_le_succ hn, ?_, hended.cons⟩
        rw [htree] at hfinal
        exact hfinal
      · refine ⟨1, by simp, htree, ?_⟩
        have hstatus : (job.entry resolve).status = .updated := by simp [Job.entry, hv]
        have hended : Ended before (job.entry resolve :: jobs.map (Job.entry resolve)) 1
            (.error { path := some (job.entry resolve).path, message := error.toString, entries := before ++ [] ++
              [{ job.entry resolve with status := .durabilityUnknown }] }) :=
          .unsynced hhead hstatus
        simpa [Job.target, Job.entry] using hended

variable (pid) in
theorem updateTargets_noFaults : ∀ (jobs : List Job) (i : ℕ) (st : DiskState)
    (before : List UpdateEntry), Ready L resolve st.1.tree jobs →
    (updateTargets L pid noFaults i st before (jobs.map (Job.target L resolve))).1.1.tree =
        applyAll L resolve jobs st.1.tree ∧
      (updateTargets L pid noFaults i st before (jobs.map (Job.target L resolve))).2 =
        .ok (before ++ jobs.map (Job.entry resolve))
  | [], i, st, before, _ => ⟨rfl, by simp [updateTargets]⟩
  | job :: jobs, i, st, before, hready => by
      have hone := updateTarget_noFaults pid i (hready.holds job List.mem_cons_self)
      rcases hup : updateTarget L pid (noFaults i) st (job.target L resolve) with ⟨st', result⟩
      rw [hup] at hone
      simp only [List.map_cons, updateTargets, hup]
      obtain ⟨htree, rfl⟩ := hone
      have hready' : Ready L resolve st'.1.tree jobs := htree ▸ hready.tail
      obtain ⟨hfinal, hresult⟩ := updateTargets_noFaults jobs (i + 1) st' (before ++ [job.entry resolve])
        hready'
      simp only
      rw [htree] at hfinal
      refine ⟨hfinal, hresult.trans ?_⟩
      simp

/-- Target `n` fails at once, and nothing else does. -/
def stopAt (n : ℕ) (error : CacheError) : Faults := fun i point =>
  if i = n ∧ point = .hook .inspect then some error else none

theorem stopAt_of_ne {n i : ℕ} {error : CacheError} (h : i ≠ n) : stopAt n error i = noFaults i :=
  funext fun _ => if_neg fun hboth => h hboth.1

variable (pid) in
/-- A run that is stopped at a target has replaced those before. -/
theorem updateTargets_stopped (error : CacheError) {n : ℕ} : ∀ {jobs : List Job} (i : ℕ) {st : DiskState}
    (before : List UpdateEntry) {job : Job}, Ready L resolve st.1.tree jobs → jobs[n]? = some job →
    (updateTargets L pid (stopAt (i + n) error) i st before (jobs.map (Job.target L resolve))).1.1.tree =
        applyAll L resolve (jobs.take n) st.1.tree ∧
      (updateTargets L pid (stopAt (i + n) error) i st before (jobs.map (Job.target L resolve))).2 =
        .error
          { path := some (job.path resolve)
            message := error.toString
            entries := before ++ (jobs.take n).map (Job.entry resolve) } := by
  induction n with
  | zero =>
      rintro (_ | ⟨job, jobs⟩) i st before job' - hjob
      · cases hjob
      obtain rfl : job = job' := Option.some.inj hjob
      have hstop : updateTarget L pid (stopAt i error i) st (job.target L resolve) = (st, .error (error, false)) := by
        have hinspect : stopAt i error i (.hook .inspect) = some error := if_pos ⟨rfl, rfl⟩
        simp only [updateTarget, reinspect, hinspect]
        rfl
      simp only [Nat.add_zero, List.map_cons, updateTargets, hstop]
      exact ⟨rfl, by simp [Job.target]⟩
  | succ n ih =>
      rintro (_ | ⟨job, jobs⟩) i st before job' hready hjob
      · cases hjob
      have hone := updateTarget_noFaults pid i (hready.holds job List.mem_cons_self)
      have hspared : stopAt (i + (n + 1)) error i = noFaults i :=
        stopAt_of_ne (Nat.ne_of_lt (Nat.lt_add_of_pos_right n.succ_pos))
      rw [← hspared] at hone
      rcases hup : updateTarget L pid (stopAt (i + (n + 1)) error i) st (job.target L resolve) with ⟨st', result⟩
      rw [hup] at hone
      obtain ⟨htree, rfl⟩ := hone
      have hready' : Ready L resolve st'.1.tree jobs := htree ▸ hready.tail
      obtain ⟨hfinal, hresult⟩ := ih (i + 1) (before ++ [job.entry resolve]) hready' hjob
      rw [Nat.add_assoc, Nat.add_comm 1] at hfinal hresult
      simp only at htree
      rw [htree] at hfinal
      simp only [List.map_cons, updateTargets, hup]
      refine ⟨hfinal, hresult.trans ?_⟩
      simp

/-! ### Preflight -/

/-- The manifest on disk passes the checks against the loaded one. -/
def Job.Accepted (job : Job) : Prop := checkCurrent job.cache job.current = .ok ()

theorem inspectTarget_ok {faults : Point → Option CacheError} {tree : FileTree} {cache : LoadedCache}
    {paths : List Path} {ids : List ℕ} {target : Target}
    (h : inspectTarget L resolve faults tree cache paths ids = .ok target) :
    manifestPath resolve cache ∉ paths ∧ cache.cacheId ∉ ids ∧ ∃ job : Job, job.cache = cache ∧
      target = job.target L resolve ∧ tree.read (job.path resolve) = some job.bytes ∧
      parseManifest L job.bytes = .ok job.current ∧ job.Accepted := by
  obtain ⟨⟨⟩, -, h⟩ := bind_eq_ok h
  obtain ⟨path, hpath, h⟩ := bind_eq_ok h
  have hpath' : path = manifestPath resolve cache := by
    unfold canonicalize at hpath
    simp only at hpath
    split_ifs at hpath
    exact (Except.ok.inj hpath).symm
  subst hpath'
  split_ifs at h with hdup
  rw [not_or] at hdup
  obtain ⟨⟨⟩, -, h⟩ := bind_eq_ok h
  obtain ⟨bytes, hbytes, h⟩ := bind_eq_ok h
  obtain ⟨current, hcurrent, h⟩ := bind_eq_ok h
  obtain ⟨⟨⟩, hcheck, h⟩ := bind_eq_ok h
  cases h
  exact ⟨hdup.1, hdup.2, ⟨cache, bytes, current⟩, rfl, rfl, okOr_eq_ok.mp hbytes, hcurrent, hcheck⟩

theorem inspectTarget_noFaults (i : ℕ) {tree : FileTree} {job : Job} {paths : List Path} {ids : List ℕ}
    (hread : tree.read (job.path resolve) = some job.bytes) (hparse : parseManifest L job.bytes = .ok job.current)
    (haccepted : job.Accepted) (hpaths : job.path resolve ∉ paths) (hids : job.cache.cacheId ∉ ids) :
    inspectTarget L resolve (noFaults i) tree job.cache paths ids = .ok (job.target L resolve) := by
  have hexists : tree.pathExists (manifestPath resolve job.cache) = true := by
    have hread' : tree.read (manifestPath resolve job.cache) = some job.bytes := hread
    unfold FileTree.read at hread'
    unfold FileTree.pathExists
    split at hread'
    · rename_i heq
      rw [heq]
      rfl
    · cases hread'
  have hcanonical : canonicalize resolve tree job.cache = .ok (job.path resolve) := if_pos hexists
  have hopen : openFile tree (job.path resolve) = .ok job.bytes := okOr_eq_ok.mpr hread
  simp only [inspectTarget, noFaults, attempt_none, bind, Except.bind, hcanonical]
  rw [if_neg (not_or.mpr ⟨hpaths, hids⟩)]
  simp only [hopen, hparse, show checkCurrent job.cache job.current = .ok () from haccepted]
  rfl

/-- The jobs of a run that got through the preflight. -/
structure Planned (L : StorageLib) (resolve : Path → Path) (tree : FileTree) (paths : List Path) (ids : List ℕ)
    (jobs : List Job) : Prop where
  read : ∀ job ∈ jobs, tree.read (job.path resolve) = some job.bytes
  parse : ∀ job ∈ jobs, parseManifest L job.bytes = .ok job.current
  accepted : ∀ job ∈ jobs, job.Accepted
  nodup : (jobs.map (Job.path resolve)).Nodup
  nodup_ids : (jobs.map fun job => job.cache.cacheId).Nodup
  fresh : ∀ job ∈ jobs, job.path resolve ∉ paths ∧ job.cache.cacheId ∉ ids

theorem preflight_ok {faults : Faults} {tree : FileTree} : ∀ {caches : List LoadedCache} {i : ℕ}
    {paths : List Path} {ids : List ℕ} {targets : List Target},
    preflight L resolve faults tree i paths ids caches = .ok targets →
    ∃ jobs, jobs.map Job.cache = caches ∧ targets = jobs.map (Job.target L resolve) ∧
      Planned L resolve tree paths ids jobs
  | [], i, paths, ids, targets, h => by
      cases h
      exact ⟨[], rfl, rfl, by simp, by simp, by simp, by simp, by simp, by simp⟩
  | cache :: rest, i, paths, ids, targets, h => by
      simp only [preflight] at h
      split at h
      · cases h
      · rename_i target htarget
        obtain ⟨⟨⟩, -, htarget⟩ := bind_eq_ok htarget
        obtain ⟨hpath, hid, job, rfl, rfl, hread, hparse, haccepted⟩ := inspectTarget_ok htarget
        cases hrest : preflight L resolve faults tree (i + 1) ((job.target L resolve).path :: paths)
            ((job.target L resolve).cacheId :: ids) rest with
        | error error =>
            rw [hrest] at h
            cases h
        | ok others =>
            rw [hrest] at h
            cases h
            obtain ⟨jobs, hcaches, rfl, hplanned⟩ := preflight_ok hrest
            refine ⟨job :: jobs, by rw [List.map_cons, hcaches], rfl, ?_⟩
            have hnew : ∀ other ∈ jobs, other.path resolve ≠ job.path resolve ∧ other.path resolve ∉ paths ∧
                other.cache.cacheId ≠ job.cache.cacheId ∧ other.cache.cacheId ∉ ids := by
              intro other hother
              obtain ⟨hp, hi⟩ := hplanned.fresh other hother
              rw [List.mem_cons, not_or] at hp hi
              exact ⟨hp.1, hp.2, hi.1, hi.2⟩
            refine ⟨List.forall_mem_cons.mpr ⟨hread, hplanned.read⟩,
              List.forall_mem_cons.mpr ⟨hparse, hplanned.parse⟩,
              List.forall_mem_cons.mpr ⟨haccepted, hplanned.accepted⟩, ?_, ?_,
              List.forall_mem_cons.mpr ⟨⟨hpath, hid⟩, fun other hother =>
                ⟨(hnew other hother).2.1, (hnew other hother).2.2.2⟩⟩⟩
            · rw [List.map_cons, List.nodup_cons]
              refine ⟨fun hmem => ?_, hplanned.nodup⟩
              obtain ⟨other, hother, heq⟩ := List.mem_map.mp hmem
              exact (hnew other hother).1 heq
            · rw [List.map_cons, List.nodup_cons]
              refine ⟨fun hmem => ?_, hplanned.nodup_ids⟩
              obtain ⟨other, hother, heq⟩ := List.mem_map.mp hmem
              exact (hnew other hother).2.2.1 heq

theorem Planned.ready {tree : FileTree} {paths : List Path} {ids : List ℕ} {jobs : List Job}
    (h : Planned L resolve tree paths ids jobs) (hpath : ∀ job ∈ jobs, job.Replaceable L resolve) :
    Ready L resolve tree jobs :=
  ⟨fun job hjob => ⟨hpath job hjob, h.read job hjob, h.parse job hjob⟩, h.nodup⟩

theorem Planned.tail {tree : FileTree} {paths : List Path} {ids : List ℕ} {job : Job} {jobs : List Job}
    (h : Planned L resolve tree paths ids (job :: jobs)) :
    Planned L resolve tree (job.path resolve :: paths) (job.cache.cacheId :: ids) jobs := by
  have hnodup := h.nodup
  have hnodupIds := h.nodup_ids
  rw [List.map_cons, List.nodup_cons] at hnodup hnodupIds
  refine ⟨(List.forall_mem_cons.mp h.read).2, (List.forall_mem_cons.mp h.parse).2,
    (List.forall_mem_cons.mp h.accepted).2, hnodup.2, hnodupIds.2, fun other hother => ?_⟩
  obtain ⟨hp, hi⟩ := (List.forall_mem_cons.mp h.fresh).2 other hother
  rw [List.mem_cons, not_or, List.mem_cons, not_or]
  refine ⟨⟨fun heq => hnodup.1 ?_, hp⟩, fun heq => hnodupIds.1 ?_, hi⟩
  · exact heq ▸ List.mem_map_of_mem hother
  · exact heq ▸ List.mem_map_of_mem (f := fun job : Job => job.cache.cacheId) hother

theorem preflight_noFaults {tree : FileTree} : ∀ {jobs : List Job} {i : ℕ} {paths : List Path} {ids : List ℕ},
    Planned L resolve tree paths ids jobs →
    preflight L resolve noFaults tree i paths ids (jobs.map Job.cache) = .ok (jobs.map (Job.target L resolve))
  | [], _, _, _, _ => rfl
  | job :: jobs, i, paths, ids, h => by
      obtain ⟨hpaths, hids⟩ := h.fresh job List.mem_cons_self
      have hinspect := inspectTarget_noFaults (L := L) i (h.read job List.mem_cons_self)
        (h.parse job List.mem_cons_self) (h.accepted job List.mem_cons_self) hpaths hids
      have hrest := preflight_noFaults (i := i + 1) h.tail
      have hhook : attempt (noFaults i .preflightHook) = .ok () := rfl
      simp only [List.map_cons, preflight, hhook, bind, Except.bind, hinspect]
      have hrest' : preflight L resolve noFaults tree (i + 1) ((job.target L resolve).path :: paths)
          ((job.target L resolve).cacheId :: ids) (jobs.map Job.cache) = .ok (jobs.map (Job.target L resolve)) :=
        hrest
      rw [hrest']

theorem preflight_congr {faults faults' : Faults} (tree : FileTree)
    (h : ∀ i point, point = .preflightHook ∨ point = .canonicalize ∨ point = .preflightRead →
      faults i point = faults' i point) : ∀ (caches : List LoadedCache) (i : ℕ) (paths : List Path) (ids : List ℕ),
    preflight L resolve faults tree i paths ids caches = preflight L resolve faults' tree i paths ids caches
  | [], _, _, _ => rfl
  | cache :: rest, i, paths, ids => by
      have hhook := h i .preflightHook (.inl rfl)
      have hpath := h i .canonicalize (.inr (.inl rfl))
      have hread := h i .preflightRead (.inr (.inr rfl))
      have hinspect : inspectTarget L resolve (faults i) tree cache paths ids =
          inspectTarget L resolve (faults' i) tree cache paths ids := by
        simp only [inspectTarget, hpath, hread]
      have hrest := fun paths ids => preflight_congr tree h rest (i + 1) paths ids
      simp only [preflight, hhook, hinspect, hrest]

/-! ### What an upgrade leaves behind -/

theorem isV2_intoV3 (m : Manifest) (id : ℕ) : isV2 (m.intoV3 id) = false := by cases m <;> rfl

theorem isV2_reread (m : Manifest) (r : Float → Float) : isV2 (m.reread r) = isV2 m := by cases m <;> rfl

theorem fields_reread (m : Manifest) (r : Float → Float) : (m.reread r).fields = m.fields.reread r := by
  cases m <;> rfl

theorem wellFormed_intoV3 {m : Manifest} (h : m.WellFormed) {id : ℕ} (hid : id < wordSize) :
    (m.intoV3 id).WellFormed := by
  cases m with
  | v2 fields =>
      refine ⟨⟨h.fields.sampleCount, h.fields.shards, fun name hname => ?_⟩, h.scope, fun other hother => ?_⟩
      · have hnone : fields.extra[name]? = none := h.fields.extra name hname
        simp [Manifest.intoV3, Manifest.fields, Std.ExtTreeMap.getElem?_erase, hnone]
      · cases hother
        exact ⟨hid, by simp [Manifest.intoV3, Manifest.fields]⟩
  | v3 id' fields => exact h
  | v4 id' fields => exact h

theorem toJson_reread_compression {c : ShardCompression} (h : c.Valid) (r : Float → Float) :
    (c.reread r).toJson = c.toJson.reread r := by
  cases c with
  | legacy algo ratio =>
      have hfin : ratio.isFinite = true := (ShardCompression.newLegacy_ok.mp h).2.1
      simp [ShardCompression.reread, ShardCompression.toJson, Json.reread, Json.rereadFields, hfin]
  | none => rfl
  | lz4Fast acceleration =>
      simp [ShardCompression.reread, ShardCompression.toJson, Json.reread, Json.rereadFields]
  | lz4HC level =>
      simp [ShardCompression.reread, ShardCompression.toJson, Json.reread, Json.rereadFields]
  | brotli level =>
      simp [ShardCompression.reread, ShardCompression.toJson, Json.reread, Json.rereadFields]

theorem toJson_reread_shard {shard : ShardManifest} (h : shard.WellFormed) (r : Float → Float) :
    (shard.reread r).toJson = shard.toJson.reread r := by
  simp [ShardManifest.reread, ShardManifest.toJson, Json.reread, Json.rereadFields,
    toJson_reread_compression h.compression]

theorem toJson_reread_field (field : MetadataField) (r : Float → Float) :
    field.toJson.reread r = field.toJson := by
  simp [MetadataField.toJson, Json.reread, Json.rereadFields]

theorem toFields_reread {fields : ManifestFields} (h : fields.WellFormed) (r : Float → Float) :
    (fields.reread r).toFields = Json.rereadFields r fields.toFields := by
  have hschema : fields.metadataSchema.map (fun field => field.toJson.reread r) =
      fields.metadataSchema.map MetadataField.toJson :=
    List.map_congr_left fun field _ => toJson_reread_field field r
  have hshards : (fields.shards.map (ShardManifest.reread r)).map ShardManifest.toJson =
      fields.shards.map fun shard => shard.toJson.reread r := by
    rw [List.map_map]
    exact List.map_congr_left fun shard hs => toJson_reread_shard (h.shards shard hs) r
  rw [Json.rereadFields_eq_map]
  simp only [ManifestFields.toFields, ManifestFields.reread, hshards, List.map_append, List.map_cons,
    List.map_nil, Std.ExtTreeMap.toList_map]
  simp [Json.reread, Json.rereadItems_eq_map, Function.comp_def, hschema]

/-- The fields of a printed manifest are the ones it was printed from if their floats are read back
exactly. -/
theorem sameFields_reread_fields {m : Manifest} (h : m.WellFormed) (r : Float → Float) :
    Json.sameFields m.fields.toFields (m.reread r).fields.toFields =
      Json.exactFields r m.fields.toFields := by
  rw [fields_reread, toFields_reread h.fields, Json.sameFields_reread]

namespace Job

/-- What the file of a job holds after its replacement. -/
def upgraded (L : StorageLib) (job : Job) : Job :=
  if isV2 job.current then
    ⟨job.cache, job.text L, (job.current.intoV3 job.cache.cacheId).reread L.json.reread⟩
  else job

theorem upgraded_cache (job : Job) : (job.upgraded L).cache = job.cache := by
  unfold upgraded
  split_ifs <;> rfl

theorem upgraded_path (job : Job) : (job.upgraded L).path resolve = job.path resolve := by
  rw [path, upgraded_cache, path]

theorem upgraded_isV2 (job : Job) : isV2 (job.upgraded L).current = false := by
  unfold upgraded
  split_ifs with hv
  · rw [isV2_reread, isV2_intoV3]
  · exact Bool.eq_false_of_not_eq_true hv

theorem replaceable_upgraded {job : Job} (h : job.Replaceable L resolve) :
    (job.upgraded L).Replaceable L resolve := by
  refine ⟨?_, fun hv => ?_⟩
  · rw [upgraded_path]
    exact h.path_ne
  · rw [upgraded_isV2] at hv
    cases hv

/-- There is nothing left to replace. -/
theorem apply_upgraded (job : Job) (tree : FileTree) : (job.upgraded L).apply L resolve tree = tree := by
  rw [apply, if_neg (by simp [upgraded_isV2])]

theorem holds_upgraded (hL : L.json.Lawful) {job : Job} {tree : FileTree}
    (h : job.Holds L resolve tree) (hid : job.cache.cacheId < wordSize) :
    (job.upgraded L).Holds L resolve (job.apply L resolve tree) := by
  refine ⟨replaceable_upgraded h.toReplaceable, ?_, ?_⟩ <;> unfold upgraded
  · unfold apply
    split_ifs with hv
    · exact FileTree.read_write_self tree _ _
    · exact h.read
  split_ifs with hv
  · obtain ⟨j, hj, hm⟩ := bind_eq_ok h.parse
    have hwell := wellFormed_intoV3 (Manifest.wellFormed_of_ofJson hm) hid
    have hparse := hL.parse_print _ _ (h.print_eq hv)
    unfold parseManifest
    simp only [hparse, jsonResult, bind, Except.bind]
    exact Manifest.ofJson_toJson hL hwell
  · exact h.parse

end Job

theorem Planned.replace {tree : FileTree} {done : List Job} {job : Job} {rest : List Job}
    (h : Planned L resolve tree [] [] (done ++ job :: rest))
    (hup : (job.upgraded L).Holds L resolve (job.apply L resolve tree)) (haccepted : (job.upgraded L).Accepted) :
    Planned L resolve (job.apply L resolve tree) [] [] (done ++ job.upgraded L :: rest) := by
  have hmem : ∀ {other}, other ∈ done ++ rest → other ∈ done ++ job :: rest := fun hother => by
    rw [List.mem_append, List.mem_cons]
    exact (List.mem_append.mp hother).imp_right Or.inr
  have hpaths : (done ++ job.upgraded L :: rest).map (Job.path resolve) =
      (done ++ job :: rest).map (Job.path resolve) := by simp [Job.upgraded_path]
  have hids : ((done ++ job.upgraded L :: rest).map fun job => job.cache.cacheId) =
      (done ++ job :: rest).map fun job => job.cache.cacheId := by simp [Job.upgraded_cache]
  -- the other jobs have other files
  have hother : ∀ other ∈ done ++ rest, other.path resolve ≠ job.path resolve := by
    intro other hother heq
    have hnodup := h.nodup
    rw [List.map_append, List.map_cons, List.nodup_middle, List.nodup_cons, ← List.map_append] at hnodup
    exact hnodup.1 (heq ▸ List.mem_map_of_mem hother)
  have hcases : ∀ {other}, other ∈ done ++ job.upgraded L :: rest → other = job.upgraded L ∨ other ∈ done ++ rest :=
    fun hother => by
      rw [List.mem_append, List.mem_cons] at hother
      rw [List.mem_append]
      tauto
  refine ⟨fun other hin => ?_, fun other hin => ?_, fun other hin => ?_, hpaths ▸ h.nodup, hids ▸ h.nodup_ids,
    fun other _ => ⟨List.not_mem_nil, List.not_mem_nil⟩⟩
  · rcases hcases hin with rfl | hin
    · exact hup.read
    · rw [read_apply_of_ne (hother other hin)]
      exact h.read other (hmem hin)
  · rcases hcases hin with rfl | hin
    · exact hup.parse
    · exact h.parse other (hmem hin)
  · rcases hcases hin with rfl | hin
    · exact haccepted
    · exact h.accepted other (hmem hin)

/-- **After any prefix of the replacements** the plan still stands, with the replaced manifests upgraded. -/
theorem Planned.advance (hL : L.json.Lawful) : ∀ {jobs done : List Job} {tree : FileTree}
    (n : ℕ), Planned L resolve tree [] [] (done ++ jobs) →
    (∀ job ∈ jobs, job.Replaceable L resolve ∧ job.cache.cacheId < wordSize ∧ (job.upgraded L).Accepted) →
    Planned L resolve (applyAll L resolve (jobs.take n) tree) [] []
      (done ++ ((jobs.take n).map (Job.upgraded L) ++ jobs.drop n))
  | [], done, tree, n, h, _ => by simpa [applyAll] using h
  | job :: jobs, done, tree, 0, h, _ => by simpa [applyAll] using h
  | job :: jobs, done, tree, n + 1, h, hjobs => by
      obtain ⟨⟨hpath, hid, haccepted⟩, hrest⟩ := List.forall_mem_cons.mp hjobs
      have hin : job ∈ done ++ job :: jobs := List.mem_append_right _ List.mem_cons_self
      have hholds : job.Holds L resolve tree := ⟨hpath, h.read job hin, h.parse job hin⟩
      have hstep := h.replace (Job.holds_upgraded hL hholds hid) haccepted
      rw [List.append_cons] at hstep
      have hfinal := Planned.advance hL n hstep hrest
      simpa [applyAll] using hfinal

theorem applyAll_upgraded (jobs : List Job) (tree : FileTree) :
    applyAll L resolve (jobs.map (Job.upgraded L)) tree = tree := by
  induction jobs with
  | nil => rfl
  | cons job jobs ih =>
      rw [List.map_cons, applyAll, List.foldl_cons, Job.apply_upgraded]
      exact ih

theorem applyAll_append (first second : List Job) (tree : FileTree) :
    applyAll L resolve (first ++ second) tree = applyAll L resolve second (applyAll L resolve first tree) :=
  List.foldl_append

/-- The replacements that a partial run left are what an uninterrupted run adds to it. -/
theorem applyAll_resume (jobs : List Job) (n : ℕ) (tree : FileTree) :
    applyAll L resolve ((jobs.take n).map (Job.upgraded L) ++ jobs.drop n)
      (applyAll L resolve (jobs.take n) tree) = applyAll L resolve jobs tree := by
  rw [applyAll_append, applyAll_upgraded, ← applyAll_append, List.take_append_drop]

/-! ### Runs over loaded caches -/

/-- A cache that was loaded, with its manifest untouched since.  A value of `serde_json` has no NaN, so
a manifest equals itself, and its keys are strings, so it can be printed. -/
structure Loaded (L : StorageLib) (resolve : Path → Path) (tree : FileTree) (cache : LoadedCache) : Prop where
  path_ne : manifestPath resolve cache ≠ []
  prints : isV2 cache.manifest = true →
    ∃ text, L.json.print (cache.manifest.intoV3 cache.cacheId).toJson = .ok text
  manifest : ∃ bytes, tree.read (manifestPath resolve cache) = some bytes ∧
    parseManifest L bytes = .ok cache.manifest
  cacheId : ∃ position, cache.manifest.resolveCacheId position = .ok cache.cacheId
  word : cache.cacheId < wordSize
  reflexive : Json.sameFields cache.manifest.fields.toFields cache.manifest.fields.toFields = true

/-- The manifest of a loaded cache, upgraded. -/
def upgrade (cache : LoadedCache) : Manifest := cache.manifest.intoV3 cache.cacheId

/-- The complete serialization of the upgraded manifest. -/
def upgradeText (L : StorageLib) (cache : LoadedCache) : Bytes :=
  match L.json.print (upgrade cache).toJson with
  | .ok text => text
  | .error _ => []

/-- The replacement of the manifest of a legacy cache. -/
def migrate (L : StorageLib) (resolve : Path → Path) (tree : FileTree) (cache : LoadedCache) : FileTree :=
  if isV2 cache.manifest then tree.write (manifestPath resolve cache) (upgradeText L cache) else tree

/-- A tree in which the legacy manifests of some caches are replaced, and nothing else is different. -/
def migrated (L : StorageLib) (resolve : Path → Path) (caches : List LoadedCache) (tree : FileTree) : FileTree :=
  caches.foldl (migrate L resolve) tree

/-- The entry that a target gets when all goes well. -/
def entryOf (resolve : Path → Path) (cache : LoadedCache) : UpdateEntry :=
  ⟨manifestPath resolve cache, cache.cacheId, if isV2 cache.manifest then .updated else .unchanged⟩

def unchangedEntry (resolve : Path → Path) (cache : LoadedCache) : UpdateEntry :=
  ⟨manifestPath resolve cache, cache.cacheId, .unchanged⟩

/-- The floats of a legacy manifest, ratios of shards and application fields, are parsed back from
their printed form as the same numbers. -/
def Stable (L : StorageLib) (cache : LoadedCache) : Prop :=
  isV2 cache.manifest = true → Json.exactFields L.json.reread (upgrade cache).fields.toFields = true

/-- The jobs of loaded caches. -/
def Original (jobs : List Job) : Prop := ∀ job ∈ jobs, job.current = job.cache.manifest

theorem applyAll_original : ∀ {jobs : List Job}, Original jobs → ∀ tree : FileTree,
    applyAll L resolve jobs tree = migrated L resolve (jobs.map Job.cache) tree
  | [], _, _ => rfl
  | job :: jobs, h, tree => by
      obtain ⟨hjob, hjobs⟩ := List.forall_mem_cons.mp h
      have hone : job.apply L resolve tree = migrate L resolve tree job.cache := by
        simp only [Job.apply, migrate, Job.text, upgradeText, upgrade, hjob]
        rfl
      rw [applyAll, List.foldl_cons, hone]
      exact applyAll_original hjobs _

theorem entry_original {jobs : List Job} (h : Original jobs) :
    jobs.map (Job.entry resolve) = (jobs.map Job.cache).map (entryOf resolve) := by
  rw [List.map_map]
  refine List.map_congr_left fun job hjob => ?_
  simp only [Job.entry, entryOf, Function.comp_apply, h job hjob]
  rfl

theorem entry_upgraded (jobs : List Job) :
    (jobs.map (Job.upgraded L)).map (Job.entry resolve) = (jobs.map Job.cache).map (unchangedEntry resolve) := by
  rw [List.map_map, List.map_map]
  refine List.map_congr_left fun job _ => ?_
  simp only [Function.comp_apply, Job.entry, Job.upgraded_isV2, Job.upgraded_path, Job.upgraded_cache,
    unchangedEntry]
  rfl

theorem exists_jobs {tree : FileTree} : ∀ {caches : List LoadedCache},
    (∀ cache ∈ caches, Loaded L resolve tree cache) →
    ∃ jobs, jobs.map Job.cache = caches ∧ Original jobs ∧ ∀ job ∈ jobs, job.Holds L resolve tree
  | [], _ => ⟨[], rfl, by simp [Original], by simp⟩
  | cache :: caches, h => by
      obtain ⟨hcache, hcaches⟩ := List.forall_mem_cons.mp h
      obtain ⟨bytes, hread, hparse⟩ := hcache.manifest
      obtain ⟨jobs, hmap, horiginal, hholds⟩ := exists_jobs hcaches
      refine ⟨⟨cache, bytes, cache.manifest⟩ :: jobs, by rw [List.map_cons, hmap], ?_, ?_⟩
      · exact List.forall_mem_cons.mpr ⟨rfl, horiginal⟩
      · exact List.forall_mem_cons.mpr ⟨⟨⟨hcache.path_ne, hcache.prints⟩, hread, hparse⟩, hholds⟩

theorem Loaded.replaceable {tree : FileTree} {job : Job} (h : Loaded L resolve tree job.cache)
    (hcurrent : job.current = job.cache.manifest) : job.Replaceable L resolve := by
  refine ⟨h.path_ne, ?_⟩
  rw [hcurrent]
  exact h.prints

theorem accepted_original {tree : FileTree} {job : Job} (h : Loaded L resolve tree job.cache)
    (hcurrent : job.current = job.cache.manifest) : job.Accepted := by
  obtain ⟨position, hid⟩ := h.cacheId
  have hself := h.reflexive
  unfold Job.Accepted checkCurrent
  rw [hcurrent]
  cases hm : job.cache.manifest with
  | v2 fields =>
      rw [hm] at hself
      simp [identityChanged, isV2, hself]
  | v3 id fields =>
      rw [hm] at hself hid
      cases hid
      simp [identityChanged, isV2, Manifest.intoV3, hself]
  | v4 id fields =>
      rw [hm] at hself hid
      cases hid
      simp [identityChanged, isV2, Manifest.intoV3, hself]

/-- The upgraded manifest passes the checks against the loaded one if its floats are read back
exactly. -/
theorem accepted_upgraded {tree : FileTree} {job : Job} (h : Loaded L resolve tree job.cache)
    (hcurrent : job.current = job.cache.manifest) : (job.upgraded L).Accepted ↔ Stable L job.cache := by
  unfold Job.upgraded Stable
  cases hv : isV2 job.current with
  | false =>
      rw [hcurrent] at hv
      simp only [hv, Bool.false_eq_true, if_false, false_implies, iff_true]
      exact accepted_original h hcurrent
  | true =>
      obtain ⟨bytes, -, hparse⟩ := h.manifest
      obtain ⟨j, -, hm⟩ := bind_eq_ok hparse
      have hwell := wellFormed_intoV3 (Manifest.wellFormed_of_ofJson hm) h.word
      have hsame := sameFields_reread_fields hwell L.json.reread
      rw [hcurrent] at hv
      rw [hcurrent]
      simp only [hv, if_true, true_implies]
      unfold Job.Accepted checkCurrent
      have hidentity : identityChanged ((job.cache.manifest.intoV3 job.cache.cacheId).reread L.json.reread)
          job.cache.cacheId = false := by
        cases hm : job.cache.manifest with
        | v2 fields => simp [Manifest.intoV3, Manifest.reread, identityChanged]
        | v3 id fields => simp [hm, isV2] at hv
        | v4 id fields => simp [hm, isV2] at hv
      simp only [hidentity, isV2_reread, isV2_intoV3, hsame, Bool.false_eq_true, if_false, Bool.and_false, upgrade]
      cases Json.exactFields L.json.reread (job.cache.manifest.intoV3 job.cache.cacheId).fields.toFields <;> simp

/-! ### Resuming -/

section resume

variable (L resolve pid) (caches : List LoadedCache) (st : DiskState)

/-- What can be done after a run that began with `st` and left `after`. -/
structure Resumes (after : DiskState) : Prop where
  /-- A rerun without faults succeeds. -/
  succeeds : ∃ entries, (updateWithHook L resolve pid caches 3 noFaults after).2 = .ok entries
  /-- It leaves the files of an uninterrupted run. -/
  same_files : (updateWithHook L resolve pid caches 3 noFaults after).1.1.tree =
    (updateWithHook L resolve pid caches 3 noFaults st).1.1.tree
  /-- One more changes nothing. -/
  settled : (updateWithHook L resolve pid caches 3 noFaults
      (updateWithHook L resolve pid caches 3 noFaults after).1).2 = .ok (caches.map (unchangedEntry resolve)) ∧
    (updateWithHook L resolve pid caches 3 noFaults
      (updateWithHook L resolve pid caches 3 noFaults after).1).1.1.tree =
        (updateWithHook L resolve pid caches 3 noFaults after).1.1.tree
  /-- Every cache keeps its identity, at every position. -/
  identity : ∀ cache ∈ caches, ∀ position, ∃ bytes manifest,
    (updateWithHook L resolve pid caches 3 noFaults after).1.1.tree.read (manifestPath resolve cache) =
        some bytes ∧
      parseManifest L bytes = .ok manifest ∧ manifest.resolveCacheId position = .ok cache.cacheId

/-- A run that is refused before anything is changed, or replaces the legacy manifests of a prefix, says
so and can be resumed. -/
def SafeRun (version : ℕ) (faults : Faults) : Prop :=
  ((version ≠ 3 ∨ ∃ error, preflight L resolve faults st.1.tree 0 [] [] caches = .error error) ∧
    (updateWithHook L resolve pid caches version faults st).1 = st ∧
    ∃ error, (updateWithHook L resolve pid caches version faults st).2 = .error error ∧ error.entries = []) ∨
  ∃ n ≤ caches.length,
    (updateWithHook L resolve pid caches version faults st).1.1.tree =
        migrated L resolve (caches.take n) st.1.tree ∧
      Ended [] (caches.map (entryOf resolve)) n (updateWithHook L resolve pid caches version faults st).2 ∧
      Resumes L resolve pid caches st (updateWithHook L resolve pid caches version faults st).1

end resume

section runs

variable {caches : List LoadedCache} {st : DiskState}

theorem preflight_error_entries {faults : Faults} {tree : FileTree} {error : UpdateError} :
    ∀ {caches : List LoadedCache} {i : ℕ} {paths : List Path} {ids : List ℕ},
    preflight L resolve faults tree i paths ids caches = .error error → error.entries = []
  | [], _, _, _, h => by cases h
  | cache :: rest, i, paths, ids, h => by
      simp only [preflight] at h
      split at h
      · cases h
        rfl
      · rename_i target _
        cases hrest : preflight L resolve faults tree (i + 1) (target.path :: paths) (target.cacheId :: ids)
            rest with
        | error error' =>
            rw [hrest] at h
            cases h
            exact preflight_error_entries hrest
        | ok targets =>
            rw [hrest] at h
            cases h

variable (pid) in
theorem updateWithHook_planned {jobs : List Job} {st : DiskState}
    (hplanned : Planned L resolve st.1.tree [] [] jobs) (hpath : ∀ job ∈ jobs, job.Replaceable L resolve) :
    (updateWithHook L resolve pid (jobs.map Job.cache) 3 noFaults st).1.1.tree =
        applyAll L resolve jobs st.1.tree ∧
      (updateWithHook L resolve pid (jobs.map Job.cache) 3 noFaults st).2 =
        .ok (jobs.map (Job.entry resolve)) := by
  obtain ⟨htree, hresult⟩ := updateTargets_noFaults pid jobs 0 st [] (hplanned.ready hpath)
  unfold updateWithHook
  rw [if_neg (by simp), preflight_noFaults hplanned]
  exact ⟨htree, by simpa using hresult⟩

variable (pid) in
/-- A run that is stopped says so, and which targets it has replaced. -/
theorem updateWithHook_stopped {jobs : List Job} {st : DiskState} (hplanned : Planned L resolve st.1.tree [] [] jobs)
    (hpath : ∀ job ∈ jobs, job.Replaceable L resolve) {n : ℕ} {job : Job} (hjob : jobs[n]? = some job)
    (error : CacheError) :
    (updateWithHook L resolve pid (jobs.map Job.cache) 3 (stopAt n error) st).1.1.tree =
        applyAll L resolve (jobs.take n) st.1.tree ∧
      (updateWithHook L resolve pid (jobs.map Job.cache) 3 (stopAt n error) st).2 =
        .error
          { path := some (job.path resolve)
            message := error.toString
            entries := (jobs.take n).map (Job.entry resolve) } := by
  have hstopped := updateTargets_stopped pid error 0 [] (hplanned.ready hpath) hjob
  rw [Nat.zero_add, List.nil_append] at hstopped
  have hpreflight : preflight L resolve (stopAt n error) st.1.tree 0 [] [] (jobs.map Job.cache) =
      preflight L resolve noFaults st.1.tree 0 [] [] (jobs.map Job.cache) := by
    refine preflight_congr _ (fun i point hpoint => if_neg fun hboth => ?_) _ _ _ _
    rw [hboth.2] at hpoint
    simp at hpoint
  unfold updateWithHook
  rw [if_neg (by simp), hpreflight, preflight_noFaults hplanned]
  exact hstopped

theorem exists_plan (hloaded : ∀ cache ∈ caches, Loaded L resolve st.1.tree cache)
    (hpaths : (caches.map (manifestPath resolve)).Nodup) (hids : (caches.map LoadedCache.cacheId).Nodup) :
    ∃ jobs, jobs.map Job.cache = caches ∧ Original jobs ∧ Planned L resolve st.1.tree [] [] jobs ∧
      ∀ job ∈ jobs, Loaded L resolve st.1.tree job.cache := by
  obtain ⟨jobs, rfl, horiginal, hholds⟩ := exists_jobs hloaded
  have hloaded' : ∀ job ∈ jobs, Loaded L resolve st.1.tree job.cache := fun job hjob =>
    hloaded job.cache (List.mem_map_of_mem hjob)
  refine ⟨jobs, rfl, horiginal, ⟨fun job hjob => (hholds job hjob).read, fun job hjob => (hholds job hjob).parse,
    fun job hjob => accepted_original (hloaded' job hjob) (horiginal job hjob), ?_, ?_,
    fun _ _ => ⟨List.not_mem_nil, List.not_mem_nil⟩⟩, hloaded'⟩
  · rw [List.map_map] at hpaths
    exact hpaths
  · rw [List.map_map] at hids
    exact hids

/-- Whatever got through the preflight is the plan. -/
theorem planned_of_preflight (hloaded : ∀ cache ∈ caches, Loaded L resolve st.1.tree cache) {faults : Faults}
    {targets : List Target} (h : preflight L resolve faults st.1.tree 0 [] [] caches = .ok targets) :
    ∃ jobs, jobs.map Job.cache = caches ∧ targets = jobs.map (Job.target L resolve) ∧ Original jobs ∧
      Planned L resolve st.1.tree [] [] jobs := by
  obtain ⟨jobs, rfl, htargets, hplanned⟩ := preflight_ok h
  refine ⟨jobs, rfl, htargets, fun job hjob => ?_, hplanned⟩
  obtain ⟨bytes, hread, hparse⟩ := (hloaded job.cache (List.mem_map_of_mem hjob)).manifest
  have hbytes : job.bytes = bytes := Option.some.inj ((hplanned.read job hjob).symm.trans hread)
  have hparse' := hplanned.parse job hjob
  rw [hbytes, hparse] at hparse'
  exact (Except.ok.inj hparse').symm

theorem resolve_upgraded {tree : FileTree} {job : Job} (h : Loaded L resolve tree job.cache)
    (hcurrent : job.current = job.cache.manifest) (position : ℕ) :
    (job.upgraded L).current.resolveCacheId position = .ok job.cache.cacheId := by
  obtain ⟨original, hid⟩ := h.cacheId
  unfold Job.upgraded
  rw [hcurrent]
  cases hm : job.cache.manifest with
  | v2 fields =>
      rw [if_pos (by rfl)]
      rfl
  | v3 id fields =>
      rw [hm] at hid
      rw [if_neg (by simp [isV2]), hcurrent, hm]
      exact hid
  | v4 id fields =>
      rw [hm] at hid
      rw [if_neg (by simp [isV2]), hcurrent, hm]
      exact hid

/-- **Any prefix of the replacements can be resumed.** -/
theorem resumes_of_stable (hL : L.json.Lawful) {jobs : List Job} (horiginal : Original jobs)
    (hplanned : Planned L resolve st.1.tree [] [] jobs)
    (hloaded : ∀ job ∈ jobs, Loaded L resolve st.1.tree job.cache)
    (hstable : ∀ job ∈ jobs, Stable L job.cache) (n : ℕ) {after : DiskState}
    (hafter : after.1.tree = applyAll L resolve (jobs.take n) st.1.tree) :
    Resumes L resolve pid (jobs.map Job.cache) st after := by
  have hgood : ∀ job ∈ jobs, job.Replaceable L resolve ∧ job.cache.cacheId < wordSize ∧
      (job.upgraded L).Accepted :=
    fun job hjob => ⟨(hloaded job hjob).replaceable (horiginal job hjob), (hloaded job hjob).word,
      (accepted_upgraded (hloaded job hjob) (horiginal job hjob)).mpr (hstable job hjob)⟩
  have hmixed : ∀ m, (((jobs.take m).map (Job.upgraded L) ++ jobs.drop m).map Job.cache) = jobs.map Job.cache := by
    intro m
    rw [List.map_append, List.map_map, show Job.cache ∘ Job.upgraded L = Job.cache from
      funext Job.upgraded_cache, ← List.map_append, List.take_append_drop]
  -- the plan of a rerun: what was replaced is upgraded, the rest is as before
  have hrun : ∀ (m : ℕ) (s : DiskState), s.1.tree = applyAll L resolve (jobs.take m) st.1.tree →
      (updateWithHook L resolve pid (jobs.map Job.cache) 3 noFaults s).1.1.tree =
          applyAll L resolve jobs st.1.tree ∧
        (updateWithHook L resolve pid (jobs.map Job.cache) 3 noFaults s).2 =
          .ok (((jobs.take m).map (Job.upgraded L) ++ jobs.drop m).map (Job.entry resolve)) := by
    intro m s hs
    have hadvanced := Planned.advance hL m (show Planned L resolve st.1.tree [] [] ([] ++ jobs) from hplanned) hgood
    rw [← hs, List.nil_append] at hadvanced
    have hpath : ∀ job ∈ (jobs.take m).map (Job.upgraded L) ++ jobs.drop m, job.Replaceable L resolve := by
      intro job hjob
      rcases List.mem_append.mp hjob with hjob | hjob
      · obtain ⟨old, hold, rfl⟩ := List.mem_map.mp hjob
        exact Job.replaceable_upgraded (hgood old (List.mem_of_mem_take hold)).1
      · exact (hgood job (List.mem_of_mem_drop hjob)).1
    obtain ⟨htree, hresult⟩ := updateWithHook_planned pid hadvanced hpath
    rw [hmixed m, hs, applyAll_resume] at htree
    rw [hmixed m] at hresult
    exact ⟨htree, hresult⟩
  obtain ⟨htree, hresult⟩ := hrun n after hafter
  obtain ⟨hwhole, -⟩ := hrun 0 st rfl
  obtain ⟨hagain, hentries⟩ := hrun jobs.length _ (by rw [List.take_length]; exact htree)
  refine ⟨⟨_, hresult⟩, htree.trans hwhole.symm, ⟨?_, hagain.trans htree.symm⟩, ?_⟩
  · rw [List.take_length, List.drop_length, List.append_nil, entry_upgraded] at hentries
    exact hentries
  · intro cache hcache position
    obtain ⟨job, hjob, rfl⟩ := List.mem_map.mp hcache
    have hfull := Planned.advance hL jobs.length (show Planned L resolve st.1.tree [] [] ([] ++ jobs) from hplanned) hgood
    simp only [List.take_length, List.drop_length, List.append_nil, List.nil_append] at hfull
    have hin : job.upgraded L ∈ jobs.map (Job.upgraded L) := List.mem_map_of_mem hjob
    refine ⟨(job.upgraded L).bytes, (job.upgraded L).current, ?_, hfull.parse _ hin,
      resolve_upgraded (hloaded job hjob) (horiginal job hjob) position⟩
    have hread := hfull.read _ hin
    rw [Job.upgraded_path] at hread
    rw [htree]
    exact hread

theorem holds_applyAll {job : Job} : ∀ (jobs : List Job) {tree : FileTree},
    (∀ other ∈ jobs, job.path resolve ≠ other.path resolve) → job.Holds L resolve tree →
    job.Holds L resolve (applyAll L resolve jobs tree)
  | [], _, _, h => h
  | first :: jobs, tree, hne, h => by
      obtain ⟨hfirst, hjobs⟩ := List.forall_mem_cons.mp hne
      exact holds_applyAll jobs hjobs (holds_apply hfirst h)

theorem holds_upgraded_applyAll (hL : L.json.Lawful) : ∀ {jobs : List Job} {tree : FileTree},
    Ready L resolve tree jobs → (∀ job ∈ jobs, job.cache.cacheId < wordSize) →
    ∀ job ∈ jobs, (job.upgraded L).Holds L resolve (applyAll L resolve jobs tree)
  | first :: jobs, tree, hready, hids, job, hjob => by
      obtain ⟨hfirst, hrest⟩ := List.forall_mem_cons.mp hids
      rcases List.mem_cons.mp hjob with rfl | hjob
      · have hnodup := hready.nodup
        rw [List.map_cons, List.nodup_cons] at hnodup
        refine holds_applyAll jobs (fun other hother heq => hnodup.1 ?_)
          (Job.holds_upgraded hL (hready.holds job List.mem_cons_self) hfirst)
        rw [Job.upgraded_path] at heq
        exact heq ▸ List.mem_map_of_mem hother
      · exact holds_upgraded_applyAll hL hready.tail hrest job hjob

/-- A run without faults that can be resumed found all floats unchanged. -/
theorem stable_of_safeRun (hL : L.json.Lawful) (hloaded : ∀ cache ∈ caches, Loaded L resolve st.1.tree cache)
    (hsafe : SafeRun L resolve pid caches st 3 noFaults) (hpaths : (caches.map (manifestPath resolve)).Nodup)
    (hids : (caches.map LoadedCache.cacheId).Nodup) {cache : LoadedCache} (hcache : cache ∈ caches) :
    Stable L cache := by
  obtain ⟨jobs, rfl, horiginal, hplanned, hloaded'⟩ := exists_plan hloaded hpaths hids
  have hpath : ∀ job ∈ jobs, job.Replaceable L resolve := fun job hjob =>
    (hloaded' job hjob).replaceable (horiginal job hjob)
  obtain ⟨htree, -⟩ := updateWithHook_planned pid hplanned hpath
  rcases hsafe with ⟨hrefused, -⟩ | ⟨n, -, -, -, hresumes⟩
  · rcases hrefused with hversion | ⟨error, herror⟩
    · exact absurd rfl hversion
    · rw [preflight_noFaults hplanned] at herror
      cases herror
  · -- the rerun finds the upgraded manifest of the cache and accepts it
    obtain ⟨entries, hentries⟩ := hresumes.succeeds
    obtain ⟨job, hjob, rfl⟩ := List.mem_map.mp hcache
    generalize (updateWithHook L resolve pid (jobs.map Job.cache) 3 noFaults st).1 = after at htree hentries
    unfold updateWithHook at hentries
    rw [if_neg (by simp)] at hentries
    cases hpre : preflight L resolve noFaults after.1.tree 0 [] [] (jobs.map Job.cache) with
    | error error =>
        rw [hpre] at hentries
        cases hentries
    | ok targets =>
        obtain ⟨found, hfound, -, hplanned'⟩ := preflight_ok hpre
        obtain ⟨other, hother, hsame⟩ : ∃ other ∈ found, other.cache = job.cache := by
          have hin : job.cache ∈ found.map Job.cache := hfound ▸ List.mem_map_of_mem hjob
          exact List.mem_map.mp hin
        have hup : (job.upgraded L).Holds L resolve after.1.tree := by
          rw [htree]
          exact holds_upgraded_applyAll hL (hplanned.ready hpath)
            (fun job hjob => (hloaded' job hjob).word) job hjob
        have hbytes : other.bytes = (job.upgraded L).bytes := by
          have hread := hplanned'.read other hother
          have hpaths' : other.path resolve = (job.upgraded L).path resolve := by
            rw [Job.upgraded_path, Job.path, hsame, Job.path]
          rw [hpaths', hup.read] at hread
          exact (Option.some.inj hread).symm
        have hcurrent : other.current = (job.upgraded L).current := by
          have hparse := hplanned'.parse other hother
          rw [hbytes, hup.parse] at hparse
          exact (Except.ok.inj hparse).symm
        refine (accepted_upgraded (hloaded' job hjob) (horiginal job hjob)).mp ?_
        have haccepted := hplanned'.accepted other hother
        unfold Job.Accepted at haccepted ⊢
        rw [Job.upgraded_cache, ← hsame, ← hcurrent]
        exact haccepted

theorem safeRun_of_stable (hL : L.json.Lawful) (hloaded : ∀ cache ∈ caches, Loaded L resolve st.1.tree cache)
    (hcondition : (caches.map (manifestPath resolve)).Nodup → (caches.map LoadedCache.cacheId).Nodup →
      ∀ cache ∈ caches, Stable L cache) (version : ℕ) (faults : Faults) :
    SafeRun L resolve pid caches st version faults := by
  unfold SafeRun
  by_cases hversion : version = 3
  · subst hversion
    cases hpre : preflight L resolve faults st.1.tree 0 [] [] caches with
    | error error =>
        refine .inl ⟨.inr ⟨error, rfl⟩, ?_⟩
        unfold updateWithHook
        rw [if_neg (by simp), hpre]
        exact ⟨rfl, error, rfl, preflight_error_entries hpre⟩
    | ok targets =>
        obtain ⟨jobs, rfl, rfl, horiginal, hplanned⟩ := planned_of_preflight hloaded hpre
        have hloaded' : ∀ job ∈ jobs, Loaded L resolve st.1.tree job.cache := fun job hjob =>
          hloaded job.cache (List.mem_map_of_mem hjob)
        have hstable : ∀ job ∈ jobs, Stable L job.cache := by
          intro job hjob
          refine hcondition ?_ ?_ job.cache (List.mem_map_of_mem hjob)
          · rw [List.map_map]
            exact hplanned.nodup
          · rw [List.map_map]
            exact hplanned.nodup_ids
        have hready := hplanned.ready fun job hjob => (hloaded' job hjob).replaceable (horiginal job hjob)
        obtain ⟨n, hn, htree, hended⟩ := updateTargets_spec pid faults jobs 0 st [] hready
        have hrun : updateWithHook L resolve pid (jobs.map Job.cache) 3 faults st =
            updateTargets L pid faults 0 st [] (jobs.map (Job.target L resolve)) := by
          unfold updateWithHook
          rw [if_neg (by simp), hpre]
        have htake : Original (jobs.take n) := fun job hjob => horiginal job (List.mem_of_mem_take hjob)
        rw [hrun]
        refine .inr ⟨n, by simpa using hn, ?_, ?_, ?_⟩
        · rw [htree, applyAll_original htake, List.map_take]
        · rw [← entry_original horiginal]
          exact hended
        · exact resumes_of_stable hL horiginal hplanned hloaded' hstable n htree
  · refine .inl ⟨.inl hversion, ?_⟩
    unfold updateWithHook
    rw [if_pos hversion]
    exact ⟨rfl, _, rfl, rfl⟩

/-- **Migration is atomic, a prefix and resumable** exactly when it is refused for a repeated target or
the floats of all legacy manifests survive printing. -/
theorem resumable_iff (hL : L.json.Lawful) (hloaded : ∀ cache ∈ caches, Loaded L resolve st.1.tree cache) :
    (∀ version faults, SafeRun L resolve pid caches st version faults) ↔
      ((caches.map (manifestPath resolve)).Nodup → (caches.map LoadedCache.cacheId).Nodup →
        ∀ cache ∈ caches, Stable L cache) :=
  ⟨fun hsafe hpaths hids _ hcache => stable_of_safeRun hL hloaded (hsafe 3 noFaults) hpaths hids hcache,
    safeRun_of_stable hL hloaded⟩

end runs

/-! ### Three caches -/

namespace OldCaches

/-- A library function on the inputs that it is called with. -/
noncomputable def among {α β : Type} : List (α × β) → α → Except String β
  | [], _ => .error "unexpected input"
  | (a, b) :: rest, x => open Classical in if x = a then .ok b else among rest x

theorem among_eq_ok {α β : Type} {x : α} {y : β} : ∀ {table : List (α × β)}, among table x = .ok y → (x, y) ∈ table
  | [], h => by cases h
  | (a, b) :: rest, h => by
      unfold among at h
      split_ifs at h with heq
      · cases h
        rw [heq]
        exact List.mem_cons_self
      · exact List.mem_cons_of_mem _ (among_eq_ok h)

theorem among_of_mem {α β : Type} {a : α} {b : β} :
    ∀ {table : List (α × β)}, (table.map Prod.fst).Nodup → (a, b) ∈ table → among table a = .ok b
  | (a', b') :: rest, hnodup, h => by
      obtain ⟨hnot, hrest⟩ := List.nodup_cons.mp hnodup
      unfold among
      rcases List.mem_cons.mp h with heq | hmem
      · cases heq
        exact if_pos rfl
      · have hin := List.mem_map_of_mem (f := Prod.fst) hmem
        have hne : a ≠ a' := by
          rintro rfl
          exact hnot hin
        rw [if_neg hne]
        exact among_of_mem hrest hmem

/-- An empty object and a payload of one byte. -/
def record (payload : UInt8) : Bytes := Bytes.ofNatLe 8 2 ++ [123, 125, payload]

def index : Bytes := indexBytes [⟨0, 0, 11⟩]

/-- The digest of the six bytes that stand for the Arrow file. -/
def metadataSha256 : String := "8773de5d50357048ecce427d6c74916c16103e2ec1af9df530d124f46d4cc52b"

def indexSha256 : String := "87899221d41db40eabf57375ec069a27d97fc1f60214cea7448c398f93e773a3"

/-- The digest of the shard with the record of a payload. -/
def shardSha256 (payload : UInt8) : String :=
  if payload = 7 then "757a634782af68a197d943c0a04f104aae6e4d97cac9ffb29d4e85eb3c76a42b"
  else if payload = 8 then "90014baafc9510419e48d89483d0b25dceb94c8b8752be507258ed7e12a1d16a"
  else "4a43ba77c4c5c20ff261e09dd58263dff737cc7579f5196367919c6d60fb137a"

def fields (name : String) (payload : UInt8) (compression : ShardCompression) (extra : FieldMap) : ManifestFields where
  sourceName := name
  sampleCount := 1
  metadataSchema := []
  metadataSha256
  indexSha256
  shards := [⟨"000000.bin", 11, 11, compression, shardSha256 payload⟩]
  extra

/-- The text that `to_writer_pretty` writes, with the fields that depend on the version and the application fields. -/
def text (version name : String) (payload : UInt8) (compression extra : String) : Bytes :=
  ("\x7b\n  \"format_version\": " ++ version ++ ",\n  \"source_name\": \"" ++ name ++
    "\",\n  \"sample_count\": 1,\n  \"metadata_schema\": [],\n  \"metadata_sha256\": \"" ++ metadataSha256 ++
    "\",\n  \"index_sha256\": \"" ++ indexSha256 ++
    "\",\n  \"shards\": [\n    \x7b\n      \"name\": \"000000.bin\",\n      \"uncompressed_byte_len\": 11,\n" ++
    "      \"byte_len\": 11,\n      \"compression\": \x7b\n        \"algo\": \"none\",\n        " ++ compression ++
    "\n      \x7d,\n      \"sha256\": \"" ++ shardSha256 payload ++ "\"\n    \x7d\n  ]" ++ extra ++
    "\n\x7d").toUTF8.data.toList

/-- A legacy cache with an application field. -/
def first : LoadedCache :=
  ⟨0, .v2 (fields "a" 7 (.legacy .none 1.0) ((∅ : FieldMap).insert "scale" (.num (.float 0.5)))), none, ⟨index⟩,
    ["base", "a"], false⟩

/-- A cache of today, whose identity is the digest of its name. -/
def second : LoadedCache :=
  ⟨4477677635727087946, .v4 4477677635727087946 (fields "b" 8 .none ∅), none, ⟨index⟩, ["base", "b"], false⟩

/-- Another legacy cache. -/
def third : LoadedCache := ⟨2, .v2 (fields "c" 9 (.legacy .none 1.0) ∅), none, ⟨index⟩, ["base", "c"], false⟩

def caches : List LoadedCache := [first, second, third]

def firstText : Bytes := text "2" "a" 7 "\"ratio\": 1.0" ",\n  \"scale\": 0.5"

def firstUpgraded : Bytes := text "3,\n  \"cache_id\": 0" "a" 7 "\"ratio\": 1.0" ",\n  \"scale\": 0.5"

def secondText : Bytes := text "4,\n  \"cache_id\": 4477677635727087946" "b" 8 "\"mode\": \"none\"" ""

def thirdText : Bytes := text "2" "c" 9 "\"ratio\": 1.0" ""

def thirdUpgraded : Bytes := text "3,\n  \"cache_id\": 2" "c" 9 "\"ratio\": 1.0" ""

/-- The bytes of a number that is written in hexadecimal digits. -/
def digest (n : ℕ) : Bytes := (Bytes.ofNatLe 32 n).reverse

/-- The digests of the manifests. -/
def sha256 (bytes : Bytes) : Bytes :=
  if bytes = firstText then digest 0xfbe2a6fd57df124c35ff8b266edecdb9df4f34442a208b3950a6a165c460acab
  else if bytes = firstUpgraded then digest 0x06280c264872f9c8115e879c66dd1c2537f03f3f8bf8c26864ba42ac15c10a54
  else if bytes = secondText then digest 0x46d3e61a04bde6170e950342492e60215dbb052d82e4c5a09481e18882a6eb9d
  else if bytes = thirdText then digest 0x535309070611a383d570c59e24cf4dffe2a34210bf4d65dd269fb709648b1f1a
  else digest 0x3f97e0b135552248d8cf9329639e24cdbc11802d88840bbe52564b375e448053

/-- The manifests are printed and parsed; a record holds an empty object. -/
noncomputable def lib : StorageLib :=
  { TwoShards.lib with
    json :=
      { print := among [((upgrade first).toJson, firstUpgraded), ((upgrade third).toJson, thirdUpgraded)]
        parse := among [(firstText, first.manifest.toJson), (secondText, second.manifest.toJson),
          (thirdText, third.manifest.toJson), (firstUpgraded, (upgrade first).toJson.reread id),
          (thirdUpgraded, (upgrade third).toJson.reread id)]
        reread := id
        describe := fun _ => "" }
    decodeObject := fun bytes => if bytes = [123, 125] then .ok ∅ else .error ""
    sha256 }

theorem nodup_texts : [firstText, secondText, thirdText, firstUpgraded, thirdUpgraded].Nodup := by
  decide +kernel

theorem lawful_lib : lib.json.Lawful where
  parse_print := fun j printed h => by
    have hmem := among_eq_ok h
    refine among_of_mem nodup_texts ?_
    simp only [List.mem_cons, List.not_mem_nil, or_false, Prod.mk.injEq] at hmem ⊢
    rcases hmem with ⟨rfl, rfl⟩ | ⟨rfl, rfl⟩
    · exact .inr (.inr (.inr (.inl ⟨rfl, rfl⟩)))
    · exact .inr (.inr (.inr (.inr ⟨rfl, rfl⟩)))
  reread_pos := fun f hf hpos => ⟨hf, hpos⟩
  reread_one := fun f _ hone => hone

/-- The files of one cache. -/
def store (disk : Disk) (name : String) (manifest : Bytes) (payload : UInt8) : Disk :=
  (((disk.write ["base", name, "manifest.json"] manifest).write ["base", name, "index.bin"] index).write
    ["base", name, "metadata.arrow"] TwoShards.arrowBytes).write ["base", name, "shards", "000000.bin"]
      (record payload)

def disk : Disk :=
  let none : Disk := ⟨FileTree.empty, by simp [FileTree.Finite, FileTree.empty]⟩
  store (store (store none "a" firstText 7) "b" secondText 8) "c" thirdText 9

theorem parse_first : parseManifest lib firstText = .ok first.manifest := by
  have hparse : lib.json.parse firstText = .ok first.manifest.toJson := among_of_mem nodup_texts (by simp)
  simp only [parseManifest, hparse, jsonResult, bind, Except.bind]
  rfl

theorem parse_second : parseManifest lib secondText = .ok second.manifest := by
  have hparse : lib.json.parse secondText = .ok second.manifest.toJson := among_of_mem nodup_texts (by simp)
  simp only [parseManifest, hparse, jsonResult, bind, Except.bind]
  rfl

theorem parse_third : parseManifest lib thirdText = .ok third.manifest := by
  have hparse : lib.json.parse thirdText = .ok third.manifest.toJson := among_of_mem nodup_texts (by simp)
  simp only [parseManifest, hparse, jsonResult, bind, Except.bind]
  rfl

theorem prints_first : lib.json.print (upgrade first).toJson = .ok firstUpgraded := if_pos rfl

theorem prints_third : lib.json.print (upgrade third).toJson = .ok thirdUpgraded := by
  refine among_of_mem ?_ (List.mem_cons_of_mem _ List.mem_cons_self)
  have hne : (upgrade first).toJson ≠ (upgrade third).toJson := fun heq => by
    injection heq with hfields
    simp [first, third] at hfields
  simpa using hne

theorem loaded : ∀ cache ∈ caches, Loaded lib id disk.tree cache := by
  simp only [caches, List.forall_mem_cons, List.not_mem_nil, false_implies, implies_true, and_true]
  refine ⟨?_, ?_, ?_⟩
  · exact ⟨by decide, fun _ => ⟨_, prints_first⟩, ⟨firstText, rfl, parse_first⟩, ⟨0, rfl⟩, by decide, rfl⟩
  · exact ⟨by decide, fun h => absurd h (by decide), ⟨secondText, rfl, parse_second⟩, ⟨0, rfl⟩, by decide, rfl⟩
  · exact ⟨by decide, fun _ => ⟨_, prints_third⟩, ⟨thirdText, rfl, parse_third⟩, ⟨2, rfl⟩, by decide, rfl⟩

theorem stable : ∀ cache ∈ caches, Stable lib cache := by
  simp only [caches, List.forall_mem_cons, List.not_mem_nil, false_implies, implies_true, and_true]
  exact ⟨fun _ => rfl, fun h => absurd h (by decide), fun _ => rfl⟩

theorem planned : ∃ a b c : Job, [a, b, c].map Job.cache = caches ∧ Original [a, b, c] ∧
    Planned lib id ((disk, 0) : DiskState).1.tree [] [] [a, b, c] ∧ ∀ job ∈ [a, b, c], job.Replaceable lib id := by
  obtain ⟨jobs, hjobs, horiginal, hplanned, hloaded⟩ := exists_plan
    (show ∀ cache ∈ caches, Loaded lib id ((disk, 0) : DiskState).1.tree cache from loaded) (by decide) (by decide)
  have hreplaceable : ∀ job ∈ jobs, job.Replaceable lib id := fun job hjob =>
    (hloaded job hjob).replaceable (horiginal job hjob)
  obtain ⟨a, rest, rfl, -, hrest⟩ := List.map_eq_cons_iff.mp hjobs
  obtain ⟨b, rest, rfl, -, hrest⟩ := List.map_eq_cons_iff.mp hrest
  obtain ⟨c, rest, rfl, -, hrest⟩ := List.map_eq_cons_iff.mp hrest
  obtain rfl := List.map_eq_nil_iff.mp hrest
  exact ⟨a, b, c, hjobs, horiginal, hplanned, hreplaceable⟩

end OldCaches

open OldCaches in
/-- Three caches of two versions, whose floats are printed exactly: the third target fails, and every run can be
resumed. -/
theorem resumable_three_caches : (∀ version faults, SafeRun lib id 1 caches (disk, 0) version faults) ∧
    (updateWithHook lib id 1 caches 3 (stopAt 2 (.io "disk full")) (disk, 0)).2 =
      .error
        { path := some ["base", "c", "manifest.json"]
          message := "I/O error: disk full"
          entries := [⟨["base", "a", "manifest.json"], 0, .updated⟩,
            ⟨["base", "b", "manifest.json"], 4477677635727087946, .unchanged⟩] } := by
  refine ⟨(resumable_iff lawful_lib loaded).mpr fun _ _ => stable, ?_⟩
  obtain ⟨a, b, c, hjobs, horiginal, hplanned, hreplaceable⟩ := planned
  obtain ⟨-, hresult⟩ := updateWithHook_stopped 1 hplanned hreplaceable (show [a, b, c][2]? = some c from rfl)
    (.io "disk full")
  have hentries : [a, b].map (Job.entry id) = ([a, b].map Job.cache).map (entryOf id) :=
    entry_original fun job hjob => horiginal job (List.mem_of_mem_take (i := 2) hjob)
  obtain ⟨ha, hb, hc⟩ : a.cache = first ∧ b.cache = second ∧ c.cache = third := by simpa [caches] using hjobs
  rw [hjobs] at hresult
  rw [hresult, show [a, b, c].take 2 = [a, b] from rfl, hentries, List.map_cons, List.map_singleton, ha, hb, Job.path, hc]
  rfl

/-! ### A legacy manifest with an application field -/

namespace Scaled

open OldCaches (among among_eq_ok among_of_mem digest store)

/-- What `serde_json` reads for `1.3451212742372644e-09`. -/
def scale : Float := 1.3451212742372642e-9

open Classical in
/-- The field is printed with all its digits, whose quotient by a power of ten is rounded to the float below. -/
noncomputable def reread (f : Float) : Float := if f = scale then 1.345121274237264e-9 else f

/-- A legacy manifest with the application field `scale`. -/
def manifest : Manifest :=
  .v2 (OldCaches.fields "a" 7 (.legacy .none 1.0) ((∅ : FieldMap).insert "scale" (.num (.float scale))))

def cache : LoadedCache := { OldCaches.first with manifest }

def legacyText : Bytes := OldCaches.text "2" "a" 7 "\"ratio\": 1.0" ",\n  \"scale\": 1.3451212742372644e-09"

def text : Bytes :=
  OldCaches.text "3,\n  \"cache_id\": 0" "a" 7 "\"ratio\": 1.0" ",\n  \"scale\": 1.3451212742372642e-9"

noncomputable def lib : StorageLib :=
  { OldCaches.lib with
    json :=
      { print := among [((upgrade cache).toJson, text)]
        parse := among [(legacyText, manifest.toJson), (text, (upgrade cache).toJson.reread reread)]
        reread
        describe := fun _ => "" }
    sha256 := fun bytes =>
      if bytes = legacyText then digest 0x915fda307e798aab3302b9efa2b34eee392a48a8d3420e5aa12c7509f75cae19
      else digest 0x5a79124c9712574f3657410fa17e1ec3dbea3f6420f841400a3dd7bc779a6d1d }

theorem nodup_texts : [legacyText, text].Nodup := by decide +kernel

theorem lawful_lib : lib.json.Lawful where
  parse_print := fun j printed h => by
    have hmem := among_eq_ok h
    obtain ⟨rfl, rfl⟩ : j = (upgrade cache).toJson ∧ printed = text := by simpa using hmem
    exact among_of_mem nodup_texts (List.mem_cons_of_mem _ List.mem_cons_self)
  reread_pos := fun f hf hpos => by
    simp only [lib, reread]
    split_ifs
    · decide +kernel
    · exact ⟨hf, hpos⟩
  reread_one := fun f _ hone => by
    simp only [lib, reread]
    split_ifs with heq
    · rw [heq] at hone
      revert hone
      decide +kernel
    · exact hone

def disk : Disk := store ⟨FileTree.empty, by simp [FileTree.Finite, FileTree.empty]⟩ "a" legacyText 7

theorem loaded : ∀ loaded ∈ [cache], Loaded lib id disk.tree loaded := by
  have hparse : lib.json.parse legacyText = .ok manifest.toJson := among_of_mem nodup_texts List.mem_cons_self
  have hmanifest : parseManifest lib legacyText = .ok manifest := by
    simp only [parseManifest, hparse, jsonResult, bind, Except.bind]
    rfl
  exact List.forall_mem_singleton.mpr
    ⟨by decide, fun _ => ⟨text, if_pos rfl⟩, ⟨legacyText, rfl, hmanifest⟩, ⟨0, rfl⟩, by decide, rfl⟩

theorem reread_scale : reread scale = 1.345121274237264e-9 := if_pos rfl

theorem exactFields_append (r : Float → Float) : ∀ first second : List (String × Json),
    Json.exactFields r (first ++ second) = (Json.exactFields r first && Json.exactFields r second)
  | [], _ => rfl
  | (_, j) :: first, second => by
      simp only [List.cons_append, Json.exactFields, exactFields_append r first second, Bool.and_assoc]

theorem not_stable : ¬ Stable lib cache := by
  intro hstable
  have hexact := hstable rfl
  have hextra : (upgrade cache).fields.extra.toList = [("scale", .num (.float scale))] := rfl
  rw [ManifestFields.toFields, exactFields_append, hextra] at hexact
  have hscale : (scale == reread scale) = true := by
    simp only [Json.exactFields, Json.exact, Bool.and_eq_true] at hexact
    exact hexact.2.1.2
  rw [reread_scale] at hscale
  revert hscale
  decide +kernel

end Scaled

/-- The field is printed and parsed as another number, and the rerun takes the manifest for a changed one. -/
theorem rerun_refused :
    (∀ cache ∈ [Scaled.cache], Loaded Scaled.lib id Scaled.disk.tree cache) ∧
    ¬ ∀ version faults, SafeRun Scaled.lib id 1 [Scaled.cache] (Scaled.disk, 0) version faults := by
  refine ⟨Scaled.loaded, fun hsafe => Scaled.not_stable ?_⟩
  exact stable_of_safeRun Scaled.lawful_lib Scaled.loaded (hsafe 3 noFaults) (by simp) (by simp) List.mem_cons_self

end DatasetRt.Migration
