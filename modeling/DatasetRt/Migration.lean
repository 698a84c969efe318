import DatasetRt.CacheRoundTrip

/-! # Manifest migration

`update_with_hook` (`storage/migration.rs`) inspects the manifests of all loaded caches and then
replaces the legacy ones, each through a temporary file that is renamed over it.  Every hook and
every I/O operation can fail; `Faults` says which do.  The disk is part of the result, so what a
failed run leaves is part of the model.

`resolve` is where the symbolic links of a path lead; a migration changes no link.  What a failed
write leaves in the temporary file is not modelled, since the file is removed. -/

namespace DatasetRt

/-- A file system has finitely many names. -/
structure Disk where
  tree : FileTree
  finite : tree.Finite

namespace Disk

def write (d : Disk) (p : Path) (bytes : Bytes) : Disk := ⟨d.tree.write p bytes, FileTree.finite_write d.finite p bytes⟩

def removeFile (d : Disk) (p : Path) : Disk := ⟨d.tree.removeFile p, FileTree.finite_removeFile d.finite p⟩

def renameFile (d : Disk) (source target : Path) : Disk :=
  ⟨d.tree.renameFile source target, FileTree.finite_renameFile d.finite source target⟩

end Disk

namespace Migration

inductive Step where
  | inspect
  | write
  | flush
  | rename
  | directorySync
deriving DecidableEq, Repr

/-- Where a call can fail: the hook of the preflight, the hooks of the update, and its I/O. -/
inductive Point where
  | preflightHook
  | canonicalize
  | preflightRead
  | hook (step : Step)
  | read
  | createTemporary
  | permissions
  | serialize
  | flush
  | syncFile
  | rename
  | syncDirectory
deriving DecidableEq, Repr

/-- The failures of a run, by the number of the target. -/
abbrev Faults := ℕ → Point → Option CacheError

def noFaults : Faults := fun _ _ => none

/-- A hook or an I/O operation that may fail. -/
def attempt (fault : Option CacheError) : CacheResult Unit :=
  match fault with
  | some error => .error error
  | none => .ok ()

inductive Status where
  | updated
  | unchanged
  | durabilityUnknown
deriving DecidableEq, Repr

structure UpdateEntry where
  path : Path
  cacheId : ℕ
  status : Status
deriving DecidableEq, Repr

structure UpdateError where
  path : Option Path
  message : String
  entries : List UpdateEntry
deriving DecidableEq, Repr

structure Target where
  path : Path
  cacheId : ℕ
  digest : Bytes
  needsUpdate : Bool

/-- A legacy manifest. -/
def isV2 : Manifest → Bool
  | .v2 _ => true
  | _ => false

section migration

variable (L : StorageLib) (resolve : Path → Path)

/-- `serde_json::from_slice` of a manifest. -/
def parseManifest (bytes : Bytes) : CacheResult Manifest := do
  let json ← jsonResult (L.json.parse bytes)
  Manifest.ofJson L.json json

/-! ### Preflight -/

/-- The canonical path of the manifest of a cache. -/
def manifestPath (cache : LoadedCache) : Path := resolve (cache.path.join "manifest.json")

/-- `fs::canonicalize` of the manifest of a cache. -/
def canonicalize (tree : FileTree) (cache : LoadedCache) : CacheResult Path :=
  let path := cache.path.join "manifest.json"
  if tree.pathExists (resolve path) then .ok (resolve path) else .error (.io s!"cannot open {path.display}")

/-- The manifest on disk has another identity than the one that was loaded. -/
def identityChanged (current : Manifest) (cacheId : ℕ) : Bool :=
  match current with
  | .v2 _ => false
  | .v3 id _ => id ≠ cacheId
  | .v4 id _ => id ≠ cacheId

/-- The checks of the manifest on disk against the one that was loaded. -/
def checkCurrent (cache : LoadedCache) (current : Manifest) : CacheResult Unit :=
  let expected := if isV2 current then cache.manifest else cache.manifest.intoV3 cache.cacheId
  if identityChanged current cache.cacheId then
    .error (.invalidCache "manifest cache_id changed since dataset construction")
  else if !isV2 cache.manifest && isV2 current then
    .error (.invalidCache "manifest was downgraded since dataset construction")
  else if !Json.sameFields expected.fields.toFields current.fields.toFields then
    .error (.invalidCache "manifest changed since dataset construction")
  else .ok ()

def inspectTarget (faults : Point → Option CacheError) (tree : FileTree) (cache : LoadedCache)
    (paths : List Path) (ids : List ℕ) : CacheResult Target := do
  attempt (faults .canonicalize)
  let path ← canonicalize resolve tree cache
  if path ∈ paths ∨ cache.cacheId ∈ ids then
    .error (.invalidInput "duplicate migration target or cache_id")
  else
    attempt (faults .preflightRead)
    let bytes ← openFile tree path
    let current ← parseManifest L bytes
    checkCurrent cache current
    .ok { path, cacheId := cache.cacheId, digest := L.sha256 bytes, needsUpdate := isV2 current }

/-- `preflight`, from target `i` on. -/
def preflight (faults : Faults) (tree : FileTree) :
    ℕ → List Path → List ℕ → List LoadedCache → Except UpdateError (List Target)
  | _, _, _, [] => .ok []
  | i, paths, ids, cache :: rest =>
      let inspected := do
        attempt (faults i .preflightHook)
        inspectTarget L resolve (faults i) tree cache paths ids
      match inspected with
      | .error error =>
          .error { path := some (cache.path.join "manifest.json"), message := error.toString, entries := [] }
      | .ok target => do
          let targets ← preflight faults tree (i + 1) (target.path :: paths) (target.cacheId :: ids) rest
          .ok (target :: targets)

/-! ### Updating a target -/

/-- `sync_manifest_directory`. -/
def syncManifestDirectory (faults : Point → Option CacheError) (manifest : Path) : CacheResult Unit :=
  if manifest = [] then .error (.invalidInput "manifest has no parent directory")
  else attempt (faults .syncDirectory)

/-- `format!(".dataset-rt-manifest-{pid}-{sequence}.tmp")`. -/
def temporaryName (pid sequence : ℕ) : String :=
  String.ofList (".dataset-rt-manifest-".toList ++ Nat.toDigits 10 pid ++ "-".toList ++
    Nat.toDigits 10 sequence ++ ".tmp".toList)

def temporaryPath (pid : ℕ) (manifest : Path) (sequence : ℕ) : Path :=
  manifest.dropLast ++ [temporaryName pid sequence]

theorem temporaryPath_injective (pid : ℕ) (manifest : Path) :
    Function.Injective (temporaryPath pid manifest) := by
  intro i j h
  have hname : temporaryName pid i = temporaryName pid j := by simpa [temporaryPath] using h
  have hdigits := List.append_cancel_left
    (List.append_cancel_right (String.ofList_injective hname))
  have hread := congrArg (fun l => Nat.ofDigitChars 10 l 0) hdigits
  simpa [Nat.ofDigitChars_ten_toDigits] using hread

/-- The numbers run out of taken names. -/
theorem exists_free (pid : ℕ) (disk : Disk) (manifest : Path) (next : ℕ) :
    ∃ k, next ≤ k ∧ (disk.tree (temporaryPath pid manifest k)).isNone = true := by
  have hinf : (Set.range fun k => temporaryPath pid manifest (next + k)).Infinite :=
    Set.infinite_range_of_injective fun i j h => Nat.add_left_cancel (temporaryPath_injective pid manifest h)
  obtain ⟨p, ⟨k, rfl⟩, hfree⟩ := (hinf.sdiff disk.finite).nonempty
  exact ⟨next + k, Nat.le_add_right _ _, by simpa using hfree⟩

/-- `create_temporary`, but for the choice of the name. -/
def createTemporary (faults : Point → Option CacheError) (manifest : Path) : CacheResult Unit :=
  if manifest = [] then .error (.invalidInput "manifest has no parent directory")
  else attempt (faults .createTemporary)

/-- The loop of `create_temporary`: the first number from `next` on whose name is free. -/
def freeSequence (pid : ℕ) (disk : Disk) (manifest : Path) (next : ℕ) : ℕ :=
  Nat.find (exists_free pid disk manifest next)

/-- What is decided before a temporary file is made: nothing to do, or the new manifest. -/
def reinspect (faults : Point → Option CacheError) (tree : FileTree) (target : Target) :
    CacheResult (Option Manifest) := do
  attempt (faults (.hook .inspect))
  attempt (faults .read)
  let bytes ← openFile tree target.path
  if L.sha256 bytes ≠ target.digest then .error (.invalidCache "manifest changed during migration")
  else if !target.needsUpdate then
    syncManifestDirectory faults target.path
    .ok none
  else
    let manifest ← parseManifest L bytes
    .ok (some (manifest.intoV3 target.cacheId))

/-- The text of the new manifest, once it is on disk under the temporary name. -/
def stagedText (faults : Point → Option CacheError) (manifest : Manifest) : CacheResult Bytes := do
  attempt (faults .permissions)
  attempt (faults (.hook .write))
  attempt (faults .serialize)
  let text ← jsonResult (L.json.print manifest.toJson)
  attempt (faults (.hook .flush))
  attempt (faults .flush)
  attempt (faults .syncFile)
  attempt (faults (.hook .rename))
  attempt (faults .rename)
  .ok text

/-- From the temporary file to the synced directory, and whether the manifest was replaced. -/
def replaceManifest (faults : Point → Option CacheError) (disk : Disk) (temporary path : Path)
    (manifest : Manifest) : Disk × Except (CacheError × Bool) Status :=
  match stagedText L faults manifest with
  | .error error => (disk.write temporary [], .error (error, false))
  | .ok text =>
      let disk := (disk.write temporary text).renameFile temporary path
      let synced := do
        attempt (faults (.hook .directorySync))
        syncManifestDirectory faults path
      match synced with
      | .error error => (disk, .error (error, true))
      | .ok () => (disk, .ok .updated)

/-- A disk and the counter of temporary names. -/
abbrev DiskState := Disk × ℕ

/-- `update_target`; dropping the temporary file removes its name. -/
def updateTarget (pid : ℕ) (faults : Point → Option CacheError) (st : DiskState) (target : Target) :
    DiskState × Except (CacheError × Bool) Status :=
  match reinspect L faults st.1.tree target with
  | .error error => (st, .error (error, false))
  | .ok none => (st, .ok .unchanged)
  | .ok (some manifest) =>
      let sequence := freeSequence pid st.1 target.path st.2
      let temporary := temporaryPath pid target.path sequence
      match createTemporary faults target.path with
      | .error error => ((st.1, sequence + 1), .error (error, false))
      | .ok () =>
          let replaced := replaceManifest L faults st.1 temporary target.path manifest
          ((replaced.1.removeFile temporary, sequence + 1), replaced.2)

/-- The loop over the targets, from target `i` on. -/
def updateTargets (pid : ℕ) (faults : Faults) :
    ℕ → DiskState → List UpdateEntry → List Target → DiskState × Except UpdateError (List UpdateEntry)
  | _, st, entries, [] => (st, .ok entries)
  | i, st, entries, target :: rest =>
      match updateTarget L pid (faults i) st target with
      | (st, .ok status) =>
          updateTargets pid faults (i + 1) st (entries ++ [⟨target.path, target.cacheId, status⟩]) rest
      | (st, .error (error, replaced)) =>
          let entries :=
            if replaced then entries ++ [⟨target.path, target.cacheId, .durabilityUnknown⟩] else entries
          (st, .error { path := some target.path, message := error.toString, entries })

def updateWithHook (pid : ℕ) (caches : List LoadedCache) (version : ℕ) (faults : Faults) (st : DiskState) :
    DiskState × Except UpdateError (List UpdateEntry) :=
  if version ≠ 3 then
    (st, .error
      { path := none
        message := s!"unsupported manifest migration target {version}; expected 3"
        entries := [] })
  else
    match preflight L resolve faults st.1.tree 0 [] [] caches with
    | .error error => (st, .error error)
    | .ok targets => updateTargets L pid faults 0 st [] targets

end migration

end Migration

end DatasetRt
