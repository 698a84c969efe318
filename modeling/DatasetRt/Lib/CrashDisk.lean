import DatasetRt.Lib.FileTree

/-! # Disks that can crash

A disk is a file tree together with its symbolic links and the files whose content need not have reached it yet.
Changes of names take effect at once and in the order in which they are made; `Crash d left` says that `left` can be
found after a crash: whatever was not synchronised can hold anything, or be gone.  An operation that the system
refuses is `none`.

A link is followed by `writeText` and `sync`, not by `createNew`, `replace` and `unlink`. -/

namespace DatasetRt

structure CrashDisk where
  tree : FileTree
  /-- Where a symbolic link leads. -/
  links : Path → Option Path
  /-- The files that a crash can damage. -/
  unsynced : List Path
  links_free : ∀ p, links p ≠ none → tree p = none
  unsynced_file : ∀ p ∈ unsynced, ∃ bytes, tree p = some (.file bytes)

namespace CrashDisk

/-- The end of a chain of at most so many links. -/
def follow (d : CrashDisk) : ℕ → Path → Option Path
  | 0, p => if d.links p = none then some p else none
  | limit + 1, p =>
      match d.links p with
      | none => some p
      | some q => follow d limit q

/-- A longer chain is an error. -/
def maxLinks : ℕ := 40

/-- `Path.exists`: a link to nothing does not exist. -/
def pathExists (d : CrashDisk) (p : Path) : Bool :=
  match d.follow maxLinks p with
  | some q => d.tree.pathExists q
  | none => false

/-- `Path.is_file`. -/
def isFile (d : CrashDisk) (p : Path) : Bool :=
  match d.follow maxLinks p with
  | some q => (d.tree.read q).isSome
  | none => false

/-- What a crash can leave. -/
def Crash (d : CrashDisk) (left : FileTree) : Prop := ∀ p ∉ d.unsynced, left p = d.tree p

theorem links_of_follow {d : CrashDisk} : ∀ {limit : ℕ} {p q : Path}, d.follow limit p = some q → d.links q = none
  | 0, p, q, h => by
      rw [follow] at h
      split_ifs at h with hlink
      cases h
      exact hlink
  | limit + 1, p, q, h => by
      rw [follow] at h
      cases hlink : d.links p with
      | none =>
          rw [hlink] at h
          cases h
          exact hlink
      | some next =>
          rw [hlink] at h
          exact links_of_follow h

theorem follow_of_free {d : CrashDisk} {p : Path} (h : d.links p = none) (limit : ℕ) : d.follow limit p = some p := by
  cases limit with
  | zero => exact if_pos h
  | succ limit => rw [follow, h]

/-! ### Operations -/

/-- A file of the given content, in place of what the tree has there. -/
def put (d : CrashDisk) (p : Path) (bytes : Bytes) (hlink : d.links p = none) : CrashDisk where
  tree := d.tree.write p bytes
  links := d.links
  unsynced := p :: d.unsynced
  links_free q hq := by
    have hne : q ≠ p := fun heq => hq (heq ▸ hlink)
    simpa [FileTree.write, hne] using d.links_free q hq
  unsynced_file q hq := by
    by_cases heq : q = p
    · exact ⟨bytes, by simp [FileTree.write, heq]⟩
    · obtain ⟨content, hcontent⟩ := d.unsynced_file q ((List.mem_cons.mp hq).resolve_left heq)
      exact ⟨content, by simpa [FileTree.write, heq] using hcontent⟩

/-- A file under a name that is free. -/
def createNew (d : CrashDisk) (p : Path) (bytes : Bytes) : Option CrashDisk :=
  if h : d.links p = none ∧ d.tree p = none ∧ d.tree p.dropLast = some .dir then some (d.put p bytes h.1) else none

/-- `Path.write_text`: the file is created or cut, and filled. -/
def writeText (d : CrashDisk) (p : Path) (bytes : Bytes) : Option CrashDisk :=
  match h : d.follow maxLinks p with
  | some q =>
      if d.tree q.dropLast = some .dir ∧ d.tree q ≠ some .dir then some (d.put q bytes (links_of_follow h)) else none
  | none => none

/-- `fsync` of a file that is opened for it. -/
def sync (d : CrashDisk) (p : Path) : Option CrashDisk :=
  match d.follow maxLinks p with
  | some q =>
      if (d.tree.read q).isSome then
        some { d with
          unsynced := d.unsynced.filter (· ≠ q)
          unsynced_file := fun r hr => d.unsynced_file r (List.mem_of_mem_filter hr) }
      else none
  | none => none

/-- The entry of `source`, with its links and marks, under the name `target`. -/
def move (d : CrashDisk) (source target : Path) : CrashDisk where
  tree := d.tree.renameFile source target
  links q := if q = target then d.links source else if q = source then none else d.links q
  unsynced := (d.unsynced.filter (· ≠ target)).map fun q => if q = source then target else q
  links_free q hq := by
    by_cases htarget : q = target
    · simpa [FileTree.renameFile, htarget] using d.links_free source (by simpa [htarget] using hq)
    · by_cases hsource : q = source
      · rw [if_neg htarget, if_pos hsource] at hq
        exact absurd rfl hq
      · simpa [FileTree.renameFile, FileTree.removeFile, htarget, hsource] using
          d.links_free q (by simpa [htarget, hsource] using hq)
  unsynced_file q hq := by
    obtain ⟨p, hp, rfl⟩ := List.mem_map.mp hq
    obtain ⟨hmem, hne⟩ := List.mem_filter.mp hp
    obtain ⟨bytes, hbytes⟩ := d.unsynced_file p hmem
    by_cases hsource : p = source
    · exact ⟨bytes, by simpa [FileTree.renameFile, hsource] using hsource ▸ hbytes⟩
    · exact ⟨bytes, by simpa [FileTree.renameFile, FileTree.removeFile, hsource, of_decide_eq_true hne] using hbytes⟩

/-- `Path.replace` of a file or link. -/
def replace (d : CrashDisk) (source target : Path) : Option CrashDisk :=
  if (d.links source ≠ none ∨ (d.tree.read source).isSome) ∧ d.tree target ≠ some .dir then some (d.move source target)
  else none

/-- `Path.unlink` where a name that is missing does not matter. -/
def unlink (d : CrashDisk) (p : Path) : CrashDisk where
  tree := d.tree.removeFile p
  links q := if q = p then none else d.links q
  unsynced := d.unsynced.filter (· ≠ p)
  links_free q hq := by
    by_cases heq : q = p
    · simp [heq] at hq
    · simpa [FileTree.removeFile, heq] using d.links_free q (by simpa [heq] using hq)
  unsynced_file q hq := by
    obtain ⟨hmem, hne⟩ := List.mem_filter.mp hq
    obtain ⟨bytes, hbytes⟩ := d.unsynced_file q hmem
    exact ⟨bytes, by simpa [FileTree.removeFile, of_decide_eq_true hne] using hbytes⟩

/-! ### What they do where there are no links -/

variable {d d' : CrashDisk} {p source target : Path} {bytes : Bytes}

theorem createNew_eq_some (h : d.createNew p bytes = some d') :
    ∃ hlink, d.tree p = none ∧ d' = d.put p bytes hlink := by
  unfold createNew at h
  split_ifs at h with hfree
  cases h
  exact ⟨hfree.1, hfree.2.1, rfl⟩

theorem writeText_eq_some (hlink : d.links p = none) (h : d.writeText p bytes = some d') :
    d' = d.put p bytes hlink := by
  unfold writeText at h
  split at h
  · next q hq =>
      obtain rfl : p = q := by rwa [follow_of_free hlink, Option.some.injEq] at hq
      split_ifs at h
      cases h
      rfl
  · cases h

theorem sync_eq_some (hlink : d.links p = none) (h : d.sync p = some d') :
    d'.tree = d.tree ∧ d'.links = d.links ∧ d'.unsynced = d.unsynced.filter (· ≠ p) := by
  rw [sync, follow_of_free hlink] at h
  simp only at h
  split_ifs at h
  cases h
  exact ⟨rfl, rfl, rfl⟩

theorem replace_eq_some (h : d.replace source target = some d') : d' = d.move source target := by
  unfold replace at h
  split_ifs at h
  cases h
  rfl

/-- Nothing but files and marks moves. -/
theorem links_move (hsource : d.links source = none) (htarget : d.links target = none) :
    (d.move source target).links = d.links := by
  funext q
  by_cases hq : q = target
  · simp [move, hq, hsource, htarget]
  · by_cases hq' : q = source
    · have hfree : d.links q = none := hq' ▸ hsource
      rw [hfree]
      exact (if_neg hq).trans (if_pos hq')
    · exact (if_neg hq).trans (if_neg hq')

theorem links_unlink (hlink : d.links p = none) : (d.unlink p).links = d.links := by
  funext q
  by_cases hq : q = p
  · simp [unlink, hq, hlink]
  · simp [unlink, hq]

theorem mem_unsynced_move {q : Path} (hne : q ≠ target) (h : q ∈ (d.move source target).unsynced) :
    q ∈ d.unsynced ∧ q ≠ source := by
  obtain ⟨p, hp, hq⟩ := List.mem_map.mp h
  by_cases hsource : p = source
  · rw [if_pos hsource] at hq
    exact absurd hq.symm hne
  · rw [if_neg hsource] at hq
    subst hq
    exact ⟨List.mem_of_mem_filter hp, hsource⟩

theorem target_not_mem_unsynced_move (h : source ∉ d.unsynced) : target ∉ (d.move source target).unsynced := by
  intro hmem
  obtain ⟨p, hp, hq⟩ := List.mem_map.mp hmem
  obtain ⟨hmem, hne⟩ := List.mem_filter.mp hp
  by_cases hsource : p = source
  · exact h (hsource ▸ hmem)
  · rw [if_neg hsource] at hq
    exact of_decide_eq_true hne hq

end CrashDisk

end DatasetRt
