import DatasetRt.Lib.Bytes

/-! # File trees

A file tree maps paths, as lists of components, to directories and files.  `sub t p` is what
lies at and below `p`, and `graft t p dir` puts a tree there; removing and renaming directories
are special cases, and everything that is not below the named paths stays as it was. -/

namespace DatasetRt

abbrev Path := List String

namespace Path

/-- The components of a relative name; empty ones and `.` do not count. -/
def components (name : String) : List String :=
  ((name.toList.splitOn '/').map String.ofList).filter fun c => c ≠ "" ∧ c ≠ "."

/-- `Path::join`: an absolute name replaces the path. -/
def join (path : Path) (name : String) : Path :=
  if name.toList.head? = some '/' then components name else path ++ components name

/-- `Path::display`. -/
def display (path : Path) : String := "/" ++ "/".intercalate path

theorem not_mem_of_mem_splitOn {a : Char} : ∀ {l part : List Char}, part ∈ l.splitOn a → a ∉ part
  | [], part, h => by
      rw [List.splitOn_nil, List.mem_singleton] at h
      rw [h]
      exact List.not_mem_nil
  | x :: xs, part, h => by
      rw [List.splitOn_cons_eq_if_modifyHead] at h
      obtain ⟨head, tail, hparts⟩ := List.exists_cons_of_ne_nil (List.splitOn_ne_nil a xs)
      have hrest : ∀ part ∈ head :: tail, a ∉ part := fun part hpart => not_mem_of_mem_splitOn (hparts ▸ hpart)
      rw [hparts] at h
      split_ifs at h with hsep
      · rcases List.mem_cons.mp h with rfl | h
        · exact List.not_mem_nil
        · exact hrest part h
      · rw [List.modifyHead_cons] at h
        rcases List.mem_cons.mp h with rfl | h
        · intro hmem
          rcases List.mem_cons.mp hmem with rfl | hmem
          · exact hsep (beq_self_eq_true _)
          · exact hrest head List.mem_cons_self hmem
        · exact hrest part (List.mem_cons_of_mem _ h)

theorem slash_not_mem_component {name c : String} (h : c ∈ components name) : '/' ∉ c.toList := by
  obtain ⟨part, hpart, rfl⟩ := List.mem_map.mp (List.mem_of_mem_filter h)
  rw [String.toList_ofList]
  exact not_mem_of_mem_splitOn hpart

/-- A name that is one component and not the parent. -/
structure Plain (name : String) : Prop where
  slash : '/' ∉ name.toList
  nonempty : name ≠ ""
  current : name ≠ "."
  parent : name ≠ ".."

instance (name : String) : Decidable (Plain name) :=
  decidable_of_iff ('/' ∉ name.toList ∧ name ≠ "" ∧ name ≠ "." ∧ name ≠ "..")
    ⟨fun h => ⟨h.1, h.2.1, h.2.2.1, h.2.2.2⟩, fun h => ⟨h.slash, h.nonempty, h.current, h.parent⟩⟩

/-- A name that is one component. -/
theorem join_of_plain (path : Path) {name : String} (hslash : '/' ∉ name.toList) (hne : name ≠ "")
    (hdot : name ≠ ".") : path.join name = path ++ [name] := by
  have hhead : ¬ name.toList.head? = some '/' := fun h => hslash (List.mem_of_mem_head? h)
  have hsplit : name.toList.splitOn '/' = [name.toList] := by
    apply List.splitOnP_eq_singleton
    intro c hc
    simpa using fun h : c = '/' => hslash (h ▸ hc)
  simp [join, components, hhead, hsplit, hne, hdot]

theorem Plain.join {name : String} (h : Plain name) (path : Path) : path.join name = path ++ [name] :=
  join_of_plain path h.slash h.nonempty h.current

theorem Plain.components {name : String} (h : Plain name) : components name = [name] := by
  have hjoin := h.join []
  have hhead : ¬ name.toList.head? = some '/' := fun hc => h.slash (List.mem_of_mem_head? hc)
  rwa [Path.join, if_neg hhead] at hjoin

theorem plain_of_mem_components {name c : String} (h : c ∈ Path.components name) (hparent : c ≠ "..") : Plain c := by
  have hkept := (List.mem_filter.mp h).2
  rw [decide_eq_true_eq] at hkept
  exact ⟨slash_not_mem_component h, hkept.1, hkept.2, hparent⟩

end Path

inductive Node where
  | dir
  | file (bytes : Bytes)
deriving DecidableEq

/-- `none` where nothing exists. -/
def FileTree := Path → Option Node

namespace FileTree

def empty : FileTree := fun _ => none

/-- `Path::exists`. -/
def pathExists (t : FileTree) (p : Path) : Bool := (t p).isSome

/-- The bytes of a file. -/
def read (t : FileTree) (p : Path) : Option Bytes :=
  match t p with
  | some (.file bytes) => some bytes
  | _ => none

/-- A file is created or replaced. -/
def write (t : FileTree) (p : Path) (bytes : Bytes) : FileTree :=
  fun q => if q = p then some (.file bytes) else t q

/-- File lengths are 64-bit numbers. -/
def Sized (t : FileTree) : Prop := ∀ p bytes, t.read p = some bytes → bytes.length < 2 ^ 64

/-- What lies below `p`. -/
def sub (t : FileTree) (p : Path) : FileTree := fun q => t (p ++ q)

@[simp] theorem read_write_self (t : FileTree) (p : Path) (bytes : Bytes) :
    (t.write p bytes).read p = some bytes := by
  simp [read, write]

theorem read_write_of_ne (t : FileTree) {p q : Path} (h : q ≠ p) (bytes : Bytes) :
    (t.write p bytes).read q = t.read q := by
  simp [read, write, h]

@[simp] theorem read_sub (t : FileTree) (p q : Path) : (t.sub p).read q = t.read (p ++ q) := rfl

/-- A tree put at `p`, in place of what was there. -/
def graft (t : FileTree) (p : Path) (dir : FileTree) : FileTree :=
  fun q => if p <+: q then dir (q.drop p.length) else t q

/-- `fs::remove_dir_all` of a directory that exists. -/
def removeDirAll (t : FileTree) (p : Path) : FileTree := t.graft p empty

/-- `fs::rename` of a directory to a name that is free. -/
def rename (t : FileTree) (source target : Path) : FileTree :=
  (t.removeDirAll source).graft target (t.sub source)

/-- `fs::remove_file`; nothing happens where there is no file. -/
def removeFile (t : FileTree) (p : Path) : FileTree := fun q => if q = p then none else t q

/-- `fs::rename` of a file, over what the target name holds. -/
def renameFile (t : FileTree) (source target : Path) : FileTree :=
  fun q => if q = target then t source else t.removeFile source q

/-- A tree with finitely many names. -/
def Finite (t : FileTree) : Prop := {p | t p ≠ none}.Finite

theorem finite_write {t : FileTree} (h : t.Finite) (p : Path) (bytes : Bytes) : (t.write p bytes).Finite := by
  refine (Set.Finite.insert p h).subset fun q hq => ?_
  by_cases heq : q = p
  · exact .inl heq
  · exact .inr (by simpa [write, heq] using hq)

theorem finite_removeFile {t : FileTree} (h : t.Finite) (p : Path) : (t.removeFile p).Finite := by
  refine h.subset fun q hq => ?_
  by_cases heq : q = p
  · simp [removeFile, heq] at hq
  · simpa [removeFile, heq] using hq

theorem finite_renameFile {t : FileTree} (h : t.Finite) (source target : Path) :
    (t.renameFile source target).Finite := by
  refine (Set.Finite.insert target h).subset fun q hq => ?_
  by_cases heq : q = target
  · exact .inl heq
  · refine .inr fun hnone => hq ?_
    simp [renameFile, removeFile, heq, hnone]

/-- A name that was free is free again once what was written there is removed. -/
theorem removeFile_write {t : FileTree} {p : Path} (h : t p = none) (bytes : Bytes) :
    (t.write p bytes).removeFile p = t := by
  funext q
  by_cases heq : q = p
  · simp [removeFile, heq, h]
  · simp [removeFile, write, heq]

theorem renameFile_write {t : FileTree} {source target : Path} (h : t source = none) (hne : source ≠ target)
    (bytes : Bytes) :
    ((t.write source bytes).renameFile source target).removeFile source = t.write target bytes := by
  funext q
  by_cases hs : q = source
  · subst hs
    simp [removeFile, write, hne, h]
  · by_cases ht : q = target
    · subst ht
      simp [removeFile, renameFile, write, hs]
    · simp [removeFile, renameFile, write, hs, ht]

@[simp] theorem sub_graft (t : FileTree) (p : Path) (dir : FileTree) : (t.graft p dir).sub p = dir := by
  funext q
  simp [sub, graft]

theorem graft_of_not_prefix (t : FileTree) {p q : Path} (h : ¬ p <+: q) (dir : FileTree) :
    t.graft p dir q = t q := if_neg h

theorem sized_empty : empty.Sized := fun _ _ h => by cases h

theorem sized_write {t : FileTree} (ht : t.Sized) (p : Path) {bytes : Bytes} (h : bytes.length < 2 ^ 64) :
    (t.write p bytes).Sized := by
  intro q file hq
  by_cases heq : q = p
  · subst heq
    rw [read_write_self, Option.some.injEq] at hq
    exact hq ▸ h
  · rw [read_write_of_ne t heq] at hq
    exact ht q file hq

theorem sized_graft {t : FileTree} (ht : t.Sized) (p : Path) {dir : FileTree} (h : dir.Sized) :
    (t.graft p dir).Sized := by
  intro q file hq
  by_cases hp : p <+: q
  · have hread : (t.graft p dir).read q = dir.read (q.drop p.length) := by simp [read, graft, hp]
    exact h _ file (hread ▸ hq)
  · have hread : (t.graft p dir).read q = t.read q := by simp [read, graft, hp]
    exact ht q file (hread ▸ hq)

end FileTree

end DatasetRt
