import DatasetRt.Lib.FileTree

/-! # Buffered files on a disk that fails

Every I/O operation of a program has a number, and `faults` says which of them fail; a write that
fails leaves a proper part of its bytes in the file.  A program is a function `IoM ε α` of the disk
that ends at the first error, so the disk of a failed run is not described.  Only an error that is
dropped is followed further: `BufWriter.drop` flushes and forgets the outcome.

`Performs m t n v t'` says that the program `m`, begun on the tree `t`, does exactly `n` operations
and ends with the value `v` on `t'` if none of them fails, and that it ends with an error if one of
them does.  It composes along `>>=`, so the number of operations of a long program and the effect of a
failure come out together. -/

namespace DatasetRt

/-- How much of a failing write reached the disk, and its error. -/
structure Fault (ε : Type) where
  written : ℕ
  error : ε

/-- The failures of a run, by the number of the operation. -/
abbrev Faults (ε : Type) := ℕ → Option (Fault ε)

/-- A disk, and the number of operations done so far. -/
structure Io where
  tree : FileTree
  operations : ℕ

/-- A program that uses the disk and may end with an error. -/
abbrev IoM (ε α : Type) := Io → Except ε (α × Io)

namespace IoM

variable {ε α β : Type}

def pure (v : α) : IoM ε α := fun io => .ok (v, io)

def throw (error : ε) : IoM ε α := fun _ => .error error

def bind (m : IoM ε α) (f : α → IoM ε β) : IoM ε β := fun io =>
  match m io with
  | .ok (v, io) => f v io
  | .error error => .error error

/-- A computation without I/O. -/
def lift (result : Except ε α) : IoM ε α := fun io => result.map fun v => (v, io)

end IoM

namespace FileTree

/-- Bytes at the end of a file. -/
def append (t : FileTree) (p : Path) (data : Bytes) : FileTree := t.write p ((t.read p).getD [] ++ data)

theorem write_write (t : FileTree) (p : Path) (a b : Bytes) : (t.write p a).write p b = t.write p b := by
  funext q
  by_cases h : q = p <;> simp [write, h]

theorem write_comm (t : FileTree) {p q : Path} (hne : p ≠ q) (a b : Bytes) :
    (t.write p a).write q b = (t.write q b).write p a := by
  funext r
  by_cases hp : r = p
  · subst hp
    simp [write, hne]
  · by_cases hq : r = q
    · subst hq
      simp [write, hp]
    · simp [write, hp, hq]

theorem write_of_read {t : FileTree} {p : Path} {bytes : Bytes} (h : t.read p = some bytes) :
    t.write p bytes = t := by
  funext q
  by_cases hq : q = p
  · subst hq
    unfold read at h
    cases ht : t q with
    | none => simp [ht] at h
    | some node =>
        cases node with
        | dir => simp [ht] at h
        | file data =>
            simp only [ht, Option.some.injEq] at h
            simp [write, h]
  · simp [write, hq]

theorem append_write (t : FileTree) (p : Path) (a b : Bytes) : (t.write p a).append p b = t.write p (a ++ b) := by
  rw [append, read_write_self, Option.getD_some, write_write]

/-- A file is not what it should be if a part is missing. -/
theorem write_inj {t : FileTree} {p : Path} {a b : Bytes} (h : t.write p a = t.write p b) : a = b := by
  have hread := congrArg (fun tree : FileTree => tree.read p) h
  simpa using hread

end FileTree

/-! ### Operations -/

namespace Io

variable {ε : Type} (faults : Faults ε)

/-- `File::create`. -/
def create (path : Path) : IoM ε Unit := fun io =>
  match faults io.operations with
  | none => .ok ((), ⟨io.tree.write path [], io.operations + 1⟩)
  | some fault => .error fault.error

/-- An operation that makes directories. -/
def makeDirs (dirs : FileTree) : IoM ε Unit := fun io =>
  match faults io.operations with
  | none => .ok ((), ⟨dirs, io.operations + 1⟩)
  | some fault => .error fault.error

/-- `File::write_all`; without all of the bytes if it fails. -/
def tryWrite (path : Path) (data : Bytes) (io : Io) : Io × Option ε :=
  match faults io.operations with
  | none => (⟨io.tree.append path data, io.operations + 1⟩, none)
  | some fault => (⟨io.tree.append path (data.dropLast.take fault.written), io.operations + 1⟩, some fault.error)

def writeAll (path : Path) (data : Bytes) : IoM ε Unit := fun io =>
  match tryWrite faults path data io with
  | (io, none) => .ok ((), io)
  | (_, some error) => .error error

/-- The bytes of a file that is read back. -/
def readBack (path : Path) : IoM ε Bytes := fun io =>
  match faults io.operations with
  | none => .ok ((io.tree.read path).getD [], ⟨io.tree, io.operations + 1⟩)
  | some fault => .error fault.error

end Io

/-- `std::io::BufWriter` on a file. -/
structure BufWriter where
  path : Path
  buffer : Bytes

namespace BufWriter

variable {ε : Type} (faults : Faults ε)

def capacity : ℕ := 8192

def new (path : Path) : BufWriter := ⟨path, []⟩

/-- `flush_buf`, which is all that `flush` does on a file. -/
def flush (w : BufWriter) : IoM ε BufWriter :=
  if w.buffer = [] then IoM.pure w
  else (Io.writeAll faults w.path w.buffer).bind fun _ => IoM.pure { w with buffer := [] }

/-- `write_all`: what does not fit goes to the file, after what was buffered before it. -/
def write (w : BufWriter) (data : Bytes) : IoM ε BufWriter :=
  if data.length < capacity - w.buffer.length then IoM.pure { w with buffer := w.buffer ++ data }
  else
    (if capacity - w.buffer.length < data.length then w.flush faults else IoM.pure w).bind fun w =>
      if capacity ≤ data.length then (Io.writeAll faults w.path data).bind fun _ => IoM.pure w
      else IoM.pure { w with buffer := w.buffer ++ data }

/-- Pieces that are written one after the other. -/
def writes (w : BufWriter) : List Bytes → IoM ε BufWriter
  | [] => IoM.pure w
  | data :: rest => (w.write faults data).bind fun w => w.writes rest

/-- `Drop`: a last flush, whose error is ignored. -/
def drop (w : BufWriter) : IoM ε Unit := fun io =>
  if w.buffer = [] then .ok ((), io) else .ok ((), (Io.tryWrite faults w.path w.buffer io).1)

end BufWriter

/-! ### What a program does when nothing fails -/

/-- None of the `n` operations from number `a` on fails. -/
def Clear {ε : Type} (faults : Faults ε) (a n : ℕ) : Prop := ∀ k < n, faults (a + k) = none

/-- `m` does `n` operations on `t`; it ends with `v` on `t'` exactly if none of them fails. -/
structure Performs {ε α : Type} (m : Faults ε → IoM ε α) (t : FileTree) (n : ℕ) (v : α) (t' : FileTree) : Prop where
  clear : ∀ faults a, Clear faults a n → m faults ⟨t, a⟩ = .ok (v, ⟨t', a + n⟩)
  disturbed : ∀ faults a, ¬ Clear faults a n → ∃ error, m faults ⟨t, a⟩ = .error error

/-- `m` ends with an error, whether or not an operation fails. -/
def Fails {ε α : Type} (m : Faults ε → IoM ε α) (t : FileTree) : Prop :=
  ∀ faults a, ∃ error, m faults ⟨t, a⟩ = .error error

namespace Performs

variable {ε α β : Type} {m : Faults ε → IoM ε α} {f : Faults ε → α → IoM ε β} {t t' t'' : FileTree}
  {n n' : ℕ} {v : α} {v' : β}

theorem clear_zero (faults : Faults ε) (a : ℕ) : Clear faults a 0 := fun _ h => absurd h (Nat.not_lt_zero _)

theorem clear_add {faults : Faults ε} {a : ℕ} :
    Clear faults a (n + n') ↔ Clear faults a n ∧ Clear faults (a + n) n' := by
  constructor
  · intro h
    refine ⟨fun k hk => h k (by omega), fun k hk => ?_⟩
    rw [Nat.add_assoc]
    exact h (n + k) (by omega)
  · rintro ⟨h, h'⟩ k hk
    rcases Nat.lt_or_ge k n with hlt | hge
    · exact h k hlt
    · have := h' (k - n) (by omega)
      rwa [show a + n + (k - n) = a + k by omega] at this

theorem of_pure (v : α) (t : FileTree) : Performs (ε := ε) (fun _ => IoM.pure v) t 0 v t where
  clear _ _ _ := rfl
  disturbed faults a h := absurd (clear_zero faults a) h

theorem of_lift {result : Except ε α} (h : result = .ok v) (t : FileTree) :
    Performs (fun _ => IoM.lift result) t 0 v t where
  clear _ _ _ := by rw [h]; rfl
  disturbed faults a hnot := absurd (clear_zero faults a) hnot

/-- **Programs in sequence.** -/
theorem bind (hm : Performs m t n v t') (hf : Performs (fun faults => f faults v) t' n' v' t'') :
    Performs (fun faults => (m faults).bind (f faults)) t (n + n') v' t'' where
  clear faults a h := by
    obtain ⟨h₁, h₂⟩ := clear_add.mp h
    simp only [IoM.bind, hm.clear faults a h₁, hf.clear faults (a + n) h₂, Nat.add_assoc]
  disturbed faults a h := by
    by_cases h₁ : Clear faults a n
    · have h₂ : ¬ Clear faults (a + n) n' := fun h₂ => h (clear_add.mpr ⟨h₁, h₂⟩)
      obtain ⟨error, herror⟩ := hf.disturbed faults (a + n) h₂
      exact ⟨error, by simp only [IoM.bind, hm.clear faults a h₁, herror]⟩
    · obtain ⟨error, herror⟩ := hm.disturbed faults a h₁
      exact ⟨error, by simp only [IoM.bind, herror]⟩

theorem bind_pure (hm : Performs m t n v t') (g : α → β) :
    Performs (fun faults => (m faults).bind fun x => IoM.pure (g x)) t n (g v) t' :=
  hm.bind (f := fun _ x => IoM.pure (g x)) (.of_pure _ _)

/-- What follows a program that works may still fail for another reason. -/
theorem bind_fails (hm : Performs m t n v t') (hf : Fails (fun faults => f faults v) t') :
    Fails (fun faults => (m faults).bind (f faults)) t := by
  intro faults a
  by_cases h : Clear faults a n
  · obtain ⟨error, herror⟩ := hf faults (a + n)
    exact ⟨error, by simp only [IoM.bind, hm.clear faults a h, herror]⟩
  · obtain ⟨error, herror⟩ := hm.disturbed faults a h
    exact ⟨error, by simp only [IoM.bind, herror]⟩

theorem fails_bind (hm : Fails m t) : Fails (fun faults => (m faults).bind (f faults)) t := by
  intro faults a
  obtain ⟨error, herror⟩ := hm faults a
  exact ⟨error, by simp only [IoM.bind, herror]⟩

theorem fails_throw (error : ε) (t : FileTree) : Fails (α := α) (fun _ => IoM.throw error) t :=
  fun _ _ => ⟨error, rfl⟩

theorem fails_lift {result : Except ε α} {error : ε} (h : result = .error error) (t : FileTree) :
    Fails (fun _ => IoM.lift result) t :=
  fun _ _ => ⟨error, by rw [h]; rfl⟩

theorem clear_one {faults : Faults ε} {a : ℕ} : Clear faults a 1 ↔ faults a = none := by
  constructor
  · intro h
    simpa using h 0 Nat.zero_lt_one
  · intro h k hk
    obtain rfl : k = 0 := by omega
    exact h

theorem create (path : Path) (t : FileTree) :
    Performs (ε := ε) (fun faults => Io.create faults path) t 1 () (t.write path []) where
  clear faults a h := by simp only [Io.create, clear_one.mp h]
  disturbed faults a h := by
    cases hf : faults a with
    | none => exact absurd (clear_one.mpr hf) h
    | some fault => exact ⟨fault.error, by simp only [Io.create, hf]⟩

theorem makeDirs (dirs t : FileTree) : Performs (ε := ε) (fun faults => Io.makeDirs faults dirs) t 1 () dirs where
  clear faults a h := by simp only [Io.makeDirs, clear_one.mp h]
  disturbed faults a h := by
    cases hf : faults a with
    | none => exact absurd (clear_one.mpr hf) h
    | some fault => exact ⟨fault.error, by simp only [Io.makeDirs, hf]⟩

theorem writeAll (path : Path) (data : Bytes) (t : FileTree) :
    Performs (ε := ε) (fun faults => Io.writeAll faults path data) t 1 () (t.append path data) where
  clear faults a h := by simp only [Io.writeAll, Io.tryWrite, clear_one.mp h]
  disturbed faults a h := by
    cases hf : faults a with
    | none => exact absurd (clear_one.mpr hf) h
    | some fault => exact ⟨fault.error, by simp only [Io.writeAll, Io.tryWrite, hf]⟩

theorem readBack {path : Path} {bytes : Bytes} (h : t.read path = some bytes) :
    Performs (ε := ε) (fun faults => Io.readBack faults path) t 1 bytes t where
  clear faults a hc := by simp only [Io.readBack, clear_one.mp hc, h, Option.getD_some]
  disturbed faults a hn := by
    cases hf : faults a with
    | none => exact absurd (clear_one.mpr hf) hn
    | some fault => exact ⟨fault.error, by simp only [Io.readBack, hf]⟩

end Performs

/-! ### Buffered writers -/

/-- The file of `w` holds a part of `handed` and the buffer of `w` the rest; the other files are those of
`base`. -/
def BufWriter.Holds (w : BufWriter) (base : FileTree) (handed : Bytes) (t : FileTree) : Prop :=
  ∃ flushed, t = base.write w.path flushed ∧ flushed ++ w.buffer = handed

namespace BufWriter

variable {ε : Type} {w : BufWriter} {base t : FileTree} {handed : Bytes}

theorem holds_new (path : Path) (base : FileTree) : (new path).Holds base [] (base.write path []) :=
  ⟨[], rfl, rfl⟩

/-- After a flush everything is in the file. -/
theorem flush_performs (h : w.Holds base handed t) : ∃ n,
    Performs (fun faults : Faults ε => w.flush faults) t n { w with buffer := [] } (base.write w.path handed) := by
  obtain ⟨flushed, rfl, rfl⟩ := h
  unfold flush
  by_cases hempty : w.buffer = []
  · refine ⟨0, ?_⟩
    simp only [hempty, if_true, List.append_nil]
    have hw : w = { w with buffer := [] } := by rw [← hempty]
    rw [hw]
    exact .of_pure _ _
  · refine ⟨1, ?_⟩
    simp only [hempty, if_false]
    have hwrite := Performs.writeAll (ε := ε) w.path w.buffer (base.write w.path flushed)
    rw [FileTree.append_write] at hwrite
    exact hwrite.bind_pure fun _ => { w with buffer := [] }

/-- A write hands its bytes to the writer. -/
theorem write_performs (h : w.Holds base handed t) (data : Bytes) : ∃ n w' t',
    Performs (fun faults : Faults ε => w.write faults data) t n w' t' ∧ w'.path = w.path ∧
      w'.Holds base (handed ++ data) t' := by
  obtain ⟨flushed, rfl, rfl⟩ := h
  have hpush : ({ w with buffer := w.buffer ++ data } : BufWriter).Holds base (flushed ++ w.buffer ++ data)
      (base.write w.path flushed) := ⟨flushed, rfl, by rw [List.append_assoc]⟩
  unfold write
  by_cases hfits : data.length < capacity - w.buffer.length
  · refine ⟨0, { w with buffer := w.buffer ++ data }, base.write w.path flushed, ?_, rfl, hpush⟩
    simp only [hfits, if_true]
    exact .of_pure _ _
  · simp only [hfits, if_false]
    -- the writer after the flush, if there is one
    have hflush : ∃ n w' flushed', w'.path = w.path ∧ flushed' ++ w'.buffer = flushed ++ w.buffer ∧
        (capacity ≤ data.length → w'.buffer = []) ∧
        Performs (ε := ε)
          (fun faults => if capacity - w.buffer.length < data.length then w.flush faults else IoM.pure w)
          (base.write w.path flushed) n w' (base.write w'.path flushed') := by
      by_cases hfull : capacity - w.buffer.length < data.length
      · obtain ⟨n, hn⟩ := flush_performs (ε := ε) (w := w) ⟨flushed, rfl, rfl⟩
        refine ⟨n, { w with buffer := [] }, flushed ++ w.buffer, rfl, List.append_nil _, fun _ => rfl, ?_⟩
        simp only [hfull, if_true]
        exact hn
      · refine ⟨0, w, flushed, rfl, rfl, fun hlong => ?_, ?_⟩
        · refine List.eq_nil_of_length_eq_zero ?_
          have : 0 < capacity := by decide
          omega
        · simp only [hfull, if_false]
          exact .of_pure _ _
    obtain ⟨n, w', flushed', hpath, hsame, hnil, hperforms⟩ := hflush
    by_cases hlong : capacity ≤ data.length
    · have hwrite := Performs.writeAll (ε := ε) w'.path data (base.write w'.path flushed')
      rw [FileTree.append_write] at hwrite
      refine ⟨n + (1 + 0), w', base.write w'.path (flushed' ++ data), hperforms.bind ?_, hpath, flushed' ++ data, rfl, ?_⟩
      · simp only [hlong, if_true]
        exact hwrite.bind (.of_pure _ _)
      · rw [hnil hlong, List.append_nil] at hsame ⊢
        rw [hsame]
    · refine ⟨n + 0, { w' with buffer := w'.buffer ++ data }, base.write w'.path flushed', hperforms.bind ?_, hpath,
        flushed', rfl, ?_⟩
      · simp only [hlong, if_false]
        exact .of_pure _ _
      · rw [← List.append_assoc, hsame]

theorem writes_performs : ∀ (pieces : List Bytes) {w : BufWriter} {handed : Bytes} {t : FileTree},
    w.Holds base handed t → ∃ n w' t',
      Performs (fun faults : Faults ε => w.writes faults pieces) t n w' t' ∧ w'.path = w.path ∧
        w'.Holds base (handed ++ pieces.flatten) t'
  | [], w, handed, t, h => ⟨0, w, t, .of_pure _ _, rfl, by rwa [List.flatten_nil, List.append_nil]⟩
  | data :: rest, w, handed, t, h => by
      obtain ⟨n, w₁, t₁, hone, hpath₁, hholds₁⟩ := write_performs (ε := ε) h data
      obtain ⟨n', w₂, t₂, hrest, hpath₂, hholds₂⟩ := writes_performs rest hholds₁
      refine ⟨n + n', w₂, t₂, hone.bind hrest, hpath₂.trans hpath₁, ?_⟩
      rwa [List.flatten_cons, ← List.append_assoc]

theorem file_performs (path : Path) (pieces : List Bytes) (base : FileTree) : ∃ n w,
    Performs (fun faults : Faults ε => (Io.create faults path).bind fun _ =>
      ((new path).writes faults pieces).bind fun w => w.flush faults) base n w (base.write path pieces.flatten) := by
  obtain ⟨n, w, t, hwrites, hpath, hholds⟩ := writes_performs (ε := ε) pieces (holds_new path base)
  obtain ⟨n', hflush⟩ := flush_performs (ε := ε) hholds
  rw [hpath, List.nil_append] at hflush
  exact ⟨_, _, (Performs.create path base).bind (hwrites.bind hflush)⟩

/-- **A drop loses what its flush could not write**: the file is complete exactly if the buffer was empty
or the write succeeds. -/
theorem drop_complete_iff (h : w.Holds base handed t) (faults : Faults ε) (a : ℕ) {io : Io}
    (hdrop : w.drop faults ⟨t, a⟩ = .ok ((), io)) :
    io.tree = base.write w.path handed ↔ w.buffer = [] ∨ faults a = none := by
  obtain ⟨flushed, rfl, rfl⟩ := h
  unfold drop at hdrop
  by_cases hempty : w.buffer = []
  · simp only [hempty, if_true, Except.ok.injEq, Prod.mk.injEq, true_and] at hdrop
    subst hdrop
    simp [hempty]
  · simp only [hempty, if_false, Except.ok.injEq, Prod.mk.injEq, true_and] at hdrop
    subst hdrop
    simp only [hempty, false_or, Io.tryWrite]
    cases hf : faults a with
    | none => simp only [FileTree.append_write]
    | some fault =>
        simp only [reduceCtorEq, iff_false, FileTree.append_write]
        intro heq
        -- at least the last byte is missing
        have hlen := congrArg List.length (FileTree.write_inj heq)
        have hpos := List.length_pos_iff.mpr hempty
        simp only [List.length_append, List.length_take, List.length_dropLast] at hlen
        omega

/-- A drop leaves a part of what was handed over, and all of it unless its flush fails. -/
theorem drop_leaves (h : w.Holds base handed t) (faults : Faults ε) (a : ℕ) {io : Io}
    (hdrop : w.drop faults ⟨t, a⟩ = .ok ((), io)) :
    io.tree = base.write w.path handed ∨
      w.buffer ≠ [] ∧ faults a ≠ none ∧ ∃ n, io.tree = base.write w.path (handed.take n) := by
  by_cases hcomplete : io.tree = base.write w.path handed
  · exact .inl hcomplete
  rw [drop_complete_iff h faults a hdrop, not_or] at hcomplete
  obtain ⟨hbuffer, hfault⟩ := hcomplete
  obtain ⟨flushed, rfl, rfl⟩ := h
  obtain ⟨fault, hfault'⟩ := Option.ne_none_iff_exists'.mp hfault
  refine .inr ⟨hbuffer, hfault, flushed.length + (w.buffer.dropLast.take fault.written).length, ?_⟩
  simp only [drop, hbuffer, if_false, Except.ok.injEq, Prod.mk.injEq, true_and] at hdrop
  subst hdrop
  have hpart : w.buffer.dropLast.take fault.written <+: w.buffer :=
    (List.take_prefix _ _).trans (List.dropLast_prefix _)
  simp only [Io.tryWrite, hfault', FileTree.append_write, List.take_length_add_append]
  rw [← List.prefix_iff_eq_take.mp hpart]

end BufWriter

end DatasetRt
