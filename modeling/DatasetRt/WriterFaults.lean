import DatasetRt.CacheBuilder

/-! # The builder of a source on a disk that fails

`BuilderIo.lean` has every operation of a builder on the disk.  A writer of sources sees less: whether a push or `finish`
returns an I/O error, and what is in the directory that `finish` leaves.  That is what `WriterFaults` says of one source.

The flush in the drop of the manifest's writer is the only write whose error is not returned; `keepManifest` is what it
leaves. -/

namespace DatasetRt

/-- What fails on the disk while one source is written; `none` does not fail. -/
structure WriterFaults where
  /-- The push of the sample with this number. -/
  push : ℕ → Option String
  /-- The files of `finish`. -/
  finish : Option String
  /-- How many bytes of the manifest are in its file, if the flush in the drop of its writer fails. -/
  kept : Option ℕ
  /-- The rename of the staging directory. -/
  rename : Option String

/-- Nothing fails. -/
def WriterFaults.none : WriterFaults := ⟨fun _ => .none, .none, .none, .none⟩

/-- The directory with as much of the manifest as was written. -/
def keepManifest (kept : Option ℕ) (dir : FileTree) : FileTree :=
  match kept with
  | some n => dir.write ["manifest.json"] (((dir.read ["manifest.json"]).getD []).take n)
  | none => dir

namespace CacheBuilder

variable (L : StorageLib) (faults : WriterFaults)

/-- `push_sample`; a sample that is refused is not written. -/
def pushSampleOn (b : CacheBuilder) (data : Bytes) (metadata : MetadataMap) : CacheBuilder × CacheResult Unit :=
  match b.pushSample L data metadata with
  | (b', .error error) => (b', .error error)
  | (b', .ok ()) =>
      match faults.push b.index.length with
      | some message => (b', .error (.io message))
      | none => (b', .ok ())

/-- `pushAll` with these pushes. -/
def pushAllOn (b : CacheBuilder) : List (Bytes × MetadataMap) → CacheBuilder × CacheResult Unit
  | [] => (b, .ok ())
  | (data, metadata) :: rest =>
      match b.pushSampleOn L faults data metadata with
      | (b, .ok ()) => b.pushAllOn rest
      | (b, .error error) => (b, .error error)

/-- `finish`; without samples it does not write. -/
def finishOn (b : CacheBuilder) : FileTree × CacheResult Manifest :=
  match faults.finish with
  | some message => if b.index = [] then b.finish L else (b.dir, .error (.io message))
  | none =>
      match b.finish L with
      | (dir, .ok manifest) => (keepManifest faults.kept dir, .ok manifest)
      | (dir, .error error) => (dir, .error error)

variable {L faults}

theorem pushSampleOn_fst (b : CacheBuilder) (data : Bytes) (metadata : MetadataMap) :
    (b.pushSampleOn L faults data metadata).1 = (b.pushSample L data metadata).1 := by
  unfold pushSampleOn
  rcases b.pushSample L data metadata with ⟨b', error | u⟩
  · rfl
  · cases faults.push b.index.length <;> rfl

theorem pushSampleOn_ok {b b' : CacheBuilder} {data : Bytes} {metadata : MetadataMap}
    (h : b.pushSampleOn L faults data metadata = (b', .ok ())) : b.pushSample L data metadata = (b', .ok ()) := by
  unfold pushSampleOn at h
  rcases hpush : b.pushSample L data metadata with ⟨b'', error | u⟩
  · simp [hpush] at h
  · cases hfault : faults.push b.index.length with
    | none => simpa [hpush, hfault] using h
    | some message => simp [hpush, hfault] at h

theorem pushAllOn_ok {b b' : CacheBuilder} {samples : List (Bytes × MetadataMap)}
    (h : b.pushAllOn L faults samples = (b', .ok ())) : b.pushAll L samples = (b', .ok ()) := by
  induction samples generalizing b with
  | nil => exact h
  | cons sample rest ih =>
      obtain ⟨data, metadata⟩ := sample
      rw [pushAllOn] at h
      rcases hpush : b.pushSampleOn L faults data metadata with ⟨b'', error | u⟩
      · simp [hpush] at h
      · simp only [hpush] at h
        rw [pushAll, pushSampleOn_ok hpush]
        exact ih h

theorem finishOn_ok {b : CacheBuilder} {dir : FileTree} {manifest : Manifest}
    (h : b.finishOn L faults = (dir, .ok manifest)) :
    ∃ whole, b.finish L = (whole, .ok manifest) ∧ dir = keepManifest faults.kept whole := by
  unfold finishOn at h
  cases hfault : faults.finish with
  | some message =>
      simp only [hfault] at h
      split_ifs at h with hnone
      · simp [finish, hnone] at h
      · simp at h
  | none =>
      rcases hfinish : b.finish L with ⟨whole, error | manifest'⟩
      · simp [hfault, hfinish] at h
      · simp only [hfault, hfinish, Prod.mk.injEq, Except.ok.injEq] at h
        obtain ⟨rfl, rfl⟩ := h
        exact ⟨whole, rfl, rfl⟩

/-- What is finished is whole unless a part of the manifest is lost. -/
theorem finishOn_whole (hkept : faults.kept = none) {b : CacheBuilder} {dir : FileTree} {manifest : Manifest}
    (h : b.finishOn L faults = (dir, .ok manifest)) : b.finish L = (dir, .ok manifest) := by
  obtain ⟨whole, hfinish, rfl⟩ := finishOn_ok h
  rw [hkept]
  exact hfinish

@[simp] theorem pushSampleOn_none (b : CacheBuilder) (data : Bytes) (metadata : MetadataMap) :
    b.pushSampleOn L .none data metadata = b.pushSample L data metadata := by
  unfold pushSampleOn
  rcases b.pushSample L data metadata with ⟨b', error | u⟩ <;> rfl

@[simp] theorem pushAllOn_none (b : CacheBuilder) (samples : List (Bytes × MetadataMap)) :
    b.pushAllOn L .none samples = b.pushAll L samples := by
  induction samples generalizing b with
  | nil => rfl
  | cons sample rest ih =>
      obtain ⟨data, metadata⟩ := sample
      rw [pushAllOn, pushAll, pushSampleOn_none]
      rcases b.pushSample L data metadata with ⟨b', error | u⟩
      · rfl
      · exact ih b'

@[simp] theorem finishOn_none (b : CacheBuilder) : b.finishOn L .none = b.finish L := by
  unfold finishOn
  rcases b.finish L with ⟨dir, error | manifest⟩ <;> rfl

end CacheBuilder

end DatasetRt
