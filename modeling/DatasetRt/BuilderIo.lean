import DatasetRt.CacheRoundTrip
import DatasetRt.WriterFaults
import DatasetRt.Lib.BufferedIo

/-! # The builder on a disk that fails

`CacheBuilder.lean` has every file complete once its writer is flushed.  Here the same builder runs on
a disk whose operations can fail (`Lib/BufferedIo.lean`), with the buffers as `storage.rs` has them: the
shards, `metadata.arrow` and `index.bin` are flushed before they are used, and `write_manifest` leaves
the flush of its writer to the drop.

* `writeCache` is `create`, the `push_sample` calls and `finish`; the tree is the directory of the cache.
* `writeFiles` is the same up to the drop of the manifest's writer.  It succeeds exactly if none of its
  operations fails (`writeFiles_outcome`).
* `finish_complete_iff`: a success means complete files unless that drop is the first to fail.
* `writeCache_keeps`: in the terms of `WriterFaults.lean`, a success is one of `finishOn`.

`FileLib` says in which pieces the Arrow and JSON libraries hand their bytes to the writer; Arrow's
`FileWriter::finish` flushes the writer after the last piece. -/

namespace DatasetRt

/-- How the libraries write a file. -/
structure FileLib where
  arrowPieces : Bytes → List Bytes
  jsonPieces : Bytes → List Bytes
  arrow_flatten : ∀ bytes, (arrowPieces bytes).flatten = bytes
  json_flatten : ∀ text, (jsonPieces text).flatten = text

/-- A builder with the buffered writer of its open shard.  `state.dir` is what the directory holds once
that writer is flushed, but for the open shard. -/
structure BufferedBuilder where
  state : CacheBuilder
  writer : BufWriter

/-- The directories that `create_dir_all` makes. -/
def shardsDir : FileTree := fun p => if p = [] ∨ p = ["shards"] then some .dir else none

/-- The pieces of `index.bin`. -/
def indexPieces (index : List IndexEntry) : List Bytes :=
  index.flatMap fun entry =>
    [Bytes.ofNatLe 8 entry.shardId, Bytes.ofNatLe 8 entry.offset, Bytes.ofNatLe 8 entry.byteLen]

namespace BufferedBuilder

variable (L : StorageLib) (F : FileLib) (faults : Faults CacheError)

def create (present parents : Bool) (path : Path) (sourceName : String) (maxShardBytes : ℕ)
    (shardCompression : ShardCompression) : IoM CacheError BufferedBuilder :=
  (IoM.lift (CacheBuilder.create present parents path sourceName maxShardBytes shardCompression)).bind fun state =>
    (Io.makeDirs faults shardsDir).bind fun _ =>
      (Io.create faults (shardFile (shardName 0))).bind fun _ =>
        IoM.pure { state, writer := BufWriter.new (shardFile (shardName 0)) }

def rotateShardIfNeeded (b : BufferedBuilder) (nextPayloadLen : ℕ) : IoM CacheError BufferedBuilder :=
  if b.state.currentShard.byteLen = 0 then IoM.pure b
  else if nextPayloadLen ≤ b.state.maxShardBytes - b.state.currentShard.byteLen then IoM.pure b
  else
    match checkedAdd b.state.currentShard.id 1 with
    | none => IoM.throw (.invalidInput "shard id overflowed u64")
    | some nextId =>
        (Io.create faults (shardFile (shardName nextId))).bind fun _ =>
          (b.writer.flush faults).bind fun _ =>
            IoM.pure
              { state := (b.state.rotateShardIfNeeded L nextPayloadLen).1
                writer := BufWriter.new (shardFile (shardName nextId)) }

/-- The end of `push_sample`: the record goes to the open shard. -/
def pushRecord (b : BufferedBuilder) (row : Row) (record : EncodedRecord) : IoM CacheError BufferedBuilder :=
  (b.rotateShardIfNeeded L faults record.bytes.length).bind fun b =>
    (IoM.lift (b.state.currentShard.writePayload record.bytes record.uncompressedByteLen)).bind fun written =>
      (b.writer.write faults record.bytes).bind fun writer =>
        IoM.pure
          { state :=
              { b.state with
                currentShard := written.1
                index := b.state.index ++ [written.2]
                metadataRows := b.state.metadataRows ++ [row] }
            writer }

def pushSample (b : BufferedBuilder) (data : Bytes) (metadata : MetadataMap) : IoM CacheError BufferedBuilder :=
  let validated := CacheBuilder.validateMetadata b.state.schema metadata
  let b := { b with state := { b.state with schema := validated.1 } }
  (IoM.lift validated.2).bind fun row =>
    (IoM.lift (encodeStoredRecord L data b.state.schema row b.state.shardCompression)).bind fun record =>
      b.pushRecord L faults row record

def pushAll (b : BufferedBuilder) : List (Bytes × MetadataMap) → IoM CacheError BufferedBuilder
  | [] => IoM.pure b
  | (data, metadata) :: rest => (b.pushSample L faults data metadata).bind fun b => b.pushAll rest

/-- `write_metadata_file`: the hash of the file that was written. -/
def writeMetadataFile (schema : List MetadataField) (rows : List Row) : IoM CacheError String :=
  (IoM.lift (metadataFileBytes L schema rows)).bind fun metadata =>
    ((Io.create faults ["metadata.arrow"]).bind fun _ =>
      ((BufWriter.new ["metadata.arrow"]).writes faults (F.arrowPieces metadata)).bind fun w => w.flush faults).bind
    fun _ => (Io.readBack faults ["metadata.arrow"]).bind fun bytes => IoM.pure (hexEncode (L.sha256 bytes))

/-- `write_index_file`. -/
def writeIndexFile (index : List IndexEntry) : IoM CacheError String :=
  ((Io.create faults ["index.bin"]).bind fun _ =>
    ((BufWriter.new ["index.bin"]).writes faults (indexPieces index)).bind fun w => w.flush faults).bind
  fun _ => (Io.readBack faults ["index.bin"]).bind fun bytes => IoM.pure (hexEncode (L.sha256 bytes))

/-- `write_manifest`, up to the drop of its writer. -/
def writeManifest (manifest : Manifest) : IoM CacheError BufWriter :=
  (IoM.lift (jsonResult (L.json.print manifest.toJson))).bind fun text =>
    (Io.create faults ["manifest.json"]).bind fun _ =>
      (BufWriter.new ["manifest.json"]).writes faults (F.jsonPieces text)

/-- `finish`, up to the drop of the manifest's writer. -/
def finishFiles (b : BufferedBuilder) : IoM CacheError (Manifest × BufWriter) :=
  if b.state.index = [] then IoM.throw (.invalidInput "cache source yielded no samples")
  else
    (b.writer.flush faults).bind fun _ =>
      (writeMetadataFile L F faults b.state.schema b.state.metadataRows).bind fun metadataSha256 =>
        (writeIndexFile L faults b.state.index).bind fun indexSha256 =>
          let manifest := b.state.manifestOf L metadataSha256 indexSha256
            (b.state.shards ++ [b.state.currentShard.finish L b.state.shardCompression])
          (writeManifest L F faults manifest).bind fun w => IoM.pure (manifest, w)

end BufferedBuilder

/-- What a cache is made of. -/
structure CacheInput where
  present : Bool
  parents : Bool
  path : Path
  sourceName : String
  maxShardBytes : ℕ
  shardCompression : ShardCompression
  samples : List (Bytes × MetadataMap)

namespace CacheInput

variable (L : StorageLib) (F : FileLib) (input : CacheInput)

/-- `create`, the pushes and `finish`, up to the drop of the manifest's writer. -/
def writeFiles (faults : Faults CacheError) : IoM CacheError (Manifest × BufWriter) :=
  (BufferedBuilder.create faults input.present input.parents input.path input.sourceName input.maxShardBytes
    input.shardCompression).bind fun b =>
    (b.pushAll L faults input.samples).bind fun b => b.finishFiles L F faults

/-- `create`, the pushes and `finish`: the writer of the manifest is dropped at the end. -/
def writeCache (faults : Faults CacheError) : IoM CacheError Manifest :=
  (input.writeFiles L F faults).bind fun done => (done.2.drop faults).bind fun _ => IoM.pure done.1

/-- The builder after the pushes, with every byte it was handed. -/
def builder : CacheResult CacheBuilder := do
  let b ← CacheBuilder.create input.present input.parents input.path input.sourceName input.maxShardBytes
    input.shardCompression
  let pushed := b.pushAll L input.samples
  pushed.2
  .ok pushed.1

/-- The directory with every byte that was handed to a writer. -/
def handed : CacheResult FileTree := do
  let b ← input.builder L
  let finished := b.finish L
  let _ ← finished.2
  .ok finished.1

/-- A builder took all samples and was finished. -/
def Finishes (manifest : Manifest) (dir : FileTree) : Prop :=
  ∃ b₀ b, CacheBuilder.create input.present input.parents input.path input.sourceName input.maxShardBytes
      input.shardCompression = .ok b₀ ∧
    b₀.pushAll L input.samples = (b, .ok ()) ∧ b.finish L = (dir, .ok manifest)

end CacheInput

/-! ### The builder when nothing fails -/

namespace BufferedBuilder

variable {L : StorageLib} {F : FileLib} {b : BufferedBuilder} {t : FileTree}

/-- The directory is that of the builder, but for the bytes in the buffer of the open shard. -/
structure Mirrors (b : BufferedBuilder) (t : FileTree) : Prop where
  name : b.state.currentShard.name = shardName b.state.currentShard.id
  path : b.writer.path = shardFile b.state.currentShard.name
  holds : b.writer.Holds b.state.dir b.state.currentShard.writer t

theorem emptyDir_eq : shardsDir.write (shardFile (shardName 0)) [] = CacheBuilder.emptyDir := by
  funext q
  by_cases hq : q = shardFile (shardName 0)
  · subst hq
    simp [FileTree.write, CacheBuilder.emptyDir, shardFile]
  · simp [FileTree.write, CacheBuilder.emptyDir, shardsDir, hq]

theorem create_performs {present parents : Bool} {path : Path} {sourceName : String} {maxShardBytes : ℕ}
    {shardCompression : ShardCompression} {c : CacheBuilder}
    (h : CacheBuilder.create present parents path sourceName maxShardBytes shardCompression = .ok c) :
    ∃ n b, Performs (fun faults => create faults present parents path sourceName maxShardBytes shardCompression)
      t n b CacheBuilder.emptyDir ∧ b.state = c ∧ b.Mirrors CacheBuilder.emptyDir := by
  have hstate : c.dir = CacheBuilder.emptyDir ∧ c.currentShard = OpenShard.create 0 := by
    unfold CacheBuilder.create at h
    split_ifs at h
    obtain rfl := Except.ok.inj h
    exact ⟨rfl, rfl⟩
  have hmake := Performs.makeDirs (ε := CacheError) shardsDir t
  have hcreate := Performs.create (ε := CacheError) (shardFile (shardName 0)) shardsDir
  rw [emptyDir_eq] at hcreate
  refine ⟨0 + (1 + 1), ⟨c, BufWriter.new (shardFile (shardName 0))⟩, ?_, rfl, ?_⟩
  · exact (Performs.of_lift h t).bind (hmake.bind
      (hcreate.bind_pure fun _ => BufferedBuilder.mk c (BufWriter.new (shardFile (shardName 0)))))
  · have hread : CacheBuilder.emptyDir.read (shardFile (shardName 0)) = some [] := by
      rw [← emptyDir_eq, FileTree.read_write_self]
    refine ⟨by rw [hstate.2]; rfl, by rw [hstate.2]; rfl, [], ?_, by rw [hstate.2]; rfl⟩
    rw [hstate.1]
    exact (FileTree.write_of_read hread).symm

/-- The shard that is closed is flushed, and the next one begins empty. -/
theorem rotate_performs (h : b.Mirrors t) {len : ℕ} {c : CacheBuilder}
    (hrotate : b.state.rotateShardIfNeeded L len = (c, .ok ())) :
    ∃ n b' t', Performs (fun faults => b.rotateShardIfNeeded L faults len) t n b' t' ∧ b'.state = c ∧
      b'.Mirrors t' := by
  have hrotate' := hrotate
  unfold CacheBuilder.rotateShardIfNeeded at hrotate
  unfold rotateShardIfNeeded
  by_cases hzero : b.state.currentShard.byteLen = 0
  · simp only [hzero, if_true, Prod.mk.injEq, and_true] at hrotate ⊢
    exact ⟨0, b, t, .of_pure _ _, hrotate, h⟩
  by_cases hfits : len ≤ b.state.maxShardBytes - b.state.currentShard.byteLen
  · simp only [hzero, hfits, if_true, if_false, Prod.mk.injEq, and_true] at hrotate ⊢
    exact ⟨0, b, t, .of_pure _ _, hrotate, h⟩
  simp only [hzero, hfits, if_false] at hrotate ⊢
  cases hadd : checkedAdd b.state.currentShard.id 1 with
  | none => simp [hadd] at hrotate
  | some nextId =>
      simp only [hadd, Prod.mk.injEq, and_true] at hrotate ⊢
      have hnext : nextId = b.state.currentShard.id + 1 := (checkedAdd_eq_some.mp hadd).2.symm
      have hne : b.writer.path ≠ shardFile (shardName nextId) := by
        rw [h.path, h.name, hnext]
        intro heq
        have := shardName_injective (List.cons.inj (List.cons.inj heq).2).1
        omega
      obtain ⟨flushed, rfl, hhanded⟩ := h.holds
      have hcreate := Performs.create (ε := CacheError) (shardFile (shardName nextId))
        (b.state.dir.write b.writer.path flushed)
      rw [FileTree.write_comm _ hne] at hcreate
      have hholds : b.writer.Holds (b.state.dir.write (shardFile (shardName nextId)) [])
          b.state.currentShard.writer _ := ⟨flushed, rfl, hhanded⟩
      obtain ⟨n, hflush⟩ := BufWriter.flush_performs (ε := CacheError) hholds
      refine ⟨1 + n, ⟨c, BufWriter.new (shardFile (shardName nextId))⟩,
        (b.state.dir.write (shardFile (shardName nextId)) []).write b.writer.path b.state.currentShard.writer,
        hcreate.bind ?_, rfl, ?_⟩
      · rw [hrotate']
        exact hflush.bind_pure fun _ => BufferedBuilder.mk c (BufWriter.new (shardFile (shardName nextId)))
      · subst hrotate
        refine ⟨rfl, rfl, [], ?_, rfl⟩
        simp only [← h.path]
        refine (FileTree.write_of_read ?_).symm
        show FileTree.read _ (shardFile (shardName nextId)) = some []
        rw [FileTree.read_write_of_ne _ (Ne.symm hne), FileTree.read_write_self]

theorem rotate_fails {len : ℕ} {c : CacheBuilder} {error : CacheError}
    (hrotate : b.state.rotateShardIfNeeded L len = (c, .error error)) :
    Fails (fun faults => b.rotateShardIfNeeded L faults len) t := by
  unfold CacheBuilder.rotateShardIfNeeded at hrotate
  unfold rotateShardIfNeeded
  by_cases hzero : b.state.currentShard.byteLen = 0
  · simp [hzero] at hrotate
  by_cases hfits : len ≤ b.state.maxShardBytes - b.state.currentShard.byteLen
  · simp [hzero, hfits] at hrotate
  simp only [hzero, hfits, if_false] at hrotate ⊢
  cases hadd : checkedAdd b.state.currentShard.id 1 with
  | none => exact Performs.fails_throw _ t
  | some nextId => simp [hadd] at hrotate

/-- A sample that the builder accepts is handed to the writer of the open shard. -/
theorem pushRecord_performs (h : b.Mirrors t) {row : Row} {record : EncodedRecord} {c : CacheBuilder}
    (hpush : b.state.pushRecord L row record = (c, .ok ())) :
    ∃ n b' t', Performs (fun faults => b.pushRecord L faults row record) t n b' t' ∧ b'.state = c ∧
      b'.Mirrors t' := by
  unfold CacheBuilder.pushRecord at hpush
  rcases hrotate : b.state.rotateShardIfNeeded L record.bytes.length with ⟨c₁, result⟩
  cases result with
  | error error => simp [hrotate] at hpush
  | ok done =>
      simp only [hrotate] at hpush
      obtain ⟨n, b₁, t₁, hrot, rfl, hmirrors⟩ := rotate_performs h hrotate
      cases hwritten : b₁.state.currentShard.writePayload record.bytes record.uncompressedByteLen with
      | error error => simp [hwritten] at hpush
      | ok written =>
          obtain ⟨shard, entry⟩ := written
          simp only [hwritten, Prod.mk.injEq, and_true] at hpush
          subst hpush
          obtain ⟨n', w, t₂, hwrite, hpath, hholds⟩ := BufWriter.write_performs (ε := CacheError) hmirrors.holds
            record.bytes
          have hshard : shard.name = b₁.state.currentShard.name ∧ shard.id = b₁.state.currentShard.id ∧
              shard.writer = b₁.state.currentShard.writer ++ record.bytes := by
            obtain ⟨_, -, hrest⟩ := bind_eq_ok hwritten
            obtain ⟨_, -, hrest⟩ := bind_eq_ok hrest
            obtain ⟨_, -, hrest⟩ := bind_eq_ok hrest
            simp only [Except.ok.injEq, Prod.mk.injEq] at hrest
            rw [← hrest.1]
            exact ⟨rfl, rfl, rfl⟩
          refine ⟨n + (0 + n'),
            ⟨{ b₁.state with
                currentShard := shard
                index := b₁.state.index ++ [entry]
                metadataRows := b₁.state.metadataRows ++ [row] }, w⟩, t₂,
            hrot.bind ((Performs.of_lift hwritten t₁).bind (hwrite.bind_pure fun writer => BufferedBuilder.mk _ writer)),
            rfl, ?_, ?_, ?_⟩
          · show shard.name = shardName shard.id
            rw [hshard.1, hshard.2.1]
            exact hmirrors.name
          · show w.path = shardFile shard.name
            rw [hpath, hshard.1]
            exact hmirrors.path
          · show w.Holds b₁.state.dir shard.writer t₂
            rw [hshard.2.2]
            exact hholds

theorem pushRecord_fails (h : b.Mirrors t) {row : Row} {record : EncodedRecord} {c : CacheBuilder} {error : CacheError}
    (hpush : b.state.pushRecord L row record = (c, .error error)) :
    Fails (fun faults => b.pushRecord L faults row record) t := by
  unfold CacheBuilder.pushRecord at hpush
  rcases hrotate : b.state.rotateShardIfNeeded L record.bytes.length with ⟨c₁, result⟩
  cases result with
  | error error => exact Performs.fails_bind (rotate_fails hrotate)
  | ok done =>
      simp only [hrotate] at hpush
      obtain ⟨n, b₁, t₁, hrot, rfl, hmirrors⟩ := rotate_performs h hrotate
      cases hwritten : b₁.state.currentShard.writePayload record.bytes record.uncompressedByteLen with
      | error error =>
          exact hrot.bind_fails (Performs.fails_bind (Performs.fails_lift hwritten t₁))
      | ok written => simp [hwritten] at hpush

theorem pushSample_performs (h : b.Mirrors t) {data : Bytes} {metadata : MetadataMap} {c : CacheBuilder}
    (hpush : b.state.pushSample L data metadata = (c, .ok ())) :
    ∃ n b' t', Performs (fun faults => b.pushSample L faults data metadata) t n b' t' ∧ b'.state = c ∧
      b'.Mirrors t' := by
  unfold CacheBuilder.pushSample at hpush
  rcases hvalid : CacheBuilder.validateMetadata b.state.schema metadata with ⟨schema, result⟩
  cases result with
  | error error => simp [hvalid] at hpush
  | ok row =>
      simp only [hvalid] at hpush
      cases hencode : encodeStoredRecord L data schema row b.state.shardCompression with
      | error error => simp [hencode] at hpush
      | ok record =>
          simp only [hencode] at hpush
          have hmirrors : Mirrors { b with state := { b.state with schema } } t := ⟨h.name, h.path, h.holds⟩
          obtain ⟨n, b', t', hperforms, hstate, hmirrors'⟩ := pushRecord_performs hmirrors hpush
          refine ⟨0 + (0 + n), b', t', ?_, hstate, hmirrors'⟩
          simp only [pushSample, hvalid]
          exact (Performs.of_lift rfl t).bind ((Performs.of_lift hencode t).bind hperforms)

theorem pushSample_fails (h : b.Mirrors t) {data : Bytes} {metadata : MetadataMap} {c : CacheBuilder}
    {error : CacheError} (hpush : b.state.pushSample L data metadata = (c, .error error)) :
    Fails (fun faults => b.pushSample L faults data metadata) t := by
  unfold CacheBuilder.pushSample at hpush
  unfold pushSample
  rcases hvalid : CacheBuilder.validateMetadata b.state.schema metadata with ⟨schema, result⟩
  cases result with
  | error error =>
      simp only
      exact Performs.fails_bind (Performs.fails_lift rfl t)
  | ok row =>
      simp only [hvalid] at hpush ⊢
      cases hencode : encodeStoredRecord L data schema row b.state.shardCompression with
      | error error =>
          exact (Performs.of_lift rfl t).bind_fails (Performs.fails_bind (Performs.fails_lift hencode t))
      | ok record =>
          simp only [hencode] at hpush
          have hmirrors : Mirrors { b with state := { b.state with schema } } t := ⟨h.name, h.path, h.holds⟩
          exact (Performs.of_lift rfl t).bind_fails
            ((Performs.of_lift hencode t).bind_fails (pushRecord_fails hmirrors hpush))

theorem pushAll_performs : ∀ (samples : List (Bytes × MetadataMap)) {b : BufferedBuilder} {t : FileTree}
    {c : CacheBuilder}, b.Mirrors t → b.state.pushAll L samples = (c, .ok ()) →
      ∃ n b' t', Performs (fun faults => b.pushAll L faults samples) t n b' t' ∧ b'.state = c ∧ b'.Mirrors t'
  | [], b, t, c, h, hpush => by
      simp only [CacheBuilder.pushAll, Prod.mk.injEq, and_true] at hpush
      exact ⟨0, b, t, .of_pure _ _, hpush, h⟩
  | (data, metadata) :: rest, b, t, c, h, hpush => by
      unfold CacheBuilder.pushAll at hpush
      rcases hone : b.state.pushSample L data metadata with ⟨c₁, result⟩
      cases result with
      | error error => simp [hone] at hpush
      | ok done =>
          simp only [hone] at hpush
          obtain ⟨n, b₁, t₁, hfirst, rfl, hmirrors⟩ := pushSample_performs h hone
          obtain ⟨n', b₂, t₂, hrest, hstate, hmirrors'⟩ := pushAll_performs rest hmirrors hpush
          exact ⟨n + n', b₂, t₂, hfirst.bind hrest, hstate, hmirrors'⟩

theorem pushAll_fails : ∀ (samples : List (Bytes × MetadataMap)) {b : BufferedBuilder} {t : FileTree}
    {c : CacheBuilder} {error : CacheError}, b.Mirrors t → b.state.pushAll L samples = (c, .error error) →
      Fails (fun faults => b.pushAll L faults samples) t
  | [], b, t, c, error, h, hpush => by simp [CacheBuilder.pushAll] at hpush
  | (data, metadata) :: rest, b, t, c, error, h, hpush => by
      unfold CacheBuilder.pushAll at hpush
      rcases hone : b.state.pushSample L data metadata with ⟨c₁, result⟩
      cases result with
      | error error => exact Performs.fails_bind (pushSample_fails h hone)
      | ok done =>
          simp only [hone] at hpush
          obtain ⟨n, b₁, t₁, hfirst, rfl, hmirrors⟩ := pushSample_performs h hone
          exact hfirst.bind_fails (pushAll_fails rest hmirrors hpush)

/-! ### The files of `finish` -/

theorem flatten_indexPieces (index : List IndexEntry) : (indexPieces index).flatten = indexBytes index := by
  induction index with
  | nil => rfl
  | cons entry rest ih =>
      simp only [indexPieces, List.flatMap_cons, List.flatten_append] at ih ⊢
      rw [ih]
      simp [indexBytes, IndexEntry.toBytes]

/-- A file that is flushed and read back. -/
theorem hashed_performs (path : Path) (pieces : List Bytes) {bytes : Bytes} (hpieces : pieces.flatten = bytes)
    (base : FileTree) : ∃ n, Performs (fun faults : Faults CacheError =>
      ((Io.create faults path).bind fun _ =>
        ((BufWriter.new path).writes faults pieces).bind fun w => w.flush faults).bind
      fun _ => (Io.readBack faults path).bind fun read => IoM.pure (hexEncode (L.sha256 read)))
      base n (hexEncode (L.sha256 bytes)) (base.write path bytes) := by
  obtain ⟨n, w, hfile⟩ := BufWriter.file_performs (ε := CacheError) path pieces base
  rw [hpieces] at hfile
  have hread := Performs.readBack (ε := CacheError) (FileTree.read_write_self base path bytes)
  exact ⟨_, hfile.bind (hread.bind_pure fun read => hexEncode (L.sha256 read))⟩

theorem writeManifest_performs {manifest : Manifest} {text : Bytes}
    (hprint : jsonResult (L.json.print manifest.toJson) = .ok text) (base : FileTree) :
    ∃ n w t', Performs (fun faults => writeManifest L F faults manifest) base n w t' ∧
      w.path = ["manifest.json"] ∧ w.Holds base text t' := by
  obtain ⟨n, w, t', hwrites, hpath, hholds⟩ := BufWriter.writes_performs (ε := CacheError) (F.jsonPieces text)
    (BufWriter.holds_new ["manifest.json"] base)
  rw [F.json_flatten, List.nil_append] at hholds
  exact ⟨0 + (1 + n), w, t', (Performs.of_lift hprint base).bind ((Performs.create _ base).bind hwrites), hpath, hholds⟩

/-- Up to the drop everything but the manifest is in its file. -/
theorem finishFiles_performs (h : b.Mirrors t) {dir : FileTree} {manifest : Manifest}
    (hfinish : b.state.finish L = (dir, .ok manifest)) :
    ∃ n m w t' base text, Performs (fun faults => b.finishFiles L F faults) t n (manifest, w) t' ∧
      Performs (fun faults => writeManifest L F faults manifest) base m w t' ∧
      w.path = ["manifest.json"] ∧ w.Holds base text t' ∧ base.write w.path text = dir := by
  unfold CacheBuilder.finish at hfinish
  by_cases hindex : b.state.index = []
  · simp [hindex] at hfinish
  simp only [hindex, if_false] at hfinish
  cases hmeta : metadataFileBytes L b.state.schema b.state.metadataRows with
  | error error => simp [hmeta] at hfinish
  | ok metadata =>
      simp only [hmeta] at hfinish
      cases hprint : jsonResult (L.json.print (b.state.manifestOf L (hexEncode (L.sha256 metadata))
        (hexEncode (L.sha256 (indexBytes b.state.index)))
        (b.state.shards ++ [b.state.currentShard.finish L b.state.shardCompression])).toJson) with
      | error error => simp [hprint] at hfinish
      | ok text =>
          simp only [hprint, Prod.mk.injEq, Except.ok.injEq] at hfinish
          obtain ⟨rfl, rfl⟩ := hfinish
          obtain ⟨n₁, hflush⟩ := BufWriter.flush_performs (ε := CacheError) h.holds
          rw [h.path] at hflush
          obtain ⟨n₂, hmetadata⟩ := hashed_performs (L := L) ["metadata.arrow"] (F.arrowPieces metadata)
            (F.arrow_flatten metadata) (b.state.dir.write (shardFile b.state.currentShard.name)
              b.state.currentShard.writer)
          obtain ⟨n₃, hindexFile⟩ := hashed_performs (L := L) ["index.bin"] (indexPieces b.state.index)
            (flatten_indexPieces b.state.index) (FileTree.write _ ["metadata.arrow"] metadata)
          obtain ⟨n₄, w, t', hmanifest, hpath, hholds⟩ := writeManifest_performs (F := F) hprint
            (FileTree.write _ ["index.bin"] (indexBytes b.state.index))
          refine ⟨n₁ + (0 + n₂ + (n₃ + n₄)), n₄, w, t', _, text, ?_, hmanifest, hpath, hholds, by rw [hpath]⟩
          simp only [finishFiles, hindex, if_false]
          exact hflush.bind (((Performs.of_lift hmeta _).bind hmetadata).bind
            (hindexFile.bind (hmanifest.bind_pure fun w => (_, w))))

theorem finishFiles_fails (h : b.Mirrors t) {dir : FileTree} {error : CacheError}
    (hfinish : b.state.finish L = (dir, .error error)) : Fails (fun faults => b.finishFiles L F faults) t := by
  unfold CacheBuilder.finish at hfinish
  unfold finishFiles
  by_cases hindex : b.state.index = []
  · simp only [hindex, if_true]
    exact Performs.fails_throw _ t
  simp only [hindex, if_false] at hfinish ⊢
  obtain ⟨n₁, hflush⟩ := BufWriter.flush_performs (ε := CacheError) h.holds
  refine hflush.bind_fails ?_
  cases hmeta : metadataFileBytes L b.state.schema b.state.metadataRows with
  | error error => exact Performs.fails_bind (Performs.fails_bind (Performs.fails_lift hmeta _))
  | ok metadata =>
      simp only [hmeta] at hfinish
      obtain ⟨n₂, hmetadata⟩ := hashed_performs (L := L) ["metadata.arrow"] (F.arrowPieces metadata)
        (F.arrow_flatten metadata) (b.state.dir.write b.writer.path b.state.currentShard.writer)
      obtain ⟨n₃, hindexFile⟩ := hashed_performs (L := L) ["index.bin"] (indexPieces b.state.index)
        (flatten_indexPieces b.state.index) (FileTree.write _ ["metadata.arrow"] metadata)
      refine ((Performs.of_lift hmeta _).bind hmetadata).bind_fails (hindexFile.bind_fails ?_)
      cases hprint : jsonResult (L.json.print (b.state.manifestOf L (hexEncode (L.sha256 metadata))
        (hexEncode (L.sha256 (indexBytes b.state.index)))
        (b.state.shards ++ [b.state.currentShard.finish L b.state.shardCompression])).toJson) with
      | error error => exact Performs.fails_bind (Performs.fails_bind (Performs.fails_lift hprint _))
      | ok text => simp [hprint] at hfinish

end BufferedBuilder

/-! ### Success and completeness -/

namespace CacheInput

variable {L : StorageLib} {F : FileLib} {input : CacheInput}

theorem Finishes.handed {manifest : Manifest} {dir : FileTree} (h : input.Finishes L manifest dir) :
    input.handed L = .ok dir := by
  obtain ⟨b₀, b, hcreate, hpush, hfinish⟩ := h
  simp [CacheInput.handed, builder, hcreate, hpush, hfinish, bind, Except.bind]

/-- **The files up to the drop**: they are written exactly if no operation fails, or the samples are
rejected whatever the disk does. -/
theorem writeFiles_outcome (L : StorageLib) (F : FileLib) (input : CacheInput) :
    (∃ n m manifest w t base text dir,
      Performs (fun faults => input.writeFiles L F faults) .empty n (manifest, w) t ∧
      Performs (fun faults => BufferedBuilder.writeManifest L F faults manifest) base m w t ∧
      w.path = ["manifest.json"] ∧ w.Holds base text t ∧ base.write w.path text = dir ∧ input.Finishes L manifest dir) ∨
    (Fails (fun faults => input.writeFiles L F faults) .empty ∧ ∃ error, input.handed L = .error error) := by
  cases hcreate : CacheBuilder.create input.present input.parents input.path input.sourceName input.maxShardBytes
      input.shardCompression with
  | error error =>
      refine .inr ⟨Performs.fails_bind (Performs.fails_bind (Performs.fails_lift hcreate _)), error, ?_⟩
      simp [handed, builder, hcreate, bind, Except.bind]
  | ok c =>
      obtain ⟨n₁, b₁, hcreated, rfl, hmirrors⟩ := BufferedBuilder.create_performs (t := .empty) hcreate
      rcases hpush : b₁.state.pushAll L input.samples with ⟨c₂, result⟩
      cases result with
      | error error =>
          refine .inr ⟨hcreated.bind_fails (Performs.fails_bind
            (BufferedBuilder.pushAll_fails _ hmirrors hpush)), error, ?_⟩
          simp [handed, builder, hcreate, hpush, bind, Except.bind]
      | ok done =>
          obtain ⟨n₂, b₂, t₂, hpushed, rfl, hmirrors'⟩ := BufferedBuilder.pushAll_performs _ hmirrors hpush
          rcases hfinish : b₂.state.finish L with ⟨dir, result⟩
          cases result with
          | error error =>
              refine .inr ⟨hcreated.bind_fails (hpushed.bind_fails
                (BufferedBuilder.finishFiles_fails hmirrors' hfinish)), error, ?_⟩
              simp [handed, builder, hcreate, hpush, hfinish, bind, Except.bind]
          | ok manifest =>
              obtain ⟨n₃, m, w, t', base, text, hfiles, hmanifest, hpath, hholds, hdir⟩ :=
                BufferedBuilder.finishFiles_performs (F := F) hmirrors' hfinish
              exact .inl ⟨_, m, manifest, w, t', base, text, dir, hcreated.bind (hpushed.bind hfiles), hmanifest,
                hpath, hholds, hdir, b₁.state, b₂.state, hcreate, hpush, hfinish⟩

/-- No operation fails. -/
def undisturbed : Faults CacheError := fun _ => none

theorem clear_undisturbed (a n : ℕ) : Clear undisturbed a n := fun _ _ => rfl

/-- The whole run after its files, when no operation before the drop fails. -/
theorem writeCache_of_clear {n : ℕ} {manifest : Manifest} {w : BufWriter} {t : FileTree} {faults : Faults CacheError}
    (h : Performs (fun faults => input.writeFiles L F faults) .empty n (manifest, w) t) (hclear : Clear faults 0 n) :
    ∃ io, input.writeCache L F faults ⟨.empty, 0⟩ = .ok (manifest, io) ∧ w.drop faults ⟨t, n⟩ = .ok ((), io) := by
  have hfiles := h.clear faults 0 hclear
  simp only [Nat.zero_add] at hfiles
  obtain ⟨io, hdrop⟩ : ∃ io, w.drop faults ⟨t, n⟩ = .ok ((), io) := by
    unfold BufWriter.drop
    split_ifs
    · exact ⟨_, rfl⟩
    · exact ⟨_, rfl⟩
  refine ⟨io, ?_, hdrop⟩
  simp only [writeCache, IoM.bind, hfiles, hdrop, IoM.pure]

/-- **A success on a failing disk.**  A builder took all samples and was finished, and the directory has what the drop
of the manifest's writer kept of the manifest: all of it, unless the last flush failed. -/
theorem writeCache_keeps {faults : Faults CacheError} {manifest : Manifest} {io : Io}
    (h : input.writeCache L F faults ⟨.empty, 0⟩ = .ok (manifest, io)) :
    ∃ b₀ b kept, CacheBuilder.create input.present input.parents input.path input.sourceName input.maxShardBytes
        input.shardCompression = .ok b₀ ∧
      b₀.pushAll L input.samples = (b, .ok ()) ∧
      b.finishOn L { WriterFaults.none with kept } = (io.tree, .ok manifest) ∧
      (kept ≠ none → ∃ w t n, input.writeFiles L F faults ⟨.empty, 0⟩ = .ok ((manifest, w), ⟨t, n⟩) ∧
        w.buffer ≠ [] ∧ faults n ≠ none) := by
  obtain ⟨n, m, manifest', w, t, base, text, dir, hfiles, -, hpath, hholds, hdir, b₀, b, hcreate, hpush, hfinish⟩ |
    ⟨hfails, -⟩ := writeFiles_outcome L F input
  · have hclear : Clear faults 0 n := by
      by_contra hnot
      obtain ⟨error, herror⟩ := hfiles.disturbed faults 0 hnot
      simp [writeCache, IoM.bind, herror] at h
    obtain ⟨io', hwrite, hdrop⟩ := writeCache_of_clear hfiles hclear
    obtain ⟨rfl, rfl⟩ : manifest' = manifest ∧ io' = io := by simpa [hwrite] using h
    rcases BufWriter.drop_leaves hholds faults n hdrop with htree | ⟨hbuffer, hfault, k, htree⟩
    · refine ⟨b₀, b, none, hcreate, hpush, ?_, fun hne => absurd rfl hne⟩
      rw [htree, hdir]
      exact (CacheBuilder.finishOn_none b).trans hfinish
    · refine ⟨b₀, b, some k, hcreate, hpush, ?_, fun _ => ⟨w, t, n, ?_, hbuffer, hfault⟩⟩
      · rw [htree, hpath]
        rw [hpath] at hdir
        subst hdir
        simp [CacheBuilder.finishOn, WriterFaults.none, hfinish, keepManifest, FileTree.write_write]
      · simpa only [Nat.zero_add] using hfiles.clear faults 0 hclear
  · obtain ⟨error, herror⟩ := hfails faults 0
    simp [writeCache, IoM.bind, herror] at h

theorem loads_of_handed (hL : L.Lawful) (hvalid : input.shardCompression.Valid) {dir fs : FileTree}
    (hhanded : input.handed L = .ok dir) (hfs : fs.sub input.path = dir) (hsized : fs.Sized) (validate : Bool)
    (position : ℕ) : ∃ cache, loadCache L fs input.path validate position = .ok cache := by
  obtain ⟨b, hbuilder, hfinish⟩ := bind_eq_ok hhanded
  obtain ⟨b₀, hcreate, hpush⟩ := bind_eq_ok hbuilder
  obtain ⟨⟨⟩, hresult, hb⟩ := bind_eq_ok hpush
  obtain rfl := Except.ok.inj hb
  obtain ⟨manifest, hmanifest, hdir⟩ := bind_eq_ok hfinish
  obtain ⟨hinv₀, hcomp₀⟩ := CacheBuilder.inv_create (L := L) hcreate
  obtain ⟨h, hinv, -, hcomp⟩ := hinv₀.pushAll (Prod.ext rfl hresult)
  obtain ⟨metadata, hfin⟩ := hinv.finish (Prod.ext (Except.ok.inj hdir) hmanifest)
  refine ⟨_, hfin.loadCache hL hinv ?_ hfs hsized validate position⟩
  rw [hcomp, hcomp₀]
  exact hvalid

/-- **A success means complete files** exactly if the drop of the manifest's writer has nothing left to
write, or an operation before it fails, so that the call fails, or its flush succeeds.  A complete
directory loads. -/
theorem finish_complete_iff (L : StorageLib) (F : FileLib) (input : CacheInput) (faults : Faults CacheError) :
    ((∀ manifest io, input.writeCache L F faults ⟨.empty, 0⟩ = .ok (manifest, io) → input.handed L = .ok io.tree) ↔
      ∀ manifest w io, input.writeFiles L F undisturbed ⟨.empty, 0⟩ = .ok ((manifest, w), io) →
        w.buffer = [] ∨ (∃ k < io.operations, faults k ≠ none) ∨ faults io.operations = none) ∧
    (L.Lawful → input.shardCompression.Valid → ∀ dir fs, input.handed L = .ok dir → fs.sub input.path = dir →
      fs.Sized → ∀ validate position, ∃ cache, loadCache L fs input.path validate position = .ok cache) := by
  refine ⟨?_, fun hL hvalid dir fs hhanded hfs hsized => loads_of_handed hL hvalid hhanded hfs hsized⟩
  obtain ⟨n, m, manifest, w, t, base, text, dir, hfiles, -, -, hholds, hdir, hfinishes⟩ | ⟨hfails, -⟩ :=
    writeFiles_outcome L F input
  · have hhanded := hfinishes.handed
    have hquiet := hfiles.clear undisturbed 0 (clear_undisturbed 0 n)
    rw [Nat.zero_add] at hquiet
    by_cases hclear : Clear faults 0 n
    · -- everything up to the drop succeeds, so the drop decides
      obtain ⟨io, hwrite, hdrop⟩ := writeCache_of_clear hfiles hclear
      have hcomplete := BufWriter.drop_complete_iff hholds faults n hdrop
      have hnone : ¬ ∃ k < n, faults k ≠ none := by
        rintro ⟨k, hk, hne⟩
        have := hclear k hk
        rw [Nat.zero_add] at this
        exact hne this
      constructor
      · intro hprop manifest' w' io' hquiet'
        obtain ⟨⟨-, rfl⟩, rfl⟩ : (manifest = manifest' ∧ w = w') ∧ (⟨t, n⟩ : Io) = io' := by
          simpa [hquiet] using hquiet'
        have htree := hprop manifest io hwrite
        rw [hhanded, ← hdir, Except.ok.injEq] at htree
        exact (hcomplete.mp htree.symm).imp id .inr
      · intro hcond manifest' io' hwrite'
        obtain ⟨-, rfl⟩ : manifest = manifest' ∧ io = io' := by simpa [hwrite] using hwrite'
        have hdone := (hcond manifest w ⟨t, n⟩ hquiet).imp id fun h => h.resolve_left hnone
        rw [hhanded, ← hdir, hcomplete.mpr hdone]
    · -- an earlier failure is reported
      constructor
      · intro _ manifest' w' io' hquiet'
        obtain ⟨-, rfl⟩ : (manifest = manifest' ∧ w = w') ∧ (⟨t, n⟩ : Io) = io' := by
          simpa [hquiet] using hquiet'
        simp only [Clear, not_forall, Nat.zero_add] at hclear
        obtain ⟨k, hk, hne⟩ := hclear
        exact .inr (.inl ⟨k, hk, hne⟩)
      · intro _ manifest' io' hwrite'
        obtain ⟨error, herror⟩ := hfiles.disturbed faults 0 hclear
        simp [writeCache, IoM.bind, herror] at hwrite'
  · obtain ⟨quiet, hquiet⟩ := hfails undisturbed 0
    obtain ⟨error, herror⟩ := hfails faults 0
    constructor
    · intro _ manifest' w' io' hquiet'
      simp [hquiet] at hquiet'
    · intro _ manifest' io' hwrite'
      simp [writeCache, IoM.bind, herror] at hwrite'

/-! ### Two samples on a full disk -/

/-- Libraries that write a file in one piece. -/
def onePiece : FileLib where
  arrowPieces bytes := [bytes]
  jsonPieces text := [text]
  arrow_flatten _ := List.flatten_singleton
  json_flatten _ := List.flatten_singleton

/-- Two samples that go to two shards. -/
def twoSamples : CacheInput where
  present := false
  parents := true
  path := ["c"]
  sourceName := "s"
  maxShardBytes := 1
  shardCompression := .none
  samples := TwoShards.samples

theorem handed_twoSamples : twoSamples.handed TwoShards.lib = .ok TwoShards.dir := by
  have hbuilder : twoSamples.builder TwoShards.lib = .ok TwoShards.builder := by
    have hpush := TwoShards.pushAll_eq (show CacheBuilder.create false true ["c"] "s" 1 .none =
      .ok ⟨["c"], CacheBuilder.emptyDir, "s", 1, [], [], [], [], .none, OpenShard.create 0⟩ from rfl)
    simp only [builder, twoSamples, CacheBuilder.create, Bool.false_eq_true, if_false, if_true, bind, Except.bind, hpush]
    rfl
  simp only [handed, hbuilder, bind, Except.bind, TwoShards.finish_eq]

/-- The manifest of the two samples is still in the buffer when its writer is dropped. -/
theorem twoSamples_files : ∃ n manifest w t base text,
    Performs (fun faults => twoSamples.writeFiles TwoShards.lib onePiece faults) .empty n (manifest, w) t ∧
      w.Holds base text t ∧ base.write w.path text = TwoShards.dir ∧ w.buffer = TwoShards.manifestText := by
  obtain ⟨n, m, manifest, w, t, base, text, dir, hfiles, hmanifest, -, hholds, hdir, hfinishes⟩ | ⟨-, error, herror⟩ :=
    writeFiles_outcome TwoShards.lib onePiece twoSamples
  · have hhanded := hfinishes.handed
    rw [handed_twoSamples, Except.ok.injEq] at hhanded
    refine ⟨n, manifest, w, t, base, text, hfiles, hholds, hdir.trans hhanded.symm, ?_⟩
    have hwrite := hmanifest.clear undisturbed 0 (clear_undisturbed 0 m)
    cases hprint : TwoShards.lib.json.print manifest.toJson with
    | error message => simp [BufferedBuilder.writeManifest, IoM.bind, IoM.lift, hprint, jsonResult, Except.map] at hwrite
    | ok printed =>
        obtain ⟨-, rfl⟩ := TwoShards.only_eq_ok hprint
        have hfits : TwoShards.manifestText.length < BufWriter.capacity := by decide +kernel
        have hsmall : (BufWriter.new ["manifest.json"]).writes undisturbed (onePiece.jsonPieces TwoShards.manifestText) =
            IoM.pure ⟨["manifest.json"], TwoShards.manifestText⟩ := by
          simp only [onePiece, BufWriter.writes]
          rw [BufWriter.write, if_pos (by exact hfits)]
          rfl
        simp only [BufferedBuilder.writeManifest, IoM.bind, IoM.lift, hprint, jsonResult, Except.map, Io.create, hsmall,
          IoM.pure, undisturbed, Except.ok.injEq, Prod.mk.injEq] at hwrite
        rw [← hwrite.1]
  · rw [handed_twoSamples] at herror
    cases herror

/-- A disk on which one operation fails. -/
def fullAt (n : ℕ) : Faults CacheError := fun k => if k = n then some ⟨0, .io "No space left on device"⟩ else none

/-- The disk is full when the manifest is flushed: `finish` succeeds, and the manifest is not in its file. -/
theorem finish_loses_manifest : ∃ n manifest io,
    twoSamples.writeCache TwoShards.lib onePiece (fullAt n) ⟨.empty, 0⟩ = .ok (manifest, io) ∧
    twoSamples.handed TwoShards.lib ≠ .ok io.tree := by
  obtain ⟨n, manifest, w, t, base, text, hfiles, hholds, hdir, hbuffer⟩ := twoSamples_files
  have hclear : Clear (fullAt n) 0 n := by
    intro k hk
    rw [Nat.zero_add]
    exact if_neg (Nat.ne_of_lt hk)
  obtain ⟨io, hwrite, hdrop⟩ := writeCache_of_clear hfiles hclear
  refine ⟨n, manifest, io, hwrite, fun heq => ?_⟩
  rw [handed_twoSamples, Except.ok.injEq] at heq
  rcases (BufWriter.drop_complete_iff hholds (fullAt n) n hdrop).mp (heq.symm.trans hdir.symm) with hnil | hnone
  · rw [hbuffer] at hnil
    cases hnil
  · simp [fullAt] at hnone

/-- On a disk that never fails the two samples are complete, and load. -/
theorem finish_complete_two_samples : ∃ manifest io cache,
    twoSamples.writeCache TwoShards.lib onePiece undisturbed ⟨.empty, 0⟩ = .ok (manifest, io) ∧
    twoSamples.handed TwoShards.lib = .ok io.tree ∧
    loadCache TwoShards.lib TwoShards.fs ["c"] true 0 = .ok cache := by
  obtain ⟨hiff, hloads⟩ := finish_complete_iff TwoShards.lib onePiece twoSamples undisturbed
  obtain ⟨n, manifest, w, t, base, text, hfiles, -⟩ := twoSamples_files
  obtain ⟨io, hwrite, -⟩ := writeCache_of_clear hfiles (clear_undisturbed 0 n)
  obtain ⟨cache, hcache⟩ := hloads TwoShards.lawful_lib trivial TwoShards.dir TwoShards.fs handed_twoSamples
    (FileTree.sub_graft _ _ _) TwoShards.sized_fs true 0
  exact ⟨manifest, io, cache, hwrite, hiff.mpr (fun _ _ _ _ => .inr (.inr rfl)) manifest io hwrite, hcache⟩

end CacheInput

end DatasetRt
