import DatasetRt.LoadedCache
import DatasetRt.ManifestCodec

/-! # A finished cache is read back

The builder spreads a sample over a shard file, an index row, a metadata row and the manifest;
the reader puts it together again.  `History` is what a builder has done so far, told once: the
shards it closed and, for every accepted sample, the row, the record and the index entry made of
it.  `Inv` ties the fields of the builder and the files below its path to a history, and
`reads_back` follows from it at `finish`. -/

namespace DatasetRt

/-! ### Names of shards -/

theorem shardName_injective : Function.Injective shardName := by
  intro i j h
  have hpad := List.append_cancel_right (String.ofList_injective h)
  have hread := congrArg (fun l => Nat.ofDigitChars 10 l 0) hpad
  simpa [Nat.ofDigitChars_append, Nat.ofDigitChars_replicate_zero, Nat.ofDigitChars_ten_toDigits]
    using hread

theorem shardName_plain (id : ℕ) :
    '/' ∉ (shardName id).toList ∧ shardName id ≠ "" ∧ shardName id ≠ "." := by
  have hlist : (shardName id).toList =
      List.replicate (6 - (Nat.toDigits 10 id).length) '0' ++ Nat.toDigits 10 id ++ ".bin".toList := by
    simp [shardName]
  have hlen : 4 ≤ (shardName id).toList.length := by
    rw [hlist, List.length_append]
    exact Nat.le_add_left 4 _
  refine ⟨?_, ?_, ?_⟩
  · rw [hlist]
    simp only [List.mem_append, not_or]
    refine ⟨⟨by simp, fun hmem => ?_⟩, by decide⟩
    have := Nat.isDigit_of_mem_toDigits (by norm_num) (by norm_num) hmem
    exact absurd this (by decide)
  · intro h
    rw [h] at hlen
    exact absurd hlen (by decide)
  · intro h
    rw [h] at hlen
    exact absurd hlen (by decide)

/-- The loader looks for a shard where the builder put it. -/
theorem shardPath_eq (path : Path) {shard : ShardManifest} (id : ℕ) (h : shard.name = shardName id) :
    shardPath path shard = path ++ shardFile shard.name := by
  obtain ⟨hslash, hne, hdot⟩ := shardName_plain id
  rw [shardPath, h, Path.join_of_plain path (show '/' ∉ "shards".toList by decide) (by decide) (by decide),
    Path.join_of_plain _ hslash hne hdot]
  simp [shardFile]

theorem getElem?_append_singleton {α : Type} {l : List α} {a b : α} {i : ℕ} :
    (l ++ [a])[i]? = some b ↔ l[i]? = some b ∨ (i = l.length ∧ a = b) := by
  rcases Nat.lt_trichotomy i l.length with hi | rfl | hi
  · simp [List.getElem?_append_left hi, Nat.ne_of_lt hi]
  · simp
  · rw [List.getElem?_append_right hi.le, List.getElem?_eq_none (l := l) hi.le,
      List.getElem?_eq_none (by simp only [List.length_singleton]; omega)]
    simp [Nat.ne_of_gt hi]

/-! ### What a builder has done -/

/-- An accepted sample with all that was made of it. -/
structure Push where
  data : Bytes
  metadata : MetadataMap
  /-- The schema at that time. -/
  schema : List MetadataField
  row : Row
  record : EncodedRecord
  entry : IndexEntry

structure History where
  closed : List OpenShard
  pushes : List Push

/-- The values of a metadata map in schema order. -/
def valuesInOrder (schema : List MetadataField) (metadata : MetadataMap) : Option Row :=
  schema.mapM fun field => metadata[field.name]?

/-- Shard number `i` as far as it is written. -/
structure OpenShard.Sound (i : ℕ) (s : OpenShard) : Prop where
  id : s.id = i
  id_lt : i < wordSize
  name : s.name = shardName i
  byteLen : s.byteLen = s.writer.length
  byteLen_lt : s.byteLen < wordSize
  uncompressed_lt : s.uncompressedByteLen < wordSize
  hasher : s.hasher = s.writer

/-- The entry finds the record in its shard, and the shard allows for its length. -/
def Stored (shards : List OpenShard) (entry : IndexEntry) (record : EncodedRecord) : Prop :=
  ∃ s, shards[entry.shardId]? = some s ∧
    s.writer.slice entry.offset (entry.offset + entry.byteLen) = some record.bytes ∧
    record.uncompressedByteLen ≤ s.uncompressedByteLen

section invariant

variable (L : StorageLib)

/-- A sample was encoded with its values and its record lies in a shard.  A sample pushed before
the schema was fixed has no values. -/
structure Push.Sound (b : CacheBuilder) (shards : List OpenShard) (p : Push) : Prop where
  encoded : encodeStoredRecord L p.data p.schema p.row b.shardCompression = .ok p.record
  values : valuesInOrder p.schema p.metadata = some p.row
  schema : p.schema = b.schema ∨ p.row = []
  stored : Stored shards p.entry p.record

/-- The builder and its directory are the result of a history. -/
structure CacheBuilder.Inv (b : CacheBuilder) (h : History) : Prop where
  shards : b.shards = h.closed.map fun s => s.finish L b.shardCompression
  sound : ∀ i s, (h.closed ++ [b.currentShard])[i]? = some s → OpenShard.Sound i s
  files : ∀ s ∈ h.closed, b.dir.read (shardFile s.name) = some s.writer
  index : b.index = h.pushes.map Push.entry
  rows : b.metadataRows = h.pushes.map Push.row
  pushes : ∀ p ∈ h.pushes, p.Sound L b (h.closed ++ [b.currentShard])
  schema : SchemaOk b.schema

/-- Shards are only appended to, and new ones come last. -/
def Grown (shards shards' : List OpenShard) : Prop :=
  ∀ (i : ℕ) (s : OpenShard), shards[i]? = some s →
    ∃ s' : OpenShard, shards'[i]? = some s' ∧ s.writer <+: s'.writer ∧
      s.uncompressedByteLen ≤ s'.uncompressedByteLen

theorem Stored.grown {shards shards' : List OpenShard} (hgrown : Grown shards shards')
    {entry : IndexEntry} {record : EncodedRecord} (h : Stored shards entry record) :
    Stored shards' entry record := by
  obtain ⟨s, hs, hslice, hlen⟩ := h
  obtain ⟨s', hs', ⟨added, hadded⟩, hmore⟩ := hgrown _ s hs
  exact ⟨s', hs', by rw [← hadded]; exact Bytes.slice_append_right hslice, hlen.trans hmore⟩

theorem grown_append (shards more : List OpenShard) : Grown shards (shards ++ more) := by
  intro i s hs
  have hi : i < shards.length := (List.getElem?_eq_some_iff.mp hs).1
  exact ⟨s, by rw [List.getElem?_append_left hi]; exact hs, List.prefix_refl _, le_refl _⟩

theorem grown_last (closed : List OpenShard) {s s' : OpenShard} (hwriter : s.writer <+: s'.writer)
    (hlen : s.uncompressedByteLen ≤ s'.uncompressedByteLen) : Grown (closed ++ [s]) (closed ++ [s']) := by
  intro i t ht
  rcases getElem?_append_singleton.mp ht with ht | ⟨rfl, rfl⟩
  · exact ⟨t, getElem?_append_singleton.mpr (.inl ht), List.prefix_refl _, le_refl _⟩
  · exact ⟨s', getElem?_append_singleton.mpr (.inr ⟨rfl, rfl⟩), hwriter, hlen⟩

theorem Push.Sound.grown {b b' : CacheBuilder} {shards shards' : List OpenShard} {p : Push}
    (h : p.Sound L b shards) (hcompression : b'.shardCompression = b.shardCompression)
    (hschema : b'.schema = b.schema ∨ b.schema = []) (hgrown : Grown shards shards') :
    p.Sound L b' shards' where
  encoded := by rw [hcompression]; exact h.encoded
  values := h.values
  schema := by
    rcases h.schema with heq | hnil
    · rcases hschema with hsame | hempty
      · exact .inl (heq.trans hsame.symm)
      · -- the sample came before the schema was fixed
        refine .inr ?_
        have hvalues := h.values
        rw [heq, hempty] at hvalues
        simpa [valuesInOrder] using hvalues.symm
    · exact .inr hnil
  stored := h.stored.grown hgrown

end invariant

/-! ### One sample -/

section steps

variable {L : StorageLib}

theorem valuesInOrder_of_mapM {error : String → CacheError} {what : String} {metadata : MetadataMap}
    {schema : List MetadataField} {row : Row}
    (h : schema.mapM (fieldValue error what metadata) = .ok row) :
    valuesInOrder schema metadata = some row := by
  have hall := mapM_eq_ok_iff.mp h
  clear h
  induction hall with
  | nil => rfl
  | @cons field value schema row hfield _ ih =>
      have hget : metadata[field.name]? = some value := by
        unfold fieldValue at hfield
        cases hlookup : metadata[field.name]? with
        | none => simp [hlookup] at hfield
        | some v =>
            simp only [hlookup] at hfield
            split_ifs at hfield
            cases hfield
            rfl
      unfold valuesInOrder at ih ⊢
      rw [List.mapM_cons, hget, ih]
      rfl

/-- The schema is fixed by the first sample that has metadata; a row holds its values. -/
theorem CacheBuilder.validateMetadata_ok {schema schema' : List MetadataField} {metadata : MetadataMap}
    {row : Row} (h : validateMetadata schema metadata = (schema', .ok row)) (hok : SchemaOk schema) :
    SchemaOk schema' ∧ (schema' = schema ∨ schema = []) ∧ valuesInOrder schema' metadata = some row := by
  unfold validateMetadata at h
  obtain ⟨hschema, hrow⟩ := Prod.mk.injEq _ _ _ _ ▸ h
  rw [hschema] at hrow
  split_ifs at hrow
  refine ⟨?_, ?_, valuesInOrder_of_mapM hrow⟩
  · rw [← hschema]
    split_ifs
    · simpa [SchemaOk, List.map_map, Function.comp_def] using nodup_keys_toList metadata
    · exact hok
  · rw [← hschema]
    split_ifs with hempty
    · exact .inr hempty
    · exact .inl rfl

theorem OpenShard.sound_create {i : ℕ} (h : i < wordSize) : (OpenShard.create i).Sound i :=
  ⟨rfl, h, rfl, rfl, by norm_num [OpenShard.create, wordSize], by norm_num [OpenShard.create, wordSize], rfl⟩

theorem OpenShard.writePayload_ok {i : ℕ} {s s' : OpenShard} {data : Bytes} {len : ℕ} {entry : IndexEntry}
    (hs : s.Sound i) (h : s.writePayload data len = .ok (s', entry)) :
    s'.Sound i ∧ s'.writer = s.writer ++ data ∧
      s'.uncompressedByteLen = s.uncompressedByteLen + len ∧
      entry = ⟨i, s.writer.length, data.length⟩ := by
  obtain ⟨dataLen, hdata, h⟩ := bind_eq_ok h
  obtain ⟨byteLen, hbyte, h⟩ := bind_eq_ok h
  obtain ⟨uncompressed, hun, h⟩ := bind_eq_ok h
  obtain ⟨rfl, -⟩ := lengthU64_ok hdata
  obtain ⟨hlt, rfl⟩ := checkedAdd_eq_some.mp (okOr_eq_ok.mp hbyte)
  obtain ⟨hlt', rfl⟩ := checkedAdd_eq_some.mp (okOr_eq_ok.mp hun)
  cases h
  refine ⟨⟨hs.id, hs.id_lt, hs.name, ?_, hlt, hlt', ?_⟩, rfl, rfl, ?_⟩
  · simp [hs.byteLen]
  · simp [hs.hasher]
  · simp [hs.id, hs.byteLen]

/-- A closed shard is in its file, whatever is created or closed later. -/
theorem CacheBuilder.Inv.rotate {b b' : CacheBuilder} {h : History} {len : ℕ} (hinv : b.Inv L h)
    (hrotate : b.rotateShardIfNeeded L len = (b', .ok ())) :
    ∃ closed, b'.Inv L { h with closed } ∧ b'.schema = b.schema ∧
      b'.shardCompression = b.shardCompression := by
  unfold rotateShardIfNeeded at hrotate
  split_ifs at hrotate with hempty hroom
  · cases hrotate
    exact ⟨h.closed, hinv, rfl, rfl⟩
  · cases hrotate
    exact ⟨h.closed, hinv, rfl, rfl⟩
  · have hcur : b.currentShard.Sound h.closed.length :=
      hinv.sound _ _ (getElem?_append_singleton.mpr (.inr ⟨rfl, rfl⟩))
    cases hnext : checkedAdd b.currentShard.id 1 with
    | none => simp [hnext] at hrotate
    | some nextId =>
        obtain ⟨hlt, rfl⟩ := checkedAdd_eq_some.mp hnext
        simp only [hnext, Prod.mk.injEq, and_true] at hrotate
        subst hrotate
        have hname : ∀ s ∈ h.closed, s.name ≠ b.currentShard.name ∧
            s.name ≠ shardName (b.currentShard.id + 1) := by
          intro s hs
          obtain ⟨i, hi, rfl⟩ := List.getElem_of_mem hs
          have hsound := hinv.sound i _ (getElem?_append_singleton.mpr
            (.inl (List.getElem?_eq_getElem hi)))
          rw [hsound.name, hcur.name, hcur.id]
          exact ⟨fun he => by have := shardName_injective he; omega,
            fun he => by have := shardName_injective he; omega⟩
        refine ⟨h.closed ++ [b.currentShard], ⟨?_, ?_, ?_, hinv.index, hinv.rows, ?_, hinv.schema⟩,
          rfl, rfl⟩
        · simp [hinv.shards]
        · intro i s hs
          rcases getElem?_append_singleton.mp hs with hs | ⟨rfl, rfl⟩
          · exact hinv.sound i s hs
          · rw [hcur.id] at hlt ⊢
            rw [List.length_append]
            exact OpenShard.sound_create hlt
        · intro s hs
          rcases List.mem_append.mp hs with hs | hs
          · obtain ⟨h₁, h₂⟩ := hname s hs
            rw [FileTree.read_write_of_ne _ (by simpa [shardFile] using h₁),
              FileTree.read_write_of_ne _ (by simpa [shardFile] using h₂)]
            exact hinv.files s hs
          · rw [List.mem_singleton.mp hs, FileTree.read_write_self]
        · intro p hp
          exact (hinv.pushes p hp).grown L rfl (.inl rfl) (grown_append _ _)

theorem CacheBuilder.Inv.record {c : CacheBuilder} {closed : List OpenShard} {pushes : List Push}
    (hc : c.Inv L ⟨closed, pushes⟩) {data : Bytes} {metadata : MetadataMap} {row : Row}
    {record : EncodedRecord} {shard : OpenShard} {entry : IndexEntry}
    (henc : encodeStoredRecord L data c.schema row c.shardCompression = .ok record)
    (hvalues : valuesInOrder c.schema metadata = some row)
    (hw : c.currentShard.writePayload record.bytes record.uncompressedByteLen = .ok (shard, entry)) :
    ({ c with
        currentShard := shard
        index := c.index ++ [entry]
        metadataRows := c.metadataRows ++ [row] } : CacheBuilder).Inv L
      ⟨closed, pushes ++ [⟨data, metadata, c.schema, row, record, entry⟩]⟩ := by
  have hcur : c.currentShard.Sound closed.length :=
    hc.sound _ _ (getElem?_append_singleton.mpr (.inr ⟨rfl, rfl⟩))
  obtain ⟨hsound, hwriter, hlen, rfl⟩ := OpenShard.writePayload_ok hcur hw
  have hgrown : Grown (closed ++ [c.currentShard]) (closed ++ [shard]) :=
    grown_last closed (by rw [hwriter]; exact List.prefix_append _ _) (by omega)
  refine ⟨hc.shards, ?_, hc.files, by simp [hc.index], by simp [hc.rows], ?_, hc.schema⟩
  · intro i s hs
    rcases getElem?_append_singleton.mp hs with hs | ⟨rfl, rfl⟩
    · exact hc.sound i s (getElem?_append_singleton.mpr (.inl hs))
    · exact hsound
  · intro p hp
    rcases List.mem_append.mp hp with hp | hp
    · exact (hc.pushes p hp).grown L rfl (.inl rfl) hgrown
    · rw [List.mem_singleton.mp hp]
      refine ⟨henc, hvalues, .inl rfl, shard, getElem?_append_singleton.mpr (.inr ⟨rfl, rfl⟩), ?_, ?_⟩
      · rw [hwriter]
        simpa using Bytes.slice_append c.currentShard.writer record.bytes []
      · rw [hlen]
        exact Nat.le_add_left _ _

theorem CacheBuilder.Inv.pushSample {b b' : CacheBuilder} {h : History} {data : Bytes}
    {metadata : MetadataMap} (hinv : b.Inv L h) (hpush : b.pushSample L data metadata = (b', .ok ())) :
    ∃ closed p, b'.Inv L ⟨closed, h.pushes ++ [p]⟩ ∧ p.data = data ∧ p.metadata = metadata ∧
      b'.shardCompression = b.shardCompression := by
  unfold CacheBuilder.pushSample at hpush
  rcases hv : validateMetadata b.schema metadata with ⟨schema, result⟩
  rw [hv] at hpush
  cases result with
  | error error => simp at hpush
  | ok row =>
      obtain ⟨hschema, hchange, hvalues⟩ := validateMetadata_ok hv hinv.schema
      simp only at hpush
      cases henc : encodeStoredRecord L data schema row b.shardCompression with
      | error error => simp [henc] at hpush
      | ok record =>
          simp only [henc, pushRecord] at hpush
          have hfixed : ({ b with schema } : CacheBuilder).Inv L h :=
            ⟨hinv.shards, hinv.sound, hinv.files, hinv.index, hinv.rows,
              fun p hp => (hinv.pushes p hp).grown L rfl hchange (fun i s hs =>
                ⟨s, hs, List.prefix_refl _, le_refl _⟩), hschema⟩
          rcases hr : rotateShardIfNeeded L { b with schema } record.bytes.length with ⟨c, result⟩
          rw [hr] at hpush
          cases result with
          | error error => simp at hpush
          | ok _ =>
              obtain ⟨closed, hc, hcs, hcc⟩ := hfixed.rotate hr
              simp only at hpush
              cases hw : c.currentShard.writePayload record.bytes record.uncompressedByteLen with
              | error error => simp [hw] at hpush
              | ok written =>
                  obtain ⟨shard, entry⟩ := written
                  simp only [hw, Prod.mk.injEq, and_true] at hpush
                  subst hpush
                  simp only at hcs hcc
                  rw [← hcs] at henc hvalues
                  rw [← hcc] at henc
                  exact ⟨closed, _, hc.record henc hvalues hw, rfl, rfl, hcc⟩

/-- The samples of a history. -/
def History.samples (h : History) : List (Bytes × MetadataMap) := h.pushes.map fun p => (p.data, p.metadata)

theorem CacheBuilder.Inv.pushAll : ∀ {samples : List (Bytes × MetadataMap)} {b b' : CacheBuilder}
    {h : History}, b.Inv L h → b.pushAll L samples = (b', .ok ()) →
    ∃ h', b'.Inv L h' ∧ h'.samples = h.samples ++ samples ∧ b'.shardCompression = b.shardCompression
  | [], b, b', h, hinv, hpush => by
      cases hpush
      exact ⟨h, hinv, by simp, rfl⟩
  | (data, metadata) :: rest, b, b', h, hinv, hpush => by
      unfold CacheBuilder.pushAll at hpush
      rcases hone : b.pushSample L data metadata with ⟨c, result⟩
      rw [hone] at hpush
      cases result with
      | error error => simp at hpush
      | ok _ =>
          obtain ⟨closed, p, hc, rfl, rfl, hcc⟩ := hinv.pushSample hone
          obtain ⟨h', hinv', hsamples, hcompression⟩ := hc.pushAll hpush
          refine ⟨h', hinv', ?_, hcompression.trans hcc⟩
          rw [hsamples]
          simp [History.samples]

theorem CacheBuilder.inv_create {present parents : Bool} {path : Path} {sourceName : String}
    {maxShardBytes : ℕ} {compression : ShardCompression} {b : CacheBuilder}
    (h : create present parents path sourceName maxShardBytes compression = .ok b) :
    b.Inv L ⟨[], []⟩ ∧ b.shardCompression = compression := by
  unfold create at h
  split_ifs at h
  cases h
  refine ⟨⟨rfl, ?_, by simp, rfl, rfl, by simp, by simp [SchemaOk]⟩, rfl⟩
  intro i s hs
  rcases getElem?_append_singleton.mp hs with hs | ⟨rfl, rfl⟩
  · simp at hs
  · exact OpenShard.sound_create (by norm_num [wordSize])

/-! ### The finished directory -/

/-- The files of a finished cache. -/
structure Finished (L : StorageLib) (b : CacheBuilder) (h : History) (dir : FileTree)
    (manifest : Manifest) (metadata : Bytes) : Prop where
  nonempty : h.pushes ≠ []
  encodedRows : metadataFileBytes L b.schema b.metadataRows = .ok metadata
  metadataFile : dir.read ["metadata.arrow"] = some metadata
  indexFile : dir.read ["index.bin"] = some (indexBytes b.index)
  shardFiles : ∀ s ∈ h.closed ++ [b.currentShard], dir.read (shardFile s.name) = some s.writer
  manifestFile : ∃ text, L.json.print manifest.toJson = .ok text ∧ dir.read ["manifest.json"] = some text
  manifest_eq : manifest = b.manifestOf L (hexEncode (L.sha256 metadata))
    (hexEncode (L.sha256 (indexBytes b.index)))
    ((h.closed ++ [b.currentShard]).map fun s => s.finish L b.shardCompression)

theorem CacheBuilder.Inv.finish {b : CacheBuilder} {h : History} {dir : FileTree} {manifest : Manifest}
    (hinv : b.Inv L h) (hfinish : b.finish L = (dir, .ok manifest)) :
    ∃ metadata, Finished L b h dir manifest metadata := by
  have hindex : ¬ b.index = [] := by
    intro hnil
    simp [CacheBuilder.finish, hnil] at hfinish
  rw [CacheBuilder.finish, if_neg hindex] at hfinish
  cases hmeta : metadataFileBytes L b.schema b.metadataRows with
  | error error => simp [hmeta] at hfinish
  | ok metadata =>
      simp only [hmeta] at hfinish
      rcases hprint : jsonResult (L.json.print (b.manifestOf L (hexEncode (L.sha256 metadata))
        (hexEncode (L.sha256 (indexBytes b.index)))
        (b.shards ++ [b.currentShard.finish L b.shardCompression])).toJson) with error | text
      · simp [hprint] at hfinish
      · simp only [hprint, Prod.mk.injEq, Except.ok.injEq] at hfinish
        obtain ⟨rfl, rfl⟩ := hfinish
        have hcur : b.currentShard.Sound h.closed.length :=
          hinv.sound _ _ (getElem?_append_singleton.mpr (.inr ⟨rfl, rfl⟩))
        refine ⟨metadata, ?_, hmeta, ?_, ?_, ?_, ⟨text, jsonResult_ok hprint, ?_⟩, ?_⟩
        · rintro hnil
          exact hindex (by rw [hinv.index, hnil]; rfl)
        · rw [FileTree.read_write_of_ne _ (by decide), FileTree.read_write_of_ne _ (by decide),
            FileTree.read_write_self]
        · rw [FileTree.read_write_of_ne _ (by decide), FileTree.read_write_self]
        · intro s hs
          rw [FileTree.read_write_of_ne _ (by simp [shardFile]),
            FileTree.read_write_of_ne _ (by simp [shardFile]),
            FileTree.read_write_of_ne _ (by simp [shardFile])]
          rcases List.mem_append.mp hs with hs | hs
          · obtain ⟨i, hi, rfl⟩ := List.getElem_of_mem hs
            have hsound := hinv.sound i _ (getElem?_append_singleton.mpr
              (.inl (List.getElem?_eq_getElem hi)))
            have hne : h.closed[i].name ≠ b.currentShard.name := by
              rw [hsound.name, hcur.name]
              intro he
              have := shardName_injective he
              omega
            rw [FileTree.read_write_of_ne _ (by simpa [shardFile] using hne)]
            exact hinv.files _ hs
          · rw [List.mem_singleton.mp hs, FileTree.read_write_self]
        · rw [FileTree.read_write_self]
        · rw [hinv.shards, List.map_append]
          rfl

end steps

/-! ### Rows -/

section rows

variable {L : StorageLib}

/-- The metadata object of a row survives the JSON library. -/
def ObjectReadsBack (L : StorageLib) (schema : List MetadataField) (row : Row) : Prop :=
  ∀ object text, metadataRowToObject schema row = .ok object → L.encodeObject object = .ok text →
    L.decodeObject text = .ok object

theorem encodeStoredRecord_object {data : Bytes} {schema : List MetadataField} {row : Row}
    {compression : ShardCompression} {record : EncodedRecord}
    (h : encodeStoredRecord L data schema row compression = .ok record) :
    ∃ object text, metadataRowToObject schema row = .ok object ∧ L.encodeObject object = .ok text := by
  have hsample : ∃ payload bytes, encodeSampleRecord L payload schema row = .ok bytes := by
    unfold encodeStoredRecord at h
    split_ifs at h
    · obtain ⟨bytes, hbytes, -⟩ := bind_eq_ok h
      exact ⟨_, _, hbytes⟩
    · obtain ⟨len, hlen, h⟩ := bind_eq_ok h
      obtain ⟨payload, hpayload, h⟩ := bind_eq_ok h
      obtain ⟨bytes, hbytes, -⟩ := bind_eq_ok h
      exact ⟨_, _, hbytes⟩
  obtain ⟨payload, bytes, hbytes⟩ := hsample
  obtain ⟨object, hobject, hbytes⟩ := bind_eq_ok hbytes
  obtain ⟨text, htext, -⟩ := bind_eq_ok hbytes
  exact ⟨object, text, hobject, jsonResult_ok htext⟩

/-- A row that survives JSON equals itself. -/
theorem eqRow_of_readsBack (hL : L.Lawful) {schema : List MetadataField} {row : Row} {data : Bytes}
    {compression : ShardCompression} {record : EncodedRecord} (hschema : SchemaOk schema)
    (hlen : row.length = schema.length) (hback : ObjectReadsBack L schema row)
    (henc : encodeStoredRecord L data schema row compression = .ok record) :
    MetadataValue.eqRow row row = true := by
  obtain ⟨object, text, hobject, htext⟩ := encodeStoredRecord_object henc
  have hvalues := hL.decodeObject text object (hback object text hobject htext)
  rw [metadataRowToObject, if_neg (by simp [hlen])] at hobject
  cases hobject
  have hpair := pairwise_zip row hschema (by simp [hlen])
  refine MetadataValue.eqRow_self fun v hv => ?_
  have hmem : v ∈ ((schema.map MetadataField.name).zip row).map Prod.snd := by
    rw [List.map_snd_zip (by simp [hlen])]
    exact hv
  obtain ⟨p, hp, rfl⟩ := List.mem_map.mp hmem
  exact hvalues p.1 p.2 (Std.ExtTreeMap.getElem?_ofList_of_mem (k := p.1) (by simp) hpair hp)

theorem valuesInOrder_length {metadata : MetadataMap} : ∀ {schema : List MetadataField} {row : Row},
    valuesInOrder schema metadata = some row → row.length = schema.length
  | [], row, h => by
      cases h
      rfl
  | field :: schema, row, h => by
      unfold valuesInOrder at h
      rw [List.mapM_cons] at h
      simp only [Option.pure_def, Option.bind_eq_bind, Option.bind_eq_some_iff, Option.some.injEq] at h
      obtain ⟨value, -, rest, hrest, rfl⟩ := h
      simp [valuesInOrder_length hrest]

theorem Finished.rows (hL : L.Lawful) {b : CacheBuilder} {h : History} {dir : FileTree}
    {manifest : Manifest} {metadata : Bytes} (hinv : b.Inv L h)
    (hfin : Finished L b h dir manifest metadata) :
    readMetadataBytes L metadata b.schema = .ok b.metadataRows ∧
      ∀ p ∈ h.pushes, p.schema = b.schema ∧ RowFits b.schema p.row := by
  have hne : b.metadataRows ≠ [] := by
    rw [hinv.rows]
    simpa using hfin.nonempty
  have hlen : ∀ row ∈ b.metadataRows, row = [] ∨ row.length = b.schema.length := by
    intro row hrow
    rw [hinv.rows] at hrow
    obtain ⟨p, hp, rfl⟩ := List.mem_map.mp hrow
    rcases (hinv.pushes p hp).schema with heq | hnil
    · exact .inr (by rw [valuesInOrder_length (hinv.pushes p hp).values, heq])
    · exact .inl hnil
  obtain ⟨hschema, hfits, hread⟩ := readMetadataBytes_write hL.arrow hfin.encodedRows hne hlen
  refine ⟨hread, fun p hp => ?_⟩
  have hrow : RowFits b.schema p.row := hfits _ (by rw [hinv.rows]; exact List.mem_map_of_mem hp)
  refine ⟨(hinv.pushes p hp).schema.resolve_right fun hnil => hschema ?_, hrow⟩
  exact List.eq_nil_of_length_eq_zero (by rw [List.Forall₂.length_eq hrow, hnil]; rfl)

end rows

/-! ### Loading and reading -/

section load

variable {L : StorageLib} {b : CacheBuilder} {h : History} {dir : FileTree} {manifest : Manifest}
  {metadata : Bytes} {fs : FileTree} {path : Path}

theorem openFile_sub (hfs : fs.sub path = dir) {q : Path} {bytes : Bytes}
    (hread : dir.read q = some bytes) : openFile fs (path ++ q) = .ok bytes := by
  rw [openFile, ← FileTree.read_sub, hfs, hread]
  rfl

theorem pathExists_of_read {q : Path} {bytes : Bytes} (hread : fs.read q = some bytes) :
    fs.pathExists q = true := by
  unfold FileTree.read at hread
  unfold FileTree.pathExists
  cases hq : fs q with
  | none => simp [hq] at hread
  | some node => rfl

theorem CacheBuilder.wellFormed_manifestOf (L : StorageLib) {b : CacheBuilder} (metadataSha256 indexSha256 : String)
    {shards : List ShardManifest} (hcount : b.index.length < wordSize)
    (hshards : ∀ shard ∈ shards, shard.WellFormed ∧ shard.compression = b.shardCompression) :
    (b.manifestOf L metadataSha256 indexSha256 shards).WellFormed := by
  have hid : cacheIdFromName L b.sourceName < wordSize :=
    (Nat.mod_lt _ (by norm_num)).trans (by norm_num [wordSize])
  have hnone : ∀ name : String, (∅ : FieldMap)[name]? = none := fun name => Std.ExtTreeMap.getElem?_empty
  unfold manifestOf
  cases hscope : b.shardCompression.wholeRecord with
  | true =>
      refine ⟨⟨hcount, fun shard hs => (hshards shard hs).1, fun name _ => hnone name⟩, fun shard hs => ?_,
        fun id hidentity => ?_⟩
      · rw [(hshards shard hs).2, hscope]
        rfl
      · cases hidentity
        exact ⟨hid, hnone _⟩
  | false =>
      refine ⟨⟨hcount, fun shard hs => (hshards shard hs).1, fun name _ => hnone name⟩, fun shard hs => ?_,
        fun id hidentity => ?_⟩
      · rw [(hshards shard hs).2, hscope]
        rfl
      · cases hidentity
        exact ⟨hid, hnone _⟩

theorem Finished.wellFormed (hinv : b.Inv L h) (hfin : Finished L b h dir manifest metadata)
    (hvalid : b.shardCompression.Valid) (hcount : b.index.length < wordSize) : manifest.WellFormed := by
  rw [hfin.manifest_eq]
  refine CacheBuilder.wellFormed_manifestOf L _ _ hcount fun shard hshard => ?_
  obtain ⟨s, hs, rfl⟩ := List.mem_map.mp hshard
  obtain ⟨i, hi, rfl⟩ := List.getElem_of_mem hs
  have hsound := hinv.sound i _ (List.getElem?_eq_getElem hi)
  exact ⟨⟨hsound.uncompressed_lt, hsound.byteLen_lt, hvalid⟩, rfl⟩

/-- Every stored record is described by an entry the loader accepts. -/
theorem CacheBuilder.Inv.entry (hinv : b.Inv L h) {p : Push} (hp : p ∈ h.pushes) :
    ∃ s, (h.closed ++ [b.currentShard])[p.entry.shardId]? = some s ∧ s.Sound p.entry.shardId ∧
      s.writer.slice p.entry.offset (p.entry.offset + p.entry.byteLen) = some p.record.bytes ∧
      p.record.uncompressedByteLen ≤ s.uncompressedByteLen ∧
      p.entry.offset + p.entry.byteLen ≤ s.byteLen ∧ readIndexEntry p.entry.toBytes = .ok p.entry := by
  obtain ⟨s, hs, hslice, hlen⟩ := (hinv.pushes p hp).stored
  have hsound := hinv.sound _ s hs
  have hstop : p.entry.offset + p.entry.byteLen ≤ s.byteLen := by
    unfold Bytes.slice at hslice
    split_ifs at hslice with hrange
    rw [hsound.byteLen]
    exact hrange.2
  have hlt := hsound.byteLen_lt
  exact ⟨s, hs, hsound, hslice, hlen, hstop,
    readIndexEntry_toBytes hsound.id_lt (by omega) (by omega)⟩

/-- The cache that loading a finished directory gives. -/
def loadedOf (L : StorageLib) (b : CacheBuilder) (manifest : Manifest) (path : Path) (validate : Bool) :
    LoadedCache where
  cacheId := cacheIdFromName L b.sourceName
  manifest := manifest.reread L.json.reread
  metadataRows := if validate then some b.metadataRows else none
  index := ⟨indexBytes b.index⟩
  path
  validateEmbeddedMetadata := validate

/-- The manifest as it is read back keeps everything but the precision of the ratio. -/
theorem Finished.reread_fields (hfin : Finished L b h dir manifest metadata) (r : Float → Float) :
    (manifest.reread r).fields.metadataSchema = b.schema ∧
      (manifest.reread r).fields.sampleCount = b.index.length ∧
      (manifest.reread r).fields.metadataSha256 = hexEncode (L.sha256 metadata) ∧
      (manifest.reread r).fields.indexSha256 = hexEncode (L.sha256 (indexBytes b.index)) ∧
      (manifest.reread r).fields.shards = (h.closed ++ [b.currentShard]).map
        (fun s => (s.finish L b.shardCompression).reread r) ∧
      (manifest.reread r).wholeRecord = b.shardCompression.wholeRecord ∧
      ∀ position, (manifest.reread r).resolveCacheId position = .ok (cacheIdFromName L b.sourceName) := by
  rw [hfin.manifest_eq, CacheBuilder.manifestOf]
  cases hw : b.shardCompression.wholeRecord <;>
    exact ⟨rfl, rfl, rfl, rfl, List.map_map, rfl, fun _ => rfl⟩

theorem Finished.shard_of (hfin : Finished L b h dir manifest metadata) (r : Float → Float) {i : ℕ}
    {s : OpenShard} (hs : (h.closed ++ [b.currentShard])[i]? = some s) :
    (manifest.reread r).fields.shards[i]? = some ((s.finish L b.shardCompression).reread r) := by
  obtain ⟨-, -, -, -, hshards, -⟩ := hfin.reread_fields r
  rw [hshards, List.getElem?_map, hs]
  rfl

theorem Finished.verifyShard (hfin : Finished L b h dir manifest metadata) (hfs : fs.sub path = dir)
    {r : Float → Float} {s : OpenShard} {i : ℕ} (hs : s ∈ h.closed ++ [b.currentShard]) (hsound : s.Sound i)
    (validate : Bool) :
    verifyShard L fs path validate ((s.finish L b.shardCompression).reread r) = .ok () := by
  have hpath : shardPath path ((s.finish L b.shardCompression).reread r) = path ++ shardFile s.name :=
    shardPath_eq path i hsound.name
  have hopen := openFile_sub hfs (hfin.shardFiles s hs)
  have hlen : ((s.finish L b.shardCompression).reread r).byteLen = s.writer.length := hsound.byteLen
  have hsha : ((s.finish L b.shardCompression).reread r).sha256 = hexEncode (L.sha256 s.writer) := by
    simp [ShardManifest.reread, OpenShard.finish, hsound.hasher]
  simp only [DatasetRt.verifyShard, hpath, hopen, bind, Except.bind, hlen, ne_eq, not_true_eq_false,
    if_false, verifyFileChecksum, hashFile, hsha]
  cases validate <;> rfl

theorem Finished.readManifest (hL : L.Lawful) (hfin : Finished L b h dir manifest metadata)
    (hwell : manifest.WellFormed) (hfs : fs.sub path = dir) :
    readManifest L fs path = .ok (manifest.reread L.json.reread) := by
  obtain ⟨text, hprint, hfile⟩ := hfin.manifestFile
  have hopen := openFile_sub hfs hfile
  have hexists := pathExists_of_read (okOr_eq_ok.mp hopen)
  rw [DatasetRt.readManifest, Path.join_of_plain path (by decide) (by decide) (by decide)]
  simp only [hexists, if_true, hopen, bind, Except.bind, hL.json.parse_print _ _ hprint, jsonResult]
  exact Manifest.ofJson_toJson hL.json hwell

/-- **Loading.**  A finished directory loads, validated or not. -/
theorem Finished.loadCache (hL : L.Lawful) (hinv : b.Inv L h)
    (hfin : Finished L b h dir manifest metadata) (hvalid : b.shardCompression.Valid)
    (hfs : fs.sub path = dir) (hsized : fs.Sized) (validate : Bool) (position : ℕ) :
    loadCache L fs path validate position = .ok (loadedOf L b manifest path validate) := by
  have hplain : ∀ name : String, '/' ∉ name.toList → name ≠ "" → name ≠ "." →
      path.join name = path ++ [name] := fun name h₁ h₂ h₃ => Path.join_of_plain path h₁ h₂ h₃
  have hindexFile := openFile_sub hfs hfin.indexFile
  have hmetaFile := openFile_sub hfs hfin.metadataFile
  have hfits : (indexBytes b.index).length < wordSize :=
    hsized (path ++ ["index.bin"]) _ (okOr_eq_ok.mp hindexFile)
  have hcount : b.index.length < wordSize := by
    rw [length_indexBytes, indexRowBytes] at hfits
    omega
  obtain ⟨hschema, hsamples, hmetaSha, hindexSha, hshards, -, hid⟩ := hfin.reread_fields L.json.reread
  obtain ⟨hrows, -⟩ := hfin.rows hL hinv
  have hmanifest := hfin.readManifest hL (hfin.wellFormed hinv hvalid hcount) hfs
  have hchecksum : verifyChecksums L fs path (manifest.reread L.json.reread) validate = .ok () := by
    cases validate with
    | false => rfl
    | true =>
        simp only [verifyChecksums, if_true, verifyFileChecksum, hashFile,
          hplain "metadata.arrow" (by decide) (by decide) (by decide),
          hplain "index.bin" (by decide) (by decide) (by decide), hmetaFile, hindexFile, bind,
          Except.bind, hmetaSha, hindexSha, ne_eq, not_true_eq_false, if_false]
  have hverify : verifyShards L fs path (manifest.reread L.json.reread) validate = .ok () := by
    rw [verifyShards, hshards]
    refine forM_eq_ok_iff.mpr fun shard hshard => ?_
    obtain ⟨s, hs, rfl⟩ := List.mem_map.mp hshard
    obtain ⟨i, hi, rfl⟩ := List.getElem_of_mem hs
    exact hfin.verifyShard hfs hs (hinv.sound i _ (List.getElem?_eq_getElem hi)) validate
  have hindex : MappedIndex.openFile fs (path.join "index.bin") = .ok ⟨indexBytes b.index⟩ := by
    rw [MappedIndex.openFile, hplain "index.bin" (by decide) (by decide) (by decide), ioResult,
      okOr_eq_ok.mp hindexFile]
    simp [okOr, bind, Except.bind]
  have hload : loadRows L fs path (manifest.reread L.json.reread) validate =
      .ok (if validate then some b.metadataRows else none) := by
    have hexists := pathExists_of_read (okOr_eq_ok.mp hmetaFile)
    rw [loadRows, hplain "metadata.arrow" (by decide) (by decide) (by decide)]
    cases validate with
    | false => simp [hexists]
    | true => simp [readMetadataFile, hmetaFile, bind, Except.bind, hschema, hrows, Except.map]
  have hshapes : validateLoadedShapes (manifest.reread L.json.reread)
      (if validate then some b.metadataRows else none) ⟨indexBytes b.index⟩ = .ok () := by
    have hlen : b.metadataRows.length = b.index.length := by rw [hinv.rows, hinv.index]; simp
    have hany : ((if validate then some b.metadataRows else none).any fun rows =>
        rows.length ≠ b.index.length) = false := by
      cases validate <;> simp [hlen]
    rw [validateLoadedShapes]
    simp only [hsamples, hany, MappedIndex.len_indexBytes, ne_eq, not_true_eq_false, if_false,
      Bool.false_eq_true]
    refine forM_eq_ok_iff.mpr fun entry hentry => ?_
    obtain ⟨i, hi, rfl⟩ := List.mem_map.mp hentry
    rw [List.mem_range, MappedIndex.len_indexBytes] at hi
    rw [indexBytes_row _ i hi]
    have hmem : b.index[i] ∈ h.pushes.map Push.entry := hinv.index ▸ List.getElem_mem hi
    obtain ⟨p, hp, hpe⟩ := List.mem_map.mp hmem
    obtain ⟨s, hs, -, -, -, -, hread⟩ := hinv.entry hp
    have hshard := (hfin.shard_of L.json.reread hs)
    rw [← hpe, hread]
    simp only [checkEntry, bind, Except.bind, hshard, Option.isNone_some, Bool.false_eq_true, if_false]
  simp only [DatasetRt.loadCache, hmanifest, hid, hchecksum, hverify, hindex, hload, hshapes, bind,
    Except.bind, loadedOf]

/-- **Reading.**  A read finds its sample through any set of open files of the same tree. -/
theorem Finished.readSample (hL : L.Lawful) (hinv : b.Inv L h)
    (hfin : Finished L b h dir manifest metadata) (hfs : fs.sub path = dir) (hsized : fs.Sized)
    (hjson : ∀ row ∈ b.metadataRows, ObjectReadsBack L b.schema row) (validate : Bool)
    {i : ℕ} {p : Push} (hp : h.pushes[i]? = some p) {readers : ShardReaderCache}
    (hfresh : readers.Fresh fs) :
    ((loadedOf L b manifest path validate).readSampleWithCache L fs i readers).2 =
        .ok { data := p.data, metadata := p.row } ∧
      ((loadedOf L b manifest path validate).readSampleWithCache L fs i readers).1.Fresh fs := by
  have hmem := List.mem_of_getElem? hp
  obtain ⟨hi, rfl⟩ := List.getElem?_eq_some_iff.mp hp
  obtain ⟨s, hs, hsound, hslice, hmax, hstop, hentry⟩ := hinv.entry hmem
  obtain ⟨hschema, -, -, -, -, hscope, -⟩ := hfin.reread_fields L.json.reread
  obtain ⟨-, hfits⟩ := hfin.rows hL hinv
  obtain ⟨hsame, hrow⟩ := hfits _ hmem
  have hpush := hinv.pushes _ hmem
  have hback : ObjectReadsBack L b.schema h.pushes[i].row :=
    hjson _ (by rw [hinv.rows]; exact List.mem_map_of_mem hmem)
  have hindexlen : i < b.index.length := by rw [hinv.index, List.length_map]; exact hi
  have hindexget : b.index[i] = h.pushes[i].entry := by simp [hinv.index]
  have hshard := hfin.shard_of L.json.reread hs
  have hlocate : (loadedOf L b manifest path validate).locateRecord i =
      .ok (h.pushes[i].entry, (s.finish L b.shardCompression).reread L.json.reread,
        h.pushes[i].entry.offset + h.pushes[i].entry.byteLen) := by
    have hget := MappedIndex.get_indexBytes hindexlen
      (hsized _ _ (okOr_eq_ok.mp (openFile_sub hfs hfin.indexFile)))
    have hlt := hsound.byteLen_lt
    simp only [LoadedCache.locateRecord, loadedOf, hget, hindexget, hentry, bind, Except.bind, hshard, okOr,
      checkedAdd]
    rw [if_pos (by omega)]
  have hdecode : decodeStoredRecord L h.pushes[i].record.bytes (manifest.reread L.json.reread)
      ((s.finish L b.shardCompression).reread L.json.reread) =
      .ok { data := h.pushes[i].data, metadata := h.pushes[i].row } :=
    decodeStoredRecord_encode hL hinv.schema hrow hback (hsame ▸ hpush.encoded) hschema hscope rfl hmax
  have hembedded : (loadedOf L b manifest path validate).validateEmbedded L fs i
      { data := h.pushes[i].data, metadata := h.pushes[i].row } = .ok () := by
    have heq := eqRow_of_readsBack hL hinv.schema (List.Forall₂.length_eq hrow).symm hback
      (hsame ▸ hpush.encoded)
    have hget : b.metadataRows[i]? = some h.pushes[i].row := by simp [hinv.rows, hi]
    cases validate with
    | false => rfl
    | true =>
        simp [LoadedCache.validateEmbedded, loadedOf, LoadedCache.withMetadataRows, bind, Except.bind, hget,
          okOr, LoadedCache.validateRedundantMetadata, heq]
  have hpath : shardPath path ((s.finish L b.shardCompression).reread L.json.reread) =
      path ++ shardFile s.name := shardPath_eq path h.pushes[i].entry.shardId hsound.name
  obtain ⟨hfile, hfresh'⟩ := ShardReaderCache.readerFor_of_fresh hfresh (path ++ shardFile s.name)
  rw [openFile_sub hfs (hfin.shardFiles s (List.mem_of_getElem? hs))] at hfile
  rcases hreader : readers.readerFor fs (path ++ shardFile s.name) with ⟨readers', result⟩
  rw [hreader] at hfile hfresh'
  subst hfile
  have hread : (loadedOf L b manifest path validate).readSampleWithCache L fs i readers =
      (readers', .ok { data := h.pushes[i].data, metadata := h.pushes[i].row }) := by
    have hbound : ¬ ((s.finish L b.shardCompression).reread L.json.reread).byteLen <
        h.pushes[i].entry.offset + h.pushes[i].entry.byteLen := Nat.not_lt.mpr hstop
    simp only [LoadedCache.readSampleWithCache, hlocate]
    have hp' : (loadedOf L b manifest path validate).path = path := rfl
    have hm : (loadedOf L b manifest path validate).manifest = manifest.reread L.json.reread := rfl
    simp only [hp', hpath, hreader, LoadedCache.readRecord, hbound, if_false, hslice, ioResult, okOr, bind,
      Except.bind, hm, hdecode, hembedded]
  rw [hread]
  exact ⟨rfl, hfresh'⟩

end load

/-- The cache at `path` loads, validated or not, and every read, in any order, gives the payload of a
sample and its values in schema order. -/
def HoldsSamples (L : StorageLib) (fs : FileTree) (path : Path) (schema : List MetadataField)
    (samples : List (Bytes × MetadataMap)) : Prop :=
  ∀ (validate : Bool) (position : ℕ), ∃ cache, loadCache L fs path validate position = .ok cache ∧
    cache.sampleCount = samples.length ∧
    ∀ order : List ℕ, (∀ i ∈ order, i < samples.length) →
      List.Forall₂ (fun i result => ∃ data metadata row, samples[i]? = some (data, metadata) ∧
          valuesInOrder schema metadata = some row ∧ result = .ok { data, metadata := row })
        order (cache.readAll L fs .new order).2

/-- A finished cache can be read wherever its directory was moved to. -/
theorem CacheBuilder.holdsSamples {L : StorageLib} (hL : L.Lawful) {compression : ShardCompression}
    (hvalid : compression.Valid) {builderPath path : Path} {sourceName : String} {maxShardBytes : ℕ}
    {b₀ b : CacheBuilder}
    (hcreate : CacheBuilder.create false true builderPath sourceName maxShardBytes compression = .ok b₀)
    {samples : List (Bytes × MetadataMap)} (hpush : b₀.pushAll L samples = (b, .ok ()))
    (hjson : ∀ row ∈ b.metadataRows, ObjectReadsBack L b.schema row)
    {dir : FileTree} {manifest : Manifest} (hfinish : b.finish L = (dir, .ok manifest))
    {fs : FileTree} (hfs : fs.sub path = dir) (hsized : fs.Sized) :
    HoldsSamples L fs path manifest.fields.metadataSchema samples := by
  intro validate position
  obtain ⟨hinv₀, hcomp₀⟩ := CacheBuilder.inv_create (L := L) hcreate
  obtain ⟨h, hinv, hsamples, hcomp⟩ := hinv₀.pushAll hpush
  obtain ⟨metadata, hfin⟩ := hinv.finish hfinish
  rw [History.samples, History.samples, List.map_nil, List.nil_append] at hsamples
  subst hsamples
  have hschema : manifest.fields.metadataSchema = b.schema := by
    rw [hfin.manifest_eq, CacheBuilder.manifestOf]
    split_ifs <;> rfl
  have hread : ∀ (order : List ℕ) (readers : ShardReaderCache), readers.Fresh fs →
      (∀ i ∈ order, i < h.pushes.length) →
      List.Forall₂ (fun i result => ∃ p, h.pushes[i]? = some p ∧
          result = .ok { data := p.data, metadata := p.row })
        order ((loadedOf L b manifest path validate).readAll L fs readers order).2 := by
    intro order
    induction order with
    | nil => exact fun _ _ _ => .nil
    | cons i rest ih =>
        intro readers hfresh hbound
        have hp := List.getElem?_eq_getElem (hbound i List.mem_cons_self)
        obtain ⟨hone, hnext⟩ := hfin.readSample hL hinv hfs hsized hjson validate hp hfresh
        exact .cons ⟨_, hp, hone⟩ (ih _ hnext fun j hj => hbound j (List.mem_cons_of_mem _ hj))
  refine ⟨_, hfin.loadCache hL hinv (by rw [hcomp, hcomp₀]; exact hvalid) hfs hsized validate position,
    ?_, fun order horder => ?_⟩
  · rw [LoadedCache.sampleCount, loadedOf, MappedIndex.len_indexBytes, hinv.index]
    simp
  · refine (hread order .new (ShardReaderCache.fresh_new fs) (by simpa using horder)).imp ?_
    rintro i result ⟨p, hp, rfl⟩
    refine ⟨p.data, p.metadata, p.row, by simp [hp], ?_, rfl⟩
    have hmem := List.mem_of_getElem? hp
    rw [hschema, ← ((hfin.rows hL hinv).2 p hmem).1]
    exact (hinv.pushes p hmem).values

/-- **Write, then read.**  A cache that could be finished loads, validated or not, and every read,
in any order, gives the payload that was pushed and its values in schema order. -/
theorem reads_back {L : StorageLib} (hL : L.Lawful) {compression : ShardCompression}
    (hvalid : compression.Valid) {path : Path} {sourceName : String} {maxShardBytes : ℕ}
    {b₀ b : CacheBuilder}
    (hcreate : CacheBuilder.create false true path sourceName maxShardBytes compression = .ok b₀)
    {samples : List (Bytes × MetadataMap)} (hpush : b₀.pushAll L samples = (b, .ok ()))
    (hjson : ∀ row ∈ b.metadataRows, ObjectReadsBack L b.schema row)
    {dir : FileTree} {manifest : Manifest} (hfinish : b.finish L = (dir, .ok manifest))
    {fs : FileTree} (hfs : fs.sub path = dir) (hsized : fs.Sized) (validate : Bool) (position : ℕ) :
    ∃ cache, loadCache L fs path validate position = .ok cache ∧
      cache.sampleCount = samples.length ∧
      ∀ order : List ℕ, (∀ i ∈ order, i < samples.length) →
        List.Forall₂ (fun i result => ∃ data metadata row, samples[i]? = some (data, metadata) ∧
            valuesInOrder manifest.fields.metadataSchema metadata = some row ∧
            result = .ok { data, metadata := row })
          order (cache.readAll L fs .new order).2 :=
  CacheBuilder.holdsSamples hL hvalid hcreate hpush hjson hfinish hfs hsized validate position

/-! ### Two samples in two shards -/

namespace TwoShards

open Classical in
/-- A library function that knows one input. -/
noncomputable def only {α β : Type} (a : α) (b : β) (x : α) : Except String β :=
  if x = a then .ok b else .error "unexpected input"

theorem only_eq_ok {α β : Type} {a x : α} {b y : β} (h : only a b x = .ok y) : x = a ∧ y = b := by
  unfold only at h
  split_ifs at h with heq
  cases h
  exact ⟨heq, rfl⟩

theorem only_self {α β : Type} (a : α) (b : β) : only a b a = .ok b := if_pos rfl

def metadata : MetadataMap := (∅ : MetadataMap).insert "k" (.bool true)

def schema : List MetadataField := [⟨"k", .bool⟩]

/-- The text `{"k":true}`. -/
def objectText : Bytes := [123, 34, 107, 34, 58, 116, 114, 117, 101, 125]

def record (payload : UInt8) : Bytes := [10, 0, 0, 0, 0, 0, 0, 0] ++ objectText ++ [payload]

def index : List IndexEntry := [⟨0, 0, 19⟩, ⟨1, 0, 19⟩]

def batch : RecordBatch := ⟨arrowSchema schema, [.ofValues .boolean [true, true]], 2⟩

/-- The first bytes of an Arrow file stand for the whole of it; no theorem looks into it. -/
def arrowBytes : Bytes := [65, 82, 82, 79, 87, 49]

/-- The digests of the two shards, of the metadata, of the index and of the name `s`. -/
def digests : List (Bytes × Bytes) := [
  (record 1,
    [209, 200, 244, 240, 223, 72, 210, 5, 244, 153, 181, 65, 221, 74, 90, 179, 75, 62, 144, 0, 95, 3, 143,
      253, 175, 93, 189, 227, 45, 198, 142, 114]),
  (record 2,
    [79, 26, 31, 28, 120, 208, 206, 133, 12, 252, 208, 206, 35, 108, 235, 25, 107, 223, 225, 237, 54, 22,
      163, 53, 120, 232, 24, 203, 100, 219, 127, 167]),
  (arrowBytes,
    [135, 115, 222, 93, 80, 53, 112, 72, 236, 206, 66, 125, 108, 116, 145, 108, 22, 16, 62, 46, 193, 175,
      157, 245, 48, 209, 36, 244, 109, 76, 197, 43]),
  (indexBytes index,
    [186, 221, 220, 198, 72, 103, 86, 124, 133, 109, 99, 184, 37, 117, 57, 234, 187, 234, 113, 203, 23, 68,
      233, 41, 133, 130, 158, 100, 95, 173, 98, 164]),
  ([115],
    [4, 58, 113, 135, 116, 197, 114, 189, 138, 37, 173, 190, 177, 191, 205, 92, 2, 86, 174, 17, 206, 207,
      159, 156, 63, 146, 93, 14, 82, 190, 175, 137])]

/-- What is not in the table has a longer word, so that no two contents have the same. -/
def sha256 (bytes : Bytes) : Bytes := (digests.lookup bytes).getD (List.replicate 33 0 ++ bytes)

def manifest : Manifest :=
  .v4 (Bytes.toNatLe ((sha256 [115]).take 8).reverse % 2 ^ 63)
    { sourceName := "s"
      sampleCount := 2
      metadataSchema := schema
      metadataSha256 := hexEncode (sha256 arrowBytes)
      indexSha256 := hexEncode (sha256 (indexBytes index))
      shards := [⟨shardName 0, 19, 19, .none, hexEncode (sha256 (record 1))⟩,
        ⟨shardName 1, 19, 19, .none, hexEncode (sha256 (record 2))⟩]
      extra := ∅ }

/-- There is no float in it. -/
def manifestText : Bytes := manifest.toJson.text fun _ => ""

noncomputable def lib : StorageLib where
  codec :=
    { lz4FlexCompress := fun _ => .error ""
      lz4CompressBound := fun _ => .error ""
      lz4Compress := fun _ _ => .error ""
      lz4Decompress := fun _ _ => .error ""
      brotliCompress := fun _ _ => .error ""
      brotliDecompress := fun _ _ => ⟨.resultFailure, 0, []⟩ }
  json :=
    { print := only manifest.toJson manifestText
      parse := only manifestText (manifest.toJson.reread id)
      reread := id
      describe := fun _ => "" }
  arrow :=
    { writeFile := fun fields batches => only (arrowSchema schema, [batch]) arrowBytes (fields, batches)
      readFile := only arrowBytes (arrowSchema schema, [batch]) }
  encodeObject := only metadata objectText
  decodeObject := only objectText metadata
  sha256

theorem lawful_lib : lib.Lawful where
  codec :=
    { lz4Flex := fun _ _ h => nomatch h
      lz4 := fun _ _ _ h => nomatch h
      brotli := fun _ _ _ h => nomatch h }
  json :=
    { parse_print := fun j text h => by
        obtain ⟨rfl, rfl⟩ := only_eq_ok h
        exact only_self _ _
      reread_pos := fun f hf hpos => ⟨hf, hpos⟩
      reread_one := fun f _ h => h }
  arrow := fun fields batches bytes h => by
    obtain ⟨heq, rfl⟩ := only_eq_ok h
    rw [Prod.mk.injEq] at heq
    obtain ⟨rfl, rfl⟩ := heq
    exact only_self _ _
  decodeObject := fun text object h k v hv => by
    obtain ⟨-, rfl⟩ := only_eq_ok h
    rw [metadata, Std.ExtTreeMap.getElem?_insert] at hv
    split_ifs at hv
    · cases hv
      exact id
    · simp at hv

def samples : List (Bytes × MetadataMap) := [([1], metadata), ([2], metadata)]

/-- The builder after both samples. -/
def builder : CacheBuilder where
  path := ["c"]
  dir := (CacheBuilder.emptyDir.write (shardFile (shardName 1)) []).write (shardFile (shardName 0)) (record 1)
  sourceName := "s"
  maxShardBytes := 1
  schema
  metadataRows := [[.bool true], [.bool true]]
  index
  shards := [⟨shardName 0, 19, 19, .none, hexEncode (sha256 (record 1))⟩]
  shardCompression := .none
  currentShard := ⟨1, shardName 1, record 2, 19, 19, record 2⟩

theorem encode (payload : UInt8) :
    encodeStoredRecord lib [payload] schema [.bool true] .none = .ok ⟨record payload, 19⟩ := by
  have hobject : metadataRowToObject schema [.bool true] = .ok metadata := rfl
  have hjson : lib.encodeObject metadata = .ok objectText := only_self _ _
  have hsample : encodeSampleRecord lib [payload] schema [.bool true] = .ok (record payload) := by
    simp only [encodeSampleRecord, hobject, hjson, jsonResult, bind, Except.bind]
    rfl
  simp only [encodeStoredRecord, hsample, bind, Except.bind]
  rfl

theorem pushSample_eq (payload : UInt8) (b b' : CacheBuilder)
    (hv : CacheBuilder.validateMetadata b.schema metadata = (schema, .ok [.bool true]))
    (hc : b.shardCompression = .none)
    (hp : ({ b with schema } : CacheBuilder).pushRecord lib [.bool true] ⟨record payload, 19⟩ = (b', .ok ())) :
    b.pushSample lib [payload] metadata = (b', .ok ()) := by
  simp only [hc] at hp
  simp only [CacheBuilder.pushSample, hv, hc, encode, hp]

theorem pushAll_eq {path : Path} {b₀ : CacheBuilder}
    (h : CacheBuilder.create false true path "s" 1 .none = .ok b₀) :
    b₀.pushAll lib samples = ({ builder with path }, .ok ()) := by
  cases h
  have hfirst := pushSample_eq 1 ⟨path, CacheBuilder.emptyDir, "s", 1, [], [], [], [], .none, OpenShard.create 0⟩
    ⟨path, CacheBuilder.emptyDir, "s", 1, schema, [[.bool true]], [⟨0, 0, 19⟩], [], .none,
      ⟨0, shardName 0, record 1, 19, 19, record 1⟩⟩ rfl rfl rfl
  have hsecond := pushSample_eq 2 ⟨path, CacheBuilder.emptyDir, "s", 1, schema, [[.bool true]], [⟨0, 0, 19⟩], [],
    .none, ⟨0, shardName 0, record 1, 19, 19, record 1⟩⟩ { builder with path } rfl rfl rfl
  simp only [samples, CacheBuilder.pushAll, hfirst, hsecond]

/-- The directory of the finished cache. -/
def dir : FileTree :=
  (((builder.dir.write (shardFile (shardName 1)) (record 2)).write ["metadata.arrow"] arrowBytes).write
    ["index.bin"] (indexBytes index)).write ["manifest.json"] manifestText

theorem finish_eq : builder.finish lib = (dir, .ok manifest) := by
  have hmetadata : metadataFileBytes lib schema [[.bool true], [.bool true]] = .ok arrowBytes := by
    have hbatches : metadataBatches schema 2 [[.bool true], [.bool true]] = .ok [batch] := rfl
    simp only [metadataFileBytes, List.length_cons, List.length_nil, hbatches, bind, Except.bind]
    exact congrArg arrowResult (only_self _ _)
  have hprint : lib.json.print manifest.toJson = .ok manifestText := only_self _ _
  have hmanifest : builder.manifestOf lib (hexEncode (sha256 arrowBytes))
      (hexEncode (sha256 (indexBytes index)))
      (builder.shards ++ [builder.currentShard.finish lib .none]) = manifest := rfl
  have hmetadata' : metadataFileBytes lib builder.schema builder.metadataRows = .ok arrowBytes := hmetadata
  have hmanifest' : builder.manifestOf lib (hexEncode (lib.sha256 arrowBytes))
      (hexEncode (lib.sha256 (indexBytes builder.index)))
      (builder.shards ++ [builder.currentShard.finish lib builder.shardCompression]) = manifest := hmanifest
  simp only [CacheBuilder.finish, hmetadata', hmanifest', hprint, jsonResult]
  rw [if_neg (by simp [builder, index])]
  rfl

/-- The file system with the finished cache at its place. -/
def fs : FileTree := FileTree.empty.graft ["c"] dir

theorem sized_dir : dir.Sized := by
  have hstart : CacheBuilder.emptyDir.Sized := by
    intro p bytes h
    unfold FileTree.read CacheBuilder.emptyDir at h
    split_ifs at h
    cases h
    norm_num
  refine FileTree.sized_write (FileTree.sized_write (FileTree.sized_write (FileTree.sized_write
    (FileTree.sized_write (FileTree.sized_write hstart _ ?_) _ ?_) _ ?_) _ ?_) _ ?_) _ ?_
  all_goals decide +kernel

theorem sized_fs : fs.Sized := FileTree.sized_graft FileTree.sized_empty _ sized_dir

end TwoShards

theorem reads_back_two_shards : ∃ cache,
    loadCache TwoShards.lib TwoShards.fs ["c"] true 0 = .ok cache ∧ cache.sampleCount = 2 ∧
      (cache.readAll TwoShards.lib TwoShards.fs .new [1, 0, 1]).2 =
        [.ok ⟨[2], [.bool true]⟩, .ok ⟨[1], [.bool true]⟩, .ok ⟨[2], [.bool true]⟩] := by
  have hjson : ∀ row ∈ TwoShards.builder.metadataRows,
      ObjectReadsBack TwoShards.lib TwoShards.builder.schema row := by
    intro row _ object text _ htext
    obtain ⟨rfl, rfl⟩ := TwoShards.only_eq_ok htext
    exact TwoShards.only_self _ _
  have hcreate : CacheBuilder.create false true ["c"] "s" 1 .none = .ok _ := rfl
  obtain ⟨cache, hload, hcount, hread⟩ := reads_back TwoShards.lawful_lib
    (show ShardCompression.Valid .none from trivial) hcreate (TwoShards.pushAll_eq hcreate) hjson
    TwoShards.finish_eq (FileTree.sub_graft _ _ _) TwoShards.sized_fs true 0
  refine ⟨cache, hload, hcount, ?_⟩
  have hone : ∀ (i : ℕ) (payload : UInt8) (result : CacheResult CacheSample),
      TwoShards.samples[i]? = some ([payload], TwoShards.metadata) →
      (∃ data metadata row, TwoShards.samples[i]? = some (data, metadata) ∧
        valuesInOrder TwoShards.manifest.fields.metadataSchema metadata = some row ∧
        result = .ok { data, metadata := row }) → result = .ok ⟨[payload], [.bool true]⟩ := by
    rintro i payload result hi ⟨data, metadata, row, hsample, hrow, rfl⟩
    rw [hi, Option.some.injEq, Prod.mk.injEq] at hsample
    obtain ⟨rfl, rfl⟩ := hsample
    have hvalues : valuesInOrder TwoShards.manifest.fields.metadataSchema TwoShards.metadata =
        some [.bool true] := rfl
    rw [hvalues, Option.some.injEq] at hrow
    rw [← hrow]
  obtain ⟨r₁, later, h₁, hlater, heq⟩ := List.forall₂_cons_left_iff.mp (hread [1, 0, 1] (by decide))
  obtain ⟨r₂, last, h₂, hlast, rfl⟩ := List.forall₂_cons_left_iff.mp hlater
  obtain ⟨r₃, none, h₃, hnone, rfl⟩ := List.forall₂_cons_left_iff.mp hlast
  rw [List.forall₂_nil_left_iff.mp hnone] at heq
  have hfs : (cache.readAll TwoShards.lib TwoShards.fs .new [1, 0, 1]).2 = [r₁, r₂, r₃] := heq
  rw [hfs, hone 1 2 r₁ rfl h₁, hone 0 1 r₂ rfl h₂, hone 1 2 r₃ rfl h₃]


end DatasetRt
