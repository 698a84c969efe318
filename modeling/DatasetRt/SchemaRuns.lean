import DatasetRt.CacheRoundTrip

/-! # The schema of a cache over a run of samples

The schema of a builder is empty until a sample with metadata is pushed; that sample fixes it, also if its record
cannot be stored.  A sample without metadata is accepted as long as the schema is empty, so a cache can hold rows
that its schema does not describe.  `FixesSchema` rules that out, and `one_schema` says that nothing else can go
wrong: over every sequence of `push_sample` calls the accepted samples have one shape, every row fits the schema and
`finish` succeeds. -/

namespace DatasetRt

/-- The schema describes the metadata: its fields are the keys with the kinds of their values. -/
def HasSchema (schema : List MetadataField) (metadata : MetadataMap) : Prop :=
  ∀ field : MetadataField, field ∈ schema ↔ metadata[field.name]?.map MetadataValue.kind = some field.kind

/-- The same keys with values of the same kinds. -/
def SameShape (metadata metadata' : MetadataMap) : Prop :=
  ∀ key : String, metadata[key]?.map MetadataValue.kind = metadata'[key]?.map MetadataValue.kind

/-- The string bytes of a row. -/
def stringBytes (row : Row) : ℕ := (row.map fun value => match value with | .string s => s.utf8ByteSize | _ => 0).sum

/-- The strings of a row fit the offsets of Arrow, and together they fit the memory. -/
def StringsFit (row : Row) : Prop :=
  (∀ s, .string s ∈ row → s.utf8ByteSize ≤ i32Max) ∧ stringBytes row < wordSize

/-- No I/O operation of the libraries fails. -/
structure StorageLib.NoIoFailure (L : StorageLib) : Prop where
  writeFile : ∀ fields batches, ∃ bytes, L.arrow.writeFile fields batches = .ok bytes
  print : ∀ j, ∃ text, L.json.print j = .ok text

namespace CacheBuilder

section runs

variable (L : StorageLib)

/-- Any sequence of `push_sample` calls, with the metadata of the samples that were accepted. -/
def pushEach (b : CacheBuilder) : List (Bytes × MetadataMap) → CacheBuilder × List MetadataMap
  | [] => (b, [])
  | (data, metadata) :: rest =>
      match b.pushSample L data metadata with
      | (b, .ok ()) => ((b.pushEach rest).1, metadata :: (b.pushEach rest).2)
      | (b, .error _) => b.pushEach rest

/-- No sample without metadata is pushed while the schema is empty. -/
def FixesSchema (b : CacheBuilder) : List (Bytes × MetadataMap) → Prop
  | [] => True
  | (data, metadata) :: rest =>
      (b.schema = [] → metadata.isEmpty = false) ∧ (b.pushSample L data metadata).1.FixesSchema rest

/-- What a cache promises about its metadata. -/
structure OneSchema (b : CacheBuilder) (accepted : List MetadataMap) : Prop where
  alike : ∀ metadata ∈ accepted, ∀ metadata' ∈ accepted, SameShape metadata metadata'
  rows : ∀ row ∈ b.metadataRows, RowFits b.schema row
  finish : accepted ≠ [] → (∀ row ∈ b.metadataRows, StringsFit row) →
    ∃ dir manifest, b.finish L = (dir, .ok manifest)

end runs

end CacheBuilder

/-! ### One sample -/

theorem HasSchema.sameShape {schema : List MetadataField} {metadata metadata' : MetadataMap}
    (h : HasSchema schema metadata) (h' : HasSchema schema metadata') : SameShape metadata metadata' := by
  intro key
  apply Option.ext
  intro kind
  exact (h ⟨key, kind⟩).symm.trans (h' ⟨key, kind⟩)

theorem fieldValue_ok {error : String → CacheError} {what : String} {metadata : MetadataMap}
    {field : MetadataField} {value : MetadataValue} (h : fieldValue error what metadata field = .ok value) :
    metadata[field.name]? = some value ∧ value.kind = field.kind := by
  unfold fieldValue at h
  cases hget : metadata[field.name]? with
  | none => simp [hget] at h
  | some v =>
      simp only [hget] at h
      split_ifs at h with hkind
      cases h
      exact ⟨rfl, hkind⟩

/-- As many keys as fields, and every field among the keys: there are no other keys. -/
theorem hasSchema_of_fields {schema : List MetadataField} {metadata : MetadataMap} (hok : SchemaOk schema)
    (hsize : metadata.size = schema.length)
    (hfields : ∀ field ∈ schema, metadata[field.name]?.map MetadataValue.kind = some field.kind) :
    HasSchema schema metadata := by
  intro field
  refine ⟨hfields field, fun hget => ?_⟩
  obtain ⟨value, hvalue, hkind⟩ := Option.map_eq_some_iff.mp hget
  have hsubset : schema.map MetadataField.name ⊆ metadata.toList.map Prod.fst := by
    intro name hname
    obtain ⟨other, hother, rfl⟩ := List.mem_map.mp hname
    obtain ⟨v, hv, -⟩ := Option.map_eq_some_iff.mp (hfields other hother)
    exact List.mem_map.mpr ⟨_, Std.ExtTreeMap.mem_toList_iff_getElem?_eq_some.mpr hv, rfl⟩
  have hperm : (schema.map MetadataField.name).Perm (metadata.toList.map Prod.fst) := by
    refine (List.subperm_of_subset hok hsubset).perm_of_length_le ?_
    rw [List.length_map, List.length_map, Std.ExtTreeMap.length_toList, hsize]
  have hmem : field.name ∈ schema.map MetadataField.name :=
    hperm.mem_iff.mpr (List.mem_map.mpr ⟨_, Std.ExtTreeMap.mem_toList_iff_getElem?_eq_some.mpr hvalue, rfl⟩)
  obtain ⟨other, hother, hname⟩ := List.mem_map.mp hmem
  have hkind' := hfields other hother
  rw [hname, hget, Option.some.injEq] at hkind'
  obtain rfl : field = other := by
    cases field
    cases other
    simp_all
  exact hother

namespace CacheBuilder

variable {L : StorageLib} {b b' : CacheBuilder} {schema : List MetadataField} {metadata : MetadataMap}

theorem schemaOk_toList (metadata : MetadataMap) :
    SchemaOk (metadata.toList.map fun p => (⟨p.1, p.2.kind⟩ : MetadataField)) := by
  simpa [SchemaOk, List.map_map, Function.comp_def] using nodup_keys_toList metadata

/-- The schema is only changed while it is empty. -/
theorem validateMetadata_schema (metadata : MetadataMap) (hok : SchemaOk schema) :
    SchemaOk (validateMetadata schema metadata).1 ∧
      (schema ≠ [] → (validateMetadata schema metadata).1 = schema) ∧
      ((validateMetadata schema metadata).1 = [] → schema = [] ∧ metadata.isEmpty = true) := by
  unfold validateMetadata
  by_cases hempty : schema = []
  · rw [if_pos hempty]
    refine ⟨schemaOk_toList metadata, fun hne => absurd hempty hne, fun hnil => ⟨hempty, ?_⟩⟩
    rw [List.map_eq_nil_iff] at hnil
    rw [← Std.ExtTreeMap.isEmpty_toList, hnil]
    rfl
  · rw [if_neg hempty]
    exact ⟨hok, fun _ => rfl, fun hnil => absurd hnil hempty⟩

theorem hasSchema_of_validateMetadata {schema' : List MetadataField} {row : Row} (hok : SchemaOk schema)
    (h : validateMetadata schema metadata = (schema', .ok row)) :
    HasSchema schema' metadata ∧ RowFits schema' row := by
  have hok' : SchemaOk schema' := by
    have hfixed := (validateMetadata_schema metadata hok).1
    rwa [h] at hfixed
  unfold validateMetadata at h
  obtain ⟨hschema, hrow⟩ := Prod.mk.injEq _ _ _ _ ▸ h
  rw [hschema] at hrow
  split_ifs at hrow with hsize
  have hall := mapM_eq_ok_iff.mp hrow
  refine ⟨hasSchema_of_fields hok' (not_not.mp hsize) fun field hfield => ?_, ?_⟩
  · obtain ⟨i, hi, rfl⟩ := List.getElem_of_mem hfield
    have hvalue := fieldValue_ok ((List.forall₂_iff_get.mp hall).2 i hi (by rw [← hall.length_eq]; exact hi))
    rw [List.get_eq_getElem] at hvalue
    rw [hvalue.1, Option.map_some, hvalue.2]
  · exact hall.imp fun field value hvalue => (fieldValue_ok hvalue).2

theorem rotateShardIfNeeded_frame {len : ℕ} {result : CacheResult Unit}
    (h : b.rotateShardIfNeeded L len = (b', result)) :
    b'.schema = b.schema ∧ b'.metadataRows = b.metadataRows ∧ b'.index = b.index := by
  unfold rotateShardIfNeeded at h
  split_ifs at h
  · cases h
    exact ⟨rfl, rfl, rfl⟩
  · cases h
    exact ⟨rfl, rfl, rfl⟩
  · cases hadd : checkedAdd b.currentShard.id 1 with
    | none =>
        rw [hadd] at h
        cases h
        exact ⟨rfl, rfl, rfl⟩
    | some nextId =>
        rw [hadd] at h
        cases h
        exact ⟨rfl, rfl, rfl⟩

/-- What one call can do to the schema and the rows. -/
theorem pushSample_cases (L : StorageLib) (b : CacheBuilder) (data : Bytes) (metadata : MetadataMap) :
    (b.pushSample L data metadata).1.schema = (validateMetadata b.schema metadata).1 ∧
      ((∃ row entry, (b.pushSample L data metadata).2 = .ok () ∧
          (validateMetadata b.schema metadata).2 = .ok row ∧
          (b.pushSample L data metadata).1.metadataRows = b.metadataRows ++ [row] ∧
          (b.pushSample L data metadata).1.index = b.index ++ [entry]) ∨
        (∃ error, (b.pushSample L data metadata).2 = .error error) ∧
          (b.pushSample L data metadata).1.metadataRows = b.metadataRows ∧
          (b.pushSample L data metadata).1.index = b.index) := by
  unfold pushSample
  rcases hv : validateMetadata b.schema metadata with ⟨schema, result⟩
  cases result with
  | error error => exact ⟨rfl, .inr ⟨⟨error, rfl⟩, rfl, rfl⟩⟩
  | ok row =>
      simp only
      cases encodeStoredRecord L data schema row b.shardCompression with
      | error error => exact ⟨rfl, .inr ⟨⟨error, rfl⟩, rfl, rfl⟩⟩
      | ok record =>
          simp only [pushRecord]
          rcases hr : rotateShardIfNeeded L { b with schema } record.bytes.length with ⟨c, result⟩
          obtain ⟨hschema, hrows, hindex⟩ := rotateShardIfNeeded_frame hr
          cases result with
          | error error => exact ⟨hschema, .inr ⟨⟨error, rfl⟩, hrows, hindex⟩⟩
          | ok _ =>
              simp only
              cases c.currentShard.writePayload record.bytes record.uncompressedByteLen with
              | error error => exact ⟨hschema, .inr ⟨⟨error, rfl⟩, hrows, hindex⟩⟩
              | ok written =>
                  obtain ⟨shard, entry⟩ := written
                  exact ⟨hschema, .inl ⟨row, entry, rfl, rfl, by rw [← hrows], by rw [← hindex]⟩⟩

/-! ### Runs -/

theorem schemaOk_pushEach (L : StorageLib) : ∀ (samples : List (Bytes × MetadataMap)) {b : CacheBuilder},
    SchemaOk b.schema → SchemaOk (b.pushEach L samples).1.schema
  | [], b, h => h
  | (data, metadata) :: rest, b, h => by
      have hone : SchemaOk (b.pushSample L data metadata).1.schema := by
        rw [(pushSample_cases L b data metadata).1]
        exact (validateMetadata_schema metadata h).1
      have hrest := schemaOk_pushEach L rest hone
      rw [pushEach]
      rcases hstep : b.pushSample L data metadata with ⟨c, result⟩
      rw [hstep] at hrest
      cases result with
      | error error => exact hrest
      | ok _ => exact hrest

/-- A schema that describes all that was accepted. -/
structure Fixed (b : CacheBuilder) (accepted : List MetadataMap) : Prop where
  names : SchemaOk b.schema
  empty : b.schema = [] → accepted = [] ∧ b.metadataRows = []
  shape : ∀ metadata ∈ accepted, HasSchema b.schema metadata
  rows : ∀ row ∈ b.metadataRows, RowFits b.schema row
  index : accepted ≠ [] → b.index ≠ []

theorem fixed_create {present parents : Bool} {path : Path} {sourceName : String} {maxShardBytes : ℕ}
    {compression : ShardCompression}
    (h : create present parents path sourceName maxShardBytes compression = .ok b) : b.Fixed [] := by
  unfold create at h
  split_ifs at h
  cases h
  exact ⟨List.nodup_nil, fun _ => ⟨rfl, rfl⟩, by simp, by simp, fun hne => absurd rfl hne⟩

theorem Fixed.schema_eq {accepted : List MetadataMap} (h : b.Fixed accepted) (data : Bytes) (metadata : MetadataMap) :
    b.schema = [] ∨ (b.pushSample L data metadata).1.schema = b.schema := by
  by_cases hempty : b.schema = []
  · exact .inl hempty
  · rw [(pushSample_cases L b data metadata).1]
    exact .inr ((validateMetadata_schema metadata h.names).2.1 hempty)

theorem Fixed.pushSample {accepted : List MetadataMap} (h : b.Fixed accepted) (data : Bytes) {metadata : MetadataMap}
    (hfirst : b.schema = [] → metadata.isEmpty = false) :
    (b.pushSample L data metadata).1.Fixed
      (accepted ++ if (b.pushSample L data metadata).2.isOk then [metadata] else []) := by
  obtain ⟨hschema, hcases⟩ := pushSample_cases L b data metadata
  obtain ⟨hnames, -, hnil⟩ := validateMetadata_schema metadata h.names
  rw [← hschema] at hnames hnil
  -- the call never leaves an empty schema
  have hne : (b.pushSample L data metadata).1.schema ≠ [] := by
    intro hempty
    obtain ⟨hbefore, hmetadata⟩ := hnil hempty
    rw [hfirst hbefore] at hmetadata
    cases hmetadata
  have hshape : ∀ m ∈ accepted, HasSchema (b.pushSample L data metadata).1.schema m := by
    intro m hm
    rcases h.schema_eq (L := L) data metadata with hempty | hsame
    · rw [(h.empty hempty).1] at hm
      cases hm
    · rw [hsame]
      exact h.shape m hm
  have hrows : ∀ row ∈ b.metadataRows, RowFits (b.pushSample L data metadata).1.schema row := by
    intro row hrow
    rcases h.schema_eq (L := L) data metadata with hempty | hsame
    · rw [(h.empty hempty).2] at hrow
      cases hrow
    · rw [hsame]
      exact h.rows row hrow
  rcases hcases with ⟨row, entry, hok, hvalid, hmore, hindex⟩ | ⟨⟨error, herror⟩, hsame, hindex⟩
  · obtain ⟨hhas, hfits⟩ := hasSchema_of_validateMetadata h.names (Prod.ext hschema.symm hvalid)
    rw [hok, show (Except.ok () : CacheResult Unit).isOk = true from rfl, if_pos rfl]
    refine ⟨hnames, fun hempty => absurd hempty hne, fun m hm => ?_, fun r hr => ?_, fun _ => by simp [hindex]⟩
    · rcases List.mem_append.mp hm with hm | hm
      · exact hshape m hm
      · rw [List.mem_singleton.mp hm]
        exact hhas
    · rw [hmore] at hr
      rcases List.mem_append.mp hr with hr | hr
      · exact hrows r hr
      · rw [List.mem_singleton.mp hr]
        exact hfits
  · rw [herror, show (Except.error error : CacheResult Unit).isOk = false from rfl, if_neg (by decide),
      List.append_nil]
    refine ⟨hnames, fun hempty => absurd hempty hne, hshape, ?_, ?_⟩
    · rw [hsame]
      exact hrows
    · rw [hindex]
      exact h.index

theorem pushEach_cons (L : StorageLib) (b : CacheBuilder) (data : Bytes) (metadata : MetadataMap)
    (rest : List (Bytes × MetadataMap)) :
    b.pushEach L ((data, metadata) :: rest) =
      (((b.pushSample L data metadata).1.pushEach L rest).1,
        (if (b.pushSample L data metadata).2.isOk then [metadata] else []) ++
          ((b.pushSample L data metadata).1.pushEach L rest).2) := by
  rw [pushEach]
  rcases b.pushSample L data metadata with ⟨c, result⟩
  cases result with
  | error error => rfl
  | ok _ => rfl

/-- The samples of a source that were all accepted are such a run. -/
theorem pushEach_of_pushAll : ∀ {samples : List (Bytes × MetadataMap)} {b b' : CacheBuilder},
    b.pushAll L samples = (b', .ok ()) → b.pushEach L samples = (b', samples.map Prod.snd)
  | [], b, b', h => by
      cases h
      rfl
  | (data, metadata) :: rest, b, b', h => by
      rw [pushAll] at h
      rw [pushEach]
      rcases hone : b.pushSample L data metadata with ⟨c, result⟩
      rw [hone] at h
      cases result with
      | error error => cases h
      | ok _ =>
          simp only
          rw [pushEach_of_pushAll h]
          rfl

theorem Fixed.pushEach : ∀ (samples : List (Bytes × MetadataMap)) {b : CacheBuilder} {accepted : List MetadataMap},
    b.Fixed accepted → b.FixesSchema L samples →
    (b.pushEach L samples).1.Fixed (accepted ++ (b.pushEach L samples).2)
  | [], b, accepted, h, _ => by simpa [CacheBuilder.pushEach] using h
  | (data, metadata) :: rest, b, accepted, h, hfirst => by
      have hstep := Fixed.pushEach rest (h.pushSample (L := L) data hfirst.1) hfirst.2
      rw [pushEach_cons]
      rwa [List.append_assoc] at hstep

theorem FixesSchema.take : ∀ {samples : List (Bytes × MetadataMap)} {b : CacheBuilder},
    b.FixesSchema L samples → ∀ n, b.FixesSchema L (samples.take n)
  | [], b, _, n => by simp [FixesSchema]
  | _ :: _, b, _, 0 => by simp [FixesSchema]
  | (data, metadata) :: rest, b, h, n + 1 => ⟨h.1, h.2.take n⟩

end CacheBuilder

/-! ### Rows that fit can be written -/

theorem rowStringBytes_of_fit : ∀ {row : Row} {bytes : ℕ}, (∀ s, .string s ∈ row → s.utf8ByteSize ≤ i32Max) →
    bytes + stringBytes row < wordSize → rowStringBytes bytes row = .ok (bytes + stringBytes row)
  | [], bytes, _, _ => rfl
  | value :: rest, bytes, hfit, hsum => by
      have hrest : ∀ s, .string s ∈ rest → s.utf8ByteSize ≤ i32Max := fun s hs => hfit s (List.mem_cons_of_mem _ hs)
      cases value with
      | string s =>
          have hs := hfit s List.mem_cons_self
          have hcons : stringBytes (.string s :: rest) = s.utf8ByteSize + stringBytes rest := by
            simp [stringBytes]
          rw [hcons] at hsum ⊢
          have hadd : checkedAdd bytes s.utf8ByteSize = some (bytes + s.utf8ByteSize) :=
            checkedAdd_eq_some.mpr ⟨by omega, rfl⟩
          rw [rowStringBytes, if_neg (by omega), hadd]
          simp only
          rw [rowStringBytes_of_fit hrest (by omega), Nat.add_assoc]
      | bool value | int value | float value =>
          have hcons : ∀ v : MetadataValue, v.kind ≠ .string → stringBytes (v :: rest) = stringBytes rest := by
            intro v hv
            cases v <;> simp_all [stringBytes, MetadataValue.kind]
          rw [hcons _ (by simp [MetadataValue.kind])] at hsum ⊢
          rw [rowStringBytes]
          · exact rowStringBytes_of_fit hrest hsum
          · intro s hs
            cases hs

/-- The batch after any row that was taken is short enough to add the next one. -/
theorem batchLenFrom_of_fit {maxStringBytes : ℕ} (hmax : maxStringBytes < wordSize) :
    ∀ {rows : List Row} {bytes count : ℕ}, (∀ row ∈ rows, StringsFit row) → bytes < wordSize →
    (count = 0 → bytes = 0) → ∃ len, batchLenFrom maxStringBytes bytes count rows = .ok len
  | [], bytes, count, _, _, _ => ⟨count, rfl⟩
  | row :: rest, bytes, count, hfit, hbytes, hfirst => by
      obtain ⟨hrow, hsum⟩ := hfit row List.mem_cons_self
      have hsum' : 0 + stringBytes row < wordSize := by rw [Nat.zero_add]; exact hsum
      rw [batchLenFrom, rowStringBytes_of_fit hrow hsum', Nat.zero_add]
      simp only
      split_ifs with hfull
      · exact ⟨count, rfl⟩
      · have hlt : bytes + stringBytes row < wordSize := by
          rcases Nat.eq_zero_or_pos count with hzero | hpos
          · rw [hfirst hzero]
            exact hsum'
          · -- there is room left, or the row has no bytes
            have hroom : ¬ maxStringBytes - bytes < stringBytes row := fun hc => hfull ⟨hpos, hc⟩
            omega
        rw [checkedAdd_eq_some.mpr ⟨hlt, rfl⟩]
        exact batchLenFrom_of_fit hmax (fun r hr => hfit r (List.mem_cons_of_mem _ hr)) hlt (fun hc => by omega)

theorem cellOf_of_kind {kind : MetadataKind} {value : MetadataValue} (h : value.kind = kind) :
    ∃ cell, cellOf kind value = .ok cell := by
  subst h
  cases value <;> exact ⟨_, rfl⟩

theorem buildArray_of_fit {schema : List MetadataField} {rows : List Row} (hfit : ∀ row ∈ rows, RowFits schema row)
    {i : ℕ} (hi : i < schema.length) : ∃ column, buildArray i schema[i].kind rows = .ok column := by
  have hcell : ∀ row ∈ rows, ∃ cell, (do
      let value ← metadataCell row i
      cellOf schema[i].kind value) = .ok cell := by
    intro row hrow
    have hrow' := List.forall₂_iff_get.mp (hfit row hrow)
    have hi' : i < row.length := hrow'.1 ▸ hi
    obtain ⟨cell, hcell⟩ := cellOf_of_kind (hrow'.2 i hi hi')
    refine ⟨cell, ?_⟩
    rw [metadataCell, List.getElem?_eq_getElem hi']
    exact hcell
  obtain ⟨values, hvalues⟩ := mapM_ok_of_forall hcell
  exact ⟨_, by rw [buildArray, hvalues]; rfl⟩

theorem buildArray_column {i : ℕ} {kind : MetadataKind} {rows : List Row} {column : Column}
    (h : buildArray i kind rows = .ok column) :
    column.dataType = arrowType kind ∧ column.len = rows.length ∧ column.nullCount = 0 := by
  obtain ⟨values, rfl, hlen, -⟩ := buildArray_ok h
  refine ⟨rfl, ?_, nullCount_ofValues _ _⟩
  simpa [Column.len, Column.ofValues] using hlen

theorem metadataBatch_of_fit {schema : List MetadataField} {rows : List Row} (hne : schema ≠ [])
    (hfit : ∀ row ∈ rows, RowFits schema row) : ∃ batch, metadataBatch schema rows = .ok batch := by
  have hcolumn : ∀ p ∈ schema.zipIdx, ∃ column, buildArray p.2 p.1.kind rows = .ok column := by
    intro p hp
    obtain ⟨i, hi, rfl⟩ := List.mem_iff_getElem.mp hp
    rw [List.length_zipIdx] at hi
    rw [List.getElem_zipIdx, Nat.zero_add]
    exact buildArray_of_fit hfit hi
  obtain ⟨columns, hcolumns⟩ := mapM_ok_of_forall hcolumn
  obtain ⟨hlen, hall⟩ := mapM_eq_ok_iff_getElem.mp hcolumns
  rw [List.length_zipIdx] at hlen
  have hbuilt : ∀ (i : ℕ) (hi : i < schema.length) (hc : i < columns.length),
      buildArray i schema[i].kind rows = .ok columns[i] := by
    intro i hi hc
    have hone := hall i (by rwa [List.length_zipIdx]) hc
    rwa [List.getElem_zipIdx, Nat.zero_add] at hone
  rw [metadataBatch, hcolumns]
  simp only [bind, Except.bind]
  cases columns with
  | nil => exact absurd (List.eq_nil_of_length_eq_zero hlen) hne
  | cons first rest =>
      have hfirst := buildArray_column (hbuilt 0 (List.length_pos_iff.mpr hne) (by simp))
      have hfits : ((arrowSchema schema).zip (first :: rest)).all
          (fun p => RecordBatch.columnFits first.len p.1 p.2) = true := by
        rw [List.all_eq_true]
        intro p hp
        obtain ⟨i, hi, rfl⟩ := List.mem_iff_getElem.mp hp
        simp only [List.length_zip, arrowSchema, List.length_map] at hi
        obtain ⟨htype, hrows, hnull⟩ := buildArray_column (hbuilt i (by omega) (by omega))
        have hlenEq : rows.length = first.len := hfirst.2.1.symm
        simp [RecordBatch.columnFits, arrowSchema, htype, hrows, hnull, hlenEq]
      refine ⟨⟨arrowSchema schema, first :: rest, first.len⟩, ?_⟩
      rw [RecordBatch.tryNew, if_neg (by simp [arrowSchema, hlen]), if_pos hfits]

theorem metadataBatches_of_fit {schema : List MetadataField} (hne : schema ≠ []) :
    ∀ (fuel : ℕ) {rows : List Row}, rows.length ≤ fuel → (∀ row ∈ rows, RowFits schema row) →
    (∀ row ∈ rows, StringsFit row) → ∃ batches, metadataBatches schema fuel rows = .ok batches
  | fuel, [], _, _, _ => ⟨[], by cases fuel <;> rfl⟩
  | 0, row :: rest, hfuel, _, _ => by simp at hfuel
  | fuel + 1, row :: rest, hfuel, hfit, hstrings => by
      obtain ⟨len, hlen⟩ : ∃ len, metadataBatchLen (row :: rest) 65536 (8 * 1024 * 1024) = .ok len :=
        batchLenFrom_of_fit (by norm_num [wordSize]) (fun r hr => hstrings r (List.mem_of_mem_take hr))
          (by norm_num [wordSize]) fun _ => rfl
      obtain ⟨hpos, hle⟩ := metadataBatchLen_ok hlen (by simp) (by norm_num)
      have hshort : ((row :: rest).drop len).length ≤ fuel := by
        rw [List.length_drop]
        simp only [List.length_cons] at hfuel ⊢
        omega
      obtain ⟨batch, hbatch⟩ : ∃ batch, metadataBatch schema ((row :: rest).take len) = .ok batch :=
        metadataBatch_of_fit hne fun r hr => hfit r (List.mem_of_mem_take hr)
      obtain ⟨others, hothers⟩ := metadataBatches_of_fit hne fuel hshort
        (fun r hr => hfit r (List.mem_of_mem_drop hr)) (fun r hr => hstrings r (List.mem_of_mem_drop hr))
      refine ⟨batch :: others, ?_⟩
      simp only [metadataBatches, hlen, bind, Except.bind]
      rw [if_neg (Nat.not_lt.mpr hle), hbatch, hothers]

/-! ### Finishing -/

namespace CacheBuilder

variable {L : StorageLib} {b : CacheBuilder}

theorem metadataFileBytes_of_finish {dir : FileTree} {manifest : Manifest} (h : b.finish L = (dir, .ok manifest)) :
    ∃ metadata, metadataFileBytes L b.schema b.metadataRows = .ok metadata := by
  unfold CacheBuilder.finish at h
  split_ifs at h
  · cases h
  · cases hmetadata : metadataFileBytes L b.schema b.metadataRows with
    | error error =>
        rw [hmetadata] at h
        cases h
    | ok metadata => exact ⟨metadata, rfl⟩

theorem Fixed.finish (hio : L.NoIoFailure) {accepted : List MetadataMap} (h : b.Fixed accepted)
    (hne : accepted ≠ []) (hstrings : ∀ row ∈ b.metadataRows, StringsFit row) :
    ∃ dir manifest, b.finish L = (dir, .ok manifest) := by
  have hschema : b.schema ≠ [] := fun hempty => hne (h.empty hempty).1
  obtain ⟨batches, hbatches⟩ := metadataBatches_of_fit hschema _ (le_refl _) h.rows hstrings
  obtain ⟨bytes, hbytes⟩ := hio.writeFile (arrowSchema b.schema) batches
  have hmetadata : metadataFileBytes L b.schema b.metadataRows = .ok bytes := by
    rw [metadataFileBytes, hbatches]
    simp only [bind, Except.bind, hbytes, arrowResult]
  obtain ⟨text, htext⟩ := hio.print (b.manifestOf L (hexEncode (L.sha256 bytes))
    (hexEncode (L.sha256 (indexBytes b.index))) (b.shards ++ [b.currentShard.finish L b.shardCompression])).toJson
  have hresult : ∃ manifest, (b.finish L).2 = .ok manifest := by
    rw [CacheBuilder.finish, if_neg (h.index hne), hmetadata]
    simp only [htext, jsonResult]
    exact ⟨_, rfl⟩
  obtain ⟨manifest, hmanifest⟩ := hresult
  exact ⟨_, manifest, Prod.ext rfl hmanifest⟩

theorem Fixed.oneSchema (hio : L.NoIoFailure) {accepted : List MetadataMap} (h : b.Fixed accepted) :
    b.OneSchema L accepted where
  alike metadata hmetadata metadata' hmetadata' := (h.shape metadata hmetadata).sameShape (h.shape metadata' hmetadata')
  rows := h.rows
  finish := h.finish hio

/-- A sample without metadata is accepted before the schema is fixed: the cache cannot be finished, or it has a
row that does not fit. -/
theorem not_oneSchema_of_empty {accepted : List MetadataMap} {data : Bytes} {metadata : MetadataMap}
    (hschema : b.schema = []) (hempty : metadata.isEmpty = true)
    (hok : (b.pushSample L data metadata).2 = .ok ()) (hne : accepted ≠ []) :
    ¬ (b.pushSample L data metadata).1.OneSchema L accepted := by
  intro hone
  obtain ⟨hafter, ⟨row, entry, -, -, hrows, -⟩ | ⟨⟨error, herror⟩, -⟩⟩ := pushSample_cases L b data metadata
  · have hnil : (b.pushSample L data metadata).1.schema = [] := by
      have hlist : metadata.toList = [] := by
        rw [← List.isEmpty_iff, Std.ExtTreeMap.isEmpty_toList]
        exact hempty
      rw [hafter, hschema, validateMetadata, if_pos rfl, hlist]
      rfl
    have hfit : ∀ row ∈ (b.pushSample L data metadata).1.metadataRows, StringsFit row := by
      intro row hrow
      have hfits := hone.rows row hrow
      rw [hnil] at hfits
      cases hfits
      exact ⟨by simp, by norm_num [stringBytes, wordSize]⟩
    obtain ⟨dir, manifest, hfinish⟩ := hone.finish hne hfit
    obtain ⟨bytes, hbytes⟩ := metadataFileBytes_of_finish hfinish
    obtain ⟨batches, hbatches, -⟩ := bind_eq_ok hbytes
    refine (batchesOf_metadataBatches _ (le_refl _) hbatches).nonempty ?_ hnil
    rw [hrows]
    simp
  · rw [herror] at hok
    cases hok

theorem pushEach_append (L : StorageLib) : ∀ (samples : List (Bytes × MetadataMap)) (b : CacheBuilder)
    (data : Bytes) (metadata : MetadataMap), b.pushEach L (samples ++ [(data, metadata)]) =
      (((b.pushEach L samples).1.pushSample L data metadata).1, (b.pushEach L samples).2 ++
        if ((b.pushEach L samples).1.pushSample L data metadata).2.isOk then [metadata] else [])
  | [], b, data, metadata => by
      rw [List.nil_append, pushEach_cons]
      simp only [pushEach, List.append_nil, List.nil_append]
      rfl
  | (first, metadata') :: rest, b, data, metadata => by
      rw [List.cons_append, pushEach_cons, pushEach_cons, pushEach_append L rest]
      simp only [List.append_assoc]

end CacheBuilder

/-- **One schema.**  In every run that pushes no sample without metadata while the schema is empty, in every state
reached, the accepted samples have the same keys and kinds, every row fits the schema, and the cache can be finished
if a sample was accepted and the strings fit.  Where a sample without metadata is accepted while the schema is
empty, this is lost at once. -/
theorem one_schema {L : StorageLib} (hio : L.NoIoFailure) {path : Path} {sourceName : String} {maxShardBytes : ℕ}
    {compression : ShardCompression} {b₀ : CacheBuilder}
    (hcreate : CacheBuilder.create false true path sourceName maxShardBytes compression = .ok b₀)
    (samples : List (Bytes × MetadataMap)) :
    (b₀.FixesSchema L samples →
      ∀ n, (b₀.pushEach L (samples.take n)).1.OneSchema L (b₀.pushEach L (samples.take n)).2) ∧
    ∀ (n : ℕ) data metadata, samples[n]? = some (data, metadata) →
      (b₀.pushEach L (samples.take n)).1.schema = [] → metadata.isEmpty = true →
      ((b₀.pushEach L (samples.take n)).1.pushSample L data metadata).2 = .ok () →
      ¬ (b₀.pushEach L (samples.take (n + 1))).1.OneSchema L (b₀.pushEach L (samples.take (n + 1))).2 := by
  constructor
  · intro hfirst n
    have hfixed := (CacheBuilder.fixed_create hcreate).pushEach (samples.take n) (hfirst.take n)
    rw [List.nil_append] at hfixed
    exact hfixed.oneSchema hio
  · intro n data metadata hget hschema hempty hok
    rw [List.take_add_one, hget, Option.toList_some, CacheBuilder.pushEach_append, hok]
    exact CacheBuilder.not_oneSchema_of_empty hschema hempty hok (by simp [Except.isOk, Except.toBool])

namespace LateSchema

def metadata : MetadataMap := (∅ : MetadataMap).insert "k" (.bool true)

/-- The texts of the two objects that are pushed; every file can be written, and no manifest has a float. -/
def lib : StorageLib where
  codec :=
    { lz4FlexCompress := fun _ => .error ""
      lz4CompressBound := fun _ => .error ""
      lz4Compress := fun _ _ => .error ""
      lz4Decompress := fun _ _ => .error ""
      brotliCompress := fun _ _ => .error ""
      brotliDecompress := fun _ _ => ⟨.resultFailure, 0, []⟩ }
  json := ⟨fun j => .ok (j.text fun _ => ""), fun _ => .error "", id, fun _ => ""⟩
  arrow := ⟨fun _ _ => .ok TwoShards.arrowBytes, fun _ => .error ""⟩
  encodeObject object :=
    if object.isEmpty then .ok [123, 125] else .ok [123, 34, 107, 34, 58, 116, 114, 117, 101, 125]
  decodeObject _ := .error ""
  sha256 := TwoShards.sha256

theorem noIoFailure_lib : lib.NoIoFailure := ⟨fun _ _ => ⟨_, rfl⟩, fun _ => ⟨_, rfl⟩⟩

/-- A new builder. -/
def builder : CacheBuilder :=
  ⟨["c"], CacheBuilder.emptyDir, "s", 1024, [], [], [], [], .none, OpenShard.create 0⟩

end LateSchema

open LateSchema in
/-- A sample with metadata comes first. -/
theorem one_schema_first :
    builder.FixesSchema lib [([1], metadata), ([2], ∅)] ∧
      (builder.pushEach lib [([1], metadata)]).2 = [metadata] ∧
      (builder.pushEach lib [([1], metadata)]).1.OneSchema lib [metadata] := by
  have hfixes : builder.FixesSchema lib [([1], metadata), ([2], ∅)] := by
    refine ⟨fun _ => rfl, fun hempty => ?_, trivial⟩
    cases (hempty : [(⟨"k", .bool⟩ : MetadataField)] = [])
  have hcreate : CacheBuilder.create false true ["c"] "s" 1024 .none = .ok builder := rfl
  exact ⟨hfixes, rfl, (one_schema noIoFailure_lib hcreate _).1 hfixes 1⟩

open LateSchema in
/-- A sample without metadata and one with metadata are both accepted. -/
theorem late_schema_accepted :
    CacheBuilder.create false true ["c"] "s" 1024 .none = .ok builder ∧ lib.NoIoFailure ∧
      (builder.pushEach lib [([1], ∅), ([2], metadata)]).2 = [∅, metadata] ∧
      ¬ SameShape ∅ metadata ∧
      (builder.pushEach lib [([1], ∅), ([2], metadata)]).1.metadataRows = [[], [.bool true]] ∧
      (builder.pushEach lib [([1], ∅), ([2], metadata)]).1.schema = [⟨"k", .bool⟩] ∧
      ((builder.pushEach lib [([1], ∅), ([2], metadata)]).1.finish lib).2 =
        .error (.invalidInput "metadata column is out of range") := by
  refine ⟨rfl, noIoFailure_lib, rfl, fun hsame => ?_, rfl, rfl, rfl⟩
  cases (hsame "k" : (none : Option MetadataKind) = some .bool)

end DatasetRt
