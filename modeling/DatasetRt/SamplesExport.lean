import DatasetRt.DatasetStream
import DatasetRt.Lib.FloatSum

/-! # Exporting and importing the original population

`visit_samples_metadata` writes the identity of every sample, its stored metadata and a uniform
weight; `extract_metadata_arrow` reads identities and weights back by column name.  The stored
columns keep the names their writer gave them, and these may be the names of the three generated
columns.  `Importable` is what the stored metadata has to satisfy, and `imports_original_iff` says
that the import gives the original population back exactly then. -/

namespace DatasetRt

/-! ### Columns by name -/

namespace Column

theorem isNull_slice (c : Column) {start len row : ℕ} (h : row < len) :
    (c.slice start len).isNull row = c.isNull (start + row) := by
  have hcell : (c.slice start len).cells[row]? = c.cells[start + row]? := by
    show ((c.cells.drop start).take len)[row]? = _
    rw [List.getElem?_take, if_pos h, List.getElem?_drop]
  unfold isNull
  rw [hcell]
  rcases c.cells[start + row]? with _ | _ | _ <;> rfl

theorem isNull_ofValues (dataType : DataType) (values : List dataType.Cell) (row : ℕ) :
    (ofValues dataType values).isNull row = false := by
  have hcell : (ofValues dataType values).cells[row]? = values[row]?.map some := List.getElem?_map
  unfold isNull
  rw [hcell]
  cases values[row]? <;> rfl

theorem len_ofValues (dataType : DataType) (values : List dataType.Cell) :
    (ofValues dataType values).len = values.length := List.length_map _

end Column

theorem cellAt_slice {α : Type} (cells : List (Option α)) (start : ℕ) {len row : ℕ} (h : row < len) (default : α) :
    cellAt ((cells.drop start).take len) row default = cellAt cells (start + row) default := by
  simp [cellAt, h, List.getElem?_drop]

theorem readF64Cell_slice (c : Column) {start len row : ℕ} (h : row < len) (name : String) :
    readF64Cell (c.slice start len) row name = readF64Cell c (start + row) name := by
  unfold readF64Cell
  rw [Column.isNull_slice c h]
  obtain ⟨dataType, cells⟩ := c
  have hcell := cellAt_slice cells start h
  cases dataType <;> first
    | rfl
    | exact ite_congr rfl (fun _ => rfl) fun _ => congrArg Except.ok (hcell _)
    | exact ite_congr rfl (fun _ => rfl) fun _ => congrArg (fun x : Float32 => Except.ok x.toFloat) (hcell _)
    | exact ite_congr rfl (fun _ => rfl) fun _ => congrArg (fun x : UInt64 => Except.ok (Float.ofNat x.toNat)) (hcell _)
    | exact ite_congr rfl (fun _ => rfl) fun _ => congrArg (fun x : UInt32 => Except.ok (Float.ofNat x.toNat)) (hcell _)
    | exact ite_congr rfl (fun _ => rfl) fun _ => congrArg (fun x : Int64 => Except.ok (Float.ofInt x.toInt)) (hcell _)
    | exact ite_congr rfl (fun _ => rfl) fun _ => congrArg (fun x : Int32 => Except.ok (Float.ofInt x.toInt)) (hcell _)

theorem cellAt_ofValues {α : Type} {values : List α} {row : ℕ} {value : α} (h : values[row]? = some value)
    (default : α) : cellAt (values.map some) row default = value := by
  simp [cellAt, h]

theorem readU64Cell_ofValues {values : List UInt64} {row n : ℕ} (h : values[row]? = some (UInt64.ofNat n))
    (hn : n < wordSize) (name : String) : readU64Cell (Column.ofValues .uint64 values) row name = .ok n := by
  have hread : readU64Cell (Column.ofValues .uint64 values) row name = .ok (UInt64.ofNat n).toNat :=
    (if_neg (Bool.eq_false_iff.mp (Column.isNull_ofValues .uint64 values row))).trans
      (congrArg (fun x : UInt64 => Except.ok x.toNat) (cellAt_ofValues h 0))
  rw [hread, UInt64.toNat_ofNat_of_lt' hn]

theorem readF64Cell_ofValues {values : List Float} {row : ℕ} {value : Float} (h : values[row]? = some value)
    (name : String) : readF64Cell (Column.ofValues .float64 values) row name = .ok value :=
  (if_neg (Bool.eq_false_iff.mp (Column.isNull_ofValues .float64 values row))).trans
    (congrArg Except.ok (cellAt_ofValues h 0))

namespace RecordBatch

theorem columnByName_slice (batch : RecordBatch) (start len : ℕ) (name : String) :
    (batch.slice start len).columnByName name = (batch.columnByName name).map fun c => c.slice start len := by
  simp only [columnByName, slice, List.zip_map_right, List.find?_map, Option.map_map]
  rfl

/-- Only the names of the fields matter. -/
theorem columnByName_eq (batch : RecordBatch) (name : String) :
    batch.columnByName name =
      (((batch.schema.map Field.name).zip batch.columns).find? fun p => p.1 = name).map Prod.snd := by
  simp only [columnByName, List.zip_map_left, List.find?_map, Option.map_map]
  rfl

theorem tryNew_dataTypes {schema : List Field} {columns : List Column} {batch : RecordBatch}
    (h : tryNew schema columns = .ok batch) : columns.map Column.dataType = schema.map Field.dataType := by
  obtain ⟨hlen, -, -, -, -⟩ := tryNew_ok h
  unfold tryNew at h
  rw [if_neg (not_not.mpr hlen)] at h
  cases hc : columns with
  | nil => simp [hc] at h
  | cons first rest =>
      subst hc
      simp only at h
      split_ifs at h with hall
      refine List.ext_getElem (by simpa using hlen) fun i h₁ h₂ => ?_
      rw [List.length_map] at h₁ h₂
      have hzip : (schema[i], (first :: rest)[i]) ∈ schema.zip (first :: rest) := by
        rw [List.mem_iff_getElem]
        exact ⟨i, by rw [List.length_zip]; omega, by simp⟩
      have := List.all_eq_true.mp hall _ hzip
      simp only [columnFits, Bool.and_eq_true, decide_eq_true_eq] at this
      rw [List.getElem_map, List.getElem_map]
      exact this.1.2

/-- A column has the type of the first field of its name. -/
theorem dataType_columnByName {schema : List Field} {columns : List Column} {batch : RecordBatch}
    (h : tryNew schema columns = .ok batch) (name : String) :
    (batch.columnByName name).map Column.dataType =
      (schema.find? fun field => field.name = name).map Field.dataType := by
  obtain ⟨-, -, hschema, hcolumns, -⟩ := tryNew_ok h
  have hpairs : (schema.zip columns).map (fun p => (p.1, p.2.dataType)) =
      schema.map fun field => (field, field.dataType) := by
    have : (schema.zip columns).map (fun p => (p.1, p.2.dataType)) =
        schema.zip (columns.map Column.dataType) := (List.zip_map_right ..).symm
    rw [this, tryNew_dataTypes h]
    simpa using List.zip_map' (f := id) (g := Field.dataType) (l := schema)
  have hfind := congrArg
    (fun l => (List.find? (fun p : Field × DataType => decide (p.1.name = name)) l).map Prod.snd) hpairs
  simp only [List.find?_map, Option.map_map] at hfind
  rw [columnByName, hschema, hcolumns, Option.map_map]
  exact hfind

end RecordBatch

/-! ### One exported batch -/

/-- The stored columns in the order of the manifest, under the names of the manifest. -/
theorem metadataColumns_ok {batch : RecordBatch} {schema : List MetadataField} {stored : List Column}
    (h : metadataColumns batch schema = .ok stored) :
    stored.length = schema.length ∧
      ∀ name, batch.columnByName name =
        (((schema.map MetadataField.name).zip stored).find? fun p => p.1 = name).map Prod.snd := by
  unfold metadataColumns at h
  split_ifs at h with hlen
  rw [not_not] at hlen
  obtain ⟨hcount, hcols⟩ := mapM_eq_ok_iff_getElem.mp h
  have hstored : stored.length = schema.length := by simpa using hcount.symm
  have hfields : ∀ i (hi : i < schema.length), ∃ field, batch.schema[i]? = some field ∧
      field.name = schema[i].name ∧ batch.columns[i]? = stored[i]? := by
    intro i hi
    have hcol := hcols i (by simpa using hi) (by omega)
    simp only [List.getElem_zipIdx, Nat.zero_add] at hcol
    obtain ⟨field, hfield, hcol⟩ := bind_eq_ok hcol
    split_ifs at hcol with hmatch
    rw [not_or, not_not] at hmatch
    exact ⟨field, okOr_eq_ok.mp hfield, hmatch.1,
      (okOr_eq_ok.mp hcol).trans (List.getElem?_eq_getElem (by omega)).symm⟩
  refine ⟨hstored, fun name => ?_⟩
  rw [RecordBatch.columnByName_eq]
  congr 2
  refine List.ext_getElem? fun i => ?_
  rcases Nat.lt_or_ge i schema.length with hi | hi
  · obtain ⟨field, hfield, hname, hcol⟩ := hfields i hi
    simp [List.zip, List.getElem?_zipWith, hfield, hname, hcol, List.getElem?_eq_getElem hi]
  · rw [List.getElem?_eq_none (by simp; omega), List.getElem?_eq_none (by simp; omega)]

/-- The uniform weights. -/
def uniformWeights (rows : ℕ) : Column := Column.ofValues .float64 (List.replicate rows (1.0 : Float))

section exported

variable {cacheId sampleStart rows : ℕ} {schema : List MetadataField} {chunk output : RecordBatch}

/-- The names of an exported batch: two generated columns, the stored ones, and the weight. -/
theorem samplesMetadataBatch_ok
    (h : samplesMetadataBatch cacheId sampleStart schema chunk rows = .ok output) :
    output.numRows = rows ∧ sampleStart + rows < wordSize ∧
      output.columnByName "cache_id" =
        some (.ofValues .uint64 (List.replicate rows (UInt64.ofNat cacheId))) ∧
      output.columnByName "sample_id" =
        some (.ofValues .uint64 ((List.range rows).map fun i => UInt64.ofNat (sampleStart + i))) ∧
      output.columnByName "weight" = some ((chunk.columnByName "weight").getD (uniformWeights rows)) ∧
      ∀ name, (output.columnByName name).map Column.dataType =
        ((samplesMetadataFields schema).find? fun field => field.name = name).map Field.dataType := by
  unfold samplesMetadataBatch at h
  split_ifs at h with hrows
  rw [not_not] at hrows
  obtain ⟨sampleIds, hids, h⟩ := bind_eq_ok h
  obtain ⟨stored, hstored, h⟩ := bind_eq_ok h
  obtain ⟨stop, hstop, hids⟩ := bind_eq_ok hids
  cases hids
  rw [hrows] at hstop h
  obtain ⟨hlt, -⟩ := checkedAdd_eq_some.mp (okOr_eq_ok.mp hstop)
  obtain ⟨hlen, hfind⟩ := metadataColumns_ok hstored
  obtain ⟨-, -, hschema, hcolumns, hall⟩ := RecordBatch.tryNew_ok h
  have hzip : (output.schema.map Field.name).zip output.columns =
      [("cache_id", Column.ofValues .uint64 (List.replicate rows (UInt64.ofNat cacheId))),
        ("sample_id", Column.ofValues .uint64
          ((List.range rows).map fun i => UInt64.ofNat (sampleStart + i)))] ++
        (schema.map MetadataField.name).zip stored ++ [("weight", uniformWeights rows)] := by
    have hfields : (samplesMetadataFields schema).map Field.name =
        ["cache_id", "sample_id"] ++ schema.map MetadataField.name ++ ["weight"] := by
      simp [samplesMetadataFields, arrowSchema]
    rw [hschema, hcolumns, hfields, List.zip_append (by simp [hlen]), List.zip_append (by simp)]
    rfl
  refine ⟨?_, hlt, ?_, ?_, ?_, RecordBatch.dataType_columnByName h⟩
  · rw [← hall _ List.mem_cons_self]
    exact (Column.len_ofValues .uint64 _).trans List.length_replicate
  · rw [RecordBatch.columnByName_eq, hzip]
    rfl
  · rw [RecordBatch.columnByName_eq, hzip]
    rfl
  · rw [RecordBatch.columnByName_eq, hzip, hfind, List.append_assoc, List.find?_append, List.find?_append]
    cases ((schema.map MetadataField.name).zip stored).find? fun p => p.1 = "weight" <;> rfl

theorem identityColumns_exported (h : samplesMetadataBatch cacheId sampleStart schema chunk rows = .ok output) :
    identityColumns output = .ok
      { cacheIds := .ofValues .uint64 (List.replicate rows (UInt64.ofNat cacheId))
        sampleIds := .ofValues .uint64 ((List.range rows).map fun i => UInt64.ofNat (sampleStart + i))
        weights := (chunk.columnByName "weight").getD (uniformWeights rows) } := by
  obtain ⟨-, -, hcache, hsample, hweight, -⟩ := samplesMetadataBatch_ok h
  simp only [identityColumns, requiredColumn, hcache, hsample, hweight, okOr, bind, Except.bind]

end exported

/-! ### Names of stored columns -/

/-- No stored column takes the name of an identity column, and stored columns of one name are of one
kind. -/
def NamesOk (schema : List MetadataField) : Prop :=
  (∀ field ∈ schema, field.name ≠ "cache_id" ∧ field.name ≠ "sample_id") ∧
    ∀ f ∈ schema, ∀ g ∈ schema, f.name = g.name → f.kind = g.kind

theorem typeMatches_arrowType (a b : MetadataKind) :
    metadataUpdateTypeMatches (arrowType a) (arrowType b) = true ↔ a = b := by
  cases a <;> cases b <;> decide

theorem typeMatches_uint64 (kind : MetadataKind) :
    metadataUpdateTypeMatches .uint64 (arrowType kind) = false := by
  cases kind <;> rfl

theorem find?_samplesMetadataFields {schema : List MetadataField} {field : MetadataField} (hmem : field ∈ schema)
    (hcache : field.name ≠ "cache_id") (hsample : field.name ≠ "sample_id") :
    ∃ first ∈ schema, first.name = field.name ∧
      ((samplesMetadataFields schema).find? fun f => f.name = field.name).map Field.dataType =
        some (arrowType first.kind) ∧
      schema.find? (fun f => f.name = field.name) = some first := by
  obtain ⟨first, hfirst⟩ : ∃ first, schema.find? (fun f => f.name = field.name) = some first := by
    rw [← Option.isSome_iff_exists, List.find?_isSome]
    exact ⟨field, hmem, by simp⟩
  have hname : first.name = field.name := by simpa using List.find?_some hfirst
  refine ⟨first, List.mem_of_find?_eq_some hfirst, hname, ?_, hfirst⟩
  have harrow : (arrowSchema schema).find? (fun f => f.name = field.name) =
      some ⟨first.name, arrowType first.kind, false⟩ := by
    rw [arrowSchema, List.find?_map]
    exact congrArg _ hfirst
  have hnone : List.find? (fun f : Field => decide (f.name = field.name))
      [⟨"cache_id", .uint64, false⟩, ⟨"sample_id", .uint64, false⟩] = none := by
    simp [hcache.symm, hsample.symm]
  rw [samplesMetadataFields, List.append_assoc, List.find?_append, List.find?_append, hnone, harrow]
  rfl

/-- The check of the stored columns looks at names only. -/
theorem validateRequiredMetadataColumns_iff {cacheId sampleStart rows : ℕ} {schema : List MetadataField}
    {chunk output : RecordBatch} (h : samplesMetadataBatch cacheId sampleStart schema chunk rows = .ok output) :
    validateRequiredMetadataColumns output schema = .ok () ↔ NamesOk schema := by
  obtain ⟨-, -, -, -, -, htypes⟩ := samplesMetadataBatch_ok h
  have hcheck : ∀ field, validateRequiredMetadataColumn output field = .ok () ↔
      ∃ dataType, ((samplesMetadataFields schema).find? fun f => f.name = field.name).map Field.dataType =
        some dataType ∧ metadataUpdateTypeMatches dataType (arrowType field.kind) = true := by
    intro field
    rw [← htypes field.name, validateRequiredMetadataColumn, requiredColumn]
    cases output.columnByName field.name with
    | none => simp [okOr, bind, Except.bind]
    | some column => simp [okOr, bind, Except.bind]
  rw [validateRequiredMetadataColumns, forM_eq_ok_iff]
  constructor
  · intro hall
    have hfree : ∀ field ∈ schema, field.name ≠ "cache_id" ∧ field.name ≠ "sample_id" := by
      intro field hfield
      obtain ⟨dataType, hfind, hmatch⟩ := (hcheck field).mp (hall field hfield)
      refine ⟨fun hname => ?_, fun hname => ?_⟩ <;>
      · rw [hname] at hfind
        obtain rfl : DataType.uint64 = dataType := by simpa [samplesMetadataFields] using hfind
        rw [typeMatches_uint64] at hmatch
        cases hmatch
    refine ⟨hfree, fun f hf g hg hname => ?_⟩
    have hkind : ∀ field ∈ schema, ∀ first, schema.find? (fun f => f.name = field.name) = some first →
        first.kind = field.kind := by
      intro field hfield first hfirst
      obtain ⟨first', -, -, hfind, hfirst'⟩ :=
        find?_samplesMetadataFields hfield (hfree field hfield).1 (hfree field hfield).2
      obtain ⟨dataType, hdata, hmatch⟩ := (hcheck field).mp (hall field hfield)
      rw [hfind, Option.some.injEq] at hdata
      rw [← hdata, typeMatches_arrowType] at hmatch
      rw [hfirst, Option.some.injEq] at hfirst'
      rw [hfirst', hmatch]
    obtain ⟨first, -, -, -, hfirst⟩ := find?_samplesMetadataFields hf (hfree f hf).1 (hfree f hf).2
    rw [← hkind f hf first hfirst, hkind g hg first (by rw [← hname]; exact hfirst)]
  · rintro ⟨hfree, hsame⟩ field hfield
    obtain ⟨first, hmem, hname, hfind, -⟩ :=
      find?_samplesMetadataFields hfield (hfree field hfield).1 (hfree field hfield).2
    exact (hcheck field).mpr ⟨_, hfind, (typeMatches_arrowType _ _).mpr (hsame first hmem field hfield hname)⟩

/-! ### The whole export -/

def chunkRows (batch : RecordBatch) (start : ℕ) : ℕ := min (batch.numRows - start) metadataBatchRows

/-- `output` is the chunk at `start` of a stored batch, with the samples from `sampleStart` on. -/
def ExportsChunk (cacheId : ℕ) (schema : List MetadataField) (batch : RecordBatch) (start sampleStart : ℕ)
    (output : RecordBatch) : Prop :=
  samplesMetadataBatch cacheId sampleStart schema (batch.slice start (chunkRows batch start))
    (chunkRows batch start) = .ok output

/-- `output` is a chunk of one of the stored batches. -/
def ExportsStored (cacheId : ℕ) (schema : List MetadataField) (batches : List (CacheResult RecordBatch))
    (sampleStart : ℕ) (output : RecordBatch) : Prop :=
  ∃ batch, .ok batch ∈ batches ∧ ∃ start ∈ chunkStarts batch.numRows,
    ExportsChunk cacheId schema batch start sampleStart output

section visit

variable {cacheId cacheOffset : ℕ} {schema : List MetadataField}

theorem visitChunks_ok {batch : RecordBatch} : ∀ {starts : List ℕ} {sampleStart stop : ℕ} {outputs : List RecordBatch},
    visitChunks cacheId cacheOffset schema batch sampleStart starts = .ok (stop, outputs) →
    Segments.Tiled RecordBatch.numRows
        (fun s output => ∃ start ∈ starts, ExportsChunk cacheId schema batch start s output)
        sampleStart outputs stop ∧
      ∀ start ∈ starts, ∃ s, ∃ output ∈ outputs, ExportsChunk cacheId schema batch start s output
  | [], sampleStart, stop, outputs, h => by
      cases h
      exact ⟨.nil _, by simp⟩
  | start :: rest, sampleStart, stop, outputs, h => by
      obtain ⟨physical, -, h⟩ := bind_eq_ok h
      obtain ⟨output, houtput, h⟩ := bind_eq_ok h
      obtain ⟨next, hnext, h⟩ := bind_eq_ok h
      obtain ⟨⟨stop', others⟩, hothers, h⟩ := bind_eq_ok h
      cases h
      obtain ⟨-, rfl⟩ := checkedAdd_eq_some.mp (okOr_eq_ok.mp hnext)
      obtain ⟨htiled, hcover⟩ := visitChunks_ok hothers
      have hrows : output.numRows = chunkRows batch start := (samplesMetadataBatch_ok houtput).1
      refine ⟨.cons ⟨start, List.mem_cons_self, houtput⟩ ?_, fun start' hstart => ?_⟩
      · rw [hrows]
        exact htiled.mono fun s o ⟨start', hmem, ho⟩ => ⟨start', List.mem_cons_of_mem _ hmem, ho⟩
      · rcases List.mem_cons.mp hstart with rfl | hmem
        · exact ⟨sampleStart, output, List.mem_cons_self, houtput⟩
        · obtain ⟨s, o, ho, hexp⟩ := hcover start' hmem
          exact ⟨s, o, List.mem_cons_of_mem _ ho, hexp⟩

theorem visitBatches_ok : ∀ {batches : List (CacheResult RecordBatch)} {sampleStart stop : ℕ}
    {outputs : List RecordBatch},
    visitBatches cacheId cacheOffset schema sampleStart batches = .ok (stop, outputs) →
    Segments.Tiled RecordBatch.numRows (ExportsStored cacheId schema batches) sampleStart outputs stop ∧
      ∀ batch, .ok batch ∈ batches → ∀ start ∈ chunkStarts batch.numRows, ∃ s, ∃ output ∈ outputs,
        ExportsChunk cacheId schema batch start s output
  | [], sampleStart, stop, outputs, h => by
      cases h
      exact ⟨.nil _, by simp⟩
  | first :: rest, sampleStart, stop, outputs, h => by
      obtain ⟨batch, hbatch, h⟩ := bind_eq_ok h
      obtain ⟨⟨next, chunks⟩, hchunks, h⟩ := bind_eq_ok h
      obtain ⟨⟨stop', others⟩, hothers, h⟩ := bind_eq_ok h
      cases h
      obtain ⟨hfirst, hcoverFirst⟩ := visitChunks_ok hchunks
      obtain ⟨hrest, hcoverRest⟩ := visitBatches_ok hothers
      subst hbatch
      refine ⟨(hfirst.mono fun s o ho => ⟨batch, List.mem_cons_self, ho⟩).append
        (hrest.mono fun s o ⟨b, hb, ho⟩ => ⟨b, List.mem_cons_of_mem _ hb, ho⟩), fun b hb start hstart => ?_⟩
      rcases List.mem_cons.mp hb with heq | hmem
      · cases heq
        obtain ⟨s, o, ho, hexp⟩ := hcoverFirst start hstart
        exact ⟨s, o, List.mem_append_left _ ho, hexp⟩
      · obtain ⟨s, o, ho, hexp⟩ := hcoverRest b hmem start hstart
        exact ⟨s, o, List.mem_append_right _ ho, hexp⟩

variable {metadataBatches : LoadedCache → CacheResult (List (CacheResult RecordBatch))}

/-- `output` holds samples of a cache, from physical index `physical` on. -/
def ExportsFrom (metadataBatches : LoadedCache → CacheResult (List (CacheResult RecordBatch)))
    (pop : Population) (physical : ℕ) (output : RecordBatch) : Prop :=
  ∃ i cache batches sampleStart, pop.caches[i]? = some cache ∧ metadataBatches cache = .ok batches ∧
    physical = ((pop.caches.map LoadedCache.sampleCount).take i).sum + sampleStart ∧
    sampleStart + output.numRows ≤ cache.sampleCount ∧
    ExportsStored cache.cacheId pop.schema batches sampleStart output

/-- The outputs are the samples in physical order, and every stored row is among them. -/
theorem visitSamplesMetadata_ok {pop : Population} {total : ℕ} (hpop : pop.Valid total)
    {outputs : List RecordBatch} (h : visitSamplesMetadata metadataBatches pop = .ok outputs) :
    Segments.Tiled RecordBatch.numRows (ExportsFrom metadataBatches pop) 0 outputs total ∧
      ∀ cache ∈ pop.caches, ∀ batches, metadataBatches cache = .ok batches → ∀ batch, .ok batch ∈ batches →
        ∀ start ∈ chunkStarts batch.numRows, ∃ s, ∃ output ∈ outputs,
          ExportsChunk cache.cacheId pop.schema batch start s output := by
  obtain ⟨blocks, hblocks, h⟩ := bind_eq_ok h
  cases h
  obtain ⟨hlen, hvisit⟩ := mapM_eq_ok_iff_getElem.mp hblocks
  rw [List.length_zipIdx] at hlen
  have hcache : ∀ (i : ℕ) (hi : i < pop.caches.length), ∃ batches block,
      metadataBatches pop.caches[i] = .ok batches ∧ blocks[i]? = some block ∧
      Segments.Tiled RecordBatch.numRows (ExportsStored pop.caches[i].cacheId pop.schema batches) 0 block
        pop.caches[i].sampleCount ∧
      ∀ batch, .ok batch ∈ batches → ∀ start ∈ chunkStarts batch.numRows, ∃ s, ∃ output ∈ block,
        ExportsChunk pop.caches[i].cacheId pop.schema batch start s output := by
    intro i hi
    have hone := hvisit i (by simpa using hi) (by omega)
    simp only [List.getElem_zipIdx, Nat.zero_add] at hone
    obtain ⟨offset, -, hone⟩ := bind_eq_ok hone
    obtain ⟨batches, hbatches, hone⟩ := bind_eq_ok hone
    obtain ⟨⟨actual, block⟩, hrun, hone⟩ := bind_eq_ok hone
    simp only at hone
    split_ifs at hone with hactual
    cases hone
    rw [not_not] at hactual
    obtain ⟨htiled, hcover⟩ := visitBatches_ok hrun
    exact ⟨batches, _, hbatches, List.getElem?_eq_getElem (by omega), hactual ▸ htiled, hcover⟩
  constructor
  · have htotal := hpop.total_eq
    rw [htotal, ← Nat.zero_add (List.sum _)]
    refine Segments.Tiled.flatten (by simpa using hlen.symm) fun i block hi => ?_
    have hlt : i < pop.caches.length := by
      have := (List.getElem?_eq_some_iff.mp hi).1
      omega
    obtain ⟨batches, block', hbatches, hblock, htiled, -⟩ := hcache i hlt
    rw [hi, Option.some.injEq] at hblock
    subst hblock
    have hnext : ((pop.caches.map LoadedCache.sampleCount).take (i + 1)).sum =
        ((pop.caches.map LoadedCache.sampleCount).take i).sum + pop.caches[i].sampleCount := by
      rw [List.take_add_one, List.sum_append]
      simp [List.getElem?_eq_getElem hlt]
    rw [Nat.zero_add, Nat.zero_add, hnext]
    refine (htiled.bounded.shift _).mono fun physical output hout => ?_
    obtain ⟨sampleStart, hphysical, hexp, hle⟩ := hout
    exact ⟨i, _, batches, sampleStart, List.getElem?_eq_getElem hlt, hbatches, hphysical, hle, hexp⟩
  · intro cache hmem batches hbatches batch hbatch start hstart
    obtain ⟨i, hi, rfl⟩ := List.getElem_of_mem hmem
    obtain ⟨batches', block, hbatches', hblock, -, hcover⟩ := hcache i hi
    rw [hbatches, Except.ok.injEq] at hbatches'
    subst hbatches'
    obtain ⟨s, output, hout, hexp⟩ := hcover batch hbatch start hstart
    exact ⟨s, output, List.mem_flatten.mpr ⟨block, List.mem_of_getElem? hblock, hout⟩, hexp⟩

end visit

/-! ### Importing the export -/

/-- What the stored metadata has to satisfy: names that leave the generated columns visible, and, where
a stored column is called `weight`, ones in it. -/
structure Importable (metadataBatches : LoadedCache → CacheResult (List (CacheResult RecordBatch)))
    (pop : Population) : Prop where
  names : NamesOk pop.schema
  weights : ∀ cache ∈ pop.caches, ∀ batches, metadataBatches cache = .ok batches →
    ∀ batch, .ok batch ∈ batches → ∀ column, batch.columnByName "weight" = some column →
      ∀ row < batch.numRows, readF64Cell column row "weight" = .ok 1.0

theorem exists_chunk {batch : RecordBatch} {row : ℕ} (h : row < batch.numRows) :
    ∃ start ∈ chunkStarts batch.numRows, ∃ r < chunkRows batch start, row = start + r := by
  have hsplit := Nat.div_add_mod row metadataBatchRows
  have hpos : 0 < metadataBatchRows := by norm_num [metadataBatchRows]
  have hmod := Nat.mod_lt row hpos
  refine ⟨row / metadataBatchRows * metadataBatchRows, List.mem_map.mpr ⟨_, List.mem_range.mpr ?_, rfl⟩,
    row % metadataBatchRows, ?_, by rw [Nat.mul_comm]; exact hsplit.symm⟩
  · rw [Nat.lt_iff_add_one_le, Nat.le_div_iff_mul_le hpos, Nat.add_mul, Nat.mul_comm]
    omega
  · rw [chunkRows, Nat.mul_comm]
    omega

theorem chunk_lt {batch : RecordBatch} {start r : ℕ} (h : r < chunkRows batch start) :
    start + r < batch.numRows := by
  rw [chunkRows] at h
  omega

/-- The weights of an exported chunk are ones exactly if the stored ones are, where they are stored. -/
theorem weights_exported_iff {cacheId start sampleStart : ℕ} {schema : List MetadataField}
    {batch output : RecordBatch} (h : ExportsChunk cacheId schema batch start sampleStart output)
    {columns : IdentityColumns} (hcolumns : identityColumns output = .ok columns) {r : ℕ}
    (hr : r < chunkRows batch start) :
    readF64Cell columns.weights r "weight" = .ok 1.0 ↔
      ∀ column, batch.columnByName "weight" = some column →
        readF64Cell column (start + r) "weight" = .ok 1.0 := by
  rw [identityColumns_exported h, Except.ok.injEq] at hcolumns
  subst hcolumns
  rw [RecordBatch.columnByName_slice]
  cases batch.columnByName "weight" with
  | none =>
      refine ⟨fun _ column hcolumn => (nomatch hcolumn), fun _ => ?_⟩
      exact readF64Cell_ofValues (List.getElem?_replicate_of_lt hr) _
  | some column =>
      simp only [Option.map_some, Option.getD_some, Option.some.injEq, forall_eq', readF64Cell_slice column hr]

section import_

variable {metadataBatches : LoadedCache → CacheResult (List (CacheResult RecordBatch))} {pop : Population}
  {total : ℕ}

/-- A row of the export is read as its own physical index. -/
theorem readUpdate_exported (hpop : pop.Valid total) (hids : ∀ cache ∈ pop.caches, cache.cacheId < wordSize)
    {physical row : ℕ} {output : RecordBatch} (h : ExportsFrom metadataBatches pop physical output)
    (hrow : row < output.numRows) {columns : IdentityColumns} (hcolumns : identityColumns output = .ok columns) :
    readUpdate pop columns row =
      (readF64Cell columns.weights row "weight").map fun weight => (physical + row, weight) := by
  obtain ⟨i, cache, batches, sampleStart, hi, -, rfl, hle, batch, -, start, -, hchunk⟩ := h
  obtain ⟨hrows, hlt, -⟩ := samplesMetadataBatch_ok hchunk
  rw [identityColumns_exported hchunk, Except.ok.injEq] at hcolumns
  rw [hrows] at hrow hle
  have hcell : readU64Cell columns.cacheIds row "cache_id" = .ok cache.cacheId := by
    rw [← hcolumns]
    exact readU64Cell_ofValues (List.getElem?_replicate_of_lt hrow) (hids cache (List.mem_of_getElem? hi)) _
  have hids : ((List.range (chunkRows batch start)).map fun i => UInt64.ofNat (sampleStart + i))[row]? =
      some (UInt64.ofNat (sampleStart + row)) := by
    rw [List.getElem?_map, List.getElem?_range hrow]
    rfl
  have hsample : readU64Cell columns.sampleIds row "sample_id" = .ok (sampleStart + row) := by
    rw [← hcolumns]
    exact readU64Cell_ofValues hids (by omega) _
  have hphysical := hpop.physicalIndex_eq hi (j := sampleStart + row) (by omega)
  rw [readUpdate, hcell, hsample]
  simp only [bind, Except.bind, hphysical, Nat.add_assoc]
  cases readF64Cell columns.weights row "weight" <;> rfl

theorem ArrowMetadata.location_of_selectedRow {table : ArrowMetadata} {lengths : List ℕ}
    (hoffsets : Segments.offsets wordSize 0 lengths = some (table.offsets, table.rows)) {position b r len : ℕ}
    (hp : position < table.len) (hb : lengths[b]? = some len) (hr : r < len)
    (hrow : table.selectedRow position = (lengths.take b).sum + r) : table.location position = .ok (b, r) := by
  have hpoint := Segments.partitionPoint_offsets hoffsets hb hr
  have hoffset := Segments.getElem?_offsets hoffsets (List.getElem?_eq_some_iff.mp hb).1
  rw [Nat.zero_add] at hpoint hoffset
  rw [location, if_neg (Nat.not_le.mpr hp), hrow]
  simp only [hpoint, hoffset, okOr, bind, Except.bind, Nat.add_sub_cancel_left]

theorem ArrowMetadata.location_eq {schema : List Field} {batches : List RecordBatch} {table : ArrowMetadata}
    (h : ArrowMetadata.new schema batches = .ok table) {b r : ℕ} {batch : RecordBatch}
    (hb : batches[b]? = some batch) (hr : r < batch.numRows) :
    table.location (((batches.map RecordBatch.numRows).take b).sum + r) = .ok (b, r) := by
  obtain ⟨hoffsets, -, hnone⟩ := new_ok h
  have hnum : (batches.map RecordBatch.numRows)[b]? = some batch.numRows := by
    rw [List.getElem?_map, hb]
    rfl
  have hrows : table.len = (batches.map RecordBatch.numRows).sum := by
    rw [len, hnone, Segments.total_offsets hoffsets, Nat.zero_add]
  have hinside : ((batches.map RecordBatch.numRows).take b).sum + r < table.len := by
    have hsplit := congrArg List.sum (List.take_append_drop (b + 1) (batches.map RecordBatch.numRows))
    rw [List.sum_append, List.take_add_one, List.sum_append, hnum] at hsplit
    simp only [Option.toList_some, List.sum_singleton] at hsplit
    omega
  exact location_of_selectedRow hoffsets hinside hnum hr (by rw [selectedRow, hnone])

/-- The import gives the original population back, with uniform weights. -/
def ImportsOriginal (d : Dataset) (table : ArrowMetadata) : Prop :=
  ∃ active, extractMetadataArrow d.pop table = .ok active ∧
    active.physicalIndices = List.range d.totalSamples ∧
    active.weights = List.replicate d.totalSamples 1.0

theorem weightsOk_ones : ∀ (n : ℕ) {total : Float}, FloatSum.CountingFloat (total + 1.0) →
    WeightsOk total (List.replicate n 1.0)
  | 0, _, _ => trivial
  | n + 1, _, h =>
      ⟨by decide +kernel, by decide +kernel, FloatSum.isFinite_of_counting h,
        weightsOk_ones n (FloatSum.counting_add_one h)⟩

theorem validateWeights_ones (n : ℕ) : validateWeights (List.replicate n 1.0) n = .ok () :=
  validateWeights_ok.mpr ⟨List.length_replicate, weightsOk_ones n FloatSum.counting_one⟩

theorem checkedColumns_exported {physical : ℕ} {output : RecordBatch}
    (h : ExportsFrom metadataBatches pop physical output) {columns : IdentityColumns} :
    checkedColumns pop output = .ok columns ↔ NamesOk pop.schema ∧ identityColumns output = .ok columns := by
  obtain ⟨i, cache, batches, sampleStart, -, -, -, -, batch, -, start, -, hchunk⟩ := h
  rw [← validateRequiredMetadataColumns_iff hchunk, checkedColumns]
  constructor
  · intro h
    obtain ⟨⟨⟩, hvalid, hcolumns⟩ := bind_eq_ok h
    exact ⟨hvalid, hcolumns⟩
  · rintro ⟨hvalid, hcolumns⟩
    rw [hvalid]
    exact hcolumns

/-- A table that was exported from a dataset. -/
structure ExportOf (metadataBatches : LoadedCache → CacheResult (List (CacheResult RecordBatch)))
    (d : Dataset) (table : ArrowMetadata) : Prop where
  valid : d.Valid
  ids : ∀ cache ∈ d.pop.caches, cache.cacheId < wordSize
  new : ArrowMetadata.new (samplesMetadataFields d.pop.schema) table.batches = .ok table
  tiled : Segments.Tiled RecordBatch.numRows (ExportsFrom metadataBatches d.pop) 0 table.batches d.totalSamples
  cover : ∀ cache ∈ d.pop.caches, ∀ batches, metadataBatches cache = .ok batches →
    ∀ batch, .ok batch ∈ batches → ∀ start ∈ chunkStarts batch.numRows, ∃ s, ∃ output ∈ table.batches,
      ExportsChunk cache.cacheId d.pop.schema batch start s output

namespace ExportOf

variable {d : Dataset} {table : ArrowMetadata} {columns : List IdentityColumns}

theorem of_build (hd : d.Valid) (hids : ∀ cache ∈ d.pop.caches, cache.cacheId < wordSize)
    (h : buildSamplesMetadata metadataBatches d.pop = .ok table) : ExportOf metadataBatches d table := by
  obtain ⟨outputs, hvisit, hnew⟩ := bind_eq_ok h
  obtain ⟨htiled, hcover⟩ := visitSamplesMetadata_ok hd.pop hvisit
  obtain ⟨-, rfl, -⟩ := ArrowMetadata.new_ok hnew
  exact ⟨hd, hids, hnew, htiled, hcover⟩

theorem len_eq (h : ExportOf metadataBatches d table) : table.len = d.totalSamples := by
  obtain ⟨hoffsets, -, hnone⟩ := ArrowMetadata.new_ok h.new
  rw [ArrowMetadata.len, hnone, h.tiled.stop_eq]
  exact Segments.total_offsets hoffsets

theorem exportsFrom (h : ExportOf metadataBatches d table) {b : ℕ} {output : RecordBatch}
    (hb : table.batches[b]? = some output) : ExportsFrom metadataBatches d.pop
      (((table.batches.map RecordBatch.numRows).take b).sum) output := by
  simpa using h.tiled.getElem hb

theorem exists_row (h : ExportOf metadataBatches d table) {position : ℕ} (hp : position < d.totalSamples) :
    ∃ b output r, table.batches[b]? = some output ∧ r < output.numRows ∧
      position = ((table.batches.map RecordBatch.numRows).take b).sum + r := by
  rw [h.tiled.stop_eq, Nat.zero_add] at hp
  obtain ⟨b, len, r, hb, hr, heq⟩ := Segments.exists_segment hp
  rw [List.getElem?_map, Option.map_eq_some_iff] at hb
  obtain ⟨output, hb, rfl⟩ := hb
  exact ⟨b, output, r, hb, hr, heq⟩

theorem readPosition_eq (h : ExportOf metadataBatches d table)
    (hcolumns : table.batches.mapM (checkedColumns d.pop) = .ok columns) {b r : ℕ} {output : RecordBatch}
    (hb : table.batches[b]? = some output) (hr : r < output.numRows) :
    ∃ ids, identityColumns output = .ok ids ∧
      readPosition d.pop table columns (((table.batches.map RecordBatch.numRows).take b).sum + r) =
        (readF64Cell ids.weights r "weight").map fun weight =>
          (((table.batches.map RecordBatch.numRows).take b).sum + r, weight) := by
  obtain ⟨hlen, hall⟩ := mapM_eq_ok_iff_getElem.mp hcolumns
  have hexp := h.exportsFrom hb
  obtain ⟨hlt, rfl⟩ := List.getElem?_eq_some_iff.mp hb
  have hids := ((checkedColumns_exported hexp).mp (hall b hlt (by omega))).2
  refine ⟨_, hids, ?_⟩
  simp only [readPosition, ArrowMetadata.location_eq h.new hb hr, bind, Except.bind,
    List.getElem?_eq_getElem (show b < columns.length by omega), okOr]
  exact readUpdate_exported h.valid.pop h.ids hexp hr hids

theorem namesOk (h : ExportOf metadataBatches d table)
    (hcolumns : table.batches.mapM (checkedColumns d.pop) = .ok columns) : NamesOk d.pop.schema := by
  -- the population is not empty, so some batch was checked
  obtain ⟨b, output, r, hb, -⟩ := h.exists_row h.valid.nonempty
  have hexp := h.exportsFrom hb
  obtain ⟨hlt, rfl⟩ := List.getElem?_eq_some_iff.mp hb
  obtain ⟨hlen, hall⟩ := mapM_eq_ok_iff_getElem.mp hcolumns
  exact ((checkedColumns_exported hexp).mp (hall b hlt (by omega))).1

/-- Only importable metadata is imported as it was. -/
theorem importable (h : ExportOf metadataBatches d table) (himports : ImportsOriginal d table) :
    Importable metadataBatches d.pop := by
  obtain ⟨active, hextract, -, hweights⟩ := himports
  obtain ⟨⟨⟩, -, hextract⟩ := bind_eq_ok hextract
  obtain ⟨columns, hcolumns, hextract⟩ := bind_eq_ok hextract
  obtain ⟨updates, hupdates, hextract⟩ := bind_eq_ok hextract
  obtain ⟨⟨⟩, -, hextract⟩ := bind_eq_ok hextract
  cases hextract
  obtain ⟨hcount, hrows⟩ := mapM_eq_ok_iff_getElem.mp hupdates
  rw [List.length_range, h.len_eq] at hcount
  refine ⟨h.namesOk hcolumns, fun cache hcache batches hb batch hbatch column hcolumn row hrow => ?_⟩
  -- the stored row is row `r` of an output, so it was read at a position of the table
  obtain ⟨start, hstart, r, hr, rfl⟩ := exists_chunk hrow
  obtain ⟨sampleStart, output, hout, hchunk⟩ := h.cover cache hcache batches hb batch hbatch start hstart
  obtain ⟨b, hb⟩ := List.mem_iff_getElem?.mp hout
  have hr' : r < output.numRows := (samplesMetadataBatch_ok hchunk).1 ▸ hr
  obtain ⟨ids, hids, hread⟩ := h.readPosition_eq hcolumns hb hr'
  set position := ((table.batches.map RecordBatch.numRows).take b).sum + r with hposition
  have hlt : position < d.totalSamples := by
    have hend := h.tiled.bounded.getElem hb
    omega
  have hupdate := hrows position (by simpa [h.len_eq] using hlt) (by omega)
  rw [List.getElem_range, hread] at hupdate
  have hone : updates[position].2 = 1.0 := by
    have := congrArg (fun l => l[position]?) hweights
    simp only [List.getElem?_map, List.getElem?_replicate, hlt, if_true,
      List.getElem?_eq_getElem (show position < updates.length by omega), Option.map_some,
      Option.some.injEq] at this
    exact this
  refine (weights_exported_iff hchunk hids hr).mp ?_ column hcolumn
  cases hcell : readF64Cell ids.weights r "weight" with
  | error error =>
      rw [hcell] at hupdate
      cases hupdate
  | ok weight =>
      rw [hcell] at hupdate
      have hpair : (position, weight) = updates[position] := Except.ok.inj hupdate
      rw [← hone, ← hpair]

theorem exists_columns (h : ExportOf metadataBatches d table) (hnames : NamesOk d.pop.schema) :
    ∃ columns, table.batches.mapM (checkedColumns d.pop) = .ok columns := by
  refine mapM_ok_of_forall fun output hout => ?_
  obtain ⟨b, hb⟩ := List.mem_iff_getElem?.mp hout
  have hexp := h.exportsFrom hb
  obtain ⟨i, cache, batches, sampleStart, -, -, -, -, batch, -, start, -, hchunk⟩ := h.exportsFrom hb
  exact ⟨_, (checkedColumns_exported hexp).mpr ⟨hnames, identityColumns_exported hchunk⟩⟩

theorem readPosition_one (h : ExportOf metadataBatches d table) (himportable : Importable metadataBatches d.pop)
    (hcolumns : table.batches.mapM (checkedColumns d.pop) = .ok columns) {position : ℕ}
    (hp : position < d.totalSamples) :
    readPosition d.pop table columns position = .ok (position, 1.0) := by
  obtain ⟨b, output, r, hb, hr, rfl⟩ := h.exists_row hp
  obtain ⟨ids, hids, hread⟩ := h.readPosition_eq hcolumns hb hr
  obtain ⟨i, cache, batches, sampleStart, hi, hstored, -, -, batch, hbatch, start, -, hchunk⟩ :=
    h.exportsFrom hb
  have hr' : r < chunkRows batch start := (samplesMetadataBatch_ok hchunk).1 ▸ hr
  have hone : readF64Cell ids.weights r "weight" = .ok 1.0 :=
    (weights_exported_iff hchunk hids hr').mpr fun column hcolumn =>
      himportable.weights cache (List.mem_of_getElem? hi) batches hstored batch hbatch column hcolumn _
        (chunk_lt hr')
  rw [hread, hone]
  rfl

theorem importsOriginal (h : ExportOf metadataBatches d table) (himportable : Importable metadataBatches d.pop) :
    ImportsOriginal d table := by
  obtain ⟨columns, hcolumns⟩ := h.exists_columns himportable.names
  have hupdates : (List.range d.totalSamples).mapM (readPosition d.pop table columns) =
      .ok ((List.range d.totalSamples).map fun position => (position, 1.0)) := by
    refine mapM_eq_ok_iff_getElem.mpr ⟨by simp, fun i h₁ h₂ => ?_⟩
    rw [List.getElem_map, List.getElem_range]
    exact h.readPosition_one himportable hcolumns (by simpa using h₁)
  have hfst : ((List.range d.totalSamples).map fun position => (position, (1.0 : Float))).map Prod.fst =
      List.range d.totalSamples := by simp [Function.comp_def]
  have hsnd : ((List.range d.totalSamples).map fun position => (position, (1.0 : Float))).map Prod.snd =
      List.replicate d.totalSamples 1.0 := by simp [Function.comp_def, List.map_const']
  have hactive : validateActiveMetadata d.totalSamples = .ok () := by
    have := h.valid.nonempty
    rw [validateActiveMetadata, if_neg (by omega)]
  refine ⟨⟨List.range d.totalSamples, List.replicate d.totalSamples 1.0, table⟩, ?_, rfl, rfl⟩
  rw [extractMetadataArrow, h.len_eq, hactive, hcolumns]
  simp only [bind, Except.bind, hupdates, hfst, hsnd, validateWeights_ones]

end ExportOf

/-- **Round trip.**  The exported population of a loaded dataset is imported as the original one
exactly if the stored metadata leaves the generated columns visible.  Cache identities are `u64`. -/
theorem imports_original_iff {loadCaches : List Path → CacheResult (List LoadedCache)} {paths : List Path}
    {seed : BitVec 64} {prefetchSize : ℕ} {numWorkers : Positive} {shuffle : Bool} {d : Dataset}
    {s : MutableDatasetState}
    (hload : Dataset.load loadCaches paths seed prefetchSize numWorkers shuffle = .ok (d, s))
    (hids : ∀ cache ∈ d.pop.caches, cache.cacheId < wordSize) {table : ArrowMetadata}
    (hexport : buildSamplesMetadata metadataBatches d.pop = .ok table) :
    ImportsOriginal d table ↔ Importable metadataBatches d.pop :=
  have h := ExportOf.of_build (Dataset.valid_of_load hload).1 hids hexport
  ⟨h.importable, h.importsOriginal⟩

end import_

/-! ### Stored names at work -/

namespace OneColumn

/-- A cache of two samples with one stored column. -/
def cache (field : MetadataField) : LoadedCache where
  cacheId := 7
  manifest := .v3 7 ⟨"s", 2, [field], "", "", [], ∅⟩
  metadataRows := none
  index := ⟨List.replicate 48 0⟩
  path := ["c"]
  validateEmbeddedMetadata := false

def batches (name : String) (column : Column) : LoadedCache → CacheResult (List (CacheResult RecordBatch)) :=
  fun _ => .ok [.ok ⟨[⟨name, column.dataType, false⟩], [column], 2⟩]

def dataset (field : MetadataField) : Dataset :=
  ⟨⟨[cache field], [0], (∅ : AList fun _ : ℕ => ℕ).insert 7 0, [field]⟩, 2, 0, ⟨1, Nat.one_pos⟩, ⟨1, Nat.one_pos⟩,
    false⟩

def start : MutableDatasetState := ⟨.full, none, ⟨2, Nat.two_pos⟩, 0, 0⟩

def load (field : MetadataField) : CacheResult (Dataset × MutableDatasetState) :=
  Dataset.load (fun _ => .ok [cache field]) [["c"]] 0 1 ⟨1, Nat.one_pos⟩ false

def table (field : MetadataField) (column : Column) : ArrowMetadata where
  schema := samplesMetadataFields [field]
  batches := [⟨samplesMetadataFields [field],
    [.ofValues .uint64 [(7 : UInt64), (7 : UInt64)], .ofValues .uint64 [(0 : UInt64), (1 : UInt64)], column,
      .ofValues .float64 [(1.0 : Float), (1.0 : Float)]], 2⟩]
  offsets := [0]
  rows := 2
  selection := none

def labels : Column := .ofValues .int64 [(5 : Int64), (6 : Int64)]

def halves : Column := .ofValues .float64 [(0.5 : Float), (2.0 : Float)]

end OneColumn

/-- A stored column of labels does not hide anything. -/
theorem imports_original_labels :
    ImportsOriginal (OneColumn.dataset ⟨"label", .int⟩) (OneColumn.table ⟨"label", .int⟩ OneColumn.labels) := by
  have hload : OneColumn.load ⟨"label", .int⟩ = .ok (OneColumn.dataset ⟨"label", .int⟩, OneColumn.start) := rfl
  have hexport : buildSamplesMetadata (OneColumn.batches "label" OneColumn.labels)
      (OneColumn.dataset ⟨"label", .int⟩).pop = .ok (OneColumn.table ⟨"label", .int⟩ OneColumn.labels) := rfl
  refine (imports_original_iff hload (by simp [OneColumn.dataset, OneColumn.cache, wordSize]) hexport).mpr ⟨?_, ?_⟩
  · simp [NamesOk, OneColumn.dataset]
  · intro cache _ batches hbatches batch hbatch column hcolumn
    cases hbatches
    obtain rfl : batch = _ := Except.ok.inj (List.mem_singleton.mp hbatch)
    cases hcolumn

/-- A stored column named `weight` is taken for the sampling weights, and one named `sample_id`
makes the import fail. -/
theorem stored_weight_is_imported :
    OneColumn.load ⟨"weight", .float⟩ = .ok (OneColumn.dataset ⟨"weight", .float⟩, OneColumn.start) ∧
    buildSamplesMetadata (OneColumn.batches "weight" OneColumn.halves) (OneColumn.dataset ⟨"weight", .float⟩).pop =
      .ok (OneColumn.table ⟨"weight", .float⟩ OneColumn.halves) ∧
    ¬ ImportsOriginal (OneColumn.dataset ⟨"weight", .float⟩)
      (OneColumn.table ⟨"weight", .float⟩ OneColumn.halves) ∧
    OneColumn.load ⟨"sample_id", .int⟩ = .ok (OneColumn.dataset ⟨"sample_id", .int⟩, OneColumn.start) ∧
    buildSamplesMetadata (OneColumn.batches "sample_id" OneColumn.labels)
      (OneColumn.dataset ⟨"sample_id", .int⟩).pop = .ok (OneColumn.table ⟨"sample_id", .int⟩ OneColumn.labels) ∧
    ¬ ImportsOriginal (OneColumn.dataset ⟨"sample_id", .int⟩)
      (OneColumn.table ⟨"sample_id", .int⟩ OneColumn.labels) := by
  refine ⟨rfl, rfl, ?_, rfl, rfl, ?_⟩
  · rintro ⟨active, hextract, -, hweights⟩
    have hactual : extractMetadataArrow (OneColumn.dataset ⟨"weight", .float⟩).pop
        (OneColumn.table ⟨"weight", .float⟩ OneColumn.halves) =
        .ok ⟨[0, 1], [0.5, 2.0], OneColumn.table ⟨"weight", .float⟩ OneColumn.halves⟩ := rfl
    rw [hactual, Except.ok.injEq] at hextract
    subst hextract
    have hhalf : (0.5 : Float) = 1.0 := (List.cons.inj hweights).1
    revert hhalf
    decide +kernel
  · rintro ⟨active, hextract, -⟩
    cases hextract

end DatasetRt
