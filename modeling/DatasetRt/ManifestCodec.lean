import DatasetRt.Manifest

/-! # A written manifest is read back

`Manifest.WellFormed` is what the encoder relies on: numbers in range, policies their own
constructors accept, a record scope that fits the version, and no application field under a
reserved name.  `ofJson_toJson` says that decoding the encoding of such a manifest gives it
back, up to the precision of floats. -/

namespace DatasetRt

/-! ### Maps and lists of fields -/

section fields

variable {α : Type}

theorem lookup_toList (m : Std.ExtTreeMap String α compare) (k : String) :
    m.toList.lookup k = m[k]? := by
  cases h : m[k]? with
  | none =>
      refine List.lookup_eq_none_iff.mpr fun p hp => ?_
      have hne : k ≠ p.1 := by
        rintro rfl
        rw [Std.ExtTreeMap.mem_toList_iff_getElem?_eq_some.mp (show (p.1, p.2) ∈ m.toList from hp)] at h
        cases h
      simpa using hne
  | some v =>
      have hmem := Std.ExtTreeMap.mem_toList_iff_getElem?_eq_some.mpr h
      obtain ⟨l₁, l₂, hsplit⟩ := List.append_of_mem hmem
      refine List.lookup_eq_some_iff.mpr ⟨l₁, l₂, hsplit, fun p hp => ?_⟩
      have hdist := Std.ExtTreeMap.distinct_keys_toList (t := m)
      rw [hsplit, List.pairwise_append] at hdist
      have := hdist.2.2 p hp (k, v) List.mem_cons_self
      have hne : k ≠ p.1 := by
        rintro rfl
        exact this (by simp)
      simpa using hne

theorem nodup_keys_toList (m : Std.ExtTreeMap String α compare) : (m.toList.map Prod.fst).Nodup := by
  rw [List.Nodup, List.pairwise_map]
  refine Std.ExtTreeMap.distinct_keys_toList.imp fun {a b} h => ?_
  intro he
  exact h (by simp [he])

theorem mem_keys_toList {m : Std.ExtTreeMap String α compare} {k : String} :
    k ∈ m.toList.map Prod.fst ↔ m[k]?.isSome = true := by
  constructor
  · intro h
    obtain ⟨p, hp, rfl⟩ := List.mem_map.mp h
    rw [Std.ExtTreeMap.mem_toList_iff_getElem?_eq_some.mp (show (p.1, p.2) ∈ m.toList from hp)]
    rfl
  · intro h
    obtain ⟨v, hv⟩ := Option.isSome_iff_exists.mp h
    exact List.mem_map.mpr ⟨(k, v), Std.ExtTreeMap.mem_toList_iff_getElem?_eq_some.mpr hv, rfl⟩

theorem lookup_map_snd {β : Type} (f : α → β) (k : String) : ∀ l : List (String × α),
    (l.map fun p => (p.1, f p.2)).lookup k = (l.lookup k).map f
  | [] => rfl
  | (name, v) :: l => by
      simp only [List.map_cons, List.lookup_cons]
      cases hk : k == name
      · exact lookup_map_snd f k l
      · rfl

theorem mapM_map_eq_some {β γ : Type} {f : β → Option γ} {g : α → β} {h : α → γ} :
    ∀ {l : List α}, (∀ x ∈ l, f (g x) = some (h x)) → (l.map g).mapM f = some (l.map h)
  | [], _ => by simp
  | x :: l, hx => by
      have ih := mapM_map_eq_some fun y hy => hx y (List.mem_cons_of_mem _ hy)
      simp only [List.map_cons, List.mapM_cons, hx x List.mem_cons_self, ih]
      rfl

theorem Manifest.uniqueFields_ok : ∀ (l : List (String × Json)) (m : FieldMap),
    (l.map Prod.fst).Nodup → (∀ name ∈ l.map Prod.fst, m[name]? = none) →
    ∃ m', Manifest.uniqueFields m l = .ok m' ∧ ∀ k, m'[k]? = (l.lookup k).or m[k]?
  | [], m, _, _ => ⟨m, rfl, fun k => by simp⟩
  | (name, v) :: l, m, hnodup, hfresh => by
      rw [List.map_cons, List.nodup_cons] at hnodup
      have hname : m[name]? = none := hfresh name (by simp)
      obtain ⟨m', hm', hget⟩ := uniqueFields_ok l (m.insert name v) hnodup.2 (by
        intro n hn
        have hne : name ≠ n := fun he => hnodup.1 (he ▸ hn)
        rw [Std.ExtTreeMap.getElem?_insert]
        simp [hne, hfresh n (by simp only [List.map_cons, List.mem_cons]; exact .inr hn)])
      refine ⟨m', ?_, fun k => ?_⟩
      · have hc : m.contains name = false := by
          rw [Std.ExtTreeMap.contains_eq_isSome_getElem?, hname]; rfl
        rw [Manifest.uniqueFields, hc]
        simpa using hm'
      · rw [hget, List.lookup_cons, Std.ExtTreeMap.getElem?_insert]
        by_cases hk : k = name
        · subst hk
          have hl : l.lookup k = none := List.lookup_eq_none_iff.mpr fun p hp => by
            have : k ≠ p.1 := fun he => hnodup.1 (List.mem_map.mpr ⟨p, hp, he.symm⟩)
            simpa using this
          simp [hl]
        · have hk' : ¬ name = k := fun he => hk he.symm
          have hbeq : (k == name) = false := beq_eq_false_iff_ne.mpr hk
          simp [hbeq, hk']

theorem getElem?_foldl_erase (k : String) : ∀ (names : List String) (m : FieldMap),
    (names.foldl (fun rest name => rest.erase name) m)[k]? = if k ∈ names then none else m[k]?
  | [], m => by simp
  | name :: names, m => by
      rw [List.foldl_cons, getElem?_foldl_erase k names, Std.ExtTreeMap.getElem?_erase]
      by_cases hk : k = name
      · subst hk; simp
      · have hk' : ¬ name = k := fun he => hk he.symm
        simp [hk, hk']

end fields

/-! ### Policies, fields and shards -/

section parts

variable {J : JsonLib}

theorem ShardCompression.newLegacy_ok {algo : CompressionAlgo} {ratio : Float} {c : ShardCompression} :
    newLegacy algo ratio = .ok c ↔
      algo ≠ .brotli ∧ ratio.isFinite = true ∧ ¬ ratio ≤ 0.0 ∧
        (algo = .none → (ratio == 1.0) = true) ∧ c = legacy algo ratio := by
  unfold newLegacy
  cases hf : ratio.isFinite <;> by_cases hp : ratio ≤ 0.0 <;> cases algo <;>
    cases h1 : ratio == 1.0 <;> simp [hp, bne, h1, eq_comm]

theorem ShardCompression.newLegacy_reread (hJ : J.Lawful) {algo : CompressionAlgo} {ratio : Float}
    (h : newLegacy algo ratio = .ok (legacy algo ratio)) :
    newLegacy algo (J.reread ratio) = .ok (legacy algo (J.reread ratio)) := by
  obtain ⟨halgo, hfin, hpos, hone, -⟩ := newLegacy_ok.mp h
  obtain ⟨hfin', hpos'⟩ := hJ.reread_pos ratio hfin hpos
  exact newLegacy_ok.mpr ⟨halgo, hfin', hpos', fun he => hJ.reread_one ratio hfin (hone he), rfl⟩

theorem ShardCompression.ranged_ok {lo hi value : ℤ} {message : String} {c c' : ShardCompression} :
    ranged lo hi value message c = .ok c' ↔ (lo ≤ value ∧ value ≤ hi) ∧ c = c' := by
  unfold ranged
  split_ifs with h <;> simp [h]

theorem ShardCompression.ofJson_toJson (hJ : J.Lawful) {c : ShardCompression} (hvalid : c.Valid) :
    ofJson (c.toJson.reread J.reread) = some (c.reread J.reread) := by
  cases c with
  | none => rfl
  | legacy algo ratio =>
      have hfin : ratio.isFinite = true := (newLegacy_ok.mp hvalid).2.1
      simp [toJson, Json.reread, Json.rereadFields, hfin, ofJson, Json.structFields, readWire, readLegacy, readAlgo,
        readOptions, Json.getField, List.lookup, Json.asVariant, Json.asStr, Json.asF64, onlyFields, ofWire,
        newLegacy_reread hJ hvalid, reread]
  | lz4Fast acceleration =>
      obtain ⟨hrange, -⟩ := ranged_ok.mp hvalid
      have hi := Json.asI32_ofI32 (n := acceleration) (by omega) (by omega)
      have hc' : fast acceleration = .ok (lz4Fast acceleration) := hvalid
      have halgo : CompressionAlgo.fromName "lz4" = .ok .lz4 := rfl
      simp [toJson, Json.reread, Json.rereadFields, ofJson, Json.structFields, readWire, readAlgo, halgo,
        readOptions, readLevel, Json.getField, List.lookup, Json.asVariant, Json.asStr, onlyFields, ofWire, hi, hc',
        reread]
  | lz4HC level =>
      obtain ⟨hrange, -⟩ := ranged_ok.mp hvalid
      have hi := Json.asI32_ofI32 (n := level) (by omega) (by omega)
      have hc' : hc level = .ok (lz4HC level) := hvalid
      have halgo : CompressionAlgo.fromName "lz4" = .ok .lz4 := rfl
      simp [toJson, Json.reread, Json.rereadFields, ofJson, Json.structFields, readWire, readAlgo, halgo,
        readOptions, readLevel, Json.getField, List.lookup, Json.asVariant, Json.asStr, onlyFields, ofWire, hi, hc',
        reread]
  | brotli level =>
      obtain ⟨hrange, -⟩ := ranged_ok.mp hvalid
      have hi := Json.asI32_ofI32 (n := level) (by omega) (by omega)
      have hc' : newBrotli level = .ok (brotli level) := hvalid
      have halgo : CompressionAlgo.fromName "brotli" = .ok .brotli := rfl
      simp [toJson, Json.reread, Json.rereadFields, ofJson, Json.structFields, readWire, readAlgo, halgo,
        readOptions, readLevel, Json.getField, List.lookup, Json.asVariant, Json.asStr, onlyFields, ofWire, hi, hc',
        reread]

theorem MetadataField.ofJson_toJson (r : Float → Float) (field : MetadataField) :
    ofJson (field.toJson.reread r) = some field := by
  obtain ⟨name, kind⟩ := field
  cases kind <;> simp [toJson, Json.reread, Json.rereadFields, ofJson, Json.structFields, Json.getField,
    List.lookup, Json.asStr, Json.asVariant, MetadataKind.name, MetadataKind.ofName]

/-- The shard entry with its policy as it is read back. -/
def ShardManifest.reread (r : Float → Float) (shard : ShardManifest) : ShardManifest :=
  { shard with compression := shard.compression.reread r }

structure ShardManifest.WellFormed (shard : ShardManifest) : Prop where
  uncompressedByteLen : shard.uncompressedByteLen < wordSize
  byteLen : shard.byteLen < wordSize
  compression : shard.compression.Valid

theorem ShardManifest.ofJson_toJson (hJ : J.Lawful) {shard : ShardManifest} (h : shard.WellFormed) :
    ofJson (shard.toJson.reread J.reread) = some (shard.reread J.reread) := by
  have hc := ShardCompression.ofJson_toJson hJ h.compression
  have hu := h.uncompressedByteLen
  have hb := h.byteLen
  simp [toJson, Json.reread, Json.rereadFields, ofJson, Json.structFields, Json.getField, List.lookup,
    Json.asStr, Json.asU64, hc, hu, hb, reread]

end parts

/-! ### The manifest -/

/-- The storage fields as they are read back. -/
def ManifestFields.reread (r : Float → Float) (fields : ManifestFields) : ManifestFields :=
  { fields with
    shards := fields.shards.map (ShardManifest.reread r)
    extra := fields.extra.map fun _ j => j.reread r }

structure ManifestFields.WellFormed (fields : ManifestFields) : Prop where
  sampleCount : fields.sampleCount < wordSize
  shards : ∀ shard ∈ fields.shards, shard.WellFormed
  extra : ∀ name ∈ "format_version" :: fieldNames, fields.extra[name]? = none

namespace Manifest

def reread (r : Float → Float) : Manifest → Manifest
  | v2 fields => v2 (fields.reread r)
  | v3 cacheId fields => v3 cacheId (fields.reread r)
  | v4 cacheId fields => v4 cacheId (fields.reread r)

/-- The persistent identity, where the version has one. -/
def cacheId : Manifest → Option ℕ
  | v2 _ => none
  | v3 cacheId _ => some cacheId
  | v4 cacheId _ => some cacheId

structure WellFormed (m : Manifest) : Prop where
  fields : m.fields.WellFormed
  scope : ∀ shard ∈ m.fields.shards, shard.compression.wholeRecord = m.wholeRecord
  identity : ∀ id, m.cacheId = some id → id < wordSize ∧ m.fields.extra["cache_id"]? = none

end Manifest

section manifest

variable {J : JsonLib}

theorem ManifestFields.lookup_toFields (r : Float → Float) (fields : ManifestFields) (k : String) :
    ((fields.toFields.map fun p => (p.1, p.2.reread r)).lookup k) =
      (List.lookup k
        [("source_name", .str fields.sourceName),
          ("sample_count", .num (.posInt fields.sampleCount)),
          ("metadata_schema",
            .arr (fields.metadataSchema.map fun field => field.toJson.reread r)),
          ("metadata_sha256", .str fields.metadataSha256),
          ("index_sha256", .str fields.indexSha256),
          ("shards", .arr (fields.shards.map fun shard => shard.toJson.reread r))]).or
        (fields.extra[k]?.map (Json.reread r)) := by
  rw [toFields, List.map_append, List.lookup_append, lookup_map_snd _ k fields.extra.toList,
    lookup_toList]
  simp [Json.reread, Json.rereadItems_eq_map, Function.comp_def]

theorem ManifestFields.ofBody_toFields (hJ : J.Lawful) {fields : ManifestFields}
    (h : fields.WellFormed) {body : FieldMap}
    (hbody : ∀ k, body[k]? =
      (fields.toFields.map fun p => (p.1, p.2.reread J.reread)).lookup k) :
    ofBody body = some (fields.reread J.reread) := by
  have hget : ∀ k, body[k]? = _ := fun k => (hbody k).trans (lookup_toFields J.reread fields k)
  have hschema : (fields.metadataSchema.map fun field => field.toJson.reread J.reread).mapM
      MetadataField.ofJson = some fields.metadataSchema := by
    rw [mapM_map_eq_some (h := id) fun field _ => MetadataField.ofJson_toJson J.reread field]
    simp
  have hshards : (fields.shards.map fun shard => shard.toJson.reread J.reread).mapM
      ShardManifest.ofJson = some (fields.shards.map (ShardManifest.reread J.reread)) :=
    mapM_map_eq_some fun shard hs => ShardManifest.ofJson_toJson hJ (h.shards shard hs)
  have hextra : fieldNames.foldl (fun rest name => rest.erase name) body =
      fields.extra.map fun _ j => j.reread J.reread := by
    refine Std.ExtTreeMap.ext_getElem? fun k => ?_
    rw [getElem?_foldl_erase, Std.ExtTreeMap.getElem?_map]
    split_ifs with hk
    · rw [h.extra k (List.mem_cons_of_mem _ hk)]
      rfl
    · rw [hget]
      have hnone : ∀ name ∈ fieldNames, (k == name) = false := fun name hname =>
        beq_eq_false_iff_ne.mpr fun he => hk (he ▸ hname)
      simp only [fieldNames, List.mem_cons, List.not_mem_nil, or_false, forall_eq_or_imp,
        forall_eq] at hnone
      simp [List.lookup, hnone]
  have hcount := h.sampleCount
  simp [ofBody, hget, List.lookup, Json.asStr, Json.asU64, Json.asArr, hschema, hshards, hextra,
    hcount, reread]

theorem ManifestFields.keys_toFields (fields : ManifestFields) :
    fields.toFields.map Prod.fst = fieldNames ++ fields.extra.toList.map Prod.fst := by
  simp [toFields, fieldNames]

theorem Manifest.nodup_toFields {fields : ManifestFields} (h : fields.WellFormed) (header : List (String × Json))
    (hnodup : (header.map Prod.fst).Nodup)
    (hheader : ∀ name ∈ header.map Prod.fst, name ∉ fieldNames ∧ fields.extra[name]? = none) :
    ((header ++ fields.toFields).map Prod.fst).Nodup := by
  rw [List.map_append, fields.keys_toFields]
  refine List.Nodup.append hnodup (List.Nodup.append (by decide) (nodup_keys_toList _) ?_) ?_
  · intro name hn hm
    rw [mem_keys_toList, h.extra name (List.mem_cons_of_mem _ hn)] at hm
    cases hm
  · intro name hn hm
    obtain ⟨hnot, hnone⟩ := hheader name hn
    rcases List.mem_append.mp hm with hm | hm
    · exact hnot hm
    · rw [mem_keys_toList, hnone] at hm
      cases hm

/-- Decoding starts from all encoded fields, those of the version in front. -/
theorem Manifest.uniqueFields_toFields (r : Float → Float) {fields : ManifestFields}
    (h : fields.WellFormed) (header : List (String × Json)) (hnodup : (header.map Prod.fst).Nodup)
    (hheader : ∀ name ∈ header.map Prod.fst, name ∉ fieldNames ∧ fields.extra[name]? = none) :
    ∃ m, Manifest.uniqueFields ∅ ((header ++ fields.toFields).map fun p => (p.1, p.2.reread r)) = .ok m ∧
      ∀ k, m[k]? = ((header.map fun p => (p.1, p.2.reread r)).lookup k).or
        ((fields.toFields.map fun p => (p.1, p.2.reread r)).lookup k) := by
  have hkeys : (((header ++ fields.toFields).map fun p => (p.1, p.2.reread r)).map Prod.fst).Nodup := by
    rw [List.map_map]
    exact nodup_toFields h header hnodup hheader
  obtain ⟨m, hm, hget⟩ := Manifest.uniqueFields_ok _ ∅ hkeys (by simp)
  refine ⟨m, hm, fun k => ?_⟩
  rw [hget k, List.map_append, List.lookup_append]
  simp

/-- The scope check passes on what is read back. -/
theorem Manifest.scope_reread {m : Manifest} (h : m.WellFormed) (r : Float → Float) :
    ((m.reread r).fields.shards.any fun shard =>
      shard.compression.wholeRecord != (m.reread r).wholeRecord) = false := by
  have hwhole : (m.reread r).wholeRecord = m.wholeRecord := by cases m <;> rfl
  have hshards : (m.reread r).fields.shards = m.fields.shards.map (ShardManifest.reread r) := by
    cases m <;> rfl
  rw [hwhole, hshards, List.any_eq_false]
  intro read hread
  obtain ⟨shard, hs, rfl⟩ := List.mem_map.mp hread
  have hscope : (shard.reread r).compression.wholeRecord = shard.compression.wholeRecord := by
    unfold ShardManifest.reread
    cases shard.compression <;> rfl
  simp [hscope, h.scope shard hs]

/-- The decoder on an object, once its fields and its record are known. -/
theorem Manifest.ofJson_of_fields (version : ℕ) {l : List (String × Json)} {fields : FieldMap}
    {m : Manifest} (hunique : uniqueFields ∅ l = .ok fields)
    (hversion : fields["format_version"]?.bind Json.asU64 = some version)
    (hbody : ∀ shape, ofVersion version (fields.erase "format_version") shape = .ok m)
    (hscope : (m.fields.shards.any fun shard =>
      shard.compression.wholeRecord != m.wholeRecord) = false) :
    ofJson J (.obj l) = .ok m := by
  simp only [ofJson, Json.asObj, okOr, bind, Except.bind, hunique, hversion, hbody, hscope]
  rfl

theorem Manifest.body_v2 (hJ : J.Lawful) {fields : ManifestFields} (h : fields.WellFormed) :
    ∃ M : FieldMap, uniqueFields ∅ (((("format_version", Json.num (.posInt 2)) ::
        fields.toFields).map fun p => (p.1, p.2.reread J.reread))) = .ok M ∧
      M["format_version"]? = some (.num (.posInt 2)) ∧
      ManifestFields.ofBody (M.erase "format_version") = some (fields.reread J.reread) := by
  have hversion : fields.extra["format_version"]? = none := h.extra _ (by simp)
  obtain ⟨M, hM, hget⟩ := uniqueFields_toFields J.reread h
    [("format_version", .num (.posInt 2))] (by simp) (by simpa [fieldNames] using hversion)
  refine ⟨M, hM, by rw [hget]; simp [Json.reread], ?_⟩
  refine ManifestFields.ofBody_toFields hJ h fun k => ?_
  rw [Std.ExtTreeMap.getElem?_erase, hget]
  by_cases hk : k = "format_version"
  · subst hk
    rw [ManifestFields.lookup_toFields]
    simp [List.lookup, hversion]
  · have hbeq : (k == "format_version") = false := beq_eq_false_iff_ne.mpr hk
    have hk' : ¬ "format_version" = k := fun he => hk he.symm
    simp [List.lookup, hbeq, hk']

theorem Manifest.body_identified (hJ : J.Lawful) {fields : ManifestFields} (h : fields.WellFormed)
    (version : ℕ) {id : ℕ} (hid : id < wordSize) (hextra : fields.extra["cache_id"]? = none) :
    ∃ M : FieldMap, uniqueFields ∅ (((("format_version", Json.num (.posInt version)) ::
        ("cache_id", Json.num (.posInt id)) ::
        fields.toFields).map fun p => (p.1, p.2.reread J.reread))) = .ok M ∧
      M["format_version"]? = some (.num (.posInt version)) ∧
      identified (M.erase "format_version") = some (id, fields.reread J.reread) := by
  have hversion : fields.extra["format_version"]? = none := h.extra _ (by simp)
  obtain ⟨M, hM, hget⟩ := uniqueFields_toFields J.reread h
    [("format_version", .num (.posInt version)), ("cache_id", .num (.posInt id))] (by simp)
    (by
      simp only [List.map_cons, List.map_nil, List.mem_cons, List.not_mem_nil, or_false,
        forall_eq_or_imp, forall_eq]
      exact ⟨⟨by decide, hversion⟩, by decide, hextra⟩)
  refine ⟨M, hM, by rw [hget]; simp [Json.reread], ?_⟩
  have hcache : (M.erase "format_version")["cache_id"]? = some (.num (.posInt id)) := by
    rw [Std.ExtTreeMap.getElem?_erase, hget]
    simp [List.lookup, Json.reread]
  have hbody : ManifestFields.ofBody ((M.erase "format_version").erase "cache_id") =
      some (fields.reread J.reread) := by
    refine ManifestFields.ofBody_toFields hJ h fun k => ?_
    rw [Std.ExtTreeMap.getElem?_erase, Std.ExtTreeMap.getElem?_erase, hget]
    by_cases hk : k = "cache_id"
    · subst hk
      rw [ManifestFields.lookup_toFields]
      simp [List.lookup, hextra]
    by_cases hk' : k = "format_version"
    · subst hk'
      rw [ManifestFields.lookup_toFields]
      simp [List.lookup, hversion]
    · have hbeq : (k == "cache_id") = false := beq_eq_false_iff_ne.mpr hk
      have hbeq' : (k == "format_version") = false := beq_eq_false_iff_ne.mpr hk'
      have hne : ¬ "cache_id" = k := fun he => hk he.symm
      have hne' : ¬ "format_version" = k := fun he => hk' he.symm
      simp [List.lookup, hbeq, hbeq', hne, hne']
  simp only [identified, hcache, Json.asU64, Option.bind_some, if_pos hid, hbody]
  rfl

/-- **Manifest round trip.** -/
theorem Manifest.ofJson_toJson (hJ : J.Lawful) {m : Manifest} (h : m.WellFormed) :
    ofJson J (m.toJson.reread J.reread) = .ok (m.reread J.reread) := by
  have hscope := scope_reread h J.reread
  cases m with
  | v2 record =>
      obtain ⟨M, hM, hv, hbody⟩ := body_v2 hJ h.fields
      simp only [toJson, Json.reread, Json.rereadFields_eq_map]
      refine ofJson_of_fields 2 hM (by rw [hv]; rfl) (fun shape => ?_) hscope
      simp [ofVersion, hbody, okOr, Except.map, reread, fields]
  | v3 id record =>
      obtain ⟨hid, hextra⟩ := h.identity id rfl
      obtain ⟨M, hM, hv, hbody⟩ := body_identified hJ h.fields 3 hid hextra
      simp only [toJson, Json.reread, Json.rereadFields_eq_map]
      refine ofJson_of_fields 3 hM (by rw [hv]; rfl) (fun shape => ?_) hscope
      simp [ofVersion, hbody, okOr, Except.map, reread, fields]
  | v4 id record =>
      obtain ⟨hid, hextra⟩ := h.identity id rfl
      obtain ⟨M, hM, hv, hbody⟩ := body_identified hJ h.fields 4 hid hextra
      simp only [toJson, Json.reread, Json.rereadFields_eq_map]
      refine ofJson_of_fields 4 hM (by rw [hv]; rfl) (fun shape => ?_) hscope
      simp [ofVersion, hbody, okOr, Except.map, reread, fields]

end manifest

/-! ### What is read is well formed -/

theorem ShardCompression.valid_of_ofWire {wire : CompressionWire} {c : ShardCompression}
    (h : ofWire wire = .ok c) : c.Valid := by
  rcases wire with ⟨algo, options⟩ | ⟨algo, ratio⟩
  · cases algo <;> cases options <;> simp only [ofWire, fast, hc, newBrotli, ranged_ok] at h
    all_goals first
      | cases h
        done
      | obtain ⟨hrange, rfl⟩ := h
        exact ranged_ok.mpr ⟨hrange, rfl⟩
      | cases h
        trivial
  · simp only [ofWire] at h
    obtain ⟨-, -, -, -, rfl⟩ := newLegacy_ok.mp h
    exact h

theorem ShardCompression.valid_of_ofJson {j : Json} {c : ShardCompression} (h : ofJson j = some c) :
    c.Valid := by
  simp only [ofJson, bind, Option.bind_eq_some_iff] at h
  obtain ⟨wire, -, h⟩ := h
  cases hwire : ofWire wire with
  | error error => simp [hwire] at h
  | ok c' =>
      obtain rfl : c' = c := by simpa [hwire] using h
      exact valid_of_ofWire hwire

theorem Json.asU64_lt {j : Json} {n : ℕ} (h : j.asU64 = some n) : n < wordSize := by
  unfold asU64 at h
  split at h
  · split_ifs at h with hlt
    cases h
    exact hlt
  · cases h

theorem mem_of_mapM_eq_some {α β : Type} {f : α → Option β} : ∀ {l : List α} {ys : List β} {y : β},
    l.mapM f = some ys → y ∈ ys → ∃ x ∈ l, f x = some y
  | [], ys, y, h, hy => by
      cases h
      cases hy
  | x :: l, ys, y, h, hy => by
      simp only [List.mapM_cons, bind, Option.bind_eq_some_iff] at h
      obtain ⟨first, hfirst, rest, hrest, h⟩ := h
      cases h
      rcases List.mem_cons.mp hy with rfl | hy
      · exact ⟨x, List.mem_cons_self, hfirst⟩
      · obtain ⟨z, hz, hfz⟩ := mem_of_mapM_eq_some hrest hy
        exact ⟨z, List.mem_cons_of_mem _ hz, hfz⟩

theorem ShardManifest.wellFormed_of_ofJson {j : Json} {shard : ShardManifest} (h : ofJson j = some shard) :
    shard.WellFormed := by
  simp only [ofJson, bind, Option.bind_eq_some_iff] at h
  obtain ⟨object, -, name, -, uncompressed, ⟨ju, -, hu⟩, byteLen, ⟨jb, -, hb⟩, compression, ⟨jc, -, hc⟩,
    sha256, -, h⟩ := h
  cases h
  exact ⟨Json.asU64_lt hu, Json.asU64_lt hb, ShardCompression.valid_of_ofJson hc⟩

theorem ManifestFields.extra_of_ofBody {body : FieldMap} {fields : ManifestFields} (h : ofBody body = some fields)
    (name : String) : fields.extra[name]? = if name ∈ fieldNames then none else body[name]? := by
  simp only [ofBody, bind, Option.bind_eq_some_iff] at h
  obtain ⟨_, _, _, _, _, _, _, _, _, _, _, _, _, _, _, _, h⟩ := h
  cases h
  exact getElem?_foldl_erase name fieldNames body

theorem ManifestFields.wellFormed_of_ofBody {body : FieldMap} {fields : ManifestFields}
    (h : ofBody body = some fields) (hversion : body["format_version"]? = none) : fields.WellFormed := by
  have hextra := extra_of_ofBody h
  simp only [ofBody, bind, Option.bind_eq_some_iff] at h
  obtain ⟨sourceName, -, sampleCount, ⟨jn, -, hn⟩, schema, -, metadataSchema, -, metadataSha, -, indexSha, -,
    shardList, -, shards, hshards, h⟩ := h
  cases h
  refine ⟨Json.asU64_lt hn, fun shard hshard => ?_, fun name hname => ?_⟩
  · obtain ⟨j, -, hj⟩ := mem_of_mapM_eq_some hshards hshard
    exact ShardManifest.wellFormed_of_ofJson hj
  · rw [hextra]
    split_ifs with hmem
    · rfl
    · rcases List.mem_cons.mp hname with rfl | hin
      · exact hversion
      · exact absurd hin hmem

theorem Manifest.identified_ok {body : FieldMap} {id : ℕ} {fields : ManifestFields}
    (h : identified body = some (id, fields)) (hversion : body["format_version"]? = none) :
    fields.WellFormed ∧ id < wordSize ∧ fields.extra["cache_id"]? = none := by
  simp only [identified, bind, Option.bind_eq_some_iff] at h
  obtain ⟨id', ⟨j, -, hj⟩, fields', hfields, h⟩ := h
  cases h
  refine ⟨ManifestFields.wellFormed_of_ofBody hfields ?_, Json.asU64_lt hj, ?_⟩
  · rw [Std.ExtTreeMap.getElem?_erase, hversion]
    simp
  · rw [ManifestFields.extra_of_ofBody hfields]
    simp [fieldNames]

theorem Manifest.wellFormed_of_ofJson {J : JsonLib} {j : Json} {m : Manifest} (h : ofJson J j = .ok m) :
    m.WellFormed := by
  obtain ⟨object, -, h⟩ := bind_eq_ok h
  obtain ⟨fields, -, h⟩ := bind_eq_ok h
  obtain ⟨version, -, h⟩ := bind_eq_ok h
  obtain ⟨manifest, hmanifest, h⟩ := bind_eq_ok h
  split_ifs at h with hscope
  cases h
  have hversion : (fields.erase "format_version")["format_version"]? = none := by simp
  have hany : ∀ shard ∈ m.fields.shards, shard.compression.wholeRecord = m.wholeRecord := by
    simpa using hscope
  unfold ofVersion at hmanifest
  split_ifs at hmanifest
  · cases hbody : ManifestFields.ofBody (fields.erase "format_version") with
    | none =>
        rw [hbody] at hmanifest
        cases hmanifest
    | some body =>
        rw [hbody] at hmanifest
        cases hmanifest
        exact ⟨ManifestFields.wellFormed_of_ofBody hbody hversion, hany, fun id hid => nomatch hid⟩
  · cases hbody : identified (fields.erase "format_version") with
    | none =>
        rw [hbody] at hmanifest
        cases hmanifest
    | some body =>
        rw [hbody] at hmanifest
        cases hmanifest
        obtain ⟨hwell, hlt, hextra⟩ := identified_ok hbody hversion
        refine ⟨hwell, hany, fun id hid => ?_⟩
        cases hid
        exact ⟨hlt, hextra⟩
  · cases hbody : identified (fields.erase "format_version") with
    | none =>
        rw [hbody] at hmanifest
        cases hmanifest
    | some body =>
        rw [hbody] at hmanifest
        cases hmanifest
        obtain ⟨hwell, hlt, hextra⟩ := identified_ok hbody hversion
        refine ⟨hwell, hany, fun id hid => ?_⟩
        cases hid
        exact ⟨hlt, hextra⟩

end DatasetRt
