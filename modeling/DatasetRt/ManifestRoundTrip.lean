import DatasetRt.SchemaRuns
import DatasetRt.ManifestFrame
import DatasetRt.MigrationSafety

/-! # Every manifest that arises is read back

A manifest comes from a finished builder, from the migration of a decoded one, or from decoding.  `Produced` lists
these origins, each gives a well-formed manifest, and `manifest_round_trip` follows from the codec: decoding the
encoding gives the same manifest, and the scope of the records is the same for the writer and the reader.

The floats of a JSON value are finite (`Json.finite`); `serde_json` can hold no others. -/

namespace DatasetRt

namespace Json

mutual

/-- Every float is finite. -/
def finite : Json → Bool
  | null => true
  | bool _ => true
  | num (.float f) => f.isFinite
  | num (.posInt _) => true
  | num (.negInt _) => true
  | str _ => true
  | arr items => finiteItems items
  | obj fields => finiteFields fields

def finiteItems : List Json → Bool
  | [] => true
  | j :: js => finite j && finiteItems js

def finiteFields : List (String × Json) → Bool
  | [] => true
  | (_, j) :: fields => finite j && finiteFields fields

end

mutual

theorem reread_id : ∀ {j : Json}, j.finite = true → j.reread id = j
  | null, _ => by rw [reread]
  | bool b, _ => by rw [reread]
  | num (.float f), h => by
      rw [finite] at h
      rw [reread, if_pos h, id]
  | num (.posInt n), _ => by rw [reread]
  | num (.negInt n), _ => by rw [reread]
  | str s, _ => by rw [reread]
  | arr items, h => by
      rw [finite] at h
      rw [reread, rereadItems_id h]
  | obj fields, h => by
      rw [finite] at h
      rw [reread, rereadFields_id h]

theorem rereadItems_id : ∀ {items : List Json}, finiteItems items = true → rereadItems id items = items
  | [], _ => by rw [rereadItems]
  | j :: js, h => by
      rw [finiteItems, Bool.and_eq_true] at h
      rw [rereadItems, reread_id h.1, rereadItems_id h.2]

theorem rereadFields_id : ∀ {fields : List (String × Json)}, finiteFields fields = true →
    rereadFields id fields = fields
  | [], _ => by rw [rereadFields]
  | (name, j) :: fields, h => by
      rw [finiteFields, Bool.and_eq_true] at h
      rw [rereadFields, reread_id h.1, rereadFields_id h.2]

end

theorem finite_of_mem : ∀ {fields : List (String × Json)}, finiteFields fields = true →
    ∀ field ∈ fields, field.2.finite = true
  | (name, j) :: fields, h, field, hmem => by
      rw [finiteFields, Bool.and_eq_true] at h
      rcases List.mem_cons.mp hmem with rfl | hmem
      · exact h.1
      · exact finite_of_mem h.2 field hmem

end Json

/-! ### Values that are read back unchanged -/

/-- The fields that applications added are finite. -/
def ManifestFields.FiniteExtra (fields : ManifestFields) : Prop :=
  ∀ (name : String) value, fields.extra[name]? = some value → value.finite = true

theorem ShardManifest.reread_id (shard : ShardManifest) : shard.reread id = shard := by
  obtain ⟨name, uncompressed, byteLen, compression, sha256⟩ := shard
  cases compression <;> rfl

theorem ManifestFields.reread_id {fields : ManifestFields} (h : fields.FiniteExtra) : fields.reread id = fields := by
  have hshards : fields.shards.map (ShardManifest.reread id) = fields.shards := by
    conv_rhs => rw [← List.map_id fields.shards]
    exact List.map_congr_left fun shard _ => ShardManifest.reread_id shard
  have hextra : (fields.extra.map fun _ j => j.reread id) = fields.extra := by
    apply Std.ExtTreeMap.ext_getElem?
    intro name
    rw [Std.ExtTreeMap.getElem?_map]
    cases hget : fields.extra[name]? with
    | none => rfl
    | some value => rw [Option.map_some, Json.reread_id (h name value hget)]
  rw [reread, hshards, hextra]

theorem Manifest.reread_id {m : Manifest} (h : m.fields.FiniteExtra) : m.reread id = m := by
  have hfields := ManifestFields.reread_id h
  cases m with
  | v2 fields => exact congrArg v2 hfields
  | v3 cacheId fields => exact congrArg (v3 cacheId) hfields
  | v4 cacheId fields => exact congrArg (v4 cacheId) hfields

theorem Manifest.toJson_reread_id {m : Manifest} (hwell : m.WellFormed) (h : m.fields.FiniteExtra) :
    m.toJson.reread id = m.toJson := by
  have hfields : Json.rereadFields id m.fields.toFields = m.fields.toFields := by
    rw [← Migration.toFields_reread hwell.fields id, ManifestFields.reread_id h]
  cases m with
  | v2 fields =>
      simp only [toJson, Json.reread, Json.rereadFields]
      exact congrArg (fun l => Json.obj (_ :: l)) hfields
  | v3 cacheId fields =>
      simp only [toJson, Json.reread, Json.rereadFields]
      exact congrArg (fun l => Json.obj (_ :: _ :: l)) hfields
  | v4 cacheId fields =>
      simp only [toJson, Json.reread, Json.rereadFields]
      exact congrArg (fun l => Json.obj (_ :: _ :: l)) hfields

theorem Manifest.ofJson_toJson_self (J : JsonLib) {m : Manifest} (hwell : m.WellFormed) (h : m.fields.FiniteExtra) :
    ofJson J m.toJson = .ok m := by
  -- decoding depends on the library only for the texts of its errors
  let exact : JsonLib := ⟨fun _ => .error "", J.parse, id, J.describe⟩
  have hexact : exact.Lawful := ⟨nofun, fun f hf hpos => ⟨hf, hpos⟩, fun f _ h => h⟩
  have hround := ofJson_toJson hexact hwell
  rw [show exact.reread = id from rfl, toJson_reread_id hwell h, reread_id h] at hround
  exact hround

/-! ### Where manifests come from -/

/-- The fields of applications are fields of the value that was decoded. -/
theorem Manifest.extra_of_ofJson {J : JsonLib} {j : Json} {m : Manifest} (h : ofJson J j = .ok m) :
    ∃ l, j = .obj l ∧ ∀ (name : String) value, m.fields.extra[name]? = some value → (name, value) ∈ l := by
  obtain ⟨l, hl, h⟩ := bind_eq_ok h
  obtain ⟨fields, hunique, h⟩ := bind_eq_ok h
  obtain ⟨version, -, h⟩ := bind_eq_ok h
  obtain ⟨manifest, hmanifest, h⟩ := bind_eq_ok h
  split_ifs at h
  cases h
  have hobj : j = .obj l := by
    rw [okOr_eq_ok] at hl
    cases j <;> simp_all [Json.asObj]
  have hbody : ∀ (name : String) value, (fields.erase "format_version")[name]? = some value → (name, value) ∈ l := by
    intro name value hget
    rw [Std.ExtTreeMap.getElem?_erase] at hget
    split_ifs at hget
    rw [(getElem?_of_uniqueFields hunique).2.2 name, Std.ExtTreeMap.getElem?_empty, Option.or_none] at hget
    obtain ⟨l₁, l₂, hsplit, -⟩ := List.lookup_eq_some_iff.mp hget
    rw [hsplit]
    simp
  have hextra : ∀ {body : FieldMap} {record : ManifestFields}, ManifestFields.ofBody body = some record →
      (∀ (name : String) value, body[name]? = some value → (name, value) ∈ l) →
      ∀ (name : String) value, record.extra[name]? = some value → (name, value) ∈ l := by
    intro body record hrecord hfields name value hget
    rw [ManifestFields.extra_of_ofBody hrecord] at hget
    split_ifs at hget
    exact hfields name value hget
  have hidentified : ∀ {p : ℕ × ManifestFields}, identified (fields.erase "format_version") = some p →
      ∀ (name : String) value, p.2.extra[name]? = some value → (name, value) ∈ l := by
    intro p hp
    simp only [identified, bind, Option.bind_eq_some_iff] at hp
    obtain ⟨id, -, record, hrecord, hp⟩ := hp
    cases hp
    refine hextra hrecord fun name value hget => ?_
    rw [Std.ExtTreeMap.getElem?_erase] at hget
    split_ifs at hget
    exact hbody name value hget
  refine ⟨l, hobj, ?_⟩
  unfold ofVersion at hmanifest
  split_ifs at hmanifest
  · cases hp : ManifestFields.ofBody (fields.erase "format_version") with
    | none =>
        rw [hp] at hmanifest
        cases hmanifest
    | some record =>
        rw [hp] at hmanifest
        cases hmanifest
        exact hextra hp hbody
  all_goals
    cases hp : identified (fields.erase "format_version") with
    | none =>
        rw [hp] at hmanifest
        cases hmanifest
    | some p =>
        rw [hp] at hmanifest
        cases hmanifest
        exact hidentified hp

theorem Manifest.finiteExtra_of_ofJson {J : JsonLib} {j : Json} {m : Manifest} (h : ofJson J j = .ok m)
    (hfinite : j.finite = true) : m.fields.FiniteExtra := by
  obtain ⟨l, rfl, hextra⟩ := extra_of_ofJson h
  rw [Json.finite] at hfinite
  exact fun name value hget => Json.finite_of_mem hfinite _ (hextra name value hget)

namespace CacheBuilder

variable {L : StorageLib} {b b' : CacheBuilder}

/-- The lengths of the shards fit a word, and all shards have the policy of the builder. -/
structure Measured (b : CacheBuilder) : Prop where
  shards : ∀ shard ∈ b.shards, shard.uncompressedByteLen < wordSize ∧ shard.byteLen < wordSize ∧
    shard.compression = b.shardCompression
  current : b.currentShard.uncompressedByteLen < wordSize ∧ b.currentShard.byteLen < wordSize

theorem measured_create {present parents : Bool} {path : Path} {sourceName : String} {maxShardBytes : ℕ}
    {compression : ShardCompression}
    (h : create present parents path sourceName maxShardBytes compression = .ok b) :
    b.Measured ∧ b.index = [] ∧ b.shardCompression = compression := by
  unfold create at h
  split_ifs at h
  cases h
  exact ⟨⟨by simp, by norm_num [OpenShard.create, wordSize], by norm_num [OpenShard.create, wordSize]⟩, rfl, rfl⟩

theorem Measured.rotate {len : ℕ} {result : CacheResult Unit} (h : b.Measured)
    (hrotate : b.rotateShardIfNeeded L len = (b', result)) :
    b'.Measured ∧ b'.shardCompression = b.shardCompression := by
  unfold rotateShardIfNeeded at hrotate
  split_ifs at hrotate
  · cases hrotate
    exact ⟨h, rfl⟩
  · cases hrotate
    exact ⟨h, rfl⟩
  · cases hadd : checkedAdd b.currentShard.id 1 with
    | none =>
        rw [hadd] at hrotate
        cases hrotate
        exact ⟨h, rfl⟩
    | some nextId =>
        rw [hadd] at hrotate
        cases hrotate
        refine ⟨⟨fun shard hshard => ?_, by norm_num [OpenShard.create, wordSize],
          by norm_num [OpenShard.create, wordSize]⟩, rfl⟩
        rcases List.mem_append.mp hshard with hshard | hshard
        · exact h.shards shard hshard
        · rw [List.mem_singleton.mp hshard]
          exact ⟨h.current.1, h.current.2, rfl⟩

theorem Measured.writePayload {shard : OpenShard} {entry : IndexEntry} {data : Bytes} {len : ℕ} (h : b.Measured)
    (hwrite : b.currentShard.writePayload data len = .ok (shard, entry)) (index : List IndexEntry)
    (metadataRows : List Row) : ({ b with currentShard := shard, index, metadataRows } : CacheBuilder).Measured := by
  obtain ⟨dataLen, -, hwrite⟩ := bind_eq_ok hwrite
  obtain ⟨byteLen, hbyte, hwrite⟩ := bind_eq_ok hwrite
  obtain ⟨uncompressed, hun, hwrite⟩ := bind_eq_ok hwrite
  obtain ⟨hlt, rfl⟩ := checkedAdd_eq_some.mp (okOr_eq_ok.mp hbyte)
  obtain ⟨hlt', rfl⟩ := checkedAdd_eq_some.mp (okOr_eq_ok.mp hun)
  cases hwrite
  exact ⟨h.shards, hlt', hlt⟩

theorem Measured.pushSample (h : b.Measured) (data : Bytes) (metadata : MetadataMap) :
    (b.pushSample L data metadata).1.Measured ∧
      (b.pushSample L data metadata).1.shardCompression = b.shardCompression := by
  unfold CacheBuilder.pushSample
  rcases validateMetadata b.schema metadata with ⟨schema, result⟩
  have hfixed : ({ b with schema } : CacheBuilder).Measured := ⟨h.shards, h.current⟩
  cases result with
  | error error => exact ⟨hfixed, rfl⟩
  | ok row =>
      simp only
      cases encodeStoredRecord L data schema row b.shardCompression with
      | error error => exact ⟨hfixed, rfl⟩
      | ok record =>
          simp only [pushRecord]
          rcases hr : rotateShardIfNeeded L { b with schema } record.bytes.length with ⟨c, result⟩
          obtain ⟨hc, hcompression⟩ := hfixed.rotate hr
          cases result with
          | error error => exact ⟨hc, hcompression⟩
          | ok _ =>
              simp only
              cases hw : c.currentShard.writePayload record.bytes record.uncompressedByteLen with
              | error error => exact ⟨hc, hcompression⟩
              | ok written => exact ⟨hc.writePayload hw _ _, hcompression⟩

theorem Measured.pushEach : ∀ (samples : List (Bytes × MetadataMap)) {b : CacheBuilder}, b.Measured →
    (b.pushEach L samples).1.Measured ∧
      (b.pushEach L samples).1.shardCompression = b.shardCompression ∧
      (b.pushEach L samples).1.index.length ≤ b.index.length + samples.length
  | [], b, h => ⟨h, rfl, le_refl _⟩
  | (data, metadata) :: rest, b, h => by
      obtain ⟨hone, hcompression⟩ := h.pushSample (L := L) data metadata
      obtain ⟨hrest, hcompression', hlen⟩ := Measured.pushEach rest hone
      have hindex : (b.pushSample L data metadata).1.index.length ≤ b.index.length + 1 := by
        obtain ⟨-, ⟨row, entry, -, -, -, hindex⟩ | ⟨-, -, hindex⟩⟩ := pushSample_cases L b data metadata
        · rw [hindex, List.length_append, List.length_singleton]
        · rw [hindex]
          exact Nat.le_succ _
      rw [pushEach_cons]
      refine ⟨hrest, hcompression'.trans hcompression, ?_⟩
      simp only [List.length_cons]
      omega

theorem Measured.finish (h : b.Measured) (hvalid : b.shardCompression.Valid) (hcount : b.index.length < wordSize)
    {dir : FileTree} {manifest : Manifest} (hfinish : b.finish L = (dir, .ok manifest)) :
    manifest.WellFormed ∧ manifest.fields.FiniteExtra := by
  obtain ⟨metadata, hmetadata⟩ := metadataFileBytes_of_finish hfinish
  obtain ⟨sha256, sha256', rfl⟩ : ∃ sha256 sha256', manifest = b.manifestOf L sha256 sha256'
      (b.shards ++ [b.currentShard.finish L b.shardCompression]) := by
    unfold CacheBuilder.finish at hfinish
    split_ifs at hfinish
    · cases hfinish
    rw [hmetadata] at hfinish
    simp only at hfinish
    split at hfinish
    · cases hfinish
    · cases hfinish
      exact ⟨_, _, rfl⟩
  refine ⟨wellFormed_manifestOf L _ _ hcount fun shard hshard => ?_, fun name value hget => ?_⟩
  · rcases List.mem_append.mp hshard with hshard | hshard
    · obtain ⟨hun, hbyte, hcompression⟩ := h.shards shard hshard
      exact ⟨⟨hun, hbyte, hcompression ▸ hvalid⟩, hcompression⟩
    · rw [List.mem_singleton.mp hshard]
      exact ⟨⟨h.current.1, h.current.2, hvalid⟩, rfl⟩
  · have hnone : (b.manifestOf L sha256 sha256'
        (b.shards ++ [b.currentShard.finish L b.shardCompression])).fields.extra = ∅ := by
      unfold manifestOf
      split_ifs <;> rfl
    rw [hnone, Std.ExtTreeMap.getElem?_empty] at hget
    cases hget

end CacheBuilder

/-- The origins of a manifest.  The samples of a builder are counted in a word, and an identity is a word. -/
inductive Manifest.Produced (L : StorageLib) : Manifest → Prop where
  | finish {path : Path} {sourceName : String} {maxShardBytes : ℕ} {compression : ShardCompression}
      {b₀ : CacheBuilder} (samples : List (Bytes × MetadataMap)) {dir : FileTree} {m : Manifest} :
      compression.Valid →
      CacheBuilder.create false true path sourceName maxShardBytes compression = .ok b₀ →
      samples.length < wordSize → (b₀.pushEach L samples).1.finish L = (dir, .ok m) → Produced L m
  | intoV3 {j : Json} {fields : ManifestFields} {cacheId : ℕ} :
      j.finite = true → ofJson L.json j = .ok (.v2 fields) → cacheId < wordSize →
      Produced L ((Manifest.v2 fields).intoV3 cacheId)
  | decoded {j : Json} {m : Manifest} : j.finite = true → ofJson L.json j = .ok m → Produced L m

theorem Manifest.Produced.wellFormed {L : StorageLib} {m : Manifest} (h : m.Produced L) :
    m.WellFormed ∧ m.fields.FiniteExtra := by
  cases h with
  | finish samples hvalid hcreate hcount hfinish =>
      obtain ⟨hmeasured, hindex, hcompression⟩ := CacheBuilder.measured_create hcreate
      obtain ⟨hrun, hsame, hlen⟩ := hmeasured.pushEach (L := L) samples
      rw [hindex, List.length_nil, Nat.zero_add] at hlen
      exact hrun.finish (by rw [hsame, hcompression]; exact hvalid) (lt_of_le_of_lt hlen hcount) hfinish
  | intoV3 hfinite hdecode hid =>
      refine ⟨Migration.wellFormed_intoV3 (wellFormed_of_ofJson hdecode) hid, fun name value hget => ?_⟩
      refine finiteExtra_of_ofJson hdecode hfinite name value ?_
      simp only [Manifest.intoV3, Manifest.fields, Std.ExtTreeMap.getElem?_erase] at hget ⊢
      split_ifs at hget
      exact hget
  | decoded hfinite hdecode => exact ⟨wellFormed_of_ofJson hdecode, finiteExtra_of_ofJson hdecode hfinite⟩

/-- **Every manifest is read back.**  For a manifest of a finished builder, of a migration or of any JSON value,
decoding its encoding gives the same manifest, also through the text where the library prints and parses inversely,
and every shard has the record scope of the manifest. -/
theorem manifest_round_trip {L : StorageLib} (hJ : L.json.Lawful) (hexact : L.json.reread = id) {m : Manifest}
    (h : m.Produced L) :
    Manifest.ofJson L.json m.toJson = .ok m ∧
      (∀ text, L.json.print m.toJson = .ok text → Migration.parseManifest L text = .ok m) ∧
      ∀ shard ∈ m.fields.shards, shard.compression.wholeRecord = m.wholeRecord := by
  obtain ⟨hwell, hfinite⟩ := h.wellFormed
  have hround := Manifest.ofJson_toJson_self L.json hwell hfinite
  refine ⟨hround, fun text htext => ?_, hwell.scope⟩
  have hparse := hJ.parse_print _ _ htext
  rw [hexact, Manifest.toJson_reread_id hwell hfinite] at hparse
  unfold Migration.parseManifest
  simp only [hparse, jsonResult, bind, Except.bind]
  exact hround

open TwoShards in
/-- The manifest of a cache of two shards. -/
theorem manifest_round_trip_two_shards :
    manifest.Produced lib ∧ lib.json.print manifest.toJson = .ok manifestText ∧
      Migration.parseManifest lib manifestText = .ok manifest := by
  obtain ⟨b₀, hcreate⟩ : ∃ b₀, CacheBuilder.create false true ["c"] "s" 1 .none = .ok b₀ := ⟨_, rfl⟩
  have hfinish : (b₀.pushEach lib samples).1.finish lib = (dir, .ok manifest) := by
    rw [CacheBuilder.pushEach_of_pushAll (pushAll_eq hcreate)]
    exact finish_eq
  have hvalid : ShardCompression.Valid .none := trivial
  have hproduced : manifest.Produced lib := .finish samples hvalid hcreate (by decide) hfinish
  have hprint : lib.json.print manifest.toJson = .ok manifestText := only_self _ _
  exact ⟨hproduced, hprint, (manifest_round_trip lawful_lib.json rfl hproduced).2.1 _ hprint⟩

end DatasetRt
