import DatasetRt.ManifestCodec

/-! # What a migration preserves

A migration decodes a manifest of version 2, gives it an identity and writes it back.  The fields that the
decoder does not know are kept at the top level, where they are collected, and are dropped from the entries of
`metadata_schema` and `shards`, whose records have no place for them; an entry that was not written as the encoder
writes it comes back in the form of the encoder.  `migration_preserves_iff` says that this is all that is lost.

`Json.Same` compares values up to the order of the fields of objects. -/

namespace DatasetRt

namespace Json

/-- Equal values, whatever the order of the fields is.  Numbers are equal if they are written alike. -/
inductive Same : Json → Json → Prop where
  | null : Same null null
  | bool (b : Bool) : Same (bool b) (bool b)
  | num (n : JsonNumber) : Same (num n) (num n)
  | str (s : String) : Same (str s) (str s)
  | arr {as bs : List Json} : as.length = bs.length →
      (∀ (i : ℕ) (a b : Json), as[i]? = some a → bs[i]? = some b → Same a b) → Same (arr as) (arr bs)
  | obj {as bs : List (String × Json)} : (∀ name, (getField as name).isSome = (getField bs name).isSome) →
      (∀ name a b, getField as name = some a → getField bs name = some b → Same a b) → Same (obj as) (obj bs)

/-- A field replaced or added. -/
def setField : Json → String → Json → Json
  | obj fields, name, value => obj (fields.filter (fun field => field.1 ≠ name) ++ [(name, value)])
  | j, _, _ => j

/-! ### Fields by name -/

theorem mem_of_getField {fields : List (String × Json)} {name : String} {value : Json}
    (h : getField fields name = some value) : (name, value) ∈ fields := by
  obtain ⟨l₁, l₂, hsplit, -⟩ := List.lookup_eq_some_iff.mp h
  exact List.mem_reverse.mp (hsplit ▸ by simp)

theorem isSome_getField {fields : List (String × Json)} {name : String} :
    (getField fields name).isSome = true ↔ ∃ field ∈ fields, field.1 = name := by
  rw [getField, ← not_iff_not, Bool.not_eq_true, Option.isSome_eq_false_iff, Option.isNone_iff_eq_none,
    List.lookup_eq_none_iff]
  constructor
  · rintro h ⟨field, hmem, rfl⟩
    simpa using h field (List.mem_reverse.mpr hmem)
  · intro h field hmem
    rw [bne_iff_ne]
    exact fun heq => h ⟨field, List.mem_reverse.mp hmem, heq.symm⟩

theorem getField_of_mem {fields : List (String × Json)} (hnodup : (fields.map Prod.fst).Nodup)
    {field : String × Json} (h : field ∈ fields) : getField fields field.1 = some field.2 := by
  obtain ⟨value, hvalue⟩ := Option.isSome_iff_exists.mp (isSome_getField.mpr ⟨field, h, rfl⟩)
  have hfield := List.inj_on_of_nodup_map hnodup (mem_of_getField hvalue) h rfl
  rw [hvalue, ← hfield]

theorem onlyFields_iff {fields : List (String × Json)} {names : List String} :
    onlyFields fields names = true ↔ ∀ name, (getField fields name).isSome = true → name ∈ names := by
  unfold onlyFields
  simp only [List.all_eq_true, List.contains_iff_mem, isSome_getField]
  constructor
  · rintro h name ⟨field, hmem, rfl⟩
    exact h field hmem
  · exact fun h field hmem => h field.1 ⟨field, hmem, rfl⟩

theorem getField_append_singleton (fields : List (String × Json)) (name : String) (value : Json) (key : String) :
    getField (fields ++ [(name, value)]) key = if key = name then some value else getField fields key := by
  rw [getField, List.reverse_append, List.reverse_singleton, List.singleton_append, List.lookup_cons]
  by_cases h : key = name
  · simp [h]
  · rw [if_neg h, beq_false_of_ne h]
    rfl

theorem getField_filter_ne (fields : List (String × Json)) {name key : String} (h : key ≠ name) :
    getField (fields.filter fun field => field.1 ≠ name) key = getField fields key := by
  rw [getField, getField, ← List.filter_reverse]
  induction fields.reverse with
  | nil => rfl
  | cons field rest ih =>
      by_cases hfield : field.1 = name
      · rw [List.filter_cons_of_neg (by simp [hfield]), ih, List.lookup_cons, beq_false_of_ne (hfield ▸ h)]
      · rw [List.filter_cons_of_pos (by simp [hfield]), List.lookup_cons, List.lookup_cons, ih]

theorem getField_setField (fields : List (String × Json)) (name : String) (value : Json) (key : String) :
    getField (fields.filter (fun field => field.1 ≠ name) ++ [(name, value)]) key =
      if key = name then some value else getField fields key := by
  rw [getField_append_singleton]
  split_ifs with h
  · rfl
  · exact getField_filter_ne fields h

/-! ### Equal values -/

theorem same_arr {as bs : List Json} : Same (.arr as) (.arr bs) ↔ List.Forall₂ Same as bs := by
  rw [List.forall₂_iff_get]
  constructor
  · rintro ⟨⟩
    rename_i hlength hitems
    exact ⟨hlength, fun i ha hb => hitems i _ _ (List.getElem?_eq_getElem ha) (List.getElem?_eq_getElem hb)⟩
  · rintro ⟨hlength, hitems⟩
    refine .arr hlength fun i a b ha hb => ?_
    obtain ⟨hia, rfl⟩ := List.getElem?_eq_some_iff.mp ha
    obtain ⟨hib, rfl⟩ := List.getElem?_eq_some_iff.mp hb
    exact hitems i hia hib

theorem isSome_of_rel {a b : Option Json} (h : Option.Rel Same a b) : a.isSome = b.isSome := by
  cases h <;> rfl

theorem same_obj {as bs : List (String × Json)} :
    Same (.obj as) (.obj bs) ↔ ∀ name, Option.Rel Same (getField as name) (getField bs name) := by
  constructor
  · rintro ⟨⟩ name
    rename_i hnames hvalues
    cases ha : getField as name with
    | none =>
        cases hb : getField bs name with
        | none => exact .none
        | some b => simpa [ha, hb] using hnames name
    | some a =>
        cases hb : getField bs name with
        | none => simpa [ha, hb] using hnames name
        | some b => exact .some (hvalues name a b ha hb)
  · intro h
    refine .obj (fun name => isSome_of_rel (h name)) fun name a b ha hb => ?_
    have hrel := h name
    rw [ha, hb] at hrel
    cases hrel with
    | some hsame => exact hsame

theorem same_refl : ∀ j : Json, Same j j
  | .null => .null
  | .bool b => .bool b
  | .num n => .num n
  | .str s => .str s
  | .arr items => by
      refine .arr rfl fun i a b ha hb => ?_
      obtain rfl := Option.some.inj (ha.symm.trans hb)
      have hmem := List.mem_of_getElem? ha
      exact same_refl a
  | .obj fields => by
      refine .obj (fun _ => rfl) fun name a b ha hb => ?_
      obtain rfl := Option.some.inj (ha.symm.trans hb)
      have hmem := mem_of_getField ha
      exact same_refl a
termination_by j => sizeOf j
decreasing_by
  · have hlt := List.sizeOf_lt_of_mem hmem
    simp only [Json.arr.sizeOf_spec]
    omega
  · have hlt := List.sizeOf_lt_of_mem hmem
    simp only [Json.obj.sizeOf_spec, Prod.mk.sizeOf_spec] at hlt ⊢
    omega

theorem rel_some_some {a b : Json} : Option.Rel Same (some a) (some b) ↔ Same a b :=
  ⟨fun h => by cases h with | some hsame => exact hsame, .some⟩

theorem rel_same_refl (value : Option Json) : Option.Rel Same value value := by
  cases value with
  | none => exact .none
  | some j => exact .some (same_refl j)

@[simp] theorem same_str {s : String} {j : Json} : Same (.str s) j ↔ j = .str s :=
  ⟨fun h => by cases h; rfl, fun h => h ▸ .str s⟩

@[simp] theorem same_num {n : JsonNumber} {j : Json} : Same (.num n) j ↔ j = .num n :=
  ⟨fun h => by cases h; rfl, fun h => h ▸ .num n⟩

/-- An encoded record equals an object that has its fields if the object has no other field and the fields are
equal. -/
theorem same_record {known fields : List (String × Json)} (hnodup : (known.map Prod.fst).Nodup)
    (hpresent : ∀ field ∈ known, (getField fields field.1).isSome = true) :
    Same (.obj known) (.obj fields) ↔ onlyFields fields (known.map Prod.fst) = true ∧
      ∀ field ∈ known, ∀ value, getField fields field.1 = some value → Same field.2 value := by
  rw [same_obj, onlyFields_iff]
  constructor
  · refine fun h => ⟨fun name hname => ?_, fun field hfield value hvalue => ?_⟩
    · obtain ⟨value, hvalue⟩ := Option.isSome_iff_exists.mp hname
      have hrel := h name
      rw [hvalue] at hrel
      cases hk : getField known name with
      | none =>
          rw [hk] at hrel
          cases hrel
      | some v => exact List.mem_map.mpr ⟨_, mem_of_getField hk, rfl⟩
    · have hrel := h field.1
      rw [getField_of_mem hnodup hfield, hvalue] at hrel
      cases hrel with
      | some hsame => exact hsame
  · rintro ⟨honly, hvalues⟩ name
    cases hf : getField fields name with
    | none =>
        cases hk : getField known name with
        | none => exact .none
        | some v =>
            have hsome := hpresent _ (mem_of_getField hk)
            rw [show (name, v).1 = name from rfl, hf] at hsome
            cases hsome
    | some value =>
        obtain ⟨field, hfield, rfl⟩ := List.mem_map.mp (honly name (hf ▸ rfl))
        rw [getField_of_mem hnodup hfield]
        exact .some (hvalues field hfield value hf)

end Json

/-! ### Entries as the encoder writes them -/

/-- An entry of the schema with no other field, and its kind written as a name. -/
def MetadataField.Plain (j : Json) : Prop :=
  ∃ fields kind, j = .obj fields ∧ onlyFields fields ["name", "kind"] = true ∧
    Json.getField fields "kind" = some (.str kind)

/-- A legacy policy that is an object, its algorithm written as a name and its ratio with a fraction. -/
def ShardCompression.Plain (j : Json) : Prop :=
  ∃ fields algo ratio, j = .obj fields ∧ Json.getField fields "algo" = some (.str algo) ∧
    Json.getField fields "ratio" = some (.num (.float ratio))

/-- An entry of the shards with no other field and such a policy. -/
def ShardManifest.Plain (j : Json) : Prop :=
  ∃ fields policy, j = .obj fields ∧
    onlyFields fields ["name", "uncompressed_byte_len", "byte_len", "compression", "sha256"] = true ∧
    Json.getField fields "compression" = some policy ∧ ShardCompression.Plain policy

/-- A manifest whose entries have no fields of applications. -/
def Manifest.PlainEntries (j : Json) : Prop :=
  ∀ fields, j = .obj fields →
    (∀ entries, Json.getField fields "metadata_schema" = some (.arr entries) →
      ∀ entry ∈ entries, MetadataField.Plain entry) ∧
    ∀ entries, Json.getField fields "shards" = some (.arr entries) → ∀ entry ∈ entries, ShardManifest.Plain entry

theorem Json.eq_str_of_asStr {j : Json} {s : String} (h : j.asStr = some s) : j = .str s := by
  unfold asStr at h
  split at h
  · cases h
    rfl
  · cases h

theorem Json.eq_num_of_asU64 {j : Json} {n : ℕ} (h : j.asU64 = some n) : j = .num (.posInt n) := by
  unfold asU64 at h
  split at h
  · split_ifs at h
    cases h
    rfl
  · cases h

theorem Json.same_obj_left {known : List (String × Json)} {names : List String} {j : Json}
    {fields : List (String × Json)} (h : j.structFields names = some fields) :
    Same (.obj known) j ↔ j = .obj fields ∧ Same (.obj known) (.obj fields) := by
  cases j with
  | obj fields' =>
      obtain rfl : fields' = fields := Option.some.inj h
      simp
  | arr items =>
      constructor
      · rintro ⟨⟩
      · rintro ⟨⟨⟩, -⟩
  | null => cases h
  | bool b => cases h
  | num n => cases h
  | str s => cases h

theorem MetadataKind.ofName_eq_some {name : String} {kind : MetadataKind} (h : ofName name = some kind) :
    name = kind.name := by
  unfold ofName at h
  split_ifs at h with h₁ h₂ h₃ h₄
  · cases h; exact h₁
  · cases h; exact h₂
  · cases h; exact h₃
  · cases h; exact h₄

theorem MetadataField.same_iff {j : Json} {field : MetadataField} (h : ofJson j = some field) :
    Json.Same field.toJson j ↔ MetadataField.Plain j := by
  simp only [ofJson, bind, Option.bind_eq_some_iff, Option.map_eq_some_iff] at h
  obtain ⟨fields, hfields, name, ⟨jname, hname, hstr⟩, kindName, ⟨jkind, hkind, hvariant⟩, kind, hof, rfl⟩ := h
  obtain rfl := Json.eq_str_of_asStr hstr
  obtain rfl := MetadataKind.ofName_eq_some hof
  rw [toJson, Json.same_obj_left hfields, Json.same_record (by simp) (by simp [hname, hkind])]
  simp only [List.map_cons, List.map_nil, List.forall_mem_cons, hname, hkind, Option.some.injEq, forall_eq',
    Json.same_str, true_and, List.not_mem_nil, false_implies, implies_true, and_true]
  constructor
  · rintro ⟨rfl, honly, rfl⟩
    exact ⟨fields, kind.name, rfl, honly, hkind⟩
  · rintro ⟨fields', kindName, rfl, honly, hkind'⟩
    obtain rfl : fields' = fields := Option.some.inj hfields
    obtain rfl := Option.some.inj (hkind.symm.trans hkind')
    exact ⟨rfl, honly, congrArg Json.str (Option.some.inj hvariant)⟩

theorem CompressionAlgo.fromName_eq_ok {name : String} {algo : CompressionAlgo} (h : fromName name = .ok algo) :
    name = algo.name := by
  unfold fromName at h
  split_ifs at h with h₁ h₂ h₃
  · cases h; exact h₁
  · cases h; exact h₂
  · cases h; exact h₃

theorem readAlgo_eq_some {fields : List (String × Json)} {algo : CompressionAlgo} (h : readAlgo fields = some algo) :
    ∃ j, Json.getField fields "algo" = some j ∧ j.asVariant = some algo.name := by
  simp only [readAlgo, bind, Option.bind_eq_some_iff] at h
  obtain ⟨name, ⟨j, hj, hvariant⟩, h⟩ := h
  cases hof : CompressionAlgo.fromName name with
  | error error => simp [hof] at h
  | ok algo' =>
      obtain rfl : algo' = algo := by simpa [hof] using h
      exact ⟨j, hj, by rw [hvariant, CompressionAlgo.fromName_eq_ok hof]⟩

theorem ShardCompression.wholeRecord_of_record {algo : CompressionAlgo} {options : RecordOptions}
    {c : ShardCompression} (h : ofWire (.record algo options) = .ok c) : c.wholeRecord = true := by
  cases algo <;> cases options <;> simp only [ofWire, fast, hc, newBrotli, ranged_ok] at h
  all_goals first
    | cases h
      rfl
    | obtain ⟨-, rfl⟩ := h
      rfl
    | cases h

theorem ShardCompression.ofJson_legacy {j : Json} {algo : CompressionAlgo} {ratio : Float}
    (h : ofJson j = some (legacy algo ratio)) :
    ∃ fields jalgo jratio, j.structFields ["algo", "ratio"] = some fields ∧
      Json.getField fields "algo" = some jalgo ∧ jalgo.asVariant = some algo.name ∧
      Json.getField fields "ratio" = some jratio ∧ jratio.asF64 = some ratio ∧
      onlyFields fields ["algo", "ratio"] = true := by
  simp only [ofJson, bind, Option.bind_eq_some_iff] at h
  obtain ⟨wire, hwire, h⟩ := h
  have hlegacy : wire = .legacy algo ratio := by
    cases wire with
    | legacy algo' ratio' =>
        cases hnew : newLegacy algo' ratio' with
        | error error => simp [ofWire, hnew] at h
        | ok c =>
            obtain ⟨-, -, -, -, rfl⟩ := newLegacy_ok.mp hnew
            simp only [ofWire, hnew, Option.some.injEq, legacy.injEq] at h
            rw [h.1, h.2]
    | record algo' options =>
        cases hrecord : ofWire (.record algo' options) with
        | error error => simp [hrecord] at h
        | ok c =>
            obtain rfl : c = legacy algo ratio := by simpa [hrecord] using h
            cases wholeRecord_of_record hrecord
  subst hlegacy
  simp only [readWire, bind, Option.bind_eq_some_iff] at hwire
  obtain ⟨fields, hfields, hwire⟩ := hwire
  have hread : readLegacy fields = some (.legacy algo ratio) := by
    split at hwire
    · cases hwire
    · exact hwire
  simp only [readLegacy, bind, Option.bind_eq_some_iff] at hread
  obtain ⟨algo', halgo, ratio', ⟨jratio, hratio, hf64⟩, hread⟩ := hread
  split_ifs at hread with honly
  obtain ⟨rfl, rfl⟩ := CompressionWire.legacy.inj (Option.some.inj hread)
  obtain ⟨jalgo, hjalgo, hvariant⟩ := readAlgo_eq_some halgo
  exact ⟨fields, jalgo, jratio, hfields, hjalgo, hvariant, hratio, hf64, honly⟩

theorem ShardCompression.same_iff {j : Json} {algo : CompressionAlgo} {ratio : Float}
    (h : ofJson j = some (legacy algo ratio)) :
    Json.Same (legacy algo ratio).toJson j ↔ ShardCompression.Plain j := by
  obtain ⟨fields, jalgo, jratio, hfields, halgo, hvariant, hratio, hf64, honly⟩ := ofJson_legacy h
  rw [toJson, Json.same_obj_left hfields, Json.same_record (by simp) (by simp [halgo, hratio])]
  simp only [List.map_cons, List.map_nil, List.forall_mem_cons, halgo, hratio, honly, Option.some.injEq,
    forall_eq', Json.same_str, Json.same_num, true_and, List.not_mem_nil, false_implies, implies_true, and_true]
  constructor
  · rintro ⟨rfl, rfl, rfl⟩
    exact ⟨fields, algo.name, ratio, rfl, halgo, hratio⟩
  · rintro ⟨fields', name, ratio', rfl, halgo', hratio'⟩
    obtain rfl : fields' = fields := Option.some.inj hfields
    obtain rfl := Option.some.inj (halgo.symm.trans halgo')
    obtain rfl := Option.some.inj (hratio.symm.trans hratio')
    exact ⟨rfl, congrArg Json.str (Option.some.inj hvariant),
      congrArg (fun f => Json.num (.float f)) (Option.some.inj hf64)⟩

theorem ShardManifest.same_iff {j : Json} {shard : ShardManifest} (h : ofJson j = some shard)
    (hlegacy : shard.compression.wholeRecord = false) : Json.Same shard.toJson j ↔ ShardManifest.Plain j := by
  simp only [ofJson, bind, Option.bind_eq_some_iff] at h
  obtain ⟨fields, hfields, name, ⟨jname, hname, hnameStr⟩, uncompressed, ⟨ju, hu, hu64⟩, byteLen, ⟨jb, hb, hb64⟩,
    compression, ⟨policy, hpolicy, hcompression⟩, sha256, ⟨jsha, hsha, hshaStr⟩, h⟩ := h
  cases h
  obtain rfl := Json.eq_str_of_asStr hnameStr
  obtain rfl := Json.eq_num_of_asU64 hu64
  obtain rfl := Json.eq_num_of_asU64 hb64
  obtain rfl := Json.eq_str_of_asStr hshaStr
  have hsame : Json.Same compression.toJson policy ↔ ShardCompression.Plain policy := by
    cases compression with
    | legacy algo ratio => exact ShardCompression.same_iff hcompression
    | none => cases hlegacy
    | lz4Fast acceleration => cases hlegacy
    | lz4HC level => cases hlegacy
    | brotli level => cases hlegacy
  rw [toJson, Json.same_obj_left hfields, Json.same_record (by simp) (by simp [hname, hu, hb, hpolicy, hsha])]
  simp only [List.map_cons, List.map_nil, List.forall_mem_cons, hname, hu, hb, hpolicy, hsha, hsame,
    Option.some.injEq, forall_eq', Json.same_str, Json.same_num, true_and, List.not_mem_nil, false_implies,
    implies_true, and_true]
  constructor
  · rintro ⟨rfl, honly, hplain⟩
    exact ⟨fields, policy, rfl, honly, hpolicy, hplain⟩
  · rintro ⟨fields', policy', rfl, honly, hpolicy', hplain⟩
    obtain rfl : fields' = fields := Option.some.inj hfields
    obtain rfl := Option.some.inj (hpolicy.symm.trans hpolicy')
    exact ⟨rfl, honly, hplain⟩

/-! ### The migrated manifest -/

theorem forall₂_of_mapM_eq_some {α β : Type} {f : α → Option β} : ∀ {l : List α} {ys : List β},
    l.mapM f = some ys → List.Forall₂ (fun x y => f x = some y) l ys
  | [], ys, h => by
      cases h
      exact .nil
  | x :: l, ys, h => by
      simp only [List.mapM_cons, bind, Option.bind_eq_some_iff] at h
      obtain ⟨y, hy, rest, hrest, h⟩ := h
      cases h
      exact .cons hy (forall₂_of_mapM_eq_some hrest)

/-- The entries of a list are encoded as they were read if each of them is. -/
theorem same_entries_iff {α : Type} {read : Json → Option α} {write : α → Json} {plain : Json → Prop}
    {entries : List Json} {values : List α} (hread : entries.mapM read = some values)
    (h : ∀ entry value, value ∈ values → read entry = some value → (Json.Same (write value) entry ↔ plain entry)) :
    Json.Same (.arr (values.map write)) (.arr entries) ↔ ∀ entry ∈ entries, plain entry := by
  rw [Json.same_arr]
  have hall := forall₂_of_mapM_eq_some hread
  clear hread
  induction hall with
  | nil => simp
  | @cons entry value entries values hentry hrest ih =>
      have htail := ih fun entry value hmem => h entry value (List.mem_cons_of_mem _ hmem)
      rw [List.map_cons, List.forall₂_cons, List.forall_mem_cons]
      exact and_congr (h entry value List.mem_cons_self hentry) htail

theorem Manifest.getElem?_of_uniqueFields : ∀ {l : List (String × Json)} {m m' : FieldMap},
    uniqueFields m l = .ok m' →
    (l.map Prod.fst).Nodup ∧ (∀ field ∈ l, m[field.1]? = none) ∧ ∀ k, m'[k]? = (l.lookup k).or m[k]?
  | [], m, m', h => by
      cases h
      exact ⟨List.nodup_nil, nofun, fun k => by simp⟩
  | (name, value) :: l, m, m', h => by
      rw [uniqueFields] at h
      split_ifs at h with hcontains
      obtain ⟨hnodup, hfresh, hget⟩ := getElem?_of_uniqueFields h
      have hnone : m[name]? = none := by simpa using hcontains
      have hother : ∀ field ∈ l, field.1 ≠ name ∧ m[field.1]? = none := by
        intro field hmem
        have hinsert := hfresh field hmem
        rw [Std.ExtTreeMap.getElem?_insert] at hinsert
        split_ifs at hinsert with hcompare
        exact ⟨fun he => hcompare (by simp [he]), hinsert⟩
      refine ⟨?_, ?_, fun k => ?_⟩
      · rw [List.map_cons, List.nodup_cons]
        refine ⟨fun hmem => ?_, hnodup⟩
        obtain ⟨field, hfield, heq⟩ := List.mem_map.mp hmem
        exact (hother field hfield).1 heq
      · intro field hmem
        rcases List.mem_cons.mp hmem with rfl | hmem
        · exact hnone
        · exact (hother field hmem).2
      · rw [hget, Std.ExtTreeMap.getElem?_insert, List.lookup_cons]
        by_cases hk : k = name
        · subst hk
          have hlookup : l.lookup k = none := by
            rw [List.lookup_eq_none_iff]
            intro field hfield
            rw [bne_iff_ne]
            exact fun he => (hother field hfield).1 he.symm
          simp [hlookup]
        · have hcompare : compare name k ≠ .eq := fun he => hk (by simpa using he : name = k).symm
          rw [if_neg hcompare, beq_false_of_ne hk]

theorem Json.getField_eq_lookup {l : List (String × Json)} (hnodup : (l.map Prod.fst).Nodup) (k : String) :
    getField l k = l.lookup k := by
  cases h : l.lookup k with
  | none =>
      rw [List.lookup_eq_none_iff] at h
      rw [← Option.not_isSome_iff_eq_none, isSome_getField]
      rintro ⟨field, hmem, rfl⟩
      simpa using h field hmem
  | some value =>
      obtain ⟨l₁, l₂, hsplit, -⟩ := List.lookup_eq_some_iff.mp h
      have hmem : (k, value) ∈ l := hsplit ▸ by simp
      exact getField_of_mem hnodup hmem

/-- A decoded manifest of version 2: the fields of the object, and what the record was read from. -/
theorem Manifest.ofJson_v2 {J : JsonLib} {j : Json} {fields : ManifestFields} (h : ofJson J j = .ok (.v2 fields)) :
    ∃ (l : List (String × Json)) (schema shards : List Json), j = .obj l ∧ (l.map Prod.fst).Nodup ∧
      l.lookup "source_name" = some (.str fields.sourceName) ∧
      l.lookup "sample_count" = some (.num (.posInt fields.sampleCount)) ∧
      l.lookup "metadata_schema" = some (.arr schema) ∧ schema.mapM MetadataField.ofJson = some fields.metadataSchema ∧
      l.lookup "metadata_sha256" = some (.str fields.metadataSha256) ∧
      l.lookup "index_sha256" = some (.str fields.indexSha256) ∧
      l.lookup "shards" = some (.arr shards) ∧ shards.mapM ShardManifest.ofJson = some fields.shards ∧
      ∀ name, name ∉ fieldNames → name ≠ "format_version" → fields.extra[name]? = l.lookup name := by
  obtain ⟨l, hobj, h⟩ := bind_eq_ok h
  obtain ⟨all, hunique, h⟩ := bind_eq_ok h
  obtain ⟨version, -, h⟩ := bind_eq_ok h
  obtain ⟨manifest, hmanifest, h⟩ := bind_eq_ok h
  split_ifs at h
  obtain rfl := Except.ok.inj h
  obtain ⟨hnodup, -, hget⟩ := getElem?_of_uniqueFields hunique
  have hbody : ManifestFields.ofBody (all.erase "format_version") = some fields := by
    unfold ofVersion at hmanifest
    split_ifs at hmanifest
    · cases hof : ManifestFields.ofBody (all.erase "format_version") with
      | none =>
          rw [hof] at hmanifest
          cases hmanifest
      | some fields' =>
          rw [hof] at hmanifest
          cases hmanifest
          rfl
    all_goals
      cases hid : identified (all.erase "format_version") with
      | none =>
          rw [hid] at hmanifest
          cases hmanifest
      | some pair =>
          rw [hid] at hmanifest
          cases hmanifest
  have hlookup : ∀ name, name ≠ "format_version" → (all.erase "format_version")[name]? = l.lookup name := by
    intro name hne
    have hcompare : compare "format_version" name ≠ .eq := fun he => hne (by simpa using he : "format_version" = name).symm
    rw [Std.ExtTreeMap.getElem?_erase, if_neg hcompare, hget]
    simp
  have hextra := ManifestFields.extra_of_ofBody hbody
  simp only [ManifestFields.ofBody, bind, Option.bind_eq_some_iff] at hbody
  obtain ⟨sourceName, ⟨jsource, hsource, hsourceStr⟩, sampleCount, ⟨jcount, hcount, hcount64⟩,
    schema, ⟨jschema, hschema, hschemaArr⟩, metadataSchema, hfields, metadataSha, ⟨jmeta, hmeta, hmetaStr⟩,
    indexSha, ⟨jindex, hindex, hindexStr⟩, shardList, ⟨jshards, hshards, hshardsArr⟩, shards, hentries, hbody⟩ := hbody
  cases hbody
  have harr : ∀ {j : Json} {items : List Json}, j.asArr = some items → j = .arr items := by
    intro j items hj
    cases j <;> simp_all [Json.asArr]
  obtain rfl := Json.eq_str_of_asStr hsourceStr
  obtain rfl := Json.eq_num_of_asU64 hcount64
  obtain rfl := Json.eq_str_of_asStr hmetaStr
  obtain rfl := Json.eq_str_of_asStr hindexStr
  obtain rfl := harr hschemaArr
  obtain rfl := harr hshardsArr
  rw [hlookup _ (by decide)] at hsource hcount hschema hmeta hindex hshards
  refine ⟨l, schema, shardList, ?_, hnodup, hsource, hcount, hschema, hfields, hmeta, hindex, hshards, hentries,
    fun name hname hversion => ?_⟩
  · rw [okOr_eq_ok] at hobj
    cases j <;> simp_all [Json.asObj]
  · rw [hextra, if_neg hname, hlookup name hversion]

/-- The fields of the record, as they are encoded. -/
def ManifestFields.encoded (fields : ManifestFields) : List (String × Json) :=
  [("source_name", .str fields.sourceName),
    ("sample_count", .num (.posInt fields.sampleCount)),
    ("metadata_schema", .arr (fields.metadataSchema.map MetadataField.toJson)),
    ("metadata_sha256", .str fields.metadataSha256),
    ("index_sha256", .str fields.indexSha256),
    ("shards", .arr (fields.shards.map ShardManifest.toJson))]

theorem Manifest.getField_migrated {fields : ManifestFields} (h : fields.WellFormed) (cacheId : ℕ) :
    ∃ written, ((Manifest.v2 fields).intoV3 cacheId).toJson = .obj written ∧ ∀ name,
      Json.getField written name =
        if name = "format_version" then some (.num (.posInt 3))
        else if name = "cache_id" then some (.num (.posInt cacheId))
        else (fields.encoded.lookup name).or fields.extra[name]? := by
  set record : ManifestFields := { fields with extra := fields.extra.erase "cache_id" } with hrecord
  have hextra : ∀ name, record.extra[name]? = if name = "cache_id" then none else fields.extra[name]? := by
    intro name
    rw [hrecord, Std.ExtTreeMap.getElem?_erase]
    by_cases hname : name = "cache_id"
    · simp [hname]
    · have hcompare : compare "cache_id" name ≠ .eq := fun he => hname (by simpa using he : "cache_id" = name).symm
      rw [if_neg hcompare, if_neg hname]
  have hrecordWell : record.WellFormed := ⟨h.sampleCount, h.shards, fun name hname => by
    rw [hextra, h.extra name hname]
    exact ite_self _⟩
  have hnodup := nodup_toFields hrecordWell
    [("format_version", .num (.posInt 3)), ("cache_id", .num (.posInt cacheId))] (by simp) (by
      intro name hname
      rcases List.mem_cons.mp hname with rfl | hname
      · exact ⟨by decide, hrecordWell.extra _ List.mem_cons_self⟩
      · obtain rfl : name = "cache_id" := List.mem_singleton.mp hname
        exact ⟨by decide, by rw [hextra, if_pos rfl]⟩)
  refine ⟨_, rfl, fun name => (Json.getField_eq_lookup hnodup name).trans ?_⟩
  rw [List.lookup_append]
  by_cases hversion : name = "format_version"
  · simp [hversion]
  by_cases hid : name = "cache_id"
  · simp [hid, List.lookup]
  have hheader : List.lookup name [("format_version", Json.num (.posInt 3)), ("cache_id", .num (.posInt cacheId))] =
      none := by simp [List.lookup, beq_false_of_ne hversion, beq_false_of_ne hid]
  rw [hheader, Option.none_or, if_neg hversion, if_neg hid, ManifestFields.toFields, List.lookup_append, lookup_toList,
    hextra, if_neg hid]
  rfl

/-- Only the entries of the schema and of the shards can differ. -/
theorem Manifest.same_migrated_iff {J : JsonLib} {l : List (String × Json)} {fields : ManifestFields}
    (h : ofJson J (.obj l) = .ok (.v2 fields)) (cacheId : ℕ) {schema shards : List Json}
    (hschema : Json.getField l "metadata_schema" = some (.arr schema))
    (hshards : Json.getField l "shards" = some (.arr shards)) :
    Json.Same ((Manifest.v2 fields).intoV3 cacheId).toJson
      (((Json.obj l).setField "format_version" (.num (.posInt 3))).setField "cache_id" (.num (.posInt cacheId))) ↔
      Json.Same (.arr (fields.metadataSchema.map MetadataField.toJson)) (.arr schema) ∧
        Json.Same (.arr (fields.shards.map ShardManifest.toJson)) (.arr shards) := by
  have hrecord : fields.WellFormed := (wellFormed_of_ofJson h).fields
  obtain ⟨l', schema', shards', hl, hnodup, hsource, hcount, -, -, hmeta, hindex, -, -, hextra⟩ := ofJson_v2 h
  obtain rfl := Json.obj.inj hl
  obtain ⟨written, hwritten, hget⟩ := getField_migrated hrecord cacheId
  have hlookup := Json.getField_eq_lookup hnodup
  rw [hlookup] at hschema hshards
  simp only [Json.setField]
  rw [hwritten, Json.same_obj]
  simp only [hget, Json.getField_setField, hlookup]
  constructor
  · intro hall
    have hleft := hall "metadata_schema"
    have hright := hall "shards"
    simp only [ManifestFields.encoded, List.lookup, hschema, hshards] at hleft hright
    exact ⟨Json.rel_some_some.mp hleft, Json.rel_some_some.mp hright⟩
  · rintro ⟨hleft, hright⟩ name
    by_cases hversion : name = "format_version"
    · subst hversion
      exact Json.rel_same_refl _
    by_cases hid : name = "cache_id"
    · subst hid
      exact Json.rel_same_refl _
    rw [if_neg hversion, if_neg hid, if_neg hid, if_neg hversion]
    by_cases hknown : name ∈ fieldNames
    · simp only [fieldNames, List.mem_cons, List.not_mem_nil, or_false] at hknown
      rcases hknown with rfl | rfl | rfl | rfl | rfl | rfl
      · rw [hsource]
        exact Json.rel_same_refl _
      · rw [hcount]
        exact Json.rel_same_refl _
      · rw [hschema]
        exact .some hleft
      · rw [hmeta]
        exact Json.rel_same_refl _
      · rw [hindex]
        exact Json.rel_same_refl _
      · rw [hshards]
        exact .some hright
    · -- a field of an application
      have hnone : fields.encoded.lookup name = none := by
        rw [List.lookup_eq_none_iff]
        intro field hfield
        rw [bne_iff_ne]
        rintro rfl
        exact hknown (by simpa [ManifestFields.encoded, fieldNames] using List.mem_map_of_mem hfield (f := Prod.fst))
      rw [hnone, Option.none_or, hextra name hknown hversion]
      exact Json.rel_same_refl _

/-- **What a migration preserves.**  For every manifest of version 2 that is accepted, the value that the migration
writes is the original one with the version and the identity replaced if and only if the entries of the schema and
of the shards have no fields but their own and are written as the encoder writes them. -/
theorem migration_preserves_iff (J : JsonLib) {j : Json} {fields : ManifestFields}
    (h : Manifest.ofJson J j = .ok (.v2 fields)) (cacheId : ℕ) :
    Json.Same ((Manifest.v2 fields).intoV3 cacheId).toJson
      ((j.setField "format_version" (.num (.posInt 3))).setField "cache_id" (.num (.posInt cacheId))) ↔
      Manifest.PlainEntries j := by
  have hwell := Manifest.wellFormed_of_ofJson h
  obtain ⟨l, schema, shards, rfl, hnodup, -, -, hschema, hfields, -, -, hshards, hentries, -⟩ := Manifest.ofJson_v2 h
  rw [← Json.getField_eq_lookup hnodup] at hschema hshards
  rw [Manifest.same_migrated_iff h cacheId hschema hshards,
    same_entries_iff hfields fun entry field _ hread => MetadataField.same_iff hread,
    same_entries_iff hentries fun entry shard hmem hread => ShardManifest.same_iff hread (hwell.scope shard hmem)]
  constructor
  · rintro ⟨hleft, hright⟩ l' hl
    obtain rfl := Json.obj.inj hl
    refine ⟨fun entries hgot => ?_, fun entries hgot => ?_⟩
    · obtain rfl := Json.arr.inj (Option.some.inj (hschema.symm.trans hgot))
      exact hleft
    · obtain rfl := Json.arr.inj (Option.some.inj (hshards.symm.trans hgot))
      exact hright
  · intro hplain
    obtain ⟨hleft, hright⟩ := hplain l rfl
    exact ⟨hleft schema hschema, hright shards hshards⟩

/-- A manifest of version 2 with one column, one shard and a note of an application, its column given. -/
def noted (column : Json) : Json :=
  .obj [("format_version", .num (.posInt 2)), ("source_name", .str "s"), ("sample_count", .num (.posInt 1)),
    ("metadata_schema", .arr [column]), ("metadata_sha256", .str ""), ("index_sha256", .str ""),
    ("shards", .arr [.obj [("sha256", .str ""), ("name", .str "shard-00000000.bin"),
      ("uncompressed_byte_len", .num (.posInt 0)), ("byte_len", .num (.posInt 0)),
      ("compression", .obj [("algo", .str "none"), ("ratio", .num (.float 1.0))])]]),
    ("note", .obj [("by", .str "application")])]

/-- The column of `noted` as the encoder writes it. -/
def plainColumn : Json := .obj [("name", .str "label"), ("kind", .str "int")]

/-- The same column with a field of an application. -/
def notedColumn : Json := .obj [("name", .str "label"), ("kind", .str "int"), ("note", .str "kg")]

/-- A manifest whose entries are plain keeps the note of its application. -/
theorem migration_preserves_noted : ∃ (J : JsonLib) (fields : ManifestFields),
    Manifest.ofJson J (noted plainColumn) = .ok (.v2 fields) ∧
      Json.Same ((Manifest.v2 fields).intoV3 7).toJson
        (((noted plainColumn).setField "format_version" (.num (.posInt 3))).setField "cache_id"
          (.num (.posInt 7))) := by
  let J : JsonLib := ⟨fun _ => .error "", fun _ => .error "", id, fun _ => ""⟩
  obtain ⟨fields, h⟩ : ∃ fields, Manifest.ofJson J (noted plainColumn) = .ok (.v2 fields) := ⟨_, rfl⟩
  refine ⟨J, fields, h, (migration_preserves_iff J h 7).mpr ?_⟩
  intro l hl
  obtain rfl := Json.obj.inj hl
  refine ⟨fun entries hentries => ?_, fun entries hentries => ?_⟩
  · obtain rfl := Json.arr.inj (Option.some.inj hentries)
    intro entry hentry
    obtain rfl := List.mem_singleton.mp hentry
    exact ⟨_, "int", rfl, by decide, rfl⟩
  · obtain rfl := Json.arr.inj (Option.some.inj hentries)
    intro entry hentry
    obtain rfl := List.mem_singleton.mp hentry
    exact ⟨_, _, rfl, by decide, rfl, _, "none", 1.0, rfl, rfl, rfl⟩

/-- The field of an application inside an entry of the schema is lost. -/
theorem migration_drops_nested_note : ∃ (J : JsonLib) (fields : ManifestFields),
    Manifest.ofJson J (noted notedColumn) = .ok (.v2 fields) ∧
      ¬ Json.Same ((Manifest.v2 fields).intoV3 7).toJson
        (((noted notedColumn).setField "format_version" (.num (.posInt 3))).setField "cache_id"
          (.num (.posInt 7))) := by
  let J : JsonLib := ⟨fun _ => .error "", fun _ => .error "", id, fun _ => ""⟩
  let fields : ManifestFields :=
    ⟨"s", 1, [⟨"label", .int⟩], "", "", [⟨"shard-00000000.bin", 0, 0, .legacy .none 1.0, ""⟩],
      (∅ : FieldMap).insert "note" (.obj [("by", .str "application")])⟩
  have h : Manifest.ofJson J (noted notedColumn) = .ok (.v2 fields) := rfl
  refine ⟨J, fields, h, fun hsame => ?_⟩
  have hschema := ((Manifest.same_migrated_iff h 7 rfl rfl).mp hsame).1
  cases Json.same_arr.mp hschema with
  | cons hcolumn _ =>
      have hnote := Json.same_obj.mp hcolumn "note"
      cases (hnote : Option.Rel Json.Same none (some (.str "kg")))

end DatasetRt
