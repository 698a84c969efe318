import DatasetRt.SchemaRuns
import DatasetRt.ManifestFrame

/-! # Metadata from a source to a reader

The values of a Python dict are extracted by trying the kinds one after the other (`extract_metadata_value`), stored
as a JSON object inside the record of the sample, and read back into an untagged enumeration whose variants are again
tried one after the other.  An integer that does not fit 64 bits falls through to a float, and JSON has no float that
is not finite: `metadata_survives_iff` says that all other values come back as they were supplied, and that no dict
with such a value does. -/

namespace DatasetRt

/-! ### Python values -/

/-- The objects a source can supply; `other` stands for those without `__index__` and `__float__`, which no extraction
accepts. -/
inductive PyObject where
  | bool (b : Bool)
  | int (n : ℤ)
  | float (f : Float)
  | str (s : String)
  /-- A string with a lone surrogate. -/
  | surrogates
  | other

/-- A dict has no key twice. -/
structure PyDict where
  items : List (PyObject × PyObject)
  nodup : (items.map Prod.fst).Nodup

section extract

-- `PyLong_AsDouble`: the float nearest to an integer, if there is one
variable (toDouble : ℤ → Option Float)

def extractMetadataValue : PyObject → CacheResult MetadataValue
  | .bool b => .ok (.bool b)
  | .int n =>
      if -2 ^ 63 ≤ n ∧ n < 2 ^ 63 then .ok (.int (Int64.ofInt n))
      else
        match toDouble n with
        | some f => .ok (.float f)
        | none => .error (.invalidInput "metadata values must be bool, int, float, or str")
  | .float f => .ok (.float f)
  | .str s => .ok (.string s)
  | _ => .error (.invalidInput "metadata values must be bool, int, float, or str")

def extractKey : PyObject → CacheResult String
  | .str s => .ok s
  | .surrogates => .error (.python "surrogates not allowed")
  | _ => .error (.invalidInput "metadata keys must be strings")

/-- The loop of `extract_metadata`. -/
def extractItems (metadata : MetadataMap) : List (PyObject × PyObject) → CacheResult MetadataMap
  | [] => .ok metadata
  | (key, value) :: rest => do
      let key ← extractKey key
      let value ← extractMetadataValue toDouble value
      extractItems (metadata.insert key value) rest

def extractMetadata (dict : PyDict) : CacheResult MetadataMap := extractItems toDouble ∅ dict.items

end extract

/-- The value that was supplied, with the same kind. -/
def MetadataValue.Supplied : MetadataValue → PyObject → Prop
  | bool b, .bool b' => b = b'
  | int n, .int n' => n.toInt = n'
  | float f, .float f' => f = f'
  | string s, .str s' => s = s'
  | _, _ => False

/-- A value that JSON and the kinds can hold. -/
def PyObject.Storable : PyObject → Prop
  | int n => -2 ^ 63 ≤ n ∧ n < 2 ^ 63
  | float f => f.isFinite = true
  | _ => True

/-! ### Values as JSON -/

namespace MetadataValue

def toJson : MetadataValue → Json
  | bool b => .bool b
  | int n => if 0 ≤ n.toInt then .num (.posInt n.toInt.toNat) else .num (.negInt n.toInt)
  | float f => .num (.float f)
  | string s => .str s

/-- The first variant that accepts a value. -/
def ofJson : Json → Option MetadataValue
  | .bool b => some (bool b)
  | .num (.posInt n) => if n < 2 ^ 63 then some (int (Int64.ofNat n)) else some (float (Float.ofNat n))
  | .num (.negInt n) => if -2 ^ 63 ≤ n then some (int (Int64.ofInt n)) else some (float (Float.ofInt n))
  | .num (.float f) => some (float f)
  | .str s => some (string s)
  | _ => none

end MetadataValue

def objectJson (object : MetadataMap) : Json := .obj (object.toList.map fun p => (p.1, p.2.toJson))

/-- Reading a map; a later field of the same name replaces an earlier one. -/
def readObject : Json → Option MetadataMap
  | .obj fields => do
      let values ← fields.mapM fun field => (MetadataValue.ofJson field.2).map (Prod.mk field.1)
      some (Std.ExtTreeMap.ofList values compare)
  | _ => none

/-- The library prints and parses inversely, finite floats included, and metadata objects are printed and parsed by
it. -/
structure StorageLib.JsonObjects (L : StorageLib) : Prop where
  parse_print : ∀ j text, L.json.print j = .ok text → L.json.parse text = .ok (j.reread L.json.reread)
  reread_finite : ∀ f : Float, f.isFinite = true → L.json.reread f = f
  encode : ∀ object, L.encodeObject object = L.json.print (objectJson object)
  decode : ∀ text j, L.json.parse text = .ok j → L.decodeObject text =
    match readObject j with
    | some object => .ok object
    | none => .error (L.json.describe j)

namespace MetadataValue

/-- Not a float without a JSON text. -/
def finite : MetadataValue → Bool
  | float f => f.isFinite
  | _ => true

theorem ofJson_toJson {v : MetadataValue} (h : v.finite = true) : ofJson (v.toJson.reread id) = some v := by
  cases v with
  | bool b => rfl
  | int n =>
      have hlo := Int64.le_toInt n
      have hhi := Int64.toInt_lt n
      by_cases hn : 0 ≤ n.toInt
      · have hnat : n.toInt.toNat < 2 ^ 63 := by omega
        simp only [toJson, if_pos hn, Json.reread, ofJson, if_pos hnat]
        rw [← Int64.ofInt_eq_ofNat, Int.toNat_of_nonneg hn, Int64.ofInt_toInt]
      · simp only [toJson, if_neg hn, Json.reread, ofJson]
        rw [if_pos hlo, Int64.ofInt_toInt]
  | float f =>
      simp only [finite] at h
      simp [toJson, Json.reread, h, ofJson]
  | string s => simp [toJson, Json.reread, ofJson]

theorem finite_of_ofJson {v w : MetadataValue} (h : ofJson (v.toJson.reread id) = some w) : v.finite = true := by
  cases v with
  | float f =>
      by_cases hf : f.isFinite = true
      · exact hf
      · simp [toJson, Json.reread, hf, ofJson] at h
  | bool b => rfl
  | int n => rfl
  | string s => rfl

end MetadataValue

/-! ### Objects -/

theorem ofList_eq_of_mem {l : List (String × MetadataValue)} {m : MetadataMap} (hnodup : (l.map Prod.fst).Nodup)
    (hmem : ∀ k v, (k, v) ∈ l ↔ m[k]? = some v) : Std.ExtTreeMap.ofList l compare = m := by
  have hpair : l.Pairwise fun a b => ¬ compare a.1 b.1 = .eq := by
    rw [List.Nodup, List.pairwise_map] at hnodup
    exact hnodup.imp fun hne heq => hne (by simpa using heq)
  apply Std.ExtTreeMap.ext_getElem?
  intro k
  cases hget : m[k]? with
  | some v => exact Std.ExtTreeMap.getElem?_ofList_of_mem (by simp) hpair ((hmem k v).mpr hget)
  | none =>
      apply Std.ExtTreeMap.getElem?_ofList_of_contains_eq_false
      rw [← Bool.not_eq_true, List.contains_iff_mem]
      intro hk
      obtain ⟨p, hp, rfl⟩ := List.mem_map.mp hk
      rw [(hmem p.1 p.2).mp hp] at hget
      cases hget

theorem reread_objectJson (object : MetadataMap) :
    (objectJson object).reread id = .obj (object.toList.map fun p => (p.1, p.2.toJson.reread id)) := by
  rw [objectJson, Json.reread, Json.rereadFields_eq_map, List.map_map]
  rfl

theorem readObject_objectJson {object : MetadataMap}
    (h : ∀ (key : String) v, object[key]? = some v → v.finite = true) :
    readObject ((objectJson object).reread id) = some object := by
  have hvalues : (object.toList.map fun p => (p.1, p.2.toJson.reread id)).mapM
      (fun field => (MetadataValue.ofJson field.2).map (Prod.mk field.1)) = some (object.toList.map id) := by
    refine mapM_map_eq_some fun p hp => ?_
    rw [MetadataValue.ofJson_toJson (h p.1 p.2 (Std.ExtTreeMap.mem_toList_iff_getElem?_eq_some.mp hp))]
    rfl
  rw [reread_objectJson, readObject, hvalues, List.map_id]
  exact congrArg some (ofList_eq_of_mem (nodup_keys_toList object)
    fun k v => Std.ExtTreeMap.mem_toList_iff_getElem?_eq_some)

/-- An object with another float is not read at all. -/
theorem finite_of_readObject {object object' : MetadataMap}
    (h : readObject ((objectJson object).reread id) = some object') (key : String) {v : MetadataValue}
    (hget : object[key]? = some v) : v.finite = true := by
  simp only [reread_objectJson, readObject, bind, Option.bind_eq_some_iff] at h
  obtain ⟨values, hvalues, -⟩ := h
  have hmem : (key, v) ∈ object.toList := Std.ExtTreeMap.mem_toList_iff_getElem?_eq_some.mpr hget
  obtain ⟨i, hi, heq⟩ := List.getElem_of_mem (List.mem_map_of_mem hmem (f := fun p => (p.1, p.2.toJson.reread id)))
  have hall := List.forall₂_iff_get.mp (forall₂_of_mapM_eq_some hvalues)
  have hone := hall.2 i hi (hall.1 ▸ hi)
  rw [List.get_eq_getElem, heq] at hone
  obtain ⟨w, hw, -⟩ := Option.map_eq_some_iff.mp hone
  exact MetadataValue.finite_of_ofJson hw

theorem getElem?_of_valuesInOrder {schema : List MetadataField} {metadata : MetadataMap} {row : Row}
    (h : valuesInOrder schema metadata = some row) {i : ℕ} {field : MetadataField} (hi : schema[i]? = some field) :
    row[i]? = metadata[field.name]? := by
  have hall := List.forall₂_iff_get.mp (forall₂_of_mapM_eq_some h)
  obtain ⟨hlt, rfl⟩ := List.getElem?_eq_some_iff.mp hi
  have hrow : i < row.length := hall.1 ▸ hlt
  have hone := hall.2 i hlt hrow
  rw [List.get_eq_getElem, List.get_eq_getElem] at hone
  rw [List.getElem?_eq_getElem hrow, hone]

/-- The object of a row is the metadata that was validated. -/
theorem metadataRowToObject_of_schema {schema : List MetadataField} {metadata : MetadataMap} {row : Row}
    (hok : SchemaOk schema) (hschema : HasSchema schema metadata) (hrow : valuesInOrder schema metadata = some row) :
    metadataRowToObject schema row = .ok metadata := by
  have hlen : row.length = schema.length := (forall₂_of_mapM_eq_some hrow).length_eq.symm
  rw [metadataRowToObject, if_neg (not_not.mpr hlen)]
  refine congrArg Except.ok (ofList_eq_of_mem ?_ fun k v => ?_)
  · rw [List.map_fst_zip (by simp [hlen])]
    exact hok
  · constructor
    · intro hmem
      obtain ⟨i, hi, heq⟩ := List.getElem_of_mem hmem
      rw [List.length_zip, List.length_map] at hi
      have hlt : i < schema.length := by omega
      have hvalue := getElem?_of_valuesInOrder hrow (List.getElem?_eq_getElem hlt)
      rw [List.getElem_zip, Prod.mk.injEq, List.getElem_map] at heq
      rw [← heq.1, ← hvalue, ← heq.2]
      exact List.getElem?_eq_getElem _
    · intro hget
      obtain ⟨i, hi⟩ := List.getElem?_of_mem ((hschema ⟨k, v.kind⟩).mpr (by rw [hget]; rfl))
      have hvalue := getElem?_of_valuesInOrder hrow hi
      simp only at hvalue
      rw [hget] at hvalue
      refine List.mem_of_getElem? (i := i) ?_
      rw [List.getElem?_zip_eq_some]
      exact ⟨by rw [List.getElem?_map, hi]; rfl, hvalue⟩

/-! ### From the dict to the reader -/

section survives

variable {toDouble : ℤ → Option Float}

theorem extractItems_ok : ∀ {items : List (PyObject × PyObject)} {metadata metadata' : MetadataMap},
    extractItems toDouble metadata items = .ok metadata' → (items.map Prod.fst).Nodup →
    (∀ item ∈ items, ∃ key v, item.1 = .str key ∧ extractMetadataValue toDouble item.2 = .ok v ∧
      metadata'[key]? = some v) ∧
    ∀ key : String, PyObject.str key ∉ items.map Prod.fst → metadata'[key]? = metadata[key]?
  | [], metadata, metadata', h, _ => by
      cases h
      exact ⟨by simp, fun _ _ => rfl⟩
  | (key, value) :: rest, metadata, metadata', h, hnodup => by
      obtain ⟨name, hname, hvalue⟩ := bind_eq_ok h
      obtain ⟨v, hv, hrest⟩ := bind_eq_ok hvalue
      obtain rfl : key = .str name := by
        cases key with
        | str s =>
            cases hname
            rfl
        | bool b => cases hname
        | int n => cases hname
        | float f => cases hname
        | surrogates => cases hname
        | other => cases hname
      rw [List.map_cons, List.nodup_cons] at hnodup
      obtain ⟨hitems, hothers⟩ := extractItems_ok hrest hnodup.2
      constructor
      · intro item hitem
        rcases List.mem_cons.mp hitem with rfl | hitem
        · refine ⟨name, v, rfl, hv, ?_⟩
          rw [hothers name hnodup.1]
          simp
        · exact hitems item hitem
      · intro other hother
        rw [List.map_cons, List.mem_cons, not_or] at hother
        rw [hothers other hother.2, Std.ExtTreeMap.getElem?_insert, if_neg]
        intro heq
        exact hother.1 (by rw [show name = other by simpa using heq])

theorem supplied_of_storable {value : PyObject} {v : MetadataValue} (h : extractMetadataValue toDouble value = .ok v)
    (hstorable : value.Storable) : v.Supplied value ∧ v.finite = true := by
  cases value with
  | bool b =>
      cases h
      exact ⟨rfl, rfl⟩
  | int n =>
      have hrange : -2 ^ 63 ≤ n ∧ n < 2 ^ 63 := hstorable
      rw [extractMetadataValue, if_pos hrange] at h
      cases h
      exact ⟨Int64.toInt_ofInt_of_le hrange.1 hrange.2, rfl⟩
  | float f =>
      cases h
      exact ⟨rfl, hstorable⟩
  | str s =>
      cases h
      exact ⟨rfl, rfl⟩
  | surrogates => cases h
  | other => cases h

/-- The reader has a value of the schema for every key, and it is the one that the source supplied. -/
def Returned (dict : PyDict) (schema : List MetadataField) (row : Row) : Prop :=
  ∀ key value, (.str key, value) ∈ dict.items →
    ∃ (i : ℕ) (field : MetadataField) (v : MetadataValue), schema[i]? = some field ∧ field.name = key ∧
      row[i]? = some v ∧ v.Supplied value

theorem storable_of_supplied {value : PyObject} {v : MetadataValue} (h : v.Supplied value) (hfinite : v.finite = true) :
    value.Storable := by
  cases v with
  | bool b => cases value <;> trivial
  | int n =>
      cases value with
      | int n' =>
          have hvalue : n.toInt = n' := h
          exact hvalue ▸ ⟨Int64.le_toInt n, Int64.toInt_lt n⟩
      | _ => cases h
  | float f =>
      cases value with
      | float f' =>
          have hvalue : f = f' := h
          exact hvalue ▸ hfinite
      | _ => cases h
  | string s => cases value <;> trivial

/-- **What survives the record.**  For every dict that is extracted and accepted by a builder in any state that it
can reach, and every payload, the reader of the record finds the payload and every value as the source supplied it
if and only if the dict has no float that is not finite and no integer outside 64 bits. -/
theorem metadata_survives_iff {L : StorageLib} (hL : L.JsonObjects) {path : Path} {sourceName : String}
    {maxShardBytes : ℕ} {compression : ShardCompression} {b₀ : CacheBuilder}
    (hcreate : CacheBuilder.create false true path sourceName maxShardBytes compression = .ok b₀)
    (samples : List (Bytes × MetadataMap)) {dict : PyDict} {metadata : MetadataMap}
    (hextract : extractMetadata toDouble dict = .ok metadata) {schema : List MetadataField} {row : Row}
    (hvalid : CacheBuilder.validateMetadata (b₀.pushEach L samples).1.schema metadata = (schema, .ok row))
    {payload record : Bytes} (hencode : encodeSampleRecord L payload schema row = .ok record) :
    (∃ returned, splitSampleRecord L record schema = .ok (returned, payload) ∧ Returned dict schema returned) ↔
      ∀ item ∈ dict.items, item.2.Storable := by
  have hok₀ : SchemaOk (b₀.pushEach L samples).1.schema :=
    CacheBuilder.schemaOk_pushEach L samples (CacheBuilder.fixed_create hcreate).names
  obtain ⟨hok, -, hvalues⟩ := CacheBuilder.validateMetadata_ok hvalid hok₀
  obtain ⟨hschema, hfits⟩ := CacheBuilder.hasSchema_of_validateMetadata hok₀ hvalid
  have hobject := metadataRowToObject_of_schema hok hschema hvalues
  obtain ⟨object, json, hobject', hjson, -, hsplit⟩ := splitSampleRecord_of_encode hencode
  obtain rfl : metadata = object := Except.ok.inj (hobject.symm.trans hobject')
  obtain ⟨hitems, hothers⟩ := extractItems_ok hextract dict.nodup
  rw [hL.encode] at hjson
  have hparse := hL.parse_print _ _ hjson
  rw [Json.reread_congr (q := id) hL.reread_finite] at hparse
  have hdecode := hL.decode json _ hparse
  constructor
  · rintro ⟨returned, hreturned, hall⟩
    -- the object was decoded, so its floats are finite
    rw [hsplit] at hreturned
    obtain ⟨decoded, hdecoded, -⟩ := bind_eq_ok hreturned
    have hfinite : ∀ (key : String) v, metadata[key]? = some v → v.finite = true := by
      intro key v hget
      cases hread : readObject ((objectJson metadata).reread id) with
      | none =>
          rw [hdecode, hread] at hdecoded
          cases hdecoded
      | some object' => exact finite_of_readObject hread key hget
    have hsame : returned = row := by
      rw [hdecode, readObject_objectJson hfinite] at hreturned
      simp only [jsonResult, bind, Except.bind, metadataObjectToRow_object hok hfits hobject] at hreturned
      cases hreturned
      rfl
    intro item hitem
    obtain ⟨key, v, hkey, -, hget⟩ := hitems item hitem
    obtain ⟨i, field, w, hi, hname, hw, hsupplied⟩ := hall key item.2 (hkey ▸ hitem)
    rw [hsame, getElem?_of_valuesInOrder hvalues hi, hname] at hw
    exact storable_of_supplied hsupplied (hfinite key w hw)
  · intro hstorable
    have hfinite : ∀ (key : String) v, metadata[key]? = some v → v.finite = true := by
      intro key v hget
      by_cases hkey : PyObject.str key ∈ dict.items.map Prod.fst
      · obtain ⟨item, hitem, hname⟩ := List.mem_map.mp hkey
        obtain ⟨key', w, hkey', hw, hget'⟩ := hitems item hitem
        obtain rfl : key = key' := PyObject.str.inj (hname.symm.trans hkey')
        obtain rfl : v = w := Option.some.inj (hget.symm.trans hget')
        exact (supplied_of_storable hw (hstorable item hitem)).2
      · rw [hothers key hkey, Std.ExtTreeMap.getElem?_empty] at hget
        cases hget
    refine ⟨row, ?_, fun key value hitem => ?_⟩
    · rw [hsplit, hdecode, readObject_objectJson hfinite]
      simp only [jsonResult, bind, Except.bind, metadataObjectToRow_object hok hfits hobject]
    · obtain ⟨key', v, hkey, hv, hget⟩ := hitems _ hitem
      obtain rfl : key = key' := PyObject.str.inj hkey
      obtain ⟨i, hi⟩ := List.getElem?_of_mem ((hschema ⟨key, v.kind⟩).mpr (by rw [hget]; rfl))
      refine ⟨i, _, v, hi, rfl, ?_, (supplied_of_storable hv (hstorable _ hitem)).1⟩
      rw [getElem?_of_valuesInOrder hvalues hi]
      exact hget

end survives

namespace OneKey

/-- A dict with one key. -/
def dict (value : PyObject) : PyDict := ⟨[(.str "k", value)], by simp⟩

def metadata (v : MetadataValue) : MetadataMap := (∅ : MetadataMap).insert "k" v

/-- The object with the value `true`. -/
def trueText : Bytes := [123, 34, 107, 34, 58, 116, 114, 117, 101, 125]

/-- The object with the value `null`. -/
def nullText : Bytes := [123, 34, 107, 34, 58, 110, 117, 108, 108, 125]

/-- A library that knows the text of one object. -/
noncomputable def lib (v : MetadataValue) (text : Bytes) : StorageLib where
  codec := LateSchema.lib.codec
  json :=
    { print := TwoShards.only (objectJson (metadata v)) text
      parse := TwoShards.only text ((objectJson (metadata v)).reread id)
      reread := id
      describe := fun _ => "data did not match any variant of untagged enum MetadataValue" }
  arrow := LateSchema.lib.arrow
  encodeObject object := TwoShards.only (objectJson (metadata v)) text (objectJson object)
  decodeObject text' :=
    match TwoShards.only text ((objectJson (metadata v)).reread id) text' with
    | .error error => .error error
    | .ok j =>
        match readObject j with
        | some object => .ok object
        | none => .error "data did not match any variant of untagged enum MetadataValue"
  sha256 := TwoShards.sha256

theorem jsonObjects_lib (v : MetadataValue) (text : Bytes) : (lib v text).JsonObjects where
  parse_print j text' h := by
    obtain ⟨rfl, rfl⟩ := TwoShards.only_eq_ok h
    exact TwoShards.only_self _ _
  reread_finite _ _ := rfl
  encode _ := rfl
  decode text' j h := by
    have hparse : TwoShards.only text ((objectJson (metadata v)).reread id) text' = .ok j := h
    simp only [lib, hparse]

/-- The record of a payload of one byte. -/
def record (text : Bytes) : Bytes := Bytes.ofNatLe 8 text.length ++ text ++ [7]

theorem encode_lib (v : MetadataValue) (text : Bytes) (h : text.length < 1024) :
    encodeSampleRecord (lib v text) [7] [⟨"k", v.kind⟩] [v] = .ok (record text) := by
  have hobject : metadataRowToObject [⟨"k", v.kind⟩] [v] = .ok (metadata v) := rfl
  have hjson : (lib v text).encodeObject (metadata v) = .ok text := TwoShards.only_self _ _
  have hlen : lengthU64 text "metadata record length does not fit in u64" = .ok text.length :=
    if_pos (h.trans (by norm_num [wordSize]))
  have hhead : checkedAdd recordMetadataLenBytes text.length = some (8 + text.length) :=
    checkedAdd_eq_some.mpr ⟨by norm_num [wordSize, recordMetadataLenBytes]; omega, rfl⟩
  have hall : checkedAdd (8 + text.length) 1 = some (8 + text.length + 1) :=
    checkedAdd_eq_some.mpr ⟨by norm_num [wordSize]; omega, rfl⟩
  simp only [encodeSampleRecord, hobject, hjson, jsonResult, bind, Except.bind, hlen, hhead, Option.bind_some,
    List.length_singleton, hall, okOr]
  rfl

theorem validate_lib (v : MetadataValue) :
    CacheBuilder.validateMetadata [] (metadata v) = ([⟨"k", v.kind⟩], .ok [v]) := by
  have hlist : (metadata v).toList = [("k", v)] := rfl
  have hsize : (metadata v).size = 1 := rfl
  have hget : (metadata v)["k"]? = some v := rfl
  simp [CacheBuilder.validateMetadata, hlist, hsize, fieldValue, hget]

end OneKey

open OneKey in
/-- A boolean comes back. -/
theorem metadata_survives_bool :
    ∃ returned, splitSampleRecord (lib (.bool true) trueText) (record trueText) [⟨"k", .bool⟩] =
        .ok (returned, [7]) ∧
      Returned (dict (.bool true)) [⟨"k", .bool⟩] returned := by
  have hcreate : CacheBuilder.create false true ["c"] "s" 1024 .none = .ok LateSchema.builder := rfl
  have hextract : extractMetadata (fun _ => none) (dict (.bool true)) = .ok (metadata (.bool true)) := rfl
  have hencode := encode_lib (.bool true) trueText (by decide)
  refine (metadata_survives_iff (jsonObjects_lib _ _) hcreate [] hextract (validate_lib _) hencode).mpr ?_
  intro item hitem
  obtain rfl := List.mem_singleton.mp hitem
  trivial

open OneKey in
/-- `NaN` is accepted and stored, and its record cannot be read. -/
theorem nan_metadata_unreadable : ∃ nan : Float, nan.isNaN = true ∧
    (lib (.float nan) nullText).JsonObjects ∧
    extractMetadata (fun _ => none) (dict (.float nan)) = .ok (metadata (.float nan)) ∧
    CacheBuilder.validateMetadata [] (metadata (.float nan)) = ([⟨"k", .float⟩], .ok [.float nan]) ∧
    encodeSampleRecord (lib (.float nan) nullText) [7] [⟨"k", .float⟩] [.float nan] = .ok (record nullText) ∧
    splitSampleRecord (lib (.float nan) nullText) (record nullText) [⟨"k", .float⟩] =
      .error (.json "data did not match any variant of untagged enum MetadataValue") := by
  have hencode := encode_lib (.float (0.0 / 0.0)) nullText (by decide)
  refine ⟨0.0 / 0.0, by decide +kernel, jsonObjects_lib _ _, rfl, validate_lib _, hencode, ?_⟩
  obtain ⟨object, json, -, hjson, hrecord, hsplit⟩ := splitSampleRecord_of_encode hencode
  obtain ⟨-, rfl⟩ := TwoShards.only_eq_ok hjson
  have hdecode : (lib (.float (0.0 / 0.0)) nullText).decodeObject nullText =
      .error "data did not match any variant of untagged enum MetadataValue" := by
    simp only [lib, TwoShards.only_self]
    rfl
  refine hsplit.trans ?_
  rw [hdecode]
  rfl

end DatasetRt
