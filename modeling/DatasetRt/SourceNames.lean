import DatasetRt.SourceViews

/-! # Source names

The name of a source is the last component of its cache directory and of its staging directory.  The writer checks
the normalised components of the name (`validate_source_name` in `writer.rs`) but joins the name as it is, so a name
with a trailing separator is accepted and denotes the directory of the name without it.  `source_names_exact` says
that separators are all there is to it.  The parallel writer has a stricter check of its own (`writer.py`), of Python
strings. -/

namespace DatasetRt

/-! ### The names of the parallel writer -/

/-- A Python string: code points, surrogates among them. -/
structure PyStr where
  chars : List (Fin 0x110000)
deriving DecidableEq

namespace PyStr

def ofChar (c : Char) : Fin 0x110000 :=
  ⟨c.toNat, by
    rcases c.valid with h | h
    · exact Nat.lt_trans h (by decide)
    · exact h.2⟩

def ofString (s : String) : PyStr := ⟨s.toList.map ofChar⟩

/-- `str.encode`, as the text that is encoded: a surrogate has no encoding. -/
def encode (s : PyStr) : Option String :=
  (s.chars.mapM fun (c : Fin 0x110000) => if c.1.isValidChar then some (Char.ofNat c.1) else none).map String.ofList

/-- `str.casefold` on the capital letters; no other character is folded to a letter of a reserved name. -/
def casefold (s : PyStr) : PyStr :=
  ⟨s.chars.map fun c => if h : 65 ≤ c.1 ∧ c.1 ≤ 90 then ⟨c.1 + 32, by omega⟩ else c⟩

/-- `validate_source_name` of `writer.py`. -/
def validateSourceName (name : PyStr) : Except String PyStr :=
  if name.chars = [] ∨ name.casefold ∈ [ofString ".", ofString "..", ofString "tmp"] then
    .error "CacheSource.name must be a non-reserved plain path segment"
  else if ofChar '/' ∈ name.chars ∨ ofChar '\x00' ∈ name.chars then
    .error "CacheSource.name must be a plain path segment"
  else
    match name.encode with
    | none => .error "CacheSource.name must be valid UTF-8"
    | some encoded =>
        if 255 < encoded.utf8ByteSize then
          .error "CacheSource.name exceeds the supported filesystem component limit"
        else .ok name

theorem ofChar_ofNat {c : Fin 0x110000} (h : c.1.isValidChar) : ofChar (Char.ofNat c.1) = c := by
  have hvalue : (Char.ofNat c.1).toNat = c.1 := by
    rw [Char.toNat_ofNat, if_pos h]
  exact Fin.ext hvalue

theorem eq_ofString {s : PyStr} {text : String} (h : s.encode = some text) : s = ofString text := by
  obtain ⟨chars⟩ := s
  obtain ⟨decoded, hdecoded, rfl⟩ := Option.map_eq_some_iff.mp h
  rw [ofString, String.toList_ofList]
  congr 1
  clear h
  induction chars generalizing decoded with
  | nil =>
      cases hdecoded
      rfl
  | cons c rest ih =>
      rw [List.mapM_cons] at hdecoded
      obtain ⟨first, hfirst, hdecoded⟩ := Option.bind_eq_some_iff.mp hdecoded
      obtain ⟨others, hothers, hdecoded⟩ := Option.bind_eq_some_iff.mp hdecoded
      cases hdecoded
      split_ifs at hfirst with hvalid
      cases hfirst
      rw [List.map_cons, ofChar_ofNat hvalid, ← ih others hothers]

theorem plain_of_validateSourceName {name accepted : PyStr} (h : name.validateSourceName = .ok accepted) :
    ∃ text, name.encode = some text ∧ Path.Plain text := by
  unfold validateSourceName at h
  split_ifs at h with hreserved hslash
  rw [not_or] at hreserved hslash
  cases hencode : name.encode with
  | none =>
      rw [hencode] at h
      cases h
  | some text =>
      have hname := eq_ofString hencode
      refine ⟨text, rfl, fun hmem => ?_, ?_, ?_, ?_⟩
      · apply hslash.1
        rw [hname]
        exact List.mem_map_of_mem hmem
      · rintro rfl
        exact hreserved.1 (by rw [hname]; rfl)
      · rintro rfl
        exact hreserved.2 (by rw [hname]; decide)
      · rintro rfl
        exact hreserved.2 (by rw [hname]; decide)

end PyStr

/-! ### The names of the writer -/

theorem exists_segment {name : String} (h : validateSourceName name = .ok ()) :
    ∃ c, Path.Plain c ∧ (∀ path : Path, path.join name = path ++ [c]) ∧ (c = name ↔ '/' ∉ name.toList) := by
  obtain ⟨c, hparent, hcomponents, hslash, hdot⟩ := components_of_validateSourceName h
  have hmem : c ∈ Path.components name := hcomponents ▸ List.mem_cons_self
  refine ⟨c, Path.plain_of_mem_components hmem hparent, fun path => by rw [Path.join, if_neg hslash, hcomponents], ?_, ?_⟩
  · rintro rfl
    exact Path.slash_not_mem_component hmem
  · intro hno
    have hempty : name ≠ "" := by
      rintro rfl
      cases h
    have hcurrent : name ≠ "." := by
      rintro rfl
      exact hdot rfl
    have hjoin := Path.join_of_plain [] hno hempty hcurrent
    rw [Path.join, if_neg hslash, hcomponents] at hjoin
    exact (List.cons.inj hjoin).1

theorem validateSourceName_of_plain {name : String} (h : Path.Plain name) : validateSourceName name = .ok () := by
  have hhead : ¬ name.toList.head? = some '/' := fun hc => h.slash (List.mem_of_mem_head? hc)
  have hfirst : ¬ ((name.toList.splitOn '/').map String.ofList).head? = some "." := by
    rw [List.splitOn_eq_singleton h.slash, List.map_singleton, String.ofList_toList]
    exact fun hc => h.current (Option.some.inj hc)
  have hcomponents : pathComponents name = [.normal name] := by
    simp only [pathComponents, if_neg hhead, if_neg hfirst, List.nil_append, h.components, List.map_singleton,
      if_neg h.parent]
  rw [validateSourceName, if_neg h.nonempty, hcomponents]

/-- The last components of the destination and of the staging directory are the name. -/
def ExactSegment (base : Path) (name : String) : Prop :=
  (cachePathForSource base name).getLast? = some name ∧ (tempCachePathForSource base name).getLast? = some name

/-- No other plain name that is accepted has one of these directories. -/
def OwnDirectories (base : Path) (name : String) : Prop :=
  ∀ other, validateSourceName other = .ok () → '/' ∉ other.toList → other ≠ name →
    cachePathForSource base other ≠ cachePathForSource base name ∧
      tempCachePathForSource base other ≠ tempCachePathForSource base name

section names

variable {base : Path} {name : String}

theorem exactSegment_iff (h : validateSourceName name = .ok ()) : ExactSegment base name ↔ '/' ∉ name.toList := by
  obtain ⟨c, -, hjoin, hsame⟩ := exists_segment h
  rw [ExactSegment, cachePathForSource, tempCachePathForSource, hjoin, hjoin, List.getLast?_concat,
    List.getLast?_concat, Option.some.injEq, and_self, hsame]

theorem ownDirectories_iff (h : validateSourceName name = .ok ()) : OwnDirectories base name ↔ '/' ∉ name.toList := by
  obtain ⟨c, hplain, hjoin, hsame⟩ := exists_segment h
  constructor
  · -- the component alone is accepted and has the same directories
    intro hown
    by_contra hslash
    have hne : c ≠ name := fun hc => hsame.mp hc hslash
    apply (hown c (validateSourceName_of_plain hplain) hplain.slash hne).1
    rw [cachePathForSource, cachePathForSource, hjoin, hplain.join]
  · intro hslash other hother hslash' hne
    obtain ⟨c', -, hjoin', hsame'⟩ := exists_segment hother
    have hdifferent : ∀ path : Path, path.join other ≠ path.join name := by
      intro path heq
      rw [hjoin, hjoin', List.append_cancel_left_eq, List.cons.injEq, hsame.mpr hslash, hsame'.mpr hslash'] at heq
      exact hne heq.1
    exact ⟨hdifferent _, hdifferent _⟩

end names

/-! ### The name in the manifest -/

namespace CacheBuilder

variable {L : StorageLib}

theorem rotateShardIfNeeded_sourceName (b : CacheBuilder) (n : ℕ) :
    (b.rotateShardIfNeeded L n).1.sourceName = b.sourceName := by
  unfold rotateShardIfNeeded
  split_ifs
  · rfl
  · rfl
  · cases checkedAdd b.currentShard.id 1 <;> rfl

theorem pushSample_sourceName (b : CacheBuilder) (data : Bytes) (metadata : MetadataMap) :
    (b.pushSample L data metadata).1.sourceName = b.sourceName := by
  unfold pushSample
  simp only
  split
  · rfl
  · split
    · rfl
    · rename_i record _
      have hname := rotateShardIfNeeded_sourceName (L := L)
        { b with schema := (validateMetadata b.schema metadata).1 } record.bytes.length
      unfold pushRecord
      split
      · rename_i hrotate
        rw [hrotate] at hname
        exact hname
      · rename_i hrotate
        rw [hrotate] at hname
        split <;> exact hname

theorem pushAll_sourceName (b : CacheBuilder) (samples : List (Bytes × MetadataMap)) :
    (b.pushAll L samples).1.sourceName = b.sourceName := by
  induction samples generalizing b with
  | nil => rfl
  | cons sample rest ih =>
      obtain ⟨data, metadata⟩ := sample
      have hname := pushSample_sourceName (L := L) b data metadata
      rw [pushAll]
      rcases hpush : b.pushSample L data metadata with ⟨b', error | u⟩
      · rw [hpush] at hname
        exact hname
      · rw [hpush] at hname
        exact (ih b').trans hname

theorem finish_sourceName {b : CacheBuilder} {dir : FileTree} {manifest : Manifest}
    (h : b.finish L = (dir, .ok manifest)) : manifest.fields.sourceName = b.sourceName := by
  unfold finish at h
  split_ifs at h
  · cases h
  · simp only at h
    split at h
    · cases h
    · split at h
      · cases h
      · cases h
        unfold manifestOf
        simp only
        split_ifs <;> rfl

end CacheBuilder

/-- The manifest of a cache that the writer made for a source. -/
def WrittenFor (L : StorageLib) (base : Path) (name : String) (manifest : Manifest) : Prop :=
  ∃ config fs fs' b₀ inputs b dir, createCache config fs (tempCachePathForSource base name) name = (fs', .ok b₀) ∧
    b₀.pushAll L inputs = (b, .ok ()) ∧ b.finish L = (dir, .ok manifest)

theorem WrittenFor.sourceName {L : StorageLib} {base : Path} {name : String} {manifest : Manifest}
    (h : WrittenFor L base name manifest) : manifest.fields.sourceName = name := by
  obtain ⟨config, fs, fs', b₀, inputs, b, dir, hcreate, hpush, hfinish⟩ := h
  have hstart : b₀.sourceName = name := by
    unfold createCache CacheBuilder.create at hcreate
    split_ifs at hcreate
    · cases hcreate
    · cases hcreate
      rfl
    · cases hcreate
  rw [CacheBuilder.finish_sourceName hfinish, ← hstart, ← CacheBuilder.pushAll_sourceName (L := L) b₀ inputs, hpush]

/-- **Names are segments.**  A name that the writer accepts is the last component of its directories, is the only
plain name for them and is the name of the directory in the manifest exactly when it has no separator.  The names
that the parallel writer accepts are accepted, and have none. -/
theorem source_names_exact (L : StorageLib) (base : Path) :
    (∀ name, validateSourceName name = .ok () →
      (ExactSegment base name ↔ '/' ∉ name.toList) ∧
      (OwnDirectories base name ↔ '/' ∉ name.toList) ∧
      ∀ manifest, WrittenFor L base name manifest →
        ((cachePathForSource base name).getLast? = some manifest.fields.sourceName ↔ '/' ∉ name.toList)) ∧
    ∀ name accepted : PyStr, name.validateSourceName = .ok accepted → ∃ text, name.encode = some text ∧
      validateSourceName text = .ok () ∧ '/' ∉ text.toList := by
  constructor
  · intro name hname
    refine ⟨exactSegment_iff hname, ownDirectories_iff hname, fun manifest hmanifest => ?_⟩
    obtain ⟨c, -, hjoin, hsame⟩ := exists_segment hname
    rw [hmanifest.sourceName, cachePathForSource, hjoin, List.getLast?_concat, Option.some.injEq, hsame]
  · intro name accepted haccepted
    obtain ⟨text, hencode, hplain⟩ := PyStr.plain_of_validateSourceName haccepted
    exact ⟨text, hencode, validateSourceName_of_plain hplain, hplain.slash⟩

/-- A trailing separator. -/
theorem trailing_separator_accepted :
    validateSourceName "a/" = .ok () ∧ validateSourceName "a" = .ok () ∧ "a/" ≠ "a" ∧
      (cachePathForSource ["d"] "a/").getLast? ≠ some "a/" ∧
      cachePathForSource ["d"] "a/" = cachePathForSource ["d"] "a" ∧
      tempCachePathForSource ["d"] "a/" = tempCachePathForSource ["d"] "a" := by
  have hcache : cachePathForSource ["d"] "a/" = ["d", "a"] := rfl
  refine ⟨rfl, rfl, by decide, ?_, rfl, rfl⟩
  rw [hcache]
  decide

end DatasetRt
