import DatasetRt.LoadedCache
import DatasetRt.Lib.Recency

/-! # The shard readers as a cache of the last uses

`ShardReaderCache` keeps the open files in a map and the order of their uses in a queue, and updates the two
separately: on a hit only the queue, on a failed open only the eviction, on an open both.  `ReaderLog` is such a
cache beside the history of its uses, after any calls of `reader_for`, each on the disk of its own time.

* `WellFormed`: the queue has every open path once, in the order of the last uses, and there are at most
  `maxCachedShardReaders` of them.
* `Serves`: what a call can return and what it closes.  At capacity that is one file, the one whose last use is the
  oldest, and its eviction makes room also for an open that then fails.
* `evict_eq`: the loop of `evict_if_full` stops after at most one round, since the queue names what the map has. -/

namespace DatasetRt

open Recency

/-- A cache and the paths that were asked for with success, in order. -/
structure ReaderLog where
  cache : ShardReaderCache
  uses : List Path

namespace ReaderLog

def new : ReaderLog := ⟨.new, []⟩

/-- One call of `reader_for`. -/
def call (s : ReaderLog) (fs : FileTree) (path : Path) : ReaderLog :=
  let read := s.cache.readerFor fs path
  { cache := read.1
    uses := if read.2.isOk then s.uses ++ [path] else s.uses }

/-- The calls of a worker, each with the disk as it is then. -/
def after (calls : List (FileTree × Path)) : ReaderLog :=
  calls.foldl (fun s request => s.call request.1 request.2) new

structure WellFormed (s : ReaderLog) : Prop where
  nodup : s.cache.recentPaths.Nodup
  perm : s.cache.recentPaths.Perm s.cache.readers.keys
  capacity : s.cache.maxReaders = ShardReaderCache.maxCachedShardReaders
  length_le : s.cache.readers.keys.length ≤ ShardReaderCache.maxCachedShardReaders
  used : ∀ path ∈ s.cache.recentPaths, path ∈ s.uses
  ordered : s.cache.recentPaths.Pairwise (Older s.uses)

/-- What the next call does. -/
structure Serves (s : ReaderLog) (fs : FileTree) (path : Path) : Prop where
  /-- An open file is returned, and nothing is closed. -/
  hit : ∀ file, s.cache.readers.lookup path = some file →
    (s.cache.readerFor fs path).2 = .ok file ∧ (s.call fs path).cache.readers = s.cache.readers
  /-- Otherwise the answer is that of the open, and a file that was opened is there. -/
  opened : s.cache.readers.lookup path = none → (s.cache.readerFor fs path).2 = openFile fs path ∧
    ∀ file, openFile fs path = .ok file → (s.call fs path).cache.readers.lookup path = some file
  /-- Below the capacity nothing is closed. -/
  room : s.cache.readers.lookup path = none →
    s.cache.readers.keys.length < ShardReaderCache.maxCachedShardReaders →
    ∀ q, q ≠ path → (s.call fs path).cache.readers.lookup q = s.cache.readers.lookup q
  /-- At the capacity the file with the oldest use is closed, and no other. -/
  evicts : s.cache.readers.lookup path = none →
    s.cache.readers.keys.length = ShardReaderCache.maxCachedShardReaders →
    ∃ oldest ∈ s.cache.readers, (∀ q ∈ s.cache.readers, q ≠ oldest → Older s.uses oldest q) ∧
      oldest ∉ (s.call fs path).cache.readers ∧
      ∀ q, q ≠ oldest → q ≠ path → (s.call fs path).cache.readers.lookup q = s.cache.readers.lookup q

end ReaderLog

/-! ### Eviction -/

namespace ShardReaderCache

variable {readers : AList fun _ : Path => Bytes} {recent : List Path} {maxReaders : ℕ}

theorem length_entries (readers : AList fun _ : Path => Bytes) : readers.entries.length = readers.keys.length :=
  (List.length_map _).symm

theorem evict_of_room (h : readers.keys.length < maxReaders) : evict maxReaders readers recent = (readers, recent) := by
  cases recent with
  | nil => rfl
  | cons path rest =>
      rw [evict, if_neg]
      rw [length_entries]
      omega

/-- The oldest path leaves the queue and the map. -/
theorem perm_keys_erase {oldest : Path} {rest : List Path} (h : (oldest :: rest).Perm readers.keys) :
    rest.Perm (readers.erase oldest).keys := by
  obtain ⟨hnot, hnodup⟩ := List.nodup_cons.mp (h.nodup_iff.mpr readers.keys_nodup)
  refine (List.perm_ext_iff_of_nodup hnodup (AList.keys_nodup _)).mpr fun path => ?_
  have hmem : path = oldest ∨ path ∈ rest ↔ path ∈ readers := by
    rw [← List.mem_cons, h.mem_iff, ← AList.mem_keys]
  rw [← AList.mem_keys, AList.mem_erase, ← hmem]
  constructor
  · intro hpath
    exact ⟨fun heq => hnot (heq ▸ hpath), .inr hpath⟩
  · rintro ⟨hne, heq | hpath⟩
    · exact absurd heq hne
    · exact hpath

/-- **The loop of `evict_if_full`** on a queue that names the open files. -/
theorem evict_eq (hperm : recent.Perm readers.keys) (hle : readers.keys.length ≤ maxReaders) (hpos : 0 < maxReaders) :
    (readers.keys.length < maxReaders ∧ evict maxReaders readers recent = (readers, recent)) ∨
      ∃ oldest rest, recent = oldest :: rest ∧ readers.keys.length = maxReaders ∧
        evict maxReaders readers recent = (readers.erase oldest, rest) := by
  rcases Nat.lt_or_eq_of_le hle with hlt | heq
  · exact .inl ⟨hlt, evict_of_room hlt⟩
  · have hlength := hperm.length_eq
    cases recent with
    | nil =>
        rw [List.length_nil] at hlength
        omega
    | cons oldest rest =>
        refine .inr ⟨oldest, rest, rfl, heq, ?_⟩
        have herased := (perm_keys_erase hperm).length_eq
        rw [evict, if_pos (by rw [length_entries]; omega)]
        refine evict_of_room ?_
        rw [← herased]
        rw [List.length_cons] at hlength
        omega

end ShardReaderCache

namespace ReaderLog

variable {s : ReaderLog} {fs : FileTree} {path : Path}

open ShardReaderCache

/-- A queue that lost some of its oldest paths, and a map that lost the same. -/
structure Trimmed (s : ReaderLog) (c : ShardReaderCache) : Prop where
  suffix : c.recentPaths <:+ s.cache.recentPaths
  perm : c.recentPaths.Perm c.readers.keys
  capacity : c.maxReaders = maxCachedShardReaders
  length_lt : c.readers.keys.length < maxCachedShardReaders

theorem WellFormed.trimmed (h : WellFormed s) : Trimmed s s.cache.evictIfFull := by
  have hpos : 0 < s.cache.maxReaders := by
    rw [h.capacity]
    decide
  rcases evict_eq h.perm (h.capacity ▸ h.length_le) hpos with ⟨hlt, heq⟩ | ⟨oldest, rest, hrecent, hfull, heq⟩
  · have hsame : s.cache.evictIfFull = s.cache := by rw [evictIfFull, heq]
    rw [hsame]
    exact ⟨List.suffix_refl _, h.perm, h.capacity, h.capacity ▸ hlt⟩
  · have hperm := perm_keys_erase (hrecent ▸ h.perm)
    have hlength := h.perm.length_eq
    have hle := h.length_le
    simp only [evictIfFull, heq]
    refine ⟨hrecent ▸ List.suffix_cons _ _, hperm, h.capacity, ?_⟩
    rw [hrecent, List.length_cons] at hlength
    rw [← hperm.length_eq]
    omega

/-! ### One call -/

theorem wellFormed_new : WellFormed new where
  nodup := List.nodup_nil
  perm := List.Perm.nil
  capacity := rfl
  length_le := Nat.zero_le _
  used := nofun
  ordered := List.Pairwise.nil

theorem call_of_lookup {file : Bytes} (h : s.cache.readers.lookup path = some file) :
    s.call fs path = ⟨s.cache.markRecent path, s.uses ++ [path]⟩ ∧ (s.cache.readerFor fs path).2 = .ok file := by
  have hmut : (s.cache.markRecent path).readerMut path = .ok file := okOr_eq_ok.mpr h
  have hfor : s.cache.readerFor fs path = (s.cache.markRecent path, .ok file) := by
    rw [readerFor, if_pos (by rw [h]; rfl)]
    simp only [hmut]
  rw [call, hfor]
  exact ⟨rfl, rfl⟩

theorem call_of_error (h : s.cache.readers.lookup path = none) {error : CacheError}
    (hopen : openFile fs path = .error error) :
    s.call fs path = ⟨s.cache.evictIfFull, s.uses⟩ ∧ (s.cache.readerFor fs path).2 = .error error := by
  have hfor : s.cache.readerFor fs path = (s.cache.evictIfFull, .error error) := by
    rw [readerFor, if_neg (by rw [h]; exact Bool.false_ne_true)]
    simp only [openReader, hopen]
  rw [call, hfor]
  exact ⟨rfl, rfl⟩

theorem call_of_ok (h : s.cache.readers.lookup path = none) {file : Bytes} (hopen : openFile fs path = .ok file) :
    s.call fs path =
      ⟨{ s.cache.evictIfFull with
          readers := s.cache.evictIfFull.readers.insert path file
          recentPaths := s.cache.evictIfFull.recentPaths ++ [path] }, s.uses ++ [path]⟩ ∧
      (s.cache.readerFor fs path).2 = .ok file := by
  have hfor : s.cache.readerFor fs path =
      ({ s.cache.evictIfFull with
          readers := s.cache.evictIfFull.readers.insert path file
          recentPaths := s.cache.evictIfFull.recentPaths ++ [path] }, .ok file) := by
    rw [readerFor, if_neg (by rw [h]; exact Bool.false_ne_true)]
    simp only [openReader, hopen, readerMut, AList.lookup_insert, okOr]
  rw [call, hfor]
  exact ⟨rfl, rfl⟩

theorem WellFormed.notMem_recent (h : WellFormed s) (hlookup : s.cache.readers.lookup path = none) :
    path ∉ s.cache.recentPaths := by
  rw [h.perm.mem_iff, ← AList.mem_keys]
  exact AList.lookup_eq_none.mp hlookup

theorem perm_markRecent {recent : List Path} (hnodup : recent.Nodup) (hmem : path ∈ recent) :
    (recent.filter (fun existing => existing ≠ path) ++ [path]).Perm recent := by
  have hfilter : (recent.filter fun existing => existing ≠ path).Nodup := hnodup.filter _
  refine (List.perm_ext_iff_of_nodup ?_ hnodup).mpr fun q => ?_
  · exact List.nodup_append.mpr ⟨hfilter, List.nodup_singleton _, by simp⟩
  · by_cases hq : q = path <;> simp [hq, hmem]

theorem wellFormed_hit (h : WellFormed s) {file : Bytes} (hlookup : s.cache.readers.lookup path = some file) :
    WellFormed (s.call fs path) := by
  have hmem : path ∈ s.cache.recentPaths := by
    rw [h.perm.mem_iff, ← AList.mem_keys, ← AList.lookup_isSome, hlookup]
    rfl
  have hperm := perm_markRecent h.nodup hmem
  rw [(call_of_lookup hlookup).1]
  refine ⟨hperm.nodup_iff.mpr h.nodup, hperm.trans h.perm, h.capacity, h.length_le, fun q hq => ?_, ?_⟩
  · exact List.mem_append_left _ (h.used q (hperm.subset hq))
  · exact pairwise_use (h.ordered.filter _) (by simp)

theorem wellFormed_error (h : WellFormed s) (hlookup : s.cache.readers.lookup path = none) {error : CacheError}
    (hopen : openFile fs path = .error error) : WellFormed (s.call fs path) := by
  have htrim := h.trimmed
  rw [(call_of_error hlookup hopen).1]
  exact ⟨h.nodup.sublist htrim.suffix.sublist, htrim.perm, htrim.capacity, htrim.length_lt.le,
    fun q hq => h.used q (htrim.suffix.subset hq), h.ordered.sublist htrim.suffix.sublist⟩

theorem wellFormed_ok (h : WellFormed s) (hlookup : s.cache.readers.lookup path = none) {file : Bytes}
    (hopen : openFile fs path = .ok file) : WellFormed (s.call fs path) := by
  have htrim := h.trimmed
  have hnot : path ∉ s.cache.evictIfFull.recentPaths := fun hmem =>
    h.notMem_recent hlookup (htrim.suffix.subset hmem)
  have hkeys : path ∉ s.cache.evictIfFull.readers := by
    rwa [AList.mem_keys, ← htrim.perm.mem_iff]
  have hinsert : (s.cache.evictIfFull.readers.insert path file).keys = path :: s.cache.evictIfFull.readers.keys := by
    rw [AList.insert_of_notMem hkeys]
    rfl
  rw [(call_of_ok hlookup hopen).1]
  refine ⟨?_, ?_, htrim.capacity, ?_, fun q hq => ?_, ?_⟩
  · refine List.nodup_append.mpr ⟨h.nodup.sublist htrim.suffix.sublist, List.nodup_singleton _, ?_⟩
    rintro q hq q' hq' rfl
    exact hnot (List.mem_singleton.mp hq' ▸ hq)
  · rw [hinsert]
    exact (List.perm_append_singleton _ _).trans (htrim.perm.cons path)
  · rw [hinsert, List.length_cons]
    exact htrim.length_lt
  · rcases List.mem_append.mp hq with hq | hq
    · exact List.mem_append_left _ (h.used q (htrim.suffix.subset hq))
    · exact List.mem_append_right _ hq
  · exact pairwise_use (h.ordered.sublist htrim.suffix.sublist) hnot

/-- **One call keeps the queue and the map in step.** -/
theorem wellFormed_call (h : WellFormed s) (fs : FileTree) (path : Path) : WellFormed (s.call fs path) := by
  cases hlookup : s.cache.readers.lookup path with
  | some file => exact wellFormed_hit h hlookup
  | none =>
      cases hopen : openFile fs path with
      | error error => exact wellFormed_error h hlookup hopen
      | ok file => exact wellFormed_ok h hlookup hopen

theorem wellFormed_after (calls : List (FileTree × Path)) : WellFormed (after calls) := by
  induction calls using List.reverseRecOn with
  | nil => exact wellFormed_new
  | append_singleton calls request ih =>
      rw [after, List.foldl_append]
      exact wellFormed_call ih request.1 request.2

/-! ### What a call closes -/

/-- The path that was asked for apart, an open leaves what the eviction leaves. -/
theorem lookup_call (hlookup : s.cache.readers.lookup path = none) {q : Path} (hq : q ≠ path) :
    (s.call fs path).cache.readers.lookup q = s.cache.evictIfFull.readers.lookup q := by
  cases hopen : openFile fs path with
  | error error => rw [(call_of_error hlookup hopen).1]
  | ok file =>
      rw [(call_of_ok hlookup hopen).1]
      exact AList.lookup_insert_ne hq

theorem serves (h : WellFormed s) (fs : FileTree) (path : Path) : Serves s fs path where
  hit file hlookup := by
    have hcall : s.call fs path = ⟨s.cache.markRecent path, s.uses ++ [path]⟩ := (call_of_lookup hlookup).1
    rw [hcall]
    exact ⟨(call_of_lookup hlookup).2, rfl⟩
  opened hlookup := by
    cases hopen : openFile fs path with
    | error error => exact ⟨(call_of_error hlookup hopen).2, fun _ hok => by cases hok⟩
    | ok file =>
        refine ⟨(call_of_ok hlookup hopen).2, fun _ hok => ?_⟩
        cases hok
        rw [(call_of_ok hlookup hopen).1]
        exact AList.lookup_insert _
  room hlookup hlt q hq := by
    have hsame : s.cache.evictIfFull.readers = s.cache.readers := by
      rw [evictIfFull, evict_of_room (h.capacity ▸ hlt)]
    rw [lookup_call hlookup hq, hsame]
  evicts hlookup hfull := by
    have hpos : 0 < s.cache.maxReaders := by
      rw [h.capacity]
      decide
    rcases evict_eq h.perm (h.capacity ▸ h.length_le) hpos with ⟨hlt, -⟩ | ⟨oldest, rest, hrecent, -, heq⟩
    · rw [h.capacity, hfull] at hlt
      exact absurd hlt (lt_irrefl _)
    · have hevicted : s.cache.evictIfFull.readers = s.cache.readers.erase oldest := by rw [evictIfFull, heq]
      have holdest : oldest ∈ s.cache.readers := by
        rw [AList.mem_keys, ← h.perm.mem_iff, hrecent]
        exact List.mem_cons_self
      have hne : oldest ≠ path := fun hsame => AList.lookup_eq_none.mp hlookup (hsame ▸ holdest)
      refine ⟨oldest, holdest, fun q hq hqne => ?_, ?_, fun q hqne hq => ?_⟩
      · have hordered := h.ordered
        rw [AList.mem_keys, ← h.perm.mem_iff, hrecent] at hq
        rw [hrecent, List.pairwise_cons] at hordered
        exact hordered.1 q (List.mem_of_ne_of_mem hqne hq)
      · rw [← AList.lookup_eq_none, lookup_call hlookup hne, hevicted, AList.lookup_erase]
      · rw [lookup_call hlookup hq, hevicted, AList.lookup_erase_ne hqne]

/-- **The shard readers are a cache of the last uses**: after any calls the queue and the map agree, and at capacity
the next call closes the file with the oldest use. -/
theorem shard_readers_lru (calls : List (FileTree × Path)) :
    WellFormed (after calls) ∧ ∀ fs path, Serves (after calls) fs path :=
  ⟨wellFormed_after calls, fun fs path => serves (wellFormed_after calls) fs path⟩

end ReaderLog

end DatasetRt
