import DatasetRt.CacheRoundTrip
import DatasetRt.Lib.Packing
import DatasetRt.Lib.Segments

/-! # The layout of shards

`CacheBuilder` rotates to a new shard before a record that does not fit the open one.  That is greedy packing of the
records in order: the builder after a run of accepted samples is `pack` of their records, with the open shard as the
open block (`Lays.pushAll`).  What is known of packings is then known of every finished cache: where its records lie,
how large its shards are, and that none of them could have held the record after it (`rotation_layout`). -/

namespace DatasetRt

open Packing

/-- The stored size of a record. -/
def EncodedRecord.size (record : EncodedRecord) : ℕ := record.bytes.length

/-- The index entries of records that lie one after the other in a shard. -/
def blockEntries (id : ℕ) : ℕ → List EncodedRecord → List IndexEntry
  | _, [] => []
  | offset, record :: rest => ⟨id, offset, record.size⟩ :: blockEntries id (offset + record.size) rest

/-- The index entries of blocks that are the shards from number `id` on. -/
def layoutIndex : ℕ → List (List EncodedRecord) → List IndexEntry
  | _, [] => []
  | id, block :: blocks => blockEntries id 0 block ++ layoutIndex (id + 1) blocks

/-- The shard with the records of a block. -/
def shardOf (id : ℕ) (block : List EncodedRecord) : OpenShard where
  id
  name := shardName id
  writer := block.flatMap EncodedRecord.bytes
  byteLen := load EncodedRecord.size block
  uncompressedByteLen := load EncodedRecord.uncompressedByteLen block
  hasher := block.flatMap EncodedRecord.bytes

/-! ### Entries -/

theorem blockEntries_append (id : ℕ) : ∀ (block more : List EncodedRecord) (offset : ℕ),
    blockEntries id offset (block ++ more) =
      blockEntries id offset block ++ blockEntries id (offset + load EncodedRecord.size block) more
  | [], _, _ => rfl
  | record :: rest, more, offset => by
      have hload : load EncodedRecord.size (record :: rest) = record.size + load EncodedRecord.size rest := List.sum_cons
      rw [List.cons_append, blockEntries, blockEntries_append id rest more, blockEntries, hload, Nat.add_assoc]
      rfl

theorem layoutIndex_append : ∀ (blocks more : List (List EncodedRecord)) (id : ℕ),
    layoutIndex id (blocks ++ more) = layoutIndex id blocks ++ layoutIndex (id + blocks.length) more
  | [], _, _ => rfl
  | block :: blocks, more, id => by
      rw [List.cons_append, layoutIndex, layoutIndex_append blocks more, layoutIndex, List.length_cons,
        List.append_assoc, Nat.add_assoc, Nat.add_comm 1]

theorem mem_blockEntries {id : ℕ} {entry : IndexEntry} : ∀ {block : List EncodedRecord} {offset : ℕ},
    entry ∈ blockEntries id offset block → entry.shardId = id
  | record :: rest, offset, h => by
      rcases List.mem_cons.mp h with rfl | h
      · rfl
      · exact mem_blockEntries h

theorem mem_layoutIndex {entry : IndexEntry} : ∀ {blocks : List (List EncodedRecord)} {id : ℕ},
    entry ∈ layoutIndex id blocks → id ≤ entry.shardId ∧ entry.shardId < id + blocks.length
  | block :: blocks, id, h => by
      rw [List.length_cons]
      rcases List.mem_append.mp h with h | h
      · rw [mem_blockEntries h]
        omega
      · have := mem_layoutIndex h
        omega

theorem tiled_blockEntries (id : ℕ) : ∀ (block : List EncodedRecord) (offset : ℕ),
    Segments.Tiled IndexEntry.byteLen (fun start entry => entry.offset = start) offset (blockEntries id offset block)
      (offset + load EncodedRecord.size block)
  | [], offset => .nil offset
  | record :: rest, offset => by
      have hrest := tiled_blockEntries id rest (offset + record.size)
      rw [Nat.add_assoc] at hrest
      exact .cons rfl hrest

theorem map_byteLen_blockEntries (id : ℕ) : ∀ (block : List EncodedRecord) (offset : ℕ),
    (blockEntries id offset block).map IndexEntry.byteLen = block.map EncodedRecord.size
  | [], _ => rfl
  | record :: rest, _ => congrArg (record.size :: ·) (map_byteLen_blockEntries id rest _)

/-- The entries come in the order of the records. -/
theorem map_byteLen_layoutIndex : ∀ (blocks : List (List EncodedRecord)) (id : ℕ),
    (layoutIndex id blocks).map IndexEntry.byteLen = blocks.flatten.map EncodedRecord.size
  | [], _ => rfl
  | block :: blocks, id => by
      rw [layoutIndex, List.map_append, map_byteLen_blockEntries, map_byteLen_layoutIndex blocks, List.flatten_cons,
        List.map_append]

theorem pairwise_layoutIndex : ∀ (blocks : List (List EncodedRecord)) (id : ℕ),
    (layoutIndex id blocks).Pairwise fun a b => a.shardId ≤ b.shardId
  | [], _ => .nil
  | block :: blocks, id => by
      refine List.pairwise_append.mpr ⟨?_, pairwise_layoutIndex blocks (id + 1), fun a ha b hb => ?_⟩
      · exact List.pairwise_of_forall_mem_list fun a ha b hb => by
          rw [mem_blockEntries ha, mem_blockEntries hb]
      · rw [mem_blockEntries ha]
        exact (Nat.le_succ id).trans (mem_layoutIndex hb).1

theorem filter_layoutIndex : ∀ {blocks : List (List EncodedRecord)} {id i : ℕ} {block : List EncodedRecord},
    blocks[i]? = some block →
    (layoutIndex id blocks).filter (fun entry => entry.shardId = id + i) = blockEntries (id + i) 0 block
  | first :: blocks, id, 0, block, h => by
      obtain rfl : first = block := by simpa using h
      rw [layoutIndex, List.filter_append, Nat.add_zero, List.filter_eq_self.mpr, List.filter_eq_nil_iff.mpr,
        List.append_nil]
      · intro entry hentry
        have := (mem_layoutIndex hentry).1
        simpa using (by omega : entry.shardId ≠ id)
      · intro entry hentry
        simpa using mem_blockEntries hentry
  | first :: blocks, id, i + 1, block, h => by
      have hrest : (layoutIndex (id + 1) blocks).filter (fun entry => entry.shardId = id + 1 + i) =
          blockEntries (id + 1 + i) 0 block := filter_layoutIndex (by simpa using h)
      have hi : id + (i + 1) = id + 1 + i := by omega
      rw [layoutIndex, List.filter_append, hi, hrest, List.filter_eq_nil_iff.mpr, List.nil_append]
      intro entry hentry
      have := mem_blockEntries hentry
      simpa using (by omega : entry.shardId ≠ id + 1 + i)

/-! ### Builders and packings -/

section builder

variable {L : StorageLib}

/-- The builder has written the records of a packing. -/
structure Lays (L : StorageLib) (b : CacheBuilder) (state : List (List EncodedRecord) × List EncodedRecord) : Prop where
  shards : b.shards = state.1.mapIdx fun i block => (shardOf i block).finish L b.shardCompression
  current : b.currentShard = shardOf state.1.length state.2
  index : b.index = layoutIndex 0 (blocks state)

theorem writePayload_shardOf {id : ℕ} {block : List EncodedRecord} {record : EncodedRecord} {shard : OpenShard}
    {entry : IndexEntry}
    (h : (shardOf id block).writePayload record.bytes record.uncompressedByteLen = .ok (shard, entry)) :
    shard = shardOf id (block ++ [record]) ∧ entry = ⟨id, load EncodedRecord.size block, record.size⟩ := by
  obtain ⟨dataLen, hdata, h⟩ := bind_eq_ok h
  obtain ⟨byteLen, hbyte, h⟩ := bind_eq_ok h
  obtain ⟨uncompressed, hun, h⟩ := bind_eq_ok h
  obtain ⟨rfl, -⟩ := lengthU64_ok hdata
  obtain ⟨-, rfl⟩ := checkedAdd_eq_some.mp (okOr_eq_ok.mp hbyte)
  obtain ⟨-, rfl⟩ := checkedAdd_eq_some.mp (okOr_eq_ok.mp hun)
  cases h
  refine ⟨?_, rfl⟩
  have hbytes : (block ++ [record]).flatMap EncodedRecord.bytes = block.flatMap EncodedRecord.bytes ++ record.bytes := by
    rw [List.flatMap_append, List.flatMap_singleton]
  simp only [shardOf, hbytes, load_append]
  rfl

/-- Rotation closes the open block where `place` does. -/
theorem Lays.rotate {b b' : CacheBuilder} {closed : List (List EncodedRecord)} {last : List EncodedRecord} {len : ℕ}
    (h : Lays L b (closed, last)) (hrotate : b.rotateShardIfNeeded L len = (b', .ok ())) :
    b'.maxShardBytes = b.maxShardBytes ∧ b'.shardCompression = b.shardCompression ∧ b'.index = b.index ∧
    ((load EncodedRecord.size last = 0 ∨ len ≤ b.maxShardBytes - load EncodedRecord.size last) ∧
        Lays L b' (closed, last) ∨
      ¬ (load EncodedRecord.size last = 0 ∨ len ≤ b.maxShardBytes - load EncodedRecord.size last) ∧
        b'.shards = (closed ++ [last]).mapIdx (fun i block => (shardOf i block).finish L b'.shardCompression) ∧
        b'.currentShard = shardOf (closed.length + 1) []) := by
  have hlen : b.currentShard.byteLen = load EncodedRecord.size last := by rw [h.current]; rfl
  have hid : b.currentShard.id = closed.length := by rw [h.current]; rfl
  unfold CacheBuilder.rotateShardIfNeeded at hrotate
  rw [hlen] at hrotate
  split_ifs at hrotate with hempty hroom
  · cases hrotate
    exact ⟨rfl, rfl, rfl, .inl ⟨.inl hempty, h⟩⟩
  · cases hrotate
    exact ⟨rfl, rfl, rfl, .inl ⟨.inr hroom, h⟩⟩
  · cases hnext : checkedAdd b.currentShard.id 1 with
    | none =>
        rw [hnext] at hrotate
        cases hrotate
    | some nextId =>
        obtain ⟨-, rfl⟩ := checkedAdd_eq_some.mp hnext
        rw [hnext] at hrotate
        cases hrotate
        refine ⟨rfl, rfl, rfl, .inr ⟨fun hor => hor.elim hempty hroom, ?_, ?_⟩⟩
        · rw [List.mapIdx_append, List.mapIdx_singleton, Nat.zero_add]
          show b.shards ++ [b.currentShard.finish L b.shardCompression] = _
          rw [h.shards, h.current]
        · show OpenShard.create (b.currentShard.id + 1) = _
          rw [hid]
          rfl

theorem Lays.pushRecord {b b' : CacheBuilder} {state : List (List EncodedRecord) × List EncodedRecord} {row : Row}
    {record : EncodedRecord} (h : Lays L b state) (hpush : b.pushRecord L row record = (b', .ok ())) :
    Lays L b' (place EncodedRecord.size b.maxShardBytes state record) ∧ b'.maxShardBytes = b.maxShardBytes ∧
      b'.shardCompression = b.shardCompression := by
  obtain ⟨closed, last⟩ := state
  unfold CacheBuilder.pushRecord at hpush
  rcases hrotate : b.rotateShardIfNeeded L record.bytes.length with ⟨c, result⟩
  rw [hrotate] at hpush
  cases result with
  | error error => cases hpush
  | ok _ =>
      simp only at hpush
      obtain ⟨hmax, hcompression, hindex, hcases⟩ := h.rotate hrotate
      cases hw : c.currentShard.writePayload record.bytes record.uncompressedByteLen with
      | error error =>
          rw [hw] at hpush
          cases hpush
      | ok written =>
          obtain ⟨shard, entry⟩ := written
          rw [hw] at hpush
          cases hpush
          rcases hcases with ⟨hroom, hc⟩ | ⟨hfull, hshards, hcurrent⟩
          · rw [hc.current] at hw
            obtain ⟨rfl, rfl⟩ := writePayload_shardOf hw
            have hplace : place EncodedRecord.size b.maxShardBytes (closed, last) record = (closed, last ++ [record]) :=
              if_pos hroom
            refine ⟨?_, hmax, hcompression⟩
            rw [hplace]
            refine ⟨hc.shards, rfl, ?_⟩
            simp only [hc.index, blocks, layoutIndex_append, layoutIndex, List.append_nil, blockEntries_append,
              Nat.zero_add, List.append_assoc, blockEntries]
          · rw [hcurrent] at hw
            obtain ⟨rfl, rfl⟩ := writePayload_shardOf hw
            have hplace : place EncodedRecord.size b.maxShardBytes (closed, last) record = (closed ++ [last], [record]) :=
              if_neg hfull
            refine ⟨?_, hmax, hcompression⟩
            rw [hplace]
            refine ⟨hshards, by rw [List.length_append]; rfl, ?_⟩
            simp only [hindex, h.index, blocks, layoutIndex_append _ [[record]], layoutIndex, List.append_nil,
              List.length_append, List.length_singleton, Nat.zero_add, blockEntries]
            rfl

theorem pushSample_record {b b' : CacheBuilder} {data : Bytes} {metadata : MetadataMap}
    (h : b.pushSample L data metadata = (b', .ok ())) : ∃ schema row record,
      encodeStoredRecord L data schema row b.shardCompression = .ok record ∧
      ({ b with schema } : CacheBuilder).pushRecord L row record = (b', .ok ()) := by
  unfold CacheBuilder.pushSample at h
  rcases hv : CacheBuilder.validateMetadata b.schema metadata with ⟨schema, result⟩
  rw [hv] at h
  cases result with
  | error error => cases h
  | ok row =>
      simp only at h
      cases henc : encodeStoredRecord L data schema row b.shardCompression with
      | error error =>
          rw [henc] at h
          cases h
      | ok record =>
          rw [henc] at h
          exact ⟨schema, row, record, henc, h⟩

/-- The record of a sample. -/
def Encodes (L : StorageLib) (compression : ShardCompression) (sample : Bytes × MetadataMap) (record : EncodedRecord) :
    Prop :=
  ∃ schema row, encodeStoredRecord L sample.1 schema row compression = .ok record

/-- **Refinement.**  A run of accepted samples packs their records. -/
theorem Lays.pushAll : ∀ {samples : List (Bytes × MetadataMap)} {b b' : CacheBuilder}
    {state : List (List EncodedRecord) × List EncodedRecord}, Lays L b state →
    b.pushAll L samples = (b', .ok ()) → ∃ records, List.Forall₂ (Encodes L b.shardCompression) samples records ∧
      Lays L b' (pack EncodedRecord.size b.maxShardBytes state records) ∧ b'.shardCompression = b.shardCompression
  | [], b, b', state, h, hpush => by
      cases hpush
      exact ⟨[], .nil, h, rfl⟩
  | (data, metadata) :: rest, b, b', state, h, hpush => by
      unfold CacheBuilder.pushAll at hpush
      rcases hone : b.pushSample L data metadata with ⟨c, result⟩
      rw [hone] at hpush
      cases result with
      | error error => cases hpush
      | ok _ =>
          obtain ⟨schema, row, record, henc, hrecord⟩ := pushSample_record hone
          have hfixed : Lays L { b with schema } state := ⟨h.shards, h.current, h.index⟩
          obtain ⟨hc, hmax, hcompression⟩ := hfixed.pushRecord hrecord
          obtain ⟨records, hall, hlays, hcompression'⟩ := hc.pushAll hpush
          refine ⟨record :: records, .cons ⟨schema, row, henc⟩ ?_, ?_, hcompression'.trans hcompression⟩
          · rw [hcompression] at hall
            exact hall
          · rw [hmax] at hlays
            exact hlays

theorem Lays.create {present parents : Bool} {path : Path} {sourceName : String} {maxShardBytes : ℕ}
    {compression : ShardCompression} {b : CacheBuilder}
    (h : CacheBuilder.create present parents path sourceName maxShardBytes compression = .ok b) :
    Lays L b ([], []) ∧ b.maxShardBytes = maxShardBytes ∧ b.shardCompression = compression := by
  unfold CacheBuilder.create at h
  split_ifs at h
  cases h
  exact ⟨⟨rfl, rfl, rfl⟩, rfl, rfl⟩

/-! ### Records are never empty -/

theorem length_encodeSampleRecord {payload bytes : Bytes} {schema : List MetadataField} {row : Row}
    (h : encodeSampleRecord L payload schema row = .ok bytes) : 8 ≤ bytes.length := by
  obtain ⟨object, -, h⟩ := bind_eq_ok h
  obtain ⟨json, -, h⟩ := bind_eq_ok h
  obtain ⟨len, -, h⟩ := bind_eq_ok h
  obtain ⟨capacity, -, h⟩ := bind_eq_ok h
  cases h
  rw [List.length_append, List.length_append, Bytes.length_ofNatLe]
  omega

theorem length_compressPayload {C : CodecLib} (hC : C.Lawful) {data out : Bytes} {compression : ShardCompression}
    (h : compressPayload C data compression = .ok out) (hdata : data ≠ []) : 0 < out.length := by
  have hprefix : ∀ {message : String} {size body : Bytes}, sizePrefix data message = .ok size →
      0 < (size ++ body).length := by
    intro message size body hsize
    rw [(sizePrefix_ok hsize).2, List.length_append, Bytes.length_ofNatLe]
    omega
  have hrecord : ∀ {mode : Lz4Mode}, compressRecord C data mode = .ok out → 0 < out.length := by
    intro mode hout
    obtain ⟨bound, -, hout⟩ := bind_eq_ok hout
    obtain ⟨-, body, rfl, -⟩ := hC.lz4 _ _ _ (codecResult_ok hout)
    rw [List.length_append, Bytes.length_ofNatLe]
    omega
  have hplain : 0 < data.length := List.length_pos_iff.mpr hdata
  cases compression with
  | none =>
      cases h
      exact hplain
  | legacy algo ratio =>
      cases algo with
      | none =>
          cases h
          exact hplain
      | lz4 =>
          obtain ⟨size, hsize, h⟩ := bind_eq_ok h
          obtain ⟨body, -, h⟩ := bind_eq_ok h
          cases h
          exact hprefix hsize
      | brotli =>
          obtain ⟨size, hsize, h⟩ := bind_eq_ok h
          obtain ⟨body, -, h⟩ := bind_eq_ok h
          cases h
          exact hprefix hsize
  | lz4Fast acceleration => exact hrecord h
  | lz4HC level => exact hrecord h
  | brotli level =>
      obtain ⟨size, hsize, h⟩ := bind_eq_ok h
      obtain ⟨body, -, h⟩ := bind_eq_ok h
      cases h
      exact hprefix hsize

theorem Encodes.size_pos (hC : L.codec.Lawful) {compression : ShardCompression} {sample : Bytes × MetadataMap}
    {record : EncodedRecord} (h : Encodes L compression sample record) : 0 < record.size := by
  obtain ⟨schema, row, h⟩ := h
  unfold encodeStoredRecord at h
  split_ifs at h
  · obtain ⟨bytes, hbytes, h⟩ := bind_eq_ok h
    obtain ⟨len, -, h⟩ := bind_eq_ok h
    obtain ⟨out, hout, h⟩ := bind_eq_ok h
    cases h
    have hlen := length_encodeSampleRecord hbytes
    exact length_compressPayload hC hout (List.length_pos_iff.mp (by omega))
  · obtain ⟨len, -, h⟩ := bind_eq_ok h
    obtain ⟨payload, -, h⟩ := bind_eq_ok h
    obtain ⟨bytes, hbytes, h⟩ := bind_eq_ok h
    cases h
    have hlen := length_encodeSampleRecord hbytes
    show 0 < bytes.length
    omega

/-! ### Finished caches -/

/-- Shard `i` of a finished cache, which holds the records of a block. -/
structure HoldsBlock (maxShardBytes i : ℕ) (block : List EncodedRecord) (index : List IndexEntry)
    (shard : ShardManifest) : Prop where
  name : shard.name = shardName i
  nonempty : block ≠ [] ∧ 0 < shard.byteLen
  byteLen : shard.byteLen = (block.map EncodedRecord.size).sum
  /-- The entries of the shard tile it. -/
  tiled : Segments.Tiled IndexEntry.byteLen (fun start entry => entry.offset = start) 0
    (index.filter fun entry => entry.shardId = i) shard.byteLen
  sizes : (index.filter fun entry => entry.shardId = i).map IndexEntry.byteLen = block.map EncodedRecord.size
  fits : shard.byteLen ≤ maxShardBytes ∨ block.length = 1
  uncompressed : shard.uncompressedByteLen = (block.map EncodedRecord.uncompressedByteLen).sum
  bounds : ∀ record ∈ block, record.uncompressedByteLen ≤ shard.uncompressedByteLen

theorem fields_manifestOf (L : StorageLib) (b : CacheBuilder) (metadataSha256 indexSha256 : String)
    (shards : List ShardManifest) : (b.manifestOf L metadataSha256 indexSha256 shards).fields.shards = shards := by
  unfold CacheBuilder.manifestOf
  split_ifs <;> rfl

theorem holdsBlock {maxShardBytes : ℕ} {compression : ShardCompression}
    {state : List (List EncodedRecord) × List EncodedRecord} (hgreedy : Greedy EncodedRecord.size maxShardBytes state)
    (hitems : (blocks state).flatten ≠ []) {i : ℕ} {block : List EncodedRecord} (hblock : (blocks state)[i]? = some block) :
    HoldsBlock maxShardBytes i block (layoutIndex 0 (blocks state)) ((shardOf i block).finish L compression) := by
  have hmem := List.mem_of_getElem? hblock
  have hne := hgreedy.blocks_ne_nil hitems block hmem
  have hfilter : (layoutIndex 0 (blocks state)).filter (fun entry => entry.shardId = 0 + i) =
      blockEntries (0 + i) 0 block := filter_layoutIndex hblock
  rw [Nat.zero_add] at hfilter
  refine ⟨rfl, ⟨hne, load_pos (hgreedy.pos block hmem) hne⟩, rfl, ?_, ?_, hgreedy.fits block hmem, rfl,
    fun record hrecord => size_le_load hrecord⟩
  · have htiled := tiled_blockEntries i block 0
    rw [Nat.zero_add] at htiled
    rw [hfilter]
    exact htiled
  · rw [hfilter, map_byteLen_blockEntries]

/-- **Shard layout.**  Every cache that is finished after a run of accepted samples has their records, in order, in
blocks.  The index names them in that order with shard numbers that never fall; block `i` is shard `i` of the manifest,
tiled by its entries, not empty, and within the limit unless it is a single record; the first record of a shard did
not fit the shard before it; and the uncompressed length of a shard is the sum of what its records were compressed
from. -/
theorem rotation_layout (hC : L.codec.Lawful) {present parents : Bool} {path : Path} {sourceName : String}
    {maxShardBytes : ℕ} {compression : ShardCompression} {b₀ b : CacheBuilder}
    (hcreate : CacheBuilder.create present parents path sourceName maxShardBytes compression = .ok b₀)
    {samples : List (Bytes × MetadataMap)} (hpush : b₀.pushAll L samples = (b, .ok ())) {dir : FileTree}
    {manifest : Manifest} (hfinish : b.finish L = (dir, .ok manifest)) :
    ∃ (index : List IndexEntry) (blocks : List (List EncodedRecord)),
      dir.read ["index.bin"] = some (indexBytes index) ∧
      List.Forall₂ (Encodes L compression) samples blocks.flatten ∧
      index.map IndexEntry.byteLen = blocks.flatten.map EncodedRecord.size ∧
      index.Pairwise (fun a b => a.shardId ≤ b.shardId) ∧
      manifest.fields.shards.length = blocks.length ∧
      (∀ i block shard, blocks[i]? = some block → manifest.fields.shards[i]? = some shard →
        HoldsBlock maxShardBytes i block index shard) ∧
      ∀ i shard next, manifest.fields.shards[i]? = some shard → blocks[i + 1]? = some next →
        ∃ first rest, next = first :: rest ∧ maxShardBytes < shard.byteLen + first.size := by
  obtain ⟨hlays₀, hmax, hcompression₀⟩ := Lays.create (L := L) hcreate
  obtain ⟨records, hall, hlays, hcompression⟩ := hlays₀.pushAll hpush
  rw [hcompression₀] at hall
  rw [hmax] at hlays
  have hgreedy : Greedy EncodedRecord.size maxShardBytes (pack EncodedRecord.size maxShardBytes ([], []) records) := by
    refine greedy_nil.pack fun record hrecord => ?_
    obtain ⟨i, hi, rfl⟩ := List.getElem_of_mem hrecord
    have hsample := (List.forall₂_iff_get.mp hall).2 i (by rw [hall.length_eq]; exact hi) hi
    exact Encodes.size_pos hC hsample
  have hflatten : (blocks (pack EncodedRecord.size maxShardBytes ([], []) records)).flatten = records :=
    flatten_pack records ([], [])
  generalize pack EncodedRecord.size maxShardBytes ([], []) records = state at hlays hgreedy hflatten
  obtain ⟨h, hinv, -, -⟩ := (CacheBuilder.inv_create (L := L) hcreate).1.pushAll hpush
  obtain ⟨metadata, hfin⟩ := hinv.finish hfinish
  have hshards : manifest.fields.shards =
      (blocks state).mapIdx fun i block => (shardOf i block).finish L b.shardCompression := by
    rw [hfin.manifest_eq, fields_manifestOf, List.map_append, ← hinv.shards, hlays.shards, List.map_singleton,
      hlays.current, blocks, List.mapIdx_append, List.mapIdx_singleton, Nat.zero_add]
  have hitems : (blocks state).flatten ≠ [] := by
    intro hnil
    have hindex := map_byteLen_layoutIndex (blocks state) 0
    rw [hnil, List.map_nil, List.map_eq_nil_iff, ← hlays.index, hinv.index, List.map_eq_nil_iff] at hindex
    exact hfin.nonempty hindex
  have hshard : ∀ i shard, manifest.fields.shards[i]? = some shard →
      ∃ block, (blocks state)[i]? = some block ∧ shard = (shardOf i block).finish L b.shardCompression := by
    intro i shard hi
    rw [hshards, List.getElem?_mapIdx, Option.map_eq_some_iff] at hi
    obtain ⟨block, hblock, rfl⟩ := hi
    exact ⟨block, hblock, rfl⟩
  refine ⟨layoutIndex 0 (blocks state), blocks state, ?_, ?_, map_byteLen_layoutIndex _ _, pairwise_layoutIndex _ _, ?_,
    fun i block shard hblock hi => ?_, fun i shard next hi hnext => ?_⟩
  · rw [← hlays.index]
    exact hfin.indexFile
  · rw [hflatten]
    exact hall
  · rw [hshards, List.length_mapIdx]
  · obtain ⟨block', hblock', rfl⟩ := hshard i shard hi
    obtain rfl : block = block' := Option.some.inj (hblock.symm.trans hblock')
    exact holdsBlock hgreedy hitems hblock
  · obtain ⟨block, hblock, rfl⟩ := hshard i shard hi
    exact hgreedy.noRoom i block next hblock hnext

end builder

/-- Two records that are larger than a shard may be: each has a shard of its own. -/
theorem rotation_layout_two_shards : ∃ (index : List IndexEntry) (blocks : List (List EncodedRecord)),
    TwoShards.dir.read ["index.bin"] = some (indexBytes index) ∧ blocks.length = 2 ∧
    (∀ i block shard, blocks[i]? = some block → TwoShards.manifest.fields.shards[i]? = some shard →
      HoldsBlock 1 i block index shard) ∧
    ∀ i shard next, TwoShards.manifest.fields.shards[i]? = some shard → blocks[i + 1]? = some next →
      ∃ first rest, next = first :: rest ∧ 1 < shard.byteLen + first.size := by
  have hcreate : CacheBuilder.create false true ["c"] "s" 1 .none = .ok _ := rfl
  obtain ⟨index, blocks, hindex, -, -, -, hlen, hholds, hnext⟩ := rotation_layout TwoShards.lawful_lib.codec hcreate
    (TwoShards.pushAll_eq hcreate) TwoShards.finish_eq
  exact ⟨index, blocks, hindex, hlen.symm, hholds, hnext⟩

end DatasetRt
