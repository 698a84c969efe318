import DatasetRt.Lib.Guarded
import DatasetRt.LoadedCache

/-! # Mapped metadata

`MappedMetadataReader` (`arrow_metadata/mapped.rs`) reads `metadata.arrow` in place.  The end of the file says how long
the footer is, the footer says where the blocks of the dictionaries and of the batches are, and none of these numbers
need be right.  `block_buffer` checks a block before the mapping is sliced; a slice that is not in the mapping is a
panic, and some of the slices are taken where no panic is caught.  The accesses are these slices.

The Arrow library is a parameter: what it reads from a footer is arbitrary, and its calls return, fail or panic. -/

namespace DatasetRt

/-- A `Block` of the footer. -/
structure Block where
  offset : BitVec 64
  metaDataLength : BitVec 32
  bodyLength : BitVec 64

/-- The parts of a footer; its schema is not decoded yet. -/
structure Footer (S V : Type) where
  version : V
  schema : Option S
  dictionaries : Option (List Block)
  recordBatches : Option (List Block)

/-- `arrow_ipc`.  An outer error is a panic. -/
structure IpcLib (S V D : Type) where
  readFooterLength : Bytes → Except String ℕ
  rootAsFooter : Bytes → Except String (Footer S V)
  fbToSchema : S → Except String (List Field)
  newDecoder : List Field → V → D
  readDictionary : D → Block → Bytes → Except String (Except String D)
  readRecordBatch : D → Block → Bytes → Except String (Except String (Option RecordBatch))
  slicePanic : String

namespace Block

/-- How many bytes a block has. -/
def len (block : Block) : ℕ := block.metaDataLength.toNat + block.bodyLength.toNat

/-- The block lies in the data, between the magic bytes and `dataEnd`. -/
structure Inside (block : Block) (dataEnd : ℕ) : Prop where
  offset : 0 ≤ block.offset.toInt
  metaDataLength : 0 ≤ block.metaDataLength.toInt
  bodyLength : 0 ≤ block.bodyLength.toInt
  start : 8 ≤ block.offset.toNat
  stop : block.offset.toNat + block.len ≤ dataEnd
  fits : block.offset.toNat + block.len < wordSize

end Block

/-- A slice of the mapping. -/
structure MappedSlice where
  start : ℕ
  stop : ℕ

structure MappedMetadataReader (D : Type) where
  buffer : Bytes
  schema : List Field
  decoder : D
  blocks : List Block

/-- `invalid_footer`. -/
def invalidFooter : CacheError := .invalidCache "invalid metadata Arrow footer"

/-- `usize::try_from` of a signed integer. -/
def tryUsize {w : ℕ} (n : BitVec w) : CacheResult ℕ := if 0 ≤ n.toInt then .ok n.toNat else .error invalidFooter

def checkedSub (a b : ℕ) : Option ℕ := if b ≤ a then some (a - b) else none

/-- `native_result` around a call of the library. -/
def nativeCall {α : Type} (context : String) : Except String (Except String α) → CacheResult α
  | .error message => .error (.nativeFailure s!"{context}: {message}")
  | .ok result => arrowResult result

/-- The first bytes of an Arrow file. -/
def arrowMagic : Bytes := [65, 82, 82, 79, 87, 49]

namespace MappedMetadataReader

open Guarded

abbrev GuardedMap (α : Type) := Guarded MappedSlice CacheError α

/-- `Buffer::slice_with_length`. -/
def sliceWithLength (buffer : Bytes) (offset len : ℕ) : GuardedMap Bytes :=
  if offset + len ≤ buffer.length then do
    access ⟨offset, offset + len⟩
    pure ((buffer.drop offset).take len)
  else panicked .outOfRange

/-- `block_buffer`. -/
def blockBuffer (buffer : Bytes) (block : Block) (dataEnd : ℕ) : GuardedMap Bytes := do
  let offset ← ofResult (tryUsize block.offset)
  let metadataLen ← ofResult (tryUsize block.metaDataLength)
  let bodyLen ← ofResult (tryUsize block.bodyLength)
  let len ← ofResult (okOr (checkedAdd metadataLen bodyLen) invalidFooter)
  let stop ← ofResult (okOr (checkedAdd offset len) invalidFooter)
  if offset < 8 ∨ dataEnd < stop then ofResult (.error invalidFooter)
  else sliceWithLength buffer offset len

section library

variable {S V D : Type} (I : IpcLib S V D)

/-- The loop over the dictionaries. -/
def readDictionaries (buffer : Bytes) (footerStart : ℕ) : D → List Block → GuardedMap D
  | decoder, [] => pure decoder
  | decoder, block :: blocks => do
      let decoder ← catchUnwind (.nativeFailure s!"metadata Arrow dictionary: {I.slicePanic}") do
        let bytes ← blockBuffer buffer block footerStart
        ofResult (nativeCall "metadata Arrow dictionary" (I.readDictionary decoder block bytes))
      readDictionaries buffer footerStart decoder blocks

/-- The loop that checks the blocks of the batches. -/
def checkBlocks (buffer : Bytes) (footerStart : ℕ) : List Block → GuardedMap Unit
  | [] => pure ()
  | block :: blocks => do
      let _ ← blockBuffer buffer block footerStart
      checkBlocks buffer footerStart blocks

/-- `open`, with the file mapped. -/
def openBuffer (buffer : Bytes) : GuardedMap (MappedMetadataReader D) :=
  if ¬ arrowMagic.isPrefixOf buffer then ofResult (.error invalidFooter)
  else do
    let trailerStart ← ofResult (okOr (checkedSub buffer.length 10) invalidFooter)
    let trailer ← ofResult (okOr (buffer.slice trailerStart buffer.length) invalidFooter)
    let footerLen ← ofResult (arrowResult (I.readFooterLength trailer))
    let footerStart ← ofResult (okOr (checkedSub trailerStart footerLen) invalidFooter)
    let footerBytes ← ofResult (okOr (buffer.slice footerStart trailerStart) invalidFooter)
    let footer ← ofResult ((I.rootAsFooter footerBytes).mapError .invalidCache)
    let schema ← ofResult do
      let schema ← okOr footer.schema invalidFooter
      nativeCall "metadata Arrow schema" ((I.fbToSchema schema).map .ok)
    let decoder ← readDictionaries I buffer footerStart (I.newDecoder schema footer.version)
      (footer.dictionaries.getD [])
    let blocks ← ofResult (okOr footer.recordBatches invalidFooter)
    checkBlocks buffer footerStart blocks
    pure ⟨buffer, schema, decoder, blocks⟩

def openFile (fs : FileTree) (path : Path) : GuardedMap (MappedMetadataReader D) := do
  let buffer ← ofResult (DatasetRt.openFile fs path)
  openBuffer I buffer

/-- What an iterator returns for an error. -/
def parseError (error : CacheError) : String := "Parser error: " ++ error.toString

/-- The batch of a block, once its bytes are there. -/
def decodeBlock (decoder : D) (block : Block) (bytes : CacheResult Bytes) : Except String RecordBatch := do
  let bytes ← bytes.mapError parseError
  let batch ← (nativeCall "metadata Arrow record batch" (I.readRecordBatch decoder block bytes)).mapError parseError
  match batch with
  | some batch => .ok batch
  | none => .error "Parser error: missing metadata record batch"

/-- `Iterator::next`. -/
def next (reader : MappedMetadataReader D) :
    GuardedMap (MappedMetadataReader D × Option (Except String RecordBatch)) :=
  match reader.blocks with
  | [] => pure (reader, none)
  | block :: blocks => do
      let bytes ← attempt (blockBuffer reader.buffer block reader.buffer.length)
      let result := decodeBlock I reader.decoder block bytes
      pure ({ reader with blocks := if result.isOk then blocks else [] }, some result)

/-- What `n` calls of `next` return. -/
def nexts : ℕ → MappedMetadataReader D → GuardedMap (MappedMetadataReader D × List (Option (Except String RecordBatch)))
  | 0, reader => pure (reader, [])
  | n + 1, reader => do
      let (reader, result) ← next I reader
      let (reader, results) ← nexts n reader
      pure (reader, result :: results)

end library

/-! ### One block -/

section block

variable {buffer bytes : Bytes} {block : Block} {dataEnd : ℕ} {P : MappedSlice → Prop}

/-- A block is checked, and then it is a slice. -/
theorem blockBuffer_inside (h : block.Inside dataEnd) :
    blockBuffer buffer block dataEnd = sliceWithLength buffer block.offset.toNat block.len := by
  have hfits := h.fits
  have hlen : block.metaDataLength.toNat + block.bodyLength.toNat = block.len := rfl
  have hlt : block.metaDataLength.toNat + block.bodyLength.toNat < wordSize := by omega
  have hadd : checkedAdd block.metaDataLength.toNat block.bodyLength.toNat = some block.len := if_pos hlt
  have hstop : checkedAdd block.offset.toNat block.len = some (block.offset.toNat + block.len) := if_pos hfits
  have hdata : ¬ (block.offset.toNat < 8 ∨ dataEnd < block.offset.toNat + block.len) := by
    have hstart := h.start
    have hend := h.stop
    omega
  unfold blockBuffer tryUsize
  rw [if_pos h.offset, if_pos h.metaDataLength, if_pos h.bodyLength]
  simp only [ofResult_ok_bind, hadd, hstop, okOr, if_neg hdata]

theorem blockBuffer_outside (h : ¬ block.Inside dataEnd) :
    blockBuffer buffer block dataEnd = ofResult (.error invalidFooter) := by
  unfold blockBuffer tryUsize
  split_ifs with hoffset hmetadata hbody
  · simp only [ofResult_ok_bind]
    cases hadd : checkedAdd block.metaDataLength.toNat block.bodyLength.toNat with
    | none => rfl
    | some len =>
        cases hstop : checkedAdd block.offset.toNat len with
        | none => simp [okOr, hstop]
        | some stop =>
            simp only [okOr, ofResult_ok_bind, hstop]
            refine if_pos ?_
            by_contra hdata
            obtain ⟨-, rfl⟩ := checkedAdd_eq_some.mp hadd
            obtain ⟨hfits, rfl⟩ := checkedAdd_eq_some.mp hstop
            exact h ⟨hoffset, hmetadata, hbody, by omega, by unfold Block.len; omega, hfits⟩
  all_goals rfl

/-- The bytes of a block. -/
def blockBytes (buffer : Bytes) (block : Block) : Bytes := (buffer.drop block.offset.toNat).take block.len

theorem safe_blockBuffer (h : block.Inside dataEnd) (hend : dataEnd ≤ buffer.length)
    (hP : P ⟨block.offset.toNat, block.offset.toNat + block.len⟩) :
    Safe P (blockBuffer buffer block dataEnd) (.ok (blockBytes buffer block)) := by
  rw [blockBuffer_inside h, sliceWithLength, if_pos (h.stop.trans hend)]
  exact (safe_access hP).seq (safe_pure _)

theorem exists_safe_blockBuffer (hend : dataEnd ≤ buffer.length)
    (hP : ∀ slice : MappedSlice, 8 ≤ slice.start → slice.start ≤ slice.stop → slice.stop ≤ dataEnd → P slice) :
    ∃ r, Safe P (blockBuffer buffer block dataEnd) r := by
  by_cases h : block.Inside dataEnd
  · exact ⟨_, safe_blockBuffer h hend (hP _ h.start (Nat.le_add_right _ _) h.stop)⟩
  · rw [blockBuffer_outside h]
    exact ⟨_, safe_ofResult _⟩

theorem inside_of_blockBuffer (h : (blockBuffer buffer block dataEnd).result = .ok (.ok bytes)) :
    block.Inside dataEnd := by
  by_contra hout
  rw [blockBuffer_outside hout] at h
  cases h

end block

/-! ### Opening -/

section reader

variable {S V D : Type} (I : IpcLib S V D) {buffer : Bytes} {footerStart : ℕ} {P : MappedSlice → Prop}

theorem exists_safe_readDictionaries (hend : footerStart ≤ buffer.length)
    (hP : ∀ slice : MappedSlice, 8 ≤ slice.start → slice.start ≤ slice.stop → slice.stop ≤ footerStart → P slice)
    (decoder : D) (blocks : List Block) : ∃ r, Safe P (readDictionaries I buffer footerStart decoder blocks) r := by
  induction blocks generalizing decoder with
  | nil => exact ⟨_, safe_pure _⟩
  | cons block blocks ih =>
      refine exists_safe_bind ?_ fun decoder' _ => ih decoder'
      obtain ⟨r, hr⟩ := exists_safe_bind (f := fun bytes =>
        ofResult (nativeCall "metadata Arrow dictionary" (I.readDictionary decoder block bytes)))
        (exists_safe_blockBuffer hend hP) fun bytes _ => ⟨_, safe_ofResult _⟩
      exact ⟨r, hr.catchUnwind _⟩

theorem exists_safe_checkBlocks (hend : footerStart ≤ buffer.length)
    (hP : ∀ slice : MappedSlice, 8 ≤ slice.start → slice.start ≤ slice.stop → slice.stop ≤ footerStart → P slice)
    (blocks : List Block) : ∃ r, Safe P (checkBlocks buffer footerStart blocks) r := by
  induction blocks with
  | nil => exact ⟨_, safe_pure _⟩
  | cons block blocks ih => exact exists_safe_bind (exists_safe_blockBuffer hend hP) fun _ _ => ih

theorem inside_of_checkBlocks {blocks : List Block} (h : (checkBlocks buffer footerStart blocks).result = .ok (.ok ())) :
    ∀ block ∈ blocks, block.Inside footerStart := by
  induction blocks with
  | nil => exact fun _ hblock => absurd hblock List.not_mem_nil
  | cons block blocks ih =>
      obtain ⟨bytes, hbytes, hrest, -⟩ := exists_of_bind h
      intro one hone
      rcases List.mem_cons.mp hone with rfl | hone
      · exact inside_of_blockBuffer hbytes
      · exact ih hrest one hone

/-- What `footer_start` is: the footer ends before the last ten bytes. -/
def FooterAt (buffer : Bytes) (footerStart : ℕ) : Prop :=
  ∃ footerLen, I.readFooterLength (buffer.drop (buffer.length - 10)) = .ok footerLen ∧
    footerStart + footerLen + 10 = buffer.length

/-- A slice of the data, between the magic bytes and the footer. -/
def InData (buffer : Bytes) (slice : MappedSlice) : Prop :=
  ∃ footerStart, FooterAt I buffer footerStart ∧ 8 ≤ slice.start ∧ slice.start ≤ slice.stop ∧ slice.stop ≤ footerStart

theorem ofResult_ok {α : Type} {r : CacheResult α} {a : α} (h : (ofResult r : GuardedMap α).result = .ok (.ok a)) :
    r = .ok a := Except.ok.inj h

/-- The end of the file says where the footer is. -/
theorem footerAt_of_open {trailerStart footerLen : ℕ} {trailer : Bytes}
    (htrailerStart : okOr (checkedSub buffer.length 10) invalidFooter = .ok trailerStart)
    (htrailer : okOr (buffer.slice trailerStart buffer.length) invalidFooter = .ok trailer)
    (hlen : arrowResult (I.readFooterLength trailer) = .ok footerLen)
    (hstart : okOr (checkedSub trailerStart footerLen) invalidFooter = .ok footerStart) :
    FooterAt I buffer footerStart := by
  rw [okOr_eq_ok] at htrailerStart htrailer hstart
  unfold checkedSub at htrailerStart hstart
  unfold Bytes.slice at htrailer
  split_ifs at htrailerStart htrailer hstart with hlong hwhole hfits
  rw [Option.some.injEq] at htrailerStart htrailer hstart
  subst htrailerStart
  have hdrop : trailer = buffer.drop (buffer.length - 10) := by
    rw [← htrailer]
    exact List.take_of_length_le (by rw [List.length_drop])
  subst hdrop
  refine ⟨footerLen, ?_, by omega⟩
  cases hcall : I.readFooterLength (buffer.drop (buffer.length - 10)) with
  | error message => simp [hcall, arrowResult] at hlen
  | ok len =>
      rw [hcall, arrowResult, Except.ok.injEq] at hlen
      rw [hlen]

/-- Opening does not panic, and slices only the data. -/
theorem exists_safe_openBuffer (buffer : Bytes) : ∃ r, Safe (InData I buffer) (openBuffer I buffer) r := by
  unfold openBuffer
  split_ifs
  swap
  · exact ⟨_, safe_ofResult _⟩
  refine exists_safe_bind ⟨_, safe_ofResult _⟩ fun trailerStart htrailerStart => ?_
  refine exists_safe_bind ⟨_, safe_ofResult _⟩ fun trailer htrailer => ?_
  refine exists_safe_bind ⟨_, safe_ofResult _⟩ fun footerLen hlen => ?_
  refine exists_safe_bind ⟨_, safe_ofResult _⟩ fun footerStart hstart => ?_
  refine exists_safe_bind ⟨_, safe_ofResult _⟩ fun footerBytes _ => ?_
  refine exists_safe_bind ⟨_, safe_ofResult _⟩ fun footer _ => ?_
  refine exists_safe_bind ⟨_, safe_ofResult _⟩ fun schema _ => ?_
  have hfooter := footerAt_of_open I (ofResult_ok htrailerStart) (ofResult_ok htrailer) (ofResult_ok hlen)
    (ofResult_ok hstart)
  have hend : footerStart ≤ buffer.length := by
    obtain ⟨len, -, hsum⟩ := hfooter
    omega
  have hdata : ∀ slice : MappedSlice, 8 ≤ slice.start → slice.start ≤ slice.stop → slice.stop ≤ footerStart →
      InData I buffer slice := fun slice h₁ h₂ h₃ => ⟨footerStart, hfooter, h₁, h₂, h₃⟩
  refine exists_safe_bind (exists_safe_readDictionaries I hend hdata _ _) fun decoder _ => ?_
  refine exists_safe_bind ⟨_, safe_ofResult _⟩ fun blocks _ => ?_
  exact exists_safe_bind (exists_safe_checkBlocks hend hdata blocks) fun _ _ => ⟨_, safe_pure _⟩

/-- What an open reader keeps. -/
structure Opened (buffer : Bytes) (reader : MappedMetadataReader D) : Prop where
  mapped : reader.buffer = buffer
  inside : ∃ footerStart, FooterAt I buffer footerStart ∧ ∀ block ∈ reader.blocks, block.Inside footerStart

/-- The footer as the library reads it. -/
def HasFooter (buffer : Bytes) (footer : Footer S V) : Prop :=
  ∃ footerStart bytes, FooterAt I buffer footerStart ∧ buffer.slice footerStart (buffer.length - 10) = some bytes ∧
    I.rootAsFooter bytes = .ok footer

theorem opened_of_openBuffer {reader : MappedMetadataReader D}
    (h : (openBuffer I buffer).result = .ok (.ok reader)) : Opened I buffer reader ∧
      ∃ footer, HasFooter I buffer footer ∧ footer.recordBatches = some reader.blocks := by
  unfold openBuffer at h
  split_ifs at h
  swap
  · cases h
  obtain ⟨trailerStart, htrailerStart, h, -⟩ := exists_of_bind h
  obtain ⟨trailer, htrailer, h, -⟩ := exists_of_bind h
  obtain ⟨footerLen, hlen, h, -⟩ := exists_of_bind h
  obtain ⟨footerStart, hstart, h, -⟩ := exists_of_bind h
  obtain ⟨footerBytes, hbytes, h, -⟩ := exists_of_bind h
  obtain ⟨footer, hroot, h, -⟩ := exists_of_bind h
  obtain ⟨schema, -, h, -⟩ := exists_of_bind h
  obtain ⟨decoder, -, h, -⟩ := exists_of_bind h
  obtain ⟨blocks, hblocks, h, -⟩ := exists_of_bind h
  obtain ⟨_, hchecked, h, -⟩ := exists_of_bind h
  cases h
  have hfooter := footerAt_of_open I (ofResult_ok htrailerStart) (ofResult_ok htrailer) (ofResult_ok hlen)
    (ofResult_ok hstart)
  refine ⟨⟨rfl, footerStart, hfooter, inside_of_checkBlocks hchecked⟩, footer, ⟨footerStart, footerBytes, hfooter, ?_, ?_⟩,
    okOr_eq_ok.mp (ofResult_ok hblocks)⟩
  · have htrailer' := okOr_eq_ok.mp (ofResult_ok htrailerStart)
    unfold checkedSub at htrailer'
    split_ifs at htrailer'
    rw [Option.some.inj htrailer']
    exact okOr_eq_ok.mp (ofResult_ok hbytes)
  · have hroot' := ofResult_ok hroot
    cases hcall : I.rootAsFooter footerBytes with
    | error message => simp [hcall, Except.mapError] at hroot'
    | ok found =>
        rw [hcall, Except.mapError, Except.ok.injEq] at hroot'
        rw [hroot']

/-! ### Reading -/

/-- What the calls of `next` return for these blocks: the batches up to the first error. -/
def items (buffer : Bytes) (decoder : D) : List Block → List (Except String RecordBatch)
  | [] => []
  | block :: blocks =>
      let result := decodeBlock I decoder block (.ok (blockBytes buffer block))
      result :: if result.isOk then items buffer decoder blocks else []

theorem items_error {decoder : D} {blocks : List Block} {k : ℕ} {error : String}
    (h : (items I buffer decoder blocks)[k]? = some (.error error)) :
    k + 1 = (items I buffer decoder blocks).length := by
  induction blocks generalizing k with
  | nil => simp [items] at h
  | cons block blocks ih =>
      unfold items at h ⊢
      cases hdecode : decodeBlock I decoder block (.ok (blockBytes buffer block)) with
      | error message =>
          cases k with
          | zero => simp [Except.isOk, Except.toBool]
          | succ k => simp [hdecode, Except.isOk, Except.toBool] at h
      | ok batch =>
          cases k with
          | zero => simp [hdecode] at h
          | succ k =>
              simp only [hdecode, Except.isOk, Except.toBool, if_true, List.getElem?_cons_succ] at h
              simp only [Except.isOk, Except.toBool, if_true, List.length_cons]
              rw [ih h]

theorem length_items_le (decoder : D) (blocks : List Block) : (items I buffer decoder blocks).length ≤ blocks.length := by
  induction blocks with
  | nil => exact Nat.le_refl 0
  | cons block blocks ih =>
      unfold items
      simp only
      split_ifs
      · exact Nat.succ_le_succ ih
      · exact Nat.succ_le_succ (Nat.zero_le _)

theorem safe_next {reader : MappedMetadataReader D} (h : Opened I buffer reader) :
    ∃ reader', Opened I buffer reader' ∧ reader'.decoder = reader.decoder ∧
      items I buffer reader.decoder reader'.blocks = (items I buffer reader.decoder reader.blocks).drop 1 ∧
      Safe (InData I buffer) (next I reader) (.ok (reader', (items I buffer reader.decoder reader.blocks)[0]?)) := by
  obtain ⟨mapped, schema, decoder, blocks⟩ := reader
  obtain ⟨rfl, footerStart, hfooter, hinside⟩ := h
  cases blocks with
  | nil => exact ⟨_, ⟨rfl, footerStart, hfooter, hinside⟩, rfl, rfl, safe_pure _⟩
  | cons block blocks =>
      have hblock := hinside block List.mem_cons_self
      have hlen : footerStart ≤ mapped.length := by
        obtain ⟨len, -, hsum⟩ := hfooter
        simp only at hsum
        omega
      have hwide : block.Inside mapped.length := { hblock with stop := hblock.stop.trans hlen }
      have hslice : InData I mapped ⟨block.offset.toNat, block.offset.toNat + block.len⟩ :=
        ⟨footerStart, hfooter, hblock.start, Nat.le_add_right _ _, hblock.stop⟩
      have hbytes := (safe_blockBuffer hwide (Nat.le_refl _) hslice).attempt
      refine ⟨⟨mapped, schema, decoder,
          if (decodeBlock I decoder block (.ok (blockBytes mapped block))).isOk then blocks else []⟩,
        ⟨rfl, footerStart, hfooter, ?_⟩, rfl, ?_, hbytes.seq (safe_pure _)⟩
      · intro one hone
        simp only at hone
        split_ifs at hone
        · exact hinside one (List.mem_cons_of_mem _ hone)
        · cases hone
      · simp only [items, List.drop_succ_cons, List.drop_zero]
        split_ifs <;> rfl

theorem safe_nexts (n : ℕ) {reader : MappedMetadataReader D} (h : Opened I buffer reader) :
    ∃ reader', Safe (InData I buffer) (nexts I n reader)
      (.ok (reader', (List.range n).map fun k => (items I buffer reader.decoder reader.blocks)[k]?)) := by
  induction n generalizing reader with
  | zero => exact ⟨reader, safe_pure _⟩
  | succ n ih =>
      obtain ⟨reader₁, hopened, hdecoder, hitems, hfirst⟩ := safe_next I h
      obtain ⟨reader₂, hrest⟩ := ih hopened
      refine ⟨reader₂, hfirst.seq (hrest.seq ?_)⟩
      have hshift : (items I buffer reader.decoder reader.blocks)[0]? ::
          (List.range n).map (fun k => (items I buffer reader₁.decoder reader₁.blocks)[k]?) =
          (List.range (n + 1)).map fun k => (items I buffer reader.decoder reader.blocks)[k]? := by
        rw [hdecoder, hitems, List.range_succ_eq_map, List.map_cons, List.map_map]
        refine congrArg _ (List.map_congr_left fun k _ => ?_)
        rw [List.getElem?_drop, Function.comp_apply, Nat.add_comm]
      rw [← hshift]
      exact safe_pure _

/-- **Corrupt metadata files are read safely.**  Whatever a file is, whatever its footer says, and whatever the library
does: opening it does not panic, and neither do any number of calls of `next`; all slices lie between the magic bytes and
the footer.  The calls return the blocks of the footer in their order, decoded from these slices, up to the first
error, and then nothing. -/
theorem mapped_metadata_safe (buffer : Bytes) :
    (∃ r, Safe (InData I buffer) (openBuffer I buffer) r) ∧
    ∀ reader, (openBuffer I buffer).result = .ok (.ok reader) →
      (∃ footer, HasFooter I buffer footer ∧ footer.recordBatches = some reader.blocks) ∧
      (items I buffer reader.decoder reader.blocks).length ≤ reader.blocks.length ∧
      (∀ k error, (items I buffer reader.decoder reader.blocks)[k]? = some (.error error) →
        k + 1 = (items I buffer reader.decoder reader.blocks).length) ∧
      ∀ n, ∃ reader', Safe (InData I buffer) (nexts I n reader)
        (.ok (reader', (List.range n).map fun k => (items I buffer reader.decoder reader.blocks)[k]?)) := by
  refine ⟨exists_safe_openBuffer I buffer, fun reader hreader => ?_⟩
  obtain ⟨hopened, hfooter⟩ := opened_of_openBuffer I hreader
  exact ⟨hfooter, length_items_le I _ _, fun k error h => items_error I h, fun n => safe_nexts I n hopened⟩

end reader

/-! ### A file whose footer repeats a block -/

namespace TwoBlocks

/-- The decoder knows the first four bytes of the data. -/
def lib : IpcLib Unit Unit Unit where
  readFooterLength := fun _ => .ok 1
  rootAsFooter := fun _ => .ok ⟨(), some (), none, some [⟨8, 4, 0⟩, ⟨9, 2, 1⟩, ⟨8, 4, 0⟩]⟩
  fbToSchema := fun _ => .ok []
  newDecoder := fun _ _ => ()
  readDictionary := fun _ _ _ => .error "no dictionaries"
  readRecordBatch := fun _ _ bytes => if bytes = [1, 2, 3, 4] then .ok (.ok (some ⟨[], [], 0⟩)) else .error "bad block"
  slicePanic := ""

def file : Bytes := arrowMagic ++ [0, 0] ++ [1, 2, 3, 4] ++ [0] ++ List.replicate 10 0

def reader : MappedMetadataReader Unit := ⟨file, [], (), [⟨8, 4, 0⟩, ⟨9, 2, 1⟩, ⟨8, 4, 0⟩]⟩

theorem openBuffer_eq : (openBuffer lib file).result = .ok (.ok reader) := rfl

end TwoBlocks

open TwoBlocks in
/-- The second block is rejected, and the third is not read. -/
theorem mapped_metadata_safe_two_blocks : (openBuffer lib file).result = .ok (.ok reader) ∧
    ∃ reader', Safe (InData lib file) (nexts lib 3 reader) (.ok (reader', [some (.ok ⟨[], [], 0⟩),
      some (.error "Parser error: native operation failed: metadata Arrow record batch: bad block"), none])) := by
  obtain ⟨-, hreader⟩ := mapped_metadata_safe lib file
  obtain ⟨-, -, -, hnexts⟩ := hreader reader openBuffer_eq
  exact ⟨openBuffer_eq, hnexts 3⟩

end MappedMetadataReader

end DatasetRt
