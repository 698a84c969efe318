import DatasetRt.Types
import DatasetRt.Lib.Bytes

/-! # Compression policies and codecs

`ShardCompression` (`types.rs`) selects the codec and, through `wholeRecord`, what a codec
block contains: a legacy policy compresses the payload inside the record, the others compress
the whole record.  `compressPayload` and `decompressPayload` (`compression.rs`) frame the codec
output with a 4-byte length.

The codecs are a parameter `CodecLib`; `CodecLib.Lawful` is what their documentation promises.
Buffer allocations are taken to succeed. -/

namespace DatasetRt

inductive CompressionAlgo where
  | none
  | lz4
  | brotli
deriving DecidableEq, Repr

namespace CompressionAlgo

/-- The wire name. -/
def name : CompressionAlgo → String
  | none => "none"
  | lz4 => "lz4"
  | brotli => "brotli"

def fromName (value : String) : CacheResult CompressionAlgo :=
  if value = "none" then .ok none
  else if value = "lz4" then .ok lz4
  else if value = "brotli" then .ok brotli
  else .error (.invalidInput s!"unsupported shard compression algorithm '{value}'")

@[simp] theorem fromName_name (algo : CompressionAlgo) : fromName algo.name = .ok algo := by
  cases algo <;> decide

end CompressionAlgo

inductive ShardCompression where
  | legacy (algo : CompressionAlgo) (ratio : Float)
  | none
  | lz4Fast (acceleration : ℤ)
  | lz4HC (level : ℤ)
  | brotli (level : ℤ)

namespace ShardCompression

/-- `ShardCompression::new`. -/
def newLegacy (algo : CompressionAlgo) (ratio : Float) : CacheResult ShardCompression :=
  if algo = .brotli then .error (.invalidInput "Brotli requires the typed whole-record policy")
  else if !ratio.isFinite || decide (ratio ≤ 0.0) then
    .error (.invalidInput "shard_compression.ratio must be positive and finite")
  else if algo = .none ∧ (ratio != 1.0) = true then
    .error (.invalidInput "shard_compression.ratio must be 1.0 when algo is 'none'")
  else .ok (legacy algo ratio)

/-- The check the constructors of the codec levels share. -/
def ranged (lo hi value : ℤ) (message : String) (policy : ShardCompression) :
    CacheResult ShardCompression :=
  if lo ≤ value ∧ value ≤ hi then .ok policy else .error (.invalidInput message)

def fast (acceleration : ℤ) : CacheResult ShardCompression :=
  ranged 1 65537 acceleration "LZ4 acceleration must be between 1 and 65537" (lz4Fast acceleration)

def hc (level : ℤ) : CacheResult ShardCompression :=
  ranged 1 12 level "LZ4 HC level must be between 1 and 12" (lz4HC level)

/-- `ShardCompression::brotli`. -/
def newBrotli (level : ℤ) : CacheResult ShardCompression :=
  ranged 0 11 level "Brotli level must be between 0 and 11" (brotli level)

/-- The constructor that built the policy accepts it. -/
def Valid : ShardCompression → Prop
  | legacy algo ratio => newLegacy algo ratio = .ok (legacy algo ratio)
  | none => True
  | lz4Fast acceleration => fast acceleration = .ok (lz4Fast acceleration)
  | lz4HC level => hc level = .ok (lz4HC level)
  | brotli level => newBrotli level = .ok (brotli level)

def wholeRecord : ShardCompression → Bool
  | legacy _ _ => false
  | _ => true

def compressed : ShardCompression → Bool
  | none => false
  | legacy .none _ => false
  | _ => true

end ShardCompression

/-! ### Codecs -/

inductive Lz4Mode where
  | fast (acceleration : ℤ)
  | highCompression (level : ℤ)

inductive BrotliResult where
  | resultSuccess
  | needsMoreInput
  | needsMoreOutput
  | resultFailure
deriving DecidableEq, Repr

/-- What `BrotliDecompressStream` leaves behind. -/
structure BrotliOutcome where
  result : BrotliResult
  availableIn : ℕ
  output : Bytes

/-- What the codecs are used for. -/
structure CodecLib where
  /-- `lz4_flex::block::compress_into`. -/
  lz4FlexCompress : Bytes → Except String Bytes
  /-- `lz4::block::compress_bound`. -/
  lz4CompressBound : ℕ → Except String ℕ
  /-- `lz4::block::compress_to_buffer`, with the size in front. -/
  lz4Compress : Lz4Mode → Bytes → Except String Bytes
  /-- `lz4_flex::block::decompress_into` with a buffer of the given length: the bytes written. -/
  lz4Decompress : Bytes → ℕ → Except String Bytes
  /-- `BrotliCompress` at a quality. -/
  brotliCompress : ℤ → Bytes → Except String Bytes
  /-- `BrotliDecompressStream` with a buffer of the given length. -/
  brotliDecompress : Bytes → ℕ → BrotliOutcome

/-- Decompression inverts compression, and the size in front is the decoded length. -/
structure CodecLib.Lawful (C : CodecLib) : Prop where
  lz4Flex : ∀ data body, C.lz4FlexCompress data = .ok body → C.lz4Decompress body data.length = .ok data
  lz4 : ∀ mode data out, C.lz4Compress mode data = .ok out →
    data.length < 2 ^ 32 ∧ ∃ body, out = Bytes.ofNatLe 4 data.length ++ body ∧
      C.lz4Decompress body data.length = .ok data
  brotli : ∀ level data body, C.brotliCompress level data = .ok body →
    C.brotliDecompress body data.length = ⟨.resultSuccess, 0, data⟩

section codec

variable (C : CodecLib)

/-- The size prefix of the framed codecs, which a length from `2 ^ 32` on does not fit. -/
def sizePrefix (data : Bytes) (message : String) : CacheResult Bytes :=
  if data.length < 2 ^ 32 then .ok (Bytes.ofNatLe 4 data.length) else .error (.invalidInput message)

/-- A codec error under the message of its caller. -/
def codecResult {α : Type} (message : String) : Except String α → CacheResult α
  | .ok value => .ok value
  | .error error => .error (.invalidInput (message ++ error))

/-- `brotli::compress`. -/
def brotliCompress (data : Bytes) (level : ℤ) : CacheResult Bytes := do
  let size ← sizePrefix data "Brotli record exceeds u32 size-prefix limit"
  let body ← codecResult "failed to compress Brotli record: " (C.brotliCompress level data)
  .ok (size ++ body)

def compressRecord (data : Bytes) (mode : Lz4Mode) : CacheResult Bytes := do
  let _ ← codecResult "LZ4 record input rejected: " (C.lz4CompressBound data.length)
  codecResult "failed to compress LZ4 record: " (C.lz4Compress mode data)

def compressPayload (data : Bytes) : ShardCompression → CacheResult Bytes
  | .none => .ok data
  | .legacy .none _ => .ok data
  | .brotli level => brotliCompress C data level
  | .lz4Fast acceleration => compressRecord C data (.fast acceleration)
  | .lz4HC level => compressRecord C data (.highCompression level)
  | .legacy _ _ => do
      let size ← sizePrefix data "LZ4 payload exceeds u32 size-prefix limit"
      let body ← codecResult "failed to compress LZ4 payload: " (C.lz4FlexCompress data)
      .ok (size ++ body)

/-- The size prefix of a compressed block, at most the length the shard allows. -/
def readPrefix (data : Bytes) (maxUncompressedLen : ℕ) (missing exceeds : String) :
    CacheResult (ℕ × Bytes) :=
  if data.length < 4 then .error (.invalidCache missing)
  else
    let len := Bytes.toNatLe (data.take 4)
    if maxUncompressedLen < len then .error (.invalidCache exceeds) else .ok (len, data.drop 4)

/-- `brotli::decompress`. -/
def brotliDecompress (data : Bytes) (maxUncompressedLen : ℕ) : CacheResult Bytes := do
  let (len, body) ← readPrefix data maxUncompressedLen "Brotli record is missing its size prefix"
    "Brotli size prefix exceeds shard uncompressed length"
  let outcome := C.brotliDecompress body len
  match outcome.result with
  | .resultSuccess =>
      if outcome.availableIn = 0 ∧ outcome.output.length = len then .ok outcome.output
      else .error (.invalidCache "Brotli record has trailing bytes or decoded length mismatch")
  | .needsMoreInput => .error (.invalidCache "truncated Brotli record")
  | .needsMoreOutput => .error (.invalidCache "Brotli decoded length exceeds size prefix")
  | .resultFailure => .error (.invalidCache "invalid Brotli record")

def decompressLz4OrPlain (data : Bytes) (compression : ShardCompression) (maxUncompressedLen : ℕ) :
    CacheResult Bytes :=
  if compression.compressed then do
    let (len, body) ← readPrefix data maxUncompressedLen "LZ4 payload is missing its size prefix"
      "LZ4 size prefix exceeds shard uncompressed length"
    match C.lz4Decompress body len with
    | .error error => .error (.invalidCache ("failed to decompress lz4 payload: " ++ error))
    | .ok output =>
        if output.length ≠ len then
          .error (.invalidCache "LZ4 decoded length does not match size prefix")
        else .ok output
  else .ok data

def decompressPayload (data : Bytes) (compression : ShardCompression) (maxUncompressedLen : ℕ) :
    CacheResult Bytes :=
  match compression with
  | .brotli _ => brotliDecompress C data maxUncompressedLen
  | _ => decompressLz4OrPlain C data compression maxUncompressedLen

end codec

/-! ### Decompression inverts compression -/

section roundtrip

variable {C : CodecLib} {data out : Bytes} {maxLen : ℕ}

theorem sizePrefix_ok {message : String} {size : Bytes} (h : sizePrefix data message = .ok size) :
    data.length < 2 ^ 32 ∧ size = Bytes.ofNatLe 4 data.length := by
  unfold sizePrefix at h
  split_ifs at h with hlt
  · cases h; exact ⟨hlt, rfl⟩

theorem codecResult_ok {α : Type} {message : String} {x : Except String α} {a : α}
    (h : codecResult message x = .ok a) : x = .ok a := by
  cases x <;> simp_all [codecResult]

theorem readPrefix_frame (hlt : data.length < 2 ^ 32) (hmax : data.length ≤ maxLen) (body : Bytes)
    (missing exceeds : String) :
    readPrefix (Bytes.ofNatLe 4 data.length ++ body) maxLen missing exceeds =
      .ok (data.length, body) := by
  have hlen : Bytes.toNatLe (Bytes.ofNatLe 4 data.length) = data.length :=
    Bytes.toNatLe_ofNatLe 4 _ (by simpa using hlt)
  simp [readPrefix, hlen, Nat.not_lt.mpr hmax]

/-- An LZ4 frame with the right body decodes to the data. -/
theorem decompressLz4_frame {compression : ShardCompression} (hcomp : compression.compressed = true)
    (hlt : data.length < 2 ^ 32) (hmax : data.length ≤ maxLen) {body : Bytes}
    (hbody : C.lz4Decompress body data.length = .ok data) :
    decompressLz4OrPlain C (Bytes.ofNatLe 4 data.length ++ body) compression maxLen = .ok data := by
  rw [decompressLz4OrPlain, if_pos hcomp, readPrefix_frame hlt hmax]
  simp [bind, Except.bind, hbody]

theorem decompressPayload_compressPayload (hC : C.Lawful) (compression : ShardCompression)
    (h : compressPayload C data compression = .ok out) (hmax : data.length ≤ maxLen) :
    decompressPayload C out compression maxLen = .ok data := by
  have hlegacy : ∀ ratio algo, algo ≠ CompressionAlgo.none →
      (do let size ← sizePrefix data "LZ4 payload exceeds u32 size-prefix limit"
          let body ← codecResult "failed to compress LZ4 payload: " (C.lz4FlexCompress data)
          (.ok (size ++ body) : CacheResult Bytes)) = .ok out →
      decompressLz4OrPlain C out (.legacy algo ratio) maxLen = .ok data := by
    intro ratio algo halgo h
    obtain ⟨size, hsize, h⟩ := bind_eq_ok h
    obtain ⟨body, hbody, h⟩ := bind_eq_ok h
    obtain ⟨hlt, rfl⟩ := sizePrefix_ok hsize
    cases h
    refine decompressLz4_frame ?_ hlt hmax (hC.lz4Flex _ _ (codecResult_ok hbody))
    cases algo <;> first | rfl | exact absurd rfl halgo
  have hrecord : ∀ mode policy, ShardCompression.compressed policy = true →
      compressRecord C data mode = .ok out → decompressLz4OrPlain C out policy maxLen = .ok data := by
    intro mode policy hcomp h
    obtain ⟨bound, -, h⟩ := bind_eq_ok h
    obtain ⟨hlt, body, rfl, hbody⟩ := hC.lz4 _ _ _ (codecResult_ok h)
    exact decompressLz4_frame hcomp hlt hmax hbody
  cases compression with
  | none => cases h; rfl
  | legacy algo ratio =>
      cases algo with
      | none => cases h; rfl
      | lz4 => exact hlegacy ratio .lz4 (by simp) h
      | brotli => exact hlegacy ratio .brotli (by simp) h
  | lz4Fast acceleration => exact hrecord _ (.lz4Fast acceleration) rfl h
  | lz4HC level => exact hrecord _ (.lz4HC level) rfl h
  | brotli level =>
      obtain ⟨size, hsize, h⟩ := bind_eq_ok h
      obtain ⟨body, hbody, h⟩ := bind_eq_ok h
      obtain ⟨hlt, rfl⟩ := sizePrefix_ok hsize
      cases h
      have hdec := hC.brotli _ _ _ (codecResult_ok hbody)
      simp only [decompressPayload, brotliDecompress, readPrefix_frame hlt hmax]
      simp [bind, Except.bind, hdec]

end roundtrip

end DatasetRt
