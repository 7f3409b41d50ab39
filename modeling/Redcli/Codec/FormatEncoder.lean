import Mathlib.Algebra.Order.Floor.Ring
import Mathlib.Algebra.Order.Field.Rat
import Mathlib.Data.Rat.Floor
import Redcli.Codec.Libraries

/-!
# Format Encoders

`rle4k_format_encoder.cpp`: the six encoders, `process_pack`, and the factory that finds an
encoder by its format.
-/

namespace Redcli

/-- `encode_format_args`: the parameters that an encoder reads. -/
structure EncodeFormatArgs where
  gzipLevel : ℤ := 6
  zstdLevel : ℤ := 3
  lzo2Level : ℤ := 1
  snappyLevel : ℤ := 0
  brotliLevel : ℤ := 6
  brotliWindow : ℤ := 22
  deriving DecidableEq, Repr

/-- How `process_pack` fails to return: it throws, or a library without a capacity check has
stored bytes behind the end of the target buffer. -/
inductive PackFailure where
  | thrown (e : RasterException)
  | bufferOverrun
  deriving DecidableEq, Repr

/-- The subclasses of `format_encoder`. -/
inductive FormatEncoder where
  | rle4k | gzip | lzo2 | snappy | zstd | brotli
  deriving DecidableEq, Repr

namespace FormatEncoder

/-- `get_supported_format`. -/
def getSupportedFormat : FormatEncoder → RasterOutputFormat
  | rle4k => .rle4k
  | gzip => .gzip
  | lzo2 => .lzo2
  | snappy => .snappy
  | zstd => .zstd
  | brotli => .brotli

/-- The encoder for Brotli is the one with the value of Brotli. -/
theorem value_eq_brotli_iff (enc : FormatEncoder) :
    enc.getSupportedFormat.value = RasterOutputFormat.brotli.value ↔ enc = .brotli := by
  rw [RasterOutputFormat.value_injective.eq_iff]
  cases enc <;> simp [getSupportedFormat]

/-- `get_format_name`. -/
def getFormatName : FormatEncoder → String
  | rle4k => "RLE4K"
  | gzip => "GZIP"
  | lzo2 => "LZO2"
  | snappy => "SNAPPY"
  | zstd => "ZSTD"
  | brotli => "BROTLI"

end FormatEncoder

/-- `INT_MAX`. -/
def intMax : ℤ := 2 ^ 31 - 1

/-- `INT_MIN`. -/
def intMin : ℤ := -2 ^ 31

/-- Conversion of an integer to `int`. -/
def toInt (n : ℤ) : ℤ := Int.bmod n (2 ^ 32)

/-- `if (level < lo) level = lo; if (level > hi) level = hi;`. -/
def clampLevel (lo hi level : ℤ) : ℤ :=
  let level := if level < lo then lo else level
  if hi < level then hi else level

/-- Store encoded bytes at the start of the target's buffer. -/
def storePayload (dst : BitmapInfo) (encoded : Bytes) : Except PackFailure BitmapInfo :=
  if encoded.length ≤ dst.bytes.length then
    .ok { dst with data := some (encoded ++ dst.bytes.drop encoded.length) }
  else .error .bufferOverrun

/-- A computation that may fail succeeds when both of its parts do. -/
theorem except_bind_eq_ok {ε α β : Type} {x : Except ε α} {f : α → Except ε β} {b : β} :
    (x >>= f) = .ok b ↔ ∃ a, x = .ok a ∧ f a = .ok b := by
  cases x <;> simp [bind, Except.bind]

/-- Renaming the error does not matter for success. -/
theorem except_mapError_eq_ok {ε ε' α : Type} {x : Except ε α} {f : ε → ε'} {a : α} :
    x.mapError f = .ok a ↔ x = .ok a := by
  cases x <;> simp [Except.mapError]

/-- The end of a successful `internal_pack`: the payload is in place and the two casts of its
length give `data_length` and the result. -/
def packed (dst : BitmapInfo) (encoded : Bytes) (len : ℤ) :
    Except PackFailure (ℤ × BitmapInfo) := do
  let dst ← storePayload dst encoded
  pure (toInt len, { dst with dataLength := UInt32.ofInt len })

/-- The result `(int)dst->format * (-1000) + rc` of a failed `internal_pack`. -/
def packError (dst : BitmapInfo) (rc : ℤ) : Except PackFailure (ℤ × BitmapInfo) :=
  pure (dst.format.value * (-1000) + rc, dst)

section InternalPack

variable (libs : CodecLibs) (bitmaps : RasterLib) (src dst : BitmapInfo)
  (args : EncodeFormatArgs)

/-- `rle4k_format_encoder::internal_pack`: one retry into a larger buffer. -/
def rle4kInternalPack : Except PackFailure (ℤ × BitmapInfo) :=
  let dst := { dst with dataLength := 0 }
  let stride := src.getStrideBytes
  let encode (cap : UInt32) := libs.rle4kEncodeBlock src.bytes src.height src.width stride cap
  let first := encode dst.getBufferSize
  -- only this error code leads to a second call, and its result is final
  let (len, encoded, dst) :=
    if first.1 = rle4kErrorTargetTooSmall then
      let dst := bitmaps.resize dst
      let second := encode dst.getBufferSize
      (second.1, second.2, dst)
    else (first.1, first.2, dst)
  if len < 0 then pure (len, dst) else packed dst encoded len

/-- `gzip_format_encoder::internal_pack`. -/
def gzipInternalPack : Except PackFailure (ℤ × BitmapInfo) :=
  let level := clampLevel 1 9 args.gzipLevel
  let (rc, encoded) := libs.compress2 dst.getBufferSize src.payload level
  if rc ≠ zOk then packError dst rc else packed dst encoded encoded.length

/-- `lzo2_format_encoder::internal_pack`. -/
def lzo2InternalPack : Except PackFailure (ℤ × BitmapInfo) :=
  let level := clampLevel 1 999 args.lzo2Level
  -- level 1 has a compressor of its own
  let (rc, encoded) :=
    if level = 1 then libs.lzo1x1Compress src.payload
    else libs.lzo1x999CompressLevel src.payload level
  if rc ≠ lzoEOk then packError dst rc else packed dst encoded encoded.length

/-- `snappy_format_encoder::internal_pack`. -/
def snappyInternalPack : Except PackFailure (ℤ × BitmapInfo) :=
  let encoded := libs.snappyRawCompress src.payload
  packed dst encoded encoded.length

/-- `zstd_format_encoder::internal_pack`. -/
def zstdInternalPack : Except PackFailure (ℤ × BitmapInfo) :=
  let level := clampLevel 1 22 args.zstdLevel
  match libs.zstdCompress dst.getBufferSize.toNat src.payload level with
  | .error code => packError dst code
  | .ok encoded => packed dst encoded encoded.length

/-- `brotli_format_encoder::internal_pack`. -/
def brotliInternalPack : Except PackFailure (ℤ × BitmapInfo) :=
  let level := clampLevel 0 11 args.brotliLevel
  let window := clampLevel 10 24 args.brotliWindow
  match libs.brotliEncoderCompress level window src.payload dst.getBufferSize.toNat with
  | none => packError dst (-1)
  | some encoded => packed dst encoded encoded.length

/-- The `internal_pack` override of an encoder. -/
def FormatEncoder.internalPack : FormatEncoder → Except PackFailure (ℤ × BitmapInfo)
  | .rle4k => rle4kInternalPack libs bitmaps src dst
  | .gzip => gzipInternalPack libs src dst args
  | .lzo2 => lzo2InternalPack libs src dst args
  | .snappy => snappyInternalPack libs src dst
  | .zstd => zstdInternalPack libs src dst args
  | .brotli => brotliInternalPack libs src dst args

end InternalPack

/-- The `uint16_t` value of the compression ratio in hundredths of a percent: truncated
toward zero, then reduced modulo `2 ^ 16`. -/
def compressionRatio (dataLength sourceLength : UInt32) : UInt16 :=
  let ratio : ℚ := (1 - (dataLength.toNat : ℚ) / sourceLength.toNat) * 10000
  UInt16.ofInt (if 0 ≤ ratio then ⌊ratio⌋ else ⌈ratio⌉)

/-- `format_encoder::process_pack`. -/
def FormatEncoder.processPack (libs : CodecLibs) (bitmaps : RasterLib) (enc : FormatEncoder)
    (source : Option BitmapInfo) (args : EncodeFormatArgs) :
    Except PackFailure BitmapInfo := do
  let source ← (validateBitmap source).mapError .thrown
  let settings : RasterResultSettings :=
    { format := enc.getSupportedFormat, width := source.width, alignMode := .align064 }
  let target ← (bitmaps.create settings source.height).mapError .thrown
  let (result, target) ← enc.internalPack libs bitmaps source target args
  if result < 0 then throw (.thrown ⟨result, "Encoding failed"⟩)
  -- the two records of the source that the encoded bitmap keeps
  let target := { target with
    sourceLength := source.dataLength
    extend := { target.extend with
      compressionRatio := compressionRatio target.dataLength source.dataLength } }
  pure (bitmaps.shrinkToFit target)

/-- `process_pack` returns for valid sources only. -/
theorem validBitmap_of_processPack {libs : CodecLibs} {bitmaps : RasterLib}
    {enc : FormatEncoder} {source : Option BitmapInfo} {args : EncodeFormatArgs}
    {t : BitmapInfo} (h : enc.processPack libs bitmaps source args = .ok t) :
    ∃ src, source = some src ∧ ValidBitmap src := by
  obtain ⟨src, hvalid, -⟩ := except_bind_eq_ok.mp h
  exact ⟨src, validateBitmap_eq_ok_iff.mp (except_mapError_eq_ok.mp hvalid)⟩

/-! ## The factory -/

/-- `register_processor`: the encoder is entered under its format. -/
def registerProcessor (processors : List (ℤ × FormatEncoder)) (enc : FormatEncoder) :
    List (ℤ × FormatEncoder) :=
  (enc.getSupportedFormat.value, enc) ::
    processors.filter fun p => p.1 ≠ enc.getSupportedFormat.value

/-- `initialize_default_processors`. -/
def defaultProcessors : List (ℤ × FormatEncoder) :=
  [.rle4k, .gzip, .lzo2, .snappy, .zstd, .brotli].foldl registerProcessor []

/-- `format_encoder_factory::get_encoder`. -/
def getEncoder (fmt : ℤ) : Option FormatEncoder := defaultProcessors.lookup fmt

/-- The factory returns an encoder exactly under the value of the encoder's own format. -/
theorem getEncoder_eq_some_iff {fmt : ℤ} {enc : FormatEncoder} :
    getEncoder fmt = some enc ↔ fmt = enc.getSupportedFormat.value := by
  constructor
  · intro h
    obtain ⟨before, after, hlist, -⟩ := List.lookup_eq_some_iff.mp h
    have hmem : (fmt, enc) ∈ defaultProcessors := by rw [hlist]; simp
    -- no registration is entered under the format of another encoder
    have hall : ∀ p ∈ defaultProcessors, p.1 = p.2.getSupportedFormat.value := by decide
    exact hall _ hmem
  · rintro rfl
    cases enc <;> rfl

end Redcli
