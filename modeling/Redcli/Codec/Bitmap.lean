import Mathlib.Data.List.Basic
import Mathlib.Data.Int.Notation
import Mathlib.Tactic.Common
import Mathlib.Tactic.Push

/-!
# Bitmaps

The bitmap container of `libraster` (`bitmap_info.h`): output formats, the
`bitmap_info` record, `raster_exception`, and the check `validate_bitmap`.

The constructor of `bitmap_info`, `resize` and `shrink_to_fit` live in a library whose
sources are not shipped. They are the fields of `RasterLib`.
-/

namespace Redcli

/-- The bytes of a buffer. -/
abbrev Bytes := List UInt8

/-- `raster_output_format`. -/
inductive RasterOutputFormat where
  | none | bitmap | rle4k | gzip | zstd | snappy | lzo2 | brotli
  deriving DecidableEq, Repr

/-- The enumerator's numeric value. -/
def RasterOutputFormat.value : RasterOutputFormat → ℤ
  | .none => 0x0
  | .bitmap => 0x1
  | .rle4k => 0x4
  | .gzip => 0x7
  | .zstd => 0x8
  | .snappy => 0xA
  | .lzo2 => 0xB
  | .brotli => 0xF

/-- Different formats have different values. -/
theorem RasterOutputFormat.value_injective : Function.Injective RasterOutputFormat.value := by
  intro f g h
  cases f <;> cases g <;> first | rfl | exact absurd h (by decide)

/-- `map_align_mode`. -/
inductive MapAlignMode where
  | align008 | align016 | align032 | align064 | align128 | align256 | align512
  deriving DecidableEq, Repr

/-- `raster_result_settings`: the fields that an encoder sets. -/
structure RasterResultSettings where
  format : RasterOutputFormat
  width : UInt32
  alignMode : MapAlignMode

/-- `extend_bitmap_info`: the fields that the pipeline reads or writes. -/
structure ExtendBitmapInfo where
  compressionRatio : UInt16 := 0
  dataBufferSize : UInt32 := 0
  strideBytes : UInt32 := 0
  deriving DecidableEq, Repr

/-- `bitmap_info`. `data` is the whole buffer, `none` for a null pointer; `dataLength` says
how much of it is payload. The constructors of the library always set `extends`. -/
structure BitmapInfo where
  width : UInt32
  height : UInt32
  dataLength : UInt32
  data : Option Bytes
  sourceLength : UInt32
  format : RasterOutputFormat
  extend : ExtendBitmapInfo
  deriving DecidableEq, Repr

namespace BitmapInfo

/-- `get_stride_bytes`. -/
def getStrideBytes (b : BitmapInfo) : UInt32 := b.extend.strideBytes

/-- `get_buffer_size`. -/
def getBufferSize (b : BitmapInfo) : UInt32 :=
  if 0 < b.extend.dataBufferSize then b.extend.dataBufferSize
  else if b.dataLength < b.sourceLength then b.sourceLength else b.dataLength

/-- The bytes that `data` points to. -/
def bytes (b : BitmapInfo) : Bytes := b.data.getD []

/-- The first `dataLength` bytes: what is handed to a library as `(data, data_length)`. -/
def payload (b : BitmapInfo) : Bytes := b.bytes.take b.dataLength.toNat

end BitmapInfo

/-- `raster_exception`. -/
structure RasterException where
  errorCode : ℤ
  what : String
  deriving DecidableEq, Repr

/-- `RASTER_ERROR_BASE`. -/
def rasterErrorBase : ℤ := -1

/-- `INVALID_BITMAP_SOURCE`. -/
def invalidBitmapSource : ℤ := rasterErrorBase - 12

/-- `INVALID_BITMAP_ZEROSIZE`. -/
def invalidBitmapZerosize : ℤ := rasterErrorBase - 7

/-- `INVALID_BITMAP_OVERSIZE`. -/
def invalidBitmapOversize : ℤ := rasterErrorBase - 8

/-- `MAX_BITMAP_WIDTH`. -/
def maxBitmapWidth : UInt32 := 1024 * 1024

/-- `MAX_BITMAP_HEIGHT`. -/
def maxBitmapHeight : UInt32 := 1024 * 1024

/-- `validate_bitmap`: the source itself if it passes the checks. -/
def validateBitmap : Option BitmapInfo → Except RasterException BitmapInfo
  | none => .error ⟨invalidBitmapSource, "Invalid bitmap source"⟩
  | some source =>
      if source.data = none ∨ source.dataLength = 0 ∨ source.sourceLength = 0 then
        .error ⟨invalidBitmapSource, "Invalid bitmap source"⟩
      else if source.width = 0 ∨ source.height = 0 then
        .error ⟨invalidBitmapZerosize, "Zero dimension"⟩
      else if maxBitmapWidth < source.width ∨ maxBitmapHeight < source.height then
        .error ⟨invalidBitmapOversize, "Exceeds max size"⟩
      else .ok source

/-- What an accepted bitmap looks like. -/
structure ValidBitmap (b : BitmapInfo) : Prop where
  data_ne : b.data ≠ none
  dataLength_ne : b.dataLength ≠ 0
  sourceLength_ne : b.sourceLength ≠ 0
  width_ne : b.width ≠ 0
  height_ne : b.height ≠ 0
  width_le : b.width ≤ maxBitmapWidth
  height_le : b.height ≤ maxBitmapHeight

/-- `validate_bitmap` accepts exactly the valid bitmaps, and hands them back. -/
theorem validateBitmap_eq_ok_iff {source : Option BitmapInfo} {b : BitmapInfo} :
    validateBitmap source = .ok b ↔ source = some b ∧ ValidBitmap b := by
  rcases source with _ | s
  -- a null pointer, and a bitmap whose three checks are passed one by one
  · simp [validateBitmap]
  · simp only [validateBitmap]
    constructor
    · intro h
      split_ifs at h with h₁ h₂ h₃
      obtain rfl : s = b := by simpa using h
      push Not at h₁ h₂ h₃
      exact ⟨rfl, h₁.1, h₁.2.1, h₁.2.2, h₂.1, h₂.2, UInt32.not_lt.mp h₃.1,
        UInt32.not_lt.mp h₃.2⟩
    · rintro ⟨hs, hd, hl, hsl, hw, hh, hwm, hhm⟩
      obtain rfl : s = b := by simpa using hs
      rw [if_neg (by simp [hd, hl, hsl]), if_neg (by simp [hw, hh]),
        if_neg (by simp [not_or, UInt32.not_lt, hwm, hhm])]

/-- The constructor and the two resizing members of `bitmap_info` that the encoders call.
The constructor may throw. -/
structure RasterLib where
  /-- `bitmap_info(settings, block_height)`. -/
  create : RasterResultSettings → UInt32 → Except RasterException BitmapInfo
  /-- `resize()`. -/
  resize : BitmapInfo → BitmapInfo
  /-- `shrink_to_fit()`. -/
  shrinkToFit : BitmapInfo → BitmapInfo

end Redcli
