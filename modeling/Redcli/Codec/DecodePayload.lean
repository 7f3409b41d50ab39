import Redcli.Codec.FormatEncoder

/-!
# Digests and Decoding

The integrity side of `main.cpp`: `rle4k_fnv1a64`, `rle4k_make_digest` and
`rle4k_decode_payload`.
-/

namespace Redcli

/-- `rle4k_fnv1a64` over a sequence of bytes. -/
def rle4kFnv1a64 (data : Bytes) : UInt64 :=
  data.foldl (fun h b => (h ^^^ b.toUInt64) * 1099511628211) 14695981039346656037

/-- `rle4k_block_digest`. -/
structure Rle4kBlockDigest where
  hash : UInt64 := 0
  width : UInt32 := 0
  height : UInt32 := 0
  stride : UInt32 := 0
  nbytes : UInt32 := 0
  valid : Bool := false
  deriving DecidableEq, Repr

/-- `rle4k_make_digest`. -/
def rle4kMakeDigest (src : BitmapInfo) (doHash : Bool) : Rle4kBlockDigest :=
  if src.data = none ∨ src.width = 0 ∨ src.height = 0 then {}
  else
    { width := src.width
      height := src.height
      stride := src.getStrideBytes
      nbytes := src.dataLength
      valid := true
      hash := if doHash then rle4kFnv1a64 src.payload else 0 }

/-- A digest is valid unless the bitmap has no buffer or no extent. -/
theorem rle4kMakeDigest_valid_iff (src : BitmapInfo) (doHash : Bool) :
    (rle4kMakeDigest src doHash).valid = true ↔
      src.data ≠ none ∧ src.width ≠ 0 ∧ src.height ≠ 0 := by
  by_cases h : src.data = none ∨ src.width = 0 ∨ src.height = 0
  · rw [rle4kMakeDigest, if_pos h]
    simpa only [Bool.false_eq_true, false_iff, not_and_or, not_not, ne_eq] using h
  · rw [rle4kMakeDigest, if_neg h]
    push Not at h
    simpa only [true_iff] using h

/-- A bitmap that `validate_bitmap` accepts has a valid digest. -/
theorem ValidBitmap.digest_valid {src : BitmapInfo} (h : ValidBitmap src) (doHash : Bool) :
    (rle4kMakeDigest src doHash).valid = true :=
  (rle4kMakeDigest_valid_iff src doHash).mpr ⟨h.data_ne, h.width_ne, h.height_ne⟩

/-- A valid digest records the geometry and the payload of its bitmap. -/
theorem rle4kMakeDigest_of_valid {src : BitmapInfo} {doHash : Bool}
    (hvalid : (rle4kMakeDigest src doHash).valid = true) :
    rle4kMakeDigest src doHash =
      { width := src.width, height := src.height, stride := src.getStrideBytes,
        nbytes := src.dataLength, valid := true,
        hash := if doHash then rle4kFnv1a64 src.payload else 0 } := by
  obtain ⟨hdata, hwidth, hheight⟩ := (rle4kMakeDigest_valid_iff src doHash).mp hvalid
  rw [rle4kMakeDigest, if_neg]
  simp [hdata, hwidth, hheight]

/-- `rle4k_decode_payload`: whether the codec call succeeded, and the target buffer after it.
`dst` is `none` for a null pointer. -/
def rle4kDecodePayload (libs : CodecLibs) (fmt : ℤ) (e : Option BitmapInfo)
    (width height stride : UInt32) (dst : Option Bytes) (dstCap : ℕ) : Bool × Option Bytes :=
  match e, dst with
  | some e, some buffer =>
      if dstCap = 0 then (false, dst)
      else if fmt = RasterOutputFormat.rle4k.value then
        let (drc, w) := libs.rle4kDecodeBlock e.payload width height stride
        (decide (0 ≤ drc), some (w.apply buffer))
      else if fmt = RasterOutputFormat.gzip.value then
        -- `(uLongf)dst_cap` keeps the low 32 bits of the capacity
        let (rc, _, w) := libs.uncompress (UInt32.ofNat dstCap) e.payload
        (decide (rc = zOk), some (w.apply buffer))
      else if fmt = RasterOutputFormat.lzo2.value then
        let (rc, _, w) := libs.lzo1xDecompress e.payload dstCap
        (decide (rc = lzoEOk), some (w.apply buffer))
      else if fmt = RasterOutputFormat.snappy.value then
        let (ok, w) := libs.snappyRawUncompress e.payload
        (ok, some (w.apply buffer))
      else if fmt = RasterOutputFormat.zstd.value then
        let (zstdDl, w) := libs.zstdDecompress dstCap e.payload
        (zstdDl.isOk, some (w.apply buffer))
      else if fmt = RasterOutputFormat.brotli.value then
        (true, dst) -- decode not implemented, treated as pass
      else (false, dst)
  | _, _ => (false, dst)

/-- No call changes the size of the target buffer. -/
theorem length_rle4kDecodePayload (libs : CodecLibs) (fmt : ℤ) (e : Option BitmapInfo)
    (width height stride : UInt32) (buffer : Bytes) (dstCap : ℕ) :
    ((rle4kDecodePayload libs fmt e width height stride (some buffer) dstCap).2.getD []).length =
      buffer.length := by
  unfold rle4kDecodePayload
  cases e with
  | none => rfl
  | some e =>
      dsimp only
      split_ifs
      all_goals first | rfl | exact Writes.length_apply _ _

/-- What a decoder does: whether it reports success, the length that it reports, if it reports one,
and what it stores. -/
structure Decoding where
  ok : Bool
  reported : Option ℕ := none
  writes : Writes

/-- The call of a decoder for a format, with the length that `rle4k_decode_payload` drops. There is
no decoder for Brotli and for unknown formats. -/
def decoderCall (libs : CodecLibs) (fmt : ℤ) (e : BitmapInfo) (width height stride : UInt32)
    (dstCap : ℕ) : Option Decoding :=
  if fmt = RasterOutputFormat.rle4k.value then
    let (drc, w) := libs.rle4kDecodeBlock e.payload width height stride
    some { ok := decide (0 ≤ drc), writes := w }
  else if fmt = RasterOutputFormat.gzip.value then
    let (rc, gzipDl, w) := libs.uncompress (UInt32.ofNat dstCap) e.payload
    some { ok := decide (rc = zOk), reported := some gzipDl.toNat, writes := w }
  else if fmt = RasterOutputFormat.lzo2.value then
    let (rc, lzoDl, w) := libs.lzo1xDecompress e.payload dstCap
    some { ok := decide (rc = lzoEOk), reported := some lzoDl, writes := w }
  else if fmt = RasterOutputFormat.snappy.value then
    let (ok, w) := libs.snappyRawUncompress e.payload
    some { ok := ok, writes := w }
  else if fmt = RasterOutputFormat.zstd.value then
    let (zstdDl, w) := libs.zstdDecompress dstCap e.payload
    some { ok := zstdDl.isOk, reported := zstdDl.toOption, writes := w }
  else none

/-- `rle4k_decode_payload` is the call of a decoder on the buffer. -/
theorem rle4kDecodePayload_eq_decoderCall (libs : CodecLibs) {fmt : ℤ}
    (hbrotli : fmt ≠ RasterOutputFormat.brotli.value) (e : BitmapInfo)
    (width height stride : UInt32) (buffer : Bytes) {dstCap : ℕ} (hcap : dstCap ≠ 0) :
    rle4kDecodePayload libs fmt (some e) width height stride (some buffer) dstCap =
      (decoderCall libs fmt e width height stride dstCap).elim (false, some buffer)
        fun d => (d.ok, some (d.writes.apply buffer)) := by
  unfold rle4kDecodePayload decoderCall
  simp only [if_neg hcap, if_neg hbrotli]
  split_ifs <;> rfl

/-- Brotli payloads are never decoded, yet every call succeeds. -/
theorem rle4kDecodePayload_brotli (libs : CodecLibs) (e : BitmapInfo)
    (width height stride : UInt32) (buffer : Bytes) {dstCap : ℕ} (hcap : dstCap ≠ 0) :
    rle4kDecodePayload libs RasterOutputFormat.brotli.value (some e) width height stride
      (some buffer) dstCap = (true, some buffer) := by
  simp only [rle4kDecodePayload, hcap, RasterOutputFormat.value_injective.eq_iff, reduceCtorEq,
    if_true, if_false]

/-- Decoding needs a payload. -/
@[simp]
theorem rle4kDecodePayload_none (libs : CodecLibs) (fmt : ℤ) (width height stride : UInt32)
    (dst : Option Bytes) (dstCap : ℕ) :
    rle4kDecodePayload libs fmt none width height stride dst dstCap = (false, dst) := rfl

end Redcli
