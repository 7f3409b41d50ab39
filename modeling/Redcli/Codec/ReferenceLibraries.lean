import Mathlib.Algebra.Order.Ring.Nat
import Redcli.Codec.Libraries

/-!
# Reference Libraries

A small instance of the library interfaces: every codec shrinks a block of zeros to its
length and stores any other block behind a marker byte, and reports too small buffers with
the error codes of the real library. The results about arbitrary libraries are applied to
it.
-/

namespace Redcli

/-- The length of a block in four bytes, lowest first. -/
def lengthBytes (n : ℕ) : Bytes :=
  [UInt8.ofNat n, UInt8.ofNat (n / 256), UInt8.ofNat (n / 65536), UInt8.ofNat (n / 16777216)]

/-- The length that some bytes stand for. -/
def readLength : Bytes → ℕ
  | [] => 0
  | b :: rest => b.toNat + 256 * readLength rest

theorem readLength_lengthBytes {n : ℕ} (h : n < 2 ^ 32) : readLength (lengthBytes n) = n := by
  simp only [lengthBytes, readLength, UInt8.toNat_ofNat']
  omega

/-- The marker `0` and the length of a block of zeros, or the marker `1` and the block. -/
def zeroRunEncode (src : Bytes) : Bytes :=
  if src.length < 2 ^ 32 ∧ src.all (· == 0) then 0 :: lengthBytes src.length else 1 :: src

/-- The block that was encoded. -/
def zeroRunDecode : Bytes → Option Bytes
  | [] => none
  | b :: rest =>
      if b = 0 then some (List.replicate (readLength rest) 0)
      else if b = 1 then some rest else none

@[simp]
theorem zeroRunDecode_zeroRunEncode (src : Bytes) :
    zeroRunDecode (zeroRunEncode src) = some src := by
  unfold zeroRunEncode
  split_ifs with h
  -- a block without other bytes is known from its length
  · have hzero : src = List.replicate src.length 0 :=
      List.eq_replicate_of_mem fun b hb => by simpa using List.all_eq_true.mp h.2 b hb
    simp [zeroRunDecode, readLength_lengthBytes h.1, ← hzero]
  · simp [zeroRunDecode]

/-- A block of zeros is encoded in five bytes. -/
theorem zeroRunEncode_replicate {n : ℕ} (h : n < 2 ^ 32) :
    zeroRunEncode (List.replicate n 0) = 0 :: lengthBytes n := by
  have hall : (List.replicate n (0 : UInt8)).all (· == 0) = true :=
    List.all_eq_true.mpr fun b hb => by simp [List.eq_of_mem_replicate hb]
  rw [zeroRunEncode, List.length_replicate, if_pos ⟨h, hall⟩]

/-- An encoder that checks the capacity of its buffer, with the status `ok` or `tooSmall`. -/
def boundedEncode (ok tooSmall : ℤ) (cap : ℕ) (src : Bytes) : ℤ × Bytes :=
  if (zeroRunEncode src).length ≤ cap then (ok, zeroRunEncode src) else (tooSmall, [])

/-- A decoder that checks the capacity of its buffer, with the status `ok`, `tooSmall` or
`corrupt`, and with the length of the decoded block. -/
def boundedDecode (ok tooSmall corrupt : ℤ) (cap : ℕ) (encoded : Bytes) : ℤ × ℕ × Writes :=
  match zeroRunDecode encoded with
  | none => (corrupt, cap, fun _ => none)
  | some src =>
      if src.length ≤ cap then (ok, src.length, Writes.sequential src)
      else (tooSmall, cap, Writes.sequential (src.take cap))

/-- The reference codecs. -/
def referenceLibs : CodecLibs where
  rle4kEncodeBlock block height _ stride cap :=
    let encoded := zeroRunEncode (block.take (stride.toNat * height.toNat))
    if encoded.length ≤ cap.toNat then (encoded.length, encoded)
    else (rle4kErrorTargetTooSmall, [])
  rle4kDecodeBlock encoded _ _ _ :=
    match zeroRunDecode encoded with
    | none => (-1, fun _ => none)
    | some src => (0, Writes.sequential src)
  compress2 cap source _ := boundedEncode zOk (-5) cap.toNat source
  uncompress cap encoded :=
    let (rc, len, w) := boundedDecode zOk (-5) (-3) cap.toNat encoded
    (rc, UInt32.ofNat len, w)
  lzo1x1Compress src := (lzoEOk, zeroRunEncode src)
  lzo1x999CompressLevel src level :=
    if 1 ≤ level ∧ level ≤ 9 then (lzoEOk, zeroRunEncode src) else (-1, [])
  lzo1xDecompress encoded cap := boundedDecode lzoEOk (-5) (-1) cap encoded
  snappyRawCompress src := zeroRunEncode src
  snappyRawUncompress encoded :=
    match zeroRunDecode encoded with
    | none => (false, fun _ => none)
    | some src => (true, Writes.sequential src)
  zstdCompress cap src _ :=
    if (zeroRunEncode src).length ≤ cap then .ok (zeroRunEncode src) else .error 70
  zstdDecompress cap encoded :=
    match zeroRunDecode encoded with
    | none => (.error 20, fun _ => none)
    | some src =>
        if src.length ≤ cap then (.ok src.length, Writes.sequential src)
        else (.error 70, fun _ => none)
  brotliEncoderCompress _ _ src cap :=
    if (zeroRunEncode src).length ≤ cap then some (zeroRunEncode src) else none

/-- A bitmap container whose new buffers have 64 bytes, and 128 bytes after `resize`. -/
def referenceBitmaps : RasterLib where
  create settings height := .ok
    { width := settings.width
      height := height
      dataLength := 0
      data := some (List.replicate 64 0)
      sourceLength := 0
      format := settings.format
      extend := { dataBufferSize := 64, strideBytes := (settings.width + 63) / 64 * 8 } }
  resize b :=
    { b with
      data := some (List.replicate 128 0)
      extend := { b.extend with dataBufferSize := 128 } }
  shrinkToFit b :=
    { b with
      data := some b.payload
      extend := { b.extend with dataBufferSize := b.dataLength } }

/-- A source of two rows of eight bytes. -/
def twoRows : BitmapInfo where
  width := 64
  height := 2
  dataLength := 16
  data := some [1, 2, 3, 4, 5, 6, 7, 8, 9, 10, 11, 12, 13, 14, 15, 16]
  sourceLength := 16
  format := .bitmap
  extend := { strideBytes := 8, dataBufferSize := 16 }

end Redcli
