import Redcli.Codec.Bitmap

/-!
# Codec Libraries

The entry points of `librle4k`, zlib, LZO, Snappy, Zstandard and Brotli that the pipeline
calls. Their sources are not shipped, so they are the fields of `CodecLibs`: an arbitrary
encode and decode function for each codec.

An encoder reports its status and the bytes it stored at the start of the target buffer.
A decoder reports its status and what it wrote, as a partial function from buffer offsets
to bytes.
-/

namespace Redcli

/-- `RLE4K_ERROR_TARGET_TOO_SMALL`. -/
def rle4kErrorTargetTooSmall : ℤ := -100

/-- `Z_OK`. -/
def zOk : ℤ := 0

/-- `LZO_E_OK`. -/
def lzoEOk : ℤ := 0

/-- The bytes that a decoder stores, by offset. -/
abbrev Writes := ℕ → Option UInt8

/-- A buffer after a number of stores. The size of a buffer never changes. -/
def Writes.apply (w : Writes) (buffer : Bytes) : Bytes :=
  buffer.mapIdx fun i b => (w i).getD b

/-- Stores of a sequence of bytes from the start of the buffer on. -/
def Writes.sequential (bytes : Bytes) : Writes := fun i => bytes[i]?

@[simp]
theorem Writes.length_apply (w : Writes) (buffer : Bytes) :
    (w.apply buffer).length = buffer.length := by
  simp [Writes.apply]

/-- A byte of a buffer after a number of stores. -/
theorem Writes.getElem?_apply (w : Writes) (buffer : Bytes) (i : ℕ) :
    (w.apply buffer)[i]? = buffer[i]?.map fun b => (w i).getD b :=
  List.getElem?_mapIdx

/-- Stores that begin with a sequence of bytes, whatever is stored behind it. -/
def Writes.Starts (w : Writes) (bytes : Bytes) : Prop := ∀ i < bytes.length, w i = bytes[i]?

@[simp]
theorem Writes.starts_sequential (bytes : Bytes) : (Writes.sequential bytes).Starts bytes :=
  fun _ _ => rfl

/-- The start of a buffer after stores that begin with a sequence of bytes. -/
theorem Writes.Starts.take_apply {w : Writes} {bytes buffer : Bytes} (h : w.Starts bytes)
    (hlen : bytes.length ≤ buffer.length) : (w.apply buffer).take bytes.length = bytes := by
  ext1 i
  by_cases hi : i < bytes.length
  · rw [List.getElem?_take_of_lt hi, getElem?_apply, h i hi, List.getElem?_eq_getElem hi,
      List.getElem?_eq_getElem (by omega)]
    rfl
  · rw [List.getElem?_eq_none (by rw [List.length_take]; omega),
      List.getElem?_eq_none (by omega)]

/-- A sequence of bytes is put into every buffer, and the rest of the buffer is kept, exactly if the
stores begin with the sequence and there are none behind it. -/
theorem Writes.forall_apply_eq_iff {w : Writes} {bytes : Bytes} {m : ℕ} (hm : bytes.length ≤ m) :
    (∀ buffer : Bytes, buffer.length = m →
        w.apply buffer = bytes ++ buffer.drop bytes.length) ↔
      w.Starts bytes ∧ ∀ i, bytes.length ≤ i → i < m → w i = none := by
  constructor
  · intro h
    -- a store does not depend on the byte that was there, and that byte can be any
    have hbyte : ∀ i < m, ∀ b : UInt8, some ((w i).getD b) = if i < bytes.length then bytes[i]?
        else some b := by
      intro i hi b
      have hat := congrArg (fun buffer => buffer[i]?)
        (h (List.replicate m b) List.length_replicate)
      simp only [getElem?_apply, List.getElem?_replicate, hi, if_true, Option.map_some] at hat
      rw [hat]
      split_ifs with hlt
      · exact List.getElem?_append_left hlt
      · rw [List.getElem?_append_right (by omega), List.getElem?_drop, List.getElem?_replicate,
          if_pos (by omega)]
    constructor
    · intro i hi
      cases hstore : w i with
      | some b => simpa [hstore, hi] using hbyte i (by omega) 0
      | none =>
          have h0 := hbyte i (by omega) 0
          have h1 := hbyte i (by omega) 1
          rw [hstore, if_pos hi] at h0 h1
          exact absurd (Option.some.inj (h0.trans h1.symm)) (by decide)
    · intro i hle hi
      cases hstore : w i with
      | none => rfl
      | some b =>
          have h0 := hbyte i hi 0
          have h1 := hbyte i hi 1
          rw [hstore, if_neg (by omega)] at h0 h1
          exact absurd (Option.some.inj (h0.symm.trans h1)) (by decide)
  · rintro ⟨hstarts, hrest⟩ buffer rfl
    rw [← hstarts.take_apply hm]
    conv_lhs => rw [← List.take_append_drop bytes.length (w.apply buffer)]
    congr 1
    -- nothing is stored to the rest
    ext1 i
    rw [List.getElem?_drop, List.getElem?_drop, getElem?_apply, List.length_take, length_apply,
      Nat.min_eq_left hm]
    by_cases hi : bytes.length + i < buffer.length
    · rw [hrest _ (by omega) hi]
      simp
    · rw [List.getElem?_eq_none (by omega)]
      rfl

/-- The library functions called by the encoders and by `rle4k_decode_payload`. An `uLong`
has 32 bits on the only supported platform (Windows x64), a `size_t` and an `lzo_uint`
have 64. -/
structure CodecLibs where
  /-- `rle4k_encode_block(block, height, width, encoded, stride, target_length)`. -/
  rle4kEncodeBlock : (block : Bytes) → (height width stride targetLength : UInt32) → ℤ × Bytes
  /-- `rle4k_decode_block(encoded, inlen, block, width, height, stride)`. -/
  rle4kDecodeBlock : (encoded : Bytes) → (width height stride : UInt32) → ℤ × Writes
  /-- `compress2(dest, &destLen, source, sourceLen, level)`; the new `destLen` is the number
  of bytes stored. -/
  compress2 : (destLen : UInt32) → (source : Bytes) → (level : ℤ) → ℤ × Bytes
  /-- `uncompress(dest, &destLen, source, sourceLen)`, with the new `destLen`. -/
  uncompress : (destLen : UInt32) → (source : Bytes) → ℤ × UInt32 × Writes
  /-- `lzo1x_1_compress(src, src_len, dst, &dst_len, wrkmem)`. -/
  lzo1x1Compress : (src : Bytes) → ℤ × Bytes
  /-- `lzo1x_999_compress_level(src, src_len, dst, &dst_len, …, level)`. -/
  lzo1x999CompressLevel : (src : Bytes) → (level : ℤ) → ℤ × Bytes
  /-- `lzo1x_decompress(src, src_len, dst, &dst_len, nullptr)`, with the new `dst_len`. -/
  lzo1xDecompress : (src : Bytes) → (dstLen : ℕ) → ℤ × ℕ × Writes
  /-- `snappy::RawCompress(input, input_length, compressed, &compressed_length)`. -/
  snappyRawCompress : (input : Bytes) → Bytes
  /-- `snappy::RawUncompress(compressed, compressed_length, uncompressed)`. -/
  snappyRawUncompress : (compressed : Bytes) → Bool × Writes
  /-- `ZSTD_compress(dst, dstCapacity, src, srcSize, level)`: an error code, or the bytes
  stored. -/
  zstdCompress : (dstCapacity : ℕ) → (src : Bytes) → (level : ℤ) → Except ℤ Bytes
  /-- `ZSTD_decompress(dst, dstCapacity, src, compressedSize)`: an error code or the number
  of bytes produced. -/
  zstdDecompress : (dstCapacity : ℕ) → (src : Bytes) → Except ℤ ℕ × Writes
  /-- `BrotliEncoderCompress(quality, lgwin, mode, input_size, input, &encoded_size, encoded)`:
  the bytes stored if it returns `BROTLI_TRUE`. -/
  brotliEncoderCompress : (quality lgwin : ℤ) → (input : Bytes) → (encodedSize : ℕ) →
    Option Bytes

end Redcli
