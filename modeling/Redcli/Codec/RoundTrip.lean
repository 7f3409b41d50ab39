import Redcli.Codec.DecodePayload
import Redcli.Codec.ReferenceLibraries

/-!
# Encoder/Decoder Round Trip

`process_pack` and `rle4k_decode_payload` live in two files with two dispatches over the
formats. This module relates them: a payload that `process_pack` returns is decoded back to
the source, as long as the capacity of the decode buffer survives the cast to `uLong`. What
happens to the rest of the buffer is up to the decoders that are told its capacity.

## Main results

* `processPack_eq_ok`: what is known about every target that `process_pack` returns;
* `decodes_iff`: the dispatch of the encoders agrees with the dispatch of `rle4k_decode_payload`,
  unless the format is GZIP and `data_length + 4096` does not fit into 32 bits;
* `processPack_roundTrips_iff`: the round trip holds exactly if, in addition, the decoders of
  GZIP, LZO2 and ZSTD leave the rest of the buffer alone.
-/

namespace Redcli

/-! ## What the libraries document -/

/-- The documented behaviour of the codec libraries: every decoder inverts its encoder, given
the exact payload and enough room; `uncompress` reports too little room; error codes are
negative, those of Zstandard at most `ZSTD_error_maxCode`. A decoder that is told the capacity of
its buffer may use all of it; the other two store the block and nothing else. -/
structure CodecLibs.Documented (libs : CodecLibs) : Prop where
  rle4k : ∀ block height width stride cap len encoded,
    libs.rle4kEncodeBlock block height width stride cap = (len, encoded) → 0 ≤ len →
      len = encoded.length ∧ 0 ≤ (libs.rle4kDecodeBlock encoded width height stride).1 ∧
        (libs.rle4kDecodeBlock encoded width height stride).2 =
          Writes.sequential (block.take (stride.toNat * height.toNat))
  gzip : ∀ cap source level encoded, libs.compress2 cap source level = (zOk, encoded) →
    ∀ destLen : UInt32, source.length ≤ destLen.toNat →
      (libs.uncompress destLen encoded).1 = zOk ∧
        (libs.uncompress destLen encoded).2.2.Starts source
  gzip_room : ∀ cap source level encoded, libs.compress2 cap source level = (zOk, encoded) →
    ∀ destLen : UInt32, destLen.toNat < source.length →
      (libs.uncompress destLen encoded).1 ≠ zOk
  gzip_error : ∀ cap source level,
    (libs.compress2 cap source level).1 ≠ zOk → (libs.compress2 cap source level).1 < 0
  lzo1 : ∀ src encoded, libs.lzo1x1Compress src = (lzoEOk, encoded) →
    ∀ dstLen, src.length ≤ dstLen →
      (libs.lzo1xDecompress encoded dstLen).1 = lzoEOk ∧
        (libs.lzo1xDecompress encoded dstLen).2.2.Starts src
  lzo1_error : ∀ src, (libs.lzo1x1Compress src).1 ≠ lzoEOk → (libs.lzo1x1Compress src).1 < 0
  lzo999 : ∀ src level encoded, libs.lzo1x999CompressLevel src level = (lzoEOk, encoded) →
    ∀ dstLen, src.length ≤ dstLen →
      (libs.lzo1xDecompress encoded dstLen).1 = lzoEOk ∧
        (libs.lzo1xDecompress encoded dstLen).2.2.Starts src
  lzo999_error : ∀ src level,
    (libs.lzo1x999CompressLevel src level).1 ≠ lzoEOk →
      (libs.lzo1x999CompressLevel src level).1 < 0
  snappy : ∀ input, libs.snappyRawUncompress (libs.snappyRawCompress input) =
    (true, Writes.sequential input)
  zstd : ∀ cap src level encoded, libs.zstdCompress cap src level = .ok encoded →
    ∀ dstCap, src.length ≤ dstCap →
      (libs.zstdDecompress dstCap encoded).1 = .ok src.length ∧
        (libs.zstdDecompress dstCap encoded).2.Starts src
  zstd_error : ∀ cap src level code, libs.zstdCompress cap src level = .error code → code ≤ 120

/-- The documented behaviour of the bitmap container: a new bitmap has the requested format,
buffers have a 32-bit size, and `shrink_to_fit` keeps the payload. -/
structure RasterLib.Documented (bitmaps : RasterLib) : Prop where
  create_format : ∀ settings height t, bitmaps.create settings height = .ok t →
    t.format = settings.format
  create_size : ∀ settings height t, bitmaps.create settings height = .ok t →
    t.bytes.length < 2 ^ 32
  resize_size : ∀ b, (bitmaps.resize b).bytes.length < 2 ^ 32
  shrink_payload : ∀ b, (bitmaps.shrinkToFit b).payload = b.payload

/-- A checked decoder restores what a checked encoder stored, given enough room. -/
private theorem boundedDecode_of_boundedEncode {ok tooSmall : ℤ} (corrupt : ℤ)
    (hne : tooSmall ≠ ok) {cap : ℕ} {source encoded : Bytes}
    (h : boundedEncode ok tooSmall cap source = (ok, encoded)) (dstLen : ℕ) :
    (source.length ≤ dstLen → boundedDecode ok tooSmall corrupt dstLen encoded =
        (ok, source.length, Writes.sequential source)) ∧
      (dstLen < source.length → (boundedDecode ok tooSmall corrupt dstLen encoded).1 ≠ ok) := by
  -- with the status `ok` the encoder has stored the whole encoded block
  obtain rfl : zeroRunEncode source = encoded := by
    unfold boundedEncode at h
    split_ifs at h
    · simpa using h
    · exact absurd (congrArg Prod.fst h) hne
  rw [boundedDecode, zeroRunDecode_zeroRunEncode]
  exact ⟨fun hle => if_pos hle, fun hlt => by simp only [if_neg (not_le.mpr hlt)]; exact hne⟩

/-- The reference codecs behave as documented. -/
theorem referenceLibs_documented : referenceLibs.Documented where
  rle4k block height width stride cap len encoded h hlen := by
    simp only [referenceLibs] at h
    split_ifs at h
    · obtain ⟨rfl, rfl⟩ := Prod.mk.inj h
      simp [referenceLibs]
    · obtain ⟨rfl, -⟩ := Prod.mk.inj h
      exact absurd hlen (by decide)
  gzip cap source level encoded h destLen hle := by
    have := (boundedDecode_of_boundedEncode (-3) (by decide) h destLen.toNat).1 hle
    simp [referenceLibs, this]
  gzip_room cap source level encoded h destLen hlt :=
    (boundedDecode_of_boundedEncode (-3) (by decide) h destLen.toNat).2 hlt
  gzip_error cap source level h := by
    simp only [referenceLibs, boundedEncode] at h ⊢
    split_ifs at h ⊢
    · exact absurd rfl h
    · decide
  lzo1 src encoded h dstLen hle := by
    obtain rfl : zeroRunEncode src = encoded := by simpa [referenceLibs] using h
    simp [referenceLibs, boundedDecode, hle]
  lzo1_error src h := absurd rfl h
  lzo999 src level encoded h dstLen hle := by
    simp only [referenceLibs] at h
    split_ifs at h
    · obtain rfl : zeroRunEncode src = encoded := by simpa using h
      simp [referenceLibs, boundedDecode, hle]
    · obtain ⟨hrc, -⟩ := Prod.mk.inj h
      exact absurd hrc (by decide)
  lzo999_error src level h := by
    simp only [referenceLibs] at h ⊢
    split_ifs at h ⊢
    · exact absurd rfl h
    · decide
  snappy input := by simp [referenceLibs]
  zstd cap src level encoded h dstCap hle := by
    simp only [referenceLibs] at h
    split_ifs at h
    obtain rfl : zeroRunEncode src = encoded := by simpa using h
    simp [referenceLibs, hle]
  zstd_error cap src level code h := by
    simp only [referenceLibs] at h
    split_ifs at h
    obtain rfl : 70 = code := by simpa using h
    decide

/-- The reference bitmap container behaves as documented. -/
theorem referenceBitmaps_documented : referenceBitmaps.Documented where
  create_format settings height t h := by
    obtain rfl : _ = t := by simpa [referenceBitmaps] using h
    rfl
  create_size settings height t h := by
    obtain rfl : _ = t := by simpa [referenceBitmaps] using h
    simp [BitmapInfo.bytes]
  resize_size b := by
    simp only [referenceBitmaps, BitmapInfo.bytes, Option.getD_some, List.length_replicate]
    decide
  shrink_payload b := by
    simp [referenceBitmaps, BitmapInfo.payload, BitmapInfo.bytes]

/-! ## Targets of `process_pack` -/

variable {libs : CodecLibs} {bitmaps : RasterLib} {enc : FormatEncoder} {src t : BitmapInfo}
  {args : EncodeFormatArgs}

/-- The cast to `uint32_t` keeps a length below `2 ^ 32`. -/
theorem toNat_ofInt_natCast {n : ℕ} (hn : n < 2 ^ 32) : (UInt32.ofInt (n : ℤ)).toNat = n := by
  have : ((n : ℤ) % 2 ^ 32).toNat = n := by omega
  rw [UInt32.ofInt, this, UInt32.toNat_ofNat', Nat.mod_eq_of_lt (by omega)]

/-- `packed` succeeds only if the payload fits, and then the target holds it. -/
theorem packed_eq_ok {dst dst' : BitmapInfo} {encoded : Bytes} {result : ℤ}
    (hsize : dst.bytes.length < 2 ^ 32)
    (h : packed dst encoded encoded.length = .ok (result, dst')) :
    dst'.payload = encoded := by
  unfold packed storePayload at h
  split_ifs at h with hfit
  · obtain ⟨-, rfl⟩ : _ ∧ _ = dst' := by simpa [bind, Except.bind, pure, Except.pure] using h
    simp [BitmapInfo.payload, BitmapInfo.bytes, toNat_ofInt_natCast (lt_of_le_of_lt hfit hsize)]
  · simp [bind, Except.bind] at h

/-- Whatever `process_pack` returns was packed by the encoder's `internal_pack` into a fresh
bitmap, with a non-negative result. -/
theorem processPack_eq_ok (hbitmaps : bitmaps.Documented)
    (h : enc.processPack libs bitmaps (some src) args = .ok t) :
    ValidBitmap src ∧ ∃ dst result dst', dst.format = enc.getSupportedFormat ∧
      dst.bytes.length < 2 ^ 32 ∧
      enc.internalPack libs bitmaps src dst args = .ok (result, dst') ∧ 0 ≤ result ∧
      t.payload = dst'.payload := by
  unfold FormatEncoder.processPack at h
  -- the steps of `process_pack`, each of which must have succeeded
  obtain ⟨source, hvalid, h⟩ := except_bind_eq_ok.mp h
  obtain ⟨hsource, hsrc⟩ := validateBitmap_eq_ok_iff.mp (except_mapError_eq_ok.mp hvalid)
  obtain rfl : src = source := by simpa using hsource
  obtain ⟨dst, hcreate, h⟩ := except_bind_eq_ok.mp h
  rw [except_mapError_eq_ok] at hcreate
  obtain ⟨⟨result, dst'⟩, hpack, h⟩ := except_bind_eq_ok.mp h
  simp only at h
  split_ifs at h with hneg
  · cases h
  · obtain rfl : _ = t := by simpa [pure, Except.pure] using h
    refine ⟨hsrc, dst, result, dst', hbitmaps.create_format _ _ _ hcreate,
      hbitmaps.create_size _ _ _ hcreate, hpack, not_lt.mp hneg, ?_⟩
    rw [hbitmaps.shrink_payload]
    rfl

/-! ## What each `internal_pack` leaves in the target -/

section InternalPack

variable {dst dst' : BitmapInfo} {result : ℤ}

/-- A failed `internal_pack` of a negative library code has a negative result. -/
theorem packError_neg {rc : ℤ} (hrc : rc < 0)
    (h : packError dst rc = .ok (result, dst')) : result < 0 := by
  obtain ⟨rfl, -⟩ : _ = result ∧ _ := by simpa [packError, pure, Except.pure] using h
  -- the offset of the format only makes the code smaller
  have : 0 ≤ dst.format.value := by cases dst.format <;> decide
  omega

/-- RLE4K: the payload is what the encoder stored, at the first try or at the retry into the
larger buffer. -/
theorem rle4kInternalPack_payload (hlibs : libs.Documented) (hbitmaps : bitmaps.Documented)
    (hsize : dst.bytes.length < 2 ^ 32) (hresult : 0 ≤ result)
    (h : rle4kInternalPack libs bitmaps src dst = .ok (result, dst')) :
    ∃ cap encoded, libs.rle4kEncodeBlock src.bytes src.height src.width src.getStrideBytes cap =
      ((encoded.length : ℤ), encoded) ∧ dst'.payload = encoded := by
  -- one encoder call, into a buffer of a 32-bit size, that ended without an error code
  have hcall : ∀ (cap : UInt32) (dst₀ : BitmapInfo), dst₀.bytes.length < 2 ^ 32 →
      (if (libs.rle4kEncodeBlock src.bytes src.height src.width src.getStrideBytes cap).1 < 0 then
          pure ((libs.rle4kEncodeBlock src.bytes src.height src.width src.getStrideBytes cap).1,
            dst₀)
        else packed dst₀
          (libs.rle4kEncodeBlock src.bytes src.height src.width src.getStrideBytes cap).2
          (libs.rle4kEncodeBlock src.bytes src.height src.width src.getStrideBytes cap).1) =
            Except.ok (result, dst') →
      ∃ cap encoded, libs.rle4kEncodeBlock src.bytes src.height src.width src.getStrideBytes cap =
        ((encoded.length : ℤ), encoded) ∧ dst'.payload = encoded := by
    intro cap dst₀ hsize₀ h
    obtain ⟨len, encoded, hcode⟩ : ∃ len encoded, libs.rle4kEncodeBlock src.bytes src.height
        src.width src.getStrideBytes cap = (len, encoded) := ⟨_, _, rfl⟩
    simp only [hcode] at h
    split_ifs at h with hneg
    · obtain ⟨rfl, -⟩ : len = result ∧ _ := by simpa [pure, Except.pure] using h
      omega
    · have hlen := (hlibs.rle4k _ _ _ _ _ _ _ hcode (not_lt.mp hneg)).1
      subst hlen
      exact ⟨cap, encoded, hcode, packed_eq_ok hsize₀ h⟩
  unfold rle4kInternalPack at h
  by_cases hsmall : (libs.rle4kEncodeBlock src.bytes src.height src.width src.getStrideBytes
      ({ dst with dataLength := 0 } : BitmapInfo).getBufferSize).1 = rle4kErrorTargetTooSmall
  · -- the retry into the buffer that `resize` has enlarged
    simp only [hsmall, if_true] at h
    exact hcall _ _ (hbitmaps.resize_size _) h
  · simp only [hsmall, if_false] at h
    exact hcall _ { dst with dataLength := 0 } hsize h

/-- GZIP: the payload is what `compress2` stored. -/
theorem gzipInternalPack_payload (hlibs : libs.Documented)
    (hsize : dst.bytes.length < 2 ^ 32) (hresult : 0 ≤ result)
    (h : gzipInternalPack libs src dst args = .ok (result, dst')) :
    ∃ cap level encoded, libs.compress2 cap src.payload level = (zOk, encoded) ∧
      dst'.payload = encoded := by
  unfold gzipInternalPack at h
  simp only at h
  split_ifs at h with hrc
  · exact absurd (packError_neg (hlibs.gzip_error _ _ _ hrc) h) (not_lt.mpr hresult)
  · exact ⟨_, _, _, Prod.ext (not_not.mp hrc) rfl, packed_eq_ok hsize h⟩

/-- LZO2: the payload is what one of the two compressors stored. -/
theorem lzo2InternalPack_payload (hlibs : libs.Documented)
    (hsize : dst.bytes.length < 2 ^ 32) (hresult : 0 ≤ result)
    (h : lzo2InternalPack libs src dst args = .ok (result, dst')) :
    ∃ encoded, (libs.lzo1x1Compress src.payload = (lzoEOk, encoded) ∨
        ∃ level, libs.lzo1x999CompressLevel src.payload level = (lzoEOk, encoded)) ∧
      dst'.payload = encoded := by
  unfold lzo2InternalPack at h
  simp only at h
  -- the level decides which of the two compressors has run
  by_cases hlevel : clampLevel 1 999 args.lzo2Level = 1
  · simp only [hlevel, if_true] at h
    split_ifs at h with hrc
    · exact absurd (packError_neg (hlibs.lzo1_error _ hrc) h) (not_lt.mpr hresult)
    · exact ⟨_, .inl (Prod.ext (not_not.mp hrc) rfl), packed_eq_ok hsize h⟩
  · simp only [hlevel, if_false] at h
    split_ifs at h with hrc
    · exact absurd (packError_neg (hlibs.lzo999_error _ _ hrc) h) (not_lt.mpr hresult)
    · exact ⟨_, .inr ⟨_, Prod.ext (not_not.mp hrc) rfl⟩, packed_eq_ok hsize h⟩

/-- SNAPPY: the payload is what `RawCompress` stored. -/
theorem snappyInternalPack_payload (hsize : dst.bytes.length < 2 ^ 32)
    (h : snappyInternalPack libs src dst = .ok (result, dst')) :
    dst'.payload = libs.snappyRawCompress src.payload :=
  packed_eq_ok hsize h

/-- ZSTD: the payload is what `ZSTD_compress` stored; its positive error codes stay below the
offset of the format. -/
theorem zstdInternalPack_payload (hlibs : libs.Documented) (hformat : dst.format = .zstd)
    (hsize : dst.bytes.length < 2 ^ 32) (hresult : 0 ≤ result)
    (h : zstdInternalPack libs src dst args = .ok (result, dst')) :
    ∃ cap level encoded, libs.zstdCompress cap src.payload level = .ok encoded ∧
      dst'.payload = encoded := by
  unfold zstdInternalPack at h
  simp only at h
  rcases hz : libs.zstdCompress dst.getBufferSize.toNat src.payload
      (clampLevel 1 22 args.zstdLevel) with code | encoded
  · simp only [hz] at h
    -- the positive error codes stay far below the offset of the format
    have hcode := hlibs.zstd_error _ _ _ _ hz
    obtain ⟨rfl, -⟩ : _ = result ∧ _ := by simpa [packError, pure, Except.pure] using h
    rw [hformat, RasterOutputFormat.value] at hresult
    omega
  · simp only [hz] at h
    exact ⟨_, _, _, hz, packed_eq_ok hsize h⟩

end InternalPack

/-! ## The two dispatches agree -/

/-- A source whose `data_length` covers its rows, inside its buffer. -/
structure FullBitmap (src : BitmapInfo) : Prop where
  dataLength_eq : src.dataLength.toNat = src.getStrideBytes.toNat * src.height.toNat
  dataLength_le : src.dataLength.toNat ≤ src.bytes.length

/-- The payload has `data_length` bytes. -/
theorem FullBitmap.length_payload (hsrc : FullBitmap src) :
    src.payload.length = src.dataLength.toNat :=
  List.length_take_of_le hsrc.dataLength_le

section RoundTrip

variable (libs : CodecLibs) (enc : FormatEncoder) (src t : BitmapInfo)

/-- The round trip that the encoder and `rle4k_decode_payload` promise together: decoding the
target `t` of `src` succeeds, restores the payload of `src` at the start of the buffer, and
stores nothing behind it. -/
def RoundTrips : Prop :=
  ∀ dst : Bytes, dst.length = src.dataLength.toNat + 4096 →
    rle4kDecodePayload libs enc.getSupportedFormat.value (some t) src.width src.height
        src.getStrideBytes (some dst) (src.dataLength.toNat + 4096) =
      (true, some (src.payload ++ dst.drop src.dataLength.toNat))

/-- The decoder call for the target `t` of `src`. -/
def targetDecoder : Option Decoding :=
  decoderCall libs enc.getSupportedFormat.value t src.width src.height src.getStrideBytes
    (src.dataLength.toNat + 4096)

/-- The decoder succeeds, and the first bytes that it stores are those of the source. -/
def Decodes : Prop :=
  ∃ d, targetDecoder libs enc src t = some d ∧ d.ok = true ∧ d.writes.Starts src.payload

/-- The decoder stores nothing to the 4096 bytes behind the source. -/
def LeavesRest : Prop :=
  ∀ d, targetDecoder libs enc src t = some d →
    ∀ i, src.dataLength.toNat ≤ i → i < src.dataLength.toNat + 4096 → d.writes i = none

end RoundTrip

/-- What the decoder for ZSTD does not store. -/
theorem LeavesRest.zstd (h : LeavesRest libs .zstd src t) {i : ℕ} (hlo : src.dataLength.toNat ≤ i)
    (hhi : i < src.dataLength.toNat + 4096) :
    (libs.zstdDecompress (src.dataLength.toNat + 4096) t.payload).2 i = none :=
  h _ rfl i hlo hhi

/-- Every encoder but Brotli has a decoder. -/
theorem exists_targetDecoder (henc : enc ≠ .brotli) :
    ∃ d, targetDecoder libs enc src t = some d := by
  cases enc with
  | brotli => exact absurd rfl henc
  | _ => exact ⟨_, rfl⟩

/-- The two parts of the round trip: one for the bytes of the source, one for the rest of the
buffer. -/
theorem roundTrips_iff (henc : enc ≠ .brotli) (hsrc : FullBitmap src) :
    RoundTrips libs enc src t ↔ Decodes libs enc src t ∧ LeavesRest libs enc src t := by
  obtain ⟨d, hd⟩ := @exists_targetDecoder libs enc src t henc
  have hstores := @Writes.forall_apply_eq_iff d.writes src.payload (src.dataLength.toNat + 4096)
    (by rw [hsrc.length_payload]; omega)
  rw [hsrc.length_payload] at hstores
  simp only [RoundTrips, rle4kDecodePayload_eq_decoderCall libs
    (mt enc.value_eq_brotli_iff.mp henc) t _ _ _ _
    (by omega : src.dataLength.toNat + 4096 ≠ 0)]
  rw [targetDecoder] at hd
  simp only [Decodes, LeavesRest, targetDecoder, hd, Option.elim_some, Prod.mk.injEq,
    Option.some.injEq, exists_eq_left', forall_eq']
  rw [and_assoc, ← hstores]
  constructor
  · intro h
    exact ⟨(h (.replicate _ 0) List.length_replicate).1, fun dst hdst => (h dst hdst).2⟩
  · exact fun h dst hdst => ⟨h.1, h.2 dst hdst⟩

section Formats

variable (hlibs : libs.Documented) (hsrc : FullBitmap src) {encoded : Bytes}
  (hpayload : t.payload = encoded)
include hlibs hsrc hpayload

/-- RLE4K: height and width change places between the encoder and the decoder, the payload
length is the one that the encoder reported. -/
theorem rle4k_roundTrips {cap : UInt32}
    (henc : libs.rle4kEncodeBlock src.bytes src.height src.width src.getStrideBytes cap =
      ((encoded.length : ℤ), encoded)) :
    Decodes libs .rle4k src t ∧ LeavesRest libs .rle4k src t := by
  subst hpayload
  obtain ⟨-, hok, hwrites⟩ := hlibs.rle4k _ _ _ _ _ _ _ henc (Int.natCast_nonneg _)
  -- the decoder stores `stride * height` bytes, which is the whole payload
  rw [← hsrc.dataLength_eq] at hwrites
  refine ⟨⟨_, rfl, decide_eq_true hok, ?_⟩, ?_⟩
  · show (libs.rle4kDecodeBlock t.payload src.width src.height src.getStrideBytes).2.Starts _
    rw [hwrites]
    exact Writes.starts_sequential _
  · rintro d hd i hi -
    obtain rfl := Option.some.inj hd
    show (libs.rle4kDecodeBlock t.payload src.width src.height src.getStrideBytes).2 i = none
    rw [hwrites]
    exact List.getElem?_eq_none (hsrc.length_payload.trans_le hi)

/-- `uncompress` sees the low 32 bits of the capacity, and these leave enough room exactly if there
are no others. -/
theorem uncompress_ok_iff {cap : UInt32} {level : ℤ}
    (henc : libs.compress2 cap src.payload level = (zOk, encoded)) :
    (libs.uncompress (UInt32.ofNat (src.dataLength.toNat + 4096)) t.payload).1 = zOk ↔
      src.dataLength.toNat + 4096 < 2 ^ 32 := by
  subst hpayload
  have hn := src.dataLength.toNat_lt
  have hcap : (UInt32.ofNat (src.dataLength.toNat + 4096)).toNat =
      (src.dataLength.toNat + 4096) % 2 ^ 32 := UInt32.toNat_ofNat'
  constructor
  · intro hok
    by_contra hbig
    -- the capacity wraps around to less than 4096 bytes
    exact hlibs.gzip_room _ _ _ _ henc _ (by rw [hcap, hsrc.length_payload]; omega) hok
  · intro hsmall
    exact (hlibs.gzip _ _ _ _ henc _ (by rw [hcap, hsrc.length_payload]; omega)).1

/-- GZIP: the capacity decides. -/
theorem gzip_decodes_iff {cap : UInt32} {level : ℤ}
    (henc : libs.compress2 cap src.payload level = (zOk, encoded)) :
    Decodes libs .gzip src t ↔ src.dataLength.toNat + 4096 < 2 ^ 32 := by
  rw [← uncompress_ok_iff hlibs hsrc hpayload henc]
  subst hpayload
  constructor
  · rintro ⟨d, hd, hok, -⟩
    obtain rfl := Option.some.inj hd
    exact of_decide_eq_true hok
  · intro hok
    refine ⟨_, rfl, decide_eq_true hok, ?_⟩
    -- a capacity that is too small would have been reported
    refine (hlibs.gzip _ _ _ _ henc _ ?_).2
    by_contra hsmall
    exact hlibs.gzip_room _ _ _ _ henc _ (not_le.mp hsmall) hok

/-- LZO2: both compressors share one decompressor. -/
theorem lzo2_decodes
    (henc : libs.lzo1x1Compress src.payload = (lzoEOk, encoded) ∨
      ∃ level, libs.lzo1x999CompressLevel src.payload level = (lzoEOk, encoded)) :
    Decodes libs .lzo2 src t := by
  subst hpayload
  -- 4096 bytes more than the decompressor needs
  have hle : src.payload.length ≤ src.dataLength.toNat + 4096 := by
    rw [hsrc.length_payload]
    omega
  rcases henc with henc | ⟨level, henc⟩
  · obtain ⟨hok, hwrites⟩ := hlibs.lzo1 _ _ henc _ hle
    exact ⟨_, rfl, decide_eq_true hok, hwrites⟩
  · obtain ⟨hok, hwrites⟩ := hlibs.lzo999 _ _ _ henc _ hle
    exact ⟨_, rfl, decide_eq_true hok, hwrites⟩

/-- SNAPPY: the decoder knows its output length from the payload alone. -/
theorem snappy_roundTrips (henc : libs.snappyRawCompress src.payload = encoded) :
    Decodes libs .snappy src t ∧ LeavesRest libs .snappy src t := by
  have hdecode := hlibs.snappy src.payload
  rw [henc, ← hpayload] at hdecode
  refine ⟨⟨_, rfl, congrArg Prod.fst hdecode, ?_⟩, ?_⟩
  · show (libs.snappyRawUncompress t.payload).2.Starts _
    rw [hdecode]
    exact Writes.starts_sequential _
  · rintro d hd i hi -
    obtain rfl := Option.some.inj hd
    show (libs.snappyRawUncompress t.payload).2 i = none
    rw [hdecode]
    exact List.getElem?_eq_none (hsrc.length_payload.trans_le hi)

/-- ZSTD: the capacity is passed on unchanged. -/
theorem zstd_decodes {cap : ℕ} {level : ℤ}
    (henc : libs.zstdCompress cap src.payload level = .ok encoded) :
    Decodes libs .zstd src t := by
  subst hpayload
  obtain ⟨hok, hwrites⟩ := hlibs.zstd _ _ _ _ henc (src.dataLength.toNat + 4096)
    (by rw [hsrc.length_payload]; omega)
  refine ⟨_, rfl, ?_, hwrites⟩
  rw [hok]
  rfl

end Formats

/-- For every encoder that has a decoder, a target returned by `process_pack` is decoded to its
source, except that GZIP needs `data_length + 4096` to fit into the 32 bits of an `uLong`. The
decoders that are not told a capacity leave the rest of the buffer alone. -/
theorem decodes_iff (hlibs : libs.Documented) (hbitmaps : bitmaps.Documented)
    (henc : enc ≠ .brotli) (hsrc : FullBitmap src)
    (h : enc.processPack libs bitmaps (some src) args = .ok t) :
    (Decodes libs enc src t ↔ (enc = .gzip → src.dataLength.toNat + 4096 < 2 ^ 32)) ∧
      (enc = .rle4k ∨ enc = .snappy → LeavesRest libs enc src t) := by
  obtain ⟨-, dst, result, dst', hformat, hsize, hpack, hresult, hpayload⟩ :=
    processPack_eq_ok hbitmaps h
  cases enc with
  | rle4k =>
      obtain ⟨cap, encoded, hcode, hdst'⟩ :=
        rle4kInternalPack_payload hlibs hbitmaps hsize hresult hpack
      have htrip := rle4k_roundTrips hlibs hsrc (hpayload.trans hdst') hcode
      exact ⟨by simpa using htrip.1, fun _ => htrip.2⟩
  | gzip =>
      obtain ⟨cap, level, encoded, hcode, hdst'⟩ :=
        gzipInternalPack_payload hlibs hsize hresult hpack
      have hdecodes := gzip_decodes_iff hlibs hsrc (hpayload.trans hdst') hcode
      exact ⟨by simpa using hdecodes, by simp⟩
  | lzo2 =>
      obtain ⟨encoded, hcode, hdst'⟩ := lzo2InternalPack_payload hlibs hsize hresult hpack
      have hdecodes := lzo2_decodes hlibs hsrc (hpayload.trans hdst') hcode
      exact ⟨by simpa using hdecodes, by simp⟩
  | snappy =>
      have hdst' := snappyInternalPack_payload hsize hpack
      have htrip := snappy_roundTrips hlibs hsrc (hpayload.trans hdst') rfl
      exact ⟨by simpa using htrip.1, fun _ => htrip.2⟩
  | zstd =>
      obtain ⟨cap, level, encoded, hcode, hdst'⟩ :=
        zstdInternalPack_payload hlibs hformat hsize hresult hpack
      have hdecodes := zstd_decodes hlibs hsrc (hpayload.trans hdst') hcode
      exact ⟨by simpa using hdecodes, by simp⟩
  | brotli => exact absurd rfl henc

/-- **Round trip of the dispatches.** For every encoder that has a decoder, a target returned
by `process_pack` is decoded back to its source, and nothing else is stored, exactly if for GZIP
`data_length + 4096` fits into the 32 bits of an `uLong`, and the decoders of GZIP, LZO2 and
ZSTD do not use the 4096 bytes of the capacity that they do not need. -/
theorem processPack_roundTrips_iff (hlibs : libs.Documented) (hbitmaps : bitmaps.Documented)
    (henc : enc ≠ .brotli) (hsrc : FullBitmap src)
    (h : enc.processPack libs bitmaps (some src) args = .ok t) :
    RoundTrips libs enc src t ↔
      (enc = .gzip → src.dataLength.toNat + 4096 < 2 ^ 32) ∧
        (enc = .gzip ∨ enc = .lzo2 ∨ enc = .zstd → LeavesRest libs enc src t) := by
  obtain ⟨hdecodes, hrest⟩ := decodes_iff hlibs hbitmaps henc hsrc h
  rw [roundTrips_iff henc hsrc, hdecodes]
  refine and_congr_right fun _ => ⟨fun h _ => h, fun h => ?_⟩
  -- the other two decoders leave the rest alone anyway
  cases enc with
  | rle4k => exact hrest (.inl rfl)
  | gzip => exact h (.inl rfl)
  | lzo2 => exact h (.inr (.inl rfl))
  | snappy => exact hrest (.inr rfl)
  | zstd => exact h (.inr (.inr rfl))
  | brotli => exact absurd rfl henc

/-! ## Targets of the reference libraries -/

/-- The reference libraries pack every valid source that encodes into 64 bytes. -/
theorem gzip_processPack_reference (hsrc : ValidBitmap src)
    (hfit : (zeroRunEncode src.payload).length ≤ 64) (args : EncodeFormatArgs) :
    ∃ t, FormatEncoder.gzip.processPack referenceLibs referenceBitmaps (some src) args =
      .ok t := by
  have hvalid : validateBitmap (some src) = .ok src := validateBitmap_eq_ok_iff.mpr ⟨rfl, hsrc⟩
  have hcode : ∀ cap : UInt32, cap = 64 → ∀ level,
      referenceLibs.compress2 cap src.payload level = (zOk, zeroRunEncode src.payload) := by
    rintro cap rfl level
    exact if_pos hfit
  have hresult : ¬ toInt (zeroRunEncode src.payload).length < 0 := by
    rw [toInt, Int.bmod_eq_emod_of_lt] <;> omega
  simp [FormatEncoder.processPack, hvalid, Except.mapError, FormatEncoder.internalPack,
    gzipInternalPack, referenceBitmaps, BitmapInfo.getBufferSize, hcode, packed, storePayload,
    BitmapInfo.bytes, hfit, bind, Except.bind, pure, Except.pure, hresult]

/-- The reference decoder for GZIP leaves the rest of its buffer alone. -/
theorem gzip_leavesRest_reference (hsrc : FullBitmap src)
    (hsmall : src.dataLength.toNat + 4096 < 2 ^ 32)
    (h : FormatEncoder.gzip.processPack referenceLibs referenceBitmaps (some src) args = .ok t) :
    LeavesRest referenceLibs .gzip src t := by
  obtain ⟨-, dst, result, dst', -, hsize, hpack, hresult, hpayload⟩ :=
    processPack_eq_ok referenceBitmaps_documented h
  have hgzip : gzipInternalPack referenceLibs src dst args = .ok (result, dst') := hpack
  obtain ⟨cap, level, encoded, hcode, hdst'⟩ :=
    gzipInternalPack_payload referenceLibs_documented hsize hresult hgzip
  have hroom : src.payload.length ≤ (UInt32.ofNat (src.dataLength.toNat + 4096)).toNat := by
    rw [hsrc.length_payload, UInt32.toNat_ofNat_of_lt' hsmall]
    omega
  have hdecode := (boundedDecode_of_boundedEncode (-3) (by decide) hcode _).1 hroom
  rintro d hd i hi -
  obtain rfl := Option.some.inj hd
  show (boundedDecode zOk (-5) (-3) _ t.payload).2.2 i = none
  rw [hpayload.trans hdst', hdecode]
  exact List.getElem?_eq_none (hsrc.length_payload.trans_le hi)

/-- Two rows survive the way through GZIP. -/
theorem processPack_roundTrips_twoRows :
    ∃ t, FormatEncoder.gzip.processPack referenceLibs referenceBitmaps (some twoRows) {} = .ok t ∧
      RoundTrips referenceLibs .gzip twoRows t := by
  obtain ⟨t, ht⟩ : ∃ t, FormatEncoder.gzip.processPack referenceLibs referenceBitmaps
      (some twoRows) {} = .ok t :=
    gzip_processPack_reference ⟨by decide, by decide, by decide, by decide, by decide, by decide,
      by decide⟩ (by decide) {}
  have hfull : FullBitmap twoRows := ⟨by decide, by decide⟩
  refine ⟨t, ht, (processPack_roundTrips_iff referenceLibs_documented referenceBitmaps_documented
    (by decide) hfull ht).mpr ⟨fun _ => by decide, fun _ => ?_⟩⟩
  exact gzip_leavesRest_reference hfull (by decide) ht

/-- Zeros that fill `height` rows of `stride` bytes. -/
def blankRows (width height stride : UInt32) : BitmapInfo where
  width := width
  height := height
  dataLength := stride * height
  data := some (List.replicate (stride * height).toNat 0)
  sourceLength := stride * height
  format := .bitmap
  extend := { strideBytes := stride, dataBufferSize := stride * height }

/-- The buffer of a blank bitmap has the size of its payload. -/
theorem length_bytes_blankRows (width height stride : UInt32) :
    (blankRows width height stride).bytes.length =
      (blankRows width height stride).dataLength.toNat :=
  List.length_replicate

/-- The payload of a blank bitmap. -/
theorem payload_blankRows (width height stride : UInt32) :
    (blankRows width height stride).payload =
      List.replicate (blankRows width height stride).dataLength.toNat 0 :=
  List.take_of_length_le (length_bytes_blankRows width height stride).le

/-- A blank bitmap of `2 ^ 32 - 8` bytes: its capacity `2 ^ 32 + 4088` reaches `uncompress` as
4088 bytes, and `rle4k_decode_payload` reports a failure. -/
theorem not_roundTrips_blankRows :
    referenceLibs.Documented ∧ referenceBitmaps.Documented ∧
      ValidBitmap (blankRows 133696 256999 16712) ∧
      FullBitmap (blankRows 133696 256999 16712) ∧
      ∃ t, FormatEncoder.gzip.processPack referenceLibs referenceBitmaps
          (some (blankRows 133696 256999 16712)) {} = .ok t ∧
        ¬ RoundTrips referenceLibs .gzip (blankRows 133696 256999 16712) t := by
  have hpayload := payload_blankRows 133696 256999 16712
  have hlength : (blankRows 133696 256999 16712).dataLength.toNat = 4294967288 := rfl
  have hvalid : ValidBitmap (blankRows 133696 256999 16712) :=
    ⟨Option.some_ne_none _, by decide, by decide, by decide, by decide, by decide, by decide⟩
  have hfull : FullBitmap (blankRows 133696 256999 16712) :=
    ⟨by decide, (length_bytes_blankRows 133696 256999 16712).ge⟩
  refine ⟨referenceLibs_documented, referenceBitmaps_documented, hvalid, hfull, ?_⟩
  -- all bytes are zero, so the encoded block is five bytes long
  have hencode : zeroRunEncode (blankRows 133696 256999 16712).payload =
      0 :: lengthBytes 4294967288 := by
    rw [hpayload, hlength, zeroRunEncode_replicate (by decide)]
  obtain ⟨t, ht⟩ := gzip_processPack_reference hvalid (by rw [hencode]; simp [lengthBytes]) {}
  refine ⟨t, ht, fun hround => ?_⟩
  -- the round trip would need a capacity below `2 ^ 32`
  have hdecodes := ((roundTrips_iff (by decide) hfull).mp hround).1
  have hsmall := (decodes_iff referenceLibs_documented referenceBitmaps_documented (by decide)
    hfull ht).1.mp hdecodes rfl
  rw [hlength] at hsmall
  omega

/-- The reference libraries with a decoder for ZSTD that fills its buffer up. -/
def scratchLibs : CodecLibs :=
  { referenceLibs with
    zstdDecompress := fun cap encoded =>
      let (zstdDl, w) := referenceLibs.zstdDecompress cap encoded
      (zstdDl, fun i => if i < cap then some ((w i).getD 255) else w i) }

/-- This, too, is what the libraries document. -/
theorem scratchLibs_documented : scratchLibs.Documented :=
  { referenceLibs_documented with
    zstd := by
      intro cap src level encoded h dstCap hle
      obtain ⟨hok, hwrites⟩ := referenceLibs_documented.zstd cap src level encoded h dstCap hle
      refine ⟨hok, fun i hi => ?_⟩
      show (if i < dstCap then some (((referenceLibs.zstdDecompress dstCap encoded).2 i).getD 255)
        else _) = _
      rw [if_pos (by omega), hwrites i hi, List.getElem?_eq_getElem hi]
      rfl }

/-- Two rows are decoded, and the bytes behind them are not what they were. -/
theorem not_roundTrips_scratch :
    ∃ t, FormatEncoder.zstd.processPack scratchLibs referenceBitmaps (some twoRows) {} = .ok t ∧
      Decodes scratchLibs .zstd twoRows t ∧ ¬ RoundTrips scratchLibs .zstd twoRows t := by
  have hfull : FullBitmap twoRows := ⟨by decide, by decide⟩
  have hstores : (FormatEncoder.zstd.processPack scratchLibs referenceBitmaps (some twoRows)
      {}).toOption.map (fun t => (scratchLibs.zstdDecompress (twoRows.dataLength.toNat + 4096)
        t.payload).2 twoRows.dataLength.toNat) = some (some 255) := by decide +kernel
  cases ht : FormatEncoder.zstd.processPack scratchLibs referenceBitmaps (some twoRows) {} with
  | error failure =>
      rw [ht] at hstores
      cases hstores
  | ok t =>
  rw [ht] at hstores
  have hstored := Option.some.inj hstores
  refine ⟨t, rfl, ?_, fun hround => ?_⟩
  · exact (decodes_iff scratchLibs_documented referenceBitmaps_documented (by decide) hfull
      ht).1.mpr fun h => by cases h
  · -- the decoder has stored a byte behind the last one
    have hrest := ((roundTrips_iff (by decide) hfull).mp hround).2.zstd le_rfl
      (Nat.lt_add_of_pos_right (by decide))
    cases hstored.symm.trans hrest

end Redcli
