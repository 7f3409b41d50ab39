import Redcli.Codec.RoundTrip

/-!
# The Result Channel of the Encoders

`internal_pack` folds what a library reports, a payload or an error code, into one signed
`int`, whose sign decides whether `process_pack` throws.

## Main results

* `internalPack_reported`: what the `int` is for each report;
* `result_exact_iff`: `process_pack` throws for the failures only, and returns the lengths of
  the payload and of the source, exactly if no payload has `2 ^ 31` bytes or more.
-/

namespace Redcli

/-! ## What the libraries report -/

/-- The documented results of the encoders: `librle4k` returns the length of the payload
or a negative code; the error codes of zlib reach from `Z_VERSION_ERROR` to
`Z_NEED_DICT`, those of LZO are negative, down to `LZO_E_INTERNAL_ERROR`, and those of Zstandard
are positive, up to `ZSTD_error_maxCode`. -/
structure CodecLibs.Reports (libs : CodecLibs) : Prop where
  rle4k : ∀ block height width stride cap len encoded,
    libs.rle4kEncodeBlock block height width stride cap = (len, encoded) → 0 ≤ len →
      len = encoded.length
  gzip : ∀ cap source level, (libs.compress2 cap source level).1 ≠ zOk →
    -6 ≤ (libs.compress2 cap source level).1 ∧ (libs.compress2 cap source level).1 ≤ 2
  lzo1 : ∀ src, (libs.lzo1x1Compress src).1 ≠ lzoEOk →
    -99 ≤ (libs.lzo1x1Compress src).1 ∧ (libs.lzo1x1Compress src).1 < 0
  lzo999 : ∀ src level, (libs.lzo1x999CompressLevel src level).1 ≠ lzoEOk →
    -99 ≤ (libs.lzo1x999CompressLevel src level).1 ∧ (libs.lzo1x999CompressLevel src level).1 < 0
  zstd : ∀ cap src level code, libs.zstdCompress cap src level = .error code →
    1 ≤ code ∧ code ≤ 120

/-- The buffers of the bitmap container: a new bitmap has the requested format, the size of a
buffer is recorded, and `shrink_to_fit` keeps the lengths. -/
structure RasterLib.Allocates (bitmaps : RasterLib) : Prop where
  create : ∀ settings height t, bitmaps.create settings height = .ok t →
    t.format = settings.format ∧ 0 < t.extend.dataBufferSize ∧
      t.bytes.length = t.extend.dataBufferSize.toNat
  resize : ∀ b, 0 < (bitmaps.resize b).extend.dataBufferSize ∧
    (bitmaps.resize b).bytes.length = (bitmaps.resize b).extend.dataBufferSize.toNat
  shrink : ∀ b, (bitmaps.shrinkToFit b).dataLength = b.dataLength ∧
    (bitmaps.shrinkToFit b).sourceLength = b.sourceLength

/-- The target of the last call of `librle4k`: it is called once more for a larger target if the
first one is too small. -/
def rle4kTarget (libs : CodecLibs) (bitmaps : RasterLib) (src dst : BitmapInfo) : BitmapInfo :=
  let dst := { dst with dataLength := 0 }
  -- only this error code leads to a second call
  let first := libs.rle4kEncodeBlock src.bytes src.height src.width src.getStrideBytes
    dst.getBufferSize
  if first.1 = rle4kErrorTargetTooSmall then bitmaps.resize dst else dst

/-- What the library of an encoder reports: the payload, or `none` for a failure, and the
target that it was given. For RLE4K the last call counts. -/
def FormatEncoder.reported (libs : CodecLibs) (bitmaps : RasterLib) (src dst : BitmapInfo)
    (args : EncodeFormatArgs) : FormatEncoder → Option Bytes × BitmapInfo
  | .rle4k =>
      let last := rle4kTarget libs bitmaps src dst
      let (len, encoded) := libs.rle4kEncodeBlock src.bytes src.height src.width
        src.getStrideBytes last.getBufferSize
      (if len < 0 then none else some encoded, last)
  | .gzip =>
      let (rc, encoded) := libs.compress2 dst.getBufferSize src.payload
        (clampLevel 1 9 args.gzipLevel)
      (if rc = zOk then some encoded else none, dst)
  | .lzo2 =>
      let level := clampLevel 1 999 args.lzo2Level
      let (rc, encoded) :=
        if level = 1 then libs.lzo1x1Compress src.payload
        else libs.lzo1x999CompressLevel src.payload level
      (if rc = lzoEOk then some encoded else none, dst)
  | .snappy => (some (libs.snappyRawCompress src.payload), dst)
  | .zstd =>
      ((libs.zstdCompress dst.getBufferSize.toNat src.payload
        (clampLevel 1 22 args.zstdLevel)).toOption, dst)
  | .brotli =>
      (libs.brotliEncoderCompress (clampLevel 0 11 args.brotliLevel)
        (clampLevel 10 24 args.brotliWindow) src.payload dst.getBufferSize.toNat, dst)

section Channel

variable {libs : CodecLibs} {bitmaps : RasterLib} {enc : FormatEncoder} {src dst : BitmapInfo}
  {args : EncodeFormatArgs}

/-- RLE4K: what the last call of the encoder returns. -/
theorem rle4kInternalPack_eq :
    rle4kInternalPack libs bitmaps src dst =
      let last := rle4kTarget libs bitmaps src dst
      let r := libs.rle4kEncodeBlock src.bytes src.height src.width src.getStrideBytes
        last.getBufferSize
      if r.1 < 0 then pure (r.1, last) else packed last r.2 r.1 := by
  simp only [rle4kInternalPack, rle4kTarget]
  split_ifs <;> rfl

variable (enc) in
/-- The error codes of the libraries stay below the offset of the format. -/
theorem packError_eq {rc : ℤ} (hformat : dst.format = enc.getSupportedFormat) (hrc : rc ≤ 120) :
    ∃ result < 0, packError dst rc = .ok (result, dst) := by
  refine ⟨dst.format.value * (-1000) + rc, ?_, rfl⟩
  -- the least value of a format is 4, and 4000 is more than every error code
  have hvalue : 4 ≤ dst.format.value := by
    rw [hformat]
    cases enc <;> decide
  omega

variable (bitmaps src args) in
/-- What `internal_pack` makes of a report: a negative result for a failure, and the length of
a payload, as an `int`. -/
theorem internalPack_reported (hlibs : libs.Reports)
    (hformat : dst.format = enc.getSupportedFormat) :
    match enc.reported libs bitmaps src dst args with
    | (none, _) => ∃ result < 0, ∃ dst', enc.internalPack libs bitmaps src dst args =
        .ok (result, dst')
    | (some encoded, target) => enc.internalPack libs bitmaps src dst args =
        packed target encoded encoded.length := by
  cases enc with
  | rle4k =>
      simp only [FormatEncoder.reported, FormatEncoder.internalPack]
      rw [rle4kInternalPack_eq]
      -- the last call of the encoder
      generalize rle4kTarget libs bitmaps src dst = last
      obtain ⟨len, encoded, hcode⟩ : ∃ len encoded, libs.rle4kEncodeBlock src.bytes src.height
          src.width src.getStrideBytes last.getBufferSize = (len, encoded) := ⟨_, _, rfl⟩
      simp only [hcode]
      by_cases hneg : len < 0
      · rw [if_pos hneg, if_pos hneg]
        exact ⟨len, hneg, last, rfl⟩
      · rw [if_neg hneg, if_neg hneg]
        have hlen := hlibs.rle4k _ _ _ _ _ _ _ hcode (not_lt.mp hneg)
        exact congrArg (packed last encoded) hlen
  | gzip =>
      simp only [FormatEncoder.reported, FormatEncoder.internalPack, gzipInternalPack]
      by_cases hrc : (libs.compress2 dst.getBufferSize src.payload
          (clampLevel 1 9 args.gzipLevel)).1 = zOk
      · rw [if_pos hrc, if_neg (not_not.mpr hrc)]
      · rw [if_neg hrc, if_pos hrc]
        obtain ⟨result, hneg, heq⟩ := packError_eq .gzip hformat
          ((hlibs.gzip _ _ _ hrc).2.trans (by decide))
        exact ⟨result, hneg, dst, heq⟩
  | lzo2 =>
      simp only [FormatEncoder.reported, FormatEncoder.internalPack, lzo2InternalPack]
      -- one of the two compressors has run
      obtain ⟨rc, encoded, hcode, hrange⟩ : ∃ rc encoded,
          (if clampLevel 1 999 args.lzo2Level = 1 then libs.lzo1x1Compress src.payload
            else libs.lzo1x999CompressLevel src.payload (clampLevel 1 999 args.lzo2Level)) =
              (rc, encoded) ∧ (rc ≠ lzoEOk → rc < 0) := by
        by_cases hlevel : clampLevel 1 999 args.lzo2Level = 1
        · exact ⟨_, _, if_pos hlevel, fun hrc => (hlibs.lzo1 _ hrc).2⟩
        · exact ⟨_, _, if_neg hlevel, fun hrc => (hlibs.lzo999 _ _ hrc).2⟩
      simp only [hcode]
      by_cases hrc : rc = lzoEOk
      · rw [if_pos hrc, if_neg (not_not.mpr hrc)]
      · rw [if_neg hrc, if_pos hrc]
        obtain ⟨result, hneg, heq⟩ := packError_eq .lzo2 hformat
          ((hrange hrc).le.trans (by decide))
        exact ⟨result, hneg, dst, heq⟩
  | snappy => rfl
  | zstd =>
      simp only [FormatEncoder.reported, FormatEncoder.internalPack, zstdInternalPack]
      cases hzstd : libs.zstdCompress dst.getBufferSize.toNat src.payload
          (clampLevel 1 22 args.zstdLevel) with
      | error code =>
          obtain ⟨result, hneg, heq⟩ := packError_eq .zstd hformat
            (hlibs.zstd _ _ _ _ hzstd).2
          exact ⟨result, hneg, dst, heq⟩
      | ok encoded => rfl
  | brotli =>
      simp only [FormatEncoder.reported, FormatEncoder.internalPack, brotliInternalPack]
      cases libs.brotliEncoderCompress (clampLevel 0 11 args.brotliLevel)
          (clampLevel 10 24 args.brotliWindow) src.payload dst.getBufferSize.toNat with
      | none =>
          obtain ⟨result, hneg, heq⟩ := packError_eq .brotli hformat
            (by decide : (-1 : ℤ) ≤ 120)
          exact ⟨result, hneg, dst, heq⟩
      | some encoded => rfl

/-- A payload that fits is stored, and its length is cast twice. -/
theorem packed_of_fits {encoded : Bytes} (hfits : encoded.length ≤ dst.bytes.length) :
    packed dst encoded encoded.length = .ok (toInt encoded.length,
      { dst with
        data := some (encoded ++ dst.bytes.drop encoded.length)
        dataLength := UInt32.ofInt encoded.length }) := by
  rw [packed, storePayload, if_pos hfits]
  rfl

/-- The cast to `int` makes a length below `2 ^ 32` negative from `2 ^ 31` on. -/
theorem toInt_neg_iff {n : ℕ} (hn : n < 2 ^ 32) : toInt n < 0 ↔ 2 ^ 31 ≤ n := by
  rw [toInt, Int.bmod_def]
  split_ifs <;> omega

/-! ## What `process_pack` makes of it -/

/-- The settings of the target of a source. -/
def targetSettings (enc : FormatEncoder) (src : BitmapInfo) : RasterResultSettings :=
  { format := enc.getSupportedFormat, width := src.width, alignMode := .align064 }

/-- `process_pack` behind `internal_pack`: it throws for a negative result. -/
theorem processPack_of_internalPack (hsrc : ValidBitmap src)
    (hcreate : bitmaps.create (targetSettings enc src) src.height = .ok dst) {result : ℤ}
    {dst' : BitmapInfo} (hpack : enc.internalPack libs bitmaps src dst args = .ok (result, dst')) :
    enc.processPack libs bitmaps (some src) args =
      if result < 0 then .error (.thrown ⟨result, "Encoding failed"⟩)
      else .ok (bitmaps.shrinkToFit { dst' with
        sourceLength := src.dataLength
        extend := { dst'.extend with
          compressionRatio := compressionRatio dst'.dataLength src.dataLength } }) := by
  have hvalid : validateBitmap (some src) = .ok src := validateBitmap_eq_ok_iff.mpr ⟨rfl, hsrc⟩
  rw [targetSettings] at hcreate
  simp only [FormatEncoder.processPack, hvalid, hcreate, hpack, Except.mapError, bind, Except.bind]
  split_ifs <;> rfl

/-- What is promised about the report of a library: `process_pack` throws for a failure, and
otherwise returns a target with the length of the payload and that of the source. -/
structure ResultExact (libs : CodecLibs) (bitmaps : RasterLib) (enc : FormatEncoder)
    (src dst : BitmapInfo) (args : EncodeFormatArgs) : Prop where
  throws : (∃ e, enc.processPack libs bitmaps (some src) args = .error (.thrown e)) ↔
    (enc.reported libs bitmaps src dst args).1 = none
  returns : ∀ encoded, (enc.reported libs bitmaps src dst args).1 = some encoded →
    ∃ t, enc.processPack libs bitmaps (some src) args = .ok t ∧
      t.dataLength.toNat = encoded.length ∧ t.sourceLength = src.dataLength

variable (libs args) in
/-- The size that a library is told is that of the target's buffer. -/
theorem length_bytes_reported (hbitmaps : bitmaps.Allocates)
    (hcreate : bitmaps.create (targetSettings enc src) src.height = .ok dst) :
    (enc.reported libs bitmaps src dst args).2.bytes.length =
      (enc.reported libs bitmaps src dst args).2.getBufferSize.toNat := by
  have hbuffer : ∀ b : BitmapInfo, 0 < b.extend.dataBufferSize →
      b.bytes.length = b.extend.dataBufferSize.toNat → b.bytes.length = b.getBufferSize.toNat := by
    intro b hpos hlength
    rw [BitmapInfo.getBufferSize, if_pos hpos, hlength]
  -- the target of a retry has been resized
  obtain ⟨-, hpos, hlength⟩ := hbitmaps.create _ _ _ hcreate
  cases enc with
  | rle4k =>
      simp only [FormatEncoder.reported, rle4kTarget]
      split_ifs
      · exact hbuffer _ (hbitmaps.resize _).1 (hbitmaps.resize _).2
      · exact hbuffer { dst with dataLength := 0 } hpos hlength
  | gzip => exact hbuffer dst hpos hlength
  | lzo2 => exact hbuffer dst hpos hlength
  | snappy => exact hbuffer dst hpos hlength
  | zstd => exact hbuffer dst hpos hlength
  | brotli => exact hbuffer dst hpos hlength

/-- `process_pack` on a payload that fits: it throws from `2 ^ 31` bytes on, and else returns
the lengths. -/
theorem processPack_of_reported (hlibs : libs.Reports) (hbitmaps : bitmaps.Allocates)
    (hsrc : ValidBitmap src)
    (hcreate : bitmaps.create (targetSettings enc src) src.height = .ok dst) {encoded : Bytes}
    (hreported : (enc.reported libs bitmaps src dst args).1 = some encoded)
    (hfits : encoded.length ≤ (enc.reported libs bitmaps src dst args).2.getBufferSize.toNat) :
    if encoded.length < 2 ^ 31 then
      ∃ t, enc.processPack libs bitmaps (some src) args = .ok t ∧
        t.dataLength.toNat = encoded.length ∧ t.sourceLength = src.dataLength
    else enc.processPack libs bitmaps (some src) args =
      .error (.thrown ⟨toInt encoded.length, "Encoding failed"⟩) := by
  have hpack := internalPack_reported bitmaps src args hlibs (hbitmaps.create _ _ _ hcreate).1
  have hlength := length_bytes_reported libs args hbitmaps hcreate
  rcases hreport : enc.reported libs bitmaps src dst args with ⟨report, target⟩
  rw [hreport] at hpack hlength hreported hfits
  obtain rfl : report = some encoded := hreported
  simp only at hpack hlength hfits
  rw [packed_of_fits (hlength ▸ hfits)] at hpack
  -- the payload fits, so its length is below `2 ^ 32`
  have hlt : encoded.length < 2 ^ 32 := lt_of_le_of_lt hfits target.getBufferSize.toNat_lt
  rw [processPack_of_internalPack hsrc hcreate hpack]
  -- the sign of the length as an `int` decides
  by_cases hsmall : encoded.length < 2 ^ 31
  · rw [if_pos hsmall, if_neg fun hneg => absurd ((toInt_neg_iff hlt).mp hneg) (not_le.mpr hsmall)]
    obtain ⟨hdata, hsource⟩ := hbitmaps.shrink _
    exact ⟨_, rfl, by rw [hdata]; exact toNat_ofInt_natCast hlt, hsource⟩
  · rw [if_neg hsmall, if_pos ((toInt_neg_iff hlt).mpr (not_lt.mp hsmall))]

/-- `process_pack` on a failure: it throws. -/
theorem processPack_of_failure (hlibs : libs.Reports) (hbitmaps : bitmaps.Allocates)
    (hsrc : ValidBitmap src)
    (hcreate : bitmaps.create (targetSettings enc src) src.height = .ok dst)
    (hreported : (enc.reported libs bitmaps src dst args).1 = none) :
    ∃ e, enc.processPack libs bitmaps (some src) args = .error (.thrown e) := by
  have hpack := internalPack_reported bitmaps src args hlibs (hbitmaps.create _ _ _ hcreate).1
  rcases hreport : enc.reported libs bitmaps src dst args with ⟨report, target⟩
  rw [hreport] at hpack hreported
  obtain rfl : report = none := hreported
  obtain ⟨result, hneg, dst', hpack⟩ := hpack
  exact ⟨_, by rw [processPack_of_internalPack hsrc hcreate hpack, if_pos hneg]⟩

/-- For a valid source, a target that could be allocated, and a report that is a failure or a
payload that fits into the target: the result is exact if and only if the payload has less
than `2 ^ 31` bytes. -/
theorem result_exact_iff (hlibs : libs.Reports) (hbitmaps : bitmaps.Allocates)
    (hsrc : ValidBitmap src)
    (hcreate : bitmaps.create (targetSettings enc src) src.height = .ok dst)
    (hfits : ∀ encoded, (enc.reported libs bitmaps src dst args).1 = some encoded →
      encoded.length ≤ (enc.reported libs bitmaps src dst args).2.getBufferSize.toNat) :
    ResultExact libs bitmaps enc src dst args ↔
      ∀ encoded, (enc.reported libs bitmaps src dst args).1 = some encoded →
        encoded.length < 2 ^ 31 := by
  cases hreported : (enc.reported libs bitmaps src dst args).1 with
  -- a failure is thrown
  | none =>
      have hthrows := processPack_of_failure hlibs hbitmaps hsrc hcreate hreported
      refine iff_of_true ⟨iff_of_true hthrows hreported, fun encoded hencoded => ?_⟩ (by simp)
      rw [hreported] at hencoded
      cases hencoded
  | some encoded =>
      -- a payload is returned as long as its length is an `int`
      have hprocess := processPack_of_reported hlibs hbitmaps hsrc hcreate hreported
        (hfits encoded hreported)
      simp only [Option.some.injEq, forall_eq']
      by_cases hsmall : encoded.length < 2 ^ 31
      · rw [if_pos hsmall] at hprocess
        refine iff_of_true ⟨?_, fun encoded' hencoded' => ?_⟩ hsmall
        · obtain ⟨t, ht, -⟩ := hprocess
          refine iff_of_false ?_ (by simp [hreported])
          rintro ⟨e, he⟩
          rw [ht] at he
          cases he
        · obtain rfl := Option.some.inj (hreported.symm.trans hencoded')
          exact hprocess
      · rw [if_neg hsmall] at hprocess
        refine iff_of_false (fun hexact => ?_) hsmall
        have hnone := hexact.throws.mp ⟨_, hprocess⟩
        rw [hreported] at hnone
        cases hnone

end Channel

/-! ## The reference libraries -/

/-- The reference codecs report as documented. -/
theorem referenceLibs_reports : referenceLibs.Reports where
  rle4k block height width stride cap len encoded h hlen :=
    (referenceLibs_documented.rle4k _ _ _ _ _ _ _ h hlen).1
  gzip cap source level h := by
    simp only [referenceLibs, boundedEncode] at h ⊢
    split_ifs at h ⊢
    · exact absurd rfl h
    · exact ⟨by decide, by decide⟩
  lzo1 src h := absurd rfl h
  lzo999 src level h := by
    simp only [referenceLibs] at h ⊢
    split_ifs at h ⊢
    · exact absurd rfl h
    · exact ⟨by decide, by decide⟩
  zstd cap src level code h := by
    simp only [referenceLibs] at h
    split_ifs at h
    obtain rfl : 70 = code := by simpa using h
    exact ⟨by decide, by decide⟩

/-- The reference bitmap container records the sizes of its buffers. -/
theorem referenceBitmaps_allocates : referenceBitmaps.Allocates where
  create settings height t h := by
    obtain rfl : _ = t := by simpa [referenceBitmaps] using h
    exact ⟨rfl, (by decide : (0 : UInt32) < 64), rfl⟩
  resize b := ⟨(by decide : (0 : UInt32) < 128), rfl⟩
  shrink b := ⟨rfl, rfl⟩

/-- A target of 64 bytes for two rows. -/
def twoRowsTarget : BitmapInfo where
  width := 64
  height := 2
  dataLength := 0
  data := some (List.replicate 64 0)
  sourceLength := 0
  format := .zstd
  extend := { dataBufferSize := 64, strideBytes := 8 }

/-- The payload of two rows has 17 bytes, and is returned as such. -/
theorem result_exact_twoRows :
    (FormatEncoder.zstd.reported referenceLibs referenceBitmaps twoRows twoRowsTarget {}).1 =
        some (1 :: twoRows.payload) ∧
      ResultExact referenceLibs referenceBitmaps .zstd twoRows twoRowsTarget {} := by
  have hreported : (FormatEncoder.zstd.reported referenceLibs referenceBitmaps twoRows
      twoRowsTarget {}).1 = some (1 :: twoRows.payload) := by decide
  have hsrc : ValidBitmap twoRows :=
    ⟨by decide, by decide, by decide, by decide, by decide, by decide, by decide⟩
  refine ⟨hreported, (result_exact_iff referenceLibs_reports referenceBitmaps_allocates hsrc rfl
    fun encoded h => ?_).mpr fun encoded h => ?_⟩
  · obtain rfl := Option.some.inj (hreported.symm.trans h)
    decide
  · obtain rfl := Option.some.inj (hreported.symm.trans h)
    decide

/-! ## A payload of 2 GiB -/

/-- Libraries in which Snappy stores its input as it is. -/
def storingLibs : CodecLibs := { referenceLibs with snappyRawCompress := fun input => input }

/-- A target of `n` bytes. -/
def storingTarget (n : UInt32) (settings : RasterResultSettings) (height : UInt32) :
    BitmapInfo where
  width := settings.width
  height := height
  dataLength := 0
  data := some (List.replicate n.toNat 0)
  sourceLength := 0
  format := settings.format
  extend := { dataBufferSize := n, strideBytes := (settings.width + 63) / 64 * 8 }

theorem getBufferSize_storingTarget {n : UInt32} (hn : 0 < n) (settings : RasterResultSettings)
    (height : UInt32) : (storingTarget n settings height).getBufferSize = n :=
  if_pos hn

/-- A bitmap container whose new buffers have `n` bytes. -/
def storingBitmaps (n : UInt32) : RasterLib :=
  { referenceBitmaps with create := fun settings height => .ok (storingTarget n settings height) }

theorem storingBitmaps_allocates {n : UInt32} (hn : 0 < n) : (storingBitmaps n).Allocates where
  create settings height t h := by
    obtain rfl : storingTarget n settings height = t := Except.ok.inj h
    exact ⟨rfl, hn, List.length_replicate⟩
  resize := referenceBitmaps_allocates.resize
  shrink := referenceBitmaps_allocates.shrink

/-- The storing libraries report as documented. -/
theorem storingLibs_reports : storingLibs.Reports where
  rle4k := referenceLibs_reports.rle4k
  gzip := referenceLibs_reports.gzip
  lzo1 := referenceLibs_reports.lzo1
  lzo999 := referenceLibs_reports.lzo999
  zstd := referenceLibs_reports.zstd

/-- A source of `2 ^ 31` bytes or more that is stored: the length is no `int`. -/
theorem storing_not_exact {n : UInt32} (hn : 0 < n) {src : BitmapInfo} (hsrc : ValidBitmap src)
    (hle : src.payload.length ≤ n.toNat) (hlarge : 2 ^ 31 ≤ src.payload.length) :
    (FormatEncoder.snappy.reported storingLibs (storingBitmaps n) src
        (storingTarget n (targetSettings .snappy src) src.height) {}).1 = some src.payload ∧
      FormatEncoder.snappy.processPack storingLibs (storingBitmaps n) (some src) {} =
          .error (.thrown ⟨toInt src.payload.length, "Encoding failed"⟩) ∧
      ¬ ResultExact storingLibs (storingBitmaps n) .snappy src
        (storingTarget n (targetSettings .snappy src) src.height) {} := by
  have hreported : (FormatEncoder.snappy.reported storingLibs (storingBitmaps n) src
      (storingTarget n (targetSettings .snappy src) src.height) {}).1 = some src.payload := rfl
  have hcreate : (storingBitmaps n).create (targetSettings .snappy src) src.height =
      .ok (storingTarget n (targetSettings .snappy src) src.height) := rfl
  have hfits : src.payload.length ≤
      (storingTarget n (targetSettings .snappy src) src.height).getBufferSize.toNat := by
    rw [getBufferSize_storingTarget hn]
    exact hle
  have hprocess := processPack_of_reported storingLibs_reports (storingBitmaps_allocates hn) hsrc
    hcreate hreported hfits
  rw [if_neg (not_lt.mpr hlarge)] at hprocess
  -- an exception for a payload contradicts the promise
  refine ⟨hreported, hprocess, fun hexact => ?_⟩
  have hnone := hexact.throws.mp ⟨_, hprocess⟩
  rw [hreported] at hnone
  cases hnone

/-- Snappy stores a source of `2 ^ 31` bytes in a target of `2 ^ 32 - 8` bytes, and
`process_pack` reports a failure. -/
theorem result_not_exact_storing :
    ValidBitmap (blankRows 1048576 16384 131072) ∧
      storingLibs.Reports ∧ (storingBitmaps 4294967288).Allocates ∧
      (blankRows 1048576 16384 131072).payload.length = 2 ^ 31 ∧
      (FormatEncoder.snappy.reported storingLibs (storingBitmaps 4294967288)
        (blankRows 1048576 16384 131072) (storingTarget 4294967288
          (targetSettings .snappy (blankRows 1048576 16384 131072))
          (blankRows 1048576 16384 131072).height) {}).1 =
            some (blankRows 1048576 16384 131072).payload ∧
      FormatEncoder.snappy.processPack storingLibs (storingBitmaps 4294967288)
        (some (blankRows 1048576 16384 131072)) {} =
          .error (.thrown ⟨-2 ^ 31, "Encoding failed"⟩) ∧
      ¬ ResultExact storingLibs (storingBitmaps 4294967288) .snappy
        (blankRows 1048576 16384 131072) (storingTarget 4294967288
          (targetSettings .snappy (blankRows 1048576 16384 131072))
          (blankRows 1048576 16384 131072).height) {} := by
  have hsrc : ValidBitmap (blankRows 1048576 16384 131072) :=
    ⟨Option.some_ne_none _, by decide, by decide, by decide, by decide, by decide, by decide⟩
  have hlength : (blankRows 1048576 16384 131072).payload.length = 2 ^ 31 := by
    rw [payload_blankRows, List.length_replicate]
    rfl
  have hint : toInt ((2 ^ 31 : ℕ) : ℤ) = -2 ^ 31 := by decide
  have hcapacity : 2 ^ 31 ≤ (4294967288 : UInt32).toNat := by decide
  obtain ⟨hreported, hprocess, hnot⟩ :=
    storing_not_exact (by decide : (0 : UInt32) < 4294967288) hsrc
    (hlength.trans_le hcapacity) hlength.ge
  rw [hlength, hint] at hprocess
  exact ⟨hsrc, storingLibs_reports, storingBitmaps_allocates (by decide), hlength, hreported,
    hprocess, hnot⟩

end Redcli
