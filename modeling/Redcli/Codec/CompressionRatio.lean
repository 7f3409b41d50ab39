import Mathlib.Tactic.Linarith
import Mathlib.Tactic.NormNum
import Redcli.Codec.ResultChannel

/-!
# The Compression Ratio

`process_pack` converts `(1 - d / s) * 10000` to `uint16_t`, for a payload of `d` bytes and a
source of `s` bytes. Such a conversion cuts off the fraction, and is only defined if what is left
is a value of the type.

## Main results

* `ratioFits_iff`: the conversion is defined exactly if the payload is less than one hundredth of
  a percent longer than the source;
* `ratio_wellDefined_iff`: the same for the ratios that `process_pack` stores, which then do not
  grow with the payload.
-/

namespace Redcli

/-- The value that `process_pack` converts to `uint16_t`. -/
def packRatio (dataLength sourceLength : UInt32) : ℚ :=
  (1 - (dataLength.toNat : ℚ) / sourceLength.toNat) * 10000

/-- A number without its fraction. -/
def truncated (q : ℚ) : ℤ := if 0 ≤ q then ⌊q⌋ else ⌈q⌉

/-- The conversion is defined: without its fraction, the value is one of `uint16_t`. -/
def RatioFits (dataLength sourceLength : UInt32) : Prop :=
  0 ≤ truncated (packRatio dataLength sourceLength) ∧
    truncated (packRatio dataLength sourceLength) < 2 ^ 16

/-- `compressionRatio` cuts off the fraction and reduces what is left modulo `2 ^ 16`. -/
theorem compressionRatio_eq (dataLength sourceLength : UInt32) :
    compressionRatio dataLength sourceLength =
      UInt16.ofInt (truncated (packRatio dataLength sourceLength)) := rfl

/-! ## Truncation -/

/-- Truncation only loses a sign from `-1` on. -/
theorem truncated_nonneg_iff {q : ℚ} : 0 ≤ truncated q ↔ -1 < q := by
  unfold truncated
  split_ifs with hq
  · exact iff_of_true (Int.floor_nonneg.mpr hq) (by linarith)
  · rw [Int.le_ceil_iff]
    norm_num

/-- Truncation is monotone. -/
theorem truncated_mono {q r : ℚ} (h : q ≤ r) : truncated q ≤ truncated r := by
  unfold truncated
  split_ifs with hq hr hr
  · exact Int.floor_le_floor h
  · exact absurd (hq.trans h) hr
  · -- a negative number is not rounded up beyond zero
    exact (Int.ceil_le.mpr (by push_cast; linarith)).trans (Int.floor_nonneg.mpr hr)
  · exact Int.ceil_le_ceil h

/-! ## The ratio -/

section Ratio

variable {d d' s : UInt32}

/-- A longer payload has a smaller ratio. -/
theorem packRatio_antitone (h : d ≤ d') : packRatio d' s ≤ packRatio d s := by
  have hle : (d.toNat : ℚ) ≤ d'.toNat := Nat.cast_le.mpr (UInt32.le_iff_toNat_le.mp h)
  have hdiv : (d.toNat : ℚ) / s.toNat ≤ d'.toNat / s.toNat :=
    div_le_div_of_nonneg_right hle (Nat.cast_nonneg _)
  unfold packRatio
  linarith

/-- No ratio is larger than that of the empty payload. -/
theorem truncated_packRatio_lt : truncated (packRatio d s) < 2 ^ 16 := by
  have hle : packRatio d s ≤ 10000 := by
    have hdiv : 0 ≤ (d.toNat : ℚ) / s.toNat := by positivity
    unfold packRatio
    linarith
  have htop : truncated 10000 = 10000 := by
    rw [truncated, if_pos (by norm_num)]
    exact Int.floor_intCast 10000
  exact lt_of_le_of_lt (htop ▸ truncated_mono hle) (by norm_num)

/-- The conversion is defined exactly if the payload is not too long for the source. -/
theorem ratioFits_iff (hs : 0 < s.toNat) :
    RatioFits d s ↔ 10000 * d.toNat < 10001 * s.toNat := by
  have hpos : (0 : ℚ) < s.toNat := Nat.cast_pos.mpr hs
  have hvalue : packRatio d s = (10000 * s.toNat - 10000 * d.toNat) / s.toNat := by
    unfold packRatio
    field_simp
  rw [RatioFits, and_iff_left truncated_packRatio_lt, truncated_nonneg_iff, hvalue,
    lt_div_iff₀ hpos]
  constructor
  · intro h
    have : (10000 * d.toNat : ℚ) < 10001 * s.toNat := by linarith
    exact_mod_cast this
  · intro h
    have : (10000 * d.toNat : ℚ) < 10001 * s.toNat := by exact_mod_cast h
    linarith

/-- A value of `uint16_t` is stored as it is. -/
theorem toNat_compressionRatio (h : RatioFits d s) :
    ((compressionRatio d s).toNat : ℤ) = truncated (packRatio d s) := by
  obtain ⟨hlo, hhi⟩ := h
  rw [compressionRatio_eq, UInt16.ofInt, UInt16.toNat_ofNat']
  omega

/-- Among the payloads for which the conversion is defined, a longer one has no larger ratio. -/
theorem compressionRatio_antitone (h : d ≤ d') (hd : RatioFits d s) (hd' : RatioFits d' s) :
    compressionRatio d' s ≤ compressionRatio d s := by
  rw [UInt16.le_iff_toNat_le]
  have hle := truncated_mono (packRatio_antitone (s := s) h)
  rw [← toNat_compressionRatio hd, ← toNat_compressionRatio hd'] at hle
  exact_mod_cast hle

end Ratio

/-! ## What `process_pack` stores -/

/-- `shrink_to_fit` reallocates the buffer, and keeps what is recorded about the payload. -/
structure RasterLib.KeepsRecords (bitmaps : RasterLib) : Prop where
  dataLength : ∀ b, (bitmaps.shrinkToFit b).dataLength = b.dataLength
  compressionRatio : ∀ b,
    (bitmaps.shrinkToFit b).extend.compressionRatio = b.extend.compressionRatio

/-- The ratio that `process_pack` stores is that of the lengths of the payload and the source. -/
theorem compressionRatio_of_processPack {libs : CodecLibs} {bitmaps : RasterLib}
    (hshrink : bitmaps.KeepsRecords) {enc : FormatEncoder} {src t : BitmapInfo}
    {args : EncodeFormatArgs} (h : enc.processPack libs bitmaps (some src) args = .ok t) :
    t.extend.compressionRatio = compressionRatio t.dataLength src.dataLength := by
  obtain ⟨src', hvalid, h⟩ := except_bind_eq_ok.mp h
  obtain ⟨hsrc, -⟩ := validateBitmap_eq_ok_iff.mp (except_mapError_eq_ok.mp hvalid)
  obtain rfl := Option.some.inj hsrc
  obtain ⟨dst, -, h⟩ := except_bind_eq_ok.mp h
  obtain ⟨r, -, h⟩ := except_bind_eq_ok.mp h
  simp only at h
  -- a negative result is thrown
  split_ifs at h
  · cases h
  · obtain rfl := Except.ok.inj h
    rw [hshrink.compressionRatio, hshrink.dataLength]

/-- What is promised about the ratios of two payloads of one source, of which the second one is
not shorter. -/
structure RatioWellDefined (src t t' : BitmapInfo) : Prop where
  fits : RatioFits t.dataLength src.dataLength
  fits' : RatioFits t'.dataLength src.dataLength
  antitone : t'.extend.compressionRatio ≤ t.extend.compressionRatio

/-- For any two calls of `process_pack` that return for one source: the ratios are well defined
exactly if the longer payload is less than one hundredth of a percent longer than the source. -/
theorem ratio_wellDefined_iff {libs libs' : CodecLibs} {bitmaps bitmaps' : RasterLib}
    (hshrink : bitmaps.KeepsRecords) (hshrink' : bitmaps'.KeepsRecords)
    {enc enc' : FormatEncoder} {src t t' : BitmapInfo} {args args' : EncodeFormatArgs}
    (h : enc.processPack libs bitmaps (some src) args = .ok t)
    (h' : enc'.processPack libs' bitmaps' (some src) args' = .ok t')
    (hle : t.dataLength ≤ t'.dataLength) :
    RatioWellDefined src t t' ↔ 10000 * t'.dataLength.toNat < 10001 * src.dataLength.toNat := by
  have hpos : 0 < src.dataLength.toNat := by
    obtain ⟨src', hsrc, hvalid⟩ := validBitmap_of_processPack h
    obtain rfl := Option.some.inj hsrc
    exact Nat.pos_of_ne_zero fun hzero => hvalid.dataLength_ne (UInt32.toNat_inj.mp hzero)
  constructor
  · exact fun hdefined => (ratioFits_iff hpos).mp hdefined.fits'
  · intro hlong
    have hle' := UInt32.le_iff_toNat_le.mp hle
    have hfits : RatioFits t.dataLength src.dataLength := (ratioFits_iff hpos).mpr (by omega)
    have hfits' := (ratioFits_iff hpos).mpr hlong
    refine ⟨hfits, hfits', ?_⟩
    rw [compressionRatio_of_processPack hshrink h, compressionRatio_of_processPack hshrink' h']
    exact compressionRatio_antitone hle hfits hfits'

/-! ## Two sources -/

/-- The reference bitmap container keeps its records. -/
theorem referenceBitmaps_keepsRecords : referenceBitmaps.KeepsRecords :=
  ⟨fun _ => rfl, fun _ => rfl⟩

/-- The length and the ratio of a bitmap that is returned. -/
private theorem exists_of_records {x : Except PackFailure BitmapInfo} {d : UInt32} {r : UInt16}
    (h : x.toOption.map (fun t => (t.dataLength, t.extend.compressionRatio)) = some (d, r)) :
    ∃ t, x = .ok t ∧ t.dataLength = d ∧ t.extend.compressionRatio = r := by
  cases x with
  | error e => cases h
  | ok t =>
      obtain ⟨hd, hr⟩ := Prod.mk.inj (Option.some.inj h)
      exact ⟨t, rfl, hd, hr⟩

/-- Two blank rows take five bytes with GZIP, and sixteen if they are stored. -/
theorem ratio_wellDefined_blankRows :
    ∃ t t', FormatEncoder.gzip.processPack referenceLibs referenceBitmaps
        (some (blankRows 64 2 8)) {} = .ok t ∧
      FormatEncoder.snappy.processPack storingLibs referenceBitmaps
        (some (blankRows 64 2 8)) {} = .ok t' ∧
      t.dataLength = 5 ∧ t'.dataLength = 16 ∧ RatioWellDefined (blankRows 64 2 8) t t' := by
  obtain ⟨t, ht, hd, -⟩ := exists_of_records (d := 5) (r := 6875)
    (by decide +kernel : (FormatEncoder.gzip.processPack referenceLibs referenceBitmaps
      (some (blankRows 64 2 8)) {}).toOption.map _ = _)
  obtain ⟨t', ht', hd', -⟩ := exists_of_records (d := 16) (r := 0)
    (by decide +kernel : (FormatEncoder.snappy.processPack storingLibs referenceBitmaps
      (some (blankRows 64 2 8)) {}).toOption.map _ = _)
  refine ⟨t, t', ht, ht', hd, hd', (ratio_wellDefined_iff referenceBitmaps_keepsRecords
    referenceBitmaps_keepsRecords ht ht' ?_).mpr ?_⟩
  · rw [hd, hd']
    decide
  · rw [hd']
    decide

/-- Two rows take sixteen bytes if they are stored, and seventeen with GZIP: the value to convert
is `-625`, which is no `uint16_t`, and the longer payload gets the larger ratio. -/
theorem ratio_not_wellDefined_twoRows :
    ∃ t t', FormatEncoder.snappy.processPack storingLibs referenceBitmaps (some twoRows) {} =
        .ok t ∧
      FormatEncoder.gzip.processPack referenceLibs referenceBitmaps (some twoRows) {} = .ok t' ∧
      t.dataLength = 16 ∧ t'.dataLength = 17 ∧ truncated (packRatio 17 16) = -625 ∧
      t.extend.compressionRatio = 0 ∧ t'.extend.compressionRatio = 64911 ∧
      ¬ RatioWellDefined twoRows t t' := by
  obtain ⟨t, ht, hd, hr⟩ := exists_of_records (d := 16) (r := 0)
    (by decide +kernel : (FormatEncoder.snappy.processPack storingLibs referenceBitmaps
      (some twoRows) {}).toOption.map _ = _)
  obtain ⟨t', ht', hd', hr'⟩ := exists_of_records (d := 17) (r := 64911)
    (by decide +kernel : (FormatEncoder.gzip.processPack referenceLibs referenceBitmaps
      (some twoRows) {}).toOption.map _ = _)
  refine ⟨t, t', ht, ht', hd, hd', by decide +kernel, hr, hr', fun h => ?_⟩
  have := h.antitone
  rw [hr, hr'] at this
  exact absurd this (by decide)

end Redcli
