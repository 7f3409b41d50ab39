import Redcli.Codec.ReferenceLibraries
import Redcli.Pipeline.Run

/-!
# Compression Levels

Which levels the encoders hand to their libraries, against the levels that the libraries
accept and those that the documentation promises.

## Main results

* `handsOnly_of_mem`: what an encoder returns depends on its library at the clamped levels
  only;
* `levels_usable_iff`: the settings of a configuration are usable exactly if `lzo2_level` is
  at most 9.
-/

namespace Redcli

/-- Levels of the library functions that take one, and windows of Brotli. -/
structure LevelSets where
  gzip : Set ℤ
  lzo : Set ℤ
  zstd : Set ℤ
  brotli : Set ℤ
  window : Set ℤ

/-- The levels from `lo` to `hi`. -/
def levelRange (lo hi : ℤ) : Set ℤ := {l | lo ≤ l ∧ l ≤ hi}

/-- The levels that the library functions accept. `lzo` is about `lzo1x_999_compress_level`. -/
def acceptedLevels : LevelSets where
  gzip := levelRange 1 9
  lzo := levelRange 1 9
  zstd := levelRange 1 22
  brotli := levelRange 0 11
  window := levelRange 10 24

/-- The levels that are documented for the settings. -/
def documentedLevels : LevelSets := { acceptedLevels with lzo := levelRange 1 999 }

/-- The levels that are given in the settings, where these are documented. Level 1 of LZO
stands for `lzo1x_1_compress`, which takes none. -/
def givenLevels (args : EncodeFormatArgs) : LevelSets where
  gzip := {l | args.gzipLevel ∈ documentedLevels.gzip → l = args.gzipLevel}
  lzo := {l | args.lzo2Level ∈ documentedLevels.lzo → l = args.lzo2Level ∧ l ≠ 1}
  zstd := {l | args.zstdLevel ∈ documentedLevels.zstd → l = args.zstdLevel}
  brotli := {l | args.brotliLevel ∈ documentedLevels.brotli → l = args.brotliLevel}
  window := {l | args.brotliWindow ∈ documentedLevels.window → l = args.brotliWindow}

/-- Two libraries that encode alike, except for levels outside of some sets. -/
structure AgreeOn (L : LevelSets) (libs libs' : CodecLibs) : Prop where
  rle4k : libs.rle4kEncodeBlock = libs'.rle4kEncodeBlock
  gzip : ∀ cap src, ∀ l ∈ L.gzip, libs.compress2 cap src l = libs'.compress2 cap src l
  lzoFast : libs.lzo1x1Compress = libs'.lzo1x1Compress
  lzo : ∀ src, ∀ l ∈ L.lzo, libs.lzo1x999CompressLevel src l = libs'.lzo1x999CompressLevel src l
  snappy : libs.snappyRawCompress = libs'.snappyRawCompress
  zstd : ∀ cap src, ∀ l ∈ L.zstd, libs.zstdCompress cap src l = libs'.zstdCompress cap src l
  brotli : ∀ l ∈ L.brotli, ∀ w ∈ L.window, ∀ src cap,
    libs.brotliEncoderCompress l w src cap = libs'.brotliEncoderCompress l w src cap

/-- The encoders hand only these levels to their libraries: what the libraries do for other
levels makes no difference. -/
def HandsOnly (L : LevelSets) (args : EncodeFormatArgs) : Prop :=
  ∀ libs libs', AgreeOn L libs libs' → ∀ (enc : FormatEncoder) bitmaps src dst,
    enc.internalPack libs bitmaps src dst args = enc.internalPack libs' bitmaps src dst args

/-- The library functions succeed on a source, for every level that they accept. -/
structure SucceedsOnAccepted (libs : CodecLibs) (cap : UInt32) (src : Bytes) : Prop where
  gzip : ∀ l ∈ acceptedLevels.gzip, (libs.compress2 cap src l).1 = zOk
  lzoFast : (libs.lzo1x1Compress src).1 = lzoEOk
  lzo : ∀ l ∈ acceptedLevels.lzo, (libs.lzo1x999CompressLevel src l).1 = lzoEOk
  zstd : ∀ l ∈ acceptedLevels.zstd, ∃ encoded, libs.zstdCompress cap.toNat src l = .ok encoded
  brotli : ∀ l ∈ acceptedLevels.brotli, ∀ w ∈ acceptedLevels.window,
    ∃ encoded, libs.brotliEncoderCompress l w src cap.toNat = some encoded

/-- Every setting is usable: the libraries accept the levels that they are handed, no encode
fails that would not fail for another level, and documented levels are used as given. -/
structure LevelsUsable (args : EncodeFormatArgs) : Prop where
  accepted : HandsOnly acceptedLevels args
  succeeds : ∀ libs bitmaps src dst, SucceedsOnAccepted libs dst.getBufferSize src.payload →
    ∀ enc ∈ [FormatEncoder.gzip, .lzo2, .zstd, .brotli],
      ∃ encoded : Bytes, enc.internalPack libs bitmaps src dst args =
        packed dst encoded encoded.length
  asGiven : HandsOnly (givenLevels args) args

/-! ## Clamping -/

section Clamp

variable {lo hi l : ℤ}

/-- A clamped level lies in the range. -/
theorem clampLevel_mem (h : lo ≤ hi) : clampLevel lo hi l ∈ levelRange lo hi := by
  simp only [clampLevel, levelRange, Set.mem_ofPred_eq]
  split_ifs <;> omega

/-- A level in the range is not changed. -/
theorem clampLevel_of_mem (h : l ∈ levelRange lo hi) : clampLevel lo hi l = l := by
  have hl : lo ≤ l ∧ l ≤ hi := h
  simp only [clampLevel]
  rw [if_neg (by omega), if_neg (by omega)]

/-- The clamp of LZO keeps what is at most 9 in the range that the library accepts. -/
theorem clampLevel_lzo_mem (h : l ≤ 9) : clampLevel 1 999 l ∈ levelRange 1 9 := by
  simp only [clampLevel, levelRange, Set.mem_ofPred_eq]
  split_ifs <;> omega

end Clamp

/-! ## The levels that are handed to the libraries -/

section Levels

variable {L : LevelSets} {args : EncodeFormatArgs}

/-- The encoders hand the clamped levels to their libraries. -/
theorem handsOnly_of_mem (hgzip : clampLevel 1 9 args.gzipLevel ∈ L.gzip)
    (hlzo : clampLevel 1 999 args.lzo2Level ≠ 1 → clampLevel 1 999 args.lzo2Level ∈ L.lzo)
    (hzstd : clampLevel 1 22 args.zstdLevel ∈ L.zstd)
    (hbrotli : clampLevel 0 11 args.brotliLevel ∈ L.brotli)
    (hwindow : clampLevel 10 24 args.brotliWindow ∈ L.window) : HandsOnly L args := by
  intro libs libs' h enc bitmaps src dst
  cases enc with
  | rle4k => simp only [FormatEncoder.internalPack, rle4kInternalPack, h.rle4k]
  | gzip => simp only [FormatEncoder.internalPack, gzipInternalPack, h.gzip _ _ _ hgzip]
  | lzo2 =>
      simp only [FormatEncoder.internalPack, lzo2InternalPack]
      by_cases hlevel : clampLevel 1 999 args.lzo2Level = 1
      · rw [if_pos hlevel, if_pos hlevel, h.lzoFast]
      · rw [if_neg hlevel, if_neg hlevel, h.lzo _ _ (hlzo hlevel)]
  | snappy => simp only [FormatEncoder.internalPack, snappyInternalPack, h.snappy]
  | zstd => simp only [FormatEncoder.internalPack, zstdInternalPack, h.zstd _ _ _ hzstd]
  | brotli =>
      simp only [FormatEncoder.internalPack, brotliInternalPack, h.brotli _ hbrotli _ hwindow]

/-- Documented levels are used as given. -/
theorem handsOnly_given (args : EncodeFormatArgs) : HandsOnly (givenLevels args) args := by
  -- a level in its range passes the clamp unchanged
  refine handsOnly_of_mem clampLevel_of_mem (fun hlevel hgiven => ?_) clampLevel_of_mem
    clampLevel_of_mem clampLevel_of_mem
  exact ⟨clampLevel_of_mem hgiven, hlevel⟩

/-- Up to level 9 of LZO the libraries accept the levels that they are handed. -/
theorem handsOnly_accepted (h : args.lzo2Level ≤ 9) : HandsOnly acceptedLevels args :=
  handsOnly_of_mem (clampLevel_mem (by decide)) (fun _ => clampLevel_lzo_mem h)
    (clampLevel_mem (by decide)) (clampLevel_mem (by decide)) (clampLevel_mem (by decide))

/-- Libraries in which LZO rejects the levels that it does not accept with an error code. -/
def rejectingLibs (rc : ℤ) : CodecLibs :=
  { referenceLibs with
    lzo1x999CompressLevel := fun src level =>
      if 1 ≤ level ∧ level ≤ 9 then (lzoEOk, zeroRunEncode src) else (rc, []) }

/-- From level 10 on LZO is handed a level that it does not accept. -/
theorem not_handsOnly_accepted (h : 9 < args.lzo2Level) : ¬ HandsOnly acceptedLevels args := by
  intro hands
  -- two libraries that reject the level with different error codes
  have hagree : AgreeOn acceptedLevels (rejectingLibs (-1)) (rejectingLibs (-2)) := by
    constructor
    case lzo =>
      intro src l hl
      have hl' : 1 ≤ l ∧ l ≤ 9 := hl
      simp only [rejectingLibs, if_pos hl']
    all_goals intros; rfl
  -- they would have to agree on this encode
  have heq := hands _ _ hagree .lzo2 referenceBitmaps twoRows twoRows
  have hrange : ¬ (1 ≤ clampLevel 1 999 args.lzo2Level ∧ clampLevel 1 999 args.lzo2Level ≤ 9) := by
    simp only [clampLevel]
    split_ifs <;> omega
  -- so the level is neither 1 nor accepted
  have hone : clampLevel 1 999 args.lzo2Level ≠ 1 := by omega
  simp only [FormatEncoder.internalPack, lzo2InternalPack, if_neg hone, rejectingLibs,
    if_neg hrange] at heq
  exact absurd heq (by decide)

/-- Up to level 9 of LZO no encode fails because of a level. -/
theorem packed_of_succeeds (h : args.lzo2Level ≤ 9) {libs : CodecLibs} {bitmaps : RasterLib}
    {src dst : BitmapInfo} (hsucceeds : SucceedsOnAccepted libs dst.getBufferSize src.payload) :
    ∀ enc ∈ [FormatEncoder.gzip, .lzo2, .zstd, .brotli],
      ∃ encoded : Bytes, enc.internalPack libs bitmaps src dst args =
        packed dst encoded encoded.length := by
  simp only [List.forall_mem_cons, List.not_mem_nil, false_imp_iff, implies_true, and_true,
    FormatEncoder.internalPack]
  refine ⟨?_, ?_, ?_, ?_⟩
  · have hrc := hsucceeds.gzip _ (clampLevel_mem (l := args.gzipLevel) (by decide : (1 : ℤ) ≤ 9))
    refine ⟨(libs.compress2 dst.getBufferSize src.payload (clampLevel 1 9 args.gzipLevel)).2, ?_⟩
    simp only [gzipInternalPack, hrc]
    exact if_neg (by simp)
  · by_cases hlevel : clampLevel 1 999 args.lzo2Level = 1
    · refine ⟨(libs.lzo1x1Compress src.payload).2, ?_⟩
      simp only [lzo2InternalPack, if_pos hlevel, hsucceeds.lzoFast]
      exact if_neg (by simp)
    · have hmem : clampLevel 1 999 args.lzo2Level ∈ acceptedLevels.lzo := clampLevel_lzo_mem h
      refine ⟨(libs.lzo1x999CompressLevel src.payload (clampLevel 1 999 args.lzo2Level)).2, ?_⟩
      simp only [lzo2InternalPack, if_neg hlevel, hsucceeds.lzo _ hmem]
      exact if_neg (by simp)
  · obtain ⟨encoded, hencoded⟩ :=
      hsucceeds.zstd _ (clampLevel_mem (l := args.zstdLevel) (by decide : (1 : ℤ) ≤ 22))
    exact ⟨encoded, by simp only [zstdInternalPack, hencoded]⟩
  · obtain ⟨encoded, hencoded⟩ :=
      hsucceeds.brotli _ (clampLevel_mem (l := args.brotliLevel) (by decide : (0 : ℤ) ≤ 11)) _
        (clampLevel_mem (l := args.brotliWindow) (by decide : (10 : ℤ) ≤ 24))
    exact ⟨encoded, by simp only [brotliInternalPack, hencoded]⟩

end Levels

/-- The settings of a configuration are usable exactly if `lzo2_level` is at most 9. -/
theorem levels_usable_iff (cfg : BenchConfig) :
    LevelsUsable (RunParams.ofConfig cfg).args ↔ cfg.lzo2Level ≤ 9 := by
  constructor
  · intro h
    by_contra hgt
    exact @not_handsOnly_accepted (RunParams.ofConfig cfg).args (not_le.mp hgt) h.accepted
  · intro h
    exact ⟨handsOnly_accepted h, fun libs bitmaps src dst => packed_of_succeeds h,
      handsOnly_given _⟩

/-- With `lzo2_level` 10, which is documented, an encode fails that succeeds with level 9. -/
theorem levels_unusable_lzo2 :
    ¬ LevelsUsable { lzo2Level := 10 } ∧ (10 : ℤ) ∈ documentedLevels.lzo ∧
      (FormatEncoder.lzo2.processPack referenceLibs referenceBitmaps (some twoRows)
        { lzo2Level := 9 }).isOk ∧
      FormatEncoder.lzo2.processPack referenceLibs referenceBitmaps (some twoRows)
        { lzo2Level := 10 } = .error (.thrown ⟨-11001, "Encoding failed"⟩) := by
  refine ⟨fun h => ?_, ⟨by decide, by decide⟩, by decide +kernel, by decide +kernel⟩
  exact not_handsOnly_accepted (by decide : (9 : ℤ) < 10) h.accepted

end Redcli
