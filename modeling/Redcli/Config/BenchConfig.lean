import Mathlib.Algebra.Order.Field.Rat
import Redcli.Codec.FormatEncoder
import Redcli.Support.Double

/-!
# Benchmark Configuration

`bench_config` with its defaults, and `map_format_id`, which turns the format IDs of a
configuration into values of `raster_output_format`.
-/

namespace Redcli

/-- `std::string`. -/
abbrev Text := List Char

/-- `bench_config`. A finite `double` is an exact rational. -/
structure BenchConfig where
  inputPath : Text := []
  outputPath : Text := []
  mode : ℤ := 0
  repeats : ℤ := 3
  pitchWidthUm : Double := .finite (1 / 2)
  obliqueFactor : ℤ := 32
  rasterThreads : ℤ := 4
  encodeThreads : ℤ := 0
  decodeThreads : ℤ := 0
  encodeEnabled : ℤ := 1
  decodeEnabled : ℤ := 1
  blockLine : ℤ := 512
  stripWidth : ℤ := 0
  alignMode : ℤ := 512
  dmdResolutionRows : ℤ := 512
  dmdResolutionCols : ℤ := 1920
  formats : List ℤ := []
  verbose : Text := "file".toList
  gzipLevel : ℤ := 6
  zstdLevel : ℤ := 3
  lzo2Level : ℤ := 1
  snappyLevel : ℤ := 0
  brotliLevel : ℤ := 6
  brotliWindow : ℤ := 22
  checkEnabled : ℤ := 0
  cacheBlocksMin : ℤ := 32
  cacheBlocksMax : ℤ := 128
  deriving DecidableEq, Repr

/-- The table of `map_format_id`. -/
def formatLut : List ℤ := [0x4, 0x7, 0xB, 0xA, 0x8, 0xF]

/-- `map_format_id`. -/
def mapFormatId (cfgId : ℤ) : ℤ :=
  if cfgId < 0 ∨ (formatLut.length : ℤ) ≤ cfgId then -1 else formatLut.getD cfgId.toNat (-1)

/-- A mapped ID is `-1` or the format of one of the encoders. -/
theorem mapFormatId_nonneg {cfgId : ℤ} (h : 0 ≤ mapFormatId cfgId) :
    (getEncoder (mapFormatId cfgId)).isSome := by
  unfold mapFormatId at h ⊢
  split_ifs at h ⊢ with hrange
  · omega
  · have hmem : formatLut.getD cfgId.toNat (-1) ∈ formatLut := by
      rw [List.getD_eq_getElem?_getD, List.getElem?_eq_getElem (by omega), Option.getD_some]
      exact List.getElem_mem _
    -- the factory has an encoder for every entry of the table
    have hall : ∀ f ∈ formatLut, (getEncoder f).isSome := by decide
    exact hall _ hmem

end Redcli
