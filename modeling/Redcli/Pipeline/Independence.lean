import Mathlib.Algebra.BigOperators.Ring.List
import Mathlib.Tactic.FieldSimp
import Redcli.Pipeline.Verdict

/-!
# Measurement Independence

With a deterministic rasterizer and deterministic codecs the measured sizes and verdicts of a
format are sums and conjunctions over the grid of blocks, in which thread counts, window
sizes, repeats, schedules and the other formats do not occur.

## Main results

* `formatAcc_ss_eq`, `formatAcc_cs_eq`, `formatAcc_ok_iff_grid`: the loop nest computes the
  sums and the conjunction over the grid;
* `measurement_independent`: two runs that differ only in scheduling, window size, repeats and
  format list agree on every common format.
-/

namespace Redcli

/-- A rasterizer: a function of the arguments of `rle4k_rasterize_block`. -/
abbrev Rasterizer := (doc : CadDocument) → (col row : ℤ) → (pwNm : Double) → (sw sh : UInt32) →
  MapAlignMode → Option BitmapInfo

/-- Rasterizer and libraries are functions of their arguments. -/
structure Environment.Deterministic (env : Environment) (raster : Rasterizer) (libs : CodecLibs)
    (bitmaps : RasterLib) : Prop where
  raster_eq : ∀ site slot, env.rasterizeBlock site slot = raster
  codecs_eq : ∀ site slot, env.codecs site slot = libs
  bitmaps_eq : ∀ site slot, env.bitmaps site slot = bitmaps

/-! ## The grid of blocks -/

section Grid

variable (raster : Rasterizer) (libs : CodecLibs) (bitmaps : RasterLib) (p : RunParams)
  (doc : CadDocument) (enc : FormatEncoder)

/-- The block of the grid at a column and a row. -/
def gridBlock (col row : ℤ) : Option BitmapInfo :=
  raster doc col row p.pwNm (UInt32.ofInt p.stripWidth) (UInt32.ofInt p.blockLine) .align064

/-- The payload of a block. -/
def gridPayload (col row : ℤ) : Option BitmapInfo :=
  (gridBlock raster p doc col row).bind fun src =>
    (enc.processPack libs bitmaps (some src) p.args).toOption

/-- The verdict on a block. -/
def gridOk (col row : ℤ) : Bool :=
  let dig := slotDigest p.doCheck (gridBlock raster p doc col row)
  let need := dig.nbytes.toNat + 4096
  !dig.valid || decide (enc = .brotli) ||
    (gridPayload raster libs bitmaps p doc enc col row).elim false fun e =>
      let dec := rle4kDecodePayload libs enc.getSupportedFormat.value (some e) dig.width dig.height
        dig.stride (some (List.replicate need 0)) need
      dec.1 && rle4kFnv1a64 ((dec.2.getD []).take dig.nbytes.toNat) == dig.hash

/-- The sum of a quantity over the grid. -/
def gridSum (ncols nrows : ℤ) (f : ℤ → ℤ → ℚ) : ℚ :=
  ((List.range ncols.toNat).map fun col : ℕ =>
    ((List.range nrows.toNat).map fun row : ℕ => f col row).sum).sum

end Grid

/-! ## The loop nest computes sums over the grid -/

section Refinement

variable {raster : Rasterizer} {libs : CodecLibs} {bitmaps : RasterLib} {env : Environment}
  {p : RunParams} {doc : CadDocument} {enc : FormatEncoder} {file : Text} {fi : ℕ}
  {ncols nrows col : ℤ}

/-- Sums over the slots of all windows of a column are sums over its rows. -/
theorem sum_windows (hcache : 1 ≤ p.cacheBlocks) (f : ℤ → ℚ) :
    ((windows nrows p.cacheBlocks).map fun w =>
      ((List.range w.2.toNat).map fun slot : ℕ => f (w.1 + slot)).sum).sum =
        ((List.range nrows.toNat).map fun row : ℕ => f row).sum := by
  rw [← Tiling.sum_tiles (by omega : 0 < p.cacheBlocks.toNat) fun row : ℕ => f row, windows,
    List.map_map]
  congr 1
  refine List.map_congr_left fun w _ => ?_
  simp [List.range'_eq_map_range, Function.comp_def]

/-- Properties of the slots of all windows of a column are properties of its rows. -/
theorem forall_windows_iff (hcache : 1 ≤ p.cacheBlocks) (P : ℤ → Prop) :
    (∀ w ∈ windows nrows p.cacheBlocks, ∀ slot < w.2.toNat, P (w.1 + slot)) ↔
      ∀ row < nrows.toNat, P row := by
  rw [← Tiling.forall_tiles_iff (by omega : 0 < p.cacheBlocks.toNat) fun row : ℕ => P row, windows,
    List.forall_mem_map]
  refine forall₂_congr fun w _ => ?_
  simp [List.range'_eq_map_range]

variable (hdet : env.Deterministic raster libs bitmaps)
include hdet

/-- A slot of a window holds a block of the grid. -/
theorem rasterizeSlot_eq (row0 : ℤ) (slot : ℕ) :
    rasterizeSlot env p doc (windowSite file fi col row0) slot =
      gridBlock raster p doc col (row0 + slot) := by
  rw [rasterizeSlot, hdet.raster_eq]
  rfl

/-- A slot of the cache holds a payload of the grid, in every repeat. -/
theorem getD_windowPayloads (row0 : ℤ) {nwin : ℤ} {slot : ℕ} (hslot : slot < nwin.toNat)
    (rep : ℕ) :
    (windowPayloads env p doc enc (windowSite file fi col row0) nwin rep).getD slot none =
      gridPayload raster libs bitmaps p doc enc col (row0 + slot) := by
  rw [windowPayloads, slotPayloads, length_windowRaw, getD_map_range _ hslot, slotPayload,
    windowRaw, getD_map_range _ hslot, rasterizeSlot_eq hdet, gridPayload]
  simp only [packSlot, hdet.codecs_eq, hdet.bitmaps_eq]

/-- The source bytes of a window are those of its rows. -/
theorem totalBytes_windowRaw (row0 nwin : ℤ) :
    totalBytes (windowRaw env p doc (windowSite file fi col row0) nwin) =
      ((List.range nwin.toNat).map fun slot : ℕ =>
        blockBytes (gridBlock raster p doc col (row0 + slot))).sum := by
  rw [totalBytes, windowRaw, List.map_map]
  simp only [Function.comp_def, rasterizeSlot_eq hdet]

/-- The compressed bytes of a window are those of its rows, in every repeat. -/
theorem totalBytes_windowPayloads (row0 nwin : ℤ) (rep : ℕ) :
    totalBytes (windowPayloads env p doc enc (windowSite file fi col row0) nwin rep) =
      ((List.range nwin.toNat).map fun slot : ℕ =>
        blockBytes (gridPayload raster libs bitmaps p doc enc col (row0 + slot))).sum := by
  have hpayload : ∀ slot ∈ List.range nwin.toNat,
      slotPayload env enc p.args { windowSite file fi col row0 with rep := rep }
          (windowRaw env p doc (windowSite file fi col row0) nwin) slot =
        gridPayload raster libs bitmaps p doc enc col (row0 + slot) := by
    intro slot hslot
    have hslot := List.mem_range.mp hslot
    rw [← getD_windowPayloads hdet row0 hslot rep, windowPayloads, slotPayloads, length_windowRaw,
      getD_map_range _ hslot]
  rw [totalBytes, windowPayloads, slotPayloads, length_windowRaw, List.map_map]
  exact congrArg List.sum (List.map_congr_left fun slot hslot =>
    congrArg blockBytes (hpayload slot hslot))

/-- The measured source bytes are a sum over the grid. -/
theorem formatAcc_ss_eq :
    (formatAcc env p doc enc file fi nrows ncols).ss =
      gridSum ncols nrows fun col row => blockBytes (gridBlock raster p doc col row) := by
  rw [formatAcc_ss, gridSum]
  refine congrArg List.sum (List.map_congr_left fun col _ => ?_)
  simp only [totalBytes_windowRaw hdet]
  exact sum_windows p.one_le_cacheBlocks fun row => blockBytes (gridBlock raster p doc col row)

/-- The measured compressed bytes are a sum over the grid: the average over the repeats of a
constant. -/
theorem formatAcc_cs_eq (henc : p.doEncode = true) :
    (formatAcc env p doc enc file fi nrows ncols).cs =
      gridSum ncols nrows fun col row =>
        blockBytes (gridPayload raster libs bitmaps p doc enc col row) := by
  have hreps : (p.repeats.toNat : ℚ) = p.repeats := by
    have := p.one_le_repeats
    exact_mod_cast Int.toNat_of_nonneg (by omega : 0 ≤ p.repeats)
  have hpos : (p.repeats : ℚ) ≠ 0 := by
    have := p.one_le_repeats
    exact_mod_cast (by omega : p.repeats ≠ 0)
  rw [formatAcc_cs henc, gridSum]
  refine congrArg List.sum (List.map_congr_left fun col _ => ?_)
  simp only [totalBytes_windowPayloads hdet, List.map_const', List.sum_replicate,
    List.length_range, nsmul_eq_mul, hreps]
  -- every repeat contributes the same, and the average divides by their number
  rw [List.sum_map_mul_left, mul_div_cancel_left₀ _ hpos]
  exact sum_windows p.one_le_cacheBlocks fun row =>
    blockBytes (gridPayload raster libs bitmaps p doc enc col row)

/-- The verdict of a slot is that of its block. -/
theorem slotOk_eq_gridOk (henc : p.doEncode = true) (row0 : ℤ) {nwin : ℤ} {slot : ℕ}
    (hslot : slot < nwin.toNat) (rep : ℕ) :
    slotOk env enc.getSupportedFormat.value { windowSite file fi col row0 with rep := rep }
        (windowDigests env p doc (windowSite file fi col row0) nwin)
        (windowCache env p doc enc (windowSite file fi col row0) nwin) slot =
      gridOk raster libs bitmaps p doc enc col (row0 + slot) := by
  have hdigest : (windowDigests env p doc (windowSite file fi col row0) nwin).getD slot {} =
      slotDigest p.doCheck (gridBlock raster p doc col (row0 + slot)) := by
    rw [windowDigests, getD_map_range _ hslot, rasterizeSlot_eq hdet]
  rw [slotOk, gridOk, hdigest, windowCache, if_pos henc, getD_windowPayloads hdet row0 hslot]
  simp only [enc.value_eq_brotli_iff, decodeSlot, hdet.codecs_eq]

/-- The verdict of a format is a conjunction over the grid. -/
theorem formatAcc_ok_iff_grid (henc : p.doEncode = true) :
    (formatAcc env p doc enc file fi nrows ncols).ok = true ↔
      (p.doDecode = true → p.doCheck = true → ∀ col < ncols.toNat, ∀ row < nrows.toNat,
        gridOk raster libs bitmaps p doc enc (col : ℤ) (row : ℤ) = true) := by
  rw [formatAcc_ok_iff]
  refine imp_congr_right fun _ => imp_congr_right fun _ => forall₂_congr fun col _ => ?_
  rw [← forall_windows_iff p.one_le_cacheBlocks fun row =>
    gridOk raster libs bitmaps p doc enc col row = true]
  refine forall₂_congr fun w _ => ?_
  simp only [repeatOk, List.all_eq_true, List.mem_range]
  -- one repeat decides for all of them
  constructor
  · intro h slot hslot
    rw [← slotOk_eq_gridOk hdet henc w.1 hslot 0]
    exact h 0 p.repeats_pos slot hslot
  · intro h rep _ slot hslot
    rw [slotOk_eq_gridOk hdet henc w.1 hslot rep]
    exact h slot hslot

end Refinement

/-! ## Independence -/

/-- Two configurations that differ at most in thread counts, cache sizes, repeats and format
list. -/
def SameMeasurement (cfg₁ cfg₂ : BenchConfig) : Prop :=
  cfg₁ = { cfg₂ with
    rasterThreads := cfg₁.rasterThreads
    encodeThreads := cfg₁.encodeThreads
    decodeThreads := cfg₁.decodeThreads
    cacheBlocksMin := cfg₁.cacheBlocksMin
    cacheBlocksMax := cfg₁.cacheBlocksMax
    repeats := cfg₁.repeats
    formats := cfg₁.formats }

/-- The constants that the values of the grid depend on. -/
theorem SameMeasurement.params {cfg₁ cfg₂ : BenchConfig} (h : SameMeasurement cfg₁ cfg₂) :
    ∃ rt et dt reps cache hreps hcache, RunParams.ofConfig cfg₁ =
      { RunParams.ofConfig cfg₂ with
        rtThreads := rt
        etThreads := et
        dtThreads := dt
        repeats := reps
        cacheBlocks := cache
        one_le_repeats := hreps
        one_le_cacheBlocks := hcache } := by
  rw [h]
  exact ⟨_, _, _, _, _, _, _, rfl⟩

section Independence

variable {raster : Rasterizer} {libs : CodecLibs} {bitmaps : RasterLib}
  {env env₁ env₂ : Environment} {cfg cfg₁ cfg₂ : BenchConfig} {doc : CadDocument}
  {file file₁ file₂ : Text} {faccs faccs₁ faccs₂ : List FmtAcc} {g : Geometry}

/-- The accumulators of a run, format by format. -/
private theorem format_of_run (hg : imageGeometry doc (RunParams.ofConfig cfg) = some g)
    (hrun : measureFormats env (RunParams.ofConfig cfg) doc file g.ncols g.nrows
      (resolveFormats cfg.formats) = some faccs)
    {i : ℕ} {a : FmtAcc} (ha : faccs[i]? = some a) :
    ∃ fmt enc, (resolveFormats cfg.formats)[i]? = some fmt ∧ getEncoder fmt = some enc ∧
      a = formatAcc env (RunParams.ofConfig cfg) doc enc file i g.nrows g.ncols := by
  have hlength : faccs.length = (resolveFormats cfg.formats).length := by
    rw [measureFormats, Accumulate.mapM_eq_some_iff] at hrun
    rw [← hrun.length_eq, List.length_zipIdx]
  have hi : i < (resolveFormats cfg.formats).length :=
    hlength ▸ (List.getElem?_eq_some_iff.mp ha).1
  have hfmt := List.getElem?_eq_getElem hi
  obtain ⟨enc, henc⟩ := getEncoder_of_mem_resolveFormats (List.getElem_mem hi)
  obtain ⟨acc, hacc, hmeasure⟩ := measureFormats_getElem? hrun hfmt henc
  obtain rfl : a = acc := Option.some.inj (ha.symm.trans hacc)
  exact ⟨_, enc, hfmt, henc, ((measureFormat_eq_some_iff (nrows_le hg)).mp hmeasure).2⟩

/-- **Measurement independence.** On one document and one geometry, two runs that differ only
in thread counts, cache sizes, repeats, format list and schedules agree on every format they
have in common; and within a run all formats have the same source bytes. -/
theorem measurement_independent (hdet₁ : env₁.Deterministic raster libs bitmaps)
    (hdet₂ : env₂.Deterministic raster libs bitmaps) (hsame : SameMeasurement cfg₁ cfg₂)
    (hencode : cfg₁.encodeEnabled ≠ 0)
    (hg : imageGeometry doc (RunParams.ofConfig cfg₁) = some g)
    (hrun₁ : measureFormats env₁ (RunParams.ofConfig cfg₁) doc file₁ g.ncols g.nrows
      (resolveFormats cfg₁.formats) = some faccs₁)
    (hrun₂ : measureFormats env₂ (RunParams.ofConfig cfg₂) doc file₂ g.ncols g.nrows
      (resolveFormats cfg₂.formats) = some faccs₂) :
    (∀ (i j : ℕ) (fmt : ℤ) (a b : FmtAcc), (resolveFormats cfg₁.formats)[i]? = some fmt →
        (resolveFormats cfg₂.formats)[j]? = some fmt →
        faccs₁[i]? = some a → faccs₂[j]? = some b →
        a.ss = b.ss ∧ a.cs = b.cs ∧ a.cr = b.cr ∧ a.ok = b.ok) ∧
      ∀ (i j : ℕ) (a b : FmtAcc), faccs₁[i]? = some a → faccs₁[j]? = some b → a.ss = b.ss := by
  -- the constants that enter the grid are the same
  obtain ⟨rt, et, dt, reps, cache, hreps, hcache, hparams⟩ := hsame.params
  have hg₂ : imageGeometry doc (RunParams.ofConfig cfg₂) = some g := by
    rw [← hg, hparams]
    rfl
  have henc₁ : (RunParams.ofConfig cfg₁).doEncode = true := decide_eq_true hencode
  have henc₂ : (RunParams.ofConfig cfg₂).doEncode = true := by
    rw [hparams] at henc₁
    exact henc₁
  constructor
  · intro i j fmt a b hfmt₁ hfmt₂ ha hb
    obtain ⟨fmt₁, enc, hfmt₁', henc, rfl⟩ := format_of_run hg hrun₁ ha
    obtain ⟨fmt₂, enc', hfmt₂', henc', rfl⟩ := format_of_run hg₂ hrun₂ hb
    obtain rfl : fmt = fmt₁ := Option.some.inj (hfmt₁.symm.trans hfmt₁')
    obtain rfl : fmt = fmt₂ := Option.some.inj (hfmt₂.symm.trans hfmt₂')
    obtain rfl : enc = enc' := Option.some.inj (henc.symm.trans henc')
    -- both runs compute the same sums over the same grid
    have hss : (formatAcc env₁ (RunParams.ofConfig cfg₁) doc enc file₁ i g.nrows g.ncols).ss =
        (formatAcc env₂ (RunParams.ofConfig cfg₂) doc enc file₂ j g.nrows g.ncols).ss := by
      rw [formatAcc_ss_eq hdet₁, formatAcc_ss_eq hdet₂, hparams]
      rfl
    have hcs : (formatAcc env₁ (RunParams.ofConfig cfg₁) doc enc file₁ i g.nrows g.ncols).cs =
        (formatAcc env₂ (RunParams.ofConfig cfg₂) doc enc file₂ j g.nrows g.ncols).cs := by
      rw [formatAcc_cs_eq hdet₁ henc₁, formatAcc_cs_eq hdet₂ henc₂, hparams]
      rfl
    have hok : (formatAcc env₁ (RunParams.ofConfig cfg₁) doc enc file₁ i g.nrows g.ncols).ok =
        (formatAcc env₂ (RunParams.ofConfig cfg₂) doc enc file₂ j g.nrows g.ncols).ok := by
      rw [Bool.eq_iff_iff, formatAcc_ok_iff_grid hdet₁ henc₁, formatAcc_ok_iff_grid hdet₂ henc₂,
        hparams]
      rfl
    exact ⟨hss, hcs, by rw [FmtAcc.cr, FmtAcc.cr, hss, hcs], hok⟩
  · intro i j a b ha hb
    obtain ⟨-, enc, -, -, rfl⟩ := format_of_run hg hrun₁ ha
    obtain ⟨-, enc', -, -, rfl⟩ := format_of_run hg hrun₁ hb
    rw [formatAcc_ss_eq hdet₁, formatAcc_ss_eq hdet₁]

/-- The reference environment is deterministic, whatever the schedule. -/
theorem referenceEnv_deterministic (schedule : Phase → Site → List ℕ) :
    { referenceEnv with schedule := schedule }.Deterministic
      (fun _ col row _ _ _ _ => if col = 0 ∧ row = 0 then some twoRows else none)
      referenceLibs referenceBitmaps where
  raster_eq _ _ := rfl
  codecs_eq _ _ := rfl
  bitmaps_eq _ _ := rfl

/-- Two runs on the reference document, with two repeats of GZIP and Brotli on one schedule
and with one repeat of Brotli, GZIP and GZIP on another. -/
theorem measurement_independent_reference :
    ∃ g faccs₁ faccs₂,
      imageGeometry referenceDocument (RunParams.ofConfig referenceConfig) = some g ∧
      measureFormats { referenceEnv with schedule := fun _ _ => [0] }
        (RunParams.ofConfig referenceConfig) referenceDocument ['a'] g.ncols g.nrows
        (resolveFormats referenceConfig.formats) = some faccs₁ ∧
      measureFormats { referenceEnv with schedule := fun _ _ => [1, 0, 1] }
        (RunParams.ofConfig
          { referenceConfig with repeats := 1, rasterThreads := 2, formats := [5, 1, 1] })
        referenceDocument ['a'] g.ncols g.nrows (resolveFormats [5, 1, 1]) = some faccs₂ ∧
      (∀ (i j : ℕ) (fmt : ℤ) (a b : FmtAcc),
          (resolveFormats referenceConfig.formats)[i]? = some fmt →
          (resolveFormats [5, 1, 1])[j]? = some fmt →
          faccs₁[i]? = some a → faccs₂[j]? = some b →
          a.ss = b.ss ∧ a.cs = b.cs ∧ a.cr = b.cr ∧ a.ok = b.ok) ∧
        ∀ (i j : ℕ) (a b : FmtAcc), faccs₁[i]? = some a → faccs₁[j]? = some b →
          a.ss = b.ss := by
  have hg : imageGeometry referenceDocument (RunParams.ofConfig referenceConfig) =
      some { imgW := 64, imgH := 2, ncols := 1, nrows := 1 } := by decide +kernel
  obtain ⟨faccs₁, hrun₁⟩ := Option.isSome_iff_exists.mp
    (by decide +kernel : (measureFormats { referenceEnv with schedule := fun _ _ => [0] }
      (RunParams.ofConfig referenceConfig) referenceDocument ['a'] 1 1
      (resolveFormats referenceConfig.formats)).isSome)
  obtain ⟨faccs₂, hrun₂⟩ := Option.isSome_iff_exists.mp
    (by decide +kernel : (measureFormats { referenceEnv with schedule := fun _ _ => [1, 0, 1] }
      (RunParams.ofConfig
        { referenceConfig with repeats := 1, rasterThreads := 2, formats := [5, 1, 1] })
      referenceDocument ['a'] 1 1 (resolveFormats [5, 1, 1])).isSome)
  have hsame : SameMeasurement referenceConfig
      { referenceConfig with repeats := 1, rasterThreads := 2, formats := [5, 1, 1] } := rfl
  exact ⟨_, faccs₁, faccs₂, hg, hrun₁, hrun₂, measurement_independent
    (referenceEnv_deterministic _) (referenceEnv_deterministic _) hsame (by decide) hg hrun₁
    hrun₂⟩

end Independence

end Redcli
