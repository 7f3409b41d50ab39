import Redcli.Buffers.BufferPool
import Redcli.Config.CommandLine
import Redcli.Pipeline.Coverage

/-!
# Safety of the Geometry Arithmetic

Between the limits and the loops over blocks, `rle4k_cmd_run` divides by three settings and
adds and multiplies seven, none of which has been limited. This module says for which settings
and images nothing goes wrong there.

## Main results

* `geometrySafe_iff`: the exact condition, in terms of the settings and the size of the image;
* `geometryUnsafe_stripHeight`: the option `-sh 0` is accepted and leads to a division by zero.
-/

namespace Redcli

/-- What is promised about the geometry of an image of `imgW` by `imgH` pixels, for a
configuration with its limits applied: there is a strip width, it and the block height are
positive, both block counts are defined, the loops over the blocks end, and the size of a
buffer is the exact product. -/
def GeometrySafe (cfg : BenchConfig) (imgW imgH : ℤ) : Prop :=
  ∃ stripWidth, resolveStripWidth cfg = some stripWidth ∧ 1 ≤ stripWidth ∧ 1 ≤ cfg.blockLine ∧
    (∃ ncols nrows, blockCount imgW stripWidth = some ncols ∧
      blockCount imgH cfg.blockLine = some nrows ∧
        (visitWindows ncols nrows (RunParams.ofConfig cfg).cacheBlocks).isSome) ∧
    ((getMemoryBufferSize (UInt32.ofInt stripWidth) (UInt32.ofInt cfg.blockLine)).toNat : ℤ) =
      ⌈(stripWidth / 512 : ℚ)⌉ * 64 * cfg.blockLine

/-! ## The condition -/

/-- The width of the device in pixels, in exact arithmetic. -/
def deviceWidth (cfg : BenchConfig) : ℤ :=
  cfg.dmdResolutionCols * cfg.obliqueFactor + cfg.dmdResolutionRows

/-- The strip width, in exact arithmetic. -/
def exactStripWidth (cfg : BenchConfig) : ℤ :=
  if cfg.stripWidth = 0 then
    (deviceWidth cfg + cfg.alignMode - 1) / |cfg.alignMode| * |cfg.alignMode|
  else cfg.stripWidth

/-- The number of rows of a window, `cache_blocks`. -/
def windowRows (cfg : BenchConfig) : ℤ := max (max 1 cfg.cacheBlocksMin) cfg.cacheBlocksMax

/-- The device has a width that can be rounded up. A negative `align_mode` rounds down to a
multiple that is less by up to three times its amount. -/
structure DeviceFits (cfg : BenchConfig) : Prop where
  product : IsInt (cfg.dmdResolutionCols * cfg.obliqueFactor)
  width : IsInt (deviceWidth cfg)
  align : 1 ≤ cfg.alignMode ∧ 1 ≤ deviceWidth cfg ∧ deviceWidth cfg + cfg.alignMode ≤ intMax ∨
    cfg.alignMode ≤ -1 ∧ 1 - 2 * cfg.alignMode ≤ deviceWidth cfg

/-- The settings are positive and small enough for an image of `imgW` by `imgH` pixels. -/
structure GeometryFits (cfg : BenchConfig) (imgW imgH : ℤ) : Prop where
  blockLine : 1 ≤ cfg.blockLine
  stripWidth : cfg.stripWidth ≠ 0 → 1 ≤ cfg.stripWidth
  device : cfg.stripWidth = 0 → DeviceFits cfg
  columns : imgW + exactStripWidth cfg ≤ intMax
  rows : imgH + cfg.blockLine ≤ intMax
  /-- The counter of the window loop behind the last window, if there is a column. -/
  counter : 1 ≤ imgW →
    ⌈(⌈(imgH / cfg.blockLine : ℚ)⌉ / windowRows cfg : ℚ)⌉ * windowRows cfg ≤ intMax
  buffer : ⌈(exactStripWidth cfg / 512 : ℚ)⌉ * 64 * cfg.blockLine < 2 ^ 32

/-! ## The strip width -/

/-- A rounded up quotient. -/
private theorem ceil_div_eq {n d : ℤ} (hd : 1 ≤ d) : ⌈(n / d : ℚ)⌉ = (n + d - 1) / d := by
  have hd' : (0 : ℚ) < d := by exact_mod_cast hd
  -- both are larger than the same numbers
  refine eq_of_forall_lt_iff fun k => ?_
  have hceil : k < ⌈(n / d : ℚ)⌉ ↔ k * d < n := by
    rw [Int.lt_ceil, lt_div_iff₀ hd']
    exact_mod_cast Iff.rfl
  have hfloor : k < (n + d - 1) / d ↔ k * d < n := by
    rw [← Int.add_one_le_iff, Int.le_ediv_iff_mul_le (by omega), Int.add_mul]
    omega
  rw [hceil, hfloor]

/-- A truncated quotient times its divisor does not depend on the sign of the divisor. -/
private theorem tdiv_mul_eq_abs (n a : ℤ) : n.tdiv a * a = n.tdiv |a| * |a| := by
  rcases abs_choice a with h | h
  · rw [h]
  · rw [h, Int.tdiv_neg, Int.neg_mul_neg]

/-- The steps of the automatic strip width. -/
private theorem resolveStripWidth_auto {cfg : BenchConfig} (hauto : cfg.stripWidth = 0) {w : ℤ} :
    resolveStripWidth cfg = some w ↔
      IsInt (cfg.dmdResolutionCols * cfg.obliqueFactor) ∧ IsInt (deviceWidth cfg) ∧
        IsInt (deviceWidth cfg + cfg.alignMode) ∧ IsInt (deviceWidth cfg + cfg.alignMode - 1) ∧
          cfg.alignMode ≠ 0 ∧ IsInt ((deviceWidth cfg + cfg.alignMode - 1).tdiv cfg.alignMode) ∧
            (deviceWidth cfg + cfg.alignMode - 1).tdiv |cfg.alignMode| * |cfg.alignMode| = w ∧
              IsInt w := by
  rw [← tdiv_mul_eq_abs]
  simp only [resolveStripWidth, if_pos hauto, intDiv, Option.bind_eq_bind,
    Option.bind_eq_some_iff, checkInt_eq_some_iff, Option.ite_none_left_eq_some]
  constructor
  · rintro ⟨_, ⟨rfl, h₁⟩, _, ⟨rfl, h₂⟩, _, ⟨rfl, h₃⟩, _, ⟨rfl, h₄⟩, _, ⟨hne, rfl, h₅⟩, rfl, h₆⟩
    exact ⟨h₁, h₂, h₃, h₄, hne, h₅, rfl, h₆⟩
  · rintro ⟨h₁, h₂, h₃, h₄, hne, h₅, rfl, h₆⟩
    exact ⟨_, ⟨rfl, h₁⟩, _, ⟨rfl, h₂⟩, _, ⟨rfl, h₃⟩, _, ⟨rfl, h₄⟩, _, ⟨hne, rfl, h₅⟩, rfl, h₆⟩

/-- A multiple that is truncated to is positive if there is a positive one below. -/
private theorem one_le_tdiv_mul_iff {n m : ℤ} (hm : 1 ≤ m) : 1 ≤ n.tdiv m * m ↔ m ≤ n := by
  constructor
  · intro hpos
    by_contra hlt
    -- below zero the quotient is not positive, and below `m` it is zero
    rcases lt_or_ge n 0 with hneg | hnonneg
    · have hquot : 0 ≤ (-n).tdiv m := Int.tdiv_nonneg (by omega) (by omega)
      rw [Int.neg_tdiv] at hquot
      have := Int.mul_nonneg hquot (by omega : 0 ≤ m)
      rw [Int.neg_mul] at this
      omega
    · rw [Int.tdiv_eq_zero_of_lt hnonneg (by omega)] at hpos
      omega
  · intro hle
    rw [Int.tdiv_eq_ediv_of_nonneg (by omega)]
    -- the quotient is at least one
    have hquot : 1 ≤ n / m := (Int.le_ediv_iff_mul_le (by omega)).mpr (by omega)
    have := Int.mul_le_mul hquot hm (by omega) (by omega)
    omega

/-- When there is a positive strip width, and which one. -/
theorem resolveStripWidth_pos_iff {cfg : BenchConfig} {w : ℤ} :
    resolveStripWidth cfg = some w ∧ 1 ≤ w ↔
      w = exactStripWidth cfg ∧ (cfg.stripWidth ≠ 0 → 1 ≤ cfg.stripWidth) ∧
        (cfg.stripWidth = 0 → DeviceFits cfg) := by
  by_cases hauto : cfg.stripWidth = 0
  · simp only [resolveStripWidth_auto hauto, exactStripWidth, hauto, if_true, ne_eq,
      not_true_eq_false, false_imp_iff, true_and, true_imp_iff]
    set n := deviceWidth cfg + cfg.alignMode - 1 with hn
    constructor
    -- a positive width is a multiple that the sum reaches
    · rintro ⟨⟨hproduct, hwidth, hsum, -, hne, -, rfl, -⟩, hpos⟩
      have hle := (one_le_tdiv_mul_iff (Int.one_le_abs hne)).mp hpos
      have habs := Int.one_le_abs hne
      refine ⟨by rw [Int.tdiv_eq_ediv_of_nonneg (by omega)], hproduct, hwidth, ?_⟩
      obtain ⟨-, hhi⟩ := hsum
      rcases abs_cases cfg.alignMode with ⟨heq, hsign⟩ | ⟨heq, hsign⟩
      · exact .inl ⟨by omega, by omega, hhi⟩
      · exact .inr ⟨by omega, by omega⟩
    · rintro ⟨rfl, hdevice⟩
      have hne : cfg.alignMode ≠ 0 := by
        have := hdevice.align
        omega
      have habs := Int.one_le_abs hne
      -- the sum reaches the first multiple and fits
      have hbounds : |cfg.alignMode| ≤ n ∧ n + 1 ≤ intMax := by
        have hhi := hdevice.width.2
        rcases abs_cases cfg.alignMode with ⟨heq, hsign⟩ | ⟨heq, hsign⟩
        · have := hdevice.align
          omega
        · have := hdevice.align
          omega
      have hquot : n.tdiv |cfg.alignMode| = n / |cfg.alignMode| :=
        Int.tdiv_eq_ediv_of_nonneg (by omega)
      have hpos := (one_le_tdiv_mul_iff habs).mpr hbounds.1
      have hle := Int.ediv_mul_le n (by omega : |cfg.alignMode| ≠ 0)
      have hquot_le : n / |cfg.alignMode| ≤ n := Int.ediv_le_self _ (by omega)
      have hquot_nonneg : 0 ≤ n / |cfg.alignMode| := Int.ediv_nonneg (by omega) (by omega)
      have hquot' : n.tdiv cfg.alignMode = n / |cfg.alignMode| ∨
          n.tdiv cfg.alignMode = -(n / |cfg.alignMode|) := by
        rcases abs_choice cfg.alignMode with h | h
        · exact .inl (by rw [← hquot, h])
        · exact .inr (by rw [← hquot, h, Int.tdiv_neg, Int.neg_neg])
      rw [hquot] at hpos ⊢
      simp only [IsInt, intMin, intMax] at hbounds ⊢
      exact ⟨⟨hdevice.product, hdevice.width, by omega, by omega, hne, by omega, trivial,
        by omega, by omega⟩, hpos⟩
  -- an explicit width is taken as it is
  · simp only [resolveStripWidth, exactStripWidth, if_neg hauto, Option.some.injEq]
    simp only [hauto, ne_eq, not_false_eq_true, true_imp_iff, false_imp_iff, and_true]
    constructor
    · rintro ⟨rfl, hpos⟩
      exact ⟨rfl, hpos⟩
    · rintro ⟨rfl, hpos⟩
      exact ⟨rfl, hpos⟩

/-! ## Block counts and windows -/

variable {cfg : BenchConfig} {size block imgW imgH ncols nrows cacheBlocks : ℤ}

/-- The steps of a block count. -/
private theorem blockCount_eq_some_iff :
    blockCount size block = some ncols ↔ IsInt (size + block) ∧ IsInt (size + block - 1) ∧
      block ≠ 0 ∧ (size + block - 1).tdiv block = ncols ∧ IsInt ncols := by
  simp only [blockCount, intDiv, Option.bind_eq_bind, Option.bind_eq_some_iff,
    checkInt_eq_some_iff, Option.ite_none_left_eq_some]
  constructor
  · rintro ⟨_, ⟨rfl, h₁⟩, _, ⟨rfl, h₂⟩, hne, rfl, h₃⟩
    exact ⟨h₁, h₂, hne, rfl, h₃⟩
  · rintro ⟨h₁, h₂, hne, rfl, h₃⟩
    exact ⟨_, ⟨rfl, h₁⟩, _, ⟨rfl, h₂⟩, hne, rfl, h₃⟩

/-- There is a block count if the first sum fits. -/
theorem exists_blockCount_iff (hsize : IsInt size) (hblock : 1 ≤ block) :
    (∃ count, blockCount size block = some count) ↔ size + block ≤ intMax := by
  constructor
  · rintro ⟨count, hcount⟩
    exact (blockCount_eq_some_iff.mp hcount).1.2
  · intro hfit
    -- the quotient is not farther from zero than the sum
    have hquot : IsInt ((size + block - 1).tdiv block) := by
      simp only [IsInt, intMin, intMax] at hsize hfit ⊢
      rcases le_total 0 (size + block - 1) with hnonneg | hneg
      · rw [Int.tdiv_eq_ediv_of_nonneg hnonneg]
        have hle := Int.ediv_le_self block hnonneg
        have hquot := Int.ediv_nonneg hnonneg (by omega : 0 ≤ block)
        omega
      · have hnonneg : 0 ≤ -(size + block - 1) := by omega
        rw [← Int.neg_neg (size + block - 1), Int.neg_tdiv, Int.tdiv_eq_ediv_of_nonneg hnonneg]
        have hle := Int.ediv_le_self block hnonneg
        have hquot := Int.ediv_nonneg hnonneg (by omega : 0 ≤ block)
        omega
    obtain ⟨hlo, -⟩ := hsize
    exact ⟨_, blockCount_eq_some_iff.mpr ⟨⟨by omega, hfit⟩, ⟨by omega, by omega⟩, by omega, rfl,
      hquot⟩⟩

/-- There is a column if there is a column of pixels. -/
private theorem one_le_blockCount_iff (hblock : 1 ≤ block)
    (hcount : blockCount size block = some ncols) : 1 ≤ ncols ↔ 1 ≤ size := by
  obtain ⟨-, -, -, rfl, -⟩ := blockCount_eq_some_iff.mp hcount
  have hpos : 1 ≤ (size + block - 1).tdiv block ↔ 1 ≤ (size + block - 1).tdiv block * block := by
    exact (mul_pos_iff_of_pos_right (by omega : 0 < block)).symm
  rw [hpos, one_le_tdiv_mul_iff hblock]
  omega

/-- The loops over the blocks end unless the counter of the window loop overflows. -/
theorem visitWindows_isSome_iff (hcache : 1 ≤ cacheBlocks) (hrows : nrows ≤ intMax) :
    (visitWindows ncols nrows cacheBlocks).isSome ↔
      (1 ≤ ncols → WindowCounterFits nrows cacheBlocks) := by
  -- without a column the window loop does not run
  by_cases hfits : WindowCounterFits nrows cacheBlocks
  · simp [visitWindows_eq hcache hrows hfits, hfits]
  · rcases Nat.eq_zero_or_pos ncols.toNat with hzero | hpos
    · have hncols : ¬ 1 ≤ ncols := by omega
      simp [visitWindows, columnLoop, hzero, hncols]
    · -- the first column is not left
      have hncols : 1 ≤ ncols := by omega
      obtain ⟨n, hn⟩ := Nat.exists_eq_succ_of_ne_zero hpos.ne'
      rw [visitWindows, columnLoop, hn, List.range_succ_eq_map, List.foldlM_cons,
        windowLoop_eq hcache hrows _ (Nat.lt_succ_self _)]
      simp [hfits, hncols]

/-- A number of tiles is a rounded up quotient. -/
private theorem tileCount_eq_ceil (hblock : 1 ≤ block) (hsize : 0 ≤ size) :
    (Tiling.tileCount block.toNat size.toNat : ℤ) = ⌈(size / block : ℚ)⌉ := by
  rw [ceil_div_eq hblock, Tiling.tileCount, Int.natCast_ediv]
  congr 1 <;> omega

/-- The counter of the window loop in terms of the height of the image. -/
private theorem windowCounterFits_iff (hcache : 1 ≤ cacheBlocks) (hblock : 1 ≤ block)
    (hcount : blockCount size block = some nrows) :
    WindowCounterFits nrows cacheBlocks ↔
      ⌈(⌈(size / block : ℚ)⌉ / cacheBlocks : ℚ)⌉ * cacheBlocks ≤ intMax := by
  rcases lt_or_ge size 0 with hneg | hnonneg
  · -- no row, and no window
    have hzero : nrows.toNat = 0 := by
      have := one_le_blockCount_iff hblock hcount
      omega
    have hquot : ⌈(size / block : ℚ)⌉ ≤ 0 := by
      rw [Int.ceil_le, Int.cast_zero]
      exact div_nonpos_of_nonpos_of_nonneg (by exact_mod_cast hneg.le)
        (by exact_mod_cast (by omega : 0 ≤ block))
    have hwindows : ⌈(⌈(size / block : ℚ)⌉ / cacheBlocks : ℚ)⌉ ≤ 0 := by
      rw [Int.ceil_le, Int.cast_zero]
      exact div_nonpos_of_nonpos_of_nonneg (by exact_mod_cast hquot)
        (by exact_mod_cast (by omega : 0 ≤ cacheBlocks))
    have hle := Int.mul_nonpos_of_nonpos_of_nonneg hwindows (by omega : 0 ≤ cacheBlocks)
    have hcounter : WindowCounterFits nrows cacheBlocks := by
      have htiles : Tiling.tileCount cacheBlocks.toNat 0 ≤ 0 := Tiling.tileCount_le (by omega)
      rw [WindowCounterFits, hzero, Nat.le_zero.mp htiles]
      simp [intMax]
    simp only [hcounter, true_iff, intMax]
    omega
  -- the windows are the tiles of the rows, and these the tiles of the image
  · have hrows := blockCount_eq_some hnonneg hblock hcount
    rw [WindowCounterFits, tileCount_eq_ceil hcache (by omega), hrows,
      tileCount_eq_ceil hblock hnonneg]

/-! ## The size of a buffer -/

/-- `get_memory_buffer_size` is the exact product up to a multiple of `2 ^ 32`. -/
private theorem toNat_getMemoryBufferSize {stripWidth blockHeight : ℤ} (hstrip : 1 ≤ stripWidth)
    (hstrip' : stripWidth ≤ intMax) (hblock : 1 ≤ blockHeight) (hblock' : blockHeight ≤ intMax) :
    ((getMemoryBufferSize (UInt32.ofInt stripWidth) (UInt32.ofInt blockHeight)).toNat : ℤ) =
      ⌈(stripWidth / 512 : ℚ)⌉ * 64 * blockHeight % 2 ^ 32 := by
  have hs := toNat_ofInt (by omega : 0 ≤ stripWidth) hstrip'
  have hb := toNat_ofInt (by omega : 0 ≤ blockHeight) hblock'
  have hceil : ⌈(stripWidth / 512 : ℚ)⌉ = (stripWidth + 511) / 512 := by
    have := ceil_div_eq (n := stripWidth) (by decide : (1 : ℤ) ≤ 512)
    rw [Int.cast_ofNat] at this
    rw [this]
    congr 1
    omega
  simp only [intMax] at hstrip'
  rw [hceil, getMemoryBufferSize, UInt32.toNat_mul, UInt32.toNat_div, UInt32.toNat_mul,
    UInt32.toNat_div, UInt32.toNat_add]
  simp only [UInt32.reduceToNat]
  -- only the last product can leave the range
  have hrow : (((UInt32.ofInt stripWidth).toNat + 511) % 2 ^ 32 / 512 * 512 % 2 ^ 32 / 8 : ℕ) =
      (stripWidth + 511) / 512 * 64 := by
    omega
  rw [Int.natCast_emod, Int.natCast_mul, hrow, hb]
  rfl

/-- The size of a buffer is exact if the product is less than `2 ^ 32`. -/
private theorem getMemoryBufferSize_eq_iff {stripWidth blockHeight : ℤ} (hstrip : 1 ≤ stripWidth)
    (hstrip' : stripWidth ≤ intMax) (hblock : 1 ≤ blockHeight) (hblock' : blockHeight ≤ intMax) :
    ((getMemoryBufferSize (UInt32.ofInt stripWidth) (UInt32.ofInt blockHeight)).toNat : ℤ) =
        ⌈(stripWidth / 512 : ℚ)⌉ * 64 * blockHeight ↔
      ⌈(stripWidth / 512 : ℚ)⌉ * 64 * blockHeight < 2 ^ 32 := by
  have hstrip₀ : (0 : ℚ) ≤ stripWidth := by exact_mod_cast (by omega : 0 ≤ stripWidth)
  have hquot : 0 ≤ ⌈(stripWidth / 512 : ℚ)⌉ :=
    Int.ceil_nonneg (div_nonneg hstrip₀ (by decide))
  have hnonneg : 0 ≤ ⌈(stripWidth / 512 : ℚ)⌉ * 64 * blockHeight :=
    Int.mul_nonneg (by omega) (by omega)
  -- a number is its remainder exactly if it is less than the modulus
  rw [toNat_getMemoryBufferSize hstrip hstrip' hblock hblock']
  constructor
  · intro heq
    rw [← heq]
    exact Int.emod_lt_of_pos _ (by decide)
  · exact Int.emod_eq_of_lt hnonneg

/-! ## All settings -/

/-- The geometry is safe exactly if the settings fit the image, for every configuration that
is accepted and every size in pixels, whatever pitch and document it comes from. -/
theorem geometrySafe_iff {file : Option Text} {args : List Text} {envThreads : Option Text}
    {csvPath : Text} (h : setUp file args envThreads = .ok (some (cfg, csvPath)))
    (himgW : IsInt imgW) (himgH : IsInt imgH) :
    GeometrySafe (limitConfig cfg) imgW imgH ↔ GeometryFits cfg imgW imgH := by
  have hcfg := setUp_inRange h
  -- the larger one of the two cache sizes, both at least 1
  have hcache : (RunParams.ofConfig (limitConfig cfg)).cacheBlocks = windowRows cfg := by
    simp only [RunParams.ofConfig, limitConfig, windowRows]
    split_ifs <;> omega
  have hrows : 1 ≤ windowRows cfg := (le_max_left _ _).trans (le_max_left _ _)
  -- the limits change none of the other settings
  have hresolve : resolveStripWidth (limitConfig cfg) = resolveStripWidth cfg := rfl
  have hblock : (limitConfig cfg).blockLine = cfg.blockLine := rfl
  -- a width is an `int`, whether it is computed or given
  have hfit : ∀ w, resolveStripWidth cfg = some w → w ≤ intMax := by
    intro w hw
    by_cases hauto : cfg.stripWidth = 0
    · exact ((resolveStripWidth_auto hauto).mp hw).2.2.2.2.2.2.2.2
    · rw [resolveStripWidth, if_neg hauto] at hw
      exact Option.some.inj hw ▸ hcfg.stripWidth.2
  simp only [GeometrySafe, hcache, hresolve, hblock]
  constructor
  · rintro ⟨w, hw, hpos, hline, ⟨ncols, nrows, hncols, hnrows, hloops⟩, hbuffer⟩
    -- each promise gives one part of the condition
    obtain ⟨rfl, hset, hdevice⟩ := resolveStripWidth_pos_iff.mp ⟨hw, hpos⟩
    rw [visitWindows_isSome_iff hrows (blockCount_le hnrows),
      one_le_blockCount_iff hpos hncols, windowCounterFits_iff hrows hline hnrows] at hloops
    exact
      { blockLine := hline
        stripWidth := hset
        device := hdevice
        columns := (exists_blockCount_iff himgW hpos).mp ⟨ncols, hncols⟩
        rows := (exists_blockCount_iff himgH hline).mp ⟨nrows, hnrows⟩
        counter := hloops
        buffer := (getMemoryBufferSize_eq_iff hpos (hfit _ hw) hline hcfg.blockLine.2).mp hbuffer }
  · intro hfits
    -- the width first, then the counts, then the loops over them
    obtain ⟨hw, hpos⟩ :=
      resolveStripWidth_pos_iff.mpr ⟨rfl, hfits.stripWidth, hfits.device⟩
    obtain ⟨ncols, hncols⟩ := (exists_blockCount_iff himgW hpos).mpr hfits.columns
    obtain ⟨nrows, hnrows⟩ := (exists_blockCount_iff himgH hfits.blockLine).mpr hfits.rows
    refine ⟨_, hw, hpos, hfits.blockLine, ⟨ncols, nrows, hncols, hnrows, ?_⟩,
      (getMemoryBufferSize_eq_iff hpos (hfit _ hw) hfits.blockLine hcfg.blockLine.2).mpr
        hfits.buffer⟩
    rw [visitWindows_isSome_iff hrows (blockCount_le hnrows),
      one_le_blockCount_iff hpos hncols, windowCounterFits_iff hrows hfits.blockLine hnrows]
    exact hfits.counter

/-- The options `-i a`. -/
def inputOptions : List Text := ["-i".toList, ['a']]

/-- The defaults, for an image of one pixel. -/
theorem geometrySafe_defaults :
    GeometrySafe (limitConfig { inputPath := ['a'] }) 1 1 ↔
      GeometryFits { inputPath := ['a'] } 1 1 := by
  have hsetUp : setUp none inputOptions none = .ok (some ({ inputPath := ['a'] }, [])) := by
    decide +kernel
  have hone : IsInt 1 := ⟨by decide, by decide⟩
  exact geometrySafe_iff hsetUp hone hone

/-- The option `-sh 0` is accepted, the document is loaded, its size in pixels is known, and
the number of rows is a quotient by zero: the run does not end normally. -/
theorem geometryUnsafe_stripHeight :
    setUp none (inputOptions ++ ["-sh".toList, ['0']]) none =
        .ok (some ({ inputPath := ['a'], blockLine := 0 }, [])) ∧
      collectFiles referenceEnv { inputPath := ['a'], blockLine := 0 } = some [['a']] ∧
        referenceEnv.load ['a'] = .ok (some referenceDocument) ∧
          imageSize (64 - 0) (.finite (1 / 2 * 1000)) = some 1 ∧
            imageSize (2 - 0) (.finite (1 / 2 * 1000)) = some 1 ∧
              ¬ GeometrySafe (limitConfig { inputPath := ['a'], blockLine := 0 }) 1 1 ∧
                blockCount 1 0 = none ∧
                  (rle4kCmdRun referenceEnv { inputPath := ['a'], blockLine := 0 } []).isNone := by
  refine ⟨by decide +kernel, by decide +kernel, rfl, by decide +kernel, by decide +kernel, ?_,
    by decide, ?_⟩
  -- the block height is not positive
  · rintro ⟨w, -, -, hline, -⟩
    exact absurd hline (by decide)
  · decide +kernel

end Redcli
