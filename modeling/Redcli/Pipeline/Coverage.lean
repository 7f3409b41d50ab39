import Redcli.Pipeline.MeasurementResults
import Redcli.Pipeline.Run

/-!
# Coverage of the Image

Which blocks the column loop and the window loop visit.

## Main results

* `visitWindows_eq`: the loops end, with the windows of each column in order;
* `coverage`: the visited blocks cover every pixel of the image exactly once and reach into
  the image;
* `measureFormat_eq_visited`: a format is measured in the visited windows;
* `visited_eq_rasterized_iff`: when the visited blocks are the blocks of the rasterizer.
-/

namespace Redcli

/-- A visited window: its column, its first row and its number of rows. -/
structure Window where
  col : ℤ
  row0 : ℤ
  nwin : ℤ
  deriving DecidableEq, Repr

/-- The two loops of a format with a body that records the windows. -/
def visitWindows (ncols nrows cacheBlocks : ℤ) : Option (List Window) :=
  columnLoop ncols (fun col ws =>
    windowLoop nrows cacheBlocks (fun row0 nwin ws => some (ws ++ [⟨col, row0, nwin⟩]))
      (nrows.toNat + 1) 0 ws) []

/-- The windows of each column in order. -/
def gridWindows (ncols nrows cacheBlocks : ℤ) : List Window :=
  (List.range ncols.toNat).flatMap fun col : ℕ =>
    (windows nrows cacheBlocks).map fun w => ⟨col, w.1, w.2⟩

/-- The rows of a window: `row0 + local` for every slot. -/
def Window.rows (w : Window) : List ℤ :=
  (List.range w.nwin.toNat).map fun slot : ℕ => w.row0 + slot

/-- A pixel lies in a block of `s` by `b` pixels. -/
def InBlock (s b col row x y : ℤ) : Prop :=
  col * s ≤ x ∧ x < (col + 1) * s ∧ row * b ≤ y ∧ y < (row + 1) * b

/-- What it means that the visited windows cover an image of `imgW` by `imgH` pixels. -/
structure Covers (imgW imgH s b ncols nrows cacheBlocks : ℤ) (ws : List Window) : Prop where
  /-- Every window has between 1 and `cache_blocks` rows. -/
  nwin_bounds : ∀ w ∈ ws, 1 ≤ w.nwin ∧ w.nwin ≤ cacheBlocks
  /-- The windows of a column, in order, are its rows: consecutive, disjoint and complete. -/
  rows_eq : ∀ col, 0 ≤ col → col < ncols →
    (ws.filter fun w => w.col = col).flatMap Window.rows =
      (List.range nrows.toNat).map fun row : ℕ => (row : ℤ)
  /-- Every pixel lies in exactly one slot of one window, -/
  pixel_unique : ∀ x y, 0 ≤ x → x < imgW → 0 ≤ y → y < imgH →
    ∃! v : Window × ℕ, v.1 ∈ ws ∧ v.2 < v.1.nwin.toNat ∧
      InBlock s b v.1.col (v.1.row0 + v.2) x y
  /-- in column `x / strip_width` and row `y / block_line`. -/
  pixel_block : ∀ x y, 0 ≤ x → x < imgW → 0 ≤ y → y < imgH →
    ∃ w ∈ ws, ∃ slot : ℕ, slot < w.nwin.toNat ∧ w.col = x / s ∧ w.row0 + slot = y / b
  /-- No visited block lies outside the image. -/
  block_inside : ∀ w ∈ ws, ∀ slot < w.nwin.toNat,
    ∃ x y, 0 ≤ x ∧ x < imgW ∧ 0 ≤ y ∧ y < imgH ∧ InBlock s b w.col (w.row0 + slot) x y
  /-- The raster phase of a window asks the rasterizer for exactly these blocks, whatever the
  schedule. -/
  raster_rows : ∀ w ∈ ws, ∀ (env : Environment) (p : RunParams) (doc : CadDocument) (site : Site),
    site.col = w.col → site.row0 = w.row0 →
      (rle4kPhaseRasterWindow env p doc site w.nwin).map RasterWindow.raw =
        some ((List.range w.nwin.toNat).map fun slot : ℕ =>
          env.rasterizeBlock site slot doc w.col (w.row0 + slot) p.pwNm
            (UInt32.ofInt p.stripWidth) (UInt32.ofInt p.blockLine) .align064)
  /-- A format is measured in these windows, column by column, and in no other ones. -/
  measured : ∀ (env : Environment) (p : RunParams) (doc : CadDocument) (enc : FormatEncoder)
    (file : Text) (fi : ℕ), p.cacheBlocks = cacheBlocks →
      measureFormat env p doc enc file ncols nrows fi =
        columnLoop ncols (fun col facc =>
          ((ws.filter fun w => w.col = col).foldlM (fun acc w =>
            measureWindow env p doc enc (windowSite file fi w.col w.row0) w.nwin acc) {}).map
              fun acc => facc + acc.averages p) {}

variable {imgW imgH s b ncols nrows cacheBlocks : ℤ}

/-- The loops end, with the windows of each column in order. -/
theorem visitWindows_eq (hcache : 1 ≤ cacheBlocks) (hrows : nrows ≤ intMax)
    (hfits : WindowCounterFits nrows cacheBlocks) :
    visitWindows ncols nrows cacheBlocks =
      some (gridWindows ncols nrows cacheBlocks) := by
  -- the window loop appends the windows of a column
  have hcolumn : ∀ (col : ℤ) (ws : List Window),
      windowLoop nrows cacheBlocks (fun row0 nwin ws => some (ws ++ [⟨col, row0, nwin⟩]))
        (nrows.toNat + 1) 0 ws =
          some (ws ++ (windows nrows cacheBlocks).map fun w => ⟨col, w.1, w.2⟩) := by
    intro col ws
    rw [windowLoop_eq hcache hrows _ (Nat.lt_succ_self _),
      Accumulate.foldlM_append fun w : ℤ × ℤ => [(⟨col, w.1, w.2⟩ : Window)],
      Option.bind_some, if_pos hfits, List.map_eq_flatMap]
  simp only [visitWindows, columnLoop, hcolumn]
  rw [Accumulate.foldlM_append fun col : ℕ => (windows nrows cacheBlocks).map fun w =>
    (⟨col, w.1, w.2⟩ : Window), List.nil_append, gridWindows]

/-- Loops that end have visited these windows. -/
theorem eq_gridWindows (hcache : 1 ≤ cacheBlocks) (hrows : nrows ≤ intMax) {ws : List Window}
    (hws : visitWindows ncols nrows cacheBlocks = some ws) :
    ws = gridWindows ncols nrows cacheBlocks := by
  by_cases hfits : WindowCounterFits nrows cacheBlocks
  · rw [visitWindows_eq hcache hrows hfits] at hws
    exact (Option.some.inj hws).symm
  · -- only a grid without columns gets past the counter
    rcases Nat.eq_zero_or_pos ncols.toNat with hzero | hpos
    · simp only [visitWindows, columnLoop, hzero, List.range_zero, List.foldlM_nil,
        Option.pure_def, Option.some.injEq] at hws
      rw [gridWindows, hzero, ← hws]
      rfl
    · obtain ⟨n, hn⟩ := Nat.exists_eq_succ_of_ne_zero hpos.ne'
      rw [visitWindows, columnLoop, hn, List.range_succ_eq_map, List.foldlM_cons,
        windowLoop_eq hcache hrows _ (Nat.lt_succ_self _)] at hws
      simp [hfits] at hws

/-! ## Slots and blocks -/

theorem mem_gridWindows_iff {w : Window} :
    w ∈ gridWindows ncols nrows cacheBlocks ↔
      0 ≤ w.col ∧ w.col < ncols ∧ (w.row0, w.nwin) ∈ windows nrows cacheBlocks := by
  simp only [gridWindows, List.mem_flatMap, List.mem_range, List.mem_map]
  constructor
  · rintro ⟨col, hcol, win, hwin, rfl⟩
    exact ⟨Int.natCast_nonneg col, by simp only; omega, hwin⟩
  · rintro ⟨hnonneg, hlt, hwin⟩
    refine ⟨w.col.toNat, by omega, _, hwin, ?_⟩
    rw [Int.toNat_of_nonneg hnonneg]

/-- Each row lies in exactly one slot of one window of the column loop. -/
theorem existsUnique_window (hcache : 1 ≤ cacheBlocks) {row : ℤ} (hrow : 0 ≤ row)
    (hlt : row < nrows) :
    ∃! v : (ℤ × ℤ) × ℕ, v.1 ∈ windows nrows cacheBlocks ∧ v.2 < v.1.2.toNat ∧
      v.1.1 + v.2 = row := by
  obtain ⟨r, rfl⟩ := Int.eq_ofNat_of_zero_le hrow
  have hsize : 0 < cacheBlocks.toNat := by omega
  have hr : r < nrows.toNat := by omega
  -- the tile of the quotient holds the row
  obtain ⟨hstart, hend⟩ := (Tiling.mem_tile_iff hsize hr).mpr rfl
  have hmem : Tiling.tile cacheBlocks.toNat nrows.toNat (r / cacheBlocks.toNat) ∈
      Tiling.tiles cacheBlocks.toNat nrows.toNat :=
    (Tiling.mem_tiles_iff hsize).mpr ⟨_, (Nat.div_mul_le_self _ _).trans_lt hr, rfl⟩
  set t := Tiling.tile cacheBlocks.toNat nrows.toNat (r / cacheBlocks.toNat) with ht
  refine ⟨((t.1, t.2), r - t.1), ⟨List.mem_map.mpr ⟨t, hmem, rfl⟩, by simp only; omega,
    by simp only; omega⟩, ?_⟩
  rintro ⟨w, slot⟩ ⟨hw, hslot, heq⟩
  obtain ⟨u, hu, rfl⟩ := List.mem_map.mp hw
  obtain ⟨k, -, rfl⟩ := (Tiling.mem_tiles_iff hsize).mp hu
  -- the tile is the one of the quotient, which leaves one slot
  simp only at hslot heq
  have hk := (Tiling.mem_tile_iff hsize hr).mp (by omega : (Tiling.tile cacheBlocks.toNat
    nrows.toNat k).1 ≤ r ∧ r < (Tiling.tile cacheBlocks.toNat nrows.toNat k).1 +
      (Tiling.tile cacheBlocks.toNat nrows.toNat k).2)
  subst hk
  rw [← ht] at heq ⊢
  rw [show slot = r - t.1 by omega]

/-- The rows of the windows of a column, in order, are the rows of the image. -/
theorem flatMap_rows_windows (hcache : 1 ≤ cacheBlocks) (col : ℤ) :
    ((windows nrows cacheBlocks).map fun w => (⟨col, w.1, w.2⟩ : Window)).flatMap Window.rows =
      (List.range nrows.toNat).map fun row : ℕ => (row : ℤ) := by
  have hsize : 0 < cacheBlocks.toNat := by omega
  rw [← Tiling.tiles_flatMap_range' hsize, windows, List.map_flatMap, List.map_map,
    List.flatMap_map]
  congr 1
  funext t
  simp only [Function.comp_apply, Window.rows, Int.toNat_natCast, List.range'_eq_map_range,
    List.map_map]
  rfl

/-- A pixel lies in the block of its quotients and in no other. -/
theorem inBlock_iff (hs : 1 ≤ s) (hb : 1 ≤ b) {col row x y : ℤ} :
    InBlock s b col row x y ↔ col = x / s ∧ row = y / b := by
  -- a quotient is the block whose bounds enclose the pixel
  have hcol : col * s ≤ x ∧ x < (col + 1) * s ↔ col = x / s := by
    rw [← Int.le_ediv_iff_mul_le (by omega), ← Int.ediv_lt_iff_lt_mul (by omega)]
    omega
  have hrow : row * b ≤ y ∧ y < (row + 1) * b ↔ row = y / b := by
    rw [← Int.le_ediv_iff_mul_le (by omega), ← Int.ediv_lt_iff_lt_mul (by omega)]
    omega
  rw [InBlock, ← and_assoc, hcol, hrow]

/-! ## Coverage -/

/-- The visited blocks of an image whose block counts are defined are the blocks that start
in the image. -/
theorem existsUnique_slot (hcache : 1 ≤ cacheBlocks) {col row : ℤ} (hcol : 0 ≤ col)
    (hcol' : col < ncols) (hrow : 0 ≤ row) (hrow' : row < nrows) :
    ∃! v : Window × ℕ, v.1 ∈ gridWindows ncols nrows cacheBlocks ∧ v.2 < v.1.nwin.toNat ∧
      v.1.col = col ∧ v.1.row0 + v.2 = row := by
  obtain ⟨⟨w, slot⟩, ⟨hw, hslot, heq⟩, huniq⟩ := existsUnique_window hcache hrow hrow'
  refine ⟨(⟨col, w.1, w.2⟩, slot), ⟨mem_gridWindows_iff.mpr ⟨hcol, hcol', hw⟩, hslot, rfl, heq⟩,
    ?_⟩
  rintro ⟨⟨col', row0, nwin⟩, slot'⟩ ⟨hw', hslot', rfl, heq'⟩
  obtain ⟨-, -, hmem⟩ := mem_gridWindows_iff.mp hw'
  have := huniq ((row0, nwin), slot') ⟨hmem, hslot', heq'⟩
  simp only [Prod.mk.injEq] at this ⊢
  obtain ⟨rfl, rfl⟩ := this
  exact ⟨rfl, rfl⟩

/-- Every slot of a visited window is a block of the grid. -/
theorem slot_in_grid (hcache : 1 ≤ cacheBlocks) {w : Window}
    (hw : w ∈ gridWindows ncols nrows cacheBlocks) {slot : ℕ} (hslot : slot < w.nwin.toNat) :
    0 ≤ w.col ∧ w.col < ncols ∧ 0 ≤ w.row0 + slot ∧ w.row0 + slot < nrows := by
  obtain ⟨hnonneg, hlt, hmem⟩ := mem_gridWindows_iff.mp hw
  obtain ⟨hrow, -, -, hend⟩ := bounds_of_mem_windows hcache hmem
  exact ⟨hnonneg, hlt, by omega, by simp only at hend; omega⟩

/-- A loop that does something for one element of its range only. -/
private theorem flatMap_single {α : Type} (L : List α) {c : ℕ} {l : List ℕ} (hl : l.Nodup)
    (hc : c ∈ l) : (l.flatMap fun a => if a = c then L else []) = L := by
  induction l with
  | nil => cases hc
  | cons a l ih =>
      obtain ⟨ha, hl⟩ := List.nodup_cons.mp hl
      rw [List.flatMap_cons]
      rcases List.mem_cons.mp hc with rfl | hc
      · have hnil : (l.flatMap fun a => if a = c then L else []) = [] := by
          refine List.flatMap_eq_nil_iff.mpr fun b hb => if_neg ?_
          rintro rfl
          exact ha hb
        rw [if_pos rfl, hnil, List.append_nil]
      · have hne : a ≠ c := by
          rintro rfl
          exact ha hc
        rw [if_neg hne, ih hl hc, List.nil_append]

/-- The windows of one column. -/
theorem filter_gridWindows {col : ℤ} (hcol : 0 ≤ col) (hlt : col < ncols) :
    (gridWindows ncols nrows cacheBlocks).filter (fun w => w.col = col) =
      (windows nrows cacheBlocks).map fun w => ⟨col, w.1, w.2⟩ := by
  obtain ⟨c, rfl⟩ := Int.eq_ofNat_of_zero_le hcol
  have hcolumn : ∀ a : ℕ, ((windows nrows cacheBlocks).map fun w =>
      (⟨a, w.1, w.2⟩ : Window)).filter (fun w => w.col = (c : ℤ)) =
        if a = c then (windows nrows cacheBlocks).map fun w => ⟨c, w.1, w.2⟩ else [] := by
    intro a
    by_cases hac : a = c
    · subst hac
      simp [List.filter_map, Function.comp_def]
    · simp [List.filter_map, Function.comp_def, hac]
  rw [gridWindows, List.filter_flatMap]
  simp only [hcolumn]
  exact flatMap_single _ List.nodup_range (List.mem_range.mpr (by omega))

/-! ## The measurement visits the windows -/

section Measured

variable {env : Environment} {p : RunParams} {doc : CadDocument} {enc : FormatEncoder}
  {file : Text} {fi : ℕ} {ws : List Window}

/-- A window loop runs its body over the visited windows of its column. -/
theorem windowLoop_eq_visited {S : Type} (hcache : 1 ≤ cacheBlocks) (hrows : nrows ≤ intMax)
    (hws : visitWindows ncols nrows cacheBlocks = some ws) {col : ℤ} (hcol : 0 ≤ col)
    (hlt : col < ncols) (body : ℤ → ℤ → S → Option S) (s : S) :
    windowLoop nrows cacheBlocks body (nrows.toNat + 1) 0 s =
      (ws.filter fun w => w.col = col).foldlM (fun s w => body w.row0 w.nwin s) s := by
  -- a loop with a column ends only if its counter fits
  have hfits : WindowCounterFits nrows cacheBlocks := by
    by_contra hnot
    obtain ⟨n, hn⟩ := Nat.exists_eq_succ_of_ne_zero (by omega : ncols.toNat ≠ 0)
    rw [visitWindows, columnLoop, hn, List.range_succ_eq_map, List.foldlM_cons,
      windowLoop_eq hcache hrows _ (Nat.lt_succ_self _)] at hws
    simp [hnot] at hws
  rw [eq_gridWindows hcache hrows hws, filter_gridWindows hcol hlt, List.foldlM_map,
    windowLoop_eq hcache hrows body (Nat.lt_succ_self _)]
  simp only [if_pos hfits, Option.bind_fun_some]

/-- A format is measured in the visited windows, column by column, and in no other ones. -/
theorem measureFormat_eq_visited (hrows : nrows ≤ intMax)
    (hws : visitWindows ncols nrows p.cacheBlocks = some ws) :
    measureFormat env p doc enc file ncols nrows fi =
      columnLoop ncols (fun col facc =>
        ((ws.filter fun w => w.col = col).foldlM (fun acc w =>
          measureWindow env p doc enc (windowSite file fi w.col w.row0) w.nwin acc) {}).map
            fun acc => facc + acc.averages p) {} := by
  refine Accumulate.foldlM_congr (fun col hcol facc => ?_) _
  have hlt : (col : ℤ) < ncols := by
    have := List.mem_range.mp hcol
    omega
  rw [measureColumn_eq, windowLoop_eq_visited p.one_le_cacheBlocks hrows hws
    (Int.natCast_nonneg col) hlt]
  -- a window of the column knows its column
  congr 1
  refine Accumulate.foldlM_congr (fun w hw acc => ?_) _
  rw [show w.col = (col : ℤ) by simpa using (List.mem_filter.mp hw).2]

/-- The loops of a format that is measured end. -/
theorem visitWindows_of_measureFormat (hrows : nrows ≤ intMax) {facc : FmtAcc}
    (h : measureFormat env p doc enc file ncols nrows fi = some facc) :
    visitWindows ncols nrows p.cacheBlocks = some (gridWindows ncols nrows p.cacheBlocks) := by
  rcases Nat.eq_zero_or_pos ncols.toNat with hzero | hpos
  · simp [visitWindows, columnLoop, gridWindows, hzero]
  · -- the first column completes
    exact visitWindows_eq p.one_le_cacheBlocks hrows
      (((measureFormat_eq_some_iff hrows).mp h).1 0 hpos).2

end Measured

/-- The loops of a format end and cover the image. -/
theorem coverage (hwidth : 0 ≤ imgW) (hheight : 0 ≤ imgH) (hs : 1 ≤ s) (hb : 1 ≤ b)
    (hcache : 1 ≤ cacheBlocks) (hncols : blockCount imgW s = some ncols)
    (hnrows : blockCount imgH b = some nrows) (hfits : WindowCounterFits nrows cacheBlocks) :
    ∃ ws, visitWindows ncols nrows cacheBlocks = some ws ∧
      Covers imgW imgH s b ncols nrows cacheBlocks ws := by
  -- the block of a pixel of the image is one of the grid
  have hgrid : ∀ x y, 0 ≤ x → x < imgW → 0 ≤ y → y < imgH →
      0 ≤ x / s ∧ x / s < ncols ∧ 0 ≤ y / b ∧ y / b < nrows := by
    intro x y hx hx' hy hy'
    have hxs := Int.ediv_nonneg hx (by omega : 0 ≤ s)
    have hyb := Int.ediv_nonneg hy (by omega : 0 ≤ b)
    have hxle := Int.ediv_mul_le x (by omega : s ≠ 0)
    have hyle := Int.ediv_mul_le y (by omega : b ≠ 0)
    exact ⟨hxs, (lt_blockCount_iff hwidth hs hncols hxs).mpr (by omega), hyb,
      (lt_blockCount_iff hheight hb hnrows hyb).mpr (by omega)⟩
  refine ⟨_, visitWindows_eq hcache (blockCount_le hnrows) hfits, ?_⟩
  constructor
  case nwin_bounds =>
    intro w hw
    obtain ⟨-, hlo, hhi, -⟩ := bounds_of_mem_windows hcache (mem_gridWindows_iff.mp hw).2.2
    exact ⟨hlo, hhi⟩
  case rows_eq =>
    intro col hcol hlt
    rw [filter_gridWindows hcol hlt, flatMap_rows_windows hcache]
  case pixel_unique =>
    intro x y hx hx' hy hy'
    obtain ⟨hcol, hcol', hrow, hrow'⟩ := hgrid x y hx hx' hy hy'
    simp only [inBlock_iff hs hb]
    exact existsUnique_slot hcache hcol hcol' hrow hrow'
  case pixel_block =>
    intro x y hx hx' hy hy'
    obtain ⟨hcol, hcol', hrow, hrow'⟩ := hgrid x y hx hx' hy hy'
    obtain ⟨v, ⟨hw, hslot, heqs⟩, -⟩ := existsUnique_slot hcache hcol hcol' hrow hrow'
    exact ⟨v.1, hw, v.2, hslot, heqs⟩
  case block_inside =>
    intro w hw slot hslot
    obtain ⟨hcol, hcol', hrow, hrow'⟩ := slot_in_grid hcache hw hslot
    -- the first pixel of the block lies inside
    refine ⟨w.col * s, (w.row0 + slot) * b, Int.mul_nonneg hcol (by omega),
      (lt_blockCount_iff hwidth hs hncols hcol).mp hcol', Int.mul_nonneg hrow (by omega),
      (lt_blockCount_iff hheight hb hnrows hrow).mp hrow', ?_⟩
    rw [inBlock_iff hs hb, Int.mul_ediv_cancel _ (by omega), Int.mul_ediv_cancel _ (by omega)]
    exact ⟨rfl, rfl⟩
  case raster_rows =>
    rintro w hw env p doc site hcol hrow
    obtain ⟨hstart, hlo, -, hend⟩ := bounds_of_mem_windows hcache (mem_gridWindows_iff.mp hw).2.2
    -- the sizes of a window are small enough for the pool
    have hmax := blockCount_le hnrows
    rw [rle4kPhaseRasterWindow_eq env p doc site (by simp only at hlo; omega)
      (by simp only at hend; omega), Option.map_some, ← hcol, ← hrow]
    rfl
  case measured =>
    rintro env p doc enc file fi rfl
    exact measureFormat_eq_visited (blockCount_le hnrows)
      (visitWindows_eq hcache (blockCount_le hnrows) hfits)

/-- Five by five pixels in blocks of two by two, with windows of two rows. -/
theorem coverage_five :
    ∃ ws, visitWindows 3 3 2 = some ws ∧ Covers 5 5 2 2 3 3 2 ws :=
  coverage (by decide) (by decide) (by decide) (by decide) (by decide) (by decide) (by decide)
    (by decide)

/-! ## The blocks of the rasterizer -/

/-- The blocks that a format visits. -/
def visitedBlocks (ws : List Window) : Set (ℤ × ℤ) :=
  {v | ∃ w ∈ ws, ∃ slot : ℕ, slot < w.nwin.toNat ∧ w.col = v.1 ∧ w.row0 + slot = v.2}

/-- The blocks for which the rasterizer returns a bitmap. -/
def rasterizedBlocks (env : Environment) (p : RunParams) (doc : CadDocument) (site : Site)
    (slot : ℕ) : Set (ℤ × ℤ) :=
  {v | 0 ≤ v.1 ∧ 0 ≤ v.2 ∧ env.rasterizeBlock site slot doc v.1 v.2 p.pwNm
    (UInt32.ofInt p.stripWidth) (UInt32.ofInt p.blockLine) .align064 ≠ none}

/-- The image of the rasterizer has `⌊W / pitch⌋ + 1` by `⌊H / pitch⌋ + 1` pixels, and a block
is null exactly if it starts at or past the end of it. -/
def NullPastImage (env : Environment) (doc : CadDocument) : Prop :=
  ∀ (site : Site) (slot : ℕ) (col row : ℤ) (pwNm : ℚ) (sw sh : UInt32) (align : MapAlignMode),
    0 ≤ col → 0 ≤ row → 0 < pwNm →
      (env.rasterizeBlock site slot doc col row (.finite pwNm) sw sh align = none ↔
        ⌊(doc.maxX - doc.minX) / pwNm⌋ + 1 ≤ col * sw.toNat ∨
          ⌊(doc.maxY - doc.minY) / pwNm⌋ + 1 ≤ row * sh.toNat)

theorem toNat_ofInt {n : ℤ} (hnonneg : 0 ≤ n) (hle : n ≤ intMax) :
    ((UInt32.ofInt n).toNat : ℤ) = n := by
  simp only [intMax] at hle
  have hmod : (n % 2 ^ 32).toNat < 2 ^ 32 := by omega
  rw [UInt32.ofInt, UInt32.toNat_ofNat_of_lt' hmod]
  omega

/-- The block counts of the image, in terms of the extents. -/
structure GridOf (doc : CadDocument) (p : RunParams) (pw : ℚ) (g : Geometry) : Prop where
  pwNm_eq : p.pwNm = .finite pw
  stripWidth_le : p.stripWidth ≤ intMax
  blockLine_le : p.blockLine ≤ intMax
  nrows_le : g.nrows ≤ intMax
  lt_ncols_iff : ∀ {col : ℤ}, 0 ≤ col →
    (col < g.ncols ↔ (col * p.stripWidth : ℚ) < (doc.maxX - doc.minX) / pw)
  lt_nrows_iff : ∀ {row : ℤ}, 0 ≤ row →
    (row < g.nrows ↔ (row * p.blockLine : ℚ) < (doc.maxY - doc.minY) / pw)

variable {env : Environment} {p : RunParams} {pw : ℚ} {doc : CadDocument} {g : Geometry}

theorem imageSize_eq_some {extent pwNm : ℚ} {size : ℤ}
    (h : imageSize extent (.finite pwNm) = some size) : ⌈extent / pwNm⌉ = size := by
  simp only [imageSize] at h
  split_ifs at h
  exact (checkInt_eq_some_iff.mp h).1

/-- A block starts in an extent. -/
private theorem lt_count_iff {extent pwNm : ℚ} {size block count : ℤ} (hextent : 0 ≤ extent)
    (hpitch : 0 < pwNm) (hblock : 1 ≤ block) (hsize : imageSize extent (.finite pwNm) = some size)
    (hcount : blockCount size block = some count) {k : ℤ} (hk : 0 ≤ k) :
    k < count ↔ (k * block : ℚ) < extent / pwNm := by
  have hceil := imageSize_eq_some hsize
  have hnonneg : 0 ≤ size := by
    rw [← hceil]
    exact Int.ceil_nonneg (div_nonneg hextent hpitch.le)
  rw [lt_blockCount_iff hnonneg hblock hcount hk, ← hceil, Int.lt_ceil, Int.cast_mul]

/-- A block with a count is an `int`. -/
private theorem block_le {size block count : ℤ} (hsize : 0 ≤ size)
    (h : blockCount size block = some count) : block ≤ intMax := by
  simp only [blockCount, Option.bind_eq_bind, Option.bind_eq_some_iff, checkInt_eq_some_iff] at h
  obtain ⟨_, ⟨-, -, hle⟩, -⟩ := h
  omega

theorem gridOf_imageGeometry (hwidth : 0 ≤ doc.maxX - doc.minX) (hheight : 0 ≤ doc.maxY - doc.minY)
    (hpw : p.pwNm = .finite pw) (hpitch : 0 < pw) (hs : 1 ≤ p.stripWidth) (hb : 1 ≤ p.blockLine)
    (hgeom : imageGeometry doc p = some g) : GridOf doc p pw g := by
  simp only [imageGeometry, hpw, Option.bind_eq_bind, Option.bind_eq_some_iff, Option.pure_def,
    Option.some.injEq] at hgeom
  obtain ⟨imgW, himgW, imgH, himgH, ncols, hncols, nrows, hnrows, rfl⟩ := hgeom
  have hW : 0 ≤ imgW := by
    rw [← imageSize_eq_some himgW]
    exact Int.ceil_nonneg (div_nonneg hwidth hpitch.le)
  have hH : 0 ≤ imgH := by
    rw [← imageSize_eq_some himgH]
    exact Int.ceil_nonneg (div_nonneg hheight hpitch.le)
  exact
    { pwNm_eq := hpw
      stripWidth_le := block_le hW hncols
      blockLine_le := block_le hH hnrows
      nrows_le := blockCount_le hnrows
      lt_ncols_iff := lt_count_iff hwidth hpitch hs himgW hncols
      lt_nrows_iff := lt_count_iff hheight hpitch hb himgH hnrows }

/-- The visited blocks are those that start in the extent of the document. -/
theorem mem_visitedBlocks_iff (hgrid : GridOf doc p pw g) {ws : List Window}
    (hws : visitWindows g.ncols g.nrows p.cacheBlocks = some ws) {v : ℤ × ℤ} :
    v ∈ visitedBlocks ws ↔ 0 ≤ v.1 ∧ 0 ≤ v.2 ∧
      (v.1 * p.stripWidth : ℚ) < (doc.maxX - doc.minX) / pw ∧
        (v.2 * p.blockLine : ℚ) < (doc.maxY - doc.minY) / pw := by
  rw [eq_gridWindows p.one_le_cacheBlocks hgrid.nrows_le hws]
  constructor
  · rintro ⟨w, hw, slot, hslot, hcol, hrow⟩
    have hin := slot_in_grid p.one_le_cacheBlocks hw hslot
    rw [hcol, hrow] at hin
    obtain ⟨hcol0, hcol1, hrow0, hrow1⟩ := hin
    exact ⟨hcol0, hrow0, (hgrid.lt_ncols_iff hcol0).mp hcol1, (hgrid.lt_nrows_iff hrow0).mp hrow1⟩
  · rintro ⟨hcol0, hrow0, hcol1, hrow1⟩
    obtain ⟨⟨w, slot⟩, ⟨hw, hslot, heqs⟩, -⟩ := existsUnique_slot p.one_le_cacheBlocks hcol0
      ((hgrid.lt_ncols_iff hcol0).mpr hcol1) hrow0 ((hgrid.lt_nrows_iff hrow0).mpr hrow1)
    exact ⟨w, hw, slot, hslot, heqs⟩

/-- The blocks of the rasterizer are those that start in the extent of the document or at its
end. -/
theorem mem_rasterizedBlocks_iff (hgrid : GridOf doc p pw g) (hnull : NullPastImage env doc)
    (hpitch : 0 < pw) (hs : 1 ≤ p.stripWidth) (hb : 1 ≤ p.blockLine) (site : Site)
    (slot : ℕ) {v : ℤ × ℤ} :
    v ∈ rasterizedBlocks env p doc site slot ↔ 0 ≤ v.1 ∧ 0 ≤ v.2 ∧
      (v.1 * p.stripWidth : ℚ) ≤ (doc.maxX - doc.minX) / pw ∧
        (v.2 * p.blockLine : ℚ) ≤ (doc.maxY - doc.minY) / pw := by
  have hpast : ∀ (q : ℚ) (k block : ℤ), ¬ ⌊q⌋ + 1 ≤ k * block ↔ (k * block : ℚ) ≤ q := by
    intro q k block
    rw [Int.add_one_le_iff, not_lt, Int.le_floor, Int.cast_mul]
  simp only [rasterizedBlocks, Set.mem_ofPred_eq]
  refine and_congr_right fun hcol => and_congr_right fun hrow => ?_
  rw [Ne, hgrid.pwNm_eq, hnull _ _ _ _ _ _ _ _ hcol hrow hpitch,
    toNat_ofInt (by omega) hgrid.stripWidth_le,
    toNat_ofInt (by omega) hgrid.blockLine_le, not_or, hpast, hpast]

/-- A multiple of a block size at the end of an extent. -/
private theorem ne_mul_iff {extent pwNm : ℚ} {block : ℤ} (hpitch : 0 < pwNm) {k : ℤ} :
    extent ≠ k * (pwNm * block) ↔ (k * block : ℚ) ≠ extent / pwNm := by
  rw [Ne, Ne, eq_div_iff hpitch.ne', eq_comm, mul_right_comm, ← mul_assoc]

/-- A block at or behind the start has an index that is not negative. -/
private theorem nonneg_of_mul_eq {q : ℚ} {block k : ℤ} (hq : 0 ≤ q) (hblock : 1 ≤ block)
    (h : (k * block : ℚ) = q) : 0 ≤ k := by
  have hblock' : (0 : ℚ) < block := by exact_mod_cast hblock
  exact_mod_cast nonneg_of_mul_nonneg_left (h ▸ hq) hblock'

/-- The run visits exactly the blocks of the rasterizer if and only if neither extent is a
multiple of the block size. At a multiple, the last column of pixels begins a column of
blocks, and the last row of pixels a row of blocks, that no loop visits. -/
theorem visited_eq_rasterized_iff (hnull : NullPastImage env doc)
    (hwidth : 0 ≤ doc.maxX - doc.minX) (hheight : 0 ≤ doc.maxY - doc.minY)
    (hpw : p.pwNm = .finite pw) (hpitch : 0 < pw) (hs : 1 ≤ p.stripWidth) (hb : 1 ≤ p.blockLine)
    (hgeom : imageGeometry doc p = some g) {ws : List Window}
    (hws : visitWindows g.ncols g.nrows p.cacheBlocks = some ws) (site : Site) (slot : ℕ) :
    visitedBlocks ws = rasterizedBlocks env p doc site slot ↔
      (∀ k : ℤ, doc.maxX - doc.minX ≠ k * (pw * p.stripWidth)) ∧
        ∀ k : ℤ, doc.maxY - doc.minY ≠ k * (pw * p.blockLine) := by
  have hgrid := gridOf_imageGeometry hwidth hheight hpw hpitch hs hb hgeom
  have hW := div_nonneg hwidth hpitch.le
  have hH := div_nonneg hheight hpitch.le
  simp only [ne_mul_iff hpitch, Set.ext_iff, mem_visitedBlocks_iff hgrid hws,
    mem_rasterizedBlocks_iff hgrid hnull hpitch hs hb]
  constructor
  · intro heq
    constructor
    · -- the block in row 0 of the column at the end
      intro k hk
      have := (heq (k, 0)).mpr ⟨nonneg_of_mul_eq hW hs hk, le_rfl, hk.le, by simpa using hH⟩
      exact absurd this.2.2.1 (hk ▸ lt_irrefl _)
    · -- the block in column 0 of the row at the end
      intro k hk
      have := (heq (0, k)).mpr ⟨le_rfl, nonneg_of_mul_eq hH hb hk, by simpa using hW, hk.le⟩
      exact absurd this.2.2.2 (hk ▸ lt_irrefl _)
  · rintro ⟨hcols, hrows⟩ v
    rw [(hcols v.1).le_iff_lt, (hrows v.2).le_iff_lt]

/-- The reference environment with a rasterizer for the image of any document. -/
def imageEnv : Environment :=
  { referenceEnv with
    rasterizeBlock := fun _ _ doc col row pwNm sw sh _ =>
      pwNm.toRat?.bind fun pw =>
        if ⌊(doc.maxX - doc.minX) / pw⌋ + 1 ≤ col * sw.toNat ∨
            ⌊(doc.maxY - doc.minY) / pw⌋ + 1 ≤ row * sh.toNat then none
        else some twoRows }

theorem nullPastImage_imageEnv (doc : CadDocument) : NullPastImage imageEnv doc := by
  intro site slot col row pwNm sw sh align _ _ _
  simp only [imageEnv, Double.toRat?_finite, Option.bind_some, ite_eq_left_iff, reduceCtorEq,
    imp_false, not_not]

/-- One pixel less in both directions than the reference document. -/
def smallerDocument : CadDocument := { referenceDocument with maxX := 63, maxY := 1 }

/-- 63 by 1 nanometres in blocks of 64 by 2 pixels of one nanometre. -/
theorem visited_eq_rasterized_smaller :
    visitedBlocks [⟨0, 0, 1⟩] =
        rasterizedBlocks imageEnv (RunParams.ofConfig referenceConfig) smallerDocument
          ⟨['a'], 0, 0, 0, 0⟩ 0 ↔
      (∀ k : ℤ, (63 : ℚ) - 0 ≠ k * (1 / 1000 * 1000 * (64 : ℤ))) ∧
        ∀ k : ℤ, (1 : ℚ) - 0 ≠ k * (1 / 1000 * 1000 * (2 : ℤ)) :=
  visited_eq_rasterized_iff (nullPastImage_imageEnv _) (by decide +kernel) (by decide +kernel) rfl
    (by decide +kernel) (by decide +kernel) (by decide +kernel)
    (show imageGeometry smallerDocument (RunParams.ofConfig referenceConfig) =
      some ⟨63, 1, 1, 1⟩ by decide +kernel) (by decide +kernel) _ _

/-- 64 by 2 nanometres: the image of the rasterizer is 65 by 3 pixels, which makes four blocks,
and the run visits one of them. -/
theorem visited_ne_rasterized_reference :
    NullPastImage imageEnv referenceDocument ∧
    imageGeometry referenceDocument (RunParams.ofConfig referenceConfig) = some ⟨64, 2, 1, 1⟩ ∧
      visitWindows 1 1 (RunParams.ofConfig referenceConfig).cacheBlocks = some [⟨0, 0, 1⟩] ∧
        visitedBlocks [⟨0, 0, 1⟩] ≠
          rasterizedBlocks imageEnv (RunParams.ofConfig referenceConfig) referenceDocument
            ⟨['a'], 0, 0, 0, 0⟩ 0 := by
  refine ⟨nullPastImage_imageEnv _, by decide +kernel, by decide +kernel, fun heq => ?_⟩
  have hmem : ((1, 0) : ℤ × ℤ) ∈ rasterizedBlocks imageEnv (RunParams.ofConfig referenceConfig)
      referenceDocument ⟨['a'], 0, 0, 0, 0⟩ 0 := by
    refine ⟨by decide, by decide, ?_⟩
    decide +kernel
  rw [← heq] at hmem
  obtain ⟨w, hw, _, _, hcol, -⟩ := hmem
  rw [List.mem_singleton.mp hw] at hcol
  exact absurd hcol (by decide)

end Redcli
