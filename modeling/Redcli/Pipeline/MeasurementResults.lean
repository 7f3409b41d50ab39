import Mathlib.Algebra.BigOperators.Group.List.Lemmas
import Mathlib.Algebra.Group.Equiv.TypeTags
import Redcli.Pipeline.Measurement
import Redcli.Pipeline.PhaseResults
import Redcli.Support.Accumulate

/-!
# Results of the Measurement Loops

The accumulators form monoids in which each level of the loop nest of `rle4k_cmd_run` adds up
the contributions of the level below.

## Main results

* `measureWindow_eq_some_iff`, `measureColumn_eq_some_iff`, `measureFormat_eq_some_iff`: each
  level completes exactly if every `process_pack` returns and no loop counter overflows, with
  the sum of the contributions.
-/

namespace Redcli

instance : Zero ColumnAcc := ⟨{}⟩

instance : Add ColumnAcc where
  add a b :=
    { wrd := a.wrd + b.wrd
      wedSum := a.wedSum + b.wedSum
      wddSum := a.wddSum + b.wddSum
      wchkSum := a.wchkSum + b.wchkSum
      ssBytes := a.ssBytes + b.ssBytes
      csBytesSum := a.csBytesSum + b.csBytesSum
      allOk := a.allOk && b.allOk }

instance : AddMonoid ColumnAcc where
  add_assoc _ _ _ := by ext <;> first | exact add_assoc _ _ _ | exact Bool.and_assoc _ _ _
  zero_add _ := by ext <;> first | exact zero_add _ | exact Bool.true_and _
  add_zero _ := by ext <;> first | exact add_zero _ | exact Bool.and_true _
  nsmul := nsmulRec

instance : Zero FmtAcc := ⟨{}⟩

instance : Add FmtAcc where
  add a b :=
    { rasterWall := a.rasterWall + b.rasterWall
      encWall := a.encWall + b.encWall
      decWall := a.decWall + b.decWall
      checkWall := a.checkWall + b.checkWall
      cs := a.cs + b.cs
      ss := a.ss + b.ss
      ok := a.ok && b.ok }

instance : AddMonoid FmtAcc where
  add_assoc _ _ _ := by ext <;> first | exact add_assoc _ _ _ | exact Bool.and_assoc _ _ _
  zero_add _ := by ext <;> first | exact zero_add _ | exact Bool.true_and _
  add_zero _ := by ext <;> first | exact add_zero _ | exact Bool.and_true _
  nsmul := nsmulRec

section Window

variable (env : Environment) (p : RunParams) (doc : CadDocument) (enc : FormatEncoder)
  (site : Site) (nwin : ℤ)

/-- The blocks of a window. -/
def windowRaw : List (Option BitmapInfo) :=
  (List.range nwin.toNat).map (rasterizeSlot env p doc site)

/-- The digests of a window. -/
def windowDigests : List Rle4kBlockDigest :=
  (List.range nwin.toNat).map fun slot =>
    slotDigest p.doCheck (rasterizeSlot env p doc site slot)

/-- The payloads of a window in a repeat. -/
def windowPayloads (rep : ℕ) : List (Option BitmapInfo) :=
  slotPayloads env enc p.args { site with rep := rep } (windowRaw env p doc site nwin)

/-- The cache that the decode phase of a window sees: the payloads of the last repeat. -/
def windowCache : List (Option BitmapInfo) :=
  if p.doEncode then windowPayloads env p doc enc site nwin (p.repeats.toNat - 1)
  else List.replicate nwin.toNat none

/-- Every `process_pack` of a repeat of a window returns. -/
def RepeatPacks (rep : ℕ) : Prop :=
  ∀ slot < nwin.toNat,
    PackReturns env enc p.args { site with rep := rep } (windowRaw env p doc site nwin) slot

/-- Every `process_pack` of a window returns, unless the encode phase is switched off. -/
def WindowPacks : Prop :=
  p.doEncode → ∀ rep < p.repeats.toNat, RepeatPacks env p doc enc site nwin rep

/-- The contribution of the raster phase of a window. -/
def rasterAcc : ColumnAcc :=
  { wrd := env.wallMs .raster site
    ssBytes := totalBytes (windowRaw env p doc site nwin) }

/-- The contribution of a repeat of the encode phase. -/
def encodeAcc (rep : ℕ) : ColumnAcc :=
  { wedSum := env.wallMs .encode { site with rep := rep }
    csBytesSum := totalBytes (windowPayloads env p doc enc site nwin rep) }

/-- The verdict of a repeat of the decode phase. -/
def repeatOk (rep : ℕ) : Bool :=
  (List.range nwin.toNat).all (slotOk env enc.getSupportedFormat.value { site with rep := rep }
    (windowDigests env p doc site nwin) (windowCache env p doc enc site nwin))

/-- The contribution of a repeat of the decode phase. -/
def decodeAcc (rep : ℕ) : ColumnAcc :=
  { wddSum := env.wallMs .decode { site with rep := rep }
    wchkSum := if p.doCheck then env.checkMs { site with rep := rep } else 0
    allOk := !p.doCheck || repeatOk env p doc enc site nwin rep }

/-- The contribution of a window. -/
def windowAcc : ColumnAcc :=
  rasterAcc env p doc site nwin +
    (if p.doEncode then
      ((List.range p.repeats.toNat).map (encodeAcc env p doc enc site nwin)).sum else 0) +
    (if p.doDecode then
      ((List.range p.repeats.toNat).map (decodeAcc env p doc enc site nwin)).sum else 0)

variable {env p doc enc site nwin}

/-- A window has one block a slot. -/
@[simp]
theorem length_windowRaw : (windowRaw env p doc site nwin).length = nwin.toNat := by
  simp [windowRaw]

/-- One repeat of the encode phase. -/
private theorem encodeRepeat_eq_some_iff (hmax : nwin ≤ intMax) {acc : ColumnAcc}
    {cache : List (Option BitmapInfo)} (hclean : CleanCache (windowRaw env p doc site nwin) cache)
    {rep : ℕ} {s : ColumnAcc × List (Option BitmapInfo)} :
    encodeRepeat env p enc site (windowRaw env p doc site nwin) (acc, cache) rep = some s ↔
      RepeatPacks env p doc enc site nwin rep ∧
        s = (acc + encodeAcc env p doc enc site nwin rep,
          windowPayloads env p doc enc site nwin rep) := by
  have hlength : ((windowRaw env p doc site nwin).length : ℤ) ≤ intMax := by
    rw [length_windowRaw]
    simp only [intMax] at hmax ⊢
    omega
  have hadd : ∀ w c : ℚ, ({ acc with wedSum := acc.wedSum + w, csBytesSum := acc.csBytesSum + c } :
      ColumnAcc) = acc + { wedSum := w, csBytesSum := c } := by
    intro w c
    ext <;> first | exact (add_zero _).symm | rfl | exact (Bool.and_true _).symm
  simp only [encodeRepeat, Option.bind_eq_bind, Option.bind_eq_some_iff, pure,
    rle4kPhaseEncodeWindow_eq_some_iff hlength hclean, Option.some.injEq, length_windowRaw]
  constructor
  · rintro ⟨w, ⟨hpack, rfl⟩, rfl⟩
    exact ⟨hpack, Prod.ext (hadd _ _) rfl⟩
  · rintro ⟨hpack, rfl⟩
    exact ⟨_, ⟨hpack, rfl⟩, Prod.ext (hadd _ _) rfl⟩

/-- The payloads of a repeat are a clean cache for the next one. -/
private theorem cleanCache_windowPayloads (rep : ℕ) :
    CleanCache (windowRaw env p doc site nwin) (windowPayloads env p doc enc site nwin rep) :=
  cleanCache_slotPayloads env enc p.args _ _

/-- The first `m` repeats of the encode phase. -/
private theorem foldlM_encodeRepeat_eq_some_iff (hmax : nwin ≤ intMax) (acc : ColumnAcc) (m : ℕ)
    {s : ColumnAcc × List (Option BitmapInfo)} :
    (List.range m).foldlM (encodeRepeat env p enc site (windowRaw env p doc site nwin))
        (acc, List.replicate nwin.toNat none) = some s ↔
      (∀ rep < m, RepeatPacks env p doc enc site nwin rep) ∧
        s = (acc + ((List.range m).map (encodeAcc env p doc enc site nwin)).sum,
          if m = 0 then List.replicate nwin.toNat none
          else windowPayloads env p doc enc site nwin (m - 1)) := by
  induction m generalizing s with
  | zero => simp [eq_comm]
  | succ m ih =>
      have hclean : CleanCache (windowRaw env p doc site nwin)
          (if m = 0 then List.replicate nwin.toNat none
            else windowPayloads env p doc enc site nwin (m - 1)) := by
        split_ifs
        · have := cleanCache_replicate (windowRaw env p doc site nwin)
          rwa [length_windowRaw] at this
        · exact cleanCache_windowPayloads (m - 1)
      rw [List.range_succ, List.foldlM_append, Option.bind_eq_bind, Option.bind_eq_some_iff]
      simp only [ih, List.foldlM_cons, List.foldlM_nil, Option.bind_eq_bind, pure,
        Option.bind_fun_some, Nat.lt_succ_iff_lt_or_eq, or_imp, forall_and, forall_eq,
        List.map_append, List.sum_append, List.map_singleton, List.sum_singleton, ← add_assoc,
        Nat.succ_ne_zero, if_false, Nat.add_sub_cancel]
      constructor
      · rintro ⟨_, ⟨hall, rfl⟩, hrun⟩
        obtain ⟨hpack, rfl⟩ := (encodeRepeat_eq_some_iff hmax hclean).mp hrun
        exact ⟨⟨hall, hpack⟩, rfl⟩
      · rintro ⟨⟨hall, hpack⟩, rfl⟩
        exact ⟨_, ⟨hall, rfl⟩, (encodeRepeat_eq_some_iff hmax hclean).mpr ⟨hpack, rfl⟩⟩

/-- One repeat of the decode phase. -/
private theorem decodeRepeat_eq (hmax : nwin ≤ intMax) (acc : ColumnAcc) (rep : ℕ) :
    decodeRepeat env p enc site (windowDigests env p doc site nwin)
        (windowCache env p doc enc site nwin) acc rep =
      some (acc + decodeAcc env p doc enc site nwin rep) := by
  have hlength : (windowDigests env p doc site nwin).length = nwin.toNat := by
    simp [windowDigests]
  have hadd : ∀ (w c : ℚ) (ok : Bool), ({ acc with
      wddSum := acc.wddSum + w
      wchkSum := acc.wchkSum + c
      allOk := if !ok then false else acc.allOk } : ColumnAcc) =
        acc + { wddSum := w, wchkSum := c, allOk := ok } := by
    intro w c ok
    ext
    any_goals first | exact (add_zero _).symm | rfl
    cases ok
    · exact (Bool.and_false _).symm
    · exact (Bool.and_true _).symm
  rw [decodeRepeat,
    rle4kPhaseDecodeWindow_eq (by rw [hlength]; simp only [intMax] at hmax ⊢; omega)]
  simp only [Option.bind_eq_bind, Option.bind_some, pure, hadd, hlength]
  rfl

/-- The encode phase of a window. -/
private theorem encodeRepeats_eq_some_iff (hmax : nwin ≤ intMax) {acc : ColumnAcc}
    {s : ColumnAcc × List (Option BitmapInfo)} :
    encodeRepeats env p enc site (windowRaw env p doc site nwin) acc
        (List.replicate nwin.toNat none) = some s ↔
      WindowPacks env p doc enc site nwin ∧
        s = (acc + (if p.doEncode then
            ((List.range p.repeats.toNat).map (encodeAcc env p doc enc site nwin)).sum else 0),
          windowCache env p doc enc site nwin) := by
  by_cases henc : p.doEncode
  · rw [encodeRepeats, if_pos henc, if_pos henc, foldlM_encodeRepeat_eq_some_iff hmax,
      if_neg p.repeats_pos.ne', windowCache, if_pos henc, WindowPacks, forall_prop_of_true henc]
  · rw [encodeRepeats, if_neg henc, if_neg henc, add_zero, windowCache, if_neg henc,
      Option.some.injEq, eq_comm]
    exact (and_iff_right fun h => absurd h henc).symm

/-- The decode phase of a window, which never fails. -/
private theorem decodeRepeats_eq (hmax : nwin ≤ intMax) (acc : ColumnAcc) :
    decodeRepeats env p enc site (windowDigests env p doc site nwin)
        (windowCache env p doc enc site nwin) acc =
      some (acc + (if p.doDecode then
        ((List.range p.repeats.toNat).map (decodeAcc env p doc enc site nwin)).sum else 0)) := by
  by_cases hdec : p.doDecode
  · rw [decodeRepeats, if_pos hdec, if_pos hdec, Accumulate.foldlM_eq_some_iff (fun _ => True) _
      (fun rep _ acc acc' => by rw [decodeRepeat_eq hmax, Option.some.injEq, eq_comm, true_and])]
    exact ⟨fun _ _ => trivial, rfl⟩
  · rw [decodeRepeats, if_neg hdec, if_neg hdec, add_zero]

/-- A window completes exactly if every `process_pack` returns, and adds its contribution. -/
theorem measureWindow_eq_some_iff (hnonneg : 0 ≤ nwin) (hmax : nwin ≤ intMax)
    {acc acc' : ColumnAcc} :
    measureWindow env p doc enc site nwin acc = some acc' ↔
      WindowPacks env p doc enc site nwin ∧ acc' = acc + windowAcc env p doc enc site nwin := by
  -- the raster phase adds its time and the bytes of its blocks
  have hraster : ({ acc with
      wrd := acc.wrd + env.wallMs .raster site
      ssBytes := acc.ssBytes + totalBytes (windowRaw env p doc site nwin) } : ColumnAcc) =
        acc + rasterAcc env p doc site nwin := by
    ext <;> first | exact (add_zero _).symm | rfl | exact (Bool.and_true _).symm
  -- the two loops over the repeats follow
  have hrun : measureWindow env p doc enc site nwin acc =
      (encodeRepeats env p enc site (windowRaw env p doc site nwin)
        (acc + rasterAcc env p doc site nwin) (List.replicate nwin.toNat none)).bind fun s =>
          decodeRepeats env p enc site (windowDigests env p doc site nwin) s.2 s.1 := by
    rw [measureWindow, rle4kPhaseRasterWindow_eq env p doc site hnonneg hmax, ← hraster]
    rfl
  rw [hrun, Option.bind_eq_some_iff, windowAcc, ← add_assoc, ← add_assoc]
  constructor
  · rintro ⟨s, hs, hacc⟩
    obtain ⟨hpacks, rfl⟩ := (encodeRepeats_eq_some_iff hmax).mp hs
    rw [decodeRepeats_eq hmax, Option.some.injEq] at hacc
    exact ⟨hpacks, hacc.symm⟩
  · rintro ⟨hpacks, rfl⟩
    exact ⟨_, (encodeRepeats_eq_some_iff hmax).mpr ⟨hpacks, rfl⟩, decodeRepeats_eq hmax _⟩

end Window

section Format

variable (env : Environment) (p : RunParams) (doc : CadDocument) (enc : FormatEncoder)
  (file : Text) (fi : ℕ) (nrows : ℤ)

/-- The accumulators of a column behind its window loop. -/
def columnAcc (col : ℤ) : ColumnAcc :=
  ((windows nrows p.cacheBlocks).map fun w =>
    windowAcc env p doc enc (windowSite file fi col w.1) w.2).sum

/-- The contribution of a column to its format: averages over the repeats. -/
def ColumnAcc.averages (acc : ColumnAcc) : FmtAcc :=
  { rasterWall := acc.wrd
    encWall := if p.doEncode then acc.wedSum / p.repeats else 0
    decWall := if p.doDecode then acc.wddSum / p.repeats else 0
    checkWall := if p.doDecode then acc.wchkSum / p.repeats else 0
    cs := if p.doEncode then acc.csBytesSum / p.repeats else 0
    ss := acc.ssBytes
    ok := !(p.doDecode && p.doCheck && !acc.allOk) }

/-- A column completes: every `process_pack` returns, and the counter of the window loop does
not overflow. -/
def ColumnCompletes (col : ℤ) : Prop :=
  (∀ w ∈ windows nrows p.cacheBlocks,
    WindowPacks env p doc enc (windowSite file fi col w.1) w.2) ∧
      WindowCounterFits nrows p.cacheBlocks

/-- The accumulators of a format behind its column loop. -/
def formatAcc (ncols : ℤ) : FmtAcc :=
  ((List.range ncols.toNat).map fun col : ℕ =>
    (columnAcc env p doc enc file fi nrows col).averages p).sum

variable {env p doc enc file fi nrows}

/-- A column adds the averages over the repeats to its format. -/
theorem measureColumn_eq (col : ℤ) (facc : FmtAcc) :
    measureColumn env p doc enc file fi nrows col facc =
      (windowLoop nrows p.cacheBlocks (fun row0 nwin acc =>
        measureWindow env p doc enc (windowSite file fi col row0) nwin acc)
          (nrows.toNat + 1) 0 {}).map fun acc => facc + acc.averages p := by
  have hcontrib : ∀ acc : ColumnAcc,
      ({ rasterWall := facc.rasterWall + acc.wrd
         encWall := facc.encWall + (if p.doEncode then acc.wedSum / p.repeats else 0)
         decWall := facc.decWall + (if p.doDecode then acc.wddSum / p.repeats else 0)
         checkWall := facc.checkWall + (if p.doDecode then acc.wchkSum / p.repeats else 0)
         cs := facc.cs + (if p.doEncode then acc.csBytesSum / p.repeats else 0)
         ss := facc.ss + acc.ssBytes
         ok := if p.doDecode && p.doCheck && !acc.allOk then false else facc.ok } : FmtAcc) =
        facc + acc.averages p := by
    intro acc
    ext
    any_goals rfl
    show _ = (facc.ok && !(p.doDecode && p.doCheck && !acc.allOk))
    cases p.doDecode && p.doCheck && !acc.allOk
    · exact (Bool.and_true _).symm
    · exact (Bool.and_false _).symm
  rw [measureColumn, Option.map_eq_bind]
  simp only [hcontrib, Option.bind_eq_bind, pure]
  rfl

/-- A column completes under the conditions above and adds its contribution. -/
theorem measureColumn_eq_some_iff (hrows : nrows ≤ intMax) {col : ℤ} {facc facc' : FmtAcc} :
    measureColumn env p doc enc file fi nrows col facc = some facc' ↔
      ColumnCompletes env p doc enc file fi nrows col ∧
        facc' = facc + (columnAcc env p doc enc file fi nrows col).averages p := by
  have hwindows : ∀ acc : ColumnAcc, (windows nrows p.cacheBlocks).foldlM
      (fun acc w => measureWindow env p doc enc (windowSite file fi col w.1) w.2 acc) {} =
        some acc ↔ (∀ w ∈ windows nrows p.cacheBlocks,
          WindowPacks env p doc enc (windowSite file fi col w.1) w.2) ∧
            acc = columnAcc env p doc enc file fi nrows col := by
    intro acc
    have hzero : ({} : ColumnAcc) = 0 := rfl
    rw [hzero, Accumulate.foldlM_eq_some_iff _ _ (fun w hw acc acc' => by
      obtain ⟨hlo, hpos, hle, hhi⟩ := bounds_of_mem_windows p.one_le_cacheBlocks hw
      exact measureWindow_eq_some_iff (by omega) (by omega)), zero_add]
    rfl
  have hloop := windowLoop_eq p.one_le_cacheBlocks hrows
    (fun row0 nwin acc => measureWindow env p doc enc (windowSite file fi col row0) nwin acc)
    (Nat.lt_succ_self nrows.toNat) {}
  rw [measureColumn_eq, hloop]
  simp only [Option.map_eq_some_iff, Option.bind_eq_some_iff, hwindows, ColumnCompletes]
  constructor
  · rintro ⟨acc, ⟨_, ⟨hpacks, rfl⟩, hfits⟩, rfl⟩
    split_ifs at hfits with h
    obtain rfl := Option.some.inj hfits
    exact ⟨⟨hpacks, h⟩, rfl⟩
  · rintro ⟨⟨hpacks, h⟩, rfl⟩
    exact ⟨_, ⟨_, ⟨hpacks, rfl⟩, if_pos h⟩, rfl⟩

/-- A format completes exactly if all of its columns do, with the sum of their
contributions. -/
theorem measureFormat_eq_some_iff (hrows : nrows ≤ intMax) {ncols : ℤ} {facc : FmtAcc} :
    measureFormat env p doc enc file ncols nrows fi = some facc ↔
      (∀ col < ncols.toNat, ColumnCompletes env p doc enc file fi nrows (col : ℤ)) ∧
        facc = formatAcc env p doc enc file fi nrows ncols := by
  have hzero : ({} : FmtAcc) = 0 := rfl
  have hround : ∀ col ∈ List.range ncols.toNat, ∀ facc facc',
      measureColumn env p doc enc file fi nrows (col : ℤ) facc = some facc' ↔
        ColumnCompletes env p doc enc file fi nrows (col : ℤ) ∧
          facc' = facc + (columnAcc env p doc enc file fi nrows (col : ℤ)).averages p :=
    fun col _ facc facc' => measureColumn_eq_some_iff hrows
  rw [measureFormat, columnLoop, hzero, Accumulate.foldlM_eq_some_iff _ _ hround, zero_add]
  simp only [List.mem_range]
  rfl

/-! ## Projections of the sums -/

/-- The source bytes of a column as a homomorphism. -/
def ColumnAcc.ssBytesHom : ColumnAcc →+ ℚ where
  toFun := ColumnAcc.ssBytes
  map_zero' := rfl
  map_add' _ _ := rfl

/-- The compressed bytes of a column as a homomorphism. -/
def ColumnAcc.csBytesSumHom : ColumnAcc →+ ℚ where
  toFun := ColumnAcc.csBytesSum
  map_zero' := rfl
  map_add' _ _ := rfl

/-- The source bytes of a format as a homomorphism. -/
def FmtAcc.ssHom : FmtAcc →+ ℚ where
  toFun := FmtAcc.ss
  map_zero' := rfl
  map_add' _ _ := rfl

/-- The compressed bytes of a format as a homomorphism. -/
def FmtAcc.csHom : FmtAcc →+ ℚ where
  toFun := FmtAcc.cs
  map_zero' := rfl
  map_add' _ _ := rfl

/-- A projection of the contribution of a window. -/
theorem map_windowAcc (φ : ColumnAcc →+ ℚ) (site : Site) (nwin : ℤ) :
    φ (windowAcc env p doc enc site nwin) =
      φ (rasterAcc env p doc site nwin) +
        (if p.doEncode then ((List.range p.repeats.toNat).map fun rep =>
          φ (encodeAcc env p doc enc site nwin rep)).sum else 0) +
        (if p.doDecode then ((List.range p.repeats.toNat).map fun rep =>
          φ (decodeAcc env p doc enc site nwin rep)).sum else 0) := by
  rw [windowAcc, map_add, map_add, apply_ite φ, apply_ite φ, map_list_sum, map_list_sum,
    map_zero, List.map_map, List.map_map]
  rfl

/-- The source bytes of a format, window by window. -/
theorem formatAcc_ss (ncols : ℤ) :
    (formatAcc env p doc enc file fi nrows ncols).ss =
      ((List.range ncols.toNat).map fun col : ℕ => ((windows nrows p.cacheBlocks).map fun w =>
        totalBytes (windowRaw env p doc (windowSite file fi col w.1) w.2)).sum).sum := by
  have hwindow : ∀ site nwin, ColumnAcc.ssBytesHom (windowAcc env p doc enc site nwin) =
      totalBytes (windowRaw env p doc site nwin) := by
    intro site nwin
    rw [map_windowAcc]
    simp [ColumnAcc.ssBytesHom, rasterAcc, encodeAcc, decodeAcc]
  have hcolumn : ∀ col : ℤ, (columnAcc env p doc enc file fi nrows col).ssBytes =
      ((windows nrows p.cacheBlocks).map fun w =>
        totalBytes (windowRaw env p doc (windowSite file fi col w.1) w.2)).sum := by
    intro col
    show ColumnAcc.ssBytesHom _ = _
    rw [columnAcc, map_list_sum, List.map_map]
    simp only [Function.comp_def, hwindow]
  show FmtAcc.ssHom _ = _
  rw [formatAcc, map_list_sum, List.map_map]
  simp only [Function.comp_def, FmtAcc.ssHom, AddMonoidHom.coe_mk, ZeroHom.coe_mk,
    ColumnAcc.averages, hcolumn]

/-- The compressed bytes of a format: averages over the repeats, window by window. -/
theorem formatAcc_cs (henc : p.doEncode = true) (ncols : ℤ) :
    (formatAcc env p doc enc file fi nrows ncols).cs =
      ((List.range ncols.toNat).map fun col : ℕ => ((windows nrows p.cacheBlocks).map fun w =>
        ((List.range p.repeats.toNat).map fun rep =>
          totalBytes (windowPayloads env p doc enc (windowSite file fi col w.1) w.2 rep)).sum).sum /
            p.repeats).sum := by
  have hwindow : ∀ site nwin, ColumnAcc.csBytesSumHom (windowAcc env p doc enc site nwin) =
      ((List.range p.repeats.toNat).map fun rep =>
        totalBytes (windowPayloads env p doc enc site nwin rep)).sum := by
    intro site nwin
    rw [map_windowAcc, if_pos henc]
    simp [ColumnAcc.csBytesSumHom, rasterAcc, encodeAcc, decodeAcc]
  have hcolumn : ∀ col : ℤ, (columnAcc env p doc enc file fi nrows col).csBytesSum =
      ((windows nrows p.cacheBlocks).map fun w => ((List.range p.repeats.toNat).map fun rep =>
        totalBytes
          (windowPayloads env p doc enc (windowSite file fi col w.1) w.2 rep)).sum).sum := by
    intro col
    show ColumnAcc.csBytesSumHom _ = _
    rw [columnAcc, map_list_sum, List.map_map]
    simp only [Function.comp_def, hwindow]
  show FmtAcc.csHom _ = _
  rw [formatAcc, map_list_sum, List.map_map]
  simp only [Function.comp_def, FmtAcc.csHom, AddMonoidHom.coe_mk, ZeroHom.coe_mk,
    ColumnAcc.averages, hcolumn, henc, if_true]

/-- The verdict of two contributions. -/
theorem ColumnAcc.allOk_add (a b : ColumnAcc) : (a + b).allOk = (a.allOk && b.allOk) := rfl

/-- The verdict of a sum of contributions. -/
theorem ColumnAcc.allOk_sum (l : List ColumnAcc) :
    l.sum.allOk = true ↔ ∀ a ∈ l, a.allOk = true := by
  induction l with
  | nil => exact ⟨fun _ _ h => absurd h List.not_mem_nil, fun _ => rfl⟩
  | cons a l ih =>
      rw [List.sum_cons, List.forall_mem_cons, ← ih]
      exact Bool.and_eq_true_iff

/-- The verdict of a sum of contributions. -/
theorem FmtAcc.ok_sum (l : List FmtAcc) : l.sum.ok = true ↔ ∀ a ∈ l, a.ok = true := by
  induction l with
  | nil => exact ⟨fun _ _ h => absurd h List.not_mem_nil, fun _ => rfl⟩
  | cons a l ih =>
      rw [List.sum_cons, List.forall_mem_cons, ← ih]
      exact Bool.and_eq_true_iff

end Format

end Redcli
