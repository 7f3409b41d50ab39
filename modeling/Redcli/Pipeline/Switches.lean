import Redcli.Pipeline.RunResults

/-!
# Switches

The encode phase, the decode phase and the check can be switched off. A run without one of them
reports the same figures as the run with it, except for those that the phase would have measured.

## Main results

* `formatAcc_off`: what a switch changes in the sums of a format;
* `switch_off`: what it changes in the results of a run.
-/

namespace Redcli

/-- What can be switched off. -/
inductive Switch where
  | encode | decode | check
  deriving DecidableEq, Repr

/-- A configuration with a switch off. -/
def BenchConfig.off (cfg : BenchConfig) : Switch → BenchConfig
  | .encode => { cfg with encodeEnabled := 0 }
  | .decode => { cfg with decodeEnabled := 0 }
  | .check => { cfg with checkEnabled := 0 }

/-- The constants of a measurement with a switch off. Nothing is decoded without an encode
phase. -/
def RunParams.off (p : RunParams) : Switch → RunParams
  | .encode => { p with doEncode := false, doDecode := false }
  | .decode => { p with doDecode := false }
  | .check => { p with doCheck := false }

/-! ## The results without a phase -/

/-- The result of a format without the figures of a phase. -/
def FmtResult.without (r : FmtResult) : Switch → FmtResult
  | .encode => { r with
      csMb := 0, cr := 0, sedMs := 0, setGbps := 0
      sddMs := 0, sdtGbps := 0, schMs := 0, ok := true }
  | .decode => { r with sddMs := 0, sdtGbps := 0, schMs := 0, ok := true }
  | .check => { r with schMs := 0, ok := true }

/-- A record without the figures of a phase. -/
def FileRecord.without (r : FileRecord) (s : Switch) : FileRecord :=
  { r with fmts := r.fmts.map fun fr => fr.without s }

/-- The outcome for a file without the figures of a phase. -/
def FileOutcome.without (s : Switch) : FileOutcome → FileOutcome
  | .report r => .report (r.without s)
  | outcome => outcome

/-- The results of a run without the figures of a phase. -/
def RunResult.without (result : RunResult) (s : Switch) : RunResult :=
  { result with allFiles := result.allFiles.map fun v => (v.1, v.2.without s) }

/-- The accumulators of a column without the figures of a phase. -/
def ColumnAcc.without (s : Switch) : ColumnAcc →+ ColumnAcc where
  toFun acc :=
    match s with
    | .encode => { wrd := acc.wrd, ssBytes := acc.ssBytes }
    | .decode => { acc with wddSum := 0, wchkSum := 0, allOk := true }
    | .check => { acc with wchkSum := 0, allOk := true }
  map_zero' := by cases s <;> rfl
  map_add' a b := by
    cases s <;> ext <;> first | rfl | exact (add_zero 0).symm

/-- The accumulators of a format without the figures of a phase. -/
def FmtAcc.without (s : Switch) : FmtAcc →+ FmtAcc where
  toFun acc :=
    match s with
    | .encode => { rasterWall := acc.rasterWall, ss := acc.ss }
    | .decode => { acc with decWall := 0, checkWall := 0, ok := true }
    | .check => { acc with checkWall := 0, ok := true }
  map_zero' := by cases s <;> rfl
  map_add' a b := by
    cases s <;> ext <;> first | rfl | exact (add_zero 0).symm

/-! ## The measurement of a format -/

section

variable {env : Environment} {p : RunParams} {doc : CadDocument} {enc : FormatEncoder}
  {file : Text} {fi : ℕ} {ncols nrows : ℤ}

/-- The figures of the raster phase stay. -/
theorem rasterAcc_off (s : Switch) (site : Site) (nwin : ℤ) :
    rasterAcc env (p.off s) doc site nwin =
      ColumnAcc.without s (rasterAcc env p doc site nwin) := by
  cases s <;> rfl

/-- The figures of the encode phase stay, unless it is switched off itself. -/
theorem encodeAcc_off (s : Switch) (site : Site) (nwin : ℤ) (rep : ℕ) :
    ColumnAcc.without s (encodeAcc env p doc enc site nwin rep) =
      if s = .encode then 0 else encodeAcc env (p.off s) doc enc site nwin rep := by
  cases s <;> rfl

/-- The figures of the decode phase go with each phase that it needs. -/
theorem decodeAcc_off (s : Switch) (site : Site) (nwin : ℤ) (rep : ℕ) :
    ColumnAcc.without s (decodeAcc env p doc enc site nwin rep) =
      if s = .check then decodeAcc env (p.off s) doc enc site nwin rep else 0 := by
  cases s <;> rfl

/-- The figures of all repeats of a phase. -/
theorem without_repeats (s : Switch) (on : Bool) (l : List ℕ) (f : ℕ → ColumnAcc) :
    ColumnAcc.without s (if on then (l.map f).sum else 0) =
      if on then (l.map fun rep => ColumnAcc.without s (f rep)).sum else 0 := by
  rw [apply_ite (ColumnAcc.without s), map_list_sum, map_zero, List.map_map]
  rfl

/-- The sums of a window. -/
theorem windowAcc_off (s : Switch) (site : Site) (nwin : ℤ) :
    windowAcc env (p.off s) doc enc site nwin =
      ColumnAcc.without s (windowAcc env p doc enc site nwin) := by
  have hzero : ∀ on : Bool, (if on then
      ((List.range p.repeats.toNat).map fun _ => (0 : ColumnAcc)).sum else 0) = 0 := by
    intro on
    rw [List.sum_map_zero, ite_self]
  rw [windowAcc, windowAcc, map_add, map_add, ← rasterAcc_off, without_repeats, without_repeats]
  simp only [encodeAcc_off, decodeAcc_off]
  cases s with
  | encode =>
      simp only [if_true, reduceCtorEq, if_false, hzero]
      rfl
  | decode =>
      simp only [reduceCtorEq, if_false, hzero]
      rfl
  | check => rfl

/-- The averages of a column. -/
theorem averages_off (s : Switch) (acc : ColumnAcc) :
    (ColumnAcc.without s acc).averages (p.off s) = FmtAcc.without s (acc.averages p) := by
  cases s with
  | encode => rfl
  | decode => rfl
  | check =>
      have hcheck : (if p.doDecode then (0 : ℚ) / p.repeats else 0) = 0 := by
        rw [zero_div, ite_self]
      have hok : (!(p.doDecode && false && !true)) = true := by
        rw [Bool.not_true, Bool.and_false, Bool.not_false]
      exact FmtAcc.ext rfl rfl rfl hcheck rfl rfl hok

/-- The sums of a column. -/
theorem columnAcc_off (s : Switch) (col : ℤ) :
    columnAcc env (p.off s) doc enc file fi nrows col =
      ColumnAcc.without s (columnAcc env p doc enc file fi nrows col) := by
  have hcache : (p.off s).cacheBlocks = p.cacheBlocks := by cases s <;> rfl
  rw [columnAcc, columnAcc, map_list_sum, List.map_map, hcache]
  exact congrArg List.sum (List.map_congr_left fun w _ => windowAcc_off s _ _)

/-- The sums of a format. -/
theorem formatAcc_off (s : Switch) :
    formatAcc env (p.off s) doc enc file fi nrows ncols =
      FmtAcc.without s (formatAcc env p doc enc file fi nrows ncols) := by
  rw [formatAcc, formatAcc, map_list_sum, List.map_map]
  refine congrArg List.sum (List.map_congr_left fun col _ => ?_)
  rw [columnAcc_off, averages_off]
  rfl

/-- A column that completes with a phase does so without it. -/
theorem columnCompletes_off (s : Switch) {col : ℤ}
    (h : ColumnCompletes env p doc enc file fi nrows col) :
    ColumnCompletes env (p.off s) doc enc file fi nrows col := by
  cases s with
  | encode => exact ⟨fun w _ henc => absurd henc Bool.false_ne_true, h.2⟩
  | decode => exact h
  | check => exact h

/-- A format is measured without a phase if it is with it. -/
theorem measureFormat_off (hrows : nrows ≤ intMax) (s : Switch) {facc : FmtAcc}
    (h : measureFormat env p doc enc file ncols nrows fi = some facc) :
    measureFormat env (p.off s) doc enc file ncols nrows fi = some (FmtAcc.without s facc) := by
  obtain ⟨hcols, rfl⟩ := (measureFormat_eq_some_iff hrows).mp h
  apply (measureFormat_eq_some_iff hrows).mpr
  exact ⟨fun col hcol => columnCompletes_off s (hcols col hcol), (formatAcc_off s).symm⟩

/-- What is measured with a phase that encodes nothing is measured without it. -/
theorem measureFormat_of_off (hrows : nrows ≤ intMax) {s : Switch} (hs : s ≠ .encode)
    {facc : FmtAcc}
    (h : measureFormat env (p.off s) doc enc file ncols nrows fi = some facc) :
    ∃ facc', measureFormat env p doc enc file ncols nrows fi = some facc' := by
  obtain ⟨hcols, -⟩ := (measureFormat_eq_some_iff hrows).mp h
  refine ⟨_, (measureFormat_eq_some_iff hrows).mpr ⟨fun col hcol => ?_, rfl⟩⟩
  have hcol' := hcols col hcol
  cases s with
  | encode => exact absurd rfl hs
  | decode => exact hcol'
  | check => exact hcol'

/-- All formats are measured without a phase if they are with it. -/
theorem measureFormats_off (hrows : nrows ≤ intMax) (s : Switch) {fmts : List ℤ}
    {faccs : List FmtAcc} (h : measureFormats env p doc file ncols nrows fmts = some faccs) :
    measureFormats env (p.off s) doc file ncols nrows fmts =
      some (faccs.map (FmtAcc.without s)) := by
  rw [measureFormats, Accumulate.mapM_eq_some_iff] at h ⊢
  rw [List.forall₂_map_right_iff]
  refine h.imp fun v facc hfacc => ?_
  cases henc : getEncoder v.1 with
  | none =>
      simp only [henc] at hfacc ⊢
      obtain rfl := Option.some.inj hfacc
      exact congrArg some (map_zero (FmtAcc.without s)).symm
  | some enc =>
      simp only [henc] at hfacc ⊢
      exact measureFormat_off hrows s hfacc

/-- All formats are measured with a phase that encodes nothing if they are without it. -/
theorem measureFormats_of_off (hrows : nrows ≤ intMax) {s : Switch} (hs : s ≠ .encode)
    {fmts : List ℤ} {faccs : List FmtAcc}
    (h : measureFormats env (p.off s) doc file ncols nrows fmts = some faccs) :
    ∃ faccs', measureFormats env p doc file ncols nrows fmts = some faccs' := by
  have hall := Accumulate.exists_mapM_eq_some_iff.mp ⟨faccs, h⟩
  refine Accumulate.exists_mapM_eq_some_iff.mpr fun v hv => ?_
  obtain ⟨facc, hfacc⟩ := hall v hv
  cases henc : getEncoder v.1 with
  | none =>
      simp only [henc]
      exact ⟨_, rfl⟩
  | some enc =>
      simp only [henc] at hfacc ⊢
      exact measureFormat_of_off hrows hs hfacc

end

/-! ## The results of a run -/

section

variable {env : Environment} {p : RunParams} {file : Text} {fmts : List ℤ}

/-- The result of a format. -/
theorem fmtResult_without (enc : FormatEncoder) (acc : FmtAcc) (s : Switch) :
    fmtResult enc (FmtAcc.without s acc) = (fmtResult enc acc).without s := by
  -- nothing is divided by what is not there
  have hzero : ∀ x : ℚ, (if (0 : ℚ) < 0 then x / 0 else 0) = 0 := fun x => if_neg (lt_irrefl 0)
  cases s with
  | encode =>
      exact (FmtResult.mk.injEq ..).mpr
        ⟨rfl, rfl, zero_div _, hzero _, rfl, hzero _, rfl, hzero _, rfl, rfl⟩
  | decode =>
      exact (FmtResult.mk.injEq ..).mpr ⟨rfl, rfl, rfl, rfl, rfl, rfl, rfl, hzero _, rfl, rfl⟩
  | check => rfl

/-- The record of a file. -/
theorem fileRecord_without (dMs : ℚ) (g : Geometry) (faccs : List FmtAcc) (s : Switch) :
    fileRecord file dMs g fmts (faccs.map (FmtAcc.without s)) =
      (fileRecord file dMs g fmts faccs).without s := by
  have hraster : (faccs.map (FmtAcc.without s)).head?.map FmtAcc.rasterWall =
      faccs.head?.map FmtAcc.rasterWall := by
    rw [List.head?_map, Option.map_map]
    cases s <;> rfl
  have hsource : (faccs.map (FmtAcc.without s)).head?.map FmtAcc.ss =
      faccs.head?.map FmtAcc.ss := by
    rw [List.head?_map, Option.map_map]
    cases s <;> rfl
  have hfmts : ((fmts.zip (faccs.map (FmtAcc.without s))).filterMap fun v =>
      (getEncoder v.1).map fun enc => fmtResult enc v.2) =
        ((fmts.zip faccs).filterMap fun v =>
          (getEncoder v.1).map fun enc => fmtResult enc v.2).map fun fr => fr.without s := by
    rw [List.zip_map_right, List.filterMap_map, List.map_filterMap]
    refine List.filterMap_congr fun v _ => ?_
    show (getEncoder v.1).map _ = ((getEncoder v.1).map _).map _
    rw [Option.map_map]
    simp only [Prod.map_snd, fmtResult_without]
    rfl
  rw [fileRecord, hraster, hsource, hfmts]
  rfl

/-- The geometry of a document. -/
theorem imageGeometry_off (doc : CadDocument) (s : Switch) :
    imageGeometry doc (p.off s) = imageGeometry doc p := by
  cases s <;> rfl

/-- What happens to a file. -/
theorem processFile_off (s : Switch) {outcome : FileOutcome}
    (h : processFile env p fmts file = some outcome) :
    processFile env (p.off s) fmts file = some (outcome.without s) := by
  cases outcome with
  | loadFailure => exact processFile_eq_loadFailure_iff.mpr (processFile_eq_loadFailure_iff.mp h)
  | skipped => exact processFile_eq_skipped_iff.mpr (processFile_eq_skipped_iff.mp h)
  | report r =>
      obtain ⟨hexists, doc, g, faccs, hload, hlayers, hg, hmeasure, rfl⟩ :=
        processFile_eq_report_iff.mp h
      apply processFile_eq_report_iff.mpr
      have hmeasure' := measureFormats_off (nrows_le hg) s hmeasure
      refine ⟨hexists, doc, g, _, hload, hlayers, ?_, hmeasure', ?_⟩
      · rw [imageGeometry_off, hg]
      · rw [fileRecord_without]

/-- A file is processed with a phase that encodes nothing if it is without it. -/
theorem processFile_of_off {s : Switch} (hs : s ≠ .encode) {outcome : FileOutcome}
    (h : processFile env (p.off s) fmts file = some outcome) :
    ∃ outcome', processFile env p fmts file = some outcome' := by
  cases outcome with
  | loadFailure =>
      exact ⟨_, processFile_eq_loadFailure_iff.mpr (processFile_eq_loadFailure_iff.mp h)⟩
  | skipped => exact ⟨_, processFile_eq_skipped_iff.mpr (processFile_eq_skipped_iff.mp h)⟩
  | report r =>
      obtain ⟨hexists, doc, g, faccs, hload, hlayers, hg, hmeasure, -⟩ :=
        processFile_eq_report_iff.mp h
      obtain ⟨faccs', hmeasure'⟩ := measureFormats_of_off (nrows_le hg) hs hmeasure
      rw [imageGeometry_off] at hg
      exact ⟨_, processFile_eq_report_iff.mpr
        ⟨hexists, doc, g, faccs', hload, hlayers, hg, hmeasure', rfl⟩⟩

/-- The records of a file. -/
theorem recordsOf_off (s : Switch)
    (h : ∃ outcome, processFile env p fmts file = some outcome) :
    recordsOf env (p.off s) fmts file =
      (recordsOf env p fmts file).map fun v => (v.1, v.2.without s) := by
  obtain ⟨outcome, h⟩ := h
  rw [recordsOf, recordsOf, h, processFile_off s h]
  cases outcome <;> rfl

end

section

variable {env : Environment} {cfg : BenchConfig} {csvPath : Text} {result : RunResult}

/-- The constants of a run. -/
theorem ofConfig_off (cfg : BenchConfig) (s : Switch) :
    RunParams.ofConfig (cfg.off s) = (RunParams.ofConfig cfg).off s := by
  cases s with
  | encode => rfl
  | decode =>
      have hdecode : (RunParams.ofConfig (cfg.off .decode)).doDecode = false := Bool.and_false _
      rw [RunParams.off, ← hdecode]
      rfl
  | check => rfl

/-- A run on a list of files. -/
theorem runFiles_off (s : Switch) {files : List Text}
    (h : runFiles env cfg csvPath files = some result) :
    runFiles env (cfg.off s) csvPath files = some (result.without s) := by
  obtain ⟨hall, hrecords, hcsv, hstatus⟩ := runFiles_eq_some_iff.mp h
  have hformats : (cfg.off s).formats = cfg.formats := by cases s <;> rfl
  apply runFiles_eq_some_iff.mpr
  rw [ofConfig_off, hformats]
  refine ⟨fun file hfile => ?_, ?_, hcsv, ?_⟩
  · obtain ⟨outcome, hout⟩ := hall file hfile
    exact ⟨_, processFile_off s hout⟩
  · show result.allFiles.map _ = _
    rw [hrecords, List.map_flatMap]
    exact List.flatMap_congr fun file hfile => (recordsOf_off s (hall file hfile)).symm
  · have hempty : (result.without s).allFiles.isEmpty = result.allFiles.isEmpty := List.isEmpty_map
    simp only [hempty]
    exact hstatus

/-- A run on a list of files ends normally with a phase that encodes nothing if it does without
it. -/
theorem runFiles_of_off {s : Switch} (hs : s ≠ .encode) {files : List Text}
    (h : runFiles env (cfg.off s) csvPath files = some result) :
    ∃ result', runFiles env cfg csvPath files = some result' := by
  obtain ⟨hall, -⟩ := runFiles_eq_some_iff.mp h
  have hformats : (cfg.off s).formats = cfg.formats := by cases s <;> rfl
  rw [ofConfig_off, hformats] at hall
  have hcompletes : ∀ file ∈ files, ∃ outcome, processFile env (RunParams.ofConfig cfg)
      (resolveFormats cfg.formats) file = some outcome := by
    intro file hfile
    obtain ⟨outcome, hout⟩ := hall file hfile
    exact processFile_of_off hs hout
  let records := files.flatMap
    (recordsOf env (RunParams.ofConfig cfg) (resolveFormats cfg.formats))
  let written := if csvPath.isEmpty then none else some (env.fileWritable csvPath)
  let status : ℤ := if files.any (loadFails env) ∨ records.isEmpty then 1 else 0
  exact ⟨⟨records, written, status⟩,
    runFiles_eq_some_iff.mpr ⟨hcompletes, rfl, rfl, rfl⟩⟩

/-- **Switches.** A run without the encode phase, the decode phase or the check has the results of
the run with it, except for the figures of that phase and of those that need it. Only the encode
phase can end a run abnormally. -/
theorem switch_off (s : Switch) :
    (∀ result, rle4kCmdRun env cfg csvPath = some result →
      rle4kCmdRun env (cfg.off s) csvPath = some (result.without s)) ∧
    (s ≠ .encode → rle4kCmdRun env cfg csvPath = none →
      rle4kCmdRun env (cfg.off s) csvPath = none) := by
  -- what is decided before the first measurement
  have hlimit : limitConfig (cfg.off s) = (limitConfig cfg).off s := by cases s <;> rfl
  have hpath : ((limitConfig cfg).off s).inputPath.isEmpty =
      (limitConfig cfg).inputPath.isEmpty := by cases s <;> rfl
  have hcollect : collectFiles env ((limitConfig cfg).off s) =
      collectFiles env (limitConfig cfg) := by cases s <;> rfl
  have hwidth : resolveStripWidth ((limitConfig cfg).off s) =
      resolveStripWidth (limitConfig cfg) := by cases s <;> rfl
  have hset : ∀ stripWidth, { (limitConfig cfg).off s with stripWidth := stripWidth } =
      ({ limitConfig cfg with stripWidth := stripWidth } : BenchConfig).off s := by
    intro stripWidth
    cases s <;> rfl
  unfold rle4kCmdRun
  dsimp only
  rw [hlimit, hcollect, hwidth]
  simp only [hset, hpath]
  by_cases hempty : (limitConfig cfg).inputPath.isEmpty = true
  · rw [if_pos hempty, if_pos hempty]
    exact ⟨fun result h => by rw [← Option.some.inj h]; rfl, fun _ h => nomatch h⟩
  rw [if_neg hempty, if_neg hempty]
  cases collectFiles env (limitConfig cfg) with
  | none => exact ⟨fun result h => (nomatch h), fun _ _ => rfl⟩
  | some files =>
      simp only [Option.bind_eq_bind, Option.bind_some]
      by_cases hnone : files.isEmpty = true
      · rw [if_pos hnone, if_pos hnone]
        exact ⟨fun result h => by rw [← Option.some.inj h]; rfl, fun _ h => nomatch h⟩
      rw [if_neg hnone, if_neg hnone]
      cases resolveStripWidth (limitConfig cfg) with
      | none => exact ⟨fun result h => (nomatch h), fun _ _ => rfl⟩
      | some stripWidth =>
          refine ⟨fun result h => runFiles_off s h, fun hs h => ?_⟩
          by_contra hoff
          obtain ⟨result, hresult⟩ := Option.ne_none_iff_exists'.mp hoff
          obtain ⟨result', hresult'⟩ := runFiles_of_off hs hresult
          exact nomatch h.symm.trans hresult'

/-- The reference run without its encode phase. -/
theorem switch_off_referenceRun :
    ∃ result, rle4kCmdRun referenceEnv referenceConfig [] = some result ∧
      rle4kCmdRun referenceEnv (referenceConfig.off .encode) [] =
        some (result.without .encode) := by
  obtain ⟨result, _, hrun, -⟩ := referenceRun
  exact ⟨result, hrun, (switch_off .encode).1 result hrun⟩

end

end Redcli
