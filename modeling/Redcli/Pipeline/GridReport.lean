import Mathlib.Data.List.ReduceOption
import Redcli.Pipeline.Containment
import Redcli.Pipeline.Independence

/-!
# The Report of a Run as Sums over Blocks

What a run reports, apart from the times, is specified without windows, caches, repeats, worker
threads and accumulators: per file the blocks of its grid, per format the sums of their sizes and
the conjunction of their verdicts. The loops of the program compute this report.

## Main results

* `processFile_figures`: the loops over the blocks of a file compute its sums;
* `rle4kCmdRun_refines`: a run computes the specified report, and ends abnormally exactly where
  none is specified.
-/

namespace Redcli

/-! ## The figures of a report -/

/-- What is reported of a format apart from the times. -/
structure FormatFigures where
  name : String
  ssGb : ℚ
  csMb : ℚ
  cr : ℚ
  ok : Bool
  deriving DecidableEq

/-- What is reported of a file apart from the times. -/
structure FileFigures where
  shortName : Text
  imgW : ℤ
  imgH : ℤ
  ncols : ℤ
  nrows : ℤ
  totalSsGb : ℚ
  fmts : List FormatFigures
  deriving DecidableEq

/-- What a run leaves behind apart from the times. -/
@[ext]
structure RunFigures where
  allFiles : List (Text × FileFigures)
  csvWritten : Option Bool
  status : ℤ
  deriving DecidableEq

/-- The figures of a result. -/
def FmtResult.figures (r : FmtResult) : FormatFigures :=
  { name := r.name, ssGb := r.ssGb, csMb := r.csMb, cr := r.cr, ok := r.ok }

/-- The figures of a record. -/
def FileRecord.figures (r : FileRecord) : FileFigures :=
  { shortName := r.shortName
    imgW := r.imgW
    imgH := r.imgH
    ncols := r.ncols
    nrows := r.nrows
    totalSsGb := r.totalSsGb
    fmts := r.fmts.map FmtResult.figures }

/-- The figures of a run. -/
def RunResult.figures (result : RunResult) : RunFigures :=
  { allFiles := result.allFiles.map fun v => (v.1, v.2.figures)
    csvWritten := result.csvWritten
    status := result.status }

/-- The figures of the outcome for a file. -/
def FileOutcome.figures (file : Text) : FileOutcome → Option (Text × FileFigures)
  | .report r => some (file, r.figures)
  | _ => none

/-! ## The specified report -/

section

variable (raster : Rasterizer) (libs : CodecLibs) (bitmaps : RasterLib) (env : Environment)
  (p : RunParams) (encs : List FormatEncoder) (doc : CadDocument) (g : Geometry)

/-- The source bytes of a document. -/
def gridSource : ℚ :=
  gridSum g.ncols g.nrows fun col row => blockBytes (gridBlock raster p doc col row)

/-- The compressed bytes of a document, none without the encode phase. -/
def gridCompressed (enc : FormatEncoder) : ℚ :=
  if p.doEncode then
    gridSum g.ncols g.nrows fun col row =>
      blockBytes (gridPayload raster libs bitmaps p doc enc col row)
  else 0

/-- The verdict on a document: that on all of its blocks, if they are decoded and checked. -/
def gridVerdict (enc : FormatEncoder) : Bool :=
  decide (p.doDecode = true → p.doCheck = true →
    ∀ col < g.ncols.toNat, ∀ row < g.nrows.toNat,
      gridOk raster libs bitmaps p doc enc (col : ℤ) (row : ℤ) = true)

/-- The figures of a format. -/
def gridFormat (enc : FormatEncoder) : FormatFigures :=
  let ss := gridSource raster p doc g
  let cs := gridCompressed raster libs bitmaps p doc g enc
  { name := enc.getFormatName
    ssGb := ss / 10 ^ 9
    csMb := cs / 10 ^ 6
    cr := if 0 < cs then ss / cs else 0
    ok := gridVerdict raster libs bitmaps p doc g enc }

/-- Nothing throws and nothing overflows while a document is measured: every block can be packed in
every format, and the counter of the window loop fits. -/
def GridCompletes : Prop :=
  (0 < g.ncols → WindowCounterFits g.nrows p.cacheBlocks) ∧
    (p.doEncode = true → ∀ enc ∈ encs, ∀ col < g.ncols.toNat, ∀ row < g.nrows.toNat,
      ((gridBlock raster p doc (col : ℤ) (row : ℤ)).all fun src =>
        (enc.processPack libs bitmaps (some src) p.args).isOk) = true)

instance : Decidable (GridCompletes raster libs bitmaps p encs doc g) :=
  inferInstanceAs (Decidable (_ ∧ _))

/-- The figures of a document. -/
def gridDocument (file : Text) : FileFigures :=
  { shortName := fileName file
    imgW := g.imgW
    imgH := g.imgH
    ncols := g.ncols
    nrows := g.nrows
    totalSsGb := gridSource raster p doc g / 10 ^ 9
    fmts := encs.map (gridFormat raster libs bitmaps p doc g) }

/-- The document that is measured for a file, if there is one; `none` if the file can not be looked
up. -/
def measuredDocument (file : Text) : Option (Option CadDocument) :=
  (env.fileExists file).map fun found =>
    if found then
      match env.load file with
      | .ok (some doc) => if doc.layerCount = 0 then none else some doc
      | _ => none
    else none

/-- The report on a file, if there is one; `none` if the run ends abnormally. -/
def gridFile (file : Text) : Option (Option (Text × FileFigures)) := do
  match ← measuredDocument env file with
  | none => some none
  | some doc =>
      let g ← imageGeometry doc p
      if GridCompletes raster libs bitmaps p encs doc g then
        some (some (file, gridDocument raster libs bitmaps p encs doc g file))
      else none

/-- The report on a list of files. -/
def gridFiles (csvPath : Text) (files : List Text) : Option RunFigures :=
  (files.mapM (gridFile raster libs bitmaps env p encs)).map fun reports =>
    { allFiles := reports.reduceOption
      csvWritten := if csvPath.isEmpty then none else some (env.fileWritable csvPath)
      status := if files.any (loadFails env) ∨ reports.reduceOption.isEmpty then 1 else 0 }

/-- The encoders of a format list. -/
def encoders (ids : List ℤ) : List FormatEncoder := (resolveFormats ids).filterMap getEncoder

/-- The report of a run. -/
def gridRun (cfg : BenchConfig) (csvPath : Text) : Option RunFigures :=
  let failed : RunFigures := { allFiles := [], csvWritten := none, status := 1 }
  if cfg.inputPath.isEmpty then some failed
  else do
    let files ← collectFiles env (limitConfig cfg)
    if files.isEmpty then pure failed
    else
      let p ← runParams cfg
      gridFiles raster libs bitmaps env p (encoders cfg.formats) csvPath files

end

/-! ## The measurement of a document -/

section

variable {raster : Rasterizer} {libs : CodecLibs} {bitmaps : RasterLib} {env : Environment}
  {p : RunParams} {doc : CadDocument} {enc : FormatEncoder} {file : Text} {fi : ℕ} {g : Geometry}
  {fmts : List ℤ} {faccs : List FmtAcc}

/-- Without the encode phase nothing is compressed. -/
theorem formatAcc_cs_of_off {ncols nrows : ℤ} (henc : p.doEncode = false) :
    (formatAcc env p doc enc file fi nrows ncols).cs = 0 := by
  show FmtAcc.csHom _ = _
  rw [formatAcc, map_list_sum, List.map_map]
  apply List.sum_eq_zero
  intro x hx
  obtain ⟨col, -, rfl⟩ := List.mem_map.mp hx
  show (if p.doEncode then _ else (0 : ℚ)) = 0
  rw [henc]
  exact if_neg Bool.false_ne_true

/-- The results in a record are those of the encoders of its format list, in order. -/
theorem fmts_figures {f : FormatEncoder → FormatFigures} (k : ℕ)
    (h : List.Forall₂ (fun v acc => ∀ enc, getEncoder v.1 = some enc →
      (fmtResult enc acc).figures = f enc) (fmts.zipIdx k) faccs) :
    ((fmts.zip faccs).filterMap fun v =>
        (getEncoder v.1).map fun enc => fmtResult enc v.2).map FmtResult.figures =
      (fmts.filterMap getEncoder).map f := by
  induction fmts generalizing k faccs with
  | nil => rfl
  | cons fmt fmts ih =>
      rw [List.zipIdx_cons] at h
      obtain _ | @⟨_, acc, _, faccs, hacc, hrest⟩ := h
      have ih := ih (k + 1) hrest
      cases henc : getEncoder fmt with
      | none => simpa only [List.zip_cons_cons, List.filterMap_cons, henc, Option.map_none] using ih
      | some enc =>
          simp only [List.zip_cons_cons, List.filterMap_cons, henc, Option.map_some, List.map_cons,
            ih, hacc enc henc]

variable (hdet : env.Deterministic raster libs bitmaps)
include hdet

/-- The loop nest of a format computes its sums and its verdict. -/
theorem fmtResult_figures (hdecode : p.doDecode = true → p.doEncode = true) :
    (fmtResult enc (formatAcc env p doc enc file fi g.nrows g.ncols)).figures =
      gridFormat raster libs bitmaps p doc g enc := by
  have hss : (formatAcc env p doc enc file fi g.nrows g.ncols).ss = gridSource raster p doc g :=
    formatAcc_ss_eq hdet
  have hcs : (formatAcc env p doc enc file fi g.nrows g.ncols).cs =
      gridCompressed raster libs bitmaps p doc g enc := by
    rw [gridCompressed]
    by_cases henc : p.doEncode = true
    · rw [if_pos henc]
      exact formatAcc_cs_eq hdet henc
    · rw [if_neg henc]
      exact formatAcc_cs_of_off (Bool.eq_false_of_not_eq_true henc)
  have hok : (formatAcc env p doc enc file fi g.nrows g.ncols).ok =
      gridVerdict raster libs bitmaps p doc g enc := by
    rw [Bool.eq_iff_iff, gridVerdict, decide_eq_true_eq]
    by_cases henc : p.doEncode = true
    · exact formatAcc_ok_iff_grid hdet henc
    · -- nothing is decoded
      have hdec : p.doDecode = false := Bool.eq_false_of_not_eq_true fun h => henc (hdecode h)
      refine iff_of_true (formatAcc_ok_of_unverified (.inr hdec)) fun h => ?_
      rw [hdec] at h
      exact absurd h Bool.false_ne_true
  rw [FmtResult.figures, fmtResult, FmtAcc.cr, hss, hcs, hok]
  rfl

/-- The `process_pack` calls for a document return exactly if its blocks can be packed. -/
theorem packsReturn_iff_grid :
    PacksReturn env p fmts file doc g ↔
      (p.doEncode = true → ∀ enc ∈ fmts.filterMap getEncoder,
        ∀ col < g.ncols.toNat, ∀ row < g.nrows.toNat,
          ((gridBlock raster p doc (col : ℤ) (row : ℤ)).all fun src =>
            (enc.processPack libs bitmaps (some src) p.args).isOk) = true) := by
  -- one call in any repeat
  have hcall : ∀ (enc : FormatEncoder) (fi : ℕ) (col row0 nwin : ℤ) (rep slot : ℕ),
      slot < nwin.toNat →
        (PackReturns env enc p.args { windowSite file fi col row0 with rep := rep }
          (windowRaw env p doc (windowSite file fi col row0) nwin) slot ↔
        ((gridBlock raster p doc col (row0 + slot)).all fun src =>
          (enc.processPack libs bitmaps (some src) p.args).isOk) = true) := by
    intro enc fi col row0 nwin rep slot hslot
    rw [PackReturns, windowRaw, getD_map_range _ hslot, rasterizeSlot_eq hdet]
    simp only [packSlot, hdet.codecs_eq, hdet.bitmaps_eq, Option.all_eq_true]
    refine forall₂_congr fun src _ => ?_
    cases enc.processPack libs bitmaps (some src) p.args with
    | error fault =>
        refine iff_of_false ?_ Bool.false_ne_true
        rintro ⟨e, he⟩
        cases he
    | ok e => exact iff_of_true ⟨e, rfl⟩ rfl
  constructor
  · intro h henc enc hmem col hcol
    obtain ⟨fmt, hfmt, hget⟩ := List.mem_filterMap.mp hmem
    obtain ⟨fi, hfi⟩ := List.mem_iff_getElem?.mp hfmt
    apply (forall_windows_iff p.one_le_cacheBlocks fun row =>
      ((gridBlock raster p doc (col : ℤ) row).all fun src =>
        (enc.processPack libs bitmaps (some src) p.args).isOk) = true).mp
    intro w hw slot hslot
    exact (hcall enc fi col w.1 w.2 0 slot hslot).mp
      (h fi fmt enc hfi hget col hcol w hw henc 0 p.repeats_pos slot hslot)
  · intro h fi fmt enc hfi hget col hcol w hw henc rep _ slot hslot
    have hmem : enc ∈ fmts.filterMap getEncoder :=
      List.mem_filterMap.mpr ⟨fmt, List.mem_of_getElem? hfi, hget⟩
    apply (hcall enc fi col w.1 w.2 rep slot hslot).mpr
    exact (forall_windows_iff p.one_le_cacheBlocks fun row =>
      ((gridBlock raster p doc (col : ℤ) row).all fun src =>
        (enc.processPack libs bitmaps (some src) p.args).isOk) = true).mpr
      (h henc enc hmem col hcol) w hw slot hslot

/-- All formats are measured exactly if nothing throws and nothing overflows, and their figures are
those of the document. -/
theorem measureFormats_figures (hdecode : p.doDecode = true → p.doEncode = true)
    (hg : imageGeometry doc p = some g)
    (hfmts : ∀ fmt ∈ fmts, ∃ enc, getEncoder fmt = some enc) (hne : fmts ≠ []) (dMs : ℚ) :
    ((measureFormats env p doc file g.ncols g.nrows fmts).map fun faccs =>
        (fileRecord file dMs g fmts faccs).figures) =
      if GridCompletes raster libs bitmaps p (fmts.filterMap getEncoder) doc g then
        some (gridDocument raster libs bitmaps p (fmts.filterMap getEncoder) doc g file)
      else none := by
  obtain ⟨fmt, hfmt⟩ := List.exists_mem_of_ne_nil fmts hne
  have hsome := @measureFormats_isSome_iff env p fmts file doc g hg ⟨fmt, hfmt, hfmts fmt hfmt⟩
  have hcompletes : (∃ faccs, measureFormats env p doc file g.ncols g.nrows fmts = some faccs) ↔
      GridCompletes raster libs bitmaps p (fmts.filterMap getEncoder) doc g := by
    rw [hsome, GeometryDefined, packsReturn_iff_grid hdet, and_iff_right hg]
    rfl
  cases hmeasure : measureFormats env p doc file g.ncols g.nrows fmts with
  | none =>
      rw [if_neg]
      · rfl
      · rw [← hcompletes, hmeasure]
        rintro ⟨faccs, h⟩
        cases h
  | some faccs =>
      rw [if_pos (hcompletes.mp ⟨faccs, hmeasure⟩), Option.map_some]
      have hresults : (fileRecord file dMs g fmts faccs).fmts.map FmtResult.figures =
          (fmts.filterMap getEncoder).map (gridFormat raster libs bitmaps p doc g) := by
        apply fmts_figures 0
        have hall := Accumulate.mapM_eq_some_iff.mp hmeasure
        refine hall.imp fun v acc hacc enc henc => ?_
        simp only [henc] at hacc
        obtain ⟨-, rfl⟩ := (measureFormat_eq_some_iff (nrows_le hg)).mp hacc
        exact fmtResult_figures hdet hdecode
      -- the source bytes of the file are those of its first format
      have hsource : (faccs.head?.map FmtAcc.ss).getD 0 = gridSource raster p doc g := by
        obtain ⟨enc, henc⟩ := hfmts _ (List.getElem_mem (List.length_pos_of_ne_nil hne))
        obtain ⟨acc, hacc, hformat⟩ := measureFormats_getElem? hmeasure
          (List.getElem?_eq_getElem (List.length_pos_of_ne_nil hne)) henc
        obtain ⟨-, rfl⟩ := (measureFormat_eq_some_iff (nrows_le hg)).mp hformat
        rw [List.head?_eq_getElem?, hacc]
        exact formatAcc_ss_eq hdet
      rw [FileRecord.figures, hresults]
      simp only [fileRecord, hsource, gridDocument]

/-- A file is processed to the specified report on it. -/
theorem processFile_figures (hdecode : p.doDecode = true → p.doEncode = true)
    (hfmts : ∀ fmt ∈ fmts, ∃ enc, getEncoder fmt = some enc) (hne : fmts ≠ []) :
    (processFile env p fmts file).map (FileOutcome.figures file) =
      gridFile raster libs bitmaps env p (fmts.filterMap getEncoder) file := by
  rw [processFile, gridFile, measuredDocument]
  rcases hexists : env.fileExists file with _ | _ | _
  · rfl
  · rfl
  simp only [Option.bind_eq_bind, Option.bind_some, Option.map_some, Bool.not_true,
    Bool.false_eq_true, if_false, if_true]
  rcases hload : env.load file with failure | _ | doc
  · rfl
  · rfl
  · by_cases hlayers : doc.layerCount = 0
    · simp only [if_pos hlayers]
      rfl
    · simp only [if_neg hlayers]
      cases hg : imageGeometry doc p with
      | none => rfl
      | some g =>
          have hmeasure := @measureFormats_figures raster libs bitmaps env p doc file g fmts hdet
            hdecode hg hfmts hne (env.loadMs file)
          have hmap := congrArg (Option.map fun figs => some (file, figs)) hmeasure
          rw [Option.map_map, apply_ite (Option.map fun figs => some (file, figs))] at hmap
          refine Eq.trans ?_ hmap
          rw [Option.bind_some]
          cases measureFormats env p doc file g.ncols g.nrows fmts <;> rfl

end

/-! ## Runs -/

section

variable {raster : Rasterizer} {libs : CodecLibs} {bitmaps : RasterLib} {env : Environment}

/-- The records of a list of files are those of the reports on them. -/
theorem flatMap_recordsOf_figures {p : RunParams} {fmts : List ℤ} {files : List Text}
    {reports : List (Option (Text × FileFigures))}
    (h : List.Forall₂ (fun file report =>
      (processFile env p fmts file).map (FileOutcome.figures file) = some report) files reports) :
    (files.flatMap (recordsOf env p fmts)).map (fun v => (v.1, v.2.figures)) =
      reports.reduceOption := by
  induction h with
  | nil => rfl
  | @cons file report files reports hfile _ ih =>
      obtain ⟨outcome, hprocess, rfl⟩ := Option.map_eq_some_iff.mp hfile
      rw [List.flatMap_cons, List.map_append, ih, recordsOf, hprocess]
      cases outcome with
      | report r => rw [FileOutcome.figures, List.reduceOption_cons_of_some]; rfl
      | loadFailure => exact (List.reduceOption_cons_of_none _).symm
      | skipped => exact (List.reduceOption_cons_of_none _).symm

/-- The loop over the files computes the specified report on them. -/
theorem runFiles_figures (hdet : env.Deterministic raster libs bitmaps) (cfg : BenchConfig)
    (csvPath : Text) (files : List Text) :
    (runFiles env cfg csvPath files).map RunResult.figures =
      gridFiles raster libs bitmaps env (RunParams.ofConfig cfg) (encoders cfg.formats) csvPath
        files := by
  have hdecode : (RunParams.ofConfig cfg).doDecode = true →
      (RunParams.ofConfig cfg).doEncode = true := fun h => (Bool.and_eq_true_iff.mp h).1
  obtain ⟨fmt, hfmt, -⟩ := exists_mem_resolveFormats cfg.formats
  have hfile : ∀ file, (processFile env (RunParams.ofConfig cfg) (resolveFormats cfg.formats)
      file).map (FileOutcome.figures file) =
        gridFile raster libs bitmaps env (RunParams.ofConfig cfg) (encoders cfg.formats) file :=
    fun file => processFile_figures hdet hdecode
      (fun fmt hfmt => getEncoder_of_mem_resolveFormats hfmt) (List.ne_nil_of_mem hfmt)
  -- the run and its report break off at the same files
  have hcompletes : (∀ file ∈ files, ∃ outcome, processFile env (RunParams.ofConfig cfg)
      (resolveFormats cfg.formats) file = some outcome) ↔
        ∃ reports, files.mapM (gridFile raster libs bitmaps env (RunParams.ofConfig cfg)
          (encoders cfg.formats)) = some reports := by
    rw [Accumulate.exists_mapM_eq_some_iff]
    refine forall₂_congr fun file _ => ?_
    rw [← Option.isSome_iff_exists, ← Option.isSome_iff_exists, ← hfile, Option.isSome_map]
  rw [gridFiles]
  cases hreports : files.mapM (gridFile raster libs bitmaps env (RunParams.ofConfig cfg)
      (encoders cfg.formats)) with
  | none =>
      rw [Option.map_none, Option.map_eq_none_iff, Option.eq_none_iff_forall_ne_some]
      intro result hrun
      obtain ⟨reports, h⟩ := hcompletes.mp (runFiles_eq_some_iff.mp hrun).1
      rw [hreports] at h
      cases h
  | some reports =>
      have hall := (Accumulate.mapM_eq_some_iff.mp hreports).imp fun file report h =>
        (hfile file).trans h
      have hrecords := flatMap_recordsOf_figures hall
      have hrun : runFiles env cfg csvPath files = some
          { allFiles := files.flatMap
              (recordsOf env (RunParams.ofConfig cfg) (resolveFormats cfg.formats))
            csvWritten := if csvPath.isEmpty then none else some (env.fileWritable csvPath)
            status := if files.any (loadFails env) ∨ (files.flatMap (recordsOf env
              (RunParams.ofConfig cfg) (resolveFormats cfg.formats))).isEmpty then 1 else 0 } :=
        runFiles_eq_some_iff.mpr ⟨hcompletes.mpr ⟨reports, hreports⟩, rfl, rfl, rfl⟩
      rw [hrun, Option.map_some, Option.map_some, RunResult.figures]
      simp only [← hrecords, List.isEmpty_map]

/-- The figures of a run are those of the specified report. -/
theorem map_figures_rle4kCmdRun (hdet : env.Deterministic raster libs bitmaps) (cfg : BenchConfig)
    (csvPath : Text) :
    (rle4kCmdRun env cfg csvPath).map RunResult.figures =
      gridRun raster libs bitmaps env cfg csvPath := by
  unfold rle4kCmdRun gridRun
  dsimp only
  have hpath : (limitConfig cfg).inputPath.isEmpty = cfg.inputPath.isEmpty := rfl
  by_cases hempty : cfg.inputPath.isEmpty = true
  · rw [if_pos hempty, if_pos (hpath.trans hempty)]
    rfl
  rw [if_neg hempty, if_neg (hpath ▸ hempty)]
  cases collectFiles env (limitConfig cfg) with
  | none => rfl
  | some files =>
      simp only [Option.bind_eq_bind, Option.bind_some]
      by_cases hnone : files.isEmpty = true
      · rw [if_pos hnone, if_pos hnone]
        rfl
      rw [if_neg hnone, if_neg hnone, runParams]
      cases resolveStripWidth (limitConfig cfg) with
      | none => rfl
      | some stripWidth => exact runFiles_figures hdet _ csvPath files

end

end Redcli
