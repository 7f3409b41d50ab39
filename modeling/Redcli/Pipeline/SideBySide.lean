import Redcli.Pipeline.CsvReport
import Redcli.Pipeline.GridReport

/-!
# Formats Side by Side

The formats of a run have no part in each other's measurement: a run on a list of formats is the
runs on each of them side by side, also if these have other thread counts, cache sizes and repeats,
and other schedules. A format only can keep the others from being reported, by a block that it
cannot pack.

## Main results

* `formats_side_by_side`: when a run ends normally, and the column of each format in its report.
-/

namespace Redcli

/-! ## One format of a run -/

/-- The IDs of the formats that a run measures. -/
def measuredIds (ids : List ℤ) : List ℤ :=
  if knownIds ids = [] then [0, 1, 2, 3, 4, 5] else knownIds ids

/-- The configuration of a run on one format. -/
def onFormat (cfg : BenchConfig) (id : ℤ) : BenchConfig := { cfg with formats := [id] }

/-- The results of one format in a record. -/
def FileFigures.column (i : ℕ) (r : FileFigures) : FileFigures :=
  { r with fmts := r.fmts[i]?.toList }

/-- The results of one format in a report. -/
def RunFigures.column (i : ℕ) (f : RunFigures) : RunFigures :=
  { f with allFiles := f.allFiles.map fun v => (v.1, v.2.column i) }

/-- Two environments with the same files. -/
structure Environment.SameFiles (env₁ env₂ : Environment) : Prop where
  fileExists_eq : env₁.fileExists = env₂.fileExists
  directory_eq : env₁.directory = env₂.directory
  load_eq : env₁.load = env₂.load
  fileWritable_eq : env₁.fileWritable = env₂.fileWritable

/-- The formats of a run are those of its IDs, in order. -/
theorem resolveFormats_eq_map (ids : List ℤ) :
    resolveFormats ids = (measuredIds ids).map mapFormatId := by
  have hlut : formatLut = ([0, 1, 2, 3, 4, 5] : List ℤ).map mapFormatId := by decide
  rw [resolveFormats_eq, hlut, measuredIds, apply_ite (List.map mapFormatId)]

/-- A measured ID is measured alone, too. -/
theorem measuredIds_singleton {ids : List ℤ} {id : ℤ} (hid : id ∈ measuredIds ids) :
    measuredIds [id] = [id] := by
  have hrange : 0 ≤ id ∧ id < 6 := by
    rw [measuredIds] at hid
    split_ifs at hid with hnone
    · revert id
      decide
    · exact of_decide_eq_true (List.mem_filter.mp hid).2
  have hknown : knownIds [id] = [id] := by
    rw [knownIds, List.filter_eq_self]
    intro id' hid'
    rw [List.mem_singleton.mp hid']
    exact decide_eq_true hrange
  rw [measuredIds, hknown, if_neg (List.cons_ne_nil id [])]

/-- Each measured ID has its encoder, in order. -/
theorem map_some_encoders (ids : List ℤ) :
    (encoders ids).map some = (measuredIds ids).map fun id => getEncoder (mapFormatId id) := by
  have hmap : ∀ fmts : List ℤ, (∀ fmt ∈ fmts, ∃ enc, getEncoder fmt = some enc) →
      (fmts.filterMap getEncoder).map some = fmts.map getEncoder := by
    intro fmts hfmts
    induction fmts with
    | nil => rfl
    | cons fmt fmts ih =>
        obtain ⟨⟨enc, henc⟩, hrest⟩ := List.forall_mem_cons.mp hfmts
        rw [List.filterMap_cons_some henc, List.map_cons, List.map_cons, ih hrest, henc]
  rw [encoders, hmap _ fun fmt hfmt => getEncoder_of_mem_resolveFormats hfmt,
    resolveFormats_eq_map, List.map_map]
  rfl

/-- The encoder at the position of an ID is the one of the run on this format. -/
theorem encoders_onFormat {ids : List ℤ} {i : ℕ} {id : ℤ} (hi : (measuredIds ids)[i]? = some id) :
    ∃ enc, (encoders ids)[i]? = some enc ∧ encoders [id] = [enc] := by
  have hat : ((encoders ids)[i]?).map some = some (getEncoder (mapFormatId id)) := by
    rw [← List.getElem?_map, map_some_encoders, List.getElem?_map, hi, Option.map_some]
  obtain ⟨enc, henc, hget⟩ := Option.map_eq_some_iff.mp hat
  have halone := map_some_encoders [id]
  rw [measuredIds_singleton (List.mem_of_getElem? hi), List.map_singleton, ← hget] at halone
  exact ⟨enc, henc, List.map_injective_iff.mpr (Option.some_injective _) halone⟩

/-- The encoders of a run are those of the runs on its formats. -/
theorem mem_encoders_iff {ids : List ℤ} {enc : FormatEncoder} :
    enc ∈ encoders ids ↔ ∃ id ∈ measuredIds ids, encoders [id] = [enc] := by
  constructor
  · intro henc
    obtain ⟨i, hi⟩ := List.mem_iff_getElem?.mp henc
    have hlength : (encoders ids).length = (measuredIds ids).length := by
      simpa only [List.length_map] using congrArg List.length (map_some_encoders ids)
    have hid := List.getElem?_eq_getElem (hlength ▸ (List.getElem?_eq_some_iff.mp hi).1)
    obtain ⟨enc', henc', halone⟩ := encoders_onFormat hid
    obtain rfl : enc = enc' := Option.some.inj (hi.symm.trans henc')
    exact ⟨_, List.mem_of_getElem? hid, halone⟩
  · rintro ⟨id, hid, halone⟩
    obtain ⟨i, hi⟩ := List.mem_iff_getElem?.mp hid
    obtain ⟨enc', henc', halone'⟩ := encoders_onFormat hi
    obtain rfl : enc = enc' := by simpa only [halone, List.cons.injEq, and_true] using halone'
    exact List.mem_of_getElem? henc'

/-! ## The report on one format -/

section

variable {raster : Rasterizer} {libs : CodecLibs} {bitmaps : RasterLib}
  {env env₁ env₂ : Environment} {p : RunParams} {encs : List FormatEncoder} {doc : CadDocument}
  {g : Geometry} {file csvPath : Text} {cfg cfg₁ cfg₂ : BenchConfig}

/-- A document is measured in all formats if it is in each of them. -/
theorem gridCompletes_iff (hne : encs ≠ []) :
    GridCompletes raster libs bitmaps p encs doc g ↔
      ∀ enc ∈ encs, GridCompletes raster libs bitmaps p [enc] doc g := by
  obtain ⟨enc₀, henc₀⟩ := List.exists_mem_of_ne_nil encs hne
  constructor
  · rintro ⟨hcounter, hpack⟩ enc henc
    refine ⟨hcounter, fun hencode enc' henc' => ?_⟩
    obtain rfl := List.mem_singleton.mp henc'
    exact hpack hencode enc' henc
  · intro h
    exact ⟨(h enc₀ henc₀).1, fun hencode enc henc =>
      (h enc henc).2 hencode enc (List.mem_singleton_self enc)⟩

/-- When there is a report on a file, which may be that it is not measured. -/
theorem exists_gridFile_iff :
    (∃ report, gridFile raster libs bitmaps env p encs file = some report) ↔
      measuredDocument env file ≠ none ∧ ∀ doc, measuredDocument env file = some (some doc) →
        ∃ g, imageGeometry doc p = some g ∧ GridCompletes raster libs bitmaps p encs doc g := by
  rw [gridFile]
  rcases hdoc : measuredDocument env file with _ | _ | doc
  · simp
  · simp
  · simp only [ne_eq, reduceCtorEq, not_false_eq_true, Option.some.injEq, true_and, forall_eq',
      Option.bind_eq_bind, Option.bind_some]
    cases hg : imageGeometry doc p with
    | none =>
        refine iff_of_false ?_ ?_
        · rintro ⟨report, h⟩
          cases h
        · rintro ⟨g, h, -⟩
          cases h
    | some g =>
        simp only [Option.bind_some, Option.some.injEq, exists_eq_left']
        by_cases h : GridCompletes raster libs bitmaps p encs doc g
        · rw [if_pos h]
          exact iff_of_true ⟨_, rfl⟩ h
        · rw [if_neg h]
          refine iff_of_false ?_ h
          rintro ⟨report, h⟩
          cases h

/-- There is a report on a file in all formats if there is one in each of them. -/
theorem exists_gridFile_iff_each (hne : encs ≠ []) :
    (∃ report, gridFile raster libs bitmaps env p encs file = some report) ↔
      ∀ enc ∈ encs, ∃ report, gridFile raster libs bitmaps env p [enc] file = some report := by
  simp only [exists_gridFile_iff]
  obtain ⟨enc₀, henc₀⟩ := List.exists_mem_of_ne_nil encs hne
  constructor
  · rintro ⟨hexists, h⟩ enc henc
    refine ⟨hexists, fun doc hdoc => ?_⟩
    obtain ⟨g, hg, hcompletes⟩ := h doc hdoc
    exact ⟨g, hg, (gridCompletes_iff hne).mp hcompletes enc henc⟩
  · intro h
    refine ⟨(h enc₀ henc₀).1, fun doc hdoc => ?_⟩
    obtain ⟨g, hg, -⟩ := (h enc₀ henc₀).2 doc hdoc
    refine ⟨g, hg, (gridCompletes_iff hne).mpr fun enc henc => ?_⟩
    obtain ⟨g', hg', hcompletes⟩ := (h enc henc).2 doc hdoc
    obtain rfl : g = g' := Option.some.inj (hg.symm.trans hg')
    exact hcompletes

/-- The input files of a run, none if it has no input path. -/
def gridInputs (env : Environment) (cfg : BenchConfig) : Option (List Text) :=
  if cfg.inputPath.isEmpty then some [] else collectFiles env (limitConfig cfg)

/-- When a report is specified. -/
theorem exists_gridRun_iff :
    (∃ figures, gridRun raster libs bitmaps env cfg csvPath = some figures) ↔
      ∃ files, gridInputs env cfg = some files ∧ (files ≠ [] → ∃ p, runParams cfg = some p ∧
        ∀ file ∈ files, ∃ report,
          gridFile raster libs bitmaps env p (encoders cfg.formats) file = some report) := by
  rw [gridRun, gridInputs]
  by_cases hempty : cfg.inputPath.isEmpty = true
  · rw [if_pos hempty, if_pos hempty]
    exact iff_of_true ⟨_, rfl⟩ ⟨[], rfl, fun h => absurd rfl h⟩
  rw [if_neg hempty, if_neg hempty]
  cases collectFiles env (limitConfig cfg) with
  | none => simp
  | some files =>
      simp only [Option.bind_eq_bind, Option.bind_some, Option.some.injEq, exists_eq_left',
        List.isEmpty_iff]
      by_cases hnone : files = []
      · rw [if_pos hnone]
        exact iff_of_true ⟨_, rfl⟩ fun h => absurd hnone h
      rw [if_neg hnone]
      cases runParams cfg with
      | none => simp [hnone]
      | some p =>
          simp only [Option.bind_some, Option.some.injEq, exists_eq_left', hnone, ne_eq,
            not_false_eq_true, forall_const, gridFiles, Option.map_eq_some_iff,
            ← Accumulate.exists_mapM_eq_some_iff]
          constructor
          · rintro ⟨-, reports, h, -⟩
            exact ⟨reports, h⟩
          · rintro ⟨reports, h⟩
            exact ⟨_, reports, h, rfl⟩

/-! ## Columns -/

theorem Environment.SameFiles.measuredDocument_eq (h : env₁.SameFiles env₂) :
    measuredDocument env₁ = measuredDocument env₂ := by
  funext file
  rw [measuredDocument, measuredDocument, h.fileExists_eq, h.load_eq]

theorem Environment.SameFiles.loadFails_eq (h : env₁.SameFiles env₂) :
    loadFails env₁ = loadFails env₂ := by
  funext file
  rw [loadFails, loadFails, h.fileExists_eq, h.load_eq]

/-- The input files depend on the files only. -/
theorem Environment.SameFiles.gridInputs_eq (h : env₁.SameFiles env₂)
    (hsame : SameMeasurement cfg₁ cfg₂) : gridInputs env₁ cfg₁ = gridInputs env₂ cfg₂ := by
  rw [hsame, gridInputs, gridInputs, collectFiles, collectFiles, h.directory_eq]
  rfl

/-- The constants of a run, up to those that the report does not depend on. -/
theorem SameMeasurement.runParams (hsame : SameMeasurement cfg₁ cfg₂) {p₂ : RunParams}
    (h : runParams cfg₂ = some p₂) :
    ∃ rt et dt reps cache hreps hcache, runParams cfg₁ = some
      { p₂ with
        rtThreads := rt
        etThreads := et
        dtThreads := dt
        repeats := reps
        cacheBlocks := cache
        one_le_repeats := hreps
        one_le_cacheBlocks := hcache } := by
  obtain ⟨stripWidth, hwidth, rfl⟩ := Option.map_eq_some_iff.mp h
  have hwidth₁ : resolveStripWidth (limitConfig cfg₁) = some stripWidth := by
    rw [hsame]
    exact hwidth
  have hlimited : SameMeasurement { limitConfig cfg₁ with stripWidth := stripWidth }
      { limitConfig cfg₂ with stripWidth := stripWidth } := by
    rw [hsame]
    rfl
  obtain ⟨rt, et, dt, reps, cache, hreps, hcache, hparams⟩ := hlimited.params
  refine ⟨rt, et, dt, reps, cache, hreps, hcache, ?_⟩
  rw [Redcli.runParams, hwidth₁, Option.map_some, hparams]

section

variable {rt et dt reps cache : ℤ} {hreps : 1 ≤ reps} {hcache : 1 ≤ cache}
  {report report' : Option (Text × FileFigures)} {i : ℕ}

/-- The report on a file in one format. -/
theorem gridFile_column (hfiles : env₁.SameFiles env₂)
    (h₁ : gridFile raster libs bitmaps env₁
      { p with
        rtThreads := rt
        etThreads := et
        dtThreads := dt
        repeats := reps
        cacheBlocks := cache
        one_le_repeats := hreps
        one_le_cacheBlocks := hcache } encs[i]?.toList file = some report')
    (h₂ : gridFile raster libs bitmaps env₂ p encs file = some report) :
    report' = report.map fun v => (v.1, v.2.column i) := by
  rw [gridFile] at h₁ h₂
  rw [hfiles.measuredDocument_eq] at h₁
  rcases hdoc : measuredDocument env₂ file with _ | _ | doc
  · rw [hdoc] at h₂
    cases h₂
  · rw [hdoc] at h₁ h₂
    cases h₁
    cases h₂
    rfl
  · simp only [hdoc, Option.bind_some, Option.bind_eq_bind, Option.bind_eq_some_iff,
      Option.ite_none_right_eq_some, Option.some.injEq] at h₁ h₂
    obtain ⟨g, hg, -, rfl⟩ := h₁
    obtain ⟨g', hg', -, rfl⟩ := h₂
    obtain rfl : g = g' := Option.some.inj (hg.symm.trans hg')
    -- a column of the results is the result of the encoder at its position
    have hcolumn : (encs[i]?.toList).map (gridFormat raster libs bitmaps p doc g) =
        ((encs.map (gridFormat raster libs bitmaps p doc g))[i]?).toList := by
      rw [List.getElem?_map]
      cases encs[i]? <;> rfl
    rw [Option.map_some, FileFigures.column, gridDocument, gridDocument, ← hcolumn]
    rfl

/-- The report on a list of files in one format. -/
theorem gridFiles_column (hfiles : env₁.SameFiles env₂) {files : List Text}
    {figures figures' : RunFigures}
    (h₁ : gridFiles raster libs bitmaps env₁
      { p with
        rtThreads := rt
        etThreads := et
        dtThreads := dt
        repeats := reps
        cacheBlocks := cache
        one_le_repeats := hreps
        one_le_cacheBlocks := hcache } encs[i]?.toList csvPath files = some figures')
    (h₂ : gridFiles raster libs bitmaps env₂ p encs csvPath files = some figures) :
    figures' = figures.column i := by
  obtain ⟨reports', hreports', rfl⟩ := Option.map_eq_some_iff.mp h₁
  obtain ⟨reports, hreports, rfl⟩ := Option.map_eq_some_iff.mp h₂
  have hall' := Accumulate.mapM_eq_some_iff.mp hreports'
  have hall := Accumulate.mapM_eq_some_iff.mp hreports
  have hcolumns : reports' = reports.map (Option.map fun v => (v.1, v.2.column i)) := by
    clear h₁ h₂ hreports hreports'
    induction hall generalizing reports' with
    | nil => exact List.forall₂_nil_left_iff.mp hall'
    | cons hfile _ ih =>
        obtain ⟨report', reports', hfile', hrest', rfl⟩ := List.forall₂_cons_left_iff.mp hall'
        rw [List.map_cons, ← gridFile_column hfiles hfile' hfile, ih reports' hrest']
  rw [hcolumns, List.reduceOption_map, hfiles.loadFails_eq, hfiles.fileWritable_eq]
  simp only [RunFigures.column, List.isEmpty_map]

end

/-- The report of a run in one format. -/
theorem gridRun_column (hfiles : env₁.SameFiles env₂) (hsame : SameMeasurement cfg₁ cfg₂) {i : ℕ}
    {id : ℤ} (hi : (measuredIds cfg₂.formats)[i]? = some id) (hid : cfg₁.formats = [id])
    {figures figures' : RunFigures}
    (h₁ : gridRun raster libs bitmaps env₁ cfg₁ csvPath = some figures')
    (h₂ : gridRun raster libs bitmaps env₂ cfg₂ csvPath = some figures) :
    figures' = figures.column i := by
  have hpath : cfg₁.inputPath = cfg₂.inputPath := by rw [hsame]
  have hcollect := hfiles.gridInputs_eq hsame
  rw [gridInputs, gridInputs, hpath] at hcollect
  rw [gridRun] at h₁ h₂
  rw [hpath] at h₁
  by_cases hempty : cfg₂.inputPath.isEmpty = true
  · rw [if_pos hempty] at h₁ h₂
    cases h₁
    cases h₂
    rfl
  rw [if_neg hempty, if_neg hempty] at hcollect
  rw [if_neg hempty] at h₁ h₂
  rw [hcollect] at h₁
  obtain ⟨files, hlist, h₂⟩ := Option.bind_eq_some_iff.mp h₂
  rw [hlist, Option.bind_eq_bind, Option.bind_some] at h₁
  by_cases hnone : files.isEmpty = true
  · rw [if_pos hnone] at h₁ h₂
    cases h₁
    cases h₂
    rfl
  rw [if_neg hnone] at h₁ h₂
  obtain ⟨p, hp, h₂⟩ := Option.bind_eq_some_iff.mp h₂
  obtain ⟨rt, et, dt, reps, cache, hreps, hcache, hp₁⟩ := hsame.runParams hp
  obtain ⟨enc, henc, halone⟩ := encoders_onFormat hi
  have hencs : encoders cfg₁.formats = (encoders cfg₂.formats)[i]?.toList := by
    rw [hid, halone, henc, Option.toList_some]
  rw [hp₁, hencs] at h₁
  exact gridFiles_column hfiles h₁ h₂

/-! ## Runs side by side -/

/-- A run ends normally if there is a report of it. -/
theorem exists_rle4kCmdRun_iff (hdet : env.Deterministic raster libs bitmaps) :
    (∃ result, rle4kCmdRun env cfg csvPath = some result) ↔
      ∃ figures, gridRun raster libs bitmaps env cfg csvPath = some figures := by
  rw [← map_figures_rle4kCmdRun hdet, ← Option.isSome_iff_exists, ← Option.isSome_iff_exists,
    Option.isSome_map]

/-- There is a report of a run if there is one of the run on each of its formats. -/
theorem exists_gridRun_iff_each :
    (∃ figures, gridRun raster libs bitmaps env cfg csvPath = some figures) ↔
      ∀ id ∈ measuredIds cfg.formats,
        ∃ figures, gridRun raster libs bitmaps env (onFormat cfg id) csvPath = some figures := by
  simp only [exists_gridRun_iff]
  have hne : encoders cfg.formats ≠ [] := by
    obtain ⟨fmt, hfmt, enc, henc⟩ := exists_mem_resolveFormats cfg.formats
    exact List.ne_nil_of_mem (List.mem_filterMap.mpr ⟨fmt, hfmt, henc⟩)
  constructor
  · rintro ⟨files, hfiles, h⟩ id hid
    refine ⟨files, hfiles, fun hsome => ?_⟩
    obtain ⟨p, hp, hreports⟩ := h hsome
    refine ⟨p, hp, fun file hfile => ?_⟩
    obtain ⟨i, hi⟩ := List.mem_iff_getElem?.mp hid
    obtain ⟨enc, henc, halone⟩ := encoders_onFormat hi
    show ∃ report, gridFile raster libs bitmaps env p (encoders [id]) file = some report
    rw [halone]
    exact (exists_gridFile_iff_each hne).mp (hreports file hfile) enc (List.mem_of_getElem? henc)
  · intro h
    obtain ⟨enc₀, henc₀⟩ := List.exists_mem_of_ne_nil _ hne
    obtain ⟨id₀, hid₀, -⟩ := mem_encoders_iff.mp henc₀
    obtain ⟨files, hfiles, h₀⟩ := h id₀ hid₀
    refine ⟨files, hfiles, fun hsome => ?_⟩
    obtain ⟨p, hp, -⟩ := h₀ hsome
    refine ⟨p, hp, fun file hfile => (exists_gridFile_iff_each hne).mpr fun enc henc => ?_⟩
    obtain ⟨id, hid, halone⟩ := mem_encoders_iff.mp henc
    obtain ⟨files', hfiles', h'⟩ := h id hid
    obtain rfl : files = files' := Option.some.inj (hfiles.symm.trans hfiles')
    obtain ⟨p', hp', hreports⟩ := h' hsome
    obtain rfl : p = p' := Option.some.inj (hp.symm.trans hp')
    rw [← halone]
    exact hreports file hfile

/-- **Side by side.** With a deterministic rasterizer and deterministic codecs a run on a list of
formats ends normally exactly if the run on each of its formats does. What it reports of a format is
then what every run on this format alone reports, with any thread counts, cache sizes, repeats and
schedules. -/
theorem formats_side_by_side (hdet : env.Deterministic raster libs bitmaps) (cfg : BenchConfig)
    (csvPath : Text) :
    ((∃ result, rle4kCmdRun env cfg csvPath = some result) ↔
      ∀ id ∈ measuredIds cfg.formats,
        ∃ result, rle4kCmdRun env (onFormat cfg id) csvPath = some result) ∧
    ∀ result, rle4kCmdRun env cfg csvPath = some result →
      ∀ (i : ℕ) (id : ℤ), (measuredIds cfg.formats)[i]? = some id →
        ∀ (env' : Environment) (cfg' : BenchConfig) (result' : RunResult),
          env'.Deterministic raster libs bitmaps → env'.SameFiles env →
            SameMeasurement cfg' cfg → cfg'.formats = [id] →
              rle4kCmdRun env' cfg' csvPath = some result' →
                result'.figures = result.figures.column i := by
  constructor
  · simp only [exists_rle4kCmdRun_iff hdet]
    exact exists_gridRun_iff_each
  · intro result hrun i id hi env' cfg' result' hdet' hfiles hsame hid hrun'
    have h := map_figures_rle4kCmdRun hdet cfg csvPath
    have h' := map_figures_rle4kCmdRun hdet' cfg' csvPath
    rw [hrun, Option.map_some] at h
    rw [hrun', Option.map_some] at h'
    exact gridRun_column hfiles hsame hi hid h'.symm h.symm

/-- The reference run in two formats, and a run in the second of them with one repeat, two threads
and another schedule. -/
theorem formats_side_by_side_referenceRun :
    ∃ result result', rle4kCmdRun referenceEnv referenceConfig [] = some result ∧
      rle4kCmdRun { referenceEnv with schedule := fun _ _ => [1, 0, 1] }
        { referenceConfig with repeats := 1, rasterThreads := 2, formats := [5] } [] =
          some result' ∧
      result'.figures = result.figures.column 1 := by
  obtain ⟨result, hrun⟩ := Option.isSome_iff_exists.mp
    (by decide +kernel : (rle4kCmdRun referenceEnv referenceConfig []).isSome)
  obtain ⟨result', hrun'⟩ := Option.isSome_iff_exists.mp
    (by decide +kernel : (rle4kCmdRun { referenceEnv with schedule := fun _ _ => [1, 0, 1] }
      { referenceConfig with repeats := 1, rasterThreads := 2, formats := [5] } []).isSome)
  have hsame : SameMeasurement
      { referenceConfig with repeats := 1, rasterThreads := 2, formats := [5] }
      referenceConfig := rfl
  have hcolumn := (formats_side_by_side (referenceEnv_deterministic referenceEnv.schedule)
    referenceConfig []).2 result hrun 1 5 (by decide)
  exact ⟨result, result', hrun, hrun', hcolumn
    { referenceEnv with schedule := fun _ _ => [1, 0, 1] }
    { referenceConfig with repeats := 1, rasterThreads := 2, formats := [5] } result'
    (referenceEnv_deterministic fun _ _ => [1, 0, 1]) ⟨rfl, rfl, rfl, rfl⟩ hsame rfl hrun'⟩

end

end Redcli
