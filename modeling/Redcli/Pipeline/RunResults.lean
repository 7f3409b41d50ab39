import Redcli.Pipeline.MeasurementResults
import Redcli.Pipeline.Run

/-!
# Results of a Run

What is known about a run that ends normally: where its records come from.

## Main results

* `runFiles_eq_some_iff`: a run ends normally exactly if every file is processed, and its
  records are those of its files;
* `processFile_eq_report_iff`: where a record comes from;
* `fileRecord_fmts_getElem?`: the results of a record are those of the formats of the run, in
  order.
-/

namespace Redcli

/-! ## Formats -/

/-- Every format of the format list has an encoder. -/
theorem getEncoder_of_mem_resolveFormats {ids : List ℤ} {fmt : ℤ}
    (h : fmt ∈ resolveFormats ids) : ∃ enc, getEncoder fmt = some enc := by
  rw [← Option.isSome_iff_exists]
  unfold resolveFormats at h
  dsimp only at h
  split_ifs at h with hempty
  · have hall : ∀ fmt ∈ ([0x4, 0x7, 0xB, 0xA, 0x8, 0xF] : List ℤ), (getEncoder fmt).isSome := by
      decide
    exact hall fmt h
  · rw [List.mem_filter, List.mem_map] at h
    obtain ⟨⟨id, -, rfl⟩, hnonneg⟩ := h
    exact mapFormatId_nonneg (of_decide_eq_true hnonneg)

/-- At each position of the format list stands the format of an encoder. -/
theorem exists_format_of_lt {ids : List ℤ} {fi : ℕ} (h : fi < (resolveFormats ids).length) :
    ∃ enc : FormatEncoder, (resolveFormats ids)[fi]? = some enc.getSupportedFormat.value := by
  obtain ⟨enc, henc⟩ := getEncoder_of_mem_resolveFormats (List.getElem_mem h)
  refine ⟨enc, ?_⟩
  rw [List.getElem?_eq_getElem h, getEncoder_eq_some_iff.mp henc]

variable {env : Environment} {p : RunParams} {doc : CadDocument} {file : Text} {ncols nrows : ℤ}
  {fmts : List ℤ} {faccs : List FmtAcc}

/-- Each format of the list is measured at its own position. -/
theorem measureFormats_getElem? (h : measureFormats env p doc file ncols nrows fmts = some faccs)
    {fi : ℕ} {fmt : ℤ} {enc : FormatEncoder} (hfmt : fmts[fi]? = some fmt)
    (henc : getEncoder fmt = some enc) :
    ∃ acc, faccs[fi]? = some acc ∧
      measureFormat env p doc enc file ncols nrows fi = some acc := by
  rw [measureFormats, Accumulate.mapM_eq_some_iff, List.forall₂_iff_get] at h
  obtain ⟨hlength, hget⟩ := h
  obtain ⟨hfi, rfl⟩ := List.getElem?_eq_some_iff.mp hfmt
  have hfi' : fi < faccs.length := by
    rw [← hlength, List.length_zipIdx]
    exact hfi
  refine ⟨faccs[fi], List.getElem?_eq_getElem hfi', ?_⟩
  have := hget fi (by rw [List.length_zipIdx]; exact hfi) hfi'
  simpa [henc] using this

/-- A filter that drops nothing keeps the positions. -/
private theorem filterMap_getElem? {α β : Type} {f : α → Option β} {l : List α}
    (hall : ∀ x ∈ l, (f x).isSome) (i : ℕ) : (l.filterMap f)[i]? = l[i]?.bind f := by
  induction l generalizing i with
  | nil => rfl
  | cons x l ih =>
      obtain ⟨y, hy⟩ := Option.isSome_iff_exists.mp (hall x List.mem_cons_self)
      rw [List.filterMap_cons_some hy]
      cases i with
      | zero => exact hy.symm
      | succ i => exact ih (fun x hx => hall x (List.mem_cons_of_mem _ hx)) i

/-- The position of a format in the report is its position in the format list. -/
theorem fileRecord_fmts_getElem? (hall : ∀ fmt ∈ fmts, ∃ enc, getEncoder fmt = some enc)
    {dMs : ℚ} {g : Geometry} {fi : ℕ} {fmt : ℤ} {enc : FormatEncoder} {acc : FmtAcc}
    (hfmt : fmts[fi]? = some fmt) (henc : getEncoder fmt = some enc)
    (hacc : faccs[fi]? = some acc) :
    (fileRecord file dMs g fmts faccs).fmts[fi]? = some (fmtResult enc acc) := by
  have hzip : (fmts.zip faccs)[fi]? = some (fmt, acc) :=
    List.getElem?_zip_eq_some.mpr ⟨hfmt, hacc⟩
  have hsome : ∀ x ∈ fmts.zip faccs,
      ((getEncoder x.1).map fun enc => fmtResult enc x.2).isSome := by
    intro x hx
    obtain ⟨enc, henc⟩ := hall x.1 (List.of_mem_zip hx).1
    rw [henc]
    rfl
  rw [fileRecord, filterMap_getElem? hsome, hzip, Option.bind_some, henc]
  rfl

/-! ## Files -/

/-- A record comes from a document that was loaded, has a geometry and was measured. -/
theorem processFile_eq_report_iff {r : FileRecord} :
    processFile env p fmts file = some (.report r) ↔
      env.fileExists file = some true ∧ ∃ doc g faccs, env.load file = .ok (some doc) ∧
        doc.layerCount ≠ 0 ∧ imageGeometry doc p = some g ∧
        measureFormats env p doc file g.ncols g.nrows fmts = some faccs ∧
        r = fileRecord file (env.loadMs file) g fmts faccs := by
  unfold processFile
  -- the file is missing, or its loader throws, finds nothing or finds a document
  rcases hexists : env.fileExists file with _ | _ | _
  · simp
  · simp
  · rcases hload : env.load file with failure | _ | doc
    · simp
    · simp
    · by_cases hlayers : doc.layerCount = 0
      · simp [hlayers]
      · simp [hlayers, Option.bind_eq_some_iff, @eq_comm _ r]

instance : Zero FilesAcc := ⟨{}⟩

instance : Add FilesAcc where
  add a b :=
    { allFiles := a.allFiles ++ b.allFiles
      loadFailures := a.loadFailures + b.loadFailures }

@[ext]
theorem FilesAcc.ext {a b : FilesAcc} (hfiles : a.allFiles = b.allFiles)
    (hfailures : a.loadFailures = b.loadFailures) : a = b := by
  cases a
  cases b
  congr

instance : AddMonoid FilesAcc where
  add_assoc _ _ _ := FilesAcc.ext (List.append_assoc _ _ _) (Nat.add_assoc _ _ _)
  zero_add _ := FilesAcc.ext (List.nil_append _) (Nat.zero_add _)
  add_zero _ := FilesAcc.ext (List.append_nil _) (Nat.add_zero _)
  nsmul := nsmulRec

/-- The contribution of a file to the variables of the run. -/
def FileOutcome.toAcc (file : Text) : FileOutcome → FilesAcc
  | .loadFailure => { loadFailures := 1 }
  | .skipped => {}
  | .report r => { allFiles := [(file, r)] }

/-- The records of a file. -/
def recordsOf (env : Environment) (p : RunParams) (fmts : List ℤ) (file : Text) :
    List (Text × FileRecord) :=
  match processFile env p fmts file with
  | some (.report r) => [(file, r)]
  | _ => []

/-- A record of a file is one that was reported for it. -/
theorem mem_recordsOf_iff {file' : Text} {r : FileRecord} :
    (file', r) ∈ recordsOf env p fmts file ↔
      file' = file ∧ processFile env p fmts file = some (.report r) := by
  unfold recordsOf
  split
  next r' hprocess =>
    rw [hprocess, List.mem_singleton, Prod.mk.injEq]
    refine and_congr_right fun _ => ⟨?_, fun h => ?_⟩
    · rintro rfl
      rfl
    · exact (FileOutcome.report.inj (Option.some.inj h)).symm
  next hother =>
    exact ⟨fun h => absurd h List.not_mem_nil, fun h => absurd h.2 (hother r)⟩

/-- Whether a file is missing or its loader throws. -/
def loadFails (env : Environment) (file : Text) : Bool :=
  (env.fileExists file).any fun found => !found || !(env.load file).isOk

/-- A file counts as a load failure exactly if it is missing or its loader throws. -/
theorem processFile_eq_loadFailure_iff :
    processFile env p fmts file = some .loadFailure ↔ loadFails env file = true := by
  unfold processFile loadFails
  rcases hexists : env.fileExists file with _ | _ | _
  · simp
  · simp
  · rcases hload : env.load file with failure | _ | doc
    · simp [Except.isOk, Except.toBool]
    · simp [Except.isOk, Except.toBool]
    · by_cases hlayers : doc.layerCount = 0
      · simp [hlayers, Except.isOk, Except.toBool]
      · simp [hlayers, Option.bind_eq_some_iff, Except.isOk, Except.toBool]

/-- A file without a document that has a layer is skipped, whatever is measured. -/
theorem processFile_eq_skipped_iff :
    processFile env p fmts file = some .skipped ↔
      env.fileExists file = some true ∧ (env.load file = .ok none ∨
        ∃ doc, env.load file = .ok (some doc) ∧ doc.layerCount = 0) := by
  unfold processFile
  rcases hexists : env.fileExists file with _ | _ | _
  · simp
  · simp
  · rcases hload : env.load file with failure | _ | doc
    · simp
    · simp
    · by_cases hlayers : doc.layerCount = 0
      · simp [hlayers]
      · simp [hlayers, Option.bind_eq_some_iff]

/-- One round of the loop over the files. -/
private theorem fileStep_eq_some_iff {acc acc' : FilesAcc} :
    fileStep env p fmts acc file = some acc' ↔
      ∃ outcome, processFile env p fmts file = some outcome ∧ acc' = acc + outcome.toAcc file := by
  -- each outcome adds its own contribution
  have hadd : ∀ outcome : FileOutcome, acc + outcome.toAcc file =
      match outcome with
      | .loadFailure => { acc with loadFailures := acc.loadFailures + 1 }
      | .skipped => acc
      | .report r => { acc with allFiles := acc.allFiles ++ [(file, r)] } := by
    intro outcome
    cases outcome with
    | loadFailure => exact FilesAcc.ext (List.append_nil _) rfl
    | skipped => exact add_zero acc
    | report r => exact FilesAcc.ext rfl (Nat.add_zero _)
  rw [fileStep, Option.bind_eq_bind, Option.bind_eq_some_iff]
  refine exists_congr fun outcome => and_congr_right fun _ => ?_
  rw [hadd, @eq_comm _ acc']
  cases outcome <;> exact Option.some_inj

/-- The variables of the loop over the files, file by file. -/
def fileAcc (env : Environment) (p : RunParams) (fmts : List ℤ) (file : Text) : FilesAcc :=
  ((processFile env p fmts file).map (FileOutcome.toAcc file)).getD 0

/-- The records of a list of files. -/
private theorem sum_fileAcc_allFiles (files : List Text) :
    (files.map (fileAcc env p fmts)).sum.allFiles = files.flatMap (recordsOf env p fmts) := by
  induction files with
  | nil => rfl
  | cons file files ih =>
      rw [List.map_cons, List.sum_cons, List.flatMap_cons, ← ih]
      show (fileAcc env p fmts file).allFiles ++ _ = _
      congr 1
      rw [fileAcc, recordsOf]
      rcases processFile env p fmts file with _ | _ | _ | r <;> rfl

/-- The load failures of a list of files. -/
private theorem sum_fileAcc_loadFailures (files : List Text) :
    0 < (files.map (fileAcc env p fmts)).sum.loadFailures ↔ files.any (loadFails env) = true := by
  induction files with
  | nil => exact ⟨fun h => absurd h (Nat.lt_irrefl 0), fun h => absurd h Bool.false_ne_true⟩
  | cons file files ih =>
      have hfile : 0 < (fileAcc env p fmts file).loadFailures ↔ loadFails env file = true := by
        rw [← @processFile_eq_loadFailure_iff env p file fmts, fileAcc]
        rcases processFile env p fmts file with _ | _ | _ | r
        · exact iff_of_false (Nat.lt_irrefl 0) nofun
        · exact iff_of_true Nat.one_pos rfl
        · exact iff_of_false (Nat.lt_irrefl 0) nofun
        · exact iff_of_false (Nat.lt_irrefl 0) nofun
      rw [List.map_cons, List.sum_cons, List.any_cons, Bool.or_eq_true, ← ih, ← hfile]
      exact Nat.add_pos_iff_pos_or_pos

/-- **Runs, file by file.** A run ends normally exactly if every file is processed; then its
records are those of its files, and its status is `0` if no file failed to load and there is
a record. -/
theorem runFiles_eq_some_iff {cfg : BenchConfig} {csvPath : Text} {files : List Text}
    {result : RunResult} :
    runFiles env cfg csvPath files = some result ↔
      (∀ file ∈ files,
        ∃ outcome, processFile env (RunParams.ofConfig cfg) (resolveFormats cfg.formats) file =
          some outcome) ∧
      result.allFiles = files.flatMap
        (recordsOf env (RunParams.ofConfig cfg) (resolveFormats cfg.formats)) ∧
      result.csvWritten = (if csvPath.isEmpty then none else some (env.fileWritable csvPath)) ∧
      result.status = if files.any (loadFails env) ∨ result.allFiles.isEmpty then 1 else 0 := by
  -- one round of the loop adds what the file contributes
  have hround : ∀ file ∈ files, ∀ acc acc',
      fileStep env (RunParams.ofConfig cfg) (resolveFormats cfg.formats) acc file = some acc' ↔
        (∃ outcome, processFile env (RunParams.ofConfig cfg) (resolveFormats cfg.formats) file =
          some outcome) ∧
          acc' = acc + fileAcc env (RunParams.ofConfig cfg) (resolveFormats cfg.formats) file := by
    intro file _ acc acc'
    rw [fileStep_eq_some_iff, fileAcc]
    constructor
    · rintro ⟨outcome, hout, rfl⟩
      exact ⟨⟨outcome, hout⟩, by rw [hout]; rfl⟩
    · rintro ⟨⟨outcome, hout⟩, rfl⟩
      exact ⟨outcome, hout, by rw [hout]; rfl⟩
  have hzero : ({} : FilesAcc) = 0 := rfl
  rw [runFiles, hzero, Option.bind_eq_bind, Option.bind_eq_some_iff]
  simp only [Accumulate.foldlM_eq_some_iff _ _ hround, zero_add, pure, Option.some.injEq]
  have hfailures := @sum_fileAcc_loadFailures env (RunParams.ofConfig cfg)
    (resolveFormats cfg.formats) files
  simp only [← hfailures, ← sum_fileAcc_allFiles]
  constructor
  · rintro ⟨acc, ⟨hall, rfl⟩, rfl⟩
    exact ⟨hall, rfl, rfl, rfl⟩
  · rintro ⟨hall, hfiles, hcsv, hstatus⟩
    -- a result is known by its fields
    refine ⟨_, ⟨hall, rfl⟩, ?_⟩
    cases result
    simp only at hfiles hcsv hstatus
    rw [hfiles] at hstatus
    rw [hfiles, hcsv, hstatus]

/-! ## Records -/

/-- The constants of the measurement in a run. -/
def runParams (cfg : BenchConfig) : Option RunParams :=
  (resolveStripWidth (limitConfig cfg)).map fun stripWidth =>
    RunParams.ofConfig { limitConfig cfg with stripWidth := stripWidth }

/-- The switches of a run are those of its configuration. -/
theorem switches_of_runParams {cfg : BenchConfig} (h : runParams cfg = some p) :
    p.doEncode = decide (cfg.encodeEnabled ≠ 0) ∧
      p.doDecode = (decide (cfg.encodeEnabled ≠ 0) && decide (cfg.decodeEnabled ≠ 0)) ∧
      p.doCheck = decide (cfg.checkEnabled ≠ 0) := by
  obtain ⟨stripWidth, -, rfl⟩ := Option.map_eq_some_iff.mp h
  exact ⟨rfl, rfl, rfl⟩

/-- Every record of a run was reported by the loop over the files. -/
theorem processFile_of_mem_allFiles {cfg : BenchConfig} {csvPath : Text} {result : RunResult}
    (hrun : rle4kCmdRun env cfg csvPath = some result) {r : FileRecord}
    (hr : (file, r) ∈ result.allFiles) :
    ∃ p, runParams cfg = some p ∧
      processFile env p (resolveFormats cfg.formats) file = some (.report r) := by
  unfold rle4kCmdRun at hrun
  dsimp only at hrun
  -- a run without files has no record
  split_ifs at hrun with hempty
  · obtain rfl := Option.some.inj hrun
    exact absurd hr List.not_mem_nil
  · simp only [Option.bind_eq_bind, Option.bind_eq_some_iff] at hrun
    obtain ⟨files, -, hrun⟩ := hrun
    split_ifs at hrun with hnone
    · obtain rfl := Option.some.inj hrun
      exact absurd hr List.not_mem_nil
    · obtain ⟨stripWidth, hwidth, hrun⟩ := Option.bind_eq_some_iff.mp hrun
      obtain ⟨-, hfiles, -⟩ := runFiles_eq_some_iff.mp hrun
      rw [hfiles, List.mem_flatMap] at hr
      obtain ⟨file', -, hr⟩ := hr
      obtain ⟨rfl, hprocess⟩ := mem_recordsOf_iff.mp hr
      exact ⟨_, by rw [runParams, hwidth, Option.map_some], hprocess⟩

/-- The number of rows is an `int`. -/
theorem nrows_le {g : Geometry} (hg : imageGeometry doc p = some g) : g.nrows ≤ intMax := by
  simp only [imageGeometry, Option.bind_eq_bind, Option.bind_eq_some_iff, pure,
    Option.some.injEq] at hg
  obtain ⟨_, -, _, -, _, -, nrows, hnrows, rfl⟩ := hg
  exact blockCount_le hnrows

/-- The result of a format in a record is the sum over the columns of its document. -/
theorem result_of_report {ids : List ℤ} {r : FileRecord}
    (h : processFile env p (resolveFormats ids) file = some (.report r)) {fi : ℕ}
    {enc : FormatEncoder} (hfmt : (resolveFormats ids)[fi]? = some enc.getSupportedFormat.value) :
    ∃ doc g, env.load file = .ok (some doc) ∧ imageGeometry doc p = some g ∧
      (∀ col < g.ncols.toNat, ColumnCompletes env p doc enc file fi g.nrows (col : ℤ)) ∧
      r.fmts[fi]? = some (fmtResult enc (formatAcc env p doc enc file fi g.nrows g.ncols)) := by
  obtain ⟨-, doc, g, faccs, hload, -, hg, hmeasure, rfl⟩ := processFile_eq_report_iff.mp h
  have henc : getEncoder enc.getSupportedFormat.value = some enc :=
    getEncoder_eq_some_iff.mpr rfl
  obtain ⟨acc, hacc, hformat⟩ := measureFormats_getElem? hmeasure hfmt henc
  obtain ⟨hcols, rfl⟩ := (measureFormat_eq_some_iff (nrows_le hg)).mp hformat
  exact ⟨doc, g, hload, hg, hcols, fileRecord_fmts_getElem?
    (fun fmt hfmt => getEncoder_of_mem_resolveFormats hfmt) hfmt henc hacc⟩

/-- Every result in a record is that of one of the formats. -/
theorem format_of_mem_fmts {ids : List ℤ} {r : FileRecord}
    (h : processFile env p (resolveFormats ids) file = some (.report r)) {fr : FmtResult}
    (hfr : fr ∈ r.fmts) :
    ∃ (fi : ℕ) (enc : FormatEncoder),
      (resolveFormats ids)[fi]? = some enc.getSupportedFormat.value ∧ r.fmts[fi]? = some fr := by
  obtain ⟨-, doc, g, faccs, -, -, -, -, rfl⟩ := processFile_eq_report_iff.mp h
  obtain ⟨⟨fmt, acc⟩, hmem, hresult⟩ := List.mem_filterMap.mp hfr
  obtain ⟨enc, henc, rfl⟩ := Option.map_eq_some_iff.mp hresult
  obtain ⟨fi, hzip⟩ := List.mem_iff_getElem?.mp hmem
  obtain ⟨hfmt, hacc⟩ := List.getElem?_zip_eq_some.mp hzip
  refine ⟨fi, enc, by rw [hfmt, getEncoder_eq_some_iff.mp henc], ?_⟩
  exact fileRecord_fmts_getElem? (fun fmt hfmt => getEncoder_of_mem_resolveFormats hfmt) hfmt henc
    hacc

/-- A record has as many results as the run has formats. -/
theorem length_fmts_of_report {ids : List ℤ} {r : FileRecord}
    (h : processFile env p (resolveFormats ids) file = some (.report r)) :
    r.fmts.length = (resolveFormats ids).length := by
  apply le_antisymm
  · obtain ⟨-, doc, g, faccs, -, -, -, -, rfl⟩ := processFile_eq_report_iff.mp h
    refine (List.length_filterMap_le _ _).trans ?_
    rw [List.length_zip]
    exact Nat.min_le_left _ _
  · -- a format behind the last result would have a result as well
    by_contra hlt
    rw [Nat.not_le] at hlt
    obtain ⟨enc, hfmt⟩ := exists_format_of_lt hlt
    obtain ⟨_, _, -, -, -, hresult⟩ := result_of_report h hfmt
    rw [List.getElem?_eq_none le_rfl] at hresult
    cases hresult

/-- The reference run ends normally and has one record. -/
theorem referenceRun : ∃ result r, rle4kCmdRun referenceEnv referenceConfig [] = some result ∧
    (['a'], r) ∈ result.allFiles := by
  have hfiles : (rle4kCmdRun referenceEnv referenceConfig []).map
      (fun result => result.allFiles.map Prod.fst) = some [['a']] := by decide +kernel
  obtain ⟨result, hrun, hfile⟩ := Option.map_eq_some_iff.mp hfiles
  have hmem : ['a'] ∈ result.allFiles.map Prod.fst := by rw [hfile]; exact List.mem_singleton_self _
  obtain ⟨⟨file, r⟩, hr, rfl⟩ := List.mem_map.mp hmem
  exact ⟨result, r, hrun, hr⟩

end Redcli
