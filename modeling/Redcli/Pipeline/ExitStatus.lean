import Redcli.Pipeline.Containment
import Redcli.Pipeline.Verdict

/-!
# The Exit Status

What the exit status `0` of `rle4k_cmd_run` says about a run. The status is computed from the
number of load failures and the number of records; whether a file was skipped, whether a
verdict is negative and whether the CSV was written does not enter.

## Main results

* `status_eq_zero_iff`: the status is `0` exactly if no file fails to load and some file has
  layers;
* `success_of_status_iff`: when the status `0` means success;
* `status_zero_of_failures`: a run with a negative verdict and without its CSV has status `0`.
-/

namespace Redcli

section

variable (env : Environment) (cfg : BenchConfig) (csvPath : Text)

/-- The input files of a run. -/
def inputFiles : List Text :=
  if cfg.inputPath.isEmpty then [] else (collectFiles env (limitConfig cfg)).getD []

/-- The success of a run: every input file was loaded and has a record, no record has the
verdict `FAIL`, and the CSV was written if it was asked for. -/
structure Success (result : RunResult) : Prop where
  loaded : ∀ file ∈ inputFiles env cfg, loadFails env file = false
  recorded : ∀ file ∈ inputFiles env cfg, ∃ r, (file, r) ∈ result.allFiles
  passed : ∀ v ∈ result.allFiles, ∀ fr ∈ v.2.fmts,
    consoleChk cfg fr ≠ some "FAIL" ∧ csvChk cfg fr ≠ "FAIL"
  written : csvPath ≠ [] → result.csvWritten = some true

/-- A document with a layer is loaded from a file. -/
def HasLayers (file : Text) : Prop := ∃ doc, Measured env file doc

/-- No block of a file fails its check, in any format with a decoder. -/
def BlocksPass (p : RunParams) (fmts : List ℤ) (file : Text) : Prop :=
  ∀ doc g, Measured env file doc → imageGeometry doc p = some g →
    ∀ fi enc, fmts[fi]? = some enc.getSupportedFormat.value → enc ≠ .brotli →
      ∀ col < g.ncols.toNat, ∀ w ∈ windows g.nrows p.cacheBlocks, ∀ rep < p.repeats.toNat,
        ∀ slot < w.2.toNat, ¬ SlotFails env p doc enc (windowSite file fi (col : ℤ) w.1) rep slot

/-- Every input file has layers, no block that is checked fails, and the CSV can be written. -/
structure NothingFails : Prop where
  layers : ∀ file ∈ inputFiles env cfg, HasLayers env file
  blocks : cfg.checkEnabled ≠ 0 → cfg.encodeEnabled ≠ 0 → cfg.decodeEnabled ≠ 0 →
    ∀ p, runParams cfg = some p → ∀ file ∈ inputFiles env cfg,
      BlocksPass env p (resolveFormats cfg.formats) file
  writable : csvPath ≠ [] → env.fileWritable csvPath = true

end

variable {env : Environment} {cfg : BenchConfig} {csvPath : Text} {result : RunResult}

/-! ## Runs -/

/-- A run without input files has no record, and status `1`. -/
private theorem status_of_no_files (hrun : rle4kCmdRun env cfg csvPath = some result)
    (hnone : inputFiles env cfg = []) : result.allFiles = [] ∧ result.status = 1 := by
  unfold rle4kCmdRun at hrun
  dsimp only at hrun
  have hpath : (limitConfig cfg).inputPath = cfg.inputPath := rfl
  rw [hpath] at hrun
  unfold inputFiles at hnone
  -- the path is empty, or no file was collected
  split_ifs at hrun hnone with hempty
  · obtain rfl := Option.some.inj hrun
    exact ⟨rfl, rfl⟩
  · obtain ⟨files, hfiles, hrun⟩ := Option.bind_eq_some_iff.mp hrun
    rw [hfiles, Option.getD_some] at hnone
    subst hnone
    obtain rfl := Option.some.inj hrun
    exact ⟨rfl, rfl⟩

/-- A run with input files is the loop over these files. -/
private theorem runFiles_of_files (hrun : rle4kCmdRun env cfg csvPath = some result)
    (hsome : inputFiles env cfg ≠ []) :
    ∃ stripWidth, resolveStripWidth (limitConfig cfg) = some stripWidth ∧
      runFiles env { limitConfig cfg with stripWidth := stripWidth } csvPath
        (inputFiles env cfg) = some result := by
  unfold rle4kCmdRun at hrun
  dsimp only at hrun
  have hpath : (limitConfig cfg).inputPath = cfg.inputPath := rfl
  rw [hpath] at hrun
  unfold inputFiles at hsome ⊢
  split_ifs at hrun hsome ⊢ with hempty
  · exact absurd rfl hsome
  · obtain ⟨files, hfiles, hrun⟩ := Option.bind_eq_some_iff.mp hrun
    rw [hfiles, Option.getD_some] at hsome ⊢
    split_ifs at hrun with hnone
    · exact absurd (List.isEmpty_iff.mp hnone) hsome
    · exact Option.bind_eq_some_iff.mp hrun

/-- A file that is processed and loaded has a record exactly if it has layers. -/
private theorem exists_report_iff {p : RunParams} {fmts : List ℤ} {file : Text}
    (hprocess : ∃ outcome, processFile env p fmts file = some outcome) :
    (∃ r, processFile env p fmts file = some (.report r)) ↔ HasLayers env file := by
  constructor
  · rintro ⟨r, hr⟩
    obtain ⟨hexists, doc, g, faccs, hload, hlayers, -⟩ := processFile_eq_report_iff.mp hr
    exact ⟨doc, hexists, hload, hlayers⟩
  · rintro ⟨doc, hexists, hload, hlayers⟩
    -- with layers, what the file was processed to is a report
    obtain ⟨outcome, houtcome⟩ := hprocess
    cases outcome with
    | loadFailure =>
        have hfails := processFile_eq_loadFailure_iff.mp houtcome
        simp [loadFails, hexists, hload, Except.isOk, Except.toBool] at hfails
    | skipped =>
        obtain ⟨-, hnone | ⟨doc', hdoc', hempty⟩⟩ := processFile_eq_skipped_iff.mp houtcome
        · rw [hload] at hnone
          cases hnone
        · rw [hload] at hdoc'
          cases hdoc'
          exact absurd hempty hlayers
    | report r => exact ⟨r, houtcome⟩

/-! ## Verdicts -/

/-- The verdict `FAIL` is shown exactly for a negative result under a check. -/
private theorem chk_ne_fail_iff {fr : FmtResult} :
    consoleChk cfg fr ≠ some "FAIL" ∧ csvChk cfg fr ≠ "FAIL" ↔
      (cfg.checkEnabled ≠ 0 → fr.ok = true) := by
  unfold consoleChk csvChk
  by_cases hcheck : cfg.checkEnabled = 0
  · simp [hcheck]
  · cases fr.ok <;> simp [hcheck]

/-- No result of a record is negative exactly if no block fails its check. -/
private theorem results_pass_iff {p : RunParams} {ids : List ℤ} {file : Text} {r : FileRecord}
    (h : processFile env p (resolveFormats ids) file = some (.report r))
    (hdecode : p.doDecode = true → p.doEncode = true) :
    (∀ fr ∈ r.fmts, fr.ok = true) ↔
      (p.doCheck = true → p.doDecode = true → BlocksPass env p (resolveFormats ids) file) := by
  constructor
  · intro hok hcheck hdec doc g hdoc hg fi enc hfmt hbrotli col hcol w hw rep hrep slot hslot hfail
    obtain ⟨doc', g', hload, hg', -, hresult⟩ := result_of_report h hfmt
    obtain rfl : doc = doc' := by simpa [hload] using hdoc.2.1.symm
    obtain rfl : g = g' := Option.some.inj (hg.symm.trans hg')
    have hneg := (formatAcc_ok_eq_false_iff (hdecode hdec) hdec hcheck hbrotli).mpr
      ⟨col, hcol, w, hw, rep, hrep, slot, hslot, hfail⟩
    have hpos : (formatAcc env p doc enc file fi g.nrows g.ncols).ok = true :=
      hok _ (List.mem_of_getElem? hresult)
    rw [hneg] at hpos
    cases hpos
  · intro hpass fr hfr
    obtain ⟨fi, enc, hfmt, hget⟩ := format_of_mem_fmts h hfr
    obtain ⟨doc, g, hload, hg, -, hresult⟩ := result_of_report h hfmt
    obtain rfl := Option.some.inj (hget.symm.trans hresult)
    show (formatAcc env p doc enc file fi g.nrows g.ncols).ok = true
    -- a format without a decoder passes
    by_cases hbrotli : enc = .brotli
    · exact formatAcc_ok_of_unverified (.inl hbrotli)
    · by_contra hneg
      obtain ⟨hexists, doc', g', _, hload', hlayers, -⟩ := processFile_eq_report_iff.mp h
      obtain rfl : doc = doc' := by simpa [hload] using hload'
      -- a negative verdict comes from a check after the decode phase
      by_cases hon : p.doDecode = true ∧ p.doCheck = true
      · obtain ⟨hdec, hcheck⟩ := hon
        obtain ⟨col, hcol, w, hw, rep, hrep, slot, hslot, hfail⟩ :=
          (formatAcc_ok_eq_false_iff (hdecode hdec) hdec hcheck hbrotli).mp
            (Bool.not_eq_true _ ▸ hneg)
        exact hpass hcheck hdec doc g ⟨hexists, hload, hlayers⟩ hg fi enc hfmt hbrotli col hcol w
          hw rep hrep slot hslot hfail
      · exact hneg (formatAcc_ok_iff.mpr fun hdec hcheck => absurd ⟨hdec, hcheck⟩ hon)

/-! ## The status -/

/-- The records and the status of a run with input files. -/
private theorem results_of_files (hrun : rle4kCmdRun env cfg csvPath = some result)
    (hsome : inputFiles env cfg ≠ []) :
    ∃ p, runParams cfg = some p ∧
      (∀ file r, (file, r) ∈ result.allFiles ↔ file ∈ inputFiles env cfg ∧
        processFile env p (resolveFormats cfg.formats) file = some (.report r)) ∧
      (∀ file ∈ inputFiles env cfg,
        (∃ r, (file, r) ∈ result.allFiles) ↔ HasLayers env file) ∧
      result.csvWritten = (if csvPath.isEmpty then none else some (env.fileWritable csvPath)) ∧
      result.status =
        if (inputFiles env cfg).any (loadFails env) ∨ result.allFiles.isEmpty then 1 else 0 := by
  obtain ⟨stripWidth, hwidth, hfiles⟩ := runFiles_of_files hrun hsome
  obtain ⟨hprocess, hall, hcsv, hstatus⟩ := runFiles_eq_some_iff.mp hfiles
  -- the strip width is the only setting that is replaced
  have hids : ({ limitConfig cfg with stripWidth := stripWidth } : BenchConfig).formats =
      cfg.formats := rfl
  rw [hids] at hprocess hall
  have hmem : ∀ file r, (file, r) ∈ result.allFiles ↔ file ∈ inputFiles env cfg ∧
      processFile env (RunParams.ofConfig { limitConfig cfg with stripWidth := stripWidth })
        (resolveFormats cfg.formats) file = some (.report r) := by
    intro file r
    rw [hall, List.mem_flatMap]
    simp only [mem_recordsOf_iff]
    constructor
    · rintro ⟨_, hfile, rfl, hr⟩
      exact ⟨hfile, hr⟩
    · rintro ⟨hfile, hr⟩
      exact ⟨file, hfile, rfl, hr⟩
  refine ⟨_, by rw [runParams, hwidth, Option.map_some], hmem, fun file hfile => ?_, hcsv, hstatus⟩
  simp only [hmem, hfile, true_and]
  exact exists_report_iff (hprocess file hfile)

/-- Every record of a run is that of an input file. -/
theorem mem_inputFiles_of_mem_allFiles (hrun : rle4kCmdRun env cfg csvPath = some result)
    {file : Text} {r : FileRecord} (hr : (file, r) ∈ result.allFiles) :
    file ∈ inputFiles env cfg := by
  by_cases hnone : inputFiles env cfg = []
  · rw [(status_of_no_files hrun hnone).1] at hr
    exact absurd hr List.not_mem_nil
  · obtain ⟨_, -, hmem, -⟩ := results_of_files hrun hnone
    exact ((hmem file r).mp hr).1

/-- The status is `0` exactly if no file fails to load and some file has layers. -/
theorem status_eq_zero_iff (hrun : rle4kCmdRun env cfg csvPath = some result) :
    result.status = 0 ↔ (∀ file ∈ inputFiles env cfg, loadFails env file = false) ∧
      ∃ file ∈ inputFiles env cfg, HasLayers env file := by
  by_cases hnone : inputFiles env cfg = []
  · rw [(status_of_no_files hrun hnone).2]
    simp [hnone]
  obtain ⟨p, -, hmem, hreport, -, hstatus⟩ := results_of_files hrun hnone
  -- a record stands for a file with layers
  have hempty : result.allFiles.isEmpty = true ↔
      ∀ file ∈ inputFiles env cfg, ¬ HasLayers env file := by
    rw [List.isEmpty_iff, List.eq_nil_iff_forall_not_mem]
    constructor
    · intro hnot file hfile hlayers
      obtain ⟨r, hr⟩ := (hreport file hfile).mpr hlayers
      exact hnot _ hr
    · rintro hnot ⟨file, r⟩ hr
      have hfile := ((hmem file r).mp hr).1
      exact hnot file hfile ((hreport file hfile).mp ⟨r, hr⟩)
  rw [hstatus]
  split_ifs with hbad
  · refine iff_of_false (by decide) ?_
    rintro ⟨hloaded, file, hfile, hlayers⟩
    rcases hbad with hany | hnot
    · obtain ⟨file', hfile', hfails⟩ := List.any_eq_true.mp hany
      rw [hloaded file' hfile'] at hfails
      cases hfails
    · exact hempty.mp hnot file hfile hlayers
  · rw [not_or, hempty] at hbad
    push Not at hbad
    refine iff_of_true rfl ⟨fun file hfile => ?_, hbad.2⟩
    exact Bool.eq_false_iff.mpr fun hfails => hbad.1 (List.any_eq_true.mpr ⟨file, hfile, hfails⟩)

/-- A run that loads every file is a success exactly if nothing else fails. -/
theorem success_iff (hrun : rle4kCmdRun env cfg csvPath = some result)
    (hsome : inputFiles env cfg ≠ [])
    (hloaded : ∀ file ∈ inputFiles env cfg, loadFails env file = false) :
    Success env cfg csvPath result ↔ NothingFails env cfg csvPath := by
  obtain ⟨p, hp, hmem, hreport, hcsv, -⟩ := results_of_files hrun hsome
  obtain ⟨henc, hdec, hchk⟩ := switches_of_runParams hp
  have hdecode : p.doDecode = true → p.doEncode = true := by
    rw [hdec, henc]
    exact fun hon => (Bool.and_eq_true_iff.mp hon).1
  constructor
  · intro h
    constructor
    case layers => exact fun file hfile => (hreport file hfile).mp (h.recorded file hfile)
    -- under a check, a result that is not shown as `FAIL` is positive
    case blocks =>
      intro hcheck hencode hdecode' p' hp' file hfile
      obtain rfl : p = p' := Option.some.inj (hp.symm.trans hp')
      obtain ⟨r, hr⟩ := h.recorded file hfile
      exact (results_pass_iff ((hmem file r).mp hr).2 hdecode).mp
        (fun fr hfr => chk_ne_fail_iff.mp (h.passed _ hr fr hfr) hcheck)
        (by simp [hchk, hcheck]) (by simp [hdec, hencode, hdecode'])
    case writable =>
      intro hpath
      have hwritten := h.written hpath
      rw [hcsv, if_neg (by rwa [List.isEmpty_iff])] at hwritten
      exact Option.some.inj hwritten
  · intro h
    constructor
    case loaded => exact hloaded
    case recorded => exact fun file hfile => (hreport file hfile).mpr (h.layers file hfile)
    case passed =>
      rintro ⟨file, r⟩ hr fr hfr
      obtain ⟨hfile, hprocess⟩ := (hmem file r).mp hr
      refine chk_ne_fail_iff.mpr fun hcheck => ?_
      refine (results_pass_iff hprocess hdecode).mpr (fun _ hon => ?_) fr hfr
      rw [hdec, Bool.and_eq_true, decide_eq_true_eq, decide_eq_true_eq] at hon
      exact h.blocks hcheck hon.1 hon.2 p hp file hfile
    case written =>
      intro hpath
      rw [hcsv, if_neg (by rwa [List.isEmpty_iff]), h.writable hpath]

/-- The status `0` of a run means success exactly if some file cannot be loaded or no file has
layers (the status is then `1`), or if nothing else goes wrong: no file is without layers, no
block fails its check, and the CSV can be written. -/
theorem success_of_status_iff (hrun : rle4kCmdRun env cfg csvPath = some result) :
    (result.status = 0 → Success env cfg csvPath result) ↔
      (∃ file ∈ inputFiles env cfg, loadFails env file = true) ∨
        (∀ file ∈ inputFiles env cfg, ¬ HasLayers env file) ∨ NothingFails env cfg csvPath := by
  by_cases hzero : result.status = 0
  · -- the status is `0`, whatever happened to the blocks and to the CSV
    obtain ⟨hloaded, file, hfile, hlayers⟩ := (status_eq_zero_iff hrun).mp hzero
    rw [success_iff hrun (List.ne_nil_of_mem hfile) hloaded]
    constructor
    · exact fun h => .inr (.inr (h hzero))
    · rintro (⟨file', hfile', hfails⟩ | hnone | h) -
      · rw [hloaded file' hfile'] at hfails
        cases hfails
      · exact absurd hlayers (hnone file hfile)
      · exact h
  · refine iff_of_true (fun h => absurd h hzero) ?_
    rw [status_eq_zero_iff hrun, not_and_or] at hzero
    push Not at hzero
    rcases hzero with ⟨file, hfile, hfails⟩ | hnone
    · exact .inl ⟨file, hfile, Bool.eq_true_of_not_eq_false hfails⟩
    · exact .inr (.inl hnone)

/-- The status of the reference run. -/
theorem success_of_status_referenceRun :
    ∃ result, rle4kCmdRun referenceEnv referenceConfig [] = some result ∧
      ((result.status = 0 → Success referenceEnv referenceConfig [] result) ↔
        (∃ file ∈ inputFiles referenceEnv referenceConfig, loadFails referenceEnv file = true) ∨
          (∀ file ∈ inputFiles referenceEnv referenceConfig, ¬ HasLayers referenceEnv file) ∨
            NothingFails referenceEnv referenceConfig []) := by
  obtain ⟨result, r, hrun, -⟩ := referenceRun
  exact ⟨result, hrun, success_of_status_iff hrun⟩

/-- The GZIP round trip fails, which the record shows, and the CSV is not written; the status
is `0`. -/
theorem status_zero_of_failures :
    ∃ result, rle4kCmdRun failingEnv referenceConfig ['c'] = some result ∧ result.status = 0 ∧
      (∃ v ∈ result.allFiles, ∃ fr ∈ v.2.fmts, fr.name = "GZIP" ∧
        csvChk referenceConfig fr = "FAIL") ∧
      result.csvWritten = some false ∧ ¬ Success failingEnv referenceConfig ['c'] result := by
  have hresult : (rle4kCmdRun failingEnv referenceConfig ['c']).map (fun result =>
      (result.status, result.csvWritten,
        result.allFiles.map fun v => v.2.fmts.map fun fr =>
          (fr.name, csvChk referenceConfig fr))) =
      some (0, some false, [[("GZIP", "FAIL"), ("BROTLI", "OK")]]) := by decide +kernel
  obtain ⟨result, hrun, hresult⟩ := Option.map_eq_some_iff.mp hresult
  simp only [Prod.mk.injEq] at hresult
  obtain ⟨hstatus, hcsv, hfiles⟩ := hresult
  refine ⟨result, hrun, hstatus, ?_, hcsv, fun h => ?_⟩
  · obtain ⟨v, hv, hfmts⟩ := List.mem_map.mp (hfiles ▸ List.mem_singleton_self _)
    have hmem : ("GZIP", "FAIL") ∈ v.2.fmts.map fun fr => (fr.name, csvChk referenceConfig fr) := by
      rw [hfmts]
      exact List.mem_cons_self
    obtain ⟨fr, hfr, heq⟩ := List.mem_map.mp hmem
    obtain ⟨hname, hchk⟩ := Prod.mk.inj heq
    exact ⟨v, hv, fr, hfr, hname, hchk⟩
  · have := h.written (by decide)
    rw [hcsv] at this
    cases this

end Redcli
