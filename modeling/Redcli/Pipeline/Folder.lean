import Redcli.Pipeline.CsvReport

/-!
# Folders

A run on a folder is the runs on its files, one after the other: no file has a part in what is
measured for another one, whatever becomes of it, and the order in which the folder lists its
entries, which nothing fixes, is the order of the records and of nothing else.

## Main results

* `folder_run_iff`: when a run on a folder ends normally, and its records;
* `folder_order`: what the order of the entries decides.
-/

namespace Redcli

/-- The configuration of a run on one file. -/
def onFile (cfg : BenchConfig) (file : Text) : BenchConfig :=
  { cfg with mode := 0, inputPath := file }

/-- The files that are measured of the entries of a folder. -/
def difFiles (entries : List (Text × Bool)) : List Text :=
  (entries.filter fun e => e.2 && isDifPath e.1).map Prod.fst

theorem ne_nil_of_mem_difFiles {entries : List (Text × Bool)} {file : Text}
    (hfile : file ∈ difFiles entries) : file ≠ [] := by
  obtain ⟨e, he, rfl⟩ := List.mem_map.mp hfile
  have hdif := (Bool.and_eq_true _ _ ▸ (List.mem_filter.mp he).2).2
  intro hnil
  rw [hnil] at hdif
  exact absurd hdif (by decide)

section

variable {env : Environment} {cfg : BenchConfig} {csvPath : Text} {result : RunResult}

/-- A run on one file. -/
theorem rle4kCmdRun_onFile {file : Text} (hfile : file ≠ []) :
    rle4kCmdRun env (onFile cfg file) csvPath =
      (resolveStripWidth (limitConfig cfg)).bind fun stripWidth =>
        runFiles env { limitConfig cfg with stripWidth := stripWidth } csvPath [file] := by
  have hempty : (limitConfig (onFile cfg file)).inputPath.isEmpty = false := by
    show file.isEmpty = false
    simpa using hfile
  unfold rle4kCmdRun
  dsimp only
  rw [hempty, if_neg Bool.false_ne_true]
  rfl

/-- A run on a folder. -/
theorem rle4kCmdRun_folder (hmode : cfg.mode = 1) (hpath : cfg.inputPath ≠ [])
    {entries : List (Text × Bool)} (hlist : env.directory cfg.inputPath = some entries)
    (hsome : difFiles entries ≠ []) :
    rle4kCmdRun env cfg csvPath =
      (resolveStripWidth (limitConfig cfg)).bind fun stripWidth =>
        runFiles env { limitConfig cfg with stripWidth := stripWidth } csvPath
          (difFiles entries) := by
  have hempty : (limitConfig cfg).inputPath.isEmpty = false := by
    show cfg.inputPath.isEmpty = false
    simpa using hpath
  have hcollect : collectFiles env (limitConfig cfg) = some (difFiles entries) := by
    have hmode' : (limitConfig cfg).mode = 1 := hmode
    have hlist' : env.directory (limitConfig cfg).inputPath = some entries := hlist
    rw [collectFiles, if_pos hmode', hlist']
    rfl
  unfold rle4kCmdRun
  dsimp only
  rw [hempty, if_neg Bool.false_ne_true, hcollect, Option.bind_eq_bind, Option.bind_some,
    if_neg (by simpa using hsome)]
  rfl

/-- What a run on one file leaves behind. -/
def singleResult (env : Environment) (p : RunParams) (fmts : List ℤ) (csvPath file : Text) :
    RunResult :=
  { allFiles := recordsOf env p fmts file
    csvWritten := if csvPath.isEmpty then none else some (env.fileWritable csvPath)
    status := if loadFails env file ∨ (recordsOf env p fmts file).isEmpty then 1 else 0 }

/-- A run on one file ends normally if the file is processed. -/
theorem onFile_eq_some_iff {file : Text} (hfile : file ≠ []) {stripWidth : ℤ}
    (hwidth : resolveStripWidth (limitConfig cfg) = some stripWidth) {p : RunParams}
    (hp : p = RunParams.ofConfig { limitConfig cfg with stripWidth := stripWidth }) :
    rle4kCmdRun env (onFile cfg file) csvPath = some result ↔
      (∃ outcome, processFile env p (resolveFormats cfg.formats) file = some outcome) ∧
        result = singleResult env p (resolveFormats cfg.formats) csvPath file := by
  subst hp
  rw [rle4kCmdRun_onFile hfile, hwidth, Option.bind_some, runFiles_eq_some_iff]
  simp only [List.forall_mem_singleton, List.flatMap_singleton, List.any_cons, List.any_nil,
    Bool.or_false]
  refine and_congr_right fun _ => ⟨?_, ?_⟩
  · rintro ⟨hall, hcsv, hstatus⟩
    rw [hall] at hstatus
    cases result
    exact (RunResult.mk.injEq ..).mpr ⟨hall, hcsv, hstatus⟩
  · rintro rfl
    exact ⟨rfl, rfl, rfl⟩

/-- The runs on some files, one after the other. -/
theorem forall₂_onFile {files : List Text} (hfiles : ∀ file ∈ files, file ≠ []) {stripWidth : ℤ}
    (hwidth : resolveStripWidth (limitConfig cfg) = some stripWidth) {p : RunParams}
    (hp : p = RunParams.ofConfig { limitConfig cfg with stripWidth := stripWidth })
    {singles : List RunResult} :
    List.Forall₂ (fun file single => rle4kCmdRun env (onFile cfg file) csvPath = some single)
        files singles ↔
      (∀ file ∈ files,
        ∃ outcome, processFile env p (resolveFormats cfg.formats) file = some outcome) ∧
        singles = files.map (singleResult env p (resolveFormats cfg.formats) csvPath) := by
  induction files generalizing singles with
  | nil => simp
  | cons file files ih =>
      obtain ⟨hfile, hrest⟩ := List.forall_mem_cons.mp hfiles
      rw [List.forall₂_cons_left_iff, List.forall_mem_cons, List.map_cons]
      simp only [onFile_eq_some_iff hfile hwidth hp, ih hrest]
      constructor
      · rintro ⟨_, _, ⟨hfirst, rfl⟩, ⟨hothers, rfl⟩, rfl⟩
        exact ⟨⟨hfirst, hothers⟩, rfl⟩
      · rintro ⟨⟨hfirst, hothers⟩, rfl⟩
        exact ⟨_, _, ⟨hfirst, rfl⟩, ⟨hothers, rfl⟩, rfl⟩

/-- **A run on a folder is the runs on its files.** It ends normally exactly if all of them do, and
has their records, in the order of the entries. -/
theorem folder_run_iff (hmode : cfg.mode = 1) (hpath : cfg.inputPath ≠ [])
    {entries : List (Text × Bool)} (hlist : env.directory cfg.inputPath = some entries)
    (hsome : difFiles entries ≠ []) :
    rle4kCmdRun env cfg csvPath = some result ↔
      ∃ singles, List.Forall₂ (fun file single =>
          rle4kCmdRun env (onFile cfg file) csvPath = some single) (difFiles entries) singles ∧
        result.allFiles = singles.flatMap RunResult.allFiles ∧
        (∀ single ∈ singles, single.csvWritten = result.csvWritten) ∧
        result.status =
          if (difFiles entries).any (loadFails env) ∨ result.allFiles.isEmpty then 1 else 0 := by
  rw [rle4kCmdRun_folder hmode hpath hlist hsome]
  have hne : ∀ file ∈ difFiles entries, file ≠ [] := fun file hfile => ne_nil_of_mem_difFiles hfile
  obtain ⟨first, others, hfiles⟩ := List.exists_cons_of_ne_nil hsome
  cases hwidth : resolveStripWidth (limitConfig cfg) with
  | none =>
      -- then the run on the first file ends abnormally as well
      refine iff_of_false nofun ?_
      rintro ⟨singles, hall, -⟩
      rw [hfiles, List.forall₂_cons_left_iff] at hall
      obtain ⟨single, _, hfirst, -⟩ := hall
      rw [rle4kCmdRun_onFile (hne first (hfiles ▸ List.mem_cons_self)), hwidth] at hfirst
      cases hfirst
  | some stripWidth =>
      rw [Option.bind_some, runFiles_eq_some_iff]
      generalize hp : RunParams.ofConfig { limitConfig cfg with stripWidth := stripWidth } = p
      simp only [forall₂_onFile hne hwidth hp.symm]
      constructor
      · rintro ⟨hall, hrecords, hcsv, hstatus⟩
        refine ⟨_, ⟨hall, rfl⟩, ?_, ?_, hstatus⟩
        · rw [hrecords, List.flatMap_map]
          rfl
        · intro single hsingle
          obtain ⟨file, -, rfl⟩ := List.mem_map.mp hsingle
          exact hcsv.symm
      · rintro ⟨singles, ⟨hall, rfl⟩, hrecords, hcsv, hstatus⟩
        refine ⟨hall, ?_, ?_, hstatus⟩
        · rw [hrecords, List.flatMap_map]
          rfl
        · have hfirst : first ∈ difFiles entries := hfiles ▸ List.mem_cons_self
          exact (hcsv _ (List.mem_map_of_mem hfirst)).symm

/-! ## The order of the entries -/

theorem difFiles_perm {entries entries' : List (Text × Bool)} (h : entries.Perm entries') :
    (difFiles entries).Perm (difFiles entries') :=
  (h.filter _).map _

/-- The reports of two lists of records have the same head, and behind it the row of each record,
in two orders. -/
structure SameReport (num : NumberFormat) (cfg : BenchConfig) (files files' : List FileRecord) :
    Prop where
  text : csvText num cfg files =
    csvHead cfg files ++ (files.map (csvLine num cfg)).flatten
  text' : csvText num cfg files' =
    csvHead cfg files ++ (files'.map (csvLine num cfg)).flatten
  lines : (files.map (csvLine num cfg)).Perm (files'.map (csvLine num cfg))

/-- What the order of the files decides. -/
structure SameUpToOrder (cfg : BenchConfig) (result result' : RunResult) : Prop where
  records : result.allFiles.Perm result'.allFiles
  csvWritten : result.csvWritten = result'.csvWritten
  status : result.status = result'.status
  csv : ∀ num, SameReport num cfg (result.allFiles.map Prod.snd) (result'.allFiles.map Prod.snd)

/-- Runs on the same files in two orders. -/
theorem runFiles_perm {files files' : List Text} (hperm : files.Perm files')
    (dir : Text → Option (List (Text × Bool)))
    (hrun : runFiles env cfg csvPath files = some result) :
    ∃ result', runFiles { env with directory := dir } cfg csvPath files' = some result' ∧
      result.allFiles.Perm result'.allFiles ∧ result.csvWritten = result'.csvWritten ∧
      result.status = result'.status := by
  obtain ⟨hall, hrecords, hcsv, hstatus⟩ := runFiles_eq_some_iff.mp hrun
  set records := recordsOf env (RunParams.ofConfig cfg) (resolveFormats cfg.formats) with hdef
  have hpermuted : result.allFiles.Perm (files'.flatMap records) := by
    rw [hrecords]
    exact hperm.flatMap_right records
  have hstatus' : result.status =
      if files'.any (loadFails env) ∨ (files'.flatMap records).isEmpty then 1 else 0 := by
    have hany : files.any (loadFails env) = files'.any (loadFails env) := hperm.any_eq
    rw [hstatus, hany, hpermuted.isEmpty_eq]
  refine ⟨⟨files'.flatMap records, result.csvWritten, result.status⟩,
    runFiles_eq_some_iff.mpr ?_, hpermuted, rfl, rfl⟩
  exact ⟨fun file hfile => hall file (hperm.mem_iff.mpr hfile), rfl, hcsv, hstatus'⟩

/-- The columns of a header are known from the names of the formats. -/
theorem flatMap_csvHeader {results results' : List FmtResult}
    (hnames : results.map FmtResult.name = results'.map FmtResult.name) :
    results.flatMap (csvHeader cfg) = results'.flatMap (csvHeader cfg) := by
  have hname : ∀ results : List FmtResult, results.flatMap (csvHeader cfg) =
      (results.map FmtResult.name).flatMap fun name => (metrics cfg).flatMap fun m =>
        ',' :: (name.toList ++ m.suffix.toList) := by
    intro results
    rw [List.flatMap_map]
    exact List.flatMap_congr fun r _ => csvHeader_eq r
  rw [hname, hname, hnames]

/-- The records of a run name the same formats. -/
theorem names_of_mem_allFiles (hrun : rle4kCmdRun env cfg csvPath = some result)
    {v w : Text × FileRecord} (hv : v ∈ result.allFiles) (hw : w ∈ result.allFiles) :
    v.2.fmts.map FmtResult.name = w.2.fmts.map FmtResult.name := by
  obtain ⟨p, -, hprocess⟩ := processFile_of_mem_allFiles hrun hv
  obtain ⟨p', -, hprocess'⟩ := processFile_of_mem_allFiles hrun hw
  refine List.ext_getElem? fun fi => ?_
  rw [List.getElem?_map, List.getElem?_map, (resultsAligned_of_report hprocess).name,
    (resultsAligned_of_report hprocess').name]

/-- The head is the same whichever of the records is the first. -/
theorem csvHead_perm {files files' : List FileRecord} (hperm : files.Perm files')
    (hnames : ∀ r ∈ files, ∀ r' ∈ files, r.fmts.map FmtResult.name = r'.fmts.map FmtResult.name) :
    csvHead cfg files = csvHead cfg files' := by
  cases files with
  | nil => rw [hperm.nil_eq]
  | cons r rest =>
      cases files' with
      | nil => exact absurd hperm.eq_nil (List.cons_ne_nil r rest)
      | cons r' rest' =>
          -- the first records have the same columns
          have hcolumns : r.fmts.flatMap (csvHeader cfg) = r'.fmts.flatMap (csvHeader cfg) :=
            flatMap_csvHeader (hnames r List.mem_cons_self r'
              (hperm.mem_iff.mpr List.mem_cons_self))
          simp only [csvHead, List.head?_cons, Option.elim_some, hcolumns]

/-- The reports of the same records in two orders. -/
theorem csvText_perm (num : NumberFormat) {files files' : List FileRecord}
    (hperm : files.Perm files')
    (hnames : ∀ r ∈ files, ∀ r' ∈ files, r.fmts.map FmtResult.name = r'.fmts.map FmtResult.name) :
    SameReport num cfg files files' where
  text := csvText_eq_csvHead_append num cfg files
  text' := by rw [csvText_eq_csvHead_append, csvHead_perm hperm hnames]
  lines := hperm.map _

/-- **Only the records are in the order of the entries.** If folders list their entries in another
order, a run ends normally all the same, with the same records, the same status, and a report with
the same head and the same lines, in another order. -/
theorem folder_order {dir : Text → Option (List (Text × Bool))}
    (hperm : ∀ path, Option.Rel List.Perm (env.directory path) (dir path))
    (hrun : rle4kCmdRun env cfg csvPath = some result) :
    ∃ result', rle4kCmdRun { env with directory := dir } cfg csvPath = some result' ∧
      SameUpToOrder cfg result result' := by
  have hresults : ∃ result', rle4kCmdRun { env with directory := dir } cfg csvPath = some result' ∧
      result.allFiles.Perm result'.allFiles ∧ result.csvWritten = result'.csvWritten ∧
      result.status = result'.status := by
    -- the files that are collected are the same
    have hcollect : Option.Rel List.Perm (collectFiles env (limitConfig cfg))
        (collectFiles { env with directory := dir } (limitConfig cfg)) := by
      unfold collectFiles
      by_cases hmode : (limitConfig cfg).mode = 1
      · rw [if_pos hmode, if_pos hmode]
        have hentries := hperm (limitConfig cfg).inputPath
        show Option.Rel List.Perm ((env.directory (limitConfig cfg).inputPath).map difFiles)
          ((dir (limitConfig cfg).inputPath).map difFiles)
        generalize env.directory (limitConfig cfg).inputPath = listed at hentries ⊢
        generalize dir (limitConfig cfg).inputPath = listed' at hentries ⊢
        cases hentries with
        | none => exact .none
        | some h => exact .some (difFiles_perm h)
      · rw [if_neg hmode, if_neg hmode]
        exact .some (List.Perm.refl _)
    unfold rle4kCmdRun at hrun ⊢
    dsimp only at hrun ⊢
    by_cases hempty : (limitConfig cfg).inputPath.isEmpty = true
    · rw [if_pos hempty] at hrun ⊢
      exact ⟨result, hrun, List.Perm.refl _, rfl, rfl⟩
    · rw [if_neg hempty] at hrun ⊢
      obtain ⟨files, hfiles, hrun⟩ := Option.bind_eq_some_iff.mp hrun
      rw [hfiles] at hcollect
      generalize hfiles' : collectFiles { env with directory := dir } (limitConfig cfg) = collected
        at hcollect ⊢
      cases hcollect with
      | @some _ files' h =>
          rw [Option.bind_eq_bind, Option.bind_some, ← h.isEmpty_eq]
          split_ifs at hrun ⊢
          · exact ⟨result, hrun, List.Perm.refl _, rfl, rfl⟩
          · obtain ⟨stripWidth, hwidth, hrun⟩ := Option.bind_eq_some_iff.mp hrun
            rw [hwidth, Option.bind_eq_bind, Option.bind_some]
            exact runFiles_perm h dir hrun
  obtain ⟨result', hrun', hrecords, hcsv, hstatus⟩ := hresults
  refine ⟨result', hrun', hrecords, hcsv, hstatus, fun num => ?_⟩
  refine csvText_perm num (hrecords.map _) fun r hr r' hr' => ?_
  obtain ⟨v, hv, rfl⟩ := List.mem_map.mp hr
  obtain ⟨w, hw, rfl⟩ := List.mem_map.mp hr'
  exact names_of_mem_allFiles hrun hv hw

end

/-! ## A folder with three files -/

/-- The run on the three files ends normally. -/
private theorem threeFiles_run :
    ∃ result, rle4kCmdRun threeFilesEnv threeFilesConfig ['t'] = some result ∧
      result.allFiles.length = 2 := by
  have hlength : (rle4kCmdRun threeFilesEnv threeFilesConfig ['t']).map (fun result =>
      result.allFiles.length) = some 2 := by decide +kernel
  exact Option.map_eq_some_iff.mp hlength

/-- It is three runs, of which two have a record. -/
theorem folder_run_iff_threeFiles :
    ∃ result singles, rle4kCmdRun threeFilesEnv threeFilesConfig ['t'] = some result ∧
      result.allFiles.length = 2 ∧
      List.Forall₂ (fun file single =>
        rle4kCmdRun threeFilesEnv (onFile threeFilesConfig file) ['t'] = some single)
        ["a,b.dif".toList, "c.dif".toList, "d.dif".toList] singles ∧
      result.allFiles = singles.flatMap RunResult.allFiles := by
  obtain ⟨result, hrun, hlength⟩ := threeFiles_run
  obtain ⟨singles, hsingles, hall, -⟩ :=
    (folder_run_iff rfl (by decide) rfl (by decide)).mp hrun
  exact ⟨result, singles, hrun, hlength, hsingles, hall⟩

/-- The folder may list them in the opposite order. -/
theorem folder_order_threeFiles :
    ∃ result result', rle4kCmdRun threeFilesEnv threeFilesConfig ['t'] = some result ∧
      result.allFiles.length = 2 ∧
      rle4kCmdRun { threeFilesEnv with
        directory := fun path => (threeFilesEnv.directory path).map List.reverse }
        threeFilesConfig ['t'] = some result' ∧
      SameUpToOrder threeFilesConfig result result' := by
  obtain ⟨result, hrun, hlength⟩ := threeFiles_run
  obtain ⟨result', hrun', hsame⟩ :=
    folder_order (fun _ => .some (List.reverse_perm _).symm) hrun
  exact ⟨result, result', hrun, hlength, hrun', hsame⟩

end Redcli
