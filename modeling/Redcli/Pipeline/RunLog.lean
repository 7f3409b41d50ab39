import Redcli.Pipeline.ConsoleReport

/-!
# The Log of a Run

What `rle4k_cmd_run` writes on `std::cerr`, message by message: a section for each input file, with
a message for each column of each format and a summary, and the closing messages. Each is a line, if
no path and no exception has a line break in its text. The log of a run that ends abnormally breaks
off and is not modelled.

## Main results

* `splitOn_logText`: the lines of the log are the messages.
-/

namespace Redcli

open AlignedColumns (padRight)

/-! ## The text -/

/-- `static_cast<int>` of a `double`, which is undefined if it does not fit. -/
def castInt (x : ℚ) : Option ℤ := checkInt (x.num.tdiv x.den)

/-- `ex.what()`, or the text for an unknown exception. -/
def LoadFailure.text : LoadFailure → Text
  | .exception what => what.toList
  | .unknown => "unknown exception".toList

/-- The title of the section of a file. -/
def fileTitle (idx total : ℕ) (file : Text) : List Text :=
  let ruler := List.replicate 60 '='
  [[], ruler,
    "  File ".toList ++ intText idx ++ ['/'] ++ intText total ++ ": ".toList ++ fileName file,
    ruler, []]

/-- A switch. -/
def onOff (b : Bool) : Text := if b then "on".toList else "off".toList

/-- `OK` or `NG`, if there is a check. -/
def logVerdict (doCheck ok : Bool) : Text :=
  if doCheck then ' ' :: (if ok then "OK".toList else "NG".toList) else []

section

variable (num : NumberFormat) (env : Environment) (cfg : BenchConfig) (p : RunParams)

/-- The bounds of the cache. -/
def cacheText : Text :=
  " cache=[".toList ++ intText (max 1 cfg.cacheBlocksMin) ++ [','] ++ intText p.cacheBlocks ++ [']']

/-- What the section of a file says in front of the measurement. -/
def imageLines (fmts : List ℤ) (file : Text) (g : Geometry) : List Text :=
  ["[Phase 1] DIF loaded in ".toList ++ num.text 0 (env.loadMs file) ++ "ms".toList,
    "[Phase 1] Image: ".toList ++ intText g.ncols ++ " cols x ".toList ++ intText g.nrows ++
      " rows (".toList ++ intText p.stripWidth ++ ['x'] ++ intText p.blockLine ++
      " px blocks)".toList,
    [],
    "[args] formats=".toList ++ intText fmts.length ++ " rt=".toList ++ intText p.rtThreads ++
      " et=".toList ++ intText p.etThreads ++ " dt=".toList ++ intText p.dtThreads ++
      " repeat=".toList ++ intText p.repeats ++ cacheText cfg p ++
      " check=".toList ++ onOff p.doCheck ++ " enc=".toList ++ onOff p.doEncode ++
      " dec=".toList ++ onOff p.doDecode,
    "[Phase] outer format -> strip col -> windowed rows (".toList ++ intText g.ncols ++ ['x'] ++
      intText g.nrows ++ " blocks; ~".toList ++
      num.text 1 (p.stripWidth * p.blockLine / 8 * g.nrows / 10 ^ 9) ++
      " GB raw/col); re-raster per format".toList]

/-- The line of a column. -/
def columnLine (enc : FormatEncoder) (ncols col : ℤ) (acc : ColumnAcc) : Option Text := do
  let wed := if p.doEncode then acc.wedSum / p.repeats else 0
  let wdd := if p.doDecode then acc.wddSum / p.repeats else 0
  let csBytes := if p.doEncode then acc.csBytesSum / p.repeats else 0
  let ssGb := acc.ssBytes / 10 ^ 9
  let setGbps := if 0 < wed then ssGb * 8000 / wed else 0
  let sdtGbps := if 0 < wdd then ssGb * 8000 / wdd else 0
  let cr := if 0 < csBytes then acc.ssBytes / csBytes else 0
  let wrdMs ← castInt acc.wrd
  let wedMs ← castInt wed
  let setInt ← castInt setGbps
  let wddMs ← castInt wdd
  let sdtInt ← castInt sdtGbps
  let totalMs ← castInt (acc.wrd + wed + wdd)
  pure ("  [".toList ++ enc.getFormatName.toList ++ "] sid ".toList ++ intText (col + 1) ++ ['/'] ++
    intText ncols ++ " raster=".toList ++ intText wrdMs ++ "ms size=".toList ++ num.text 2 ssGb ++
    "GB enc=".toList ++ intText wedMs ++ "ms(".toList ++ intText setInt ++
    "Gbps) dec=".toList ++ intText wddMs ++ "ms(".toList ++ intText sdtInt ++
    "Gbps) total=".toList ++ intText totalMs ++ "ms cr=".toList ++ num.text 1 cr ++ ":1".toList ++
    logVerdict p.doCheck acc.allOk)

/-- The lines of the columns of a format. -/
def formatLog (doc : CadDocument) (enc : FormatEncoder) (file : Text) (fi : ℕ) (g : Geometry) :
    Option (List Text) :=
  (List.range g.ncols.toNat).mapM fun (col : ℕ) => do
    let acc ← windowLoop g.nrows p.cacheBlocks
      (fun row0 nwin acc =>
        measureWindow env p doc enc (windowSite file fi (col : ℤ) row0) nwin acc)
      (g.nrows.toNat + 1) 0 {}
    columnLine num p enc g.ncols (col : ℤ) acc

/-- The lines of the round of the format loop for a format at its position. -/
def roundLog (doc : CadDocument) (file : Text) (g : Geometry) (v : ℤ × ℕ) : Option (List Text) :=
  match getEncoder v.1 with
  | none => some []
  | some enc => formatLog num env p doc enc file v.2 g

/-- The lines of the columns of all formats. -/
def formatsLog (doc : CadDocument) (file : Text) (g : Geometry) (fmts : List ℤ) :
    Option (List (List Text)) :=
  fmts.zipIdx.mapM (roundLog num env p doc file g)

/-- The line of a format in the summary. -/
def summaryLine (enc : FormatEncoder) (acc : FmtAcc) : Text :=
  let fr := fmtResult enc acc
  "  ".toList ++ padRight ' ' 7 fr.name.toList ++ " raster=".toList ++ num.text 0 acc.rasterWall ++
    "ms enc(wall)=".toList ++ num.text 0 fr.sedMs ++ "ms dec(wall)=".toList ++
    num.text 0 fr.sddMs ++ "ms ss=".toList ++ num.text 2 fr.ssGb ++ "GB cs=".toList ++
    num.text 2 fr.csMb ++ "MB cr=".toList ++ num.text 1 fr.cr ++ ":1 set=".toList ++
    num.text 2 fr.setGbps ++ "Gbps sdt=".toList ++ num.text 2 fr.sdtGbps ++ "Gbps".toList ++
    logVerdict p.doCheck acc.ok

/-- The summary of a file. -/
def summaryLines (fmts : List ℤ) (faccs : List FmtAcc) : List Text :=
  ["  ".toList ++ List.replicate 64 '-',
    "  raster(first fmt,wall)=".toList ++
      num.text 0 ((faccs.head?.map FmtAcc.rasterWall).getD 0) ++ "ms ss=".toList ++
      num.text 2 ((faccs.head?.map FmtAcc.ss).getD 0 / 10 ^ 9) ++ "GB".toList ++
      cacheText cfg p ++ " check=".toList ++ onOff p.doCheck] ++
    ((fmts.zip faccs).filterMap fun v =>
      (getEncoder v.1).map fun enc => summaryLine num p enc v.2) ++ [[]]

/-- The section of a file. -/
def fileLog (fmts : List ℤ) (idx total : ℕ) (file : Text) : Option (List Text) := do
  let title := fileTitle idx total file
  if !(← env.fileExists file) then
    some (title ++ ["[ERROR] DIF not found: ".toList ++ file, []])
  else
    let title := title ++ ["[Phase 1] Loading DIF...".toList]
    let skipped := title ++ ["  [SKIP] No layers.".toList, []]
    match env.load file with
    | .error failure => some (title ++ ["[ERROR] DIF load failed: ".toList ++ failure.text, []])
    | .ok none => some skipped
    | .ok (some doc) =>
        if doc.layerCount = 0 then some skipped
        else
          let g ← imageGeometry doc p
          let columns ← formatsLog num env p doc file g fmts
          let faccs ← measureFormats env p doc file g.ncols g.nrows fmts
          pure (title ++ imageLines num env cfg p fmts file g ++ columns.flatten ++
            summaryLines num cfg p fmts faccs)

/-- The sections of all files. -/
def filesLog (fmts : List ℤ) (files : List Text) : Option (List (List Text)) :=
  files.zipIdx.mapM fun v => fileLog num env cfg p fmts (v.2 + 1) files.length v.1

/-- The last lines. -/
def closingLines (csvPath : Text) (result : RunResult) : List Text :=
  [match result.csvWritten with
    | some true => "[redcli] CSV written (".toList ++ intText result.allFiles.length ++
        " files, UTF-8): ".toList ++ csvPath
    | some false => "[ERROR] failed to write CSV: ".toList ++ csvPath
    | none => "[redcli] Console report only (".toList ++ intText result.allFiles.length ++
        " files). Use --csv <path> to export a CSV file.".toList,
    "[redcli] Done.".toList]

end

/-- What `rle4k_cmd_run` writes on `std::cerr` after the configuration file and the options have
been read: the messages, without the line breaks behind them. -/
def rle4kCmdRunLog (num : NumberFormat) (env : Environment) (cfg : BenchConfig) (csvPath : Text) :
    Option (List Text) :=
  let cfg := limitConfig cfg
  if cfg.inputPath.isEmpty then some ["[ERROR] --input required".toList]
  else do
    let files ← collectFiles env cfg
    if files.isEmpty then pure ["[ERROR] No .dif files".toList]
    else
      let stripWidth ← resolveStripWidth cfg
      let cfg := { cfg with stripWidth := stripWidth }
      let sections ←
        filesLog num env cfg (RunParams.ofConfig cfg) (resolveFormats cfg.formats) files
      let result ← runFiles env cfg csvPath files
      pure (sections.flatten ++ closingLines csvPath result)

/-- The text that is written. -/
def logText (messages : List Text) : Text := messages.flatMap fun l => l ++ ['\n']

/-! ## The lines -/

/-- No path of a run and no exception of a loader has a line break in its text. -/
structure NoLineBreaks (env : Environment) (cfg : BenchConfig) (csvPath : Text) : Prop where
  csvPath : '\n' ∉ csvPath
  files : ∀ file ∈ inputFiles env cfg, '\n' ∉ file
  failures : ∀ file ∈ inputFiles env cfg, ∀ failure, env.load file = .error failure →
    '\n' ∉ failure.text

/-- The name of a file is a part of its path. -/
theorem mem_of_mem_fileName {c : Char} {path : Text} (h : c ∈ fileName path) : c ∈ path := by
  have hroot : relativeToRoot path <:+ path := by
    unfold relativeToRoot
    split
    · split_ifs
      · exact ⟨[_, _], rfl⟩
      · exact List.suffix_rfl
    · split_ifs
      · exact (List.dropWhile_suffix _).trans ⟨[_, _], rfl⟩
      · exact List.suffix_rfl
    · exact List.suffix_rfl
  rw [fileName, List.mem_reverse] at h
  exact hroot.mem (List.mem_reverse.mp (List.takeWhile_subset _ h))

section

variable {num : NumberFormat} {env : Environment} {cfg : BenchConfig} {p : RunParams}
  {file : Text} {g : Geometry}

/-- A number has no line break. -/
theorem notMem_number (num : NumberFormat) (prec : ℕ) (x : ℚ) : '\n' ∉ num.text prec x :=
  fun h => num.isBare prec x _ h (by decide)

theorem notMem_onOff (b : Bool) : '\n' ∉ onOff b := by cases b <;> decide

theorem notMem_logVerdict (doCheck ok : Bool) : '\n' ∉ logVerdict doCheck ok := by
  cases doCheck <;> cases ok <;> decide

theorem notMem_getFormatName (enc : FormatEncoder) : '\n' ∉ enc.getFormatName.toList :=
  (getFormatName_word enc).2.2.2

theorem notMem_cacheText : '\n' ∉ cacheText cfg p := by
  unfold cacheText
  repeat' with_reducible refine List.not_mem_append ?_ ?_
  all_goals first
    | with_reducible exact notMem_intText _
    | decide +kernel

theorem notMem_fileTitle {idx total : ℕ} (hfile : '\n' ∉ file) :
    ∀ l ∈ fileTitle idx total file, '\n' ∉ l := by
  have hname : '\n' ∉ fileName file := fun h => hfile (mem_of_mem_fileName h)
  have hruler : '\n' ∉ List.replicate 60 '=' := by decide +kernel
  simp only [fileTitle, List.forall_mem_cons]
  refine ⟨List.not_mem_nil, hruler, ?_, hruler, List.not_mem_nil, by simp⟩
  repeat' with_reducible refine List.not_mem_append ?_ ?_
  all_goals first
    | with_reducible exact notMem_intText _
    | with_reducible exact hname
    | decide +kernel

theorem notMem_imageLines {fmts : List ℤ} :
    ∀ l ∈ imageLines num env cfg p fmts file g, '\n' ∉ l := by
  simp only [imageLines, List.forall_mem_cons]
  refine ⟨?_, ?_, List.not_mem_nil, ?_, ?_, by simp⟩
  all_goals repeat' with_reducible refine List.not_mem_append ?_ ?_
  all_goals first
    | with_reducible exact notMem_intText _
    | with_reducible exact notMem_number num _ _
    | with_reducible exact notMem_cacheText
    | with_reducible exact notMem_onOff _
    | decide +kernel

theorem notMem_columnLine {enc : FormatEncoder} {ncols col : ℤ} {acc : ColumnAcc} {l : Text}
    (h : columnLine num p enc ncols col acc = some l) : '\n' ∉ l := by
  unfold columnLine at h
  dsimp only at h
  obtain ⟨wrdMs, -, h⟩ := Option.bind_eq_some_iff.mp h
  obtain ⟨wedMs, -, h⟩ := Option.bind_eq_some_iff.mp h
  obtain ⟨setInt, -, h⟩ := Option.bind_eq_some_iff.mp h
  obtain ⟨wddMs, -, h⟩ := Option.bind_eq_some_iff.mp h
  obtain ⟨sdtInt, -, h⟩ := Option.bind_eq_some_iff.mp h
  obtain ⟨totalMs, -, h⟩ := Option.bind_eq_some_iff.mp h
  rw [← Option.some.inj h]
  repeat' with_reducible refine List.not_mem_append ?_ ?_
  all_goals first
    | with_reducible exact notMem_intText _
    | with_reducible exact notMem_number num _ _
    | with_reducible exact notMem_getFormatName enc
    | with_reducible exact notMem_logVerdict _ _
    | decide +kernel

theorem notMem_summaryLine (enc : FormatEncoder) (acc : FmtAcc) :
    '\n' ∉ summaryLine num p enc acc := by
  have hname : '\n' ∉ padRight ' ' 7 (fmtResult enc acc).name.toList :=
    AlignedColumns.notMem_padRight (by decide) (notMem_getFormatName enc) 7
  unfold summaryLine
  dsimp only
  repeat' with_reducible refine List.not_mem_append ?_ ?_
  all_goals first
    | with_reducible exact notMem_number num _ _
    | with_reducible exact hname
    | with_reducible exact notMem_logVerdict _ _
    | decide +kernel

theorem notMem_summaryLines {fmts : List ℤ} {faccs : List FmtAcc} :
    ∀ l ∈ summaryLines num cfg p fmts faccs, '\n' ∉ l := by
  have hruler : '\n' ∉ "  ".toList ++ List.replicate 64 '-' := by decide +kernel
  simp only [summaryLines, List.forall_mem_append, List.forall_mem_cons]
  refine ⟨⟨⟨hruler, ?_, by simp⟩, fun l hl => ?_⟩, List.not_mem_nil, by simp⟩
  · repeat' with_reducible refine List.not_mem_append ?_ ?_
    all_goals first
      | with_reducible exact notMem_number num _ _
      | with_reducible exact notMem_cacheText
      | with_reducible exact notMem_onOff _
      | decide +kernel
  · obtain ⟨v, -, hv⟩ := List.mem_filterMap.mp hl
    obtain ⟨enc, -, rfl⟩ := Option.map_eq_some_iff.mp hv
    exact notMem_summaryLine enc v.2

/-- The messages of the columns. -/
theorem notMem_formatsLog {doc : CadDocument} {fmts : List ℤ} {columns : List (List Text)}
    (h : formatsLog num env p doc file g fmts = some columns) :
    ∀ l ∈ columns.flatten, '\n' ∉ l := by
  have hround : ∀ v ls, roundLog num env p doc file g v = some ls → ∀ l ∈ ls, '\n' ∉ l := by
    intro v ls hls
    rw [roundLog] at hls
    cases henc : getEncoder v.1 with
    | none =>
        simp only [henc] at hls
        obtain rfl := Option.some.inj hls
        exact fun l hl => absurd hl List.not_mem_nil
    | some enc =>
        simp only [henc] at hls
        refine Accumulate.forall_mem_of_mapM hls fun col _ l hl => ?_
        obtain ⟨acc, -, hl⟩ := Option.bind_eq_some_iff.mp hl
        exact notMem_columnLine hl
  intro l hl
  obtain ⟨ls, hls, hl⟩ := List.mem_flatten.mp hl
  exact Accumulate.forall_mem_of_mapM h (fun v _ => hround v) ls hls l hl

/-- The messages about a file. -/
theorem notMem_fileLog {fmts : List ℤ} {idx total : ℕ} {ls : List Text} (hfile : '\n' ∉ file)
    (hfailure : ∀ failure, env.load file = .error failure → '\n' ∉ failure.text)
    (h : fileLog num env cfg p fmts idx total file = some ls) : ∀ l ∈ ls, '\n' ∉ l := by
  have htitle := @notMem_fileTitle file idx total hfile
  have hloading : ∀ l ∈ fileTitle idx total file ++ ["[Phase 1] Loading DIF...".toList],
      '\n' ∉ l := by
    rw [List.forall_mem_append, List.forall_mem_singleton]
    exact ⟨htitle, by decide +kernel⟩
  have hskip : ∀ l ∈ ["  [SKIP] No layers.".toList, []], '\n' ∉ l := by decide +kernel
  unfold fileLog at h
  obtain ⟨found, -, h⟩ := Option.bind_eq_some_iff.mp h
  cases found with
  | false =>
      obtain rfl := Option.some.inj h
      simp only [List.forall_mem_append, List.forall_mem_cons]
      exact ⟨htitle, List.not_mem_append (by decide +kernel) hfile, List.not_mem_nil, by simp⟩
  | true =>
  rcases hload : env.load file with failure | _ | doc
  · simp only [hload] at h
    obtain rfl := Option.some.inj h
    rw [List.forall_mem_append]
    refine ⟨hloading, ?_⟩
    simp only [List.forall_mem_cons]
    exact ⟨List.not_mem_append (by decide +kernel) (hfailure failure hload), List.not_mem_nil,
      by simp⟩
  · simp only [hload] at h
    obtain rfl := Option.some.inj h
    exact List.forall_mem_append.mpr ⟨hloading, hskip⟩
  by_cases hlayers : doc.layerCount = 0
  · simp only [hload, if_pos hlayers] at h
    obtain rfl := Option.some.inj h
    exact List.forall_mem_append.mpr ⟨hloading, hskip⟩
  · simp only [hload, if_neg hlayers] at h
    obtain ⟨g, -, h⟩ := Option.bind_eq_some_iff.mp h
    obtain ⟨columns, hcolumns, h⟩ := Option.bind_eq_some_iff.mp h
    obtain ⟨faccs, -, h⟩ := Option.bind_eq_some_iff.mp h
    obtain rfl := Option.some.inj h
    simp only [List.forall_mem_append] at hloading ⊢
    exact ⟨⟨⟨hloading, notMem_imageLines⟩, notMem_formatsLog hcolumns⟩, notMem_summaryLines⟩

/-- The closing messages. -/
theorem notMem_closingLines {csvPath : Text} (hpath : '\n' ∉ csvPath) (result : RunResult) :
    ∀ l ∈ closingLines csvPath result, '\n' ∉ l := by
  unfold closingLines
  simp only [List.forall_mem_cons]
  refine ⟨?_, by decide +kernel, by simp⟩
  rcases result.csvWritten with _ | _ | _
  all_goals repeat' with_reducible refine List.not_mem_append ?_ ?_
  all_goals first
    | with_reducible exact notMem_intText _
    | with_reducible exact hpath
    | decide +kernel

/-- The lines of the log are the messages, and there is nothing behind the last line break. -/
theorem splitOn_logText {csvPath : Text} {messages : List Text}
    (hbreaks : NoLineBreaks env cfg csvPath)
    (hlog : rle4kCmdRunLog num env cfg csvPath = some messages) :
    (logText messages).splitOn '\n' = messages ++ [[]] := by
  refine AlignedColumns.splitOn_lines ?_
  have hpath : (limitConfig cfg).inputPath.isEmpty = cfg.inputPath.isEmpty := rfl
  unfold rle4kCmdRunLog at hlog
  dsimp only at hlog
  by_cases hempty : cfg.inputPath.isEmpty = true
  · rw [if_pos (hpath.trans hempty)] at hlog
    obtain rfl := Option.some.inj hlog
    decide +kernel
  rw [if_neg (hpath ▸ hempty)] at hlog
  obtain ⟨files, hfiles, hlog⟩ := Option.bind_eq_some_iff.mp hlog
  have hinput : inputFiles env cfg = files := by
    rw [inputFiles, if_neg hempty, hfiles, Option.getD_some]
  by_cases hnone : files.isEmpty = true
  · rw [if_pos hnone] at hlog
    obtain rfl := Option.some.inj hlog
    decide +kernel
  rw [if_neg hnone] at hlog
  obtain ⟨stripWidth, -, hlog⟩ := Option.bind_eq_some_iff.mp hlog
  obtain ⟨sections, hsections, hlog⟩ := Option.bind_eq_some_iff.mp hlog
  obtain ⟨result, -, hlog⟩ := Option.bind_eq_some_iff.mp hlog
  obtain rfl := Option.some.inj hlog
  refine List.forall_mem_append.mpr ⟨fun l hl => ?_, notMem_closingLines hbreaks.csvPath result⟩
  obtain ⟨ls, hls, hl⟩ := List.mem_flatten.mp hl
  refine Accumulate.forall_mem_of_mapM (Q := fun ls => ∀ l ∈ ls, '\n' ∉ l) hsections
    (fun v hv ls hls => ?_) ls hls l hl
  have hmem : v.1 ∈ inputFiles env cfg := by
    rw [hinput]
    exact List.fst_mem_of_mem_zipIdx hv
  exact notMem_fileLog (hbreaks.files v.1 hmem) (hbreaks.failures v.1 hmem) hls

end

end Redcli
