import Redcli.Pipeline.FixedNotation
import Redcli.Support.AlignedColumns

/-!
# The Console Report

`rle4k_print_file_report`: the report of a file on the console, with a table of aligned columns.
Its rows are read back word by word, unless a number fills its column: then it is written right
behind the number in front of it.

## Main results

* `fixedText_lt_width_iff`: which numbers have room in a column;
* `console_reads_back`: what a reader finds in the reports of a run.
-/

namespace Redcli

open AlignedColumns (padLeft padRight words)

/-! ## The text -/

/-- An `int` in a stream. -/
def intText (n : ℤ) : Text := signText (decide (n < 0)) ++ Nat.toDigits 10 n.natAbs

/-- A number in a stream that may be infinite, or not a number. -/
def doubleText (num : NumberFormat) (prec : ℕ) : Double → Text
  | .finite x => num.text prec x
  | .infinite negative => signText negative ++ "inf".toList
  | .nan => "nan".toList

/-- A line across the report. -/
def reportRuler : Text := "  ".toList ++ List.replicate 70 '-'

section

variable (num : NumberFormat) (cfg : BenchConfig)

/-- The line with the parameters. -/
def paramsLine : Text :=
  let et := if 0 < cfg.encodeThreads then cfg.encodeThreads else cfg.rasterThreads
  let dt := if 0 < cfg.decodeThreads then cfg.decodeThreads else cfg.rasterThreads
  "  params : pw=".toList ++ doubleText num 3 cfg.pitchWidthUm ++ "um".toList ++
    "  N=".toList ++ intText cfg.obliqueFactor ++
    "  repeat=".toList ++ intText cfg.repeats ++
    "  threads(rt/et/dt)=".toList ++ intText cfg.rasterThreads ++ ['/'] ++ intText et ++ ['/'] ++
    intText dt ++
    "  cache=[".toList ++ intText cfg.cacheBlocksMin ++ [','] ++ intText cfg.cacheBlocksMax ++
    [']'] ++
    "  action(enc/dec)=".toList ++ intText (if cfg.encodeEnabled ≠ 0 then 1 else 0) ++ ['/'] ++
    intText (if cfg.decodeEnabled ≠ 0 then 1 else 0) ++
    "  check=".toList ++ (if cfg.checkEnabled ≠ 0 then "on".toList else "off".toList)

/-- The line with the names of the columns. -/
def titleLine : Text :=
  "  ".toList ++ padRight ' ' 9 "ALG".toList ++ padLeft ' ' 10 "CS(MB)".toList ++
    padLeft ' ' 9 "CR".toList ++ padLeft ' ' 11 "Enc(ms)".toList ++
    padLeft ' ' 10 "Set(Gb)".toList ++ padLeft ' ' 11 "Dec(ms)".toList ++
    padLeft ' ' 10 "Sdt(Gb)".toList ++ "  CHK".toList

/-- The lines in front of the table. -/
def reportHead (rec : FileRecord) : List Text :=
  [[],
    "########## Comparison Report: ".toList ++ rec.shortName ++ " ##########".toList,
    "  file   : ".toList ++ rec.shortName,
    "  image  : ".toList ++ intText rec.imgW ++ " x ".toList ++ intText rec.imgH ++
      " px  blocks: ".toList ++ intText rec.ncols ++ " x ".toList ++ intText rec.nrows ++
      " (".toList ++ intText cfg.stripWidth ++ " x ".toList ++ intText cfg.blockLine ++ [')'],
    paramsLine num cfg,
    "  source : ".toList ++ num.text 4 rec.totalSsGb ++ " GB  (DIF load ".toList ++
      num.text 1 rec.dMs ++ "ms".toList ++ ", raster ".toList ++ num.text 1 rec.rasterMs ++
      "ms wall, first format)".toList,
    reportRuler, titleLine, reportRuler]

/-- The row of a format. -/
def reportRow (r : FmtResult) : Text :=
  "  ".toList ++ padRight ' ' 9 r.name.toList ++
    padLeft ' ' 10 (num.text 3 r.csMb) ++ padLeft ' ' 9 (num.text 2 r.cr) ++
    padLeft ' ' 11 (num.text 3 r.sedMs) ++ padLeft ' ' 10 (num.text 3 r.setGbps) ++
    padLeft ' ' 11 (num.text 3 r.sddMs) ++ padLeft ' ' 10 (num.text 3 r.sdtGbps) ++
    (consoleChk cfg r).elim [] fun chk => "  ".toList ++ chk.toList

/-- The lines of the report of a file. -/
def reportLines (rec : FileRecord) : List Text :=
  reportHead num cfg rec ++ rec.fmts.map (reportRow num cfg) ++ [reportRuler, []]

/-- `rle4k_print_file_report`. -/
def rle4kPrintFileReport (rec : FileRecord) : Text :=
  (reportLines num cfg rec).flatMap fun l => l ++ ['\n']

/-- The reports of some records. -/
def consoleText (files : List FileRecord) : Text := files.flatMap (rle4kPrintFileReport num cfg)

end

/-- The configuration behind the limits, with the width of the strips where it is resolved. -/
def reportConfiguration (cfg : BenchConfig) : BenchConfig :=
  (resolveStripWidth (limitConfig cfg)).elim (limitConfig cfg) fun stripWidth =>
    { limitConfig cfg with stripWidth := stripWidth }

/-- What `rle4k_cmd_run` prints on the console: a report for each record. -/
def rle4kCmdRunConsole (num : NumberFormat) (env : Environment) (cfg : BenchConfig)
    (csvPath : Text) : Option Text :=
  (rle4kCmdRun env cfg csvPath).map fun result =>
    consoleText num (reportConfiguration cfg) (result.allFiles.map Prod.snd)

/-! ## Room in a column -/

/-- The length of a number in fixed notation. -/
theorem length_fixedText {prec : ℕ} (hprec : prec ≠ 0) (x : ℚ) :
    (fixedText prec x).length =
      (if x < 0 then 1 else 0) + ((fixedDigits prec x).length + 1) := by
  have htext : fixedText prec x = (if x < 0 then ['-'] else []) ++
      (fixedDigits prec x).take ((fixedDigits prec x).length - prec) ++
        (if prec = 0 then [] else
          '.' :: (fixedDigits prec x).drop ((fixedDigits prec x).length - prec)) := rfl
  rw [htext, if_neg hprec, List.length_append, List.length_append, List.length_cons,
    List.length_take, List.length_drop]
  split_ifs
  · rw [List.length_singleton]
    omega
  · rw [List.length_nil]
    omega

/-- The number of digits, with one in front of the point at least. -/
theorem length_fixedDigits_le_iff {prec k : ℕ} (hk : prec < k) (x : ℚ) :
    (fixedDigits prec x).length ≤ k ↔ roundHalfEven (|x| * 10 ^ prec) < 10 ^ k := by
  have hnonneg : 0 ≤ roundHalfEven (|x| * 10 ^ prec) := roundHalfEven_nonneg (by positivity)
  obtain ⟨n, hn⟩ := Int.eq_ofNat_of_zero_le hnonneg
  have hdigits : (Nat.toDigits 10 n).length ≤ k ↔ n < 10 ^ k :=
    Nat.length_toDigits_le_iff (by decide) (by omega)
  rw [fixedDigits, hn, Int.toNat_natCast, List.length_append, List.length_replicate]
  have hcast : ((n : ℤ) < 10 ^ k) ↔ n < 10 ^ k := by exact_mod_cast Iff.rfl
  rw [hcast, ← hdigits]
  omega

/-- A number has room in a column exactly if what is shown is not too large. -/
theorem fixedText_lt_width_iff {prec width : ℕ} (hprec : prec ≠ 0) (hwidth : prec + 3 < width)
    (x : ℚ) :
    (fixedText prec x).length < width ↔
      -10 ^ (width - 3 - prec) < shown prec x ∧ shown prec x < 10 ^ (width - 2 - prec) := by
  have hpos : (0 : ℚ) < 10 ^ prec := by positivity
  have hnonneg : 0 ≤ (roundHalfEven (|x| * 10 ^ prec) : ℚ) / 10 ^ prec := by
    refine div_nonneg ?_ hpos.le
    exact_mod_cast roundHalfEven_nonneg (by positivity)
  -- the bound on the digits as one on the number
  have hbound : ∀ k, prec < k → ((fixedDigits prec x).length ≤ k ↔
      (roundHalfEven (|x| * 10 ^ prec) : ℚ) / 10 ^ prec < 10 ^ (k - prec)) := by
    intro k hk
    rw [length_fixedDigits_le_iff hk, div_lt_iff₀ hpos, ← pow_add, Nat.sub_add_cancel hk.le]
    exact_mod_cast Iff.rfl
  rw [length_fixedText hprec, shown]
  by_cases hx : x < 0
  · have hlength : (if x < 0 then 1 else 0) + ((fixedDigits prec x).length + 1) < width ↔
        (fixedDigits prec x).length ≤ width - 3 := by
      rw [if_pos hx]
      omega
    rw [hlength, hbound _ (by omega), decide_eq_true hx, signed, if_pos rfl, neg_lt_neg_iff]
    have hright : -((roundHalfEven (|x| * 10 ^ prec) : ℚ) / 10 ^ prec) <
        10 ^ (width - 2 - prec) := (neg_nonpos.mpr hnonneg).trans_lt (by positivity)
    exact (and_iff_left hright).symm
  · have hlength : (if x < 0 then 1 else 0) + ((fixedDigits prec x).length + 1) < width ↔
        (fixedDigits prec x).length ≤ width - 2 := by
      rw [if_neg hx]
      omega
    rw [hlength, hbound _ (by omega), decide_eq_false hx, signed, if_neg Bool.false_ne_true]
    have hleft : -10 ^ (width - 3 - prec) <
        (roundHalfEven (|x| * 10 ^ prec) : ℚ) / 10 ^ prec :=
      (neg_lt_zero.mpr (by positivity)).trans_le hnonneg
    exact (and_iff_right hleft).symm

/-! ## The rows -/

/-- A number in the table. -/
structure ConsoleCell where
  width : ℕ
  prec : ℕ
  value : ℚ

/-- What is shown has room, with a blank in front of it. -/
def ConsoleCell.Fits (c : ConsoleCell) : Prop :=
  -10 ^ (c.width - 3 - c.prec) < shown c.prec c.value ∧
    shown c.prec c.value < 10 ^ (c.width - 2 - c.prec)

/-- The text of a number. -/
def ConsoleCell.text (c : ConsoleCell) : Text := fixedText c.prec c.value

/-- The number behind the name of a format, which stands in a wide gap. -/
def sizeCell (r : FmtResult) : ConsoleCell := ⟨10, 3, r.csMb⟩

/-- The numbers behind it. -/
def metricCells (r : FmtResult) : List ConsoleCell :=
  [⟨9, 2, r.cr⟩, ⟨11, 3, r.sedMs⟩, ⟨10, 3, r.setGbps⟩, ⟨11, 3, r.sddMs⟩, ⟨10, 3, r.sdtGbps⟩]

/-- The cells of a row. -/
def rowCells (cfg : BenchConfig) (r : FmtResult) : List Text :=
  r.name.toList :: (sizeCell r :: metricCells r).map ConsoleCell.text ++
    (consoleChk cfg r).elim [] fun chk => [chk.toList]

/-- The name of a format is one short word. -/
theorem getFormatName_word (enc : FormatEncoder) :
    enc.getFormatName.toList ≠ [] ∧ ' ' ∉ enc.getFormatName.toList ∧
      enc.getFormatName.toList.length < 9 ∧ '\n' ∉ enc.getFormatName.toList := by
  cases enc <;> decide +kernel

/-- A number is one word. -/
theorem fixedText_word {prec : ℕ} (hprec : prec ≠ 0) (x : ℚ) :
    fixedText prec x ≠ [] ∧ ' ' ∉ fixedText prec x := by
  constructor
  · rw [← List.length_pos_iff, length_fixedText hprec]
    omega
  · exact fun h => absurd (fixedText_char h) (by decide)

/-- The verdict is one word. -/
theorem consoleChk_word {cfg : BenchConfig} {r : FmtResult} {chk : String}
    (h : consoleChk cfg r = some chk) : chk.toList ≠ [] ∧ ' ' ∉ chk.toList := by
  rw [consoleChk] at h
  split_ifs at h with hcheck hok
  · obtain rfl := Option.some.inj h
    decide +kernel
  · obtain rfl := Option.some.inj h
    decide +kernel

/-- The widths of a row: the name and the size share the space between them. -/
def rowLayout (cfg : BenchConfig) (r : FmtResult) : List (ℕ × Text) :=
  (9 - r.name.toList.length + max 10 (sizeCell r).text.length, (sizeCell r).text) ::
    (metricCells r).map (fun c => (c.width, c.text)) ++
      (consoleChk cfg r).elim [] fun chk => [(chk.toList.length + 2, chk.toList)]

/-- A row as a line of cells. -/
theorem reportRow_eq (cfg : BenchConfig) (r : FmtResult) :
    reportRow fixedNotation cfg r =
      List.replicate 2 ' ' ++ AlignedColumns.line ' ' r.name.toList (rowLayout cfg r) := by
  have hchk : ((consoleChk cfg r).elim [] fun chk => "  ".toList ++ chk.toList) =
      ((consoleChk cfg r).elim [] fun chk => [(chk.toList.length + 2, chk.toList)]).flatMap
        fun v => padLeft ' ' v.1 v.2 := by
    cases consoleChk cfg r with
    | none => rfl
    | some chk =>
        rw [Option.elim_some, Option.elim_some, List.flatMap_singleton, padLeft,
          Nat.add_sub_cancel_left]
        rfl
  have hmetrics : ((metricCells r).map fun c => (c.width, c.text)).flatMap
      (fun v => padLeft ' ' v.1 v.2) =
        padLeft ' ' 9 (fixedText 2 r.cr) ++ (padLeft ' ' 11 (fixedText 3 r.sedMs) ++
          (padLeft ' ' 10 (fixedText 3 r.setGbps) ++ (padLeft ' ' 11 (fixedText 3 r.sddMs) ++
            padLeft ' ' 10 (fixedText 3 r.sdtGbps)))) := by
    simp only [metricCells, List.map_cons, List.map_nil, List.flatMap_cons, List.flatMap_nil,
      List.append_nil, ConsoleCell.text]
  -- the size of the payloads is padded from the name on
  have hsize := AlignedColumns.padRight_append_padLeft ' ' 9 10 r.name.toList (sizeCell r).text
  unfold reportRow
  rw [hchk, AlignedColumns.line, rowLayout, List.flatMap_append, List.flatMap_cons, hmetrics]
  simp only [List.append_assoc]
  rw [← List.append_assoc r.name.toList, ← hsize]
  simp only [List.append_assoc]
  rfl

/-- The numbers have digits behind the point, and their columns are wider than these. -/
theorem metricCells_layout {r : FmtResult} {c : ConsoleCell} (hc : c ∈ metricCells r) :
    c.prec ≠ 0 ∧ c.prec + 3 < c.width := by
  simp only [metricCells, List.mem_cons, List.not_mem_nil, or_false] at hc
  obtain rfl | rfl | rfl | rfl | rfl := hc <;> simp

/-- A row is read word by word exactly if all numbers behind the first one have room. -/
theorem words_reportRow_iff {cfg : BenchConfig} {r : FmtResult} {enc : FormatEncoder}
    (hname : r.name = enc.getFormatName) :
    words ' ' (reportRow fixedNotation cfg r) = rowCells cfg r ↔
      ∀ c ∈ metricCells r, c.Fits := by
  obtain ⟨hne, hblank, hshort, -⟩ := hname ▸ getFormatName_word enc
  have hcells : ∀ v ∈ rowLayout cfg r, v.2 ≠ [] ∧ ' ' ∉ v.2 := by
    rw [rowLayout, List.forall_mem_append, List.forall_mem_cons, List.forall_mem_map]
    refine ⟨⟨fixedText_word (Nat.succ_ne_zero 2) r.csMb, fun c hc => ?_⟩, ?_⟩
    · exact fixedText_word (metricCells_layout hc).1 c.value
    · cases hchk : consoleChk cfg r with
      | none => exact fun v hv => absurd hv List.not_mem_nil
      | some chk => exact fun v hv => List.mem_singleton.mp hv ▸ consoleChk_word hchk
  have hvalues : rowCells cfg r = r.name.toList :: (rowLayout cfg r).map Prod.snd := by
    rw [rowCells, rowLayout, List.map_append, List.map_cons, List.map_cons, List.map_map]
    cases consoleChk cfg r <;> rfl
  rw [reportRow_eq, AlignedColumns.words_replicate_append, hvalues,
    AlignedColumns.words_line_eq_iff hne hblank hcells, rowLayout, List.forall_mem_append,
    List.forall_mem_cons, List.forall_mem_map]
  have hfits : ∀ c ∈ metricCells r, c.text.length < c.width ↔ c.Fits := fun c hc =>
    fixedText_lt_width_iff (metricCells_layout hc).1 (metricCells_layout hc).2 c.value
  constructor
  · exact fun h c hc => (hfits c hc).mp (h.1.2 c hc)
  · intro h
    refine ⟨⟨?_, fun c hc => (hfits c hc).mpr (h c hc)⟩, ?_⟩
    · -- the name does not fill its width
      show (sizeCell r).text.length < 9 - r.name.toList.length + max 10 (sizeCell r).text.length
      omega
    · cases consoleChk cfg r with
      | none => exact fun v hv => absurd hv List.not_mem_nil
      | some chk =>
          intro v hv
          obtain rfl := List.mem_singleton.mp hv
          exact Nat.lt_add_of_pos_right (by decide)

/-! ## The lines -/

/-- An `int` has no line break. -/
theorem notMem_intText (n : ℤ) : '\n' ∉ intText n := by
  intro h
  rcases List.mem_append.mp h with hsign | hdigit
  · rw [signText] at hsign
    split_ifs at hsign
    · exact absurd (List.mem_singleton.mp hsign) (by decide)
    · exact List.not_mem_nil hsign
  · exact absurd (Nat.isDigit_of_mem_toDigits (by decide) (by decide) hdigit) (by decide)

/-- A number has no line break. -/
theorem notMem_fixedNotation (prec : ℕ) (x : ℚ) : '\n' ∉ fixedNotation.text prec x :=
  fun h => absurd (fixedText_char h) (by decide)

@[inherit_doc notMem_fixedNotation]
theorem notMem_doubleText (prec : ℕ) (x : Double) : '\n' ∉ doubleText fixedNotation prec x := by
  cases x with
  | finite x => exact notMem_fixedNotation prec x
  | infinite negative =>
      have hnone : '\n' ∉ signText negative ++ "inf".toList := by
        cases negative <;> decide
      exact hnone
  | nan =>
      have hnone : '\n' ∉ "nan".toList := by decide
      exact hnone

/-- The line with the parameters is one line. -/
theorem notMem_paramsLine (cfg : BenchConfig) : '\n' ∉ paramsLine fixedNotation cfg := by
  unfold paramsLine
  -- piece by piece
  repeat' with_reducible refine List.not_mem_append ?_ ?_
  all_goals first
    | with_reducible exact notMem_intText _
    | with_reducible exact notMem_doubleText _ _
    | skip
  case refine_2 => split_ifs <;> decide +kernel
  all_goals decide +kernel

/-- The lines in front of the table have no line breaks in them. -/
theorem notMem_reportHead (cfg : BenchConfig) {rec : FileRecord} (hname : '\n' ∉ rec.shortName) :
    ∀ l ∈ reportHead fixedNotation cfg rec, '\n' ∉ l := by
  have hruler : '\n' ∉ reportRuler := by decide +kernel
  have htitles : '\n' ∉ titleLine := by decide +kernel
  unfold reportHead
  refine List.forall_mem_cons.mpr ⟨List.not_mem_nil,
    List.forall_mem_cons.mpr ⟨?_, List.forall_mem_cons.mpr ⟨?_, List.forall_mem_cons.mpr ⟨?_,
      List.forall_mem_cons.mpr ⟨notMem_paramsLine cfg, List.forall_mem_cons.mpr ⟨?_,
        List.forall_mem_cons.mpr ⟨hruler, List.forall_mem_cons.mpr ⟨htitles,
          List.forall_mem_singleton.mpr hruler⟩⟩⟩⟩⟩⟩⟩⟩
  all_goals repeat' with_reducible refine List.not_mem_append ?_ ?_
  all_goals first
    | with_reducible exact notMem_intText _
    | with_reducible exact notMem_fixedNotation _ _
    | with_reducible exact hname
    | decide +kernel

/-- A row is one line. -/
theorem notMem_reportRow (cfg : BenchConfig) {r : FmtResult} {enc : FormatEncoder}
    (hname : r.name = enc.getFormatName) : '\n' ∉ reportRow fixedNotation cfg r := by
  obtain ⟨-, -, -, hbreak⟩ := hname ▸ getFormatName_word enc
  have hblank : '\n' ≠ ' ' := by decide
  have hnumber : ∀ width prec x, '\n' ∉ padLeft ' ' width (fixedNotation.text prec x) :=
    fun width prec x => AlignedColumns.notMem_padLeft hblank (notMem_fixedNotation prec x) width
  have hchk : '\n' ∉ (consoleChk cfg r).elim [] fun chk => "  ".toList ++ chk.toList := by
    unfold consoleChk
    split_ifs <;> decide +kernel
  unfold reportRow
  repeat' with_reducible refine List.not_mem_append ?_ ?_
  all_goals first
    | with_reducible exact hnumber _ _ _
    | with_reducible exact AlignedColumns.notMem_padRight hblank hbreak 9
    | with_reducible exact hchk
    | decide +kernel

/-! ## The reports of a run -/

/-- What a reader finds in the row of a format: its name, its numbers and the verdict, word by word,
exactly if the numbers have room. Each number is read up to half a unit of its last digit. -/
structure ConsoleRowReads (cfg : BenchConfig) (r : FmtResult) (row : Text) : Prop where
  words : words ' ' row = rowCells cfg r ↔ ∀ c ∈ metricCells r, c.Fits
  number : ∀ c ∈ sizeCell r :: metricCells r,
    ∃ y, atof c.text = .finite y ∧ |y - c.value| ≤ 1 / 2 / 10 ^ c.prec

section

variable {env : Environment} {cfg : BenchConfig} {csvPath : Text} {result : RunResult}

/-- The name of a result is that of an encoder. -/
theorem exists_name_of_mem_fmts (hrun : rle4kCmdRun env cfg csvPath = some result)
    {v : Text × FileRecord} (hv : v ∈ result.allFiles) {fr : FmtResult} (hfr : fr ∈ v.2.fmts) :
    ∃ enc : FormatEncoder, fr.name = enc.getFormatName := by
  obtain ⟨p, -, hprocess⟩ := processFile_of_mem_allFiles hrun hv
  obtain ⟨fi, enc, hfmt, hget⟩ := format_of_mem_fmts hprocess hfr
  obtain ⟨doc, g, -, -, -, hresult⟩ := result_of_report hprocess hfmt
  obtain rfl := Option.some.inj (hget.symm.trans hresult)
  exact ⟨enc, rfl⟩

/-- **The console reports are read back.** Line by line, each record of a run has a report of nine
lines, a row for each format, and two lines at the end. A row is read word by word exactly if its
numbers have room in their columns. -/
theorem console_reads_back (hrun : rle4kCmdRun env cfg csvPath = some result)
    (hbreak : ∀ file ∈ inputFiles env cfg, '\n' ∉ fileName file) :
    ∃ text, ∃ reports : List (List Text × List Text),
      rle4kCmdRunConsole fixedNotation env cfg csvPath = some text ∧
      text.splitOn '\n' =
        (reports.flatMap fun rep => rep.1 ++ rep.2 ++ [reportRuler, []]) ++ [[]] ∧
      List.Forall₂ (fun v rep => rep.1.length = 9 ∧
        List.Forall₂ (ConsoleRowReads cfg) v.2.fmts rep.2) result.allFiles reports := by
  -- the verdicts are those of the configuration that was given
  have hchk : ∀ fr, consoleChk (reportConfiguration cfg) fr = consoleChk cfg fr := by
    intro fr
    rw [reportConfiguration]
    cases resolveStripWidth (limitConfig cfg) <;> rfl
  generalize hcfg : reportConfiguration cfg = cfg' at hchk
  have hlines : ∀ l ∈ result.allFiles.flatMap fun v => reportLines fixedNotation cfg' v.2,
      '\n' ∉ l := by
    intro l hl
    obtain ⟨v, hv, hl⟩ := List.mem_flatMap.mp hl
    have hname : '\n' ∉ v.2.shortName := by
      obtain ⟨p, -, hprocess⟩ := processFile_of_mem_allFiles hrun hv
      rw [(resultsAligned_of_report hprocess).shortName]
      exact hbreak v.1 (mem_inputFiles_of_mem_allFiles hrun hv)
    rcases List.mem_append.mp hl with hl | hl
    · rcases List.mem_append.mp hl with hl | hl
      · exact notMem_reportHead cfg' hname l hl
      · obtain ⟨fr, hfr, rfl⟩ := List.mem_map.mp hl
        obtain ⟨enc, henc⟩ := exists_name_of_mem_fmts hrun hv hfr
        exact notMem_reportRow cfg' henc
    · have hend : ∀ l ∈ [reportRuler, []], '\n' ∉ l := by decide +kernel
      exact hend l hl
  have htext : consoleText fixedNotation cfg' (result.allFiles.map Prod.snd) =
      (result.allFiles.flatMap fun v => reportLines fixedNotation cfg' v.2).flatMap
        fun l => l ++ ['\n'] := by
    rw [consoleText, List.flatMap_map, List.flatMap_assoc]
    rfl
  refine ⟨consoleText fixedNotation cfg' (result.allFiles.map Prod.snd),
    result.allFiles.map fun v =>
      (reportHead fixedNotation cfg' v.2, v.2.fmts.map (reportRow fixedNotation cfg')), ?_, ?_, ?_⟩
  · rw [rle4kCmdRunConsole, hrun, hcfg, Option.map_some]
  · rw [htext, AlignedColumns.splitOn_lines hlines, List.flatMap_map]
    rfl
  · rw [List.forall₂_map_right_iff]
    refine List.forall₂_same.mpr fun v hv => ⟨rfl, ?_⟩
    rw [List.forall₂_map_right_iff]
    refine List.forall₂_same.mpr fun fr hfr => ?_
    obtain ⟨enc, henc⟩ := exists_name_of_mem_fmts hrun hv hfr
    have hcells : rowCells cfg' fr = rowCells cfg fr := by rw [rowCells, rowCells, hchk]
    exact ⟨hcells ▸ words_reportRow_iff henc,
      fun c _ => ⟨_, atof_fixedText c.prec c.value, abs_shown_sub_le c.prec c.value⟩⟩

/-- The console of the reference run. -/
theorem console_reads_back_referenceRun :
    ∃ result text, ∃ reports : List (List Text × List Text),
      rle4kCmdRun referenceEnv referenceConfig [] = some result ∧
      rle4kCmdRunConsole fixedNotation referenceEnv referenceConfig [] = some text ∧
      text.splitOn '\n' =
        (reports.flatMap fun rep => rep.1 ++ rep.2 ++ [reportRuler, []]) ++ [[]] ∧
      List.Forall₂ (fun v rep => rep.1.length = 9 ∧
        List.Forall₂ (ConsoleRowReads referenceConfig) v.2.fmts rep.2) result.allFiles reports := by
  obtain ⟨result, _, hrun, -⟩ := referenceRun
  obtain ⟨text, reports, hreports⟩ := console_reads_back hrun (by decide)
  exact ⟨result, text, reports, hrun, hreports⟩

end

end Redcli
