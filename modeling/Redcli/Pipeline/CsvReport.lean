import Redcli.Pipeline.ExitStatus
import Redcli.Support.Csv

/-!
# The CSV Report

`rle4k_write_csv`, and what a reader of its table finds in each column. The header is taken from
the first record, each row from a record of its own.

## Main results

* `csvText_eq`: the text of the report is that of a table;
* `columns_aligned`: in each row of the table of a run, each field is what the header says.
-/

namespace Redcli

/-! ## The text -/

/-- How numbers are written. -/
structure NumberFormat where
  /-- `std::fixed << std::setprecision(prec) << x`. -/
  text : ℕ → ℚ → Text
  /-- No number has a comma, a quote or a line break. -/
  isBare : ∀ prec x, Csv.IsBare (text prec x)

/-- A number rounded to an integer, to an even one if two are as close. -/
def roundHalfEven (y : ℚ) : ℤ :=
  let rest := y - ⌊y⌋
  if rest < 1 / 2 ∨ rest = 1 / 2 ∧ ⌊y⌋ % 2 = 0 then ⌊y⌋ else ⌊y⌋ + 1

/-- A number with `prec` digits behind the point. -/
def fixedText (prec : ℕ) (x : ℚ) : Text :=
  let digits := Nat.toDigits 10 (roundHalfEven (|x| * 10 ^ prec)).toNat
  let digits := List.replicate (prec + 1 - digits.length) '0' ++ digits
  let whole := digits.length - prec
  (if x < 0 then ['-'] else []) ++ digits.take whole ++
    (if prec = 0 then [] else '.' :: digits.drop whole)

/-- A number is written with digits, a point and a sign. -/
theorem fixedText_char {prec : ℕ} {x : ℚ} {c : Char} (hc : c ∈ fixedText prec x) :
    c.isDigit = true ∨ c = '.' ∨ c = '-' := by
  have hdigits : ∀ k n : ℕ, c ∈ List.replicate k '0' ++ Nat.toDigits 10 n → c.isDigit = true := by
    intro k n hmem
    rcases List.mem_append.mp hmem with hzero | hdigit
    · obtain rfl := List.eq_of_mem_replicate hzero
      decide
    · exact Nat.isDigit_of_mem_toDigits (by decide) (by decide) hdigit
  rw [fixedText, List.mem_append, List.mem_append] at hc
  rcases hc with (hsign | hwhole) | hpoint
  · split_ifs at hsign
    · exact .inr (.inr (List.mem_singleton.mp hsign))
    · exact absurd hsign List.not_mem_nil
  · exact .inl (hdigits _ _ (List.mem_of_mem_take hwhole))
  · split_ifs at hpoint
    · exact absurd hpoint List.not_mem_nil
    · rcases List.mem_cons.mp hpoint with rfl | hfraction
      · exact .inr (.inl rfl)
      · exact .inl (hdigits _ _ (List.mem_of_mem_drop hfraction))

/-- Fixed notation in the classic locale. -/
def fixedNotation : NumberFormat where
  text := fixedText
  isBare prec x c hc := by
    -- a comma, a quote or a line break is none of the characters of a number
    intro hspecial
    simp only [List.mem_cons, List.not_mem_nil, or_false] at hspecial
    rcases hspecial with rfl | rfl | rfl | rfl <;> exact absurd (fixedText_char hc) (by decide)

example : fixedNotation.text 4 (2 / 3) = "0.6667".toList ∧
    fixedNotation.text 0 (-5 / 2) = "-2".toList := by decide +kernel

/-- The byte order mark of UTF-8. -/
def bom : Text := [0xEF, 0xBB, 0xBF].map Char.ofNat

/-- The first line of the report. -/
def encodingComment : Text := "# Encoding: UTF-8 (BOM)".toList

/-- The second line of the report. -/
def reportComment : Text :=
  "# redcli comparison report; one row per DIF file; algorithms in columns".toList

section

variable (num : NumberFormat) (cfg : BenchConfig)

/-- The columns of a format in the header. -/
def csvHeader (r : FmtResult) : Text :=
  let a := r.name.toList
  ',' :: a ++ "_cr".toList ++ ',' :: a ++ "_cs_mb".toList ++
    ',' :: a ++ "_sed_ms".toList ++ ',' :: a ++ "_set_gbps".toList ++
    ',' :: a ++ "_sdd_ms".toList ++ ',' :: a ++ "_sdt_gbps".toList ++
    (if cfg.checkEnabled ≠ 0 then ',' :: a ++ "_sch_ms".toList else []) ++
    ',' :: a ++ "_chk".toList

/-- The fields of a format in the row of a file. -/
def csvFields (r : FmtResult) : Text :=
  ',' :: num.text 4 r.cr ++ ',' :: num.text 6 r.csMb ++
    ',' :: num.text 4 r.sedMs ++ ',' :: num.text 4 r.setGbps ++
    ',' :: num.text 4 r.sddMs ++ ',' :: num.text 4 r.sdtGbps ++
    (if cfg.checkEnabled ≠ 0 then ',' :: num.text 4 r.schMs else []) ++
    ',' :: (csvChk cfg r).toList

/-- The row of a file. -/
def csvLine (r : FileRecord) : Text :=
  -- a quote in the name would not be written twice
  '"' :: r.shortName ++ "\",".toList ++ num.text 6 r.totalSsGb ++
    r.fmts.flatMap (csvFields num cfg) ++ ['\n']

/-- What `rle4k_write_csv` writes. -/
def csvText (files : List FileRecord) : Text :=
  -- the columns are those of the first record
  bom ++ encodingComment ++ ['\n'] ++ reportComment ++ ['\n'] ++
    "file,ss_gb".toList ++ (files.head?.elim [] fun r => r.fmts.flatMap (csvHeader cfg)) ++
    ['\n'] ++ files.flatMap (csvLine num cfg)

/-- The lines of the report in front of the rows. -/
def csvHead (files : List FileRecord) : Text :=
  bom ++ encodingComment ++ ['\n'] ++ reportComment ++ ['\n'] ++
    "file,ss_gb".toList ++ (files.head?.elim [] fun r => r.fmts.flatMap (csvHeader cfg)) ++ ['\n']

/-- Every record has its row behind them. -/
theorem csvText_eq_csvHead_append (files : List FileRecord) :
    csvText num cfg files = csvHead cfg files ++ (files.map (csvLine num cfg)).flatten := rfl

/-- `rle4k_write_csv`: the text of the file, or `none` if it cannot be written. -/
def rle4kWriteCsv (env : Environment) (path : Text) (files : List FileRecord) : Option Text :=
  if env.fileWritable path then some (csvText num cfg files) else none

end

/-! ## The columns -/

/-- The metrics of a format. -/
inductive Metric where
  | cr | csMb | sedMs | setGbps | sddMs | sdtGbps | schMs | chk
  deriving DecidableEq, Repr

/-- What follows the name of the format in the header. -/
def Metric.suffix : Metric → String
  | .cr => "_cr"
  | .csMb => "_cs_mb"
  | .sedMs => "_sed_ms"
  | .setGbps => "_set_gbps"
  | .sddMs => "_sdd_ms"
  | .sdtGbps => "_sdt_gbps"
  | .schMs => "_sch_ms"
  | .chk => "_chk"

section

variable (num : NumberFormat) (cfg : BenchConfig)

/-- The value of a metric in a row. -/
def Metric.field (r : FmtResult) : Metric → Text
  | .cr => num.text 4 r.cr
  | .csMb => num.text 6 r.csMb
  | .sedMs => num.text 4 r.sedMs
  | .setGbps => num.text 4 r.setGbps
  | .sddMs => num.text 4 r.sddMs
  | .sdtGbps => num.text 4 r.sdtGbps
  | .schMs => num.text 4 r.schMs
  | .chk => (csvChk cfg r).toList

/-- The metrics that are shown. The time of the check is one of them only with the check on. -/
def metrics : List Metric :=
  [.cr, .csMb, .sedMs, .setGbps, .sddMs, .sdtGbps] ++
    (if cfg.checkEnabled ≠ 0 then [.schMs] else []) ++ [.chk]

/-- A column of the table: the name of the file, its source size, or a metric of the format at a
position of the format list. -/
inductive Column where
  | file
  | ssGb
  | metric (fi : ℕ) (m : Metric)
  deriving DecidableEq, Repr

/-- The columns of a table for `n` formats. -/
def columns (n : ℕ) : List Column :=
  .file :: .ssGb :: (List.range n).flatMap fun fi => (metrics cfg).map (.metric fi)

/-- What the header says about a column: for a metric it names the format. -/
def Column.header (fmts : List ℤ) : Column → Option Text
  | .file => some "file".toList
  | .ssGb => some "ss_gb".toList
  | .metric fi m => (fmts[fi]?.bind getEncoder).map fun enc =>
      enc.getFormatName.toList ++ m.suffix.toList

/-- What a record has for a column: for a metric it is that of the result at the position. -/
def Column.field (r : FileRecord) : Column → Option Text
  | .file => some r.shortName
  | .ssGb => some (num.text 6 r.totalSsGb)
  | .metric fi m => r.fmts[fi]?.map fun fr => m.field num cfg fr

/-! ## The rows -/

/-- A comment in front of the table, which is a row with one field. -/
def commentRow (t : Text) : Csv.Row := { first := .ofText t, rest := [] }

/-- A row of the table: a cell for the file, one for its size, and one for each metric of each
result. -/
def tableRow (first : Csv.Cell) (size : Text) (results : List FmtResult)
    (cell : FmtResult → Metric → Text) : Csv.Row :=
  { first := first
    rest := .ofText size :: results.flatMap fun fr =>
      (metrics cfg).map fun m => .ofText (cell fr m) }

/-- The header as a row. -/
def headerRow (results : List FmtResult) : Csv.Row :=
  tableRow cfg (.ofText "file".toList) "ss_gb".toList results fun fr m =>
    fr.name.toList ++ m.suffix.toList

/-- The row of a file, with the name of the file in quotes. -/
def dataRow (r : FileRecord) : Csv.Row :=
  tableRow cfg (.quoted r.shortName) (num.text 6 r.totalSsGb) r.fmts fun fr m => m.field num cfg fr

/-- The rows of the report. -/
def csvRows (results : List FmtResult) (files : List FileRecord) : List Csv.Row :=
  commentRow (bom ++ encodingComment) :: commentRow reportComment :: headerRow cfg results ::
    files.map (dataRow num cfg)

end

variable {num : NumberFormat} {cfg : BenchConfig}

/-- The columns of a format in the header, metric by metric. -/
theorem csvHeader_eq (r : FmtResult) :
    csvHeader cfg r =
      (metrics cfg).flatMap fun m => ',' :: (r.name.toList ++ m.suffix.toList) := by
  unfold csvHeader metrics
  by_cases hcheck : cfg.checkEnabled = 0 <;> simp [hcheck, Metric.suffix]

/-- The fields of a format, metric by metric. -/
theorem csvFields_eq (r : FmtResult) :
    csvFields num cfg r = (metrics cfg).flatMap fun m => ',' :: m.field num cfg r := by
  unfold csvFields metrics
  by_cases hcheck : cfg.checkEnabled = 0 <;> simp [hcheck, Metric.field]

/-- No metric needs quotes. -/
theorem Metric.isBare_field (m : Metric) (r : FmtResult) : Csv.IsBare (m.field num cfg r) := by
  cases m with
  | chk =>
      show Csv.IsBare (csvChk cfg r).toList
      unfold csvChk
      split_ifs <;> decide
  | _ => exact num.isBare _ _

/-- The suffix of a metric needs no quotes. -/
theorem Metric.isBare_suffix (m : Metric) : Csv.IsBare m.suffix.toList := by
  cases m <;> decide

/-- A comment without a comma is a row with one field. -/
theorem commentRow_text {t : Text} (ht : Csv.IsBare t) : (commentRow t).text = t ++ ['\n'] := by
  rw [Csv.Row.text, commentRow, Csv.Cell.text_ofText ht, List.flatMap_nil, List.append_nil]

section

variable {first : Csv.Cell} {size : Text} {results : List FmtResult}
  {cell : FmtResult → Metric → Text}

/-- The text of a row of the table. -/
theorem tableRow_text (hsize : Csv.IsBare size)
    (hcells : ∀ fr ∈ results, ∀ m, Csv.IsBare (cell fr m)) :
    (tableRow cfg first size results cell).text =
      first.text ++ ',' :: size ++
        (results.flatMap fun fr => (metrics cfg).flatMap fun m => ',' :: cell fr m) ++ ['\n'] := by
  have hbare : (results.flatMap fun fr => (metrics cfg).flatMap fun m =>
      ',' :: (Csv.Cell.ofText (cell fr m)).text) =
      results.flatMap fun fr => (metrics cfg).flatMap fun m => ',' :: cell fr m := by
    refine List.flatMap_congr fun fr hfr => List.flatMap_congr fun m _ => ?_
    rw [Csv.Cell.text_ofText (hcells fr hfr m)]
  rw [Csv.Row.text, tableRow, List.flatMap_cons, List.flatMap_assoc, Csv.Cell.text_ofText hsize]
  simp only [List.flatMap_map, hbare, List.append_assoc]

/-- What a list has at each position, put together. -/
private theorem flatMap_range_getElem? {α β : Type} (l : List α) (f : Option α → List β) :
    (List.range l.length).flatMap (fun i => f l[i]?) = l.flatMap fun x => f (some x) := by
  have hall : (List.range l.length).map (fun i => l[i]?) = l.map some := by
    refine List.ext_getElem? fun i => ?_
    by_cases hi : i < l.length
    · simp [hi]
    · simp [hi]
  rw [← List.flatMap_map (f := fun i => l[i]?), hall, List.flatMap_map]

/-- The fields of a row of the table, by the positions of the results. -/
theorem tableRow_values :
    (tableRow cfg first size results cell).values.map some =
      some first.value :: some size :: (List.range results.length).flatMap fun fi =>
        (metrics cfg).map fun m => results[fi]?.map fun fr => cell fr m := by
  rw [flatMap_range_getElem? results fun result : Option FmtResult =>
    (metrics cfg).map fun m => result.map fun fr => cell fr m, Csv.Row.values,
    Csv.Row.cells, tableRow, List.map_cons, List.map_cons, List.map_cons, List.map_cons,
    Csv.Cell.value_ofText, List.map_map, List.map_flatMap]
  simp only [List.map_map, Function.comp_def, Csv.Cell.value_ofText, Option.map_some]

end

/-- The text of the header. -/
theorem headerRow_text {results : List FmtResult}
    (hnames : ∀ fr ∈ results, Csv.IsBare fr.name.toList) :
    (headerRow cfg results).text =
      "file,ss_gb".toList ++ results.flatMap (csvHeader cfg) ++ ['\n'] := by
  rw [headerRow, tableRow_text (by decide)
    fun fr hfr m => Csv.isBare_append.mpr ⟨hnames fr hfr, m.isBare_suffix⟩,
    Csv.Cell.text_ofText (by decide), List.flatMap_congr fun fr _ => csvHeader_eq fr]
  rfl

/-- The text of the row of a file. -/
theorem dataRow_text {r : FileRecord} (hname : '"' ∉ r.shortName) :
    (dataRow num cfg r).text = csvLine num cfg r := by
  rw [dataRow, tableRow_text (num.isBare _ _) fun fr _ m => m.isBare_field fr,
    Csv.Cell.text_quoted hname, csvLine, List.flatMap_congr fun fr _ => csvFields_eq fr]
  simp

/-- The report is the text of its rows, if there is a first record. -/
theorem csvText_eq {r : FileRecord} {files : List FileRecord} (hfirst : files.head? = some r)
    (hnames : ∀ fr ∈ r.fmts, Csv.IsBare fr.name.toList)
    (hquote : ∀ r' ∈ files, '"' ∉ r'.shortName) :
    csvText num cfg files = (csvRows num cfg r.fmts files).flatMap Csv.Row.text := by
  have hrows : files.flatMap (csvLine num cfg) =
      (files.map (dataRow num cfg)).flatMap Csv.Row.text := by
    rw [List.flatMap_map]
    exact List.flatMap_congr fun r' hr' => (dataRow_text (hquote r' hr')).symm
  rw [csvText, csvRows, List.flatMap_cons, List.flatMap_cons, List.flatMap_cons, ← hrows,
    headerRow_text hnames, commentRow_text (by decide), commentRow_text (by decide), hfirst]
  simp only [Option.elim_some, List.append_assoc]

/-! ## Alignment -/

/-- What stands in the columns, one after the other. -/
private theorem columns_map {α : Type} (n : ℕ) (g : Column → α) :
    (columns cfg n).map g =
      g .file :: g .ssGb :: (List.range n).flatMap fun fi =>
        (metrics cfg).map fun m => g (.metric fi m) := by
  rw [columns, List.map_cons, List.map_cons, List.map_flatMap]
  simp only [List.map_map, Function.comp_def]

/-- The fields of a data row are those of its record. -/
theorem dataRow_values (r : FileRecord) :
    (dataRow num cfg r).values.map some =
      (columns cfg r.fmts.length).map (Column.field num cfg r) := by
  rw [dataRow, tableRow_values, columns_map]
  rfl

/-- The fields of the header name the formats of the format list. -/
theorem headerRow_values {fmts : List ℤ} {results : List FmtResult}
    (hlength : results.length = fmts.length)
    (hname : ∀ fi : ℕ, results[fi]?.map FmtResult.name =
      (fmts[fi]?.bind getEncoder).map FormatEncoder.getFormatName) :
    (headerRow cfg results).values.map some =
      (columns cfg fmts.length).map (Column.header fmts) := by
  -- the name in a column is that of the result at its position
  have hmetric : ∀ fi m, Column.header fmts (.metric fi m) =
      results[fi]?.map fun fr => fr.name.toList ++ m.suffix.toList := by
    intro fi m
    have := congrArg (Option.map fun name : String => name.toList ++ m.suffix.toList) (hname fi)
    rw [Option.map_map, Option.map_map] at this
    exact this.symm
  rw [headerRow, tableRow_values, columns_map, hlength, Csv.Cell.value_ofText]
  simp only [hmetric]
  rfl

/-! ## Runs -/

/-- The known ones of the configured IDs. -/
def knownIds (ids : List ℤ) : List ℤ := ids.filter fun id => 0 ≤ id ∧ id < 6

/-- A record has one result for each format of the format list, in order. -/
structure ResultsAligned (env : Environment) (p : RunParams) (fmts : List ℤ) (file : Text)
    (r : FileRecord) : Prop where
  shortName : r.shortName = fileName file
  length : r.fmts.length = fmts.length
  /-- The result at a position is that of the measurement at the position. -/
  result : ∀ (fi : ℕ) (enc : FormatEncoder), fmts[fi]? = some enc.getSupportedFormat.value →
    ∃ doc g acc, env.load file = .ok (some doc) ∧ imageGeometry doc p = some g ∧
      measureFormat env p doc enc file g.ncols g.nrows fi = some acc ∧
      r.fmts[fi]? = some (fmtResult enc acc)
  /-- The source size of a file is that of its first format. -/
  source : ∀ fr, r.fmts[0]? = some fr → r.totalSsGb = fr.ssGb

/-- A table has the columns of a format list: each field is what the header says. -/
structure TableAligned (num : NumberFormat) (cfg : BenchConfig) (fmts : List ℤ)
    (files : List FileRecord) (names : List Text) (lines : List (List Text)) : Prop where
  header : names.map some = (columns cfg fmts.length).map (Column.header fmts)
  rows : List.Forall₂ (fun r fields => fields.length = names.length ∧
    fields.map some = (columns cfg fmts.length).map (Column.field num cfg r)) files lines

/-- The formats of a run are the same, in the same order, in the format list, in each record and
in the CSV. -/
structure ColumnsAligned (num : NumberFormat) (env : Environment) (cfg : BenchConfig)
    (csvPath : Text) (result : RunResult) : Prop where
  /-- The format list is made of the known IDs in order, or of all six if none is known. -/
  resolved : resolveFormats cfg.formats =
    if knownIds cfg.formats = [] then formatLut else (knownIds cfg.formats).map mapFormatId
  /-- No format is dropped for want of an encoder. -/
  encoders : ∀ fmt ∈ resolveFormats cfg.formats, ∃ enc, getEncoder fmt = some enc
  results : ∀ v ∈ result.allFiles, ∃ p, runParams cfg = some p ∧
    ResultsAligned env p (resolveFormats cfg.formats) v.1 v.2
  /-- The CSV, with the comments in front of its table. -/
  table : ∀ stripWidth, resolveStripWidth (limitConfig cfg) = some stripWidth →
    ∀ text, rle4kWriteCsv num { limitConfig cfg with stripWidth := stripWidth } env csvPath
        (result.allFiles.map Prod.snd) = some text → result.allFiles ≠ [] →
      ∃ header rows, Csv.parse text =
          some ([bom ++ encodingComment] :: [reportComment] :: header :: rows) ∧
        TableAligned num cfg (resolveFormats cfg.formats) (result.allFiles.map Prod.snd) header rows

/-- An ID is known exactly if it is mapped to a format. -/
theorem mapFormatId_nonneg_iff (id : ℤ) : 0 ≤ mapFormatId id ↔ 0 ≤ id ∧ id < 6 := by
  have hlut : ∀ i < 6, 0 ≤ formatLut.getD i (-1) := by decide
  have hlength : (formatLut.length : ℤ) = 6 := rfl
  unfold mapFormatId
  rw [hlength]
  split_ifs with hrange
  · omega
  · exact iff_of_true (hlut _ (by omega)) (by omega)

/-- The format list from the known IDs. -/
theorem resolveFormats_eq (ids : List ℤ) :
    resolveFormats ids =
      if knownIds ids = [] then formatLut else (knownIds ids).map mapFormatId := by
  have hknown : (ids.map mapFormatId).filter (fun f => 0 ≤ f) = (knownIds ids).map mapFormatId := by
    rw [List.filter_map, knownIds]
    refine congrArg _ (List.filter_congr fun id _ => ?_)
    exact decide_eq_decide.mpr (mapFormatId_nonneg_iff id)
  rw [resolveFormats, hknown]
  simp only [List.isEmpty_iff, List.map_eq_nil_iff]
  rfl

variable {env : Environment} {csvPath : Text} {result : RunResult}

/-- A run on files reports whether `rle4k_write_csv` has written its records. -/
theorem csvWritten_eq {files : List Text} (hrun : runFiles env cfg csvPath files = some result)
    (hpath : csvPath ≠ []) :
    result.csvWritten =
      some (rle4kWriteCsv num cfg env csvPath (result.allFiles.map Prod.snd)).isSome := by
  obtain ⟨-, -, hcsv, -⟩ := runFiles_eq_some_iff.mp hrun
  rw [hcsv, if_neg (by rwa [List.isEmpty_iff]), rle4kWriteCsv]
  cases env.fileWritable csvPath <;> rfl

/-- A record that is reported for a file has its results in the order of the formats. -/
theorem resultsAligned_of_report {p : RunParams} {ids : List ℤ} {file : Text} {r : FileRecord}
    (h : processFile env p (resolveFormats ids) file = some (.report r)) :
    ResultsAligned env p (resolveFormats ids) file r := by
  obtain ⟨-, doc, g, faccs, hload, -, hg, hmeasure, hr⟩ := processFile_eq_report_iff.mp h
  have hresult : ∀ (fi : ℕ) (enc : FormatEncoder),
      (resolveFormats ids)[fi]? = some enc.getSupportedFormat.value →
        ∃ acc, faccs[fi]? = some acc ∧
          measureFormat env p doc enc file g.ncols g.nrows fi = some acc ∧
          r.fmts[fi]? = some (fmtResult enc acc) := by
    intro fi enc hfmt
    have henc : getEncoder enc.getSupportedFormat.value = some enc :=
      getEncoder_eq_some_iff.mpr rfl
    obtain ⟨acc, hacc, hformat⟩ := measureFormats_getElem? hmeasure hfmt henc
    refine ⟨acc, hacc, hformat, ?_⟩
    rw [hr]
    exact fileRecord_fmts_getElem? (fun fmt hfmt => getEncoder_of_mem_resolveFormats hfmt) hfmt
      henc hacc
  constructor
  case shortName => rw [hr, fileRecord]
  case length => exact length_fmts_of_report h
  case result =>
    intro fi enc hfmt
    obtain ⟨acc, -, hformat, hget⟩ := hresult fi enc hfmt
    exact ⟨doc, g, acc, hload, hg, hformat, hget⟩
  case source =>
    intro fr hfr
    -- the first result is that of the first format
    have hlt : 0 < (resolveFormats ids).length :=
      length_fmts_of_report h ▸ (List.getElem?_eq_some_iff.mp hfr).1
    obtain ⟨enc, hfmt⟩ := exists_format_of_lt hlt
    obtain ⟨acc, hacc, -, hget⟩ := hresult 0 enc hfmt
    obtain rfl := Option.some.inj (hfr.symm.trans hget)
    rw [hr, fileRecord, List.head?_eq_getElem?, hacc]
    rfl

/-- The results of a record have the names of the formats. -/
theorem ResultsAligned.name {p : RunParams} {ids : List ℤ} {file : Text} {r : FileRecord}
    (h : ResultsAligned env p (resolveFormats ids) file r) (fi : ℕ) :
    r.fmts[fi]?.map FmtResult.name =
      ((resolveFormats ids)[fi]?.bind getEncoder).map FormatEncoder.getFormatName := by
  by_cases hlt : fi < (resolveFormats ids).length
  · obtain ⟨enc, hfmt⟩ := exists_format_of_lt hlt
    obtain ⟨_, _, acc, -, -, -, hget⟩ := h.result fi enc hfmt
    rw [hget, hfmt, Option.bind_some, getEncoder_eq_some_iff.mpr rfl]
    rfl
  · rw [List.getElem?_eq_none (h.length.trans_le (Nat.not_lt.mp hlt)),
      List.getElem?_eq_none (Nat.not_lt.mp hlt)]
    rfl

/-- No result has a name that needs quotes. -/
theorem ResultsAligned.isBare_name {p : RunParams} {ids : List ℤ} {file : Text} {r : FileRecord}
    (h : ResultsAligned env p (resolveFormats ids) file r) {fr : FmtResult} (hfr : fr ∈ r.fmts) :
    Csv.IsBare fr.name.toList := by
  obtain ⟨fi, hfi⟩ := List.mem_iff_getElem?.mp hfr
  have hname := h.name fi
  rw [hfi, Option.map_some, eq_comm, Option.map_eq_some_iff] at hname
  obtain ⟨enc, -, hname⟩ := hname
  rw [← hname]
  cases enc <;> decide

/-- **Columns are aligned.** In every run on files without a quote in their names, a format has
the same position in the format list, in each record and in the CSV. -/
theorem columns_aligned (num : NumberFormat) (hrun : rle4kCmdRun env cfg csvPath = some result)
    (hquote : ∀ file ∈ inputFiles env cfg, '"' ∉ fileName file) :
    ColumnsAligned num env cfg csvPath result := by
  have hresults : ∀ v ∈ result.allFiles, ∃ p, runParams cfg = some p ∧
      ResultsAligned env p (resolveFormats cfg.formats) v.1 v.2 := by
    rintro ⟨file, r⟩ hr
    obtain ⟨p, hp, hprocess⟩ := processFile_of_mem_allFiles hrun hr
    exact ⟨p, hp, resultsAligned_of_report hprocess⟩
  constructor
  case resolved => exact resolveFormats_eq cfg.formats
  case encoders => exact fun fmt hfmt => getEncoder_of_mem_resolveFormats hfmt
  case results => exact hresults
  case table =>
    intro stripWidth _ text htext hsome
    -- the header is that of the first record
    obtain ⟨⟨file, first⟩, rest, hfiles⟩ := List.exists_cons_of_ne_nil hsome
    have hmem : (file, first) ∈ result.allFiles := hfiles ▸ List.mem_cons_self
    obtain ⟨p, -, hfirst⟩ := hresults _ hmem
    have hhead : (result.allFiles.map Prod.snd).head? = some first := by rw [hfiles]; rfl
    have hnames : ∀ r ∈ result.allFiles.map Prod.snd, '"' ∉ r.shortName := by
      intro r hr
      obtain ⟨v, hv, rfl⟩ := List.mem_map.mp hr
      obtain ⟨_, -, halign⟩ := hresults v hv
      rw [halign.shortName]
      exact hquote v.1 (mem_inputFiles_of_mem_allFiles hrun hv)
    have hwritten : text = csvText num cfg (result.allFiles.map Prod.snd) := by
      unfold rle4kWriteCsv at htext
      split_ifs at htext
      exact (Option.some.inj htext).symm
    rw [hwritten, csvText_eq hhead (fun fr hfr => hfirst.isBare_name hfr) hnames, Csv.parse_text]
    have hheader : (headerRow cfg first.fmts).values.map some =
        (columns cfg (resolveFormats cfg.formats).length).map
          (Column.header (resolveFormats cfg.formats)) :=
      headerRow_values hfirst.length hfirst.name
    refine ⟨_, _, rfl, hheader, ?_⟩
    rw [List.map_map, List.forall₂_map_right_iff, List.forall₂_same]
    intro r hr
    obtain ⟨v, hv, rfl⟩ := List.mem_map.mp hr
    obtain ⟨_, -, halign⟩ := hresults v hv
    have hrow : (dataRow num cfg v.2).values.map some =
        (columns cfg (resolveFormats cfg.formats).length).map (Column.field num cfg v.2) := by
      rw [← halign.length, dataRow_values]
    -- the row and the header have a field for each column
    have htop := congrArg List.length hheader
    have hfields := congrArg List.length hrow
    rw [List.length_map, List.length_map] at htop hfields
    exact ⟨hfields.trans htop.symm, hrow⟩

/-- An environment with three files, of which one has a comma in its name and one cannot be
loaded. -/
def threeFilesEnv : Environment :=
  { referenceEnv with
    fileExists := fun _ => some true
    directory := fun _ => some [("a,b.dif".toList, true), ("c.dif".toList, true),
      ("d.dif".toList, true)]
    load := fun file =>
      if file = "c.dif".toList then .error .unknown else .ok (some referenceDocument) }

/-- A configuration for these files, with an unknown ID and one that is given twice. -/
def threeFilesConfig : BenchConfig := { referenceConfig with mode := 1, formats := [5, 9, 1, 5] }

/-- The run on the three files has two records, and its columns are aligned. -/
theorem columns_aligned_threeFiles :
    ∃ result, rle4kCmdRun threeFilesEnv threeFilesConfig ['t'] = some result ∧
      result.allFiles.map (fun v => v.2.fmts.map FmtResult.name) =
        [["BROTLI", "GZIP", "BROTLI"], ["BROTLI", "GZIP", "BROTLI"]] ∧
      ColumnsAligned fixedNotation threeFilesEnv threeFilesConfig ['t'] result := by
  have hnames : (rle4kCmdRun threeFilesEnv threeFilesConfig ['t']).map (fun result =>
      result.allFiles.map fun v => v.2.fmts.map FmtResult.name) =
      some [["BROTLI", "GZIP", "BROTLI"], ["BROTLI", "GZIP", "BROTLI"]] := by decide +kernel
  obtain ⟨result, hrun, hnames⟩ := Option.map_eq_some_iff.mp hnames
  exact ⟨result, hrun, hnames, columns_aligned fixedNotation hrun (by decide)⟩

/-- The format list keeps some of the configured IDs, in order. -/
def KeepsIds (ids fmts : List ℤ) : Prop :=
  ∃ keep : ℤ → Bool, fmts = (ids.filter keep).map mapFormatId

/-- An unknown ID alone yields six formats, which are not those of some configured IDs. -/
theorem not_keepsIds_unknown :
    resolveFormats [6] = [0x4, 0x7, 0xB, 0xA, 0x8, 0xF] ∧ ¬ KeepsIds [6] (resolveFormats [6]) := by
  refine ⟨by decide, ?_⟩
  rintro ⟨keep, hkeep⟩
  have hlength := congrArg List.length hkeep
  have hle := List.length_filter_le keep [6]
  rw [List.length_map] at hlength
  have hsix : (resolveFormats [6]).length = 6 := by decide
  rw [hlength] at hsix
  rw [hsix] at hle
  exact absurd hle (by decide)

end Redcli
