import Redcli.Pipeline.FixedNotation
import Redcli.Program.Main

/-!
# The Report File

The way of the measured numbers through the file system: a run writes its records into a file, and
a program that opens this file later finds them again under the names of the header.

## Main results

* `rowReads_dataRow`: the row of a file is read back, column by column;
* `report_reads_back`: the report of a run is read back.
-/

namespace Redcli

/-! ## Numbers of a row -/

/-- A number that a metric records, with the digits that are written of it. -/
def Metric.number (r : FmtResult) : Metric → Option (ℕ × ℚ)
  | .cr => some (4, r.cr)
  | .csMb => some (6, r.csMb)
  | .sedMs => some (4, r.sedMs)
  | .setGbps => some (4, r.setGbps)
  | .sddMs => some (4, r.sddMs)
  | .sdtGbps => some (4, r.sdtGbps)
  | .schMs => some (4, r.schMs)
  | .chk => none

/-- A number that a record has in a column. -/
def Column.number (r : FileRecord) : Column → Option (ℕ × ℚ)
  | .file => none
  | .ssGb => some (6, r.totalSsGb)
  | .metric fi m => r.fmts[fi]?.bind fun fr => m.number fr

/-- The number in a field of a row. -/
def numberAt (fields : List Text) (j : ℕ) : Option ℚ :=
  fields[j]?.bind fun t => (atof t).toRat?

/-- What a reader finds in a row of a table for `n` formats. -/
structure RowReads (cfg : BenchConfig) (n : ℕ) (r : FileRecord) (fields : List Text) : Prop where
  length : fields.length = (columns cfg n).length
  name : fields.head? = some r.shortName
  /-- A number is read up to half a unit of its last digit. -/
  number : ∀ (j : ℕ) (c : Column) (d : ℕ) (x : ℚ), (columns cfg n)[j]? = some c →
    c.number r = some (d, x) → ∃ y, numberAt fields j = some y ∧ |y - x| ≤ 1 / 2 / 10 ^ d
  verdict : ∀ (j fi : ℕ) (fr : FmtResult), (columns cfg n)[j]? = some (.metric fi .chk) →
    r.fmts[fi]? = some fr → fields[j]? = some (csvChk cfg fr).toList

/-- What a reader finds in a table. -/
structure ReportReads (cfg : BenchConfig) (n : ℕ) (files : List FileRecord)
    (lines : List (List Text)) : Prop where
  rows : List.Forall₂ (RowReads cfg n) files lines
  /-- Two numbers with the same number of digits are never found in the wrong order. -/
  order : ∀ v ∈ files.zip lines, ∀ v' ∈ files.zip lines, ∀ (j j' : ℕ) (c c' : Column) (d : ℕ)
    (x x' y y' : ℚ), (columns cfg n)[j]? = some c → (columns cfg n)[j']? = some c' →
      c.number v.1 = some (d, x) → c'.number v'.1 = some (d, x') →
        numberAt v.2 j = some y → numberAt v'.2 j' = some y' → x ≤ x' → y ≤ y'

section

variable {cfg : BenchConfig} {r : FileRecord} {n : ℕ}

/-- A number is written in fixed notation. -/
theorem field_of_number {c : Column} {d : ℕ} {x : ℚ} (h : c.number r = some (d, x)) :
    c.field fixedNotation cfg r = some (fixedText d x) := by
  cases c with
  | file => cases h
  | ssGb =>
      obtain ⟨rfl, rfl⟩ := Prod.mk.inj (Option.some.inj h)
      rfl
  | metric fi m =>
      obtain ⟨fr, hfr, hm⟩ := Option.bind_eq_some_iff.mp h
      rw [Column.field, hfr, Option.map_some]
      cases m with
      | chk => cases hm
      | _ =>
          obtain ⟨rfl, rfl⟩ := Prod.mk.inj (Option.some.inj hm)
          rfl

/-- The field of a column stands at its position. -/
theorem getElem?_dataRow {num : NumberFormat} (hn : r.fmts.length = n) {j : ℕ} {c : Column}
    {t : Text} (hc : (columns cfg n)[j]? = some c) (ht : c.field num cfg r = some t) :
    (dataRow num cfg r).values[j]? = some t := by
  have hvalues : (dataRow num cfg r).values.map some =
      (columns cfg r.fmts.length).map (Column.field num cfg r) := dataRow_values r
  have hfields := congrArg (fun l => l[j]?) hvalues
  simp only [List.getElem?_map, hn, hc, Option.map_some, ht] at hfields
  obtain ⟨u, hu, hsome⟩ := Option.map_eq_some_iff.mp hfields
  rwa [← Option.some.inj hsome]

/-- The number in a column is the one that its field shows. -/
theorem numberAt_dataRow (hn : r.fmts.length = n) {j : ℕ} {c : Column} {d : ℕ} {x : ℚ}
    (hc : (columns cfg n)[j]? = some c) (hx : c.number r = some (d, x)) :
    numberAt (dataRow fixedNotation cfg r).values j = some (shown d x) := by
  rw [numberAt, getElem?_dataRow hn hc (field_of_number hx), Option.bind_some, atof_fixedText]
  rfl

/-- The row of a file is read back. -/
theorem rowReads_dataRow (hn : r.fmts.length = n) :
    RowReads cfg n r (dataRow fixedNotation cfg r).values := by
  constructor
  case length =>
    have hvalues : (dataRow fixedNotation cfg r).values.map some =
        (columns cfg r.fmts.length).map (Column.field fixedNotation cfg r) := dataRow_values r
    have hlength := congrArg List.length hvalues
    rwa [List.length_map, List.length_map, hn] at hlength
  case name => rfl
  case number =>
    exact fun j c d x hc hx => ⟨_, numberAt_dataRow hn hc hx, abs_shown_sub_le d x⟩
  case verdict =>
    intro j fi fr hc hfr
    refine getElem?_dataRow hn hc ?_
    rw [Column.field, hfr, Option.map_some]
    rfl

/-- The rows of some files are read back. -/
theorem reportReads_dataRow {files : List FileRecord} (hn : ∀ r ∈ files, r.fmts.length = n) :
    ReportReads cfg n files (files.map fun r => (dataRow fixedNotation cfg r).values) := by
  have hrow : ∀ v ∈ files.zip (files.map fun r => (dataRow fixedNotation cfg r).values),
      v.1.fmts.length = n ∧ v.2 = (dataRow fixedNotation cfg v.1).values := by
    intro v hv
    have hzip := List.zip_map' (f := id)
      (g := fun r => (dataRow fixedNotation cfg r).values) (l := files)
    rw [List.map_id] at hzip
    rw [hzip] at hv
    obtain ⟨r, hr, rfl⟩ := List.mem_map.mp hv
    exact ⟨hn r hr, rfl⟩
  constructor
  case rows =>
    rw [List.forall₂_map_right_iff, List.forall₂_same]
    exact fun r hr => rowReads_dataRow (hn r hr)
  case order =>
    intro v hv v' hv' j j' c c' d x x' y y' hc hc' hx hx' hy hy' hle
    obtain ⟨hlength, hfields⟩ := hrow v hv
    obtain ⟨hlength', hfields'⟩ := hrow v' hv'
    rw [hfields, numberAt_dataRow hlength hc hx] at hy
    rw [hfields', numberAt_dataRow hlength' hc' hx'] at hy'
    obtain rfl := Option.some.inj hy
    obtain rfl := Option.some.inj hy'
    exact shown_mono d hle

end

/-! ## The file of a run -/

section

variable {L : Type} [DecidableEq L] {places : Places L}

/-- **The report is read back.** A run that writes a report leaves a file at its path in which a
reader of comma separated values finds a line of names, and then for each record a line with its
numbers. -/
theorem report_reads_back {inv : Invocation} {args : List Text} {files : Files L}
    {cfg : BenchConfig} {csvPath : Text} {result : RunResult}
    (hsetUp : runSetUp places inv args files = .ok (some (cfg, csvPath)))
    (hrun : rle4kCmdRun inv.env cfg csvPath = some result)
    (hwritten : result.csvWritten = some true) (hsome : result.allFiles ≠ [])
    (hnum : inv.num = fixedNotation)
    (hquote : ∀ file ∈ inputFiles inv.env cfg, '"' ∉ fileName file) :
    ∃ text names lines,
      (rle4kCmdRunMain places inv args files).2 (places.locate csvPath) = some (.file text) ∧
      Csv.parse text =
        some ([bom ++ encodingComment] :: [reportComment] :: names :: lines) ∧
      names.map some = (columns cfg (resolveFormats cfg.formats).length).map
        (Column.header (resolveFormats cfg.formats)) ∧
      ReportReads cfg (resolveFormats cfg.formats).length (result.allFiles.map Prod.snd) lines := by
  have hresults : ∀ v ∈ result.allFiles, ∃ p,
      ResultsAligned inv.env p (resolveFormats cfg.formats) v.1 v.2 := by
    rintro ⟨file, r⟩ hr
    obtain ⟨p, -, hprocess⟩ := processFile_of_mem_allFiles hrun hr
    exact ⟨p, resultsAligned_of_report hprocess⟩
  -- the header is that of the first record
  obtain ⟨⟨file, first⟩, rest, hfiles⟩ := List.exists_cons_of_ne_nil hsome
  obtain ⟨p, hfirst⟩ := hresults (file, first) (hfiles ▸ List.mem_cons_self)
  have hhead : (result.allFiles.map Prod.snd).head? = some first := by rw [hfiles]; rfl
  have hnames : ∀ r ∈ result.allFiles.map Prod.snd, '"' ∉ r.shortName := by
    intro r hr
    obtain ⟨v, hv, rfl⟩ := List.mem_map.mp hr
    obtain ⟨_, halign⟩ := hresults v hv
    rw [halign.shortName]
    exact hquote v.1 (mem_inputFiles_of_mem_allFiles hrun hv)
  refine ⟨csvText fixedNotation cfg (result.allFiles.map Prod.snd),
    (headerRow cfg first.fmts).values,
    (result.allFiles.map Prod.snd).map fun r => (dataRow fixedNotation cfg r).values,
    ?_, ?_, ?_, ?_⟩
  · rw [rle4kCmdRunMain, hsetUp]
    simp only [hrun, writeReport, hwritten, hnum, writeText, Function.update_self]
  · rw [csvText_eq hhead (fun fr hfr => hfirst.isBare_name hfr) hnames, Csv.parse_text, csvRows]
    simp only [List.map_cons, List.map_map]
    rfl
  · exact headerRow_values hfirst.length hfirst.name
  · refine reportReads_dataRow fun r hr => ?_
    obtain ⟨v, hv, rfl⟩ := List.mem_map.mp hr
    obtain ⟨_, halign⟩ := hresults v hv
    exact halign.length

end

/-- The options of a run on the reference file with a check and a report. -/
def reportArgs : List Text :=
  ["-i".toList, ['a'], "-sw".toList, "64".toList, "-sh".toList, ['2'], "--check".toList,
    "-f".toList, "1,5".toList, "-o".toList, ['t']]

/-- What the run measures with. -/
def reportConfig : BenchConfig :=
  { inputPath := ['a'], stripWidth := 64, blockLine := 2, checkEnabled := 1, formats := [1, 5] }

/-- Its report. -/
theorem report_reads_back_referenceFile :
    ∃ result text names lines, rle4kCmdRun referenceEnv reportConfig ['t'] = some result ∧
      result.allFiles.length = 1 ∧
      (rle4kCmdRunMain currentPlaces { args := [], env := referenceEnv } reportArgs
        fun _ => none).2 ['t'] = some (.file text) ∧
      Csv.parse text = some ([bom ++ encodingComment] :: [reportComment] :: names :: lines) ∧
      names.map some = (columns reportConfig 2).map (Column.header [7, 0xF]) ∧
      ReportReads reportConfig 2 (result.allFiles.map Prod.snd) lines := by
  have hwrites : (rle4kCmdRun referenceEnv reportConfig ['t']).map (fun result =>
      (result.allFiles.length, result.csvWritten)) = some (1, some true) := by decide +kernel
  obtain ⟨result, hrun, hpair⟩ := Option.map_eq_some_iff.mp hwrites
  obtain ⟨hlength, hwritten⟩ := Prod.mk.inj hpair
  have hsetUp : runSetUp currentPlaces { args := [], env := referenceEnv } reportArgs
      (fun _ => none) = .ok (some (reportConfig, ['t'])) := rfl
  have hsome : result.allFiles ≠ [] := List.ne_nil_of_length_eq_add_one hlength
  obtain ⟨text, names, lines, htext⟩ :=
    report_reads_back hsetUp hrun hwritten hsome rfl (by decide)
  exact ⟨result, text, names, lines, hrun, hlength, htext⟩

end Redcli
