import Redcli.Pipeline.RunLog
import Redcli.Pipeline.Switches

/-!
# What the Log Accounts for

The errors, the skipped files and the negative verdicts of a run, in its log and in its results.

## Main results

* `fileLog_says`: the section of a file says what became of it;
* `log_accounts`: the errors, skipped files and negative verdicts of a run are those of its log.
-/

namespace Redcli

open AlignedColumns (padRight)

/-! ## The kinds of lines -/

/-- A line with an error. -/
def isErrorLine (l : Text) : Bool := "[ERROR]".toList.isPrefixOf l

/-- A line about a file that is skipped. -/
def isSkipLine (l : Text) : Bool := "  [SKIP]".toList.isPrefixOf l

/-- A line about a column with a negative verdict. -/
def isNgLine (l : Text) : Bool := "  [".toList.isPrefixOf l && " NG".toList.isSuffixOf l

/-- A line of another kind. -/
def IsPlain (l : Text) : Prop :=
  isErrorLine l = false ∧ isSkipLine l = false ∧ isNgLine l = false

instance : DecidablePred IsPlain := fun _ => inferInstanceAs (Decidable (_ ∧ _))

/-- How a line of one of the kinds begins. -/
def kindMarks : List Text := ["[ER".toList, "  [".toList]

/-- A text that a line begins with gives its first characters. -/
theorem isPrefixOf_eq_false {u l : Text} {k : ℕ} (hk : k ≤ u.length) (hne : u.take k ≠ l.take k) :
    u.isPrefixOf l = false := by
  rw [← Bool.not_eq_true, List.isPrefixOf_iff_prefix]
  rintro ⟨v, rfl⟩
  exact hne (List.take_append_of_le_length hk).symm

/-- The beginning of a line decides that it is of no kind. -/
theorem isPlain_append {s : Text} (hlength : 3 ≤ s.length) (hmark : s.take 3 ∉ kindMarks)
    (t : Text) : IsPlain (s ++ t) := by
  have hmarked : ∀ u : Text, 3 ≤ u.length → u.take 3 ∈ kindMarks →
      u.isPrefixOf (s ++ t) = false := by
    intro u hu hmem
    apply isPrefixOf_eq_false hu
    rw [List.take_append_of_le_length hlength]
    exact fun h => hmark (h ▸ hmem)
  refine ⟨hmarked _ (by decide +kernel) (by decide +kernel),
    hmarked _ (by decide +kernel) (by decide +kernel), ?_⟩
  rw [isNgLine, hmarked _ (by decide +kernel) (by decide +kernel), Bool.false_and]

/-- A line that begins with the mark of an error. -/
theorem errorLine_kind {s : Text} (hs : "[ERROR]".toList <+: s) (t : Text) :
    isErrorLine (s ++ t) = true ∧ isSkipLine (s ++ t) = false ∧ isNgLine (s ++ t) = false := by
  have hmark : (s ++ t).take 3 = "[ERROR]".toList.take 3 := by
    obtain ⟨u, rfl⟩ := hs
    rw [List.append_assoc]
    exact List.take_append_of_le_length (by decide +kernel)
  have hother : ∀ u : Text, 3 ≤ u.length → u.take 3 ≠ "[ERROR]".toList.take 3 →
      u.isPrefixOf (s ++ t) = false :=
    fun u hu hne => isPrefixOf_eq_false hu (hmark.symm ▸ hne)
  refine ⟨List.isPrefixOf_iff_prefix.mpr (hs.trans (List.prefix_append s t)),
    hother _ (by decide +kernel) (by decide +kernel), ?_⟩
  rw [isNgLine, hother _ (by decide +kernel) (by decide +kernel), Bool.false_and]

/-- The title of a section is plain. -/
theorem isPlain_fileTitle (idx total : ℕ) (file : Text) :
    ∀ l ∈ fileTitle idx total file, IsPlain l := by
  have hblank : IsPlain [] := by decide +kernel
  have hruler : IsPlain (List.replicate 60 '=') := by decide +kernel
  simp only [fileTitle, List.append_assoc, List.forall_mem_cons]
  refine ⟨hblank, hruler, ?_, hruler, hblank, fun l hl => absurd hl List.not_mem_nil⟩
  exact isPlain_append (by decide +kernel) (by decide +kernel) _

/-- What stands in front of the measurement is plain. -/
theorem isPlain_imageLines (num : NumberFormat) (env : Environment) (cfg : BenchConfig)
    (p : RunParams) (fmts : List ℤ) (file : Text) (g : Geometry) :
    ∀ l ∈ imageLines num env cfg p fmts file g, IsPlain l := by
  simp only [imageLines, List.append_assoc, List.forall_mem_cons]
  refine ⟨?_, ?_, by decide +kernel, ?_, ?_, fun l hl => absurd hl List.not_mem_nil⟩
  all_goals exact isPlain_append (by decide +kernel) (by decide +kernel) _

/-- The line of a format in the summary is plain: it begins with the name. -/
theorem isPlain_summaryLine (num : NumberFormat) (p : RunParams) (enc : FormatEncoder)
    (acc : FmtAcc) : IsPlain (summaryLine num p enc acc) := by
  have hname : 3 ≤ ("  ".toList ++ padRight ' ' 7 enc.getFormatName.toList).length ∧
      ("  ".toList ++ padRight ' ' 7 enc.getFormatName.toList).take 3 ∉ kindMarks := by
    cases enc <;> decide +kernel
  have hline := isPlain_append hname.1 hname.2
  unfold summaryLine fmtResult
  simp only [List.append_assoc] at hline ⊢
  exact hline _

/-- The summary is plain. -/
theorem isPlain_summaryLines (num : NumberFormat) (cfg : BenchConfig) (p : RunParams)
    (fmts : List ℤ) (faccs : List FmtAcc) :
    ∀ l ∈ summaryLines num cfg p fmts faccs, IsPlain l := by
  have hblank : IsPlain [] := by decide +kernel
  have hruler : IsPlain ("  ".toList ++ List.replicate 64 '-') := by decide +kernel
  unfold summaryLines
  simp only [List.cons_append, List.nil_append, List.append_assoc, List.forall_mem_cons,
    List.forall_mem_append]
  refine ⟨hruler, isPlain_append (by decide +kernel) (by decide +kernel) _, fun l hl => ?_, hblank,
    fun l hl => absurd hl List.not_mem_nil⟩
  obtain ⟨v, -, hv⟩ := List.mem_filterMap.mp hl
  obtain ⟨enc, -, rfl⟩ := Option.map_eq_some_iff.mp hv
  exact isPlain_summaryLine num p enc v.2

/-- What a text ends with decides on its last character. -/
theorem not_suffix_append {u v : Text} (hu : u ≠ []) (hv : v ≠ [])
    (hlast : u.getLast? ≠ v.getLast?) (t : Text) : ¬ u <:+ t ++ v := by
  rintro ⟨s, hs⟩
  have h := congrArg List.getLast? hs
  rw [List.getLast?_append_of_ne_nil _ hu, List.getLast?_append_of_ne_nil _ hv] at h
  exact hlast h

/-- The kind of a line that begins with the name of a format in brackets and ends with a ratio and a
verdict. -/
theorem verdictLine_kind {enc : FormatEncoder} {front : Text}
    (hfront : "  [".toList ++ (enc.getFormatName.toList ++ "] sid ".toList) <+: front)
    (doCheck ok : Bool) :
    isErrorLine (front ++ ":1".toList ++ logVerdict doCheck ok) = false ∧
      isSkipLine (front ++ ":1".toList ++ logVerdict doCheck ok) = false ∧
        (isNgLine (front ++ ":1".toList ++ logVerdict doCheck ok) = true ↔
          doCheck = true ∧ ok = false) := by
  obtain ⟨mid, rfl⟩ := hfront
  -- the first characters are those of the name
  have hmark : ∀ name, name = "  [".toList ++ (enc.getFormatName.toList ++ "] sid ".toList) →
      8 ≤ name.length ∧ name.take 7 ≠ "[ERROR]".toList ∧ name.take 8 ≠ "  [SKIP]".toList ∧
        name.take 3 = "  [".toList := by
    rintro name rfl
    cases enc <;> decide +kernel
  obtain ⟨hlength, herror, hskip, hcolumn⟩ := hmark _ rfl
  generalize "  [".toList ++ (enc.getFormatName.toList ++ "] sid ".toList) = name at *
  have htake : ∀ k ≤ 8, (name ++ mid ++ ":1".toList ++ logVerdict doCheck ok).take k =
      name.take k := by
    intro k hk
    rw [List.append_assoc, List.append_assoc]
    exact List.take_append_of_le_length (hk.trans hlength)
  have hlast : " NG".toList <:+ name ++ mid ++ ":1".toList ++ logVerdict doCheck ok ↔
      doCheck = true ∧ ok = false := by
    cases doCheck with
    | false =>
        refine iff_of_false ?_ fun h => Bool.false_ne_true h.1
        rw [logVerdict, if_neg Bool.false_ne_true, List.append_nil]
        exact not_suffix_append (by decide +kernel) (by decide +kernel) (by decide +kernel) _
    | true =>
        cases ok with
        | false => exact iff_of_true (List.suffix_append _ _) ⟨rfl, rfl⟩
        | true =>
            refine iff_of_false ?_ fun h => Bool.false_ne_true h.2.symm
            exact not_suffix_append (by decide +kernel) (by decide +kernel) (by decide +kernel) _
  refine ⟨?_, ?_, ?_⟩
  · rw [isErrorLine, ← Bool.not_eq_true, List.isPrefixOf_iff_prefix, List.prefix_iff_eq_take]
    exact fun h => herror (h.trans (htake 7 (by decide))).symm
  · rw [isSkipLine, ← Bool.not_eq_true, List.isPrefixOf_iff_prefix, List.prefix_iff_eq_take]
    exact fun h => hskip (h.trans (htake 8 le_rfl)).symm
  · rw [isNgLine, Bool.and_eq_true, List.isPrefixOf_iff_prefix, List.isSuffixOf_iff_suffix,
      List.prefix_iff_eq_take, hlast]
    exact and_iff_right (hcolumn.symm.trans (htake 3 (by decide)).symm)

/-- A line of a column is no error and no skipped file, and it is negative if its verdict is. -/
theorem columnLine_kind {num : NumberFormat} {p : RunParams} {enc : FormatEncoder} {ncols col : ℤ}
    {acc : ColumnAcc} {l : Text} (h : columnLine num p enc ncols col acc = some l) :
    isErrorLine l = false ∧ isSkipLine l = false ∧
      (isNgLine l = true ↔ p.doCheck = true ∧ acc.allOk = false) := by
  unfold columnLine at h
  dsimp only at h
  obtain ⟨wrdMs, -, h⟩ := Option.bind_eq_some_iff.mp h
  obtain ⟨wedMs, -, h⟩ := Option.bind_eq_some_iff.mp h
  obtain ⟨setInt, -, h⟩ := Option.bind_eq_some_iff.mp h
  obtain ⟨wddMs, -, h⟩ := Option.bind_eq_some_iff.mp h
  obtain ⟨sdtInt, -, h⟩ := Option.bind_eq_some_iff.mp h
  obtain ⟨totalMs, -, h⟩ := Option.bind_eq_some_iff.mp h
  rw [← Option.some.inj h]
  have hfront : ∀ t, "  [".toList ++ (enc.getFormatName.toList ++ "] sid ".toList) <+:
      "  [".toList ++ (enc.getFormatName.toList ++ ("] sid ".toList ++ t)) :=
    fun t => ⟨t, by rw [List.append_assoc, List.append_assoc]⟩
  apply verdictLine_kind
  simp only [List.append_assoc]
  exact hfront _

/-! ## The section of a file -/

section

variable {num : NumberFormat} {env : Environment} {cfg : BenchConfig} {p : RunParams}
  {doc : CadDocument} {enc : FormatEncoder} {file : Text} {fi : ℕ} {g : Geometry}

/-- The window loop of a column ends with the sums of the column. -/
theorem eq_columnAcc {nrows col : ℤ} (hrows : nrows ≤ intMax) {acc : ColumnAcc}
    (h : windowLoop nrows p.cacheBlocks
      (fun row0 nwin acc => measureWindow env p doc enc (windowSite file fi col row0) nwin acc)
      (nrows.toNat + 1) 0 {} = some acc) : acc = columnAcc env p doc enc file fi nrows col := by
  rw [windowLoop_eq p.one_le_cacheBlocks hrows _ (Nat.lt_succ_self nrows.toNat)] at h
  obtain ⟨acc', hfold, hfits⟩ := Option.bind_eq_some_iff.mp h
  have hzero : ({} : ColumnAcc) = 0 := rfl
  rw [hzero, Accumulate.foldlM_eq_some_iff _ _ (fun w hw acc acc' => by
    obtain ⟨hlo, hpos, hle, hhi⟩ := bounds_of_mem_windows p.one_le_cacheBlocks hw
    exact measureWindow_eq_some_iff (by omega) (by omega)), zero_add] at hfold
  split_ifs at hfits
  obtain rfl := Option.some.inj hfits
  exact hfold.2

/-- Without a decode phase no column is negative. -/
theorem columnAcc_allOk_of_off {nrows col : ℤ} (hdec : p.doDecode = false) :
    (columnAcc env p doc enc file fi nrows col).allOk = true := by
  have hoff : p.off .decode = p := by
    rw [RunParams.off, ← hdec]
  rw [← hoff, columnAcc_off]
  rfl

/-- The verdict of a column under a check. -/
theorem averages_ok {nrows col : ℤ} (hcheck : p.doCheck = true) :
    ((columnAcc env p doc enc file fi nrows col).averages p).ok =
      (columnAcc env p doc enc file fi nrows col).allOk := by
  show (!(p.doDecode && p.doCheck && !_)) = _
  cases hdec : p.doDecode with
  | false =>
      rw [columnAcc_allOk_of_off hdec]
      rfl
  | true => rw [hcheck, Bool.true_and, Bool.true_and, Bool.not_not]

/-- The lines of a format are no errors, and one of them is negative if the verdict of the format
is. -/
theorem formatLog_kind (hg : imageGeometry doc p = some g) {ls : List Text}
    (h : formatLog num env p doc enc file fi g = some ls) :
    (∀ l ∈ ls, isErrorLine l = false ∧ isSkipLine l = false) ∧
      ((∃ l ∈ ls, isNgLine l = true) ↔
        p.doCheck = true ∧ (formatAcc env p doc enc file fi g.nrows g.ncols).ok = false) := by
  have hline : ∀ (col : ℕ) l, (do
      let acc ← windowLoop g.nrows p.cacheBlocks
        (fun row0 nwin acc =>
          measureWindow env p doc enc (windowSite file fi (col : ℤ) row0) nwin acc)
        (g.nrows.toNat + 1) 0 {}
      columnLine num p enc g.ncols (col : ℤ) acc) = some l →
        isErrorLine l = false ∧ isSkipLine l = false ∧ (isNgLine l = true ↔ p.doCheck = true ∧
          (columnAcc env p doc enc file fi g.nrows (col : ℤ)).allOk = false) := by
    intro col l hl
    obtain ⟨acc, hacc, hl⟩ := Option.bind_eq_some_iff.mp hl
    obtain rfl := eq_columnAcc (nrows_le hg) hacc
    exact columnLine_kind hl
  constructor
  · exact Accumulate.forall_mem_of_mapM h fun col _ l hl =>
      ⟨(hline col l hl).1, (hline col l hl).2.1⟩
  · rw [Accumulate.exists_mem_iff_of_mapM h fun col _ l hl => (hline col l hl).2.2, formatAcc,
      ← Bool.not_eq_true, FmtAcc.ok_sum, List.forall_mem_map]
    by_cases hcheck : p.doCheck = true
    · simp only [hcheck, true_and, averages_ok hcheck, not_forall, Bool.not_eq_true, exists_prop]
    · refine iff_of_false ?_ fun h => hcheck h.1
      rintro ⟨col, -, h, -⟩
      exact hcheck h

/-- The lines of all formats. -/
theorem formatsLog_kind (hg : imageGeometry doc p = some g) {fmts : List ℤ}
    {columns : List (List Text)} (h : formatsLog num env p doc file g fmts = some columns) :
    (∀ l ∈ columns.flatten, isErrorLine l = false ∧ isSkipLine l = false) ∧
      ((∃ l ∈ columns.flatten, isNgLine l = true) ↔ ∃ fi fmt enc, fmts[fi]? = some fmt ∧
        getEncoder fmt = some enc ∧ p.doCheck = true ∧
          (formatAcc env p doc enc file fi g.nrows g.ncols).ok = false) := by
  have hround : ∀ v ls, roundLog num env p doc file g v = some ls →
      (∀ l ∈ ls, isErrorLine l = false ∧ isSkipLine l = false) ∧
        ((∃ l ∈ ls, isNgLine l = true) ↔ ∃ enc, getEncoder v.1 = some enc ∧
          p.doCheck = true ∧ (formatAcc env p doc enc file v.2 g.nrows g.ncols).ok = false) := by
    intro v ls hls
    rw [roundLog] at hls
    cases henc : getEncoder v.1 with
    | none =>
        simp only [henc] at hls
        obtain rfl := Option.some.inj hls
        simp
    | some enc =>
        simp only [henc] at hls
        obtain ⟨hplain, hng⟩ := formatLog_kind hg hls
        exact ⟨hplain, hng.trans (by simp)⟩
  constructor
  · intro l hl
    obtain ⟨ls, hls, hl⟩ := List.mem_flatten.mp hl
    exact Accumulate.forall_mem_of_mapM h (fun v _ ls hls => (hround v ls hls).1) ls hls l hl
  · have hflat : (∃ l ∈ columns.flatten, isNgLine l = true) ↔
        ∃ ls ∈ columns, ∃ l ∈ ls, isNgLine l = true := by
      simp only [List.mem_flatten]
      constructor
      · rintro ⟨l, ⟨ls, hls, hl⟩, hng⟩
        exact ⟨ls, hls, l, hl, hng⟩
      · rintro ⟨ls, hls, l, hl, hng⟩
        exact ⟨l, ⟨ls, hls, hl⟩, hng⟩
    rw [hflat, Accumulate.exists_mem_iff_of_mapM h fun v _ ls hls => (hround v ls hls).2]
    constructor
    · rintro ⟨⟨fmt, fi⟩, hv, enc, henc, hng⟩
      exact ⟨fi, fmt, enc, List.mem_zipIdx_iff_getElem?.mp hv, henc, hng⟩
    · rintro ⟨fi, fmt, enc, hfmt, henc, hng⟩
      exact ⟨(fmt, fi), List.mem_zipIdx_iff_getElem?.mpr hfmt, enc, henc, hng⟩

variable (p) in
/-- What the section of a file says about its outcome. -/
def Says (ls : List Text) : FileOutcome → Prop
  | .loadFailure =>
      ls.countP isErrorLine = 1 ∧ ls.countP isSkipLine = 0 ∧ ls.any isNgLine = false
  | .skipped => ls.countP isErrorLine = 0 ∧ ls.countP isSkipLine = 1 ∧ ls.any isNgLine = false
  | .report r => ls.countP isErrorLine = 0 ∧ ls.countP isSkipLine = 0 ∧
      (ls.any isNgLine = true ↔ p.doCheck = true ∧ ∃ fr ∈ r.fmts, fr.ok = false)

/-- Plain lines say nothing. -/
theorem count_plain {ls : List Text} (h : ∀ l ∈ ls, IsPlain l) :
    ls.countP isErrorLine = 0 ∧ ls.countP isSkipLine = 0 ∧ ls.any isNgLine = false :=
  ⟨List.countP_eq_zero.mpr fun l hl => Bool.not_eq_true _ ▸ (h l hl).1,
    List.countP_eq_zero.mpr fun l hl => Bool.not_eq_true _ ▸ (h l hl).2.1,
    List.any_eq_false.mpr fun l hl => Bool.not_eq_true _ ▸ (h l hl).2.2⟩

/-- Plain lines in front make no difference. -/
theorem says_append {front ls : List Text} (hfront : ∀ l ∈ front, IsPlain l)
    {outcome : FileOutcome} (h : Says p ls outcome) : Says p (front ++ ls) outcome := by
  obtain ⟨herror, hskip, hng⟩ := count_plain hfront
  cases outcome with
  | loadFailure =>
      rwa [Says, List.countP_append, List.countP_append, List.any_append, herror, hskip, hng,
        Nat.zero_add, Nat.zero_add, Bool.false_or]
  | skipped =>
      rwa [Says, List.countP_append, List.countP_append, List.any_append, herror, hskip, hng,
        Nat.zero_add, Nat.zero_add, Bool.false_or]
  | report r =>
      rwa [Says, List.countP_append, List.countP_append, List.any_append, herror, hskip, hng,
        Nat.zero_add, Nat.zero_add, Bool.false_or]

/-- The negative results of a record are those of its formats. -/
theorem exists_ok_eq_false_iff {ids : List ℤ} {r : FileRecord} (hg : imageGeometry doc p = some g)
    (hload : env.load file = .ok (some doc))
    (h : processFile env p (resolveFormats ids) file = some (.report r)) :
    (∃ fr ∈ r.fmts, fr.ok = false) ↔ ∃ fi fmt enc, (resolveFormats ids)[fi]? = some fmt ∧
      getEncoder fmt = some enc ∧
        (formatAcc env p doc enc file fi g.nrows g.ncols).ok = false := by
  have hresult : ∀ fi (enc : FormatEncoder),
      (resolveFormats ids)[fi]? = some enc.getSupportedFormat.value →
        r.fmts[fi]? = some (fmtResult enc (formatAcc env p doc enc file fi g.nrows g.ncols)) := by
    intro fi enc hfmt
    obtain ⟨doc', g', hload', hg', -, hresult⟩ := result_of_report h hfmt
    obtain rfl : doc = doc' := by simpa [hload] using hload'
    obtain rfl : g = g' := Option.some.inj (hg.symm.trans hg')
    exact hresult
  constructor
  · rintro ⟨fr, hfr, hok⟩
    obtain ⟨fi, enc, hfmt, hget⟩ := format_of_mem_fmts h hfr
    obtain rfl := Option.some.inj (hget.symm.trans (hresult fi enc hfmt))
    exact ⟨fi, _, enc, hfmt, getEncoder_eq_some_iff.mpr rfl, hok⟩
  · rintro ⟨fi, fmt, enc, hfmt, henc, hok⟩
    obtain rfl := getEncoder_eq_some_iff.mp henc
    exact ⟨_, List.mem_of_getElem? (hresult fi enc hfmt), hok⟩

/-- The section of a file says what became of it. -/
theorem fileLog_says {ids : List ℤ} {idx total : ℕ} {ls : List Text}
    (h : fileLog num env cfg p (resolveFormats ids) idx total file = some ls) :
    ∃ outcome, processFile env p (resolveFormats ids) file = some outcome ∧ Says p ls outcome := by
  have hblank : IsPlain [] := by decide +kernel
  have hloading : ∀ l ∈ fileTitle idx total file ++ ["[Phase 1] Loading DIF...".toList],
      IsPlain l := by
    rw [List.forall_mem_append, List.forall_mem_singleton]
    exact ⟨isPlain_fileTitle idx total file, by decide +kernel⟩
  -- a section that ends with an error, or with a file that is skipped
  have herror : ∀ s : Text, "[ERROR]".toList <+: s → ∀ t, Says p [s ++ t, []] .loadFailure := by
    intro s hs t
    obtain ⟨h₁, h₂, h₃⟩ := errorLine_kind hs t
    rw [Says, List.countP_cons, List.countP_singleton, List.countP_cons, List.countP_singleton,
      List.any_cons, h₁, h₂, h₃]
    decide +kernel
  have hskip : Says p ["  [SKIP] No layers.".toList, []] .skipped :=
    ⟨by decide +kernel, by decide +kernel, by decide +kernel⟩
  unfold fileLog at h
  obtain ⟨found, hexists, h⟩ := Option.bind_eq_some_iff.mp h
  cases found with
  | false =>
    obtain rfl := Option.some.inj h
    refine ⟨.loadFailure, processFile_eq_loadFailure_iff.mpr (by simp [loadFails, hexists]), ?_⟩
    exact says_append (isPlain_fileTitle idx total file) (herror _ (by decide +kernel) file)
  | true =>
  rcases hload : env.load file with failure | _ | doc
  · simp only [hload] at h
    obtain rfl := Option.some.inj h
    refine ⟨.loadFailure, processFile_eq_loadFailure_iff.mpr ?_, ?_⟩
    · simp [loadFails, hexists, hload, Except.isOk, Except.toBool]
    · exact says_append hloading (herror _ (by decide +kernel) failure.text)
  · simp only [hload] at h
    obtain rfl := Option.some.inj h
    exact ⟨.skipped, processFile_eq_skipped_iff.mpr ⟨hexists, .inl hload⟩,
      says_append hloading hskip⟩
  by_cases hlayers : doc.layerCount = 0
  · simp only [hload, if_pos hlayers] at h
    obtain rfl := Option.some.inj h
    exact ⟨.skipped, processFile_eq_skipped_iff.mpr ⟨hexists, .inr ⟨doc, hload, hlayers⟩⟩,
      says_append hloading hskip⟩
  simp only [hload, if_neg hlayers] at h
  obtain ⟨g, hg, h⟩ := Option.bind_eq_some_iff.mp h
  obtain ⟨columns, hcolumns, h⟩ := Option.bind_eq_some_iff.mp h
  obtain ⟨faccs, hmeasure, h⟩ := Option.bind_eq_some_iff.mp h
  obtain rfl := Option.some.inj h
  have hprocess := processFile_eq_report_iff.mpr
    ⟨hexists, doc, g, faccs, hload, hlayers, hg, hmeasure, rfl⟩
  refine ⟨_, hprocess, ?_⟩
  -- the lines of the columns stand between plain lines
  obtain ⟨hcolumn, hng⟩ := formatsLog_kind hg hcolumns
  have hsummary := isPlain_summaryLines num cfg p (resolveFormats ids) faccs
  have himage := isPlain_imageLines num env cfg p (resolveFormats ids) file g
  rw [List.append_assoc]
  obtain ⟨herror', hskip', hng'⟩ := count_plain hsummary
  have hcheck : (∃ fi fmt enc, (resolveFormats ids)[fi]? = some fmt ∧ getEncoder fmt = some enc ∧
      p.doCheck = true ∧ (formatAcc env p doc enc file fi g.nrows g.ncols).ok = false) ↔
        p.doCheck = true ∧ ∃ fi fmt enc, (resolveFormats ids)[fi]? = some fmt ∧
          getEncoder fmt = some enc ∧
            (formatAcc env p doc enc file fi g.nrows g.ncols).ok = false := by
    simp only [exists_and_left, and_left_comm (b := p.doCheck = true)]
  refine says_append (List.forall_mem_append.mpr ⟨hloading, himage⟩) ⟨?_, ?_, ?_⟩
  · rw [List.countP_append, herror']
    exact List.countP_eq_zero.mpr fun l hl => Bool.not_eq_true _ ▸ (hcolumn l hl).1
  · rw [List.countP_append, hskip']
    exact List.countP_eq_zero.mpr fun l hl => Bool.not_eq_true _ ▸ (hcolumn l hl).2
  · rw [List.any_append, hng', Bool.or_false, List.any_eq_true, hng, hcheck,
      exists_ok_eq_false_iff hg hload hprocess]

/-- The sections of a list of files. -/
theorem filesLog_accounts {ids : List ℤ} {files : List (Text × ℕ)} {sections : List (List Text)}
    (h : List.Forall₂ (fun v ls => ∃ outcome,
      processFile env p (resolveFormats ids) v.1 = some outcome ∧ Says p ls outcome)
        files sections) :
    sections.flatten.countP isErrorLine = (files.map Prod.fst).countP (loadFails env) ∧
      sections.flatten.countP isSkipLine + (files.map Prod.fst).countP (loadFails env) +
        ((files.map Prod.fst).flatMap (recordsOf env p (resolveFormats ids))).length =
          files.length ∧
      (sections.flatten.any isNgLine = true ↔ p.doCheck = true ∧
        ∃ v ∈ (files.map Prod.fst).flatMap (recordsOf env p (resolveFormats ids)),
          ∃ fr ∈ v.2.fmts, fr.ok = false) := by
  induction h with
  | nil => simp
  | @cons v ls files sections hfile _ ih =>
      obtain ⟨outcome, hprocess, hsays⟩ := hfile
      obtain ⟨herror, hskip, hng⟩ := ih
      have hrecords : recordsOf env p (resolveFormats ids) v.1 =
          (outcome.toAcc v.1).allFiles := by
        rw [recordsOf, hprocess]
        cases outcome <;> rfl
      have hfails : loadFails env v.1 = true ↔ outcome = .loadFailure := by
        rw [← @processFile_eq_loadFailure_iff env p v.1 (resolveFormats ids), hprocess,
          Option.some.injEq]
      rw [List.flatten_cons, List.countP_append, List.countP_append, List.any_append,
        List.map_cons, List.countP_cons, List.flatMap_cons, List.length_append, List.length_cons,
        herror, hrecords, Bool.or_eq_true, hng]
      cases outcome with
      | loadFailure =>
          obtain ⟨h₁, h₂, h₃⟩ := hsays
          rw [h₁, h₂, h₃, if_pos (hfails.mpr rfl)]
          refine ⟨by omega, ?_, ?_⟩
          · show 0 + _ + (_ + 1) + (0 + _) = _
            omega
          · rw [or_iff_right Bool.false_ne_true]
            rfl
      | skipped =>
          obtain ⟨h₁, h₂, h₃⟩ := hsays
          rw [h₁, h₂, h₃, if_neg fun hload => by cases hfails.mp hload]
          refine ⟨by omega, ?_, ?_⟩
          · show 1 + _ + (_ + 0) + (0 + _) = _
            omega
          · rw [or_iff_right Bool.false_ne_true]
            rfl
      | report r =>
          obtain ⟨h₁, h₂, h₃⟩ := hsays
          rw [h₁, h₂, h₃, if_neg fun hload => by cases hfails.mp hload]
          refine ⟨by omega, ?_, ?_⟩
          · show 0 + _ + (_ + 0) + (1 + _) = _
            omega
          · rw [← and_or_left]
            refine and_congr_right fun _ => ?_
            exact (List.exists_mem_cons_iff (fun v : Text × FileRecord =>
              ∃ fr ∈ v.2.fmts, fr.ok = false) (v.1, r) _).symm

end

/-! ## The log of a run -/

/-- What the log of a run says. -/
structure LogAccounts (env : Environment) (cfg : BenchConfig) (csvPath : Text) (result : RunResult)
    (lines : List Text) : Prop where
  /-- These are the lines of the text, unless a path or an exception has a line break. -/
  text : NoLineBreaks env cfg csvPath → (logText lines).splitOn '\n' = lines ++ [[]]
  /-- An error for each file that is not loaded, for a report that is not written, and for a run
  without input files. -/
  errors : lines.countP isErrorLine = (inputFiles env cfg).countP (loadFails env) +
    (if result.csvWritten = some false then 1 else 0) +
    (if (inputFiles env cfg).isEmpty then 1 else 0)
  /-- A line for each file that is neither an error nor in the report. -/
  skipped : lines.countP isSkipLine + (inputFiles env cfg).countP (loadFails env) +
    result.allFiles.length = (inputFiles env cfg).length
  /-- A negative column where the report shows `FAIL`. -/
  verdicts : lines.any isNgLine = true ↔
    ∃ v ∈ result.allFiles, ∃ fr ∈ v.2.fmts, csvChk cfg fr = "FAIL"
  /-- The status `1` is explained. -/
  status : result.status = 1 → 0 < lines.countP isErrorLine ∨
    lines.countP isSkipLine = (inputFiles env cfg).length

section

variable {num : NumberFormat} {env : Environment} {cfg : BenchConfig} {csvPath : Text}
  {result : RunResult} {lines : List Text}

/-- The verdict `FAIL` of the report. -/
theorem csvChk_eq_fail_iff {fr : FmtResult} :
    csvChk cfg fr = "FAIL" ↔ cfg.checkEnabled ≠ 0 ∧ fr.ok = false := by
  rw [csvChk]
  by_cases hcheck : cfg.checkEnabled ≠ 0
  · rw [if_pos hcheck, and_iff_right hcheck]
    cases fr.ok <;> decide
  · rw [if_neg hcheck]
    exact iff_of_false (by decide) fun h => hcheck h.1

/-- A run without input files says so. -/
theorem logAccounts_of_no_files (hnone : inputFiles env cfg = []) {line : Text}
    (hline : "[ERROR]".toList <+: line)
    (htext : NoLineBreaks env cfg csvPath → (logText [line]).splitOn '\n' = [line] ++ [[]]) :
    LogAccounts env cfg csvPath { allFiles := [], csvWritten := none, status := 1 } [line] := by
  obtain ⟨h₁, h₂, h₃⟩ := errorLine_kind hline []
  rw [List.append_nil] at h₁ h₂ h₃
  refine ⟨htext, ?_, ?_, ?_, fun _ => .inl ?_⟩
  · rw [List.countP_singleton, h₁, hnone]
    rfl
  · rw [List.countP_singleton, h₂, hnone]
    rfl
  · rw [List.any_cons, h₃]
    simp
  · rw [List.countP_singleton, h₁]
    exact Nat.one_pos

/-- The closing lines name a report that is not written. -/
theorem closingLines_kind (csvPath : Text) (result : RunResult) :
    (closingLines csvPath result).countP isErrorLine =
        (if result.csvWritten = some false then 1 else 0) ∧
      (closingLines csvPath result).countP isSkipLine = 0 ∧
      (closingLines csvPath result).any isNgLine = false := by
  have hdone : IsPlain "[redcli] Done.".toList := by decide +kernel
  unfold closingLines
  rcases result.csvWritten with _ | _ | _
  · apply count_plain
    simp only [List.append_assoc, List.forall_mem_cons]
    refine ⟨isPlain_append (by decide +kernel) (by decide +kernel) _, hdone, ?_⟩
    exact fun l hl => absurd hl List.not_mem_nil
  · have herror : "[ERROR]".toList <+: "[ERROR] failed to write CSV: ".toList := by decide +kernel
    obtain ⟨h₁, h₂, h₃⟩ := errorLine_kind herror csvPath
    simp only [List.countP_cons, List.countP_nil, List.any_cons, List.any_nil, h₁, h₂, h₃, hdone.1,
      hdone.2.1, hdone.2.2]
    decide
  · apply count_plain
    simp only [List.append_assoc, List.forall_mem_cons]
    refine ⟨isPlain_append (by decide +kernel) (by decide +kernel) _, hdone, ?_⟩
    exact fun l hl => absurd hl List.not_mem_nil

/-- **The log accounts for the run**, message by message, and line by line if no path and no
exception has a line break. -/
theorem log_accounts (hrun : rle4kCmdRun env cfg csvPath = some result)
    (hlog : rle4kCmdRunLog num env cfg csvPath = some lines) :
    LogAccounts env cfg csvPath result lines := by
  have htext := fun hbreaks : NoLineBreaks env cfg csvPath => splitOn_logText hbreaks hlog
  have hpath : (limitConfig cfg).inputPath.isEmpty = cfg.inputPath.isEmpty := rfl
  unfold rle4kCmdRun at hrun
  unfold rle4kCmdRunLog at hlog
  dsimp only at hrun hlog
  by_cases hempty : cfg.inputPath.isEmpty = true
  · rw [if_pos (hpath.trans hempty)] at hrun hlog
    obtain rfl := Option.some.inj hrun
    obtain rfl := Option.some.inj hlog
    exact logAccounts_of_no_files (if_pos hempty) (by decide +kernel) htext
  rw [if_neg (hpath ▸ hempty)] at hrun hlog
  obtain ⟨files, hfiles, hrun⟩ := Option.bind_eq_some_iff.mp hrun
  obtain ⟨files', hfiles', hlog⟩ := Option.bind_eq_some_iff.mp hlog
  obtain rfl := Option.some.inj (hfiles.symm.trans hfiles')
  have hinput : inputFiles env cfg = files := by
    rw [inputFiles, if_neg hempty, hfiles, Option.getD_some]
  by_cases hnone : files.isEmpty = true
  · rw [if_pos hnone] at hrun hlog
    obtain rfl := Option.some.inj hrun
    obtain rfl := Option.some.inj hlog
    exact logAccounts_of_no_files (hinput.trans (List.isEmpty_iff.mp hnone)) (by decide +kernel)
      htext
  rw [if_neg hnone] at hrun hlog
  obtain ⟨stripWidth, hwidth, hrun⟩ := Option.bind_eq_some_iff.mp hrun
  obtain ⟨stripWidth', hwidth', hlog⟩ := Option.bind_eq_some_iff.mp hlog
  obtain rfl := Option.some.inj (hwidth.symm.trans hwidth')
  obtain ⟨sections, hsections, hlog⟩ := Option.bind_eq_some_iff.mp hlog
  obtain ⟨result', hrun', hlog⟩ := Option.bind_eq_some_iff.mp hlog
  obtain rfl := Option.some.inj (hrun.symm.trans hrun')
  obtain rfl := Option.some.inj hlog
  -- the sections account for the files, and the closing lines for the report
  have hsays := (Accumulate.mapM_eq_some_iff.mp hsections).imp fun v ls h => fileLog_says h
  obtain ⟨herror, hskip, hng⟩ := filesLog_accounts hsays
  rw [List.zipIdx_map_fst] at herror hskip hng
  obtain ⟨-, hall, -, hstatus⟩ := runFiles_eq_some_iff.mp hrun
  rw [← hall] at hskip hng
  rw [List.length_zipIdx] at hskip
  obtain ⟨herror', hskip', hng'⟩ := closingLines_kind csvPath result
  have herrors : (sections.flatten ++ closingLines csvPath result).countP isErrorLine =
      files.countP (loadFails env) + (if result.csvWritten = some false then 1 else 0) := by
    rw [List.countP_append, herror, herror']
  have hskips : (sections.flatten ++ closingLines csvPath result).countP isSkipLine =
      sections.flatten.countP isSkipLine := by
    rw [List.countP_append, hskip', Nat.add_zero]
  refine ⟨htext, ?_, ?_, ?_, fun hone => ?_⟩
  · rw [herrors, hinput, if_neg hnone, Nat.add_zero]
  · rw [hskips, hinput, hskip]
  · have hcheck : (RunParams.ofConfig { limitConfig cfg with stripWidth := stripWidth }).doCheck =
        decide (cfg.checkEnabled ≠ 0) := rfl
    rw [List.any_append, hng', Bool.or_false, hng, hcheck, decide_eq_true_eq]
    simp only [csvChk_eq_fail_iff, exists_and_left, and_left_comm (b := cfg.checkEnabled ≠ 0)]
  · -- a file is not loaded, or there is no record
    rw [hstatus] at hone
    by_cases hfails : 0 < files.countP (loadFails env)
    · exact .inl (herrors ▸ Nat.add_pos_left hfails _)
    · refine .inr ?_
      have hany : ¬ files.any (loadFails env) = true := fun hany =>
        hfails (List.countP_pos_iff.mpr (List.any_eq_true.mp hany))
      have hrecords : result.allFiles = [] := by
        by_contra hne
        rw [if_neg] at hone
        · cases hone
        · exact fun h => h.elim hany fun hempty => hne (List.isEmpty_iff.mp hempty)
      rw [hrecords, List.length_nil] at hskip
      rw [hskips, hinput]
      omega

/-- The log of the reference run. -/
theorem log_accounts_referenceRun :
    ∃ result lines, rle4kCmdRun referenceEnv referenceConfig [] = some result ∧
      rle4kCmdRunLog fixedNotation referenceEnv referenceConfig [] = some lines ∧
      LogAccounts referenceEnv referenceConfig [] result lines := by
  obtain ⟨result, _, hrun, -⟩ := referenceRun
  have hsome : (rle4kCmdRunLog fixedNotation referenceEnv referenceConfig []).isSome = true := by
    decide +kernel
  obtain ⟨lines, hlog⟩ := Option.isSome_iff_exists.mp hsome
  exact ⟨result, lines, hrun, hlog, log_accounts hrun hlog⟩

end

end Redcli
