import Redcli.Pipeline.Phases

/-!
# The Measurement of a Format

The loop nest of `rle4k_cmd_run` for one format of one file: columns, windows of rows, and
repeats of the encode and the decode phase, with the accumulators of each level. Times of
the CPU clock are left out, since nothing reads their sums.
-/

namespace Redcli

/-- The accumulators of a column. -/
@[ext]
structure ColumnAcc where
  wrd : ℚ := 0
  wedSum : ℚ := 0
  wddSum : ℚ := 0
  wchkSum : ℚ := 0
  ssBytes : ℚ := 0
  csBytesSum : ℚ := 0
  allOk : Bool := true

/-- `fmt_acc`. -/
@[ext]
structure FmtAcc where
  rasterWall : ℚ := 0
  encWall : ℚ := 0
  decWall : ℚ := 0
  checkWall : ℚ := 0
  cs : ℚ := 0
  ss : ℚ := 0
  ok : Bool := true

section

variable (env : Environment) (p : RunParams) (doc : CadDocument) (enc : FormatEncoder)

/-- One repeat of the encode phase. -/
def encodeRepeat (site : Site) (raw : List (Option BitmapInfo))
    (s : ColumnAcc × List (Option BitmapInfo)) (rep : ℕ) :
    Option (ColumnAcc × List (Option BitmapInfo)) := do
  let w ← rle4kPhaseEncodeWindow env enc p.args { site with rep := rep } raw s.2 p.etThreads
  pure ({ s.1 with
    wedSum := s.1.wedSum + w.wall
    csBytesSum := s.1.csBytesSum + w.csBytes }, w.encCache)

/-- One repeat of the decode phase. -/
def decodeRepeat (site : Site) (digests : List Rle4kBlockDigest)
    (encCache : List (Option BitmapInfo)) (acc : ColumnAcc) (rep : ℕ) : Option ColumnAcc := do
  let w ← rle4kPhaseDecodeWindow env enc.getSupportedFormat.value { site with rep := rep }
    digests encCache p.dtThreads p.doCheck
  pure { acc with
    wddSum := acc.wddSum + w.wall
    wchkSum := acc.wchkSum + w.checkMs
    allOk := if !w.allOk then false else acc.allOk }

/-- `if (do_encode)`: all repeats of the encode phase. -/
def encodeRepeats (site : Site) (raw : List (Option BitmapInfo)) (acc : ColumnAcc)
    (encCache : List (Option BitmapInfo)) : Option (ColumnAcc × List (Option BitmapInfo)) :=
  if p.doEncode then
    (List.range p.repeats.toNat).foldlM (encodeRepeat env p enc site raw) (acc, encCache)
  else some (acc, encCache)

/-- `if (do_decode)`: all repeats of the decode phase. -/
def decodeRepeats (site : Site) (digests : List Rle4kBlockDigest)
    (encCache : List (Option BitmapInfo)) (acc : ColumnAcc) : Option ColumnAcc :=
  if p.doDecode then
    (List.range p.repeats.toNat).foldlM (decodeRepeat env p enc site digests encCache) acc
  else some acc

/-- The body of the window loop. -/
def measureWindow (site : Site) (nwin : ℤ) (acc : ColumnAcc) : Option ColumnAcc := do
  let w ← rle4kPhaseRasterWindow env p doc site nwin
  let acc := { acc with wrd := acc.wrd + w.wall, ssBytes := acc.ssBytes + w.ssBytes }
  let (acc, encCache) ← encodeRepeats env p enc site w.raw acc (List.replicate nwin.toNat none)
  -- the uncompressed bitmaps are dropped here
  decodeRepeats env p enc site w.digests encCache acc

/-- The place of a window. -/
def windowSite (file : Text) (fi : ℕ) (col row0 : ℤ) : Site :=
  { file := file, fi := fi, col := col, row0 := row0 }

/-- The body of the column loop: the windows of a column, then the averages over the
repeats. -/
def measureColumn (file : Text) (fi : ℕ) (nrows col : ℤ) (facc : FmtAcc) : Option FmtAcc := do
  let acc ← windowLoop nrows p.cacheBlocks
    (fun row0 nwin acc => measureWindow env p doc enc (windowSite file fi col row0) nwin acc)
    (nrows.toNat + 1) 0 {}
  let wed := if p.doEncode then acc.wedSum / p.repeats else 0
  let wdd := if p.doDecode then acc.wddSum / p.repeats else 0
  let wchk := if p.doDecode then acc.wchkSum / p.repeats else 0
  let csBytes := if p.doEncode then acc.csBytesSum / p.repeats else 0
  pure
    { rasterWall := facc.rasterWall + acc.wrd
      encWall := facc.encWall + wed
      decWall := facc.decWall + wdd
      checkWall := facc.checkWall + wchk
      cs := facc.cs + csBytes
      ss := facc.ss + acc.ssBytes
      ok := if p.doDecode && p.doCheck && !acc.allOk then false else facc.ok }

/-- The round of the format loop for one encoder. -/
def measureFormat (file : Text) (ncols nrows : ℤ) (fi : ℕ) : Option FmtAcc :=
  columnLoop ncols (measureColumn env p doc enc file fi nrows) {}

end

/-- The format loop. The accumulator of a format without an encoder keeps its initial
value. -/
def measureFormats (env : Environment) (p : RunParams) (doc : CadDocument) (file : Text)
    (ncols nrows : ℤ) (fmts : List ℤ) : Option (List FmtAcc) :=
  fmts.zipIdx.mapM fun (fmt, fi) =>
    match getEncoder fmt with
    | none => some {}
    | some enc => measureFormat env p doc enc file ncols nrows fi

end Redcli
