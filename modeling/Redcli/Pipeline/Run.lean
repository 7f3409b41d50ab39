import Redcli.Pipeline.Measurement

/-!
# A Run

`rle4k_cmd_run` from the configuration with its command line overrides on: limits, the list
of input files, the width of the strips, the formats, and the measurement of one file after
the other. A run that ends abnormally (an exception that nothing catches, or arithmetic that
is undefined) is `none`.
-/

namespace Redcli

/-- `rle4k_fmt_result`. -/
structure FmtResult where
  name : String
  ssGb : ℚ
  csMb : ℚ
  cr : ℚ
  sedMs : ℚ
  setGbps : ℚ
  sddMs : ℚ
  sdtGbps : ℚ
  schMs : ℚ
  ok : Bool
  deriving DecidableEq

/-- `rle4k_file_record`. -/
structure FileRecord where
  shortName : Text
  imgW : ℤ
  imgH : ℤ
  ncols : ℤ
  nrows : ℤ
  dMs : ℚ
  rasterMs : ℚ
  totalSsGb : ℚ
  fmts : List FmtResult
  deriving DecidableEq

/-! ## The report -/

/-- The `CHK` column of `rle4k_print_file_report`, which is empty without a check. -/
def consoleChk (cfg : BenchConfig) (r : FmtResult) : Option String :=
  if cfg.checkEnabled ≠ 0 then some (if r.ok then "OK" else "FAIL") else none

/-- The `_chk` field of `rle4k_write_csv`. -/
def csvChk (cfg : BenchConfig) (r : FmtResult) : String :=
  if cfg.checkEnabled ≠ 0 then (if r.ok then "OK" else "FAIL") else "SKIP"

/-! ## Setting up -/

/-- `kMaxWorkerThreads`. -/
def kMaxWorkerThreads : ℤ := 10

/-- The limits on thread counts and cache sizes. -/
def limitConfig (cfg : BenchConfig) : BenchConfig :=
  let rasterThreads := if cfg.rasterThreads < 1 then 1 else cfg.rasterThreads
  let encodeThreads := if cfg.encodeThreads < 0 then 0 else cfg.encodeThreads
  let decodeThreads := if cfg.decodeThreads < 0 then 0 else cfg.decodeThreads
  let cacheBlocksMin := if cfg.cacheBlocksMin < 1 then 1 else cfg.cacheBlocksMin
  { cfg with
    rasterThreads := if kMaxWorkerThreads < rasterThreads then kMaxWorkerThreads else rasterThreads
    encodeThreads := if kMaxWorkerThreads < encodeThreads then kMaxWorkerThreads else encodeThreads
    decodeThreads := if kMaxWorkerThreads < decodeThreads then kMaxWorkerThreads else decodeThreads
    cacheBlocksMin := cacheBlocksMin
    cacheBlocksMax :=
      if cfg.cacheBlocksMax < cacheBlocksMin then cacheBlocksMin else cfg.cacheBlocksMax }

/-- Whether the last four characters of a path are `.dif`. -/
def isDifPath (path : Text) : Bool := ".dif".toList.isSuffixOf path

/-- The list of input files; `none` if the folder cannot be iterated. -/
def collectFiles (env : Environment) (cfg : BenchConfig) : Option (List Text) :=
  if cfg.mode = 1 then
    (env.directory cfg.inputPath).map fun entries =>
      (entries.filter fun e => e.2 && isDifPath e.1).map Prod.fst
  else some [cfg.inputPath]

/-- The strip width: the configured one, or `0` for the width of the device, rounded up to a
multiple of `align_mode`. -/
def resolveStripWidth (cfg : BenchConfig) : Option ℤ :=
  if cfg.stripWidth = 0 then do
    let product ← checkInt (cfg.dmdResolutionCols * cfg.obliqueFactor)
    let autoW ← checkInt (product + cfg.dmdResolutionRows)
    let sum ← checkInt (autoW + cfg.alignMode)
    let sum ← checkInt (sum - 1)
    let count ← intDiv sum cfg.alignMode
    checkInt (count * cfg.alignMode)
  else some cfg.stripWidth

/-- The format list: the known ones of the configured IDs, or all six. -/
def resolveFormats (ids : List ℤ) : List ℤ :=
  let fmts := (ids.map mapFormatId).filter fun f => 0 ≤ f
  if fmts.isEmpty then [0x4, 0x7, 0xB, 0xA, 0x8, 0xF] else fmts

/-- The constants of the measurement. The pitch in nanometres is exact, where the program rounds the
product. -/
def RunParams.ofConfig (cfg : BenchConfig) : RunParams :=
  let rtThreads := max 1 cfg.rasterThreads
  let doEncode := decide (cfg.encodeEnabled ≠ 0)
  let cacheMin := max 1 cfg.cacheBlocksMin
  { pwNm := cfg.pitchWidthUm.scale 1000
    stripWidth := cfg.stripWidth
    blockLine := cfg.blockLine
    rtThreads := rtThreads
    etThreads := if 0 < cfg.encodeThreads then cfg.encodeThreads else rtThreads
    dtThreads := if 0 < cfg.decodeThreads then cfg.decodeThreads else rtThreads
    repeats := max 1 cfg.repeats
    doEncode := doEncode
    doDecode := doEncode && decide (cfg.decodeEnabled ≠ 0)
    doCheck := decide (cfg.checkEnabled ≠ 0)
    cacheBlocks := max cacheMin cfg.cacheBlocksMax
    args :=
      { gzipLevel := cfg.gzipLevel
        zstdLevel := cfg.zstdLevel
        lzo2Level := cfg.lzo2Level
        snappyLevel := cfg.snappyLevel
        brotliLevel := cfg.brotliLevel
        brotliWindow := cfg.brotliWindow }
    one_le_repeats := le_max_left _ _
    one_le_cacheBlocks := (le_max_left _ _).trans (le_max_left _ _) }

/-- The image size in pixels and the number of blocks. -/
structure Geometry where
  imgW : ℤ
  imgH : ℤ
  ncols : ℤ
  nrows : ℤ
  deriving DecidableEq, Repr

/-- The geometry of a document. -/
def imageGeometry (doc : CadDocument) (p : RunParams) : Option Geometry := do
  let imgW ← imageSize (doc.maxX - doc.minX) p.pwNm
  let imgH ← imageSize (doc.maxY - doc.minY) p.pwNm
  let ncols ← blockCount imgW p.stripWidth
  let nrows ← blockCount imgH p.blockLine
  pure { imgW := imgW, imgH := imgH, ncols := ncols, nrows := nrows }

/-! ## One file -/

/-- The compression ratio of a format, `0` without compressed bytes. -/
def FmtAcc.cr (acc : FmtAcc) : ℚ := if 0 < acc.cs then acc.ss / acc.cs else 0

/-- The result of a format for the report. -/
def fmtResult (enc : FormatEncoder) (acc : FmtAcc) : FmtResult :=
  let fmtSsGb := acc.ss / 10 ^ 9
  { name := enc.getFormatName
    ssGb := fmtSsGb
    csMb := acc.cs / 10 ^ 6
    cr := acc.cr
    sedMs := acc.encWall
    setGbps := if 0 < acc.encWall then fmtSsGb * 8000 / acc.encWall else 0
    sddMs := acc.decWall
    sdtGbps := if 0 < acc.decWall then fmtSsGb * 8000 / acc.decWall else 0
    schMs := acc.checkWall
    ok := acc.ok }

/-- Whether a character separates the parts of a path. -/
def isSeparator (c : Char) : Bool := c = '/' || c = '\\'

/-- What follows the root name of a path: a drive, or two separators and the name of a server. -/
def relativeToRoot : Text → Text
  | c :: ':' :: t => if c.isAlpha then t else c :: ':' :: t
  | c :: d :: t =>
      if isSeparator c && isSeparator d && !(t.head?.any isSeparator) && !t.isEmpty then
        t.dropWhile fun e => !isSeparator e
      else c :: d :: t
  | t => t

/-- `std::filesystem::path(file).filename()`: what follows the root name and the last
separator. -/
def fileName (path : Text) : Text :=
  ((relativeToRoot path).reverse.takeWhile fun c => !isSeparator c).reverse

/-- The record of a file from the accumulators of its formats. -/
def fileRecord (file : Text) (dMs : ℚ) (g : Geometry) (fmts : List ℤ) (faccs : List FmtAcc) :
    FileRecord :=
  { shortName := fileName file
    imgW := g.imgW
    imgH := g.imgH
    ncols := g.ncols
    nrows := g.nrows
    dMs := dMs
    rasterMs := (faccs.head?.map FmtAcc.rasterWall).getD 0
    totalSsGb := (faccs.head?.map FmtAcc.ss).getD 0 / 10 ^ 9
    fmts := (fmts.zip faccs).filterMap fun (fmt, acc) =>
      (getEncoder fmt).map fun enc => fmtResult enc acc }

/-- What happens to an input file. -/
inductive FileOutcome where
  | loadFailure
  | skipped
  | report (r : FileRecord)

/-- The body of the loop over the files. -/
def processFile (env : Environment) (p : RunParams) (fmts : List ℤ) (file : Text) :
    Option FileOutcome := do
  if !(← env.fileExists file) then pure .loadFailure
  else
    match env.load file with
    | .error _ => pure .loadFailure
    | .ok none => pure .skipped
    | .ok (some doc) =>
        if doc.layerCount = 0 then pure .skipped
        else
          let g ← imageGeometry doc p
          let faccs ← measureFormats env p doc file g.ncols g.nrows fmts
          pure (.report (fileRecord file (env.loadMs file) g fmts faccs))

/-! ## All files -/

/-- The variables of the loop over the files. Each record is kept with the path of its
file. -/
structure FilesAcc where
  allFiles : List (Text × FileRecord) := []
  loadFailures : ℕ := 0

/-- One round of the loop over the files. -/
def fileStep (env : Environment) (p : RunParams) (fmts : List ℤ) (acc : FilesAcc)
    (file : Text) : Option FilesAcc := do
  match ← processFile env p fmts file with
  | .loadFailure => pure { acc with loadFailures := acc.loadFailures + 1 }
  | .skipped => pure acc
  | .report r => pure { acc with allFiles := acc.allFiles ++ [(file, r)] }

/-- What a run leaves behind: its records, whether the CSV was written if it was asked for,
and the exit status. -/
structure RunResult where
  allFiles : List (Text × FileRecord)
  csvWritten : Option Bool
  status : ℤ

/-- A run on a list of input files, with the limits applied and the strip width resolved. -/
def runFiles (env : Environment) (cfg : BenchConfig) (csvPath : Text) (files : List Text) :
    Option RunResult := do
  let acc ← files.foldlM (fileStep env (RunParams.ofConfig cfg) (resolveFormats cfg.formats)) {}
  pure
    { allFiles := acc.allFiles
      csvWritten := if csvPath.isEmpty then none else some (env.fileWritable csvPath)
      status := if 0 < acc.loadFailures ∨ acc.allFiles.isEmpty then 1 else 0 }

/-- `rle4k_cmd_run`, after the configuration file and the options have been read. -/
def rle4kCmdRun (env : Environment) (cfg : BenchConfig) (csvPath : Text) : Option RunResult :=
  let cfg := limitConfig cfg
  let failed : RunResult := { allFiles := [], csvWritten := none, status := 1 }
  if cfg.inputPath.isEmpty then some failed
  else do
    let files ← collectFiles env cfg
    if files.isEmpty then pure failed
    else
      let stripWidth ← resolveStripWidth cfg
      runFiles env { cfg with stripWidth := stripWidth } csvPath files

/-- A configuration for the reference environment: one block of 64 by 2 pixels, GZIP and
Brotli, with a check. -/
def referenceConfig : BenchConfig :=
  { inputPath := ['a']
    pitchWidthUm := .finite (1 / 1000)
    stripWidth := 64
    blockLine := 2
    checkEnabled := 1
    repeats := 2
    formats := [1, 5] }

end Redcli
