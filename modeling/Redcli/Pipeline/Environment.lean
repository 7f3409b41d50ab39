import Redcli.Codec.DecodePayload
import Redcli.Codec.ReferenceLibraries
import Redcli.Config.BenchConfig

/-!
# The Environment of a Run

Everything that `rle4k_cmd_run` calls and this development does not define: the file system,
the loader, the rasterizer, the codec and bitmap libraries, the wall clock and the thread
scheduler. Each is a function of the place in the run where it is called, so an environment
may answer the same question differently at different places.
-/

namespace Redcli

/-- `cad_vertex`. -/
structure CadVertex where
  x : ℚ
  y : ℚ

/-- `cad_polygon`. -/
structure CadPolygon where
  vertices : List CadVertex
  polarity : Bool
  bboxMinX : ℚ
  bboxMinY : ℚ
  bboxMaxX : ℚ
  bboxMaxY : ℚ

/-- `cad_layer`. -/
structure CadLayer where
  layerId : ℤ
  polygons : List CadPolygon
  polarity : Bool

/-- `cad_document`. -/
structure CadDocument where
  minX : ℚ
  minY : ℚ
  maxX : ℚ
  maxY : ℚ
  layers : List CadLayer

/-- `layer_count`. -/
def CadDocument.layerCount (doc : CadDocument) : ℕ := doc.layers.length

/-- What the loader throws. -/
inductive LoadFailure where
  | exception (what : String)
  | unknown

/-- The phases of a window. -/
inductive Phase where
  | raster | encode | decode
  deriving DecidableEq, Repr

/-- A place in a run: the file, the position of the format in the format list, the column,
the first row of the window, and the repeat. -/
structure Site where
  file : Text
  fi : ℕ
  col : ℤ
  row0 : ℤ
  rep : ℕ := 0
  deriving DecidableEq, Repr

/-- The surroundings of a run. The `ℕ` behind a `Site` is the slot of the window. -/
structure Environment where
  /-- `std::filesystem::exists`; `none` if it throws. -/
  fileExists : Text → Option Bool
  /-- `std::filesystem::directory_iterator`: the paths of the entries, and whether they are
  regular files; `none` if listing them throws. -/
  directory : Text → Option (List (Text × Bool))
  /-- `rle4k_dif_loader().load`, a document or a null pointer. -/
  load : Text → Except LoadFailure (Option CadDocument)
  /-- The time that loading took. -/
  loadMs : Text → ℚ
  /-- `rle4k_rasterize_block(doc, col, row, pw_nm, sw, sh, align)`. -/
  rasterizeBlock : Site → ℕ → (doc : CadDocument) → (col row : ℤ) → (pwNm : Double) →
    (sw sh : UInt32) → MapAlignMode → Option BitmapInfo
  /-- The codec libraries. -/
  codecs : Site → ℕ → CodecLibs
  /-- The bitmap container. -/
  bitmaps : Site → ℕ → RasterLib
  /-- The wall time between the start of the first worker of a phase and the last join. -/
  wallMs : Phase → Site → ℚ
  /-- The wall time of the digest checks. -/
  checkMs : Site → ℚ
  /-- The order in which the workers of a phase take their steps. -/
  schedule : Phase → Site → List ℕ
  /-- Whether a file can be opened for writing and takes everything that is written. -/
  fileWritable : Text → Bool

/-- A document of 64 by 2 nanometres with one layer. -/
def referenceDocument : CadDocument where
  minX := 0
  minY := 0
  maxX := 64
  maxY := 2
  layers := [{ layerId := 0, polygons := [], polarity := true }]

/-- An environment in which the file `a` holds the reference document, every other file is
missing, the rasterizer has one block, and the libraries are the reference libraries. -/
def referenceEnv : Environment where
  fileExists file := some (decide (file = ['a']))
  directory _ := some [(['a'], true)]
  load _ := .ok (some referenceDocument)
  loadMs _ := 1
  rasterizeBlock _ _ _ col row _ _ _ _ := if col = 0 ∧ row = 0 then some twoRows else none
  codecs _ _ := referenceLibs
  bitmaps _ _ := referenceBitmaps
  wallMs _ _ := 1
  checkMs _ := 1
  schedule _ _ := [0]
  fileWritable _ := true

end Redcli
