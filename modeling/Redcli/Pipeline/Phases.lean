import Redcli.Pipeline.Environment
import Redcli.Pipeline.RowBlockQueue

/-!
# The Phases of a Window

The three phases that `rle4k_cmd_run` performs on a window of row blocks. Each starts a pool
of workers over the slots of the window and joins them; the order in which the workers take
their steps is the schedule of the environment.

An exception that leaves a worker thread ends the program: the phase is `none`.
-/

namespace Redcli

open WorkPool (Action)

/-- The constants that `rle4k_cmd_run` sets up for the measurement of a file. The two
bounds are established by its `std::max(1, …)`. -/
structure RunParams where
  pwNm : Double
  stripWidth : ℤ
  blockLine : ℤ
  rtThreads : ℤ
  etThreads : ℤ
  dtThreads : ℤ
  repeats : ℤ
  doEncode : Bool
  doDecode : Bool
  doCheck : Bool
  cacheBlocks : ℤ
  args : EncodeFormatArgs
  one_le_repeats : 1 ≤ repeats
  one_le_cacheBlocks : 1 ≤ cacheBlocks

/-- There is a repeat. -/
theorem RunParams.repeats_pos (p : RunParams) : 0 < p.repeats.toNat := by
  have := p.one_le_repeats
  omega

/-- The `data_length` of a bitmap, if there is one. -/
def blockBytes (b : Option BitmapInfo) : ℚ := b.elim 0 fun b => (b.dataLength.toNat : ℚ)

/-- The sum of the `data_length` of the bitmaps that are present. -/
def totalBytes (bitmaps : List (Option BitmapInfo)) : ℚ := (bitmaps.map blockBytes).sum

/-! ## Phase 1: rasterize -/

/-- The vectors `raw` and `digests` of a window. -/
structure RasterBuffers where
  raw : List (Option BitmapInfo)
  digests : List Rle4kBlockDigest

section Raster

variable (env : Environment) (p : RunParams) (doc : CadDocument) (site : Site)

/-- The block that a worker rasterizes for a slot. -/
def rasterizeSlot (slot : ℕ) : Option BitmapInfo :=
  env.rasterizeBlock site slot doc site.col (site.row0 + slot) p.pwNm
    (UInt32.ofInt p.stripWidth) (UInt32.ofInt p.blockLine) .align064

/-- The digest of a rasterized block. -/
def slotDigest (doHash : Bool) (block : Option BitmapInfo) : Rle4kBlockDigest :=
  block.elim {} fun b => rle4kMakeDigest b doHash

/-- The stores of a worker for a slot. -/
def rasterJob (slot : ℕ) : List (Action RasterBuffers) :=
  let block := rasterizeSlot env p doc site slot
  [fun b => some { b with digests := b.digests.set slot (slotDigest p.doCheck block) },
    fun b => some { b with raw := b.raw.set slot block }]

/-- What `rle4k_phase_raster_window` returns. -/
structure RasterWindow where
  wall : ℚ
  ssBytes : ℚ
  raw : List (Option BitmapInfo)
  digests : List Rle4kBlockDigest

/-- `rle4k_phase_raster_window`. -/
def rle4kPhaseRasterWindow (nwin : ℤ) : Option RasterWindow :=
  let pool := WorkPool.execute Rle4kRowBlockQueue.fetch (rasterJob env p doc site)
    (workerCount p.rtThreads nwin) nwin.toNat (env.schedule .raster site) { total := nwin }
    { raw := List.replicate nwin.toNat none, digests := List.replicate nwin.toNat {} }
  pool.shared.map fun b =>
    { wall := env.wallMs .raster site
      ssBytes := totalBytes b.raw
      raw := b.raw
      digests := b.digests }

end Raster

/-! ## Phase 2: encode -/

section Encode

variable (env : Environment) (enc : FormatEncoder) (args : EncodeFormatArgs) (site : Site)
  (raw : List (Option BitmapInfo))

/-- The call of `process_pack` for a slot. -/
def packSlot (slot : ℕ) (src : BitmapInfo) : Except PackFailure BitmapInfo :=
  enc.processPack (env.codecs site slot) (env.bitmaps site slot) (some src) args

/-- The work for a slot: nothing without a block, else a call whose exception is not
caught. -/
def encodeJob (slot : ℕ) : List (Action (List (Option BitmapInfo))) :=
  match raw.getD slot none with
  | none => []
  | some src =>
      [fun encCache =>
        match packSlot env enc args site slot src with
        | .ok e => some (encCache.set slot (some e))
        | .error _ => none]

/-- What `rle4k_phase_encode_window` returns. -/
structure EncodeWindow where
  wall : ℚ
  csBytes : ℚ
  encCache : List (Option BitmapInfo)

/-- `rle4k_phase_encode_window`. -/
def rle4kPhaseEncodeWindow (encCache : List (Option BitmapInfo)) (nthreads : ℤ) :
    Option EncodeWindow :=
  let nwin : ℤ := raw.length
  let pool := WorkPool.execute Rle4kRowBlockQueue.fetch (encodeJob env enc args site raw)
    (workerCount nthreads nwin) nwin.toNat (env.schedule .encode site) { total := nwin } encCache
  pool.shared.map fun encCache =>
    { wall := env.wallMs .encode site
      csBytes := totalBytes encCache
      encCache := encCache }

end Encode

/-! ## Phase 3: decode -/

/-- The flag `ok` and the vectors `check_bufs` and `decoded_ok` of a window. -/
structure DecodeBuffers where
  ok : Bool
  checkBufs : List Bytes
  decodedOk : List Bool

section Decode

variable (env : Environment) (fmt : ℤ) (site : Site) (digests : List Rle4kBlockDigest)
  (encCache : List (Option BitmapInfo))

/-- The call of `rle4k_decode_payload` for a slot, into `nbytes + 4096` zeros. -/
def decodeSlot (slot : ℕ) (dig : Rle4kBlockDigest) (e : BitmapInfo) : Bool × Option Bytes :=
  let need := dig.nbytes.toNat + 4096
  rle4kDecodePayload (env.codecs site slot) fmt (some e) dig.width dig.height dig.stride
    (some (List.replicate need 0)) need

/-- The stores of a worker for a slot. Without a check it decodes into a buffer of its own
and drops the status. -/
def decodeJob (check : Bool) (slot : ℕ) : List (Action DecodeBuffers) :=
  let dig := digests.getD slot {}
  match encCache.getD slot none with
  | none => []
  | some e =>
      if !dig.valid || !check then []
      else
        let (decOk, buf) := decodeSlot env fmt site slot dig e
        [fun b => some { b with
            checkBufs := b.checkBufs.set slot (List.replicate (dig.nbytes.toNat + 4096) 0) },
          fun b => some { b with checkBufs := b.checkBufs.set slot (buf.getD []) },
          fun b => some (if decOk then { b with decodedOk := b.decodedOk.set slot true }
            else { b with ok := false })]

/-- One round of the verify loop: the flag after slot `i`. -/
def verifySlot (b : DecodeBuffers) (ok : Bool) (i : ℕ) : Bool :=
  let dig := digests.getD i {}
  if !dig.valid then ok
  else if fmt = RasterOutputFormat.brotli.value then ok
  else if !b.decodedOk.getD i false then false
  else if rle4kFnv1a64 ((b.checkBufs.getD i []).take dig.nbytes.toNat) ≠ dig.hash then false
  else ok

/-- What `rle4k_phase_decode_window` returns. -/
structure DecodeWindow where
  wall : ℚ
  checkMs : ℚ
  allOk : Bool

/-- `rle4k_phase_decode_window`. -/
def rle4kPhaseDecodeWindow (nthreads : ℤ) (check : Bool) : Option DecodeWindow :=
  let nwin : ℤ := digests.length
  let buffers : DecodeBuffers :=
    if check then
      { ok := true
        checkBufs := List.replicate nwin.toNat []
        decodedOk := List.replicate nwin.toNat false }
    else { ok := true, checkBufs := [], decodedOk := [] }
  let pool := WorkPool.execute Rle4kRowBlockQueue.fetch
    (decodeJob env fmt site digests encCache check) (workerCount nthreads nwin) nwin.toNat
    (env.schedule .decode site) { total := nwin } buffers
  pool.shared.map fun b =>
    { wall := env.wallMs .decode site
      checkMs := if check then env.checkMs site else 0
      allOk :=
        if check then (List.range nwin.toNat).foldl (verifySlot fmt digests b) b.ok else b.ok }

end Decode

end Redcli
