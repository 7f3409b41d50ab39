import Redcli.Pipeline.RunResults

/-!
# The Verdict on a Format

What the verdict `ok` of a format in a report says about the blocks of the file.

## Main results

* `formatAcc_ok_iff`: the verdict of a format is the conjunction of the verdicts of all slots,
  in all repeats, windows and columns;
* `ok_eq_false_iff`: no failure is lost and none is invented;
* `chk_sound_iff`: when the verdict `OK` of a report can be trusted.
-/

namespace Redcli

section

variable (env : Environment) (p : RunParams) (doc : CadDocument) (enc : FormatEncoder)
  (site : Site)

/-- The digest that a slot gets in the raster phase. -/
def siteDigest (slot : ℕ) : Rle4kBlockDigest :=
  slotDigest p.doCheck (rasterizeSlot env p doc site slot)

/-- The payload of a slot that the decode phase finds: that of the last repeat of the encode
phase. -/
def finalPayload (slot : ℕ) : Option BitmapInfo :=
  (rasterizeSlot env p doc site slot).bind fun src =>
    (packSlot env enc p.args { site with rep := p.repeats.toNat - 1 } slot src).toOption

/-- The call of `rle4k_decode_payload` for a slot in a repeat of the decode phase. -/
def decodeCall (rep slot : ℕ) (e : BitmapInfo) : Bool × Option Bytes :=
  decodeSlot env enc.getSupportedFormat.value { site with rep := rep } slot
    (siteDigest env p doc site slot) e

/-- The hash of the first `nbytes` bytes of the decode buffer. -/
def decodedHash (rep slot : ℕ) (e : BitmapInfo) : UInt64 :=
  rle4kFnv1a64 (((decodeCall env p doc enc site rep slot e).2.getD []).take
    (siteDigest env p doc site slot).nbytes.toNat)

/-- A failure of a slot with a valid digest: its payload is missing, decoding fails, or the
decoded bytes have another hash. -/
def SlotFails (rep slot : ℕ) : Prop :=
  (siteDigest env p doc site slot).valid = true ∧
    (finalPayload env p doc enc site slot = none ∨
      ∃ e, finalPayload env p doc enc site slot = some e ∧
        ((decodeCall env p doc enc site rep slot e).1 = false ∨
          decodedHash env p doc enc site rep slot e ≠ (siteDigest env p doc site slot).hash))

variable {env p doc enc site}

/-- A slot of a window holds its digest. -/
private theorem getD_windowDigests {nwin : ℤ} {slot : ℕ} (hslot : slot < nwin.toNat) :
    (windowDigests env p doc site nwin).getD slot {} = siteDigest env p doc site slot :=
  getD_map_range _ hslot _

/-- A slot of the cache holds its payload. -/
private theorem getD_windowCache (henc : p.doEncode = true) {nwin : ℤ} {slot : ℕ}
    (hslot : slot < nwin.toNat) :
    (windowCache env p doc enc site nwin).getD slot none =
      finalPayload env p doc enc site slot := by
  rw [windowCache, if_pos henc, windowPayloads, slotPayloads, length_windowRaw,
    getD_map_range _ hslot, slotPayload, windowRaw, getD_map_range _ hslot]
  rfl

/-- A slot of a format with a decoder fails exactly as described. -/
theorem slotOk_eq_false_iff (henc : p.doEncode = true) (hbrotli : enc ≠ .brotli) {nwin : ℤ}
    {rep slot : ℕ} (hslot : slot < nwin.toNat) :
    slotOk env enc.getSupportedFormat.value { site with rep := rep }
        (windowDigests env p doc site nwin) (windowCache env p doc enc site nwin) slot = false ↔
      SlotFails env p doc enc site rep slot := by
  have hfmt : enc.getSupportedFormat.value ≠ RasterOutputFormat.brotli.value :=
    fun h => hbrotli (enc.value_eq_brotli_iff.mp h)
  simp only [slotOk, getD_windowDigests hslot, getD_windowCache henc hslot, hfmt, decide_false,
    Bool.or_false, SlotFails, decodedHash, decodeCall]
  cases (siteDigest env p doc site slot).valid with
  | false => simp
  | true =>
      rcases finalPayload env p doc enc site slot with _ | e
      · simp
      · simp [imp_iff_not_or]

variable {file : Text} {fi : ℕ} {nrows ncols : ℤ}

/-- The verdict of a window is that of its repeats. -/
private theorem windowAcc_allOk_iff (hdec : p.doDecode = true) (hcheck : p.doCheck = true)
    {nwin : ℤ} :
    (windowAcc env p doc enc site nwin).allOk = true ↔
      ∀ rep < p.repeats.toNat, repeatOk env p doc enc site nwin rep = true := by
  have henc : ((List.range p.repeats.toNat).map
      (encodeAcc env p doc enc site nwin)).sum.allOk = true :=
    (ColumnAcc.allOk_sum _).mpr fun a ha => by
      obtain ⟨rep, -, rfl⟩ := List.mem_map.mp ha
      rfl
  have hdecode : ((List.range p.repeats.toNat).map
      (decodeAcc env p doc enc site nwin)).sum.allOk = true ↔
        ∀ rep < p.repeats.toNat, repeatOk env p doc enc site nwin rep = true := by
    rw [ColumnAcc.allOk_sum, List.forall_mem_map]
    simp only [List.mem_range, decodeAcc, hcheck, Bool.not_true, Bool.false_or]
  have hencode : (if p.doEncode = true then
      ((List.range p.repeats.toNat).map (encodeAcc env p doc enc site nwin)).sum
        else 0).allOk = true := by
    split_ifs
    · exact henc
    · rfl
  have hraster : (rasterAcc env p doc site nwin).allOk = true := rfl
  rw [← hdecode, windowAcc, if_pos hdec, ColumnAcc.allOk_add, ColumnAcc.allOk_add, hencode,
    hraster, Bool.true_and, Bool.true_and]

/-- The verdict of a format is the conjunction of the verdicts of all repeats of all windows
of all columns, if there is a check at all. -/
theorem formatAcc_ok_iff :
    (formatAcc env p doc enc file fi nrows ncols).ok = true ↔
      (p.doDecode = true → p.doCheck = true → ∀ col < ncols.toNat,
        ∀ w ∈ windows nrows p.cacheBlocks, ∀ rep < p.repeats.toNat,
          repeatOk env p doc enc (windowSite file fi (col : ℤ) w.1) w.2 rep = true) := by
  rw [formatAcc, FmtAcc.ok_sum, List.forall_mem_map]
  simp only [List.mem_range, ColumnAcc.averages, Bool.not_eq_true', Bool.and_eq_false_iff,
    Bool.not_eq_false']
  by_cases hdec : p.doDecode = true
  · by_cases hcheck : p.doCheck = true
    · simp only [hdec, hcheck, Bool.true_eq_false, false_or, forall_const, columnAcc,
        ColumnAcc.allOk_sum, List.forall_mem_map, windowAcc_allOk_iff hdec hcheck]
    · simp [hcheck]
  · simp [hdec]

/-- Without a decode phase, and for Brotli, every verdict is positive. -/
theorem formatAcc_ok_of_unverified (h : enc = .brotli ∨ p.doDecode = false) :
    (formatAcc env p doc enc file fi nrows ncols).ok = true := by
  refine formatAcc_ok_iff.mpr fun hdec hcheck col hcol w hw rep hrep => ?_
  rcases h with rfl | hoff
  · refine List.all_eq_true.mpr fun slot hslot => ?_
    simp [slotOk, FormatEncoder.getSupportedFormat]
  · rw [hoff] at hdec
    cases hdec

/-- A format with a decoder passes exactly if no slot fails. -/
theorem formatAcc_ok_eq_false_iff (henc : p.doEncode = true) (hdec : p.doDecode = true)
    (hcheck : p.doCheck = true) (hbrotli : enc ≠ .brotli) :
    (formatAcc env p doc enc file fi nrows ncols).ok = false ↔
      ∃ col < ncols.toNat, ∃ w ∈ windows nrows p.cacheBlocks, ∃ rep < p.repeats.toNat,
        ∃ slot < w.2.toNat,
          SlotFails env p doc enc (windowSite file fi (col : ℤ) w.1) rep slot := by
  rw [← Bool.not_eq_true, formatAcc_ok_iff]
  simp only [hdec, hcheck, forall_const, not_forall, exists_prop, repeatOk, List.all_eq_true,
    List.mem_range, Bool.not_eq_true]
  refine exists_congr fun col => and_congr_right fun _ => exists_congr fun w =>
    and_congr_right fun _ => exists_congr fun rep => and_congr_right fun _ =>
      exists_congr fun slot => and_congr_right fun hslot => ?_
  exact slotOk_eq_false_iff henc hbrotli hslot

end

/-! ## Verdicts of a run -/

section Run

variable {env : Environment} {cfg : BenchConfig} {p : RunParams} {file : Text} {r : FileRecord}
  {fi : ℕ} {enc : FormatEncoder}

/-- **No failure is lost.** In the report of a file that was processed with check, encode and
decode phase, the verdict of a format other than Brotli is negative exactly if some slot fails, in
some repeat of some window of some column. -/
theorem ok_eq_false_iff (hp : runParams cfg = some p)
    (hprocess : processFile env p (resolveFormats cfg.formats) file = some (.report r))
    (hcheck : cfg.checkEnabled ≠ 0) (hencode : cfg.encodeEnabled ≠ 0)
    (hdecode : cfg.decodeEnabled ≠ 0)
    (hfmt : (resolveFormats cfg.formats)[fi]? = some enc.getSupportedFormat.value)
    (hbrotli : enc ≠ .brotli) :
    ∃ doc g fr, env.load file = .ok (some doc) ∧ imageGeometry doc p = some g ∧
      r.fmts[fi]? = some fr ∧
      (fr.ok = false ↔
        ∃ col < g.ncols.toNat, ∃ w ∈ windows g.nrows p.cacheBlocks, ∃ rep < p.repeats.toNat,
          ∃ slot < w.2.toNat,
            SlotFails env p doc enc (windowSite file fi (col : ℤ) w.1) rep slot) := by
  obtain ⟨doc, g, hload, hg, -, hresult⟩ := result_of_report hprocess hfmt
  obtain ⟨henc, hdec, hchk⟩ := switches_of_runParams hp
  refine ⟨doc, g, _, hload, hg, hresult, ?_⟩
  exact formatAcc_ok_eq_false_iff (by simp [henc, hencode]) (by simp [hdec, hencode, hdecode])
    (by simp [hchk, hcheck]) hbrotli

/-- The reference environment with a decoder for GZIP that reports an error, and without a
file that can be written. -/
def failingEnv : Environment :=
  { referenceEnv with
    codecs := fun _ _ => { referenceLibs with uncompress := fun cap _ => (-3, cap, fun _ => none) }
    fileWritable := fun _ => false }

/-- With a decoder that reports an error the verdict on GZIP is negative, and a slot fails. -/
theorem ok_eq_false_iff_failingEnv :
    ∃ p r doc g fr, runParams referenceConfig = some p ∧
      processFile failingEnv p (resolveFormats referenceConfig.formats) ['a'] =
        some (.report r) ∧
      failingEnv.load ['a'] = .ok (some doc) ∧ imageGeometry doc p = some g ∧
      r.fmts[0]? = some fr ∧ fr.ok = false ∧
      ∃ col < g.ncols.toNat, ∃ w ∈ windows g.nrows p.cacheBlocks, ∃ rep < p.repeats.toNat,
        ∃ slot < w.2.toNat,
          SlotFails failingEnv p doc .gzip (windowSite ['a'] 0 (col : ℤ) w.1) rep slot := by
  have hverdicts : (rle4kCmdRun failingEnv referenceConfig []).map (fun result =>
      result.allFiles.map fun v => (v.1, v.2.fmts.map FmtResult.ok)) =
      some [(['a'], [false, true])] := by
    decide +kernel
  obtain ⟨result, hrun, hfiles⟩ := Option.map_eq_some_iff.mp hverdicts
  obtain ⟨⟨file, r⟩, hr, heq⟩ := List.mem_map.mp (hfiles ▸ List.mem_singleton_self _)
  obtain ⟨rfl, hoks⟩ := Prod.mk.inj heq
  obtain ⟨p, hp, hprocess⟩ := processFile_of_mem_allFiles hrun hr
  have hgzip : (resolveFormats referenceConfig.formats)[0]? =
      some FormatEncoder.gzip.getSupportedFormat.value := rfl
  obtain ⟨doc, g, fr, hload, hg, hfr, hiff⟩ :=
    ok_eq_false_iff hp hprocess (by decide) (by decide) (by decide) hgzip (by decide)
  -- the first of the verdicts
  have hok : fr.ok = false := by
    have hfirst : (r.fmts.map FmtResult.ok)[0]? = some fr.ok := by rw [List.getElem?_map, hfr]; rfl
    rw [hoks] at hfirst
    exact (Option.some.inj hfirst).symm
  exact ⟨p, r, doc, g, fr, hp, hprocess, hload, hg, hfr, hok, hiff.mp hok⟩

/-- What the verdict `OK` promises for the block of a slot: it was encoded, its payload was
passed to a decoder, and the decoded bytes have the hash taken after rasterization. -/
def BlockVerified (env : Environment) (p : RunParams) (doc : CadDocument) (enc : FormatEncoder)
    (site : Site) (rep slot : ℕ) : Prop :=
  p.doEncode = true ∧ p.doDecode = true ∧ enc ≠ .brotli ∧
    ∃ e, finalPayload env p doc enc site slot = some e ∧
      (decodeCall env p doc enc site rep slot e).1 = true ∧
      decodedHash env p doc enc site rep slot e = (siteDigest env p doc site slot).hash

/-- A block of a completed column has a valid digest. -/
theorem siteDigest_valid {p : RunParams} {doc : CadDocument} {nrows col : ℤ}
    (hcol : ColumnCompletes env p doc enc file fi nrows col) (henc : p.doEncode = true)
    {w : ℤ × ℤ} (hw : w ∈ windows nrows p.cacheBlocks) {slot : ℕ} (hslot : slot < w.2.toNat)
    {src : BitmapInfo}
    (hsrc : rasterizeSlot env p doc (windowSite file fi col w.1) slot = some src) :
    (siteDigest env p doc (windowSite file fi col w.1) slot).valid = true := by
  have hraw : (windowRaw env p doc (windowSite file fi col w.1) w.2).getD slot none = some src := by
    rw [windowRaw, getD_map_range _ hslot, hsrc]
  obtain ⟨e, hpack⟩ := hcol.1 w hw henc 0 p.repeats_pos slot hslot src hraw
  obtain ⟨_, hsome, hvalid⟩ := validBitmap_of_processPack hpack
  obtain rfl := Option.some.inj hsome
  rw [siteDigest, slotDigest, hsrc]
  exact hvalid.digest_valid _

/-- A block of a completed column that does not fail is verified. -/
private theorem blockVerified_of_not_slotFails {p : RunParams} {doc : CadDocument} {nrows col : ℤ}
    (hcol : ColumnCompletes env p doc enc file fi nrows col) (henc : p.doEncode = true)
    (hdec : p.doDecode = true) (hbrotli : enc ≠ .brotli) {w : ℤ × ℤ}
    (hw : w ∈ windows nrows p.cacheBlocks) {rep slot : ℕ} (hslot : slot < w.2.toNat)
    (hblock : rasterizeSlot env p doc (windowSite file fi col w.1) slot ≠ none)
    (hnofail : ¬ SlotFails env p doc enc (windowSite file fi col w.1) rep slot) :
    BlockVerified env p doc enc (windowSite file fi col w.1) rep slot := by
  obtain ⟨src, hsrc⟩ := Option.ne_none_iff_exists'.mp hblock
  have hvalid := siteDigest_valid hcol henc hw hslot hsrc
  simp only [SlotFails, hvalid, true_and, not_or, not_exists, not_and, Bool.not_eq_false,
    not_not, ne_eq] at hnofail
  obtain ⟨hpayload, hdecoded⟩ := hnofail
  obtain ⟨e, he⟩ := Option.ne_none_iff_exists'.mp hpayload
  exact ⟨henc, hdec, hbrotli, e, he, (hdecoded e he).1, (hdecoded e he).2⟩

/-- Under a check, the verdict `OK` is shown exactly for a positive result. -/
theorem chk_ok_iff (hcheck : cfg.checkEnabled ≠ 0) {fr : FmtResult} :
    consoleChk cfg fr = some "OK" ∨ csvChk cfg fr = "OK" ↔ fr.ok = true := by
  rw [consoleChk, csvChk, if_pos hcheck, if_pos hcheck]
  cases fr.ok <;> decide

/-- **When a verdict can be trusted.** In the report of a file that was processed with a check, the
verdict `OK` implies that all blocks of the file were verified exactly if the format has a decoder
and both phases are switched on, or if the file has no block at all. -/
theorem chk_sound_iff (hp : runParams cfg = some p)
    (hprocess : processFile env p (resolveFormats cfg.formats) file = some (.report r))
    (hcheck : cfg.checkEnabled ≠ 0)
    (hfmt : (resolveFormats cfg.formats)[fi]? = some enc.getSupportedFormat.value) :
    ∃ doc g fr, env.load file = .ok (some doc) ∧ imageGeometry doc p = some g ∧
      r.fmts[fi]? = some fr ∧
      ((consoleChk cfg fr = some "OK" ∨ csvChk cfg fr = "OK" →
          ∀ col < g.ncols.toNat, ∀ w ∈ windows g.nrows p.cacheBlocks, ∀ slot < w.2.toNat,
            rasterizeSlot env p doc (windowSite file fi (col : ℤ) w.1) slot ≠ none →
            ∀ rep < p.repeats.toNat,
              BlockVerified env p doc enc (windowSite file fi (col : ℤ) w.1) rep slot) ↔
        (enc ≠ .brotli ∧ cfg.encodeEnabled ≠ 0 ∧ cfg.decodeEnabled ≠ 0) ∨
          ∀ col < g.ncols.toNat, ∀ w ∈ windows g.nrows p.cacheBlocks, ∀ slot < w.2.toNat,
            rasterizeSlot env p doc (windowSite file fi (col : ℤ) w.1) slot = none) := by
  obtain ⟨doc, g, hload, hg, hcols, hresult⟩ := result_of_report hprocess hfmt
  obtain ⟨henc, hdec, hchk⟩ := switches_of_runParams hp
  refine ⟨doc, g, _, hload, hg, hresult, ?_⟩
  rw [chk_ok_iff hcheck]
  constructor
  · intro hsound
    by_contra hnot
    push Not at hnot
    obtain ⟨hswitch, col, hcol, w, hw, slot, hslot, hblock⟩ := hnot
    -- nothing is verified, but the verdict is positive
    have hunverified : enc = .brotli ∨ p.doDecode = false := by
      rw [hdec]
      by_cases hbrotli : enc = .brotli
      · exact .inl hbrotli
      · by_cases hencode : cfg.encodeEnabled = 0
        · exact .inr (by simp [hencode])
        · exact .inr (by simp [hswitch hbrotli hencode])
    obtain ⟨-, hdec', hbrotli, -⟩ :=
      hsound (formatAcc_ok_of_unverified hunverified) col hcol w hw slot hslot hblock 0
        p.repeats_pos
    rcases hunverified with hunverified | hunverified
    · exact hbrotli hunverified
    · rw [hunverified] at hdec'
      cases hdec'
  · rintro (⟨hbrotli, hencode, hdecode⟩ | hnone) hok col hcol w hw slot hslot hblock rep hrep
    · have henc' : p.doEncode = true := by simp [henc, hencode]
      have hdec' : p.doDecode = true := by simp [hdec, hencode, hdecode]
      have hchk' : p.doCheck = true := by simp [hchk, hcheck]
      -- a positive verdict leaves no slot that fails
      refine blockVerified_of_not_slotFails (hcols col hcol) henc' hdec' hbrotli hw hslot hblock
        fun hfail => ?_
      have hneg := (formatAcc_ok_eq_false_iff henc' hdec' hchk' hbrotli).mpr
        ⟨col, hcol, w, hw, rep, hrep, slot, hslot, hfail⟩
      rw [show (formatAcc env p doc enc file fi g.nrows g.ncols).ok = true from hok] at hneg
      cases hneg
    · exact absurd (hnone col hcol w hw slot hslot) hblock

/-- The verdict on Brotli in the reference run can not be trusted: that run has a block. -/
theorem chk_sound_iff_referenceRun :
    ∃ result p r, rle4kCmdRun referenceEnv referenceConfig [] = some result ∧
      (['a'], r) ∈ result.allFiles ∧ runParams referenceConfig = some p ∧
      ∃ doc g fr, referenceEnv.load ['a'] = .ok (some doc) ∧ imageGeometry doc p = some g ∧
        r.fmts[1]? = some fr ∧
        ((consoleChk referenceConfig fr = some "OK" ∨ csvChk referenceConfig fr = "OK" →
            ∀ col < g.ncols.toNat, ∀ w ∈ windows g.nrows p.cacheBlocks, ∀ slot < w.2.toNat,
              rasterizeSlot referenceEnv p doc (windowSite ['a'] 1 (col : ℤ) w.1) slot ≠ none →
              ∀ rep < p.repeats.toNat,
                BlockVerified referenceEnv p doc .brotli (windowSite ['a'] 1 (col : ℤ) w.1) rep
                  slot) ↔
          (FormatEncoder.brotli ≠ .brotli ∧ referenceConfig.encodeEnabled ≠ 0 ∧
            referenceConfig.decodeEnabled ≠ 0) ∨
            ∀ col < g.ncols.toNat, ∀ w ∈ windows g.nrows p.cacheBlocks, ∀ slot < w.2.toNat,
              rasterizeSlot referenceEnv p doc (windowSite ['a'] 1 (col : ℤ) w.1) slot =
                none) := by
  obtain ⟨result, r, hrun, hr⟩ := referenceRun
  obtain ⟨p, hp, hprocess⟩ := processFile_of_mem_allFiles hrun hr
  exact ⟨result, p, r, hrun, hr, hp, chk_sound_iff hp hprocess (by decide) rfl⟩

/-- Brotli is reported as `OK` in the reference run, although its only block is never
decoded. -/
theorem chk_brotli_unsound :
    ∃ result r fr p, rle4kCmdRun referenceEnv referenceConfig [] = some result ∧
      (['a'], r) ∈ result.allFiles ∧ r.fmts[1]? = some fr ∧
      consoleChk referenceConfig fr = some "OK" ∧ csvChk referenceConfig fr = "OK" ∧
      runParams referenceConfig = some p ∧
      rasterizeSlot referenceEnv p referenceDocument (windowSite ['a'] 1 0 0) 0 = some twoRows ∧
      ¬ BlockVerified referenceEnv p referenceDocument .brotli (windowSite ['a'] 1 0 0) 0 0 := by
  obtain ⟨result, r, hrun, hr⟩ := referenceRun
  obtain ⟨p, hp, hprocess⟩ := processFile_of_mem_allFiles hrun hr
  have hfmt : (resolveFormats referenceConfig.formats)[1]? =
      some FormatEncoder.brotli.getSupportedFormat.value := rfl
  obtain ⟨doc, g, hload, -, -, hresult⟩ := result_of_report hprocess hfmt
  have hok : (formatAcc referenceEnv p doc .brotli ['a'] 1 g.nrows g.ncols).ok = true :=
    formatAcc_ok_of_unverified (.inl rfl)
  refine ⟨result, r, _, p, hrun, hr, hresult, ?_, ?_, hp, ?_, fun h => h.2.2.1 rfl⟩
  · rw [consoleChk, fmtResult, hok]
    rfl
  · rw [csvChk, fmtResult, hok]
    rfl
  · rfl

end Run

end Redcli
