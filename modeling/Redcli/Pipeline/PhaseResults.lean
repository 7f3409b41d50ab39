import Redcli.Pipeline.Phases

/-!
# Results of the Phases

What each phase returns, whatever the schedule of its workers.

## Main results

* `rle4kPhaseRasterWindow_eq`: every slot holds its block and its digest;
* `rle4kPhaseEncodeWindow_eq_some_iff`: the phase completes exactly if every `process_pack`
  returns, and then every slot holds its payload;
* `rle4kPhaseDecodeWindow_eq`: the verdict of the phase is the conjunction of the verdicts of
  its slots.
-/

namespace Redcli

open WorkPool (Action runActions runActions_nil runActions_cons runJobs JobsCommute)

/-- The pool of a phase computes what one worker would compute. -/
theorem execute_window {S : Type} {jobs : ℕ → List (Action S)} (hcomm : JobsCommute jobs)
    {nwin : ℤ} (hnonneg : 0 ≤ nwin) (hmax : nwin ≤ intMax) (nthreads : ℤ) (schedule : List ℕ)
    (s : S) :
    (WorkPool.execute Rle4kRowBlockQueue.fetch jobs (workerCount nthreads nwin) nwin.toNat
      schedule { total := nwin } s).shared = runJobs jobs nwin.toNat s := by
  have hn := workerCount_le nthreads nwin
  exact WorkPool.execute_shared (workerCount_pos nthreads nwin) hcomm
    (Rle4kRowBlockQueue.fetch_serves hnonneg hmax (by omega)) schedule s

/-! ## Vectors that are filled slot by slot -/

section Fill

variable {α : Type*}

/-- A vector whose first `m` slots hold the values of `f` and whose other slots are as in
`v`. -/
def filled (f : ℕ → α) (v : List α) (m : ℕ) : List α := (List.range m).map f ++ v.drop m

theorem filled_zero (f : ℕ → α) (v : List α) : filled f v 0 = v := by
  simp [filled]

theorem filled_of_length {v : List α} {n : ℕ} (h : v.length = n) (f : ℕ → α) :
    filled f v n = (List.range n).map f := by
  simp [filled, h]

/-- Storing the value of the next slot. -/
theorem set_filled (f : ℕ → α) {v : List α} {m : ℕ} (hm : m < v.length) :
    (filled f v m).set m (f m) = filled f v (m + 1) := by
  -- the slot is the first one that is still as in `v`
  rw [filled, filled, List.set_append_right _ _ (by simp), List.length_map, List.length_range,
    Nat.sub_self, List.drop_eq_getElem_cons hm, List.set_cons_zero, List.range_succ]
  simp

/-- Skipping a slot that already has its value. -/
theorem filled_succ_of_eq (f : ℕ → α) {v : List α} {m : ℕ} (hm : v[m]? = some (f m)) :
    filled f v m = filled f v (m + 1) := by
  obtain ⟨hlt, hval⟩ := List.getElem?_eq_some_iff.mp hm
  rw [filled, filled, List.drop_eq_getElem_cons hlt, hval]
  simp [List.range_succ]

/-- A filled vector, slot by slot. -/
theorem getD_map_range (f : ℕ → α) {n i : ℕ} (hi : i < n) (d : α) :
    ((List.range n).map f).getD i d = f i := by
  simp [List.getD_eq_getElem?_getD, hi]

end Fill

/-! ## Phase 1 -/

section Raster

variable (env : Environment) (p : RunParams) (doc : CadDocument) (site : Site)

/-- Workers on different slots do not interfere. -/
theorem rasterJobs_commute : JobsCommute (rasterJob env p doc site) := by
  intro i j hij a ha b hb s
  simp only [rasterJob, List.mem_cons, List.not_mem_nil, or_false] at ha hb
  -- stores to different slots of one vector, or to different vectors
  rcases ha with rfl | rfl <;> rcases hb with rfl | rfl <;>
    simp [List.set_comm _ _ hij]

/-- Every slot of a rasterized window holds its block and its digest. -/
theorem rle4kPhaseRasterWindow_eq {nwin : ℤ} (hnonneg : 0 ≤ nwin) (hmax : nwin ≤ intMax) :
    rle4kPhaseRasterWindow env p doc site nwin = some
      { wall := env.wallMs .raster site
        ssBytes := totalBytes ((List.range nwin.toNat).map (rasterizeSlot env p doc site))
        raw := (List.range nwin.toNat).map (rasterizeSlot env p doc site)
        digests := (List.range nwin.toNat).map fun slot =>
          slotDigest p.doCheck (rasterizeSlot env p doc site slot) } := by
  set block := rasterizeSlot env p doc site with hblock
  set raw₀ : List (Option BitmapInfo) := List.replicate nwin.toNat none
  set digests₀ : List Rle4kBlockDigest := List.replicate nwin.toNat {}
  have hraw : raw₀.length = nwin.toNat := List.length_replicate
  have hdigests : digests₀.length = nwin.toNat := List.length_replicate
  -- after `m` jobs the first `m` slots of both vectors are filled
  obtain ⟨b, hrun, hb⟩ : ∃ b, runJobs (rasterJob env p doc site) nwin.toNat
      { raw := raw₀, digests := digests₀ } = some b ∧ b.raw = filled block raw₀ nwin.toNat ∧
        b.digests = filled (fun slot => slotDigest p.doCheck (block slot)) digests₀ nwin.toNat := by
    refine WorkPool.runJobs_invariant (fun m (b : RasterBuffers) => b.raw = filled block raw₀ m ∧
      b.digests = filled (fun slot => slotDigest p.doCheck (block slot)) digests₀ m) ?_
      ⟨(filled_zero _ _).symm, (filled_zero _ _).symm⟩
    rintro i hi ⟨raw, digests⟩ ⟨rfl, rfl⟩
    refine ⟨_, rfl, set_filled _ (by omega), ?_⟩
    exact set_filled (fun slot => slotDigest p.doCheck (block slot)) (by omega)
  rw [filled_of_length hraw, filled_of_length hdigests] at hb
  rw [rle4kPhaseRasterWindow, execute_window (rasterJobs_commute env p doc site) hnonneg hmax,
    hrun, Option.map_some, hb.1, hb.2]

end Raster

/-! ## Phase 2 -/

section Encode

variable (env : Environment) (enc : FormatEncoder) (args : EncodeFormatArgs) (site : Site)
  (raw : List (Option BitmapInfo))

/-- Whether the call of `process_pack` for a slot, if there is one, returns. -/
def PackReturns (slot : ℕ) : Prop :=
  ∀ src, raw.getD slot none = some src → ∃ e, packSlot env enc args site slot src = .ok e

/-- The payload of a slot: what `process_pack` returns for its block. -/
def slotPayload (slot : ℕ) : Option BitmapInfo :=
  (raw.getD slot none).bind fun src => (packSlot env enc args site slot src).toOption

/-- A slot without a block needs no work. -/
private theorem encodeJob_of_none {slot : ℕ} (hraw : raw.getD slot none = none) :
    encodeJob env enc args site raw slot = [] := by
  rw [encodeJob, hraw]

/-- A slot with a block needs one call. -/
private theorem encodeJob_of_some {slot : ℕ} {src : BitmapInfo}
    (hraw : raw.getD slot none = some src) :
    encodeJob env enc args site raw slot = [fun encCache =>
      match packSlot env enc args site slot src with
      | .ok e => some (encCache.set slot (some e))
      | .error _ => none] := by
  unfold encodeJob
  generalize raw.getD slot none = block at hraw ⊢
  subst hraw
  rfl

/-- The job of a slot stores its payload or fails. -/
private theorem runActions_encodeJob (slot : ℕ) (encCache : List (Option BitmapInfo)) :
    (PackReturns env enc args site raw slot ∧
        runActions (encodeJob env enc args site raw slot) encCache =
          some (if raw.getD slot none = none then encCache
            else encCache.set slot (slotPayload env enc args site raw slot))) ∨
      (¬ PackReturns env enc args site raw slot ∧
        runActions (encodeJob env enc args site raw slot) encCache = none) := by
  rcases hraw : raw.getD slot none with _ | src
  · refine .inl ⟨fun src h => ?_, ?_⟩
    · rw [hraw] at h
      cases h
    · rw [encodeJob_of_none env enc args site raw hraw, if_pos rfl]
      rfl
  -- the only call of the job throws or returns
  · rcases hpack : packSlot env enc args site slot src with failure | e
    · refine .inr ⟨fun h => ?_, ?_⟩
      · obtain ⟨e, he⟩ := h src hraw
        rw [hpack] at he
        cases he
      · simp [encodeJob_of_some env enc args site raw hraw, hpack]
    · refine .inl ⟨fun src' h => ?_, ?_⟩
      · rw [hraw] at h
        cases h
        exact ⟨e, hpack⟩
      · have hpayload : slotPayload env enc args site raw slot = some e := by
          rw [slotPayload, hraw, Option.bind_some, hpack]
          rfl
        simp [encodeJob_of_some env enc args site raw hraw, hpack, hpayload]

/-- Workers on different slots do not interfere, failures included. -/
theorem encodeJobs_commute : JobsCommute (encodeJob env enc args site raw) := by
  intro i j hij a ha b hb s
  rcases hi : raw.getD i none with _ | src
  · rw [encodeJob_of_none env enc args site raw hi] at ha
    exact absurd ha List.not_mem_nil
  rcases hj : raw.getD j none with _ | src'
  · rw [encodeJob_of_none env enc args site raw hj] at hb
    exact absurd hb List.not_mem_nil
  rw [encodeJob_of_some env enc args site raw hi, List.mem_singleton] at ha
  rw [encodeJob_of_some env enc args site raw hj, List.mem_singleton] at hb
  subst ha hb
  rcases packSlot env enc args site i src with failure | e <;>
    rcases packSlot env enc args site j src' with failure' | e' <;>
      simp [List.set_comm _ _ hij]

/-- The payloads of a window. -/
def slotPayloads : List (Option BitmapInfo) :=
  (List.range raw.length).map (slotPayload env enc args site raw)

/-- A cache for a window in which the slots without a block, which are never stored to, are
empty. -/
structure CleanCache (encCache : List (Option BitmapInfo)) : Prop where
  length_eq : encCache.length = raw.length
  empty : ∀ slot < raw.length, raw.getD slot none = none → encCache.getD slot none = none

/-- A new cache is clean. -/
theorem cleanCache_replicate : CleanCache raw (List.replicate raw.length none) where
  length_eq := List.length_replicate
  empty slot hslot _ := by simp [List.getD_eq_getElem?_getD, hslot]

/-- The payloads of an earlier repeat are a clean cache. -/
theorem cleanCache_slotPayloads : CleanCache raw (slotPayloads env enc args site raw) where
  length_eq := by simp [slotPayloads]
  empty slot hslot hraw := by
    rw [slotPayloads, getD_map_range _ hslot, slotPayload, hraw, Option.bind_none]

variable {env enc args site raw} {encCache : List (Option BitmapInfo)} {nthreads : ℤ}

/-- If every `process_pack` returns, every slot of the cache holds its payload. -/
private theorem rle4kPhaseEncodeWindow_eq_some (hmax : (raw.length : ℤ) ≤ intMax)
    (hclean : CleanCache raw encCache)
    (hpack : ∀ slot < raw.length, PackReturns env enc args site raw slot) :
    rle4kPhaseEncodeWindow env enc args site raw encCache nthreads = some
      { wall := env.wallMs .encode site
        csBytes := totalBytes (slotPayloads env enc args site raw)
        encCache := slotPayloads env enc args site raw } := by
  have hlength := hclean.length_eq
  set payload := slotPayload env enc args site raw with hpayload
  -- after `m` jobs the first `m` slots of the cache are filled
  obtain ⟨cache, hrun, hcache⟩ : ∃ cache,
      runJobs (encodeJob env enc args site raw) raw.length encCache = some cache ∧
        cache = filled payload encCache raw.length := by
    refine WorkPool.runJobs_invariant (fun m cache => cache = filled payload encCache m) ?_
      (filled_zero _ _).symm
    rintro i hi _ rfl
    rcases runActions_encodeJob env enc args site raw i (filled payload encCache i) with
      ⟨-, hjob⟩ | ⟨hfail, -⟩
    · refine ⟨_, hjob, ?_⟩
      by_cases hraw : raw.getD i none = none
      -- an empty slot is left as it is, and its payload is null
      · have hnone : payload i = none := by
          rw [hpayload, slotPayload, hraw, Option.bind_none]
        have hslot := hclean.empty i hi hraw
        rw [List.getD_eq_getElem?_getD, List.getElem?_eq_getElem (by omega),
          Option.getD_some] at hslot
        rw [if_pos hraw]
        refine filled_succ_of_eq payload ?_
        rw [List.getElem?_eq_getElem (by omega), hslot, hnone]
      · rw [if_neg hraw]
        exact set_filled payload (by omega)
    · exact absurd (hpack i hi) hfail
  rw [filled_of_length hlength] at hcache
  rw [rle4kPhaseEncodeWindow, execute_window (encodeJobs_commute env enc args site raw)
    (Int.natCast_nonneg _) hmax, Int.toNat_natCast, hrun, Option.map_some, hcache]
  rfl

/-- One `process_pack` that throws ends the program. -/
private theorem rle4kPhaseEncodeWindow_eq_none (hmax : (raw.length : ℤ) ≤ intMax) {slot : ℕ}
    (hslot : slot < raw.length) (hthrow : ¬ PackReturns env enc args site raw slot) :
    rle4kPhaseEncodeWindow env enc args site raw encCache nthreads = none := by
  -- a job that fails makes the run of all jobs fail
  have hnone : runJobs (encodeJob env enc args site raw) raw.length encCache = none :=
    WorkPool.runJobs_eq_none hslot
      (fun cache => ((runActions_encodeJob env enc args site raw slot cache).resolve_left
        fun h => hthrow h.1).2) encCache
  rw [rle4kPhaseEncodeWindow, execute_window (encodeJobs_commute env enc args site raw)
    (Int.natCast_nonneg _) hmax, Int.toNat_natCast, hnone, Option.map_none]

/-- The encode phase completes exactly if every `process_pack` returns. -/
theorem rle4kPhaseEncodeWindow_eq_some_iff (hmax : (raw.length : ℤ) ≤ intMax)
    (hclean : CleanCache raw encCache) {w : EncodeWindow} :
    rle4kPhaseEncodeWindow env enc args site raw encCache nthreads = some w ↔
      (∀ slot < raw.length, PackReturns env enc args site raw slot) ∧
        w = { wall := env.wallMs .encode site
              csBytes := totalBytes (slotPayloads env enc args site raw)
              encCache := slotPayloads env enc args site raw } := by
  by_cases hpack : ∀ slot < raw.length, PackReturns env enc args site raw slot
  · rw [rle4kPhaseEncodeWindow_eq_some hmax hclean hpack, Option.some.injEq, eq_comm,
      and_iff_right hpack]
  · obtain ⟨slot, hslot, hthrow⟩ : ∃ slot, slot < raw.length ∧
        ¬ PackReturns env enc args site raw slot := by simpa using hpack
    rw [rle4kPhaseEncodeWindow_eq_none hmax hslot hthrow]
    exact ⟨fun h => (Option.some_ne_none w h.symm).elim, fun h => (hpack h.1).elim⟩

end Encode

/-! ## Phase 3 -/

section Decode

variable (env : Environment) (fmt : ℤ) (site : Site) (digests : List Rle4kBlockDigest)
  (encCache : List (Option BitmapInfo))

/-- The verdict on a slot: a valid digest, of a format that can be decoded, needs a payload
that decodes to bytes with the recorded hash. -/
def slotOk (slot : ℕ) : Bool :=
  let dig := digests.getD slot {}
  !dig.valid || decide (fmt = RasterOutputFormat.brotli.value) ||
    (encCache.getD slot none).elim false fun e =>
      (decodeSlot env fmt site slot dig e).1 &&
        rle4kFnv1a64 (((decodeSlot env fmt site slot dig e).2.getD []).take dig.nbytes.toNat) ==
          dig.hash

/-- Workers on different slots do not interfere; all stores to the flag store `false`. -/
theorem decodeJobs_commute (check : Bool) :
    JobsCommute (decodeJob env fmt site digests encCache check) := by
  -- an action of a slot stores to this slot of one of the vectors, or clears the flag
  have hform : ∀ i, ∀ a ∈ decodeJob env fmt site digests encCache check i,
      (∃ buf, a = fun b => some { b with checkBufs := b.checkBufs.set i buf }) ∨
        (a = fun b => some { b with decodedOk := b.decodedOk.set i true }) ∨
          a = fun b => some { b with ok := false } := by
    intro i a ha
    rcases hcache : encCache.getD i none with _ | e
    · simp only [decodeJob, hcache, List.not_mem_nil] at ha
    · simp only [decodeJob, hcache] at ha
      split_ifs at ha with hskip hdec
      · exact absurd ha List.not_mem_nil
      · simp only [List.mem_cons, List.not_mem_nil, or_false] at ha
        rcases ha with rfl | rfl | rfl
        · exact .inl ⟨_, rfl⟩
        · exact .inl ⟨_, rfl⟩
        · exact .inr (.inl rfl)
      · simp only [List.mem_cons, List.not_mem_nil, or_false] at ha
        rcases ha with rfl | rfl | rfl
        · exact .inl ⟨_, rfl⟩
        · exact .inl ⟨_, rfl⟩
        · exact .inr (.inr rfl)
  intro i j hij a ha b hb s
  rcases hform i a ha with ⟨buf, rfl⟩ | rfl | rfl <;>
    rcases hform j b hb with ⟨buf', rfl⟩ | rfl | rfl <;>
      simp [List.set_comm _ _ hij]

variable {env fmt site digests encCache} {nthreads : ℤ}

/-- Brotli payloads count as decoded. -/
private theorem decodeSlot_brotli (env : Environment) (site : Site) (slot : ℕ)
    (dig : Rle4kBlockDigest) (e : BitmapInfo) :
    (decodeSlot env RasterOutputFormat.brotli.value site slot dig e).1 = true := by
  rw [decodeSlot, rle4kDecodePayload_brotli _ _ _ _ _ _ (by omega)]

/-- Whether a worker decodes a slot: there is a digest and a payload. -/
private def active (digests : List Rle4kBlockDigest) (encCache : List (Option BitmapInfo))
    (slot : ℕ) : Option BitmapInfo :=
  if (digests.getD slot {}).valid then encCache.getD slot none else none

/-- What the job of a slot does to the flag and to the two vectors. -/
private theorem runActions_decodeJob (slot : ℕ) (b : DecodeBuffers) :
    runActions (decodeJob env fmt site digests encCache true slot) b =
      some ((active digests encCache slot).elim b fun e =>
        let dec := decodeSlot env fmt site slot (digests.getD slot {}) e
        { ok := b.ok && dec.1
          checkBufs := b.checkBufs.set slot (dec.2.getD [])
          decodedOk := if dec.1 then b.decodedOk.set slot true else b.decodedOk }) := by
  rcases hcache : encCache.getD slot none with _ | e
  · simp only [decodeJob, active, hcache, ite_self, Option.elim_none]
    rfl
  -- a slot with a payload is decoded if its digest is valid
  · by_cases hvalid : (digests.getD slot {}).valid
    · simp only [decodeJob, active, hcache, hvalid, Bool.not_true, Bool.or_self, if_true,
        Bool.false_eq_true, if_false, Option.elim_some]
      rcases decodeSlot env fmt site slot (digests.getD slot {}) e with ⟨decOk, buf⟩
      cases decOk
      · simp only [runActions_cons, runActions_nil, Option.bind_some, List.set_set,
          Bool.and_false, Bool.false_eq_true, if_false]
      · simp only [runActions_cons, runActions_nil, Option.bind_some, List.set_set,
          Bool.and_true, if_true]
    · simp only [decodeJob, active, hcache, hvalid, Bool.not_false, Bool.true_or, if_true,
        Bool.false_eq_true, if_false, Option.elim_none]
      rfl

/-- The buffer of a slot after the pool. -/
private def finalBuf (env : Environment) (fmt : ℤ) (site : Site)
    (digests : List Rle4kBlockDigest) (encCache : List (Option BitmapInfo)) (slot : ℕ) : Bytes :=
  (active digests encCache slot).elim [] fun e =>
    (decodeSlot env fmt site slot (digests.getD slot {}) e).2.getD []

/-- The entry of `decoded_ok` of a slot after the pool. -/
private def finalOk (env : Environment) (fmt : ℤ) (site : Site)
    (digests : List Rle4kBlockDigest) (encCache : List (Option BitmapInfo)) (slot : ℕ) : Bool :=
  (active digests encCache slot).elim false fun e =>
    (decodeSlot env fmt site slot (digests.getD slot {}) e).1

variable (env fmt site digests encCache) in
/-- The buffers after the pool of a checked window. -/
private theorem runJobs_decodeJob (n : ℕ) :
    ∃ b, runJobs (decodeJob env fmt site digests encCache true) n
        { ok := true
          checkBufs := List.replicate n []
          decodedOk := List.replicate n false } = some b ∧
      (b.ok = true ↔ ∀ slot < n, ∀ e, active digests encCache slot = some e →
        (decodeSlot env fmt site slot (digests.getD slot {}) e).1 = true) ∧
      b.checkBufs = (List.range n).map (finalBuf env fmt site digests encCache) ∧
      b.decodedOk = (List.range n).map (finalOk env fmt site digests encCache) := by
  set bufs₀ : List Bytes := List.replicate n []
  set ok₀ : List Bool := List.replicate n false
  have hbufs : bufs₀.length = n := List.length_replicate
  have hok : ok₀.length = n := List.length_replicate
  rw [← filled_of_length hbufs, ← filled_of_length hok]
  -- after `m` jobs the first `m` slots are decided, and the flag is their conjunction
  refine WorkPool.runJobs_invariant (fun m (b : DecodeBuffers) =>
    (b.ok = true ↔ ∀ slot < m, ∀ e, active digests encCache slot = some e →
        (decodeSlot env fmt site slot (digests.getD slot {}) e).1 = true) ∧
      b.checkBufs = filled (finalBuf env fmt site digests encCache) bufs₀ m ∧
      b.decodedOk = filled (finalOk env fmt site digests encCache) ok₀ m) ?_
    ⟨by simp, (filled_zero _ _).symm, (filled_zero _ _).symm⟩
  rintro i hi ⟨ok, checkBufs, decodedOk⟩ ⟨hflag, rfl, rfl⟩
  refine ⟨_, runActions_decodeJob i _, ?_⟩
  have hbuf₀ : bufs₀[i]? = some [] := by simp [bufs₀, hi]
  have hok₀ : ok₀[i]? = some false := by simp [ok₀, hi]
  rcases hactive : active digests encCache i with _ | e
  · refine ⟨?_, ?_, ?_⟩
    · simp only [Option.elim_none, hflag, Nat.lt_succ_iff_lt_or_eq, or_imp, forall_and,
        forall_eq, hactive, reduceCtorEq, false_imp_iff, implies_true, and_true]
    · exact filled_succ_of_eq _ (by rw [hbuf₀, finalBuf, hactive, Option.elim_none])
    · exact filled_succ_of_eq _ (by rw [hok₀, finalOk, hactive, Option.elim_none])
  -- an active slot stores its buffer, and its status if that is `true`
  · have hbuf : (decodeSlot env fmt site i (digests.getD i {}) e).2.getD [] =
        finalBuf env fmt site digests encCache i := by rw [finalBuf, hactive, Option.elim_some]
    have hdec : (decodeSlot env fmt site i (digests.getD i {}) e).1 =
        finalOk env fmt site digests encCache i := by rw [finalOk, hactive, Option.elim_some]
    refine ⟨?_, ?_, ?_⟩
    · simp only [Option.elim_some, Bool.and_eq_true, hflag, Nat.lt_succ_iff_lt_or_eq, or_imp,
        forall_and, forall_eq, hactive, Option.some.injEq, forall_eq']
    · simp only [Option.elim_some, hbuf]
      exact set_filled _ (by omega)
    · simp only [Option.elim_some, hdec]
      by_cases hfin : finalOk env fmt site digests encCache i = true
      · rw [if_pos hfin]
        have := set_filled (finalOk env fmt site digests encCache)
          (by omega : i < ok₀.length)
        rwa [hfin] at this
      · rw [if_neg hfin]
        exact filled_succ_of_eq _ (by rw [hok₀, Bool.eq_false_of_not_eq_true hfin])

/-- The verify loop lowers the flag at the first slot that is not verified. -/
private theorem foldl_verifySlot {b : DecodeBuffers} {n : ℕ}
    (hbufs : b.checkBufs = (List.range n).map (finalBuf env fmt site digests encCache))
    (hok : b.decodedOk = (List.range n).map (finalOk env fmt site digests encCache)) (ok : Bool) :
    (List.range n).foldl (verifySlot fmt digests b) ok =
      (ok && (List.range n).all (slotOk env fmt site digests encCache)) := by
  have hstep : ∀ i < n, ∀ ok, verifySlot fmt digests b ok i =
      (ok && slotOk env fmt site digests encCache i) := by
    intro i hi ok
    simp only [verifySlot, slotOk, hbufs, hok, getD_map_range _ hi, finalOk, finalBuf, active]
    generalize digests.getD i {} = dig
    generalize encCache.getD i none = e
    by_cases hvalid : dig.valid
    · by_cases hfmt : fmt = RasterOutputFormat.brotli.value
      · simp [hfmt]
      · cases e with
        | none => simp [hvalid, hfmt]
        | some e =>
            simp only [hvalid, hfmt, if_true, Option.elim_some]
            rcases decodeSlot env fmt site i dig e with ⟨decOk, buf⟩
            by_cases hhash : rle4kFnv1a64 ((buf.getD []).take dig.nbytes.toNat) = dig.hash <;>
              cases decOk <;> simp [hhash]
    · simp [hvalid]
  -- by induction on the number of slots that were looked at
  have hfold : ∀ m ≤ n, (List.range m).foldl (verifySlot fmt digests b) ok =
      (ok && (List.range m).all (slotOk env fmt site digests encCache)) := by
    intro m hm
    induction m with
    | zero => simp
    | succ m ih =>
        rw [List.range_succ, List.foldl_append, ih (by omega), List.foldl_cons, List.foldl_nil,
          hstep m hm, List.all_append, Bool.and_assoc]
        simp
  exact hfold n le_rfl

/-- The verdict of a window is the conjunction of the verdicts of its slots. -/
theorem rle4kPhaseDecodeWindow_eq (hmax : (digests.length : ℤ) ≤ intMax) (check : Bool) :
    rle4kPhaseDecodeWindow env fmt site digests encCache nthreads check = some
      { wall := env.wallMs .decode site
        checkMs := if check then env.checkMs site else 0
        allOk := !check ||
          (List.range digests.length).all (slotOk env fmt site digests encCache) } := by
  rw [rle4kPhaseDecodeWindow, execute_window
    (decodeJobs_commute env fmt site digests encCache check) (Int.natCast_nonneg _) hmax,
    Int.toNat_natCast]
  cases check with
  | false =>
      -- without a check no worker stores anything that is read later
      have hjobs : decodeJob env fmt site digests encCache false = fun _ => [] := by
        funext slot
        rcases hcache : encCache.getD slot none with _ | e
        · simp only [decodeJob, hcache]
        · simp only [decodeJob, hcache, Bool.not_false, Bool.or_true, if_true]
      rw [hjobs, WorkPool.runJobs_nil]
      rfl
  | true =>
      obtain ⟨b, hrun, hflag, hbufs, hok⟩ :=
        runJobs_decodeJob env fmt site digests encCache digests.length
      -- a verified slot has been decoded, so the workers have not cleared the flag
      have hok_of_all : (List.range digests.length).all (slotOk env fmt site digests encCache) →
          b.ok = true := by
        intro hall
        refine hflag.mpr fun slot hslot e hactive => ?_
        have hverified := List.all_eq_true.mp hall slot (List.mem_range.mpr hslot)
        unfold active at hactive
        split_ifs at hactive with hvalid
        by_cases hfmt : fmt = RasterOutputFormat.brotli.value
        · rw [hfmt, decodeSlot_brotli]
        · simp only [slotOk, hvalid, hfmt, hactive, decide_false, Bool.not_true, Bool.false_or,
            Option.elim_some, Bool.and_eq_true] at hverified
          exact hverified.1
      simp only [if_true]
      rw [hrun, Option.map_some, foldl_verifySlot hbufs hok,
        Bool.and_eq_right_iff_imp.mpr hok_of_all]
      rfl

end Decode

end Redcli
