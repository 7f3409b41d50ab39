import Redcli.Pipeline.Phases
import Redcli.Support.PoolHistory

/-!
# Exactly Once

What the row-block queue promises to the workers of a phase, in every interleaving and
whatever the workers do between two calls of `pop`.

## Main results

* `queue_exactlyOnce`: along every schedule the counter has not wrapped around, the indices
  are issued in order, each worker receives increasing ones and fails to pop at most once;
  when all workers have stopped, each slot of the window was handled by one worker;
* `OnlySlot`: the workers of the three phases write no other slot than the one they popped;
* `slotAfter`: what they leave in this slot.
-/

namespace Redcli

open WorkPool (Action State ServedOnce performed runActions runActions_cons runActions_nil)

/-- The history of a pool of `n` workers over a queue with `total` slots: `st` is the state
that was reached, with the calls of `pop` in `st.log`, and `trace` says who performed which
actions. -/
structure ExactlyOnce {S : Type} (jobs : ℕ → List (Action S)) (total : ℤ) (n : ℕ)
    (st : State Rle4kRowBlockQueue S) (trace : List (ℕ × ℕ)) : Prop where
  /-- The counter is the number of calls, as an integer. -/
  counter : st.dispenser = { total := total, next := st.log.length }
  /-- No more than `n` calls overshoot. -/
  counter_le : (st.log.length : ℤ) ≤ total + n
  /-- The indices that were issued, over all workers. -/
  issued : st.log.filterMap Prod.snd = List.range (min st.log.length total.toNat)
  /-- The indices that worker `w` received. -/
  increasing : ∀ w, ((st.log.filter fun v => v.1 = w).filterMap Prod.snd).Pairwise (· < ·)
  /-- The failing calls of worker `w`. -/
  failed_le_one : ∀ w, st.log.count (w, none) ≤ 1
  /-- All workers have left their loops. -/
  stopped : 0 < n → (∀ w < n, st.workers[w]? = some .stopped) →
    ServedOnce jobs n total.toNat st.log trace

/-- The jobs write no other slot than their own: `slot s i` is what slot `i` of the shared
vectors holds. -/
def OnlySlot {S V : Type} (jobs : ℕ → List (Action S)) (slot : S → ℕ → V) : Prop :=
  ∀ i, ∀ a ∈ jobs i, ∀ s s', a s = some s' → ∀ j, j ≠ i → slot s' j = slot s j

/-- What the job of slot `i` leaves in its slot, or `none` if it ends the program. -/
def slotAfter {S V : Type} (jobs : ℕ → List (Action S)) (slot : S → ℕ → V) (i : ℕ) (s : S) :
    Option V :=
  (runActions (jobs i) s).map fun s' => slot s' i

/-! ## The slots of the three phases -/

section Slots

variable (env : Environment) (site : Site)

/-- Workers of the raster phase write `digests` and `raw` at the popped index. -/
theorem onlySlot_rasterJob (p : RunParams) (doc : CadDocument) :
    OnlySlot (rasterJob env p doc site) fun b i => (b.raw[i]?, b.digests[i]?) := by
  intro i a ha b b' hstore j hj
  -- one store for each of the two vectors
  rcases List.mem_pair.mp ha with rfl | rfl
  · obtain rfl := Option.some.inj hstore
    simp only [List.getElem?_set_ne hj.symm]
  · obtain rfl := Option.some.inj hstore
    simp only [List.getElem?_set_ne hj.symm]

/-- Workers of the encode phase write `enc_cache` at the popped index. -/
theorem onlySlot_encodeJob (enc : FormatEncoder) (args : EncodeFormatArgs)
    (raw : List (Option BitmapInfo)) :
    OnlySlot (encodeJob env enc args site raw) fun encCache i => encCache[i]? := by
  intro i a ha encCache encCache' hstore j hj
  unfold encodeJob at ha
  -- an empty slot has no job, and an encoder that throws stores nothing
  split at ha
  · exact absurd ha List.not_mem_nil
  · obtain rfl := List.mem_singleton.mp ha
    split at hstore
    · obtain rfl := Option.some.inj hstore
      exact List.getElem?_set_ne hj.symm
    · cases hstore

/-- Workers of the decode phase write `check_bufs` and `decoded_ok` at the popped index. -/
theorem onlySlot_decodeJob (fmt : ℤ) (digests : List Rle4kBlockDigest)
    (encCache : List (Option BitmapInfo)) (check : Bool) :
    OnlySlot (decodeJob env fmt site digests encCache check)
      fun b i => (b.checkBufs[i]?, b.decodedOk[i]?) := by
  intro i a ha b b' hstore j hj
  unfold decodeJob at ha
  split at ha
  · exact absurd ha List.not_mem_nil
  · dsimp only at ha
    split at ha
    · exact absurd ha List.not_mem_nil
    · simp only [List.mem_cons, List.not_mem_nil, or_false] at ha
      -- the two stores of the buffer, then the store of the status
      rcases ha with rfl | rfl | rfl
      · obtain rfl := Option.some.inj hstore
        simp only [List.getElem?_set_ne hj.symm]
      · obtain rfl := Option.some.inj hstore
        simp only [List.getElem?_set_ne hj.symm]
      · obtain rfl := Option.some.inj hstore
        split_ifs
        · simp only [List.getElem?_set_ne hj.symm]
        · rfl

/-- The slot of a worker of the raster phase holds its block and the digest of the block. -/
theorem slotAfter_rasterJob (p : RunParams) (doc : CadDocument) {i : ℕ} {b : RasterBuffers}
    (hraw : i < b.raw.length) (hdigests : i < b.digests.length) :
    slotAfter (rasterJob env p doc site) (fun b i => (b.raw[i]?, b.digests[i]?)) i b =
      some (some (rasterizeSlot env p doc site i),
        some (slotDigest p.doCheck (rasterizeSlot env p doc site i))) := by
  simp only [slotAfter, rasterJob, runActions_cons, runActions_nil, Option.bind_some,
    Option.map_some, List.getElem?_set_self, hraw, hdigests]

/-- The slot of a worker of the encode phase holds what `process_pack` returns for its block, if
there is one. -/
theorem slotAfter_encodeJob (enc : FormatEncoder) (args : EncodeFormatArgs)
    (raw : List (Option BitmapInfo)) {i : ℕ} {encCache : List (Option BitmapInfo)}
    (hi : i < encCache.length) :
    slotAfter (encodeJob env enc args site raw) (fun encCache i => encCache[i]?) i encCache =
      (raw.getD i none).elim (some encCache[i]?) fun src =>
        (packSlot env enc args site i src).toOption.map fun e => some (some e) := by
  unfold slotAfter encodeJob
  rcases raw.getD i none with _ | src
  · rfl
  · rcases hpack : packSlot env enc args site i src with failure | e
    · simp [runActions_cons, hpack, Except.toOption]
    · simp [runActions_cons, hpack, hi, Except.toOption]

/-- The slot of a worker of the decode phase holds the buffer that `rle4k_decode_payload` wrote,
and whether it succeeded; a failure clears the flag of the window. -/
theorem slotAfter_decodeJob (fmt : ℤ) {digests : List Rle4kBlockDigest}
    {encCache : List (Option BitmapInfo)} {i : ℕ} {e : BitmapInfo}
    (hpayload : encCache.getD i none = some e) (hvalid : (digests.getD i {}).valid = true)
    {b : DecodeBuffers} (hbufs : i < b.checkBufs.length) (hflags : i < b.decodedOk.length) :
    slotAfter (decodeJob env fmt site digests encCache true)
        (fun b i => (b.checkBufs[i]?, b.decodedOk[i]?, b.ok)) i b =
      let call := decodeSlot env fmt site i (digests.getD i {}) e
      some (some (call.2.getD []), if call.1 then some true else b.decodedOk[i]?,
        call.1 && b.ok) := by
  have hjob : decodeJob env fmt site digests encCache true i =
      let call := decodeSlot env fmt site i (digests.getD i {}) e
      [fun b => some { b with
          checkBufs :=
            b.checkBufs.set i (List.replicate ((digests.getD i {}).nbytes.toNat + 4096) 0) },
        fun b => some { b with checkBufs := b.checkBufs.set i (call.2.getD []) },
        fun b => some (if call.1 then { b with decodedOk := b.decodedOk.set i true }
          else { b with ok := false })] := by
    unfold decodeJob
    simp only [hpayload, hvalid, Bool.not_true, Bool.or_false, Bool.false_eq_true, if_false]
  rw [slotAfter, hjob]
  dsimp only
  rcases decodeSlot env fmt site i (digests.getD i {}) e with ⟨_ | _, buf⟩
  · simp [runActions_cons, hbufs]
  · simp [runActions_cons, hbufs, hflags]

end Slots

/-! ## The queue -/

section Queue

variable {total : ℤ} {n : ℕ}

/-- A counter that stays within the range of `int` does not wrap around. -/
theorem toInt_eq_self {t : ℕ} (ht : (t : ℤ) ≤ intMax) : toInt t = t := by
  rw [intMax] at ht
  rw [toInt, Int.bmod_eq_emod_of_lt] <;> omega

/-- The queue serves the workers of a pool, as long as their failing calls stay within the
range of `int`. -/
theorem queue_serves (hnonneg : 0 ≤ total) (hmax : total + n ≤ intMax) :
    WorkPool.Serves Rle4kRowBlockQueue.fetch { total := total } total.toNat (total.toNat + n) := by
  have hn : n ≤ 2 ^ 31 := by
    rw [intMax] at hmax
    omega
  exact Rle4kRowBlockQueue.fetch_serves hnonneg (by omega) hn

/-- The history of a pool says that the queue served every index once. -/
theorem exactlyOnce_of_history {S : Type} {jobs : ℕ → List (Action S)}
    {st : State Rle4kRowBlockQueue S} {trace : List (ℕ × ℕ)} (hnonneg : 0 ≤ total)
    (hmax : total + n ≤ intMax)
    (h : WorkPool.History Rle4kRowBlockQueue.fetch jobs { total := total } n total.toNat st trace) :
    ExactlyOnce jobs total n st trace := by
  have hle : (st.log.length : ℤ) ≤ total + n := by
    have := h.length_le
    omega
  -- the counter is the number of calls, which is small enough not to wrap
  constructor
  case counter =>
    rw [h.dispenser_eq, Rle4kRowBlockQueue.after_fetch, toInt_eq_self (hle.trans hmax)]
  case counter_le => exact hle
  case issued => exact h.issued
  case increasing => exact h.increasing
  case failed_le_one => exact h.failed_le_one
  case stopped => exact fun hn hall => h.served_once hn hall

/-- The phases choose at least one worker and at most ten, and no more than the window has
slots. -/
theorem workerCount_bounds (nthreads : ℤ) {nwin : ℤ} (hnwin : 1 ≤ nwin) :
    1 ≤ workerCount nthreads nwin ∧ workerCount nthreads nwin ≤ 10 ∧
      (workerCount nthreads nwin : ℤ) ≤ nwin := by
  refine ⟨workerCount_pos nthreads nwin, workerCount_le nthreads nwin, ?_⟩
  unfold workerCount
  omega

/-- **Exactly once.** For every pool of `n` workers over a queue of `total` slots, whatever
the workers do with the slots and in whatever order they move: the history of the pool is as
`ExactlyOnce` says, and the join ends with all workers stopped unless one of them failed. The
number of workers of a phase lies within `1 … 10` and the window, and its workers write the
slots that they popped, and no other ones: the block and its digest, the payload, or the decoded
bytes and the status. -/
theorem queue_exactlyOnce {S : Type} (jobs : ℕ → List (Action S)) (hnonneg : 0 ≤ total)
    (hmax : total + n ≤ intMax) (s : S) :
    (∀ schedule, ExactlyOnce jobs total n
      (WorkPool.run Rle4kRowBlockQueue.fetch jobs schedule (WorkPool.init n { total := total } s))
      (performed Rle4kRowBlockQueue.fetch jobs schedule
        (WorkPool.init n { total := total } s))) ∧
    (∀ schedule,
      let st := WorkPool.execute Rle4kRowBlockQueue.fetch jobs n total.toNat schedule
        { total := total } s
      st.shared ≠ none → ∀ w < n, st.workers[w]? = some .stopped) ∧
    (∀ nthreads nwin : ℤ, 1 ≤ nwin → 1 ≤ workerCount nthreads nwin ∧
      workerCount nthreads nwin ≤ 10 ∧ (workerCount nthreads nwin : ℤ) ≤ nwin) ∧
    (∀ env p doc site, OnlySlot (rasterJob env p doc site) fun b i => (b.raw[i]?, b.digests[i]?)) ∧
    (∀ env enc args site raw, OnlySlot (encodeJob env enc args site raw) fun b i => b[i]?) ∧
    (∀ env fmt site digests encCache check,
      OnlySlot (decodeJob env fmt site digests encCache check)
        fun b i => (b.checkBufs[i]?, b.decodedOk[i]?)) ∧
    (∀ env p doc site i (b : RasterBuffers), i < b.raw.length → i < b.digests.length →
      slotAfter (rasterJob env p doc site) (fun b i => (b.raw[i]?, b.digests[i]?)) i b =
        some (some (rasterizeSlot env p doc site i),
          some (slotDigest p.doCheck (rasterizeSlot env p doc site i)))) ∧
    (∀ env enc args site raw i (encCache : List (Option BitmapInfo)), i < encCache.length →
      slotAfter (encodeJob env enc args site raw) (fun encCache i => encCache[i]?) i encCache =
        (raw.getD i none).elim (some encCache[i]?) fun src =>
          (packSlot env enc args site i src).toOption.map fun e => some (some e)) ∧
    (∀ env fmt site digests encCache i e, encCache.getD i none = some e →
      (digests.getD i {}).valid = true → ∀ b : DecodeBuffers,
        i < b.checkBufs.length → i < b.decodedOk.length →
      slotAfter (decodeJob env fmt site digests encCache true)
          (fun b i => (b.checkBufs[i]?, b.decodedOk[i]?, b.ok)) i b =
        let call := decodeSlot env fmt site i (digests.getD i {}) e
        some (some (call.2.getD []), if call.1 then some true else b.decodedOk[i]?,
          call.1 && b.ok)) := by
  have hserves := queue_serves hnonneg hmax
  refine ⟨fun schedule => ?_, fun schedule => ?_, fun nthreads nwin hnwin => ?_, ?_, ?_, ?_, ?_,
    ?_, ?_⟩
  · exact exactlyOnce_of_history hnonneg hmax (WorkPool.history_run hserves jobs schedule s)
  · exact WorkPool.execute_stopped hserves jobs schedule s
  · exact workerCount_bounds nthreads hnwin
  · exact fun env p doc site => onlySlot_rasterJob env site p doc
  · exact fun env enc args site raw => onlySlot_encodeJob env site enc args raw
  · exact fun env fmt site digests encCache check =>
      onlySlot_decodeJob env site fmt digests encCache check
  · exact fun env p doc site i b hraw hdigests => slotAfter_rasterJob env site p doc hraw hdigests
  · exact fun env enc args site raw i encCache hi => slotAfter_encodeJob env site enc args raw hi
  · exact fun env fmt site digests encCache i e hpayload hvalid b hbufs hflags =>
      slotAfter_decodeJob env site fmt hpayload hvalid hbufs hflags

/-- Two workers take their turns over a window of two slots, to which each adds its share:
both slots are handled, by worker `0` and by worker `1`. -/
theorem queue_exactlyOnce_twoSlots :
    let jobs : ℕ → List (Action (List ℕ)) := fun i => [fun v => some (v.set i (i + 7))]
    let st := WorkPool.run Rle4kRowBlockQueue.fetch jobs [0, 1, 1, 0, 0, 1, 0, 1]
      (WorkPool.init 2 { total := 2 } [0, 0])
    st.shared = some [7, 8] ∧ st.log = [(0, some 0), (1, some 1), (0, none), (1, none)] ∧
      ServedOnce jobs 2 2 st.log [(1, 1), (0, 0)] := by
  intro jobs st
  have h := (queue_exactlyOnce (n := 2) jobs (by decide : (0 : ℤ) ≤ 2) (by decide) [0, 0]).1
    [0, 1, 1, 0, 0, 1, 0, 1]
  have hlog : st.log = [(0, some 0), (1, some 1), (0, none), (1, none)] := by decide +kernel
  have htrace : performed Rle4kRowBlockQueue.fetch jobs [0, 1, 1, 0, 0, 1, 0, 1]
      (WorkPool.init 2 { total := 2 } [0, 0]) = [(1, 1), (0, 0)] := by decide +kernel
  have hstopped : st.workers.map WorkPool.Worker.isStopped = List.replicate 2 true := by
    decide +kernel
  -- a worker that has stopped is known by its flag
  have hall : ∀ w < 2, st.workers[w]? = some .stopped := by
    intro w hw
    have hget : (st.workers.map WorkPool.Worker.isStopped)[w]? = some true := by
      rw [hstopped, List.getElem?_replicate, if_pos hw]
    rw [List.getElem?_map, Option.map_eq_some_iff] at hget
    obtain ⟨x, hx, hisStopped⟩ := hget
    cases x with
    | stopped => exact hx
    | idle => cases hisStopped
    | busy i todo => cases hisStopped
  have hserved := h.stopped Nat.two_pos hall
  rw [htrace] at hserved
  exact ⟨by decide +kernel, hlog, hserved⟩

end Queue

end Redcli
