import Redcli.Codec.BurstDetection
import Redcli.Pipeline.PhaseResults

/-!
# The Strength of the Check

What `rle4k_phase_decode_window` has seen of a codec when it reports `all_ok`. Most decoders
report the length of what they produced, `rle4k_decode_payload` drops it, and the buffer they
write to is filled with zeros.

## Main results

* `slotOk_iff`: what the verdict on a slot says about its decoder;
* `check_strength_iff`: for which digests, payloads and lengths the verdict on a window implies
  that every decoder produced as many bytes as its digest says, whatever it stores;
* `allOk_of_lost_zeros`: an encoder that loses the zeros at the end of a block is not noticed;
* `burst_detected`: a block that is changed in one run of at most four bytes is always noticed.
-/

namespace Redcli

section Slot

variable (env : Environment) (fmt : ℤ) (site : Site) (digests : List Rle4kBlockDigest)
  (encCache : List (Option BitmapInfo))

/-- The decoder call of a slot. -/
def slotDecoder (slot : ℕ) : Option Decoding :=
  let dig := digests.getD slot {}
  (encCache.getD slot none).bind fun e =>
    decoderCall (env.codecs site slot) fmt e dig.width dig.height dig.stride
      (dig.nbytes.toNat + 4096)

/-- The first `n` bytes of a buffer of zeros after a number of stores. -/
def storedBytes (w : Writes) (n : ℕ) : Bytes := (List.range n).map fun i => (w i).getD 0

/-- A decoder produces `n` bytes: this is the length that it reports, or it reports none, and
stores to the first `n` offsets and to no other. -/
def Decoding.Produces (d : Decoding) (n : ℕ) : Prop :=
  match d.reported with
  | some len => len = n
  | none => ∀ i, (d.writes i).isSome ↔ i < n

/-- What is promised about a slot with a valid digest: its decoder reported success and
produced exactly `nbytes` bytes, and these have the hash of the digest. -/
def SlotVerified (slot : ℕ) : Prop :=
  ∃ d, slotDecoder env fmt site digests encCache slot = some d ∧ d.ok = true ∧
    d.Produces (digests.getD slot {}).nbytes.toNat ∧
      rle4kFnv1a64 (storedBytes d.writes (digests.getD slot {}).nbytes.toNat) =
        (digests.getD slot {}).hash

/-- The lengths that the decoders produce which succeed, `none` where the stores are not those to
the first offsets. -/
def HasLengths (len : ℕ → Option ℕ) : Prop :=
  ∀ slot d, slotDecoder env fmt site digests encCache slot = some d → d.ok = true →
    ∀ n, d.Produces n ↔ len slot = some n

variable {env fmt site digests encCache}

@[simp]
theorem length_storedBytes (w : Writes) (n : ℕ) : (storedBytes w n).length = n := by
  simp [storedBytes]

theorem getElem?_storedBytes (w : Writes) {n i : ℕ} (hi : i < n) :
    (storedBytes w n)[i]? = some ((w i).getD 0) := by
  simp [storedBytes, hi]

/-- The part of the decode buffer that is hashed. -/
theorem take_apply_replicate (w : Writes) (n m : ℕ) :
    (w.apply (List.replicate (n + m) 0)).take n = storedBytes w n := by
  apply List.ext_getElem
  · simp
  · intro i h₁ h₂
    simp [Writes.apply, storedBytes]

/-- A slot with a valid digest passes exactly if its decoder succeeds and what it stores over
zeros has the recorded hash. -/
theorem slotOk_iff (hbrotli : fmt ≠ RasterOutputFormat.brotli.value) {slot : ℕ}
    (hvalid : (digests.getD slot {}).valid = true) :
    slotOk env fmt site digests encCache slot = true ↔
      ∃ d, slotDecoder env fmt site digests encCache slot = some d ∧ d.ok = true ∧
        rle4kFnv1a64 (storedBytes d.writes (digests.getD slot {}).nbytes.toNat) =
          (digests.getD slot {}).hash := by
  unfold slotOk slotDecoder
  -- only the digest and the payload of the slot matter
  generalize digests.getD slot {} = dig at hvalid ⊢
  rcases encCache.getD slot none with _ | e
  · simp [hvalid, hbrotli]
  · simp only [hvalid, hbrotli, Bool.not_true, decide_false, Bool.false_or, Option.elim_some,
      Option.bind_some, Bool.and_eq_true, beq_iff_eq, decodeSlot]
    rw [rle4kDecodePayload_eq_decoderCall _ hbrotli _ _ _ _ _ (by omega)]
    cases decoderCall (env.codecs site slot) fmt e dig.width dig.height dig.stride
        (dig.nbytes.toNat + 4096) with
    | none => simp
    | some d => simp only [Option.elim_some, Option.getD_some, take_apply_replicate,
        Option.some.injEq, exists_eq_left']

end Slot

section Window

variable {env : Environment} {fmt : ℤ} {site : Site} {digests : List Rle4kBlockDigest}
  {encCache : List (Option BitmapInfo)} {nthreads : ℤ} {w : DecodeWindow}

/-- The verdict on a window with a check, slot by slot. -/
theorem allOk_iff (hmax : (digests.length : ℤ) ≤ intMax)
    (hrun : rle4kPhaseDecodeWindow env fmt site digests encCache nthreads true = some w) :
    w.allOk = true ↔ ∀ slot < digests.length, slotOk env fmt site digests encCache slot = true := by
  rw [rle4kPhaseDecodeWindow_eq hmax] at hrun
  obtain rfl := Option.some.inj hrun
  simp only [Bool.not_true, Bool.false_or, List.all_eq_true, List.mem_range]

end Window

/-! ## Lengths -/

section Lengths

variable (enc : FormatEncoder)

/-- The decoders of RLE4K and SNAPPY report no length. -/
def FormatEncoder.IsSilent : Prop := enc = .rle4k ∨ enc = .snappy

/-- What a decoder can produce: for GZIP a length that an `uLong` holds, for the others any length,
and if it reports none, perhaps no length. -/
def FormatEncoder.CanProduce : Option ℕ → Prop
  | some n => enc = .gzip → n < 2 ^ 32
  | none => enc.IsSilent

/-- A block of `n` bytes that a decoder can leave in a buffer of zeros when it produces this
length: any block if it reports the length, for its stores can be others. If it reports none, the
block has zeros behind what was produced. -/
def FormatEncoder.CanLeave (len : Option ℕ) (n : ℕ) (block : Bytes) : Prop :=
  block.length = n ∧ (enc.IsSilent → ∀ l ∈ len, ∀ i, l ≤ i → i < n → block[i]? = some 0)

variable {enc}

theorem FormatEncoder.IsSilent.reported {libs : CodecLibs} {e : BitmapInfo}
    {width height stride : UInt32} {cap : ℕ} {d : Decoding} (h : enc.IsSilent)
    (hd : decoderCall libs enc.getSupportedFormat.value e width height stride cap = some d) :
    d.reported = none := by
  rcases h with rfl | rfl
  · obtain rfl := Option.some.inj hd
    rfl
  · obtain rfl := Option.some.inj hd
    rfl

/-- Only one number of first offsets is the one that is stored to. -/
theorem Decoding.Produces.eq {d : Decoding} {n m : ℕ} (hn : d.Produces n) (hm : d.Produces m) :
    n = m := by
  unfold Decoding.Produces at hn hm
  cases hreported : d.reported with
  | some len =>
      rw [hreported] at hn hm
      exact hn.symm.trans hm
  | none =>
      rw [hreported] at hn hm
      have hlt : ∀ i, i < n ↔ i < m := fun i => (hn i).symm.trans (hm i)
      have h₁ := hlt n
      have h₂ := hlt m
      omega

/-- A decoder that succeeds produces a length that it can produce. -/
theorem exists_length (hbrotli : enc ≠ .brotli) {libs : CodecLibs} {e : BitmapInfo}
    {width height stride : UInt32} {cap : ℕ} {d : Decoding}
    (hd : decoderCall libs enc.getSupportedFormat.value e width height stride cap = some d)
    (hok : d.ok = true) :
    ∃ len, enc.CanProduce len ∧ ∀ n, d.Produces n ↔ len = some n := by
  cases hreported : d.reported with
  | some l =>
      refine ⟨some l, fun hgzip => ?_, fun n => ?_⟩
      · subst hgzip
        obtain rfl := Option.some.inj hd
        obtain rfl := Option.some.inj hreported
        exact UInt32.toNat_lt _
      · rw [Decoding.Produces, hreported, Option.some.injEq]
  | none =>
      -- the other decoders report a length when they succeed
      have hsilent : enc.IsSilent := by
        cases enc with
        | rle4k => exact .inl rfl
        | snappy => exact .inr rfl
        | brotli => exact absurd rfl hbrotli
        | zstd =>
            obtain rfl := Option.some.inj hd
            dsimp only at hok hreported
            cases hcode : (libs.zstdDecompress cap e.payload).1 with
            | ok n =>
                rw [hcode] at hreported
                cases hreported
            | error code =>
                rw [hcode] at hok
                cases hok
        | gzip =>
            obtain rfl := Option.some.inj hd
            cases hreported
        | lzo2 =>
            obtain rfl := Option.some.inj hd
            cases hreported
      by_cases hlen : ∃ n, d.Produces n
      · obtain ⟨n, hn⟩ := hlen
        refine ⟨some n, ?_, fun m => ⟨fun hm => ?_, fun hm => ?_⟩⟩
        · rintro rfl
          rcases hsilent with h | h <;> cases h
        · rw [hn.eq hm]
        · obtain rfl := Option.some.inj hm
          exact hn
      · exact ⟨none, hsilent, fun n => ⟨fun hn => absurd ⟨n, hn⟩ hlen, fun h => by cases h⟩⟩

/-- The stores that leave a block in a buffer of zeros: those to the first offsets if there is a
length, else all but one behind the block. -/
def leavingWrites (len : Option ℕ) (block : Bytes) : Writes := fun i =>
  match len with
  | some l => if i < l then some (block.getD i 0) else none
  | none => if i = block.length then none else some (block.getD i 0)

/-- Codecs whose decoders succeed, produce a length and leave a block, whatever they decode. -/
def leavingLibs (len : Option ℕ) (block : Bytes) : CodecLibs :=
  { referenceLibs with
    rle4kDecodeBlock := fun _ _ _ _ => (0, leavingWrites len block)
    snappyRawUncompress := fun _ => (true, leavingWrites len block)
    uncompress := fun _ _ => (zOk, UInt32.ofNat (len.getD 0), leavingWrites none block)
    lzo1xDecompress := fun _ _ => (lzoEOk, len.getD 0, leavingWrites none block)
    zstdDecompress := fun _ _ => (.ok (len.getD 0), leavingWrites none block) }

/-- The block that is left. -/
theorem storedBytes_leavingWrites {len : Option ℕ} {block : Bytes}
    (hzeros : ∀ l ∈ len, ∀ i, l ≤ i → i < block.length → block[i]? = some 0) :
    storedBytes (leavingWrites len block) block.length = block := by
  ext1 i
  by_cases hi : i < block.length
  · have hget : block[i]? = some (block.getD i 0) := by simp [hi]
    rw [getElem?_storedBytes _ hi]
    cases len with
    | none => rw [leavingWrites, if_neg hi.ne, hget, Option.getD_some]
    | some l =>
        by_cases hl : i < l
        · rw [leavingWrites, if_pos hl, hget, Option.getD_some]
        · rw [leavingWrites, if_neg hl, hzeros l rfl i (not_lt.mp hl) hi, Option.getD_none]
  · rw [List.getElem?_eq_none (by simpa using hi), List.getElem?_eq_none (by simpa using hi)]

/-- The offsets that are stored to. -/
theorem leavingWrites_first_iff (len : Option ℕ) (block : Bytes) (n : ℕ) :
    (∀ i, (leavingWrites len block i).isSome ↔ i < n) ↔ len = some n := by
  cases len with
  | none =>
      -- the offset behind the block is left out, and the next one is not
      have hsome : ∀ i, (leavingWrites none block i).isSome ↔ i ≠ block.length := by
        intro i
        rw [leavingWrites]
        split_ifs with h <;> simp [h]
      simp only [hsome, reduceCtorEq, iff_false]
      intro hall
      have h₁ := hall block.length
      have h₂ := hall (block.length + 1)
      omega
  | some l =>
      have hsome : ∀ i, (leavingWrites (some l) block i).isSome ↔ i < l := by
        intro i
        rw [leavingWrites]
        split_ifs with h <;> simp [h]
      simp only [hsome, Option.some.injEq]
      constructor
      · intro h
        have h₁ := h l
        have h₂ := h n
        omega
      · rintro rfl i
        rfl

/-- A decoder for every length and every block. -/
theorem exists_decoding_leavingLibs (hbrotli : enc ≠ .brotli) {len : Option ℕ} {n : ℕ}
    {block : Bytes} (hlen : enc.CanProduce len) (hblock : enc.CanLeave len n block)
    (e : BitmapInfo) (width height stride : UInt32) (cap : ℕ) :
    ∃ d, decoderCall (leavingLibs len block) enc.getSupportedFormat.value e width height stride
        cap = some d ∧ d.ok = true ∧ (∀ m, d.Produces m ↔ len = some m) ∧
      storedBytes d.writes n = block := by
  obtain ⟨rfl, hzeros⟩ := hblock
  have hall : storedBytes (leavingWrites none block) block.length = block :=
    storedBytes_leavingWrites fun l hl => by cases hl
  cases enc with
  | brotli => exact absurd rfl hbrotli
  | rle4k =>
      exact ⟨_, rfl, rfl, leavingWrites_first_iff len block,
        storedBytes_leavingWrites (hzeros (.inl rfl))⟩
  | snappy =>
      exact ⟨_, rfl, rfl, leavingWrites_first_iff len block,
        storedBytes_leavingWrites (hzeros (.inr rfl))⟩
  | gzip =>
      cases len with
      | none => rcases hlen with h | h <;> cases h
      | some l =>
          refine ⟨_, rfl, rfl, fun m => ?_, hall⟩
          show (UInt32.ofNat l).toNat = m ↔ _
          rw [UInt32.toNat_ofNat_of_lt' (hlen rfl), Option.some.injEq]
  | lzo2 =>
      cases len with
      | none => rcases hlen with h | h <;> cases h
      | some l => exact ⟨_, rfl, rfl, fun m => Option.some_inj.symm, hall⟩
  | zstd =>
      cases len with
      | none => rcases hlen with h | h <;> cases h
      | some l => exact ⟨_, rfl, rfl, fun m => Option.some_inj.symm, hall⟩

end Lengths

/-! ## The verdict -/

section Verdict

variable (enc : FormatEncoder) (digests : List Rle4kBlockDigest)
  (encCache : List (Option BitmapInfo)) (len : ℕ → Option ℕ)

/-- A window on which the check is as strong as promised, whatever its decoders store that produce
these lengths: a slot with a valid digest has no payload, or a hash that no block has which its
decoder can leave (the verdict is negative then), or all lengths are those of the digests. -/
def CheckIsStrong : Prop :=
  (∃ slot < digests.length, (digests.getD slot {}).valid = true ∧
    encCache.getD slot none = none) ∨
  (∃ slot < digests.length, (digests.getD slot {}).valid = true ∧
    ∀ block, enc.CanLeave (len slot) (digests.getD slot {}).nbytes.toNat block →
      rle4kFnv1a64 block ≠ (digests.getD slot {}).hash) ∨
  ∀ slot < digests.length, (digests.getD slot {}).valid = true →
    len slot = some (digests.getD slot {}).nbytes.toNat

variable {enc digests encCache len} {env : Environment} {site : Site} {nthreads : ℤ}
  {w : DecodeWindow}

/-- The lengths of any codecs. -/
theorem exists_hasLengths (hbrotli : enc ≠ .brotli) (env : Environment) (site : Site)
    (digests : List Rle4kBlockDigest) (encCache : List (Option BitmapInfo)) :
    ∃ len : ℕ → Option ℕ, (∀ slot, enc.CanProduce (len slot)) ∧
      HasLengths env enc.getSupportedFormat.value site digests encCache len := by
  have hslot : ∀ slot, ∃ l, enc.CanProduce l ∧
      ∀ d, slotDecoder env enc.getSupportedFormat.value site digests encCache slot = some d →
        d.ok = true → ∀ n, d.Produces n ↔ l = some n := by
    intro slot
    by_cases hdec : ∃ d, slotDecoder env enc.getSupportedFormat.value site digests encCache slot =
        some d ∧ d.ok = true
    · obtain ⟨d, hd, hok⟩ := hdec
      obtain ⟨e, -, hcall⟩ := Option.bind_eq_some_iff.mp hd
      obtain ⟨l, hl, hproduces⟩ := exists_length hbrotli hcall hok
      refine ⟨l, hl, fun d' hd' _ => ?_⟩
      obtain rfl := Option.some.inj (hd.symm.trans hd')
      exact hproduces
    · -- without a decoder that succeeds, any length will do
      exact ⟨some 0, fun _ => by decide, fun d hd hok => absurd ⟨d, hd, hok⟩ hdec⟩
  choose len hlen hproduces using hslot
  exact ⟨len, hlen, hproduces⟩

/-- On such a window the verdict implies what is promised. -/
theorem slotVerified_of_allOk (hbrotli : enc ≠ .brotli)
    (hmax : (digests.length : ℤ) ≤ intMax) (hstrong : CheckIsStrong enc digests encCache len)
    (hlen : HasLengths env enc.getSupportedFormat.value site digests encCache len)
    (hrun : rle4kPhaseDecodeWindow env enc.getSupportedFormat.value site digests encCache nthreads
      true = some w) (hok : w.allOk = true) :
    ∀ slot < digests.length, (digests.getD slot {}).valid = true →
      SlotVerified env enc.getSupportedFormat.value site digests encCache slot := by
  have hpass : ∀ slot < digests.length, (digests.getD slot {}).valid = true →
      ∃ d, slotDecoder env enc.getSupportedFormat.value site digests encCache slot = some d ∧
        d.ok = true ∧ rle4kFnv1a64 (storedBytes d.writes (digests.getD slot {}).nbytes.toNat) =
          (digests.getD slot {}).hash := fun slot hslot hvalid =>
    (slotOk_iff (mt enc.value_eq_brotli_iff.mp hbrotli) hvalid).mp
      ((allOk_iff hmax hrun).mp hok slot hslot)
  rcases hstrong with ⟨slot, hslot, hvalid, hnone⟩ | ⟨slot, hslot, hvalid, hother⟩ | hlengths
  · obtain ⟨d, hd, -⟩ := hpass slot hslot hvalid
    rw [slotDecoder, hnone] at hd
    cases hd
  · -- what the decoder has left is such a block
    obtain ⟨d, hd, hdok, hhash⟩ := hpass slot hslot hvalid
    refine absurd hhash (hother _ ⟨length_storedBytes _ _, fun hsilent l hl i hle hi => ?_⟩)
    obtain ⟨e, -, hcall⟩ := Option.bind_eq_some_iff.mp hd
    have hproduces := (hlen slot d hd hdok l).mpr hl
    rw [Decoding.Produces, hsilent.reported hcall] at hproduces
    have hnone : d.writes i = none := by
      rw [← Option.not_isSome_iff_eq_none, hproduces i]
      exact not_lt.mpr hle
    rw [getElem?_storedBytes _ hi, hnone]
    rfl
  · intro slot hslot hvalid
    obtain ⟨d, hd, hdok, hhash⟩ := hpass slot hslot hvalid
    exact ⟨d, hd, hdok, (hlen slot d hd hdok _).mpr (hlengths slot hslot hvalid), hhash⟩

/-- On every other window some codecs with these lengths get a positive verdict that says too
much. -/
theorem exists_allOk_of_not_checkIsStrong (hbrotli : enc ≠ .brotli) (site : Site)
    (hmax : (digests.length : ℤ) ≤ intMax) (hcan : ∀ slot, enc.CanProduce (len slot))
    (hweak : ¬ CheckIsStrong enc digests encCache len) :
    ∃ env w, HasLengths env enc.getSupportedFormat.value site digests encCache len ∧
      rle4kPhaseDecodeWindow env enc.getSupportedFormat.value site digests encCache 1 true =
        some w ∧ w.allOk = true ∧
      ∃ slot < digests.length, (digests.getD slot {}).valid = true ∧
        ¬ SlotVerified env enc.getSupportedFormat.value site digests encCache slot := by
  have hfmt := mt enc.value_eq_brotli_iff.mp hbrotli
  simp only [CheckIsStrong, not_or, not_exists, not_and, not_forall, not_not] at hweak
  obtain ⟨hpayload, hleft, bad, hbad, hvalid, hlength⟩ := hweak
  -- a block for each slot, which has the recorded hash if the digest is valid
  have hblock : ∀ slot, ∃ block,
      enc.CanLeave (len slot) (digests.getD slot {}).nbytes.toNat block ∧
        (slot < digests.length → (digests.getD slot {}).valid = true →
          rle4kFnv1a64 block = (digests.getD slot {}).hash) := by
    intro slot
    by_cases h : slot < digests.length ∧ (digests.getD slot {}).valid = true
    · obtain ⟨block, hcanLeave, hhash⟩ := hleft slot h.1 h.2
      exact ⟨block, hcanLeave, fun _ _ => hhash⟩
    · refine ⟨.replicate _ 0, ⟨List.length_replicate, fun _ l _ i _ hi => ?_⟩,
        fun hslot hvalid => absurd ⟨hslot, hvalid⟩ h⟩
      rw [List.getElem?_replicate, if_pos hi]
  choose block hcanLeave hhash using hblock
  let env : Environment :=
    { referenceEnv with codecs := fun _ slot => leavingLibs (len slot) (block slot) }
  have hdecoder : ∀ slot e, encCache.getD slot none = some e →
      ∃ d, slotDecoder env enc.getSupportedFormat.value site digests encCache slot = some d ∧
        d.ok = true ∧ (∀ m, d.Produces m ↔ len slot = some m) ∧
          storedBytes d.writes (digests.getD slot {}).nbytes.toNat = block slot := by
    intro slot e he
    obtain ⟨d, hd, hresult⟩ := exists_decoding_leavingLibs hbrotli (hcan slot) (hcanLeave slot) e
      (digests.getD slot {}).width (digests.getD slot {}).height (digests.getD slot {}).stride
      ((digests.getD slot {}).nbytes.toNat + 4096)
    refine ⟨d, ?_, hresult⟩
    rw [slotDecoder, he]
    exact hd
  have hlengths : HasLengths env enc.getSupportedFormat.value site digests encCache len := by
    intro slot d hd _
    obtain ⟨e, he, -⟩ := Option.bind_eq_some_iff.mp hd
    obtain ⟨d', hd', -, hproduces, -⟩ := hdecoder slot e he
    obtain rfl := Option.some.inj (hd.symm.trans hd')
    exact hproduces
  have hrun := @rle4kPhaseDecodeWindow_eq env enc.getSupportedFormat.value site digests encCache 1
    hmax true
  refine ⟨env, _, hlengths, hrun, (allOk_iff hmax hrun).mpr fun slot hslot => ?_, bad, hbad, hvalid,
    ?_⟩
  · by_cases hslotValid : (digests.getD slot {}).valid = true
    · obtain ⟨e, he⟩ := Option.ne_none_iff_exists'.mp (hpayload slot hslot hslotValid)
      obtain ⟨d, hd, hok, -, hleft⟩ := hdecoder slot e he
      exact (slotOk_iff hfmt hslotValid).mpr ⟨d, hd, hok, hleft ▸ hhash slot hslot hslotValid⟩
    · simp only [slotOk, Bool.eq_false_of_not_eq_true hslotValid, Bool.not_false, Bool.true_or]
  · rintro ⟨d, hd, hok, hproduces, -⟩
    exact hlength ((hlengths bad d hd hok _).mp hproduces)

/-- **The strength of the check.** All codecs produce some lengths. For all codecs with the same
lengths, `all_ok` implies that every decoder reported success and produced exactly the bytes that
its digest stands for, exactly if the check is strong for these lengths. -/
theorem check_strength_iff (hbrotli : enc ≠ .brotli) (site : Site)
    (digests : List Rle4kBlockDigest) (hmax : (digests.length : ℤ) ≤ intMax)
    (encCache : List (Option BitmapInfo)) :
    (∀ env, ∃ len : ℕ → Option ℕ, (∀ slot, enc.CanProduce (len slot)) ∧
      HasLengths env enc.getSupportedFormat.value site digests encCache len) ∧
    ∀ len : ℕ → Option ℕ, (∀ slot, enc.CanProduce (len slot)) →
      ((∀ env nthreads w,
        HasLengths env enc.getSupportedFormat.value site digests encCache len →
        rle4kPhaseDecodeWindow env enc.getSupportedFormat.value site digests encCache nthreads
          true = some w →
        w.allOk = true → ∀ slot < digests.length, (digests.getD slot {}).valid = true →
          SlotVerified env enc.getSupportedFormat.value site digests encCache slot) ↔
        CheckIsStrong enc digests encCache len) := by
  refine ⟨fun env => exists_hasLengths hbrotli env site digests encCache, fun len hcan => ?_⟩
  constructor
  · intro hpromise
    by_contra hweak
    obtain ⟨env, w, hlen, hrun, hok, slot, hslot, hvalid, hnot⟩ :=
      exists_allOk_of_not_checkIsStrong hbrotli site hmax hcan hweak
    exact hnot (hpromise env 1 w hlen hrun hok slot hslot hvalid)
  · exact fun hstrong env nthreads w hlen hrun hok =>
      slotVerified_of_allOk hbrotli hmax hstrong hlen hrun hok

end Verdict

/-- Two rows of eight bytes, the second one of zeros. -/
def zeroTail : BitmapInfo :=
  { twoRows with data := some [1, 2, 3, 4, 5, 6, 7, 8, 0, 0, 0, 0, 0, 0, 0, 0] }

/-- The reference environment with an encoder for GZIP that loses the zeros at the end of a
block. -/
def lossyEnv : Environment :=
  { referenceEnv with
    codecs := fun _ _ =>
      { referenceLibs with
        compress2 := fun cap source _ =>
          boundedEncode zOk (-5) cap.toNat (source.reverse.dropWhile (· == 0)).reverse } }

/-- The place of the only window of the reference run. -/
def referenceSite : Site := ⟨['a'], 0, 0, 0, 0⟩

/-- The payload of a block in the lossy environment. -/
def lossyPayload (src : BitmapInfo) : Option BitmapInfo :=
  (packSlot lossyEnv .gzip {} referenceSite 0 src).toOption

/-- The check is strong for a window with one block, if its decoder produces sixteen bytes. -/
theorem check_strength_twoRows :
    CheckIsStrong .gzip [rle4kMakeDigest twoRows true] [lossyPayload twoRows] (fun _ => some 16) ∧
      ∀ env nthreads w,
        HasLengths env RasterOutputFormat.gzip.value referenceSite [rle4kMakeDigest twoRows true]
          [lossyPayload twoRows] (fun _ => some 16) →
        rle4kPhaseDecodeWindow env RasterOutputFormat.gzip.value referenceSite
          [rle4kMakeDigest twoRows true] [lossyPayload twoRows] nthreads true = some w →
        w.allOk = true → ∀ slot < 1, ([rle4kMakeDigest twoRows true].getD slot {}).valid = true →
          SlotVerified env RasterOutputFormat.gzip.value referenceSite
            [rle4kMakeDigest twoRows true] [lossyPayload twoRows] slot := by
  have hstrong : CheckIsStrong .gzip [rle4kMakeDigest twoRows true] [lossyPayload twoRows]
      (fun _ => some 16) := by
    refine .inr (.inr fun slot hslot _ => ?_)
    obtain rfl : slot = 0 := Nat.lt_one_iff.mp hslot
    decide +kernel
  have hcan : ∀ _ : ℕ, FormatEncoder.gzip.CanProduce (some 16) := fun _ _ => by decide
  exact ⟨hstrong, ((check_strength_iff (by decide) referenceSite _ (by decide) _).2 _
    hcan).mpr hstrong⟩

/-- A block whose second row is lost passes the check: the decoder succeeds with eight bytes
of sixteen, and the rest of the buffer is zero. -/
theorem allOk_of_lost_zeros :
    ∃ w e, lossyPayload zeroTail = some e ∧
      rle4kPhaseDecodeWindow lossyEnv RasterOutputFormat.gzip.value referenceSite
        [rle4kMakeDigest zeroTail true] [some e] 1 true = some w ∧ w.allOk = true ∧
      (rle4kMakeDigest zeroTail true).valid = true ∧
      (rle4kMakeDigest zeroTail true).nbytes = 16 ∧
      (referenceLibs.uncompress (16 + 4096) e.payload).1 = zOk ∧
      (referenceLibs.uncompress (16 + 4096) e.payload).2.1 = 8 ∧
      ¬ SlotVerified lossyEnv RasterOutputFormat.gzip.value referenceSite
        [rle4kMakeDigest zeroTail true] [some e] 0 := by
  have hmax : (([rle4kMakeDigest zeroTail true].length : ℕ) : ℤ) ≤ intMax := by decide
  have hsome : (lossyPayload zeroTail).isSome := by decide +kernel
  have hlength : (lossyPayload zeroTail).map (fun e =>
      ((referenceLibs.uncompress (16 + 4096) e.payload).1,
        (referenceLibs.uncompress (16 + 4096) e.payload).2.1)) = some (zOk, 8) := by
    decide +kernel
  -- the stores over zeros have the recorded hash, and the length that is reported is 8
  have hcall : (slotDecoder lossyEnv RasterOutputFormat.gzip.value referenceSite
      [rle4kMakeDigest zeroTail true] [lossyPayload zeroTail] 0).map (fun d =>
        (d.ok, d.reported, rle4kFnv1a64 (storedBytes d.writes 16))) =
          some (true, some 8, (rle4kMakeDigest zeroTail true).hash) := by decide +kernel
  obtain ⟨e, he⟩ := Option.isSome_iff_exists.mp hsome
  rw [he] at hcall hlength
  obtain ⟨d, hd, hresult⟩ := Option.map_eq_some_iff.mp hcall
  simp only [Prod.mk.injEq] at hresult
  obtain ⟨hok, hreported, hhash⟩ := hresult
  obtain ⟨hrc, hlen⟩ := Prod.mk.inj (Option.some.inj hlength)
  have hrun := @rle4kPhaseDecodeWindow_eq lossyEnv RasterOutputFormat.gzip.value referenceSite _
    [some e] 1 hmax true
  refine ⟨_, e, he, hrun, (allOk_iff hmax hrun).mpr fun slot hslot => ?_, by decide +kernel,
    by decide +kernel, hrc, hlen, ?_⟩
  · obtain rfl : slot = 0 := Nat.lt_one_iff.mp hslot
    exact (slotOk_iff (by decide) (by decide +kernel)).mpr ⟨d, hd, hok, hhash⟩
  · rintro ⟨d', hd', -, hproduces, -⟩
    obtain rfl := Option.some.inj (hd.symm.trans hd')
    rw [Decoding.Produces, hreported] at hproduces
    have hlen : 8 ≠ ([rle4kMakeDigest zeroTail true].getD 0 {}).nbytes.toNat := by decide +kernel
    exact hlen hproduces

/-! ## Bursts -/

/-- The first `nbytes` bytes of the decode buffer of a slot. -/
def decodedBytes (env : Environment) (fmt : ℤ) (site : Site) (slot : ℕ) (dig : Rle4kBlockDigest)
    (e : BitmapInfo) : Bytes :=
  ((decodeSlot env fmt site slot dig e).2.getD []).take dig.nbytes.toNat

/-- Two blocks differ in one run of at most four bytes. -/
def DifferInBurst (a b : Bytes) : Prop :=
  a ≠ b ∧ ∃ i, ∀ j, a[j]? ≠ b[j]? → i ≤ j ∧ j < i + 4

/-- Blocks of one length that differ in one run of at most four bytes have different hashes. A
block that differs so from the raw block after it was decoded makes the verdict on its window
negative. -/
theorem burst_detected :
    (∀ a b : Bytes, a.length = b.length → DifferInBurst a b →
      rle4kFnv1a64 a ≠ rle4kFnv1a64 b) ∧
    ∀ (env : Environment) (fmt : ℤ) (site : Site) (digests : List Rle4kBlockDigest)
      (encCache : List (Option BitmapInfo)) (nthreads : ℤ) (w : DecodeWindow),
      fmt ≠ RasterOutputFormat.brotli.value → (digests.length : ℤ) ≤ intMax →
      rle4kPhaseDecodeWindow env fmt site digests encCache nthreads true = some w →
      ∀ (slot : ℕ) (src e : BitmapInfo), digests[slot]? = some (rle4kMakeDigest src true) →
        (rle4kMakeDigest src true).valid = true → src.dataLength.toNat ≤ src.bytes.length →
        encCache[slot]? = some (some e) →
        DifferInBurst src.payload
          (decodedBytes env fmt site slot (rle4kMakeDigest src true) e) →
        w.allOk = false := by
  have hhash : ∀ a b : Bytes, a.length = b.length → DifferInBurst a b →
      rle4kFnv1a64 a ≠ rle4kFnv1a64 b :=
    fun a b hlen ⟨hne, i, hburst⟩ => rle4kFnv1a64_ne_of_burst hlen hne hburst
  refine ⟨hhash, ?_⟩
  intro env fmt site digests encCache nthreads w hbrotli hmax hrun slot src e hdig hvalid hbuffer
    he hburst
  obtain ⟨hslot, -⟩ := List.getElem?_eq_some_iff.mp hdig
  -- the digest holds the length and the hash of the raw block
  obtain ⟨hnbytes, hrecorded⟩ : (rle4kMakeDigest src true).nbytes = src.dataLength ∧
      (rle4kMakeDigest src true).hash = rle4kFnv1a64 src.payload := by
    rw [rle4kMakeDigest_of_valid hvalid]
    exact ⟨rfl, rfl⟩
  have hlen : src.payload.length =
      (decodedBytes env fmt site slot (rle4kMakeDigest src true) e).length := by
    rw [decodedBytes, List.length_take, decodeSlot, length_rle4kDecodePayload,
      List.length_replicate, hnbytes, BitmapInfo.payload, List.length_take]
    omega
  -- equal hashes are what the slot was checked for
  have hdiffer := hhash _ _ hlen hburst
  by_contra hok
  have hpass := (allOk_iff hmax hrun).mp (Bool.eq_true_of_not_eq_false hok) slot hslot
  rw [slotOk, List.getD_eq_getElem?_getD, hdig, Option.getD_some, List.getD_eq_getElem?_getD, he,
    Option.getD_some, hvalid, Bool.not_true, Bool.false_or, decide_eq_false hbrotli,
    Bool.false_or, Option.elim_some, Bool.and_eq_true, beq_iff_eq] at hpass
  exact hdiffer (hrecorded.symm.trans hpass.2.symm)

/-- The payload of a block that differs from `twoRows` in its sixth byte. -/
def changedPayload : BitmapInfo :=
  { twoRows with
    dataLength := 17
    data := some (1 :: twoRows.payload.set 5 0)
    format := .snappy }

/-- It is decoded to a block that differs in this byte. -/
theorem decodedBytes_changedPayload :
    decodedBytes referenceEnv RasterOutputFormat.snappy.value referenceSite 0
      (rle4kMakeDigest twoRows true) changedPayload = twoRows.payload.set 5 0 := by
  have hcall : ∀ width height stride cap, decoderCall referenceLibs
      RasterOutputFormat.snappy.value changedPayload width height stride cap =
        some { ok := true, writes := .sequential (twoRows.payload.set 5 0) } :=
    fun _ _ _ _ => rfl
  rw [decodedBytes, decodeSlot, rle4kDecodePayload_eq_decoderCall _ (by decide) _ _ _ _ _
    (by omega)]
  have hcodecs : referenceEnv.codecs referenceSite 0 = referenceLibs := rfl
  rw [hcodecs, hcall, Option.elim_some, Option.getD_some, take_apply_replicate]
  decide +kernel

/-- One changed byte of sixteen. -/
theorem burst_detected_twoRows :
    rle4kFnv1a64 twoRows.payload ≠ rle4kFnv1a64 (twoRows.payload.set 5 0) ∧
      ∃ w, rle4kPhaseDecodeWindow referenceEnv RasterOutputFormat.snappy.value referenceSite
        [rle4kMakeDigest twoRows true] [some changedPayload] 1 true = some w ∧ w.allOk = false := by
  have hburst : DifferInBurst twoRows.payload (twoRows.payload.set 5 0) := by
    refine ⟨by decide, 5, fun j hj => ?_⟩
    by_contra hout
    exact hj (List.getElem?_set_ne (by omega)).symm
  have hmax : (([rle4kMakeDigest twoRows true].length : ℕ) : ℤ) ≤ intMax := by decide
  have hrun :=
    @rle4kPhaseDecodeWindow_eq referenceEnv RasterOutputFormat.snappy.value referenceSite _
    [some changedPayload] 1 hmax true
  refine ⟨burst_detected.1 _ _ (by decide) hburst, _, hrun, ?_⟩
  exact burst_detected.2 _ _ _ _ _ _ _ (by decide) hmax hrun 0 twoRows changedPayload rfl
    (by decide +kernel) (by decide) rfl (decodedBytes_changedPayload ▸ hburst)

end Redcli
