import Redcli.Codec.DecodePayload
import Redcli.Support.XorMultiplyHash

/-!
# Bursts

`rle4k_fnv1a64` tells two blocks of the same length apart if they differ in one run of at most
four bytes. Over four bytes the difference of the states is `((d * p + e) * p + f) * p` with
small digits `d`, `e` and `f`, and for the prime of the hash this is no difference of two bytes
unless all digits are zero.

## Main results

* `fnvDigits_eq_zero`: the arithmetic of the digits;
* `rle4kFnv1a64_ne_of_burst`: the detection of a burst.
-/

namespace Redcli

open XorMultiplyHash

/-- The prime of `rle4k_fnv1a64`. -/
def fnvPrime : BitVec 64 := 1099511628211

/-- A byte as a word of the hash. -/
def fnvWord (b : UInt8) : BitVec 64 := b.toBitVec.setWidth 64

theorem toNat_fnvWord (b : UInt8) : (fnvWord b).toNat = b.toNat :=
  BitVec.toNat_setWidth_of_le (by decide)

/-- `rle4k_fnv1a64` is a hash by exclusive or and multiplication. -/
theorem toBitVec_rle4kFnv1a64 (data : Bytes) :
    (rle4kFnv1a64 data).toBitVec = hash fnvPrime 14695981039346656037 (data.map fnvWord) := by
  have hfold : ∀ (data : Bytes) (h : UInt64),
      (data.foldl (fun h b => (h ^^^ b.toUInt64) * 1099511628211) h).toBitVec =
        hash fnvPrime h.toBitVec (data.map fnvWord) := by
    intro data
    induction data with
    | nil => exact fun h => rfl
    | cons b data ih => exact fun h => ih _
  exact hfold data _

/-- The prime is odd, so it has an inverse modulo `2 ^ 64`. -/
theorem fnvPrime_mul_inverse : fnvPrime * 14886173955864302971 = 1 := by decide

/-- Small digits make a small difference only if all of them are zero. The prime is
`2 ^ 40 + 435`, so the difference has a low and a high part modulo `2 ^ 64`. -/
theorem fnvDigits_eq_zero {d e f r : ℤ} (hd : |d| ≤ 510) (he : |e| ≤ 510) (hf : |f| ≤ 510)
    (hr : |r| < 256)
    (h : ((d * 1099511628211 + e) * 1099511628211 + f) * 1099511628211 ≡ r [ZMOD 2 ^ 64]) :
    d = 0 ∧ e = 0 ∧ f = 0 ∧ r = 0 := by
  rw [abs_le] at hd he hf
  rw [abs_lt] at hr
  obtain ⟨t, ht⟩ := h.symm.dvd
  -- the multiples of `2 ^ 80` in the powers of the prime vanish
  obtain ⟨u, hu⟩ : ∃ u, 435 * (189225 * d + 435 * e + f) +
      2 ^ 40 * (567675 * d + 870 * e + f) - r = 2 ^ 64 * u :=
    ⟨t - d * (2 ^ 56 + 1305 * 2 ^ 16) - e * 2 ^ 16, by omega⟩
  clear ht
  -- the low part is a multiple of 435 and less than `2 ^ 40`
  have hlow : 435 * (189225 * d + 435 * e + f) = r := by omega
  have hzero : 189225 * d + 435 * e + f = 0 := by
    clear hu
    omega
  have hr0 : r = 0 := by rw [← hlow, hzero, Int.mul_zero]
  -- the high part is 435 times a number that is less than `2 ^ 24 / 435`
  have hk : -1 ≤ 435 * d + e ∧ 435 * d + e ≤ 1 := by
    clear hu hlow
    omega
  have hhigh : 435 * (435 * d + (435 * d + e)) = 2 ^ 24 * u := by
    rw [hzero, hr0] at hu
    clear hk hlow hd he hf hr
    omega
  have hd1 : -1 ≤ d ∧ d ≤ 1 := by
    clear hhigh hu hlow hzero hf hr
    omega
  have hu0 : u = 0 := by
    clear hu hlow hzero hf hr
    omega
  rw [hu0] at hhigh
  clear hu hlow hf hr
  omega

/-- Two different blocks of four bytes lead from one state to different states. -/
theorem hash_four_injective {a b : Bytes} (ha : a.length = 3) (hb : b.length = 3) {c c' : UInt8}
    {h : BitVec 64} (heq : hash fnvPrime h ((a ++ [c]).map fnvWord) =
      hash fnvPrime h ((b ++ [c']).map fnvWord)) : a ++ [c] = b ++ [c'] := by
  have hword : ∀ c : UInt8, (fnvWord c).toNat < 2 ^ 8 := fun c => by
    rw [toNat_fnvWord]
    exact UInt8.toNat_lt c
  have hwords : ∀ data : Bytes, ∀ x ∈ data.map fnvWord, x.toNat < 2 ^ 8 := by
    intro data x hx
    obtain ⟨c, -, rfl⟩ := List.mem_map.mp hx
    exact hword c
  have hinj : ∀ {c c' : UInt8}, fnvWord c = fnvWord c' → c = c' := fun h =>
    UInt8.toNat_inj.mp (by rw [← toNat_fnvWord, ← toNat_fnvWord, h])
  -- three steps with digits
  obtain ⟨es, hes, hbound, hdiffer, hall⟩ := exists_digits (p := fnvPrime)
    (by rw [List.length_map, List.length_map, ha, hb]) (hwords a) (hwords b) (differ_self h)
  rw [List.length_map, ha] at hes
  obtain ⟨d, e, f, rfl⟩ := List.length_eq_three.mp hes
  simp only [List.mem_cons, List.not_mem_nil, or_false, forall_eq_or_imp, forall_eq] at hbound
  -- the last byte has to make the states equal
  rw [List.map_append, List.map_append, hash_append, hash_append] at heq
  have hlast := (mul_inj fnvPrime_mul_inverse).mp heq
  -- its exclusive or bridges less than `2 ^ 8`
  obtain ⟨r, hr, hsub⟩ := exists_sub_of_xor_eq (hword c) (hword c') hlast
  have hdigits := fnvDigits_eq_zero hbound.1 hbound.2.1 hbound.2.2 hr (by
    have := hdiffer
    rw [Differ, hsub] at this
    simpa [fnvPrime] using this.symm)
  obtain ⟨rfl, rfl, rfl, rfl⟩ := hdigits
  -- without a difference in front, the last bytes are equal as well
  have hfront := hall rfl (by simp)
  rw [hfront] at hlast
  rw [hinj ((BitVec.xor_right_inj _).mp hlast),
    List.map_injective_iff.mpr (fun _ _ => hinj) hfront]

/-- Two different blocks of at most four bytes lead from one state to different states. -/
theorem hash_short_injective {a b : Bytes} (hlen : a.length = b.length) (hle : a.length ≤ 4)
    {h : BitVec 64} (heq : hash fnvPrime h (a.map fnvWord) = hash fnvPrime h (b.map fnvWord)) :
    a = b := by
  -- zeros behind both blocks fill them up to four bytes
  set pad : Bytes := List.replicate (4 - a.length) 0 with hpad
  have hfour : ∀ l : Bytes, l.length = a.length →
      ∃ l' c, l'.length = 3 ∧ l ++ pad = l' ++ [c] := by
    intro l hl
    have hlength : (l ++ pad).length = 4 := by
      rw [List.length_append, hl, hpad, List.length_replicate]
      omega
    have hnil : l ++ pad ≠ [] := fun h => by
      rw [h] at hlength
      cases hlength
    exact ⟨_, _, by rw [List.length_dropLast, hlength],
      (List.dropLast_concat_getLast hnil).symm⟩
  obtain ⟨a', c, ha', ha⟩ := hfour a rfl
  obtain ⟨b', c', hb', hb⟩ := hfour b hlen.symm
  have hpadded : a ++ pad = b ++ pad := by
    rw [ha, hb]
    refine hash_four_injective ha' hb' (h := h) ?_
    rw [← ha, ← hb, List.map_append, List.map_append, hash_append, hash_append, heq]
  exact List.append_cancel_right hpadded

/-- Two different blocks of one length that agree outside of four consecutive positions have
different hashes. -/
theorem rle4kFnv1a64_ne_of_burst {a b : Bytes} (hlen : a.length = b.length) (hne : a ≠ b)
    {i : ℕ} (hburst : ∀ j, a[j]? ≠ b[j]? → i ≤ j ∧ j < i + 4) :
    rle4kFnv1a64 a ≠ rle4kFnv1a64 b := by
  intro heq
  -- the blocks agree in front of the burst and behind it
  have hfront : a.take i = b.take i := by
    refine List.ext_getElem? fun j => ?_
    rw [List.getElem?_take, List.getElem?_take]
    split_ifs with hj
    · by_contra hdiff
      exact absurd (hburst j hdiff).1 (by omega)
    · rfl
  have hback : a.drop (i + 4) = b.drop (i + 4) := by
    refine List.ext_getElem? fun j => ?_
    rw [List.getElem?_drop, List.getElem?_drop]
    by_contra hdiff
    exact absurd (hburst _ hdiff).2 (by omega)
  have hsplit : ∀ l : Bytes, l = l.take i ++ ((l.drop i).take 4 ++ l.drop (i + 4)) := by
    intro l
    rw [← List.drop_drop, List.take_append_drop, List.take_append_drop]
  have hhash := congrArg UInt64.toBitVec heq
  rw [toBitVec_rle4kFnv1a64, toBitVec_rle4kFnv1a64, hsplit a, hsplit b, hfront, hback] at hhash
  simp only [List.map_append, hash_append] at hhash
  -- the bytes behind the burst keep the states apart
  have hmiddle := hash_short_injective (by simp [hlen]) (by simp)
    ((hash_injective fnvPrime_mul_inverse _).mp hhash)
  exact hne (by rw [hsplit a, hsplit b, hfront, hback, hmiddle])

end Redcli
