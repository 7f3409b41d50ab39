import Mathlib.Algebra.Order.Floor.Ring
import Mathlib.Algebra.Order.Field.Rat
import Mathlib.Data.Rat.Floor
import Mathlib.Tactic.Push
import Redcli.Codec.FormatEncoder
import Redcli.Support.Double
import Redcli.Support.Tiling

/-!
# Image Geometry and the Loops over Blocks

The integer arithmetic of `rle4k_cmd_run` that turns a document extent into a grid of blocks,
and the two loops over that grid: columns, and windows of rows.

An `int` operation whose result does not fit is undefined, as is a conversion of a floating
point value that does not fit. Both are `none`.

## Main results

* `blockCount_eq_some`: the number of blocks of a row or a column is a rounded up quotient;
* `windowLoop_eq`: the window loop runs its body over the tiles of the rows, unless its
  counter overflows behind the last window.
-/

namespace Redcli

/-- The result of an `int` operation. -/
def checkInt (n : ℤ) : Option ℤ := if intMin ≤ n ∧ n ≤ intMax then some n else none

theorem checkInt_eq_some_iff {n m : ℤ} :
    checkInt n = some m ↔ n = m ∧ intMin ≤ n ∧ n ≤ intMax := by
  unfold checkInt
  split_ifs with h
  · simp [h]
  · simp [h]

theorem checkInt_of_mem {n : ℤ} (hlo : intMin ≤ n) (hhi : n ≤ intMax) : checkInt n = some n :=
  if_pos ⟨hlo, hhi⟩

/-- `(int)ceil(extent / pw_nm)`, where the quotient is not rounded. Its conversion is undefined if
no `int` holds it, as with a zero pitch: the quotient is infinite then, or not a number. -/
def imageSize (extent : ℚ) (pwNm : Double) : Option ℤ :=
  match pwNm with
  | .finite pw => if pw = 0 then none else checkInt ⌈extent / pw⌉
  | .infinite _ => some 0
  | .nan => none

/-- An `int` quotient, truncated toward zero. -/
def intDiv (n d : ℤ) : Option ℤ := if d = 0 then none else checkInt (n.tdiv d)

/-- `(size + block - 1) / block`. -/
def blockCount (size block : ℤ) : Option ℤ := do
  let sum ← checkInt (size + block)
  let sum ← checkInt (sum - 1)
  intDiv sum block

/-- The block count of a size and a block height in range is a rounded up quotient. -/
theorem blockCount_eq_some {size block count : ℤ} (hsize : 0 ≤ size) (hblock : 1 ≤ block)
    (h : blockCount size block = some count) :
    count = Tiling.tileCount block.toNat size.toNat := by
  simp only [blockCount, Option.bind_eq_bind, Option.bind_eq_some_iff, checkInt_eq_some_iff,
    intDiv] at h
  obtain ⟨sum, ⟨rfl, -⟩, sum', ⟨rfl, -⟩, hdiv⟩ := h
  rw [if_neg (by omega), checkInt_eq_some_iff] at hdiv
  rw [← hdiv.1, Int.tdiv_eq_ediv_of_nonneg (by omega), Tiling.tileCount, Int.natCast_ediv]
  congr 1 <;> omega

/-- There is a `k`-th block exactly if it starts inside. -/
theorem lt_blockCount_iff {size block count k : ℤ} (hsize : 0 ≤ size) (hblock : 1 ≤ block)
    (h : blockCount size block = some count) (hk : 0 ≤ k) : k < count ↔ k * block < size := by
  obtain ⟨m, rfl⟩ := Int.eq_ofNat_of_zero_le hk
  obtain ⟨n, rfl⟩ := Int.eq_ofNat_of_zero_le (by omega : 0 ≤ block)
  obtain ⟨t, rfl⟩ := Int.eq_ofNat_of_zero_le hsize
  rw [blockCount_eq_some hsize hblock h, Int.toNat_natCast, Int.toNat_natCast, Int.ofNat_lt,
    Tiling.lt_tileCount_iff (by omega), ← Int.natCast_mul, Int.ofNat_lt]

/-- A block count is an `int`. -/
theorem blockCount_le {size block count : ℤ} (h : blockCount size block = some count) :
    count ≤ intMax := by
  simp only [blockCount, intDiv, Option.bind_eq_bind, Option.bind_eq_some_iff] at h
  obtain ⟨_, -, _, -, hdiv⟩ := h
  split_ifs at hdiv
  obtain ⟨rfl, -, hle⟩ := checkInt_eq_some_iff.mp hdiv
  exact hle

section Loops

variable {S : Type}

/-- `for (int row0 = 0; row0 < nrows; row0 += cache_blocks)`, from `row0` on, with the window
size `std::min(cache_blocks, nrows - row0)`. A loop that does not end within `fuel` rounds is
`none`. -/
def windowLoop (nrows cacheBlocks : ℤ) (body : ℤ → ℤ → S → Option S) :
    ℕ → ℤ → S → Option S
  | 0, _, _ => none
  | fuel + 1, row0, s =>
      if row0 < nrows then do
        let s ← body row0 (min cacheBlocks (nrows - row0)) s
        let row0 ← checkInt (row0 + cacheBlocks)
        windowLoop nrows cacheBlocks body fuel row0 s
      else some s

/-- `for (int col = 0; col < ncols; ++col)`. -/
def columnLoop (ncols : ℤ) (body : ℤ → S → Option S) (s : S) : Option S :=
  (List.range ncols.toNat).foldlM (fun s (col : ℕ) => body (col : ℤ) s) s

/-- The windows of a column: the tiles of its rows, with `int` starts and lengths. -/
def windows (nrows cacheBlocks : ℤ) : List (ℤ × ℤ) :=
  (Tiling.tiles cacheBlocks.toNat nrows.toNat).map fun p => ((p.1 : ℤ), (p.2 : ℤ))

/-- The counter of the window loop fits into an `int` behind the last window. -/
def WindowCounterFits (nrows cacheBlocks : ℤ) : Prop :=
  Tiling.tileCount cacheBlocks.toNat nrows.toNat * cacheBlocks ≤ intMax

instance (nrows cacheBlocks : ℤ) : Decidable (WindowCounterFits nrows cacheBlocks) :=
  inferInstanceAs (Decidable (_ ≤ _))

variable {nrows cacheBlocks : ℤ}

/-- The counter in front of the `k`-th window. -/
private theorem lt_tileCount_iff_counter (hcache : 1 ≤ cacheBlocks) {k : ℕ} :
    k < Tiling.tileCount cacheBlocks.toNat nrows.toNat ↔ k * cacheBlocks < nrows := by
  obtain ⟨c, rfl⟩ := Int.eq_ofNat_of_zero_le (by omega : 0 ≤ cacheBlocks)
  rw [Tiling.lt_tileCount_iff (by omega), Int.toNat_natCast, ← Int.natCast_mul]
  omega

/-- The body of the loop sees the `k`-th tile. -/
private theorem cast_tile (hcache : 1 ≤ cacheBlocks) {k : ℕ} (hk : k * cacheBlocks < nrows) :
    (((Tiling.tile cacheBlocks.toNat nrows.toNat k).1 : ℤ) = k * cacheBlocks) ∧
      ((Tiling.tile cacheBlocks.toNat nrows.toNat k).2 : ℤ) =
        min cacheBlocks (nrows - k * cacheBlocks) := by
  obtain ⟨c, rfl⟩ := Int.eq_ofNat_of_zero_le (by omega : 0 ≤ cacheBlocks)
  simp only [Tiling.tile, Int.toNat_natCast]
  rw [← Int.natCast_mul] at hk ⊢
  exact ⟨rfl, by omega⟩

/-- The loop from its `k`-th window on. -/
private theorem windowLoop_from (hcache : 1 ≤ cacheBlocks) (hrows : nrows ≤ intMax)
    (body : ℤ → ℤ → S → Option S) (fuel k : ℕ)
    (hk : k ≤ Tiling.tileCount cacheBlocks.toNat nrows.toNat)
    (hfuel : Tiling.tileCount cacheBlocks.toNat nrows.toNat ≤ fuel + k)
    (hend : k = Tiling.tileCount cacheBlocks.toNat nrows.toNat →
      WindowCounterFits nrows cacheBlocks) (s : S) :
    windowLoop nrows cacheBlocks body (fuel + 1) (k * cacheBlocks) s =
      ((List.range' k (Tiling.tileCount cacheBlocks.toNat nrows.toNat - k)).foldlM
        (fun s k => body (Tiling.tile cacheBlocks.toNat nrows.toNat k).1
          (Tiling.tile cacheBlocks.toNat nrows.toNat k).2 s) s).bind fun s =>
        if WindowCounterFits nrows cacheBlocks then some s else none := by
  set count := Tiling.tileCount cacheBlocks.toNat nrows.toNat with hcount
  rcases hk.eq_or_lt with rfl | hlt
  · -- behind the last window
    have hrow : ¬ (count : ℤ) * cacheBlocks < nrows := fun h =>
      absurd ((lt_tileCount_iff_counter hcache).mpr h) (lt_irrefl _)
    rw [windowLoop, if_neg hrow, Nat.sub_self, List.range'_zero, List.foldlM_nil]
    exact (if_pos (hend rfl)).symm
  · have hrow : k * cacheBlocks < nrows := (lt_tileCount_iff_counter hcache).mp hlt
    obtain ⟨hstart, hlen⟩ := cast_tile hcache hrow
    obtain ⟨m, hm⟩ : ∃ m, count - k = m + 1 := ⟨count - k - 1, by omega⟩
    have hnext : (k : ℤ) * cacheBlocks + cacheBlocks = ((k + 1 : ℕ) : ℤ) * cacheBlocks := by
      push_cast
      rw [Int.add_mul, Int.one_mul]
    have hlo : intMin ≤ (k : ℤ) * cacheBlocks + cacheBlocks := by
      have : 0 ≤ (k : ℤ) * cacheBlocks := Int.mul_nonneg (Int.natCast_nonneg k) (by omega)
      simp only [intMin]
      omega
    rw [windowLoop, if_pos hrow, hm, List.range'_succ, List.foldlM_cons, hstart, hlen]
    simp only [Option.bind_eq_bind, Option.bind_assoc]
    congr 1
    funext s
    by_cases hfits : (k : ℤ) * cacheBlocks + cacheBlocks ≤ intMax
    · -- one more round of the loop
      cases fuel with
      | zero => omega
      | succ fuel =>
          have hend' : k + 1 = count → WindowCounterFits nrows cacheBlocks := by
            intro heq
            rw [WindowCounterFits, ← hcount, ← heq, ← hnext]
            exact hfits
          rw [checkInt_of_mem hlo hfits, Option.bind_some, hnext,
            windowLoop_from hcache hrows body fuel (k + 1) hlt (by omega) hend' s,
            ← hcount, show count - (k + 1) = m by omega]
    · -- only the counter behind the last window can be too large
      have hlast : ¬ k + 1 < count := by
        intro hlt'
        have := (lt_tileCount_iff_counter hcache).mp hlt'
        omega
      have heq : count = k + 1 := by omega
      have hover : ¬ WindowCounterFits nrows cacheBlocks := by
        rw [WindowCounterFits, ← hcount, heq, ← hnext]
        exact hfits
      have hnone : checkInt ((k : ℤ) * cacheBlocks + cacheBlocks) = none :=
        if_neg fun h => hfits h.2
      rw [hnone, show m = 0 by omega, List.range'_zero, List.foldlM_nil]
      exact (if_neg hover).symm
termination_by fuel

/-- The window loop runs its body over the windows, in order; the run is lost if the counter
overflows behind the last one. -/
theorem windowLoop_eq (hcache : 1 ≤ cacheBlocks) (hrows : nrows ≤ intMax)
    (body : ℤ → ℤ → S → Option S) {fuel : ℕ} (hfuel : nrows.toNat < fuel) (s : S) :
    windowLoop nrows cacheBlocks body fuel 0 s =
      ((windows nrows cacheBlocks).foldlM (fun s w => body w.1 w.2 s) s).bind fun s =>
        if WindowCounterFits nrows cacheBlocks then some s else none := by
  obtain ⟨fuel, rfl⟩ : ∃ m, fuel = m + 1 := ⟨fuel - 1, by omega⟩
  have hle : Tiling.tileCount cacheBlocks.toNat nrows.toNat ≤ nrows.toNat :=
    Tiling.tileCount_le (by omega)
  have hempty : 0 = Tiling.tileCount cacheBlocks.toNat nrows.toNat →
      WindowCounterFits nrows cacheBlocks := by
    intro h
    rw [WindowCounterFits, ← h]
    simp [intMax]
  have := windowLoop_from hcache hrows body fuel 0 (Nat.zero_le _) (by omega) hempty s
  rw [Nat.cast_zero, Int.zero_mul] at this
  rw [this, windows, Tiling.tiles, List.foldlM_map, List.foldlM_map, List.range_eq_range',
    Nat.sub_zero]

/-- The windows of a column start at or above row 0, and end at or above row `nrows - 1`. -/
theorem bounds_of_mem_windows (hcache : 1 ≤ cacheBlocks) {w : ℤ × ℤ}
    (hw : w ∈ windows nrows cacheBlocks) :
    0 ≤ w.1 ∧ 1 ≤ w.2 ∧ w.2 ≤ cacheBlocks ∧ w.1 + w.2 ≤ nrows := by
  obtain ⟨p, hp, rfl⟩ := List.mem_map.mp hw
  have := Tiling.bounds_of_mem_tiles (by omega : 0 < cacheBlocks.toNat) hp
  exact ⟨Int.natCast_nonneg _, by omega, by omega, by omega⟩

end Loops

end Redcli
