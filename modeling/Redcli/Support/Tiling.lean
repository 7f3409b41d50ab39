import Mathlib.Algebra.BigOperators.Group.List.Basic
import Mathlib.Algebra.Order.Ring.Nat
import Mathlib.Data.List.Range
import Mathlib.Tactic.Common

/-!
# Tilings of an Initial Segment

A segment `0, …, total - 1` is cut into tiles of `size` consecutive elements, the last one
shorter where `size` does not divide `total`. A tile is a pair of a start and a length.

## Main results

* `lt_tileCount_iff`: the number of tiles is the number of multiples of `size` below `total`;
* `tiles_flatMap_range'`: the tiles are the segment, in order and without gap or overlap;
* `sum_tiles`: sums over the tiles add up to the sum over the segment.
-/

namespace Tiling

/-- The number of tiles: `total / size`, rounded up. -/
def tileCount (size total : ℕ) : ℕ := (total + size - 1) / size

/-- The `k`-th tile. -/
def tile (size total k : ℕ) : ℕ × ℕ := (k * size, min size (total - k * size))

/-- All tiles in order. -/
def tiles (size total : ℕ) : List (ℕ × ℕ) :=
  (List.range (tileCount size total)).map (tile size total)

variable {size total : ℕ}

/-- There is a `k`-th tile exactly if its start lies in the segment. -/
theorem lt_tileCount_iff (hsize : 0 < size) {k : ℕ} :
    k < tileCount size total ↔ k * size < total := by
  rw [tileCount, Nat.lt_iff_add_one_le, Nat.le_div_iff_mul_le hsize, Nat.add_mul, Nat.one_mul]
  omega

/-- There are no more tiles than elements. -/
theorem tileCount_le (hsize : 0 < size) : tileCount size total ≤ total := by
  by_contra hlt
  have := (lt_tileCount_iff hsize).mp (not_le.mp hlt)
  exact absurd (Nat.le_mul_of_pos_right total hsize) (not_le.mpr this)

/-- The tiles are given by the multiples of `size` in the segment. -/
theorem mem_tiles_iff (hsize : 0 < size) {p : ℕ × ℕ} :
    p ∈ tiles size total ↔ ∃ k, k * size < total ∧ p = tile size total k := by
  simp only [tiles, List.mem_map, List.mem_range, lt_tileCount_iff hsize, @eq_comm _ p]

/-- A tile has at least one and at most `size` elements, all in the segment. -/
theorem bounds_of_mem_tiles (hsize : 0 < size) {p : ℕ × ℕ} (hp : p ∈ tiles size total) :
    1 ≤ p.2 ∧ p.2 ≤ size ∧ p.1 + p.2 ≤ total := by
  obtain ⟨k, hk, rfl⟩ := (mem_tiles_iff hsize).mp hp
  simp only [tile]
  omega

/-- Every element of the segment lies in exactly one tile, the one of its quotient. -/
theorem mem_tile_iff (hsize : 0 < size) {x k : ℕ} (hx : x < total) :
    ((tile size total k).1 ≤ x ∧ x < (tile size total k).1 + (tile size total k).2) ↔
      k = x / size := by
  have hdiv := Nat.div_add_mod x size
  have hmod := Nat.mod_lt x hsize
  have hmul := Nat.mul_comm size (x / size)
  simp only [tile]
  constructor
  · intro ⟨hle, hlt⟩
    exact (Nat.div_eq_of_lt_le (by omega) (by rw [Nat.succ_mul]; omega)).symm
  · rintro rfl
    omega

/-- The tiles, written out, are the segment. -/
theorem tiles_flatMap_range' (hsize : 0 < size) :
    (tiles size total).flatMap (fun p => List.range' p.1 p.2) = List.range total := by
  -- the first `m` tiles reach up to `m * size`, or to the end of the segment
  have hfront : ∀ m ≤ tileCount size total,
      ((List.range m).map (tile size total)).flatMap (fun p => List.range' p.1 p.2) =
        List.range (min (m * size) total) := by
    intro m hm
    induction m with
    | zero => simp
    | succ m ih =>
        have hlt : m * size < total := (lt_tileCount_iff hsize).mp (Nat.lt_of_succ_le hm)
        have hend : min ((m + 1) * size) total = m * size + min size (total - m * size) := by
          rw [Nat.succ_mul]
          omega
        rw [List.range_succ, List.map_append, List.flatMap_append, ih (Nat.le_of_succ_le hm),
          hend, min_eq_left hlt.le, List.range_eq_range', List.range_eq_range',
          ← List.range'_append_1]
        simp [tile]
  -- the last tile reaches the end of the segment
  have hall : total ≤ tileCount size total * size := by
    by_contra hlt
    exact absurd ((lt_tileCount_iff hsize).mpr (not_le.mp hlt)) (lt_irrefl _)
  rw [tiles, hfront _ le_rfl, min_eq_right hall]

/-- Sums over tiles add up to the sum over the segment. -/
theorem sum_tiles {M : Type} [AddMonoid M] (hsize : 0 < size) (f : ℕ → M) :
    ((tiles size total).map fun p => ((List.range' p.1 p.2).map f).sum).sum =
      ((List.range total).map f).sum := by
  rw [← tiles_flatMap_range' hsize]
  generalize tiles size total = ps
  induction ps with
  | nil => rfl
  | cons p ps ih => simp [ih]

/-- A property of all elements of all tiles is one of the whole segment. -/
theorem forall_tiles_iff (hsize : 0 < size) (P : ℕ → Prop) :
    (∀ p ∈ tiles size total, ∀ x ∈ List.range' p.1 p.2, P x) ↔ ∀ x < total, P x := by
  have hmem : ∀ x, (∃ p ∈ tiles size total, x ∈ List.range' p.1 p.2) ↔ x < total := by
    intro x
    rw [← List.mem_range, ← tiles_flatMap_range' hsize, List.mem_flatMap]
  constructor
  · intro h x hx
    obtain ⟨p, hp, hxp⟩ := (hmem x).mpr hx
    exact h p hp x hxp
  · exact fun h p hp x hx => h x ((hmem x).mp ⟨p, hp, hx⟩)

end Tiling
