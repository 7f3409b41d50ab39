import Redcli.Codec.FormatEncoder
import Redcli.Pipeline.Geometry
import Redcli.Support.WorkPool

/-!
# The Row-Block Queue

`rle4k_row_block_queue`: an atomic counter from which the workers of a phase draw the slots
of a window. `fetch_add` on an `std::atomic<int>` wraps around.

## Main results

* `fetch_serves`: the queue of a window serves its slots in order and nothing else.
-/

namespace Redcli

/-- `rle4k_row_block_queue`. -/
structure Rle4kRowBlockQueue where
  total : ℤ
  next : ℤ := 0

namespace Rle4kRowBlockQueue

/-- `pop`: the next row index, or `-1` when all rows have been issued. -/
def pop (work : Rle4kRowBlockQueue) : ℤ × Rle4kRowBlockQueue :=
  let row := work.next
  (if row < work.total then row else -1, { work with next := toInt (work.next + 1) })

/-- The head of a worker's loop: `int local = work.pop(); if (local < 0) break;`. -/
def fetch (work : Rle4kRowBlockQueue) : Option ℕ × Rle4kRowBlockQueue :=
  (if work.pop.1 < 0 then none else some work.pop.1.toNat, work.pop.2)

/-- Every fetch advances the counter. -/
theorem fetch_snd (work : Rle4kRowBlockQueue) :
    work.fetch.2 = { work with next := toInt (work.next + 1) } := rfl

/-- The counter after `t` fetches, modulo `2 ^ 32`. -/
theorem after_fetch (total : ℤ) (t : ℕ) :
    WorkPool.after fetch { total := total } t = { total := total, next := toInt t } := by
  induction t with
  | zero => rfl
  | succ t ih =>
      have hnext : toInt (toInt t + 1) = toInt ((t + 1 : ℕ) : ℤ) := by
        rw [toInt, toInt, toInt, Int.bmod_add_bmod, Nat.cast_succ]
      rw [WorkPool.after_succ, ih, fetch_snd, hnext]

/-- A queue of a window serves the slots of the window in order, then nothing, even where the
counter wraps around. -/
theorem fetch_serves {total : ℤ} (hnonneg : 0 ≤ total) (hmax : total ≤ intMax) {n : ℕ}
    (hn : n ≤ 2 ^ 31) :
    WorkPool.Serves fetch { total := total } total.toNat (total.toNat + n) := by
  intro t ht
  rw [after_fetch]
  simp only [intMax] at hmax
  by_cases hsmall : (t : ℤ) < 2 ^ 31
  · have hnext : toInt t = t := by
      rw [toInt, Int.bmod_eq_emod_of_lt] <;> omega
    simp only [fetch, pop, hnext]
    by_cases hlt : (t : ℤ) < total
    · rw [if_pos hlt, if_neg (by omega), if_pos (by omega), Int.toNat_natCast]
    · rw [if_neg hlt, if_pos (by decide), if_neg (by omega)]
  · -- the counter has wrapped around and is negative
    have hnext : toInt t = t - 2 ^ 32 := by
      rw [toInt, Int.bmod_def, if_neg (by omega)]
      omega
    simp only [fetch, pop, hnext]
    rw [if_pos (by omega : (t : ℤ) - 2 ^ 32 < total), if_pos (by omega), if_neg (by omega)]

end Rle4kRowBlockQueue

/-- `std::max(1, std::min(nthreads, std::min(nwin, 10)))`. -/
def workerCount (nthreads nwin : ℤ) : ℕ := (max 1 (min nthreads (min nwin 10))).toNat

theorem workerCount_pos (nthreads nwin : ℤ) : 0 < workerCount nthreads nwin := by
  unfold workerCount
  omega

theorem workerCount_le (nthreads nwin : ℤ) : workerCount nthreads nwin ≤ 10 := by
  unfold workerCount
  omega

end Redcli
