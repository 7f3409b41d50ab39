import Mathlib.Logic.Function.Basic
import Mathlib.Tactic.SplitIfs

/-!
# The Last Write

A store with a value for each key, under a list of assignments that are made one after the other.
Each key has the value of the last assignment to it, or the one that it had before. The types of the
values may depend on the keys.

## Main results

* `get_foldl`: what a store holds behind some assignments.
-/

namespace LastWrite

variable {K : Type*} [DecidableEq K] {V : K → Type*}

/-- The value of the last assignment to a key. -/
def last : List (Σ k, V k) → (k : K) → Option (V k)
  | [], _ => none
  | a :: as, k => (last as k).or (if h : a.1 = k then some (h ▸ a.2) else none)

/-- What a store holds behind some assignments. -/
theorem get_foldl {S : Type*} {get : S → (k : K) → V k} {put : S → (Σ k, V k) → S}
    (hput : ∀ s a, get (put s a) = Function.update (get s) a.1 a.2) (as : List (Σ k, V k)) (s : S)
    (k : K) : get (as.foldl put s) k = (last as k).getD (get s k) := by
  induction as generalizing s with
  | nil => rfl
  | cons a as ih =>
      rw [List.foldl_cons, ih, hput, last]
      cases last as k with
      | some v => rfl
      | none =>
          rw [Option.none_or, Option.getD_none]
          by_cases h : a.1 = k
          · subst h
            rw [Function.update_self, dif_pos rfl]
            rfl
          · rw [Function.update_of_ne (Ne.symm h), dif_neg h]
            rfl

end LastWrite
