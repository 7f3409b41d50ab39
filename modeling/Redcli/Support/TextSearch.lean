import Mathlib.Data.List.Infix
import Mathlib.Data.List.TakeDrop
import Mathlib.Tactic.Common

/-!
# Text Search

Search for a pattern, or for an element with a property, in a list from a position on, and
what the search says about the part of the list that is found.

## Main results

* `searchFrom_eq_some`: a search by position finds the suffix that `suffixAt` finds;
* `behind_append`: an occurrence in the front of a text is found whatever follows;
* `behind_singleton_eq_none_iff`, `behind_singleton_append`: the search for one element.
-/

namespace TextSearch

variable {α : Type}

/-! ## Positions -/

/-- The first position whose suffix has the property. -/
def firstSuffix (p : List α → Bool) : List α → Option ℕ
  | [] => if p [] then some 0 else none
  | c :: s => if p (c :: s) then some 0 else (firstSuffix p s).map (· + 1)

/-- The first position from `pos` on whose suffix has the property. -/
def searchFrom (p : List α → Bool) (s : List α) (pos : ℕ) : Option ℕ :=
  if pos ≤ s.length then (firstSuffix p (s.drop pos)).map (· + pos) else none

/-- The first suffix that has the property. -/
def suffixAt (p : List α → Bool) : List α → Option (List α)
  | [] => if p [] then some [] else none
  | c :: s => if p (c :: s) then some (c :: s) else suffixAt p s

variable {p : List α → Bool} {s : List α}

theorem firstSuffix_eq_none (h : firstSuffix p s = none) : suffixAt p s = none := by
  induction s with
  | nil =>
      unfold firstSuffix at h
      unfold suffixAt
      split_ifs at h ⊢
      rfl
  | cons c s ih =>
      unfold firstSuffix at h
      unfold suffixAt
      split_ifs at h ⊢
      exact ih (Option.map_eq_none_iff.mp h)

theorem firstSuffix_eq_some {i : ℕ} (h : firstSuffix p s = some i) :
    i ≤ s.length ∧ suffixAt p s = some (s.drop i) := by
  induction s generalizing i with
  | nil =>
      unfold firstSuffix at h
      unfold suffixAt
      split_ifs at h ⊢
      cases h
      exact ⟨le_rfl, rfl⟩
  | cons c s ih =>
      unfold firstSuffix at h
      unfold suffixAt
      split_ifs at h ⊢
      · cases h
        exact ⟨Nat.zero_le _, rfl⟩
      · obtain ⟨j, hj, rfl⟩ := Option.map_eq_some_iff.mp h
        obtain ⟨hle, hsuffix⟩ := ih hj
        exact ⟨Nat.succ_le_succ hle, hsuffix⟩

/-- A search that fails finds no suffix. -/
theorem searchFrom_eq_none {pos : ℕ} (hpos : pos ≤ s.length) (h : searchFrom p s pos = none) :
    suffixAt p (s.drop pos) = none := by
  rw [searchFrom, if_pos hpos, Option.map_eq_none_iff] at h
  exact firstSuffix_eq_none h

/-- A search that succeeds finds the position of the first suffix. -/
theorem searchFrom_eq_some {pos i : ℕ} (h : searchFrom p s pos = some i) :
    pos ≤ i ∧ i ≤ s.length ∧ suffixAt p (s.drop pos) = some (s.drop i) := by
  unfold searchFrom at h
  split_ifs at h with hpos
  obtain ⟨j, hj, rfl⟩ := Option.map_eq_some_iff.mp h
  obtain ⟨hle, hsuffix⟩ := firstSuffix_eq_some hj
  rw [List.length_drop] at hle
  refine ⟨by omega, by omega, ?_⟩
  rw [hsuffix, List.drop_drop, Nat.add_comm]

/-- The suffix that is found has the property. -/
theorem of_suffixAt {t : List α} (h : suffixAt p s = some t) : p t = true ∧ t <:+ s := by
  induction s with
  | nil =>
      unfold suffixAt at h
      split_ifs at h with hp
      cases h
      exact ⟨hp, List.suffix_rfl⟩
  | cons c s ih =>
      unfold suffixAt at h
      split_ifs at h with hp
      · cases h
        exact ⟨hp, List.suffix_rfl⟩
      · obtain ⟨ht, hsuffix⟩ := ih h
        exact ⟨ht, hsuffix.trans (List.suffix_cons c s)⟩

/-! ## Elements with a property -/

/-- The text starts with an element that has the property. -/
def headIs (q : α → Bool) (s : List α) : Bool := s.head?.any q

/-- The search for an element skips all elements without the property. -/
theorem suffixAt_headIs (q : α → Bool) (s : List α) :
    suffixAt (headIs q) s =
      if s.dropWhile (fun c => !q c) = [] then none else some (s.dropWhile fun c => !q c) := by
  induction s with
  | nil => rfl
  | cons c s ih =>
      by_cases hc : q c = true
      · simp [suffixAt, headIs, hc]
      · simp [suffixAt, headIs, hc, ih]

/-! ## The text behind a pattern -/

section Pattern

variable [DecidableEq α] {pat u w r : List α} {c : α}

/-- The text behind the first occurrence of a pattern. -/
def behind (pat s : List α) : Option (List α) :=
  (suffixAt pat.isPrefixOf s).map (List.drop pat.length)

theorem behind_cons (pat s : List α) (c : α) :
    behind pat (c :: s) =
      if pat <+: c :: s then some ((c :: s).drop pat.length) else behind pat s := by
  simp only [behind, suffixAt, List.isPrefixOf_iff_prefix]
  split_ifs <;> rfl

/-- The occurrence that is found. -/
theorem eq_append_of_behind (h : behind pat s = some r) : ∃ a, s = a ++ pat ++ r := by
  obtain ⟨t, ht, rfl⟩ := Option.map_eq_some_iff.mp h
  obtain ⟨hp, a, rfl⟩ := of_suffixAt ht
  obtain ⟨r, rfl⟩ := List.isPrefixOf_iff_prefix.mp hp
  exact ⟨a, by simp⟩

/-- There is nothing to find exactly if the pattern does not occur. -/
theorem behind_eq_none_iff : behind pat s = none ↔ ¬ pat <:+: s := by
  induction s with
  | nil =>
      simp only [behind, suffixAt, List.isPrefixOf_iff_prefix, List.prefix_nil, List.infix_nil]
      split_ifs with h <;> simp [h]
  | cons c s ih =>
      rw [behind_cons, List.infix_cons_iff, not_or, ← ih]
      split_ifs with h <;> simp [h]

/-- An occurrence in the front of a text is found whatever follows. -/
theorem behind_append (h : behind pat u = some r) (w : List α) :
    behind pat (u ++ w) = some (r ++ w) := by
  induction u with
  | nil =>
      obtain ⟨a, ha⟩ := eq_append_of_behind h
      obtain ⟨-, rfl, rfl⟩ : a = [] ∧ pat = [] ∧ r = [] := by simpa using ha.symm
      cases w <;> rfl
  | cons c u ih =>
      rw [behind_cons] at h
      rw [List.cons_append, behind_cons]
      split_ifs at h with hpat
      · -- the pattern is at the very front
        cases h
        obtain ⟨v, hv⟩ := hpat
        rw [← List.cons_append, ← hv, if_pos (by simp)]
        simp
      · -- an occurrence that starts here would have to end in the front
        obtain ⟨a, ha⟩ := eq_append_of_behind h
        have hlen : pat.length ≤ (c :: u).length := by
          rw [ha]
          simp only [List.length_cons, List.length_append]
          omega
        have hnot : ¬ pat <+: c :: (u ++ w) := fun hp =>
          hpat (List.prefix_of_prefix_length_le hp (List.prefix_append (c :: u) w) hlen)
        rw [if_neg hnot, ih h]

/-- A pattern at the front of a text is found there. -/
theorem behind_of_prefix (hne : pat ≠ []) (w : List α) : behind pat (pat ++ w) = some w := by
  obtain ⟨c, t, rfl⟩ := List.exists_cons_of_ne_nil hne
  rw [List.cons_append, behind_cons, if_pos ⟨w, rfl⟩]
  simp

/-- A part without the pattern, closed by an element that the pattern does not have, is
skipped. -/
theorem behind_skip (hne : pat ≠ []) (hc : c ∉ pat) (hu : ¬ pat <:+: u) (w : List α) :
    behind pat (u ++ c :: w) = behind pat w := by
  induction u with
  | nil =>
      have hnot : ¬ pat <+: c :: w := by
        rintro ⟨v, hv⟩
        obtain ⟨d, t, rfl⟩ := List.exists_cons_of_ne_nil hne
        exact hc ((List.cons.inj hv).1 ▸ List.mem_cons_self)
      rw [List.nil_append, behind_cons, if_neg hnot]
  | cons d u ih =>
      have hnot : ¬ pat <+: d :: (u ++ c :: w) := by
        intro hp
        rcases List.prefix_or_prefix_of_prefix hp (List.prefix_append (d :: u) (c :: w)) with h | h
        · exact hu h.isInfix
        · -- a longer pattern would contain the element behind the part
          obtain ⟨v, rfl⟩ := h
          have hv : v <+: c :: w := (List.prefix_append_right_inj (d :: u)).mp hp
          cases v with
          | nil => exact hu (by rw [List.append_nil])
          | cons e v =>
              obtain ⟨rfl, -⟩ := List.cons_prefix_cons.mp hv
              exact hc (by simp)
      rw [List.cons_append, behind_cons, if_neg hnot,
        ih fun h => hu (h.trans (List.suffix_cons d u).isInfix)]

/-- An element that the pattern does not have separates the places where the pattern occurs. -/
theorem infix_append_cons_iff (hne : pat ≠ []) (hc : c ∉ pat) :
    pat <:+: u ++ c :: w ↔ pat <:+: u ∨ pat <:+: w := by
  constructor
  · intro h
    by_contra hnone
    obtain ⟨hu, hw⟩ := not_or.mp hnone
    -- nothing is found in front of the element, and nothing behind it
    have hbehind := behind_skip hne hc hu w
    rw [behind_eq_none_iff.mpr hw] at hbehind
    exact behind_eq_none_iff.mp hbehind h
  · rintro (h | h)
    · exact h.trans (List.prefix_append u (c :: w)).isInfix
    · exact h.trans ((List.suffix_cons c w).trans (List.suffix_append u (c :: w))).isInfix

/-- A part without the first element of the pattern is skipped. -/
theorem behind_append_of_notMem (hc : c ∉ u) (pat w : List α) :
    behind (c :: pat) (u ++ (c :: pat ++ w)) = some w := by
  induction u with
  | nil => exact behind_of_prefix (List.cons_ne_nil c pat) w
  | cons d u ih =>
      have hne : ¬ c :: pat <+: d :: (u ++ (c :: pat ++ w)) := fun hp =>
        hc ((List.cons_prefix_cons.mp hp).1 ▸ List.mem_cons_self)
      rw [List.cons_append, behind_cons, if_neg hne, ih fun h => hc (List.mem_cons_of_mem d h)]

/-- A pattern at the end of a text is found there or before. -/
theorem exists_behind_append (a : List α) (pat : List α) : ∃ r, behind pat (a ++ pat) = some r :=
  Option.ne_none_iff_exists'.mp fun h => behind_eq_none_iff.mp h (List.suffix_append a pat).isInfix

/-! ## The text behind an element -/

/-- An element that does not occur is not found. -/
theorem behind_singleton_eq_none_iff : behind [c] s = none ↔ c ∉ s := by
  rw [behind_eq_none_iff, List.singleton_infix_iff]

/-- Elements in front that differ are skipped. -/
theorem behind_singleton_append (h : c ∉ u) (w : List α) : behind [c] (u ++ w) = behind [c] w := by
  induction u with
  | nil => rfl
  | cons d u ih =>
      have hd : ¬ [c] <+: d :: (u ++ w) := by
        rintro ⟨v, hv⟩
        rw [List.singleton_append, List.cons.injEq] at hv
        exact h (hv.1 ▸ List.mem_cons_self)
      rw [List.cons_append, behind_cons, if_neg hd, ih fun hmem => h (List.mem_cons_of_mem d hmem)]

/-- The first of these elements is found. -/
theorem behind_singleton_cons (c : α) (w : List α) : behind [c] (c :: w) = some w := by
  rw [behind_cons, if_pos ⟨w, rfl⟩]
  rfl

/-- What is found behind an element that occurs. -/
theorem exists_behind_singleton (h : c ∈ s) :
    ∃ a r, s = a ++ c :: r ∧ c ∉ a ∧ behind [c] s = some r := by
  obtain ⟨a, r, rfl, ha⟩ := List.eq_append_cons_of_mem h
  exact ⟨a, r, rfl, ha, by rw [behind_singleton_append ha, behind_singleton_cons]⟩

end Pattern

/-! ## Skipping and taking -/

section Skip

variable {q : α → Bool} {u w : List α} {c : α}

/-- Taking ends at an element without the property. -/
theorem takeWhile_append_cons (hc : q c = false) (u w : List α) :
    (u ++ c :: w).takeWhile q = u.takeWhile q := by
  induction u with
  | nil => simp [hc]
  | cons d u ih => simp [List.takeWhile_cons, ih]

/-- Skipping ends at an element without the property. -/
theorem dropWhile_append_cons (hc : q c = false) (u w : List α) :
    (u ++ c :: w).dropWhile q = u.dropWhile q ++ c :: w := by
  induction u with
  | nil => simp [hc]
  | cons d u ih =>
      rw [List.cons_append, List.dropWhile_cons, List.dropWhile_cons]
      split_ifs
      · exact ih
      · rfl

/-- Taking stops behind a part that has the property. -/
theorem takeWhile_append_stop (hu : ∀ c ∈ u, q c = true) (hw : ∀ c ∈ w.head?, q c = false) :
    (u ++ w).takeWhile q = u := by
  rw [List.takeWhile_append_of_pos hu]
  cases w with
  | nil => simp
  | cons c w => simp [hw c rfl]

/-- Skipping stops behind a part that has the property. -/
theorem dropWhile_append_stop (hu : ∀ c ∈ u, q c = true) (hw : ∀ c ∈ w.head?, q c = false) :
    (u ++ w).dropWhile q = w := by
  rw [List.dropWhile_append_of_pos hu]
  cases w with
  | nil => rfl
  | cons c w => simp [hw c rfl]

/-- The elements in front of the first `c`. -/
theorem takeWhile_ne_append [DecidableEq α] (hu : c ∉ u) (w : List α) :
    (u ++ c :: w).takeWhile (fun d => decide (d ≠ c)) = u := by
  induction u with
  | nil => simp
  | cons d u ih =>
      have hd : d ≠ c := fun h => hu (h ▸ List.mem_cons_self)
      rw [List.cons_append, List.takeWhile_cons,
        ih fun hmem => hu (List.mem_cons_of_mem d hmem), if_pos (decide_eq_true hd)]

/-- The text from the first `c` on. -/
theorem dropWhile_ne_append [DecidableEq α] (hu : c ∉ u) (w : List α) :
    (u ++ c :: w).dropWhile (fun d => decide (d ≠ c)) = c :: w := by
  induction u with
  | nil => simp
  | cons d u ih =>
      have hd : d ≠ c := fun h => hu (h ▸ List.mem_cons_self)
      rw [List.cons_append, List.dropWhile_cons,
        ih fun hmem => hu (List.mem_cons_of_mem d hmem), if_pos (decide_eq_true hd)]

/-- Without a `c` nothing is left. -/
theorem dropWhile_ne_eq_nil [DecidableEq α] (hu : c ∉ u) :
    u.dropWhile (fun d => decide (d ≠ c)) = [] := by
  induction u with
  | nil => rfl
  | cons d u ih =>
      have hd : d ≠ c := fun h => hu (h ▸ List.mem_cons_self)
      rw [List.dropWhile_cons, ih fun hmem => hu (List.mem_cons_of_mem d hmem),
        if_pos (decide_eq_true hd)]

end Skip

end TextSearch
