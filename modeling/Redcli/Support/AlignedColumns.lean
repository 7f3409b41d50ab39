import Mathlib.Data.List.Basic
import Mathlib.Tactic.Common

/-!
# Aligned Columns

Lines of cells that are padded to fixed widths, as a stream with a field width writes them, and a
reader that splits a line at its blanks. A cell that fills its width is written without a gap to
the cell in front of it.

## Main results

* `words_line`: the words of a line;
* `words_line_eq_iff`: they are its cells exactly if all cells have room;
* `splitOn_lines`: the lines of a text.
-/

namespace AlignedColumns

variable {α : Type*}

/-! ## Lines of cells -/

section

variable (blank : α)

/-- A cell at the right end of its width. -/
def padLeft (width : ℕ) (cell : List α) : List α :=
  List.replicate (width - cell.length) blank ++ cell

/-- A cell at the left end of its width. -/
def padRight (width : ℕ) (cell : List α) : List α :=
  cell ++ List.replicate (width - cell.length) blank

/-- A first cell, and cells with widths behind it. -/
def line (first : List α) (cells : List (ℕ × List α)) : List α :=
  first ++ cells.flatMap fun v => padLeft blank v.1 v.2

/-- The first word, with the cells behind it that it runs into, and the words behind these. -/
def joined : List α → List (ℕ × List α) → List (List α)
  | first, [] => [first]
  | first, v :: cells =>
      if v.2.length < v.1 then first :: joined v.2 cells else joined (first ++ v.2) cells

end

/-- Two cells at the outer ends of their widths share the gap between them. -/
theorem padRight_append_padLeft (blank : α) (n m : ℕ) (s t : List α) :
    padRight blank n s ++ padLeft blank m t =
      s ++ padLeft blank (n - s.length + max m t.length) t := by
  have hgap : n - s.length + (m - t.length) = n - s.length + max m t.length - t.length := by omega
  rw [padRight, padLeft, padLeft, List.append_assoc, ← List.append_assoc (List.replicate _ _),
    List.replicate_append_replicate, hgap]

theorem notMem_padLeft {x blank : α} (hx : x ≠ blank) {t : List α} (ht : x ∉ t) (n : ℕ) :
    x ∉ padLeft blank n t :=
  fun h => (List.mem_append.mp h).elim (fun h => hx (List.eq_of_mem_replicate h)) ht

theorem notMem_padRight {x blank : α} (hx : x ≠ blank) {t : List α} (ht : x ∉ t) (n : ℕ) :
    x ∉ padRight blank n t :=
  fun h => (List.mem_append.mp h).elim ht fun h => hx (List.eq_of_mem_replicate h)

/-- There is a word for the first cell, and one for each cell with room. -/
theorem length_joined (first : List α) (cells : List (ℕ × List α)) :
    (joined first cells).length = 1 + cells.countP fun v => v.2.length < v.1 := by
  induction cells generalizing first with
  | nil => rfl
  | cons v cells ih =>
      rw [joined, List.countP_cons]
      split_ifs with hroom hdecide
      · rw [List.length_cons, ih]
        omega
      · exact absurd (decide_eq_true hroom) hdecide
      · exact absurd (of_decide_eq_true ‹_›) hroom
      · rw [ih]
        rfl

theorem joined_of_room {first : List α} {cells : List (ℕ × List α)}
    (h : ∀ v ∈ cells, v.2.length < v.1) : joined first cells = first :: cells.map Prod.snd := by
  induction cells generalizing first with
  | nil => rfl
  | cons v cells ih =>
      obtain ⟨hroom, htail⟩ := List.forall_mem_cons.mp h
      rw [joined, if_pos hroom, ih htail, List.map_cons]

/-! ## The reader -/

variable [DecidableEq α] {blank : α}

variable (blank) in
/-- The words of a line. -/
def words (t : List α) : List (List α) := (t.splitOn blank).filter (· ≠ [])

theorem words_append_blank (s t : List α) :
    words blank (s ++ blank :: t) = words blank s ++ words blank t := by
  rw [words, List.splitOn_append_cons_self, List.filter_append]
  rfl

theorem words_blank (t : List α) : words blank (blank :: t) = words blank t :=
  words_append_blank [] t

theorem words_replicate_append (n : ℕ) (t : List α) :
    words blank (List.replicate n blank ++ t) = words blank t := by
  induction n with
  | zero => rfl
  | succ n ih => rw [List.replicate_succ, List.cons_append, words_blank, ih]

/-- A word on its own. -/
theorem words_of_notMem {t : List α} (hne : t ≠ []) (ht : blank ∉ t) : words blank t = [t] := by
  rw [words, List.splitOn_eq_singleton ht]
  simp [hne]

/-- The words of a line of words. -/
theorem words_line {first : List α} {cells : List (ℕ × List α)} (hne : first ≠ [])
    (hfirst : blank ∉ first) (hcells : ∀ v ∈ cells, v.2 ≠ [] ∧ blank ∉ v.2) :
    words blank (line blank first cells) = joined first cells := by
  induction cells generalizing first with
  | nil =>
      rw [line, List.flatMap_nil, List.append_nil]
      exact words_of_notMem hne hfirst
  | cons v cells ih =>
      obtain ⟨hv, htail⟩ := List.forall_mem_cons.mp hcells
      rw [line, List.flatMap_cons, padLeft, joined]
      split_ifs with hroom
      · -- at least one blank stands between the cells
        obtain ⟨n, hn⟩ : ∃ n, v.1 - v.2.length = n + 1 := ⟨v.1 - v.2.length - 1, by omega⟩
        rw [hn, List.replicate_succ, List.cons_append, List.cons_append, words_append_blank,
          words_of_notMem hne hfirst, List.append_assoc, words_replicate_append]
        exact congrArg (first :: ·) (ih hv.1 hv.2 htail)
      · have hgap : v.1 - v.2.length = 0 := by omega
        rw [hgap, List.replicate_zero, List.nil_append, ← List.append_assoc]
        refine ih (fun h => hne (List.append_eq_nil_iff.mp h).1) ?_ htail
        exact fun h => (List.mem_append.mp h).elim hfirst hv.2

/-- The words of a line are its cells exactly if all cells behind the first one have room. -/
theorem words_line_eq_iff {first : List α} {cells : List (ℕ × List α)} (hne : first ≠ [])
    (hfirst : blank ∉ first) (hcells : ∀ v ∈ cells, v.2 ≠ [] ∧ blank ∉ v.2) :
    words blank (line blank first cells) = first :: cells.map Prod.snd ↔
      ∀ v ∈ cells, v.2.length < v.1 := by
  rw [words_line hne hfirst hcells]
  constructor
  · intro h
    -- there are as many words as cells
    have hlength := congrArg List.length h
    rw [length_joined, List.length_cons, List.length_map, Nat.add_comm] at hlength
    have hall := List.countP_eq_length.mp (Nat.add_right_cancel hlength)
    exact fun v hv => of_decide_eq_true (hall v hv)
  · exact joined_of_room

/-- A text of lines is read line by line, with nothing behind the last line break. -/
theorem splitOn_lines {brk : α} {lines : List (List α)} (h : ∀ l ∈ lines, brk ∉ l) :
    (lines.flatMap fun l => l ++ [brk]).splitOn brk = lines ++ [[]] := by
  induction lines with
  | nil => exact List.splitOn_nil brk
  | cons l lines ih =>
      obtain ⟨hl, htail⟩ := List.forall_mem_cons.mp h
      rw [List.flatMap_cons, List.append_assoc, List.singleton_append,
        List.splitOn_append_cons_self, List.splitOn_eq_singleton hl, ih htail]
      rfl

end AlignedColumns
