import Mathlib.Data.List.Basic
import Redcli.Support.TransitionSystem

/-!
# Comma Separated Values

A reader of comma separated values by the usual quoting rules. A field stands bare or in quotes,
where a quote is written twice, and a line ends with a line feed, which may follow a carriage
return. The reader is a transition system that takes one character at a time.

## Main results

* `run_text`: a cell is read up to the character behind it;
* `parse_text`: rows that were written are read back, cell by cell.
-/

namespace Csv

open TransitionSystem

/-! ## The reader -/

/-- Where the reader stands. -/
inductive Mode where
  /-- In front of a field. -/
  | start
  /-- In a bare field. -/
  | bare
  /-- In a field in quotes. -/
  | quoted
  /-- Behind a quote in such a field, which ends the field or is the first of two. -/
  | quote
  /-- Behind a carriage return. -/
  | cr
  deriving DecidableEq, Repr

/-- The reader, with what it has read of the field, of the row and of the table. -/
structure Reader where
  mode : Mode := .start
  field : List Char := []
  row : List (List Char) := []
  rows : List (List (List Char)) := []
  deriving DecidableEq, Repr

namespace Reader

variable (r : Reader)

/-- The end of a field. -/
def endField : Reader := { row := r.row ++ [r.field], rows := r.rows }

/-- The end of a row. -/
def endRow : Reader := { rows := r.rows ++ [r.row ++ [r.field]] }

/-- A character of the field. -/
def push (mode : Mode) (c : Char) : Reader := { r with mode := mode, field := r.field ++ [c] }

/-- What ends a field that is not in quotes; `none` for all other characters. -/
def separate : Char → Option Reader
  | ',' => some r.endField
  | '\n' => some r.endRow
  | '\r' => some { r with mode := .cr }
  | _ => none

/-- One character; `none` if it must not stand here. -/
def step (r : Reader) (c : Char) : Option Reader :=
  match r.mode with
  | .start =>
      if c = '"' then some { r with mode := .quoted } else r.separate c <|> some (r.push .bare c)
  | .bare => if c = '"' then none else r.separate c <|> some (r.push .bare c)
  | .quoted => if c = '"' then some { r with mode := .quote } else some (r.push .quoted c)
  | .quote => if c = '"' then some (r.push .quoted '"') else r.separate c
  | .cr => if c = '\n' then some r.endRow else none

/-- The end of the text. The last row need not end with a line feed. -/
def finish : Option (List (List (List Char))) :=
  match r.mode with
  | .quoted | .cr => none
  | .start => some (if r.row = [] then r.rows else r.endRow.rows)
  | .bare | .quote => some r.endRow.rows

end Reader

/-- The rows of a text with their fields; `none` if a quote is where none may be. -/
def parse (text : List Char) : Option (List (List (List Char))) :=
  (run Reader.step {} text).bind Reader.finish

example : parse "a,\"b,\"\"\"\r\n,".toList =
    some [["a".toList, "b,\"".toList], [[], []]] := by decide

/-! ## Cells -/

/-- A text that needs no quotes. -/
def IsBare (t : List Char) : Prop := ∀ c ∈ t, c ∉ [',', '"', '\n', '\r']

instance (t : List Char) : Decidable (IsBare t) := List.decidableBAll _ t

@[simp]
theorem isBare_append {t u : List Char} : IsBare (t ++ u) ↔ IsBare t ∧ IsBare u := by
  simp only [IsBare, List.mem_append, or_imp, forall_and]

/-- A field as it is written. -/
inductive Cell where
  | bare (t : List Char) (ht : IsBare t)
  | quoted (t : List Char)

namespace Cell

/-- What a field stands for. -/
def value : Cell → List Char
  | .bare t _ => t
  | .quoted t => t

/-- The text of a field. -/
def text : Cell → List Char
  | .bare t _ => t
  | .quoted t => '"' :: t.flatMap (fun c => if c = '"' then ['"', '"'] else [c]) ++ ['"']

/-- A field, in quotes only if it needs them. -/
def ofText (t : List Char) : Cell := if h : IsBare t then .bare t h else .quoted t

@[simp]
theorem value_ofText (t : List Char) : (ofText t).value = t := by
  unfold ofText
  split_ifs <;> rfl

/-- A text that needs no quotes is written as it stands. -/
theorem text_ofText {t : List Char} (ht : IsBare t) : (ofText t).text = t := by
  rw [ofText, dif_pos ht]
  rfl

/-- A text without quotes is written between two. -/
theorem text_quoted {t : List Char} (ht : '"' ∉ t) : (quoted t).text = '"' :: t ++ ['"'] := by
  have hsame : t.flatMap (fun c => if c = '"' then ['"', '"'] else [c]) = t := by
    rw [List.flatMap_congr fun c hc => if_neg (ne_of_mem_of_not_mem hc ht), List.flatMap_singleton']
  rw [text, hsame]

end Cell

/-- A row, which has a cell. -/
structure Row where
  first : Cell
  rest : List Cell

namespace Row

variable (row : Row)

/-- The cells of a row. -/
def cells : List Cell := row.first :: row.rest

/-- What the cells stand for. -/
def values : List (List Char) := row.cells.map Cell.value

/-- The text of a row. -/
def text : List Char := row.first.text ++ row.rest.flatMap (fun c => ',' :: c.text) ++ ['\n']

end Row

/-! ## Reading a cell -/

/-- Modes in which a field may end. -/
def Mode.Ends (mode : Mode) : Prop := mode = .start ∨ mode = .bare ∨ mode = .quote

variable {r : Reader}

/-- Where a field may end, a comma ends it. -/
theorem step_comma (h : r.mode.Ends) : r.step ',' = some r.endField := by
  unfold Reader.step
  rcases h with h | h | h <;> rw [h] <;> rfl

/-- Where a field may end, a line feed ends the row. -/
theorem step_lineFeed (h : r.mode.Ends) : r.step '\n' = some r.endRow := by
  unfold Reader.step
  rcases h with h | h | h <;> rw [h] <;> rfl

/-- A character that needs no quotes belongs to a bare field. -/
theorem step_bare (h : r.mode = .start ∨ r.mode = .bare) {c : Char}
    (hc : c ∉ [',', '"', '\n', '\r']) : r.step c = some (r.push .bare c) := by
  simp only [List.mem_cons, List.not_mem_nil, or_false, not_or] at hc
  obtain ⟨hcomma, hquote, hline, hcr⟩ := hc
  have hsep : r.separate c = none := by
    unfold Reader.separate
    split <;> first | contradiction | rfl
  unfold Reader.step
  rcases h with h | h <;> rw [h] <;> simp only [if_neg hquote, hsep] <;> rfl

/-- A bare text is read as it stands. -/
theorem run_bare {t : List Char} (ht : IsBare t) (h : r.mode = .start ∨ r.mode = .bare) :
    ∃ mode, mode.Ends ∧
      run Reader.step r t = some { r with mode := mode, field := r.field ++ t } := by
  induction t generalizing r with
  | nil =>
      refine ⟨r.mode, by rcases h with h | h <;> simp [Mode.Ends, h], ?_⟩
      rw [run_nil, List.append_nil]
  | cons c t ih =>
      obtain ⟨hc, ht⟩ := List.forall_mem_cons.mp ht
      obtain ⟨mode, hmode, hrun⟩ := @ih (r.push .bare c) ht (.inr rfl)
      refine ⟨mode, hmode, ?_⟩
      rw [run_cons, step_bare h hc, Option.bind_some, hrun]
      simp only [Reader.push, List.append_assoc, List.singleton_append]

/-- In quotes every quote is written twice. -/
theorem run_quoted (h : r.mode = .quoted) (t : List Char) :
    run Reader.step r (t.flatMap fun c => if c = '"' then ['"', '"'] else [c]) =
      some { r with field := r.field ++ t } := by
  induction t generalizing r with
  | nil => rw [List.flatMap_nil, run_nil, List.append_nil]
  | cons c t ih =>
      have hpush : run Reader.step r (if c = '"' then ['"', '"'] else [c]) =
          some (r.push .quoted c) := by
        split_ifs with hc
        · subst hc
          rw [run_cons, Reader.step, h]
          rfl
        · simp only [run_cons, run_nil, Reader.step, h, if_neg hc, Option.bind_some]
      rw [List.flatMap_cons, run_append, hpush, Option.bind_some, ih rfl]
      simp only [Reader.push, h, List.append_assoc, List.singleton_append]

/-- A cell is read up to the character behind it. -/
theorem run_text (cell : Cell) (row : List (List Char)) (rows : List (List (List Char))) :
    ∃ mode, mode.Ends ∧ run Reader.step { row := row, rows := rows } cell.text =
      some { mode := mode, field := cell.value, row := row, rows := rows } := by
  cases cell with
  | bare t ht => exact run_bare ht (.inl rfl)
  | quoted t =>
      refine ⟨.quote, .inr (.inr rfl), ?_⟩
      rw [Cell.text, List.cons_append, run_cons]
      show run Reader.step { mode := .quoted, row := row, rows := rows } _ = _
      rw [run_append, run_quoted rfl]
      rfl

/-! ## Reading a table -/

/-- The cells behind the first one of a row, and the end of the row. -/
theorem run_rest (h : r.mode.Ends) (rest : List Cell) :
    run Reader.step r (rest.flatMap (fun c => ',' :: c.text) ++ ['\n']) =
      some { rows := r.rows ++ [r.row ++ r.field :: rest.map Cell.value] } := by
  induction rest generalizing r with
  | nil =>
      rw [List.flatMap_nil, List.nil_append, run_cons, step_lineFeed h]
      rfl
  | cons cell rest ih =>
      obtain ⟨mode, hmode, hcell⟩ := run_text cell (r.row ++ [r.field]) r.rows
      rw [List.flatMap_cons, List.cons_append, List.cons_append, run_cons, step_comma h,
        Option.bind_some, Reader.endField, List.append_assoc, run_append, hcell, Option.bind_some,
        ih hmode, List.append_assoc]
      rfl

/-- A row is read in front of the rows behind it. -/
theorem run_row (row : Row) (rows : List (List (List Char))) :
    run Reader.step { rows := rows } row.text = some { rows := rows ++ [row.values] } := by
  obtain ⟨mode, hmode, hfirst⟩ := run_text row.first [] rows
  rw [Row.text, List.append_assoc, run_append, hfirst, Option.bind_some, run_rest hmode]
  rfl

/-- **Rows are read back.** A text of rows is read as the values of their cells. -/
theorem parse_text (rows : List Row) :
    parse (rows.flatMap Row.text) = some (rows.map Row.values) := by
  have hrun : ∀ before, run Reader.step { rows := before } (rows.flatMap Row.text) =
      some { rows := before ++ rows.map Row.values } := by
    induction rows with
    | nil => exact fun before => by rw [List.map_nil, List.append_nil]; rfl
    | cons row rows ih =>
        intro before
        rw [List.flatMap_cons, run_append, run_row, Option.bind_some, ih, List.append_assoc]
        rfl
  rw [parse, hrun]
  rfl

end Csv
