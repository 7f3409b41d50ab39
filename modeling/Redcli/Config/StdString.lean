import Mathlib.Algebra.Field.Rat
import Redcli.Config.BenchConfig
import Redcli.Support.TextSearch

/-!
# Strings of the Standard Library

The operations of `std::string` that the configuration parser uses, and `atoi` and `atof`.
A position is `none` for `npos`.

## Main results

* `find_spec`, `searchFrom_headIs`: what a search by position finds;
* `substr_to_firstOf`: the text up to the first of some characters;
* `numeral_append_cons`: the conversions do not read past a character that no number contains.
-/

namespace Redcli

open TextSearch

/-- What ends the evaluation of a getter abnormally. -/
inductive TextFault where
  /-- Reading a character at or behind the end of a string. -/
  | read
  /-- `substr` with a start behind the end of a string, which throws. -/
  | substr
  deriving DecidableEq, Repr

/-- A position in a string, `none` for `npos`. -/
abbrev Position := Option ℕ

/-! ## Searching -/

/-- `s.find(pat, pos)`. -/
def find (s pat : Text) (pos : ℕ) : Position := searchFrom pat.isPrefixOf s pos

/-- `s.find(c, pos)`. -/
def findChar (s : Text) (c : Char) (pos : ℕ) : Position := find s [c] pos

/-- `s.find_first_of(chars, pos)`. -/
def findFirstOf (s chars : Text) (pos : ℕ) : Position :=
  searchFrom (headIs fun c => chars.contains c) s pos

/-- `s.find_first_not_of(chars, pos)`. -/
def findFirstNotOf (s chars : Text) (pos : ℕ) : Position :=
  searchFrom (headIs fun c => !chars.contains c) s pos

/-- `s[pos]`. -/
def charAt (s : Text) (pos : ℕ) : Except TextFault Char :=
  match s[pos]? with
  | some c => .ok c
  | none => .error .read

/-- `s.substr(pos, stop - pos)`, to the end of the string if `stop` is `npos`. -/
def substr (s : Text) (pos : ℕ) (stop : Position) : Except TextFault Text :=
  if s.length < pos then .error .substr
  else .ok (match stop with
    | some stop => (s.drop pos).take (stop - pos)
    | none => s.drop pos)

variable {s pat chars : Text} {c : Char} {pos i : ℕ}

/-- A pattern that is found starts inside. -/
theorem find_spec (hpos : pos ≤ s.length) :
    match find s pat pos with
    | none => behind pat (s.drop pos) = none
    | some i => i + pat.length ≤ s.length ∧ s.drop i = pat ++ s.drop (i + pat.length) ∧
        behind pat (s.drop pos) = some (s.drop (i + pat.length)) := by
  cases h : find s pat pos with
  | none => exact Option.map_eq_none_iff.mpr (searchFrom_eq_none hpos h)
  | some i =>
      obtain ⟨-, hi, hsuffix⟩ := searchFrom_eq_some h
      obtain ⟨w, hw⟩ := List.isPrefixOf_iff_prefix.mp (of_suffixAt hsuffix).1
      -- the suffix that is found starts with the pattern
      have hrest : s.drop (i + pat.length) = w := by
        rw [← List.drop_drop, ← hw, List.drop_left]
      have hlen := congrArg List.length hw
      rw [List.length_append, List.length_drop] at hlen
      refine ⟨by omega, by rw [hrest, hw], ?_⟩
      rw [behind, hsuffix, Option.map_some, List.drop_drop]

/-- A search for a character with a property finds the first one. -/
theorem searchFrom_headIs {q : Char → Bool} (hpos : pos ≤ s.length) :
    match searchFrom (headIs q) s pos with
    | none => (s.drop pos).dropWhile (fun c => !q c) = []
    | some i => pos ≤ i ∧ i < s.length ∧ (s.drop pos).dropWhile (fun c => !q c) = s.drop i := by
  cases h : searchFrom (headIs q) s pos with
  | none =>
      have hnone := searchFrom_eq_none hpos h
      rw [suffixAt_headIs] at hnone
      split_ifs at hnone with hnil
      exact hnil
  | some i =>
      obtain ⟨hle, -, hsome⟩ := searchFrom_eq_some h
      rw [suffixAt_headIs] at hsome
      split_ifs at hsome with hnil
      have heq := Option.some.inj hsome
      refine ⟨hle, ?_, heq⟩
      -- a position at the end would leave nothing to find
      by_contra hge
      exact hnil (heq.trans (List.drop_eq_nil_of_le (by omega)))

theorem charAt_of_drop {t : Text} (h : s.drop pos = c :: t) : charAt s pos = .ok c := by
  have hget : s[pos]? = some c := by
    rw [← Nat.add_zero pos, ← List.getElem?_drop, h]
    rfl
  rw [charAt, hget]

/-- The text from a position up to the first of some characters. -/
theorem substr_to_firstOf (hpos : pos ≤ s.length) :
    substr s pos (findFirstOf s chars pos) =
      .ok ((s.drop pos).takeWhile fun c => !chars.contains c) := by
  have hspec := @searchFrom_headIs s pos (fun c => chars.contains c) hpos
  have happend := (s.drop pos).takeWhile_append_dropWhile (p := fun c => !chars.contains c)
  rw [substr.eq_def, if_neg (by omega), findFirstOf]
  cases h : searchFrom (headIs fun c => chars.contains c) s pos with
  | none =>
      rw [h] at hspec
      simp only at hspec
      rw [hspec, List.append_nil] at happend
      simp only
      rw [happend]
  | some i =>
      rw [h] at hspec
      simp only at hspec
      obtain ⟨hle, hlt, hdrop⟩ := hspec
      rw [hdrop] at happend
      -- the characters in front of the position are those that are taken
      have hlen := congrArg List.length happend
      simp only [List.length_append, List.length_drop] at hlen
      simp only
      congr 1
      conv_lhs => rw [← happend]
      exact List.take_left' (by omega)

/-! ## Numbers -/

/-- `std::isspace`. -/
def isSpace (c : Char) : Bool := [' ', '\t', '\n', '\x0b', '\x0c', '\r'].contains c

/-- The characters that a number can consist of. -/
def isNumberChar (c : Char) : Bool := c.isAlphanum || ['+', '-', '.'].contains c

/-- The part of a text that `atoi` and `atof` can read: after white space, the characters
that a number can consist of. -/
def numeral (t : Text) : Text := (t.dropWhile isSpace).takeWhile isNumberChar

/-- The optional sign of a number: whether it is negative, and the rest. -/
def splitSign : Text → Bool × Text
  | '-' :: t => (true, t)
  | '+' :: t => (false, t)
  | t => (false, t)

/-- The value of a digit. -/
def digitValue (c : Char) : ℕ :=
  if c.isDigit then c.toNat - '0'.toNat else c.toLower.toNat - 'a'.toNat + 10

/-- The number that digits denote. -/
def digitsValue (base : ℕ) (ds : Text) : ℕ := ds.foldl (fun n c => base * n + digitValue c) 0

/-- A number with a sign. -/
def signed {R : Type} [Neg R] (negative : Bool) (n : R) : R := if negative then -n else n

/-- `std::atoi`; a number that does not fit becomes the nearest `int`. -/
def atoi (t : Text) : ℤ :=
  let (negative, t) := splitSign (numeral t)
  max intMin (min intMax (signed negative (digitsValue 10 (t.takeWhile Char.isDigit) : ℤ)))

/-- Whether a character is a hexadecimal digit. -/
def isHexDigit (c : Char) : Bool := c.isDigit || "abcdefABCDEF".toList.contains c

/-- A mantissa: the digits in front of and behind the point, and the rest. -/
def splitMantissa (isDig : Char → Bool) (t : Text) : Text × Text × Text :=
  match t.dropWhile isDig with
  | '.' :: u => (t.takeWhile isDig, u.takeWhile isDig, u.dropWhile isDig)
  | u => (t.takeWhile isDig, [], u)

/-- The exponent in front of a text, `0` if there is none. -/
def exponent (marks : Text) : Text → ℤ
  | c :: t =>
      if marks.contains c then
        signed (splitSign t).1 (digitsValue 10 ((splitSign t).2.takeWhile Char.isDigit) : ℤ)
      else 0
  | [] => 0

/-- The number in front of a text, with digits of a base and an exponent to a base. -/
def scanFloat (isDig : Char → Bool) (base : ℕ) (marks : Text) (expBase : ℕ) (t : Text) : ℚ :=
  let (ip, fp, rest) := splitMantissa isDig t
  if ip = [] ∧ fp = [] then 0
  else (digitsValue base (ip ++ fp) : ℚ) / base ^ fp.length * (expBase : ℚ) ^ exponent marks rest

/-- Whether a text starts with a hexadecimal mantissa. -/
def startsHex : Text → Bool
  | '0' :: x :: t =>
      ['x', 'X'].contains x &&
        decide ((splitMantissa isHexDigit t).1 ≠ [] ∨ (splitMantissa isHexDigit t).2.1 ≠ [])
  | _ => false

/-- `std::atof`. A finite value is that of its notation, where the program rounds it to the nearest
`double`, and to an infinity behind the largest one. -/
def atof (t : Text) : Double :=
  let (negative, t) := splitSign (numeral t)
  let start := (t.take 3).map Char.toLower
  if start = "inf".toList then .infinite negative
  else if start = "nan".toList then .nan
  else if startsHex t then
    .finite (signed negative (scanFloat isHexDigit 16 ['p', 'P'] 2 (t.drop 2)))
  else .finite (signed negative (scanFloat Char.isDigit 10 ['e', 'E'] 10 t))

/-- A number does not extend over a character that is no part of any number. -/
theorem numeral_append_cons (hspace : isSpace c = false) (hnumber : isNumberChar c = false)
    (u w : Text) : numeral (u ++ c :: w) = numeral u := by
  rw [numeral, dropWhile_append_cons hspace, takeWhile_append_cons hnumber, numeral]

end Redcli
