import Mathlib.Tactic.FieldSimp
import Mathlib.Tactic.Push
import Mathlib.Tactic.Ring
import Redcli.Config.JsonDocument

/-!
# Reading Values

What the conversions of the getters make of the text of a value, whatever stands behind it.

## Main results

* `atoi_intLiteral`, `atof_intLiteral`, `atof_decimalLiteral`: the conversions return the value
  of a literal;
* `readQuoted_strText`: the text of a string up to its first quote;
* `readInts_array`, `atoi_digits_eq_iff`: the numbers of an array, without their signs.
-/

namespace Redcli

open TextSearch

/-- A text that a number does not extend into. -/
def EndsNumber (t : Text) : Prop := ∀ c ∈ t.head?, isNumberChar c = false

section Characters

variable {c : Char}

private theorem code_le_of_isDigit (h : c.isDigit = true) : 48 ≤ c.toNat ∧ c.toNat ≤ 57 := by
  simp only [Char.isDigit, Bool.and_eq_true, decide_eq_true_eq] at h
  exact h

theorem isNumberChar_of_isDigit (h : c.isDigit = true) : isNumberChar c = true := by
  simp [isNumberChar, Char.isAlphanum, h]

theorem ne_of_isDigit (h : c.isDigit = true) {d : Char} (hd : d.isDigit = false) : c ≠ d := by
  rintro rfl
  rw [h] at hd
  cases hd

/-- A character of a number is not among others. -/
theorem contains_eq_false_of_isNumberChar (h : isNumberChar c = true) {cs : List Char}
    (hcs : cs.any isNumberChar = false) : cs.contains c = false := by
  by_contra hmem
  have hc := List.contains_iff_mem.mp (Bool.eq_true_of_not_eq_false hmem)
  exact List.any_eq_false.mp hcs c hc h

theorem isBlank_eq_false_of_isNumberChar (h : isNumberChar c = true) : isBlank c = false :=
  contains_eq_false_of_isNumberChar h (by rfl)

/-- No number starts with white space. -/
theorem isSpace_of_isNumberChar (h : isNumberChar c = true) : isSpace c = false :=
  contains_eq_false_of_isNumberChar h (by rfl)

theorem isSpace_of_isBlank (h : isBlank c = true) : isSpace c = true := by
  simp only [isBlank, blanks, List.contains_eq_mem, List.mem_cons, List.not_mem_nil, or_false,
    decide_eq_true_eq] at h
  rcases h with rfl | rfl | rfl | rfl <;> decide

theorem notMem_scalarEnds (h : isNumberChar c = true) : scalarEnds.contains c = false :=
  contains_eq_false_of_isNumberChar h (by rfl)

end Characters

/-! ## The text of a number -/

/-- The search for the end of a number keeps the number. -/
theorem scalarText_append {t : Text} (ht : ∀ c ∈ t, isNumberChar c = true) (w : Text) :
    scalarText (t ++ w) = t ++ scalarText w := by
  refine List.takeWhile_append_of_pos fun c hc => ?_
  rw [notMem_scalarEnds (ht c hc)]
  rfl

theorem endsNumber_scalarText {w : Text} (hw : EndsNumber w) : EndsNumber (scalarText w) := by
  -- a text that is cut keeps its first character, or becomes empty
  cases w with
  | nil => exact hw
  | cons d w =>
      rw [scalarText, List.takeWhile_cons]
      split_ifs
      · exact hw
      · simp [EndsNumber]

/-- A number that starts with a sign or a digit is read as a whole. -/
theorem numeral_append {t w : Text} (hne : t ≠ []) (ht : ∀ c ∈ t, isNumberChar c = true)
    (hw : EndsNumber w) : numeral (t ++ w) = t := by
  -- a sign or a digit is no white space
  have hspace : (t ++ w).dropWhile isSpace = t ++ w := by
    obtain ⟨c, t, rfl⟩ := List.exists_cons_of_ne_nil hne
    have hc : isSpace c = false := isSpace_of_isNumberChar (ht c List.mem_cons_self)
    simp [hc]
  rw [numeral, hspace]
  exact takeWhile_append_stop ht hw

/-- The sign of a number in front of its first digit. -/
theorem splitSign_signText (negative : Bool) {t : Text} (ht : ∀ c ∈ t.head?, c.isDigit = true) :
    splitSign (signText negative ++ t) = (negative, t) := by
  cases negative with
  | true => rfl
  | false =>
      cases t with
      | nil => rfl
      | cons c t =>
          have hc : c.isDigit = true := ht c rfl
          simp only [signText, Bool.false_eq_true, if_false, List.nil_append]
          unfold splitSign
          split
          case h_1 heq => exact absurd (List.cons.inj heq).1 (ne_of_isDigit hc (by decide))
          case h_2 heq => exact absurd (List.cons.inj heq).1 (ne_of_isDigit hc (by decide))
          case h_3 => rfl

theorem isNumberChar_of_mem_signText {negative : Bool} {c : Char} (h : c ∈ signText negative) :
    isNumberChar c = true := by
  cases negative with
  | false => cases h
  | true => rw [List.mem_singleton.mp h]; decide

namespace Digits

variable (d : Digits)

theorem head_isDigit (w : Text) : ∀ c ∈ (d.text ++ w).head?, c.isDigit = true := by
  obtain ⟨c, t, ht⟩ := List.exists_cons_of_ne_nil d.ne_nil
  intro e he
  rw [ht] at he
  cases he
  exact d.isDigit c (ht ▸ List.mem_cons_self)

theorem isNumberChar : ∀ c ∈ d.text, isNumberChar c = true :=
  fun c hc => isNumberChar_of_isDigit (d.isDigit c hc)

/-- Digits are taken up to the first character that is none. -/
theorem takeWhile_append {w : Text} (hw : ∀ c ∈ w.head?, c.isDigit = false) :
    (d.text ++ w).takeWhile Char.isDigit = d.text :=
  takeWhile_append_stop d.isDigit hw

/-- What stands behind the digits. -/
theorem dropWhile_append {w : Text} (hw : ∀ c ∈ w.head?, c.isDigit = false) :
    (d.text ++ w).dropWhile Char.isDigit = w :=
  dropWhile_append_stop d.isDigit hw

theorem takeWhile : d.text.takeWhile Char.isDigit = d.text := by
  simpa using d.takeWhile_append (w := []) (by simp)

end Digits

/-! ## Integers -/

namespace IntLiteral

variable (l : IntLiteral)

theorem isNumberChar : ∀ c ∈ l.text, isNumberChar c = true := by
  intro c hc
  rcases List.mem_append.mp hc with hc | hc
  · exact isNumberChar_of_mem_signText hc
  · exact l.digits.isNumberChar c hc

theorem text_ne_nil : l.text ≠ [] := List.append_ne_nil_of_right_ne_nil _ l.digits.ne_nil

theorem splitSign_text : splitSign l.text = (l.negative, l.digits.text) := by
  have hdigits := l.digits.head_isDigit []
  rw [List.append_nil] at hdigits
  exact splitSign_signText l.negative hdigits

/-- The value is that of the digits with the sign. -/
theorem value_eq : l.value = signed l.negative (digitsValue 10 l.digits.text : ℤ) := rfl

end IntLiteral

/-- `atoi` returns the value of an integer in front of a text. -/
theorem atoi_intLiteral (l : IntLiteral) {w : Text} (hw : EndsNumber w) :
    atoi (scalarText (l.text ++ w)) = l.value := by
  have hnumeral := numeral_append l.text_ne_nil l.isNumberChar (endsNumber_scalarText hw)
  rw [scalarText_append l.isNumberChar, atoi, hnumeral, l.splitSign_text]
  simp only [l.digits.takeWhile]
  -- the value is an `int`, so it is not moved to the nearest one
  have hlo : intMin ≤ l.value := l.fits.1
  have hhi : l.value ≤ intMax := l.fits.2
  rw [← l.value_eq, min_eq_right hhi, max_eq_right hlo]

/-! ## Decimals -/

private theorem toLower_of_isDigit {c : Char} (h : c.isDigit = true) : c.toLower = c := by
  have hcode := code_le_of_isDigit h
  unfold Char.toLower
  rw [dif_neg]
  rintro ⟨hge, -⟩
  have : 65 ≤ c.toNat := hge
  omega

/-- A number that starts with a digit and has no hexadecimal mark is read as a decimal. -/
private theorem atof_of_digits {t u v : Text} {negative : Bool} {c : Char}
    (hsign : splitSign (numeral t) = (negative, u)) (hu : u = c :: v) (hc : c.isDigit = true)
    (hv : ∀ d ∈ v.head?, ['x', 'X'].contains d = false) :
    atof t = .finite (signed negative (scanFloat Char.isDigit 10 ['e', 'E'] 10 u)) := by
  -- a digit begins neither a special value nor a hexadecimal mantissa
  have hstart : ∀ e es, e.isDigit = false → (u.take 3).map Char.toLower ≠ e :: es := by
    intro e es he heq
    rw [hu, List.take_succ_cons, List.map_cons, List.cons.injEq, toLower_of_isDigit hc] at heq
    exact ne_of_isDigit hc he heq.1
  have hinf : (u.take 3).map Char.toLower ≠ "inf".toList := hstart 'i' ['n', 'f'] (by decide)
  have hnan : (u.take 3).map Char.toLower ≠ "nan".toList := hstart 'n' ['a', 'n'] (by decide)
  have hhex : startsHex u = false := by
    subst hu
    unfold startsHex
    split
    case h_1 heq =>
      obtain ⟨-, rfl⟩ := List.cons.inj heq
      rw [hv _ rfl, Bool.false_and]
    case h_2 => rfl
  rw [atof, hsign]
  simp only
  rw [if_neg hinf, if_neg hnan, if_neg (by simp [hhex])]

/-- Digits behind digits. -/
theorem digitsValue_append (base : ℕ) (ds es : Text) :
    digitsValue base (ds ++ es) = digitsValue base ds * base ^ es.length + digitsValue base es := by
  -- the value in front is multiplied once for each digit behind
  have hstart : ∀ (es : Text) (n : ℕ),
      es.foldl (fun n c => base * n + digitValue c) n =
        n * base ^ es.length + es.foldl (fun n c => base * n + digitValue c) 0 := by
    intro es
    induction es with
    | nil => simp
    | cons e es ih =>
        intro n
        rw [List.foldl_cons, ih, List.foldl_cons, ih (base * 0 + digitValue e), List.length_cons,
          Nat.pow_succ]
        ring
  rw [digitsValue, List.foldl_append, hstart, digitsValue, digitsValue]

/-- The digits of a number denote it, also behind zeros. -/
theorem digitsValue_toDigits (k n : ℕ) :
    digitsValue 10 (List.replicate k '0' ++ Nat.toDigits 10 n) = n := by
  have hdigits : ∀ ds : Text, (∀ c ∈ ds, c.isDigit = true) →
      digitsValue 10 ds = Nat.ofDigitChars 10 ds 0 := by
    intro ds hds
    rw [digitsValue, Nat.ofDigitChars]
    refine List.foldl_ext _ _ _ fun n c hc => ?_
    rw [digitValue, if_pos (hds c hc)]
  rw [hdigits, Nat.ofDigitChars_append, Nat.ofDigitChars_replicate_zero, Nat.mul_zero,
    Nat.ofDigitChars_ten_toDigits]
  intro c hc
  rcases List.mem_append.mp hc with hzero | hdigit
  · obtain rfl := List.eq_of_mem_replicate hzero
    decide
  · exact Nat.isDigit_of_mem_toDigits (by decide) (by decide) hdigit

/-- The digits of a number. -/
def Digits.ofNat (n : ℕ) : Digits where
  text := Nat.toDigits 10 n
  ne_nil := Nat.toDigits_ne_nil
  isDigit := fun _ => Nat.isDigit_of_mem_toDigits (by decide) (by decide)

@[simp] theorem Digits.value_ofNat (n : ℕ) : (Digits.ofNat n).value = n :=
  digitsValue_toDigits 0 n

/-- The literal of a number. -/
def IntLiteral.ofNat (n : ℕ) (h : (n : ℤ) ≤ intMax) : IntLiteral where
  negative := false
  digits := .ofNat n
  fits := by
    rw [Digits.value_ofNat]
    exact ⟨(by decide : intMin ≤ 0).trans (Int.natCast_nonneg n), h⟩

@[simp] theorem IntLiteral.value_ofNat (n : ℕ) (h : (n : ℤ) ≤ intMax) :
    (IntLiteral.ofNat n h).value = n := by
  show ((Digits.ofNat n).value : ℤ) = n
  rw [Digits.value_ofNat]

/-- The mantissa of a decimal. -/
theorem splitMantissa_text (whole : Digits) (fraction : Option Digits) {w : Text}
    (hw : ∀ c ∈ w.head?, c.isDigit = false ∧ c ≠ '.') :
    splitMantissa Char.isDigit (whole.text ++ fraction.elim [] (fun d => '.' :: d.text) ++ w) =
      (whole.text, fraction.elim [] Digits.text, w) := by
  have hdigit : ∀ c ∈ w.head?, c.isDigit = false := fun c hc => (hw c hc).1
  -- the digits end at the point, or at what stands behind the mantissa
  cases fraction with
  | none =>
      simp only [Option.elim_none, List.append_nil, splitMantissa, whole.dropWhile_append hdigit,
        whole.takeWhile_append hdigit]
      cases w with
      | nil => rfl
      | cons c w =>
          have hc : c ≠ '.' := (hw c rfl).2
          split
          case h_1 heq => exact absurd (List.cons.inj heq).1 hc
          case h_2 => rfl
  | some d =>
      have hpoint : ∀ c ∈ ('.' :: (d.text ++ w)).head?, c.isDigit = false := by
        intro c hc
        cases hc
        decide
      simp only [Option.elim_some, List.append_assoc, List.cons_append, splitMantissa,
        whole.dropWhile_append hpoint, whole.takeWhile_append hpoint, d.takeWhile_append hdigit,
        d.dropWhile_append hdigit]

/-- The exponent of a decimal. -/
theorem exponent_text (e : Option Exponent) :
    exponent ['e', 'E'] (e.elim [] Exponent.text) = e.elim 0 Exponent.value := by
  cases e with
  | none => rfl
  | some e =>
      have hmark : ['e', 'E'].contains (if e.upper then 'E' else 'e') = true := by
        cases e.upper <;> decide
      -- no sign, a plus or a minus
      have hsign : splitSign (e.sign.elim [] (fun negative => if negative then ['-'] else ['+']) ++
          e.digits.text) = (e.sign.getD false, e.digits.text) := by
        rcases e.sign with _ | _ | _
        · have hdigits := e.digits.head_isDigit []
          rw [List.append_nil] at hdigits
          exact splitSign_signText false hdigits
        · rfl
        · rfl
      simp only [Option.elim_some, Exponent.text, exponent, if_pos hmark, hsign, Exponent.value,
        e.digits.takeWhile]
      rfl

namespace DecimalLiteral

variable (l : DecimalLiteral)

/-- The text of a decimal without its sign. -/
def body : Text :=
  l.whole.text ++ l.fraction.elim [] (fun d => '.' :: d.text) ++ l.exponent.elim [] Exponent.text

theorem text_eq : l.text = signText l.negative ++ l.body := by simp [text, body]

/-- The characters of a decimal. -/
theorem mem_body {c : Char} (h : c ∈ l.body) :
    c.isDigit = true ∨ c ∈ ['.', 'e', 'E', '+', '-'] := by
  have hdigits : ∀ d : Digits, c ∈ d.text → c.isDigit = true ∨ c ∈ ['.', 'e', 'E', '+', '-'] :=
    fun d hd => .inl (d.isDigit c hd)
  rcases List.mem_append.mp h with h | h
  · rcases List.mem_append.mp h with h | h
    · exact hdigits _ h
    · cases hfraction : l.fraction with
      | none => rw [hfraction] at h; cases h
      | some d =>
          rw [hfraction] at h
          rcases List.mem_cons.mp h with rfl | h
          · exact .inr (by decide)
          · exact hdigits _ h
  · cases hexponent : l.exponent with
    | none => rw [hexponent] at h; cases h
    | some e =>
        rw [hexponent] at h
        rcases List.mem_cons.mp h with rfl | h
        · exact .inr (by cases e.upper <;> decide)
        · rcases List.mem_append.mp h with h | h
          · right
            rcases hsign : e.sign with _ | _ | _ <;> rw [hsign] at h
            · cases h
            · rw [List.mem_singleton.mp h]; decide
            · rw [List.mem_singleton.mp h]; decide
          · exact hdigits _ h

theorem isNumberChar : ∀ c ∈ l.text, isNumberChar c = true := by
  intro c hc
  rw [text_eq] at hc
  rcases List.mem_append.mp hc with hc | hc
  · exact isNumberChar_of_mem_signText hc
  · rcases l.mem_body hc with hc | hc
    · exact isNumberChar_of_isDigit hc
    · simp only [List.mem_cons, List.not_mem_nil, or_false] at hc
      rcases hc with rfl | rfl | rfl | rfl | rfl <;> decide

theorem body_ne_nil : l.body ≠ [] :=
  List.append_ne_nil_of_left_ne_nil (List.append_ne_nil_of_left_ne_nil l.whole.ne_nil _) _

theorem splitSign_text : splitSign l.text = (l.negative, l.body) := by
  rw [text_eq]
  refine splitSign_signText l.negative ?_
  rw [body, List.append_assoc]
  exact l.whole.head_isDigit _

/-- The value of the text behind the sign. -/
theorem scanFloat_body :
    scanFloat Char.isDigit 10 ['e', 'E'] 10 l.body =
      (l.whole.value + l.fraction.elim 0 fun d => (d.value : ℚ) / 10 ^ d.text.length) *
        10 ^ l.exponent.elim 0 Exponent.value := by
  -- what stands behind the mantissa is the mark of an exponent, or nothing
  have hend : ∀ c ∈ (l.exponent.elim [] Exponent.text).head?, c.isDigit = false ∧ c ≠ '.' := by
    intro c hc
    cases hexponent : l.exponent with
    | none => rw [hexponent] at hc; cases hc
    | some e =>
        rw [hexponent] at hc
        cases hc
        cases e.upper <;> decide
  rw [scanFloat, body, splitMantissa_text l.whole l.fraction hend]
  simp only
  rw [if_neg (fun h => l.whole.ne_nil h.1), exponent_text, digitsValue_append]
  congr 1
  cases l.fraction with
  | none => simp [Digits.value, digitsValue]
  | some d =>
      have hpow : (10 : ℚ) ^ d.text.length ≠ 0 := pow_ne_zero _ (by norm_num)
      simp only [Option.elim_some, Digits.value]
      push_cast
      field_simp

end DecimalLiteral

/-- `atof` returns the value of a decimal in front of a text. -/
theorem atof_decimalLiteral (l : DecimalLiteral) {w : Text} (hw : EndsNumber w) :
    atof (scalarText (l.text ++ w)) = .finite l.value := by
  have hne : l.text ≠ [] := by
    rw [l.text_eq]
    exact List.append_ne_nil_of_right_ne_nil _ l.body_ne_nil
  obtain ⟨c, v, hbody⟩ := List.exists_cons_of_ne_nil l.body_ne_nil
  have hdigit : c.isDigit = true := by
    refine l.whole.head_isDigit (l.fraction.elim [] (fun d => '.' :: d.text) ++
      l.exponent.elim [] Exponent.text) c ?_
    rw [← List.append_assoc, ← DecimalLiteral.body, hbody]
    rfl
  -- no `x` follows the first digit
  have hmark : ∀ d ∈ v.head?, ['x', 'X'].contains d = false := by
    intro d hd
    have hmem : d ∈ l.body := by
      rw [hbody]
      exact List.mem_cons_of_mem c (List.mem_of_mem_head? hd)
    by_contra hx
    simp only [List.contains_eq_mem, List.mem_cons, List.not_mem_nil, or_false,
      Bool.not_eq_false, decide_eq_true_eq] at hx
    rcases l.mem_body hmem with h | h
    · rcases hx with rfl | rfl <;> exact absurd h (by decide)
    · rcases hx with rfl | rfl <;> exact absurd h (by decide)
  have hsign : splitSign (numeral (scalarText (l.text ++ w))) = (l.negative, l.body) := by
    rw [scalarText_append l.isNumberChar, numeral_append hne l.isNumberChar
      (endsNumber_scalarText hw), l.splitSign_text]
  rw [atof_of_digits hsign hbody hdigit hmark, l.scanFloat_body]
  rfl

/-- `atof` returns the value of an integer in front of a text. -/
theorem atof_intLiteral (l : IntLiteral) {w : Text} (hw : EndsNumber w) :
    atof (scalarText (l.text ++ w)) = .finite l.value := by
  -- an integer is a decimal without a fraction and an exponent
  have htext : l.text = DecimalLiteral.text ⟨l.negative, l.digits, none, none⟩ := by
    simp [IntLiteral.text, DecimalLiteral.text]
  have hvalue : (l.value : ℚ) = DecimalLiteral.value ⟨l.negative, l.digits, none, none⟩ := by
    cases hneg : l.negative <;>
      simp [IntLiteral.value, DecimalLiteral.value, signed, hneg]
  rw [htext, hvalue, atof_decimalLiteral _ hw]

/-! ## Strings -/

/-- A string without escapes. -/
theorem strText_of_plain {us : List StrUnit} (hus : ∀ u ∈ us, u.IsPlain) :
    '"' ∉ strText us ∧ strText us = strValue us := by
  induction us with
  | nil => exact ⟨List.not_mem_nil, rfl⟩
  | cons u us ih =>
      obtain ⟨hquote, heq⟩ := ih fun v hv => hus v (List.mem_cons_of_mem u hv)
      have hplain := hus u List.mem_cons_self
      -- only a character that stands for itself is plain
      cases u with
      | plain c h =>
          refine ⟨?_, ?_⟩
          · rintro (_ | ⟨_, hmem⟩)
            · exact h.1 rfl
            · exact hquote hmem
          · exact congrArg (c :: ·) heq
      | escape c h => exact hplain.elim
      | unicode ds h => exact hplain.elim

/-! ## Arrays -/

theorem isDigit_of_separator {c : Char} (h : arraySeparators.contains c = true) :
    c.isDigit = false := by
  simp only [arraySeparators, List.contains_eq_mem, List.mem_cons, List.not_mem_nil, or_false,
    decide_eq_true_eq] at h
  rcases h with rfl | rfl | rfl | rfl | rfl <;> decide

/-- Any bound on the number of rounds gives the numbers of a text. -/
theorem scanInts_eq {fuel fuel' : ℕ} {t : Text} (hfuel : t.length ≤ fuel)
    (hfuel' : t.length ≤ fuel') : scanInts fuel t = scanInts fuel' t := by
  have hnil : ∀ fuel, scanInts fuel [] = [] := fun fuel => by cases fuel <;> rfl
  -- every round consumes a character, so the bounds are never reached
  induction fuel generalizing fuel' t with
  | zero => rw [List.length_eq_zero_iff.mp (Nat.le_zero.mp hfuel), hnil, hnil]
  | succ fuel ih =>
      cases fuel' with
      | zero => rw [List.length_eq_zero_iff.mp (Nat.le_zero.mp hfuel'), hnil, hnil]
      | succ fuel' =>
          have hskip : (t.dropWhile fun c => arraySeparators.contains c).length ≤ t.length :=
            (List.dropWhile_suffix _).length_le
          rw [scanInts, scanInts]
          split
          case h_1 => rfl
          case h_2 c rest heq =>
            rw [heq, List.length_cons] at hskip
            split_ifs with hc
            · -- the digits are at least one character
              have hdigits : (rest.dropWhile Char.isDigit).length ≤ rest.length :=
                (List.dropWhile_suffix _).length_le
              rw [List.dropWhile_cons_of_pos hc]
              exact congrArg _ (ih (by omega) (by omega))
            · exact ih (by omega) (by omega)

/-- The numbers that the loop collects from a text. -/
def ints (t : Text) : List ℤ := scanInts t.length t

/-- A character that is no digit is skipped. -/
theorem ints_cons {c : Char} (hc : c.isDigit = false) (t : Text) : ints (c :: t) = ints t := by
  rw [ints, List.length_cons]
  -- a separator is skipped by the inner loop, any other character by a round
  by_cases hsep : arraySeparators.contains c = true
  · have hdrop : (c :: t).dropWhile (fun c => arraySeparators.contains c) =
        t.dropWhile fun c => arraySeparators.contains c := List.dropWhile_cons_of_pos hsep
    have hnext : scanInts (t.length + 1) (c :: t) = scanInts (t.length + 1) t := by
      rw [scanInts, scanInts, hdrop]
    rw [hnext]
    exact scanInts_eq (Nat.le_succ _) le_rfl
  · rw [scanInts, List.dropWhile_cons_of_neg hsep]
    simp only [hc]
    rfl

/-- Characters that are no digits are skipped. -/
theorem ints_append {u : Text} (hu : ∀ c ∈ u, c.isDigit = false) (t : Text) :
    ints (u ++ t) = ints t := by
  induction u with
  | nil => rfl
  | cons c u ih =>
      rw [List.cons_append, ints_cons (hu c List.mem_cons_self),
        ih fun d hd => hu d (List.mem_cons_of_mem c hd)]

/-- A digit starts a number, which ends with the digits. -/
theorem ints_of_isDigit {c : Char} (hc : c.isDigit = true) (t : Text) :
    ints (c :: t) = atoi ((c :: t).takeWhile Char.isDigit) ::
      ints ((c :: t).dropWhile Char.isDigit) := by
  have hsep : ¬ arraySeparators.contains c = true := fun h => by
    rw [isDigit_of_separator h] at hc
    cases hc
  have hlength : ((c :: t).dropWhile Char.isDigit).length ≤ t.length := by
    rw [List.dropWhile_cons_of_pos hc]
    exact (List.dropWhile_suffix _).length_le
  rw [ints, List.length_cons, scanInts, List.dropWhile_cons_of_neg hsep]
  simp only [hc, if_true]
  rw [scanInts_eq hlength le_rfl, ints]

/-- A run of digits is a number. -/
theorem ints_digits (d : Digits) {w : Text} (hw : ∀ c ∈ w.head?, c.isDigit = false) :
    ints (d.text ++ w) = atoi d.text :: ints w := by
  have htake := d.takeWhile_append hw
  have hdrop := d.dropWhile_append hw
  obtain ⟨c, t, ht⟩ := List.exists_cons_of_ne_nil d.ne_nil
  have hc : c.isDigit = true := d.isDigit c (ht ▸ List.mem_cons_self)
  rw [ht, List.cons_append] at htake hdrop
  rw [ht, List.cons_append, ints_of_isDigit hc, htake, hdrop]

/-- A text with a digit has a number. -/
theorem ints_ne_nil {t : Text} {c : Char} (hmem : c ∈ t) (hc : c.isDigit = true) :
    ints t ≠ [] := by
  -- the first digit of the text starts a number
  induction t with
  | nil => cases hmem
  | cons d t ih =>
      by_cases hd : d.isDigit = true
      · rw [ints_of_isDigit hd]
        exact List.cons_ne_nil _ _
      · rw [ints_cons (by simpa using hd)]
        rcases List.mem_cons.mp hmem with rfl | hmem
        · exact absurd hc hd
        · exact ih hmem

/-- A text without a digit has no number. -/
theorem ints_eq_nil_iff {t : Text} : ints t = [] ↔ ∀ c ∈ t, c.isDigit = false := by
  constructor
  · intro h c hc
    by_contra hdigit
    exact ints_ne_nil hc (by simpa using hdigit) h
  · intro h
    rw [← List.append_nil t, ints_append h]
    rfl

/-- The numbers in front of the first closing bracket. -/
theorem readInts_append {u : Text} (hu : ']' ∉ u) (w : Text) :
    readInts (u ++ ']' :: w) = ints u := by
  rw [readInts, if_pos (by simp), takeWhile_ne_append hu, ints]

/-- Characters between numbers: no digits and no closing bracket. -/
def Inert (t : Text) : Prop := ∀ c ∈ t, c.isDigit = false ∧ c ≠ ']'

/-- The gaps of an array have no digits and no closing bracket. -/
structure InertArray (lead : Gap) (items : List ArrayItem) : Prop where
  lead : Inert (textOf lead.pieces)
  items : ∀ i ∈ items, Inert (textOf i.before.pieces) ∧ Inert (textOf i.after.pieces)

/-- The digits of an element between inert gaps are a number; its sign is skipped. -/
private theorem ints_item {i : ArrayItem} (hbefore : Inert (textOf i.before.pieces))
    (hafter : Inert (textOf i.after.pieces)) {w : Text}
    (hw : ∀ c ∈ w.head?, c.isDigit = false) :
    ints (textOf i.pieces ++ w) = atoi i.literal.digits.text :: ints w := by
  have hsign : ∀ c ∈ signText i.literal.negative, c.isDigit = false := by
    cases i.literal.negative <;> simp [signText]
  -- the digits end at the gap behind them, or at what follows the element
  have hend : ∀ c ∈ (textOf i.after.pieces ++ w).head?, c.isDigit = false := by
    intro c hc
    cases hgap : textOf i.after.pieces with
    | nil =>
        rw [hgap] at hc
        exact hw c hc
    | cons d t =>
        rw [hgap] at hc
        obtain rfl : d = c := by simpa using hc
        exact (hafter d (hgap ▸ List.mem_cons_self)).1
  rw [ArrayItem.pieces, textOf_append, textOf_append, textOf_codes, IntLiteral.text]
  simp only [List.append_assoc]
  rw [ints_append fun c hc => (hbefore c hc).1, ints_append hsign, ints_digits _ hend,
    ints_append fun c hc => (hafter c hc).1]

/-- There is no closing bracket in an element. -/
private theorem notMem_item {i : ArrayItem} (hbefore : Inert (textOf i.before.pieces))
    (hafter : Inert (textOf i.after.pieces)) : ']' ∉ textOf i.pieces := by
  simp only [ArrayItem.pieces, textOf_append, textOf_codes, List.mem_append, not_or]
  refine ⟨⟨fun h => (hbefore _ h).2 rfl, fun h => ?_⟩, fun h => (hafter _ h).2 rfl⟩
  exact absurd (i.literal.isNumberChar _ h) (by decide)

/-- The numbers of the elements behind the first one. -/
private theorem ints_items {items : List ArrayItem}
    (hgaps : ∀ i ∈ items, Inert (textOf i.before.pieces) ∧ Inert (textOf i.after.pieces))
    {rest : Text}
    (hrest : rest = textOf ((items.map ArrayItem.pieces).flatMap fun l => .code ',' :: l)) :
    ints rest = items.map (fun i => atoi i.literal.digits.text) ∧ ']' ∉ rest ∧
      ∀ c ∈ rest.head?, c.isDigit = false := by
  -- over the elements, with the head of what follows as part of the invariant
  induction items generalizing rest with
  | nil =>
      subst hrest
      exact ⟨rfl, List.not_mem_nil, by simp⟩
  | cons i items ih =>
      obtain ⟨hbefore, hafter⟩ := hgaps i List.mem_cons_self
      obtain ⟨hints, hclose, hhead⟩ := ih (fun j hj => hgaps j (List.mem_cons_of_mem i hj)) rfl
      rw [List.map_cons, List.flatMap_cons, textOf_append, textOf_cons] at hrest
      subst hrest
      refine ⟨?_, ?_, fun c hc => ?_⟩
      · rw [Piece.text, List.singleton_append, List.cons_append, ints_cons (by decide),
          ints_item hbefore hafter hhead, hints, List.map_cons]
      · simp only [Piece.text, List.mem_append, List.mem_singleton, not_or]
        exact ⟨⟨by decide, notMem_item hbefore hafter⟩, hclose⟩
      · cases hc
        decide

/-- The text between the brackets of an array, and the numbers that the loop collects. -/
theorem ints_array {lead : Gap} {items : List ArrayItem} (hinert : InertArray lead items) :
    ints (textOf lead.pieces ++ textOf (commaJoin (items.map ArrayItem.pieces))) =
        items.map (fun i => atoi i.literal.digits.text) ∧
      ']' ∉ textOf lead.pieces ++ textOf (commaJoin (items.map ArrayItem.pieces)) := by
  have hlead : ']' ∉ textOf lead.pieces := fun h => (hinert.lead _ h).2 rfl
  -- the first element stands behind the gap of the bracket, the others behind commas
  cases items with
  | nil =>
      rw [List.map_nil, commaJoin, textOf_nil, List.append_nil]
      exact ⟨ints_eq_nil_iff.mpr fun c hc => (hinert.lead c hc).1, hlead⟩
  | cons i items =>
      obtain ⟨hbefore, hafter⟩ := hinert.items i List.mem_cons_self
      obtain ⟨hints, hclose, hhead⟩ := ints_items
        (fun j hj => hinert.items j (List.mem_cons_of_mem i hj)) rfl
      rw [ints_append fun c hc => (hinert.lead c hc).1, List.map_cons, commaJoin, textOf_append,
        ints_item hbefore hafter hhead, hints, List.map_cons]
      simp only [List.mem_append, not_or]
      exact ⟨trivial, hlead, notMem_item hbefore hafter, hclose⟩

/-- `atoi` of digits. -/
theorem atoi_digits (d : Digits) : atoi d.text = min intMax (d.value : ℤ) := by
  have hnumeral := numeral_append d.ne_nil d.isNumberChar (w := []) (by simp [EndsNumber])
  have hsign := splitSign_signText false (d.head_isDigit [])
  rw [List.append_nil] at hnumeral hsign
  rw [atoi, hnumeral]
  simp only [signText, Bool.false_eq_true, if_false, List.nil_append] at hsign
  simp only [hsign, d.takeWhile]
  refine max_eq_right (le_min (by decide) ?_)
  exact (by decide : intMin ≤ 0).trans (Int.natCast_nonneg _)

/-- The digits of an element are its value exactly if it is not negative. -/
theorem atoi_digits_eq_iff (l : IntLiteral) : atoi l.digits.text = l.value ↔ 0 ≤ l.value := by
  -- the digits are read without their sign
  have hfits := l.fits
  rw [atoi_digits, IntLiteral.value]
  cases hneg : l.negative with
  | false =>
      rw [hneg] at hfits
      simp only [signed, Bool.false_eq_true, if_false, intMin, intMax] at hfits ⊢
      omega
  | true =>
      simp only [signed, if_true, intMax]
      omega

end Redcli
