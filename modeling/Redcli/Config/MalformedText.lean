import Mathlib.Data.List.TakeWhile
import Redcli.Config.Reading

/-!
# Malformed Text

What the getters do on any text, also on one that is cut off: whether they read behind the end
of the text, or call `substr` with a start behind the end.

## Main results

* `collectInts_eq`: the loop of `json_get_int_array`, by positions, terminates, and reads
  inside the text;
* `getters_safe_iff`: the getters are safe exactly if the text does not end with white space
  behind the colon of the key.
-/

namespace Redcli

open TextSearch

/-! ## The loop over an array -/

/-- `while (i < s.size() && p(s[i])) i++;`, and the position that is reached. -/
def skipWhile (p : Char → Bool) (s : Text) (i : ℕ) : Except TextFault ℕ :=
  if h : i < s.length then do
    if p (← charAt s i) then skipWhile p s (i + 1) else pure i
  else pure i
termination_by s.length - i

/-- The loop of `json_get_int_array` from position `i` on, with the numbers that it has
collected; `none` if it takes more than `fuel` rounds. -/
def collectInts (inner : Text) : ℕ → ℕ → List ℤ → Except TextFault (Option (List ℤ))
  | 0, _, _ => pure none
  | fuel + 1, i, out =>
      if i < inner.length then do
        let i ← skipWhile (fun c => arraySeparators.contains c) inner i
        if inner.length ≤ i then pure (some out)
        else
          let j ← skipWhile Char.isDigit inner i
          -- a run of digits is a number, and any other character is skipped
          if i < j then collectInts inner fuel j (out ++ [atoi (← substr inner i (some j))])
          else collectInts inner fuel (i + 1) out
      else pure (some out)

/-- `json_get_int_array`, by positions. -/
def jsonGetIntArrayAt (fuel : ℕ) (json key : Text) : Except TextFault (Option (List ℤ)) :=
  match find json (quoted key) 0 with
  | none => pure (some [])
  | some pos =>
      match findChar json '[' (pos + (quoted key).length) with
      | none => pure (some [])
      | some pos =>
          match findChar json ']' pos with
          | none => pure (some [])
          | some stop => do
              let inner ← substr json (pos + 1) (some stop)
              collectInts inner fuel 0 []

variable {s inner json key : Text} {p : Char → Bool} {i fuel : ℕ}

/-- Skipping reads inside the text, and ends at the first character without the property. -/
theorem skipWhile_eq (hi : i ≤ s.length) :
    ∃ j, skipWhile p s i = .ok j ∧ i ≤ j ∧ j ≤ s.length ∧
      s.drop j = (s.drop i).dropWhile p ∧ (s.drop i).take (j - i) = (s.drop i).takeWhile p := by
  fun_induction skipWhile p s i with
  | case1 i h ih =>
      have hdrop := List.drop_eq_getElem_cons h
      rw [charAt_of_drop hdrop, hdrop]
      simp only [bind, Except.bind]
      -- a character with the property is passed
      by_cases hp : p s[i] = true
      · obtain ⟨j, hskip, hij, hj, hdropWhile, htakeWhile⟩ := ih h
        refine ⟨j, ?_, by omega, hj, ?_, ?_⟩
        · rw [if_pos hp, hskip]
        · rw [hdropWhile, List.dropWhile_cons_of_pos hp]
        · have hsub : j - i = (j - (i + 1)) + 1 := by omega
          rw [hsub, List.take_succ_cons, htakeWhile, List.takeWhile_cons_of_pos hp]
      · refine ⟨i, ?_, le_rfl, hi, ?_, ?_⟩
        · rw [if_neg hp]
          rfl
        · rw [hdrop, List.dropWhile_cons_of_neg hp]
        · rw [Nat.sub_self, List.take_zero, List.takeWhile_cons_of_neg hp]
  | case2 i h =>
      have hend : s.drop i = [] := List.drop_eq_nil_of_le (not_lt.mp h)
      exact ⟨i, rfl, le_rfl, hi, by rw [hend]; rfl, by simp [hend]⟩

/-- Separators hold no number. -/
theorem ints_dropWhile (t : Text) :
    ints (t.dropWhile fun c => arraySeparators.contains c) = ints t := by
  have happend := t.takeWhile_append_dropWhile (p := fun c => arraySeparators.contains c)
  conv_rhs => rw [← happend]
  exact (ints_append (fun c hc => isDigit_of_separator (List.mem_takeWhile_imp hc)) _).symm

/-- The loop collects the numbers of the text, without reading behind its end, and every round
gets closer to the end. -/
theorem collectInts_eq {out : List ℤ} (hi : i ≤ inner.length) (hfuel : inner.length - i < fuel) :
    collectInts inner fuel i out = .ok (some (out ++ ints (inner.drop i))) := by
  -- every round moves the position, so `fuel` rounds get to the end
  induction fuel generalizing i out with
  | zero => omega
  | succ fuel ih =>
      rw [collectInts]
      by_cases hlt : i < inner.length
      swap
      · rw [if_neg hlt, List.drop_eq_nil_of_le (not_lt.mp hlt)]
        simp [ints, scanInts, pure, Except.pure]
      rw [if_pos hlt]
      obtain ⟨j, hskip, hij, hj, hdrop, -⟩ :=
        @skipWhile_eq inner (fun c => arraySeparators.contains c) i hlt.le
      rw [hskip, ← ints_dropWhile, ← hdrop]
      simp only [bind, Except.bind]
      by_cases hend : inner.length ≤ j
      · rw [if_pos hend, List.drop_eq_nil_of_le hend]
        simp [ints, scanInts, pure, Except.pure]
      rw [if_neg hend]
      -- a character that is no separator: a digit, or one that is skipped
      have hcons := List.drop_eq_getElem_cons (not_le.mp hend)
      obtain ⟨k, hdigits, hjk, hk, hrest, hrun⟩ := @skipWhile_eq inner Char.isDigit j hj
      rw [hdigits]
      simp only
      by_cases hc : inner[j].isDigit = true
      -- a run of digits is one number, and the round ends behind it
      · have hjk' : j < k := by
          rcases hjk.eq_or_lt with rfl | hjk'
          · rw [hcons, List.takeWhile_cons_of_pos hc, Nat.sub_self] at hrun
            cases hrun
          · exact hjk'
        have hsubstr : substr inner j (some k) = .ok ((inner.drop j).takeWhile Char.isDigit) := by
          rw [substr.eq_def, if_neg (not_lt.mpr hj)]
          exact congrArg _ hrun
        rw [if_pos hjk', hsubstr]
        simp only
        rw [ih hk (by omega), hcons, ints_of_isDigit hc, ← hcons, hrest, List.append_assoc]
        rfl
      -- no digit, and the round ends behind the character
      · have hjk' : k = j := by
          have hlength := congrArg List.length hrest
          rw [hcons, List.dropWhile_cons_of_neg hc, ← hcons, List.length_drop,
            List.length_drop] at hlength
          omega
        rw [if_neg (by omega), ih (by omega) (by omega), hcons, ints_cons (by simpa using hc)]

/-- A part of a text is no longer than the text. -/
theorem length_of_substr {stop : Position} {t : Text} (h : substr s i stop = .ok t) :
    t.length ≤ s.length := by
  rw [substr.eq_def] at h
  split_ifs at h
  obtain rfl := Except.ok.inj h
  cases stop with
  | none =>
      simp only [List.length_drop]
      omega
  | some stop =>
      simp only [List.length_take, List.length_drop]
      omega

/-- With a round for each character the loop ends, and the getter is `json_get_int_array`. -/
theorem jsonGetIntArrayAt_eq (hfuel : json.length < fuel) :
    jsonGetIntArrayAt fuel json key = (jsonGetIntArray json key).map some := by
  unfold jsonGetIntArrayAt jsonGetIntArray
  -- the searches are the same, and what is left is the loop
  cases find json (quoted key) 0 with
  | none => rfl
  | some pos =>
      simp only
      cases findChar json '[' (pos + (quoted key).length) with
      | none => rfl
      | some pos =>
          simp only
          cases findChar json ']' pos with
          | none => rfl
          | some stop =>
              cases hinner : substr json (pos + 1) (some stop) with
              | error e => simp only [hinner]; rfl
              | ok inner =>
                  have hlength := length_of_substr hinner
                  have hloop := @collectInts_eq inner 0 fuel [] (Nat.zero_le _) (by omega)
                  rw [List.drop_zero, List.nil_append] at hloop
                  simp only [hinner]
                  exact hloop

/-! ## Safety -/

/-- Neither a character behind the end of a text is read, nor does `substr` throw. -/
def Safe {α : Type} (r : Except TextFault α) : Prop := r ≠ .error .read ∧ r ≠ .error .substr

/-- The getters are safe for a text and a key, and terminate. -/
structure GettersSafe (json key : Text) : Prop where
  str : Safe (jsonGetStr json key)
  int : ∀ dflt, Safe (jsonGetInt json key dflt)
  double : ∀ dflt, Safe (jsonGetDouble json key dflt)
  intArray : ∃ out, ∀ fuel, json.length < fuel →
    jsonGetIntArrayAt fuel json key = .ok (some out)

/-- The text ends with white space, or at once, behind the first colon behind the first place
where the key stands in quotes. -/
def ValueMissing (json key : Text) : Prop :=
  ∃ t, colonText json key = some t ∧ ∀ c ∈ t, isBlank c = true

/-- `json_get_int_array` is safe on every text. -/
theorem intArray_safe (json key : Text) :
    ∃ out, ∀ fuel, json.length < fuel → jsonGetIntArrayAt fuel json key = .ok (some out) := by
  refine ⟨(bracketText json key).elim [] readInts, fun fuel hfuel => ?_⟩
  rw [jsonGetIntArrayAt_eq hfuel, jsonGetIntArray_eq]
  rfl

/-- The search for a value reads behind the end exactly if the value is missing. -/
theorem valueText_eq_error_iff {e : TextFault} :
    valueText json key = .error e ↔ e = .read ∧ ValueMissing json key := by
  unfold valueText ValueMissing
  cases hcolon : colonText json key with
  | none => simp
  | some t =>
      simp only [Option.some.injEq, exists_eq_left', afterColon, ← List.dropWhile_eq_nil_iff]
      -- the search for the end of the white space reaches the end of the text
      by_cases hnil : t.dropWhile isBlank = []
      · rw [if_pos hnil, and_iff_left hnil, Except.error.injEq, eq_comm]
      · rw [if_neg hnil]
        split_ifs <;> simp [hnil]

/-- A getter that reads a text, if there is one, is safe exactly if the value is not missing. -/
theorem safe_bind_iff {α : Type} {f : Option Text → Except TextFault α} (hf : ∀ v, Safe (f v)) :
    Safe ((valueText json key).bind f) ↔ ¬ ValueMissing json key := by
  cases hvalue : valueText json key with
  | error e =>
      obtain ⟨rfl, hmissing⟩ := valueText_eq_error_iff.mp hvalue
      exact iff_of_false (fun h => h.1 rfl) fun h => h hmissing
  | ok v =>
      refine iff_of_true (hf v) fun hmissing => ?_
      have herror := valueText_eq_error_iff.mpr ⟨rfl, hmissing⟩
      rw [hvalue] at herror
      cases herror

theorem safe_ok {α : Type} (a : α) : Safe (Except.ok a) := ⟨by simp, by simp⟩

/-- The getters are safe for a text and a key exactly if the value is not missing: what stands
behind the colon, if the search gets to one, is not only white space. -/
theorem getters_safe_iff (json key : Text) : GettersSafe json key ↔ ¬ ValueMissing json key := by
  -- the three scalar getters share their search
  have hstr : Safe (jsonGetStr json key) ↔ ¬ ValueMissing json key := by
    rw [jsonGetStr_eq]
    exact safe_bind_iff fun v => by cases v <;> exact safe_ok _
  have hint : ∀ dflt, Safe (jsonGetInt json key dflt) ↔ ¬ ValueMissing json key := by
    intro dflt
    rw [jsonGetInt_eq]
    exact safe_bind_iff fun v => by cases v <;> exact safe_ok _
  have hdouble : ∀ dflt, Safe (jsonGetDouble json key dflt) ↔ ¬ ValueMissing json key := by
    intro dflt
    rw [jsonGetDouble_eq]
    exact safe_bind_iff fun v => by cases v <;> exact safe_ok _
  constructor
  · exact fun h => hstr.mp h.str
  · exact fun h => ⟨hstr.mpr h, fun dflt => (hint dflt).mpr h, fun dflt => (hdouble dflt).mpr h,
      intArray_safe json key⟩

/-- A configuration that is cut off behind a colon is read behind its end. -/
theorem getters_unsafe_truncated :
    ¬ GettersSafe "\x7b\"mode\":".toList "mode".toList ∧
      jsonGetInt "\x7b\"mode\":".toList "mode".toList = .error .read := by
  have hread : jsonGetInt "\x7b\"mode\":".toList "mode".toList = .error .read := by
    decide +kernel
  -- the position `npos` is read behind the colon
  exact ⟨fun h => (h.int 0).1 hread, hread⟩

end Redcli
