import Redcli.Config.CommandLine
import Redcli.Config.LoadConfig
import Redcli.Pipeline.Run

/-!
# Format Lists

The two ways to give the list of formats: the array `formats` of a configuration, and the
option `--formats`. Each has a scanner of its own.

## Main results

* `ints_eq_digitRuns`: the scanner of arrays collects the runs of digits;
* `parseFormats_optionText`: the option yields the list that was joined by commas;
* `formats_agree_iff`: the array yields its list, and so both ways resolve to the same codecs,
  exactly if no element is negative and no bracket in front of the array is taken for its own.
-/

namespace Redcli

open TextSearch

/-! ## The scanner of arrays -/

/-- The runs of digits in a text. -/
def digitRuns (t : Text) : List Text := (t.splitOnP fun c => !c.isDigit).filter fun r => r ≠ []

theorem digitRuns_nil : digitRuns [] = [] := by simp [digitRuns]

/-- A character that is no digit separates the runs. -/
theorem digitRuns_append_cons {c : Char} (hc : c.isDigit = false) (u w : Text) :
    digitRuns (u ++ c :: w) = digitRuns u ++ digitRuns w := by
  rw [digitRuns, List.splitOnP_append_cons _ _ (by simp [hc]), List.filter_append]
  rfl

/-- Digits are one run. -/
theorem digitRuns_digits (d : Digits) : digitRuns d.text = [d.text] := by
  have hdigits : ∀ c ∈ d.text, (!c.isDigit) = false := fun c hc => by rw [d.isDigit c hc]; rfl
  rw [digitRuns, List.splitOnP_eq_singleton hdigits]
  simp [d.ne_nil]

/-- The number that a run of digits denotes, or the largest `int`. -/
def runValue (run : Text) : ℤ := min intMax (digitsValue 10 run : ℤ)

/-- The scanner collects the numbers of the runs of digits. -/
theorem ints_eq_digitRuns (t : Text) : ints t = (digitRuns t).map runValue := by
  -- over the runs in front: a text is empty, starts with another character, or with digits
  induction hn : t.length using Nat.strong_induction_on generalizing t with
  | _ n ih =>
      subst hn
      cases t with
      | nil => rw [digitRuns_nil]; rfl
      | cons c t =>
          by_cases hc : c.isDigit = true
          · -- the digits are one run, which ends at another character or with the text
            let d : Digits := ⟨(c :: t).takeWhile Char.isDigit, by simp [hc],
              fun e he => List.mem_takeWhile_imp he⟩
            have htext : d.text ++ (c :: t).dropWhile Char.isDigit = c :: t :=
              List.takeWhile_append_dropWhile
            have hend := List.head?_dropWhile_not Char.isDigit (c :: t)
            have hvalue : atoi ((c :: t).takeWhile Char.isDigit) = runValue d.text := atoi_digits d
            rw [ints_of_isDigit hc, hvalue]
            cases hrest : (c :: t).dropWhile Char.isDigit with
            | nil =>
                rw [hrest, List.append_nil] at htext
                have hruns : digitRuns (c :: t) = [d.text] := by rw [← htext, digitRuns_digits]
                rw [hruns]
                rfl
            | cons e rest =>
                rw [hrest] at htext hend
                have hlt : rest.length < (c :: t).length := by
                  rw [← htext, List.length_append, List.length_cons]
                  omega
                have hruns : digitRuns (c :: t) = d.text :: digitRuns rest := by
                  rw [← htext, digitRuns_append_cons hend, digitRuns_digits]
                  rfl
                rw [hruns, ints_cons hend, ih _ hlt rest rfl]
                rfl
          · rw [ints_cons (by simpa using hc), ih t.length (Nat.lt_succ_self _) t rfl]
            exact congrArg _ (digitRuns_append_cons (by simpa using hc) [] t).symm

/-! ## The option -/

/-- The text that is given to `--formats`: numbers joined by commas. -/
def optionText (ls : List IntLiteral) : Text := [','].intercalate (ls.map IntLiteral.text)

/-- `std::stoi` returns the value of the text of an integer. -/
theorem stoi_text (l : IntLiteral) : stoi l.text = .ok l.value := by
  -- no white space in front, so the sign and the digits are read
  have hspace : l.text.dropWhile isSpace = l.text := by
    obtain ⟨c, t, hct⟩ := List.exists_cons_of_ne_nil l.text_ne_nil
    have hc : c ∈ l.text := hct ▸ List.mem_cons_self
    rw [hct]
    exact List.dropWhile_cons_of_neg (by simp [isSpace_of_isNumberChar (l.isNumberChar c hc)])
  rw [stoi, hspace, l.splitSign_text]
  simp only [l.digits.takeWhile]
  rw [if_neg l.digits.ne_nil]
  exact if_pos l.fits

/-- No number has a comma. -/
theorem notMem_comma (l : IntLiteral) : ',' ∉ l.text :=
  fun h => absurd (l.isNumberChar _ h) (by decide)

/-- The tokens of a list that was joined by commas. -/
theorem formatTokens_optionText (ls : List IntLiteral) :
    formatTokens (optionText ls) = ls.map IntLiteral.text := by
  rw [formatTokens, optionText]
  cases ls with
  | nil => rfl
  | cons l ls =>
      have hcomma : ∀ t ∈ (l :: ls).map IntLiteral.text, ',' ∉ t := by
        intro t ht
        obtain ⟨l', -, rfl⟩ := List.mem_map.mp ht
        exact notMem_comma l'
      -- splitting undoes joining, and no token is empty
      rw [List.splitOn_intercalate ',' hcomma (List.cons_ne_nil _ _), List.filter_eq_self]
      intro t ht
      obtain ⟨l', -, rfl⟩ := List.mem_map.mp ht
      exact decide_eq_true l'.text_ne_nil

/-- The option yields the list that was joined by commas. -/
theorem parseFormats_optionText (ls : List IntLiteral) :
    parseFormats (optionText ls) = .ok (ls.map IntLiteral.value) := by
  rw [parseFormats, formatTokens_optionText]
  induction ls with
  | nil => rfl
  | cons l ls ih =>
      rw [List.map_cons, List.mapM_cons, stoi_text, ih]
      rfl

/-- Both names of the option set the formats to the list. -/
theorem valueOption_formats {name : String} (hname : name ∈ ["--formats", "-f"])
    (ls : List IntLiteral) (options : Options) :
    valueOption name.toList (optionText ls) options =
      some (.ok { options with
        cfg := { options.cfg with formats := ls.map IntLiteral.value } }) := by
  have hfind : ∀ name ∈ ["--formats", "-f"],
      (intOptions.find? fun p => isOption name.toList p.1) = none := by decide
  have hother : ∀ name ∈ ["--formats", "-f"], isOption name.toList ["--input", "-i"] = false ∧
      isOption name.toList ["--pw"] = false ∧ isOption name.toList ["--verbose", "-v"] = false ∧
      isOption name.toList ["--formats", "-f"] = true := by decide
  obtain ⟨hinput, hpw, hverbose, hformats⟩ := hother name hname
  -- the names are found behind those of all other options
  unfold valueOption
  rw [hfind name hname]
  simp only [hinput, hpw, hverbose, hformats, parseFormats_optionText]
  rfl

/-! ## The array -/

namespace FlatObject

/-- The text between the first place where the key of a member stands in quotes and its
value. -/
def front (o : FlatObject) (pre : List Member) (m : Member) : Text :=
  o.overlooked pre m ++ textOf m.afterKey.pieces ++ ':' :: textOf m.afterColon.pieces

/-- The first bracket in front of a value is closed in front of it, and the runs of digits between
the two brackets denote these numbers. -/
def FrontArray (o : FlatObject) (pre : List Member) (m : Member) (xs : List ℤ) : Prop :=
  ∃ a t w, o.front pre m = a ++ '[' :: (t ++ ']' :: w) ∧ '[' ∉ a ∧ ']' ∉ t ∧
    (digitRuns t).map runValue = xs

end FlatObject

section Array

variable {o : FlatObject} {pre post : List Member} {m : Member} {lead : Gap}
  {items : List ArrayItem}

/-- The text behind the first bracket, up to the numbers of the array. -/
theorem jsonGetIntArray_front (h : o.members = pre ++ m :: post)
    (hvalue : m.value = .array lead items) {a r : Text} (hfront : o.front pre m = a ++ '[' :: r)
    (ha : '[' ∉ a) :
    jsonGetIntArray o.text m.key = .ok (readInts (r ++ '[' :: (textOf lead.pieces ++
      textOf (commaJoin (items.map ArrayItem.pieces)) ++ ']' :: o.tail m post))) := by
  rw [jsonGetIntArray_eq, FlatObject.bracketText_around h hvalue, ← FlatObject.front, hfront,
    List.append_assoc, List.cons_append, behind_singleton_append ha, behind_singleton_cons,
    Option.elim_some]

/-- Behind a bracket that is closed in front of the array, the getter does not see the array: the
numbers in front of the closing bracket are read. -/
theorem jsonGetIntArray_closed (h : o.members = pre ++ m :: post)
    (hvalue : m.value = .array lead items) {a t w : Text}
    (hfront : o.front pre m = a ++ '[' :: (t ++ ']' :: w)) (ha : '[' ∉ a) (ht : ']' ∉ t) :
    jsonGetIntArray o.text m.key = .ok ((digitRuns t).map runValue) := by
  rw [jsonGetIntArray_front h hvalue hfront ha, List.append_assoc, List.cons_append,
    readInts_append ht, ints_eq_digitRuns]

/-- Behind a bracket that is still open at the array, the numbers in front of the array are
read as well. -/
theorem jsonGetIntArray_open (h : o.members = pre ++ m :: post)
    (hvalue : m.value = .array lead items) (hinert : InertArray lead items) {a r : Text}
    (hfront : o.front pre m = a ++ '[' :: r) (ha : '[' ∉ a) (hclose : ']' ∉ r) :
    jsonGetIntArray o.text m.key =
      .ok (ints r ++ items.map fun i => atoi i.literal.digits.text) := by
  obtain ⟨hints, hinner⟩ := ints_array hinert
  -- the bracket of the array is one of the characters between two numbers
  have hnone : ']' ∉ r ++ '[' :: (textOf lead.pieces ++
      textOf (commaJoin (items.map ArrayItem.pieces))) := by
    simp only [List.mem_append, List.mem_cons, not_or] at hinner ⊢
    exact ⟨hclose, by decide, hinner⟩
  rw [jsonGetIntArray_front h hvalue hfront ha, ← List.cons_append, ← List.append_assoc,
    readInts_append hnone, ints_eq_digitRuns, digitRuns_append_cons (by decide), List.map_append,
    ← ints_eq_digitRuns, ← ints_eq_digitRuns, hints]

/-- The array is reached if nothing in front of it, from the first bracket on, is read. -/
private theorem arrayReached_iff_inert {a r : Text} (hfront : o.front pre m = a ++ '[' :: r)
    (ha : '[' ∉ a) : o.ArrayReached pre m ↔ Inert ('[' :: r) := by
  rw [FlatObject.ArrayReached, ← FlatObject.front, hfront, dropWhile_ne_append ha]

/-- An array that is reached has no other array in front. -/
theorem not_frontArray_of_reached (hreach : o.ArrayReached pre m) (xs : List ℤ) :
    ¬ o.FrontArray pre m xs := by
  rintro ⟨a, t, w, hfront, ha, -⟩
  exact ((arrayReached_iff_inert hfront ha).mp hreach ']' (by simp)).2 rfl

/-- A text has only one first bracket. -/
private theorem eq_of_first_bracket {a a' r r' : Text} (h : a ++ '[' :: r = a' ++ '[' :: r')
    (ha : '[' ∉ a) (ha' : '[' ∉ a') : r = r' := by
  have hbehind := congrArg (behind ['[']) h
  rwa [behind_singleton_append ha, behind_singleton_append ha', behind_singleton_cons,
    behind_singleton_cons, Option.some.injEq] at hbehind

/-- The brackets in front of a value are determined by the text. -/
private theorem frontArray_iff {a t w : Text}
    (hfront : o.front pre m = a ++ '[' :: (t ++ ']' :: w)) (ha : '[' ∉ a) (ht : ']' ∉ t)
    {xs : List ℤ} : o.FrontArray pre m xs ↔ (digitRuns t).map runValue = xs := by
  refine ⟨?_, fun hxs => ⟨a, t, w, hfront, ha, ht, hxs⟩⟩
  rintro ⟨a', t', w', hfront', ha', ht', hxs⟩
  have hinner := eq_of_first_bracket (hfront.symm.trans hfront') ha ha'
  have hbetween := congrArg (List.takeWhile fun c => c ≠ ']') hinner
  rw [takeWhile_ne_append ht, takeWhile_ne_append ht'] at hbetween
  rw [hbetween, hxs]

/-- The getter returns the array of a member exactly if it reaches the array and no element is
negative, or if it ends at other brackets that hold the same numbers. -/
theorem jsonGetIntArray_eq_iff (h : o.members = pre ++ m :: post)
    (hvalue : m.value = .array lead items) (hinert : InertArray lead items) :
    jsonGetIntArray o.text m.key = .ok (items.map fun i => i.literal.value) ↔
      (o.ArrayReached pre m ∧ ∀ i ∈ items, 0 ≤ i.literal.value) ∨
        o.FrontArray pre m (items.map fun i => i.literal.value) := by
  by_cases hreach : o.ArrayReached pre m
  · -- the digits of the elements are read
    rw [jsonGetIntArray_reached h hreach hvalue hinert, Except.ok.injEq, List.map_inj_left,
      or_iff_left (not_frontArray_of_reached hreach _), and_iff_right hreach]
    exact forall₂_congr fun i hi => atoi_digits_eq_iff i.literal
  · rw [or_iff_right fun h => hreach h.1]
    -- a bracket stands in front, with a digit or a closing bracket behind it
    have hmem : '[' ∈ o.front pre m := by
      by_contra hnot
      rw [FlatObject.ArrayReached, ← FlatObject.front, dropWhile_ne_eq_nil hnot] at hreach
      exact hreach fun c hc => absurd hc List.not_mem_nil
    obtain ⟨a, r, hfront, ha, -⟩ := exists_behind_singleton hmem
    have hiff := arrayReached_iff_inert hfront ha
    by_cases hclose : ']' ∈ r
    · obtain ⟨t, w, rfl, ht, -⟩ := exists_behind_singleton hclose
      rw [jsonGetIntArray_closed h hvalue hfront ha ht, Except.ok.injEq,
        frontArray_iff hfront ha ht]
    · rw [jsonGetIntArray_open h hvalue hinert hfront ha hclose, Except.ok.injEq]
      constructor
      · intro heq
        -- as many numbers as elements, so nothing is read in front
        have hlength := congrArg List.length heq
        rw [List.length_append, List.length_map, List.length_map] at hlength
        have hnil : ints r = [] := List.eq_nil_of_length_eq_zero (by omega)
        refine absurd (hiff.mpr fun c hc => ?_) hreach
        rcases List.mem_cons.mp hc with rfl | hc
        · exact ⟨by decide, by decide⟩
        · exact ⟨ints_eq_nil_iff.mp hnil c hc, fun hbracket => hclose (hbracket ▸ hc)⟩
      · rintro ⟨a', t, w, hfront', ha', -⟩
        have hinner := eq_of_first_bracket (hfront.symm.trans hfront') ha ha'
        exact absurd (by simp [hinner]) hclose

end Array

/-! ## Both ways -/

/-- Both ways to give a list of formats yield the list, and so the same codecs. -/
structure FormatsAgree (o : FlatObject) (xs : List ℤ) : Prop where
  /-- The array `formats` of the object. -/
  array : jsonGetIntArray o.text "formats".toList = .ok xs
  /-- The option, with the list joined by commas. -/
  option : ∀ name ∈ ["--formats", "-f"], ∀ ls : List IntLiteral, ls.map IntLiteral.value = xs →
    ∀ options, valueOption name.toList (optionText ls) options =
      some (.ok { options with cfg := { options.cfg with formats := xs } })
  /-- The codecs of a configuration that is loaded from the object are those of the option. -/
  codecs : ∀ cfg, loadConfig (some o.text) {} = .ok (true, cfg) →
    resolveFormats cfg.formats = resolveFormats xs
  /-- All six when nothing valid remains. -/
  unknown : (∀ x ∈ xs, mapFormatId x < 0) → resolveFormats xs = formatLut

/-- Everything follows from what the array yields. -/
theorem formatsAgree_iff_array {o : FlatObject} {xs : List ℤ} :
    FormatsAgree o xs ↔ jsonGetIntArray o.text "formats".toList = .ok xs := by
  refine ⟨FormatsAgree.array, fun harray => ⟨harray, ?_, ?_, ?_⟩⟩
  · rintro name hname ls rfl options
    exact valueOption_formats hname ls options
  · intro cfg hload
    obtain ⟨fmts, hfmts, hformats⟩ := (loadedFrom_of_loadConfig hload).formats
    obtain rfl := Except.ok.inj (harray.symm.trans hfmts)
    -- an empty list leaves the default, which is empty
    rw [hformats]
    split_ifs with hempty
    · rw [List.isEmpty_iff.mp hempty]
    · rfl
  · intro hunknown
    have hnone : (xs.map mapFormatId).filter (fun f => 0 ≤ f) = [] := by
      refine List.filter_eq_nil_iff.mpr fun f hf => ?_
      obtain ⟨x, hx, rfl⟩ := List.mem_map.mp hf
      simpa using hunknown x hx
    rw [resolveFormats, hnone]
    rfl

/-- For an object with an array `formats` that has no comments, both ways to give its list
agree exactly if the search for the key reaches the array and no element is negative, or if it
ends at brackets in front of the array that hold the same numbers. -/
theorem formats_agree_iff (o : FlatObject) {pre post : List Member} {m : Member}
    (h : o.members = pre ++ m :: post) (hkey : m.key = "formats".toList) {lead : Gap}
    {items : List ArrayItem} (hvalue : m.value = .array lead items)
    (hfree : ∀ t ht, .comment t ht ∉ m.value.pieces) :
    FormatsAgree o (items.map fun i => i.literal.value) ↔
      (o.ArrayReached pre m ∧ ∀ i ∈ items, 0 ≤ i.literal.value) ∨
        o.FrontArray pre m (items.map fun i => i.literal.value) := by
  have hinert := inertArray_of_commentFree (hvalue ▸ hfree)
  rw [formatsAgree_iff_array, ← hkey]
  exact jsonGetIntArray_eq_iff h hvalue hinert

/-! ## Two objects -/

/-- The object with nothing but an array `formats`. -/
def formatsObject (items : List ArrayItem) : FlatObject where
  lead := .none
  inner := .none
  members := [⟨.none, "formats".toList, .none, .none, .array .none items, .none, formatsKey_plain⟩]
  trail := .none

/-- The array `[0,\n1]`. -/
def twoFormats : List ArrayItem :=
  [⟨.none, .zero, .none⟩, ⟨.ofBlanks ['\n'] (List.all_eq_true.mp rfl), .one, .none⟩]

/-- Both ways agree on `[0,\n1]`. -/
theorem formats_agree_iff_twoFormats : FormatsAgree (formatsObject twoFormats) [0, 1] := by
  have hmembers : (formatsObject twoFormats).members = [] ++
      ⟨.none, "formats".toList, .none, .none, .array .none twoFormats, .none,
        formatsKey_plain⟩ :: [] := rfl
  have hfree : ∀ t ht, .comment t ht ∉ (Value.array .none twoFormats).pieces := by
    simp [Value.pieces, twoFormats, commaJoin, ArrayItem.pieces, Gap.none, Gap.ofBlanks, codes]
  refine (formats_agree_iff _ hmembers rfl rfl hfree).mpr (.inl ⟨?_, ?_⟩)
  · -- no bracket stands in front of the array
    have hnone : ((formatsObject twoFormats).front [] ⟨.none, "formats".toList, .none, .none,
        .array .none twoFormats, .none, formatsKey_plain⟩).dropWhile (fun c => c ≠ '[') = [] := by
      decide +kernel
    rw [FlatObject.ArrayReached, ← FlatObject.front, hnone]
    exact fun c hc => absurd hc List.not_mem_nil
  · simp only [twoFormats, List.forall_mem_cons]
    exact ⟨by decide, by decide, by simp⟩

/-- The array `[-1]`. -/
def minusOneFormat : List ArrayItem := [⟨.none, ⟨true, .one, by decide, by decide⟩, .none⟩]

/-- The array `[-1]` yields `[1]`, which is GZIP, while `--formats -1` yields `[-1]`, which is
all six. -/
theorem formats_disagree_minusOne :
    ¬ FormatsAgree (formatsObject minusOneFormat) [-1] ∧
      (formatsObject minusOneFormat).text = "\x7b\"formats\":[-1]\x7d".toList ∧
      jsonGetIntArray (formatsObject minusOneFormat).text "formats".toList = .ok [1] ∧
      parseFormats "-1".toList = .ok [-1] ∧ resolveFormats [1] = [0x7] ∧
      resolveFormats [-1] = formatLut := by
  have hread : jsonGetIntArray (formatsObject minusOneFormat).text "formats".toList = .ok [1] := by
    decide +kernel
  refine ⟨fun h => ?_, by decide, hread, by decide, by decide, by decide⟩
  have := h.array.symm.trans hread
  exact absurd this (by decide)

end Redcli
