import Redcli.Config.Reading

/-!
# Key Lookup

When the getters return the value of the member with the key that they are called for, and
their default if no member has the key.

The search for a key finds the first place where the key stands between two quotes, which can
be a string value, or the text between two strings. The text behind that place and in front of
the key of the member is overlooked: the search for the colon, or for the bracket, starts in
it.

## Main results

* `answers_of_reached`: the getter returns the value of a member that the search reaches;
* `read_overlooked`: a colon in the overlooked text makes the result independent of the value;
* `lookup_correct_iff`: lookup is correct for every value of the member exactly if the search
  reaches it.
-/

namespace Redcli

open TextSearch

/-! ## The search for a value -/

section Search

variable {key H R G X X' : Text}

/-- The search reaches the colon if no colon is overlooked. -/
theorem colonText_reached (hR : behind (quoted key) H = some R) (hclear : ':' ∉ R ++ G)
    (X : Text) : colonText (H ++ G ++ ':' :: X) key = some X := by
  -- behind the key neither `R` nor `G` has a colon
  rw [colonText, List.append_assoc, behind_append hR, Option.bind_some, ← List.append_assoc,
    behind_singleton_append hclear, behind_singleton_cons]

/-- The search ends at a colon that is overlooked. -/
theorem colonText_overlooked (hR : behind (quoted key) H = some R) (hmem : ':' ∈ R ++ G) :
    ∃ r, ∀ X, colonText (H ++ G ++ ':' :: X) key = some (r ++ ':' :: X) := by
  obtain ⟨a, r, heq, ha, -⟩ := exists_behind_singleton hmem
  refine ⟨r, fun X => ?_⟩
  rw [colonText, List.append_assoc, behind_append hR, Option.bind_some, ← List.append_assoc, heq,
    List.append_assoc, behind_singleton_append ha, List.cons_append, behind_singleton_cons]

/-- A comment behind white space is skipped up to the end of its line. -/
theorem afterColon_line {t u : Text} (hdrop : t.dropWhile isBlank = u) (h : ['/', '/'] <+: u) :
    afterColon t = .ok (lineEnd u) := by
  have hne : u ≠ [] := by
    rintro rfl
    exact absurd h (by decide)
  rw [afterColon, hdrop, if_neg hne, if_pos h]

/-- Any other text behind white space is the text of the value. -/
theorem afterColon_start {t u : Text} (hdrop : t.dropWhile isBlank = u) (hne : u ≠ [])
    (h : ¬ ['/', '/'] <+: u) : afterColon t = .ok (some u) := by
  rw [afterColon, hdrop, if_neg hne, if_neg h]

/-- A value behind white space. -/
theorem afterColon_value {c : Char} {t : Text} (hG : ∀ c ∈ G, isBlank c = true)
    (hblank : isBlank c = false) (hslash : c ≠ '/') :
    afterColon (G ++ c :: t) = .ok (some (c :: t)) := by
  have hdrop : (G ++ c :: t).dropWhile isBlank = c :: t := by
    rw [List.dropWhile_append_of_pos hG, List.dropWhile_cons_of_neg (by simp [hblank])]
  have hcomment : ¬ ['/', '/'] <+: c :: t := by
    rintro ⟨w, hw⟩
    exact hslash (List.cons.inj hw).1.symm
  exact afterColon_start hdrop (List.cons_ne_nil c t) hcomment

/-- The text between an overlooked colon and the colon of the member decides what is read. -/
theorem afterColon_overlooked (r : Text) :
    ∃ u, (∀ X, afterColon (r ++ ':' :: X) = .ok (some (u ++ ':' :: X))) ∨
      ∀ X, afterColon (r ++ ':' :: X) = .ok (lineEnd (u ++ ':' :: X)) := by
  have hdrop : ∀ X, (r ++ ':' :: X).dropWhile isBlank = r.dropWhile isBlank ++ ':' :: X :=
    fun X => dropWhile_append_cons (by decide) r X
  -- the colon of the member ends any `//` in front of it
  have hfront : ∀ u X : Text, ['/', '/'] <+: u ++ ':' :: X ↔ ['/', '/'] <+: u := by
    intro u X
    rcases u with _ | ⟨c, _ | ⟨d, u⟩⟩ <;> simp [List.cons_prefix_cons]
  refine ⟨r.dropWhile isBlank, ?_⟩
  by_cases hcomment : ['/', '/'] <+: r.dropWhile isBlank
  · right
    exact fun X => afterColon_line (hdrop X) ((hfront _ X).mpr hcomment)
  · left
    exact fun X => afterColon_start (hdrop X) (by simp) (mt (hfront _ X).mp hcomment)

theorem lineEnd_eq_none_iff {t : Text} : lineEnd t = none ↔ '\n' ∉ t := by
  rw [lineEnd, Option.map_eq_none_iff, behind_singleton_eq_none_iff]

theorem lineEnd_eq_some {t : Text} (h : '\n' ∈ t) : ∃ w, lineEnd t = some ('\n' :: w) := by
  obtain ⟨a, w, -, -, hbehind⟩ := exists_behind_singleton h
  exact ⟨w, by rw [lineEnd, hbehind, Option.map_some]⟩

/-- What is read behind the end of a line depends on whether there is one. -/
theorem elim_lineEnd_congr {α : Type} {t t' : Text} (hmem : '\n' ∈ t ↔ '\n' ∈ t')
    {f : Text → Except TextFault α} (dflt : Except TextFault α)
    (hline : ∀ w w', f ('\n' :: w) = f ('\n' :: w')) :
    (lineEnd t).elim dflt f = (lineEnd t').elim dflt f := by
  by_cases h : '\n' ∈ t
  · obtain ⟨w, hw⟩ := lineEnd_eq_some h
    obtain ⟨w', hw'⟩ := lineEnd_eq_some (hmem.mp h)
    rw [hw, hw']
    exact hline w w'
  · rw [lineEnd_eq_none_iff.mpr h, lineEnd_eq_none_iff.mpr (mt hmem.mpr h)]

/-- With a colon overlooked, what is read does not depend on the text behind the colon of the
member. -/
theorem read_overlooked {α : Type} (f : Text → Except TextFault α) {dflt : Except TextFault α}
    (hR : behind (quoted key) H = some R) (hmem : ':' ∈ R ++ G)
    (hcolon : ∀ u, f (u ++ ':' :: X) = f (u ++ ':' :: X'))
    (hend : ∀ w w', f ('\n' :: w) = f ('\n' :: w'))
    (hline : ('\n' ∈ X ↔ '\n' ∈ X') ∨ ∀ w, f ('\n' :: w) = dflt) :
    ((valueText (H ++ G ++ ':' :: X) key).bind fun v => v.elim dflt f) =
      (valueText (H ++ G ++ ':' :: X') key).bind fun v => v.elim dflt f := by
  obtain ⟨r, hr⟩ := colonText_overlooked hR hmem
  obtain ⟨u, hu | hu⟩ := afterColon_overlooked r
  · simp only [valueText, hr, hu, Except.bind, Option.elim_some, hcolon]
  · -- the search ends behind a comment line that starts in the overlooked text
    simp only [valueText, hr, hu, Except.bind]
    -- a getter that returns its default for the rest of a line as well
    have hdefault : ∀ X : Text, (∀ w, f ('\n' :: w) = dflt) →
        (lineEnd (u ++ ':' :: X)).elim dflt f = dflt := by
      intro X h
      by_cases hX : '\n' ∈ u ++ ':' :: X
      · obtain ⟨w, hw⟩ := lineEnd_eq_some hX
        rw [hw, Option.elim_some, h]
      · rw [lineEnd_eq_none_iff.mpr hX, Option.elim_none]
    rcases hline with hline | hline
    · exact elim_lineEnd_congr (by simp [hline]) dflt hend
    · rw [hdefault X hline, hdefault X' hline]

end Search

/-! ## What the conversions do not see -/

/-- A number does not extend over a colon. -/
theorem numeral_scalarText_colon (u X : Text) :
    numeral (scalarText (u ++ ':' :: X)) = numeral (scalarText u) := by
  -- an end of the number in `u` hides the colon, or the colon is the end
  by_cases hend : ∃ c ∈ u, scalarEnds.contains c = true
  · obtain ⟨c, hc, hcend⟩ := hend
    obtain ⟨a, b, rfl⟩ := List.append_of_mem hc
    have hstop : (!scalarEnds.contains c) = false := by rw [hcend]; rfl
    rw [List.append_assoc, List.cons_append, scalarText, scalarText,
      takeWhile_append_cons (q := fun c => !scalarEnds.contains c) hstop,
      takeWhile_append_cons (q := fun c => !scalarEnds.contains c) hstop]
  · have hall : ∀ c ∈ u, (!scalarEnds.contains c) = true := by
      intro c hc
      rw [Bool.not_eq_true']
      by_contra hcend
      exact hend ⟨c, hc, by simpa using hcend⟩
    have htake : ∀ w, scalarText (u ++ w) = u ++ scalarText w :=
      fun w => List.takeWhile_append_of_pos hall
    have hself := htake []
    rw [List.append_nil] at hself
    have hcolon : scalarText (':' :: X) = ':' :: scalarText X :=
      List.takeWhile_cons_of_pos (by decide)
    rw [htake, hcolon, numeral_append_cons (by decide) (by decide), hself, scalarText,
      List.takeWhile_nil, List.append_nil]

theorem atoi_congr {t u : Text} (h : numeral t = numeral u) : atoi t = atoi u := by
  rw [atoi, h, atoi]

theorem atof_congr {t u : Text} (h : numeral t = numeral u) : atof t = atof u := by
  rw [atof, h, atof]

/-- The string in front of a text ends at the next quote. -/
theorem readQuoted_append {a : Text} (ha : a ≠ []) (Y Y' : Text) :
    readQuoted (a ++ '"' :: Y) = readQuoted (a ++ '"' :: Y') := by
  obtain ⟨c, a, rfl⟩ := List.exists_cons_of_ne_nil ha
  -- a string ends at the quote at the latest, and anything else is no string
  by_cases hc : c = '"'
  · subst hc
    rw [List.cons_append, List.cons_append, readQuoted, readQuoted, if_pos (by simp),
      if_pos (by simp), takeWhile_append_cons (by decide), takeWhile_append_cons (by decide)]
  · have hnone : ∀ w, readQuoted (c :: w) = [] := by
      intro w
      rw [readQuoted]
      rintro t heq
      exact hc (List.cons.inj heq).1
    rw [List.cons_append, List.cons_append, hnone, hnone]

/-! ## Members -/

namespace FlatObject

/-- The text up to the end of the key of a member. -/
def head (o : FlatObject) (pre : List Member) (m : Member) : Text :=
  o.textBefore pre ++ textOf m.lead.pieces ++ quoted m.key

/-- The text behind the value of a member. -/
def tail (o : FlatObject) (m : Member) (post : List Member) : Text :=
  textOf m.afterValue.pieces ++ o.textAfter post

/-- The text between the first place where the key of a member stands in quotes and the end of
the key. -/
def overlooked (o : FlatObject) (pre : List Member) (m : Member) : Text :=
  (behind (quoted m.key) (o.head pre m)).getD []

/-- The search for the key of a member with a scalar value reaches the value: there is no colon
in the overlooked text, and no comment in the way. -/
def ScalarReached (o : FlatObject) (pre : List Member) (m : Member) : Prop :=
  ':' ∉ o.overlooked pre m ++ textOf m.afterKey.pieces ∧
    ∀ t ht, Piece.comment t ht ∉ m.afterColon.pieces

/-- The search for the key of a member with an array reads the array: behind a bracket in the
overlooked text there are no digits and no closing bracket. -/
def ArrayReached (o : FlatObject) (pre : List Member) (m : Member) : Prop :=
  Inert ((o.overlooked pre m ++ textOf m.afterKey.pieces ++
    ':' :: textOf m.afterColon.pieces).dropWhile fun c => c ≠ '[')

variable {o : FlatObject} {pre post : List Member} {m : Member}

/-- The text of an object around the value of one of its members. -/
theorem text_around (h : o.members = pre ++ m :: post) :
    o.text = o.head pre m ++ textOf m.afterKey.pieces ++ ':' ::
      (textOf m.afterColon.pieces ++ (textOf m.value.pieces ++ o.tail m post)) := by
  rw [text_eq h, Member.pieces, head, tail]
  simp [Piece.text]

theorem behind_head (o : FlatObject) (pre : List Member) (m : Member) :
    behind (quoted m.key) (o.head pre m) = some (o.overlooked pre m) := by
  obtain ⟨r, hr⟩ := exists_behind_append (o.textBefore pre ++ textOf m.lead.pieces) (quoted m.key)
  rw [overlooked, head, hr, Option.getD_some]

/-- The search for a bracket, up to the array of a member. -/
theorem bracketText_around (h : o.members = pre ++ m :: post) {lead : Gap}
    {items : List ArrayItem} (hvalue : m.value = .array lead items) :
    bracketText o.text m.key =
      behind ['['] (o.overlooked pre m ++ textOf m.afterKey.pieces ++
        ':' :: textOf m.afterColon.pieces ++ '[' ::
          (textOf lead.pieces ++ textOf (commaJoin (items.map ArrayItem.pieces)) ++
            ']' :: o.tail m post)) := by
  have harray : textOf m.value.pieces ++ o.tail m post = '[' :: (textOf lead.pieces ++
      textOf (commaJoin (items.map ArrayItem.pieces)) ++ ']' :: o.tail m post) := by
    simp [hvalue, Value.pieces, Piece.text]
  rw [bracketText, text_around h, List.append_assoc, behind_append (o.behind_head pre m),
    Option.bind_some, harray]
  simp only [List.append_assoc, List.cons_append]

/-- A number ends with its literal. -/
theorem endsNumber_tail (o : FlatObject) (m : Member) (post : List Member) :
    EndsNumber (o.tail m post) := by
  intro c hc
  obtain ⟨d, t, ht, hd⟩ := o.textAfter_eq post
  rw [tail, ht] at hc
  -- white space, a comment, a comma or a brace
  cases hgap : m.afterValue.pieces with
  | nil =>
      rw [hgap] at hc
      cases hc
      rcases hd with rfl | rfl <;> decide
  | cons p ps =>
      rw [hgap] at hc
      cases p with
      | code e =>
          obtain rfl : e = c := by simpa [Piece.text] using hc
          have hblank : isBlank e = true := m.afterValue.blank e (hgap ▸ List.mem_cons_self)
          by_contra hnumber
          rw [isBlank_eq_false_of_isNumberChar (by simpa using hnumber)] at hblank
          cases hblank
      | comment t ht =>
          cases hc
          decide

/-- The text that a scalar getter reads for a member that is reached. -/
theorem valueText_reached (h : o.members = pre ++ m :: post) (hreach : o.ScalarReached pre m)
    {c : Char} {t : Text} (hvalue : textOf m.value.pieces = c :: t) (hblank : isBlank c = false)
    (hslash : c ≠ '/') :
    valueText o.text m.key = .ok (some (textOf m.value.pieces ++ o.tail m post)) := by
  have hgap : ∀ d ∈ textOf m.afterColon.pieces, isBlank d = true := fun d hd =>
    Gap.isBlank_of_mem_text hreach.2 hd
  rw [valueText, text_around h, colonText_reached (o.behind_head pre m) hreach.1, hvalue]
  exact afterColon_value hgap hblank hslash

end FlatObject

/-- The first character of a number. -/
theorem exists_cons_of_number {t : Text} (hne : t ≠ []) (ht : ∀ c ∈ t, isNumberChar c = true) :
    ∃ c w, t = c :: w ∧ isBlank c = false ∧ c ≠ '/' := by
  obtain ⟨c, w, rfl⟩ := List.exists_cons_of_ne_nil hne
  have hc := ht c List.mem_cons_self
  refine ⟨c, w, rfl, isBlank_eq_false_of_isNumberChar hc, ?_⟩
  rintro rfl
  exact absurd hc (by decide)

theorem DecimalLiteral.text_ne_nil (l : DecimalLiteral) : l.text ≠ [] := by
  rw [l.text_eq]
  exact List.append_ne_nil_of_right_ne_nil _ l.body_ne_nil

section Reached

variable {o : FlatObject} {pre post : List Member} {m : Member}

/-- `json_get_int` for a member that is reached. -/
theorem jsonGetInt_reached (h : o.members = pre ++ m :: post) (hreach : o.ScalarReached pre m)
    {l : IntLiteral} (hvalue : m.value = .int l) (dflt : ℤ) :
    jsonGetInt o.text m.key dflt = .ok l.value := by
  have htext : textOf m.value.pieces = l.text := by rw [hvalue, Value.pieces, textOf_codes]
  obtain ⟨c, t, hct, hblank, hslash⟩ := exists_cons_of_number l.text_ne_nil l.isNumberChar
  rw [jsonGetInt_eq, FlatObject.valueText_reached h hreach (htext.trans hct) hblank hslash, htext]
  simp only [Except.bind, Option.elim_some, atoi_intLiteral l (o.endsNumber_tail m post)]

/-- `json_get_double` for an integer that is reached. -/
theorem jsonGetDouble_reached_int (h : o.members = pre ++ m :: post)
    (hreach : o.ScalarReached pre m) {l : IntLiteral} (hvalue : m.value = .int l) (dflt : Double) :
    jsonGetDouble o.text m.key dflt = .ok (.finite l.value) := by
  have htext : textOf m.value.pieces = l.text := by rw [hvalue, Value.pieces, textOf_codes]
  obtain ⟨c, t, hct, hblank, hslash⟩ := exists_cons_of_number l.text_ne_nil l.isNumberChar
  rw [jsonGetDouble_eq, FlatObject.valueText_reached h hreach (htext.trans hct) hblank hslash,
    htext]
  simp only [Except.bind, Option.elim_some, atof_intLiteral l (o.endsNumber_tail m post)]

/-- `json_get_double` for a decimal that is reached. -/
theorem jsonGetDouble_reached (h : o.members = pre ++ m :: post)
    (hreach : o.ScalarReached pre m) {l : DecimalLiteral} (hvalue : m.value = .decimal l)
    (dflt : Double) : jsonGetDouble o.text m.key dflt = .ok (.finite l.value) := by
  have htext : textOf m.value.pieces = l.text := by rw [hvalue, Value.pieces, textOf_codes]
  obtain ⟨c, t, hct, hblank, hslash⟩ := exists_cons_of_number l.text_ne_nil l.isNumberChar
  rw [jsonGetDouble_eq, FlatObject.valueText_reached h hreach (htext.trans hct) hblank hslash,
    htext]
  simp only [Except.bind, Option.elim_some, atof_decimalLiteral l (o.endsNumber_tail m post)]

/-- `json_get_str` for a member that is reached: the text up to the first quote. -/
theorem jsonGetStr_reached (h : o.members = pre ++ m :: post) (hreach : o.ScalarReached pre m)
    {us : List StrUnit} (hvalue : m.value = .str us) :
    jsonGetStr o.text m.key = .ok ((strText us).takeWhile fun c => c ≠ '"') := by
  have htext : textOf m.value.pieces = '"' :: (strText us ++ ['"']) := by
    rw [hvalue, Value.pieces, textOf_codes, List.cons_append]
  rw [jsonGetStr_eq, FlatObject.valueText_reached h hreach htext (by decide) (by decide), htext]
  simp only [Except.bind, Option.elim_some, List.cons_append, List.append_assoc, readQuoted]
  rw [if_pos (by simp)]
  exact congrArg _ (takeWhile_append_cons (by decide) _ _)

/-- `json_get_int_array` for a member that is reached: the numbers without their signs. -/
theorem jsonGetIntArray_reached (h : o.members = pre ++ m :: post)
    (hreach : o.ArrayReached pre m) {lead : Gap} {items : List ArrayItem}
    (hvalue : m.value = .array lead items) (hinert : InertArray lead items) :
    jsonGetIntArray o.text m.key = .ok (items.map fun i => atoi i.literal.digits.text) := by
  obtain ⟨hints, hclose⟩ := ints_array hinert
  rw [jsonGetIntArray_eq, FlatObject.bracketText_around h hvalue]
  rw [FlatObject.ArrayReached] at hreach
  by_cases hmem : '[' ∈ o.overlooked pre m ++ textOf m.afterKey.pieces ++
      ':' :: textOf m.afterColon.pieces
  · -- the search ends at a bracket in front, and nothing up to the array is read
    obtain ⟨a, r, heq, ha, -⟩ := exists_behind_singleton hmem
    rw [heq, dropWhile_ne_append ha] at hreach
    have hr : ∀ c ∈ r, c.isDigit = false ∧ c ≠ ']' :=
      fun c hc => hreach c (List.mem_cons_of_mem '[' hc)
    rw [heq, List.append_assoc, List.cons_append, behind_singleton_append ha,
      behind_singleton_cons, Option.elim_some, ← List.cons_append, ← List.append_assoc,
      readInts_append, ints_append fun c hc => (hr c hc).1, ints_cons (by decide), hints]
    simp only [List.mem_append, List.mem_cons, not_or]
    exact ⟨fun h => (hr _ h).2 rfl, by decide, by simpa using hclose⟩
  · rw [behind_singleton_append hmem, behind_singleton_cons, Option.elim_some,
      readInts_append hclose, hints]

end Reached

/-! ## Correct lookup -/

/-- The getters of the kind of a value return the value, whatever their default. -/
def Answers (text key : Text) : Value → Prop
  | .int l => (∀ dflt, jsonGetInt text key dflt = .ok l.value) ∧
      ∀ dflt, jsonGetDouble text key dflt = .ok (.finite l.value)
  | .decimal l => ∀ dflt, jsonGetDouble text key dflt = .ok (.finite l.value)
  | .str us => jsonGetStr text key = .ok (strValue us)
  | .array _ items => jsonGetIntArray text key = .ok (items.map fun i => i.literal.value)

/-- All getters return their default. -/
structure Defaults (text key : Text) : Prop where
  str : jsonGetStr text key = .ok []
  int : ∀ dflt, jsonGetInt text key dflt = .ok dflt
  double : ∀ dflt, jsonGetDouble text key dflt = .ok dflt
  intArray : jsonGetIntArray text key = .ok []

/-- The object with another value for one of its members. -/
def FlatObject.setValue (o : FlatObject) (pre : List Member) (m : Member) (v : Value)
    (post : List Member) : FlatObject :=
  { o with members := pre ++ { m with value := v } :: post }

/-- Lookup of a key is correct, whatever the value of the member with the key. -/
structure LookupCorrect (o : FlatObject) (key : Text) : Prop where
  present : ∀ pre m post, o.members = pre ++ m :: post → m.key = key →
    ∀ v : Value, v.SameKind m.value → v.Simple → Answers (o.setValue pre m v post).text key v
  absent : (∀ m ∈ o.members, m.key ≠ key) → Defaults o.text key

/-- The search for the key of a member reaches its value. -/
def FlatObject.Reached (o : FlatObject) (pre : List Member) (m : Member) : Prop :=
  match m.value with
  | .array _ _ => o.ArrayReached pre m
  | _ => o.ScalarReached pre m

/-- What stands behind the first place where a key stands in quotes is not taken for a value:
no colon stands there, or only one with a `//` and no further line behind it, and no digits in
brackets. -/
structure NothingFound (text key : Text) : Prop where
  scalar : ∀ t, colonText text key = some t →
    ['/', '/'] <+: t.dropWhile isBlank ∧ '\n' ∉ t.dropWhile isBlank
  array : ∀ t, bracketText text key = some t → ']' ∈ t →
    ∀ c ∈ t.takeWhile (fun c => c ≠ ']'), c.isDigit = false

/-- Nothing in an object is mistaken for a key, or for what stands behind it. -/
structure Unshadowed (o : FlatObject) (key : Text) : Prop where
  present : ∀ pre m post, o.members = pre ++ m :: post → m.key = key → o.Reached pre m
  absent : (∀ m ∈ o.members, m.key ≠ key) → NothingFound o.text key

/-- A key that nowhere stands in quotes is not found. -/
theorem nothingFound_of_not_infix {text key : Text} (h : ¬ quoted key <:+: text) :
    NothingFound text key := by
  have hnone := behind_eq_none_iff.mpr h
  constructor
  · intro t ht
    rw [colonText, hnone] at ht
    cases ht
  · intro t ht
    rw [bracketText, hnone] at ht
    cases ht

/-- The getters return their defaults exactly if nothing is found. -/
theorem defaults_iff {text key : Text} : Defaults text key ↔ NothingFound text key := by
  -- the scalar getters share their search, and the array getter has its own
  have hscalar : valueText text key = .ok none ↔ ∀ t, colonText text key = some t →
      ['/', '/'] <+: t.dropWhile isBlank ∧ '\n' ∉ t.dropWhile isBlank := by
    cases hcolon : colonText text key with
    | none => simp [valueText, hcolon]
    | some t =>
        simp only [valueText, hcolon, afterColon, Option.some.injEq, forall_eq']
        by_cases hnil : t.dropWhile isBlank = []
        · simp [hnil]
        · by_cases hcomment : ['/', '/'] <+: t.dropWhile isBlank
          · rw [if_neg hnil, if_pos hcomment, Except.ok.injEq, lineEnd_eq_none_iff]
            exact (and_iff_right hcomment).symm
          · rw [if_neg hnil, if_neg hcomment]
            simp [hcomment]
  have harray : jsonGetIntArray text key = .ok [] ↔ ∀ t, bracketText text key = some t → ']' ∈ t →
      ∀ c ∈ t.takeWhile (fun c => c ≠ ']'), c.isDigit = false := by
    rw [jsonGetIntArray_eq, Except.ok.injEq]
    cases hbracket : bracketText text key with
    | none => simp
    | some t =>
        simp only [Option.elim_some, Option.some.injEq, forall_eq', readInts]
        by_cases hclose : ']' ∈ t
        · rw [if_pos hclose]
          exact ints_eq_nil_iff.trans ⟨fun h _ => h, fun h => h hclose⟩
        · simp [hclose]
  constructor
  · intro h
    refine ⟨hscalar.mp ?_, harray.mp h.intArray⟩
    -- a result that is no default does not follow the default
    have h0 := h.int 0
    have h1 := h.int 1
    rw [jsonGetInt_eq] at h0 h1
    rcases hvalue : valueText text key with e | _ | t
    · rw [hvalue] at h0
      cases h0
    · rfl
    · rw [hvalue] at h0 h1
      exact absurd (h0.symm.trans h1) (by simp)
  · intro h
    have hvalue := hscalar.mpr h.scalar
    exact
      { str := by rw [jsonGetStr_eq, hvalue]; rfl
        int := fun dflt => by rw [jsonGetInt_eq, hvalue]; rfl
        double := fun dflt => by rw [jsonGetDouble_eq, hvalue]; rfl
        intArray := harray.mpr h.array }

section Overlooked

variable {o : FlatObject} {pre post : List Member} {m : Member} {v v' : Value}

/-- The text of the object with another value. -/
theorem text_setValue (o : FlatObject) (pre : List Member) (m : Member) (v : Value)
    (post : List Member) :
    (o.setValue pre m v post).text = o.head pre m ++ textOf m.afterKey.pieces ++ ':' ::
      (textOf m.afterColon.pieces ++ (textOf v.pieces ++ o.tail m post)) :=
  (o.setValue pre m v post).text_around (m := { m with value := v }) rfl

/-- Values without a line feed make no difference to the lines. -/
private theorem mem_newline_iff {g t t' w : Text} (hv : '\n' ∉ t) (hv' : '\n' ∉ t') :
    '\n' ∈ g ++ (t ++ w) ↔ '\n' ∈ g ++ (t' ++ w) := by
  simp [hv, hv']

/-- With a colon overlooked, `json_get_int` does not see the value. -/
theorem jsonGetInt_overlooked (hmem : ':' ∈ o.overlooked pre m ++ textOf m.afterKey.pieces)
    (hv : '\n' ∉ textOf v.pieces) (hv' : '\n' ∉ textOf v'.pieces) (dflt : ℤ) :
    jsonGetInt (o.setValue pre m v post).text m.key dflt =
      jsonGetInt (o.setValue pre m v' post).text m.key dflt := by
  rw [text_setValue, text_setValue, jsonGetInt_eq, jsonGetInt_eq]
  refine read_overlooked _ (o.behind_head pre m) hmem (fun u => ?_) (fun w w' => rfl)
    (.inl (mem_newline_iff hv hv'))
  rw [atoi_congr ((numeral_scalarText_colon u _).trans (numeral_scalarText_colon u _).symm)]

/-- With a colon overlooked, `json_get_double` does not see the value. -/
theorem jsonGetDouble_overlooked (hmem : ':' ∈ o.overlooked pre m ++ textOf m.afterKey.pieces)
    (hv : '\n' ∉ textOf v.pieces) (hv' : '\n' ∉ textOf v'.pieces) (dflt : Double) :
    jsonGetDouble (o.setValue pre m v post).text m.key dflt =
      jsonGetDouble (o.setValue pre m v' post).text m.key dflt := by
  rw [text_setValue, text_setValue, jsonGetDouble_eq, jsonGetDouble_eq]
  refine read_overlooked _ (o.behind_head pre m) hmem (fun u => ?_) (fun w w' => rfl)
    (.inl (mem_newline_iff hv hv'))
  rw [atof_congr ((numeral_scalarText_colon u _).trans (numeral_scalarText_colon u _).symm)]

/-- With a colon overlooked, `json_get_str` does not see the value. -/
theorem jsonGetStr_overlooked (hmem : ':' ∈ o.overlooked pre m ++ textOf m.afterKey.pieces)
    (us us' : List StrUnit) :
    jsonGetStr (o.setValue pre m (.str us) post).text m.key =
      jsonGetStr (o.setValue pre m (.str us') post).text m.key := by
  rw [text_setValue, text_setValue, jsonGetStr_eq, jsonGetStr_eq]
  refine read_overlooked _ (o.behind_head pre m) hmem (fun u => ?_) (fun w w' => rfl)
    (.inr fun w => rfl)
  have hquote : ∀ us : List StrUnit, u ++ ':' :: (textOf m.afterColon.pieces ++
      (textOf (Value.str us).pieces ++ o.tail m post)) =
        (u ++ ':' :: textOf m.afterColon.pieces) ++
          '"' :: (strText us ++ '"' :: o.tail m post) := by
    intro us
    simp [Value.pieces, codes_append, Piece.text]
  rw [hquote, hquote, readQuoted_append (by simp)]

/-- The number `0` and the number `1`. -/
def Digits.zero : Digits := ⟨['0'], List.cons_ne_nil _ _, List.all_eq_true.mp rfl⟩

@[inherit_doc Digits.zero]
def Digits.one : Digits := ⟨['1'], List.cons_ne_nil _ _, List.all_eq_true.mp rfl⟩

/-- The integer `0` and the integer `1`. -/
def IntLiteral.zero : IntLiteral := ⟨false, Digits.zero, by decide, by decide⟩

@[inherit_doc IntLiteral.zero]
def IntLiteral.one : IntLiteral := ⟨false, Digits.one, by decide, by decide⟩

/-- An array that is empty, and an array of the number `1`. -/
private theorem arrays_simple :
    (Value.array Gap.none []).Simple ∧
      (Value.array Gap.none [⟨Gap.none, IntLiteral.one, Gap.none⟩]).Simple := by
  refine ⟨⟨fun t ht h => ?_, by simp⟩, fun t ht h => ?_, ?_⟩
  · simp [Value.pieces, Gap.none, commaJoin] at h
  · simp [Value.pieces, Gap.none, commaJoin, ArrayItem.pieces, codes] at h
  · intro i hi
    rw [List.mem_singleton.mp hi]
    decide

/-- If the getter for arrays returns every array, the search reads the array. -/
theorem arrayReached_of_answers
    (h : ∀ lead items, (Value.array lead items).Simple →
      jsonGetIntArray (o.setValue pre m (.array lead items) post).text m.key =
        .ok (items.map fun i => i.literal.value)) : o.ArrayReached pre m := by
  rw [FlatObject.ArrayReached]
  set Y := o.overlooked pre m ++ textOf m.afterKey.pieces ++ ':' :: textOf m.afterColon.pieces
    with hY
  by_cases hmem : '[' ∈ Y
  swap
  · rw [dropWhile_ne_eq_nil hmem]
    exact fun c hc => absurd hc List.not_mem_nil
  obtain ⟨a, r, heq, ha, -⟩ := exists_behind_singleton hmem
  -- the text that is read, for every array
  have hread : ∀ lead items,
      jsonGetIntArray (o.setValue pre m (.array lead items) post).text m.key =
        .ok (readInts (r ++ '[' :: (textOf lead.pieces ++
          textOf (commaJoin (items.map ArrayItem.pieces)) ++ ']' :: o.tail m post))) := by
    intro lead items
    have hbracket := FlatObject.bracketText_around (o := o.setValue pre m (.array lead items) post)
      (m := { m with value := .array lead items }) rfl rfl
    rw [jsonGetIntArray_eq, hbracket]
    change Except.ok ((behind ['['] (Y ++ _)).elim [] readInts) = _
    rw [heq, List.append_assoc, List.cons_append, behind_singleton_append ha,
      behind_singleton_cons, Option.elim_some]
    rfl
  have hempty := (hread Gap.none []).symm.trans (h Gap.none [] arrays_simple.1)
  have hone := (hread Gap.none _).symm.trans (h Gap.none _ arrays_simple.2)
  rw [Except.ok.injEq] at hempty hone
  -- a closing bracket in front of the array would hide its numbers
  have hclose : ']' ∉ r := by
    intro hclose
    obtain ⟨b, b', rfl, hb, -⟩ := exists_behind_singleton hclose
    rw [List.append_assoc, List.cons_append, readInts_append hb] at hempty hone
    rw [hempty] at hone
    cases hone
  -- for the empty array nothing may be read at all
  have hnone : ints (r ++ ['[']) = [] := by
    rw [← readInts_append (w := o.tail m post) (by simp [hclose])]
    simpa [Gap.none, commaJoin] using hempty
  rw [heq, dropWhile_ne_append ha]
  intro c hc
  refine ⟨ints_eq_nil_iff.mp hnone c ?_, ?_⟩
  · rcases List.mem_cons.mp hc with rfl | hc
    · simp
    · simp [hc]
  · rintro rfl
    rcases List.mem_cons.mp hc with hc | hc
    · cases hc
    · exact hclose hc

end Overlooked

/-! ## Comment-free objects -/

section CommentFree

variable {o : FlatObject} {pre post : List Member} {m : Member}

/-- The pieces of a member are pieces of its object. -/
theorem FlatObject.mem_pieces (h : o.members = pre ++ m :: post) {p : Piece}
    (hp : p ∈ m.pieces) : p ∈ o.pieces := by
  rw [FlatObject.pieces, h, List.map_append, List.map_cons, commaJoin_append]
  simp only [List.mem_append]
  tauto

/-- In an object without comments the search only has to get past the overlooked text. -/
theorem scalarReached_of_commentFree (hfree : o.CommentFree) (h : o.members = pre ++ m :: post)
    (hclear : ':' ∉ o.overlooked pre m ++ textOf m.afterKey.pieces) : o.ScalarReached pre m := by
  refine ⟨hclear, fun t ht hmem => hfree t ht (FlatObject.mem_pieces h ?_)⟩
  simp only [Member.pieces, List.mem_append]
  tauto

/-- An array without comments is inert between its numbers. -/
theorem inertArray_of_commentFree {lead : Gap} {items : List ArrayItem}
    (hfree : ∀ t ht, Piece.comment t ht ∉ (Value.array lead items).pieces) :
    InertArray lead items := by
  -- a gap without comments is white space
  have hgap : ∀ g : Gap, (∀ t ht, Piece.comment t ht ∉ g.pieces) → Inert (textOf g.pieces) := by
    intro g hg c hc
    have hblank := Gap.isBlank_of_mem_text hg hc
    simp only [isBlank, blanks, List.contains_eq_mem, List.mem_cons, List.not_mem_nil, or_false,
      decide_eq_true_eq] at hblank
    rcases hblank with rfl | rfl | rfl | rfl <;> decide
  refine ⟨hgap lead fun t ht hmem => hfree t ht ?_, fun i hi => ⟨hgap i.before fun t ht hmem =>
    hfree t ht ?_, hgap i.after fun t ht hmem => hfree t ht ?_⟩⟩
  · simp [Value.pieces, hmem]
  all_goals
    obtain ⟨xs, ys, rfl⟩ := List.append_of_mem hi
    rw [Value.pieces, List.map_append, List.map_cons, commaJoin_append, ArrayItem.pieces]
    simp [hmem]

/-- The getters answer for a member that is reached. -/
theorem answers_of_reached (h : o.members = pre ++ m :: post) (hreach : o.Reached pre m)
    (hsimple : m.value.Simple) : Answers o.text m.key m.value := by
  unfold FlatObject.Reached at hreach
  cases hvalue : m.value with
  | int l =>
      rw [hvalue] at hreach
      exact ⟨jsonGetInt_reached h hreach hvalue, jsonGetDouble_reached_int h hreach hvalue⟩
  | decimal l =>
      rw [hvalue] at hreach
      exact jsonGetDouble_reached h hreach hvalue
  | str us =>
      rw [hvalue] at hreach hsimple
      obtain ⟨hquote, heq⟩ := strText_of_plain hsimple
      rw [Answers, jsonGetStr_reached h hreach hvalue, ← heq]
      exact congrArg _ ((takeWhile_append_cons (by decide) _ []).symm.trans
        (takeWhile_ne_append hquote []))
  | array lead items =>
      rw [hvalue] at hreach hsimple
      rw [Answers, jsonGetIntArray_reached h hreach hvalue (inertArray_of_commentFree hsimple.1)]
      exact congrArg _ (List.map_congr_left fun i hi =>
        (atoi_digits_eq_iff i.literal).mpr (hsimple.2 i hi))

/-- A getter that answers for every value of a member reaches the member. -/
theorem reached_of_answers (hfree : o.CommentFree) (h : o.members = pre ++ m :: post)
    (hanswers : ∀ v : Value, v.SameKind m.value → v.Simple →
      Answers (o.setValue pre m v post).text m.key v) : o.Reached pre m := by
  -- two values of the same kind that a getter can not tell apart
  unfold FlatObject.Reached
  cases hvalue : m.value with
  | int l =>
      refine scalarReached_of_commentFree hfree h fun hmem => ?_
      rw [hvalue] at hanswers
      have h0 := (hanswers (.int .zero) trivial trivial).1 0
      have h1 := (hanswers (.int .one) trivial trivial).1 0
      rw [jsonGetInt_overlooked hmem (by decide)
        (by decide : '\n' ∉ textOf (Value.int .one).pieces), h1] at h0
      exact absurd h0 (by decide)
  | decimal l =>
      refine scalarReached_of_commentFree hfree h fun hmem => ?_
      rw [hvalue] at hanswers
      have h0 := hanswers (.decimal ⟨false, .zero, none, none⟩) trivial trivial (.finite 0)
      have h1 := hanswers (.decimal ⟨false, .one, none, none⟩) trivial trivial (.finite 0)
      rw [jsonGetDouble_overlooked hmem (by decide)
        (by decide : '\n' ∉ textOf (Value.decimal ⟨false, .one, none, none⟩).pieces), h1,
        Except.ok.injEq] at h0
      exact absurd h0 (by decide +kernel)
  | str us =>
      refine scalarReached_of_commentFree hfree h fun hmem => ?_
      rw [hvalue] at hanswers
      have h0 := hanswers (.str []) trivial (by simp [Value.Simple])
      have h1 := hanswers (.str [.plain 'a' (by decide)]) trivial
        (by simp [Value.Simple, StrUnit.IsPlain])
      simp only [Answers] at h0 h1
      rw [jsonGetStr_overlooked hmem [] [.plain 'a' (by decide)], h1] at h0
      exact absurd h0 (by simp [strValue])
  | array lead items =>
      rw [hvalue] at hanswers
      exact arrayReached_of_answers fun lead items hsimple =>
        hanswers (.array lead items) trivial hsimple

end CommentFree

/-- Lookup of a key in an object without comments is correct for every value of the member with
the key exactly if nothing is mistaken for the key, or for what stands behind it. -/
theorem lookup_correct_iff (o : FlatObject) (hfree : o.CommentFree) (key : Text) :
    LookupCorrect o key ↔ Unshadowed o key := by
  constructor
  · intro h
    refine ⟨?_, fun habsent => defaults_iff.mp (h.absent habsent)⟩
    rintro pre m post hm rfl
    exact reached_of_answers hfree hm (h.present pre m post hm rfl)
  · intro h
    refine ⟨?_, fun habsent => defaults_iff.mpr (h.absent habsent)⟩
    rintro pre m post hm rfl v hkind hsimple
    -- the text in front of the value, and so the search, is the same for every value
    refine answers_of_reached (o := o.setValue pre m v post) (m := { m with value := v }) rfl ?_
      hsimple
    have hreach := h.present pre m post hm rfl
    unfold FlatObject.Reached at hreach ⊢
    cases v <;> cases hvalue : m.value <;> rw [hvalue] at hkind hreach <;>
      first | exact hkind.elim | exact hreach

/-! ## An object whose string is a key -/

/-- A member without gaps. -/
def Member.plain (key : Text) (value : Value) (h : '"' ∉ key ∧ '\\' ∉ key) : Member :=
  ⟨.none, key, .none, .none, value, .none, h⟩

/-- The object `{"verbose":"mode","repeat":0,"mode":1}`. -/
def shadowedObject : FlatObject :=
  { lead := .none
    inner := .none
    members :=
      [.plain "verbose".toList (.str [.plain 'm' (by decide), .plain 'o' (by decide),
          .plain 'd' (by decide), .plain 'e' (by decide)]) (by decide),
        .plain "repeat".toList (.int .zero) (by decide),
        .plain "mode".toList (.int .one) (by decide)]
    trail := .none }

theorem shadowedObject_pieces : shadowedObject.pieces =
    codes "\x7b\"verbose\":\"mode\",\"repeat\":0,\"mode\":1\x7d".toList := by
  rfl

theorem commentFree_of_codes {o : FlatObject} {t : Text} (h : o.pieces = codes t) :
    o.CommentFree := by
  intro u hu hmem
  rw [h] at hmem
  obtain ⟨c, -, heq⟩ := List.mem_map.mp hmem
  cases heq

/-- Lookup in this object. -/
theorem lookup_correct_iff_shadowedObject :
    LookupCorrect shadowedObject "mode".toList ↔ Unshadowed shadowedObject "mode".toList :=
  lookup_correct_iff _ (commentFree_of_codes shadowedObject_pieces) _

/-- The value of `mode` is `1`, but the getter finds the string in front, and returns the value
of `repeat`. -/
theorem jsonGetInt_shadowedObject :
    shadowedObject.CommentFree ∧ (shadowedObject.members.map Member.key).Nodup ∧
      (∀ m ∈ shadowedObject.members, m.value.Simple) ∧
      (∃ m ∈ shadowedObject.members, m.key = "mode".toList ∧ m.value = .int .one) ∧
      jsonGetInt shadowedObject.text "mode".toList = .ok 0 ∧ IntLiteral.one.value = 1 := by
  refine ⟨commentFree_of_codes shadowedObject_pieces, by decide +kernel, ?_, ?_, ?_, by decide⟩
  · simp [shadowedObject, Member.plain, Value.Simple, StrUnit.IsPlain]
  · exact ⟨.plain "mode".toList (.int .one) (by decide), by simp [shadowedObject], rfl, rfl⟩
  · rw [FlatObject.text, shadowedObject_pieces, textOf_codes]
    decide +kernel

end Redcli
