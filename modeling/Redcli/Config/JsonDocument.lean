import Redcli.Config.JsonGetters

/-!
# Configuration Documents

Flat objects as their authors write them: members with integer, decimal, string and integer
array values, with white space and comment lines between the tokens. A document is a list of
pieces, each a character or a comment line.

## Main results

* `FlatObject.strip_text`: the document without its comment lines is the document whose gaps
  have none;
* `FlatObject.text_eq`: the text of a document around one of its members.
-/

namespace Redcli

/-! ## Pieces -/

/-- A character outside of comments, or a comment line. -/
inductive Piece where
  | code (c : Char)
  | comment (t : Text) (oneLine : '\n' ∉ t)

/-- The text of a piece. -/
def Piece.text : Piece → Text
  | .code c => [c]
  | .comment t _ => '/' :: '/' :: t ++ ['\n']

/-- The text of a piece without comments. -/
def Piece.codeText : Piece → Text
  | .code c => [c]
  | .comment _ _ => []

/-- The text of a list of pieces. -/
def textOf (ps : List Piece) : Text := ps.flatMap Piece.text

/-- The text of a list of pieces without its comments. -/
def codeOf (ps : List Piece) : Text := ps.flatMap Piece.codeText

/-- The pieces of a text without comments. -/
def codes (t : Text) : List Piece := t.map Piece.code

@[simp] theorem textOf_nil : textOf [] = [] := rfl

@[simp] theorem textOf_cons (p : Piece) (ps : List Piece) :
    textOf (p :: ps) = p.text ++ textOf ps := rfl

@[simp] theorem textOf_append (ps qs : List Piece) : textOf (ps ++ qs) = textOf ps ++ textOf qs :=
  List.flatMap_append

@[simp] theorem textOf_codes (t : Text) : textOf (codes t) = t := by
  induction t with
  | nil => rfl
  | cons c t ih => simpa [codes, Piece.text] using ih

@[simp] theorem codeOf_nil : codeOf [] = [] := rfl

@[simp] theorem codeOf_cons (p : Piece) (ps : List Piece) :
    codeOf (p :: ps) = p.codeText ++ codeOf ps := rfl

@[simp] theorem codeOf_append (ps qs : List Piece) : codeOf (ps ++ qs) = codeOf ps ++ codeOf qs :=
  List.flatMap_append

@[simp] theorem codeOf_codes (t : Text) : codeOf (codes t) = t := by
  induction t with
  | nil => rfl
  | cons c t ih => simpa [codes, Piece.codeText] using ih

@[simp] theorem codes_nil : codes [] = [] := rfl

@[simp] theorem codes_cons (c : Char) (t : Text) : codes (c :: t) = .code c :: codes t := rfl

/-- Pieces separated by commas. -/
def commaJoin : List (List Piece) → List Piece
  | [] => []
  | l :: ls => l ++ ls.flatMap fun l => .code ',' :: l

theorem commaJoin_append (pre : List (List Piece)) (l : List Piece) (post : List (List Piece)) :
    commaJoin (pre ++ l :: post) =
      (pre.flatMap fun l => l ++ [.code ',']) ++ l ++ post.flatMap fun l => .code ',' :: l := by
  cases pre with
  | nil => rfl
  | cons p pre =>
      -- a comma in front of each further list, or behind each earlier one
      have hswap : ∀ (p : List Piece) (pre : List (List Piece)),
          p ++ pre.flatMap (fun l => Piece.code ',' :: l) ++ [.code ','] =
            (p :: pre).flatMap fun l => l ++ [.code ','] := by
        intro p pre
        induction pre generalizing p with
        | nil => simp
        | cons q pre ih =>
            rw [@List.flatMap_cons _ _ p, ← ih q]
            simp
      rw [← hswap]
      simp [commaJoin]

/-! ## Gaps -/

/-- White space and comment lines between two tokens. -/
structure Gap where
  pieces : List Piece
  blank : ∀ c, .code c ∈ pieces → isBlank c = true

namespace Gap

/-- No gap. -/
def none : Gap := ⟨[], by simp⟩

/-- A gap of white space. -/
def ofBlanks (t : Text) (h : ∀ c ∈ t, isBlank c = true) : Gap :=
  ⟨codes t, fun c hc => by
    obtain ⟨d, hd, heq⟩ := List.mem_map.mp hc
    cases heq
    exact h _ hd⟩

/-- The white space of a gap is white space. -/
theorem isBlank_of_mem {g : Gap} {c : Char} (h : c ∈ codeOf g.pieces) : isBlank c = true := by
  -- a character outside of comments is a piece of its own
  obtain ⟨p, hp, hc⟩ := List.mem_flatMap.mp h
  cases p with
  | code d =>
      rw [Piece.codeText, List.mem_singleton] at hc
      exact g.blank c (hc ▸ hp)
  | comment t ht => cases hc

/-- A gap without comment lines is white space. -/
theorem isBlank_of_mem_text {g : Gap} (hfree : ∀ t ht, .comment t ht ∉ g.pieces) {c : Char}
    (h : c ∈ textOf g.pieces) : isBlank c = true := by
  obtain ⟨p, hp, hc⟩ := List.mem_flatMap.mp h
  cases p with
  | code d =>
      rw [Piece.text, List.mem_singleton] at hc
      exact g.blank c (hc ▸ hp)
  | comment t ht => exact absurd hp (hfree t ht)

/-- The gap without its comment lines. -/
def strip (g : Gap) : Gap := ofBlanks (codeOf g.pieces) fun _ => isBlank_of_mem

theorem strip_pieces (g : Gap) : g.strip.pieces = codes (codeOf g.pieces) := rfl

end Gap

/-! ## Values -/

/-- A number of digits. -/
structure Digits where
  text : Text
  ne_nil : text ≠ []
  isDigit : ∀ c ∈ text, c.isDigit = true

/-- The number that the digits denote. -/
def Digits.value (d : Digits) : ℕ := digitsValue 10 d.text

/-- The sign of a number. -/
def signText (negative : Bool) : Text := if negative then ['-'] else []

/-- An integer that is an `int`. -/
structure IntLiteral where
  negative : Bool
  digits : Digits
  fits : intMin ≤ signed negative (digits.value : ℤ) ∧
    signed negative (digits.value : ℤ) ≤ intMax

namespace IntLiteral

/-- The text of an integer. -/
def text (l : IntLiteral) : Text := signText l.negative ++ l.digits.text

/-- The value of an integer. -/
def value (l : IntLiteral) : ℤ := signed l.negative l.digits.value

end IntLiteral

/-- The exponent of a decimal: its mark, the sign if there is one, and the digits. -/
structure Exponent where
  upper : Bool
  sign : Option Bool
  digits : Digits

namespace Exponent

/-- The text of an exponent. -/
def text (e : Exponent) : Text :=
  (if e.upper then 'E' else 'e') ::
    (e.sign.elim [] (fun negative => if negative then ['-'] else ['+']) ++ e.digits.text)

/-- The value of an exponent. -/
def value (e : Exponent) : ℤ := signed (e.sign.getD false) e.digits.value

end Exponent

/-- A decimal. -/
structure DecimalLiteral where
  negative : Bool
  whole : Digits
  fraction : Option Digits
  exponent : Option Exponent

namespace DecimalLiteral

/-- The text of a decimal. -/
def text (l : DecimalLiteral) : Text :=
  signText l.negative ++ l.whole.text ++ l.fraction.elim [] (fun d => '.' :: d.text) ++
    l.exponent.elim [] Exponent.text

/-- The value of a decimal. -/
def value (l : DecimalLiteral) : ℚ :=
  signed l.negative
    ((l.whole.value + l.fraction.elim 0 fun d => (d.value : ℚ) / 10 ^ d.text.length) *
      10 ^ l.exponent.elim 0 Exponent.value)

end DecimalLiteral

/-- What a string consists of. -/
inductive StrUnit where
  | plain (c : Char) (h : c ≠ '"' ∧ c ≠ '\\')
  | escape (c : Char) (h : c ∈ ['"', '\\', '/', 'b', 'f', 'n', 'r', 't'])
  | unicode (digits : Text) (h : digits.length = 4 ∧ ∀ c ∈ digits, isHexDigit c = true)

namespace StrUnit

/-- The text of a part of a string. -/
def text : StrUnit → Text
  | plain c _ => [c]
  | escape c _ => ['\\', c]
  | unicode ds _ => '\\' :: 'u' :: ds

/-- The character that a part of a string denotes. -/
def value : StrUnit → Char
  | plain c _ => c
  | escape c _ =>
      if c = 'b' then '\x08' else if c = 'f' then '\x0c' else if c = 'n' then '\n'
      else if c = 'r' then '\r' else if c = 't' then '\t' else c
  | unicode ds _ => Char.ofNat (digitsValue 16 ds)

/-- A character that stands for itself. -/
def IsPlain : StrUnit → Prop
  | plain _ _ => True
  | _ => False

end StrUnit

/-- The text between the quotes of a string. -/
def strText (us : List StrUnit) : Text := us.flatMap StrUnit.text

/-- The string that is denoted. -/
def strValue (us : List StrUnit) : Text := us.map StrUnit.value

/-- An element of an array and the gaps around it. -/
structure ArrayItem where
  before : Gap
  literal : IntLiteral
  after : Gap

/-- The pieces of an element of an array. -/
def ArrayItem.pieces (i : ArrayItem) : List Piece :=
  i.before.pieces ++ codes i.literal.text ++ i.after.pieces

/-- An element without comment lines. -/
def ArrayItem.strip (i : ArrayItem) : ArrayItem :=
  { i with before := i.before.strip, after := i.after.strip }

/-- A value. The gap of an array stands behind its opening bracket. -/
inductive Value where
  | int (l : IntLiteral)
  | decimal (l : DecimalLiteral)
  | str (us : List StrUnit)
  | array (lead : Gap) (items : List ArrayItem)

namespace Value

/-- The pieces of a value. -/
def pieces : Value → List Piece
  | int l => codes l.text
  | decimal l => codes l.text
  | str us => codes ('"' :: strText us ++ ['"'])
  | array lead items =>
      .code '[' :: lead.pieces ++ commaJoin (items.map ArrayItem.pieces) ++ [.code ']']

/-- The value without comment lines. -/
def strip : Value → Value
  | array lead items => array lead.strip (items.map ArrayItem.strip)
  | v => v

/-- Whether two values are of the same kind. -/
def SameKind : Value → Value → Prop
  | int _, int _ => True
  | decimal _, decimal _ => True
  | str _, str _ => True
  | array _ _, array _ _ => True
  | _, _ => False

/-- A value without comments, without escapes and without negative elements of an array. -/
def Simple : Value → Prop
  | int _ => True
  | decimal _ => True
  | str us => ∀ u ∈ us, u.IsPlain
  | array lead items =>
      (∀ t ht, .comment t ht ∉ (array lead items).pieces) ∧
        ∀ i ∈ items, 0 ≤ i.literal.value

end Value

/-! ## Objects -/

/-- A member of an object with the gaps around its tokens. A key needs no escapes. -/
structure Member where
  lead : Gap
  key : Text
  afterKey : Gap
  afterColon : Gap
  value : Value
  afterValue : Gap
  key_plain : '"' ∉ key ∧ '\\' ∉ key

namespace Member

/-- The pieces of a member. -/
def pieces (m : Member) : List Piece :=
  m.lead.pieces ++ codes (quoted m.key) ++ m.afterKey.pieces ++ [.code ':'] ++
    m.afterColon.pieces ++ m.value.pieces ++ m.afterValue.pieces

/-- The member without comment lines. -/
def strip (m : Member) : Member :=
  { m with
    lead := m.lead.strip
    afterKey := m.afterKey.strip
    afterColon := m.afterColon.strip
    value := m.value.strip
    afterValue := m.afterValue.strip }

end Member

/-- An object with flat members. The gap `inner` stands behind the opening brace. -/
structure FlatObject where
  lead : Gap
  inner : Gap
  members : List Member
  trail : Gap

namespace FlatObject

/-- The pieces of an object. -/
def pieces (o : FlatObject) : List Piece :=
  o.lead.pieces ++ [.code '{'] ++ o.inner.pieces ++ commaJoin (o.members.map Member.pieces) ++
    [.code '}'] ++ o.trail.pieces

/-- The text of an object. -/
def text (o : FlatObject) : Text := textOf o.pieces

/-- The object without comment lines. -/
def strip (o : FlatObject) : FlatObject where
  lead := o.lead.strip
  inner := o.inner.strip
  members := o.members.map Member.strip
  trail := o.trail.strip

/-- An object without comment lines. -/
def CommentFree (o : FlatObject) : Prop := ∀ t ht, Piece.comment t ht ∉ o.pieces

end FlatObject

/-! ## Objects without their comments -/

theorem codes_append (t u : Text) : codes (t ++ u) = codes t ++ codes u := List.map_append

/-- Commas stay. -/
private theorem codes_codeOf_commaJoin {α : Type} (f g : α → List Piece) (xs : List α)
    (h : ∀ x ∈ xs, g x = codes (codeOf (f x))) :
    commaJoin (xs.map g) = codes (codeOf (commaJoin (xs.map f))) := by
  cases xs with
  | nil => rfl
  | cons x xs =>
      -- the lists behind the first one, with their commas
      have htail : ∀ ys : List α, (∀ y ∈ ys, g y = codes (codeOf (f y))) →
          (ys.map g).flatMap (fun l => Piece.code ',' :: l) =
            codes (codeOf ((ys.map f).flatMap fun l => Piece.code ',' :: l)) := by
        intro ys hys
        induction ys with
        | nil => rfl
        | cons y ys ih =>
            simp only [List.map_cons, List.flatMap_cons, codeOf_append, codes_append,
              hys y List.mem_cons_self, ih fun z hz => hys z (List.mem_cons_of_mem y hz)]
            rfl
      simp only [List.map_cons, commaJoin, codeOf_append, codes_append, h x List.mem_cons_self,
        htail xs fun y hy => h y (List.mem_cons_of_mem x hy)]

theorem Value.strip_pieces (v : Value) : v.strip.pieces = codes (codeOf v.pieces) := by
  cases v with
  | int l => simp only [Value.strip, Value.pieces, codeOf_codes]
  | decimal l => simp only [Value.strip, Value.pieces, codeOf_codes]
  | str us => simp only [Value.strip, Value.pieces, codeOf_codes]
  | array lead items =>
      have hitems : commaJoin (items.map fun i => i.strip.pieces) =
          codes (codeOf (commaJoin (items.map ArrayItem.pieces))) :=
        codes_codeOf_commaJoin _ _ items fun i _ => by
          simp [ArrayItem.pieces, ArrayItem.strip, Gap.strip_pieces, codes_append]
      simp only [Value.strip, Value.pieces, List.map_map, Function.comp_def, hitems,
        Gap.strip_pieces, codeOf_append, codes_append, codeOf_cons]
      rfl

theorem Member.strip_pieces (m : Member) : m.strip.pieces = codes (codeOf m.pieces) := by
  simp only [Member.strip, Member.pieces, Gap.strip_pieces, Value.strip_pieces, codeOf_append,
    codes_append, codeOf_codes]
  rfl

/-- The object without comment lines consists of the characters outside of comments. -/
theorem FlatObject.strip_pieces (o : FlatObject) : o.strip.pieces = codes (codeOf o.pieces) := by
  have hmembers : commaJoin (o.members.map fun m => m.strip.pieces) =
      codes (codeOf (commaJoin (o.members.map Member.pieces))) :=
    codes_codeOf_commaJoin _ _ o.members fun m _ => m.strip_pieces
  simp only [FlatObject.strip, FlatObject.pieces, List.map_map, Function.comp_def, hmembers,
    Gap.strip_pieces, codeOf_append, codes_append]
  rfl

theorem FlatObject.strip_text (o : FlatObject) : o.strip.text = codeOf o.pieces := by
  rw [FlatObject.text, FlatObject.strip_pieces, textOf_codes]

/-! ## The text around a member -/

namespace FlatObject

/-- The text in front of a member. -/
def textBefore (o : FlatObject) (pre : List Member) : Text :=
  textOf (o.lead.pieces ++ [.code '{'] ++ o.inner.pieces ++
    (pre.map Member.pieces).flatMap fun l => l ++ [.code ','])

/-- The text behind a member. -/
def textAfter (o : FlatObject) (post : List Member) : Text :=
  textOf (((post.map Member.pieces).flatMap fun l => .code ',' :: l) ++ [.code '}'] ++
    o.trail.pieces)

/-- The text of an object around one of its members. -/
theorem text_eq {o : FlatObject} {pre post : List Member} {m : Member}
    (h : o.members = pre ++ m :: post) :
    o.text = o.textBefore pre ++ textOf m.pieces ++ o.textAfter post := by
  rw [text, pieces, h, List.map_append, List.map_cons, commaJoin_append, textBefore, textAfter]
  simp only [textOf_append, List.append_assoc]

/-- Behind a member stands a comma or the closing brace. -/
theorem textAfter_eq (o : FlatObject) (post : List Member) :
    ∃ c t, o.textAfter post = c :: t ∧ (c = ',' ∨ c = '}') := by
  cases post with
  | nil => exact ⟨'}', _, rfl, .inr rfl⟩
  | cons m post => exact ⟨',', _, rfl, .inl rfl⟩

end FlatObject

end Redcli
