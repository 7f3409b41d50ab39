import Redcli.Config.LoadConfig
import Redcli.Config.PieceReading

/-!
# Comments

When comment lines make no difference to `load_config`.

The getters know no comments, apart from one line behind the colon. A comment is harmless for
the lookup of a key if the search for the key, for the colon or bracket, and for the end of the
value does not stop in it.

## Main results

* `jsonGetInt_pieces`, `jsonGetDouble_pieces`, `jsonGetStr_pieces`, `jsonGetIntArray_pieces`: the
  getters pass over harmless comments;
* `FlatObject.ready_pieces`: in a document no comment separates two characters of one token;
* `loadConfig_comments`: harmless comments make no difference.
-/

namespace Redcli

open TextSearch

/-! ## Harmless comments -/

/-- What is looked for behind a key: for an array, brackets without a comment that has digits
between them; for other types, a colon and the start of a value. -/
def HarmlessBehindKey : KeyKind → Text → Text → Prop
  | .intArray => Passes ['['] fun v t => ']' ∈ v ∨ Inert t
  | _ => Passes [':'] fun v _ => BehindValue v

/-- A comment is harmless for the lookup of a key of a type. -/
def Harmless (key : Text) (kind : KeyKind) : Text → Text → Prop :=
  Passes (quoted key) (HarmlessBehindKey kind)

instance (t : Text) : Decidable (Inert t) :=
  decidable_of_iff ((t.all fun c => !c.isDigit && c != ']') = true) (by simp [Inert])

instance : (kind : KeyKind) → (before t : Text) → Decidable (HarmlessBehindKey kind before t)
  | .intArray => fun before t =>
      inferInstanceAs (Decidable (Passes ['['] (fun v t => ']' ∈ v ∨ Inert t) before t))
  | .text | .int | .double => fun before t =>
      inferInstanceAs (Decidable (Passes [':'] (fun v _ => BehindValue v) before t))

instance (key : Text) (kind : KeyKind) (before t : Text) : Decidable (Harmless key kind before t) :=
  inferInstanceAs (Decidable (Passes (quoted key) (HarmlessBehindKey kind) before t))

section Getters

variable {ps : List Piece} {key : Text} {kind : KeyKind}

/-- A getter for scalars passes over harmless comments. -/
theorem valueText_pieces {α : Type} (hkey : ∀ c ∈ key, isWord c = true) (hapart : Apart ps)
    (hcomments : CommentsAre
      (Passes (quoted key) (Passes [':'] fun v _ => BehindValue v)) ps)
    {f : Text → Except TextFault α} (dflt : Except TextFault α)
    (hline : ∀ w w', f ('\n' :: w) = f ('\n' :: w'))
    (hread : ∀ S c post, (∀ d ∈ S, isSpace d = true) → isSpace c = false →
      Apart (.code c :: post) →
      (S = [] → c = '"' → CommentsAre (fun before _ => '"' ∈ before) post) →
      f (S ++ c :: textOf post) = f (S ++ c :: codeOf post)) :
    ((valueText (textOf ps) key).bind fun v => v.elim dflt f) =
      (valueText (codeOf ps) key).bind fun v => v.elim dflt f := by
  rw [valueText, valueText, colonText, colonText]
  rcases behind_pieces (token_quoted hkey) hapart hcomments with
    ⟨htext, hcode⟩ | ⟨qs, htext, hcode, hapart, hcomments⟩
  · rw [htext, hcode]
  rw [htext, hcode, Option.bind_some, Option.bind_some]
  rcases behind_pieces (token_singleton (by decide) (by decide)) hapart hcomments with
    ⟨htext, hcode⟩ | ⟨rs, htext, hcode, hapart, hcomments⟩
  · rw [htext, hcode]
  · rw [htext, hcode]
    exact afterColon_pieces hapart hcomments dflt hline hread

/-- `json_get_int` passes over harmless comments. -/
theorem jsonGetInt_pieces (hkey : ∀ c ∈ key, isWord c = true) (hapart : Apart ps)
    (hcomments : CommentsAre (Harmless key .int) ps) (dflt : ℤ) :
    jsonGetInt (textOf ps) key dflt = jsonGetInt (codeOf ps) key dflt := by
  rw [jsonGetInt_eq, jsonGetInt_eq]
  refine valueText_pieces hkey hapart hcomments _ (fun _ _ => rfl) fun S c post hS hc hapart _ => ?_
  rw [atoi_congr (numeral_afterSpace hS hc hapart)]

/-- `json_get_double` passes over harmless comments. -/
theorem jsonGetDouble_pieces (hkey : ∀ c ∈ key, isWord c = true) (hapart : Apart ps)
    (hcomments : CommentsAre (Harmless key .double) ps) (dflt : Double) :
    jsonGetDouble (textOf ps) key dflt = jsonGetDouble (codeOf ps) key dflt := by
  rw [jsonGetDouble_eq, jsonGetDouble_eq]
  refine valueText_pieces hkey hapart hcomments _ (fun _ _ => rfl) fun S c post hS hc hapart _ => ?_
  rw [atof_congr (numeral_afterSpace hS hc hapart)]

/-- `json_get_str` passes over harmless comments. -/
theorem jsonGetStr_pieces (hkey : ∀ c ∈ key, isWord c = true) (hapart : Apart ps)
    (hcomments : CommentsAre (Harmless key .text) ps) :
    jsonGetStr (textOf ps) key = jsonGetStr (codeOf ps) key := by
  rw [jsonGetStr_eq, jsonGetStr_eq]
  refine valueText_pieces hkey hapart hcomments _ (fun _ _ => rfl)
    fun S c post hS _ _ hstring => ?_
  rw [readQuoted_afterSpace hS hstring]

/-- `json_get_int_array` passes over harmless comments. -/
theorem jsonGetIntArray_pieces (hkey : ∀ c ∈ key, isWord c = true) (hapart : Apart ps)
    (hcomments : CommentsAre (Harmless key .intArray) ps) :
    jsonGetIntArray (textOf ps) key = jsonGetIntArray (codeOf ps) key := by
  rw [jsonGetIntArray_eq, jsonGetIntArray_eq, bracketText, bracketText]
  rcases behind_pieces (token_quoted hkey) hapart hcomments with
    ⟨htext, hcode⟩ | ⟨qs, htext, hcode, hapart, hcomments⟩
  · rw [htext, hcode]
  rw [htext, hcode, Option.bind_some, Option.bind_some]
  rcases behind_pieces (token_singleton (by decide) (by decide)) hapart hcomments with
    ⟨htext, hcode⟩ | ⟨rs, htext, hcode, hapart, hcomments⟩
  · rw [htext, hcode]
  · rw [htext, hcode, Option.elim_some, Option.elim_some, readInts_pieces hapart hcomments]

end Getters

/-! ## Documents -/

/-- Pieces behind which a gap or a separator can stand. -/
structure Ready (ps : List Piece) : Prop where
  apart : Apart ps
  last : ∀ c ∈ (codeOf ps).getLast?, c ≠ '/'

/-- Pieces behind which any token can stand. -/
structure Tidy (ps : List Piece) : Prop extends Ready ps where
  noWord : ∀ c ∈ (codeOf ps).getLast?, isWord c = false

theorem tidy_nil : Tidy [] where
  apart := trivial
  last := by simp
  noWord := by simp

section Pieces

variable {ps : List Piece}

/-- The last character of two lists of pieces. -/
private theorem mem_getLast?_append {ps qs : List Piece} {c : Char}
    (h : c ∈ (codeOf (ps ++ qs)).getLast?) :
    c ∈ (codeOf qs).getLast? ∨ c ∈ (codeOf ps).getLast? := by
  rw [codeOf_append, List.getLast?_append] at h
  rcases hqs : (codeOf qs).getLast? with _ | d
  · rw [hqs] at h
    exact .inr h
  · rw [hqs] at h
    exact .inl h

theorem isWord_of_isBlank {c : Char} (h : isBlank c = true) : isWord c = false ∧ c ≠ '/' := by
  simp only [isBlank, blanks, List.contains_eq_mem, List.mem_cons, List.not_mem_nil, or_false,
    decide_eq_true_eq] at h
  rcases h with rfl | rfl | rfl | rfl <;> decide

/-- A gap has no word in it. -/
private theorem Gap.apart (g : Gap) : Apart g.pieces := by
  obtain ⟨ps, hblank⟩ := g
  induction ps with
  | nil => trivial
  | cons p ps ih =>
      have hps : Apart ps := ih fun c hc => hblank c (List.mem_cons_of_mem p hc)
      cases p with
      | comment t ht => exact hps
      | code c =>
          obtain ⟨hword, hslash⟩ := isWord_of_isBlank (hblank c List.mem_cons_self)
          refine ⟨fun t ht qs heq hparts => ?_, hps⟩
          rcases hparts with h | ⟨hc, -⟩
          · exact hslash h
          · rw [hword] at hc
            cases hc

theorem Ready.gap (h : Ready ps) (g : Gap) : Ready (ps ++ g.pieces) where
  apart := h.apart.append g.apart fun c hc => ⟨h.last c hc, fun _ _ hd =>
    (isWord_of_isBlank (g.isBlank_of_mem (List.mem_of_mem_head? hd))).1⟩
  last := fun c hc => (mem_getLast?_append hc).elim
    (fun hc => (isWord_of_isBlank (g.isBlank_of_mem (List.mem_of_mem_getLast? hc))).2) (h.last c)

theorem Tidy.gap (h : Tidy ps) (g : Gap) : Tidy (ps ++ g.pieces) where
  toReady := h.toReady.gap g
  noWord := fun c hc => (mem_getLast?_append hc).elim
    (fun hc => (isWord_of_isBlank (g.isBlank_of_mem (List.mem_of_mem_getLast? hc))).1) (h.noWord c)

/-- Behind a separator any token can stand. -/
theorem Ready.separator (h : Ready ps) {c : Char} (hword : isWord c = false) (hslash : c ≠ '/') :
    Tidy (ps ++ [.code c]) where
  apart := h.apart.append (apart_codes [c]) fun _ hd => ⟨h.last _ hd, fun _ e he => by
    obtain rfl : c = e := by simpa [Piece.codeText] using he
    exact hword⟩
  last := fun d hd => by
    obtain rfl : c = d := by simpa [Piece.codeText] using hd
    exact hslash
  noWord := fun d hd => by
    obtain rfl : c = d := by simpa [Piece.codeText] using hd
    exact hword

/-- A token that does not end with a slash. -/
theorem Tidy.token (h : Tidy ps) {t : Text} (ht : ∀ c ∈ t.getLast?, c ≠ '/') :
    Ready (ps ++ codes t) where
  apart := h.apart.append (apart_codes t) fun c hc => ⟨h.last c hc, fun hword => by
    rw [h.noWord c hc] at hword
    cases hword⟩
  last := fun c hc => (mem_getLast?_append hc).elim
    (fun hc => ht c (by rwa [codeOf_codes] at hc)) (h.last c)

/-- Lists behind commas. -/
private theorem Ready.commas (h : Ready ps) {ls : List (List Piece)}
    (hls : ∀ l ∈ ls, ∀ qs, Tidy qs → Ready (qs ++ l)) :
    Ready (ps ++ ls.flatMap fun l => .code ',' :: l) := by
  induction ls generalizing ps with
  | nil => simpa using h
  | cons l ls ih =>
      have hl := hls l List.mem_cons_self _ (h.separator (c := ',') (by decide) (by decide))
      have hrest := ih hl fun k hk => hls k (List.mem_cons_of_mem l hk)
      simpa using hrest

/-- Lists with commas between them. -/
theorem Tidy.commaJoin (h : Tidy ps) (ls : List (List Piece))
    (hls : ∀ l ∈ ls, ∀ qs, Tidy qs → Ready (qs ++ l)) : Ready (ps ++ commaJoin ls) := by
  cases ls with
  | nil => simpa [Redcli.commaJoin] using h.toReady
  | cons l ls =>
      have hrest := (hls l List.mem_cons_self ps h).commas
        fun k hk => hls k (List.mem_cons_of_mem l hk)
      rwa [List.append_assoc] at hrest

end Pieces

/-- A number does not end with a slash. -/
private theorem getLast?_number {t : Text} (ht : ∀ c ∈ t, isNumberChar c = true) :
    ∀ c ∈ t.getLast?, c ≠ '/' := by
  rintro c hc rfl
  exact absurd (ht _ (List.mem_of_mem_getLast? hc)) (by decide)

/-- A string ends with a quote. -/
private theorem getLast?_string (t : Text) : ∀ c ∈ ('"' :: t ++ ['"']).getLast?, c ≠ '/' := by
  intro c hc
  rw [List.getLast?_concat] at hc
  cases hc
  decide

section Tokens

variable {ps : List Piece}

theorem Tidy.item (h : Tidy ps) (i : ArrayItem) : Ready (ps ++ i.pieces) := by
  have hliteral := (h.gap i.before).token (getLast?_number i.literal.isNumberChar)
  simpa only [ArrayItem.pieces, List.append_assoc] using hliteral.gap i.after

theorem Tidy.value (h : Tidy ps) (v : Value) : Ready (ps ++ v.pieces) := by
  cases v with
  | int l => exact h.token (getLast?_number l.isNumberChar)
  | decimal l => exact h.token (getLast?_number l.isNumberChar)
  | str us => exact h.token (getLast?_string (strText us))
  | array lead items =>
      have hlead := (h.toReady.separator (c := '[') (by decide) (by decide)).gap lead
      have hitems := hlead.commaJoin (items.map ArrayItem.pieces) fun l hl qs hqs => by
        obtain ⟨i, -, rfl⟩ := List.mem_map.mp hl
        exact hqs.item i
      have hclose := hitems.separator (c := ']') (by decide) (by decide)
      simpa [Value.pieces] using hclose.toReady

theorem Tidy.member (h : Tidy ps) (m : Member) : Ready (ps ++ m.pieces) := by
  have hkey := ((h.gap m.lead).token (t := quoted m.key) (getLast?_string m.key)).gap m.afterKey
  have hcolon := (hkey.separator (c := ':') (by decide) (by decide)).gap m.afterColon
  have hvalue := (hcolon.value m.value).gap m.afterValue
  simpa only [Member.pieces, List.append_assoc] using hvalue

end Tokens

/-- In a document no comment stands behind a slash, or between two characters of a word. -/
theorem FlatObject.ready_pieces (o : FlatObject) : Ready o.pieces := by
  have hopen := ((tidy_nil.gap o.lead).separator (c := '{') (by decide) (by decide)).gap o.inner
  have hmembers := hopen.commaJoin (o.members.map Member.pieces) fun l hl qs hqs => by
    obtain ⟨m, -, rfl⟩ := List.mem_map.mp hl
    exact hqs.member m
  have hclose := (hmembers.separator (c := '}') (by decide) (by decide)).gap o.trail
  simpa [FlatObject.pieces] using hclose.toReady

/-! ## Loading a configuration with comments -/

/-- The getter for a type of keys returns the same for two texts. -/
def SameField (text text' key : Text) : KeyKind → Prop
  | .text => jsonGetStr text key = jsonGetStr text' key
  | .int => ∀ dflt, jsonGetInt text key dflt = jsonGetInt text' key dflt
  | .double => ∀ dflt, jsonGetDouble text key dflt = jsonGetDouble text' key dflt
  | .intArray => jsonGetIntArray text key = jsonGetIntArray text' key

theorem isWord_of_documented : ∀ k ∈ documentedKeys, k.1.all isWord = true := by
  decide +kernel

/-- The getters pass over harmless comments of a document. -/
theorem sameField_strip (o : FlatObject) {key : Text} {kind : KeyKind}
    (hkey : ∀ c ∈ key, isWord c = true) (hcomments : CommentsAre (Harmless key kind) o.pieces) :
    SameField o.text o.strip.text key kind := by
  have hapart := o.ready_pieces.apart
  rw [o.strip_text, FlatObject.text]
  cases kind with
  | text => exact jsonGetStr_pieces hkey hapart hcomments
  | int => exact jsonGetInt_pieces hkey hapart hcomments
  | double => exact jsonGetDouble_pieces hkey hapart hcomments
  | intArray => exact jsonGetIntArray_pieces hkey hapart hcomments

/-- Comments that are harmless for every documented key make no difference to the configuration
that is loaded. -/
theorem loadConfig_comments (o : FlatObject) (cfg : BenchConfig)
    (hcomments : ∀ key kind, (key, kind) ∈ documentedKeys →
      CommentsAre (Harmless key kind) o.pieces) :
    loadConfig (some o.text) cfg = loadConfig (some o.strip.text) cfg := by
  have hsame : ∀ k ∈ documentedKeys, SameField o.text o.strip.text k.1 k.2 := fun k hk =>
    sameField_strip o (List.all_eq_true.mp (isWord_of_documented k hk)) (hcomments k.1 k.2 hk)
  simp only [documentedKeys, List.forall_mem_cons, SameField] at hsame
  simp only [loadConfig, hsame]

/-! ## Objects with comments -/

/-- A gap of one comment line. -/
def Gap.ofComment (t : Text) (h : '\n' ∉ t) : Gap := ⟨[.comment t h], by simp⟩

/-- The object `{"snappy_level":1,"formats":[1]}` with comments behind the first value and the
opening bracket. -/
def commentedObject : FlatObject :=
  { lead := .none
    inner := .none
    members :=
      [{ Member.plain "snappy_level".toList (.int .one) (by decide) with
          afterValue := .ofComment "\"encode\": 1, \"decode\": 2".toList (by decide) },
        .plain "formats".toList
          (.array (.ofComment "the codecs, see \"formats\"".toList (by decide))
            [⟨.none, .one, .none⟩]) (by decide)]
    trail := .none }

theorem commentedObject_pieces : commentedObject.pieces =
    codes "\x7b\"snappy_level\":1".toList ++
      .comment "\"encode\": 1, \"decode\": 2".toList (by decide) ::
        (codes ",\"formats\":[".toList ++
          .comment "the codecs, see \"formats\"".toList (by decide) :: codes "1]\x7d".toList) := by
  rfl

/-- Loading this object with and without its comments. -/
theorem loadConfig_comments_commentedObject :
    loadConfig (some commentedObject.text) {} =
      loadConfig (some commentedObject.strip.text) {} := by
  have hfirst : ∀ k ∈ documentedKeys, Harmless k.1 k.2 "\x7b\"snappy_level\":1".toList
      "\"encode\": 1, \"decode\": 2".toList := by
    decide +kernel
  have hsecond : ∀ k ∈ documentedKeys, Harmless k.1 k.2
      "\x7b\"snappy_level\":1,\"formats\":[".toList
      "the codecs, see \"formats\"".toList := by
    decide +kernel
  refine loadConfig_comments commentedObject {} fun key kind hk => ?_
  rw [commentedObject_pieces]
  refine .codes_append (.comment_cons (hfirst _ hk) (.codes_append (.comment_cons ?_
    (commentsAre_codes _))))
  exact hsecond _ hk

/-- The object `{"block_line":1}` with a comment in front of the value. -/
def commentedValue : FlatObject :=
  { lead := .none
    inner := .none
    members :=
      [{ Member.plain "block_line".toList (.int .one) (by decide) with
          afterColon := .ofComment "rows".toList (by decide) }]
    trail := .none }

/-- A comment between the colon and the value makes `load_config` load the value `0`. -/
theorem loadConfig_commentedValue :
    loadConfig (some commentedValue.text) {} ≠ loadConfig (some commentedValue.strip.text) {} := by
  intro h
  have hrows := congrArg (fun r => r.toOption.map fun v => v.2.blockLine) h
  exact absurd hrows (by decide +kernel)

end Redcli
