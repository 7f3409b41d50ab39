import Redcli.Config.Lookup

/-!
# Reading Past Comments

Searches and conversions on a list of pieces with and without its comments. What a search looks
for when it comes to a comment depends on the characters in front of the comment.

## Main results

* `behind_pieces`: a search passes over comments without the pattern;
* `numeral_pieces`, `readQuoted_pieces`, `readInts_pieces`: comments make no difference to a
  number, to a string that ends in front of them, and to an array if they have no digits;
* `afterColon_pieces`: comments behind the start of a value make no difference to the value.
-/

namespace Redcli

open TextSearch

/-! ## The comments of a list of pieces -/

/-- A property of the comments of a list of pieces: of the text in front of a comment, without
the comments in it, and of the comment. -/
def CommentsAre (P : Text → Text → Prop) (ps : List Piece) : Prop :=
  ∀ pre t h post, ps = pre ++ .comment t h :: post → P (codeOf pre) t

section CommentsAre

variable {P : Text → Text → Prop} {ps qs : List Piece}

theorem CommentsAre.append_left (h : CommentsAre P (ps ++ qs)) : CommentsAre P ps := by
  rintro pre t ht post rfl
  exact h pre t ht (post ++ qs) (by simp)

theorem CommentsAre.append_right (h : CommentsAre P (ps ++ qs)) :
    CommentsAre (fun before => P (codeOf ps ++ before)) qs := by
  rintro pre t ht post rfl
  simpa using h (ps ++ pre) t ht post (by simp)

theorem CommentsAre.cons_code {c : Char} (h : CommentsAre P (.code c :: ps)) :
    CommentsAre (fun before => P (c :: before)) ps := by
  rintro pre t ht post rfl
  exact h (.code c :: pre) t ht post rfl

theorem CommentsAre.cons_comment {t : Text} {ht : '\n' ∉ t}
    (h : CommentsAre P (.comment t ht :: ps)) : P [] t ∧ CommentsAre P ps := by
  refine ⟨h [] t ht ps rfl, ?_⟩
  rintro pre u hu post rfl
  exact h (.comment t ht :: pre) u hu post rfl

theorem commentsAre_codes (t : Text) : CommentsAre P (codes t) := by
  intro pre u hu post heq
  have hmem : Piece.comment u hu ∈ codes t := by simp [heq]
  obtain ⟨c, -, hc⟩ := List.mem_map.mp hmem
  cases hc

theorem CommentsAre.codes_append {t : Text} (h : CommentsAre (fun before => P (t ++ before)) ps) :
    CommentsAre P (codes t ++ ps) := by
  induction t generalizing P with
  | nil => exact h
  | cons c t ih =>
      intro pre u hu post heq
      cases pre with
      | nil => cases heq
      | cons p pre =>
          obtain ⟨rfl, hrest⟩ := List.cons.inj heq
          exact ih (P := fun before => P (c :: before)) h pre u hu post hrest

theorem CommentsAre.comment_cons {t : Text} {ht : '\n' ∉ t} (hhead : P [] t)
    (h : CommentsAre P ps) : CommentsAre P (.comment t ht :: ps) := by
  intro pre u hu post heq
  cases pre with
  | nil =>
      cases heq
      exact hhead
  | cons p pre =>
      obtain ⟨rfl, hrest⟩ := List.cons.inj heq
      exact h pre u hu post hrest

theorem CommentsAre.mono {Q : Text → Text → Prop} (h : CommentsAre P ps)
    (hPQ : ∀ before t, P before t → Q before t) : CommentsAre Q ps :=
  fun pre t ht post heq => hPQ _ _ (h pre t ht post heq)

end CommentsAre

/-! ## Comments between tokens -/

/-- The characters of numbers, names and quotes. -/
def isWord (c : Char) : Bool := isNumberChar c || ['_', '"'].contains c

/-- A comment stands behind a slash, or between two characters of a word. -/
def Parts (c : Char) (ps : List Piece) : Prop :=
  c = '/' ∨ isWord c = true ∧ ∃ d ∈ (codeOf ps).head?, isWord d = true

/-- No comment stands behind a slash, or between two characters of a word. -/
def Apart : List Piece → Prop
  | [] => True
  | .code c :: ps => (∀ t ht qs, ps = .comment t ht :: qs → ¬ Parts c ps) ∧ Apart ps
  | .comment _ _ :: ps => Apart ps

theorem Apart.append_left {ps qs : List Piece} (h : Apart (ps ++ qs)) : Apart ps := by
  induction ps with
  | nil => trivial
  | cons p ps ih =>
      cases p with
      | comment t ht => exact ih h
      | code c =>
          refine ⟨?_, ih h.2⟩
          rintro t ht rest rfl hparts
          refine h.1 t ht (rest ++ qs) rfl (hparts.imp_right ?_)
          rintro ⟨hc, d, hd, hword⟩
          have hfirst : (codeOf rest).head? = some d := hd
          exact ⟨hc, d, by simp [Piece.codeText, hfirst], hword⟩

theorem Apart.append_right {ps qs : List Piece} (h : Apart (ps ++ qs)) : Apart qs := by
  induction ps with
  | nil => exact h
  | cons p ps ih =>
      cases p with
      | code c => exact ih h.2
      | comment t ht => exact ih h

/-- A pattern without the ends of a comment, in which no comment can stand. -/
structure Token (pat : Text) : Prop where
  ne_nil : pat ≠ []
  slash : '/' ∉ pat
  newline : '\n' ∉ pat
  word : pat.length = 1 ∨ ∀ c ∈ pat, isWord c = true

theorem token_singleton {c : Char} (hslash : c ≠ '/') (hnewline : c ≠ '\n') : Token [c] where
  ne_nil := List.cons_ne_nil c []
  slash := by simpa using hslash.symm
  newline := by simpa using hnewline.symm
  word := .inl rfl

theorem token_quoted {key : Text} (hkey : ∀ c ∈ key, isWord c = true) : Token (quoted key) := by
  have hword : ∀ c ∈ quoted key, isWord c = true := by
    intro c hc
    simp only [quoted, List.cons_append, List.mem_cons, List.mem_append, List.not_mem_nil,
      or_false] at hc
    rcases hc with rfl | hc | rfl
    · decide
    · exact hkey c hc
    · decide
  exact
    { ne_nil := by simp [quoted]
      slash := fun h => absurd (hword _ h) (by decide)
      newline := fun h => absurd (hword _ h) (by decide)
      word := .inr hword }

/-- A word at the front of the text without comments has no comment in it. -/
theorem eq_codes_append {pat : Text} {ps : List Piece} {c : Char} (hapart : Apart (.code c :: ps))
    (hword : pat.length = 1 ∨ ∀ d ∈ pat, isWord d = true)
    (hfront : pat <+: codeOf (.code c :: ps)) (hne : pat ≠ []) :
    ∃ post, .code c :: ps = codes pat ++ post := by
  induction pat generalizing c ps with
  | nil => exact absurd rfl hne
  | cons d pat ih =>
      obtain ⟨rfl, hrest⟩ := List.cons_prefix_cons.mp hfront
      cases pat with
      | nil => exact ⟨ps, rfl⟩
      | cons e pat =>
          have hall : ∀ f ∈ d :: e :: pat, isWord f = true :=
            hword.resolve_left (by simp)
          have he : isWord e = true := hall e (by simp)
          obtain ⟨w, hw⟩ := hrest
          change e :: pat ++ w = codeOf ps at hw
          cases ps with
          | nil => cases hw
          | cons p ps =>
              cases p with
              | comment t ht =>
                  refine absurd ?_ (hapart.1 t ht ps rfl)
                  refine .inr ⟨hall d (by simp), e, ?_, he⟩
                  rw [← hw]
                  rfl
              | code f =>
                  obtain ⟨post, hpost⟩ := ih hapart.2
                    (.inr fun g hg => hall g (List.mem_cons_of_mem d hg)) ⟨w, hw⟩ (by simp)
                  exact ⟨post, by rw [hpost]; rfl⟩

/-- What stands at the front of a text stands at the front without comments. -/
theorem prefix_codeOf {pat : Text} {ps : List Piece} (hslash : '/' ∉ pat)
    (hfront : pat <+: textOf ps) : pat <+: codeOf ps := by
  induction pat generalizing ps with
  | nil => exact List.nil_prefix
  | cons d pat ih =>
      have hd : d ≠ '/' := fun h => hslash (h ▸ List.mem_cons_self)
      cases ps with
      | nil => exact hfront
      | cons p ps =>
          cases p with
          | comment t ht => exact absurd (List.cons_prefix_cons.mp hfront).1 hd
          | code c =>
              obtain ⟨rfl, hrest⟩ := List.cons_prefix_cons.mp hfront
              exact List.cons_prefix_cons.mpr ⟨rfl, ih (fun h => hslash (List.mem_cons_of_mem d h))
                hrest⟩

/-- Two lists of pieces with a separator between them, or at their ends. -/
theorem Apart.append {ps qs : List Piece} (hps : Apart ps) (hqs : Apart qs)
    (hlast : ∀ c ∈ (codeOf ps).getLast?, c ≠ '/' ∧
      (isWord c = true → ∀ d ∈ (codeOf qs).head?, isWord d = false)) : Apart (ps ++ qs) := by
  induction ps with
  | nil => exact hqs
  | cons p ps ih =>
      cases p with
      | comment t ht => exact ih hps hlast
      | code c =>
          refine ⟨?_, ih hps.2 fun d hd => hlast d ?_⟩
          · intro t ht rest heq hparts
            cases ps with
            | nil =>
                -- the comment is the first piece behind the junction
                obtain ⟨hslash, hword⟩ := hlast c rfl
                rcases hparts with h | ⟨hc, d, hd, hd'⟩
                · exact hslash h
                · rw [hword hc d hd] at hd'
                  cases hd'
            | cons p ps =>
                obtain ⟨rfl, -⟩ := List.cons.inj heq
                refine hps.1 t ht ps rfl (hparts.imp_right ?_)
                rintro ⟨hc, d, hd, hd'⟩
                refine ⟨hc, d, ?_, hd'⟩
                cases hcode : codeOf ps with
                | cons e w => simpa [Piece.codeText, hcode] using hd
                | nil =>
                    -- nothing but comments up to the junction
                    have hword := (hlast c (by simp [Piece.codeText, hcode])).2 hc d
                      (by simpa [Piece.codeText, hcode] using hd)
                    rw [hword] at hd'
                    cases hd'
          · rw [codeOf_cons, Piece.codeText, List.singleton_append, List.getLast?_cons,
              Option.mem_def.mp hd]
            rfl

/-- There is no comment between characters. -/
theorem apart_codes (t : Text) : Apart (codes t) := by
  induction t with
  | nil => trivial
  | cons c t ih =>
      refine ⟨fun u hu qs heq => ?_, ih⟩
      cases t <;> cases heq

/-! ## Searching -/

/-- A comment without the pattern, or behind the pattern and with a property. -/
def Passes (pat : Text) (P : Text → Text → Prop) (before t : Text) : Prop :=
  (behind pat before).elim (¬ pat <:+: t) fun v => P v t

instance {pat : Text} {P : Text → Text → Prop} [h : ∀ v t, Decidable (P v t)] (before t : Text) :
    Decidable (Passes pat P before t) :=
  match hbehind : behind pat before with
  | none => decidable_of_iff (¬ pat <:+: t) (by rw [Passes, hbehind]; rfl)
  | some v => decidable_of_iff (P v t) (by rw [Passes, hbehind]; rfl)

/-- A search finds nothing with and without comments, or the same with and without comments. -/
def FindsSame (pat : Text) (ps : List Piece) : Prop :=
  (behind pat (textOf ps) = none ∧ behind pat (codeOf ps) = none) ∨
    ∃ pre post, ps = pre ++ post ∧ behind pat (textOf ps) = some (textOf post) ∧
      behind pat (codeOf ps) = some (codeOf post) ∧ behind pat (codeOf pre) = some []

/-- A search passes over comments that do not have the pattern. -/
theorem findsSame_of_not_infix {pat : Text} {ps : List Piece} (hpat : Token pat)
    (hapart : Apart ps)
    (hcomments : CommentsAre (fun before t => behind pat before = none → ¬ pat <:+: t) ps) :
    FindsSame pat ps := by
  have hnil : behind pat [] = none := behind_eq_none_iff.mpr (by simpa using hpat.ne_nil)
  induction ps with
  | nil => exact .inl ⟨hnil, hnil⟩
  | cons p ps ih =>
      cases p with
      | comment t ht =>
          obtain ⟨hhead, hcomments⟩ := hcomments.cons_comment
          have htext : behind pat (textOf (.comment t ht :: ps)) = behind pat (textOf ps) := by
            have hskip : ∀ w, behind pat ('/' :: w) = behind pat w :=
              fun w => behind_skip (u := []) hpat.ne_nil hpat.slash (by simpa using hpat.ne_nil) w
            simp only [textOf_cons, Piece.text, List.cons_append, List.append_assoc, hskip]
            exact behind_skip hpat.ne_nil hpat.newline (hhead hnil) _
          rcases ih hapart hcomments with ⟨hnone, hnone'⟩ | ⟨pre, post, rfl, hsome, hsome', hpre⟩
          · exact .inl ⟨htext.trans hnone, hnone'⟩
          · exact .inr ⟨.comment t ht :: pre, post, rfl, htext.trans hsome, hsome', hpre⟩
      | code c =>
          by_cases hfront : pat <+: codeOf (.code c :: ps)
          · -- the pattern stands here
            obtain ⟨post, hpost⟩ := eq_codes_append hapart hpat.word hfront hpat.ne_nil
            refine .inr ⟨codes pat, post, hpost, ?_, ?_, ?_⟩
            · rw [hpost, textOf_append, textOf_codes, behind_of_prefix hpat.ne_nil]
            · rw [hpost, codeOf_append, codeOf_codes, behind_of_prefix hpat.ne_nil]
            · simpa using behind_of_prefix hpat.ne_nil []
          · have hfront' : ¬ pat <+: textOf (.code c :: ps) :=
              fun h => hfront (prefix_codeOf hpat.slash h)
            have htext : behind pat (textOf (.code c :: ps)) = behind pat (textOf ps) := by
              rw [textOf_cons, Piece.text, List.singleton_append] at hfront' ⊢
              rw [behind_cons, if_neg hfront']
            have hcode : ∀ w, w <+: codeOf ps → behind pat (c :: w) = behind pat w := by
              rintro w ⟨v, hv⟩
              rw [behind_cons, if_neg]
              intro h
              refine hfront (h.trans ⟨v, ?_⟩)
              rw [codeOf_cons, ← hv]
              rfl
            have hcomments' : CommentsAre
                (fun before t => behind pat before = none → ¬ pat <:+: t) ps := by
              rintro pre t ht post rfl
              intro hnone
              refine hcomments.cons_code pre t ht post rfl ?_
              rw [hcode _ ⟨_, (codeOf_append pre _).symm⟩, hnone]
            rcases ih hapart.2 hcomments' with
              ⟨hnone, hnone'⟩ | ⟨pre, post, rfl, hsome, hsome', hpre⟩
            · refine .inl ⟨htext.trans hnone, ?_⟩
              exact (hcode _ List.prefix_rfl).trans hnone'
            · refine .inr ⟨.code c :: pre, post, rfl, htext.trans hsome, ?_, ?_⟩
              · exact (hcode _ List.prefix_rfl).trans hsome'
              · exact (hcode _ ⟨_, (codeOf_append pre post).symm⟩).trans hpre

/-- A search passes over comments without the pattern, and what is found has the same comments
behind it. -/
theorem behind_pieces {pat : Text} {P : Text → Text → Prop} {ps : List Piece} (hpat : Token pat)
    (hapart : Apart ps) (hcomments : CommentsAre (Passes pat P) ps) :
    (behind pat (textOf ps) = none ∧ behind pat (codeOf ps) = none) ∨
      ∃ qs, behind pat (textOf ps) = some (textOf qs) ∧
        behind pat (codeOf ps) = some (codeOf qs) ∧ Apart qs ∧ CommentsAre P qs := by
  have hsame := findsSame_of_not_infix hpat hapart (hcomments.mono fun before t h hnone => by
    rwa [Passes, hnone] at h)
  rcases hsame with hnone | ⟨pre, post, rfl, htext, hcode, hpre⟩
  · exact .inl hnone
  · refine .inr ⟨post, htext, hcode, hapart.append_right, hcomments.append_right.mono ?_⟩
    intro before t h
    rwa [Passes, behind_append hpre] at h

/-! ## Reading -/

/-- A run of word characters has no comment in it. -/
theorem word_pieces {q : Char → Bool} (hq : ∀ c, q c = true → isWord c = true) {c : Char}
    {ps : List Piece} (hapart : Apart (.code c :: ps)) :
    ∃ run rest, .code c :: ps = codes run ++ rest ∧ (∀ d ∈ run, q d = true) ∧
      (∀ d ∈ (textOf rest).head?, q d = false) ∧ ∀ d ∈ (codeOf rest).head?, q d = false := by
  induction ps generalizing c with
  | nil =>
      by_cases hc : q c = true
      · exact ⟨[c], [], rfl, by simpa using hc, by simp, by simp⟩
      · refine ⟨[], [.code c], rfl, by simp, ?_, ?_⟩ <;> simpa [Piece.text, Piece.codeText] using hc
  | cons p ps ih =>
      by_cases hc : q c = true
      swap
      · refine ⟨[], .code c :: p :: ps, rfl, by simp, ?_, ?_⟩ <;>
          simpa [Piece.text, Piece.codeText] using hc
      cases p with
      | comment t ht =>
          refine ⟨[c], .comment t ht :: ps, rfl, by simpa using hc, ?_, ?_⟩
          · intro d hd
            cases hd
            by_contra hslash
            exact absurd (hq _ (by simpa using hslash)) (by decide)
          · -- a word character behind the comment would continue the run
            intro d hd
            by_contra hword
            exact hapart.1 t ht ps rfl (.inr ⟨hq c hc, d, hd, hq d (by simpa using hword)⟩)
      | code e =>
          obtain ⟨run, rest, heq, hrun, htext, hcode⟩ := ih hapart.2
          refine ⟨c :: run, rest, by rw [heq]; rfl, ?_, htext, hcode⟩
          intro d hd
          rcases List.mem_cons.mp hd with rfl | hd
          · exact hc
          · exact hrun d hd

/-- Comments make no difference to a number. -/
theorem numeral_pieces {c : Char} {ps : List Piece} (hapart : Apart (.code c :: ps)) :
    (c :: textOf ps).takeWhile isNumberChar = (c :: codeOf ps).takeWhile isNumberChar := by
  obtain ⟨run, rest, heq, hrun, htext, hcode⟩ :=
    word_pieces (q := isNumberChar) (fun d hd => by simp [isWord, hd]) hapart
  have ht := congrArg textOf heq
  have hc := congrArg codeOf heq
  simp only [textOf_cons, textOf_append, textOf_codes, codeOf_cons, codeOf_append, codeOf_codes,
    Piece.text, Piece.codeText, List.singleton_append] at ht hc
  rw [ht, hc, takeWhile_append_stop hrun htext, takeWhile_append_stop hrun hcode]

/-- Comments behind the next quote make no difference to a string. -/
theorem readQuoted_pieces {ps : List Piece}
    (hcomments : CommentsAre (fun before _ => '"' ∈ before) ps) :
    readQuoted ('"' :: textOf ps) = readQuoted ('"' :: codeOf ps) := by
  have hsame : ('"' ∈ textOf ps ↔ '"' ∈ codeOf ps) ∧
      ((textOf ps).takeWhile (fun c => c ≠ '"') = (codeOf ps).takeWhile fun c => c ≠ '"') := by
    induction ps with
    | nil => exact ⟨Iff.rfl, rfl⟩
    | cons p ps ih =>
        cases p with
        | comment t ht => exact absurd hcomments.cons_comment.1 List.not_mem_nil
        | code c =>
            by_cases hc : c = '"'
            · subst hc
              simp [Piece.text, Piece.codeText]
            · obtain ⟨hmem, htake⟩ := ih (hcomments.cons_code.mono fun before _ h =>
                (List.mem_cons.mp h).resolve_left (Ne.symm hc))
              simp only [textOf_cons, codeOf_cons, Piece.text, Piece.codeText,
                List.singleton_append, List.mem_cons, hmem, List.takeWhile_cons, htake]
              exact ⟨trivial, trivial⟩
  rw [readQuoted, readQuoted, hsame.2]
  simp only [hsame.1]

/-- Comments without digits make no difference to the numbers of an array. -/
theorem ints_pieces {ps : List Piece} (hapart : Apart ps)
    (hcomments : CommentsAre (fun _ t => ∀ c ∈ t, c.isDigit = false) ps) :
    ints (textOf ps) = ints (codeOf ps) := by
  match ps with
  | [] => rfl
  | .comment t ht :: ps =>
      obtain ⟨hdigits, hcomments⟩ := hcomments.cons_comment
      have hskip : ∀ c ∈ (Piece.comment t ht).text, c.isDigit = false := by
        intro c hc
        simp only [Piece.text, List.mem_cons, List.mem_append, List.not_mem_nil, or_false] at hc
        rcases hc with (rfl | rfl | hc) | rfl
        · decide
        · decide
        · exact hdigits c hc
        · decide
      rw [textOf_cons, ints_append hskip, @ints_pieces ps hapart hcomments]
      rfl
  | .code c :: ps =>
      by_cases hc : c.isDigit = true
      · -- a run of digits is one number
        obtain ⟨run, rest, heq, hrun, htext, hcode⟩ :=
          word_pieces (q := Char.isDigit)
            (fun d hd => by simp [isWord, isNumberChar_of_isDigit hd]) hapart
        have hne : run ≠ [] := by
          rintro rfl
          rw [codes_nil, List.nil_append] at heq
          have hhead := hcode c (by rw [← heq]; rfl)
          rw [hc] at hhead
          cases hhead
        have hlen : rest.length ≤ ps.length := by
          have hrun := List.length_pos_of_ne_nil hne
          have hlen := congrArg List.length heq
          rw [List.length_cons, List.length_append, codes, List.length_map] at hlen
          omega
        rw [heq] at hapart hcomments ⊢
        have hints := @ints_digits ⟨run, hne, hrun⟩
        rw [textOf_append, codeOf_append, textOf_codes, codeOf_codes, hints htext, hints hcode,
          ints_pieces hapart.append_right (hcomments.append_right.mono fun _ _ h => h)]
      · have hc' : c.isDigit = false := by simpa using hc
        rw [textOf_cons, codeOf_cons, Piece.text, Piece.codeText, List.singleton_append,
          List.singleton_append, ints_cons hc', ints_cons hc',
          ints_pieces hapart.2 (hcomments.cons_code.mono fun _ _ h => h)]
termination_by ps.length
decreasing_by all_goals simp only [List.length_cons]; omega

theorem mem_codeOf {ps : List Piece} {c : Char} : c ∈ codeOf ps ↔ .code c ∈ ps := by
  induction ps with
  | nil => simp
  | cons p ps ih => cases p <;> simp [Piece.codeText, ih]

/-- A character of the text that is in no comment. -/
theorem mem_textOf_of_mem_codeOf {ps : List Piece} {c : Char} (h : c ∈ codeOf ps) :
    c ∈ textOf ps :=
  List.mem_flatMap.mpr ⟨.code c, mem_codeOf.mp h, List.mem_singleton_self c⟩

/-- Pieces without a bracket outside of comments have none if the comments are inert. -/
private theorem notMem_textOf {ps : List Piece} (hcode : ']' ∉ codeOf ps)
    (hcomments : CommentsAre (fun _ t => Inert t) ps) : ']' ∉ textOf ps := by
  intro h
  obtain ⟨p, hp, hc⟩ := List.mem_flatMap.mp h
  cases p with
  | code c =>
      rw [Piece.text, List.mem_singleton] at hc
      exact hcode (mem_codeOf.mpr (hc ▸ hp))
  | comment t ht =>
      obtain ⟨pre, post, heq⟩ := List.append_of_mem hp
      have hinert : Inert t := hcomments pre t ht post heq
      simp only [Piece.text, List.cons_append, List.mem_cons, List.mem_append, List.not_mem_nil,
        or_false, Char.reduceEq, false_or] at hc
      exact (hinert _ hc).2 rfl

/-- Comments without digits and closing brackets make no difference to an array. -/
theorem readInts_pieces {ps : List Piece} (hapart : Apart ps)
    (hcomments : CommentsAre (fun before t => ']' ∈ before ∨ Inert t) ps) :
    readInts (textOf ps) = readInts (codeOf ps) := by
  -- in front of the first bracket outside of comments, every comment is inert
  have hinert : ∀ pre post, ps = pre ++ post → ']' ∉ codeOf pre →
      CommentsAre (fun _ t => Inert t) pre := by
    rintro pre post rfl hpre a t ht b rfl
    refine (hcomments.append_left a t ht b rfl).resolve_left fun h => hpre ?_
    simp [h]
  by_cases hclose : ']' ∈ codeOf ps
  · obtain ⟨pre, post, rfl, hpre⟩ := List.eq_append_cons_of_mem (mem_codeOf.mp hclose)
    have hpre' : ']' ∉ codeOf pre := fun h => hpre (mem_codeOf.mp h)
    have hcomments' := hinert pre _ rfl hpre'
    rw [textOf_append, codeOf_append, textOf_cons, codeOf_cons, Piece.text, Piece.codeText,
      List.singleton_append, List.singleton_append, readInts_append hpre',
      readInts_append (notMem_textOf hpre' hcomments')]
    exact ints_pieces hapart.append_left (hcomments'.mono fun _ _ h c hc => (h c hc).1)
  · have htext := notMem_textOf hclose (hinert ps [] (List.append_nil ps).symm hclose)
    rw [readInts, readInts, if_neg hclose, if_neg htext]

/-! ## Values behind a colon -/

/-- A text behind a colon has the start of a value, and a comment behind it is neither in a string
nor in what is taken for a comment. -/
structure BehindValue (v : Text) : Prop where
  started : v.dropWhile isSpace ≠ []
  closed : (v.dropWhile isBlank).head? = some '"' → '"' ∈ (v.dropWhile isBlank).tail
  ended : ['/', '/'] <+: v.dropWhile isBlank → '\n' ∈ v.dropWhile isBlank

instance (v : Text) : Decidable (BehindValue v) :=
  decidable_of_iff (v.dropWhile isSpace ≠ [] ∧
    ((v.dropWhile isBlank).head? = some '"' → '"' ∈ (v.dropWhile isBlank).tail) ∧
    (['/', '/'] <+: v.dropWhile isBlank → '\n' ∈ v.dropWhile isBlank))
    ⟨fun ⟨hstarted, hclosed, hended⟩ => ⟨hstarted, hclosed, hended⟩,
      fun h => ⟨h.started, h.closed, h.ended⟩⟩

/-- White space in front of a value has no comment in it. -/
theorem spaces_pieces {ps : List Piece}
    (hcomments : CommentsAre (fun before _ => before.dropWhile isSpace ≠ []) ps) :
    ∃ spaces rest, ps = codes spaces ++ rest ∧ (∀ c ∈ spaces, isSpace c = true) ∧
      (rest = [] ∨ ∃ c post, rest = .code c :: post ∧ isSpace c = false) := by
  induction ps with
  | nil => exact ⟨[], [], rfl, by simp, .inl rfl⟩
  | cons p ps ih =>
      cases p with
      | comment t ht => exact absurd rfl hcomments.cons_comment.1
      | code c =>
          by_cases hc : isSpace c = true
          · obtain ⟨spaces, rest, rfl, hspaces, hrest⟩ := ih (hcomments.cons_code.mono
              fun before _ h => by rwa [List.dropWhile_cons_of_pos hc] at h)
            exact ⟨c :: spaces, rest, rfl, List.forall_mem_cons.mpr ⟨hc, hspaces⟩, hrest⟩
          · exact ⟨[], _, rfl, by simp, .inr ⟨c, ps, rfl, by simpa using hc⟩⟩

section AfterSpace

variable {S X Y : Text} {c : Char} {post : List Piece}

/-- Behind white space stand two slashes outside of comments, or none at all. -/
private theorem slashes_cases (hS : ∀ d ∈ S, isSpace d = true) (hapart : Apart (.code c :: post)) :
    (S = [] ∧ c = '/' ∧ ∃ rest, post = .code '/' :: rest) ∨
      ¬ ['/', '/'] <+: S ++ c :: textOf post ∧ ¬ ['/', '/'] <+: S ++ c :: codeOf post := by
  have hhead : ∀ {d : Char} {w : Text}, d ≠ '/' → ¬ ['/', '/'] <+: d :: w :=
    fun hd h => hd (List.cons_prefix_cons.mp h).1.symm
  have hsecond : ∀ {d e : Char} {w : Text}, e ≠ '/' → ¬ ['/', '/'] <+: d :: e :: w :=
    fun he h => he (List.cons_prefix_cons.mp (List.cons_prefix_cons.mp h).2).1.symm
  cases S with
  | cons d S =>
      have hd : d ≠ '/' := by
        rintro rfl
        exact absurd (hS _ List.mem_cons_self) (by decide)
      exact .inr ⟨hhead hd, hhead hd⟩
  | nil =>
      by_cases hc : c = '/'
      swap
      · exact .inr ⟨hhead hc, hhead hc⟩
      cases post with
      | nil => exact .inr ⟨by simp [List.cons_prefix_cons], by simp [List.cons_prefix_cons]⟩
      | cons p post =>
          cases p with
          | comment t ht => exact absurd (.inl hc) (hapart.1 t ht post rfl)
          | code e =>
              by_cases he : e = '/'
              · exact .inl ⟨rfl, hc, post, by rw [he]⟩
              · exact .inr ⟨hsecond he, hsecond he⟩

/-- A number behind white space is the number behind it. -/
theorem numeral_spaces (hS : ∀ d ∈ S, isSpace d = true)
    (h : numeral (scalarText X) = numeral (scalarText Y)) :
    numeral (scalarText (S ++ X)) = numeral (scalarText (S ++ Y)) := by
  induction S with
  | nil => exact h
  | cons d S ih =>
      have hskip : ∀ w, numeral (d :: w) = numeral w := fun w => by
        rw [numeral, List.dropWhile_cons_of_pos (hS d List.mem_cons_self), numeral]
      have hrest := ih fun e he => hS e (List.mem_cons_of_mem d he)
      simp only [scalarText, List.cons_append, List.takeWhile_cons] at hrest ⊢
      split_ifs
      · rw [hskip, hskip, hrest]
      · rfl

/-- The number at the front of a text. -/
theorem numeral_scalarText (hc : isSpace c = false) (w : Text) :
    numeral (scalarText (c :: w)) = (c :: w).takeWhile isNumberChar := by
  have htake : ∀ t : Text, (scalarText t).takeWhile isNumberChar = t.takeWhile isNumberChar := by
    intro t
    induction t with
    | nil => rfl
    | cons d t ih =>
        by_cases hd : isNumberChar d = true
        · have hend : (!scalarEnds.contains d) = true := by rw [notMem_scalarEnds hd]; rfl
          have hkeep : scalarText (d :: t) = d :: scalarText t := List.takeWhile_cons_of_pos hend
          rw [hkeep, List.takeWhile_cons_of_pos hd, List.takeWhile_cons_of_pos hd, ih]
        · rw [scalarText, List.takeWhile_cons, List.takeWhile_cons_of_neg hd]
          split_ifs
          · exact List.takeWhile_cons_of_neg hd
          · rfl
  have hdrop : (scalarText (c :: w)).dropWhile isSpace = scalarText (c :: w) := by
    rw [scalarText, List.takeWhile_cons]
    split_ifs
    · exact List.dropWhile_cons_of_neg (by simp [hc])
    · rfl
  rw [numeral, hdrop, htake]

/-- Comments make no difference to a number behind white space. -/
theorem numeral_afterSpace (hS : ∀ d ∈ S, isSpace d = true) (hc : isSpace c = false)
    (hapart : Apart (.code c :: post)) :
    numeral (scalarText (S ++ c :: textOf post)) =
      numeral (scalarText (S ++ c :: codeOf post)) := by
  refine numeral_spaces hS ?_
  rw [numeral_scalarText hc, numeral_scalarText hc, numeral_pieces hapart]

/-- Comments make no difference to a string behind white space. -/
theorem readQuoted_afterSpace (hS : ∀ d ∈ S, isSpace d = true)
    (hcomments : S = [] → c = '"' → CommentsAre (fun before _ => '"' ∈ before) post) :
    readQuoted (S ++ c :: textOf post) = readQuoted (S ++ c :: codeOf post) := by
  have hnone : ∀ d w, d ≠ '"' → readQuoted (d :: w) = [] := by
    intro d w hd
    rw [readQuoted]
    rintro t heq
    exact hd (List.cons.inj heq).1
  cases S with
  | nil =>
      by_cases hc : c = '"'
      · subst hc
        exact readQuoted_pieces (hcomments rfl rfl)
      · rw [List.nil_append, List.nil_append, hnone c _ hc, hnone c _ hc]
  | cons d S =>
      have hd : d ≠ '"' := by
        rintro rfl
        exact absurd (hS _ List.mem_cons_self) (by decide)
      rw [List.cons_append, List.cons_append, hnone d _ hd, hnone d _ hd]

end AfterSpace

/-- Comments behind a line feed make no difference to whether there is one. -/
private theorem newline_mem_iff {ps : List Piece}
    (hcomments : CommentsAre (fun before _ => '\n' ∈ before) ps) :
    '\n' ∈ textOf ps ↔ '\n' ∈ codeOf ps := by
  refine ⟨fun h => ?_, mem_textOf_of_mem_codeOf⟩
  obtain ⟨p, hp, hmem⟩ := List.mem_flatMap.mp h
  cases p with
  | code d =>
      rw [Piece.text, List.mem_singleton] at hmem
      exact mem_codeOf.mpr (hmem ▸ hp)
  | comment t ht =>
      -- the line feed at the end of a comment is not the first one
      obtain ⟨a, b, rfl⟩ := List.append_of_mem hp
      have hbefore := hcomments a t ht b rfl
      simp [hbefore]

/-- Comments behind the start of a value make no difference to what is read behind a colon. -/
theorem afterColon_pieces {α : Type} {ps : List Piece} (hapart : Apart ps)
    (hcomments : CommentsAre (fun before _ => BehindValue before) ps)
    {f : Text → Except TextFault α} (dflt : Except TextFault α)
    (hline : ∀ w w', f ('\n' :: w) = f ('\n' :: w'))
    (hread : ∀ S c post, (∀ d ∈ S, isSpace d = true) → isSpace c = false →
      Apart (.code c :: post) →
      (S = [] → c = '"' → CommentsAre (fun before _ => '"' ∈ before) post) →
      f (S ++ c :: textOf post) = f (S ++ c :: codeOf post)) :
    ((afterColon (textOf ps)).bind fun v => v.elim dflt f) =
      (afterColon (codeOf ps)).bind fun v => v.elim dflt f := by
  obtain ⟨spaces, rest, rfl, hspaces, rfl | ⟨c, post, rfl, hc⟩⟩ :=
    spaces_pieces (hcomments.mono fun _ _ h => h.started)
  · simp
  have hblank : isBlank c = false := by
    by_contra h
    rw [isSpace_of_isBlank (by simpa using h)] at hc
    cases hc
  -- the parser skips some of the white space, and stops at the first piece of the value
  have hdrop : ∀ w, (spaces ++ c :: w).dropWhile isBlank = spaces.dropWhile isBlank ++ c :: w :=
    dropWhile_append_cons hblank spaces
  have hpost : CommentsAre (fun before _ => BehindValue (spaces ++ c :: before)) post := by
    refine hcomments.append_right.cons_code.mono fun before _ h => ?_
    rwa [codeOf_codes] at h
  have hS : ∀ d ∈ spaces.dropWhile isBlank, isSpace d = true :=
    fun d hd => hspaces d ((List.dropWhile_suffix _).subset hd)
  have hapart := hapart.append_right
  generalize spaces.dropWhile isBlank = S at hdrop hS
  have htextOf : textOf (codes spaces ++ .code c :: post) = spaces ++ c :: textOf post := by
    simp [Piece.text]
  have hcodeOf : codeOf (codes spaces ++ .code c :: post) = spaces ++ c :: codeOf post := by
    simp [Piece.codeText]
  rw [htextOf, hcodeOf]
  rcases slashes_cases hS hapart with ⟨rfl, rfl, rest, rfl⟩ | ⟨htext, hcode⟩
  · -- the search for the end of the line finds one in both texts, or in none
    have hfront : ∀ w : Text, ['/', '/'] <+: '/' :: '/' :: w := fun w => ⟨w, rfl⟩
    have hended : CommentsAre (fun before _ => '\n' ∈ before) rest := by
      refine hpost.cons_code.mono fun before _ h => ?_
      have hended := h.ended
      rw [hdrop] at hended
      simpa using hended (hfront _)
    have hafter : ∀ w, afterColon (spaces ++ '/' :: '/' :: w) = .ok (lineEnd ('/' :: '/' :: w)) :=
      fun w => afterColon_line (hdrop ('/' :: w)) (hfront w)
    have htext : textOf (.code '/' :: rest) = '/' :: textOf rest := rfl
    have hcode : codeOf (.code '/' :: rest) = '/' :: codeOf rest := rfl
    rw [htext, hcode, hafter, hafter]
    exact elim_lineEnd_congr (by simp [newline_mem_iff hended]) dflt hline
  · have hne : ∀ w, S ++ c :: w ≠ [] :=
      fun w => List.append_ne_nil_of_right_ne_nil S (List.cons_ne_nil c w)
    rw [afterColon_start (hdrop _) (hne _) htext, afterColon_start (hdrop _) (hne _) hcode]
    refine hread S c post hS hc hapart ?_
    rintro rfl rfl
    refine hpost.mono fun before _ h => ?_
    have hclosed := h.closed
    rw [hdrop, List.nil_append] at hclosed
    exact hclosed rfl

end Redcli
