import Redcli.Config.Comments

/-!
# Where a Key Stands in Quotes

The getters look for a key between two quotes. In an object such a place is the key of a member,
or it lies in a string or in a comment line: the characters between two tokens do not occur in a
key.

## Main results

* `FlatObject.quoted_infix_iff`: where a key stands in quotes;
* `FlatObject.found_of_legible`: if it only does so as the key of its member, the lookup of the
  key finds the member;
* `FlatObject.loadConfig_legible`: the configuration that an object with comments describes is
  the one that is loaded.
-/

namespace Redcli

open TextSearch

/-! ## Quotes -/

/-- A key between quotes is the whole of a text without quotes. -/
theorem quoted_infix_quoted_iff {key t : Text} (ht : '"' ∉ t) :
    quoted key <:+: quoted t ↔ t = key := by
  constructor
  · rintro ⟨a, b, heq⟩
    -- the first quote of the text is the first one of the key
    have hfirst : a = [] := by
      cases a with
      | nil => rfl
      | cons c a =>
          exfalso
          have htail : a ++ ('"' :: (key ++ '"' :: b)) = t ++ ['"'] := by
            simpa [quoted] using (List.cons.inj heq).2
          have hcount := congrArg (List.count '"') htail
          simp only [List.count_append, List.count_cons_self, List.count_nil,
            List.count_eq_zero_of_not_mem ht] at hcount
          omega
    subst hfirst
    have htail : key ++ '"' :: b = t ++ ['"'] := by simpa [quoted] using heq
    -- and so is the second one
    have hkey : '"' ∉ key := by
      have hcount := congrArg (List.count '"') htail
      simp only [List.count_append, List.count_cons_self, List.count_nil,
        List.count_eq_zero_of_not_mem ht] at hcount
      exact List.count_eq_zero.mp (by omega)
    have htake := congrArg (List.takeWhile fun d => decide (d ≠ '"')) htail
    rw [takeWhile_ne_append hkey, takeWhile_ne_append ht] at htake
    exact htake.symm
  · rintro rfl
    exact List.infix_rfl

section Key

variable {key : Text}

theorem quoted_ne_nil : quoted key ≠ [] := List.cons_ne_nil _ _

/-- A character outside of words does not occur in a key between quotes. -/
theorem notMem_quoted (hkey : ∀ c ∈ key, isWord c = true) {c : Char} (hc : isWord c = false) :
    c ∉ quoted key := by
  simp only [quoted, List.cons_append, List.mem_cons, List.mem_append, List.not_mem_nil, or_false,
    not_or]
  have hquote : c ≠ '"' := by
    rintro rfl
    exact absurd hc (by decide)
  refine ⟨hquote, fun hmem => ?_, hquote⟩
  rw [hkey c hmem] at hc
  cases hc

/-- A character outside of words separates the places where a key stands in quotes. -/
theorem quoted_infix_cons_iff (hkey : ∀ c ∈ key, isWord c = true) {c : Char}
    (hc : isWord c = false) {u w : Text} :
    quoted key <:+: u ++ c :: w ↔ quoted key <:+: u ∨ quoted key <:+: w :=
  infix_append_cons_iff quoted_ne_nil (notMem_quoted hkey hc)

theorem not_quoted_infix_nil : ¬ quoted key <:+: [] := fun h =>
  quoted_ne_nil (List.eq_nil_of_infix_nil h)

/-! ## Pieces -/

/-- A comment line has a key in quotes. -/
def Cites (ps : List Piece) (key : Text) : Prop :=
  ∃ t ht, Piece.comment t ht ∈ ps ∧ quoted key <:+: t

theorem cites_append {ps qs : List Piece} :
    Cites (ps ++ qs) key ↔ Cites ps key ∨ Cites qs key := by
  simp only [Cites, List.mem_append]
  constructor
  · rintro ⟨t, ht, h | h, hinfix⟩
    · exact .inl ⟨t, ht, h, hinfix⟩
    · exact .inr ⟨t, ht, h, hinfix⟩
  · rintro (⟨t, ht, h, hinfix⟩ | ⟨t, ht, h, hinfix⟩)
    · exact ⟨t, ht, .inl h, hinfix⟩
    · exact ⟨t, ht, .inr h, hinfix⟩

@[simp] theorem cites_nil : ¬ Cites [] key := by
  rintro ⟨t, ht, h, -⟩
  cases h

@[simp] theorem cites_cons_code {c : Char} {ps : List Piece} :
    Cites (.code c :: ps) key ↔ Cites ps key := by
  simp [Cites]

theorem cites_cons_comment {t : Text} {ht : '\n' ∉ t} {ps : List Piece} :
    Cites (.comment t ht :: ps) key ↔ quoted key <:+: t ∨ Cites ps key := by
  constructor
  · rintro ⟨t', ht', h, hinfix⟩
    rcases List.mem_cons.mp h with heq | h
    · cases heq
      exact .inl hinfix
    · exact .inr ⟨t', ht', h, hinfix⟩
  · rintro (h | ⟨t', ht', h, hinfix⟩)
    · exact ⟨t, ht, List.mem_cons_self, h⟩
    · exact ⟨t', ht', List.mem_cons_of_mem _ h, hinfix⟩

@[simp] theorem cites_codes {t : Text} : ¬ Cites (codes t) key := by
  induction t with
  | nil => exact cites_nil
  | cons c t ih => simpa using ih

/-- A key in quotes lies in a comment line, if there are no quotes outside of comments. -/
theorem quoted_infix_pieces_iff (hkey : ∀ c ∈ key, isWord c = true) {ps : List Piece}
    (hcode : '"' ∉ codeOf ps) : quoted key <:+: textOf ps ↔ Cites ps key := by
  -- over the pieces, with the characters in front that belong to the same token
  suffices hfront : ∀ u : Text, '"' ∉ u → (quoted key <:+: u ++ textOf ps ↔ Cites ps key) by
    exact hfront [] List.not_mem_nil
  induction ps with
  | nil =>
      intro u hu
      refine iff_of_false (fun h => hu ?_) cites_nil
      rw [textOf_nil, List.append_nil] at h
      exact h.mem List.mem_cons_self
  | cons p ps ih =>
      intro u hu
      rw [codeOf_cons, List.mem_append, not_or] at hcode
      cases p with
      | code c =>
          have hc : '"' ∉ u ++ [c] := by
            rw [List.mem_append, not_or]
            exact ⟨hu, hcode.1⟩
          have htext : u ++ textOf (.code c :: ps) = (u ++ [c]) ++ textOf ps := by
            simp [Piece.text]
          rw [htext, ih hcode.2 _ hc, cites_cons_code]
      | comment t ht =>
          have htext : u ++ textOf (.comment t ht :: ps) =
              u ++ '/' :: ([] ++ '/' :: (t ++ '\n' :: ([] ++ textOf ps))) := by
            simp [Piece.text]
          have hnone : ¬ quoted key <:+: u := fun h => hu (h.mem List.mem_cons_self)
          rw [htext, quoted_infix_cons_iff hkey (by decide), quoted_infix_cons_iff hkey (by decide),
            quoted_infix_cons_iff hkey (by decide), ih hcode.2 [] List.not_mem_nil,
            or_iff_right hnone, or_iff_right not_quoted_infix_nil, cites_cons_comment]

/-! ## Gaps -/

/-- A gap is empty, or it starts and ends with a character outside of words. -/
theorem Gap.text_cases (g : Gap) :
    textOf g.pieces = [] ∨
      (∃ c t, textOf g.pieces = c :: t ∧ isWord c = false) ∧
        ∃ t c, textOf g.pieces = t ++ [c] ∧ isWord c = false := by
  obtain ⟨ps, hblank⟩ := g
  induction ps with
  | nil => exact .inl rfl
  | cons p ps ih =>
      right
      have hrest := ih fun c hc => hblank c (List.mem_cons_of_mem p hc)
      -- the first and the last character of a piece
      have hpiece : (∃ c t, p.text = c :: t ∧ isWord c = false) ∧
          ∃ t c, p.text = t ++ [c] ∧ isWord c = false := by
        cases p with
        | code c =>
            have hc := (isWord_of_isBlank (hblank c List.mem_cons_self)).1
            exact ⟨⟨c, [], rfl, hc⟩, [], c, rfl, hc⟩
        | comment t ht => exact ⟨⟨'/', _, rfl, by decide⟩, _, '\n', rfl, by decide⟩
      obtain ⟨⟨c, t, hfirst, hc⟩, t', c', hlast, hc'⟩ := hpiece
      refine ⟨⟨c, t ++ textOf ps, by simp [hfirst], hc⟩, ?_⟩
      rcases hrest with hnil | ⟨-, u, d, hu, hd⟩
      · exact ⟨t', c', by simp [hlast, hnil], hc'⟩
      · exact ⟨p.text ++ u, d, by simp [hu], hd⟩

theorem Gap.notMem_codeOf (g : Gap) {c : Char} (hc : isBlank c = false) : c ∉ codeOf g.pieces :=
  fun h => Bool.false_ne_true (hc.symm.trans (g.isBlank_of_mem h))

/-- A key in quotes lies in a gap or behind it. -/
theorem quoted_infix_gap_append (hkey : ∀ c ∈ key, isWord c = true) (g : Gap) {w : Text} :
    quoted key <:+: textOf g.pieces ++ w ↔ Cites g.pieces key ∨ quoted key <:+: w := by
  rw [← quoted_infix_pieces_iff hkey (g.notMem_codeOf (by decide))]
  rcases g.text_cases with hnil | ⟨-, t, c, ht, hc⟩
  · rw [hnil, List.nil_append, or_iff_right not_quoted_infix_nil]
  · rw [ht, List.append_assoc, List.singleton_append, quoted_infix_cons_iff hkey hc,
      quoted_infix_cons_iff hkey hc, or_iff_left not_quoted_infix_nil]

/-- A key in quotes lies in a gap or in front of it. -/
theorem quoted_infix_append_gap (hkey : ∀ c ∈ key, isWord c = true) (g : Gap) {u : Text} :
    quoted key <:+: u ++ textOf g.pieces ↔ quoted key <:+: u ∨ Cites g.pieces key := by
  rw [← quoted_infix_pieces_iff hkey (g.notMem_codeOf (by decide))]
  rcases g.text_cases with hnil | ⟨⟨c, t, ht, hc⟩, -⟩
  · rw [hnil, List.append_nil, or_iff_left not_quoted_infix_nil]
  · have hinner : quoted key <:+: c :: t ↔ quoted key <:+: [] ∨ quoted key <:+: t := by
      simpa using quoted_infix_cons_iff (u := []) (w := t) hkey hc
    rw [ht, quoted_infix_cons_iff hkey hc, hinner, or_iff_right not_quoted_infix_nil]

/-- The search for a key passes over a gap without it. -/
theorem behind_quoted_gap (hkey : ∀ c ∈ key, isWord c = true) {g : Gap}
    (hg : ¬ Cites g.pieces key) (w : Text) :
    behind (quoted key) (textOf g.pieces ++ w) = behind (quoted key) w := by
  have hnone := (quoted_infix_pieces_iff hkey (g.notMem_codeOf (by decide))).not.mpr hg
  rcases g.text_cases with hnil | ⟨-, t, c, ht, hc⟩
  · rw [hnil, List.nil_append]
  · rw [ht, quoted_infix_cons_iff hkey hc, not_or] at hnone
    rw [ht, List.append_assoc, List.singleton_append,
      behind_skip quoted_ne_nil (notMem_quoted hkey hc) hnone.1]

/-! ## Members -/

/-- A string has a key in quotes. -/
def Value.Cites : Value → Text → Prop
  | .str us, key => quoted key <:+: quoted (strText us)
  | _, _ => False

theorem codeOf_text_value {v : Value} (hv : ∀ us, v ≠ .str us) : '"' ∉ codeOf v.pieces := by
  have hnumber : ∀ t : Text, (∀ c ∈ t, isNumberChar c = true) → '"' ∉ t := fun t ht h =>
    absurd (ht _ h) (by decide)
  cases v with
  | int l =>
      rw [Value.pieces, codeOf_codes]
      exact hnumber _ l.isNumberChar
  | decimal l =>
      rw [Value.pieces, codeOf_codes]
      exact hnumber _ l.isNumberChar
  | str us => exact absurd rfl (hv us)
  | array lead items =>
      have hitem : ∀ i : ArrayItem, '"' ∉ codeOf i.pieces := by
        intro i
        simp only [ArrayItem.pieces, codeOf_append, codeOf_codes, List.mem_append, not_or]
        exact ⟨⟨i.before.notMem_codeOf (by decide), hnumber _ i.literal.isNumberChar⟩,
          i.after.notMem_codeOf (by decide)⟩
      have hitems : '"' ∉ codeOf (commaJoin (items.map ArrayItem.pieces)) := by
        cases items with
        | nil => exact List.not_mem_nil
        | cons i items =>
            simp only [List.map_cons, commaJoin, codeOf_append, List.mem_append, not_or]
            refine ⟨hitem i, fun h => ?_⟩
            obtain ⟨p, hp, hmem⟩ := List.mem_flatMap.mp h
            obtain ⟨l, hl, hpl⟩ := List.mem_flatMap.mp hp
            obtain ⟨j, -, rfl⟩ := List.mem_map.mp hl
            rcases List.mem_cons.mp hpl with rfl | hpl
            · simp [Piece.codeText] at hmem
            · exact hitem j (List.mem_flatMap.mpr ⟨p, hpl, hmem⟩)
      have hlead : '"' ∉ codeOf lead.pieces := lead.notMem_codeOf (by decide)
      simp [Value.pieces, Piece.codeText, hlead, hitems]

/-- A key in quotes in the text of a value. -/
theorem quoted_infix_value_iff (hkey : ∀ c ∈ key, isWord c = true) (v : Value) :
    quoted key <:+: textOf v.pieces ↔ v.Cites key ∨ Cites v.pieces key := by
  by_cases hv : ∃ us, v = .str us
  · obtain ⟨us, rfl⟩ := hv
    rw [Value.pieces, or_iff_left cites_codes, textOf_codes]
    exact Iff.rfl
  · have hnone : ¬ v.Cites key := by
      intro h
      cases v with
      | str us => exact hv ⟨us, rfl⟩
      | _ => exact h
    rw [or_iff_right hnone]
    exact quoted_infix_pieces_iff hkey (codeOf_text_value fun us h => hv ⟨us, h⟩)

/-- A key in quotes in the text of a member. -/
theorem quoted_infix_member_iff (hkey : ∀ c ∈ key, isWord c = true) (m : Member) :
    quoted key <:+: textOf m.pieces ↔ m.key = key ∨ m.value.Cites key ∨ Cites m.pieces key := by
  have htext : textOf m.pieces = textOf m.lead.pieces ++ (quoted m.key ++
      textOf m.afterKey.pieces ++ ':' :: (textOf m.afterColon.pieces ++
        (textOf m.value.pieces ++ textOf m.afterValue.pieces))) := by
    simp [Member.pieces, Piece.text]
  have hcites : Cites m.pieces key ↔ Cites m.lead.pieces key ∨ Cites m.afterKey.pieces key ∨
      Cites m.afterColon.pieces key ∨ Cites m.value.pieces key ∨ Cites m.afterValue.pieces key := by
    simp only [Member.pieces, cites_append, cites_cons_code, cites_codes, cites_nil, or_false,
      or_assoc]
  rw [htext, quoted_infix_gap_append hkey, quoted_infix_cons_iff hkey (by decide),
    quoted_infix_append_gap hkey, quoted_infix_gap_append hkey, quoted_infix_append_gap hkey,
    quoted_infix_value_iff hkey, quoted_infix_quoted_iff m.key_plain.1, hcites]
  tauto

/-! ## Objects -/

/-- A key in quotes in one of the texts between the commas. -/
theorem quoted_infix_commaJoin_iff (hkey : ∀ c ∈ key, isWord c = true)
    (ls : List (List Piece)) :
    quoted key <:+: textOf (commaJoin ls) ↔ ∃ l ∈ ls, quoted key <:+: textOf l := by
  -- the lists behind the first one start at their commas
  have htail : ∀ (ls : List (List Piece)) (u : Text),
      quoted key <:+: u ++ textOf (ls.flatMap fun l => .code ',' :: l) ↔
        quoted key <:+: u ∨ ∃ l ∈ ls, quoted key <:+: textOf l := by
    intro ls
    induction ls with
    | nil => simp
    | cons l ls ih =>
        intro u
        have htext : u ++ textOf ((l :: ls).flatMap fun l => .code ',' :: l) =
            u ++ ',' :: (textOf l ++ textOf (ls.flatMap fun l => .code ',' :: l)) := by
          simp [Piece.text]
        rw [htext, quoted_infix_cons_iff hkey (by decide), ih]
        simp
  cases ls with
  | nil => simpa [commaJoin] using not_quoted_infix_nil
  | cons l ls =>
      rw [commaJoin, textOf_append, htail]
      simp

theorem cites_commaJoin_iff (ls : List (List Piece)) :
    Cites (commaJoin ls) key ↔ ∃ l ∈ ls, Cites l key := by
  have htail : ∀ ls : List (List Piece),
      Cites (ls.flatMap fun l => .code ',' :: l) key ↔ ∃ l ∈ ls, Cites l key := by
    intro ls
    induction ls with
    | nil => simp
    | cons l ls ih =>
        rw [List.flatMap_cons, cites_append, cites_cons_code, ih]
        simp
  cases ls with
  | nil => simp [commaJoin]
  | cons l ls =>
      rw [commaJoin, cites_append, htail]
      simp

/-- Where a key stands in quotes: as the key of a member, in a string, or in a comment line. -/
theorem FlatObject.quoted_infix_iff (hkey : ∀ c ∈ key, isWord c = true) (o : FlatObject) :
    quoted key <:+: o.text ↔
      (∃ m ∈ o.members, m.key = key ∨ m.value.Cites key) ∨ Cites o.pieces key := by
  have htext : o.text = textOf o.lead.pieces ++ ([] ++ '\x7b' :: (textOf o.inner.pieces ++
      (textOf (commaJoin (o.members.map Member.pieces)) ++ '\x7d' :: ([] ++
        textOf o.trail.pieces)))) := by
    simp [FlatObject.text, FlatObject.pieces, Piece.text]
  have hcites : Cites o.pieces key ↔ Cites o.lead.pieces key ∨ Cites o.inner.pieces key ∨
      (∃ m ∈ o.members, Cites m.pieces key) ∨ Cites o.trail.pieces key := by
    simp [FlatObject.pieces, cites_append, cites_commaJoin_iff]
  have hmembers : (∃ l ∈ o.members.map Member.pieces, quoted key <:+: textOf l) ↔
      (∃ m ∈ o.members, m.key = key ∨ m.value.Cites key) ∨
        ∃ m ∈ o.members, Cites m.pieces key := by
    simp only [List.mem_map, exists_exists_and_eq_and, quoted_infix_member_iff hkey, ← exists_or,
      ← and_or_left, or_assoc]
  rw [htext, quoted_infix_gap_append hkey, quoted_infix_cons_iff hkey (by decide),
    quoted_infix_gap_append hkey, quoted_infix_cons_iff hkey (by decide),
    quoted_infix_commaJoin_iff hkey, quoted_infix_append_gap hkey, hcites, hmembers,
    or_iff_right not_quoted_infix_nil, or_iff_right not_quoted_infix_nil]
  simp only [or_assoc, or_left_comm]

/-! ## The lookup of a key -/

/-- A key stands in quotes in front of the key of a member. -/
def FlatObject.CitedBefore (o : FlatObject) (pre : List Member) (m : Member) (key : Text) : Prop :=
  Cites (o.lead.pieces ++ o.inner.pieces ++ m.lead.pieces) key ∨
    ∃ m' ∈ pre, m'.key = key ∨ m'.value.Cites key ∨ Cites m'.pieces key

/-- No comment stands where the getters look for the value of a member: between the key and a
scalar value no colon and no other comment, between the key and an array no bracket, and in an
array no digits. -/
def Member.Clear (m : Member) : Prop :=
  match m.value with
  | .array lead items =>
      '[' ∉ textOf m.afterKey.pieces ∧ '[' ∉ textOf m.afterColon.pieces ∧ InertArray lead items
  | _ => ':' ∉ textOf m.afterKey.pieces ∧ ∀ t ht, Piece.comment t ht ∉ m.afterColon.pieces

/-- A key that stands in quotes first as the key of its member, and nowhere if it has none. -/
structure FlatObject.Legible (o : FlatObject) (key : Text) : Prop where
  present : ∀ pre m post, o.members = pre ++ m :: post → m.key = key →
    ¬ o.CitedBefore pre m key ∧ m.Clear
  absent : (∀ m ∈ o.members, m.key ≠ key) →
    (∀ m ∈ o.members, ¬ m.value.Cites key) ∧ ¬ Cites o.pieces key

/-- The search for a key passes over members without it. -/
private theorem behind_quoted_members (hkey : ∀ c ∈ key, isWord c = true) {ms : List Member}
    (hms : ∀ m ∈ ms, ¬ (m.key = key ∨ m.value.Cites key ∨ Cites m.pieces key)) (w : Text) :
    behind (quoted key) (textOf ((ms.map Member.pieces).flatMap fun l => l ++ [.code ',']) ++ w) =
      behind (quoted key) w := by
  induction ms with
  | nil => rfl
  | cons m ms ih =>
      have htext : textOf (((m :: ms).map Member.pieces).flatMap fun l => l ++ [.code ',']) ++ w =
          textOf m.pieces ++ ',' ::
            (textOf ((ms.map Member.pieces).flatMap fun l => l ++ [.code ',']) ++ w) := by
        simp [Piece.text]
      have hm := (quoted_infix_member_iff hkey m).not.mpr (hms m List.mem_cons_self)
      rw [htext, behind_skip quoted_ne_nil (notMem_quoted hkey (by decide)) hm,
        ih fun m' hm' => hms m' (List.mem_cons_of_mem m hm')]

/-- Nothing is overlooked in front of a member if its key does not stand there. -/
theorem overlooked_eq_nil {o : FlatObject} {pre : List Member} {m : Member}
    (hkey : ∀ c ∈ m.key, isWord c = true) (hbefore : ¬ o.CitedBefore pre m m.key) :
    o.overlooked pre m = [] := by
  rw [FlatObject.CitedBefore, not_or] at hbefore
  obtain ⟨hgaps, hpre⟩ := hbefore
  simp only [cites_append, not_or] at hgaps
  obtain ⟨⟨hlead, hinner⟩, hgap⟩ := hgaps
  have hhead : o.head pre m = textOf o.lead.pieces ++ ([] ++ '\x7b' :: (textOf o.inner.pieces ++
      (textOf ((pre.map Member.pieces).flatMap fun l => l ++ [.code ',']) ++
        (textOf m.lead.pieces ++ (quoted m.key ++ []))))) := by
    simp [FlatObject.head, FlatObject.textBefore, Piece.text]
  have hbehind : behind (quoted m.key) (o.head pre m) = some [] := by
    rw [hhead, behind_quoted_gap hkey hlead,
      behind_skip quoted_ne_nil (notMem_quoted hkey (by decide)) not_quoted_infix_nil,
      behind_quoted_gap hkey hinner,
      behind_quoted_members hkey fun m' hm' h => hpre ⟨m', hm', h⟩,
      behind_quoted_gap hkey hgap, behind_of_prefix quoted_ne_nil]
  rw [FlatObject.overlooked, hbehind, Option.getD_some]

/-- The getters find the value of a legible key. -/
theorem FlatObject.found_of_legible {o : FlatObject} (hkey : ∀ c ∈ key, isWord c = true)
    (h : o.Legible key) : o.Found key := by
  refine ⟨⟨fun pre m post hm hmkey => ?_, fun habsent => ?_⟩, fun lead items hvalue => ?_⟩
  · obtain ⟨hbefore, hclear⟩ := h.present pre m post hm hmkey
    have hnil : o.overlooked pre m = [] := overlooked_eq_nil (hmkey ▸ hkey) (hmkey ▸ hbefore)
    unfold Member.Clear at hclear
    unfold FlatObject.Reached
    cases hvalue : m.value with
    | array lead items =>
        rw [hvalue] at hclear
        obtain ⟨hafterKey, hafterColon, -⟩ := hclear
        -- there is no bracket in front of the array
        rw [FlatObject.ArrayReached, hnil, dropWhile_ne_eq_nil (by simp [hafterKey, hafterColon])]
        exact fun c hc => absurd hc List.not_mem_nil
    | _ =>
        rw [hvalue] at hclear
        refine ⟨?_, hclear.2⟩
        rw [hnil]
        exact hclear.1
  · obtain ⟨hvalues, hcomments⟩ := h.absent habsent
    refine nothingFound_of_not_infix ((o.quoted_infix_iff hkey).not.mpr ?_)
    rintro (⟨m, hm, heq | hcites⟩ | hcites)
    · exact habsent m hm heq
    · exact hvalues m hm hcites
    · exact hcomments hcites
  · rcases o.value?_cases key with ⟨hnone, -⟩ | ⟨pre, m, post, hm, hmkey, hsome⟩
    · rw [hnone] at hvalue
      cases hvalue
    · have hclear := (h.present pre m post hm hmkey).2
      rw [hsome, Option.some.injEq] at hvalue
      rw [Member.Clear, hvalue] at hclear
      exact hclear.2.2

end Key

/-! ## Loading a configuration -/

/-- `load_config` of an object whose documented keys are legible. -/
theorem FlatObject.loadConfig_loaded {o : FlatObject} (htyped : o.WellTyped)
    (hlegible : ∀ key kind, (key, kind) ∈ documentedKeys → o.Legible key) :
    loadConfig (some o.text) {} = .ok (true, o.loaded) :=
  loadConfig_found htyped fun key kind hk =>
    found_of_legible (List.all_eq_true.mp (isWord_of_documented _ hk)) (hlegible key kind hk)

/-- If every documented key is legible, the fields whose keys are present are loaded and the
others keep their defaults exactly if the object is complete, whatever else its comments say. -/
theorem FlatObject.loadConfig_legible (o : FlatObject) (htyped : o.WellTyped)
    (hlegible : ∀ key kind, (key, kind) ∈ documentedKeys → o.Legible key) :
    loadConfig (some o.text) {} = .ok (true, o.config {}) ↔ Complete o := by
  rw [loadConfig_loaded htyped hlegible, Except.ok.injEq, Prod.mk.injEq, eq_self_iff_true, true_and]
  exact loaded_eq_iff htyped

end Redcli
