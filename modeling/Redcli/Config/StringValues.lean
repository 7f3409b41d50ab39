import Mathlib.Data.List.Count
import Redcli.Config.LoadConfig

/-!
# String Values

A string that is written as a JSON value, with a backslash in front of every quote and every
backslash, and read again by `json_get_str`. The getter returns the text in front of the next
quote as it stands, so a backslash in the text stays in the result.

## Main results

* `found_of_singleMember`: in an object with one string nothing else is mistaken for a key;
* `stringArrives_iff`: a string arrives as it was written exactly if it has no quote and no
  backslash.
-/

namespace Redcli

open TextSearch

/-! ## The encoding of a string -/

/-- A character of a string as JSON writes it. -/
def StrUnit.ofChar (c : Char) : StrUnit :=
  if h : c ≠ '"' ∧ c ≠ '\\' then .plain c h
  else .escape c (by rw [not_and_or, not_not, not_not] at h; rcases h with rfl | rfl <;> decide)

/-- The JSON encoding of a string. -/
def jsonEncode (s : Text) : Value := .str (s.map StrUnit.ofChar)

namespace StrUnit

variable {c : Char}

theorem isPlain_ofChar_iff : (ofChar c).IsPlain ↔ c ≠ '"' ∧ c ≠ '\\' := by
  unfold ofChar
  split_ifs with h
  · exact iff_of_true trivial h
  · exact iff_of_false id h

/-- An encoded character denotes the character. -/
theorem value_ofChar : (ofChar c).value = c := by
  unfold ofChar
  split_ifs with h
  · rfl
  · rw [not_and_or, not_not, not_not] at h
    rcases h with rfl | rfl <;> rfl

end StrUnit

/-- An encoded string denotes the string. -/
theorem strValue_ofChar (s : Text) : strValue (s.map StrUnit.ofChar) = s := by
  rw [strValue, List.map_map]
  exact (List.map_congr_left fun c _ => StrUnit.value_ofChar).trans (List.map_id s)

/-- A string without quotes and backslashes is encoded as it is. -/
theorem forall_isPlain_iff {s : Text} :
    (∀ u ∈ s.map StrUnit.ofChar, u.IsPlain) ↔ '"' ∉ s ∧ '\\' ∉ s := by
  simp only [List.forall_mem_map, StrUnit.isPlain_ofChar_iff]
  constructor
  · exact fun h => ⟨fun hc => (h _ hc).1 rfl, fun hc => (h _ hc).2 rfl⟩
  · rintro ⟨hquote, hbackslash⟩ c hc
    exact ⟨fun heq => hquote (heq ▸ hc), fun heq => hbackslash (heq ▸ hc)⟩

/-! ## An object with one string -/

section SingleMember

variable {o : FlatObject} {m : Member} {us : List StrUnit} {key : Text} {c : Char}

/-- A gap of an object without comments has no character but white space. -/
theorem notMem_gap {g : Gap} (hg : ∀ t ht, Piece.comment t ht ∉ g.pieces)
    (hc : isBlank c = false) : c ∉ textOf g.pieces := by
  intro hmem
  rw [Gap.isBlank_of_mem_text hg hmem] at hc
  cases hc

/-- The text in front of the key of the only member is white space and a brace. -/
theorem notMem_front (hfree : o.CommentFree) (hm : o.members = [m]) (hc : isBlank c = false)
    (hbrace : c ≠ '\x7b') : c ∉ o.textBefore [] ++ textOf m.lead.pieces := by
  have hgap : ∀ g : Gap, (∀ p ∈ g.pieces, p ∈ o.pieces) → c ∉ textOf g.pieces := fun g hg =>
    notMem_gap (fun t ht hmem => hfree t ht (hg _ hmem)) hc
  have hlead := hgap o.lead fun p hp => by simp [FlatObject.pieces, hp]
  have hinner := hgap o.inner fun p hp => by simp [FlatObject.pieces, hp]
  have hfirst := hgap m.lead fun p hp =>
    FlatObject.mem_pieces (show o.members = [] ++ m :: [] from hm) (by simp [Member.pieces, hp])
  simp [FlatObject.textBefore, Piece.text, hlead, hinner, hfirst, hbrace]

/-- The text behind the value of the only member is white space and a brace. -/
theorem notMem_tail (hfree : o.CommentFree) (hm : o.members = [m]) (hc : isBlank c = false)
    (hbrace : c ≠ '\x7d') : c ∉ o.tail m [] := by
  have hgap : ∀ g : Gap, (∀ p ∈ g.pieces, p ∈ o.pieces) → c ∉ textOf g.pieces := fun g hg =>
    notMem_gap (fun t ht hmem => hfree t ht (hg _ hmem)) hc
  have htrail := hgap o.trail fun p hp => by simp [FlatObject.pieces, hp]
  have hlast := hgap m.afterValue fun p hp =>
    FlatObject.mem_pieces (show o.members = [] ++ m :: [] from hm) (by simp [Member.pieces, hp])
  simp [FlatObject.tail, FlatObject.textAfter, Piece.text, htrail, hlast, hbrace]

/-- The gaps of the only member around its colon. -/
theorem notMem_afterKey (hfree : o.CommentFree) (hm : o.members = [m]) (hc : isBlank c = false) :
    c ∉ textOf m.afterKey.pieces ∧ c ∉ textOf m.afterColon.pieces := by
  have hgap : ∀ g : Gap, (∀ p ∈ g.pieces, p ∈ m.pieces) → c ∉ textOf g.pieces := fun g hg =>
    notMem_gap (fun t ht hmem => hfree t ht
      (FlatObject.mem_pieces (show o.members = [] ++ m :: [] from hm) (hg _ hmem))) hc
  exact ⟨hgap m.afterKey fun p hp => by simp [Member.pieces, hp],
    hgap m.afterColon fun p hp => by simp [Member.pieces, hp]⟩

/-- The search for the key reaches the value. -/
theorem scalarReached_singleMember (hfree : o.CommentFree) (hm : o.members = [m]) :
    o.ScalarReached [] m := by
  -- no quote stands in front of the key
  have hfront := notMem_front (c := '"') hfree hm (by decide) (by decide)
  have hbehind := behind_append_of_notMem hfront (m.key ++ ['"']) []
  rw [List.append_nil] at hbehind
  have hoverlooked : o.overlooked [] m = [] := by
    rw [FlatObject.overlooked, FlatObject.head, quoted, List.cons_append, hbehind,
      Option.getD_some]
  refine scalarReached_of_commentFree hfree hm ?_
  rw [hoverlooked, List.nil_append]
  exact (notMem_afterKey hfree hm (by decide)).1

/-- What `json_get_str` returns for the key: the text of the value up to its first quote. -/
theorem jsonGetStr_singleMember (hfree : o.CommentFree) (hm : o.members = [m])
    (hvalue : m.value = .str us) :
    jsonGetStr o.text m.key = .ok ((strText us).takeWhile fun c => c ≠ '"') :=
  jsonGetStr_reached (show o.members = [] ++ m :: [] from hm)
    (scalarReached_singleMember hfree hm) hvalue

/-- The text of the object in front of its colon, and behind it. -/
theorem text_singleMember (hm : o.members = [m]) (hvalue : m.value = .str us) :
    o.text = (o.textBefore [] ++ textOf m.lead.pieces ++ (quoted m.key ++
      textOf m.afterKey.pieces)) ++ ':' :: (textOf m.afterColon.pieces ++
        '"' :: (strText us ++ '"' :: o.tail m [])) := by
  rw [FlatObject.text_around (show o.members = [] ++ m :: [] from hm), FlatObject.head, hvalue,
    Value.pieces, textOf_codes]
  simp only [List.append_assoc, List.cons_append, List.nil_append]

/-- Another key does not stand in quotes in front of the colon. -/
theorem notInfix_front (hfree : o.CommentFree) (hm : o.members = [m]) (hkey : '"' ∉ key)
    (hne : m.key ≠ key) :
    ¬ quoted key <:+: o.textBefore [] ++ textOf m.lead.pieces ++
      (quoted m.key ++ textOf m.afterKey.pieces) := by
  have hfront := notMem_front (c := '"') hfree hm (by decide) (by decide)
  have hgap := (notMem_afterKey (c := '"') hfree hm (by decide)).1
  generalize o.textBefore [] ++ textOf m.lead.pieces = u at hfront ⊢
  rintro ⟨a, b, heq⟩
  -- both keys stand between the two quotes of this text
  have hcount := congrArg (List.count '"') heq
  simp only [quoted, List.count_append, List.count_cons_self, List.cons_append, List.count_nil,
    List.count_eq_zero_of_not_mem hfront, List.count_eq_zero_of_not_mem hgap,
    List.count_eq_zero_of_not_mem hkey, List.count_eq_zero_of_not_mem m.key_plain.1] at hcount
  have ha : '"' ∉ a := List.count_eq_zero.mp (by omega)
  have hbehind := congrArg (behind ['"']) heq
  simp only [quoted, List.append_assoc, List.cons_append] at hbehind
  rw [behind_singleton_append ha, behind_singleton_cons, behind_singleton_append hfront,
    behind_singleton_cons, Option.some.injEq] at hbehind
  have htake := congrArg (List.takeWhile fun d => decide (d ≠ '"')) hbehind
  rw [List.nil_append, List.nil_append, takeWhile_ne_append hkey,
    takeWhile_ne_append m.key_plain.1] at htake
  exact hne htake.symm

/-- Behind the place where another key stands in quotes, there is neither a colon nor a
bracket. -/
theorem notMem_behind (hfree : o.CommentFree) (hm : o.members = [m]) (hvalue : m.value = .str us)
    (hus : '"' ∉ strText us) (hkey : '"' ∉ key ∧ ':' ∉ key) (hne : m.key ≠ key) {r : Text}
    (hr : behind (quoted key) o.text = some r) : ':' ∉ r ∧ '[' ∉ r := by
  have hcolon : ':' ∉ quoted key := by simp [quoted, hkey.2]
  rw [text_singleMember hm hvalue, behind_skip (by simp [quoted]) hcolon
    (notInfix_front hfree hm hkey.1 hne)] at hr
  obtain ⟨a, heq⟩ := eq_append_of_behind hr
  -- the two quotes of the value are those of the key
  have hcount := congrArg (List.count '"') heq
  have hgap := (notMem_afterKey (c := '"') hfree hm (by decide)).2
  have htail := notMem_tail (c := '"') hfree hm (by decide) (by decide)
  simp only [quoted, List.count_append, List.count_cons_self, List.cons_append, List.count_nil,
    List.count_eq_zero_of_not_mem hgap, List.count_eq_zero_of_not_mem hus,
    List.count_eq_zero_of_not_mem htail, List.count_eq_zero_of_not_mem hkey.1] at hcount
  have hclean : '"' ∉ r := List.count_eq_zero.mp (by omega)
  -- so what stands behind them is the text behind the value
  have hsuffix : r <:+ '"' :: o.tail m [] := by
    have hleft : r <:+ textOf m.afterColon.pieces ++ '"' :: (strText us ++ '"' :: o.tail m []) :=
      heq ▸ List.suffix_append _ r
    have hright : '"' :: o.tail m [] <:+
        textOf m.afterColon.pieces ++ '"' :: (strText us ++ '"' :: o.tail m []) :=
      (List.suffix_append (strText us) _).trans
        ((List.suffix_cons '"' _).trans (List.suffix_append _ _))
    rcases List.suffix_or_suffix_of_suffix hleft hright with h | h
    · exact h
    · exact absurd (h.mem List.mem_cons_self) hclean
  constructor
  · intro hmem
    exact (List.mem_cons.mp (hsuffix.mem hmem)).elim (by decide)
      (notMem_tail hfree hm (by decide) (by decide))
  · intro hmem
    exact (List.mem_cons.mp (hsuffix.mem hmem)).elim (by decide)
      (notMem_tail hfree hm (by decide) (by decide))

/-- In an object with one string without quotes nothing else is mistaken for a key. -/
theorem found_of_singleMember (hfree : o.CommentFree) (hm : o.members = [m])
    (hvalue : m.value = .str us) (hus : '"' ∉ strText us) (hkey : '"' ∉ key ∧ ':' ∉ key) :
    o.Found key := by
  have honly : ∀ m' ∈ o.members, m' = m := by simp [hm]
  refine ⟨⟨fun pre m' post hm' _ => ?_, fun habsent => ?_⟩, fun lead items harray => ?_⟩
  · obtain rfl := honly m' (by simp [hm'])
    obtain rfl : pre = [] := by
      have hlength := congrArg List.length (hm.symm.trans hm')
      simp only [List.length_append, List.length_cons, List.length_nil] at hlength
      exact List.eq_nil_of_length_eq_zero (by omega)
    rw [FlatObject.Reached, hvalue]
    exact scalarReached_singleMember hfree hm
  · have hne : m.key ≠ key := habsent m (by simp [hm])
    constructor
    · intro t ht
      obtain ⟨r, hr, ht⟩ := Option.bind_eq_some_iff.mp ht
      rw [behind_singleton_eq_none_iff.mpr
        (notMem_behind hfree hm hvalue hus hkey hne hr).1] at ht
      cases ht
    · intro t ht
      obtain ⟨r, hr, ht⟩ := Option.bind_eq_some_iff.mp ht
      rw [behind_singleton_eq_none_iff.mpr
        (notMem_behind hfree hm hvalue hus hkey hne hr).2] at ht
      cases ht
  · -- the only value is no array
    obtain ⟨m', hm', heq⟩ := Option.map_eq_some_iff.mp harray
    obtain rfl := honly m' (List.mem_of_find?_eq_some hm')
    rw [hvalue] at heq
    cases heq

/-- `load_config` of an object with one string without quotes, under a key of a string. -/
theorem loadConfig_singleMember (hfree : o.CommentFree) (hm : o.members = [m])
    (hvalue : m.value = .str us) (hus : '"' ∉ strText us)
    (hkind : ∀ kind, (m.key, kind) ∈ documentedKeys → kind = .text) :
    loadConfig (some o.text) {} = .ok (true, o.loaded) := by
  refine FlatObject.loadConfig_found (fun key kind hdoc v hv => ?_) fun key kind hdoc => ?_
  · obtain ⟨m', hm', rfl⟩ := Option.map_eq_some_iff.mp hv
    have hkey : m'.key = key := by simpa using List.find?_some hm'
    obtain rfl : m' = m := by simpa [hm] using List.mem_of_find?_eq_some hm'
    rw [hkind kind (hkey ▸ hdoc), hvalue]
    trivial
  · have hplain : ∀ k ∈ documentedKeys, '"' ∉ k.1 ∧ ':' ∉ k.1 := by decide
    exact found_of_singleMember hfree hm hvalue hus (hplain _ hdoc)

end SingleMember

/-! ## A string that is written and read -/

/-- A string arrives under its key as it was written: in what `json_get_str` returns, and, for the
keys of the configuration, in what `load_config` loads. The empty `verbose` is a default. -/
structure StringArrives (o : FlatObject) (key s : Text) : Prop where
  getter : jsonGetStr o.text key = .ok s
  input : key = "input".toList →
    ∃ cfg, loadConfig (some o.text) {} = .ok (true, cfg) ∧ cfg.inputPath = s
  output : key = "output_path".toList →
    ∃ cfg, loadConfig (some o.text) {} = .ok (true, cfg) ∧ cfg.outputPath = s
  verbose : key = "verbose".toList → s ≠ [] →
    ∃ cfg, loadConfig (some o.text) {} = .ok (true, cfg) ∧ cfg.verbose = s

/-- In an object without comments whose only member is a string as JSON encodes it, the string
arrives exactly if it has no quote and no backslash. -/
theorem stringArrives_iff {o : FlatObject} (hfree : o.CommentFree) {m : Member}
    (hm : o.members = [m]) {s : Text} (hvalue : m.value = jsonEncode s) :
    StringArrives o m.key s ↔ '"' ∉ s ∧ '\\' ∉ s := by
  have hread := jsonGetStr_singleMember hfree hm hvalue
  constructor
  · intro h
    -- what is read is the string itself
    have heq := Except.ok.inj (hread.symm.trans h.getter)
    rw [← forall_isPlain_iff, ← takeWhile_strText_eq_iff, strValue_ofChar]
    exact heq
  · intro hs
    have hplain := forall_isPlain_iff.mpr hs
    have htake := (takeWhile_strText_eq_iff _).mpr hplain
    rw [strValue_ofChar] at htake
    have hload := loadConfig_singleMember hfree hm hvalue (strText_of_plain hplain).1
    have hraw : o.rawField m.key = s := by
      have hval : o.value? m.key = some (jsonEncode s) := by
        simp [FlatObject.value?, hm, hvalue]
      rw [FlatObject.rawField, hval]
      exact htake
    constructor
    case getter => rw [hread, htake]
    case input =>
      intro hkey
      rw [hkey] at hload hraw
      exact ⟨o.loaded, hload (by simp [documentedKeys]), hraw⟩
    case output =>
      intro hkey
      rw [hkey] at hload hraw
      exact ⟨o.loaded, hload (by simp [documentedKeys]), hraw⟩
    case verbose =>
      intro hkey hne
      rw [hkey] at hload hraw
      refine ⟨o.loaded, hload (by simp [documentedKeys]), ?_⟩
      rw [FlatObject.loaded]
      simp only [hraw]
      rw [if_neg (by simpa using hne)]

/-! ## Paths -/

/-- The key of the path needs no escapes. -/
theorem inputKey_plain : '"' ∉ "input".toList ∧ '\\' ∉ "input".toList := by decide

/-- The object with nothing but an input path. -/
def inputObject (path : Text) : FlatObject where
  lead := .none
  inner := .none
  members := [.plain "input".toList (jsonEncode path) inputKey_plain]
  trail := .none

theorem inputObject_commentFree (path : Text) : (inputObject path).CommentFree := by
  refine @commentFree_of_codes _ (inputObject path).text ?_
  simp [FlatObject.text, inputObject, FlatObject.pieces, Member.pieces, Member.plain, jsonEncode,
    Value.pieces, Gap.none, commaJoin, codes_append, Piece.text]

/-- The path `C:/a.dif` arrives. -/
theorem stringArrives_slash :
    StringArrives (inputObject "C:/a.dif".toList) "input".toList "C:/a.dif".toList :=
  (stringArrives_iff (inputObject_commentFree _) rfl rfl).mpr (by decide)

/-- The path `C:\a.dif` arrives with two backslashes, and of the text `a"b` only the part in front
of the quote and a backslash arrive. -/
theorem not_stringArrives_backslash :
    (inputObject "C:\\a.dif".toList).text = "\x7b\"input\":\"C:\\\\a.dif\"\x7d".toList ∧
      jsonGetStr (inputObject "C:\\a.dif".toList).text "input".toList =
        .ok "C:\\\\a.dif".toList ∧
      ¬ StringArrives (inputObject "C:\\a.dif".toList) "input".toList "C:\\a.dif".toList ∧
      (inputObject "a\"b".toList).text = "\x7b\"input\":\"a\\\"b\"\x7d".toList ∧
      jsonGetStr (inputObject "a\"b".toList).text "input".toList = .ok "a\\".toList ∧
      ¬ StringArrives (inputObject "a\"b".toList) "input".toList "a\"b".toList := by
  have hpath : jsonGetStr (inputObject "C:\\a.dif".toList).text "input".toList =
      .ok "C:\\\\a.dif".toList := by decide +kernel
  have hquote : jsonGetStr (inputObject "a\"b".toList).text "input".toList =
      .ok "a\\".toList := by decide +kernel
  refine ⟨by decide +kernel, hpath, fun h => ?_, by decide +kernel, hquote, fun h => ?_⟩
  · exact absurd (hpath.symm.trans h.getter) (by decide)
  · exact absurd (hquote.symm.trans h.getter) (by decide)

end Redcli
