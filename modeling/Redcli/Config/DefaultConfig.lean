import Mathlib.Data.List.Nodup
import Redcli.Config.Quoting
import Redcli.Config.StringValues

/-!
# The Built-in Configuration

`rle4k_builtin_default_config_json`, the text of the configuration file that `redcli init` writes,
as an object with comments, and what `load_config` makes of it when its values are changed.

## Main results

* `defaultDocument_text`: the text that is written is that of the object;
* `loadConfig_defaultDocument`: with other values, each of them is loaded.
-/

namespace Redcli

open TextSearch

/-- `rle4k_builtin_default_config_json`, line by line. -/
def builtinDefaultConfigLines : List String :=
  ["\x7b",
    "    // ============================================================",
    "    //  redcli.json — built-in default (redcli init)",
    "    //  Field guide: docs/redcli.help.md  |  mirror: docs/redcli.example.json",
    "    //  Comments (//) are for humans; the minimal parser accepts them.",
    "    // ============================================================",
    "",
    "    // Path to one .dif (mode 0) or a folder of *.dif (mode 1). Relative to CWD.",
    "    \"input\": \"\",",
    "",
    "    // 0 = single file; 1 = non-recursive folder scan for *.dif",
    "    \"mode\": 0,",
    "",
    "    // Conventional output dir (created if missing). CSV needs: --csv <file>",
    "    \"output_path\": \"build/out\",",
    "",
    "    // Encode/decode timing repeats (averaged). Higher = stabler, slower.",
    "    \"repeat\": 3,",
    "",
    "    // 0 = no check; 1 = FNV after raster + verify OUTSIDE decode wall timer",
    "    \"check_enabled\": 0,",
    "",
    "    // Sliding row-block window: size = cache_blocks_max (max raised to min if needed)",
    "    \"cache_blocks_min\": 32,",
    "    \"cache_blocks_max\": 128,",
    "",
    "    // Pixel pitch in micrometres. pw_nm = pitch_width_um * 1000. Paper: 0.5",
    "    \"pitch_width_um\": 0.5,",
    "",
    "    // Oblique N. When strip_width==0:",
    "    //   strip_width = ceil((cols*N + rows) / align_mode) * align_mode",
    "    // Defaults → 1920*32+512 = 61952 px. Paper: 32",
    "    \"oblique_factor\": 32,",
    "",
    "    // Nominal DMD size for auto strip_width only (not DIF bounds)",
    "    \"dmd_resolution_rows\": 512,",
    "    \"dmd_resolution_cols\": 1920,",
    "",
    "    // Strip width px. 0 = auto (formula above). >0 = force",
    "    \"strip_width\": 0,",
    "",
    "    // Rounding grain for auto strip_width. Paper: 512",
    "    \"align_mode\": 512,",
    "",
    "    // Row-block height in pixel rows. Paper: 512",
    "    \"block_line\": 512,",
    "",
    "    // Phase-1 raster workers (clamped 1..10). Env RLE4K_THREADS overrides if >0",
    "    \"raster_threads\": 4,",
    "",
    "    // Phase-2 encode workers. 0 = same as raster_threads (clamped 1..10)",
    "    \"encode_threads\": 0,",
    "",
    "    // Phase-3 decode workers. 0 = same as raster_threads (clamped 1..10)",
    "    \"decode_threads\": 0,",
    "",
    "    // 1 = run phase; 0 = skip. encode_enabled=0 also skips decode",
    "    \"encode_enabled\": 1,",
    "    \"decode_enabled\": 1,",
    "",
    "    // 0=RLE4K 1=GZIP 2=LZO2 3=SNAPPY 4=ZSTD 5=BROTLI",
    "    \"formats\": [0, 1, 2, 3, 4, 5],",
    "",
    "    // zlib 1..9. Paper: 6",
    "    \"gzip_level\": 6,",
    "    // Zstd 1..22. Paper: 3",
    "    \"zstd_level\": 3,",
    "    // 1=lzo1x_1; 2..999=lzo1x_999. Paper: 1",
    "    \"lzo2_level\": 1,",
    "    // Reserved (Snappy has no level)",
    "    \"snappy_level\": 0,",
    "    // Brotli quality 0..11. Paper: 6",
    "    \"brotli_level\": 6,",
    "    // Brotli window bits 10..24. Paper: 22",
    "    \"brotli_window\": 22,",
    "",
    "    // \"file\" = per-file; \"strip\" = per-strip detail",
    "    \"verbose\": \"file\"",
    "",
    "\x7d"]

/-- `rle4k_builtin_default_config_json`. -/
def rle4kBuiltinDefaultConfigJson : Text :=
  builtinDefaultConfigLines.flatMap fun line => line.toList ++ ['\n']

/-! ## The object -/

/-- A line in front of a member. -/
inductive NoteLine where
  | blankLine
  | note (t : String) (oneLine : '\n' ∉ t.toList := by rw [String.toList_ofList]; decide)

/-- The pieces of a line. -/
def NoteLine.pieces : NoteLine → List Piece
  | blankLine => [.code '\n']
  | note t oneLine => [.code ' ', .code ' ', .code ' ', .code ' ', .comment t.toList oneLine]

/-- The gap of the lines in front of a member and of its indentation. -/
def noteGap (notes : List NoteLine) : Gap where
  pieces := .code '\n' :: notes.flatMap NoteLine.pieces ++
    [.code ' ', .code ' ', .code ' ', .code ' ']
  blank := by
    have hnote : ∀ (n : NoteLine) (c : Char), .code c ∈ n.pieces → isBlank c = true := by
      rintro (_ | ⟨t, oneLine⟩) c hc
      · obtain rfl : c = '\n' := by simpa [NoteLine.pieces] using hc
        rfl
      · obtain rfl : c = ' ' := by simpa [NoteLine.pieces] using hc
        rfl
    intro c hc
    simp only [List.mem_append, List.mem_cons, List.mem_flatMap, Piece.code.injEq,
      List.not_mem_nil, or_false, List.cons_append] at hc
    rcases hc with rfl | ⟨n, -, hc⟩ | hc
    · rfl
    · exact hnote n c hc
    · obtain rfl : c = ' ' := by simpa using hc
      rfl

/-- The gap of a space. -/
def spaceGap : Gap :=
  .ofBlanks [' '] fun c hc => by
    obtain rfl := List.mem_singleton.mp hc
    rfl

/-- The gap of some line breaks. -/
def newlineGap (k : ℕ) : Gap :=
  .ofBlanks (List.replicate k '\n') fun c hc => by
    obtain rfl := List.eq_of_mem_replicate hc
    rfl

/-- A member of the built-in configuration. -/
structure DefaultMember where
  key : String
  value : Value
  notes : List NoteLine := []
  linesBehind : ℕ := 0
  plain : '"' ∉ key.toList ∧ '\\' ∉ key.toList := by rw [String.toList_ofList]; decide

/-- An element of the list of formats. -/
def formatItem (before : Gap) (n : ℕ) (h : (n : ℤ) ≤ intMax) : ArrayItem :=
  ⟨before, .ofNat n h, .none⟩

/-- The list of all formats. -/
def formatsValue : Value :=
  .array .none
    [formatItem .none 0 (by decide), formatItem spaceGap 1 (by decide),
      formatItem spaceGap 2 (by decide), formatItem spaceGap 3 (by decide),
      formatItem spaceGap 4 (by decide), formatItem spaceGap 5 (by decide)]

/-- The members of the built-in configuration. -/
def defaultMembers : List DefaultMember :=
  [
  { key := "input"
    value := .str []
    notes :=
      [.note " ============================================================",
        .note "  redcli.json — built-in default (redcli init)",
        .note "  Field guide: docs/redcli.help.md  |  mirror: docs/redcli.example.json",
        .note "  Comments (//) are for humans; the minimal parser accepts them.",
        .note " ============================================================",
        .blankLine,
        .note " Path to one .dif (mode 0) or a folder of *.dif (mode 1). Relative to CWD."] },
  { key := "mode"
    value := .int (.ofNat 0 (by decide))
    notes :=
      [.blankLine,
        .note " 0 = single file; 1 = non-recursive folder scan for *.dif"] },
  { key := "output_path"
    value := jsonEncode "build/out".toList
    notes :=
      [.blankLine,
        .note " Conventional output dir (created if missing). CSV needs: --csv <file>"] },
  { key := "repeat"
    value := .int (.ofNat 3 (by decide))
    notes :=
      [.blankLine,
        .note " Encode/decode timing repeats (averaged). Higher = stabler, slower."] },
  { key := "check_enabled"
    value := .int (.ofNat 0 (by decide))
    notes :=
      [.blankLine,
        .note " 0 = no check; 1 = FNV after raster + verify OUTSIDE decode wall timer"] },
  { key := "cache_blocks_min"
    value := .int (.ofNat 32 (by decide))
    notes :=
      [.blankLine,
        .note " Sliding row-block window: size = cache_blocks_max (max raised to min if needed)"] },
  { key := "cache_blocks_max"
    value := .int (.ofNat 128 (by decide)) },
  { key := "pitch_width_um"
    value := .decimal ⟨false, .ofNat 0, some (.ofNat 5), none⟩
    notes :=
      [.blankLine,
        .note " Pixel pitch in micrometres. pw_nm = pitch_width_um * 1000. Paper: 0.5"] },
  { key := "oblique_factor"
    value := .int (.ofNat 32 (by decide))
    notes :=
      [.blankLine,
        .note " Oblique N. When strip_width==0:",
        .note "   strip_width = ceil((cols*N + rows) / align_mode) * align_mode",
        .note " Defaults → 1920*32+512 = 61952 px. Paper: 32"] },
  { key := "dmd_resolution_rows"
    value := .int (.ofNat 512 (by decide))
    notes :=
      [.blankLine,
        .note " Nominal DMD size for auto strip_width only (not DIF bounds)"] },
  { key := "dmd_resolution_cols"
    value := .int (.ofNat 1920 (by decide)) },
  { key := "strip_width"
    value := .int (.ofNat 0 (by decide))
    notes :=
      [.blankLine,
        .note " Strip width px. 0 = auto (formula above). >0 = force"] },
  { key := "align_mode"
    value := .int (.ofNat 512 (by decide))
    notes :=
      [.blankLine,
        .note " Rounding grain for auto strip_width. Paper: 512"] },
  { key := "block_line"
    value := .int (.ofNat 512 (by decide))
    notes :=
      [.blankLine,
        .note " Row-block height in pixel rows. Paper: 512"] },
  { key := "raster_threads"
    value := .int (.ofNat 4 (by decide))
    notes :=
      [.blankLine,
        .note " Phase-1 raster workers (clamped 1..10). Env RLE4K_THREADS overrides if >0"] },
  { key := "encode_threads"
    value := .int (.ofNat 0 (by decide))
    notes :=
      [.blankLine,
        .note " Phase-2 encode workers. 0 = same as raster_threads (clamped 1..10)"] },
  { key := "decode_threads"
    value := .int (.ofNat 0 (by decide))
    notes :=
      [.blankLine,
        .note " Phase-3 decode workers. 0 = same as raster_threads (clamped 1..10)"] },
  { key := "encode_enabled"
    value := .int (.ofNat 1 (by decide))
    notes :=
      [.blankLine,
        .note " 1 = run phase; 0 = skip. encode_enabled=0 also skips decode"] },
  { key := "decode_enabled"
    value := .int (.ofNat 1 (by decide)) },
  { key := "formats"
    value := formatsValue
    notes :=
      [.blankLine,
        .note " 0=RLE4K 1=GZIP 2=LZO2 3=SNAPPY 4=ZSTD 5=BROTLI"] },
  { key := "gzip_level"
    value := .int (.ofNat 6 (by decide))
    notes :=
      [.blankLine,
        .note " zlib 1..9. Paper: 6"] },
  { key := "zstd_level"
    value := .int (.ofNat 3 (by decide))
    notes :=
      [.note " Zstd 1..22. Paper: 3"] },
  { key := "lzo2_level"
    value := .int (.ofNat 1 (by decide))
    notes :=
      [.note " 1=lzo1x_1; 2..999=lzo1x_999. Paper: 1"] },
  { key := "snappy_level"
    value := .int (.ofNat 0 (by decide))
    notes :=
      [.note " Reserved (Snappy has no level)"] },
  { key := "brotli_level"
    value := .int (.ofNat 6 (by decide))
    notes :=
      [.note " Brotli quality 0..11. Paper: 6"] },
  { key := "brotli_window"
    value := .int (.ofNat 22 (by decide))
    notes :=
      [.note " Brotli window bits 10..24. Paper: 22"] },
  { key := "verbose"
    value := jsonEncode "file".toList
    notes :=
      [.blankLine,
        .note " \"file\" = per-file; \"strip\" = per-strip detail"]
    linesBehind := 2 }]

/-- A member with another value. -/
def DefaultMember.member (m : DefaultMember) (v : Value) : Member where
  lead := noteGap m.notes
  key := m.key.toList
  afterKey := .none
  afterColon := spaceGap
  value := v
  afterValue := newlineGap m.linesBehind
  key_plain := m.plain

/-- The built-in configuration with other values. -/
def defaultDocument (value : DefaultMember → Value) : FlatObject where
  lead := .none
  inner := .none
  members := defaultMembers.map fun m => m.member (value m)
  trail := newlineGap 1

/-- The text that `redcli init` writes. -/
theorem defaultDocument_text :
    (defaultDocument DefaultMember.value).text = rle4kBuiltinDefaultConfigJson := by
  apply beq_iff_eq.mp
  simp only [rle4kBuiltinDefaultConfigJson, builtinDefaultConfigLines, defaultDocument,
    defaultMembers, FlatObject.text, FlatObject.pieces, DefaultMember.member, noteGap,
    NoteLine.pieces, Member.pieces, List.map_cons, List.map_nil, List.flatMap_cons,
    List.flatMap_nil, commaJoin, textOf_append, textOf_cons, textOf_nil, textOf_codes, Piece.text,
    jsonEncode, Value.pieces, quoted]
  repeat rw [String.toList_ofList]
  decide +kernel

/-! ## Its keys and comments -/

/-- The text of a line in front of a member. -/
def NoteLine.text : NoteLine → Text
  | blankLine => []
  | note t _ => t.toList

/-- The type of keys that a value is written for. -/
def Value.ownKind : Value → KeyKind
  | .int _ => .int
  | .decimal _ => .double
  | .str _ => .text
  | .array _ _ => .intArray

theorem Value.hasKind_ownKind (v : Value) : v.HasKind v.ownKind := by
  cases v <;> trivial

/-- The keys of the built-in configuration are the documented keys, with values of their types. -/
theorem defaultMembers_perm :
    (defaultMembers.map fun m => (m.key.toList, m.value.ownKind)).Perm documentedKeys := by
  simp only [defaultMembers, documentedKeys, List.map_cons, List.map_nil, jsonEncode, formatsValue,
    Value.ownKind]
  repeat rw [String.toList_ofList]
  decide +kernel

theorem documentedKeys_nodup : (documentedKeys.map Prod.fst).Nodup := by
  simp only [documentedKeys, List.map_cons, List.map_nil]
  repeat rw [String.toList_ofList]
  decide +kernel

theorem defaultMembers_nodup : (defaultMembers.map fun m => m.key.toList).Nodup := by
  have hperm := defaultMembers_perm.map Prod.fst
  rw [List.map_map] at hperm
  exact hperm.nodup_iff.mpr documentedKeys_nodup

theorem documented_of_mem {m : DefaultMember} (hm : m ∈ defaultMembers) :
    (m.key.toList, m.value.ownKind) ∈ documentedKeys :=
  defaultMembers_perm.mem_iff.mp (List.mem_map_of_mem hm)

/-- Every documented key has a member. -/
theorem exists_member_of_documented {key : Text} {kind : KeyKind}
    (hkey : (key, kind) ∈ documentedKeys) :
    ∃ m ∈ defaultMembers, m.key.toList = key ∧ m.value.ownKind = kind := by
  obtain ⟨m, hm, heq⟩ := List.mem_map.mp (defaultMembers_perm.mem_iff.mpr hkey)
  exact ⟨m, hm, congrArg Prod.fst heq, congrArg Prod.snd heq⟩

/-- The only line of the built-in configuration with quotes. -/
def verboseNote : Text := " \"file\" = per-file; \"strip\" = per-strip detail".toList

/-- Every other line has no quotes. -/
private theorem noteLines_check :
    ((defaultMembers.flatMap fun m => m.notes.map NoteLine.text).all fun t =>
      !t.contains '"' || t == verboseNote) = true := by
  rw [show verboseNote = _ from String.toList_ofList]
  simp only [defaultMembers, List.flatMap_cons, List.flatMap_nil, List.map_cons, List.map_nil,
    NoteLine.text]
  repeat rw [String.toList_ofList]
  decide +kernel

/-- Its quotes are not those of a documented key. -/
private theorem verboseNote_check :
    ((documentedKeys.map Prod.fst).all fun key =>
      !decide (quoted key <:+: verboseNote)) = true := by
  rw [show verboseNote = _ from String.toList_ofList]
  simp only [documentedKeys, List.map_cons, List.map_nil]
  repeat rw [String.toList_ofList]
  decide +kernel

/-- No line in front of a member has a documented key in quotes. -/
theorem noteLine_quiet {m : DefaultMember} (hm : m ∈ defaultMembers) {n : NoteLine}
    (hn : n ∈ m.notes) {key : Text} {kind : KeyKind} (hkey : (key, kind) ∈ documentedKeys) :
    ¬ quoted key <:+: n.text := by
  have hline := List.all_eq_true.mp noteLines_check n.text
    (List.mem_flatMap.mpr ⟨m, hm, List.mem_map_of_mem hn⟩)
  rcases Bool.or_eq_true_iff.mp hline with hquote | hverbose
  · -- without a quote there is no key in quotes
    intro h
    simp [h.mem (List.mem_cons_self : '"' ∈ quoted key)] at hquote
  · have hquiet := List.all_eq_true.mp verboseNote_check key (List.mem_map_of_mem hkey)
    rw [beq_iff_eq.mp hverbose]
    simpa using hquiet

/-- No comment of the built-in configuration has a documented key in quotes. -/
theorem not_cites_notes {m : DefaultMember} (hm : m ∈ defaultMembers) {key : Text}
    {kind : KeyKind} (hkey : (key, kind) ∈ documentedKeys) :
    ¬ Cites (noteGap m.notes).pieces key := by
  rintro ⟨t, ht, hmem, hinfix⟩
  simp only [noteGap, List.cons_append, List.mem_cons, List.mem_append, List.mem_flatMap,
    reduceCtorEq, false_or, List.not_mem_nil, or_false] at hmem
  obtain ⟨n, hn, hmem⟩ := hmem
  cases n with
  | blankLine => simp [NoteLine.pieces] at hmem
  | note u oneLine =>
      obtain rfl : t = u.toList := by simpa [NoteLine.pieces] using hmem
      exact noteLine_quiet hm hn hkey hinfix

/-! ## Other values -/

/-- Values that the getters read under the documented keys: of the type of their key, a string
without escapes that is no other documented key, an array without comments and without negative
elements, and a text for `verbose`. -/
structure Editable (f : Text → Value) : Prop where
  kind : ∀ key kind, (key, kind) ∈ documentedKeys → (f key).HasKind kind
  simple : ∀ key kind, (key, kind) ∈ documentedKeys → (f key).Simple
  strings : ∀ key kind, (key, kind) ∈ documentedKeys → ∀ us, f key = .str us →
    ∀ key' kind', (key', kind') ∈ documentedKeys → strValue us = key' → key' = key
  verbose : f "verbose".toList ≠ .str []

/-- The built-in configuration with values of its keys. -/
def editedDocument (f : Text → Value) : FlatObject := defaultDocument fun m => f m.key.toList

section Edited

variable {f : Text → Value}

/-- A simple value has a key in quotes only if it is the key. -/
theorem cites_iff_of_simple {v : Value} (hv : v.Simple) {key : Text} :
    v.Cites key ↔ ∃ us, v = .str us ∧ strValue us = key := by
  cases v with
  | str us =>
      obtain ⟨hquote, heq⟩ := strText_of_plain hv
      rw [Value.Cites, quoted_infix_quoted_iff hquote, heq]
      simp
  | int l => simp [Value.Cites]
  | decimal l => simp [Value.Cites]
  | array lead items => simp [Value.Cites]

theorem not_cites_of_simple {v : Value} (hv : v.Simple) {key : Text} :
    ¬ Cites v.pieces key := by
  cases v with
  | array lead items =>
      rintro ⟨t, ht, hmem, -⟩
      exact hv.1 t ht hmem
  | int l => exact cites_codes
  | decimal l => exact cites_codes
  | str us => exact cites_codes

/-- A member of the document has a documented key in quotes only if it is its key or its value. -/
theorem member_quiet (hf : Editable f) {d : DefaultMember} (hd : d ∈ defaultMembers) {key : Text}
    {kind : KeyKind} (hkey : (key, kind) ∈ documentedKeys) (hne : d.key.toList ≠ key) :
    ¬ ((d.member (f d.key.toList)).value.Cites key ∨
      Cites (d.member (f d.key.toList)).pieces key) := by
  have hkind' := documented_of_mem hd
  have hsimple := hf.simple _ _ hkind'
  rw [not_or]
  constructor
  · intro h
    obtain ⟨us, hus, hvalue⟩ := (cites_iff_of_simple hsimple).mp h
    exact hne (hf.strings _ _ hkind' us hus _ _ hkey hvalue).symm
  · simp only [DefaultMember.member, Member.pieces, cites_append, cites_cons_code, cites_codes,
      cites_nil, not_cites_notes hd hkey, not_cites_of_simple hsimple, spaceGap, newlineGap,
      Gap.ofBlanks, Gap.none, or_false, not_false_eq_true]

/-- The members of the document in front of a member and behind it. -/
theorem editedDocument_split {pre post : List Member} {m : Member}
    (h : (editedDocument f).members = pre ++ m :: post) :
    ∃ pre' m' post', defaultMembers = pre' ++ m' :: post' ∧
      pre = pre'.map (fun d => d.member (f d.key.toList)) ∧ m = m'.member (f m'.key.toList) := by
  obtain ⟨pre', rest, hsplit, hpre, hrest⟩ := List.map_eq_append_iff.mp h
  obtain ⟨m', post', rfl, hm, -⟩ := List.map_eq_cons_iff.mp hrest
  exact ⟨pre', m', post', hsplit, hpre.symm, hm.symm⟩

/-- The value of a documented key. -/
theorem editedDocument_value? {key : Text} {kind : KeyKind} (hkey : (key, kind) ∈ documentedKeys) :
    (editedDocument f).value? key = some (f key) := by
  rcases (editedDocument f).value?_cases key with ⟨-, habsent⟩ | ⟨pre, m, post, hm, rfl, hvalue⟩
  · obtain ⟨d, hd, rfl, -⟩ := exists_member_of_documented hkey
    exact absurd rfl (habsent _ (List.mem_map_of_mem hd))
  · obtain ⟨-, d, -, -, -, rfl⟩ := editedDocument_split hm
    exact hvalue

/-- Every documented key is legible, whatever the values. -/
theorem editedDocument_legible (hf : Editable f) {key : Text} {kind : KeyKind}
    (hkey : (key, kind) ∈ documentedKeys) : (editedDocument f).Legible key := by
  constructor
  · rintro pre m post hm rfl
    obtain ⟨pre', d, post', hsplit, rfl, rfl⟩ := editedDocument_split hm
    have hd : d ∈ defaultMembers := hsplit ▸ List.mem_append_right pre' List.mem_cons_self
    constructor
    · -- no other member has the key
      have hnodup := defaultMembers_nodup
      rw [hsplit, List.map_append, List.map_cons, List.nodup_append] at hnodup
      rintro (hgaps | ⟨m', hm', hcites⟩)
      · simp only [editedDocument, defaultDocument, Gap.none, List.nil_append] at hgaps
        exact not_cites_notes hd hkey hgaps
      · obtain ⟨d', hd', rfl⟩ := List.mem_map.mp hm'
        have hne : d'.key.toList ≠ d.key.toList :=
          hnodup.2.2 _ (List.mem_map_of_mem hd') _ List.mem_cons_self
        have hquiet := member_quiet hf (hsplit ▸ List.mem_append_left _ hd') hkey hne
        exact hcites.elim hne hquiet
    · have hsimple := hf.simple _ _ (documented_of_mem hd)
      rw [Member.Clear]
      cases hvalue : (d.member (f d.key.toList)).value with
      | array lead items =>
          rw [show f d.key.toList = .array lead items from hvalue] at hsimple
          exact ⟨List.not_mem_nil, (by decide : '[' ∉ textOf spaceGap.pieces),
            inertArray_of_commentFree hsimple.1⟩
      | _ => exact ⟨List.not_mem_nil, fun t ht h => by simp [DefaultMember.member, spaceGap,
          Gap.ofBlanks] at h⟩
  · intro habsent
    obtain ⟨d, hd, rfl, -⟩ := exists_member_of_documented hkey
    exact absurd rfl (habsent _ (List.mem_map_of_mem hd))

theorem editedDocument_wellTyped (hf : Editable f) : (editedDocument f).WellTyped := by
  intro key kind hkey v hv
  rw [editedDocument_value? hkey, Option.mem_some_iff] at hv
  exact hv ▸ hf.kind key kind hkey

/-- The document has everything that the fields need. -/
theorem editedDocument_complete (hf : Editable f) : Complete (editedDocument f) where
  present := by
    have hrequired : ∀ key ∈ requiredKeys, key ∈ documentedKeys.map Prod.fst := by
      decide +kernel
    intro key hkey
    obtain ⟨⟨_, kind⟩, hk, rfl⟩ := List.mem_map.mp (hrequired key hkey)
    obtain ⟨d, hd, heq, -⟩ := exists_member_of_documented hk
    exact ⟨_, List.mem_map_of_mem hd, heq⟩
  plain := by
    have htext : ∀ key ∈ ["input".toList, "output_path".toList, "verbose".toList],
        (key, KeyKind.text) ∈ documentedKeys := by
      simp [documentedKeys]
    intro key hkey us hus
    rw [editedDocument_value? (htext key hkey), Option.some.injEq] at hus
    have hsimple := hf.simple _ _ (htext key hkey)
    rwa [hus] at hsimple
  verbose := by
    have hkey : ("verbose".toList, KeyKind.text) ∈ documentedKeys := by simp [documentedKeys]
    rw [editedDocument_value? hkey, Ne, Option.some.injEq]
    exact hf.verbose
  formats := by
    have hkey : ("formats".toList, KeyKind.intArray) ∈ documentedKeys := by simp [documentedKeys]
    intro lead items hvalue
    rw [editedDocument_value? hkey, Option.some.injEq] at hvalue
    have hsimple := hf.simple _ _ hkey
    rw [hvalue] at hsimple
    exact hsimple.2

/-- What is loaded of the document is what it describes. -/
theorem loadConfig_edited (hf : Editable f) :
    loadConfig (some (editedDocument f).text) {} = .ok (true, (editedDocument f).config {}) := by
  rw [FlatObject.loadConfig_loaded (editedDocument_wellTyped hf)
    fun _ _ hkey => editedDocument_legible hf hkey,
    FlatObject.loaded_eq_iff (editedDocument_wellTyped hf) |>.mpr (editedDocument_complete hf)]

end Edited

/-! ## The built-in values -/

/-- In a list without two elements of one key, an element is found by its key. -/
theorem find?_key {α β : Type} [DecidableEq β] {key : α → β} {l : List α}
    (hnodup : (l.map key).Nodup) {x : α} (hx : x ∈ l) :
    l.find? (fun y => key y = key x) = some x := by
  cases hfind : l.find? fun y => key y = key x with
  | none =>
      have hne := List.find?_eq_none.mp hfind x hx
      simp at hne
  | some y =>
      have hkey : key y = key x := by simpa using List.find?_some hfind
      rw [List.inj_on_of_nodup_map hnodup (List.mem_of_find?_eq_some hfind) hx hkey]

/-- The built-in values of the documented keys. -/
def builtinValues (key : Text) : Value :=
  ((defaultMembers.find? fun m => m.key.toList = key).map DefaultMember.value).getD (.str [])

theorem builtinValues_of_mem {m : DefaultMember} (hm : m ∈ defaultMembers) :
    builtinValues m.key.toList = m.value := by
  rw [builtinValues, find?_key defaultMembers_nodup hm]
  rfl

theorem comment_notMem_codes {t u : Text} {ht : '\n' ∉ t} : Piece.comment t ht ∉ codes u := by
  intro h
  obtain ⟨c, -, heq⟩ := List.mem_map.mp h
  cases heq

theorem formatsValue_simple : formatsValue.Simple := by
  have hfree : ∀ t ht, .comment t ht ∉ formatsValue.pieces := by
    have hpieces : formatsValue.pieces = codes (codeOf formatsValue.pieces) := rfl
    exact fun t ht => hpieces ▸ comment_notMem_codes
  -- the literal of a number is not negative
  have hitem : ∀ g n hn, 0 ≤ (formatItem g n hn).literal.value := fun g n hn => Int.natCast_nonneg _
  refine ⟨hfree, ?_⟩
  simp only [List.forall_mem_cons]
  exact ⟨hitem _ 0 _, hitem _ 1 _, hitem _ 2 _, hitem _ 3 _, hitem _ 4 _, hitem _ 5 _, by simp⟩

/-- The built-in values: numbers, the list of formats, and three strings. -/
theorem defaultMembers_values : ∀ m ∈ defaultMembers, m.value.ownKind = .int ∨
    m.value.ownKind = .double ∨ m.value = formatsValue ∨
      ∃ s ∈ [[], "build/out".toList, "file".toList], m.value = jsonEncode s := by
  simp only [defaultMembers, List.forall_mem_cons]
  and_intros
  all_goals first
    | exact .inl rfl
    | exact .inr (.inl rfl)
    | exact .inr (.inr (.inl rfl))
    | exact .inr (.inr (.inr ⟨[], by simp, rfl⟩))
    | exact .inr (.inr (.inr ⟨"build/out".toList, by simp, rfl⟩))
    | exact .inr (.inr (.inr ⟨"file".toList, by simp, rfl⟩))
    | simp

/-- Numbers are simple. -/
theorem simple_of_number {v : Value} (hv : v.ownKind = .int ∨ v.ownKind = .double) : v.Simple := by
  cases v with
  | int l => trivial
  | decimal l => trivial
  | str us => rcases hv with hv | hv <;> cases hv
  | array lead items => rcases hv with hv | hv <;> cases hv

/-- The built-in values are read as they are. -/
theorem editable_builtinValues : Editable builtinValues where
  kind := by
    intro key kind hkey
    obtain ⟨m, hm, rfl, rfl⟩ := exists_member_of_documented hkey
    rw [builtinValues_of_mem hm]
    exact m.value.hasKind_ownKind
  simple := by
    have hplain : ∀ s ∈ [[], "build/out".toList, "file".toList], '"' ∉ s ∧ '\\' ∉ s := by
      decide +kernel
    intro key kind hkey
    obtain ⟨m, hm, rfl, -⟩ := exists_member_of_documented hkey
    rw [builtinValues_of_mem hm]
    rcases defaultMembers_values m hm with hint | hdouble | hformats | ⟨s, hs, hvalue⟩
    · exact simple_of_number (.inl hint)
    · exact simple_of_number (.inr hdouble)
    · rw [hformats]
      exact formatsValue_simple
    · rw [hvalue]
      exact forall_isPlain_iff.mpr (hplain s hs)
  strings := by
    have hstrings : ∀ s ∈ [[], "build/out".toList, "file".toList],
        s ∉ documentedKeys.map Prod.fst := by
      decide +kernel
    intro key kind hkey us hus key' kind' hkey' hvalue'
    obtain ⟨m, hm, rfl, -⟩ := exists_member_of_documented hkey
    rw [builtinValues_of_mem hm] at hus
    rcases defaultMembers_values m hm with hint | hdouble | hformats | ⟨s, hs, hvalue⟩
    · rw [hus] at hint
      cases hint
    · rw [hus] at hdouble
      cases hdouble
    · rw [hus] at hformats
      cases hformats
    · obtain rfl : us = s.map StrUnit.ofChar := by
        rw [hus] at hvalue
        exact Value.str.inj hvalue
      rw [strValue_ofChar] at hvalue'
      exact absurd (hvalue' ▸ List.mem_map_of_mem hkey') (hstrings s hs)
  verbose := by
    have hlast := builtinValues_of_mem (List.getLast_mem (by simp [defaultMembers] :
      defaultMembers ≠ []))
    rw [show builtinValues "verbose".toList = jsonEncode "file".toList from hlast]
    simp [jsonEncode]

theorem editedDocument_builtinValues :
    editedDocument builtinValues = defaultDocument DefaultMember.value := by
  simp only [editedDocument, defaultDocument, FlatObject.mk.injEq, true_and, and_true]
  exact List.map_congr_left fun m hm => by rw [builtinValues_of_mem hm]

/-- The built-in values are the defaults of `bench_config`, with an output directory and all
formats. -/
theorem config_builtinValues : (editedDocument builtinValues).config {} =
    { outputPath := "build/out".toList, formats := [0, 1, 2, 3, 4, 5] } := by
  have hvalue : ∀ k ∈ documentedKeys,
      (editedDocument builtinValues).value? k.1 = some (builtinValues k.1) :=
    fun k hk => @editedDocument_value? _ k.1 k.2 hk
  have hbuiltin : ∀ m ∈ defaultMembers, builtinValues m.key.toList = m.value :=
    fun m hm => builtinValues_of_mem hm
  simp only [documentedKeys, List.forall_mem_cons] at hvalue
  simp only [defaultMembers, List.forall_mem_cons] at hbuiltin
  simp only [FlatObject.config, FlatObject.textField, FlatObject.intField, FlatObject.doubleField,
    FlatObject.intArrayField, hvalue, hbuiltin, jsonEncode, strValue_ofChar, formatsValue,
    formatItem, DecimalLiteral.value, IntLiteral.value_ofNat, Digits.value_ofNat, List.map_cons,
    List.map_nil, BenchConfig.mk.injEq, true_and, Option.elim_some, Option.elim_none]
  have hpitch : signed false ((((0 : ℕ) : ℚ) + ((5 : ℕ) : ℚ) / 10 ^ (Digits.ofNat 5).text.length) *
      10 ^ (0 : ℤ)) = 1 / 2 := by
    have hlength : (Digits.ofNat 5).text.length = 1 := by decide
    rw [hlength, signed, if_neg (by decide)]
    norm_num
  and_intros
  all_goals first
    | rfl
    | exact congrArg Double.finite hpitch

/-- Loading the file that `redcli init` writes, as it is. -/
theorem loadConfig_builtin :
    loadConfig (some rle4kBuiltinDefaultConfigJson) {} =
      .ok (true, { outputPath := "build/out".toList, formats := [0, 1, 2, 3, 4, 5] }) := by
  have hload := loadConfig_edited editable_builtinValues
  rwa [config_builtinValues, editedDocument_builtinValues, defaultDocument_text] at hload

/-- Its documented keys are legible. -/
theorem loadConfig_legible_builtinValues :
    loadConfig (some (editedDocument builtinValues).text) {} =
        .ok (true, (editedDocument builtinValues).config {}) ↔
      Complete (editedDocument builtinValues) :=
  (editedDocument builtinValues).loadConfig_legible
    (editedDocument_wellTyped editable_builtinValues)
    fun _ _ hkey => editedDocument_legible editable_builtinValues hkey

end Redcli
