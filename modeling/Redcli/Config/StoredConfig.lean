import Redcli.Config.CommandLine
import Redcli.Config.DefaultConfig

/-!
# Stored Configurations

A configuration written into the file that `redcli init` writes: each value in the place of the
built-in one.

## Main results

* `loadConfig_stored`: what is loaded is the configuration that was stored.
-/

namespace Redcli

/-! ## Literals -/

/-- The digits of an `int` and its sign are the `int`. -/
theorem signed_natAbs (n : ℤ) :
    signed (decide (n < 0)) ((Digits.ofNat n.natAbs).value : ℤ) = n := by
  rw [Digits.value_ofNat, signed]
  by_cases hn : n < 0
  · rw [if_pos (decide_eq_true hn)]
    omega
  · rw [if_neg (by simpa using hn)]
    omega

/-- The literal of an `int`. -/
def IntLiteral.ofInt {n : ℤ} (h : IsInt n) : IntLiteral where
  negative := decide (n < 0)
  digits := .ofNat n.natAbs
  fits := (signed_natAbs n).symm ▸ h

@[simp] theorem IntLiteral.value_ofInt {n : ℤ} (h : IsInt n) : (IntLiteral.ofInt h).value = n :=
  signed_natAbs n

theorem isInt_of_nonneg {n : ℤ} (h : 0 ≤ n ∧ n ≤ intMax) : IsInt n :=
  ⟨(by decide : intMin ≤ 0).trans h.1, h.2⟩

/-- The elements of an array without gaps. -/
def formatItems (ids : List ℤ) (h : ∀ n ∈ ids, 0 ≤ n ∧ n ≤ intMax) : List ArrayItem :=
  ids.pmap (fun _ hn => ⟨.none, .ofInt hn, .none⟩) fun n hn => isInt_of_nonneg (h n hn)

theorem formatItems_values {ids : List ℤ} (h : ∀ n ∈ ids, 0 ≤ n ∧ n ≤ intMax) :
    (formatItems ids h).map (fun i => i.literal.value) = ids := by
  rw [formatItems, List.map_pmap]
  simp

/-- An array without gaps. -/
def formatList (ids : List ℤ) (h : ∀ n ∈ ids, 0 ≤ n ∧ n ≤ intMax) : Value :=
  .array .none (formatItems ids h)

theorem formatList_simple {ids : List ℤ} (h : ∀ n ∈ ids, 0 ≤ n ∧ n ≤ intMax) :
    (formatList ids h).Simple := by
  -- without gaps there are no comments
  have hstrip : (formatList ids h).strip = formatList ids h := by
    simp only [formatList, Value.strip, Value.array.injEq, formatItems, List.map_pmap]
    exact ⟨rfl, rfl⟩
  refine ⟨fun t ht hmem => ?_, fun i hi => ?_⟩
  · change Piece.comment t ht ∈ (formatList ids h).pieces at hmem
    rw [← hstrip, Value.strip_pieces] at hmem
    exact comment_notMem_codes hmem
  · have hvalue : i.literal.value ∈ ids := by
      rw [← formatItems_values h]
      exact List.mem_map_of_mem hi
    exact (h _ hvalue).1

/-! ## A configuration and its values -/

/-- A configuration that can be stored: integers that are `int`s, a pitch that is a decimal, no
negative formats, and strings without quotes and backslashes that are no documented keys. -/
structure StoredConfig where
  cfg : BenchConfig
  pitch : DecimalLiteral
  inRange : cfg.InRange
  pitch_value : .finite pitch.value = cfg.pitchWidthUm
  formats : ∀ n ∈ cfg.formats, 0 ≤ n ∧ n ≤ intMax
  strings : ∀ t ∈ [cfg.inputPath, cfg.outputPath, cfg.verbose],
    ('"' ∉ t ∧ '\\' ∉ t) ∧ t ∉ documentedKeys.map Prod.fst
  verbose : cfg.verbose ≠ []

/-- The values under the documented keys. -/
def StoredConfig.values (s : StoredConfig) : List (Text × Value) :=
  [("input".toList, jsonEncode s.cfg.inputPath),
    ("output_path".toList, jsonEncode s.cfg.outputPath),
    ("mode".toList, .int (.ofInt s.inRange.mode)),
    ("repeat".toList, .int (.ofInt s.inRange.repeats)),
    ("pitch_width_um".toList, .decimal s.pitch),
    ("oblique_factor".toList, .int (.ofInt s.inRange.obliqueFactor)),
    ("raster_threads".toList, .int (.ofInt s.inRange.rasterThreads)),
    ("encode_threads".toList, .int (.ofInt s.inRange.encodeThreads)),
    ("decode_threads".toList, .int (.ofInt s.inRange.decodeThreads)),
    ("encode_enabled".toList, .int (.ofInt s.inRange.encodeEnabled)),
    ("decode_enabled".toList, .int (.ofInt s.inRange.decodeEnabled)),
    ("block_line".toList, .int (.ofInt s.inRange.blockLine)),
    ("strip_width".toList, .int (.ofInt s.inRange.stripWidth)),
    ("align_mode".toList, .int (.ofInt s.inRange.alignMode)),
    ("dmd_resolution_rows".toList, .int (.ofInt s.inRange.dmdResolutionRows)),
    ("dmd_resolution_cols".toList, .int (.ofInt s.inRange.dmdResolutionCols)),
    ("formats".toList, formatList s.cfg.formats s.formats),
    ("gzip_level".toList, .int (.ofInt s.inRange.gzipLevel)),
    ("zstd_level".toList, .int (.ofInt s.inRange.zstdLevel)),
    ("lzo2_level".toList, .int (.ofInt s.inRange.lzo2Level)),
    ("snappy_level".toList, .int (.ofInt s.inRange.snappyLevel)),
    ("brotli_level".toList, .int (.ofInt s.inRange.brotliLevel)),
    ("brotli_window".toList, .int (.ofInt s.inRange.brotliWindow)),
    ("check_enabled".toList, .int (.ofInt s.inRange.checkEnabled)),
    ("cache_blocks_min".toList, .int (.ofInt s.inRange.cacheBlocksMin)),
    ("cache_blocks_max".toList, .int (.ofInt s.inRange.cacheBlocksMax)),
    ("verbose".toList, jsonEncode s.cfg.verbose)]

/-- The value under a key. -/
def StoredConfig.value (s : StoredConfig) (key : Text) : Value :=
  ((s.values.find? fun p => p.1 = key).map Prod.snd).getD (.str [])

theorem StoredConfig.value_of_mem (s : StoredConfig) {p : Text × Value} (hp : p ∈ s.values) :
    s.value p.1 = p.2 := by
  have hnodup : (s.values.map Prod.fst).Nodup := documentedKeys_nodup
  rw [value, find?_key hnodup hp]
  rfl

/-- The values are of the types of their keys. -/
theorem StoredConfig.values_kinds (s : StoredConfig) :
    s.values.map (fun p => (p.1, p.2.ownKind)) = documentedKeys := rfl

theorem StoredConfig.exists_of_documented (s : StoredConfig) {key : Text} {kind : KeyKind}
    (hkey : (key, kind) ∈ documentedKeys) :
    ∃ p ∈ s.values, s.value key = p.2 ∧ p.2.ownKind = kind := by
  rw [← s.values_kinds] at hkey
  obtain ⟨p, hp, heq⟩ := List.mem_map.mp hkey
  obtain ⟨rfl, rfl⟩ := Prod.mk.inj heq
  exact ⟨p, hp, s.value_of_mem hp, rfl⟩

/-- The stored values: numbers, a list of formats, and three strings. -/
theorem StoredConfig.values_cases (s : StoredConfig) : ∀ p ∈ s.values,
    p.2.ownKind = .int ∨ p.2.ownKind = .double ∨ p.2 = formatList s.cfg.formats s.formats ∨
      ∃ t ∈ [s.cfg.inputPath, s.cfg.outputPath, s.cfg.verbose], p.2 = jsonEncode t := by
  simp only [values, List.forall_mem_cons]
  and_intros
  all_goals first
    | exact .inl rfl
    | exact .inr (.inl rfl)
    | exact .inr (.inr (.inl rfl))
    | exact .inr (.inr (.inr ⟨s.cfg.inputPath, by simp, rfl⟩))
    | exact .inr (.inr (.inr ⟨s.cfg.outputPath, by simp, rfl⟩))
    | exact .inr (.inr (.inr ⟨s.cfg.verbose, by simp, rfl⟩))
    | simp

/-- The getters can read the stored values. -/
theorem StoredConfig.editable (s : StoredConfig) : Editable s.value where
  kind := by
    intro key kind hkey
    obtain ⟨p, -, hvalue, rfl⟩ := s.exists_of_documented hkey
    rw [hvalue]
    exact p.2.hasKind_ownKind
  simple := by
    intro key kind hkey
    obtain ⟨p, hp, hvalue, -⟩ := s.exists_of_documented hkey
    rw [hvalue]
    rcases s.values_cases p hp with hint | hdouble | hformats | ⟨t, ht, hstr⟩
    · exact simple_of_number (.inl hint)
    · exact simple_of_number (.inr hdouble)
    · rw [hformats]
      exact formatList_simple s.formats
    · rw [hstr]
      exact forall_isPlain_iff.mpr (s.strings t ht).1
  strings := by
    intro key kind hkey us hus key' kind' hkey' heq
    obtain ⟨p, hp, hvalue, -⟩ := s.exists_of_documented hkey
    rw [hvalue] at hus
    rcases s.values_cases p hp with hint | hdouble | hformats | ⟨t, ht, hstr⟩
    · rw [hus] at hint
      cases hint
    · rw [hus] at hdouble
      cases hdouble
    · rw [hus] at hformats
      cases hformats
    · obtain rfl : us = t.map StrUnit.ofChar := Value.str.inj (hus.symm.trans hstr)
      rw [strValue_ofChar] at heq
      exact absurd (heq ▸ List.mem_map_of_mem hkey') (s.strings t ht).2
  verbose := by
    have hvalue : s.value "verbose".toList = jsonEncode s.cfg.verbose :=
      s.value_of_mem (p := ("verbose".toList, jsonEncode s.cfg.verbose)) (by simp [values])
    rw [hvalue, jsonEncode, Ne, Value.str.injEq, List.map_eq_nil_iff]
    exact s.verbose

/-- The stored configuration is the one that the document describes. -/
theorem StoredConfig.config_document (s : StoredConfig) :
    (editedDocument s.value).config {} = s.cfg := by
  have hvalue : ∀ k ∈ documentedKeys, (editedDocument s.value).value? k.1 = some (s.value k.1) :=
    fun k hk => @editedDocument_value? _ k.1 k.2 hk
  have hstored : ∀ p ∈ s.values, s.value p.1 = p.2 := fun p hp => s.value_of_mem hp
  simp only [documentedKeys, List.forall_mem_cons] at hvalue
  simp only [values, List.forall_mem_cons] at hstored
  simp only [FlatObject.config, FlatObject.textField, FlatObject.intField, FlatObject.doubleField,
    FlatObject.intArrayField, hvalue, hstored, jsonEncode, strValue_ofChar, formatList,
    formatItems_values, IntLiteral.value_ofInt, s.pitch_value]

/-- Every configuration that is stored in the file of `redcli init` is loaded again. -/
theorem loadConfig_stored (s : StoredConfig) :
    loadConfig (some (editedDocument s.value).text) {} = .ok (true, s.cfg) := by
  rw [loadConfig_edited s.editable, s.config_document]

/-- A configuration for one file, with the formats GZIP and Brotli and a pitch of a quarter
micrometre. -/
def configTwoFormats : BenchConfig :=
  { inputPath := "C:/a.dif".toList
    pitchWidthUm := .finite (1 / 4)
    formats := [1, 5]
    checkEnabled := 1 }

theorem inRange_configTwoFormats : configTwoFormats.InRange := by
  unfold configTwoFormats
  exact { inRange_default with checkEnabled := ⟨by decide, by decide⟩ }

/-- The notation `0.25`. -/
def quarter : DecimalLiteral := ⟨false, .ofNat 0, some (.ofNat 25), none⟩

theorem value_quarter : quarter.value = 1 / 4 := by
  have hlength : (Digits.ofNat 25).text.length = 2 := by decide
  simp only [quarter, DecimalLiteral.value, Option.elim_some, Option.elim_none,
    Digits.value_ofNat, hlength, signed, Bool.false_eq_true, if_false]
  norm_num

theorem strings_configTwoFormats : ∀ t ∈ [configTwoFormats.inputPath, configTwoFormats.outputPath,
    configTwoFormats.verbose], ('"' ∉ t ∧ '\\' ∉ t) ∧ t ∉ documentedKeys.map Prod.fst := by
  decide +kernel

theorem formats_configTwoFormats : ∀ n ∈ configTwoFormats.formats, 0 ≤ n ∧ n ≤ intMax := by decide

theorem verbose_configTwoFormats : configTwoFormats.verbose ≠ [] := by decide

/-- The configuration can be stored. -/
def storedTwoFormats : StoredConfig where
  cfg := configTwoFormats
  pitch := quarter
  inRange := inRange_configTwoFormats
  pitch_value := congrArg Double.finite value_quarter
  formats := formats_configTwoFormats
  strings := strings_configTwoFormats
  verbose := verbose_configTwoFormats

/-- Storing and loading this configuration. -/
theorem loadConfig_stored_twoFormats :
    loadConfig (some (editedDocument storedTwoFormats.value).text) {} =
      .ok (true, { inputPath := "C:/a.dif".toList, pitchWidthUm := .finite (1 / 4),
                   formats := [1, 5], checkEnabled := 1 }) :=
  loadConfig_stored storedTwoFormats

end Redcli
