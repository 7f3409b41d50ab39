import Mathlib.Data.List.TakeWhile
import Redcli.Config.Lookup

/-!
# Loading a Configuration

What `load_config` makes of an object: the fields whose keys are present, and the fields whose
keys are absent.

## Main results

* `loadConfig_found`: the configuration that is loaded, if nothing in the object is mistaken for
  a key or for what stands behind it;
* `load_correct_iff`: it is the configuration that the object describes exactly if the keys are
  present for which `load_config` does not pass the default of `bench_config` to the getter, and
  no value needs more than the getters do.
-/

namespace Redcli

open TextSearch

/-! ## The documented keys -/

/-- The types of the configuration fields. -/
inductive KeyKind where
  | text | int | double | intArray
  deriving DecidableEq

/-- The documented keys and their types. -/
def documentedKeys : List (Text × KeyKind) :=
  [("input".toList, .text), ("output_path".toList, .text), ("mode".toList, .int),
    ("repeat".toList, .int), ("pitch_width_um".toList, .double), ("oblique_factor".toList, .int),
    ("raster_threads".toList, .int), ("encode_threads".toList, .int),
    ("decode_threads".toList, .int), ("encode_enabled".toList, .int),
    ("decode_enabled".toList, .int), ("block_line".toList, .int), ("strip_width".toList, .int),
    ("align_mode".toList, .int), ("dmd_resolution_rows".toList, .int),
    ("dmd_resolution_cols".toList, .int), ("formats".toList, .intArray),
    ("gzip_level".toList, .int), ("zstd_level".toList, .int), ("lzo2_level".toList, .int),
    ("snappy_level".toList, .int), ("brotli_level".toList, .int), ("brotli_window".toList, .int),
    ("check_enabled".toList, .int), ("cache_blocks_min".toList, .int),
    ("cache_blocks_max".toList, .int), ("verbose".toList, .text)]

/-- Whether a value is of a type. -/
def Value.HasKind : Value → KeyKind → Prop
  | .int _, .int => True
  | .int _, .double => True
  | .decimal _, .double => True
  | .str _, .text => True
  | .array _ _, .intArray => True
  | _, _ => False

section HasKind

variable {v : Value}

theorem Value.hasKind_int_iff : v.HasKind .int ↔ ∃ l, v = .int l := by
  cases v <;> simp [HasKind]

theorem Value.hasKind_double_iff :
    v.HasKind .double ↔ (∃ l, v = .int l) ∨ ∃ l, v = .decimal l := by
  cases v <;> simp [HasKind]

theorem Value.hasKind_text_iff : v.HasKind .text ↔ ∃ us, v = .str us := by
  cases v <;> simp [HasKind]

theorem Value.hasKind_intArray_iff : v.HasKind .intArray ↔ ∃ lead items, v = .array lead items := by
  cases v <;> simp [HasKind]

end HasKind

namespace FlatObject

/-- The value of the member with a key. -/
def value? (o : FlatObject) (key : Text) : Option Value :=
  (o.members.find? fun m => m.key = key).map Member.value

/-- The values of documented keys are of their types. -/
def WellTyped (o : FlatObject) : Prop :=
  ∀ key kind, (key, kind) ∈ documentedKeys → ∀ v ∈ o.value? key, v.HasKind kind

/-! ## The configuration that an object describes -/

/-- A string, or a default if the key is absent. -/
def textField (o : FlatObject) (key : Text) (dflt : Text) : Text :=
  match o.value? key with
  | some (.str us) => strValue us
  | _ => dflt

/-- An integer, or a default if the key is absent. -/
def intField (o : FlatObject) (key : Text) (dflt : ℤ) : ℤ :=
  match o.value? key with
  | some (.int l) => l.value
  | _ => dflt

/-- A number, or a default if the key is absent. -/
def doubleField (o : FlatObject) (key : Text) (dflt : Double) : Double :=
  match o.value? key with
  | some (.int l) => .finite l.value
  | some (.decimal l) => .finite l.value
  | _ => dflt

/-- An array, or a default if the key is absent. -/
def intArrayField (o : FlatObject) (key : Text) (dflt : List ℤ) : List ℤ :=
  match o.value? key with
  | some (.array _ items) => items.map fun i => i.literal.value
  | _ => dflt

/-- The configuration that an object describes: the fields whose keys are absent are those of
`cfg`. -/
def config (o : FlatObject) (cfg : BenchConfig) : BenchConfig where
  inputPath := o.textField "input".toList cfg.inputPath
  outputPath := o.textField "output_path".toList cfg.outputPath
  mode := o.intField "mode".toList cfg.mode
  repeats := o.intField "repeat".toList cfg.repeats
  pitchWidthUm := o.doubleField "pitch_width_um".toList cfg.pitchWidthUm
  obliqueFactor := o.intField "oblique_factor".toList cfg.obliqueFactor
  rasterThreads := o.intField "raster_threads".toList cfg.rasterThreads
  encodeThreads := o.intField "encode_threads".toList cfg.encodeThreads
  decodeThreads := o.intField "decode_threads".toList cfg.decodeThreads
  encodeEnabled := o.intField "encode_enabled".toList cfg.encodeEnabled
  decodeEnabled := o.intField "decode_enabled".toList cfg.decodeEnabled
  blockLine := o.intField "block_line".toList cfg.blockLine
  stripWidth := o.intField "strip_width".toList cfg.stripWidth
  alignMode := o.intField "align_mode".toList cfg.alignMode
  dmdResolutionRows := o.intField "dmd_resolution_rows".toList cfg.dmdResolutionRows
  dmdResolutionCols := o.intField "dmd_resolution_cols".toList cfg.dmdResolutionCols
  formats := o.intArrayField "formats".toList cfg.formats
  verbose := o.textField "verbose".toList cfg.verbose
  gzipLevel := o.intField "gzip_level".toList cfg.gzipLevel
  zstdLevel := o.intField "zstd_level".toList cfg.zstdLevel
  lzo2Level := o.intField "lzo2_level".toList cfg.lzo2Level
  snappyLevel := o.intField "snappy_level".toList cfg.snappyLevel
  brotliLevel := o.intField "brotli_level".toList cfg.brotliLevel
  brotliWindow := o.intField "brotli_window".toList cfg.brotliWindow
  checkEnabled := o.intField "check_enabled".toList cfg.checkEnabled
  cacheBlocksMin := o.intField "cache_blocks_min".toList cfg.cacheBlocksMin
  cacheBlocksMax := o.intField "cache_blocks_max".toList cfg.cacheBlocksMax

/-! ## What the getters return -/

/-- Nothing in an object is mistaken for a key, or for what stands behind it, and no comment in
an array for a number. -/
structure Found (o : FlatObject) (key : Text) : Prop extends Unshadowed o key where
  inert : ∀ lead items, o.value? key = some (.array lead items) → InertArray lead items

/-- The string that `json_get_str` returns: the text up to the first quote. -/
def rawField (o : FlatObject) (key : Text) : Text :=
  match o.value? key with
  | some (.str us) => (strText us).takeWhile fun c => c ≠ '"'
  | _ => []

/-- The numbers that `json_get_int_array` returns: the elements without their signs. -/
def digitsField (o : FlatObject) (key : Text) : List ℤ :=
  match o.value? key with
  | some (.array _ items) => items.map fun i => atoi i.literal.digits.text
  | _ => []

variable {o : FlatObject} {key : Text}

/-- A key is absent, or its member is somewhere in the object. -/
theorem value?_cases (o : FlatObject) (key : Text) :
    (o.value? key = Option.none ∧ ∀ m ∈ o.members, m.key ≠ key) ∨
      ∃ pre m post, o.members = pre ++ m :: post ∧ m.key = key ∧ o.value? key = some m.value := by
  -- the first member with the key, if there is one
  cases hfind : o.members.find? fun m => m.key = key with
  | none =>
      refine .inl ⟨by rw [value?, hfind]; rfl, fun m hm => ?_⟩
      simpa using List.find?_eq_none.mp hfind m hm
  | some m =>
      obtain ⟨pre, post, hm⟩ := List.append_of_mem (List.mem_of_find?_eq_some hfind)
      refine .inr ⟨pre, m, post, hm, ?_, by rw [value?, hfind]; rfl⟩
      simpa using List.find?_some hfind

/-- `json_get_int` for a key of an integer. -/
theorem jsonGetInt_found (hfound : o.Found key) (htyped : ∀ v ∈ o.value? key, v.HasKind .int)
    (dflt : ℤ) : jsonGetInt o.text key dflt = .ok (o.intField key dflt) := by
  rcases o.value?_cases key with ⟨hvalue, habsent⟩ | ⟨pre, m, post, hm, rfl, hvalue⟩
  · rw [(defaults_iff.mpr (hfound.absent habsent)).int, intField, hvalue]
  · have hreach := hfound.present pre m post hm rfl
    obtain ⟨l, hv⟩ := Value.hasKind_int_iff.mp (htyped m.value hvalue)
    rw [Reached, hv] at hreach
    rw [intField, hvalue, hv]
    exact jsonGetInt_reached hm hreach hv dflt

/-- `json_get_double` for a key of a number. -/
theorem jsonGetDouble_found (hfound : o.Found key)
    (htyped : ∀ v ∈ o.value? key, v.HasKind .double) (dflt : Double) :
    jsonGetDouble o.text key dflt = .ok (o.doubleField key dflt) := by
  rcases o.value?_cases key with ⟨hvalue, habsent⟩ | ⟨pre, m, post, hm, rfl, hvalue⟩
  · rw [(defaults_iff.mpr (hfound.absent habsent)).double, doubleField, hvalue]
  · have hreach := hfound.present pre m post hm rfl
    rw [doubleField, hvalue]
    rcases Value.hasKind_double_iff.mp (htyped m.value hvalue) with ⟨l, hv⟩ | ⟨l, hv⟩
    · rw [Reached, hv] at hreach
      rw [hv]
      exact jsonGetDouble_reached_int hm hreach hv dflt
    · rw [Reached, hv] at hreach
      rw [hv]
      exact jsonGetDouble_reached hm hreach hv dflt

/-- `json_get_str` for a key of a string. -/
theorem jsonGetStr_found (hfound : o.Found key) (htyped : ∀ v ∈ o.value? key, v.HasKind .text) :
    jsonGetStr o.text key = .ok (o.rawField key) := by
  rcases o.value?_cases key with ⟨hvalue, habsent⟩ | ⟨pre, m, post, hm, rfl, hvalue⟩
  · rw [(defaults_iff.mpr (hfound.absent habsent)).str, rawField, hvalue]
  · have hreach := hfound.present pre m post hm rfl
    obtain ⟨us, hv⟩ := Value.hasKind_text_iff.mp (htyped m.value hvalue)
    rw [Reached, hv] at hreach
    rw [rawField, hvalue, hv]
    exact jsonGetStr_reached hm hreach hv

/-- `json_get_int_array` for a key of an array. -/
theorem jsonGetIntArray_found (hfound : o.Found key)
    (htyped : ∀ v ∈ o.value? key, v.HasKind .intArray) :
    jsonGetIntArray o.text key = .ok (o.digitsField key) := by
  rcases o.value?_cases key with ⟨hvalue, habsent⟩ | ⟨pre, m, post, hm, rfl, hvalue⟩
  · rw [(defaults_iff.mpr (hfound.absent habsent)).intArray, digitsField, hvalue]
  · have hreach := hfound.present pre m post hm rfl
    obtain ⟨lead, items, hv⟩ := Value.hasKind_intArray_iff.mp (htyped m.value hvalue)
    rw [hv] at hvalue
    rw [Reached, hv] at hreach
    rw [digitsField, hvalue]
    exact jsonGetIntArray_reached hm hreach hv (hfound.inert lead items hvalue)

/-- The configuration that `load_config` makes of an object: the default of a field is the
default that is passed to its getter. -/
def loaded (o : FlatObject) : BenchConfig where
  inputPath := o.rawField "input".toList
  outputPath := o.rawField "output_path".toList
  mode := o.intField "mode".toList 0
  repeats := o.intField "repeat".toList 0
  pitchWidthUm := o.doubleField "pitch_width_um".toList (.finite 0)
  obliqueFactor := o.intField "oblique_factor".toList 0
  rasterThreads := o.intField "raster_threads".toList 0
  encodeThreads := o.intField "encode_threads".toList 0
  decodeThreads := o.intField "decode_threads".toList 0
  encodeEnabled := o.intField "encode_enabled".toList 1
  decodeEnabled := o.intField "decode_enabled".toList 1
  blockLine := o.intField "block_line".toList 0
  stripWidth := o.intField "strip_width".toList 0
  alignMode := o.intField "align_mode".toList 0
  dmdResolutionRows := o.intField "dmd_resolution_rows".toList 0
  dmdResolutionCols := o.intField "dmd_resolution_cols".toList 0
  formats := o.digitsField "formats".toList
  verbose := if (o.rawField "verbose".toList).isEmpty then "file".toList
    else o.rawField "verbose".toList
  gzipLevel := o.intField "gzip_level".toList 0
  zstdLevel := o.intField "zstd_level".toList 0
  lzo2Level := o.intField "lzo2_level".toList 0
  snappyLevel := o.intField "snappy_level".toList 0
  brotliLevel := o.intField "brotli_level".toList 0
  brotliWindow := o.intField "brotli_window".toList 0
  checkEnabled := o.intField "check_enabled".toList 0
  cacheBlocksMin := o.intField "cache_blocks_min".toList 32
  cacheBlocksMax := o.intField "cache_blocks_max".toList 128

/-- What the getter for a type of keys returns. -/
def Returns (o : FlatObject) (key : Text) : KeyKind → Prop
  | .text => jsonGetStr o.text key = .ok (o.rawField key)
  | .int => ∀ dflt, jsonGetInt o.text key dflt = .ok (o.intField key dflt)
  | .double => ∀ dflt, jsonGetDouble o.text key dflt = .ok (o.doubleField key dflt)
  | .intArray => jsonGetIntArray o.text key = .ok (o.digitsField key)

/-- The getters for the documented keys. -/
theorem returns_found (htyped : o.WellTyped)
    (hfound : ∀ key kind, (key, kind) ∈ documentedKeys → o.Found key) :
    ∀ k ∈ documentedKeys, o.Returns k.1 k.2 := by
  rintro ⟨key, kind⟩ hk
  have hkey := hfound key kind hk
  have hkind := htyped key kind hk
  cases kind with
  | text => exact jsonGetStr_found hkey hkind
  | int => exact jsonGetInt_found hkey hkind
  | double => exact jsonGetDouble_found hkey hkind
  | intArray => exact jsonGetIntArray_found hkey hkind

/-- `load_config` into a default configuration. -/
theorem loadConfig_found (htyped : o.WellTyped)
    (hfound : ∀ key kind, (key, kind) ∈ documentedKeys → o.Found key) :
    loadConfig (some o.text) {} = .ok (true, o.loaded) := by
  have hreturns := returns_found htyped hfound
  -- the formats keep their default, which is the empty list
  have hempty : (if (o.digitsField "formats".toList).isEmpty then []
      else o.digitsField "formats".toList) = o.digitsField "formats".toList := by
    split_ifs with h
    · exact (List.isEmpty_iff.mp h).symm
    · rfl
  simp only [documentedKeys, List.forall_mem_cons, Returns] at hreturns
  simp only [loadConfig, hreturns, bind, Except.bind, pure, Except.pure, hempty]
  rfl

end FlatObject

/-! ## When it is the configuration that the object describes -/

/-- The keys whose default in `bench_config` is not the default that `load_config` passes to the
getter. -/
def requiredKeys : List Text :=
  ["repeat".toList, "pitch_width_um".toList, "oblique_factor".toList, "raster_threads".toList,
    "block_line".toList, "align_mode".toList, "dmd_resolution_rows".toList,
    "dmd_resolution_cols".toList, "gzip_level".toList, "zstd_level".toList, "lzo2_level".toList,
    "brotli_level".toList, "brotli_window".toList]

/-- What the fields need: the keys that have to be present, and values that the getters can
read. -/
structure Complete (o : FlatObject) : Prop where
  present : ∀ key ∈ requiredKeys, ∃ m ∈ o.members, m.key = key
  plain : ∀ key ∈ ["input".toList, "output_path".toList, "verbose".toList],
    ∀ us, o.value? key = some (.str us) → ∀ u ∈ us, u.IsPlain
  verbose : o.value? "verbose".toList ≠ some (.str [])
  formats : ∀ lead items, o.value? "formats".toList = some (.array lead items) →
    ∀ i ∈ items, 0 ≤ i.literal.value

namespace FlatObject

variable {o : FlatObject} {key : Text}

/-- A field is independent of its default exactly if its key is present. -/
theorem intField_eq_iff (htyped : ∀ v ∈ o.value? key, v.HasKind .int) {d d' : ℤ} (hne : d ≠ d') :
    o.intField key d = o.intField key d' ↔ ∃ m ∈ o.members, m.key = key := by
  rcases o.value?_cases key with ⟨hvalue, habsent⟩ | ⟨pre, m, post, hm, hkey, hvalue⟩
  · simp only [intField, hvalue]
    exact ⟨fun h => absurd h hne, fun ⟨m, hmem, hkey⟩ => absurd hkey (habsent m hmem)⟩
  -- a value that is present is an integer, and hides the default
  · obtain ⟨l, hv⟩ := Value.hasKind_int_iff.mp (htyped m.value hvalue)
    refine iff_of_true ?_ ⟨m, by simp [hm], hkey⟩
    rw [intField, intField, hvalue, hv]

@[inherit_doc intField_eq_iff]
theorem doubleField_eq_iff (htyped : ∀ v ∈ o.value? key, v.HasKind .double) {d d' : Double}
    (hne : d ≠ d') : o.doubleField key d = o.doubleField key d' ↔ ∃ m ∈ o.members, m.key = key := by
  rcases o.value?_cases key with ⟨hvalue, habsent⟩ | ⟨pre, m, post, hm, hkey, hvalue⟩
  · simp only [doubleField, hvalue]
    exact ⟨fun h => absurd h hne, fun ⟨m, hmem, hkey⟩ => absurd hkey (habsent m hmem)⟩
  · refine iff_of_true ?_ ⟨m, by simp [hm], hkey⟩
    rw [doubleField, doubleField, hvalue]
    rcases Value.hasKind_double_iff.mp (htyped m.value hvalue) with ⟨l, hv⟩ | ⟨l, hv⟩
    · rw [hv]
    · rw [hv]

end FlatObject

/-- A quote in the text of a string denotes a quote. -/
theorem quote_mem_strValue {us : List StrUnit} (h : '"' ∈ strText us) : '"' ∈ strValue us := by
  obtain ⟨u, hu, hmem⟩ := List.mem_flatMap.mp h
  refine List.mem_map.mpr ⟨u, hu, ?_⟩
  cases u with
  | plain c hc => exact absurd (List.mem_singleton.mp hmem).symm hc.1
  | escape c hc =>
      obtain rfl : c = '"' := by simpa [StrUnit.text, eq_comm] using hmem
      rfl
  | unicode ds hds =>
      simp only [StrUnit.text, List.mem_cons, Char.reduceEq, false_or] at hmem
      exact absurd (hds.2 _ hmem) (by decide)

/-- The text of a string is at least as long as the string, and longer with an escape. -/
theorem length_strText (us : List StrUnit) :
    us.length ≤ (strText us).length ∧
      ((strText us).length = us.length → ∀ u ∈ us, u.IsPlain) := by
  induction us with
  | nil => simp [strText]
  | cons u us ih =>
      have hlen : (strText (u :: us)).length = u.text.length + (strText us).length := by
        simp [strText]
      rw [hlen, List.length_cons]
      cases u with
      | plain c hc =>
          simp only [StrUnit.text, List.length_singleton]
          refine ⟨by omega, fun heq v hv => ?_⟩
          rcases List.mem_cons.mp hv with rfl | hv
          · trivial
          · exact ih.2 (by omega) v hv
      | escape c hc =>
          simp only [StrUnit.text, List.length_cons, List.length_nil]
          exact ⟨by omega, fun heq => by omega⟩
      | unicode ds hds =>
          simp only [StrUnit.text, List.length_cons]
          exact ⟨by omega, fun heq => by omega⟩

/-- A string is read as it is meant exactly if it has no escapes. -/
theorem takeWhile_strText_eq_iff (us : List StrUnit) :
    (strText us).takeWhile (fun c => c ≠ '"') = strValue us ↔ ∀ u ∈ us, u.IsPlain := by
  -- without a quote the whole text is read
  have hwhole : '"' ∉ strText us → (strText us).takeWhile (fun c => c ≠ '"') = strText us :=
    fun hquote => (takeWhile_append_cons (by decide) _ []).symm.trans
      (takeWhile_ne_append hquote [])
  constructor
  · intro h
    by_cases hquote : '"' ∈ strText us
    · -- what is read has no quote
      have hmem := quote_mem_strValue hquote
      rw [← h] at hmem
      exact absurd (List.mem_takeWhile_imp hmem) (by decide)
    · rw [hwhole hquote] at h
      refine (length_strText us).2 ?_
      rw [h, strValue, List.length_map]
  · intro h
    obtain ⟨hquote, heq⟩ := strText_of_plain h
    rw [hwhole hquote, heq]

namespace FlatObject

variable {o : FlatObject} {key : Text}

/-- The string that is read is the string of the field. -/
theorem rawField_eq_iff (htyped : ∀ v ∈ o.value? key, v.HasKind .text) :
    o.rawField key = o.textField key [] ↔
      ∀ us, o.value? key = some (.str us) → ∀ u ∈ us, u.IsPlain := by
  rw [rawField, textField]
  rcases hvalue : o.value? key with _ | v
  · simp
  · obtain ⟨us, rfl⟩ := Value.hasKind_text_iff.mp (htyped v hvalue)
    simpa using takeWhile_strText_eq_iff us

/-- What is read of a string is empty only for the empty string. -/
private theorem takeWhile_strText_eq_nil {us : List StrUnit}
    (h : (strText us).takeWhile (fun c => c ≠ '"') = []) : us = [] := by
  cases us with
  | nil => rfl
  | cons u us =>
      exfalso
      cases u with
      | plain c hc => simp [strText, StrUnit.text, hc.1] at h
      | escape c hc => simp [strText, StrUnit.text] at h
      | unicode ds hds => simp [strText, StrUnit.text] at h

/-- The string that is read for `verbose`, or its default, is the string of the field. -/
theorem rawField_verbose_eq_iff (htyped : ∀ v ∈ o.value? key, v.HasKind .text) {dflt : Text}
    (hne : dflt ≠ []) :
    (if (o.rawField key).isEmpty then dflt else o.rawField key) = o.textField key dflt ↔
      (∀ us, o.value? key = some (.str us) → ∀ u ∈ us, u.IsPlain) ∧
        o.value? key ≠ some (.str []) := by
  rw [rawField, textField]
  rcases hvalue : o.value? key with _ | v
  · simp
  · obtain ⟨us, rfl⟩ := Value.hasKind_text_iff.mp (htyped v hvalue)
    rcases eq_or_ne us [] with rfl | hus
    · simpa [strText, strValue] using hne
    · have hread : ((strText us).takeWhile fun c => c ≠ '"').isEmpty = false :=
        List.isEmpty_eq_false_iff.mpr fun h => hus (takeWhile_strText_eq_nil h)
      simp only [hread, Bool.false_eq_true, if_false, takeWhile_strText_eq_iff]
      simp [hus]

/-- The numbers that are read are those of the field. -/
theorem digitsField_eq_iff (htyped : ∀ v ∈ o.value? key, v.HasKind .intArray) :
    o.digitsField key = o.intArrayField key [] ↔
      ∀ lead items, o.value? key = some (.array lead items) →
        ∀ i ∈ items, 0 ≤ i.literal.value := by
  rw [digitsField, intArrayField]
  rcases hvalue : o.value? key with _ | v
  · simp
  · obtain ⟨lead, items, rfl⟩ := Value.hasKind_intArray_iff.mp (htyped v hvalue)
    simp [List.map_inj_left, atoi_digits_eq_iff]

/-- When the field of a type of keys is loaded as it is described, for a default of its
getter that is not the default of the field. -/
def Loads (o : FlatObject) (key : Text) : KeyKind → Prop
  | .text => o.rawField key = o.textField key [] ↔
      ∀ us, o.value? key = some (.str us) → ∀ u ∈ us, u.IsPlain
  | .int => ∀ d d', d ≠ d' →
      (o.intField key d = o.intField key d' ↔ ∃ m ∈ o.members, m.key = key)
  | .double => ∀ d d', d ≠ d' →
      (o.doubleField key d = o.doubleField key d' ↔ ∃ m ∈ o.members, m.key = key)
  | .intArray => o.digitsField key = o.intArrayField key [] ↔
      ∀ lead items, o.value? key = some (.array lead items) → ∀ i ∈ items, 0 ≤ i.literal.value

/-- The fields of the documented keys. -/
theorem loads_of_wellTyped (htyped : o.WellTyped) : ∀ k ∈ documentedKeys, o.Loads k.1 k.2 := by
  rintro ⟨key, kind⟩ hk
  have hkind := htyped key kind hk
  cases kind with
  | text => exact rawField_eq_iff hkind
  | int => exact fun d d' hne => intField_eq_iff hkind hne
  | double => exact fun d d' hne => doubleField_eq_iff hkind hne
  | intArray => exact digitsField_eq_iff hkind

/-- The configuration that is loaded is the one that the object describes. -/
theorem loaded_eq_iff (htyped : o.WellTyped) : o.loaded = o.config {} ↔ Complete o := by
  have hloads := loads_of_wellTyped htyped
  have hverbose := o.rawField_verbose_eq_iff (htyped "verbose".toList .text
    (by simp [documentedKeys])) (by decide : "file".toList ≠ [])
  simp only [documentedKeys, List.forall_mem_cons, Loads] at hloads
  -- the getter defaults, all of them different from those of the fields
  have hpitch : Double.finite 0 ≠ .finite (1 / 2) := by simp
  simp (disch := first | decide | assumption) only [loaded, config, BenchConfig.mk.injEq, hloads,
    hverbose, true_and, and_true]
  constructor
  · rintro ⟨hinput, houtput, hrepeat, hpitch, hoblique, hraster, hblock, halign, hrows, hcols,
      hformats, ⟨hverbose, hne⟩, hgzip, hzstd, hlzo2, hbrotli, hwindow⟩
    refine ⟨?_, ?_, hne, hformats⟩
    · simp only [requiredKeys, List.forall_mem_cons]
      exact ⟨hrepeat, hpitch, hoblique, hraster, hblock, halign, hrows, hcols, hgzip, hzstd, hlzo2,
        hbrotli, hwindow, by simp⟩
    · simp only [List.forall_mem_cons]
      exact ⟨hinput, houtput, hverbose, by simp⟩
  · rintro ⟨hpresent, hplain, hne, hformats⟩
    simp only [requiredKeys, List.forall_mem_cons] at hpresent hplain
    obtain ⟨hrepeat, hpitch, hoblique, hraster, hblock, halign, hrows, hcols, hgzip, hzstd, hlzo2,
      hbrotli, hwindow, -⟩ := hpresent
    obtain ⟨hinput, houtput, hverbose, -⟩ := hplain
    exact ⟨hinput, houtput, hrepeat, hpitch, hoblique, hraster, hblock, halign, hrows, hcols,
      hformats, ⟨hverbose, hne⟩, hgzip, hzstd, hlzo2, hbrotli, hwindow⟩

end FlatObject

/-- For an object in which nothing is mistaken for a documented key, `load_config` sets the
fields whose keys are present and leaves the others at their defaults exactly if the object is
complete. -/
theorem load_correct_iff (o : FlatObject) (htyped : o.WellTyped)
    (hfound : ∀ key kind, (key, kind) ∈ documentedKeys → o.Found key) :
    loadConfig (some o.text) {} = .ok (true, o.config {}) ↔ Complete o := by
  rw [FlatObject.loadConfig_found htyped hfound, Except.ok.injEq, Prod.mk.injEq,
    eq_self_iff_true, true_and]
  exact FlatObject.loaded_eq_iff htyped

/-! ## An object with some of the keys -/

/-- A key is found in an object without gaps behind its keys and colons if every key of a member
stands in quotes there first, and no other key does. -/
theorem FlatObject.found_of_overlooked {o : FlatObject} {key : Text}
    (hmembers : ∀ i m, o.members[i]? = some m → o.overlooked (o.members.take i) m = [] ∧
      m.afterKey = .none ∧ m.afterColon = .none)
    (habsent : key ∈ o.members.map Member.key ∨ ¬ quoted key <:+: o.text)
    (hinert : ∀ lead items, o.value? key = some (.array lead items) → InertArray lead items) :
    o.Found key := by
  refine ⟨⟨fun pre m post hm _ => ?_, fun hnone => ?_⟩, hinert⟩
  · obtain ⟨hnil, hafterKey, hafterColon⟩ := hmembers pre.length m (by simp [hm])
    rw [hm, List.take_left] at hnil
    unfold FlatObject.Reached
    cases m.value with
    | array lead items =>
        simp [FlatObject.ArrayReached, Inert, hnil, hafterKey, hafterColon, Gap.none]
    | _ => simp [FlatObject.ScalarReached, hnil, hafterKey, hafterColon, Gap.none]
  · refine nothingFound_of_not_infix (habsent.resolve_left fun hmem => ?_)
    obtain ⟨m, hm, hkey⟩ := List.mem_map.mp hmem
    exact hnone m hm hkey

/-- The key of the array needs no escapes. -/
theorem formatsKey_plain : '"' ∉ "formats".toList ∧ '\\' ∉ "formats".toList := by decide

/-- An object with a path, a list of one format, and `1` for each of the keys that have to be
present. -/
def partlyFilledObject : FlatObject where
  lead := .none
  inner := .none
  members :=
    .plain "input".toList (.str [.plain 'a' (by decide)]) (by decide) ::
      .plain "formats".toList (.array .none [⟨.none, .one, .none⟩]) formatsKey_plain ::
        requiredKeys.pmap (fun key hkey => .plain key (.int .one) hkey) (by decide +kernel)
  trail := .none

/-- Its keys stand in quotes first as the keys of their members. -/
theorem partlyFilledObject_members : ∀ i m, partlyFilledObject.members[i]? = some m →
    partlyFilledObject.overlooked (partlyFilledObject.members.take i) m = [] ∧
      m.afterKey = .none ∧ m.afterColon = .none := by
  have hcheck : ∀ e ∈ partlyFilledObject.members.zipIdx,
      partlyFilledObject.overlooked (partlyFilledObject.members.take e.2) e.1 = [] := by
    decide +kernel
  intro i m hm
  have hgaps : ∀ m ∈ partlyFilledObject.members, m.afterKey = .none ∧ m.afterColon = .none := by
    simp [partlyFilledObject, requiredKeys, Member.plain]
  exact ⟨hcheck (m, i) (List.mk_mem_zipIdx_iff_getElem?.mpr hm),
    hgaps m (List.mem_of_getElem? hm)⟩

/-- Its values. -/
theorem partlyFilledObject_value? {key : Text} {v : Value}
    (hv : partlyFilledObject.value? key = some v) :
    key = "input".toList ∧ v = .str [.plain 'a' (by decide)] ∨
      key = "formats".toList ∧ v = .array .none [⟨.none, .one, .none⟩] ∨
      key ∈ requiredKeys ∧ v = .int .one := by
  rcases partlyFilledObject.value?_cases key with ⟨hnone, -⟩ | ⟨pre, m, post, hm, hkey, hsome⟩
  · rw [hnone] at hv
    cases hv
  · obtain rfl : m.value = v := Option.some.inj (hsome.symm.trans hv)
    have hmem : m ∈ partlyFilledObject.members := by simp [hm]
    subst hkey
    rcases List.mem_cons.mp hmem with rfl | hmem
    · exact .inl ⟨rfl, rfl⟩
    rcases List.mem_cons.mp hmem with rfl | hmem
    · exact .inr (.inl ⟨rfl, rfl⟩)
    · obtain ⟨key, hkey, rfl⟩ := List.mem_pmap.mp hmem
      exact .inr (.inr ⟨hkey, rfl⟩)

theorem partlyFilledObject_found {key : Text} {kind : KeyKind}
    (hkey : (key, kind) ∈ documentedKeys) : partlyFilledObject.Found key := by
  have habsent : ∀ k ∈ documentedKeys, k.1 ∈ partlyFilledObject.members.map Member.key ∨
      ¬ quoted k.1 <:+: partlyFilledObject.text := by
    decide +kernel
  refine FlatObject.found_of_overlooked partlyFilledObject_members (habsent _ hkey)
    fun lead items hvalue => ?_
  rcases partlyFilledObject_value? hvalue with ⟨-, h⟩ | ⟨-, h⟩ | ⟨-, h⟩
  · cases h
  · cases h
    exact ⟨by simp [Inert, Gap.none], by simp [Inert, Gap.none]⟩
  · cases h

theorem partlyFilledObject_wellTyped : partlyFilledObject.WellTyped := by
  have hkinds : ∀ k ∈ documentedKeys, (k.1 = "input".toList → k.2 = .text) ∧
      (k.1 = "formats".toList → k.2 = .intArray) ∧
      (k.1 ∈ requiredKeys → k.2 = .int ∨ k.2 = .double) := by
    decide +kernel
  intro key kind hkey v hv
  obtain ⟨hinput, hformats, hnumber⟩ := hkinds _ hkey
  rcases partlyFilledObject_value? hv with ⟨h, rfl⟩ | ⟨h, rfl⟩ | ⟨h, rfl⟩
  · rw [show kind = .text from hinput h]
    trivial
  · rw [show kind = .intArray from hformats h]
    trivial
  · rcases hnumber h with hkind | hkind <;>
    · rw [show kind = _ from hkind]
      trivial

theorem partlyFilledObject_complete : Complete partlyFilledObject where
  present key hkey :=
    ⟨_, List.mem_cons_of_mem _ (List.mem_cons_of_mem _ (List.mem_pmap.mpr ⟨key, hkey, rfl⟩)), rfl⟩
  plain key _ us hvalue u hu := by
    rcases partlyFilledObject_value? hvalue with ⟨-, h⟩ | ⟨-, h⟩ | ⟨-, h⟩
    · cases h
      obtain rfl := List.mem_singleton.mp hu
      trivial
    · cases h
    · cases h
  verbose hvalue := by
    rcases partlyFilledObject_value? hvalue with ⟨-, h⟩ | ⟨-, h⟩ | ⟨-, h⟩ <;> cases h
  formats lead items hvalue i hi := by
    rcases partlyFilledObject_value? hvalue with ⟨-, h⟩ | ⟨-, h⟩ | ⟨-, h⟩
    · cases h
    · cases h
      obtain rfl := List.mem_singleton.mp hi
      decide
    · cases h

/-- What is loaded of it: the keys that are absent, among them `mode`, `strip_width` and
`cache_blocks_max`, keep their defaults. -/
theorem load_correct_iff_partlyFilledObject :
    loadConfig (some partlyFilledObject.text) {} = .ok (true, partlyFilledObject.config {}) ∧
      Complete partlyFilledObject :=
  ⟨(load_correct_iff partlyFilledObject partlyFilledObject_wellTyped
    fun _ _ hkey => partlyFilledObject_found hkey).mpr partlyFilledObject_complete,
    partlyFilledObject_complete⟩

/-! ## The empty object -/

/-- The object without members. -/
def emptyObject : FlatObject := { lead := .none, inner := .none, members := [], trail := .none }

theorem emptyObject_wellTyped : emptyObject.WellTyped :=
  fun _ _ _ _ hv => absurd hv (by simp [FlatObject.value?, emptyObject])

theorem emptyObject_found (key : Text) : emptyObject.Found key where
  present := fun pre m post hm => by simp [emptyObject] at hm
  absent := fun _ => by
    refine nothingFound_of_not_infix fun h => ?_
    have hquote : '"' ∈ emptyObject.text := h.subset (by simp [quoted])
    exact absurd hquote (by decide)
  inert := fun lead items h => by simp [FlatObject.value?, emptyObject] at h

/-- The empty object describes the default configuration, but `repeat` is loaded as `0`. -/
theorem loadConfig_emptyObject :
    ∃ cfg, loadConfig (some emptyObject.text) {} = .ok (true, cfg) ∧ cfg.repeats = 0 ∧
      emptyObject.config {} = {} ∧ ({} : BenchConfig).repeats = 3 :=
  ⟨_, FlatObject.loadConfig_found emptyObject_wellTyped fun key _ _ => emptyObject_found key,
    rfl, rfl, rfl⟩

end Redcli
