import Redcli.Config.StdString

/-!
# The Configuration Parser

The getters of the configuration parser, which search the raw text of a configuration for a
key and a value, and `load_config`.

## Main results

* `loadedFrom_of_loadConfig`: what every getter has returned when `load_config` returns;
* `jsonGetInt_eq`, `jsonGetDouble_eq`, `jsonGetStr_eq`: a scalar getter reads the text that
  `valueText` finds, without positions;
* `jsonGetIntArray_eq`: so does the getter for arrays.
-/

namespace Redcli

open TextSearch

/-! ## The getters -/

/-- The pattern for a key: the key in quotes. -/
def quoted (key : Text) : Text := '"' :: key ++ ['"']

/-- The white space of the parser. -/
def blanks : Text := [' ', '\t', '\r', '\n']

/-- The characters that end a number. -/
def scalarEnds : Text := [',', '}', '\r', '\n']

/-- `skip_comment`. It returns the position of the line feed, not of the line behind it. -/
def skipComment (s : Text) : Position → Except TextFault Position
  | none =>
      -- `npos + 1` is 0, so a text that is not empty is read at `npos`
      if 0 < s.length then .error .read else .ok none
  | some p =>
      if p + 1 < s.length then do
        if (← charAt s p) = '/' then
          if (← charAt s (p + 1)) = '/' then pure (findChar s '\n' p) else pure (some p)
        else pure (some p)
      else pure (some p)

/-- The search that the scalar getters have in common: the key, the next colon, white space
and a comment. -/
def locateValue (json key : Text) : Except TextFault Position :=
  -- the first place where the key stands in quotes, which need not be a key
  match find json (quoted key) 0 with
  | none => pure none
  | some pos =>
      match findChar json ':' (pos + (quoted key).length) with
      | none => pure none
      | some pos => skipComment json (findFirstNotOf json blanks (pos + 1))

/-- `json_get_str`. -/
def jsonGetStr (json key : Text) : Except TextFault Text := do
  match ← locateValue json key with
  | none => pure []
  | some pos =>
      if (← charAt json pos) ≠ '"' then pure []
      else
        match findChar json '"' (pos + 1) with
        | none => pure []
        | some stop => substr json (pos + 1) (some stop)

/-- `json_get_int`. -/
def jsonGetInt (json key : Text) (dflt : ℤ := 0) : Except TextFault ℤ := do
  match ← locateValue json key with
  | none => pure dflt
  | some pos => pure (atoi (← substr json pos (findFirstOf json scalarEnds pos)))

/-- `json_get_double`. -/
def jsonGetDouble (json key : Text) (dflt : Double := .finite 0) : Except TextFault Double := do
  match ← locateValue json key with
  | none => pure dflt
  | some pos => pure (atof (← substr json pos (findFirstOf json scalarEnds pos)))

/-- The characters between the numbers of an array. -/
def arraySeparators : Text := [' ', '\t', '\r', '\n', ',']

/-- The loop of `json_get_int_array` over the text between the brackets: it collects the runs
of digits. Every round consumes a character. -/
def scanInts : ℕ → Text → List ℤ
  | 0, _ => []
  | fuel + 1, inner =>
      match inner.dropWhile fun c => arraySeparators.contains c with
      | [] => []
      | c :: rest =>
          if c.isDigit then
            atoi ((c :: rest).takeWhile Char.isDigit) ::
              scanInts fuel ((c :: rest).dropWhile Char.isDigit)
          -- one character that is neither a separator nor a digit, such as a sign
          else scanInts fuel rest

/-- `json_get_int_array`. -/
def jsonGetIntArray (json key : Text) : Except TextFault (List ℤ) :=
  match find json (quoted key) 0 with
  | none => pure []
  | some pos =>
      match findChar json '[' (pos + (quoted key).length) with
      | none => pure []
      | some pos =>
          match findChar json ']' pos with
          | none => pure []
          | some stop => do
              let inner ← substr json (pos + 1) (some stop)
              pure (scanInts inner.length inner)

/-- `load_config` on the text of a file, or on a file that cannot be opened: whether it
succeeds, and the configuration. -/
def loadConfig (file : Option Text) (cfg : BenchConfig) :
    Except TextFault (Bool × BenchConfig) :=
  match file with
  | none => pure (false, cfg)
  | some json => do
      let inputPath ← jsonGetStr json "input".toList
      let outputPath ← jsonGetStr json "output_path".toList
      let mode ← jsonGetInt json "mode".toList
      let repeats ← jsonGetInt json "repeat".toList
      let pitchWidthUm ← jsonGetDouble json "pitch_width_um".toList
      let obliqueFactor ← jsonGetInt json "oblique_factor".toList
      let rasterThreads ← jsonGetInt json "raster_threads".toList
      let encodeThreads ← jsonGetInt json "encode_threads".toList 0
      let decodeThreads ← jsonGetInt json "decode_threads".toList 0
      let encodeEnabled ← jsonGetInt json "encode_enabled".toList 1
      let decodeEnabled ← jsonGetInt json "decode_enabled".toList 1
      let blockLine ← jsonGetInt json "block_line".toList
      let stripWidth ← jsonGetInt json "strip_width".toList
      let alignMode ← jsonGetInt json "align_mode".toList
      let dmdResolutionRows ← jsonGetInt json "dmd_resolution_rows".toList
      let dmdResolutionCols ← jsonGetInt json "dmd_resolution_cols".toList
      let fmts ← jsonGetIntArray json "formats".toList
      let gzipLevel ← jsonGetInt json "gzip_level".toList
      let zstdLevel ← jsonGetInt json "zstd_level".toList
      let lzo2Level ← jsonGetInt json "lzo2_level".toList
      let snappyLevel ← jsonGetInt json "snappy_level".toList
      let brotliLevel ← jsonGetInt json "brotli_level".toList
      let brotliWindow ← jsonGetInt json "brotli_window".toList
      let checkEnabled ← jsonGetInt json "check_enabled".toList 0
      let cacheBlocksMin ← jsonGetInt json "cache_blocks_min".toList 32
      let cacheBlocksMax ← jsonGetInt json "cache_blocks_max".toList 128
      let verbose ← jsonGetStr json "verbose".toList
      pure (true,
        { inputPath := inputPath
          outputPath := outputPath
          mode := mode
          repeats := repeats
          pitchWidthUm := pitchWidthUm
          obliqueFactor := obliqueFactor
          rasterThreads := rasterThreads
          encodeThreads := encodeThreads
          decodeThreads := decodeThreads
          encodeEnabled := encodeEnabled
          decodeEnabled := decodeEnabled
          blockLine := blockLine
          stripWidth := stripWidth
          alignMode := alignMode
          dmdResolutionRows := dmdResolutionRows
          dmdResolutionCols := dmdResolutionCols
          -- an empty list, or one that is not found, leaves the formats as they are
          formats := if fmts.isEmpty then cfg.formats else fmts
          verbose := if verbose.isEmpty then "file".toList else verbose
          gzipLevel := gzipLevel
          zstdLevel := zstdLevel
          lzo2Level := lzo2Level
          snappyLevel := snappyLevel
          brotliLevel := brotliLevel
          brotliWindow := brotliWindow
          checkEnabled := checkEnabled
          cacheBlocksMin := cacheBlocksMin
          cacheBlocksMax := cacheBlocksMax })

/-- Every setting of `cfg'` is what its getter returns for `json`, up to the defaults that
`load_config` has for an empty list of formats and an empty `verbose`. -/
structure LoadedFrom (json : Text) (cfg cfg' : BenchConfig) : Prop where
  inputPath : jsonGetStr json "input".toList = .ok cfg'.inputPath
  outputPath : jsonGetStr json "output_path".toList = .ok cfg'.outputPath
  mode : jsonGetInt json "mode".toList 0 = .ok cfg'.mode
  repeats : jsonGetInt json "repeat".toList 0 = .ok cfg'.repeats
  pitchWidthUm :
    jsonGetDouble json "pitch_width_um".toList (.finite 0) = .ok cfg'.pitchWidthUm
  obliqueFactor : jsonGetInt json "oblique_factor".toList 0 = .ok cfg'.obliqueFactor
  rasterThreads : jsonGetInt json "raster_threads".toList 0 = .ok cfg'.rasterThreads
  encodeThreads : jsonGetInt json "encode_threads".toList 0 = .ok cfg'.encodeThreads
  decodeThreads : jsonGetInt json "decode_threads".toList 0 = .ok cfg'.decodeThreads
  encodeEnabled : jsonGetInt json "encode_enabled".toList 1 = .ok cfg'.encodeEnabled
  decodeEnabled : jsonGetInt json "decode_enabled".toList 1 = .ok cfg'.decodeEnabled
  blockLine : jsonGetInt json "block_line".toList 0 = .ok cfg'.blockLine
  stripWidth : jsonGetInt json "strip_width".toList 0 = .ok cfg'.stripWidth
  alignMode : jsonGetInt json "align_mode".toList 0 = .ok cfg'.alignMode
  dmdResolutionRows : jsonGetInt json "dmd_resolution_rows".toList 0 = .ok cfg'.dmdResolutionRows
  dmdResolutionCols : jsonGetInt json "dmd_resolution_cols".toList 0 = .ok cfg'.dmdResolutionCols
  formats : ∃ fmts, jsonGetIntArray json "formats".toList = .ok fmts ∧
    cfg'.formats = if fmts.isEmpty then cfg.formats else fmts
  gzipLevel : jsonGetInt json "gzip_level".toList 0 = .ok cfg'.gzipLevel
  zstdLevel : jsonGetInt json "zstd_level".toList 0 = .ok cfg'.zstdLevel
  lzo2Level : jsonGetInt json "lzo2_level".toList 0 = .ok cfg'.lzo2Level
  snappyLevel : jsonGetInt json "snappy_level".toList 0 = .ok cfg'.snappyLevel
  brotliLevel : jsonGetInt json "brotli_level".toList 0 = .ok cfg'.brotliLevel
  brotliWindow : jsonGetInt json "brotli_window".toList 0 = .ok cfg'.brotliWindow
  checkEnabled : jsonGetInt json "check_enabled".toList 0 = .ok cfg'.checkEnabled
  cacheBlocksMin : jsonGetInt json "cache_blocks_min".toList 32 = .ok cfg'.cacheBlocksMin
  cacheBlocksMax : jsonGetInt json "cache_blocks_max".toList 128 = .ok cfg'.cacheBlocksMax
  verbose : ∃ verbose, jsonGetStr json "verbose".toList = .ok verbose ∧
    cfg'.verbose = if verbose.isEmpty then "file".toList else verbose

/-- What `load_config` has read when it returns. -/
theorem loadedFrom_of_loadConfig {json : Text} {cfg cfg' : BenchConfig} {opened : Bool}
    (h : loadConfig (some json) cfg = .ok (opened, cfg')) : LoadedFrom json cfg cfg' := by
  simp only [loadConfig] at h
  -- one getter after the other has returned
  obtain ⟨_, hinputPath, h⟩ := except_bind_eq_ok.mp h
  obtain ⟨_, houtputPath, h⟩ := except_bind_eq_ok.mp h
  obtain ⟨_, hmode, h⟩ := except_bind_eq_ok.mp h
  obtain ⟨_, hrepeats, h⟩ := except_bind_eq_ok.mp h
  obtain ⟨_, hpitchWidthUm, h⟩ := except_bind_eq_ok.mp h
  obtain ⟨_, hobliqueFactor, h⟩ := except_bind_eq_ok.mp h
  obtain ⟨_, hrasterThreads, h⟩ := except_bind_eq_ok.mp h
  obtain ⟨_, hencodeThreads, h⟩ := except_bind_eq_ok.mp h
  obtain ⟨_, hdecodeThreads, h⟩ := except_bind_eq_ok.mp h
  obtain ⟨_, hencodeEnabled, h⟩ := except_bind_eq_ok.mp h
  obtain ⟨_, hdecodeEnabled, h⟩ := except_bind_eq_ok.mp h
  obtain ⟨_, hblockLine, h⟩ := except_bind_eq_ok.mp h
  obtain ⟨_, hstripWidth, h⟩ := except_bind_eq_ok.mp h
  obtain ⟨_, halignMode, h⟩ := except_bind_eq_ok.mp h
  obtain ⟨_, hdmdResolutionRows, h⟩ := except_bind_eq_ok.mp h
  obtain ⟨_, hdmdResolutionCols, h⟩ := except_bind_eq_ok.mp h
  obtain ⟨_, hformats, h⟩ := except_bind_eq_ok.mp h
  obtain ⟨_, hgzipLevel, h⟩ := except_bind_eq_ok.mp h
  obtain ⟨_, hzstdLevel, h⟩ := except_bind_eq_ok.mp h
  obtain ⟨_, hlzo2Level, h⟩ := except_bind_eq_ok.mp h
  obtain ⟨_, hsnappyLevel, h⟩ := except_bind_eq_ok.mp h
  obtain ⟨_, hbrotliLevel, h⟩ := except_bind_eq_ok.mp h
  obtain ⟨_, hbrotliWindow, h⟩ := except_bind_eq_ok.mp h
  obtain ⟨_, hcheckEnabled, h⟩ := except_bind_eq_ok.mp h
  obtain ⟨_, hcacheBlocksMin, h⟩ := except_bind_eq_ok.mp h
  obtain ⟨_, hcacheBlocksMax, h⟩ := except_bind_eq_ok.mp h
  obtain ⟨_, hverbose, h⟩ := except_bind_eq_ok.mp h
  obtain ⟨-, rfl⟩ := Prod.mk.inj (Except.ok.inj h)
  exact
    { inputPath := hinputPath
      outputPath := houtputPath
      mode := hmode
      repeats := hrepeats
      pitchWidthUm := hpitchWidthUm
      obliqueFactor := hobliqueFactor
      rasterThreads := hrasterThreads
      encodeThreads := hencodeThreads
      decodeThreads := hdecodeThreads
      encodeEnabled := hencodeEnabled
      decodeEnabled := hdecodeEnabled
      blockLine := hblockLine
      stripWidth := hstripWidth
      alignMode := halignMode
      dmdResolutionRows := hdmdResolutionRows
      dmdResolutionCols := hdmdResolutionCols
      formats := ⟨_, hformats, rfl⟩
      gzipLevel := hgzipLevel
      zstdLevel := hzstdLevel
      lzo2Level := hlzo2Level
      snappyLevel := hsnappyLevel
      brotliLevel := hbrotliLevel
      brotliWindow := hbrotliWindow
      checkEnabled := hcheckEnabled
      cacheBlocksMin := hcacheBlocksMin
      cacheBlocksMax := hcacheBlocksMax
      verbose := ⟨_, hverbose, rfl⟩ }

/-! ## The getters without positions -/

/-- White space of the parser. -/
def isBlank (c : Char) : Bool := blanks.contains c

/-- The text from the end of a comment line on. -/
def lineEnd (t : Text) : Option Text := (behind ['\n'] t).map fun u => '\n' :: u

/-- The text of a value, from the text behind a colon. -/
def afterColon (t : Text) : Except TextFault (Option Text) :=
  if t.dropWhile isBlank = [] then .error .read
  else if ['/', '/'] <+: t.dropWhile isBlank then .ok (lineEnd (t.dropWhile isBlank))
  else .ok (some (t.dropWhile isBlank))

/-- The text behind the first colon behind the first occurrence of a key. -/
def colonText (json key : Text) : Option Text :=
  (behind (quoted key) json).bind fun t => behind [':'] t

/-- The text of the value of a key; `none` stands for the default. -/
def valueText (json key : Text) : Except TextFault (Option Text) :=
  match colonText json key with
  | none => .ok none
  | some t => afterColon t

/-- The string in front of a text. -/
def readQuoted : Text → Text
  | '"' :: t => if '"' ∈ t then t.takeWhile fun c => c ≠ '"' else []
  | _ => []

/-- The number text in front of a text. -/
def scalarText (t : Text) : Text := t.takeWhile fun c => !scalarEnds.contains c

/-- The text behind the first bracket behind the first occurrence of a key. -/
def bracketText (json key : Text) : Option Text :=
  (behind (quoted key) json).bind fun t => behind ['['] t

/-- The numbers in front of a closing bracket. -/
def readInts (t : Text) : List ℤ :=
  if ']' ∈ t then scanInts (t.takeWhile fun c => c ≠ ']').length (t.takeWhile fun c => c ≠ ']')
  else []

variable {json key : Text}

/-- A character that is found. -/
private theorem findChar_spec {s : Text} {c : Char} {pos : ℕ} (hpos : pos ≤ s.length) :
    match findChar s c pos with
    | none => behind [c] (s.drop pos) = none
    | some i => i + 1 ≤ s.length ∧ s.drop i = c :: s.drop (i + 1) ∧
        behind [c] (s.drop pos) = some (s.drop (i + 1)) :=
  @find_spec s [c] pos hpos

/-- A search for a character that is not white space. -/
private theorem findFirstNotOf_blanks {s : Text} {pos : ℕ} (hpos : pos ≤ s.length) :
    match findFirstNotOf s blanks pos with
    | none => (s.drop pos).dropWhile isBlank = []
    | some i => i < s.length ∧ (s.drop pos).dropWhile isBlank = s.drop i := by
  have hspec := @searchFrom_headIs s pos (fun c => !blanks.contains c) hpos
  simp only [Bool.not_not] at hspec
  rw [findFirstNotOf]
  cases h : searchFrom (headIs fun c => !blanks.contains c) s pos with
  | none =>
      rw [h] at hspec
      exact hspec
  | some i =>
      rw [h] at hspec
      exact ⟨hspec.2.1, hspec.2.2⟩

/-- `skip_comment` at a position inside. -/
private theorem skipComment_eq {s : Text} {p : ℕ} (hp : p < s.length) :
    skipComment s (some p) =
      .ok (if ['/', '/'] <+: s.drop p then findChar s '\n' p else some p) := by
  have hdrop := List.drop_eq_getElem_cons hp
  simp only [skipComment]
  by_cases hlast : p + 1 < s.length
  · have hdrop' := List.drop_eq_getElem_cons hlast
    -- two characters at a position, and a text that starts with them
    have hfront : ['/', '/'] <+: s.drop p ↔ s[p] = '/' ∧ s[p + 1] = '/' := by
      rw [hdrop, hdrop', List.cons_prefix_cons, List.cons_prefix_cons, @eq_comm _ '/',
        @eq_comm _ '/']
      simp
    rw [if_pos hlast, charAt_of_drop hdrop, charAt_of_drop hdrop']
    by_cases hfirst : s[p] = '/' <;> by_cases hsecond : s[p + 1] = '/' <;>
      simp [hfront, hfirst, hsecond, bind, Except.bind, pure, Except.pure]
  · -- a text of one character is no comment
    have hnil : s.drop (p + 1) = [] := List.drop_eq_nil_of_le (by omega)
    rw [if_neg hlast, hdrop, hnil, if_neg (by simp)]
    rfl

/-- What the search for a value finds: nothing, or a position in the text. -/
def Finds (json : Text) : Except TextFault Position → Except TextFault (Option Text) → Prop
  | .ok none, v => v = .ok none
  | .ok (some pos), v => pos < json.length ∧ v = .ok (some (json.drop pos))
  | .error e, v => v = .error e

/-- The white space and the comment behind a colon. -/
private theorem skipComment_finds {s : Text} {pos : ℕ} (hpos : pos ≤ s.length)
    (hne : 0 < s.length) :
    Finds s (skipComment s (findFirstNotOf s blanks pos)) (afterColon (s.drop pos)) := by
  have hblanks := findFirstNotOf_blanks hpos
  unfold afterColon
  cases hfirst : findFirstNotOf s blanks pos with
  | none =>
      rw [hfirst] at hblanks
      rw [if_pos hblanks, skipComment, if_pos hne]
      rfl
  | some p =>
      rw [hfirst] at hblanks
      obtain ⟨hp, heq⟩ := hblanks
      have hnil : s.drop p ≠ [] := fun h => by
        rw [List.drop_eq_nil_iff] at h
        omega
      rw [heq, if_neg hnil, skipComment_eq hp]
      by_cases hcomment : ['/', '/'] <+: s.drop p
      · rw [if_pos hcomment, if_pos hcomment, lineEnd]
        have hline := @findChar_spec s '\n' p hp.le
        cases hfind : findChar s '\n' p with
        | none =>
            rw [hfind] at hline
            simp only at hline
            rw [hline]
            rfl
        | some i =>
            rw [hfind] at hline
            obtain ⟨hi, hat, hbehind⟩ := hline
            rw [hbehind]
            exact ⟨by omega, by rw [hat, Option.map_some]⟩
      · rw [if_neg hcomment, if_neg hcomment]
        exact ⟨hp, rfl⟩

/-- The search for a value finds the text of the value. -/
theorem locateValue_finds (json key : Text) :
    Finds json (locateValue json key) (valueText json key) := by
  have hkey := @find_spec json (quoted key) 0 (Nat.zero_le _)
  rw [List.drop_zero] at hkey
  unfold locateValue valueText colonText
  -- the key, then the colon, then the white space and the comment
  cases hfind : find json (quoted key) 0 with
  | none =>
      rw [hfind] at hkey
      simp only at hkey
      rw [hkey]
      rfl
  | some pos =>
      rw [hfind] at hkey
      obtain ⟨hpos, -, hbehind⟩ := hkey
      have hcolon := @findChar_spec json ':' _ hpos
      rw [hbehind, Option.bind_some]
      cases hfind' : findChar json ':' (pos + (quoted key).length) with
      | none =>
          rw [hfind'] at hcolon
          simp only at hcolon
          simp only [hfind', hcolon]
          rfl
      | some i =>
          rw [hfind'] at hcolon
          obtain ⟨hi, -, hbehind'⟩ := hcolon
          simp only [hfind', hbehind']
          exact skipComment_finds hi (by omega)

/-- A getter that reads a value from its position on reads the text of the value. -/
private theorem bind_locateValue {α : Type} (json key : Text) (dflt : Except TextFault α)
    {f : ℕ → Except TextFault α} {g : Text → Except TextFault α}
    (hread : ∀ pos < json.length, f pos = g (json.drop pos)) :
    ((locateValue json key).bind fun v => match v with
      | none => dflt
      | some pos => f pos) = (valueText json key).bind fun v => v.elim dflt g := by
  have hfinds := locateValue_finds json key
  rcases hloc : locateValue json key with e | _ | pos
  · rw [hloc] at hfinds
    rw [hfinds]
    rfl
  · rw [hloc] at hfinds
    rw [hfinds]
    rfl
  · rw [hloc] at hfinds
    obtain ⟨hpos, hval⟩ := hfinds
    rw [hval]
    exact hread pos hpos

/-- `json_get_int` reads the text of the value. -/
theorem jsonGetInt_eq (json key : Text) (dflt : ℤ) :
    jsonGetInt json key dflt =
      (valueText json key).bind fun v => v.elim (.ok dflt) fun t => .ok (atoi (scalarText t)) := by
  refine bind_locateValue json key (.ok dflt) fun pos hpos => ?_
  rw [substr_to_firstOf hpos.le]
  rfl

/-- `json_get_double` reads the text of the value. -/
theorem jsonGetDouble_eq (json key : Text) (dflt : Double) :
    jsonGetDouble json key dflt =
      (valueText json key).bind fun v => v.elim (.ok dflt) fun t => .ok (atof (scalarText t)) := by
  refine bind_locateValue json key (.ok dflt) fun pos hpos => ?_
  rw [substr_to_firstOf hpos.le]
  rfl

/-- The text up to a character that is found. -/
private theorem substr_to_findChar {s : Text} {c : Char} {pos i : ℕ} (hpos : pos ≤ s.length)
    (hfind : findChar s c pos = some i) :
    substr s pos (some i) = .ok ((s.drop pos).takeWhile fun d => d ≠ c) := by
  -- a search for one character is a search for the first of one character
  have hsearch : findChar s c pos = findFirstOf s [c] pos := by
    have hhead : ([c].isPrefixOf : Text → Bool) = headIs fun d => [c].contains d := by
      funext t
      cases t with
      | nil => rfl
      | cons d t => simp [headIs, List.isPrefixOf, beq_eq_decide, @eq_comm _ c]
    rw [findChar, find, findFirstOf, hhead]
  have hskip : (fun d => !List.contains [c] d) = fun d => decide (d ≠ c) := by
    funext d
    simp
  rw [← hfind, hsearch, substr_to_firstOf hpos, hskip]

/-- A character that is found or not. -/
private theorem findChar_isSome_iff {s : Text} {c : Char} {pos : ℕ} (hpos : pos ≤ s.length) :
    (findChar s c pos).isSome ↔ c ∈ s.drop pos := by
  have hspec := @findChar_spec s c pos hpos
  cases hfind : findChar s c pos with
  | none =>
      rw [hfind] at hspec
      simpa using behind_singleton_eq_none_iff.mp hspec
  | some i =>
      rw [hfind] at hspec
      simp only [Option.isSome_some, true_iff]
      by_contra hmem
      rw [behind_singleton_eq_none_iff.mpr hmem] at hspec
      exact absurd hspec.2.2 (by simp)

/-- `json_get_str` reads the text of the value. -/
theorem jsonGetStr_eq (json key : Text) :
    jsonGetStr json key =
      (valueText json key).bind fun v => v.elim (.ok []) fun t => .ok (readQuoted t) := by
  refine bind_locateValue json key (.ok []) fun pos hpos => ?_
  have hdrop := List.drop_eq_getElem_cons hpos
  rw [charAt_of_drop hdrop, hdrop]
  generalize json[pos] = c
  simp only [bind, Except.bind]
  by_cases hquote : c = '"'
  · have hfound := @findChar_isSome_iff json '"' _ (by omega : pos + 1 ≤ json.length)
    subst hquote
    rw [if_neg (by simp), readQuoted]
    cases hfind : findChar json '"' (pos + 1) with
    | none =>
        rw [hfind] at hfound
        rw [if_neg (by simpa using hfound)]
        rfl
    | some i =>
        rw [hfind] at hfound
        rw [if_pos (by simpa using hfound)]
        exact substr_to_findChar (by omega) hfind
  · rw [if_pos hquote, readQuoted]
    · rfl
    · rintro t heq
      exact hquote (List.cons.inj heq).1

/-- The search for a character skips a different one. -/
private theorem findChar_succ {s t : Text} {c d : Char} {pos : ℕ} (hdrop : s.drop pos = d :: t)
    (hne : c ≠ d) : findChar s c pos = findChar s c (pos + 1) := by
  have hlt : pos < s.length := by
    by_contra hge
    rw [List.drop_eq_nil_of_le (by omega)] at hdrop
    cases hdrop
  have hnext : s.drop (pos + 1) = t := by
    rw [← List.drop_drop, hdrop, List.drop_one, List.tail_cons]
  have hskip : [c].isPrefixOf (d :: t) = false := by simp [List.isPrefixOf, hne]
  -- one position less to search, and one more to skip
  simp only [findChar, find, searchFrom, if_pos hlt.le, if_pos (Nat.succ_le_of_lt hlt), hdrop,
    hnext, firstSuffix, hskip, Bool.false_eq_true, if_false, Option.map_map]
  congr 1
  funext i
  simp only [Function.comp_apply]
  omega

/-- `json_get_int_array` reads the text behind the bracket. -/
theorem jsonGetIntArray_eq (json key : Text) :
    jsonGetIntArray json key = .ok ((bracketText json key).elim [] readInts) := by
  have hkey := @find_spec json (quoted key) 0 (Nat.zero_le _)
  rw [List.drop_zero] at hkey
  unfold jsonGetIntArray bracketText
  cases hfind : find json (quoted key) 0 with
  | none =>
      rw [hfind] at hkey
      simp only at hkey
      rw [hkey]
      rfl
  | some pos =>
      rw [hfind] at hkey
      obtain ⟨hpos, -, hbehind⟩ := hkey
      have hbracket := @findChar_spec json '[' _ hpos
      rw [hbehind, Option.bind_some]
      cases hfind' : findChar json '[' (pos + (quoted key).length) with
      | none =>
          rw [hfind'] at hbracket
          simp only at hbracket
          simp only [hfind', hbracket]
          rfl
      | some i =>
          rw [hfind'] at hbracket
          obtain ⟨hi, hat, hbehind'⟩ := hbracket
          -- the search for the end starts at the bracket, the text to read behind it
          have hnext := findChar_succ hat (by decide : ']' ≠ '[')
          have hfound := @findChar_isSome_iff json ']' _ hi
          simp only [hfind', hbehind', hnext, Option.elim_some, readInts]
          cases hclose : findChar json ']' (i + 1) with
          | none =>
              rw [hclose] at hfound
              rw [if_neg (by simpa using hfound)]
              rfl
          | some stop =>
              rw [hclose] at hfound
              rw [if_pos (by simpa using hfound)]
              simp only [substr_to_findChar hi hclose]
              rfl

end Redcli
