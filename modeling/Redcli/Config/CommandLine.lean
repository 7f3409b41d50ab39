import Redcli.Config.JsonGetters

/-!
# The Command Line

How `rle4k_cmd_run` comes to its configuration: the defaults, the configuration file, the
options of the command line, and the environment variable `RLE4K_THREADS`.

## Main results

* `setUp_inRange`: every integer of a configuration that is accepted is an `int`.
-/

namespace Redcli

/-! ## Conversions -/

/-- What `std::stoi` and `std::stod` throw. -/
inductive ArgumentFault where
  | invalidArgument
  | outOfRange
  deriving DecidableEq, Repr

/-- `std::stoi`. -/
def stoi (t : Text) : Except ArgumentFault ℤ :=
  let (negative, u) := splitSign (t.dropWhile isSpace)
  let digits := u.takeWhile Char.isDigit
  let n := signed negative (digitsValue 10 digits : ℤ)
  -- no digit behind the sign: nothing was converted
  if digits = [] then .error .invalidArgument
  else if intMin ≤ n ∧ n ≤ intMax then .ok n
  else .error .outOfRange

/-- The least number that is rounded to infinity, halfway behind `DBL_MAX`. -/
def doubleLimit : ℚ := 2 ^ 1024 - 2 ^ 970

/-- The least number that is rounded to a normal `double`, halfway in front of `DBL_MIN`. -/
def doubleTiny : ℚ := 1 / 2 ^ 1022 - 1 / 2 ^ 1076

/-- Whether `strtod` sets `ERANGE` for a number that is not negative: it overflows, or it
underflows and is not a subnormal number itself. -/
def isOutOfRange (x : ℚ) : Bool :=
  if x < doubleTiny then 0 < x && (x * 2 ^ 1074).den ≠ 1 else doubleLimit ≤ x

/-- `std::stod`. A finite value is that of its notation, where the program rounds it to the nearest
`double`. -/
def stod (t : Text) : Except ArgumentFault Double :=
  let (negative, u) := splitSign (numeral t)
  let start := (u.take 3).map Char.toLower
  let checked (x : ℚ) : Except ArgumentFault Double :=
    if isOutOfRange x then .error .outOfRange else .ok (.finite (signed negative x))
  if start = "inf".toList then .ok (.infinite negative)
  else if start = "nan".toList then .ok .nan
  else if startsHex u then checked (scanFloat isHexDigit 16 ['p', 'P'] 2 (u.drop 2))
  else if (splitMantissa Char.isDigit u).1 = [] ∧ (splitMantissa Char.isDigit u).2.1 = [] then
    .error .invalidArgument
  else checked (scanFloat Char.isDigit 10 ['e', 'E'] 10 u)

/-- The loop of `--formats`: `std::getline(ss, tok, ',')`, where an empty token is skipped. -/
def formatTokens (list : Text) : List Text := (list.splitOn ',').filter fun tok => tok ≠ []

/-- The list of `--formats`. -/
def parseFormats (list : Text) : Except ArgumentFault (List ℤ) := (formatTokens list).mapM stoi

/-! ## Options -/

/-- The variables that the options set. -/
structure Options where
  cfg : BenchConfig
  force : Bool := false
  csvPath : Text := []
  deriving DecidableEq

/-- Whether an argument is one of the names of an option. -/
def isOption (a : Text) (names : List String) : Bool := names.any fun name => name.toList = a

/-- The options with an integer value: their names, and the setting that each changes. -/
def intOptions : List (List String × (BenchConfig → ℤ → BenchConfig)) :=
  [(["--mode", "-m"], fun cfg n => { cfg with mode := n }),
    (["--repeat", "-r"], fun cfg n => { cfg with repeats := n }),
    (["-N", "--oblique"], fun cfg n => { cfg with obliqueFactor := n }),
    (["--strip-height", "-sh"], fun cfg n => { cfg with blockLine := n }),
    (["--strip-width", "-sw"], fun cfg n => { cfg with stripWidth := n }),
    (["--threads", "--raster-threads", "-t"], fun cfg n => { cfg with rasterThreads := n }),
    (["--encode-threads", "-et"], fun cfg n => { cfg with encodeThreads := n }),
    (["--decode-threads", "-dt"], fun cfg n => { cfg with decodeThreads := n }),
    (["--cache-blocks-min", "--cache-min"], fun cfg n => { cfg with cacheBlocksMin := n }),
    (["--cache-blocks-max", "--cache-max"], fun cfg n => { cfg with cacheBlocksMax := n }),
    -- a single size of the cache is its upper bound
    (["--cache-blocks", "--raw-cache"], fun cfg n => { cfg with cacheBlocksMax := n })]

/-- The options with a value; `none` for every other argument. -/
def valueOption (a v : Text) (o : Options) : Option (Except ArgumentFault Options) :=
  match intOptions.find? fun p => isOption a p.1 with
  | some p => some ((stoi v).map fun n => { o with cfg := p.2 o.cfg n })
  | none =>
      if isOption a ["--input", "-i"] then some (.ok { o with cfg := { o.cfg with inputPath := v } })
      else if isOption a ["--pw"] then
        some ((stod v).map fun x => { o with cfg := { o.cfg with pitchWidthUm := x } })
      else if isOption a ["--verbose", "-v"] then
        some (.ok { o with cfg := { o.cfg with verbose := v } })
      -- the list is split at commas, and each part is converted
      else if isOption a ["--formats", "-f"] then
        some ((parseFormats v).map fun ids => { o with cfg := { o.cfg with formats := ids } })
      else if isOption a ["--csv", "-o", "--output"] then some (.ok { o with csvPath := v })
      else none

/-- The options without a value. Every other argument is ignored. -/
def flagOption (a : Text) (o : Options) : Options :=
  if isOption a ["--no-encode"] then { o with cfg := { o.cfg with encodeEnabled := 0 } }
  else if isOption a ["--no-decode"] then { o with cfg := { o.cfg with decodeEnabled := 0 } }
  else if isOption a ["--check"] then { o with cfg := { o.cfg with checkEnabled := 1 } }
  else if isOption a ["--no-check"] then { o with cfg := { o.cfg with checkEnabled := 0 } }
  else if isOption a ["--force"] then { o with force := true }
  else o

/-- The loop over the arguments; `none` if it prints the usage and returns. -/
def parseOptions : List Text → Options → Except ArgumentFault (Option Options)
  | [], o => .ok (some o)
  | [a], o => if isOption a ["-h", "--help"] then .ok none else .ok (some (flagOption a o))
  | a :: v :: args, o =>
      -- an option with a value takes the next argument, whatever it is
      match valueOption a v o with
      | some r => do parseOptions args (← r)
      | none =>
          if isOption a ["-h", "--help"] then .ok none
          -- the next argument is looked at again
          else parseOptions (v :: args) (flagOption a o)

/-- What stops a run before its limits are applied. -/
inductive SetUpFault where
  /-- The search for the configuration file throws. -/
  | search
  | text (e : TextFault)
  | argument (e : ArgumentFault)
  deriving DecidableEq, Repr

/-- The environment variable `RLE4K_THREADS`. -/
def overrideThreads (envThreads : Option Text) (cfg : BenchConfig) : BenchConfig :=
  -- only a positive number overrides the threads
  match envThreads with
  | none => cfg
  | some t => if 0 < atoi t then { cfg with rasterThreads := atoi t } else cfg

/-- `rle4k_cmd_run` up to its limits: the configuration of a run and the path of its CSV file,
or `none` if the usage is printed. `file` is the text of the configuration file, if one is
found and can be opened. -/
def setUp (file : Option Text) (args : List Text) (envThreads : Option Text) :
    Except SetUpFault (Option (BenchConfig × Text)) := do
  let (_, cfg) ← (loadConfig file {}).mapError .text
  let options ← (parseOptions args { cfg := cfg }).mapError .argument
  pure (options.map fun o => (overrideThreads envThreads o.cfg, o.csvPath))

/-! ## The path of the report -/

/-- A conversion that succeeds, followed by a function. -/
private theorem map_eq_ok {ε α β : Type} {x : Except ε α} {f : α → β} {b : β} :
    x.map f = .ok b ↔ ∃ a, x = .ok a ∧ f a = b := by
  cases x <;> simp [Except.map]

/-- An option with a value sets the path to its value or not at all. -/
theorem valueOption_csvPath {a v : Text} {o o' : Options}
    (h : valueOption a v o = some (.ok o')) : o'.csvPath = o.csvPath ∨ o'.csvPath = v := by
  unfold valueOption at h
  split at h
  next p hp =>
    obtain ⟨n, -, rfl⟩ := map_eq_ok.mp (Option.some.inj h)
    exact .inl rfl
  next =>
    split_ifs at h
    · obtain rfl := Except.ok.inj (Option.some.inj h)
      exact .inl rfl
    · obtain ⟨x, -, rfl⟩ := map_eq_ok.mp (Option.some.inj h)
      exact .inl rfl
    · obtain rfl := Except.ok.inj (Option.some.inj h)
      exact .inl rfl
    · obtain ⟨ids, -, rfl⟩ := map_eq_ok.mp (Option.some.inj h)
      exact .inl rfl
    · obtain rfl := Except.ok.inj (Option.some.inj h)
      exact .inr rfl

theorem flagOption_csvPath (a : Text) (o : Options) : (flagOption a o).csvPath = o.csvPath := by
  unfold flagOption
  split_ifs <;> rfl

/-- The path of the report is one of the arguments, or as it was. -/
theorem parseOptions_csvPath {args : List Text} {o o' : Options}
    (h : parseOptions args o = .ok (some o')) : o'.csvPath = o.csvPath ∨ o'.csvPath ∈ args := by
  fun_induction parseOptions args o with
  | case1 o =>
      obtain rfl := Option.some.inj (Except.ok.inj h)
      exact .inl rfl
  | case2 a o hhelp => cases h
  | case3 a o hhelp =>
      obtain rfl := Option.some.inj (Except.ok.inj h)
      exact .inl (flagOption_csvPath a o)
  | case4 o a v args r hvalue ih =>
      obtain ⟨o₁, hr, hrest⟩ := except_bind_eq_ok.mp h
      rcases ih o₁ hrest with hsame | hmem
      · rcases valueOption_csvPath (hr ▸ hvalue) with hold | hnew
        · exact .inl (hsame.trans hold)
        · exact .inr (by simp [hsame.trans hnew])
      · exact .inr (by simp [hmem])
  | case5 o a v args hvalue hhelp => cases h
  | case6 a v args o hvalue hhelp ih =>
      rcases ih h with hsame | hmem
      · exact .inl (hsame.trans (flagOption_csvPath a o))
      · exact .inr (List.mem_cons_of_mem a hmem)

/-- The path of the report of a run is one of its arguments, or there is none. -/
theorem setUp_csvPath {file : Option Text} {args : List Text} {envThreads : Option Text}
    {cfg : BenchConfig} {csvPath : Text}
    (h : setUp file args envThreads = .ok (some (cfg, csvPath))) :
    csvPath = [] ∨ csvPath ∈ args := by
  obtain ⟨⟨opened, cfg₁⟩, -, h⟩ := except_bind_eq_ok.mp h
  obtain ⟨options, hparse, h⟩ := except_bind_eq_ok.mp h
  obtain ⟨o, rfl, hresult⟩ := Option.map_eq_some_iff.mp (Except.ok.inj h)
  obtain ⟨-, rfl⟩ := Prod.mk.inj hresult
  rcases hoptions : parseOptions args { cfg := cfg₁ } with e | v
  · rw [hoptions] at hparse
    cases hparse
  · rw [hoptions] at hparse
    obtain rfl : v = some o := Except.ok.inj hparse
    exact parseOptions_csvPath hoptions

/-! ## Ranges -/

/-- An integer that is an `int`. -/
def IsInt (n : ℤ) : Prop := intMin ≤ n ∧ n ≤ intMax

/-- A configuration whose integers are `int`s. -/
structure BenchConfig.InRange (cfg : BenchConfig) : Prop where
  mode : IsInt cfg.mode
  repeats : IsInt cfg.repeats
  obliqueFactor : IsInt cfg.obliqueFactor
  rasterThreads : IsInt cfg.rasterThreads
  encodeThreads : IsInt cfg.encodeThreads
  decodeThreads : IsInt cfg.decodeThreads
  encodeEnabled : IsInt cfg.encodeEnabled
  decodeEnabled : IsInt cfg.decodeEnabled
  blockLine : IsInt cfg.blockLine
  stripWidth : IsInt cfg.stripWidth
  alignMode : IsInt cfg.alignMode
  dmdResolutionRows : IsInt cfg.dmdResolutionRows
  dmdResolutionCols : IsInt cfg.dmdResolutionCols
  gzipLevel : IsInt cfg.gzipLevel
  zstdLevel : IsInt cfg.zstdLevel
  lzo2Level : IsInt cfg.lzo2Level
  snappyLevel : IsInt cfg.snappyLevel
  brotliLevel : IsInt cfg.brotliLevel
  brotliWindow : IsInt cfg.brotliWindow
  checkEnabled : IsInt cfg.checkEnabled
  cacheBlocksMin : IsInt cfg.cacheBlocksMin
  cacheBlocksMax : IsInt cfg.cacheBlocksMax

theorem isInt_atoi (t : Text) : IsInt (atoi t) := by
  unfold IsInt atoi
  exact ⟨le_max_left _ _, max_le (by decide) (min_le_left _ _)⟩

theorem isInt_of_stoi {t : Text} {n : ℤ} (h : stoi t = .ok n) : IsInt n := by
  unfold stoi at h
  dsimp only at h
  split_ifs at h with hdigits hfits
  obtain rfl := Except.ok.inj h
  exact hfits

/-- What `json_get_int` returns is an `int` if its default is one. -/
theorem isInt_of_jsonGetInt {json key : Text} {dflt n : ℤ} (hdflt : IsInt dflt)
    (h : jsonGetInt json key dflt = .ok n) : IsInt n := by
  rw [jsonGetInt_eq] at h
  obtain ⟨v, -, hv⟩ := except_bind_eq_ok.mp h
  -- a missing value leaves the default, and `atoi` saturates
  cases v with
  | none =>
      obtain rfl := Except.ok.inj hv
      exact hdflt
  | some t =>
      obtain rfl := Except.ok.inj hv
      exact isInt_atoi _

/-- The defaults are in range. -/
theorem inRange_default : ({} : BenchConfig).InRange := by
  constructor <;> exact ⟨by decide, by decide⟩

/-- `load_config` keeps a configuration in range. -/
theorem loadConfig_inRange {file : Option Text} {cfg cfg' : BenchConfig} {opened : Bool}
    (hcfg : cfg.InRange) (h : loadConfig file cfg = .ok (opened, cfg')) : cfg'.InRange := by
  cases file with
  | none =>
      obtain ⟨-, rfl⟩ := Prod.mk.inj (Except.ok.inj h)
      exact hcfg
  | some json =>
      have hget : ∀ {key : String} {dflt n : ℤ}, IsInt dflt →
          jsonGetInt json key.toList dflt = .ok n → IsInt n := isInt_of_jsonGetInt
      have h0 : IsInt 0 := ⟨by decide, by decide⟩
      have h1 : IsInt 1 := ⟨by decide, by decide⟩
      -- every integer comes from `json_get_int` with a default in range
      have hloaded := loadedFrom_of_loadConfig h
      exact
        { mode := hget h0 hloaded.mode
          repeats := hget h0 hloaded.repeats
          obliqueFactor := hget h0 hloaded.obliqueFactor
          rasterThreads := hget h0 hloaded.rasterThreads
          encodeThreads := hget h0 hloaded.encodeThreads
          decodeThreads := hget h0 hloaded.decodeThreads
          encodeEnabled := hget h1 hloaded.encodeEnabled
          decodeEnabled := hget h1 hloaded.decodeEnabled
          blockLine := hget h0 hloaded.blockLine
          stripWidth := hget h0 hloaded.stripWidth
          alignMode := hget h0 hloaded.alignMode
          dmdResolutionRows := hget h0 hloaded.dmdResolutionRows
          dmdResolutionCols := hget h0 hloaded.dmdResolutionCols
          gzipLevel := hget h0 hloaded.gzipLevel
          zstdLevel := hget h0 hloaded.zstdLevel
          lzo2Level := hget h0 hloaded.lzo2Level
          snappyLevel := hget h0 hloaded.snappyLevel
          brotliLevel := hget h0 hloaded.brotliLevel
          brotliWindow := hget h0 hloaded.brotliWindow
          checkEnabled := hget h0 hloaded.checkEnabled
          cacheBlocksMin := hget ⟨by decide, by decide⟩ hloaded.cacheBlocksMin
          cacheBlocksMax := hget ⟨by decide, by decide⟩ hloaded.cacheBlocksMax }

/-- Every option with an integer value keeps a configuration in range. -/
private theorem intOptions_inRange : ∀ p ∈ intOptions, ∀ (cfg : BenchConfig) (n : ℤ),
    cfg.InRange → IsInt n → (p.2 cfg n).InRange := by
  simp only [intOptions, List.forall_mem_cons, List.not_mem_nil, false_imp_iff, implies_true,
    and_true]
  exact ⟨fun _ _ h hn => { h with mode := hn }, fun _ _ h hn => { h with repeats := hn },
    fun _ _ h hn => { h with obliqueFactor := hn }, fun _ _ h hn => { h with blockLine := hn },
    fun _ _ h hn => { h with stripWidth := hn }, fun _ _ h hn => { h with rasterThreads := hn },
    fun _ _ h hn => { h with encodeThreads := hn }, fun _ _ h hn => { h with decodeThreads := hn },
    fun _ _ h hn => { h with cacheBlocksMin := hn },
    fun _ _ h hn => { h with cacheBlocksMax := hn }, fun _ _ h hn => { h with cacheBlocksMax := hn }⟩

/-- An option with a value keeps a configuration in range. -/
private theorem valueOption_inRange {a v : Text} {o o' : Options} (ho : o.cfg.InRange)
    (h : valueOption a v o = some (.ok o')) : o'.cfg.InRange := by
  unfold valueOption at h
  split at h
  next p hp =>
    obtain ⟨n, hn, rfl⟩ := map_eq_ok.mp (Option.some.inj h)
    exact intOptions_inRange p (List.mem_of_find?_eq_some hp) _ n ho (isInt_of_stoi hn)
  next =>
    -- no other option sets an integer
    split_ifs at h
    · obtain rfl := Except.ok.inj (Option.some.inj h)
      exact { ho with }
    · obtain ⟨x, -, rfl⟩ := map_eq_ok.mp (Option.some.inj h)
      exact { ho with }
    · obtain rfl := Except.ok.inj (Option.some.inj h)
      exact { ho with }
    · obtain ⟨ids, -, rfl⟩ := map_eq_ok.mp (Option.some.inj h)
      exact { ho with }
    · obtain rfl := Except.ok.inj (Option.some.inj h)
      exact ho

/-- An option without a value keeps a configuration in range. -/
private theorem flagOption_inRange {a : Text} {o : Options} (ho : o.cfg.InRange) :
    (flagOption a o).cfg.InRange := by
  have h0 : IsInt 0 := ⟨by decide, by decide⟩
  have h1 : IsInt 1 := ⟨by decide, by decide⟩
  unfold flagOption
  split_ifs
  · exact { ho with encodeEnabled := h0 }
  · exact { ho with decodeEnabled := h0 }
  · exact { ho with checkEnabled := h1 }
  · exact { ho with checkEnabled := h0 }
  · exact ho
  · exact ho

/-- The options keep a configuration in range. -/
theorem parseOptions_inRange {args : List Text} {o o' : Options} (ho : o.cfg.InRange)
    (h : parseOptions args o = .ok (some o')) : o'.cfg.InRange := by
  -- one case for each way to go on with the arguments
  fun_induction parseOptions args o with
  | case1 o =>
      obtain rfl := Option.some.inj (Except.ok.inj h)
      exact ho
  | case2 a o hhelp => cases h
  | case3 a o hhelp =>
      obtain rfl := Option.some.inj (Except.ok.inj h)
      exact flagOption_inRange ho
  | case4 o a v args r hvalue ih =>
      obtain ⟨o₁, hr, hrest⟩ := except_bind_eq_ok.mp h
      exact ih o₁ (valueOption_inRange ho (hr ▸ hvalue)) hrest
  | case5 o a v args hvalue hhelp => cases h
  | case6 o a v args hvalue hhelp ih => exact ih (flagOption_inRange ho) h

/-- The environment variable keeps a configuration in range. -/
private theorem overrideThreads_inRange {envThreads : Option Text} {cfg : BenchConfig}
    (hcfg : cfg.InRange) : (overrideThreads envThreads cfg).InRange := by
  unfold overrideThreads
  split
  · exact hcfg
  · split_ifs
    · exact { hcfg with rasterThreads := isInt_atoi _ }
    · exact hcfg

/-- Every configuration that is accepted is in range. -/
theorem setUp_inRange {file : Option Text} {args : List Text} {envThreads : Option Text}
    {cfg : BenchConfig} {csvPath : Text}
    (h : setUp file args envThreads = .ok (some (cfg, csvPath))) : cfg.InRange := by
  -- the file, the options and the environment variable in turn
  obtain ⟨⟨opened, cfg₁⟩, hload, h⟩ := except_bind_eq_ok.mp h
  obtain ⟨options, hparse, h⟩ := except_bind_eq_ok.mp h
  obtain ⟨o, rfl, hresult⟩ := Option.map_eq_some_iff.mp (Except.ok.inj h)
  obtain ⟨rfl, -⟩ := Prod.mk.inj hresult
  have hloaded := loadConfig_inRange inRange_default (except_mapError_eq_ok.mp hload)
  exact overrideThreads_inRange (parseOptions_inRange hloaded (except_mapError_eq_ok.mp hparse))

end Redcli
