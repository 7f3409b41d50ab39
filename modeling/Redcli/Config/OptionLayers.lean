import Redcli.Config.CommandLine
import Redcli.Support.LastWrite

/-!
# Layers of Options

Where the settings of a run come from. A command line is a list of assignments: each setting has
the value of the last one, or that of the configuration file, and the environment variable is an
assignment behind all others.

## Main results

* `parseOptions_eq`: the loop over the arguments is a loop over the words of the command line;
* `setUp_eq_ok_iff`: the settings of a run, layer by layer.
-/

namespace Redcli

/-! ## Settings -/

/-- What the options set. -/
inductive Setting where
  | input | mode | repeats | pitchWidth | obliqueFactor | blockLine | stripWidth
  | rasterThreads | encodeThreads | decodeThreads
  | encodeEnabled | decodeEnabled | checkEnabled
  | cacheBlocksMin | cacheBlocksMax | verbose | formats | csvPath | force
  deriving DecidableEq, Repr

/-- The values of a setting. -/
abbrev Setting.Val : Setting → Type
  | .input | .verbose | .csvPath => Text
  | .pitchWidth => Double
  | .formats => List ℤ
  | .force => Bool
  | _ => ℤ

/-- A setting with a value for it. -/
abbrev Assignment : Type := Σ s : Setting, s.Val

/-- The value of a setting. -/
def Options.get (o : Options) : (s : Setting) → s.Val
  | .input => o.cfg.inputPath
  | .mode => o.cfg.mode
  | .repeats => o.cfg.repeats
  | .pitchWidth => o.cfg.pitchWidthUm
  | .obliqueFactor => o.cfg.obliqueFactor
  | .blockLine => o.cfg.blockLine
  | .stripWidth => o.cfg.stripWidth
  | .rasterThreads => o.cfg.rasterThreads
  | .encodeThreads => o.cfg.encodeThreads
  | .decodeThreads => o.cfg.decodeThreads
  | .encodeEnabled => o.cfg.encodeEnabled
  | .decodeEnabled => o.cfg.decodeEnabled
  | .checkEnabled => o.cfg.checkEnabled
  | .cacheBlocksMin => o.cfg.cacheBlocksMin
  | .cacheBlocksMax => o.cfg.cacheBlocksMax
  | .verbose => o.cfg.verbose
  | .formats => o.cfg.formats
  | .csvPath => o.csvPath
  | .force => o.force

/-- The options with one setting changed. -/
def Options.put (o : Options) : Assignment → Options
  | ⟨.input, v⟩ => { o with cfg := { o.cfg with inputPath := v } }
  | ⟨.mode, v⟩ => { o with cfg := { o.cfg with mode := v } }
  | ⟨.repeats, v⟩ => { o with cfg := { o.cfg with repeats := v } }
  | ⟨.pitchWidth, v⟩ => { o with cfg := { o.cfg with pitchWidthUm := v } }
  | ⟨.obliqueFactor, v⟩ => { o with cfg := { o.cfg with obliqueFactor := v } }
  | ⟨.blockLine, v⟩ => { o with cfg := { o.cfg with blockLine := v } }
  | ⟨.stripWidth, v⟩ => { o with cfg := { o.cfg with stripWidth := v } }
  | ⟨.rasterThreads, v⟩ => { o with cfg := { o.cfg with rasterThreads := v } }
  | ⟨.encodeThreads, v⟩ => { o with cfg := { o.cfg with encodeThreads := v } }
  | ⟨.decodeThreads, v⟩ => { o with cfg := { o.cfg with decodeThreads := v } }
  | ⟨.encodeEnabled, v⟩ => { o with cfg := { o.cfg with encodeEnabled := v } }
  | ⟨.decodeEnabled, v⟩ => { o with cfg := { o.cfg with decodeEnabled := v } }
  | ⟨.checkEnabled, v⟩ => { o with cfg := { o.cfg with checkEnabled := v } }
  | ⟨.cacheBlocksMin, v⟩ => { o with cfg := { o.cfg with cacheBlocksMin := v } }
  | ⟨.cacheBlocksMax, v⟩ => { o with cfg := { o.cfg with cacheBlocksMax := v } }
  | ⟨.verbose, v⟩ => { o with cfg := { o.cfg with verbose := v } }
  | ⟨.formats, v⟩ => { o with cfg := { o.cfg with formats := v } }
  | ⟨.csvPath, v⟩ => { o with csvPath := v }
  | ⟨.force, v⟩ => { o with force := v }

theorem Options.get_put (o : Options) (a : Assignment) :
    (o.put a).get = Function.update o.get a.1 a.2 := by
  obtain ⟨s, v⟩ := a
  funext s'
  by_cases h : s' = s
  · subst h
    rw [Function.update_self]
    cases s' <;> rfl
  · rw [Function.update_of_ne h]
    cases s <;> cases s' <;> first | rfl | exact absurd rfl h

/-- What no option sets. -/
def BenchConfig.rest (cfg : BenchConfig) :
    Text × ℤ × ℤ × ℤ × ℤ × ℤ × ℤ × ℤ × ℤ × ℤ :=
  (cfg.outputPath, cfg.alignMode, cfg.dmdResolutionRows, cfg.dmdResolutionCols, cfg.gzipLevel,
    cfg.zstdLevel, cfg.lzo2Level, cfg.snappyLevel, cfg.brotliLevel, cfg.brotliWindow)

theorem Options.rest_put (o : Options) (a : Assignment) : (o.put a).cfg.rest = o.cfg.rest := by
  obtain ⟨s, v⟩ := a
  cases s <;> rfl

/-- Options are known from their settings and what no option sets. -/
theorem Options.ext_get {o o' : Options} (hget : o.get = o'.get)
    (hrest : o.cfg.rest = o'.cfg.rest) : o = o' := by
  have h := congrFun hget
  obtain ⟨⟨⟩, force, csvPath⟩ := o
  obtain ⟨⟨⟩, force', csvPath'⟩ := o'
  simp only [BenchConfig.rest, Prod.mk.injEq] at hrest
  obtain ⟨houtput, halign, hrows, hcols, hgzip, hzstd, hlzo2, hsnappy, hlevel, hwindow⟩ := hrest
  simp only [Options.mk.injEq, BenchConfig.mk.injEq]
  exact ⟨⟨h .input, houtput, h .mode, h .repeats, h .pitchWidth, h .obliqueFactor, h .rasterThreads,
    h .encodeThreads, h .decodeThreads, h .encodeEnabled, h .decodeEnabled, h .blockLine,
    h .stripWidth, halign, hrows, hcols, h .formats, h .verbose, hgzip, hzstd, hlzo2, hsnappy,
    hlevel, hwindow, h .checkEnabled, h .cacheBlocksMin, h .cacheBlocksMax⟩, h .force, h .csvPath⟩

/-! ## Words -/

/-- An option with a value: its names, what it sets, and how its value is read. -/
structure ValueOption where
  names : List String
  setting : Setting
  read : Text → Except ArgumentFault setting.Val

/-- The options with a value. -/
def valueOptions : List ValueOption :=
  [⟨["--mode", "-m"], .mode, stoi⟩, ⟨["--repeat", "-r"], .repeats, stoi⟩,
    ⟨["-N", "--oblique"], .obliqueFactor, stoi⟩, ⟨["--strip-height", "-sh"], .blockLine, stoi⟩,
    ⟨["--strip-width", "-sw"], .stripWidth, stoi⟩,
    ⟨["--threads", "--raster-threads", "-t"], .rasterThreads, stoi⟩,
    ⟨["--encode-threads", "-et"], .encodeThreads, stoi⟩,
    ⟨["--decode-threads", "-dt"], .decodeThreads, stoi⟩,
    ⟨["--cache-blocks-min", "--cache-min"], .cacheBlocksMin, stoi⟩,
    ⟨["--cache-blocks-max", "--cache-max"], .cacheBlocksMax, stoi⟩,
    ⟨["--cache-blocks", "--raw-cache"], .cacheBlocksMax, stoi⟩,
    ⟨["--input", "-i"], .input, .ok⟩, ⟨["--pw"], .pitchWidth, stod⟩,
    ⟨["--verbose", "-v"], .verbose, .ok⟩, ⟨["--formats", "-f"], .formats, parseFormats⟩,
    ⟨["--csv", "-o", "--output"], .csvPath, .ok⟩]

/-- The options without a value. -/
def flagOptions : List (List String × Assignment) :=
  [(["--no-encode"], ⟨.encodeEnabled, (0 : ℤ)⟩), (["--no-decode"], ⟨.decodeEnabled, (0 : ℤ)⟩),
    (["--check"], ⟨.checkEnabled, (1 : ℤ)⟩), (["--no-check"], ⟨.checkEnabled, (0 : ℤ)⟩),
    (["--force"], ⟨.force, true⟩)]

/-- What a command line consists of. -/
inductive Word where
  | valued (option : ValueOption) (v : Text)
  | flag (a : Assignment)
  | help
  | ignored (t : Text)

/-- An argument on its own. -/
def Word.single (a : Text) : Word :=
  if isOption a ["-h", "--help"] then .help
  else (flagOptions.find? fun p => isOption a p.1).elim (.ignored a) fun p => .flag p.2

/-- The words of a command line. An option with a value takes the next argument, if there is
one. -/
def optionWords : List Text → List Word
  | [] => []
  | [a] => [.single a]
  | a :: v :: args =>
      match valueOptions.find? fun p => isOption a p.names with
      | some option => .valued option v :: optionWords args
      | none => .single a :: optionWords (v :: args)

/-- What a word assigns. -/
def Word.assign : Word → Except ArgumentFault (Option Assignment)
  | .valued option v => (option.read v).map fun x => some ⟨option.setting, x⟩
  | .flag a => .ok (some a)
  | .help => .ok none
  | .ignored _ => .ok none

/-- The loop over the words. -/
def runWords : List Word → Options → Except ArgumentFault (Option Options)
  | [], o => .ok (some o)
  | .help :: _, _ => .ok none
  | w :: ws, o => do
      let a ← w.assign
      runWords ws (a.elim o o.put)

/-- An option with a value is one of the table. -/
theorem valueOption_eq (a v : Text) (o : Options) :
    valueOption a v o = (valueOptions.find? fun p => isOption a p.names).map fun p =>
      (p.read v).map fun x => o.put ⟨p.setting, x⟩ := by
  unfold valueOption valueOptions intOptions
  simp only [List.find?_cons, List.find?_nil]
  -- name by name, in the order of the source
  cases isOption a ["--mode", "-m"]
  case true => rfl
  cases isOption a ["--repeat", "-r"]
  case true => rfl
  cases isOption a ["-N", "--oblique"]
  case true => rfl
  cases isOption a ["--strip-height", "-sh"]
  case true => rfl
  cases isOption a ["--strip-width", "-sw"]
  case true => rfl
  cases isOption a ["--threads", "--raster-threads", "-t"]
  case true => rfl
  cases isOption a ["--encode-threads", "-et"]
  case true => rfl
  cases isOption a ["--decode-threads", "-dt"]
  case true => rfl
  cases isOption a ["--cache-blocks-min", "--cache-min"]
  case true => rfl
  cases isOption a ["--cache-blocks-max", "--cache-max"]
  case true => rfl
  cases isOption a ["--cache-blocks", "--raw-cache"]
  case true => rfl
  cases isOption a ["--input", "-i"]
  case true => rfl
  cases isOption a ["--pw"]
  case true => rfl
  cases isOption a ["--verbose", "-v"]
  case true => rfl
  cases isOption a ["--formats", "-f"]
  case true => rfl
  cases isOption a ["--csv", "-o", "--output"]
  case true => rfl
  rfl

/-- An option without a value is one of the table, or none. -/
theorem flagOption_eq (a : Text) (o : Options) :
    flagOption a o = (flagOptions.find? fun p => isOption a p.1).elim o fun p => o.put p.2 := by
  unfold flagOption flagOptions
  simp only [List.find?_cons, List.find?_nil]
  cases isOption a ["--no-encode"]
  case true => rfl
  cases isOption a ["--no-decode"]
  case true => rfl
  cases isOption a ["--check"]
  case true => rfl
  cases isOption a ["--no-check"]
  case true => rfl
  cases isOption a ["--force"]
  case true => rfl
  rfl

/-- An argument on its own, as the loop over the words takes it. -/
theorem runWords_single (a : Text) (ws : List Word) (o : Options) :
    runWords (.single a :: ws) o =
      if isOption a ["-h", "--help"] then .ok none else runWords ws (flagOption a o) := by
  unfold Word.single
  split_ifs with hhelp
  · rfl
  · rw [flagOption_eq]
    cases flagOptions.find? fun p => isOption a p.1 <;> rfl

/-- The loop over the arguments is one over the words. -/
theorem parseOptions_eq (args : List Text) (o : Options) :
    parseOptions args o = runWords (optionWords args) o := by
  fun_induction parseOptions args o with
  | case1 o => rfl
  | case2 a o hhelp => rw [optionWords, runWords_single, if_pos hhelp]
  | case3 a o hhelp =>
      rw [optionWords, runWords_single, if_neg hhelp]
      rfl
  | case4 a v args o r hvalue ih =>
      rw [valueOption_eq, Option.map_eq_some_iff] at hvalue
      obtain ⟨option, hoption, rfl⟩ := hvalue
      rw [optionWords, hoption]
      show _ = (Except.map _ (option.read v)).bind _
      cases hread : option.read v with
      | error e => rfl
      | ok x => exact ih _
  | case5 o a v args hvalue hhelp =>
      rw [valueOption_eq, Option.map_eq_none_iff] at hvalue
      rw [optionWords, hvalue]
      simp only [runWords_single, if_pos hhelp]
  | case6 a v args o hvalue hhelp ih =>
      rw [valueOption_eq, Option.map_eq_none_iff] at hvalue
      rw [optionWords, hvalue]
      simp only [runWords_single, if_neg hhelp]
      exact ih

/-- One word that does not ask for help. -/
theorem runWords_cons {w : Word} (hw : w ≠ .help) (ws : List Word) (o : Options) :
    runWords (w :: ws) o = w.assign.bind fun a => runWords ws (a.elim o o.put) := by
  cases w with
  | help => exact absurd rfl hw
  | _ => rfl

/-- Words that do not ask for help are assignments, one after the other. -/
theorem runWords_eq_ok_iff {ws : List Word} {o o' : Options} :
    runWords ws o = .ok (some o') ↔
      .help ∉ ws ∧
        ∃ as, ws.mapM Word.assign = .ok as ∧ o' = as.reduceOption.foldl Options.put o := by
  induction ws generalizing o with
  | nil =>
      rw [runWords]
      constructor
      · intro h
        exact ⟨List.not_mem_nil, [], rfl, (Option.some.inj (Except.ok.inj h)).symm⟩
      · rintro ⟨-, as, has, rfl⟩
        obtain rfl : [] = as := Except.ok.inj has
        rfl
  | cons w ws ih =>
      by_cases hw : w = .help
      · subst hw
        exact iff_of_false nofun fun h => h.1 List.mem_cons_self
      rw [runWords_cons hw, List.mapM_cons, List.mem_cons, not_or]
      cases hassign : w.assign with
      | error e =>
          refine iff_of_false nofun ?_
          rintro ⟨-, as, has, -⟩
          cases has
      | ok a =>
          show runWords ws (a.elim o o.put) = _ ↔ _
          rw [ih]
          constructor
          · rintro ⟨hhelp, as, has, rfl⟩
            refine ⟨⟨Ne.symm hw, hhelp⟩, a :: as, ?_, ?_⟩
            · rw [has]
              rfl
            · cases a <;> rfl
          · rintro ⟨⟨-, hhelp⟩, as, has, rfl⟩
            replace has : (ws.mapM Word.assign >>= fun as' => .ok (a :: as')) = .ok as := has
            obtain ⟨as', has', hcons⟩ := except_bind_eq_ok.mp has
            obtain rfl : a :: as' = as := Except.ok.inj hcons
            refine ⟨hhelp, as', has', ?_⟩
            cases a <;> rfl

/-! ## Layers -/

/-- What `RLE4K_THREADS` assigns. -/
def envAssignments : Option Text → List Assignment
  | none => []
  | some t => if 0 < atoi t then [⟨.rasterThreads, atoi t⟩] else []

/-- The environment variable is an assignment. -/
theorem overrideThreads_eq (envThreads : Option Text) (o : Options) :
    ({ o with cfg := overrideThreads envThreads o.cfg } : Options) =
      (envAssignments envThreads).foldl Options.put o := by
  cases envThreads with
  | none => rfl
  | some t =>
      rw [overrideThreads, envAssignments]
      split_ifs <;> rfl

theorem rest_foldl (as : List Assignment) (o : Options) :
    (as.foldl Options.put o).cfg.rest = o.cfg.rest := by
  induction as generalizing o with
  | nil => rfl
  | cons a as ih => rw [List.foldl_cons, ih, Options.rest_put]

/-- **Layers of options.** A run is set up exactly if the configuration file can be read, no word of
the command line asks for help, and the values of all options can be converted. Then each setting
has the value of the last assignment: a positive `RLE4K_THREADS` stands behind the options, the
options behind the file. What no option sets is as the file has it. -/
theorem setUp_eq_ok_iff {file : Option Text} {args : List Text} {envThreads : Option Text}
    {cfg : BenchConfig} {csvPath : Text} :
    setUp file args envThreads = .ok (some (cfg, csvPath)) ↔
      ∃ opened cfg₀ as, loadConfig file {} = .ok (opened, cfg₀) ∧ .help ∉ optionWords args ∧
        (optionWords args).mapM Word.assign = .ok as ∧
        (∀ s ≠ .force, Options.get { cfg := cfg, csvPath := csvPath } s =
          (LastWrite.last (as.reduceOption ++ envAssignments envThreads) s).getD
            (Options.get { cfg := cfg₀ } s)) ∧
        cfg.rest = cfg₀.rest := by
  -- what the assignments make of the file
  have hget : ∀ (as : List Assignment) (o : Options) (s : Setting),
      (as.foldl Options.put o).get s = (LastWrite.last as s).getD (o.get s) :=
    LastWrite.get_foldl Options.get_put
  have hforce : ∀ (b : Bool) {s : Setting}, s ≠ .force →
      Options.get { cfg := cfg, force := b, csvPath := csvPath } s =
        Options.get { cfg := cfg, csvPath := csvPath } s := by
    intro b s hs
    cases s <;> first | rfl | exact absurd rfl hs
  constructor
  · intro h
    obtain ⟨⟨opened, cfg₀⟩, hload, h⟩ := except_bind_eq_ok.mp h
    obtain ⟨options, hparse, h⟩ := except_bind_eq_ok.mp h
    obtain ⟨o, rfl, hresult⟩ := Option.map_eq_some_iff.mp (Except.ok.inj h)
    obtain ⟨rfl, rfl⟩ := Prod.mk.inj hresult
    replace hparse := except_mapError_eq_ok.mp hparse
    rw [parseOptions_eq, runWords_eq_ok_iff] at hparse
    obtain ⟨hhelp, as, has, ho⟩ := hparse
    have hall : ({ o with cfg := overrideThreads envThreads o.cfg } : Options) =
        (as.reduceOption ++ envAssignments envThreads).foldl Options.put { cfg := cfg₀ } := by
      rw [overrideThreads_eq, List.foldl_append, ho]
    refine ⟨opened, cfg₀, as, except_mapError_eq_ok.mp hload, hhelp, has, fun s hs => ?_, ?_⟩
    · rw [← hforce o.force hs, ← hget, ← hall]
    · rw [← rest_foldl (as.reduceOption ++ envAssignments envThreads) { cfg := cfg₀ }, ← hall]
  · rintro ⟨opened, cfg₀, as, hload, hhelp, has, hsettings, hrest⟩
    have hparse : parseOptions args { cfg := cfg₀ } =
        .ok (some (as.reduceOption.foldl Options.put { cfg := cfg₀ })) := by
      rw [parseOptions_eq]
      exact runWords_eq_ok_iff.mpr ⟨hhelp, as, has, rfl⟩
    generalize ho : as.reduceOption.foldl Options.put { cfg := cfg₀ } = o at hparse
    have hall : ({ cfg := cfg, force := o.force, csvPath := csvPath } : Options) =
        { o with cfg := overrideThreads envThreads o.cfg } := by
      have hfold : ({ o with cfg := overrideThreads envThreads o.cfg } : Options) =
          (as.reduceOption ++ envAssignments envThreads).foldl Options.put { cfg := cfg₀ } := by
        rw [overrideThreads_eq, List.foldl_append, ho]
      refine Options.ext_get ?_ ?_
      · funext s
        by_cases hs : s = .force
        · subst hs
          rfl
        · rw [hforce o.force hs, hsettings s hs, hfold, hget]
      · rw [hfold, rest_foldl]
        exact hrest
    obtain ⟨hcfg, -, hpath⟩ := Options.mk.inj hall
    show (loadConfig file {}).mapError SetUpFault.text >>= _ = _
    rw [hload]
    show (parseOptions args { cfg := cfg₀ }).mapError SetUpFault.argument >>= _ = _
    rw [hparse, hcfg, hpath]
    rfl

end Redcli
