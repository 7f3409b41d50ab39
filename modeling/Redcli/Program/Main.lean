import Redcli.Config.CommandLine
import Redcli.Config.DefaultConfig
import Redcli.Pipeline.CsvReport

/-!
# The Program

`main` with its commands: `init` and `edit`, which create a configuration file where there is
none, and `run`, which looks for one. The files are those that the program reads or writes itself:
configurations and reports.

## Main results

* `main_effect`: what an invocation changes: nothing, a configuration that was not there, or the
  report that its options name.
-/

namespace Redcli

/-! ## Files -/

/-- What a path leads to. -/
inductive Entry where
  | file (t : Text)
  /-- Something that exists and cannot be read, such as a directory. -/
  | locked
  /-- Something of which it cannot be found out whether it exists. -/
  | hidden
  deriving DecidableEq

/-- The text of a file that can be opened. -/
def Entry.text? : Entry → Option Text
  | file t => some t
  | locked => none
  | hidden => none

/-- `std::filesystem::exists`; `none` if it throws. -/
def pathExists : Option Entry → Option Bool
  | none => some false
  | some .hidden => none
  | some _ => some true

/-- Where paths lead to. -/
structure Places (L : Type) where
  /-- `rle4k_exe_directory`. -/
  exeDirectory : Text
  /-- The location of a path. -/
  locate : Text → L
  /-- A file of the current directory is found under its name. -/
  locate_dot : locate "./redcli.json".toList = locate "redcli.json".toList

/-- The places of a program that looks in the current directory. -/
def currentPlaces : Places Text where
  exeDirectory := ".".toList
  locate := fun p => if p = "./redcli.json".toList then "redcli.json".toList else p
  locate_dot := by decide

/-- What there is at each location. -/
abbrev Files (L : Type) : Type := L → Option Entry

/-- How writing a file ends: it cannot be opened, only the first characters are written, or all of
them. -/
inductive WriteOutcome where
  | refused
  | cut (n : ℕ)
  | done
  deriving DecidableEq, Repr

section

variable {L : Type} [DecidableEq L] (places : Places L)

/-- Write a text: whether this works, and the files. -/
def writeText (w : WriteOutcome) (path t : Text) (files : Files L) : Bool × Files L :=
  match w with
  | .refused => (false, files)
  | .cut n => (false, Function.update files (places.locate path) (some (.file (t.take n))))
  | .done => (true, Function.update files (places.locate path) (some (.file t)))

/-! ## The configuration file -/

/-- `rle4k_config_search_dirs`. -/
def rle4kConfigSearchDirs (exeDir : Text) : List Text :=
  [".".toList, "..".toList] ++
    (if exeDir ≠ [] ∧ exeDir ≠ ".".toList then
      [exeDir, exeDir ++ "/..".toList, exeDir ++ "/../..".toList]
    else []) ++ ["docs".toList, "../docs".toList]

/-- The paths where a configuration is looked for. -/
def configPaths (exeDir : Text) : List Text :=
  (rle4kConfigSearchDirs exeDir).map fun dir => dir ++ "/redcli.json".toList

/-- The first of some paths that exists. It is empty if none does, and there is none if the search
throws. -/
def firstPath (files : Files L) : List Text → Option Text
  | [] => some []
  | p :: ps => do
      if ← pathExists (files (places.locate p)) then some p else firstPath files ps

/-- `rle4k_resolve_config_path`, which is empty if nothing is found. -/
def rle4kResolveConfigPath (files : Files L) : Option Text :=
  firstPath places files (configPaths places.exeDirectory)

/-- `rle4k_default_config_dest`. -/
def rle4kDefaultConfigDest (exeDir : Text) : Text :=
  if exeDir ≠ [] ∧ exeDir ≠ ".".toList then exeDir ++ "/redcli.json".toList
  else "redcli.json".toList

/-- `rle4k_write_default_config`. -/
def rle4kWriteDefaultConfig (w : WriteOutcome) (path : Text) (files : Files L) : Bool × Files L :=
  writeText places w path rle4kBuiltinDefaultConfigJson files

/-- `rle4k_ensure_config_file`: whether there is a file, its path, and the files. -/
def rle4kEnsureConfigFile (w : WriteOutcome) (files : Files L) :
    Option (Bool × Text × Files L) := do
  let outPath ← rle4kResolveConfigPath places files
  if outPath ≠ [] then some (true, outPath, files)
  else
    let outPath := rle4kDefaultConfigDest places.exeDirectory
    let (written, files) := rle4kWriteDefaultConfig places w outPath files
    some (written, outPath, files)

/-! ## The commands -/

/-- A call of the program, with the outcomes that its surroundings decide. -/
structure Invocation where
  /-- The arguments behind the name of the program. -/
  args : List Text
  /-- The environment variable `RLE4K_THREADS`. -/
  envThreads : Option Text := none
  /-- The writing of a configuration. -/
  write : WriteOutcome := .done
  /-- `rle4k_open_in_editor`. -/
  rle4kOpenInEditor : Text → Bool := fun _ => true
  /-- The surroundings of a measurement. -/
  env : Environment
  /-- How a report writes its numbers. -/
  num : NumberFormat := fixedNotation
  /-- What a report that fails leaves behind: its first characters, if it could be opened. -/
  reportCut : Option ℕ := none

/-- `rle4k_cmd_init`: the exit status, if it does not end abnormally, and the files. -/
def rle4kCmdInit (inv : Invocation) (files : Files L) : Option ℤ × Files L :=
  let dest := "redcli.json".toList
  match pathExists (files (places.locate dest)) with
  | none => (none, files)
  | some true => (some 0, files)
  | some false =>
      let (written, files) := rle4kWriteDefaultConfig places inv.write dest files
      (some (if written then 0 else 1), files)

/-- `rle4k_cmd_edit`. What is changed in the editor is not part of the call. -/
def rle4kCmdEdit (inv : Invocation) (files : Files L) : Option ℤ × Files L :=
  match rle4kEnsureConfigFile places inv.write files with
  | none => (none, files)
  | some (ensured, path, files) =>
      (some (if ensured && inv.rle4kOpenInEditor path then 0 else 1), files)

/-- The text of the configuration file that a run finds, if it can be opened. -/
def configFile (files : Files L) : Option (Option Text) := do
  let resolved ← rle4kResolveConfigPath places files
  if resolved = [] then some none else some ((files (places.locate resolved)).bind Entry.text?)

/-- What a run measures with: the configuration and the path of the report; `none` if it prints the
usage. -/
def runSetUp (inv : Invocation) (args : List Text) (files : Files L) :
    Except SetUpFault (Option (BenchConfig × Text)) :=
  match configFile places files with
  | none => .error .search
  | some file => setUp file args inv.envThreads

/-- The files behind the report of a run, which there is only for a path that is not empty. -/
def writeReport (inv : Invocation) (cfg : BenchConfig) (csvPath : Text) (r : RunResult)
    (files : Files L) : Files L :=
  let write (w : WriteOutcome) : Files L :=
    (writeText places w csvPath (csvText inv.num cfg (r.allFiles.map Prod.snd)) files).2
  match r.csvWritten with
  | none => files
  | some true => write .done
  | some false => write (inv.reportCut.elim .refused .cut)

/-- `rle4k_cmd_run` from the beginning. There is no exit status if the run ends abnormally, which it
only does in front of the report. -/
def rle4kCmdRunMain (inv : Invocation) (args : List Text) (files : Files L) :
    Option ℤ × Files L :=
  match runSetUp places inv args files with
  | .error _ => (none, files)
  | .ok none => (some 0, files)
  | .ok (some (cfg, csvPath)) =>
      match rle4kCmdRun inv.env cfg csvPath with
      | none => (none, files)
      | some r => (some r.status, writeReport places inv cfg csvPath r files)

/-- `main`. -/
def main (inv : Invocation) (files : Files L) : Option ℤ × Files L :=
  match inv.args with
  -- the usage is printed
  | [] => (some 1, files)
  | cmd :: args =>
      if isOption cmd ["-h", "--help", "help"] then (some 0, files)
      else if isOption cmd ["init"] then rle4kCmdInit places inv files
      else if isOption cmd ["run"] then rle4kCmdRunMain places inv args files
      else if isOption cmd ["edit", "config"] then rle4kCmdEdit places inv files
      -- the former name of `run`
      else if isOption cmd ["benchmark"] then rle4kCmdRunMain places inv args files
      else (some 1, files)

end

/-! ## What an invocation changes -/

section

variable {L : Type} {places : Places L}

/-- A path is free exactly if it is found that nothing is there. -/
theorem pathExists_eq_false_iff {e : Option Entry} : pathExists e = some false ↔ e = none := by
  rcases e with _ | _ | _ | _ <;> simp [pathExists]

/-- The search comes to its end exactly if all paths are free. -/
theorem firstPath_eq_nil_iff {files : Files L} {ps : List Text} (hne : ∀ p ∈ ps, p ≠ []) :
    firstPath places files ps = some [] ↔ ∀ p ∈ ps, files (places.locate p) = none := by
  induction ps with
  | nil => simp [firstPath]
  | cons p ps ih =>
      obtain ⟨hp, hps⟩ := List.forall_mem_cons.mp hne
      rw [List.forall_mem_cons, ← ih hps, ← pathExists_eq_false_iff, firstPath]
      rcases pathExists (files (places.locate p)) with _ | _ | _
      · simp
      · simp
      · simp [hp]

/-- The search among paths that can be looked up. -/
theorem firstPath_eq_find? {files : Files L} {ps : List Text} {found : Text → Bool}
    (h : ∀ p ∈ ps, pathExists (files (places.locate p)) = some (found p)) :
    firstPath places files ps = some ((ps.find? found).getD []) := by
  induction ps with
  | nil => rfl
  | cons p ps ih =>
      obtain ⟨hp, hps⟩ := List.forall_mem_cons.mp h
      rw [firstPath, hp, List.find?_cons, ih hps]
      cases found p <;> rfl

/-- A path of a configuration ends with the name of the file. -/
theorem ne_nil_of_mem_configPaths {exeDir p : Text} (hp : p ∈ configPaths exeDir) : p ≠ [] := by
  obtain ⟨dir, -, rfl⟩ := List.mem_map.mp hp
  simp

theorem rle4kResolveConfigPath_eq_nil_iff {files : Files L} :
    rle4kResolveConfigPath places files = some [] ↔
      ∀ p ∈ configPaths places.exeDirectory, files (places.locate p) = none :=
  firstPath_eq_nil_iff fun _ hp => ne_nil_of_mem_configPaths hp

/-- The paths of the configurations that the program creates. -/
def createdPaths (exeDir : Text) : List Text :=
  ["redcli.json".toList, rle4kDefaultConfigDest exeDir]

/-- The paths of the configurations that are created lead to where one is looked for. -/
theorem locate_created {path : Text} (hpath : path ∈ createdPaths places.exeDirectory) :
    ∃ p ∈ configPaths places.exeDirectory, places.locate p = places.locate path := by
  have hdot : ∃ p ∈ configPaths places.exeDirectory,
      places.locate p = places.locate "redcli.json".toList :=
    ⟨"./redcli.json".toList, List.mem_map.mpr ⟨".".toList, by simp [rle4kConfigSearchDirs], rfl⟩,
      places.locate_dot⟩
  rw [createdPaths, List.mem_cons, List.mem_singleton] at hpath
  rcases hpath with rfl | rfl
  · exact hdot
  · rw [rle4kDefaultConfigDest]
    split_ifs with hexe
    · refine ⟨_, List.mem_map.mpr ⟨places.exeDirectory, ?_, rfl⟩, rfl⟩
      rw [rle4kConfigSearchDirs, if_pos hexe]
      simp
    · exact hdot

variable [DecidableEq L]

/-- What an invocation makes of the files. -/
inductive Effect (places : Places L) (inv : Invocation) (files : Files L) : Files L → Prop where
  | nothing : Effect places inv files files
  /-- A configuration that was not there: the built-in one, or its first characters if writing it
  fails. -/
  | config (path t : Text) (hpath : path ∈ createdPaths places.exeDirectory)
      (habsent : files (places.locate path) = none) (hpart : t <+: rle4kBuiltinDefaultConfigJson)
      (hwhole : (∀ n, inv.write ≠ .cut n) → t = rle4kBuiltinDefaultConfigJson) :
      Effect places inv files (Function.update files (places.locate path) (some (.file t)))
  /-- The report that the options name. -/
  | report (path t : Text) (hpath : path ∈ inv.args) :
      Effect places inv files (Function.update files (places.locate path) (some (.file t)))

/-- A configuration is written where there is none. -/
theorem effect_writeDefaultConfig {inv : Invocation} {files : Files L} {path : Text}
    (hpath : path ∈ createdPaths places.exeDirectory)
    (habsent : files (places.locate path) = none) :
    Effect places inv files (rle4kWriteDefaultConfig places inv.write path files).2 := by
  unfold rle4kWriteDefaultConfig writeText
  cases hwrite : inv.write with
  | refused => exact .nothing
  | cut n =>
      exact .config path _ hpath habsent (List.take_prefix n _) fun hcut => absurd hwrite (hcut n)
  | done => exact .config path _ hpath habsent List.prefix_rfl fun _ => rfl

/-- Without a path there is no report. -/
theorem csvWritten_nil {env : Environment} {cfg : BenchConfig} {r : RunResult}
    (hrun : rle4kCmdRun env cfg [] = some r) : r.csvWritten = none := by
  unfold rle4kCmdRun at hrun
  dsimp only at hrun
  split_ifs at hrun
  · obtain rfl := Option.some.inj hrun
    rfl
  · obtain ⟨files, -, hrun⟩ := Option.bind_eq_some_iff.mp hrun
    split_ifs at hrun
    · obtain rfl := Option.some.inj hrun
      rfl
    · obtain ⟨stripWidth, -, hrun⟩ := Option.bind_eq_some_iff.mp hrun
      obtain ⟨-, -, hwritten, -⟩ := runFiles_eq_some_iff.mp hrun
      exact hwritten

omit [DecidableEq L] in
/-- The path of a report is one of the arguments of a run. -/
theorem runSetUp_csvPath {inv : Invocation} {args : List Text} {files : Files L}
    {cfg : BenchConfig} {csvPath : Text}
    (h : runSetUp places inv args files = .ok (some (cfg, csvPath))) :
    csvPath = [] ∨ csvPath ∈ args := by
  unfold runSetUp at h
  split at h
  next => cases h
  next => exact setUp_csvPath h

/-- A run changes nothing, or the report at one of its arguments. -/
theorem run_changes (inv : Invocation) (args : List Text) (files : Files L) :
    (rle4kCmdRunMain places inv args files).2 = files ∨
      ∃ path ∈ args, ∃ t, (rle4kCmdRunMain places inv args files).2 =
        Function.update files (places.locate path) (some (.file t)) := by
  unfold rle4kCmdRunMain
  rcases hsetUp : runSetUp places inv args files with e | _ | ⟨cfg, csvPath⟩
  · exact .inl rfl
  · exact .inl rfl
  simp only
  cases hrun : rle4kCmdRun inv.env cfg csvPath with
  | none => exact .inl rfl
  | some r =>
      simp only [writeReport, writeText]
      rcases runSetUp_csvPath hsetUp with rfl | hpath
      · rw [csvWritten_nil hrun]
        exact .inl rfl
      · rcases r.csvWritten with _ | _ | _
        · exact .inl rfl
        · -- a report that fails is not there, or in part
          cases inv.reportCut with
          | none => exact .inl rfl
          | some n => exact .inr ⟨csvPath, hpath, _, rfl⟩
        · exact .inr ⟨csvPath, hpath, _, rfl⟩

theorem effect_init (inv : Invocation) (files : Files L) :
    Effect places inv files (rle4kCmdInit places inv files).2 := by
  unfold rle4kCmdInit
  dsimp only
  rcases hexists : pathExists (files (places.locate "redcli.json".toList)) with _ | _ | _
  · exact .nothing
  · exact effect_writeDefaultConfig (by simp [createdPaths]) (pathExists_eq_false_iff.mp hexists)
  · exact .nothing

theorem effect_edit (inv : Invocation) (files : Files L) :
    Effect places inv files (rle4kCmdEdit places inv files).2 := by
  unfold rle4kCmdEdit rle4kEnsureConfigFile
  rcases hresolved : rle4kResolveConfigPath places files with _ | _ | ⟨c, path⟩
  · exact .nothing
  · have hdest : rle4kDefaultConfigDest places.exeDirectory ∈ createdPaths places.exeDirectory := by
      simp [createdPaths]
    -- no place of a configuration has one, so neither has the place of the new one
    obtain ⟨p, hp, hlocate⟩ := locate_created hdest
    have habsent := rle4kResolveConfigPath_eq_nil_iff.mp hresolved p hp
    rw [hlocate] at habsent
    exact effect_writeDefaultConfig hdest habsent
  · exact .nothing

theorem effect_run {inv : Invocation} {args : List Text} (hargs : ∀ a ∈ args, a ∈ inv.args)
    (files : Files L) : Effect places inv files (rle4kCmdRunMain places inv args files).2 := by
  rcases run_changes inv args files with hsame | ⟨path, hpath, t, hreport⟩
  · rw [hsame]
    exact .nothing
  · rw [hreport]
    exact .report path t (hargs path hpath)

/-- What an invocation changes. -/
theorem main_effect (inv : Invocation) (files : Files L) :
    Effect places inv files (main places inv files).2 := by
  unfold main
  cases hargs : inv.args with
  | nil => exact .nothing
  | cons cmd args =>
      have hmem : ∀ a ∈ args, a ∈ inv.args := fun a ha => hargs ▸ List.mem_cons_of_mem cmd ha
      simp only
      split_ifs
      · exact .nothing
      · exact effect_init inv files
      · exact effect_run hmem files
      · exact effect_edit inv files
      · exact effect_run hmem files
      · exact .nothing

end

end Redcli
