import Middle.Lib.Checked
import Middle.MiddleApp.PrefsReader
import Middle.MiddleApp.TargetPaths
import Middle.SqlsvrDdl.QueriesImpl

/-! The command line of the program (`middle_runner::parse_args`). What Boost makes of the arguments and of a
configuration file is given, as are the file system, whether a file can be opened and the sink of a log file. -/

namespace Middle.Main

open Lib Universals NormalDdl SqlsvrDdl MiddleApp

/-! ### The file system -/

inductive FileStatus where
  | notFound | regular | directory | other
  deriving DecidableEq

/-- `path::parent_path`: the root of an absolute path is above all but itself. -/
def parentPath (p : Text) : Text :=
  let parent := (parentPart p).rdropWhile (· = '/')
  if parent = [] ∧ parentPart p ≠ [] ∧ parentPart p ≠ p then ['/'] else parent

/-- What `boost::filesystem::status` says. What exists is below directories. -/
structure FileSystem where
  status : Text → FileStatus
  empty : status [] = .notFound
  below : ∀ p, status p ≠ .notFound → parentPath p ≠ [] → status (parentPath p) = .directory

theorem parentPath_nil : parentPath [] = [] := by decide

theorem length_rdropWhile_le (f : Char → Bool) (p : Text) : (p.rdropWhile f).length ≤ p.length :=
  (List.rdropWhile_prefix f p).length_le

theorem length_parentPath_lt {p : Text} (h : p ≠ []) : (parentPath p).length < p.length := by
  have hparent := length_rdropWhile_le (· = '/') (parentPart p)
  by_cases heq : parentPart p = p
  · obtain hnil | ⟨s, hs⟩ := parentPart_eq p
    · exact absurd (heq ▸ hnil) h
    · -- A slash at the end is dropped.
      have hdrop : (s ++ ['/']).rdropWhile (· = '/') = s.rdropWhile (· = '/') :=
        List.rdropWhile_concat_pos _ _ _ (by simp)
      have hs' := length_rdropWhile_le (· = '/') s
      rw [parentPath, if_neg (fun hroot => hroot.2.2 heq), hs, hdrop]
      rw [heq] at hs
      rw [hs, List.length_append, List.length_singleton]
      omega
  · have hlt : (parentPart p).length < p.length := by
      refine lt_of_le_of_ne (length_rdropWhile_le _ p) fun hlength => heq ?_
      exact (List.rdropWhile_prefix (· ≠ '/') p).eq_of_length hlength
    by_cases hroot : (parentPart p).rdropWhile (· = '/') = [] ∧ parentPart p ≠ [] ∧ parentPart p ≠ p
    · have hpos := List.length_pos_iff.mpr hroot.2.1
      rw [parentPath, if_pos hroot, List.length_singleton]
      omega
    · rw [parentPath, if_neg hroot]
      omega

theorem ne_nil_of_parentPath_ne {p : Text} (h : parentPath p ≠ p) : p ≠ [] := by
  rintro rfl
  exact h parentPath_nil

/-! ### The roots -/

/-- The loop of `validate_target_root` over the directories that the path would be in. -/
def validateTargetParents (status : Text → FileStatus) (targetPath : Text) : Option Text :=
  if _h : parentPath targetPath = targetPath then none
  else
    match status (parentPath targetPath) with
    | .notFound => validateTargetParents status (parentPath targetPath)
    | .directory => none
    | _ => some "not a directory".toList
termination_by targetPath.length
decreasing_by exact length_parentPath_lt (ne_nil_of_parentPath_ne ‹_›)

/-- `validate_target_root`: what is wrong with a target root. -/
def validateTargetRoot (status : Text → FileStatus) (targetRoot : Text) : Option Text :=
  match status targetRoot with
  | .notFound => validateTargetParents status targetRoot
  | .directory => none
  | _ => some "not a directory".toList

/-- `ddl_source_root::validate`. -/
def validate (status : Text → FileStatus) (srcRoot : DdlSourceRoot) : Option Text :=
  match status srcRoot.genericString with
  | .notFound => some "doesn't exist".toList
  | .directory =>
      if srcRoot.graftedPath ∧ srcRoot.genericString.head? = some '/' then
        some "directory path not relative".toList
      else none
  | _ => some "not a directory".toList

/-- What a path is in: all that `parent_path` leads to from it. -/
inductive Above : Text → Text → Prop
  | parent (p : Text) : Above (parentPath p) p
  | step {q p : Text} (h : Above q (parentPath p)) : Above q p

theorem above_iff {q p : Text} : Above q p ↔ q = parentPath p ∨ Above q (parentPath p) := by
  constructor
  · rintro (_ | h)
    · exact .inl rfl
    · exact .inr h
  · rintro (rfl | h)
    · exact .parent p
    · exact .step h

theorem above_nil_iff {q : Text} : Above q [] ↔ q = [] := by
  constructor
  · intro h
    generalize hp : ([] : Text) = p at h
    induction h with
    | parent p => rw [← hp, parentPath_nil]
    | step _ ih =>
        subst hp
        exact ih parentPath_nil.symm
  · rintro rfl
    exact parentPath_nil ▸ .parent []

/-- What is above something that exists is a directory. -/
theorem FileSystem.above (fs : FileSystem) {q p : Text} (hp : fs.status p ≠ .notFound) (h : Above q p) :
    fs.status q = .notFound ∨ fs.status q = .directory := by
  induction h with
  | parent p =>
      by_cases hnil : parentPath p = []
      · rw [hnil]
        exact .inl fs.empty
      · exact .inr (fs.below p hp hnil)
  | @step q p h ih =>
      by_cases hnil : parentPath p = []
      · rw [hnil, above_nil_iff] at h
        rw [h]
        exact .inl fs.empty
      · apply ih
        rw [fs.below p hp hnil]
        decide

/-- The loop stops at the first thing on the way that exists, and above that there are only directories. -/
theorem validateTargetParents_eq_none_iff (fs : FileSystem) (p : Text) :
    validateTargetParents fs.status p = none ↔
      ∀ q, Above q p → fs.status q = .notFound ∨ fs.status q = .directory := by
  induction p using validateTargetParents.induct fs.status with
  | case1 p hself =>
      have hnil : p = [] := by
        by_contra hne
        have hlt := length_parentPath_lt hne
        rw [hself] at hlt
        exact lt_irrefl _ hlt
      subst hnil
      rw [validateTargetParents, dif_pos hself]
      refine iff_of_true rfl fun q h => ?_
      rw [above_nil_iff.mp h]
      exact .inl fs.empty
  | case2 p hself hstatus ih =>
      rw [validateTargetParents, dif_neg hself, hstatus]
      dsimp only
      rw [ih]
      constructor
      · intro h q hq
        rcases above_iff.mp hq with rfl | hq
        · exact .inl hstatus
        · exact h q hq
      · exact fun h q hq => h q (.step hq)
  | case3 p hself hstatus =>
      rw [validateTargetParents, dif_neg hself, hstatus]
      refine iff_of_true rfl fun q hq => ?_
      rcases above_iff.mp hq with rfl | hq
      · exact .inr hstatus
      · exact fs.above (by rw [hstatus]; decide) hq
  | case4 p hself hfound hdirectory =>
      rw [validateTargetParents, dif_neg hself]
      refine iff_of_false (fun h => ?_) fun h => ?_
      · split at h <;> simp_all
      · rcases h _ (.parent p) with hstatus | hstatus
        · exact hfound hstatus
        · exact hdirectory hstatus

/-- A target root is valid when nothing is in its way. -/
theorem validateTargetRoot_eq_none_iff (fs : FileSystem) (targetRoot : Text) :
    validateTargetRoot fs.status targetRoot = none ↔
      ∀ q, q = targetRoot ∨ Above q targetRoot → fs.status q = .notFound ∨ fs.status q = .directory := by
  have hway (hexists : fs.status targetRoot ≠ .notFound) (hne : fs.status targetRoot ≠ .directory) :
      ¬ ∀ q, q = targetRoot ∨ Above q targetRoot → fs.status q = .notFound ∨ fs.status q = .directory := by
    intro h
    rcases h targetRoot (.inl rfl) with htarget | htarget
    · exact hexists htarget
    · exact hne htarget
  unfold validateTargetRoot
  cases hstatus : fs.status targetRoot with
  | notFound =>
      dsimp only
      rw [validateTargetParents_eq_none_iff]
      constructor
      · rintro h q (rfl | hq)
        · exact .inl hstatus
        · exact h q hq
      · exact fun h q hq => h q (.inr hq)
  | directory =>
      refine iff_of_true rfl ?_
      rintro q (rfl | hq)
      · exact .inr hstatus
      · exact fs.above (by rw [hstatus]; decide) hq
  | regular => exact iff_of_false (fun h => nomatch h) (hway (by rw [hstatus]; decide) (by rw [hstatus]; decide))
  | other => exact iff_of_false (fun h => nomatch h) (hway (by rw [hstatus]; decide) (by rw [hstatus]; decide))

/-! ### The log -/

/-- The severities of Boost's trivial logger. -/
inductive SeverityLevel where
  | trace | debug | info | warning | error | fatal
  deriving DecidableEq

namespace SeverityLevel

def toNat : SeverityLevel → Nat
  | trace => 0
  | debug => 1
  | info => 2
  | warning => 3
  | error => 4
  | fatal => 5

instance : LE SeverityLevel := ⟨fun a b => a.toNat ≤ b.toNat⟩

instance (a b : SeverityLevel) : Decidable (a ≤ b) := inferInstanceAs (Decidable (a.toNat ≤ b.toNat))

end SeverityLevel

/-- `parse_log_level`, with `none` for the -1 of an unknown level. -/
def parseLogLevel (level : Text) : Option SeverityLevel :=
  if level = "fatal".toList then some .fatal
  else if level = "error".toList then some .error
  else if level = "warn".toList then some .warning
  else if level = "info".toList then some .info
  else if level = "debug".toList then some .debug
  else if level = "trace".toList then some .trace
  else none

def logLevels : List Text :=
  ["fatal".toList, "error".toList, "warn".toList, "info".toList, "debug".toList, "trace".toList]

theorem exists_parseLogLevel_iff (level : Text) : (∃ l, parseLogLevel level = some l) ↔ level ∈ logLevels := by
  unfold parseLogLevel logLevels
  simp only [List.mem_cons, List.not_mem_nil, or_false]
  split_ifs <;> simp_all

/-- The log that `setup_log_file` sets up, with the filter. -/
structure FileLog where
  logfile : Text
  level : SeverityLevel

/-! ### The options -/

/-- The options that may stand in a configuration file, with the values of those that may be repeated. -/
structure ConfigOpts where
  odbcDatasource : List Text := []
  graftSourcePaths : Bool := false
  includeSourcePaths : List Text := []
  excludeSourcePaths : List Text := []
  jsonPrefsFile : Option Text := none
  batchSources : Bool := false
  logFile : Option Text := none
  logLevel : Option Text := none

/-- What `store` makes of the options of a configuration file behind those of the command line. -/
def ConfigOpts.store (opts fileOpts : ConfigOpts) : ConfigOpts where
  odbcDatasource := opts.odbcDatasource ++ fileOpts.odbcDatasource
  graftSourcePaths := opts.graftSourcePaths || fileOpts.graftSourcePaths
  includeSourcePaths := opts.includeSourcePaths ++ fileOpts.includeSourcePaths
  excludeSourcePaths := opts.excludeSourcePaths ++ fileOpts.excludeSourcePaths
  jsonPrefsFile := opts.jsonPrefsFile <|> fileOpts.jsonPrefsFile
  batchSources := opts.batchSources || fileOpts.batchSources
  logFile := opts.logFile <|> fileOpts.logFile
  logLevel := opts.logLevel <|> fileOpts.logLevel

/-- The options of a command line and what stands there besides. -/
structure CmdLineOpts extends ConfigOpts where
  help : Bool := false
  configFile : Option Text := none
  time : Bool := false
  verbose : Bool := false
  version : Bool := false
  unrecognizedOpts : List Text := []

/-- What parsing the arguments depends on. -/
structure ArgsEnvironment where
  fs : FileSystem
  helpText : Text
  appVersion : Text
  /-- `command_line_parser`, with the `what()` of what it throws. -/
  parseCmdLine : List Text → Except Text CmdLineOpts
  /-- `parse_config_file`, with the `what()` of what it throws. -/
  parseConfigFile : Text → Except Text ConfigOpts
  /-- The tree that `read_json` gets from a file, if the file can be opened, or the `what()` of what it throws. -/
  openJson : Text → Option (Except Text Ptree)
  /-- `add_file_log`, with the `what()` of what it throws. -/
  addFileLog : Text → Option Text

/-- What leaves `parse_args` other than by a return. -/
inductive ArgsException where
  /-- `middle_opts_exception`. -/
  | middleOpts (what : Text) (notAnError : Bool := false)
  /-- An exception of Boost. -/
  | other (what : Text)

/-- `middle_runner`, as far as a run depends on it. -/
structure MiddleRunner where
  verbose : Bool := false
  timeMigration : Bool := false
  jsonPrefsFile : Text := []
  jsonPrefsIs : Option (Except Text Ptree) := none
  dataSources : List SqlsvrDdlOdbcDataSource := []
  includePathPatts : List Text := []
  excludePathPatts : List Text := []
  targetRoot : Text := []
  srcRoots : List DdlSourceRoot := []
  batchSources : Bool := false
  /-- What `parse_args` makes of the logger, with `none` when logging is disabled. -/
  log : Option FileLog := none

/-- `parse_odbc_data_sources`. -/
def parseOdbcDataSources (odbcDataSourceSpecs : List Text) : Except Fault (List SqlsvrDdlOdbcDataSource) :=
  odbcDataSourceSpecs.mapM SqlsvrDdlOdbcDataSource.parse

section ParseArgs

variable (env : ArgsEnvironment)

/-- The part of `parse_args` that stores the options of a configuration file. -/
def storeConfigFile (opts : CmdLineOpts) : Except ArgsException ConfigOpts :=
  let stored (configFile : Text) : Except ArgsException ConfigOpts :=
    match env.parseConfigFile configFile with
    | .ok fileOpts => .ok (opts.toConfigOpts.store fileOpts)
    | .error what => .error (.other what)
  match opts.configFile with
  | some configFile =>
      if env.fs.status configFile ≠ .regular then
        .error (.middleOpts ("can't find configuration file '".toList ++ configFile ++ "'".toList))
      else stored configFile
  | none => if env.fs.status "middle.cfg".toList = .regular then stored "middle.cfg".toList else .ok opts.toConfigOpts

/-- The turn of the loop of `parse_args` that validates a source root. -/
def validateSrcRoot (graftSourcePaths : Bool) (sourceFilepath : Text) : Except ArgsException DdlSourceRoot :=
  let srcRoot : DdlSourceRoot := ⟨graftSourcePaths, sourceFilepath⟩
  match validate env.fs.status srcRoot with
  | some msg =>
      .error (.middleOpts ((if graftSourcePaths then "grafted path".toList else []) ++ " source root '".toList ++
        sourceFilepath ++ "': ".toList ++ msg))
  | none => .ok srcRoot

/-- The part of `parse_args` that opens the file with preferences. -/
def openJsonPrefs : Option Text → Except ArgsException (Option (Except Text Ptree))
  | none => .ok none
  | some jsonPrefsFile =>
      match env.openJson jsonPrefsFile with
      | none => .error (.middleOpts ("can't open JSON preference file '".toList ++ jsonPrefsFile ++ "'".toList))
      | some json => .ok (some json)

/-- `setup_log_file`: without a name of a file nothing is logged. -/
def setupLogFile (logfile : Text) (level : SeverityLevel) : Except ArgsException (Option FileLog) :=
  if logfile = [] then .ok none
  else
    match env.addFileLog logfile with
    | some what => .error (.other what)
    | none => .ok (some ⟨logfile, level⟩)

/-- The part of `parse_args` about logging. The name of the log file is read without asking whether there is one. -/
def setupLog (configOpts : ConfigOpts) : Except ArgsException (Option FileLog) :=
  let logLevel := configOpts.logLevel.getD "info".toList
  match parseLogLevel logLevel with
  | none =>
      .error (.middleOpts ("log level: '".toList ++ logLevel ++
        "' not in [fatal, error, warn, info, debug, trace]".toList))
  | some level =>
      match configOpts.logFile with
      | none => .error (.other "boost::bad_any_cast: failed conversion using boost::any_cast".toList)
      | some logfile => setupLogFile env logfile level

/-- `parse_args`. -/
def parseArgs (args : List Text) : Except ArgsException MiddleRunner := do
  let opts ← (env.parseCmdLine args).mapError fun what => .middleOpts ("can't parse command line: ".toList ++ what)
  if opts.help then .error (.middleOpts env.helpText true)
  else if opts.version then .error (.middleOpts env.appVersion true)
  else
    let configOpts ← storeConfigFile env opts
    match opts.unrecognizedOpts with
    | [] => .error (.middleOpts "no target root set".toList)
    | targetFilepath :: sourceFilepaths =>
        match validateTargetRoot env.fs.status targetFilepath with
        | some msg => .error (.middleOpts ("target root '".toList ++ targetFilepath ++ "': ".toList ++ msg))
        | none =>
            if sourceFilepaths = [] then .error (.middleOpts "no source roots set".toList)
            else if configOpts.odbcDatasource = [] then .error (.middleOpts "no ODBC datasources set".toList)
            else
              let dataSources ← (parseOdbcDataSources configOpts.odbcDatasource).mapError fun e =>
                match e with
                | .invalidArgument what => .middleOpts what
                | e => .other ((exceptionWhat e).getD [])
              let srcRoots ← sourceFilepaths.mapM (validateSrcRoot env configOpts.graftSourcePaths)
              let jsonPrefsIs ← openJsonPrefs env configOpts.jsonPrefsFile
              let log ← setupLog env configOpts
              return {
                verbose := opts.verbose
                timeMigration := opts.time
                jsonPrefsIs
                dataSources
                includePathPatts := configOpts.includeSourcePaths
                excludePathPatts := configOpts.excludeSourcePaths
                targetRoot := targetFilepath
                srcRoots
                log }

end ParseArgs

/-! ### What is accepted -/

/-- What the options and the roots on a command line have to be for a run. -/
structure Accepts (env : ArgsEnvironment) (args : List Text) (opts : CmdLineOpts) (configOpts : ConfigOpts)
    (targetFilepath : Text) (sourceFilepaths : List Text) : Prop where
  parsed : env.parseCmdLine args = .ok opts
  runs : opts.help = false ∧ opts.version = false
  stored : storeConfigFile env opts = .ok configOpts
  roots : opts.unrecognizedOpts = targetFilepath :: sourceFilepaths
  target : ∀ q, q = targetFilepath ∨ Above q targetFilepath →
    env.fs.status q = .notFound ∨ env.fs.status q = .directory
  sources : sourceFilepaths ≠ [] ∧ ∀ sourceFilepath ∈ sourceFilepaths, env.fs.status sourceFilepath = .directory ∧
    (configOpts.graftSourcePaths = true → sourceFilepath.head? ≠ some '/')
  dataSources : configOpts.odbcDatasource ≠ [] ∧ ∀ spec ∈ configOpts.odbcDatasource,
    ∃ source : SqlsvrDdlOdbcDataSource, spec = source.dsName ++ ':' :: source.username ++ ':' :: source.password ∧
      source.dsName ≠ [] ∧ ':' ∉ source.dsName ∧ source.username ≠ [] ∧ ':' ∉ source.username
  prefs : ∀ jsonPrefsFile, configOpts.jsonPrefsFile = some jsonPrefsFile →
    ∃ json, env.openJson jsonPrefsFile = some json
  log : configOpts.logLevel.getD "info".toList ∈ logLevels ∧
    ∃ logfile, configOpts.logFile = some logfile ∧ (logfile ≠ [] → env.addFileLog logfile = none)

section Accepted

variable {env : ArgsEnvironment}

theorem validate_eq_none_iff (status : Text → FileStatus) (srcRoot : DdlSourceRoot) :
    validate status srcRoot = none ↔ status srcRoot.genericString = .directory ∧
      (srcRoot.graftedPath = true → srcRoot.genericString.head? ≠ some '/') := by
  unfold validate
  cases status srcRoot.genericString with
  | notFound => simp
  | regular => simp
  | other => simp
  | directory =>
      dsimp only
      rw [and_iff_right rfl]
      split
      · rename_i hgrafted
        exact iff_of_false (fun h => by cases h) fun h => h hgrafted.1 hgrafted.2
      · rename_i hgrafted
        exact iff_of_true rfl fun h hroot => hgrafted ⟨h, hroot⟩

theorem validateSrcRoot_eq_ok_iff {graftSourcePaths : Bool} {sourceFilepath : Text} {srcRoot : DdlSourceRoot} :
    validateSrcRoot env graftSourcePaths sourceFilepath = .ok srcRoot ↔
      (env.fs.status sourceFilepath = .directory ∧ (graftSourcePaths = true → sourceFilepath.head? ≠ some '/')) ∧
        srcRoot = ⟨graftSourcePaths, sourceFilepath⟩ := by
  have hvalid := validate_eq_none_iff env.fs.status ⟨graftSourcePaths, sourceFilepath⟩
  dsimp only at hvalid
  rw [← hvalid, validateSrcRoot]
  cases validate env.fs.status ⟨graftSourcePaths, sourceFilepath⟩ with
  | some msg => exact iff_of_false (fun h => nomatch h) fun h => nomatch h.1
  | none =>
      rw [Except.ok.injEq, eq_comm, and_iff_right rfl]

theorem mapM_validateSrcRoot_eq_ok_iff {graftSourcePaths : Bool} {sourceFilepaths : List Text}
    {srcRoots : List DdlSourceRoot} :
    sourceFilepaths.mapM (validateSrcRoot env graftSourcePaths) = .ok srcRoots ↔
      (∀ sourceFilepath ∈ sourceFilepaths, env.fs.status sourceFilepath = .directory ∧
        (graftSourcePaths = true → sourceFilepath.head? ≠ some '/')) ∧
        srcRoots = sourceFilepaths.map (DdlSourceRoot.mk graftSourcePaths) := by
  have hmap (hvalid : ∀ sourceFilepath ∈ sourceFilepaths, env.fs.status sourceFilepath = .directory ∧
      (graftSourcePaths = true → sourceFilepath.head? ≠ some '/')) :
      sourceFilepaths.mapM (validateSrcRoot env graftSourcePaths) =
        .ok (sourceFilepaths.map (DdlSourceRoot.mk graftSourcePaths)) :=
    mapM_eq_ok_map fun sourceFilepath hmem => validateSrcRoot_eq_ok_iff.mpr ⟨hvalid sourceFilepath hmem, rfl⟩
  constructor
  · intro h
    have hvalid : ∀ sourceFilepath ∈ sourceFilepaths, env.fs.status sourceFilepath = .directory ∧
        (graftSourcePaths = true → sourceFilepath.head? ≠ some '/') := by
      intro sourceFilepath hmem
      obtain ⟨srcRoot, hsrcRoot⟩ := exists_mapM_eq_ok_iff.mp ⟨_, h⟩ sourceFilepath hmem
      exact (validateSrcRoot_eq_ok_iff.mp hsrcRoot).1
    rw [hmap hvalid] at h
    exact ⟨hvalid, (Except.ok.inj h).symm⟩
  · rintro ⟨hvalid, rfl⟩
    exact hmap hvalid

theorem exists_parseOdbcDataSources_iff {specs : List Text} :
    (∃ dataSources, parseOdbcDataSources specs = .ok dataSources) ↔ ∀ spec ∈ specs,
      ∃ source : SqlsvrDdlOdbcDataSource, spec = source.dsName ++ ':' :: source.username ++ ':' :: source.password ∧
        source.dsName ≠ [] ∧ ':' ∉ source.dsName ∧ source.username ≠ [] ∧ ':' ∉ source.username := by
  unfold parseOdbcDataSources
  rw [exists_mapM_eq_ok_iff]
  simp only [SqlsvrDdlOdbcDataSource.parse_eq_ok_iff]

theorem openJsonPrefs_eq_ok_iff {file : Option Text} {jsonPrefsIs : Option (Except Text Ptree)} :
    openJsonPrefs env file = .ok jsonPrefsIs ↔
      (∀ jsonPrefsFile, file = some jsonPrefsFile → ∃ json, env.openJson jsonPrefsFile = some json) ∧
        jsonPrefsIs = file.bind env.openJson := by
  cases file with
  | none =>
      rw [openJsonPrefs, Except.ok.injEq, eq_comm]
      simp
  | some jsonPrefsFile =>
      rw [openJsonPrefs]
      cases hopen : env.openJson jsonPrefsFile with
      | none =>
          refine iff_of_false (fun h => nomatch h) fun h => ?_
          obtain ⟨json, hjson⟩ := h.1 jsonPrefsFile rfl
          rw [hopen] at hjson
          cases hjson
      | some json =>
          have hopened : ∀ file, some jsonPrefsFile = some file → ∃ json, env.openJson file = some json := by
            rintro file ⟨⟩
            exact ⟨json, hopen⟩
          rw [Except.ok.injEq, eq_comm, and_iff_right hopened, Option.bind_some, hopen]

theorem setupLogFile_eq_ok_iff {logfile : Text} {level : SeverityLevel} {log : Option FileLog} :
    setupLogFile env logfile level = .ok log ↔
      (logfile ≠ [] → env.addFileLog logfile = none) ∧ log = if logfile = [] then none else some ⟨logfile, level⟩ := by
  unfold setupLogFile
  by_cases hlogfile : logfile = []
  · rw [if_pos hlogfile, if_pos hlogfile, Except.ok.injEq, eq_comm, and_iff_right fun hne => absurd hlogfile hne]
  · rw [if_neg hlogfile, if_neg hlogfile, forall_prop_of_true hlogfile]
    cases env.addFileLog logfile with
    | some what => exact iff_of_false (fun h => nomatch h) fun h => nomatch h.1
    | none => rw [Except.ok.injEq, eq_comm, and_iff_right rfl]

/-- The log of a run: its level is one of the six, and it has a name of a file, though that may be empty. -/
theorem setupLog_eq_ok_iff {configOpts : ConfigOpts} {log : Option FileLog} :
    setupLog env configOpts = .ok log ↔ ∃ level logfile,
      parseLogLevel (configOpts.logLevel.getD "info".toList) = some level ∧ configOpts.logFile = some logfile ∧
        (logfile ≠ [] → env.addFileLog logfile = none) ∧
        log = if logfile = [] then none else some ⟨logfile, level⟩ := by
  unfold setupLog
  dsimp only
  cases parseLogLevel (configOpts.logLevel.getD "info".toList) with
  | none =>
      refine iff_of_false (fun h => nomatch h) ?_
      rintro ⟨_, _, h, -⟩
      cases h
  | some level =>
      cases configOpts.logFile with
      | none =>
          refine iff_of_false (fun h => nomatch h) ?_
          rintro ⟨_, _, -, h, -⟩
          cases h
      | some logfile =>
          dsimp only
          rw [setupLogFile_eq_ok_iff]
          simp

theorem exists_setupLog_iff {configOpts : ConfigOpts} :
    (∃ log, setupLog env configOpts = .ok log) ↔
      configOpts.logLevel.getD "info".toList ∈ logLevels ∧
        ∃ logfile, configOpts.logFile = some logfile ∧ (logfile ≠ [] → env.addFileLog logfile = none) := by
  rw [← exists_parseLogLevel_iff]
  constructor
  · rintro ⟨log, h⟩
    obtain ⟨level, logfile, hlevel, hlogfile, hadd, -⟩ := setupLog_eq_ok_iff.mp h
    exact ⟨⟨level, hlevel⟩, logfile, hlogfile, hadd⟩
  · rintro ⟨⟨level, hlevel⟩, logfile, hlogfile, hadd⟩
    exact ⟨_, setupLog_eq_ok_iff.mpr ⟨level, logfile, hlevel, hlogfile, hadd, rfl⟩⟩

/-- The runner that `parse_args` returns. -/
theorem parseArgs_eq_ok_iff {args : List Text} {r : MiddleRunner} :
    parseArgs env args = .ok r ↔ ∃ opts configOpts targetFilepath sourceFilepaths dataSources log,
      Accepts env args opts configOpts targetFilepath sourceFilepaths ∧
        parseOdbcDataSources configOpts.odbcDatasource = .ok dataSources ∧ setupLog env configOpts = .ok log ∧
        r = {
          verbose := opts.verbose
          timeMigration := opts.time
          jsonPrefsIs := configOpts.jsonPrefsFile.bind env.openJson
          dataSources
          includePathPatts := configOpts.includeSourcePaths
          excludePathPatts := configOpts.excludeSourcePaths
          targetRoot := targetFilepath
          srcRoots := sourceFilepaths.map (DdlSourceRoot.mk configOpts.graftSourcePaths)
          log } := by
  constructor
  · intro h
    rw [parseArgs, bind_eq_ok_iff] at h
    obtain ⟨opts, hparsed, h⟩ := h
    rw [mapError_eq_ok_iff] at hparsed
    split at h
    · cases h
    rename_i hhelp
    split at h
    · cases h
    rename_i hversion
    rw [bind_eq_ok_iff] at h
    obtain ⟨configOpts, hstored, h⟩ := h
    split at h
    · cases h
    rename_i targetFilepath sourceFilepaths hroots
    split at h
    · cases h
    rename_i htarget
    split at h
    · cases h
    rename_i hsources
    split at h
    · cases h
    rename_i hspecs
    rw [bind_eq_ok_iff] at h
    obtain ⟨dataSources, hdataSources, h⟩ := h
    rw [mapError_eq_ok_iff] at hdataSources
    rw [bind_eq_ok_iff] at h
    obtain ⟨srcRoots, hsrcRoots, h⟩ := h
    rw [bind_eq_ok_iff] at h
    obtain ⟨jsonPrefsIs, hjson, h⟩ := h
    rw [openJsonPrefs_eq_ok_iff] at hjson
    obtain ⟨hprefs, rfl⟩ := hjson
    rw [bind_eq_ok_iff] at h
    obtain ⟨log, hlog, h⟩ := h
    obtain ⟨hvalid, rfl⟩ := mapM_validateSrcRoot_eq_ok_iff.mp hsrcRoots
    cases h
    refine ⟨opts, configOpts, targetFilepath, sourceFilepaths, dataSources, log, ?_, hdataSources, hlog, rfl⟩
    exact ⟨hparsed, ⟨Bool.eq_false_of_not_eq_true hhelp, Bool.eq_false_of_not_eq_true hversion⟩, hstored, hroots,
      (validateTargetRoot_eq_none_iff env.fs targetFilepath).mp htarget, ⟨hsources, hvalid⟩,
      ⟨hspecs, exists_parseOdbcDataSources_iff.mp ⟨_, hdataSources⟩⟩, hprefs, exists_setupLog_iff.mp ⟨_, hlog⟩⟩
  · rintro ⟨opts, configOpts, targetFilepath, sourceFilepaths, dataSources, log, h, hdataSources, hlog, rfl⟩
    have htarget := (validateTargetRoot_eq_none_iff env.fs targetFilepath).mpr h.target
    have hsrcRoots := mapM_validateSrcRoot_eq_ok_iff.mpr ⟨h.sources.2, rfl⟩
    have hjson : openJsonPrefs env configOpts.jsonPrefsFile = .ok (configOpts.jsonPrefsFile.bind env.openJson) :=
      openJsonPrefs_eq_ok_iff.mpr ⟨h.prefs, rfl⟩
    rw [parseArgs, bind_eq_ok_iff]
    refine ⟨opts, mapError_eq_ok_iff.mpr h.parsed, ?_⟩
    rw [if_neg (by simp [h.runs.1]), if_neg (by simp [h.runs.2]), bind_eq_ok_iff]
    refine ⟨configOpts, h.stored, ?_⟩
    rw [h.roots]
    dsimp only
    rw [htarget]
    dsimp only
    rw [if_neg h.sources.1, if_neg h.dataSources.1, hdataSources, hsrcRoots, hjson, hlog]
    rfl

/-- What is accepted: a target root with nothing in its way, source roots that are directories, relative ones when
their paths are grafted, data sources that are specified in full, preferences that can be opened, and a log with one
of the six levels and the name of a file. -/
theorem exists_parseArgs_eq_ok_iff (env : ArgsEnvironment) (args : List Text) :
    (∃ r, parseArgs env args = .ok r) ↔ ∃ opts configOpts targetFilepath sourceFilepaths,
      Accepts env args opts configOpts targetFilepath sourceFilepaths := by
  constructor
  · rintro ⟨r, h⟩
    obtain ⟨opts, configOpts, targetFilepath, sourceFilepaths, _, _, haccepts, -⟩ := parseArgs_eq_ok_iff.mp h
    exact ⟨opts, configOpts, targetFilepath, sourceFilepaths, haccepts⟩
  · rintro ⟨opts, configOpts, targetFilepath, sourceFilepaths, h⟩
    obtain ⟨dataSources, hdataSources⟩ := exists_parseOdbcDataSources_iff.mpr h.dataSources.2
    obtain ⟨log, hlog⟩ := exists_setupLog_iff.mpr h.log
    exact ⟨_, parseArgs_eq_ok_iff.mpr ⟨opts, configOpts, targetFilepath, sourceFilepaths, dataSources, log, h,
      hdataSources, hlog, rfl⟩⟩

end Accepted

end Middle.Main
