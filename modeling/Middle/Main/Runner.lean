import Middle.Main.Options
import Middle.MiddleApp.MigratedTargets
import Middle.MiddleApp.PrefsFaults

/-! The run of the program (`middle_runner::run` and `main`), from the arguments to the exit status and the targets.
The environment is given: the files, the data sources, the XML parser, regular expressions and the clock. -/

namespace Middle.Main

open Lib Universals NormalDdl SqlsvrDdl MiddleApp

/-- What a run depends on. -/
structure Environment extends ArgsEnvironment where
  /-- Opening a log file for its first record, with the `what()` of what it throws. -/
  openLog : Text → Option Text
  /-- What is read behind the last child of a property tree. -/
  pastEnd : Option (Text × Ptree)
  connect : SqlsvrDdlOdbcDataSource → Except Text Connection
  /-- `std::regex`: the texts that an expression is found in, or the `what()` of what it throws. -/
  regex : Text → Except Text (Text → Bool)
  parse : XercesDomParser
  /-- `create_directories`, with the `what()` of what it throws. -/
  createDirectories : Text → Option Text
  createNone : createDirectories [] ≠ none
  /-- The regular files that the directory iterator visits. -/
  regularFiles : DdlSourceRoot → List Text
  below : ∀ srcRoot, ∀ filepath ∈ regularFiles srcRoot, srcRoot.genericString <+: filepath
  /-- The `what()` of what the directory iterator throws behind these files, if it does. -/
  iteratorThrows : DdlSourceRoot → Option Text
  /-- Making the directories of the target of a source file, or of the batch of a source root, and opening it. -/
  openTarget : Text → Except Fault Bool
  /-- What the header of the target of a source file, or of the batch of a source root, says. -/
  migratedBy : Text → MigratedBy

/-- How the program ends. -/
inductive Ending where
  /-- `run` returns 0. -/
  | finished
  /-- What is asked for is put on the standard output. -/
  | informed (what : Text)
  /-- The exit status is 1 and the message is put on the standard error stream. -/
  | failed (msg : Text)
  /-- A failed assertion, or an operation that is not defined. -/
  | fault (e : Fault)
  /-- An exception that nothing catches. -/
  | uncaught (what : Text)
  deriving DecidableEq

/-- `boost::replace_all`. -/
def replaceAll (needle replacement : Text) : Text → Text
  | [] => []
  | c :: s =>
      if needle <+: c :: s then replacement ++ replaceAll needle replacement (s.drop (needle.length - 1))
      else c :: replaceAll needle replacement s
termination_by s => s.length
decreasing_by
  · simp only [List.length_drop, List.length_cons]
    omega
  · simp

namespace MiddleRunner

variable (env : Environment) (r : MiddleRunner)

/-- `get_table_migrator_prefs`. -/
def getTableMigratorPrefs : Except Fault DdlTableMigratorPrefs :=
  match r.jsonPrefsIs with
  | none => .ok ⟨∅, ∅⟩
  | some (.error what) => .error (.prefsError ("can't parse JSON prefs: ".toList ++ what))
  | some (.ok prefRoot) => readTableMigratorPrefs env.pastEnd prefRoot

/-- The message about preferences, with the file. -/
def withJsonPrefsFile (what : Text) : Text :=
  let unspecified := "<unspecified file>".toList
  if find what unspecified 0 ≠ none then
    replaceAll unspecified ("file '".toList ++ r.jsonPrefsFile ++ "'".toList) what
  else "file '".toList ++ r.jsonPrefsFile ++ "': ".toList ++ what

/-- What `BOOST_LOG_TRIVIAL` throws: the first record that the filter lets through opens the log file. -/
def logRecord (severity : SeverityLevel) : Option Text :=
  r.log.bind fun log => if log.level ≤ severity then env.openLog log.logfile else none

/-- A message that is logged and put on the standard error stream. -/
def failed (msg : Text) : Ending :=
  match r.logRecord env .fatal with
  | some what => .uncaught what
  | none => .failed msg

/-- What `run` does with an exception, other than those about data sources. -/
def caught : Fault → Ending
  | .prefsError what =>
      if r.jsonPrefsFile = [] then .fault .assertion
      else
        r.failed env ("caught ddl_table_migrator_prefs_error: ".toList ++ r.withJsonPrefsFile what ++ "\n".toList)
  | e =>
      match exceptionWhat e with
      | some what => r.failed env ("caught std::exception: ".toList ++ what ++ "\n".toList)
      | none => .fault e

/-- The line about a data source. -/
def connectionErrorLine (error : SqlsvrDdlConnectionError) : Except Fault Text :=
  match r.dataSources[error.connPos]? with
  | none => .error .assertion
  | some dataSource => .ok ("ODBC data-source ".toList ++ dataSource.dsName ++ ": ".toList ++ error.msg ++ "\n".toList)

/-- What `run` does with `sqlsvr_ddl_connection_errors`. -/
def caughtConnectionErrors (errors : List SqlsvrDdlConnectionError) : Ending :=
  if errors = [] then .fault .assertion
  else
    match r.logRecord env .fatal with
    | some what => .uncaught what
    | none =>
        match errors.mapM r.connectionErrorLine with
        | .error e => .fault e
        | .ok lines => .failed ("caught ".toList ++ lexicalCast errors.length ++
            " sqlsvr_ddl_connection_errors: \n".toList ++ lines.flatten)

/-- `regex_compile_include_paths` and `regex_compile_exclude_paths`. -/
def regexCompilePaths (pathPatts : List Text) : Except Fault (List (Text → Bool)) :=
  pathPatts.mapM fun pathPatt => (env.regex pathPatt).mapError .runtimeError

/-- The part of `mass_migrate_ddl` that makes the directories of a target root that is not there. -/
def makeTargetRoot : Except Fault Unit :=
  if env.fs.status r.targetRoot = .notFound then
    match env.createDirectories r.targetRoot with
    | some what => .error (.runtimeError what)
    | none => .ok ()
  else .ok ()

/-- The source roots that are iterated over, and the one behind them whose iterator throws. -/
def iterated : List DdlSourceRoot → List DdlSourceRoot × Option (DdlSourceRoot × Text)
  | [] => ([], none)
  | srcRoot :: srcRoots =>
      match env.iteratorThrows srcRoot with
      | some what => ([], some (srcRoot, what))
      | none => (srcRoot :: (iterated srcRoots).1, (iterated srcRoots).2)

/-- The files that are visited in a source root. -/
def rootFiles (srcRoot : DdlSourceRoot) : List SourceFile :=
  (env.regularFiles srcRoot).map fun filepath =>
    ⟨srcRoot, filepath, readSource env.parse filepath, env.openTarget filepath⟩

/-- The files of the source roots. -/
def sourceFiles : List (List SourceFile) := r.srcRoots.map (rootFiles env)

/-- A source root with its batch. -/
def batchSrcRoot (srcRoot : DdlSourceRoot) : BatchSrcRoot where
  srcRoot := srcRoot
  filepaths := env.regularFiles srcRoot
  openTarget := env.openTarget srcRoot.genericString
  migratedBy := env.migratedBy srcRoot.genericString
  below := env.below srcRoot

/-- The target of a source file with its header; the names that were migrated do not matter any more. -/
def written (write : TargetWrite) : BatchWrite where
  target := write.target
  file := write.ddl.map (DdlTargetMassMigrator.file ⟨[write.source], false, ⟨∅, false, ∅⟩, [], unnumbered_nil⟩
    (env.migratedBy write.source))

section Run

variable (prefs : DdlTableMigratorPrefs) (fuel : Nat)

/-- The loop of `mass_migrate_ddl` in batches. Behind the source roots that are iterated over, the files of one whose
iterator throws are still validated. -/
def massMigrateBatches (includePathRegexs excludePathRegexs : List (Text → Bool)) (q : SqlsvrDdlQueries) :
    List BatchWrite × Except Fault SqlsvrDdlQueries :=
  let run := massMigrateBatchSrcRoots (HsqldbTableMigrator.factory prefs fuel) env.parse includePathRegexs
    excludePathRegexs r.targetRoot ((iterated env r.srcRoots).1.map (batchSrcRoot env)) q
  let behind (q : SqlsvrDdlQueries) : Except Fault SqlsvrDdlQueries :=
    match (iterated env r.srcRoots).2 with
    | none => .ok q
    | some (srcRoot, what) => do
        let _ ← (env.regularFiles srcRoot).foldlM (@BatchSrcRoot.validateFile HsqldbTableMigrator env.parse
          includePathRegexs excludePathRegexs (batchSrcRoot env srcRoot)) ({}, q)
        throw (.runtimeError what)
  (run.1, run.2 >>= behind)

/-- The loop of `mass_migrate_ddl` without batches, up to where an iterator throws. -/
def massMigrateSources (includePathRegexs excludePathRegexs : List (Text → Bool)) (q : SqlsvrDdlQueries) :
    List BatchWrite × Except Fault SqlsvrDdlQueries :=
  let srcRoots := (iterated env r.srcRoots).1 ++ ((iterated env r.srcRoots).2.map Prod.fst).toList
  let run := massMigrateSrcRoots (HsqldbTableMigrator.factory prefs fuel) includePathRegexs excludePathRegexs
    r.targetRoot (srcRoots.map (rootFiles env)) q
  let behind (q : SqlsvrDdlQueries) : Except Fault SqlsvrDdlQueries :=
    match (iterated env r.srcRoots).2 with
    | none => .ok q
    | some (_, what) => .error (.runtimeError what)
  (run.1.map (written env), run.2 >>= behind)

/-- `mass_migrate_ddl`. -/
def massMigrateDdl (q : SqlsvrDdlQueries) : List BatchWrite × Except Fault SqlsvrDdlQueries :=
  let compiled : Except Fault (List (Text → Bool) × List (Text → Bool)) := do
    r.makeTargetRoot env
    let includePathRegexs ← regexCompilePaths env r.includePathPatts
    let excludePathRegexs ← regexCompilePaths env r.excludePathPatts
    return (includePathRegexs, excludePathRegexs)
  match compiled with
  | .error e => ([], .error e)
  | .ok (includePathRegexs, excludePathRegexs) =>
      if r.batchSources then r.massMigrateBatches env prefs fuel includePathRegexs excludePathRegexs q
      else r.massMigrateSources env prefs fuel includePathRegexs excludePathRegexs q

/-- `run`. -/
def run : List BatchWrite × Ending :=
  match r.logRecord env .info with
  | some what => ([], .uncaught what)
  | none =>
      match r.getTableMigratorPrefs env with
      | .error e => ([], r.caught env e)
      | .ok prefs =>
          match SqlsvrDdlQueries.make env.connect r.dataSources with
          | .error e => ([], r.caught env e)
          | .ok (.error errors) => ([], r.caughtConnectionErrors env errors)
          | .ok (.ok q) =>
              match r.massMigrateDdl env prefs fuel q with
              | (writes, .error e) => (writes, r.caught env e)
              | (writes, .ok _) => (writes, .finished)

end Run

end MiddleRunner

/-- `main`. -/
def main (env : Environment) (args : List Text) (fuel : Nat) : List BatchWrite × Ending :=
  match parseArgs env.toArgsEnvironment args with
  | .error (.middleOpts what true) => ([], .informed what)
  | .error (.middleOpts what false) => ([], .failed (what ++ "\n".toList))
  | .error (.other what) => ([], .uncaught what)
  | .ok r => r.run env fuel

/-! ### How a run ends -/

/-- The target of a source file can be opened, and its names can be migrated with nothing rejected before. -/
def EndsAlone (includePathRegexs excludePathRegexs : List (Text → Bool)) (prefs : DdlTableMigratorPrefs) (fuel : Nat)
    (q : SqlsvrDdlQueries) (file : SourceFile) : Prop :=
  ∀ names ∈ file.usedNames includePathRegexs excludePathRegexs, file.openTarget = .ok true ∧
    ∃ migrated, massMigrateTargetDdl (HsqldbTableMigrator.factory prefs fuel) names.2 q = .ok migrated

section Files

variable {includePathRegexs excludePathRegexs : List (Text → Bool)} {targetRoot : Text}
  {prefs : DdlTableMigratorPrefs} {fuel : Nat} {q : SqlsvrDdlQueries}

/-- A file ends behind others exactly when it ends alone. -/
theorem massMigrate_hideAll_cases {file : SourceFile} {names : Option (Text × SqlsvrDdlStnamesMigrator)}
    (hread : file.readNames includePathRegexs excludePathRegexs = .ok names) (L : Finset DdlStcname) :
    (EndsAlone includePathRegexs excludePathRegexs prefs fuel q file ∧ ∃ writes L',
      file.massMigrate (HsqldbTableMigrator.factory prefs fuel) includePathRegexs excludePathRegexs targetRoot
        (q.hideAll L) = (writes, .ok (q.hideAll L'))) ∨
    (¬ EndsAlone includePathRegexs excludePathRegexs prefs fuel q file ∧ ∃ writes e,
      file.massMigrate (HsqldbTableMigrator.factory prefs fuel) includePathRegexs excludePathRegexs targetRoot
        (q.hideAll L) = (writes, .error e)) := by
  unfold EndsAlone SourceFile.usedNames SourceFile.massMigrate
  rw [hread]
  cases names with
  | none => exact .inl ⟨fun _ h => (nomatch h), [], L, rfl⟩
  | some names =>
      obtain ⟨filepathMirror, m⟩ := names
      dsimp only
      by_cases hused : m.stnameUsedcols.keys = []
      · rw [if_pos hused, if_pos hused]
        exact .inl ⟨fun _ h => (nomatch h), [], L, rfl⟩
      rw [if_neg hused, if_neg hused]
      simp only [Option.mem_def, Option.some_inj, forall_eq']
      cases hopen : file.openTarget with
      | error e => exact .inr ⟨fun h => (nomatch h.1), _, _, rfl⟩
      | ok opened =>
          cases opened with
          | false => exact .inr ⟨fun h => (nomatch h.1), _, _, rfl⟩
          | true =>
              dsimp only
              have halone := (massMigrateTargetDdl_narrowsTo prefs fuel m q L).exists_ok_iff
              cases hmigrated : massMigrateTargetDdl (HsqldbTableMigrator.factory prefs fuel) m (q.hideAll L) with
              | error e =>
                  refine .inr ⟨fun h => ?_, _, _, rfl⟩
                  obtain ⟨_, hbehind⟩ := halone.mpr h.2
                  rw [hmigrated] at hbehind
                  cases hbehind
              | ok behind =>
                  obtain ⟨target, q'⟩ := behind
                  have hq' := queries_of_massMigrateTargetDdl hmigrated
                  rw [SqlsvrDdlQueries.hideAll_hideAll] at hq'
                  subst hq'
                  exact .inl ⟨⟨rfl, halone.mp ⟨_, hmigrated⟩⟩, _, _, rfl⟩

/-- The loop over files behind others ends exactly when each file ends alone. -/
theorem exists_massMigrateFiles_eq_ok_iff {files : List SourceFile}
    (hread : ∀ file ∈ files, ∃ names, file.readNames includePathRegexs excludePathRegexs = .ok names)
    (L : Finset DdlStcname) :
    (∃ q', (massMigrateFiles (HsqldbTableMigrator.factory prefs fuel) includePathRegexs excludePathRegexs targetRoot
      files (q.hideAll L)).2 = .ok q') ↔
      ∀ file ∈ files, EndsAlone includePathRegexs excludePathRegexs prefs fuel q file := by
  induction files generalizing L with
  | nil => exact iff_of_true ⟨_, rfl⟩ (List.forall_mem_nil _)
  | cons file files ih =>
      rw [List.forall_mem_cons] at hread
      obtain ⟨⟨names, hnames⟩, hread⟩ := hread
      rw [List.forall_mem_cons, massMigrateFiles]
      obtain ⟨hends, writes, L', hrun⟩ | ⟨hends, writes, e, hrun⟩ :=
        @massMigrate_hideAll_cases _ _ targetRoot prefs fuel q _ _ hnames L
      · rw [hrun, and_iff_right hends]
        exact ih hread L'
      · rw [hrun]
        refine iff_of_false ?_ fun h => hends h.1
        rintro ⟨_, h⟩
        cases h

end Files

section Finished

variable {env : Environment} {r : MiddleRunner} {prefs : DdlTableMigratorPrefs} {fuel : Nat} {q : SqlsvrDdlQueries}

theorem readNames_sourceFiles (includePathRegexs excludePathRegexs : List (Text → Bool)) {file : SourceFile}
    (hfile : file ∈ (r.sourceFiles env).flatten) :
    ∃ names, file.readNames includePathRegexs excludePathRegexs = .ok names := by
  obtain ⟨files, hfiles, hfile⟩ := List.mem_flatten.mp hfile
  obtain ⟨srcRoot, -, rfl⟩ := List.mem_map.mp hfiles
  obtain ⟨filepath, hfilepath, rfl⟩ := List.mem_map.mp hfile
  obtain ⟨names, hnames, -⟩ := readNames_eq (env.below srcRoot filepath hfilepath)
  exact ⟨names, hnames⟩

/-- The directories of the empty path cannot be made. -/
theorem targetRoot_ne_nil (h : r.makeTargetRoot env = .ok ()) : r.targetRoot ≠ [] := by
  intro hnil
  unfold MiddleRunner.makeTargetRoot at h
  rw [hnil, if_pos env.fs.empty] at h
  split at h
  · cases h
  · rename_i hmade
    exact env.createNone hmade

theorem iterated_snd_eq_none_iff {srcRoots : List DdlSourceRoot} :
    (MiddleRunner.iterated env srcRoots).2 = none ↔ ∀ srcRoot ∈ srcRoots, env.iteratorThrows srcRoot = none := by
  induction srcRoots with
  | nil => exact iff_of_true rfl (List.forall_mem_nil _)
  | cons srcRoot srcRoots ih =>
      rw [MiddleRunner.iterated, List.forall_mem_cons, ← ih]
      cases env.iteratorThrows srcRoot with
      | some what => exact iff_of_false (fun h => nomatch h) fun h => nomatch h.1
      | none => exact (and_iff_right rfl).symm

theorem iterated_fst_of_snd_eq_none {srcRoots : List DdlSourceRoot}
    (h : (MiddleRunner.iterated env srcRoots).2 = none) : (MiddleRunner.iterated env srcRoots).1 = srcRoots := by
  induction srcRoots with
  | nil => rfl
  | cons srcRoot srcRoots ih =>
      rw [MiddleRunner.iterated] at h ⊢
      cases hthrows : env.iteratorThrows srcRoot with
      | some what =>
          rw [hthrows] at h
          cases h
      | none =>
          rw [hthrows] at h
          exact congrArg (srcRoot :: ·) (ih h)

/-- The loop over the files ends when no iterator throws and it ends for the files of all source roots. -/
theorem massMigrateSources_eq_ok_iff (hroot : r.targetRoot ≠ [])
    {includePathRegexs excludePathRegexs : List (Text → Bool)} {writes : List BatchWrite} {q' : SqlsvrDdlQueries} :
    r.massMigrateSources env prefs fuel includePathRegexs excludePathRegexs q = (writes, .ok q') ↔
      (∀ srcRoot ∈ r.srcRoots, env.iteratorThrows srcRoot = none) ∧
        ∃ run, massMigrateFiles (HsqldbTableMigrator.factory prefs fuel) includePathRegexs excludePathRegexs
            r.targetRoot (r.sourceFiles env).flatten q = (run, .ok q') ∧
          writes = run.map (MiddleRunner.written env) := by
  rw [← iterated_snd_eq_none_iff]
  unfold MiddleRunner.massMigrateSources massMigrateSrcRoots
  dsimp only
  rw [if_neg hroot, Prod.mk.injEq, bind_eq_ok_iff]
  cases hthrown : (MiddleRunner.iterated env r.srcRoots).2 with
  | some thrown =>
      refine iff_of_false ?_ fun h => nomatch h.1
      rintro ⟨-, _, -, h⟩
      cases h
  | none =>
      rw [iterated_fst_of_snd_eq_none hthrown, and_iff_right rfl]
      dsimp only [Option.map_none, Option.toList_none]
      rw [List.append_nil]
      constructor
      · rintro ⟨rfl, _, hrun, ⟨⟩⟩
        exact ⟨_, Prod.ext rfl hrun, rfl⟩
      · rintro ⟨run, hrun, rfl⟩
        unfold MiddleRunner.sourceFiles at hrun
        rw [hrun]
        exact ⟨rfl, q', rfl, rfl⟩

/-- What the loop over the files is run with, when nothing ends the run in front of it. -/
theorem massMigrateDdl_eq_ok_iff (hbatch : r.batchSources = false) {writes : List BatchWrite}
    {q' : SqlsvrDdlQueries} :
    r.massMigrateDdl env prefs fuel q = (writes, .ok q') ↔
      r.makeTargetRoot env = .ok () ∧ (∀ srcRoot ∈ r.srcRoots, env.iteratorThrows srcRoot = none) ∧
        ∃ includePathRegexs excludePathRegexs,
          MiddleRunner.regexCompilePaths env r.includePathPatts = .ok includePathRegexs ∧
          MiddleRunner.regexCompilePaths env r.excludePathPatts = .ok excludePathRegexs ∧
          ∃ run, massMigrateFiles (HsqldbTableMigrator.factory prefs fuel) includePathRegexs excludePathRegexs
              r.targetRoot (r.sourceFiles env).flatten q = (run, .ok q') ∧
            writes = run.map (MiddleRunner.written env) := by
  unfold MiddleRunner.massMigrateDdl
  cases hmade : r.makeTargetRoot env with
  | error e => exact iff_of_false (fun h => nomatch h) fun h => nomatch h.1
  | ok made =>
      rw [and_iff_right rfl, hbatch]
      have hroot := targetRoot_ne_nil hmade
      cases hinclude : MiddleRunner.regexCompilePaths env r.includePathPatts with
      | error e =>
          refine iff_of_false (fun h => nomatch h) ?_
          rintro ⟨-, _, _, h, -⟩
          cases h
      | ok includePathRegexs =>
          cases hexclude : MiddleRunner.regexCompilePaths env r.excludePathPatts with
          | error e =>
              refine iff_of_false (fun h => nomatch h) ?_
              rintro ⟨-, _, _, -, h, -⟩
              cases h
          | ok excludePathRegexs =>
              refine (massMigrateSources_eq_ok_iff hroot).trans (and_congr_right fun _ => ?_)
              constructor
              · exact fun h => ⟨_, _, rfl, rfl, h⟩
              · rintro ⟨_, _, ⟨⟩, ⟨⟩, h⟩
                exact h

theorem failed_ne_finished (msg : Text) : r.failed env msg ≠ .finished := by
  unfold MiddleRunner.failed
  split <;> exact fun h => nomatch h

theorem caught_ne_finished (e : Fault) : r.caught env e ≠ .finished := by
  unfold MiddleRunner.caught
  split
  · split
    · exact fun h => nomatch h
    · exact failed_ne_finished _
  · split
    · exact failed_ne_finished _
    · exact fun h => nomatch h

theorem caughtConnectionErrors_ne_finished (errors : List SqlsvrDdlConnectionError) :
    r.caughtConnectionErrors env errors ≠ .finished := by
  unfold MiddleRunner.caughtConnectionErrors
  split
  · exact fun h => nomatch h
  · split
    · exact fun h => nomatch h
    · split <;> exact fun h => nomatch h

theorem run_eq_finished_iff {writes : List BatchWrite} :
    r.run env fuel = (writes, .finished) ↔ r.logRecord env .info = none ∧
      ∃ prefs q q', r.getTableMigratorPrefs env = .ok prefs ∧
        SqlsvrDdlQueries.make env.connect r.dataSources = .ok (.ok q) ∧
        r.massMigrateDdl env prefs fuel q = (writes, .ok q') := by
  unfold MiddleRunner.run
  cases r.logRecord env .info with
  | some what => exact iff_of_false (fun h => nomatch (Prod.ext_iff.mp h).2) fun h => nomatch h.1
  | none =>
      rw [and_iff_right rfl]
      cases hprefs : r.getTableMigratorPrefs env with
      | error e =>
          refine iff_of_false (fun h => caught_ne_finished e (Prod.ext_iff.mp h).2) ?_
          rintro ⟨_, _, _, h, -⟩
          cases h
      | ok prefs =>
          dsimp only
          cases hmake : SqlsvrDdlQueries.make env.connect r.dataSources with
          | error e =>
              refine iff_of_false (fun h => caught_ne_finished e (Prod.ext_iff.mp h).2) ?_
              rintro ⟨_, _, _, -, h, -⟩
              cases h
          | ok made =>
              cases made with
              | error errors =>
                  refine iff_of_false (fun h => caughtConnectionErrors_ne_finished errors (Prod.ext_iff.mp h).2) ?_
                  rintro ⟨_, _, _, -, h, -⟩
                  cases h
              | ok q =>
                  dsimp only
                  cases hrun : r.massMigrateDdl env prefs fuel q with
                  | mk writes' result =>
                      cases result with
                      | error e =>
                          refine iff_of_false (fun h => caught_ne_finished e (Prod.ext_iff.mp h).2) ?_
                          rintro ⟨_, _, _, ⟨⟩, ⟨⟩, h⟩
                          rw [hrun] at h
                          cases h
                      | ok q' =>
                          constructor
                          · rintro ⟨⟩
                            exact ⟨prefs, q, q', rfl, rfl, hrun⟩
                          · rintro ⟨_, _, _, ⟨⟩, ⟨⟩, h⟩
                            rw [hrun] at h
                            cases h
                            rfl

theorem main_eq_run {args : List Text} (h : parseArgs env.toArgsEnvironment args = .ok r) :
    main env args fuel = r.run env fuel := by
  unfold main
  rw [h]

theorem main_eq_finished_iff {args : List Text} {writes : List BatchWrite} :
    main env args fuel = (writes, .finished) ↔
      ∃ r, parseArgs env.toArgsEnvironment args = .ok r ∧ r.run env fuel = (writes, .finished) := by
  unfold main
  cases parseArgs env.toArgsEnvironment args with
  | error e =>
      constructor
      · intro h
        cases e with
        | other what => cases h
        | middleOpts what notAnError =>
            cases notAnError with
            | false => cases h
            | true => cases h
      · rintro ⟨_, h, -⟩
        cases h
  | ok r => simp

theorem batchSources_of_parseArgs {args : List Text} (h : parseArgs env.toArgsEnvironment args = .ok r) :
    r.batchSources = false ∧ r.jsonPrefsFile = [] := by
  obtain ⟨_, _, _, _, _, _, -, -, -, rfl⟩ := parseArgs_eq_ok_iff.mp h
  exact ⟨rfl, rfl⟩

/-- The program finishes exactly when the arguments are accepted, the log can be opened, the preferences can be read,
all data sources can be loaded, the target root is there or can be made, the patterns are regular expressions, the
iterators do not throw and each of the source files could be migrated as the only one. -/
theorem exists_main_eq_finished_iff (env : Environment) (args : List Text) (fuel : Nat) :
    (∃ writes, main env args fuel = (writes, .finished)) ↔
      ∃ r prefs q includePathRegexs excludePathRegexs, parseArgs env.toArgsEnvironment args = .ok r ∧
        r.logRecord env .info = none ∧ r.getTableMigratorPrefs env = .ok prefs ∧
        SqlsvrDdlQueries.make env.connect r.dataSources = .ok (.ok q) ∧ r.makeTargetRoot env = .ok () ∧
        MiddleRunner.regexCompilePaths env r.includePathPatts = .ok includePathRegexs ∧
        MiddleRunner.regexCompilePaths env r.excludePathPatts = .ok excludePathRegexs ∧
        (∀ srcRoot ∈ r.srcRoots, env.iteratorThrows srcRoot = none) ∧
        ∀ file ∈ (r.sourceFiles env).flatten, EndsAlone includePathRegexs excludePathRegexs prefs fuel q file := by
  constructor
  · rintro ⟨writes, h⟩
    obtain ⟨r, hargs, hrun⟩ := main_eq_finished_iff.mp h
    obtain ⟨hlog, prefs, q, q', hprefs, hmake, hmigrate⟩ := run_eq_finished_iff.mp hrun
    obtain ⟨hroot, hiterated, includePathRegexs, excludePathRegexs, hinclude, hexclude, run, hfiles, -⟩ :=
      (massMigrateDdl_eq_ok_iff (batchSources_of_parseArgs hargs).1).mp hmigrate
    refine ⟨r, prefs, q, _, _, hargs, hlog, hprefs, hmake, hroot, hinclude, hexclude, hiterated, ?_⟩
    rw [← q.hideAll_empty] at hfiles
    exact (exists_massMigrateFiles_eq_ok_iff (fun file hfile => readNames_sourceFiles _ _ hfile) ∅).mp
      ⟨q', (Prod.ext_iff.mp hfiles).2⟩
  · rintro ⟨r, prefs, q, includePathRegexs, excludePathRegexs, hargs, hlog, hprefs, hmake, hroot, hinclude, hexclude,
      hiterated, hends⟩
    obtain ⟨q', hfiles⟩ := (@exists_massMigrateFiles_eq_ok_iff _ _ r.targetRoot prefs fuel q _
      (fun file hfile => readNames_sourceFiles _ _ hfile) ∅).mpr hends
    rw [q.hideAll_empty] at hfiles
    have hmigrate := (massMigrateDdl_eq_ok_iff (batchSources_of_parseArgs hargs).1).mpr
      ⟨hroot, hiterated, _, _, hinclude, hexclude, _, Prod.ext rfl hfiles, rfl⟩
    exact ⟨_, main_eq_finished_iff.mpr
      ⟨r, hargs, run_eq_finished_iff.mpr ⟨hlog, prefs, q, q', hprefs, hmake, hmigrate⟩⟩⟩

/-! ### Preferences that cannot be read -/

theorem error_of_getTableMigratorPrefs {e : Fault} (h : r.getTableMigratorPrefs env = .error e) :
    (∃ what, e = .prefsError what) ∨ e = .assertion ∨ e = .undefined ∧ env.pastEnd = none := by
  unfold MiddleRunner.getTableMigratorPrefs at h
  split at h
  · cases h
  · cases h
    exact .inl ⟨_, rfl⟩
  · exact error_of_readTableMigratorPrefs h

/-- Nothing is said about preferences that cannot be read: as no option stores the name of their file, the program ends
in the assertion that there is one, if it is not ended before where the reader trips an assertion or reads behind the
last child of a node. -/
theorem main_of_refused_prefs {args : List Text} (hargs : parseArgs env.toArgsEnvironment args = .ok r)
    (hlog : r.logRecord env .info = none) (hprefs : ∀ prefs, r.getTableMigratorPrefs env ≠ .ok prefs) (fuel : Nat) :
    main env args fuel = ([], .fault .assertion) ∨
      env.pastEnd = none ∧ main env args fuel = ([], .fault .undefined) := by
  rw [main_eq_run hargs]
  unfold MiddleRunner.run
  rw [hlog]
  dsimp only
  cases hread : r.getTableMigratorPrefs env with
  | ok prefs => exact absurd hread (hprefs prefs)
  | error e =>
      dsimp only
      obtain ⟨what, rfl⟩ | rfl | ⟨rfl, hpast⟩ := error_of_getTableMigratorPrefs hread
      · left
        unfold MiddleRunner.caught
        dsimp only
        rw [if_pos (batchSources_of_parseArgs hargs).2]
      · exact .inl rfl
      · exact .inr ⟨hpast, rfl⟩

/-! ### Data sources that cannot be loaded -/

/-- What is reported about the data sources names each of them that it is about, and no assertion fails on the way.
It is about all data sources that cannot be connected to, and when there are none of these it is what the loaders
report. -/
theorem main_of_connectionErrors {args : List Text} {errors : List SqlsvrDdlConnectionError}
    (hargs : parseArgs env.toArgsEnvironment args = .ok r) (hlog : ∀ severity, r.logRecord env severity = none)
    (hprefs : r.getTableMigratorPrefs env = .ok prefs)
    (hmake : SqlsvrDdlQueries.make env.connect r.dataSources = .ok (.error errors)) (fuel : Nat) :
    ∃ lines, main env args fuel = ([], .failed ("caught ".toList ++ lexicalCast errors.length ++
        " sqlsvr_ddl_connection_errors: \n".toList ++ lines.flatten)) ∧
      List.Forall₂ (fun error line => ∃ dataSource, r.dataSources[error.connPos]? = some dataSource ∧
        line = "ODBC data-source ".toList ++ dataSource.dsName ++ ": ".toList ++ error.msg ++ "\n".toList)
        errors lines ∧
      (errors = SqlsvrDdlQueries.connectionFailures env.connect r.dataSources ∨
        ∃ conns q, r.dataSources.map env.connect = conns.map Except.ok ∧
          SqlsvrDdlQueries.loadMappers conns = .ok (q, errors) ∧ ∀ error ∈ errors, 0 < error.connPos) := by
  obtain ⟨hne, hpos, hwhich⟩ := SqlsvrDdlQueries.make_eq_ok_error hmake
  let line (error : SqlsvrDdlConnectionError) : Text :=
    "ODBC data-source ".toList ++ ((r.dataSources[error.connPos]?).elim [] SqlsvrDdlOdbcDataSource.dsName) ++
      ": ".toList ++ error.msg ++ "\n".toList
  have hline : ∀ error ∈ errors, r.connectionErrorLine error = .ok (line error) := by
    intro error herror
    unfold MiddleRunner.connectionErrorLine
    unfold line
    rw [List.getElem?_eq_getElem (hpos error herror)]
    rfl
  refine ⟨errors.map line, ?_, ?_, hwhich⟩
  · rw [main_eq_run hargs]
    unfold MiddleRunner.run
    rw [hlog, hprefs]
    dsimp only
    rw [hmake]
    dsimp only
    unfold MiddleRunner.caughtConnectionErrors
    rw [if_neg hne, hlog]
    dsimp only
    rw [mapM_eq_ok_map hline]
  · rw [List.forall₂_map_right_iff, List.forall₂_same]
    intro error herror
    refine ⟨_, List.getElem?_eq_getElem (hpos error herror), ?_⟩
    unfold line
    rw [List.getElem?_eq_getElem (hpos error herror)]
    rfl

/-! ### The targets of a run -/

theorem ddlNames_of_usedNames {includePathRegexs excludePathRegexs : List (Text → Bool)} {file : SourceFile}
    {names : Text × SqlsvrDdlStnamesMigrator}
    (h : file.usedNames includePathRegexs excludePathRegexs = some names) :
    file.ddlNames = .ok (some names.2) ∧ names.2.stnameUsedcols.keys ≠ [] := by
  unfold SourceFile.usedNames at h
  split at h
  · rename_i names' hread
    split at h
    · cases h
    · rename_i hkeys
      obtain rfl : names' = names := Option.some.inj h
      refine ⟨?_, hkeys⟩
      rw [SourceFile.readNames, bind_eq_ok] at hread
      obtain ⟨filepathMirror, -, hread⟩ := hread
      split at hread
      · rw [bind_eq_ok] at hread
        obtain ⟨ddlNames, hddl, hread⟩ := hread
        obtain ⟨m, rfl, hm⟩ := Option.map_eq_some_iff.mp (Except.ok.inj hread)
        rw [hddl, ← hm]
      · cases hread
  · cases h

/-- The source files that are selected and use tables, with their mirrored paths and the names in them. -/
def usedSources (env : Environment) (r : MiddleRunner) (includePathRegexs excludePathRegexs : List (Text → Bool)) :
    List (Text × Text × SqlsvrDdlStnamesMigrator) :=
  (r.sourceFiles env).flatten.filterMap fun file =>
    (file.usedNames includePathRegexs excludePathRegexs).map (file.filepath, ·)

theorem readSource_of_mem_usedSources {includePathRegexs excludePathRegexs : List (Text → Bool)}
    {source : Text × Text × SqlsvrDdlStnamesMigrator}
    (h : source ∈ usedSources env r includePathRegexs excludePathRegexs) :
    readSource env.parse source.1 = .ok (some source.2.2) ∧ source.2.2.stnameUsedcols.keys ≠ [] := by
  obtain ⟨file, hfile, hsource⟩ := List.mem_filterMap.mp h
  obtain ⟨names, hnames, rfl⟩ := Option.map_eq_some_iff.mp hsource
  obtain ⟨files, hfiles, hfile⟩ := List.mem_flatten.mp hfile
  obtain ⟨srcRoot, -, rfl⟩ := List.mem_map.mp hfiles
  obtain ⟨filepath, -, rfl⟩ := List.mem_map.mp hfile
  exact ddlNames_of_usedNames hnames

end Finished

/-! ### Runs over `src/t.xml` -/

/-- The directories `src` and `t`. -/
def srcAndT : FileSystem where
  status p := if p = "src".toList ∨ p = "t".toList then .directory else .notFound
  empty := rfl
  below p hp hparent := by
    by_cases h : p = "src".toList ∨ p = "t".toList
    · rcases h with rfl | rfl
      · exact absurd (by decide) hparent
      · exact absurd (by decide) hparent
    · exact absurd (if_neg h) hp

/-- The dataset `src/t.xml` uses the table `dbo.t`, and there may be a file with preferences. Nothing is logged. -/
def environmentT (json : Option (Except Text Ptree)) : Environment where
  fs := srcAndT
  helpText := []
  appVersion := "1".toList
  parseCmdLine args := .ok
    { odbcDatasource := args
      jsonPrefsFile := json.map fun _ => "prefs.json".toList
      logFile := some []
      unrecognizedOpts := ["t".toList, "src".toList] }
  parseConfigFile _ := .ok {}
  openJson _ := json
  addFileLog _ := none
  openLog _ := none
  pastEnd := none
  connect := connectKeyed
  regex _ := .ok fun _ => true
  parse _ := .ok (some ⟨some ⟨"dataset".toList, [.element "t".toList []]⟩⟩)
  createDirectories _ := some "boost::filesystem::create_directories".toList
  createNone := Option.some_ne_none _
  regularFiles srcRoot := [srcRoot.genericString ++ "/t.xml".toList]
  below srcRoot filepath hfilepath := by
    obtain rfl := List.mem_singleton.mp hfilepath
    exact List.prefix_append _ _
  iteratorThrows _ := none
  openTarget _ := .ok true
  migratedBy _ := firstVersion

theorem main_of_refused_prefs_malformed :
    main (environmentT (some (.error "<unspecified file>(1): expected value".toList))) ["a:sa:".toList] 0 =
        ([], .fault .assertion) ∨
      (environmentT (some (.error "<unspecified file>(1): expected value".toList))).pastEnd = none ∧
        main (environmentT (some (.error "<unspecified file>(1): expected value".toList))) ["a:sa:".toList] 0 =
          ([], .fault .undefined) := by
  obtain ⟨r, hargs, hlog, hjson⟩ : ∃ r, parseArgs (environmentT (some (.error
      "<unspecified file>(1): expected value".toList))).toArgsEnvironment ["a:sa:".toList] = .ok r ∧
      r.log = none ∧ r.jsonPrefsIs = some (.error "<unspecified file>(1): expected value".toList) := ⟨_, rfl, rfl, rfl⟩
  refine main_of_refused_prefs hargs ?_ (fun prefs hprefs => ?_) 0
  · rw [MiddleRunner.logRecord, hlog]
    rfl
  · rw [MiddleRunner.getTableMigratorPrefs, hjson] at hprefs
    cases hprefs

/-- The tables of the last data source are defined by the one in front of it. -/
theorem main_of_connectionErrors_redefined : ∃ lines : List Text, main (environmentT none)
    ["a:sa:".toList, "b:sa:".toList, "c:sa:".toList] 0 = ([], .failed ("caught ".toList ++ lexicalCast 3 ++
        " sqlsvr_ddl_connection_errors: \n".toList ++ lines.flatten)) ∧ lines.length = 3 := by
  obtain ⟨r, errors, hargs, hlog, hprefs, hmake, hlength⟩ : ∃ r errors,
      parseArgs (environmentT none).toArgsEnvironment ["a:sa:".toList, "b:sa:".toList, "c:sa:".toList] = .ok r ∧
      r.log = none ∧ r.getTableMigratorPrefs (environmentT none) = .ok ⟨∅, ∅⟩ ∧
      SqlsvrDdlQueries.make connectKeyed r.dataSources = .ok (.error errors) ∧ errors.length = 3 :=
    ⟨_, _, rfl, rfl, rfl, rfl, rfl⟩
  have hlogs (severity : SeverityLevel) : r.logRecord (environmentT none) severity = none := by
    rw [MiddleRunner.logRecord, hlog]
    rfl
  obtain ⟨lines, hmain, hlines, -⟩ := main_of_connectionErrors hargs hlogs hprefs hmake 0
  rw [hlength] at hmain
  exact ⟨lines, hmain, hlines.length_eq ▸ hlength⟩

end Middle.Main
