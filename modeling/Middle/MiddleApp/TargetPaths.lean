import Middle.MiddleApp.MassMigrator

/-! The paths of the files that `ddl_mass_migrator` writes without batches. The path of a target is that of its
source below the target root, with another extension; no path is recorded as written. -/

namespace Middle.MiddleApp

open Lib Universals NormalDdl SqlsvrDdl

/-! ### Paths -/

/-- `ddl_source_root`. -/
structure DdlSourceRoot where
  graftedPath : Bool
  genericString : Text
  deriving DecidableEq

/-- `mirror_filepath`. -/
def mirrorFilepath (srcRoot : DdlSourceRoot) (filepath : Text) : Except Fault Text :=
  if srcRoot.graftedPath then .ok filepath
  else if find filepath srcRoot.genericString 0 = some 0 then .ok (filepath.drop srcRoot.genericString.length)
  else .error .assertion

/-- What stands before the last name on a path. -/
def parentPart (p : Text) : Text := p.rdropWhile (· ≠ '/')

/-- The last name on a path, which is empty behind a slash. -/
def filename (p : Text) : Text := p.rtakeWhile (· ≠ '/')

/-- A file name without its extension, which the two names of directories do not have. -/
def stem (name : Text) : Text :=
  if name = ".".toList ∨ name = "..".toList then name
  else match rfindDot name with
    | none => name
    | some pos => name.take pos

/-- `path::replace_extension`. -/
def replaceExtension (p newExtension : Text) : Text := parentPart p ++ stem (filename p) ++ newExtension

/-- `operator/` of two paths: a separator comes between them unless one of them brings it. -/
def slash (p q : Text) : Text :=
  if q = [] then p
  else if q.head? = some '/' ∨ p = [] ∨ p.getLast? = some '/' then p ++ q
  else p ++ '/' :: q

/-- `mirror_target_ddl_filepath`. -/
def mirrorTargetDdlFilepath (targetRoot filepathMirror : Text) : Text :=
  slash targetRoot (replaceExtension filepathMirror ".ddl".toList)

/-- The names on a path, without those that lead nowhere else. -/
def pathNames (p : Text) : List Text := (p.splitOn '/').filter fun name => name ≠ [] ∧ name ≠ ['.']

/-- Two spellings of one path. -/
def SamePath (p q : Text) : Prop := (p.head? = some '/' ↔ q.head? = some '/') ∧ pathNames p = pathNames q

/-- Two paths that differ at most in the extension of the file name. -/
def SameStem (p q : Text) : Prop :=
  pathNames (parentPart p) = pathNames (parentPart q) ∧ stem (filename p) = stem (filename q)

instance (p q : Text) : Decidable (SamePath p q) := inferInstanceAs (Decidable (_ ∧ _))

instance (p q : Text) : Decidable (SameStem p q) := inferInstanceAs (Decidable (_ ∧ _))

theorem pathNames_append_slash (p q : Text) : pathNames (p ++ '/' :: q) = pathNames p ++ pathNames q := by
  unfold pathNames
  rw [List.splitOn_append_cons_self, List.filter_append]

theorem pathNames_slash (p q : Text) : pathNames (slash p q) = pathNames p ++ pathNames q := by
  have hnil : pathNames [] = [] := rfl
  unfold slash
  split_ifs with hq hsep
  · rw [hq, hnil, List.append_nil]
  · obtain hhead | hp | hlast := hsep
    · obtain ⟨s, rfl⟩ : ∃ s, q = '/' :: s := List.head?_eq_some_iff.mp hhead
      have hdrop : pathNames ('/' :: s) = pathNames s := pathNames_append_slash [] s
      rw [pathNames_append_slash, hdrop]
    · rw [hp, hnil, List.nil_append, List.nil_append]
    · obtain ⟨s, rfl⟩ : ∃ s, p = s ++ ['/'] := List.getLast?_eq_some_iff.mp hlast
      have hdrop : pathNames (s ++ ['/']) = pathNames s := by
        rw [pathNames_append_slash, hnil, List.append_nil]
      rw [List.append_assoc, List.singleton_append, pathNames_append_slash, hdrop]
  · exact pathNames_append_slash p q

/-- What stands before the last name is empty or ends with the slash in front of it. -/
theorem parentPart_eq (p : Text) : parentPart p = [] ∨ ∃ s, parentPart p = s ++ ['/'] := by
  by_cases hnil : parentPart p = []
  · exact .inl hnil
  · have hslash : (parentPart p).getLast hnil = '/' := by
      have hlast := List.rdropWhile_last_not (fun c => decide (c ≠ '/')) p hnil
      exact not_not.mp fun hne => hlast (decide_eq_true hne)
    refine .inr ⟨(parentPart p).dropLast, ?_⟩
    rw [← hslash, List.dropLast_append_getLast]

theorem slash_notMem_filename (p : Text) : '/' ∉ filename p := by
  intro hmem
  have hne := List.mem_takeWhile_imp (List.mem_reverse.mp hmem)
  simp at hne

theorem slash_notMem_stem (p : Text) : '/' ∉ stem (filename p) := by
  intro hmem
  apply slash_notMem_filename p
  unfold stem at hmem
  split at hmem
  · exact hmem
  · split at hmem
    · exact hmem
    · exact List.mem_of_mem_take hmem

theorem pathNames_replaceExtension (p : Text) :
    pathNames (replaceExtension p ".ddl".toList) =
      pathNames (parentPart p) ++ [stem (filename p) ++ ".ddl".toList] := by
  have hname : pathNames (stem (filename p) ++ ".ddl".toList) = [stem (filename p) ++ ".ddl".toList] := by
    have hslash : '/' ∉ stem (filename p) ++ ".ddl".toList := by
      rw [List.mem_append, not_or]
      exact ⟨slash_notMem_stem p, by decide⟩
    have hlength : 4 ≤ (stem (filename p) ++ ".ddl".toList).length := by
      rw [List.length_append]
      exact Nat.le_add_left 4 _
    unfold pathNames
    rw [List.splitOn_eq_singleton hslash]
    apply List.filter_eq_self.mpr
    intro name hname
    rw [List.mem_singleton.mp hname]
    apply decide_eq_true
    constructor
    · intro h
      rw [h] at hlength
      exact absurd hlength (by decide)
    · intro h
      rw [h] at hlength
      exact absurd hlength (by decide)
  unfold replaceExtension
  rw [List.append_assoc]
  obtain hnil | ⟨s, hs⟩ := parentPart_eq p
  · rw [hnil]
    exact hname
  · rw [hs, List.append_assoc, List.singleton_append, pathNames_append_slash, pathNames_append_slash, hname]
    rw [show pathNames [] = [] from rfl, List.append_nil]

/-- Below a target root the targets of two paths are one exactly when the paths differ in the extension only. -/
theorem samePath_target_iff {targetRoot : Text} (hroot : targetRoot ≠ []) (p q : Text) :
    SamePath (mirrorTargetDdlFilepath targetRoot p) (mirrorTargetDdlFilepath targetRoot q) ↔ SameStem p q := by
  have hhead : ∀ m : Text, (slash targetRoot m).head? = targetRoot.head? := by
    intro m
    unfold slash
    split_ifs
    · rfl
    · exact List.head?_append_of_ne_nil _ hroot
    · exact List.head?_append_of_ne_nil _ hroot
  unfold SamePath mirrorTargetDdlFilepath
  rw [hhead, hhead, pathNames_slash, pathNames_slash, pathNames_replaceExtension, pathNames_replaceExtension]
  rw [List.append_cancel_left_eq]
  constructor
  · rintro ⟨-, hnames⟩
    obtain ⟨hparent, hname⟩ := List.append_inj' hnames rfl
    exact ⟨hparent, List.append_cancel_right (List.singleton_inj.mp hname)⟩
  · rintro ⟨hparent, hstem⟩
    rw [hparent, hstem]
    exact ⟨Iff.rfl, rfl⟩

/-! ### The files of a run -/

/-- `search_any_regex`; a regex is the set of texts it is found in. -/
def searchAnyRegex (against : Text) (searchRegexs : List (Text → Bool)) : Bool :=
  searchRegexs.any fun searchRegex => searchRegex against

/-- A regular file in a source root, with what the file system and the reader of names have to say about it at
the time it is visited. -/
structure SourceFile where
  srcRoot : DdlSourceRoot
  filepath : Text
  /-- `read_ddl_names`, with `none` for the parse error that skips the file. -/
  ddlNames : Except Fault (Option SqlsvrDdlStnamesMigrator)
  /-- Making the directories of the target and opening it. -/
  openTarget : Except Fault Bool

/-- A target that was opened for a source file, with what is written below its header unless an exception ends
the run there. -/
structure TargetWrite where
  source : Text
  target : Text
  ddl : Option TargetDdl

section Run

variable {σ : Type} (appTableMigratorFactory : DdlTableMigratorFactory σ)
  (includePathRegexs excludePathRegexs : List (Text → Bool)) (targetRoot : Text)

/-- The part of the loop of `mass_migrate_ddl` that finds and reads a source file: the mirrored path and the
names, with `none` for a file that is not selected or skipped. -/
def SourceFile.readNames (file : SourceFile) : Except Fault (Option (Text × SqlsvrDdlStnamesMigrator)) := do
  let filepathMirror ← mirrorFilepath file.srcRoot file.filepath
  if !searchAnyRegex filepathMirror excludePathRegexs &&
      (includePathRegexs.isEmpty || searchAnyRegex filepathMirror includePathRegexs) then
    let ddlNames ← file.ddlNames
    return ddlNames.map (filepathMirror, ·)
  else return none

/-- What the loop of `mass_migrate_ddl` does with a file. An exception of the migration leaves the target
opened. -/
def SourceFile.massMigrate (file : SourceFile) (q : SqlsvrDdlQueries) :
    List TargetWrite × Except Fault SqlsvrDdlQueries :=
  match file.readNames includePathRegexs excludePathRegexs with
  | .error e => ([], .error e)
  | .ok none => ([], .ok q)
  | .ok (some (filepathMirror, m)) =>
      if m.stnameUsedcols.keys = [] then ([], .ok q)
      else
        let target := mirrorTargetDdlFilepath targetRoot filepathMirror
        match file.openTarget with
        | .error e => ([], .error e)
        | .ok false => ([], .error (.runtimeError ("can't write target '".toList ++ target ++ ['\''])))
        | .ok true =>
            match massMigrateTargetDdl appTableMigratorFactory m q with
            | .error e => ([⟨file.filepath, target, none⟩], .error e)
            | .ok (ddl, q) => ([⟨file.filepath, target, ddl⟩], .ok q)

def massMigrateFiles : List SourceFile → SqlsvrDdlQueries → List TargetWrite × Except Fault SqlsvrDdlQueries
  | [], q => ([], .ok q)
  | file :: files, q =>
      match file.massMigrate appTableMigratorFactory includePathRegexs excludePathRegexs targetRoot q with
      | (writes, .error e) => (writes, .error e)
      | (writes, .ok q) =>
          let behind := massMigrateFiles files q
          (writes ++ behind.1, behind.2)

/-- `mass_migrate_ddl` without batches, given the files of each source root in the order of the iterator. There
are no directories to create for an empty path. -/
def massMigrateSrcRoots (srcRoots : List (List SourceFile)) (q : SqlsvrDdlQueries) :
    List TargetWrite × Except Fault SqlsvrDdlQueries :=
  if targetRoot = [] then ([], .error (.runtimeError "boost::filesystem::create_directories".toList))
  else massMigrateFiles appTableMigratorFactory includePathRegexs excludePathRegexs targetRoot srcRoots.flatten q

/-- The mirrored path and the names of a file that is selected and uses tables. -/
def SourceFile.usedNames (file : SourceFile) : Option (Text × SqlsvrDdlStnamesMigrator) :=
  match file.readNames includePathRegexs excludePathRegexs with
  | .ok (some names) => if names.2.stnameUsedcols.keys = [] then none else some names
  | _ => none

/-- Two different files that are selected and use tables differ in more than the extension. -/
def ApartMirrors {ι : Type} (fileAt : Text → ι) (files : List SourceFile) : Prop :=
  ∀ file ∈ files, ∀ file' ∈ files, fileAt file.filepath ≠ fileAt file'.filepath →
    ∀ names ∈ file.usedNames includePathRegexs excludePathRegexs,
      ∀ names' ∈ file'.usedNames includePathRegexs excludePathRegexs, ¬ SameStem names.1 names'.1

end Run

/-- No target is opened for two different source files. -/
def NoOverwrite {ι : Type} (fileAt : Text → ι) (writes : List TargetWrite) : Prop :=
  ∀ write ∈ writes, ∀ write' ∈ writes, fileAt write.source ≠ fileAt write'.source →
    ¬ SamePath write.target write'.target

section Apart

variable {σ : Type} {appTableMigratorFactory : DdlTableMigratorFactory σ}
  {includePathRegexs excludePathRegexs : List (Text → Bool)} {targetRoot : Text}

/-- A file opens no target, before an exception or when it is left out, or the one its names are migrated
into. -/
theorem massMigrate_cases (file : SourceFile) (q : SqlsvrDdlQueries) :
    (∃ e, file.massMigrate appTableMigratorFactory includePathRegexs excludePathRegexs targetRoot q =
      ([], .error e)) ∨
    (file.usedNames includePathRegexs excludePathRegexs = none ∧
      file.massMigrate appTableMigratorFactory includePathRegexs excludePathRegexs targetRoot q = ([], .ok q)) ∨
    ∃ names, file.usedNames includePathRegexs excludePathRegexs = some names ∧
      ((∃ e, file.massMigrate appTableMigratorFactory includePathRegexs excludePathRegexs targetRoot q =
          ([⟨file.filepath, mirrorTargetDdlFilepath targetRoot names.1, none⟩], .error e)) ∨
        ∃ ddl q', massMigrateTargetDdl appTableMigratorFactory names.2 q = .ok (ddl, q') ∧
          file.massMigrate appTableMigratorFactory includePathRegexs excludePathRegexs targetRoot q =
            ([⟨file.filepath, mirrorTargetDdlFilepath targetRoot names.1, ddl⟩], .ok q')) := by
  unfold SourceFile.massMigrate SourceFile.usedNames
  cases file.readNames includePathRegexs excludePathRegexs with
  | error e => exact .inl ⟨e, rfl⟩
  | ok names =>
      cases names with
      | none => exact .inr (.inl ⟨rfl, rfl⟩)
      | some names =>
          dsimp only
          by_cases hused : names.2.stnameUsedcols.keys = []
          · rw [if_pos hused, if_pos hused]
            exact .inr (.inl ⟨rfl, rfl⟩)
          · rw [if_neg hused, if_neg hused]
            cases file.openTarget with
            | error e => exact .inl ⟨e, rfl⟩
            | ok opened =>
                cases opened with
                | false => exact .inl ⟨_, rfl⟩
                | true =>
                    refine .inr (.inr ⟨names, rfl, ?_⟩)
                    cases massMigrateTargetDdl appTableMigratorFactory names.2 q with
                    | error e => exact .inl ⟨e, rfl⟩
                    | ok migrated => exact .inr ⟨migrated.1, migrated.2, rfl, rfl⟩

/-- The target of a file that is selected and uses tables is the only one opened for it. -/
theorem eq_of_mem_massMigrate {file : SourceFile} {q : SqlsvrDdlQueries} {write : TargetWrite}
    (h : write ∈
      (file.massMigrate appTableMigratorFactory includePathRegexs excludePathRegexs targetRoot q).1) :
    write.source = file.filepath ∧
      ∃ names ∈ file.usedNames includePathRegexs excludePathRegexs,
        write.target = mirrorTargetDdlFilepath targetRoot names.1 := by
  obtain ⟨e, hrun⟩ | ⟨-, hrun⟩ | ⟨names, hnames, ⟨e, hrun⟩ | ⟨ddl, q', -, hrun⟩⟩ := massMigrate_cases file q
  · rw [hrun] at h
    exact absurd h List.not_mem_nil
  · rw [hrun] at h
    exact absurd h List.not_mem_nil
  · rw [hrun] at h
    obtain rfl := List.mem_singleton.mp h
    exact ⟨rfl, names, hnames, rfl⟩
  · rw [hrun] at h
    obtain rfl := List.mem_singleton.mp h
    exact ⟨rfl, names, hnames, rfl⟩

/-- What a file adds to a run that its exceptions do not end. -/
theorem massMigrate_eq_ok {file : SourceFile} {q q' : SqlsvrDdlQueries} {writes : List TargetWrite}
    (h : file.massMigrate appTableMigratorFactory includePathRegexs excludePathRegexs targetRoot q =
      (writes, .ok q')) :
    (file.usedNames includePathRegexs excludePathRegexs = none ∧ writes = [] ∧ q' = q) ∨
      ∃ names ddl, file.usedNames includePathRegexs excludePathRegexs = some names ∧
        writes = [⟨file.filepath, mirrorTargetDdlFilepath targetRoot names.1, ddl⟩] ∧
        massMigrateTargetDdl appTableMigratorFactory names.2 q = .ok (ddl, q') := by
  obtain ⟨e, hrun⟩ | ⟨hnone, hrun⟩ | ⟨names, hnames, ⟨e, hrun⟩ | ⟨ddl, q₁, hmigrate, hrun⟩⟩ :=
    massMigrate_cases file q
  · rw [hrun] at h
    cases h
  · rw [hrun] at h
    cases h
    exact .inl ⟨hnone, rfl, rfl⟩
  · rw [hrun] at h
    cases h
  · rw [hrun] at h
    cases h
    exact .inr ⟨names, ddl, hnames, rfl, hmigrate⟩

theorem eq_of_mem_massMigrateFiles {files : List SourceFile} {q : SqlsvrDdlQueries} {write : TargetWrite}
    (h : write ∈
      (massMigrateFiles appTableMigratorFactory includePathRegexs excludePathRegexs targetRoot files q).1) :
    ∃ file ∈ files, write.source = file.filepath ∧
      ∃ names ∈ file.usedNames includePathRegexs excludePathRegexs,
        write.target = mirrorTargetDdlFilepath targetRoot names.1 := by
  induction files generalizing q with
  | nil => exact absurd h List.not_mem_nil
  | cons file files ih =>
      have hfile : write ∈ (file.massMigrate appTableMigratorFactory includePathRegexs excludePathRegexs
          targetRoot q).1 → _ := eq_of_mem_massMigrate
      rw [massMigrateFiles] at h
      split at h
      · rename_i writes e hrun
        rw [hrun] at hfile
        exact ⟨file, List.mem_cons_self, hfile h⟩
      · rename_i writes q' hrun
        rw [hrun] at hfile
        rcases List.mem_append.mp h with hhere | hbehind
        · exact ⟨file, List.mem_cons_self, hfile hhere⟩
        · obtain ⟨file', hmem, heq⟩ := ih hbehind
          exact ⟨file', List.mem_cons_of_mem _ hmem, heq⟩

/-- Each file that is selected and uses tables is written in a run that no exception ends, and its target holds
what the loop over the names that are read puts there. -/
theorem massMigrateFiles_eq_ok {files : List SourceFile} {q q' : SqlsvrDdlQueries} {writes : List TargetWrite}
    (h : massMigrateFiles appTableMigratorFactory includePathRegexs excludePathRegexs targetRoot files q =
      (writes, .ok q')) :
    writes.map (fun write => (write.source, write.target)) =
        files.filterMap (fun file => (file.usedNames includePathRegexs excludePathRegexs).map fun names =>
          (file.filepath, mirrorTargetDdlFilepath targetRoot names.1)) ∧
      massMigrateDdl appTableMigratorFactory
          (files.filterMap fun file => (file.usedNames includePathRegexs excludePathRegexs).map Prod.snd) q =
        .ok (writes.map TargetWrite.ddl, q') := by
  induction files generalizing q writes with
  | nil =>
      cases h
      exact ⟨rfl, rfl⟩
  | cons file files ih =>
      rw [massMigrateFiles] at h
      split at h
      · cases h
      · rename_i writes₁ q₁ hrun
        obtain ⟨hwrites, hq'⟩ := Prod.ext_iff.mp h
        obtain ⟨hpaths, hddl⟩ := ih (Prod.ext rfl hq')
        dsimp only at hwrites
        subst hwrites
        obtain ⟨hnone, rfl, rfl⟩ | ⟨names, ddl, hsome, rfl, hmigrate⟩ := massMigrate_eq_ok hrun
        · constructor
          · rw [List.filterMap_cons_none (by rw [hnone]; rfl)]
            exact hpaths
          · rw [List.filterMap_cons_none (by rw [hnone]; rfl)]
            exact hddl
        · constructor
          · rw [List.filterMap_cons_some (by rw [hsome]; rfl), ← hpaths]
            rfl
          · rw [List.filterMap_cons_some (by rw [hsome]; rfl), massMigrateDdl, hmigrate]
            dsimp only [bind, Except.bind]
            rw [hddl]
            rfl

theorem exists_mem_massMigrateFiles {files : List SourceFile} {q q' : SqlsvrDdlQueries}
    {writes : List TargetWrite}
    (h : massMigrateFiles appTableMigratorFactory includePathRegexs excludePathRegexs targetRoot files q =
      (writes, .ok q'))
    {file : SourceFile} (hfile : file ∈ files) {names : Text × SqlsvrDdlStnamesMigrator}
    (hnames : names ∈ file.usedNames includePathRegexs excludePathRegexs) :
    ∃ write ∈ writes,
      write.source = file.filepath ∧ write.target = mirrorTargetDdlFilepath targetRoot names.1 := by
  have hmem : (file.filepath, mirrorTargetDdlFilepath targetRoot names.1) ∈
      writes.map fun write => (write.source, write.target) := by
    rw [(massMigrateFiles_eq_ok h).1, List.mem_filterMap]
    exact ⟨file, hfile, by rw [Option.mem_def.mp hnames]; rfl⟩
  obtain ⟨write, hwrite, heq⟩ := List.mem_map.mp hmem
  obtain ⟨hsource, htarget⟩ := Prod.ext_iff.mp heq
  exact ⟨write, hwrite, hsource, htarget⟩

end Apart

/-- A run opens no target for two different source files when the selected files that use tables differ in more
than the extension, and a run that no exception ends does so only then. -/
theorem massMigrateSrcRoots_noOverwrite {σ ι : Type} (appTableMigratorFactory : DdlTableMigratorFactory σ)
    (includePathRegexs excludePathRegexs : List (Text → Bool)) (targetRoot : Text)
    (srcRoots : List (List SourceFile)) (q : SqlsvrDdlQueries) (fileAt : Text → ι) :
    let run := massMigrateSrcRoots appTableMigratorFactory includePathRegexs excludePathRegexs targetRoot srcRoots q
    (ApartMirrors includePathRegexs excludePathRegexs fileAt srcRoots.flatten → NoOverwrite fileAt run.1) ∧
      ∀ q', run.2 = .ok q' →
        NoOverwrite fileAt run.1 → ApartMirrors includePathRegexs excludePathRegexs fileAt srcRoots.flatten := by
  dsimp only
  unfold massMigrateSrcRoots
  by_cases hroot : targetRoot = []
  · rw [if_pos hroot]
    constructor
    · intro _ write hwrite
      exact absurd hwrite List.not_mem_nil
    · intro q' hok
      cases hok
  · rw [if_neg hroot]
    constructor
    · intro hapart write hwrite write' hwrite' hne hsame
      obtain ⟨file, hfile, hsource, names, hnames, htarget⟩ := eq_of_mem_massMigrateFiles hwrite
      obtain ⟨file', hfile', hsource', names', hnames', htarget'⟩ := eq_of_mem_massMigrateFiles hwrite'
      rw [hsource, hsource'] at hne
      rw [htarget, htarget', samePath_target_iff hroot] at hsame
      exact hapart file hfile file' hfile' hne names hnames names' hnames' hsame
    · intro q' hok hno file hfile file' hfile' hne names hnames names' hnames' hsame
      have hrun : massMigrateFiles appTableMigratorFactory includePathRegexs excludePathRegexs targetRoot
          srcRoots.flatten q = (_, .ok q') := Prod.ext rfl hok
      obtain ⟨write, hwrite, hsource, htarget⟩ := exists_mem_massMigrateFiles hrun hfile hnames
      obtain ⟨write', hwrite', hsource', htarget'⟩ := exists_mem_massMigrateFiles hrun hfile' hnames'
      rw [← hsource, ← hsource'] at hne
      apply hno write hwrite write' hwrite' hne
      rw [htarget, htarget', samePath_target_iff hroot]
      exact hsame

/-- A file below the root `src` that uses the table `dbo.t` and whose target can be opened. -/
def srcFile (filepath : String) : SourceFile where
  srcRoot := ⟨false, "src".toList⟩
  filepath := filepath.toList
  ddlNames := .ok (some (usesTable dboT))
  openTarget := .ok true

/-- Two files of one extension are kept apart. -/
theorem massMigrateSrcRoots_noOverwrite_a_b :
    ∃ m, loadFkMapper [[tToR "fk" "a"]] = .ok ⟨m, []⟩ ∧
      NoOverwrite id (massMigrateSrcRoots (HsqldbTableMigrator.factory intPrefs 0) [] [] "t".toList
        [[srcFile "src/a.xml", srcFile "src/b.xml"]] (rAndT m)).1 := by
  refine ⟨_, rfl, (massMigrateSrcRoots_noOverwrite _ [] [] _ _ _ id).1 ?_⟩
  intro file hfile file' hfile' hne names hnames names' hnames'
  rcases List.mem_pair.mp hfile with rfl | rfl
  · rcases List.mem_pair.mp hfile' with rfl | rfl
    · exact absurd rfl hne
    · cases hnames
      cases hnames'
      decide
  · rcases List.mem_pair.mp hfile' with rfl | rfl
    · cases hnames
      cases hnames'
      decide
    · exact absurd rfl hne

/-- `src/a.dataset` is written over what was written for `src/a.xml`. -/
theorem massMigrateSrcRoots_overwrites :
    ∃ m, loadFkMapper [[tToR "fk" "a"]] = .ok ⟨m, []⟩ ∧
      (massMigrateSrcRoots (HsqldbTableMigrator.factory intPrefs 0) [] [] "t".toList
          [[srcFile "src/a.xml", srcFile "src/a.dataset"]] (rAndT m)).1.map
        (fun write => (String.ofList write.source, String.ofList write.target)) =
        [("src/a.xml", "t/a.ddl"), ("src/a.dataset", "t/a.ddl")] ∧
      ¬ NoOverwrite id (massMigrateSrcRoots (HsqldbTableMigrator.factory intPrefs 0) [] [] "t".toList
          [[srcFile "src/a.xml", srcFile "src/a.dataset"]] (rAndT m)).1 := by
  refine ⟨_, rfl, by decide, ?_⟩
  intro hno
  apply hno ⟨_, _, _⟩ List.mem_cons_self ⟨_, _, _⟩ (List.mem_cons_of_mem _ List.mem_cons_self)
  · decide
  · exact ⟨Iff.rfl, rfl⟩

end Middle.MiddleApp
