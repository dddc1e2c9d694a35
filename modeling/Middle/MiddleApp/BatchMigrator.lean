import Middle.MiddleApp.NamesReader
import Middle.MiddleApp.TargetLines
import Middle.MiddleApp.TargetPaths
import Middle.NormalDdl.NameParts
import Middle.SqlsvrDdl.Validation

/-! The migration of source files in batches (`batch_ddl_mass_migrator`): the names in all files of a source root
are merged and migrated into one target. Each file is validated on its own in front of that, and what is said about
it then is kept, with the name of the file, among the messages of the target. -/

namespace Middle.MiddleApp

open Lib Universals NormalDdl SqlsvrDdl

/-! ### Collecting a batch -/

theorem unnumbered_nil : ∀ msg ∈ ([] : List DdlStnamesMigrationMsg), msg.lineno = 0 :=
  List.forall_mem_nil _

/-- `batch_ddl_mass_migrator`, with what is asserted of the messages it collects. -/
structure BatchDdlMassMigrator where
  filepaths : List Text := []
  batchHaveUsedcols : Option Bool := none
  batchStnameUsedcols : DdlStnameUsedcols := ∅
  batchAssumedIdents : DdlAssumedIdentities := ∅
  batchStnamesMigrationMsgs : List DdlStnamesMigrationMsg := []
  batchUnnumbered : ∀ msg ∈ batchStnamesMigrationMsgs, msg.lineno = 0 := by exact unnumbered_nil

/-- A message with the source file that it is about. -/
def withSourceFile (filepath : Text) (msg : DdlStnamesMigrationMsg) : DdlStnamesMigrationMsg :=
  { msg with msg.msg := msg.msg.msg ++ DdlStnamesMigrationMsg.batchSourceFileMsgSuffix ++ filepath ++ "']".toList }

/-- What `validate_batch_ddl` adds for a source file whose names come to these messages. -/
def BatchDdlMassMigrator.add (b : BatchDdlMassMigrator) (filepath : Text) (m : SqlsvrDdlStnamesMigrator)
    (msgs : List DdlStnamesMigrationMsg) (h : ∀ msg ∈ msgs, msg.lineno = 0) : BatchDdlMassMigrator where
  filepaths := b.filepaths ++ [filepath]
  batchHaveUsedcols := some (b.batchHaveUsedcols.getD m.haveUsedcols)
  batchStnameUsedcols := b.batchStnameUsedcols.mergeInto m.stnameUsedcols
  batchAssumedIdents := b.batchAssumedIdents ∪ m.assumedIdents
  batchStnamesMigrationMsgs := b.batchStnamesMigrationMsgs ++ msgs.map (withSourceFile filepath)
  batchUnnumbered := by
    intro msg hmsg
    rcases List.mem_append.mp hmsg with hmsg | hmsg
    · exact b.batchUnnumbered msg hmsg
    · obtain ⟨msg', hmsg', rfl⟩ := List.mem_map.mp hmsg
      exact h msg' hmsg'

section Batch

variable {σ : Type} (appTableMigratorFactory : DdlTableMigratorFactory σ) (parse : XercesDomParser)
  (includePathRegexs excludePathRegexs : List (Text → Bool)) (targetRoot : Text)

/-- `validate_batch_ddl`; the migration that it runs has no factory. -/
def BatchDdlMassMigrator.validateBatchDdl (b : BatchDdlMassMigrator) (q : SqlsvrDdlQueries) (filepath : Text)
    (m : SqlsvrDdlStnamesMigrator) : Except Fault (BatchDdlMassMigrator × SqlsvrDdlQueries) :=
  match m.migrateDdlStnames (none : Option (DdlTableMigratorFactory σ)) q with
  | .error e => .error e
  | .ok st =>
      if h : ∀ msg ∈ st.stnamesMigrationMsgs, msg.lineno = 0 ∧ msg.msg.msg ≠ [] then
        if b.batchHaveUsedcols.all (· = m.haveUsedcols) then
          .ok (b.add filepath m st.stnamesMigrationMsgs fun msg hmsg => (h msg hmsg).1, st.queries)
        else .error .assertion
      else .error .assertion

/-- `get_target_mass_migrator`, with the path of the target. -/
def BatchDdlMassMigrator.getTargetMassMigrator (b : BatchDdlMassMigrator) (srcRoot : DdlSourceRoot)
    (rootPos : Nat) : Except Fault (Text × DdlTargetMassMigrator) := do
  let filepath := slash srcRoot.genericString ("middle-batch-".toList ++ lexicalCast (rootPos + 1))
  let filepathMirror ← mirrorFilepath srcRoot filepath
  return (mirrorTargetDdlFilepath targetRoot filepathMirror,
    { filepaths := b.filepaths
      batchSource := true
      stnamesMigrator := ⟨b.batchStnameUsedcols, b.batchHaveUsedcols.getD false, b.batchAssumedIdents⟩
      batchStnamesMigrationMsgs := b.batchStnamesMigrationMsgs
      batchUnnumbered := b.batchUnnumbered })

/-- The names that `read_ddl_names` gives for a file, with `none` for the parse error that skips it. -/
def readSource (filepath : Text) : Except Fault (Option SqlsvrDdlStnamesMigrator) :=
  match readDdlNames parse filepath {} with
  | .ok (names, haveUsedcols) => .ok (some ⟨names.stnameUsedcols, haveUsedcols, names.assumedIdents⟩)
  | .error (.parseError _) => .ok none
  | .error (.fault e) => .error e

/-- A source root whose regular files are migrated in a batch, in the order of the iterator, which stays below the
root; with what the file system and the clock say when the target is written. -/
structure BatchSrcRoot where
  srcRoot : DdlSourceRoot
  filepaths : List Text
  openTarget : Except Fault Bool
  migratedBy : MigratedBy
  below : ∀ filepath ∈ filepaths, srcRoot.genericString <+: filepath

/-- The turn of the loop of `mass_migrate_ddl` for a file of a batch. -/
def BatchSrcRoot.validateFile (root : BatchSrcRoot) (st : BatchDdlMassMigrator × SqlsvrDdlQueries) (filepath : Text) :
    Except Fault (BatchDdlMassMigrator × SqlsvrDdlQueries) := do
  let file : SourceFile := ⟨root.srcRoot, filepath, readSource parse filepath, .ok true⟩
  match ← file.readNames includePathRegexs excludePathRegexs with
  | none => return st
  | some (_, m) => @BatchDdlMassMigrator.validateBatchDdl σ st.1 st.2 filepath m

/-- A target that was opened for a batch, with what is written to it unless an exception ends the run there. -/
structure BatchWrite where
  target : Text
  file : Option TargetDdlFile

/-- What the loop of `mass_migrate_ddl` does with a source root. -/
def BatchSrcRoot.massMigrate (root : BatchSrcRoot) (rootPos : Nat) (q : SqlsvrDdlQueries) :
    List BatchWrite × Except Fault SqlsvrDdlQueries :=
  let collected := root.filepaths.foldlM
    (@BatchSrcRoot.validateFile σ parse includePathRegexs excludePathRegexs root) ({}, q)
  match collected with
  | .error e => ([], .error e)
  | .ok (b, q) =>
      match b.getTargetMassMigrator targetRoot root.srcRoot rootPos with
      | .error e => ([], .error e)
      | .ok (target, t) =>
          if t.stnamesMigrator.stnameUsedcols.keys = [] then ([], .ok q)
          else
            match root.openTarget with
            | .error e => ([], .error e)
            | .ok false => ([], .error (.runtimeError ("can't write target '".toList ++ target ++ ['\''])))
            | .ok true =>
                match t.massMigrateTargetDdl root.migratedBy appTableMigratorFactory q with
                | .error e => ([⟨target, none⟩], .error e)
                | .ok (file, q) => ([⟨target, file⟩], .ok q)

/-- The loop of `mass_migrate_ddl` over the source roots of batches. -/
def massMigrateBatches : List BatchSrcRoot → Nat → SqlsvrDdlQueries → List BatchWrite × Except Fault SqlsvrDdlQueries
  | [], _, q => ([], .ok q)
  | root :: roots, rootPos, q =>
      match root.massMigrate appTableMigratorFactory parse includePathRegexs excludePathRegexs targetRoot rootPos q with
      | (writes, .error e) => (writes, .error e)
      | (writes, .ok q) =>
          let behind := massMigrateBatches roots (rootPos + 1) q
          (writes ++ behind.1, behind.2)

/-- `mass_migrate_ddl` in batches. There are no directories to create for an empty path. -/
def massMigrateBatchSrcRoots (roots : List BatchSrcRoot) (q : SqlsvrDdlQueries) :
    List BatchWrite × Except Fault SqlsvrDdlQueries :=
  if targetRoot = [] then ([], .error (.runtimeError "boost::filesystem::create_directories".toList))
  else massMigrateBatches appTableMigratorFactory parse includePathRegexs excludePathRegexs targetRoot roots 0 q

end Batch

/-! ### What is collected -/

/-- What validating says about the names in a source file. -/
def validationMsgs (q : SqlsvrDdlQueries) (m : SqlsvrDdlStnamesMigrator) : List DdlStnamesMigrationMsg :=
  undefinedMsgs q m.sortStnames ++ m.fkTargetMsgs q

theorem of_mem_validationMsgs {q : SqlsvrDdlQueries} {m : SqlsvrDdlStnamesMigrator} {msg : DdlStnamesMigrationMsg}
    (h : msg ∈ validationMsgs q m) : msg.lineno = 0 ∧ msg.msg.msg ≠ [] := by
  rcases List.mem_append.mp h with h | h
  · obtain ⟨stname, -, rfl⟩ := List.mem_map.mp h
    refine ⟨rfl, ?_⟩
    show DdlMigrationMsg.tableUsedButUndefinedMsg ≠ []
    decide
  · obtain ⟨-, hlineno, htext, -⟩ := SqlsvrDdlStnamesMigrator.isFkTarget_of_mem_fkTargetMsgs h
    exact ⟨hlineno, htext⟩

/-- A batch with a source file that has been validated. -/
def BatchDdlMassMigrator.addSource (q : SqlsvrDdlQueries) (b : BatchDdlMassMigrator)
    (source : Text × SqlsvrDdlStnamesMigrator) : BatchDdlMassMigrator :=
  b.add source.1 source.2 (validationMsgs q source.2) fun _ hmsg => (of_mem_validationMsgs hmsg).1

/-- Validating a file does not fail, nor does it change the metadata, when all files of the batch have used columns
or none has. -/
theorem validateBatchDdl_eq {σ : Type} (b : BatchDdlMassMigrator) (q : SqlsvrDdlQueries) (filepath : Text)
    (m : SqlsvrDdlStnamesMigrator) :
    @BatchDdlMassMigrator.validateBatchDdl σ b q filepath m =
      if b.batchHaveUsedcols.all (· = m.haveUsedcols) then .ok (b.addSource q (filepath, m), q)
      else .error .assertion := by
  obtain ⟨st, hrun, -, rfl, hmsgs⟩ := @SqlsvrDdlStnamesMigrator.migrateDdlStnames_none σ m q
  have hok : ∀ msg ∈ st.stnamesMigrationMsgs, msg.lineno = 0 ∧ msg.msg.msg ≠ [] := by
    rw [hmsgs]
    exact fun msg hmsg => of_mem_validationMsgs hmsg
  unfold BatchDdlMassMigrator.validateBatchDdl
  rw [hrun]
  dsimp only
  rw [dif_pos hok]
  unfold BatchDdlMassMigrator.addSource validationMsgs
  simp only [hmsgs]

/-- A file is skipped, or it is a dataset whose names are read. -/
theorem readSource_cases (parse : XercesDomParser) (filepath : Text) :
    readSource parse filepath = .ok none ∨ ∃ children names,
      parse filepath = .ok (some ⟨some ⟨"dataset".toList, children⟩⟩) ∧
        (∀ node ∈ children, ∀ what, ¬ node.Refused filepath what) ∧ HoldsNames children names ∧
        readSource parse filepath = .ok (some ⟨names.stnameUsedcols, true, names.assumedIdents⟩) := by
  unfold readSource
  cases hread : readDdlNames parse filepath {} with
  | ok read =>
      obtain ⟨names, haveUsedcols⟩ := read
      obtain ⟨rfl, children, hparse, hreadable, hholds⟩ := readDdlNames_eq_ok hread
      exact .inr ⟨children, names, hparse, hreadable, hholds, rfl⟩
  | error e =>
      obtain ⟨what, rfl, -⟩ := (readDdlNames_eq_error_iff _ _ _ _).mp hread
      exact .inl rfl

theorem mirrorFilepath_of_prefix {srcRoot : DdlSourceRoot} {filepath : Text}
    (h : srcRoot.genericString <+: filepath) :
    ∃ filepathMirror, mirrorFilepath srcRoot filepath = .ok filepathMirror := by
  unfold mirrorFilepath
  split
  · exact ⟨_, rfl⟩
  · rw [if_pos ((find_zero_eq_zero_iff _ _).mpr h)]
    exact ⟨_, rfl⟩

section Collected

variable {σ : Type} (parse : XercesDomParser) (includePathRegexs excludePathRegexs : List (Text → Bool))

/-- The names in a file below a source root when it is selected and not skipped. -/
def sourceNames (srcRoot : DdlSourceRoot) (filepath : Text) : Option SqlsvrDdlStnamesMigrator :=
  match (SourceFile.mk srcRoot filepath (readSource parse filepath) (.ok true)).readNames includePathRegexs
      excludePathRegexs with
  | .ok (some (_, m)) => some m
  | _ => none

/-- The source files of a batch with the names in them. -/
def BatchSrcRoot.sources (root : BatchSrcRoot) : List (Text × SqlsvrDdlStnamesMigrator) :=
  root.filepaths.filterMap fun filepath =>
    (sourceNames parse includePathRegexs excludePathRegexs root.srcRoot filepath).map (filepath, ·)

/-- What has been collected of the files of a source root. -/
def BatchSrcRoot.batch (root : BatchSrcRoot) (q : SqlsvrDdlQueries) : BatchDdlMassMigrator :=
  (root.sources parse includePathRegexs excludePathRegexs).foldl (.addSource q) {}

variable {parse includePathRegexs excludePathRegexs}

/-- Reading the names of a file below a source root does not fail. -/
theorem readNames_eq {srcRoot : DdlSourceRoot} {filepath : Text} (h : srcRoot.genericString <+: filepath) :
    ∃ names, (SourceFile.mk srcRoot filepath (readSource parse filepath) (.ok true)).readNames includePathRegexs
        excludePathRegexs = .ok names ∧
      sourceNames parse includePathRegexs excludePathRegexs srcRoot filepath = names.map Prod.snd := by
  obtain ⟨names, hnames⟩ : ∃ names, (SourceFile.mk srcRoot filepath (readSource parse filepath)
      (.ok true)).readNames includePathRegexs excludePathRegexs = .ok names := by
    obtain ⟨filepathMirror, hmirror⟩ := mirrorFilepath_of_prefix h
    obtain ⟨read, hread⟩ : ∃ read, readSource parse filepath = .ok read := by
      obtain hread | ⟨_, _, -, -, -, hread⟩ := readSource_cases parse filepath
      · exact ⟨_, hread⟩
      · exact ⟨_, hread⟩
    unfold SourceFile.readNames
    rw [hmirror]
    dsimp only [bind, Except.bind]
    split
    · rw [hread]
      exact ⟨_, rfl⟩
    · exact ⟨_, rfl⟩
  refine ⟨names, hnames, ?_⟩
  unfold sourceNames
  rw [hnames]
  cases names with
  | none => rfl
  | some names => rfl

/-- The names in a source file of a batch are those that the children of a dataset give. -/
theorem sourceNames_eq_some {srcRoot : DdlSourceRoot} {filepath : Text} {m : SqlsvrDdlStnamesMigrator}
    (h : sourceNames parse includePathRegexs excludePathRegexs srcRoot filepath = some m) :
    m.haveUsedcols = true ∧ ∃ children, parse filepath = .ok (some ⟨some ⟨"dataset".toList, children⟩⟩) ∧
      (∀ node ∈ children, ∀ what, ¬ node.Refused filepath what) ∧
      HoldsNames children ⟨m.stnameUsedcols, m.assumedIdents⟩ := by
  unfold sourceNames at h
  split at h
  · rename_i names hnames
    cases h
    unfold SourceFile.readNames at hnames
    rw [bind_eq_ok] at hnames
    obtain ⟨filepathMirror, -, hnames⟩ := hnames
    split at hnames
    · rw [bind_eq_ok] at hnames
      obtain ⟨read, hread, hnames⟩ := hnames
      obtain hskip | ⟨children, names, hparse, hreadable, hholds, hread'⟩ := readSource_cases parse filepath
      · rw [hskip] at hread
        cases hread
        cases hnames
      · rw [hread'] at hread
        cases hread
        cases hnames
        exact ⟨rfl, children, hparse, hreadable, hholds⟩
    · cases hnames
  · cases h

/-- Collecting a batch does not fail, nor does it change the metadata. -/
theorem foldlM_validateFile (root : BatchSrcRoot) (q : SqlsvrDdlQueries) :
    root.filepaths.foldlM (@BatchSrcRoot.validateFile σ parse includePathRegexs excludePathRegexs root) ({}, q) =
      .ok (root.batch parse includePathRegexs excludePathRegexs q, q) := by
  have hloop : ∀ (filepaths : List Text) (b : BatchDdlMassMigrator),
      (∀ filepath ∈ filepaths, root.srcRoot.genericString <+: filepath) → b.batchHaveUsedcols.all (· = true) →
      filepaths.foldlM (@BatchSrcRoot.validateFile σ parse includePathRegexs excludePathRegexs root) (b, q) =
        .ok ((filepaths.filterMap fun filepath =>
          (sourceNames parse includePathRegexs excludePathRegexs root.srcRoot filepath).map (filepath, ·)).foldl
            (.addSource q) b, q) := by
    intro filepaths
    induction filepaths with
    | nil => exact fun _ _ _ => rfl
    | cons filepath filepaths ih =>
        intro b hbelow hused
        rw [List.forall_mem_cons] at hbelow
        obtain ⟨names, hnames, hsource⟩ := @readNames_eq parse includePathRegexs excludePathRegexs _ _ hbelow.1
        rw [List.foldlM_cons]
        unfold BatchSrcRoot.validateFile
        dsimp only
        rw [hnames]
        cases names with
        | none =>
            rw [List.filterMap_cons_none (by rw [hsource]; rfl)]
            exact ih b hbelow.2 hused
        | some names =>
            obtain ⟨filepathMirror, m⟩ := names
            have hm := (sourceNames_eq_some hsource).1
            rw [List.filterMap_cons_some (by rw [hsource]; rfl), List.foldl_cons]
            dsimp only [bind, Except.bind]
            rw [validateBatchDdl_eq, hm, if_pos hused]
            apply ih _ hbelow.2
            change Option.all _ (some (b.batchHaveUsedcols.getD m.haveUsedcols)) = true
            cases hb : b.batchHaveUsedcols with
            | none => exact decide_eq_true hm
            | some used => simpa [hb] using hused
  exact hloop root.filepaths {} root.below rfl

/-- What is in a batch to which source files are added. -/
theorem foldl_addSource (q : SqlsvrDdlQueries) (sources : List (Text × SqlsvrDdlStnamesMigrator))
    (b : BatchDdlMassMigrator) :
    let b' := sources.foldl (.addSource q) b
    b'.filepaths = b.filepaths ++ sources.map Prod.fst ∧
      b'.batchStnameUsedcols = (sources.map (·.2.stnameUsedcols)).foldl .mergeInto b.batchStnameUsedcols ∧
      (∀ stcname, stcname ∈ b'.batchAssumedIdents ↔
        stcname ∈ b.batchAssumedIdents ∨ ∃ source ∈ sources, stcname ∈ source.2.assumedIdents) ∧
      b'.batchStnamesMigrationMsgs = b.batchStnamesMigrationMsgs ++
        sources.flatMap fun source => (validationMsgs q source.2).map (withSourceFile source.1) := by
  induction sources generalizing b with
  | nil => simp
  | cons source sources ih =>
      obtain ⟨hfilepaths, hnames, hidents, hmsgs⟩ := ih (b.addSource q source)
      refine ⟨?_, hnames, fun stcname => ?_, ?_⟩
      · rw [List.foldl_cons, hfilepaths]
        simp [BatchDdlMassMigrator.addSource, BatchDdlMassMigrator.add]
      · rw [List.foldl_cons, hidents, List.exists_mem_cons_iff, ← or_assoc]
        exact or_congr_left Finset.mem_union
      · rw [List.foldl_cons, hmsgs]
        simp [BatchDdlMassMigrator.addSource, BatchDdlMassMigrator.add]

theorem batchHaveUsedcols_foldl_addSource {q : SqlsvrDdlQueries} {sources : List (Text × SqlsvrDdlStnamesMigrator)}
    (h : ∀ source ∈ sources, source.2.haveUsedcols = true) {b : BatchDdlMassMigrator}
    (hb : b.batchHaveUsedcols = some true) : (sources.foldl (.addSource q) b).batchHaveUsedcols = some true := by
  induction sources generalizing b with
  | nil => exact hb
  | cons source sources ih =>
      rw [List.forall_mem_cons] at h
      refine ih h.2 ?_
      show some (b.batchHaveUsedcols.getD source.2.haveUsedcols) = some true
      rw [hb]
      rfl

namespace BatchSrcRoot

variable (root : BatchSrcRoot) (q : SqlsvrDdlQueries)

theorem haveUsedcols_of_mem_sources {source : Text × SqlsvrDdlStnamesMigrator}
    (h : source ∈ root.sources parse includePathRegexs excludePathRegexs) :
    source.2.haveUsedcols = true ∧ ∃ children, parse source.1 = .ok (some ⟨some ⟨"dataset".toList, children⟩⟩) ∧
      (∀ node ∈ children, ∀ what, ¬ node.Refused source.1 what) ∧
      HoldsNames children ⟨source.2.stnameUsedcols, source.2.assumedIdents⟩ := by
  obtain ⟨filepath, -, hsource⟩ := List.mem_filterMap.mp h
  obtain ⟨m, hm, rfl⟩ := Option.map_eq_some_iff.mp hsource
  exact sourceNames_eq_some hm

/-- The migrator that a batch comes to. -/
def stnamesMigrator (parse : XercesDomParser) (includePathRegexs excludePathRegexs : List (Text → Bool))
    (root : BatchSrcRoot) (q : SqlsvrDdlQueries) : SqlsvrDdlStnamesMigrator :=
  let b := root.batch parse includePathRegexs excludePathRegexs q
  ⟨b.batchStnameUsedcols, b.batchHaveUsedcols.getD false, b.batchAssumedIdents⟩

theorem haveUsedcols_stnamesMigrator :
    (root.stnamesMigrator parse includePathRegexs excludePathRegexs q).haveUsedcols =
      !(root.sources parse includePathRegexs excludePathRegexs).isEmpty := by
  have hused : ∀ source ∈ root.sources parse includePathRegexs excludePathRegexs, source.2.haveUsedcols = true :=
    fun source hsource => (root.haveUsedcols_of_mem_sources hsource).1
  unfold stnamesMigrator batch
  dsimp only
  cases hsources : root.sources parse includePathRegexs excludePathRegexs with
  | nil => rfl
  | cons source sources =>
      rw [hsources, List.forall_mem_cons] at hused
      rw [List.foldl_cons, batchHaveUsedcols_foldl_addSource hused.2]
      · rfl
      · exact congrArg some hused.1

theorem stnameUsedcols_stnamesMigrator :
    (root.stnamesMigrator parse includePathRegexs excludePathRegexs q).stnameUsedcols =
      .mergeAll ((root.sources parse includePathRegexs excludePathRegexs).map (·.2.stnameUsedcols)) :=
  (foldl_addSource q _ {}).2.1

theorem mem_assumedIdents_stnamesMigrator {stcname : DdlStcname} :
    stcname ∈ (root.stnamesMigrator parse includePathRegexs excludePathRegexs q).assumedIdents ↔
      ∃ source ∈ root.sources parse includePathRegexs excludePathRegexs, stcname ∈ source.2.assumedIdents :=
  ((foldl_addSource q _ {}).2.2.1 stcname).trans (or_iff_right (Finset.notMem_empty _))

end BatchSrcRoot

end Collected

/-! ### The target of a batch -/

/-- The name of the file that a batch stands for. -/
def batchName (rootPos : Nat) : Text := "middle-batch-".toList ++ lexicalCast (rootPos + 1)

theorem lexicalCast_injective : Function.Injective lexicalCast := by
  intro n n' h
  have hdigits : Nat.toDigits 10 n = Nat.toDigits 10 n' := by
    rw [← Nat.toList_repr, ← Nat.toList_repr]
    exact h
  have hvalue := congrArg (Nat.ofDigitChars 10 · 0) hdigits
  simpa using hvalue

theorem notMem_batchName {c : Char} (hc : c = '/' ∨ c = '.') (rootPos : Nat) : c ∉ batchName rootPos := by
  intro hmem
  rcases List.mem_append.mp hmem with hmem | hmem
  · rcases hc with rfl | rfl
    · exact absurd hmem (by decide)
    · exact absurd hmem (by decide)
  · have hdigit := isDigit_of_mem_lexicalCast hmem
    rcases hc with rfl | rfl
    · exact absurd hdigit (by decide)
    · exact absurd hdigit (by decide)

theorem stem_batchName (rootPos : Nat) : stem (batchName rootPos) = batchName rootPos := by
  have hdot : '.' ∉ (batchName rootPos).reverse := by
    rw [List.mem_reverse]
    exact notMem_batchName (.inr rfl) rootPos
  unfold stem rfindDot
  rw [findDot_of_dotless hdot]
  exact ite_self _

theorem filename_append {u name : Text} (hname : '/' ∉ name) (hu : u = [] ∨ u.getLast? = some '/') :
    filename (u ++ name) = name := by
  have hall : ∀ c ∈ name.reverse, decide (c ≠ '/') = true := by
    intro c hc
    exact decide_eq_true fun h => hname (h ▸ List.mem_reverse.mp hc)
  unfold filename List.rtakeWhile
  rw [List.reverse_append, List.takeWhile_append_of_pos hall]
  rcases hu with rfl | hlast
  · rw [List.reverse_nil, List.takeWhile_nil, List.append_nil, List.reverse_reverse]
  · obtain ⟨s, rfl⟩ : ∃ s, u = s ++ ['/'] := List.getLast?_eq_some_iff.mp hlast
    have hnone : (s ++ ['/']).reverse.takeWhile (fun c => decide (c ≠ '/')) = [] := by
      rw [List.reverse_append]
      rfl
    rw [hnone, List.append_nil, List.reverse_reverse]

/-- A path that goes on with a name has nothing in front of it, or a slash. -/
theorem slash_eq_append (p : Text) {name : Text} (hnil : name ≠ []) (hname : '/' ∉ name) :
    ∃ u, slash p name = p ++ (u ++ name) ∧ (u = [] ∨ u = ['/']) ∧ (p ++ u = [] ∨ (p ++ u).getLast? = some '/') := by
  have hhead : name.head? ≠ some '/' := fun h => hname (List.mem_of_head? h)
  unfold slash
  rw [if_neg hnil]
  by_cases hsep : p = [] ∨ p.getLast? = some '/'
  · rw [if_pos (.inr hsep)]
    refine ⟨[], by rw [List.nil_append], .inl rfl, ?_⟩
    rwa [List.append_nil]
  · rw [if_neg (not_or.mpr ⟨hhead, hsep⟩)]
    exact ⟨['/'], rfl, .inr rfl, .inr List.getLast?_concat⟩

namespace BatchSrcRoot

variable (root : BatchSrcRoot)

/-- The path of a batch, which is named after its source root, is mirrored like that of a file below it. -/
theorem exists_mirrorFilepath_batchName (rootPos : Nat) :
    ∃ filepathMirror, mirrorFilepath root.srcRoot (slash root.srcRoot.genericString (batchName rootPos)) =
        .ok filepathMirror ∧ filename filepathMirror = batchName rootPos := by
  have hname : '/' ∉ batchName rootPos := notMem_batchName (.inl rfl) rootPos
  have hnil : batchName rootPos ≠ [] := List.append_ne_nil_of_left_ne_nil (by decide) _
  obtain ⟨u, hslash, hu, hpath⟩ := slash_eq_append root.srcRoot.genericString hnil hname
  rw [hslash]
  unfold mirrorFilepath
  by_cases hgrafted : root.srcRoot.graftedPath = true
  · rw [if_pos hgrafted]
    exact ⟨_, rfl, by rw [← List.append_assoc]; exact filename_append hname hpath⟩
  · rw [if_neg hgrafted, if_pos ((find_zero_eq_zero_iff _ _).mpr (List.prefix_append _ _)), List.drop_left]
    exact ⟨_, rfl, filename_append hname (hu.imp_right fun h => by rw [h]; rfl)⟩

/-- The path of the target of a batch. -/
def target (targetRoot : Text) (rootPos : Nat) : Text :=
  match mirrorFilepath root.srcRoot (slash root.srcRoot.genericString (batchName rootPos)) with
  | .error _ => []
  | .ok filepathMirror => mirrorTargetDdlFilepath targetRoot filepathMirror

/-- No two batches have one target. -/
theorem not_samePath_target {targetRoot : Text} (hroot : targetRoot ≠ []) (root' : BatchSrcRoot) {rootPos rootPos' : Nat}
    (hne : rootPos ≠ rootPos') : ¬ SamePath (root.target targetRoot rootPos) (root'.target targetRoot rootPos') := by
  obtain ⟨mirror, hmirror, hname⟩ := root.exists_mirrorFilepath_batchName rootPos
  obtain ⟨mirror', hmirror', hname'⟩ := root'.exists_mirrorFilepath_batchName rootPos'
  unfold target
  rw [hmirror, hmirror']
  dsimp only
  rw [samePath_target_iff hroot]
  rintro ⟨-, hstem⟩
  rw [hname, hname', stem_batchName, stem_batchName] at hstem
  exact hne (Nat.succ_injective (lexicalCast_injective (List.append_cancel_left hstem)))

section Run

variable {σ : Type} {appTableMigratorFactory : DdlTableMigratorFactory σ} {parse : XercesDomParser}
  {includePathRegexs excludePathRegexs : List (Text → Bool)} {targetRoot : Text}

/-- What migrates a batch into its target. -/
def targetMassMigrator (parse : XercesDomParser) (includePathRegexs excludePathRegexs : List (Text → Bool))
    (root : BatchSrcRoot) (q : SqlsvrDdlQueries) : DdlTargetMassMigrator :=
  let b := root.batch parse includePathRegexs excludePathRegexs q
  ⟨b.filepaths, true, root.stnamesMigrator parse includePathRegexs excludePathRegexs q, b.batchStnamesMigrationMsgs,
    b.batchUnnumbered⟩

theorem getTargetMassMigrator_batch (rootPos : Nat) (q : SqlsvrDdlQueries) :
    (root.batch parse includePathRegexs excludePathRegexs q).getTargetMassMigrator targetRoot root.srcRoot rootPos =
      .ok (root.target targetRoot rootPos, root.targetMassMigrator parse includePathRegexs excludePathRegexs q) := by
  obtain ⟨mirror, hmirror, -⟩ := root.exists_mirrorFilepath_batchName rootPos
  have htarget : root.target targetRoot rootPos = mirrorTargetDdlFilepath targetRoot mirror := by
    unfold target
    rw [hmirror]
  unfold batchName at hmirror
  unfold BatchDdlMassMigrator.getTargetMassMigrator
  dsimp only
  rw [hmirror, htarget]
  rfl

/-- What comes of a source root: nothing when its files use no tables, an exception of the file system, or a target
with what the merged names are migrated to. -/
theorem massMigrate_cases (rootPos : Nat) (q : SqlsvrDdlQueries) :
    let m := root.stnamesMigrator parse includePathRegexs excludePathRegexs q
    let target := root.target targetRoot rootPos
    let run := root.massMigrate appTableMigratorFactory parse includePathRegexs excludePathRegexs targetRoot rootPos q
    (m.stnameUsedcols.keys = [] ∧ run = ([], .ok q)) ∨
      m.stnameUsedcols.keys ≠ [] ∧
        ((∃ e, root.openTarget = .error e ∧ run = ([], .error e)) ∨
          (root.openTarget = .ok false ∧
            run = ([], .error (.runtimeError ("can't write target '".toList ++ target ++ ['\''])))) ∨
          root.openTarget = .ok true ∧
            ((∃ e, m.migrateDdlStnames (some appTableMigratorFactory) q = .error e ∧
                run = ([⟨target, none⟩], .error e)) ∨
              ∃ st, m.migrateDdlStnames (some appTableMigratorFactory) q = .ok st ∧
                run = ([⟨target, some ((root.targetMassMigrator parse includePathRegexs excludePathRegexs q).file
                  root.migratedBy ⟨st.statements, st.stnamesMigrationMsgs⟩)⟩], .ok st.queries))) := by
  dsimp only
  unfold massMigrate
  rw [foldlM_validateFile]
  dsimp only
  rw [getTargetMassMigrator_batch]
  dsimp only
  by_cases hkeys : (root.stnamesMigrator parse includePathRegexs excludePathRegexs q).stnameUsedcols.keys = []
  · exact .inl ⟨hkeys, if_pos hkeys⟩
  · refine .inr ⟨hkeys, ?_⟩
    rw [if_neg (show ¬ (root.targetMassMigrator parse includePathRegexs excludePathRegexs
      q).stnamesMigrator.stnameUsedcols.keys = [] from hkeys)]
    cases root.openTarget with
    | error e => exact .inl ⟨e, rfl, rfl⟩
    | ok opened =>
        cases opened with
        | false => exact .inr (.inl ⟨rfl, rfl⟩)
        | true =>
            refine .inr (.inr ⟨rfl, ?_⟩)
            dsimp only
            have hmigrate : (root.targetMassMigrator parse includePathRegexs excludePathRegexs
                q).massMigrateTargetDdl root.migratedBy appTableMigratorFactory q =
                  ((root.stnamesMigrator parse includePathRegexs excludePathRegexs q).migrateDdlStnames
                    (some appTableMigratorFactory) q).map fun st =>
                    (some ((root.targetMassMigrator parse includePathRegexs excludePathRegexs q).file
                      root.migratedBy ⟨st.statements, st.stnamesMigrationMsgs⟩), st.queries) := by
              unfold DdlTargetMassMigrator.massMigrateTargetDdl MiddleApp.massMigrateTargetDdl
              rw [if_neg (show ¬ (root.targetMassMigrator parse includePathRegexs excludePathRegexs
                q).stnamesMigrator.stnameUsedcols.keys = [] from hkeys)]
              change (((root.stnamesMigrator parse includePathRegexs excludePathRegexs q).migrateDdlStnames _ q >>= _)
                >>= _) = _
              cases (root.stnamesMigrator parse includePathRegexs excludePathRegexs q).migrateDdlStnames
                  (some appTableMigratorFactory) q with
              | error e => rfl
              | ok st => rfl
            rw [hmigrate]
            cases (root.stnamesMigrator parse includePathRegexs excludePathRegexs q).migrateDdlStnames
                (some appTableMigratorFactory) q with
            | error e => exact .inl ⟨e, rfl, rfl⟩
            | ok st => exact .inr ⟨st, rfl, rfl⟩

end Run

end BatchSrcRoot

end Middle.MiddleApp
