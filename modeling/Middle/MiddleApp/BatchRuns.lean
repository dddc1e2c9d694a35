import Middle.MiddleApp.BatchMigrator
import Middle.SqlsvrDdl.IterationOrder

/-! Runs in batches. What comes of a batch does not depend on the order in which its files are visited, and is what
one dataset with everything in them would come to; no batch is written over another. -/

namespace Middle.SqlsvrDdl

open Lib Universals NormalDdl

/-! ### Runs for the same contents -/

/-- Statements that differ at most in the order of the tables whose foreign keys stand at their end. -/
def SameUpToFks (statements statements' : List DdlStatement) : Prop :=
  ∃ (before : List DdlStatement) (fks fks' : List (List DdlStatement)), fks'.Perm fks ∧
    (∀ group ∈ fks, ∀ statement ∈ group,
      statement = .newline ∨ ∃ stcname refStcname, statement = .addForeignKey stcname refStcname) ∧
    statements = before ++ fks.flatten ∧ statements' = before ++ fks'.flatten

theorem SameUpToFks.refl (statements : List DdlStatement) : SameUpToFks statements statements := by
  refine ⟨statements, [], [], .nil, fun group hgroup => absurd hgroup List.not_mem_nil, ?_, ?_⟩
  · exact (List.append_nil statements).symm
  · exact (List.append_nil statements).symm

/-- What two runs leave that differ in the order of foreign keys and messages at most. -/
structure MigrationState.SameUpToOrder (st st' : MigrationState) : Prop where
  queries : st'.queries = st.queries
  statements : SameUpToFks st.statements st'.statements
  stnamesMigrationMsgs : st'.stnamesMigrationMsgs.Perm st.stnamesMigrationMsgs

namespace SqlsvrDdlStnamesMigrator.SameContents

variable {m m' : SqlsvrDdlStnamesMigrator} (h : m.SameContents m')

include h

theorem fkTargetMsgs_perm (q : SqlsvrDdlQueries) : (m'.fkTargetMsgs q).Perm (m.fkTargetMsgs q) := by
  have hkeys : (m'.allFkrefStnames q).keys.Perm (m.allFkrefStnames q).keys := by
    refine (List.perm_ext_iff_of_nodup (m'.allFkrefStnames q).nodup (m.allFkrefStnames q).nodup).mpr fun stname => ?_
    change stname ∈ (m'.allFkrefStnames q).keys ↔ stname ∈ (m.allFkrefStnames q).keys
    unfold allFkrefStnames
    simp only [mem_keys_foldl_insert, List.mem_flatMap, h.find, h.haveUsedcols, h.stnameUsedcols.mem_iff]
  unfold fkTargetMsgs
  simp only [h.find]
  exact (hkeys.filter _).map _

/-- Runs for the same contents come to the same, up to the order in which the foreign keys are reached. -/
theorem migrateDdlStnames_sameUpToOrder {σ : Type} (factory : Option (DdlTableMigratorFactory σ))
    (q : SqlsvrDdlQueries) :
    (∃ e, m.migrateDdlStnames factory q = .error e ∧ m'.migrateDdlStnames factory q = .error e) ∨
      ∃ st st', m.migrateDdlStnames factory q = .ok st ∧ m'.migrateDdlStnames factory q = .ok st' ∧
        st.SameUpToOrder st' := by
  unfold migrateDdlStnames
  rw [h.sortStnames_eq, h.visitStname_eq]
  cases m.sortStnames.foldlM (m.visitStname factory) { queries := q } with
  | error e => exact .inl ⟨e, rfl, rfl⟩
  | ok st =>
      refine .inr ⟨_, _, rfl, rfl, ?_⟩
      split
      · exact ⟨rfl, .refl _, .refl _⟩
      · refine ⟨rfl, ?_, (h.fkTargetMsgs_perm st.queries).append_left _⟩
        unfold migrateValidateFkConstraintsDdl
        dsimp only
        split
        · exact .refl _
        · refine ⟨st.statements, m.stnameUsedcols.keys.map st.queries.migrateFkConstraintsDdl,
            m'.stnameUsedcols.keys.map st.queries.migrateFkConstraintsDdl, h.keys.map _, ?_, ?_, ?_⟩
          · intro group hgroup statement hstatement
            obtain ⟨stname, -, rfl⟩ := List.mem_map.mp hgroup
            by_cases hnewline : statement = .newline
            · exact .inl hnewline
            · obtain ⟨fk, -, rfl⟩ := List.mem_map.mp ((mem_statementGroup_iff hnewline _).mp hstatement)
              exact .inr ⟨_, _, rfl⟩
          · rw [List.flatMap_def]
          · rw [List.flatMap_def]

end SqlsvrDdlStnamesMigrator.SameContents

/-- There is nothing to migrate where no tables are used. -/
theorem migrateDdlStnames_of_keys_eq_nil {σ : Type} {m : SqlsvrDdlStnamesMigrator}
    {factory : Option (DdlTableMigratorFactory σ)} {q : SqlsvrDdlQueries} (h : m.stnameUsedcols.keys = []) :
    m.migrateDdlStnames factory q = .ok { queries := q } := by
  unfold SqlsvrDdlStnamesMigrator.migrateDdlStnames SqlsvrDdlStnamesMigrator.sortStnames
  rw [h]
  rfl

end Middle.SqlsvrDdl

namespace Middle.MiddleApp

open Lib Universals NormalDdl SqlsvrDdl

/-! ### The order of the files -/

/-- Source roots that differ in the order in which the iterator visits their files at most. -/
structure BatchSrcRoot.SameFiles (root root' : BatchSrcRoot) : Prop where
  srcRoot : root'.srcRoot = root.srcRoot
  filepaths : root'.filepaths.Perm root.filepaths
  openTarget : root'.openTarget = root.openTarget
  migratedBy : root'.migratedBy = root.migratedBy

/-- Files that differ at most in the order of the sources named in their headers, of the tables whose foreign keys stand
at their end and of messages. -/
structure TargetDdlFile.SameUpToOrder (file file' : TargetDdlFile) : Prop where
  header : ∃ program filepaths filepaths', filepaths'.Perm filepaths ∧
    file.header = (writeTargetDdlHeader program filepaths true).1 ∧
    file'.header = (writeTargetDdlHeader program filepaths' true).1
  headerLinecnt : file'.headerLinecnt = file.headerLinecnt
  statements : SameUpToFks file.statements file'.statements
  stnamesMigrationMsgs : file'.stnamesMigrationMsgs.Perm file.stnamesMigrationMsgs

structure BatchWrite.SameUpToOrder (write write' : BatchWrite) : Prop where
  target : write'.target = write.target
  file : Option.Rel TargetDdlFile.SameUpToOrder write.file write'.file

section Order

variable {σ : Type} {appTableMigratorFactory : DdlTableMigratorFactory σ} {parse : XercesDomParser}
  {includePathRegexs excludePathRegexs : List (Text → Bool)} {targetRoot : Text}

namespace BatchSrcRoot.SameFiles

variable {root root' : BatchSrcRoot} (h : root.SameFiles root')

include h

theorem sources_perm : (root'.sources parse includePathRegexs excludePathRegexs).Perm
    (root.sources parse includePathRegexs excludePathRegexs) := by
  unfold sources
  rw [h.srcRoot]
  exact h.filepaths.filterMap _

theorem sameContents (q : SqlsvrDdlQueries) :
    (root.stnamesMigrator parse includePathRegexs excludePathRegexs q).SameContents
      (root'.stnamesMigrator parse includePathRegexs excludePathRegexs q) := by
  have hsources := @sources_perm parse includePathRegexs excludePathRegexs _ _ h
  refine ⟨?_, ?_, ?_⟩
  · rw [stnameUsedcols_stnamesMigrator, stnameUsedcols_stnamesMigrator]
    exact DdlStnameUsedcols.mergeAll_perm (hsources.map _)
  · rw [haveUsedcols_stnamesMigrator, haveUsedcols_stnamesMigrator, hsources.isEmpty_eq]
  · ext stcname
    rw [mem_assumedIdents_stnamesMigrator, mem_assumedIdents_stnamesMigrator]
    simp only [hsources.mem_iff]

theorem target_eq (rootPos : Nat) : root'.target targetRoot rootPos = root.target targetRoot rootPos := by
  unfold target
  rw [h.srcRoot]

theorem file_sameUpToOrder (q : SqlsvrDdlQueries) {st st' : MigrationState} (hst : st.SameUpToOrder st') :
    ((root.targetMassMigrator parse includePathRegexs excludePathRegexs q).file root.migratedBy
      ⟨st.statements, st.stnamesMigrationMsgs⟩).SameUpToOrder
        ((root'.targetMassMigrator parse includePathRegexs excludePathRegexs q).file root'.migratedBy
          ⟨st'.statements, st'.stnamesMigrationMsgs⟩) := by
  have hsources := @sources_perm parse includePathRegexs excludePathRegexs _ _ h
  obtain ⟨hfilepaths, -, -, hmsgs⟩ := foldl_addSource q (root.sources parse includePathRegexs excludePathRegexs) {}
  obtain ⟨hfilepaths', -, -, hmsgs'⟩ :=
    foldl_addSource q (root'.sources parse includePathRegexs excludePathRegexs) {}
  have hperm : (root'.batch parse includePathRegexs excludePathRegexs q).filepaths.Perm
      (root.batch parse includePathRegexs excludePathRegexs q).filepaths := by
    unfold batch
    rw [hfilepaths, hfilepaths']
    exact (hsources.map _).append_left _
  refine ⟨⟨root.migratedBy, _, _, hperm, rfl, by rw [h.migratedBy]; rfl⟩, ?_, hst.statements, ?_⟩
  · show (writeTargetDdlHeader _ _ true).2 = (writeTargetDdlHeader _ _ true).2
    unfold writeTargetDdlHeader
    dsimp only
    rw [foldl_header, foldl_header]
    dsimp only
    exact congrArg (1 + · + 1) hperm.length_eq
  · refine (List.perm_insertionSort _ _).trans (.trans ?_ (List.perm_insertionSort _ _).symm)
    refine hst.stnamesMigrationMsgs.append ?_
    change (root'.batch parse includePathRegexs excludePathRegexs q).batchStnamesMigrationMsgs.Perm
      (root.batch parse includePathRegexs excludePathRegexs q).batchStnamesMigrationMsgs
    unfold batch
    rw [hmsgs, hmsgs']
    exact (hsources.flatMap_right _).append_left _

/-- A source root whose files are visited in another order comes to the same, up to order. -/
theorem massMigrate_sameUpToOrder (rootPos : Nat) (q : SqlsvrDdlQueries) :
    let run := root.massMigrate appTableMigratorFactory parse includePathRegexs excludePathRegexs targetRoot rootPos q
    let run' := root'.massMigrate appTableMigratorFactory parse includePathRegexs excludePathRegexs targetRoot rootPos q
    List.Forall₂ BatchWrite.SameUpToOrder run.1 run'.1 ∧ run'.2 = run.2 := by
  dsimp only
  have hsame : (root.stnamesMigrator parse includePathRegexs excludePathRegexs q).SameContents
      (root'.stnamesMigrator parse includePathRegexs excludePathRegexs q) := h.sameContents q
  have hcases := @massMigrate_cases root σ appTableMigratorFactory parse includePathRegexs excludePathRegexs
    targetRoot rootPos q
  have hcases' := @massMigrate_cases root' σ appTableMigratorFactory parse includePathRegexs excludePathRegexs
    targetRoot rootPos q
  dsimp only at hcases hcases'
  rw [h.openTarget, h.target_eq rootPos] at hcases'
  by_cases hkeys : (root.stnamesMigrator parse includePathRegexs excludePathRegexs q).stnameUsedcols.keys = []
  · have hkeys' : (root'.stnamesMigrator parse includePathRegexs excludePathRegexs q).stnameUsedcols.keys = [] :=
      (hkeys ▸ hsame.keys).eq_nil
    rw [(hcases.resolve_right fun hne => hne.1 hkeys).2, (hcases'.resolve_right fun hne => hne.1 hkeys').2]
    exact ⟨.nil, rfl⟩
  · have hkeys' : (root'.stnamesMigrator parse includePathRegexs excludePathRegexs q).stnameUsedcols.keys ≠ [] :=
      fun hnil => hkeys (hnil ▸ hsame.keys).symm.eq_nil
    obtain ⟨-, hopen⟩ := hcases.resolve_left fun hnil => hkeys hnil.1
    obtain ⟨-, hopen'⟩ := hcases'.resolve_left fun hnil => hkeys' hnil.1
    obtain ⟨e, he, hrun⟩ | ⟨hfalse, hrun⟩ | ⟨htrue, hrun⟩ := hopen
    · rw [he] at hopen'
      obtain ⟨e', he', hrun'⟩ | ⟨hfalse', -⟩ | ⟨htrue', -⟩ := hopen'
      · cases he'
        rw [hrun, hrun']
        exact ⟨.nil, rfl⟩
      · cases hfalse'
      · cases htrue'
    · rw [hfalse] at hopen'
      obtain ⟨e', he', -⟩ | ⟨-, hrun'⟩ | ⟨htrue', -⟩ := hopen'
      · cases he'
      · rw [hrun, hrun']
        exact ⟨.nil, rfl⟩
      · cases htrue'
    · rw [htrue] at hopen'
      obtain ⟨e', he', -⟩ | ⟨hfalse', -⟩ | ⟨-, hrun'⟩ := hopen'
      · cases he'
      · cases hfalse'
      · obtain ⟨e, hmigrate, hmigrate'⟩ | ⟨st, st', hmigrate, hmigrate', hst⟩ :=
          hsame.migrateDdlStnames_sameUpToOrder (some appTableMigratorFactory) q
        · rw [hmigrate] at hrun
          rw [hmigrate'] at hrun'
          obtain ⟨e₁, he₁, hrun⟩ | ⟨st₁, hst₁, -⟩ := hrun
          · obtain ⟨e₂, he₂, hrun'⟩ | ⟨st₂, hst₂, -⟩ := hrun'
            · cases he₁
              cases he₂
              rw [hrun, hrun']
              exact ⟨.cons ⟨rfl, .none⟩ .nil, rfl⟩
            · cases hst₂
          · cases hst₁
        · rw [hmigrate] at hrun
          rw [hmigrate'] at hrun'
          obtain ⟨e₁, he₁, -⟩ | ⟨st₁, hst₁, hrun⟩ := hrun
          · cases he₁
          · obtain ⟨e₂, he₂, -⟩ | ⟨st₂, hst₂, hrun'⟩ := hrun'
            · cases he₂
            · cases hst₁
              cases hst₂
              rw [hrun, hrun']
              exact ⟨.cons ⟨rfl, .some (h.file_sameUpToOrder q hst)⟩ .nil, congrArg Except.ok hst.queries⟩

end BatchSrcRoot.SameFiles

theorem massMigrateBatches_sameUpToOrder {roots roots' : List BatchSrcRoot}
    (h : List.Forall₂ BatchSrcRoot.SameFiles roots roots') (rootPos : Nat) (q : SqlsvrDdlQueries) :
    let run := massMigrateBatches appTableMigratorFactory parse includePathRegexs excludePathRegexs targetRoot roots
      rootPos q
    let run' := massMigrateBatches appTableMigratorFactory parse includePathRegexs excludePathRegexs targetRoot roots'
      rootPos q
    List.Forall₂ BatchWrite.SameUpToOrder run.1 run'.1 ∧ run'.2 = run.2 := by
  dsimp only
  induction h generalizing rootPos q with
  | nil => exact ⟨.nil, rfl⟩
  | @cons root root' roots roots' hroot _ ih =>
      obtain ⟨hwrites, hresult⟩ := @BatchSrcRoot.SameFiles.massMigrate_sameUpToOrder σ appTableMigratorFactory parse
        includePathRegexs excludePathRegexs targetRoot _ _ hroot rootPos q
      rw [massMigrateBatches, massMigrateBatches]
      generalize root.massMigrate appTableMigratorFactory parse includePathRegexs excludePathRegexs targetRoot rootPos
        q = run at hwrites hresult ⊢
      generalize root'.massMigrate appTableMigratorFactory parse includePathRegexs excludePathRegexs targetRoot rootPos
        q = run' at hwrites hresult ⊢
      obtain ⟨writes, result⟩ := run
      obtain ⟨writes', result'⟩ := run'
      obtain rfl : result' = result := hresult
      cases result' with
      | error e => exact ⟨hwrites, rfl⟩
      | ok q' =>
          obtain ⟨hbehind, hend⟩ := ih (rootPos + 1) q'
          exact ⟨List.rel_append hwrites hbehind, hend⟩

/-- The targets of batches do not depend on the order in which the iterator visits the files of a source root, up to
the order in which they name sources, reach foreign keys and list messages; nor does what is left of the metadata. -/
theorem massMigrateBatchSrcRoots_sameUpToOrder {roots roots' : List BatchSrcRoot}
    (h : List.Forall₂ BatchSrcRoot.SameFiles roots roots') (q : SqlsvrDdlQueries) :
    let run := massMigrateBatchSrcRoots appTableMigratorFactory parse includePathRegexs excludePathRegexs targetRoot
      roots q
    let run' := massMigrateBatchSrcRoots appTableMigratorFactory parse includePathRegexs excludePathRegexs targetRoot
      roots' q
    List.Forall₂ BatchWrite.SameUpToOrder run.1 run'.1 ∧ run'.2 = run.2 := by
  dsimp only
  unfold massMigrateBatchSrcRoots
  split
  · exact ⟨.nil, rfl⟩
  · exact massMigrateBatches_sameUpToOrder h 0 q

/-- A source root with two datasets of `dbo.orders`, visited in this order. -/
def ordersRoot (filepaths : List Text) (below : ∀ filepath ∈ filepaths, "src".toList <+: filepath) : BatchSrcRoot where
  srcRoot := ⟨false, "src".toList⟩
  filepaths
  openTarget := .ok true
  migratedBy := firstVersion
  below

theorem ordersRoot_sameFiles {filepaths filepaths' : List Text} {below below'} (h : filepaths'.Perm filepaths) :
    (ordersRoot filepaths below).SameFiles (ordersRoot filepaths' below') := ⟨rfl, h, rfl, rfl⟩

def rootAB : BatchSrcRoot := ordersRoot ["src/a.xml".toList, "src/b.xml".toList] (by decide)

def rootBA : BatchSrcRoot := ordersRoot ["src/b.xml".toList, "src/a.xml".toList] (by decide)

/-- A run over the batch of a source root, for no metadata of foreign keys. -/
def runBatch (root : BatchSrcRoot) : List BatchWrite × Except Fault SqlsvrDdlQueries :=
  massMigrateBatchSrcRoots (HsqldbTableMigrator.factory intPrefs 0) ordersDataset [] [] "t".toList [root]
    (rAndT ⟨∅, ∅, ∅⟩)

/-- Two files of a batch, visited in either order. -/
theorem massMigrateBatchSrcRoots_sameUpToOrder_a_b :
    (runBatch rootAB).1.map (fun write => String.ofList write.target) = ["t/middle-batch-1.ddl"] ∧
      List.Forall₂ BatchWrite.SameUpToOrder (runBatch rootAB).1 (runBatch rootBA).1 ∧
      (runBatch rootBA).2 = (runBatch rootAB).2 := by
  have hroots : List.Forall₂ BatchSrcRoot.SameFiles [rootAB] [rootBA] :=
    .cons (ordersRoot_sameFiles (.swap "src/a.xml".toList "src/b.xml".toList [])) .nil
  refine ⟨?_, massMigrateBatchSrcRoots_sameUpToOrder hroots _⟩
  decide

/-! ### The targets of a run -/

/-- At most one target is opened for a source root. -/
theorem BatchSrcRoot.map_target_massMigrate (root : BatchSrcRoot) (rootPos : Nat) (q : SqlsvrDdlQueries) :
    List.Sublist
      ((root.massMigrate appTableMigratorFactory parse includePathRegexs excludePathRegexs targetRoot rootPos q).1.map
        BatchWrite.target) [root.target targetRoot rootPos] := by
  obtain ⟨-, hrun⟩ | ⟨-, ⟨e, -, hrun⟩ | ⟨-, hrun⟩ | ⟨-, ⟨e, -, hrun⟩ | ⟨st, -, hrun⟩⟩⟩ :=
    @massMigrate_cases root σ appTableMigratorFactory parse includePathRegexs excludePathRegexs targetRoot rootPos q
  · rw [hrun]
    exact List.nil_sublist _
  · rw [hrun]
    exact List.nil_sublist _
  · rw [hrun]
    exact List.nil_sublist _
  · rw [hrun]
    exact .refl _
  · rw [hrun]
    exact .refl _

/-- The targets that are opened are those of source roots, one for each at most. -/
theorem map_target_massMigrateBatches (roots : List BatchSrcRoot) (rootPos : Nat) (q : SqlsvrDdlQueries) :
    List.Sublist
      ((massMigrateBatches appTableMigratorFactory parse includePathRegexs excludePathRegexs targetRoot roots rootPos
        q).1.map BatchWrite.target)
      ((roots.zipIdx rootPos).map fun root => root.1.target targetRoot root.2) := by
  induction roots generalizing rootPos q with
  | nil => exact .slnil
  | cons root roots ih =>
      have hroot := @BatchSrcRoot.map_target_massMigrate σ appTableMigratorFactory parse includePathRegexs
        excludePathRegexs targetRoot root rootPos q
      rw [massMigrateBatches, List.zipIdx_cons, List.map_cons]
      generalize root.massMigrate appTableMigratorFactory parse includePathRegexs excludePathRegexs targetRoot rootPos
        q = run at hroot ⊢
      obtain ⟨writes, result⟩ := run
      cases result with
      | error e => exact hroot.trans (List.sublist_append_left _ _)
      | ok q' =>
          dsimp only
          rw [List.map_append]
          exact hroot.append (ih (rootPos + 1) q')

/-- No two targets of batches are the same. -/
theorem massMigrateBatchSrcRoots_pairwise (appTableMigratorFactory : DdlTableMigratorFactory σ) (parse : XercesDomParser)
    (includePathRegexs excludePathRegexs : List (Text → Bool)) (targetRoot : Text) (roots : List BatchSrcRoot)
    (q : SqlsvrDdlQueries) :
    (massMigrateBatchSrcRoots appTableMigratorFactory parse includePathRegexs excludePathRegexs targetRoot roots
      q).1.Pairwise fun write write' => ¬ SamePath write.target write'.target := by
  unfold massMigrateBatchSrcRoots
  split
  · exact .nil
  · rename_i hroot
    rw [← List.pairwise_map (f := BatchWrite.target) (R := fun target target' => ¬ SamePath target target')]
    refine List.Pairwise.sublist (map_target_massMigrateBatches roots 0 q) ?_
    rw [List.pairwise_map, List.pairwise_iff_getElem]
    intro i j hi hj hij
    rw [List.getElem_zipIdx, List.getElem_zipIdx]
    exact BatchSrcRoot.not_samePath_target _ hroot _ (by omega)

end Order

/-! ### Batches of datasets -/

/-- The children of the root of the document in a file. -/
def documentChildren (parse : XercesDomParser) (filepath : Text) : List DomNode :=
  match parse filepath with
  | .ok (some ⟨some root⟩) => root.children
  | _ => []

/-- A document in which these are the children of the root of a dataset. -/
def datasetOf (children : List DomNode) : XercesDomParser := fun _ => .ok (some ⟨some ⟨"dataset".toList, children⟩⟩)

/-- Whether a child can be read does not depend on the path of the file. -/
theorem not_refused_of_not_refused {node : DomNode} {filepath filepath' : Text}
    (h : ∀ what, ¬ node.Refused filepath what) (what : Text) : ¬ node.Refused filepath' what := by
  cases node with
  | element tableName attributes => exact fun hrefused => h _ ⟨hrefused.1, rfl⟩
  | comment text =>
      rintro ⟨columnName, hcolumn, hname, -⟩
      exact h _ ⟨columnName, hcolumn, hname, rfl⟩
  | other => exact id

/-- A dataset of children that can be read is read. -/
theorem readSource_datasetOf {children : List DomNode} {filepath : Text}
    (h : ∀ node ∈ children, ∀ what, ¬ node.Refused filepath what) :
    ∃ names, HoldsNames children names ∧
      readSource (datasetOf children) filepath = .ok (some ⟨names.stnameUsedcols, true, names.assumedIdents⟩) := by
  obtain hskip | ⟨children', names, hparse, -, hholds, hread⟩ := readSource_cases (datasetOf children) filepath
  · exfalso
    unfold readSource at hskip
    cases hread : readDdlNames (datasetOf children) filepath {} with
    | ok read =>
        rw [hread] at hskip
        cases hskip
    | error e =>
        obtain ⟨what, -, hparse | ⟨hparse, -⟩ | ⟨doc, hparse, ⟨hroot, -⟩ | ⟨before, node, behind, hsplit, -, hnode⟩⟩⟩ :=
          (readDdlNames_eq_error_iff _ _ _ _).mp hread
        · cases hparse
        · cases hparse
        · cases hparse
          exact hroot _ rfl rfl
        · cases hparse
          cases hsplit
          exact h node (List.mem_append_right _ List.mem_cons_self) what hnode
  · cases hparse
    exact ⟨names, hholds, hread⟩

namespace BatchSrcRoot

variable (parse : XercesDomParser) (includePathRegexs excludePathRegexs : List (Text → Bool)) (root : BatchSrcRoot)

/-- The children of all datasets in a batch. -/
def children : List DomNode :=
  (root.sources parse includePathRegexs excludePathRegexs).flatMap fun source => documentChildren parse source.1

/-- The names in the files of a batch are those that one dataset with the children of all of them would give. -/
theorem holdsNames (q : SqlsvrDdlQueries) :
    HoldsNames (root.children parse includePathRegexs excludePathRegexs)
      ⟨(root.stnamesMigrator parse includePathRegexs excludePathRegexs q).stnameUsedcols,
        (root.stnamesMigrator parse includePathRegexs excludePathRegexs q).assumedIdents⟩ := by
  have hsource : ∀ source ∈ root.sources parse includePathRegexs excludePathRegexs,
      HoldsNames (documentChildren parse source.1) ⟨source.2.stnameUsedcols, source.2.assumedIdents⟩ := by
    intro source hmem
    obtain ⟨-, children, hparse, -, hholds⟩ := root.haveUsedcols_of_mem_sources hmem
    unfold documentChildren
    rw [hparse]
    exact hholds
  refine ⟨fun stname => ?_, fun stname cname => ?_, fun stcname => ?_⟩
  · rw [stnameUsedcols_stnamesMigrator, (DdlStnameUsedcols.find_mergeAll _ _).1]
    simp only [List.mem_map, exists_exists_and_eq_and]
    constructor
    · rintro ⟨source, hmem, htable⟩
      obtain ⟨tableName, attributes, hnode, hparse⟩ := ((hsource source hmem).table stname).mp htable
      exact ⟨tableName, attributes, List.mem_flatMap.mpr ⟨source, hmem, hnode⟩, hparse⟩
    · rintro ⟨tableName, attributes, hnode, hparse⟩
      obtain ⟨source, hmem, hnode⟩ := List.mem_flatMap.mp hnode
      exact ⟨source, hmem, ((hsource source hmem).table stname).mpr ⟨tableName, attributes, hnode, hparse⟩⟩
  · rw [stnameUsedcols_stnamesMigrator, (DdlStnameUsedcols.find_mergeAll _ _).2]
    simp only [List.mem_map, exists_exists_and_eq_and]
    constructor
    · rintro ⟨source, hmem, husedcol⟩
      obtain ⟨tableName, attributes, hnode, hcols⟩ := ((hsource source hmem).usedcol stname cname).mp husedcol
      exact ⟨tableName, attributes, List.mem_flatMap.mpr ⟨source, hmem, hnode⟩, hcols⟩
    · rintro ⟨tableName, attributes, hnode, hcols⟩
      obtain ⟨source, hmem, hnode⟩ := List.mem_flatMap.mp hnode
      exact ⟨source, hmem, ((hsource source hmem).usedcol stname cname).mpr ⟨tableName, attributes, hnode, hcols⟩⟩
  · rw [mem_assumedIdents_stnamesMigrator]
    constructor
    · rintro ⟨source, hmem, hident⟩
      obtain ⟨text, columnName, hnode, hcolumn⟩ := ((hsource source hmem).assumedIdent stcname).mp hident
      exact ⟨text, columnName, List.mem_flatMap.mpr ⟨source, hmem, hnode⟩, hcolumn⟩
    · rintro ⟨text, columnName, hnode, hcolumn⟩
      obtain ⟨source, hmem, hnode⟩ := List.mem_flatMap.mp hnode
      exact ⟨source, hmem, ((hsource source hmem).assumedIdent stcname).mpr ⟨text, columnName, hnode, hcolumn⟩⟩

theorem not_refused_of_mem_children {node : DomNode} (h : node ∈ root.children parse includePathRegexs excludePathRegexs)
    (filepath what : Text) : ¬ node.Refused filepath what := by
  obtain ⟨source, hmem, hnode⟩ := List.mem_flatMap.mp h
  obtain ⟨-, children, hparse, hreadable, -⟩ := root.haveUsedcols_of_mem_sources hmem
  unfold documentChildren at hnode
  rw [hparse] at hnode
  exact not_refused_of_not_refused (hreadable node hnode) what

/-- A batch is migrated as the one dataset that holds the elements and comments of all its files, up to order. -/
theorem migrateDdlStnames_datasetOf {σ : Type} (q : SqlsvrDdlQueries) (factory : Option (DdlTableMigratorFactory σ))
    (filepath : Text) :
    ∃ m, readSource (datasetOf (root.children parse includePathRegexs excludePathRegexs)) filepath = .ok (some m) ∧
      ((∃ e, (root.stnamesMigrator parse includePathRegexs excludePathRegexs q).migrateDdlStnames factory q =
          .error e ∧ m.migrateDdlStnames factory q = .error e) ∨
        ∃ st st', (root.stnamesMigrator parse includePathRegexs excludePathRegexs q).migrateDdlStnames factory q =
          .ok st ∧ m.migrateDdlStnames factory q = .ok st' ∧ st.SameUpToOrder st') := by
  obtain ⟨names, hholds, hread⟩ := readSource_datasetOf fun node hnode what =>
    root.not_refused_of_mem_children parse includePathRegexs excludePathRegexs hnode filepath what
  obtain ⟨hperm, hidents⟩ :=
    (root.holdsNames parse includePathRegexs excludePathRegexs q).perm hholds fun _ => Iff.rfl
  refine ⟨_, hread, ?_⟩
  by_cases hsources : root.sources parse includePathRegexs excludePathRegexs = []
  · have hkeys : (root.stnamesMigrator parse includePathRegexs excludePathRegexs q).stnameUsedcols.keys = [] := by
      rw [stnameUsedcols_stnamesMigrator, hsources]
      rfl
    have hkeys' : names.stnameUsedcols.keys = [] := by
      have hmap : names.stnameUsedcols.keys.Perm
          (root.stnamesMigrator parse includePathRegexs excludePathRegexs q).stnameUsedcols.keys :=
        (hperm.map Prod.fst).symm
      rw [hkeys] at hmap
      exact hmap.eq_nil
    rw [migrateDdlStnames_of_keys_eq_nil hkeys, migrateDdlStnames_of_keys_eq_nil hkeys']
    exact .inr ⟨_, _, rfl, rfl, rfl, .refl _, .refl _⟩
  · apply SqlsvrDdlStnamesMigrator.SameContents.migrateDdlStnames_sameUpToOrder
    refine ⟨hperm.symm, ?_, hidents.symm⟩
    rw [haveUsedcols_stnamesMigrator]
    cases hlist : root.sources parse includePathRegexs excludePathRegexs with
    | nil => exact absurd hlist hsources
    | cons source sources => rfl

end BatchSrcRoot

/-! ### What is said about a batch -/

/-- The targets of foreign keys that are reported: those of used columns, unless they are used themselves. -/
theorem mem_fkTargetMsgs_usedcols_iff {m : SqlsvrDdlStnamesMigrator} (hused : m.haveUsedcols = true)
    {q : SqlsvrDdlQueries} {msg : DdlStnamesMigrationMsg} :
    msg ∈ m.fkTargetMsgs q ↔ ∃ stname, (m.stnameUsedcols.find stname).isNone ∧ msg = fkTargetMsg stname ∧
      ∃ table, ∃ fk ∈ q.unhiddenFks table, fk.2.refStcname.stname = stname ∧
        DdlCname.ofText fk.1.columnName ∈ (m.stnameUsedcols.find table).getD ∅ := by
  rw [SqlsvrDdlStnamesMigrator.mem_fkTargetMsgs_iff]
  simp only [hused, if_true]
  constructor
  · rintro ⟨stname, hunused, ⟨e, he, hmem⟩, rfl⟩
    have hfind : m.stnameUsedcols.find e.1 = some e.2 := UnorderedMap.find_eq_some_iff.mpr he
    rw [hfind] at hmem
    obtain ⟨fk, hfk, href⟩ := List.mem_map.mp hmem
    obtain ⟨hfk, hcol⟩ := List.mem_filter.mp hfk
    refine ⟨stname, hunused, rfl, e.1, fk, hfk, href, ?_⟩
    rw [hfind]
    exact of_decide_eq_true hcol
  · rintro ⟨stname, hunused, rfl, table, fk, hfk, href, hcol⟩
    cases hfind : m.stnameUsedcols.find table with
    | none =>
        rw [hfind] at hcol
        exact absurd hcol (Finset.notMem_empty _)
    | some usedcols =>
        rw [hfind] at hcol
        refine ⟨stname, hunused, ⟨(table, usedcols), UnorderedMap.find_eq_some_iff.mp hfind, ?_⟩, rfl⟩
        rw [hfind]
        exact List.mem_map.mpr ⟨fk, List.mem_filter.mpr ⟨hfk, decide_eq_true hcol⟩, href⟩

theorem mem_undefinedMsgs_iff {m : SqlsvrDdlStnamesMigrator} {q : SqlsvrDdlQueries} {msg : DdlStnamesMigrationMsg} :
    msg ∈ undefinedMsgs q m.sortStnames ↔ ∃ stname, (m.stnameUsedcols.find stname).isSome ∧
      (q.findTc stname).isNone ∧ msg = tableUndefinedMsg stname := by
  have hmem : ∀ stname, stname ∈ m.sortStnames ↔ (m.stnameUsedcols.find stname).isSome := by
    intro stname
    rw [SqlsvrDdlStnamesMigrator.mem_sortStnames_iff, Option.isSome_iff_ne_none, ne_eq, UnorderedMap.find_eq_none_iff,
      not_not]
  unfold undefinedMsgs
  simp only [List.mem_map, List.mem_filter, hmem, and_assoc, eq_comm]

/-- What validating the names of a batch would say is what it says about a source file, except that a table used in
one file and referenced in another is not missed. -/
theorem BatchSrcRoot.mem_validationMsgs_iff (parse : XercesDomParser)
    (includePathRegexs excludePathRegexs : List (Text → Bool)) (root : BatchSrcRoot) (q : SqlsvrDdlQueries)
    (msg : DdlStnamesMigrationMsg) :
    msg ∈ validationMsgs q (root.stnamesMigrator parse includePathRegexs excludePathRegexs q) ↔
      (∃ source ∈ root.sources parse includePathRegexs excludePathRegexs, msg ∈ validationMsgs q source.2) ∧
        ∀ stname, msg = fkTargetMsg stname →
          ∀ source ∈ root.sources parse includePathRegexs excludePathRegexs,
            (source.2.stnameUsedcols.find stname).isNone := by
  by_cases hsources : root.sources parse includePathRegexs excludePathRegexs = []
  · have hkeys : (root.stnamesMigrator parse includePathRegexs excludePathRegexs q).stnameUsedcols = ∅ := by
      rw [stnameUsedcols_stnamesMigrator, hsources]
      rfl
    rw [hsources]
    refine iff_of_false (fun h => ?_) fun h => by simp at h
    rcases List.mem_append.mp h with h | h
    · obtain ⟨stname, hsome, -, -⟩ := mem_undefinedMsgs_iff.mp h
      rw [hkeys] at hsome
      cases hsome
    · obtain ⟨stname, -, ⟨e, he, -⟩, -⟩ := SqlsvrDdlStnamesMigrator.mem_fkTargetMsgs_iff.mp h
      rw [hkeys] at he
      cases he
  have hused : (root.stnamesMigrator parse includePathRegexs excludePathRegexs q).haveUsedcols = true := by
    rw [haveUsedcols_stnamesMigrator]
    simpa using hsources
  have hused' : ∀ source ∈ root.sources parse includePathRegexs excludePathRegexs, source.2.haveUsedcols = true :=
    fun source hsource => (root.haveUsedcols_of_mem_sources hsource).1
  have hmerged := fun stname => DdlStnameUsedcols.find_mergeAll
    ((root.sources parse includePathRegexs excludePathRegexs).map (·.2.stnameUsedcols)) stname
  rw [← root.stnameUsedcols_stnamesMigrator q] at hmerged
  simp only [List.mem_map, exists_exists_and_eq_and] at hmerged
  have hnone : ∀ stname, ((root.stnamesMigrator parse includePathRegexs excludePathRegexs
      q).stnameUsedcols.find stname).isNone ↔ ∀ source ∈ root.sources parse includePathRegexs excludePathRegexs,
        (source.2.stnameUsedcols.find stname).isNone := by
    intro stname
    simpa using not_congr (hmerged stname).1
  constructor
  · intro h
    rcases List.mem_append.mp h with h | h
    · obtain ⟨stname, htable, hundefined, rfl⟩ := mem_undefinedMsgs_iff.mp h
      obtain ⟨source, hsource, htable⟩ := (hmerged stname).1.mp htable
      refine ⟨⟨source, hsource, List.mem_append_left _ ?_⟩, ?_⟩
      · exact mem_undefinedMsgs_iff.mpr ⟨stname, htable, hundefined, rfl⟩
      · intro stname' heq
        exact absurd ⟨stname'.name, congrArg (fun msg => msg.msg.msg) heq⟩ (not_isFkTarget_tableUndefinedMsg stname)
    · obtain ⟨stname, hunused, rfl, table, fk, hfk, href, hcol⟩ := (mem_fkTargetMsgs_usedcols_iff hused).mp h
      obtain ⟨source, hsource, hcol⟩ := ((hmerged table).2 _).mp hcol
      have hall := (hnone stname).mp hunused
      refine ⟨⟨source, hsource, List.mem_append_right _ ?_⟩, ?_⟩
      · exact (mem_fkTargetMsgs_usedcols_iff (hused' source hsource)).mpr
          ⟨stname, hall source hsource, rfl, table, fk, hfk, href, hcol⟩
      · intro stname' heq
        rwa [← fkTargetMsg_injective heq]
  · rintro ⟨⟨source, hsource, h⟩, hall⟩
    rcases List.mem_append.mp h with h | h
    · obtain ⟨stname, htable, hundefined, rfl⟩ := mem_undefinedMsgs_iff.mp h
      exact List.mem_append_left _ (mem_undefinedMsgs_iff.mpr
        ⟨stname, (hmerged stname).1.mpr ⟨source, hsource, htable⟩, hundefined, rfl⟩)
    · obtain ⟨stname, -, rfl, table, fk, hfk, href, hcol⟩ :=
        (mem_fkTargetMsgs_usedcols_iff (hused' source hsource)).mp h
      exact List.mem_append_right _ ((mem_fkTargetMsgs_usedcols_iff hused).mpr
        ⟨stname, (hnone stname).mpr (hall stname rfl), rfl, table, fk, hfk, href,
          ((hmerged table).2 _).mpr ⟨source, hsource, hcol⟩⟩)

end Middle.MiddleApp
