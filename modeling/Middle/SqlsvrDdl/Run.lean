import Middle.NormalDdl.CreateTable
import Middle.SqlsvrDdl.Constraints

/-! A run of `migrate_ddl_stnames` for HSQLDB. What it does to the metadata is to reject columns: each state
holds the metadata as they were, hidden for the columns rejected so far. What is rejected in a table depends
on the metadata as they were and the preferences alone. -/

namespace Middle.SqlsvrDdl

open Lib Universals NormalDdl MiddleApp

/-! ### Rejecting the columns of a table -/

/-- The full names of columns of a table. -/
def stcnamesOf (stname : DdlStname) (cnames : List DdlCname) : Finset DdlStcname :=
  (cnames.map fun cname => DdlStcname.ofStname stname cname.name).toFinset

theorem mem_stcnamesOf_iff {stname : DdlStname} {cnames : List DdlCname} {k : DdlStcname} :
    k ∈ stcnamesOf stname cnames ↔ ∃ cname ∈ cnames, .ofStname stname cname.name = k := by
  unfold stcnamesOf
  rw [List.mem_toFinset, List.mem_map]

namespace SqlsvrDdlQueries

/-- What `hide_rejected_column` can fail on. -/
def checkRejected (q : SqlsvrDdlQueries) (stcname : DdlStcname) : Except Fault Unit :=
  if !q.hasColumn stcname then .error .assertion
  else if q.fkMapper.Dangles (q.fkMapper.findReverse stcname) then .error .undefined
  else .ok ()

/-- What hiding columns of a table one after the other can fail on. -/
def checkAllRejected (q : SqlsvrDdlQueries) (stname : DdlStname) (cnames : List DdlCname) :
    Except Fault Unit :=
  cnames.foldlM (fun _ cname => q.checkRejected (.ofStname stname cname.name)) ()

theorem hideRejectedColumn_hideAll (q : SqlsvrDdlQueries) (K : Finset DdlStcname) (stcname : DdlStcname) :
    (q.hideAll K).hideRejectedColumn stcname =
      (q.checkRejected stcname).map fun _ => q.hideAll (K ∪ {stcname}) := by
  have hdangles : (q.hideAll K).fkMapper.Dangles ((q.hideAll K).fkMapper.findReverse stcname) =
      q.fkMapper.Dangles (q.fkMapper.findReverse stcname) := rfl
  unfold checkRejected
  rw [hideRejectedColumn_eq, hasColumn_hideAll, hdangles, hideAll_hideAll]
  split
  · rfl
  · split <;> rfl

theorem foldlM_hideRejectedColumn (q : SqlsvrDdlQueries) (K : Finset DdlStcname) (stname : DdlStname)
    (cnames : List DdlCname) :
    cnames.foldlM (fun q cname => q.hideRejectedColumn (.ofStname stname cname.name)) (q.hideAll K) =
      (q.checkAllRejected stname cnames).map fun _ => q.hideAll (K ∪ stcnamesOf stname cnames) := by
  induction cnames generalizing K with
  | nil =>
      have hunion : K ∪ stcnamesOf stname [] = K := Finset.union_empty K
      rw [hunion]
      rfl
  | cons cname cnames ih =>
      have hunion : K ∪ stcnamesOf stname (cname :: cnames) =
          K ∪ {.ofStname stname cname.name} ∪ stcnamesOf stname cnames := by
        rw [Finset.union_assoc]
        congr 1
        ext k
        simp [mem_stcnamesOf_iff, eq_comm]
      rw [List.foldlM_cons, hideRejectedColumn_hideAll, checkAllRejected, List.foldlM_cons, hunion]
      cases q.checkRejected (.ofStname stname cname.name) with
      | error e => rfl
      | ok u => exact ih _

theorem isSome_findTableInfo (q : SqlsvrDdlQueries) (stname : DdlStname) :
    (q.findTableInfo stname).isSome = (q.findTc stname).isSome := Option.isSome_map

theorem findTableInfo_hideAll (q : SqlsvrDdlQueries) (K : Finset DdlStcname) (stname : DdlStname) :
    (q.hideAll K).findTableInfo stname = q.findTableInfo stname := by
  unfold findTableInfo
  rw [findTc_hideAll]
  cases q.findTc stname with
  | none => rfl
  | some tcRecs =>
      rw [Option.map_some, Option.map_some, Option.map_some]
      congr 2
      · apply map_hideFirsts
        intro tcRec b
        rfl
      · rw [← List.filterMap_eq_map, List.filterMap_filter, List.filterMap_filter]
        apply filterMap_hideFirsts
        intro tcRec b
        rfl

end SqlsvrDdlQueries

/-! ### The step -/

namespace SqlsvrDdlStnamesMigrator

variable (m : SqlsvrDdlStnamesMigrator) (prefs : DdlTableMigratorPrefs) (fuel : Nat) (q : SqlsvrDdlQueries)

/-- The part of a step that reads the metadata as they were only; `none` for a table they do not define. -/
def migrateTable (stname : DdlStname) (lines : Nat) : Except Fault (Option DdlCreateTableMigration) :=
  match q.findTableInfo stname with
  | none => .ok none
  | some tableInfo => do
      if (m.stnameUsedcols.find stname).isNone then throw .assertion
      let table ← migrateCreateTableDdl (HsqldbTableMigrator.factory prefs fuel) stname m.assumedIdents lines
        tableInfo
      q.checkAllRejected stname table.rejectedCnames
      return some table

/-- The state behind a step, `K` being rejected in front of it. -/
def stateBehind (K : Finset DdlStcname) (st : MigrationState) (stname : DdlStname) :
    Option DdlCreateTableMigration → MigrationState
  | none =>
      { st with
        queries := q.hideAll K
        stnamesMigrationMsgs := st.stnamesMigrationMsgs ++
          [⟨0, stname, .empty, ⟨.error, DdlMigrationMsg.tableUsedButUndefinedMsg⟩⟩] }
  | some table =>
      let queries := q.hideAll (K ∪ stcnamesOf stname table.rejectedCnames)
      { queries
        statements := st.statements ++ schemaDdl st.lastSchemaName stname ++
          [.createTable stname table.chunks] ++ queries.migrateCkConstraintsDdl stname ++
          queries.uqStatements stname
        stnamesMigrationMsgs := st.stnamesMigrationMsgs ++ table.msgs ++
          table.rejectedCnames.flatMap (m.rejectedMsgs stname)
        lastSchemaName := stname.schemaName
        tableInfoCnt := st.tableInfoCnt + 1 }

theorem uniquifyIdentityCnames_of_migrateCreateTableDdl {prefs : DdlTableMigratorPrefs} {fuel : Nat}
    {stname : DdlStname} {assumedIdents : DdlAssumedIdentities} {lines : Nat} {tableInfo : DdlTableInfo}
    {table : DdlCreateTableMigration}
    (h : migrateCreateTableDdl (HsqldbTableMigrator.factory prefs fuel) stname assumedIdents lines tableInfo =
      .ok table) : table.uniquifyIdentityCnames = [] := by
  obtain ⟨_, _, _, _, -, -, huniquify, -, -⟩ := migrateCreateTableDdl_eq_ok _ _ _ _ h
  exact (Except.ok.inj huniquify).symm

/-- A step from metadata in which `K` is rejected. -/
theorem visitStname_eq {K : Finset DdlStcname} {st : MigrationState} (hst : st.queries = q.hideAll K)
    (stname : DdlStname) :
    m.visitStname (some (HsqldbTableMigrator.factory prefs fuel)) st stname =
      (m.migrateTable prefs fuel q stname
        (linesOf (st.statements ++ schemaDdl st.lastSchemaName stname))).map
          (m.stateBehind q K st stname) := by
  unfold visitStname migrateTable
  rw [hst, SqlsvrDdlQueries.findTableInfo_hideAll]
  cases q.findTableInfo stname with
  | none =>
      dsimp only [Except.map, stateBehind]
  | some tableInfo =>
      dsimp only
      unfold migrateDdlStname
      dsimp only
      split
      · rfl
      · cases htable : migrateCreateTableDdl (HsqldbTableMigrator.factory prefs fuel) stname m.assumedIdents
          (linesOf (st.statements ++ schemaDdl st.lastSchemaName stname)) tableInfo with
        | error e => rfl
        | ok table =>
            have hhide := q.foldlM_hideRejectedColumn K stname table.rejectedCnames
            dsimp only [bind, Except.bind]
            rw [uniquifyIdentityCnames_of_migrateCreateTableDdl htable]
            change (Except.bind (Except.bind (table.rejectedCnames.foldlM _ st.queries) _) _) = _
            rw [hst, hhide]
            cases q.checkAllRejected stname table.rejectedCnames with
            | error e => rfl
            | ok u =>
                dsimp only [Except.map, Except.bind]
                rw [SqlsvrDdlQueries.migrateUqConstraintsDdl_eq]
                rfl

/-! ### What is rejected and written -/

/-- The migrations of the columns of a table. -/
def columnMigrations (stname : DdlStname) : List ColumnMigration :=
  match q.findTableInfo stname with
  | none => []
  | some tableInfo =>
      match migrateColumns (HsqldbTableMigrator.factory prefs fuel) stname m.assumedIdents tableInfo.columns
        { stname, pkCnames := tableInfo.pkCnames } with
      | .error _ => []
      | .ok (rs, _) => rs

def rejectedCnames (stname : DdlStname) : List DdlCname :=
  ((m.columnMigrations prefs fuel q stname).filter ColumnMigration.rejected).map fun r => r.column.cname

/-- The full names of the columns rejected in tables. -/
def rejectedIn (stnames : List DdlStname) : Finset DdlStcname :=
  stnames.toFinset.biUnion fun stname => stcnamesOf stname (m.rejectedCnames prefs fuel q stname)

/-- The primary key columns of a table that are left over. -/
def keyCnames (stname : DdlStname) : List DdlCname :=
  ((q.findTableInfo stname).elim [] DdlTableInfo.pkCnames).diff (m.rejectedCnames prefs fuel q stname)

/-- What is written between the parentheses of a table. -/
def tableChunks (stname : DdlStname) : List TableChunk :=
  let rs := m.columnMigrations prefs fuel q stname
  let pkColumns := m.keyCnames prefs fuel q stname
  columnChunks stname false rs ++
    if pkColumns = [] then []
    else (if prevBehind false rs then [.comma] else []) ++ [.primaryKey pkColumns]

/-- What is written for tables and their constraints, `K` being rejected in front of them. -/
def writtenFrom (K : Finset DdlStcname) (lastSchemaName : Text) : List DdlStname → List DdlStatement
  | [] => []
  | stname :: stnames =>
      let K' := K ∪ stcnamesOf stname (m.rejectedCnames prefs fuel q stname)
      if (q.findTc stname).isNone then writtenFrom K' lastSchemaName stnames
      else
        schemaDdl lastSchemaName stname ++ [.createTable stname (m.tableChunks prefs fuel q stname)] ++
          (q.hideAll K').migrateCkConstraintsDdl stname ++ (q.hideAll K').uqStatements stname ++
          writtenFrom K' stname.schemaName stnames

variable {m prefs fuel q}

theorem migrator_of_migrateDatatypeDdl {cname : DdlCname} {defaultValue : Text} {identity : Bool}
    {migrator migrator' : HsqldbTableMigrator} {datatype datatype' : DdlDatatype}
    {migration : DdlDatatypeMigration}
    (h : HsqldbTableMigrator.migrateDatatypeDdl prefs fuel cname defaultValue identity migrator datatype =
      .ok (migration, datatype', migrator')) :
    migrator' = { migrator with
      pkCnames := if migration.columnRejected then migrator.pkCnames.erase cname else migrator.pkCnames } := by
  unfold HsqldbTableMigrator.migrateDatatypeDdl at h
  split at h
  · cases h
  · split at h
    · rename_i hrejected
      cases h
      rw [if_pos hrejected]
    · rename_i hrejected
      split at h <;>
      · cases h
        rw [if_neg hrejected]

theorem migrator_of_migrateTableColumnDdl {column : DdlColumn} {assumedIdentity : Bool}
    {migrator migrator' : HsqldbTableMigrator} {r : ColumnMigration}
    (h : migrateTableColumnDdl (HsqldbTableMigrator.factory prefs fuel) column assumedIdentity migrator =
      .ok (r, migrator')) :
    migrator' = { migrator with
      pkCnames := if r.rejected then migrator.pkCnames.erase column.cname else migrator.pkCnames } := by
  unfold migrateTableColumnDdl at h
  rw [bind_eq_ok] at h
  obtain ⟨⟨migration, datatype, migrator₁⟩, hdatatype, h⟩ := h
  have hmigrator := migrator_of_migrateDatatypeDdl hdatatype
  dsimp only at h
  split at h
  · cases h
    exact hmigrator
  · rw [bind_eq_ok] at h
    obtain ⟨text, -, h⟩ := h
    split at h <;>
    · cases h
      exact hmigrator

/-- The table migrator for HSQLDB takes the rejected columns out of the key. -/
theorem migrator_of_migrateColumns {stname : DdlStname} {assumedIdents : DdlAssumedIdentities}
    {columns : List DdlColumn} {migrator migrator' : HsqldbTableMigrator} {rs : List ColumnMigration}
    (h : migrateColumns (HsqldbTableMigrator.factory prefs fuel) stname assumedIdents columns migrator =
      .ok (rs, migrator')) :
    migrator' = { migrator with
      pkCnames := migrator.pkCnames.diff ((rs.filter ColumnMigration.rejected).map fun r => r.column.cname) } := by
  induction columns generalizing migrator rs with
  | nil =>
      cases h
      rfl
  | cons column columns ih =>
      obtain ⟨r, migrator₁, rs, hcolumn, hcolumns, rfl⟩ := exists_of_migrateColumns_cons _ stname assumedIdents h
      rw [ih hcolumns, migrator_of_migrateTableColumnDdl hcolumn]
      have hcname := column_of_migrateTableColumnDdl _ hcolumn
      cases hr : r.rejected with
      | true => simp [hr, hcname, List.diff_cons]
      | false => simp [hr]

theorem columns_of_migrateColumns {stname : DdlStname} {assumedIdents : DdlAssumedIdentities}
    {columns : List DdlColumn} {migrator migrator' : HsqldbTableMigrator} {rs : List ColumnMigration}
    (h : migrateColumns (HsqldbTableMigrator.factory prefs fuel) stname assumedIdents columns migrator =
      .ok (rs, migrator')) : rs.map ColumnMigration.column = columns := by
  induction columns generalizing migrator rs with
  | nil =>
      cases h
      rfl
  | cons column columns ih =>
      obtain ⟨r, migrator₁, rs, hcolumn, hcolumns, rfl⟩ := exists_of_migrateColumns_cons _ stname assumedIdents h
      rw [List.map_cons, ih hcolumns, column_of_migrateTableColumnDdl _ hcolumn]

/-- The columns of a table have been migrated, each of them once and in order. -/
def MigratesColumns (m : SqlsvrDdlStnamesMigrator) (prefs : DdlTableMigratorPrefs) (fuel : Nat)
    (q : SqlsvrDdlQueries) (stname : DdlStname) : Prop :=
  (m.columnMigrations prefs fuel q stname).map (fun r => r.column.cname) =
    ((q.findTc stname).getD []).map SqlsvrDdlTcRec.cname

theorem migrateTable_eq_none {stname : DdlStname} {lines : Nat}
    (h : m.migrateTable prefs fuel q stname lines = .ok none) : q.findTc stname = none := by
  unfold migrateTable at h
  split at h
  · rename_i hinfo
    exact Option.map_eq_none_iff.mp hinfo
  · split at h
    · cases h
    · rw [bind_eq_ok] at h
      obtain ⟨table, -, h⟩ := h
      rw [bind_eq_ok] at h
      obtain ⟨u, -, h⟩ := h
      cases h

/-- A table that has been migrated. -/
theorem migrateTable_eq_some {stname : DdlStname} {lines : Nat} {table : DdlCreateTableMigration}
    (h : m.migrateTable prefs fuel q stname lines = .ok (some table)) :
    (q.findTc stname).isSome ∧ table.rejectedCnames = m.rejectedCnames prefs fuel q stname ∧
      table.chunks = m.tableChunks prefs fuel q stname ∧ m.MigratesColumns prefs fuel q stname := by
  unfold migrateTable at h
  split at h
  · cases h
  · rename_i tableInfo hinfo
    split at h
    · cases h
    · rw [bind_eq_ok] at h
      obtain ⟨table', htable, h⟩ := h
      rw [bind_eq_ok] at h
      obtain ⟨u, -, h⟩ := h
      cases h
      obtain ⟨rs, migrator, migrator', pkColumns, hcolumns, hfilter, -, hrejected, hchunks⟩ :=
        migrateCreateTableDdl_eq_ok _ _ _ _ htable
      have hrs : m.columnMigrations prefs fuel q stname = rs := by
        change migrateColumns _ _ _ _ (HsqldbTableMigrator.mk stname tableInfo.pkCnames false) = _ at hcolumns
        unfold columnMigrations
        rw [hinfo]
        dsimp only
        rw [hcolumns]
      have hkey : m.keyCnames prefs fuel q stname = pkColumns := by
        rw [migrator_of_migrateColumns hcolumns] at hfilter
        unfold keyCnames rejectedCnames
        rw [hinfo, hrs]
        exact congrArg Prod.fst (Except.ok.inj hfilter)
      obtain ⟨tcRecs, htcRecs, htableInfo⟩ := Option.map_eq_some_iff.mp hinfo
      refine ⟨?_, ?_, ?_, ?_⟩
      · rw [htcRecs]
        rfl
      · rw [hrejected, rejectedCnames, hrs]
      · rw [hchunks, tableChunks, hrs, hkey]
      · have hcnames := congrArg (List.map DdlColumn.cname) (columns_of_migrateColumns hcolumns)
        rw [← htableInfo, List.map_map, List.map_map] at hcnames
        rw [MigratesColumns, hrs, htcRecs]
        exact hcnames

/-- A step for a table: the metadata do not define it, or it has been migrated. -/
theorem visitStname_eq_ok {stname : DdlStname} {K : Finset DdlStcname} {st st' : MigrationState}
    (hst : st.queries = q.hideAll K)
    (h : m.visitStname (some (HsqldbTableMigrator.factory prefs fuel)) st stname = .ok st') :
    (q.findTc stname = none ∧ st' = m.stateBehind q K st stname none) ∨
      ∃ lines table, m.migrateTable prefs fuel q stname lines = .ok (some table) ∧
        st' = m.stateBehind q K st stname (some table) := by
  rw [visitStname_eq _ _ _ _ hst] at h
  cases htable : m.migrateTable prefs fuel q stname
    (linesOf (st.statements ++ schemaDdl st.lastSchemaName stname)) with
  | error e =>
      rw [htable] at h
      cases h
  | ok outcome =>
      rw [htable] at h
      cases h
      cases outcome with
      | none => exact .inl ⟨migrateTable_eq_none htable, rfl⟩
      | some table => exact .inr ⟨_, table, htable, rfl⟩

/-! ### The run -/

theorem rejectedIn_nil : m.rejectedIn prefs fuel q [] = ∅ := rfl

theorem rejectedIn_cons (stname : DdlStname) (stnames : List DdlStname) :
    m.rejectedIn prefs fuel q (stname :: stnames) =
      stcnamesOf stname (m.rejectedCnames prefs fuel q stname) ∪ m.rejectedIn prefs fuel q stnames := by
  unfold rejectedIn
  rw [List.toFinset_cons, Finset.biUnion_insert]

theorem rejectedIn_mono {stnames stnames' : List DdlStname} (h : stnames ⊆ stnames') :
    m.rejectedIn prefs fuel q stnames ⊆ m.rejectedIn prefs fuel q stnames' := by
  apply Finset.biUnion_subset_biUnion_of_subset_left
  intro stname hstname
  exact List.mem_toFinset.mpr (h (List.mem_toFinset.mp hstname))

theorem mem_rejectedIn_iff {stnames : List DdlStname} {k : DdlStcname} :
    k ∈ m.rejectedIn prefs fuel q stnames ↔ ∃ stname ∈ stnames,
      ∃ cname ∈ m.rejectedCnames prefs fuel q stname, .ofStname stname cname.name = k := by
  unfold rejectedIn
  simp only [Finset.mem_biUnion, List.mem_toFinset, mem_stcnamesOf_iff]

theorem rejectedCnames_of_findTc_eq_none {stname : DdlStname} (h : q.findTc stname = none) :
    m.rejectedCnames prefs fuel q stname = [] := by
  unfold rejectedCnames columnMigrations SqlsvrDdlQueries.findTableInfo
  rw [h]
  rfl

/-- The steps for tables, `K` being rejected in front of them. -/
theorem foldlM_visitStname {stnames : List DdlStname} {K : Finset DdlStcname} {st st' : MigrationState}
    (hst : st.queries = q.hideAll K)
    (h : stnames.foldlM (m.visitStname (some (HsqldbTableMigrator.factory prefs fuel))) st = .ok st') :
    st'.queries = q.hideAll (K ∪ m.rejectedIn prefs fuel q stnames) ∧
      st'.statements = st.statements ++ m.writtenFrom prefs fuel q K st.lastSchemaName stnames ∧
      st'.tableInfoCnt = st.tableInfoCnt + (stnames.countP fun stname => (q.findTc stname).isSome) ∧
      ∀ stname ∈ stnames, m.MigratesColumns prefs fuel q stname := by
  induction stnames generalizing K st with
  | nil =>
      cases h
      refine ⟨?_, ?_, rfl, List.forall_mem_nil _⟩
      · rw [hst, rejectedIn_nil, Finset.union_empty]
      · rw [writtenFrom, List.append_nil]
  | cons stname stnames ih =>
      rw [List.foldlM_cons, bind_eq_ok] at h
      obtain ⟨st₁, hstep, h⟩ := h
      obtain ⟨hundefined, rfl⟩ | ⟨lines, table, htable, rfl⟩ := visitStname_eq_ok hst hstep
      · have hnone : m.rejectedCnames prefs fuel q stname = [] := rejectedCnames_of_findTc_eq_none hundefined
        have hrejected : stcnamesOf stname [] = ∅ := rfl
        obtain ⟨hqueries, hstatements, hcnt, hcolumns⟩ := ih rfl h
        refine ⟨?_, ?_, ?_, ?_⟩
        · rw [hqueries, rejectedIn_cons, hnone, hrejected, Finset.empty_union]
        · rw [hstatements, writtenFrom, hnone, hundefined, hrejected, Finset.union_empty]
          rfl
        · rw [hcnt, List.countP_cons_of_neg (by simp [hundefined])]
          rfl
        · refine List.forall_mem_cons.mpr ⟨?_, hcolumns⟩
          unfold MigratesColumns columnMigrations SqlsvrDdlQueries.findTableInfo
          rw [hundefined]
          rfl
      · obtain ⟨hdefined, hrejected, hchunks, hmigrates⟩ := migrateTable_eq_some htable
        obtain ⟨hqueries, hstatements, hcnt, hcolumns⟩ := ih rfl h
        refine ⟨?_, ?_, ?_, ?_⟩
        · rw [hqueries, rejectedIn_cons, hrejected, Finset.union_assoc]
        · rw [hstatements, writtenFrom, if_neg (by simp [Option.isSome_iff_ne_none.mp hdefined])]
          simp [stateBehind, hrejected, hchunks]
        · rw [hcnt, List.countP_cons, if_pos hdefined]
          dsimp only [stateBehind]
          omega
        · exact List.forall_mem_cons.mpr ⟨hmigrates, hcolumns⟩

theorem mem_sortStnames_iff {stname : DdlStname} : stname ∈ m.sortStnames ↔ stname ∈ m.stnameUsedcols.keys :=
  (List.perm_insertionSort _ _).mem_iff

theorem unhiddenFks_of_findTc_eq_none {stname : DdlStname} (h : q.findTc stname = none) :
    q.unhiddenFks stname = [] := by
  unfold SqlsvrDdlQueries.unhiddenFks
  rw [h]
  rfl

theorem flatMap_migrateFkConstraintsDdl_of_undefined {stnames : List DdlStname}
    (h : ∀ stname ∈ stnames, q.findTc stname = none) : stnames.flatMap q.migrateFkConstraintsDdl = [] := by
  rw [List.flatMap_eq_nil_iff]
  intro stname hstname
  unfold SqlsvrDdlQueries.migrateFkConstraintsDdl
  rw [unhiddenFks_of_findTc_eq_none (h stname hstname)]
  rfl

/-- A run is the loop over the tables, and behind it the foreign keys if a table is defined. -/
theorem migrateDdlStnames_cases {σ : Type} {factory : Option (DdlTableMigratorFactory σ)} {st : MigrationState}
    (h : m.migrateDdlStnames factory q = .ok st) :
    ∃ st₁, m.sortStnames.foldlM (m.visitStname factory) { queries := q } = .ok st₁ ∧
      (st₁.tableInfoCnt = 0 ∧ st₁ = st ∨
        st₁.tableInfoCnt ≠ 0 ∧ m.migrateValidateFkConstraintsDdl factory.isNone st₁ = st) := by
  unfold migrateDdlStnames at h
  rw [bind_eq_ok] at h
  obtain ⟨st₁, hloop, h⟩ := h
  refine ⟨st₁, hloop, ?_⟩
  have hst := Except.ok.inj h
  by_cases hzero : st₁.tableInfoCnt = 0
  · rw [if_pos hzero] at hst
    exact .inl ⟨hzero, hst⟩
  · rw [if_neg hzero] at hst
    exact .inr ⟨hzero, hst⟩

/-- A run for HSQLDB from metadata in which `K` is rejected. -/
theorem migrateDdlStnames_eq_ok {K : Finset DdlStcname} {st : MigrationState}
    (h : m.migrateDdlStnames (some (HsqldbTableMigrator.factory prefs fuel)) (q.hideAll K) = .ok st) :
    st.queries = q.hideAll (K ∪ m.rejectedIn prefs fuel q m.sortStnames) ∧
      st.statements = m.writtenFrom prefs fuel q K [] m.sortStnames ++
        m.stnameUsedcols.keys.flatMap
          (q.hideAll (K ∪ m.rejectedIn prefs fuel q m.sortStnames)).migrateFkConstraintsDdl ∧
      ∀ stname ∈ m.stnameUsedcols.keys, m.MigratesColumns prefs fuel q stname := by
  obtain ⟨st₁, hloop, hend⟩ := migrateDdlStnames_cases h
  obtain ⟨hqueries, hstatements, hcnt, hmigrates⟩ := foldlM_visitStname rfl hloop
  have hcolumns : ∀ stname ∈ m.stnameUsedcols.keys, m.MigratesColumns prefs fuel q stname :=
    fun stname hstname => hmigrates stname (mem_sortStnames_iff.mpr hstname)
  obtain ⟨hzero, rfl⟩ | ⟨-, rfl⟩ := hend
  · refine ⟨hqueries, ?_, hcolumns⟩
    have hundefined : ∀ stname ∈ m.stnameUsedcols.keys,
        (q.hideAll (K ∪ m.rejectedIn prefs fuel q m.sortStnames)).findTc stname = none := by
      intro stname hstname
      have hall : ∀ stname ∈ m.sortStnames, q.findTc stname = none := by simpa [hzero] using hcnt.symm
      rw [q.findTc_hideAll, hall stname (mem_sortStnames_iff.mpr hstname)]
      rfl
    rw [hstatements, flatMap_migrateFkConstraintsDdl_of_undefined hundefined, List.append_nil, List.nil_append]
  · refine ⟨hqueries, ?_, hcolumns⟩
    unfold migrateValidateFkConstraintsDdl
    rw [hqueries, hstatements]
    rfl

theorem forall_split_cons_iff {α : Type} {Q : List α → α → Prop} {a : α} {l : List α} :
    (∀ before x behind, a :: l = before ++ x :: behind → Q before x) ↔
      Q [] a ∧ ∀ before x behind, l = before ++ x :: behind → Q (a :: before) x := by
  constructor
  · intro h
    refine ⟨h [] a l rfl, ?_⟩
    intro before x behind hl
    exact h (a :: before) x behind (by rw [hl]; rfl)
  · rintro ⟨hhead, htail⟩ before x behind hl
    cases before with
    | nil =>
        cases hl
        exact hhead
    | cons b before =>
        cases hl
        exact htail before x behind rfl

/-- A property of all that is written, table by table. -/
theorem forall_mem_writtenFrom_iff {P : DdlStatement → Prop} (hnewline : P .newline)
    (hschema : ∀ schemaName, P (.createSchema schemaName)) (K : Finset DdlStcname) (lastSchemaName : Text)
    (stnames : List DdlStname) :
    (∀ statement ∈ m.writtenFrom prefs fuel q K lastSchemaName stnames, P statement) ↔
      ∀ before stname behind, stnames = before ++ stname :: behind → (q.findTc stname).isSome →
        P (.createTable stname (m.tableChunks prefs fuel q stname)) ∧
        (∀ statement ∈ (q.hideAll (K ∪ m.rejectedIn prefs fuel q (before ++ [stname]))).migrateCkConstraintsDdl
          stname, P statement) ∧
        ∀ statement ∈ (q.hideAll (K ∪ m.rejectedIn prefs fuel q (before ++ [stname]))).uqStatements stname,
          P statement := by
  induction stnames generalizing K lastSchemaName with
  | nil =>
      constructor
      · intro _ before stname behind hnil
        simp at hnil
      · intro _ statement hstatement
        cases hstatement
  | cons stname stnames ih =>
      have hunion : ∀ before stname', K ∪ m.rejectedIn prefs fuel q (stname :: before ++ [stname']) =
          K ∪ stcnamesOf stname (m.rejectedCnames prefs fuel q stname) ∪
            m.rejectedIn prefs fuel q (before ++ [stname']) := by
        intro before stname'
        rw [List.cons_append, rejectedIn_cons, Finset.union_assoc]
      have hself : m.rejectedIn prefs fuel q ([] ++ [stname]) =
          stcnamesOf stname (m.rejectedCnames prefs fuel q stname) := by
        rw [List.nil_append, rejectedIn_cons, rejectedIn_nil, Finset.union_empty]
      rw [forall_split_cons_iff]
      simp only [hunion, hself]
      rw [writtenFrom]
      cases hdefined : q.findTc stname with
      | none => simp [ih]
      | some tcRecs =>
          have hfirst : ∀ statement ∈ schemaDdl lastSchemaName stname, P statement := by
            intro statement hstatement
            unfold schemaDdl at hstatement
            split at hstatement
            · split at hstatement
              · obtain rfl := List.mem_singleton.mp hstatement
                exact hschema _
              · rcases List.mem_cons.mp hstatement with rfl | hstatement
                · exact hnewline
                · obtain rfl := List.mem_singleton.mp hstatement
                  exact hschema _
            · cases hstatement
          rw [← ih _ stname.schemaName, if_neg (by simp), List.forall_mem_append, List.forall_mem_append,
            List.forall_mem_append, List.forall_mem_append, List.forall_mem_singleton]
          simp only [Option.isSome_some, forall_const, and_assoc]
          exact and_iff_right hfirst

/-- What a statement written by a run can be. -/
theorem mem_statements_cases {K : Finset DdlStcname} {st : MigrationState} {statement : DdlStatement}
    (h : m.migrateDdlStnames (some (HsqldbTableMigrator.factory prefs fuel)) (q.hideAll K) = .ok st)
    (hstatement : statement ∈ st.statements) :
    statement = .newline ∨ (∃ schemaName, statement = .createSchema schemaName) ∨
      (∃ before stname behind, m.sortStnames = before ++ stname :: behind ∧
        (statement = .createTable stname (m.tableChunks prefs fuel q stname) ∨
          (∃ stcname constraintName checkClause, statement = .addCheck stcname constraintName checkClause) ∨
          ∃ name, statement = .addUnique stname
            ((q.hideAll (K ∪ m.rejectedIn prefs fuel q (before ++ [stname]))).uqCnames stname name) name)) ∨
      ∃ stcname refStcname, statement = .addForeignKey stcname refStcname := by
  obtain ⟨-, hstatements, -⟩ := migrateDdlStnames_eq_ok h
  rw [hstatements] at hstatement
  revert statement
  rw [List.forall_mem_append]
  constructor
  · rw [forall_mem_writtenFrom_iff (.inl rfl) (fun schemaName => .inr (.inl ⟨schemaName, rfl⟩))]
    intro before stname behind hsplit hdefined
    refine ⟨.inr (.inr (.inl ⟨before, stname, behind, hsplit, .inl rfl⟩)), ?_, ?_⟩
    · rw [SqlsvrDdlQueries.forall_mem_migrateCkConstraintsDdl_iff (.inl rfl)]
      intro cname hvisible hkept ckRec hckRec hunhidden
      exact .inr (.inr (.inl ⟨before, stname, behind, hsplit, .inr (.inl ⟨_, _, _, rfl⟩)⟩))
    · intro statement hstatement
      by_cases hnewline : statement = .newline
      · exact .inl hnewline
      · obtain ⟨name, -, rfl⟩ := (SqlsvrDdlQueries.mem_uqStatements_iff _ _ hnewline).mp hstatement
        exact .inr (.inr (.inl ⟨before, stname, behind, hsplit, .inr (.inr ⟨name, rfl⟩)⟩))
  · rw [List.forall_mem_flatMap]
    intro stname hstname
    rw [SqlsvrDdlQueries.migrateFkConstraintsDdl, forall_mem_statementGroup (.inl rfl), List.forall_mem_map]
    intro fk hfk
    exact .inr (.inr (.inr ⟨_, _, rfl⟩))

end SqlsvrDdlStnamesMigrator

/-- A source file that uses one table. -/
def usesTable (stname : DdlStname) : SqlsvrDdlStnamesMigrator where
  stnameUsedcols := ⟨[(stname, ∅)], List.nodup_singleton stname⟩
  haveUsedcols := false
  assumedIdents := ∅

end Middle.SqlsvrDdl
