import Middle.NormalDdl.CreateTable

/-! The texts of the messages about the columns of a table: none of them starts as those do that are about
tables, whatever the rules and the column are. -/

namespace Middle.NormalDdl

open Lib Universals MiddleApp

/-- A text that starts with neither of the two first characters of the messages about tables. -/
def ColumnText (text : Text) : Prop := text.head? ≠ some 't' ∧ text.head? ≠ some 'F'

instance : DecidablePred ColumnText := fun text =>
  inferInstanceAs (Decidable (text.head? ≠ some 't' ∧ text.head? ≠ some 'F'))

theorem columnText_append {text : Text} (h : ColumnText text) (hne : text ≠ []) (rest : Text) :
    ColumnText (text ++ rest) := by
  unfold ColumnText
  rwa [List.head?_append_of_ne_nil _ hne]

theorem not_columnText_tableUsedButUndefinedMsg : ¬ ColumnText DdlMigrationMsg.tableUsedButUndefinedMsg := by
  decide

theorem not_columnText_makeFkTargetTableUsedButUndefinedMsg (fkrefStname : Text) :
    ¬ ColumnText (DdlMigrationMsg.makeFkTargetTableUsedButUndefinedMsg fkrefStname) := fun h => h.2 rfl

/-- Messages about columns. -/
def ColumnMsgs (msgs : List DdlMigrationMsg) : Prop := ∀ msg ∈ msgs, ColumnText msg.msg

theorem columnMsgs_concat {msgs : List DdlMigrationMsg} {msg : DdlMigrationMsg} (h : ColumnMsgs msgs)
    (hmsg : ColumnText msg.msg) : ColumnMsgs (msgs ++ [msg]) := by
  intro msg' hmsg'
  rcases List.mem_append.mp hmsg' with hmsg' | hmsg'
  · exact h msg' hmsg'
  · obtain rfl := List.mem_singleton.mp hmsg'
    exact hmsg

/-- What has been collected about a column. -/
structure SizeState.IsColumn (st : SizeState) : Prop where
  datatypeComment : ColumnText st.datatypeComment
  migrationMsgs : ColumnMsgs st.migrationMsgs

theorem SizeState.IsColumn.addComment {st : SizeState} (h : st.IsColumn) {comment : Text}
    (hcomment : ColumnText comment) : (st.addComment comment).IsColumn := by
  refine ⟨?_, h.migrationMsgs⟩
  unfold SizeState.addComment
  dsimp only
  split
  · exact hcomment
  · rename_i hne
    rw [List.append_assoc]
    exact columnText_append h.datatypeComment hne _

theorem SizeState.IsColumn.addMsg {st : SizeState} (h : st.IsColumn) (level : DdlMigrationMsgLevel)
    {msg : Text} (hmsg : ColumnText msg) : (st.addMsg level msg).IsColumn :=
  ⟨h.datatypeComment, columnMsgs_concat h.migrationMsgs hmsg⟩

namespace SizeMigrator

variable {k : SizeMigrator} {st : SizeState}

theorem isColumn_replace (h : st.IsColumn) {comment : Text} (hcomment : ColumnText comment)
    (size : Option Int32) : (k.replace comment size st).2.IsColumn :=
  ⟨(h.addComment hcomment).datatypeComment, (h.addComment hcomment).migrationMsgs⟩

theorem isColumn_migrateSize (hwhat : ColumnText k.what) (hne : k.what ≠ []) (h : st.IsColumn)
    (mapSize : DdlMapSize) : (k.migrateSize mapSize st).2.IsColumn := by
  have hrest : ∀ rest, ColumnText (k.what ++ rest) := columnText_append hwhat hne
  have hundefined : ∀ rest, ColumnText ("undefined ".toList ++ rest) :=
    columnText_append (by decide) (by decide)
  unfold migrateSize
  dsimp only
  split
  · rename_i size hsize
    split
    · split
      · apply h.addMsg
        rw [List.append_assoc, List.append_assoc]
        exact columnText_append (by decide) (by decide) _
      · apply isColumn_replace h
        rw [List.append_assoc, List.append_assoc]
        exact hrest _
      · exact h
      · apply isColumn_replace h
        simp only [List.append_assoc]
        exact hrest _
      · exact h
    · split
      · apply isColumn_replace h
        simp only [List.append_assoc]
        exact hrest _
      · exact h
  · split
    · apply h.addMsg
      exact columnText_append (by decide) (by decide) _
    · apply isColumn_replace h
      simp only [List.append_assoc]
      exact hundefined _
    · exact h

theorem isColumn_migrateSizes (hwhat : ColumnText k.what) (hne : k.what ≠ []) (mapSizes : List DdlMapSize)
    (h : st.IsColumn) : (k.migrateSizes mapSizes st).2.IsColumn := by
  induction mapSizes generalizing st with
  | nil => exact h
  | cons mapSize mapSizes ih =>
      have hstep := isColumn_migrateSize hwhat hne h mapSize
      unfold migrateSizes
      dsimp only
      split
      · exact hstep
      · exact ih hstep

end SizeMigrator

theorem isColumn_migratePrecisionSizes (mapSizes : List DdlMapSize) {st : SizeState} (h : st.IsColumn) :
    (migratePrecisionSizes mapSizes st).2.1.IsColumn := by
  induction mapSizes generalizing st with
  | nil => exact h
  | cons mapSize mapSizes ih =>
      have hstep : (migrateNumericPrecisionSize mapSize st).2.IsColumn :=
        SizeMigrator.isColumn_migrateSize (by decide) (by decide) h mapSize
      unfold migratePrecisionSizes
      dsimp only
      split
      · exact h
      · split
        · exact hstep
        · exact ih hstep

theorem isColumn_migrateScaleSizes {columnRejected : Bool} (mapSizes : List DdlMapSize) {st st' : SizeState}
    {rejected : Bool} (h : st.IsColumn)
    (hrun : migrateScaleSizes columnRejected mapSizes st = .ok rejected st') : st'.IsColumn := by
  induction mapSizes generalizing st with
  | nil =>
      cases hrun
      exact h
  | cons mapSize mapSizes ih =>
      have hstep : (migrateNumericScaleSize mapSize st).2.IsColumn :=
        SizeMigrator.isColumn_migrateSize (by decide) (by decide) h mapSize
      unfold migrateScaleSizes at hrun
      dsimp only at hrun
      split at hrun
      · split at hrun
        · cases hrun
          exact hstep
        · exact ih hstep hrun
      · cases hrun

theorem isColumn_migrateDatatypeRule {rule : DdlDatatypeRule} {st st' : SizeState} {columnRejected : Bool}
    (h : st.IsColumn) (hrun : migrateDatatypeRule rule st = .ok columnRejected st') : st'.IsColumn := by
  unfold migrateDatatypeRule at hrun
  dsimp only at hrun
  split at hrun
  · cases hrun
    refine ⟨?_, h.migrationMsgs⟩
    show ColumnText ("data type ".toList ++ st.datatype.name.str ++ " rejected".toList)
    rw [List.append_assoc]
    exact columnText_append (by decide) (by decide) _
  · split at hrun
    · cases hrun
      exact h
    · cases hrun
  · split at hrun
    · cases hrun
      exact SizeMigrator.isColumn_migrateSizes (by decide) (by decide) _ h
    · cases hrun
  · split at hrun
    · have hprecision := isColumn_migratePrecisionSizes rule.mapSizes h
      unfold migratePrecisionScale at hrun
      dsimp only at hrun
      split at hrun
      · exact isColumn_migrateScaleSizes _ hprecision hrun
      · cases hrun
        exact hprecision
    · cases hrun
  · split at hrun
    · cases hrun
      exact SizeMigrator.isColumn_migrateSizes (by decide) (by decide) _ h
    · cases hrun

theorem isColumn_mapDatatypeName (rule : DdlDatatypeRule) (datatype : DdlDatatype) :
    (mapDatatypeName rule datatype).IsColumn := by
  have hnone : ColumnMsgs [] := fun msg hmsg => by cases hmsg
  unfold mapDatatypeName
  split
  · refine ⟨?_, hnone⟩
    show ColumnText []
    decide
  · refine ⟨?_, hnone⟩
    show ColumnText ("data type ".toList ++ _ ++ _ ++ _)
    rw [List.append_assoc, List.append_assoc]
    exact columnText_append (by decide) (by decide) _

section Migration

variable {prefs : DdlTableMigratorPrefs} {fuel : Nat}

theorem columnMsgs_migrateDefaultValue {columnRejected : Bool} {defaultValue : Text} {st : SizeState}
    {migration : DdlDatatypeMigration} (h : st.IsColumn)
    (hrun : migrateDefaultValue prefs fuel columnRejected defaultValue st = .ok migration) :
    ColumnMsgs migration.msgs := by
  unfold migrateDefaultValue at hrun
  split at hrun
  · cases hrun
    exact h.migrationMsgs
  · split at hrun
    · cases hrun
    · rename_i newDefaultValue _
      have hexpanded : (if newDefaultValue ≠ [] ∧ newDefaultValue ≠ defaultValue then
          st.addComment "default value rule macro expanded".toList else st).IsColumn := by
        split
        · exact h.addComment (by decide)
        · exact h
      have hremark : ∀ {st : SizeState}, st.IsColumn →
          (if st.datatypeComment ≠ [] then st.addMsg .remark st.datatypeComment else st).IsColumn := by
        intro st hst
        split
        · exact hst.addMsg .remark hst.datatypeComment
        · exact hst
      cases hrun
      exact (hremark hexpanded).migrationMsgs

theorem columnMsgs_migrateDatatypeDdl {defaultValue : Text} {datatype datatype' : DdlDatatype}
    {migration : DdlDatatypeMigration}
    (hrun : migrateDatatypeDdl prefs fuel defaultValue datatype = .ok migration datatype') :
    ColumnMsgs migration.msgs := by
  have hfinish : ∀ {rejected : Bool} {st : SizeState}, st.IsColumn →
      finishMigration prefs fuel defaultValue (.ok rejected st) = .ok migration datatype' →
      ColumnMsgs migration.msgs := by
    intro rejected st hst hfinish
    unfold finishMigration at hfinish
    dsimp only at hfinish
    split at hfinish
    · cases hfinish
    · rename_i migration' hmigration
      cases hfinish
      exact columnMsgs_migrateDefaultValue hst hmigration
  unfold migrateDatatypeDdl at hrun
  split at hrun
  · rename_i rule hrule
    cases hdatatype : migrateDatatypeRule rule (mapDatatypeName rule datatype) with
    | error e st =>
        rw [hdatatype] at hrun
        cases hrun
    | ok rejected st =>
        rw [hdatatype] at hrun
        exact hfinish (isColumn_migrateDatatypeRule (isColumn_mapDatatypeName rule datatype) hdatatype) hrun
  · refine hfinish ⟨?_, fun msg hmsg => by cases hmsg⟩ hrun
    show ColumnText ("data type ".toList ++ datatype.name.str ++ " rejected".toList)
    rw [List.append_assoc]
    exact columnText_append (by decide) (by decide) _

theorem columnMsgs_hsqldb {cname : DdlCname} {defaultValue : Text} {identity : Bool}
    {migrator migrator' : HsqldbTableMigrator} {datatype datatype' : DdlDatatype}
    {migration : DdlDatatypeMigration}
    (hrun : HsqldbTableMigrator.migrateDatatypeDdl prefs fuel cname defaultValue identity migrator datatype =
      .ok (migration, datatype', migrator')) : ColumnMsgs migration.msgs := by
  unfold HsqldbTableMigrator.migrateDatatypeDdl at hrun
  split at hrun
  · cases hrun
  · rename_i migration' datatype₁ hmigration
    have hmsgs := columnMsgs_migrateDatatypeDdl hmigration
    split at hrun
    · cases hrun
      exact hmsgs
    · split at hrun
      · cases hrun
        exact hmsgs
      · cases hrun
        exact hmsgs

theorem columnText_assumedIdentityMsg (column : DdlColumn) : ColumnText (assumedIdentityMsg column).msg := by
  unfold assumedIdentityMsg
  split
  · show ColumnText ("assumed identity column: '".toList ++ column.cname.name ++ "' was already IDENTITY".toList)
    rw [List.append_assoc]
    exact columnText_append (by decide) (by decide) _
  · show ColumnText ("assumed identity column: '".toList ++ column.cname.name ++ "'".toList)
    rw [List.append_assoc]
    exact columnText_append (by decide) (by decide) _

theorem columnMsgs_migrateTableColumnDdl {column : DdlColumn} {assumedIdentity : Bool}
    {migrator migrator' : HsqldbTableMigrator} {r : ColumnMigration}
    (hrun : migrateTableColumnDdl (HsqldbTableMigrator.factory prefs fuel) column assumedIdentity migrator =
      .ok (r, migrator')) : ColumnMsgs r.migration.msgs := by
  unfold migrateTableColumnDdl at hrun
  rw [bind_eq_ok] at hrun
  obtain ⟨⟨migration, datatype, migrator₁⟩, hdatatype, hrun⟩ := hrun
  have hmsgs : ColumnMsgs migration.msgs := columnMsgs_hsqldb hdatatype
  dsimp only at hrun
  split at hrun
  · cases hrun
    exact hmsgs
  · rw [bind_eq_ok] at hrun
    obtain ⟨text, -, hrun⟩ := hrun
    split at hrun
    · cases hrun
      exact columnMsgs_concat hmsgs (columnText_assumedIdentityMsg column)
    · cases hrun
      exact hmsgs

/-- The loop over the columns of a table adds messages about columns only. -/
theorem columnMsgs_foldlM_migrateColumn {stname : DdlStname} {assumedIdents : DdlAssumedIdentities}
    {lines : Nat} {columns : List DdlColumn} {st st' : TableState HsqldbTableMigrator}
    (hst : ∀ msg ∈ st.msgs, ColumnText msg.msg.msg)
    (hrun : columns.foldlM (migrateColumn (HsqldbTableMigrator.factory prefs fuel) stname assumedIdents lines)
      st = .ok st') : ∀ msg ∈ st'.msgs, ColumnText msg.msg.msg := by
  induction columns generalizing st with
  | nil =>
      cases hrun
      exact hst
  | cons column columns ih =>
      rw [List.foldlM_cons, bind_eq_ok] at hrun
      obtain ⟨st₁, hturn, hrun⟩ := hrun
      unfold migrateColumn at hturn
      rw [bind_eq_ok] at hturn
      obtain ⟨⟨r, migrator⟩, hcolumn, hturn⟩ := hturn
      cases hturn
      have hmsgs := columnMsgs_migrateTableColumnDdl hcolumn
      refine ih ?_ hrun
      intro msg hmsg
      rcases List.mem_append.mp hmsg with hmsg | hmsg
      · exact hst msg hmsg
      · obtain ⟨msg', hmsg', rfl⟩ := List.mem_map.mp hmsg
        exact hmsgs msg' hmsg'

theorem columnText_of_migrateCreateTableDdl {stname : DdlStname} {assumedIdents : DdlAssumedIdentities}
    {lines : Nat} {tableInfo : DdlTableInfo} {table : DdlCreateTableMigration}
    (h : migrateCreateTableDdl (HsqldbTableMigrator.factory prefs fuel) stname assumedIdents lines tableInfo =
      .ok table) : ∀ msg ∈ table.msgs, ColumnText msg.msg.msg := by
  obtain ⟨st, _, _, hloop, -, -, -, hmsgs, -⟩ := loop_of_migrateCreateTableDdl _ stname assumedIdents lines h
  rw [hmsgs]
  exact columnMsgs_foldlM_migrateColumn (fun msg hmsg => by cases hmsg) hloop

end Migration

end Middle.NormalDdl
