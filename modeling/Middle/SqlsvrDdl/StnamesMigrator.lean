import Middle.NormalDdl.StnamesMigratorBase
import Middle.SqlsvrDdl.Queries

/-! The migration of the names of a source file (`sqlsvr_ddl_stnames_migrator_impl`): tables, their check and
unique constraints, and at the end the foreign keys of all of them. The metadata is handed from step to step;
rejected columns are hidden in it. -/

namespace Middle.SqlsvrDdl

open Lib Universals NormalDdl

/-- What a migrator is made for. -/
structure SqlsvrDdlStnamesMigrator where
  stnameUsedcols : DdlStnameUsedcols
  haveUsedcols : Bool
  assumedIdents : DdlAssumedIdentities

/-- The name a column of a table is kept under. -/
def SqlsvrDdlTcRec.stcname (stname : DdlStname) (tcRec : SqlsvrDdlTcRec) : DdlStcname :=
  .ofStname stname tcRec.cname.name

/-! ### Unique constraints of identity columns -/

/-- `uq_constraint_sharing`: the constraints of a column, and whether another column shares them. -/
abbrev UqConstraintSharing := UnorderedMap Text Bool

namespace UqConstraintSharing

/-- The turn of the constructor's loop for a column of the table; a sibling without unique constraints makes
it read through a null pointer. -/
def visitSibling (q : SqlsvrDdlQueries) (stcname : DdlStcname) (uqConstraints : UqConstraintSharing)
    (tcRec : SqlsvrDdlTcRec) : Except Fault UqConstraintSharing :=
  if tcRec.hidden ∨ tcRec.cname = .ofText stcname.columnName then .ok uqConstraints
  else
    match q.findUq (tcRec.stcname stcname.stname) with
    | none => .error .undefined
    | some tcUqRecs =>
        .ok (tcUqRecs.foldl (fun uqConstraints r => uqConstraints.modify r.constraintName fun _ => true)
          uqConstraints)

/-- The constructor. -/
def make (q : SqlsvrDdlQueries) (uqRecs : List SqlsvrDdlUqRec) (stcname : DdlStcname) :
    Except Fault UqConstraintSharing :=
  let unshared := uqRecs.foldl (fun uqConstraints r => (uqConstraints.insert r.constraintName false).1) ∅
  match q.findTc stcname.stname with
  | none => .error .assertion
  | some tcRecs => tcRecs.foldlM (visitSibling q stcname) unshared

def hasUnsharedConstraint (uqConstraints : UqConstraintSharing) : Bool :=
  uqConstraints.entries.any fun e => !e.2

def findConstraintName (uqConstraints : UqConstraintSharing) (constraintName : Text) : Bool :=
  (uqConstraints.find constraintName).isSome

end UqConstraintSharing

namespace SqlsvrDdlQueries

/-- The end of `uniquify_identity_column`. -/
def insertNewUq (q : SqlsvrDdlQueries) (identityStcname : DdlStcname) (constraintName : Text) :
    Except Fault SqlsvrDdlQueries :=
  let inserted := q.insertUq identityStcname [⟨false, constraintName⟩]
  if inserted.2 then .ok inserted.1 else .error .assertion

/-- `uniquify_identity_column`. The names it tries when the new name is taken come to nothing: it throws
behind the loop whatever that has found. -/
def uniquifyIdentityColumn (q : SqlsvrDdlQueries) (identityStcname : DdlStcname) :
    Except Fault SqlsvrDdlQueries :=
  let newUqConstraintName := "uq_".toList ++ identityStcname.columnName
  match q.findUq identityStcname with
  | none => q.insertNewUq identityStcname newUqConstraintName
  | some uqRecs => do
      let sharing ← UqConstraintSharing.make q uqRecs identityStcname
      if !sharing.hasUnsharedConstraint then return q
      if sharing.findConstraintName newUqConstraintName then
        throw (.runtimeError ("can't find unused unique constraint name for identity column ".toList ++
          identityStcname.name))
      q.insertNewUq identityStcname newUqConstraintName

/-! ### Tables and their constraints -/

/-- `find_table_info`. -/
def findTableInfo (q : SqlsvrDdlQueries) (stname : DdlStname) : Option DdlTableInfo :=
  (q.findTc stname).map fun tcRecs =>
    { columns := tcRecs.map fun tcRec =>
        { cname := tcRec.cname
          datatype :=
            { name := .ofText tcRec.datatype, charMaxLen := tcRec.charMaxLen, charOctLen := tcRec.charOctLen
              numPrec := tcRec.numPrec, numPrecRad := tcRec.numPrecRad, numScale := tcRec.numScale
              dtPrec := tcRec.dtPrec, charsetName := tcRec.charsetName }
          defaultValue := tcRec.defaultVal
          nullable := tcRec.nullable
          identity := tcRec.identity }
      pkCnames := (tcRecs.filter fun tcRec => (q.findPk (tcRec.stcname stname) true).isSome).map
        SqlsvrDdlTcRec.cname }

/-- The columns the loops over a table do not pass over. -/
def visibleCnames (q : SqlsvrDdlQueries) (stname : DdlStname) : List DdlCname :=
  (((q.findTc stname).getD []).filter fun tcRec => !tcRec.hidden).map SqlsvrDdlTcRec.cname

end SqlsvrDdlQueries

/-- A group of statements, with an empty line in front of the first one. -/
def statementGroup (statements : List DdlStatement) : List DdlStatement :=
  if statements = [] then [] else .newline :: statements

theorem mem_statementGroup_iff {statement : DdlStatement} (hne : statement ≠ .newline)
    (statements : List DdlStatement) : statement ∈ statementGroup statements ↔ statement ∈ statements := by
  unfold statementGroup
  by_cases hnil : statements = []
  · simp [hnil]
  · simp [hnil, hne]

theorem forall_mem_statementGroup {P : DdlStatement → Prop} (hnewline : P .newline)
    (statements : List DdlStatement) :
    (∀ statement ∈ statementGroup statements, P statement) ↔ ∀ statement ∈ statements, P statement := by
  unfold statementGroup
  by_cases hnil : statements = []
  · simp [hnil]
  · simp [hnil, hnewline]

namespace SqlsvrDdlQueries

/-- `migrate_ck_constraints_ddl`. -/
def migrateCkConstraintsDdl (q : SqlsvrDdlQueries) (stname : DdlStname) : List DdlStatement :=
  statementGroup <| (q.visibleCnames stname).flatMap fun cname =>
    let stcname := DdlStcname.make stname.schemaName stname.tableName cname.name
    (((q.findCk stcname).getD []).filter fun ckRec => !ckRec.hidden).map fun ckRec =>
      .addCheck stcname ckRec.constraintName ckRec.checkClause

/-- `ddl_uqrec_colnames`: the columns of each unique constraint. -/
abbrev DdlUqrecColnames := UnorderedMap Text (List DdlCname)

def DdlUqrecColnames.pushBack (uqrecColnames : DdlUqrecColnames) (constraintName : Text) (cname : DdlCname) :
    DdlUqrecColnames :=
  match uqrecColnames.find constraintName with
  | some _ => uqrecColnames.modify constraintName (· ++ [cname])
  | none => (uqrecColnames.insert constraintName [cname]).1

/-- `map_uqrec_colnames`. -/
def mapUqrecColnames (q : SqlsvrDdlQueries) (stname : DdlStname) : DdlUqrecColnames :=
  (q.visibleCnames stname).foldl (fun uqrecColnames cname =>
    let uqRecs := (q.findUq (.make stname.schemaName stname.tableName cname.name)).getD []
    (uqRecs.filter fun uqRec => !uqRec.hidden).foldl
      (fun uqrecColnames uqRec => uqrecColnames.pushBack uqRec.constraintName cname) uqrecColnames) ∅

/-- `sort_uq_constraint_names`. -/
def sortUqConstraintNames (uqrecColnames : DdlUqrecColnames) : List Text :=
  uqrecColnames.keys.insertionSort (· ≤ ·)

/-- The turn of the loop of `migrate_uq_constraints_ddl`, with its assertion. -/
def migrateUqConstraint (uqrecColnames : DdlUqrecColnames) (stname : DdlStname) (uqConstraintName : Text) :
    Except Fault DdlStatement :=
  match uqrecColnames.find uqConstraintName with
  | some (cname :: cnames) => .ok (.addUnique stname (cname :: cnames) uqConstraintName)
  | _ => .error .assertion

/-- `migrate_uq_constraints_ddl`. -/
def migrateUqConstraintsDdl (q : SqlsvrDdlQueries) (stname : DdlStname) : Except Fault (List DdlStatement) := do
  let uqrecColnames := q.mapUqrecColnames stname
  let statements ← (sortUqConstraintNames uqrecColnames).mapM (migrateUqConstraint uqrecColnames stname)
  return statementGroup statements

end SqlsvrDdlQueries

/-! ### Foreign keys -/

/-- `ddl_fkref_stnames`. -/
abbrev DdlFkrefStnames := UnorderedMap DdlStname Unit

namespace SqlsvrDdlQueries

/-- The foreign keys of a table that are not hidden, hidden columns not passed over. -/
def unhiddenFks (q : SqlsvrDdlQueries) (stname : DdlStname) : List (DdlStcname × SqlsvrDdlFkRec) :=
  ((q.findTc stname).getD []).filterMap fun tcRec =>
    (q.findFk (tcRec.stcname stname) true).map fun fkRec => (tcRec.stcname stname, fkRec)

/-- What `migrate_validate_fk_constraints_ddl` writes for a table. -/
def migrateFkConstraintsDdl (q : SqlsvrDdlQueries) (stname : DdlStname) : List DdlStatement :=
  statementGroup ((q.unhiddenFks stname).map fun fk => .addForeignKey fk.1 fk.2.refStcname)

/-- The referenced tables that `migrate_validate_fk_constraints_ddl` returns for a table; without used
columns there are none. -/
def fkrefStnames (q : SqlsvrDdlQueries) (stname : DdlStname) (usedcols : Option DdlUsedcols) :
    List DdlStname :=
  match usedcols with
  | none => []
  | some usedcols =>
      ((q.unhiddenFks stname).filter fun fk => .ofText fk.1.columnName ∈ usedcols).map
        fun fk => fk.2.refStcname.stname

end SqlsvrDdlQueries

/-! ### Migrating -/

/-- What a migration has changed and written so far. -/
structure MigrationState where
  queries : SqlsvrDdlQueries
  statements : List DdlStatement := []
  stnamesMigrationMsgs : List DdlStnamesMigrationMsg := []
  lastSchemaName : Text := []
  tableInfoCnt : Nat := 0

/-- The lines written so far. -/
def linesOf (statements : List DdlStatement) : Nat :=
  (statements.map fun statement => countLines statement.render).sum

namespace SqlsvrDdlStnamesMigrator

variable (m : SqlsvrDdlStnamesMigrator)

/-- `sort_stname_usedcols_stnames`. -/
def sortStnames : List DdlStname := m.stnameUsedcols.keys.insertionSort (·.name ≤ ·.name)

/-- The message about a rejected column; the test for a used column is the other way round. -/
def rejectedMsgs (stname : DdlStname) (rejectedCname : DdlCname) : List DdlStnamesMigrationMsg :=
  if m.stnameUsedcols.usedColumn (.ofStname stname rejectedCname.name) then []
  else [⟨0, stname, rejectedCname, ⟨.error, DdlMigrationMsg.columnUsedButRejectedMsg⟩⟩]

/-- What is written in front of a table when its schema is another one than that of the table before. -/
def schemaDdl (lastSchemaName : Text) (stname : DdlStname) : List DdlStatement :=
  if lastSchemaName = [] ∨ stname.schemaName ≠ lastSchemaName then
    (if lastSchemaName = [] then [] else [.newline]) ++ [.createSchema stname.schemaName]
  else []

section Factory

variable {σ : Type} (appTableMigratorFactory : DdlTableMigratorFactory σ)

/-- `migrate_ddl_stname`. -/
def migrateDdlStname (stname : DdlStname) (tableInfo : DdlTableInfo) (st : MigrationState) :
    Except Fault MigrationState := do
  if (m.stnameUsedcols.find stname).isNone then throw .assertion
  let statements := st.statements ++ schemaDdl st.lastSchemaName stname
  let table ← migrateCreateTableDdl appTableMigratorFactory stname m.assumedIdents (linesOf statements)
    tableInfo
  let queries ← table.uniquifyIdentityCnames.foldlM
    (fun q cname => q.uniquifyIdentityColumn (.ofStname stname cname.name)) st.queries
  let queries ← table.rejectedCnames.foldlM
    (fun q cname => q.hideRejectedColumn (.ofStname stname cname.name)) queries
  let uqStatements ← queries.migrateUqConstraintsDdl stname
  return { st with
    queries
    statements := statements ++ [.createTable stname table.chunks] ++
      queries.migrateCkConstraintsDdl stname ++ uqStatements
    stnamesMigrationMsgs := st.stnamesMigrationMsgs ++ table.msgs ++
      table.rejectedCnames.flatMap (m.rejectedMsgs stname)
    lastSchemaName := stname.schemaName }

/-- The turn of the loop of `migrate_ddl_stnames`. -/
def visitStname (factory : Option (DdlTableMigratorFactory σ)) (st : MigrationState) (stname : DdlStname) :
    Except Fault MigrationState :=
  match st.queries.findTableInfo stname with
  | none =>
      .ok { st with
        stnamesMigrationMsgs := st.stnamesMigrationMsgs ++
          [⟨0, stname, .empty, ⟨.error, DdlMigrationMsg.tableUsedButUndefinedMsg⟩⟩] }
  | some tableInfo => do
      let st ← match factory with
        | none => .ok st
        | some appTableMigratorFactory => m.migrateDdlStname appTableMigratorFactory stname tableInfo st
      return { st with tableInfoCnt := st.tableInfoCnt + 1 }

/-- The tables that the foreign keys of the used tables reference. -/
def allFkrefStnames (q : SqlsvrDdlQueries) : DdlFkrefStnames :=
  (m.stnameUsedcols.entries.flatMap fun e =>
    q.fkrefStnames e.1 (if m.haveUsedcols then m.stnameUsedcols.find e.1 else none)).foldl
      (fun fkrefStnames stname => (fkrefStnames.insert stname ()).1) ∅

/-- The messages of `migrate_validate_fk_constraints_ddl`. -/
def fkTargetMsgs (q : SqlsvrDdlQueries) : List DdlStnamesMigrationMsg :=
  ((m.allFkrefStnames q).keys.filter fun stname => (m.stnameUsedcols.find stname).isNone).map fun stname =>
    ⟨0, .empty, .empty, ⟨.warning, DdlMigrationMsg.makeFkTargetTableUsedButUndefinedMsg stname.name⟩⟩

/-- `migrate_validate_fk_constraints_ddl`. -/
def migrateValidateFkConstraintsDdl (validateOnly : Bool) (st : MigrationState) : MigrationState :=
  { st with
    statements := st.statements ++
      if validateOnly then []
      else m.stnameUsedcols.keys.flatMap st.queries.migrateFkConstraintsDdl
    stnamesMigrationMsgs := st.stnamesMigrationMsgs ++ m.fkTargetMsgs st.queries }

/-- `migrate_ddl_stnames`; without a factory nothing is written. -/
def migrateDdlStnames (factory : Option (DdlTableMigratorFactory σ)) (q : SqlsvrDdlQueries) :
    Except Fault MigrationState := do
  let st ← m.sortStnames.foldlM (m.visitStname factory) { queries := q }
  return if st.tableInfoCnt = 0 then st else m.migrateValidateFkConstraintsDdl factory.isNone st

end Factory

end SqlsvrDdlStnamesMigrator

end Middle.SqlsvrDdl
