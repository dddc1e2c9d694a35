import Middle.NormalDdl.StnamesMigratorBase

/-! The table migrator for HSQLDB (`dbunit_hsqldb_ddl_table_migrator`): rejected columns are taken out of
the primary key. -/

namespace Middle.MiddleApp

open Universals NormalDdl

/-- `dbunit_hsqldb_ddl_table_migrator_impl`. -/
structure HsqldbTableMigrator where
  stname : DdlStname
  pkCnames : List DdlCname
  filterPkColumnsCalled : Bool := false
  deriving DecidableEq

namespace HsqldbTableMigrator

def identityClause : Text := "GENERATED BY DEFAULT AS IDENTITY(START WITH 1, INCREMENT BY 1)".toList

/-- `migrate_datatype_ddl`. -/
def migrateDatatypeDdl (prefs : DdlTableMigratorPrefs) (fuel : Nat) (cname : DdlCname)
    (defaultValue : Text) (identity : Bool) (st : HsqldbTableMigrator) (datatype : DdlDatatype) :
    Except Fault (DdlDatatypeMigration × DdlDatatype × HsqldbTableMigrator) :=
  match NormalDdl.migrateDatatypeDdl prefs fuel defaultValue datatype with
  | .error e _ => .error e
  | .ok migration datatype =>
      if migration.columnRejected then
        .ok (migration, datatype, { st with pkCnames := st.pkCnames.erase cname })
      else if identity then .ok ({ migration with identityClause }, datatype, st)
      else .ok (migration, datatype, st)

/-- `filter_pk_columns`, which leaves its vector empty. -/
def filterPkColumns (st : HsqldbTableMigrator) : Except Fault (List DdlCname × HsqldbTableMigrator) :=
  if st.filterPkColumnsCalled then .error (.logicError "filter_pk_columns already called".toList)
  else .ok (st.pkCnames, { st with pkCnames := [], filterPkColumnsCalled := true })

/-- `dbunit_hsqldb_ddl_table_migrator_factory_impl`. -/
def factory (prefs : DdlTableMigratorPrefs) (fuel : Nat) : DdlTableMigratorFactory HsqldbTableMigrator where
  makeTableMigrator stname pkCnames := { stname, pkCnames }
  migrateDatatypeDdl cname _ defaultValue identity st datatype :=
    migrateDatatypeDdl prefs fuel cname defaultValue identity st datatype
  filterPkColumns := filterPkColumns
  uniquifyIdentityColumns _ := .ok []

end HsqldbTableMigrator

end Middle.MiddleApp
