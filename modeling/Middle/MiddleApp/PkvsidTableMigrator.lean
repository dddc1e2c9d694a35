import Middle.NormalDdl.AcceptedColumns
import Middle.NormalDdl.CreateTable

/-! The table migrator for HSQLDB that makes an identity column the only key of its table
(`dbunit_pkvsid_ddl_table_migrator`): a table has one identity column at most, and a unique constraint stands in
for the key that is left out for it. -/

namespace Middle.MiddleApp

open Universals NormalDdl

/-- `dbunit_pkvsid_ddl_table_migrator_impl`. -/
structure PkvsidTableMigrator where
  stname : DdlStname
  pkCnames : List DdlCname
  identityCnames : List DdlCname := []
  identityCnt : Nat := 0
  filterPkColumnsCalled : Bool := false
  uniquifyIdentityColumnsCalled : Bool := false
  deriving DecidableEq

namespace PkvsidTableMigrator

def identityClause : Text := "GENERATED BY DEFAULT AS IDENTITY(START WITH 1, INCREMENT BY 1)".toList

def otherPrimaryKeysMsg (cname : DdlCname) : DdlMigrationMsg :=
  ⟨.error, "conflict between identity column '".toList ++ cname.name ++
    "' and other primary keys: any identity column must be a table's sole primary key".toList⟩

def otherIdentitiesMsg (cname : DdlCname) : DdlMigrationMsg :=
  ⟨.error, "conflict between identity column '".toList ++ cname.name ++
    "' and other identities: only one identity column may exist per table".toList⟩

/-- The loop over the keys: an identity column that is the only one of them is taken out. -/
def clearSoleKey (cname : DdlCname) (pkCnames : List DdlCname) : List DdlCname :=
  if cname ∈ pkCnames ∧ pkCnames.length = 1 then [] else pkCnames

/-- An identity column that is in conflict with something. -/
def rejectIdentity (msg : DdlMigrationMsg) (migration : DdlDatatypeMigration) (st : PkvsidTableMigrator) :
    DdlDatatypeMigration × PkvsidTableMigrator :=
  ({ migration with msgs := migration.msgs ++ [msg], columnRejected := true, identityClause := [] },
    { st with identityCnames := [], identityCnt := st.identityCnt + 1 })

/-- What is done with an identity column that the rules accept. -/
def migrateIdentity (cname : DdlCname) (migration : DdlDatatypeMigration) (st : PkvsidTableMigrator) :
    DdlDatatypeMigration × PkvsidTableMigrator :=
  let st := { st with pkCnames := clearSoleKey cname st.pkCnames }
  if st.pkCnames ≠ [] then rejectIdentity (otherPrimaryKeysMsg cname) migration st
  else if st.identityCnt ≠ 0 then rejectIdentity (otherIdentitiesMsg cname) migration st
  else
    ({ migration with identityClause },
      { st with identityCnames := st.identityCnames ++ [cname], identityCnt := st.identityCnt + 1 })

/-- `migrate_datatype_ddl`. -/
def migrateDatatypeDdl (prefs : DdlTableMigratorPrefs) (fuel : Nat) (cname : DdlCname) (defaultValue : Text)
    (identity : Bool) (st : PkvsidTableMigrator) (datatype : DdlDatatype) :
    Except Fault (DdlDatatypeMigration × DdlDatatype × PkvsidTableMigrator) :=
  match NormalDdl.migrateDatatypeDdl prefs fuel defaultValue datatype with
  | .error e _ => .error e
  | .ok migration datatype =>
      if migration.columnRejected then
        .ok (migration, datatype, { st with pkCnames := st.pkCnames.erase cname })
      else if identity then
        let (migration, st) := migrateIdentity cname migration st
        .ok (migration, datatype, st)
      else .ok (migration, datatype, st)

/-- `filter_pk_columns`, which leaves its vector empty. -/
def filterPkColumns (st : PkvsidTableMigrator) : Except Fault (List DdlCname × PkvsidTableMigrator) :=
  if st.filterPkColumnsCalled then .error (.logicError "filter_pk_columns already called".toList)
  else .ok (st.pkCnames, { st with pkCnames := [], filterPkColumnsCalled := true })

/-- `uniquify_identity_columns`, which leaves its vector empty. -/
def uniquifyIdentityColumns (st : PkvsidTableMigrator) : Except Fault (List DdlCname × PkvsidTableMigrator) :=
  if st.uniquifyIdentityColumnsCalled then .error (.logicError "uniquify_identity_columns already called".toList)
  else if st.identityCnames.length ≤ 1 then
    .ok (st.identityCnames, { st with identityCnames := [], uniquifyIdentityColumnsCalled := true })
  else .error .assertion

/-- `dbunit_pkvsid_ddl_table_migrator_factory_impl`. -/
def factory (prefs : DdlTableMigratorPrefs) (fuel : Nat) : DdlTableMigratorFactory PkvsidTableMigrator where
  makeTableMigrator stname pkCnames := { stname, pkCnames }
  migrateDatatypeDdl cname _ defaultValue identity st datatype :=
    migrateDatatypeDdl prefs fuel cname defaultValue identity st datatype
  filterPkColumns := filterPkColumns
  uniquifyIdentityColumns st := st.uniquifyIdentityColumns.map Prod.fst

end PkvsidTableMigrator

end Middle.MiddleApp
