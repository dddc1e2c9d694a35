import Middle.NormalDdl.TableMigrator

/-! Writing the statements of a migration (`ddl_stname_migrator_base`). What is written is kept as a list
of statements, and a table as the chunks its loop writes between the parentheses; `render` makes of them
the text the stream gets. -/

namespace Middle.NormalDdl

open Lib Universals

structure DdlColumn where
  cname : DdlCname
  datatype : DdlDatatype
  defaultValue : Option Text
  nullable : Bool
  identity : Bool
  deriving DecidableEq

structure DdlTableInfo where
  columns : List DdlColumn
  pkCnames : List DdlCname
  deriving DecidableEq

/-- `ddl_table_migrator` and its factory, with what an implementation changes as its state. -/
structure DdlTableMigratorFactory (σ : Type) where
  makeTableMigrator : DdlStname → List DdlCname → σ
  migrateDatatypeDdl (cname : DdlCname) (nullable : Bool) (defaultValue : Text) (identity : Bool) (st : σ)
    (datatype : DdlDatatype) : Except Fault (DdlDatatypeMigration × DdlDatatype × σ)
  filterPkColumns : σ → Except Fault (List DdlCname × σ)
  uniquifyIdentityColumns : σ → Except Fault (List DdlCname)

/-- What is written between the parentheses of a table. -/
inductive TableChunk where
  | comma
  | column (cname : DdlCname) (text : Text)
  | rejected (stcname : DdlStcname) (datatypeName : Text)
  | primaryKey (cnames : List DdlCname)
  deriving DecidableEq

inductive DdlStatement where
  | newline
  | createSchema (schemaName : Text)
  | createTable (stname : DdlStname) (chunks : List TableChunk)
  | addCheck (stcname : DdlStcname) (constraintName checkClause : Text)
  | addUnique (stname : DdlStname) (cnames : List DdlCname) (constraintName : Text)
  | addForeignKey (stcname refStcname : DdlStcname)
  deriving DecidableEq

/-- `make_quotable_ddl`. -/
def makeQuotableDdl (ddl : Text) (quoteC : Char := '\'') : Text :=
  ddl.flatMap fun c => if c = quoteC then ['\\', quoteC] else [c]

/-- Names with a comma between each two of them. -/
def commaSeparated (cnames : List DdlCname) : Text := List.intercalate [','] (cnames.map DdlCname.name)

namespace TableChunk

def render : TableChunk → Text
  | comma => ",\n".toList
  | column _ text => text
  | rejected stcname datatypeName =>
      "/* column ".toList ++ stcname.name ++ ": data type ".toList ++ datatypeName ++
        " rejected! */\n".toList
  | primaryKey cnames => "PRIMARY KEY(".toList ++ commaSeparated cnames ++ ")\n".toList

def isComment : TableChunk → Bool
  | rejected .. => true
  | _ => false

def isColumn : TableChunk → Bool
  | column .. => true
  | _ => false

end TableChunk

/-- The lines of a text that end in a line feed, as `next_line` cuts them. -/
def completeLines : Text → List Text
  | [] => []
  | c :: s =>
      if c = '\n' then [] :: completeLines s
      else
        match completeLines s with
        | [] => []
        | line :: lines => (c :: line) :: lines

namespace DdlStatement

/-- The text of a table before it is known whether a column is left. -/
def renderTable (stname : DdlStname) (chunks : List TableChunk) : Text :=
  "\nCREATE TABLE ".toList ++ stname.name ++ "(".toList ++ chunks.flatMap TableChunk.render

def render : DdlStatement → Text
  | newline => ['\n']
  | createSchema schemaName => "CREATE SCHEMA ".toList ++ schemaName ++ ";\n".toList
  | createTable stname chunks =>
      let table := renderTable stname chunks ++ ");\n".toList
      if chunks.any TableChunk.isColumn then table
      else
        ((completeLines table).flatMap fun line =>
          (if line = [] then [] else "-- ".toList ++ line) ++ ['\n']) ++
          "-- table ".toList ++ stname.name ++ " emptied!\n".toList
  | addCheck stcname constraintName checkClause =>
      "ALTER TABLE ".toList ++ stcname.stname.name ++ " ADD CONSTRAINT ".toList ++ constraintName ++
        " CHECK(".toList ++ makeQuotableDdl checkClause ++ ");\n".toList
  | addUnique stname cnames constraintName =>
      "ALTER TABLE ".toList ++ stname.name ++ " ADD CONSTRAINT ".toList ++ constraintName ++
        " UNIQUE(".toList ++ commaSeparated cnames ++ ");\n".toList
  | addForeignKey stcname refStcname =>
      "ALTER TABLE ".toList ++ stcname.stname.name ++ " ADD FOREIGN KEY(".toList ++ stcname.columnName ++
        ") REFERENCES ".toList ++ refStcname.stname.name ++ "(".toList ++ refStcname.columnName ++
        ");\n".toList

end DdlStatement

/-- `counter::lines`. -/
def countLines (text : Text) : Nat := text.count '\n'

/-! ### Columns -/

/-- `migrate_char_data_len_ddl`: what is written, and whether there is a length. -/
def charDataLenDdl (datatype : DdlDatatype) : Except Fault (Text × Bool) :=
  match datatype.charMaxLen with
  | some len => .ok ("(".toList ++ lexicalCastInt32 len ++ ")".toList, true)
  | none => if datatype.charOctLen = none then .ok ([], false) else .error .assertion

/-- `migrate_num_data_prec_ddl`. -/
def numDataPrecDdl (datatype : DdlDatatype) : Except Fault (Text × Bool) :=
  let scale := datatype.numScale.getD 0
  match datatype.numPrec with
  | some prec =>
      .ok ("(".toList ++ lexicalCast prec.toNat ++
        (if scale ≠ 0 then ",".toList ++ lexicalCastInt32 scale else []) ++ ")".toList, true)
  | none => if scale = 0 then .ok ([], false) else .error .assertion

/-- `migrate_datatype_ddl` of the base class. -/
def datatypeDdl (datatype : DdlDatatype) : Except Fault Text := do
  let (len, charDataLen) ← charDataLenDdl datatype
  let (prec, numDataPrec) ← numDataPrecDdl datatype
  if charDataLen && numDataPrec then throw .assertion
  return datatype.name.str ++ len ++ prec

/-- A text in front of another one, unless that is empty. -/
def optionalText (before text after : Text) : Text := if text = [] then [] else before ++ text ++ after

/-- What a column that is not rejected adds behind its name. -/
def columnDdl (column : DdlColumn) (datatypeText : Text) (migration : DdlDatatypeMigration) : Text :=
  datatypeText ++ optionalText " /* ".toList migration.datatypeComment " */".toList ++
    optionalText " DEFAULT ".toList migration.defaultValue [] ++
    (if column.nullable then [] else " NOT NULL".toList) ++
    optionalText " ".toList migration.identityClause []

/-- The message about an identity that is assumed for a column. -/
def assumedIdentityMsg (column : DdlColumn) : DdlMigrationMsg :=
  if column.identity then
    ⟨.warning, "assumed identity column: '".toList ++ column.cname.name ++ "' was already IDENTITY".toList⟩
  else ⟨.remark, "assumed identity column: '".toList ++ column.cname.name ++ "'".toList⟩

/-- A column, the text written for it and what its migration says. -/
structure ColumnMigration where
  column : DdlColumn
  text : Text
  migration : DdlDatatypeMigration
  deriving DecidableEq

namespace ColumnMigration

def rejected (r : ColumnMigration) : Bool := r.migration.columnRejected

/-- What is written for a column, a comment that names its data type when it is rejected. -/
def chunk (stname : DdlStname) (r : ColumnMigration) : TableChunk :=
  if r.rejected then .rejected (.ofStname stname r.column.cname.name) r.column.datatype.name.str
  else .column r.column.cname r.text

end ColumnMigration

section Table

variable {σ : Type} (m : DdlTableMigratorFactory σ)

/-- `migrate_table_column_ddl`. -/
def migrateTableColumnDdl (column : DdlColumn) (assumedIdentity : Bool) (st : σ) :
    Except Fault (ColumnMigration × σ) := do
  let (migration, datatype, st) ← m.migrateDatatypeDdl column.cname column.nullable
    (column.defaultValue.getD []) (column.identity || assumedIdentity) st column.datatype
  let name := column.cname.name ++ " ".toList
  if migration.columnRejected then return (⟨column, name, migration⟩, st)
  let text := name ++ columnDdl column (← datatypeDdl datatype) migration
  if migration.identityClause ≠ [] ∧ assumedIdentity then
    return (⟨column, text, { migration with msgs := migration.msgs ++ [assumedIdentityMsg column] }⟩, st)
  return (⟨column, text, migration⟩, st)

/-- What the loop of `migrate_create_table_ddl` has written and remembers. -/
structure TableState (σ : Type) where
  migrator : σ
  chunks : List TableChunk := []
  prev : Bool := false
  rejectedCnames : List DdlCname := []
  msgs : List DdlStnamesMigrationMsg := []

variable (stname : DdlStname) (assumedIdents : DdlAssumedIdentities) (lines : Nat)

/-- A turn of the loop; `lines` is the number of lines in front of the table. -/
def migrateColumn (st : TableState σ) (column : DdlColumn) : Except Fault (TableState σ) := do
  let chunks := if st.prev then st.chunks ++ [.comma] else st.chunks
  let stcname := DdlStcname.ofStname stname column.cname.name
  let datatypeLineno := 1 + lines + countLines (DdlStatement.renderTable stname chunks)
  let (r, migrator) ← migrateTableColumnDdl m column (stcname ∈ assumedIdents) st.migrator
  let msgs := st.msgs ++ r.migration.msgs.map (⟨datatypeLineno, stname, column.cname, ·⟩)
  return { migrator, msgs
           chunks := chunks ++ [r.chunk stname]
           prev := !r.rejected
           rejectedCnames := st.rejectedCnames ++ if r.rejected then [column.cname] else [] }

/-- `ddl_create_table_migration`, the table that has been written and its messages. -/
structure DdlCreateTableMigration where
  rejectedCnames : List DdlCname
  uniquifyIdentityCnames : List DdlCname
  chunks : List TableChunk
  msgs : List DdlStnamesMigrationMsg
  deriving DecidableEq

/-- `migrate_create_table_ddl`. -/
def migrateCreateTableDdl (tableInfo : DdlTableInfo) : Except Fault DdlCreateTableMigration := do
  let st : TableState σ := { migrator := m.makeTableMigrator stname tableInfo.pkCnames }
  let st ← tableInfo.columns.foldlM (migrateColumn m stname assumedIdents lines) st
  let (pkColumns, migrator) ← m.filterPkColumns st.migrator
  let key := if pkColumns = [] then []
    else (if st.prev then [.comma] else []) ++ [.primaryKey pkColumns]
  return ⟨st.rejectedCnames, ← m.uniquifyIdentityColumns migrator, st.chunks ++ key, st.msgs⟩

end Table

end Middle.NormalDdl
