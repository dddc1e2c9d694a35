import Middle.NormalDdl.AcceptedColumns
import Middle.SqlsvrDdl.CreatedTables
import Middle.SqlsvrDdl.QueriesImpl

/-! The columns of a created table, as they follow from the rows of the data sources: those whose data types the
rules accept, in the order of the rows, each written with what the rules leave of its data type. -/

namespace Middle.SqlsvrDdl

open Lib Universals NormalDdl MiddleApp

/-- The column that `find_table_info` makes of a record. -/
def SqlsvrDdlTcRec.column (tcRec : SqlsvrDdlTcRec) : DdlColumn where
  cname := tcRec.cname
  datatype :=
    { name := .ofText tcRec.datatype, charMaxLen := tcRec.charMaxLen, charOctLen := tcRec.charOctLen
      numPrec := tcRec.numPrec, numPrecRad := tcRec.numPrecRad, numScale := tcRec.numScale
      dtPrec := tcRec.dtPrec, charsetName := tcRec.charsetName }
  defaultValue := tcRec.defaultVal
  nullable := tcRec.nullable
  identity := tcRec.identity

/-- The text is that of a column with what the rules leave of its data type. -/
def WritesColumn (prefs : DdlTableMigratorPrefs) (column : DdlColumn) (text : Text) : Prop :=
  ∃ left datatypeText, prefs.leave column.datatype = some left ∧ datatypeDdl left = .ok datatypeText ∧
    column.cname.name ++ " ".toList ++ datatypeText <+: text

/-- The name and text of a column between the parentheses of a table. -/
def writtenColumn : TableChunk → Option (DdlCname × Text)
  | .column cname text => some (cname, text)
  | _ => none

/-- The columns of the primary key between the parentheses of a table. -/
def keyOf (chunks : List TableChunk) : List DdlCname :=
  chunks.flatMap fun chunk => match chunk with
    | .primaryKey cnames => cnames
    | _ => []

section Columns

variable {prefs : DdlTableMigratorPrefs} {fuel : Nat}

theorem migratesDatatype_of_hsqldb {cname : DdlCname} {defaultValue : Text} {identity : Bool}
    {migrator migrator' : HsqldbTableMigrator} {datatype datatype' : DdlDatatype}
    {migration : DdlDatatypeMigration}
    (h : HsqldbTableMigrator.migrateDatatypeDdl prefs fuel cname defaultValue identity migrator datatype =
      .ok (migration, datatype', migrator')) :
    migration.columnRejected = (prefs.leave datatype).isNone ∧ ∀ left ∈ prefs.leave datatype, datatype' = left := by
  unfold HsqldbTableMigrator.migrateDatatypeDdl at h
  split at h
  · cases h
  · rename_i migration₁ datatype₁ hmigration
    obtain ⟨hrejected, hleft, -⟩ := migrateDatatypeDdl_eq_ok hmigration
    split at h
    · cases h
      exact ⟨hrejected, hleft⟩
    · split at h <;>
      · cases h
        exact ⟨hrejected, hleft⟩

/-- A column is rejected when the rules leave nothing of its data type, and is else written with what they leave. -/
theorem writesColumn_of_migrateTableColumnDdl {column : DdlColumn} {assumedIdentity : Bool}
    {migrator migrator' : HsqldbTableMigrator} {r : ColumnMigration}
    (h : migrateTableColumnDdl (HsqldbTableMigrator.factory prefs fuel) column assumedIdentity migrator =
      .ok (r, migrator')) :
    r.rejected = (prefs.leave column.datatype).isNone ∧ (r.rejected = false → WritesColumn prefs column r.text) := by
  unfold migrateTableColumnDdl at h
  rw [bind_eq_ok] at h
  obtain ⟨⟨migration, datatype, migrator₁⟩, hdatatype, h⟩ := h
  obtain ⟨hrejected, hleft⟩ := migratesDatatype_of_hsqldb hdatatype
  dsimp only at h
  split at h
  · rename_i hcolumn
    cases h
    refine ⟨hrejected, fun hnot => ?_⟩
    exact absurd (hcolumn.symm.trans hnot) (by simp)
  · rename_i hcolumn
    rw [bind_eq_ok] at h
    obtain ⟨datatypeText, hdatatypeText, h⟩ := h
    have hwrites : WritesColumn prefs column (column.cname.name ++ " ".toList ++
        columnDdl column datatypeText migration) := by
      cases hleave : prefs.leave column.datatype with
      | none =>
          rw [hleave] at hrejected
          exact absurd hrejected hcolumn
      | some left =>
          obtain rfl := hleft left hleave
          refine ⟨datatype, datatypeText, hleave, hdatatypeText, ?_⟩
          unfold columnDdl
          simp only [List.append_assoc]
          exact List.prefix_append_right_inj _ |>.mpr <| List.prefix_append_right_inj _ |>.mpr <|
            List.prefix_append _ _
    split at h
    · cases h
      exact ⟨hrejected, fun _ => hwrites⟩
    · cases h
      exact ⟨hrejected, fun _ => hwrites⟩

theorem writesColumns_of_migrateColumns {stname : DdlStname} {assumedIdents : DdlAssumedIdentities}
    {columns : List DdlColumn} {migrator migrator' : HsqldbTableMigrator} {rs : List ColumnMigration}
    (h : migrateColumns (HsqldbTableMigrator.factory prefs fuel) stname assumedIdents columns migrator =
      .ok (rs, migrator')) :
    List.Forall₂ (fun column (r : ColumnMigration) => WritesColumn prefs column r.text ∧ r.column = column)
      (columns.filter fun column => (prefs.leave column.datatype).isSome) (rs.filter fun r => !r.rejected) := by
  induction columns generalizing migrator rs with
  | nil =>
      cases h
      exact .nil
  | cons column columns ih =>
      obtain ⟨r, migrator₁, rs, hcolumn, hcolumns, rfl⟩ := exists_of_migrateColumns_cons _ stname assumedIdents h
      obtain ⟨hrejected, hwrites⟩ := writesColumn_of_migrateTableColumnDdl hcolumn
      cases hleave : prefs.leave column.datatype with
      | none =>
          rw [hleave] at hrejected
          rw [List.filter_cons_of_neg (by simp [hleave]), List.filter_cons_of_neg (by simp [hrejected])]
          exact ih hcolumns
      | some left =>
          rw [hleave] at hrejected
          rw [List.filter_cons_of_pos (by simp [hleave]), List.filter_cons_of_pos (by simp [hrejected])]
          exact .cons ⟨hwrites hrejected, column_of_migrateTableColumnDdl _ hcolumn⟩ (ih hcolumns)

end Columns

namespace SqlsvrDdlStnamesMigrator

variable {m : SqlsvrDdlStnamesMigrator} {prefs : DdlTableMigratorPrefs} {fuel : Nat} {q : SqlsvrDdlQueries}
  {stname : DdlStname}

/-- The columns of a table that its migrator accepts. -/
def acceptedCnames (m : SqlsvrDdlStnamesMigrator) (prefs : DdlTableMigratorPrefs) (fuel : Nat) (q : SqlsvrDdlQueries)
    (stname : DdlStname) : List DdlCname :=
  ((m.columnMigrations prefs fuel q stname).filter fun r => !r.rejected).map fun r => r.column.cname

/-- A column of a table is accepted if it is not rejected by its full name. -/
theorem mem_acceptedCnames (h : m.MigratesColumns prefs fuel q stname) {cname : DdlCname}
    (hcname : cname ∈ ((q.findTc stname).getD []).map SqlsvrDdlTcRec.cname) {K : Finset DdlStcname}
    (hkept : .ofStname stname cname.name ∉ K ∪ stcnamesOf stname (m.rejectedCnames prefs fuel q stname)) :
    cname ∈ m.acceptedCnames prefs fuel q stname := by
  rw [← h] at hcname
  obtain ⟨r, hr, rfl⟩ := List.mem_map.mp hcname
  cases hrejected : r.rejected with
  | false => exact List.mem_map.mpr ⟨r, List.mem_filter.mpr ⟨hr, by simp [hrejected]⟩, rfl⟩
  | true =>
      have hmem : r.column.cname ∈ m.rejectedCnames prefs fuel q stname :=
        List.mem_map.mpr ⟨r, List.mem_filter.mpr ⟨hr, hrejected⟩, rfl⟩
      exact absurd (Finset.mem_union_right K (mem_stcnamesOf_iff.mpr ⟨_, hmem, rfl⟩)) hkept

theorem mem_keyOf_tableChunks_iff {cname : DdlCname} :
    cname ∈ keyOf (m.tableChunks prefs fuel q stname) ↔ cname ∈ m.keyCnames prefs fuel q stname := by
  unfold keyOf
  rw [List.mem_flatMap]
  constructor
  · rintro ⟨chunk, hchunk, hcname⟩
    cases chunk with
    | primaryKey cnames =>
        obtain ⟨-, rfl⟩ := primaryKey_mem_tableChunks_iff.mp hchunk
        exact hcname
    | comma => cases hcname
    | column => cases hcname
    | rejected => cases hcname
  · intro hcname
    exact ⟨_, primaryKey_mem_tableChunks_iff.mpr ⟨List.ne_nil_of_mem hcname, rfl⟩, hcname⟩

/-- The columns of the records of a table that the rules accept. -/
def acceptedColumns (prefs : DdlTableMigratorPrefs) (q : SqlsvrDdlQueries) (stname : DdlStname) : List DdlColumn :=
  (((q.findTc stname).getD []).map SqlsvrDdlTcRec.column).filter fun column =>
    (prefs.leave column.datatype).isSome

/-- What is accepted in a table that has been migrated, and how it is written. -/
theorem writesColumns_of_migratesColumns (h : m.MigratesColumns prefs fuel q stname) :
    List.Forall₂ (fun column (r : ColumnMigration) => WritesColumn prefs column r.text ∧ r.column = column)
      (acceptedColumns prefs q stname) ((m.columnMigrations prefs fuel q stname).filter fun r => !r.rejected) := by
  unfold MigratesColumns at h
  unfold acceptedColumns
  revert h
  unfold columnMigrations SqlsvrDdlQueries.findTableInfo
  cases q.findTc stname with
  | none => exact fun _ => .nil
  | some tcRecs =>
      dsimp only [Option.map_some, Option.getD_some]
      split
      · intro hnil
        cases tcRecs with
        | nil => exact .nil
        | cons tcRec tcRecs => cases hnil
      · rename_i rs migrator hcolumns
        intro _
        exact writesColumns_of_migrateColumns hcolumns

theorem acceptedCnames_eq (h : m.MigratesColumns prefs fuel q stname) :
    m.acceptedCnames prefs fuel q stname = (acceptedColumns prefs q stname).map DdlColumn.cname := by
  have hwrites := writesColumns_of_migratesColumns h
  unfold acceptedCnames
  generalize acceptedColumns prefs q stname = columns at hwrites ⊢
  generalize ((m.columnMigrations prefs fuel q stname).filter fun r => !r.rejected) = rs at hwrites ⊢
  induction hwrites with
  | nil => rfl
  | cons hcolumn _ ih => rw [List.map_cons, List.map_cons, ih, hcolumn.2]

/-- What stands in a created table. -/
theorem writtenColumns_tableChunks (h : m.MigratesColumns prefs fuel q stname) :
    List.Forall₂ (fun column written => written.1 = column.cname ∧ WritesColumn prefs column written.2)
      (acceptedColumns prefs q stname) ((m.tableChunks prefs fuel q stname).filterMap writtenColumn) := by
  have hchunks : ∀ (prev : Bool) (rs : List ColumnMigration),
      (columnChunks stname prev rs).filterMap writtenColumn =
        (rs.filter fun r => !r.rejected).map fun r => (r.column.cname, r.text) := by
    intro prev rs
    induction rs generalizing prev with
    | nil => rfl
    | cons r rs ih =>
        rw [columnChunks, List.filterMap_append, List.filterMap_cons, ih]
        have hcomma : (if prev then [TableChunk.comma] else []).filterMap writtenColumn = [] := by
          cases prev <;> rfl
        rw [hcomma, List.nil_append]
        cases hr : r.rejected <;> simp [ColumnMigration.chunk, writtenColumn, hr]
  have hkey : ∀ (prev : Bool) (cnames : List DdlCname),
      (if cnames = [] then [] else (if prev then [TableChunk.comma] else []) ++ [.primaryKey cnames]).filterMap
        writtenColumn = [] := by
    intro prev cnames
    split
    · rfl
    · cases prev <;> rfl
  unfold tableChunks
  dsimp only
  rw [List.filterMap_append, hchunks, hkey, List.append_nil]
  refine List.forall₂_map_right_iff.mpr ((writesColumns_of_migratesColumns h).imp ?_)
  rintro column r ⟨hwrites, rfl⟩
  exact ⟨rfl, hwrites⟩

end SqlsvrDdlStnamesMigrator

/-! ### The rows -/

/-- The rows of a table whose data types the rules accept. -/
def acceptedRows (prefs : DdlTableMigratorPrefs) (rows : List TcRow) (stname : DdlStname) : List TcRow :=
  rows.filter fun row => decide (row.stname = stname) && (prefs.leave row.tcRec.column.datatype).isSome

theorem SqlsvrDdlQueries.HoldsAll.getD_findTc {q : SqlsvrDdlQueries} {conns : List Connection}
    (h : q.HoldsAll conns) (stname : DdlStname) :
    (q.findTc stname).getD [] =
      ((conns.map Connection.tcRows).flatten.filter (TcRow.stname · = stname)).map TcRow.tcRec := by
  cases hfind : q.findTc stname with
  | some tcRecs => exact ((h.tc stname tcRecs).mp hfind).2
  | none =>
      by_contra hne
      rw [(h.tc stname _).mpr ⟨Ne.symm hne, rfl⟩] at hfind
      cases hfind

theorem acceptedColumns_of_holdsAll {q : SqlsvrDdlQueries} {conns : List Connection} (h : q.HoldsAll conns)
    (prefs : DdlTableMigratorPrefs) (stname : DdlStname) :
    SqlsvrDdlStnamesMigrator.acceptedColumns prefs q stname =
      (acceptedRows prefs (conns.map Connection.tcRows).flatten stname).map fun row => row.tcRec.column := by
  unfold SqlsvrDdlStnamesMigrator.acceptedColumns acceptedRows
  rw [h.getD_findTc, List.map_map, List.filter_map, List.filter_filter]
  congr 2
  funext row
  exact Bool.and_comm _ _

theorem SqlsvrDdlQueries.HoldsAll.of_mem_findCk {q : SqlsvrDdlQueries} {conns : List Connection}
    (h : q.HoldsAll conns) {k : DdlStcname} {ckRec : SqlsvrDdlCkRec} (hckRec : ckRec ∈ (q.findCk k).getD []) :
    ∃ row ∈ (conns.map Connection.ckRows).flatten, ckQuery.stcname row = k ∧ ckQuery.record row = ckRec := by
  cases hfind : q.findCk k with
  | none =>
      rw [hfind] at hckRec
      cases hckRec
  | some ckRecs =>
      rw [hfind, Option.getD_some, ((h.ck k ckRecs).mp hfind).2] at hckRec
      obtain ⟨row, hrow, hrec⟩ := List.mem_map.mp hckRec
      obtain ⟨hrow, hk⟩ := List.mem_filter.mp hrow
      exact ⟨row, hrow, of_decide_eq_true hk, hrec⟩

theorem SqlsvrDdlQueries.HoldsAll.of_mem_findUq {q : SqlsvrDdlQueries} {conns : List Connection}
    (h : q.HoldsAll conns) {k : DdlStcname} {uqRec : SqlsvrDdlUqRec} (huqRec : uqRec ∈ (q.findUq k).getD []) :
    ∃ row ∈ (conns.map Connection.uqRows).flatten, uqQuery.stcname row = k ∧ uqQuery.record row = uqRec := by
  cases hfind : q.findUq k with
  | none =>
      rw [hfind] at huqRec
      cases huqRec
  | some uqRecs =>
      rw [hfind, Option.getD_some, ((h.uq k uqRecs).mp hfind).2] at huqRec
      obtain ⟨row, hrow, hrec⟩ := List.mem_map.mp huqRec
      obtain ⟨hrow, hk⟩ := List.mem_filter.mp hrow
      exact ⟨row, hrow, of_decide_eq_true hk, hrec⟩

theorem SqlsvrDdlQueries.HoldsAll.isSome_findPk_iff {q : SqlsvrDdlQueries} {conns : List Connection}
    (h : q.HoldsAll conns) (k : DdlStcname) :
    (q.findPk k true).isSome ↔ ∃ row ∈ (conns.map Connection.pkRows).flatten, row.stcname = k := by
  have hfind : q.findPk k false = q.pkMapper.find k := by
    unfold findPk
    cases q.pkMapper.find k <;> rfl
  have hpk := h.pk k
  rw [hfind] at hpk
  unfold findPk
  cases hrec : q.pkMapper.find k with
  | none =>
      refine iff_of_false (fun h' => by cases h') fun hrow => ?_
      have hsome := (hpk {}).mpr ⟨rfl, hrow⟩
      rw [hrec] at hsome
      cases hsome
  | some pkRec =>
      obtain ⟨rfl, hrow⟩ := (hpk pkRec).mp hrec
      exact iff_of_true rfl hrow

/-- A row of the table defines the column, and the rules accept it. -/
def Accepted (prefs : DdlTableMigratorPrefs) (rows : List TcRow) (stname : DdlStname) (cname : DdlCname) : Prop :=
  ∃ row ∈ acceptedRows prefs rows stname, row.tcRec.cname = cname

section Rows

variable {m : SqlsvrDdlStnamesMigrator} {prefs : DdlTableMigratorPrefs} {fuel : Nat} {q : SqlsvrDdlQueries}
  {stname : DdlStname} {cname : DdlCname} {conns : List Connection} (hq : q.HoldsAll conns)

include hq

theorem acceptedCnames_of_holdsAll (h : m.MigratesColumns prefs fuel q stname) :
    m.acceptedCnames prefs fuel q stname =
      (acceptedRows prefs (conns.map Connection.tcRows).flatten stname).map fun row => row.tcRec.cname := by
  rw [SqlsvrDdlStnamesMigrator.acceptedCnames_eq h, acceptedColumns_of_holdsAll hq, List.map_map]
  rfl

theorem accepted_iff (h : m.MigratesColumns prefs fuel q stname) :
    Accepted prefs (conns.map Connection.tcRows).flatten stname cname ↔
      cname ∈ m.acceptedCnames prefs fuel q stname := by
  rw [acceptedCnames_of_holdsAll hq h, List.mem_map]
  rfl

/-- A column that a run has not rejected is accepted. -/
theorem accepted_of_kept (h : m.MigratesColumns prefs fuel q stname) {K : Finset DdlStcname}
    {stnames : List DdlStname} (hstname : stname ∈ stnames)
    (hcname : cname ∈ ((q.findTc stname).getD []).map SqlsvrDdlTcRec.cname)
    (hkept : .ofStname stname cname.name ∉ K ∪ m.rejectedIn prefs fuel q stnames) :
    Accepted prefs (conns.map Connection.tcRows).flatten stname cname := by
  refine (accepted_iff hq h).mpr (SqlsvrDdlStnamesMigrator.mem_acceptedCnames h hcname (K := K) ?_)
  intro hrejected
  obtain hK | hrejected := Finset.mem_union.mp hrejected
  · exact hkept (Finset.mem_union_left _ hK)
  · exact hkept (Finset.mem_union_right _
      (SqlsvrDdlStnamesMigrator.mem_rejectedIn_iff.mpr ⟨stname, hstname, mem_stcnamesOf_iff.mp hrejected⟩))

/-- The key of a created table: the accepted columns for which there is a row of the key query. -/
theorem mem_keyOf_iff (h : m.MigratesColumns prefs fuel q stname) :
    cname ∈ keyOf (m.tableChunks prefs fuel q stname) ↔
      Accepted prefs (conns.map Connection.tcRows).flatten stname cname ∧
        ∃ row ∈ (conns.map Connection.pkRows).flatten, row.stcname = .ofStname stname cname.name := by
  rw [SqlsvrDdlStnamesMigrator.mem_keyOf_tableChunks_iff, SqlsvrDdlStnamesMigrator.mem_keyCnames_iff h,
    hq.isSome_findPk_iff, accepted_iff hq h, and_comm]
  refine and_congr_left fun _ => ?_
  unfold SqlsvrDdlStnamesMigrator.acceptedCnames
  simp only [List.mem_map, List.mem_filter, Bool.not_eq_true', and_assoc]

end Rows

end Middle.SqlsvrDdl
