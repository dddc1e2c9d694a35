import Middle.SqlsvrDdl.HideRejected
import Middle.SqlsvrDdl.Run

/-! Foreign keys from the rows of the query to the statements. A column has one record and a record has one
column: the rows of a data source are loaded when no two of them have the same referencing column, and each
of them is then written as a foreign key of its own, also where a constraint has several. So the constraints
survive exactly when no column is in two of them and none is over several pairs of columns. -/

namespace Middle.SqlsvrDdl

open Lib Universals NormalDdl MiddleApp

/-! ### Loading the rows of one data source -/

theorem foldlM_loadRow_zero {rows : List FkRow} {st st' : FkMapLoader}
    (h : rows.foldlM (FkMapLoader.loadRow 0) st = .ok st') :
    (∀ row ∈ rows, row.checked = true) ∧ st'.connectionErrors = st.connectionErrors := by
  induction rows generalizing st with
  | nil =>
      cases h
      exact ⟨List.forall_mem_nil _, rfl⟩
  | cons row rows ih =>
      rw [List.foldlM_cons, bind_eq_ok] at h
      obtain ⟨st₁, hrow, h⟩ := h
      obtain ⟨hrows, herrors⟩ := ih h
      obtain ⟨hchecked, ⟨-, rfl⟩ | ⟨-, hconn, -⟩⟩ := loadRow_cases hrow
      · exact ⟨List.forall_mem_cons.mpr ⟨hchecked, hrows⟩, herrors⟩
      · exact absurd rfl hconn

/-- Of the first data source nothing is ever reported as redefined. -/
theorem connectionErrors_of_loadFkMapper {rows : List FkRow} {st : FkMapLoader}
    (h : loadFkMapper [rows] = .ok st) : (∀ row ∈ rows, row.checked = true) ∧ st.connectionErrors = [] := by
  unfold loadFkMapper at h
  rw [List.zipIdx_singleton, List.foldlM_cons, bind_eq_ok] at h
  obtain ⟨st₁, hrows, h⟩ := h
  cases h
  exact foldlM_loadRow_zero hrows

theorem loadFkMapper_eq_ok_iff (rows : List FkRow) :
    (∃ st, loadFkMapper [rows] = .ok st) ↔
      (∀ row ∈ rows, row.checked = true) ∧ (rows.map FkRow.stcname).Nodup := by
  constructor
  · rintro ⟨⟨m, errors⟩, h⟩
    obtain ⟨hchecked, rfl⟩ := connectionErrors_of_loadFkMapper h
    have hm := loadedFrom_of_loadFkMapper h
    have hnodup := m.map.nodup
    rw [hm.entries, List.map_map, List.flatten_singleton] at hnodup
    exact ⟨hchecked, hnodup⟩
  · rintro ⟨hchecked, hnodup⟩
    obtain ⟨m, h, -⟩ := loadFkMapper_of_nodup hchecked hnodup
    exact ⟨_, h⟩

/-! ### The statements -/

def isAddForeignKey : DdlStatement → Bool
  | .addForeignKey _ _ => true
  | _ => false

/-- The statement that a row is written as. -/
def FkRow.foreignKey (row : FkRow) : DdlStatement := .addForeignKey row.stcname row.refStcname

/-- The constraint that a row belongs to, by its schema, its table and its name. -/
def FkRow.constraint (row : FkRow) : Text × Text × Text := (row.schemaName, row.tableName, row.constraintName)

/-- The referencing and the referenced column of a row. -/
def FkRow.columnPair (row : FkRow) : DdlStcname × DdlStcname := (row.stcname, row.refStcname)

/-- The rows of each constraint. -/
def constraintRows (rows : List FkRow) : List (List FkRow) :=
  (rows.map FkRow.constraint).dedup.map fun name => rows.filter (·.constraint = name)

/-- The pairs of columns in a foreign key. -/
def columnPairs : DdlStatement → List (DdlStcname × DdlStcname)
  | .addForeignKey stcname refStcname => [(stcname, refStcname)]
  | _ => []

/-- The foreign keys correspond to the constraints of the rows one to one, each with the same pairs of columns. -/
def Corresponds (foreignKeys : List DdlStatement) (rows : List FkRow) : Prop :=
  ∃ ordered : List DdlStatement, ordered.Perm foreignKeys ∧
    List.Forall₂ (fun foreignKey constraint => (columnPairs foreignKey).Perm (constraint.map FkRow.columnPair))
      ordered (constraintRows rows)

theorem Corresponds.length_eq {foreignKeys : List DdlStatement} {rows : List FkRow}
    (h : Corresponds foreignKeys rows) : foreignKeys.length = (rows.map FkRow.constraint).dedup.length := by
  obtain ⟨ordered, hperm, hsame⟩ := h
  rw [← hperm.length_eq, hsame.length_eq, constraintRows, List.length_map]

/-- Rows that are written one by one correspond to their constraints when each of these has one row. -/
theorem corresponds_iff {foreignKeys : List DdlStatement} {rows : List FkRow}
    (h : foreignKeys.Perm (rows.map FkRow.foreignKey)) :
    Corresponds foreignKeys rows ↔ (rows.map FkRow.constraint).Nodup := by
  constructor
  · intro hcorresponds
    have hlength := hcorresponds.length_eq
    rw [h.length_eq, List.length_map, ← List.length_map (f := FkRow.constraint)] at hlength
    exact List.dedup_eq_self.mp ((List.dedup_sublist _).eq_of_length hlength.symm)
  · intro hnodup
    refine ⟨rows.map FkRow.foreignKey, h.symm, ?_⟩
    rw [constraintRows, List.dedup_eq_self.mpr hnodup, List.map_map, List.forall₂_map_left_iff,
      List.forall₂_map_right_iff, List.forall₂_same]
    intro row hrow
    have hown : rows.filter (·.constraint = row.constraint) = [row] := by
      apply List.perm_singleton.mp
      rw [List.perm_ext_iff_of_nodup (hnodup.of_map.filter _) (List.nodup_singleton row)]
      intro row'
      rw [List.mem_filter, decide_eq_true_iff, List.mem_singleton]
      constructor
      · rintro ⟨hrow', hsame⟩
        exact List.inj_on_of_nodup_map hnodup hrow' hrow hsame
      · rintro rfl
        exact ⟨hrow, rfl⟩
    rw [Function.comp_apply, hown]
    exact List.Perm.refl _

/-- The full names of the columns of the used tables. -/
def SqlsvrDdlStnamesMigrator.usedStcnames (m : SqlsvrDdlStnamesMigrator) (q : SqlsvrDdlQueries) :
    List DdlStcname :=
  m.stnameUsedcols.keys.flatMap fun stname => ((q.findTc stname).getD []).map fun tcRec => tcRec.stcname stname

/-- The foreign key of a column. -/
def SqlsvrDdlQueries.foreignKey (q : SqlsvrDdlQueries) (k : DdlStcname) : Option DdlStatement :=
  (q.findFk k true).map fun fkRec => .addForeignKey k fkRec.refStcname

namespace SqlsvrDdlStnamesMigrator

variable {m : SqlsvrDdlStnamesMigrator} {prefs : DdlTableMigratorPrefs} {fuel : Nat} {q : SqlsvrDdlQueries}
  {rows : List FkRow}

theorem filter_isAddForeignKey_statementGroup (fks : List (DdlStcname × SqlsvrDdlFkRec)) :
    (statementGroup (fks.map fun fk => .addForeignKey fk.1 fk.2.refStcname)).filter isAddForeignKey =
      fks.map fun fk => .addForeignKey fk.1 fk.2.refStcname := by
  have hall : (fks.map fun fk => DdlStatement.addForeignKey fk.1 fk.2.refStcname).filter isAddForeignKey =
      fks.map fun fk => .addForeignKey fk.1 fk.2.refStcname := by
    rw [List.filter_eq_self, List.forall_mem_map]
    intro fk hfk
    rfl
  unfold statementGroup
  split
  · rename_i hnil
    rw [hnil]
    rfl
  · rw [List.filter_cons_of_neg (by decide), hall]

/-- The foreign keys at the end of a run. -/
theorem filter_isAddForeignKey_fks :
    (m.stnameUsedcols.keys.flatMap q.migrateFkConstraintsDdl).filter isAddForeignKey =
      (m.usedStcnames q).filterMap q.foreignKey := by
  unfold usedStcnames
  rw [List.filter_flatMap, List.filterMap_flatMap]
  congr 1
  funext stname
  unfold SqlsvrDdlQueries.migrateFkConstraintsDdl
  rw [filter_isAddForeignKey_statementGroup, List.filterMap_map, SqlsvrDdlQueries.unhiddenFks,
    List.map_filterMap]
  congr 1
  funext tcRec
  rw [Option.map_map]
  rfl

theorem filter_isAddForeignKey_writtenFrom (K : Finset DdlStcname) (lastSchemaName : Text)
    (stnames : List DdlStname) :
    (m.writtenFrom prefs fuel q K lastSchemaName stnames).filter isAddForeignKey = [] := by
  rw [List.filter_eq_nil_iff, forall_mem_writtenFrom_iff (by decide) (fun _ => by simp [isAddForeignKey])]
  intro before stname behind hsplit hdefined
  refine ⟨by simp [isAddForeignKey], ?_, ?_⟩
  · rw [SqlsvrDdlQueries.forall_mem_migrateCkConstraintsDdl_iff (by decide)]
    intro cname hvisible hkept ckRec hckRec hunhidden
    simp [isAddForeignKey]
  · intro statement hstatement
    by_cases hnewline : statement = .newline
    · simp [hnewline, isAddForeignKey]
    · obtain ⟨name, -, rfl⟩ := (SqlsvrDdlQueries.mem_uqStatements_iff _ _ hnewline).mp hstatement
      simp [isAddForeignKey]

/-- Columns that no foreign key involves hide none when they are rejected. -/
theorem foreignKey_hideAll (hm : LoadedFrom rows q.fkMapper) {K : Finset DdlStcname}
    (hkept : ∀ row ∈ rows, row.stcname ∉ K ∧ row.refStcname ∉ K) (k : DdlStcname) :
    (q.hideAll K).foreignKey k = q.foreignKey k := by
  unfold SqlsvrDdlQueries.foreignKey
  rw [SqlsvrDdlQueries.findFk_hideAll]
  split
  · rename_i hhits
    cases hfind : q.findFk k true with
    | none => rfl
    | some fkRec =>
        obtain ⟨row, hrow, rfl, -⟩ := hm.findFk_eq_some_iff.mp hfind
        rcases (hm.hits_iff K _).mp hhits with hk | ⟨row', hrow', href, -⟩
        · exact absurd hk (hkept row hrow).1
        · exact absurd href (hkept row' hrow').2
  · rfl

theorem usedStcnames_hideAll (K : Finset DdlStcname) : m.usedStcnames (q.hideAll K) = m.usedStcnames q := by
  unfold usedStcnames
  congr 1
  funext stname
  rw [SqlsvrDdlQueries.findTc_hideAll]
  cases q.findTc stname with
  | none => rfl
  | some tcRecs => exact map_hideFirsts (fun _ _ => rfl) _ _

/-- The used columns that have a foreign key are the referencing columns of the rows. -/
theorem filter_usedStcnames_perm (hm : LoadedFrom rows q.fkMapper)
    (hused : ∀ row ∈ rows, (m.usedStcnames q).count row.stcname = 1) :
    ((m.usedStcnames q).filter fun k => (q.foreignKey k).isSome).Perm (rows.map FkRow.stcname) := by
  have hsome : ∀ k, (q.foreignKey k).isSome = true ↔ ∃ row ∈ rows, row.stcname = k := by
    intro k
    rw [SqlsvrDdlQueries.foreignKey, Option.isSome_map, Option.isSome_iff_exists]
    simp only [hm.findFk_eq_some_iff]
    constructor
    · rintro ⟨fkRec, row, hrow, hstcname, -⟩
      exact ⟨row, hrow, hstcname⟩
    · rintro ⟨row, hrow, hstcname⟩
      exact ⟨row.fkRec, row, hrow, hstcname, rfl⟩
  have hnodup : ((m.usedStcnames q).filter fun k => (q.foreignKey k).isSome).Nodup := by
    rw [List.nodup_iff_count_eq_one]
    intro k hk
    obtain ⟨-, hforeignKey⟩ := List.mem_filter.mp hk
    obtain ⟨row, hrow, rfl⟩ := (hsome k).mp hforeignKey
    have hcount : List.count row.stcname ((m.usedStcnames q).filter fun k => (q.foreignKey k).isSome) =
        (m.usedStcnames q).count row.stcname := List.count_filter hforeignKey
    rw [hcount, hused row hrow]
  have hrows : (rows.map FkRow.stcname).Nodup := by
    have hkeys := q.fkMapper.map.nodup
    rwa [hm.entries, List.map_map] at hkeys
  rw [List.perm_ext_iff_of_nodup hnodup hrows]
  intro k
  rw [List.mem_filter, hsome, List.mem_map]
  apply and_iff_right_of_imp
  rintro ⟨row, hrow, rfl⟩
  rw [← List.count_pos_iff, hused row hrow]
  exact Nat.one_pos

/-- Behind a run that rejects no column of a foreign key, each row is written once. -/
theorem foreignKeys_perm {st : MigrationState} (hm : LoadedFrom rows q.fkMapper)
    (h : m.migrateDdlStnames (some (HsqldbTableMigrator.factory prefs fuel)) q = .ok st)
    (hkept : ∀ row ∈ rows, row.stcname ∉ m.rejectedIn prefs fuel q m.sortStnames ∧
      row.refStcname ∉ m.rejectedIn prefs fuel q m.sortStnames)
    (hused : ∀ row ∈ rows, (m.usedStcnames q).count row.stcname = 1) :
    (st.statements.filter isAddForeignKey).Perm (rows.map FkRow.foreignKey) := by
  rw [← q.hideAll_empty] at h
  obtain ⟨-, hstatements, -⟩ := migrateDdlStnames_eq_ok h
  simp only [Finset.empty_union] at hstatements
  have hfks : st.statements.filter isAddForeignKey = (m.usedStcnames q).filterMap q.foreignKey := by
    rw [hstatements, List.filter_append, filter_isAddForeignKey_writtenFrom, List.nil_append,
      filter_isAddForeignKey_fks, usedStcnames_hideAll]
    congr 1
    funext k
    exact foreignKey_hideAll hm hkept k
  have hrows : rows.map FkRow.foreignKey = (rows.map FkRow.stcname).filterMap q.foreignKey := by
    rw [List.filterMap_map, ← List.filterMap_eq_map]
    apply List.filterMap_congr
    intro row hrow
    have hfind := hm.findFk_eq_some_iff.mpr ⟨row, hrow, rfl, rfl⟩
    rw [Function.comp_apply, Function.comp_apply, SqlsvrDdlQueries.foreignKey, hfind]
    rfl
  have hfilter : (m.usedStcnames q).filterMap q.foreignKey =
      ((m.usedStcnames q).filter fun k => (q.foreignKey k).isSome).filterMap q.foreignKey := by
    rw [List.filterMap_filter]
    apply List.filterMap_congr
    intro k hk
    cases q.foreignKey k <;> rfl
  rw [hfks, hrows, hfilter]
  exact (filter_usedStcnames_perm hm hused).filterMap _

end SqlsvrDdlStnamesMigrator

/-- Metadata with the columns `a INT` and `b INT` of `dbo.t`. -/
def tWithFks (fkMapper : SqlsvrDdlFkMapper) : SqlsvrDdlQueries where
  ckMapper := ∅
  fkMapper
  pkMapper := ∅
  uqMapper := ∅
  tcMapper := ⟨[(dboT, [plainTcRec "a" "int", plainTcRec "b" "int"])], by decide⟩

end Middle.SqlsvrDdl
