import Middle.SqlsvrDdl.Validation

/-! A run of `migrate_ddl_stnames` with any table migrator. What a table is written from stays as it was in
front of the run: each step writes its table, or reports that the metadata do not define it, and the foreign
keys follow at the end. -/

namespace Middle.SqlsvrDdl

open Lib Universals NormalDdl MiddleApp

/-! ### The metadata -/

namespace SqlsvrDdlQueries

variable {q q' : SqlsvrDdlQueries}

/-- The metadata but for the unique constraints, which making identity columns unique adds to. -/
def withoutUq (q : SqlsvrDdlQueries) : SqlsvrDdlQueries := { q with uqMapper := ∅ }

theorem withoutUq_hideAll (q : SqlsvrDdlQueries) (K : Finset DdlStcname) :
    (q.hideAll K).withoutUq = q.withoutUq.hideAll K := rfl

theorem findTableInfo_withoutUq (q : SqlsvrDdlQueries) (stname : DdlStname) :
    q.withoutUq.findTableInfo stname = q.findTableInfo stname := rfl

theorem migrateCkConstraintsDdl_withoutUq (q : SqlsvrDdlQueries) (stname : DdlStname) :
    q.withoutUq.migrateCkConstraintsDdl stname = q.migrateCkConstraintsDdl stname := rfl

theorem withoutUq_insertNewUq {stcname : DdlStcname} {constraintName : Text}
    (h : q.insertNewUq stcname constraintName = .ok q') : q'.withoutUq = q.withoutUq := by
  unfold insertNewUq at h
  dsimp only at h
  split at h
  · cases h
    rfl
  · cases h

theorem withoutUq_uniquifyIdentityColumn {stcname : DdlStcname} (h : q.uniquifyIdentityColumn stcname = .ok q') :
    q'.withoutUq = q.withoutUq := by
  unfold uniquifyIdentityColumn at h
  dsimp only at h
  split at h
  · exact withoutUq_insertNewUq h
  · rw [bind_eq_ok] at h
    obtain ⟨sharing, -, h⟩ := h
    split at h
    · cases h
      rfl
    · split at h
      · cases h
      · exact withoutUq_insertNewUq h

theorem withoutUq_foldlM_uniquifyIdentityColumn {stname : DdlStname} {cnames : List DdlCname}
    (h : cnames.foldlM (fun q cname => q.uniquifyIdentityColumn (.ofStname stname cname.name)) q = .ok q') :
    q'.withoutUq = q.withoutUq := by
  induction cnames generalizing q with
  | nil =>
      cases h
      rfl
  | cons cname cnames ih =>
      rw [List.foldlM_cons, bind_eq_ok] at h
      obtain ⟨q₁, hstep, h⟩ := h
      rw [ih h, withoutUq_uniquifyIdentityColumn hstep]

theorem foldlM_hideRejectedColumn_eq_ok {stname : DdlStname} {cnames : List DdlCname}
    (h : cnames.foldlM (fun q cname => q.hideRejectedColumn (.ofStname stname cname.name)) q = .ok q') :
    q' = q.hideAll (stcnamesOf stname cnames) := by
  rw [← q.hideAll_empty, foldlM_hideRejectedColumn, Finset.empty_union] at h
  cases hcheck : q.checkAllRejected stname cnames with
  | error e =>
      rw [hcheck] at h
      cases h
  | ok u =>
      rw [hcheck] at h
      exact (Except.ok.inj h).symm

theorem migrateCkConstraintsDdl_cases {q : SqlsvrDdlQueries} {stname : DdlStname} {statement : DdlStatement}
    (h : statement ∈ q.migrateCkConstraintsDdl stname) :
    statement = .newline ∨ ∃ stcname name checkClause, statement = .addCheck stcname name checkClause := by
  revert statement
  unfold migrateCkConstraintsDdl
  rw [forall_mem_statementGroup (.inl rfl)]
  simp only [List.forall_mem_flatMap, List.forall_mem_map]
  intro cname hcname ckRec hckRec
  exact .inr ⟨_, _, _, rfl⟩

/-- The columns of a table that are left where columns are rejected. -/
def keptStcnames (q : SqlsvrDdlQueries) (K : Finset DdlStcname) (stname : DdlStname) : List DdlStcname :=
  (((q.hideAll K).visibleCnames stname).map fun cname => .ofStname stname cname.name).filter
    fun stcname => stcname ∉ K

/-- The records of a column that are written as checks. -/
def visibleCks (q : SqlsvrDdlQueries) (stcname : DdlStcname) : List SqlsvrDdlCkRec :=
  ((q.findCk stcname).getD []).filter fun ckRec => !ckRec.hidden

def addChecks (q : SqlsvrDdlQueries) (stcname : DdlStcname) : List DdlStatement :=
  (q.visibleCks stcname).map fun ckRec => .addCheck stcname ckRec.constraintName ckRec.checkClause

end SqlsvrDdlQueries

def isAddCheck : DdlStatement → Bool
  | .addCheck .. => true
  | _ => false

theorem filter_isAddCheck_eq_nil {statements : List DdlStatement}
    (h : ∀ statement ∈ statements, isAddCheck statement = false) : statements.filter isAddCheck = [] := by
  rw [List.filter_eq_nil_iff]
  intro statement hmem
  rw [h statement hmem]
  exact Bool.false_ne_true

theorem filter_isAddCheck_migrateCkConstraintsDdl (q : SqlsvrDdlQueries) (K : Finset DdlStcname)
    (stname : DdlStname) :
    ((q.hideAll K).migrateCkConstraintsDdl stname).filter isAddCheck =
      (q.keptStcnames K stname).flatMap q.addChecks := by
  have hcks : ∀ stcname, (((((q.hideAll K).findCk stcname).getD []).filter fun ckRec => !ckRec.hidden).map
      fun ckRec => DdlStatement.addCheck stcname ckRec.constraintName ckRec.checkClause) =
        if stcname ∈ K then [] else q.addChecks stcname := by
    intro stcname
    rw [SqlsvrDdlQueries.unhidden_findCk_hideAll]
    split
    · rfl
    · rfl
  have hkept : ∀ stcnames : List DdlStcname, (stcnames.flatMap fun stcname =>
      if stcname ∈ K then [] else q.addChecks stcname) =
        (stcnames.filter fun stcname => stcname ∉ K).flatMap q.addChecks := by
    intro stcnames
    induction stcnames with
    | nil => rfl
    | cons stcname stcnames ih => by_cases hk : stcname ∈ K <;> simp [hk, ih]
  have hgroup : ∀ statements : List DdlStatement, (∀ statement ∈ statements, isAddCheck statement = true) →
      (statementGroup statements).filter isAddCheck = statements := by
    intro statements hall
    unfold statementGroup
    split
    · rename_i hnil
      rw [hnil]
      rfl
    · rw [List.filter_cons_of_neg (by decide), List.filter_eq_self.mpr hall]
  unfold SqlsvrDdlQueries.migrateCkConstraintsDdl SqlsvrDdlQueries.keptStcnames
  rw [hgroup, ← hkept, List.flatMap_map]
  · congr 1
    funext cname
    exact hcks _
  · simp only [List.forall_mem_flatMap, List.forall_mem_map]
    intro cname hcname ckRec hckRec
    rfl

/-! ### The lines of messages -/

/-- The messages about the columns of a table name their lines, which are counted from 1. -/
theorem lineno_of_migrateCreateTableDdl {σ : Type} {m : DdlTableMigratorFactory σ} {stname : DdlStname}
    {assumedIdents : DdlAssumedIdentities} {lines : Nat} {tableInfo : DdlTableInfo}
    {table : DdlCreateTableMigration}
    (h : migrateCreateTableDdl m stname assumedIdents lines tableInfo = .ok table) :
    ∀ msg ∈ table.msgs, msg.lineno ≠ 0 := by
  obtain ⟨st, _, _, hloop, -, -, -, hmsgs, -⟩ := loop_of_migrateCreateTableDdl _ stname assumedIdents lines h
  have hturns : ∀ (columns : List DdlColumn) (st st' : TableState σ), (∀ msg ∈ st.msgs, msg.lineno ≠ 0) →
      columns.foldlM (migrateColumn m stname assumedIdents lines) st = .ok st' →
        ∀ msg ∈ st'.msgs, msg.lineno ≠ 0 := by
    intro columns
    induction columns with
    | nil =>
        intro st st' hst hrun
        cases hrun
        exact hst
    | cons column columns ih =>
        intro st st' hst hrun
        rw [List.foldlM_cons, bind_eq_ok] at hrun
        obtain ⟨st₁, hturn, hrun⟩ := hrun
        unfold migrateColumn at hturn
        rw [bind_eq_ok] at hturn
        obtain ⟨⟨r, migrator⟩, -, hturn⟩ := hturn
        cases hturn
        refine ih _ _ ?_ hrun
        intro msg hmsg
        rcases List.mem_append.mp hmsg with hmsg | hmsg
        · exact hst msg hmsg
        · obtain ⟨msg', -, rfl⟩ := List.mem_map.mp hmsg
          show 1 + lines + _ ≠ 0
          omega
  rw [hmsgs]
  exact hturns _ _ _ (fun msg hmsg => by cases hmsg) hloop

/-! ### The steps -/

namespace SqlsvrDdlStnamesMigrator

section Factory

variable {σ : Type} (m : SqlsvrDdlStnamesMigrator) (factory : DdlTableMigratorFactory σ) (q : SqlsvrDdlQueries)

/-- The columns of a table that its table migrator rejects. -/
def rejectedBy (stname : DdlStname) : List DdlCname :=
  match q.findTableInfo stname with
  | none => []
  | some tableInfo =>
      match migrateColumns factory stname m.assumedIdents tableInfo.columns
        (factory.makeTableMigrator stname tableInfo.pkCnames) with
      | .error _ => []
      | .ok (rs, _) => (rs.filter ColumnMigration.rejected).map fun r => r.column.cname

/-- The messages about a table that name no line. -/
def tableMsgs (stname : DdlStname) : List DdlStnamesMigrationMsg :=
  if (q.findTableInfo stname).isNone then [tableUndefinedMsg stname]
  else (m.rejectedBy factory q stname).flatMap (m.rejectedMsgs stname)

/-- The full names of the columns rejected in tables. -/
def rejectedByIn (stnames : List DdlStname) : Finset DdlStcname :=
  stnames.toFinset.biUnion fun stname => stcnamesOf stname (m.rejectedBy factory q stname)

/-- The columns of tables that are left, `K` being rejected in front of them. -/
def keptStcnamesFrom (K : Finset DdlStcname) : List DdlStname → List DdlStcname
  | [] => []
  | stname :: stnames =>
      let K' := K ∪ stcnamesOf stname (m.rejectedBy factory q stname)
      q.keptStcnames K' stname ++ keptStcnamesFrom K' stnames

/-- What the steps for tables do to a state, where `q` are the metadata in front of the run and `K` is rejected in
front of the steps. -/
structure Visited (K : Finset DdlStcname) (stnames : List DdlStname) (st st' : MigrationState) : Prop where
  queries : st'.queries.withoutUq = q.withoutUq.hideAll (K ∪ m.rejectedByIn factory q stnames)
  tableInfoCnt : st'.tableInfoCnt =
    st.tableInfoCnt + stnames.countP fun stname => (q.findTableInfo stname).isSome
  created : ∀ stname, (∃ chunks, .createTable stname chunks ∈ st'.statements) ↔
    (∃ chunks, .createTable stname chunks ∈ st.statements) ∨
      stname ∈ stnames ∧ (q.findTableInfo stname).isSome
  checks : st'.statements.filter isAddCheck =
    st.statements.filter isAddCheck ++ (m.keptStcnamesFrom factory q K stnames).flatMap q.addChecks
  foreignKeys : ∀ stcname refStcname, .addForeignKey stcname refStcname ∈ st'.statements ↔
    .addForeignKey stcname refStcname ∈ st.statements
  msgs : ∀ msg, msg.lineno = 0 → (msg ∈ st'.stnamesMigrationMsgs ↔
    msg ∈ st.stnamesMigrationMsgs ∨ ∃ stname ∈ stnames, msg ∈ m.tableMsgs factory q stname)

variable {m factory q}

theorem rejectedCnames_of_migrateCreateTableDdl {stname : DdlStname} {tableInfo : DdlTableInfo} {lines : Nat}
    {table : DdlCreateTableMigration} (hinfo : q.findTableInfo stname = some tableInfo)
    (h : migrateCreateTableDdl factory stname m.assumedIdents lines tableInfo = .ok table) :
    table.rejectedCnames = m.rejectedBy factory q stname := by
  obtain ⟨rs, migrator, _, _, hcolumns, -, -, hrejected, -⟩ := migrateCreateTableDdl_eq_ok _ _ _ _ h
  unfold rejectedBy
  rw [hinfo, hrejected]
  dsimp only
  rw [hcolumns]

theorem rejectedBy_of_findTableInfo_eq_none {stname : DdlStname} (h : q.findTableInfo stname = none) :
    m.rejectedBy factory q stname = [] := by
  unfold rejectedBy
  rw [h]

theorem rejectedByIn_cons (stname : DdlStname) (stnames : List DdlStname) :
    m.rejectedByIn factory q (stname :: stnames) =
      stcnamesOf stname (m.rejectedBy factory q stname) ∪ m.rejectedByIn factory q stnames := by
  unfold rejectedByIn
  rw [List.toFinset_cons, Finset.biUnion_insert]

/-- A table that has been migrated. -/
theorem migrateDdlStname_eq_ok {stname : DdlStname} {tableInfo : DdlTableInfo} {st st' : MigrationState}
    (h : m.migrateDdlStname factory stname tableInfo st = .ok st') :
    ∃ lines table uqs, migrateCreateTableDdl factory stname m.assumedIdents lines tableInfo = .ok table ∧
      st'.queries.withoutUq = st.queries.withoutUq.hideAll (stcnamesOf stname table.rejectedCnames) ∧
      st'.statements = st.statements ++ schemaDdl st.lastSchemaName stname ++
        [.createTable stname table.chunks] ++ st'.queries.migrateCkConstraintsDdl stname ++ uqs ∧
      (∀ statement ∈ uqs, statement = .newline ∨ ∃ cnames name, statement = .addUnique stname cnames name) ∧
      st'.stnamesMigrationMsgs = st.stnamesMigrationMsgs ++ table.msgs ++
        table.rejectedCnames.flatMap (m.rejectedMsgs stname) ∧
      st'.tableInfoCnt = st.tableInfoCnt := by
  unfold migrateDdlStname at h
  dsimp only at h
  split at h
  · cases h
  · rw [bind_eq_ok] at h
    obtain ⟨table, htable, h⟩ := h
    rw [bind_eq_ok] at h
    obtain ⟨q₁, huniquify, h⟩ := h
    rw [bind_eq_ok] at h
    obtain ⟨q₂, hhide, h⟩ := h
    rw [SqlsvrDdlQueries.migrateUqConstraintsDdl_eq] at h
    cases h
    obtain rfl := SqlsvrDdlQueries.foldlM_hideRejectedColumn_eq_ok hhide
    refine ⟨_, table, _, htable, ?_, rfl, ?_, rfl, rfl⟩
    · rw [SqlsvrDdlQueries.withoutUq_hideAll, SqlsvrDdlQueries.withoutUq_foldlM_uniquifyIdentityColumn huniquify]
    · intro statement hstatement
      by_cases hnewline : statement = .newline
      · exact .inl hnewline
      · obtain ⟨name, -, rfl⟩ := (SqlsvrDdlQueries.mem_uqStatements_iff _ _ hnewline).mp hstatement
        exact .inr ⟨_, _, rfl⟩

theorem schemaDdl_cases {lastSchemaName : Text} {stname : DdlStname} {statement : DdlStatement}
    (h : statement ∈ schemaDdl lastSchemaName stname) :
    statement = .newline ∨ ∃ schemaName, statement = .createSchema schemaName := by
  unfold schemaDdl at h
  split at h
  · split at h
    · exact .inr ⟨_, List.mem_singleton.mp h⟩
    · rcases List.mem_cons.mp h with h | h
      · exact .inl h
      · exact .inr ⟨_, List.mem_singleton.mp h⟩
  · cases h

/-- Of the statements for a table, neither what stands in front of its definition nor its constraints create a table or a
foreign key. -/
theorem mem_statements_iff {stname : DdlStname} {st st' : MigrationState} {chunks : List TableChunk}
    {uqs : List DdlStatement}
    (hstatements : st'.statements = st.statements ++ schemaDdl st.lastSchemaName stname ++
      [.createTable stname chunks] ++ st'.queries.migrateCkConstraintsDdl stname ++ uqs)
    (huqs : ∀ statement ∈ uqs, statement = .newline ∨ ∃ cnames name, statement = .addUnique stname cnames name)
    (statement : DdlStatement) (hnewline : statement ≠ .newline)
    (hschema : ∀ schemaName, statement ≠ .createSchema schemaName)
    (hcheck : ∀ stcname name checkClause, statement ≠ .addCheck stcname name checkClause)
    (hunique : ∀ cnames name, statement ≠ .addUnique stname cnames name) :
    statement ∈ st'.statements ↔ statement ∈ st.statements ∨ statement = .createTable stname chunks := by
  have hfirst : statement ∉ schemaDdl st.lastSchemaName stname := by
    intro hmem
    rcases schemaDdl_cases hmem with rfl | ⟨schemaName, rfl⟩
    · exact hnewline rfl
    · exact hschema schemaName rfl
  have hck : statement ∉ st'.queries.migrateCkConstraintsDdl stname := by
    intro hmem
    rcases SqlsvrDdlQueries.migrateCkConstraintsDdl_cases hmem with rfl | ⟨stcname, name, checkClause, rfl⟩
    · exact hnewline rfl
    · exact hcheck stcname name checkClause rfl
  have huq : statement ∉ uqs := by
    intro hmem
    rcases huqs statement hmem with rfl | ⟨cnames, name, rfl⟩
    · exact hnewline rfl
    · exact hunique cnames name rfl
  simp [hstatements, hfirst, hck, huq]

/-- A step of the run for a table that is not defined. -/
theorem visited_of_undefined {K : Finset DdlStcname} {stname : DdlStname} {st : MigrationState}
    (hst : st.queries.withoutUq = q.withoutUq.hideAll K) (hinfo : q.findTableInfo stname = none) :
    m.Visited factory q K [stname] st
      { st with stnamesMigrationMsgs := st.stnamesMigrationMsgs ++ [tableUndefinedMsg stname] } := by
  have hnone : m.rejectedBy factory q stname = [] := rejectedBy_of_findTableInfo_eq_none hinfo
  have hempty : stcnamesOf stname [] = ∅ := rfl
  have hrejected : m.rejectedByIn factory q [] = ∅ := rfl
  have hkept : q.keptStcnames K stname = [] := by
    unfold SqlsvrDdlQueries.keptStcnames SqlsvrDdlQueries.visibleCnames
    rw [q.findTc_hideAll, Option.map_eq_none_iff.mp hinfo]
    rfl
  refine ⟨?_, ?_, ?_, ?_, fun _ _ => Iff.rfl, ?_⟩
  · rw [rejectedByIn_cons, hnone, hempty, hrejected, Finset.union_empty, Finset.union_empty]
    exact hst
  · simp [hinfo]
  · intro stname'
    refine (or_iff_left ?_).symm
    rintro ⟨hstname, hdefined⟩
    rw [List.mem_singleton.mp hstname, hinfo] at hdefined
    cases hdefined
  · simp [keptStcnamesFrom, hnone, hempty, hkept]
  · intro msg hmsg
    simp [tableMsgs, hinfo]

/-- A step of the run for a table that is defined. -/
theorem visited_of_defined {K : Finset DdlStcname} {stname : DdlStname} {tableInfo : DdlTableInfo}
    {st st' : MigrationState} (hst : st.queries.withoutUq = q.withoutUq.hideAll K)
    (hinfo : q.findTableInfo stname = some tableInfo)
    (h : m.migrateDdlStname factory stname tableInfo st = .ok st') :
    m.Visited factory q K [stname] st { st' with tableInfoCnt := st'.tableInfoCnt + 1 } := by
  obtain ⟨lines, table, uqs, hcreate, hqueries, hstatements, huqs, hmsgs, hcnt⟩ := migrateDdlStname_eq_ok h
  rw [rejectedCnames_of_migrateCreateTableDdl hinfo hcreate, hst, SqlsvrDdlQueries.hideAll_hideAll] at hqueries
  rw [rejectedCnames_of_migrateCreateTableDdl hinfo hcreate] at hmsgs
  have hrejected : m.rejectedByIn factory q [stname] = stcnamesOf stname (m.rejectedBy factory q stname) := by
    rw [rejectedByIn_cons]
    exact Finset.union_empty _
  have hcks : st'.queries.migrateCkConstraintsDdl stname =
      (q.hideAll (K ∪ stcnamesOf stname (m.rejectedBy factory q stname))).migrateCkConstraintsDdl stname := by
    rw [← SqlsvrDdlQueries.migrateCkConstraintsDdl_withoutUq, hqueries, ← SqlsvrDdlQueries.withoutUq_hideAll,
      SqlsvrDdlQueries.migrateCkConstraintsDdl_withoutUq]
  have hother := mem_statements_iff hstatements huqs
  refine ⟨?_, ?_, ?_, ?_, ?_, ?_⟩
  · rw [hrejected]
    exact hqueries
  · simp [hinfo, hcnt]
  · intro stname'
    have hcreated : ∀ chunks, .createTable stname' chunks ∈ st'.statements ↔
        .createTable stname' chunks ∈ st.statements ∨
          DdlStatement.createTable stname' chunks = .createTable stname table.chunks :=
      fun chunks => hother _ (by simp) (by simp) (by simp) (by simp)
    simp only [hcreated, exists_or, List.mem_singleton]
    apply or_congr_right
    constructor
    · rintro ⟨chunks, heq⟩
      obtain ⟨rfl, -⟩ := DdlStatement.createTable.inj heq
      exact ⟨rfl, by simp [hinfo]⟩
    · rintro ⟨rfl, -⟩
      exact ⟨_, rfl⟩
  · have hfirst : (schemaDdl st.lastSchemaName stname).filter isAddCheck = [] := by
      refine filter_isAddCheck_eq_nil fun statement hmem => ?_
      rcases schemaDdl_cases hmem with rfl | ⟨schemaName, rfl⟩
      · rfl
      · rfl
    have huq : uqs.filter isAddCheck = [] := by
      refine filter_isAddCheck_eq_nil fun statement hmem => ?_
      rcases huqs statement hmem with rfl | ⟨cnames, name, rfl⟩
      · rfl
      · rfl
    have htable : [DdlStatement.createTable stname table.chunks].filter isAddCheck = [] := rfl
    dsimp only
    rw [hstatements, List.filter_append, List.filter_append, List.filter_append, List.filter_append, hfirst, htable,
      huq, hcks, filter_isAddCheck_migrateCkConstraintsDdl, List.append_nil, List.append_nil, List.append_nil,
      keptStcnamesFrom, keptStcnamesFrom, List.append_nil]
  · intro stcname refStcname
    rw [hother _ (by simp) (by simp) (by simp) (by simp)]
    simp
  · intro msg hmsg
    have hlineno : msg ∉ table.msgs := fun hmem => lineno_of_migrateCreateTableDdl hcreate msg hmem hmsg
    simp only [hmsgs, List.mem_append, hlineno, or_false, List.mem_singleton, exists_eq_left, tableMsgs, hinfo,
      Option.isNone_some, Bool.false_eq_true, if_false]

/-- A step of the run. -/
theorem visited_visitStname {K : Finset DdlStcname} {stname : DdlStname} {st st' : MigrationState}
    (hst : st.queries.withoutUq = q.withoutUq.hideAll K)
    (h : m.visitStname (some factory) st stname = .ok st') : m.Visited factory q K [stname] st st' := by
  have htable : st.queries.findTableInfo stname = q.findTableInfo stname := by
    rw [← SqlsvrDdlQueries.findTableInfo_withoutUq, hst, SqlsvrDdlQueries.findTableInfo_hideAll,
      SqlsvrDdlQueries.findTableInfo_withoutUq]
  unfold visitStname at h
  rw [htable] at h
  cases hinfo : q.findTableInfo stname with
  | none =>
      rw [hinfo] at h
      cases h
      exact visited_of_undefined hst hinfo
  | some tableInfo =>
      rw [hinfo] at h
      dsimp only at h
      rw [bind_eq_ok] at h
      obtain ⟨st₁, hmigrate, h⟩ := h
      cases h
      exact visited_of_defined hst hinfo hmigrate

theorem visited_nil {K : Finset DdlStcname} {st : MigrationState}
    (hst : st.queries.withoutUq = q.withoutUq.hideAll K) : m.Visited factory q K [] st st := by
  have hrejected : m.rejectedByIn factory q [] = ∅ := rfl
  refine ⟨?_, rfl, by simp, by simp [keptStcnamesFrom], fun _ _ => Iff.rfl, by simp⟩
  rw [hrejected, Finset.union_empty]
  exact hst

theorem visited_cons {K : Finset DdlStcname} {stname : DdlStname} {stnames : List DdlStname}
    {st st₁ st' : MigrationState} (h : m.Visited factory q K [stname] st st₁)
    (h' : m.Visited factory q (K ∪ stcnamesOf stname (m.rejectedBy factory q stname)) stnames st₁ st') :
    m.Visited factory q K (stname :: stnames) st st' := by
  refine ⟨?_, ?_, ?_, ?_, ?_, ?_⟩
  · rw [h'.queries, rejectedByIn_cons, Finset.union_assoc]
  · rw [h'.tableInfoCnt, h.tableInfoCnt, Nat.add_assoc, ← List.countP_append]
    rfl
  · intro stname'
    rw [h'.created, h.created, List.mem_singleton, List.mem_cons, or_and_right, or_assoc]
  · rw [h'.checks, h.checks, keptStcnamesFrom, keptStcnamesFrom, keptStcnamesFrom, List.append_nil,
      List.flatMap_append, List.append_assoc]
  · intro stcname refStcname
    rw [h'.foreignKeys, h.foreignKeys]
  · intro msg hmsg
    simp only [h'.msgs msg hmsg, h.msgs msg hmsg, List.mem_cons, List.not_mem_nil, or_false, exists_eq_left,
      exists_eq_or_imp, or_assoc]

theorem visited_foldlM_visitStname {K : Finset DdlStcname} {stnames : List DdlStname} {st st' : MigrationState}
    (hst : st.queries.withoutUq = q.withoutUq.hideAll K)
    (h : stnames.foldlM (m.visitStname (some factory)) st = .ok st') : m.Visited factory q K stnames st st' := by
  induction stnames generalizing K st with
  | nil =>
      cases h
      exact visited_nil hst
  | cons stname stnames ih =>
      rw [List.foldlM_cons, bind_eq_ok] at h
      obtain ⟨st₁, hstep, h⟩ := h
      have hvisited := visited_visitStname hst hstep
      have hqueries := hvisited.queries
      have hrejected : m.rejectedByIn factory q [] = ∅ := rfl
      rw [rejectedByIn_cons, hrejected, Finset.union_empty] at hqueries
      exact visited_cons hvisited (ih hqueries h)

/-! ### The run -/

/-- What a run has written and reported. -/
structure Migrated (m : SqlsvrDdlStnamesMigrator) (factory : DdlTableMigratorFactory σ) (q : SqlsvrDdlQueries)
    (st : MigrationState) : Prop where
  queries : st.queries.withoutUq = q.withoutUq.hideAll (m.rejectedByIn factory q m.sortStnames)
  created : ∀ stname, (∃ chunks, .createTable stname chunks ∈ st.statements) ↔
    stname ∈ m.stnameUsedcols.keys ∧ (q.findTableInfo stname).isSome
  checks : st.statements.filter isAddCheck = (m.keptStcnamesFrom factory q ∅ m.sortStnames).flatMap q.addChecks
  foreignKeys : ∀ stcname refStcname, .addForeignKey stcname refStcname ∈ st.statements ↔
    ∃ stname ∈ m.stnameUsedcols.keys, ∃ fkRec, (stcname, fkRec) ∈ st.queries.unhiddenFks stname ∧
      fkRec.refStcname = refStcname
  msgs : ∀ msg, msg.lineno = 0 → (msg ∈ st.stnamesMigrationMsgs ↔
    (∃ stname ∈ m.stnameUsedcols.keys, msg ∈ m.tableMsgs factory q stname) ∨ msg ∈ m.fkTargetMsgs st.queries)

/-- A table is written from the same metadata behind the run as in front of it. -/
theorem Migrated.findTableInfo_eq {st : MigrationState} (h : m.Migrated factory q st) (stname : DdlStname) :
    st.queries.findTableInfo stname = q.findTableInfo stname := by
  rw [← SqlsvrDdlQueries.findTableInfo_withoutUq, h.queries, SqlsvrDdlQueries.findTableInfo_hideAll,
    SqlsvrDdlQueries.findTableInfo_withoutUq]

theorem mem_flatMap_migrateFkConstraintsDdl_iff {q : SqlsvrDdlQueries} {stcname refStcname : DdlStcname} :
    .addForeignKey stcname refStcname ∈ m.stnameUsedcols.keys.flatMap q.migrateFkConstraintsDdl ↔
      ∃ stname ∈ m.stnameUsedcols.keys, ∃ fkRec, (stcname, fkRec) ∈ q.unhiddenFks stname ∧
        fkRec.refStcname = refStcname := by
  rw [List.mem_flatMap]
  apply exists_congr
  intro stname
  apply and_congr_right
  intro hstname
  rw [SqlsvrDdlQueries.migrateFkConstraintsDdl, mem_statementGroup_iff (by simp), List.mem_map]
  constructor
  · rintro ⟨⟨k, fkRec⟩, hfk, heq⟩
    obtain ⟨rfl, rfl⟩ := DdlStatement.addForeignKey.inj heq
    exact ⟨fkRec, hfk, rfl⟩
  · rintro ⟨fkRec, hfk, rfl⟩
    exact ⟨_, hfk, rfl⟩

theorem migrateFkConstraintsDdl_cases {q : SqlsvrDdlQueries} {stname : DdlStname} {statement : DdlStatement}
    (h : statement ∈ q.migrateFkConstraintsDdl stname) :
    statement = .newline ∨ ∃ stcname refStcname, statement = .addForeignKey stcname refStcname := by
  by_cases hnewline : statement = .newline
  · exact .inl hnewline
  · rw [SqlsvrDdlQueries.migrateFkConstraintsDdl, mem_statementGroup_iff hnewline] at h
    obtain ⟨fk, -, rfl⟩ := List.mem_map.mp h
    exact .inr ⟨_, _, rfl⟩

/-- The steps of a run, and the foreign keys behind them; there are none when no table is defined. -/
theorem migrateDdlStnames_some_eq_ok {st : MigrationState} (h : m.migrateDdlStnames (some factory) q = .ok st) :
    ∃ st₁, m.Visited factory q ∅ m.sortStnames { queries := q } st₁ ∧ st.queries = st₁.queries ∧
      st.statements = st₁.statements ++ m.stnameUsedcols.keys.flatMap st.queries.migrateFkConstraintsDdl ∧
      st.stnamesMigrationMsgs = st₁.stnamesMigrationMsgs ++ m.fkTargetMsgs st.queries := by
  obtain ⟨st₁, hloop, hend⟩ := migrateDdlStnames_cases h
  have hvisited : m.Visited factory q ∅ m.sortStnames { queries := q } st₁ :=
    visited_foldlM_visitStname (by rw [SqlsvrDdlQueries.hideAll_empty]) hloop
  refine ⟨st₁, hvisited, ?_⟩
  obtain ⟨hzero, rfl⟩ | ⟨-, rfl⟩ := hend
  · have hundefined : ∀ stname ∈ m.stnameUsedcols.keys, st₁.queries.findTc stname = none := by
      intro stname hstname
      have hall : ∀ stname ∈ m.sortStnames, q.findTableInfo stname = none := by
        simpa [hzero] using hvisited.tableInfoCnt.symm
      have hnone := hall stname (mem_sortStnames_iff.mpr hstname)
      rw [← SqlsvrDdlQueries.findTableInfo_withoutUq, ← SqlsvrDdlQueries.findTableInfo_hideAll,
        ← hvisited.queries, SqlsvrDdlQueries.findTableInfo_withoutUq] at hnone
      exact Option.map_eq_none_iff.mp hnone
    rw [flatMap_migrateFkConstraintsDdl_of_undefined hundefined, fkTargetMsgs_of_undefined hundefined,
      List.append_nil, List.append_nil]
    exact ⟨rfl, rfl, rfl⟩
  · exact ⟨rfl, rfl, rfl⟩

theorem migrated_of_migrateDdlStnames {st : MigrationState}
    (h : m.migrateDdlStnames (some factory) q = .ok st) : m.Migrated factory q st := by
  obtain ⟨st₁, hvisited, hqueries, hstatements, hmsgs⟩ := migrateDdlStnames_some_eq_ok h
  refine ⟨?_, ?_, ?_, ?_, ?_⟩
  · rw [hqueries, hvisited.queries, Finset.empty_union]
  · intro stname
    have hfk : ∀ chunks, .createTable stname chunks ∉
        m.stnameUsedcols.keys.flatMap st.queries.migrateFkConstraintsDdl := by
      intro chunks hmem
      obtain ⟨stname', -, hmem⟩ := List.mem_flatMap.mp hmem
      rcases migrateFkConstraintsDdl_cases hmem with heq | ⟨stcname, refStcname, heq⟩
      · cases heq
      · cases heq
    simp only [hstatements, List.mem_append, hfk, or_false, hvisited.created, mem_sortStnames_iff, List.not_mem_nil,
      exists_false, false_or]
  · have hfk : (m.stnameUsedcols.keys.flatMap st.queries.migrateFkConstraintsDdl).filter isAddCheck = [] := by
      refine filter_isAddCheck_eq_nil fun statement hmem => ?_
      obtain ⟨stname, -, hmem⟩ := List.mem_flatMap.mp hmem
      rcases migrateFkConstraintsDdl_cases hmem with rfl | ⟨stcname, refStcname, rfl⟩
      · rfl
      · rfl
    rw [hstatements, List.filter_append, hfk, hvisited.checks, List.append_nil]
    rfl
  · intro stcname refStcname
    rw [hstatements, List.mem_append, hvisited.foreignKeys, or_iff_right List.not_mem_nil,
      mem_flatMap_migrateFkConstraintsDdl_iff]
  · intro msg hmsg
    simp only [hmsgs, List.mem_append, hvisited.msgs msg hmsg, mem_sortStnames_iff, List.not_mem_nil, false_or]

end Factory

end SqlsvrDdlStnamesMigrator

end Middle.SqlsvrDdl
