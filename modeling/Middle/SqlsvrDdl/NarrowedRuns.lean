import Middle.Lib.SideBySide
import Middle.SqlsvrDdl.CreatedTables
import Middle.SqlsvrDdl.History
import Middle.SqlsvrDdl.WrittenConstraints

/-! A run over metadata in which columns have been rejected before, beside the run over the metadata as loaded. The
two end alike, and they write the same schemas and tables. Constraints get lost, and a unique constraint may be left
with some of its columns only, which asks for more of the rows than the one it stands for. -/

namespace Middle.SqlsvrDdl

open Lib Universals NormalDdl MiddleApp

/-! ### Constraints that get lost -/

/-- A statement that adds a constraint to a table, or separates statements. -/
def addsConstraint : DdlStatement → Bool
  | .createSchema .. => false
  | .createTable .. => false
  | _ => true

/-- The same statement, or a unique constraint over some of the columns. -/
inductive FewerColumns : DdlStatement → DdlStatement → Prop
  | refl (statement : DdlStatement) : FewerColumns statement statement
  | unique {stname : DdlStname} {cnames cnames' : List DdlCname} {constraintName : Text}
      (h : cnames'.Sublist cnames) :
      FewerColumns (.addUnique stname cnames constraintName) (.addUnique stname cnames' constraintName)

/-- From the first statements to the second ones constraints get lost, or columns of unique constraints. -/
abbrev LosesConstraints : List DdlStatement → List DdlStatement → Prop :=
  Thinned (fun statement => addsConstraint statement = true) FewerColumns

theorem losesConstraints_refl (statements : List DdlStatement) : LosesConstraints statements statements :=
  Thinned.refl .refl statements

theorem losesConstraints_of_sublist {statements statements' : List DdlStatement}
    (hsub : statements'.Sublist statements) (h : ∀ statement ∈ statements, addsConstraint statement = true) :
    LosesConstraints statements statements' := by
  induction hsub with
  | slnil => exact .nil
  | cons statement _ ih =>
      obtain ⟨hstatement, hstatements⟩ := List.forall_mem_cons.mp h
      exact .drop hstatement (ih hstatements)
  | cons_cons statement _ ih => exact .cons (.refl statement) (ih (List.forall_mem_cons.mp h).2)

theorem losesConstraints_statementGroup {statements statements' : List DdlStatement}
    (h : LosesConstraints statements statements') :
    LosesConstraints (statementGroup statements) (statementGroup statements') := by
  unfold statementGroup
  by_cases hnil : statements = []
  · subst hnil
    cases h
    exact .nil
  · rw [if_neg hnil]
    by_cases hnil' : statements' = []
    · rw [if_pos hnil']
      rw [hnil'] at h
      exact .drop rfl h
    · rw [if_neg hnil']
      exact .cons (.refl .newline) h

/-! ### Constraints with more columns rejected -/

theorem visibleBehind_sublist {p p' : DdlCname → Bool} (h : ∀ cname, p cname = true → p' cname = true)
    (tcRecs : List SqlsvrDdlTcRec) : (visibleBehind p' tcRecs).Sublist (visibleBehind p tcRecs) := by
  induction tcRecs generalizing p p' with
  | nil => exact List.Sublist.refl _
  | cons tcRec tcRecs ih =>
      rw [visibleBehind_cons, visibleBehind_cons]
      refine List.Sublist.append ?_ (ih ?_)
      · cases hpicks : p tcRec.cname with
        | true => rw [h _ hpicks]
        | false =>
            cases tcRec.hidden <;> cases p' tcRec.cname <;> simp
      · intro cname hcname
        rw [Bool.and_eq_true] at hcname ⊢
        exact ⟨h cname hcname.1, hcname.2⟩

namespace SqlsvrDdlQueries

variable {q : SqlsvrDdlQueries} {K K' : Finset DdlStcname} {stname : DdlStname}

section Subset

variable (hsub : K ⊆ K')

include hsub

theorem visibleCnames_sublist :
    ((q.hideAll K').visibleCnames stname).Sublist ((q.hideAll K).visibleCnames stname) := by
  rw [visibleCnames_hideAll, visibleCnames_hideAll]
  apply visibleBehind_sublist
  intro cname hpicks
  obtain ⟨k, hk, hcolumn⟩ := of_decide_eq_true hpicks
  exact decide_eq_true ⟨k, hsub hk, hcolumn⟩

theorem losesConstraints_migrateCkConstraintsDdl :
    LosesConstraints ((q.hideAll K).migrateCkConstraintsDdl stname)
      ((q.hideAll K').migrateCkConstraintsDdl stname) := by
  apply losesConstraints_statementGroup
  apply losesConstraints_of_sublist
  · refine ((visibleCnames_sublist hsub).flatMap _).trans (List.Sublist.flatMap_right _ ?_)
    intro cname _
    apply List.Sublist.map
    rw [unhidden_findCk_hideAll, unhidden_findCk_hideAll]
    by_cases hk : DdlStcname.make stname.schemaName stname.tableName cname.name ∈ K
    · rw [if_pos hk, if_pos (hsub hk)]
    · rw [if_neg hk]
      split
      · exact List.nil_sublist _
      · exact List.Sublist.refl _
  · intro statement hstatement
    obtain ⟨cname, -, hstatement⟩ := List.mem_flatMap.mp hstatement
    obtain ⟨ckRec, -, rfl⟩ := List.mem_map.mp hstatement
    rfl

theorem visibleUqs_sublist : ((q.hideAll K').visibleUqs stname).Sublist ((q.hideAll K).visibleUqs stname) := by
  refine ((visibleCnames_sublist hsub).flatMap _).trans (List.Sublist.flatMap_right _ ?_)
  intro cname _
  apply List.Sublist.map
  rw [unhidden_findUq_hideAll, unhidden_findUq_hideAll]
  by_cases hk : .ofStname stname cname.name ∈ K
  · rw [if_pos hk, if_pos (hsub hk)]
  · rw [if_neg hk]
    split
    · exact List.nil_sublist _
    · exact List.Sublist.refl _

theorem uqCnames_sublist (constraintName : Text) :
    ((q.hideAll K').uqCnames stname constraintName).Sublist ((q.hideAll K).uqCnames stname constraintName) :=
  ((visibleUqs_sublist hsub).filter _).map _

theorem sortUqConstraintNames_sublist :
    (sortUqConstraintNames ((q.hideAll K').mapUqrecColnames stname)).Sublist
      (sortUqConstraintNames ((q.hideAll K).mapUqrecColnames stname)) := by
  have hsorted := pairwise_sortUqConstraintNames ((q.hideAll K).mapUqrecColnames stname)
  have hsorted' := pairwise_sortUqConstraintNames ((q.hideAll K').mapUqrecColnames stname)
  refine List.sublist_of_subperm_of_pairwise (r := (· ≤ ·)) (List.subperm_of_subset ?_ ?_)
    (hsorted'.imp le_of_lt) (hsorted.imp le_of_lt)
  · exact hsorted'.imp ne_of_lt
  · intro constraintName hname
    rw [mem_sortUqConstraintNames_iff] at hname ⊢
    intro hnil
    have hsublist : ((q.hideAll K').uqCnames stname constraintName).Sublist _ := uqCnames_sublist hsub constraintName
    rw [hnil, List.sublist_nil] at hsublist
    exact hname hsublist

theorem losesConstraints_uqStatements :
    LosesConstraints ((q.hideAll K).uqStatements stname) ((q.hideAll K').uqStatements stname) :=
  losesConstraints_statementGroup <| Thinned.map_of_sublist (sortUqConstraintNames_sublist hsub)
    (fun _ => rfl) fun constraintName => .unique (uqCnames_sublist hsub constraintName)

theorem unhiddenFks_sublist :
    ((q.hideAll K').unhiddenFks stname).Sublist ((q.hideAll K).unhiddenFks stname) := by
  rw [unhiddenFks_hideAll, unhiddenFks_hideAll]
  apply List.monotone_filter_right
  intro fk hfk
  have hunion : K ∪ K' = K' := Finset.union_eq_right.mpr hsub
  rw [decide_eq_true_eq, ← hunion, SqlsvrDdlFkMapper.hits_union, not_or] at hfk
  exact decide_eq_true hfk.1

theorem losesConstraints_migrateFkConstraintsDdl (stnames : List DdlStname) :
    LosesConstraints (stnames.flatMap (q.hideAll K).migrateFkConstraintsDdl)
      (stnames.flatMap (q.hideAll K').migrateFkConstraintsDdl) := by
  induction stnames with
  | nil => exact .nil
  | cons stname stnames ih =>
      rw [List.flatMap_cons, List.flatMap_cons]
      refine .append (losesConstraints_statementGroup (losesConstraints_of_sublist ?_ ?_)) ih
      · exact (unhiddenFks_sublist hsub).map _
      · intro statement hstatement
        obtain ⟨fk, -, rfl⟩ := List.mem_map.mp hstatement
        rfl

end Subset

end SqlsvrDdlQueries

/-! ### The lines in messages -/

/-- A message without its line. -/
def forgetLineno (msg : DdlStnamesMigrationMsg) : DdlStnamesMigrationMsg := { msg with lineno := 0 }

/-- From the first messages to the second ones warnings about the targets of foreign keys get lost. The lines of
messages do not count. -/
def LosesFkTargetMsgs (msgs msgs' : List DdlStnamesMigrationMsg) : Prop :=
  ∃ lost : List DdlStname, (msgs.map forgetLineno).Perm (msgs'.map forgetLineno ++ lost.map fkTargetMsg)

/-- What is written for a table, and its messages without their lines. -/
def forgetLines (table : DdlCreateTableMigration) : DdlCreateTableMigration :=
  { table with msgs := table.msgs.map forgetLineno }

/-- What the loop over the columns has written, and its messages without their lines. -/
def forgetLinesOf {σ : Type} (st : TableState σ) : TableState σ := { st with msgs := st.msgs.map forgetLineno }

section Lines

variable {σ : Type} (factory : DdlTableMigratorFactory σ) (stname : DdlStname)
  (assumedIdents : DdlAssumedIdentities) (lines lines' : Nat)

/-- A turn of the loop over the columns behind other lines. -/
theorem migrateColumn_sideBySide {st st' : TableState σ} (h : forgetLinesOf st = forgetLinesOf st')
    (column : DdlColumn) :
    SideBySide (fun st st' => forgetLinesOf st = forgetLinesOf st')
      (migrateColumn factory stname assumedIdents lines st column)
      (migrateColumn factory stname assumedIdents lines' st' column) := by
  obtain ⟨migrator, chunks, prev, rejectedCnames, msgs⟩ := st
  obtain ⟨migrator', chunks', prev', rejectedCnames', msgs'⟩ := st'
  simp only [forgetLinesOf, TableState.mk.injEq] at h
  obtain ⟨rfl, rfl, rfl, rfl, hmsgs⟩ := h
  unfold migrateColumn
  dsimp only
  cases migrateTableColumnDdl factory column (DdlStcname.ofStname stname column.cname.name ∈ assumedIdents)
    migrator with
  | error e => exact .error e
  | ok outcome =>
      refine .ok ?_
      simp only [forgetLinesOf, List.map_append, List.map_map, hmsgs]
      rfl

/-- A table written behind other lines: only the lines in its messages are others. -/
theorem migrateCreateTableDdl_sideBySide (tableInfo : DdlTableInfo) :
    SideBySide (fun table table' => forgetLines table = forgetLines table')
      (migrateCreateTableDdl factory stname assumedIdents lines tableInfo)
      (migrateCreateTableDdl factory stname assumedIdents lines' tableInfo) := by
  unfold migrateCreateTableDdl
  refine (SideBySide.foldlM (fun st st' column h =>
    migrateColumn_sideBySide factory stname assumedIdents lines lines' h column) rfl _).bind ?_
  rintro ⟨migrator, chunks, prev, rejectedCnames, msgs⟩ ⟨migrator', chunks', prev', rejectedCnames', msgs'⟩ h
  simp only [forgetLinesOf, TableState.mk.injEq] at h
  obtain ⟨rfl, rfl, rfl, rfl, hmsgs⟩ := h
  dsimp only
  cases factory.filterPkColumns migrator with
  | error e => exact .error e
  | ok behind =>
      dsimp only [bind, Except.bind]
      cases factory.uniquifyIdentityColumns behind.2 with
      | error e => exact .error e
      | ok cnames =>
          refine .ok ?_
          simp only [forgetLines, hmsgs]

end Lines

/-! ### Runs -/

/-- What a run has done, and what one over the same metadata with `L` rejected has done. -/
structure MigrationState.Narrows (L : Finset DdlStcname) (st st' : MigrationState) : Prop where
  queries : st'.queries = st.queries.hideAll L
  statements : LosesConstraints st.statements st'.statements
  stnamesMigrationMsgs : st'.stnamesMigrationMsgs.map forgetLineno = st.stnamesMigrationMsgs.map forgetLineno
  lastSchemaName : st'.lastSchemaName = st.lastSchemaName
  tableInfoCnt : st'.tableInfoCnt = st.tableInfoCnt

/-- What a run leaves, and what one over the same metadata with `L` rejected leaves. It reports the same but for targets
of foreign keys. -/
structure MigrationState.NarrowsTo (L : Finset DdlStcname) (st st' : MigrationState) : Prop where
  queries : st'.queries = st.queries.hideAll L
  statements : LosesConstraints st.statements st'.statements
  stnamesMigrationMsgs : LosesFkTargetMsgs st.stnamesMigrationMsgs st'.stnamesMigrationMsgs

namespace SqlsvrDdlStnamesMigrator

variable (m : SqlsvrDdlStnamesMigrator) (prefs : DdlTableMigratorPrefs) (fuel : Nat) (q : SqlsvrDdlQueries)
  (L : Finset DdlStcname)

theorem migrateTable_sideBySide (stname : DdlStname) (lines lines' : Nat) :
    SideBySide (fun table table' => table.map forgetLines = table'.map forgetLines)
      (m.migrateTable prefs fuel q stname lines) (m.migrateTable prefs fuel q stname lines') := by
  unfold migrateTable
  cases q.findTableInfo stname with
  | none => exact .ok rfl
  | some tableInfo =>
      dsimp only
      split
      · exact .error _
      · refine (migrateCreateTableDdl_sideBySide _ stname m.assumedIdents lines lines' tableInfo).bind ?_
        intro table table' h
        have hrejected : (forgetLines table).rejectedCnames = (forgetLines table').rejectedCnames := by rw [h]
        rw [show table.rejectedCnames = table'.rejectedCnames from hrejected]
        cases q.checkAllRejected stname table'.rejectedCnames with
        | error e => exact .error e
        | ok u => exact .ok (congrArg some h)

/-- A step for a table, over metadata with `L` rejected besides. -/
theorem visitStname_narrows {st st' : MigrationState} (h : st.Narrows L st') (stname : DdlStname) :
    SideBySide (MigrationState.Narrows L)
      (m.visitStname (some (HsqldbTableMigrator.factory prefs fuel)) st stname)
      (m.visitStname (some (HsqldbTableMigrator.factory prefs fuel)) st' stname) := by
  rw [visitStname_eq m prefs fuel st.queries st.queries.hideAll_empty.symm,
    visitStname_eq m prefs fuel st.queries h.queries]
  refine (migrateTable_sideBySide m prefs fuel st.queries stname _ _).map ?_
  rintro (_ | table) (_ | table') htable
  · refine ⟨?_, h.statements, ?_, h.lastSchemaName, h.tableInfoCnt⟩
    · simp only [stateBehind, SqlsvrDdlQueries.hideAll_hideAll, Finset.empty_union]
    · simp only [stateBehind, List.map_append, h.stnamesMigrationMsgs]
  · cases htable
  · cases htable
  · obtain ⟨rejectedCnames, uniquifyIdentityCnames, chunks, msgs⟩ := table
    obtain ⟨rejectedCnames', uniquifyIdentityCnames', chunks', msgs'⟩ := table'
    simp only [Option.map_some, Option.some.injEq, forgetLines, DdlCreateTableMigration.mk.injEq] at htable
    obtain ⟨rfl, rfl, rfl, hmsgs⟩ := htable
    have hsub : ∅ ∪ stcnamesOf stname rejectedCnames ⊆ L ∪ stcnamesOf stname rejectedCnames :=
      Finset.union_subset_union (Finset.empty_subset L) (Finset.Subset.refl _)
    refine ⟨?_, ?_, ?_, rfl, congrArg (· + 1) h.tableInfoCnt⟩
    · simp only [stateBehind, SqlsvrDdlQueries.hideAll_hideAll, Finset.empty_union, Finset.union_comm]
    · simp only [stateBehind, h.lastSchemaName]
      exact (((h.statements.append (losesConstraints_refl _)).append (losesConstraints_refl _)).append
        (SqlsvrDdlQueries.losesConstraints_migrateCkConstraintsDdl hsub)).append
          (SqlsvrDdlQueries.losesConstraints_uqStatements hsub)
    · simp only [stateBehind, List.map_append, h.stnamesMigrationMsgs, hmsgs]

/-- The tables that foreign keys reference, where `L` is rejected besides. -/
theorem fkTargetMsgs_perm_append :
    ∃ lost : List DdlStname, (m.fkTargetMsgs q).Perm (m.fkTargetMsgs (q.hideAll L) ++ lost.map fkTargetMsg) := by
  have hsub : ∀ stname, ((q.hideAll L).unhiddenFks stname).Sublist (q.unhiddenFks stname) := by
    intro stname
    have hsublist : ((q.hideAll L).unhiddenFks stname).Sublist ((q.hideAll ∅).unhiddenFks stname) :=
      SqlsvrDdlQueries.unhiddenFks_sublist (Finset.empty_subset L)
    rwa [q.hideAll_empty] at hsublist
  have hkeys : (m.allFkrefStnames (q.hideAll L)).keys ⊆ (m.allFkrefStnames q).keys := by
    intro stname hkey
    unfold allFkrefStnames at hkey ⊢
    rw [mem_keys_foldl_insert, List.mem_flatMap] at hkey ⊢
    obtain hkey | ⟨e, he, hkey⟩ := hkey
    · exact .inl hkey
    · refine .inr ⟨e, he, ?_⟩
      unfold SqlsvrDdlQueries.fkrefStnames at hkey ⊢
      split at hkey
      · cases hkey
      · exact (((hsub e.1).filter _).map _).subset hkey
  obtain ⟨kept, hkept, hsublist⟩ := List.subperm_of_subset
    ((m.allFkrefStnames (q.hideAll L)).nodup.filter fun stname => (m.stnameUsedcols.find stname).isNone)
    (List.filter_subset _ hkeys)
  obtain ⟨lost, hlost⟩ := hsublist.exists_perm_append
  refine ⟨lost, ?_⟩
  have hmsgs := (hlost.trans (hkept.append_right lost)).map fkTargetMsg
  rw [List.map_append] at hmsgs
  exact hmsgs

/-- Columns rejected beforehand: the run ends or throws as from the metadata as loaded. It writes the same but for
constraints and their columns that get lost, and reports the same but for targets of foreign keys. -/
theorem migrateDdlStnames_narrowsTo :
    SideBySide (MigrationState.NarrowsTo L)
      (m.migrateDdlStnames (some (HsqldbTableMigrator.factory prefs fuel)) q)
      (m.migrateDdlStnames (some (HsqldbTableMigrator.factory prefs fuel)) (q.hideAll L)) := by
  unfold migrateDdlStnames
  refine (SideBySide.foldlM (R := MigrationState.Narrows L) (fun st st' stname h =>
    m.visitStname_narrows prefs fuel L h stname) ?_ m.sortStnames).bind ?_
  · exact ⟨rfl, .nil, rfl, rfl, rfl⟩
  · intro st st' h
    refine .ok ?_
    rw [h.tableInfoCnt]
    split
    · refine ⟨h.queries, h.statements, [], ?_⟩
      rw [h.stnamesMigrationMsgs, List.map_nil, List.append_nil]
    · have hsub := Finset.empty_subset L
      have hfks := SqlsvrDdlQueries.losesConstraints_migrateFkConstraintsDdl (q := st.queries) hsub
        m.stnameUsedcols.keys
      rw [st.queries.hideAll_empty] at hfks
      unfold migrateValidateFkConstraintsDdl
      rw [h.queries]
      obtain ⟨lost, hlost⟩ := m.fkTargetMsgs_perm_append st.queries L
      refine ⟨rfl, h.statements.append hfks, lost, ?_⟩
      have hforgets : (lost.map fkTargetMsg).map forgetLineno = lost.map fkTargetMsg := by
        rw [List.map_map]
        rfl
      have htargets := hlost.map forgetLineno
      rw [List.map_append, hforgets] at htargets
      rw [List.map_append, List.map_append, h.stnamesMigrationMsgs, List.append_assoc]
      exact htargets.append_left _

end SqlsvrDdlStnamesMigrator

end Middle.SqlsvrDdl
