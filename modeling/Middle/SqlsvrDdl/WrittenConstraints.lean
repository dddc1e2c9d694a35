import Middle.SqlsvrDdl.FactoryRun

/-! The check and unique constraints that are written. A constraint has a record under each column that it uses. The
records of a unique constraint are grouped and written once; those of a check are written one by one, and so a check
of several accepted columns is written several times. -/

namespace Middle.SqlsvrDdl

open Lib Universals NormalDdl MiddleApp

/-! ### Checks -/

/-- Two statements that add a check of one name to one table. -/
def SameCheck : DdlStatement → DdlStatement → Prop
  | .addCheck stcname constraintName _, .addCheck stcname' constraintName' _ =>
      stcname.stname = stcname'.stname ∧ constraintName = constraintName'
  | _, _ => False

/-- No check constraint has two records under these columns, neither under one of them nor under two of a table. -/
structure ChecksFiledOnce (q : SqlsvrDdlQueries) (stcnames : List DdlStcname) : Prop where
  column : ∀ k ∈ stcnames, ((q.visibleCks k).map SqlsvrDdlCkRec.constraintName).Nodup
  columns : stcnames.Pairwise fun k k' => k.stname = k'.stname →
    ∀ ckRec ∈ q.visibleCks k, ∀ ckRec' ∈ q.visibleCks k', ckRec.constraintName ≠ ckRec'.constraintName

theorem isAddCheck_of_sameCheck {s s' : DdlStatement} (h : SameCheck s s') :
    isAddCheck s = true ∧ isAddCheck s' = true := by
  cases s <;> cases s' <;> first | exact ⟨rfl, rfl⟩ | cases h

/-- Only the checks among statements matter. -/
theorem pairwise_sameCheck_filter (statements : List DdlStatement) :
    (statements.filter isAddCheck).Pairwise (fun s s' => ¬ SameCheck s s') ↔
      statements.Pairwise fun s s' => ¬ SameCheck s s' := by
  rw [List.pairwise_filter]
  apply List.Pairwise.iff
  intro s s'
  constructor
  · intro hnot hsame
    obtain ⟨hs, hs'⟩ := isAddCheck_of_sameCheck hsame
    exact hnot hs hs' hsame
  · intro hnot _ _
    exact hnot

theorem pairwise_addChecks_iff {q : SqlsvrDdlQueries} (k : DdlStcname) :
    (q.addChecks k).Pairwise (fun s s' => ¬ SameCheck s s') ↔
      ((q.visibleCks k).map SqlsvrDdlCkRec.constraintName).Nodup := by
  unfold SqlsvrDdlQueries.addChecks List.Nodup
  rw [List.pairwise_map, List.pairwise_map]
  apply List.Pairwise.iff
  intro ckRec ckRec'
  simp [SameCheck]

theorem checksFiledOnce_iff {q : SqlsvrDdlQueries} {stcnames : List DdlStcname} :
    (stcnames.flatMap q.addChecks).Pairwise (fun s s' => ¬ SameCheck s s') ↔ ChecksFiledOnce q stcnames := by
  have hcolumns : ∀ k k' : DdlStcname,
      (∀ s ∈ q.addChecks k, ∀ s' ∈ q.addChecks k', ¬ SameCheck s s') ↔
        (k.stname = k'.stname → ∀ ckRec ∈ q.visibleCks k, ∀ ckRec' ∈ q.visibleCks k',
          ckRec.constraintName ≠ ckRec'.constraintName) := by
    intro k k'
    simp only [SqlsvrDdlQueries.addChecks, List.forall_mem_map, SameCheck, not_and]
    exact ⟨fun h htable ckRec hckRec ckRec' hckRec' => h ckRec hckRec ckRec' hckRec' htable,
      fun h ckRec hckRec ckRec' hckRec' htable => h htable ckRec hckRec ckRec' hckRec'⟩
  rw [List.pairwise_flatMap]
  simp only [pairwise_addChecks_iff, hcolumns]
  exact ⟨fun h => ⟨h.1, h.2⟩, fun h => ⟨h.column, h.columns⟩⟩

/-- A run adds no check twice to a table exactly when no check constraint is filed twice under the columns of the used
tables that are not rejected. -/
theorem SqlsvrDdlStnamesMigrator.migrateDdlStnames_checks_iff {σ : Type} {m : SqlsvrDdlStnamesMigrator}
    {factory : DdlTableMigratorFactory σ} {q : SqlsvrDdlQueries} {st : MigrationState}
    (h : m.migrateDdlStnames (some factory) q = .ok st) :
    st.statements.Pairwise (fun s s' => ¬ SameCheck s s') ↔
      ChecksFiledOnce q (m.keptStcnamesFrom factory q ∅ m.sortStnames) := by
  rw [← pairwise_sameCheck_filter, (migrated_of_migrateDdlStnames h).checks, checksFiledOnce_iff]

/-- A check of the columns `a` and `b`. -/
def lessCk : SqlsvrDdlCkRec where
  constraintName := "ck".toList
  checkClause := "a < b".toList

/-- The metadata of `dbo.t` with the accepted columns `a` and `b`, and with checks. -/
def tWithCks (ckMapper : UnorderedMap DdlStcname (List SqlsvrDdlCkRec)) : SqlsvrDdlQueries :=
  { tWithFks .empty with ckMapper }

theorem migrateDdlStnames_checks_one :
    ∃ st, (usesTable dboT).migrateDdlStnames (some (HsqldbTableMigrator.factory intPrefs 0))
        (tWithCks ⟨[(.ofStname dboT "a".toList, [lessCk])], List.nodup_singleton _⟩) = .ok st ∧
      st.statements.Pairwise fun s s' => ¬ SameCheck s s' := by
  obtain ⟨st, hrun⟩ : ∃ st, (usesTable dboT).migrateDdlStnames (some (HsqldbTableMigrator.factory intPrefs 0))
      (tWithCks ⟨[(.ofStname dboT "a".toList, [lessCk])], List.nodup_singleton _⟩) = .ok st := ⟨_, rfl⟩
  have hkept : (usesTable dboT).keptStcnamesFrom (HsqldbTableMigrator.factory intPrefs 0)
      (tWithCks ⟨[(.ofStname dboT "a".toList, [lessCk])], List.nodup_singleton _⟩) ∅
        (usesTable dboT).sortStnames = [.ofStname dboT "a".toList, .ofStname dboT "b".toList] := by decide
  refine ⟨st, hrun, (SqlsvrDdlStnamesMigrator.migrateDdlStnames_checks_iff hrun).mpr ?_⟩
  rw [hkept]
  refine ⟨by decide, ?_⟩
  rw [List.pairwise_pair]
  rintro - ckRec hckRec ckRec' ⟨⟩

/-- The check is filed under both of its columns, and written with each of them. -/
theorem migrateDdlStnames_checks_two :
    ∃ st, (usesTable dboT).migrateDdlStnames (some (HsqldbTableMigrator.factory intPrefs 0))
        (tWithCks ⟨[(.ofStname dboT "a".toList, [lessCk]), (.ofStname dboT "b".toList, [lessCk])], by decide⟩) =
          .ok st ∧
      st.statements.filter isAddCheck =
        [.addCheck (.ofStname dboT "a".toList) "ck".toList "a < b".toList,
          .addCheck (.ofStname dboT "b".toList) "ck".toList "a < b".toList] ∧
      ¬ st.statements.Pairwise fun s s' => ¬ SameCheck s s' := by
  obtain ⟨st, hrun, hchecks⟩ : ∃ st,
      (usesTable dboT).migrateDdlStnames (some (HsqldbTableMigrator.factory intPrefs 0))
        (tWithCks ⟨[(.ofStname dboT "a".toList, [lessCk]), (.ofStname dboT "b".toList, [lessCk])], by decide⟩) =
          .ok st ∧
      st.statements.filter isAddCheck =
        [.addCheck (.ofStname dboT "a".toList) "ck".toList "a < b".toList,
          .addCheck (.ofStname dboT "b".toList) "ck".toList "a < b".toList] := ⟨_, rfl, by decide⟩
  refine ⟨st, hrun, hchecks, ?_⟩
  rw [← pairwise_sameCheck_filter, hchecks, List.pairwise_pair]
  intro hnot
  exact hnot ⟨by decide, rfl⟩

/-! ### Unique constraints -/

namespace SqlsvrDdlQueries

variable (q : SqlsvrDdlQueries) (stname : DdlStname)

/-- The unique constraints that have a visible record under a column. -/
def visibleUqNames (stcname : DdlStcname) : List Text :=
  (((q.findUq stcname).getD []).filter fun uqRec => !uqRec.hidden).map SqlsvrDdlUqRec.constraintName

/-- The visible columns under which a unique constraint has a visible record. -/
def columnsOfUq (name : Text) : List DdlCname :=
  (q.visibleCnames stname).filter fun cname => name ∈ q.visibleUqNames (.ofStname stname cname.name)

variable {q stname}

/-- Without duplicate records each column of a constraint is listed once. -/
theorem uqCnames_eq_columnsOfUq
    (hnodup : ∀ cname ∈ q.visibleCnames stname, (q.visibleUqNames (.ofStname stname cname.name)).Nodup)
    (name : Text) :
    q.uqCnames stname name = q.columnsOfUq stname name := by
  have hcolumn : ∀ (uqRecs : List SqlsvrDdlUqRec) (cname : DdlCname),
      ((uqRecs.map fun uqRec => (uqRec.constraintName, cname)).filter fun uq => uq.1 = name).map Prod.snd =
        List.replicate ((uqRecs.map SqlsvrDdlUqRec.constraintName).count name) cname := by
    intro uqRecs cname
    induction uqRecs with
    | nil => rfl
    | cons uqRec uqRecs ih =>
        by_cases hname : uqRec.constraintName = name
        · simp [hname, ih, List.replicate_succ]
        · simp [hname, ih]
  have hcnames : ∀ cnames : List DdlCname,
      (∀ cname ∈ cnames, (q.visibleUqNames (.ofStname stname cname.name)).Nodup) →
        (cnames.flatMap fun cname =>
          List.replicate ((q.visibleUqNames (.ofStname stname cname.name)).count name) cname) =
            cnames.filter fun cname => name ∈ q.visibleUqNames (.ofStname stname cname.name) := by
    intro cnames hnodup
    induction cnames with
    | nil => rfl
    | cons cname cnames ih =>
        obtain ⟨hcname, hcnames⟩ := List.forall_mem_cons.mp hnodup
        rw [List.flatMap_cons, ih hcnames]
        by_cases hmem : name ∈ q.visibleUqNames (.ofStname stname cname.name)
        · rw [List.count_eq_one_of_mem hcname hmem, List.filter_cons_of_pos (by simpa using hmem)]
          rfl
        · rw [List.count_eq_zero_of_not_mem hmem, List.filter_cons_of_neg (by simpa using hmem)]
          rfl
  unfold uqCnames visibleUqs columnsOfUq
  rw [List.filter_flatMap, List.map_flatMap]
  simp only [hcolumn]
  exact hcnames _ hnodup

theorem pairwise_sortUqConstraintNames (uqrecColnames : DdlUqrecColnames) :
    (sortUqConstraintNames uqrecColnames).Pairwise (· < ·) := by
  have hle : (sortUqConstraintNames uqrecColnames).Pairwise (· ≤ ·) := List.pairwise_insertionSort _ _
  have hnodup : (sortUqConstraintNames uqrecColnames).Nodup :=
    (List.perm_insertionSort _ _).nodup_iff.mpr uqrecColnames.nodup
  exact (hle.and hnodup).imp fun h => lt_of_le_of_ne h.1 h.2

/-- Each unique constraint of a table is written once, in the order of the names, with its visible columns in the order
of the table. -/
theorem migrateUqConstraintsDdl_writes
    (hnodup : ∀ cname ∈ q.visibleCnames stname, (q.visibleUqNames (.ofStname stname cname.name)).Nodup) :
    ∃ names : List Text,
      q.migrateUqConstraintsDdl stname =
        .ok (statementGroup (names.map fun name => .addUnique stname (q.columnsOfUq stname name) name)) ∧
      names.Pairwise (· < ·) ∧
      ∀ name, name ∈ names ↔
        ∃ cname ∈ q.visibleCnames stname, name ∈ q.visibleUqNames (.ofStname stname cname.name) := by
  refine ⟨sortUqConstraintNames (q.mapUqrecColnames stname), ?_, pairwise_sortUqConstraintNames _, ?_⟩
  · rw [migrateUqConstraintsDdl_eq, uqStatements]
    simp only [uqCnames_eq_columnsOfUq hnodup]
  · intro name
    rw [mem_sortUqConstraintNames_iff, uqCnames_eq_columnsOfUq hnodup]
    simp [columnsOfUq]

end SqlsvrDdlQueries

/-- The metadata of `dbo.t` with the accepted columns `a` and `b`, one constraint over both and one over `b`. -/
def tWithUqs : SqlsvrDdlQueries :=
  { tWithFks .empty with
    uqMapper := ⟨[(.ofStname dboT "a".toList, [{ constraintName := "uq_two".toList }]),
      (.ofStname dboT "b".toList, [{ constraintName := "uq_two".toList }, { constraintName := "uq_one".toList }])],
      by decide⟩ }

theorem migrateUqConstraintsDdl_writes_two :
    ∃ names : List Text,
      tWithUqs.migrateUqConstraintsDdl dboT =
        .ok (statementGroup (names.map fun name => .addUnique dboT (tWithUqs.columnsOfUq dboT name) name)) ∧
      names.Pairwise (· < ·) ∧
      ∀ name, name ∈ names ↔
        ∃ cname ∈ tWithUqs.visibleCnames dboT, name ∈ tWithUqs.visibleUqNames (.ofStname dboT cname.name) :=
  SqlsvrDdlQueries.migrateUqConstraintsDdl_writes (by decide)

example : tWithUqs.migrateUqConstraintsDdl dboT =
    .ok [.newline, .addUnique dboT [.ofText "b".toList] "uq_one".toList,
      .addUnique dboT [.ofText "a".toList, .ofText "b".toList] "uq_two".toList] := rfl

end Middle.SqlsvrDdl
