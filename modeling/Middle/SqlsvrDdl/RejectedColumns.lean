import Middle.SqlsvrDdl.Keys

/-! Rejected columns in the constraints behind a run for HSQLDB. A constraint over several columns is kept as
records of single columns, and a rejection reaches the records of its own column only: the checks and the
foreign keys on which it does not reach all of a constraint are characterised. -/

namespace Middle.SqlsvrDdl

open Lib Universals NormalDdl MiddleApp

/-- A column takes part in the constraint that a statement is about; a check is about the columns of its
table that have a record of its name. -/
def TakesPart (q : SqlsvrDdlQueries) (stname : DdlStname) (cname : DdlCname) : DdlStatement → Prop
  | .newline | .createSchema _ => False
  | .createTable stname' chunks => stname' = stname ∧ ∃ cnames, .primaryKey cnames ∈ chunks ∧ cname ∈ cnames
  | .addCheck stcname constraintName _ => stcname.stname = stname ∧
      ∃ ckRec ∈ (q.findCk (.ofStname stname cname.name)).getD [], ckRec.constraintName = constraintName
  | .addUnique stname' cnames _ => stname' = stname ∧ cname ∈ cnames
  | .addForeignKey stcname refStcname =>
      stcname = .ofStname stname cname.name ∨ refStcname = .ofStname stname cname.name

namespace SqlsvrDdlStnamesMigrator

/-- The column is rejected in a table of the source file. -/
def Rejects (m : SqlsvrDdlStnamesMigrator) (prefs : DdlTableMigratorPrefs) (fuel : Nat)
    (q : SqlsvrDdlQueries) (stname : DdlStname) (cname : DdlCname) : Prop :=
  stname ∈ m.stnameUsedcols.keys ∧ cname ∈ m.rejectedCnames prefs fuel q stname

/-- Where the records of a constraint are rejected together. `rows` are those of the foreign key query. -/
structure RejectsWhole (m : SqlsvrDdlStnamesMigrator) (prefs : DdlTableMigratorPrefs) (fuel : Nat)
    (q : SqlsvrDdlQueries) (rows : List FkRow) : Prop where
  /-- No accepted column of a primary key has the name of a rejected one. -/
  pk : ∀ stname cname, m.Rejects prefs fuel q stname cname →
    (q.findPk (.ofStname stname cname.name) true).isSome →
      ∀ r ∈ m.columnMigrations prefs fuel q stname, r.column.cname = cname → r.rejected = true
  /-- No check of a column that is left has a record under a rejected column of its table. -/
  ck : ∀ before stname behind, m.sortStnames = before ++ stname :: behind →
    ∀ cname ∈ (q.hideAll (m.rejectedIn prefs fuel q (before ++ [stname]))).visibleCnames stname,
      .ofStname stname cname.name ∉ m.rejectedIn prefs fuel q (before ++ [stname]) →
        ∀ ckRec ∈ (q.findCk (.ofStname stname cname.name)).getD [],
          ∀ stname' cname', m.Rejects prefs fuel q stname' cname' →
            (DdlStcname.ofStname stname cname.name).stname = stname' →
              ∀ ckRec' ∈ (q.findCk (.ofStname stname' cname'.name)).getD [],
                ckRec'.constraintName ≠ ckRec.constraintName
  /-- A foreign key from a column that is left to a rejected one is the first record of its name. -/
  fk : ∀ stname ∈ m.stnameUsedcols.keys, ∀ tcRec ∈ (q.findTc stname).getD [],
    tcRec.stcname stname ∉ m.rejectedIn prefs fuel q m.sortStnames →
      ∀ row ∈ rows, row.stcname = tcRec.stcname stname →
        row.refStcname ∈ m.rejectedIn prefs fuel q m.sortStnames →
          rows.find? (·.constraintName = row.constraintName) = some row

variable {m : SqlsvrDdlStnamesMigrator} {prefs : DdlTableMigratorPrefs} {fuel : Nat} {q : SqlsvrDdlQueries}
  {conns : List (List FkRow)}

/-- No rejected column takes part in the constraint of a statement. -/
def FreeOfRejected (m : SqlsvrDdlStnamesMigrator) (prefs : DdlTableMigratorPrefs) (fuel : Nat)
    (q : SqlsvrDdlQueries) (statement : DdlStatement) : Prop :=
  ∀ stname cname, m.Rejects prefs fuel q stname cname → ¬ TakesPart q stname cname statement

theorem mem_rejectedIn_sortStnames_iff {k : DdlStcname} :
    k ∈ m.rejectedIn prefs fuel q m.sortStnames ↔
      ∃ stname cname, m.Rejects prefs fuel q stname cname ∧ .ofStname stname cname.name = k := by
  rw [mem_rejectedIn_iff]
  constructor
  · rintro ⟨stname, hstname, cname, hcname, rfl⟩
    exact ⟨stname, cname, ⟨mem_sortStnames_iff.mp hstname, hcname⟩, rfl⟩
  · rintro ⟨stname, cname, ⟨hstname, hcname⟩, rfl⟩
    exact ⟨stname, mem_sortStnames_iff.mpr hstname, cname, hcname, rfl⟩

theorem freeOfRejected_createTable_iff {stname : DdlStname} (h : m.MigratesColumns prefs fuel q stname) :
    m.FreeOfRejected prefs fuel q (.createTable stname (m.tableChunks prefs fuel q stname)) ↔
      ∀ cname, m.Rejects prefs fuel q stname cname →
        (q.findPk (.ofStname stname cname.name) true).isSome →
          ∀ r ∈ m.columnMigrations prefs fuel q stname, r.column.cname = cname → r.rejected = true := by
  have hkey : ∀ cname, TakesPart q stname cname (.createTable stname (m.tableChunks prefs fuel q stname)) ↔
      cname ∈ m.keyCnames prefs fuel q stname := by
    intro cname
    constructor
    · rintro ⟨-, cnames, hcnames, hcname⟩
      obtain ⟨-, rfl⟩ := primaryKey_mem_tableChunks_iff.mp hcnames
      exact hcname
    · intro hcname
      exact ⟨rfl, _, primaryKey_mem_tableChunks_iff.mpr ⟨List.ne_nil_of_mem hcname, rfl⟩, hcname⟩
  constructor
  · intro hfree cname hrejects hpk r hr hcname
    have hnot := hfree stname cname hrejects
    rw [hkey, mem_keyCnames_iff h] at hnot
    by_contra haccepted
    exact hnot ⟨hpk, r, hr, Bool.eq_false_of_not_eq_true haccepted, hcname⟩
  · intro hwhole stname' cname hrejects htakes
    obtain rfl : stname = stname' := htakes.1
    rw [hkey, mem_keyCnames_iff h] at htakes
    obtain ⟨hpk, r, hr, haccepted, hcname⟩ := htakes
    rw [hwhole cname hrejects hpk r hr hcname] at haccepted
    cases haccepted

/-- A unique constraint is written without rejected columns in any case. -/
theorem freeOfRejected_addUnique (before : List DdlStname) (stname : DdlStname) (name : Text) :
    m.FreeOfRejected prefs fuel q (.addUnique stname
      ((q.hideAll (m.rejectedIn prefs fuel q (before ++ [stname]))).uqCnames stname name) name) := by
  rintro stname' cname hrejects ⟨rfl, hcname⟩
  rw [SqlsvrDdlQueries.mem_uqCnames_iff, SqlsvrDdlQueries.mem_visibleUqs_hideAll_iff] at hcname
  obtain ⟨-, hkept, -⟩ := hcname
  exact hkept (mem_rejectedIn_iff.mpr ⟨stname, by simp, cname, hrejects.2, rfl⟩)

theorem freeOfRejected_addForeignKey_iff {stcname refStcname : DdlStcname} :
    m.FreeOfRejected prefs fuel q (.addForeignKey stcname refStcname) ↔
      stcname ∉ m.rejectedIn prefs fuel q m.sortStnames ∧ refStcname ∉ m.rejectedIn prefs fuel q m.sortStnames := by
  simp only [mem_rejectedIn_sortStnames_iff]
  constructor
  · intro hfree
    constructor
    · rintro ⟨stname, cname, hrejects, hname⟩
      exact hfree stname cname hrejects (.inl hname.symm)
    · rintro ⟨stname, cname, hrejects, hname⟩
      exact hfree stname cname hrejects (.inr hname.symm)
  · rintro ⟨hstcname, hrefStcname⟩ stname cname hrejects (hname | hname)
    · exact hstcname ⟨stname, cname, hrejects, hname.symm⟩
    · exact hrefStcname ⟨stname, cname, hrejects, hname.symm⟩

/-- A foreign key that is not hidden is free of rejected columns when it is the first record of its name
in case it references one. -/
theorem freeOfRejected_fk_iff (hq : q.Loaded conns) {row : FkRow} (hrow : row ∈ conns.flatten) :
    (¬ q.fkMapper.Hits (m.rejectedIn prefs fuel q m.sortStnames) row.stcname →
      m.FreeOfRejected prefs fuel q (.addForeignKey row.stcname row.refStcname)) ↔
    (row.stcname ∉ m.rejectedIn prefs fuel q m.sortStnames →
      row.refStcname ∈ m.rejectedIn prefs fuel q m.sortStnames →
        conns.flatten.find? (·.constraintName = row.constraintName) = some row) := by
  have hm := loadedFrom_of_loadFkMapper hq.fk
  rw [freeOfRejected_addForeignKey_iff, hm.hits_iff]
  constructor
  · intro hfree hstcname hrefStcname
    have hhits : ∃ row' ∈ conns.flatten, row'.refStcname ∈ m.rejectedIn prefs fuel q m.sortStnames ∧
        ∃ first, conns.flatten.find? (·.constraintName = row'.constraintName) = some first ∧
          first.stcname = row.stcname := by
      by_contra hnone
      exact (hfree (not_or.mpr ⟨hstcname, hnone⟩)).2 hrefStcname
    obtain ⟨row', -, -, first, hfirst, hstcname'⟩ := hhits
    obtain rfl := hm.stcname_inj (List.mem_of_find?_eq_some hfirst) hrow hstcname'
    have hname : first.constraintName = row'.constraintName := by simpa using List.find?_some hfirst
    rwa [hname]
  · intro hwhole hhits
    obtain ⟨hstcname, hnone⟩ := not_or.mp hhits
    refine ⟨hstcname, ?_⟩
    intro hrefStcname
    exact hnone ⟨row, hrow, hrefStcname, row, hwhole hstcname hrefStcname, rfl⟩

/-- The check on a record of a column, given that the column and the record are left. -/
theorem freeOfRejected_addCheck_iff {stname : DdlStname} {cname : DdlCname} {ckRec : SqlsvrDdlCkRec} :
    m.FreeOfRejected prefs fuel q
        (.addCheck (.ofStname stname cname.name) ckRec.constraintName ckRec.checkClause) ↔
      ∀ stname' cname', m.Rejects prefs fuel q stname' cname' →
        (DdlStcname.ofStname stname cname.name).stname = stname' →
          ∀ ckRec' ∈ (q.findCk (.ofStname stname' cname'.name)).getD [],
            ckRec'.constraintName ≠ ckRec.constraintName := by
  apply forall₃_congr
  intro stname' cname' hrejects
  constructor
  · intro hfree hstname ckRec' hckRec' hname
    exact hfree ⟨hstname, ckRec', hckRec', hname⟩
  · rintro hwhole ⟨hstname, ckRec', hckRec', hname⟩
    exact hwhole hstname ckRec' hckRec' hname

theorem freeOfRejected_cks_iff (hq : q.Loaded conns) {K : Finset DdlStcname} {stname : DdlStname} :
    (∀ statement ∈ (q.hideAll K).migrateCkConstraintsDdl stname, m.FreeOfRejected prefs fuel q statement) ↔
      ∀ cname ∈ (q.hideAll K).visibleCnames stname, .ofStname stname cname.name ∉ K →
        ∀ ckRec ∈ (q.findCk (.ofStname stname cname.name)).getD [],
          ∀ stname' cname', m.Rejects prefs fuel q stname' cname' →
            (DdlStcname.ofStname stname cname.name).stname = stname' →
              ∀ ckRec' ∈ (q.findCk (.ofStname stname' cname'.name)).getD [],
                ckRec'.constraintName ≠ ckRec.constraintName := by
  rw [SqlsvrDdlQueries.forall_mem_migrateCkConstraintsDdl_iff (fun _ _ _ => id)]
  simp only [freeOfRejected_addCheck_iff]
  apply forall₃_congr
  intro cname hvisible hkept
  apply forall₂_congr
  intro ckRec hckRec
  exact forall_prop_of_true (hq.ck _ ckRec hckRec)

theorem freeOfRejected_uqs (before : List DdlStname) (stname : DdlStname) :
    ∀ statement ∈ (q.hideAll (m.rejectedIn prefs fuel q (before ++ [stname]))).uqStatements stname,
      m.FreeOfRejected prefs fuel q statement := by
  intro statement hstatement
  by_cases hnewline : statement = .newline
  · rw [hnewline]
    exact fun _ _ _ => id
  · obtain ⟨name, -, rfl⟩ := (SqlsvrDdlQueries.mem_uqStatements_iff _ _ hnewline).mp hstatement
    exact freeOfRejected_addUnique before stname name

theorem freeOfRejected_fks_iff (hq : q.Loaded conns) (stname : DdlStname) :
    (∀ statement ∈ (q.hideAll (m.rejectedIn prefs fuel q m.sortStnames)).migrateFkConstraintsDdl stname,
      m.FreeOfRejected prefs fuel q statement) ↔
    ∀ tcRec ∈ (q.findTc stname).getD [], tcRec.stcname stname ∉ m.rejectedIn prefs fuel q m.sortStnames →
      ∀ row ∈ conns.flatten, row.stcname = tcRec.stcname stname →
        row.refStcname ∈ m.rejectedIn prefs fuel q m.sortStnames →
          conns.flatten.find? (·.constraintName = row.constraintName) = some row := by
  rw [SqlsvrDdlQueries.migrateFkConstraintsDdl, forall_mem_statementGroup (fun _ _ _ => id),
    List.forall_mem_map, SqlsvrDdlQueries.unhiddenFks_hideAll]
  have hm := loadedFrom_of_loadFkMapper hq.fk
  constructor
  · intro hfree tcRec htcRec hkept row hrow hstcname
    rw [← hstcname] at hkept
    refine (freeOfRejected_fk_iff hq hrow).mp ?_ hkept
    intro hhits
    refine hfree (row.stcname, row.fkRec) (List.mem_filter.mpr ⟨?_, by simpa using hhits⟩)
    exact SqlsvrDdlQueries.mem_unhiddenFks_iff.mpr
      ⟨⟨tcRec, htcRec, hstcname.symm⟩, hm.findFk_eq_some_iff.mpr ⟨row, hrow, rfl, rfl⟩⟩
  · rintro hwhole ⟨k, fkRec⟩ hfk
    obtain ⟨hunhidden, hhits⟩ := List.mem_filter.mp hfk
    obtain ⟨⟨tcRec, htcRec, hstcname⟩, hfind⟩ := SqlsvrDdlQueries.mem_unhiddenFks_iff.mp hunhidden
    obtain ⟨row, hrow, rfl, rfl⟩ := hm.findFk_eq_some_iff.mp hfind
    refine (freeOfRejected_fk_iff hq hrow).mpr ?_ (by simpa using hhits)
    intro hkept
    exact hwhole tcRec htcRec (hstcname ▸ hkept) row hrow hstcname.symm

/-- Behind a run no rejected column takes part in a constraint if and only if the records of the constraints
are rejected together. -/
theorem migrateDdlStnames_freeOfRejected_iff {st : MigrationState} (hq : q.Loaded conns)
    (h : m.migrateDdlStnames (some (HsqldbTableMigrator.factory prefs fuel)) q = .ok st) :
    (∀ statement ∈ st.statements, ∀ stname cname, m.Rejects prefs fuel q stname cname →
      ¬ TakesPart q stname cname statement) ↔ m.RejectsWhole prefs fuel q conns.flatten := by
  change (∀ statement ∈ st.statements, m.FreeOfRejected prefs fuel q statement) ↔ _
  rw [← q.hideAll_empty] at h
  obtain ⟨-, hstatements, hmigrates⟩ := migrateDdlStnames_eq_ok h
  simp only [Finset.empty_union] at hstatements
  rw [hstatements, List.forall_mem_append, List.forall_mem_flatMap,
    forall_mem_writtenFrom_iff (fun _ _ _ => id) (fun _ _ _ _ => id)]
  simp only [Finset.empty_union, freeOfRejected_cks_iff hq, freeOfRejected_fks_iff hq]
  constructor
  · rintro ⟨htables, hfks⟩
    constructor
    · intro stname cname hrejects
      obtain ⟨before, behind, hsplit⟩ := List.append_of_mem (mem_sortStnames_iff.mpr hrejects.1)
      cases htc : q.findTc stname with
      | none =>
          have hnone : m.rejectedCnames prefs fuel q stname = [] := rejectedCnames_of_findTc_eq_none htc
          have hcname := hrejects.2
          rw [hnone] at hcname
          cases hcname
      | some tcRecs =>
          have htable := (htables before stname behind hsplit (by simp [htc])).1
          exact (freeOfRejected_createTable_iff (hmigrates stname hrejects.1)).mp htable cname hrejects
    · intro before stname behind hsplit cname hvisible
      have hdefined : (q.findTc stname).isSome := by
        have hcname := SqlsvrDdlQueries.mem_cnames_of_mem_visibleCnames hvisible
        cases htc : q.findTc stname with
        | none => simp [htc] at hcname
        | some tcRecs => rfl
      exact (htables before stname behind hsplit hdefined).2.1 cname hvisible
    · exact hfks
  · intro hwhole
    refine ⟨?_, hwhole.fk⟩
    intro before stname behind hsplit hdefined
    have hstname : stname ∈ m.stnameUsedcols.keys := mem_sortStnames_iff.mp (by simp [hsplit])
    refine ⟨?_, hwhole.ck before stname behind hsplit, freeOfRejected_uqs before stname⟩
    exact (freeOfRejected_createTable_iff (hmigrates stname hstname)).mpr (hwhole.pk stname)

end SqlsvrDdlStnamesMigrator

/-- In a run over `dbo.t` with a key of `a` and `b` the rejected `a` takes part in no constraint. -/
theorem migrateDdlStnames_freeOfRejected_keyed :
    ∃ st, (usesTable dboT).migrateDdlStnames (some (HsqldbTableMigrator.factory intPrefs 0)) keyedT = .ok st ∧
      (usesTable dboT).Rejects intPrefs 0 keyedT dboT (.ofText "a".toList) ∧
      ∀ statement ∈ st.statements, ∀ stname cname, (usesTable dboT).Rejects intPrefs 0 keyedT stname cname →
        ¬ TakesPart keyedT stname cname statement := by
  refine ⟨_, rfl, ⟨by decide, by decide⟩, ?_⟩
  refine (SqlsvrDdlStnamesMigrator.migrateDdlStnames_freeOfRejected_iff keyedT_loaded rfl).mpr ?_
  constructor
  · rintro stname cname ⟨hstname, hcname⟩ -
    obtain rfl : stname = dboT := List.mem_singleton.mp hstname
    have ha : ∀ cname ∈ (usesTable dboT).rejectedCnames intPrefs 0 keyedT dboT,
        ∀ r ∈ (usesTable dboT).columnMigrations intPrefs 0 keyedT dboT, r.column.cname = cname → r.rejected = true := by
      decide
    exact ha cname hcname
  · intro before stname behind hsplit cname hvisible hkept ckRec hckRec
    cases hckRec
  · intro stname hstname tcRec htcRec hkept row hrow
    cases hrow

/-- The metadata of `dbo.t` with a check on `a` and `b`. -/
def checkedT : SqlsvrDdlQueries :=
  { keyedT with
    ckMapper := ⟨[(.ofStname dboT "a".toList, [{ constraintName := "ck".toList, checkClause := "a IS NULL OR b > 0".toList }]),
      (.ofStname dboT "b".toList, [{ constraintName := "ck".toList, checkClause := "a IS NULL OR b > 0".toList }])],
      by decide⟩ }

/-- The record under `a` is hidden with it, the one under `b` is not. -/
theorem migrateDdlStnames_checks_rejected :
    ∃ st, (usesTable dboT).migrateDdlStnames (some (HsqldbTableMigrator.factory intPrefs 0)) checkedT = .ok st ∧
      ∃ statement ∈ st.statements, ∃ stname cname, (usesTable dboT).Rejects intPrefs 0 checkedT stname cname ∧
        TakesPart checkedT stname cname statement := by
  refine ⟨_, rfl, .addCheck (.ofStname dboT "b".toList) "ck".toList "a IS NULL OR b > 0".toList, by decide, dboT,
    .ofText "a".toList, ⟨by decide, by decide⟩, by decide, ?_⟩
  exact ⟨{ constraintName := "ck".toList, checkClause := "a IS NULL OR b > 0".toList }, by decide, rfl⟩

end Middle.SqlsvrDdl
