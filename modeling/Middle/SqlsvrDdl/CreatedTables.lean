import Middle.Lib.Grouping
import Middle.SqlsvrDdl.Keys
import Middle.SqlsvrDdl.Validation

/-! Which tables and schemas a run for HSQLDB creates. Tables are written in the order of their full names,
in which no character is less than the dot behind the schema: so the tables of a schema follow one another,
and a schema that is created when it is another one than before is created once. -/

namespace Middle.SqlsvrDdl

open Lib Lib.Grouping Universals NormalDdl MiddleApp

/-! ### Names -/

theorem dot_le_of_normalTail {prevDot : Bool} {s : Text} (h : NormalTail prevDot s) : ∀ c ∈ s, '.' ≤ c := by
  induction s generalizing prevDot with
  | nil =>
      intro c hc
      cases hc
  | cons c s ih =>
      obtain ⟨-, hchar, htail⟩ := h
      rw [List.forall_mem_cons]
      refine ⟨?_, ih htail⟩
      rcases hchar with halnum | rfl | ⟨rfl, -⟩
      · simp only [Char.isAlphanum, Char.isAlpha, Char.isUpper, Char.isLower, Char.isDigit, Bool.or_eq_true,
          Bool.and_eq_true, decide_eq_true_eq, UInt32.le_iff_toNat_le, ge_iff_le] at halnum
        change ((65 ≤ c.toNat ∧ c.toNat ≤ 90) ∨ 97 ≤ c.toNat ∧ c.toNat ≤ 122) ∨ 48 ≤ c.toNat ∧ c.toNat ≤ 57
          at halnum
        rw [Char.le_def, UInt32.le_iff_toNat_le]
        show 46 ≤ c.toNat
        omega
      · decide
      · decide

theorem dot_le_of_normal {s : Text} (h : normalizeDdlName s = s) : ∀ c ∈ s, '.' ≤ c := by
  unfold normalizeDdlName at h
  split at h
  · cases hloop : normalizeFrom true s with
    | none =>
        rw [hloop] at h
        intro c hc
        rw [← h] at hc
        cases hc
    | some t =>
        rw [hloop] at h
        have hname : t = s := h
        exact dot_le_of_normalTail (hname ▸ normalTail_of_normalizeFrom hloop)
  · intro c hc
    rw [← h] at hc
    cases hc

theorem substr_findDot_eq_group (s : Text) : substr s 0 (findDot s) = group '.' s := by
  induction s with
  | nil => rfl
  | cons c s ih =>
      by_cases hdot : c = '.'
      · rw [hdot, group_cons_self]
        rfl
      · rw [group_cons_of_ne hdot, ← ih]
        unfold substr findDot
        rw [List.findIdx?_cons, if_neg (by simpa using hdot)]
        cases s.findIdx? (· = '.') with
        | none => rfl
        | some n => rfl

theorem schemaName_eq_group (stname : DdlStname) : stname.schemaName = group '.' stname.name :=
  substr_findDot_eq_group stname.name

/-- A name that is not empty starts with a letter, and so does its schema. -/
theorem schemaName_ne_nil {stname : DdlStname} (h : stname.name ≠ []) : stname.schemaName ≠ [] := by
  have hnormal := stname.normal
  rw [schemaName_eq_group]
  cases hname : stname.name with
  | nil => exact absurd hname h
  | cons c s =>
      rw [hname] at hnormal
      have hdot : c ≠ '.' := by
        rintro rfl
        cases hnormal
      rw [group_cons_of_ne hdot]
      exact List.cons_ne_nil _ _

/-! ### What is created -/

def createdTable : DdlStatement → Option DdlStname
  | .createTable stname _ => some stname
  | _ => none

def createdSchema : DdlStatement → Option Text
  | .createSchema schemaName => some schemaName
  | _ => none

/-- A statement about a table, its schema or one of its columns. -/
def BelongsTo (q : SqlsvrDdlQueries) (stname : DdlStname) : DdlStatement → Prop
  | .newline => False
  | .createSchema schemaName => schemaName = stname.schemaName
  | .createTable stname' _ => stname' = stname
  | .addUnique stname' _ _ => stname' = stname
  | .addCheck stcname _ _ => ∃ tcRec ∈ (q.findTc stname).getD [], tcRec.stcname stname = stcname
  | .addForeignKey stcname _ => ∃ tcRec ∈ (q.findTc stname).getD [], tcRec.stcname stname = stcname

/-- A statement that changes a table or separates statements. -/
def IsConstraint (q : SqlsvrDdlQueries) (stname : DdlStname) (statement : DdlStatement) : Prop :=
  statement = .newline ∨
    BelongsTo q stname statement ∧ createdTable statement = none ∧ createdSchema statement = none

theorem IsConstraint.creates_nothing {q : SqlsvrDdlQueries} {stname : DdlStname} {statement : DdlStatement}
    (h : IsConstraint q stname statement) : createdTable statement = none ∧ createdSchema statement = none := by
  rcases h with rfl | ⟨-, hcreates⟩
  · exact ⟨rfl, rfl⟩
  · exact hcreates

namespace SqlsvrDdlQueries

variable (q : SqlsvrDdlQueries) (K : Finset DdlStcname) (stname : DdlStname)

theorem isConstraint_migrateCkConstraintsDdl :
    ∀ statement ∈ (q.hideAll K).migrateCkConstraintsDdl stname, IsConstraint q stname statement := by
  rw [forall_mem_migrateCkConstraintsDdl_iff (.inl rfl)]
  intro cname hvisible hkept ckRec hckRec hunhidden
  obtain ⟨tcRec, htcRec, rfl⟩ := List.mem_map.mp (mem_cnames_of_mem_visibleCnames hvisible)
  exact .inr ⟨⟨tcRec, htcRec, rfl⟩, rfl, rfl⟩

theorem isConstraint_uqStatements :
    ∀ statement ∈ (q.hideAll K).uqStatements stname, IsConstraint q stname statement := by
  intro statement hstatement
  by_cases hnewline : statement = .newline
  · exact .inl hnewline
  · obtain ⟨name, -, rfl⟩ := (mem_uqStatements_iff _ _ hnewline).mp hstatement
    exact .inr ⟨rfl, rfl, rfl⟩

@[simp] theorem filterMap_createdTable_cks :
    ((q.hideAll K).migrateCkConstraintsDdl stname).filterMap createdTable = [] :=
  List.filterMap_eq_nil_iff.mpr fun statement hstatement =>
    (q.isConstraint_migrateCkConstraintsDdl K stname statement hstatement).creates_nothing.1

@[simp] theorem filterMap_createdSchema_cks :
    ((q.hideAll K).migrateCkConstraintsDdl stname).filterMap createdSchema = [] :=
  List.filterMap_eq_nil_iff.mpr fun statement hstatement =>
    (q.isConstraint_migrateCkConstraintsDdl K stname statement hstatement).creates_nothing.2

@[simp] theorem filterMap_createdTable_uqs :
    ((q.hideAll K).uqStatements stname).filterMap createdTable = [] :=
  List.filterMap_eq_nil_iff.mpr fun statement hstatement =>
    (q.isConstraint_uqStatements K stname statement hstatement).creates_nothing.1

@[simp] theorem filterMap_createdSchema_uqs :
    ((q.hideAll K).uqStatements stname).filterMap createdSchema = [] :=
  List.filterMap_eq_nil_iff.mpr fun statement hstatement =>
    (q.isConstraint_uqStatements K stname statement hstatement).creates_nothing.2

/-- A foreign key belongs to a table that is defined. -/
theorem isConstraint_migrateFkConstraintsDdl :
    ∀ statement ∈ (q.hideAll K).migrateFkConstraintsDdl stname, IsConstraint q stname statement := by
  rw [migrateFkConstraintsDdl, forall_mem_statementGroup (.inl rfl), List.forall_mem_map]
  intro fk hfk
  rw [unhiddenFks_hideAll, List.mem_filter] at hfk
  exact .inr ⟨(mem_unhiddenFks_iff.mp hfk.1).1, rfl, rfl⟩

end SqlsvrDdlQueries

namespace SqlsvrDdlStnamesMigrator

variable {m : SqlsvrDdlStnamesMigrator} {prefs : DdlTableMigratorPrefs} {fuel : Nat} {q : SqlsvrDdlQueries}

/-- The defined ones among tables. -/
def definedStnames (q : SqlsvrDdlQueries) (stnames : List DdlStname) : List DdlStname :=
  stnames.filter fun stname => (q.findTc stname).isSome

theorem definedStnames_cons (stname : DdlStname) (stnames : List DdlStname) :
    definedStnames q (stname :: stnames) =
      (if (q.findTc stname).isNone then [] else [stname]) ++ definedStnames q stnames := by
  unfold definedStnames
  rw [List.filter_cons]
  cases q.findTc stname with
  | none => rfl
  | some tcRecs => rfl

theorem mem_definedStnames_iff {stname : DdlStname} {stnames : List DdlStname} :
    stname ∈ definedStnames q stnames ↔ stname ∈ stnames ∧ (q.findTc stname).isSome := by
  unfold definedStnames
  rw [List.mem_filter]

theorem filterMap_createdTable_schemaDdl (lastSchemaName : Text) (stname : DdlStname) :
    (schemaDdl lastSchemaName stname).filterMap createdTable = [] := by
  unfold schemaDdl
  split
  · split
    · rfl
    · rfl
  · rfl

theorem filterMap_createdSchema_schemaDdl (lastSchemaName : Text) (stname : DdlStname) :
    (schemaDdl lastSchemaName stname).filterMap createdSchema =
      if lastSchemaName = [] ∨ stname.schemaName ≠ lastSchemaName then [stname.schemaName] else [] := by
  unfold schemaDdl
  split
  · split
    · rfl
    · rfl
  · rfl

/-- Each defined table is created in turn. -/
theorem filterMap_createdTable_writtenFrom (K : Finset DdlStcname) (lastSchemaName : Text)
    (stnames : List DdlStname) :
    (m.writtenFrom prefs fuel q K lastSchemaName stnames).filterMap createdTable = definedStnames q stnames := by
  induction stnames generalizing K lastSchemaName with
  | nil => rfl
  | cons stname stnames ih =>
      rw [writtenFrom, definedStnames_cons]
      split
      · rw [ih, List.nil_append]
      · simp only [List.filterMap_append, filterMap_createdTable_schemaDdl, ih,
          SqlsvrDdlQueries.filterMap_createdTable_cks, SqlsvrDdlQueries.filterMap_createdTable_uqs]
        rfl

/-- A schema is created where it is another one than before. -/
theorem filterMap_createdSchema_writtenFrom (K : Finset DdlStcname) {lastSchemaName : Text}
    (hlast : lastSchemaName ≠ []) {stnames : List DdlStname} (hne : ∀ stname ∈ stnames, stname.name ≠ []) :
    lastSchemaName :: (m.writtenFrom prefs fuel q K lastSchemaName stnames).filterMap createdSchema =
      ((definedStnames q stnames).map DdlStname.schemaName).destutter' (· ≠ ·) lastSchemaName := by
  induction stnames generalizing K lastSchemaName with
  | nil => rfl
  | cons stname stnames ih =>
      rw [List.forall_mem_cons] at hne
      rw [writtenFrom, definedStnames_cons]
      split
      · rw [ih _ hlast hne.2, List.nil_append]
      · have hschema := schemaName_ne_nil hne.1
        rw [List.singleton_append, List.map_cons, List.destutter'_cons]
        simp only [List.filterMap_append, filterMap_createdSchema_schemaDdl,
          SqlsvrDdlQueries.filterMap_createdSchema_cks, SqlsvrDdlQueries.filterMap_createdSchema_uqs, hlast,
          false_or]
        by_cases hsame : stname.schemaName = lastSchemaName
        · rw [if_neg (by simp [hsame]), if_neg (by simp [hsame]), hsame, ← ih _ hlast hne.2]
          rfl
        · rw [if_pos hsame, if_pos (Ne.symm hsame), ← ih _ hschema hne.2]
          rfl

theorem filterMap_createdSchema_writtenFrom_nil (K : Finset DdlStcname) {stnames : List DdlStname}
    (hne : ∀ stname ∈ stnames, stname.name ≠ []) :
    (m.writtenFrom prefs fuel q K [] stnames).filterMap createdSchema =
      ((definedStnames q stnames).map DdlStname.schemaName).destutter (· ≠ ·) := by
  induction stnames generalizing K with
  | nil => rfl
  | cons stname stnames ih =>
      rw [List.forall_mem_cons] at hne
      rw [writtenFrom, definedStnames_cons]
      split
      · rw [ih _ hne.2, List.nil_append]
      · have hschema := schemaName_ne_nil hne.1
        rw [List.singleton_append, List.map_cons, List.destutter_cons',
          ← filterMap_createdSchema_writtenFrom (K ∪ stcnamesOf stname (m.rejectedCnames prefs fuel q stname)) hschema
            hne.2]
        simp only [List.filterMap_append, filterMap_createdSchema_schemaDdl,
          SqlsvrDdlQueries.filterMap_createdSchema_cks, SqlsvrDdlQueries.filterMap_createdSchema_uqs, true_or,
          if_true]
        rfl

theorem belongsTo_of_mem_schemaDdl (q : SqlsvrDdlQueries) (lastSchemaName : Text) (stname : DdlStname) :
    ∀ statement ∈ schemaDdl lastSchemaName stname, statement = .newline ∨ BelongsTo q stname statement := by
  have hschema : ∀ statement ∈ [DdlStatement.createSchema stname.schemaName],
      statement = .newline ∨ BelongsTo q stname statement := by
    intro statement hstatement
    obtain rfl := List.mem_singleton.mp hstatement
    exact .inr rfl
  unfold schemaDdl
  split
  · split
    · exact hschema
    · exact List.forall_mem_cons.mpr ⟨.inl rfl, hschema⟩
  · exact List.forall_mem_nil _

/-- Every statement belongs to a defined table. -/
theorem belongsTo_writtenFrom (K : Finset DdlStcname) (lastSchemaName : Text) (stnames : List DdlStname) :
    ∀ statement ∈ m.writtenFrom prefs fuel q K lastSchemaName stnames,
      statement = .newline ∨ ∃ stname ∈ definedStnames q stnames, BelongsTo q stname statement := by
  induction stnames generalizing K lastSchemaName with
  | nil => exact List.forall_mem_nil _
  | cons stname stnames ih =>
      rw [writtenFrom, definedStnames_cons]
      split
      · exact ih _ _
      · have hself : ∀ statement, statement = .newline ∨ BelongsTo q stname statement →
            statement = .newline ∨
              ∃ stname' ∈ [stname] ++ definedStnames q stnames, BelongsTo q stname' statement := by
          rintro statement (hnewline | hbelongs)
          · exact .inl hnewline
          · exact .inr ⟨stname, List.mem_cons_self, hbelongs⟩
        have hconstraint : ∀ statement, IsConstraint q stname statement →
            statement = .newline ∨ BelongsTo q stname statement := by
          rintro statement (hnewline | ⟨hbelongs, -, -⟩)
          · exact .inl hnewline
          · exact .inr hbelongs
        rw [List.forall_mem_append, List.forall_mem_append, List.forall_mem_append, List.forall_mem_append,
          List.forall_mem_singleton]
        refine ⟨⟨⟨⟨?_, ?_⟩, ?_⟩, ?_⟩, ?_⟩
        · intro statement h
          exact hself _ (belongsTo_of_mem_schemaDdl q _ _ _ h)
        · exact hself (.createTable _ _) (.inr rfl)
        · intro statement h
          exact hself _ (hconstraint _ (q.isConstraint_migrateCkConstraintsDdl _ stname _ h))
        · intro statement h
          exact hself _ (hconstraint _ (q.isConstraint_uqStatements _ stname _ h))
        · intro statement h
          obtain hnewline | ⟨stname', hstname', hbelongs⟩ := ih _ _ statement h
          · exact .inl hnewline
          · exact .inr ⟨stname', List.mem_append_right _ hstname', hbelongs⟩

/-- A schema is created in front of its tables, unless it is the one of the table before. -/
theorem sublist_writtenFrom (K : Finset DdlStcname) (lastSchemaName : Text) {stnames : List DdlStname}
    {stname : DdlStname} (h : stname ∈ definedStnames q stnames) :
    ∃ chunks, [DdlStatement.createSchema stname.schemaName, .createTable stname chunks].Sublist
      ((if lastSchemaName = [] then [] else [.createSchema lastSchemaName]) ++
        m.writtenFrom prefs fuel q K lastSchemaName stnames) := by
  induction stnames generalizing K lastSchemaName with
  | nil => cases h
  | cons stname' stnames ih =>
      rw [definedStnames_cons] at h
      rw [writtenFrom]
      by_cases hundefined : (q.findTc stname').isNone
      · rw [if_pos hundefined] at h
        rw [if_pos hundefined]
        exact ih _ _ h
      · -- the schema of this table has been created, now or for the table before
        have hschema : [DdlStatement.createSchema stname'.schemaName].Sublist
            ((if lastSchemaName = [] then [] else [.createSchema lastSchemaName]) ++
              schemaDdl lastSchemaName stname') := by
          rw [List.singleton_sublist]
          unfold schemaDdl
          by_cases hlast : lastSchemaName = [] ∨ stname'.schemaName ≠ lastSchemaName
          · rw [if_pos hlast]
            exact List.mem_append_right _ (List.mem_append_right _ List.mem_cons_self)
          · rw [not_or, not_not] at hlast
            rw [if_neg hlast.1, hlast.2]
            exact List.mem_append_left _ List.mem_cons_self
        rw [if_neg hundefined, List.singleton_append, List.mem_cons] at h
        rw [if_neg hundefined]
        simp only [List.append_assoc]
        rw [← List.append_assoc]
        rcases h with rfl | h
        · refine ⟨m.tableChunks prefs fuel q stname, hschema.append ?_⟩
          rw [List.singleton_append]
          exact (List.nil_sublist _).cons_cons _
        · obtain ⟨chunks, hsublist⟩ := ih (K ∪ stcnamesOf stname' (m.rejectedCnames prefs fuel q stname'))
            stname'.schemaName h
          refine ⟨chunks, hsublist.trans (List.Sublist.append ?_ ?_)⟩
          · split
            · exact List.nil_sublist _
            · exact hschema
          · rw [List.singleton_append, ← List.append_assoc, ← List.cons_append]
            exact List.sublist_append_right _ _

/-! ### A run -/

theorem pairwise_sortStnames (m : SqlsvrDdlStnamesMigrator) :
    m.sortStnames.Pairwise fun a b => a.name < b.name := by
  have hle : m.sortStnames.Pairwise fun a b => a.name ≤ b.name := List.pairwise_insertionSort _ _
  have hnodup : m.sortStnames.Nodup := (List.perm_insertionSort _ _).nodup_iff.mpr m.stnameUsedcols.nodup
  refine (hle.and hnodup).imp ?_
  rintro a b ⟨hab, hne⟩
  exact lt_of_le_of_ne hab fun hname => hne (DdlStname.ext hname)

/-- The message about one undefined table. -/
theorem filter_undefinedMsgs {stnames : List DdlStname} (hnodup : stnames.Nodup) {stname : DdlStname}
    (hmem : stname ∈ stnames) (hundefined : q.findTc stname = none) :
    (undefinedMsgs q stnames).filter (fun msg => msg.stname = stname) = [tableUndefinedMsg stname] := by
  have hone : stnames.filter (fun stname' => stname' = stname && (q.findTc stname').isNone) = [stname] := by
    calc
      stnames.filter (fun stname' => stname' = stname && (q.findTc stname').isNone) =
          stnames.filter (fun stname' => stname' = stname) := by
        apply List.filter_congr
        intro stname' _
        by_cases hsame : stname' = stname
        · simp [hsame, hundefined]
        · simp [hsame]
      _ = [stname] := by
        rw [List.filter_eq, List.count_eq_one_of_mem hnodup hmem]
        rfl
  unfold undefinedMsgs
  rw [List.filter_map, List.filter_filter]
  change List.map _ (stnames.filter fun stname' => stname' = stname && (q.findTc stname').isNone) = _
  rw [hone, List.map_singleton]

theorem pairwise_definedStnames (m : SqlsvrDdlStnamesMigrator) (q : SqlsvrDdlQueries) :
    (definedStnames q m.sortStnames).Pairwise fun a b => a.name < b.name := (pairwise_sortStnames m).filter _

/-- What stands behind the tables are constraints of defined tables. -/
theorem isConstraint_of_mem_fks {K : Finset DdlStcname} {statement : DdlStatement}
    (h : statement ∈ m.stnameUsedcols.keys.flatMap (q.hideAll K).migrateFkConstraintsDdl) :
    ∃ stname ∈ m.stnameUsedcols.keys, (q.findTc stname).isSome ∧ IsConstraint q stname statement := by
  obtain ⟨stname, hstname, hstatement⟩ := List.mem_flatMap.mp h
  refine ⟨stname, hstname, ?_, q.isConstraint_migrateFkConstraintsDdl _ stname statement hstatement⟩
  by_contra hundefined
  rw [Option.not_isSome_iff_eq_none] at hundefined
  have hnone : (q.hideAll K).findTc stname = none := by
    rw [q.findTc_hideAll, hundefined, Option.map_none]
  rw [SqlsvrDdlQueries.migrateFkConstraintsDdl, unhiddenFks_of_findTc_eq_none hnone] at hstatement
  cases hstatement

theorem filterMap_fks (m : SqlsvrDdlStnamesMigrator) (q : SqlsvrDdlQueries) (K : Finset DdlStcname) :
    (m.stnameUsedcols.keys.flatMap (q.hideAll K).migrateFkConstraintsDdl).filterMap createdTable = [] ∧
      (m.stnameUsedcols.keys.flatMap (q.hideAll K).migrateFkConstraintsDdl).filterMap createdSchema = [] := by
  constructor
  · refine List.filterMap_eq_nil_iff.mpr fun statement hstatement => ?_
    obtain ⟨stname, -, -, hconstraint⟩ := isConstraint_of_mem_fks hstatement
    exact hconstraint.creates_nothing.1
  · refine List.filterMap_eq_nil_iff.mpr fun statement hstatement => ?_
    obtain ⟨stname, -, -, hconstraint⟩ := isConstraint_of_mem_fks hstatement
    exact hconstraint.creates_nothing.2

/-- The tables that a run creates. -/
theorem filterMap_createdTable_of_migrateDdlStnames {K : Finset DdlStcname} {st : MigrationState}
    (h : m.migrateDdlStnames (some (HsqldbTableMigrator.factory prefs fuel)) (q.hideAll K) = .ok st) :
    st.statements.filterMap createdTable = definedStnames q m.sortStnames := by
  obtain ⟨-, hstatements, -⟩ := migrateDdlStnames_eq_ok h
  rw [hstatements, List.filterMap_append, filterMap_createdTable_writtenFrom, (filterMap_fks m q _).1,
    List.append_nil]

/-- The schemas that it creates: those of the tables, which stand together by schema. -/
theorem filterMap_createdSchema_of_migrateDdlStnames {K : Finset DdlStcname} {st : MigrationState}
    (hne : ∀ stname ∈ m.stnameUsedcols.keys, stname.name ≠ [])
    (h : m.migrateDdlStnames (some (HsqldbTableMigrator.factory prefs fuel)) (q.hideAll K) = .ok st) :
    st.statements.filterMap createdSchema =
      ((definedStnames q m.sortStnames).map DdlStname.schemaName).dedup := by
  obtain ⟨-, hstatements, -⟩ := migrateDdlStnames_eq_ok h
  have hnames : ∀ stname ∈ m.sortStnames, stname.name ≠ [] :=
    fun stname hstname => hne stname (mem_sortStnames_iff.mp hstname)
  have hsep : ∀ s ∈ (definedStnames q m.sortStnames).map DdlStname.name, ∀ c ∈ s, '.' ≤ c := by
    rw [List.forall_mem_map]
    exact fun stname _ => dot_le_of_normal stname.normal
  have hgroups : (definedStnames q m.sortStnames).map DdlStname.schemaName =
      ((definedStnames q m.sortStnames).map DdlStname.name).map (group '.') := by
    rw [List.map_map]
    exact List.map_congr_left fun stname _ => schemaName_eq_group stname
  have hle : ((definedStnames q m.sortStnames).map DdlStname.name).Pairwise (· ≤ ·) := by
    rw [List.pairwise_map]
    exact (pairwise_definedStnames m q).imp fun hlt => hlt.le
  rw [hstatements, List.filterMap_append, filterMap_createdSchema_writtenFrom_nil _ hnames,
    (filterMap_fks m q _).2, List.append_nil, hgroups]
  exact destutter_groups hle hsep

/-- Each defined table is written once and in order, and each undefined one reported once. Each schema of a
defined table is created once and in front of its tables. -/
theorem migrateDdlStnames_createdTables {st : MigrationState}
    (hne : ∀ stname ∈ m.stnameUsedcols.keys, stname.name ≠ [])
    (h : m.migrateDdlStnames (some (HsqldbTableMigrator.factory prefs fuel)) q = .ok st) :
    ((st.statements.filterMap createdTable).Pairwise (fun a b => a.name < b.name) ∧
      ∀ stname, stname ∈ st.statements.filterMap createdTable ↔
        stname ∈ m.stnameUsedcols.keys ∧ (q.findTc stname).isSome) ∧
    (∀ stname ∈ m.stnameUsedcols.keys, q.findTc stname = none →
      st.stnamesMigrationMsgs.filter (fun msg => msg.stname = stname && isTableUndefined msg) =
        [tableUndefinedMsg stname]) ∧
    (∀ statement ∈ st.statements, statement = .newline ∨
      ∃ stname ∈ m.stnameUsedcols.keys, (q.findTc stname).isSome ∧ BelongsTo q stname statement) ∧
    (st.statements.filterMap createdSchema).Nodup ∧
    (∀ schemaName, schemaName ∈ st.statements.filterMap createdSchema ↔
      ∃ stname ∈ m.stnameUsedcols.keys, (q.findTc stname).isSome ∧ stname.schemaName = schemaName) ∧
    ∀ stname ∈ m.stnameUsedcols.keys, (q.findTc stname).isSome →
      ∃ chunks, [DdlStatement.createSchema stname.schemaName, .createTable stname chunks].Sublist st.statements := by
  have hmsgs := (tableMsgs_migrateDdlStnames h).1
  rw [← q.hideAll_empty] at h
  obtain ⟨-, hstatements, -⟩ := migrateDdlStnames_eq_ok h
  have hmem : ∀ stname, stname ∈ definedStnames q m.sortStnames ↔
      stname ∈ m.stnameUsedcols.keys ∧ (q.findTc stname).isSome := by
    intro stname
    rw [mem_definedStnames_iff, mem_sortStnames_iff]
  have htables := filterMap_createdTable_of_migrateDdlStnames h
  have hschemas := filterMap_createdSchema_of_migrateDdlStnames hne h
  refine ⟨⟨?_, ?_⟩, ?_, ?_, ?_, ?_, ?_⟩
  · rw [htables]
    exact pairwise_definedStnames m q
  · intro stname
    rw [htables, hmem]
  · intro stname hstname hundefined
    have hnodup : m.sortStnames.Nodup := (List.perm_insertionSort _ _).nodup_iff.mpr m.stnameUsedcols.nodup
    rw [← List.filter_filter, hmsgs]
    exact filter_undefinedMsgs hnodup (mem_sortStnames_iff.mpr hstname) hundefined
  · rw [hstatements, List.forall_mem_append]
    constructor
    · intro statement hstatement
      obtain hnewline | ⟨stname, hstname, hbelongs⟩ := belongsTo_writtenFrom _ _ _ statement hstatement
      · exact .inl hnewline
      · exact .inr ⟨stname, ((hmem stname).mp hstname).1, ((hmem stname).mp hstname).2, hbelongs⟩
    · intro statement hstatement
      obtain ⟨stname, hstname, hdefined, hnewline | ⟨hbelongs, -⟩⟩ := isConstraint_of_mem_fks hstatement
      · exact .inl hnewline
      · exact .inr ⟨stname, hstname, hdefined, hbelongs⟩
  · rw [hschemas]
    exact List.nodup_dedup _
  · intro schemaName
    rw [hschemas, List.mem_dedup, List.mem_map]
    simp only [hmem, and_assoc]
  · intro stname hstname hdefined
    rw [hstatements]
    obtain ⟨chunks, hsublist⟩ := sublist_writtenFrom ∅ [] ((hmem stname).mpr ⟨hstname, hdefined⟩)
    exact ⟨chunks, hsublist.trans (List.sublist_append_left _ _)⟩

end SqlsvrDdlStnamesMigrator

/-- A source file that uses the tables `dbo.t`, `app.u`, `dbo.r` and `dbo_x.t`. -/
def usesFour : SqlsvrDdlStnamesMigrator where
  stnameUsedcols := ⟨[(dboT, ∅), (.make "app".toList "u".toList, ∅), (dboR, ∅),
    (.make "dbo_x".toList "t".toList, ∅)], by decide⟩
  haveUsedcols := false
  assumedIdents := ∅

/-- Metadata of two schemas. -/
def twoSchemas : SqlsvrDdlQueries where
  ckMapper := ∅
  fkMapper := .empty
  pkMapper := ∅
  uqMapper := ∅
  tcMapper := ⟨[(.make "dbo_x".toList "t".toList, [plainTcRec "a" "int"]), (dboT, [plainTcRec "a" "int"]),
    (dboR, [plainTcRec "a" "xml"])], by decide⟩

theorem migrateDdlStnames_createdTables_four :
    ∃ st, usesFour.migrateDdlStnames (some (HsqldbTableMigrator.factory intPrefs 0)) twoSchemas = .ok st ∧
      st.statements.filterMap createdTable = [dboR, dboT, .make "dbo_x".toList "t".toList] ∧
      st.statements.filterMap createdSchema = ["dbo".toList, "dbo_x".toList] ∧
      (st.statements.filterMap createdSchema).Nodup := by
  obtain ⟨st, hrun, htables, hschemas⟩ : ∃ st, usesFour.migrateDdlStnames
      (some (HsqldbTableMigrator.factory intPrefs 0)) twoSchemas = .ok st ∧
      st.statements.filterMap createdTable = [dboR, dboT, .make "dbo_x".toList "t".toList] ∧
      st.statements.filterMap createdSchema = ["dbo".toList, "dbo_x".toList] := ⟨_, rfl, rfl, rfl⟩
  obtain ⟨-, -, -, hnodup, -⟩ := SqlsvrDdlStnamesMigrator.migrateDdlStnames_createdTables (by decide) hrun
  exact ⟨st, hrun, htables, hschemas, hnodup⟩

end Middle.SqlsvrDdl
