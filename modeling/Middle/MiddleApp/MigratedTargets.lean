import Middle.MiddleApp.BatchMigrator
import Middle.MiddleApp.NarrowedTargets
import Middle.NormalDdl.WrittenSizes
import Middle.SqlsvrDdl.AcceptedTables

/-! From the rows of the data sources to the statements of the targets. A target creates the tables that its dataset
names and the rows define, each with the columns whose data types the rules accept. What was migrated before makes no
difference to this. -/

namespace Middle.MiddleApp

open Lib Universals NormalDdl SqlsvrDdl

/-- The dataset has an element for the table. -/
def NamesTable (children : List DomNode) (stname : DdlStname) : Prop :=
  ∃ tableName attributes, .element tableName attributes ∈ children ∧
    DdlStname.parse tableName getDefaultSchemaName = stname

/-- A statement is drawn from the rows of the data sources: from accepted columns of tables that the dataset names,
and from the rows of their keys and constraints. -/
def Drawn (prefs : DdlTableMigratorPrefs) (conns : List Connection) (children : List DomNode) :
    DdlStatement → Prop
  | .newline => True
  | .createSchema _ => True
  | .createTable stname chunks =>
      NamesTable children stname ∧
        List.Forall₂ (fun row written => written.1 = row.tcRec.cname ∧ WritesColumn prefs row.tcRec.column written.2)
          (acceptedRows prefs (conns.map Connection.tcRows).flatten stname) (chunks.filterMap writtenColumn) ∧
        ∀ cname, cname ∈ keyOf chunks ↔ Accepted prefs (conns.map Connection.tcRows).flatten stname cname ∧
          ∃ row ∈ (conns.map Connection.pkRows).flatten, row.stcname = .ofStname stname cname.name
  | .addCheck stcname constraintName checkClause =>
      ∃ stname cname, NamesTable children stname ∧
        Accepted prefs (conns.map Connection.tcRows).flatten stname cname ∧ .ofStname stname cname.name = stcname ∧
        ∃ row ∈ (conns.map Connection.ckRows).flatten, ckQuery.stcname row = stcname ∧
          row.constraintName = constraintName ∧ row.checkClause = checkClause
  | .addUnique stname cnames constraintName =>
      NamesTable children stname ∧ cnames ≠ [] ∧
        ∀ cname ∈ cnames, Accepted prefs (conns.map Connection.tcRows).flatten stname cname ∧
          ∃ row ∈ (conns.map Connection.uqRows).flatten, uqQuery.stcname row = .ofStname stname cname.name ∧
            row.constraintName = constraintName
  | .addForeignKey stcname refStcname =>
      ∃ stname cname, NamesTable children stname ∧
        Accepted prefs (conns.map Connection.tcRows).flatten stname cname ∧ .ofStname stname cname.name = stcname ∧
        ∃ row ∈ (conns.map Connection.fkRows).flatten, row.stcname = stcname ∧ row.refStcname = refStcname

/-- The dataset names the table, and a row of the data sources defines a column of it. -/
def Defined (conns : List Connection) (children : List DomNode) (stname : DdlStname) : Prop :=
  NamesTable children stname ∧ ∃ row ∈ (conns.map Connection.tcRows).flatten, row.stname = stname

/-- The statements of a target: each table that is defined is created once, in the order of the names, and each schema
of these once and in front of its tables. -/
structure Describes (prefs : DdlTableMigratorPrefs) (conns : List Connection) (children : List DomNode)
    (statements : List DdlStatement) : Prop where
  drawn : ∀ statement ∈ statements, Drawn prefs conns children statement
  sorted : (statements.filterMap createdTable).Pairwise fun stname stname' => stname.name < stname'.name
  table : ∀ stname, stname ∈ statements.filterMap createdTable ↔ Defined conns children stname
  schemaOnce : (statements.filterMap createdSchema).Nodup
  schema : ∀ schemaName, schemaName ∈ statements.filterMap createdSchema ↔
    ∃ stname, Defined conns children stname ∧ stname.schemaName = schemaName
  schemaFirst : ∀ stname, Defined conns children stname →
    ∃ chunks, [.createSchema stname.schemaName, .createTable stname chunks].Sublist statements

section Files

variable {prefs : DdlTableMigratorPrefs} {fuel : Nat} {q : SqlsvrDdlQueries} {conns : List Connection}
  {m : SqlsvrDdlStnamesMigrator} {children : List DomNode}

theorem mem_keys_iff_isSome {m : SqlsvrDdlStnamesMigrator} {stname : DdlStname} :
    stname ∈ m.stnameUsedcols.keys ↔ (m.stnameUsedcols.find stname).isSome := by
  rw [Option.isSome_iff_ne_none, ne_eq, UnorderedMap.find_eq_none_iff, not_not]

/-- The tables that a run over the dataset creates. -/
theorem mem_definedStnames_iff_defined (hq : q.HoldsAll conns)
    (htables : ∀ stname, stname ∈ m.stnameUsedcols.keys ↔ NamesTable children stname) (stname : DdlStname) :
    stname ∈ SqlsvrDdlStnamesMigrator.definedStnames q m.sortStnames ↔ Defined conns children stname := by
  rw [SqlsvrDdlStnamesMigrator.mem_definedStnames_iff, SqlsvrDdlStnamesMigrator.mem_sortStnames_iff, htables]
  refine and_congr_right fun _ => ?_
  have hrows := hq.getD_findTc stname
  constructor
  · intro hdefined
    obtain ⟨tcRecs, hfind⟩ := Option.isSome_iff_exists.mp hdefined
    obtain ⟨tcRec, htcRec⟩ := List.exists_mem_of_ne_nil tcRecs ((hq.tc stname tcRecs).mp hfind).1
    rw [hfind, Option.getD_some] at hrows
    rw [hrows] at htcRec
    obtain ⟨row, hfiltered, -⟩ := List.mem_map.mp htcRec
    obtain ⟨hrow, hstname⟩ := List.mem_filter.mp hfiltered
    exact ⟨row, hrow, of_decide_eq_true hstname⟩
  · rintro ⟨row, hrow, rfl⟩
    have hmem : row.tcRec ∈ (q.findTc row.stname).getD [] := by
      rw [hrows]
      exact List.mem_map_of_mem (List.mem_filter.mpr ⟨hrow, by simp⟩)
    cases hfind : q.findTc row.stname with
    | none =>
        rw [hfind] at hmem
        cases hmem
    | some tcRecs => rfl

/-- All that a run writes is drawn from the rows, whatever was rejected before it. -/
theorem drawn_of_migrateDdlStnames {K : Finset DdlStcname} {st : MigrationState} (hq : q.HoldsAll conns)
    (htables : ∀ stname, stname ∈ m.stnameUsedcols.keys ↔ NamesTable children stname)
    (h : m.migrateDdlStnames (some (HsqldbTableMigrator.factory prefs fuel)) (q.hideAll K) = .ok st) :
    ∀ statement ∈ st.statements, Drawn prefs conns children statement := by
  obtain ⟨-, hstatements, hmigrates⟩ := SqlsvrDdlStnamesMigrator.migrateDdlStnames_eq_ok h
  rw [hstatements, List.forall_mem_append]
  constructor
  · rw [SqlsvrDdlStnamesMigrator.forall_mem_writtenFrom_iff trivial fun _ => trivial]
    intro before stname behind hsplit hdefined
    have hstname : stname ∈ m.stnameUsedcols.keys :=
      SqlsvrDdlStnamesMigrator.mem_sortStnames_iff.mp (hsplit ▸ by simp)
    have hmigrated := hmigrates stname hstname
    have hnamed := (htables stname).mp hstname
    have haccepted : ∀ cname ∈ (q.hideAll (K ∪ m.rejectedIn prefs fuel q (before ++ [stname]))).visibleCnames stname,
        .ofStname stname cname.name ∉ K ∪ m.rejectedIn prefs fuel q (before ++ [stname]) →
          Accepted prefs (conns.map Connection.tcRows).flatten stname cname := fun cname hvisible hkept =>
      accepted_of_kept hq hmigrated (by simp)
        (SqlsvrDdlQueries.mem_cnames_of_mem_visibleCnames hvisible) hkept
    refine ⟨⟨hnamed, ?_, fun cname => mem_keyOf_iff hq hmigrated⟩, ?_, ?_⟩
    · have hwritten := SqlsvrDdlStnamesMigrator.writtenColumns_tableChunks hmigrated
      rw [acceptedColumns_of_holdsAll hq] at hwritten
      exact List.forall₂_map_left_iff.mp hwritten
    · rw [SqlsvrDdlQueries.forall_mem_migrateCkConstraintsDdl_iff trivial]
      intro cname hvisible hkept ckRec hckRec _
      obtain ⟨row, hrow, hk, rfl⟩ := hq.of_mem_findCk hckRec
      exact ⟨stname, cname, hnamed, haccepted cname hvisible hkept, rfl, row, hrow, hk, rfl, rfl⟩
    · intro statement hstatement
      by_cases hnewline : statement = .newline
      · rw [hnewline]
        trivial
      · obtain ⟨name, hne, rfl⟩ := (SqlsvrDdlQueries.mem_uqStatements_iff _ _ hnewline).mp hstatement
        refine ⟨hnamed, hne, fun cname hcname => ?_⟩
        rw [SqlsvrDdlQueries.mem_uqCnames_iff, SqlsvrDdlQueries.mem_visibleUqs_hideAll_iff] at hcname
        obtain ⟨hvisible, hkept, uqRec, huqRec, -, rfl⟩ := hcname
        obtain ⟨row, hrow, hk, rfl⟩ := hq.of_mem_findUq huqRec
        exact ⟨haccepted cname hvisible hkept, row, hrow, hk, rfl⟩
  · rw [List.forall_mem_flatMap]
    intro stname hstname
    rw [SqlsvrDdlQueries.migrateFkConstraintsDdl, forall_mem_statementGroup trivial, List.forall_mem_map]
    rintro ⟨k, fkRec⟩ hfk
    rw [SqlsvrDdlQueries.unhiddenFks_hideAll, List.mem_filter] at hfk
    obtain ⟨hfk, hhits⟩ := hfk
    obtain ⟨⟨tcRec, htcRec, rfl⟩, hfind⟩ := SqlsvrDdlQueries.mem_unhiddenFks_iff.mp hfk
    obtain ⟨row, hrow, hk, rfl⟩ := hq.fk.findFk_eq_some_iff.mp hfind
    have hkept : tcRec.stcname stname ∉ K ∪ m.rejectedIn prefs fuel q m.sortStnames :=
      fun hrejected => of_decide_eq_true hhits (.inl hrejected)
    exact ⟨stname, tcRec.cname, (htables stname).mp hstname,
      accepted_of_kept hq (hmigrates stname hstname) (SqlsvrDdlStnamesMigrator.mem_sortStnames_iff.mpr hstname)
        (List.mem_map_of_mem htcRec) hkept, rfl, row, hrow, hk, rfl⟩

/-- A run over a dataset, whatever was rejected before it. -/
theorem describes_of_migrateDdlStnames {K : Finset DdlStcname} {st : MigrationState} (hq : q.HoldsAll conns)
    (htables : ∀ stname, stname ∈ m.stnameUsedcols.keys ↔ NamesTable children stname)
    (hnamed : ∀ stname, NamesTable children stname → stname.name ≠ [])
    (h : m.migrateDdlStnames (some (HsqldbTableMigrator.factory prefs fuel)) (q.hideAll K) = .ok st) :
    Describes prefs conns children st.statements := by
  have hmem := mem_definedStnames_iff_defined hq htables
  have hcreated := SqlsvrDdlStnamesMigrator.filterMap_createdTable_of_migrateDdlStnames h
  have hschemas := SqlsvrDdlStnamesMigrator.filterMap_createdSchema_of_migrateDdlStnames
    (fun stname hstname => hnamed stname ((htables stname).mp hstname)) h
  obtain ⟨-, hstatements, -⟩ := SqlsvrDdlStnamesMigrator.migrateDdlStnames_eq_ok h
  refine ⟨drawn_of_migrateDdlStnames hq htables h, ?_, ?_, ?_, ?_, ?_⟩
  · rw [hcreated]
    exact SqlsvrDdlStnamesMigrator.pairwise_definedStnames m q
  · intro stname
    rw [hcreated, hmem]
  · rw [hschemas]
    exact List.nodup_dedup _
  · intro schemaName
    rw [hschemas, List.mem_dedup, List.mem_map]
    simp only [hmem]
  · intro stname hdefined
    obtain ⟨chunks, hsublist⟩ := @SqlsvrDdlStnamesMigrator.sublist_writtenFrom m prefs fuel q K [] _ _
      ((hmem stname).mpr hdefined)
    rw [hstatements]
    exact ⟨chunks, hsublist.trans (List.sublist_append_left _ _)⟩

/-- The targets of a mass migration are those of its files with columns rejected beforehand. -/
theorem forall₂_massMigrateTargetDdl {files : List SqlsvrDdlStnamesMigrator} {targets : List (Option TargetDdl)}
    {L : Finset DdlStcname} {q' : SqlsvrDdlQueries}
    (h : massMigrateDdl (HsqldbTableMigrator.factory prefs fuel) files (q.hideAll L) = .ok (targets, q')) :
    List.Forall₂ (fun m target => ∃ K behind,
      massMigrateTargetDdl (HsqldbTableMigrator.factory prefs fuel) m (q.hideAll K) = .ok (target, behind))
        files targets := by
  induction files generalizing L targets with
  | nil =>
      cases h
      exact .nil
  | cons m files ih =>
      rw [massMigrateDdl, bind_eq_ok] at h
      obtain ⟨⟨target, q₁⟩, htarget, h⟩ := h
      rw [bind_eq_ok] at h
      obtain ⟨⟨targets, q₂⟩, hrest, h⟩ := h
      cases h
      have hq₁ := queries_of_massMigrateTargetDdl htarget
      rw [SqlsvrDdlQueries.hideAll_hideAll] at hq₁
      subst hq₁
      exact .cons ⟨L, _, htarget⟩ (ih hrest)

/-- Each target of a mass migration creates the tables that its dataset names and the data sources define, each with the
columns whose data types the rules accept. All that is in it is drawn from the rows of the data sources. -/
theorem massMigrateDdl_describes {connect : SqlsvrDdlOdbcDataSource → Except Text Connection}
    {dataSources : List SqlsvrDdlOdbcDataSource} {parse : XercesDomParser} {filepaths : List Text}
    {files : List SqlsvrDdlStnamesMigrator} {targets : List (Option TargetDdl)} {q' : SqlsvrDdlQueries}
    (hmake : SqlsvrDdlQueries.make connect dataSources = .ok (.ok q))
    (hread : List.Forall₂ (fun filepath m => readSource parse filepath = .ok (some m) ∧ m.stnameUsedcols.keys ≠ [])
      filepaths files)
    (hrun : massMigrateDdl (HsqldbTableMigrator.factory prefs fuel) files q = .ok (targets, q')) :
    ∃ conns : List Connection, dataSources.map connect = conns.map Except.ok ∧
      List.Forall₂ (fun filepath target => ∃ children ddl,
        parse filepath = .ok (some ⟨some ⟨"dataset".toList, children⟩⟩) ∧ target = some ddl ∧
          Describes prefs conns children ddl.statements)
        filepaths targets := by
  obtain ⟨conns, hconns, hload⟩ := SqlsvrDdlQueries.loadMappers_of_make hmake
  have hq := ((SqlsvrDdlQueries.loadMappers_eq_ok hload).2 rfl).1
  refine ⟨conns, hconns, ?_⟩
  rw [← q.hideAll_empty] at hrun
  have htargets := forall₂_massMigrateTargetDdl hrun
  clear hrun
  induction hread generalizing targets with
  | nil =>
      cases htargets
      exact .nil
  | cons hfile _ ih =>
      obtain - | ⟨⟨K, behind, htarget⟩, htargets⟩ := htargets
      refine .cons ?_ (ih htargets)
      obtain ⟨hfile, hkeys⟩ := hfile
      obtain hskip | ⟨children, names, hparse, hreadable, hholds, hnames⟩ := readSource_cases parse _
      · rw [hskip] at hfile
        cases hfile
      · rw [hnames] at hfile
        cases hfile
        have htables : ∀ stname, stname ∈ names.stnameUsedcols.keys ↔ NamesTable children stname :=
          fun stname => mem_keys_iff_isSome (m := ⟨names.stnameUsedcols, true, names.assumedIdents⟩).trans
            (hholds.table stname)
        have hnamed : ∀ stname, NamesTable children stname → stname.name ≠ [] := by
          rintro stname ⟨tableName, attributes, hnode, rfl⟩ hnil
          exact hreadable _ hnode _ ⟨hnil, rfl⟩
        unfold massMigrateTargetDdl at htarget
        rw [if_neg hkeys, bind_eq_ok] at htarget
        obtain ⟨st, hst, htarget⟩ := htarget
        cases htarget
        exact ⟨children, _, hparse, rfl, describes_of_migrateDdlStnames hq htables hnamed hst⟩

end Files

end Middle.MiddleApp
