import Middle.NormalDdl.ColumnLines
import Middle.NormalDdl.NameParts
import Middle.SqlsvrDdl.IterationOrder

/-! What a run for HSQLDB writes for a table all of whose columns are rejected: its definition as a comment, and none
of its constraints. The constraints are written for full column names, from which the table is read back. -/

namespace Middle.SqlsvrDdl

open Lib Lib.Lines Universals NormalDdl MiddleApp

/-! ### The table of a full column name -/

theorem normalTail_of_normal {s : Text} (h : normalizeDdlName s = s) : NormalTail true s := by
  unfold normalizeDdlName at h
  split at h
  · cases hloop : normalizeFrom true s with
    | none =>
        rw [hloop] at h
        rw [← h]
        exact trivial
    | some t =>
        rw [hloop] at h
        have hname : t = s := h
        exact hname ▸ normalTail_of_normalizeFrom hloop
  · rw [← h]
    exact trivial

theorem head_isAlpha_of_normal {s : Text} (h : normalizeDdlName s = s) (hne : s ≠ []) :
    s.head?.any Char.isAlpha := by
  by_contra hhead
  unfold normalizeDdlName at h
  rw [if_neg hhead] at h
  exact hne h.symm

theorem normalTail_of_append {prevDot : Bool} {s t : Text} (h : NormalTail prevDot (s ++ t)) :
    NormalTail prevDot s := by
  induction s generalizing prevDot with
  | nil => exact trivial
  | cons c s ih =>
      obtain ⟨hupper, hchar, htail⟩ := h
      exact ⟨hupper, hchar, ih htail⟩

theorem isUpper_of_normalTail {prevDot : Bool} {s : Text} (h : NormalTail prevDot s) :
    ∀ c ∈ s, c.isUpper = false := by
  induction s generalizing prevDot with
  | nil => exact List.forall_mem_nil _
  | cons c s ih =>
      obtain ⟨hupper, -, htail⟩ := h
      exact List.forall_mem_cons.mpr ⟨hupper, ih htail⟩

/-- Without capitals the loop puts out what it reads. -/
theorem normalizeFrom_eq_some {prevDot : Bool} {s t : Text} (hupper : ∀ c ∈ s, c.isUpper = false)
    (h : normalizeFrom prevDot s = some t) : t = s := by
  induction s generalizing prevDot t with
  | nil => exact (Option.some.inj h).symm
  | cons c s ih =>
      obtain ⟨hc, hs⟩ := List.forall_mem_cons.mp hupper
      unfold normalizeFrom at h
      rw [if_neg (by simp [hc])] at h
      split at h
      · cases h
      · obtain ⟨t, ht, rfl⟩ := Option.map_eq_some_iff.mp h
        rw [ih hs ht]

theorem normalizeDdlName_cases {s : Text} (hupper : ∀ c ∈ s, c.isUpper = false) :
    normalizeDdlName s = [] ∨ normalizeDdlName s = s := by
  unfold normalizeDdlName
  split
  · cases hloop : normalizeFrom true s with
    | none => exact .inl rfl
    | some t => exact .inr (normalizeFrom_eq_some hupper hloop)
  · exact .inl rfl

theorem dot_mem_of_normalizeFrom {prevDot : Bool} {s t : Text} (h : normalizeFrom prevDot s = some t)
    (hdot : '.' ∈ s) : '.' ∈ t := by
  induction s generalizing prevDot t with
  | nil => cases hdot
  | cons c s ih =>
      unfold normalizeFrom at h
      split at h
      · rename_i hupper
        obtain ⟨t, ht, rfl⟩ := Option.map_eq_some_iff.mp h
        rcases List.mem_cons.mp hdot with rfl | hdot
        · exact absurd hupper (by decide)
        · exact List.mem_cons_of_mem _ (ih ht hdot)
      · split at h
        · cases h
        · obtain ⟨t, ht, rfl⟩ := Option.map_eq_some_iff.mp h
          rcases List.mem_cons.mp hdot with rfl | hdot
          · exact List.mem_cons_self
          · exact List.mem_cons_of_mem _ (ih ht hdot)

/-- A table name as the constructors make it. -/
def IsMade (stname : DdlStname) : Prop := ∃ schemaName tableName, stname = .make schemaName tableName

theorem IsMade.cases {stname : DdlStname} (h : IsMade stname) :
    stname = .empty ∨ ∃ schemaName tableName, '.' ∉ schemaName ∧ stname.name = schemaName ++ '.' :: tableName := by
  obtain ⟨schemaName, tableName, rfl⟩ := h
  cases hloop : normalizeFrom true (schemaName ++ '.' :: tableName) with
  | none =>
      refine .inl (DdlStname.ext ?_)
      simp [DdlStname.make, DdlStname.empty, normalizeDdlName, hloop]
  | some t =>
      by_cases hhead : (schemaName ++ '.' :: tableName).head?.any Char.isAlpha
      · have hname : (DdlStname.make schemaName tableName).name = t := by
          unfold DdlStname.make normalizeDdlName
          dsimp only
          rw [if_pos hhead, hloop, Option.getD_some]
        obtain ⟨s, s', hs, hnot⟩ := List.eq_append_cons_of_mem (dot_mem_of_normalizeFrom hloop (by simp))
        exact .inr ⟨s, s', hnot, hname.trans hs⟩
      · refine .inl (DdlStname.ext ?_)
        unfold DdlStname.make DdlStname.empty normalizeDdlName
        dsimp only
        rw [if_neg hhead]

theorem schemaName_of_name {stname : DdlStname} {schemaName tableName : Text} (hdot : '.' ∉ schemaName)
    (hname : stname.name = schemaName ++ '.' :: tableName) :
    stname.schemaName = schemaName ∧ stname.tableName = tableName := by
  unfold DdlStname.schemaName DdlStname.tableName substr
  rw [hname, findDot_append hdot]
  exact ⟨by simp, by simp⟩

/-- The full name of a column is the name of its table and its own; where these make no name it is empty. -/
theorem ofStname_cases {stname : DdlStname} (hmade : IsMade stname) (cname : DdlCname) :
    DdlStcname.ofStname stname cname.name = .empty ∨
      ∃ schemaName tableName, '.' ∉ schemaName ∧ stname.name = schemaName ++ '.' :: tableName ∧
        (DdlStcname.ofStname stname cname.name).name = schemaName ++ '.' :: (tableName ++ '.' :: cname.name) := by
  rcases hmade.cases with rfl | ⟨schemaName, tableName, hdot, hname⟩
  · exact .inl rfl
  · obtain ⟨hschema, htable⟩ := schemaName_of_name hdot hname
    have hupper : ∀ c ∈ schemaName ++ '.' :: (tableName ++ '.' :: cname.name), c.isUpper = false := by
      have hstname := isUpper_of_normalTail (normalTail_of_normal stname.normal)
      rw [hname] at hstname
      have hcname := isUpper_of_normalTail (normalTail_of_normal cname.normal)
      simp only [List.forall_mem_append, List.forall_mem_cons] at hstname ⊢
      exact ⟨hstname.1, hstname.2.1, hstname.2.2, hstname.2.1, hcname⟩
    have hmake : (DdlStcname.ofStname stname cname.name).name =
        normalizeDdlName (schemaName ++ '.' :: (tableName ++ '.' :: cname.name)) := by
      unfold DdlStcname.ofStname DdlStcname.make
      rw [hschema, htable]
      simp
    rcases normalizeDdlName_cases hupper with hnil | hself
    · exact .inl (DdlStcname.ext (hmake.trans hnil))
    · exact .inr ⟨schemaName, tableName, hdot, hname, hmake.trans hself⟩

theorem stname_of_name {k : DdlStcname} {schemaName tableName columnName : Text} (hschema : '.' ∉ schemaName)
    (hcolumn : '.' ∉ columnName) (hname : k.name = schemaName ++ '.' :: (tableName ++ '.' :: columnName)) :
    k.stname = .make schemaName tableName := by
  have hfirst : findDot k.name = some schemaName.length := by rw [hname, findDot_append hschema]
  have hlast : rfindDot k.name = some (schemaName ++ '.' :: tableName).length := by
    rw [hname, ← List.cons_append, ← List.append_assoc, rfindDot_append hcolumn]
  have hk : k.schemaName = schemaName ∧ k.tableName = tableName := by
    unfold DdlStcname.schemaName DdlStcname.tableName
    rw [hfirst, hlast, hname]
    simp [substr]
  unfold DdlStcname.stname
  rw [hk.1, hk.2]

/-- A column without a dot in its name is read back under its table. -/
theorem stname_ofStname {stname : DdlStname} (hmade : IsMade stname) {cname : DdlCname} (hdot : '.' ∉ cname.name) :
    DdlStcname.ofStname stname cname.name = .empty ∨
      (DdlStcname.ofStname stname cname.name).stname = stname := by
  rcases ofStname_cases hmade cname with hempty | ⟨schemaName, tableName, hschema, hname, hfull⟩
  · exact .inl hempty
  · right
    rw [stname_of_name hschema hdot hfull]
    apply DdlStname.ext
    unfold DdlStname.make
    dsimp only
    rw [← hname]
    exact stname.normal

/-- A column with a dot in its name is read back under a table that has a dot in its own name. -/
theorem dot_mem_tableName {stname : DdlStname} (hmade : IsMade stname) {cname : DdlCname} (hdot : '.' ∈ cname.name) :
    DdlStcname.ofStname stname cname.name = .empty ∨
      '.' ∈ (DdlStcname.ofStname stname cname.name).stname.tableName := by
  rcases ofStname_cases hmade cname with hempty | ⟨schemaName, tableName, hschema, hname, hfull⟩
  · exact .inl hempty
  · right
    obtain ⟨s, s', hs, hnot⟩ := List.eq_append_cons_of_mem (List.mem_reverse.mpr hdot)
    have hcname : cname.name = s'.reverse ++ '.' :: s.reverse := by
      rw [← List.reverse_reverse cname.name, hs]
      simp
    have hcut : (DdlStcname.ofStname stname cname.name).name =
        schemaName ++ '.' :: ((tableName ++ '.' :: s'.reverse) ++ '.' :: s.reverse) := by
      rw [hfull, hcname]
      simp
    rw [stname_of_name hschema (by simpa using hnot) hcut]
    -- the name of that table is a part of the full name, and so stays as it is
    have htail := normalTail_of_normal (DdlStcname.ofStname stname cname.name).normal
    rw [hcut, ← List.cons_append, ← List.append_assoc] at htail
    have hhead : (schemaName ++ '.' :: (tableName ++ '.' :: s'.reverse)).head?.any Char.isAlpha := by
      have hstname := head_isAlpha_of_normal stname.normal (by simp [hname])
      rw [hname] at hstname
      simpa [List.head?_append] using hstname
    have hmake : (DdlStname.make schemaName (tableName ++ '.' :: s'.reverse)).name =
        schemaName ++ '.' :: (tableName ++ '.' :: s'.reverse) := by
      unfold DdlStname.make normalizeDdlName
      dsimp only
      rw [if_pos hhead, normalizeFrom_of_normalTail (normalTail_of_append htail)]
      rfl
    rw [(schemaName_of_name hschema hmake).2]
    simp

/-- Which columns are read back under a table: its own, and those that have no full name if it has no name either. -/
theorem eq_of_stname_ofStname_eq {stname stname' : DdlStname} {cname : DdlCname} (hmade : IsMade stname')
    (hdots : '.' ∈ stname.tableName → '.' ∉ cname.name)
    (h : (DdlStcname.ofStname stname' cname.name).stname = stname) :
    stname' = stname ∨ stname = .empty ∧ DdlStcname.ofStname stname' cname.name = .empty := by
  have hempty : DdlStcname.ofStname stname' cname.name = .empty →
      stname' = stname ∨ stname = .empty ∧ DdlStcname.ofStname stname' cname.name = .empty := by
    intro hk
    refine .inr ⟨?_, hk⟩
    rw [← h, hk]
    rfl
  by_cases hdot : '.' ∈ cname.name
  · rcases dot_mem_tableName hmade hdot with hk | htable
    · exact hempty hk
    · rw [h] at htable
      exact absurd hdot (hdots htable)
  · rcases stname_ofStname hmade hdot with hk | hself
    · exact hempty hk
    · exact .inl (hself.symm.trans h)

/-! ### The definition -/

/-- The lines of a table without a column. -/
theorem render_emptied {stname : DdlStname} {chunks : List TableChunk} (h : chunks.any TableChunk.isColumn = false) :
    ∃ lines, (DdlStatement.createTable stname chunks).render = unlines '\n' lines ∧
      ∀ line ∈ lines, '\n' ∉ line ∧ (line = [] ∨ "--".toList <+: line) := by
  obtain ⟨lines, -, hlines, -, hcomplete⟩ :=
    exists_completeLines (DdlStatement.renderTable stname chunks ++ ");\n".toList)
  refine ⟨lines.map commentLine ++ ["-- table ".toList ++ (stname.name ++ " emptied!".toList)], ?_, ?_⟩
  · rw [render_createTable, if_neg (by simp [h]), hcomplete, unlines_append]
    simp [unlines]
  · rw [List.forall_mem_append, List.forall_mem_map, List.forall_mem_singleton]
    refine ⟨?_, ?_, .inr ⟨_, rfl⟩⟩
    · intro line hline
      refine ⟨notMem_commentLine (hlines line hline), ?_⟩
      unfold commentLine
      split
      · exact .inl rfl
      · exact .inr ⟨' ' :: line, rfl⟩
    · have hname : '\n' ∉ stname.name := notMem_of_normal stname.normal (by decide)
      simp [hname]

/-! ### The constraints -/

/-- The statement adds a constraint to the table. -/
def Alters (stname : DdlStname) : DdlStatement → Prop
  | .addCheck stcname _ _ => stcname.stname = stname
  | .addUnique stname' _ _ => stname' = stname
  | .addForeignKey stcname _ => stcname.stname = stname
  | .newline | .createSchema _ | .createTable _ _ => False

namespace SqlsvrDdlStnamesMigrator

section Emptied

variable {m : SqlsvrDdlStnamesMigrator} {prefs : DdlTableMigratorPrefs} {fuel : Nat} {q : SqlsvrDdlQueries}
  {stname : DdlStname}

theorem isColumn_tableChunks (hall : ∀ r ∈ m.columnMigrations prefs fuel q stname, r.rejected = true) :
    (m.tableChunks prefs fuel q stname).any TableChunk.isColumn = false := by
  have hcolumns : (m.columnMigrations prefs fuel q stname).all ColumnMigration.rejected = true :=
    List.all_eq_true.mpr hall
  unfold tableChunks
  dsimp only
  rw [List.any_append, any_isColumn_columnChunks, hcolumns]
  split
  · rfl
  · split <;> rfl

/-- Each column of the table is rejected by name. -/
theorem ofStname_mem_rejectedIn (hmigrates : m.MigratesColumns prefs fuel q stname)
    (hall : ∀ r ∈ m.columnMigrations prefs fuel q stname, r.rejected = true) {stnames : List DdlStname}
    (hstname : stname ∈ stnames) {tcRec : SqlsvrDdlTcRec} (htcRec : tcRec ∈ (q.findTc stname).getD []) :
    .ofStname stname tcRec.cname.name ∈ m.rejectedIn prefs fuel q stnames := by
  rw [mem_rejectedIn_iff]
  refine ⟨stname, hstname, tcRec.cname, ?_, rfl⟩
  have hcname : tcRec.cname ∈ (m.columnMigrations prefs fuel q stname).map fun r => r.column.cname := by
    rw [hmigrates]
    exact List.mem_map_of_mem htcRec
  unfold rejectedCnames
  rwa [List.filter_eq_self.mpr hall]

/-- A table without a name is sorted in front of the others. -/
theorem mem_of_sortStnames_eq {before behind : List DdlStname} {stname' : DdlStname}
    (hsplit : m.sortStnames = before ++ stname' :: behind) (hstname : stname ∈ m.stnameUsedcols.keys)
    (h : stname' = stname ∨ stname = .empty) : stname ∈ before ++ [stname'] := by
  have hsorted := pairwise_sortStnames m
  have hmem := mem_sortStnames_iff.mpr hstname
  rw [hsplit] at hmem hsorted
  rcases h with rfl | rfl
  · simp
  · rcases List.mem_append.mp hmem with hbefore | hmem
    · exact List.mem_append_left _ hbefore
    · rcases List.mem_cons.mp hmem with hself | hbehind
      · simp [hself]
      · have hlt := List.rel_of_pairwise_cons (List.pairwise_append.mp hsorted).2.1 hbehind
        exact absurd hlt (List.not_lt_nil _)

/-- The full names that are read back under the table are rejected with it. -/
theorem mem_rejectedIn_of_stname_eq (hmigrates : m.MigratesColumns prefs fuel q stname)
    (hne : m.columnMigrations prefs fuel q stname ≠ [])
    (hall : ∀ r ∈ m.columnMigrations prefs fuel q stname, r.rejected = true) {stnames : List DdlStname}
    {stname' : DdlStname} {tcRec : SqlsvrDdlTcRec} (hmade : IsMade stname')
    (hdots : '.' ∈ stname.tableName → '.' ∉ tcRec.cname.name) (htcRec : tcRec ∈ (q.findTc stname').getD [])
    (hstnames : stname' = stname ∨ stname = .empty → stname ∈ stnames)
    (h : (DdlStcname.ofStname stname' tcRec.cname.name).stname = stname) :
    .ofStname stname' tcRec.cname.name ∈ m.rejectedIn prefs fuel q stnames := by
  rcases eq_of_stname_ofStname_eq hmade hdots h with rfl | ⟨rfl, hempty⟩
  · exact ofStname_mem_rejectedIn hmigrates hall (hstnames (.inl rfl)) htcRec
  · have hcolumns : (q.findTc .empty).getD [] ≠ [] := by
      intro hnil
      rw [MigratesColumns, hnil] at hmigrates
      exact hne (List.map_eq_nil_iff.mp hmigrates)
    obtain ⟨own, hown⟩ := List.exists_mem_of_ne_nil _ hcolumns
    rw [hempty]
    exact ofStname_mem_rejectedIn hmigrates hall (hstnames (.inr rfl)) hown

/-- A run leaves nothing to execute of a table all of whose columns are rejected: its definition is written as a
comment, and none of its constraints is written. That the columns of the used tables have no dot in their names is of
use only when the name of the table has one. -/
theorem migrateDdlStnames_emptied {st : MigrationState}
    (h : m.migrateDdlStnames (some (HsqldbTableMigrator.factory prefs fuel)) q = .ok st)
    (hstname : stname ∈ m.stnameUsedcols.keys) (hne : m.columnMigrations prefs fuel q stname ≠ [])
    (hall : ∀ r ∈ m.columnMigrations prefs fuel q stname, r.rejected = true)
    (hmade : ∀ stname' ∈ m.stnameUsedcols.keys, IsMade stname')
    (hdots : '.' ∈ stname.tableName → ∀ stname' ∈ m.stnameUsedcols.keys,
      ∀ tcRec ∈ (q.findTc stname').getD [], '.' ∉ tcRec.cname.name) :
    ∀ statement ∈ st.statements, ¬ Alters stname statement ∧
      ∀ chunks, statement = .createTable stname chunks → ∃ lines, statement.render = unlines '\n' lines ∧
        ∀ line ∈ lines, '\n' ∉ line ∧ (line = [] ∨ "--".toList <+: line) := by
  rw [← q.hideAll_empty] at h
  obtain ⟨-, hstatements, hmigrated⟩ := migrateDdlStnames_eq_ok h
  have hmigrates := hmigrated stname hstname
  simp only [Finset.empty_union] at hstatements
  rw [hstatements, List.forall_mem_append, List.forall_mem_flatMap, forall_mem_writtenFrom_iff]
  · simp only [Finset.empty_union]
    constructor
    · intro before stname' behind hsplit hdefined
      have hstname' : stname' ∈ m.stnameUsedcols.keys := mem_sortStnames_iff.mp (by simp [hsplit])
      have hstnames : stname' = stname ∨ stname = .empty → stname ∈ before ++ [stname'] :=
        mem_of_sortStnames_eq hsplit hstname
      refine ⟨⟨id, ?_⟩, ?_, ?_⟩
      · intro chunks hchunks
        obtain ⟨rfl, -⟩ := DdlStatement.createTable.inj hchunks
        exact render_emptied (isColumn_tableChunks hall)
      · rw [SqlsvrDdlQueries.forall_mem_migrateCkConstraintsDdl_iff (by simp [Alters])]
        intro cname hvisible hkept ckRec hckRec hunhidden
        refine ⟨?_, by simp⟩
        intro halters
        obtain ⟨tcRec, htcRec, rfl⟩ := List.mem_map.mp (SqlsvrDdlQueries.mem_cnames_of_mem_visibleCnames hvisible)
        exact hkept (mem_rejectedIn_of_stname_eq hmigrates hne hall (hmade stname' hstname')
          (fun hdot => hdots hdot stname' hstname' tcRec htcRec) htcRec hstnames halters)
      · intro statement hstatement
        by_cases hnewline : statement = .newline
        · simp [hnewline, Alters]
        · obtain ⟨name, hcnames, rfl⟩ := (SqlsvrDdlQueries.mem_uqStatements_iff _ _ hnewline).mp hstatement
          refine ⟨?_, by simp⟩
          rintro rfl
          obtain ⟨cname, hcname⟩ := List.exists_mem_of_ne_nil _ hcnames
          rw [SqlsvrDdlQueries.mem_uqCnames_iff, SqlsvrDdlQueries.mem_visibleUqs_hideAll_iff] at hcname
          obtain ⟨hvisible, hkept, -⟩ := hcname
          obtain ⟨tcRec, htcRec, rfl⟩ := List.mem_map.mp (SqlsvrDdlQueries.mem_cnames_of_mem_visibleCnames hvisible)
          exact hkept (ofStname_mem_rejectedIn hmigrates hall (by simp) htcRec)
    · intro stname' hstname'
      rw [SqlsvrDdlQueries.migrateFkConstraintsDdl, forall_mem_statementGroup (by simp [Alters]),
        List.forall_mem_map, SqlsvrDdlQueries.unhiddenFks_hideAll]
      rintro ⟨k, fkRec⟩ hfk
      refine ⟨?_, by simp⟩
      intro halters
      obtain ⟨hunhidden, hhits⟩ := List.mem_filter.mp hfk
      obtain ⟨⟨tcRec, htcRec, rfl⟩, -⟩ := SqlsvrDdlQueries.mem_unhiddenFks_iff.mp hunhidden
      have hrejected := mem_rejectedIn_of_stname_eq hmigrates hne hall (hmade stname' hstname')
        (fun hdot => hdots hdot stname' hstname' tcRec htcRec) htcRec
        (fun _ => mem_sortStnames_iff.mpr hstname) halters
      have hnot : ¬ q.fkMapper.Hits (m.rejectedIn prefs fuel q m.sortStnames) (tcRec.stcname stname') := by
        simpa using hhits
      exact hnot (.inl hrejected)
  · simp [Alters]
  · simp [Alters]

end Emptied

end SqlsvrDdlStnamesMigrator

/-- Metadata with the column `b XML` of `dbo.t`, which has a check, and the column `a INT` of `dbo.s`. -/
def xmlTAndS : SqlsvrDdlQueries where
  ckMapper := ⟨[(.ofStname dboT "b".toList, [{ constraintName := "ck".toList, checkClause := "b IS NULL".toList }])],
    List.nodup_singleton _⟩
  fkMapper := .empty
  pkMapper := ∅
  uqMapper := ∅
  tcMapper := ⟨[(dboT, [plainTcRec "b" "xml"]), (dboS, [plainTcRec "a" "int"])], by decide⟩

theorem migrateDdlStnames_emptied_t :
    ∃ st, (usesTwo dboT dboS (by decide)).migrateDdlStnames (some (HsqldbTableMigrator.factory intPrefs 0)) xmlTAndS =
        .ok st ∧
      ∀ statement ∈ st.statements, ¬ Alters dboT statement ∧
        ∀ chunks, statement = .createTable dboT chunks → ∃ lines, statement.render = unlines '\n' lines ∧
          ∀ line ∈ lines, '\n' ∉ line ∧ (line = [] ∨ "--".toList <+: line) := by
  obtain ⟨st, hrun⟩ : ∃ st, (usesTwo dboT dboS (by decide)).migrateDdlStnames
      (some (HsqldbTableMigrator.factory intPrefs 0)) xmlTAndS = .ok st := ⟨_, rfl⟩
  refine ⟨st, hrun, SqlsvrDdlStnamesMigrator.migrateDdlStnames_emptied hrun (by decide) (by decide) (by decide) ?_ ?_⟩
  · intro stname hstname
    rcases List.mem_pair.mp hstname with rfl | rfl
    · exact ⟨_, _, rfl⟩
    · exact ⟨_, _, rfl⟩
  · intro hdot
    exact absurd hdot (by decide)

end Middle.SqlsvrDdl
