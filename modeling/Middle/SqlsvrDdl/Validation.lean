import Middle.NormalDdl.ColumnMsgs
import Middle.SqlsvrDdl.ForeignKeys

/-! The messages of `migrate_ddl_stnames` about tables, in a run for HSQLDB and in a run without a factory,
which is what a batch is validated by. The first one rejects columns and so hides foreign keys before it
looks at their targets. -/

namespace Middle.SqlsvrDdl

open Lib Universals NormalDdl MiddleApp

/-- A message about a table that is used but undefined. -/
def isTableUndefined (msg : DdlStnamesMigrationMsg) : Bool :=
  msg.msg.msg = DdlMigrationMsg.tableUsedButUndefinedMsg

/-- A message about the target of a foreign key. -/
def IsFkTarget (msg : DdlStnamesMigrationMsg) : Prop :=
  ∃ fkrefStname, msg.msg.msg = DdlMigrationMsg.makeFkTargetTableUsedButUndefinedMsg fkrefStname

/-- The message about a table that is used but undefined. -/
def tableUndefinedMsg (stname : DdlStname) : DdlStnamesMigrationMsg :=
  ⟨0, stname, .empty, ⟨.error, DdlMigrationMsg.tableUsedButUndefinedMsg⟩⟩

/-- The message about a table that a used foreign key references and that is not used itself. -/
def fkTargetMsg (stname : DdlStname) : DdlStnamesMigrationMsg :=
  ⟨0, .empty, .empty, ⟨.warning, DdlMigrationMsg.makeFkTargetTableUsedButUndefinedMsg stname.name⟩⟩

theorem fkTargetMsg_injective : Function.Injective fkTargetMsg := by
  intro stname stname' h
  have htext := congrArg (fun msg : DdlStnamesMigrationMsg => msg.msg.msg) h
  exact DdlStname.ext (List.append_cancel_left (List.append_cancel_right htext))

theorem isTableUndefined_tableUndefinedMsg (stname : DdlStname) :
    isTableUndefined (tableUndefinedMsg stname) = true := decide_eq_true rfl

theorem not_isFkTarget_tableUndefinedMsg (stname : DdlStname) : ¬ IsFkTarget (tableUndefinedMsg stname) := by
  rintro ⟨fkrefStname, hmsg⟩
  have hhead : some 't' = some 'F' := congrArg List.head? hmsg
  exact absurd hhead (by decide)

/-- The messages about the undefined ones among tables. -/
def undefinedMsgs (q : SqlsvrDdlQueries) (stnames : List DdlStname) : List DdlStnamesMigrationMsg :=
  (stnames.filter fun stname => (q.findTc stname).isNone).map tableUndefinedMsg

theorem undefinedMsgs_cons (q : SqlsvrDdlQueries) (stname : DdlStname) (stnames : List DdlStname) :
    undefinedMsgs q (stname :: stnames) =
      (if (q.findTc stname).isNone then [tableUndefinedMsg stname] else []) ++ undefinedMsgs q stnames := by
  unfold undefinedMsgs
  rw [List.filter_cons]
  split
  · rfl
  · rfl

/-- Messages among which there are none about tables. -/
def NoTableMsgs (msgs : List DdlStnamesMigrationMsg) : Prop :=
  ∀ msg ∈ msgs, isTableUndefined msg = false ∧ ¬ IsFkTarget msg

theorem noTableMsgs_of_columnText {msgs : List DdlStnamesMigrationMsg}
    (h : ∀ msg ∈ msgs, ColumnText msg.msg.msg) : NoTableMsgs msgs := by
  intro msg hmsg
  have htext := h msg hmsg
  constructor
  · rw [isTableUndefined, decide_eq_false_iff_not]
    intro hundefined
    rw [hundefined] at htext
    exact not_columnText_tableUsedButUndefinedMsg htext
  · rintro ⟨fkrefStname, hfkTarget⟩
    rw [hfkTarget] at htext
    exact not_columnText_makeFkTargetTableUsedButUndefinedMsg fkrefStname htext

theorem filter_of_noTableMsgs {msgs : List DdlStnamesMigrationMsg} (h : NoTableMsgs msgs) :
    msgs.filter isTableUndefined = [] := by
  rw [List.filter_eq_nil_iff]
  intro msg hmsg
  simp [(h msg hmsg).1]

namespace SqlsvrDdlStnamesMigrator

variable {m : SqlsvrDdlStnamesMigrator} {q : SqlsvrDdlQueries}

theorem noTableMsgs_rejectedMsgs (stname : DdlStname) (cname : DdlCname) :
    NoTableMsgs (m.rejectedMsgs stname cname) := by
  apply noTableMsgs_of_columnText
  intro msg hmsg
  unfold rejectedMsgs at hmsg
  split at hmsg
  · cases hmsg
  · obtain rfl := List.mem_singleton.mp hmsg
    show ColumnText DdlMigrationMsg.columnUsedButRejectedMsg
    decide

/-! ### Foreign key targets -/

theorem mem_keys_foldl_insert {stnames : List DdlStname} {fkrefStnames : DdlFkrefStnames} {stname : DdlStname} :
    stname ∈ (stnames.foldl (fun (fkrefStnames : DdlFkrefStnames) stname =>
      (fkrefStnames.insert stname ()).1) fkrefStnames).keys ↔ stname ∈ fkrefStnames.keys ∨ stname ∈ stnames := by
  induction stnames generalizing fkrefStnames with
  | nil => simp
  | cons stname' stnames ih =>
      have hstep : stname ∈ (fkrefStnames.insert stname' ()).1.keys ↔
          stname ∈ fkrefStnames.keys ∨ stname = stname' := by
        by_cases hmem : stname' ∈ fkrefStnames.keys
        · rw [UnorderedMap.insert_of_mem hmem]
          constructor
          · exact .inl
          · rintro (h | rfl)
            · exact h
            · exact hmem
        · simp [UnorderedMap.keys, UnorderedMap.insert_entries_of_notMem hmem]
      rw [List.foldl_cons, ih, hstep, List.mem_cons, or_assoc]

theorem mem_fkTargetMsgs_iff {msg : DdlStnamesMigrationMsg} :
    msg ∈ m.fkTargetMsgs q ↔ ∃ stname, (m.stnameUsedcols.find stname).isNone ∧
      (∃ e ∈ m.stnameUsedcols.entries, stname ∈ q.fkrefStnames e.1
        (if m.haveUsedcols then m.stnameUsedcols.find e.1 else none)) ∧
      msg = ⟨0, .empty, .empty, ⟨.warning, DdlMigrationMsg.makeFkTargetTableUsedButUndefinedMsg stname.name⟩⟩ := by
  have hnone : ∀ stname, stname ∉ (∅ : DdlFkrefStnames).keys := fun stname h => by cases h
  unfold fkTargetMsgs allFkrefStnames
  simp only [List.mem_map, List.mem_filter, mem_keys_foldl_insert, hnone, false_or, List.mem_flatMap]
  constructor
  · rintro ⟨stname, ⟨hmem, hunused⟩, rfl⟩
    exact ⟨stname, hunused, hmem, rfl⟩
  · rintro ⟨stname, hunused, hmem, rfl⟩
    exact ⟨stname, ⟨hmem, hunused⟩, rfl⟩

theorem isFkTarget_of_mem_fkTargetMsgs {msg : DdlStnamesMigrationMsg} (h : msg ∈ m.fkTargetMsgs q) :
    IsFkTarget msg ∧ msg.lineno = 0 ∧ msg.msg.msg ≠ [] ∧ isTableUndefined msg = false := by
  obtain ⟨stname, -, -, rfl⟩ := mem_fkTargetMsgs_iff.mp h
  refine ⟨⟨stname.name, rfl⟩, rfl, ?_, ?_⟩
  · intro hnil
    have hhead : some 'F' = none := congrArg List.head? hnil
    cases hhead
  · rw [isTableUndefined, decide_eq_false_iff_not]
    intro hundefined
    have hhead : some 'F' = some 't' := congrArg List.head? hundefined
    exact absurd hhead (by decide)

theorem filter_fkTargetMsgs : (m.fkTargetMsgs q).filter isTableUndefined = [] := by
  rw [List.filter_eq_nil_iff]
  intro msg hmsg
  simp [(isFkTarget_of_mem_fkTargetMsgs hmsg).2.2.2]

/-- Fewer foreign keys are left over where columns are rejected, and so fewer targets. -/
theorem fkTargetMsgs_hideAll_subset (K : Finset DdlStcname) : m.fkTargetMsgs (q.hideAll K) ⊆ m.fkTargetMsgs q := by
  intro msg hmsg
  obtain ⟨stname, hunused, ⟨e, he, hmem⟩, rfl⟩ := mem_fkTargetMsgs_iff.mp hmsg
  refine mem_fkTargetMsgs_iff.mpr ⟨stname, hunused, ⟨e, he, ?_⟩, rfl⟩
  unfold SqlsvrDdlQueries.fkrefStnames at hmem ⊢
  split at hmem
  · cases hmem
  · rw [SqlsvrDdlQueries.unhiddenFks_hideAll, List.mem_map] at hmem
    obtain ⟨fk, hfk, rfl⟩ := hmem
    rw [List.mem_filter, List.mem_filter] at hfk
    exact List.mem_map_of_mem (List.mem_filter.mpr ⟨hfk.1.1, hfk.2⟩)

/-! ### Runs -/

section Hsqldb

variable {prefs : DdlTableMigratorPrefs} {fuel : Nat}

theorem migrateTable_noTableMsgs {stname : DdlStname} {lines : Nat} {table : DdlCreateTableMigration}
    (h : m.migrateTable prefs fuel q stname lines = .ok (some table)) :
    NoTableMsgs (table.msgs ++ table.rejectedCnames.flatMap (m.rejectedMsgs stname)) := by
  unfold migrateTable at h
  split at h
  · cases h
  · split at h
    · cases h
    · rw [bind_eq_ok] at h
      obtain ⟨table', htable, h⟩ := h
      rw [bind_eq_ok] at h
      obtain ⟨u, -, h⟩ := h
      cases h
      intro msg hmsg
      rcases List.mem_append.mp hmsg with hmsg | hmsg
      · exact noTableMsgs_of_columnText (columnText_of_migrateCreateTableDdl htable) msg hmsg
      · obtain ⟨cname, -, hmsg⟩ := List.mem_flatMap.mp hmsg
        exact noTableMsgs_rejectedMsgs stname cname msg hmsg

/-- The messages about tables that the steps of a run for HSQLDB add. -/
theorem tableMsgs_foldlM_visitStname {stnames : List DdlStname} {K : Finset DdlStcname} {st st' : MigrationState}
    (hst : st.queries = q.hideAll K) (hfk : ∀ msg ∈ st.stnamesMigrationMsgs, ¬ IsFkTarget msg)
    (h : stnames.foldlM (m.visitStname (some (HsqldbTableMigrator.factory prefs fuel))) st = .ok st') :
    st'.stnamesMigrationMsgs.filter isTableUndefined =
        st.stnamesMigrationMsgs.filter isTableUndefined ++ undefinedMsgs q stnames ∧
      ∀ msg ∈ st'.stnamesMigrationMsgs, ¬ IsFkTarget msg := by
  induction stnames generalizing K st with
  | nil =>
      cases h
      exact ⟨(List.append_nil _).symm, hfk⟩
  | cons stname stnames ih =>
      rw [List.foldlM_cons, bind_eq_ok] at h
      obtain ⟨st₁, hstep, h⟩ := h
      obtain ⟨hundefined, rfl⟩ | ⟨lines, table, htable, rfl⟩ := visitStname_eq_ok hst hstep
      · have hmsgs : ∀ msg ∈ st.stnamesMigrationMsgs ++ [tableUndefinedMsg stname], ¬ IsFkTarget msg := by
          intro msg hmsg
          rcases List.mem_append.mp hmsg with hmsg | hmsg
          · exact hfk msg hmsg
          · obtain rfl := List.mem_singleton.mp hmsg
            exact not_isFkTarget_tableUndefinedMsg stname
        obtain ⟨hfilter, htargets⟩ := ih rfl hmsgs h
        refine ⟨?_, htargets⟩
        calc
          st'.stnamesMigrationMsgs.filter isTableUndefined =
              (st.stnamesMigrationMsgs ++ [tableUndefinedMsg stname]).filter isTableUndefined ++
                undefinedMsgs q stnames := hfilter
          _ = st.stnamesMigrationMsgs.filter isTableUndefined ++ undefinedMsgs q (stname :: stnames) := by
              rw [undefinedMsgs_cons, hundefined, List.filter_append, List.append_assoc]
              rfl
      · obtain ⟨hdefined, -, -, -⟩ := migrateTable_eq_some htable
        have hadded := migrateTable_noTableMsgs htable
        have hmsgs : ∀ msg ∈ st.stnamesMigrationMsgs ++
            (table.msgs ++ table.rejectedCnames.flatMap (m.rejectedMsgs stname)), ¬ IsFkTarget msg := by
          intro msg hmsg
          rcases List.mem_append.mp hmsg with hmsg | hmsg
          · exact hfk msg hmsg
          · exact (hadded msg hmsg).2
        rw [← List.append_assoc] at hmsgs
        obtain ⟨hfilter, htargets⟩ := ih rfl hmsgs h
        refine ⟨?_, htargets⟩
        calc
          st'.stnamesMigrationMsgs.filter isTableUndefined =
              (st.stnamesMigrationMsgs ++ table.msgs ++
                table.rejectedCnames.flatMap (m.rejectedMsgs stname)).filter isTableUndefined ++
                  undefinedMsgs q stnames := hfilter
          _ = st.stnamesMigrationMsgs.filter isTableUndefined ++ undefinedMsgs q (stname :: stnames) := by
              rw [undefinedMsgs_cons, if_neg (by simp [Option.isSome_iff_ne_none.mp hdefined]),
                List.append_assoc, List.filter_append, filter_of_noTableMsgs hadded, List.append_nil,
                List.nil_append]

/-- The messages about tables in a run for HSQLDB. -/
theorem tableMsgs_migrateDdlStnames {st : MigrationState}
    (h : m.migrateDdlStnames (some (HsqldbTableMigrator.factory prefs fuel)) q = .ok st) :
    st.stnamesMigrationMsgs.filter isTableUndefined = undefinedMsgs q m.sortStnames ∧
      ∀ msg ∈ st.stnamesMigrationMsgs, IsFkTarget msg → msg ∈ m.fkTargetMsgs st.queries := by
  obtain ⟨st₁, hloop, hend⟩ := migrateDdlStnames_cases h
  obtain ⟨hfilter, htargets⟩ := tableMsgs_foldlM_visitStname q.hideAll_empty.symm (fun msg hmsg => by cases hmsg) hloop
  obtain ⟨-, rfl⟩ | ⟨-, rfl⟩ := hend
  · exact ⟨hfilter, fun msg hmsg htarget => absurd htarget (htargets msg hmsg)⟩
  · constructor
    · show (st₁.stnamesMigrationMsgs ++ m.fkTargetMsgs st₁.queries).filter isTableUndefined = _
      rw [List.filter_append, filter_fkTargetMsgs, List.append_nil, hfilter]
      rfl
    · intro msg hmsg htarget
      rcases List.mem_append.mp hmsg with hmsg | hmsg
      · exact absurd htarget (htargets msg hmsg)
      · exact hmsg

end Hsqldb

section Validate

variable {σ : Type}

/-- A step without a factory only counts a defined table and reports another one. -/
theorem visitStname_none (st : MigrationState) (stname : DdlStname) :
    m.visitStname (none : Option (DdlTableMigratorFactory σ)) st stname =
      .ok { st with
        stnamesMigrationMsgs := st.stnamesMigrationMsgs ++ undefinedMsgs st.queries [stname]
        tableInfoCnt := st.tableInfoCnt + [stname].countP fun stname => (st.queries.findTc stname).isSome } := by
  have hinfo := SqlsvrDdlQueries.isSome_findTableInfo st.queries stname
  unfold visitStname
  cases htable : st.queries.findTableInfo stname with
  | none =>
      have hundefined : st.queries.findTc stname = none := by simpa [htable] using hinfo.symm
      simp [undefinedMsgs, hundefined, tableUndefinedMsg]
  | some tableInfo =>
      have hdefined : (st.queries.findTc stname).isSome = true := by simpa [htable] using hinfo.symm
      simp [undefinedMsgs, hdefined, Option.isSome_iff_ne_none.mp hdefined, bind, Except.bind, pure, Except.pure]

theorem foldlM_visitStname_none (stnames : List DdlStname) (st : MigrationState) :
    stnames.foldlM (m.visitStname (none : Option (DdlTableMigratorFactory σ))) st =
      .ok { st with
        stnamesMigrationMsgs := st.stnamesMigrationMsgs ++ undefinedMsgs st.queries stnames
        tableInfoCnt := st.tableInfoCnt +
          stnames.countP fun stname => (st.queries.findTc stname).isSome } := by
  induction stnames generalizing st with
  | nil => simp [undefinedMsgs, pure, Except.pure]
  | cons stname stnames ih =>
      have hmsgs : undefinedMsgs st.queries (stname :: stnames) =
          undefinedMsgs st.queries [stname] ++ undefinedMsgs st.queries stnames := by
        have hnil : undefinedMsgs st.queries [] = [] := rfl
        rw [undefinedMsgs_cons, undefinedMsgs_cons st.queries stname [], hnil, List.append_nil]
      have hcnt : ∀ p : DdlStname → Bool, (stname :: stnames).countP p = [stname].countP p + stnames.countP p := by
        intro p
        rw [← List.countP_append]
        rfl
      rw [List.foldlM_cons, visitStname_none]
      dsimp only [bind, Except.bind]
      rw [ih, hmsgs, hcnt, List.append_assoc, Nat.add_assoc]

theorem fkTargetMsgs_of_undefined (h : ∀ stname ∈ m.stnameUsedcols.keys, q.findTc stname = none) :
    m.fkTargetMsgs q = [] := by
  rw [List.eq_nil_iff_forall_not_mem]
  intro msg hmsg
  obtain ⟨stname, -, ⟨e, he, hmem⟩, -⟩ := mem_fkTargetMsgs_iff.mp hmsg
  unfold SqlsvrDdlQueries.fkrefStnames at hmem
  split at hmem
  · cases hmem
  · rw [unhiddenFks_of_findTc_eq_none (h e.1 (List.mem_map_of_mem he))] at hmem
    cases hmem

/-- A run without a factory never fails. -/
theorem migrateDdlStnames_none (m : SqlsvrDdlStnamesMigrator) (q : SqlsvrDdlQueries) :
    ∃ st, m.migrateDdlStnames (none : Option (DdlTableMigratorFactory σ)) q = .ok st ∧ st.statements = [] ∧
      st.queries = q ∧
      st.stnamesMigrationMsgs = undefinedMsgs q m.sortStnames ++ m.fkTargetMsgs q := by
  unfold migrateDdlStnames
  rw [foldlM_visitStname_none]
  refine ⟨_, rfl, ?_⟩
  dsimp only
  split
  · rename_i hzero
    have hundefined : ∀ stname ∈ m.stnameUsedcols.keys, q.findTc stname = none := by
      intro stname hstname
      have hall : ∀ stname ∈ m.sortStnames, q.findTc stname = none := by simpa using hzero
      exact hall stname (mem_sortStnames_iff.mpr hstname)
    refine ⟨rfl, rfl, ?_⟩
    rw [fkTargetMsgs_of_undefined hundefined, List.append_nil]
    rfl
  · exact ⟨rfl, rfl, rfl⟩

end Validate

/-- Validating is a check without effect that finds what a run for HSQLDB finds. -/
theorem migrateDdlStnames_validate (m : SqlsvrDdlStnamesMigrator) (q : SqlsvrDdlQueries) :
    ∃ dry, m.migrateDdlStnames (none : Option (DdlTableMigratorFactory HsqldbTableMigrator)) q = .ok dry ∧
      dry.statements = [] ∧ dry.queries = q ∧
      (∀ msg ∈ dry.stnamesMigrationMsgs, msg.lineno = 0 ∧ msg.msg.msg ≠ []) ∧
      ∀ (prefs : DdlTableMigratorPrefs) (fuel : Nat) (full : MigrationState),
        m.migrateDdlStnames (some (HsqldbTableMigrator.factory prefs fuel)) q = .ok full →
          dry.stnamesMigrationMsgs.filter isTableUndefined = full.stnamesMigrationMsgs.filter isTableUndefined ∧
          ∀ msg ∈ full.stnamesMigrationMsgs, IsFkTarget msg → msg ∈ dry.stnamesMigrationMsgs := by
  obtain ⟨dry, hdry, hstatements, hqueries, hmsgs⟩ :
      ∃ st, m.migrateDdlStnames (none : Option (DdlTableMigratorFactory HsqldbTableMigrator)) q = .ok st ∧
        st.statements = [] ∧ st.queries = q ∧
        st.stnamesMigrationMsgs = undefinedMsgs q m.sortStnames ++ m.fkTargetMsgs q := migrateDdlStnames_none m q
  refine ⟨dry, hdry, hstatements, hqueries, ?_, ?_⟩
  · intro msg hmsg
    rw [hmsgs] at hmsg
    rcases List.mem_append.mp hmsg with hmsg | hmsg
    · obtain ⟨stname, -, rfl⟩ := List.mem_map.mp hmsg
      exact ⟨rfl, List.cons_ne_nil _ _⟩
    · obtain ⟨-, hlineno, hne, -⟩ := isFkTarget_of_mem_fkTargetMsgs hmsg
      exact ⟨hlineno, hne⟩
  · intro prefs fuel full hfull
    obtain ⟨hundefined, htargets⟩ := tableMsgs_migrateDdlStnames hfull
    constructor
    · have hfilter : (undefinedMsgs q m.sortStnames).filter isTableUndefined = undefinedMsgs q m.sortStnames := by
        rw [List.filter_eq_self]
        intro msg hmsg
        obtain ⟨stname, -, rfl⟩ := List.mem_map.mp hmsg
        exact isTableUndefined_tableUndefinedMsg stname
      rw [hundefined, hmsgs, List.filter_append, hfilter, filter_fkTargetMsgs, List.append_nil]
    · intro msg hmsg htarget
      have hmem := htargets msg hmsg htarget
      rw [← q.hideAll_empty] at hfull
      rw [(migrateDdlStnames_eq_ok hfull).1] at hmem
      rw [hmsgs]
      exact List.mem_append_right _ (fkTargetMsgs_hideAll_subset _ hmem)

end SqlsvrDdlStnamesMigrator

/-- A source file that uses the column `a` of `dbo.t` and nothing of the table it references, and the
undefined table `dbo.u`. -/
def usesTAndU : SqlsvrDdlStnamesMigrator where
  stnameUsedcols := ⟨[(dboT, {.ofText "a".toList}), (.make "dbo".toList "u".toList, ∅)], by decide⟩
  haveUsedcols := true
  assumedIdents := ∅

theorem migrateDdlStnames_validate_t :
    ∃ loaded dry full, loadFkMapper [[tToR "fk" "a"]] = .ok loaded ∧
      usesTAndU.migrateDdlStnames (none : Option (DdlTableMigratorFactory HsqldbTableMigrator))
        (tWithFks loaded.mapper) = .ok dry ∧
      usesTAndU.migrateDdlStnames (some (HsqldbTableMigrator.factory intPrefs 0)) (tWithFks loaded.mapper) =
        .ok full ∧
      dry.statements = [] ∧ dry.queries = tWithFks loaded.mapper ∧
      dry.stnamesMigrationMsgs.filter isTableUndefined = full.stnamesMigrationMsgs.filter isTableUndefined ∧
      (∃ msg ∈ full.stnamesMigrationMsgs, IsFkTarget msg) ∧
      ∀ msg ∈ full.stnamesMigrationMsgs, IsFkTarget msg → msg ∈ dry.stnamesMigrationMsgs := by
  obtain ⟨loaded, hload⟩ : ∃ loaded, loadFkMapper [[tToR "fk" "a"]] = .ok loaded := ⟨_, rfl⟩
  obtain ⟨full, hfull, hmsg⟩ : ∃ full, usesTAndU.migrateDdlStnames
      (some (HsqldbTableMigrator.factory intPrefs 0)) (tWithFks loaded.mapper) = .ok full ∧
      ∃ msg ∈ full.stnamesMigrationMsgs, IsFkTarget msg := by
    cases hload
    exact ⟨_, rfl, ⟨0, .empty, .empty, _⟩, List.mem_of_getLast? rfl, "dbo.r".toList, rfl⟩
  obtain ⟨dry, hdry, hstatements, hqueries, -, hagree⟩ :=
    SqlsvrDdlStnamesMigrator.migrateDdlStnames_validate usesTAndU (tWithFks loaded.mapper)
  obtain ⟨hundefined, htargets⟩ := hagree intPrefs 0 full hfull
  exact ⟨loaded, dry, full, hload, hdry, hfull, hstatements, hqueries, hundefined, hmsg, htargets⟩

end Middle.SqlsvrDdl
