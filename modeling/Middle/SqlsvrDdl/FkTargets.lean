import Middle.SqlsvrDdl.RejectedMsgs

/-! The tables that written foreign keys reference. A used one is created or reported as undefined; one that
is not used is never created, and reported only when the foreign key of a used column references it. -/

namespace Middle.SqlsvrDdl

open Lib Universals NormalDdl MiddleApp

/-- Which columns a table has. -/
theorem exists_stcname_iff {q q' : SqlsvrDdlQueries} {stname : DdlStname}
    (h : q'.findTableInfo stname = q.findTableInfo stname) (k : DdlStcname) :
    (∃ tcRec ∈ (q'.findTc stname).getD [], tcRec.stcname stname = k) ↔
      ∃ tcRec ∈ (q.findTc stname).getD [], tcRec.stcname stname = k := by
  have hcolumns : ∀ q : SqlsvrDdlQueries, (∃ tcRec ∈ (q.findTc stname).getD [], tcRec.stcname stname = k) ↔
      ∃ column ∈ (q.findTableInfo stname).elim [] DdlTableInfo.columns,
        .ofStname stname column.cname.name = k := by
    intro q
    unfold SqlsvrDdlQueries.findTableInfo
    cases q.findTc stname with
    | none => simp
    | some tcRecs => simp [SqlsvrDdlTcRec.stcname]
  rw [hcolumns q, hcolumns q', h]

/-- A used column of a used table has a foreign key to a table, and it is written. -/
def UsesTarget (m : SqlsvrDdlStnamesMigrator) (q : SqlsvrDdlQueries) (statements : List DdlStatement)
    (fkrefStname : DdlStname) : Prop :=
  ∃ e ∈ m.stnameUsedcols.entries, ∃ tcRec ∈ (q.findTc e.1).getD [],
    .ofText (tcRec.stcname e.1).columnName ∈ e.2 ∧
      ∃ refStcname, .addForeignKey (tcRec.stcname e.1) refStcname ∈ statements ∧ refStcname.stname = fkrefStname

namespace SqlsvrDdlStnamesMigrator

variable {σ : Type} {m : SqlsvrDdlStnamesMigrator} {factory : DdlTableMigratorFactory σ} {q : SqlsvrDdlQueries}
  {st : MigrationState}

theorem tableMsgs_level {stname : DdlStname} {msg : DdlStnamesMigrationMsg} (h : msg ∈ m.tableMsgs factory q stname) :
    msg.msg.level = .error := by
  unfold tableMsgs at h
  split at h
  · rw [List.mem_singleton.mp h]
    rfl
  · obtain ⟨cname, -, hmsg⟩ := List.mem_flatMap.mp h
    unfold rejectedMsgs at hmsg
    split at hmsg
    · cases hmsg
    · rw [List.mem_singleton.mp hmsg]

theorem tableUndefinedMsg_mem_tableMsgs_iff {stname stname' : DdlStname} :
    tableUndefinedMsg stname ∈ m.tableMsgs factory q stname' ↔
      stname = stname' ∧ q.findTableInfo stname = none := by
  unfold tableMsgs
  split
  · rename_i hundefined
    rw [Option.isNone_iff_eq_none] at hundefined
    constructor
    · intro hmem
      obtain rfl : stname = stname' := congrArg DdlStnamesMigrationMsg.stname (List.mem_singleton.mp hmem)
      exact ⟨rfl, hundefined⟩
    · rintro ⟨rfl, -⟩
      exact List.mem_singleton_self _
  · rename_i hdefined
    rw [Option.isNone_iff_eq_none] at hdefined
    refine iff_of_false ?_ ?_
    · intro hmem
      obtain ⟨cname, -, hmsg⟩ := List.mem_flatMap.mp hmem
      have htext := (noTableMsgs_rejectedMsgs stname' cname _ hmsg).1
      rw [isTableUndefined_tableUndefinedMsg] at htext
      cases htext
    · rintro ⟨rfl, hundefined⟩
      exact hdefined hundefined

/-- A used table that the metadata do not define is reported, and no other. -/
theorem tableUndefinedMsg_mem_iff (h : m.migrateDdlStnames (some factory) q = .ok st) (stname : DdlStname) :
    tableUndefinedMsg stname ∈ st.stnamesMigrationMsgs ↔
      stname ∈ m.stnameUsedcols.keys ∧ q.findTableInfo stname = none := by
  have htarget : tableUndefinedMsg stname ∉ m.fkTargetMsgs st.queries :=
    fun hmem => not_isFkTarget_tableUndefinedMsg stname (isFkTarget_of_mem_fkTargetMsgs hmem).1
  rw [(migrated_of_migrateDdlStnames h).msgs _ rfl, or_iff_left htarget]
  simp only [tableUndefinedMsg_mem_tableMsgs_iff]
  constructor
  · rintro ⟨stname', hstname, rfl, hundefined⟩
    exact ⟨hstname, hundefined⟩
  · rintro ⟨hstname, hundefined⟩
    exact ⟨stname, hstname, rfl, hundefined⟩

/-- The targets of the foreign keys of the used columns. -/
theorem exists_fkrefStnames_iff (h : m.migrateDdlStnames (some factory) q = .ok st) (fkrefStname : DdlStname) :
    (∃ e ∈ m.stnameUsedcols.entries, fkrefStname ∈ st.queries.fkrefStnames e.1
        (if m.haveUsedcols then m.stnameUsedcols.find e.1 else none)) ↔
      m.haveUsedcols = true ∧ UsesTarget m q st.statements fkrefStname := by
  have hmigrated := migrated_of_migrateDdlStnames h
  unfold UsesTarget
  cases hhave : m.haveUsedcols with
  | false => simp [SqlsvrDdlQueries.fkrefStnames]
  | true =>
      refine Iff.trans ?_ (and_iff_right rfl).symm
      apply exists_congr
      intro e
      apply and_congr_right
      intro he
      rw [if_pos rfl, UnorderedMap.find_eq_some_iff.mpr he]
      unfold SqlsvrDdlQueries.fkrefStnames
      simp only [List.mem_map, List.mem_filter, decide_eq_true_eq]
      constructor
      · rintro ⟨⟨k, fkRec⟩, ⟨hfk, hused⟩, rfl⟩
        obtain ⟨hcolumn, -⟩ := SqlsvrDdlQueries.mem_unhiddenFks_iff.mp hfk
        obtain ⟨tcRec, htcRec, rfl⟩ := (exists_stcname_iff (hmigrated.findTableInfo_eq e.1) k).mp hcolumn
        refine ⟨tcRec, htcRec, hused, fkRec.refStcname, ?_, rfl⟩
        exact (hmigrated.foreignKeys _ _).mpr ⟨e.1, List.mem_map_of_mem he, fkRec, hfk, rfl⟩
      · rintro ⟨tcRec, htcRec, hused, refStcname, hwritten, rfl⟩
        obtain ⟨stname', -, fkRec, hfk, rfl⟩ := (hmigrated.foreignKeys _ _).mp hwritten
        obtain ⟨-, hfind⟩ := SqlsvrDdlQueries.mem_unhiddenFks_iff.mp hfk
        have hcolumn := (exists_stcname_iff (hmigrated.findTableInfo_eq e.1) _).mpr ⟨tcRec, htcRec, rfl⟩
        have hunhidden := SqlsvrDdlQueries.mem_unhiddenFks_iff.mpr ⟨hcolumn, hfind⟩
        exact ⟨(tcRec.stcname e.1, fkRec), ⟨hunhidden, hused⟩, rfl⟩

theorem fkTargetMsg_mem_iff (h : m.migrateDdlStnames (some factory) q = .ok st) (fkrefStname : DdlStname) :
    fkTargetMsg fkrefStname ∈ st.stnamesMigrationMsgs ↔ fkrefStname ∉ m.stnameUsedcols.keys ∧
      m.haveUsedcols = true ∧ UsesTarget m q st.statements fkrefStname := by
  have htable : ¬ ∃ stname ∈ m.stnameUsedcols.keys, fkTargetMsg fkrefStname ∈ m.tableMsgs factory q stname := by
    rintro ⟨stname, -, hmem⟩
    cases tableMsgs_level hmem
  rw [(migrated_of_migrateDdlStnames h).msgs _ rfl, or_iff_right htable, mem_fkTargetMsgs_iff,
    ← exists_fkrefStnames_iff h, ← UnorderedMap.find_eq_none_iff]
  constructor
  · rintro ⟨stname, hunused, htargets, heq⟩
    obtain rfl := fkTargetMsg_injective heq
    exact ⟨Option.isNone_iff_eq_none.mp hunused, htargets⟩
  · rintro ⟨hunused, htargets⟩
    exact ⟨fkrefStname, Option.isNone_iff_eq_none.mpr hunused, htargets, rfl⟩

end SqlsvrDdlStnamesMigrator

end Middle.SqlsvrDdl
