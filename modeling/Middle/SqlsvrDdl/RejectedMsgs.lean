import Middle.SqlsvrDdl.FactoryRun
import Middle.SqlsvrDdl.Keys

/-! The messages of a run about used columns that are rejected. The run looks for a rejected column among the
used ones and reports it when it is not there. -/

namespace Middle.SqlsvrDdl

open Lib Universals NormalDdl MiddleApp

/-- The message about a column that is used but rejected. -/
def columnRejectedMsg (stname : DdlStname) (cname : DdlCname) : DdlStnamesMigrationMsg :=
  ⟨0, stname, cname, ⟨.error, DdlMigrationMsg.columnUsedButRejectedMsg⟩⟩

namespace SqlsvrDdlStnamesMigrator

section Factory

variable {σ : Type} {m : SqlsvrDdlStnamesMigrator} {factory : DdlTableMigratorFactory σ} {q : SqlsvrDdlQueries}

theorem columnRejectedMsg_mem_rejectedMsgs_iff {stname stname' : DdlStname} {cname cname' : DdlCname} :
    columnRejectedMsg stname cname ∈ m.rejectedMsgs stname' cname' ↔
      (stname = stname' ∧ cname = cname') ∧
        m.stnameUsedcols.usedColumn (.ofStname stname cname.name) = false := by
  unfold rejectedMsgs
  constructor
  · intro hmem
    split at hmem
    · cases hmem
    · rename_i hused
      cases List.mem_singleton.mp hmem
      exact ⟨⟨rfl, rfl⟩, Bool.eq_false_of_not_eq_true hused⟩
  · rintro ⟨⟨rfl, rfl⟩, hunused⟩
    rw [hunused]
    exact List.mem_singleton_self _

theorem columnRejectedMsg_mem_tableMsgs_iff {stname stname' : DdlStname} {cname : DdlCname} :
    columnRejectedMsg stname cname ∈ m.tableMsgs factory q stname' ↔
      stname = stname' ∧ cname ∈ m.rejectedBy factory q stname ∧
        m.stnameUsedcols.usedColumn (.ofStname stname cname.name) = false := by
  unfold tableMsgs
  split
  · rename_i hundefined
    have htable : columnRejectedMsg stname cname ≠ tableUndefinedMsg stname' := by
      intro heq
      have htext : some 'c' = some 't' := congrArg (fun msg => msg.msg.msg.head?) heq
      exact absurd htext (by decide)
    refine iff_of_false (fun hmem => htable (List.mem_singleton.mp hmem)) ?_
    rintro ⟨rfl, hcname, -⟩
    unfold rejectedBy at hcname
    rw [Option.isNone_iff_eq_none.mp hundefined] at hcname
    cases hcname
  · simp only [List.mem_flatMap, columnRejectedMsg_mem_rejectedMsgs_iff]
    constructor
    · rintro ⟨cname', hcname, ⟨rfl, rfl⟩, hunused⟩
      exact ⟨rfl, hcname, hunused⟩
    · rintro ⟨rfl, hcname, hunused⟩
      exact ⟨cname, hcname, ⟨rfl, rfl⟩, hunused⟩

/-- What a run reports about rejected columns. -/
theorem columnRejectedMsg_mem_iff {st : MigrationState} (h : m.migrateDdlStnames (some factory) q = .ok st)
    (stname : DdlStname) (cname : DdlCname) :
    columnRejectedMsg stname cname ∈ st.stnamesMigrationMsgs ↔
      stname ∈ m.stnameUsedcols.keys ∧ cname ∈ m.rejectedBy factory q stname ∧
        m.stnameUsedcols.usedColumn (.ofStname stname cname.name) = false := by
  have htarget : columnRejectedMsg stname cname ∉ m.fkTargetMsgs st.queries := by
    intro hmem
    obtain ⟨stname', -, heq⟩ := List.mem_map.mp hmem
    have hlevel := congrArg (fun msg : DdlStnamesMigrationMsg => msg.msg.level) heq
    cases hlevel
  rw [(migrated_of_migrateDdlStnames h).msgs _ rfl, or_iff_left htarget]
  simp only [columnRejectedMsg_mem_tableMsgs_iff]
  constructor
  · rintro ⟨stname', hstname, rfl, hrejected⟩
    exact ⟨hstname, hrejected⟩
  · rintro ⟨hstname, hrejected⟩
    exact ⟨stname, hstname, rfl, hrejected⟩

/-- A run reports the used ones of its rejected columns, once each, exactly when it rejects none. -/
theorem migrateDdlStnames_columnRejectedMsgs_iff {st : MigrationState}
    (h : m.migrateDdlStnames (some factory) q = .ok st) :
    (∀ stname cname, st.stnamesMigrationMsgs.count (columnRejectedMsg stname cname) =
        if stname ∈ m.stnameUsedcols.keys ∧ cname ∈ m.rejectedBy factory q stname ∧
          m.stnameUsedcols.usedColumn (.ofStname stname cname.name) = true then 1 else 0) ↔
      ∀ stname ∈ m.stnameUsedcols.keys, m.rejectedBy factory q stname = [] := by
  constructor
  · intro hcount stname hstname
    rw [List.eq_nil_iff_forall_not_mem]
    intro cname hcname
    have hmem := columnRejectedMsg_mem_iff h stname cname
    have hone := hcount stname cname
    rw [← List.count_pos_iff, hone] at hmem
    cases hused : m.stnameUsedcols.usedColumn (.ofStname stname cname.name) with
    | true => simp [hstname, hcname, hused] at hmem
    | false => simp [hstname, hcname, hused] at hmem
  · intro hnone stname cname
    have hrejected : ¬ (stname ∈ m.stnameUsedcols.keys ∧ cname ∈ m.rejectedBy factory q stname) := by
      rintro ⟨hstname, hcname⟩
      rw [hnone stname hstname] at hcname
      cases hcname
    have hmem := columnRejectedMsg_mem_iff h stname cname
    rw [if_neg (fun hused => hrejected ⟨hused.1, hused.2.1⟩), List.count_eq_zero, hmem]
    exact fun hunused => hrejected ⟨hunused.1, hunused.2.1⟩

end Factory

end SqlsvrDdlStnamesMigrator

/-- A source file that uses one column of one table. -/
def usesColumn (stname : DdlStname) (cname : DdlCname) : SqlsvrDdlStnamesMigrator where
  stnameUsedcols := ⟨[(stname, {cname})], List.nodup_singleton stname⟩
  haveUsedcols := true
  assumedIdents := ∅

/-- The metadata of `dbo.t` with an accepted column. -/
def acceptedT : SqlsvrDdlQueries :=
  { keyedT with tcMapper := ⟨[(dboT, [plainTcRec "a" "int"])], by decide⟩ }

theorem migrateDdlStnames_columnRejectedMsgs_accepted :
    ∃ st, (usesColumn dboT (.ofText "a".toList)).migrateDdlStnames (some (HsqldbTableMigrator.factory intPrefs 0))
        acceptedT = .ok st ∧
      ∀ stname cname, st.stnamesMigrationMsgs.count (columnRejectedMsg stname cname) =
        if stname ∈ (usesColumn dboT (.ofText "a".toList)).stnameUsedcols.keys ∧
          cname ∈ (usesColumn dboT (.ofText "a".toList)).rejectedBy (HsqldbTableMigrator.factory intPrefs 0) acceptedT
            stname ∧
          (usesColumn dboT (.ofText "a".toList)).stnameUsedcols.usedColumn (.ofStname stname cname.name) = true
        then 1 else 0 := by
  refine ⟨_, rfl, (SqlsvrDdlStnamesMigrator.migrateDdlStnames_columnRejectedMsgs_iff rfl).mpr ?_⟩
  intro stname hstname
  obtain rfl : stname = dboT := List.mem_singleton.mp hstname
  rfl

/-- The used column `a` of `dbo.t` is rejected, and nothing is said about it. -/
theorem migrateDdlStnames_rejected_unreported :
    ∃ st, (usesColumn dboT (.ofText "a".toList)).migrateDdlStnames (some (HsqldbTableMigrator.factory intPrefs 0))
        keyedT = .ok st ∧
      .ofText "a".toList ∈ (usesColumn dboT (.ofText "a".toList)).rejectedBy
        (HsqldbTableMigrator.factory intPrefs 0) keyedT dboT ∧
      (usesColumn dboT (.ofText "a".toList)).stnameUsedcols.usedColumn (.ofStname dboT "a".toList) = true ∧
      st.stnamesMigrationMsgs.count (columnRejectedMsg dboT (.ofText "a".toList)) = 0 := by
  refine ⟨_, rfl, by decide, by decide, by decide⟩

end Middle.SqlsvrDdl
