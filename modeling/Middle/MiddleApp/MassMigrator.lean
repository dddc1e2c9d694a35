import Middle.SqlsvrDdl.ForeignKeys
import Middle.SqlsvrDdl.History

/-! The migration of source files without batches (`ddl_mass_migrator`). The migrators of all files share the
metadata, in which the columns rejected for one file stay hidden for the files behind it. -/

namespace Middle.MiddleApp

open Lib Universals NormalDdl SqlsvrDdl

/-- What is written to the target of a source file below its header, the messages not sorted yet. -/
structure TargetDdl where
  statements : List DdlStatement
  stnamesMigrationMsgs : List DdlStnamesMigrationMsg

section Factory

variable {σ : Type} (appTableMigratorFactory : DdlTableMigratorFactory σ)

/-- `mass_migrate_target_ddl` without a batch; for a source file that uses no tables it writes nothing. -/
def massMigrateTargetDdl (m : SqlsvrDdlStnamesMigrator) (q : SqlsvrDdlQueries) :
    Except Fault (Option TargetDdl × SqlsvrDdlQueries) :=
  if m.stnameUsedcols.keys = [] then .ok (none, q)
  else do
    let st ← m.migrateDdlStnames (some appTableMigratorFactory) q
    return (some ⟨st.statements, st.stnamesMigrationMsgs⟩, st.queries)

/-- The loop of `mass_migrate_ddl` over the source files that are read, which an exception ends. -/
def massMigrateDdl : List SqlsvrDdlStnamesMigrator → SqlsvrDdlQueries →
    Except Fault (List (Option TargetDdl) × SqlsvrDdlQueries)
  | [], q => .ok ([], q)
  | m :: files, q => do
      let (target, q) ← massMigrateTargetDdl appTableMigratorFactory m q
      let (targets, q) ← massMigrateDdl files q
      return (target :: targets, q)

end Factory

section Hsqldb

variable {prefs : DdlTableMigratorPrefs} {fuel : Nat} {q : SqlsvrDdlQueries} {L : Finset DdlStcname}

/-- The full names of the columns that a run over source files rejects. -/
def rejectedInFiles (prefs : DdlTableMigratorPrefs) (fuel : Nat) (q : SqlsvrDdlQueries) :
    List SqlsvrDdlStnamesMigrator → Finset DdlStcname
  | [] => ∅
  | m :: files => m.rejectedIn prefs fuel q m.sortStnames ∪ rejectedInFiles prefs fuel q files

/-- What the migration of a source file changes in the metadata. -/
theorem queries_of_massMigrateTargetDdl {m : SqlsvrDdlStnamesMigrator} {target : Option TargetDdl}
    {q' : SqlsvrDdlQueries}
    (h : massMigrateTargetDdl (HsqldbTableMigrator.factory prefs fuel) m q = .ok (target, q')) :
    q' = q.hideAll (m.rejectedIn prefs fuel q m.sortStnames) := by
  unfold massMigrateTargetDdl at h
  split at h
  · rename_i hnil
    cases h
    have hnone : m.sortStnames = [] := by
      unfold SqlsvrDdlStnamesMigrator.sortStnames
      rw [hnil]
      rfl
    rw [hnone, SqlsvrDdlStnamesMigrator.rejectedIn_nil, q.hideAll_empty]
  · rw [bind_eq_ok] at h
    obtain ⟨st, hst, h⟩ := h
    cases h
    rw [← q.hideAll_empty] at hst
    have hqueries := (SqlsvrDdlStnamesMigrator.migrateDdlStnames_eq_ok hst).1
    rwa [Finset.empty_union] at hqueries

theorem massMigrateTargetDdl_hideAll {m : SqlsvrDdlStnamesMigrator} (h : m.Undisturbed prefs fuel q L) :
    massMigrateTargetDdl (HsqldbTableMigrator.factory prefs fuel) m (q.hideAll L) =
      (massMigrateTargetDdl (HsqldbTableMigrator.factory prefs fuel) m q).map
        fun behind => (behind.1, behind.2.hideAll L) := by
  unfold massMigrateTargetDdl
  split
  · rfl
  · rw [SqlsvrDdlStnamesMigrator.migrateDdlStnames_hideAll h]
    cases m.migrateDdlStnames (some (HsqldbTableMigrator.factory prefs fuel)) q with
    | error e => rfl
    | ok st => rfl

theorem massMigrateDdl_hideAll {files : List SqlsvrDdlStnamesMigrator}
    (h : ∀ before m behind, files = before ++ m :: behind →
      m.Undisturbed prefs fuel q (L ∪ rejectedInFiles prefs fuel q before)) :
    (massMigrateDdl (HsqldbTableMigrator.factory prefs fuel) files (q.hideAll L)).map Prod.fst =
      files.mapM fun m => (massMigrateTargetDdl (HsqldbTableMigrator.factory prefs fuel) m q).map Prod.fst := by
  induction files generalizing L with
  | nil => rfl
  | cons m files ih =>
      obtain ⟨hhead, htail⟩ := SqlsvrDdlStnamesMigrator.forall_split_cons_iff.mp h
      rw [rejectedInFiles, Finset.union_empty] at hhead
      rw [massMigrateDdl, massMigrateTargetDdl_hideAll hhead, List.mapM_cons]
      cases htarget : massMigrateTargetDdl (HsqldbTableMigrator.factory prefs fuel) m q with
      | error e => rfl
      | ok behind =>
          obtain ⟨target, q'⟩ := behind
          have hq' : q'.hideAll L = q.hideAll (L ∪ m.rejectedIn prefs fuel q m.sortStnames) := by
            rw [queries_of_massMigrateTargetDdl htarget, SqlsvrDdlQueries.hideAll_hideAll, Finset.union_comm]
          have hrest := ih (L := L ∪ m.rejectedIn prefs fuel q m.sortStnames) (by
            intro before m' behind' hsplit
            rw [Finset.union_assoc]
            exact htail before m' behind' hsplit)
          rw [← hrest]
          dsimp only [Except.map, bind, Except.bind]
          rw [hq']
          cases massMigrateDdl (HsqldbTableMigrator.factory prefs fuel) files
            (q.hideAll (L ∪ m.rejectedIn prefs fuel q m.sortStnames)) with
          | error e => rfl
          | ok targets => rfl

/-- In a run in which no column rejected for a source file hides a constraint that a later file leaves, each
file is migrated as on its own. -/
theorem massMigrateDdl_eq_mapM {files : List SqlsvrDdlStnamesMigrator}
    (h : ∀ before m behind, files = before ++ m :: behind →
      m.Undisturbed prefs fuel q (rejectedInFiles prefs fuel q before)) :
    (massMigrateDdl (HsqldbTableMigrator.factory prefs fuel) files q).map Prod.fst =
      files.mapM fun m => (massMigrateTargetDdl (HsqldbTableMigrator.factory prefs fuel) m q).map Prod.fst := by
  have hrun := massMigrateDdl_hideAll (L := ∅) (by simpa using h)
  rwa [q.hideAll_empty] at hrun

end Hsqldb

/-- The metadata of `dbo.r` with `a INT` and `b XML`, and of `dbo.t` with `a INT` and `b INT`. -/
def rAndT (fkMapper : SqlsvrDdlFkMapper) : SqlsvrDdlQueries where
  ckMapper := ∅
  fkMapper
  pkMapper := ∅
  uqMapper := ∅
  tcMapper := ⟨[(dboR, [plainTcRec "a" "int", plainTcRec "b" "xml"]),
    (dboT, [plainTcRec "a" "int", plainTcRec "b" "int"])], by decide⟩

/-- A file that rejects `dbo.r.b` leaves the foreign key from `dbo.t.a` to `dbo.r.a` of the next one. -/
theorem massMigrateDdl_keeps_fk :
    ∃ m, loadFkMapper [[tToR "fk" "a"]] = .ok ⟨m, []⟩ ∧
      (massMigrateDdl (HsqldbTableMigrator.factory intPrefs 0) [usesTable dboR, usesTable dboT] (rAndT m)).map
          Prod.fst =
        [usesTable dboR, usesTable dboT].mapM fun file =>
          (massMigrateTargetDdl (HsqldbTableMigrator.factory intPrefs 0) file (rAndT m)).map Prod.fst := by
  refine ⟨_, rfl, massMigrateDdl_eq_mapM ?_⟩
  rw [SqlsvrDdlStnamesMigrator.forall_split_cons_iff, SqlsvrDdlStnamesMigrator.forall_split_cons_iff]
  refine ⟨SqlsvrDdlStnamesMigrator.undisturbed_empty, ?_, ?_⟩
  · constructor
    · rintro before stname behind hsplit cname hvisible hkept (hck | huq)
      · exact absurd rfl hck
      · exact absurd rfl huq
    · intro stname hstname
      obtain rfl : stname = dboT := List.mem_singleton.mp hstname
      decide
  · intro before file behind hnil
    simp at hnil

/-- The foreign key from `dbo.t.b` to `dbo.r.b` is written for a file that uses `dbo.t`, but not behind one that
rejects `dbo.r.b`. -/
theorem massMigrateDdl_loses_fk :
    ∃ m target targetR targetT, loadFkMapper [[tToR "fk" "b"]] = .ok ⟨m, []⟩ ∧
      (massMigrateDdl (HsqldbTableMigrator.factory intPrefs 0) [usesTable dboT] (rAndT m)).map Prod.fst =
        .ok [some target] ∧
      (massMigrateDdl (HsqldbTableMigrator.factory intPrefs 0) [usesTable dboR, usesTable dboT] (rAndT m)).map
        Prod.fst = .ok [some targetR, some targetT] ∧
      (tToR "fk" "b").foreignKey ∈ target.statements ∧ (tToR "fk" "b").foreignKey ∉ targetT.statements := by
  refine ⟨_, _, _, _, rfl, rfl, rfl, ?_, ?_⟩
  · decide
  · decide

end Middle.MiddleApp
