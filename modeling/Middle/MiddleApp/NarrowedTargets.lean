import Middle.Lib.Checked
import Middle.MiddleApp.MassMigrator
import Middle.SqlsvrDdl.NarrowedRuns

/-! What the source files of a mass migration do to each other. The columns rejected for a file stay rejected for
those behind it. This never makes a migration fail, and never costs a target a table: a target loses constraints. So
in whatever order the files are read, the migration ends alike, with the same schemas and tables. -/

namespace Middle.MiddleApp

open Lib Universals NormalDdl SqlsvrDdl

/-- A target, and what it is when columns are rejected beforehand. -/
structure TargetDdl.NarrowsTo (target target' : TargetDdl) : Prop where
  statements : LosesConstraints target.statements target'.statements
  stnamesMigrationMsgs : LosesFkTargetMsgs target.stnamesMigrationMsgs target'.stnamesMigrationMsgs

/-- The schemas and tables of a target, each table with its columns and key. -/
def TargetDdl.created (target : TargetDdl) : List DdlStatement :=
  target.statements.filter fun statement => !addsConstraint statement

theorem TargetDdl.NarrowsTo.created_eq {target target' : TargetDdl} (h : target.NarrowsTo target') :
    target'.created = target.created := by
  have hfilterMap := h.statements.filterMap_eq (f := Option.guard fun statement => !addsConstraint statement)
  unfold TargetDdl.created
  rw [← List.filterMap_eq_filter]
  apply hfilterMap
  · intro statement hdropped
    simp [Option.guard, hdropped]
  · rintro _ _ (⟨⟩ | ⟨_⟩) <;> rfl

section Hsqldb

variable {prefs : DdlTableMigratorPrefs} {fuel : Nat} {q : SqlsvrDdlQueries}

theorem massMigrateTargetDdl_narrowsTo (prefs : DdlTableMigratorPrefs) (fuel : Nat) (m : SqlsvrDdlStnamesMigrator)
    (q : SqlsvrDdlQueries) (L : Finset DdlStcname) :
    SideBySide (fun behind behind' => Option.Rel TargetDdl.NarrowsTo behind.1 behind'.1)
      (massMigrateTargetDdl (HsqldbTableMigrator.factory prefs fuel) m q)
      (massMigrateTargetDdl (HsqldbTableMigrator.factory prefs fuel) m (q.hideAll L)) := by
  unfold massMigrateTargetDdl
  split
  · exact .ok .none
  · refine (m.migrateDdlStnames_narrowsTo prefs fuel q L).bind ?_
    intro st st' h
    exact .ok (.some ⟨h.statements, h.stnamesMigrationMsgs⟩)

/-- The loop over files behind others, beside each file on its own. -/
theorem massMigrateDdl_hideAll_narrowsTo (prefs : DdlTableMigratorPrefs) (fuel : Nat) (q : SqlsvrDdlQueries)
    (files : List SqlsvrDdlStnamesMigrator) (L : Finset DdlStcname) :
    SideBySide (fun alone behind => List.Forall₂ (Option.Rel TargetDdl.NarrowsTo) alone behind.1)
      (files.mapM fun m => (massMigrateTargetDdl (HsqldbTableMigrator.factory prefs fuel) m q).map Prod.fst)
      (massMigrateDdl (HsqldbTableMigrator.factory prefs fuel) files (q.hideAll L)) := by
  induction files generalizing L with
  | nil => exact .ok .nil
  | cons m files ih =>
      have hfile := massMigrateTargetDdl_narrowsTo prefs fuel m q L
      rw [List.mapM_cons, massMigrateDdl]
      cases hbehind : massMigrateTargetDdl (HsqldbTableMigrator.factory prefs fuel) m (q.hideAll L) with
      | error e =>
          rw [hbehind] at hfile
          generalize massMigrateTargetDdl (HsqldbTableMigrator.factory prefs fuel) m q = alone at hfile
          cases hfile
          exact .error e
      | ok behind =>
          obtain ⟨target', q'⟩ := behind
          have hq' := queries_of_massMigrateTargetDdl hbehind
          rw [hbehind] at hfile
          generalize massMigrateTargetDdl (HsqldbTableMigrator.factory prefs fuel) m q = alone at hfile
          obtain - | ⟨htarget⟩ := hfile
          rw [SqlsvrDdlQueries.hideAll_hideAll] at hq'
          subst hq'
          refine (ih _).bind ?_
          intro targets behind htargets
          exact .ok (.cons htarget htargets)

/-- A mass migration ends exactly when that of each of its files on its own does, and throws what the first file
throws that does not end. The target of each file is that of the file on its own, but for constraints and their
columns that get lost, warnings about targets of foreign keys that get lost with them, and the lines of messages. -/
theorem massMigrateDdl_narrowsTo (files : List SqlsvrDdlStnamesMigrator) :
    SideBySide (fun alone behind => List.Forall₂ (Option.Rel TargetDdl.NarrowsTo) alone behind.1)
      (files.mapM fun m => (massMigrateTargetDdl (HsqldbTableMigrator.factory prefs fuel) m q).map Prod.fst)
      (massMigrateDdl (HsqldbTableMigrator.factory prefs fuel) files q) := by
  have hrun := massMigrateDdl_hideAll_narrowsTo prefs fuel q files ∅
  rwa [q.hideAll_empty] at hrun

/-! ### Files in another order -/

theorem rejectedIn_hideAll (m : SqlsvrDdlStnamesMigrator) (q : SqlsvrDdlQueries) (L : Finset DdlStcname)
    (stnames : List DdlStname) :
    m.rejectedIn prefs fuel (q.hideAll L) stnames = m.rejectedIn prefs fuel q stnames := by
  unfold SqlsvrDdlStnamesMigrator.rejectedIn SqlsvrDdlStnamesMigrator.rejectedCnames
    SqlsvrDdlStnamesMigrator.columnMigrations
  simp only [SqlsvrDdlQueries.findTableInfo_hideAll]

/-- What the migration of source files changes in the metadata. -/
theorem queries_of_massMigrateDdl {files : List SqlsvrDdlStnamesMigrator} {L : Finset DdlStcname}
    {targets : List (Option TargetDdl)} {q' : SqlsvrDdlQueries}
    (h : massMigrateDdl (HsqldbTableMigrator.factory prefs fuel) files (q.hideAll L) = .ok (targets, q')) :
    q' = q.hideAll (L ∪ rejectedInFiles prefs fuel q files) := by
  induction files generalizing L targets with
  | nil =>
      cases h
      rw [rejectedInFiles, Finset.union_empty]
  | cons m files ih =>
      rw [massMigrateDdl, bind_eq_ok] at h
      obtain ⟨⟨target, q₁⟩, htarget, h⟩ := h
      rw [bind_eq_ok] at h
      obtain ⟨⟨targets, q₂⟩, hrest, h⟩ := h
      cases h
      have hq₁ := queries_of_massMigrateTargetDdl htarget
      rw [rejectedIn_hideAll, SqlsvrDdlQueries.hideAll_hideAll] at hq₁
      subst hq₁
      rw [ih hrest, rejectedInFiles, Finset.union_assoc]

theorem mem_rejectedInFiles_iff {files : List SqlsvrDdlStnamesMigrator} {k : DdlStcname} :
    k ∈ rejectedInFiles prefs fuel q files ↔ ∃ m ∈ files, k ∈ m.rejectedIn prefs fuel q m.sortStnames := by
  induction files with
  | nil => simp [rejectedInFiles]
  | cons m files ih => simp [rejectedInFiles, ih]

/-- What is created in the target of a source file that is migrated on its own; `none` where there is no target. -/
def createdAlone (prefs : DdlTableMigratorPrefs) (fuel : Nat) (q : SqlsvrDdlQueries)
    (m : SqlsvrDdlStnamesMigrator) : Option (List DdlStatement) :=
  match massMigrateTargetDdl (HsqldbTableMigrator.factory prefs fuel) m q with
  | .error _ => none
  | .ok behind => behind.1.map TargetDdl.created

theorem map_created_of_narrowsTo {alone targets : List (Option TargetDdl)}
    (h : List.Forall₂ (Option.Rel TargetDdl.NarrowsTo) alone targets) :
    targets.map (Option.map TargetDdl.created) = alone.map (Option.map TargetDdl.created) := by
  induction h with
  | nil => rfl
  | cons htarget _ ih =>
      rw [List.map_cons, List.map_cons, ih]
      cases htarget with
      | none => rfl
      | some htarget => rw [Option.map_some, Option.map_some, htarget.created_eq]

theorem map_created_of_mapM {files : List SqlsvrDdlStnamesMigrator} {alone : List (Option TargetDdl)}
    (h : files.mapM (fun m => (massMigrateTargetDdl (HsqldbTableMigrator.factory prefs fuel) m q).map Prod.fst) =
      .ok alone) : alone.map (Option.map TargetDdl.created) = files.map (createdAlone prefs fuel q) := by
  induction files generalizing alone with
  | nil =>
      cases h
      rfl
  | cons m files ih =>
      rw [List.mapM_cons, bind_eq_ok] at h
      obtain ⟨target, htarget, h⟩ := h
      rw [bind_eq_ok] at h
      obtain ⟨alone, halone, h⟩ := h
      cases h
      rw [List.map_cons, List.map_cons, ih halone]
      congr 1
      unfold createdAlone
      cases hbehind : massMigrateTargetDdl (HsqldbTableMigrator.factory prefs fuel) m q with
      | error e =>
          rw [hbehind] at htarget
          cases htarget
      | ok behind =>
          rw [hbehind] at htarget
          cases htarget
          rfl

/-- What a mass migration creates in the targets is what each file creates on its own. -/
theorem map_created_of_massMigrateDdl {files : List SqlsvrDdlStnamesMigrator} {targets : List (Option TargetDdl)}
    {q' : SqlsvrDdlQueries}
    (h : massMigrateDdl (HsqldbTableMigrator.factory prefs fuel) files q = .ok (targets, q')) :
    targets.map (Option.map TargetDdl.created) = files.map (createdAlone prefs fuel q) := by
  have hrun := massMigrateDdl_hideAll_narrowsTo prefs fuel q files ∅
  rw [q.hideAll_empty, h] at hrun
  cases halone : files.mapM fun m =>
    (massMigrateTargetDdl (HsqldbTableMigrator.factory prefs fuel) m q).map Prod.fst with
  | error e =>
      rw [halone] at hrun
      cases hrun
  | ok alone =>
      rw [halone] at hrun
      obtain - | ⟨htargets⟩ := hrun
      rw [map_created_of_narrowsTo htargets, map_created_of_mapM halone]

/-- Source files in another order: the migration ends all the same, creates the same schemas and tables in the target
of each file, and leaves the same metadata. -/
theorem massMigrateDdl_perm {files files' : List SqlsvrDdlStnamesMigrator} {targets : List (Option TargetDdl)}
    {q' : SqlsvrDdlQueries} (hperm : files'.Perm files)
    (h : massMigrateDdl (HsqldbTableMigrator.factory prefs fuel) files q = .ok (targets, q')) :
    ∃ targets', massMigrateDdl (HsqldbTableMigrator.factory prefs fuel) files' q = .ok (targets', q') ∧
      (files'.zip (targets'.map (Option.map TargetDdl.created))).Perm
        (files.zip (targets.map (Option.map TargetDdl.created))) := by
  have hends : ∀ files : List SqlsvrDdlStnamesMigrator,
      (∃ behind, massMigrateDdl (HsqldbTableMigrator.factory prefs fuel) files q = .ok behind) ↔
        ∀ m ∈ files, ∃ target,
          (massMigrateTargetDdl (HsqldbTableMigrator.factory prefs fuel) m q).map Prod.fst = .ok target := by
    intro files
    have hrun := massMigrateDdl_hideAll_narrowsTo prefs fuel q files ∅
    rw [q.hideAll_empty] at hrun
    rw [hrun.exists_ok_iff, exists_mapM_eq_ok_iff]
  have hall := (hends files).mp ⟨_, h⟩
  obtain ⟨⟨targets', q''⟩, h'⟩ := (hends files').mpr fun m hm => hall m (hperm.mem_iff.mp hm)
  have hqueries : q'' = q' := by
    have hq := h
    have hq' := h'
    rw [← q.hideAll_empty] at hq hq'
    rw [queries_of_massMigrateDdl hq, queries_of_massMigrateDdl hq']
    congr 2
    ext k
    simp only [mem_rejectedInFiles_iff, hperm.mem_iff]
  subst hqueries
  refine ⟨targets', h', ?_⟩
  have hzip : ∀ files : List SqlsvrDdlStnamesMigrator, files.zip (files.map (createdAlone prefs fuel q)) =
      files.map fun m => (m, createdAlone prefs fuel q m) := by
    intro files
    rw [List.zip_eq_zipWith, List.zipWith_map_right, List.zipWith_self]
  rw [map_created_of_massMigrateDdl h, map_created_of_massMigrateDdl h', hzip, hzip]
  exact hperm.map _

end Hsqldb

/-- Two files, the first of which rejects a column that a foreign key of the other one references. -/
theorem massMigrateDdl_perm_r_t :
    ∃ m targets targets' q', loadFkMapper [[tToR "fk" "b"]] = .ok ⟨m, []⟩ ∧
      massMigrateDdl (HsqldbTableMigrator.factory intPrefs 0) [usesTable dboR, usesTable dboT] (rAndT m) =
        .ok (targets, q') ∧
      massMigrateDdl (HsqldbTableMigrator.factory intPrefs 0) [usesTable dboT, usesTable dboR] (rAndT m) =
        .ok (targets', q') ∧
      ([usesTable dboT, usesTable dboR].zip (targets'.map (Option.map TargetDdl.created))).Perm
        ([usesTable dboR, usesTable dboT].zip (targets.map (Option.map TargetDdl.created))) := by
  obtain ⟨m, hm⟩ : ∃ m, loadFkMapper [[tToR "fk" "b"]] = .ok ⟨m, []⟩ := ⟨_, rfl⟩
  obtain ⟨targets, q', hrun⟩ : ∃ targets q', massMigrateDdl (HsqldbTableMigrator.factory intPrefs 0)
      [usesTable dboR, usesTable dboT] (rAndT m) = .ok (targets, q') := by
    cases hm
    exact ⟨_, _, rfl⟩
  obtain ⟨targets', hrun', hperm⟩ := massMigrateDdl_perm (List.Perm.swap _ _ []) hrun
  exact ⟨m, targets, targets', q', hm, hrun, hrun', hperm⟩

end Middle.MiddleApp
