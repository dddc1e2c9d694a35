import Middle.SqlsvrDdl.HideRejected
import Middle.SqlsvrDdl.Run

/-! Primary keys and unique constraints behind a run for HSQLDB. Rejected columns are taken out of them, so
what is left of a key over several columns can be stronger than the key was. -/

namespace Middle.SqlsvrDdl

open Lib Universals NormalDdl MiddleApp

namespace SqlsvrDdlQueries

/-- The column belongs to the primary key of its table. -/
def PkColumn (q : SqlsvrDdlQueries) (stname : DdlStname) (cname : DdlCname) : Prop :=
  cname ∈ ((q.findTc stname).getD []).map SqlsvrDdlTcRec.cname ∧
    (q.findPk (.ofStname stname cname.name) true).isSome

/-- The column belongs to a unique constraint of its table. -/
def UqColumn (q : SqlsvrDdlQueries) (stname : DdlStname) (constraintName : Text) (cname : DdlCname) : Prop :=
  cname ∈ ((q.findTc stname).getD []).map SqlsvrDdlTcRec.cname ∧
    ∃ uqRec ∈ (q.findUq (.ofStname stname cname.name)).getD [], uqRec.constraintName = constraintName

end SqlsvrDdlQueries

/-- A column is the one that a rejected full name stands for, or that its parts stand for. -/
def RejectedAs (K : Finset DdlStcname) (stname : DdlStname) (cname : DdlCname) : Prop :=
  .ofStname stname cname.name ∈ K ∨ ∃ k ∈ K, k.stname = stname ∧ k.cname = cname

theorem RejectedAs.mono {K L : Finset DdlStcname} (hKL : K ⊆ L) {stname : DdlStname} {cname : DdlCname}
    (h : RejectedAs K stname cname) : RejectedAs L stname cname := by
  rcases h with hk | ⟨k, hk, hparts⟩
  · exact .inl (hKL hk)
  · exact .inr ⟨k, hKL hk, hparts⟩

/-! ### Visible columns -/

theorem mem_hideFirsts {p : DdlCname → Bool} {tcRecs : List SqlsvrDdlTcRec}
    {tcRec : SqlsvrDdlTcRec} (h : tcRec ∈ tcRecs) (hp : p tcRec.cname = false) : tcRec ∈ hideFirsts p tcRecs := by
  induction tcRecs generalizing p with
  | nil => cases h
  | cons tcRec' tcRecs ih =>
      rw [hideFirsts]
      rcases List.mem_cons.mp h with rfl | h
      · rw [hp, Bool.or_false]
        exact List.mem_cons_self
      · exact List.mem_cons_of_mem _ (ih h (by simp [hp]))

namespace SqlsvrDdlQueries

variable {q : SqlsvrDdlQueries} {K : Finset DdlStcname} {stname : DdlStname} {cname : DdlCname}

theorem mem_cnames_of_mem_visibleCnames (h : cname ∈ (q.hideAll K).visibleCnames stname) :
    cname ∈ ((q.findTc stname).getD []).map SqlsvrDdlTcRec.cname := by
  unfold visibleCnames at h
  rw [findTc_hideAll] at h
  cases htc : q.findTc stname with
  | none => simp [htc] at h
  | some tcRecs =>
      rw [htc, Option.map_some, Option.getD_some, List.mem_map] at h
      obtain ⟨tcRec, htcRec, rfl⟩ := h
      rw [Option.getD_some, ← map_hideFirsts (fun _ _ => rfl)]
      exact List.mem_map_of_mem (List.mem_of_mem_filter htcRec)

theorem mem_visibleCnames_of_not_rejectedAs {conns : List (List FkRow)} (hq : q.Loaded conns)
    (h : cname ∈ ((q.findTc stname).getD []).map SqlsvrDdlTcRec.cname) (hkept : ¬ RejectedAs K stname cname) :
    cname ∈ (q.hideAll K).visibleCnames stname := by
  obtain ⟨tcRec, htcRec, rfl⟩ := List.mem_map.mp h
  have hunhidden := hq.tc stname tcRec htcRec
  unfold visibleCnames
  rw [findTc_hideAll]
  cases htc : q.findTc stname with
  | none => simp [htc] at htcRec
  | some tcRecs =>
      rw [htc, Option.getD_some] at htcRec
      rw [Option.map_some, Option.getD_some, List.mem_map]
      refine ⟨tcRec, List.mem_filter.mpr ⟨mem_hideFirsts htcRec ?_, by simp [hunhidden]⟩, rfl⟩
      exact decide_eq_false fun hparts => hkept (.inr hparts)

end SqlsvrDdlQueries

/-! ### Keys -/

namespace SqlsvrDdlStnamesMigrator

variable {m : SqlsvrDdlStnamesMigrator} {prefs : DdlTableMigratorPrefs} {fuel : Nat} {q : SqlsvrDdlQueries}
  {stname : DdlStname}

/-- The names of the columns in the primary key of a table as it is defined. -/
theorem pkCnames_of_migratesColumns (h : m.MigratesColumns prefs fuel q stname) :
    (q.findTableInfo stname).elim [] DdlTableInfo.pkCnames =
      ((m.columnMigrations prefs fuel q stname).map fun r => r.column.cname).filter
        fun cname => (q.findPk (.ofStname stname cname.name) true).isSome := by
  rw [h]
  unfold SqlsvrDdlQueries.findTableInfo
  cases q.findTc stname with
  | none => rfl
  | some tcRecs =>
      rw [Option.map_some, Option.elim_some, Option.getD_some, List.filter_map]
      rfl

/-- What is left of the primary key are its accepted columns. -/
theorem mem_keyCnames_iff (h : m.MigratesColumns prefs fuel q stname) {cname : DdlCname} :
    cname ∈ m.keyCnames prefs fuel q stname ↔
      (q.findPk (.ofStname stname cname.name) true).isSome ∧
        ∃ r ∈ m.columnMigrations prefs fuel q stname, r.rejected = false ∧ r.column.cname = cname := by
  unfold keyCnames rejectedCnames
  rw [pkCnames_of_migratesColumns h]
  generalize m.columnMigrations prefs fuel q stname = rs
  have hcount : (rs.map fun r => r.column.cname).count cname =
      ((rs.filter ColumnMigration.rejected).map fun r => r.column.cname).count cname +
        rs.countP fun r => r.column.cname = cname ∧ r.rejected = false := by
    induction rs with
    | nil => rfl
    | cons r rs ih =>
        cases hr : r.rejected <;> by_cases hcname : r.column.cname = cname <;>
          simp [hr, hcname, ih] <;> omega
  rw [← List.count_pos_iff, List.count_diff]
  by_cases hpk : (q.findPk (.ofStname stname cname.name) true).isSome
  · have hall : List.count cname ((rs.map fun r => r.column.cname).filter
        fun cname => (q.findPk (.ofStname stname cname.name) true).isSome) =
          List.count cname (rs.map fun r => r.column.cname) := List.count_filter hpk
    rw [hall, hcount, Nat.add_sub_cancel_left, List.countP_pos_iff]
    simp [hpk, and_comm]
  · have hnone : List.count cname ((rs.map fun r => r.column.cname).filter
        fun cname => (q.findPk (.ofStname stname cname.name) true).isSome) = 0 := by
      rw [List.count_eq_zero]
      intro hmem
      exact hpk (List.mem_filter.mp hmem).2
    rw [hnone]
    simp [hpk]

theorem primaryKey_notMem_columnChunks {cnames : List DdlCname} (prev : Bool) (rs : List ColumnMigration) :
    .primaryKey cnames ∉ columnChunks stname prev rs := by
  induction rs generalizing prev with
  | nil => exact List.not_mem_nil
  | cons r rs ih =>
      have hchunk : r.chunk stname ≠ .primaryKey cnames := by
        unfold ColumnMigration.chunk
        split <;> simp
      unfold columnChunks
      cases prev <;> simp [ih, hchunk.symm]

theorem primaryKey_mem_tableChunks_iff {cnames : List DdlCname} :
    .primaryKey cnames ∈ m.tableChunks prefs fuel q stname ↔
      cnames ≠ [] ∧ cnames = m.keyCnames prefs fuel q stname := by
  unfold tableChunks
  dsimp only
  rw [List.mem_append, or_iff_right (primaryKey_notMem_columnChunks _ _)]
  by_cases hnil : m.keyCnames prefs fuel q stname = []
  · rw [if_pos hnil, hnil]
    simp
  · rw [if_neg hnil]
    constructor
    · intro hmem
      obtain rfl : cnames = m.keyCnames prefs fuel q stname := by
        split at hmem <;> simpa using hmem
      exact ⟨hnil, rfl⟩
    · rintro ⟨-, rfl⟩
      simp

theorem uqCnames_hideAll {conns : List (List FkRow)} (hq : q.Loaded conns) (K : Finset DdlStcname)
    (stname : DdlStname) (name : Text) (cname : DdlCname) :
    (cname ∈ (q.hideAll K).uqCnames stname name → q.UqColumn stname name cname ∧ .ofStname stname cname.name ∉ K) ∧
      (q.UqColumn stname name cname → cname ∉ (q.hideAll K).uqCnames stname name →
        RejectedAs K stname cname) := by
  rw [SqlsvrDdlQueries.mem_uqCnames_iff, SqlsvrDdlQueries.mem_visibleUqs_hideAll_iff]
  constructor
  · rintro ⟨hvisible, hkept, uqRec, huqRec, -, hname⟩
    exact ⟨⟨SqlsvrDdlQueries.mem_cnames_of_mem_visibleCnames hvisible, uqRec, huqRec, hname⟩, hkept⟩
  · rintro ⟨hcname, uqRec, huqRec, hname⟩ hmissing
    by_contra hkept
    exact hmissing ⟨SqlsvrDdlQueries.mem_visibleCnames_of_not_rejectedAs hq hcname hkept,
      fun hk => hkept (.inl hk), uqRec, huqRec, hq.uq _ uqRec huqRec, hname⟩

end SqlsvrDdlStnamesMigrator

/-- Metadata of `dbo.t` with a column `a XML`, a column `b INT` and the primary key of both. -/
def keyedT : SqlsvrDdlQueries where
  ckMapper := ∅
  fkMapper := .empty
  pkMapper := ⟨[(.ofStname dboT "a".toList, {}), (.ofStname dboT "b".toList, {})], by decide⟩
  uqMapper := ∅
  tcMapper := ⟨[(dboT, [plainTcRec "a" "xml", plainTcRec "b" "int"])], by decide⟩

theorem keyedT_loaded : keyedT.Loaded [] := by
  apply SqlsvrDdlQueries.loaded_of_entries
  · rfl
  · decide
  · decide
  · decide
  · decide

/-- What a run writes for `dbo.t` between the parentheses. -/
def keyedTChunks : List TableChunk :=
  [.rejected (.ofStname dboT "a".toList) "XML".toList, .column (.ofText "b".toList) "b INT".toList, .comma,
    .primaryKey [.ofText "b".toList]]

/-- The same with a unique constraint over both columns. -/
def uniqueT : SqlsvrDdlQueries :=
  { keyedT with
    uqMapper := ⟨[(.ofStname dboT "a".toList, [⟨false, "uq_t".toList⟩]),
      (.ofStname dboT "b".toList, [⟨false, "uq_t".toList⟩])], by decide⟩ }

theorem uniqueT_loaded : uniqueT.Loaded [] := by
  apply SqlsvrDdlQueries.loaded_of_entries
  · rfl
  · decide
  · decide
  · decide
  · decide

/-- Columns that take in all of a key or a unique constraint of their table. -/
def CoversKey (q : SqlsvrDdlQueries) (stname : DdlStname) (cnames : List DdlCname) : Prop :=
  ((∃ cname, q.PkColumn stname cname) ∧ ∀ cname, q.PkColumn stname cname → cname ∈ cnames) ∨
    ∃ name, (∃ cname, q.UqColumn stname name cname) ∧ ∀ cname, q.UqColumn stname name cname → cname ∈ cnames

end Middle.SqlsvrDdl
