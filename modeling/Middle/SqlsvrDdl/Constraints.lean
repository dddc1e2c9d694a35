import Middle.SqlsvrDdl.StnamesMigrator

/-! The constraints written for a table. Checks and foreign keys are written record by record; the unique
records of the visible columns are grouped by their constraint names, and each group is written once, with
its columns in the order of the table. -/

namespace Middle.SqlsvrDdl

open Lib Universals NormalDdl

namespace SqlsvrDdlQueries

/-- The unhidden unique records of the visible columns of a table, by constraint name and column. -/
def visibleUqs (q : SqlsvrDdlQueries) (stname : DdlStname) : List (Text × DdlCname) :=
  (q.visibleCnames stname).flatMap fun cname =>
    (((q.findUq (.ofStname stname cname.name)).getD []).filter fun uqRec => !uqRec.hidden).map
      fun uqRec => (uqRec.constraintName, cname)

/-- The columns of the records of a constraint. -/
def uqCnames (q : SqlsvrDdlQueries) (stname : DdlStname) (constraintName : Text) : List DdlCname :=
  ((q.visibleUqs stname).filter fun uq => uq.1 = constraintName).map Prod.snd

theorem mapUqrecColnames_eq_foldl (q : SqlsvrDdlQueries) (stname : DdlStname) :
    q.mapUqrecColnames stname =
      (q.visibleUqs stname).foldl (fun uqrecColnames uq => uqrecColnames.pushBack uq.1 uq.2) ∅ := by
  unfold mapUqrecColnames visibleUqs
  rw [List.foldl_flatMap]
  congr 1
  funext uqrecColnames cname
  rw [List.foldl_map]
  rfl

theorem find_pushBack (uqrecColnames : DdlUqrecColnames) (constraintName name : Text) (cname : DdlCname) :
    (uqrecColnames.pushBack constraintName cname).find name =
      if name = constraintName then some ((uqrecColnames.find name).getD [] ++ [cname])
      else uqrecColnames.find name := by
  unfold DdlUqrecColnames.pushBack
  split
  · rename_i cnames hfind
    rw [UnorderedMap.modify, UnorderedMap.find_mapValues]
    by_cases hname : name = constraintName
    · simp [hname, hfind]
    · simp [hname]
  · rename_i hfind
    rw [UnorderedMap.find_insert]
    by_cases hname : name = constraintName
    · simp [hname, hfind]
    · simp [hname]

/-- Pushing pairs back groups the second components by the first ones. -/
theorem find_foldl_pushBack (uqs : List (Text × DdlCname)) (uqrecColnames : DdlUqrecColnames) (name : Text) :
    (uqs.foldl (fun uqrecColnames uq => uqrecColnames.pushBack uq.1 uq.2) uqrecColnames).find name =
      if (uqs.filter fun uq => uq.1 = name) = [] then uqrecColnames.find name
      else some ((uqrecColnames.find name).getD [] ++ (uqs.filter fun uq => uq.1 = name).map Prod.snd) := by
  induction uqs generalizing uqrecColnames with
  | nil => rfl
  | cons uq uqs ih =>
      rw [List.foldl_cons, ih, find_pushBack]
      by_cases hname : uq.1 = name
      · rw [List.filter_cons_of_pos (by simpa using hname), if_pos hname.symm,
          if_neg (List.cons_ne_nil _ _), List.map_cons]
        by_cases hnil : (uqs.filter fun uq => uq.1 = name) = []
        · simp [hnil]
        · simp [hnil]
      · rw [List.filter_cons_of_neg (by simpa using hname), if_neg (Ne.symm hname)]

theorem find_mapUqrecColnames (q : SqlsvrDdlQueries) (stname : DdlStname) (name : Text) :
    (q.mapUqrecColnames stname).find name =
      if q.uqCnames stname name = [] then none else some (q.uqCnames stname name) := by
  rw [mapUqrecColnames_eq_foldl, find_foldl_pushBack, uqCnames]
  by_cases hnil : ((q.visibleUqs stname).filter fun uq => uq.1 = name) = []
  · simp [hnil]
  · rw [if_neg hnil, if_neg (by rwa [List.map_eq_nil_iff])]
    rfl

/-- The statements `migrate_uq_constraints_ddl` writes. -/
def uqStatements (q : SqlsvrDdlQueries) (stname : DdlStname) : List DdlStatement :=
  statementGroup ((sortUqConstraintNames (q.mapUqrecColnames stname)).map fun constraintName =>
    .addUnique stname (q.uqCnames stname constraintName) constraintName)

theorem mem_sortUqConstraintNames_iff (q : SqlsvrDdlQueries) (stname : DdlStname) (name : Text) :
    name ∈ sortUqConstraintNames (q.mapUqrecColnames stname) ↔ q.uqCnames stname name ≠ [] := by
  unfold sortUqConstraintNames
  rw [(List.perm_insertionSort _ _).mem_iff, ← not_iff_not, ← UnorderedMap.find_eq_none_iff,
    find_mapUqrecColnames]
  by_cases hnil : q.uqCnames stname name = []
  · simp [hnil]
  · simp [hnil]

theorem mapM_migrateUqConstraint (q : SqlsvrDdlQueries) (stname : DdlStname) {names : List Text}
    (hne : ∀ name ∈ names, q.uqCnames stname name ≠ []) :
    names.mapM (migrateUqConstraint (q.mapUqrecColnames stname) stname) =
      .ok (names.map fun name => .addUnique stname (q.uqCnames stname name) name) := by
  induction names with
  | nil => rfl
  | cons name names ih =>
      have hname := hne name List.mem_cons_self
      have hstatement : migrateUqConstraint (q.mapUqrecColnames stname) stname name =
          .ok (.addUnique stname (q.uqCnames stname name) name) := by
        unfold migrateUqConstraint
        rw [find_mapUqrecColnames, if_neg hname]
        cases hcnames : q.uqCnames stname name with
        | nil => exact absurd hcnames hname
        | cons cname cnames => rfl
      rw [List.mapM_cons, hstatement, ih fun name' hname' => hne name' (List.mem_cons_of_mem _ hname')]
      rfl

/-- The assertion on the columns of a constraint never fails. -/
theorem migrateUqConstraintsDdl_eq (q : SqlsvrDdlQueries) (stname : DdlStname) :
    q.migrateUqConstraintsDdl stname = .ok (q.uqStatements stname) := by
  unfold migrateUqConstraintsDdl
  dsimp only
  rw [mapM_migrateUqConstraint _ _ fun name => (q.mem_sortUqConstraintNames_iff stname name).mp]
  rfl

/-- What is written for the unique constraints of a table: the columns of the visible records of each. -/
theorem mem_uqStatements_iff (q : SqlsvrDdlQueries) (stname : DdlStname) {statement : DdlStatement}
    (hne : statement ≠ .newline) :
    statement ∈ q.uqStatements stname ↔
      ∃ name, q.uqCnames stname name ≠ [] ∧
        statement = .addUnique stname (q.uqCnames stname name) name := by
  unfold uqStatements
  rw [mem_statementGroup_iff hne, List.mem_map]
  apply exists_congr
  intro name
  rw [mem_sortUqConstraintNames_iff, eq_comm]

theorem mem_uqCnames_iff {q : SqlsvrDdlQueries} {stname : DdlStname} {name : Text} {cname : DdlCname} :
    cname ∈ q.uqCnames stname name ↔ (name, cname) ∈ q.visibleUqs stname := by
  unfold uqCnames
  simp

/-! ### With columns rejected -/

section Rejected

variable {q : SqlsvrDdlQueries} {K : Finset DdlStcname} {stname : DdlStname}

/-- The unique records that hiding leaves visible under a column. -/
theorem unhidden_findUq_hideAll (k : DdlStcname) :
    (((q.hideAll K).findUq k).getD []).filter (fun uqRec => !uqRec.hidden) =
      if k ∈ K then [] else ((q.findUq k).getD []).filter fun uqRec => !uqRec.hidden := by
  rw [findUq_hideAll]
  cases q.findUq k with
  | none => simp
  | some uqRecs =>
      by_cases hk : k ∈ K
      · simp [hk]
      · simp [hk]

/-- The check records that hiding leaves visible under a column. -/
theorem unhidden_findCk_hideAll (k : DdlStcname) :
    (((q.hideAll K).findCk k).getD []).filter (fun ckRec => !ckRec.hidden) =
      if k ∈ K then [] else ((q.findCk k).getD []).filter fun ckRec => !ckRec.hidden := by
  rw [findCk_hideAll]
  cases q.findCk k with
  | none => simp
  | some ckRecs =>
      by_cases hk : k ∈ K
      · simp [hk]
      · simp [hk]

/-- Where columns are rejected, the unique records left over are those of the visible columns that are not
rejected. -/
theorem mem_visibleUqs_hideAll_iff {name : Text} {cname : DdlCname} :
    (name, cname) ∈ (q.hideAll K).visibleUqs stname ↔
      cname ∈ (q.hideAll K).visibleCnames stname ∧ .ofStname stname cname.name ∉ K ∧
        ∃ uqRec ∈ (q.findUq (.ofStname stname cname.name)).getD [],
          uqRec.hidden = false ∧ uqRec.constraintName = name := by
  unfold visibleUqs
  simp only [unhidden_findUq_hideAll, List.mem_flatMap, List.mem_map, Prod.mk.injEq]
  constructor
  · rintro ⟨cname, hvisible, uqRec, huqRec, rfl, rfl⟩
    by_cases hk : .ofStname stname cname.name ∈ K
    · simp [hk] at huqRec
    · simp only [hk, if_false, List.mem_filter, Bool.not_eq_true'] at huqRec
      exact ⟨hvisible, hk, uqRec, huqRec.1, huqRec.2, rfl⟩
  · rintro ⟨hvisible, hk, uqRec, huqRec, hunhidden, rfl⟩
    exact ⟨cname, hvisible, uqRec, by simp [hk, huqRec, hunhidden], rfl, rfl⟩

/-- A property of the checks that are written where columns are rejected. -/
theorem forall_mem_migrateCkConstraintsDdl_iff {P : DdlStatement → Prop} (hnewline : P .newline) :
    (∀ statement ∈ (q.hideAll K).migrateCkConstraintsDdl stname, P statement) ↔
      ∀ cname ∈ (q.hideAll K).visibleCnames stname, .ofStname stname cname.name ∉ K →
        ∀ ckRec ∈ (q.findCk (.ofStname stname cname.name)).getD [], ckRec.hidden = false →
          P (.addCheck (.ofStname stname cname.name) ckRec.constraintName ckRec.checkClause) := by
  unfold migrateCkConstraintsDdl
  rw [forall_mem_statementGroup hnewline]
  simp only [unhidden_findCk_hideAll, List.forall_mem_flatMap, List.forall_mem_map]
  apply forall₂_congr
  intro cname hvisible
  change (∀ ckRec ∈ if .ofStname stname cname.name ∈ K then _ else _, _) ↔ _
  by_cases hk : .ofStname stname cname.name ∈ K
  · simp [hk]
  · simp only [hk, if_false, List.mem_filter, Bool.not_eq_true', not_false_eq_true, forall_const, and_imp]
    exact Iff.rfl

/-- The foreign keys left over where columns are rejected. -/
theorem unhiddenFks_hideAll :
    (q.hideAll K).unhiddenFks stname = (q.unhiddenFks stname).filter fun fk => ¬ q.fkMapper.Hits K fk.1 := by
  have hrecs : ∀ tcRecs : List SqlsvrDdlTcRec,
      (tcRecs.filterMap fun tcRec => ((q.hideAll K).findFk (tcRec.stcname stname) true).map
        fun fkRec => (tcRec.stcname stname, fkRec)) =
      (tcRecs.filterMap fun tcRec => (q.findFk (tcRec.stcname stname) true).map
        fun fkRec => (tcRec.stcname stname, fkRec)).filter fun fk => ¬ q.fkMapper.Hits K fk.1 := by
    intro tcRecs
    rw [List.filter_filterMap]
    apply List.filterMap_congr
    intro tcRec htcRec
    rw [findFk_hideAll]
    cases q.findFk (tcRec.stcname stname) true with
    | none => simp
    | some fkRec =>
        by_cases hhits : q.fkMapper.Hits K (tcRec.stcname stname) <;> simp [hhits, Option.filter]
  unfold unhiddenFks
  rw [findTc_hideAll]
  cases q.findTc stname with
  | none => rfl
  | some tcRecs =>
      rw [Option.map_some, Option.getD_some, Option.getD_some, ← hrecs]
      apply filterMap_hideFirsts
      intro tcRec b
      rfl

theorem mem_unhiddenFks_iff {k : DdlStcname} {fkRec : SqlsvrDdlFkRec} :
    (k, fkRec) ∈ q.unhiddenFks stname ↔
      (∃ tcRec ∈ (q.findTc stname).getD [], tcRec.stcname stname = k) ∧ q.findFk k true = some fkRec := by
  unfold unhiddenFks
  simp only [List.mem_filterMap, Option.map_eq_some_iff, Prod.mk.injEq]
  constructor
  · rintro ⟨tcRec, htcRec, fkRec, hfind, rfl, rfl⟩
    exact ⟨⟨tcRec, htcRec, rfl⟩, hfind⟩
  · rintro ⟨⟨tcRec, htcRec, rfl⟩, hfind⟩
    exact ⟨tcRec, htcRec, fkRec, hfind, rfl, rfl⟩

end Rejected

end SqlsvrDdlQueries

end Middle.SqlsvrDdl
