import Middle.SqlsvrDdl.Run

/-! Runs one after the other over the same metadata. What a run leaves behind are the columns it has rejected,
hidden for all runs to come: where they hide nothing that the later run would not hide itself, that run is the
same as from the metadata as loaded. -/

namespace Middle.SqlsvrDdl

open Lib Universals NormalDdl MiddleApp

/-! ### Constraints with more columns rejected -/

/-- The names left visible, when the first record of each name `p` picks is hidden. -/
def visibleBehind (p : DdlCname → Bool) (tcRecs : List SqlsvrDdlTcRec) : List DdlCname :=
  ((hideFirsts p tcRecs).filter fun tcRec => !tcRec.hidden).map SqlsvrDdlTcRec.cname

theorem visibleBehind_cons (p : DdlCname → Bool) (tcRec : SqlsvrDdlTcRec) (tcRecs : List SqlsvrDdlTcRec) :
    visibleBehind p (tcRec :: tcRecs) =
      (if tcRec.hidden || p tcRec.cname then [] else [tcRec.cname]) ++
        visibleBehind (fun cname => p cname && cname ≠ tcRec.cname) tcRecs := by
  unfold visibleBehind
  rw [hideFirsts]
  by_cases hhidden : (tcRec.hidden || p tcRec.cname) = true
  · rw [if_pos hhidden, List.filter_cons_of_neg (by simp [hhidden]), List.nil_append]
  · rw [if_neg hhidden, List.filter_cons_of_pos (by simpa using hhidden), List.map_cons,
      List.singleton_append]

/-- More names picked make no difference to what is read of the visible ones, where those that are left
otherwise have nothing to read. -/
theorem flatMap_visibleBehind {α : Type} {p l : DdlCname → Bool} {f : DdlCname → List α}
    {tcRecs : List SqlsvrDdlTcRec}
    (h : ∀ cname ∈ visibleBehind p tcRecs, f cname ≠ [] → l cname = true → p cname = true) :
    (visibleBehind (fun cname => p cname || l cname) tcRecs).flatMap f = (visibleBehind p tcRecs).flatMap f := by
  induction tcRecs generalizing p l with
  | nil => rfl
  | cons tcRec tcRecs ih =>
      rw [visibleBehind_cons] at h
      have htail := ih (p := fun cname => p cname && cname ≠ tcRec.cname)
        (l := fun cname => l cname && cname ≠ tcRec.cname) (by
          intro cname hcname hf hl
          rw [Bool.and_eq_true] at hl ⊢
          exact ⟨h cname (List.mem_append_right _ hcname) hf hl.1, hl.2⟩)
      have hpicks : (fun cname => (p cname || l cname) && decide (cname ≠ tcRec.cname)) =
          fun cname => (p cname && decide (cname ≠ tcRec.cname)) || (l cname && decide (cname ≠ tcRec.cname)) := by
        funext cname
        exact Bool.and_or_distrib_right _ _ _
      rw [visibleBehind_cons, visibleBehind_cons, List.flatMap_append, List.flatMap_append, hpicks, htail]
      congr 1
      cases hhidden : tcRec.hidden || p tcRec.cname with
      | true => rw [← Bool.or_assoc, hhidden, Bool.true_or]
      | false =>
          rw [← Bool.or_assoc, hhidden, Bool.false_or]
          cases hl : l tcRec.cname with
          | false => rfl
          | true =>
              have hnil : f tcRec.cname = [] := by
                by_contra hf
                have hp := h tcRec.cname (List.mem_append_left _ (by simp [hhidden])) hf hl
                rw [hp, Bool.or_true] at hhidden
                cases hhidden
              simp [hnil]

namespace SqlsvrDdlQueries

variable {q : SqlsvrDdlQueries} {R L : Finset DdlStcname} {stname : DdlStname}

theorem visibleCnames_hideAll (K : Finset DdlStcname) :
    (q.hideAll K).visibleCnames stname =
      visibleBehind (fun cname => ∃ k ∈ K, k.stname = stname ∧ k.cname = cname) ((q.findTc stname).getD []) := by
  unfold visibleCnames
  rw [findTc_hideAll]
  cases q.findTc stname with
  | none => rfl
  | some tcRecs => rfl

/-- Rejecting `L` hides no record of a constraint under the column, and not the column itself, unless `R` does. -/
def Spares (q : SqlsvrDdlQueries) (R L : Finset DdlStcname) (stname : DdlStname) (cname : DdlCname) : Prop :=
  .ofStname stname cname.name ∉ R →
    (q.findCk (.ofStname stname cname.name)).getD [] ≠ [] ∨ (q.findUq (.ofStname stname cname.name)).getD [] ≠ [] →
      .ofStname stname cname.name ∉ L ∧
        ((∃ k ∈ L, k.stname = stname ∧ k.cname = cname) → ∃ k ∈ R, k.stname = stname ∧ k.cname = cname)

/-- What is read of the visible columns is the same, where `L` is rejected besides `R`. -/
theorem flatMap_visibleCnames_hideAll {α : Type} {f : DdlCname → List α}
    (hspares : ∀ cname ∈ (q.hideAll R).visibleCnames stname, q.Spares R L stname cname)
    (hrecords : ∀ cname, f cname ≠ [] → (q.findCk (.ofStname stname cname.name)).getD [] ≠ [] ∨
      (q.findUq (.ofStname stname cname.name)).getD [] ≠ []) :
    ((q.hideAll (R ∪ L)).visibleCnames stname).flatMap
        (fun cname => if .ofStname stname cname.name ∈ R ∪ L then [] else f cname) =
      ((q.hideAll R).visibleCnames stname).flatMap
        (fun cname => if .ofStname stname cname.name ∈ R then [] else f cname) := by
  have hunion : (fun cname => decide (∃ k ∈ R ∪ L, k.stname = stname ∧ k.cname = cname)) =
      fun cname => decide (∃ k ∈ R, k.stname = stname ∧ k.cname = cname) ||
        decide (∃ k ∈ L, k.stname = stname ∧ k.cname = cname) := by
    funext cname
    rw [← Bool.decide_or, decide_eq_decide]
    simp only [Finset.mem_union, or_and_right, exists_or]
  rw [visibleCnames_hideAll, hunion, flatMap_visibleBehind, ← visibleCnames_hideAll]
  · apply List.flatMap_congr
    intro cname hvisible
    by_cases hR : .ofStname stname cname.name ∈ R
    · rw [if_pos hR, if_pos (Finset.mem_union_left L hR)]
    · rw [if_neg hR]
      split
      · rename_i hrejected
        by_contra hne
        have hL := (hspares cname hvisible hR (hrecords cname (Ne.symm hne))).1
        exact (Finset.mem_union.mp hrejected).elim hR hL
      · rfl
  · intro cname hvisible hread hL
    rw [← visibleCnames_hideAll] at hvisible
    by_cases hrejected : .ofStname stname cname.name ∈ R ∪ L
    · exact absurd (if_pos hrejected) hread
    · rw [if_neg hrejected] at hread
      have hR := fun hR => hrejected (Finset.mem_union_left L hR)
      exact decide_eq_true ((hspares cname hvisible hR (hrecords cname hread)).2 (of_decide_eq_true hL))

theorem migrateCkConstraintsDdl_hideAll_union
    (hspares : ∀ cname ∈ (q.hideAll R).visibleCnames stname, q.Spares R L stname cname) :
    (q.hideAll (R ∪ L)).migrateCkConstraintsDdl stname = (q.hideAll R).migrateCkConstraintsDdl stname := by
  have hread : ∀ K, (q.hideAll K).migrateCkConstraintsDdl stname =
      statementGroup (((q.hideAll K).visibleCnames stname).flatMap fun cname =>
        if .ofStname stname cname.name ∈ K then [] else
          (((q.findCk (.ofStname stname cname.name)).getD []).filter fun ckRec => !ckRec.hidden).map fun ckRec =>
            .addCheck (.ofStname stname cname.name) ckRec.constraintName ckRec.checkClause) := by
    intro K
    unfold migrateCkConstraintsDdl
    congr 2
    funext cname
    dsimp only
    change ((((q.hideAll K).findCk (.ofStname stname cname.name)).getD []).filter _).map _ = _
    rw [unhidden_findCk_hideAll, apply_ite (List.map _)]
    rfl
  rw [hread, hread, flatMap_visibleCnames_hideAll hspares]
  intro cname hne
  left
  intro hnil
  rw [hnil] at hne
  exact hne rfl

theorem uqStatements_hideAll_union
    (hspares : ∀ cname ∈ (q.hideAll R).visibleCnames stname, q.Spares R L stname cname) :
    (q.hideAll (R ∪ L)).uqStatements stname = (q.hideAll R).uqStatements stname := by
  have hread : ∀ K, (q.hideAll K).visibleUqs stname =
      ((q.hideAll K).visibleCnames stname).flatMap fun cname =>
        if .ofStname stname cname.name ∈ K then [] else
          (((q.findUq (.ofStname stname cname.name)).getD []).filter fun uqRec => !uqRec.hidden).map
            fun uqRec => (uqRec.constraintName, cname) := by
    intro K
    unfold visibleUqs
    congr 1
    funext cname
    rw [unhidden_findUq_hideAll, apply_ite (List.map _)]
    rfl
  have hvisibleUqs : (q.hideAll (R ∪ L)).visibleUqs stname = (q.hideAll R).visibleUqs stname := by
    rw [hread, hread, flatMap_visibleCnames_hideAll hspares]
    intro cname hne
    right
    intro hnil
    rw [hnil] at hne
    exact hne rfl
  unfold uqStatements uqCnames
  rw [mapUqrecColnames_eq_foldl, mapUqrecColnames_eq_foldl, hvisibleUqs]

/-- The foreign keys left over are the same, where `L` is rejected besides `R` and hits none that `R` does not. -/
theorem unhiddenFks_hideAll_union
    (hspares : ∀ tcRec ∈ (q.findTc stname).getD [], (q.findFk (tcRec.stcname stname) true).isSome →
      q.fkMapper.Hits L (tcRec.stcname stname) → q.fkMapper.Hits R (tcRec.stcname stname)) :
    (q.hideAll (R ∪ L)).unhiddenFks stname = (q.hideAll R).unhiddenFks stname := by
  rw [unhiddenFks_hideAll, unhiddenFks_hideAll]
  apply List.filter_congr
  rintro ⟨k, fkRec⟩ hfk
  obtain ⟨⟨tcRec, htcRec, rfl⟩, hfind⟩ := mem_unhiddenFks_iff.mp hfk
  rw [decide_eq_decide, not_iff_not, SqlsvrDdlFkMapper.hits_union]
  apply or_iff_left_of_imp
  exact hspares tcRec htcRec (by rw [hfind]; rfl)

end SqlsvrDdlQueries

/-! ### The run -/

/-- The state with columns rejected beforehand. -/
def MigrationState.withRejected (L : Finset DdlStcname) (st : MigrationState) : MigrationState :=
  { st with queries := st.queries.hideAll L }

namespace SqlsvrDdlStnamesMigrator

/-- Columns rejected beforehand hide no constraint that the run itself leaves. -/
structure Undisturbed (m : SqlsvrDdlStnamesMigrator) (prefs : DdlTableMigratorPrefs) (fuel : Nat)
    (q : SqlsvrDdlQueries) (L : Finset DdlStcname) : Prop where
  /-- They leave the checks and unique constraints of the columns that are left when a table is written. -/
  column : ∀ before stname behind, m.sortStnames = before ++ stname :: behind →
    ∀ cname ∈ (q.hideAll (m.rejectedIn prefs fuel q (before ++ [stname]))).visibleCnames stname,
      q.Spares (m.rejectedIn prefs fuel q (before ++ [stname])) L stname cname
  /-- They hit no foreign key of a used table that is left at the end. -/
  fk : ∀ stname ∈ m.stnameUsedcols.keys, ∀ tcRec ∈ (q.findTc stname).getD [],
    (q.findFk (tcRec.stcname stname) true).isSome → q.fkMapper.Hits L (tcRec.stcname stname) →
      q.fkMapper.Hits (m.rejectedIn prefs fuel q m.sortStnames) (tcRec.stcname stname)

variable {m : SqlsvrDdlStnamesMigrator} {prefs : DdlTableMigratorPrefs} {fuel : Nat} {q : SqlsvrDdlQueries}
  {L : Finset DdlStcname}

/-- The first run over metadata is undisturbed. -/
theorem undisturbed_empty : m.Undisturbed prefs fuel q ∅ := by
  constructor
  · intro before stname behind hsplit cname hvisible hkept hrecords
    refine ⟨Finset.notMem_empty _, ?_⟩
    rintro ⟨k, hk, -⟩
    exact absurd hk (Finset.notMem_empty k)
  · rintro stname hstname tcRec htcRec hfk (hk | ⟨k, hk, -⟩)
    · exact absurd hk (Finset.notMem_empty _)
    · exact absurd hk (Finset.notMem_empty k)

theorem rejectedIn_append (stnames stnames' : List DdlStname) :
    m.rejectedIn prefs fuel q (stnames ++ stnames') =
      m.rejectedIn prefs fuel q stnames ∪ m.rejectedIn prefs fuel q stnames' := by
  unfold rejectedIn
  rw [List.toFinset_append, Finset.union_biUnion]

/-- A step with columns rejected beforehand that hide nothing more in its table. -/
theorem visitStname_withRejected {before : List DdlStname} {stname : DdlStname} {st : MigrationState}
    (hst : st.queries = q.hideAll (m.rejectedIn prefs fuel q before))
    (hspares : ∀ cname ∈ (q.hideAll (m.rejectedIn prefs fuel q (before ++ [stname]))).visibleCnames stname,
      q.Spares (m.rejectedIn prefs fuel q (before ++ [stname])) L stname cname) :
    m.visitStname (some (HsqldbTableMigrator.factory prefs fuel)) (st.withRejected L) stname =
      (m.visitStname (some (HsqldbTableMigrator.factory prefs fuel)) st stname).map (·.withRejected L) := by
  have hst' : (st.withRejected L).queries = q.hideAll (m.rejectedIn prefs fuel q before ∪ L) := by
    rw [MigrationState.withRejected, hst, SqlsvrDdlQueries.hideAll_hideAll]
  rw [visitStname_eq _ _ _ _ hst, visitStname_eq _ _ _ _ hst']
  change Except.map _ (m.migrateTable prefs fuel q stname
    (linesOf (st.statements ++ schemaDdl st.lastSchemaName stname))) = _
  cases htable : m.migrateTable prefs fuel q stname
    (linesOf (st.statements ++ schemaDdl st.lastSchemaName stname)) with
  | error e => rfl
  | ok outcome =>
      dsimp only [Except.map]
      congr 1
      cases outcome with
      | none =>
          unfold stateBehind MigrationState.withRejected
          dsimp only
          rw [SqlsvrDdlQueries.hideAll_hideAll]
      | some table =>
          obtain ⟨-, hrejected, -, -⟩ := migrateTable_eq_some htable
          have hR : m.rejectedIn prefs fuel q before ∪ stcnamesOf stname table.rejectedCnames =
              m.rejectedIn prefs fuel q (before ++ [stname]) := by
            rw [hrejected, rejectedIn_append, rejectedIn_cons, rejectedIn_nil, Finset.union_empty]
          unfold stateBehind MigrationState.withRejected
          dsimp only
          rw [Finset.union_right_comm, hR, SqlsvrDdlQueries.hideAll_hideAll,
            SqlsvrDdlQueries.migrateCkConstraintsDdl_hideAll_union hspares,
            SqlsvrDdlQueries.uqStatements_hideAll_union hspares]

theorem foldlM_visitStname_withRejected {before stnames : List DdlStname} {st : MigrationState}
    (hst : st.queries = q.hideAll (m.rejectedIn prefs fuel q before))
    (hspares : ∀ before' stname behind, stnames = before' ++ stname :: behind →
      ∀ cname ∈ (q.hideAll (m.rejectedIn prefs fuel q (before ++ before' ++ [stname]))).visibleCnames stname,
        q.Spares (m.rejectedIn prefs fuel q (before ++ before' ++ [stname])) L stname cname) :
    stnames.foldlM (m.visitStname (some (HsqldbTableMigrator.factory prefs fuel))) (st.withRejected L) =
      (stnames.foldlM (m.visitStname (some (HsqldbTableMigrator.factory prefs fuel))) st).map
        (·.withRejected L) := by
  induction stnames generalizing before st with
  | nil => rfl
  | cons stname stnames ih =>
      obtain ⟨hhead, htail⟩ := forall_split_cons_iff.mp hspares
      rw [List.append_nil] at hhead
      rw [List.foldlM_cons, List.foldlM_cons, visitStname_withRejected hst hhead]
      cases hstep : m.visitStname (some (HsqldbTableMigrator.factory prefs fuel)) st stname with
      | error e => rfl
      | ok st₁ =>
          have hst₁ : st₁.queries = q.hideAll (m.rejectedIn prefs fuel q (before ++ [stname])) := by
            have hrun : [stname].foldlM (m.visitStname (some (HsqldbTableMigrator.factory prefs fuel))) st =
                .ok st₁ := by
              rw [List.foldlM_cons, hstep]
              rfl
            rw [(foldlM_visitStname hst hrun).1, rejectedIn_append]
          refine ih hst₁ ?_
          simpa using htail

/-- The validation at the end reads foreign keys of used tables only. -/
theorem migrateValidateFkConstraintsDdl_withRejected {st : MigrationState}
    (hfks : ∀ stname ∈ m.stnameUsedcols.keys,
      (st.queries.hideAll L).unhiddenFks stname = st.queries.unhiddenFks stname) :
    m.migrateValidateFkConstraintsDdl false (st.withRejected L) =
      (m.migrateValidateFkConstraintsDdl false st).withRejected L := by
  have hstatements : m.stnameUsedcols.keys.flatMap (st.queries.hideAll L).migrateFkConstraintsDdl =
      m.stnameUsedcols.keys.flatMap st.queries.migrateFkConstraintsDdl := by
    apply List.flatMap_congr
    intro stname hstname
    unfold SqlsvrDdlQueries.migrateFkConstraintsDdl
    rw [hfks stname hstname]
  have hmsgs : m.fkTargetMsgs (st.queries.hideAll L) = m.fkTargetMsgs st.queries := by
    unfold fkTargetMsgs allFkrefStnames
    rw [List.flatMap_congr]
    intro e he
    unfold SqlsvrDdlQueries.fkrefStnames
    rw [hfks e.1 (List.mem_map_of_mem he)]
  unfold migrateValidateFkConstraintsDdl MigrationState.withRejected
  dsimp only
  rw [hstatements, hmsgs]

/-- A run with columns rejected beforehand that hide nothing more in it. -/
theorem migrateDdlStnames_hideAll (h : m.Undisturbed prefs fuel q L) :
    m.migrateDdlStnames (some (HsqldbTableMigrator.factory prefs fuel)) (q.hideAll L) =
      (m.migrateDdlStnames (some (HsqldbTableMigrator.factory prefs fuel)) q).map (·.withRejected L) := by
  have hst : (MigrationState.mk q [] [] [] 0).queries = q.hideAll (m.rejectedIn prefs fuel q []) := by
    rw [rejectedIn_nil, q.hideAll_empty]
  unfold migrateDdlStnames
  change List.foldlM _ ((MigrationState.mk q [] [] [] 0).withRejected L) _ >>= _ = _
  rw [foldlM_visitStname_withRejected hst h.column]
  cases hloop : m.sortStnames.foldlM (m.visitStname (some (HsqldbTableMigrator.factory prefs fuel)))
    { queries := q } with
  | error e => rfl
  | ok st =>
      have hqueries := (foldlM_visitStname hst hloop).1
      rw [rejectedIn_nil, Finset.empty_union] at hqueries
      dsimp only [Except.map, bind, Except.bind, pure, Except.pure]
      congr 1
      change (if st.tableInfoCnt = 0 then _ else _) = _
      split
      · rfl
      · apply migrateValidateFkConstraintsDdl_withRejected
        intro stname hstname
        rw [hqueries, SqlsvrDdlQueries.hideAll_hideAll]
        exact SqlsvrDdlQueries.unhiddenFks_hideAll_union (h.fk stname hstname)

end SqlsvrDdlStnamesMigrator

end Middle.SqlsvrDdl
