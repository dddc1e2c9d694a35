import Middle.Lib.Concatenation
import Middle.Lib.Lines
import Middle.SqlsvrDdl.CreatedTables

/-! Whether the text of a run for HSQLDB depends on the order in which the hash map of used tables is walked.
Tables are sorted before they are migrated. The foreign keys behind them are written as the map is walked. -/

namespace Middle.SqlsvrDdl

open Lib Lib.Concatenation Lib.Lines Universals NormalDdl MiddleApp

/-- Two migrators for the same contents, in whatever orders of iteration. -/
structure SqlsvrDdlStnamesMigrator.SameContents (m m' : SqlsvrDdlStnamesMigrator) : Prop where
  stnameUsedcols : m'.stnameUsedcols.entries.Perm m.stnameUsedcols.entries
  haveUsedcols : m'.haveUsedcols = m.haveUsedcols
  assumedIdents : m'.assumedIdents = m.assumedIdents

/-- The text a stream gets. -/
def ddlText (statements : List DdlStatement) : Text := statements.flatMap DdlStatement.render

namespace SqlsvrDdlStnamesMigrator

variable {m m' : SqlsvrDdlStnamesMigrator}

/-- What a run for HSQLDB writes, or what it throws. -/
def migratedText (m : SqlsvrDdlStnamesMigrator) (prefs : DdlTableMigratorPrefs) (fuel : Nat)
    (q : SqlsvrDdlQueries) : Except Fault Text :=
  (m.migrateDdlStnames (some (HsqldbTableMigrator.factory prefs fuel)) q).map fun st => ddlText st.statements

/-- The metadata a run for HSQLDB reads foreign keys from, with the columns rejected by then. -/
def queriesBehind (m : SqlsvrDdlStnamesMigrator) (prefs : DdlTableMigratorPrefs) (fuel : Nat)
    (q : SqlsvrDdlQueries) : SqlsvrDdlQueries :=
  q.hideAll (m.rejectedIn prefs fuel q m.sortStnames)

/-- What a run for HSQLDB writes for the foreign keys of a table. -/
def fkText (m : SqlsvrDdlStnamesMigrator) (prefs : DdlTableMigratorPrefs) (fuel : Nat) (q : SqlsvrDdlQueries)
    (stname : DdlStname) : Text :=
  ddlText ((m.queriesBehind prefs fuel q).migrateFkConstraintsDdl stname)

namespace SameContents

variable (h : m.SameContents m')

include h

theorem keys : m'.stnameUsedcols.keys.Perm m.stnameUsedcols.keys := h.stnameUsedcols.map _

theorem find (stname : DdlStname) : m'.stnameUsedcols.find stname = m.stnameUsedcols.find stname := by
  apply Option.ext
  intro usedcols
  rw [UnorderedMap.find_eq_some_iff, UnorderedMap.find_eq_some_iff, h.stnameUsedcols.mem_iff]

theorem sortStnames_eq : m'.sortStnames = m.sortStnames := by
  have hperm : m'.sortStnames.Perm m.sortStnames :=
    (List.perm_insertionSort _ _).trans (h.keys.trans (List.perm_insertionSort _ _).symm)
  refine hperm.eq_of_pairwise ?_ (pairwise_sortStnames m') (pairwise_sortStnames m)
  intro a b _ _ hab hba
  exact absurd hab hba.not_gt

theorem visitStname_eq {σ : Type} (factory : Option (DdlTableMigratorFactory σ)) :
    m'.visitStname factory = m.visitStname factory := by
  have hrejected : m'.rejectedMsgs = m.rejectedMsgs := by
    funext stname cname
    unfold rejectedMsgs DdlStnameUsedcols.usedColumn
    rw [h.find]
  have hmigrate : ∀ {σ : Type} (factory : DdlTableMigratorFactory σ) stname tableInfo st,
      m'.migrateDdlStname factory stname tableInfo st = m.migrateDdlStname factory stname tableInfo st := by
    intro σ factory stname tableInfo st
    unfold migrateDdlStname
    simp only [h.find, h.assumedIdents, hrejected]
  funext st stname
  unfold visitStname
  simp only [hmigrate]

theorem rejectedIn_eq (prefs : DdlTableMigratorPrefs) (fuel : Nat) (q : SqlsvrDdlQueries)
    (stnames : List DdlStname) : m'.rejectedIn prefs fuel q stnames = m.rejectedIn prefs fuel q stnames := by
  unfold rejectedIn rejectedCnames columnMigrations
  rw [h.assumedIdents]

end SameContents

section Hsqldb

variable {prefs : DdlTableMigratorPrefs} {fuel : Nat} {q : SqlsvrDdlQueries}

/-- What a run writes: what the loop over the sorted tables does, and the foreign keys as the map is walked. -/
theorem migratedText_eq {st : MigrationState}
    (hloop : m.sortStnames.foldlM (m.visitStname (some (HsqldbTableMigrator.factory prefs fuel))) { queries := q } =
      .ok st) :
    m.migratedText prefs fuel q =
      .ok (ddlText st.statements ++ m.stnameUsedcols.keys.flatMap (m.fkText prefs fuel q)) := by
  obtain ⟨st', hrun⟩ : ∃ st', m.migrateDdlStnames (some (HsqldbTableMigrator.factory prefs fuel)) q = .ok st' := by
    unfold migrateDdlStnames
    rw [hloop]
    exact ⟨_, rfl⟩
  have hst : (MigrationState.mk q [] [] [] 0).queries = q.hideAll ∅ := q.hideAll_empty.symm
  have hstatements := (foldlM_visitStname hst hloop).2.1
  unfold migratedText
  rw [hrun]
  rw [← q.hideAll_empty] at hrun
  have hwritten := (migrateDdlStnames_eq_ok hrun).2.1
  rw [Finset.empty_union] at hwritten
  show Except.ok (ddlText st'.statements) = _
  rw [hwritten, hstatements, List.nil_append]
  unfold ddlText fkText
  rw [List.flatMap_append, List.flatMap_assoc]
  rfl

end Hsqldb

end SqlsvrDdlStnamesMigrator

/-! ### The text of foreign keys -/

/-- The line written for a foreign key. -/
def fkLine (fk : DdlStcname × SqlsvrDdlFkRec) : Text :=
  "ALTER TABLE ".toList ++ fk.1.stname.name ++ " ADD FOREIGN KEY(".toList ++ fk.1.columnName ++
    ") REFERENCES ".toList ++ fk.2.refStcname.stname.name ++ "(".toList ++ fk.2.refStcname.columnName ++ ");".toList

/-- What a foreign key is written with: its table and column, and those it references. -/
def fkColumns (fk : DdlStcname × SqlsvrDdlFkRec) : (DdlStname × Text) × (DdlStname × Text) :=
  ((fk.1.stname, fk.1.columnName), (fk.2.refStcname.stname, fk.2.refStcname.columnName))

theorem notMem_of_normal {s : Text} (h : normalizeDdlName s = s) {c : Char} (hc : c < '.') : c ∉ s :=
  fun hmem => absurd hc (not_lt.mpr (dot_le_of_normal h c hmem))

theorem notMem_columnName (stcname : DdlStcname) {c : Char} (hc : c < '.') : c ∉ stcname.columnName := by
  intro hmem
  apply notMem_of_normal stcname.normal hc
  unfold DdlStcname.columnName substr at hmem
  split at hmem
  · exact hmem
  · exact List.mem_of_mem_drop hmem

theorem lf_notMem_fkLine (fk : DdlStcname × SqlsvrDdlFkRec) : '\n' ∉ fkLine fk := by
  have hlf : '\n' < '.' := by decide
  have htable := notMem_of_normal fk.1.stname.normal hlf
  have hcolumn := notMem_columnName fk.1 hlf
  have hrefTable := notMem_of_normal fk.2.refStcname.stname.normal hlf
  have hrefColumn := notMem_columnName fk.2.refStcname hlf
  unfold fkLine
  simp [htable, hcolumn, hrefTable, hrefColumn]

/-- There are no blanks and parentheses in names, so the line of a foreign key tells what it is over. -/
theorem fkLine_inj (fk fk' : DdlStcname × SqlsvrDdlFkRec) : fkLine fk = fkLine fk' ↔ fkColumns fk = fkColumns fk' := by
  have hline : ∀ fk : DdlStcname × SqlsvrDdlFkRec, fkLine fk = "ALTER TABLE ".toList ++ (fk.1.stname.name ++
      ' ' :: ("ADD FOREIGN KEY(".toList ++ (fk.1.columnName ++
      ')' :: (" REFERENCES ".toList ++ (fk.2.refStcname.stname.name ++
      '(' :: (fk.2.refStcname.columnName ++ ')' :: [';'])))))) := by
    intro fk
    unfold fkLine
    simp only [List.append_assoc]
    rfl
  have hblank : ' ' < '.' := by decide
  have hopen : '(' < '.' := by decide
  have hclose : ')' < '.' := by decide
  rw [hline, hline, List.append_right_inj,
    append_sep_inj (notMem_of_normal fk.1.stname.normal hblank) (notMem_of_normal fk'.1.stname.normal hblank),
    List.append_right_inj, append_sep_inj (notMem_columnName _ hclose) (notMem_columnName _ hclose),
    List.append_right_inj, append_sep_inj (notMem_of_normal fk.2.refStcname.stname.normal hopen)
      (notMem_of_normal fk'.2.refStcname.stname.normal hopen),
    append_sep_inj (notMem_columnName _ hclose) (notMem_columnName _ hclose)]
  simp only [fkColumns, Prod.mk.injEq, DdlStname.ext_iff, and_true, and_assoc]

theorem map_fkLine_inj (fks fks' : List (DdlStcname × SqlsvrDdlFkRec)) :
    fks.map fkLine = fks'.map fkLine ↔ fks.map fkColumns = fks'.map fkColumns := by
  induction fks generalizing fks' with
  | nil => simp only [List.map_nil, List.nil_eq, List.map_eq_nil_iff]
  | cons fk fks ih =>
      cases fks' with
      | nil => simp only [List.map_cons, List.map_nil, reduceCtorEq]
      | cons fk' fks' =>
          simp only [List.map_cons, List.cons.injEq]
          rw [fkLine_inj, ih]

theorem ddlText_migrateFkConstraintsDdl (q : SqlsvrDdlQueries) (stname : DdlStname) :
    ddlText (q.migrateFkConstraintsDdl stname) =
      if q.unhiddenFks stname = [] then []
      else '\n' :: unlines '\n' ((q.unhiddenFks stname).map fkLine) := by
  have hlines : ∀ fks : List (DdlStcname × SqlsvrDdlFkRec),
      (fks.map fun fk => DdlStatement.addForeignKey fk.1 fk.2.refStcname).flatMap DdlStatement.render =
        unlines '\n' (fks.map fkLine) := by
    intro fks
    unfold unlines
    rw [List.flatMap_map, List.flatMap_map]
    apply List.flatMap_congr
    intro fk _
    unfold fkLine DdlStatement.render
    rw [List.append_assoc _ _ ['\n']]
    rfl
  unfold ddlText SqlsvrDdlQueries.migrateFkConstraintsDdl statementGroup
  by_cases hnil : q.unhiddenFks stname = []
  · rw [hnil]
    rfl
  · rw [if_neg (by simpa using hnil), if_neg hnil, List.flatMap_cons, hlines]
    rfl

/-- The foreign keys of two tables can be written in either order when one has none or both are over the same
columns. -/
theorem fkText_exchange_iff (q : SqlsvrDdlQueries) (stname stname' : DdlStname) :
    ddlText (q.migrateFkConstraintsDdl stname) ++ ddlText (q.migrateFkConstraintsDdl stname') =
        ddlText (q.migrateFkConstraintsDdl stname') ++ ddlText (q.migrateFkConstraintsDdl stname) ↔
      q.unhiddenFks stname = [] ∨ q.unhiddenFks stname' = [] ∨
        (q.unhiddenFks stname).map fkColumns = (q.unhiddenFks stname').map fkColumns := by
  have hlf : ∀ fks : List (DdlStcname × SqlsvrDdlFkRec), ∀ line ∈ fks.map fkLine, '\n' ∉ line :=
    fun fks => List.forall_mem_map.mpr fun fk _ => lf_notMem_fkLine fk
  have hparagraph : ∀ fks : List (DdlStcname × SqlsvrDdlFkRec), fks ≠ [] →
      IsParagraph '\n' (unlines '\n' (fks.map fkLine)) := by
    intro fks hfks
    unfold unlines
    rw [List.flatMap_map]
    exact isParagraph_flatMap fkLine hfks fun fk _ => ⟨List.cons_ne_nil _ _, lf_notMem_fkLine fk⟩
  rw [ddlText_migrateFkConstraintsDdl, ddlText_migrateFkConstraintsDdl, ← map_fkLine_inj,
    ← unlines_inj (hlf _) (hlf _)]
  by_cases hnil : q.unhiddenFks stname = []
  · simp [hnil]
  · by_cases hnil' : q.unhiddenFks stname' = []
    · simp [hnil']
    · rw [if_neg hnil, if_neg hnil']
      constructor
      · intro h
        exact .inr (.inr (eq_of_exchange (hparagraph _ hnil) (hparagraph _ hnil') h))
      · rintro (h | h | h)
        · exact absurd h hnil
        · exact absurd h hnil'
        · rw [h]

namespace SqlsvrDdlStnamesMigrator

variable {m : SqlsvrDdlStnamesMigrator} {prefs : DdlTableMigratorPrefs} {fuel : Nat} {q : SqlsvrDdlQueries}

theorem SameContents.fkText_eq {m' : SqlsvrDdlStnamesMigrator} (h : m.SameContents m') :
    m'.fkText prefs fuel q = m.fkText prefs fuel q := by
  funext stname
  unfold fkText queriesBehind
  rw [h.rejectedIn_eq, h.sortStnames_eq]

/-- Where the sorted tables go through, it is the foreign keys that have to be written alike in any order. -/
theorem forall_sameContents_iff {st : MigrationState}
    (hloop : m.sortStnames.foldlM (m.visitStname (some (HsqldbTableMigrator.factory prefs fuel))) { queries := q } =
      .ok st) :
    (∀ m', m.SameContents m' → m'.migratedText prefs fuel q = m.migratedText prefs fuel q) ↔
      ∀ entries : List (DdlStname × DdlUsedcols), entries.Perm m.stnameUsedcols.entries →
        (entries.flatMap fun e => m.fkText prefs fuel q e.1) =
          m.stnameUsedcols.entries.flatMap fun e => m.fkText prefs fuel q e.1 := by
  have hkeys : ∀ entries : List (DdlStname × DdlUsedcols),
      (entries.map Prod.fst).flatMap (m.fkText prefs fuel q) = entries.flatMap fun e => m.fkText prefs fuel q e.1 :=
    fun entries => List.flatMap_map _ _ _
  have htext : ∀ m', m.SameContents m' → m'.migratedText prefs fuel q =
      .ok (ddlText st.statements ++ m'.stnameUsedcols.entries.flatMap fun e => m.fkText prefs fuel q e.1) := by
    intro m' hsame
    rw [← hsame.sortStnames_eq, ← hsame.visitStname_eq] at hloop
    rw [migratedText_eq hloop, hsame.fkText_eq, UnorderedMap.keys, hkeys]
  have hself : m.SameContents m := ⟨List.Perm.refl _, rfl, rfl⟩
  constructor
  · intro h entries hperm
    have hnodup : (entries.map Prod.fst).Nodup := (hperm.map _).nodup_iff.mpr m.stnameUsedcols.nodup
    have hsame : m.SameContents { m with stnameUsedcols := ⟨entries, hnodup⟩ } := ⟨hperm, rfl, rfl⟩
    have heq := h _ hsame
    rw [htext _ hsame, htext m hself] at heq
    exact List.append_cancel_left (Except.ok.inj heq)
  · intro h m' hsame
    rw [htext m' hsame, htext m hself, h _ hsame.stnameUsedcols]

/-- A run that throws does so in any order of iteration. One that writes a text writes it in any order exactly when no
two used tables have foreign keys left, apart from such that are over the same columns. -/
theorem migratedText_sameContents_iff (m : SqlsvrDdlStnamesMigrator) (prefs : DdlTableMigratorPrefs)
    (fuel : Nat) (q : SqlsvrDdlQueries) :
    (∀ e, m.migratedText prefs fuel q = .error e →
      ∀ m', m.SameContents m' → m'.migratedText prefs fuel q = .error e) ∧
    ∀ text, m.migratedText prefs fuel q = .ok text →
      ((∀ m', m.SameContents m' → m'.migratedText prefs fuel q = .ok text) ↔
        ∀ stname ∈ m.stnameUsedcols.keys, ∀ stname' ∈ m.stnameUsedcols.keys, stname ≠ stname' →
          (m.queriesBehind prefs fuel q).unhiddenFks stname = [] ∨
            (m.queriesBehind prefs fuel q).unhiddenFks stname' = [] ∨
            ((m.queriesBehind prefs fuel q).unhiddenFks stname).map fkColumns =
              ((m.queriesBehind prefs fuel q).unhiddenFks stname').map fkColumns) := by
  cases hloop : m.sortStnames.foldlM (m.visitStname (some (HsqldbTableMigrator.factory prefs fuel)))
    { queries := q } with
  | error e =>
      have herror : ∀ m', m.SameContents m' → m'.migratedText prefs fuel q = .error e := by
        intro m' hsame
        unfold migratedText migrateDdlStnames
        rw [hsame.sortStnames_eq, hsame.visitStname_eq, hloop]
        rfl
      rw [herror m ⟨List.Perm.refl _, rfl, rfl⟩]
      constructor
      · intro e' he' m' hsame
        rw [herror m' hsame, he']
      · intro text htext
        cases htext
  | ok st =>
      constructor
      · intro e he
        rw [migratedText_eq hloop] at he
        cases he
      · intro text htext
        rw [← htext, forall_sameContents_iff hloop,
          flatMap_perm_iff_of_nodup (m.fkText prefs fuel q) Prod.fst m.stnameUsedcols.nodup]
        apply forall₂_congr
        intro stname _
        apply forall₃_congr
        intro stname' _ _
        exact fkText_exchange_iff _ _ _

end SqlsvrDdlStnamesMigrator

def dboS : DdlStname := .make "dbo".toList "s".toList

/-- Metadata with the column `a INT` of `dbo.t` and of `dbo.s`. -/
def tAndS (fkMapper : SqlsvrDdlFkMapper) : SqlsvrDdlQueries where
  ckMapper := ∅
  fkMapper
  pkMapper := ∅
  uqMapper := ∅
  tcMapper := ⟨[(dboT, [plainTcRec "a" "int"]), (dboS, [plainTcRec "a" "int"])], by decide⟩

/-- A source file that uses two tables. -/
def usesTwo (stname stname' : DdlStname) (hne : stname ≠ stname') : SqlsvrDdlStnamesMigrator where
  stnameUsedcols := ⟨[(stname, ∅), (stname', ∅)], by simpa using hne⟩
  haveUsedcols := false
  assumedIdents := ∅

/-- The foreign keys of `dbo.t` and `dbo.s` are written in the order in which the map is walked. -/
theorem migratedText_depends_on_order :
    ∃ loaded text text',
      loadFkMapper [[tToR "fk_t" "a", { tToR "fk_s" "a" with tableName := "s".toList }]] = .ok loaded ∧
      (usesTwo dboT dboS (by decide)).SameContents (usesTwo dboS dboT (by decide)) ∧
      (usesTwo dboT dboS (by decide)).migratedText intPrefs 0 (tAndS loaded.mapper) = .ok text ∧
      (usesTwo dboS dboT (by decide)).migratedText intPrefs 0 (tAndS loaded.mapper) = .ok text' ∧ text ≠ text' := by
  refine ⟨_, _, _, rfl, ⟨List.Perm.swap _ _ _, rfl, rfl⟩, rfl, rfl, ?_⟩
  decide

end Middle.SqlsvrDdl
