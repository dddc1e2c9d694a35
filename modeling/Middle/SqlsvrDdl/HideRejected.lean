import Middle.SqlsvrDdl.Queries

/-! Which foreign key records a rejected column hides. Those that reference it are found by their constraint
names, and a name leads to the first record loaded under it only: exactly the references to the column are
hidden when each of them is the first record of its name. -/

namespace Middle.SqlsvrDdl

open Lib Universals NormalDdl

section Loaded

variable {rows : List FkRow} {m : SqlsvrDdlFkMapper}

theorem LoadedFrom.stcname_inj (hm : LoadedFrom rows m) {row row' : FkRow} (hrow : row ∈ rows)
    (hrow' : row' ∈ rows) (h : row.stcname = row'.stcname) : row = row' := by
  have hnodup := m.map.nodup
  rw [hm.entries, List.map_map] at hnodup
  exact List.inj_on_of_nodup_map hnodup hrow hrow' h

theorem LoadedFrom.find_eq_some_iff (hm : LoadedFrom rows m) {k : DdlStcname} {fkRec : SqlsvrDdlFkRec} :
    m.map.find k = some fkRec ↔ ∃ row ∈ rows, row.stcname = k ∧ row.fkRec = fkRec := by
  rw [UnorderedMap.find_eq_some_iff, hm.entries, List.mem_map]
  simp only [Prod.mk.injEq]

/-- No pointer dangles in what was loaded without an error. -/
theorem LoadedFrom.dangles_eq_false (hm : LoadedFrom rows m) (reverseRecs : List SqlsvrDdlFkReverseRec) :
    m.Dangles reverseRecs = false := by
  unfold SqlsvrDdlFkMapper.Dangles
  rw [List.any_eq_false]
  intro r hr
  rw [hm.constraintName]
  cases rows.find? (·.constraintName = r.constraintName) <;> simp

/-- The references to a column lead to the first records of their constraint names. -/
theorem LoadedFrom.leadsTo_iff (hm : LoadedFrom rows m) (c k : DdlStcname) :
    m.leadsTo (m.findReverse c) k = true ↔ ∃ row ∈ rows, row.refStcname = c ∧
      ∃ first, rows.find? (·.constraintName = row.constraintName) = some first ∧ first.stcname = k := by
  unfold SqlsvrDdlFkMapper.leadsTo
  rw [List.any_eq_true, hm.reverse]
  simp only [List.mem_map, List.mem_filter, decide_eq_true_eq, hm.constraintName, Option.map_eq_some_iff,
    Option.some.injEq]
  constructor
  · rintro ⟨r, ⟨row, ⟨hrow, href⟩, rfl⟩, first, hfirst, hk⟩
    exact ⟨row, hrow, href, first, hfirst, hk⟩
  · rintro ⟨row, hrow, href, first, hfirst, hk⟩
    exact ⟨row.reverseRec, ⟨row, ⟨hrow, href⟩, rfl⟩, first, hfirst, hk⟩

theorem LoadedFrom.hits_iff (hm : LoadedFrom rows m) (K : Finset DdlStcname) (k : DdlStcname) :
    m.Hits K k ↔ k ∈ K ∨ ∃ row ∈ rows, row.refStcname ∈ K ∧
      ∃ first, rows.find? (·.constraintName = row.constraintName) = some first ∧ first.stcname = k := by
  unfold SqlsvrDdlFkMapper.Hits
  simp only [hm.leadsTo_iff]
  apply or_congr Iff.rfl
  constructor
  · rintro ⟨c, hc, row, hrow, href, hfirst⟩
    exact ⟨row, hrow, href ▸ hc, hfirst⟩
  · rintro ⟨row, hrow, href, hfirst⟩
    exact ⟨row.refStcname, href, row, hrow, rfl, hfirst⟩

/-- The foreign key records of loaded metadata are those of the rows. -/
theorem LoadedFrom.findFk_eq_some_iff {q : SqlsvrDdlQueries} (hm : LoadedFrom rows q.fkMapper) {k : DdlStcname}
    {fkRec : SqlsvrDdlFkRec} :
    q.findFk k true = some fkRec ↔ ∃ row ∈ rows, row.stcname = k ∧ row.fkRec = fkRec := by
  unfold SqlsvrDdlQueries.findFk SqlsvrDdlFkMapper.find
  rw [Option.filter_eq_some_iff, hm.find_eq_some_iff]
  apply and_iff_left_of_imp
  rintro ⟨row, -, -, rfl⟩
  rfl

end Loaded

/-- From `m` to `m'` exactly the records of the column `c` and those that reference it are hidden. -/
def HidesExactly (m m' : SqlsvrDdlFkMapper) (c : DdlStcname) : Prop :=
  m'.map = m.map.mapValues fun k fkRec =>
    { fkRec with hidden := fkRec.hidden || decide (k = c ∨ fkRec.refStcname = c) }

theorem fkMapper_of_hideRejectedColumn {q q' : SqlsvrDdlQueries} {c : DdlStcname}
    (hhide : q.hideRejectedColumn c = .ok q') : q'.fkMapper = q.fkMapper.hideAll {c} := by
  rw [SqlsvrDdlQueries.hideRejectedColumn_eq] at hhide
  split at hhide
  · cases hhide
  · split at hhide
    · cases hhide
    · cases hhide
      rfl

/-- The flags before and after, column by column. -/
theorem hidesExactly_hideAll_iff {rows : List FkRow} {m : SqlsvrDdlFkMapper} (hm : LoadedFrom rows m)
    (h : DdlStcname → Bool) (c : DdlStcname) :
    HidesExactly (m.hideWhere h) ((m.hideWhere h).hideAll {c}) c ↔ ∀ row ∈ rows,
      (h row.stcname = true ∨ row.stcname = c ∨ m.leadsTo (m.findReverse c) row.stcname = true ↔
        h row.stcname = true ∨ row.stcname = c ∨ row.refStcname = c) := by
  have hmap : ((m.hideWhere h).hideAll {c}).map = (m.map.mapValues fun k fkRec =>
      { fkRec with hidden := fkRec.hidden || h k }).mapValues fun k fkRec =>
        { fkRec with hidden := fkRec.hidden || decide (m.Hits {c} k) } := rfl
  have hreferences : ∀ k, m.Hits {c} k ↔ k = c ∨ m.leadsTo (m.findReverse c) k = true := by
    intro k
    simp [SqlsvrDdlFkMapper.Hits]
  rw [HidesExactly, hmap, SqlsvrDdlFkMapper.hideWhere]
  dsimp only
  rw [UnorderedMap.mapValues_mapValues, UnorderedMap.mapValues_mapValues, UnorderedMap.mapValues_inj_iff,
    hm.entries, List.forall_mem_map]
  simp only [FkRow.fkRec, SqlsvrDdlFkRec.mk.injEq, and_true, Bool.false_or]
  apply forall₂_congr
  intro row hrow
  rw [Bool.eq_iff_iff, Bool.or_eq_true, Bool.or_eq_true, decide_eq_true_eq]
  exact iff_congr (or_congr Iff.rfl (hreferences _)) (or_congr Iff.rfl decide_eq_true_iff)

/-- Whatever is hidden before (`h`), a rejected column hides exactly what it should if and only if each
reference to it is the first record of its constraint name or hidden in any case, and the first record of
each such name references the column too or is hidden in any case. -/
theorem hideRejectedColumn_hidesExactly_iff {conns : List (List FkRow)} {m : SqlsvrDdlFkMapper}
    {h : DdlStcname → Bool} {q q' : SqlsvrDdlQueries} {c : DdlStcname}
    (hload : loadFkMapper conns = .ok ⟨m, []⟩) (hq : q.fkMapper = m.hideWhere h)
    (hhide : q.hideRejectedColumn c = .ok q') :
    HidesExactly q.fkMapper q'.fkMapper c ↔
      ∀ row ∈ conns.flatten, row.refStcname = c →
        ∀ first, conns.flatten.find? (·.constraintName = row.constraintName) = some first →
          (row.stcname = c ∨ h row.stcname = true ∨ first = row) ∧
            (first.refStcname = c ∨ first.stcname = c ∨ h first.stcname = true) := by
  have hm := loadedFrom_of_loadFkMapper hload
  generalize conns.flatten = rows at hm
  rw [fkMapper_of_hideRejectedColumn hhide, hq, hidesExactly_hideAll_iff hm]
  constructor
  · intro hexact row hrow href first hfirst
    have hfirstrow : first ∈ rows := List.mem_of_find?_eq_some hfirst
    constructor
    · -- the reference is hidden by a name that leads to it, which can only be its own
      rcases (hexact row hrow).mpr (.inr (.inr href)) with hhidden | hown | hleads
      · exact .inr (.inl hhidden)
      · exact .inl hown
      · obtain ⟨row₂, -, -, first₂, hfirst₂, hkey⟩ := (hm.leadsTo_iff c _).mp hleads
        have heq := hm.stcname_inj (List.mem_of_find?_eq_some hfirst₂) hrow hkey
        have hname : first₂.constraintName = row₂.constraintName := by simpa using List.find?_some hfirst₂
        rw [← hname, heq, hfirst] at hfirst₂
        exact .inr (.inr (Option.some.inj hfirst₂))
    · rcases (hexact first hfirstrow).mp
          (.inr (.inr ((hm.leadsTo_iff c _).mpr ⟨row, hrow, href, first, hfirst, rfl⟩))) with
        hhidden | hown | href
      · exact .inr (.inr hhidden)
      · exact .inr (.inl hown)
      · exact .inl href
  · intro hfirsts row hrow
    constructor
    · rintro (hhidden | hown | hleads)
      · exact .inl hhidden
      · exact .inr (.inl hown)
      · obtain ⟨row₂, hrow₂, href₂, first₂, hfirst₂, hkey⟩ := (hm.leadsTo_iff c _).mp hleads
        obtain rfl := hm.stcname_inj (List.mem_of_find?_eq_some hfirst₂) hrow hkey
        rcases (hfirsts row₂ hrow₂ href₂ first₂ hfirst₂).2 with href | hown | hhidden
        · exact .inr (.inr href)
        · exact .inr (.inl hown)
        · exact .inl hhidden
    · rintro (hhidden | hown | href)
      · exact .inl hhidden
      · exact .inr (.inl hown)
      · obtain ⟨first, hfirst⟩ : ∃ first, rows.find? (·.constraintName = row.constraintName) = some first :=
          Option.isSome_iff_exists.mp (List.find?_isSome.mpr ⟨row, hrow, by simp⟩)
        rcases (hfirsts row hrow href first hfirst).1 with hown | hhidden | hself
        · exact .inr (.inl hown)
        · exact .inl hhidden
        · exact .inr (.inr ((hm.leadsTo_iff c _).mpr ⟨row, hrow, href, first, hfirst, by rw [hself]⟩))

/-- A row of a constraint from a column of `dbo.t` to the column of that name of `dbo.r`. -/
def tToR (constraintName columnName : String) : FkRow where
  schemaName := "dbo".toList
  tableName := "t".toList
  columnName := columnName.toList
  constraintName := constraintName.toList
  refSchemaName := "dbo".toList
  refTableName := "r".toList
  refColumnName := columnName.toList

def dboR : DdlStname := .make "dbo".toList "r".toList

def plainTcRec (cname datatype : String) : SqlsvrDdlTcRec where
  cname := .ofText cname.toList
  nullable := true
  datatype := datatype.toList
  identity := false

/-- Metadata with the columns `a` and `b` of `dbo.r`. -/
def rWithFks (fkMapper : SqlsvrDdlFkMapper) : SqlsvrDdlQueries where
  ckMapper := ∅
  fkMapper
  pkMapper := ∅
  uqMapper := ∅
  tcMapper := (UnorderedMap.insert ∅ dboR [plainTcRec "a" "int", plainTcRec "b" "xml"]).1

def dboRB : DdlStcname := .ofStname dboR "b".toList

theorem hideRejectedColumn_hidesExactly_single :
    ∃ m q', loadFkMapper [[tToR "fk_a" "a", tToR "fk_b" "b"]] = .ok ⟨m, []⟩ ∧
      (rWithFks m).hideRejectedColumn dboRB = .ok q' ∧ HidesExactly m q'.fkMapper dboRB := by
  obtain ⟨m, hload⟩ : ∃ m, loadFkMapper [[tToR "fk_a" "a", tToR "fk_b" "b"]] = .ok ⟨m, []⟩ := ⟨_, rfl⟩
  have hm := loadedFrom_of_loadFkMapper hload
  have hhide : (rWithFks m).hideRejectedColumn dboRB = .ok ((rWithFks m).hideAll {dboRB}) := by
    have hcolumn : (rWithFks m).hasColumn dboRB = true := rfl
    have hdangles : (rWithFks m).fkMapper.Dangles ((rWithFks m).fkMapper.findReverse dboRB) = false :=
      hm.dangles_eq_false _
    rw [SqlsvrDdlQueries.hideRejectedColumn_eq, hcolumn, hdangles]
    rfl
  refine ⟨m, _, hload, hhide, ?_⟩
  refine (hideRejectedColumn_hidesExactly_iff hload (m.hideWhere_false).symm hhide).mpr ?_
  decide

/-- A constraint over two columns, the second of which references the rejected column: the record of the
first is hidden instead. -/
theorem hideRejectedColumn_hides_other :
    ∃ m q', loadFkMapper [[tToR "fk" "a", tToR "fk" "b"]] = .ok ⟨m, []⟩ ∧
      (rWithFks m).hideRejectedColumn dboRB = .ok q' ∧
      q'.findFk (tToR "fk" "a").stcname true = none ∧
      q'.findFk (tToR "fk" "b").stcname true = some (tToR "fk" "b").fkRec ∧
      ¬ HidesExactly m q'.fkMapper dboRB := by
  refine ⟨_, _, rfl, rfl, by decide, by decide, ?_⟩
  intro hexact
  have hfind := congrArg (fun map => map.find (tToR "fk" "a").stcname) hexact
  revert hfind
  decide

end Middle.SqlsvrDdl
