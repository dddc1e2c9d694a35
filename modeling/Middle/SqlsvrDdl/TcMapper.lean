import Middle.SqlsvrDdl.Queries

/-! Loading the columns of tables (`sqlsvr_ddl_tc_map_loader`). The rows of a data source are cut into tables
where the normalised name changes from one row to the next, and each table is filed under that name. -/

namespace Middle.SqlsvrDdl

open Lib Universals NormalDdl

/-- A row of the column query. A `NULL` name fails the assertion on its column as an empty text does. -/
structure TcRow where
  schemaName : Text
  tableName : Text
  columnName : Text
  columnPos : Option Int32
  defaultVal : Option Text
  nullable : Text
  datatype : Text
  charMaxLen : Option Int32
  charOctLen : Option Int32
  numPrec : Option UInt8
  numPrecRad : Option Int16
  numScale : Option Int32
  dtPrec : Option Int16
  charsetName : Option Text
  identity : Option Int32
  deriving DecidableEq

namespace TcRow

def stname (row : TcRow) : DdlStname := .make row.schemaName row.tableName

/-- `column_pos`. -/
def pos (row : TcRow) : Int := (row.columnPos.getD 0).toInt

def tcRec (row : TcRow) : SqlsvrDdlTcRec where
  cname := .ofText row.columnName
  defaultVal := row.defaultVal
  nullable := row.nullable = "YES".toList
  datatype := row.datatype
  charMaxLen := row.charMaxLen
  charOctLen := row.charOctLen
  numPrec := row.numPrec
  numPrecRad := row.numPrecRad
  numScale := row.numScale
  dtPrec := row.dtPrec
  charsetName := row.charsetName
  identity := row.identity.getD 0 ≠ 0

/-- The assertions on the columns of a row. -/
def checked (row : TcRow) : Bool :=
  row.schemaName ≠ [] ∧ row.tableName ≠ [] ∧ row.columnName ≠ [] ∧ row.columnPos.isSome ∧
    row.defaultVal ≠ some [] ∧ row.nullable ≠ [] ∧ row.datatype ≠ [] ∧ row.charsetName ≠ some [] ∧
    row.identity.isSome

end TcRow

/-- `sqlsvr_ddl_tc_map_loader` with the map it fills. -/
structure TcMapLoader where
  mapper : UnorderedMap DdlStname (List SqlsvrDdlTcRec)
  connectionErrors : List SqlsvrDdlConnectionError

/-- What is reported about a table that is defined already. -/
def tableRedefined (connPos : Nat) (stname : DdlStname) : SqlsvrDdlConnectionError :=
  ⟨connPos, "table ".toList ++ stname.name ++ " redefined".toList⟩

/-- `insert_tc_recs`. -/
def TcMapLoader.insertTcRecs (connPos : Nat) (loader : TcMapLoader) (stname : DdlStname)
    (tcRecs : List SqlsvrDdlTcRec) : Except Fault TcMapLoader :=
  let inserted := loader.mapper.insert stname tcRecs
  if inserted.2 then .ok { loader with mapper := inserted.1 }
  else if connPos = 0 then .error .assertion
  else .ok { loader with connectionErrors := loader.connectionErrors ++ [tableRedefined connPos stname] }

/-- What the loop over the rows of a data source remembers. -/
structure TcGroup where
  loader : TcMapLoader
  lastStname : DdlStname := .empty
  lastColumnPos : Int := 0
  tcRecs : List SqlsvrDdlTcRec := []

namespace TcGroup

/-- The columns collected so far filed under the name of their table. -/
def flush (connPos : Nat) (st : TcGroup) : Except Fault TcMapLoader :=
  if st.tcRecs = [] then .ok st.loader else st.loader.insertTcRecs connPos st.lastStname st.tcRecs

/-- The turn of the loop for a row. -/
def loadRow (connPos : Nat) (st : TcGroup) (row : TcRow) : Except Fault TcGroup :=
  if !row.checked then .error .assertion
  else if row.stname ≠ st.lastStname then
    if row.pos ≠ 1 then .error .assertion
    else (st.flush connPos).map fun loader => ⟨loader, row.stname, row.pos, [row.tcRec]⟩
  else if row.pos ≠ st.lastColumnPos + 1 then .error .assertion
  else .ok { st with lastColumnPos := row.pos, tcRecs := st.tcRecs ++ [row.tcRec] }

end TcGroup

/-- The rows of a data source. Behind the loop the name of the last row is the last name. -/
def TcMapLoader.loadConn (connPos : Nat) (loader : TcMapLoader) (rows : List TcRow) :
    Except Fault TcMapLoader := do
  let st ← rows.foldlM (TcGroup.loadRow connPos) { loader }
  st.flush connPos

/-- `load_tc_mapper`, given the rows of each connection. -/
def loadTcMapper (conns : List (List TcRow)) : Except Fault TcMapLoader :=
  conns.zipIdx.foldlM (fun loader conn => loader.loadConn conn.2 conn.1) ⟨∅, []⟩

/-! ### Data sources -/

/-- The rows of a table: at least one column, and their positions from 1 on. -/
structure SourceTable where
  schemaName : Text
  tableName : Text
  rows : List TcRow
  nonempty : rows ≠ []
  named : ∀ row ∈ rows, row.schemaName = schemaName ∧ row.tableName = tableName
  checked : ∀ row ∈ rows, row.checked = true
  positions : rows.map TcRow.pos = (List.range rows.length).map fun n : Nat => (n : Int) + 1

namespace SourceTable

def stname (table : SourceTable) : DdlStname := .make table.schemaName table.tableName

def tcRecs (table : SourceTable) : List SqlsvrDdlTcRec := table.rows.map TcRow.tcRec

/-- The same table up to letter case. -/
def Same (table table' : SourceTable) : Prop :=
  table.schemaName.map Char.toLower = table'.schemaName.map Char.toLower ∧
    table.tableName.map Char.toLower = table'.tableName.map Char.toLower

theorem Same.symm {table table' : SourceTable} (h : table.Same table') : table'.Same table :=
  ⟨h.1.symm, h.2.symm⟩

theorem Same.trans {table table' table'' : SourceTable} (h : table.Same table') (h' : table'.Same table'') :
    table.Same table'' := ⟨h.1.trans h'.1, h.2.trans h'.2⟩

end SourceTable

/-- What a data source returns: tables one behind the other, distinct up to letter case. -/
structure DataSource where
  tables : List SourceTable
  distinct : tables.Pairwise fun table table' => ¬ table.Same table'

def DataSource.rows (source : DataSource) : List TcRow := source.tables.flatMap SourceTable.rows

/-! ### From rows to tables -/

/-- A table filed under its name. -/
def TcMapLoader.insertTable (connPos : Nat) (loader : TcMapLoader) (table : SourceTable) :
    Except Fault TcMapLoader := loader.insertTcRecs connPos table.stname table.tcRecs

namespace TcGroup

variable {connPos : Nat}

/-- Nothing collected yet, or the columns of a table up to some position. -/
def Collecting (st : TcGroup) : Prop :=
  st.tcRecs = [] ∧ st.lastColumnPos = 0 ∨ st.tcRecs ≠ [] ∧ 1 ≤ st.lastColumnPos

/-- The first row of a table ends the one before, which has to have another name. -/
theorem loadRow_first {st : TcGroup} (hst : st.Collecting) {row : TcRow} (hchecked : row.checked = true)
    (hpos : row.pos = 1) :
    st.loadRow connPos row =
      if st.tcRecs ≠ [] ∧ row.stname = st.lastStname then .error .assertion
      else (st.flush connPos).map fun loader => ⟨loader, row.stname, 1, [row.tcRec]⟩ := by
  have hnot : ¬ (!row.checked) = true := by simp [hchecked]
  unfold loadRow
  rw [if_neg hnot, hpos]
  by_cases hname : row.stname = st.lastStname
  · rw [if_neg (not_not.mpr hname)]
    rcases hst with ⟨hnil, hzero⟩ | ⟨hne, hlast⟩
    · have hflush : st.flush connPos = .ok st.loader := if_pos hnil
      rw [if_neg (by omega), if_neg fun h => h.1 hnil, hflush, hnil, ← hname]
      rfl
    · rw [if_pos (by omega), if_pos ⟨hne, hname⟩]
  · rw [if_pos hname, if_neg (not_not.mpr rfl), if_neg fun h => hname h.2]

/-- The rows that go on with a table. -/
theorem foldlM_loadRow_rest {rows : List TcRow} {st : TcGroup}
    (hrows : ∀ row ∈ rows, row.checked = true ∧ row.stname = st.lastStname)
    (hpos : rows.map TcRow.pos = (List.range rows.length).map fun n : Nat => st.lastColumnPos + (n : Int) + 1) :
    rows.foldlM (loadRow connPos) st =
      .ok { st with
        lastColumnPos := st.lastColumnPos + rows.length
        tcRecs := st.tcRecs ++ rows.map TcRow.tcRec } := by
  induction rows generalizing st with
  | nil => simp [pure, Except.pure]
  | cons row rows ih =>
      rw [List.forall_mem_cons] at hrows
      obtain ⟨⟨hchecked, hname⟩, hrows⟩ := hrows
      rw [List.length_cons, List.range_succ_eq_map, List.map_cons, List.map_cons, List.cons.injEq] at hpos
      obtain ⟨hfirst, hpos⟩ := hpos
      have hrow : st.loadRow connPos row =
          .ok { st with lastColumnPos := row.pos, tcRecs := st.tcRecs ++ [row.tcRec] } := by
        have hnot : ¬ (!row.checked) = true := by simp [hchecked]
        have hnext : row.pos = st.lastColumnPos + 1 := by simpa using hfirst
        unfold loadRow
        rw [if_neg hnot, if_neg (not_not.mpr hname), if_neg (not_not.mpr hnext)]
      rw [List.foldlM_cons, hrow]
      dsimp only [bind, Except.bind]
      rw [ih]
      · rw [hfirst, List.append_assoc]
        congr 2
        rw [List.length_cons]
        push_cast
        omega
      · exact hrows
      · rw [hpos, List.map_map]
        apply List.map_congr_left
        intro n _
        rw [hfirst]
        simp only [Function.comp_apply, Nat.cast_succ]
        push_cast
        omega

/-- The rows of a table. -/
theorem foldlM_loadRow_table {st : TcGroup} (hst : st.Collecting) (table : SourceTable) :
    table.rows.foldlM (loadRow connPos) st =
      if st.tcRecs ≠ [] ∧ table.stname = st.lastStname then .error .assertion
      else (st.flush connPos).map fun loader => ⟨loader, table.stname, table.rows.length, table.tcRecs⟩ := by
  have hname : ∀ row ∈ table.rows, row.stname = table.stname := by
    intro row hrow
    unfold TcRow.stname SourceTable.stname
    rw [(table.named row hrow).1, (table.named row hrow).2]
  obtain ⟨row, rows, hrows⟩ := List.exists_cons_of_ne_nil table.nonempty
  have hchecked := table.checked
  have hpos := table.positions
  rw [hrows] at hname hchecked hpos
  rw [List.forall_mem_cons] at hname hchecked
  rw [List.length_cons, List.range_succ_eq_map, List.map_cons, List.map_cons, List.cons.injEq] at hpos
  unfold SourceTable.tcRecs
  rw [hrows, List.foldlM_cons, loadRow_first hst hchecked.1 hpos.1, hname.1]
  split
  · rfl
  · cases st.flush connPos with
    | error e => rfl
    | ok loader =>
        dsimp only [Except.map, bind, Except.bind]
        rw [foldlM_loadRow_rest]
        · simp [Int.add_comm]
        · intro row' hrow'
          exact ⟨hchecked.2 row' hrow', hname.2 row' hrow'⟩
        · rw [hpos.2, List.map_map]
          apply List.map_congr_left
          intro n _
          simp only [Function.comp_apply, Nat.cast_succ]
          omega

/-- Rows of tables are filed table by table, provided that the name changes from each table to the next. -/
theorem foldlM_loadRow_tables {st : TcGroup} (hst : st.Collecting) (tables : List SourceTable)
    {loader' : TcMapLoader} :
    ((tables.flatMap SourceTable.rows).foldlM (loadRow connPos) st >>= flush connPos) = .ok loader' ↔
      ((if st.tcRecs = [] then [] else [st.lastStname]) ++ tables.map SourceTable.stname).IsChain (· ≠ ·) ∧
        (st.flush connPos >>= fun loader => tables.foldlM (TcMapLoader.insertTable connPos) loader) =
          .ok loader' := by
  induction tables generalizing st with
  | nil =>
      have hchain : ((if st.tcRecs = [] then [] else [st.lastStname]) ++
          [].map SourceTable.stname).IsChain (· ≠ ·) := by
        split
        · exact List.isChain_nil
        · exact List.isChain_singleton _
      rw [and_iff_right hchain]
      show st.flush connPos = _ ↔ (st.flush connPos >>= pure) = _
      rw [bind_pure]
  | cons table tables ih =>
      rw [List.flatMap_cons, List.foldlM_append, foldlM_loadRow_table hst]
      by_cases hclash : st.tcRecs ≠ [] ∧ table.stname = st.lastStname
      · rw [if_pos hclash, if_neg hclash.1, List.map_cons, List.singleton_append, List.isChain_cons_cons]
        constructor
        · intro h
          cases h
        · rintro ⟨⟨hne, -⟩, -⟩
          exact absurd hclash.2.symm hne
      · have hchain : ((if st.tcRecs = [] then [] else [st.lastStname]) ++
            (table :: tables).map SourceTable.stname).IsChain (· ≠ ·) ↔
            ([table.stname] ++ tables.map SourceTable.stname).IsChain (· ≠ ·) := by
          by_cases hnil : st.tcRecs = []
          · rw [if_pos hnil]
            rfl
          · rw [if_neg hnil, List.map_cons, List.singleton_append, List.isChain_cons_cons]
            exact and_iff_right fun hsame => hclash ⟨hnil, hsame.symm⟩
        rw [if_neg hclash, hchain]
        cases st.flush connPos with
        | error e =>
            constructor
            · intro h
              cases h
            · rintro ⟨-, h⟩
              cases h
        | ok loader =>
            have hne : table.tcRecs ≠ [] := by
              unfold SourceTable.tcRecs
              rw [Ne, List.map_eq_nil_iff]
              exact table.nonempty
            have hlength : 1 ≤ (table.rows.length : Int) := by
              have hpos := List.length_pos_iff.mpr table.nonempty
              omega
            have hcollecting : TcGroup.Collecting ⟨loader, table.stname, table.rows.length, table.tcRecs⟩ :=
              .inr ⟨hne, hlength⟩
            have hrest := ih hcollecting
            rw [if_neg hne, flush, if_neg hne] at hrest
            exact hrest

end TcGroup

/-- The rows of a data source. -/
theorem TcMapLoader.loadConn_eq_ok_iff (connPos : Nat) (loader : TcMapLoader) (source : DataSource)
    {loader' : TcMapLoader} :
    loader.loadConn connPos source.rows = .ok loader' ↔
      (source.tables.map SourceTable.stname).IsChain (· ≠ ·) ∧
        source.tables.foldlM (insertTable connPos) loader = .ok loader' :=
  TcGroup.foldlM_loadRow_tables (.inl ⟨rfl, rfl⟩) source.tables

/-- The tables of data sources in the order they are filed, with the positions of their data sources. -/
def placedFrom (n : Nat) (sources : List DataSource) : List (Nat × SourceTable) :=
  (sources.zipIdx n).flatMap fun source => source.1.tables.map fun table => (source.2, table)

abbrev placed : List DataSource → List (Nat × SourceTable) := placedFrom 0

/-- A table filed. -/
def TcMapLoader.place (loader : TcMapLoader) (p : Nat × SourceTable) : Except Fault TcMapLoader :=
  loader.insertTable p.1 p.2

/-- The rows of all data sources are loaded by filing their tables. -/
theorem loadTcMapper_eq_ok_iff (sources : List DataSource) {loaded : TcMapLoader} :
    loadTcMapper (sources.map DataSource.rows) = .ok loaded ↔
      (∀ source ∈ sources, (source.tables.map SourceTable.stname).IsChain (· ≠ ·)) ∧
        (placed sources).foldlM TcMapLoader.place ⟨∅, []⟩ = .ok loaded := by
  have hfrom : ∀ (n : Nat) (loader : TcMapLoader),
      ((sources.map DataSource.rows).zipIdx n).foldlM
          (fun (loader : TcMapLoader) conn => loader.loadConn conn.2 conn.1) loader = .ok loaded ↔
        (∀ source ∈ sources, (source.tables.map SourceTable.stname).IsChain (· ≠ ·)) ∧
          (placedFrom n sources).foldlM TcMapLoader.place loader = .ok loaded := by
    induction sources with
    | nil => simp [placedFrom]
    | cons source sources ih =>
        intro n loader
        have hplaced : placedFrom n (source :: sources) =
            source.tables.map (fun table => (n, table)) ++ placedFrom (n + 1) sources := by
          unfold placedFrom
          rw [List.zipIdx_cons, List.flatMap_cons]
        have hfold : (source.tables.map fun table => (n, table)).foldlM TcMapLoader.place loader =
            source.tables.foldlM (TcMapLoader.insertTable n) loader := List.foldlM_map
        rw [List.map_cons, List.zipIdx_cons, List.foldlM_cons, hplaced, List.foldlM_append, hfold, bind_eq_ok,
          bind_eq_ok, List.forall_mem_cons]
        simp only [TcMapLoader.loadConn_eq_ok_iff, ih]
        constructor
        · rintro ⟨loader', ⟨hchain, hconn⟩, hchains, hrest⟩
          exact ⟨⟨hchain, hchains⟩, loader', hconn, hrest⟩
        · rintro ⟨⟨hchain, hchains⟩, loader', hconn, hrest⟩
          exact ⟨loader', ⟨hchain, hconn⟩, hchains, hrest⟩
  exact hfrom 0 ⟨∅, []⟩

/-! ### Filing tables -/

theorem exists_split_concat_iff {α : Type} {Q : List α → α → Prop} {l : List α} {a : α} :
    (∃ before x behind, l ++ [a] = before ++ x :: behind ∧ Q before x) ↔
      (∃ before x behind, l = before ++ x :: behind ∧ Q before x) ∨ Q l a := by
  constructor
  · rintro ⟨before, x, behind, hsplit, hQ⟩
    rcases List.eq_nil_or_concat behind with rfl | ⟨behind, b, rfl⟩
    · obtain ⟨rfl, hx⟩ := List.append_inj' hsplit rfl
      cases hx
      exact .inr hQ
    · left
      have hinit : l ++ [a] = (before ++ x :: behind) ++ [b] := by simpa using hsplit
      exact ⟨before, x, behind, (List.append_inj' hinit rfl).1, hQ⟩
  · rintro (⟨before, x, behind, rfl, hQ⟩ | hQ)
    · exact ⟨before, x, behind ++ [a], by simp, hQ⟩
    · exact ⟨l, a, [], rfl, hQ⟩

/-- A table of that name is among these. -/
def NameFiled (tables : List (Nat × SourceTable)) (p : Nat × SourceTable) : Prop :=
  ∃ p' ∈ tables, p'.2.stname = p.2.stname

/-- What is loaded when tables have been filed one after the other. -/
structure Filed (tables : List (Nat × SourceTable)) (loader : TcMapLoader) : Prop where
  keys : ∀ k, k ∈ loader.mapper.keys ↔ ∃ p ∈ tables, p.2.stname = k
  entries : ∀ e ∈ loader.mapper.entries, ∃ p ∈ tables, e = (p.2.stname, p.2.tcRecs)
  connectionErrors : ∀ error, error ∈ loader.connectionErrors ↔
    ∃ before p behind, tables = before ++ p :: behind ∧ NameFiled before p ∧ error = tableRedefined p.1 p.2.stname

theorem filed_nil : Filed [] ⟨∅, []⟩ := by
  refine ⟨?_, List.forall_mem_nil _, ?_⟩
  · intro k
    constructor
    · intro h
      cases h
    · rintro ⟨p, hp, -⟩
      cases hp
  · intro error
    constructor
    · intro h
      cases h
    · rintro ⟨before, p, behind, hnil, -⟩
      simp at hnil

/-- A table is filed, or reported when its name has been filed and it is not from the first data source. -/
theorem Filed.place {tables : List (Nat × SourceTable)} {loader loader' : TcMapLoader}
    (h : Filed tables loader) {p : Nat × SourceTable} (hplace : loader.place p = .ok loader') :
    Filed (tables ++ [p]) loader' ∧ (NameFiled tables p → p.1 ≠ 0) := by
  have hkeys : ∀ {loader' : TcMapLoader}, (∀ k, k ∈ loader'.mapper.keys ↔ k ∈ loader.mapper.keys ∨ k = p.2.stname) →
      ∀ k, k ∈ loader'.mapper.keys ↔ ∃ p' ∈ tables ++ [p], p'.2.stname = k := by
    intro loader' hadded k
    rw [hadded, h.keys]
    simp [or_and_right, exists_or, eq_comm]
  unfold TcMapLoader.place TcMapLoader.insertTable TcMapLoader.insertTcRecs at hplace
  by_cases hmem : p.2.stname ∈ loader.mapper.keys
  · have hfiled : NameFiled tables p := (h.keys _).mp hmem
    rw [UnorderedMap.insert_of_mem hmem] at hplace
    by_cases hfirst : p.1 = 0
    · simp [hfirst] at hplace
    · simp only [hfirst, if_false] at hplace
      cases hplace
      refine ⟨⟨hkeys ?_, ?_, ?_⟩, fun _ => hfirst⟩
      · intro k
        exact (or_iff_left_of_imp fun hk => hk ▸ hmem).symm
      · intro e he
        obtain ⟨p', hp', he⟩ := h.entries e he
        exact ⟨p', List.mem_append_left _ hp', he⟩
      · intro error
        rw [exists_split_concat_iff, ← h.connectionErrors, List.mem_append, List.mem_singleton]
        simp only [hfiled, true_and]
  · have hfiled : ¬ NameFiled tables p := fun hfiled => hmem ((h.keys _).mpr hfiled)
    have hentries := UnorderedMap.insert_entries_of_notMem hmem p.2.tcRecs
    rw [if_pos ((UnorderedMap.insert_snd _ _ _).mpr hmem)] at hplace
    cases hplace
    refine ⟨⟨hkeys ?_, ?_, ?_⟩, fun hfiled' => absurd hfiled' hfiled⟩
    · intro k
      show k ∈ (UnorderedMap.insert _ _ _).1.entries.map Prod.fst ↔ _
      rw [hentries, List.map_append, List.mem_append, List.map_singleton, List.mem_singleton]
      exact Iff.rfl
    · intro e he
      change e ∈ (UnorderedMap.insert _ _ _).1.entries at he
      rw [hentries, List.mem_append, List.mem_singleton] at he
      rcases he with he | rfl
      · obtain ⟨p', hp', he⟩ := h.entries e he
        exact ⟨p', List.mem_append_left _ hp', he⟩
      · exact ⟨p, List.mem_append_right _ List.mem_cons_self, rfl⟩
    · intro error
      rw [exists_split_concat_iff, ← h.connectionErrors]
      simp only [hfiled, false_and, or_false]

theorem exists_place {tables : List (Nat × SourceTable)} {loader : TcMapLoader} (h : Filed tables loader)
    {p : Nat × SourceTable} (hfirst : NameFiled tables p → p.1 ≠ 0) : ∃ loader', loader.place p = .ok loader' := by
  unfold TcMapLoader.place TcMapLoader.insertTable TcMapLoader.insertTcRecs
  by_cases hmem : p.2.stname ∈ loader.mapper.keys
  · rw [UnorderedMap.insert_of_mem hmem]
    simp [hfirst ((h.keys _).mp hmem)]
  · rw [if_pos ((UnorderedMap.insert_snd _ _ _).mpr hmem)]
    exact ⟨_, rfl⟩

theorem filed_of_foldlM {tables : List (Nat × SourceTable)} {loaded : TcMapLoader}
    (h : tables.foldlM TcMapLoader.place ⟨∅, []⟩ = .ok loaded) : Filed tables loaded := by
  induction tables using List.reverseRecOn generalizing loaded with
  | nil =>
      cases h
      exact filed_nil
  | append_singleton tables p ih =>
      rw [List.foldlM_append, bind_eq_ok] at h
      obtain ⟨loader, hloader, hlast⟩ := h
      rw [List.foldlM_cons] at hlast
      change (loader.place p >>= pure) = _ at hlast
      rw [bind_pure] at hlast
      exact ((ih hloader).place hlast).1

/-- Tables can be filed when none from the first data source has a name filed before. -/
theorem exists_foldlM_place {tables : List (Nat × SourceTable)}
    (h : ∀ before p behind, tables = before ++ p :: behind → NameFiled before p → p.1 ≠ 0) :
    ∃ loaded, tables.foldlM TcMapLoader.place ⟨∅, []⟩ = .ok loaded := by
  induction tables using List.reverseRecOn with
  | nil => exact ⟨_, rfl⟩
  | append_singleton tables p ih =>
      obtain ⟨loader, hloader⟩ := ih fun before p' behind hsplit => h before p' (behind ++ [p]) (by simp [hsplit])
      obtain ⟨loaded, hloaded⟩ := exists_place (filed_of_foldlM hloader) (h tables p [] rfl)
      refine ⟨loaded, ?_⟩
      rw [List.foldlM_append, hloader]
      show (loader.place p >>= pure) = _
      rw [bind_pure, hloaded]

/-! ### Names -/

theorem normalizeFrom_map_toLower (prevDot : Bool) (s : Text) :
    normalizeFrom prevDot (s.map Char.toLower) = normalizeFrom prevDot s := by
  induction s generalizing prevDot with
  | nil => rfl
  | cons c s ih =>
      rw [List.map_cons, normalizeFrom, normalizeFrom]
      by_cases hupper : c.isUpper
      · obtain ⟨hlower, halpha⟩ := toLower_of_isUpper hupper
        have hdot : c.toLower ≠ '.' := by
          intro hdot
          rw [hdot] at halpha
          exact absurd halpha (by decide)
        have halnum : c.toLower.isAlphanum := by simp [Char.isAlphanum, halpha]
        rw [if_pos hupper, if_neg (by simp [hlower]), if_neg (by simp [halnum]), ih, decide_eq_false hdot]
      · have hlower : c.toLower = c := Char.toLower_eq_of_not_isUpper hupper
        rw [hlower, if_neg hupper, if_neg hupper, ih]

theorem normalizeDdlName_map_toLower (s : Text) : normalizeDdlName (s.map Char.toLower) = normalizeDdlName s := by
  have hhead : (s.map Char.toLower).head?.any Char.isAlpha = s.head?.any Char.isAlpha := by
    rw [List.head?_map, Option.any_map]
    congr 1
    funext c
    exact Char.isAlpha_toLower_eq_isAlpha c
  unfold normalizeDdlName
  rw [hhead, normalizeFrom_map_toLower]

theorem SourceTable.Same.stname_eq {table table' : SourceTable} (h : table.Same table') :
    table.stname = table'.stname := by
  apply DdlStname.ext
  calc
    normalizeDdlName (table.schemaName ++ '.' :: table.tableName) =
        normalizeDdlName (table.schemaName.map Char.toLower ++ '.' :: table.tableName.map Char.toLower) := by
      rw [← normalizeDdlName_map_toLower]
      simp
    _ = normalizeDdlName (table'.schemaName ++ '.' :: table'.tableName) := by
      rw [h.1, h.2, ← normalizeDdlName_map_toLower (table'.schemaName ++ _)]
      simp

/-! ### Data sources -/

theorem le_of_mem_placedFrom {n : Nat} {sources : List DataSource} {p : Nat × SourceTable}
    (h : p ∈ placedFrom n sources) : n ≤ p.1 := by
  unfold placedFrom at h
  rw [List.mem_flatMap] at h
  obtain ⟨source, hsource, hp⟩ := h
  obtain ⟨table, -, rfl⟩ := List.mem_map.mp hp
  exact (List.mem_zipIdx hsource).1

/-- Tables are filed data source by data source, and those of one are distinct. -/
theorem pairwise_placedFrom (n : Nat) (sources : List DataSource) :
    (placedFrom n sources).Pairwise fun p p' => p.1 < p'.1 ∨ p.1 = p'.1 ∧ ¬ p.2.Same p'.2 := by
  induction sources generalizing n with
  | nil => exact List.Pairwise.nil
  | cons source sources ih =>
      unfold placedFrom
      rw [List.zipIdx_cons, List.flatMap_cons, List.pairwise_append]
      refine ⟨?_, ih (n + 1), ?_⟩
      · rw [List.pairwise_map]
        exact source.distinct.imp fun hne => .inr ⟨rfl, hne⟩
      · intro p hp p' hp'
        obtain ⟨table, -, rfl⟩ := List.mem_map.mp hp
        have hle : n + 1 ≤ p'.1 := le_of_mem_placedFrom hp'
        left
        show n < p'.1
        omega

theorem exists_mem_placedFrom (n : Nat) {sources : List DataSource} {source : DataSource}
    (hsource : source ∈ sources) : ∃ i, ∀ table ∈ source.tables, (i, table) ∈ placedFrom n sources := by
  obtain ⟨i, hi, rfl⟩ := List.getElem_of_mem hsource
  refine ⟨n + i, ?_⟩
  intro table htable
  unfold placedFrom
  rw [List.mem_flatMap]
  exact ⟨(sources[i], n + i), List.mem_zipIdx_iff_le_and_getElem?_sub.mpr ⟨Nat.le_add_right n i, by simp⟩, List.mem_map_of_mem htable⟩

/-- What is loaded from data sources: every key has the columns of one table, and the tables reported are those
that occur in a data source before. -/
structure FilesTables (sources : List DataSource) (loaded : TcMapLoader) : Prop where
  entries : ∀ e ∈ loaded.mapper.entries, ∃ p ∈ placed sources, e = (p.2.stname, p.2.tcRecs)
  errors : ∀ error ∈ loaded.connectionErrors, ∃ p ∈ placed sources, error = tableRedefined p.1 p.2.stname
  redefined : ∀ p ∈ placed sources, tableRedefined p.1 p.2.stname ∈ loaded.connectionErrors ↔
    ∃ p' ∈ placed sources, p'.1 < p.1 ∧ p'.2.Same p.2

/-- The normalised names tell the tables of all data sources apart. -/
def NamesTellApart (sources : List DataSource) : Prop :=
  ∀ p ∈ placed sources, ∀ p' ∈ placed sources, p.2.stname = p'.2.stname → p.2.Same p'.2

section Sources

variable {sources : List DataSource} {loaded : TcMapLoader} {before behind : List (Nat × SourceTable)}
  {p p' : Nat × SourceTable}

theorem before_of_split (hsplit : placed sources = before ++ p :: behind) (hp' : p' ∈ before) :
    p'.1 < p.1 ∨ p'.1 = p.1 ∧ ¬ p'.2.Same p.2 := by
  have hpairs : (placed sources).Pairwise _ := pairwise_placedFrom 0 sources
  rw [hsplit, List.pairwise_append] at hpairs
  exact hpairs.2.2 p' hp' p List.mem_cons_self

theorem mem_before_of_lt (hsplit : placed sources = before ++ p :: behind) (hp' : p' ∈ placed sources)
    (hlt : p'.1 < p.1) : p' ∈ before := by
  have hpairs : (placed sources).Pairwise _ := pairwise_placedFrom 0 sources
  rw [hsplit, List.pairwise_append, List.pairwise_cons] at hpairs
  rw [hsplit, List.mem_append, List.mem_cons] at hp'
  rcases hp' with hp' | rfl | hp'
  · exact hp'
  · omega
  · have hlater := hpairs.2.1.1 p' hp'
    omega

theorem tableRedefined_inj {connPos connPos' : Nat} {stname stname' : DdlStname}
    (h : tableRedefined connPos stname = tableRedefined connPos' stname') :
    connPos = connPos' ∧ stname = stname' := by
  obtain ⟨hpos, hmsg⟩ := SqlsvrDdlConnectionError.mk.inj h
  refine ⟨hpos, DdlStname.ext ?_⟩
  exact List.append_cancel_left (List.append_cancel_right hmsg)

theorem filesTables_of_namesTellApart (h : NamesTellApart sources) :
    ∃ loaded, loadTcMapper (sources.map DataSource.rows) = .ok loaded ∧ FilesTables sources loaded := by
  have hchain : ∀ source ∈ sources, (source.tables.map SourceTable.stname).IsChain (· ≠ ·) := by
    intro source hsource
    obtain ⟨i, hplaced⟩ := exists_mem_placedFrom 0 hsource
    rw [List.isChain_map]
    apply List.Pairwise.isChain
    refine source.distinct.imp_of_mem ?_
    intro table table' htable htable' hne hsame
    exact hne (h _ (hplaced table htable) _ (hplaced table' htable') hsame)
  have hlater : ∀ {before p behind}, placed sources = before ++ p :: behind → ∀ p' ∈ before,
      p'.2.stname = p.2.stname → p'.1 < p.1 ∧ p'.2.Same p.2 := by
    intro before p behind hsplit p' hp' hname
    have hsame : p'.2.Same p.2 := by
      apply h _ _ _ _ hname
      · rw [hsplit]
        exact List.mem_append_left _ hp'
      · rw [hsplit]
        exact List.mem_append_right _ List.mem_cons_self
    rcases before_of_split hsplit hp' with hlt | ⟨-, hne⟩
    · exact ⟨hlt, hsame⟩
    · exact absurd hsame hne
  obtain ⟨loaded, hloaded⟩ : ∃ loaded, (placed sources).foldlM TcMapLoader.place ⟨∅, []⟩ = .ok loaded := by
    apply exists_foldlM_place
    rintro before p behind hsplit ⟨p', hp', hname⟩
    have hlt := (hlater hsplit p' hp' hname).1
    omega
  have hfiled := filed_of_foldlM hloaded
  refine ⟨loaded, (loadTcMapper_eq_ok_iff sources).mpr ⟨hchain, hloaded⟩, hfiled.entries, ?_, ?_⟩
  · intro error herror
    obtain ⟨before, p, behind, hsplit, -, rfl⟩ := (hfiled.connectionErrors error).mp herror
    exact ⟨p, by rw [hsplit]; exact List.mem_append_right _ List.mem_cons_self, rfl⟩
  · intro p hp
    constructor
    · intro herror
      obtain ⟨before, p₁, behind, hsplit, ⟨p', hp', hname⟩, heq⟩ := (hfiled.connectionErrors _).mp herror
      obtain ⟨hpos, hstname⟩ := tableRedefined_inj heq
      have hp₁ : p₁ ∈ placed sources := by
        rw [hsplit]
        exact List.mem_append_right _ List.mem_cons_self
      obtain ⟨hlt, hsame⟩ := hlater hsplit p' hp' hname
      refine ⟨p', ?_, hpos ▸ hlt, hsame.trans (h p₁ hp₁ p hp hstname.symm)⟩
      rw [hsplit]
      exact List.mem_append_left _ hp'
    · rintro ⟨p', hp', hlt, hsame⟩
      obtain ⟨before, behind, hsplit⟩ := List.append_of_mem hp
      exact (hfiled.connectionErrors _).mpr
        ⟨before, p, behind, hsplit, ⟨p', mem_before_of_lt hsplit hp' hlt, hsame.stname_eq⟩, rfl⟩

/-- A table of a name filed before is one filed before: the report about it shows that it occurs in a data
source before, and that one has been the table of this name by then. -/
theorem same_of_filesTables (hload : loadTcMapper (sources.map DataSource.rows) = .ok loaded)
    (h : FilesTables sources loaded) (hsplit : placed sources = before ++ p :: behind) (hp' : p' ∈ before)
    (hname : p'.2.stname = p.2.stname) : p'.2.Same p.2 := by
  have hfiled := filed_of_foldlM ((loadTcMapper_eq_ok_iff sources).mp hload).2
  induction hn : before.length using Nat.strong_induction_on generalizing before p p' behind with
  | _ n ih =>
      have hp : p ∈ placed sources := by
        rw [hsplit]
        exact List.mem_append_right _ List.mem_cons_self
      have herror : tableRedefined p.1 p.2.stname ∈ loaded.connectionErrors :=
        (hfiled.connectionErrors _).mpr ⟨before, p, behind, hsplit, ⟨p', hp', hname⟩, rfl⟩
      obtain ⟨p₁, hp₁, hlt, hsame⟩ := (h.redefined p hp).mp herror
      have hbefore : p₁ ∈ before := mem_before_of_lt hsplit hp₁ hlt
      have hnames : p'.2.stname = p₁.2.stname := hname.trans hsame.stname_eq.symm
      -- of the two tables in front of this one, one stands in front of the other
      have hearlier : ∀ {p₂ p₃ : Nat × SourceTable} {l₁ l₂ : List (Nat × SourceTable)}, before = l₁ ++ p₃ :: l₂ →
          p₂ ∈ l₁ → p₂.2.stname = p₃.2.stname → p₂.2.Same p₃.2 := by
        intro p₂ p₃ l₁ l₂ hl hp₂ heq
        have hearlier : placed sources = l₁ ++ p₃ :: (l₂ ++ p :: behind) := by
          rw [hsplit, hl, List.append_assoc]
          rfl
        refine ih l₁.length ?_ hearlier hp₂ heq rfl
        rw [← hn, hl, List.length_append, List.length_cons]
        omega
      have hboth : p'.2.Same p₁.2 := by
        obtain ⟨l₁, l₂, hl⟩ := List.append_of_mem hbefore
        rw [hl, List.mem_append, List.mem_cons] at hp'
        rcases hp' with hp' | rfl | hp'
        · exact hearlier hl hp' hnames
        · exact ⟨rfl, rfl⟩
        · obtain ⟨l₃, l₄, hl₂⟩ := List.append_of_mem hp'
          have hl' : before = (l₁ ++ p₁ :: l₃) ++ p' :: l₄ := by rw [hl, hl₂]; simp
          refine (hearlier hl' ?_ hnames.symm).symm
          exact List.mem_append_right _ List.mem_cons_self
      exact hboth.trans hsame

theorem namesTellApart_of_filesTables (hload : loadTcMapper (sources.map DataSource.rows) = .ok loaded)
    (h : FilesTables sources loaded) : NamesTellApart sources := by
  intro p hp p' hp' hname
  obtain ⟨before, behind, hsplit⟩ := List.append_of_mem hp
  rw [hsplit, List.mem_append, List.mem_cons] at hp'
  rcases hp' with hp' | rfl | hp'
  · exact (same_of_filesTables hload h hsplit hp' hname.symm).symm
  · exact ⟨rfl, rfl⟩
  · obtain ⟨l₁, l₂, hl⟩ := List.append_of_mem hp'
    have hsplit' : placed sources = (before ++ p :: l₁) ++ p' :: l₂ := by rw [hsplit, hl]; simp
    exact same_of_filesTables hload h hsplit' (List.mem_append_right _ List.mem_cons_self) hname

end Sources

/-- The tables of data sources are loaded as they should be exactly when the normalised names tell them apart. -/
theorem loadTcMapper_filesTables_iff (sources : List DataSource) :
    (∃ loaded, loadTcMapper (sources.map DataSource.rows) = .ok loaded ∧ FilesTables sources loaded) ↔
      NamesTellApart sources := by
  constructor
  · rintro ⟨loaded, hload, h⟩
    exact namesTellApart_of_filesTables hload h
  · exact filesTables_of_namesTellApart

/-- A table with one column `a INT`. -/
def oneColumn (schemaName tableName : String) (hschema : schemaName.toList ≠ []) (htable : tableName.toList ≠ []) :
    SourceTable where
  schemaName := schemaName.toList
  tableName := tableName.toList
  rows := [
    { schemaName := schemaName.toList, tableName := tableName.toList, columnName := "a".toList
      columnPos := some 1, defaultVal := none, nullable := "YES".toList, datatype := "int".toList
      charMaxLen := none, charOctLen := none, numPrec := some 10, numPrecRad := some 10, numScale := some 0
      dtPrec := none, charsetName := none, identity := some 0 }]
  nonempty := List.cons_ne_nil _ _
  named := by simp
  checked := by simp [TcRow.checked, hschema, htable]
  positions := rfl

/-- Two tables whose names have blanks are taken for one, which fails the assertion on the positions of its
columns. -/
theorem loadTcMapper_blank_names :
    ∃ source : DataSource, source.tables = [oneColumn "dbo" "a b" (by decide) (by decide),
        oneColumn "dbo" "c d" (by decide) (by decide)] ∧
      loadTcMapper ([source].map DataSource.rows) = .error .assertion := by
  refine ⟨⟨_, ?_⟩, rfl, rfl⟩
  simp only [List.pairwise_cons, List.mem_singleton, forall_eq, SourceTable.Same]
  decide

end Middle.SqlsvrDdl
