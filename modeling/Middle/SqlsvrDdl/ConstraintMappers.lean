import Middle.Lib.Filing
import Middle.Lib.Runs
import Middle.SqlsvrDdl.Queries

/-! Loading the check, unique and primary key metadata (`sqlsvr_ddl_ck_map_loader`, `sqlsvr_ddl_uq_map_loader`,
`sqlsvr_ddl_pk_map_loader`). The rows of a check or unique query are cut into columns where the normalised name
changes, and the records of each piece are filed under that name. -/

namespace Middle.SqlsvrDdl

open Lib Universals NormalDdl

/-- The map a loader fills, and its `connection_errors`. -/
abbrev MapLoader (ν : Type) := Filing DdlStcname ν SqlsvrDdlConnectionError

/-- What is reported about a column that is defined already. -/
def columnRedefined (kind : Text) (connPos : Nat) (stcname : DdlStcname) : SqlsvrDdlConnectionError :=
  ⟨connPos, kind ++ " column ".toList ++ stcname.name ++ " redefined".toList⟩

/-- `insert_ck_recs`, `insert_uq_recs` and `insert_pk_rec`. -/
def MapLoader.insert {ν : Type} (kind : Text) (connPos : Nat) (loader : MapLoader ν) (stcname : DdlStcname)
    (v : ν) : Except Fault (MapLoader ν) :=
  let inserted := loader.map.insert stcname v
  if inserted.2 then .ok { loader with map := inserted.1 }
  else if connPos = 0 then .error .assertion
  else .ok { loader with notes := loader.notes ++ [columnRedefined kind connPos stcname] }

/-! ### Check and unique constraints -/

/-- A row of the check query. A `NULL` fails the assertion on its column as an empty text does. -/
structure CkRow where
  schemaName : Text
  tableName : Text
  columnName : Text
  constraintName : Text
  checkClause : Text
  deriving DecidableEq

/-- A row of the unique query. -/
structure UqRow where
  schemaName : Text
  tableName : Text
  columnName : Text
  constraintName : Text
  deriving DecidableEq

/-- What `load_ck_mapper` and `load_uq_mapper` do differently: the rows they read and the records they make. -/
structure RecQuery (ρ α : Type) where
  kind : Text
  checked : ρ → Bool
  stcname : ρ → DdlStcname
  record : ρ → α

/-- What the loop over the rows of a data source remembers. -/
structure RecGroup (α : Type) where
  loader : MapLoader (List α)
  stcname : DdlStcname := .empty
  lastStcname : DdlStcname := .empty
  recs : List α := []

namespace RecQuery

variable {ρ α : Type} (query : RecQuery ρ α)

/-- The turn of the loop for a row. -/
def loadRow (connPos : Nat) (st : RecGroup α) (row : ρ) : Except Fault (RecGroup α) := do
  if !query.checked row then throw .assertion
  let stcname := query.stcname row
  let (loader, recs) ←
    if stcname ≠ st.lastStcname ∧ st.recs ≠ [] then
      (MapLoader.insert query.kind connPos st.loader st.lastStcname st.recs).map fun loader => (loader, [])
    else pure (st.loader, st.recs)
  return ⟨loader, stcname, stcname, recs ++ [query.record row]⟩

/-- What is done behind the loop. -/
def finish (connPos : Nat) (st : RecGroup α) : Except Fault (MapLoader (List α)) :=
  if st.recs = [] then .ok st.loader else MapLoader.insert query.kind connPos st.loader st.stcname st.recs

/-- The rows of a data source. -/
def loadConn (connPos : Nat) (loader : MapLoader (List α)) (rows : List ρ) :
    Except Fault (MapLoader (List α)) := do
  let st ← rows.foldlM (query.loadRow connPos) { loader }
  query.finish connPos st

/-- The loop over the connections, given the rows of each. -/
def loadMapper (conns : List (List ρ)) : Except Fault (MapLoader (List α)) :=
  conns.zipIdx.foldlM (fun loader conn => query.loadConn conn.2 loader conn.1) {}

end RecQuery

def ckQuery : RecQuery CkRow SqlsvrDdlCkRec where
  kind := "ck".toList
  checked row := row.schemaName ≠ [] ∧ row.tableName ≠ [] ∧ row.columnName ≠ [] ∧ row.constraintName ≠ [] ∧
    row.checkClause ≠ []
  stcname row := .make row.schemaName row.tableName row.columnName
  record row := { constraintName := row.constraintName, checkClause := row.checkClause }

def uqQuery : RecQuery UqRow SqlsvrDdlUqRec where
  kind := "uq".toList
  checked row := row.schemaName ≠ [] ∧ row.tableName ≠ [] ∧ row.columnName ≠ [] ∧ row.constraintName ≠ []
  stcname row := .make row.schemaName row.tableName row.columnName
  record row := { constraintName := row.constraintName }

/-- `load_ck_mapper`. -/
def loadCkMapper : List (List CkRow) → Except Fault (MapLoader (List SqlsvrDdlCkRec)) := ckQuery.loadMapper

/-- `load_uq_mapper`. -/
def loadUqMapper : List (List UqRow) → Except Fault (MapLoader (List SqlsvrDdlUqRec)) := uqQuery.loadMapper

/-! ### Primary keys -/

/-- A row of the primary key query. Only the name of the schema is asserted not to be empty. -/
structure PkRow where
  schemaName : Text
  tableName : Option Text
  columnName : Option Text
  deriving DecidableEq

namespace PkRow

def checked (row : PkRow) : Bool := row.schemaName ≠ [] ∧ row.tableName.isSome ∧ row.columnName.isSome

def stcname (row : PkRow) : DdlStcname :=
  .make row.schemaName (row.tableName.getD []) (row.columnName.getD [])

/-- What `load_pk_mapper` does for a row. -/
def load (connPos : Nat) (loader : MapLoader SqlsvrDdlPkRec) (row : PkRow) :
    Except Fault (MapLoader SqlsvrDdlPkRec) :=
  if !row.checked then .error .assertion else MapLoader.insert "pk".toList connPos loader row.stcname {}

end PkRow

/-- `load_pk_mapper`, given the rows of each connection. -/
def loadPkMapper (conns : List (List PkRow)) : Except Fault (MapLoader SqlsvrDdlPkRec) :=
  conns.zipIdx.foldlM (fun loader conn => conn.1.foldlM (PkRow.load conn.2) loader) {}

/-! ### What is filed -/

/-- What comes of a column that is defined already: it may not be one of the first data source. -/
def redefined (kind : Text) (connPos : Nat) (stcname : DdlStcname) : Except Fault SqlsvrDdlConnectionError :=
  if connPos = 0 then .error .assertion else .ok (columnRedefined kind connPos stcname)

theorem MapLoader.insert_eq_file {ν : Type} (kind : Text) (connPos : Nat) (loader : MapLoader ν)
    (stcname : DdlStcname) (v : ν) :
    MapLoader.insert kind connPos loader stcname v =
      Filing.file loader ⟨stcname, v, redefined kind connPos stcname⟩ := by
  unfold MapLoader.insert Filing.file redefined
  by_cases hmem : stcname ∈ loader.map.keys
  · rw [UnorderedMap.insert_of_mem hmem, if_pos hmem]
    dsimp only
    split
    · contradiction
    · split
      · rfl
      · rfl
  · rw [if_neg hmem, if_pos ((UnorderedMap.insert_snd _ _ _).mpr hmem)]

/-- A column with what is kept under it, as it is filed. -/
def columnEntry {ν : Type} (kind : Text) (connPos : Nat) (e : DdlStcname × ν) :
    Entry DdlStcname ν SqlsvrDdlConnectionError Fault := ⟨e.1, e.2, redefined kind connPos e.1⟩

/-- When the rows of each data source are loaded by filing its columns, so are those of all. -/
theorem foldlM_conns_eq_ok_iff {ρ ν : Type} {kind : Text} {checked : ρ → Bool} {columns : List ρ → List (DdlStcname × ν)}
    (loadConn : Nat → MapLoader ν → List ρ → Except Fault (MapLoader ν))
    (hconn : ∀ connPos rows loader loader', loadConn connPos loader rows = .ok loader' ↔
      (∀ row ∈ rows, checked row = true) ∧
        ((columns rows).map (columnEntry kind connPos)).foldlM Filing.file loader = .ok loader')
    {conns : List (List ρ)} {loaded : MapLoader ν} :
    conns.zipIdx.foldlM (fun loader conn => loadConn conn.2 loader conn.1) {} = .ok loaded ↔
      (∀ conn ∈ conns, ∀ row ∈ conn, checked row = true) ∧
        (Filing.placed (redefined kind) (conns.map columns)).foldlM Filing.file {} = .ok loaded := by
  have hfrom : ∀ (n : Nat) (loader : MapLoader ν),
      (conns.zipIdx n).foldlM (fun loader conn => loadConn conn.2 loader conn.1) loader = .ok loaded ↔
        (∀ conn ∈ conns, ∀ row ∈ conn, checked row = true) ∧
          (Filing.placedFrom (redefined kind) n (conns.map columns)).foldlM Filing.file loader = .ok loaded := by
    induction conns with
    | nil =>
        intro n loader
        rw [and_iff_right (List.forall_mem_nil _)]
        exact Iff.rfl
    | cons conn conns ih =>
        intro n loader
        rw [List.zipIdx_cons, List.foldlM_cons, List.map_cons, Filing.placedFrom_cons, List.foldlM_append, bind_eq_ok,
          bind_eq_ok, List.forall_mem_cons]
        simp only [hconn, ih]
        constructor
        · rintro ⟨loader', ⟨hrows, hfiled⟩, hconns, hrest⟩
          exact ⟨⟨hrows, hconns⟩, loader', hfiled, hrest⟩
        · rintro ⟨⟨hrows, hconns⟩, loader', hfiled, hrest⟩
          exact ⟨loader', ⟨hrows, hfiled⟩, hconns, hrest⟩
  exact hfrom 0 {}

namespace RecQuery

variable {ρ α : Type} (query : RecQuery ρ α)

/-- What a data source has: its columns as the rows are cut, with their records. -/
abbrev columns (rows : List ρ) : List (DdlStcname × List α) := groups query.stcname query.record rows

variable {query} {connPos : Nat}

/-- The turn of the loop for a row behind others of a column. -/
theorem loadRow_pending (loader : MapLoader (List α)) (k : DdlStcname) {rows : List ρ} (hne : rows ≠ []) (row : ρ) :
    query.loadRow connPos ⟨loader, k, k, rows.map query.record⟩ row =
      if query.checked row = false then .error .assertion
      else if query.stcname row = k then .ok ⟨loader, k, k, (rows ++ [row]).map query.record⟩
      else (MapLoader.insert query.kind connPos loader k (rows.map query.record)).map fun loader =>
        ⟨loader, query.stcname row, query.stcname row, [row].map query.record⟩ := by
  unfold loadRow
  cases query.checked row with
  | false => rfl
  | true =>
      have hrecs : rows.map query.record ≠ [] := by simpa using hne
      by_cases hkey : query.stcname row = k
      · simp [hkey, bind, Except.bind, pure, Except.pure]
      · rw [if_neg hkey]
        cases MapLoader.insert query.kind connPos loader k (rows.map query.record) with
        | error e => simp [hkey, hrecs, bind, Except.bind, Except.map]
        | ok loader => simp [hkey, hrecs, bind, Except.bind, Except.map, pure, Except.pure]

/-- The rows behind some of one column: each piece is filed at the row behind it or behind the loop. -/
theorem foldlM_loadRow_pending {loader loader' : MapLoader (List α)} {k : DdlStcname} {rows : List ρ}
    (hne : rows ≠ []) (hkey : ∀ row ∈ rows, query.stcname row = k) (rest : List ρ) :
    (rest.foldlM (query.loadRow connPos) ⟨loader, k, k, rows.map query.record⟩ >>= query.finish connPos) =
        .ok loader' ↔
      (∀ row ∈ rest, query.checked row = true) ∧
        ((query.columns (rows ++ rest)).map (columnEntry query.kind connPos)).foldlM Filing.file loader = .ok loader' := by
  induction rest generalizing loader k rows with
  | nil =>
      have hfinish : query.finish connPos ⟨loader, k, k, rows.map query.record⟩ =
          Filing.file loader (columnEntry query.kind connPos (k, rows.map query.record)) := by
        unfold finish
        rw [if_neg (by simpa using hne), MapLoader.insert_eq_file]
        rfl
      rw [List.append_nil, columns, groups_of_forall hne hkey, and_iff_right (List.forall_mem_nil _)]
      show query.finish connPos _ = _ ↔ (Filing.file loader _ >>= pure) = _
      rw [bind_pure, hfinish]
  | cons row rest ih =>
      rw [List.foldlM_cons, loadRow_pending loader k hne, List.forall_mem_cons]
      cases hchecked : query.checked row with
      | false =>
          constructor
          · intro h
            cases h
          · rintro ⟨⟨h, -⟩, -⟩
            cases h
      | true =>
          rw [if_neg Bool.noConfusion, and_iff_right rfl]
          by_cases hrow : query.stcname row = k
          · rw [if_pos hrow]
            have hkey' : ∀ r ∈ rows ++ [row], query.stcname r = k := by
              simpa [or_imp, forall_and, hrow] using hkey
            have hnext := @ih loader k _ (by simp) hkey'
            rw [List.append_assoc, List.singleton_append] at hnext
            exact hnext
          · rw [if_neg hrow, MapLoader.insert_eq_file, columns, groups_append_cons hne hkey hrow]
            change _ ↔ _ ∧ (Filing.file loader (columnEntry query.kind connPos (k, rows.map query.record)) >>= fun loader =>
              ((query.columns (row :: rest)).map (columnEntry query.kind connPos)).foldlM Filing.file loader) = _
            rw [columnEntry]
            cases Filing.file loader (⟨k, rows.map query.record, redefined query.kind connPos k⟩ :
                Entry DdlStcname (List α) SqlsvrDdlConnectionError Fault) with
            | error e =>
                constructor
                · intro h
                  cases h
                · rintro ⟨-, h⟩
                  cases h
            | ok loader =>
                exact @ih loader _ [row] (List.cons_ne_nil _ _) (by simp)

/-- The rows of a data source are loaded by filing its columns. -/
theorem loadConn_eq_ok_iff {loader loader' : MapLoader (List α)} {rows : List ρ} :
    query.loadConn connPos loader rows = .ok loader' ↔
      (∀ row ∈ rows, query.checked row = true) ∧
        ((query.columns rows).map (columnEntry query.kind connPos)).foldlM Filing.file loader = .ok loader' := by
  cases rows with
  | nil =>
      rw [and_iff_right (List.forall_mem_nil _)]
      exact Iff.rfl
  | cons row rows =>
      have hfirst : query.loadRow connPos { loader } row =
          if query.checked row = false then .error .assertion
          else .ok ⟨loader, query.stcname row, query.stcname row, [row].map query.record⟩ := by
        unfold loadRow
        cases query.checked row with
        | false => rfl
        | true => simp [bind, Except.bind, pure, Except.pure]
      unfold loadConn
      rw [List.foldlM_cons, hfirst, List.forall_mem_cons]
      cases query.checked row with
      | false =>
          constructor
          · intro h
            cases h
          · rintro ⟨⟨h, -⟩, -⟩
            cases h
      | true =>
          rw [if_neg Bool.noConfusion, and_iff_right rfl]
          exact foldlM_loadRow_pending (List.cons_ne_nil _ _) (by simp) rows

/-- The rows of all data sources are loaded by filing their columns. -/
theorem loadMapper_eq_ok_iff {conns : List (List ρ)} {loaded : MapLoader (List α)} :
    query.loadMapper conns = .ok loaded ↔
      (∀ conn ∈ conns, ∀ row ∈ conn, query.checked row = true) ∧
        (Filing.placed (redefined query.kind) (conns.map query.columns)).foldlM Filing.file {} = .ok loaded :=
  foldlM_conns_eq_ok_iff query.loadConn fun _ _ _ _ => loadConn_eq_ok_iff

end RecQuery

/-! ### What is loaded -/

theorem columnRedefined_inj {kind : Text} {connPos connPos' : Nat} {stcname stcname' : DdlStcname}
    (h : columnRedefined kind connPos stcname = columnRedefined kind connPos' stcname') :
    connPos = connPos' ∧ stcname = stcname' := by
  obtain ⟨hpos, hmsg⟩ := SqlsvrDdlConnectionError.mk.inj h
  refine ⟨hpos, DdlStcname.ext ?_⟩
  exact List.append_cancel_left (List.append_cancel_right hmsg)

/-- The data source at a position has a row of a column. -/
def DefinesColumn {ρ : Type} (stcname : ρ → DdlStcname) (conns : List (List ρ)) (connPos : Nat) (k : DdlStcname) :
    Prop := ∃ conn, conns[connPos]? = some conn ∧ k ∈ conn.map stcname

/-- The errors of a loader: one for each column of a data source that a data source before has, too. -/
structure ReportsRedefined (kind : Text) (Defines : Nat → DdlStcname → Prop)
    (errors : List SqlsvrDdlConnectionError) : Prop where
  mem_iff : ∀ error, error ∈ errors ↔ ∃ connPos stcname, error = columnRedefined kind connPos stcname ∧
    Defines connPos stcname ∧ ∃ connPos' < connPos, Defines connPos' stcname
  nodup : errors.Nodup

theorem reportsRedefined_repeated {ν : Type} (kind : Text) {Defines : Nat → DdlStcname → Prop}
    {sources : List (List (DdlStcname × ν))} (hnodup : ∀ source ∈ sources, (source.map Prod.fst).Nodup)
    (hkeys : ∀ connPos k, Filing.HasKey sources connPos k ↔ Defines connPos k) :
    ReportsRedefined kind Defines ((Filing.repeated sources).map fun p => columnRedefined kind p.1 p.2) := by
  constructor
  · intro error
    simp only [List.mem_map, Filing.mem_repeated_iff, hkeys]
    constructor
    · rintro ⟨p, hp, rfl⟩
      exact ⟨p.1, p.2, rfl, hp⟩
    · rintro ⟨connPos, stcname, rfl, hp⟩
      exact ⟨(connPos, stcname), hp, rfl⟩
  · refine (Filing.nodup_repeated hnodup).map ?_
    intro p p' h
    obtain ⟨hpos, hstcname⟩ := columnRedefined_inj h
    exact Prod.ext hpos hstcname

theorem redefined_zero_ne_ok {kind : Text} (stcname : DdlStcname) (error : SqlsvrDdlConnectionError) :
    redefined kind 0 stcname ≠ .ok error := by
  intro h
  cases h

theorem redefined_of_ne_zero (kind : Text) {connPos : Nat} (h : connPos ≠ 0) (stcname : DdlStcname) :
    redefined kind connPos stcname = .ok (columnRedefined kind connPos stcname) := if_neg h

namespace RecQuery

variable {ρ α : Type} {query : RecQuery ρ α} {conns : List (List ρ)}

/-- Check or unique constraints can be loaded exactly when all rows pass the assertions and the rows of each column
stand one behind the other in the first data source. -/
theorem exists_loadMapper_eq_ok_iff :
    (∃ loaded, query.loadMapper conns = .ok loaded) ↔
      (∀ conn ∈ conns, ∀ row ∈ conn, query.checked row = true) ∧
        ∀ conn ∈ conns.head?, Together query.stcname conn := by
  simp only [loadMapper_eq_ok_iff, exists_and_left]
  rw [Filing.exists_foldlM_file_placed_iff redefined_zero_ne_ok
    fun connPos k hne => ⟨_, redefined_of_ne_zero query.kind hne k⟩, List.head?_map]
  simp only [Option.mem_def, Option.map_eq_some_iff, forall_exists_index, and_imp, forall_apply_eq_imp_iff₂,
    keys_groups, nodup_keys_runs_iff]

/-- What is loaded from rows that stand together in each data source: the records of a column are those of all its
rows in the first data source that has any. -/
structure LoadsRecs (query : RecQuery ρ α) (conns : List (List ρ)) (loaded : MapLoader (List α)) : Prop where
  find : ∀ k, loaded.map.find k = (conns.find? fun conn => k ∈ conn.map query.stcname).map fun conn =>
    (conn.filter (query.stcname · = k)).map query.record
  errors : ReportsRedefined query.kind (DefinesColumn query.stcname conns) loaded.notes

theorem loadsRecs (hchecked : ∀ conn ∈ conns, ∀ row ∈ conn, query.checked row = true)
    (htogether : ∀ conn ∈ conns, Together query.stcname conn) :
    ∃ loaded, query.loadMapper conns = .ok loaded ∧ query.LoadsRecs conns loaded := by
  have hnodup : ∀ source ∈ conns.map query.columns, (source.map Prod.fst).Nodup := by
    rw [List.forall_mem_map]
    intro conn hconn
    rw [keys_groups]
    exact nodup_keys_runs_iff.mpr (htogether conn hconn)
  have hfile := Filing.foldlM_file_placed (columnRedefined query.kind) hnodup
    fun connPos k hne => redefined_of_ne_zero query.kind hne k
  refine ⟨_, loadMapper_eq_ok_iff.mpr ⟨hchecked, hfile⟩, ?_, ?_⟩
  · intro k
    dsimp only
    rw [Filing.find_insertAll, UnorderedMap.find_empty, Option.none_or, Filing.find?_placedFrom,
      find?_groups htogether]
  · apply reportsRedefined_repeated query.kind hnodup
    intro connPos k
    unfold Filing.HasKey DefinesColumn
    simp only [List.getElem?_map, Option.map_eq_some_iff]
    constructor
    · rintro ⟨source, ⟨conn, hconn, rfl⟩, hmem⟩
      exact ⟨conn, hconn, (mem_keys_groups_iff query.record).mp hmem⟩
    · rintro ⟨conn, hconn, hmem⟩
      exact ⟨_, ⟨conn, hconn, rfl⟩, (mem_keys_groups_iff query.record).mpr hmem⟩

/-- Loaded without an error, the records of a column are those of all its rows. -/
theorem find_of_loadMapper {m : UnorderedMap DdlStcname (List α)} (h : query.loadMapper conns = .ok ⟨m, []⟩)
    (k : DdlStcname) (recs : List α) :
    m.find k = some recs ↔
      recs ≠ [] ∧ recs = (conns.flatten.filter (query.stcname · = k)).map query.record := by
  obtain ⟨-, hfile⟩ := loadMapper_eq_ok_iff.mp h
  obtain ⟨hnodup, rfl⟩ := Filing.foldlM_file_eq_ok_nil_iff.mp hfile
  have hkeys : (Filing.placed (redefined query.kind) (conns.map query.columns)).map Entry.key =
      (conns.map query.columns).flatten.map Prod.fst := Filing.keys_placedFrom _ _ _
  rw [hkeys] at hnodup
  rw [Filing.find_insertAll, UnorderedMap.find_empty, Option.none_or, Filing.find?_placedFrom,
    find?_groups_eq_some_iff hnodup]

end RecQuery

/-- The rows of a check constraint over two columns and of one over the first of them, and those of a second data
source with one of these columns and with another one. -/
def ckRows : List (List CkRow) := [
  [⟨"dbo".toList, "T".toList, "a".toList, "ck1".toList, "a>0".toList⟩,
    ⟨"dbo".toList, "t".toList, "A".toList, "ck2".toList, "a<b".toList⟩,
    ⟨"dbo".toList, "t".toList, "b".toList, "ck2".toList, "a<b".toList⟩],
  [⟨"dbo".toList, "t".toList, "b".toList, "ck3".toList, "b>0".toList⟩,
    ⟨"dbo".toList, "u".toList, "b".toList, "ck4".toList, "b>0".toList⟩]]

theorem loadCkMapper_ckRows :
    ∃ loaded, loadCkMapper ckRows = .ok loaded ∧ ckQuery.LoadsRecs ckRows loaded ∧
      (loaded.map.find (.make "dbo".toList "t".toList "a".toList)).map List.length = some 2 ∧
      loaded.notes = [⟨1, "ck column dbo.t.b redefined".toList⟩] := by
  obtain ⟨loaded, hload, hspec⟩ := @RecQuery.loadsRecs _ _ ckQuery ckRows (by decide) (by
    intro conn hconn
    rw [← nodup_keys_runs_iff]
    revert conn
    decide)
  have hrun : loadCkMapper ckRows = .ok _ := rfl
  refine ⟨loaded, hload, hspec, ?_⟩
  obtain rfl := Except.ok.inj (hrun.symm.trans hload)
  exact ⟨rfl, rfl⟩

/-! ### Primary keys -/

/-- The columns of a data source with their records. -/
def pkColumns (rows : List PkRow) : List (DdlStcname × SqlsvrDdlPkRec) := rows.map fun row => (row.stcname, {})

theorem foldlM_load_eq_ok_iff (connPos : Nat) (rows : List PkRow) (loader loader' : MapLoader SqlsvrDdlPkRec) :
    rows.foldlM (PkRow.load connPos) loader = .ok loader' ↔ (∀ row ∈ rows, row.checked = true) ∧
      ((pkColumns rows).map (columnEntry "pk".toList connPos)).foldlM Filing.file loader = .ok loader' := by
  induction rows generalizing loader with
  | nil =>
      rw [and_iff_right (List.forall_mem_nil _)]
      exact Iff.rfl
  | cons row rows ih =>
      rw [pkColumns, List.map_cons, List.map_cons, List.foldlM_cons, List.foldlM_cons, bind_eq_ok, bind_eq_ok,
        List.forall_mem_cons, PkRow.load, MapLoader.insert_eq_file]
      simp only [ih]
      cases row.checked with
      | false => simp
      | true =>
          simp only [Bool.not_true, Bool.false_eq_true, if_false, true_and]
          constructor
          · rintro ⟨loader₁, hrow, hchecked, hrest⟩
            exact ⟨hchecked, loader₁, hrow, hrest⟩
          · rintro ⟨hchecked, loader₁, hrow, hrest⟩
            exact ⟨loader₁, hrow, hchecked, hrest⟩

theorem loadPkMapper_eq_ok_iff {conns : List (List PkRow)} {loaded : MapLoader SqlsvrDdlPkRec} :
    loadPkMapper conns = .ok loaded ↔
      (∀ conn ∈ conns, ∀ row ∈ conn, row.checked = true) ∧
        (Filing.placed (redefined "pk".toList) (conns.map pkColumns)).foldlM Filing.file {} = .ok loaded :=
  foldlM_conns_eq_ok_iff (fun connPos loader rows => rows.foldlM (PkRow.load connPos) loader) foldlM_load_eq_ok_iff

theorem keys_pkColumns (rows : List PkRow) : (pkColumns rows).map Prod.fst = rows.map PkRow.stcname := by
  unfold pkColumns
  rw [List.map_map]
  rfl

/-- Primary keys can be loaded exactly when all rows pass the assertions and no column of the first data source has
two rows. -/
theorem exists_loadPkMapper_eq_ok_iff {conns : List (List PkRow)} :
    (∃ loaded, loadPkMapper conns = .ok loaded) ↔
      (∀ conn ∈ conns, ∀ row ∈ conn, row.checked = true) ∧
        ∀ conn ∈ conns.head?, (conn.map PkRow.stcname).Nodup := by
  simp only [loadPkMapper_eq_ok_iff, exists_and_left]
  rw [Filing.exists_foldlM_file_placed_iff redefined_zero_ne_ok
    fun connPos k hne => ⟨_, redefined_of_ne_zero "pk".toList hne k⟩, List.head?_map]
  simp only [Option.mem_def, Option.map_eq_some_iff, forall_exists_index, and_imp, forall_apply_eq_imp_iff₂,
    keys_pkColumns]

/-- What is loaded from rows of which no two in one data source are about the same column: the columns that have a row,
and an error for each that a data source in front has, too. -/
theorem loadPkMapper_spec {conns : List (List PkRow)}
    (hchecked : ∀ conn ∈ conns, ∀ row ∈ conn, row.checked = true)
    (hnodup : ∀ conn ∈ conns, (conn.map PkRow.stcname).Nodup) :
    ∃ loaded, loadPkMapper conns = .ok loaded ∧
      (∀ k, (loaded.map.find k).isSome ↔ ∃ connPos, DefinesColumn PkRow.stcname conns connPos k) ∧
      ReportsRedefined "pk".toList (DefinesColumn PkRow.stcname conns) loaded.notes := by
  have hkeys : ∀ source ∈ conns.map pkColumns, (source.map Prod.fst).Nodup := by
    rw [List.forall_mem_map]
    intro conn hconn
    rw [keys_pkColumns]
    exact hnodup conn hconn
  have hfile := Filing.foldlM_file_placed (columnRedefined "pk".toList) hkeys
    fun connPos k hne => redefined_of_ne_zero "pk".toList hne k
  refine ⟨_, loadPkMapper_eq_ok_iff.mpr ⟨hchecked, hfile⟩, ?_, ?_⟩
  · intro k
    dsimp only
    rw [Filing.find_insertAll, UnorderedMap.find_empty, Option.none_or, Filing.find?_placedFrom, Option.isSome_map,
      List.find?_isSome]
    unfold DefinesColumn
    simp only [List.mem_flatten, List.mem_map, exists_exists_and_eq_and, decide_eq_true_iff]
    constructor
    · rintro ⟨e, ⟨conn, hconn, he⟩, rfl⟩
      obtain ⟨connPos, hpos⟩ := List.mem_iff_getElem?.mp hconn
      obtain ⟨row, hrow, rfl⟩ := List.mem_map.mp he
      exact ⟨connPos, conn, hpos, row, hrow, rfl⟩
    · rintro ⟨connPos, conn, hpos, row, hrow, rfl⟩
      exact ⟨_, ⟨conn, List.mem_of_getElem? hpos, List.mem_map_of_mem hrow⟩, rfl⟩
  · apply reportsRedefined_repeated "pk".toList hkeys
    intro connPos k
    unfold Filing.HasKey DefinesColumn
    simp only [List.getElem?_map, Option.map_eq_some_iff, exists_exists_and_eq_and, keys_pkColumns]

/-- The rows of a key over two columns, and that of one of them in a second data source. -/
def pkRows : List (List PkRow) := [
  [⟨"dbo".toList, some "t".toList, some "a".toList⟩, ⟨"dbo".toList, some "t".toList, some "b".toList⟩],
  [⟨"dbo".toList, some "T".toList, some "B".toList⟩]]

theorem loadPkMapper_pkRows :
    ∃ loaded, loadPkMapper pkRows = .ok loaded ∧
      ReportsRedefined "pk".toList (DefinesColumn PkRow.stcname pkRows) loaded.notes ∧
      loaded.notes = [⟨1, "pk column dbo.t.b redefined".toList⟩] := by
  obtain ⟨loaded, hload, -, herrors⟩ := @loadPkMapper_spec pkRows (by decide) (by decide)
  have hrun : loadPkMapper pkRows = .ok _ := rfl
  refine ⟨loaded, hload, herrors, ?_⟩
  obtain rfl := Except.ok.inj (hrun.symm.trans hload)
  rfl

theorem find_of_loadPkMapper {conns : List (List PkRow)} {m : UnorderedMap DdlStcname SqlsvrDdlPkRec}
    (h : loadPkMapper conns = .ok ⟨m, []⟩) (k : DdlStcname) (pkRec : SqlsvrDdlPkRec) :
    m.find k = some pkRec ↔ pkRec = {} ∧ ∃ row ∈ conns.flatten, row.stcname = k := by
  obtain ⟨-, hfile⟩ := loadPkMapper_eq_ok_iff.mp h
  obtain ⟨-, rfl⟩ := Filing.foldlM_file_eq_ok_nil_iff.mp hfile
  have hcolumns : (conns.map pkColumns).flatten =
      conns.flatten.map fun row => (row.stcname, ({} : SqlsvrDdlPkRec)) := List.map_flatten.symm
  have hfind : ((conns.flatten.map fun row => (row.stcname, ({} : SqlsvrDdlPkRec))).find? (·.1 = k)).map Prod.snd =
      (conns.flatten.find? (·.stcname = k)).map fun _ => {} := by
    rw [List.find?_map, Option.map_map]
    rfl
  rw [Filing.find_insertAll, UnorderedMap.find_empty, Option.none_or, Filing.find?_placedFrom, hcolumns, hfind,
    Option.map_eq_some_iff]
  constructor
  · rintro ⟨row, hrow, rfl⟩
    exact ⟨rfl, row, List.mem_of_find?_eq_some hrow, by simpa using List.find?_some hrow⟩
  · rintro ⟨rfl, row, hrow, hkey⟩
    have hsome : (conns.flatten.find? (·.stcname = k)).isSome := by
      rw [List.find?_isSome]
      exact ⟨row, hrow, by simpa using hkey⟩
    obtain ⟨row', hrow'⟩ := Option.isSome_iff_exists.mp hsome
    exact ⟨row', hrow', rfl⟩

end Middle.SqlsvrDdl
