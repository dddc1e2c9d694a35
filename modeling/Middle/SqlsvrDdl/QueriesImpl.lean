import Middle.SqlsvrDdl.ConstraintMappers
import Middle.SqlsvrDdl.TcMapper

/-! Loading all metadata (the constructor of `sqlsvr_ddl_queries_impl`). Data sources that cannot be connected to are
reported before anything is loaded; what the five loaders report is reported together. -/

namespace Middle.SqlsvrDdl

open Lib Universals NormalDdl

structure SqlsvrDdlOdbcDataSource where
  dsName : Text
  username : Text
  password : Text
  deriving DecidableEq

namespace SqlsvrDdlOdbcDataSource

/-- `parse`. -/
def parse (spec : Text) : Except Fault SqlsvrDdlOdbcDataSource :=
  match spec.findIdx? (· = ':') with
  | some (pos1 + 1) =>
      match (spec.drop (pos1 + 2)).findIdx? (· = ':') with
      | some (count + 1) =>
          .ok ⟨spec.take (pos1 + 1), (spec.drop (pos1 + 2)).take (count + 1), spec.drop (pos1 + 2 + (count + 2))⟩
      | _ => .error (.invalidArgument ("missing/empty username in ODBC datasource '".toList ++ spec ++ "'".toList))
  | _ => .error (.invalidArgument ("missing/empty DSN in ODBC datasource '".toList ++ spec ++ "'".toList))

theorem findIdx?_eq_some_iff {c : Char} {s : Text} {n : Nat} :
    s.findIdx? (· = c) = some n ↔ ∃ t u, s = t ++ c :: u ∧ c ∉ t ∧ t.length = n := by
  induction s generalizing n with
  | nil => simp
  | cons d s ih =>
      rw [List.findIdx?_cons]
      by_cases hd : d = c
      · subst hd
        rw [if_pos (by simp), Option.some_inj]
        constructor
        · rintro rfl
          exact ⟨[], s, rfl, by simp, rfl⟩
        · rintro ⟨t, u, hsplit, hmem, rfl⟩
          cases t with
          | nil => rfl
          | cons e t =>
              obtain ⟨rfl, -⟩ := List.cons.inj hsplit
              exact absurd List.mem_cons_self hmem
      · rw [if_neg (by simpa using hd), Option.map_eq_some_iff]
        constructor
        · rintro ⟨n', hn', rfl⟩
          obtain ⟨t, u, rfl, hmem, rfl⟩ := ih.mp hn'
          exact ⟨d :: t, u, rfl, by simp [hmem, Ne.symm hd], rfl⟩
        · rintro ⟨t, u, hsplit, hmem, rfl⟩
          cases t with
          | nil =>
              obtain ⟨rfl, -⟩ := List.cons.inj hsplit
              exact absurd rfl hd
          | cons e t =>
              obtain ⟨rfl, rfl⟩ := List.cons.inj hsplit
              exact ⟨t.length, ih.mpr ⟨t, u, rfl, fun h => hmem (List.mem_cons_of_mem _ h), rfl⟩, rfl⟩

theorem drop_behind {c : Char} {t u : Text} {n : Nat} (h : t.length = n + 1) : (t ++ c :: u).drop (n + 2) = u := by
  rw [List.drop_append, List.drop_eq_nil_of_le (by omega), List.nil_append]
  have hbehind : n + 2 - t.length = 1 := by omega
  rw [hbehind]
  rfl

/-- What a specification of a data source looks like: the password is what stands behind the second colon, with
whatever colons it has. -/
theorem parse_eq_ok_iff {spec : Text} {source : SqlsvrDdlOdbcDataSource} :
    parse spec = .ok source ↔
      spec = source.dsName ++ ':' :: source.username ++ ':' :: source.password ∧
        source.dsName ≠ [] ∧ ':' ∉ source.dsName ∧ source.username ≠ [] ∧ ':' ∉ source.username := by
  -- the parts that the positions of the colons cut out
  have hparts : ∀ {dsName username password : Text} {pos1 count : Nat}, dsName.length = pos1 + 1 →
      username.length = count + 1 →
      (dsName ++ ':' :: (username ++ ':' :: password)).take (pos1 + 1) = dsName ∧
        (dsName ++ ':' :: (username ++ ':' :: password)).drop (pos1 + 2) = username ++ ':' :: password ∧
        (username ++ ':' :: password).take (count + 1) = username ∧
        (dsName ++ ':' :: (username ++ ':' :: password)).drop (pos1 + 2 + (count + 2)) = password := by
    intro dsName username password pos1 count hds huser
    have hdrop : (dsName ++ ':' :: (username ++ ':' :: password)).drop (pos1 + 2) = username ++ ':' :: password :=
      drop_behind hds
    refine ⟨List.take_left' hds, hdrop, List.take_left' huser, ?_⟩
    rw [← List.drop_drop, hdrop, drop_behind huser]
  constructor
  · intro h
    unfold parse at h
    split at h
    · rename_i pos1 hpos1
      obtain ⟨dsName, rest, rfl, hds, hlength⟩ := findIdx?_eq_some_iff.mp hpos1
      have hdrop : (dsName ++ ':' :: rest).drop (pos1 + 2) = rest := drop_behind hlength
      split at h
      · rename_i count hcount
        rw [hdrop] at hcount
        obtain ⟨username, password, rfl, huser, hcount⟩ := findIdx?_eq_some_iff.mp hcount
        obtain ⟨htake, -, htakeUser, hpassword⟩ := @hparts dsName username password pos1 count hlength hcount
        rw [htake, hdrop, htakeUser, hpassword] at h
        cases h
        exact ⟨by simp, List.ne_nil_of_length_eq_add_one hlength, hds, List.ne_nil_of_length_eq_add_one hcount, huser⟩
      · cases h
    · cases h
  · obtain ⟨dsName, username, password⟩ := source
    rintro ⟨rfl, hds, hdsColon, huser, huserColon⟩
    dsimp only at hds hdsColon huser huserColon ⊢
    obtain ⟨c, t, rfl⟩ := List.exists_cons_of_ne_nil hds
    obtain ⟨d, u, rfl⟩ := List.exists_cons_of_ne_nil huser
    obtain ⟨htake, hdrop, htakeUser, hpassword⟩ :=
      @hparts (c :: t) (d :: u) password t.length u.length List.length_cons List.length_cons
    have hpos1 : (c :: t ++ ':' :: (d :: u ++ ':' :: password)).findIdx? (· = ':') = some (t.length + 1) :=
      findIdx?_eq_some_iff.mpr ⟨c :: t, _, rfl, hdsColon, rfl⟩
    have hpos2 : (d :: u ++ ':' :: password).findIdx? (· = ':') = some (u.length + 1) :=
      findIdx?_eq_some_iff.mpr ⟨d :: u, _, rfl, huserColon, rfl⟩
    rw [List.append_assoc]
    change parse (c :: t ++ ':' :: (d :: u ++ ':' :: password)) = _
    unfold parse
    rw [hpos1]
    dsimp only
    rw [hdrop, hpos2]
    dsimp only
    rw [htake, htakeUser, hpassword]

end SqlsvrDdlOdbcDataSource

/-- The rows the queries of the loaders return on a connection. -/
structure Connection where
  ckRows : List CkRow
  fkRows : List FkRow
  pkRows : List PkRow
  uqRows : List UqRow
  tcRows : List TcRow

namespace SqlsvrDdlQueries

section Constructor

variable (connect : SqlsvrDdlOdbcDataSource → Except Text Connection)

/-- The turn of the loop that connects to a data source. -/
def connectTo (st : List Connection × List SqlsvrDdlConnectionError) (source : SqlsvrDdlOdbcDataSource × Nat) :
    List Connection × List SqlsvrDdlConnectionError :=
  match connect source.1 with
  | .ok conn => (st.1 ++ [conn], st.2)
  | .error what => (st.1, st.2 ++ [⟨source.2, what⟩])

/-- The five loaders one after the other, with all their errors. -/
def loadMappers (conns : List Connection) : Except Fault (SqlsvrDdlQueries × List SqlsvrDdlConnectionError) := do
  let ck ← loadCkMapper (conns.map Connection.ckRows)
  let fk ← loadFkMapper (conns.map Connection.fkRows)
  let pk ← loadPkMapper (conns.map Connection.pkRows)
  let uq ← loadUqMapper (conns.map Connection.uqRows)
  let tc ← loadTcMapper (conns.map Connection.tcRows)
  return (⟨ck.map, fk.mapper, pk.map, uq.map, tc.mapper⟩,
    ck.notes ++ fk.connectionErrors ++ pk.notes ++ uq.notes ++ tc.connectionErrors)

/-- The constructor: the metadata, or the `sqlsvr_ddl_connection_errors` it throws. -/
def make (dataSources : List SqlsvrDdlOdbcDataSource) :
    Except Fault (Except (List SqlsvrDdlConnectionError) SqlsvrDdlQueries) :=
  if dataSources = [] then .error .assertion
  else
    let connected := dataSources.zipIdx.foldl (connectTo connect) ([], [])
    if connected.2 ≠ [] then .ok (.error connected.2)
    else (loadMappers connected.1).map fun loaded => if loaded.2 ≠ [] then .error loaded.2 else .ok loaded.1

end Constructor

end SqlsvrDdlQueries

/-! ### Tables of any rows -/

/-- What comes of a table that is defined already. -/
def tableTaken (connPos : Nat) (stname : DdlStname) : Except Fault SqlsvrDdlConnectionError :=
  if connPos = 0 then .error .assertion else .ok (tableRedefined connPos stname)

/-- A table with its columns as it is filed. -/
def tableEntry (connPos : Nat) (e : DdlStname × List SqlsvrDdlTcRec) :
    Entry DdlStname (List SqlsvrDdlTcRec) SqlsvrDdlConnectionError Fault := ⟨e.1, e.2, tableTaken connPos e.1⟩

/-- The tables of a data source as its rows are cut. -/
abbrev tcTables : List TcRow → List (DdlStname × List SqlsvrDdlTcRec) := groups TcRow.stname TcRow.tcRec

namespace TcMapLoader

/-- The map of the loader with its errors. -/
def filing (loader : TcMapLoader) : Filing DdlStname (List SqlsvrDdlTcRec) SqlsvrDdlConnectionError :=
  ⟨loader.mapper, loader.connectionErrors⟩

theorem insertTcRecs_filing (connPos : Nat) (loader : TcMapLoader) (stname : DdlStname)
    (tcRecs : List SqlsvrDdlTcRec) :
    (loader.insertTcRecs connPos stname tcRecs).map filing =
      loader.filing.file (tableEntry connPos (stname, tcRecs)) := by
  unfold insertTcRecs Filing.file tableEntry tableTaken filing
  by_cases hmem : stname ∈ loader.mapper.keys
  · rw [UnorderedMap.insert_of_mem hmem, if_pos hmem]
    by_cases hfirst : connPos = 0
    · simp [hfirst, Except.map]
    · simp [hfirst, Except.map]
  · rw [if_neg hmem, if_pos ((UnorderedMap.insert_snd _ _ _).mpr hmem)]
    rfl

end TcMapLoader

theorem Except.map_eq_ok_iff {α β : Type} {f : α → β} {x : Except Fault α} {b : β} :
    x.map f = .ok b ↔ ∃ a, x = .ok a ∧ f a = b := by
  cases x with
  | error e => simp [Except.map]
  | ok a => simp [Except.map]

namespace TcGroup

variable {connPos : Nat}

/-- The rows behind some of one table. -/
theorem filing_foldlM_loadRow {loader loader' : TcMapLoader} {k : DdlStname} {columnPos : Int} {rows : List TcRow}
    (hne : rows ≠ []) (hkey : ∀ row ∈ rows, row.stname = k) {rest : List TcRow}
    (h : (rest.foldlM (loadRow connPos) ⟨loader, k, columnPos, rows.map TcRow.tcRec⟩ >>= flush connPos) =
      .ok loader') :
    ((tcTables (rows ++ rest)).map (tableEntry connPos)).foldlM Filing.file loader.filing = .ok loader'.filing := by
  have hrecs : rows.map TcRow.tcRec ≠ [] := by simpa using hne
  induction rest generalizing loader k columnPos rows with
  | nil =>
      change flush connPos _ = _ at h
      unfold flush at h
      rw [if_neg hrecs] at h
      rw [List.append_nil, tcTables, groups_of_forall hne hkey]
      show (Filing.file loader.filing _ >>= pure) = _
      rw [bind_pure, ← TcMapLoader.insertTcRecs_filing, h]
      rfl
  | cons row rest ih =>
      rw [List.foldlM_cons, loadRow] at h
      cases hchecked : row.checked with
      | false =>
          rw [hchecked] at h
          cases h
      | true =>
          rw [hchecked, Bool.not_true, if_neg Bool.false_ne_true] at h
          by_cases hrow : row.stname = k
          · rw [if_neg (not_not.mpr hrow)] at h
            dsimp only at h
            split at h
            · cases h
            · have hkey' : ∀ r ∈ rows ++ [row], r.stname = k := by
                simpa [or_imp, forall_and, hrow] using hkey
              have hnext := @ih loader k row.pos (rows ++ [row]) (by simp) hkey' (by rw [List.map_append]; exact h) (by simp)
              rw [List.append_assoc, List.singleton_append] at hnext
              exact hnext
          · rw [if_pos hrow] at h
            split at h
            · cases h
            · rw [flush, if_neg hrecs] at h
              dsimp only at h
              rw [tcTables, groups_append_cons hne hkey hrow, List.map_cons, List.foldlM_cons,
                ← TcMapLoader.insertTcRecs_filing]
              cases hinsert : loader.insertTcRecs connPos k (rows.map TcRow.tcRec) with
              | error e =>
                  rw [hinsert] at h
                  cases h
              | ok loader₁ =>
                  rw [hinsert] at h
                  exact @ih loader₁ row.stname row.pos [row] (by simp) (by simp) h (by simp)

end TcGroup

theorem TcMapLoader.filing_loadConn {connPos : Nat} {loader loader' : TcMapLoader} {rows : List TcRow}
    (h : loader.loadConn connPos rows = .ok loader') :
    ((tcTables rows).map (tableEntry connPos)).foldlM Filing.file loader.filing = .ok loader'.filing := by
  cases rows with
  | nil =>
      cases h
      rfl
  | cons row rows =>
      unfold loadConn at h
      rw [List.foldlM_cons, TcGroup.loadRow] at h
      cases hchecked : row.checked with
      | false =>
          rw [hchecked] at h
          cases h
      | true =>
          rw [hchecked, Bool.not_true, if_neg Bool.false_ne_true] at h
          dsimp only at h
          refine @TcGroup.filing_foldlM_loadRow connPos loader loader' row.stname row.pos [row] (by simp) (by simp) rows ?_
          split at h
          · split at h
            · cases h
            · exact h
          · rename_i hname
            rw [not_not] at hname
            split at h
            · cases h
            · rw [hname]
              exact h

theorem filing_loadTcMapper {conns : List (List TcRow)} {loaded : TcMapLoader} (h : loadTcMapper conns = .ok loaded) :
    (Filing.placed tableTaken (conns.map tcTables)).foldlM Filing.file {} = .ok loaded.filing := by
  have hfrom : ∀ (n : Nat) (loader : TcMapLoader),
      (conns.zipIdx n).foldlM (fun (loader : TcMapLoader) conn => loader.loadConn conn.2 conn.1) loader =
          .ok loaded →
        (Filing.placedFrom tableTaken n (conns.map tcTables)).foldlM Filing.file loader.filing =
          .ok loaded.filing := by
    clear h
    induction conns with
    | nil =>
        intro n loader h
        cases h
        rfl
    | cons conn conns ih =>
        intro n loader h
        rw [List.zipIdx_cons, List.foldlM_cons, bind_eq_ok] at h
        obtain ⟨loader₁, hconn, h⟩ := h
        have hfiled := TcMapLoader.filing_loadConn hconn
        rw [List.map_cons, Filing.placedFrom_cons, List.foldlM_append]
        change ((tcTables conn).map (tableEntry n)).foldlM Filing.file loader.filing >>= _ = _
        rw [hfiled]
        exact ih (n + 1) loader₁ h
  exact hfrom 0 ⟨∅, []⟩ h

/-- Loaded without an error, a table has the columns of all its rows. -/
theorem find_of_loadTcMapper {conns : List (List TcRow)} {m : UnorderedMap DdlStname (List SqlsvrDdlTcRec)}
    (h : loadTcMapper conns = .ok ⟨m, []⟩) (k : DdlStname) (tcRecs : List SqlsvrDdlTcRec) :
    m.find k = some tcRecs ↔
      tcRecs ≠ [] ∧ tcRecs = (conns.flatten.filter (TcRow.stname · = k)).map TcRow.tcRec := by
  obtain ⟨hnodup, rfl⟩ := Filing.foldlM_file_eq_ok_nil_iff.mp (filing_loadTcMapper h)
  rw [Filing.keys_placedFrom] at hnodup
  rw [Filing.find_insertAll, UnorderedMap.find_empty, Option.none_or, Filing.find?_placedFrom,
    find?_groups_eq_some_iff hnodup]

/-! ### Positions of data sources -/

/-- The positions in these errors are those of data sources behind the first one. -/
def BehindFirst (n : Nat) (errors : List SqlsvrDdlConnectionError) : Prop :=
  ∀ error ∈ errors, 0 < error.connPos ∧ error.connPos < n

theorem BehindFirst.append {n : Nat} {errors errors' : List SqlsvrDdlConnectionError} (h : BehindFirst n errors)
    (h' : BehindFirst n errors') : BehindFirst n (errors ++ errors') := List.forall_mem_append.mpr ⟨h, h'⟩

theorem behindFirst_notes {κ ν : Type} [DecidableEq κ] {taken : Nat → κ → Except Fault SqlsvrDdlConnectionError}
    (htaken : ∀ connPos k error, taken connPos k = .ok error → connPos ≠ 0 ∧ error.connPos = connPos)
    {sources : List (List (κ × ν))} {loaded : Filing κ ν SqlsvrDdlConnectionError}
    (h : (Filing.placed taken sources).foldlM Filing.file {} = .ok loaded) :
    BehindFirst sources.length loaded.notes := by
  intro error herror
  obtain ⟨e, he, hnote⟩ := Filing.exists_of_mem_notes h herror
  obtain ⟨connPos, hlt, hpos⟩ := Filing.exists_of_mem_placed he
  obtain ⟨hne, rfl⟩ := htaken connPos e.key error (hpos ▸ hnote)
  exact ⟨Nat.pos_of_ne_zero hne, hlt⟩

theorem redefined_eq_ok {kind : Text} {connPos : Nat} {k : DdlStcname} {error : SqlsvrDdlConnectionError}
    (h : redefined kind connPos k = .ok error) : connPos ≠ 0 ∧ error.connPos = connPos := by
  unfold redefined at h
  split at h
  · cases h
  · rename_i hne
    cases h
    exact ⟨hne, rfl⟩

theorem tableTaken_eq_ok {connPos : Nat} {k : DdlStname} {error : SqlsvrDdlConnectionError}
    (h : tableTaken connPos k = .ok error) : connPos ≠ 0 ∧ error.connPos = connPos := by
  unfold tableTaken at h
  split at h
  · cases h
  · rename_i hne
    cases h
    exact ⟨hne, rfl⟩

/-! ### Foreign keys -/

/-- The columns of a data source with their records. -/
def fkRowColumns (rows : List FkRow) : List (DdlStcname × SqlsvrDdlFkRec) := rows.map fun row => (row.stcname, row.fkRec)

namespace FkMapLoader

/-- The records under the columns, with the errors. -/
def filing (st : FkMapLoader) : MapLoader SqlsvrDdlFkRec := ⟨st.mapper.map, st.connectionErrors⟩

theorem filing_loadRow {connPos : Nat} {st st' : FkMapLoader} {row : FkRow} (h : st.loadRow connPos row = .ok st') :
    st.filing.file (columnEntry "fk".toList connPos (row.stcname, row.fkRec)) = .ok st'.filing := by
  unfold loadRow at h
  cases hchecked : row.checked with
  | false =>
      rw [hchecked] at h
      cases h
  | true =>
      rw [hchecked] at h
      change (st.insertFkRec row.stcname row.fkRec connPos >>= _) = _ at h
      rw [bind_eq_ok] at h
      obtain ⟨⟨st₁, pointer⟩, hinsert, h⟩ := h
      cases h
      have hfiling : st.filing.file (columnEntry "fk".toList connPos (row.stcname, row.fkRec)) = .ok st₁.filing := by
        unfold insertFkRec at hinsert
        unfold Filing.file columnEntry redefined filing
        by_cases hmem : row.stcname ∈ st.mapper.map.keys
        · rw [UnorderedMap.insert_of_mem hmem] at hinsert
          rw [if_pos hmem]
          by_cases hfirst : connPos = 0
          · simp [hfirst] at hinsert
          · simp only [hfirst, if_false] at hinsert
            cases hinsert
            rw [if_neg hfirst]
            rfl
        · rw [if_pos ((UnorderedMap.insert_snd _ _ _).mpr hmem)] at hinsert
          cases hinsert
          rw [if_neg hmem]
      rw [hfiling]
      unfold filing
      dsimp only
      rw [SqlsvrDdlFkMapper.insertReverse_map]

end FkMapLoader

theorem filing_loadFkMapper {conns : List (List FkRow)} {loaded : FkMapLoader} (h : loadFkMapper conns = .ok loaded) :
    (Filing.placed (redefined "fk".toList) (conns.map fkRowColumns)).foldlM Filing.file {} = .ok loaded.filing := by
  have hconn : ∀ (connPos : Nat) (rows : List FkRow) (st st' : FkMapLoader),
      rows.foldlM (FkMapLoader.loadRow connPos) st = .ok st' →
        ((fkRowColumns rows).map (columnEntry "fk".toList connPos)).foldlM Filing.file st.filing = .ok st'.filing := by
    intro connPos rows
    induction rows with
    | nil =>
        intro st st' h
        cases h
        rfl
    | cons row rows ih =>
        intro st st' h
        rw [List.foldlM_cons, bind_eq_ok] at h
        obtain ⟨st₁, hrow, h⟩ := h
        rw [fkRowColumns, List.map_cons, List.map_cons, List.foldlM_cons, FkMapLoader.filing_loadRow hrow]
        exact ih st₁ st' h
  have hfrom : ∀ (n : Nat) (st : FkMapLoader),
      (conns.zipIdx n).foldlM (fun st conn => conn.1.foldlM (FkMapLoader.loadRow conn.2) st) st = .ok loaded →
        (Filing.placedFrom (redefined "fk".toList) n (conns.map fkRowColumns)).foldlM Filing.file st.filing =
          .ok loaded.filing := by
    clear h
    induction conns with
    | nil =>
        intro n st h
        cases h
        rfl
    | cons conn conns ih =>
        intro n st h
        rw [List.zipIdx_cons, List.foldlM_cons, bind_eq_ok] at h
        obtain ⟨st₁, hrows, h⟩ := h
        rw [List.map_cons, Filing.placedFrom_cons, List.foldlM_append]
        change ((fkRowColumns conn).map (columnEntry "fk".toList n)).foldlM Filing.file st.filing >>= _ = _
        rw [hconn n conn st st₁ hrows]
        exact ih (n + 1) st₁ h
  exact hfrom 0 ⟨.empty, []⟩ h

/-! ### The constructor -/

namespace SqlsvrDdlQueries

/-- What is reported about a data source that cannot be connected to. -/
def connectionFailure (connPos : Nat) : Except Text Connection → Option SqlsvrDdlConnectionError
  | .ok _ => none
  | .error what => some ⟨connPos, what⟩

section Constructor

variable {connect : SqlsvrDdlOdbcDataSource → Except Text Connection} {dataSources : List SqlsvrDdlOdbcDataSource}

/-- All data sources that cannot be connected to. -/
def connectionFailures (connect : SqlsvrDdlOdbcDataSource → Except Text Connection)
    (dataSources : List SqlsvrDdlOdbcDataSource) : List SqlsvrDdlConnectionError :=
  dataSources.zipIdx.filterMap fun source => connectionFailure source.2 (connect source.1)

theorem foldl_connectTo (sources : List (SqlsvrDdlOdbcDataSource × Nat))
    (st : List Connection × List SqlsvrDdlConnectionError) :
    sources.foldl (connectTo connect) st =
      (st.1 ++ sources.filterMap fun source => (connect source.1).toOption,
        st.2 ++ sources.filterMap fun source => connectionFailure source.2 (connect source.1)) := by
  induction sources generalizing st with
  | nil => simp
  | cons source sources ih =>
      rw [List.foldl_cons, ih, List.filterMap_cons, List.filterMap_cons]
      unfold connectTo
      cases connect source.1 with
      | error what => simp [Except.toOption, connectionFailure]
      | ok conn => simp [Except.toOption, connectionFailure]

theorem connPos_lt_of_mem_connectionFailures {error : SqlsvrDdlConnectionError}
    (h : error ∈ connectionFailures connect dataSources) : error.connPos < dataSources.length := by
  obtain ⟨source, hsource, hfailure⟩ := List.mem_filterMap.mp h
  cases hconnect : connect source.1 with
  | ok conn =>
      rw [hconnect] at hfailure
      cases hfailure
  | error what =>
      rw [hconnect] at hfailure
      cases hfailure
      simpa using (List.mem_zipIdx hsource).2.1

/-- Without a failure there is a connection for each data source. -/
theorem map_connect_of_connectionFailures (h : connectionFailures connect dataSources = []) :
    dataSources.map connect =
      (dataSources.zipIdx.filterMap fun source => (connect source.1).toOption).map Except.ok := by
  have hall : ∀ source ∈ dataSources.zipIdx, connectionFailure source.2 (connect source.1) = none := by
    simpa [connectionFailures, List.filterMap_eq_nil_iff] using h
  have hsources : dataSources = dataSources.zipIdx.map Prod.fst := (List.zipIdx_map_fst 0 dataSources).symm
  conv_lhs => rw [hsources]
  generalize dataSources.zipIdx = sources at hall ⊢
  induction sources with
  | nil => rfl
  | cons source sources ih =>
      rw [List.forall_mem_cons] at hall
      rw [List.map_cons, List.map_cons, List.filterMap_cons, ih hall.2]
      cases hconnect : connect source.1 with
      | ok conn => rfl
      | error what =>
          rw [hconnect] at hall
          cases hall.1

theorem make_eq (hne : dataSources ≠ []) :
    make connect dataSources =
      if connectionFailures connect dataSources ≠ [] then .ok (.error (connectionFailures connect dataSources))
      else (loadMappers (dataSources.zipIdx.filterMap fun source => (connect source.1).toOption)).map fun loaded =>
        if loaded.2 ≠ [] then .error loaded.2 else .ok loaded.1 := by
  unfold make
  rw [if_neg hne, foldl_connectTo]
  rfl

/-- What the metadata hold that are loaded without an error: under each name all rows of that name. -/
structure HoldsAll (q : SqlsvrDdlQueries) (conns : List Connection) : Prop where
  ck : ∀ k ckRecs, q.findCk k = some ckRecs ↔ ckRecs ≠ [] ∧
    ckRecs = ((conns.map Connection.ckRows).flatten.filter (ckQuery.stcname · = k)).map ckQuery.record
  fk : LoadedFrom (conns.map Connection.fkRows).flatten q.fkMapper
  pk : ∀ k pkRec, q.findPk k false = some pkRec ↔ pkRec = {} ∧
    ∃ row ∈ (conns.map Connection.pkRows).flatten, row.stcname = k
  uq : ∀ k uqRecs, q.findUq k = some uqRecs ↔ uqRecs ≠ [] ∧
    uqRecs = ((conns.map Connection.uqRows).flatten.filter (uqQuery.stcname · = k)).map uqQuery.record
  tc : ∀ stname tcRecs, q.findTc stname = some tcRecs ↔ tcRecs ≠ [] ∧
    tcRecs = ((conns.map Connection.tcRows).flatten.filter (TcRow.stname · = stname)).map TcRow.tcRec

theorem unhidden_of_find {κ ρ α : Type} {find : κ → Option (List α)} {hidden : α → Bool} {rows : κ → List ρ}
    {record : ρ → α} (hfind : ∀ k recs, find k = some recs ↔ recs ≠ [] ∧ recs = (rows k).map record)
    (hrecord : ∀ row, hidden (record row) = false) (k : κ) : ∀ r ∈ (find k).getD [], hidden r = false := by
  cases h : find k with
  | none => exact List.forall_mem_nil _
  | some recs =>
      rw [Option.getD_some, ((hfind k recs).mp h).2, List.forall_mem_map]
      intro row _
      exact hrecord row

theorem loadMappers_eq_ok {conns : List Connection} {loaded : SqlsvrDdlQueries × List SqlsvrDdlConnectionError}
    (h : loadMappers conns = .ok loaded) :
    BehindFirst conns.length loaded.2 ∧
      (loaded.2 = [] → loaded.1.HoldsAll conns ∧ loaded.1.Loaded (conns.map Connection.fkRows)) := by
  unfold loadMappers at h
  simp only [bind_eq_ok] at h
  obtain ⟨ck, hck, fk, hfk, pk, hpk, uq, huq, tc, htc, h⟩ := h
  cases h
  constructor
  · have hckErrors := behindFirst_notes (fun _ _ _ => redefined_eq_ok) (RecQuery.loadMapper_eq_ok_iff.mp hck).2
    have hfkErrors := behindFirst_notes (fun _ _ _ => redefined_eq_ok) (filing_loadFkMapper hfk)
    have hpkErrors := behindFirst_notes (fun _ _ _ => redefined_eq_ok) (loadPkMapper_eq_ok_iff.mp hpk).2
    have huqErrors := behindFirst_notes (fun _ _ _ => redefined_eq_ok) (RecQuery.loadMapper_eq_ok_iff.mp huq).2
    have htcErrors := behindFirst_notes (fun _ _ _ => tableTaken_eq_ok) (filing_loadTcMapper htc)
    rw [List.length_map, List.length_map] at hckErrors hfkErrors hpkErrors huqErrors htcErrors
    exact (((hckErrors.append hfkErrors).append hpkErrors).append huqErrors).append htcErrors
  · intro hnil
    obtain ⟨ck, ckErrors⟩ := ck
    obtain ⟨fk, fkErrors⟩ := fk
    obtain ⟨pk, pkErrors⟩ := pk
    obtain ⟨uq, uqErrors⟩ := uq
    obtain ⟨tc, tcErrors⟩ := tc
    simp only [List.append_eq_nil_iff] at hnil
    obtain ⟨⟨⟨⟨rfl, rfl⟩, rfl⟩, rfl⟩, rfl⟩ := hnil
    have hpkFind : ∀ k, findPk ⟨ck, fk, pk, uq, tc⟩ k false = pk.find k := by
      intro k
      unfold findPk
      cases pk.find k with
      | none => rfl
      | some pkRec => rfl
    have hck := RecQuery.find_of_loadMapper hck
    have hpk := find_of_loadPkMapper hpk
    have huq := RecQuery.find_of_loadMapper huq
    have htc := find_of_loadTcMapper htc
    refine ⟨⟨hck, loadedFrom_of_loadFkMapper hfk, ?_, huq, htc⟩, ⟨hfk, ?_, ?_, ?_, ?_⟩⟩
    · intro k pkRec
      rw [hpkFind, hpk]
    · exact unhidden_of_find hck fun row => rfl
    · exact unhidden_of_find huq fun row => rfl
    · intro k pkRec hfind
      rw [hpkFind, hpk] at hfind
      rw [hfind.1]
    · exact unhidden_of_find htc fun row => rfl

/-- What the constructor throws: the data sources that cannot be connected to, and only when there are none of these
what the loaders report, none of it about the first data source. Each error is about one of the data sources. -/
theorem make_eq_ok_error {errors : List SqlsvrDdlConnectionError} (h : make connect dataSources = .ok (.error errors)) :
    errors ≠ [] ∧ (∀ error ∈ errors, error.connPos < dataSources.length) ∧
      (errors = connectionFailures connect dataSources ∨
        ∃ conns q, dataSources.map connect = conns.map Except.ok ∧ loadMappers conns = .ok (q, errors) ∧
          ∀ error ∈ errors, 0 < error.connPos) := by
  have hne : dataSources ≠ [] := by
    rintro rfl
    cases h
  rw [make_eq hne] at h
  split at h
  · rename_i hfailures
    cases h
    exact ⟨hfailures, fun error herror => connPos_lt_of_mem_connectionFailures herror, .inl rfl⟩
  · rename_i hfailures
    rw [not_not] at hfailures
    obtain ⟨⟨q, reported⟩, hload, h⟩ := Except.map_eq_ok_iff.mp h
    split at h
    · rename_i hloaded
      cases h
      have hconnected := map_connect_of_connectionFailures hfailures
      have hbehind := (loadMappers_eq_ok hload).1
      have hlength := congrArg List.length hconnected
      rw [List.length_map, List.length_map] at hlength
      rw [← hlength] at hbehind
      exact ⟨hloaded, fun error herror => (hbehind error herror).2,
        .inr ⟨_, q, hconnected, hload, fun error herror => (hbehind error herror).1⟩⟩
    · cases h

/-- When the constructor does not throw, every data source is connected to and nothing is reported. -/
theorem loadMappers_of_make {q : SqlsvrDdlQueries} (h : make connect dataSources = .ok (.ok q)) :
    ∃ conns, dataSources.map connect = conns.map Except.ok ∧ loadMappers conns = .ok (q, []) := by
  have hne : dataSources ≠ [] := by
    rintro rfl
    cases h
  rw [make_eq hne] at h
  split at h
  · cases h
  · rename_i hfailures
    rw [not_not] at hfailures
    obtain ⟨⟨q', errors⟩, hload, h⟩ := Except.map_eq_ok_iff.mp h
    split at h
    · cases h
    · rename_i hloaded
      rw [not_not] at hloaded
      cases h
      exact ⟨_, map_connect_of_connectionFailures hfailures, by rw [hload, show errors = [] from hloaded]⟩

/-- What the constructor makes when it does not throw: the metadata hold all that the data sources return, with
nothing hidden. -/
theorem make_eq_ok_ok {q : SqlsvrDdlQueries} (h : make connect dataSources = .ok (.ok q)) :
    ∃ conns, dataSources.map connect = conns.map Except.ok ∧ q.HoldsAll conns ∧
      q.Loaded (conns.map Connection.fkRows) := by
  obtain ⟨conns, hconns, hload⟩ := loadMappers_of_make h
  exact ⟨conns, hconns, (loadMappers_eq_ok hload).2 rfl⟩

end Constructor

end SqlsvrDdlQueries

/-- A data source with a table of one column `a INT`, which is its key. -/
def keyedTable (tableName : String) (h : tableName.toList ≠ []) : Connection where
  ckRows := [⟨"dbo".toList, tableName.toList, "a".toList, "ck".toList, "a>0".toList⟩]
  fkRows := []
  pkRows := [⟨"dbo".toList, some tableName.toList, some "a".toList⟩]
  uqRows := []
  tcRows := (oneColumn "dbo" tableName (by decide) h).rows

/-- Three data sources that can be connected to, the last two with the same table. -/
def connectKeyed (source : SqlsvrDdlOdbcDataSource) : Except Text Connection :=
  if source.dsName = "a".toList then .ok (keyedTable "t" (by decide))
  else if source.dsName = "b".toList then .ok (keyedTable "u" (by decide))
  else if source.dsName = "c".toList then .ok (keyedTable "U" (by decide))
  else .error "no such data source".toList

def keyedSource (dsName : String) : SqlsvrDdlOdbcDataSource := ⟨dsName.toList, "sa".toList, []⟩

theorem make_two_sources :
    ∃ q conns, SqlsvrDdlQueries.make connectKeyed [keyedSource "a", keyedSource "b"] = .ok (.ok q) ∧
      [keyedSource "a", keyedSource "b"].map connectKeyed = conns.map Except.ok ∧ q.HoldsAll conns ∧
      q.Loaded (conns.map Connection.fkRows) := by
  obtain ⟨q, hq⟩ : ∃ q, SqlsvrDdlQueries.make connectKeyed [keyedSource "a", keyedSource "b"] = .ok (.ok q) :=
    ⟨_, rfl⟩
  obtain ⟨conns, hconns⟩ := SqlsvrDdlQueries.make_eq_ok_ok hq
  exact ⟨q, conns, hq, hconns⟩

end Middle.SqlsvrDdl
