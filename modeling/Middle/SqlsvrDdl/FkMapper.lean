import Middle.NormalDdl.Names
import Middle.Universals.TextProcessor

/-! The foreign key metadata (`sqlsvr_ddl_fk_mapper`): the records under the referencing column, the first
record loaded under each constraint name, and the references to each column. A pointer to a record is the
column the record is kept under; it dangles when the record was not taken over into the map. -/

namespace Middle.SqlsvrDdl

open Lib Universals NormalDdl

/-- A row of the foreign key query. A `NULL` in one of the first six columns fails the assertion on its column, as an
empty text does. The assertion on the seventh asks for the sixth again, so that an empty text passes there; a `NULL`,
which would fail, is not in a row. -/
structure FkRow where
  schemaName : Text
  tableName : Text
  columnName : Text
  constraintName : Text
  refSchemaName : Text
  refTableName : Text
  refColumnName : Text
  deriving DecidableEq

structure SqlsvrDdlFkRec where
  hidden : Bool := false
  constraintName : Text
  refStcname : DdlStcname
  deriving DecidableEq

structure SqlsvrDdlFkReverseRec where
  constraintName : Text
  stcname : DdlStcname
  deriving DecidableEq

structure SqlsvrDdlConnectionError where
  connPos : Nat
  msg : Text
  deriving DecidableEq

structure SqlsvrDdlFkMapper where
  map : UnorderedMap DdlStcname SqlsvrDdlFkRec
  /-- Pointers to records, `none` for one that dangles. -/
  constraintNameMap : UnorderedMap Text (Option DdlStcname)
  reverseMap : UnorderedMap DdlStcname (List SqlsvrDdlFkReverseRec)

namespace FkRow

def stcname (row : FkRow) : DdlStcname := .make row.schemaName row.tableName row.columnName

def refStcname (row : FkRow) : DdlStcname := .make row.refSchemaName row.refTableName row.refColumnName

def fkRec (row : FkRow) : SqlsvrDdlFkRec where
  constraintName := row.constraintName
  refStcname := row.refStcname

def reverseRec (row : FkRow) : SqlsvrDdlFkReverseRec where
  constraintName := row.constraintName
  stcname := row.stcname

/-- The assertions on a row. That on the last column tests the referenced table a second time. -/
def checked (row : FkRow) : Bool :=
  row.schemaName ≠ [] ∧ row.tableName ≠ [] ∧ row.columnName ≠ [] ∧ row.constraintName ≠ [] ∧
    row.refSchemaName ≠ [] ∧ row.refTableName ≠ []

end FkRow

namespace SqlsvrDdlFkMapper

def empty : SqlsvrDdlFkMapper := ⟨∅, ∅, ∅⟩

/-- `find`. -/
def find (m : SqlsvrDdlFkMapper) (stcname : DdlStcname) (unhidden : Bool) : Option SqlsvrDdlFkRec :=
  (m.map.find stcname).filter fun fkRec => !(unhidden && fkRec.hidden)

/-- `find_constraint_name` for unhidden records, which reads the record behind the pointer. -/
def findConstraintName (m : SqlsvrDdlFkMapper) (constraintName : Text) :
    Except Fault (Option DdlStcname) :=
  match m.constraintNameMap.find constraintName with
  | none => .ok none
  | some none => .error .undefined
  | some (some stcname) => .ok ((m.find stcname true).map fun _ => stcname)

/-- `find_reverse`, which finds no empty vector. -/
def findReverse (m : SqlsvrDdlFkMapper) (refStcname : DdlStcname) : List SqlsvrDdlFkReverseRec :=
  (m.reverseMap.find refStcname).getD []

/-- `insert_reverse`. -/
def insertReverse (m : SqlsvrDdlFkMapper) (refStcname : DdlStcname) (reverseRec : SqlsvrDdlFkReverseRec) :
    SqlsvrDdlFkMapper :=
  match m.reverseMap.find refStcname with
  | some _ => { m with reverseMap := m.reverseMap.modify refStcname (· ++ [reverseRec]) }
  | none => { m with reverseMap := (m.reverseMap.insert refStcname [reverseRec]).1 }

/-- The record under a column hidden. -/
def hide (m : SqlsvrDdlFkMapper) (stcname : DdlStcname) : SqlsvrDdlFkMapper :=
  { m with map := m.map.modify stcname fun fkRec => { fkRec with hidden := true } }

end SqlsvrDdlFkMapper

/-! ### Loading -/

/-- `sqlsvr_ddl_fk_map_loader` with the map it fills. -/
structure FkMapLoader where
  mapper : SqlsvrDdlFkMapper
  connectionErrors : List SqlsvrDdlConnectionError

/-- `insert_fk_rec`, with the pointer to the record it was given as that is afterwards. -/
def FkMapLoader.insertFkRec (st : FkMapLoader) (stcname : DdlStcname) (fkRec : SqlsvrDdlFkRec)
    (connPos : Nat) : Except Fault (FkMapLoader × Option DdlStcname) :=
  let inserted := st.mapper.map.insert stcname fkRec
  if inserted.2 then .ok ({ st with mapper := { st.mapper with map := inserted.1 } }, some stcname)
  else if connPos = 0 then .error .assertion
  else
    .ok ({ st with
      connectionErrors := st.connectionErrors ++
        [⟨connPos, "fk column ".toList ++ stcname.name ++ " redefined".toList⟩] }, none)

/-- What `load_fk_mapper` does for a row. -/
def FkMapLoader.loadRow (connPos : Nat) (st : FkMapLoader) (row : FkRow) : Except Fault FkMapLoader := do
  if !row.checked then throw .assertion
  let (st, pointer) ← st.insertFkRec row.stcname row.fkRec connPos
  let constraintNameMap := (st.mapper.constraintNameMap.insert row.constraintName pointer).1
  let mapper := { st.mapper with constraintNameMap }
  return { st with mapper := mapper.insertReverse row.refStcname row.reverseRec }

/-- `load_fk_mapper`, given the rows of each connection. -/
def loadFkMapper (conns : List (List FkRow)) : Except Fault FkMapLoader :=
  conns.zipIdx.foldlM (fun st conn => conn.1.foldlM (FkMapLoader.loadRow conn.2) st) ⟨.empty, []⟩

/-! ### What is loaded -/

/-- The three maps that belong to rows which define no column twice. -/
structure LoadedFrom (rows : List FkRow) (m : SqlsvrDdlFkMapper) : Prop where
  entries : m.map.entries = rows.map fun row => (row.stcname, row.fkRec)
  constraintName : ∀ name, m.constraintNameMap.find name =
    (rows.find? (·.constraintName = name)).map fun row => some row.stcname
  reverse : ∀ stcname, m.findReverse stcname =
    (rows.filter (·.refStcname = stcname)).map FkRow.reverseRec

theorem loadedFrom_empty : LoadedFrom [] .empty := ⟨rfl, fun _ => rfl, fun _ => rfl⟩

theorem findReverse_insertReverse (m : SqlsvrDdlFkMapper) (refStcname stcname : DdlStcname)
    (reverseRec : SqlsvrDdlFkReverseRec) :
    (m.insertReverse refStcname reverseRec).findReverse stcname =
      m.findReverse stcname ++ if stcname = refStcname then [reverseRec] else [] := by
  unfold SqlsvrDdlFkMapper.insertReverse SqlsvrDdlFkMapper.findReverse
  split
  · rename_i recs hfind
    dsimp only
    rw [UnorderedMap.modify, UnorderedMap.find_mapValues]
    by_cases hkey : stcname = refStcname
    · simp [hkey, hfind]
    · simp [hkey]
  · rename_i hfind
    dsimp only
    rw [UnorderedMap.find_insert]
    by_cases hkey : stcname = refStcname
    · simp [hkey, hfind]
    · simp [hkey]

namespace SqlsvrDdlFkMapper

/-- The maps after a row whose column is new. -/
def addRow (m : SqlsvrDdlFkMapper) (row : FkRow) : SqlsvrDdlFkMapper :=
  { map := (m.map.insert row.stcname row.fkRec).1
    constraintNameMap := (m.constraintNameMap.insert row.constraintName (some row.stcname)).1
    reverseMap := m.reverseMap : SqlsvrDdlFkMapper }.insertReverse row.refStcname row.reverseRec

theorem insertReverse_map (m : SqlsvrDdlFkMapper) (refStcname : DdlStcname)
    (reverseRec : SqlsvrDdlFkReverseRec) : (m.insertReverse refStcname reverseRec).map = m.map := by
  unfold insertReverse
  split <;> rfl

theorem insertReverse_constraintNameMap (m : SqlsvrDdlFkMapper) (refStcname : DdlStcname)
    (reverseRec : SqlsvrDdlFkReverseRec) :
    (m.insertReverse refStcname reverseRec).constraintNameMap = m.constraintNameMap := by
  unfold insertReverse
  split <;> rfl

end SqlsvrDdlFkMapper

theorem LoadedFrom.addRow {rows : List FkRow} {m : SqlsvrDdlFkMapper} (h : LoadedFrom rows m) {row : FkRow}
    (hnew : row.stcname ∉ m.map.keys) : LoadedFrom (rows ++ [row]) (m.addRow row) := by
  constructor
  · rw [SqlsvrDdlFkMapper.addRow, SqlsvrDdlFkMapper.insertReverse_map,
      UnorderedMap.insert_entries_of_notMem hnew, h.entries, List.map_append]
    rfl
  · intro name
    rw [SqlsvrDdlFkMapper.addRow, SqlsvrDdlFkMapper.insertReverse_constraintNameMap,
      UnorderedMap.find_insert, h.constraintName, List.find?_append, List.find?_singleton]
    cases rows.find? (·.constraintName = name) with
    | some first => rfl
    | none =>
        by_cases hname : row.constraintName = name
        · simp [hname]
        · simp [hname, Ne.symm hname]
  · intro stcname
    rw [SqlsvrDdlFkMapper.addRow, findReverse_insertReverse]
    calc
      m.findReverse stcname ++ (if stcname = row.refStcname then [row.reverseRec] else []) =
          (rows.filter (·.refStcname = stcname)).map FkRow.reverseRec ++
            ([row].filter (·.refStcname = stcname)).map FkRow.reverseRec := by
        rw [h.reverse stcname]
        by_cases hkey : row.refStcname = stcname
        · simp [hkey]
        · simp [hkey, Ne.symm hkey]
      _ = ((rows ++ [row]).filter (·.refStcname = stcname)).map FkRow.reverseRec := by
        rw [List.filter_append, List.map_append]

/-- What loading a row can do: its column is new, or it is reported as redefined. -/
theorem loadRow_cases {connPos : Nat} {st st' : FkMapLoader} {row : FkRow}
    (h : st.loadRow connPos row = .ok st') :
    row.checked = true ∧
      (row.stcname ∉ st.mapper.map.keys ∧ st' = { st with mapper := st.mapper.addRow row } ∨
        row.stcname ∈ st.mapper.map.keys ∧ connPos ≠ 0 ∧ st'.connectionErrors ≠ []) := by
  unfold FkMapLoader.loadRow at h
  cases hchecked : row.checked with
  | false =>
      rw [hchecked] at h
      cases h
  | true =>
      rw [hchecked] at h
      change (st.insertFkRec row.stcname row.fkRec connPos >>= _) = _ at h
      refine ⟨rfl, ?_⟩
      by_cases hkey : row.stcname ∈ st.mapper.map.keys
      · right
        unfold FkMapLoader.insertFkRec at h
        rw [UnorderedMap.insert_of_mem hkey] at h
        by_cases hconn : connPos = 0
        · simp only [hconn] at h
          cases h
        · refine ⟨hkey, hconn, ?_⟩
          simp only [hconn] at h
          cases h
          simp
      · left
        refine ⟨hkey, ?_⟩
        unfold FkMapLoader.insertFkRec at h
        rw [if_pos ((UnorderedMap.insert_snd _ _ _).mpr hkey)] at h
        cases h
        rfl

theorem loadRow_of_new (connPos : Nat) (st : FkMapLoader) {row : FkRow} (hchecked : row.checked = true)
    (hnew : row.stcname ∉ st.mapper.map.keys) :
    st.loadRow connPos row = .ok { st with mapper := st.mapper.addRow row } := by
  unfold FkMapLoader.loadRow FkMapLoader.insertFkRec
  rw [hchecked, if_pos ((UnorderedMap.insert_snd _ _ _).mpr hnew)]
  rfl

/-- As long as nothing is redefined, the maps belong to the rows loaded. -/
def FkMapLoader.Loaded (rows : List FkRow) (st : FkMapLoader) : Prop :=
  st.connectionErrors = [] → LoadedFrom rows st.mapper

theorem loaded_loadRow {connPos : Nat} {rows : List FkRow} {st st' : FkMapLoader} {row : FkRow}
    (hloaded : st.Loaded rows) (h : st.loadRow connPos row = .ok st') : st'.Loaded (rows ++ [row]) := by
  intro herrors
  obtain ⟨-, ⟨hnew, rfl⟩ | ⟨-, -, hredefined⟩⟩ := loadRow_cases h
  · exact (hloaded herrors).addRow hnew
  · exact absurd herrors hredefined

theorem loaded_foldlM {connPos : Nat} {rows conn : List FkRow} {st st' : FkMapLoader}
    (hloaded : st.Loaded rows) (h : conn.foldlM (FkMapLoader.loadRow connPos) st = .ok st') :
    st'.Loaded (rows ++ conn) := by
  induction conn generalizing rows st with
  | nil =>
      cases h
      rwa [List.append_nil]
  | cons row conn ih =>
      rw [List.foldlM_cons, bind_eq_ok] at h
      obtain ⟨st₁, hrow, h⟩ := h
      have hrest := ih (loaded_loadRow hloaded hrow) h
      rwa [List.append_assoc] at hrest

/-- Maps loaded without an error belong to the rows of all connections. -/
theorem loadedFrom_of_loadFkMapper {conns : List (List FkRow)} {m : SqlsvrDdlFkMapper}
    (h : loadFkMapper conns = .ok ⟨m, []⟩) : LoadedFrom conns.flatten m := by
  have hconns : ∀ (n : Nat) (rows : List FkRow) (st st' : FkMapLoader), st.Loaded rows →
      (conns.zipIdx n).foldlM (fun st conn => conn.1.foldlM (FkMapLoader.loadRow conn.2) st) st = .ok st' →
      st'.Loaded (rows ++ conns.flatten) := by
    clear h
    induction conns with
    | nil =>
        intro n rows st st' hloaded h
        cases h
        rwa [List.flatten_nil, List.append_nil]
    | cons conn conns ih =>
        intro n rows st st' hloaded h
        rw [List.zipIdx_cons, List.foldlM_cons, bind_eq_ok] at h
        obtain ⟨st₁, hconn, h⟩ := h
        have hrest := ih (n + 1) (rows ++ conn) st₁ st' (loaded_foldlM hloaded hconn) h
        rwa [List.append_assoc, ← List.flatten_cons] at hrest
  exact hconns 0 [] _ _ (fun _ => loadedFrom_empty) h rfl

/-- Rows that pass the assertions and name no column twice are loaded without an error. -/
theorem loadFkMapper_of_nodup {rows : List FkRow} (hchecked : ∀ row ∈ rows, row.checked = true)
    (hnodup : (rows.map FkRow.stcname).Nodup) :
    ∃ m, loadFkMapper [rows] = .ok ⟨m, []⟩ ∧ LoadedFrom rows m := by
  have hrows : ∀ (done : List FkRow) (st : FkMapLoader), LoadedFrom done st.mapper →
      ((done ++ rows).map FkRow.stcname).Nodup →
      ∃ m, rows.foldlM (FkMapLoader.loadRow 0) st = .ok { st with mapper := m } := by
    clear hnodup
    induction rows with
    | nil =>
        intro done st hloaded hnodup
        exact ⟨st.mapper, rfl⟩
    | cons row rows ih =>
        intro done st hloaded hnodup
        have hnew : row.stcname ∉ st.mapper.map.keys := by
          rw [UnorderedMap.keys, hloaded.entries, List.map_map]
          rw [List.map_append, List.nodup_append] at hnodup
          intro hmem
          exact hnodup.2.2 _ hmem _ (List.mem_map_of_mem List.mem_cons_self) rfl
        obtain ⟨m, hm⟩ := ih (fun row' hrow' => hchecked row' (List.mem_cons_of_mem _ hrow')) (done ++ [row])
          { st with mapper := st.mapper.addRow row } (hloaded.addRow hnew) (by simpa using hnodup)
        refine ⟨m, ?_⟩
        rw [List.foldlM_cons, loadRow_of_new 0 st (hchecked row List.mem_cons_self) hnew]
        exact hm
  obtain ⟨m, hm⟩ := hrows [] ⟨.empty, []⟩ loadedFrom_empty (by simpa using hnodup)
  have hload : loadFkMapper [rows] = .ok ⟨m, []⟩ := by
    unfold loadFkMapper
    rw [List.zipIdx_singleton, List.foldlM_cons]
    dsimp only
    rw [hm]
    rfl
  refine ⟨m, hload, ?_⟩
  have hloaded := loadedFrom_of_loadFkMapper hload
  rwa [List.flatten_cons, List.flatten_nil, List.append_nil] at hloaded

end Middle.SqlsvrDdl
