import Middle.Lib.SqlTokens
import Middle.MiddleApp.HsqldbTableMigrator

/-! What stands between the parentheses of a table that `migrate_create_table_ddl` writes. The comma
behind a column is written as soon as another column follows, before it is known whether that one is
rejected: it is left over exactly when no column is accepted behind it and no key follows. -/

namespace Middle.NormalDdl

open Lib SqlTokens Universals MiddleApp

/-! ### The loop over the columns -/

section Loop

variable {σ : Type} (m : DdlTableMigratorFactory σ) (stname : DdlStname)
  (assumedIdents : DdlAssumedIdentities) (lines : Nat)

/-- The columns of a table migrated one after the other, apart from what is written around them. -/
def migrateColumns : List DdlColumn → σ → Except Fault (List ColumnMigration × σ)
  | [], st => .ok ([], st)
  | column :: columns, st => do
      let (r, st) ← migrateTableColumnDdl m column
        (DdlStcname.ofStname stname column.cname.name ∈ assumedIdents) st
      let (rs, st) ← migrateColumns columns st
      return (r :: rs, st)

/-- What the loop writes for columns, `prev` being its flag in front of them. -/
def columnChunks (prev : Bool) : List ColumnMigration → List TableChunk
  | [] => []
  | r :: rs => (if prev then [.comma] else []) ++ r.chunk stname :: columnChunks (!r.rejected) rs

/-- The flag behind columns. -/
def prevBehind (prev : Bool) (rs : List ColumnMigration) : Bool := rs.foldl (fun _ r => !r.rejected) prev

theorem column_of_migrateTableColumnDdl {column : DdlColumn} {assumedIdentity : Bool} {st st' : σ}
    {r : ColumnMigration} (h : migrateTableColumnDdl m column assumedIdentity st = .ok (r, st')) :
    r.column = column := by
  unfold migrateTableColumnDdl at h
  rw [bind_eq_ok] at h
  obtain ⟨⟨migration, datatype, st₁⟩, -, h⟩ := h
  dsimp only at h
  split at h
  · cases h
    rfl
  · rw [bind_eq_ok] at h
    obtain ⟨text, -, h⟩ := h
    split at h
    · cases h
      rfl
    · cases h
      rfl

theorem exists_of_migrateColumns_cons {column : DdlColumn} {columns : List DdlColumn} {st st' : σ}
    {rs : List ColumnMigration} (h : migrateColumns m stname assumedIdents (column :: columns) st = .ok (rs, st')) :
    ∃ r st₁ rs', migrateTableColumnDdl m column (DdlStcname.ofStname stname column.cname.name ∈ assumedIdents) st =
        .ok (r, st₁) ∧
      migrateColumns m stname assumedIdents columns st₁ = .ok (rs', st') ∧ rs = r :: rs' := by
  unfold migrateColumns at h
  rw [bind_eq_ok] at h
  obtain ⟨⟨r, st₁⟩, hcolumn, h⟩ := h
  rw [bind_eq_ok] at h
  obtain ⟨⟨rs', st₂⟩, hcolumns, h⟩ := h
  cases h
  exact ⟨r, st₁, rs', hcolumn, hcolumns, rfl⟩

/-- The loop migrates the columns one after the other and writes their chunks. -/
theorem foldlM_migrateColumn {columns : List DdlColumn} {st st' : TableState σ}
    (h : columns.foldlM (migrateColumn m stname assumedIdents lines) st = .ok st') :
    ∃ rs, migrateColumns m stname assumedIdents columns st.migrator = .ok (rs, st'.migrator) ∧
      st'.chunks = st.chunks ++ columnChunks stname st.prev rs ∧
      st'.prev = prevBehind st.prev rs ∧
      st'.rejectedCnames = st.rejectedCnames ++
        (rs.filter ColumnMigration.rejected).map fun r => r.column.cname := by
  induction columns generalizing st with
  | nil =>
      cases h
      exact ⟨[], rfl, by simp [columnChunks], rfl, by simp⟩
  | cons column columns ih =>
      rw [List.foldlM_cons, bind_eq_ok] at h
      obtain ⟨st₁, hturn, h⟩ := h
      unfold migrateColumn at hturn
      rw [bind_eq_ok] at hturn
      obtain ⟨⟨r, migrator⟩, hrun, hturn⟩ := hturn
      cases hturn
      have hcolumn := column_of_migrateTableColumnDdl m hrun
      obtain ⟨rs, hruns, hchunks, hprev, hrejected⟩ := ih h
      refine ⟨r :: rs, ?_, ?_, ?_, ?_⟩
      · rw [migrateColumns, hrun]
        dsimp only [bind, Except.bind]
        rw [hruns]
        rfl
      · rw [hchunks, columnChunks]
        cases st.prev <;> simp
      · rw [hprev]
        rfl
      · rw [hrejected, ← hcolumn]
        cases hr : r.rejected <;> simp [hr]

/-- A table that has been written: the loop over its columns, then the key. -/
theorem loop_of_migrateCreateTableDdl {tableInfo : DdlTableInfo} {table : DdlCreateTableMigration}
    (h : migrateCreateTableDdl m stname assumedIdents lines tableInfo = .ok table) :
    ∃ st pkColumns migrator',
      tableInfo.columns.foldlM (migrateColumn m stname assumedIdents lines)
        { migrator := m.makeTableMigrator stname tableInfo.pkCnames } = .ok st ∧
      m.filterPkColumns st.migrator = .ok (pkColumns, migrator') ∧
      m.uniquifyIdentityColumns migrator' = .ok table.uniquifyIdentityCnames ∧
      table.rejectedCnames = st.rejectedCnames ∧ table.msgs = st.msgs ∧
      table.chunks = st.chunks ++
        if pkColumns = [] then [] else (if st.prev then [.comma] else []) ++ [.primaryKey pkColumns] := by
  unfold migrateCreateTableDdl at h
  rw [bind_eq_ok] at h
  obtain ⟨st, hloop, h⟩ := h
  rw [bind_eq_ok] at h
  obtain ⟨⟨pkColumns, migrator'⟩, hfilter, h⟩ := h
  rw [bind_eq_ok] at h
  obtain ⟨uniquify, huniquify, h⟩ := h
  cases h
  exact ⟨st, pkColumns, migrator', hloop, hfilter, huniquify, rfl, rfl, rfl⟩

/-- A table that has been written is written from the migrations of its columns and the filtered key. -/
theorem migrateCreateTableDdl_eq_ok {tableInfo : DdlTableInfo} {table : DdlCreateTableMigration}
    (h : migrateCreateTableDdl m stname assumedIdents lines tableInfo = .ok table) :
    ∃ rs migrator migrator' pkColumns,
      migrateColumns m stname assumedIdents tableInfo.columns
        (m.makeTableMigrator stname tableInfo.pkCnames) = .ok (rs, migrator) ∧
      m.filterPkColumns migrator = .ok (pkColumns, migrator') ∧
      m.uniquifyIdentityColumns migrator' = .ok table.uniquifyIdentityCnames ∧
      table.rejectedCnames = (rs.filter ColumnMigration.rejected).map (fun r => r.column.cname) ∧
      table.chunks = columnChunks stname false rs ++
        if pkColumns = [] then []
        else (if prevBehind false rs then [.comma] else []) ++ [.primaryKey pkColumns] := by
  obtain ⟨st, pkColumns, migrator', hloop, hfilter, huniquify, htable, -, hkey⟩ :=
    loop_of_migrateCreateTableDdl m stname assumedIdents lines h
  obtain ⟨rs, hruns, hchunks, hprev, hrejected⟩ := foldlM_migrateColumn m stname assumedIdents lines hloop
  refine ⟨rs, st.migrator, migrator', pkColumns, hruns, hfilter, huniquify, ?_, ?_⟩
  · rw [htable, hrejected, List.nil_append]
  · rw [hkey, hchunks, hprev, List.nil_append]

end Loop

/-! ### Separators -/

/-- The accepted columns in order. -/
def acceptedItems (rs : List ColumnMigration) : List TableChunk :=
  (rs.filter fun r => !r.rejected).map fun r => .column r.column.cname r.text

/-- The accepted columns, and the key if there is one. -/
def tableItems (rs : List ColumnMigration) (pkColumns : List DdlCname) : List TableChunk :=
  acceptedItems rs ++ if pkColumns = [] then [] else [.primaryKey pkColumns]

/-- The last column is rejected. -/
def lastRejected (rs : List ColumnMigration) : Bool := rs.getLast?.any ColumnMigration.rejected

theorem intersperse_concat {α : Type} (sep x : α) {xs : List α} (hne : xs ≠ []) :
    (xs ++ [x]).intersperse sep = xs.intersperse sep ++ [sep, x] := by
  induction xs with
  | nil => exact absurd rfl hne
  | cons y ys ih =>
      cases ys with
      | nil => rfl
      | cons z zs =>
          rw [List.cons_append, List.cons_append, List.intersperse_cons_cons, List.intersperse_cons_cons,
            ← List.cons_append, ih (List.cons_ne_nil z zs)]
          rfl

section Separators

variable (stname : DdlStname)

theorem any_isColumn_columnChunks (prev : Bool) (rs : List ColumnMigration) :
    (columnChunks stname prev rs).any TableChunk.isColumn = !rs.all ColumnMigration.rejected := by
  induction rs generalizing prev with
  | nil => rfl
  | cons r rs ih =>
      have hcomma : (if prev then [TableChunk.comma] else []).any TableChunk.isColumn = false := by
        cases prev <;> rfl
      have hchunk : (r.chunk stname).isColumn = !r.rejected := by
        unfold ColumnMigration.chunk
        cases r.rejected <;> rfl
      rw [columnChunks, List.any_append, List.any_cons, hcomma, hchunk, ih, List.all_cons, Bool.not_and,
        Bool.false_or]

theorem prevBehind_eq (prev : Bool) {rs : List ColumnMigration} (hne : rs ≠ []) :
    prevBehind prev rs = !lastRejected rs := by
  induction rs generalizing prev with
  | nil => exact absurd rfl hne
  | cons r rs ih =>
      cases rs with
      | nil => rfl
      | cons r' rs => exact ih (!r.rejected) (List.cons_ne_nil r' rs)

theorem lastRejected_of_acceptedItems {rs : List ColumnMigration} (hne : rs ≠ [])
    (h : acceptedItems rs = []) : lastRejected rs = true := by
  have hall : ∀ r ∈ rs, r.rejected = true := by simpa [acceptedItems] using h
  obtain ⟨r, hr⟩ : ∃ r, rs.getLast? = some r := ⟨_, List.getLast?_eq_some_getLast hne⟩
  rw [lastRejected, hr, Option.any_some]
  exact hall r (List.mem_of_getLast? hr)

/-- The flag only decides on a comma in front of the first column. -/
theorem columnChunks_true {rs : List ColumnMigration} (hne : rs ≠ []) :
    columnChunks stname true rs = .comma :: columnChunks stname false rs := by
  cases rs with
  | nil => exact absurd rfl hne
  | cons r rs => rfl

/-- Without comments the columns stand with one comma between each two, and with one behind them when an
accepted column is followed by rejected ones only. -/
theorem filter_columnChunks (rs : List ColumnMigration) :
    ((columnChunks stname false rs).filter fun c => !c.isComment) =
      (acceptedItems rs).intersperse .comma ++
        if acceptedItems rs ≠ [] ∧ lastRejected rs = true then [.comma] else [] := by
  induction rs with
  | nil => rfl
  | cons r rs ih =>
      cases hr : r.rejected with
      | true =>
          have hitems : acceptedItems (r :: rs) = acceptedItems rs := by simp [acceptedItems, hr]
          have hcomment : (r.chunk stname).isComment = true := by
            simp [ColumnMigration.chunk, hr, TableChunk.isComment]
          have hchunks : ((columnChunks stname false (r :: rs)).filter fun c => !c.isComment) =
              (columnChunks stname false rs).filter fun c => !c.isComment := by
            simp [columnChunks, hr, hcomment]
          rw [hchunks, ih, hitems]
          cases rs with
          | nil => rfl
          | cons r' rs => rfl
      | false =>
          have hchunk : r.chunk stname = .column r.column.cname r.text := by simp [ColumnMigration.chunk, hr]
          have hitems : acceptedItems (r :: rs) = .column r.column.cname r.text :: acceptedItems rs := by
            simp [acceptedItems, hr]
          have hchunks : ((columnChunks stname false (r :: rs)).filter fun c => !c.isComment) =
              .column r.column.cname r.text ::
                (columnChunks stname true rs).filter fun c => !c.isComment := by
            simp [columnChunks, hr, hchunk, TableChunk.isComment]
          rw [hchunks, hitems]
          cases rs with
          | nil => simp [columnChunks, acceptedItems, lastRejected, hr]
          | cons r' rs =>
              have hlast : lastRejected (r :: r' :: rs) = lastRejected (r' :: rs) := rfl
              rw [columnChunks_true stname (List.cons_ne_nil r' rs), List.filter_cons_of_pos rfl, ih, hlast]
              cases hrest : acceptedItems (r' :: rs) with
              | nil =>
                  simp [lastRejected_of_acceptedItems (List.cons_ne_nil r' rs) hrest]
              | cons item items => simp

/-- Without comments a table is its items with one comma between each two of them, and a comma more when its last
column is rejected and no key follows. -/
theorem filter_tableChunks {rs : List ColumnMigration} (hne : acceptedItems rs ≠ []) (pkColumns : List DdlCname) :
    List.filter (fun c => !c.isComment) (columnChunks stname false rs ++
        if pkColumns = [] then []
        else (if prevBehind false rs then [.comma] else []) ++ [.primaryKey pkColumns]) =
      (tableItems rs pkColumns).intersperse .comma ++
        if lastRejected rs = true ∧ pkColumns = [] then [.comma] else [] := by
  have hrs : rs ≠ [] := by
    rintro rfl
    exact hne rfl
  unfold tableItems
  rw [List.filter_append, filter_columnChunks, prevBehind_eq false hrs]
  by_cases hpk : pkColumns = []
  · cases hlast : lastRejected rs <;> simp [hpk, hne]
  · cases hlast : lastRejected rs <;>
      simp [hpk, hne, intersperse_concat, TableChunk.isComment]

end Separators

/-! ### The text between the parentheses -/

/-- The tokens of names with a comma between each two of them. -/
def commaSeparatedTokens (tokens : List (List SqlToken)) : List SqlToken := List.intercalate [.symbol ','] tokens

/-- The tokens of a chunk that is read by itself. -/
def TableChunk.tokens : TableChunk → List SqlToken
  | comma => [.symbol ',']
  | column _ text => sqlTokens text
  | rejected .. => []
  | primaryKey cnames =>
      [.word "PRIMARY".toList, .word "KEY".toList, .symbol '('] ++
        commaSeparatedTokens (cnames.map fun cname => sqlTokens cname.name) ++ [.symbol ')']

/-- The tokens of a table that has these items between its parentheses, separated by one comma each. -/
def tableTokens (stname : DdlStname) (items : List TableChunk) : List SqlToken :=
  [.word "CREATE".toList, .word "TABLE".toList] ++ sqlTokens stname.name ++
    (.symbol '(' :: commaSeparatedTokens (items.map TableChunk.tokens) ++ [.symbol ')', .symbol ';'])

/-- The text that is written for a table has, without its comments, these items between its parentheses, separated by
one comma each. -/
def WellSeparated (stname : DdlStname) (chunks items : List TableChunk) : Prop :=
  sqlTokens (DdlStatement.createTable stname chunks).render = tableTokens stname items

/-- No text that is written for a table opens a comment or a quote and leaves it open, and no name in the comment about
a rejected column closes that. -/
structure CommentsClosed (stname : DdlStname) (rs : List ColumnMigration) (pkColumns : List DdlCname) : Prop where
  table : CommentMode.EndsInCode stname.name
  accepted : ∀ r ∈ rs, r.rejected = false → CommentMode.EndsInCode r.text
  rejected : ∀ r ∈ rs, r.rejected = true →
    ¬ ['*', '/'] <:+: (DdlStcname.ofStname stname r.column.cname.name).name ∧
      ¬ ['*', '/'] <:+: r.column.datatype.name.str
  key : ∀ cname ∈ pkColumns, CommentMode.EndsInCode cname.name

section Tokens

/-- The comment that replaces a column leaves nothing behind. -/
theorem sqlTokens_rejected {stcname : DdlStcname} {datatypeName : Text} (hname : ¬ ['*', '/'] <:+: stcname.name)
    (hdatatype : ¬ ['*', '/'] <:+: datatypeName) (t : Text) :
    sqlTokens ((TableChunk.rejected stcname datatypeName).render ++ t) = sqlTokens t := by
  have hmid {m : CommentMode} (hm : m.inBlock = true) :
      m.kept ": data type ".toList = [] ∧ m.after ": data type ".toList = .block := by
    cases m with
    | block | star => decide
    | code | dash | slash | quoted _ | line => cases hm
  have hend {m : CommentMode} (hm : m.inBlock = true) :
      m.kept " rejected! */\n".toList = ['\n'] ∧ m.after " rejected! */\n".toList = .code := by
    cases m with
    | block | star => decide
    | code | dash | slash | quoted _ | line => cases hm
  have hopen : CommentMode.code.kept "/* column ".toList = [' '] ∧
      CommentMode.code.after "/* column ".toList = .block := by decide
  obtain ⟨hkept, hblock⟩ := CommentMode.inBlock_of_not_infix (m := .block) rfl hname (fun h => by cases h)
  obtain ⟨hkept', hblock'⟩ := CommentMode.inBlock_of_not_infix (m := .block) rfl hdatatype (fun h => by cases h)
  have hstrip : CommentMode.code.strip ((TableChunk.rejected stcname datatypeName).render ++ t) =
      ' ' :: '\n' :: CommentMode.code.strip t := by
    unfold TableChunk.render
    simp only [List.append_assoc, CommentMode.strip_append, hopen, hkept, hmid hblock, hkept', hend hblock']
    rfl
  rw [sqlTokens, hstrip]
  rfl

theorem sqlTokens_commaSeparated {cnames : List DdlCname} (h : ∀ cname ∈ cnames, CommentMode.EndsInCode cname.name)
    {d : Char} (hd : isDelimiter d = true) (t : Text) :
    sqlTokens (commaSeparated cnames ++ d :: t) =
      commaSeparatedTokens (cnames.map fun cname => sqlTokens cname.name) ++ sqlTokens (d :: t) := by
  unfold commaSeparated commaSeparatedTokens
  induction cnames with
  | nil => rfl
  | cons cname cnames ih =>
      obtain ⟨hcname, hcnames⟩ := List.forall_mem_cons.mp h
      cases cnames with
      | nil =>
          simp only [List.map_cons, List.map_nil, List.intercalate_singleton]
          rw [sqlTokens_delimiter hcname hd, sqlTokens_delimiter_cons hd]
      | cons cname' cnames =>
          simp only [List.map_cons, List.intercalate_cons_cons, List.append_assoc, List.cons_append,
            List.nil_append] at ih ⊢
          rw [sqlTokens_delimiter hcname rfl, ih hcnames]
          rfl

/-- The loop's chunks are read one by one when a delimiter follows or the last of them is a comment. -/
theorem sqlTokens_columnChunks {stname : DdlStname} {rs : List ColumnMigration} {pkColumns : List DdlCname}
    (h : CommentsClosed stname rs pkColumns) {t : Text}
    (ht : prevBehind false rs = true → ∃ d t', t = d :: t' ∧ isDelimiter d = true) :
    sqlTokens ((columnChunks stname false rs).flatMap TableChunk.render ++ t) =
      (columnChunks stname false rs).flatMap TableChunk.tokens ++ sqlTokens t := by
  induction rs with
  | nil => rfl
  | cons r rs ih =>
      have hrest : CommentsClosed stname rs pkColumns :=
        ⟨h.table, fun r hr => h.accepted r (List.mem_cons_of_mem _ hr),
          fun r hr => h.rejected r (List.mem_cons_of_mem _ hr), h.key⟩
      rw [columnChunks, if_neg Bool.false_ne_true, List.nil_append, List.flatMap_cons, List.flatMap_cons,
        List.append_assoc, List.append_assoc]
      cases hr : r.rejected with
      | true =>
          obtain ⟨hname, hdatatype⟩ := h.rejected r List.mem_cons_self hr
          have hchunk : r.chunk stname =
              .rejected (.ofStname stname r.column.cname.name) r.column.datatype.name.str := if_pos hr
          rw [hchunk, sqlTokens_rejected hname hdatatype]
          refine ih hrest fun hprev => ht ?_
          rw [prevBehind, List.foldl_cons, hr]
          exact hprev
      | false =>
          have haccepted := h.accepted r List.mem_cons_self hr
          have hchunk : r.chunk stname = .column r.column.cname r.text := if_neg (by simp [hr])
          have hrender : (TableChunk.column r.column.cname r.text).render = r.text := rfl
          have htokens : (TableChunk.column r.column.cname r.text).tokens = sqlTokens r.text := rfl
          rw [hchunk, hrender, htokens, Bool.not_false]
          cases rs with
          | nil =>
              obtain ⟨d, t', rfl, hd⟩ := ht (by rw [prevBehind, List.foldl_cons, hr]; rfl)
              rw [columnChunks, List.flatMap_nil, List.flatMap_nil, List.nil_append, List.nil_append,
                sqlTokens_delimiter haccepted hd, sqlTokens_delimiter_cons hd]
          | cons r' rs =>
              rw [columnChunks_true stname (List.cons_ne_nil r' rs), List.flatMap_cons, List.flatMap_cons]
              have hcomma (u : Text) : sqlTokens (r.text ++ (TableChunk.comma.render ++ u)) =
                  sqlTokens r.text ++ (TableChunk.comma.tokens ++ sqlTokens u) := by
                have hnewline := sqlTokens_delimiter_cons (d := '\n') rfl u
                have hdelimiter := sqlTokens_delimiter haccepted (d := ',') rfl ('\n' :: u)
                rw [hnewline] at hdelimiter
                exact hdelimiter
              rw [List.append_assoc, hcomma, ih hrest, List.append_assoc]
              intro hprev
              apply ht
              rw [prevBehind_eq _ (List.cons_ne_nil _ _)] at hprev ⊢
              exact hprev

theorem flatMap_tokens_eq (chunks : List TableChunk) :
    chunks.flatMap TableChunk.tokens = (chunks.filter fun c => !c.isComment).flatMap TableChunk.tokens := by
  induction chunks with
  | nil => rfl
  | cons chunk chunks ih =>
      cases chunk with
      | rejected stcname datatypeName => exact ih
      | comma | column _ _ | primaryKey _ =>
          rw [List.filter_cons_of_pos rfl, List.flatMap_cons, List.flatMap_cons, ih]

theorem flatMap_tokens_intersperse (items : List TableChunk) :
    (items.intersperse .comma).flatMap TableChunk.tokens = commaSeparatedTokens (items.map TableChunk.tokens) := by
  unfold commaSeparatedTokens
  induction items with
  | nil => rfl
  | cons item items ih =>
      cases items with
      | nil => simp only [List.intersperse_singleton, List.flatMap_singleton, List.map_cons, List.map_nil,
          List.intercalate_singleton]
      | cons item' items =>
          rw [List.intersperse_cons_cons, List.flatMap_cons, List.flatMap_cons, ih]
          simp only [List.map_cons, List.intercalate_cons_cons, List.append_assoc]
          rfl

theorem sqlTokens_primaryKey {cnames : List DdlCname} (h : ∀ cname ∈ cnames, CommentMode.EndsInCode cname.name)
    (t : Text) : sqlTokens ((TableChunk.primaryKey cnames).render ++ t) =
      (TableChunk.primaryKey cnames).tokens ++ sqlTokens t := by
  have hopen : "PRIMARY KEY(".toList = "PRIMARY KEY".toList ++ ['('] := by decide
  have hwords : sqlTokens "PRIMARY KEY".toList = [.word "PRIMARY".toList, .word "KEY".toList] := by decide
  have hclose : ")\n".toList = [')', '\n'] := by decide
  unfold TableChunk.render TableChunk.tokens
  simp only [hopen, hclose, List.append_assoc, List.cons_append, List.nil_append]
  rw [sqlTokens_delimiter (by decide) rfl, hwords, sqlTokens_commaSeparated h rfl, sqlTokens_delimiter_cons rfl,
    sqlTokens_delimiter_cons rfl]
  rfl

/-- What stands between the parentheses of a table. -/
def writtenChunks (stname : DdlStname) (rs : List ColumnMigration) (pkColumns : List DdlCname) : List TableChunk :=
  columnChunks stname false rs ++
    if pkColumns = [] then [] else (if prevBehind false rs then [.comma] else []) ++ [.primaryKey pkColumns]

theorem sqlTokens_writtenChunks {stname : DdlStname} {rs : List ColumnMigration} {pkColumns : List DdlCname}
    (h : CommentsClosed stname rs pkColumns) :
    sqlTokens ((writtenChunks stname rs pkColumns).flatMap TableChunk.render ++ ");\n".toList) =
      (writtenChunks stname rs pkColumns).flatMap TableChunk.tokens ++ [.symbol ')', .symbol ';'] := by
  have hend : ");\n".toList = [')', ';', '\n'] := by decide
  have hclosing : sqlTokens [')', ';', '\n'] = [.symbol ')', .symbol ';'] := by decide
  unfold writtenChunks
  rw [hend, List.flatMap_append, List.flatMap_append, List.append_assoc, List.append_assoc]
  by_cases hpk : pkColumns = []
  · rw [if_pos hpk, List.flatMap_nil, List.flatMap_nil, List.nil_append, List.nil_append,
      sqlTokens_columnChunks h fun _ => ⟨')', [';', '\n'], rfl, rfl⟩, hclosing]
  · rw [if_neg hpk]
    cases hprev : prevBehind false rs with
    | false =>
        have hnot : prevBehind false rs = true → ∃ d t', (List.flatMap TableChunk.render [.primaryKey pkColumns] ++
            [')', ';', '\n']) = d :: t' ∧ isDelimiter d = true := by
          rw [hprev]
          exact fun h => absurd h Bool.false_ne_true
        rw [if_neg Bool.false_ne_true, List.nil_append, sqlTokens_columnChunks h hnot, List.flatMap_singleton,
          List.flatMap_singleton, sqlTokens_primaryKey h.key, hclosing]
    | true =>
        have hcomma (u : Text) : sqlTokens (',' :: '\n' :: u) = TableChunk.comma.tokens ++ sqlTokens u := by
          rw [sqlTokens_delimiter_cons rfl, sqlTokens_delimiter_cons rfl]
          rfl
        have hkey : List.flatMap TableChunk.render ((if true = true then [TableChunk.comma] else []) ++
            [.primaryKey pkColumns]) ++ [')', ';', '\n'] =
              ',' :: '\n' :: ((TableChunk.primaryKey pkColumns).render ++ [')', ';', '\n']) := by
          rw [if_pos rfl, List.flatMap_append, List.flatMap_singleton, List.flatMap_singleton, List.append_assoc]
          rfl
        rw [hkey, sqlTokens_columnChunks h fun _ => ⟨',', _, rfl, rfl⟩, hcomma, sqlTokens_primaryKey h.key, hclosing,
          if_pos rfl, List.flatMap_append, List.flatMap_singleton, List.flatMap_singleton, List.append_assoc]

/-- The text of a table is read chunk by chunk. -/
theorem sqlTokens_createTable {stname : DdlStname} {rs : List ColumnMigration} {pkColumns : List DdlCname}
    (h : CommentsClosed stname rs pkColumns) (haccepted : ∃ r ∈ rs, r.rejected = false) :
    sqlTokens (DdlStatement.createTable stname (writtenChunks stname rs pkColumns)).render =
      [.word "CREATE".toList, .word "TABLE".toList] ++ sqlTokens stname.name ++
        (.symbol '(' :: (writtenChunks stname rs pkColumns).flatMap TableChunk.tokens ++
          [.symbol ')', .symbol ';']) := by
  have hcolumn : (writtenChunks stname rs pkColumns).any TableChunk.isColumn = true := by
    obtain ⟨r, hr, haccepted⟩ := haccepted
    rw [writtenChunks, List.any_append, any_isColumn_columnChunks stname, Bool.or_eq_true_iff]
    left
    rw [Bool.not_eq_true', List.all_eq_false]
    exact ⟨r, hr, by rw [haccepted]; exact Bool.false_ne_true⟩
  have hhead : "\nCREATE TABLE ".toList = "\nCREATE TABLE".toList ++ [' '] := by decide
  have hwords : sqlTokens "\nCREATE TABLE".toList = [.word "CREATE".toList, .word "TABLE".toList] := by decide
  have hopen : "(".toList = ['('] := by decide
  unfold DdlStatement.render
  dsimp only
  rw [if_pos hcolumn]
  unfold DdlStatement.renderTable
  simp only [hhead, hopen, List.append_assoc, List.cons_append, List.nil_append]
  rw [sqlTokens_delimiter (by decide) rfl, hwords, sqlTokens_delimiter h.table rfl, sqlTokens_writtenChunks h]
  rfl

end Tokens

-- The texts need not be closed one by one: the second of these has the comma again that the first takes away.
example : WellSeparated (.make "dbo".toList "t".toList)
    [.column (.ofText "a".toList) "a INT /*".toList, .comma,
      .column (.ofText "b".toList) "b INT DEFAULT '--*/, b INT DEFAULT '--*/, b INT DEFAULT '".toList]
    [.column (.ofText "a".toList) "a INT /*".toList,
      .column (.ofText "b".toList) "b INT DEFAULT '--*/, b INT DEFAULT '--*/, b INT DEFAULT '".toList] := by
  unfold WellSeparated
  decide

/-- Rules that accept the data type `INT` and no other. -/
def intPrefs : DdlTableMigratorPrefs where
  datatypeRules := ⟨[(UcString.ofText "INT".toList, { datatypeRuleType := .unsized })], by decide⟩
  defaultValueRules := ∅

/-- A column without sizes and default value. -/
def plainColumn (cname datatypeName : String) : DdlColumn where
  cname := .ofText cname.toList
  datatype := { name := UcString.ofText datatypeName.toList }
  defaultValue := none
  nullable := true
  identity := false

def dboT : DdlStname := .make "dbo".toList "t".toList

/-- A column `a` that the rules accept, and a column `b` that they reject. -/
def intAndXml : List ColumnMigration :=
  [⟨plainColumn "a" "int", "a INT".toList, ⟨false, [], [], [], []⟩⟩,
    ⟨plainColumn "b" "xml", "b ".toList, ⟨true, [], [], "data type XML rejected".toList, []⟩⟩]

/-- A table of these two columns written for HSQLDB. -/
def intAndXmlTable (pkCnames : List DdlCname) : Except Fault DdlCreateTableMigration :=
  migrateCreateTableDdl (HsqldbTableMigrator.factory intPrefs 0) dboT ∅ 0
    ⟨intAndXml.map ColumnMigration.column, pkCnames⟩

end Middle.NormalDdl
