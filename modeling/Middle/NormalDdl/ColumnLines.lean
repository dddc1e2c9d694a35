import Middle.Lib.Lines
import Middle.NormalDdl.CreateTable

/-! Where the columns of a table stand in the text that is written. The messages about a column carry the
number of the line it starts on, whether the table stays or is written as a comment. -/

namespace Middle.NormalDdl

open Lib Lib.Lines Universals

/-! ### Tables written as a comment -/

theorem completeLines_of_notMem {line : Text} (h : '\n' ∉ line) : completeLines line = [] := by
  induction line with
  | nil => rfl
  | cons c line ih =>
      obtain ⟨hc, hline⟩ := not_or.mp (mt List.mem_cons.mpr h)
      rw [completeLines, if_neg (Ne.symm hc), ih hline]

theorem completeLines_line {line : Text} (h : '\n' ∉ line) (s : Text) :
    completeLines (line ++ '\n' :: s) = line :: completeLines s := by
  induction line with
  | nil => rfl
  | cons c line ih =>
      obtain ⟨hc, hline⟩ := not_or.mp (mt List.mem_cons.mpr h)
      rw [List.cons_append, completeLines, if_neg (Ne.symm hc), ih hline]

theorem completeLines_unlines {lines : List Text} (h : ∀ line ∈ lines, '\n' ∉ line) (s : Text) :
    completeLines (unlines '\n' lines ++ s) = lines ++ completeLines s := by
  induction lines with
  | nil => rfl
  | cons line lines ih =>
      obtain ⟨hline, hlines⟩ := List.forall_mem_cons.mp h
      rw [unlines_cons, List.append_assoc, List.cons_append, completeLines_line hline, ih hlines]
      rfl

/-- A text is its complete lines and the one that is not closed. -/
theorem exists_completeLines (text : Text) :
    ∃ lines, text = unlines '\n' lines ++ lastLine '\n' text ∧ (∀ line ∈ lines, '\n' ∉ line) ∧
      '\n' ∉ lastLine '\n' text ∧ completeLines text = lines := by
  obtain ⟨lines, htext, hlines, hlast⟩ :
      ∃ lines, text = unlines '\n' lines ++ lastLine '\n' text ∧ (∀ line ∈ lines, '\n' ∉ line) ∧
        '\n' ∉ lastLine '\n' text := exists_eq_unlines text
  refine ⟨lines, htext, hlines, hlast, ?_⟩
  rw [htext, completeLines_unlines hlines, completeLines_of_notMem hlast, List.append_nil]

/-- A line of a table that is written as a comment. -/
def commentLine (line : Text) : Text := if line = [] then [] else "-- ".toList ++ line

theorem notMem_commentLine {line : Text} (h : '\n' ∉ line) : '\n' ∉ commentLine line := by
  unfold commentLine
  split
  · exact List.not_mem_nil
  · rw [List.mem_append, not_or]
    exact ⟨by decide, h⟩

theorem render_createTable (stname : DdlStname) (chunks : List TableChunk) :
    (DdlStatement.createTable stname chunks).render =
      if chunks.any TableChunk.isColumn then DdlStatement.renderTable stname chunks ++ ");\n".toList
      else unlines '\n'
          ((completeLines (DdlStatement.renderTable stname chunks ++ ");\n".toList)).map commentLine) ++
        ("-- table ".toList ++ (stname.name ++ " emptied!\n".toList)) := by
  unfold DdlStatement.render unlines commentLine
  dsimp only
  rw [List.flatMap_map, List.append_assoc, List.append_assoc]

/-- What stands in front of the rest of a line when the text in front of it is written as a comment. -/
def commentedBefore (text : Text) : Text :=
  unlines '\n' ((completeLines text).map commentLine) ++ "-- ".toList ++ lastLine '\n' text

/-- A comment keeps the lines. -/
theorem countLines_commentedBefore (text : Text) : countLines (commentedBefore text) = countLines text := by
  obtain ⟨lines, htext, hlines, hlast, hcomplete⟩ := exists_completeLines text
  have hcommented : ∀ line ∈ lines.map commentLine, '\n' ∉ line := by
    rw [List.forall_mem_map]
    exact fun line hline => notMem_commentLine (hlines line hline)
  have hbehind : ("-- ".toList ++ lastLine '\n' text).count '\n' = 0 := by
    rw [List.count_append, List.count_eq_zero.mpr hlast]
    rfl
  have hcount : countLines text = lines.length := by
    unfold countLines
    rw [htext, List.count_append, count_unlines hlines, List.count_eq_zero.mpr hlast, Nat.add_zero]
  rw [hcount]
  unfold countLines commentedBefore
  rw [List.append_assoc, List.count_append, hbehind, hcomplete, count_unlines hcommented, List.length_map,
    Nat.add_zero]

/-- What follows on a line follows it in the comment, too. -/
theorem prefix_commentedBefore (text rest : Text) {line : Text} (hline : '\n' ∉ line) (hne : line ≠ []) :
    commentedBefore text ++ line <+:
      unlines '\n' ((completeLines (text ++ line ++ '\n' :: rest)).map commentLine) := by
  obtain ⟨lines, htext, hlines, hlast, hcomplete⟩ := exists_completeLines text
  have hboth : '\n' ∉ lastLine '\n' text ++ line := by
    rw [List.mem_append, not_or]
    exact ⟨hlast, hline⟩
  have hwhole : completeLines (text ++ line ++ '\n' :: rest) =
      lines ++ (lastLine '\n' text ++ line) :: completeLines rest := by
    calc
      _ = completeLines (unlines '\n' lines ++ ((lastLine '\n' text ++ line) ++ '\n' :: rest)) := by
        nth_rewrite 1 [htext]
        simp only [List.append_assoc]
      _ = _ := by rw [completeLines_unlines hlines, completeLines_line hboth]
  have hcomment : commentLine (lastLine '\n' text ++ line) =
      "-- ".toList ++ lastLine '\n' text ++ line := by
    rw [commentLine, if_neg (List.append_ne_nil_of_right_ne_nil _ hne), List.append_assoc]
  rw [hwhole, List.map_append, List.map_cons, unlines_append, unlines_cons, hcomment]
  unfold commentedBefore
  rw [hcomplete]
  refine ⟨'\n' :: unlines '\n' ((completeLines rest).map commentLine), ?_⟩
  simp only [List.append_assoc]

/-! ### The columns of a table -/

/-- A column that is written, as a definition or as the comment that replaces it, and the text in front of it. -/
structure WrittenColumn where
  stname : DdlStname
  column : ColumnMigration
  before : Text

namespace WrittenColumn

/-- What is written for the column, as far as its first line goes. -/
def text (c : WrittenColumn) : Text := firstLine '\n' (c.column.chunk c.stname).render

/-- The line the column starts on in a file that has a header. -/
def line (header : Text) (c : WrittenColumn) : Nat := 1 + countLines (header ++ c.before)

/-- The messages about the column, with the line it starts on. -/
def msgs (header : Text) (c : WrittenColumn) : List DdlStnamesMigrationMsg :=
  c.column.migration.msgs.map (⟨c.line header, c.stname, c.column.column.cname, ·⟩)

end WrittenColumn

section Columns

variable (stname : DdlStname)

/-- What stands between the opening parenthesis and each column. -/
def columnPlaces (chunks : List TableChunk) (prev : Bool) : List ColumnMigration → List (List TableChunk × ColumnMigration)
  | [] => []
  | r :: rs =>
      let chunks := chunks ++ if prev then [.comma] else []
      (chunks, r) :: columnPlaces (chunks ++ [r.chunk stname]) (!r.rejected) rs

/-- The columns of a table that is written behind a text. -/
def writtenInTable (before : Text) (rs : List ColumnMigration) : List WrittenColumn :=
  (columnPlaces stname [] false rs).map fun place =>
    let table := DdlStatement.renderTable stname place.1
    ⟨stname, place.2, before ++ if rs.all ColumnMigration.rejected then commentedBefore table else table⟩

theorem columnChunks_of_mem_columnPlaces {chunks : List TableChunk} {prev : Bool} {rs : List ColumnMigration}
    {place : List TableChunk × ColumnMigration} (h : place ∈ columnPlaces stname chunks prev rs) :
    ∃ behind, chunks ++ columnChunks stname prev rs = place.1 ++ place.2.chunk stname :: behind := by
  induction rs generalizing chunks prev with
  | nil => cases h
  | cons r rs ih =>
      rw [columnPlaces] at h
      rcases List.mem_cons.mp h with rfl | hbehind
      · refine ⟨columnChunks stname (!r.rejected) rs, ?_⟩
        rw [columnChunks, List.append_assoc]
      · obtain ⟨behind, hchunks⟩ := ih hbehind
        refine ⟨behind, ?_⟩
        rw [← hchunks, columnChunks]
        simp only [List.append_assoc, List.singleton_append]

theorem map_snd_columnPlaces (chunks : List TableChunk) (prev : Bool) (rs : List ColumnMigration) :
    (columnPlaces stname chunks prev rs).map Prod.snd = rs := by
  induction rs generalizing chunks prev with
  | nil => rfl
  | cons r rs ih => rw [columnPlaces, List.map_cons, ih]

theorem renderTable_append (chunks chunks' : List TableChunk) :
    DdlStatement.renderTable stname (chunks ++ chunks') =
      DdlStatement.renderTable stname chunks ++ chunks'.flatMap TableChunk.render := by
  unfold DdlStatement.renderTable
  rw [List.flatMap_append]
  simp only [List.append_assoc]

/-- The comment that replaces a column stands on lines of its own. -/
theorem render_rejected {r : ColumnMigration} (h : r.rejected = true) :
    '\n' ∈ (r.chunk stname).render ∧ firstLine '\n' (r.chunk stname).render ≠ [] := by
  unfold ColumnMigration.chunk
  rw [if_pos h]
  constructor
  · exact List.mem_append_right _ (by decide)
  · intro hnil
    exact absurd (congrArg List.length hnil) (Nat.succ_ne_zero _)

/-- Each column stands where it is said to stand. -/
theorem prefix_of_mem_writtenInTable {before : Text} {rs : List ColumnMigration} {key : List TableChunk}
    (hkey : key.any TableChunk.isColumn = false) {c : WrittenColumn} (h : c ∈ writtenInTable stname before rs) :
    c.before ++ c.text <+:
      before ++ (DdlStatement.createTable stname (columnChunks stname false rs ++ key)).render := by
  obtain ⟨⟨chunks, r⟩, hplace, rfl⟩ := List.mem_map.mp h
  obtain ⟨behind, hchunks⟩ := columnChunks_of_mem_columnPlaces stname hplace
  rw [List.nil_append] at hchunks
  have hr : r ∈ rs := by
    rw [← map_snd_columnPlaces stname [] false rs]
    exact List.mem_map_of_mem hplace
  have htable : DdlStatement.renderTable stname (columnChunks stname false rs ++ key) =
      DdlStatement.renderTable stname chunks ++
        ((r.chunk stname).render ++ (behind ++ key).flatMap TableChunk.render) := by
    rw [hchunks, List.append_assoc, renderTable_append, List.cons_append, List.flatMap_cons]
  rw [render_createTable, List.any_append, hkey, Bool.or_false, any_isColumn_columnChunks]
  unfold WrittenColumn.text
  dsimp only
  rw [List.append_assoc, List.prefix_append_right_inj]
  cases hall : rs.all ColumnMigration.rejected with
  | false =>
      rw [if_neg (by decide), if_pos (by decide), htable, List.append_assoc, List.prefix_append_right_inj]
      exact ((prefix_firstLine _).trans (List.prefix_append _ _)).trans (List.prefix_append _ _)
  | true =>
      have hrejected : r.rejected = true := List.all_eq_true.mp hall r hr
      obtain ⟨hmem, hne⟩ := render_rejected stname hrejected
      obtain ⟨rest, hrest⟩ := exists_eq_firstLine hmem
      rw [if_pos rfl, if_neg (by decide), htable]
      have hcut : DdlStatement.renderTable stname chunks ++
            ((r.chunk stname).render ++ (behind ++ key).flatMap TableChunk.render) ++ ");\n".toList =
          DdlStatement.renderTable stname chunks ++ firstLine '\n' (r.chunk stname).render ++
            '\n' :: (rest ++ (behind ++ key).flatMap TableChunk.render ++ ");\n".toList) := by
        nth_rewrite 1 [hrest]
        simp only [List.append_assoc, List.cons_append]
      rw [hcut]
      have hstart := prefix_commentedBefore (DdlStatement.renderTable stname chunks)
        (rest ++ (behind ++ key).flatMap TableChunk.render ++ ");\n".toList) (notMem_firstLine _) hne
      exact hstart.trans (List.prefix_append _ _)

end Columns

/-! ### The messages of a table -/

section Msgs

variable {σ : Type} (m : DdlTableMigratorFactory σ) (stname : DdlStname)
  (assumedIdents : DdlAssumedIdentities) (lines : Nat)

/-- The loop numbers the messages about a column by the lines in front of it. -/
theorem msgs_foldlM_migrateColumn {columns : List DdlColumn} {st st' : TableState σ}
    (h : columns.foldlM (migrateColumn m stname assumedIdents lines) st = .ok st')
    {rs : List ColumnMigration} {migrator : σ}
    (hrs : migrateColumns m stname assumedIdents columns st.migrator = .ok (rs, migrator)) :
    st'.msgs = st.msgs ++ (columnPlaces stname st.chunks st.prev rs).flatMap fun place =>
      place.2.migration.msgs.map
        (⟨1 + lines + countLines (DdlStatement.renderTable stname place.1), stname, place.2.column.cname, ·⟩) := by
  induction columns generalizing st rs with
  | nil =>
      cases h
      cases hrs
      exact (List.append_nil _).symm
  | cons column columns ih =>
      rw [List.foldlM_cons, bind_eq_ok] at h
      obtain ⟨st₁, hturn, h⟩ := h
      obtain ⟨r, migrator₁, rs, hrun, hruns, rfl⟩ := exists_of_migrateColumns_cons m stname assumedIdents hrs
      unfold migrateColumn at hturn
      dsimp only at hturn
      rw [hrun] at hturn
      cases hturn
      have hcolumn := column_of_migrateTableColumnDdl m hrun
      have hchunks : (if st.prev then st.chunks ++ [TableChunk.comma] else st.chunks) =
          st.chunks ++ if st.prev then [.comma] else [] := by
        cases st.prev with
        | false => exact (List.append_nil _).symm
        | true => rfl
      rw [ih h hruns, columnPlaces, List.flatMap_cons]
      dsimp only
      rw [hchunks, hcolumn, List.append_assoc]

theorem countLines_append (s t : Text) : countLines (s ++ t) = countLines s + countLines t := List.count_append

/-- The messages of a table that is written behind a text name the lines its columns start on. -/
theorem msgs_of_migrateCreateTableDdl {before : Text} {tableInfo : DdlTableInfo} {table : DdlCreateTableMigration}
    (h : migrateCreateTableDdl m stname assumedIdents (countLines before) tableInfo = .ok table)
    {rs : List ColumnMigration} {migrator : σ}
    (hrs : migrateColumns m stname assumedIdents tableInfo.columns
      (m.makeTableMigrator stname tableInfo.pkCnames) = .ok (rs, migrator)) :
    table.msgs = (writtenInTable stname before rs).flatMap (WrittenColumn.msgs []) := by
  obtain ⟨st, _, _, hloop, -, -, -, hmsgs, -⟩ := loop_of_migrateCreateTableDdl m stname assumedIdents _ h
  have hline : ∀ chunks, countLines (before ++ if rs.all ColumnMigration.rejected then
        commentedBefore (DdlStatement.renderTable stname chunks) else DdlStatement.renderTable stname chunks) =
      countLines before + countLines (DdlStatement.renderTable stname chunks) := by
    intro chunks
    rw [countLines_append]
    split
    · rw [countLines_commentedBefore]
    · rfl
  rw [hmsgs, msgs_foldlM_migrateColumn m stname assumedIdents _ hloop hrs, List.nil_append]
  unfold writtenInTable WrittenColumn.msgs WrittenColumn.line
  rw [List.flatMap_map]
  apply List.flatMap_congr
  intro place _
  dsimp only
  rw [List.nil_append, hline, Nat.add_assoc]

end Msgs

end Middle.NormalDdl
