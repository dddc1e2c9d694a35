import Middle.MiddleApp.MassMigrator
import Middle.NormalDdl.ColumnLines

/-! The files that `mass_migrate_target_ddl` writes, and the line numbers of the messages at their end. The
lines of the statements are counted as they are written; those of the header are taken to be one for each
source, and one in front of and behind them. -/

namespace Middle.SqlsvrDdl

open Lib Lib.Lines Universals NormalDdl

/-! ### The columns of a run -/

theorem linesOf_eq (statements : List DdlStatement) :
    linesOf statements = countLines (statements.flatMap DdlStatement.render) := by
  induction statements with
  | nil => rfl
  | cons statement statements ih =>
      rw [List.flatMap_cons, countLines_append, ← ih]
      rfl

/-- The messages that are printed with a line number. -/
def numbered (msgs : List DdlStnamesMigrationMsg) : List DdlStnamesMigrationMsg :=
  msgs.filter fun msg => msg.lineno ≠ 0

theorem numbered_append (msgs msgs' : List DdlStnamesMigrationMsg) :
    numbered (msgs ++ msgs') = numbered msgs ++ numbered msgs' := List.filter_append ..

theorem numbered_eq_nil {msgs : List DdlStnamesMigrationMsg} (h : ∀ msg ∈ msgs, msg.lineno = 0) :
    numbered msgs = [] := by
  apply List.filter_eq_nil_iff.mpr
  intro msg hmsg
  simp [h msg hmsg]

/-- The messages about columns are all of those. -/
theorem numbered_msgs (header : Text) (columns : List WrittenColumn) :
    numbered (columns.flatMap (WrittenColumn.msgs header)) = columns.flatMap (WrittenColumn.msgs header) := by
  apply List.filter_eq_self.mpr
  intro msg hmsg
  obtain ⟨c, -, hmsg⟩ := List.mem_flatMap.mp hmsg
  obtain ⟨msg', -, rfl⟩ := List.mem_map.mp hmsg
  simp [WrittenColumn.line]

namespace SqlsvrDdlStnamesMigrator

section Columns

variable {σ : Type} (m : SqlsvrDdlStnamesMigrator) (factory : DdlTableMigratorFactory σ)

/-- The columns that a turn of the loop of `migrate_ddl_stnames` writes. -/
def writtenForStname (st : MigrationState) (stname : DdlStname) : List WrittenColumn :=
  match st.queries.findTableInfo stname with
  | none => []
  | some tableInfo =>
      match migrateColumns factory stname m.assumedIdents tableInfo.columns
        (factory.makeTableMigrator stname tableInfo.pkCnames) with
      | .error _ => []
      | .ok (rs, _) =>
          writtenInTable stname
            ((st.statements ++ schemaDdl st.lastSchemaName stname).flatMap DdlStatement.render) rs

/-- The columns that the loop writes, in order. -/
def writtenForStnames : List DdlStname → MigrationState → List WrittenColumn
  | [], _ => []
  | stname :: stnames, st =>
      m.writtenForStname factory st stname ++
        match m.visitStname (some factory) st stname with
        | .error _ => []
        | .ok st' => writtenForStnames stnames st'

variable {m factory}

theorem lineno_of_mem_rejectedMsgs {stname : DdlStname} {cname : DdlCname} {msg : DdlStnamesMigrationMsg}
    (h : msg ∈ m.rejectedMsgs stname cname) : msg.lineno = 0 := by
  unfold rejectedMsgs at h
  split at h
  · cases h
  · obtain rfl := List.mem_singleton.mp h
    rfl

/-- A turn of the loop writes behind what is there, and numbers the messages about the columns it writes. -/
theorem visitStname_written {st st' : MigrationState} {stname : DdlStname}
    (h : m.visitStname (some factory) st stname = .ok st') :
    st.statements <+: st'.statements ∧
      numbered st'.stnamesMigrationMsgs = numbered st.stnamesMigrationMsgs ++
        (m.writtenForStname factory st stname).flatMap (WrittenColumn.msgs []) ∧
      ∀ c ∈ m.writtenForStname factory st stname,
        c.before ++ c.text <+: st'.statements.flatMap DdlStatement.render := by
  unfold visitStname at h
  unfold writtenForStname
  cases hinfo : st.queries.findTableInfo stname with
  | none =>
      rw [hinfo] at h
      cases h
      refine ⟨List.prefix_rfl, ?_, fun c hc => absurd hc List.not_mem_nil⟩
      rw [numbered_append]
      rfl
  | some tableInfo =>
      rw [hinfo] at h
      dsimp only at h ⊢
      rw [bind_eq_ok] at h
      obtain ⟨st₁, hstname, h⟩ := h
      cases h
      unfold migrateDdlStname at hstname
      split at hstname
      · cases hstname
      · rw [bind_eq_ok] at hstname
        obtain ⟨table, htable, hstname⟩ := hstname
        rw [bind_eq_ok] at hstname
        obtain ⟨queries₁, -, hstname⟩ := hstname
        rw [bind_eq_ok] at hstname
        obtain ⟨queries₂, -, hstname⟩ := hstname
        rw [bind_eq_ok] at hstname
        obtain ⟨uqStatements, -, hstname⟩ := hstname
        cases hstname
        obtain ⟨rs, migrator, migrator', pkColumns, hrs, -, -, -, hchunks⟩ :=
          migrateCreateTableDdl_eq_ok factory stname m.assumedIdents _ htable
        rw [hrs]
        dsimp only
        rw [linesOf_eq] at htable
        have hmsgs := msgs_of_migrateCreateTableDdl factory stname m.assumedIdents htable hrs
        have hrejected : numbered (table.rejectedCnames.flatMap (m.rejectedMsgs stname)) = [] := by
          apply numbered_eq_nil
          intro msg hmsg
          obtain ⟨cname, -, hmsg⟩ := List.mem_flatMap.mp hmsg
          exact lineno_of_mem_rejectedMsgs hmsg
        refine ⟨?_, ?_, ?_⟩
        · simp only [List.append_assoc]
          exact List.prefix_append _ _
        · rw [numbered_append, numbered_append, hrejected, List.append_nil, hmsgs, numbered_msgs]
        · intro c hc
          have hkey : (if pkColumns = [] then []
              else (if prevBehind false rs then [TableChunk.comma] else []) ++
                [.primaryKey pkColumns]).any TableChunk.isColumn = false := by
            split
            · rfl
            · cases prevBehind false rs <;> rfl
          have hstart := prefix_of_mem_writtenInTable stname hkey hc
          rw [← hchunks] at hstart
          refine hstart.trans ?_
          simp only [List.flatMap_append, List.flatMap_cons, List.flatMap_nil, List.append_nil]
          exact (List.prefix_append _ _).trans (List.prefix_append _ _)

theorem foldlM_visitStname_written {stnames : List DdlStname} {st st' : MigrationState}
    (h : stnames.foldlM (m.visitStname (some factory)) st = .ok st') :
    st.statements <+: st'.statements ∧
      numbered st'.stnamesMigrationMsgs = numbered st.stnamesMigrationMsgs ++
        (m.writtenForStnames factory stnames st).flatMap (WrittenColumn.msgs []) ∧
      ∀ c ∈ m.writtenForStnames factory stnames st,
        c.before ++ c.text <+: st'.statements.flatMap DdlStatement.render := by
  induction stnames generalizing st with
  | nil =>
      cases h
      exact ⟨List.prefix_rfl, (List.append_nil _).symm, fun c hc => absurd hc List.not_mem_nil⟩
  | cons stname stnames ih =>
      rw [List.foldlM_cons, bind_eq_ok] at h
      obtain ⟨st₁, hturn, h⟩ := h
      obtain ⟨hstart, hmsgs, hstarts⟩ := visitStname_written hturn
      obtain ⟨hstart', hmsgs', hstarts'⟩ := ih h
      rw [writtenForStnames, hturn]
      dsimp only
      refine ⟨hstart.trans hstart', ?_, ?_⟩
      · rw [hmsgs', hmsgs, List.flatMap_append, List.append_assoc]
      · rw [List.forall_mem_append]
        refine ⟨?_, hstarts'⟩
        intro c hc
        obtain ⟨behind, hbehind⟩ := hstart'
        rw [← hbehind, List.flatMap_append]
        exact (hstarts c hc).trans (List.prefix_append _ _)

/-- A run numbers the messages about the columns it writes, and no others. -/
theorem migrateDdlStnames_written {q : SqlsvrDdlQueries} {st : MigrationState}
    (h : m.migrateDdlStnames (some factory) q = .ok st) :
    numbered st.stnamesMigrationMsgs =
        (m.writtenForStnames factory m.sortStnames { queries := q }).flatMap (WrittenColumn.msgs []) ∧
      ∀ c ∈ m.writtenForStnames factory m.sortStnames { queries := q },
        c.before ++ c.text <+: st.statements.flatMap DdlStatement.render := by
  obtain ⟨st₁, hloop, hend⟩ := migrateDdlStnames_cases h
  obtain ⟨-, hmsgs, hstarts⟩ := foldlM_visitStname_written hloop
  obtain ⟨-, rfl⟩ | ⟨-, rfl⟩ := hend
  · exact ⟨hmsgs, hstarts⟩
  · have htargets : numbered (m.fkTargetMsgs st₁.queries) = [] := by
      apply numbered_eq_nil
      intro msg hmsg
      obtain ⟨stname, -, rfl⟩ := List.mem_map.mp hmsg
      rfl
    unfold migrateValidateFkConstraintsDdl
    dsimp only
    rw [numbered_append, htargets, List.append_nil, List.flatMap_append]
    exact ⟨hmsgs, fun c hc => (hstarts c hc).trans (List.prefix_append _ _)⟩

end Columns

end SqlsvrDdlStnamesMigrator

end Middle.SqlsvrDdl

namespace Middle.NormalDdl

open Universals

/-! ### Printing messages -/

/-- `level_str`. -/
def DdlMigrationMsgLevel.levelStr : DdlMigrationMsgLevel → Text
  | .error => "ERROR".toList
  | .warning => "WARNING".toList
  | .remark => "REMARK".toList

namespace DdlStnamesMigrationMsg

/-- A message as it is printed below a header of so many lines, with the number of a line of the file. -/
def printed (linenoOffset : Nat) (msg : DdlStnamesMigrationMsg) : DdlStnamesMigrationMsg :=
  { msg with lineno := linenoOffset + msg.lineno }

/-- `str`. -/
def str (linenoOffset : Nat) (msg : DdlStnamesMigrationMsg) : Text :=
  let level := msg.msg.level.levelStr
  level ++ List.replicate (8 - level.length) ' ' ++
    (if msg.lineno ≠ 0 then "[line ".toList ++ lexicalCast (msg.printed linenoOffset).lineno ++ "]: ".toList
    else []) ++
    (if msg.stname = .empty then []
    else msg.stname.name ++ (if msg.cname = .empty then [] else '.' :: msg.cname.name) ++ ": ".toList) ++
    msg.msg.msg

end DdlStnamesMigrationMsg

end Middle.NormalDdl

namespace Middle.MiddleApp

open Lib Lib.Lines Universals NormalDdl SqlsvrDdl

/-! ### Target files -/

/-- What the program and the clock put on the first line of a target file. -/
structure MigratedBy where
  appVersion : Text
  now : Text
  oneLine : '\n' ∉ appVersion ++ now

/-- `ddl_target_mass_migrator`. The messages of a batch are not about lines: that is asserted when they are
collected. -/
structure DdlTargetMassMigrator where
  filepaths : List Text
  batchSource : Bool
  stnamesMigrator : SqlsvrDdlStnamesMigrator
  batchStnamesMigrationMsgs : List DdlStnamesMigrationMsg
  batchUnnumbered : ∀ msg ∈ batchStnamesMigrationMsgs, msg.lineno = 0

/-- `write_target_ddl_header`: what is written, and the number of lines it is taken for. -/
def writeTargetDdlHeader (program : MigratedBy) (filepaths : List Text) (batchSource : Bool) : Text × Nat :=
  let title := "-- DO NOT EDIT: this file was migrated by MIDDLE (version: ".toList ++ program.appVersion ++
    ") at ".toList ++ program.now ++ " from ".toList ++ lexicalCast filepaths.length ++
    (if batchSource then " batch ".toList else " ".toList) ++ "source(s): \n".toList
  let sources := filepaths.foldl
    (fun header filepath => (header.1 ++ ("-- ".toList ++ filepath ++ ['\n']), header.2 + 1)) (title, 1)
  (sources.1 ++ ['\n'], sources.2 + 1)

/-- What a target file is written from. -/
structure TargetDdlFile where
  header : Text
  headerLinecnt : Nat
  statements : List DdlStatement
  stnamesMigrationMsgs : List DdlStnamesMigrationMsg

namespace TargetDdlFile

def text (file : TargetDdlFile) : Text :=
  file.header ++ file.statements.flatMap DdlStatement.render ++
    if file.stnamesMigrationMsgs = [] then []
    else "\n-- errors/warnings/remarks:\n".toList ++ file.stnamesMigrationMsgs.flatMap fun msg =>
      "-- ".toList ++ msg.str file.headerLinecnt ++ ['\n']

/-- The messages that have a line number, with the number that is printed for them. -/
def printedMsgs (file : TargetDdlFile) : List DdlStnamesMigrationMsg :=
  (numbered file.stnamesMigrationMsgs).map (DdlStnamesMigrationMsg.printed file.headerLinecnt)

end TargetDdlFile

namespace DdlTargetMassMigrator

variable (t : DdlTargetMassMigrator) (program : MigratedBy)

/-- The file that holds what has been migrated, its messages sorted. -/
def file (ddl : TargetDdl) : TargetDdlFile :=
  let header := writeTargetDdlHeader program t.filepaths t.batchSource
  { header := header.1
    headerLinecnt := header.2
    statements := ddl.statements
    stnamesMigrationMsgs := (ddl.stnamesMigrationMsgs ++ t.batchStnamesMigrationMsgs).insertionSort
      fun msg that => that.lt msg = false }

/-- `mass_migrate_target_ddl`. -/
def massMigrateTargetDdl {σ : Type} (appTableMigratorFactory : DdlTableMigratorFactory σ) (q : SqlsvrDdlQueries) :
    Except Fault (Option TargetDdlFile × SqlsvrDdlQueries) := do
  let (target, q) ← MiddleApp.massMigrateTargetDdl appTableMigratorFactory t.stnamesMigrator q
  return (target.map (t.file program), q)

/-- The columns in a target file. -/
def writtenColumns {σ : Type} (appTableMigratorFactory : DdlTableMigratorFactory σ) (q : SqlsvrDdlQueries) :
    List WrittenColumn :=
  t.stnamesMigrator.writtenForStnames appTableMigratorFactory t.stnamesMigrator.sortStnames { queries := q }

end DdlTargetMassMigrator

/-! ### The header -/

theorem countLines_flatMap (texts : List Text) (f : Text → Text) :
    countLines (texts.flatMap f) = (texts.map fun text => countLines (f text)).sum := by
  induction texts with
  | nil => rfl
  | cons text texts ih => rw [List.flatMap_cons, countLines_append, ih, List.map_cons, List.sum_cons]

theorem foldl_header (header : Text × Nat) (filepaths : List Text) :
    filepaths.foldl
        (fun header filepath => (header.1 ++ ("-- ".toList ++ filepath ++ ['\n']), header.2 + 1)) header =
      (header.1 ++ filepaths.flatMap (fun filepath => "-- ".toList ++ filepath ++ ['\n']),
        header.2 + filepaths.length) := by
  induction filepaths generalizing header with
  | nil => simp
  | cons filepath filepaths ih =>
      rw [List.foldl_cons, ih, List.flatMap_cons, List.length_cons, List.append_assoc]
      congr 1
      omega

theorem countLines_lexicalCast (n : Nat) : countLines (lexicalCast n) = 0 :=
  List.count_eq_zero.mpr fun hmem => absurd (isDigit_of_mem_lexicalCast hmem) (by decide)

/-- The header has the lines it is taken for, and those that the paths of the sources add. -/
theorem countLines_header (program : MigratedBy) (filepaths : List Text) (batchSource : Bool) :
    countLines (writeTargetDdlHeader program filepaths batchSource).1 =
      (writeTargetDdlHeader program filepaths batchSource).2 + (filepaths.map countLines).sum := by
  have happ : countLines program.appVersion = 0 := List.count_eq_zero.mpr fun h => program.oneLine (List.mem_append_left _ h)
  have hnow : countLines program.now = 0 := List.count_eq_zero.mpr fun h => program.oneLine (List.mem_append_right _ h)
  have hlength : countLines (lexicalCast filepaths.length) = 0 := countLines_lexicalCast _
  have hbatch : countLines (if batchSource then " batch ".toList else " ".toList) = 0 := by
    cases batchSource <;> decide
  have hsource : ∀ filepath : Text,
      countLines ("-- ".toList ++ filepath ++ ['\n']) = countLines filepath + 1 := by
    intro filepath
    rw [countLines_append, countLines_append, show countLines "-- ".toList = 0 by decide, Nat.zero_add]
    rfl
  unfold writeTargetDdlHeader
  dsimp only
  rw [foldl_header]
  dsimp only
  simp only [countLines_append, countLines_flatMap, hsource, List.sum_map_add, happ, hnow, hlength, hbatch]
  have hones : (filepaths.map fun _ => 1).sum = filepaths.length := by simp
  rw [hones]
  have htitle : countLines "-- DO NOT EDIT: this file was migrated by MIDDLE (version: ".toList = 0 := by decide
  have hat : countLines ") at ".toList = 0 := by decide
  have hfrom : countLines " from ".toList = 0 := by decide
  have hend : countLines "source(s): \n".toList = 1 := by decide
  have hblank : countLines ['\n'] = 1 := by decide
  omega

/-! ### The numbers that are printed -/

/-- Messages printed below headers of two lengths are the same only when there are none. -/
theorem perm_map_printed_iff {msgs : List DdlStnamesMigrationMsg} {n n' : Nat} :
    (msgs.map (DdlStnamesMigrationMsg.printed n)).Perm (msgs.map (DdlStnamesMigrationMsg.printed n')) ↔
      n = n' ∨ msgs = [] := by
  have hsum : ∀ k, ((msgs.map (DdlStnamesMigrationMsg.printed k)).map DdlStnamesMigrationMsg.lineno).sum =
      msgs.length * k + (msgs.map DdlStnamesMigrationMsg.lineno).sum := by
    intro k
    rw [List.map_map]
    induction msgs with
    | nil => simp
    | cons msg msgs ih =>
        rw [List.map_cons, List.sum_cons, ih, List.map_cons, List.sum_cons, List.length_cons]
        change k + msg.lineno + _ = _
        ring
  constructor
  · intro hperm
    have heq := (hperm.map DdlStnamesMigrationMsg.lineno).sum_eq
    rw [hsum, hsum, Nat.add_right_cancel_iff, mul_eq_mul_left_iff] at heq
    exact heq.imp_right List.length_eq_zero_iff.mp
  · rintro (rfl | rfl)
    · exact List.Perm.refl _
    · exact List.Perm.refl _

/-- The messages about a column below a header have the lines of the header added. -/
theorem msgs_header (header : Text) (c : WrittenColumn) :
    c.msgs header = (c.msgs []).map (DdlStnamesMigrationMsg.printed (countLines header)) := by
  unfold WrittenColumn.msgs
  rw [List.map_map]
  apply List.map_congr_left
  intro msg _
  unfold WrittenColumn.line
  dsimp only [Function.comp, DdlStnamesMigrationMsg.printed]
  rw [countLines_append, List.nil_append, Nat.add_left_comm]

theorem printedMsgs_perm (t : DdlTargetMassMigrator) (program : MigratedBy) {ddl : TargetDdl} {columns : List WrittenColumn}
    (h : numbered ddl.stnamesMigrationMsgs = columns.flatMap (WrittenColumn.msgs [])) :
    (t.file program ddl).printedMsgs.Perm
      ((columns.flatMap (WrittenColumn.msgs [])).map
        (DdlStnamesMigrationMsg.printed (t.file program ddl).headerLinecnt)) := by
  have hsort : (t.file program ddl).stnamesMigrationMsgs.Perm
      (ddl.stnamesMigrationMsgs ++ t.batchStnamesMigrationMsgs) := List.perm_insertionSort _ _
  have hnumbered : (numbered (t.file program ddl).stnamesMigrationMsgs).Perm
      (columns.flatMap (WrittenColumn.msgs [])) := by
    rw [← h, ← List.append_nil (numbered ddl.stnamesMigrationMsgs), ← numbered_eq_nil t.batchUnnumbered,
      ← numbered_append]
    exact hsort.filter _
  exact hnumbered.map _

/-- The lines of the header are counted right exactly when no source path has a line feed in it. -/
theorem headerLinecnt_eq_iff (t : DdlTargetMassMigrator) (program : MigratedBy) (ddl : TargetDdl) :
    (t.file program ddl).headerLinecnt = countLines (t.file program ddl).header ↔
      ∀ filepath ∈ t.filepaths, '\n' ∉ filepath := by
  have hheader : countLines (t.file program ddl).header =
      (t.file program ddl).headerLinecnt + (t.filepaths.map countLines).sum :=
    countLines_header program t.filepaths t.batchSource
  have hsum : (t.filepaths.map countLines).sum = 0 ↔ ∀ filepath ∈ t.filepaths, '\n' ∉ filepath := by
    rw [List.sum_eq_zero_iff, List.forall_mem_map]
    exact forall₂_congr fun filepath _ => List.count_eq_zero
  rw [hheader, ← hsum]
  omega

/-- In a target file the messages about columns are printed with the numbers of the lines these start on exactly
when no source path of the header has a line feed in it, or no such message is there. -/
theorem massMigrateTargetDdl_lines_iff {σ : Type} {appTableMigratorFactory : DdlTableMigratorFactory σ}
    {t : DdlTargetMassMigrator} {program : MigratedBy} {q q' : SqlsvrDdlQueries} {file : TargetDdlFile}
    (h : t.massMigrateTargetDdl program appTableMigratorFactory q = .ok (some file, q')) :
    (∀ c ∈ t.writtenColumns appTableMigratorFactory q, file.header ++ c.before ++ c.text <+: file.text) ∧
      (file.printedMsgs.Perm
          ((t.writtenColumns appTableMigratorFactory q).flatMap (WrittenColumn.msgs file.header)) ↔
        (∀ filepath ∈ t.filepaths, '\n' ∉ filepath) ∨
          ∀ c ∈ t.writtenColumns appTableMigratorFactory q, c.column.migration.msgs = []) := by
  unfold DdlTargetMassMigrator.massMigrateTargetDdl at h
  rw [bind_eq_ok] at h
  obtain ⟨⟨target, q₁⟩, htarget, h⟩ := h
  obtain ⟨hfile, -⟩ := Prod.ext_iff.mp (Except.ok.inj h)
  obtain ⟨ddl, rfl, rfl⟩ := Option.map_eq_some_iff.mp hfile
  unfold MiddleApp.massMigrateTargetDdl at htarget
  split at htarget
  · cases htarget
  · rw [bind_eq_ok] at htarget
    obtain ⟨st, hst, htarget⟩ := htarget
    cases htarget
    obtain ⟨hnumbered, hstarts⟩ := SqlsvrDdlStnamesMigrator.migrateDdlStnames_written hst
    constructor
    · intro c hc
      unfold TargetDdlFile.text
      dsimp only [DdlTargetMassMigrator.file]
      rw [List.append_assoc, List.append_assoc, List.prefix_append_right_inj]
      exact (hstarts c hc).trans (List.prefix_append _ _)
    · have hexpected : (t.writtenColumns appTableMigratorFactory q).flatMap
            (WrittenColumn.msgs (t.file program ⟨st.statements, st.stnamesMigrationMsgs⟩).header) =
          ((t.writtenColumns appTableMigratorFactory q).flatMap (WrittenColumn.msgs [])).map
            (DdlStnamesMigrationMsg.printed
              (countLines (t.file program ⟨st.statements, st.stnamesMigrationMsgs⟩).header)) := by
        rw [List.map_flatMap]
        exact List.flatMap_congr fun c _ => msgs_header _ c
      have hnone : (t.writtenColumns appTableMigratorFactory q).flatMap (WrittenColumn.msgs []) = [] ↔
          ∀ c ∈ t.writtenColumns appTableMigratorFactory q, c.column.migration.msgs = [] := by
        rw [List.flatMap_eq_nil_iff]
        exact forall₂_congr fun c _ => List.map_eq_nil_iff
      rw [hexpected, (printedMsgs_perm t program hnumbered).congr_left, ← hnone, ← headerLinecnt_eq_iff t program]
      exact perm_map_printed_iff

/-- The migration of a source file that suggests `a` of `dbo.t` as an identity column. -/
def suggestsIdentity (filepath : String) : DdlTargetMassMigrator where
  filepaths := [filepath.toList]
  batchSource := false
  stnamesMigrator := { usesTable dboT with assumedIdents := {.ofStname dboT "a".toList} }
  batchStnamesMigrationMsgs := []
  batchUnnumbered := fun _ h => absurd h List.not_mem_nil

def firstVersion : MigratedBy := ⟨"1".toList, "now".toList, by decide⟩

/-- Below the header of one source the remark about `a` names the line `a` stands on. -/
theorem massMigrateTargetDdl_lines_a :
    ∃ file q', (suggestsIdentity "a.xml").massMigrateTargetDdl firstVersion
        (HsqldbTableMigrator.factory intPrefs 0) (rAndT .empty) = .ok (some file, q') ∧
      file.printedMsgs.map DdlStnamesMigrationMsg.lineno = [6] ∧
      file.printedMsgs.Perm (((suggestsIdentity "a.xml").writtenColumns (HsqldbTableMigrator.factory intPrefs 0)
        (rAndT .empty)).flatMap (WrittenColumn.msgs file.header)) := by
  refine ⟨_, _, rfl, by decide +kernel, (massMigrateTargetDdl_lines_iff rfl).2.mpr (.inl ?_)⟩
  intro filepath hfilepath
  rw [List.mem_singleton.mp hfilepath]
  decide

/-- A line feed in the path of the source moves `a` to the next line, but not the number in the remark. -/
theorem massMigrateTargetDdl_lines_lf :
    ∃ file q', (suggestsIdentity "a\nb.xml").massMigrateTargetDdl firstVersion
        (HsqldbTableMigrator.factory intPrefs 0) (rAndT .empty) = .ok (some file, q') ∧
      file.printedMsgs.map DdlStnamesMigrationMsg.lineno = [6] ∧
      ((suggestsIdentity "a\nb.xml").writtenColumns (HsqldbTableMigrator.factory intPrefs 0)
        (rAndT .empty)).map (WrittenColumn.line file.header) = [7, 8] ∧
      ¬ file.printedMsgs.Perm (((suggestsIdentity "a\nb.xml").writtenColumns
        (HsqldbTableMigrator.factory intPrefs 0) (rAndT .empty)).flatMap (WrittenColumn.msgs file.header)) := by
  refine ⟨_, _, rfl, ?_, ?_, ?_⟩
  · decide +kernel
  · decide +kernel
  · decide +kernel

end Middle.MiddleApp
