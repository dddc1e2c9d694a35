import Middle.Lib.Checked
import Middle.MiddleApp.PrefsReader
import Middle.NormalDdl.Usedcols

/-! Reading the names of tables and columns from a DbUnit dataset (`dbunit_ddl_names_filereader_impl`). The XML
parser is a parameter. An element below the root names a table and, by its attributes, columns that are used; a
comment may name a column that is assumed to be an identity. -/

namespace Middle.MiddleApp

open Lib Universals NormalDdl

/-- A child of the root element, as far as the reader looks at it. -/
inductive DomNode where
  | element (nodeName : Text) (attributes : List Text)
  | comment (nodeValue : Text)
  | other

/-- An element with its children. -/
structure DomElement where
  nodeName : Text
  children : List DomNode

/-- `DOMDocument`. -/
structure DomDocument where
  documentElement : Option DomElement

/-- `XercesDOMParser`: the document of a file, if there is one, or the message of an `XMLException`. -/
abbrev XercesDomParser := Text → Except Text (Option DomDocument)

/-- What `read_ddl_names` fills. -/
structure DdlNames where
  stnameUsedcols : DdlStnameUsedcols := ∅
  assumedIdents : DdlAssumedIdentities := ∅

/-- The exceptions of `read_ddl_names`. -/
inductive NamesFilereaderError where
  /-- `ddl_names_filereader_parse_error`. -/
  | parseError (what : Text)
  | fault (e : Fault)

/-- `get_default_schema_name` of the factory for SQL Server. -/
def getDefaultSchemaName : Text := "dbo".toList

def assumeIdentityKeyword : Text := "MIDDLE!ASSUME_IDENTITY".toList

/-- `boost::trim`. -/
def trim (s : Text) : Text := (s.dropWhile Ptree.isSpace).rdropWhile Ptree.isSpace

def parsingXmlFile (filepath : Text) : Text := "parsing XML file '".toList ++ filepath ++ "': ".toList

def invalidTableName (filepath tableName : Text) : Text :=
  parsingXmlFile filepath ++
    "at XML element attribute of child element of <dataset>: invalid DDL table name: '".toList ++ tableName ++
    "'".toList

def invalidColumnName (filepath columnName : Text) : Text :=
  parsingXmlFile filepath ++ "at XML comment child of <dataset>: invalid '".toList ++ assumeIdentityKeyword ++
    "' DDL column name: '".toList ++ columnName ++ "'".toList

section Reader

variable (parse : XercesDomParser) (filepath : Text)

/-- The loop of `read_ddl_names` over the attributes of an element. -/
def noteUsedcols (stname : DdlStname) (attributes : List Text) (m : DdlStnameUsedcols) :
    Except Fault DdlStnameUsedcols :=
  attributes.foldlM (fun m nodeName => m.insertNameUsedcol stname (.ofText nodeName)) m

/-- The turn of the loop of `read_ddl_names` over the children of the root. Behind the end of a comment there is
the terminating null, which is no space. -/
def readNode (names : DdlNames) : DomNode → Except NamesFilereaderError DdlNames
  | .element tableName attributes =>
      let stname := DdlStname.parse tableName getDefaultSchemaName
      if stname.name = [] then .error (.parseError (invalidTableName filepath tableName))
      else
        match noteUsedcols stname attributes (names.stnameUsedcols.insertName stname) with
        | .error e => .error (.fault e)
        | .ok stnameUsedcols => .ok { names with stnameUsedcols }
  | .comment comment =>
      match find comment assumeIdentityKeyword 0 with
      | none => .ok names
      | some pos =>
          if (comment.drop (pos + assumeIdentityKeyword.length)).head?.any Ptree.isSpace then
            let columnName := trim (comment.drop (pos + assumeIdentityKeyword.length + 1))
            let stcname := DdlStcname.parse columnName getDefaultSchemaName
            if stcname.name = [] then .error (.parseError (invalidColumnName filepath columnName))
            else .ok { names with assumedIdents := insert stcname names.assumedIdents }
          else .ok names
  | .other => .ok names

/-- `read_ddl_names`; it tells that it notes the used columns. -/
def readDdlNames (names : DdlNames) : Except NamesFilereaderError (DdlNames × Bool) :=
  match parse filepath with
  | .error message => .error (.parseError message)
  | .ok none => .error (.parseError (parsingXmlFile filepath ++ "no XML document parsed".toList))
  | .ok (some doc) =>
      match doc.documentElement.filter (·.nodeName = "dataset".toList) with
      | none => .error (.parseError (parsingXmlFile filepath ++ "no XML root element <dataset>".toList))
      | some root => (root.children.foldlM (readNode filepath) names).map (·, true)

end Reader

/-! ### What a child is read as -/

/-- What a child adds to the names. -/
inductive NodeNote where
  | usedTable (stname : DdlStname) (usedcols : DdlUsedcols)
  | assumedIdentity (stcname : DdlStcname)
  | nothing

/-- The names with what a child adds to them. -/
def DdlNames.add (names : DdlNames) : NodeNote → DdlNames
  | .usedTable stname usedcols =>
      { names with stnameUsedcols := names.stnameUsedcols.mergeEntry (stname, usedcols) }
  | .assumedIdentity stcname => { names with assumedIdents := insert stcname names.assumedIdents }
  | .nothing => names

/-- What stands behind the keyword and the space that follows it, where a comment has them. -/
def assumedColumn (comment : Text) : Option Text :=
  (find comment assumeIdentityKeyword 0).bind fun pos =>
    if (comment.drop (pos + assumeIdentityKeyword.length)).head?.any Ptree.isSpace then
      some (trim (comment.drop (pos + assumeIdentityKeyword.length + 1)))
    else none

/-- What a child is read as on its own, or the text of the parse error about it. -/
def DomNode.note (filepath : Text) : DomNode → Except Text NodeNote
  | .element tableName attributes =>
      if (DdlStname.parse tableName getDefaultSchemaName).name = [] then .error (invalidTableName filepath tableName)
      else .ok (.usedTable (.parse tableName getDefaultSchemaName) (attributes.map DdlCname.ofText).toFinset)
  | .comment text =>
      match assumedColumn text with
      | none => .ok .nothing
      | some columnName =>
          if (DdlStcname.parse columnName getDefaultSchemaName).name = [] then
            .error (invalidColumnName filepath columnName)
          else .ok (.assumedIdentity (.parse columnName getDefaultSchemaName))
  | .other => .ok .nothing

/-- The assertion about the name of a used column holds, as the name of its table has just been put in. -/
theorem noteUsedcols_insertName (m : DdlStnameUsedcols) (stname : DdlStname) (attributes : List Text) :
    noteUsedcols stname attributes (m.insertName stname) =
      .ok (m.mergeEntry (stname, (attributes.map DdlCname.ofText).toFinset)) := by
  have hloop : ∀ usedcols : DdlUsedcols,
      noteUsedcols stname attributes ((m.insertName stname).modify stname (· ∪ usedcols)) =
        .ok ((m.insertName stname).modify stname
          (· ∪ (usedcols ∪ (attributes.map DdlCname.ofText).toFinset))) := by
    induction attributes with
    | nil => simp [noteUsedcols, pure, Except.pure]
    | cons attr attributes ih =>
        intro usedcols
        have hthere : (((m.insertName stname).modify stname (· ∪ usedcols)).find stname).isNone = false := by
          rw [UnorderedMap.find_modify, if_pos rfl, DdlStnameUsedcols.find_insertName, if_pos rfl]
          cases m.find stname with
          | none => rfl
          | some usedcols' => rfl
        have hinsert : DdlStnameUsedcols.insertNameUsedcol ((m.insertName stname).modify stname (· ∪ usedcols))
            stname (.ofText attr) =
              .ok ((m.insertName stname).modify stname (· ∪ insert (DdlCname.ofText attr) usedcols)) := by
          unfold DdlStnameUsedcols.insertNameUsedcol
          rw [hthere, UnorderedMap.modify_modify]
          simp only [Finset.union_insert, Bool.false_eq_true, if_false]
        unfold noteUsedcols at ih ⊢
        rw [List.foldlM_cons, hinsert]
        refine (ih _).trans ?_
        rw [List.map_cons, List.toFinset_cons, Finset.insert_union, Finset.union_insert]
  have hself : (m.insertName stname).modify stname (· ∪ ∅) = m.insertName stname := by
    simp only [Finset.union_empty]
    exact UnorderedMap.mapValues_eq_self fun _ _ => ite_self _
  have hrun := hloop ∅
  rw [hself, Finset.empty_union] at hrun
  exact hrun

theorem readNode_eq (filepath : Text) (names : DdlNames) (node : DomNode) :
    readNode filepath names node = ((node.note filepath).mapError .parseError).map names.add := by
  cases node with
  | element tableName attributes =>
      unfold readNode DomNode.note
      dsimp only
      split
      · rfl
      · rw [noteUsedcols_insertName]
        rfl
  | comment comment =>
      unfold readNode DomNode.note assumedColumn
      dsimp only
      cases find comment assumeIdentityKeyword 0 with
      | none => rfl
      | some pos =>
          dsimp only [Option.bind_some]
          split
          · dsimp only
            split
            · rfl
            · rfl
          · rfl
  | other => rfl

/-! ### What is refused -/

theorem findAt_eq_some_iff {needle s : Text} {start pos : Nat} (hneedle : needle ≠ []) :
    findAt needle start s = some (start + pos) ↔
      needle <+: s.drop pos ∧ ∀ before < pos, ¬ needle <+: s.drop before := by
  induction s generalizing start pos with
  | nil => simp [findAt, hneedle]
  | cons c s ih =>
      rw [findAt]
      by_cases hhere : needle <+: c :: s
      · rw [if_pos hhere, Option.some.injEq]
        constructor
        · intro h
          obtain rfl : pos = 0 := by omega
          exact ⟨hhere, fun before hbefore => absurd hbefore (Nat.not_lt_zero before)⟩
        · rintro ⟨-, hfirst⟩
          obtain rfl | hpos := Nat.eq_zero_or_pos pos
          · rfl
          · exact absurd hhere (hfirst 0 hpos)
      · rw [if_neg hhere]
        cases pos with
        | zero =>
            refine iff_of_false (fun h => ?_) fun h => hhere h.1
            exact absurd (findAt_le needle (start + 1) s h) (by omega)
        | succ pos =>
            rw [show start + (pos + 1) = start + 1 + pos by omega, ih, List.drop_succ_cons]
            refine and_congr_right fun _ => ⟨fun hfirst before hbefore => ?_, fun hfirst before hbefore => ?_⟩
            · cases before with
              | zero => exact hhere
              | succ before => exact hfirst before (by omega)
            · exact hfirst (before + 1) (by omega)

/-- A comment in which the first keyword is followed by a space and, between spaces, by the name of a column. -/
def AssumesIdentity (comment columnName : Text) : Prop :=
  ∃ before space behind, comment = before ++ assumeIdentityKeyword ++ space :: behind ∧
    (∀ pos < before.length, ¬ assumeIdentityKeyword <+: comment.drop pos) ∧
    Ptree.isSpace space = true ∧ columnName = trim behind

theorem assumedColumn_eq_some_iff {comment columnName : Text} :
    assumedColumn comment = some columnName ↔ AssumesIdentity comment columnName := by
  have hkeyword : assumeIdentityKeyword ≠ [] := by decide
  have hfind : ∀ pos, find comment assumeIdentityKeyword 0 = some pos ↔
      assumeIdentityKeyword <+: comment.drop pos ∧
        ∀ before < pos, ¬ assumeIdentityKeyword <+: comment.drop before := by
    intro pos
    rw [find, if_pos (Nat.zero_le _), List.drop_zero, ← findAt_eq_some_iff hkeyword, Nat.zero_add]
  have hdrop : ∀ before rest : Text, (before ++ assumeIdentityKeyword ++ rest).drop
      (before.length + assumeIdentityKeyword.length) = rest := by
    intro before rest
    rw [← List.length_append, List.drop_left]
  have hbehind : ∀ (before behind : Text) (space : Char), (before ++ assumeIdentityKeyword ++ space :: behind).drop
      (before.length + assumeIdentityKeyword.length + 1) = behind := by
    intro before behind space
    rw [← List.drop_drop, hdrop]
    rfl
  unfold assumedColumn
  rw [Option.bind_eq_some_iff]
  constructor
  · rintro ⟨pos, hpos, h⟩
    obtain ⟨hstarts, hfirst⟩ := (hfind pos).mp hpos
    obtain ⟨rest, hrest⟩ := hstarts
    have hlength : pos ≤ comment.length := by
      by_contra hpast
      rw [List.drop_eq_nil_of_le (by omega)] at hrest
      exact hkeyword (List.append_eq_nil_iff.mp hrest).1
    obtain ⟨before, rfl, rfl⟩ : ∃ before, before.length = pos ∧ comment = before ++ assumeIdentityKeyword ++ rest := by
      refine ⟨comment.take pos, List.length_take_of_le hlength, ?_⟩
      rw [List.append_assoc, hrest, List.take_append_drop]
    rw [hdrop] at h
    cases rest with
    | nil => cases h
    | cons space behind =>
        rw [hbehind] at h
        obtain ⟨hspace, hcolumn⟩ := Option.ite_none_right_eq_some.mp h
        exact ⟨before, space, behind, rfl, hfirst, hspace, (Option.some.inj hcolumn).symm⟩
  · rintro ⟨before, space, behind, rfl, hfirst, hspace, rfl⟩
    refine ⟨before.length, (hfind _).mpr ⟨?_, hfirst⟩, ?_⟩
    · rw [List.append_assoc, List.drop_left]
      exact List.prefix_append _ _
    · rw [hdrop, hbehind]
      exact if_pos hspace

/-- The child is none that can be read, and this is what is said about it. -/
def DomNode.Refused (filepath what : Text) : DomNode → Prop
  | .element tableName _ =>
      (DdlStname.parse tableName getDefaultSchemaName).name = [] ∧ what = invalidTableName filepath tableName
  | .comment text =>
      ∃ columnName, AssumesIdentity text columnName ∧
        (DdlStcname.parse columnName getDefaultSchemaName).name = [] ∧ what = invalidColumnName filepath columnName
  | .other => False

theorem note_eq_error_iff {filepath what : Text} {node : DomNode} :
    node.note filepath = .error what ↔ node.Refused filepath what := by
  cases node with
  | element tableName attributes =>
      by_cases hname : (DdlStname.parse tableName getDefaultSchemaName).name = []
      · rw [DomNode.note, if_pos hname, Except.error.injEq]
        exact ⟨fun h => ⟨hname, h.symm⟩, fun h => h.2.symm⟩
      · rw [DomNode.note, if_neg hname]
        exact iff_of_false (fun h => by cases h) fun h => hname h.1
  | comment text =>
      unfold DomNode.note DomNode.Refused
      simp only [← assumedColumn_eq_some_iff]
      cases assumedColumn text with
      | none => exact iff_of_false (fun h => by cases h) fun ⟨_, h, _⟩ => by cases h
      | some columnName =>
          dsimp only
          split
          · rename_i hname
            rw [Except.error.injEq]
            constructor
            · exact fun h => ⟨columnName, rfl, hname, h.symm⟩
            · rintro ⟨columnName', hcolumn, -, rfl⟩
              rw [Option.some.inj hcolumn]
          · rename_i hname
            refine iff_of_false (fun h => by cases h) ?_
            rintro ⟨columnName', hcolumn, hname', -⟩
            exact absurd (Option.some.inj hcolumn ▸ hname') hname
  | other => exact iff_of_false (fun h => by cases h) id

/-- What the reader says about a file it does not read names from. -/
def NotRead (parse : XercesDomParser) (filepath what : Text) : Prop :=
  parse filepath = .error what ∨
    (parse filepath = .ok none ∧ what = parsingXmlFile filepath ++ "no XML document parsed".toList) ∨
    ∃ doc, parse filepath = .ok (some doc) ∧
      (((∀ root ∈ doc.documentElement, root.nodeName ≠ "dataset".toList) ∧
          what = parsingXmlFile filepath ++ "no XML root element <dataset>".toList) ∨
        ∃ before node behind, doc.documentElement = some ⟨"dataset".toList, before ++ node :: behind⟩ ∧
          (∀ node' ∈ before, ∀ what', ¬ node'.Refused filepath what') ∧ node.Refused filepath what)

/-- A loop over the children reads each on its own. -/
theorem foldlM_readNode (filepath : Text) (children : List DomNode) (names : DdlNames) :
    children.foldlM (readNode filepath) names =
      ((children.mapM (DomNode.note filepath)).mapError .parseError).map fun notes => notes.foldl .add names := by
  rw [foldlM_eq_mapM (readNode_eq filepath)]
  congr 1
  induction children with
  | nil => rfl
  | cons node children ih =>
      rw [List.mapM_cons, List.mapM_cons, ih]
      cases node.note filepath with
      | error what => rfl
      | ok note =>
          cases children.mapM (DomNode.note filepath) with
          | error what => rfl
          | ok notes => rfl

theorem forall_not_refused_iff {filepath : Text} {nodes : List DomNode} :
    (∀ node ∈ nodes, ∀ what, ¬ node.Refused filepath what) ↔ ∀ node ∈ nodes, ∃ note, node.note filepath = .ok note := by
  simp only [← note_eq_error_iff]
  refine forall₂_congr fun node _ => ?_
  cases node.note filepath with
  | error what => simp
  | ok note => simp

/-- What ends the reading of a file is a parse error, about the first child that cannot be read when there is a
dataset. -/
theorem readDdlNames_eq_error_iff (parse : XercesDomParser) (filepath : Text) (names : DdlNames)
    (e : NamesFilereaderError) :
    readDdlNames parse filepath names = .error e ↔ ∃ what, e = .parseError what ∧ NotRead parse filepath what := by
  unfold readDdlNames NotRead
  cases parse filepath with
  | error message => simp [eq_comm]
  | ok parsed =>
      cases parsed with
      | none => simp [eq_comm]
      | some doc =>
          obtain ⟨documentElement⟩ := doc
          dsimp only
          cases hroot : documentElement.filter (·.nodeName = "dataset".toList) with
          | none =>
              have hnone : ∀ root ∈ documentElement, root.nodeName ≠ "dataset".toList := by
                intro root hmem hname
                have hkept := Option.filter_eq_none_iff.mp hroot root hmem
                exact hkept (decide_eq_true hname)
              dsimp only
              constructor
              · intro h
                cases h
                exact ⟨_, rfl, .inr (.inr ⟨_, rfl, .inl ⟨hnone, rfl⟩⟩)⟩
              · rintro ⟨what, rfl, h | ⟨h, -⟩ | ⟨doc, h, ⟨-, rfl⟩ | ⟨before, node, behind, hdataset, -⟩⟩⟩
                · cases h
                · cases h
                · rfl
                · cases h
                  exact absurd rfl (hnone _ hdataset)
          | some root =>
              obtain ⟨hdataset, hname⟩ := Option.filter_eq_some_iff.mp hroot
              obtain ⟨nodeName, children⟩ := root
              obtain rfl : nodeName = "dataset".toList := of_decide_eq_true hname
              dsimp only
              rw [foldlM_readNode]
              constructor
              · intro h
                cases hnotes : children.mapM (DomNode.note filepath) with
                | ok notes =>
                    rw [hnotes] at h
                    cases h
                | error what =>
                    rw [hnotes] at h
                    cases h
                    obtain ⟨before, node, behind, rfl, hbefore, hnode⟩ := mapM_eq_error_iff.mp hnotes
                    exact ⟨what, rfl, .inr (.inr ⟨_, rfl, .inr ⟨before, node, behind, hdataset,
                      forall_not_refused_iff.mpr hbefore, note_eq_error_iff.mp hnode⟩⟩)⟩
              · rintro ⟨what, rfl, h | ⟨h, -⟩ | ⟨doc, h, ⟨hnone, -⟩ | ⟨before, node, behind, hsplit, hbefore, hnode⟩⟩⟩
                · cases h
                · cases h
                · cases h
                  exact absurd rfl (hnone _ hdataset)
                · cases h
                  dsimp only at hsplit
                  rw [hdataset, Option.some.injEq, DomElement.mk.injEq] at hsplit
                  rw [mapM_eq_error_iff.mpr ⟨before, node, behind, hsplit.2, forall_not_refused_iff.mp hbefore,
                    note_eq_error_iff.mpr hnode⟩]
                  rfl

/-! ### What is read -/

/-- The names that the children of a dataset give. -/
structure HoldsNames (children : List DomNode) (names : DdlNames) : Prop where
  table : ∀ stname, (names.stnameUsedcols.find stname).isSome ↔
    ∃ tableName attributes, .element tableName attributes ∈ children ∧
      DdlStname.parse tableName getDefaultSchemaName = stname
  usedcol : ∀ stname cname, cname ∈ (names.stnameUsedcols.find stname).getD ∅ ↔
    ∃ tableName attributes, .element tableName attributes ∈ children ∧
      DdlStname.parse tableName getDefaultSchemaName = stname ∧ ∃ attr ∈ attributes, DdlCname.ofText attr = cname
  assumedIdent : ∀ stcname, stcname ∈ names.assumedIdents ↔
    ∃ text columnName, .comment text ∈ children ∧ AssumesIdentity text columnName ∧
      DdlStcname.parse columnName getDefaultSchemaName = stcname

theorem note_eq_usedTable_iff {filepath : Text} {node : DomNode} {stname : DdlStname} {usedcols : DdlUsedcols} :
    node.note filepath = .ok (.usedTable stname usedcols) ↔
      ∃ tableName attributes, node = .element tableName attributes ∧ stname.name ≠ [] ∧
        DdlStname.parse tableName getDefaultSchemaName = stname ∧
        (attributes.map DdlCname.ofText).toFinset = usedcols := by
  cases node with
  | element tableName attributes =>
      by_cases hname : (DdlStname.parse tableName getDefaultSchemaName).name = []
      · rw [DomNode.note, if_pos hname]
        refine iff_of_false (fun h => by cases h) ?_
        rintro ⟨tableName', attributes', heq, hne, rfl, -⟩
        cases heq
        exact hne hname
      · rw [DomNode.note, if_neg hname, Except.ok.injEq, NodeNote.usedTable.injEq]
        constructor
        · rintro ⟨rfl, rfl⟩
          exact ⟨tableName, attributes, rfl, hname, rfl, rfl⟩
        · rintro ⟨tableName', attributes', heq, -, rfl, rfl⟩
          cases heq
          exact ⟨rfl, rfl⟩
  | comment text =>
      refine iff_of_false (fun h => ?_) fun ⟨_, _, h, _⟩ => by cases h
      unfold DomNode.note at h
      dsimp only at h
      split at h
      · cases h
      · split at h
        · cases h
        · cases h
  | other => exact iff_of_false (fun h => by cases h) fun ⟨_, _, h, _⟩ => by cases h

theorem note_eq_assumedIdentity_iff {filepath : Text} {node : DomNode} {stcname : DdlStcname} :
    node.note filepath = .ok (.assumedIdentity stcname) ↔
      ∃ text columnName, node = .comment text ∧ AssumesIdentity text columnName ∧ stcname.name ≠ [] ∧
        DdlStcname.parse columnName getDefaultSchemaName = stcname := by
  cases node with
  | element tableName attributes =>
      refine iff_of_false (fun h => ?_) fun ⟨_, _, h, _⟩ => by cases h
      unfold DomNode.note at h
      dsimp only at h
      split at h
      · cases h
      · cases h
  | comment text =>
      simp only [← assumedColumn_eq_some_iff, DomNode.comment.injEq, exists_and_left, exists_eq_left']
      unfold DomNode.note
      dsimp only
      cases assumedColumn text with
      | none => exact iff_of_false (fun h => by cases h) fun ⟨_, h, _⟩ => by cases h
      | some columnName =>
          dsimp only
          split
          · rename_i hname
            refine iff_of_false (fun h => by cases h) ?_
            rintro ⟨_, hcolumn, hne, rfl⟩
            cases hcolumn
            exact hne hname
          · rename_i hname
            rw [Except.ok.injEq, NodeNote.assumedIdentity.injEq]
            constructor
            · rintro rfl
              exact ⟨columnName, rfl, hname, rfl⟩
            · rintro ⟨_, hcolumn, -, rfl⟩
              cases hcolumn
              rfl
  | other => exact iff_of_false (fun h => by cases h) fun ⟨_, _, h, _⟩ => by cases h

/-- What is there behind notes is in front of them or in one of these. -/
theorem foldl_add (notes : List NodeNote) (names : DdlNames) (stname : DdlStname) :
    (((notes.foldl .add names).stnameUsedcols.find stname).isSome ↔
        (names.stnameUsedcols.find stname).isSome ∨ ∃ note ∈ notes, ∃ usedcols, note = .usedTable stname usedcols) ∧
      (∀ cname, cname ∈ ((notes.foldl .add names).stnameUsedcols.find stname).getD ∅ ↔
        cname ∈ (names.stnameUsedcols.find stname).getD ∅ ∨
          ∃ note ∈ notes, ∃ usedcols, note = .usedTable stname usedcols ∧ cname ∈ usedcols) ∧
      ∀ stcname, stcname ∈ (notes.foldl .add names).assumedIdents ↔
        stcname ∈ names.assumedIdents ∨ ∃ note ∈ notes, note = .assumedIdentity stcname := by
  induction notes generalizing names with
  | nil => simp
  | cons note notes ih =>
      obtain ⟨htable, husedcol, hident⟩ := ih (names.add note)
      rw [List.foldl_cons, htable]
      simp only [husedcol, hident, List.exists_mem_cons_iff, ← or_assoc]
      cases note with
      | nothing => simp [DdlNames.add]
      | assumedIdentity stcname =>
          simp only [DdlNames.add, reduceCtorEq, false_and, exists_false, or_false, NodeNote.assumedIdentity.injEq,
            Finset.mem_insert, true_and, implies_true, iff_self]
          intro stcname'
          rw [or_comm (a := stcname' = stcname), eq_comm (a := stcname')]
      | usedTable stname' usedcols =>
          simp only [DdlNames.add, DdlStnameUsedcols.find_mergeEntry]
          by_cases hstname : stname = stname'
          · subst hstname
            simp [DdlStnameUsedcols.mem_merge_iff]
          · simp [hstname, Ne.symm hstname]

/-- Children that can all be read give what their notes add up to. -/
theorem holdsNames_of_mapM {filepath : Text} {children : List DomNode} {notes : List NodeNote}
    (h : children.mapM (DomNode.note filepath) = .ok notes) : HoldsNames children (notes.foldl .add {}) := by
  have hreadable : ∀ node ∈ children, ∀ what, ¬ node.Refused filepath what :=
    forall_not_refused_iff.mpr (exists_mapM_eq_ok_iff.mp ⟨notes, h⟩)
  have htables : ∀ (stname : DdlStname) (P : DdlUsedcols → Prop),
      (∃ note ∈ notes, ∃ usedcols, note = .usedTable stname usedcols ∧ P usedcols) ↔
        ∃ tableName attributes, .element tableName attributes ∈ children ∧
          DdlStname.parse tableName getDefaultSchemaName = stname ∧ P (attributes.map DdlCname.ofText).toFinset := by
    intro stname P
    rw [exists_mem_iff_of_mapM h]
    constructor
    · rintro ⟨node, hnode, note, hnote, usedcols, rfl, hP⟩
      obtain ⟨tableName, attributes, rfl, -, hparse, rfl⟩ := note_eq_usedTable_iff.mp hnote
      exact ⟨tableName, attributes, hnode, hparse, hP⟩
    · rintro ⟨tableName, attributes, hnode, rfl, hP⟩
      refine ⟨_, hnode, _, note_eq_usedTable_iff.mpr ⟨tableName, attributes, rfl, ?_, rfl, rfl⟩, _, rfl, hP⟩
      exact fun hname => hreadable _ hnode _ ⟨hname, rfl⟩
  refine ⟨fun stname => ?_, fun stname cname => ?_, fun stcname => ?_⟩
  · have htable := htables stname fun _ => True
    simp only [and_true] at htable
    rw [(foldl_add notes {} stname).1, or_iff_right (by simp)]
    exact htable
  · have hcols : ∀ attributes : List Text, cname ∈ (attributes.map DdlCname.ofText).toFinset ↔
        ∃ attr ∈ attributes, DdlCname.ofText attr = cname := by
      intro attributes
      rw [List.mem_toFinset, List.mem_map]
    rw [(foldl_add notes {} stname).2.1, or_iff_right (by simp), htables stname (cname ∈ ·)]
    simp only [hcols]
  · rw [(foldl_add notes {} .empty).2.2, or_iff_right (by simp), exists_mem_iff_of_mapM h]
    constructor
    · rintro ⟨node, hnode, note, hnote, rfl⟩
      obtain ⟨text, columnName, rfl, hcolumn, -, hparse⟩ := note_eq_assumedIdentity_iff.mp hnote
      exact ⟨text, columnName, hnode, hcolumn, hparse⟩
    · rintro ⟨text, columnName, hnode, hcolumn, rfl⟩
      refine ⟨_, hnode, _, note_eq_assumedIdentity_iff.mpr ⟨text, columnName, rfl, hcolumn, ?_, rfl⟩, rfl⟩
      exact fun hname => hreadable _ hnode _ ⟨columnName, hcolumn, hname, rfl⟩

/-- What is read is what the children of the dataset give, all of which can be read. -/
theorem readDdlNames_eq_ok {parse : XercesDomParser} {filepath : Text} {names : DdlNames} {haveUsedcols : Bool}
    (h : readDdlNames parse filepath {} = .ok (names, haveUsedcols)) :
    haveUsedcols = true ∧ ∃ children, parse filepath = .ok (some ⟨some ⟨"dataset".toList, children⟩⟩) ∧
      (∀ node ∈ children, ∀ what, ¬ node.Refused filepath what) ∧ HoldsNames children names := by
  unfold readDdlNames at h
  cases hparse : parse filepath with
  | error message =>
      rw [hparse] at h
      cases h
  | ok parsed =>
      rw [hparse] at h
      cases parsed with
      | none => cases h
      | some doc =>
          obtain ⟨documentElement⟩ := doc
          dsimp only at h
          cases hroot : documentElement.filter (·.nodeName = "dataset".toList) with
          | none =>
              rw [hroot] at h
              cases h
          | some root =>
              rw [hroot] at h
              obtain ⟨rfl, hname⟩ := Option.filter_eq_some_iff.mp hroot
              obtain ⟨nodeName, children⟩ := root
              obtain rfl : nodeName = "dataset".toList := of_decide_eq_true hname
              dsimp only at h
              rw [foldlM_readNode] at h
              cases hnotes : children.mapM (DomNode.note filepath) with
              | error what =>
                  rw [hnotes] at h
                  cases h
              | ok notes =>
                  rw [hnotes] at h
                  cases h
                  exact ⟨rfl, children, rfl, forall_not_refused_iff.mpr (exists_mapM_eq_ok_iff.mp ⟨notes, hnotes⟩),
                    holdsNames_of_mapM hnotes⟩

/-- Reading a file gives the names of all children of a dataset, or it ends in a parse error: about the parser, the
document, its root or the first child that cannot be read. -/
theorem readDdlNames_reads_or_refuses (parse : XercesDomParser) (filepath : Text) :
    (∀ names haveUsedcols, readDdlNames parse filepath {} = .ok (names, haveUsedcols) →
      haveUsedcols = true ∧ ∃ children, parse filepath = .ok (some ⟨some ⟨"dataset".toList, children⟩⟩) ∧
        (∀ node ∈ children, ∀ what, ¬ node.Refused filepath what) ∧ HoldsNames children names) ∧
      ∀ e, readDdlNames parse filepath {} = .error e ↔ ∃ what, e = .parseError what ∧ NotRead parse filepath what := by
  constructor
  · intro names haveUsedcols h
    exact readDdlNames_eq_ok h
  · exact readDdlNames_eq_error_iff parse filepath {}

/-- Names that hold what the same children give have the same contents. -/
theorem HoldsNames.perm {children children' : List DomNode} {names names' : DdlNames}
    (h : HoldsNames children names) (h' : HoldsNames children' names')
    (hmem : ∀ node, node ∈ children ↔ node ∈ children') :
    names.stnameUsedcols.entries.Perm names'.stnameUsedcols.entries ∧ names.assumedIdents = names'.assumedIdents := by
  constructor
  · refine DdlStnameUsedcols.perm_entries_of_iff (fun stname => ?_) fun stname cname => ?_
    · rw [h.table, h'.table]
      simp only [hmem]
    · rw [h.usedcol, h'.usedcol]
      simp only [hmem]
  · ext stcname
    rw [h.assumedIdent, h'.assumedIdent]
    simp only [hmem]

/-- Merged names hold what the children of both datasets give. -/
theorem HoldsNames.append {children children' : List DomNode} {names names' : DdlNames}
    (h : HoldsNames children names) (h' : HoldsNames children' names') :
    HoldsNames (children ++ children')
      ⟨names.stnameUsedcols.mergeInto names'.stnameUsedcols, names.assumedIdents ∪ names'.assumedIdents⟩ := by
  refine ⟨fun stname => ?_, fun stname cname => ?_, fun stcname => ?_⟩
  · rw [DdlStnameUsedcols.find_mergeInto, DdlStnameUsedcols.isSome_merge, Bool.or_eq_true, h.table, h'.table]
    simp only [List.mem_append, or_and_right, exists_or]
  · rw [DdlStnameUsedcols.find_mergeInto, DdlStnameUsedcols.mem_merge_iff, h.usedcol, h'.usedcol]
    simp only [List.mem_append, or_and_right, exists_or]
  · rw [Finset.mem_union, h.assumedIdent, h'.assumedIdent]
    simp only [List.mem_append, or_and_right, exists_or]

/-- A dataset of the table `dbo.orders`, two of whose columns are used and one of them assumed to be an identity. -/
def ordersDataset : XercesDomParser := fun _ => .ok (some ⟨some ⟨"dataset".toList,
  [.comment " MIDDLE!ASSUME_IDENTITY Orders.Id ".toList, .other, .element "ORDERS".toList ["ID".toList],
    .element "dbo.Orders".toList ["Total".toList]]⟩⟩)

theorem readDdlNames_orders : ∃ names, readDdlNames ordersDataset "a.xml".toList {} = .ok (names, true) ∧
    HoldsNames [.comment " MIDDLE!ASSUME_IDENTITY Orders.Id ".toList, .other, .element "ORDERS".toList ["ID".toList],
      .element "dbo.Orders".toList ["Total".toList]] names := by
  obtain ⟨names, hnames⟩ : ∃ names, readDdlNames ordersDataset "a.xml".toList {} = .ok (names, true) := ⟨_, rfl⟩
  obtain ⟨-, children, hparse, -, hholds⟩ := (readDdlNames_reads_or_refuses _ _).1 _ _ hnames
  cases hparse
  exact ⟨names, hnames, hholds⟩

end Middle.MiddleApp
