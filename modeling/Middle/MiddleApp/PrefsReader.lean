import Middle.NormalDdl.ColumnRules

/-! Reading preferences from a property tree (`ddl_table_migrator_prefs_reader`). The parse functions walk
the children of a node with a cursor and read some fields without asking whether there is a child left;
what that reads is a parameter, `pastEnd`: `none` makes it the undefined operation it is, `some` lets it
read whatever node stands there. -/

namespace Middle.MiddleApp

open Lib Universals NormalDdl

/-- `boost::property_tree::ptree`: data and named children. -/
inductive Ptree where
  | node (data : Text) (children : List (Text × Ptree))

namespace Ptree

/-- A JSON string or number, as `read_json` stores it. -/
def leaf (data : String) : Ptree := node data.toList []

/-- A JSON object; the elements of an array are its members of empty name. -/
def object (members : List (String × Ptree)) : Ptree := node [] (members.map fun m => (m.1.toList, m.2))

def data : Ptree → Text
  | node data _ => data

def children : Ptree → List (Text × Ptree)
  | node _ children => children

/-- `get_child` with a default, for a path of one name. -/
def child? (t : Ptree) (name : Text) : Option Ptree := t.children.lookup name

def isSpace (c : Char) : Bool := c = ' ' || ('\t' ≤ c && c ≤ '\r')

/-- `get_value<int32_t>`: a decimal number in range, with blanks around it. -/
def int32Value (t : Ptree) : Option Int32 :=
  let s := (t.data.dropWhile isSpace).rdropWhile isSpace
  let (negative, digits) := match s with
    | '-' :: digits => (true, digits)
    | '+' :: digits => (false, digits)
    | digits => (false, digits)
  let n : Int := digits.foldl (fun n c => 10 * n + (c.toNat - '0'.toNat)) 0
  let n := if negative then -n else n
  if digits ≠ [] ∧ digits.all Char.isDigit ∧ Int32.minValue.toInt ≤ n ∧ n ≤ Int32.maxValue.toInt then
    some (Int32.ofInt n)
  else none

end Ptree

/-- `int32_range`. -/
inductive Int32Range where
  | full
  | positive
  | nonNegative
  deriving DecidableEq

/-- `ptree_cursor`, with the children it has not passed yet. -/
structure PtreeCursor where
  rest : List (Text × Ptree)
  treePrefPath : Text
  isArray : Bool
  pos : Nat := 0

namespace PtreeCursor

def ofTree (prefTree : Ptree) (prefPath : Text) (isArray : Bool := false) : PtreeCursor :=
  { rest := prefTree.children, treePrefPath := prefPath, isArray := isArray }

def prefPath (c : PtreeCursor) : Text :=
  if c.isArray then c.treePrefPath ++ "[".toList ++ lexicalCast (c.pos + 1) ++ "]".toList
  else c.treePrefPath ++ "#".toList ++ lexicalCast (c.pos + 1)

/-- `operator bool`. -/
def atNode (c : PtreeCursor) : Bool := !c.rest.isEmpty

/-- `operator++`. -/
def next (c : PtreeCursor) : PtreeCursor := { c with rest := c.rest.tail, pos := c.pos + 1 }

variable (pastEnd : Option (Text × Ptree))

/-- The node behind `cit`. -/
def deref (c : PtreeCursor) : Except Fault (Text × Ptree) :=
  match c.rest.head?.or pastEnd with
  | some node => .ok node
  | none => .error .undefined

/-- `operator*`. -/
def name (c : PtreeCursor) : Except Fault Text := do return (← c.deref pastEnd).1

/-- The check all getters begin with, for a child called `what` in its message. -/
def checkName (c : PtreeCursor) (what : String) (name : Option String) : Except Fault Unit := do
  match name with
  | none => return ()
  | some name =>
      let found ← c.name pastEnd
      if found ≠ name.toList then
        throw (.prefsError ("expected ".toList ++ what.toList ++ " name '".toList ++ name.toList ++
          "' at path ".toList ++ c.prefPath ++ "; found name '".toList ++ found ++ "'".toList))

def getChild (c : PtreeCursor) (name : Option String := none) : Except Fault Ptree := do
  c.checkName pastEnd "node" name
  let (_, child) ← c.deref pastEnd
  if child.children.isEmpty then
    throw (.prefsError ("unexpected non-node at path ".toList ++ c.prefPath))
  return child

def getString (c : PtreeCursor) (name : Option String := none) : Except Fault Text := do
  c.checkName pastEnd "string value" name
  let (_, child) ← c.deref pastEnd
  if !child.children.isEmpty then
    throw (.prefsError ("unexpected node at path ".toList ++ c.prefPath))
  return child.data

def getNonemptyString (c : PtreeCursor) (name : Option String := none) : Except Fault Text := do
  let value ← c.getString pastEnd name
  if value.isEmpty then
    throw (.prefsError ("invalid empty string value at path ".toList ++ c.prefPath))
  return value

def getInt32 (c : PtreeCursor) (name : Option String := none) (range : Int32Range := .full) :
    Except Fault Int32 := do
  c.checkName pastEnd "int32_t value" name
  let (_, child) ← c.deref pastEnd
  match child.int32Value with
  | none => throw (.prefsError ("invalid int32_t value at path ".toList ++ c.prefPath))
  | some value =>
      if range = .nonNegative ∧ value < 0 then
        throw (.prefsError ("negative int32_t value at path '".toList ++ c.prefPath))
      if range = .positive ∧ value ≤ 0 then
        throw (.prefsError ("non-positive int32_t value at path '".toList ++ c.prefPath))
      return value

end PtreeCursor

/-- The `what()` of what a `catch (const std::exception&)` catches; an assertion or an undefined operation
is not caught. -/
def exceptionWhat : Fault → Option Text
  | .rejectedText _ what | .malformedText _ what | .invalidArgument what | .runtimeError what
  | .logicError what | .prefsError what => some what
  | .badLexicalCast =>
      some "bad lexical cast: source type value could not be interpreted as target".toList
  | .assertion | .undefined | .outOfFuel => none

def parseDatatypeRuleType (value prefPath : Text) : Except Fault DdlDatatypeRuleType :=
  if value = "rejected".toList then .ok .rejected
  else if value = "unsized".toList then .ok .unsized
  else if value = "char_length".toList then .ok .charLength
  else if value = "precision_scale".toList then .ok .precisionScale
  else if value = "dt_precision".toList then .ok .dtPrecision
  else .error (.prefsError ("invalid type '".toList ++ value ++ "' at path ".toList ++ prefPath))

def parseMapSizeType (value prefPath : Text) : Except Fault DdlMapSizeType :=
  if value = "reject_defined".toList then .ok .rejectDefined
  else if value = "suppress".toList then .ok .suppress
  else if value = "narrow".toList then .ok .narrow
  else if value = "assign".toList then .ok .assign
  else if value = "assign_undefined".toList then .ok .assignUndefined
  else if value = "reject_undefined".toList then .ok .rejectUndefined
  else if value = "scale_reject_defined".toList then .ok .scaleRejectDefined
  else if value = "scale_suppress".toList then .ok .scaleSuppress
  else if value = "scale_narrow".toList then .ok .scaleNarrow
  else if value = "scale_assign".toList then .ok .scaleAssign
  else if value = "scale_assign_undefined".toList then .ok .scaleAssignUndefined
  else if value = "scale_reject_undefined".toList then .ok .scaleRejectUndefined
  else .error (.prefsError ("invalid type '".toList ++ value ++ "' at path ".toList ++ prefPath))

/-- What `parse_map_sizes` checks of the whole list: no precision sub-rule behind a scale sub-rule. -/
def scaleSizesLast : List DdlMapSize → Bool
  | [] => true
  | mapSize :: mapSizes =>
      if scaleMapSizeType mapSize.mapSizeType then mapSizes.all fun m => scaleMapSizeType m.mapSizeType
      else scaleSizesLast mapSizes

section Parse

variable (pastEnd : Option (Text × Ptree))

/-- An optional field of `parse_map_size`: its value, and the cursor behind it. -/
def parseOptionalInt32 (cursor : PtreeCursor) (name : String) (default : Int32) :
    Except Fault (Int32 × PtreeCursor) := do
  if !cursor.atNode then return (default, cursor)
  if (← cursor.name pastEnd) = name.toList then
    return (← cursor.getInt32 pastEnd, cursor.next)
  return (default, cursor)

/-- `parse_map_size`. It returns as soon as no child is left, with the defaults for the rest. -/
def parseMapSize (prefTree : Ptree) (prefPath : Text) : Except Fault DdlMapSize := do
  let cursor := PtreeCursor.ofTree prefTree prefPath
  if !cursor.atNode then
    throw (.prefsError ("empty structure at path ".toList ++ prefPath))
  let mapSizeType ← parseMapSizeType (← cursor.getString pastEnd "type") (prefPath ++ ".type".toList)
  let cursor := cursor.next
  let (rangeMin, cursor) ← parseOptionalInt32 pastEnd cursor "range_min" Int32.minValue
  let (rangeMax, cursor) ← parseOptionalInt32 pastEnd cursor "range_max" Int32.maxValue
  let (newValue, cursor) ← parseOptionalInt32 pastEnd cursor "new_value" 0
  if cursor.atNode then
    throw (.prefsError ("unexpected node at path ".toList ++ cursor.prefPath))
  return ⟨mapSizeType, rangeMin, rangeMax, newValue⟩

/-- The loop of `parse_map_sizes` from the cursor's position. -/
def parseMapSizesFrom (cursor : PtreeCursor) : List (Text × Ptree) → Except Fault (List DdlMapSize)
  | [] => return []
  | _ :: rest => do
      let mapSize ← parseMapSize pastEnd (← cursor.getChild pastEnd) cursor.prefPath
      return mapSize :: (← parseMapSizesFrom cursor.next rest)

def parseMapSizes (prefTree : Ptree) (prefPath : Text) : Except Fault (List DdlMapSize) := do
  let cursor := PtreeCursor.ofTree prefTree prefPath true
  if !cursor.atNode then
    throw (.prefsError ("empty array at path ".toList ++ prefPath))
  let mapSizes ← parseMapSizesFrom pastEnd cursor cursor.rest
  if !scaleSizesLast mapSizes then
    throw (.prefsError ("scale map size types must follow all non-scale map size types in array at path ".toList
      ++ prefPath))
  return mapSizes

def parseDatatypeRule (prefTree : Ptree) (prefPath : Text) : Except Fault DdlDatatypeRule := do
  let cursor := PtreeCursor.ofTree prefTree prefPath
  let datatypeRuleType ←
    parseDatatypeRuleType (← cursor.getString pastEnd "type") (prefPath ++ ".type".toList)
  let cursor := cursor.next
  if !cursor.atNode then return { datatypeRuleType }
  let hasMapName := (← cursor.name pastEnd) = "map_name".toList
  let mapName ← if hasMapName then cursor.getNonemptyString pastEnd else pure []
  let cursor := if hasMapName then cursor.next else cursor
  if !cursor.atNode then return { datatypeRuleType, mapName }
  let mapSizesNode ← cursor.getChild pastEnd "map_sizes"
  let cursor := cursor.next
  if cursor.atNode then
    throw (.prefsError ("unexpected node at path ".toList ++ cursor.prefPath))
  return ⟨datatypeRuleType, mapName, ← parseMapSizes pastEnd mapSizesNode (prefPath ++ ".map_sizes".toList)⟩

def parseTypeNameDatatypeRule (prefTree : Ptree) (prefPath : Text) :
    Except Fault (UcString × DdlDatatypeRule) := do
  let cursor := PtreeCursor.ofTree prefTree prefPath
  if !cursor.atNode then
    throw (.prefsError ("empty structure at path '".toList ++ prefPath ++ "'".toList))
  let typeName := UcString.ofText (← cursor.getNonemptyString pastEnd "type_name")
  let cursor := cursor.next
  let datatypeNode ← cursor.getChild pastEnd "datatype"
  let cursor := cursor.next
  if cursor.atNode then
    throw (.prefsError ("unexpected node at path ".toList ++ cursor.prefPath))
  return (typeName, ← parseDatatypeRule pastEnd datatypeNode (prefPath ++ ".datatype".toList))

/-- The validation of a rewrite: a run of the rewriter that leaves its placeholders alone. -/
def validateRewrite (macroArgs : DdlDefaultValueRuleMacroArgs) (prefPath : Text) : Except Fault Unit :=
  match MacroArgsRewriter.rewriteMacroArgs macroArgs .ok with
  | .error (.rejectedText _ what) =>
      .error (.prefsError ("rejected text found in default value rule macro rewrite '".toList ++
        macroArgs.rewrite ++ "' at path ".toList ++ prefPath ++ ": ".toList ++ what))
  | .error (.malformedText _ what) =>
      .error (.prefsError ("malformed text found in default value rule macro rewrite '".toList ++
        macroArgs.rewrite ++ "' at path ".toList ++ prefPath ++ ": ".toList ++ what))
  | .error e => .error e
  | .ok _ => .ok ()

def parseMacroArgs (prefTree : Ptree) (prefPath : Text) : Except Fault DdlDefaultValueRuleMacroArgs := do
  let cursor := PtreeCursor.ofTree prefTree prefPath
  let argcnt := (← cursor.getInt32 pastEnd "argcnt" .nonNegative).toInt.toNat
  let cursor := cursor.next
  if !cursor.atNode then return { argcnt }
  let macroArgs := ⟨argcnt, ← cursor.getNonemptyString pastEnd "rewrite"⟩
  validateRewrite macroArgs prefPath
  let cursor := cursor.next
  if !cursor.atNode then return macroArgs
  throw (.prefsError ("unexpected node at path ".toList ++ cursor.prefPath))

def parseMacroLhsDefaultValueRule (prefTree : Ptree) (prefPath : Text) :
    Except Fault (UcString × DdlDefaultValueRule) := do
  let cursor := PtreeCursor.ofTree prefTree prefPath
  if !cursor.atNode then
    throw (.prefsError ("empty structure at path '".toList ++ prefPath ++ "'".toList))
  let macroLhs := UcString.ofText (← cursor.getNonemptyString pastEnd "macro_lhs")
  let cursor := cursor.next
  let macroRhs ← cursor.getString pastEnd "macro_rhs"
  let cursor := cursor.next
  if (← cursor.name pastEnd) = "macro_args".toList then
    let macroArgsNode ← cursor.getChild pastEnd
    let cursor := cursor.next
    if !cursor.atNode then
      let macroArgs ← parseMacroArgs pastEnd macroArgsNode (prefPath ++ ".macro_args".toList)
      return (macroLhs, ⟨macroRhs, some macroArgs⟩)
    throw (.prefsError ("unexpected node at path ".toList ++ cursor.prefPath))
  if !cursor.atNode then return (macroLhs, { macroRhs })
  throw (.prefsError ("unexpected node at path ".toList ++ cursor.prefPath))

/-- The loop of `load_datatype_rules_prefs` and `load_default_value_rules_prefs`: `parse` reads one
element, and `what` names the key in the message about a duplicate. -/
def loadRulesFrom {ρ : Type} (parse : Ptree → Text → Except Fault (UcString × ρ)) (what : String)
    (cursor : PtreeCursor) (rules : UnorderedMap UcString ρ) :
    List (Text × Ptree) → Except Fault (UnorderedMap UcString ρ)
  | [] => return rules
  | _ :: rest => do
      let (key, rule) ← parse (← cursor.getChild pastEnd) cursor.prefPath
      let (rules, inserted) := rules.insert key rule
      if !inserted then
        throw (.prefsError ("duplicate map ".toList ++ what.toList ++ " '".toList ++ key.str ++
          "' at path ".toList ++ cursor.prefPath))
      loadRulesFrom parse what cursor.next rules rest

/-- The two functions `load_datatype_rules_prefs` and `load_default_value_rules_prefs`, but for what
differs between them. -/
def loadRulesPrefs {ρ : Type} (parse : Ptree → Text → Except Fault (UcString × ρ)) (what prefPath : String)
    (noneLoaded msgPrefix : Text) (prefRoot : Ptree) : Except Fault (UnorderedMap UcString ρ) :=
  let load : Except Fault (UnorderedMap UcString ρ) := do
    match prefRoot.child? prefPath.toList with
    | none => throw (.prefsError ("missing/empty array at path ".toList ++ prefPath.toList))
    | some prefTree =>
        if prefTree.children.isEmpty then
          throw (.prefsError ("missing/empty array at path ".toList ++ prefPath.toList))
        let cursor := PtreeCursor.ofTree prefTree prefPath.toList true
        let rules ← loadRulesFrom pastEnd parse what cursor ∅ cursor.rest
        if rules.entries.isEmpty then throw (.prefsError noneLoaded)
        return rules
  match load with
  | .ok rules => .ok rules
  | .error e =>
      match exceptionWhat e with
      | some what => .error (.prefsError (msgPrefix ++ what))
      | none => .error e

def loadDatatypeRulesPrefs (prefRoot : Ptree) : Except Fault DdlDatatypeRules :=
  loadRulesPrefs pastEnd (parseTypeNameDatatypeRule pastEnd) "datatype type_name" "datatype_rules"
    "no JSON datatype rule prefs loaded".toList "can't parse JSON datatype rule prefs: ".toList prefRoot

def loadDefaultValueRulesPrefs (prefRoot : Ptree) : Except Fault DdlDefaultValueRules :=
  loadRulesPrefs pastEnd (parseMacroLhsDefaultValueRule pastEnd) "default value macro LHS"
    "default_value_rules" "no JSON default value rule prefs loaded".toList
    "can't parse JSON default value rule prefs: ".toList prefRoot

end Parse

/-- `read_table_migrator_prefs`, from the tree that `read_json` returns. -/
def readTableMigratorPrefs (pastEnd : Option (Text × Ptree)) (prefRoot : Ptree) :
    Except Fault DdlTableMigratorPrefs := do
  let datatypeRules ← loadDatatypeRulesPrefs pastEnd prefRoot
  let defaultValueRules ← loadDefaultValueRulesPrefs pastEnd prefRoot
  return { datatypeRules, defaultValueRules }

/-! ### What the reader has checked of the rules it returns -/

section Accepted

variable {pastEnd : Option (Text × Ptree)}

theorem validated_of_parseMacroArgs {prefTree : Ptree} {prefPath : Text}
    {macroArgs : DdlDefaultValueRuleMacroArgs} (h : parseMacroArgs pastEnd prefTree prefPath = .ok macroArgs) :
    macroArgs.rewrite = [] ∨ ∃ tokens, MacroArgsRewriter.rewriteMacroArgs macroArgs .ok = .ok tokens := by
  rw [parseMacroArgs] at h
  simp only [bind_eq_ok] at h
  obtain ⟨argcnt, -, h⟩ := h
  split at h
  · cases h
    exact .inl rfl
  · simp only [bind_eq_ok] at h
    obtain ⟨rewrite, -, u, hvalid, h⟩ := h
    split at h
    · cases h
      right
      rw [validateRewrite] at hvalid
      split at hvalid
      · cases hvalid
      · cases hvalid
      · cases hvalid
      · rename_i tokens htokens
        exact ⟨tokens, htokens⟩
    · cases h

theorem validated_of_parseMacroLhsDefaultValueRule {prefTree : Ptree} {prefPath : Text} {macroLhs : UcString}
    {rule : DdlDefaultValueRule}
    (h : parseMacroLhsDefaultValueRule pastEnd prefTree prefPath = .ok (macroLhs, rule)) :
    rule.Validated := by
  rw [parseMacroLhsDefaultValueRule] at h
  split at h
  · cases h
  · simp only [bind_eq_ok] at h
    obtain ⟨lhs, -, rhs, -, name, -, h⟩ := h
    split at h
    · simp only [bind_eq_ok] at h
      obtain ⟨node, -, h⟩ := h
      split at h
      · simp only [bind_eq_ok] at h
        obtain ⟨macroArgs, hparse, h⟩ := h
        cases h
        rintro _ ⟨⟩
        exact validated_of_parseMacroArgs hparse
      · cases h
    · split at h
      · cases h
        rintro _ ⟨⟩
      · cases h

/-- What holds of each rule that is parsed holds of each rule that is loaded. -/
theorem forall_of_loadRulesFrom {ρ : Type} {parse : Ptree → Text → Except Fault (UcString × ρ)}
    {P : ρ → Prop} (hparse : ∀ t path k r, parse t path = .ok (k, r) → P r) {what : String}
    {nodes : List (Text × Ptree)} {cursor : PtreeCursor} {rules loaded : UnorderedMap UcString ρ}
    (h : loadRulesFrom pastEnd parse what cursor rules nodes = .ok loaded)
    (hrules : ∀ k r, rules.find k = some r → P r) : ∀ k r, loaded.find k = some r → P r := by
  induction nodes generalizing cursor rules with
  | nil =>
      cases h
      exact hrules
  | cons node nodes ih =>
      rw [loadRulesFrom] at h
      simp only [bind_eq_ok] at h
      obtain ⟨child, -, ⟨key, rule⟩, hrule, h⟩ := h
      split at h
      · simp only [bind_eq_ok] at h
        obtain ⟨u, hthrow, -⟩ := h
        cases hthrow
      · refine ih h fun k r hfind => ?_
        rw [UnorderedMap.find_insert] at hfind
        cases hold : rules.find k with
        | some r' =>
            rw [hold] at hfind
            cases hfind
            exact hrules k r hold
        | none =>
            rw [hold, Option.none_or] at hfind
            split at hfind
            · cases hfind
              exact hparse _ _ _ _ hrule
            · cases hfind

theorem forall_of_loadRulesPrefs {ρ : Type} {parse : Ptree → Text → Except Fault (UcString × ρ)}
    {P : ρ → Prop} (hparse : ∀ t path k r, parse t path = .ok (k, r) → P r) {what prefPath : String}
    {noneLoaded msgPrefix : Text} {prefRoot : Ptree} {loaded : UnorderedMap UcString ρ}
    (h : loadRulesPrefs pastEnd parse what prefPath noneLoaded msgPrefix prefRoot = .ok loaded) :
    ∀ k r, loaded.find k = some r → P r := by
  rw [loadRulesPrefs] at h
  split at h
  · rename_i rules hload
    cases h
    split at hload
    · cases hload
    · split at hload
      · cases hload
      · simp only [bind_eq_ok] at hload
        obtain ⟨rules, hfrom, hload⟩ := hload
        split at hload
        · cases hload
        · cases hload
          exact forall_of_loadRulesFrom hparse hfrom (by simp)
  · split at h <;> cases h

/-- Every default value rule the reader returns can be expanded: its rewrite has been read once. -/
theorem validated_of_readTableMigratorPrefs {prefRoot : Ptree} {prefs : DdlTableMigratorPrefs}
    (h : readTableMigratorPrefs pastEnd prefRoot = .ok prefs) :
    ∀ k rule, prefs.defaultValueRules.find k = some rule → rule.Validated := by
  rw [readTableMigratorPrefs] at h
  simp only [bind_eq_ok] at h
  obtain ⟨datatypeRules, -, defaultValueRules, hload, h⟩ := h
  cases h
  exact forall_of_loadRulesPrefs (fun _ _ _ _ => validated_of_parseMacroLhsDefaultValueRule) hload

theorem scaleSizesLast_of_parseMapSizes {prefTree : Ptree} {prefPath : Text} {mapSizes : List DdlMapSize}
    (h : parseMapSizes pastEnd prefTree prefPath = .ok mapSizes) : scaleSizesLast mapSizes = true := by
  rw [parseMapSizes] at h
  split at h
  · cases h
  · simp only [bind_eq_ok] at h
    obtain ⟨sizes, -, h⟩ := h
    split at h
    · cases h
    · rename_i hlast
      cases h
      simpa using hlast

theorem scaleSizesLast_of_parseDatatypeRule {prefTree : Ptree} {prefPath : Text} {rule : DdlDatatypeRule}
    (h : parseDatatypeRule pastEnd prefTree prefPath = .ok rule) : scaleSizesLast rule.mapSizes = true := by
  rw [parseDatatypeRule] at h
  simp only [bind_eq_ok] at h
  obtain ⟨value, -, ruleType, -, h⟩ := h
  split at h
  · cases h
    rfl
  · simp only [bind_eq_ok] at h
    obtain ⟨name, -, h⟩ := h
    split at h
    · simp only [bind_eq_ok] at h
      obtain ⟨mapName, -, h⟩ := h
      split at h
      · cases h
        rfl
      · simp only [bind_eq_ok] at h
        obtain ⟨node, -, h⟩ := h
        split at h
        · cases h
        · simp only [bind_eq_ok] at h
          obtain ⟨sizes, hsizes, h⟩ := h
          cases h
          exact scaleSizesLast_of_parseMapSizes hsizes
    · simp only [bind_eq_ok] at h
      obtain ⟨mapName, -, node, -, h⟩ := h
      split at h
      · cases h
      · simp only [bind_eq_ok] at h
        obtain ⟨sizes, hsizes, h⟩ := h
        cases h
        exact scaleSizesLast_of_parseMapSizes hsizes

theorem scaleSizesLast_of_parseTypeNameDatatypeRule {prefTree : Ptree} {prefPath : Text} {typeName : UcString}
    {rule : DdlDatatypeRule}
    (h : parseTypeNameDatatypeRule pastEnd prefTree prefPath = .ok (typeName, rule)) :
    scaleSizesLast rule.mapSizes = true := by
  rw [parseTypeNameDatatypeRule] at h
  split at h
  · cases h
  · simp only [bind_eq_ok] at h
    obtain ⟨name, -, node, -, h⟩ := h
    split at h
    · cases h
    · simp only [bind_eq_ok] at h
      obtain ⟨rule', hrule, h⟩ := h
      cases h
      exact scaleSizesLast_of_parseDatatypeRule hrule

/-- The reader has checked the order of the sub-rules of every rule it returns. -/
theorem scaleSizesLast_of_readTableMigratorPrefs {prefRoot : Ptree} {prefs : DdlTableMigratorPrefs}
    (h : readTableMigratorPrefs pastEnd prefRoot = .ok prefs) :
    ∀ k rule, prefs.datatypeRules.find k = some rule → scaleSizesLast rule.mapSizes = true := by
  rw [readTableMigratorPrefs] at h
  simp only [bind_eq_ok] at h
  obtain ⟨datatypeRules, hload, defaultValueRules, -, h⟩ := h
  cases h
  exact forall_of_loadRulesPrefs (fun _ _ _ _ => scaleSizesLast_of_parseTypeNameDatatypeRule) hload

end Accepted

end Middle.MiddleApp
