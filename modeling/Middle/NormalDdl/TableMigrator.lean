import Middle.NormalDdl.DefaultValueMacro
import Middle.NormalDdl.MigrationMsg

/-! Migrating the data type of a column by the rules of the preferences (`ddl_table_migrator`). The four
functions that apply a sub-rule to a size are one function of what they differ in. -/

namespace Middle.NormalDdl

open Lib Universals

structure DdlDatatype where
  name : UcString
  charMaxLen : Option Int32 := none
  charOctLen : Option Int32 := none
  numPrec : Option UInt8 := none
  numPrecRad : Option Int16 := none
  numScale : Option Int32 := none
  dtPrec : Option Int16 := none
  charsetName : Option Text := none
  deriving DecidableEq

structure DdlDatatypeMigration where
  columnRejected : Bool
  defaultValue : Text
  identityClause : Text
  datatypeComment : Text
  msgs : List DdlMigrationMsg
  deriving DecidableEq

/-- `lexical_cast<std::string>` of an `int32_t`. -/
def lexicalCastInt32 (n : Int32) : Text := (toString n.toInt).toList

/-- What a sub-rule does, apart from the size it is for. -/
inductive MapAction where
  | rejectDefined
  | suppress
  | narrow
  | assign
  | assignUndefined
  | rejectUndefined
  deriving DecidableEq, Repr

/-- The action of a sub-rule on the scale, or on any other size. -/
def DdlMapSizeType.action (scale : Bool) : DdlMapSizeType → Option MapAction
  | .rejectDefined => if scale then none else some .rejectDefined
  | .suppress => if scale then none else some .suppress
  | .narrow => if scale then none else some .narrow
  | .assign => if scale then none else some .assign
  | .assignUndefined => if scale then none else some .assignUndefined
  | .rejectUndefined => if scale then none else some .rejectUndefined
  | .scaleRejectDefined => if scale then some .rejectDefined else none
  | .scaleSuppress => if scale then some .suppress else none
  | .scaleNarrow => if scale then some .narrow else none
  | .scaleAssign => if scale then some .assign else none
  | .scaleAssignUndefined => if scale then some .assignUndefined else none
  | .scaleRejectUndefined => if scale then some .rejectUndefined else none

/-- What a function that migrates a size reads and writes: the data type, and the comment and messages
collected so far. -/
structure SizeState where
  datatype : DdlDatatype
  datatypeComment : Text := []
  migrationMsgs : List DdlMigrationMsg := []
  deriving DecidableEq

namespace SizeState

def addComment (st : SizeState) (comment : Text) : SizeState :=
  { st with
    datatypeComment :=
      (if st.datatypeComment = [] then [] else st.datatypeComment ++ "/ ".toList) ++ comment }

def addMsg (st : SizeState) (level : DdlMigrationMsgLevel) (msg : Text) : SizeState :=
  { st with migrationMsgs := st.migrationMsgs ++ [⟨level, msg⟩] }

end SizeState

/-- One size of a data type: its name in messages, the sub-rules that are for it, how it is read as an
`int32_t` and stored from one, and the level at which its rejection is reported. -/
structure SizeMigrator where
  what : Text
  scale : Bool
  size : DdlDatatype → Option Int32
  store : Option Int32 → DdlDatatype → DdlDatatype
  rejectDefinedLevel : DdlMigrationMsgLevel

namespace SizeMigrator

variable (k : SizeMigrator)

/-- A size replaced, with a comment that says so. -/
def replace (comment : Text) (size : Option Int32) (st : SizeState) : Int × SizeState :=
  let st := st.addComment comment
  (1, { st with datatype := k.store size st.datatype })

/-- `migrate_char_length_size` and its siblings: below 0 the column is rejected, above 0 the size has
been changed. -/
def migrateSize (mapSize : DdlMapSize) (st : SizeState) : Int × SizeState :=
  let action := mapSize.mapSizeType.action k.scale
  match k.size st.datatype with
  | some size =>
      if mapSize.rangeMin ≤ size ∧ size ≤ mapSize.rangeMax then
        match action with
        | some .rejectDefined =>
            (-1, st.addMsg k.rejectDefinedLevel
              ("rejected defined ".toList ++ k.what ++ ": ".toList ++ lexicalCastInt32 size))
        | some .suppress =>
            k.replace (k.what ++ " ".toList ++ lexicalCastInt32 size ++ " suppressed".toList) none st
        | some .narrow => (0, st)
        | some .assign =>
            k.replace (k.what ++ " ".toList ++ lexicalCastInt32 size ++ " assigned ".toList ++
              lexicalCastInt32 mapSize.newValue) (some mapSize.newValue) st
        | _ => (0, st)
      else if action = some .narrow then
        let bound := if size < mapSize.rangeMin then mapSize.rangeMin else mapSize.rangeMax
        k.replace (k.what ++ " ".toList ++ lexicalCastInt32 size ++ " narrowed to ".toList ++
          lexicalCastInt32 bound) (some bound) st
      else (0, st)
  | none =>
      match action with
      | some .rejectUndefined => (-1, st.addMsg .remark ("rejected undefined ".toList ++ k.what))
      | some .assignUndefined =>
          k.replace ("undefined ".toList ++ k.what ++ " assigned ".toList ++
            lexicalCastInt32 mapSize.newValue) (some mapSize.newValue) st
      | _ => (0, st)

/-- The loop over sub-rules that are all for this size: whether one rejects the column. -/
def migrateSizes : List DdlMapSize → SizeState → Bool × SizeState
  | [], st => (false, st)
  | mapSize :: mapSizes, st =>
      let (ret, st) := k.migrateSize mapSize st
      if ret ≠ 0 then (ret < 0, st) else migrateSizes mapSizes st

end SizeMigrator

def charLength : SizeMigrator where
  what := "char length".toList
  scale := false
  size := DdlDatatype.charMaxLen
  store size datatype := { datatype with charMaxLen := size, charOctLen := none }
  rejectDefinedLevel := .error

def numericPrecision : SizeMigrator where
  what := "numeric precision".toList
  scale := false
  size datatype := datatype.numPrec.map fun n => n.toUInt32.toInt32
  store size datatype := { datatype with numPrec := size.map fun n => n.toUInt32.toUInt8 }
  rejectDefinedLevel := .remark

def numericScale : SizeMigrator where
  what := "numeric scale".toList
  scale := true
  size := DdlDatatype.numScale
  store size datatype := { datatype with numScale := size }
  rejectDefinedLevel := .remark

def dtPrecision : SizeMigrator where
  what := "datetime precision".toList
  scale := false
  size datatype := datatype.dtPrec.map Int16.toInt32
  store size datatype := { datatype with dtPrec := size.map Int32.toInt16 }
  rejectDefinedLevel := .remark

/-- `migrate_char_length_size`. -/
def migrateCharLengthSize := charLength.migrateSize

/-- `migrate_numeric_precision_size`. -/
def migrateNumericPrecisionSize := numericPrecision.migrateSize

/-- `migrate_numeric_scale_size`. -/
def migrateNumericScaleSize := numericScale.migrateSize

/-- `migrate_dt_precision_size`. -/
def migrateDtPrecisionSize := dtPrecision.migrateSize

/-- The first loop of the `precision_scale` case: whether a sub-rule rejects the column, and the sub-rules
behind the last one that was looked at. -/
def migratePrecisionSizes : List DdlMapSize → SizeState → Bool × SizeState × List DdlMapSize
  | [], st => (false, st, [])
  | mapSize :: mapSizes, st =>
      if scaleMapSizeType mapSize.mapSizeType then (false, st, mapSize :: mapSizes)
      else
        let (ret, st) := migrateNumericPrecisionSize mapSize st
        if ret ≠ 0 then (ret < 0, st, mapSizes) else migratePrecisionSizes mapSizes st

/-- Its second loop. -/
def migrateScaleSizes (columnRejected : Bool) : List DdlMapSize → SizeState →
    EStateM.Result Fault SizeState Bool
  | [], st => .ok columnRejected st
  | mapSize :: mapSizes, st =>
      if scaleMapSizeType mapSize.mapSizeType then
        let (ret, st) := migrateNumericScaleSize mapSize st
        if ret ≠ 0 then .ok (columnRejected || ret < 0) st
        else migrateScaleSizes columnRejected mapSizes st
      else .error .assertion st

/-- The `precision_scale` case. -/
def migratePrecisionScale (mapSizes : List DdlMapSize) (st : SizeState) :
    EStateM.Result Fault SizeState Bool :=
  let (columnRejected, st, mapSizes) := migratePrecisionSizes mapSizes st
  if columnRejected ∧ mapSizes ≠ [] then migrateScaleSizes columnRejected mapSizes st
  else .ok columnRejected st

/-- The cases of `migrate_datatype_ddl`: whether the column is rejected. -/
def migrateDatatypeRule (rule : DdlDatatypeRule) (st : SizeState) : EStateM.Result Fault SizeState Bool :=
  let datatype := st.datatype
  let noChar := datatype.charMaxLen = none ∧ datatype.charOctLen = none
  let noNum := datatype.numPrec = none ∧ datatype.numPrecRad = none ∧ datatype.numScale = none
  let noDt := datatype.dtPrec = none
  match rule.datatypeRuleType with
  | .rejected =>
      .ok true { st with datatypeComment := "data type ".toList ++ datatype.name.str ++ " rejected".toList }
  | .unsized => if noChar ∧ noNum ∧ noDt then .ok false st else .error .assertion st
  | .charLength =>
      if noNum ∧ noDt then
        let (columnRejected, st) := charLength.migrateSizes rule.mapSizes st
        .ok columnRejected st
      else .error .assertion st
  | .precisionScale =>
      if noChar ∧ noDt then migratePrecisionScale rule.mapSizes st else .error .assertion st
  | .dtPrecision =>
      if noChar ∧ noNum then
        let (columnRejected, st) := dtPrecision.migrateSizes rule.mapSizes st
        .ok columnRejected st
      else .error .assertion st

/-- The data type named as its rule maps it. -/
def mapDatatypeName (rule : DdlDatatypeRule) (datatype : DdlDatatype) : SizeState :=
  if rule.mapName = [] then { datatype }
  else
    let datatypeName := UcString.ofText rule.mapName
    { datatype := { datatype with name := datatypeName }
      datatypeComment := "data type ".toList ++ datatype.name.str ++ " replaced by ".toList ++
        datatypeName.str }

/-- The parentheses around a default value dropped; the length of the text bounds the turns. -/
def dropParentheses : Nat → Text → Text
  | 0, s => s
  | n + 1, s =>
      if 2 < s.length ∧ s.head? = some '(' ∧ s.getLast? = some ')' then dropParentheses n (s.drop 1).dropLast
      else s

variable (prefs : DdlTableMigratorPrefs) (fuel : Nat)

/-- `expand_default_value_macro`; `fuel` bounds the passes of the macro expander. -/
def expandDefaultValueMacro (oldDefaultValue : Text) : Except Fault Text :=
  let defaultValue := dropParentheses oldDefaultValue.length oldDefaultValue
  if defaultValue = [] then .ok []
  else
    match MacroExpander.expandAllMacros prefs.defaultValueRules fuel defaultValue with
    | .error e => .error e
    | .ok none => .ok oldDefaultValue
    | .ok (some newDefaultValue) => .ok newDefaultValue

/-- The end of `migrate_datatype_ddl`, once the column has been rejected or not. -/
def migrateDefaultValue (columnRejected : Bool) (defaultValue : Text) (st : SizeState) :
    Except Fault DdlDatatypeMigration :=
  if columnRejected then .ok ⟨true, defaultValue, [], st.datatypeComment, st.migrationMsgs⟩
  else
    match if defaultValue = [] then .ok [] else expandDefaultValueMacro prefs fuel defaultValue with
    | .error e => .error e
    | .ok newDefaultValue =>
        let st := if newDefaultValue ≠ [] ∧ newDefaultValue ≠ defaultValue then
          st.addComment "default value rule macro expanded".toList else st
        let st := if st.datatypeComment ≠ [] then st.addMsg .remark st.datatypeComment else st
        .ok ⟨false, newDefaultValue, [], st.datatypeComment, st.migrationMsgs⟩

/-- What is left to do behind the cases, which leave the data type as it is from here on. -/
def finishMigration (defaultValue : Text) :
    EStateM.Result Fault SizeState Bool → EStateM.Result Fault DdlDatatype DdlDatatypeMigration
  | .error e st => .error e st.datatype
  | .ok columnRejected st =>
      match migrateDefaultValue prefs fuel columnRejected defaultValue st with
      | .error e => .error e st.datatype
      | .ok migration => .ok migration st.datatype

/-- `ddl_table_migrator::migrate_datatype_ddl`, with the data type it changes as its state. -/
def migrateDatatypeDdl (defaultValue : Text) : EStateM Fault DdlDatatype DdlDatatypeMigration :=
  fun datatype =>
    finishMigration prefs fuel defaultValue
      (match prefs.datatypeRules.find datatype.name with
      | some rule => migrateDatatypeRule rule (mapDatatypeName rule datatype)
      | none =>
          .ok true { datatype
                     datatypeComment := "data type ".toList ++ datatype.name.str ++ " rejected".toList })

end Middle.NormalDdl
