import Middle.MiddleApp.PrefsReader
import Middle.NormalDdl.FiringRules

/-! `static_ddl_table_migrator_prefs`: the rules that are built in. -/

namespace Middle.MiddleApp

open Lib Universals NormalDdl

namespace StaticDdlTableMigratorPrefs

/-- Sizes that are out of range become 255. -/
def staticCharSizes : List DdlMapSize :=
  [{ mapSizeType := .assign, rangeMin := Int32.minValue, rangeMax := 0, newValue := 255 },
    { mapSizeType := .assign, rangeMin := 256, rangeMax := Int32.maxValue, newValue := 255 }]

/-- The precision is dropped, and the scale may be zero only. -/
def staticUnscaledSizes : List DdlMapSize :=
  [{ mapSizeType := .suppress }, { mapSizeType := .scaleNarrow, rangeMin := 0, rangeMax := 0 },
    { mapSizeType := .scaleRejectDefined }]

/-- The precision is dropped. -/
def staticDtSizes : List DdlMapSize := [{ mapSizeType := .suppress }]

/-- What `init_static_datatype_rules` emplaces, in its order. -/
def staticDatatypeRules : List (String × DdlDatatypeRule) := [
  ("BIT", { datatypeRuleType := .unsized }),
  ("CHAR", { datatypeRuleType := .charLength }),
  ("NCHAR", { datatypeRuleType := .charLength, mapName := "char".toList }),
  ("VARCHAR", { datatypeRuleType := .charLength, mapSizes := staticCharSizes }),
  ("NVARCHAR", { datatypeRuleType := .charLength, mapName := "varchar".toList, mapSizes := staticCharSizes }),
  ("TINYINT", { datatypeRuleType := .precisionScale, mapSizes := staticUnscaledSizes }),
  ("SMALLINT", { datatypeRuleType := .precisionScale, mapSizes := staticUnscaledSizes }),
  ("INT", { datatypeRuleType := .precisionScale, mapSizes := staticUnscaledSizes }),
  ("BIGINT", { datatypeRuleType := .precisionScale, mapSizes := staticUnscaledSizes }),
  ("REAL", { datatypeRuleType := .precisionScale, mapSizes := staticUnscaledSizes }),
  ("FLOAT", { datatypeRuleType := .precisionScale, mapSizes := staticUnscaledSizes }),
  ("DOUBLE", { datatypeRuleType := .precisionScale, mapSizes := staticUnscaledSizes }),
  ("DECIMAL", { datatypeRuleType := .precisionScale }),
  ("NUMERIC", { datatypeRuleType := .precisionScale }),
  ("SMALLDATETIME", { datatypeRuleType := .dtPrecision, mapName := "datetime".toList, mapSizes := staticDtSizes }),
  ("DATE", { datatypeRuleType := .dtPrecision, mapSizes := staticDtSizes }),
  ("DATETIME", { datatypeRuleType := .dtPrecision, mapSizes := staticDtSizes }),
  ("DATETIME2", { datatypeRuleType := .dtPrecision, mapName := "datetime".toList, mapSizes := staticDtSizes }),
  ("TIME", { datatypeRuleType := .dtPrecision }),
  ("TIMESTAMP", { datatypeRuleType := .dtPrecision }),
  ("BLOB", { datatypeRuleType := .charLength, mapSizes := staticCharSizes }),
  ("CLOB", { datatypeRuleType := .charLength, mapName := "blob".toList, mapSizes := staticCharSizes }),
  ("TEXT", { datatypeRuleType := .charLength, mapName := "blob".toList, mapSizes := staticCharSizes }),
  ("NTEXT", { datatypeRuleType := .charLength, mapName := "blob".toList, mapSizes := staticCharSizes }),
  ("BINARY", { datatypeRuleType := .charLength, mapSizes := staticCharSizes }),
  ("VARBINARY", { datatypeRuleType := .charLength, mapSizes := staticCharSizes }),
  ("IMAGE", { datatypeRuleType := .charLength, mapName := "blob".toList, mapSizes := staticCharSizes })]

def initStaticDatatypeRules (datatypeRules : DdlDatatypeRules) : DdlDatatypeRules :=
  staticDatatypeRules.foldl
    (fun datatypeRules e => (datatypeRules.insert (UcString.ofText e.1.toList) e.2).1) datatypeRules

def initStaticDefaultValueRules (defaultValueRules : DdlDefaultValueRules) : DdlDefaultValueRules :=
  (defaultValueRules.insert (UcString.ofText "GETDATE()".toList)
    { macroRhs := "now".toList, macroArgs := some { argcnt := 0 } }).1

def getTableMigratorPrefs : DdlTableMigratorPrefs where
  datatypeRules := initStaticDatatypeRules ∅
  defaultValueRules := initStaticDefaultValueRules ∅

/-- The only built-in default value rule never fires: its left-hand side is no name. -/
theorem not_fires_getdate :
    ∃ rule, getTableMigratorPrefs.defaultValueRules.find (UcString.ofText "GETDATE()".toList) = some rule ∧
      ¬ MacroExpander.Fires getTableMigratorPrefs.defaultValueRules (UcString.ofText "GETDATE()".toList) rule := by
  refine ⟨_, rfl, fun hfires => ?_⟩
  have hname := MacroExpander.isName_of_fires hfires
  exact absurd (hname.all '(' (by decide +kernel)) (by decide)

end StaticDdlTableMigratorPrefs

end Middle.MiddleApp
