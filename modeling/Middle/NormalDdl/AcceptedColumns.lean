import Middle.NormalDdl.PrecisionScale

/-! Which columns `migrate_datatype_ddl` accepts and what it leaves of their data types. On each kind of rule one
loop over sub-rules decides, and the first sub-rule that matches the size decides in it. -/

namespace Middle.NormalDdl

open Lib Universals

open DdlMapSize

namespace SizeMigrator

variable (k : SizeMigrator)

/-- What sub-rules leave of a data type; `none` rejects the column. -/
def leave (mapSizes : List DdlMapSize) (datatype : DdlDatatype) : Option DdlDatatype :=
  match mapSizes.find? fun m => m.matchesSize k.scale (k.size datatype) with
  | none => some datatype
  | some m => (m.applyTo k.scale (k.size datatype)).map fun size => k.store size datatype

theorem leave_cons (m : DdlMapSize) (mapSizes : List DdlMapSize) (datatype : DdlDatatype) :
    k.leave (m :: mapSizes) datatype =
      if m.matchesSize k.scale (k.size datatype) then
        (m.applyTo k.scale (k.size datatype)).map fun size => k.store size datatype
      else k.leave mapSizes datatype := by
  unfold leave
  rw [List.find?_cons]
  cases m.matchesSize k.scale (k.size datatype) <;> rfl

/-- The loop over sub-rules. The data type of a column that it rejects stays as it was. -/
theorem migrateSizes_eq (mapSizes : List DdlMapSize) (st : SizeState) :
    (k.migrateSizes mapSizes st).1 = (k.leave mapSizes st.datatype).isNone ∧
      (k.migrateSizes mapSizes st).2.datatype = (k.leave mapSizes st.datatype).getD st.datatype := by
  induction mapSizes with
  | nil => exact ⟨rfl, rfl⟩
  | cons m mapSizes ih =>
      rw [leave_cons, migrateSizes]
      cases hmatch : m.matchesSize k.scale (k.size st.datatype) with
      | false =>
          rw [k.migrateSize_of_not_matches hmatch]
          exact ih
      | true =>
          rw [if_pos rfl]
          cases happly : m.applyTo k.scale (k.size st.datatype) with
          | none =>
              obtain ⟨hret, hdatatype⟩ := k.migrateSize_of_rejects hmatch happly
              simp [hret, hdatatype]
          | some size =>
              obtain ⟨hret, hdatatype⟩ := k.migrateSize_of_stores hmatch happly
              simp [hret, hdatatype]

theorem migrateSizes_eq_leave (mapSizes : List DdlMapSize) (st : SizeState) :
    (k.migrateSizes mapSizes st).1 = (k.leave mapSizes st.datatype).isNone ∧
      ∀ datatype ∈ k.leave mapSizes st.datatype, (k.migrateSizes mapSizes st).2.datatype = datatype := by
  obtain ⟨hrejected, hdatatype⟩ := k.migrateSizes_eq mapSizes st
  refine ⟨hrejected, ?_⟩
  intro datatype hleft
  rw [hdatatype, hleft]
  rfl

end SizeMigrator

/-! ### The cases -/

/-- The precision loop is the loop over the precision sub-rules in front of the scale sub-rules. -/
theorem migratePrecisionSizes_eq (mapSizes : List DdlMapSize) (st : SizeState) :
    (migratePrecisionSizes mapSizes st).1 = (numericPrecision.migrateSizes (precisionSizes mapSizes) st).1 ∧
      (migratePrecisionSizes mapSizes st).2.1 = (numericPrecision.migrateSizes (precisionSizes mapSizes) st).2 := by
  induction mapSizes generalizing st with
  | nil => exact ⟨rfl, rfl⟩
  | cons m mapSizes ih =>
      unfold precisionSizes
      rw [migratePrecisionSizes, List.takeWhile_cons]
      cases hm : scaleMapSizeType m.mapSizeType with
      | true => exact ⟨rfl, rfl⟩
      | false =>
          simp only [Bool.false_eq_true, if_false, Bool.not_false, if_true]
          rw [SizeMigrator.migrateSizes, migrateNumericPrecisionSize]
          dsimp only
          split
          · exact ⟨rfl, rfl⟩
          · exact ih _

/-- A column that the precision sub-rules reject stays rejected. -/
theorem rejected_of_migrateScaleSizes {mapSizes : List DdlMapSize} {st st' : SizeState} {rejected : Bool}
    (h : migrateScaleSizes true mapSizes st = .ok rejected st') : rejected = true := by
  induction mapSizes generalizing st with
  | nil =>
      cases h
      rfl
  | cons m mapSizes ih =>
      unfold migrateScaleSizes at h
      dsimp only at h
      split at h
      · split at h
        · cases h
          rfl
        · exact ih h
      · cases h

namespace DdlDatatype

/-- No size of a character type is defined. -/
def NoChar (datatype : DdlDatatype) : Prop := datatype.charMaxLen = none ∧ datatype.charOctLen = none

/-- No size of a numeric type is defined. -/
def NoNum (datatype : DdlDatatype) : Prop :=
  datatype.numPrec = none ∧ datatype.numPrecRad = none ∧ datatype.numScale = none

/-- What the case of a rule asserts of the sizes of a data type. -/
def Asserted (datatype : DdlDatatype) : DdlDatatypeRuleType → Prop
  | .rejected => True
  | .unsized => datatype.NoChar ∧ datatype.NoNum ∧ datatype.dtPrec = none
  | .charLength => datatype.NoNum ∧ datatype.dtPrec = none
  | .precisionScale => datatype.NoChar ∧ datatype.dtPrec = none
  | .dtPrecision => datatype.NoChar ∧ datatype.NoNum

end DdlDatatype

/-- What a rule leaves of a data type; `none` rejects the column. -/
def DdlDatatypeRule.leave (rule : DdlDatatypeRule) (datatype : DdlDatatype) : Option DdlDatatype :=
  match rule.datatypeRuleType with
  | .rejected => none
  | .unsized => some datatype
  | .charLength => charLength.leave rule.mapSizes datatype
  | .precisionScale => numericPrecision.leave (precisionSizes rule.mapSizes) datatype
  | .dtPrecision => dtPrecision.leave rule.mapSizes datatype

theorem migratePrecisionScale_eq_ok {mapSizes : List DdlMapSize} {st st' : SizeState} {rejected : Bool}
    (h : migratePrecisionScale mapSizes st = .ok rejected st') :
    rejected = (numericPrecision.leave (precisionSizes mapSizes) st.datatype).isNone ∧
      ∀ datatype ∈ numericPrecision.leave (precisionSizes mapSizes) st.datatype, st'.datatype = datatype := by
  obtain ⟨hleaves, hdatatype⟩ := numericPrecision.migrateSizes_eq_leave (precisionSizes mapSizes) st
  obtain ⟨hrejected, hst⟩ := migratePrecisionSizes_eq mapSizes st
  rw [← hrejected] at hleaves
  rw [← hst] at hdatatype
  unfold migratePrecisionScale at h
  dsimp only at h
  split at h
  · rename_i hscales
    obtain rfl := rejected_of_migrateScaleSizes (hscales.1 ▸ h)
    rw [← hleaves, hscales.1]
    refine ⟨rfl, ?_⟩
    intro datatype hleft
    rw [hscales.1, hleft] at hleaves
    cases hleaves
  · cases h
    exact ⟨hleaves, hdatatype⟩

theorem migrateDatatypeRule_eq_ok {rule : DdlDatatypeRule} {st st' : SizeState} {rejected : Bool}
    (h : migrateDatatypeRule rule st = .ok rejected st') :
    st.datatype.Asserted rule.datatypeRuleType ∧ rejected = (rule.leave st.datatype).isNone ∧
      ∀ datatype ∈ rule.leave st.datatype, st'.datatype = datatype := by
  unfold migrateDatatypeRule at h
  unfold DdlDatatypeRule.leave
  dsimp only at h
  cases htype : rule.datatypeRuleType with
  | rejected =>
      rw [htype] at h
      cases h
      refine ⟨trivial, rfl, ?_⟩
      rintro datatype ⟨⟩
  | unsized =>
      rw [htype] at h
      dsimp only at h
      split at h
      · rename_i hasserted
        cases h
        refine ⟨hasserted, rfl, ?_⟩
        intro datatype hleft
        exact Option.some.inj hleft
      · cases h
  | charLength =>
      rw [htype] at h
      dsimp only at h
      split at h
      · rename_i hasserted
        cases h
        exact ⟨hasserted, charLength.migrateSizes_eq_leave _ _⟩
      · cases h
  | precisionScale =>
      rw [htype] at h
      dsimp only at h
      split at h
      · rename_i hasserted
        exact ⟨hasserted, migratePrecisionScale_eq_ok h⟩
      · cases h
  | dtPrecision =>
      rw [htype] at h
      dsimp only at h
      split at h
      · rename_i hasserted
        cases h
        exact ⟨hasserted, dtPrecision.migrateSizes_eq_leave _ _⟩
      · cases h

/-! ### The whole function -/

/-- What the rules leave of the data type of a column; `none` rejects the column. -/
def DdlTableMigratorPrefs.leave (prefs : DdlTableMigratorPrefs) (datatype : DdlDatatype) : Option DdlDatatype :=
  (prefs.datatypeRules.find datatype.name).bind fun rule => rule.leave (mapDatatypeName rule datatype).datatype

theorem datatype_mapDatatypeName (rule : DdlDatatypeRule) (datatype : DdlDatatype) :
    ∃ name, (mapDatatypeName rule datatype).datatype = { datatype with name } := by
  unfold mapDatatypeName
  split
  · exact ⟨datatype.name, rfl⟩
  · exact ⟨_, rfl⟩

section Migration

variable {prefs : DdlTableMigratorPrefs} {fuel : Nat} {defaultValue : Text} {datatype datatype' : DdlDatatype}
  {migration : DdlDatatypeMigration}

theorem finishMigration_eq_ok {rejected : Bool} {st : SizeState}
    (h : finishMigration prefs fuel defaultValue (.ok rejected st) = .ok migration datatype') :
    migration.columnRejected = rejected ∧ datatype' = st.datatype := by
  unfold finishMigration at h
  dsimp only at h
  split at h
  · cases h
  · rename_i migration' hmigration
    cases h
    refine ⟨?_, rfl⟩
    cases rejected with
    | true =>
        obtain ⟨migration', hmigration', hrejected⟩ := migrateDefaultValue_of_rejected prefs fuel defaultValue st
        rw [hmigration] at hmigration'
        cases hmigration'
        exact hrejected
    | false =>
        rcases migrateDefaultValue_of_not_rejected prefs fuel defaultValue st with
          ⟨migration', hmigration', hrejected⟩ | ⟨e, hfail, -⟩
        · rw [hmigration] at hmigration'
          cases hmigration'
          exact hrejected
        · rw [hmigration] at hfail
          cases hfail

/-- A column is rejected when the rules leave nothing of its data type, and has else what they leave of it. -/
theorem migrateDatatypeDdl_eq_ok
    (h : migrateDatatypeDdl prefs fuel defaultValue datatype = .ok migration datatype') :
    migration.columnRejected = (prefs.leave datatype).isNone ∧
      (∀ left ∈ prefs.leave datatype, datatype' = left) ∧
      ∀ rule, prefs.datatypeRules.find datatype.name = some rule → datatype.Asserted rule.datatypeRuleType := by
  unfold migrateDatatypeDdl at h
  unfold DdlTableMigratorPrefs.leave
  cases hfind : prefs.datatypeRules.find datatype.name with
  | none =>
      rw [hfind] at h
      obtain ⟨hrejected, -⟩ := finishMigration_eq_ok h
      refine ⟨hrejected, ?_, ?_⟩
      · rintro left ⟨⟩
      · rintro rule ⟨⟩
  | some rule =>
      rw [hfind] at h
      dsimp only at h
      cases hrule : migrateDatatypeRule rule (mapDatatypeName rule datatype) with
      | error e st =>
          rw [hrule] at h
          cases h
      | ok rejected st =>
          rw [hrule] at h
          obtain ⟨hrejected, rfl⟩ := finishMigration_eq_ok h
          obtain ⟨hasserted, hleaves, hdatatype⟩ := migrateDatatypeRule_eq_ok hrule
          refine ⟨hrejected.trans hleaves, hdatatype, ?_⟩
          rintro rule' ⟨⟩
          obtain ⟨name, hname⟩ := datatype_mapDatatypeName rule datatype
          rw [hname] at hasserted
          exact hasserted

/-- The identity clause is left to the migrators that are derived. -/
theorem identityClause_migrateDatatypeDdl
    (h : migrateDatatypeDdl prefs fuel defaultValue datatype = .ok migration datatype') :
    migration.identityClause = [] := by
  unfold migrateDatatypeDdl finishMigration migrateDefaultValue at h
  split at h
  · cases h
  · rename_i rejected st hrule
    split at h
    · cases h
    · rename_i hmigration
      cases h
      split at hmigration
      · cases hmigration
        rfl
      · split at hmigration
        · cases hmigration
        · cases hmigration
          rfl

end Migration

end Middle.NormalDdl
