import Middle.NormalDdl.AcceptedColumns

/-! What a `char_length` rule makes of a column. The first sub-rule that matches its length acts on it, and the
others do not. -/

namespace Middle.NormalDdl

open Lib Universals

namespace DdlMapSize

variable (m : DdlMapSize)

/-- Whether a sub-rule matches the length of a column, which may be undefined. -/
def MatchesLength : Option Int32 → Prop
  | some len =>
      m.mapSizeType ∈ [DdlMapSizeType.suppress, .assign, .rejectDefined] ∧ m.rangeMin ≤ len ∧ len ≤ m.rangeMax ∨
        m.mapSizeType = .narrow ∧ ¬ (m.rangeMin ≤ len ∧ len ≤ m.rangeMax)
  | none => m.mapSizeType = .assignUndefined ∨ m.mapSizeType = .rejectUndefined

def RejectsColumn : Prop := m.mapSizeType = .rejectDefined ∨ m.mapSizeType = .rejectUndefined

/-- The bound that a length outside the range is narrowed to. -/
def clamp (len : Int32) : Int32 := if len < m.rangeMin then m.rangeMin else m.rangeMax

/-- What a sub-rule makes of the sizes of a column it matches. -/
def actOnLength (datatype : DdlDatatype) : DdlDatatype :=
  match m.mapSizeType with
  | .suppress => { datatype with charMaxLen := none, charOctLen := none }
  | .assign | .assignUndefined => { datatype with charMaxLen := some m.newValue, charOctLen := none }
  | .narrow => { datatype with charMaxLen := datatype.charMaxLen.map m.clamp, charOctLen := none }
  | _ => datatype

theorem matchesLength_iff (len : Option Int32) : m.MatchesLength len ↔ m.matchesSize false len = true := by
  unfold MatchesLength matchesSize
  cases len with
  | none => cases m.mapSizeType <;> simp [DdlMapSizeType.action]
  | some len => cases m.mapSizeType <;> simp [DdlMapSizeType.action, imp_iff_not_or]

/-- A sub-rule that matches rejects the column or acts on its length. -/
theorem applyTo_of_matchesLength {datatype : DdlDatatype} (h : m.MatchesLength datatype.charMaxLen) :
    ((m.applyTo false datatype.charMaxLen).isNone = true ↔ m.RejectsColumn) ∧
      ((m.applyTo false datatype.charMaxLen).map fun len => charLength.store len datatype).getD datatype =
        m.actOnLength datatype := by
  unfold applyTo RejectsColumn actOnLength
  generalize datatype.charMaxLen = len at h ⊢
  cases htype : m.mapSizeType with
  | rejectDefined | rejectUndefined => exact ⟨by simp [DdlMapSizeType.action], rfl⟩
  | suppress | assign | assignUndefined => exact ⟨by simp [DdlMapSizeType.action], rfl⟩
  | narrow => exact ⟨by simp [DdlMapSizeType.action], rfl⟩
  | _ =>
      rw [matchesLength_iff] at h
      unfold matchesSize at h
      rw [htype] at h
      cases len <;> simp [DdlMapSizeType.action] at h

end DdlMapSize

/-- The first sub-rule that matches the length of a column acts on it; where none does it stays as it is. -/
structure ActsOnFirst (mapSizes : List DdlMapSize) (datatype : DdlDatatype) (rejected : Bool)
    (datatype' : DdlDatatype) : Prop where
  unmatched : (∀ m ∈ mapSizes, ¬ m.MatchesLength datatype.charMaxLen) → rejected = false ∧ datatype' = datatype
  first : ∀ before m behind, mapSizes = before ++ m :: behind →
    (∀ m' ∈ before, ¬ m'.MatchesLength datatype.charMaxLen) → m.MatchesLength datatype.charMaxLen →
      (rejected = true ↔ m.RejectsColumn) ∧ datatype' = m.actOnLength datatype

theorem charLength_leave_cons (m : DdlMapSize) (mapSizes : List DdlMapSize) (datatype : DdlDatatype) :
    charLength.leave (m :: mapSizes) datatype =
      if m.matchesSize false datatype.charMaxLen then
        (m.applyTo false datatype.charMaxLen).map fun len => charLength.store len datatype
      else charLength.leave mapSizes datatype := charLength.leave_cons m mapSizes datatype

/-- Sub-rules that do not match are passed over. -/
theorem leave_append_of_unmatched {before : List DdlMapSize} {datatype : DdlDatatype}
    (h : ∀ m ∈ before, ¬ m.MatchesLength datatype.charMaxLen) (mapSizes : List DdlMapSize) :
    charLength.leave (before ++ mapSizes) datatype = charLength.leave mapSizes datatype := by
  induction before with
  | nil => rfl
  | cons m before ih =>
      obtain ⟨hm, hbefore⟩ := List.forall_mem_cons.mp h
      rw [List.cons_append, charLength_leave_cons, if_neg (mt (m.matchesLength_iff _).mpr hm)]
      exact ih hbefore

theorem actsOnFirst_leave (mapSizes : List DdlMapSize) (datatype : DdlDatatype) :
    ActsOnFirst mapSizes datatype (charLength.leave mapSizes datatype).isNone
      ((charLength.leave mapSizes datatype).getD datatype) where
  unmatched hnone := by
    have hleave := leave_append_of_unmatched hnone []
    rw [List.append_nil] at hleave
    rw [hleave]
    exact ⟨rfl, rfl⟩
  first before m behind heq hbefore hmatch := by
    rw [heq, leave_append_of_unmatched hbefore, charLength_leave_cons, if_pos ((m.matchesLength_iff _).mp hmatch),
      Option.isNone_map]
    exact m.applyTo_of_matchesLength hmatch

/-- With a `char_length` rule the first sub-rule that matches the length acts on a column, and nothing else
changes the sizes of it. The default value of a column that is kept may still not be expanded. -/
theorem migrateDatatypeDdl_charLength (prefs : DdlTableMigratorPrefs) (fuel : Nat) (defaultValue : Text)
    {rule : DdlDatatypeRule} {datatype : DdlDatatype}
    (hfind : prefs.datatypeRules.find datatype.name = some rule) (htype : rule.datatypeRuleType = .charLength)
    (hnum : datatype.NoNum) (hdt : datatype.dtPrec = none) :
    ∃ rejected datatype', ActsOnFirst rule.mapSizes (mapDatatypeName rule datatype).datatype rejected datatype' ∧
      ((∃ migration, migrateDatatypeDdl prefs fuel defaultValue datatype = .ok migration datatype' ∧
          migration.columnRejected = rejected) ∨
        rejected = false ∧ ∃ e, migrateDatatypeDdl prefs fuel defaultValue datatype = .error e datatype' ∧
          defaultValue ≠ [] ∧ expandDefaultValueMacro prefs fuel defaultValue = .error e) := by
  obtain ⟨hrejected, hdatatype⟩ := charLength.migrateSizes_eq rule.mapSizes (mapDatatypeName rule datatype)
  have hrule : migrateDatatypeRule rule (mapDatatypeName rule datatype) =
      .ok (charLength.migrateSizes rule.mapSizes (mapDatatypeName rule datatype)).1
        (charLength.migrateSizes rule.mapSizes (mapDatatypeName rule datatype)).2 := by
    obtain ⟨name, hname⟩ := datatype_mapDatatypeName rule datatype
    unfold migrateDatatypeRule
    rw [htype]
    dsimp only
    rw [hname, if_pos ⟨hnum, hdt⟩]
  generalize charLength.migrateSizes rule.mapSizes (mapDatatypeName rule datatype) = sizes at hrejected hdatatype hrule
  obtain ⟨rejected, st⟩ := sizes
  have hrun : migrateDatatypeDdl prefs fuel defaultValue datatype =
      finishMigration prefs fuel defaultValue (.ok rejected st) := by
    rw [migrateDatatypeDdl, hfind]
    exact congrArg (finishMigration prefs fuel defaultValue) hrule
  refine ⟨_, _, actsOnFirst_leave rule.mapSizes (mapDatatypeName rule datatype).datatype, ?_⟩
  rw [← hrejected, ← hdatatype, hrun]
  unfold finishMigration
  dsimp only
  cases rejected with
  | true =>
      obtain ⟨migration, hdefault, hcolumn⟩ := migrateDefaultValue_of_rejected prefs fuel defaultValue st
      rw [hdefault]
      exact .inl ⟨migration, rfl, hcolumn⟩
  | false =>
      obtain ⟨migration, hdefault, hcolumn⟩ | ⟨e, hdefault, hne, hexpand⟩ :=
        migrateDefaultValue_of_not_rejected prefs fuel defaultValue st
      · rw [hdefault]
        exact .inl ⟨migration, rfl, hcolumn⟩
      · rw [hdefault]
        exact .inr ⟨rfl, e, rfl, hne, hexpand⟩

/-- A length of `VARCHAR` is narrowed to at most 10, and an undefined one is set to 5. -/
def varcharRule : DdlDatatypeRule where
  datatypeRuleType := .charLength
  mapSizes := [⟨.assignUndefined, 0, 0, 5⟩, ⟨.narrow, 1, 10, 0⟩, ⟨.suppress, 0, 100, 0⟩]

def varchar20 : DdlDatatype where
  name := UcString.ofText "varchar".toList
  charMaxLen := some 20
  charOctLen := some 40

def varcharPrefs : DdlTableMigratorPrefs where
  datatypeRules := ⟨[(varchar20.name, varcharRule)], by decide⟩
  defaultValueRules := ∅

theorem migrateDatatypeDdl_charLength_varchar20 :
    ∃ migration, migrateDatatypeDdl varcharPrefs 0 [] varchar20 =
      .ok migration { varchar20 with charMaxLen := some 10, charOctLen := none } ∧
        migration.columnRejected = false := by
  have hfind : varcharPrefs.datatypeRules.find varchar20.name = some varcharRule := rfl
  obtain ⟨rejected, datatype', hacts, hrun⟩ :=
    migrateDatatypeDdl_charLength varcharPrefs 0 [] hfind rfl ⟨rfl, rfl, rfl⟩ rfl
  have hundefined : ¬ DdlMapSize.MatchesLength ⟨.assignUndefined, 0, 0, 5⟩ (some 20) := by
    rw [DdlMapSize.matchesLength_iff]
    decide
  have hnarrow : DdlMapSize.MatchesLength ⟨.narrow, 1, 10, 0⟩ (some 20) := .inr ⟨rfl, by decide⟩
  obtain ⟨hrejects, rfl⟩ := hacts.first [_] _ _ rfl (List.forall_mem_singleton.mpr hundefined) hnarrow
  have hkept : rejected = false := by
    rw [← Bool.not_eq_true, hrejects]
    rintro (h | h) <;> cases h
  obtain ⟨migration, hrun, hcolumn⟩ | ⟨-, e, -, hne, -⟩ := hrun
  · exact ⟨migration, hrun, hcolumn.trans hkept⟩
  · exact absurd rfl hne

end Middle.NormalDdl
