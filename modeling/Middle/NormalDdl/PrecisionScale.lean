import Middle.MiddleApp.PrefsReader
import Middle.NormalDdl.TableMigrator

/-! What the sub-rules of a `precision_scale` rule say of a column's precision and scale, and when
`migrate_datatype_ddl` does what they say. The first matching sub-rule decides on each size; but the loop
over scale sub-rules is entered only when a precision sub-rule has rejected the column. -/

namespace Middle.NormalDdl

open Lib Universals MiddleApp

namespace DdlMapSize

variable (scale : Bool) (m : DdlMapSize)

/-- Whether a sub-rule matches a size, `none` being an undefined one. -/
def matchesSize : Option Int32 → Bool
  | some size =>
      match m.mapSizeType.action scale with
      | some .narrow => ¬ (m.rangeMin ≤ size ∧ size ≤ m.rangeMax)
      | some .rejectDefined | some .suppress | some .assign => m.rangeMin ≤ size ∧ size ≤ m.rangeMax
      | _ => false
  | none => m.mapSizeType.action scale = some .rejectUndefined ∨
      m.mapSizeType.action scale = some .assignUndefined

/-- What a sub-rule makes of a size that it matches; `none` rejects the column. -/
def applyTo (size : Option Int32) : Option (Option Int32) :=
  match m.mapSizeType.action scale with
  | some .suppress => some none
  | some .assign | some .assignUndefined => some (some m.newValue)
  | some .narrow => some (size.map fun size => if size < m.rangeMin then m.rangeMin else m.rangeMax)
  | _ => none

/-- What the first matching sub-rule makes of a size, which is kept when there is none. -/
def applyFirst (mapSizes : List DdlMapSize) (size : Option Int32) : Option (Option Int32) :=
  match mapSizes.find? fun m => m.matchesSize scale size with
  | some m => m.applyTo scale size
  | none => some size

/-- The values a sub-rule can store are values of the type of a precision. -/
def FitsPrecision : Prop :=
  (m.mapSizeType = .assign ∨ m.mapSizeType = .assignUndefined → 0 ≤ m.newValue ∧ m.newValue ≤ 255) ∧
    (m.mapSizeType = .narrow → m.rangeMin ≤ 255 ∧ 0 ≤ m.rangeMax)

instance : Decidable m.FitsPrecision := inferInstanceAs (Decidable (_ ∧ _))

end DdlMapSize

open DdlMapSize

namespace SizeMigrator

variable (k : SizeMigrator) {m : DdlMapSize} {st : SizeState}

theorem migrateSize_of_not_matches (h : m.matchesSize k.scale (k.size st.datatype) = false) :
    k.migrateSize m st = (0, st) := by
  unfold matchesSize at h
  unfold migrateSize
  cases hsize : k.size st.datatype with
  | none =>
      rw [hsize] at h
      rcases haction : m.mapSizeType.action k.scale with _ | _ | _ | _ | _ | _ | _ <;> simp_all
  | some size =>
      rw [hsize] at h
      rcases haction : m.mapSizeType.action k.scale with _ | _ | _ | _ | _ | _ | _ <;> simp_all

/-- A sub-rule that matches rejects the column and leaves its data type alone. -/
theorem migrateSize_of_rejects (h : m.matchesSize k.scale (k.size st.datatype) = true)
    (happly : m.applyTo k.scale (k.size st.datatype) = none) :
    (k.migrateSize m st).1 = -1 ∧ (k.migrateSize m st).2.datatype = st.datatype := by
  unfold matchesSize at h
  unfold applyTo at happly
  unfold migrateSize
  cases hsize : k.size st.datatype with
  | none =>
      rw [hsize] at h happly
      rcases haction : m.mapSizeType.action k.scale with _ | _ | _ | _ | _ | _ | _ <;>
        simp_all [SizeState.addMsg]
  | some size =>
      rw [hsize] at h happly
      rcases haction : m.mapSizeType.action k.scale with _ | _ | _ | _ | _ | _ | _ <;>
        simp_all [SizeState.addMsg]

/-- Or it stores what it makes of the size. -/
theorem migrateSize_of_stores {size : Option Int32} (h : m.matchesSize k.scale (k.size st.datatype) = true)
    (happly : m.applyTo k.scale (k.size st.datatype) = some size) :
    (k.migrateSize m st).1 = 1 ∧ (k.migrateSize m st).2.datatype = k.store size st.datatype := by
  unfold matchesSize at h
  unfold applyTo at happly
  unfold migrateSize
  cases hsize : k.size st.datatype with
  | none =>
      rw [hsize] at h happly
      rcases haction : m.mapSizeType.action k.scale with _ | _ | _ | _ | _ | _ | _ <;>
        simp_all [replace, SizeState.addComment]
  | some size' =>
      rw [hsize] at h happly
      by_cases hrange : m.rangeMin ≤ size' ∧ size' ≤ m.rangeMax
      · simp only [hrange, and_self, if_true] at h ⊢
        rcases haction : m.mapSizeType.action k.scale with _ | _ | _ | _ | _ | _ | _ <;>
          simp_all [replace, SizeState.addComment]
      · simp only [hrange, if_false] at h ⊢
        rcases haction : m.mapSizeType.action k.scale with _ | _ | _ | _ | _ | _ | _ <;>
          simp_all [replace, SizeState.addComment]

end SizeMigrator

/-! ### Sizes that fit -/

theorem toInt_of_uint8 (n : UInt8) : n.toUInt32.toInt32.toInt = n.toNat := by
  have hn := n.toNat_lt
  rw [← Int32.toInt_toBitVec, UInt32.toBitVec_toInt32, BitVec.toInt_eq_toNat_bmod]
  change (n.toNat : Int).bmod (2 ^ 32) = n.toNat
  exact Int.bmod_eq_of_le (by omega) (by omega)

theorem uint8_of_int32 {n : Int32} (hlow : 0 ≤ n) (hhigh : n ≤ 255) :
    n.toUInt32.toUInt8.toUInt32.toInt32 = n := by
  have hlow' : 0 ≤ n.toInt := Int32.le_iff_toInt_le.mp hlow
  have hhigh' : n.toInt ≤ 255 := Int32.le_iff_toInt_le.mp hhigh
  apply Int32.toInt.inj
  rw [toInt_of_uint8, UInt32.toNat_toUInt8, Int32.toNat_toUInt32_of_le hlow]
  change ((n.toInt.toNat % 256 : Nat) : Int) = n.toInt
  omega

theorem numericPrecision_size_range {datatype : DdlDatatype} {n : Int32}
    (h : numericPrecision.size datatype = some n) : 0 ≤ n ∧ n ≤ 255 := by
  obtain ⟨b, -, rfl⟩ := Option.map_eq_some_iff.mp h
  have hb := b.toNat_lt
  rw [Int32.le_iff_toInt_le, Int32.le_iff_toInt_le, toInt_of_uint8]
  change (0 : Int) ≤ b.toNat ∧ (b.toNat : Int) ≤ 255
  omega

/-- A precision that fits is stored as it is. -/
theorem numericPrecision_size_store {m : DdlMapSize} (hfits : m.FitsPrecision) {datatype : DdlDatatype}
    {size : Option Int32} (h : m.matchesSize false (numericPrecision.size datatype) = true)
    (happly : m.applyTo false (numericPrecision.size datatype) = some size) :
    numericPrecision.size (numericPrecision.store size datatype) = size := by
  cases size with
  | none => rfl
  | some n =>
      have hn : 0 ≤ n ∧ n ≤ 255 := by
        unfold applyTo at happly
        split at happly
        · cases happly
        · rename_i haction
          cases happly
          refine hfits.1 (.inl ?_)
          cases htype : m.mapSizeType <;> simp_all [DdlMapSizeType.action]
        · rename_i haction
          cases happly
          refine hfits.1 (.inr ?_)
          cases htype : m.mapSizeType <;> simp_all [DdlMapSizeType.action]
        · rename_i haction
          have htype : m.mapSizeType = .narrow := by
            cases htype : m.mapSizeType <;> simp_all [DdlMapSizeType.action]
          obtain ⟨hmin, hmax⟩ := hfits.2 htype
          obtain ⟨old, hold, hn⟩ := Option.map_eq_some_iff.mp (Option.some.inj happly)
          obtain ⟨hlow, hhigh⟩ := numericPrecision_size_range hold
          split at hn
          · rename_i hlt
            subst hn
            exact ⟨Int32.le_trans hlow (Int32.le_of_lt hlt), hmin⟩
          · rename_i hlt
            subst hn
            simp only [matchesSize, hold, haction, not_and, Int32.not_le, decide_eq_true_eq] at h
            exact ⟨hmax, Int32.le_trans (Int32.le_of_lt (h (Int32.not_lt.mp hlt))) hhigh⟩
        · cases happly
      exact congrArg some (uint8_of_int32 hn.1 hn.2)

/-- A column with the numeric precision 5. -/
def fiveDigits : SizeState := { datatype := { name := UcString.ofText "DECIMAL".toList, numPrec := some 5 } }

/-! ### The loops -/

theorem applyFirst_cons (scale : Bool) (m : DdlMapSize) (mapSizes : List DdlMapSize) (size : Option Int32) :
    applyFirst scale (m :: mapSizes) size =
      if m.matchesSize scale size then m.applyTo scale size else applyFirst scale mapSizes size := by
  unfold applyFirst
  rw [List.find?_cons]
  cases m.matchesSize scale size <;> rfl

/-- The sub-rules behind the first that matches. -/
def behindFirst (scale : Bool) (mapSizes : List DdlMapSize) (size : Option Int32) : List DdlMapSize :=
  (mapSizes.dropWhile fun m => !m.matchesSize scale size).tail

section Loops

variable {precisions scales : List DdlMapSize}

theorem migratePrecisionSizes_of_scales (hscales : ∀ m ∈ scales, scaleMapSizeType m.mapSizeType = true)
    (st : SizeState) : migratePrecisionSizes scales st = (false, st, scales) := by
  cases scales with
  | nil => rfl
  | cons m scales => simp [migratePrecisionSizes, hscales m List.mem_cons_self]

/-- When the first matching precision sub-rule rejects, the loop stops behind it. -/
theorem migratePrecisionSizes_of_rejects (scales : List DdlMapSize)
    (hprecisions : ∀ m ∈ precisions, scaleMapSizeType m.mapSizeType = false) (st : SizeState)
    (h : applyFirst false precisions (numericPrecision.size st.datatype) = none) :
    ∃ st', migratePrecisionSizes (precisions ++ scales) st =
        (true, st', behindFirst false precisions (numericPrecision.size st.datatype) ++ scales) ∧
      st'.datatype = st.datatype := by
  induction precisions with
  | nil => cases h
  | cons m precisions ih =>
      obtain ⟨hm, hprecisions⟩ := List.forall_mem_cons.mp hprecisions
      rw [applyFirst_cons] at h
      unfold behindFirst
      rw [List.cons_append, migratePrecisionSizes, hm, List.dropWhile_cons]
      cases hmatch : m.matchesSize false (numericPrecision.size st.datatype) with
      | true =>
          rw [hmatch, if_pos rfl] at h
          obtain ⟨hret, hdatatype⟩ := numericPrecision.migrateSize_of_rejects hmatch h
          refine ⟨(migrateNumericPrecisionSize m st).2, ?_, hdatatype⟩
          simp [migrateNumericPrecisionSize, hret]
      | false =>
          rw [hmatch] at h
          rw [migrateNumericPrecisionSize, numericPrecision.migrateSize_of_not_matches hmatch]
          obtain ⟨st', hrun, hdatatype⟩ := ih hprecisions h
          exact ⟨st', by simpa [behindFirst] using hrun, hdatatype⟩

/-- Otherwise it does not reject the column, and stores what the first matching sub-rule says. -/
theorem migratePrecisionSizes_of_kept
    (hprecisions : ∀ m ∈ precisions, scaleMapSizeType m.mapSizeType = false)
    (hscales : ∀ m ∈ scales, scaleMapSizeType m.mapSizeType = true) (st : SizeState) {size : Option Int32}
    (h : applyFirst false precisions (numericPrecision.size st.datatype) = some size) :
    ∃ st' rest, migratePrecisionSizes (precisions ++ scales) st = (false, st', rest) ∧
      ((∃ m ∈ precisions, m.matchesSize false (numericPrecision.size st.datatype) = true ∧
          m.applyTo false (numericPrecision.size st.datatype) = some size ∧
          st'.datatype = numericPrecision.store size st.datatype) ∨
        st'.datatype = st.datatype ∧ size = numericPrecision.size st.datatype) := by
  induction precisions with
  | nil =>
      cases h
      exact ⟨st, scales, migratePrecisionSizes_of_scales hscales st, .inr ⟨rfl, rfl⟩⟩
  | cons m precisions ih =>
      obtain ⟨hm, hprecisions⟩ := List.forall_mem_cons.mp hprecisions
      rw [applyFirst_cons] at h
      rw [List.cons_append, migratePrecisionSizes, hm]
      cases hmatch : m.matchesSize false (numericPrecision.size st.datatype) with
      | true =>
          rw [hmatch, if_pos rfl] at h
          obtain ⟨hret, hdatatype⟩ := numericPrecision.migrateSize_of_stores hmatch h
          refine ⟨(migrateNumericPrecisionSize m st).2, precisions ++ scales, ?_,
            .inl ⟨m, List.mem_cons_self, hmatch, h, hdatatype⟩⟩
          simp [migrateNumericPrecisionSize, hret]
      | false =>
          rw [hmatch] at h
          rw [migrateNumericPrecisionSize, numericPrecision.migrateSize_of_not_matches hmatch]
          obtain ⟨st', rest, hrun, hsizes⟩ := ih hprecisions h
          refine ⟨st', rest, by simpa using hrun, ?_⟩
          obtain ⟨m', hm', hstores⟩ | hsame := hsizes
          · exact .inl ⟨m', List.mem_cons_of_mem m hm', hstores⟩
          · exact .inr hsame

theorem migratePrecisionSizes_of_stores
    (hprecisions : ∀ m ∈ precisions, scaleMapSizeType m.mapSizeType = false)
    (hscales : ∀ m ∈ scales, scaleMapSizeType m.mapSizeType = true)
    (hfits : ∀ m ∈ precisions, m.FitsPrecision) (st : SizeState) {size : Option Int32}
    (h : applyFirst false precisions (numericPrecision.size st.datatype) = some size) :
    ∃ st' rest, migratePrecisionSizes (precisions ++ scales) st = (false, st', rest) ∧
      numericPrecision.size st'.datatype = size ∧
      numericScale.size st'.datatype = numericScale.size st.datatype := by
  obtain ⟨st', rest, hrun, ⟨m, hm, hmatch, happly, hdatatype⟩ | ⟨hdatatype, hsize⟩⟩ :=
    migratePrecisionSizes_of_kept hprecisions hscales st h
  · refine ⟨st', rest, hrun, ?_, ?_⟩
    · rw [hdatatype, numericPrecision_size_store (hfits m hm) hmatch happly]
    · rw [hdatatype]
      rfl
  · refine ⟨st', rest, hrun, ?_, ?_⟩
    · rw [hdatatype, hsize]
    · rw [hdatatype]

/-- The second loop applies the scale sub-rules to a column that is rejected already. -/
theorem migrateScaleSizes_of_rejected (hscales : ∀ m ∈ scales, scaleMapSizeType m.mapSizeType = true)
    (st : SizeState) :
    ∃ st', migrateScaleSizes true scales st = .ok true st' ∧
      numericPrecision.size st'.datatype = numericPrecision.size st.datatype ∧
      numericScale.size st'.datatype = (applyFirst true scales (numericScale.size st.datatype)).getD
        (numericScale.size st.datatype) := by
  induction scales with
  | nil => exact ⟨st, rfl, rfl, rfl⟩
  | cons m scales ih =>
      obtain ⟨hm, hscales⟩ := List.forall_mem_cons.mp hscales
      rw [applyFirst_cons, migrateScaleSizes, hm]
      cases hmatch : m.matchesSize true (numericScale.size st.datatype) with
      | true =>
          rw [if_pos rfl, if_pos rfl]
          cases happly : m.applyTo true (numericScale.size st.datatype) with
          | none =>
              obtain ⟨hret, hdatatype⟩ := numericScale.migrateSize_of_rejects hmatch happly
              refine ⟨(migrateNumericScaleSize m st).2, ?_, ?_⟩
              · simp [migrateNumericScaleSize, hret]
              · rw [migrateNumericScaleSize, hdatatype]
                exact ⟨rfl, rfl⟩
          | some size =>
              obtain ⟨hret, hdatatype⟩ := numericScale.migrateSize_of_stores hmatch happly
              refine ⟨(migrateNumericScaleSize m st).2, ?_, ?_⟩
              · simp [migrateNumericScaleSize, hret]
              · rw [migrateNumericScaleSize, hdatatype]
                exact ⟨rfl, rfl⟩
      | false =>
          rw [migrateNumericScaleSize, numericScale.migrateSize_of_not_matches hmatch]
          simpa using ih hscales

theorem migratePrecisionScale_of_stores
    (hprecisions : ∀ m ∈ precisions, scaleMapSizeType m.mapSizeType = false)
    (hscales : ∀ m ∈ scales, scaleMapSizeType m.mapSizeType = true)
    (hfits : ∀ m ∈ precisions, m.FitsPrecision) (st : SizeState) {size : Option Int32}
    (h : applyFirst false precisions (numericPrecision.size st.datatype) = some size) :
    ∃ st', migratePrecisionScale (precisions ++ scales) st = .ok false st' ∧
      numericPrecision.size st'.datatype = size ∧
      numericScale.size st'.datatype = numericScale.size st.datatype := by
  obtain ⟨st', rest, hrun, hsizes⟩ := migratePrecisionSizes_of_stores hprecisions hscales hfits st h
  refine ⟨st', ?_, hsizes⟩
  rw [migratePrecisionScale, hrun]
  rfl

theorem migratePrecisionScale_of_rejects
    (hprecisions : ∀ m ∈ precisions, scaleMapSizeType m.mapSizeType = false)
    (hscales : ∀ m ∈ scales, scaleMapSizeType m.mapSizeType = true) (st : SizeState)
    (h : applyFirst false precisions (numericPrecision.size st.datatype) = none)
    (hlast : behindFirst false precisions (numericPrecision.size st.datatype) = []) :
    ∃ st', migratePrecisionScale (precisions ++ scales) st = .ok true st' ∧
      numericPrecision.size st'.datatype = numericPrecision.size st.datatype ∧
      numericScale.size st'.datatype = (applyFirst true scales (numericScale.size st.datatype)).getD
        (numericScale.size st.datatype) := by
  obtain ⟨st', hrun, hdatatype⟩ := migratePrecisionSizes_of_rejects scales hprecisions st h
  rw [hlast, List.nil_append] at hrun
  rw [← hdatatype, migratePrecisionScale, hrun]
  cases scales with
  | nil => exact ⟨st', rfl, rfl, rfl⟩
  | cons m scales =>
      dsimp only
      rw [if_pos ⟨rfl, List.cons_ne_nil _ _⟩]
      exact migrateScaleSizes_of_rejected hscales st'

/-- A precision sub-rule behind the one that rejects trips the assertion of the second loop. -/
theorem migratePrecisionScale_of_behind
    (hprecisions : ∀ m ∈ precisions, scaleMapSizeType m.mapSizeType = false) (st : SizeState)
    (h : applyFirst false precisions (numericPrecision.size st.datatype) = none)
    (hbehind : behindFirst false precisions (numericPrecision.size st.datatype) ≠ []) :
    ∃ st', migratePrecisionScale (precisions ++ scales) st = .error .assertion st' := by
  obtain ⟨st', hrun, -⟩ := migratePrecisionSizes_of_rejects scales hprecisions st h
  refine ⟨st', ?_⟩
  rw [migratePrecisionScale, hrun]
  have hmem : ∀ m ∈ behindFirst false precisions (numericPrecision.size st.datatype), m ∈ precisions :=
    fun m hm => List.dropWhile_subset _ (List.mem_of_mem_tail hm)
  cases hrest : behindFirst false precisions (numericPrecision.size st.datatype) with
  | nil => exact absurd hrest hbehind
  | cons m rest =>
      rw [hrest] at hmem
      simp [migrateScaleSizes, hprecisions m (hmem m List.mem_cons_self)]

end Loops

/-! ### The whole function -/

/-- What the sub-rules say of a precision and a scale, and whether they reject the column. -/
def sizesByRules (precisions scales : List DdlMapSize) (precision scale : Option Int32) :
    (Option Int32 × Option Int32) × Bool :=
  match applyFirst false precisions precision with
  | none => ((precision, scale), true)
  | some precision' =>
      match applyFirst true scales scale with
      | none => ((precision', scale), true)
      | some scale' => ((precision', scale'), false)

/-- The precision sub-rules of a list that has them in front of the scale sub-rules. -/
def precisionSizes (mapSizes : List DdlMapSize) : List DdlMapSize :=
  mapSizes.takeWhile fun m => !scaleMapSizeType m.mapSizeType

def scaleSizes (mapSizes : List DdlMapSize) : List DdlMapSize :=
  mapSizes.dropWhile fun m => !scaleMapSizeType m.mapSizeType

variable (prefs : DdlTableMigratorPrefs) (fuel : Nat)

/-- `migrate_datatype_ddl` leaves the sizes the sub-rules say and rejects the column when they do; it
throws nothing but what expanding the default value of a column throws that they do not reject. -/
def MigratesByRules (rule : DdlDatatypeRule) (defaultValue : Text) (datatype : DdlDatatype) : Prop :=
  let said := sizesByRules (precisionSizes rule.mapSizes) (scaleSizes rule.mapSizes)
    (numericPrecision.size datatype) (numericScale.size datatype)
  match migrateDatatypeDdl prefs fuel defaultValue datatype with
  | .ok migration datatype =>
      (numericPrecision.size datatype, numericScale.size datatype) = said.1 ∧ migration.columnRejected = said.2
  | .error e datatype =>
      (numericPrecision.size datatype, numericScale.size datatype) = said.1 ∧ said.2 = false ∧
        defaultValue ≠ [] ∧ expandDefaultValueMacro prefs fuel defaultValue = .error e

/-- The first matching scale sub-rule has nothing to do; and when a precision sub-rule rejects the column,
it is the last one, and the first matching scale sub-rule stores no other scale. -/
def ScaleRulesIdle (rule : DdlDatatypeRule) (datatype : DdlDatatype) : Prop :=
  let scale := numericScale.size datatype
  let said := applyFirst true (scaleSizes rule.mapSizes) scale
  match applyFirst false (precisionSizes rule.mapSizes) (numericPrecision.size datatype) with
  | some _ => said = some scale
  | none => behindFirst false (precisionSizes rule.mapSizes) (numericPrecision.size datatype) = [] ∧
      (said = none ∨ said = some scale)

theorem migrateDefaultValue_of_rejected (defaultValue : Text) (st : SizeState) :
    ∃ migration, migrateDefaultValue prefs fuel true defaultValue st = .ok migration ∧
      migration.columnRejected = true := ⟨_, rfl, rfl⟩

theorem migrateDefaultValue_of_not_rejected (defaultValue : Text) (st : SizeState) :
    (∃ migration, migrateDefaultValue prefs fuel false defaultValue st = .ok migration ∧
      migration.columnRejected = false) ∨
    ∃ e, migrateDefaultValue prefs fuel false defaultValue st = .error e ∧ defaultValue ≠ [] ∧
      expandDefaultValueMacro prefs fuel defaultValue = .error e := by
  unfold migrateDefaultValue
  by_cases hempty : defaultValue = []
  · subst hempty
    exact .inl ⟨_, rfl, rfl⟩
  · simp only [Bool.false_eq_true, if_false, hempty]
    cases hexpand : expandDefaultValueMacro prefs fuel defaultValue with
    | error e => exact .inr ⟨e, rfl, hempty, rfl⟩
    | ok newDefaultValue => exact .inl ⟨_, rfl, rfl⟩

variable {prefs}

theorem scaleSizesLast_split {mapSizes : List DdlMapSize} (h : scaleSizesLast mapSizes = true) :
    ∀ m ∈ scaleSizes mapSizes, scaleMapSizeType m.mapSizeType = true := by
  induction mapSizes with
  | nil => exact fun _ hm => absurd hm List.not_mem_nil
  | cons m mapSizes ih =>
      unfold scaleSizesLast at h
      unfold scaleSizes
      rw [List.dropWhile_cons]
      cases hm : scaleMapSizeType m.mapSizeType with
      | true =>
          rw [hm, if_pos rfl, List.all_eq_true] at h
          intro m' hm'
          rcases List.mem_cons.mp hm' with rfl | hm'
          · exact hm
          · exact h m' hm'
      | false =>
          rw [hm, if_neg Bool.false_ne_true] at h
          exact ih h

/-- With no other size than precision and scale, the assertions of the `precision_scale` case hold. -/
theorem migrateDatatypeDdl_of_precisionScale {rule : DdlDatatypeRule} {datatype : DdlDatatype}
    (hfind : prefs.datatypeRules.find datatype.name = some rule)
    (htype : rule.datatypeRuleType = .precisionScale)
    (hchar : datatype.charMaxLen = none ∧ datatype.charOctLen = none) (hdt : datatype.dtPrec = none)
    (defaultValue : Text) :
    ∃ st, numericPrecision.size st.datatype = numericPrecision.size datatype ∧
      numericScale.size st.datatype = numericScale.size datatype ∧
      migrateDatatypeDdl prefs fuel defaultValue datatype =
        finishMigration prefs fuel defaultValue (migratePrecisionScale rule.mapSizes st) := by
  refine ⟨mapDatatypeName rule datatype, ?_, ?_, ?_⟩
  · unfold mapDatatypeName
    split <;> rfl
  · unfold mapDatatypeName
    split <;> rfl
  · have hcase : migrateDatatypeRule rule (mapDatatypeName rule datatype) =
        migratePrecisionScale rule.mapSizes (mapDatatypeName rule datatype) := by
      unfold migrateDatatypeRule
      rw [htype]
      refine if_pos ?_
      unfold mapDatatypeName
      split <;> exact ⟨hchar, hdt⟩
    rw [migrateDatatypeDdl, hfind]
    exact congrArg (finishMigration prefs fuel defaultValue) hcase

/-- A `precision_scale` rule the reader has accepted migrates every column by what its sub-rules say exactly
when the scale sub-rules have nothing to do. -/
theorem migrateDatatypeDdl_precisionScale_iff {pastEnd : Option (Text × Ptree)} {prefRoot : Ptree}
    (hread : readTableMigratorPrefs pastEnd prefRoot = .ok prefs) {rule : DdlDatatypeRule}
    {datatype : DdlDatatype} (hfind : prefs.datatypeRules.find datatype.name = some rule)
    (htype : rule.datatypeRuleType = .precisionScale) (hfits : ∀ m ∈ rule.mapSizes, m.FitsPrecision)
    (hchar : datatype.charMaxLen = none ∧ datatype.charOctLen = none) (hdt : datatype.dtPrec = none)
    (defaultValue : Text) :
    MigratesByRules prefs fuel rule defaultValue datatype ↔ ScaleRulesIdle rule datatype := by
  have hscales := scaleSizesLast_split (scaleSizesLast_of_readTableMigratorPrefs hread _ _ hfind)
  have hprecisions : ∀ m ∈ precisionSizes rule.mapSizes, scaleMapSizeType m.mapSizeType = false := by
    intro m hm
    simpa using List.mem_takeWhile_imp hm
  have hfits' : ∀ m ∈ precisionSizes rule.mapSizes, m.FitsPrecision :=
    fun m hm => hfits m (List.takeWhile_subset _ hm)
  have hsplit : precisionSizes rule.mapSizes ++ scaleSizes rule.mapSizes = rule.mapSizes :=
    List.takeWhile_append_dropWhile
  obtain ⟨st, hprecision, hscale, hrun⟩ :=
    migrateDatatypeDdl_of_precisionScale fuel hfind htype hchar hdt defaultValue
  unfold MigratesByRules ScaleRulesIdle sizesByRules
  rw [hrun, ← hprecision, ← hscale]
  cases happly : applyFirst false (precisionSizes rule.mapSizes) (numericPrecision.size st.datatype) with
  | some size =>
      obtain ⟨st', hloops, hprecision', hscale'⟩ :=
        migratePrecisionScale_of_stores hprecisions hscales hfits' st happly
      rw [hsplit] at hloops
      rw [hloops, finishMigration]
      rcases migrateDefaultValue_of_not_rejected prefs fuel defaultValue st' with
        ⟨migration, hdefault, hrejected⟩ | ⟨e, hdefault, hempty, hexpand⟩
      · rw [hdefault]
        cases hsaid : applyFirst true (scaleSizes rule.mapSizes) (numericScale.size st.datatype) <;>
          simp [hrejected, hprecision', hscale', hsaid, eq_comm]
      · rw [hdefault]
        cases hsaid : applyFirst true (scaleSizes rule.mapSizes) (numericScale.size st.datatype) <;>
          simp [hempty, hexpand, hprecision', hscale', hsaid, eq_comm]
  | none =>
      by_cases hlast : behindFirst false (precisionSizes rule.mapSizes) (numericPrecision.size st.datatype) = []
      · obtain ⟨st', hloops, hprecision', hscale'⟩ :=
          migratePrecisionScale_of_rejects hprecisions hscales st happly hlast
        rw [hsplit] at hloops
        rw [hloops, finishMigration]
        obtain ⟨migration, hdefault, hrejected⟩ :=
          migrateDefaultValue_of_rejected prefs fuel defaultValue st'
        rw [hdefault]
        cases hsaid : applyFirst true (scaleSizes rule.mapSizes) (numericScale.size st.datatype) <;>
          simp [hrejected, hprecision', hscale', hlast, hsaid]
      · obtain ⟨st', hloops⟩ := migratePrecisionScale_of_behind hprecisions st happly hlast
        rw [hsplit] at hloops
        rw [hloops, finishMigration]
        simp [hlast]

/-- The documented rule for `INT`: a precision is dropped, a scale is narrowed to 0. -/
def intPrefsTree : Ptree :=
  .object [
    ("datatype_rules", .object [("", .object [("type_name", .leaf "INT"), ("datatype", .object [
      ("type", .leaf "precision_scale"),
      ("map_sizes", .object [
        ("", .object [("type", .leaf "suppress")]),
        ("", .object [("type", .leaf "scale_narrow"), ("range_min", .leaf "0"),
          ("range_max", .leaf "0")])])])])]),
    ("default_value_rules", .object [("", .object [("macro_lhs", .leaf "getdate"),
      ("macro_rhs", .leaf "now"), ("macro_args", .object [("argcnt", .leaf "0")])])])]

/-- A column of the data type `INT` with a precision and a scale. -/
def intDatatype (numPrec : UInt8) (numScale : Int32) : DdlDatatype where
  name := UcString.ofText "INT".toList
  numPrec := some numPrec
  numScale := some numScale

theorem migrateDatatypeDdl_int_11_0 :
    ∃ prefs rule, readTableMigratorPrefs none intPrefsTree = .ok prefs ∧
      prefs.datatypeRules.find (intDatatype 11 0).name = some rule ∧
      MigratesByRules prefs 0 rule [] (intDatatype 11 0) := by
  refine ⟨_, _, rfl, rfl, (migrateDatatypeDdl_precisionScale_iff 0
    (show readTableMigratorPrefs none intPrefsTree = .ok _ from rfl) rfl rfl ?_ ⟨rfl, rfl⟩ rfl []).mpr ?_⟩
  · decide
  · exact rfl

/-- A scale that the documented rule narrows to 0 stays as it is. -/
theorem migrateDatatypeDdl_int_11_2 :
    ∃ prefs rule, readTableMigratorPrefs none intPrefsTree = .ok prefs ∧
      prefs.datatypeRules.find (intDatatype 11 2).name = some rule ∧
      ¬ MigratesByRules prefs 0 rule [] (intDatatype 11 2) := by
  refine ⟨_, _, rfl, rfl, fun h => ?_⟩
  exact absurd h.1 (by decide)

end Middle.NormalDdl
