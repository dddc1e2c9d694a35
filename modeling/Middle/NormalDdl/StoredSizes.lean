import Middle.NormalDdl.PrecisionScale

/-! Whether a sub-rule stores the size that it states. The values of sub-rules are of 32 bits, and the
precisions that they are stored in of 8 and of 16. -/

namespace Middle.NormalDdl

open Lib Universals MiddleApp DdlMapSize

/-! ### Conversions -/

theorem uint8_of_int32_iff (n : Int32) : n.toUInt32.toUInt8.toUInt32.toInt32 = n ↔ 0 ≤ n ∧ n ≤ 255 := by
  constructor
  · intro h
    have hbyte := n.toUInt32.toUInt8.toNat_lt
    rw [← h, Int32.le_iff_toInt_le, Int32.le_iff_toInt_le, toInt_of_uint8]
    change (0 : Int) ≤ n.toUInt32.toUInt8.toNat ∧ (n.toUInt32.toUInt8.toNat : Int) ≤ 255
    omega
  · rintro ⟨hlow, hhigh⟩
    exact uint8_of_int32 hlow hhigh

theorem int16_of_int32_iff (n : Int32) : n.toInt16.toInt32 = n ↔ -32768 ≤ n ∧ n ≤ 32767 := by
  have hread : n.toInt16.toInt32.toInt = n.toInt.bmod (2 ^ 16) := by
    rw [Int16.toInt_toInt32, Int32.toInt_toInt16]
  rw [← Int32.toInt_inj, hread, Int32.le_iff_toInt_le, Int32.le_iff_toInt_le]
  change n.toInt.bmod (2 ^ 16) = n.toInt ↔ (-32768 : Int) ≤ n.toInt ∧ n.toInt ≤ 32767
  constructor
  · intro h
    have hlow : -((2 ^ 16 : Nat) : Int) / 2 ≤ n.toInt.bmod (2 ^ 16) := Int.le_bmod (by decide)
    have hhigh : n.toInt.bmod (2 ^ 16) < (((2 ^ 16 : Nat) : Int) + 1) / 2 := Int.bmod_lt (by decide)
    omega
  · rintro ⟨hlow, hhigh⟩
    exact Int.bmod_eq_of_le (by omega) (by omega)

/-! ### What a sub-rule states -/

namespace SizeMigrator

variable (k : SizeMigrator) {m : DdlMapSize} {st : SizeState}

/-- A sub-rule matches the size of a column and states `v` for it: the new value, or the bound that the size is
narrowed to. -/
def States (m : DdlMapSize) (st : SizeState) (v : Int32) : Prop :=
  m.matchesSize k.scale (k.size st.datatype) = true ∧ m.applyTo k.scale (k.size st.datatype) = some (some v)

/-- A sub-rule stores the value that it states, and its comment names it. -/
def StoresStated (m : DdlMapSize) (st : SizeState) : Prop :=
  ∀ v, k.States m st v → k.size (k.migrateSize m st).2.datatype = some v ∧
    ∃ said, (k.migrateSize m st).2.datatypeComment = (st.addComment (said ++ lexicalCastInt32 v)).datatypeComment

/-- The comment of a sub-rule names the value that it states. -/
theorem comment_of_states {v : Int32} (h : k.States m st v) :
    ∃ said, (k.migrateSize m st).2.datatypeComment = (st.addComment (said ++ lexicalCastInt32 v)).datatypeComment := by
  obtain ⟨hmatch, happly⟩ := h
  unfold matchesSize at hmatch
  unfold applyTo at happly
  unfold migrateSize
  cases hsize : k.size st.datatype with
  | none =>
      rw [hsize] at hmatch happly
      dsimp only at hmatch ⊢
      obtain haction | haction := of_decide_eq_true hmatch
      · rw [haction] at happly
        cases happly
      · rw [haction] at happly ⊢
        cases happly
        exact ⟨_, rfl⟩
  | some size =>
      rw [hsize] at hmatch happly
      dsimp only at hmatch ⊢
      split at hmatch
      · rename_i haction
        have hrange := of_decide_eq_true hmatch
        rw [haction] at happly ⊢
        rw [if_neg hrange, if_pos rfl]
        cases happly
        exact ⟨_, rfl⟩
      · rename_i haction
        rw [haction] at happly
        cases happly
      · rename_i haction
        rw [haction] at happly
        cases happly
      · rename_i haction
        have hrange := of_decide_eq_true hmatch
        rw [haction] at happly ⊢
        rw [if_pos hrange]
        cases happly
        exact ⟨_, rfl⟩
      · cases hmatch

/-- The value is stored if the type of the size can hold it. -/
theorem storesStated_of_size_store {p : Int32 → Prop} (hstore : ∀ v datatype, k.size (k.store (some v) datatype) = some v ↔ p v) :
    k.StoresStated m st ↔ ∀ v, k.States m st v → p v := by
  have hstored : ∀ v, k.States m st v → (k.size (k.migrateSize m st).2.datatype = some v ↔ p v) := by
    intro v hv
    rw [(k.migrateSize_of_stores hv.1 hv.2).2, hstore]
  constructor
  · exact fun h v hv => (hstored v hv).mp (h v hv).1
  · exact fun h v hv => ⟨(hstored v hv).mpr (h v hv), k.comment_of_states hv⟩

end SizeMigrator

/-- A sub-rule for a precision stores the value that it states exactly if the type of the precision can hold it.
-/
theorem storesStated_iff (m : DdlMapSize) (st : SizeState) :
    (numericPrecision.StoresStated m st ↔ ∀ v, numericPrecision.States m st v → 0 ≤ v ∧ v ≤ 255) ∧
      (dtPrecision.StoresStated m st ↔ ∀ v, dtPrecision.States m st v → -32768 ≤ v ∧ v ≤ 32767) := by
  constructor
  · refine numericPrecision.storesStated_of_size_store fun v datatype => ?_
    rw [← uint8_of_int32_iff]
    exact Option.some_inj
  · refine dtPrecision.storesStated_of_size_store fun v datatype => ?_
    rw [← int16_of_int32_iff]
    exact Option.some_inj

/-- A precision of 256 that the reader accepts is stored as 0. -/
theorem not_storesStated_assign256 :
    ∃ m, parseMapSize none (.object [("type", .leaf "assign"), ("new_value", .leaf "256")]) [] = .ok m ∧
      (migrateNumericPrecisionSize m fiveDigits).2.datatypeComment = "numeric precision 5 assigned 256".toList ∧
      (migrateNumericPrecisionSize m fiveDigits).2.datatype.numPrec = some 0 ∧
      ¬ numericPrecision.StoresStated m fiveDigits := by
  refine ⟨_, rfl, by decide +kernel, by decide +kernel, fun h => ?_⟩
  have hstored := (h 256 ⟨by decide +kernel, by decide +kernel⟩).1
  exact absurd hstored (by decide +kernel)

end Middle.NormalDdl
