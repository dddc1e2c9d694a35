import Middle.NormalDdl.PrecisionScale

/-! What the second loop over the sub-rules of a `precision_scale` rule comes to. It starts behind the sub-rule
that rejected the column, which need not be the last one for the precision. -/

namespace Middle.NormalDdl

open Lib Universals MiddleApp DdlMapSize

/-- All that is left for the second loop, when it is entered, is for the scale, and its assertion holds. -/
def SeesScalesOnly (mapSizes : List DdlMapSize) (st : SizeState) : Prop :=
  ((migratePrecisionSizes mapSizes st).1 = true →
      ∀ m ∈ (migratePrecisionSizes mapSizes st).2.2, scaleMapSizeType m.mapSizeType = true) ∧
    ∀ st', migratePrecisionScale mapSizes st ≠ .error .assertion st'

/-- If the first sub-rule that matches the precision of a column rejects it, it is the last one for the
precision. -/
def RejectsLast (mapSizes : List DdlMapSize) (st : SizeState) : Prop :=
  applyFirst false (precisionSizes mapSizes) (numericPrecision.size st.datatype) = none →
    behindFirst false (precisionSizes mapSizes) (numericPrecision.size st.datatype) = []

section Split

variable {precisions scales : List DdlMapSize}
  (hprecisions : ∀ m ∈ precisions, scaleMapSizeType m.mapSizeType = false)
  (hscales : ∀ m ∈ scales, scaleMapSizeType m.mapSizeType = true)

include hprecisions hscales

/-- A column that no sub-rule for the precision rejects does not come to the second loop. -/
theorem seesScalesOnly_of_kept {st : SizeState} {size : Option Int32}
    (h : applyFirst false precisions (numericPrecision.size st.datatype) = some size) :
    SeesScalesOnly (precisions ++ scales) st := by
  obtain ⟨st', rest, hrun, -⟩ := migratePrecisionSizes_of_kept hprecisions hscales st h
  constructor
  · intro hrejected
    rw [hrun] at hrejected
    cases hrejected
  · intro st'' hassert
    rw [migratePrecisionScale, hrun] at hassert
    cases hassert

/-- A column that is rejected comes to it behind the sub-rule that rejects. -/
theorem seesScalesOnly_iff_of_rejects {st : SizeState}
    (h : applyFirst false precisions (numericPrecision.size st.datatype) = none) :
    SeesScalesOnly (precisions ++ scales) st ↔
      behindFirst false precisions (numericPrecision.size st.datatype) = [] := by
  constructor
  · intro hsees
    by_contra hbehind
    obtain ⟨st', hassert⟩ := migratePrecisionScale_of_behind hprecisions st h hbehind
    exact hsees.2 st' hassert
  · intro hlast
    obtain ⟨st', hrun, -⟩ := migratePrecisionSizes_of_rejects scales hprecisions st h
    obtain ⟨st'', hok, -⟩ := migratePrecisionScale_of_rejects hprecisions hscales st h hlast
    constructor
    · intro _
      rw [hrun, hlast, List.nil_append]
      exact hscales
    · intro st''' hassert
      cases hok.symm.trans hassert

end Split

/-- With sub-rules that the reader accepts, the second loop sees only sub-rules for the scale exactly if no
sub-rule for the precision stands behind one that rejects the column. -/
theorem seesScalesOnly_iff {pastEnd : Option (Text × Ptree)} {prefTree : Ptree} {prefPath : Text}
    {mapSizes : List DdlMapSize} (hparse : parseMapSizes pastEnd prefTree prefPath = .ok mapSizes) (st : SizeState) :
    SeesScalesOnly mapSizes st ↔ RejectsLast mapSizes st := by
  have hscales := scaleSizesLast_split (scaleSizesLast_of_parseMapSizes hparse)
  have hprecisions : ∀ m ∈ precisionSizes mapSizes, scaleMapSizeType m.mapSizeType = false := by
    intro m hm
    simpa using List.mem_takeWhile_imp hm
  have hsplit : precisionSizes mapSizes ++ scaleSizes mapSizes = mapSizes := List.takeWhile_append_dropWhile
  unfold RejectsLast
  cases h : applyFirst false (precisionSizes mapSizes) (numericPrecision.size st.datatype) with
  | some size =>
      have hsees := seesScalesOnly_of_kept hprecisions hscales h
      rw [hsplit] at hsees
      exact iff_of_true hsees fun hnone => by cases hnone
  | none =>
      have hsees := seesScalesOnly_iff_of_rejects hprecisions hscales h
      rw [hsplit] at hsees
      rw [hsees]
      exact ⟨fun hlast _ => hlast, fun hlast => hlast rfl⟩

/-- A list of sub-rules that have a type alone. -/
def mapSizesTree (types : List String) : Ptree :=
  .object (types.map fun t => ("", .object [("type", .leaf t)]))

/-- The sub-rule that rejects is the last one for the precision. -/
theorem seesScalesOnly_reject :
    ∃ mapSizes, parseMapSizes none (mapSizesTree ["reject_defined", "scale_suppress"]) [] = .ok mapSizes ∧
      SeesScalesOnly mapSizes fiveDigits := by
  have hparse : parseMapSizes none (mapSizesTree ["reject_defined", "scale_suppress"]) [] = .ok _ := rfl
  exact ⟨_, hparse, (seesScalesOnly_iff hparse fiveDigits).mpr fun _ => by decide +kernel⟩

/-- A sub-rule for the precision behind the one that rejects trips the assertion. -/
theorem not_seesScalesOnly_reject_suppress :
    ∃ mapSizes, parseMapSizes none (mapSizesTree ["reject_defined", "suppress"]) [] = .ok mapSizes ∧
      ¬ SeesScalesOnly mapSizes fiveDigits := by
  refine ⟨_, rfl, fun h => ?_⟩
  have hassert : migratePrecisionScale [{ mapSizeType := .rejectDefined }, { mapSizeType := .suppress }] fiveDigits =
      .error .assertion _ := rfl
  exact h.2 _ hassert

end Middle.NormalDdl
