import Middle.Lib.Lines
import Middle.NormalDdl.AcceptedColumns
import Middle.NormalDdl.StnamesMigratorBase

/-! The sizes that are written behind the name of a data type, once its column has been accepted: a length, or a
precision with a scale that is not 0, and never the precision of a datetime. -/

namespace Middle.NormalDdl

open Lib Universals MiddleApp

open DdlMapSize

/-! ### The printer -/

/-- The text of a size. -/
def sizeText (size : Int) : Text := (toString size).toList

theorem sizeText_natCast (n : Nat) : sizeText n = lexicalCast n := rfl

theorem sizeText_toInt (n : Int32) : sizeText n.toInt = lexicalCastInt32 n := rfl

/-- Sizes in parentheses, unless there are none. -/
def sizesDdl (sizes : List Int) : Text :=
  if sizes = [] then [] else "(".toList ++ List.intercalate [','] (sizes.map sizeText) ++ ")".toList

theorem sizeText_injective : Function.Injective sizeText := by
  intro size size' h
  exact Int.repr_injective (String.toList_injective h)

theorem comma_notMem_sizeText (size : Int) : ',' ∉ sizeText size := by
  intro hmem
  cases size with
  | ofNat n => exact absurd (isDigit_of_mem_lexicalCast (n := n) hmem) (by decide)
  | negSucc n =>
      have hsign : sizeText (.negSucc n) = "-".toList ++ lexicalCast (n + 1) := String.toList_append
      rw [hsign] at hmem
      rcases List.mem_append.mp hmem with hc | hc
      · exact absurd hc (by decide)
      · exact absurd (isDigit_of_mem_lexicalCast hc) (by decide)

theorem sizesDdl_injective : Function.Injective sizesDdl := by
  intro sizes sizes' h
  unfold sizesDdl at h
  have hread : ∀ sizes : List Int, sizes ≠ [] →
      (List.intercalate [','] (sizes.map sizeText)).splitOn ',' = sizes.map sizeText := by
    intro sizes hne
    refine List.splitOn_intercalate _ ?_ (by simpa using hne)
    intro text htext
    obtain ⟨size, -, rfl⟩ := List.mem_map.mp htext
    exact comma_notMem_sizeText size
  by_cases hnil : sizes = [] <;> by_cases hnil' : sizes' = []
  · rw [hnil, hnil']
  · simp [hnil, hnil'] at h
  · simp [hnil, hnil'] at h
  · rw [if_neg hnil, if_neg hnil'] at h
    have hbetween := List.append_cancel_left (List.append_cancel_right h)
    rw [← List.map_inj_right sizeText_injective, ← hread sizes hnil, ← hread sizes' hnil', hbetween]

namespace DdlDatatype

/-- The sizes that are written for a data type that has a length or a precision. -/
def writtenSizes (datatype : DdlDatatype) : List Int :=
  match datatype.charMaxLen, datatype.numPrec with
  | some len, _ => [len.toInt]
  | none, some prec =>
      (prec.toNat : Int) :: if datatype.numScale.getD 0 = 0 then [] else [(datatype.numScale.getD 0).toInt]
  | none, none => []

/-- What the printer asserts of a data type. -/
structure Printable (datatype : DdlDatatype) : Prop where
  octLen : datatype.charMaxLen = none → datatype.charOctLen = none
  scale : datatype.numPrec = none → datatype.numScale.getD 0 = 0
  one : datatype.charMaxLen = none ∨ datatype.numPrec = none

end DdlDatatype

theorem datatypeDdl_of_printable {datatype : DdlDatatype} (h : datatype.Printable) :
    datatypeDdl datatype = .ok (datatype.name.str ++ sizesDdl datatype.writtenSizes) := by
  obtain ⟨hoctLen, hscale, hone⟩ := h
  unfold datatypeDdl charDataLenDdl numDataPrecDdl DdlDatatype.writtenSizes
  cases hlen : datatype.charMaxLen with
  | some len =>
      have hprec : datatype.numPrec = none := hone.resolve_left (hlen ▸ Option.some_ne_none len)
      simp [hprec, hscale hprec, sizesDdl, sizeText_toInt, pure, Except.pure, bind, Except.bind]
  | none =>
      cases hprec : datatype.numPrec with
      | none =>
          simp [hoctLen hlen, hscale hprec, sizesDdl, pure, Except.pure, bind, Except.bind]
      | some prec =>
          by_cases hzero : datatype.numScale.getD 0 = 0
          · simp [hoctLen hlen, hzero, sizesDdl, sizeText_natCast, pure, Except.pure, bind, Except.bind]
          · simp [hoctLen hlen, hzero, sizesDdl, sizeText_natCast, sizeText_toInt, List.intercalate, pure,
              Except.pure, bind, Except.bind]

theorem printable_of_datatypeDdl {datatype : DdlDatatype} {text : Text} (h : datatypeDdl datatype = .ok text) :
    datatype.Printable := by
  unfold datatypeDdl charDataLenDdl numDataPrecDdl at h
  refine ⟨?_, ?_, ?_⟩
  · intro hlen
    by_contra hoctLen
    simp [hlen, hoctLen, bind, Except.bind] at h
  · intro hprec
    by_contra hscale
    cases hlen : datatype.charMaxLen <;> by_cases hoctLen : datatype.charOctLen = none <;>
      simp [hlen, hprec, hscale, hoctLen, bind, Except.bind] at h
  · by_contra hboth
    obtain ⟨hlen, hprec⟩ := not_or.mp hboth
    obtain ⟨len, hlen⟩ := Option.ne_none_iff_exists'.mp hlen
    obtain ⟨prec, hprec⟩ := Option.ne_none_iff_exists'.mp hprec
    simp [hlen, hprec, bind, Except.bind, throw, throwThe, MonadExceptOf.throw] at h

/-! ### What the sub-rules leave to be written -/

namespace SizeMigrator

variable (k : SizeMigrator) {mapSizes : List DdlMapSize} {datatype left : DdlDatatype}

/-- The first sub-rule that matches a size makes another one of it, as the type of the size holds it; without such
a sub-rule it stays as it is. -/
def SizeLeft (mapSizes : List DdlMapSize) (datatype : DdlDatatype) (size : Option Int32) : Prop :=
  match mapSizes.find? fun m => m.matchesSize k.scale (k.size datatype) with
  | none => k.size datatype = size
  | some m => ∃ size', m.applyTo k.scale (k.size datatype) = some size' ∧ k.size (k.store size' datatype) = size

theorem sizeLeft_iff (h : k.leave mapSizes datatype = some left) (size : Option Int32) :
    k.SizeLeft mapSizes datatype size ↔ k.size left = size := by
  unfold leave at h
  unfold SizeLeft
  cases hfind : mapSizes.find? fun m => m.matchesSize k.scale (k.size datatype) with
  | none =>
      rw [hfind] at h
      cases h
      exact Iff.rfl
  | some m =>
      rw [hfind] at h
      obtain ⟨size', happly, rfl⟩ := Option.map_eq_some_iff.mp h
      simp [happly]

theorem eq_or_store_of_leave (h : k.leave mapSizes datatype = some left) :
    left = datatype ∨ ∃ size, left = k.store size datatype := by
  unfold leave at h
  split at h
  · cases h
    exact .inl rfl
  · obtain ⟨size, -, rfl⟩ := Option.map_eq_some_iff.mp h
    exact .inr ⟨size, rfl⟩

end SizeMigrator

/-- A sub-rule that is not for the scale makes no size undefined but by suppressing it. -/
theorem applyTo_eq_some_none_iff {m : DdlMapSize} {size : Option Int32} (h : m.matchesSize false size = true) :
    m.applyTo false size = some none ↔ m.mapSizeType = .suppress := by
  unfold matchesSize at h
  unfold applyTo
  cases htype : m.mapSizeType <;> cases size <;> simp_all [DdlMapSizeType.action]

section Leave

variable {rule : DdlDatatypeRule} {datatype left : DdlDatatype}

/-- The sizes that are left are of the same category. -/
theorem asserted_of_leave (hasserted : datatype.Asserted rule.datatypeRuleType)
    (h : rule.leave datatype = some left) : left.Asserted rule.datatypeRuleType := by
  unfold DdlDatatypeRule.leave at h
  cases htype : rule.datatypeRuleType with
  | rejected => trivial
  | unsized =>
      rw [htype] at h hasserted
      cases h
      exact hasserted
  | charLength =>
      rw [htype] at h hasserted
      rcases charLength.eq_or_store_of_leave h with rfl | ⟨size, rfl⟩
      · exact hasserted
      · exact hasserted
  | precisionScale =>
      rw [htype] at h hasserted
      rcases numericPrecision.eq_or_store_of_leave h with rfl | ⟨size, rfl⟩
      · exact hasserted
      · exact hasserted
  | dtPrecision =>
      rw [htype] at h hasserted
      rcases dtPrecision.eq_or_store_of_leave h with rfl | ⟨size, rfl⟩
      · exact hasserted
      · exact hasserted

end Leave

/-! ### Documented rules -/

/-- Documented rules for a number, a text and a time. -/
def sizedPrefsTree : Ptree :=
  .object [
    ("datatype_rules", .object [
      ("", .object [("type_name", .leaf "INT"), ("datatype", .object [
        ("type", .leaf "precision_scale"),
        ("map_sizes", .object [
          ("", .object [("type", .leaf "suppress")]),
          ("", .object [("type", .leaf "scale_narrow"), ("range_min", .leaf "0"), ("range_max", .leaf "0")])])])]),
      ("", .object [("type_name", .leaf "TIME"), ("datatype", .object [("type", .leaf "dt_precision")])]),
      ("", .object [("type_name", .leaf "TEXT"), ("datatype", .object [
        ("type", .leaf "char_length"), ("map_name", .leaf "blob"),
        ("map_sizes", .object [
          ("", .object [("type", .leaf "assign"), ("range_max", .leaf "-1")]),
          ("", .object [("type", .leaf "assign"), ("range_min", .leaf "256")])])])])]),
    ("default_value_rules", .object [("", .object [("macro_lhs", .leaf "getdate"),
      ("macro_rhs", .leaf "now"), ("macro_args", .object [("argcnt", .leaf "0")])])])]

def intRule : DdlDatatypeRule where
  datatypeRuleType := .precisionScale
  mapSizes := [{ mapSizeType := .suppress }, { mapSizeType := .scaleNarrow, rangeMin := 0, rangeMax := 0 }]

def timeRule : DdlDatatypeRule where
  datatypeRuleType := .dtPrecision

def textRule : DdlDatatypeRule where
  datatypeRuleType := .charLength
  mapName := "blob".toList
  mapSizes := [{ mapSizeType := .assign, rangeMax := -1 }, { mapSizeType := .assign, rangeMin := 256 }]

/-- What is read of them. -/
def sizedPrefs : DdlTableMigratorPrefs where
  datatypeRules := ⟨[(UcString.ofText "INT".toList, intRule), (UcString.ofText "TIME".toList, timeRule),
    (UcString.ofText "TEXT".toList, textRule)], by decide⟩
  defaultValueRules := ⟨[(UcString.ofText "getdate".toList, ⟨"now".toList, some ⟨0, []⟩⟩)], by decide⟩

def textDatatype (n : Int32) : DdlDatatype where
  name := UcString.ofText "TEXT".toList
  charMaxLen := some n

def timeDatatype (n : Int16) : DdlDatatype where
  name := UcString.ofText "TIME".toList
  dtPrec := some n

/-! ### No assertion -/

/-- The sizes of a data type belong to the category of a rule: octets are counted only of a length, and a scale
that is not 0 has a precision. -/
structure DdlDatatype.SizesBelong (datatype : DdlDatatype) (category : DdlDatatypeRuleType) : Prop where
  asserted : datatype.Asserted category
  octLen : datatype.charMaxLen = none → datatype.charOctLen = none
  scale : datatype.numPrec = none → datatype.numScale.getD 0 = 0

/-- The first precision sub-rule that matches suppresses the precision, and there is a scale. -/
def SuppressedBeforeScale (rule : DdlDatatypeRule) (datatype : DdlDatatype) : Prop :=
  rule.datatypeRuleType = .precisionScale ∧ datatype.numScale.getD 0 ≠ 0 ∧
    ∃ m,
      (precisionSizes rule.mapSizes).find? (fun m => m.matchesSize false (numericPrecision.size datatype)) = some m ∧
        m.mapSizeType = .suppress

section Leave

variable {rule : DdlDatatypeRule} {datatype left : DdlDatatype}

theorem numPrec_eq_none_iff_of_leave {mapSizes : List DdlMapSize}
    (h : numericPrecision.leave mapSizes datatype = some left) (hdefined : datatype.numPrec ≠ none) :
    left.numPrec = none ↔ ∃ m,
      mapSizes.find? (fun m => m.matchesSize false (numericPrecision.size datatype)) = some m ∧
        m.mapSizeType = .suppress := by
  have hsize : left.numPrec = none ↔ numericPrecision.size left = none := Option.map_eq_none_iff.symm
  have hdefined' : numericPrecision.size datatype ≠ none := mt Option.map_eq_none_iff.mp hdefined
  rw [hsize, ← numericPrecision.sizeLeft_iff h none]
  change (match mapSizes.find? fun m => m.matchesSize false (numericPrecision.size datatype) with
    | none => _
    | some m => _) ↔ _
  cases hfind : mapSizes.find? fun m => m.matchesSize false (numericPrecision.size datatype) with
  | none => simp [hdefined']
  | some m =>
      have hmatch := List.find?_some hfind
      have hsuppress := applyTo_eq_some_none_iff hmatch
      constructor
      · rintro ⟨size', happly, hnone⟩
        obtain rfl : size' = none := Option.map_eq_none_iff.mp (Option.map_eq_none_iff.mp hnone)
        exact ⟨m, rfl, hsuppress.mp happly⟩
      · rintro ⟨m', hm', htype⟩
        obtain rfl := Option.some.inj hm'
        exact ⟨none, hsuppress.mpr htype, rfl⟩

theorem printable_iff_of_leave (hbelong : datatype.SizesBelong rule.datatypeRuleType)
    (h : rule.leave datatype = some left) : left.Printable ↔ ¬ SuppressedBeforeScale rule datatype := by
  obtain ⟨hasserted, hoctLen, hscale⟩ := hbelong
  have hleft := asserted_of_leave hasserted h
  unfold DdlDatatypeRule.leave at h
  unfold SuppressedBeforeScale
  cases htype : rule.datatypeRuleType with
  | rejected =>
      rw [htype] at h
      cases h
  | unsized =>
      rw [htype] at hleft
      obtain ⟨⟨-, hoctLen'⟩, ⟨hprec, -, hscale'⟩, -⟩ := hleft
      refine iff_of_true ⟨fun _ => hoctLen', fun _ => ?_, .inr hprec⟩ ?_
      · rw [hscale', Option.getD_none]
      · rintro ⟨⟨⟩, -⟩
  | charLength =>
      rw [htype] at h hleft
      obtain ⟨⟨hprec, -, hscale'⟩, -⟩ := hleft
      refine iff_of_true ⟨?_, fun _ => ?_, .inr hprec⟩ ?_
      · rcases charLength.eq_or_store_of_leave h with rfl | ⟨size, rfl⟩
        · exact hoctLen
        · exact fun _ => rfl
      · rw [hscale', Option.getD_none]
      · rintro ⟨⟨⟩, -⟩
  | precisionScale =>
      rw [htype] at h hleft
      obtain ⟨⟨hlen, hoctLen'⟩, -⟩ := hleft
      have hscale' : left.numScale = datatype.numScale := by
        rcases numericPrecision.eq_or_store_of_leave h with rfl | ⟨size, rfl⟩
        · rfl
        · rfl
      by_cases hzero : datatype.numScale.getD 0 = 0
      · refine iff_of_true ⟨fun _ => hoctLen', fun _ => ?_, .inl hlen⟩ ?_
        · rw [hscale', hzero]
        · rintro ⟨-, hne, -⟩
          exact hne hzero
      · have hprec := numPrec_eq_none_iff_of_leave h (mt hscale hzero)
        constructor
        · rintro hprintable ⟨-, -, hsuppress⟩
          exact hzero (hscale' ▸ hprintable.scale (hprec.mpr hsuppress))
        · intro hnot
          refine ⟨fun _ => hoctLen', fun hnone => ?_, .inl hlen⟩
          exact absurd ⟨rfl, hzero, hprec.mp hnone⟩ hnot
  | dtPrecision =>
      rw [htype] at hleft
      obtain ⟨⟨hlen, hoctLen'⟩, hprec, -, hscale'⟩ := hleft
      refine iff_of_true ⟨fun _ => hoctLen', fun _ => ?_, .inl hlen⟩ ?_
      · rw [hscale', Option.getD_none]
      · rintro ⟨⟨⟩, -⟩

end Leave

section Accepted

variable {prefs : DdlTableMigratorPrefs} {fuel : Nat} {defaultValue : Text} {datatype datatype' : DdlDatatype}
  {migration : DdlDatatypeMigration} {rule : DdlDatatypeRule}

/-- An accepted column has the data type that its rule leaves. -/
theorem leave_of_accepted (h : migrateDatatypeDdl prefs fuel defaultValue datatype = .ok migration datatype')
    (haccepted : migration.columnRejected = false) (hfind : prefs.datatypeRules.find datatype.name = some rule) :
    datatype.Asserted rule.datatypeRuleType ∧ ∃ name, rule.leave { datatype with name } = some datatype' := by
  obtain ⟨hrejected, hleft, hasserted⟩ := migrateDatatypeDdl_eq_ok h
  obtain ⟨name, hname⟩ := datatype_mapDatatypeName rule datatype
  unfold DdlTableMigratorPrefs.leave at hrejected hleft
  rw [hfind, Option.bind_some, hname] at hrejected hleft
  refine ⟨hasserted rule hfind, name, ?_⟩
  rw [haccepted] at hrejected
  obtain ⟨left, hleave⟩ := Option.isSome_iff_exists.mp (Option.isNone_eq_false_iff.mp hrejected.symm)
  rw [hleft left hleave]
  exact hleave

/-- Printing an accepted column trips no assertion, unless its precision has been suppressed and its scale has not. -/
theorem datatypeDdl_of_accepted_iff (hfind : prefs.datatypeRules.find datatype.name = some rule)
    (hbelong : datatype.SizesBelong rule.datatypeRuleType)
    (h : migrateDatatypeDdl prefs fuel defaultValue datatype = .ok migration datatype')
    (haccepted : migration.columnRejected = false) :
    (∃ text, datatypeDdl datatype' = .ok text) ↔ ¬ SuppressedBeforeScale rule datatype := by
  obtain ⟨-, name, hleave⟩ := leave_of_accepted h haccepted hfind
  have hbelong' : ({ datatype with name } : DdlDatatype).SizesBelong rule.datatypeRuleType :=
    ⟨hbelong.asserted, hbelong.octLen, hbelong.scale⟩
  have hiff := printable_iff_of_leave hbelong' hleave
  refine Iff.trans ?_ hiff
  constructor
  · rintro ⟨text, htext⟩
    exact printable_of_datatypeDdl htext
  · intro hprintable
    exact ⟨_, datatypeDdl_of_printable hprintable⟩

end Accepted

/-- The documented rule for `INT` suppresses the precision in front of a scale that stays. -/
theorem datatypeDdl_int_11_2 :
    readTableMigratorPrefs none sizedPrefsTree = .ok sizedPrefs ∧
      sizedPrefs.datatypeRules.find (intDatatype 11 2).name = some intRule ∧
      (intDatatype 11 2).SizesBelong intRule.datatypeRuleType ∧
      ∃ migration datatype', migrateDatatypeDdl sizedPrefs 0 [] (intDatatype 11 2) = .ok migration datatype' ∧
        migration.columnRejected = false ∧ datatypeDdl datatype' = .error .assertion := by
  refine ⟨rfl, rfl, ⟨⟨⟨rfl, rfl⟩, rfl⟩, fun _ => rfl, ?_⟩, _, _, rfl, rfl, rfl⟩
  rintro ⟨⟩

theorem datatypeDdl_int_11_0 :
    ∃ migration datatype', migrateDatatypeDdl sizedPrefs 0 [] (intDatatype 11 0) = .ok migration datatype' ∧
      ∃ text, datatypeDdl datatype' = .ok text := by
  have hbelong : (intDatatype 11 0).SizesBelong intRule.datatypeRuleType := by
    refine ⟨⟨⟨rfl, rfl⟩, rfl⟩, fun _ => rfl, ?_⟩
    rintro ⟨⟩
  have hfind : sizedPrefs.datatypeRules.find (intDatatype 11 0).name = some intRule := rfl
  have hrun : migrateDatatypeDdl sizedPrefs 0 [] (intDatatype 11 0) = .ok _ _ := rfl
  refine ⟨_, _, hrun, (datatypeDdl_of_accepted_iff hfind hbelong hrun rfl).mpr ?_⟩
  rintro ⟨-, hne, -⟩
  exact hne rfl

/-! ### Sizes that are 0 -/

/-- The length or the precision that a rule leaves is 0. -/
def LeavesZero (rule : DdlDatatypeRule) (datatype : DdlDatatype) : Prop :=
  rule.datatypeRuleType = .charLength ∧ charLength.SizeLeft rule.mapSizes datatype (some 0) ∨
    rule.datatypeRuleType = .precisionScale ∧
      numericPrecision.SizeLeft (precisionSizes rule.mapSizes) datatype (some 0)

theorem toInt_eq_zero_iff (n : Int32) : n.toInt = 0 ↔ n = 0 := Int32.toInt_inj (y := 0)

/-- A scale that is 0 is not written, a length or a precision is. -/
theorem zero_mem_writtenSizes_iff {datatype : DdlDatatype}
    (h : datatype.charMaxLen = none ∨ datatype.numPrec = none) :
    0 ∈ datatype.writtenSizes ↔ charLength.size datatype = some 0 ∨ numericPrecision.size datatype = some 0 := by
  unfold DdlDatatype.writtenSizes charLength numericPrecision
  cases hlen : datatype.charMaxLen with
  | some len =>
      have hprec := h.resolve_left (hlen ▸ Option.some_ne_none len)
      rw [List.mem_singleton, eq_comm, toInt_eq_zero_iff]
      simp [hlen, hprec]
  | none =>
      cases hprec : datatype.numPrec with
      | none => simp [hlen, hprec]
      | some prec =>
          have hzero : prec.toUInt32.toInt32 = 0 ↔ (prec.toNat : Int) = 0 := by
            rw [← toInt_eq_zero_iff, toInt_of_uint8]
          have hscale : (0 : Int) ∉
              if datatype.numScale.getD 0 = 0 then [] else [(datatype.numScale.getD 0).toInt] := by
            split
            · exact List.not_mem_nil
            · rename_i hne
              rw [List.mem_singleton, eq_comm, toInt_eq_zero_iff]
              exact hne
          rw [List.mem_cons, or_iff_left hscale, eq_comm, ← hzero]
          simp [hlen, hprec]

/-- A data type with such a size can be printed. -/
theorem printable_of_zero {category : DdlDatatypeRuleType} {left : DdlDatatype} (hasserted : left.Asserted category)
    (hcategory : category ≠ .rejected)
    (h : charLength.size left = some 0 ∨ numericPrecision.size left = some 0) : left.Printable := by
  have hlen : charLength.size left = some 0 → left.charMaxLen ≠ none := by
    intro hzero hnone
    cases hnone.symm.trans hzero
  have hprec : numericPrecision.size left = some 0 → left.numPrec ≠ none := by
    intro hzero hnone
    cases (Option.map_eq_none_iff.mpr hnone).symm.trans hzero
  cases category with
  | rejected => exact absurd rfl hcategory
  | unsized =>
      obtain ⟨⟨hnoLen, -⟩, ⟨hnoPrec, -⟩, -⟩ := hasserted
      rcases h with hzero | hzero
      · exact absurd hnoLen (hlen hzero)
      · exact absurd hnoPrec (hprec hzero)
  | charLength =>
      obtain ⟨⟨hnoPrec, -, hnoScale⟩, -⟩ := hasserted
      rcases h with hzero | hzero
      · refine ⟨fun hnone => absurd hnone (hlen hzero), fun _ => ?_, .inr hnoPrec⟩
        rw [hnoScale, Option.getD_none]
      · exact absurd hnoPrec (hprec hzero)
  | precisionScale =>
      obtain ⟨⟨hnoLen, hnoOctLen⟩, -⟩ := hasserted
      rcases h with hzero | hzero
      · exact absurd hnoLen (hlen hzero)
      · exact ⟨fun _ => hnoOctLen, fun hnone => absurd hnone (hprec hzero), .inl hnoLen⟩
  | dtPrecision =>
      obtain ⟨⟨hnoLen, -⟩, ⟨hnoPrec, -⟩⟩ := hasserted
      rcases h with hzero | hzero
      · exact absurd hnoLen (hlen hzero)
      · exact absurd hnoPrec (hprec hzero)

/-- A rule leaves a size that is 0 exactly when one is written. -/
theorem leavesZero_iff {rule : DdlDatatypeRule} {datatype left : DdlDatatype}
    (hasserted : datatype.Asserted rule.datatypeRuleType) (h : rule.leave datatype = some left) :
    LeavesZero rule datatype ↔ left.Printable ∧ 0 ∈ left.writtenSizes := by
  have hleft := asserted_of_leave hasserted h
  have hcategory : rule.datatypeRuleType ≠ .rejected := by
    intro htype
    simp [DdlDatatypeRule.leave, htype] at h
  have hwritten : left.Printable ∧ 0 ∈ left.writtenSizes ↔
      charLength.size left = some 0 ∨ numericPrecision.size left = some 0 := by
    constructor
    · rintro ⟨hprintable, hmem⟩
      exact (zero_mem_writtenSizes_iff hprintable.one).mp hmem
    · intro hzero
      have hprintable := printable_of_zero hleft hcategory hzero
      exact ⟨hprintable, (zero_mem_writtenSizes_iff hprintable.one).mpr hzero⟩
  have hnoChar : left.NoChar → charLength.size left ≠ some 0 := by
    rintro ⟨hlen, -⟩ hzero
    cases hlen.symm.trans hzero
  have hnoNum : left.NoNum → numericPrecision.size left ≠ some 0 := by
    rintro ⟨hprec, -⟩ hzero
    cases (Option.map_eq_none_iff.mpr hprec).symm.trans hzero
  rw [hwritten]
  unfold DdlDatatypeRule.leave at h
  unfold LeavesZero
  cases htype : rule.datatypeRuleType with
  | rejected => exact absurd htype hcategory
  | unsized =>
      rw [htype] at hleft
      simp [hnoChar hleft.1, hnoNum hleft.2.1]
  | charLength =>
      rw [htype] at h hleft
      simp [charLength.sizeLeft_iff h, hnoNum hleft.1]
  | precisionScale =>
      rw [htype] at h hleft
      simp [numericPrecision.sizeLeft_iff h, hnoChar hleft.1]
  | dtPrecision =>
      rw [htype] at hleft
      simp [hnoChar hleft.1, hnoNum hleft.2]

section Accepted

variable {prefs : DdlTableMigratorPrefs} {fuel : Nat} {defaultValue : Text} {datatype datatype' : DdlDatatype}
  {migration : DdlDatatypeMigration} {rule : DdlDatatypeRule}

/-- What is written for an accepted column has no size that is 0 exactly when its rule leaves none. -/
theorem sizesDdl_of_accepted_iff (hfind : prefs.datatypeRules.find datatype.name = some rule)
    (h : migrateDatatypeDdl prefs fuel defaultValue datatype = .ok migration datatype')
    (haccepted : migration.columnRejected = false) :
    (∀ text, datatypeDdl datatype' = .ok text →
        ∃ sizes, text = datatype'.name.str ++ sizesDdl sizes ∧ 0 ∉ sizes) ↔
      ¬ LeavesZero rule datatype := by
  obtain ⟨hasserted, name, hleave⟩ := leave_of_accepted h haccepted hfind
  have hleaves := leavesZero_iff (show ({ datatype with name } : DdlDatatype).Asserted _ from hasserted) hleave
  change LeavesZero rule datatype ↔ _ at hleaves
  rw [hleaves, not_and]
  constructor
  · intro hwritten hprintable
    obtain ⟨sizes, hsizes, hzero⟩ := hwritten _ (datatypeDdl_of_printable hprintable)
    rw [sizesDdl_injective (List.append_cancel_left hsizes)]
    exact hzero
  · intro hzero text htext
    have hprintable := printable_of_datatypeDdl htext
    rw [datatypeDdl_of_printable hprintable] at htext
    exact ⟨_, (Except.ok.inj htext).symm, hzero hprintable⟩

/-- The shipped rule for `TEXT` assigns 0 to a long length, which is written. -/
theorem sizesDdl_text_256 :
    readTableMigratorPrefs none sizedPrefsTree = .ok sizedPrefs ∧
      sizedPrefs.datatypeRules.find (textDatatype 256).name = some textRule ∧
      ∃ migration datatype', migrateDatatypeDdl sizedPrefs 0 [] (textDatatype 256) = .ok migration datatype' ∧
        migration.columnRejected = false ∧
        datatypeDdl datatype' = .ok "BLOB(0)".toList ∧
        ¬ ∃ sizes, "BLOB(0)".toList = datatype'.name.str ++ sizesDdl sizes ∧ 0 ∉ sizes := by
  refine ⟨rfl, rfl, _, _, rfl, rfl, rfl, ?_⟩
  rintro ⟨sizes, hsizes, hzero⟩
  have hsplit : "BLOB".toList ++ sizesDdl [0] = "BLOB".toList ++ sizesDdl sizes := hsizes
  rw [← sizesDdl_injective (List.append_cancel_left hsplit)] at hzero
  exact hzero List.mem_cons_self

theorem sizesDdl_text_100 :
    ∃ migration datatype', migrateDatatypeDdl sizedPrefs 0 [] (textDatatype 100) = .ok migration datatype' ∧
      ∀ text, datatypeDdl datatype' = .ok text →
        ∃ sizes, text = datatype'.name.str ++ sizesDdl sizes ∧ 0 ∉ sizes := by
  have hfind : sizedPrefs.datatypeRules.find (textDatatype 100).name = some textRule := rfl
  have hrun : migrateDatatypeDdl sizedPrefs 0 [] (textDatatype 100) = .ok _ _ := rfl
  refine ⟨_, _, hrun, (sizesDdl_of_accepted_iff hfind hrun rfl).mpr ?_⟩
  rintro (⟨-, hsize⟩ | ⟨⟨⟩, -⟩)
  exact absurd (show some (100 : Int32) = some 0 from hsize) (by decide)

/-! ### The precision of a datetime -/

/-- A precision in parentheses, unless there is none or it is 0. -/
def dtPrecDdl (dtPrec : Option Int16) : Text :=
  if dtPrec.getD 0 = 0 then [] else "(".toList ++ sizeText (dtPrec.getD 0).toInt ++ ")".toList

theorem dtPrecDdl_eq_nil_iff (dtPrec : Option Int16) :
    dtPrecDdl dtPrec = [] ↔ ¬ ∃ size, dtPrec.map Int16.toInt32 = some size ∧ size ≠ 0 := by
  have hzero : ∀ p : Int16, p.toInt32 = 0 ↔ p = 0 := by
    intro p
    rw [← Int32.toInt_inj, Int16.toInt_toInt32]
    exact Int16.toInt_inj (y := 0)
  cases dtPrec with
  | none => simp [dtPrecDdl]
  | some p =>
      by_cases hp : p = 0
      · simp [dtPrecDdl, hp]
      · simp [dtPrecDdl, hp, hzero]

/-- The precision that is left of a datetime is written exactly when none is to be written. -/
theorem dtPrecDdl_of_accepted_iff (hfind : prefs.datatypeRules.find datatype.name = some rule)
    (htype : rule.datatypeRuleType = .dtPrecision)
    (h : migrateDatatypeDdl prefs fuel defaultValue datatype = .ok migration datatype')
    (haccepted : migration.columnRejected = false) :
    datatypeDdl datatype' = .ok (datatype'.name.str ++ dtPrecDdl datatype'.dtPrec) ↔
      ¬ ∃ size, dtPrecision.SizeLeft rule.mapSizes datatype (some size) ∧ size ≠ 0 := by
  obtain ⟨hasserted, name, hleave⟩ := leave_of_accepted h haccepted hfind
  have hleft := asserted_of_leave (show ({ datatype with name } : DdlDatatype).Asserted _ from hasserted) hleave
  unfold DdlDatatypeRule.leave at hleave
  rw [htype] at hleave hleft
  obtain ⟨⟨hlen, hoctLen⟩, hprec, -, hscale⟩ := hleft
  have hprintable : datatype'.Printable := by
    refine ⟨fun _ => hoctLen, fun _ => ?_, .inl hlen⟩
    rw [hscale, Option.getD_none]
  have hsizes : datatype'.writtenSizes = [] := by
    unfold DdlDatatype.writtenSizes
    rw [hlen, hprec]
  have hleaves := dtPrecision.sizeLeft_iff
    (show dtPrecision.leave rule.mapSizes { datatype with name } = some datatype' from hleave)
  change ∀ size, dtPrecision.SizeLeft rule.mapSizes datatype size ↔
    datatype'.dtPrec.map Int16.toInt32 = size at hleaves
  rw [datatypeDdl_of_printable hprintable, hsizes, Except.ok.injEq, List.append_cancel_left_eq, eq_comm]
  simp only [hleaves]
  exact dtPrecDdl_eq_nil_iff _

end Accepted

/-- The shipped rule for `TIME` leaves a precision that is not written. -/
theorem dtPrecDdl_time_7 :
    readTableMigratorPrefs none sizedPrefsTree = .ok sizedPrefs ∧
      sizedPrefs.datatypeRules.find (timeDatatype 7).name = some timeRule ∧
      ∃ migration datatype', migrateDatatypeDdl sizedPrefs 0 [] (timeDatatype 7) = .ok migration datatype' ∧
        migration.columnRejected = false ∧ datatype'.dtPrec = some 7 ∧
        dtPrecDdl datatype'.dtPrec = "(7)".toList ∧ datatypeDdl datatype' = .ok "TIME".toList :=
  ⟨rfl, rfl, _, _, rfl, rfl, rfl, rfl, rfl⟩

theorem dtPrecDdl_time_0 :
    ∃ migration datatype', migrateDatatypeDdl sizedPrefs 0 [] (timeDatatype 0) = .ok migration datatype' ∧
      datatypeDdl datatype' = .ok (datatype'.name.str ++ dtPrecDdl datatype'.dtPrec) := by
  have hfind : sizedPrefs.datatypeRules.find (timeDatatype 0).name = some timeRule := rfl
  have hrun : migrateDatatypeDdl sizedPrefs 0 [] (timeDatatype 0) = .ok _ _ := rfl
  refine ⟨_, _, hrun, (dtPrecDdl_of_accepted_iff hfind rfl hrun rfl).mpr ?_⟩
  rintro ⟨size, hsize, hne⟩
  exact hne (Option.some.inj hsize).symm

end Middle.NormalDdl
