import Middle.MiddleApp.PrefsCursor

/-! The trees that `parse_datatype_rule` accepts, and the rules it reads from them. Fields stand in a fixed order,
and all but the type may be left out. -/

namespace Middle.MiddleApp

open Lib Universals NormalDdl

/-! ### What is accepted -/

/-- The name of a type of rules in the preferences. -/
def datatypeRuleTypeName : DdlDatatypeRuleType → String
  | .rejected => "rejected"
  | .unsized => "unsized"
  | .charLength => "char_length"
  | .precisionScale => "precision_scale"
  | .dtPrecision => "dt_precision"

/-- The name of a type of sub-rules. -/
def mapSizeTypeName : DdlMapSizeType → String
  | .rejectDefined => "reject_defined"
  | .suppress => "suppress"
  | .narrow => "narrow"
  | .assign => "assign"
  | .assignUndefined => "assign_undefined"
  | .rejectUndefined => "reject_undefined"
  | .scaleRejectDefined => "scale_reject_defined"
  | .scaleSuppress => "scale_suppress"
  | .scaleNarrow => "scale_narrow"
  | .scaleAssign => "scale_assign"
  | .scaleAssignUndefined => "scale_assign_undefined"
  | .scaleRejectUndefined => "scale_reject_undefined"

/-- The children for a field that may be left out, and its value. -/
inductive OptionalField {α : Type} (name : String) (IsValue : Ptree → α → Prop) (default : α) :
    List (Text × Ptree) → α → Prop
  | absent : OptionalField name IsValue default [] default
  | present {t : Ptree} {value : α} (h : IsValue t value) :
      OptionalField name IsValue default [(name.toList, t)] value

def IsInt32 (t : Ptree) (value : Int32) : Prop := t.int32Value = some value

def IsNonemptyString (t : Ptree) (value : Text) : Prop := t = .node value [] ∧ value ≠ []

/-- The node of a sub-rule. -/
def IsMapSize (t : Ptree) (mapSize : DdlMapSize) : Prop :=
  ∃ rangeMin rangeMax newValue,
    t.children =
        ("type".toList, .leaf (mapSizeTypeName mapSize.mapSizeType)) :: (rangeMin ++ (rangeMax ++ newValue)) ∧
      OptionalField "range_min" IsInt32 Int32.minValue rangeMin mapSize.rangeMin ∧
      OptionalField "range_max" IsInt32 Int32.maxValue rangeMax mapSize.rangeMax ∧
      OptionalField "new_value" IsInt32 0 newValue mapSize.newValue

/-- The node of a list of sub-rules. -/
def IsMapSizes (t : Ptree) (mapSizes : List DdlMapSize) : Prop :=
  mapSizes ≠ [] ∧ List.Forall₂ (fun child mapSize => IsMapSize child.2 mapSize) t.children mapSizes ∧
    mapSizes.Pairwise fun m m' => scaleMapSizeType m.mapSizeType = true → scaleMapSizeType m'.mapSizeType = true

/-- The node of a rule. -/
def IsDatatypeRule (t : Ptree) (rule : DdlDatatypeRule) : Prop :=
  ∃ mapName mapSizes,
    t.children = ("type".toList, .leaf (datatypeRuleTypeName rule.datatypeRuleType)) :: (mapName ++ mapSizes) ∧
      OptionalField "map_name" IsNonemptyString [] mapName rule.mapName ∧
      OptionalField "map_sizes" IsMapSizes [] mapSizes rule.mapSizes

/-! ### Types -/

/-- A value that is looked up in a chain of comparisons is found by one of them. -/
theorem of_ite_eq_ok {α : Type} {p Q : Prop} [Decidable p] {a b : α} {x : Except Fault α}
    (h : (if p then .ok a else x) = .ok b) (hfound : p → a = b → Q) (hrest : x = .ok b → Q) : Q := by
  by_cases hp : p
  · rw [if_pos hp] at h
    exact hfound hp (Except.ok.inj h)
  · rw [if_neg hp] at h
    exact hrest h

theorem parseDatatypeRuleType_eq_ok_iff {value prefPath : Text} {ruleType : DdlDatatypeRuleType} :
    parseDatatypeRuleType value prefPath = .ok ruleType ↔ value = (datatypeRuleTypeName ruleType).toList := by
  constructor
  · intro h
    unfold parseDatatypeRuleType at h
    iterate 5
      refine of_ite_eq_ok h (by rintro hvalue rfl; exact hvalue) ?_
      clear h
      intro h
    cases h
  · rintro rfl
    cases ruleType <;> rfl

theorem parseMapSizeType_eq_ok_iff {value prefPath : Text} {mapSizeType : DdlMapSizeType} :
    parseMapSizeType value prefPath = .ok mapSizeType ↔ value = (mapSizeTypeName mapSizeType).toList := by
  constructor
  · intro h
    unfold parseMapSizeType at h
    iterate 12
      refine of_ite_eq_ok h (by rintro hvalue rfl; exact hvalue) ?_
      clear h
      intro h
    cases h
  · rintro rfl
    cases mapSizeType <;> rfl

/-! ### Fields -/

section Fields

variable {c : PtreeCursor} {name : Text} {t : Ptree} {rest : List (Text × Ptree)}

theorem getInt32_eq_ok_iff (h : c.rest = (name, t) :: rest) {value : Int32} :
    c.getInt32 none = .ok value ↔ IsInt32 t value := by
  unfold PtreeCursor.getInt32 PtreeCursor.checkName IsInt32
  rw [PtreeCursor.deref_eq h]
  dsimp only [bind, Except.bind, pure, Except.pure]
  cases t.int32Value with
  | none => simp [throw, throwThe, MonadExceptOf.throw]
  | some found => simp

theorem getNonemptyString_eq_ok_iff (h : c.rest = (name, t) :: rest) {value : Text} :
    c.getNonemptyString none = .ok value ↔ IsNonemptyString t value := by
  have hname : name = (String.ofList name).toList := (String.toList_ofList).symm
  have hcheck : c.checkName none "string value" (some (String.ofList name)) = .ok () :=
    (PtreeCursor.checkName_eq_ok_iff h _ _).mpr hname
  have hnamed : c.getNonemptyString none = c.getNonemptyString none (some (String.ofList name)) := by
    unfold PtreeCursor.getNonemptyString PtreeCursor.getString
    rw [hcheck]
    rfl
  rw [hnamed, PtreeCursor.getNonemptyString_eq_ok_iff h, and_iff_right hname]
  rfl

theorem getChild_eq_ok_iff (h : c.rest = (name, t) :: rest) (expected : String) {child : Ptree} :
    c.getChild none (some expected) = .ok child ↔ name = expected.toList ∧ child = t ∧ t.children ≠ [] := by
  constructor
  · intro hchild
    obtain ⟨rfl, hne⟩ := PtreeCursor.children_of_getChild h hchild
    unfold PtreeCursor.getChild at hchild
    obtain ⟨u, hname, -⟩ := bind_eq_ok.mp hchild
    exact ⟨(PtreeCursor.checkName_eq_ok_iff h _ _).mp hname, rfl, hne⟩
  · rintro ⟨hname, rfl, hne⟩
    have hcheck : c.checkName none "node" (some expected) = .ok () :=
      (PtreeCursor.checkName_eq_ok_iff h _ _).mpr hname
    unfold PtreeCursor.getChild
    rw [hcheck, PtreeCursor.deref_eq h]
    dsimp only [bind, Except.bind, pure, Except.pure]
    rw [if_neg (by simpa using hne)]

/-- Behind an optional field the cursor stands in front of the fields that follow. -/
theorem optionalField_of_parseOptionalInt32 {field : String} {default value : Int32} {c' : PtreeCursor}
    (h : parseOptionalInt32 none c field default = .ok (value, c')) :
    ∃ fields, OptionalField field IsInt32 default fields value ∧ c.rest = fields ++ c'.rest := by
  unfold parseOptionalInt32 at h
  split at h
  · cases h
    exact ⟨[], .absent, rfl⟩
  · rename_i hat
    obtain ⟨name, t, rest, hrest⟩ := exists_rest_of_atNode (by simpa using hat)
    rw [PtreeCursor.name_eq hrest] at h
    dsimp only [bind, Except.bind] at h
    split at h
    · rename_i hname
      obtain ⟨found, hfound, h⟩ := bind_eq_ok.mp h
      cases h
      refine ⟨[(name, t)], ?_, hrest.trans (congrArg _ (PtreeCursor.rest_next hrest).symm)⟩
      rw [hname]
      exact .present ((getInt32_eq_ok_iff hrest).mp hfound)
    · cases h
      exact ⟨[], .absent, rfl⟩

/-- An optional field is read when what follows it has another name. -/
theorem parseOptionalInt32_of_optionalField {field : String} {default value : Int32}
    {fields behind : List (Text × Ptree)} (h : OptionalField field IsInt32 default fields value)
    (hrest : c.rest = fields ++ behind) (hbehind : ∀ t rest, behind ≠ (field.toList, t) :: rest) :
    ∃ c', parseOptionalInt32 none c field default = .ok (value, c') ∧ c'.rest = behind := by
  unfold parseOptionalInt32
  cases h with
  | present hvalue =>
      rename_i t
      have hfield : c.rest = (field.toList, t) :: behind := hrest
      refine ⟨c.next, ?_, PtreeCursor.rest_next hfield⟩
      rw [PtreeCursor.atNode_eq hfield, PtreeCursor.name_eq hfield, (getInt32_eq_ok_iff hfield).mpr hvalue]
      dsimp only [bind, Except.bind, pure, Except.pure]
      rw [if_pos rfl]
      rfl
  | absent =>
      refine ⟨c, ?_, hrest⟩
      cases behind with
      | nil =>
          rw [PtreeCursor.atNode_past hrest]
          rfl
      | cons node behind =>
          have hnode : c.rest = (node.1, node.2) :: behind := hrest
          have hname : node.1 ≠ field.toList := by
            rintro hname
            exact hbehind node.2 behind (by rw [← hname])
          rw [PtreeCursor.atNode_eq hnode, PtreeCursor.name_eq hnode]
          dsimp only [bind, Except.bind, pure, Except.pure]
          rw [if_neg hname]
          rfl

end Fields

/-! ### Sub-rules -/

theorem ne_of_optionalField {α : Type} {field field' : String} {IsValue : Ptree → α → Prop} {default value : α}
    {fields behind : List (Text × Ptree)} (h : OptionalField field' IsValue default fields value)
    (hfield : field'.toList ≠ field.toList) (hbehind : ∀ t rest, behind ≠ (field.toList, t) :: rest) :
    ∀ t rest, fields ++ behind ≠ (field.toList, t) :: rest := by
  intro t rest heq
  cases h with
  | absent => exact hbehind t rest heq
  | present hvalue => exact hfield (Prod.mk.inj (List.cons.inj heq).1).1

theorem parseMapSize_eq_ok_iff {t : Ptree} {prefPath : Text} {mapSize : DdlMapSize} :
    parseMapSize none t prefPath = .ok mapSize ↔ IsMapSize t mapSize := by
  unfold parseMapSize
  dsimp only
  constructor
  · intro h
    split at h
    · cases h
    · rename_i hat
      obtain ⟨name, t', rest, hrest⟩ := exists_rest_of_atNode (by simpa using hat)
      simp only [bind_eq_ok] at h
      obtain ⟨typeName, htypeName, mapSizeType, hmapSizeType, ⟨rangeMin, c₁⟩, hmin, ⟨rangeMax, c₂⟩, hmax,
        ⟨newValue, c₃⟩, hnew, h⟩ := h
      split at h
      · cases h
      · rename_i hend
        cases h
        obtain ⟨rfl, rfl⟩ := (PtreeCursor.getString_eq_ok_iff hrest _).mp htypeName
        obtain rfl := parseMapSizeType_eq_ok_iff.mp hmapSizeType
        obtain ⟨minFields, hminFields, hrest₁⟩ := optionalField_of_parseOptionalInt32 hmin
        obtain ⟨maxFields, hmaxFields, hrest₂⟩ := optionalField_of_parseOptionalInt32 hmax
        obtain ⟨newFields, hnewFields, hrest₃⟩ := optionalField_of_parseOptionalInt32 hnew
        have hlast : c₃.rest = [] := by simpa [PtreeCursor.atNode] using hend
        refine ⟨minFields, maxFields, newFields, ?_, hminFields, hmaxFields, hnewFields⟩
        have hchildren : t.children = _ :: (PtreeCursor.ofTree t prefPath).next.rest :=
          hrest.trans (congrArg _ (PtreeCursor.rest_next hrest).symm)
        rw [hchildren, hrest₁, hrest₂, hrest₃, hlast, List.append_nil]
        rfl
  · rintro ⟨minFields, maxFields, newFields, hchildren, hminFields, hmaxFields, hnewFields⟩
    have hrest : (PtreeCursor.ofTree t prefPath).rest = (_, _) :: _ := hchildren
    rw [← List.append_nil newFields] at hrest
    have hnewBehind {field : String} (hfield : "new_value".toList ≠ field.toList) :
        ∀ t rest, newFields ++ [] ≠ (field.toList, t) :: rest :=
      ne_of_optionalField hnewFields hfield fun _ _ h => by cases h
    obtain ⟨c₁, hmin, hrest₁⟩ := parseOptionalInt32_of_optionalField hminFields (PtreeCursor.rest_next hrest)
      (ne_of_optionalField hmaxFields (by decide) (hnewBehind (by decide)))
    obtain ⟨c₂, hmax, hrest₂⟩ :=
      parseOptionalInt32_of_optionalField hmaxFields hrest₁ (hnewBehind (by decide))
    obtain ⟨c₃, hnew, hrest₃⟩ :=
      parseOptionalInt32_of_optionalField hnewFields hrest₂ fun _ _ h => by cases h
    rw [PtreeCursor.atNode_eq hrest, (PtreeCursor.getString_eq_ok_iff hrest "type").mpr ⟨rfl, rfl⟩]
    dsimp only [bind, Except.bind, pure, Except.pure]
    rw [parseMapSizeType_eq_ok_iff.mpr rfl]
    dsimp only
    rw [hmin]
    dsimp only
    rw [hmax]
    dsimp only
    rw [hnew]
    dsimp only
    rw [PtreeCursor.atNode_past hrest₃]
    rfl

theorem IsMapSize.children_ne_nil {t : Ptree} {mapSize : DdlMapSize} (h : IsMapSize t mapSize) :
    t.children ≠ [] := by
  obtain ⟨_, _, _, hchildren, -⟩ := h
  rw [hchildren]
  exact List.cons_ne_nil _ _

theorem scaleSizesLast_iff (mapSizes : List DdlMapSize) :
    scaleSizesLast mapSizes = true ↔
      mapSizes.Pairwise fun m m' =>
        scaleMapSizeType m.mapSizeType = true → scaleMapSizeType m'.mapSizeType = true := by
  induction mapSizes with
  | nil => exact iff_of_true rfl .nil
  | cons m mapSizes ih =>
      unfold scaleSizesLast
      rw [List.pairwise_cons]
      by_cases hscale : scaleMapSizeType m.mapSizeType = true
      · rw [if_pos hscale, List.all_eq_true]
        constructor
        · intro hall
          exact ⟨fun m' hm' _ => hall m' hm', List.pairwise_of_forall_mem_list fun _ _ m' hm' _ => hall m' hm'⟩
        · exact fun h m' hm' => h.1 m' hm' hscale
      · rw [if_neg hscale, ih]
        exact ⟨fun h => ⟨fun _ _ hm => absurd hm hscale, h⟩, fun h => h.2⟩

theorem parseMapSizesFrom_eq_ok_iff {c : PtreeCursor} {nodes : List (Text × Ptree)} (h : c.rest = nodes)
    {mapSizes : List DdlMapSize} :
    parseMapSizesFrom none c nodes = .ok mapSizes ↔
      List.Forall₂ (fun child mapSize => IsMapSize child.2 mapSize) nodes mapSizes := by
  induction nodes generalizing c mapSizes with
  | nil =>
      rw [List.forall₂_nil_left_iff]
      exact ⟨fun hok => by cases hok; rfl, fun hnil => by rw [hnil]; rfl⟩
  | cons node nodes ih =>
      have hnode : c.rest = (node.1, node.2) :: nodes := h
      unfold parseMapSizesFrom
      simp only [bind_eq_ok, parseMapSize_eq_ok_iff, ih (PtreeCursor.rest_next hnode), List.forall₂_cons_left_iff]
      constructor
      · rintro ⟨child, hchild, mapSize, hmapSize, rest, hrest, hok⟩
        cases hok
        rw [(PtreeCursor.children_of_getChild hnode hchild).1] at hmapSize
        exact ⟨mapSize, rest, hmapSize, hrest, rfl⟩
      · rintro ⟨mapSize, rest, hmapSize, hrest, rfl⟩
        have hchild := PtreeCursor.getChild_eq_ok hnode hmapSize.children_ne_nil
        exact ⟨node.2, hchild, mapSize, hmapSize, rest, hrest, rfl⟩

theorem IsMapSizes.children_ne_nil {t : Ptree} {mapSizes : List DdlMapSize} (h : IsMapSizes t mapSizes) :
    t.children ≠ [] := by
  intro hnil
  have hforall := h.2.1
  rw [hnil, List.forall₂_nil_left_iff] at hforall
  exact h.1 hforall

theorem parseMapSizes_eq_ok_iff {t : Ptree} {prefPath : Text} {mapSizes : List DdlMapSize} :
    parseMapSizes none t prefPath = .ok mapSizes ↔ IsMapSizes t mapSizes := by
  unfold parseMapSizes IsMapSizes
  dsimp only
  constructor
  · intro h
    split at h
    · cases h
    · rename_i hat
      obtain ⟨sizes, hsizes, h⟩ := bind_eq_ok.mp h
      split at h
      · cases h
      · rename_i hlast
        cases h
        have hforall := (parseMapSizesFrom_eq_ok_iff rfl).mp hsizes
        refine ⟨?_, hforall, (scaleSizesLast_iff _).mp (by simpa using hlast)⟩
        rintro rfl
        have hnil : (PtreeCursor.ofTree t prefPath true).rest = [] := List.forall₂_nil_right_iff.mp hforall
        exact hat (by rw [PtreeCursor.atNode_past hnil]; rfl)
  · rintro ⟨hne, hforall, hlast⟩
    obtain ⟨⟨name, child⟩, nodes, hnode⟩ :=
      List.exists_cons_of_ne_nil (IsMapSizes.children_ne_nil ⟨hne, hforall, hlast⟩)
    have hat : (PtreeCursor.ofTree t prefPath true).atNode = true := PtreeCursor.atNode_eq hnode
    rw [hat, Bool.not_true, if_neg Bool.false_ne_true]
    refine bind_eq_ok.mpr ⟨mapSizes, (parseMapSizesFrom_eq_ok_iff rfl).mpr hforall, ?_⟩
    rw [(scaleSizesLast_iff mapSizes).mpr hlast]
    rfl

/-! ### Rules -/

theorem readMapSizes_eq_ok_iff {c : PtreeCursor} {name : Text} {t : Ptree} {rest : List (Text × Ptree)}
    (h : c.rest = (name, t) :: rest) (prefPath : Text) (rule : List DdlMapSize → DdlDatatypeRule)
    {r : DdlDatatypeRule} :
    readMapSizes c prefPath rule = .ok r ↔
      name = "map_sizes".toList ∧ rest = [] ∧ ∃ mapSizes, IsMapSizes t mapSizes ∧ rule mapSizes = r := by
  unfold readMapSizes
  rw [bind_eq_ok]
  simp only [getChild_eq_ok_iff h]
  constructor
  · rintro ⟨mapSizesNode, ⟨hname, rfl, hne⟩, h'⟩
    split at h'
    · cases h'
    · rename_i hend
      obtain ⟨mapSizes, hmapSizes, h'⟩ := bind_eq_ok.mp h'
      cases h'
      refine ⟨hname, ?_, mapSizes, parseMapSizes_eq_ok_iff.mp hmapSizes, rfl⟩
      simpa [PtreeCursor.atNode, PtreeCursor.rest_next h] using hend
  · rintro ⟨hname, hrest, mapSizes, hmapSizes, hrule⟩
    refine ⟨t, ⟨hname, rfl, hmapSizes.children_ne_nil⟩, ?_⟩
    rw [PtreeCursor.atNode_past ((PtreeCursor.rest_next h).trans hrest), if_neg Bool.false_ne_true]
    exact bind_eq_ok.mpr ⟨mapSizes, parseMapSizes_eq_ok_iff.mpr hmapSizes, congrArg Except.ok hrule⟩

theorem parseDatatypeRule_eq_ok_iff {t : Ptree} (ht : t.children ≠ []) {prefPath : Text} {rule : DdlDatatypeRule} :
    parseDatatypeRule none t prefPath = .ok rule ↔ IsDatatypeRule t rule := by
  obtain ⟨node, nodes, hnode⟩ := List.exists_cons_of_ne_nil ht
  have hrest : (PtreeCursor.ofTree t prefPath).rest = (node.1, node.2) :: nodes := hnode
  unfold parseDatatypeRule IsDatatypeRule
  dsimp only
  simp only [bind_eq_ok, PtreeCursor.getString_eq_ok_iff hrest, parseDatatypeRuleType_eq_ok_iff]
  constructor
  · rintro ⟨typeName, ⟨hname, htype⟩, ruleType, rfl, h⟩
    have hhead : t.children = ("type".toList, .leaf (datatypeRuleTypeName ruleType)) :: nodes := by
      rw [hnode, ← hname]
      exact congrArg (fun t => (node.1, t) :: nodes) htype
    split at h
    · rename_i hend
      cases h
      have hnil : nodes = [] := by
        simpa [PtreeCursor.atNode, PtreeCursor.rest_next hrest] using hend
      exact ⟨[], [], by rw [hhead, hnil]; rfl, .absent, .absent⟩
    · rename_i hat
      obtain ⟨name, t', rest, hrest'⟩ := exists_rest_of_atNode (by simpa using hat)
      have hnodes : nodes = (name, t') :: rest := (PtreeCursor.rest_next hrest).symm.trans hrest'
      simp only [bind_eq_ok, PtreeCursor.name_eq hrest'] at h
      obtain ⟨_, ⟨⟩, h⟩ := h
      split at h
      · rename_i hmapNameField
        simp only [bind_eq_ok, getNonemptyString_eq_ok_iff hrest'] at h
        obtain ⟨mapName, hmapName, h⟩ := h
        split at h
        · rename_i hend
          cases h
          have hnil : rest = [] := by
            simpa [PtreeCursor.atNode, PtreeCursor.rest_next hrest'] using hend
          refine ⟨[(name, t')], [], by rw [hhead, hnodes, hnil]; rfl, ?_, .absent⟩
          rw [hmapNameField]
          exact .present hmapName
        · rename_i hat'
          obtain ⟨name', t'', rest', hrest''⟩ := exists_rest_of_atNode (by simpa using hat')
          have hrest : rest = (name', t'') :: rest' := (PtreeCursor.rest_next hrest').symm.trans hrest''
          obtain ⟨rfl, rfl, mapSizes, hmapSizes, rfl⟩ :=
            (readMapSizes_eq_ok_iff hrest'' _ fun mapSizes => ⟨ruleType, mapName, mapSizes⟩).mp h
          refine ⟨[(name, t')], _, by rw [hhead, hnodes, hrest]; rfl, ?_, .present hmapSizes⟩
          rw [hmapNameField]
          exact .present hmapName
      · obtain ⟨_, ⟨⟩, h⟩ := bind_eq_ok.mp h
        obtain ⟨rfl, rfl, mapSizes, hmapSizes, rfl⟩ :=
          (readMapSizes_eq_ok_iff hrest' _ fun mapSizes => ⟨ruleType, [], mapSizes⟩).mp h
        exact ⟨[], _, by rw [hhead, hnodes]; rfl, .absent, .present hmapSizes⟩
  · rintro ⟨mapNameFields, mapSizesFields, hchildren, hmapName, hmapSizes⟩
    obtain ⟨rfl, rfl⟩ := List.cons.inj (hnode.symm.trans hchildren)
    refine ⟨_, ⟨rfl, rfl⟩, rule.datatypeRuleType, rfl, ?_⟩
    generalize hcursor : (PtreeCursor.ofTree t prefPath).next = c
    have hfields : c.rest = mapNameFields ++ mapSizesFields := by rw [← hcursor, PtreeCursor.rest_next hrest]
    clear hcursor hrest hnode hchildren
    obtain ⟨ruleType, mapName, mapSizes⟩ := rule
    cases hmapName with
    | absent =>
        cases hmapSizes with
        | absent =>
            rw [PtreeCursor.atNode_past hfields]
            rfl
        | present hmapSizes =>
            rw [PtreeCursor.atNode_eq hfields, Bool.not_true, if_neg Bool.false_ne_true]
            refine bind_eq_ok.mpr ⟨_, PtreeCursor.name_eq hfields, ?_⟩
            have hname : "map_sizes".toList ≠ "map_name".toList := by decide
            simp only [if_neg hname]
            refine bind_eq_ok.mpr ⟨[], rfl, ?_⟩
            rw [PtreeCursor.atNode_eq hfields, Bool.not_true, if_neg Bool.false_ne_true]
            exact (readMapSizes_eq_ok_iff hfields _ fun mapSizes => ⟨ruleType, [], mapSizes⟩).mpr
              ⟨rfl, rfl, _, hmapSizes, rfl⟩
    | present hmapName =>
        rename_i t'
        rw [PtreeCursor.atNode_eq hfields, Bool.not_true, if_neg Bool.false_ne_true]
        refine bind_eq_ok.mpr ⟨_, PtreeCursor.name_eq hfields, ?_⟩
        simp only [reduceIte]
        refine bind_eq_ok.mpr ⟨_, (getNonemptyString_eq_ok_iff hfields).mpr hmapName, ?_⟩
        cases hmapSizes with
        | absent =>
            rw [PtreeCursor.atNode_past (PtreeCursor.rest_next hfields)]
            rfl
        | present hmapSizes =>
            rw [PtreeCursor.atNode_eq (PtreeCursor.rest_next hfields), Bool.not_true, if_neg Bool.false_ne_true]
            exact (readMapSizes_eq_ok_iff (PtreeCursor.rest_next hfields) _ fun mapSizes =>
              ⟨ruleType, mapName, mapSizes⟩).mpr ⟨rfl, rfl, _, hmapSizes, rfl⟩

/-- A rule is read from the trees of its structure and from no others, for which the error of the preferences is
thrown. -/
theorem parseDatatypeRule_isDatatypeRule {t : Ptree} (ht : t.children ≠ []) (prefPath : Text) :
    (∀ rule, parseDatatypeRule none t prefPath = .ok rule ↔ IsDatatypeRule t rule) ∧
      ((∀ rule, ¬ IsDatatypeRule t rule) → ∃ what, parseDatatypeRule none t prefPath = .error (.prefsError what)) := by
  have hiff : ∀ rule, parseDatatypeRule none t prefPath = .ok rule ↔ IsDatatypeRule t rule :=
    fun _ => parseDatatypeRule_eq_ok_iff ht
  refine ⟨hiff, fun hnone => ?_⟩
  obtain ⟨rule, hrule⟩ | hthrown := returnsOrThrows_parseDatatypeRule ht prefPath
  · exact absurd ((hiff rule).mp hrule) (hnone rule)
  · exact hthrown

/-- `varchar` of at most 255 characters. -/
def narrowedVarcharTree : Ptree := .object
  [("type", .leaf "char_length"), ("map_name", .leaf "varchar"),
    ("map_sizes", .object [("", .object [("type", .leaf "narrow"), ("range_max", .leaf "255")])])]

theorem parseDatatypeRule_isDatatypeRule_narrowedVarchar :
    narrowedVarcharTree.children ≠ [] ∧
      IsDatatypeRule narrowedVarcharTree ⟨.charLength, "varchar".toList, [⟨.narrow, Int32.minValue, 255, 0⟩]⟩ :=
  ⟨by decide, ((parseDatatypeRule_isDatatypeRule (by decide) []).1 _).mp rfl⟩

end Middle.MiddleApp
