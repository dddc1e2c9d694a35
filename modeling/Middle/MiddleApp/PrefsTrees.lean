import Middle.MiddleApp.DatatypeRuleTrees
import Middle.MiddleApp.ValidatedRewrites
import Middle.NormalDdl.FiringRules
import Middle.NormalDdl.MacroRewrite
import Middle.NormalDdl.TableMigrator

/-! The trees that `read_table_migrator_prefs` accepts, the preferences it reads from them, and which preferences
there is a tree for. A rule for a default value is read only with its arguments: without them the reader looks
past the last field. -/

namespace Middle.MiddleApp

open Lib Universals NormalDdl

/-! ### What is accepted -/

/-- The element of the array of data type rules for an entry. -/
def IsTypeNameRule (t : Ptree) (e : UcString × DdlDatatypeRule) : Prop :=
  ∃ typeName datatype,
    t.children = [("type_name".toList, .node typeName []), ("datatype".toList, datatype)] ∧
      typeName ≠ [] ∧ e.1 = .ofText typeName ∧ IsDatatypeRule datatype e.2

/-- The node of the arguments of a macro. -/
def IsMacroArgs (t : Ptree) (macroArgs : DdlDefaultValueRuleMacroArgs) : Prop :=
  ∃ argcnt count rewrite,
    t.children = ("argcnt".toList, argcnt) :: rewrite ∧ IsInt32 argcnt count ∧ 0 ≤ count ∧
      macroArgs.argcnt = count.toInt.toNat ∧
      OptionalField "rewrite" IsNonemptyString [] rewrite macroArgs.rewrite ∧
      (macroArgs.rewrite = [] ∨ ∃ validated, MacroArgsRewriter.rewriteMacroArgs macroArgs .ok = .ok validated)

/-- The element of the array of default value rules for an entry. -/
def IsMacroLhsRule (t : Ptree) (e : UcString × DdlDefaultValueRule) : Prop :=
  ∃ macroLhs macroArgsNode macroArgs,
    t.children = [("macro_lhs".toList, .node macroLhs []), ("macro_rhs".toList, .node e.2.macroRhs []),
        ("macro_args".toList, macroArgsNode)] ∧
      macroLhs ≠ [] ∧ e.1 = .ofText macroLhs ∧ e.2.macroArgs = some macroArgs ∧ IsMacroArgs macroArgsNode macroArgs

/-- An array of rules, no two of them for one key, at a path of the root. -/
def IsRules {ρ : Type} (IsRule : Ptree → UcString × ρ → Prop) (prefPath : String) (prefRoot : Ptree)
    (rules : UnorderedMap UcString ρ) : Prop :=
  ∃ prefTree, prefRoot.child? prefPath.toList = some prefTree ∧ rules.entries ≠ [] ∧
    List.Forall₂ (fun child e => IsRule child.2 e) prefTree.children rules.entries

/-- The tree of preferences. -/
def IsPrefs (prefRoot : Ptree) (prefs : DdlTableMigratorPrefs) : Prop :=
  IsRules IsTypeNameRule "datatype_rules" prefRoot prefs.datatypeRules ∧
    IsRules IsMacroLhsRule "default_value_rules" prefRoot prefs.defaultValueRules

/-! ### Elements -/

theorem IsDatatypeRule.children_ne_nil {t : Ptree} {rule : DdlDatatypeRule} (h : IsDatatypeRule t rule) :
    t.children ≠ [] := by
  obtain ⟨_, _, hchildren, -⟩ := h
  rw [hchildren]
  exact List.cons_ne_nil _ _

theorem IsMacroArgs.children_ne_nil {t : Ptree} {macroArgs : DdlDefaultValueRuleMacroArgs}
    (h : IsMacroArgs t macroArgs) : t.children ≠ [] := by
  obtain ⟨_, _, _, hchildren, -⟩ := h
  rw [hchildren]
  exact List.cons_ne_nil _ _

theorem IsTypeNameRule.children_ne_nil {t : Ptree} {e : UcString × DdlDatatypeRule} (h : IsTypeNameRule t e) :
    t.children ≠ [] := by
  obtain ⟨_, _, hchildren, -⟩ := h
  rw [hchildren]
  exact List.cons_ne_nil _ _

theorem IsMacroLhsRule.children_ne_nil {t : Ptree} {e : UcString × DdlDefaultValueRule} (h : IsMacroLhsRule t e) :
    t.children ≠ [] := by
  obtain ⟨_, _, _, hchildren, -⟩ := h
  rw [hchildren]
  exact List.cons_ne_nil _ _

theorem parseTypeNameDatatypeRule_eq_ok_iff {t : Ptree} {prefPath : Text} {e : UcString × DdlDatatypeRule} :
    parseTypeNameDatatypeRule none t prefPath = .ok e ↔ IsTypeNameRule t e := by
  unfold parseTypeNameDatatypeRule
  dsimp only
  constructor
  · intro h
    split at h
    · cases h
    · rename_i hat
      obtain ⟨name, t', rest, hrest⟩ := exists_rest_of_atNode (by simpa using hat)
      simp only [bind_eq_ok, PtreeCursor.getNonemptyString_eq_ok_iff hrest] at h
      obtain ⟨typeName, ⟨rfl, rfl, htypeName⟩, datatype, hdatatype, h⟩ := h
      split at h
      · cases h
      · rename_i hend
        have hnext : (PtreeCursor.ofTree t prefPath).next.rest = rest := PtreeCursor.rest_next hrest
        cases rest with
        | nil =>
            rw [PtreeCursor.getChild_past hnext] at hdatatype
            cases hdatatype
        | cons node rest =>
            have hnode : (PtreeCursor.ofTree t prefPath).next.rest = (node.1, node.2) :: rest := hnext
            obtain ⟨hname, rfl, hne⟩ := (getChild_eq_ok_iff hnode "datatype").mp hdatatype
            obtain rfl : rest = [] := by
              simpa [PtreeCursor.atNode, PtreeCursor.rest_next hnode] using hend
            obtain ⟨rule, hrule, h⟩ := bind_eq_ok.mp h
            cases h
            refine ⟨typeName, node.2, ?_, htypeName, rfl, (parseDatatypeRule_eq_ok_iff hne).mp hrule⟩
            rw [← hname]
            exact hrest
  · rintro ⟨typeName, datatype, hchildren, htypeName, hkey, hrule⟩
    have hrest : (PtreeCursor.ofTree t prefPath).rest = (_, _) :: _ := hchildren
    have hnode : (PtreeCursor.ofTree t prefPath).next.rest = (_, _) :: [] := PtreeCursor.rest_next hrest
    rw [PtreeCursor.atNode_eq hrest, Bool.not_true, if_neg Bool.false_ne_true]
    refine bind_eq_ok.mpr ⟨typeName, (PtreeCursor.getNonemptyString_eq_ok_iff hrest _).mpr ⟨rfl, rfl, htypeName⟩, ?_⟩
    refine bind_eq_ok.mpr ⟨datatype, (getChild_eq_ok_iff hnode _).mpr ⟨rfl, rfl, hrule.children_ne_nil⟩, ?_⟩
    rw [PtreeCursor.atNode_past (PtreeCursor.rest_next hnode), if_neg Bool.false_ne_true]
    refine bind_eq_ok.mpr ⟨e.2, (parseDatatypeRule_eq_ok_iff hrule.children_ne_nil).mpr hrule, ?_⟩
    rw [← hkey]
    rfl

theorem parseMacroArgs_eq_ok_iff {t : Ptree} (ht : t.children ≠ []) {prefPath : Text}
    {macroArgs : DdlDefaultValueRuleMacroArgs} :
    parseMacroArgs none t prefPath = .ok macroArgs ↔ IsMacroArgs t macroArgs := by
  obtain ⟨node, nodes, hnode⟩ := List.exists_cons_of_ne_nil ht
  have hrest : (PtreeCursor.ofTree t prefPath).rest = (node.1, node.2) :: nodes := hnode
  have hnext : (PtreeCursor.ofTree t prefPath).next.rest = nodes := PtreeCursor.rest_next hrest
  unfold parseMacroArgs IsMacroArgs
  dsimp only
  simp only [bind_eq_ok, PtreeCursor.getInt32_eq_ok_iff hrest]
  constructor
  · rintro ⟨count, ⟨hname, hcount, hnonneg⟩, h⟩
    split at h
    · rename_i hend
      cases h
      have hnil : nodes = [] := by simpa [PtreeCursor.atNode, hnext] using hend
      refine ⟨node.2, count, [], ?_, hcount, hnonneg, rfl, .absent, .inl rfl⟩
      rw [hnode, hnil, ← hname]
    · rename_i hat
      obtain ⟨name, t', rest, hrest'⟩ := exists_rest_of_atNode (by simpa using hat)
      have hnodes : nodes = (name, t') :: rest := hnext.symm.trans hrest'
      simp only [bind_eq_ok, PtreeCursor.getNonemptyString_eq_ok_iff hrest'] at h
      obtain ⟨rewrite, ⟨rfl, hrewrite⟩, u, hvalid, h⟩ := h
      split at h
      · rename_i hend
        cases h
        have hnil : rest = [] := by simpa [PtreeCursor.atNode, PtreeCursor.rest_next hrest'] using hend
        refine ⟨node.2, count, [("rewrite".toList, t')], ?_, hcount, hnonneg, rfl, .present hrewrite,
          .inr ((validateRewrite_eq_ok_iff _ prefPath).mp hvalid)⟩
        rw [hnode, hnodes, hnil, ← hname]
      · cases h
  · rintro ⟨argcnt, count, rewriteFields, hchildren, hcount, hnonneg, hargcnt, hrewrite, hvalid⟩
    obtain ⟨rfl, rfl⟩ := List.cons.inj (hnode.symm.trans hchildren)
    refine ⟨count, ⟨rfl, hcount, hnonneg⟩, ?_⟩
    obtain ⟨macroArgcnt, macroRewrite⟩ := macroArgs
    obtain rfl : macroArgcnt = count.toInt.toNat := hargcnt
    cases hrewrite with
    | absent =>
        rw [PtreeCursor.atNode_past hnext]
        rfl
    | present hrewrite =>
        rename_i t'
        have hvalidated := hvalid.resolve_left hrewrite.2
        rw [PtreeCursor.atNode_eq hnext, Bool.not_true, if_neg Bool.false_ne_true]
        refine bind_eq_ok.mpr ⟨_, (PtreeCursor.getNonemptyString_eq_ok_iff hnext _).mpr ⟨rfl, hrewrite⟩, ?_⟩
        refine bind_eq_ok.mpr ⟨(), (validateRewrite_eq_ok_iff _ prefPath).mpr hvalidated, ?_⟩
        rw [PtreeCursor.atNode_past (PtreeCursor.rest_next hnext)]
        rfl

theorem parseMacroLhsDefaultValueRule_eq_ok_iff {t : Ptree} {prefPath : Text} {e : UcString × DdlDefaultValueRule} :
    parseMacroLhsDefaultValueRule none t prefPath = .ok e ↔ IsMacroLhsRule t e := by
  unfold parseMacroLhsDefaultValueRule
  dsimp only
  constructor
  · intro h
    split at h
    · cases h
    · rename_i hat
      obtain ⟨name, t', rest, hrest⟩ := exists_rest_of_atNode (by simpa using hat)
      have hnext : (PtreeCursor.ofTree t prefPath).next.rest = rest := PtreeCursor.rest_next hrest
      simp only [bind_eq_ok, PtreeCursor.getNonemptyString_eq_ok_iff hrest] at h
      obtain ⟨macroLhs, ⟨rfl, rfl, hmacroLhs⟩, macroRhs, hmacroRhs, found, hfound, h⟩ := h
      cases rest with
      | nil =>
          rw [PtreeCursor.getString_past hnext] at hmacroRhs
          cases hmacroRhs
      | cons node rest =>
          have hnode : (PtreeCursor.ofTree t prefPath).next.rest = (node.1, node.2) :: rest := hnext
          have hnext' := PtreeCursor.rest_next hnode
          obtain ⟨hname, hnode₂⟩ := (PtreeCursor.getString_eq_ok_iff hnode _).mp hmacroRhs
          cases rest with
          | nil =>
              rw [PtreeCursor.name_past hnext'] at hfound
              cases hfound
          | cons node' rest =>
              have hnode' : (PtreeCursor.ofTree t prefPath).next.next.rest = (node'.1, node'.2) :: rest := hnext'
              rw [PtreeCursor.name_eq hnode'] at hfound
              cases hfound
              split at h
              · rename_i hname'
                obtain ⟨macroArgsNode, hmacroArgsNode, h⟩ := bind_eq_ok.mp h
                obtain ⟨rfl, hne⟩ := PtreeCursor.children_of_getChild hnode' hmacroArgsNode
                split at h
                · rename_i hend
                  obtain rfl : rest = [] := by
                    simpa [PtreeCursor.atNode, PtreeCursor.rest_next hnode'] using hend
                  obtain ⟨macroArgs, hmacroArgs, h⟩ := bind_eq_ok.mp h
                  cases h
                  refine ⟨macroLhs, node'.2, macroArgs, ?_, hmacroLhs, rfl, rfl,
                    (parseMacroArgs_eq_ok_iff hne).mp hmacroArgs⟩
                  rw [← hname, ← hname', ← hnode₂]
                  exact hrest
                · cases h
              · rw [PtreeCursor.atNode_eq hnode'] at h
                cases h
  · rintro ⟨macroLhs, macroArgsNode, macroArgs, hchildren, hmacroLhs, hkey, hsome, hmacroArgs⟩
    have hrest : (PtreeCursor.ofTree t prefPath).rest = (_, _) :: _ := hchildren
    have hnode : (PtreeCursor.ofTree t prefPath).next.rest = (_, _) :: _ := PtreeCursor.rest_next hrest
    have hnode' : (PtreeCursor.ofTree t prefPath).next.next.rest = (_, _) :: [] := PtreeCursor.rest_next hnode
    rw [PtreeCursor.atNode_eq hrest, Bool.not_true, if_neg Bool.false_ne_true]
    refine bind_eq_ok.mpr ⟨macroLhs, (PtreeCursor.getNonemptyString_eq_ok_iff hrest _).mpr ⟨rfl, rfl, hmacroLhs⟩, ?_⟩
    refine bind_eq_ok.mpr ⟨e.2.macroRhs, (PtreeCursor.getString_eq_ok_iff hnode _).mpr ⟨rfl, rfl⟩, ?_⟩
    refine bind_eq_ok.mpr ⟨_, PtreeCursor.name_eq hnode', ?_⟩
    rw [if_pos rfl]
    refine bind_eq_ok.mpr ⟨macroArgsNode, PtreeCursor.getChild_eq_ok hnode' hmacroArgs.children_ne_nil, ?_⟩
    rw [PtreeCursor.atNode_past (PtreeCursor.rest_next hnode'), Bool.not_false, if_pos rfl]
    refine bind_eq_ok.mpr ⟨macroArgs, (parseMacroArgs_eq_ok_iff hmacroArgs.children_ne_nil).mpr hmacroArgs, ?_⟩
    rw [← hkey, ← hsome]
    rfl

/-! ### Arrays -/

section Arrays

variable {ρ : Type} {parse : Ptree → Text → Except Fault (UcString × ρ)} {IsRule : Ptree → UcString × ρ → Prop}

/-- The loop over an array appends what its elements are read as. -/
theorem loadRulesFrom_eq_ok_iff
    (hparse : ∀ t prefPath e, parse t prefPath = .ok e ↔ IsRule t e) (hrule : ∀ t e, IsRule t e → t.children ≠ [])
    {what : String} {nodes : List (Text × Ptree)} {c : PtreeCursor} (hc : c.rest = nodes)
    {rules loaded : UnorderedMap UcString ρ} :
    loadRulesFrom none parse what c rules nodes = .ok loaded ↔
      ∃ read, List.Forall₂ (fun child e => IsRule child.2 e) nodes read ∧
        loaded.entries = rules.entries ++ read := by
  induction nodes generalizing c rules with
  | nil =>
      constructor
      · intro h
        cases h
        exact ⟨[], .nil, (List.append_nil _).symm⟩
      · rintro ⟨read, hread, hloaded⟩
        rw [List.forall₂_nil_left_iff.mp hread, List.append_nil] at hloaded
        rw [UnorderedMap.ext hloaded]
        rfl
  | cons node nodes ih =>
      rw [loadRulesFrom_cons hc]
      constructor
      · intro h
        split at h
        · cases h
        · obtain ⟨e, he, h⟩ := bind_eq_ok.mp h
          split at h
          · rename_i hinserted
            obtain ⟨read, hread, hloaded⟩ := (ih (PtreeCursor.rest_next hc)).mp h
            rw [UnorderedMap.insert_entries_of_notMem ((UnorderedMap.insert_snd _ _ _).mp hinserted),
              List.append_assoc] at hloaded
            exact ⟨e :: read, .cons ((hparse _ _ _).mp he) hread, hloaded⟩
          · cases h
      · rintro ⟨_ | ⟨e, read⟩, hforall, hloaded⟩
        · cases hforall
        · obtain ⟨he, hread⟩ := List.forall₂_cons.mp hforall
          have hnew : e.1 ∉ rules.keys := by
            have hnodup := loaded.nodup
            rw [hloaded, List.map_append, List.nodup_append] at hnodup
            exact fun hmem => hnodup.2.2 _ hmem _ (List.mem_map_of_mem List.mem_cons_self) rfl
          rw [if_neg (hrule _ _ he)]
          refine bind_eq_ok.mpr ⟨e, (hparse _ _ _).mpr he, ?_⟩
          rw [if_pos ((UnorderedMap.insert_snd _ _ _).mpr hnew), ih (PtreeCursor.rest_next hc)]
          refine ⟨read, hread, ?_⟩
          rw [UnorderedMap.insert_entries_of_notMem hnew, List.append_assoc, hloaded]
          rfl

/-- The handlers of the loaders return what is loaded. -/
theorem handler_eq_ok_iff {msgPrefix : Text} {load : Except Fault (UnorderedMap UcString ρ)}
    {rules : UnorderedMap UcString ρ} :
    (match load with
      | .ok rules => .ok rules
      | .error e =>
          match exceptionWhat e with
          | some what => .error (.prefsError (msgPrefix ++ what))
          | none => .error e : Except Fault (UnorderedMap UcString ρ)) = .ok rules ↔ load = .ok rules := by
  cases load with
  | ok rules' => exact Iff.rfl
  | error e =>
      refine iff_of_false ?_ (fun h => by cases h)
      dsimp only
      cases exceptionWhat e <;> exact fun h => by cases h

theorem loadRulesPrefs_eq_ok_iff
    (hparse : ∀ t prefPath e, parse t prefPath = .ok e ↔ IsRule t e) (hrule : ∀ t e, IsRule t e → t.children ≠ [])
    {what prefPath : String} {noneLoaded msgPrefix : Text} {prefRoot : Ptree} {rules : UnorderedMap UcString ρ} :
    loadRulesPrefs none parse what prefPath noneLoaded msgPrefix prefRoot = .ok rules ↔
      IsRules IsRule prefPath prefRoot rules := by
  unfold loadRulesPrefs IsRules
  refine handler_eq_ok_iff.trans ?_
  cases prefRoot.child? prefPath.toList with
  | none => exact iff_of_false (fun h => by cases h) (by simp)
  | some prefTree =>
      dsimp only
      by_cases hchildren : prefTree.children = []
      · rw [if_pos (by simp [hchildren])]
        refine iff_of_false (fun h => by cases h) ?_
        rintro ⟨_, hsome, hne, hforall⟩
        cases hsome
        rw [hchildren, List.forall₂_nil_left_iff] at hforall
        exact hne hforall
      · have hloop (loaded : UnorderedMap UcString ρ) :
            loadRulesFrom none parse what (.ofTree prefTree prefPath.toList true) ∅ prefTree.children = .ok loaded ↔
              ∃ read, List.Forall₂ (fun child e => IsRule child.2 e) prefTree.children read ∧
                loaded.entries = [] ++ read := loadRulesFrom_eq_ok_iff hparse hrule rfl
        rw [if_neg (by simpa using hchildren), bind_eq_ok]
        constructor
        · rintro ⟨loaded, hloaded, h⟩
          split at h
          · cases h
          · rename_i hne
            cases h
            obtain ⟨read, hread, hentries⟩ := (hloop _).mp hloaded
            refine ⟨prefTree, rfl, by simpa using hne, ?_⟩
            rw [hentries]
            exact hread
        · rintro ⟨_, hsome, hne, hforall⟩
          cases hsome
          refine ⟨rules, (hloop rules).mpr ⟨_, hforall, rfl⟩, ?_⟩
          rw [if_neg (by simpa using hne)]
          rfl

end Arrays

theorem loadDatatypeRulesPrefs_eq_ok_iff {prefRoot : Ptree} {rules : DdlDatatypeRules} :
    loadDatatypeRulesPrefs none prefRoot = .ok rules ↔ IsRules IsTypeNameRule "datatype_rules" prefRoot rules :=
  @loadRulesPrefs_eq_ok_iff _ (parseTypeNameDatatypeRule none) IsTypeNameRule
    (fun _ _ _ => parseTypeNameDatatypeRule_eq_ok_iff) (fun _ _ => IsTypeNameRule.children_ne_nil) _ _ _ _ _ _

theorem loadDefaultValueRulesPrefs_eq_ok_iff {prefRoot : Ptree} {rules : DdlDefaultValueRules} :
    loadDefaultValueRulesPrefs none prefRoot = .ok rules ↔
      IsRules IsMacroLhsRule "default_value_rules" prefRoot rules :=
  @loadRulesPrefs_eq_ok_iff _ (parseMacroLhsDefaultValueRule none) IsMacroLhsRule
    (fun _ _ _ => parseMacroLhsDefaultValueRule_eq_ok_iff) (fun _ _ => IsMacroLhsRule.children_ne_nil) _ _ _ _ _ _

theorem isPrefs_of_readTableMigratorPrefs {prefRoot : Ptree} {prefs : DdlTableMigratorPrefs}
    (h : readTableMigratorPrefs none prefRoot = .ok prefs) : IsPrefs prefRoot prefs := by
  unfold readTableMigratorPrefs at h
  simp only [bind_eq_ok, loadDatatypeRulesPrefs_eq_ok_iff, loadDefaultValueRulesPrefs_eq_ok_iff] at h
  obtain ⟨datatypeRules, hdatatypeRules, defaultValueRules, hdefaultValueRules, h⟩ := h
  cases h
  exact ⟨hdatatypeRules, hdefaultValueRules⟩

theorem IsPrefs.readTableMigratorPrefs {prefRoot : Ptree} {prefs : DdlTableMigratorPrefs}
    (h : IsPrefs prefRoot prefs) : readTableMigratorPrefs none prefRoot = .ok prefs :=
  bind_eq_ok.mpr ⟨_, loadDatatypeRulesPrefs_eq_ok_iff.mpr h.1,
    bind_eq_ok.mpr ⟨_, loadDefaultValueRulesPrefs_eq_ok_iff.mpr h.2, rfl⟩⟩

/-- Preferences are read from their trees and from no others. -/
theorem readTableMigratorPrefs_eq_ok_iff (prefRoot : Ptree) (prefs : DdlTableMigratorPrefs) :
    readTableMigratorPrefs none prefRoot = .ok prefs ↔ IsPrefs prefRoot prefs :=
  ⟨isPrefs_of_readTableMigratorPrefs, IsPrefs.readTableMigratorPrefs⟩

/-! ### Writing -/

/-- A number as `read_json` stores it. -/
def int32Tree (n : Int32) : Ptree := .node (lexicalCastInt32 n) []

def optionalTree (name : String) (t : Ptree) (isDefault : Bool) : List (Text × Ptree) :=
  if isDefault then [] else [(name.toList, t)]

def mapSizeTree (mapSize : DdlMapSize) : Ptree := .object
  [("type", .leaf (mapSizeTypeName mapSize.mapSizeType)), ("range_min", int32Tree mapSize.rangeMin),
    ("range_max", int32Tree mapSize.rangeMax), ("new_value", int32Tree mapSize.newValue)]

def arrayTree (elements : List Ptree) : Ptree := .node [] (elements.map fun t => ([], t))

def datatypeRuleTree (rule : DdlDatatypeRule) : Ptree :=
  .node [] (("type".toList, .leaf (datatypeRuleTypeName rule.datatypeRuleType)) ::
    (optionalTree "map_name" (.node rule.mapName []) rule.mapName.isEmpty ++
      optionalTree "map_sizes" (arrayTree (rule.mapSizes.map mapSizeTree)) rule.mapSizes.isEmpty))

def typeNameRuleTree (e : UcString × DdlDatatypeRule) : Ptree := .object
  [("type_name", .node e.1.str []), ("datatype", datatypeRuleTree e.2)]

def macroArgsTree (macroArgs : DdlDefaultValueRuleMacroArgs) : Ptree :=
  .node [] (("argcnt".toList, .node (lexicalCast macroArgs.argcnt) []) ::
    optionalTree "rewrite" (.node macroArgs.rewrite []) macroArgs.rewrite.isEmpty)

/-- A rule without arguments is written as its first two fields, which are not read. -/
def macroLhsRuleTree (e : UcString × DdlDefaultValueRule) : Ptree :=
  .node [] (("macro_lhs".toList, .node e.1.str []) :: ("macro_rhs".toList, .node e.2.macroRhs []) ::
    (e.2.macroArgs.toList.map fun macroArgs => ("macro_args".toList, macroArgsTree macroArgs)))

def prefsTree (prefs : DdlTableMigratorPrefs) : Ptree := .object
  [("datatype_rules", arrayTree (prefs.datatypeRules.entries.map typeNameRuleTree)),
    ("default_value_rules", arrayTree (prefs.defaultValueRules.entries.map macroLhsRuleTree))]

/-! ### What is written is read -/

theorem isSpace_eq_false {c : Char} (h : ' ' < c) : Ptree.isSpace c = false := by
  have hne : c ≠ ' ' := by
    rintro rfl
    exact absurd h (by decide)
  have hle : ¬ c ≤ '\r' := fun hc => absurd (lt_of_lt_of_le h hc) (by decide)
  unfold Ptree.isSpace
  simp [hne, hle]

theorem trim_eq_self {s : Text} (h : ∀ c ∈ s, ' ' < c) :
    (s.dropWhile Ptree.isSpace).rdropWhile Ptree.isSpace = s := by
  have hdrop : s.dropWhile Ptree.isSpace = s := by
    rw [List.dropWhile_eq_self_iff]
    exact fun hl => by simp [isSpace_eq_false (h _ (List.getElem_mem hl))]
  rw [hdrop, List.rdropWhile_eq_self_iff]
  exact fun hl => by simp [isSpace_eq_false (h _ (List.getLast_mem hl))]

theorem zero_le_of_isDigit {c : Char} (h : c.isDigit = true) : '0' ≤ c := by
  rw [Char.isDigit, Bool.and_eq_true, decide_eq_true_eq, decide_eq_true_eq] at h
  exact h.1

/-- Digit by digit a number is read as `Nat.ofDigitChars` reads it. -/
theorem foldl_digits {digits : Text} (h : ∀ c ∈ digits, c.isDigit = true) (n : Nat) :
    digits.foldl (fun (n : Int) c => 10 * n + (c.toNat - '0'.toNat)) n = Nat.ofDigitChars 10 digits n := by
  induction digits generalizing n with
  | nil => rfl
  | cons c digits ih =>
      have hc : '0'.toNat ≤ c.toNat := zero_le_of_isDigit (h c List.mem_cons_self)
      have hstep : (10 * n + (c.toNat - '0'.toNat) : Int) = (10 * n + (c.toNat - '0'.toNat) : Nat) := by omega
      rw [List.foldl_cons, Nat.ofDigitChars_cons, hstep, ih fun c hc => h c (List.mem_cons_of_mem _ hc)]

theorem foldl_lexicalCast (n : Nat) :
    (lexicalCast n).foldl (fun (n : Int) c => 10 * n + (c.toNat - '0'.toNat)) 0 = n := by
  have hdigits : lexicalCast n = Nat.toDigits 10 n := Nat.toList_repr
  have hfold := foldl_digits (fun c => @isDigit_of_mem_lexicalCast n c) 0
  rw [hdigits, Nat.ofDigitChars_ten_toDigits, ← hdigits] at hfold
  exact hfold

theorem all_isDigit_lexicalCast (n : Nat) : (lexicalCast n).all Char.isDigit = true :=
  List.all_eq_true.mpr fun _ => isDigit_of_mem_lexicalCast

theorem int32Value_lexicalCast {n : Nat} (h : (n : Int) ≤ Int32.maxValue.toInt) :
    (Ptree.node (lexicalCast n) []).int32Value = some (Int32.ofInt n) := by
  have hblank : ∀ c ∈ lexicalCast n, ' ' < c := fun c hc =>
    lt_of_lt_of_le (by decide) (zero_le_of_isDigit (isDigit_of_mem_lexicalCast hc))
  have hmin : Int32.minValue.toInt ≤ n := le_trans (by decide) (Int.natCast_nonneg n)
  unfold Ptree.int32Value
  dsimp only [Ptree.data]
  rw [trim_eq_self hblank]
  split
  · rename_i heq
    have hdigit : '-'.isDigit = true := isDigit_of_mem_lexicalCast (heq ▸ List.mem_cons_self)
    cases hdigit
  · rename_i heq
    have hdigit : '+'.isDigit = true := isDigit_of_mem_lexicalCast (heq ▸ List.mem_cons_self)
    cases hdigit
  · dsimp only
    rw [foldl_lexicalCast, if_neg Bool.false_ne_true,
      if_pos ⟨lexicalCast_ne_nil n, all_isDigit_lexicalCast n, hmin, h⟩]

theorem int32Value_neg_lexicalCast {n : Nat} (h : Int32.minValue.toInt ≤ -n) :
    (Ptree.node ('-' :: lexicalCast n) []).int32Value = some (Int32.ofInt (-n)) := by
  have hblank : ∀ c ∈ '-' :: lexicalCast n, ' ' < c := by
    refine List.forall_mem_cons.mpr ⟨by decide, fun c hc => ?_⟩
    exact lt_of_lt_of_le (by decide) (zero_le_of_isDigit (isDigit_of_mem_lexicalCast hc))
  have hmax : -(n : Int) ≤ Int32.maxValue.toInt := le_trans (neg_nonpos.mpr (Int.natCast_nonneg n)) (by decide)
  unfold Ptree.int32Value
  dsimp only [Ptree.data]
  rw [trim_eq_self hblank]
  split
  · rename_i digits heq
    obtain rfl : lexicalCast n = digits := (List.cons.inj heq).2
    dsimp only
    rw [foldl_lexicalCast, if_pos rfl, if_pos ⟨lexicalCast_ne_nil n, all_isDigit_lexicalCast n, h, hmax⟩]
  · rename_i heq
    exact absurd (List.cons.inj heq).1 (by decide)
  · rename_i hnot _
    exact absurd rfl (hnot _)

theorem isInt32_int32Tree (n : Int32) : IsInt32 (int32Tree n) n := by
  have hrepr : lexicalCastInt32 n = if 0 ≤ n.toInt then lexicalCast n.toInt.toNat
      else '-' :: lexicalCast (-n.toInt).toNat := by
    unfold lexicalCastInt32 lexicalCast
    rw [Int.toString_eq_repr, Int.repr_eq_if]
    split
    · rfl
    · exact String.toList_append
  unfold IsInt32 int32Tree
  rw [hrepr]
  split
  · rename_i hnonneg
    have hcast : (n.toInt.toNat : Int) = n.toInt := Int.toNat_of_nonneg hnonneg
    rw [int32Value_lexicalCast (hcast ▸ n.toInt_le), hcast, Int32.ofInt_toInt]
  · rename_i hneg
    have hcast : -((-n.toInt).toNat : Int) = n.toInt := by omega
    have hmin : Int32.minValue.toInt ≤ -((-n.toInt).toNat : Int) := by
      rw [hcast]
      exact n.minValue_le_toInt
    rw [int32Value_neg_lexicalCast hmin, hcast, Int32.ofInt_toInt]

/-! ### The trees -/

theorem optionalField_optionalTree {α : Type} {name : String} {IsValue : Ptree → α → Prop} {default value : α}
    {t : Ptree} {isDefault : Bool} (hdefault : isDefault = true → value = default)
    (hvalue : isDefault = false → IsValue t value) :
    OptionalField name IsValue default (optionalTree name t isDefault) value := by
  cases isDefault with
  | true =>
      rw [hdefault rfl]
      exact .absent
  | false => exact .present (hvalue rfl)

theorem isMapSize_mapSizeTree (mapSize : DdlMapSize) : IsMapSize (mapSizeTree mapSize) mapSize :=
  ⟨_, _, _, rfl, .present (isInt32_int32Tree _), .present (isInt32_int32Tree _), .present (isInt32_int32Tree _)⟩

theorem forall₂_arrayTree {α : Type} {IsElement : Ptree → α → Prop} {tree : α → Ptree} {elements : List α}
    (h : ∀ a ∈ elements, IsElement (tree a) a) :
    List.Forall₂ (fun child a => IsElement child.2 a) (arrayTree (elements.map tree)).children elements := by
  unfold arrayTree
  rw [Ptree.children, List.map_map, List.forall₂_map_left_iff, List.forall₂_same]
  exact h

theorem isDatatypeRule_datatypeRuleTree {rule : DdlDatatypeRule} (h : scaleSizesLast rule.mapSizes = true) :
    IsDatatypeRule (datatypeRuleTree rule) rule := by
  refine ⟨_, _, rfl, optionalField_optionalTree (fun hnil => by simpa using hnil) fun hne => ?_,
    optionalField_optionalTree (fun hnil => by simpa using hnil) fun hne => ?_⟩
  · exact ⟨rfl, by simpa using hne⟩
  · exact ⟨by simpa using hne, forall₂_arrayTree fun mapSize _ => isMapSize_mapSizeTree mapSize,
      (scaleSizesLast_iff _).mp h⟩

theorem isTypeNameRule_typeNameRuleTree {e : UcString × DdlDatatypeRule} (hkey : e.1.str ≠ [])
    (h : scaleSizesLast e.2.mapSizes = true) : IsTypeNameRule (typeNameRuleTree e) e :=
  ⟨_, _, rfl, hkey, (MacroExpander.ofText_str e.1).symm, isDatatypeRule_datatypeRuleTree h⟩

theorem isMacroArgs_macroArgsTree {macroArgs : DdlDefaultValueRuleMacroArgs}
    (hargcnt : (macroArgs.argcnt : Int) ≤ Int32.maxValue.toInt)
    (h : macroArgs.rewrite = [] ∨ ∃ validated, MacroArgsRewriter.rewriteMacroArgs macroArgs .ok = .ok validated) :
    IsMacroArgs (macroArgsTree macroArgs) macroArgs := by
  have hcount : (Int32.ofInt macroArgs.argcnt).toInt = macroArgs.argcnt := by
    have hlt := hargcnt
    rw [Int32.toInt_maxValue] at hlt
    exact Int32.toInt_ofInt_of_le (by omega) (by omega)
  refine ⟨_, _, _, rfl, int32Value_lexicalCast hargcnt, ?_, ?_,
    optionalField_optionalTree (fun hnil => by simpa using hnil) fun hne => ⟨rfl, by simpa using hne⟩, h⟩
  · rw [Int32.le_iff_toInt_le, hcount]
    exact Int.natCast_nonneg _
  · rw [hcount, Int.toNat_natCast]

/-! ### The preferences there is a tree for -/

/-- What preferences have that are read. -/
structure Readable (prefs : DdlTableMigratorPrefs) : Prop where
  datatypeRules_ne_nil : prefs.datatypeRules.entries ≠ []
  defaultValueRules_ne_nil : prefs.defaultValueRules.entries ≠ []
  typeName : ∀ e ∈ prefs.datatypeRules.entries, e.1.str ≠ [] ∧ scaleSizesLast e.2.mapSizes = true
  macroLhs : ∀ e ∈ prefs.defaultValueRules.entries, e.1.str ≠ [] ∧
    ∃ macroArgs, e.2.macroArgs = some macroArgs ∧ (macroArgs.argcnt : Int) ≤ Int32.maxValue.toInt ∧
      (macroArgs.rewrite = [] ∨ ∃ validated, MacroArgsRewriter.rewriteMacroArgs macroArgs .ok = .ok validated)

theorem isPrefs_prefsTree {prefs : DdlTableMigratorPrefs} (h : Readable prefs) : IsPrefs (prefsTree prefs) prefs := by
  have hdatatypes : (prefsTree prefs).child? "datatype_rules".toList =
      some (arrayTree (prefs.datatypeRules.entries.map typeNameRuleTree)) := List.lookup_cons_self
  have hdefaults : (prefsTree prefs).child? "default_value_rules".toList =
      some (arrayTree (prefs.defaultValueRules.entries.map macroLhsRuleTree)) := by
    have hne : ("default_value_rules".toList == "datatype_rules".toList) = false := by decide
    unfold prefsTree Ptree.object Ptree.child? Ptree.children
    rw [List.map_cons, List.lookup_cons, hne]
    exact List.lookup_cons_self
  refine ⟨⟨_, hdatatypes, h.datatypeRules_ne_nil, forall₂_arrayTree fun e he => ?_⟩,
    ⟨_, hdefaults, h.defaultValueRules_ne_nil, forall₂_arrayTree fun e he => ?_⟩⟩
  · exact isTypeNameRule_typeNameRuleTree (h.typeName e he).1 (h.typeName e he).2
  · obtain ⟨hkey, macroArgs, hsome, hargcnt, hvalid⟩ := h.macroLhs e he
    refine ⟨_, macroArgsTree macroArgs, macroArgs, ?_, hkey, (MacroExpander.ofText_str e.1).symm, hsome,
      isMacroArgs_macroArgsTree hargcnt hvalid⟩
    unfold macroLhsRuleTree
    rw [hsome]
    rfl

theorem exists_of_forall₂ {α β : Type} {R : α → β → Prop} {as : List α} {bs : List β} (h : List.Forall₂ R as bs)
    {b : β} (hb : b ∈ bs) : ∃ a ∈ as, R a b := by
  induction h with
  | nil => cases hb
  | @cons a b' as bs hr _ ih =>
      cases hb with
      | head => exact ⟨a, List.mem_cons_self, hr⟩
      | tail _ hb =>
          obtain ⟨a', ha', hr'⟩ := ih hb
          exact ⟨a', List.mem_cons_of_mem _ ha', hr'⟩

theorem ofText_str_ne_nil {s : Text} (h : s ≠ []) : (UcString.ofText s).str ≠ [] := by
  simpa [UcString.ofText, toUpper] using h

theorem IsDatatypeRule.scaleSizesLast {t : Ptree} {rule : DdlDatatypeRule} (h : IsDatatypeRule t rule) :
    scaleSizesLast rule.mapSizes = true := by
  obtain ⟨_, mapSizesFields, -, -, hmapSizes⟩ := h
  generalize rule.mapSizes = mapSizes at hmapSizes
  cases hmapSizes with
  | absent => rfl
  | present hmapSizes => exact (scaleSizesLast_iff _).mpr hmapSizes.2.2

theorem readable_of_isPrefs {prefRoot : Ptree} {prefs : DdlTableMigratorPrefs} (h : IsPrefs prefRoot prefs) :
    Readable prefs := by
  obtain ⟨⟨_, -, hdatatypes, hdatatypeRules⟩, ⟨_, -, hdefaults, hdefaultValueRules⟩⟩ := h
  refine ⟨hdatatypes, hdefaults, fun e he => ?_, fun e he => ?_⟩
  · obtain ⟨child, -, typeName, datatype, -, htypeName, hkey, hrule⟩ := exists_of_forall₂ hdatatypeRules he
    rw [hkey]
    exact ⟨ofText_str_ne_nil htypeName, hrule.scaleSizesLast⟩
  · obtain ⟨child, -, macroLhs, macroArgsNode, macroArgs, -, hmacroLhs, hkey, hsome, hmacroArgs⟩ :=
      exists_of_forall₂ hdefaultValueRules he
    obtain ⟨_, count, _, -, -, hnonneg, hargcnt, -, hvalid⟩ := hmacroArgs
    rw [Int32.le_iff_toInt_le] at hnonneg
    rw [hkey]
    refine ⟨ofText_str_ne_nil hmacroLhs, macroArgs, hsome, ?_, hvalid⟩
    rw [hargcnt, Int.toNat_of_nonneg hnonneg]
    exact count.toInt_le

/-- Preferences can be read exactly if there are rules of both kinds, no name is empty, the sub-rules of every data
type are in order, and every rule for a default value has arguments whose number fits and whose rewrite is valid;
and then they are read from what is written for them. -/
theorem exists_readTableMigratorPrefs_iff (prefs : DdlTableMigratorPrefs) :
    ((∃ prefRoot, readTableMigratorPrefs none prefRoot = .ok prefs) ↔ Readable prefs) ∧
      (readTableMigratorPrefs none (prefsTree prefs) = .ok prefs ↔ Readable prefs) := by
  have hwritten (h : Readable prefs) : readTableMigratorPrefs none (prefsTree prefs) = .ok prefs :=
    (isPrefs_prefsTree h).readTableMigratorPrefs
  have hread {prefRoot : Ptree} (h : readTableMigratorPrefs none prefRoot = .ok prefs) : Readable prefs :=
    readable_of_isPrefs (isPrefs_of_readTableMigratorPrefs h)
  constructor
  · constructor
    · rintro ⟨prefRoot, hprefs⟩
      exact hread hprefs
    · exact fun h => ⟨_, hwritten h⟩
  · exact ⟨hread, hwritten⟩

end Middle.MiddleApp
