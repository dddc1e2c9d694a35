import Middle.Lib.Checked
import Middle.MiddleApp.PrefsCursor

/-! What reading preferences ends in when it does not return: the error of the preferences, an assertion or, behind the
last child of a node, an operation that is not defined. -/

namespace Middle.MiddleApp

open Lib Universals NormalDdl

/-- What the parse functions throw; an operation is not defined only where it reads behind a last child. -/
def ReaderFault (pastEnd : Option (Text × Ptree)) (e : Fault) : Prop :=
  (exceptionWhat e).isSome = true ∨ e = .assertion ∨ e = .undefined ∧ pastEnd = none

section Reader

variable {pastEnd : Option (Text × Ptree)}

theorem throwsOnly_prefsError {α : Type} (what : Text) :
    ThrowsOnly (ReaderFault pastEnd) (.error (.prefsError what) : Except Fault α) := throwsOnly_error (.inl rfl)

theorem ReturnsOrThrows.throwsOnly {α : Type} {x : Except Fault α} (h : ReturnsOrThrows x) :
    ThrowsOnly (ReaderFault pastEnd) x := fun e he => .inl (h.caught e he)

/-! ### The cursor -/

namespace PtreeCursor

variable (c : PtreeCursor)

theorem throwsOnly_deref : ThrowsOnly (ReaderFault pastEnd) (c.deref pastEnd) := by
  unfold deref
  split
  · exact throwsOnly_ok _
  · rename_i hnone
    exact throwsOnly_error (.inr (.inr ⟨rfl, (Option.or_eq_none_iff.mp hnone).2⟩))

theorem throwsOnly_name : ThrowsOnly (ReaderFault pastEnd) (c.name pastEnd) :=
  throwsOnly_bind c.throwsOnly_deref fun _ => throwsOnly_ok _

theorem throwsOnly_checkName (what : String) (name : Option String) :
    ThrowsOnly (ReaderFault pastEnd) (c.checkName pastEnd what name) := by
  unfold checkName
  split
  · exact throwsOnly_ok _
  · exact throwsOnly_bind c.throwsOnly_name fun _ => throwsOnly_ite (throwsOnly_prefsError _) (throwsOnly_ok _)

theorem throwsOnly_getChild (name : Option String) : ThrowsOnly (ReaderFault pastEnd) (c.getChild pastEnd name) := by
  refine throwsOnly_bind (c.throwsOnly_checkName _ _) fun _ => throwsOnly_bind c.throwsOnly_deref fun _ => ?_
  exact throwsOnly_ite (throwsOnly_prefsError _) (throwsOnly_ok _)

theorem throwsOnly_getString (name : Option String) : ThrowsOnly (ReaderFault pastEnd) (c.getString pastEnd name) := by
  refine throwsOnly_bind (c.throwsOnly_checkName _ _) fun _ => throwsOnly_bind c.throwsOnly_deref fun _ => ?_
  exact throwsOnly_ite (throwsOnly_prefsError _) (throwsOnly_ok _)

theorem throwsOnly_getNonemptyString (name : Option String) :
    ThrowsOnly (ReaderFault pastEnd) (c.getNonemptyString pastEnd name) :=
  throwsOnly_bind (c.throwsOnly_getString name) fun _ => throwsOnly_ite (throwsOnly_prefsError _) (throwsOnly_ok _)

theorem throwsOnly_getInt32 (name : Option String) (range : Int32Range) :
    ThrowsOnly (ReaderFault pastEnd) (c.getInt32 pastEnd name range) := by
  refine throwsOnly_bind (c.throwsOnly_checkName _ _) fun _ => throwsOnly_bind c.throwsOnly_deref fun node => ?_
  obtain ⟨found, child⟩ := node
  dsimp only
  split
  · exact throwsOnly_prefsError _
  · exact throwsOnly_ite (throwsOnly_prefsError _) (throwsOnly_ite (throwsOnly_prefsError _) (throwsOnly_ok _))

end PtreeCursor

/-! ### Data types -/

theorem throwsOnly_parseOptionalInt32 (c : PtreeCursor) (name : String) (default : Int32) :
    ThrowsOnly (ReaderFault pastEnd) (parseOptionalInt32 pastEnd c name default) := by
  unfold parseOptionalInt32
  refine throwsOnly_ite (throwsOnly_ok _) (throwsOnly_bind c.throwsOnly_name fun _ => ?_)
  exact throwsOnly_ite (throwsOnly_bind (c.throwsOnly_getInt32 _ _) fun _ => throwsOnly_ok _) (throwsOnly_ok _)

theorem throwsOnly_parseMapSize (t : Ptree) (prefPath : Text) :
    ThrowsOnly (ReaderFault pastEnd) (parseMapSize pastEnd t prefPath) := by
  unfold parseMapSize
  refine throwsOnly_ite (throwsOnly_prefsError _) ?_
  refine throwsOnly_bind (PtreeCursor.throwsOnly_getString _ _) fun value => ?_
  refine throwsOnly_bind (returnsOrThrows_parseMapSizeType _ _).throwsOnly fun mapSizeType => ?_
  refine throwsOnly_bind (throwsOnly_parseOptionalInt32 _ _ _) fun rangeMin => ?_
  refine throwsOnly_bind (throwsOnly_parseOptionalInt32 _ _ _) fun rangeMax => ?_
  refine throwsOnly_bind (throwsOnly_parseOptionalInt32 _ _ _) fun newValue => ?_
  exact throwsOnly_ite (throwsOnly_prefsError _) (throwsOnly_ok _)

theorem throwsOnly_parseMapSizesFrom (c : PtreeCursor) (nodes : List (Text × Ptree)) :
    ThrowsOnly (ReaderFault pastEnd) (parseMapSizesFrom pastEnd c nodes) := by
  induction nodes generalizing c with
  | nil => exact throwsOnly_ok _
  | cons node nodes ih =>
      unfold parseMapSizesFrom
      refine throwsOnly_bind (c.throwsOnly_getChild _) fun child => ?_
      refine throwsOnly_bind (throwsOnly_parseMapSize _ _) fun mapSize => ?_
      exact throwsOnly_bind (ih _) fun mapSizes => throwsOnly_ok _

theorem throwsOnly_parseMapSizes (t : Ptree) (prefPath : Text) :
    ThrowsOnly (ReaderFault pastEnd) (parseMapSizes pastEnd t prefPath) := by
  unfold parseMapSizes
  refine throwsOnly_ite (throwsOnly_prefsError _) ?_
  refine throwsOnly_bind (throwsOnly_parseMapSizesFrom _ _) fun mapSizes => ?_
  exact throwsOnly_ite (throwsOnly_prefsError _) (throwsOnly_ok _)

theorem throwsOnly_parseDatatypeRule (t : Ptree) (prefPath : Text) :
    ThrowsOnly (ReaderFault pastEnd) (parseDatatypeRule pastEnd t prefPath) := by
  unfold parseDatatypeRule
  refine throwsOnly_bind (PtreeCursor.throwsOnly_getString _ _) fun value => ?_
  refine throwsOnly_bind (returnsOrThrows_parseDatatypeRuleType _ _).throwsOnly fun datatypeRuleType => ?_
  refine throwsOnly_ite (throwsOnly_ok _) (throwsOnly_bind (PtreeCursor.throwsOnly_name _) fun found => ?_)
  have hmapSizes (cursor : PtreeCursor) (rule : List DdlMapSize → DdlDatatypeRule) :
      ThrowsOnly (ReaderFault pastEnd) (do
        let mapSizesNode ← cursor.getChild pastEnd "map_sizes"
        let cursor := cursor.next
        if cursor.atNode then
          throw (.prefsError ("unexpected node at path ".toList ++ cursor.prefPath))
        return rule (← parseMapSizes pastEnd mapSizesNode (prefPath ++ ".map_sizes".toList))) := by
    refine throwsOnly_bind (PtreeCursor.throwsOnly_getChild _ _) fun mapSizesNode => ?_
    refine throwsOnly_ite (throwsOnly_prefsError _) ?_
    exact throwsOnly_bind (throwsOnly_parseMapSizes _ _) fun mapSizes => throwsOnly_ok _
  have hbehind (cursor : PtreeCursor) (mapName : Text) :=
    throwsOnly_ite (p := (!cursor.atNode) = true) (throwsOnly_ok { datatypeRuleType, mapName })
      (hmapSizes cursor fun mapSizes => { datatypeRuleType, mapName, mapSizes })
  refine throwsOnly_ite ?_ (throwsOnly_bind (throwsOnly_ok _) fun mapName => hbehind _ _)
  exact throwsOnly_bind (PtreeCursor.throwsOnly_getNonemptyString _ _) fun mapName => hbehind _ _

theorem throwsOnly_parseTypeNameDatatypeRule (t : Ptree) (prefPath : Text) :
    ThrowsOnly (ReaderFault pastEnd) (parseTypeNameDatatypeRule pastEnd t prefPath) := by
  unfold parseTypeNameDatatypeRule
  refine throwsOnly_ite (throwsOnly_prefsError _) ?_
  refine throwsOnly_bind (PtreeCursor.throwsOnly_getNonemptyString _ _) fun typeName => ?_
  refine throwsOnly_bind (PtreeCursor.throwsOnly_getChild _ _) fun datatypeNode => ?_
  refine throwsOnly_ite (throwsOnly_prefsError _) ?_
  exact throwsOnly_bind (throwsOnly_parseDatatypeRule _ _) fun rule => throwsOnly_ok _

/-! ### Default values -/

theorem throwsOnly_validateRewrite (macroArgs : DdlDefaultValueRuleMacroArgs) (prefPath : Text) :
    ThrowsOnly (ReaderFault pastEnd) (validateRewrite macroArgs prefPath) := by
  by_cases hbegins : BeginsMatched macroArgs.argcnt macroArgs.rewrite
  · unfold validateRewrite
    rw [rewriteMacroArgs_of_beginsMatched hbegins]
    exact throwsOnly_error (.inr (.inl rfl))
  · exact fun e he => .inl ((caught_validateRewrite_iff macroArgs prefPath).mpr hbegins e he)

theorem throwsOnly_parseMacroArgs (t : Ptree) (prefPath : Text) :
    ThrowsOnly (ReaderFault pastEnd) (parseMacroArgs pastEnd t prefPath) := by
  unfold parseMacroArgs
  refine throwsOnly_bind (PtreeCursor.throwsOnly_getInt32 _ _ _) fun argcnt => ?_
  refine throwsOnly_ite (throwsOnly_ok _) ?_
  refine throwsOnly_bind (PtreeCursor.throwsOnly_getNonemptyString _ _) fun rewrite => ?_
  refine throwsOnly_bind (throwsOnly_validateRewrite _ _) fun _ => ?_
  exact throwsOnly_ite (throwsOnly_ok _) (throwsOnly_prefsError _)

theorem throwsOnly_parseMacroLhsDefaultValueRule (t : Ptree) (prefPath : Text) :
    ThrowsOnly (ReaderFault pastEnd) (parseMacroLhsDefaultValueRule pastEnd t prefPath) := by
  unfold parseMacroLhsDefaultValueRule
  refine throwsOnly_ite (throwsOnly_prefsError _) ?_
  refine throwsOnly_bind (PtreeCursor.throwsOnly_getNonemptyString _ _) fun macroLhs => ?_
  refine throwsOnly_bind (PtreeCursor.throwsOnly_getString _ _) fun macroRhs => ?_
  refine throwsOnly_bind (PtreeCursor.throwsOnly_name _) fun found => ?_
  refine throwsOnly_ite ?_ (throwsOnly_ite (throwsOnly_ok _) (throwsOnly_prefsError _))
  refine throwsOnly_bind (PtreeCursor.throwsOnly_getChild _ _) fun macroArgsNode => ?_
  refine throwsOnly_ite ?_ (throwsOnly_prefsError _)
  exact throwsOnly_bind (throwsOnly_parseMacroArgs _ _) fun macroArgs => throwsOnly_ok _

/-! ### The preferences -/

section Load

variable {ρ : Type} {parse : Ptree → Text → Except Fault (UcString × ρ)}
  (hparse : ∀ t prefPath, ThrowsOnly (ReaderFault pastEnd) (parse t prefPath))

include hparse

theorem throwsOnly_loadRulesFrom (what : String) (c : PtreeCursor) (rules : UnorderedMap UcString ρ)
    (nodes : List (Text × Ptree)) :
    ThrowsOnly (ReaderFault pastEnd) (loadRulesFrom pastEnd parse what c rules nodes) := by
  induction nodes generalizing c rules with
  | nil => exact throwsOnly_ok _
  | cons node nodes ih =>
      unfold loadRulesFrom
      refine throwsOnly_bind (c.throwsOnly_getChild _) fun child => ?_
      refine throwsOnly_bind (hparse _ _) fun rule => ?_
      exact throwsOnly_ite (throwsOnly_prefsError _) (ih _ _)

/-- The handler of a loader leaves the error of the preferences of what can be caught. -/
theorem error_of_loadRulesPrefs {what prefPath : String} {noneLoaded msgPrefix : Text} {prefRoot : Ptree} {e : Fault}
    (h : loadRulesPrefs pastEnd parse what prefPath noneLoaded msgPrefix prefRoot = .error e) :
    (∃ what, e = .prefsError what) ∨ e = .assertion ∨ e = .undefined ∧ pastEnd = none := by
  unfold loadRulesPrefs at h
  dsimp only at h
  split at h
  · cases h
  · rename_i e' herror
    split at h
    · cases h
      exact .inl ⟨_, rfl⟩
    · rename_i hwhat
      cases h
      have hthrown : ReaderFault pastEnd e := by
        refine ThrowsOnly.of_eq_error ?_ herror
        split
        · exact throwsOnly_prefsError _
        · refine throwsOnly_ite (throwsOnly_prefsError _) ?_
          refine throwsOnly_bind (throwsOnly_loadRulesFrom hparse _ _ _ _) fun rules => ?_
          exact throwsOnly_ite (throwsOnly_prefsError _) (throwsOnly_ok _)
      obtain hcaught | hfault := hthrown
      · rw [hwhat] at hcaught
        cases hcaught
      · exact .inr hfault

end Load

/-- What reading preferences throws. -/
theorem error_of_readTableMigratorPrefs {prefRoot : Ptree} {e : Fault}
    (h : readTableMigratorPrefs pastEnd prefRoot = .error e) :
    (∃ what, e = .prefsError what) ∨ e = .assertion ∨ e = .undefined ∧ pastEnd = none := by
  unfold readTableMigratorPrefs at h
  cases hdatatypes : loadDatatypeRulesPrefs pastEnd prefRoot with
  | error e' =>
      rw [hdatatypes] at h
      cases h
      exact error_of_loadRulesPrefs throwsOnly_parseTypeNameDatatypeRule hdatatypes
  | ok datatypeRules =>
      rw [hdatatypes] at h
      cases hdefaults : loadDefaultValueRulesPrefs pastEnd prefRoot with
      | error e' =>
          rw [hdefaults] at h
          cases h
          exact error_of_loadRulesPrefs throwsOnly_parseMacroLhsDefaultValueRule hdefaults
      | ok defaultValueRules =>
          rw [hdefaults] at h
          cases h

end Reader

end Middle.MiddleApp
