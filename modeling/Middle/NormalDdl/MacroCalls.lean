import Middle.MiddleApp.PrefsReader
import Middle.NormalDdl.MacroPlaceholders

/-! Calls of a macro: what a pass makes of a name with a list of arguments behind it, whatever stands in front of it. The
arguments are counted behind the rewrite. -/

namespace Middle.NormalDdl

open Lib Universals MiddleApp

/-- The text of a parenthesised list of well-formed arguments. -/
def IsArgList (args : List Text) (list : Text) : Prop :=
  args ≠ [] ∧ (∀ a ∈ args, WellFormedArg a) ∧ list = argListText args ∨
    args = [] ∧ ∃ blanks, (∀ c ∈ blanks, isBlank c = true) ∧ list = argListText [blanks]

theorem tokenizeText_of_isArgList {args : List Text} {list : Text} (h : IsArgList args list) (rest : Text) :
    MacroArgs.tokenizeText (argsTokenizer MacroArgsExpander.matcher) (list ++ rest) =
      .ok (list.length, args.map trimBlanks) := by
  have hlist := tokenizeText_argList_iff MacroArgsExpander.matcher fun _ => rfl
  obtain ⟨hne, hargs, rfl⟩ | ⟨rfl, blanks, hblanks, rfl⟩ := h
  · obtain ⟨a, as, rfl⟩ := List.exists_cons_of_ne_nil hne
    refine (hlist (argListText (a :: as) ++ rest) rfl _ _).mpr ⟨a, as, rest, fun x hx => ?_, rfl, rfl, ?_⟩
    · exact (argText_trimBlanks_iff x).mp (hargs x hx).2
    · exact finishArgs_eq_some_iff.mpr (.inl ⟨fun x hx => (hargs x hx).1, rfl⟩)
  · have hnil : trimBlanks blanks = [] := (trimBlanks_eq_nil_iff blanks).mpr hblanks
    refine (hlist (argListText [blanks] ++ rest) rfl _ _).mpr ⟨blanks, [], rest, fun x hx => ?_, rfl, rfl, ?_⟩
    · obtain rfl := List.mem_singleton.mp hx
      rw [← argText_trimBlanks_iff, hnil]
      exact .nil
    · exact finishArgs_eq_some_iff.mpr (.inr ⟨rfl, rfl, hnil, rfl⟩)

theorem IsArgList.head {args : List Text} {list : Text} (h : IsArgList args list) : list.head? = some '(' := by
  obtain ⟨-, -, rfl⟩ | ⟨-, blanks, -, rfl⟩ := h <;> rfl

namespace MacroExpander

variable {rules : DdlDefaultValueRules}

section Call

variable {macroLhs macroArgsText : Text} {pos : Nat} {tokens : List Text} {rule : DdlDefaultValueRule}
  {macroArgs : DdlDefaultValueRuleMacroArgs}
  (htokens : MacroArgs.tokenizeText (argsTokenizer MacroArgsExpander.matcher) macroArgsText = .ok (pos, tokens))

include htokens in
/-- Behind the rewrite the arguments are counted. -/
theorem expandCall_of_rewriteMacroArgs {rhsArgs : Text}
    (hrewrite : MacroArgsExpander.rewriteMacroArgs macroArgs tokens = .ok rhsArgs) :
    expandCall macroLhs rule macroArgs macroArgsText =
      if tokens.length ≠ macroArgs.argcnt then
        .error (.invalidArgument
          (makeArgcntMismatchMsg macroLhs macroArgsText macroArgs.argcnt tokens.length))
      else .ok (rule.macroRhs ++ rhsArgs, pos) := by
  unfold expandCall MacroArgsExpander.expandMacroArgs
  rw [htokens]
  dsimp only
  rw [hrewrite]

include htokens in
theorem expandCall_error {e : Fault} (hrewrite : MacroArgsExpander.rewriteMacroArgs macroArgs tokens = .error e)
    (he : e = .assertion ∨ e = .undefined) : expandCall macroLhs rule macroArgs macroArgsText = .error e := by
  unfold expandCall MacroArgsExpander.expandMacroArgs
  rw [htokens]
  dsimp only
  rw [hrewrite]
  obtain rfl | rfl := he <;> rfl

end Call

/-- A pass that gets to a call of a rule that the reader has accepted puts the right-hand side and the rewritten
arguments in its place when these are as many as declared, and refuses it for their number when they are not, exactly
if they are enough for the rewrite. -/
theorem call_settled_iff {pastEnd : Option (Text × Ptree)} {prefRoot : Ptree} {prefs : DdlTableMigratorPrefs}
    (hread : readTableMigratorPrefs pastEnd prefRoot = .ok prefs) {name : Text} {rule : DdlDefaultValueRule}
    (hfind : prefs.defaultValueRules.find (UcString.ofText name) = some rule)
    {macroArgs : DdlDefaultValueRuleMacroArgs} (hmacroArgs : rule.macroArgs = some macroArgs)
    {args : List Text} {list : Text} (hlist : IsArgList args list) {text out rest : Text}
    (hname : IsName name (list ++ rest))
    (hreach : Relation.ReflTransGen (Turn prefs.defaultValueRules) (text, []) (name ++ (list ++ rest), out)) :
    ((args.length = macroArgs.argcnt →
        ∃ rhsArgs, MacroArgsExpander.rewriteMacroArgs macroArgs (args.map trimBlanks) = .ok rhsArgs ∧
          Turn prefs.defaultValueRules (name ++ (list ++ rest), out) (rest, out ++ (rule.macroRhs ++ rhsArgs))) ∧
      (args.length ≠ macroArgs.argcnt →
        expandOnce prefs.defaultValueRules text = .error (.invalidArgument
          (makeArgcntMismatchMsg name (list ++ rest) macroArgs.argcnt args.length)))) ↔
      Enough macroArgs args.length := by
  have htokens := tokenizeText_of_isArgList hlist rest
  have hedged := edged_of_tokenizeText htokens
  have hlength : (args.map trimBlanks).length = args.length := List.length_map _
  have hrewrite := rewriteMacroArgs_of_enough hedged
    (validated_of_readTableMigratorPrefs hread _ rule hfind macroArgs hmacroArgs)
  have hopen : (list ++ rest).head? = some '(' := by
    obtain ⟨s, rfl⟩ := List.head?_eq_some_iff.mp hlist.head
    rfl
  have hnext : (processor prefs.defaultValueRules).nextMatch 0 (name ++ (list ++ rest)) = .ok ⟨name.length, some .app⟩ :=
    nextMatch_name hname 0
  have hcall : IsCall prefs.defaultValueRules name (list ++ rest) rule macroArgs := ⟨hname, hfind, hmacroArgs, hopen⟩
  have hmatch := expandMatch_call prefs.defaultValueRules hcall
  obtain ⟨c, w, rfl, -⟩ := hname.head
  rw [hlength] at hrewrite
  split at hrewrite
  · rename_i henough
    obtain ⟨rhsArgs, hrewrite⟩ := hrewrite
    have hexpand : expandCall (c :: w) rule macroArgs (list ++ rest) = _ := expandCall_of_rewriteMacroArgs htokens hrewrite
    rw [hlength] at hexpand
    refine iff_of_true ⟨fun hcount => ?_, fun hcount => ?_⟩ henough
    · rw [if_neg (not_not.mpr hcount)] at hexpand
      have hturn := turn_call hcall hexpand out
      rw [List.drop_left] at hturn
      exact ⟨rhsArgs, hrewrite, hturn⟩
    · rw [if_pos hcount] at hexpand
      rw [hexpand] at hmatch
      exact expandOnce_error hreach hnext hmatch
  · rename_i henough
    obtain ⟨e, hrewrite, he⟩ := hrewrite
    rw [expandCall_error htokens hrewrite he] at hmatch
    refine iff_of_false (fun h => ?_) henough
    by_cases hcount : args.length = macroArgs.argcnt
    · obtain ⟨rhsArgs, hok, -⟩ := h.1 hcount
      cases hok.symm.trans hrewrite
    · have hthrown := (expandOnce_error hreach hnext hmatch).symm.trans (h.2 hcount)
      obtain rfl | rfl := he <;> cases hthrown

/-- Preferences with a rule that takes `f` with arguments to `g` with a rewrite of them. -/
def callPrefsTree (argcnt rewrite : String) : Ptree :=
  .object [
    ("datatype_rules", .object [("", .object [("type_name", .leaf "INT"),
      ("datatype", .object [("type", .leaf "unsized")])])]),
    ("default_value_rules", .object [("", .object [("macro_lhs", .leaf "f"), ("macro_rhs", .leaf "g"),
      ("macro_args", .object [("argcnt", .leaf argcnt), ("rewrite", .leaf rewrite)])])])]

/-- An argument too many is refused when all that the rewrite asks for are there. -/
theorem call_settled_surplus :
    ∃ prefs, readTableMigratorPrefs none (callPrefsTree "1" "($1)") = .ok prefs ∧
      expandOnce prefs.defaultValueRules "f(1,2)".toList = .error (.invalidArgument
        (makeArgcntMismatchMsg "f".toList "(1,2)".toList 1 2)) := by
  obtain ⟨prefs, hread, hfind⟩ : ∃ prefs, readTableMigratorPrefs none (callPrefsTree "1" "($1)") = .ok prefs ∧
      prefs.defaultValueRules.find (UcString.ofText "f".toList) = some ⟨"g".toList, some ⟨1, "($1)".toList⟩⟩ :=
    ⟨_, rfl, by decide +kernel⟩
  have hlist : IsArgList ["1".toList, "2".toList] "(1,2)".toList := by
    refine .inl ⟨by decide, ?_, by decide⟩
    simp only [List.forall_mem_cons, List.not_mem_nil, false_imp_iff, implies_true, and_true]
    refine ⟨⟨by decide, .plain (by decide) ?_ .nil⟩, by decide, .plain (by decide) ?_ .nil⟩
    · exact not_opensComment_of_ne (by decide) (by decide) _
    · exact not_opensComment_of_ne (by decide) (by decide) _
  have hname : IsName "f".toList ("(1,2)".toList ++ []) := by
    refine ⟨⟨'f', [], rfl, by decide⟩, fun c hc => ?_, fun c hc => ?_⟩
    · obtain rfl : c = 'f' := List.mem_singleton.mp hc
      decide
    · obtain rfl : '(' = c := Option.some.inj hc
      decide
  have henough : Enough ⟨1, "($1)".toList⟩ 2 := .inr (by decide +kernel)
  exact ⟨prefs, hread, ((call_settled_iff hread hfind rfl hlist hname .refl).mpr henough).2 (by decide)⟩

/-- An argument that the rewrite asks for is read before it is missed. -/
theorem call_unsettled :
    ∃ prefs rule macroArgs, readTableMigratorPrefs none (callPrefsTree "2" "($2)") = .ok prefs ∧
      prefs.defaultValueRules.find (UcString.ofText "f".toList) = some rule ∧ rule.macroArgs = some macroArgs ∧
      macroArgs.argcnt = 2 ∧ IsArgList ["1".toList] "(1)".toList ∧
      expandOnce prefs.defaultValueRules "f(1)".toList = .error .assertion := by
  refine ⟨_, _, _, rfl, rfl, rfl, rfl, .inl ⟨by decide, ?_, by decide⟩, by decide +kernel⟩
  simp only [List.forall_mem_cons, List.not_mem_nil, false_imp_iff, implies_true, and_true]
  exact ⟨by decide, .plain (by decide) (not_opensComment_of_ne (by decide) (by decide) _) .nil⟩

end MacroExpander

end Middle.NormalDdl
