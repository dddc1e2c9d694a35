import Middle.MiddleApp.PrefsReader
import Middle.NormalDdl.RewriteOverflows

/-! What validating a rewrite ends in: it returns, throws what the reader throws, or does neither. -/

namespace Middle.MiddleApp

open Lib Universals NormalDdl

/-- The validation of a rewrite accepts it or refuses it with an error of the preferences. -/
def Decides (macroArgs : DdlDefaultValueRuleMacroArgs) (prefPath : Text) : Prop :=
  validateRewrite macroArgs prefPath = .ok () ∨ ∃ what, validateRewrite macroArgs prefPath = .error (.prefsError what)

/-- A rewrite is accepted if the rewriter returns that leaves its placeholders alone. -/
theorem validateRewrite_eq_ok_iff (macroArgs : DdlDefaultValueRuleMacroArgs) (prefPath : Text) :
    validateRewrite macroArgs prefPath = .ok () ↔
      ∃ validated, MacroArgsRewriter.rewriteMacroArgs macroArgs .ok = .ok validated := by
  unfold validateRewrite
  cases MacroArgsRewriter.rewriteMacroArgs macroArgs .ok with
  | ok validated => exact iff_of_true rfl ⟨validated, rfl⟩
  | error e =>
      refine iff_of_false ?_ (by simp)
      cases e <;> simp

theorem validateRewrite_of_error {macroArgs : DdlDefaultValueRuleMacroArgs} {e : Fault}
    (h : MacroArgsRewriter.rewriteMacroArgs macroArgs .ok = .error e) (he : e.isTextError = false) (prefPath : Text) :
    validateRewrite macroArgs prefPath = .error e := by
  unfold validateRewrite
  rw [h]
  cases e with
  | rejectedText => cases he
  | malformedText => cases he
  | _ => rfl

theorem decides_of_isTextError {macroArgs : DdlDefaultValueRuleMacroArgs} {e : Fault}
    (h : MacroArgsRewriter.rewriteMacroArgs macroArgs .ok = .error e) (he : e.isTextError = true) (prefPath : Text) :
    Decides macroArgs prefPath := by
  unfold Decides validateRewrite
  rw [h]
  cases e with
  | rejectedText textPos what => exact .inr ⟨_, rfl⟩
  | malformedText textPos what => exact .inr ⟨_, rfl⟩
  | _ => cases he

/-- What is no text error goes through. -/
theorem not_decides_of_error {macroArgs : DdlDefaultValueRuleMacroArgs} {e : Fault}
    (h : MacroArgsRewriter.rewriteMacroArgs macroArgs .ok = .error e) (he : e = .assertion ∨ e = .badLexicalCast)
    (prefPath : Text) : ¬ Decides macroArgs prefPath := by
  have htext : e.isTextError = false := by
    obtain rfl | rfl := he <;> rfl
  rw [Decides, validateRewrite_of_error h htext]
  rintro (hok | ⟨what, herror⟩)
  · cases hok
  · cases herror
    exact absurd he (by simp)

/-- Validating a rewrite accepts or refuses it exactly if it does not begin with a match and no number that is
read overflows. -/
theorem decides_iff (macroArgs : DdlDefaultValueRuleMacroArgs) (prefPath : Text) :
    Decides macroArgs prefPath ↔
      ¬ BeginsMatched macroArgs.argcnt macroArgs.rewrite ∧ ¬ Overflows macroArgs.argcnt macroArgs.rewrite := by
  constructor
  · intro h
    constructor
    · intro hbegins
      exact not_decides_of_error (rewriteMacroArgs_of_beginsMatched hbegins) (.inl rfl) prefPath h
    · intro hoverflows
      exact not_decides_of_error ((rewriteMacroArgs_badLexicalCast_iff macroArgs).mpr hoverflows) (.inr rfl) prefPath h
  · rintro ⟨hbegins, hoverflows⟩
    cases hrewrite : MacroArgsRewriter.rewriteMacroArgs macroArgs .ok with
    | ok tokens =>
        left
        rw [validateRewrite, hrewrite]
    | error e =>
        obtain htext | rfl := validationFault_of_rewriteMacroArgs hbegins hrewrite
        · exact decides_of_isTextError hrewrite htext prefPath
        · exact absurd ((rewriteMacroArgs_badLexicalCast_iff macroArgs).mp hrewrite) hoverflows

/-- A quote in front of the list trips an assertion. -/
theorem not_decides_quoted :
    validateRewrite ⟨1, "'a'($1)".toList⟩ "rules[1].macro_args".toList = .error .assertion ∧
      ¬ Decides ⟨1, "'a'($1)".toList⟩ "rules[1].macro_args".toList := by
  have hrewrite : MacroArgsRewriter.rewriteMacroArgs ⟨1, "'a'($1)".toList⟩ .ok = .error .assertion := by decide +kernel
  exact ⟨validateRewrite_of_error hrewrite rfl _, not_decides_of_error hrewrite (.inl rfl) _⟩

end Middle.MiddleApp
