import Middle.Lib.UnorderedMap
import Middle.Universals.MacroArgsExpander

/-! The rules a migration is configured with (`ddl_column_rules`): how data types are mapped, which
default value macros are expanded, and how the arguments of a macro are rewritten. -/

namespace Middle.NormalDdl

open Lib Universals

inductive DdlDatatypeRuleType where
  | rejected
  | unsized
  | charLength
  | precisionScale
  | dtPrecision
  deriving DecidableEq, Repr

inductive DdlMapSizeType where
  | rejectDefined
  | suppress
  | narrow
  | assign
  | assignUndefined
  | rejectUndefined
  | scaleRejectDefined
  | scaleSuppress
  | scaleNarrow
  | scaleAssign
  | scaleAssignUndefined
  | scaleRejectUndefined
  deriving DecidableEq, Repr

/-- `scale_map_size_type`. -/
def scaleMapSizeType : DdlMapSizeType → Bool
  | .scaleRejectDefined | .scaleSuppress | .scaleNarrow | .scaleAssign | .scaleAssignUndefined
  | .scaleRejectUndefined => true
  | _ => false

structure DdlMapSize where
  mapSizeType : DdlMapSizeType := .rejectDefined
  rangeMin : Int32 := Int32.minValue
  rangeMax : Int32 := Int32.maxValue
  newValue : Int32 := 0
  deriving DecidableEq, Repr

structure DdlDatatypeRule where
  datatypeRuleType : DdlDatatypeRuleType
  mapName : Text := []
  mapSizes : List DdlMapSize := []
  deriving DecidableEq, Repr

/-- `ddl_default_value_rule_macro_args`; no rewrite is the empty text. -/
structure DdlDefaultValueRuleMacroArgs where
  argcnt : Nat
  rewrite : Text := []
  deriving DecidableEq, Repr

structure DdlDefaultValueRule where
  macroRhs : Text
  macroArgs : Option DdlDefaultValueRuleMacroArgs := none
  deriving DecidableEq, Repr

abbrev DdlDatatypeRules := UnorderedMap UcString DdlDatatypeRule

abbrev DdlDefaultValueRules := UnorderedMap UcString DdlDefaultValueRule

/-- `ddl_table_migrator_prefs`. -/
structure DdlTableMigratorPrefs where
  datatypeRules : DdlDatatypeRules
  defaultValueRules : DdlDefaultValueRules

/-! ### The SQL matchers -/

def sqlBlockCommentMatcher : TextMatcher := blockCommentMatcher

def sqlLineCommentMatcher : TextMatcher := lineCommentMatcher "--".toList

def sqlSingleQuote : QuoteMatcher := {}

def sqlDoubleQuote : QuoteMatcher := { quoteC := '"' }

/-- `ddl_default_value_rule_macro_mask_matchers`. -/
def macroMaskMatchers : List TextMatcher := [sqlSingleQuote.matcher, sqlDoubleQuote.matcher]

/-- `ddl_default_value_rule_macro_reject_matchers`. -/
def macroRejectMatchers : List TextMatcher := [sqlBlockCommentMatcher, sqlLineCommentMatcher]

/-- A `macro_args_expander` constructed with the SQL mask and reject matchers. -/
def sqlMacroArgsExpander (appMatcher : TextMatcher)
    (step : MacroArgs → Text → TextMatch → Except Fault (MacroArgs × ProcessMatchResult)) :
    TextProcessor MacroArgs :=
  MacroArgs.processor appMatcher macroMaskMatchers macroRejectMatchers step

/-! ### Rewriting macro arguments -/

/-- `ddl_default_value_rule_macro_args_placeholder`. -/
structure MacroArgsPlaceholder where
  phNumber : Nat
  phRangeEnd : Nat
  deriving DecidableEq, Repr

/-- `lexical_cast<std::string>` of a number. -/
def lexicalCast (n : Nat) : Text := (toString n).toList

theorem isDigit_of_mem_lexicalCast {n : Nat} {c : Char} (h : c ∈ lexicalCast n) : c.isDigit = true := by
  have hdigits : c ∈ Nat.toDigits 10 n := by
    rw [← Nat.toList_repr]
    exact h
  exact Nat.isDigit_of_mem_toDigits (by decide) (by decide) hdigits

/-- `lexical_cast<unsigned int>` of decimal digits. -/
def castDigits (digits : Text) : Except Fault Nat :=
  let n := digits.foldl (fun n c => 10 * n + (c.toNat - '0'.toNat)) 0
  if n < 2 ^ 32 then .ok n else .error .badLexicalCast

/-- The backslash that closes a placeholder in front of a character that would go on with it. -/
def closingBackslash (goesOn : Char → Bool) : Text → Nat
  | '\\' :: c :: _ => if goesOn c then 1 else 0
  | _ => 0

/-- The part of `parse_macro_args_placeholder` behind `$n-`, `pos` characters from the `$`. -/
def parsePlaceholderRangeEnd (phNumber pos : Nat) (s : Text) :
    Except Fault (Nat × Option MacroArgsPlaceholder) :=
  let digits := s.takeWhile Char.isDigit
  let pos' := pos + digits.length
  if s.head? = some '0' then
    .error (.malformedText pos "invalid macro arg placeholder range end leading 0".toList)
  else
    match if digits = [] then .ok 0 else castDigits digits with
    | .error e => .error e
    | .ok phRangeEnd =>
        if digits ≠ [] ∧ phRangeEnd ≤ phNumber then
          .error (.malformedText pos' "invalid macro arg placeholder range".toList)
        else .ok (pos' + closingBackslash Char.isDigit (s.drop digits.length), some ⟨phNumber, phRangeEnd⟩)

/-- The part of it behind `$n`. -/
def parsePlaceholderEnd (phNumber pos : Nat) : Text → Except Fault (Nat × Option MacroArgsPlaceholder)
  | '-' :: s => parsePlaceholderRangeEnd phNumber (pos + 1) s
  | s => .ok (pos + closingBackslash (fun c => c.isDigit || c = '-') s, some ⟨phNumber, phNumber⟩)

/-- `parse_macro_args_placeholder`: how far it reads and what it stores in the placeholder, which it
leaves uninitialised where it reads none. -/
def parseMacroArgsPlaceholder : Text → Except Fault (Nat × Option MacroArgsPlaceholder)
  | [] => .error .undefined
  | '\\' :: '$' :: _ => .ok (1, none)
  | '$' :: s =>
      let digits := s.takeWhile Char.isDigit
      let pos := 1 + digits.length
      if s.head? = some '0' then
        .error (.malformedText 1 "invalid macro arg placeholder number leading 0".toList)
      else if digits = [] then
        .error (.malformedText 1 "empty macro arg placeholder number".toList)
      else
        match castDigits digits with
        | .error e => .error e
        | .ok phNumber => parsePlaceholderEnd phNumber pos (s.drop digits.length)
  | _ => .ok (0, none)

namespace MacroArgsRewriter

/-- `ddl_default_value_rule_macro_args_rewriter::match`. -/
def find (argcnt : Nat) (s : Text) : Except Fault Nat :=
  match parseMacroArgsPlaceholder s with
  | .error e => .error e
  | .ok (len, none) => .ok len
  | .ok (len, some ph) =>
      if argcnt < ph.phNumber ∨ argcnt < ph.phRangeEnd then
        .error (.malformedText len ("macro arg placeholder number ".toList ++ lexicalCast ph.phNumber ++
          " exceeds arg count ".toList ++ lexicalCast argcnt))
      else .ok len

/-- `ddl_default_value_rule_macro_args_rewriter::process_match`, with `rewriteArgPlaceholder` as what
the virtual function of that name leaves of a placeholder. -/
def processMatch (rewriteArgPlaceholder : Text → Except Fault Text) (st : MacroArgs) (s : Text)
    (m : TextMatch) : Except Fault (MacroArgs × ProcessMatchResult) :=
  match st.processMatch s m with
  | .error e => .error e
  | .ok (st, r) =>
      if r.atMatchesEnd then .ok (st, r)
      else if st.tokens = [] then .error .assertion
      else if m.matchedBy = some .app ∧ s.head? ≠ some '(' then
        match rewriteArgPlaceholder (s.take m.len) with
        | .error e => .error e
        | .ok rewritten =>
            let replace (token : Text) := token.take (token.length - m.len) ++ rewritten
            .ok ({ st with tokens := modifyBack replace st.tokens }, r)
      else .ok (st, r)

/-- `ddl_default_value_rule_macro_args_rewriter::rewrite_macro_args`. -/
def rewriteMacroArgs (macroArgs : DdlDefaultValueRuleMacroArgs)
    (rewriteArgPlaceholder : Text → Except Fault Text) : Except Fault (List Text) :=
  let matcher := ⟨find macroArgs.argcnt, "DDL default value rules macro args rewrite".toList⟩
  let p := sqlMacroArgsExpander matcher (processMatch rewriteArgPlaceholder)
  match MacroArgs.tokenizeText p macroArgs.rewrite with
  | .error e => .error e
  | .ok (_, tokens) => .ok tokens

end MacroArgsRewriter

/-- A rule whose rewrite, if it has one, the rewriter can read. -/
def DdlDefaultValueRule.Validated (rule : DdlDefaultValueRule) : Prop :=
  ∀ macroArgs, rule.macroArgs = some macroArgs →
    macroArgs.rewrite = [] ∨ ∃ tokens, MacroArgsRewriter.rewriteMacroArgs macroArgs .ok = .ok tokens

end Middle.NormalDdl
