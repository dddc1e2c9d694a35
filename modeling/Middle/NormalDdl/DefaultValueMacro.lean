import Middle.Lib.Passes
import Middle.NormalDdl.ColumnRules

/-! Expanding default value macros (`ddl_default_value_rule_macro`): one pass replaces every SQL name a
rule has on its left-hand side, with its argument list where the rule takes arguments, and passes are
repeated until one of them changes nothing. -/

namespace Middle.NormalDdl

open Lib Universals

namespace MacroArgsRewriter

/-- `macro_args_rewriter::rewrite_arg_placeholder` on the text of a placeholder. -/
def rewriteArgPlaceholder (tokens : List Text) (span : Text) : Except Fault Text :=
  match parseMacroArgsPlaceholder span with
  | .error e => .error e
  -- only part of the placeholder's escape is left, and its number is read uninitialised
  | .ok (_, none) => .error .undefined
  | .ok (_, some ph) =>
      match tokens[ph.phNumber - 1]? with
      | none => .error .assertion
      | some token =>
          if ph.phNumber = 0 then .error .assertion
          else if ¬ (ph.phRangeEnd = 0 ∨ ph.phNumber ≤ ph.phRangeEnd ∧ ph.phRangeEnd ≤ tokens.length) then
            .error .assertion
          else if ph.phNumber < ph.phRangeEnd then
            let range := (tokens.drop ph.phNumber).take (ph.phRangeEnd - ph.phNumber)
            .ok (token ++ (range.map (", ".toList ++ ·)).flatten)
          else .ok token

end MacroArgsRewriter

/-- `ddl_default_value_rule_macro_args_result`, its iterator counted from the opening parenthesis. -/
structure MacroArgsResult where
  pos : Nat
  macroLhsArgcnt : Nat
  macroRhsArgs : Text
  deriving DecidableEq, Repr

namespace MacroArgsExpander

/-- `ddl_default_value_rule_macro_args_expander::rewrite_macro_args`. -/
def rewriteMacroArgs (macroArgs : DdlDefaultValueRuleMacroArgs) (tokens : List Text) :
    Except Fault Text :=
  if macroArgs.rewrite = [] then .ok []
  else
    match MacroArgsRewriter.rewriteMacroArgs macroArgs (MacroArgsRewriter.rewriteArgPlaceholder tokens) with
    | .error e => .error e
    | .ok rewritten => .ok ('(' :: (List.intercalate ", ".toList rewritten ++ [')']))

/-- The application's matcher of the arguments of a call: it never matches. -/
def matcher : TextMatcher := ⟨fun _ => .ok 0, "DDL default value rule macro args".toList⟩

/-- `ddl_default_value_rule_macro_args_expander::expand_macro_args`. -/
def expandMacroArgs (macroArgs : DdlDefaultValueRuleMacroArgs) (macroArgsText : Text) :
    Except Fault MacroArgsResult :=
  match MacroArgs.tokenizeText (sqlMacroArgsExpander matcher MacroArgs.processMatch) macroArgsText with
  | .error e => .error e
  | .ok (pos, tokens) =>
      match rewriteMacroArgs macroArgs tokens with
      | .error e => .error e
      | .ok macroRhsArgs => .ok ⟨pos, tokens.length, macroRhsArgs⟩

end MacroArgsExpander

namespace MacroExpander

def makeArgcntMismatchMsg (macroLhs macroArgsText : Text) (expectedArgcnt foundArgcnt : Nat) : Text :=
  "arg count mismatch on expanding args for default value rule macro '".toList ++ macroLhs ++
    "' at '".toList ++ macroArgsText ++ "': expected ".toList ++ lexicalCast expectedArgcnt ++
    ", found ".toList ++ lexicalCast foundArgcnt

def makeRejectedTextMsg (macroLhs macroArgsText : Text) (textPos : Nat) : Text :=
  "rejected text on expanding args for default value rule macro '".toList ++ macroLhs ++
    "' at '".toList ++ macroArgsText ++ "' (pos ".toList ++ lexicalCast textPos ++ ")".toList

def makeMalformedTextMsg (macroLhs macroArgsText : Text) (textPos : Nat) : Text :=
  "malformed text on expanding args for default value rule macro '".toList ++ macroLhs ++
    "' at '".toList ++ macroArgsText ++ "' (pos ".toList ++ lexicalCast textPos ++ ")".toList

def isIdChar (c : Char) : Bool := c.isAlphanum || c = '_'

/-- `ddl_default_value_rule_macro_expander::match`: an SQL name. -/
def matcher : TextMatcher where
  find
    | [] => .ok 0
    | c :: s => .ok (if c.isAlpha then 1 + (s.takeWhile isIdChar).length else 0)
  what := "DDL default value rule macro".toList

/-- The call of a macro: what is put in its place, and the length of its argument list. -/
def expandCall (macroLhs : Text) (rule : DdlDefaultValueRule) (macroArgs : DdlDefaultValueRuleMacroArgs)
    (macroArgsText : Text) : Except Fault (Text × Nat) :=
  match MacroArgsExpander.expandMacroArgs macroArgs macroArgsText with
  | .error (.rejectedText pos what) =>
      .error (.invalidArgument (makeRejectedTextMsg macroLhs macroArgsText pos ++ ": ".toList ++ what))
  | .error (.malformedText pos what) =>
      .error (.invalidArgument (makeMalformedTextMsg macroLhs macroArgsText pos ++ ": ".toList ++ what))
  | .error e => .error e
  | .ok r =>
      if r.macroLhsArgcnt ≠ macroArgs.argcnt then
        .error (.invalidArgument
          (makeArgcntMismatchMsg macroLhs macroArgsText macroArgs.argcnt r.macroLhsArgcnt))
      else .ok (rule.macroRhs ++ r.macroRhsArgs, r.pos)

variable (rules : DdlDefaultValueRules)

/-- What `process_match` appends for the span that was matched, and where it goes on. -/
def expandMatch (s : Text) (m : TextMatch) : Except Fault (Text × Nat) :=
  let span := s.take m.len
  if m.len = 0 then .error .assertion
  else if ¬ s.head?.any Char.isAlpha then .ok (span, m.len)
  else
    match rules.find (UcString.ofText span) with
    | none => .ok (span, m.len)
    | some rule =>
        let macroArgsText := s.drop m.len
        -- behind the last character stands the terminating null
        match rule.macroArgs with
        | some macroArgs =>
            if macroArgsText.head? = some '(' then
              match expandCall span rule macroArgs macroArgsText with
              | .error e => .error e
              | .ok (text, len) => .ok (text, m.len + len)
            else .ok (rule.macroRhs, m.len)
        | none => .ok (rule.macroRhs, m.len)

/-- `ddl_default_value_rule_macro_expander`, with the appended text as its state. -/
def processor : TextProcessor Text where
  appMatcher := matcher
  maskMatchers := macroMaskMatchers
  processMatch s m := fun appendedText =>
    match expandMatch rules s m with
    | .error e => .error e appendedText
    | .ok (text, len) => .ok ⟨len, false⟩ (appendedText ++ text)

/-- `expand_macro` on an expander that may have been used before: `none` is the null pointer. -/
def expandMacro (macroText : Text) : EStateM Fault Text (Option Text) := do
  let (_, text) ← appendText (processor rules) macroText
  return if text = macroText then none else some text

/-- `expand_macro` on a fresh expander. -/
def expandOnce (macroText : Text) : Except Fault (Option Text) :=
  match (expandMacro rules macroText).run [] with
  | .error e _ => .error e
  | .ok text _ => .ok text

/-- `expand_all_macros` on a fresh expander. `fuel` bounds the turns of its loop, which has no bound. -/
def expandAllMacros (fuel : Nat) (macroText : Text) : Except Fault (Option Text) :=
  match expandOnce rules macroText with
  | .error e => .error e
  | .ok none => .ok none
  | .ok (some text) =>
      if text = [] then .ok (some text)
      else
        match Passes.run (expandOnce rules) List.isEmpty fuel text with
        | none => .error .outOfFuel
        | some (.error e) => .error e
        | some (.ok text) => .ok (some text)

end MacroExpander

end Middle.NormalDdl
