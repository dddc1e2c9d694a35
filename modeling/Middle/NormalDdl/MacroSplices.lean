import Middle.Lib.Splices
import Middle.NormalDdl.MacroCalls
import Middle.NormalDdl.MaskedLiterals

/-! What a pass of the macro expander replaces in a text: left-hand sides of rules outside of quoted segments,
with their argument lists, and nothing else. -/

namespace Middle.NormalDdl

open Lib Universals

/-! ### Occurrences of left-hand sides -/

/-- No quoted segment is open behind a text. -/
inductive QuotesClosed : Text → Prop
  | nil : QuotesClosed []
  | quoted {q s : Text} (hq : SqlQuoted q) (h : QuotesClosed s) : QuotesClosed (q ++ s)
  | plain {c : Char} {s : Text} (hquote : isQuote c = false) (h : QuotesClosed s) : QuotesClosed (c :: s)

theorem QuotesClosed.append {s t : Text} (hs : QuotesClosed s) (ht : QuotesClosed t) : QuotesClosed (s ++ t) := by
  induction hs with
  | nil => exact ht
  | quoted hq h ih =>
      rw [List.append_assoc]
      exact .quoted hq ih
  | plain hquote h ih => exact .plain hquote ih

theorem quotesClosed_of_quoted {q : Text} (hq : SqlQuoted q) : QuotesClosed q := by
  rw [← List.append_nil q]
  exact .quoted hq .nil

theorem quotesClosed_of_plain {s : Text} (h : ∀ c ∈ s, isQuote c = false) : QuotesClosed s := by
  induction s with
  | nil => exact .nil
  | cons c s ih =>
      obtain ⟨hc, hs⟩ := List.forall_mem_cons.mp h
      exact .plain hc (ih hs)

theorem isQuote_of_isIdChar {c : Char} (h : MacroExpander.isIdChar c = true) : isQuote c = false := by
  cases hquote : isQuote c with
  | false => rfl
  | true =>
      rw [MacroExpander.isIdChar_of_isQuote hquote] at h
      cases h

theorem IsName.isQuote {n s : Text} (hn : IsName n s) : ∀ c ∈ n, isQuote c = false :=
  fun c hc => isQuote_of_isIdChar (hn.all c hc)

theorem quotesClosed_of_argText {d : Nat} {a : Text} (h : ArgText d a) : QuotesClosed a := by
  induction h with
  | nil => exact .nil
  | quoted hq ha ih => exact .quoted hq ih
  | opening ha ih => exact .plain rfl ih
  | closing ha ih => exact .plain rfl ih
  | comma ha ih => exact .plain rfl ih
  | plain hc hopen ha ih =>
      simp only [isSpecial, Bool.or_eq_false_iff] at hc
      exact .plain hc.1.1.1 ih

theorem quotesClosed_argListText {as : List Text} (h : ∀ a ∈ as, QuotesClosed a) : QuotesClosed (argListText as) := by
  have hclose : QuotesClosed [')'] := .plain rfl .nil
  have hitems : QuotesClosed (List.intercalate [','] as) := by
    induction as with
    | nil => exact .nil
    | cons a as ih =>
        obtain ⟨ha, has⟩ := List.forall_mem_cons.mp h
        cases as with
        | nil =>
            rw [List.intercalate_singleton]
            exact ha
        | cons a' as =>
            rw [List.intercalate_cons_cons, List.append_assoc]
            exact ha.append (.plain rfl (ih has))
  exact .plain rfl (hitems.append hclose)

theorem quotesClosed_of_isArgList {args : List Text} {list : Text} (h : IsArgList args list) : QuotesClosed list := by
  obtain ⟨-, hargs, rfl⟩ | ⟨-, blanks, hblanks, rfl⟩ := h
  · exact quotesClosed_argListText fun a ha => quotesClosed_of_argText ((argText_trimBlanks_iff a).mp (hargs a ha).2)
  · have hnil : trimBlanks blanks = [] := (trimBlanks_eq_nil_iff blanks).mpr hblanks
    refine quotesClosed_argListText fun a ha => ?_
    obtain rfl := List.mem_singleton.mp ha
    refine quotesClosed_of_argText (d := 0) ((argText_trimBlanks_iff a).mp ?_)
    rw [hnil]
    exact .nil

/-- The left-hand side of a rule stands between `pre` and `post`, without letter case, as an SQL name outside of
quoted segments. -/
structure Occurs (rules : DdlDefaultValueRules) (pre n post : Text) (rule : DdlDefaultValueRule) : Prop where
  unmasked : QuotesClosed pre
  name : IsName n post
  find : rules.find (UcString.ofText n) = some rule

/-- What a rule replaces behind its left-hand side, with `post` behind that, and what it puts in the place of
both. -/
inductive Replacement (rule : DdlDefaultValueRule) : Text → Text → Text → Prop
  | name {post : Text} (h : rule.macroArgs = none ∨ post.head? ≠ some '(') : Replacement rule [] post rule.macroRhs
  | call {macroArgs : DdlDefaultValueRuleMacroArgs} {args : List Text} {list post rhsArgs : Text}
      (hmacroArgs : rule.macroArgs = some macroArgs) (hlist : IsArgList args list) (hcount : args.length = macroArgs.argcnt)
      (hrewrite : MacroArgsExpander.rewriteMacroArgs macroArgs (args.map trimBlanks) = .ok rhsArgs) :
      Replacement rule list post (rule.macroRhs ++ rhsArgs)

/-- The parts of a text behind `pre` that a pass keeps and replaces. -/
structure SplicesMacros (rules : DdlDefaultValueRules) (pre : Text) (splices : List (Splice Char)) : Prop where
  kept {part : Text} (h : .kept part ∈ splices) : SqlQuoted part ∨ ∀ c ∈ part, isQuote c = false
  replaced {front behind : List (Splice Char)} {part new : Text} (h : splices = front ++ .replaced part new :: behind) :
    ∃ n list rule, part = n ++ list ∧
      Occurs rules (pre ++ Splice.sources front) n (list ++ Splice.sources behind) rule ∧
      Replacement rule list (Splice.sources behind) new

namespace SplicesMacros

variable {rules : DdlDefaultValueRules} {pre : Text} {splices : List (Splice Char)}

theorem nil : SplicesMacros rules pre [] where
  kept h := absurd h List.not_mem_nil
  replaced h := absurd h.symm (List.append_ne_nil_of_right_ne_nil _ (List.cons_ne_nil _ _))

theorem cons_kept {part : Text} (hpart : SqlQuoted part ∨ ∀ c ∈ part, isQuote c = false)
    (h : SplicesMacros rules (pre ++ part) splices) : SplicesMacros rules pre (.kept part :: splices) where
  kept hmem := by
    obtain heq | hmem := List.mem_cons.mp hmem
    · cases heq
      exact hpart
    · exact h.kept hmem
  replaced {front behind part' new} heq := by
    cases front with
    | nil => cases heq
    | cons x front =>
        obtain ⟨rfl, htail⟩ := List.cons.inj heq
        rw [Splice.sources_cons, ← List.append_assoc]
        exact h.replaced htail

theorem cons_replaced {n list new : Text} {rule : DdlDefaultValueRule}
    (hoccurs : Occurs rules pre n (list ++ Splice.sources splices) rule)
    (hnew : Replacement rule list (Splice.sources splices) new) (h : SplicesMacros rules (pre ++ (n ++ list)) splices) :
    SplicesMacros rules pre (.replaced (n ++ list) new :: splices) where
  kept hmem := h.kept ((List.mem_cons.mp hmem).resolve_left fun heq => by cases heq)
  replaced {front behind part' new'} heq := by
    cases front with
    | nil =>
        cases heq
        refine ⟨n, list, rule, rfl, ?_, hnew⟩
        rw [Splice.sources, List.flatMap_nil, List.append_nil]
        exact hoccurs
    | cons x front =>
        obtain ⟨rfl, htail⟩ := List.cons.inj heq
        rw [Splice.sources_cons, ← List.append_assoc]
        exact h.replaced htail

end SplicesMacros

namespace MacroExpander

variable {rules : DdlDefaultValueRules}

/-- What the tokenizer reads of a text is a list of arguments. -/
theorem isArgList_of_tokenizeText {s : Text} (hopen : s.head? = some '(') {len : Nat} {tokens : List Text}
    (h : MacroArgs.tokenizeText (argsTokenizer MacroArgsExpander.matcher) s = .ok (len, tokens)) :
    ∃ args list, IsArgList args list ∧ tokens = args.map trimBlanks ∧ s = list ++ s.drop len ∧ len = list.length := by
  have hlist := tokenizeText_argList_iff MacroArgsExpander.matcher fun _ => rfl
  obtain ⟨a, as, rest, hall, rfl, rfl, hfinish⟩ := (hlist s hopen len tokens).mp h
  rw [List.drop_left]
  obtain ⟨hne, rfl⟩ | ⟨-, rfl, hnil, rfl⟩ := finishArgs_eq_some_iff.mp hfinish
  · refine ⟨a :: as, _, .inl ⟨List.cons_ne_nil a as, fun x hx => ⟨hne x hx, ?_⟩, rfl⟩, rfl, rfl, rfl⟩
    exact (argText_trimBlanks_iff x).mpr (hall x hx)
  · exact ⟨[], _, .inr ⟨rfl, a, (trimBlanks_eq_nil_iff a).mp hnil, rfl⟩, rfl, rfl, rfl⟩

/-- A call is expanded to a replacement of its name and its list of arguments. -/
theorem replacement_of_expandCall {n s text : Text} {rule : DdlDefaultValueRule} {macroArgs : DdlDefaultValueRuleMacroArgs}
    {len : Nat} (hmacroArgs : rule.macroArgs = some macroArgs) (hopen : s.head? = some '(')
    (h : expandCall n rule macroArgs s = .ok (text, len)) :
    ∃ list, s = list ++ s.drop len ∧ len = list.length ∧ QuotesClosed list ∧ Replacement rule list (s.drop len) text := by
  obtain ⟨tokens, rhsArgs, htokens, hrewrite, hcount, rfl⟩ := expandCall_ok_iff.mp h
  obtain ⟨args, list, hlist, rfl, hs, hlen⟩ := isArgList_of_tokenizeText hopen htokens
  rw [List.length_map] at hcount
  exact ⟨list, hs, hlen, quotesClosed_of_isArgList hlist, .call hmacroArgs hlist hcount hrewrite⟩

/-- An expansion replaces parts of the text behind `pre`. -/
theorem splices_of_expands {s out : Text} (h : Expands rules s out) {pre : Text} (hpre : QuotesClosed pre) :
    ∃ splices, Splice.sources splices = s ∧ Splice.targets splices = out ∧ SplicesMacros rules pre splices := by
  induction h generalizing pre with
  | nil => exact ⟨[], rfl, rfl, .nil⟩
  | @quoted q s out hq h ih =>
      obtain ⟨splices, rfl, rfl, hsplices⟩ := ih (hpre.append (quotesClosed_of_quoted hq))
      exact ⟨.kept q :: splices, Splice.sources_cons _ _, Splice.targets_cons _ _, .cons_kept (.inl hq) hsplices⟩
  | @plain c s out hquote halpha h ih =>
      have hplain : ∀ c' ∈ [c], isQuote c' = false := List.forall_mem_singleton.mpr hquote
      obtain ⟨splices, rfl, rfl, hsplices⟩ := ih (hpre.append (quotesClosed_of_plain hplain))
      exact ⟨.kept [c] :: splices, Splice.sources_cons _ _, Splice.targets_cons _ _, .cons_kept (.inr hplain) hsplices⟩
  | @name n s out hn hfind h ih =>
      obtain ⟨splices, rfl, rfl, hsplices⟩ := ih (hpre.append (quotesClosed_of_plain hn.isQuote))
      exact ⟨.kept n :: splices, Splice.sources_cons _ _, Splice.targets_cons _ _,
        .cons_kept (.inr hn.isQuote) hsplices⟩
  | @replaced n s out rule hn hfind hcall h ih =>
      obtain ⟨splices, rfl, rfl, hsplices⟩ := ih (hpre.append (quotesClosed_of_plain hn.isQuote))
      have hoccurs : Occurs rules pre n ([] ++ Splice.sources splices) rule := ⟨hpre, hn, hfind⟩
      rw [← List.append_nil n] at hsplices
      refine ⟨.replaced (n ++ []) rule.macroRhs :: splices, ?_, Splice.targets_cons _ _,
        .cons_replaced hoccurs (.name hcall) hsplices⟩
      rw [Splice.sources_cons, List.append_nil]
      rfl
  | @call n s text out rule macroArgs len hn hfind hargs hopen hcall h ih =>
      obtain ⟨list, hs, hlen, hlist, hnew⟩ := replacement_of_expandCall hargs hopen hcall
      obtain ⟨splices, hsources, rfl, hsplices⟩ := ih (hpre.append ((quotesClosed_of_plain hn.isQuote).append hlist))
      rw [← hsources] at hs hnew
      have hoccurs : Occurs rules pre n (list ++ Splice.sources splices) rule := ⟨hpre, by rw [← hs]; exact hn, hfind⟩
      refine ⟨.replaced (n ++ list) text :: splices, ?_, Splice.targets_cons _ _, .cons_replaced hoccurs hnew hsplices⟩
      rw [Splice.sources_cons, hs, ← List.append_assoc]
      rfl

/-- A pass that returns has replaced left-hand sides of rules with their argument lists and has kept all the
rest of the text; without a left-hand side outside of quoted segments it returns null. -/
theorem expandOnce_splices {text : Text} {r : Option Text} (h : expandOnce rules text = .ok r) :
    (∃ splices, Splice.sources splices = text ∧ SplicesMacros rules [] splices ∧
      r = if Splice.targets splices = text then none else some (Splice.targets splices)) ∧
    ((∀ pre n post rule, text = pre ++ (n ++ post) → ¬ Occurs rules pre n post rule) → r = none) := by
  obtain ⟨out, hexpands, rfl⟩ := expands_of_expandOnce rules h
  obtain ⟨splices, rfl, rfl, hsplices⟩ := splices_of_expands hexpands .nil
  refine ⟨⟨splices, rfl, hsplices, rfl⟩, fun hno => if_pos (Splice.targets_eq_sources fun part new hmem => ?_)⟩
  obtain ⟨front, behind, heq⟩ := List.append_of_mem hmem
  obtain ⟨n, list, rule, rfl, hoccurs, -⟩ := hsplices.replaced heq
  refine hno _ _ _ rule ?_ hoccurs
  rw [heq, Splice.sources_append, Splice.sources_cons]
  simp only [Splice.source, List.nil_append, List.append_assoc]

/-- One rule, which takes `hello` with an argument to `there` with the same. -/
def helloRules : DdlDefaultValueRules :=
  ⟨[(UcString.ofText "hello".toList, ⟨"there".toList, some ⟨1, "($1)".toList⟩⟩)], List.nodup_singleton _⟩

/-- A quoted name is kept. -/
theorem expandOnce_splices_hello :
    ∃ splices, Splice.sources splices = "'hello' + Hello( 2 )".toList ∧
      Splice.targets splices = "'hello' + there(2)".toList ∧ SplicesMacros helloRules [] splices := by
  have hexpand : expandOnce helloRules "'hello' + Hello( 2 )".toList = .ok (some "'hello' + there(2)".toList) := by
    decide +kernel
  obtain ⟨⟨splices, hsources, hsplices, htargets⟩, -⟩ := expandOnce_splices hexpand
  refine ⟨splices, hsources, ?_, hsplices⟩
  split at htargets
  · cases htargets
  · exact (Option.some.inj htargets).symm

end MacroExpander

end Middle.NormalDdl
