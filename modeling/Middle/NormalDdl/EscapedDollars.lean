import Middle.NormalDdl.RewriteMeaning

/-! Escaped dollars of a rewrite. The scan takes an escape for a placeholder of one character, the backslash,
and goes on with the dollar; the rewriter reads no placeholder from a backslash, and what it does depends on the
numbers of one that was never read. -/

namespace Middle.NormalDdl

open Lib Universals

/-! ### Placeholders that were never read -/

namespace MacroArgsRewriter

/-- The part of `macro_args_rewriter::rewrite_arg_placeholder` behind the call of
`parse_macro_args_placeholder`. -/
def replacementOf (tokens : List Text) (ph : MacroArgsPlaceholder) : Except Fault Text :=
  match tokens[ph.phNumber - 1]? with
  | none => .error .assertion
  | some token =>
      if ph.phNumber = 0 then .error .assertion
      else if ¬ (ph.phRangeEnd = 0 ∨ ph.phNumber ≤ ph.phRangeEnd ∧ ph.phRangeEnd ≤ tokens.length) then .error .assertion
      else if ph.phNumber < ph.phRangeEnd then
        let range := (tokens.drop ph.phNumber).take (ph.phRangeEnd - ph.phNumber)
        .ok (token ++ (range.map (", ".toList ++ ·)).flatten)
      else .ok token

/-- `macro_args_rewriter::rewrite_arg_placeholder`, with `uninit` for what is in the placeholder before it is
read. -/
def rewriteArgPlaceholderHolding (uninit : MacroArgsPlaceholder) (tokens : List Text) (span : Text) : Except Fault Text :=
  match parseMacroArgsPlaceholder span with
  | .error e => .error e
  | .ok (_, ph) => replacementOf tokens (ph.getD uninit)

theorem rewriteArgPlaceholder_eq_replacementOf {tokens : List Text} {span : Text} {len : Nat} {ph : MacroArgsPlaceholder}
    (hparse : parseMacroArgsPlaceholder span = .ok (len, some ph)) :
    rewriteArgPlaceholder tokens span = replacementOf tokens ph := by
  unfold rewriteArgPlaceholder
  rw [hparse]
  rfl

theorem rewriteArgPlaceholderHolding_eq {uninit : MacroArgsPlaceholder} {tokens : List Text} {span : Text} {len : Nat}
    {ph : MacroArgsPlaceholder} (hparse : parseMacroArgsPlaceholder span = .ok (len, some ph)) :
    rewriteArgPlaceholderHolding uninit tokens span = rewriteArgPlaceholder tokens span := by
  rw [rewriteArgPlaceholder_eq_replacementOf hparse, rewriteArgPlaceholderHolding, hparse]
  rfl

/-- The rewriter reads nothing from the backslash of an escape. -/
theorem rewriteArgPlaceholderHolding_escape (uninit : MacroArgsPlaceholder) (tokens : List Text) :
    rewriteArgPlaceholderHolding uninit tokens ['\\'] = replacementOf tokens uninit := rfl

theorem replacementOf_zero (tokens : List Text) (phRangeEnd : Nat) : replacementOf tokens ⟨0, phRangeEnd⟩ = .error .assertion := by
  unfold replacementOf
  dsimp only
  cases tokens[0 - 1]? with
  | none => rfl
  | some token => rfl

end MacroArgsRewriter

/-- `ddl_default_value_rule_macro_args_expander::rewrite_macro_args`, with `uninit` for what is in a placeholder
before it is read. -/
def MacroArgsExpander.rewriteMacroArgsHolding (uninit : MacroArgsPlaceholder) (macroArgs : DdlDefaultValueRuleMacroArgs)
    (tokens : List Text) : Except Fault Text :=
  if macroArgs.rewrite = [] then .ok []
  else
    match MacroArgsRewriter.rewriteMacroArgs macroArgs
      (MacroArgsRewriter.rewriteArgPlaceholderHolding uninit tokens) with
    | .error e => .error e
    | .ok rewritten => .ok ('(' :: (List.intercalate ", ".toList rewritten ++ [')']))

theorem rewriteMacroArgsHolding_iff {uninit : MacroArgsPlaceholder} {macroArgs : DdlDefaultValueRuleMacroArgs}
    {tokens : List Text} {text : Text} (hne : macroArgs.rewrite ≠ []) :
    MacroArgsExpander.rewriteMacroArgsHolding uninit macroArgs tokens = .ok text ↔
      ∃ rewritten, MacroArgsRewriter.rewriteMacroArgs macroArgs
          (MacroArgsRewriter.rewriteArgPlaceholderHolding uninit tokens) = .ok rewritten ∧
        '(' :: (List.intercalate ", ".toList rewritten ++ [')']) = text := by
  unfold MacroArgsExpander.rewriteMacroArgsHolding
  rw [if_neg hne]
  cases MacroArgsRewriter.rewriteMacroArgs macroArgs
    (MacroArgsRewriter.rewriteArgPlaceholderHolding uninit tokens) <;> simp

/-- What is to be written of a piece: of an escape the dollar, and of a placeholder what the expander makes of
it. -/
def RewritePiece.unescaped (tokens : List Text) : RewritePiece → Text
  | escape => ['$']
  | p => p.rewritten (MacroArgsRewriter.rewriteArgPlaceholder tokens)

/-! ### Readings with and without escapes -/

section Reads

variable {whole whole' : Bool} {n d : Nat} {a a' : RewriteItem} {as as' : List RewriteItem} {s s' rest rest' : Text}
  {p : RewritePiece}

theorem lexeme_of_ne_escape (h : Lexeme whole n s p s') (hescape : p ≠ .escape) : Lexeme whole' n s p s' := by
  cases h with
  | quoted hq => exact .quoted hq
  | char hquote hopen hparse => exact .char hquote hopen hparse
  | placeholder hparse hwithin => exact .placeholder hparse hwithin
  | escape => exact absurd rfl hescape

/-- Without escapes a rewrite is read the same whether they are taken whole or not. -/
theorem reads_of_ne_escape (h : Reads whole n d a as s rest) (hescape : ∀ item ∈ a :: as, ∀ p ∈ item, p ≠ .escape) :
    Reads whole' n d a as s rest := by
  induction h with
  | close => exact .close
  | next h ih => exact .next (ih (List.forall_mem_cons.mp hescape).2)
  | piece hlex hdepth h ih =>
      obtain ⟨hitem, hitems⟩ := List.forall_mem_cons.mp hescape
      obtain ⟨hp, hitem⟩ := List.forall_mem_cons.mp hitem
      exact .piece (lexeme_of_ne_escape hlex hp) hdepth (ih (List.forall_mem_cons.mpr ⟨hitem, hitems⟩))

/-- A rewrite in which the scan finds no escape has none. -/
theorem ne_escape_of_reads (h : Reads true n d a as s rest) (h' : Reads false n d a' as' s rest')
    (hescape : ∀ item ∈ a' :: as', ∀ p ∈ item, p ≠ .escape) : ∀ item ∈ a :: as, ∀ p ∈ item, p ≠ .escape := by
  have hwhole : Reads true n d a' as' s rest' := reads_of_ne_escape h' hescape
  obtain ⟨rfl, rfl, -⟩ := h.unique hwhole
  exact hescape

end Reads

/-! ### Calls -/

/-- There is a call with any number of arguments. -/
theorem exists_call (n : Nat) :
    ∃ macroArgsText pos tokens,
      MacroArgs.tokenizeText (argsTokenizer MacroArgsExpander.matcher) macroArgsText = .ok (pos, tokens) ∧
        tokens.length = n := by
  have haccepts := fun text htext => macroArgs_accepts_iff MacroArgsExpander.matcher (fun _ => rfl) text htext
  cases n with
  | zero =>
      refine ⟨"()".toList, _, [], (haccepts _ rfl _ _).mpr (.inr ⟨[], [], ?_, rfl, rfl, rfl⟩), rfl⟩
      exact List.forall_mem_nil _
  | succ n =>
      have hopen : ¬ OpensComment ['x'] := not_opensComment_of_ne (by decide) (by decide) []
      have hx : WellFormedArg ['x'] := ⟨by decide, .plain rfl hopen .nil⟩
      have hall : ∀ a ∈ List.replicate (n + 1) ['x'], WellFormedArg a := by
        intro a ha
        rw [List.eq_of_mem_replicate ha]
        exact hx
      have hne : List.replicate (n + 1) ['x'] ≠ [] := List.cons_ne_nil _ _
      refine ⟨argListText (List.replicate (n + 1) ['x']) ++ [], _, _,
        (haccepts _ rfl _ _).mpr (.inl ⟨_, [], hne, hall, rfl, rfl, rfl⟩), ?_⟩
      rw [List.length_map, List.length_replicate]

section Rewrite

variable {n : Nat} {rewrite s rest : Text} {tokens : List Text} {a : RewriteItem} {as : List RewriteItem}
  (hs : rewrite = '(' :: s) (hreads : Reads false n 0 a as s rest)

include hs hreads in
/-- A rewrite that is read and has no blank item, other than `()`, is accepted. -/
theorem exists_validated (hitems : as = [] ∨ ∀ item ∈ a :: as, ∃ p ∈ item, p.isBlank = false) :
    ∃ validated, MacroArgsRewriter.rewriteMacroArgs ⟨n, rewrite⟩ .ok = .ok validated := by
  have hrewritable : ∀ item ∈ a :: as, item.Rewritable .ok := fun item _ p _ => ⟨_, rewrite_ok p⟩
  have hfinish : ∃ validated, finishArgs [] (a.rewritten .ok) (as.map (RewriteItem.rewritten .ok)) = some validated := by
    obtain rfl | hitems := hitems
    · rw [List.map_nil, finishArgs]
      split
      · exact ⟨[], rfl⟩
      · exact ⟨_, rfl⟩
    · refine ⟨_, finishArgs_eq_some_iff.mpr (.inl ⟨?_, rfl⟩)⟩
      rw [← List.map_cons, List.forall_mem_map]
      intro item hitem
      obtain ⟨p, hp, hblank⟩ := hitems item hitem
      obtain ⟨t, t', hlex⟩ := exists_lexeme_of_mem hreads item hitem p hp
      intro hnil
      rw [← nonblank_eq_nil_iff, RewriteItem.rewritten, nonblank_flatMap, List.flatMap_eq_nil_iff] at hnil
      have htext := hnil p hp
      rw [rewritten_eq (rewrite_ok p), nonblank_text_eq_nil_iff hlex, hblank] at htext
      exact Bool.false_ne_true htext
  obtain ⟨validated, hfinish⟩ := hfinish
  exact ⟨validated, (rewriteMacroArgs_iff_of_reads hs hreads).mpr ⟨hrewritable, hfinish⟩⟩

include hs hreads in
/-- What rewriters make of a rewrite depends on what they make of its pieces. -/
theorem rewriteMacroArgs_congr {hook hook' : Text → Except Fault Text} {rewritten : List Text}
    (hpieces : ∀ item ∈ a :: as, ∀ p ∈ item, p.rewrite hook' = p.rewrite hook)
    (h : MacroArgsRewriter.rewriteMacroArgs ⟨n, rewrite⟩ hook = .ok rewritten) :
    MacroArgsRewriter.rewriteMacroArgs ⟨n, rewrite⟩ hook' = .ok rewritten := by
  obtain ⟨hall, hfinish⟩ := (rewriteMacroArgs_iff_of_reads hs hreads).mp h
  have hitems : ∀ item ∈ a :: as, RewriteItem.rewritten hook' item = RewriteItem.rewritten hook item := by
    intro item hitem
    refine List.flatMap_congr fun p hp => ?_
    rw [RewritePiece.rewritten, RewritePiece.rewritten, hpieces item hitem p hp]
  have hall' : ∀ item ∈ a :: as, item.Rewritable hook' := by
    intro item hitem p hp
    rw [hpieces item hitem p hp]
    exact hall item hitem p hp
  obtain ⟨ha, has⟩ := List.forall_mem_cons.mp hitems
  rw [← ha, ← List.map_congr_left has] at hfinish
  exact (rewriteMacroArgs_iff_of_reads hs hreads).mpr ⟨hall', hfinish⟩

include hs hreads in
/-- Without escapes it does not matter what is in a placeholder before it is read. -/
theorem rewriteMacroArgsHolding_of_ne_escape (uninit : MacroArgsPlaceholder)
    (hescape : ∀ item ∈ a :: as, ∀ p ∈ item, p ≠ .escape) {text : Text}
    (h : MacroArgsExpander.rewriteMacroArgs ⟨n, rewrite⟩ tokens = .ok text) :
    MacroArgsExpander.rewriteMacroArgsHolding uninit ⟨n, rewrite⟩ tokens = .ok text := by
  have hpieces : ∀ item ∈ a :: as, ∀ p ∈ item,
      p.rewrite (MacroArgsRewriter.rewriteArgPlaceholderHolding uninit tokens) =
        p.rewrite (MacroArgsRewriter.rewriteArgPlaceholder tokens) := by
    intro item hitem p hp
    obtain ⟨t, t', hlex⟩ := exists_lexeme_of_mem hreads item hitem p hp
    cases p with
    | char c => rfl
    | quoted q => rfl
    | placeholder span ph =>
        obtain ⟨⟨len, hparse⟩, -⟩ := exists_parse_of_lexeme hlex
        exact MacroArgsRewriter.rewriteArgPlaceholderHolding_eq hparse
    | escape => exact absurd rfl (hescape item hitem _ hp)
  obtain ⟨rewritten, hrewritten, rfl⟩ := (expander_rewriteMacroArgs_iff (rewrite_ne_nil hs)).mp h
  have hholding := rewriteMacroArgs_congr hs hreads hpieces hrewritten
  exact (rewriteMacroArgsHolding_iff (rewrite_ne_nil hs)).mpr ⟨rewritten, hholding, rfl⟩

include hs hreads in
/-- A placeholder that happens to hold the number zero trips an assertion at an escape. -/
theorem ne_escape_of_rewriteMacroArgsHolding {text : Text}
    (h : MacroArgsExpander.rewriteMacroArgsHolding ⟨0, 0⟩ ⟨n, rewrite⟩ tokens = .ok text) :
    ∀ item ∈ a :: as, ∀ p ∈ item, p ≠ .escape := by
  obtain ⟨rewritten, hrewritten, -⟩ := (rewriteMacroArgsHolding_iff (rewrite_ne_nil hs)).mp h
  obtain ⟨hall, -⟩ := (rewriteMacroArgs_iff_of_reads hs hreads).mp hrewritten
  rintro item hitem p hp rfl
  obtain ⟨w, hw⟩ := hall item hitem _ hp
  have herror : RewritePiece.escape.rewrite (MacroArgsRewriter.rewriteArgPlaceholderHolding ⟨0, 0⟩ tokens) =
      .error .assertion :=
    (MacroArgsRewriter.rewriteArgPlaceholderHolding_escape ⟨0, 0⟩ tokens).trans
      (MacroArgsRewriter.replacementOf_zero tokens 0)
  rw [herror] at hw
  cases hw

end Rewrite

/-- A rewrite with `rest` behind its list is accepted, has no escape there, where nothing is written from, and
is written with a dollar for each of its escapes, whatever is in a placeholder before it is read. -/
def Unescapes (n : Nat) (rewrite rest : Text) (items : List RewriteItem) : Prop :=
  (∃ validated, MacroArgsRewriter.rewriteMacroArgs ⟨n, rewrite⟩ .ok = .ok validated) ∧
    ¬ "\\$".toList <:+: rest ∧
    ∀ macroArgsText pos tokens,
      MacroArgs.tokenizeText (argsTokenizer MacroArgsExpander.matcher) macroArgsText = .ok (pos, tokens) →
      tokens.length = n → ∀ uninit, MacroArgsExpander.rewriteMacroArgsHolding uninit ⟨n, rewrite⟩ tokens =
        .ok (argsTextOf (RewritePiece.unescaped tokens) items)

/-- A rewrite whose dollars begin placeholders or are escaped is treated so exactly if it has no escaped ones.
-/
theorem unescapes_iff {n : Nat} {a : RewriteItem} {as : List RewriteItem} {s rest : Text}
    (hreads : Reads true n 0 a as s rest) (hitems : as = [] ∨ ∀ item ∈ a :: as, ∃ p ∈ item, p.isBlank = false) :
    Unescapes n ('(' :: s) rest (a :: as) ↔
      (∀ item ∈ a :: as, ∀ p ∈ item, p ≠ .escape) ∧ ¬ "\\$".toList <:+: rest := by
  constructor
  · rintro ⟨⟨validated, hvalid⟩, hrest, hexpand⟩
    obtain ⟨s', a', as', rest', hs', hreads', -, -⟩ := rewriteMacroArgs_iff.mp hvalid
    obtain rfl : s = s' := (List.cons.inj hs').2
    obtain ⟨macroArgsText, pos, tokens, htokens, hn⟩ := exists_call n
    have hzero := hexpand macroArgsText pos tokens htokens hn ⟨0, 0⟩
    exact ⟨ne_escape_of_reads hreads hreads' (ne_escape_of_rewriteMacroArgsHolding rfl hreads' hzero), hrest⟩
  · rintro ⟨hescape, hrest⟩
    have hreads' : Reads false n 0 a as s rest := reads_of_ne_escape hreads hescape
    obtain ⟨validated, hvalid⟩ := exists_validated rfl hreads' hitems
    refine ⟨⟨validated, hvalid⟩, hrest, fun macroArgsText pos tokens htokens hn uninit => ?_⟩
    have hexpand := rewriteMacroArgs_of_ne_escape rfl hreads' hn hvalid (edged_of_tokenizeText htokens) hescape
    have htext : argsTextOf (RewritePiece.rewritten (MacroArgsRewriter.rewriteArgPlaceholder tokens)) (a :: as) =
        argsTextOf (RewritePiece.unescaped tokens) (a :: as) := by
      refine argsTextOf_congr fun item hitem p hp => ?_
      have hne := hescape item hitem p hp
      cases p with
      | escape => exact absurd rfl hne
      | _ => rfl
    rw [← htext]
    exact rewriteMacroArgsHolding_of_ne_escape rfl hreads' uninit hescape hexpand

/-- The placeholder of `($1)` stands for the argument. -/
theorem unescapes_placeholder :
    Unescapes 1 "($1)".toList [] [[.placeholder "$1".toList ⟨1, 1⟩]] ↔
      (∀ item ∈ [[RewritePiece.placeholder "$1".toList ⟨1, 1⟩]], ∀ p ∈ item, p ≠ .escape) ∧
        ¬ "\\$".toList <:+: [] := by
  have hparse : parseMacroArgsPlaceholder ("$1".toList ++ ")".toList) = .ok ("$1".toList.length, some ⟨1, 1⟩) := by
    decide +kernel
  have hlex : Lexeme true 1 ("$1".toList ++ ")".toList) (.placeholder "$1".toList ⟨1, 1⟩) ")".toList :=
    .placeholder hparse (by decide)
  exact unescapes_iff (.piece hlex rfl .close) (.inl rfl)

/-- `(\$)` is refused, and `(\$1)` is not written as `($1)`. -/
theorem not_unescapes_dollar :
    Reads true 0 0 [.escape] [] "\\$)".toList [] ∧
      MacroArgsRewriter.rewriteMacroArgs ⟨0, "(\\$)".toList⟩ .ok =
        .error (.malformedText 1 "empty macro arg placeholder number".toList) ∧
      ¬ Unescapes 0 "(\\$)".toList [] [[.escape]] ∧
      Reads true 1 0 [.escape, .char '1'] [] "\\$1)".toList [] ∧
      argsTextOf (RewritePiece.unescaped ["a".toList]) [[.escape, .char '1']] = "($1)".toList ∧
      MacroArgsExpander.rewriteMacroArgsHolding ⟨0, 0⟩ ⟨1, "(\\$1)".toList⟩ ["a".toList] = .error .assertion ∧
      MacroArgsExpander.rewriteMacroArgsHolding ⟨1, 1⟩ ⟨1, "(\\$1)".toList⟩ ["a".toList] = .ok "(aa)".toList := by
  have hescape : ∀ n s, Lexeme true n ('\\' :: '$' :: s) .escape s := fun n s => .escape
  have hone : Lexeme true 1 "1)".toList (.char '1') ")".toList :=
    .char rfl (not_opensComment_of_ne (by decide) (by decide) _) rfl
  have hrefused : MacroArgsRewriter.rewriteMacroArgs ⟨0, "(\\$)".toList⟩ .ok =
      .error (.malformedText 1 "empty macro arg placeholder number".toList) := by decide +kernel
  refine ⟨.piece (hescape _ _) rfl .close, hrefused, ?_, .piece (hescape _ _) rfl (.piece hone rfl .close),
    by decide +kernel, by decide +kernel, by decide +kernel⟩
  rintro ⟨⟨validated, hvalid⟩, -⟩
  rw [hrefused] at hvalid
  cases hvalid

end Middle.NormalDdl
