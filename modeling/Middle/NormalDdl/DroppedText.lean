import Middle.NormalDdl.RewriteMeaning

/-! What of a rewrite gets into the list of a call. The scan ends at the parenthesis that closes the list, where
validating it and rewriting by it both stop. -/

namespace Middle.NormalDdl

open Lib Universals

/-- A text with its placeholders substituted, wherever they stand in it; the next `skip` characters are taken
already. What is no placeholder of the arguments stays as it is. -/
def substFrom (tokens : List Text) : Nat → Text → Text
  | _, [] => []
  | skip + 1, _ :: s => substFrom tokens skip s
  | 0, c :: s =>
      match firstMatch macroMaskMatchers (c :: s), parseMacroArgsPlaceholder (c :: s) with
      | .ok (some (_, len)), _ => (c :: s).take len ++ substFrom tokens (len - 1) s
      | .ok none, .ok (len + 1, some ph) =>
          if Within tokens.length (some ph) then List.intercalate ", ".toList (ph.args tokens) ++ substFrom tokens len s
          else c :: substFrom tokens 0 s
      -- an escaped dollar
      | .ok none, .ok (_ + 1, none) => '$' :: substFrom tokens 1 s
      | _, _ => c :: substFrom tokens 0 s

def substText (tokens : List Text) (text : Text) : Text := substFrom tokens 0 text

example : substText ["a".toList, "b".toList] "('$1', $1-) \\$2 $2 $3".toList = "('$1', a, b) $2 b $3".toList := by
  decide +kernel

section Subst

variable {tokens : List Text}

theorem substFrom_skip (tokens : List Text) (skip : Nat) (s : Text) :
    substFrom tokens skip s = substFrom tokens 0 (s.drop skip) := by
  induction s generalizing skip with
  | nil =>
      rw [List.drop_nil]
      cases skip <;> rfl
  | cons c s ih =>
      cases skip with
      | zero => rfl
      | succ skip => exact ih skip

theorem substFrom_quoted {q : Text} (hq : SqlQuoted q) (s : Text) :
    substFrom tokens 0 (q ++ s) = q ++ substFrom tokens 0 s := by
  obtain ⟨m, hmask⟩ := firstMatch_mask_of_quoted hq s
  obtain ⟨c, w, rfl, -⟩ := hq.exists_cons
  rw [List.cons_append] at hmask ⊢
  rw [substFrom, hmask]
  dsimp only
  rw [substFrom_skip, List.length_cons, Nat.add_sub_cancel, List.drop_left, List.take_succ_cons, List.take_left]

theorem substFrom_plain {c : Char} {s : Text} {ph : Option MacroArgsPlaceholder} (hquote : isQuote c = false)
    (hparse : parseMacroArgsPlaceholder (c :: s) = .ok (0, ph)) :
    substFrom tokens 0 (c :: s) = c :: substFrom tokens 0 s := by
  rw [substFrom, firstMatch_mask_of_not_isQuote hquote, hparse]

theorem substFrom_placeholder {span s : Text} {ph : MacroArgsPlaceholder}
    (hparse : parseMacroArgsPlaceholder (span ++ s) = .ok (span.length, some ph))
    (hwithin : Within tokens.length (some ph)) :
    substFrom tokens 0 (span ++ s) = List.intercalate ", ".toList (ph.args tokens) ++ substFrom tokens 0 s := by
  obtain ⟨w, rfl⟩ := exists_dollar_of_parse hparse
  rw [List.cons_append, List.length_cons] at hparse
  rw [List.cons_append, substFrom, firstMatch_mask_of_not_isQuote rfl, hparse]
  dsimp only
  rw [if_pos hwithin, substFrom_skip, List.drop_left]

/-- A piece of a rewrite is substituted by what it stands for. -/
theorem substFrom_lexeme {s s' : Text} {p : RewritePiece} (h : Lexeme false tokens.length s p s') (hescape : p ≠ .escape) :
    substFrom tokens 0 s = p.meaning tokens ++ substFrom tokens 0 s' := by
  cases h with
  | quoted hq => exact substFrom_quoted hq s'
  | char hquote hopen hparse => exact substFrom_plain hquote hparse
  | placeholder hparse hwithin => exact substFrom_placeholder hparse hwithin
  | escape => exact absurd rfl hescape

/-- A rewrite without an escape is substituted item by item, and the text behind the list for itself. -/
theorem substFrom_reads {d : Nat} {a : RewriteItem} {as : List RewriteItem} {s rest : Text}
    (h : Reads false tokens.length d a as s rest) (hescape : ∀ item ∈ a :: as, ∀ p ∈ item, p ≠ .escape) :
    substFrom tokens 0 s =
      List.intercalate [','] ((a :: as).map fun item => item.flatMap (RewritePiece.meaning tokens)) ++
        ')' :: substFrom tokens 0 rest := by
  induction h with
  | close => exact substFrom_plain rfl rfl
  | next h ih =>
      have hcomma : ∀ s, substFrom tokens 0 (',' :: s) = ',' :: substFrom tokens 0 s := fun s => substFrom_plain rfl rfl
      rw [hcomma, ih (List.forall_mem_cons.mp hescape).2]
      simp only [List.map_cons, List.flatMap_nil, List.intercalate_cons_cons, List.nil_append, List.cons_append]
  | @piece d d' p a as s s' rest hlex hdepth h ih =>
      obtain ⟨hitem, hitems⟩ := List.forall_mem_cons.mp hescape
      obtain ⟨hp, hitem⟩ := List.forall_mem_cons.mp hitem
      rw [substFrom_lexeme hlex hp, ih (List.forall_mem_cons.mpr ⟨hitem, hitems⟩)]
      cases as with
      | nil =>
          simp only [List.map_cons, List.map_nil, List.flatMap_cons, List.intercalate_singleton, List.append_assoc]
      | cons a' as =>
          simp only [List.map_cons, List.flatMap_cons, List.intercalate_cons_cons, List.append_assoc]

/-- What a placeholder stands for is not blank, for no argument is. -/
theorem edged_args (htokens : ∀ t ∈ tokens, Edged t) {ph : MacroArgsPlaceholder} (hpos : 1 ≤ ph.phNumber)
    (hle : ph.phNumber ≤ tokens.length) : Edged (List.intercalate ", ".toList (ph.args tokens)) := by
  have hdrop := drop_pred hpos hle
  unfold MacroArgsPlaceholder.args
  split
  · refine edged_intercalate ?_ (fun t ht => htokens t (List.mem_of_mem_drop ht)) _
    rw [hdrop]
    exact List.cons_ne_nil _ _
  · refine edged_intercalate ?_ (fun t ht => htokens t (List.mem_of_mem_drop (List.mem_of_mem_take ht))) _
    rw [hdrop, List.take_succ_cons]
    exact List.cons_ne_nil _ _

theorem nonblank_cons_eq_nil_iff (c : Char) (s : Text) : nonblank (c :: s) = [] ↔ nonblank [c] = [] ∧ nonblank s = [] := by
  rw [← List.singleton_append, nonblank_append, List.append_eq_nil_iff]

/-- Of a text that is not blank something is left. -/
theorem nonblank_substFrom_eq_nil_iff (htokens : ∀ t ∈ tokens, Edged t) (s : Text) :
    nonblank (substFrom tokens 0 s) = [] ↔ nonblank s = [] := by
  induction hlen : s.length using Nat.strong_induction_on generalizing s with
  | _ k ih =>
    subst hlen
    cases s with
    | nil => exact Iff.rfl
    | cons c s =>
        -- where the character stays, all depends on what is behind it
        have hkept : nonblank (c :: substFrom tokens 0 s) = [] ↔ nonblank (c :: s) = [] := by
          rw [nonblank_cons_eq_nil_iff, nonblank_cons_eq_nil_iff c s, ih _ (Nat.lt_succ_self _) s rfl]
        cases hmask : firstMatch macroMaskMatchers (c :: s) with
        | error e =>
            rw [substFrom, hmask]
            exact hkept
        | ok found =>
            cases hquote : isQuote c with
            | true =>
                obtain ⟨m, q, rest, heq, hq, -⟩ := quoted_of_firstMatch_mask hquote hmask
                have hne := nonblank_quoted_ne_nil hq
                rw [heq, substFrom_quoted hq, nonblank_append, nonblank_append]
                exact iff_of_false (List.append_ne_nil_of_left_ne_nil hne _) (List.append_ne_nil_of_left_ne_nil hne _)
            | false =>
                cases hparse : parseMacroArgsPlaceholder (c :: s) with
                | error e =>
                    rw [substFrom, firstMatch_mask_of_not_isQuote hquote, hparse]
                    exact hkept
                | ok res =>
                    obtain ⟨len, ph⟩ := res
                    by_cases hlen : len = 0
                    · subst hlen
                      rw [substFrom_plain hquote hparse]
                      exact hkept
                    · obtain ⟨c', w, rest, heq, rfl, ⟨rfl, rfl, rfl⟩ | ⟨rfl, ph, rfl⟩⟩ := exists_read_of_parse hlen hparse
                      · obtain ⟨rfl, hs⟩ := List.cons.inj heq
                        rw [substFrom, firstMatch_mask_of_not_isQuote hquote, hparse]
                        dsimp only
                        rw [nonblank_cons rfl, nonblank_cons rfl]
                        exact iff_of_false (List.cons_ne_nil _ _) (List.cons_ne_nil _ _)
                      · obtain ⟨rfl, rfl⟩ := List.cons.inj heq
                        by_cases hwithin : Within tokens.length (some ph)
                        · have hargs := nonblank_ne_nil_of_edged (edged_args htokens (bounds_of_parse hparse).1 hwithin.1)
                          rw [nonblank_cons rfl, ← List.cons_append, substFrom_placeholder hparse hwithin, nonblank_append]
                          exact iff_of_false (List.append_ne_nil_of_left_ne_nil hargs _) (List.cons_ne_nil _ _)
                        · rw [substFrom, firstMatch_mask_of_not_isQuote hquote, hparse]
                          dsimp only
                          rw [if_neg hwithin]
                          exact hkept

theorem nonblank_eq_nil_iff_forall (s : Text) : nonblank s = [] ↔ ∀ c ∈ s, isBlank c = true := by
  rw [nonblank_eq_nil_iff, trimBlanks_eq_nil_iff]

/-- What is substituted in a rewrite: the list it stands for, and what is behind it. -/
theorem nonblank_substText {a : RewriteItem} {as : List RewriteItem} {s rest : Text}
    (h : Reads false tokens.length 0 a as s rest) (hescape : ∀ item ∈ a :: as, ∀ p ∈ item, p ≠ .escape) :
    nonblank (substText tokens ('(' :: s)) =
      nonblank (argsTextOf (RewritePiece.meaning tokens) (a :: as)) ++ nonblank (substFrom tokens 0 rest) := by
  have hopen : substText tokens ('(' :: s) = '(' :: substFrom tokens 0 s := substFrom_plain rfl rfl
  have hcomma : nonblank [','] = [','] := by decide
  have hclose : isBlank ')' = false := by decide
  have hitems : List.map nonblank ((a :: as).map fun item => item.flatMap (RewritePiece.meaning tokens)) =
      (a :: as).map fun item => nonblank (item.flatMap (RewritePiece.meaning tokens)) := List.map_map
  calc nonblank (substText tokens ('(' :: s))
      = '(' :: nonblank (substFrom tokens 0 s) := by rw [hopen, nonblank_cons (by decide)]
    _ = '(' :: (List.intercalate [','] ((a :: as).map fun item => nonblank (item.flatMap (RewritePiece.meaning tokens))) ++
          ')' :: nonblank (substFrom tokens 0 rest)) := by
        rw [substFrom_reads h hescape, nonblank_append, nonblank_intercalate, hcomma, hitems, nonblank_cons hclose]
    _ = nonblank (argsTextOf (RewritePiece.meaning tokens) (a :: as)) ++ nonblank (substFrom tokens 0 rest) := by
        rw [nonblank_argsTextOf, List.cons_append, List.append_assoc, List.singleton_append]

end Subst

/-- What there is of a rewrite gets into the list exactly if nothing but blanks is behind its list and it has no
escape and no open end in front of the last argument. -/
theorem nonblank_substText_sublist_iff {n pos : Nat} {rewrite macroArgsText : Text} {validated tokens : List Text}
    (hvalid : MacroArgsRewriter.rewriteMacroArgs ⟨n, rewrite⟩ .ok = .ok validated)
    (htokens : MacroArgs.tokenizeText (argsTokenizer MacroArgsExpander.matcher) macroArgsText = .ok (pos, tokens))
    (hn : tokens.length = n) :
    ∃ s a as rest, rewrite = '(' :: s ∧ Reads false n 0 a as s rest ∧
      ((∃ text, MacroArgsExpander.rewriteMacroArgs ⟨n, rewrite⟩ tokens = .ok text ∧
          List.Sublist (nonblank (substText tokens rewrite)) (nonblank text)) ↔
        (∀ c ∈ rest, isBlank c = true) ∧ ∀ item ∈ a :: as, ∀ p ∈ item, p ≠ .escape ∧ ¬ p.OpenBefore n) := by
  have hedged := edged_of_tokenizeText htokens
  obtain ⟨s, a, as, rest, hs, hreads, -, -⟩ := rewriteMacroArgs_iff.mp hvalid
  have hrewrite : rewrite = '(' :: s := hs
  refine ⟨s, a, as, rest, hs, hreads, ?_, ?_⟩
  · rintro ⟨text, h, hsublist⟩
    have hescape := ne_escape_of_rewriteMacroArgs hs hreads h
    have hle := length_rewritten_le hreads hn hescape
    obtain rfl := Except.ok.inj (h.symm.trans (rewriteMacroArgs_of_ne_escape hs hreads hn hvalid hedged hescape))
    have hlen := hsublist.length_le
    subst hn
    have hpieces := length_nonblank_le hle
    rw [hrewrite, nonblank_substText hreads hescape, List.length_append] at hlen
    refine ⟨?_, not_openBefore_of_length hreads rfl hescape (by omega)⟩
    rw [← nonblank_eq_nil_iff_forall, ← nonblank_substFrom_eq_nil_iff hedged, ← List.length_eq_zero_iff]
    omega
  · rintro ⟨hrest, h⟩
    have hescape : ∀ item ∈ a :: as, ∀ p ∈ item, p ≠ .escape := fun item hitem p hp => (h item hitem p hp).1
    refine ⟨_, rewriteMacroArgs_of_ne_escape hs hreads hn hvalid hedged hescape, ?_⟩
    rw [rewritten_eq_meaning hreads hn h]
    subst hn
    rw [← nonblank_eq_nil_iff_forall, ← nonblank_substFrom_eq_nil_iff hedged] at hrest
    rw [hrewrite, nonblank_substText hreads hescape, hrest, List.append_nil]

/-- Nothing of `(f($1), 'x') ` is dropped. -/
theorem nonblank_substText_sublist_blank :
    ∃ s a as rest, "(f($1), 'x') ".toList = '(' :: s ∧ Reads false 1 0 a as s rest ∧
      ((∃ text, MacroArgsExpander.rewriteMacroArgs ⟨1, "(f($1), 'x') ".toList⟩ ["a".toList] = .ok text ∧
          List.Sublist (nonblank (substText ["a".toList] "(f($1), 'x') ".toList)) (nonblank text)) ↔
        (∀ c ∈ rest, isBlank c = true) ∧ ∀ item ∈ a :: as, ∀ p ∈ item, p ≠ .escape ∧ ¬ p.OpenBefore 1) := by
  have hvalid : MacroArgsRewriter.rewriteMacroArgs ⟨1, "(f($1), 'x') ".toList⟩ .ok = .ok ["f($1)".toList, "'x'".toList] := by
    decide +kernel
  have htokens : MacroArgs.tokenizeText (argsTokenizer MacroArgsExpander.matcher) "(a)".toList =
      .ok (3, ["a".toList]) := by decide +kernel
  exact nonblank_substText_sublist_iff hvalid htokens rfl

/-- Of `($1) x` what is behind the list is dropped. -/
theorem not_nonblank_substText_sublist_behind :
    MacroArgsRewriter.rewriteMacroArgs ⟨1, "($1) x".toList⟩ .ok = .ok ["$1".toList] ∧
      MacroArgs.tokenizeText (argsTokenizer MacroArgsExpander.matcher) "(a)".toList = .ok (3, ["a".toList]) ∧
      MacroArgsExpander.rewriteMacroArgs ⟨1, "($1) x".toList⟩ ["a".toList] = .ok "(a)".toList ∧
      ¬ List.Sublist (nonblank (substText ["a".toList] "($1) x".toList)) (nonblank "(a)".toList) := by
  have hsubst : nonblank (substText ["a".toList] "($1) x".toList) = "(a)x".toList := by decide +kernel
  refine ⟨by decide +kernel, by decide +kernel, by decide +kernel, fun hsublist => ?_⟩
  rw [hsubst] at hsublist
  exact absurd hsublist.length_le (by decide)

end Middle.NormalDdl
