import Middle.Lib.Brackets
import Middle.NormalDdl.MacroPlaceholders

/-! The nesting of parentheses in what the macro expander reads and writes: the arguments of a call are balanced, so are
the rewritten ones, and a pass with rules whose right-hand sides are balanced closes as many parentheses as the text it
reads. -/

namespace Middle.NormalDdl

open Lib Universals

/-! ### Parentheses outside quotes -/

/-- Parentheses, masked by SQL quotes. -/
def sqlParens : Brackets Char where
  opening := '('
  closing := ')'
  mask c := isQuote c = true
  Masked := SqlQuoted
  opening_ne_closing := by decide
  not_mask_opening := by decide
  not_mask_closing := by decide
  first := SqlQuoted.exists_cons
  last hq := by
    obtain ⟨c, hlast, hc⟩ := hq.getLast?
    obtain ⟨w, hw⟩ := List.getLast?_eq_some_iff.mp hlast
    exact ⟨c, w, hw, hc⟩
  unique := SqlQuoted.unique

/-- A text whose parentheses outside quotes match. -/
abbrev BalancedText (s : Text) : Prop := sqlParens.Balanced s

theorem plain_of_isSpecial {c : Char} (hc : isSpecial c = false) : sqlParens.Plain c := by
  simp only [isSpecial, Bool.or_eq_false_iff, decide_eq_false_iff_not] at hc
  obtain ⟨⟨⟨hquote, hopen⟩, hclose⟩, -⟩ := hc
  exact ⟨hopen, hclose, fun h => absurd hquote (by rw [h]; decide)⟩

theorem plain_comma : sqlParens.Plain ',' := by
  refine ⟨by decide, by decide, ?_⟩
  change ¬ isQuote ',' = true
  decide

theorem plain_of_isBlank {c : Char} (hc : isBlank c = true) : sqlParens.Plain c :=
  plain_of_isSpecial (isSpecial_of_isBlank hc)

theorem nests_trimBlanks_iff {d e : Nat} {s : Text} : sqlParens.Nests d (trimBlanks s) e ↔ sqlParens.Nests d s e := by
  apply iff_of_eq
  refine trimBlanks_invariant (f := fun s => sqlParens.Nests d s e) (fun c s hc => propext ?_) (fun s c hc => propext ?_) s
  · exact Brackets.nests_plain_iff (plain_of_isBlank hc)
  · exact Brackets.nests_concat_plain_iff (plain_of_isBlank hc)

theorem nests_of_argText {d : Nat} {a : Text} (h : ArgText d a) : sqlParens.Nests d a 0 := by
  induction h with
  | nil => exact .nil
  | quoted hq h ih => exact .masked hq ih
  | opening h ih => exact .opening ih
  | closing h ih => exact .closing ih
  | comma h ih => exact .plain plain_comma ih
  | plain hc hopen h ih => exact .plain (plain_of_isSpecial hc) ih

theorem balanced_intercalate {sep : Text} (hsep : BalancedText sep) {ts : List Text} (hts : ∀ t ∈ ts, BalancedText t) :
    BalancedText (List.intercalate sep ts) := by
  induction ts with
  | nil => exact .nil
  | cons t ts ih =>
      obtain ⟨ht, hts⟩ := List.forall_mem_cons.mp hts
      cases ts with
      | nil =>
          rw [List.intercalate_singleton]
          exact ht
      | cons t' ts =>
          rw [List.intercalate_cons_cons, List.append_assoc]
          exact ht.append (hsep.append (ih hts))

theorem balanced_paren {s : Text} (h : BalancedText s) : BalancedText ('(' :: (s ++ [')'])) :=
  (Brackets.nests_enclose_iff (B := sqlParens) 1).mpr (h.add 1)

theorem balanced_argListText {as : List Text} (h : ∀ a ∈ as, ArgText 0 a) : BalancedText (argListText as) :=
  balanced_paren (balanced_intercalate (.plain plain_comma .nil) fun a ha => nests_of_argText (h a ha))

/-! ### Rewritten arguments -/

theorem balanced_rewriteArgPlaceholder {tokens : List Text} (htokens : ∀ t ∈ tokens, BalancedText t)
    {span rewritten : Text} (h : MacroArgsRewriter.rewriteArgPlaceholder tokens span = .ok rewritten) :
    BalancedText rewritten := by
  have hsep : BalancedText ", ".toList := .plain plain_comma (.plain (plain_of_isBlank (by decide)) .nil)
  have hflatten : ∀ ts : List Text, (∀ t ∈ ts, BalancedText t) →
      BalancedText (ts.map (", ".toList ++ ·)).flatten := by
    intro ts hts
    induction ts with
    | nil => exact .nil
    | cons t ts ih =>
        obtain ⟨ht, hts⟩ := List.forall_mem_cons.mp hts
        rw [List.map_cons, List.flatten_cons, List.append_assoc]
        exact hsep.append (ht.append (ih hts))
  unfold MacroArgsRewriter.rewriteArgPlaceholder at h
  split at h
  · cases h
  · cases h
  · split at h
    · cases h
    · rename_i token hget
      have htoken := htokens token (List.mem_of_getElem? hget)
      split at h
      · cases h
      · split at h
        · cases h
        · split at h
          · cases h
            exact htoken.append (hflatten _ fun t ht => htokens t (List.mem_of_mem_drop (List.mem_of_mem_take ht)))
          · cases h
            exact htoken

/-- What a plain character adds. -/
theorem balanced_of_plain {n : Nat} {hook : Text → Except Fault Text} {pos pos' d : Nat} {c : Char} {s : Text}
    {done : List Text} {cur : Text} {st : MacroArgs} (hquote : isQuote c = false)
    (hnext : (rewriter n hook).nextMatch pos (c :: s) = .ok ⟨1, none⟩) (hdone : ∀ t ∈ done, BalancedText t)
    (hcur : sqlParens.Nests 0 cur d)
    (hrest : ∀ {d : Nat} {done : List Text} {cur : Text}, (∀ t ∈ done, BalancedText t) → sqlParens.Nests 0 cur d →
      ((rewriter n hook).processFrom 0 (pos + 1) s).run ⟨d + 1, done ++ [cur]⟩ = .ok pos' st →
      ∀ t ∈ st.tokens, BalancedText t)
    (h : ((rewriter n hook).processFrom 0 pos (c :: s)).run ⟨d + 1, done ++ [cur]⟩ = .ok pos' st) :
    ∀ t ∈ st.tokens, BalancedText t := by
  by_cases hopen : c = '('
  · subst hopen
    rw [run_plain hnext (plainChar_opening d done cur s)] at h
    exact hrest hdone (hcur.append (.opening .nil)) h
  by_cases hclose : c = ')'
  · subst hclose
    cases d with
    | zero =>
        have hstep := plainChar_closing done cur s
        cases hfinish : finishArgs done cur [] with
        | none =>
            rw [hfinish] at hstep
            rw [run_plain_error hnext hstep] at h
            cases h
        | some tokens =>
            rw [hfinish] at hstep
            rw [run_plain_end hnext hstep] at h
            cases h
            obtain ⟨-, rfl⟩ | ⟨-, -, -, rfl⟩ := finishArgs_eq_some_iff.mp hfinish
            · exact List.forall_mem_append.mpr ⟨hdone, List.forall_mem_singleton.mpr (nests_trimBlanks_iff.mpr hcur)⟩
            · exact List.forall_mem_nil _
    | succ d =>
        rw [run_plain hnext (plainChar_closing_inner d done cur s)] at h
        exact hrest hdone (Brackets.nests_concat_closing_iff.mpr hcur) h
  by_cases hcomma : c = ','
  · subst hcomma
    cases d with
    | zero =>
        have hstep := plainChar_comma done cur s
        split at hstep
        · rw [run_plain_error hnext hstep] at h
          cases h
        · rw [run_plain hnext hstep] at h
          refine hrest (List.forall_mem_append.mpr ⟨hdone, List.forall_mem_singleton.mpr ?_⟩) .nil h
          exact nests_trimBlanks_iff.mpr hcur
    | succ d =>
        rw [run_plain hnext (plainChar_comma_inner d done cur s)] at h
        exact hrest hdone ((Brackets.nests_concat_plain_iff plain_comma).mpr hcur) h
  have hc : isSpecial c = false := by simp [isSpecial, hquote, hopen, hclose, hcomma]
  rw [run_plain hnext (plainChar_other d done cur hc s)] at h
  exact hrest hdone ((Brackets.nests_concat_plain_iff (plain_of_isSpecial hc)).mpr hcur) h

/-- The items a rewriter puts together are balanced, and the last one is as deep as the scan. -/
theorem balanced_of_run {n : Nat} {hook : Text → Except Fault Text}
    (hhook : ∀ span rewritten, hook span = .ok rewritten → BalancedText rewritten) {pos pos' d : Nat} {s : Text}
    {done : List Text} {cur : Text} {st : MacroArgs} (hdone : ∀ t ∈ done, BalancedText t)
    (hcur : sqlParens.Nests 0 cur d)
    (h : ((rewriter n hook).processFrom 0 pos s).run ⟨d + 1, done ++ [cur]⟩ = .ok pos' st) :
    ∀ t ∈ st.tokens, BalancedText t := by
  induction hlen : s.length using Nat.strong_induction_on generalizing s pos d done cur with
  | _ k ih =>
    subst hlen
    cases s with
    | nil => cases h
    | cons c s =>
        obtain ⟨m, st₁, r, hnext, -, -⟩ := (MacroArgs.processFrom_ok_iff (p := rewriter n hook) rfl).mp h
        obtain ⟨q, rest, heq, hq, hshort, rfl⟩ | ⟨hquote, -, rfl⟩ |
            ⟨-, hopen, w, rest, ph, rfl, hshort, -, rfl, -⟩ := rewriter_nextMatch_cases hnext
        · rw [heq, run_quoted hq] at h
          exact ih _ hshort hdone (hcur.append (Brackets.nests_of_masked hq d)) h rfl
        · exact balanced_of_plain hquote hnext hdone hcur
            (fun hdone hcur h => ih _ (Nat.lt_succ_self _) hdone hcur h rfl) h
        · cases hrewrite : hook (c :: w) with
          | error e =>
              rw [run_read_error hopen hnext hrewrite] at h
              cases h
          | ok rewritten =>
              rw [run_read hopen hnext hrewrite] at h
              exact ih _ hshort hdone (hcur.append ((hhook _ _ hrewrite).nests d)) h rfl

theorem balanced_rewriteMacroArgs {macroArgs : DdlDefaultValueRuleMacroArgs} {tokens : List Text} {rhsArgs : Text}
    (htokens : ∀ t ∈ tokens, BalancedText t)
    (h : MacroArgsExpander.rewriteMacroArgs macroArgs tokens = .ok rhsArgs) : BalancedText rhsArgs := by
  unfold MacroArgsExpander.rewriteMacroArgs at h
  split at h
  · cases h
    exact .nil
  · split at h
    · cases h
    · rename_i rewritten hrewrite
      cases h
      have hsep : BalancedText ", ".toList := .plain plain_comma (.plain (plain_of_isBlank (by decide)) .nil)
      refine balanced_paren (balanced_intercalate hsep ?_)
      obtain ⟨pos, st, hrun, rfl⟩ := rewriteMacroArgs_eq_ok.mp hrewrite
      obtain ⟨s, hs⟩ := exists_open_of_run hrun
      rw [hs, run_open] at hrun
      have hitem : ((rewriter macroArgs.argcnt (MacroArgsRewriter.rewriteArgPlaceholder tokens)).processFrom 0 1 s).run
          ⟨0 + 1, [] ++ [[]]⟩ = .ok _ _ := hrun
      exact balanced_of_run (fun _ _ => balanced_rewriteArgPlaceholder htokens) (List.forall_mem_nil _) .nil hitem

/-! ### A pass -/

theorem plain_of_isIdChar {c : Char} (hc : MacroExpander.isIdChar c = true) : sqlParens.Plain c := by
  refine ⟨?_, ?_, fun hquote => ?_⟩
  · rintro rfl
    exact absurd hc (by decide)
  · rintro rfl
    exact absurd hc (by decide)
  · rw [MacroExpander.isIdChar_of_isQuote hquote] at hc
    cases hc

theorem IsName.balanced {n s : Text} (hn : IsName n s) : BalancedText n := by
  have hall := hn.all
  clear hn
  induction n with
  | nil => exact .nil
  | cons c n ih =>
      obtain ⟨hc, hall⟩ := List.forall_mem_cons.mp hall
      exact .plain (plain_of_isIdChar hc) (ih hall)

/-- A call takes a balanced list from the text, reads no further, and puts a balanced text in its place. -/
theorem exists_list_of_expandCall {n s text : Text} {rule : DdlDefaultValueRule}
    {macroArgs : DdlDefaultValueRuleMacroArgs} {len : Nat} (hopen : s.head? = some '(')
    (h : MacroExpander.expandCall n rule macroArgs s = .ok (text, len)) :
    ∃ w, s = '(' :: w ++ s.drop len ∧ BalancedText ('(' :: w) ∧
      (∀ rest, MacroExpander.expandCall n rule macroArgs ('(' :: w ++ rest) = .ok (text, len) ∧
        ('(' :: w ++ rest).drop len = rest) ∧
      (BalancedText rule.macroRhs → BalancedText text) := by
  obtain ⟨as, tokens, rhsArgs, hs, hlen, hall, htokens, hrewrite, rfl, hany⟩ :=
    MacroExpander.args_of_expandCall hopen h
  have hbalanced : ∀ t ∈ tokens, BalancedText t := by
    obtain rfl | rfl := htokens
    · intro t ht
      obtain ⟨x, hx, rfl⟩ := List.mem_map.mp ht
      exact nests_trimBlanks_iff.mpr (nests_of_argText (hall x hx))
    · exact List.forall_mem_nil _
  refine ⟨List.intercalate [','] as ++ [')'], hs, balanced_argListText hall, fun rest => ⟨hany rest, ?_⟩, fun hrhs => ?_⟩
  · rw [hlen]
    exact List.drop_left
  · exact hrhs.append (balanced_rewriteMacroArgs hbalanced hrewrite)

/-- A pass leaves every text as deep as it was. -/
theorem nests_of_expands {rules : DdlDefaultValueRules}
    (hrules : ∀ k rule, rules.find k = some rule → BalancedText rule.macroRhs) {s out : Text}
    (h : Expands rules s out) {d e : Nat} (hs : sqlParens.Nests d s e) : sqlParens.Nests d out e := by
  induction h generalizing d with
  | nil => exact hs
  | quoted hq h ih => exact .masked hq (ih ((Brackets.nests_masked_iff hq).mp hs))
  | @plain c s out hquote halpha h ih =>
      have hmask : ¬ sqlParens.mask c := fun hc => absurd hquote (by rw [hc]; decide)
      obtain ⟨rfl, hrest⟩ | ⟨rfl, d', rfl, hrest⟩ | ⟨hplain, hrest⟩ := (Brackets.nests_cons_iff hmask).mp hs
      · exact .opening (ih hrest)
      · exact .closing (ih hrest)
      · exact .plain hplain (ih hrest)
  | name hn hfind h ih =>
      rw [Brackets.nests_append_iff (hn.balanced.nests d)] at hs
      exact (hn.balanced.nests d).append (ih hs)
  | replaced hn hfind hcall h ih =>
      rw [Brackets.nests_append_iff (hn.balanced.nests d)] at hs
      exact ((hrules _ _ hfind).nests d).append (ih hs)
  | call hn hfind hargs hopen hcall h ih =>
      rw [Brackets.nests_append_iff (hn.balanced.nests d)] at hs
      obtain ⟨w, hw, hlist, -, htext⟩ := exists_list_of_expandCall hopen hcall
      rw [hw, Brackets.nests_append_iff (hlist.nests d)] at hs
      exact ((htext (hrules _ _ hfind)).nests d).append (ih hs)

/-! ### A pass in front of closing parentheses -/

/-- What does not end in a closing parenthesis stands in front of all of them. -/
theorem exists_of_append_eq_append_closings {w s s' : Text} {k : Nat} (hlast : ∀ w', w ≠ w' ++ [')'])
    (h : w ++ s' = s ++ List.replicate k ')') : ∃ t, s = w ++ t ∧ s' = t ++ List.replicate k ')' := by
  obtain ⟨t, hs, hs'⟩ | ⟨t, hw, ht⟩ := List.append_eq_append_iff.mp h
  · exact ⟨t, hs, hs'⟩
  · obtain rfl | ⟨t, c, rfl⟩ := t.eq_nil_or_concat
    · refine ⟨[], ?_, ht.symm⟩
      rw [hw, List.append_nil, List.append_nil]
    · rw [List.concat_eq_append] at hw ht
      have hc : c ∈ List.replicate k ')' := by
        rw [ht]
        exact List.mem_append_left _ (List.mem_append_right _ (List.mem_singleton_self c))
      rw [List.eq_of_mem_replicate hc, ← List.append_assoc] at hw
      exact absurd hw (hlast _)

theorem SqlQuoted.ne_concat {q : Text} (hq : SqlQuoted q) (w : Text) : q ≠ w ++ [')'] := by
  rintro rfl
  obtain ⟨c, hlast, hc⟩ := hq.getLast?
  rw [List.getLast?_concat] at hlast
  obtain rfl := Option.some.inj hlast
  exact absurd hc (by decide)

theorem IsName.ne_concat {n s : Text} (hn : IsName n s) (w : Text) : n ≠ w ++ [')'] := by
  rintro rfl
  exact absurd (hn.all ')' (List.mem_append_right _ (List.mem_singleton_self _))) (by decide)

/-- A name in front of a text is one in front of what the text starts with. -/
theorem IsName.of_append {n s t : Text} (hn : IsName n (s ++ t)) : IsName n s where
  head := hn.head
  all := hn.all
  stop c hc := hn.stop c (by rw [List.head?_append, hc]; rfl)

theorem expands_cons_iff {rules : DdlDefaultValueRules} {c : Char} {s out : Text} (hquote : isQuote c = false)
    (halpha : c.isAlpha = false) : Expands rules (c :: s) out ↔ ∃ out', out = c :: out' ∧ Expands rules s out' := by
  have hname : ∀ {n s' : Text}, IsName n s' → c :: s ≠ n ++ s' := by
    intro n s' hn heq
    obtain ⟨c', w, rfl, hc'⟩ := hn.head
    obtain rfl := (List.cons.inj heq).1
    exact absurd hc' (by rw [halpha]; decide)
  constructor
  · intro h
    generalize ht : c :: s = t at h
    cases h with
    | nil => cases ht
    | quoted hq h =>
        obtain ⟨c', w, rfl, hc'⟩ := hq.exists_cons
        obtain rfl := (List.cons.inj ht).1
        exact absurd hc' (by rw [hquote]; decide)
    | plain _ _ h =>
        obtain ⟨rfl, rfl⟩ := List.cons.inj ht
        exact ⟨_, rfl, h⟩
    | name hn => exact absurd ht (hname hn)
    | replaced hn => exact absurd ht (hname hn)
    | call hn => exact absurd ht (hname hn)
  · rintro ⟨out', rfl, h⟩
    exact .plain hquote halpha h

theorem expands_closings {rules : DdlDefaultValueRules} {k : Nat} {out : Text}
    (h : Expands rules (List.replicate k ')') out) : out = List.replicate k ')' := by
  induction k generalizing out with
  | zero =>
      generalize ht : List.replicate 0 ')' = t at h
      cases h with
      | nil => rfl
      | quoted hq => exact absurd (List.append_eq_nil_iff.mp ht.symm).1 (List.ne_nil_of_length_pos hq.length_pos)
      | plain => cases ht
      | name hn => exact absurd (List.append_eq_nil_iff.mp ht.symm).1 hn.ne_nil
      | replaced hn => exact absurd (List.append_eq_nil_iff.mp ht.symm).1 hn.ne_nil
      | call hn => exact absurd (List.append_eq_nil_iff.mp ht.symm).1 hn.ne_nil
  | succ k ih =>
      obtain ⟨out', rfl, hexp⟩ := (expands_cons_iff (by decide) (by decide)).mp h
      rw [ih hexp]
      rfl

/-- Closing parentheses behind a text that closes all its own are copied. -/
theorem expands_of_append_closings {rules : DdlDefaultValueRules} {k d : Nat} {s out : Text}
    (hs : sqlParens.Nests d s 0) (h : Expands rules (s ++ List.replicate k ')') out) :
    ∃ out', out = out' ++ List.replicate k ')' ∧ Expands rules s out' := by
  generalize ht : s ++ List.replicate k ')' = t at h
  induction h generalizing s d with
  | nil =>
      obtain ⟨rfl, hnil⟩ := List.append_eq_nil_iff.mp ht
      exact ⟨[], hnil.symm, .nil⟩
  | @quoted q s' out hq h ih =>
      obtain ⟨t, rfl, hrest⟩ := exists_of_append_eq_append_closings hq.ne_concat ht.symm
      obtain ⟨out', rfl, hexp⟩ := ih ((Brackets.nests_masked_iff hq).mp hs) hrest.symm
      exact ⟨q ++ out', (List.append_assoc _ _ _).symm, .quoted hq hexp⟩
  | @plain c s' out hquote halpha h ih =>
      cases s with
      | nil =>
          have hcopied : Expands rules (List.replicate k ')') (c :: out) := by
            rw [← List.nil_append (List.replicate k ')'), ht]
            exact .plain hquote halpha h
          exact ⟨[], expands_closings hcopied, .nil⟩
      | cons c' s =>
          obtain ⟨rfl, rfl⟩ := List.cons.inj ht
          have hmask : ¬ sqlParens.mask c' := fun hc => absurd hquote (by rw [hc]; decide)
          obtain ⟨d', hs⟩ : ∃ d', sqlParens.Nests d' s 0 := by
            obtain ⟨-, hs⟩ | ⟨-, d', -, hs⟩ | ⟨-, hs⟩ := (Brackets.nests_cons_iff hmask).mp hs
            · exact ⟨_, hs⟩
            · exact ⟨_, hs⟩
            · exact ⟨_, hs⟩
          obtain ⟨out', rfl, hexp⟩ := ih hs rfl
          exact ⟨c' :: out', rfl, .plain hquote halpha hexp⟩
  | @name n s' out hn hfind h ih =>
      obtain ⟨t, rfl, hrest⟩ := exists_of_append_eq_append_closings hn.ne_concat ht.symm
      rw [Brackets.nests_append_iff (hn.balanced.nests d)] at hs
      obtain ⟨out', rfl, hexp⟩ := ih hs hrest.symm
      rw [hrest] at hn
      exact ⟨n ++ out', (List.append_assoc _ _ _).symm, .name hn.of_append hfind hexp⟩
  | @replaced n s' out rule hn hfind hcall h ih =>
      obtain ⟨t, rfl, hrest⟩ := exists_of_append_eq_append_closings hn.ne_concat ht.symm
      rw [Brackets.nests_append_iff (hn.balanced.nests d)] at hs
      obtain ⟨out', rfl, hexp⟩ := ih hs hrest.symm
      rw [hrest] at hn hcall
      have hopen : t.head? = some '(' → (t ++ List.replicate k ')').head? = some '(' := by
        intro hopen
        rw [List.head?_append, hopen]
        rfl
      exact ⟨rule.macroRhs ++ out', (List.append_assoc _ _ _).symm,
        .replaced hn.of_append hfind (hcall.imp_right fun h => mt hopen h) hexp⟩
  | @call n s' text out rule macroArgs len hn hfind hargs hopen hcall h ih =>
      obtain ⟨t, rfl, hrest⟩ := exists_of_append_eq_append_closings hn.ne_concat ht.symm
      rw [Brackets.nests_append_iff (hn.balanced.nests d)] at hs
      obtain ⟨w, hw, hlist, hany, -⟩ := exists_list_of_expandCall hopen hcall
      -- the list ends within the text: a parenthesis behind it would be one too many
      obtain ⟨b, rfl, hb⟩ : ∃ b, t = '(' :: w ++ b ∧ s'.drop len = b ++ List.replicate k ')' := by
        rw [hrest] at hw
        obtain ⟨j, hlist', hj⟩ | ⟨b, hb, hdrop⟩ := List.append_eq_append_iff.mp hw
        · have hclosings : ∀ c ∈ j, c = ')' := by
            intro c hc
            refine List.eq_of_mem_replicate (n := k) ?_
            rw [hj]
            exact List.mem_append_left _ hc
          have hnests := hlist
          rw [hlist', List.eq_replicate_of_mem hclosings] at hnests
          have hnests := (Brackets.nests_append_closings_iff (B := sqlParens) j.length).mp hnests
          have hzero := hs.unique (Nat.zero_add d ▸ hnests.add d)
          have hnil : j = [] := List.length_eq_zero_iff.mp (by omega)
          rw [hnil, List.append_nil] at hlist'
          rw [hnil] at hj
          refine ⟨[], ?_, ?_⟩
          · rw [hlist', List.append_nil]
          · rw [hrest]
            exact hj.symm
        · refine ⟨b, hb, ?_⟩
          rw [hrest]
          exact hdrop
      rw [Brackets.nests_append_iff (hlist.nests d)] at hs
      obtain ⟨out', rfl, hexp⟩ := ih hs hb.symm
      obtain ⟨hcall', hdrop⟩ := hany b
      rw [hrest] at hn
      rw [← hdrop] at hexp
      exact ⟨text ++ out', (List.append_assoc _ _ _).symm, .call hn.of_append hfind hargs rfl hcall' hexp⟩

theorem exists_of_expands_openings {rules : DdlDefaultValueRules} {k : Nat} {s out : Text}
    (h : Expands rules (List.replicate k '(' ++ s) out) :
    ∃ out', out = List.replicate k '(' ++ out' ∧ Expands rules s out' := by
  induction k generalizing out with
  | zero => exact ⟨out, rfl, h⟩
  | succ k ih =>
      obtain ⟨out, rfl, hexp⟩ := (expands_cons_iff (by decide) (by decide)).mp h
      obtain ⟨out', rfl, hexp'⟩ := ih hexp
      exact ⟨out', rfl, hexp'⟩

/-- A pass over a balanced text in parentheses is one over the text itself. -/
theorem exists_of_expands_enclose {rules : DdlDefaultValueRules} {k : Nat} {s out : Text} (hs : BalancedText s)
    (h : Expands rules (sqlParens.enclose k s) out) :
    ∃ out', out = sqlParens.enclose k out' ∧ Expands rules s out' := by
  rw [Brackets.enclose_eq_append] at h
  obtain ⟨out, rfl, hexp⟩ := exists_of_expands_openings h
  obtain ⟨out', rfl, hexp'⟩ := expands_of_append_closings hs hexp
  exact ⟨out', (Brackets.enclose_eq_append (B := sqlParens) k out').symm, hexp'⟩

end Middle.NormalDdl
