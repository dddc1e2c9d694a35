import Middle.Lib.Quotation
import Middle.NormalDdl.MacroValidation

/-! String literals in the text of a default value, and which of them a pass of the macro expander masks. In a literal a quote
is doubled, while the quote matcher takes a backslash in front of it for an escape. -/

namespace Middle.NormalDdl

open Lib Universals

/-- Single quotes, by SQL and by the matcher. -/
def sqlQuotation : Quotation Char where
  quote := '\''
  escape := sqlSingleQuote.escapeC
  plain c := isQuote c = false
  quote_ne_escape := by decide
  not_plain_quote := by decide

/-- A string literal, with both its quotes. -/
abbrev SqlLiteral (q : Text) : Prop := sqlQuotation.IsLiteral q

/-- A text made of string literals and text without quotes. -/
abbrev SqlText (s : Text) : Prop := sqlQuotation.HasLiterals s

/-- In front of every quote that stands inside a literal or closes it, the backslashes are even in number. -/
abbrev BackslashesPaired (s : Text) : Prop := sqlQuotation.Paired s

/-! ### Masked literals -/

theorem body_iff_escapedBody (w : Text) : sqlSingleQuote.Body w ↔ sqlQuotation.EscapedBody w :=
  QuoteMatcher.body_iff_escapedBody rfl rfl (fun c => by simp [QuoteMatcher.escapable, sqlSingleQuote]) w

/-- A literal without a quote in it is masked when its backslashes are paired. -/
theorem sqlQuoted_of_isSegment {q : Text} (hq : sqlQuotation.IsSegment q) (hpaired : BackslashesPaired q) :
    SqlQuoted q := by
  obtain ⟨u, rfl, hu⟩ := hq
  refine .inl ⟨_, rfl, ?_⟩
  rw [body_iff_escapedBody]
  exact (Quotation.escapedBody_iff hu).mpr ((Quotation.paired_segment_iff hu).mp hpaired)

/-- What is masked as a literal is one without a quote in it. -/
theorem isSegment_of_sqlQuoted {q : Text} (hq : SqlLiteral q) (hquoted : SqlQuoted q) :
    sqlQuotation.IsSegment q ∧ BackslashesPaired q := by
  obtain ⟨w, rfl, hw⟩ := hq
  have hbody : sqlQuotation.EscapedBody w := by
    obtain ⟨w', heq, hw'⟩ | ⟨w', heq, -⟩ := hquoted
    · rw [(List.cons.inj heq).2, ← body_iff_escapedBody]
      exact hw'
    · exact absurd (List.cons.inj heq).1 (by decide)
  obtain ⟨u, rfl, hu⟩ := hw.exists_of_escapedBody hbody
  exact ⟨⟨u, rfl, hu⟩, (Quotation.paired_segment_iff hu).mpr ((Quotation.escapedBody_iff hu).mp hbody)⟩

/-- The rest of a text behind which no literal is left open, and whose backslashes are paired. -/
structure Maskable (s : Text) : Prop where
  sqlText : SqlText s
  paired : BackslashesPaired s

theorem Maskable.of_append {a s : Text} (h : Maskable (a ++ s)) (ha : SqlText a) : Maskable s where
  sqlText := h.sqlText.right ha
  paired := ((Quotation.paired_append_iff ha.even_count).mp h.paired).2

/-- A scan finds a literal to mask or a character that is none of a literal. -/
theorem Maskable.cases {c : Char} {s : Text} (h : Maskable (c :: s)) :
    (∃ q t, c :: s = q ++ t ∧ sqlQuotation.IsSegment q ∧ SqlQuoted q) ∨ c ≠ '\'' ∧ isQuote c = false := by
  by_cases hc : c = '\''
  · subst hc
    obtain ⟨q, t, (heq : '\'' :: s = q ++ t), hq, -⟩ := h.sqlText.exists_segment
    rw [heq] at h ⊢
    have hpaired := (Quotation.paired_append_iff hq.isLiteral.even_count).mp h.paired
    exact .inl ⟨q, t, rfl, hq, sqlQuoted_of_isSegment hq hpaired.1⟩
  · exact .inr ⟨hc, h.sqlText.plain_of_ne hc⟩

/-- A mask takes a literal. -/
theorem Maskable.isSegment {q s : Text} (h : Maskable (q ++ s)) (hq : SqlQuoted q) : sqlQuotation.IsSegment q := by
  obtain ⟨c, w, rfl, hc⟩ := hq.exists_cons
  obtain ⟨q', t, heq, hq', hquoted⟩ | ⟨-, hc'⟩ := h.cases
  · rw [hq.unique hquoted heq]
    exact hq'
  · cases hc.symm.trans hc'

/-! ### Turns over the arguments of a call -/

namespace MacroArgsExpander

/-- A turn of the loop over the arguments of a call, but the last: what is left of the text and the arguments so far, before
and after it. -/
def Turn (st st' : Text × MacroArgs) : Prop :=
  st.1 ≠ [] ∧ ∃ m len, (argsTokenizer matcher).nextMatch 0 st.1 = .ok m ∧
    st.2.processMatch st.1 m = .ok (st'.2, ⟨len, false⟩) ∧ st'.1 = st.1.drop len

/-- What `process_match` takes of a plain character inside the list. -/
theorem plainChar_ok {args args' : MacroArgs} {c : Char} {s : Text} {r : ProcessMatchResult}
    (h : args.plainChar (c :: s) = .ok (args', r)) : r = ⟨1, false⟩ ∨ c = ')' ∧ r = ⟨1, true⟩ := by
  unfold MacroArgs.plainChar MacroArgs.append at h
  split at h
  · cases h
    exact .inl rfl
  · rename_i hclose
    split at h
    · unfold MacroArgs.closeArgs at h
      dsimp only at h
      split at h
      · split at h
        · cases h
        · cases h
          exact .inr ⟨Option.some.inj hclose, rfl⟩
      · cases h
        exact .inr ⟨Option.some.inj hclose, rfl⟩
    · cases h
      exact .inl rfl
  · split at h
    · unfold MacroArgs.nextArg at h
      dsimp only at h
      split at h
      · cases h
      · cases h
        exact .inl rfl
    · cases h
      exact .inl rfl
  · cases h
    exact .inl rfl

/-- What a match inside the list becomes: the end of the list, or one turn. -/
theorem processMatch_cases {pos : Nat} {s : Text} {args args' : MacroArgs} {r : ProcessMatchResult} {m : TextMatch}
    (hinside : Inside args) (hnext : (argsTokenizer matcher).nextMatch pos s = .ok m) (hne : s ≠ [])
    (h : args.processMatch s m = .ok (args', r)) :
    (∃ t, s = ')' :: t ∧ r = ⟨1, true⟩) ∨ r.atMatchesEnd = false ∧ Inside args' ∧
      ∃ taken, s = taken ++ s.drop r.len ∧ taken.length = r.len ∧
        (SqlQuoted taken ∨ ∃ c, taken = [c] ∧ isQuote c = false) := by
  obtain ⟨c, s, rfl⟩ := List.exists_cons_of_ne_nil hne
  obtain ⟨-, ⟨hquote, rfl⟩ | ⟨q, rest, heq, hq, rfl⟩⟩ := (nextMatch_ok_iff matcher (fun _ => rfl) pos c s m).mp hnext
  · rw [processMatch_plainChar hinside] at h
    obtain rfl | ⟨rfl, rfl⟩ := plainChar_ok h
    · exact .inr ⟨rfl, inside_of_plainChar hinside h rfl, [c], rfl, rfl, .inr ⟨c, rfl, hquote⟩⟩
    · exact .inl ⟨s, rfl, rfl⟩
  · rw [processMatch_matched hinside hq.length_pos.ne' rfl] at h
    cases h
    refine .inr ⟨rfl, ⟨hinside.groupCnt, modifyBack_ne_nil hinside.tokens⟩, q, ?_, rfl, .inl hq⟩
    rw [heq, List.drop_left]

theorem nextMatch_opening (s : Text) : (argsTokenizer matcher).nextMatch 0 ('(' :: s) = .ok ⟨1, none⟩ :=
  (nextMatch_ok_iff matcher (fun _ => rfl) 0 '(' s _).mpr ⟨not_opensComment_of_isSpecial rfl _, .inl ⟨rfl, rfl⟩⟩

theorem turn_opening_iff {s : Text} {st' : Text × MacroArgs} : Turn ('(' :: s, {}) st' ↔ st' = (s, ⟨1, [[]]⟩) := by
  constructor
  · rintro ⟨-, m, len, hnext, hmatch, hdrop⟩
    cases (nextMatch_opening s).symm.trans hnext
    obtain ⟨hargs, hlen⟩ := Prod.mk.inj (Except.ok.inj hmatch)
    cases hlen
    exact Prod.ext hdrop hargs.symm
  · rintro rfl
    exact ⟨List.cons_ne_nil _ _, _, 1, nextMatch_opening s, rfl, rfl⟩

theorem inside_opening : Inside ⟨1, [[]]⟩ := ⟨Nat.one_ne_zero, List.cons_ne_nil [] []⟩

theorem turn_quoted {q : Text} {args : MacroArgs} (hq : SqlQuoted q) (hinside : Inside args) (s : Text) :
    Turn (q ++ s, args) (s, { args with tokens := modifyBack (· ++ q) args.tokens }) := by
  obtain ⟨c, w, rfl, hc⟩ := hq.exists_cons
  have hspecial : isSpecial c = true := by simp [isSpecial, hc]
  have hnext : (argsTokenizer matcher).nextMatch 0 (c :: w ++ s) = .ok ⟨(c :: w).length, some .mask⟩ :=
    (nextMatch_ok_iff matcher (fun _ => rfl) 0 c (w ++ s) _).mpr
      ⟨not_opensComment_of_isSpecial hspecial _, .inr ⟨c :: w, s, rfl, hq, rfl⟩⟩
  refine ⟨List.cons_ne_nil _ _, _, (c :: w).length, hnext, ?_, List.drop_left.symm⟩
  dsimp only
  rw [processMatch_matched hinside hq.length_pos.ne' rfl, MacroArgs.append, List.take_left]

/-- A turn takes a literal as a whole, or a character that is none of a literal. -/
theorem turn_cases {s s' : Text} {args args' : MacroArgs} (hmask : Maskable s) (hinside : Inside args)
    (h : Turn (s, args) (s', args')) :
    Inside args' ∧ ∃ taken, s = taken ++ s' ∧ sqlQuotation.IsPiece taken := by
  obtain ⟨hne, m, len, hnext, hmatch, rfl⟩ := h
  obtain ⟨t, -, hr⟩ | ⟨-, hinside', taken, heq, -, hq | hc⟩ := processMatch_cases hinside hnext hne hmatch
  · cases hr
  · dsimp only at heq
    rw [heq] at hmask
    exact ⟨hinside', taken, heq, .inl (hmask.isSegment hq)⟩
  · exact ⟨hinside', taken, heq, .inr hc⟩

/-- Where the scan of a list of arguments comes to, no literal is open. -/
theorem sqlText_of_turns {list s : Text} {args : MacroArgs} (hlist : Maskable list) (hopen : list.head? = some '(')
    (h : Relation.ReflTransGen Turn (list, {}) (s, args)) :
    ∃ taken, list = taken ++ s ∧ SqlText taken ∧ (taken = [] ∧ args = {} ∨ Inside args) := by
  obtain ⟨list, rfl⟩ := List.head?_eq_some_iff.mp hopen
  generalize hst : (s, args) = st at h
  induction h generalizing s args with
  | refl =>
      cases hst
      exact ⟨[], rfl, .nil, .inl ⟨rfl, rfl⟩⟩
  | @tail st st' h hturn ih =>
      obtain ⟨taken, heq, htaken, ⟨rfl, hargs⟩ | hinside⟩ := ih rfl
      · obtain ⟨s', args'⟩ := st
        obtain rfl : '(' :: list = s' := heq
        cases hargs
        cases hst.trans (turn_opening_iff.mp hturn)
        exact ⟨['('], rfl, .plain rfl .nil, .inr inside_opening⟩
      · rw [heq] at hlist
        subst hst
        obtain ⟨hinside', taken', heq', hpiece⟩ := turn_cases (hlist.of_append htaken) hinside hturn
        refine ⟨taken ++ taken', ?_, htaken.append hpiece.hasLiterals, .inr hinside'⟩
        rw [heq, heq', List.append_assoc]

/-- A scan that returns has come to the parenthesis that closes the list. -/
theorem turns_of_run {pos pos' : Nat} {s : Text} {args args' : MacroArgs} (hinside : Inside args)
    (h : ((argsTokenizer matcher).processFrom 0 pos s).run args = .ok pos' args') :
    ∃ t args₁, Relation.ReflTransGen Turn (s, args) (')' :: t, args₁) ∧ pos' + t.length = pos + s.length := by
  induction hlen : s.length using Nat.strong_induction_on generalizing pos s args with
  | _ k ih =>
    subst hlen
    cases s with
    | nil => cases h
    | cons c s =>
        obtain ⟨m, args₁, r, hnext, hmatch, hgo⟩ := (MacroArgs.processFrom_ok_iff (p := argsTokenizer matcher) rfl).mp h
        have hturn : (argsTokenizer matcher).nextMatch 0 (c :: s) = .ok m :=
          (nextMatch_ok_iff matcher (fun _ => rfl) 0 c s m).mpr ((nextMatch_ok_iff matcher (fun _ => rfl) pos c s m).mp hnext)
        obtain ⟨t, heq, rfl⟩ | ⟨hend, hinside', taken, heq, hlen, htaken⟩ :=
          processMatch_cases hinside hnext (List.cons_ne_nil c s) hmatch
        · obtain ⟨rfl, rfl⟩ := List.cons.inj heq
          rw [if_pos rfl] at hgo
          have hpos : pos + 1 = pos' := hgo.1
          refine ⟨s, args, .refl, ?_⟩
          rw [← hpos, List.length_cons]
          omega
        · have hpos : 0 < taken.length := by
            obtain hq | ⟨c', rfl, -⟩ := htaken
            · exact hq.length_pos
            · exact Nat.one_pos
          have hcount := congrArg List.length heq
          rw [List.length_append, hlen] at hcount
          rw [if_neg (by rw [hend]; exact Bool.false_ne_true),
            TextProcessor.processFrom_pred (c := c) _ (hlen ▸ hpos) (by rw [List.length_cons] at hcount; omega)] at hgo
          obtain ⟨t, args₂, hturns, hcount'⟩ := ih _ (by omega) hinside' hgo rfl
          refine ⟨t, args₂, .head ⟨List.cons_ne_nil c s, m, r.len, hturn, ?_, rfl⟩ hturns, by omega⟩
          dsimp only
          rw [hmatch, ← hend]

theorem isSuffix_of_turns {st st' : Text × MacroArgs} (h : Relation.ReflTransGen Turn st st') : st'.1 <:+ st.1 := by
  induction h with
  | refl => exact List.suffix_rfl
  | tail _ hturn ih =>
      obtain ⟨-, m, len, -, -, hdrop⟩ := hturn
      rw [hdrop]
      exact (List.drop_suffix len _).trans ih

/-- The scan of a list that is tokenized, from behind its first parenthesis to its last one. -/
theorem turns_of_tokenizeText {s : Text} {len : Nat} {tokens : List Text}
    (h : MacroArgs.tokenizeText (argsTokenizer matcher) ('(' :: s) = .ok (len, tokens)) :
    ∃ args, Relation.ReflTransGen Turn (s, ⟨1, [[]]⟩) (')' :: ('(' :: s).drop len, args) := by
  obtain ⟨args, hrun, -⟩ := MacroArgs.tokenizeText_eq_ok.mp h
  obtain ⟨m, args₁, r, hnext, hmatch, hgo⟩ := (MacroArgs.processFrom_ok_iff (p := argsTokenizer matcher) rfl).mp hrun
  cases (nextMatch_opening s).symm.trans hnext
  cases hmatch
  obtain ⟨t, args₂, hturns, hlen⟩ := turns_of_run inside_opening hgo
  have hsuffix : t <:+ '(' :: s :=
    (List.suffix_cons ')' t).trans ((isSuffix_of_turns hturns).trans (List.suffix_cons '(' s))
  have hdrop : ('(' :: s).length - t.length = len := by
    rw [List.length_cons]
    omega
  rw [List.suffix_iff_eq_drop, hdrop] at hsuffix
  rw [← hsuffix]
  exact ⟨args₂, hturns⟩

/-- Between two places in a list its scan comes to every one where no literal is open. -/
theorem turns_between {s t rest : Text} {args args' : MacroArgs} (hmask : Maskable s) (hinside : Inside args)
    (h : Relation.ReflTransGen Turn (s, args) (rest, args')) {pre : Text} (hs : s = pre ++ t) (hpre : SqlText pre)
    (hrest : rest.length ≤ t.length) : ∃ args₁, Relation.ReflTransGen Turn (s, args) (t, args₁) := by
  generalize hst : (s, args) = st at h
  generalize hst' : (rest, args') = st' at h
  induction h using Relation.ReflTransGen.head_induction_on generalizing s pre args with
  | refl =>
      cases hst
      cases hst'
      obtain rfl : pre = [] := by
        have := congrArg List.length hs
        rw [List.length_append] at this
        exact List.length_eq_zero_iff.mp (by omega)
      rw [hs]
      exact ⟨_, .refl⟩
  | @head st st₁ hturn h ih =>
      subst hst
      obtain ⟨s₁, args₁⟩ := st₁
      by_cases hne : pre = []
      · subst hne
        rw [hs]
        exact ⟨_, .refl⟩
      · obtain ⟨hinside', taken, heq, hpiece⟩ := turn_cases hmask hinside hturn
        obtain ⟨pre', rfl, hs₁⟩ := hpiece.prefix_of_append (heq.symm.trans hs) hne hpre
        rw [heq] at hmask
        obtain ⟨args₂, hturns⟩ := ih (hmask.of_append hpiece.hasLiterals) hinside' hs₁
          (hpre.right hpiece.hasLiterals) rfl
        exact ⟨args₂, .head hturn hturns⟩

end MacroArgsExpander

end Middle.NormalDdl
