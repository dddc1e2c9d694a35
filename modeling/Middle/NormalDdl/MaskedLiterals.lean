import Middle.NormalDdl.SqlLiterals

/-! Where a pass of the macro expander comes to in a text made of literals, and when it masks exactly these: a backslash in
front of the quote that closes a literal is an escape to the matcher, and a character to SQL. -/

namespace Middle.NormalDdl

open Lib Universals

namespace MacroExpander

section Turns

variable {rules : DdlDefaultValueRules} {n list : Text} {rule : DdlDefaultValueRule}
  {macroArgs : DdlDefaultValueRuleMacroArgs}

/-- A name that is no call is taken alone. -/
theorem expandMatch_of_not_isCall (hn : IsName n list)
    (h : ∀ rule macroArgs, ¬ IsCall rules n list rule macroArgs) :
    ∃ text, expandMatch rules (n ++ list) ⟨n.length, some .app⟩ = .ok (text, n.length) := by
  rw [expandMatch_name rules hn]
  cases hfind : rules.find (UcString.ofText n) with
  | none => exact ⟨n, rfl⟩
  | some rule =>
      dsimp only
      cases hargs : rule.macroArgs with
      | none => exact ⟨rule.macroRhs, rfl⟩
      | some macroArgs =>
          refine ⟨rule.macroRhs, ?_⟩
          dsimp only
          rw [if_neg fun hopen => h rule macroArgs ⟨hn, hfind, hargs, hopen⟩]

theorem turn_name (hn : IsName n list) (h : ∀ rule macroArgs, ¬ IsCall rules n list rule macroArgs) (out : Text) :
    ∃ text, Turn rules (n ++ list, out) (list, out ++ text) := by
  obtain ⟨text, hmatch⟩ := expandMatch_of_not_isCall hn h
  exact ⟨text, turn_of_expandMatch hn.ne_nil (nextMatch_name hn 0) hmatch out⟩

/-- What a turn takes: a quoted segment, a plain character, a name, or a call with its arguments. -/
theorem turn_cases {s s' out out' : Text} (h : Turn rules (s, out) (s', out')) :
    (∃ q, SqlQuoted q ∧ s = q ++ s') ∨ (∃ c, isQuote c = false ∧ c.isAlpha = false ∧ s = c :: s') ∨
      (∃ n, IsName n s' ∧ (∀ rule macroArgs, ¬ IsCall rules n s' rule macroArgs) ∧ s = n ++ s') ∨
      ∃ n list rule macroArgs text len, IsCall rules n list rule macroArgs ∧
        expandCall n rule macroArgs list = .ok (text, len) ∧ s = n ++ list ∧ s' = list.drop len := by
  obtain ⟨hne, m, text, len, hnext, hmatch, hst⟩ := h
  obtain ⟨rfl, -⟩ := Prod.mk.inj hst
  obtain ⟨c, s, rfl⟩ := List.exists_cons_of_ne_nil hne
  dsimp only
  obtain ⟨q, rest, hq, heq, -, rfl⟩ | ⟨hquote, halpha, -, rfl⟩ | ⟨n, list, hn, heq, rfl, hname⟩ |
    ⟨n, list, rule, macroArgs, len', hcall, hexpand, heq, rfl⟩ := expandMatch_cases rules hnext hmatch
  · rw [heq, List.drop_left]
    exact .inl ⟨q, hq, rfl⟩
  · exact .inr (.inl ⟨c, hquote, halpha, rfl⟩)
  · rw [heq, List.drop_left]
    refine .inr (.inr (.inl ⟨n, hn, fun rule macroArgs hcall => ?_, rfl⟩))
    obtain ⟨hfind, -⟩ | ⟨rule', hfind, hargs, -⟩ := hname
    · cases hfind.symm.trans hcall.find
    · obtain rfl : rule' = rule := Option.some.inj (hfind.symm.trans hcall.find)
      obtain hargs | hopen := hargs
      · cases hargs.symm.trans hcall.macroArgs
      · exact hopen hcall.opening
  · refine .inr (.inr (.inr ⟨n, list, rule, macroArgs, _, _, hcall, hexpand, heq, ?_⟩))
    rw [heq, ← List.drop_drop, List.drop_left]

end Turns

/-! ### Where a pass comes to -/

section Places

variable (rules : DdlDefaultValueRules) (text : Text)

/-- The pass comes to where `s` is left of the text, with `out` appended. -/
def Reaches (s out : Text) : Prop := Relation.ReflTransGen (Turn rules) (text, []) (s, out)

/-- The pass comes to a call, and the scan of its arguments to where `s` is left. -/
def ReachesArgs (s : Text) (args : MacroArgs) : Prop :=
  ∃ n list rule macroArgs out, Reaches rules text (n ++ list) out ∧ IsCall rules n list rule macroArgs ∧
    Relation.ReflTransGen MacroArgsExpander.Turn (list, {}) (s, args)

/-- One of the two scans looks for a mask in front of `s`. -/
def Scans (s : Text) : Prop := (∃ out, Reaches rules text s out) ∨ ∃ args, ReachesArgs rules text s args

/-- A call in front of `s` is refused, which ends the pass. -/
def Refused (s : Text) : Prop :=
  ∃ n list rule macroArgs out e, Reaches rules text (n ++ list) out ∧ IsCall rules n list rule macroArgs ∧
    expandCall n rule macroArgs list = .error e ∧ s <:+ list

/-- Between two characters of one SQL name. -/
def InName (pre s : Text) : Prop :=
  ∃ c c', pre.getLast? = some c ∧ s.head? = some c' ∧ isIdChar c = true ∧ isIdChar c' = true

/-- What a pass masks in a text are its string literals. -/
structure MasksLiterals : Prop where
  /-- Neither scan ever looks for a mask inside a literal. -/
  outside {s : Text} (h : Scans rules text s) : ∃ pre, text = pre ++ s ∧ SqlText pre
  /-- The mask that starts with a quote is a literal: one with a doubled quote in it is masked in two parts. -/
  masked {s : Text} (h : Scans rules text ('\'' :: s)) : ∃ m q rest, '\'' :: s = q ++ rest ∧ SqlLiteral q ∧
    firstMatch macroMaskMatchers ('\'' :: s) = .ok (some (m, q.length))
  unmasked {c : Char} {s : Text} (h : Scans rules text (c :: s)) (hc : c ≠ '\'') :
    firstMatch macroMaskMatchers (c :: s) = .ok none
  /-- The pass goes over a literal and appends it as it is, and so does a scan of arguments to the current one. -/
  copied {q s out : Text} (hq : SqlLiteral q) (h : Reaches rules text (q ++ s) out) : Reaches rules text s (out ++ q)
  copiedArg {q s : Text} {args : MacroArgs} (hq : SqlLiteral q) (h : ReachesArgs rules text (q ++ s) args) :
    ReachesArgs rules text s { args with tokens := modifyBack (· ++ q) args.tokens }
  /-- Where the pass comes to a name, it looks it up as a whole. -/
  lookedUp {n s out : Text} (hn : IsName n s) (h : Reaches rules text (n ++ s) out) :
    (processor rules).nextMatch 0 (n ++ s) = .ok ⟨n.length, some .app⟩
  /-- The pass comes to every literal, and to every name outside them, but for the arguments of a call and what is behind a
  call that is refused. -/
  reached {pre s : Text} (htext : text = pre ++ s) (hpre : SqlText pre) (hname : ¬ InName pre s) :
    (∃ out, Reaches rules text s out) ∨ (∃ args, ReachesArgs rules text s args) ∨ Refused rules text s

end Places

variable {rules : DdlDefaultValueRules} {text : Text}

theorem sqlText_of_isName {n s : Text} (hn : IsName n s) : SqlText n := by
  refine Quotation.hasLiterals_of_plain fun c hc => ?_
  cases hquote : isQuote c with
  | false => exact hquote
  | true =>
      have hid := isIdChar_of_isQuote hquote
      rw [hn.all c hc] at hid
      cases hid

theorem turns_of_expandCall {n list text : Text} {rule : DdlDefaultValueRule} {macroArgs : DdlDefaultValueRuleMacroArgs}
    {len : Nat} (hopen : list.head? = some '(') (h : expandCall n rule macroArgs list = .ok (text, len)) :
    ∃ s args, list = '(' :: s ∧
      Relation.ReflTransGen MacroArgsExpander.Turn (s, ⟨1, [[]]⟩) (')' :: list.drop len, args) := by
  obtain ⟨s, rfl⟩ := List.head?_eq_some_iff.mp hopen
  obtain ⟨tokens, -, htokens, -⟩ := expandCall_ok_iff.mp h
  obtain ⟨args, hturns⟩ := MacroArgsExpander.turns_of_tokenizeText htokens
  exact ⟨s, args, rfl, hturns⟩

/-- A call takes its list of arguments, and no part of a literal only. -/
theorem sqlText_of_expandCall {n list text : Text} {rule : DdlDefaultValueRule} {macroArgs : DdlDefaultValueRuleMacroArgs}
    {len : Nat} (hmask : Maskable list) (hopen : list.head? = some '(')
    (h : expandCall n rule macroArgs list = .ok (text, len)) : ∃ taken, list = taken ++ list.drop len ∧ SqlText taken := by
  obtain ⟨s, args, heq, hturns⟩ := turns_of_expandCall hopen h
  have hturns : Relation.ReflTransGen MacroArgsExpander.Turn (list, {}) (')' :: list.drop len, args) := by
    rw [heq] at hturns ⊢
    exact .head (MacroArgsExpander.turn_opening_iff.mpr rfl) hturns
  obtain ⟨taken, htaken, hsql, -⟩ := MacroArgsExpander.sqlText_of_turns hmask hopen hturns
  refine ⟨taken ++ [')'], ?_, hsql.append (.plain rfl .nil)⟩
  rw [List.append_assoc]
  exact htaken

/-- Where the pass comes to, no literal is open. -/
theorem sqlText_of_reaches {s out : Text} (hmask : Maskable text) (h : Reaches rules text s out) :
    ∃ pre, text = pre ++ s ∧ SqlText pre := by
  rw [Reaches] at h
  generalize hst : (s, out) = st at h
  induction h generalizing s out with
  | refl =>
      cases hst
      exact ⟨[], rfl, .nil⟩
  | @tail st st' h hturn ih =>
      obtain ⟨pre, heq, hpre⟩ := ih rfl
      have hrest := hmask
      rw [heq] at hrest
      have hrest := hrest.of_append hpre
      obtain ⟨taken, htaken, hsql⟩ : ∃ taken, st.1 = taken ++ s ∧ SqlText taken := by
        subst hst
        obtain ⟨q, hq, hs⟩ | ⟨c, hc, -, hs⟩ | ⟨n, hn, -, hs⟩ |
          ⟨n, list, rule, macroArgs, text', len, hcall, hexpand, hs, hs'⟩ := turn_cases hturn
        · rw [hs] at hrest
          exact ⟨q, hs, (hrest.isSegment hq).isLiteral.hasLiterals⟩
        · exact ⟨[c], hs, .plain hc .nil⟩
        · exact ⟨n, hs, sqlText_of_isName hn⟩
        · rw [hs] at hrest
          have hname := sqlText_of_isName hcall.name
          obtain ⟨taken, htaken, hsql⟩ := sqlText_of_expandCall (hrest.of_append hname) hcall.opening hexpand
          refine ⟨n ++ taken, ?_, hname.append hsql⟩
          rw [hs, hs', List.append_assoc, ← htaken]
      refine ⟨pre ++ taken, ?_, hpre.append hsql⟩
      rw [heq, htaken, List.append_assoc]

theorem sqlText_of_reachesArgs {s : Text} {args : MacroArgs} (hmask : Maskable text) (h : ReachesArgs rules text s args) :
    ∃ pre, text = pre ++ s ∧ SqlText pre := by
  obtain ⟨n, list, rule, macroArgs, out, hreach, hcall, hturns⟩ := h
  obtain ⟨pre, heq, hpre⟩ := sqlText_of_reaches hmask hreach
  rw [heq] at hmask
  have hname := sqlText_of_isName hcall.name
  have hlist := (hmask.of_append hpre).of_append hname
  obtain ⟨taken, rfl, hsql, -⟩ := MacroArgsExpander.sqlText_of_turns hlist hcall.opening hturns
  refine ⟨pre ++ (n ++ taken), ?_, hpre.append (hname.append hsql)⟩
  simp only [heq, List.append_assoc]

/-- Where either scan looks for a mask, no literal is open. -/
theorem sqlText_of_scans {s : Text} (hmask : Maskable text) (h : Scans rules text s) : ∃ pre, text = pre ++ s ∧ SqlText pre := by
  obtain ⟨out, h⟩ | ⟨args, h⟩ := h
  · exact sqlText_of_reaches hmask h
  · exact sqlText_of_reachesArgs hmask h

theorem Scans.maskable {s : Text} (hmask : Maskable text) (h : Scans rules text s) : Maskable s := by
  obtain ⟨pre, heq, hpre⟩ := sqlText_of_scans hmask h
  rw [heq] at hmask
  exact hmask.of_append hpre

/-! ### Literals are masked -/

/-- A scan that copies what it masks copies a literal, part by part. -/
theorem copied_of_masked {σ : Type} (At : Text → σ → Prop) (copy : σ → Text → σ)
    (hcopy : ∀ a p q, copy (copy a p) q = copy a (p ++ q))
    (hstep : ∀ p s a, SqlQuoted p → At (p ++ s) a → At s (copy a p)) {q s : Text} {a : σ} (hq : SqlLiteral q)
    (hmask : Maskable (q ++ s)) (h : At (q ++ s) a) : At s (copy a q) := by
  induction hlen : q.length using Nat.strong_induction_on generalizing q a with
  | _ k ih =>
    subst hlen
    obtain ⟨p, q', rfl, hp, hq'⟩ := hq.exists_segment
    have hpaired := (Quotation.paired_append_iff hq.even_count).mp hmask.paired
    have hquoted := sqlQuoted_of_isSegment hp ((Quotation.paired_append_iff hp.isLiteral.even_count).mp hpaired.1).1
    rw [List.append_assoc] at h hmask
    have hrest := hstep p (q' ++ s) a hquoted h
    obtain rfl | hq' := hq'
    · rw [List.append_nil]
      exact hrest
    · rw [← hcopy]
      refine ih _ ?_ hq' (hmask.of_append hp.isLiteral.hasLiterals) hrest rfl
      rw [List.length_append]
      have := hquoted.length_pos
      omega

theorem modifyBack_modifyBack (f g : Text → Text) (ts : List Text) :
    modifyBack f (modifyBack g ts) = modifyBack (fun t => f (g t)) ts := by
  induction ts using List.reverseRecOn with
  | nil => rfl
  | append_singleton ts t => rw [modifyBack_concat, modifyBack_concat, modifyBack_concat]

theorem reaches_quoted {q s out : Text} (hq : SqlQuoted q) (h : Reaches rules text (q ++ s) out) :
    Reaches rules text s (out ++ q) := h.tail (turn_quoted hq s out)

theorem reachesArgs_quoted (hmask : Maskable text) {q s : Text} {args : MacroArgs} (hq : SqlQuoted q)
    (h : ReachesArgs rules text (q ++ s) args) :
    ReachesArgs rules text s { args with tokens := modifyBack (· ++ q) args.tokens } := by
  obtain ⟨n, list, rule, macroArgs, out, hreach, hcall, hturns⟩ := h
  have hlist : Maskable list := by
    obtain ⟨pre, heq, hpre⟩ := sqlText_of_reaches hmask hreach
    rw [heq] at hmask
    exact (hmask.of_append hpre).of_append (sqlText_of_isName hcall.name)
  obtain ⟨taken, heq, -, ⟨rfl, -⟩ | hinside⟩ := MacroArgsExpander.sqlText_of_turns hlist hcall.opening hturns
  · obtain ⟨c, w, rfl, hc⟩ := hq.exists_cons
    have hopen := hcall.opening
    rw [heq] at hopen
    cases hopen
    cases hc
  · exact ⟨n, list, rule, macroArgs, out, hreach, hcall, hturns.tail (MacroArgsExpander.turn_quoted hq hinside s)⟩

theorem InName.append_left {pre s : Text} (h : InName pre s) (a : Text) : InName (a ++ pre) s := by
  obtain ⟨c, c', hlast, hhead, hc⟩ := h
  refine ⟨c, c', ?_, hhead, hc⟩
  rw [List.getLast?_append, hlast]
  rfl

/-- A name is not cut where no name is. -/
theorem name_prefix_of_append {n list pre t : Text} (hn : IsName n list) (h : n ++ list = pre ++ t) (hne : pre ≠ [])
    (hname : ¬ InName pre t) : ∃ pre', pre = n ++ pre' ∧ list = pre' ++ t := by
  obtain ⟨x, rfl, hlist⟩ | ⟨x, rfl, rfl⟩ := List.append_eq_append_iff.mp h
  · exact ⟨x, rfl, hlist⟩
  · cases x with
    | nil => exact ⟨[], by rw [List.append_nil, List.append_nil], rfl⟩
    | cons c' x =>
        refine absurd ⟨pre.getLast hne, c', List.getLast?_eq_some_getLast hne, rfl, ?_, ?_⟩ hname
        · exact hn.all _ (List.mem_append_left _ (List.getLast_mem hne))
        · exact hn.all _ (List.mem_append_right _ List.mem_cons_self)

theorem exists_append_of_length_le {a b c d : Text} (h : a ++ b = c ++ d) (hle : d.length ≤ b.length) :
    ∃ x, c = a ++ x ∧ b = x ++ d := by
  obtain ⟨x, rfl, hx⟩ | ⟨x, rfl, rfl⟩ := List.append_eq_append_iff.mp h
  · exact ⟨x, rfl, hx⟩
  · rw [List.length_append] at hle
    obtain rfl : x = [] := List.length_eq_zero_iff.mp (by omega)
    exact ⟨[], by rw [List.append_nil, List.append_nil], rfl⟩

/-- In the list of arguments of a call that is expanded, its scan comes to every place. -/
theorem reachesArgs_of_expandCall (hmask : Maskable text) {n list pre t text' out : Text} {rule : DdlDefaultValueRule}
    {macroArgs : DdlDefaultValueRuleMacroArgs} {len : Nat} (hreach : Reaches rules text (n ++ list) out)
    (hcall : IsCall rules n list rule macroArgs) (hexpand : expandCall n rule macroArgs list = .ok (text', len))
    (hlist : list = pre ++ t) (hpre : SqlText pre) (hlen : (list.drop len).length < t.length) :
    ∃ args, ReachesArgs rules text t args := by
  obtain ⟨s, args, heq, hturns⟩ := turns_of_expandCall hcall.opening hexpand
  have hopen : MacroArgsExpander.Turn (list, {}) (s, ⟨1, [[]]⟩) := by
    rw [heq]
    exact MacroArgsExpander.turn_opening_iff.mpr rfl
  have hmasked : Maskable list := by
    obtain ⟨pre, heq, hpre⟩ := sqlText_of_reaches hmask hreach
    rw [heq] at hmask
    exact (hmask.of_append hpre).of_append (sqlText_of_isName hcall.name)
  cases pre with
  | nil =>
      rw [hlist] at hreach hcall
      exact ⟨{}, n, t, rule, macroArgs, out, hreach, hcall, .refl⟩
  | cons c pre =>
      obtain ⟨rfl, hs⟩ := List.cons.inj (heq.symm.trans hlist)
      rw [heq] at hmasked
      have hone : SqlText ['('] := .plain rfl .nil
      obtain ⟨args₁, hturns₁⟩ := MacroArgsExpander.turns_between (hmasked.of_append (a := ['(']) hone)
        MacroArgsExpander.inside_opening hturns hs (hpre.right (s := ['(']) hone) hlen
      exact ⟨args₁, n, list, rule, macroArgs, out, hreach, hcall, .head hopen hturns₁⟩

/-- Every place in the text is come to, but for those within a name, and those behind a call that is refused. -/
theorem reached_of_maskable (hmask : Maskable text) {s out : Text} (hreach : Reaches rules text s out) {pre t : Text}
    (hs : s = pre ++ t) (hpre : SqlText pre) (hname : ¬ InName pre t) :
    (∃ out, Reaches rules text t out) ∨ (∃ args, ReachesArgs rules text t args) ∨ Refused rules text t := by
  induction hlen : pre.length using Nat.strong_induction_on generalizing s out pre with
  | _ k ih =>
    subst hlen
    -- the pass goes on behind what stands in front of the place
    have hgo : ∀ taken pre' s' out', taken ≠ [] → SqlText taken → pre = taken ++ pre' → s' = pre' ++ t →
        Reaches rules text s' out' →
        (∃ out, Reaches rules text t out) ∨ (∃ args, ReachesArgs rules text t args) ∨ Refused rules text t := by
      intro taken pre' s' out' hne htaken heq hs' hreach'
      rw [heq] at hpre hname
      refine ih pre'.length ?_ hreach' hs' (hpre.right htaken) (mt (·.append_left taken) hname) rfl
      rw [heq, List.length_append]
      have := List.length_pos_iff.mpr hne
      omega
    by_cases hne : pre = []
    · subst hne
      rw [hs] at hreach
      exact .inl ⟨out, hreach⟩
    obtain ⟨c, s, rfl⟩ : ∃ c s', s = c :: s' :=
      List.exists_cons_of_ne_nil (by rw [hs]; exact List.append_ne_nil_of_left_ne_nil hne t)
    have hrest : Maskable (c :: s) := Scans.maskable hmask (.inl ⟨out, hreach⟩)
    obtain ⟨q, rest, heq, hq, hquoted⟩ | ⟨-, hquote⟩ := hrest.cases
    · obtain ⟨pre', hpre', hs'⟩ := Quotation.IsPiece.prefix_of_append (.inl hq) (heq.symm.trans hs) hne hpre
      rw [heq] at hreach
      exact hgo q pre' rest _ hq.isLiteral.ne_nil hq.isLiteral.hasLiterals hpre' hs' (reaches_quoted hquoted hreach)
    cases halpha : c.isAlpha with
    | false =>
        obtain ⟨pre', hpre', hs'⟩ :=
          Quotation.IsPiece.prefix_of_append (Q := sqlQuotation) (.inr ⟨c, rfl, hquote⟩) (q := [c]) hs hne hpre
        exact hgo [c] pre' s _ (List.cons_ne_nil c []) (.plain hquote .nil) hpre' hs'
          (hreach.tail (turn_plain hquote halpha s out))
    | true =>
        obtain ⟨n, list, hn, heq, -⟩ := exists_isName halpha s
        obtain ⟨pre', hpre', hlist⟩ := name_prefix_of_append hn (heq.symm.trans hs) hne hname
        rw [heq] at hreach
        have hsql := sqlText_of_isName hn
        by_cases hcall : ∃ rule macroArgs, IsCall rules n list rule macroArgs
        · obtain ⟨rule, macroArgs, hcall⟩ := hcall
          cases hexpand : expandCall n rule macroArgs list with
          | error e => exact .inr (.inr ⟨n, list, rule, macroArgs, out, e, hreach, hcall, hexpand, pre', hlist.symm⟩)
          | ok r =>
              obtain ⟨text', len⟩ := r
              by_cases hin : (list.drop len).length < t.length
              · rw [hpre'] at hpre
                exact .inr (.inl (reachesArgs_of_expandCall hmask hreach hcall hexpand hlist (hpre.right hsql) hin))
              · rw [heq] at hrest
                obtain ⟨taken, htaken, hsqlTaken⟩ := sqlText_of_expandCall (hrest.of_append hsql) hcall.opening hexpand
                obtain ⟨x, hx, hdrop⟩ := exists_append_of_length_le (htaken.symm.trans hlist) (not_lt.mp hin)
                refine hgo (n ++ taken) x (list.drop len) _ (List.append_ne_nil_of_left_ne_nil hn.ne_nil _)
                  (hsql.append hsqlTaken) ?_ hdrop (hreach.tail (turn_call hcall hexpand out))
                rw [hpre', hx, List.append_assoc]
        · obtain ⟨text', hturn⟩ := turn_name hn (fun rule macroArgs h => hcall ⟨rule, macroArgs, h⟩) out
          exact hgo n pre' list _ hn.ne_nil hsql hpre' hlist (hreach.tail hturn)

theorem masksLiterals_of_maskable (rules : DdlDefaultValueRules) (hmask : Maskable text) : MasksLiterals rules text where
  outside h := sqlText_of_scans hmask h
  masked h := by
    obtain ⟨q, rest, heq, hq, hquoted⟩ | ⟨hne, -⟩ := (h.maskable hmask).cases
    · obtain ⟨m, hfirst⟩ := firstMatch_mask_of_quoted hquoted rest
      rw [← heq] at hfirst
      exact ⟨m, q, rest, heq, hq.isLiteral, hfirst⟩
    · exact absurd rfl hne
  unmasked h hc := firstMatch_mask_of_not_isQuote ((h.maskable hmask).sqlText.plain_of_ne hc) _
  copied {q s out} hq h := by
    have hrest : Maskable (q ++ s) := Scans.maskable hmask (.inl ⟨out, h⟩)
    exact copied_of_masked (Reaches rules text) (· ++ ·) List.append_assoc
      (fun _ _ _ hp => reaches_quoted hp) hq hrest h
  copiedArg {q s args} hq h := by
    have hrest : Maskable (q ++ s) := Scans.maskable hmask (.inr ⟨args, h⟩)
    refine copied_of_masked (ReachesArgs rules text)
      (fun args q => { args with tokens := modifyBack (· ++ q) args.tokens }) (fun args p q => ?_)
      (fun _ _ _ hp => reachesArgs_quoted hmask hp) hq hrest h
    simp only [modifyBack_modifyBack, List.append_assoc]
  lookedUp hn _ := nextMatch_name hn 0
  reached htext hpre hname := reached_of_maskable hmask .refl htext hpre hname

theorem not_mem_of_isName {n s : Text} (hn : IsName n s) : '\'' ∉ n := by
  intro hmem
  have hid := hn.all _ hmem
  revert hid
  decide

/-- The backslashes are paired where a pass masks literal by literal, with rules that take no arguments and so leave none of
the text to another scan. -/
theorem paired_of_masksLiterals (hrules : ∀ k rule, rules.find k = some rule → rule.macroArgs = none)
    (h : MasksLiterals rules text) {s out : Text} (hreach : Reaches rules text s out) (hsql : SqlText s) :
    BackslashesPaired s := by
  induction hlen : s.length using Nat.strong_induction_on generalizing s out with
  | _ k ih =>
    subst hlen
    have hgo : ∀ taken rest out', s = taken ++ rest → taken ≠ [] → SqlText taken → BackslashesPaired taken →
        Reaches rules text rest out' → BackslashesPaired s := by
      intro taken rest out' heq hne htaken hpaired hreach'
      rw [heq] at hsql ⊢
      refine (Quotation.paired_append_iff htaken.even_count).mpr ⟨hpaired, ih rest.length ?_ hreach' (hsql.right htaken) rfl⟩
      rw [heq, List.length_append]
      have := List.length_pos_iff.mpr hne
      omega
    cases s with
    | nil => exact Quotation.paired_of_not_mem List.not_mem_nil
    | cons c s =>
        by_cases hc : c = '\''
        · subst hc
          obtain ⟨m, q, rest, heq, hq, hfirst⟩ := h.masked (.inl ⟨out, hreach⟩)
          obtain ⟨m', q', rest', heq', hquoted, hfound⟩ := quoted_of_firstMatch_mask rfl hfirst
          -- what is masked is the literal
          obtain rfl : q = q' :=
            (List.append_inj (heq.symm.trans heq') (congrArg Prod.snd (Option.some.inj hfound))).1
          rw [heq] at hreach
          exact hgo q rest _ heq hq.ne_nil hq.hasLiterals (isSegment_of_sqlQuoted hq hquoted).2
            (reaches_quoted hquoted hreach)
        have hquote : isQuote c = false := hsql.plain_of_ne hc
        cases halpha : c.isAlpha with
        | false =>
            exact hgo [c] s _ rfl (List.cons_ne_nil c []) (.plain hquote .nil)
              (Quotation.paired_of_not_mem (mt List.mem_singleton.mp (Ne.symm hc)))
              (hreach.tail (turn_plain hquote halpha s out))
        | true =>
            obtain ⟨n, list, hn, heq, -⟩ := exists_isName halpha s
            have hcall : ∀ rule macroArgs, ¬ IsCall rules n list rule macroArgs := by
              intro rule macroArgs hcall
              cases (hrules _ rule hcall.find).symm.trans hcall.macroArgs
            obtain ⟨text', hturn⟩ := turn_name hn hcall out
            rw [heq] at hreach
            exact hgo n list _ heq hn.ne_nil (sqlText_of_isName hn) (Quotation.paired_of_not_mem (not_mem_of_isName hn))
              (hreach.tail hturn)

/-- A pass masks exactly the literals of a text, whatever the rules, if and only if the backslashes in it are paired. -/
theorem masksLiterals_iff (htext : SqlText text) : (∀ rules, MasksLiterals rules text) ↔ BackslashesPaired text := by
  constructor
  · intro h
    refine paired_of_masksLiterals (fun k rule hfind => ?_) (h ∅) .refl htext
    cases hfind
  · exact fun h rules => masksLiterals_of_maskable rules ⟨htext, h⟩

/-- A pass throws what its first search for a match throws. -/
theorem expandOnce_of_nextMatch {c : Char} {s : Text} {e : Fault} (h : (processor rules).nextMatch 0 (c :: s) = .error e) :
    expandOnce rules (c :: s) = .error e := by
  rw [expandOnce, run_expandMacro, TextProcessor.processText, TextProcessor.run_processFrom_zero_cons, h]

/-- Two backslashes in front of the closing quote are one to the matcher, and leave it to close. -/
theorem masksLiterals_even_backslashes :
    BackslashesPaired "'C:\\\\' + f".toList ∧ ∀ rules, MasksLiterals rules "'C:\\\\' + f".toList := by
  have hsegment : sqlQuotation.IsSegment "'C:\\\\'".toList := ⟨"C:\\\\".toList, by decide, by decide⟩
  have htext : "'C:\\\\' + f".toList = "'C:\\\\'".toList ++ [' ', '+', ' ', 'f'] := by decide
  have hplain : SqlText [' ', '+', ' ', 'f'] := .plain rfl (.plain rfl (.plain rfl (.plain rfl .nil)))
  have hsql := hsegment.isLiteral.hasLiterals.append hplain
  have hpaired : BackslashesPaired ("'C:\\\\'".toList ++ [' ', '+', ' ', 'f']) := by
    refine (Quotation.paired_append_iff hsegment.isLiteral.even_count).mpr
      ⟨(Quotation.paired_segment_iff (u := "C:\\\\".toList) (by decide)).mpr (by decide), ?_⟩
    exact Quotation.paired_of_not_mem (by decide)
  rw [htext]
  exact ⟨hpaired, (masksLiterals_iff hsql).mpr hpaired⟩

/-- A literal that ends in a backslash is no literal to the matcher, and the pass fails on it. -/
theorem not_masksLiterals_odd_backslashes :
    SqlText "'C:\\'".toList ∧ ∀ rules,
      expandOnce rules "'C:\\'".toList = .error (.malformedText 5 "unterminated quote".toList) ∧
      ¬ MasksLiterals rules "'C:\\'".toList := by
  have hsegment : sqlQuotation.IsSegment "'C:\\'".toList := ⟨"C:\\".toList, rfl, by decide⟩
  have hnext : ∀ rules, (processor rules).nextMatch 0 ('\'' :: "C:\\'".toList) =
      .error (.malformedText 5 "unterminated quote".toList) := fun _ => rfl
  have htext : "'C:\\'".toList = '\'' :: "C:\\'".toList := rfl
  refine ⟨hsegment.isLiteral.hasLiterals, fun rules => ⟨?_, fun h => ?_⟩⟩
  · rw [htext]
    exact expandOnce_of_nextMatch (hnext rules)
  · obtain ⟨m, q, rest, -, -, hfirst⟩ := h.masked (s := "C:\\'".toList) (.inl ⟨[], .refl⟩)
    cases hfirst

end MacroExpander

end Middle.NormalDdl
