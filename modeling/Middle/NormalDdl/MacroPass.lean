import Middle.NormalDdl.DefaultValueMacro
import Middle.NormalDdl.MacroArgsGrammar

/-! One pass of the macro expander, as a relation between a text and its expansion: quoted segments and
plain characters are copied, and every SQL name is copied or, where a rule has it on its left-hand side,
replaced. -/

namespace Middle.NormalDdl

open Lib Universals

/-- A whole SQL name with `s` behind it. -/
structure IsName (n s : Text) : Prop where
  head : ∃ c w, n = c :: w ∧ c.isAlpha = true
  all : ∀ c ∈ n, MacroExpander.isIdChar c = true
  stop : ∀ c, s.head? = some c → MacroExpander.isIdChar c = false

theorem IsName.ne_nil {n s : Text} (hn : IsName n s) : n ≠ [] := by
  obtain ⟨c, w, rfl, -⟩ := hn.head
  exact List.cons_ne_nil c w

/-- A call of a rule that takes arguments. -/
structure IsCall (rules : DdlDefaultValueRules) (n list : Text) (rule : DdlDefaultValueRule)
    (macroArgs : DdlDefaultValueRuleMacroArgs) : Prop where
  name : IsName n list
  find : rules.find (UcString.ofText n) = some rule
  macroArgs : rule.macroArgs = some macroArgs
  opening : list.head? = some '('

/-- `Expands rules s out`: one pass over `s` appends `out`. -/
inductive Expands (rules : DdlDefaultValueRules) : Text → Text → Prop
  | nil : Expands rules [] []
  | quoted {q s out : Text} (hq : SqlQuoted q) (h : Expands rules s out) :
      Expands rules (q ++ s) (q ++ out)
  | plain {c : Char} {s out : Text} (hquote : isQuote c = false) (halpha : c.isAlpha = false)
      (h : Expands rules s out) : Expands rules (c :: s) (c :: out)
  | name {n s out : Text} (hn : IsName n s) (hfind : rules.find (UcString.ofText n) = none)
      (h : Expands rules s out) : Expands rules (n ++ s) (n ++ out)
  | replaced {n s out : Text} {rule : DdlDefaultValueRule} (hn : IsName n s)
      (hfind : rules.find (UcString.ofText n) = some rule)
      (hcall : rule.macroArgs = none ∨ s.head? ≠ some '(') (h : Expands rules s out) :
      Expands rules (n ++ s) (rule.macroRhs ++ out)
  | call {n s text out : Text} {rule : DdlDefaultValueRule} {macroArgs : DdlDefaultValueRuleMacroArgs}
      {len : Nat} (hn : IsName n s) (hfind : rules.find (UcString.ofText n) = some rule)
      (hargs : rule.macroArgs = some macroArgs) (hopen : s.head? = some '(')
      (hcall : MacroExpander.expandCall n rule macroArgs s = .ok (text, len))
      (h : Expands rules (s.drop len) out) : Expands rules (n ++ s) (text ++ out)

namespace MacroExpander

theorem isIdChar_of_isAlpha {c : Char} (h : c.isAlpha = true) : isIdChar c = true := by
  simp [isIdChar, Char.isAlphanum, h]

theorem isAlpha_of_isQuote {c : Char} (h : isQuote c = true) : c.isAlpha = false := by
  simp only [isQuote, Bool.or_eq_true, decide_eq_true_eq] at h
  obtain rfl | rfl := h <;> decide

theorem isIdChar_of_isQuote {c : Char} (h : isQuote c = true) : isIdChar c = false := by
  simp only [isQuote, Bool.or_eq_true, decide_eq_true_eq] at h
  obtain rfl | rfl := h <;> decide

theorem matcher_find_cons (c : Char) (s : Text) :
    matcher.find (c :: s) = .ok (if c.isAlpha then 1 + (s.takeWhile isIdChar).length else 0) := rfl

variable (rules : DdlDefaultValueRules)

/-- What the loop finds at a position: a quoted segment, an SQL name or a plain character. -/
theorem nextMatch_ok_iff (pos : Nat) (c : Char) (s : Text) (found : TextMatch) :
    (processor rules).nextMatch pos (c :: s) = .ok found ↔
      (isQuote c = false ∧ c.isAlpha = false ∧ found = ⟨1, none⟩) ∨
      (c.isAlpha = true ∧ found = ⟨1 + (s.takeWhile isIdChar).length, some .app⟩) ∨
      ∃ q rest, c :: s = q ++ rest ∧ SqlQuoted q ∧ found = ⟨q.length, some .mask⟩ := by
  simp only [TextProcessor.nextMatch, processor, firstMatch]
  cases hc : isQuote c with
  | false =>
      have hmask : ¬ ∃ q rest, c :: s = q ++ rest ∧ SqlQuoted q ∧
          found = ⟨q.length, some .mask⟩ := by
        rintro ⟨q, rest, heq, hq, -⟩
        obtain ⟨c', w, rfl, hc'⟩ := hq.exists_cons
        obtain rfl : c = c' := (List.cons.inj heq).1
        exact absurd hc (by simp [hc'])
      rw [firstMatch_mask_of_not_isQuote hc, or_iff_left hmask]
      simp only [matcher_find_cons]
      cases halpha : c.isAlpha with
      | false =>
          simp only [Bool.false_eq_true, if_false, if_true, Except.ok.injEq, true_and, false_and, or_false]
          exact eq_comm
      | true =>
          have hne : 1 + (s.takeWhile isIdChar).length ≠ 0 := by omega
          simp only [if_true, hne, if_false, Except.ok.injEq, Bool.true_eq_false, false_and, and_false,
            false_or, true_and]
          exact eq_comm
  | true =>
      have halpha := isAlpha_of_isQuote hc
      simp only [halpha, reduceCtorEq, false_and, false_or]
      constructor
      · intro h
        split at h
        · cases h
        · rename_i hfirst
          obtain ⟨m, q, rest, heq, hq, hfound⟩ := quoted_of_firstMatch_mask hc hfirst
          simp only [Option.some.injEq, Prod.mk.injEq] at hfound
          rw [hfound.2] at h
          exact ⟨q, rest, heq, hq, (Except.ok.inj h).symm⟩
        · rename_i hfirst
          obtain ⟨m, q, rest, heq, hq, hfound⟩ := quoted_of_firstMatch_mask hc hfirst
          cases hfound
      · rintro ⟨q, rest, heq, hq, rfl⟩
        obtain ⟨m, hfirst⟩ := firstMatch_mask_of_quoted hq rest
        rw [heq, hfirst]

/-- One turn of the loop. -/
theorem run_turn_iff {pos pos' : Nat} {c : Char} {s appended appended' : Text} :
    ((processor rules).processFrom 0 pos (c :: s)).run appended = .ok pos' appended' ↔
      ∃ found text len, (processor rules).nextMatch pos (c :: s) = .ok found ∧
        expandMatch rules (c :: s) found = .ok (text, len) ∧
        ((processor rules).processFrom (len - 1) (pos + 1) s).run (appended ++ text) =
          .ok pos' appended' := by
  rw [TextProcessor.run_processFrom_zero_cons]
  cases hnext : (processor rules).nextMatch pos (c :: s) with
  | error e => simp
  | ok found =>
      simp only [Except.ok.injEq, ↓existsAndEq, true_and]
      cases hexpand : expandMatch rules (c :: s) found with
      | error e => simp [processor, EStateM.run, hexpand]
      | ok r =>
          obtain ⟨text, len⟩ := r
          simp [processor, EStateM.run, hexpand]

theorem isName_takeWhile {c : Char} (h : c.isAlpha = true) (s : Text) :
    IsName (c :: s.takeWhile isIdChar) (s.dropWhile isIdChar) where
  head := ⟨c, _, rfl, h⟩
  all := List.forall_mem_cons.mpr ⟨isIdChar_of_isAlpha h, fun _ hc => List.mem_takeWhile_imp hc⟩
  stop c' hc' := by
    cases hdrop : s.dropWhile isIdChar with
    | nil => simp [hdrop] at hc'
    | cons c'' s' =>
        have := List.head_dropWhile_not isIdChar (l := s) (by simp [hdrop])
        simp_all

/-- A letter starts a name. -/
theorem exists_isName {c : Char} (h : c.isAlpha = true) (s : Text) :
    ∃ n list, IsName n list ∧ c :: s = n ++ list ∧ 1 + (s.takeWhile isIdChar).length = n.length :=
  ⟨_, _, isName_takeWhile h s, by simp, Nat.add_comm _ _⟩

theorem takeWhile_of_isName {c : Char} {w s : Text} (h : IsName (c :: w) s) :
    (w ++ s).takeWhile isIdChar = w ∧ (w ++ s).dropWhile isIdChar = s := by
  have hall : ∀ c' ∈ w, isIdChar c' = true := (List.forall_mem_cons.mp h.all).2
  rw [List.takeWhile_append_of_pos hall, List.dropWhile_append_of_pos hall]
  cases s with
  | nil => simp
  | cons c' s =>
      have hstop := h.stop c' rfl
      simp [hstop]

/-- A call is expanded when its arguments are tokenized, are rewritten and are as many as declared. -/
theorem expandCall_ok_iff {n s text : Text} {rule : DdlDefaultValueRule}
    {macroArgs : DdlDefaultValueRuleMacroArgs} {len : Nat} :
    expandCall n rule macroArgs s = .ok (text, len) ↔
      ∃ tokens rhsArgs, MacroArgs.tokenizeText (argsTokenizer MacroArgsExpander.matcher) s = .ok (len, tokens) ∧
        MacroArgsExpander.rewriteMacroArgs macroArgs tokens = .ok rhsArgs ∧
        tokens.length = macroArgs.argcnt ∧ text = rule.macroRhs ++ rhsArgs := by
  rw [expandCall, MacroArgsExpander.expandMacroArgs]
  constructor
  · intro h
    split at h
    · cases h
    · cases h
    · cases h
    · rename_i r hargs
      split at hargs
      · cases hargs
      · rename_i len' tokens htok
        split at hargs
        · cases hargs
        · rename_i rhsArgs hrewrite
          cases hargs
          split at h
          · cases h
          · rename_i hcnt
            cases h
            exact ⟨tokens, rhsArgs, htok, hrewrite, not_not.mp hcnt, rfl⟩
  · rintro ⟨tokens, rhsArgs, htok, hrewrite, hcnt, rfl⟩
    simp [htok, hrewrite, hcnt]

/-- What a call takes from the text is an argument list with the tokens as its arguments, whatever stands behind it. -/
theorem args_of_expandCall {n s text : Text} {rule : DdlDefaultValueRule}
    {macroArgs : DdlDefaultValueRuleMacroArgs} {len : Nat} (hopen : s.head? = some '(')
    (h : expandCall n rule macroArgs s = .ok (text, len)) :
    ∃ as tokens rhsArgs, s = argListText as ++ s.drop len ∧ len = (argListText as).length ∧
      (∀ a ∈ as, ArgText 0 a) ∧ (tokens = as.map trimBlanks ∨ tokens = []) ∧
      MacroArgsExpander.rewriteMacroArgs macroArgs tokens = .ok rhsArgs ∧ text = rule.macroRhs ++ rhsArgs ∧
      ∀ rest, expandCall n rule macroArgs (argListText as ++ rest) = .ok (text, len) := by
  obtain ⟨tokens, rhsArgs, htok, hrewrite, hcount, rfl⟩ := expandCall_ok_iff.mp h
  have hlist := tokenizeText_argList_iff MacroArgsExpander.matcher fun _ => rfl
  obtain ⟨a, as, rest, hall, rfl, hlen, hfinish⟩ := (hlist s hopen len tokens).mp htok
  refine ⟨a :: as, tokens, rhsArgs, ?_, hlen, hall, ?_, hrewrite, rfl, fun rest' => ?_⟩
  · rw [hlen, List.drop_left]
  · obtain ⟨-, htokens⟩ | ⟨-, -, -, htokens⟩ := finishArgs_eq_some_iff.mp hfinish
    · exact .inl htokens
    · exact .inr htokens
  · have htok' := (hlist (argListText (a :: as) ++ rest') rfl len tokens).mpr
      ⟨a, as, rest', hall, rfl, hlen, hfinish⟩
    exact expandCall_ok_iff.mpr ⟨tokens, rhsArgs, htok', hrewrite, hcount, rfl⟩

theorem length_of_expandCall {n s text : Text} {rule : DdlDefaultValueRule}
    {macroArgs : DdlDefaultValueRuleMacroArgs} {len : Nat} (hopen : s.head? = some '(')
    (h : expandCall n rule macroArgs s = .ok (text, len)) : len ≤ s.length := by
  obtain ⟨as, tokens, rhsArgs, hs, hlen, -⟩ := args_of_expandCall hopen h
  rw [hs, hlen, List.length_append]
  exact Nat.le_add_right _ _

theorem expandMatch_of_not_isAlpha {c : Char} {s : Text} {m : TextMatch} (halpha : c.isAlpha = false)
    (hlen : m.len ≠ 0) : expandMatch rules (c :: s) m = .ok ((c :: s).take m.len, m.len) := by
  simp [expandMatch, hlen, halpha]

/-- What becomes of a name, by the rule that has it on its left-hand side. -/
theorem expandMatch_name {n s : Text} (hn : IsName n s) :
    expandMatch rules (n ++ s) ⟨n.length, some .app⟩ =
      match rules.find (UcString.ofText n) with
      | none => .ok (n, n.length)
      | some rule =>
          match rule.macroArgs with
          | some macroArgs =>
              if s.head? = some '(' then
                match expandCall n rule macroArgs s with
                | .error e => .error e
                | .ok (text, len) => .ok (text, n.length + len)
              else .ok (rule.macroRhs, n.length)
          | none => .ok (rule.macroRhs, n.length) := by
  obtain ⟨c, w, rfl, halpha⟩ := hn.head
  have htake : (c :: w ++ s).take (c :: w).length = c :: w := List.take_left
  have hdrop : (c :: w ++ s).drop (c :: w).length = s := List.drop_left
  have hhead : ¬ ¬ (c :: w ++ s).head?.any Char.isAlpha := not_not_intro halpha
  have hlen : (c :: w).length ≠ 0 := Nat.succ_ne_zero _
  simp only [expandMatch, htake, hdrop]
  exact (if_neg hlen).trans (if_neg hhead)

theorem expandMatch_call {n list : Text} {rule : DdlDefaultValueRule} {macroArgs : DdlDefaultValueRuleMacroArgs}
    (h : IsCall rules n list rule macroArgs) :
    expandMatch rules (n ++ list) ⟨n.length, some .app⟩ =
      (expandCall n rule macroArgs list).map fun r => (r.1, n.length + r.2) := by
  rw [expandMatch_name rules h.name, h.find]
  dsimp only
  rw [h.macroArgs]
  dsimp only
  rw [if_pos h.opening]
  cases expandCall n rule macroArgs list with
  | error e => rfl
  | ok r => rfl

/-- What a turn of the loop makes of what it finds. -/
theorem expandMatch_cases {pos : Nat} {c : Char} {s text : Text} {m : TextMatch} {len : Nat}
    (hnext : (processor rules).nextMatch pos (c :: s) = .ok m)
    (hmatch : expandMatch rules (c :: s) m = .ok (text, len)) :
    (∃ q rest, SqlQuoted q ∧ c :: s = q ++ rest ∧ text = q ∧ len = q.length) ∨
      (isQuote c = false ∧ c.isAlpha = false ∧ text = [c] ∧ len = 1) ∨
      (∃ n list, IsName n list ∧ c :: s = n ++ list ∧ len = n.length ∧
        (rules.find (UcString.ofText n) = none ∧ text = n ∨
          ∃ rule, rules.find (UcString.ofText n) = some rule ∧ (rule.macroArgs = none ∨ list.head? ≠ some '(') ∧
            text = rule.macroRhs)) ∨
      ∃ n list rule macroArgs len', IsCall rules n list rule macroArgs ∧
        expandCall n rule macroArgs list = .ok (text, len') ∧ c :: s = n ++ list ∧ len = n.length + len' := by
  obtain ⟨hquote, halpha, rfl⟩ | ⟨halpha, rfl⟩ | ⟨q, rest, heq, hq, rfl⟩ := (nextMatch_ok_iff rules pos c s m).mp hnext
  · rw [expandMatch_of_not_isAlpha rules halpha Nat.one_ne_zero] at hmatch
    cases hmatch
    exact .inr (.inl ⟨hquote, halpha, rfl, rfl⟩)
  · obtain ⟨n, list, hn, heq, hlen⟩ := exists_isName halpha s
    rw [hlen, heq, expandMatch_name rules hn] at hmatch
    refine .inr (.inr ?_)
    cases hfind : rules.find (UcString.ofText n) with
    | none =>
        rw [hfind] at hmatch
        cases hmatch
        exact .inl ⟨_, list, hn, heq, rfl, .inl ⟨hfind, rfl⟩⟩
    | some rule =>
        rw [hfind] at hmatch
        dsimp only at hmatch
        cases hargs : rule.macroArgs with
        | none =>
            rw [hargs] at hmatch
            cases hmatch
            exact .inl ⟨n, list, hn, heq, rfl, .inr ⟨rule, hfind, .inl hargs, rfl⟩⟩
        | some macroArgs =>
            rw [hargs] at hmatch
            dsimp only at hmatch
            by_cases hopen : list.head? = some '('
            · rw [if_pos hopen] at hmatch
              cases hcall : expandCall n rule macroArgs list with
              | error e =>
                  rw [hcall] at hmatch
                  cases hmatch
              | ok r =>
                  rw [hcall] at hmatch
                  cases hmatch
                  exact .inr ⟨n, list, rule, macroArgs, r.2, ⟨hn, hfind, hargs, hopen⟩, hcall, heq, rfl⟩
            · rw [if_neg hopen] at hmatch
              cases hmatch
              exact .inl ⟨n, list, hn, heq, rfl, .inr ⟨rule, hfind, .inr hopen, rfl⟩⟩
  · have halpha : c.isAlpha = false := by
      obtain ⟨c', w, rfl, hc'⟩ := hq.exists_cons
      obtain rfl : c = c' := (List.cons.inj heq).1
      exact isAlpha_of_isQuote hc'
    rw [expandMatch_of_not_isAlpha rules halpha hq.length_pos.ne', heq, List.take_left] at hmatch
    cases hmatch
    exact .inl ⟨_, rest, hq, heq, rfl, rfl⟩

/-- The loop appends an expansion of the text it scans. -/
theorem expands_of_run {pos pos' : Nat} {s appended appended' : Text}
    (h : ((processor rules).processFrom 0 pos s).run appended = .ok pos' appended') :
    ∃ out, appended' = appended ++ out ∧ Expands rules s out := by
  induction hlen : s.length using Nat.strong_induction_on generalizing pos s appended with
  | _ k ih =>
    subst hlen
    cases s with
    | nil =>
        cases h
        exact ⟨[], (List.append_nil _).symm, .nil⟩
    | cons c s =>
        obtain ⟨found, text, len, hnext, hmatch, h⟩ := (run_turn_iff rules).mp h
        -- the loop goes on behind what was taken
        have hgo : ∀ taken rest : Text, c :: s = taken ++ rest → taken.length = len → 0 < len →
            ∃ out, appended' = appended ++ text ++ out ∧ Expands rules rest out := by
          intro taken rest heq htaken hpos
          have hlen := congrArg List.length heq
          simp only [List.length_cons, List.length_append] at hlen
          rw [TextProcessor.processFrom_pred (c := c) _ hpos (by omega), heq, ← htaken, List.drop_left] at h
          exact ih _ (by rw [List.length_cons]; omega) h rfl
        obtain ⟨q, rest, hq, heq, rfl, rfl⟩ | ⟨hquote, halpha, rfl, rfl⟩ | ⟨n, list, hn, heq, rfl, htext⟩ |
          ⟨n, list, rule, macroArgs, len', hcall, hexpand, heq, rfl⟩ := expandMatch_cases rules hnext hmatch
        · obtain ⟨out, hout, hexp⟩ := hgo _ rest heq rfl hq.length_pos
          rw [heq]
          exact ⟨_, by rw [← List.append_assoc]; exact hout, .quoted hq hexp⟩
        · obtain ⟨out, hout, hexp⟩ := hgo [c] s rfl rfl Nat.one_pos
          exact ⟨c :: out, by simpa using hout, .plain hquote halpha hexp⟩
        · obtain ⟨out, hout, hexp⟩ := hgo n list heq rfl (List.length_pos_iff.mpr hn.ne_nil)
          rw [heq]
          refine ⟨_, by rw [← List.append_assoc]; exact hout, ?_⟩
          obtain ⟨hfind, rfl⟩ | ⟨rule, hfind, hcall, rfl⟩ := htext
          · exact .name hn hfind hexp
          · exact .replaced hn hfind hcall hexp
        · have hle := length_of_expandCall hcall.opening hexpand
          have hpos := List.length_pos_iff.mpr hcall.name.ne_nil
          obtain ⟨out, hout, hexp⟩ := hgo (n ++ list.take len') (list.drop len')
            (by rw [List.append_assoc, List.take_append_drop, heq])
            (by rw [List.length_append, List.length_take, Nat.min_eq_left hle]) (by omega)
          rw [heq]
          exact ⟨_, by rw [← List.append_assoc]; exact hout,
            .call hcall.name hcall.find hcall.macroArgs hcall.opening hexpand hexp⟩

theorem run_expandMacro (text : Text) :
    (expandMacro rules text).run [] =
      match ((processor rules).processText text).run [] with
      | .error e st => .error e st
      | .ok _ out => .ok (if out = text then none else some out) [] := by
  rw [expandMacro, EStateM.run_bind, run_appendText]
  cases ((processor rules).processText text).run [] <;> rfl

/-- A pass that returns has expanded the text, and reports whether that changed it. -/
theorem expands_of_expandOnce {text : Text} {r : Option Text} (h : expandOnce rules text = .ok r) :
    ∃ out, Expands rules text out ∧ r = if out = text then none else some out := by
  rw [expandOnce, run_expandMacro] at h
  split at h
  · cases h
  · rename_i r' st hok
    split at hok
    · cases hok
    · rename_i pos out hproc
      cases hok
      cases h
      obtain ⟨out', hout, hexp⟩ := expands_of_run rules hproc
      rw [List.nil_append] at hout
      subst hout
      exact ⟨out, hexp, rfl⟩

/-! ### Turn by turn -/

/-- A turn of the loop of a pass: what is left of the text and what has been appended, before and after it. -/
def Turn (st st' : Text × Text) : Prop :=
  st.1 ≠ [] ∧ ∃ m text len, (processor rules).nextMatch 0 st.1 = .ok m ∧
    expandMatch rules st.1 m = .ok (text, len) ∧ st' = (st.1.drop len, st.2 ++ text)

variable {rules}

/-- What a turn takes is there, and is not nothing. -/
theorem length_of_expandMatch {c : Char} {s text : Text} {m : TextMatch} {len : Nat}
    (hnext : (processor rules).nextMatch 0 (c :: s) = .ok m)
    (hmatch : expandMatch rules (c :: s) m = .ok (text, len)) : 0 < len ∧ len ≤ (c :: s).length := by
  obtain ⟨q, rest, hq, heq, rfl, rfl⟩ | ⟨hquote, halpha, rfl, rfl⟩ | ⟨n, list, hn, heq, rfl, -⟩ |
    ⟨n, list, rule, macroArgs, len', hcall, hexpand, heq, rfl⟩ := expandMatch_cases rules hnext hmatch
  · rw [heq, List.length_append]
    exact ⟨hq.length_pos, Nat.le_add_right _ _⟩
  · exact ⟨Nat.one_pos, Nat.succ_le_succ (Nat.zero_le _)⟩
  · rw [heq, List.length_append]
    exact ⟨List.length_pos_iff.mpr hn.ne_nil, Nat.le_add_right _ _⟩
  · have hle := length_of_expandCall hcall.opening hexpand
    have hpos := List.length_pos_iff.mpr hcall.name.ne_nil
    rw [heq, List.length_append]
    omega

/-- A run goes on behind a turn as from there. -/
theorem run_of_turn {st st' : Text × Text} (h : Turn rules st st') (pos : Nat) :
    ∃ pos', ((processor rules).processFrom 0 pos st.1).run st.2 =
      ((processor rules).processFrom 0 pos' st'.1).run st'.2 := by
  obtain ⟨s, out⟩ := st
  obtain ⟨hne, m, text, len, hnext, hmatch, rfl⟩ := h
  obtain ⟨c, s, rfl⟩ := List.exists_cons_of_ne_nil hne
  obtain ⟨hpos, hle⟩ := length_of_expandMatch hnext hmatch
  refine ⟨pos + len, ?_⟩
  have hnext : (processor rules).nextMatch pos (c :: s) = .ok m := hnext
  have hstep : ((processor rules).processMatch (c :: s) m).run out = .ok ⟨len, false⟩ (out ++ text) := by
    dsimp only [processor, EStateM.run]
    dsimp only at hmatch
    rw [hmatch]
  dsimp only
  rw [TextProcessor.run_processFrom_zero_cons, hnext]
  dsimp only
  rw [hstep]
  dsimp only
  rw [if_neg Bool.false_ne_true, TextProcessor.processFrom_pred (c := c) _ hpos hle]

theorem run_of_turns {st st' : Text × Text} (h : Relation.ReflTransGen (Turn rules) st st') (pos : Nat) :
    ∃ pos', ((processor rules).processFrom 0 pos st.1).run st.2 =
      ((processor rules).processFrom 0 pos' st'.1).run st'.2 := by
  induction h with
  | refl => exact ⟨pos, rfl⟩
  | tail _ hturn ih =>
      obtain ⟨pos', hrun⟩ := ih
      obtain ⟨pos'', hrun'⟩ := run_of_turn hturn pos'
      exact ⟨pos'', hrun.trans hrun'⟩

/-- A pass throws what the turn throws that it gets to. -/
theorem expandOnce_error {text out : Text} {c : Char} {s : Text} {m : TextMatch} {e : Fault}
    (hreach : Relation.ReflTransGen (Turn rules) (text, []) (c :: s, out))
    (hnext : (processor rules).nextMatch 0 (c :: s) = .ok m)
    (hmatch : expandMatch rules (c :: s) m = .error e) : expandOnce rules text = .error e := by
  obtain ⟨pos, hrun⟩ := run_of_turns hreach 0
  have hnext : (processor rules).nextMatch pos (c :: s) = .ok m := hnext
  have hstep : ((processor rules).processMatch (c :: s) m).run out = .error e out := by
    dsimp only [processor, EStateM.run]
    rw [hmatch]
  have hproc : ((processor rules).processText text).run [] = .error e out := by
    refine hrun.trans ?_
    dsimp only
    rw [TextProcessor.run_processFrom_zero_cons, hnext]
    dsimp only
    rw [hstep]
  rw [expandOnce, run_expandMacro, hproc]

theorem nextMatch_name {n s : Text} (hn : IsName n s) (pos : Nat) :
    (processor rules).nextMatch pos (n ++ s) = .ok ⟨n.length, some .app⟩ := by
  obtain ⟨c, w, rfl, halpha⟩ := hn.head
  rw [List.cons_append, nextMatch_ok_iff]
  refine .inr (.inl ⟨halpha, ?_⟩)
  rw [(takeWhile_of_isName hn).1, List.length_cons, Nat.add_comm]

/-- A turn that takes what the text starts with. -/
theorem turn_of_expandMatch {w s text : Text} {m : TextMatch} (hne : w ≠ [])
    (hnext : (processor rules).nextMatch 0 (w ++ s) = .ok m)
    (hmatch : expandMatch rules (w ++ s) m = .ok (text, w.length)) (appended : Text) :
    Turn rules (w ++ s, appended) (s, appended ++ text) :=
  ⟨List.append_ne_nil_of_left_ne_nil hne s, m, text, w.length, hnext, hmatch, Prod.ext List.drop_left.symm rfl⟩

theorem turn_quoted {q : Text} (hq : SqlQuoted q) (s appended : Text) :
    Turn rules (q ++ s, appended) (s, appended ++ q) := by
  obtain ⟨c, w, rfl, hc⟩ := hq.exists_cons
  have hnext : (processor rules).nextMatch 0 (c :: w ++ s) = .ok ⟨(c :: w).length, some .mask⟩ :=
    (nextMatch_ok_iff rules 0 c (w ++ s) _).mpr (.inr (.inr ⟨c :: w, s, rfl, hq, rfl⟩))
  have hmatch : expandMatch rules (c :: w ++ s) ⟨(c :: w).length, some .mask⟩ =
      .ok ((c :: w ++ s).take (c :: w).length, (c :: w).length) :=
    expandMatch_of_not_isAlpha rules (isAlpha_of_isQuote hc) (Nat.succ_ne_zero _)
  rw [List.take_left] at hmatch
  exact turn_of_expandMatch (List.cons_ne_nil c w) hnext hmatch appended

theorem turn_plain {c : Char} (hquote : isQuote c = false) (halpha : c.isAlpha = false) (s appended : Text) :
    Turn rules (c :: s, appended) (s, appended ++ [c]) := by
  have hnext : (processor rules).nextMatch 0 ([c] ++ s) = .ok ⟨1, none⟩ :=
    (nextMatch_ok_iff rules 0 c s _).mpr (.inl ⟨hquote, halpha, rfl⟩)
  exact turn_of_expandMatch (List.cons_ne_nil c []) hnext
    (expandMatch_of_not_isAlpha rules halpha Nat.one_ne_zero) appended

theorem turn_call {n list text : Text} {rule : DdlDefaultValueRule} {macroArgs : DdlDefaultValueRuleMacroArgs} {len : Nat}
    (h : IsCall rules n list rule macroArgs)
    (hcall : expandCall n rule macroArgs list = .ok (text, len)) (out : Text) :
    Turn rules (n ++ list, out) (list.drop len, out ++ text) := by
  have hmatch := expandMatch_call rules h
  rw [hcall] at hmatch
  refine ⟨List.append_ne_nil_of_left_ne_nil h.name.ne_nil list, _, _, _, nextMatch_name h.name 0, hmatch, ?_⟩
  dsimp only
  rw [← List.drop_drop, List.drop_left]

/-- A pass goes along the derivation of an expansion. -/
theorem turns_of_expands {s out : Text} (h : Expands rules s out) (appended : Text) :
    Relation.ReflTransGen (Turn rules) (s, appended) ([], appended ++ out) := by
  induction h generalizing appended with
  | nil =>
      rw [List.append_nil]
  | quoted hq h ih =>
      rw [← List.append_assoc]
      exact .head (turn_quoted hq _ appended) (ih _)
  | @plain c s out hquote halpha h ih =>
      rw [List.append_cons]
      exact .head (turn_plain hquote halpha s appended) (ih _)
  | @name n s out hn hfind h ih =>
      have hmatch := expandMatch_name rules hn
      rw [hfind] at hmatch
      rw [← List.append_assoc]
      exact .head (turn_of_expandMatch hn.ne_nil (nextMatch_name hn 0) hmatch appended) (ih _)
  | @replaced n s out rule hn hfind hcall h ih =>
      have hmatch : expandMatch rules (n ++ s) ⟨n.length, some .app⟩ = .ok (rule.macroRhs, n.length) := by
        rw [expandMatch_name rules hn, hfind]
        dsimp only
        cases hargs : rule.macroArgs with
        | none => rfl
        | some macroArgs =>
            have hopen := hcall.resolve_left (by rw [hargs]; exact Option.some_ne_none _)
            dsimp only
            rw [if_neg hopen]
      rw [← List.append_assoc]
      exact .head (turn_of_expandMatch hn.ne_nil (nextMatch_name hn 0) hmatch appended) (ih _)
  | @call n s text out rule macroArgs len hn hfind hargs hopen hcall h ih =>
      rw [← List.append_assoc]
      exact .head (turn_call ⟨hn, hfind, hargs, hopen⟩ hcall appended) (ih _)

/-- A text that has an expansion is expanded to it. -/
theorem expandOnce_of_expands {text out : Text} (h : Expands rules text out) :
    expandOnce rules text = .ok (if out = text then none else some out) := by
  obtain ⟨pos, hrun⟩ := run_of_turns (turns_of_expands h []) 0
  have hproc : ((processor rules).processText text).run [] = .ok pos out := hrun
  rw [expandOnce, run_expandMacro, hproc]

end MacroExpander

end Middle.NormalDdl
