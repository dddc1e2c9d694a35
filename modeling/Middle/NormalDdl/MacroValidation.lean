import Middle.NormalDdl.MacroPlaceholders

/-! How validating a rewrite can end. Inside the parentheses the scan returns or throws an exception. In front of them
only a plain character is foreseen: whatever the scanner matches as a whole there trips an assertion. -/

namespace Middle.NormalDdl

open Lib Universals

/-- What validation throws as an exception. -/
def ValidationFault (e : Fault) : Prop := e.isTextError = true ∨ e = .badLexicalCast

/-- A rewrite begins with a closed quote, an escaped dollar or a placeholder within the argument count. -/
def BeginsMatched (argcnt : Nat) (rewrite : Text) : Prop :=
  (∃ q rest, rewrite = q ++ rest ∧ SqlQuoted q) ∨ (∃ rest, rewrite = '\\' :: '$' :: rest) ∨
    ∃ len ph, parseMacroArgsPlaceholder rewrite = .ok (len, some ph) ∧ ph.phNumber ≤ argcnt ∧
      ph.phRangeEnd ≤ argcnt

/-! ### Placeholders -/

theorem castDigits_error {digits : Text} {e : Fault} (h : castDigits digits = .error e) : e = .badLexicalCast := by
  unfold castDigits at h
  dsimp only at h
  split at h
  · cases h
  · exact (Except.error.inj h).symm

theorem validationFault_of_parse {c : Char} {s : Text} {e : Fault}
    (h : parseMacroArgsPlaceholder (c :: s) = .error e) : ValidationFault e := by
  by_cases hc : c = '$'
  · subst hc
    obtain ⟨digits, rest, rfl, hdigits, hrest⟩ := exists_digits s
    rw [parseMacroArgsPlaceholder_dollar ⟨hdigits, hrest⟩] at h
    cases hnumber : numberOf digits with
    | error e' =>
        rw [hnumber] at h
        cases h
        unfold numberOf at hnumber
        split at hnumber
        · cases hnumber
          exact .inl rfl
        · split at hnumber
          · cases hnumber
            exact .inl rfl
          · exact .inr (castDigits_error hnumber)
    | ok n =>
        rw [hnumber] at h
        dsimp only at h
        unfold parsePlaceholderEnd at h
        split at h
        · rename_i s'
          obtain ⟨digits', rest', rfl, hdigits', hrest'⟩ := exists_digits s'
          rw [parsePlaceholderRangeEnd_eq ⟨hdigits', hrest'⟩] at h
          cases hend : rangeEndOf n (1 + digits.length + 1) digits' with
          | error e' =>
              rw [hend] at h
              cases h
              unfold rangeEndOf at hend
              split at hend
              · cases hend
                exact .inl rfl
              · split at hend
                · rename_i hcast
                  cases hend
                  split at hcast
                  · cases hcast
                  · exact .inr (castDigits_error hcast)
                · split at hend
                  · cases hend
                    exact .inl rfl
                  · cases hend
          | ok phRangeEnd =>
              rw [hend] at h
              cases h
        · cases h
  · rw [parseMacroArgsPlaceholder.eq_def] at h
    split at h
    · rename_i heq
      cases heq
    · cases h
    · rename_i heq
      exact absurd (List.cons.inj heq).1 hc
    · cases h

theorem validationFault_of_find {argcnt : Nat} {c : Char} {s : Text} {e : Fault}
    (h : MacroArgsRewriter.find argcnt (c :: s) = .error e) : ValidationFault e := by
  unfold MacroArgsRewriter.find at h
  split at h
  · rename_i hparse
    cases h
    exact validationFault_of_parse hparse
  · cases h
  · split at h
    · cases h
      exact .inl rfl
    · cases h

theorem validationFault_of_nextMatch {n pos : Nat} {c : Char} {s : Text} {e : Fault}
    (h : (rewriter n .ok).nextMatch pos (c :: s) = .error e) : ValidationFault e :=
  fault_of_nextMatch (p := rewriter n .ok) (fun _ => .inl) (fun _ hm => hm) rfl (fun _ => validationFault_of_find) h

/-! ### The scan -/

/-- The scanner is inside the parentheses. -/
structure Inside (st : MacroArgs) : Prop where
  groupCnt : st.groupCnt ≠ 0
  tokens : st.tokens ≠ []

theorem modifyBack_ne_nil {f : Text → Text} {ts : List Text} (h : ts ≠ []) : modifyBack f ts ≠ [] := by
  rw [← List.length_pos_iff, length_modifyBack, List.length_pos_iff]
  exact h

theorem inside_of_plainChar {st st₁ : MacroArgs} {s : Text} {r : ProcessMatchResult} (hst : Inside st)
    (h : st.plainChar s = .ok (st₁, r)) (hend : r.atMatchesEnd = false) : Inside st₁ := by
  unfold MacroArgs.plainChar MacroArgs.append at h
  split at h
  · cases h
    exact ⟨Nat.succ_ne_zero _, modifyBack_ne_nil hst.tokens⟩
  · split at h
    · unfold MacroArgs.closeArgs at h
      dsimp only at h
      split at h
      · split at h
        · cases h
        · cases h
          cases hend
      · cases h
        cases hend
    · rename_i hopen
      cases h
      exact ⟨hopen, modifyBack_ne_nil hst.tokens⟩
  · split at h
    · unfold MacroArgs.nextArg at h
      dsimp only at h
      split at h
      · cases h
      · cases h
        rw [resize_succ]
        exact ⟨hst.groupCnt, List.append_ne_nil_of_right_ne_nil _ (List.cons_ne_nil _ _)⟩
    · cases h
      exact ⟨hst.groupCnt, modifyBack_ne_nil hst.tokens⟩
  · cases h
    exact ⟨hst.groupCnt, modifyBack_ne_nil hst.tokens⟩

theorem isTextError_of_plainChar {st : MacroArgs} {s : Text} {e : Fault} (h : st.plainChar s = .error e) :
    e.isTextError = true := by
  unfold MacroArgs.plainChar MacroArgs.append MacroArgs.closeArgs MacroArgs.nextArg at h
  dsimp only at h
  repeat' split at h
  all_goals first
    | (cases h; rfl)
    | cases h

theorem processMatch_matched {st : MacroArgs} {s : Text} {m : TextMatch} {by' : MatchedBy} (hst : Inside st)
    (hlen : m.len ≠ 0) (hby : m.matchedBy = some by') : st.processMatch s m = st.append s m.len := by
  simp only [MacroArgs.processMatch, hlen, hst.groupCnt, hst.tokens, hby, if_false]

theorem processMatch_plainChar {st : MacroArgs} {s : Text} (hst : Inside st) :
    st.processMatch s ⟨1, none⟩ = st.plainChar s := by
  simp [MacroArgs.processMatch, hst.groupCnt, hst.tokens]

/-- A turn inside the parentheses throws a text error, ends the scan or stays inside. -/
theorem inside_processMatch {st : MacroArgs} {s : Text} {m : TextMatch} (hst : Inside st) (hlen : m.len ≠ 0)
    (hplain : m.matchedBy = none → m.len = 1) :
    (∀ e, MacroArgsRewriter.processMatch .ok st s m = .error e → e.isTextError = true) ∧
      ∀ st₁ r, MacroArgsRewriter.processMatch .ok st s m = .ok (st₁, r) → r.atMatchesEnd = false → Inside st₁ := by
  have hbase : (∀ e, st.processMatch s m = .error e → e.isTextError = true) ∧
      ∀ st₁ r, st.processMatch s m = .ok (st₁, r) → r.atMatchesEnd = false → Inside st₁ := by
    obtain ⟨len, matchedBy⟩ := m
    cases matchedBy with
    | some by' =>
        rw [processMatch_matched hst hlen rfl]
        constructor
        · intro e h
          cases h
        · intro st₁ r h _
          cases h
          exact ⟨hst.groupCnt, modifyBack_ne_nil hst.tokens⟩
    | none =>
        obtain rfl : len = 1 := hplain rfl
        rw [processMatch_plainChar hst]
        exact ⟨fun e => isTextError_of_plainChar, fun st₁ r => inside_of_plainChar hst⟩
  unfold MacroArgsRewriter.processMatch
  cases hmatch : st.processMatch s m with
  | error e' =>
      constructor
      · intro e h
        cases h
        exact hbase.1 _ hmatch
      · intro st₁ r h
        cases h
  | ok res =>
      obtain ⟨st', r'⟩ := res
      dsimp only
      by_cases hend : r'.atMatchesEnd = true
      · rw [if_pos hend]
        constructor
        · intro e h
          cases h
        · intro st₁ r h hnot
          cases h
          rw [hend] at hnot
          cases hnot
      · have hinside := hbase.2 _ _ hmatch (Bool.eq_false_of_not_eq_true hend)
        rw [if_neg hend, if_neg hinside.tokens]
        split
        · constructor
          · intro e h
            cases h
          · intro st₁ r h _
            cases h
            exact ⟨hinside.groupCnt, modifyBack_ne_nil hinside.tokens⟩
        · constructor
          · intro e h
            cases h
          · intro st₁ r h _
            cases h
            exact hinside

theorem len_of_nextMatch {n pos : Nat} {c : Char} {s : Text} {m : TextMatch}
    (h : (rewriter n .ok).nextMatch pos (c :: s) = .ok m) : m.len ≠ 0 ∧ (m.matchedBy = none → m.len = 1) := by
  obtain ⟨q, rest, -, hq, -, rfl⟩ | ⟨-, -, rfl⟩ | ⟨-, -, w, rest, ph, -, -, -, rfl, -⟩ := rewriter_nextMatch_cases h
  · exact ⟨hq.length_pos.ne', fun h => by cases h⟩
  · exact ⟨Nat.one_ne_zero, fun _ => rfl⟩
  · exact ⟨Nat.succ_ne_zero _, fun h => by cases h⟩

/-- Inside the parentheses the scan throws nothing but exceptions. -/
theorem validationFault_of_processFrom {n skip pos : Nat} {s : Text} {st st' : MacroArgs} {e : Fault}
    (hst : Inside st) (h : ((rewriter n .ok).processFrom skip pos s).run st = .error e st') : ValidationFault e := by
  induction s generalizing skip pos st with
  | nil =>
      cases skip with
      | zero =>
          cases h
          exact .inl rfl
      | succ skip =>
          cases h
          exact .inl rfl
  | cons c s ih =>
      cases skip with
      | succ skip => exact ih hst h
      | zero =>
          obtain hfail | ⟨m, hnext, hfail | ⟨st₁, r, hstep, hend, h⟩⟩ :=
            MacroArgs.processFrom_error (p := rewriter n .ok) rfl h
          · exact validationFault_of_nextMatch hfail
          · obtain ⟨hlen, hplain⟩ := len_of_nextMatch hnext
            exact .inl ((inside_processMatch hst hlen hplain).1 e hfail)
          · obtain ⟨hlen, hplain⟩ := len_of_nextMatch hnext
            exact ih ((inside_processMatch hst hlen hplain).2 _ _ hstep hend) h

/-! ### In front of the parentheses -/

theorem nextMatch_of_beginsMatched {n : Nat} {rewrite : Text} (h : BeginsMatched n rewrite) :
    ∃ c s m, rewrite = c :: s ∧ (rewriter n .ok).nextMatch 0 (c :: s) = .ok m ∧ m.len ≠ 0 ∧ m.matchedBy ≠ none := by
  obtain ⟨q, rest, rfl, hq⟩ | ⟨rest, rfl⟩ | ⟨len, ph, hparse, hnumber, hrange⟩ := h
  · obtain ⟨c, w, rfl, -⟩ := hq.exists_cons
    exact ⟨c, w ++ rest, _, rfl, rewriter_nextMatch_quoted hq rest, hq.length_pos.ne', by simp⟩
  · exact ⟨_, _, _, rfl, rewriter_nextMatch_escape rest, Nat.one_ne_zero, by simp⟩
  · have hlen : len ≠ 0 := Nat.one_le_iff_ne_zero.mp (length_of_parse hparse).1
    have hnext : (rewriter n .ok).nextMatch 0 rewrite = .ok ⟨len, some .app⟩ :=
      rewriter_nextMatch_placeholder hparse ⟨hnumber, hrange⟩
    obtain ⟨s, rfl, -⟩ := exists_readBehind_of_parse hparse
    exact ⟨_, _, _, rfl, hnext, hlen, by simp⟩

theorem beginsMatched_of_nextMatch {n : Nat} {c : Char} {s : Text} {m : TextMatch}
    (h : (rewriter n .ok).nextMatch 0 (c :: s) = .ok m) (hby : m.matchedBy ≠ none) : BeginsMatched n (c :: s) := by
  have hmatched := h
  obtain ⟨q, rest, heq, hq, -, rfl⟩ | ⟨-, -, rfl⟩ | ⟨-, -, w, rest, ph, rfl, -, hparse, rfl, hread⟩ :=
    rewriter_nextMatch_cases h
  · exact .inl ⟨q, rest, heq, hq⟩
  · exact absurd rfl hby
  · have hfind : MacroArgsRewriter.find n (c :: (w ++ rest)) = .ok (w.length + 1) :=
      TextProcessor.find_of_nextMatch_app _ hmatched rfl
    obtain ⟨rfl, rfl, rfl⟩ | ⟨rfl, ph, rfl⟩ := hread
    · obtain ⟨s, rfl⟩ := exists_dollar_of_escape hparse
      exact .inr (.inl ⟨s, rfl⟩)
    · obtain ⟨hnumber, hrange⟩ := within_of_find hparse hfind
      exact .inr (.inr ⟨_, ph, hparse, hnumber, hrange⟩)

/-- A plain character in front of the parentheses opens them or is refused. -/
theorem inside_processMatch_initial {s : Text} {m : TextMatch} (hlen : m.len ≠ 0) (hby : m.matchedBy = none) :
    (∀ e, MacroArgsRewriter.processMatch .ok {} s m = .error e → e.isTextError = true) ∧
      ∀ st₁ r, MacroArgsRewriter.processMatch .ok {} s m = .ok (st₁, r) → Inside st₁ := by
  unfold MacroArgsRewriter.processMatch MacroArgs.processMatch
  rw [if_neg hlen, if_pos rfl, if_neg (not_not.mpr hby)]
  by_cases hopen : s.head? = some '('
  · rw [if_neg (not_not.mpr hopen)]
    dsimp only
    rw [if_neg (by decide), if_neg (by decide), if_neg (by simp [hby])]
    constructor
    · intro e h
      cases h
    · intro st₁ r h
      cases h
      exact ⟨Nat.one_ne_zero, List.cons_ne_nil _ _⟩
  · rw [if_pos hopen]
    constructor
    · intro e h
      cases h
      rfl
    · intro st₁ r h
      cases h

/-- A rewrite that begins with a match trips an assertion. -/
theorem rewriteMacroArgs_of_beginsMatched {macroArgs : DdlDefaultValueRuleMacroArgs}
    (h : BeginsMatched macroArgs.argcnt macroArgs.rewrite) :
    MacroArgsRewriter.rewriteMacroArgs macroArgs .ok = .error .assertion := by
  obtain ⟨c, s, m, hrewrite, hnext, hlen, hby⟩ := nextMatch_of_beginsMatched h
  have hstep : MacroArgsRewriter.processMatch .ok {} (c :: s) m = .error .assertion := by
    unfold MacroArgsRewriter.processMatch MacroArgs.processMatch
    rw [if_neg hlen, if_pos rfl, if_pos hby]
  have hrun : ((rewriter macroArgs.argcnt .ok).processText (c :: s)).run {} = .error .assertion {} := by
    unfold TextProcessor.processText
    rw [TextProcessor.run_processFrom_zero_cons, hnext]
    dsimp only
    rw [MacroArgs.run_processMatch (p := rewriter macroArgs.argcnt .ok) rfl, hstep]
  rw [← hrewrite] at hrun
  exact rewriteMacroArgs_eq_error.mpr ⟨{}, hrun⟩

/-- Any other rewrite is validated or refused with an exception. -/
theorem validationFault_of_rewriteMacroArgs {macroArgs : DdlDefaultValueRuleMacroArgs} {e : Fault}
    (hbegin : ¬ BeginsMatched macroArgs.argcnt macroArgs.rewrite)
    (h : MacroArgsRewriter.rewriteMacroArgs macroArgs .ok = .error e) : ValidationFault e := by
  obtain ⟨st, hrun⟩ := rewriteMacroArgs_eq_error.mp h
  unfold TextProcessor.processText at hrun
  cases hrewrite : macroArgs.rewrite with
  | nil =>
      rw [hrewrite] at hrun
      cases hrun
      exact .inl rfl
  | cons c s =>
      rw [hrewrite] at hrun hbegin
      obtain hfail | ⟨m, hnext, hfail | ⟨st₁, r, hstep, hend, hrun⟩⟩ :=
        MacroArgs.processFrom_error (p := rewriter macroArgs.argcnt .ok) rfl hrun
      · exact validationFault_of_nextMatch hfail
      · have hby := not_not.mp (mt (beginsMatched_of_nextMatch hnext) hbegin)
        exact .inl ((inside_processMatch_initial (len_of_nextMatch hnext).1 hby).1 e hfail)
      · have hby := not_not.mp (mt (beginsMatched_of_nextMatch hnext) hbegin)
        exact validationFault_of_processFrom
          ((inside_processMatch_initial (len_of_nextMatch hnext).1 hby).2 _ _ hstep) hrun

end Middle.NormalDdl
