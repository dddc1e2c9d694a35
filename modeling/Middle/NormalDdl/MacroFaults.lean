import Middle.NormalDdl.MacroPass

/-! What an expansion can throw. A rewrite that has been validated is scanned the same way whatever its
placeholders are replaced by, so expanding it meets no error validation has not met, but for an argument
that is missing and an escaped placeholder. -/

namespace Middle.NormalDdl

open Lib Universals

/-- What scanning arguments and rewriting them with a validated rewrite throws. -/
def ScanFault (e : Fault) : Prop := e.isTextError = true ∨ e = .assertion ∨ e = .undefined

/-! ### Scanning -/

theorem isTextError_of_firstMatch_mask {s : Text} {e : Fault}
    (h : firstMatch macroMaskMatchers s = .error e) : e.isTextError = true := by
  refine fault_of_firstMatch (P := (·.isTextError = true)) (fun m hm hfind => ?_) h
  simp only [macroMaskMatchers, List.mem_cons, List.not_mem_nil, or_false] at hm
  obtain rfl | rfl := hm
  · exact QuoteMatcher.isTextError_of_find hfind
  · exact QuoteMatcher.isTextError_of_find hfind

/-- What the search for the next match throws, if not the application's matcher. -/
theorem fault_of_nextMatch {σ : Type} {p : TextProcessor σ} {P : Fault → Prop}
    (htext : ∀ e, e.isTextError = true → P e)
    (hreject : ∀ m ∈ p.rejectMatchers, m ∈ macroRejectMatchers) (hmask : p.maskMatchers = macroMaskMatchers)
    {pos : Nat} {s : Text} (happ : ∀ e, p.appMatcher.find s = .error e → P e) {e : Fault}
    (h : p.nextMatch pos s = .error e) : P e := by
  rw [TextProcessor.nextMatch] at h
  split at h
  · rename_i hfirst
    cases h
    refine fault_of_firstMatch (fun m hm hfind => htext e ?_) hfirst
    have hm' := hreject m hm
    simp only [macroRejectMatchers, List.mem_cons, List.not_mem_nil, or_false] at hm'
    obtain rfl | rfl := hm'
    · exact isTextError_of_blockComment_find hfind
    · exact absurd hfind lineComment_find_ok
  · cases h
    exact htext _ rfl
  · rw [hmask] at h
    split at h
    · rename_i hfirst
      cases h
      exact htext e (isTextError_of_firstMatch_mask hfirst)
    · cases h
    · split at h
      · rename_i hfind
        cases h
        exact happ e hfind
      · cases h

theorem scanFault_of_plainChar {st : MacroArgs} {s : Text} {e : Fault} (h : st.plainChar s = .error e) :
    ScanFault e := by
  simp only [MacroArgs.plainChar, MacroArgs.append, MacroArgs.closeArgs, MacroArgs.nextArg] at h
  repeat' split at h
  all_goals first
    | (cases h; exact .inl rfl)
    | cases h

theorem scanFault_of_processMatch {st : MacroArgs} {s : Text} {m : TextMatch} {e : Fault}
    (h : st.processMatch s m = .error e) : ScanFault e := by
  simp only [MacroArgs.processMatch, MacroArgs.append] at h
  repeat' split at h
  all_goals first
    | exact scanFault_of_plainChar h
    | (cases h; first | exact .inl rfl | exact .inr (.inl rfl) | exact .inr (.inr rfl))
    | cases h

/-- Tokenizing the arguments of a call. -/
theorem scanFault_of_tokenizeText {s : Text} {e : Fault}
    (h : MacroArgs.tokenizeText (argsTokenizer MacroArgsExpander.matcher) s = .error e) : ScanFault e := by
  obtain ⟨st, hrun⟩ := MacroArgs.tokenizeText_eq_error.mp h
  refine TextProcessor.fault_of_processFrom _ (P := ScanFault) (fun pos c s e hnext => ?_)
    (fun pos c s m st e st' _ hmatch => ?_) (fun pos st e st' hend => ?_) hrun
  · refine fault_of_nextMatch (fun _ => .inl) (fun _ hm => hm) rfl (fun e hfind => ?_) hnext
    cases hfind
  · dsimp only [argsTokenizer, sqlMacroArgsExpander, MacroArgs.processor, EStateM.run] at hmatch
    split at hmatch
    · rename_i hstep
      cases hmatch
      exact scanFault_of_processMatch hstep
    · cases hmatch
  · cases hend
    exact .inl rfl

/-! ### Placeholders -/

/-- The digits in front of a text, and what they leave. -/
theorem exists_digits (s : Text) :
    ∃ digits rest, s = digits ++ rest ∧ (∀ c ∈ digits, c.isDigit = true) ∧
      ∀ c, rest.head? = some c → c.isDigit = false := by
  refine ⟨s.takeWhile Char.isDigit, s.dropWhile Char.isDigit, by simp,
    fun c hc => List.mem_takeWhile_imp hc, fun c hc => ?_⟩
  cases hdrop : s.dropWhile Char.isDigit with
  | nil => simp [hdrop] at hc
  | cons c' s' =>
      have := List.head_dropWhile_not Char.isDigit (l := s) (by simp [hdrop])
      simp_all

/-- A run of decimal digits, delimited on the right. -/
structure DigitsBefore (digits rest : Text) : Prop where
  digits : ∀ c ∈ digits, c.isDigit = true
  rest : ∀ c, rest.head? = some c → c.isDigit = false

theorem DigitsBefore.head {digits rest : Text} (h : DigitsBefore digits rest) :
    (digits ++ rest).head? = some '0' ↔ digits.head? = some '0' := by
  cases digits with
  | nil =>
      refine iff_of_false (fun hzero => ?_) (by simp)
      exact absurd (h.rest '0' hzero) (by decide)
  | cons c digits => rfl

theorem DigitsBefore.takeWhile {digits rest : Text} (h : DigitsBefore digits rest) :
    (digits ++ rest).takeWhile Char.isDigit = digits := by
  rw [List.takeWhile_append_of_pos h.digits]
  cases hrest : rest with
  | nil => simp
  | cons c s => simp [h.rest c (by rw [hrest]; rfl)]

/-- What the digits behind `$n-` say, without what stands behind them. -/
def rangeEndOf (n pos : Nat) (digits : Text) : Except Fault Nat :=
  if digits.head? = some '0' then
    .error (.malformedText pos "invalid macro arg placeholder range end leading 0".toList)
  else
    match if digits = [] then .ok 0 else castDigits digits with
    | .error e => .error e
    | .ok rangeEnd =>
        if digits ≠ [] ∧ rangeEnd ≤ n then
          .error (.malformedText (pos + digits.length) "invalid macro arg placeholder range".toList)
        else .ok rangeEnd

theorem parsePlaceholderRangeEnd_eq {n pos : Nat} {digits rest : Text} (h : DigitsBefore digits rest) :
    parsePlaceholderRangeEnd n pos (digits ++ rest) =
      match rangeEndOf n pos digits with
      | .error e => .error e
      | .ok rangeEnd =>
          .ok (pos + digits.length + closingBackslash Char.isDigit rest, some ⟨n, rangeEnd⟩) := by
  simp only [parsePlaceholderRangeEnd, rangeEndOf, h.head, h.takeWhile, List.drop_left]
  split
  · rfl
  · cases (if digits = [] then .ok 0 else castDigits digits : Except Fault Nat) with
    | error e => rfl
    | ok rangeEnd =>
        simp only
        split <;> rfl

/-- What the digits behind `$` say. -/
def numberOf (digits : Text) : Except Fault Nat :=
  if digits.head? = some '0' then
    .error (.malformedText 1 "invalid macro arg placeholder number leading 0".toList)
  else if digits = [] then .error (.malformedText 1 "empty macro arg placeholder number".toList)
  else castDigits digits

theorem parseMacroArgsPlaceholder_dollar {digits rest : Text} (h : DigitsBefore digits rest) :
    parseMacroArgsPlaceholder ('$' :: (digits ++ rest)) =
      match numberOf digits with
      | .error e => .error e
      | .ok n => parsePlaceholderEnd n (1 + digits.length) rest := by
  simp only [parseMacroArgsPlaceholder, numberOf, h.head, h.takeWhile, List.drop_left]
  split
  · rfl
  · split
    · rfl
    · rfl

theorem closingBackslash_take (goesOn : Char → Bool) (rest : Text) :
    rest.take (closingBackslash goesOn rest) = [] ∨ rest.take (closingBackslash goesOn rest) = ['\\'] := by
  rw [closingBackslash.eq_def]
  split
  · split
    · exact .inr rfl
    · exact .inl rfl
  · exact .inl rfl

theorem digitsBefore_backslash {digits rest tail : Text} (h : DigitsBefore digits rest)
    (htail : tail = [] ∨ tail = ['\\']) : DigitsBefore digits tail where
  digits := h.digits
  rest c hc := by
    obtain rfl | rfl := htail
    · cases hc
    · obtain rfl := Option.some.inj hc
      decide

/-- How a placeholder is read behind its `$`: a number with the end of a range, or a number alone. -/
inductive ReadBehind : Text → Nat → MacroArgsPlaceholder → Prop
  | range {digits digits' rest : Text} {n rangeEnd : Nat} (h : DigitsBefore digits ('-' :: (digits' ++ rest)))
      (h' : DigitsBefore digits' rest) (hnumber : numberOf digits = .ok n)
      (hend : rangeEndOf n (1 + digits.length + 1) digits' = .ok rangeEnd) :
      ReadBehind (digits ++ '-' :: (digits' ++ rest))
        (1 + digits.length + 1 + digits'.length + closingBackslash Char.isDigit rest) ⟨n, rangeEnd⟩
  | number {digits rest : Text} {n : Nat} (h : DigitsBefore digits rest) (hnumber : numberOf digits = .ok n) :
      ReadBehind (digits ++ rest) (1 + digits.length + closingBackslash (fun c => c.isDigit || c = '-') rest) ⟨n, n⟩

theorem readBehind_of_parse {s : Text} {len : Nat} {ph : Option MacroArgsPlaceholder}
    (h : parseMacroArgsPlaceholder ('$' :: s) = .ok (len, ph)) : ∃ ph', ph = some ph' ∧ ReadBehind s len ph' := by
  obtain ⟨digits, rest, rfl, hdigits, hrest⟩ := exists_digits s
  rw [parseMacroArgsPlaceholder_dollar ⟨hdigits, hrest⟩] at h
  split at h
  · cases h
  · rename_i n hnumber
    rw [parsePlaceholderEnd.eq_def] at h
    split at h
    · rename_i s'
      obtain ⟨digits', rest', rfl, hdigits', hrest'⟩ := exists_digits s'
      rw [parsePlaceholderRangeEnd_eq ⟨hdigits', hrest'⟩] at h
      split at h
      · cases h
      · rename_i rangeEnd hend
        cases h
        exact ⟨_, rfl, .range ⟨hdigits, hrest⟩ ⟨hdigits', hrest'⟩ hnumber hend⟩
    · cases h
      exact ⟨_, rfl, .number ⟨hdigits, hrest⟩ hnumber⟩

/-- Behind a `$` a placeholder is read or refused. -/
theorem parseMacroArgsPlaceholder_dollar_ne_none {s : Text} {len : Nat} :
    parseMacroArgsPlaceholder ('$' :: s) ≠ .ok (len, none) := by
  intro h
  obtain ⟨ph, hph, -⟩ := readBehind_of_parse h
  cases hph

theorem exists_readBehind_of_parse {s : Text} {len : Nat} {ph : MacroArgsPlaceholder}
    (h : parseMacroArgsPlaceholder s = .ok (len, some ph)) : ∃ s', s = '$' :: s' ∧ ReadBehind s' len ph := by
  have hparse := h
  rw [parseMacroArgsPlaceholder.eq_def] at h
  split at h
  · cases h
  · cases h
  · obtain ⟨ph', hph, hread⟩ := readBehind_of_parse hparse
    cases hph
    exact ⟨_, rfl, hread⟩
  · cases h

/-- The text a placeholder is matched in is parsed again as the same placeholder. -/
theorem parseMacroArgsPlaceholder_take {s : Text} {len : Nat} {ph : MacroArgsPlaceholder}
    (h : parseMacroArgsPlaceholder s = .ok (len, some ph)) :
    ∃ len', parseMacroArgsPlaceholder (s.take len) = .ok (len', some ph) := by
  obtain ⟨s, rfl, hread⟩ := exists_readBehind_of_parse h
  cases hread with
  | @range digits digits' rest n rangeEnd hbefore hbefore' hnumber hend =>
      have htail := closingBackslash_take Char.isDigit rest
      have htake : ('$' :: (digits ++ '-' :: (digits' ++ rest))).take
          (1 + digits.length + 1 + digits'.length + closingBackslash Char.isDigit rest) =
          '$' :: (digits ++ '-' :: (digits' ++ rest.take (closingBackslash Char.isDigit rest))) := by
        have hlen : 1 + digits.length + 1 + digits'.length + closingBackslash Char.isDigit rest =
            digits.length + (digits'.length + closingBackslash Char.isDigit rest + 1) + 1 := by
          omega
        rw [hlen, List.take_succ_cons, List.take_length_add_append, List.take_succ_cons,
          List.take_length_add_append]
      have hdash : DigitsBefore digits ('-' :: (digits' ++ rest.take (closingBackslash Char.isDigit rest))) :=
        ⟨hbefore.digits, fun c hc => hbefore.rest c hc⟩
      rw [htake, parseMacroArgsPlaceholder_dollar hdash, hnumber]
      simp only [parsePlaceholderEnd]
      rw [parsePlaceholderRangeEnd_eq (digitsBefore_backslash hbefore' htail), hend]
      exact ⟨_, rfl⟩
  | @number digits rest n hbefore hnumber =>
      have htail := closingBackslash_take (fun c => c.isDigit || c = '-') rest
      have htake : ('$' :: (digits ++ rest)).take
          (1 + digits.length + closingBackslash (fun c => c.isDigit || c = '-') rest) =
          '$' :: (digits ++ rest.take (closingBackslash (fun c => c.isDigit || c = '-') rest)) := by
        rw [Nat.add_assoc, Nat.add_comm 1, List.take_succ_cons, List.take_length_add_append]
      rw [htake, parseMacroArgsPlaceholder_dollar (digitsBefore_backslash hbefore htail), hnumber]
      obtain htail | htail := htail <;> rw [htail] <;> exact ⟨_, rfl⟩

/-! ### A rewrite is scanned the same way whatever its placeholders become -/

/-- The scanner of a rewrite. -/
abbrev rewriter (n : Nat) (hook : Text → Except Fault Text) : TextProcessor MacroArgs :=
  sqlMacroArgsExpander ⟨MacroArgsRewriter.find n, "DDL default value rules macro args rewrite".toList⟩
    (MacroArgsRewriter.processMatch hook)

theorem rewriteMacroArgs_eq_ok {macroArgs : DdlDefaultValueRuleMacroArgs} {hook : Text → Except Fault Text}
    {tokens : List Text} :
    MacroArgsRewriter.rewriteMacroArgs macroArgs hook = .ok tokens ↔
      ∃ pos st, ((rewriter macroArgs.argcnt hook).processText macroArgs.rewrite).run {} = .ok pos st ∧
        st.tokens = tokens := by
  unfold MacroArgsRewriter.rewriteMacroArgs MacroArgs.tokenizeText
  dsimp only
  cases ((rewriter macroArgs.argcnt hook).processText macroArgs.rewrite).run {} <;> simp

theorem rewriteMacroArgs_eq_error {macroArgs : DdlDefaultValueRuleMacroArgs} {hook : Text → Except Fault Text}
    {e : Fault} :
    MacroArgsRewriter.rewriteMacroArgs macroArgs hook = .error e ↔
      ∃ st, ((rewriter macroArgs.argcnt hook).processText macroArgs.rewrite).run {} = .error e st := by
  unfold MacroArgsRewriter.rewriteMacroArgs MacroArgs.tokenizeText
  dsimp only
  cases ((rewriter macroArgs.argcnt hook).processText macroArgs.rewrite).run {} <;> simp

/-- Two states of a tokenizer that agree in all that steers the scan but the emptiness of an argument. -/
structure SameShape (st₀ st₁ : MacroArgs) : Prop where
  groupCnt : st₀.groupCnt = st₁.groupCnt
  length : st₀.tokens.length = st₁.tokens.length

/-- The step from `st₁` goes where the step `res` goes, or throws. -/
def Follows (res : MacroArgs × ProcessMatchResult) (P : Fault → Prop) :
    Except Fault (MacroArgs × ProcessMatchResult) → Prop
  | .error e => P e
  | .ok (st₁, r) => r = res.2 ∧ (r.atMatchesEnd = false → SameShape res.1 st₁)

theorem length_modifyBack (f : Text → Text) (ts : List Text) : (modifyBack f ts).length = ts.length := by
  induction ts using List.reverseRecOn with
  | nil => rfl
  | append_singleton ts t => rw [modifyBack_concat]; simp

theorem SameShape.append {st₀ st₁ : MacroArgs} (h : SameShape st₀ st₁) (s : Text) (len : Nat)
    {res : MacroArgs × ProcessMatchResult} (hres : st₀.append s len = .ok res) :
    Follows res ScanFault (st₁.append s len) := by
  cases hres
  exact ⟨rfl, fun _ => ⟨h.groupCnt, by simp only [length_modifyBack, h.length]⟩⟩

theorem SameShape.nextArg {st₀ st₁ : MacroArgs} (h : SameShape st₀ st₁)
    {res : MacroArgs × ProcessMatchResult} (hres : st₀.nextArg = .ok res) :
    Follows res ScanFault st₁.nextArg := by
  simp only [MacroArgs.nextArg] at hres ⊢
  split at hres
  · cases hres
  · cases hres
    split
    · exact .inl rfl
    · refine ⟨rfl, fun _ => ⟨h.groupCnt, ?_⟩⟩
      simp only [resize, List.length_append, List.length_take, List.length_replicate, length_modifyBack,
        h.length]

theorem SameShape.closeArgs {st₀ st₁ : MacroArgs} {res : MacroArgs × ProcessMatchResult}
    (hres : st₀.closeArgs = .ok res) : Follows res ScanFault st₁.closeArgs := by
  have hend : res.2 = ⟨1, true⟩ := by
    simp only [MacroArgs.closeArgs] at hres
    split at hres
    · split at hres
      · cases hres
      · cases hres
        rfl
    · cases hres
      rfl
  simp only [MacroArgs.closeArgs]
  split
  · split
    · exact .inl rfl
    · exact ⟨hend.symm, fun h => by cases h⟩
  · exact ⟨hend.symm, fun h => by cases h⟩

theorem SameShape.plainChar {st₀ st₁ : MacroArgs} (h : SameShape st₀ st₁) {s : Text}
    {res : MacroArgs × ProcessMatchResult} (hres : st₀.plainChar s = .ok res) :
    Follows res ScanFault (st₁.plainChar s) := by
  rw [MacroArgs.plainChar] at hres ⊢
  rw [← h.groupCnt]
  split at hres
  · have hshape : SameShape { st₀ with groupCnt := st₀.groupCnt + 1 }
        { st₁ with groupCnt := st₀.groupCnt + 1 } := ⟨rfl, h.length⟩
    exact hshape.append s 1 hres
  · split at hres
    · rename_i hclose
      rw [if_pos hclose]
      exact SameShape.closeArgs hres
    · rename_i hopen
      rw [if_neg hopen]
      have hshape : SameShape { st₀ with groupCnt := st₀.groupCnt - 1 }
          { st₁ with groupCnt := st₀.groupCnt - 1 } := ⟨rfl, h.length⟩
      exact hshape.append s 1 hres
  · split at hres
    · rename_i hcnt
      rw [if_pos hcnt]
      exact h.nextArg hres
    · rename_i hcnt
      rw [if_neg hcnt]
      exact h.append s 1 hres
  · exact h.append s 1 hres

theorem SameShape.processMatch {st₀ st₁ : MacroArgs} (h : SameShape st₀ st₁) {s : Text} {m : TextMatch}
    {res : MacroArgs × ProcessMatchResult} (hres : st₀.processMatch s m = .ok res) :
    Follows res ScanFault (st₁.processMatch s m) := by
  have hnil : st₀.tokens = [] ↔ st₁.tokens = [] := by
    rw [← List.length_eq_zero_iff, ← List.length_eq_zero_iff, h.length]
  rw [MacroArgs.processMatch] at hres ⊢
  rw [← h.groupCnt]
  simp only [← hnil]
  split at hres
  · cases hres
  · rename_i hlen
    rw [if_neg hlen]
    split at hres
    · rename_i hcnt
      rw [if_pos hcnt]
      split at hres
      · cases hres
      · rename_i hplain
        rw [if_neg hplain]
        split at hres
        · cases hres
        · rename_i hopen
          rw [if_neg hopen]
          cases hres
          refine ⟨rfl, fun _ => ⟨rfl, ?_⟩⟩
          simp only [resize, List.length_append, List.length_take, List.length_replicate, h.length]
    · rename_i hcnt
      rw [if_neg hcnt]
      split at hres
      · cases hres
      · rename_i htokens
        rw [if_neg htokens]
        split at hres
        · exact h.append s m.len hres
        · split at hres
          · cases hres
          · rename_i hone
            rw [if_neg hone]
            exact h.plainChar hres

/-- The rewriter's step with a placeholder replaced, beside its step of validation. -/
theorem SameShape.rewriterMatch {st₀ st₁ : MacroArgs} (h : SameShape st₀ st₁) {s : Text} {m : TextMatch}
    {res : MacroArgs × ProcessMatchResult} {hook : Text → Except Fault Text}
    (hhook : m.matchedBy = some .app → ∀ e, hook (s.take m.len) = .error e → ScanFault e)
    (hres : MacroArgsRewriter.processMatch .ok st₀ s m = .ok res) :
    Follows res ScanFault (MacroArgsRewriter.processMatch hook st₁ s m) := by
  rw [MacroArgsRewriter.processMatch] at hres ⊢
  cases hbase₀ : st₀.processMatch s m with
  | error e => simp [hbase₀] at hres
  | ok res₀ =>
      obtain ⟨st₀', r₀⟩ := res₀
      have hbase := h.processMatch hbase₀
      cases hbase₁ : st₁.processMatch s m with
      | error e =>
          rw [hbase₁] at hbase
          exact hbase
      | ok res₁ =>
          obtain ⟨st₁', r₁⟩ := res₁
          rw [hbase₁] at hbase
          obtain ⟨rfl, hshape⟩ : r₁ = r₀ ∧ (r₁.atMatchesEnd = false → SameShape st₀' st₁') := hbase
          simp only [hbase₀] at hres ⊢
          split at hres
          · rename_i hend
            cases hres
            rw [if_pos hend]
            exact ⟨rfl, hshape⟩
          · rename_i hend
            rw [if_neg hend]
            have hshape := hshape (Bool.eq_false_iff.mpr hend)
            split at hres
            · cases hres
            · split
              · exact .inr (.inl rfl)
              · split at hres
                · rename_i happ
                  rw [if_pos happ]
                  cases hres
                  cases hrewrite : hook (s.take m.len) with
                  | error e => exact hhook happ.1 e hrewrite
                  | ok rewritten =>
                      refine ⟨rfl, fun _ => ⟨hshape.groupCnt, ?_⟩⟩
                      simp only [length_modifyBack, hshape.length]
                · rename_i happ
                  rw [if_neg happ]
                  cases hres
                  exact ⟨rfl, fun _ => hshape⟩

/-- Two scans side by side: where the one returns, the other one returns or throws what it may. -/
theorem scanFault_of_follows {appMatcher : TextMatcher}
    {step₀ step₁ : MacroArgs → Text → TextMatch → Except Fault (MacroArgs × ProcessMatchResult)}
    (hstep : ∀ pos c s m st₀ st₁ res, SameShape st₀ st₁ →
      (sqlMacroArgsExpander appMatcher step₀).nextMatch pos (c :: s) = .ok m →
      step₀ st₀ (c :: s) m = .ok res → Follows res ScanFault (step₁ st₁ (c :: s) m))
    {skip pos pos' : Nat} {s : Text} {st₀ st₁ st₀' st₁' : MacroArgs} {e : Fault} (h : SameShape st₀ st₁)
    (h₀ : ((sqlMacroArgsExpander appMatcher step₀).processFrom skip pos s).run st₀ = .ok pos' st₀')
    (h₁ : ((sqlMacroArgsExpander appMatcher step₁).processFrom skip pos s).run st₁ = .error e st₁') :
    ScanFault e := by
  induction s generalizing skip pos st₀ st₁ with
  | nil => cases skip <;> cases h₀
  | cons c s ih =>
      cases skip with
      | succ skip => exact ih h h₀ h₁
      | zero =>
          obtain ⟨m, st₀'', r, hnext, hstep₀, h₀⟩ :=
            (MacroArgs.processFrom_ok_iff (p := sqlMacroArgsExpander appMatcher step₀) rfl).mp h₀
          have hfollows := hstep pos c s m st₀ st₁ _ h hnext hstep₀
          obtain hfail | ⟨m', hnext', hfail | ⟨st₁'', r', hstep₁, hend, h₁⟩⟩ :=
            MacroArgs.processFrom_error (p := sqlMacroArgsExpander appMatcher step₁) rfl h₁
          · cases hnext.symm.trans hfail
          · cases hnext.symm.trans hnext'
            rw [hfail] at hfollows
            exact hfollows
          · cases hnext.symm.trans hnext'
            rw [hstep₁] at hfollows
            obtain ⟨rfl, hshape⟩ : r' = r ∧ (r'.atMatchesEnd = false → SameShape st₀'' st₁'') := hfollows
            rw [hend, if_neg Bool.false_ne_true] at h₀
            exact ih (hshape hend) h₀ h₁

theorem parse_of_find {argcnt : Nat} {s : Text} {len : Nat}
    (h : MacroArgsRewriter.find argcnt s = .ok len) :
    ∃ placeholder, parseMacroArgsPlaceholder s = .ok (len, placeholder) := by
  rw [MacroArgsRewriter.find] at h
  split at h
  · cases h
  · rename_i hparse
    cases h
    exact ⟨none, hparse⟩
  · rename_i ph hparse
    split at h
    · cases h
    · cases h
      exact ⟨some ph, hparse⟩

/-- Replacing a placeholder that the rewriter has matched. -/
theorem scanFault_of_rewriteArgPlaceholder {tokens : List Text} {s : Text} {len : Nat}
    {placeholder : Option MacroArgsPlaceholder}
    (hparse : parseMacroArgsPlaceholder s = .ok (len, placeholder)) {e : Fault}
    (h : MacroArgsRewriter.rewriteArgPlaceholder tokens (s.take len) = .error e) : ScanFault e := by
  rw [MacroArgsRewriter.rewriteArgPlaceholder] at h
  cases placeholder with
  | some ph =>
      obtain ⟨len', htake⟩ := parseMacroArgsPlaceholder_take hparse
      simp only [htake] at h
      split at h
      · cases h
        exact .inr (.inl rfl)
      · split at h
        · cases h
          exact .inr (.inl rfl)
        · split at h
          · cases h
            exact .inr (.inl rfl)
          · split at h <;> cases h
  | none =>
      have hspan : s.take len = [] ∨ s.take len = ['\\'] := by
        have hcases := hparse
        rw [parseMacroArgsPlaceholder.eq_def] at hcases
        split at hcases
        · cases hcases
        · cases hcases
          exact .inr rfl
        · exact absurd hparse parseMacroArgsPlaceholder_dollar_ne_none
        · cases hcases
          exact .inl rfl
      obtain hspan | hspan := hspan
      · rw [hspan] at h
        cases h
        exact .inr (.inr rfl)
      · rw [hspan] at h
        cases h
        exact .inr (.inr rfl)

/-- Rewriting arguments with a rewrite that has been validated. -/
theorem scanFault_of_rewriteMacroArgs {macroArgs : DdlDefaultValueRuleMacroArgs} {tokens : List Text}
    {e : Fault} (hvalid : macroArgs.rewrite = [] ∨
      ∃ tokens, MacroArgsRewriter.rewriteMacroArgs macroArgs .ok = .ok tokens)
    (h : MacroArgsExpander.rewriteMacroArgs macroArgs tokens = .error e) : ScanFault e := by
  rw [MacroArgsExpander.rewriteMacroArgs] at h
  split at h
  · cases h
  · rename_i hrewrite
    obtain ⟨validated, hvalid⟩ := hvalid.resolve_left hrewrite
    split at h
    · rename_i e' hfail
      cases h
      obtain ⟨pos, st₀, hrun₀, -⟩ := rewriteMacroArgs_eq_ok.mp hvalid
      obtain ⟨st₁, hrun₁⟩ := rewriteMacroArgs_eq_error.mp hfail
      refine scanFault_of_follows (fun pos c s m st₀ st₁ res hshape hnext hstep => ?_)
        ⟨rfl, rfl⟩ hrun₀ hrun₁
      refine hshape.rewriterMatch (fun happ e he => ?_) hstep
      have hfind := TextProcessor.find_of_nextMatch_app _ hnext happ
      obtain ⟨placeholder, hparse⟩ := parse_of_find hfind
      exact scanFault_of_rewriteArgPlaceholder hparse he
    · cases h

/-! ### The expander -/

namespace MacroExpander

/-- What a pass throws when the rules have been validated: `invalid_argument`, or what an argument that is
missing or an escaped placeholder makes of a rewrite. -/
def PassFault (e : Fault) : Prop := e.isInvalidArgument = true ∨ e = .assertion ∨ e = .undefined

theorem PassFault.of_scanFault {e : Fault} (h : ScanFault e) : PassFault e :=
  h.imp_left Fault.isInvalidArgument_of_isTextError

theorem passFault_of_expandCall {n s : Text} {rule : DdlDefaultValueRule}
    {macroArgs : DdlDefaultValueRuleMacroArgs} (hvalid : rule.Validated)
    (hargs : rule.macroArgs = some macroArgs) {e : Fault}
    (h : expandCall n rule macroArgs s = .error e) : PassFault e := by
  have hexpand : ∀ e, MacroArgsExpander.expandMacroArgs macroArgs s = .error e → ScanFault e := by
    intro e h
    rw [MacroArgsExpander.expandMacroArgs] at h
    split at h
    · rename_i htok
      cases h
      exact scanFault_of_tokenizeText htok
    · split at h
      · rename_i hrewrite
        cases h
        exact scanFault_of_rewriteMacroArgs (hvalid macroArgs hargs) hrewrite
      · cases h
  rw [expandCall] at h
  split at h
  · cases h
    exact .inl rfl
  · cases h
    exact .inl rfl
  · rename_i hfail
    cases h
    exact .of_scanFault (hexpand _ hfail)
  · split at h
    · cases h
      exact .inl rfl
    · cases h

theorem passFault_of_expandMatch {rules : DdlDefaultValueRules}
    (hvalid : ∀ k rule, rules.find k = some rule → rule.Validated) {s : Text} {m : TextMatch} {e : Fault}
    (h : expandMatch rules s m = .error e) : PassFault e := by
  simp only [expandMatch] at h
  split at h
  · cases h
    exact .inr (.inl rfl)
  · split at h
    · cases h
    · split at h
      · cases h
      · rename_i rule hfind
        split at h
        · rename_i macroArgs hargs
          split at h
          · split at h
            · rename_i hcall
              cases h
              exact passFault_of_expandCall (hvalid _ rule hfind) hargs hcall
            · cases h
          · cases h
        · cases h

/-- A pass over any text with rules that have been validated. -/
theorem passFault_of_expandOnce {rules : DdlDefaultValueRules}
    (hvalid : ∀ k rule, rules.find k = some rule → rule.Validated) {text : Text} {e : Fault}
    (h : expandOnce rules text = .error e) : PassFault e := by
  have hproc : ∃ st, ((processor rules).processText text).run [] = .error e st := by
    rw [expandOnce, run_expandMacro] at h
    split at h
    · rename_i hfail
      cases h
      split at hfail
      · rename_i hproc
        cases hfail
        exact ⟨_, hproc⟩
      · cases hfail
    · cases h
  obtain ⟨st, hproc⟩ := hproc
  refine TextProcessor.fault_of_processFrom _ (P := PassFault) (fun pos c s e hnext => ?_)
    (fun pos c s m st e st' _ hmatch => ?_) (fun pos st e st' hend => ?_) hproc
  · refine fault_of_nextMatch (fun e he => .inl (Fault.isInvalidArgument_of_isTextError he))
      (fun m hm => absurd hm List.not_mem_nil) rfl (fun e hfind => ?_) hnext
    cases hfind
  · dsimp only [processor, EStateM.run] at hmatch
    split at hmatch
    · rename_i hexpand
      cases hmatch
      exact passFault_of_expandMatch hvalid hexpand
    · cases hmatch
  · cases hend

end MacroExpander

end Middle.NormalDdl
