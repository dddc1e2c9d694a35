import Middle.NormalDdl.MacroRewrite

/-! The placeholders of a rewrite. A rewrite is validated for as many arguments as the rule declares, but a call is
rewritten before its arguments are counted. Rewriting goes the way validating went as long as the arguments are enough
for the placeholders. -/

namespace Middle.NormalDdl

open Lib Universals

/-! ### The placeholders of a rewrite -/

/-- The placeholders of a rewrite from within `d` parentheses, with the next `skip` characters taken: those outside of
quotes and in front of the parenthesis that closes the list. Behind an escaped dollar none is read. -/
def placeholdersFrom : Nat → Nat → Text → List (Option MacroArgsPlaceholder)
  | _, _, [] => []
  | d, skip + 1, _ :: s => placeholdersFrom d skip s
  | d, 0, c :: s =>
      match firstMatch macroMaskMatchers (c :: s), parseMacroArgsPlaceholder (c :: s) with
      | .ok (some (_, len)), _ => placeholdersFrom d (len - 1) s
      | .ok none, .ok (0, _) =>
          if c = '(' then placeholdersFrom (d + 1) 0 s
          else if c = ')' then if d ≤ 1 then [] else placeholdersFrom (d - 1) 0 s
          else placeholdersFrom d 0 s
      | .ok none, .ok (len + 1, ph) => ph :: placeholdersFrom d len s
      | _, _ => []

def placeholdersIn (rewrite : Text) : List (Option MacroArgsPlaceholder) := placeholdersFrom 0 0 rewrite

/-- A placeholder that `m` arguments are enough for. -/
def Within (m : Nat) : Option MacroArgsPlaceholder → Prop
  | none => False
  | some ph => ph.phNumber ≤ m ∧ ph.phRangeEnd ≤ m

instance (m : Nat) (ph : Option MacroArgsPlaceholder) : Decidable (Within m ph) :=
  match ph with
  | none => inferInstanceAs (Decidable False)
  | some ph => inferInstanceAs (Decidable (ph.phNumber ≤ m ∧ ph.phRangeEnd ≤ m))

example : placeholdersIn "('$9', f($1-3), \\$2) $4".toList = [some ⟨1, 3⟩, none, some ⟨2, 2⟩] := by decide +kernel

theorem placeholdersFrom_skip (d skip : Nat) (s : Text) :
    placeholdersFrom d skip s = placeholdersFrom d 0 (s.drop skip) := by
  induction s generalizing skip with
  | nil =>
      rw [List.drop_nil]
      cases skip <;> rfl
  | cons c s ih =>
      cases skip with
      | zero => rfl
      | succ skip => exact ih skip

theorem placeholdersFrom_quoted {d : Nat} {q : Text} (hq : SqlQuoted q) (s : Text) :
    placeholdersFrom d 0 (q ++ s) = placeholdersFrom d 0 s := by
  obtain ⟨m, hmask⟩ := firstMatch_mask_of_quoted hq s
  obtain ⟨c, w, rfl, -⟩ := hq.exists_cons
  rw [List.cons_append] at hmask ⊢
  rw [placeholdersFrom, hmask]
  dsimp only
  rw [placeholdersFrom_skip, List.length_cons, Nat.add_sub_cancel, List.drop_left]

theorem placeholdersFrom_read {d : Nat} {c : Char} {w s : Text} {ph : Option MacroArgsPlaceholder}
    (hquote : isQuote c = false) (hparse : parseMacroArgsPlaceholder (c :: (w ++ s)) = .ok (w.length + 1, ph)) :
    placeholdersFrom d 0 (c :: (w ++ s)) = ph :: placeholdersFrom d 0 s := by
  rw [placeholdersFrom, firstMatch_mask_of_not_isQuote hquote, hparse]
  dsimp only
  rw [placeholdersFrom_skip, List.drop_left]

theorem placeholdersFrom_plain {d : Nat} {c : Char} {s : Text} {ph : Option MacroArgsPlaceholder}
    (hquote : isQuote c = false) (hparse : parseMacroArgsPlaceholder (c :: s) = .ok (0, ph)) :
    placeholdersFrom d 0 (c :: s) =
      if c = '(' then placeholdersFrom (d + 1) 0 s
      else if c = ')' then if d ≤ 1 then [] else placeholdersFrom (d - 1) 0 s
      else placeholdersFrom d 0 s := by
  rw [placeholdersFrom, firstMatch_mask_of_not_isQuote hquote, hparse]

/-! ### What a placeholder is read from -/

theorem le_foldl_digits (digits : Text) (n : Nat) :
    n ≤ digits.foldl (fun n c => 10 * n + (c.toNat - '0'.toNat)) n := by
  induction digits generalizing n with
  | nil => exact le_rfl
  | cons c digits ih =>
      rw [List.foldl_cons]
      exact le_trans (by omega) (ih _)

theorem pos_of_numberOf {digits : Text} {n : Nat} (hdigits : ∀ c ∈ digits, c.isDigit = true)
    (h : numberOf digits = .ok n) : 1 ≤ n := by
  unfold numberOf castDigits at h
  split at h
  · cases h
  · rename_i hzero
    split at h
    · cases h
    · rename_i hne
      obtain ⟨c, digits, rfl⟩ := List.exists_cons_of_ne_nil hne
      dsimp only at h
      split at h
      · cases h
        have hdigit := hdigits c List.mem_cons_self
        have hne : c ≠ '0' := fun hc => hzero (by rw [hc]; rfl)
        have hle : 1 ≤ 10 * 0 + (c.toNat - '0'.toNat) := by
          have hlow : '0'.toNat ≤ c.toNat := by
            simp only [Char.isDigit, Bool.and_eq_true, decide_eq_true_eq] at hdigit
            exact hdigit.1
          have hneq : c.toNat ≠ '0'.toNat := fun heq => hne (Char.ext (UInt32.toNat_inj.mp heq))
          omega
        exact hle.trans (le_foldl_digits digits _)
      · cases h

theorem lt_of_rangeEndOf {n pos e : Nat} {digits : Text} (h : rangeEndOf n pos digits = .ok e) :
    e = 0 ∨ n < e := by
  unfold rangeEndOf at h
  split at h
  · cases h
  · split at h
    · cases h
    · rename_i e' hcast
      split at h
      · cases h
      · rename_i hrange
        cases h
        by_cases hnil : digits = []
        · rw [if_pos hnil] at hcast
          exact .inl (Except.ok.inj hcast).symm
        · exact .inr (Nat.lt_of_not_le fun hle => hrange ⟨hnil, hle⟩)

/-- What is read of a placeholder: a number, and the end of its range. -/
theorem bounds_of_parse {s : Text} {len : Nat} {ph : MacroArgsPlaceholder}
    (h : parseMacroArgsPlaceholder s = .ok (len, some ph)) :
    1 ≤ ph.phNumber ∧ (ph.phRangeEnd = 0 ∨ ph.phNumber ≤ ph.phRangeEnd) := by
  obtain ⟨s, rfl, hread⟩ := exists_readBehind_of_parse h
  cases hread with
  | range hbefore hbefore' hnumber hend =>
      exact ⟨pos_of_numberOf hbefore.digits hnumber, (lt_of_rangeEndOf hend).imp_right Nat.le_of_lt⟩
  | number hbefore hnumber => exact ⟨pos_of_numberOf hbefore.digits hnumber, .inr le_rfl⟩

theorem closingBackslash_le (goesOn : Char → Bool) (s : Text) : closingBackslash goesOn s ≤ s.length := by
  rw [closingBackslash.eq_def]
  split
  · split
    · exact Nat.succ_le_succ (Nat.zero_le _)
    · exact Nat.zero_le _
  · exact Nat.zero_le _

theorem length_of_parse {s : Text} {len : Nat} {ph : MacroArgsPlaceholder}
    (h : parseMacroArgsPlaceholder s = .ok (len, some ph)) : 1 ≤ len ∧ len ≤ s.length := by
  obtain ⟨s, rfl, hread⟩ := exists_readBehind_of_parse h
  cases hread with
  | @range digits digits' rest n rangeEnd _ _ _ _ =>
      have hle := closingBackslash_le Char.isDigit rest
      simp only [List.length_cons, List.length_append]
      omega
  | @number digits rest n _ _ =>
      have hle := closingBackslash_le (fun c => c.isDigit || c = '-') rest
      simp only [List.length_cons, List.length_append]
      omega

/-- What the rewriter takes for a placeholder starts with a dollar, or is the backslash of an escaped one. -/
theorem exists_read_of_parse {s : Text} {len : Nat} {ph : Option MacroArgsPlaceholder} (hlen : len ≠ 0)
    (h : parseMacroArgsPlaceholder s = .ok (len, ph)) :
    ∃ c w rest, s = c :: (w ++ rest) ∧ len = w.length + 1 ∧
      (c = '\\' ∧ w = [] ∧ ph = none ∨ c = '$' ∧ ∃ ph', ph = some ph') := by
  cases ph with
  | none =>
      have hcases := h
      rw [parseMacroArgsPlaceholder.eq_def] at hcases
      split at hcases
      · cases hcases
      · cases hcases
        exact ⟨'\\', [], _, rfl, rfl, .inl ⟨rfl, rfl, rfl⟩⟩
      · exact absurd h parseMacroArgsPlaceholder_dollar_ne_none
      · cases hcases
        exact absurd rfl hlen
  | some ph =>
      obtain ⟨s, rfl, -⟩ := exists_readBehind_of_parse h
      obtain ⟨hpos, hle⟩ := length_of_parse h
      rw [List.length_cons] at hle
      refine ⟨'$', s.take (len - 1), s.drop (len - 1), ?_, ?_, .inr ⟨rfl, ph, rfl⟩⟩
      · rw [List.take_append_drop]
      · rw [List.length_take]
        omega

/-- What is read as an escape of one character is a backslash in front of a dollar. -/
theorem exists_dollar_of_escape {s : Text} {ph : Option MacroArgsPlaceholder}
    (h : parseMacroArgsPlaceholder ('\\' :: s) = .ok (1, ph)) : ∃ s', s = '$' :: s' := by
  rw [parseMacroArgsPlaceholder.eq_def] at h
  split at h
  · cases h
  · rename_i s' heq
    exact ⟨s', (List.cons.inj heq).2⟩
  · rename_i heq
    exact absurd (List.cons.inj heq).1 (by decide)
  · cases h

theorem find_of_parse {n len : Nat} {s : Text} {ph : MacroArgsPlaceholder}
    (h : parseMacroArgsPlaceholder s = .ok (len, some ph)) (hwithin : Within n (some ph)) :
    MacroArgsRewriter.find n s = .ok len := by
  unfold MacroArgsRewriter.find
  rw [h]
  dsimp only
  rw [if_neg (not_or.mpr ⟨not_lt.mpr hwithin.1, not_lt.mpr hwithin.2⟩)]

theorem within_of_find {n len len' : Nat} {s : Text} {ph : MacroArgsPlaceholder}
    (h : parseMacroArgsPlaceholder s = .ok (len, some ph)) (hfind : MacroArgsRewriter.find n s = .ok len') :
    Within n (some ph) := by
  unfold MacroArgsRewriter.find at hfind
  rw [h] at hfind
  dsimp only at hfind
  split at hfind
  · cases hfind
  · rename_i hwithin
    exact (not_or.mp hwithin).imp not_lt.mp not_lt.mp

/-- A placeholder becomes a text if the arguments are enough for it. -/
theorem rewriteArgPlaceholder_within {tokens : List Text} (htokens : ∀ t ∈ tokens, Edged t) {span : Text}
    {len : Nat} {ph : MacroArgsPlaceholder} (hparse : parseMacroArgsPlaceholder span = .ok (len, some ph))
    (hwithin : Within tokens.length (some ph)) :
    ∃ rewritten, MacroArgsRewriter.rewriteArgPlaceholder tokens span = .ok rewritten ∧
      ∃ c ∈ rewritten, isBlank c = false := by
  obtain ⟨hpos, hrange⟩ := bounds_of_parse hparse
  have hget := getElem_pred hpos hwithin.1
  obtain ⟨⟨c, t, htoken, hc⟩, -⟩ := htokens _ (List.mem_of_getElem? hget)
  have hmem : c ∈ tokens.getD (ph.phNumber - 1) [] := by
    rw [htoken]
    exact List.mem_cons_self
  unfold MacroArgsRewriter.rewriteArgPlaceholder
  rw [hparse]
  dsimp only
  rw [hget]
  dsimp only
  rw [if_neg (Nat.ne_of_gt hpos), if_neg (not_not.mpr (hrange.imp_right fun h => ⟨h, hwithin.2⟩))]
  split
  · exact ⟨_, rfl, c, List.mem_append_left _ hmem, hc⟩
  · exact ⟨_, rfl, c, hmem, hc⟩

/-- An argument that is missing trips an assertion. -/
theorem rewriteArgPlaceholder_not_within {tokens : List Text} {span : Text} {len : Nat}
    {ph : MacroArgsPlaceholder} (hparse : parseMacroArgsPlaceholder span = .ok (len, some ph))
    (hwithin : ¬ Within tokens.length (some ph)) :
    MacroArgsRewriter.rewriteArgPlaceholder tokens span = .error .assertion := by
  obtain ⟨hpos, -⟩ := bounds_of_parse hparse
  unfold MacroArgsRewriter.rewriteArgPlaceholder
  rw [hparse]
  dsimp only
  split
  · rfl
  · rename_i token hget
    have hnumber : ph.phNumber ≤ tokens.length := by
      have hlt := (List.getElem?_eq_some_iff.mp hget).1
      omega
    rw [if_neg (Nat.ne_of_gt hpos), if_pos]
    intro hrange
    refine hwithin ⟨hnumber, ?_⟩
    obtain hzero | ⟨-, hle⟩ := hrange
    · rw [hzero]
      exact Nat.zero_le _
    · exact hle

/-! ### Rewriting beside validating -/

section Scan

variable {n : Nat} {hook : Text → Except Fault Text}

theorem rewriter_nextMatch_escape {pos : Nat} (s : Text) :
    (rewriter n hook).nextMatch pos ('\\' :: '$' :: s) = .ok ⟨1, some .app⟩ := by
  have hopen : ¬ OpensComment ('\\' :: '$' :: s) := not_opensComment_of_ne (by decide) (by decide) _
  exact rewriter_nextMatch hopen rfl rfl

theorem rewriter_nextMatch_placeholder {pos len : Nat} {s : Text} {ph : MacroArgsPlaceholder}
    (hparse : parseMacroArgsPlaceholder s = .ok (len, some ph)) (hwithin : Within n (some ph)) :
    (rewriter n hook).nextMatch pos s = .ok ⟨len, some .app⟩ := by
  have hlen : len ≠ 0 := Nat.one_le_iff_ne_zero.mp (length_of_parse hparse).1
  obtain ⟨s, rfl, -⟩ := exists_readBehind_of_parse hparse
  have hopen : ¬ OpensComment ('$' :: s) := not_opensComment_of_ne (by decide) (by decide) s
  rw [rewriter_nextMatch hopen rfl (find_of_parse hparse hwithin), if_neg hlen]

/-- What the scanner of a rewrite finds: a quoted segment, a plain character or a placeholder. -/
theorem rewriter_nextMatch_cases {pos : Nat} {c : Char} {s : Text} {m : TextMatch}
    (h : (rewriter n hook).nextMatch pos (c :: s) = .ok m) :
    (∃ q rest, c :: s = q ++ rest ∧ SqlQuoted q ∧ rest.length < (c :: s).length ∧ m = ⟨q.length, some .mask⟩) ∨
      (isQuote c = false ∧ (∃ ph, parseMacroArgsPlaceholder (c :: s) = .ok (0, ph)) ∧ m = ⟨1, none⟩) ∨
      isQuote c = false ∧ c ≠ '(' ∧ ∃ w rest ph, s = w ++ rest ∧ rest.length < (c :: s).length ∧
        parseMacroArgsPlaceholder (c :: s) = .ok (w.length + 1, ph) ∧ m = ⟨w.length + 1, some .app⟩ ∧
        (c = '\\' ∧ w = [] ∧ ph = none ∨ c = '$' ∧ ∃ ph', ph = some ph') := by
  simp only [TextProcessor.nextMatch, rewriter, sqlMacroArgsExpander, MacroArgs.processor] at h
  split at h
  · cases h
  · cases h
  · cases hquote : isQuote c with
    | true =>
        left
        split at h
        · cases h
        · rename_i hmask
          obtain ⟨m', q, rest, heq, hq, hfound⟩ := quoted_of_firstMatch_mask hquote hmask
          cases hfound
          have hpos := hq.length_pos
          refine ⟨q, rest, heq, hq, ?_, (Except.ok.inj h).symm⟩
          rw [heq, List.length_append]
          omega
        · rename_i hmask
          obtain ⟨m', q, rest, heq, hq, hfound⟩ := quoted_of_firstMatch_mask hquote hmask
          cases hfound
    | false =>
        right
        rw [firstMatch_mask_of_not_isQuote hquote] at h
        dsimp only at h
        split at h
        · cases h
        · rename_i len hfind
          obtain ⟨ph, hparse⟩ := parse_of_find hfind
          by_cases hlen : len = 0
          · subst hlen
            exact .inl ⟨rfl, ⟨ph, hparse⟩, (Except.ok.inj h).symm⟩
          · rw [if_neg hlen] at h
            obtain ⟨c', w, rest, heq, rfl, hread⟩ := exists_read_of_parse hlen hparse
            obtain ⟨rfl, rfl⟩ := List.cons.inj heq
            have hopen : c ≠ '(' := by
              rintro rfl
              obtain ⟨hc, -⟩ | ⟨hc, -⟩ := hread <;> exact absurd hc (by decide)
            refine .inr ⟨rfl, hopen, w, rest, ph, rfl, ?_, hparse, (Except.ok.inj h).symm, hread⟩
            rw [List.length_cons, List.length_append]
            omega

/-- A placeholder that cannot be replaced. -/
theorem run_read_error {d pos : Nat} {c : Char} {w s : Text} {done : List Text} {cur : Text} {e : Fault}
    (hc : c ≠ '(')
    (hnext : (rewriter n hook).nextMatch pos (c :: (w ++ s)) = .ok ⟨w.length + 1, some .app⟩)
    (hhook : hook (c :: w) = .error e) :
    ((rewriter n hook).processFrom 0 pos (c :: (w ++ s))).run ⟨d + 1, done ++ [cur]⟩ =
      .error e ⟨d + 1, done ++ [cur]⟩ := by
  have hstep : MacroArgsRewriter.processMatch hook ⟨d + 1, done ++ [cur]⟩ (c :: (w ++ s))
      ⟨w.length + 1, some .app⟩ = .error e := by
    have happend : MacroArgs.processMatch ⟨d + 1, done ++ [cur]⟩ (c :: (w ++ s)) ⟨w.length + 1, some .app⟩ =
        .ok (⟨d + 1, done ++ [cur ++ c :: w]⟩, ⟨w.length + 1, false⟩) := by
      rw [MacroArgs.processMatch_of_matched _ _ _ _ (Nat.succ_ne_zero _), List.take_succ_cons, List.take_left]
    have hhead : (c :: (w ++ s)).head? ≠ some '(' := fun h => hc (Option.some.inj h)
    unfold MacroArgsRewriter.processMatch
    rw [happend]
    dsimp only
    rw [if_neg (by decide), if_neg (by simp), if_pos ⟨rfl, hhead⟩, List.take_succ_cons, List.take_left, hhook]
  rw [TextProcessor.run_processFrom_zero_cons, hnext]
  dsimp only
  rw [MacroArgs.run_processMatch (p := rewriter n hook) rfl, hstep]

/-- A plain character that a list of arguments must not have ends the scan with its error. -/
theorem run_plain_error {d pos : Nat} {c : Char} {s : Text} {done : List Text} {cur : Text} {e : Fault}
    (hnext : (rewriter n hook).nextMatch pos (c :: s) = .ok ⟨1, none⟩)
    (hstep : MacroArgs.plainChar ⟨d + 1, done ++ [cur]⟩ (c :: s) = .error e) :
    ((rewriter n hook).processFrom 0 pos (c :: s)).run ⟨d + 1, done ++ [cur]⟩ =
      .error e ⟨d + 1, done ++ [cur]⟩ := by
  rw [TextProcessor.run_processFrom_zero_cons, hnext]
  dsimp only
  rw [MacroArgs.run_processMatch (p := rewriter n hook) rfl]
  unfold MacroArgsRewriter.processMatch
  rw [MacroArgs.processMatch_plain, hstep]

theorem run_closing_error {pos : Nat} {s : Text} {done : List Text} {cur : Text} (hfinish : finishArgs done cur [] = none) :
    ((rewriter n hook).processFrom 0 pos (')' :: s)).run ⟨1, done ++ [cur]⟩ =
      .error (.malformedText 0 "empty macro arg".toList) ⟨1, done ++ [cur]⟩ := by
  have hstep := plainChar_closing done cur s
  rw [hfinish] at hstep
  exact run_plain_error (nextMatch_closing s) hstep

theorem run_comma_error {pos : Nat} {s : Text} {done : List Text} {cur : Text} (hcur : trimBlanks cur = []) :
    ((rewriter n hook).processFrom 0 pos (',' :: s)).run ⟨1, done ++ [cur]⟩ =
      .error (.malformedText 0 "empty macro arg".toList) ⟨1, done ++ [cur]⟩ := by
  have hstep := plainChar_comma done cur s
  rw [if_pos hcur] at hstep
  exact run_plain_error (nextMatch_comma s) hstep

end Scan

/-- A run that returns if the arguments are enough for all placeholders, and else throws what a missing argument or
an escaped dollar makes of it. -/
def Hinges (m : Nat) (phs : List (Option MacroArgsPlaceholder)) (r : EStateM.Result Fault MacroArgs Nat) : Prop :=
  if ∀ ph ∈ phs, Within m ph then ∃ pos st, r = .ok pos st
  else ∃ e st, r = .error e st ∧ (e = .assertion ∨ e = .undefined)

theorem hinges_cons {m : Nat} {ph : Option MacroArgsPlaceholder} {phs : List (Option MacroArgsPlaceholder)}
    {r : EStateM.Result Fault MacroArgs Nat} (hph : Within m ph) : Hinges m (ph :: phs) r ↔ Hinges m phs r := by
  unfold Hinges
  simp only [List.forall_mem_cons, hph, true_and]

theorem hinges_error {m : Nat} {ph : Option MacroArgsPlaceholder} {phs : List (Option MacroArgsPlaceholder)}
    {e : Fault} {st : MacroArgs} (hph : ¬ Within m ph) (he : e = .assertion ∨ e = .undefined) :
    Hinges m (ph :: phs) (.error e st) := by
  unfold Hinges
  rw [if_neg fun h => hph (h ph List.mem_cons_self)]
  exact ⟨e, st, rfl, he⟩

theorem plainChar_closing_error {done : List Text} {cur : Text} (hcur : trimBlanks cur = []) (hdone : done ≠ [])
    (s : Text) :
    MacroArgs.plainChar ⟨1, done ++ [cur]⟩ (')' :: s) = .error (.malformedText 0 "empty macro arg".toList) := by
  rw [plainChar_closing, finishArgs, if_pos hcur, if_neg hdone]

theorem plainChar_closing_ok {done : List Text} {cur : Text} (h : trimBlanks cur = [] → done = []) (s : Text) :
    ∃ st₁, MacroArgs.plainChar ⟨1, done ++ [cur]⟩ (')' :: s) = .ok (st₁, ⟨1, true⟩) := by
  rw [plainChar_closing, finishArgs]
  by_cases hcur : trimBlanks cur = []
  · rw [if_pos hcur, if_pos (h hcur)]
    exact ⟨_, rfl⟩
  · rw [if_neg hcur]
    exact ⟨_, rfl⟩

/-- What a plain character does to both scans. -/
theorem hinges_of_plain {n m d pos pos' : Nat} {hook : Text → Except Fault Text} {c : Char} {s : Text}
    {done₀ done₁ : List Text} {cur₀ cur₁ : Text} {st₀ : MacroArgs} (hquote : isQuote c = false)
    (hnext₀ : (rewriter n .ok).nextMatch pos (c :: s) = .ok ⟨1, none⟩)
    (hnext₁ : (rewriter n hook).nextMatch pos (c :: s) = .ok ⟨1, none⟩)
    (hdone : done₀.length = done₁.length) (hblank : trimBlanks cur₁ = [] → trimBlanks cur₀ = [])
    (hblanks : trimBlanks (cur₁ ++ [c]) = [] → trimBlanks (cur₀ ++ [c]) = [])
    (hrest : ∀ {d : Nat} {done₀ done₁ : List Text} {cur₀ cur₁ : Text}, done₀.length = done₁.length →
      (trimBlanks cur₁ = [] → trimBlanks cur₀ = []) →
      ((rewriter n .ok).processFrom 0 (pos + 1) s).run ⟨d + 1, done₀ ++ [cur₀]⟩ = .ok pos' st₀ →
      Hinges m (placeholdersFrom (d + 1) 0 s)
        (((rewriter n hook).processFrom 0 (pos + 1) s).run ⟨d + 1, done₁ ++ [cur₁]⟩))
    (h : ((rewriter n .ok).processFrom 0 pos (c :: s)).run ⟨d + 1, done₀ ++ [cur₀]⟩ = .ok pos' st₀) :
    Hinges m
      (if c = '(' then placeholdersFrom (d + 1 + 1) 0 s
        else if c = ')' then if d + 1 ≤ 1 then [] else placeholdersFrom (d + 1 - 1) 0 s
        else placeholdersFrom (d + 1) 0 s)
      (((rewriter n hook).processFrom 0 pos (c :: s)).run ⟨d + 1, done₁ ++ [cur₁]⟩) := by
  by_cases hopen : c = '('
  · subst hopen
    rw [run_plain hnext₀ (plainChar_opening d done₀ cur₀ s)] at h
    rw [if_pos rfl, run_plain hnext₁ (plainChar_opening d done₁ cur₁ s)]
    exact hrest hdone hblanks h
  rw [if_neg hopen]
  by_cases hclose : c = ')'
  · subst hclose
    rw [if_pos rfl]
    cases d with
    | zero =>
        -- the end of the list: an item that is blank here is blank there
        by_cases hfail : trimBlanks cur₀ = [] ∧ done₀ ≠ []
        · rw [run_plain_error hnext₀ (plainChar_closing_error hfail.1 hfail.2 s)] at h
          cases h
        · have hok : trimBlanks cur₁ = [] → done₁ = [] := by
            intro hnil
            have hnil₀ : done₀ = [] := not_not.mp fun hne => hfail ⟨hblank hnil, hne⟩
            rw [hnil₀] at hdone
            exact List.length_eq_zero_iff.mp hdone.symm
          obtain ⟨st₁, hstep⟩ := plainChar_closing_ok hok s
          rw [if_pos (by decide), run_plain_end hnext₁ hstep]
          exact (if_pos (List.forall_mem_nil _)).mpr ⟨pos + 1, st₁, rfl⟩
    | succ d =>
        rw [run_plain hnext₀ (plainChar_closing_inner d done₀ cur₀ s)] at h
        rw [if_neg (by omega), run_plain hnext₁ (plainChar_closing_inner d done₁ cur₁ s)]
        exact hrest hdone hblanks h
  rw [if_neg hclose]
  by_cases hcomma : c = ','
  · subst hcomma
    cases d with
    | zero =>
        have hstep₀ := plainChar_comma done₀ cur₀ s
        by_cases hnil : trimBlanks cur₀ = []
        · rw [if_pos hnil] at hstep₀
          rw [run_plain_error hnext₀ hstep₀] at h
          cases h
        · have hstep₁ := plainChar_comma done₁ cur₁ s
          rw [if_neg hnil] at hstep₀
          rw [if_neg (mt hblank hnil)] at hstep₁
          rw [run_plain hnext₀ hstep₀] at h
          rw [run_plain hnext₁ hstep₁]
          refine hrest ?_ id h
          rw [List.length_append, List.length_append, hdone]
          rfl
    | succ d =>
        rw [run_plain hnext₀ (plainChar_comma_inner d done₀ cur₀ s)] at h
        rw [run_plain hnext₁ (plainChar_comma_inner d done₁ cur₁ s)]
        exact hrest hdone hblanks h
  have hc : isSpecial c = false := by simp [isSpecial, hquote, hopen, hclose, hcomma]
  rw [run_plain hnext₀ (plainChar_other d done₀ cur₀ hc s)] at h
  rw [run_plain hnext₁ (plainChar_other d done₁ cur₁ hc s)]
  exact hrest hdone hblanks h

/-- The scan that puts arguments in the places of placeholders, beside the one that validates them: it goes the same
way as long as the arguments are enough, and an argument put in is not blank. -/
theorem hinges_of_run {n : Nat} {tokens : List Text} (htokens : ∀ t ∈ tokens, Edged t)
    {pos pos' d : Nat} {s : Text} {done₀ done₁ : List Text} {cur₀ cur₁ : Text} {st₀ : MacroArgs}
    (hdone : done₀.length = done₁.length) (hblank : trimBlanks cur₁ = [] → trimBlanks cur₀ = [])
    (h : ((rewriter n .ok).processFrom 0 pos s).run ⟨d + 1, done₀ ++ [cur₀]⟩ = .ok pos' st₀) :
    Hinges tokens.length (placeholdersFrom (d + 1) 0 s)
      (((rewriter n (MacroArgsRewriter.rewriteArgPlaceholder tokens)).processFrom 0 pos s).run
        ⟨d + 1, done₁ ++ [cur₁]⟩) := by
  induction hlen : s.length using Nat.strong_induction_on generalizing s pos d done₀ done₁ cur₀ cur₁ with
  | _ k ih =>
    subst hlen
    cases s with
    | nil => cases h
    | cons c s =>
        -- a text put at the end of both items
        have hblanks : ∀ {w₀ w₁ : Text}, (trimBlanks w₁ = [] → trimBlanks w₀ = []) →
            trimBlanks (cur₁ ++ w₁) = [] → trimBlanks (cur₀ ++ w₀) = [] := by
          intro w₀ w₁ hw hnil
          rw [trimBlanks_eq_nil_iff, List.forall_mem_append] at hnil ⊢
          simp only [← trimBlanks_eq_nil_iff] at hnil ⊢
          exact ⟨hblank hnil.1, hw hnil.2⟩
        obtain ⟨m, st₁, r, hnext, -, -⟩ := (MacroArgs.processFrom_ok_iff (p := rewriter n .ok) rfl).mp h
        have hnext₁ : (rewriter n (MacroArgsRewriter.rewriteArgPlaceholder tokens)).nextMatch pos (c :: s) = .ok m :=
          hnext
        obtain ⟨q, rest, heq, hq, hshort, rfl⟩ | ⟨hquote, ⟨ph, hparse⟩, rfl⟩ |
            ⟨hquote, hopen, w, rest, ph, rfl, hshort, hparse, rfl, hread⟩ := rewriter_nextMatch_cases hnext
        · rw [heq] at h ⊢
          rw [run_quoted hq] at h
          rw [run_quoted hq, placeholdersFrom_quoted hq]
          exact ih _ hshort hdone (hblanks id) h rfl
        · rw [placeholdersFrom_plain hquote hparse]
          exact hinges_of_plain hquote hnext hnext₁ hdone hblank (hblanks id)
            (fun hdone hblank h => ih _ (Nat.lt_succ_self _) hdone hblank h rfl) h
        · rw [placeholdersFrom_read hquote hparse]
          by_cases hwithin : Within tokens.length ph
          · obtain ⟨-, -, rfl⟩ | ⟨rfl, ph, rfl⟩ := hread
            · exact absurd hwithin id
            · obtain ⟨len', hspan⟩ := parseMacroArgsPlaceholder_take hparse
              rw [List.take_succ_cons, List.take_left] at hspan
              obtain ⟨rewritten, hrewrite, c', hmem, hc'⟩ := rewriteArgPlaceholder_within htokens hspan hwithin
              rw [run_read hopen hnext rfl] at h
              rw [run_read hopen hnext₁ hrewrite, hinges_cons hwithin]
              refine ih _ hshort hdone (hblanks fun hnil => ?_) h rfl
              rw [(trimBlanks_eq_nil_iff rewritten).mp hnil c' hmem] at hc'
              cases hc'
          · obtain ⟨e, he, hrewrite⟩ : ∃ e, (e = .assertion ∨ e = .undefined) ∧
                MacroArgsRewriter.rewriteArgPlaceholder tokens (c :: w) = .error e := by
              obtain ⟨rfl, rfl, -⟩ | ⟨rfl, ph, rfl⟩ := hread
              · exact ⟨.undefined, .inr rfl, rfl⟩
              · obtain ⟨len', hspan⟩ := parseMacroArgsPlaceholder_take hparse
                rw [List.take_succ_cons, List.take_left] at hspan
                exact ⟨.assertion, .inl rfl, rewriteArgPlaceholder_not_within hspan hwithin⟩
            rw [run_read_error hopen hnext₁ hrewrite]
            exact hinges_error hwithin he

/-- Whether the arguments of a call are enough for the rewrite of a rule: it has none, or has no escaped dollar and no
placeholder of an argument beyond the `m`-th. -/
def Enough (macroArgs : DdlDefaultValueRuleMacroArgs) (m : Nat) : Prop :=
  macroArgs.rewrite = [] ∨ ∀ ph ∈ placeholdersIn macroArgs.rewrite, Within m ph

instance (macroArgs : DdlDefaultValueRuleMacroArgs) (m : Nat) : Decidable (Enough macroArgs m) :=
  inferInstanceAs (Decidable (_ ∨ _))

theorem head_of_rewriter_processMatch {hook : Text → Except Fault Text} {s : Text} {m : TextMatch}
    {res : MacroArgs × ProcessMatchResult} (h : MacroArgsRewriter.processMatch hook {} s m = .ok res) :
    s.head? = some '(' := by
  unfold MacroArgsRewriter.processMatch at h
  split at h
  · cases h
  · rename_i hbase
    exact head_of_processMatch hbase

/-- What a rewriter reads starts with a parenthesis. -/
theorem exists_open_of_run {n : Nat} {hook : Text → Except Fault Text} {text : Text} {pos : Nat} {st : MacroArgs}
    (h : ((rewriter n hook).processText text).run {} = .ok pos st) : ∃ s, text = '(' :: s := by
  cases text with
  | nil => cases h
  | cons c s =>
      obtain ⟨m, st₁, r, -, hstep, -⟩ := (MacroArgs.processFrom_ok_iff (p := rewriter n hook) rfl).mp h
      exact List.head?_eq_some_iff.mp (head_of_rewriter_processMatch hstep)

theorem hinges_rewriteMacroArgs {macroArgs : DdlDefaultValueRuleMacroArgs} {tokens validated : List Text}
    (htokens : ∀ t ∈ tokens, Edged t) (hvalid : MacroArgsRewriter.rewriteMacroArgs macroArgs .ok = .ok validated) :
    Hinges tokens.length (placeholdersIn macroArgs.rewrite)
      (((rewriter macroArgs.argcnt (MacroArgsRewriter.rewriteArgPlaceholder tokens)).processText
        macroArgs.rewrite).run {}) := by
  obtain ⟨pos, st, hrun, -⟩ := rewriteMacroArgs_eq_ok.mp hvalid
  obtain ⟨s, hs⟩ := exists_open_of_run hrun
  rw [hs] at hrun ⊢
  have hplain : parseMacroArgsPlaceholder ('(' :: s) = .ok (0, none) := rfl
  have hrun₀ : ((rewriter macroArgs.argcnt .ok).processFrom 0 1 s).run ⟨0 + 1, [] ++ [[]]⟩ = .ok pos st :=
    (run_open s).symm.trans hrun
  have hdone : ([] : List Text).length = ([] : List Text).length := rfl
  unfold placeholdersIn
  rw [run_open, placeholdersFrom_plain rfl hplain, if_pos rfl]
  exact hinges_of_run htokens hdone id hrun₀

/-- Rewriting the arguments of a call. -/
theorem rewriteMacroArgs_of_enough {macroArgs : DdlDefaultValueRuleMacroArgs} {tokens : List Text}
    (htokens : ∀ t ∈ tokens, Edged t)
    (hvalid : macroArgs.rewrite = [] ∨ ∃ ts, MacroArgsRewriter.rewriteMacroArgs macroArgs .ok = .ok ts) :
    if Enough macroArgs tokens.length then
      ∃ rhsArgs, MacroArgsExpander.rewriteMacroArgs macroArgs tokens = .ok rhsArgs
    else ∃ e, MacroArgsExpander.rewriteMacroArgs macroArgs tokens = .error e ∧ (e = .assertion ∨ e = .undefined) := by
  unfold MacroArgsExpander.rewriteMacroArgs
  by_cases hnil : macroArgs.rewrite = []
  · rw [if_pos hnil, if_pos (.inl hnil)]
    exact ⟨[], rfl⟩
  · obtain ⟨ts, hvalid⟩ := hvalid.resolve_left hnil
    have hhinges := hinges_rewriteMacroArgs htokens hvalid
    have henough : Enough macroArgs tokens.length ↔
        ∀ ph ∈ placeholdersIn macroArgs.rewrite, Within tokens.length ph := or_iff_right hnil
    unfold Hinges at hhinges
    rw [if_neg hnil]
    simp only [henough]
    split at hhinges
    · rename_i hall
      obtain ⟨pos, st, hrun⟩ := hhinges
      rw [rewriteMacroArgs_eq_ok.mpr ⟨pos, st, hrun, rfl⟩, if_pos hall]
      exact ⟨_, rfl⟩
    · rename_i hmissing
      obtain ⟨e, st, hrun, he⟩ := hhinges
      rw [rewriteMacroArgs_eq_error.mpr ⟨st, hrun⟩, if_neg hmissing]
      exact ⟨e, rfl, he⟩

end Middle.NormalDdl
