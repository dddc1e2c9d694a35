import Middle.NormalDdl.RewriteMeaning

/-! Placeholders whose numbers do not fit into an `unsigned int`. Reading one throws what validation does not
take for an error of the rewrite; whether one is read depends on where the scan gets to. -/

namespace Middle.NormalDdl

open Lib Universals

/-- The places that a scan of a rewrite gets to inside its list, each with the parentheses open within the item
there and whether the item is blank up to it. -/
inductive Reached (n : Nat) (rewrite : Text) : Nat → Bool → Text → Prop
  | opening {s : Text} (hopen : rewrite = '(' :: s) : Reached n rewrite 0 true s
  | next {s : Text} (h : Reached n rewrite 0 false (',' :: s)) : Reached n rewrite 0 true s
  | piece {d d' : Nat} {blank : Bool} {p : RewritePiece} {s s' : Text} (h : Reached n rewrite d blank s)
      (hlex : Lexeme false n s p s') (hdepth : p.depth d = some d') : Reached n rewrite d' (blank && p.isBlank) s'

/-- A scan of a rewrite reads a number that does not fit. -/
def Overflows (n : Nat) (rewrite : Text) : Prop :=
  parseMacroArgsPlaceholder rewrite = .error .badLexicalCast ∨
    ∃ d blank s, Reached n rewrite d blank s ∧ parseMacroArgsPlaceholder s = .error .badLexicalCast

section Scan

variable {n d pos : Nat} {rewrite s : Text} {done : List Text} {cur : Text}

theorem parse_of_find_error {s : Text} (h : MacroArgsRewriter.find n s = .error .badLexicalCast) :
    parseMacroArgsPlaceholder s = .error .badLexicalCast := by
  unfold MacroArgsRewriter.find at h
  split at h
  · rename_i hparse
    cases h
    exact hparse
  · cases h
  · split at h
    · cases h
    · cases h

/-- What the scanner throws of that kind comes from reading a placeholder. -/
theorem parse_of_nextMatch_error {c : Char} {s : Text}
    (h : (rewriter n .ok).nextMatch pos (c :: s) = .error .badLexicalCast) :
    parseMacroArgsPlaceholder (c :: s) = .error .badLexicalCast := by
  refine fault_of_nextMatch (p := rewriter n .ok)
    (P := fun e => e = .badLexicalCast → parseMacroArgsPlaceholder (c :: s) = .error .badLexicalCast)
    ?_ (fun _ hm => hm) rfl ?_ h rfl
  · rintro e he rfl
    exact absurd he (by decide)
  · rintro e hfind rfl
    exact parse_of_find_error hfind

theorem exists_dollar_of_parse_error {s : Text} {e : Fault} (h : parseMacroArgsPlaceholder s = .error e)
    (he : e ≠ .undefined) : ∃ s', s = '$' :: s' := by
  rw [parseMacroArgsPlaceholder.eq_def] at h
  split at h
  · cases h
    exact absurd rfl he
  · cases h
  · exact ⟨_, rfl⟩
  · cases h

theorem nextMatch_of_parse_error (h : parseMacroArgsPlaceholder s = .error .badLexicalCast) :
    (rewriter n .ok).nextMatch pos s = .error .badLexicalCast := by
  obtain ⟨s, rfl⟩ := exists_dollar_of_parse_error h (by decide)
  have hopen : ¬ OpensComment ('$' :: s) := not_opensComment_of_ne (by decide) (by decide) s
  have hfind : MacroArgsRewriter.find n ('$' :: s) = .error .badLexicalCast := by
    rw [MacroArgsRewriter.find, h]
  simp only [TextProcessor.nextMatch, rewriter, sqlMacroArgsExpander, MacroArgs.processor,
    (firstMatch_reject_iff ('$' :: s)).mpr hopen, firstMatch_mask_of_not_isQuote (c := '$') rfl, hfind]

/-- Reading a number that does not fit ends the scan. -/
theorem run_of_parse_error (h : parseMacroArgsPlaceholder s = .error .badLexicalCast) (st : MacroArgs) :
    ((rewriter n .ok).processFrom 0 pos s).run st = .error .badLexicalCast st := by
  have hnext : (rewriter n .ok).nextMatch pos s = .error .badLexicalCast := nextMatch_of_parse_error h
  obtain ⟨s, rfl⟩ := exists_dollar_of_parse_error h (by decide)
  rw [TextProcessor.run_processFrom_zero_cons, hnext]

/-- An item is blank up to a piece and with it. -/
theorem trimBlanks_append_eq_nil_iff {s' : Text} {p : RewritePiece} {blank : Bool} (hlex : Lexeme false n s p s')
    (hblank : trimBlanks cur = [] ↔ blank = true) : trimBlanks (cur ++ p.text) = [] ↔ (blank && p.isBlank) = true := by
  rw [← nonblank_eq_nil_iff, nonblank_append, List.append_eq_nil_iff, nonblank_eq_nil_iff, hblank,
    nonblank_text_eq_nil_iff hlex, Bool.and_eq_true]

/-- The scan gets to the places it reaches. -/
theorem run_of_reached {blank : Bool} (h : Reached n rewrite d blank s) :
    ∃ pos done cur, (trimBlanks cur = [] ↔ blank = true) ∧
      ((rewriter n .ok).processText rewrite).run {} =
        ((rewriter n .ok).processFrom 0 pos s).run ⟨d + 1, done ++ [cur]⟩ := by
  induction h with
  | opening hopen =>
      rw [hopen, run_open]
      exact ⟨1, [], [], iff_of_true rfl rfl, rfl⟩
  | next h ih =>
      obtain ⟨pos, done, cur, hblank, hrun⟩ := ih
      have hcur : trimBlanks cur ≠ [] := fun hnil => Bool.false_ne_true (hblank.mp hnil)
      rw [run_next hcur] at hrun
      exact ⟨pos + 1, done ++ [trimBlanks cur], [], iff_of_true rfl rfl, hrun⟩
  | @piece d d' blank p s s' h hlex hdepth ih =>
      obtain ⟨pos, done, cur, hblank, hrun⟩ := ih
      rw [run_lexeme hlex hdepth (rewrite_ok p)] at hrun
      exact ⟨pos + p.text.length, done, cur ++ p.text, trimBlanks_append_eq_nil_iff hlex hblank, hrun⟩

/-- A scan that ends so has reached a place where a number does not fit. -/
theorem overflows_of_run {blank : Bool} {st : MacroArgs} (hreached : Reached n rewrite d blank s)
    (hblank : trimBlanks cur = [] ↔ blank = true)
    (h : ((rewriter n .ok).processFrom 0 pos s).run ⟨d + 1, done ++ [cur]⟩ = .error .badLexicalCast st) :
    Overflows n rewrite := by
  induction hlen : s.length using Nat.strong_induction_on generalizing d pos done cur blank s with
  | _ k ih =>
    subst hlen
    cases s with
    | nil => cases h
    | cons c s =>
        cases hnext : (rewriter n .ok).nextMatch pos (c :: s) with
        | error e =>
            rw [TextProcessor.run_processFrom_zero_cons, hnext] at h
            cases h
            exact .inr ⟨d, blank, _, hreached, parse_of_nextMatch_error hnext⟩
        | ok m =>
            obtain ⟨p, s', hlex, -⟩ := lexeme_of_nextMatch hnext
            have happend := append_of_lexeme hlex
            have hshort := length_lt_of_lexeme hlex
            cases hdepth : p.depth d with
            | some d' =>
                rw [run_lexeme hlex hdepth (rewrite_ok p)] at h
                exact ih _ hshort (.piece hreached hlex hdepth) (trimBlanks_append_eq_nil_iff hlex hblank) h rfl
            | none =>
                obtain ⟨rfl, rfl | rfl⟩ := eq_of_depth_eq_none hdepth
                · obtain ⟨rfl, rfl⟩ := List.cons.inj happend
                  cases hfinish : finishArgs done cur [] with
                  | none =>
                      rw [run_closing_error hfinish] at h
                      cases h
                  | some tokens =>
                      rw [run_closing hfinish] at h
                      cases h
                · obtain ⟨rfl, rfl⟩ := List.cons.inj happend
                  by_cases hnil : trimBlanks cur = []
                  · rw [run_comma_error hnil] at h
                    cases h
                  · have hfalse : blank = false := Bool.eq_false_iff.mpr (mt hblank.mpr hnil)
                    subst hfalse
                    rw [run_next hnil] at h
                    exact ih _ hshort (.next hreached) (iff_of_true rfl rfl) h rfl

end Scan

theorem not_badLexicalCast_of_processMatch {s : Text} {m : TextMatch} :
    MacroArgsRewriter.processMatch .ok {} s m ≠ .error .badLexicalCast := by
  intro h
  by_cases hlen : m.len = 0
  · rw [MacroArgsRewriter.processMatch, MacroArgs.processMatch, if_pos hlen] at h
    cases h
  by_cases hby : m.matchedBy = none
  · exact absurd ((inside_processMatch_initial hlen hby).1 _ h) (by decide)
  · rw [MacroArgsRewriter.processMatch, MacroArgs.processMatch, if_neg hlen, if_pos rfl, if_pos hby] at h
    cases h

theorem rewriteMacroArgs_badLexicalCast_iff (macroArgs : DdlDefaultValueRuleMacroArgs) :
    MacroArgsRewriter.rewriteMacroArgs macroArgs .ok = .error .badLexicalCast ↔
      Overflows macroArgs.argcnt macroArgs.rewrite := by
  rw [rewriteMacroArgs_eq_error]
  constructor
  · rintro ⟨st, h⟩
    cases hrewrite : macroArgs.rewrite with
    | nil =>
        rw [hrewrite] at h
        cases h
    | cons c s =>
        rw [hrewrite] at h
        obtain hfail | ⟨m, hnext, hfail | ⟨st₁, r, hstep, hend, -⟩⟩ :=
          MacroArgs.processFrom_error (p := rewriter macroArgs.argcnt .ok) rfl h
        · exact .inl (parse_of_nextMatch_error hfail)
        · exact absurd hfail not_badLexicalCast_of_processMatch
        · obtain ⟨s', heq⟩ := List.head?_eq_some_iff.mp (head_of_rewriter_processMatch hstep)
          rw [heq] at h ⊢
          rw [run_open] at h
          have hinside : ((rewriter macroArgs.argcnt .ok).processFrom 0 1 s').run ⟨0 + 1, [] ++ [[]]⟩ =
              .error .badLexicalCast st := h
          exact overflows_of_run (.opening rfl) (iff_of_true rfl rfl) hinside
  · rintro (hparse | ⟨d, blank, s, hreached, hparse⟩)
    · exact ⟨{}, run_of_parse_error hparse {}⟩
    · obtain ⟨pos, done, cur, -, h⟩ := run_of_reached hreached
      rw [h]
      exact ⟨_, run_of_parse_error hparse _⟩

end Middle.NormalDdl
