import Middle.NormalDdl.ColumnRules

/-! The grammar of a parenthesised macro argument list, and that the tokenizer accepts exactly it. The
scanning loop is first matched step by step with a derivation (`ArgsFrom`), which is then read as a
list of arguments between commas. -/

namespace Middle.NormalDdl

open Universals

/-- An SQL comment starts here. -/
def OpensComment (s : Text) : Prop := "/*".toList <+: s ∨ "--".toList <+: s

/-- A closed segment between single or between double quotes. -/
def SqlQuoted (q : Text) : Prop := sqlSingleQuote.Quoted q ∨ sqlDoubleQuote.Quoted q

def isQuote (c : Char) : Bool := c = '\'' || c = '"'

/-- The characters that are not simply copied into an argument. -/
def isSpecial (c : Char) : Bool := isQuote c || c = '(' || c = ')' || c = ','

/-- A text that, begun inside `d` parentheses of its own, is the rest of one argument: outside its
quoted segments the parentheses get closed, commas stand inside parentheses only, and no comment
opens. -/
inductive ArgText : Nat → Text → Prop
  | nil : ArgText 0 []
  | quoted {d : Nat} {q a : Text} (hq : SqlQuoted q) (ha : ArgText d a) : ArgText d (q ++ a)
  | opening {d : Nat} {a : Text} (ha : ArgText (d + 1) a) : ArgText d ('(' :: a)
  | closing {d : Nat} {a : Text} (ha : ArgText d a) : ArgText (d + 1) (')' :: a)
  | comma {d : Nat} {a : Text} (ha : ArgText (d + 1) a) : ArgText (d + 1) (',' :: a)
  | plain {d : Nat} {c : Char} {a : Text} (hc : isSpecial c = false) (hopen : ¬ OpensComment (c :: a))
      (ha : ArgText d a) : ArgText d (c :: a)

/-- An argument between its separators. -/
def WellFormedArg (a : Text) : Prop := trimBlanks a ≠ [] ∧ ArgText 0 (trimBlanks a)

/-- `'(' a1 ',' ... ',' an ')'`. -/
def argListText (as : List Text) : Text := '(' :: (List.intercalate [','] as ++ [')'])

/-- What is left to scan, from within an argument at depth `d` of which `a` is still to come, with the
arguments `as` behind it and `rest` behind the closing parenthesis. -/
inductive ArgsFrom : Nat → Text → List Text → Text → Text → Prop
  | close {rest : Text} : ArgsFrom 0 [] [] (')' :: rest) rest
  | next {a : Text} {as : List Text} {s rest : Text} (h : ArgsFrom 0 a as s rest) :
      ArgsFrom 0 [] (a :: as) (',' :: s) rest
  | quoted {d : Nat} {q a : Text} {as : List Text} {s rest : Text} (hq : SqlQuoted q)
      (h : ArgsFrom d a as s rest) : ArgsFrom d (q ++ a) as (q ++ s) rest
  | opening {d : Nat} {a : Text} {as : List Text} {s rest : Text} (h : ArgsFrom (d + 1) a as s rest) :
      ArgsFrom d ('(' :: a) as ('(' :: s) rest
  | closing {d : Nat} {a : Text} {as : List Text} {s rest : Text} (h : ArgsFrom d a as s rest) :
      ArgsFrom (d + 1) (')' :: a) as (')' :: s) rest
  | comma {d : Nat} {a : Text} {as : List Text} {s rest : Text} (h : ArgsFrom (d + 1) a as s rest) :
      ArgsFrom (d + 1) (',' :: a) as (',' :: s) rest
  | plain {d : Nat} {c : Char} {a : Text} {as : List Text} {s rest : Text} (hc : isSpecial c = false)
      (hopen : ¬ OpensComment (c :: s)) (h : ArgsFrom d a as s rest) :
      ArgsFrom d (c :: a) as (c :: s) rest

/-! ### Comment openers and quoted segments -/

theorem opensComment_cons_iff (c : Char) (s : Text) :
    OpensComment (c :: s) ↔ c = '/' ∧ s.head? = some '*' ∨ c = '-' ∧ s.head? = some '-' := by
  cases s with
  | nil => simp [OpensComment]
  | cons c' s => simp [OpensComment, eq_comm]

theorem not_opensComment_of_ne {c : Char} (hslash : c ≠ '/') (hdash : c ≠ '-') (s : Text) :
    ¬ OpensComment (c :: s) := by
  rw [opensComment_cons_iff]
  rintro (⟨hc, -⟩ | ⟨hc, -⟩)
  · exact hslash hc
  · exact hdash hc

theorem not_opensComment_of_isSpecial {c : Char} (h : isSpecial c = true) (s : Text) :
    ¬ OpensComment (c :: s) := by
  refine not_opensComment_of_ne ?_ ?_ s
  · rintro rfl
    exact absurd h (by decide)
  · rintro rfl
    exact absurd h (by decide)

/-- What stands behind an argument completes no comment opener. -/
theorem opensComment_append_iff (c : Char) (a : Text) {c' : Char} (s : Text)
    (hslash : c' ≠ '*') (hdash : c' ≠ '-') :
    OpensComment (c :: (a ++ c' :: s)) ↔ OpensComment (c :: a) := by
  simp only [opensComment_cons_iff]
  cases a with
  | nil => simp [hslash, hdash]
  | cons a₁ a => simp

theorem SqlQuoted.exists_cons {q : Text} (h : SqlQuoted q) : ∃ c w, q = c :: w ∧ isQuote c = true := by
  obtain ⟨w, rfl, -⟩ | ⟨w, rfl, -⟩ := h
  · exact ⟨_, w, rfl, rfl⟩
  · exact ⟨_, w, rfl, rfl⟩

theorem SqlQuoted.length_pos {q : Text} (h : SqlQuoted q) : 0 < q.length := by
  obtain ⟨c, w, rfl, -⟩ := h.exists_cons
  exact Nat.succ_pos _

theorem SqlQuoted.getLast? {q : Text} (h : SqlQuoted q) : ∃ c, q.getLast? = some c ∧ isQuote c = true := by
  obtain ⟨w, rfl, hw⟩ | ⟨w, rfl, hw⟩ := h
  · exact ⟨_, by rw [List.getLast?_cons, hw.getLast?], rfl⟩
  · exact ⟨_, by rw [List.getLast?_cons, hw.getLast?], rfl⟩

/-! ### What the matchers find -/

theorem firstMatch_reject_iff (s : Text) :
    firstMatch macroRejectMatchers s = .ok none ↔ ¬ OpensComment s := by
  have hblock : sqlBlockCommentMatcher.find s = .ok 0 ↔ ¬ "/*".toList <+: s :=
    blockCommentMatcher_find_eq_zero_iff (by decide)
  have hline : sqlLineCommentMatcher.find s = .ok 0 ↔ ¬ "--".toList <+: s :=
    lineCommentMatcher_find_eq_zero_iff (by decide)
  rw [OpensComment, not_or, ← hblock, ← hline]
  simp only [macroRejectMatchers, firstMatch, sqlBlockCommentMatcher, sqlLineCommentMatcher]
  split <;> rename_i hfind <;> simp only [hfind, reduceCtorEq, false_and, Except.ok.injEq]
  split <;> rename_i hn <;> simp only [hn, reduceCtorEq, false_and, true_and, Except.ok.injEq]
  split <;> rename_i hfind' <;> simp only [hfind', reduceCtorEq, Except.ok.injEq]
  split <;> simp_all

theorem firstMatch_mask_of_quoted {q : Text} (h : SqlQuoted q) (s : Text) :
    ∃ m, firstMatch macroMaskMatchers (q ++ s) = .ok (some (m, q.length)) := by
  have hpos := h.length_pos.ne'
  obtain h | h := h
  · refine ⟨sqlSingleQuote.matcher, ?_⟩
    simp only [macroMaskMatchers, firstMatch, QuoteMatcher.find_of_quoted h, hpos, if_false]
  · have hsingle : sqlSingleQuote.matcher.find (q ++ s) = .ok 0 := by
      obtain ⟨w, rfl, -⟩ := h
      exact QuoteMatcher.find_of_ne_quote (by decide) _
    refine ⟨sqlDoubleQuote.matcher, ?_⟩
    simp only [macroMaskMatchers, firstMatch, hsingle, QuoteMatcher.find_of_quoted h, hpos, if_true, if_false]

theorem SqlQuoted.unique {q q' s s' : Text} (hq : SqlQuoted q) (hq' : SqlQuoted q') (h : q ++ s = q' ++ s') :
    q = q' := by
  obtain ⟨m, hmask⟩ := firstMatch_mask_of_quoted hq s
  obtain ⟨m', hmask'⟩ := firstMatch_mask_of_quoted hq' s'
  rw [h] at hmask
  have hlen := congrArg Prod.snd (Option.some.inj (Except.ok.inj (hmask.symm.trans hmask')))
  exact (List.append_inj h hlen).1

theorem firstMatch_mask_of_not_isQuote {c : Char} (h : isQuote c = false) (s : Text) :
    firstMatch macroMaskMatchers (c :: s) = .ok none := by
  have hsingle : c ≠ sqlSingleQuote.quoteC := by rintro rfl; exact absurd h (by decide)
  have hdouble : c ≠ sqlDoubleQuote.quoteC := by rintro rfl; exact absurd h (by decide)
  simp only [macroMaskMatchers, firstMatch, QuoteMatcher.find_of_ne_quote hsingle,
    QuoteMatcher.find_of_ne_quote hdouble, if_true]

theorem quoted_of_firstMatch_mask {c : Char} {s : Text} (hc : isQuote c = true)
    {found : Option (TextMatcher × Nat)} (h : firstMatch macroMaskMatchers (c :: s) = .ok found) :
    ∃ m q rest, c :: s = q ++ rest ∧ SqlQuoted q ∧ found = some (m, q.length) := by
  by_cases hsingle : c = sqlSingleQuote.quoteC
  · subst hsingle
    simp only [macroMaskMatchers, firstMatch] at h
    split at h
    · cases h
    · rename_i n hfind
      obtain ⟨q, rest, heq, hq, rfl⟩ := QuoteMatcher.quoted_of_find hfind
      have hq : SqlQuoted q := .inl hq
      rw [if_neg hq.length_pos.ne'] at h
      exact ⟨_, q, rest, heq, hq, (Except.ok.inj h).symm⟩
  · obtain rfl : c = sqlDoubleQuote.quoteC := by
      simp only [isQuote, Bool.or_eq_true, decide_eq_true_eq] at hc
      exact hc.resolve_left hsingle
    simp only [macroMaskMatchers, firstMatch, QuoteMatcher.find_of_ne_quote hsingle, if_true] at h
    split at h
    · cases h
    · rename_i n hfind
      obtain ⟨q, rest, heq, hq, rfl⟩ := QuoteMatcher.quoted_of_find hfind
      have hq : SqlQuoted q := .inr hq
      rw [if_neg hq.length_pos.ne'] at h
      exact ⟨_, q, rest, heq, hq, (Except.ok.inj h).symm⟩

/-! ### One turn of the scanning loop -/

section Loop

variable (m : TextMatcher) (hm : ∀ s, m.find s = .ok 0)

/-- The tokenizer of macro arguments with the application's matcher `m`. -/
abbrev argsTokenizer : TextProcessor MacroArgs := sqlMacroArgsExpander m MacroArgs.processMatch

include hm in
/-- The match at the current position: a quoted segment as a whole, or a plain character. -/
theorem nextMatch_ok_iff (pos : Nat) (c : Char) (s : Text) (found : TextMatch) :
    (argsTokenizer m).nextMatch pos (c :: s) = .ok found ↔
      ¬ OpensComment (c :: s) ∧
        (isQuote c = false ∧ found = ⟨1, none⟩ ∨
          ∃ q rest, c :: s = q ++ rest ∧ SqlQuoted q ∧ found = ⟨q.length, some .mask⟩) := by
  have hreject := firstMatch_reject_iff (c :: s)
  simp only [TextProcessor.nextMatch, argsTokenizer, sqlMacroArgsExpander, MacroArgs.processor]
  split
  · rename_i e hfirst
    simp [hfirst] at hreject ⊢
    exact fun h => absurd hreject h
  · rename_i hfirst
    simp [hfirst] at hreject ⊢
    exact fun h => absurd hreject h
  · rename_i hfirst
    simp only [hreject.mp hfirst, not_false_eq_true, true_and]
    cases hc : isQuote c with
    | false =>
        rw [firstMatch_mask_of_not_isQuote hc]
        simp only [hm, if_true, Except.ok.injEq, true_and, eq_comm]
        refine (or_iff_left ?_).symm
        rintro ⟨q, rest, heq, hq, -⟩
        obtain ⟨c', w, rfl, hc'⟩ := hq.exists_cons
        obtain rfl : c = c' := (List.cons.inj heq).1.symm
        exact absurd hc (by simp [hc'])
    | true =>
        constructor
        · intro h
          split at h
          · cases h
          · rename_i hmask
            obtain ⟨m', q, rest, heq, hq, hfound⟩ := quoted_of_firstMatch_mask hc hmask
            simp only [Option.some.injEq, Prod.mk.injEq] at hfound
            rw [hfound.2] at h
            exact .inr ⟨q, rest, heq, hq, (Except.ok.inj h).symm⟩
          · rename_i hmask
            obtain ⟨m', q, rest, heq, hq, hfound⟩ := quoted_of_firstMatch_mask hc hmask
            cases hfound
        · rintro (⟨h, -⟩ | ⟨q, rest, heq, hq, rfl⟩)
          · cases h
          · obtain ⟨m', hmask⟩ := firstMatch_mask_of_quoted hq rest
            rw [heq, hmask]

/-- What the loop makes of the arguments: those closed before, the current one and those to come. -/
def finishArgs : List Text → Text → List Text → Option (List Text)
  | done, a, [] =>
      if trimBlanks a = [] then if done = [] then some [] else none else some (done ++ [trimBlanks a])
  | done, a, a' :: as =>
      if trimBlanks a = [] then none else finishArgs (done ++ [trimBlanks a]) a' as

theorem plainChar_closing (done : List Text) (cur s : Text) :
    MacroArgs.plainChar ⟨1, done ++ [cur]⟩ (')' :: s) = match finishArgs done cur [] with
      | some tokens => .ok (⟨0, tokens⟩, ⟨1, true⟩)
      | none => .error (.malformedText 0 "empty macro arg".toList) := by
  simp only [MacroArgs.plainChar, MacroArgs.closeArgs, List.head?_cons, Nat.sub_self, if_true,
    modifyBack_concat, List.getLast?_concat, Option.some.injEq, finishArgs]
  split
  · cases done with
    | nil => rfl
    | cons a done => rw [if_pos (by simp), if_neg (by simp)]
  · rfl

theorem plainChar_comma (done : List Text) (cur s : Text) :
    MacroArgs.plainChar ⟨1, done ++ [cur]⟩ (',' :: s) =
      if trimBlanks cur = [] then .error (.malformedText 0 "empty macro arg".toList)
      else .ok (⟨1, done ++ [trimBlanks cur] ++ [[]]⟩, ⟨1, false⟩) := by
  simp only [MacroArgs.plainChar, MacroArgs.nextArg, List.head?_cons, if_true, modifyBack_concat,
    List.getLast?_concat, Option.some.injEq, resize_succ]

theorem plainChar_opening (d : Nat) (done : List Text) (cur s : Text) :
    MacroArgs.plainChar ⟨d + 1, done ++ [cur]⟩ ('(' :: s) =
      .ok (⟨d + 2, done ++ [cur ++ ['(']]⟩, ⟨1, false⟩) := by
  simp [MacroArgs.plainChar, MacroArgs.append, modifyBack_concat]

theorem plainChar_closing_inner (d : Nat) (done : List Text) (cur s : Text) :
    MacroArgs.plainChar ⟨d + 2, done ++ [cur]⟩ (')' :: s) =
      .ok (⟨d + 1, done ++ [cur ++ [')']]⟩, ⟨1, false⟩) := by
  simp [MacroArgs.plainChar, MacroArgs.append, modifyBack_concat]

theorem plainChar_comma_inner (d : Nat) (done : List Text) (cur s : Text) :
    MacroArgs.plainChar ⟨d + 2, done ++ [cur]⟩ (',' :: s) =
      .ok (⟨d + 2, done ++ [cur ++ [',']]⟩, ⟨1, false⟩) := by
  simp [MacroArgs.plainChar, MacroArgs.append, modifyBack_concat]

theorem plainChar_other (d : Nat) (done : List Text) (cur : Text) {c : Char} (hc : isSpecial c = false)
    (s : Text) :
    MacroArgs.plainChar ⟨d + 1, done ++ [cur]⟩ (c :: s) =
      .ok (⟨d + 1, done ++ [cur ++ [c]]⟩, ⟨1, false⟩) := by
  simp only [isSpecial, Bool.or_eq_false_iff, decide_eq_false_iff_not] at hc
  obtain ⟨⟨⟨-, hopen⟩, hclose⟩, hcomma⟩ := hc
  simp [MacroArgs.plainChar, MacroArgs.append, modifyBack_concat, hopen, hclose, hcomma]

include hm in
/-- One turn of the loop inside the argument `cur`. -/
theorem run_turn_iff {d pos pos' : Nat} {done : List Text} {cur : Text} {c : Char} {s : Text}
    {st' : MacroArgs} :
    ((argsTokenizer m).processFrom 0 pos (c :: s)).run ⟨d + 1, done ++ [cur]⟩ = .ok pos' st' ↔
      ¬ OpensComment (c :: s) ∧
        ((isQuote c = false ∧ ∃ st₁ r,
            MacroArgs.plainChar ⟨d + 1, done ++ [cur]⟩ (c :: s) = .ok (st₁, r) ∧
            if r.atMatchesEnd then pos + r.len = pos' ∧ st₁ = st'
            else ((argsTokenizer m).processFrom (r.len - 1) (pos + 1) s).run st₁ = .ok pos' st') ∨
          ∃ q rest, c :: s = q ++ rest ∧ SqlQuoted q ∧
            ((argsTokenizer m).processFrom 0 (pos + q.length) rest).run ⟨d + 1, done ++ [cur ++ q]⟩ =
              .ok pos' st') := by
  rw [MacroArgs.processFrom_ok_iff (p := argsTokenizer m) rfl]
  simp only [nextMatch_ok_iff m hm]
  -- a quoted segment is skipped as a whole
  have hskip : ∀ {q rest : Text}, c :: s = q ++ rest → SqlQuoted q →
      (argsTokenizer m).processFrom (q.length - 1) (pos + 1) s =
        (argsTokenizer m).processFrom 0 (pos + q.length) rest := by
    intro q rest heq hq
    have hlen := congrArg List.length heq
    simp only [List.length_cons, List.length_append] at hlen
    rw [TextProcessor.processFrom_pred (c := c) _ hq.length_pos (by omega), heq, List.drop_left]
  have htake : ∀ {q rest : Text}, c :: s = q ++ rest → (c :: s).take q.length = q := by
    intro q rest heq
    rw [heq, List.take_left]
  constructor
  · rintro ⟨found, st₁, r, ⟨hopen, ⟨hquote, rfl⟩ | ⟨q, rest, heq, hq, rfl⟩⟩, hst, h⟩
    · rw [MacroArgs.processMatch_plain] at hst
      exact ⟨hopen, .inl ⟨hquote, st₁, r, hst, h⟩⟩
    · rw [MacroArgs.processMatch_of_matched _ _ _ _ hq.length_pos.ne', htake heq] at hst
      cases hst
      refine ⟨hopen, .inr ⟨q, rest, heq, hq, ?_⟩⟩
      rw [← hskip heq hq]
      exact h
  · rintro ⟨hopen, ⟨hquote, st₁, r, hst, h⟩ | ⟨q, rest, heq, hq, h⟩⟩
    · rw [← MacroArgs.processMatch_plain] at hst
      exact ⟨_, st₁, r, ⟨hopen, .inl ⟨hquote, rfl⟩⟩, hst, h⟩
    · refine ⟨_, _, _, ⟨hopen, .inr ⟨q, rest, heq, hq, rfl⟩⟩,
        MacroArgs.processMatch_of_matched _ _ _ _ hq.length_pos.ne', ?_⟩
      rw [htake heq, if_neg (by simp), hskip heq hq]
      exact h

include hm in
/-- A character that goes into the current argument, followed by a scan that returns. -/
theorem run_of_plainChar {d d' pos pos' : Nat} {done : List Text} {cur : Text} {c : Char} {s : Text}
    {st' : MacroArgs} (hquote : isQuote c = false) (hopen : ¬ OpensComment (c :: s))
    (hstep : MacroArgs.plainChar ⟨d + 1, done ++ [cur]⟩ (c :: s) =
      .ok (⟨d' + 1, done ++ [cur ++ [c]]⟩, ⟨1, false⟩))
    (h : ((argsTokenizer m).processFrom 0 (pos + 1) s).run ⟨d' + 1, done ++ [cur ++ [c]]⟩ =
      .ok pos' st') :
    ((argsTokenizer m).processFrom 0 pos (c :: s)).run ⟨d + 1, done ++ [cur]⟩ = .ok pos' st' :=
  (run_turn_iff m hm).mpr ⟨hopen, .inl ⟨hquote, _, _, hstep, h⟩⟩

include hm in
/-- Completeness: along a derivation the loop collects the arguments and stops behind the list. -/
theorem run_of_argsFrom {d : Nat} {a : Text} {as : List Text} {s rest : Text}
    (h : ArgsFrom d a as s rest) (pos : Nat) (done : List Text) (cur : Text) {tokens : List Text}
    (hfinish : finishArgs done (cur ++ a) as = some tokens) :
    ((argsTokenizer m).processFrom 0 pos s).run ⟨d + 1, done ++ [cur]⟩ =
      .ok (pos + s.length - rest.length) ⟨0, tokens⟩ := by
  induction h generalizing pos done cur with
  | close =>
      rw [List.append_nil] at hfinish
      rw [run_turn_iff m hm]
      refine ⟨not_opensComment_of_isSpecial rfl _, .inl ⟨rfl, ⟨0, tokens⟩, ⟨1, true⟩, ?_, ?_⟩⟩
      · rw [plainChar_closing, hfinish]
      · simp only [if_true, and_true, List.length_cons]
        omega
  | @next a as s rest h ih =>
      rw [List.append_nil, finishArgs] at hfinish
      split at hfinish
      · cases hfinish
      · rename_i hcur
        rw [run_turn_iff m hm]
        refine ⟨not_opensComment_of_isSpecial rfl _,
          .inl ⟨rfl, ⟨1, done ++ [trimBlanks cur] ++ [[]]⟩, ⟨1, false⟩, ?_, ?_⟩⟩
        · rw [plainChar_comma, if_neg hcur]
        · refine (ih (pos + 1) _ [] hfinish).trans ?_
          rw [List.length_cons]
          congr 1
          omega
  | @quoted d q a as s rest hq h ih =>
      obtain ⟨c, w, rfl, hc⟩ := hq.exists_cons
      rw [List.cons_append, run_turn_iff m hm]
      refine ⟨not_opensComment_of_isSpecial (by simp [isSpecial, hc]) _, .inr ⟨_, s, rfl, hq, ?_⟩⟩
      rw [ih _ done (cur ++ c :: w) (by rw [List.append_assoc]; exact hfinish)]
      simp only [List.length_cons, List.length_append]
      congr 1
      omega
  | opening h ih =>
      refine run_of_plainChar m hm rfl (not_opensComment_of_isSpecial rfl _)
        (plainChar_opening _ done cur _) ?_
      rw [ih _ done (cur ++ ['(']) (by rwa [List.append_assoc]), List.length_cons]
      congr 1
      omega
  | closing h ih =>
      refine run_of_plainChar m hm rfl (not_opensComment_of_isSpecial rfl _)
        (plainChar_closing_inner _ done cur _) ?_
      rw [ih _ done (cur ++ [')']) (by rwa [List.append_assoc]), List.length_cons]
      congr 1
      omega
  | comma h ih =>
      refine run_of_plainChar m hm rfl (not_opensComment_of_isSpecial rfl _)
        (plainChar_comma_inner _ done cur _) ?_
      rw [ih _ done (cur ++ [',']) (by rwa [List.append_assoc]), List.length_cons]
      congr 1
      omega
  | @plain _ c _ _ _ _ hc hopen h ih =>
      have hquote : isQuote c = false := by
        simp only [isSpecial, Bool.or_eq_false_iff] at hc
        exact hc.1.1.1
      refine run_of_plainChar m hm hquote hopen (plainChar_other _ done cur hc _) ?_
      rw [ih _ done (cur ++ [c]) (by rwa [List.append_assoc]), List.length_cons]
      congr 1
      omega

include hm in
/-- Soundness: a scan that returns has followed a derivation. -/
theorem argsFrom_of_run {d pos pos' : Nat} {done : List Text} {cur s : Text} {st' : MacroArgs}
    (h : ((argsTokenizer m).processFrom 0 pos s).run ⟨d + 1, done ++ [cur]⟩ = .ok pos' st') :
    ∃ a as rest, ArgsFrom d a as s rest ∧ finishArgs done (cur ++ a) as = some st'.tokens := by
  induction hlen : s.length using Nat.strong_induction_on generalizing d pos done cur s with
  | _ n ih =>
    subst hlen
    cases s with
    | nil => cases h
    | cons c s =>
        obtain ⟨hopen, ⟨hquote, st₁, r, hst, h⟩ | ⟨q, rest, heq, hq, h⟩⟩ := (run_turn_iff m hm).mp h
        · have hshort : s.length < (c :: s).length := Nat.lt_succ_self _
          by_cases hlparen : c = '('
          · subst hlparen
            rw [plainChar_opening] at hst
            cases hst
            obtain ⟨a, as, rest, hargs, hfinish⟩ := ih _ hshort h rfl
            exact ⟨_, as, rest, .opening hargs, by rw [← hfinish, List.append_assoc]; rfl⟩
          by_cases hrparen : c = ')'
          · subst hrparen
            cases d with
            | zero =>
                rw [plainChar_closing] at hst
                split at hst
                · rename_i tokens hfinish
                  cases hst
                  obtain ⟨-, rfl⟩ := h
                  exact ⟨[], [], s, .close, by rw [List.append_nil]; exact hfinish⟩
                · cases hst
            | succ d =>
                rw [plainChar_closing_inner] at hst
                cases hst
                obtain ⟨a, as, rest, hargs, hfinish⟩ := ih _ hshort h rfl
                exact ⟨_, as, rest, .closing hargs, by rw [← hfinish, List.append_assoc]; rfl⟩
          by_cases hcomma : c = ','
          · subst hcomma
            cases d with
            | zero =>
                rw [plainChar_comma] at hst
                split at hst
                · cases hst
                · rename_i hcur
                  cases hst
                  obtain ⟨a, as, rest, hargs, hfinish⟩ := ih _ hshort h rfl
                  refine ⟨[], a :: as, rest, .next hargs, ?_⟩
                  rw [List.append_nil, finishArgs, if_neg hcur]
                  exact hfinish
            | succ d =>
                rw [plainChar_comma_inner] at hst
                cases hst
                obtain ⟨a, as, rest, hargs, hfinish⟩ := ih _ hshort h rfl
                exact ⟨_, as, rest, .comma hargs, by rw [← hfinish, List.append_assoc]; rfl⟩
          · have hc : isSpecial c = false := by simp [isSpecial, hquote, hlparen, hrparen, hcomma]
            rw [plainChar_other d done cur hc] at hst
            cases hst
            obtain ⟨a, as, rest, hargs, hfinish⟩ := ih _ hshort h rfl
            exact ⟨_, as, rest, .plain hc hopen hargs, by rw [← hfinish, List.append_assoc]; rfl⟩
        · have hshort : rest.length < (c :: s).length := by
            have := hq.length_pos
            rw [heq, List.length_append]
            omega
          obtain ⟨a, as, rest', hargs, hfinish⟩ := ih _ hshort h rfl
          rw [heq]
          exact ⟨_, as, rest', .quoted hq hargs, by rw [← hfinish, List.append_assoc]⟩

end Loop

/-! ### Derivations and argument lists -/

theorem intercalate_append_head (sep p a : Text) (as : List Text) :
    List.intercalate sep ((p ++ a) :: as) = p ++ List.intercalate sep (a :: as) := by
  cases as with
  | nil => simp
  | cons a' as => simp [List.intercalate_cons_cons]

theorem argText_of_argsFrom {d : Nat} {a : Text} {as : List Text} {s rest : Text}
    (h : ArgsFrom d a as s rest) :
    ArgText d a ∧ (∀ x ∈ as, ArgText 0 x) ∧ s = List.intercalate [','] (a :: as) ++ ')' :: rest := by
  induction h with
  | close => exact ⟨.nil, by simp, by simp⟩
  | next h ih =>
      obtain ⟨ha, has, rfl⟩ := ih
      exact ⟨.nil, by simpa using ⟨ha, has⟩, by simp [List.intercalate_cons_cons]⟩
  | quoted hq h ih =>
      obtain ⟨ha, has, rfl⟩ := ih
      exact ⟨.quoted hq ha, has, by rw [intercalate_append_head, List.append_assoc]⟩
  | opening h ih =>
      obtain ⟨ha, has, rfl⟩ := ih
      exact ⟨.opening ha, has, congrArg (· ++ _) (intercalate_append_head [','] ['('] _ _).symm⟩
  | closing h ih =>
      obtain ⟨ha, has, rfl⟩ := ih
      exact ⟨.closing ha, has, congrArg (· ++ _) (intercalate_append_head [','] [')'] _ _).symm⟩
  | comma h ih =>
      obtain ⟨ha, has, rfl⟩ := ih
      exact ⟨.comma ha, has, congrArg (· ++ _) (intercalate_append_head [','] [','] _ _).symm⟩
  | @plain d c a as s rest hc hopen h ih =>
      obtain ⟨ha, has, rfl⟩ := ih
      refine ⟨.plain hc ?_ ha, has, congrArg (· ++ _) (intercalate_append_head [','] [c] _ _).symm⟩
      cases as with
      | nil =>
          rw [List.intercalate_singleton] at hopen
          exact mt (opensComment_append_iff c a rest (by decide) (by decide)).mpr hopen
      | cons a' as =>
          rw [List.intercalate_cons_cons, List.append_assoc, List.append_assoc] at hopen
          exact mt (opensComment_append_iff c a _ (by decide) (by decide)).mpr hopen

/-- An argument in front of what may follow one. -/
theorem argsFrom_append {d : Nat} {a : Text} (ha : ArgText d a) {as : List Text} {c : Char}
    {s rest : Text} (hslash : c ≠ '*') (hdash : c ≠ '-') (h : ArgsFrom 0 [] as (c :: s) rest) :
    ArgsFrom d a as (a ++ c :: s) rest := by
  induction ha with
  | nil => exact h
  | quoted hq ha ih =>
      rw [List.append_assoc]
      exact .quoted hq ih
  | opening ha ih => exact .opening ih
  | closing ha ih => exact .closing ih
  | comma ha ih => exact .comma ih
  | plain hc hopen ha ih => exact .plain hc (mt (opensComment_append_iff _ _ s hslash hdash).mp hopen) ih

theorem argsFrom_iff {a : Text} {as : List Text} {s rest : Text} :
    ArgsFrom 0 a as s rest ↔
      (∀ x ∈ a :: as, ArgText 0 x) ∧ s = List.intercalate [','] (a :: as) ++ ')' :: rest := by
  constructor
  · intro h
    obtain ⟨ha, has, hs⟩ := argText_of_argsFrom h
    exact ⟨List.forall_mem_cons.mpr ⟨ha, has⟩, hs⟩
  · rintro ⟨has, rfl⟩
    induction as generalizing a with
    | nil =>
        rw [List.intercalate_singleton]
        exact argsFrom_append (has a (by simp)) (by decide) (by decide) .close
    | cons a' as ih =>
        rw [List.intercalate_cons_cons, List.append_assoc, List.append_assoc]
        obtain ⟨ha, has⟩ := List.forall_mem_cons.mp has
        exact argsFrom_append ha (by decide) (by decide) (.next (ih has))

/-! ### Blanks around an argument -/

theorem isBlank_iff (c : Char) : isBlank c = true ↔ c = ' ' ∨ c = '\t' := by simp [isBlank]

theorem isSpecial_of_isBlank {c : Char} (h : isBlank c = true) : isSpecial c = false := by
  obtain rfl | rfl := (isBlank_iff c).mp h <;> decide

theorem not_opensComment_of_isBlank {c : Char} (h : isBlank c = true) (s : Text) :
    ¬ OpensComment (c :: s) := by
  obtain rfl | rfl := (isBlank_iff c).mp h
  · exact not_opensComment_of_ne (by decide) (by decide) s
  · exact not_opensComment_of_ne (by decide) (by decide) s

theorem argText_blank_cons_iff {d : Nat} {c : Char} (h : isBlank c = true) (a : Text) :
    ArgText d (c :: a) ↔ ArgText d a := by
  refine ⟨fun ha => ?_, .plain (isSpecial_of_isBlank h) (not_opensComment_of_isBlank h a)⟩
  generalize ht : c :: a = t at ha
  cases ha with
  | nil => cases ht
  | quoted hq ha =>
      obtain ⟨c', w, rfl, hc'⟩ := hq.exists_cons
      obtain rfl : c = c' := (List.cons.inj ht).1
      obtain rfl | rfl := (isBlank_iff c).mp h <;> cases hc'
  | opening | closing | comma =>
      obtain rfl := (List.cons.inj ht).1
      cases h
  | plain hc hopen ha =>
      obtain ⟨-, rfl⟩ := List.cons.inj ht
      exact ha

theorem argText_append_blank {d : Nat} {a : Text} (ha : ArgText d a) {b : Char} (h : isBlank b = true) :
    ArgText d (a ++ [b]) := by
  have hstar : b ≠ '*' := by rintro rfl; cases h
  have hdash : b ≠ '-' := by rintro rfl; cases h
  induction ha with
  | nil => exact (argText_blank_cons_iff h []).mpr .nil
  | quoted hq ha ih =>
      rw [List.append_assoc]
      exact .quoted hq ih
  | opening ha ih => exact .opening ih
  | closing ha ih => exact .closing ih
  | comma ha ih => exact .comma ih
  | plain hc hopen ha ih => exact .plain hc (mt (opensComment_append_iff _ _ [] hstar hdash).mp hopen) ih

theorem argText_of_append_blank {d : Nat} {a : Text} {b : Char} (h : isBlank b = true)
    (ha : ArgText d (a ++ [b])) : ArgText d a := by
  have hstar : b ≠ '*' := by rintro rfl; cases h
  have hdash : b ≠ '-' := by rintro rfl; cases h
  generalize ht : a ++ [b] = t at ha
  induction ha generalizing a with
  | nil => simp at ht
  | @quoted d q a' hq ha ih =>
      obtain rfl | ⟨w, b', rfl⟩ := a'.eq_nil_or_concat
      · obtain ⟨c, hlast, hc⟩ := hq.getLast?
        rw [List.append_nil] at ht
        rw [← ht, List.getLast?_concat] at hlast
        obtain rfl : b = c := Option.some.inj hlast
        obtain rfl | rfl := (isBlank_iff b).mp h <;> cases hc
      · rw [List.concat_eq_append, ← List.append_assoc] at ht
        obtain ⟨rfl, hb⟩ := List.append_inj' ht rfl
        exact .quoted hq (ih (by rw [hb, List.concat_eq_append]))
  | opening ha ih =>
      obtain ⟨rfl, hb⟩ | ⟨w, rfl, rfl⟩ := List.append_eq_cons_iff.mp ht
      · cases hb
        cases h
      · exact .opening (ih rfl)
  | closing ha ih =>
      obtain ⟨rfl, hb⟩ | ⟨w, rfl, rfl⟩ := List.append_eq_cons_iff.mp ht
      · cases hb
        cases h
      · exact .closing (ih rfl)
  | comma ha ih =>
      obtain ⟨rfl, hb⟩ | ⟨w, rfl, rfl⟩ := List.append_eq_cons_iff.mp ht
      · cases hb
        cases h
      · exact .comma (ih rfl)
  | plain hc hopen ha ih =>
      obtain ⟨rfl, hb⟩ | ⟨w, rfl, rfl⟩ := List.append_eq_cons_iff.mp ht
      · cases hb
        exact ha
      · exact .plain hc (mt (opensComment_append_iff _ _ [] hstar hdash).mpr hopen) (ih rfl)

theorem argText_trimBlanks_iff {d : Nat} (a : Text) : ArgText d (trimBlanks a) ↔ ArgText d a := by
  apply iff_of_eq
  refine trimBlanks_invariant (fun c a hc => propext (argText_blank_cons_iff hc a)) (fun a c hc => propext ?_) a
  exact ⟨argText_of_append_blank hc, fun ha => argText_append_blank ha hc⟩

theorem trimBlanks_eq_nil_iff (a : Text) : trimBlanks a = [] ↔ ∀ c ∈ a, isBlank c = true := by
  rw [trimBlanks, List.rdropWhile_eq_nil_iff]
  constructor
  · intro h
    by_contra hne
    have hdrop : a.dropWhile isBlank ≠ [] := fun hnil => hne (List.dropWhile_eq_nil_iff.mp hnil)
    have hhead := List.head_dropWhile_not isBlank hdrop
    rw [h _ (List.head_mem hdrop)] at hhead
    cases hhead
  · exact fun h c hc => h c ((List.dropWhile_sublist _).subset hc)

/-! ### The tokenizer -/

theorem finishArgs_eq_some_iff {done : List Text} {a : Text} {as tokens : List Text} :
    finishArgs done a as = some tokens ↔
      (∀ x ∈ a :: as, trimBlanks x ≠ []) ∧ tokens = done ++ (a :: as).map trimBlanks ∨
        done = [] ∧ as = [] ∧ trimBlanks a = [] ∧ tokens = [] := by
  induction as generalizing done a with
  | nil =>
      rw [finishArgs, eq_comm]
      by_cases ha : trimBlanks a = []
      · by_cases hdone : done = [] <;> simp [ha, hdone]
      · simp [ha]
  | cons a' as ih =>
      rw [finishArgs]
      by_cases ha : trimBlanks a = []
      · simp [ha]
      · simp [ha, ih]

variable (m : TextMatcher)

/-- The parenthesis that opens the list, then the loop. -/
theorem tokenizeText_ok_iff (hm : ∀ s, m.find s = .ok 0) (s : Text) (pos : Nat) (tokens : List Text) :
    MacroArgs.tokenizeText (argsTokenizer m) ('(' :: s) = .ok (pos, tokens) ↔
      ∃ a as rest, ArgsFrom 0 a as s rest ∧ finishArgs [] a as = some tokens ∧
        pos = 1 + s.length - rest.length := by
  have hnext : (argsTokenizer m).nextMatch 0 ('(' :: s) = .ok ⟨1, none⟩ :=
    (nextMatch_ok_iff m hm 0 '(' s _).mpr ⟨not_opensComment_of_isSpecial rfl _, .inl ⟨rfl, rfl⟩⟩
  have hfirst : ∀ pos' st', ((argsTokenizer m).processText ('(' :: s)).run {} = .ok pos' st' ↔
      ((argsTokenizer m).processFrom 0 1 s).run ⟨1, [[]]⟩ = .ok pos' st' := by
    intro pos' st'
    rw [TextProcessor.processText, MacroArgs.processFrom_ok_iff (p := argsTokenizer m) rfl, hnext]
    have hstep : ({} : MacroArgs).processMatch ('(' :: s) ⟨1, none⟩ = .ok (⟨1, [[]]⟩, ⟨1, false⟩) := rfl
    constructor
    · rintro ⟨found, st₁, r, hfound, hst, h⟩
      cases hfound
      cases hstep.symm.trans hst
      exact h
    · exact fun h => ⟨_, _, _, rfl, hstep, h⟩
  rw [MacroArgs.tokenizeText_eq_ok]
  simp only [hfirst]
  constructor
  · rintro ⟨st', h, rfl⟩
    obtain ⟨a, as, rest, hargs, hfinish⟩ : ∃ a as rest, ArgsFrom 0 a as s rest ∧
        finishArgs [] ([] ++ a) as = some st'.tokens := argsFrom_of_run m hm h
    refine ⟨a, as, rest, hargs, hfinish, ?_⟩
    have hrun := run_of_argsFrom m hm hargs 1 [] [] hfinish
    rw [List.nil_append, Nat.zero_add] at hrun
    exact (EStateM.Result.ok.inj (h.symm.trans hrun)).1
  · rintro ⟨a, as, rest, hargs, hfinish, rfl⟩
    exact ⟨_, run_of_argsFrom m hm hargs 1 [] [] hfinish, rfl⟩

/-- What the tokenizer takes from a text is an argument list. -/
theorem tokenizeText_argList_iff (hm : ∀ s, m.find s = .ok 0) (text : Text) (htext : text.head? = some '(')
    (pos : Nat) (tokens : List Text) :
    MacroArgs.tokenizeText (argsTokenizer m) text = .ok (pos, tokens) ↔
      ∃ a as rest, (∀ x ∈ a :: as, ArgText 0 x) ∧ text = argListText (a :: as) ++ rest ∧
        pos = (argListText (a :: as)).length ∧ finishArgs [] a as = some tokens := by
  obtain ⟨s, rfl⟩ : ∃ s, text = '(' :: s := List.head?_eq_some_iff.mp htext
  have hlist : ∀ (as : List Text) (rest : Text),
      argListText as ++ rest = '(' :: (List.intercalate [','] as ++ ')' :: rest) := by
    intro as rest
    rw [argListText, List.cons_append, List.append_assoc]
    rfl
  have hlen : ∀ (as : List Text) (rest : Text),
      1 + (List.intercalate [','] as ++ ')' :: rest).length - rest.length = (argListText as).length := by
    intro as rest
    simp only [argListText, List.length_cons, List.length_append, List.length_nil]
    omega
  rw [tokenizeText_ok_iff m hm]
  constructor
  · rintro ⟨a, as, rest, hargs, hfinish, rfl⟩
    obtain ⟨hall, rfl⟩ := argsFrom_iff.mp hargs
    exact ⟨a, as, rest, hall, (hlist _ _).symm, hlen _ _, hfinish⟩
  · rintro ⟨a, as, rest, hall, heq, rfl, hfinish⟩
    rw [hlist] at heq
    obtain rfl := (List.cons.inj heq).2
    exact ⟨a, as, rest, argsFrom_iff.mpr ⟨hall, rfl⟩, hfinish, (hlen _ _).symm⟩

/-- The tokenizer with the SQL quotes and comments and a matcher of the application that never matches
accepts exactly the argument lists of the grammar, yields their trimmed arguments and stops behind the
closing parenthesis, whatever follows it. -/
theorem macroArgs_accepts_iff (hm : ∀ s, m.find s = .ok 0) (text : Text) (htext : text.head? = some '(')
    (pos : Nat) (tokens : List Text) :
    MacroArgs.tokenizeText (argsTokenizer m) text = .ok (pos, tokens) ↔
      (∃ as rest, as ≠ [] ∧ (∀ a ∈ as, WellFormedArg a) ∧ text = argListText as ++ rest ∧
        tokens = as.map trimBlanks ∧ pos = (argListText as).length) ∨
      ∃ blanks rest, (∀ c ∈ blanks, isBlank c = true) ∧ text = '(' :: (blanks ++ ')' :: rest) ∧
        tokens = [] ∧ pos = blanks.length + 2 := by
  have hblanks : ∀ blanks rest : Text, argListText [blanks] ++ rest = '(' :: (blanks ++ ')' :: rest) ∧
      (argListText [blanks]).length = blanks.length + 2 := by
    intro blanks rest
    simp [argListText]
  rw [tokenizeText_argList_iff m hm text htext]
  simp only [finishArgs_eq_some_iff]
  constructor
  · rintro ⟨a, as, rest, hargs, htext, hpos, ⟨hne, rfl⟩ | ⟨-, rfl, ha, rfl⟩⟩
    · refine .inl ⟨a :: as, rest, List.cons_ne_nil _ _, fun x hx => ⟨hne x hx, ?_⟩, htext, rfl, hpos⟩
      exact (argText_trimBlanks_iff x).mpr (hargs x hx)
    · rw [(hblanks a rest).1] at htext
      rw [(hblanks a rest).2] at hpos
      exact .inr ⟨a, rest, (trimBlanks_eq_nil_iff a).mp ha, htext, rfl, hpos⟩
  · rintro (⟨as, rest, hne, hargs, htext, rfl, hpos⟩ | ⟨blanks, rest, hblank, htext, rfl, hpos⟩)
    · obtain ⟨a, as, rfl⟩ := List.exists_cons_of_ne_nil hne
      exact ⟨a, as, rest, fun x hx => (argText_trimBlanks_iff x).mp (hargs x hx).2, htext, hpos,
        .inl ⟨fun x hx => (hargs x hx).1, rfl⟩⟩
    · have hnil : trimBlanks blanks = [] := (trimBlanks_eq_nil_iff blanks).mpr hblank
      rw [← (hblanks blanks rest).1] at htext
      rw [← (hblanks blanks rest).2] at hpos
      refine ⟨blanks, [], rest, fun x hx => ?_, htext, hpos, .inr ⟨trivial, rfl, hnil, rfl⟩⟩
      obtain rfl := List.mem_singleton.mp hx
      rw [← argText_trimBlanks_iff, hnil]
      exact .nil

/-- A quoted parenthesis closes nothing, and a text behind the list is not read. -/
theorem macroArgs_accepts_quoted_parenthesis :
    MacroArgs.tokenizeText (argsTokenizer ⟨fun _ => .ok 0, []⟩) "(a, ')') b".toList =
      .ok (8, ["a".toList, "')'".toList]) := by
  have hquoted : SqlQuoted "')'".toList :=
    .inl ⟨")'".toList, rfl, .plain (by decide) (by decide) (.close (by decide))⟩
  refine (macroArgs_accepts_iff ⟨fun _ => .ok 0, []⟩ (fun _ => rfl) "(a, ')') b".toList rfl _ _).mpr
    (.inl ⟨["a".toList, " ')'".toList], " b".toList, by decide, ?_, by decide, by decide, by decide⟩)
  simp only [List.forall_mem_cons, List.not_mem_nil, false_imp_iff, implies_true, and_true]
  have hopen : ¬ OpensComment "a".toList := not_opensComment_of_ne (by decide) (by decide) _
  exact ⟨⟨by decide, .plain (by decide) hopen .nil⟩, by decide, .quoted hquoted .nil⟩

end Middle.NormalDdl
