import Middle.Lib.Concatenation
import Middle.NormalDdl.MacroFaults

/-! Rewriting the arguments of a macro is substitution. A rewrite is taken as a list of items, an item as literal
characters, quoted segments and placeholders; the scan of its text puts the arguments in the places of the
placeholders, and reads none of them again. -/

namespace Middle.NormalDdl

open Lib Lib.Concatenation Universals

/-! ### Placeholders -/

/-- What a placeholder goes on with if it can: another digit, or the dash of a range. -/
def goesOnNumber (c : Char) : Bool := c.isDigit || c = '-'

theorem castDigits_lexicalCast {n : Nat} (h : n < 2 ^ 32) : castDigits (lexicalCast n) = .ok n := by
  have hfold : (lexicalCast n).foldl (fun n c => 10 * n + (c.toNat - '0'.toNat)) 0 = n := by
    change (n.repr.toList).foldl _ 0 = n
    rw [Nat.toList_repr, ← Nat.ofDigitChars_eq_foldl]
    exact Nat.ofDigitChars_ten_toDigits
  unfold castDigits
  dsimp only
  rw [hfold, if_pos h]

/-- A number is printed without a leading zero. -/
theorem head_lexicalCast {n : Nat} (h : 0 < n) : (lexicalCast n).head? ≠ some '0' := by
  change (n.repr.toList).head? ≠ some '0'
  rw [Nat.toList_repr]
  induction n using Nat.strong_induction_on with
  | _ n ih =>
      rw [Nat.toDigits_eq_if (by decide)]
      split
      · rename_i hlt
        have hdigit : ∀ k < 10, 0 < k → [Nat.digitChar k].head? ≠ some '0' := by decide
        exact hdigit n hlt h
      · rename_i hge
        rw [List.head?_append_of_ne_nil _ Nat.toDigits_ne_nil]
        exact ih (n / 10) (Nat.div_lt_self h (by decide)) (Nat.div_pos (Nat.not_lt.mp hge) (by decide))

theorem lexicalCast_ne_nil (n : Nat) : lexicalCast n ≠ [] := by
  change n.repr.toList ≠ []
  rw [Nat.toList_repr]
  exact Nat.toDigits_ne_nil

theorem numberOf_lexicalCast {n : Nat} (hpos : 0 < n) (h : n < 2 ^ 32) : numberOf (lexicalCast n) = .ok n := by
  unfold numberOf
  rw [if_neg (head_lexicalCast hpos), if_neg (lexicalCast_ne_nil n), castDigits_lexicalCast h]

theorem rangeEndOf_lexicalCast {i j : Nat} (hij : i < j) (h : j < 2 ^ 32) (pos : Nat) :
    rangeEndOf i pos (lexicalCast j) = .ok j := by
  unfold rangeEndOf
  rw [if_neg (head_lexicalCast (Nat.zero_lt_of_lt hij)), if_neg (lexicalCast_ne_nil j), castDigits_lexicalCast h]
  dsimp only
  rw [if_neg (fun h => absurd h.2 (Nat.not_le.mpr hij))]

/-! ### Items of a rewrite -/

inductive TemplatePiece where
  | literal (c : Char)
  | quoted (q : Text)
  | placeholder (i : Nat)
  | range (i j : Nat)
  deriving DecidableEq

/-- An item of a rewrite between its commas. -/
abbrev TemplateItem := List TemplatePiece

namespace TemplatePiece

/-- The backslash that closes a placeholder in front of a character that it would go on with. -/
def closing (goesOn : Char → Bool) : TemplateItem → Text
  | literal c :: _ => if goesOn c then ['\\'] else []
  | _ => []

/-- A piece as it is written in front of others. -/
def text (behind : TemplateItem) : TemplatePiece → Text
  | literal c => [c]
  | quoted q => q
  | placeholder i => '$' :: (lexicalCast i ++ closing goesOnNumber behind)
  | range i j => '$' :: (lexicalCast i ++ '-' :: (lexicalCast j ++ closing Char.isDigit behind))

/-- What becomes of a piece, given the arguments. -/
def subst (tokens : List Text) : TemplatePiece → Text
  | literal c => [c]
  | quoted q => q
  | placeholder i => tokens.getD (i - 1) []
  | range i j => List.intercalate ", ".toList ((tokens.drop (i - 1)).take (j - i + 1))

def isBlank : TemplatePiece → Bool
  | literal c => Universals.isBlank c
  | _ => false

end TemplatePiece

namespace TemplateItem

def text : TemplateItem → Text
  | [] => []
  | piece :: pieces => piece.text pieces ++ text pieces

def subst (tokens : List Text) (item : TemplateItem) : Text := item.flatMap (TemplatePiece.subst tokens)

/-- An item without the blanks around it. -/
def trim (item : TemplateItem) : TemplateItem :=
  (item.dropWhile TemplatePiece.isBlank).rdropWhile TemplatePiece.isBlank

/-- The rest of an item begun inside `d` parentheses of its own: these get closed, commas stand inside
parentheses only, no comment opens, quotes are closed, and the placeholders are those of `n` arguments. -/
inductive WellFormed (n : Nat) : Nat → TemplateItem → Prop
  | nil : WellFormed n 0 []
  | quoted {d : Nat} {q : Text} {item : TemplateItem} (hq : SqlQuoted q) (h : WellFormed n d item) :
      WellFormed n d (.quoted q :: item)
  | opening {d : Nat} {item : TemplateItem} (h : WellFormed n (d + 1) item) :
      WellFormed n d (.literal '(' :: item)
  | closing {d : Nat} {item : TemplateItem} (h : WellFormed n d item) :
      WellFormed n (d + 1) (.literal ')' :: item)
  | comma {d : Nat} {item : TemplateItem} (h : WellFormed n (d + 1) item) :
      WellFormed n (d + 1) (.literal ',' :: item)
  | plain {d : Nat} {c : Char} {item : TemplateItem} (hc : isSpecial c = false) (hdollar : c ≠ '$')
      (hescape : c ≠ '\\') (hopen : ¬ OpensComment (c :: item.text)) (h : WellFormed n d item) :
      WellFormed n d (.literal c :: item)
  | placeholder {d i : Nat} {item : TemplateItem} (hpos : 1 ≤ i) (hle : i ≤ n) (h : WellFormed n d item) :
      WellFormed n d (.placeholder i :: item)
  | range {d i j : Nat} {item : TemplateItem} (hpos : 1 ≤ i) (hlt : i < j) (hle : j ≤ n)
      (h : WellFormed n d item) : WellFormed n d (.range i j :: item)

end TemplateItem

/-- What may stand behind an item, and what an item starts with: only a literal goes on with a placeholder, and
a closing backslash stands in front of it. -/
theorem exists_closing {n d : Nat} {item : TemplateItem} (h : item.WellFormed n d) {sep : Char} (rest : Text)
    (hsep : sep = ',' ∨ sep = ')') (goesOn : Char → Bool) (hgoesOn : ∀ c, goesOn c = true → goesOnNumber c = true) :
    ∃ c s, item.text ++ sep :: rest = c :: s ∧ c ≠ '\\' ∧
      TemplatePiece.closing goesOn item = if goesOn c then ['\\'] else [] := by
  have hno : ∀ c, goesOnNumber c = false → [] = if goesOn c then ['\\'] else ([] : Text) := by
    intro c hc
    rw [if_neg (fun h => absurd (hgoesOn c h) (by rw [hc]; decide))]
  cases h with
  | nil =>
      refine ⟨sep, rest, rfl, ?_, ?_⟩
      · rintro rfl
        exact absurd hsep (by decide)
      · obtain rfl | rfl := hsep
        · exact hno _ (by decide)
        · exact hno _ (by decide)
  | @quoted _ q item hq h =>
      obtain ⟨c, w, rfl, hc⟩ := hq.exists_cons
      refine ⟨c, w ++ item.text ++ sep :: rest, rfl, ?_, ?_⟩
      · rintro rfl
        exact absurd hc (by decide)
      · have hquote : c = '\'' ∨ c = '"' := by simpa [isQuote] using hc
        obtain rfl | rfl := hquote
        · exact hno _ (by decide)
        · exact hno _ (by decide)
  | opening h => exact ⟨'(', _, rfl, by decide, rfl⟩
  | closing h => exact ⟨')', _, rfl, by decide, rfl⟩
  | comma h => exact ⟨',', _, rfl, by decide, rfl⟩
  | plain hc hdollar hescape hopen h => exact ⟨_, _, rfl, hescape, rfl⟩
  | placeholder hpos hle h => exact ⟨'$', _, rfl, by decide, hno _ (by decide)⟩
  | range hpos hlt hle h => exact ⟨'$', _, rfl, by decide, hno _ (by decide)⟩

/-! ### Reading a placeholder -/

/-- What stands in front of the closing backslash, if there is one. -/
theorem closingBackslash_closing (goesOn : Char → Bool) {c : Char} (hc : c ≠ '\\') (s : Text) :
    closingBackslash goesOn ((if goesOn c then ['\\'] else []) ++ c :: s) =
      (if goesOn c then ['\\'] else ([] : Text)).length := by
  cases hgoesOn : goesOn c with
  | true => simp [closingBackslash, hgoesOn]
  | false =>
      rw [closingBackslash.eq_def]
      split
      · rename_i heq
        exact absurd (List.cons.inj heq).1 hc
      · rfl

theorem digitsBefore_closing {i : Nat} {goesOn : Char → Bool} {c : Char} {s : Text}
    (hgoesOn : c.isDigit = true → goesOn c = true) :
    DigitsBefore (lexicalCast i) ((if goesOn c then ['\\'] else []) ++ c :: s) where
  digits _ := isDigit_of_mem_lexicalCast
  rest c' hc' := by
    cases h : goesOn c with
    | true =>
        rw [h] at hc'
        obtain rfl := Option.some.inj hc'
        decide
    | false =>
        rw [h] at hc'
        obtain rfl := Option.some.inj hc'
        exact Bool.eq_false_iff.mpr fun hdigit => by simp [hgoesOn hdigit] at h

section Reading

variable {n d : Nat} {item : TemplateItem} (h : item.WellFormed n d) {sep : Char} (rest : Text)
  (hsep : sep = ',' ∨ sep = ')')

include h hsep in
theorem parse_placeholder {i : Nat} (hpos : 1 ≤ i) (hi : i < 2 ^ 32) :
    parseMacroArgsPlaceholder ((TemplatePiece.placeholder i).text item ++ (item.text ++ sep :: rest)) =
      .ok (((TemplatePiece.placeholder i).text item).length, some ⟨i, i⟩) := by
  obtain ⟨c, s, hs, hc, hclosing⟩ := exists_closing h rest hsep goesOnNumber fun _ h => h
  have hdigit : c.isDigit = true → goesOnNumber c = true := by
    intro hdigit
    rw [goesOnNumber, hdigit, Bool.true_or]
  have hend : parsePlaceholderEnd i (1 + (lexicalCast i).length)
        ((if goesOnNumber c then ['\\'] else []) ++ c :: s) =
      .ok (1 + (lexicalCast i).length + closingBackslash goesOnNumber
        ((if goesOnNumber c then ['\\'] else []) ++ c :: s), some ⟨i, i⟩) := by
    rw [parsePlaceholderEnd.eq_def]
    split
    · rename_i s' heq
      cases hgoesOn : goesOnNumber c with
      | true =>
          rw [hgoesOn] at heq
          cases heq
      | false =>
          rw [hgoesOn] at heq
          cases heq
          exact absurd hgoesOn (by decide)
    · rfl
  rw [hs]
  unfold TemplatePiece.text
  rw [hclosing, List.cons_append, List.append_assoc, parseMacroArgsPlaceholder_dollar (digitsBefore_closing hdigit),
    numberOf_lexicalCast hpos hi]
  dsimp only
  rw [hend, closingBackslash_closing _ hc, List.length_cons, List.length_append]
  congr 2
  omega

include h hsep in
theorem parse_range {i j : Nat} (hpos : 1 ≤ i) (hlt : i < j) (hj : j < 2 ^ 32) :
    parseMacroArgsPlaceholder ((TemplatePiece.range i j).text item ++ (item.text ++ sep :: rest)) =
      .ok (((TemplatePiece.range i j).text item).length, some ⟨i, j⟩) := by
  have hnumber : ∀ c, c.isDigit = true → goesOnNumber c = true := by
    intro c hdigit
    rw [goesOnNumber, hdigit, Bool.true_or]
  obtain ⟨c, s, hs, hc, hclosing⟩ := exists_closing h rest hsep Char.isDigit hnumber
  have hdash : DigitsBefore (lexicalCast i)
      ('-' :: (lexicalCast j ++ ((if c.isDigit then ['\\'] else []) ++ c :: s))) :=
    ⟨fun _ => isDigit_of_mem_lexicalCast, fun c hc => by obtain rfl := Option.some.inj hc; decide⟩
  have hbefore : DigitsBefore (lexicalCast j) ((if c.isDigit then ['\\'] else []) ++ c :: s) :=
    digitsBefore_closing fun hdigit => hdigit
  rw [hs]
  unfold TemplatePiece.text
  rw [hclosing, List.cons_append, List.append_assoc, List.cons_append, List.append_assoc,
    parseMacroArgsPlaceholder_dollar hdash, numberOf_lexicalCast hpos (hlt.trans hj)]
  change parsePlaceholderRangeEnd i (1 + (lexicalCast i).length + 1) _ = _
  rw [parsePlaceholderRangeEnd_eq hbefore, rangeEndOf_lexicalCast hlt hj]
  dsimp only
  rw [closingBackslash_closing _ hc, List.length_cons, List.length_append, List.length_cons, List.length_append]
  congr 2
  omega

end Reading

/-! ### Turns of the scan -/

section Scan

variable {n : Nat} {hook : Text → Except Fault Text}

/-- A turn that takes a span and does not end the scan. -/
theorem rewriter_turn {pos : Nat} {w s : Text} {st st₁ : MacroArgs} {m : TextMatch} (hne : w ≠ [])
    (hnext : (rewriter n hook).nextMatch pos (w ++ s) = .ok m)
    (hstep : MacroArgsRewriter.processMatch hook st (w ++ s) m = .ok (st₁, ⟨w.length, false⟩)) :
    ((rewriter n hook).processFrom 0 pos (w ++ s)).run st =
      ((rewriter n hook).processFrom 0 (pos + w.length) s).run st₁ := by
  obtain ⟨c, w, rfl⟩ := List.exists_cons_of_ne_nil hne
  rw [List.cons_append] at hnext hstep ⊢
  rw [TextProcessor.run_processFrom_zero_cons, hnext]
  dsimp only
  rw [MacroArgs.run_processMatch (p := rewriter n hook) rfl, hstep]
  dsimp only
  have hlen : (c :: w).length ≤ (w ++ s).length + 1 := by
    rw [List.length_cons, List.length_append]
    omega
  have hpos : 0 < (c :: w).length := Nat.succ_pos _
  rw [if_neg (by decide), TextProcessor.processFrom_pred (c := c) (rewriter n hook) hpos hlen,
    ← List.cons_append, List.drop_left]

theorem rewriter_nextMatch {pos len : Nat} {c : Char} {s : Text} (hopen : ¬ OpensComment (c :: s))
    (hquote : isQuote c = false) (hfind : MacroArgsRewriter.find n (c :: s) = .ok len) :
    (rewriter n hook).nextMatch pos (c :: s) = .ok (if len = 0 then ⟨1, none⟩ else ⟨len, some .app⟩) := by
  simp only [TextProcessor.nextMatch, rewriter, sqlMacroArgsExpander, MacroArgs.processor,
    (firstMatch_reject_iff (c :: s)).mpr hopen, firstMatch_mask_of_not_isQuote hquote, hfind]

theorem rewriter_nextMatch_quoted {pos : Nat} {q : Text} (hq : SqlQuoted q) (s : Text) :
    (rewriter n hook).nextMatch pos (q ++ s) = .ok ⟨q.length, some .mask⟩ := by
  have hopen : ¬ OpensComment (q ++ s) := by
    obtain ⟨c, w, rfl, hc⟩ := hq.exists_cons
    exact not_opensComment_of_isSpecial (by simp [isSpecial, hc]) _
  obtain ⟨m, hmask⟩ := firstMatch_mask_of_quoted hq s
  simp only [TextProcessor.nextMatch, rewriter, sqlMacroArgsExpander, MacroArgs.processor,
    (firstMatch_reject_iff (q ++ s)).mpr hopen, hmask]

theorem parse_of_plain {c : Char} (hdollar : c ≠ '$') (hescape : c ≠ '\\') (s : Text) :
    parseMacroArgsPlaceholder (c :: s) = .ok (0, none) := by
  rw [parseMacroArgsPlaceholder.eq_def]
  split
  · rename_i heq
    cases heq
  · rename_i heq
    exact absurd (List.cons.inj heq).1 hescape
  · rename_i heq
    exact absurd (List.cons.inj heq).1 hdollar
  · rfl

theorem find_of_plain {c : Char} (hdollar : c ≠ '$') (hescape : c ≠ '\\') (s : Text) :
    MacroArgsRewriter.find n (c :: s) = .ok 0 := by
  rw [MacroArgsRewriter.find, parse_of_plain hdollar hescape]

theorem rewriter_nextMatch_plain {pos : Nat} {c : Char} {s : Text} (hopen : ¬ OpensComment (c :: s))
    (hquote : isQuote c = false) (hdollar : c ≠ '$') (hescape : c ≠ '\\') :
    (rewriter n hook).nextMatch pos (c :: s) = .ok ⟨1, none⟩ := by
  rw [rewriter_nextMatch hopen hquote (find_of_plain hdollar hescape s), if_pos rfl]

/-- A character that is not matched is treated as in a list of arguments. -/
theorem rewriter_processMatch_plain {d : Nat} {done : List Text} {cur s : Text} {st₁ : MacroArgs}
    {r : ProcessMatchResult} (h : MacroArgs.plainChar ⟨d + 1, done ++ [cur]⟩ s = .ok (st₁, r))
    (htokens : r.atMatchesEnd = false → st₁.tokens ≠ []) :
    MacroArgsRewriter.processMatch hook ⟨d + 1, done ++ [cur]⟩ s ⟨1, none⟩ = .ok (st₁, r) := by
  unfold MacroArgsRewriter.processMatch
  rw [MacroArgs.processMatch_plain, h]
  dsimp only
  cases hend : r.atMatchesEnd with
  | true => rw [if_pos rfl]
  | false => rw [if_neg (by decide), if_neg (htokens hend), if_neg (fun h => by cases h.1)]

theorem rewriter_processMatch_mask {d len : Nat} {done : List Text} {cur s : Text} (hlen : len ≠ 0) :
    MacroArgsRewriter.processMatch hook ⟨d + 1, done ++ [cur]⟩ s ⟨len, some .mask⟩ =
      .ok (⟨d + 1, done ++ [cur ++ s.take len]⟩, ⟨len, false⟩) := by
  unfold MacroArgsRewriter.processMatch
  rw [MacroArgs.processMatch_of_matched _ _ _ _ hlen]
  dsimp only
  rw [if_neg (by decide), if_neg (by simp), if_neg (fun h => by cases h.1)]

/-- The parenthesis that opens the list. -/
theorem run_open (s : Text) :
    ((rewriter n hook).processText ('(' :: s)).run {} = ((rewriter n hook).processFrom 0 1 s).run ⟨1, [[]]⟩ := by
  have hnext : (rewriter n hook).nextMatch 0 ('(' :: s) = .ok ⟨1, none⟩ :=
    rewriter_nextMatch_plain (not_opensComment_of_isSpecial rfl _) rfl (by decide) (by decide)
  exact rewriter_turn (w := ['(']) (List.cons_ne_nil _ _) hnext rfl

/-- A placeholder is put at the end of the item and replaced there. -/
theorem rewriter_processMatch_app {d : Nat} {done : List Text} {cur w s rewritten : Text} (hne : w ≠ [])
    (hhead : w.head? ≠ some '(') (hhook : hook w = .ok rewritten) :
    MacroArgsRewriter.processMatch hook ⟨d + 1, done ++ [cur]⟩ (w ++ s) ⟨w.length, some .app⟩ =
      .ok (⟨d + 1, done ++ [cur ++ rewritten]⟩, ⟨w.length, false⟩) := by
  have happend : MacroArgs.processMatch ⟨d + 1, done ++ [cur]⟩ (w ++ s) ⟨w.length, some .app⟩ =
      .ok (⟨d + 1, done ++ [cur ++ w]⟩, ⟨w.length, false⟩) := by
    rw [MacroArgs.processMatch_of_matched _ _ _ _ (List.length_pos_iff.mpr hne).ne', List.take_left]
  have happ : (w ++ s).head? ≠ some '(' := by
    rw [List.head?_append_of_ne_nil _ hne]
    exact hhead
  unfold MacroArgsRewriter.processMatch
  rw [happend]
  dsimp only
  rw [if_neg (by decide), if_neg (by simp), if_pos ⟨rfl, happ⟩, List.take_left, hhook]
  dsimp only
  rw [modifyBack_concat, List.length_append, Nat.add_sub_cancel, List.take_left]

theorem run_quoted {d pos : Nat} {q : Text} (hq : SqlQuoted q) (s : Text) (done : List Text) (cur : Text) :
    ((rewriter n hook).processFrom 0 pos (q ++ s)).run ⟨d + 1, done ++ [cur]⟩ =
      ((rewriter n hook).processFrom 0 (pos + q.length) s).run ⟨d + 1, done ++ [cur ++ q]⟩ := by
  have hstep : MacroArgsRewriter.processMatch hook ⟨d + 1, done ++ [cur]⟩ (q ++ s) ⟨q.length, some .mask⟩ = _ :=
    rewriter_processMatch_mask hq.length_pos.ne'
  rw [List.take_left] at hstep
  exact rewriter_turn (List.ne_nil_of_length_pos hq.length_pos) (rewriter_nextMatch_quoted hq s) hstep

/-- A placeholder gives way to what the rewriter makes of it. -/
theorem run_read {d pos : Nat} {c : Char} {w s rewritten : Text} {done : List Text} {cur : Text} (hc : c ≠ '(')
    (hnext : (rewriter n hook).nextMatch pos (c :: (w ++ s)) = .ok ⟨w.length + 1, some .app⟩)
    (hhook : hook (c :: w) = .ok rewritten) :
    ((rewriter n hook).processFrom 0 pos (c :: (w ++ s))).run ⟨d + 1, done ++ [cur]⟩ =
      ((rewriter n hook).processFrom 0 (pos + (w.length + 1)) s).run ⟨d + 1, done ++ [cur ++ rewritten]⟩ :=
  have hnil : c :: w ≠ [] := List.cons_ne_nil _ _
  have hhead : (c :: w).head? ≠ some '(' := fun h => hc (Option.some.inj h)
  rewriter_turn (w := c :: w) hnil hnext (rewriter_processMatch_app hnil hhead hhook)

theorem plainChar_ok {d : Nat} {done : List Text} {cur s : Text} {st₁ : MacroArgs} {r : ProcessMatchResult}
    (h : MacroArgs.plainChar ⟨d + 1, done ++ [cur]⟩ s = .ok (st₁, r)) :
    r.len = 1 ∧ (r.atMatchesEnd = false → st₁.tokens ≠ []) := by
  simp only [MacroArgs.plainChar, MacroArgs.append, MacroArgs.closeArgs, MacroArgs.nextArg, modifyBack_concat,
    resize_succ] at h
  repeat' split at h
  all_goals first
    | (cases h; exact ⟨rfl, fun h => Bool.noConfusion h⟩)
    | (cases h; exact ⟨rfl, fun _ => List.append_ne_nil_of_right_ne_nil _ (List.cons_ne_nil _ _)⟩)
    | cases h

/-- A plain character is treated as in a list of arguments: the scan goes on behind it, or ends there. -/
theorem run_plain {d pos : Nat} {c : Char} {s : Text} {done : List Text} {cur : Text} {st₁ : MacroArgs}
    (hnext : (rewriter n hook).nextMatch pos (c :: s) = .ok ⟨1, none⟩)
    (hstep : MacroArgs.plainChar ⟨d + 1, done ++ [cur]⟩ (c :: s) = .ok (st₁, ⟨1, false⟩)) :
    ((rewriter n hook).processFrom 0 pos (c :: s)).run ⟨d + 1, done ++ [cur]⟩ =
      ((rewriter n hook).processFrom 0 (pos + 1) s).run st₁ :=
  rewriter_turn (w := [c]) (List.cons_ne_nil c []) hnext
    (rewriter_processMatch_plain hstep (plainChar_ok hstep).2)

theorem run_plain_end {d pos : Nat} {c : Char} {s : Text} {done : List Text} {cur : Text} {st₁ : MacroArgs}
    (hnext : (rewriter n hook).nextMatch pos (c :: s) = .ok ⟨1, none⟩)
    (hstep : MacroArgs.plainChar ⟨d + 1, done ++ [cur]⟩ (c :: s) = .ok (st₁, ⟨1, true⟩)) :
    ((rewriter n hook).processFrom 0 pos (c :: s)).run ⟨d + 1, done ++ [cur]⟩ = .ok (pos + 1) st₁ := by
  rw [TextProcessor.run_processFrom_zero_cons, hnext]
  dsimp only
  rw [MacroArgs.run_processMatch (p := rewriter n hook) rfl,
    rewriter_processMatch_plain hstep fun h => Bool.noConfusion h]
  rfl

theorem nextMatch_closing {pos : Nat} (s : Text) : (rewriter n hook).nextMatch pos (')' :: s) = .ok ⟨1, none⟩ :=
  rewriter_nextMatch_plain (not_opensComment_of_isSpecial rfl _) rfl (by decide) (by decide)

theorem nextMatch_comma {pos : Nat} (s : Text) : (rewriter n hook).nextMatch pos (',' :: s) = .ok ⟨1, none⟩ :=
  rewriter_nextMatch_plain (not_opensComment_of_isSpecial rfl _) rfl (by decide) (by decide)

/-- The parenthesis behind the last item ends the scan. -/
theorem run_closing {pos : Nat} {s : Text} {done tokens : List Text} {cur : Text}
    (hfinish : finishArgs done cur [] = some tokens) :
    ((rewriter n hook).processFrom 0 pos (')' :: s)).run ⟨1, done ++ [cur]⟩ = .ok (pos + 1) ⟨0, tokens⟩ := by
  have hstep := plainChar_closing done cur s
  rw [hfinish] at hstep
  exact run_plain_end (nextMatch_closing s) hstep

theorem run_close {pos : Nat} {s : Text} {done : List Text} {cur : Text} (hcur : trimBlanks cur ≠ [] ∨ done = []) :
    ((rewriter n hook).processFrom 0 pos (')' :: s)).run ⟨1, done ++ [cur]⟩ =
      .ok (pos + 1) ⟨0, if trimBlanks cur = [] then [] else done ++ [trimBlanks cur]⟩ := by
  apply run_closing
  rw [finishArgs]
  by_cases hnil : trimBlanks cur = []
  · rw [if_pos hnil, if_pos (hcur.resolve_left (not_not.mpr hnil)), if_pos hnil]
  · rw [if_neg hnil, if_neg hnil]

/-- The comma behind an item. -/
theorem run_next {pos : Nat} {s : Text} {done : List Text} {cur : Text} (hcur : trimBlanks cur ≠ []) :
    ((rewriter n hook).processFrom 0 pos (',' :: s)).run ⟨1, done ++ [cur]⟩ =
      ((rewriter n hook).processFrom 0 (pos + 1) s).run ⟨1, done ++ [trimBlanks cur] ++ [[]]⟩ := by
  have hstep := plainChar_comma done cur s
  rw [if_neg hcur] at hstep
  exact run_plain (nextMatch_comma s) hstep

end Scan

/-! ### Substitution -/

theorem getElem_pred {tokens : List Text} {i : Nat} (hpos : 1 ≤ i) (hle : i ≤ tokens.length) :
    tokens[i - 1]? = some (tokens.getD (i - 1) []) := by
  have hlt : i - 1 < tokens.length := by omega
  rw [List.getElem?_eq_getElem hlt, List.getD_eq_getElem _ _ hlt]

/-- A placeholder of one argument becomes that argument. -/
theorem rewriteArgPlaceholder_placeholder {tokens : List Text} {i len : Nat} {span : Text} (hpos : 1 ≤ i)
    (hle : i ≤ tokens.length) (hparse : parseMacroArgsPlaceholder span = .ok (len, some ⟨i, i⟩)) :
    MacroArgsRewriter.rewriteArgPlaceholder tokens span =
      .ok ((TemplatePiece.placeholder i).subst tokens) := by
  unfold MacroArgsRewriter.rewriteArgPlaceholder
  rw [hparse]
  dsimp only
  rw [getElem_pred hpos hle]
  dsimp only
  rw [if_neg (by omega), if_neg (not_not.mpr (.inr ⟨le_rfl, hle⟩)), if_neg (lt_irrefl i)]
  rfl

theorem intercalate_eq_flatten (sep t : Text) (ts : List Text) :
    List.intercalate sep (t :: ts) = t ++ (ts.map (sep ++ ·)).flatten := by
  induction ts generalizing t with
  | nil => simp
  | cons t' ts ih =>
      rw [List.intercalate_cons_cons, ih, List.map_cons, List.flatten_cons]
      simp only [List.append_assoc]

/-- A placeholder of a range becomes its arguments with a comma and a blank between each two of them. -/
theorem rewriteArgPlaceholder_range {tokens : List Text} {i j len : Nat} {span : Text} (hpos : 1 ≤ i)
    (hlt : i < j) (hle : j ≤ tokens.length)
    (hparse : parseMacroArgsPlaceholder span = .ok (len, some ⟨i, j⟩)) :
    MacroArgsRewriter.rewriteArgPlaceholder tokens span = .ok ((TemplatePiece.range i j).subst tokens) := by
  have hi : i ≤ tokens.length := hlt.le.trans hle
  have hsubst : (TemplatePiece.range i j).subst tokens = tokens.getD (i - 1) [] ++
      (((tokens.drop i).take (j - i)).map (", ".toList ++ ·)).flatten := by
    have hpred : i - 1 < tokens.length := by omega
    change List.intercalate ", ".toList ((tokens.drop (i - 1)).take (j - i + 1)) = _
    rw [List.drop_eq_getElem_cons hpred, List.take_succ_cons, Nat.sub_add_cancel hpos, intercalate_eq_flatten,
      List.getD_eq_getElem _ _ hpred]
  unfold MacroArgsRewriter.rewriteArgPlaceholder
  rw [hparse, hsubst]
  dsimp only
  rw [getElem_pred hpos hi]
  dsimp only
  rw [if_neg (by omega), if_neg (not_not.mpr (.inr ⟨hlt.le, hle⟩)), if_pos hlt]

section Item

variable {tokens : List Text} (hn : tokens.length < 2 ^ 32)

/-- The scanner of a rewrite with the arguments at hand. -/
abbrev argsRewriter (tokens : List Text) : TextProcessor MacroArgs :=
  rewriter tokens.length (MacroArgsRewriter.rewriteArgPlaceholder tokens)

/-- A character of an item goes to its end. -/
theorem run_literal {d d' pos : Nat} {c : Char} {s : Text} {done : List Text} {cur : Text}
    (hquote : isQuote c = false) (hopen : ¬ OpensComment (c :: s)) (hdollar : c ≠ '$') (hescape : c ≠ '\\')
    (hstep : MacroArgs.plainChar ⟨d + 1, done ++ [cur]⟩ (c :: s) =
      .ok (⟨d' + 1, done ++ [cur ++ [c]]⟩, ⟨1, false⟩)) :
    ((argsRewriter tokens).processFrom 0 pos (c :: s)).run ⟨d + 1, done ++ [cur]⟩ =
      ((argsRewriter tokens).processFrom 0 (pos + 1) s).run ⟨d' + 1, done ++ [cur ++ [c]]⟩ := by
  have hnext : (argsRewriter tokens).nextMatch pos (c :: s) = .ok ⟨1, none⟩ :=
    rewriter_nextMatch_plain hopen hquote hdollar hescape
  exact run_plain hnext hstep

/-- A placeholder that is read becomes what it stands for. -/
theorem run_placeholder {d pos : Nat} {w s : Text} {ph : MacroArgsPlaceholder} {rewritten : Text}
    {done : List Text} {cur : Text} (hhead : w.head? = some '$')
    (hparse : parseMacroArgsPlaceholder (w ++ s) = .ok (w.length, some ph))
    (hle : ph.phNumber ≤ tokens.length) (hrangeEnd : ph.phRangeEnd ≤ tokens.length)
    (hrewrite : ∀ len span, parseMacroArgsPlaceholder span = .ok (len, some ph) →
      MacroArgsRewriter.rewriteArgPlaceholder tokens span = .ok rewritten) :
    ((argsRewriter tokens).processFrom 0 pos (w ++ s)).run ⟨d + 1, done ++ [cur]⟩ =
      ((argsRewriter tokens).processFrom 0 (pos + w.length) s).run ⟨d + 1, done ++ [cur ++ rewritten]⟩ := by
  obtain ⟨w, rfl⟩ : ∃ w', w = '$' :: w' := List.head?_eq_some_iff.mp hhead
  have hfind : MacroArgsRewriter.find tokens.length ('$' :: (w ++ s)) = .ok (w.length + 1) := by
    rw [MacroArgsRewriter.find, ← List.cons_append, hparse]
    dsimp only
    rw [if_neg]
    · rfl
    · omega
  have hopen : ¬ OpensComment ('$' :: (w ++ s)) := not_opensComment_of_ne (by decide) (by decide) _
  have hnext : (argsRewriter tokens).nextMatch pos ('$' :: (w ++ s)) = .ok ⟨w.length + 1, some .app⟩ := by
    rw [rewriter_nextMatch hopen rfl hfind, if_neg (Nat.succ_ne_zero _)]
  obtain ⟨len, hagain⟩ := parseMacroArgsPlaceholder_take hparse
  rw [List.take_left] at hagain
  exact run_read (by decide) hnext (hrewrite _ _ hagain)

theorem subst_cons (piece : TemplatePiece) (item : TemplateItem) :
    TemplateItem.subst tokens (piece :: item) = piece.subst tokens ++ item.subst tokens := List.flatMap_cons

include hn in
/-- Along an item the scan puts together what is to become of it. -/
theorem run_item {d : Nat} {item : TemplateItem} (h : item.WellFormed tokens.length d) {sep : Char}
    (rest : Text) (hsep : sep = ',' ∨ sep = ')') (pos : Nat) (done : List Text) (cur : Text) :
    ((argsRewriter tokens).processFrom 0 pos (item.text ++ sep :: rest)).run ⟨d + 1, done ++ [cur]⟩ =
      ((argsRewriter tokens).processFrom 0 (pos + item.text.length) (sep :: rest)).run
        ⟨1, done ++ [cur ++ item.subst tokens]⟩ := by
  -- the rest of the item behind a piece that has been put in its place
  have hbehind : ∀ {d' : Nat} {piece : TemplatePiece} {item : TemplateItem},
      (∀ (pos : Nat) (cur : Text),
        ((argsRewriter tokens).processFrom 0 pos (item.text ++ sep :: rest)).run ⟨d' + 1, done ++ [cur]⟩ =
          ((argsRewriter tokens).processFrom 0 (pos + item.text.length) (sep :: rest)).run
            ⟨1, done ++ [cur ++ item.subst tokens]⟩) →
      ∀ (pos : Nat) (cur : Text),
        ((argsRewriter tokens).processFrom 0 (pos + (piece.text item).length) (item.text ++ sep :: rest)).run
            ⟨d' + 1, done ++ [cur ++ piece.subst tokens]⟩ =
          ((argsRewriter tokens).processFrom 0 (pos + (TemplateItem.text (piece :: item)).length) (sep :: rest)).run
            ⟨1, done ++ [cur ++ TemplateItem.subst tokens (piece :: item)]⟩ := by
    intro d' piece item ih pos cur
    rw [ih, subst_cons, TemplateItem.text, List.length_append, ← Nat.add_assoc, List.append_assoc]
  induction h generalizing pos cur with
  | nil =>
      rw [TemplateItem.subst, List.flatMap_nil, List.append_nil]
      rfl
  | @quoted d q item hq h ih =>
      rw [← hbehind ih, TemplateItem.text, List.append_assoc]
      exact run_quoted hq _ done cur
  | opening h ih =>
      rw [← hbehind ih]
      exact run_literal rfl (not_opensComment_of_isSpecial rfl _) (by decide) (by decide)
        (plainChar_opening _ done cur _)
  | closing h ih =>
      rw [← hbehind ih]
      exact run_literal rfl (not_opensComment_of_isSpecial rfl _) (by decide) (by decide)
        (plainChar_closing_inner _ done cur _)
  | comma h ih =>
      rw [← hbehind ih]
      exact run_literal rfl (not_opensComment_of_isSpecial rfl _) (by decide) (by decide)
        (plainChar_comma_inner _ done cur _)
  | @plain d c item hc hdollar hescape hopen h ih =>
      rw [← hbehind ih]
      have hquote : isQuote c = false := by
        simp only [isSpecial, Bool.or_eq_false_iff] at hc
        exact hc.1.1.1
      have hstar : sep ≠ '*' ∧ sep ≠ '-' := by
        obtain rfl | rfl := hsep <;> decide
      exact run_literal hquote (mt (opensComment_append_iff c _ rest hstar.1 hstar.2).mp hopen) hdollar hescape
        (plainChar_other d done cur hc _)
  | @placeholder d i item hpos hle h ih =>
      rw [← hbehind ih, TemplateItem.text, List.append_assoc]
      exact run_placeholder rfl (parse_placeholder h rest hsep hpos (hle.trans_lt hn)) hle hle
        fun _ _ hparse => rewriteArgPlaceholder_placeholder hpos hle hparse
  | @range d i j item hpos hlt hle h ih =>
      rw [← hbehind ih, TemplateItem.text, List.append_assoc]
      exact run_placeholder rfl (parse_range h rest hsep hpos hlt (hle.trans_lt hn)) (hlt.le.trans hle) hle
        fun _ _ hparse => rewriteArgPlaceholder_range hpos hlt hle hparse

include hn in
/-- Along the items of a rewrite the scan puts together what is to become of each, trimmed. -/
theorem run_items {item : TemplateItem} {items : List TemplateItem}
    (hitems : ∀ x ∈ item :: items, x.WellFormed tokens.length 0)
    (hblank : ∀ x ∈ item :: items, trimBlanks (x.subst tokens) ≠ []) (pos : Nat) (done : List Text) :
    ∃ pos', ((argsRewriter tokens).processFrom 0 pos
        (List.intercalate [','] ((item :: items).map TemplateItem.text) ++ [')'])).run ⟨1, done ++ [[]]⟩ =
      .ok pos' ⟨0, done ++ (item :: items).map fun x => trimBlanks (x.subst tokens)⟩ := by
  induction items generalizing item pos done with
  | nil =>
      have hcur := hblank item List.mem_cons_self
      refine ⟨pos + item.text.length + 1, ?_⟩
      rw [List.map_singleton, List.intercalate_singleton,
        run_item hn (hitems item List.mem_cons_self) [] (.inr rfl), List.nil_append, run_close (.inl hcur),
        if_neg hcur]
      rfl
  | cons item' items ih =>
      obtain ⟨hitem, hrest⟩ := List.forall_mem_cons.mp hitems
      obtain ⟨hcur, hblanks⟩ := List.forall_mem_cons.mp hblank
      obtain ⟨pos', hrun⟩ := ih hrest hblanks (pos + item.text.length + 1) (done ++ [trimBlanks (item.subst tokens)])
      refine ⟨pos', ?_⟩
      rw [List.map_cons, List.map_cons, List.intercalate_cons_cons, List.append_assoc, List.append_assoc,
        List.singleton_append, run_item hn hitem _ (.inl rfl), List.nil_append, run_next hcur, ← List.map_cons, hrun,
        List.append_assoc]
      rfl

end Item

/-! ### Blanks around items -/

/-- A text with something else than a blank at both ends. -/
structure Edged (t : Text) : Prop where
  first : ∃ c s, t = c :: s ∧ isBlank c = false
  last : ∃ c s, t = s ++ [c] ∧ isBlank c = false

theorem edged_singleton {c : Char} (h : isBlank c = false) : Edged [c] := ⟨⟨c, [], rfl, h⟩, ⟨c, [], rfl, h⟩⟩

theorem Edged.append {s t : Text} (hs : Edged s) (ht : Edged t) (between : Text) : Edged (s ++ between ++ t) := by
  obtain ⟨⟨c, s', rfl, hc⟩, -⟩ := hs
  obtain ⟨-, ⟨c', t', rfl, hc'⟩⟩ := ht
  exact ⟨⟨c, _, rfl, hc⟩, ⟨c', c :: s' ++ between ++ t', by simp, hc'⟩⟩

theorem edged_trimBlanks {t : Text} (h : trimBlanks t ≠ []) : Edged (trimBlanks t) := by
  have hdrop : t.dropWhile isBlank ≠ [] := by
    intro hnil
    apply h
    rw [trimBlanks, hnil]
    rfl
  constructor
  · obtain ⟨c, s, hs⟩ := List.exists_cons_of_ne_nil h
    refine ⟨c, s, hs, ?_⟩
    have hstart : trimBlanks t <+: t.dropWhile isBlank := List.rdropWhile_prefix _ _
    have hhead := List.head_dropWhile_not isBlank hdrop
    rw [hs] at hstart
    obtain ⟨s', hs'⟩ := hstart
    simp only [← hs', List.cons_append, List.head_cons] at hhead
    exact hhead
  · refine ⟨(trimBlanks t).getLast h, (trimBlanks t).dropLast, (List.dropLast_append_getLast h).symm, ?_⟩
    exact Bool.eq_false_iff.mpr (List.rdropWhile_last_not isBlank _ h)

theorem edged_quoted {q : Text} (h : SqlQuoted q) : Edged q := by
  have hblank : ∀ c, isQuote c = true → isBlank c = false := by
    intro c hc
    have hquote : c = '\'' ∨ c = '"' := by simpa [isQuote] using hc
    obtain rfl | rfl := hquote <;> decide
  obtain ⟨c, w, hq, hc⟩ := h.exists_cons
  obtain ⟨c', hlast, hc'⟩ := h.getLast?
  obtain ⟨w', hw'⟩ := List.getLast?_eq_some_iff.mp hlast
  exact ⟨⟨c, w, hq, hblank c hc⟩, ⟨c', w', hw', hblank c' hc'⟩⟩

theorem edged_intercalate {ts : List Text} (hne : ts ≠ []) (h : ∀ t ∈ ts, Edged t) (sep : Text) :
    Edged (List.intercalate sep ts) := by
  induction ts with
  | nil => exact absurd rfl hne
  | cons t ts ih =>
      obtain ⟨ht, hts⟩ := List.forall_mem_cons.mp h
      cases ts with
      | nil =>
          rw [List.intercalate_singleton]
          exact ht
      | cons t' ts =>
          rw [List.intercalate_cons_cons]
          exact ht.append (ih (List.cons_ne_nil _ _) hts) sep

section Trim

variable {tokens : List Text} (htokens : ∀ t ∈ tokens, Edged t)

include htokens in
theorem edged_subst {d : Nat} {item : TemplateItem} (h : item.WellFormed tokens.length d) :
    ∀ piece ∈ item, piece.isBlank = false → Edged (piece.subst tokens) := by
  induction h with
  | nil => exact fun piece hpiece => absurd hpiece List.not_mem_nil
  | quoted hq h ih => exact List.forall_mem_cons.mpr ⟨fun _ => edged_quoted hq, ih⟩
  | opening h ih => exact List.forall_mem_cons.mpr ⟨edged_singleton, ih⟩
  | closing h ih => exact List.forall_mem_cons.mpr ⟨edged_singleton, ih⟩
  | comma h ih => exact List.forall_mem_cons.mpr ⟨edged_singleton, ih⟩
  | plain hc hdollar hescape hopen h ih => exact List.forall_mem_cons.mpr ⟨edged_singleton, ih⟩
  | @placeholder d i item hpos hle h ih =>
      refine List.forall_mem_cons.mpr ⟨fun _ => ?_, ih⟩
      exact htokens _ (List.mem_of_getElem? (getElem_pred hpos hle))
  | @range d i j item hpos hlt hle h ih =>
      refine List.forall_mem_cons.mpr ⟨fun _ => edged_intercalate ?_ ?_ _, ih⟩
      · have hlen : 0 < ((tokens.drop (i - 1)).take (j - i + 1)).length := by
          rw [List.length_take, List.length_drop]
          omega
        exact List.ne_nil_of_length_pos hlen
      · exact fun t ht => htokens t (List.mem_of_mem_drop (List.mem_of_mem_take ht))

include htokens in
/-- The blanks around an item are those around what becomes of it. -/
theorem trimBlanks_subst {d : Nat} {item : TemplateItem} (h : item.WellFormed tokens.length d) :
    trimBlanks (item.subst tokens) = item.trim.subst tokens := by
  have hedged := edged_subst htokens h
  have hblank : ∀ piece ∈ item, piece.isBlank = true → ∀ c ∈ piece.subst tokens, isBlank c = true := by
    intro piece _ hpiece c hc
    cases piece with
    | literal c' =>
        obtain rfl := List.mem_singleton.mp hc
        exact hpiece
    | quoted q => cases hpiece
    | placeholder i => cases hpiece
    | range i j => cases hpiece
  have hsub : ∀ piece ∈ item.dropWhile TemplatePiece.isBlank, piece ∈ item :=
    fun piece hpiece => (List.dropWhile_sublist _).subset hpiece
  unfold trimBlanks TemplateItem.subst TemplateItem.trim
  rw [dropWhile_flatMap hblank fun piece hpiece hb => (hedged piece hpiece hb).first,
    rdropWhile_flatMap (fun piece hpiece => hblank piece (hsub piece hpiece))
      fun piece hpiece hb => (hedged piece (hsub piece hpiece) hb).last]

include htokens in
theorem trimBlanks_subst_ne_nil {d : Nat} {item : TemplateItem} (h : item.WellFormed tokens.length d)
    {piece : TemplatePiece} (hpiece : piece ∈ item) (hblank : piece.isBlank = false) :
    trimBlanks (item.subst tokens) ≠ [] := by
  obtain ⟨⟨c, s, hs, hc⟩, -⟩ := edged_subst htokens h piece hpiece hblank
  intro hnil
  have hmem : c ∈ item.subst tokens := by
    apply List.mem_flatMap.mpr
    exact ⟨piece, hpiece, by rw [hs]; exact List.mem_cons_self⟩
  rw [(trimBlanks_eq_nil_iff _).mp hnil c hmem] at hc
  cases hc

end Trim

/-! ### The arguments of a call -/

theorem head_of_processMatch {s : Text} {m : TextMatch} {res : MacroArgs × ProcessMatchResult}
    (h : ({} : MacroArgs).processMatch s m = .ok res) : s.head? = some '(' := by
  unfold MacroArgs.processMatch at h
  split at h
  · cases h
  · rw [if_pos rfl] at h
    split at h
    · cases h
    · split at h
      · cases h
      · rename_i hhead
        exact not_not.mp hhead

/-- What the tokenizer yields for a call has no blanks around it. -/
theorem edged_of_tokenizeText {text : Text} {pos : Nat} {tokens : List Text}
    (h : MacroArgs.tokenizeText (argsTokenizer MacroArgsExpander.matcher) text = .ok (pos, tokens)) :
    ∀ t ∈ tokens, Edged t := by
  have hopen : text.head? = some '(' := by
    obtain ⟨st, hrun, -⟩ := MacroArgs.tokenizeText_eq_ok.mp h
    cases text with
    | nil => cases hrun
    | cons c s =>
        obtain ⟨m, st₁, r, -, hstep, -⟩ :=
          (MacroArgs.processFrom_ok_iff (p := argsTokenizer MacroArgsExpander.matcher) rfl).mp hrun
        exact head_of_processMatch hstep
  have hlist := tokenizeText_argList_iff MacroArgsExpander.matcher fun _ => rfl
  obtain ⟨a, as, rest, -, -, -, hfinish⟩ := (hlist text hopen pos tokens).mp h
  obtain ⟨hne, rfl⟩ | ⟨-, -, -, rfl⟩ := finishArgs_eq_some_iff.mp hfinish
  · intro t ht
    obtain ⟨x, hx, rfl⟩ := List.mem_map.mp ht
    exact edged_trimBlanks (hne x hx)
  · exact fun t ht => absurd ht List.not_mem_nil

theorem rewriteMacroArgs_items {tokens : List Text} (htokens : ∀ t ∈ tokens, Edged t)
    (hn : tokens.length < 2 ^ 32) {items : List TemplateItem}
    (hitems : ∀ item ∈ items, item.WellFormed tokens.length 0 ∧ ∃ piece ∈ item, piece.isBlank = false) :
    MacroArgsRewriter.rewriteMacroArgs ⟨tokens.length, argListText (items.map TemplateItem.text)⟩
        (MacroArgsRewriter.rewriteArgPlaceholder tokens) =
      .ok (items.map fun item => item.trim.subst tokens) := by
  have hwf : ∀ item ∈ items, item.WellFormed tokens.length 0 := fun item hitem => (hitems item hitem).1
  have hblank : ∀ item ∈ items, trimBlanks (item.subst tokens) ≠ [] := by
    intro item hitem
    obtain ⟨hitem, piece, hpiece, hb⟩ := hitems item hitem
    exact trimBlanks_subst_ne_nil htokens hitem hpiece hb
  have htrim : items.map (fun item => trimBlanks (item.subst tokens)) =
      items.map fun item => item.trim.subst tokens :=
    List.map_congr_left fun item hitem => trimBlanks_subst htokens (hwf item hitem)
  obtain ⟨pos, hrun⟩ : ∃ pos, ((argsRewriter tokens).processText (argListText (items.map TemplateItem.text))).run {} =
      .ok pos ⟨0, items.map fun item => trimBlanks (item.subst tokens)⟩ := by
    unfold argListText
    rw [run_open]
    cases items with
    | nil =>
        have hclose : ((argsRewriter tokens).processFrom 0 1 [')']).run ⟨1, [] ++ [[]]⟩ = _ := run_close (.inr rfl)
        exact ⟨2, hclose⟩
    | cons item items => exact run_items hn hwf hblank 1 []
  rw [htrim] at hrun
  exact rewriteMacroArgs_eq_ok.mpr ⟨pos, _, hrun, rfl⟩

/-- The rewrite of a call puts its arguments in the places of the placeholders, all at once. -/
theorem expandMacroArgs_subst {macroArgsText : Text} {pos : Nat} {tokens : List Text}
    (htokens : MacroArgs.tokenizeText (argsTokenizer MacroArgsExpander.matcher) macroArgsText = .ok (pos, tokens))
    (hn : tokens.length < 2 ^ 32) {items : List TemplateItem}
    (hitems : ∀ item ∈ items, item.WellFormed tokens.length 0 ∧ ∃ piece ∈ item, piece.isBlank = false) :
    MacroArgsExpander.expandMacroArgs ⟨tokens.length, argListText (items.map TemplateItem.text)⟩ macroArgsText =
      .ok ⟨pos, tokens.length,
        '(' :: (List.intercalate ", ".toList (items.map fun item => item.trim.subst tokens) ++ [')'])⟩ := by
  unfold MacroArgsExpander.expandMacroArgs
  rw [htokens]
  dsimp only
  unfold MacroArgsExpander.rewriteMacroArgs
  have hne : argListText (items.map TemplateItem.text) ≠ [] := List.cons_ne_nil _ _
  rw [if_neg hne, rewriteMacroArgs_items (edged_of_tokenizeText htokens) hn hitems]

/-- The items of `($2, x,$1-2\0)`. -/
def swapItems : List TemplateItem :=
  [[.placeholder 2], [.literal ' ', .literal 'x'], [.range 1 2, .literal '0']]

/-- An argument that looks like a placeholder is not taken for one. -/
theorem expandMacroArgs_subst_swap :
    MacroArgsExpander.expandMacroArgs ⟨2, "($2, x,$1-2\\0)".toList⟩ "($2, ')')".toList =
      .ok ⟨9, 2, "(')', x, $2, ')'0)".toList⟩ := by
  have htokens : MacroArgs.tokenizeText (argsTokenizer MacroArgsExpander.matcher) "($2, ')')".toList =
      .ok (9, ["$2".toList, "')'".toList]) := by decide +kernel
  have htext : argListText (swapItems.map TemplateItem.text) = "($2, x,$1-2\\0)".toList := by decide +kernel
  have hitems : ∀ item ∈ swapItems, item.WellFormed 2 0 ∧ ∃ piece ∈ item, piece.isBlank = false := by
    unfold swapItems
    simp only [List.forall_mem_cons, List.not_mem_nil, false_imp_iff, implies_true, and_true]
    refine ⟨⟨.placeholder (by decide) (by decide) .nil, by decide⟩, ⟨?_, by decide⟩, ⟨?_, by decide⟩⟩
    · refine .plain (by decide) (by decide) (by decide) ?_ (.plain (by decide) (by decide) (by decide) ?_ .nil)
      · exact not_opensComment_of_ne (by decide) (by decide) _
      · exact not_opensComment_of_ne (by decide) (by decide) _
    · refine .range (by decide) (by decide) (by decide) (.plain (by decide) (by decide) (by decide) ?_ .nil)
      exact not_opensComment_of_ne (by decide) (by decide) _
  rw [← htext]
  refine (expandMacroArgs_subst htokens (by decide) hitems).trans ?_
  decide +kernel

end Middle.NormalDdl
