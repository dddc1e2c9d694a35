import Middle.NormalDdl.RewriteGrammar

/-! What a rewrite means: a placeholder stands for the arguments of its range. The expander puts them in its
place, but of a range with an open end only the first argument. -/

namespace Middle.NormalDdl

open Lib Universals

/-! ### Text without its blanks -/

/-- What there is of a text but for blanks. -/
def nonblank (s : Text) : Text := s.filter fun c => !isBlank c

theorem nonblank_append (s t : Text) : nonblank (s ++ t) = nonblank s ++ nonblank t := List.filter_append s t

theorem nonblank_cons {c : Char} (hc : isBlank c = false) (s : Text) : nonblank (c :: s) = c :: nonblank s := by
  rw [nonblank, List.filter_cons, hc]
  rfl

theorem nonblank_trimBlanks (s : Text) : nonblank (trimBlanks s) = nonblank s := by
  apply trimBlanks_invariant
  · intro c s hc
    rw [nonblank, List.filter_cons, hc]
    rfl
  · intro s c hc
    rw [nonblank_append, nonblank, nonblank, List.filter_singleton, hc]
    exact List.append_nil _

theorem nonblank_eq_nil_iff (s : Text) : nonblank s = [] ↔ trimBlanks s = [] := by
  rw [trimBlanks_eq_nil_iff, nonblank, List.filter_eq_nil_iff]
  simp

theorem nonblank_ne_nil_of_edged {t : Text} (h : Edged t) : nonblank t ≠ [] := by
  obtain ⟨⟨c, s, rfl, hc⟩, -⟩ := h
  rw [nonblank_cons hc]
  exact List.cons_ne_nil _ _

theorem nonblank_flatMap {α : Type} (f : α → Text) (l : List α) :
    nonblank (l.flatMap f) = l.flatMap fun a => nonblank (f a) := by
  induction l with
  | nil => rfl
  | cons a l ih => rw [List.flatMap_cons, List.flatMap_cons, nonblank_append, ih]

theorem nonblank_intercalate (sep : Text) (ts : List Text) :
    nonblank (List.intercalate sep ts) = List.intercalate (nonblank sep) (ts.map nonblank) := by
  induction ts with
  | nil => rfl
  | cons t ts ih =>
      cases ts with
      | nil => simp only [List.intercalate_singleton, List.map_cons, List.map_nil]
      | cons t' ts =>
          rw [List.map_cons, List.map_cons, List.intercalate_cons_cons, List.intercalate_cons_cons, nonblank_append,
            nonblank_append, ih]
          rfl

/-- Of the comma and the blank between two arguments only the comma counts. -/
theorem nonblank_separator : nonblank ", ".toList = [','] := by decide

theorem length_intercalate (sep : Char) (ts : List Text) :
    (List.intercalate [sep] ts).length = (ts.map List.length).sum + (ts.length - 1) := by
  induction ts with
  | nil => rfl
  | cons t ts ih =>
      cases ts with
      | nil => simp
      | cons t' ts =>
          rw [List.intercalate_cons_cons, List.length_append, List.length_append, ih]
          simp only [List.map_cons, List.sum_cons, List.length_cons, List.length_nil]
          omega

/-! ### Meaning -/

/-- The arguments that a placeholder stands for. -/
def MacroArgsPlaceholder.args (tokens : List Text) (ph : MacroArgsPlaceholder) : List Text :=
  if ph.phRangeEnd = 0 then tokens.drop (ph.phNumber - 1)
  else (tokens.drop (ph.phNumber - 1)).take (ph.phRangeEnd - ph.phNumber + 1)

namespace RewritePiece

/-- What a piece stands for. -/
def meaning (tokens : List Text) : RewritePiece → Text
  | char c => [c]
  | quoted q => q
  | placeholder _ ph => List.intercalate ", ".toList (ph.args tokens)
  | escape => ['$']

/-- A placeholder with an open end in front of the last of `n` arguments. -/
def OpenBefore (n : Nat) : RewritePiece → Prop
  | placeholder _ ph => ph.phRangeEnd = 0 ∧ ph.phNumber < n
  | _ => False

end RewritePiece

/-- The list that is written for items, with `f` for what is written of a piece. -/
def argsTextOf (f : RewritePiece → Text) (items : List RewriteItem) : Text :=
  '(' :: (List.intercalate ", ".toList (items.map fun item => trimBlanks (item.flatMap f)) ++ [')'])

theorem nonblank_argsTextOf (f : RewritePiece → Text) (items : List RewriteItem) :
    nonblank (argsTextOf f items) =
      '(' :: (List.intercalate [','] (items.map fun item => nonblank (item.flatMap f)) ++ [')']) := by
  have hmap : (items.map fun item => trimBlanks (item.flatMap f)).map nonblank =
      items.map fun item => nonblank (item.flatMap f) := by
    rw [List.map_map]
    exact List.map_congr_left fun item _ => nonblank_trimBlanks _
  rw [argsTextOf, nonblank_cons (by decide), nonblank_append, nonblank_intercalate, nonblank_separator, hmap]
  rfl

theorem argsTextOf_congr {f g : RewritePiece → Text} {items : List RewriteItem}
    (h : ∀ item ∈ items, ∀ p ∈ item, f p = g p) : argsTextOf f items = argsTextOf g items := by
  have hitems : ∀ item ∈ items, trimBlanks (item.flatMap f) = trimBlanks (item.flatMap g) :=
    fun item hitem => congrArg trimBlanks (List.flatMap_congr (h item hitem))
  rw [argsTextOf, argsTextOf, List.map_congr_left hitems]

section Length

variable {f g : RewritePiece → Text} {items : List RewriteItem}

theorem length_nonblank_argsTextOf (f : RewritePiece → Text) (items : List RewriteItem) :
    (nonblank (argsTextOf f items)).length =
      (items.map fun item => (item.map fun p => (nonblank (f p)).length).sum).sum + (items.length - 1) + 2 := by
  have hitem : (items.map fun item => nonblank (item.flatMap f)).map List.length =
      items.map fun item => (item.map fun p => (nonblank (f p)).length).sum := by
    rw [List.map_map]
    apply List.map_congr_left
    intro item _
    rw [Function.comp_apply, nonblank_flatMap, List.length_flatMap]
  rw [nonblank_argsTextOf, List.length_cons, List.length_append, length_intercalate, hitem, List.length_map]
  rfl

/-- Where no piece is written longer, the list is not. -/
theorem length_nonblank_le (h : ∀ item ∈ items, ∀ p ∈ item, (nonblank (f p)).length ≤ (nonblank (g p)).length) :
    (nonblank (argsTextOf f items)).length ≤ (nonblank (argsTextOf g items)).length := by
  rw [length_nonblank_argsTextOf, length_nonblank_argsTextOf]
  have hsum := List.sum_le_sum fun item hitem => List.sum_le_sum (h item hitem)
  omega

/-- Where moreover a piece is written shorter, so is the list. -/
theorem length_nonblank_lt (h : ∀ item ∈ items, ∀ p ∈ item, (nonblank (f p)).length ≤ (nonblank (g p)).length)
    {item : RewriteItem} (hitem : item ∈ items) {p : RewritePiece} (hp : p ∈ item)
    (hlt : (nonblank (f p)).length < (nonblank (g p)).length) :
    (nonblank (argsTextOf f items)).length < (nonblank (argsTextOf g items)).length := by
  rw [length_nonblank_argsTextOf, length_nonblank_argsTextOf]
  have hsum := List.sum_lt_sum _ _ (fun item hitem => List.sum_le_sum (h item hitem))
    ⟨item, hitem, List.sum_lt_sum _ _ (h item hitem) ⟨p, hp, hlt⟩⟩
  omega

end Length

/-! ### Placeholders -/

section Placeholder

variable {tokens : List Text} {whole : Bool} {s s' : Text} {p : RewritePiece}

/-- The text of a placeholder is read as it was read in the rewrite. -/
theorem exists_parse_of_lexeme {n : Nat} {span : Text} {ph : MacroArgsPlaceholder}
    (h : Lexeme whole n s (.placeholder span ph) s') :
    (∃ len, parseMacroArgsPlaceholder span = .ok (len, some ph)) ∧ Within n (some ph) := by
  cases h with
  | placeholder hparse hwithin =>
      obtain ⟨len, hagain⟩ := parseMacroArgsPlaceholder_take hparse
      rw [List.take_left] at hagain
      exact ⟨⟨len, hagain⟩, hwithin⟩

/-- Of an open end only the first argument is taken. -/
theorem rewriteArgPlaceholder_open {span : Text} {len : Nat} {ph : MacroArgsPlaceholder}
    (hparse : parseMacroArgsPlaceholder span = .ok (len, some ph)) (hwithin : Within tokens.length (some ph))
    (hopen : ph.phRangeEnd = 0) :
    MacroArgsRewriter.rewriteArgPlaceholder tokens span = .ok (tokens.getD (ph.phNumber - 1) []) := by
  obtain ⟨hpos, -⟩ := bounds_of_parse hparse
  unfold MacroArgsRewriter.rewriteArgPlaceholder
  rw [hparse]
  dsimp only
  rw [getElem_pred hpos hwithin.1]
  dsimp only
  rw [if_neg (Nat.ne_of_gt hpos), if_neg (not_not.mpr (.inl hopen)), if_neg (by rw [hopen]; exact Nat.not_lt_zero _)]

theorem drop_pred {i : Nat} (hpos : 1 ≤ i) (hle : i ≤ tokens.length) :
    tokens.drop (i - 1) = tokens.getD (i - 1) [] :: tokens.drop i := by
  have hpred : i - 1 < tokens.length := by omega
  rw [List.drop_eq_getElem_cons hpred, List.getD_eq_getElem _ _ hpred, Nat.sub_add_cancel hpos]

/-- But for an escape and an open end in front of the last argument, a piece becomes what it stands for. -/
theorem rewrite_eq_meaning (h : Lexeme whole tokens.length s p s') (hescape : p ≠ .escape)
    (hopen : ¬ p.OpenBefore tokens.length) :
    p.rewrite (MacroArgsRewriter.rewriteArgPlaceholder tokens) = .ok (p.meaning tokens) := by
  cases p with
  | char c => rfl
  | quoted q => rfl
  | escape => exact absurd rfl hescape
  | placeholder span ph =>
      obtain ⟨⟨len, hparse⟩, hwithin⟩ := exists_parse_of_lexeme h
      obtain ⟨hpos, hrange⟩ := bounds_of_parse hparse
      obtain ⟨hle, hleEnd⟩ := hwithin
      have hmeaning : (RewritePiece.placeholder span ph).meaning tokens =
          List.intercalate ", ".toList (ph.args tokens) := rfl
      rw [hmeaning, MacroArgsPlaceholder.args]
      by_cases hzero : ph.phRangeEnd = 0
      · have hlast : ph.phNumber = tokens.length :=
          hle.antisymm (Nat.not_lt.mp fun hlt => hopen ⟨hzero, hlt⟩)
        have hend : tokens.drop ph.phNumber = [] := List.drop_eq_nil_of_le hlast.ge
        calc MacroArgsRewriter.rewriteArgPlaceholder tokens span
            = .ok (tokens.getD (ph.phNumber - 1) []) := rewriteArgPlaceholder_open hparse ⟨hle, hleEnd⟩ hzero
          _ = .ok (List.intercalate ", ".toList (tokens.drop (ph.phNumber - 1))) := by
              rw [drop_pred hpos hle, hend, List.intercalate_singleton]
          _ = .ok (List.intercalate ", ".toList (if ph.phRangeEnd = 0 then tokens.drop (ph.phNumber - 1)
                else (tokens.drop (ph.phNumber - 1)).take (ph.phRangeEnd - ph.phNumber + 1))) := by rw [if_pos hzero]
      · rw [if_neg hzero]
        obtain ⟨i, j⟩ := ph
        obtain hij | hij := (hrange.resolve_left hzero).eq_or_lt
        · obtain rfl : i = j := hij
          have hone : i - i + 1 = 1 := by omega
          rw [drop_pred hpos hle, hone, List.take_succ_cons, List.take_zero, List.intercalate_singleton]
          exact rewriteArgPlaceholder_placeholder hpos hle hparse
        · exact rewriteArgPlaceholder_range hpos hij hleEnd hparse

/-- An open end in front of the last argument becomes less than it stands for. -/
theorem rewrite_of_openBefore (h : Lexeme whole tokens.length s p s') (hopen : p.OpenBefore tokens.length) :
    ∃ w, p.rewrite (MacroArgsRewriter.rewriteArgPlaceholder tokens) = .ok w ∧
      (nonblank w).length < (nonblank (p.meaning tokens)).length := by
  cases p with
  | char c => exact absurd hopen id
  | quoted q => exact absurd hopen id
  | escape => exact absurd hopen id
  | placeholder span ph =>
      obtain ⟨⟨len, hparse⟩, hwithin⟩ := exists_parse_of_lexeme h
      obtain ⟨hpos, -⟩ := bounds_of_parse hparse
      obtain ⟨hzero, hlt⟩ := hopen
      refine ⟨_, rewriteArgPlaceholder_open hparse hwithin hzero, ?_⟩
      have hmeaning : (RewritePiece.placeholder span ph).meaning tokens =
          List.intercalate ", ".toList (ph.args tokens) := rfl
      obtain ⟨t, ts, hts⟩ := List.exists_cons_of_ne_nil (List.ne_nil_of_length_pos (by
        rw [List.length_drop]
        omega : 0 < (tokens.drop ph.phNumber).length))
      rw [hmeaning, MacroArgsPlaceholder.args, if_pos hzero, drop_pred hpos hwithin.1, hts, nonblank_intercalate,
        nonblank_separator, List.map_cons, List.map_cons, List.intercalate_cons_cons, List.length_append, List.length_append]
      exact Nat.lt_of_lt_of_le (Nat.lt_succ_self _) (Nat.le_add_right _ _)

/-- Nothing becomes of an escape. -/
theorem ne_escape_of_rewrite {w : Text} (h : p.rewrite (MacroArgsRewriter.rewriteArgPlaceholder tokens) = .ok w) :
    p ≠ .escape := by
  rintro rfl
  cases h

end Placeholder

/-! ### Blank pieces -/

section Blank

variable {whole : Bool} {n : Nat} {s s' : Text} {p : RewritePiece}

theorem nonblank_char_eq_nil_iff (c : Char) : nonblank [c] = [] ↔ isBlank c = true := by
  rw [nonblank, List.filter_singleton]
  cases isBlank c <;> simp

theorem nonblank_quoted_ne_nil {q : Text} (hq : SqlQuoted q) : nonblank q ≠ [] := nonblank_ne_nil_of_edged (edged_quoted hq)

theorem nonblank_text_eq_nil_iff (h : Lexeme whole n s p s') : nonblank p.text = [] ↔ p.isBlank = true := by
  cases h with
  | quoted hq => exact iff_of_false (nonblank_quoted_ne_nil hq) Bool.false_ne_true
  | char hquote hopen hparse => exact nonblank_char_eq_nil_iff _
  | placeholder hparse hwithin =>
      obtain ⟨w, rfl⟩ := exists_dollar_of_parse hparse
      have htext : nonblank ('$' :: w) = '$' :: nonblank w := nonblank_cons rfl w
      exact iff_of_false (by rw [RewritePiece.text, htext]; exact List.cons_ne_nil _ _) Bool.false_ne_true
  | escape => exact iff_of_false (by decide) (by decide)

theorem nonblank_rewrite_eq_nil_iff {tokens : List Text} (htokens : ∀ t ∈ tokens, Edged t)
    (h : Lexeme whole tokens.length s p s') {w : Text}
    (hw : p.rewrite (MacroArgsRewriter.rewriteArgPlaceholder tokens) = .ok w) : nonblank w = [] ↔ p.isBlank = true := by
  cases p with
  | char c =>
      obtain rfl := Except.ok.inj hw
      exact nonblank_char_eq_nil_iff c
  | quoted q =>
      obtain rfl := Except.ok.inj hw
      exact nonblank_text_eq_nil_iff h
  | placeholder span ph =>
      obtain ⟨⟨len, hparse⟩, hwithin⟩ := exists_parse_of_lexeme h
      obtain ⟨w', hw', c, hc, hblank⟩ := rewriteArgPlaceholder_within htokens hparse hwithin
      obtain rfl : w' = w := Except.ok.inj (hw'.symm.trans hw)
      have hmem : c ∈ nonblank w' := List.mem_filter.mpr ⟨hc, by rw [hblank]; rfl⟩
      exact iff_of_false (List.ne_nil_of_mem hmem) Bool.false_ne_true
  | escape => cases hw

theorem rewrite_ok (p : RewritePiece) : p.rewrite .ok = .ok p.text := by
  cases p <;> rfl

end Blank

/-! ### The expander -/

/-- A list of items that one rewriter takes as a list of arguments another one takes as such, if they make the
same items blank. -/
theorem exists_finishArgs {f g : RewriteItem → Text} {a : RewriteItem} {as : List RewriteItem} {tokens : List Text}
    (h : ∀ item ∈ a :: as, trimBlanks (f item) = [] ↔ trimBlanks (g item) = [])
    (hfinish : finishArgs [] (f a) (as.map f) = some tokens) :
    ∃ tokens', finishArgs [] (g a) (as.map g) = some tokens' := by
  simp only [finishArgs_eq_some_iff, ← List.map_cons (f := f), ← List.map_cons (f := g), List.forall_mem_map] at hfinish ⊢
  obtain ⟨hne, -⟩ | ⟨-, hnil, hblank, -⟩ := hfinish
  · exact ⟨_, .inl ⟨fun item hitem => mt (h item hitem).mpr (hne item hitem), rfl⟩⟩
  · rw [List.map_eq_nil_iff] at hnil
    exact ⟨[], .inr ⟨trivial, by rw [hnil]; rfl, (h a List.mem_cons_self).mp hblank, rfl⟩⟩

theorem intercalate_of_finishArgs {t : Text} {ts tokens : List Text} (h : finishArgs [] t ts = some tokens) (sep : Text) :
    List.intercalate sep tokens = List.intercalate sep ((t :: ts).map trimBlanks) := by
  obtain ⟨-, rfl⟩ | ⟨-, rfl, hblank, rfl⟩ := finishArgs_eq_some_iff.mp h
  · rfl
  · rw [List.map_singleton, hblank]
    rfl

theorem expander_rewriteMacroArgs_iff {macroArgs : DdlDefaultValueRuleMacroArgs} {tokens : List Text} {text : Text}
    (hne : macroArgs.rewrite ≠ []) :
    MacroArgsExpander.rewriteMacroArgs macroArgs tokens = .ok text ↔
      ∃ rewritten, MacroArgsRewriter.rewriteMacroArgs macroArgs (MacroArgsRewriter.rewriteArgPlaceholder tokens) =
          .ok rewritten ∧ '(' :: (List.intercalate ", ".toList rewritten ++ [')']) = text := by
  unfold MacroArgsExpander.rewriteMacroArgs
  rw [if_neg hne]
  cases MacroArgsRewriter.rewriteMacroArgs macroArgs (MacroArgsRewriter.rewriteArgPlaceholder tokens) <;> simp

section Expander

variable {n : Nat} {rewrite s rest : Text} {validated tokens : List Text} {a : RewriteItem} {as : List RewriteItem}
  (hs : rewrite = '(' :: s) (hreads : Reads false n 0 a as s rest) (hn : tokens.length = n)

include hs in
theorem rewrite_ne_nil : rewrite ≠ [] := by
  rw [hs]
  exact List.cons_ne_nil _ _

include hs hreads in
/-- The expander returns nothing for a rewrite with an escape. -/
theorem ne_escape_of_rewriteMacroArgs {text : Text}
    (h : MacroArgsExpander.rewriteMacroArgs ⟨n, rewrite⟩ tokens = .ok text) :
    ∀ item ∈ a :: as, ∀ p ∈ item, p ≠ .escape := by
  obtain ⟨rewritten, hrewritten, -⟩ := (expander_rewriteMacroArgs_iff (rewrite_ne_nil hs)).mp h
  obtain ⟨hall, -⟩ := (rewriteMacroArgs_iff_of_reads hs hreads).mp hrewritten
  intro item hitem p hp
  obtain ⟨w, hw⟩ := hall item hitem p hp
  exact ne_escape_of_rewrite hw

include hreads hn in
theorem rewritable_of_ne_escape (hescape : ∀ item ∈ a :: as, ∀ p ∈ item, p ≠ .escape) :
    ∀ item ∈ a :: as, item.Rewritable (MacroArgsRewriter.rewriteArgPlaceholder tokens) := by
  subst hn
  intro item hitem p hp
  obtain ⟨t, t', hlex⟩ := exists_lexeme_of_mem hreads item hitem p hp
  by_cases hopen : p.OpenBefore tokens.length
  · obtain ⟨w, hw, -⟩ := rewrite_of_openBefore hlex hopen
    exact ⟨w, hw⟩
  · exact ⟨_, rewrite_eq_meaning hlex (hescape item hitem p hp) hopen⟩

include hs hreads hn in
/-- For a validated rewrite without one it returns the list of what it makes of the items. -/
theorem rewriteMacroArgs_of_ne_escape
    (hvalid : MacroArgsRewriter.rewriteMacroArgs ⟨n, rewrite⟩ .ok = .ok validated) (htokens : ∀ t ∈ tokens, Edged t)
    (hescape : ∀ item ∈ a :: as, ∀ p ∈ item, p ≠ .escape) :
    MacroArgsExpander.rewriteMacroArgs ⟨n, rewrite⟩ tokens =
      .ok (argsTextOf (RewritePiece.rewritten (MacroArgsRewriter.rewriteArgPlaceholder tokens)) (a :: as)) := by
  have hrewritable := rewritable_of_ne_escape hreads hn hescape
  obtain ⟨-, hfinish⟩ := (rewriteMacroArgs_iff_of_reads hs hreads).mp hvalid
  subst hn
  have hblank : ∀ item ∈ a :: as, trimBlanks (item.rewritten .ok) = [] ↔
      trimBlanks (item.rewritten (MacroArgsRewriter.rewriteArgPlaceholder tokens)) = [] := by
    intro item hitem
    simp only [← nonblank_eq_nil_iff, RewriteItem.rewritten, nonblank_flatMap, List.flatMap_eq_nil_iff]
    refine forall₂_congr fun p hp => ?_
    obtain ⟨t, t', hlex⟩ := exists_lexeme_of_mem hreads item hitem p hp
    obtain ⟨w, hw⟩ := hrewritable item hitem p hp
    rw [rewritten_eq (rewrite_ok p), rewritten_eq hw, nonblank_text_eq_nil_iff hlex,
      nonblank_rewrite_eq_nil_iff htokens hlex hw]
  obtain ⟨rewritten, hfinish'⟩ := exists_finishArgs hblank hfinish
  have hrewritten : MacroArgsRewriter.rewriteMacroArgs ⟨tokens.length, rewrite⟩
      (MacroArgsRewriter.rewriteArgPlaceholder tokens) = .ok rewritten :=
    (rewriteMacroArgs_iff_of_reads hs hreads).mpr ⟨hrewritable, hfinish'⟩
  refine (expander_rewriteMacroArgs_iff (rewrite_ne_nil hs)).mpr ⟨rewritten, hrewritten, ?_⟩
  rw [intercalate_of_finishArgs hfinish', ← List.map_cons, List.map_map]
  rfl

include hreads hn in
/-- What the expander makes of a piece is never longer than what the piece stands for. -/
theorem length_rewritten_le (hescape : ∀ item ∈ a :: as, ∀ p ∈ item, p ≠ .escape) :
    ∀ item ∈ a :: as, ∀ p ∈ item,
      (nonblank (p.rewritten (MacroArgsRewriter.rewriteArgPlaceholder tokens))).length ≤
        (nonblank (p.meaning tokens)).length := by
  subst hn
  intro item hitem p hp
  obtain ⟨t, t', hlex⟩ := exists_lexeme_of_mem hreads item hitem p hp
  by_cases hopen : p.OpenBefore tokens.length
  · obtain ⟨w, hw, hlt⟩ := rewrite_of_openBefore hlex hopen
    rw [rewritten_eq hw]
    exact hlt.le
  · rw [rewritten_eq (rewrite_eq_meaning hlex (hescape item hitem p hp) hopen)]

include hreads hn in
theorem rewritten_eq_meaning (h : ∀ item ∈ a :: as, ∀ p ∈ item, p ≠ .escape ∧ ¬ p.OpenBefore n) :
    argsTextOf (RewritePiece.rewritten (MacroArgsRewriter.rewriteArgPlaceholder tokens)) (a :: as) =
      argsTextOf (RewritePiece.meaning tokens) (a :: as) := by
  subst hn
  refine argsTextOf_congr fun item hitem p hp => ?_
  obtain ⟨t, t', hlex⟩ := exists_lexeme_of_mem hreads item hitem p hp
  obtain ⟨hescape, hopen⟩ := h item hitem p hp
  exact rewritten_eq (rewrite_eq_meaning hlex hescape hopen)

include hreads hn in
/-- A list that is not shorter than the one meant has lost nothing to an open end. -/
theorem not_openBefore_of_length
    (hescape : ∀ item ∈ a :: as, ∀ p ∈ item, p ≠ .escape)
    (hlen : (nonblank (argsTextOf (RewritePiece.meaning tokens) (a :: as))).length ≤
      (nonblank (argsTextOf (RewritePiece.rewritten (MacroArgsRewriter.rewriteArgPlaceholder tokens)) (a :: as))).length) :
    ∀ item ∈ a :: as, ∀ p ∈ item, p ≠ .escape ∧ ¬ p.OpenBefore n := by
  have hle := length_rewritten_le hreads hn hescape
  subst hn
  intro item hitem p hp
  refine ⟨hescape item hitem p hp, fun hopen => ?_⟩
  obtain ⟨t, t', hlex⟩ := exists_lexeme_of_mem hreads item hitem p hp
  obtain ⟨w, hw, hlt⟩ := rewrite_of_openBefore hlex hopen
  rw [← rewritten_eq hw] at hlt
  exact absurd (length_nonblank_lt hle hitem hp hlt) (Nat.not_lt.mpr hlen)

end Expander

/-- A call is rewritten to the list that the rewrite stands for exactly if that has no escape and no open end in
front of the last argument. -/
theorem rewriteMacroArgs_eq_meaning_iff {n pos : Nat} {rewrite macroArgsText : Text} {validated tokens : List Text}
    (hvalid : MacroArgsRewriter.rewriteMacroArgs ⟨n, rewrite⟩ .ok = .ok validated)
    (htokens : MacroArgs.tokenizeText (argsTokenizer MacroArgsExpander.matcher) macroArgsText = .ok (pos, tokens))
    (hn : tokens.length = n) :
    ∃ s a as rest, rewrite = '(' :: s ∧ Reads false n 0 a as s rest ∧
      (MacroArgsExpander.rewriteMacroArgs ⟨n, rewrite⟩ tokens =
          .ok (argsTextOf (RewritePiece.meaning tokens) (a :: as)) ↔
        ∀ item ∈ a :: as, ∀ p ∈ item, p ≠ .escape ∧ ¬ p.OpenBefore n) := by
  have hedged := edged_of_tokenizeText htokens
  obtain ⟨s, a, as, rest, hs, hreads, -, -⟩ := rewriteMacroArgs_iff.mp hvalid
  refine ⟨s, a, as, rest, hs, hreads, ?_, ?_⟩
  · intro h
    have hescape := ne_escape_of_rewriteMacroArgs hs hreads h
    have hexpand := rewriteMacroArgs_of_ne_escape hs hreads hn hvalid hedged hescape
    have htext := Except.ok.inj (h.symm.trans hexpand)
    exact not_openBefore_of_length hreads hn hescape (by rw [htext])
  · intro h
    have hescape : ∀ item ∈ a :: as, ∀ p ∈ item, p ≠ .escape := fun item hitem p hp => (h item hitem p hp).1
    rw [rewriteMacroArgs_of_ne_escape hs hreads hn hvalid hedged hescape, rewritten_eq_meaning hreads hn h]

/-- An open end at the last argument is taken for that argument. -/
theorem rewriteMacroArgs_eq_meaning_last :
    ∃ s a as rest, "($1, $2-)".toList = '(' :: s ∧ Reads false 2 0 a as s rest ∧
      (MacroArgsExpander.rewriteMacroArgs ⟨2, "($1, $2-)".toList⟩ ["a".toList, "b".toList] =
          .ok (argsTextOf (RewritePiece.meaning ["a".toList, "b".toList]) (a :: as)) ↔
        ∀ item ∈ a :: as, ∀ p ∈ item, p ≠ .escape ∧ ¬ p.OpenBefore 2) := by
  have hvalid : MacroArgsRewriter.rewriteMacroArgs ⟨2, "($1, $2-)".toList⟩ .ok = .ok ["$1".toList, "$2-".toList] := by
    decide +kernel
  have htokens : MacroArgs.tokenizeText (argsTokenizer MacroArgsExpander.matcher) "(a, b)".toList =
      .ok (6, ["a".toList, "b".toList]) := by decide +kernel
  exact rewriteMacroArgs_eq_meaning_iff hvalid htokens rfl

/-- The open end of `($1-)` gives up all arguments but the first. -/
theorem rewriteMacroArgs_ne_meaning_open :
    MacroArgsRewriter.rewriteMacroArgs ⟨2, "($1-)".toList⟩ .ok = .ok ["$1-".toList] ∧
      Reads false 2 0 [.placeholder "$1-".toList ⟨1, 0⟩] [] "$1-)".toList [] ∧
      argsTextOf (RewritePiece.meaning ["a".toList, "b".toList]) [[.placeholder "$1-".toList ⟨1, 0⟩]] =
        "(a, b)".toList ∧
      MacroArgs.tokenizeText (argsTokenizer MacroArgsExpander.matcher) "(a, b)".toList =
        .ok (6, ["a".toList, "b".toList]) ∧
      MacroArgsExpander.rewriteMacroArgs ⟨2, "($1-)".toList⟩ ["a".toList, "b".toList] = .ok "(a)".toList := by
  have hparse : parseMacroArgsPlaceholder ("$1-".toList ++ ")".toList) = .ok ("$1-".toList.length, some ⟨1, 0⟩) := by
    decide +kernel
  have hlex : Lexeme false 2 ("$1-".toList ++ ")".toList) (.placeholder "$1-".toList ⟨1, 0⟩) ")".toList :=
    .placeholder hparse (by decide)
  exact ⟨by decide +kernel, .piece hlex rfl .close, by decide +kernel, by decide +kernel, by decide +kernel⟩

end Middle.NormalDdl
