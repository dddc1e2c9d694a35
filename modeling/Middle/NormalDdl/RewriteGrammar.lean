import Middle.NormalDdl.MacroValidation

/-! How a rewrite is read, character by character and placeholder by placeholder, into the items of a list. The
scan of a rewrite returns exactly along such a reading, whatever the rewriter makes of the placeholders. -/

namespace Middle.NormalDdl

open Lib Universals

/-! ### Pieces -/

/-- A part of a rewrite; an escape is a backslash in front of a dollar. -/
inductive RewritePiece where
  | char (c : Char)
  | quoted (q : Text)
  | placeholder (span : Text) (ph : MacroArgsPlaceholder)
  | escape

/-- An item of a rewrite between its commas. -/
abbrev RewriteItem := List RewritePiece

namespace RewritePiece

/-- What the scan takes of a piece: of an escape, the backslash. -/
def text : RewritePiece → Text
  | char c => [c]
  | quoted q => q
  | placeholder span _ => span
  | escape => ['\\']

def matchedBy : RewritePiece → Option MatchedBy
  | char _ => none
  | quoted _ => some .mask
  | placeholder _ _ | escape => some .app

/-- How many parentheses are open within an item behind a piece; the comma and the parenthesis that end an item
are none of its pieces. -/
def depth (d : Nat) : RewritePiece → Option Nat
  | char c =>
      if c = '(' then some (d + 1)
      else if c = ')' then if d = 0 then none else some (d - 1)
      else if c = ',' then if d = 0 then none else some d
      else some d
  | _ => some d

/-- What the rewriter makes of a piece, given what it makes of the text of a placeholder. -/
def rewrite (hook : Text → Except Fault Text) : RewritePiece → Except Fault Text
  | char c => .ok [c]
  | quoted q => .ok q
  | placeholder span _ => hook span
  | escape => hook ['\\']

/-- What becomes of a piece, if it becomes anything. -/
def rewritten (hook : Text → Except Fault Text) (p : RewritePiece) : Text := ((p.rewrite hook).toOption).getD []

/-- How much of a text is taken for a piece. -/
def width (whole : Bool) : RewritePiece → Nat
  | escape => if whole then 2 else 1
  | p => p.text.length

def isBlank : RewritePiece → Bool
  | char c => Universals.isBlank c
  | _ => false

end RewritePiece

/-- What becomes of an item. -/
def RewriteItem.rewritten (hook : Text → Except Fault Text) (item : RewriteItem) : Text :=
  item.flatMap (RewritePiece.rewritten hook)

/-- Something becomes of every piece of an item. -/
def RewriteItem.Rewritable (hook : Text → Except Fault Text) (item : RewriteItem) : Prop :=
  ∀ p ∈ item, ∃ w, p.rewrite hook = .ok w

/-- The next piece of a text, and what is left behind it: of the text behind an escape the dollar, unless it is
taken for a part of the escape, which then is `whole`. -/
inductive Lexeme (whole : Bool) (n : Nat) : Text → RewritePiece → Text → Prop
  | quoted {q s : Text} (hq : SqlQuoted q) : Lexeme whole n (q ++ s) (.quoted q) s
  | char {c : Char} {s : Text} {ph : Option MacroArgsPlaceholder} (hquote : isQuote c = false)
      (hopen : ¬ OpensComment (c :: s)) (hparse : parseMacroArgsPlaceholder (c :: s) = .ok (0, ph)) :
      Lexeme whole n (c :: s) (.char c) s
  | placeholder {span s : Text} {ph : MacroArgsPlaceholder}
      (hparse : parseMacroArgsPlaceholder (span ++ s) = .ok (span.length, some ph)) (hwithin : Within n (some ph)) :
      Lexeme whole n (span ++ s) (.placeholder span ph) s
  | escape {s : Text} : Lexeme whole n ('\\' :: '$' :: s) .escape (if whole then s else '$' :: s)

/-- What is left of a rewrite, from within an item with `d` parentheses open of which `a` is still to come, with
the items `as` behind it and `rest` behind the parenthesis that closes the list. -/
inductive Reads (whole : Bool) (n : Nat) : Nat → RewriteItem → List RewriteItem → Text → Text → Prop
  | close {rest : Text} : Reads whole n 0 [] [] (')' :: rest) rest
  | next {a : RewriteItem} {as : List RewriteItem} {s rest : Text} (h : Reads whole n 0 a as s rest) :
      Reads whole n 0 [] (a :: as) (',' :: s) rest
  | piece {d d' : Nat} {p : RewritePiece} {a : RewriteItem} {as : List RewriteItem} {s s' rest : Text}
      (hlex : Lexeme whole n s p s') (hdepth : p.depth d = some d') (h : Reads whole n d' a as s' rest) :
      Reads whole n d (p :: a) as s rest

/-! ### The next piece -/

theorem exists_dollar_of_parse {span s : Text} {ph : MacroArgsPlaceholder}
    (h : parseMacroArgsPlaceholder (span ++ s) = .ok (span.length, some ph)) : ∃ w, span = '$' :: w := by
  obtain ⟨s', heq, -⟩ := exists_readBehind_of_parse h
  have hpos := (length_of_parse h).1
  cases span with
  | nil => exact absurd hpos (by simp)
  | cons c w => exact ⟨w, by rw [(List.cons.inj heq).1]⟩

section Lexeme

variable {whole : Bool} {n : Nat} {hook : Text → Except Fault Text} {s s' : Text} {p : RewritePiece}

/-- The scanner finds the next piece. -/
theorem nextMatch_of_lexeme (h : Lexeme whole n s p s') (pos : Nat) :
    (rewriter n hook).nextMatch pos s = .ok ⟨p.text.length, p.matchedBy⟩ := by
  cases h with
  | quoted hq => exact rewriter_nextMatch_quoted hq _
  | @char c s ph hquote hopen hparse =>
      have hfind : MacroArgsRewriter.find n (c :: s') = .ok 0 := by
        unfold MacroArgsRewriter.find
        cases ph with
        | none => rw [hparse]
        | some ph => exact absurd (length_of_parse hparse).1 (by decide)
      exact rewriter_nextMatch hopen hquote hfind
  | placeholder hparse hwithin => exact rewriter_nextMatch_placeholder hparse hwithin
  | escape => exact rewriter_nextMatch_escape _

theorem exists_append_of_lexeme (h : Lexeme whole n s p s') : ∃ s'', s = p.text ++ s'' := by
  cases h with
  | quoted hq => exact ⟨s', rfl⟩
  | char hquote hopen hparse => exact ⟨s', rfl⟩
  | placeholder hparse hwithin => exact ⟨s', rfl⟩
  | escape => exact ⟨'$' :: _, rfl⟩

/-- In the scan nothing of a piece is left. -/
theorem append_of_lexeme (h : Lexeme false n s p s') : s = p.text ++ s' := by
  cases h with
  | quoted hq => rfl
  | char hquote hopen hparse => rfl
  | placeholder hparse hwithin => rfl
  | escape => rfl

theorem text_ne_nil_of_lexeme (h : Lexeme whole n s p s') : p.text ≠ [] := by
  cases h with
  | quoted hq => exact List.ne_nil_of_length_pos hq.length_pos
  | char hquote hopen hparse => exact List.cons_ne_nil _ _
  | placeholder hparse hwithin =>
      obtain ⟨w, rfl⟩ := exists_dollar_of_parse hparse
      exact List.cons_ne_nil _ _
  | escape => exact List.cons_ne_nil _ _

theorem length_lt_of_lexeme (h : Lexeme false n s p s') : s'.length < s.length := by
  have hpos := List.length_pos_iff.mpr (text_ne_nil_of_lexeme h)
  rw [append_of_lexeme h, List.length_append]
  omega

theorem parse_of_lexeme {span : Text} {ph : MacroArgsPlaceholder} (h : Lexeme whole n s (.placeholder span ph) s') :
    parseMacroArgsPlaceholder s = .ok (span.length, some ph) := by
  cases h with
  | placeholder hparse hwithin => exact hparse

theorem exists_dollar_of_lexeme {span : Text} {ph : MacroArgsPlaceholder}
    (h : Lexeme whole n s (.placeholder span ph) s') : ∃ w, span = '$' :: w := by
  cases h with
  | placeholder hparse hwithin => exact exists_dollar_of_parse hparse

/-- The next piece is the same whether escapes are taken whole or not. -/
theorem Lexeme.unique {whole' : Bool} {p' : RewritePiece} {s'' : Text} (h : Lexeme whole n s p s')
    (h' : Lexeme whole' n s p' s'') : p = p' := by
  have hnext : (rewriter n .ok).nextMatch 0 s = .ok ⟨p.text.length, p.matchedBy⟩ := nextMatch_of_lexeme h 0
  have hmatch := Except.ok.inj (hnext.symm.trans (nextMatch_of_lexeme h' 0))
  have hby : p.matchedBy = p'.matchedBy := congrArg TextMatch.matchedBy hmatch
  obtain ⟨t, ht⟩ := exists_append_of_lexeme h
  obtain ⟨t', ht'⟩ := exists_append_of_lexeme h'
  obtain ⟨htext, -⟩ := List.append_inj (ht.symm.trans ht') (congrArg TextMatch.len hmatch)
  cases p with
  | char c =>
      cases p' with
      | char c' => rw [(List.cons.inj htext).1]
      | quoted q' => cases hby
      | placeholder span' ph' => cases hby
      | escape => cases hby
  | quoted q =>
      cases p' with
      | char c' => cases hby
      | quoted q' =>
          have hq : q = q' := htext
          rw [hq]
      | placeholder span' ph' => cases hby
      | escape => cases hby
  | placeholder span ph =>
      cases p' with
      | char c' => cases hby
      | quoted q' => cases hby
      | placeholder span' ph' =>
          have hparse := (parse_of_lexeme h).symm.trans (parse_of_lexeme h')
          have hph : ph = ph' := Option.some.inj (Prod.mk.inj (Except.ok.inj hparse)).2
          have hspan : span = span' := htext
          rw [hph, hspan]
      | escape =>
          obtain ⟨w, rfl⟩ := exists_dollar_of_lexeme h
          cases htext
  | escape =>
      cases p' with
      | char c' => cases hby
      | quoted q' => cases hby
      | placeholder span' ph' =>
          obtain ⟨w, rfl⟩ := exists_dollar_of_lexeme h'
          cases htext
      | escape => rfl

theorem eq_drop_of_lexeme (h : Lexeme whole n s p s') : s' = s.drop (p.width whole) := by
  cases h with
  | quoted hq => exact List.drop_left.symm
  | char hquote hopen hparse => rfl
  | placeholder hparse hwithin => exact List.drop_left.symm
  | escape => cases whole <;> rfl

/-- A character that the scanner takes for itself is the next piece. -/
theorem eq_char_of_lexeme {c : Char} (hc : isSpecial c = true) (hquote : isQuote c = false)
    (h : Lexeme whole n (c :: s) p s') : p = .char c := by
  have hplain : c ≠ '$' ∧ c ≠ '\\' := by
    constructor
    · rintro rfl
      exact absurd hc (by decide)
    · rintro rfl
      exact absurd hc (by decide)
  have hparse : parseMacroArgsPlaceholder (c :: s) = .ok (0, none) := parse_of_plain hplain.1 hplain.2 s
  have hchar : Lexeme whole n (c :: s) (.char c) s := .char hquote (not_opensComment_of_isSpecial hc s) hparse
  exact h.unique hchar

/-- What the scanner finds is the next piece. -/
theorem lexeme_of_nextMatch {pos : Nat} {c : Char} {s : Text} {m : TextMatch}
    (h : (rewriter n hook).nextMatch pos (c :: s) = .ok m) :
    ∃ p s', Lexeme false n (c :: s) p s' ∧ m = ⟨p.text.length, p.matchedBy⟩ := by
  have hopen : ¬ OpensComment (c :: s) := by
    rw [← firstMatch_reject_iff]
    simp only [TextProcessor.nextMatch, rewriter, sqlMacroArgsExpander, MacroArgs.processor] at h
    split at h
    · cases h
    · cases h
    · assumption
  have hmatched := h
  obtain ⟨q, rest, heq, hq, -, rfl⟩ | ⟨hquote, ⟨ph, hparse⟩, rfl⟩ |
      ⟨-, -, w, rest, ph, rfl, -, hparse, rfl, hread⟩ := rewriter_nextMatch_cases h
  · rw [heq]
    exact ⟨.quoted q, rest, .quoted hq, rfl⟩
  · exact ⟨.char c, s, .char hquote hopen hparse, rfl⟩
  · have hfind : MacroArgsRewriter.find n (c :: (w ++ rest)) = .ok (w.length + 1) :=
      TextProcessor.find_of_nextMatch_app _ hmatched rfl
    obtain ⟨rfl, rfl, rfl⟩ | ⟨rfl, ph, rfl⟩ := hread
    · obtain ⟨s, rfl⟩ := exists_dollar_of_escape hparse
      exact ⟨.escape, '$' :: s, .escape, rfl⟩
    · have hwithin : Within n (some ph) := within_of_find hparse hfind
      have hlex : Lexeme false n ('$' :: w ++ rest) (.placeholder ('$' :: w) ph) rest := .placeholder hparse hwithin
      exact ⟨_, rest, hlex, rfl⟩

end Lexeme

/-- A text is read in one way. -/
theorem Reads.unique {whole : Bool} {n d : Nat} {a a' : RewriteItem} {as as' : List RewriteItem} {s rest rest' : Text}
    (h : Reads whole n d a as s rest) (h' : Reads whole n d a' as' s rest') : a = a' ∧ as = as' ∧ rest = rest' := by
  induction h generalizing a' as' rest' with
  | close =>
      cases h' with
      | close => exact ⟨rfl, rfl, rfl⟩
      | piece hlex hdepth h' =>
          obtain rfl := eq_char_of_lexeme rfl rfl hlex
          cases hdepth
  | next h ih =>
      cases h' with
      | next h' =>
          obtain ⟨rfl, rfl, rfl⟩ := ih h'
          exact ⟨rfl, rfl, rfl⟩
      | piece hlex hdepth h' =>
          obtain rfl := eq_char_of_lexeme rfl rfl hlex
          cases hdepth
  | piece hlex hdepth h ih =>
      cases h' with
      | close =>
          obtain rfl := eq_char_of_lexeme rfl rfl hlex
          cases hdepth
      | next h' =>
          obtain rfl := eq_char_of_lexeme rfl rfl hlex
          cases hdepth
      | piece hlex' hdepth' h' =>
          obtain rfl := hlex.unique hlex'
          obtain rfl := (eq_drop_of_lexeme hlex).trans (eq_drop_of_lexeme hlex').symm
          obtain rfl := Option.some.inj (hdepth.symm.trans hdepth')
          obtain ⟨rfl, rfl, rfl⟩ := ih h'
          exact ⟨rfl, rfl, rfl⟩

/-- The pieces of a reading stand somewhere in the text. -/
theorem exists_lexeme_of_mem {whole : Bool} {n d : Nat} {a : RewriteItem} {as : List RewriteItem} {s rest : Text}
    (h : Reads whole n d a as s rest) : ∀ item ∈ a :: as, ∀ p ∈ item, ∃ t t', Lexeme whole n t p t' := by
  induction h with
  | close => simp
  | next h ih => exact List.forall_mem_cons.mpr ⟨List.forall_mem_nil _, ih⟩
  | piece hlex hdepth h ih =>
      obtain ⟨hitem, hitems⟩ := List.forall_mem_cons.mp ih
      exact List.forall_mem_cons.mpr ⟨List.forall_mem_cons.mpr ⟨⟨_, _, hlex⟩, hitem⟩, hitems⟩

/-! ### The scan along a reading -/

section Scan

variable {n d pos : Nat} {hook : Text → Except Fault Text} {s s' : Text} {p : RewritePiece} {done : List Text} {cur : Text}

theorem plainChar_of_depth {d' : Nat} {c : Char} (hquote : isQuote c = false)
    (hdepth : (RewritePiece.char c).depth d = some d') (done : List Text) (cur s : Text) :
    MacroArgs.plainChar ⟨d + 1, done ++ [cur]⟩ (c :: s) = .ok (⟨d' + 1, done ++ [cur ++ [c]]⟩, ⟨1, false⟩) := by
  unfold RewritePiece.depth at hdepth
  dsimp only at hdepth
  by_cases hopen : c = '('
  · subst hopen
    rw [if_pos rfl] at hdepth
    obtain rfl := Option.some.inj hdepth
    exact plainChar_opening d done cur s
  rw [if_neg hopen] at hdepth
  by_cases hclose : c = ')'
  · subst hclose
    rw [if_pos rfl] at hdepth
    cases d with
    | zero => cases hdepth
    | succ d =>
        obtain rfl := Option.some.inj hdepth
        exact plainChar_closing_inner d done cur s
  rw [if_neg hclose] at hdepth
  by_cases hcomma : c = ','
  · subst hcomma
    rw [if_pos rfl] at hdepth
    cases d with
    | zero => cases hdepth
    | succ d =>
        obtain rfl := Option.some.inj hdepth
        exact plainChar_comma_inner d done cur s
  rw [if_neg hcomma] at hdepth
  obtain rfl := Option.some.inj hdepth
  have hc : isSpecial c = false := by simp [isSpecial, hquote, hopen, hclose, hcomma]
  exact plainChar_other d done cur hc s

/-- A piece within an item goes to its end as what becomes of it. -/
theorem run_lexeme {d' : Nat} {w : Text} (h : Lexeme false n s p s') (hdepth : p.depth d = some d')
    (hhook : p.rewrite hook = .ok w) :
    ((rewriter n hook).processFrom 0 pos s).run ⟨d + 1, done ++ [cur]⟩ =
      ((rewriter n hook).processFrom 0 (pos + p.text.length) s').run ⟨d' + 1, done ++ [cur ++ w]⟩ := by
  have hnext : (rewriter n hook).nextMatch pos s = .ok ⟨p.text.length, p.matchedBy⟩ := nextMatch_of_lexeme h pos
  cases h with
  | quoted hq =>
      obtain rfl := Option.some.inj hdepth
      obtain rfl := Except.ok.inj hhook
      exact run_quoted hq s' done cur
  | char hquote hopen hparse =>
      obtain rfl := Except.ok.inj hhook
      exact run_plain hnext (plainChar_of_depth hquote hdepth done cur s')
  | @placeholder span s ph hparse hwithin =>
      obtain rfl := Option.some.inj hdepth
      obtain ⟨v, rfl⟩ := exists_dollar_of_parse hparse
      exact run_read (by decide) hnext hhook
  | escape =>
      obtain rfl := Option.some.inj hdepth
      exact run_read (w := []) (by decide) hnext hhook

/-- A piece of which nothing becomes ends the scan. -/
theorem run_lexeme_error {e : Fault} (h : Lexeme false n s p s') (hhook : p.rewrite hook = .error e) :
    ((rewriter n hook).processFrom 0 pos s).run ⟨d + 1, done ++ [cur]⟩ = .error e ⟨d + 1, done ++ [cur]⟩ := by
  have hnext : (rewriter n hook).nextMatch pos s = .ok ⟨p.text.length, p.matchedBy⟩ := nextMatch_of_lexeme h pos
  cases h with
  | quoted hq => cases hhook
  | char hquote hopen hparse => cases hhook
  | @placeholder span s ph hparse hwithin =>
      obtain ⟨v, rfl⟩ := exists_dollar_of_parse hparse
      exact run_read_error (by decide) hnext hhook
  | escape => exact run_read_error (w := []) (by decide) hnext hhook

theorem rewritten_eq {w : Text} (h : p.rewrite hook = .ok w) : p.rewritten hook = w := by
  rw [RewritePiece.rewritten, h]
  rfl

theorem rewritten_cons {w : Text} (h : p.rewrite hook = .ok w) (item : RewriteItem) :
    RewriteItem.rewritten hook (p :: item) = w ++ item.rewritten hook := by
  rw [RewriteItem.rewritten, List.flatMap_cons, rewritten_eq h]
  rfl

/-- A piece that ends an item. -/
theorem eq_of_depth_eq_none (h : p.depth d = none) : d = 0 ∧ (p = .char ')' ∨ p = .char ',') := by
  cases p with
  | char c =>
      unfold RewritePiece.depth at h
      dsimp only at h
      by_cases hopen : c = '('
      · rw [if_pos hopen] at h
        cases h
      rw [if_neg hopen] at h
      by_cases hclose : c = ')'
      · rw [if_pos hclose] at h
        have hd : d = 0 := by
          by_contra hd
          rw [if_neg hd] at h
          cases h
        exact ⟨hd, .inl (by rw [hclose])⟩
      rw [if_neg hclose] at h
      by_cases hcomma : c = ','
      · rw [if_pos hcomma] at h
        have hd : d = 0 := by
          by_contra hd
          rw [if_neg hd] at h
          cases h
        exact ⟨hd, .inr (by rw [hcomma])⟩
      rw [if_neg hcomma] at h
      cases h
  | quoted q => cases h
  | placeholder span ph => cases h
  | escape => cases h

/-- Completeness: along a reading the scan collects what becomes of the items. -/
theorem run_of_reads {a : RewriteItem} {as : List RewriteItem} {rest : Text} (h : Reads false n d a as s rest)
    (hall : ∀ item ∈ a :: as, item.Rewritable hook) {tokens : List Text}
    (hfinish : finishArgs done (cur ++ a.rewritten hook) (as.map (RewriteItem.rewritten hook)) = some tokens) :
    ∃ pos', ((rewriter n hook).processFrom 0 pos s).run ⟨d + 1, done ++ [cur]⟩ = .ok pos' ⟨0, tokens⟩ := by
  induction h generalizing pos done cur with
  | @close rest =>
      have hcur : cur ++ RewriteItem.rewritten hook [] = cur := List.append_nil cur
      rw [hcur, List.map_nil] at hfinish
      exact ⟨pos + 1, run_closing hfinish⟩
  | @next a as s rest h ih =>
      have hcur : cur ++ RewriteItem.rewritten hook [] = cur := List.append_nil cur
      rw [hcur, List.map_cons, finishArgs] at hfinish
      split at hfinish
      · cases hfinish
      · rename_i hblank
        rw [run_next hblank]
        exact ih (List.forall_mem_cons.mp hall).2 hfinish
  | @piece d d' p a as s s' rest hlex hdepth h ih =>
      obtain ⟨hitem, hitems⟩ := List.forall_mem_cons.mp hall
      obtain ⟨⟨w, hw⟩, hitem⟩ := List.forall_mem_cons.mp hitem
      rw [rewritten_cons hw, ← List.append_assoc] at hfinish
      rw [run_lexeme hlex hdepth hw]
      exact ih (List.forall_mem_cons.mpr ⟨hitem, hitems⟩) hfinish

/-- Soundness: a scan that returns has followed a reading. -/
theorem reads_of_run {pos' : Nat} {st : MacroArgs}
    (h : ((rewriter n hook).processFrom 0 pos s).run ⟨d + 1, done ++ [cur]⟩ = .ok pos' st) :
    ∃ a as rest, Reads false n d a as s rest ∧ (∀ item ∈ a :: as, item.Rewritable hook) ∧
      finishArgs done (cur ++ a.rewritten hook) (as.map (RewriteItem.rewritten hook)) = some st.tokens := by
  induction hlen : s.length using Nat.strong_induction_on generalizing d pos done cur s with
  | _ k ih =>
    subst hlen
    cases s with
    | nil => cases h
    | cons c s =>
        obtain ⟨m, -, -, hnext, -, -⟩ := (MacroArgs.processFrom_ok_iff (p := rewriter n hook) rfl).mp h
        obtain ⟨p, s', hlex, -⟩ := lexeme_of_nextMatch hnext
        have happend := append_of_lexeme hlex
        have hshort := length_lt_of_lexeme hlex
        cases hdepth : p.depth d with
        | some d' =>
            cases hw : p.rewrite hook with
            | error e =>
                rw [run_lexeme_error hlex hw] at h
                cases h
            | ok w =>
                rw [run_lexeme hlex hdepth hw] at h
                obtain ⟨a, as, rest, hreads, hall, hfinish⟩ := ih _ hshort h rfl
                obtain ⟨hitem, hitems⟩ := List.forall_mem_cons.mp hall
                refine ⟨p :: a, as, rest, .piece hlex hdepth hreads, ?_, ?_⟩
                · exact List.forall_mem_cons.mpr ⟨List.forall_mem_cons.mpr ⟨⟨w, hw⟩, hitem⟩, hitems⟩
                · rw [rewritten_cons hw, ← List.append_assoc]
                  exact hfinish
        | none =>
            have hnil : cur ++ RewriteItem.rewritten hook [] = cur := List.append_nil cur
            have hitem : RewriteItem.Rewritable hook [] := List.forall_mem_nil _
            obtain ⟨rfl, rfl | rfl⟩ := eq_of_depth_eq_none hdepth
            · obtain ⟨rfl, rfl⟩ := List.cons.inj happend
              cases hfinish : finishArgs done cur [] with
              | none =>
                  rw [run_closing_error hfinish] at h
                  cases h
              | some tokens =>
                  rw [run_closing hfinish] at h
                  cases h
                  refine ⟨[], [], s, .close, List.forall_mem_singleton.mpr hitem, ?_⟩
                  rw [hnil]
                  exact hfinish
            · obtain ⟨rfl, rfl⟩ := List.cons.inj happend
              by_cases hblank : trimBlanks cur = []
              · rw [run_comma_error hblank] at h
                cases h
              · rw [run_next hblank] at h
                obtain ⟨a, as, rest, hreads, hall, hfinish⟩ := ih _ hshort h rfl
                refine ⟨[], a :: as, rest, .next hreads, List.forall_mem_cons.mpr ⟨hitem, hall⟩, ?_⟩
                rw [hnil, List.map_cons, finishArgs, if_neg hblank]
                exact hfinish

end Scan

/-- A rewriter returns for a list whose items are read, if something becomes of each piece and no item is blank.
-/
theorem rewriteMacroArgs_iff {macroArgs : DdlDefaultValueRuleMacroArgs} {hook : Text → Except Fault Text}
    {tokens : List Text} :
    MacroArgsRewriter.rewriteMacroArgs macroArgs hook = .ok tokens ↔
      ∃ s a as rest, macroArgs.rewrite = '(' :: s ∧ Reads false macroArgs.argcnt 0 a as s rest ∧
        (∀ item ∈ a :: as, item.Rewritable hook) ∧
        finishArgs [] (a.rewritten hook) (as.map (RewriteItem.rewritten hook)) = some tokens := by
  rw [rewriteMacroArgs_eq_ok]
  constructor
  · rintro ⟨pos, st, h, rfl⟩
    obtain ⟨s, hs⟩ := exists_open_of_run h
    rw [hs, run_open] at h
    have hinside : ((rewriter macroArgs.argcnt hook).processFrom 0 1 s).run ⟨0 + 1, [] ++ [[]]⟩ = .ok pos st := h
    obtain ⟨a, as, rest, hreads, hall, hfinish⟩ := reads_of_run hinside
    exact ⟨s, a, as, rest, hs, hreads, hall, hfinish⟩
  · rintro ⟨s, a, as, rest, hs, hreads, hall, hfinish⟩
    have hinside : ∃ pos, ((rewriter macroArgs.argcnt hook).processFrom 0 1 s).run ⟨0 + 1, [] ++ [[]]⟩ =
        .ok pos ⟨0, tokens⟩ := run_of_reads hreads hall hfinish
    obtain ⟨pos, h⟩ := hinside
    rw [hs, run_open]
    exact ⟨pos, _, h, rfl⟩

/-- A rewriter returns for a reading that is at hand. -/
theorem rewriteMacroArgs_iff_of_reads {macroArgs : DdlDefaultValueRuleMacroArgs} {hook : Text → Except Fault Text}
    {tokens : List Text} {a : RewriteItem} {as : List RewriteItem} {s rest : Text} (hs : macroArgs.rewrite = '(' :: s)
    (hreads : Reads false macroArgs.argcnt 0 a as s rest) :
    MacroArgsRewriter.rewriteMacroArgs macroArgs hook = .ok tokens ↔
      (∀ item ∈ a :: as, item.Rewritable hook) ∧
        finishArgs [] (a.rewritten hook) (as.map (RewriteItem.rewritten hook)) = some tokens := by
  rw [rewriteMacroArgs_iff]
  constructor
  · rintro ⟨s', a', as', rest', hs', hreads', h⟩
    obtain rfl : s = s' := (List.cons.inj (hs.symm.trans hs')).2
    obtain ⟨rfl, rfl, -⟩ := hreads.unique hreads'
    exact h
  · exact fun h => ⟨s, a, as, rest, hs, hreads, h⟩

end Middle.NormalDdl
