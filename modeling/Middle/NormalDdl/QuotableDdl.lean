import Middle.NormalDdl.StnamesMigratorBase

/-! Text between quotes: `make_quotable_ddl` puts a backslash in front of each quote, and a `quote_matcher` skips
whatever stands behind a backslash. The two fit together on text without a backslash of its own. -/

namespace Middle.NormalDdl

open Lib Universals

/-! ### The loop -/

/-- The loop of `make_quotable_ddl`, which looks for the next quote from `pos` on. -/
def replaceQuotes (quoteC : Char) : Nat → Text → Nat → Text
  | 0, quotableDdl, _ => quotableDdl
  | turns + 1, quotableDdl, pos =>
      match find quotableDdl [quoteC] pos with
      | none => quotableDdl
      | some pos =>
          replaceQuotes quoteC turns (quotableDdl.take pos ++ ['\\', quoteC] ++ quotableDdl.drop (pos + 1)) (pos + 2)

theorem makeQuotableDdl_cons (c : Char) (s : Text) (quoteC : Char) :
    makeQuotableDdl (c :: s) quoteC = (if c = quoteC then ['\\', quoteC] else [c]) ++ makeQuotableDdl s quoteC := rfl

theorem makeQuotableDdl_quote (s : Text) (quoteC : Char) :
    makeQuotableDdl (quoteC :: s) quoteC = '\\' :: quoteC :: makeQuotableDdl s quoteC := by
  rw [makeQuotableDdl_cons, if_pos rfl]
  rfl

theorem makeQuotableDdl_of_ne {c quoteC : Char} (hc : c ≠ quoteC) (s : Text) :
    makeQuotableDdl (c :: s) quoteC = c :: makeQuotableDdl s quoteC := by
  rw [makeQuotableDdl_cons, if_neg hc]
  rfl

/-- A character that is no quote is passed over. -/
theorem find_quote_of_ne {c quoteC : Char} (hc : c ≠ quoteC) (done rest : Text) :
    find (done ++ c :: rest) [quoteC] done.length = find (done ++ c :: rest) [quoteC] (done.length + 1) := by
  have hprefix : ¬ [quoteC] <+: c :: rest := by
    rw [List.cons_prefix_cons]
    exact fun h => hc h.1.symm
  have hdrop : (done ++ c :: rest).drop (done.length + 1) = rest := by
    rw [← List.drop_drop, List.drop_left, List.drop_one, List.tail_cons]
  unfold find
  rw [if_pos (by simp), if_pos (by simp), hdrop, List.drop_left, findAt, if_neg hprefix]

/-- Behind what has been replaced the loop does the rest of the text. -/
theorem replaceQuotes_append {quoteC : Char} {turns : Nat} (done rest : Text) (hturns : rest.count quoteC < turns) :
    replaceQuotes quoteC turns (done ++ rest) done.length = done ++ makeQuotableDdl rest quoteC := by
  induction rest generalizing turns done with
  | nil =>
      obtain ⟨turns, rfl⟩ := Nat.exists_eq_succ_of_ne_zero (Nat.ne_zero_of_lt hturns)
      have hnone : find (done ++ []) [quoteC] done.length = none := by
        unfold find
        rw [if_pos (by simp), List.drop_left]
        rfl
      unfold replaceQuotes
      rw [hnone]
      rfl
  | cons c rest ih =>
      obtain ⟨turns, rfl⟩ := Nat.exists_eq_succ_of_ne_zero (Nat.ne_zero_of_lt hturns)
      by_cases hc : c = quoteC
      · subst hc
        rw [List.count_cons_self] at hturns
        have hfound : find (done ++ c :: rest) [c] done.length = some done.length := by
          rw [find_eq_self_iff (by simp), List.drop_left]
          exact ⟨rest, rfl⟩
        have hdrop : (done ++ c :: rest).drop (done.length + 1) = rest := by
          rw [← List.drop_drop, List.drop_left, List.drop_one, List.tail_cons]
        have hstep := ih (done ++ ['\\', c]) (Nat.lt_of_succ_lt_succ hturns)
        rw [List.length_append] at hstep
        unfold replaceQuotes
        rw [hfound]
        dsimp only
        rw [List.take_left, hdrop, makeQuotableDdl_quote]
        refine hstep.trans ?_
        rw [List.append_assoc]
        rfl
      · rw [List.count_cons_of_ne hc] at hturns
        have hstep := ih (done ++ [c]) hturns
        rw [List.append_assoc, List.append_assoc, List.length_append] at hstep
        rw [makeQuotableDdl_of_ne hc]
        refine Eq.trans ?_ hstep
        unfold replaceQuotes
        rw [find_quote_of_ne hc]
        rfl

theorem replaceQuotes_eq (ddl : Text) (quoteC : Char) :
    replaceQuotes quoteC (ddl.length + 1) ddl 0 = makeQuotableDdl ddl quoteC :=
  replaceQuotes_append [] ddl (Nat.lt_succ_of_le List.count_le_length)

/-! ### Matching it -/

/-- The backslash escapes undone. -/
def unescape : Text → Text
  | [] => []
  | [c] => [c]
  | c :: e :: s => if c = '\\' then e :: unescape s else c :: unescape (e :: s)

/-- What stands between the quotes of a segment. -/
def unquote (quoted : Text) : Text := unescape (quoted.drop 1).dropLast

/-- Text between quotes, as the loop leaves it. -/
def quoteDdl (ddl : Text) (quoteC : Char) : Text :=
  quoteC :: (replaceQuotes quoteC (ddl.length + 1) ddl 0 ++ [quoteC])

theorem quoteDdl_eq (ddl : Text) (quoteC : Char) :
    quoteDdl ddl quoteC = quoteC :: (makeQuotableDdl ddl quoteC ++ [quoteC]) := by
  rw [quoteDdl, replaceQuotes_eq]

/-- The quotes of the matcher, with the backslash it takes for an escape. -/
def ddlQuotation {quoteC : Char} (h : quoteC ≠ '\\') : Quotation Char where
  quote := quoteC
  escape := '\\'
  plain _ := False
  quote_ne_escape := h
  not_plain_quote := not_false

theorem unescape_escaped (e : Char) (s : Text) : unescape ('\\' :: e :: s) = e :: unescape s := if_pos rfl

theorem unescape_of_ne {c : Char} (hc : c ≠ '\\') (s : Text) : unescape (c :: s) = c :: unescape s := by
  cases s with
  | nil => rfl
  | cons e s => exact if_neg hc

section Body

variable {quoteC : Char} (h : quoteC ≠ '\\') {ddl : Text}

/-- The matcher goes on from where it has skipped what stands behind a backslash, which is no quote. -/
theorem exists_of_backslash {s : Text}
    (hbody : (ddlQuotation h).EscapedBody (makeQuotableDdl ('\\' :: s) quoteC ++ [quoteC])) :
    ∃ e s', s = e :: s' ∧ e ≠ quoteC ∧ (ddlQuotation h).EscapedBody (makeQuotableDdl s' quoteC ++ [quoteC]) := by
  rw [makeQuotableDdl_of_ne h.symm] at hbody
  cases s with
  | nil => exact absurd (Quotation.escapedBody_escape_iff.mp hbody) Quotation.not_escapedBody_nil
  | cons e s =>
      by_cases he : e = quoteC
      · rw [he, makeQuotableDdl_quote] at hbody
        have hquote := Quotation.escapedBody_quote_iff.mp (Quotation.escapedBody_escape_iff.mp hbody)
        exact absurd hquote (by simp)
      · rw [makeQuotableDdl_of_ne he] at hbody
        exact ⟨e, s, rfl, he, Quotation.escapedBody_escape_iff.mp hbody⟩

theorem escapedBody_quote_cons_iff {s : Text} :
    (ddlQuotation h).EscapedBody (makeQuotableDdl (quoteC :: s) quoteC ++ [quoteC]) ↔
      (ddlQuotation h).EscapedBody (makeQuotableDdl s quoteC ++ [quoteC]) := by
  rw [makeQuotableDdl_quote]
  exact Quotation.escapedBody_escape_iff

theorem escapedBody_cons_iff {c : Char} {s : Text} (hc : c ≠ quoteC) (hescape : c ≠ '\\') :
    (ddlQuotation h).EscapedBody (makeQuotableDdl (c :: s) quoteC ++ [quoteC]) ↔
      (ddlQuotation h).EscapedBody (makeQuotableDdl s quoteC ++ [quoteC]) := by
  rw [makeQuotableDdl_of_ne hc]
  exact Quotation.escapedBody_other_iff (Q := ddlQuotation h) hescape hc

/-- Undoing the escapes of a text that is matched leaves at most as much as there was. -/
theorem length_unescape_le (hbody : (ddlQuotation h).EscapedBody (makeQuotableDdl ddl quoteC ++ [quoteC])) :
    (unescape (makeQuotableDdl ddl quoteC)).length ≤ ddl.length := by
  induction hlength : ddl.length using Nat.strong_induction_on generalizing ddl with
  | _ n ih =>
    subst hlength
    cases ddl with
    | nil => exact Nat.le_refl 0
    | cons c s =>
        by_cases hc : c = quoteC
        · subst hc
          have hrest := ih s.length (Nat.lt_succ_self _) ((escapedBody_quote_cons_iff h).mp hbody) rfl
          rw [makeQuotableDdl_quote, unescape_escaped]
          exact Nat.succ_le_succ hrest
        · by_cases hescape : c = '\\'
          · subst hescape
            obtain ⟨e, s, rfl, he, hbody⟩ := exists_of_backslash h hbody
            have hrest := ih s.length (by simp) hbody rfl
            rw [makeQuotableDdl_of_ne hc, makeQuotableDdl_of_ne he, unescape_escaped]
            exact Nat.le_succ_of_le (Nat.succ_le_succ hrest)
          · have hrest := ih s.length (Nat.lt_succ_self _) ((escapedBody_cons_iff h hc hescape).mp hbody) rfl
            rw [makeQuotableDdl_of_ne hc, unescape_of_ne hescape]
            exact Nat.succ_le_succ hrest

theorem body_and_unescape_iff :
    (ddlQuotation h).EscapedBody (makeQuotableDdl ddl quoteC ++ [quoteC]) ∧
        unescape (makeQuotableDdl ddl quoteC) = ddl ↔ '\\' ∉ ddl := by
  induction ddl with
  | nil => exact iff_of_true ⟨.close, rfl⟩ List.not_mem_nil
  | cons c s ih =>
      rw [List.mem_cons, not_or]
      by_cases hc : c = quoteC
      · subst hc
        rw [and_iff_right h.symm, ← ih, escapedBody_quote_cons_iff, makeQuotableDdl_quote, unescape_escaped]
        rw [List.cons_inj_right]
      · by_cases hescape : c = '\\'
        · subst hescape
          refine iff_of_false ?_ fun hno => hno.1 rfl
          rintro ⟨hbody, hunescape⟩
          obtain ⟨e, s, rfl, he, hbody⟩ := exists_of_backslash h hbody
          rw [makeQuotableDdl_of_ne hc, makeQuotableDdl_of_ne he, unescape_escaped] at hunescape
          have hlength := congrArg List.length (List.cons.inj hunescape).2
          have hle := length_unescape_le h hbody
          rw [hlength] at hle
          exact absurd hle (Nat.not_succ_le_self _)
        · rw [and_iff_right (Ne.symm hescape), ← ih, escapedBody_cons_iff h hc hescape, makeQuotableDdl_of_ne hc,
            unescape_of_ne hescape]
          rw [List.cons_inj_right]

end Body

/-- A text is matched up to its last character when it is one segment. -/
theorem find_eq_length_iff (m : QuoteMatcher) (w : Text) :
    m.matcher.find (m.quoteC :: w) = .ok (m.quoteC :: w).length ↔ m.Body w := by
  constructor
  · intro h
    obtain ⟨q, rest, hsplit, ⟨w', rfl, hbody⟩, hlength⟩ := QuoteMatcher.quoted_of_find h
    have hrest : rest = [] := by
      rw [hsplit, List.length_append] at hlength
      exact List.eq_nil_of_length_eq_zero (by omega)
    rw [hrest, List.append_nil] at hsplit
    rw [(List.cons.inj hsplit).2]
    exact hbody
  · intro h
    have hfind := QuoteMatcher.find_of_quoted (m := m) ⟨w, rfl, h⟩ []
    rwa [List.append_nil] at hfind

/-- Text between quotes is matched as one segment from which it can be read back exactly when there is no
backslash in it. -/
theorem quoteDdl_matched_iff (ddl : Text) {quoteC : Char} (h : quoteC ≠ '\\') :
    ({ quoteC } : QuoteMatcher).matcher.find (quoteDdl ddl quoteC) = .ok (quoteDdl ddl quoteC).length ∧
        unquote (quoteDdl ddl quoteC) = ddl ↔ '\\' ∉ ddl := by
  have hinner : ((quoteC :: (makeQuotableDdl ddl quoteC ++ [quoteC])).drop 1).dropLast = makeQuotableDdl ddl quoteC :=
    List.dropLast_concat
  have hbody : ({ quoteC } : QuoteMatcher).Body (makeQuotableDdl ddl quoteC ++ [quoteC]) ↔
      (ddlQuotation h).EscapedBody (makeQuotableDdl ddl quoteC ++ [quoteC]) :=
    QuoteMatcher.body_iff_escapedBody rfl rfl (fun c => by simp [QuoteMatcher.escapable]) _
  rw [quoteDdl_eq, ← body_and_unescape_iff h, ← hbody, unquote, hinner]
  exact and_congr_left fun _ => find_eq_length_iff _ _

theorem quoteDdl_matched_its :
    '\'' ≠ '\\' ∧ quoteDdl "it's".toList '\'' = "'it\\'s'".toList ∧
      (({ quoteC := '\'' } : QuoteMatcher).matcher.find (quoteDdl "it's".toList '\'') = .ok 7 ∧
        unquote (quoteDdl "it's".toList '\'') = "it's".toList) :=
  ⟨by decide, rfl, (quoteDdl_matched_iff "it's".toList (by decide)).mpr (by decide)⟩

/-- Behind a backslash that stands at the end the closing quote is skipped. -/
theorem quoteDdl_backslash_unmatched :
    quoteDdl ['\\'] '\'' = "'\\'".toList ∧
      ({ quoteC := '\'' } : QuoteMatcher).matcher.find (quoteDdl ['\\'] '\'') =
        .error (.malformedText 3 "unterminated quote".toList) ∧
      ¬ (({ quoteC := '\'' } : QuoteMatcher).matcher.find (quoteDdl ['\\'] '\'') =
          .ok (quoteDdl ['\\'] '\'').length ∧
        unquote (quoteDdl ['\\'] '\'') = ['\\']) := by
  refine ⟨rfl, rfl, ?_⟩
  rintro ⟨hfind, -⟩
  cases hfind

end Middle.NormalDdl
