import Middle.Lib.SqlTokens
import Middle.NormalDdl.CreateTable
import Middle.NormalDdl.QuotableDdl

/-! The clause that `migrate_ck_constraint_ddl` writes between the parentheses of a `CHECK`. It is made quotable
though no quotes stand around it (the loop that does this leaves `makeQuotableDdl`, by `replaceQuotes_eq`), and has a
backslash too many for each quote outside its comments. -/

namespace Middle.NormalDdl

open Lib.SqlTokens Universals

namespace CheckClause

/-- Each single quote of a clause stands in a comment. -/
def QuotesInComments (m : CommentMode) (clause : Text) : Prop :=
  ∀ before behind, clause = before ++ '\'' :: behind → (m.after before).inComment = true

/-- How many single quotes do not. -/
def quotesOutside : CommentMode → Text → Nat
  | _, [] => 0
  | m, c :: s => (if c = '\'' ∧ m.inComment = false then 1 else 0) + quotesOutside (m.step c).2 s

theorem quotesOutside_eq_zero_iff {m : CommentMode} {clause : Text} :
    quotesOutside m clause = 0 ↔ QuotesInComments m clause := by
  induction clause generalizing m with
  | nil =>
      refine iff_of_true rfl fun before behind h => ?_
      exact absurd h.symm (by simp)
  | cons c s ih =>
      unfold quotesOutside
      rw [Nat.add_eq_zero_iff, ih]
      constructor
      · rintro ⟨hfirst, hrest⟩ before behind h
        cases before with
        | nil =>
            obtain ⟨rfl, -⟩ := List.cons.inj h
            by_contra hcode
            rw [if_pos ⟨rfl, eq_false_of_ne_true hcode⟩] at hfirst
            cases hfirst
        | cons d before =>
            obtain ⟨rfl, rfl⟩ := List.cons.inj h
            rw [CommentMode.after_cons]
            exact hrest before behind rfl
      · intro hall
        refine ⟨?_, fun before behind h => hall (c :: before) behind (by rw [h]; rfl)⟩
        rw [if_neg]
        rintro ⟨rfl, hcode⟩
        exact Bool.false_ne_true (hcode.symm.trans (hall [] s rfl))

/-! ### A backslash in front of a quote -/

section Step

variable {m : CommentMode}

theorem step_of_inComment (h : m.inComment = true) :
    (m.step '\\').1 = [] ∧ (m.step '\\').2.step '\'' = m.step '\'' := by
  cases m with
  | line | block | star => exact ⟨rfl, rfl⟩
  | code | dash | slash | quoted _ => cases h

/-- Outside comments the backslash stays, and changes nothing of what the quote does. -/
theorem step_of_not_inComment (h : m.inComment = false) :
    ((m.step '\\').2.step '\'').2 = (m.step '\'').2 ∧
      (m.step '\\').1 ++ ((m.step '\\').2.step '\'').1 = m.pending ++ ['\\', '\''] ∧
      (m.step '\'').1 = m.pending ++ ['\''] := by
  cases m with
  | code | dash | slash => exact ⟨rfl, rfl, rfl⟩
  | quoted quote => cases quote <;> exact ⟨rfl, rfl, rfl⟩
  | line | block | star => cases h

end Step

theorem strip_makeQuotableDdl_quote (m : CommentMode) (s : Text) :
    m.strip (makeQuotableDdl ('\'' :: s)) =
      (m.step '\\').1 ++ ((m.step '\\').2.step '\'').1 ++
        ((m.step '\\').2.step '\'').2.strip (makeQuotableDdl s) := by
  rw [makeQuotableDdl_quote, CommentMode.strip_cons, CommentMode.strip_cons, List.append_assoc]

/-- With the comments taken out there is a backslash more for each quote outside them. -/
theorem count_strip_makeQuotableDdl (m : CommentMode) (clause : Text) :
    (m.strip (makeQuotableDdl clause)).count '\\' = (m.strip clause).count '\\' + quotesOutside m clause := by
  induction clause generalizing m with
  | nil => rfl
  | cons c s ih =>
      unfold quotesOutside
      rw [CommentMode.strip_cons, List.count_append]
      by_cases hc : c = '\''
      · subst hc
        rw [strip_makeQuotableDdl_quote]
        cases hcomment : m.inComment with
        | true =>
            obtain ⟨hnil, hstep⟩ := step_of_inComment hcomment
            rw [hnil, hstep, List.nil_append, List.count_append, ih, if_neg (by simp)]
            omega
        | false =>
            obtain ⟨hmode, hleft, hquote⟩ := step_of_not_inComment hcomment
            have hbackslash : ['\\', '\''].count '\\' = 1 := rfl
            have hnone : ['\''].count '\\' = 0 := rfl
            rw [hleft, hmode, hquote, if_pos ⟨rfl, rfl⟩, List.count_append, List.count_append, List.count_append, ih,
              hbackslash, hnone]
            omega
      · rw [makeQuotableDdl_of_ne hc, CommentMode.strip_cons, List.count_append, ih, if_neg fun h => hc h.1]
        omega

/-- Quotes in comments are gone with what has been put in front of them. -/
theorem strip_makeQuotableDdl {m : CommentMode} {clause : Text} (h : QuotesInComments m clause) :
    m.strip (makeQuotableDdl clause) = m.strip clause := by
  induction clause generalizing m with
  | nil => rfl
  | cons c s ih =>
      have hrest : QuotesInComments (m.step c).2 s := fun before behind hs =>
        h (c :: before) behind (by rw [hs]; rfl)
      by_cases hc : c = '\''
      · subst hc
        have hcomment : m.inComment = true := h [] s rfl
        obtain ⟨hnil, hstep⟩ := step_of_inComment hcomment
        rw [strip_makeQuotableDdl_quote, hnil, hstep, List.nil_append, ih hrest, CommentMode.strip_cons]
      · rw [makeQuotableDdl_of_ne hc, CommentMode.strip_cons, CommentMode.strip_cons, ih hrest]

theorem sqlTokens_makeQuotableDdl_iff (clause : Text) :
    sqlTokens (makeQuotableDdl clause) = sqlTokens clause ↔ QuotesInComments .code clause := by
  unfold sqlTokens
  constructor
  · intro h
    have hcount := congrArg (fun tokens => (tokens.flatMap SqlToken.chars).count '\\') h
    rw [TokenMode.count_tokens rfl rfl, TokenMode.count_tokens rfl rfl, count_strip_makeQuotableDdl] at hcount
    exact quotesOutside_eq_zero_iff.mp (by omega)
  · intro h
    rw [strip_makeQuotableDdl h]

end CheckClause

/-- What stands between the parentheses of a `CHECK` has the tokens of the clause exactly when each single quote
of that stands in a comment. -/
theorem render_addCheck_sqlTokens_iff (stcname : DdlStcname) (constraintName checkClause : Text) :
    ∃ written, (DdlStatement.addCheck stcname constraintName checkClause).render =
        "ALTER TABLE ".toList ++ stcname.stname.name ++ " ADD CONSTRAINT ".toList ++ constraintName ++
          " CHECK(".toList ++ written ++ ");\n".toList ∧
      (sqlTokens written = sqlTokens checkClause ↔ CheckClause.QuotesInComments .code checkClause) :=
  ⟨makeQuotableDdl checkClause, rfl, CheckClause.sqlTokens_makeQuotableDdl_iff checkClause⟩

/-- The quotes of a literal stand in the code. -/
theorem render_addCheck_literal :
    (DdlStatement.addCheck (.ofStname dboT "a".toList) "ck_a".toList "a = 'x'".toList).render =
        "ALTER TABLE ".toList ++ "dbo.t".toList ++ " ADD CONSTRAINT ".toList ++ "ck_a".toList ++
          " CHECK(".toList ++ "a = \\'x\\'".toList ++ ");\n".toList ∧
      sqlTokens "a = 'x'".toList = [.word "a".toList, .symbol '=', .quoted .single "x".toList] ∧
      sqlTokens "a = \\'x\\'".toList =
        [.word "a".toList, .symbol '=', .symbol '\\', .quoted .single "x\\".toList] ∧
      sqlTokens "a = \\'x\\'".toList ≠ sqlTokens "a = 'x'".toList := by
  refine ⟨by decide, by decide, by decide, by decide⟩

end Middle.NormalDdl
