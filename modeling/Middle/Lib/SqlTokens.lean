import Mathlib

/-! The tokens of an SQL text. Comments are taken for blanks; what is left are words, literals and quoted
identifiers, in both of which a quote is doubled, and single characters. No character but blanks and quotes is
lost on the way. -/

namespace Lib.SqlTokens

/-- The quotes of literals and of identifiers. -/
inductive SqlQuote where
  | single
  | double
  deriving DecidableEq

def SqlQuote.char : SqlQuote → Char
  | single => '\''
  | double => '"'

/-- The quote that a character is. -/
def quoteOf? (c : Char) : Option SqlQuote :=
  if c = '\'' then some .single else if c = '"' then some .double else none

theorem quoteOf?_eq_some_iff {c : Char} {quote : SqlQuote} : quoteOf? c = some quote ↔ c = quote.char := by
  unfold quoteOf?
  split
  · rename_i hc
    subst hc
    cases quote <;> decide
  · split
    · rename_i hc
      subst hc
      cases quote <;> decide
    · rename_i hsingle hdouble
      refine iff_of_false (fun h => by cases h) ?_
      cases quote with
      | single => exact hsingle
      | double => exact hdouble

/-! ### Comments -/

/-- Where a text stands with regard to comments. -/
inductive CommentMode where
  | code
  | dash
  | slash
  | quoted (quote : SqlQuote)
  | line
  | block
  | star
  deriving DecidableEq

namespace CommentMode

/-- Inside a comment. -/
def inComment : CommentMode → Bool
  | line | block | star => true
  | code | dash | slash | quoted _ => false

/-- What a character comes to outside comments and quotes: what is left of it, and the mode behind it. -/
def stepCode (c : Char) : List Char × CommentMode :=
  if c = '-' then ([], dash)
  else if c = '/' then ([], slash)
  else ([c], (quoteOf? c).elim code quoted)

/-- What has been read and may still open a comment. -/
def pending : CommentMode → List Char
  | dash => ['-']
  | slash => ['/']
  | code | quoted _ | line | block | star => []

def step : CommentMode → Char → List Char × CommentMode
  | code, c => stepCode c
  | dash, c => if c = '-' then ([' '], line) else ('-' :: (stepCode c).1, (stepCode c).2)
  | slash, c => if c = '*' then ([' '], block) else ('/' :: (stepCode c).1, (stepCode c).2)
  | quoted quote, c => ([c], if c = quote.char then code else quoted quote)
  | line, c => if c = '\n' then ([c], code) else ([], line)
  | block, c => ([], if c = '*' then star else block)
  | star, c => ([], if c = '/' then code else if c = '*' then star else block)

/-- The mode behind a text. -/
def after (m : CommentMode) (s : List Char) : CommentMode := s.foldl (fun m c => (m.step c).2) m

/-- A text without its comments, from a mode on. -/
def strip : CommentMode → List Char → List Char
  | m, [] => m.pending
  | m, c :: s => (m.step c).1 ++ strip (m.step c).2 s

theorem after_cons (m : CommentMode) (c : Char) (s : List Char) : m.after (c :: s) = (m.step c).2.after s := rfl

theorem strip_cons (m : CommentMode) (c : Char) (s : List Char) :
    m.strip (c :: s) = (m.step c).1 ++ (m.step c).2.strip s := rfl

/-! ### What follows a text -/

/-- Outside comments and quotes. -/
def inCode : CommentMode → Bool
  | code | dash | slash => true
  | quoted _ | line | block | star => false

/-- Inside a comment that no line feed ends. -/
def inBlock : CommentMode → Bool
  | block | star => true
  | code | dash | slash | quoted _ | line => false

/-- What of a text is left in front of another one. -/
def kept : CommentMode → List Char → List Char
  | _, [] => []
  | m, c :: s => (m.step c).1 ++ kept (m.step c).2 s

theorem strip_append (m : CommentMode) (s t : List Char) : m.strip (s ++ t) = m.kept s ++ (m.after s).strip t := by
  induction s generalizing m with
  | nil => rfl
  | cons c s ih => rw [List.cons_append, strip_cons, ih, kept, after_cons, List.append_assoc]

theorem strip_eq_kept (m : CommentMode) (s : List Char) : m.strip s = m.kept s ++ (m.after s).pending := by
  have happend := strip_append m s []
  rw [List.append_nil] at happend
  exact happend

/-- A text is read up to its end as code, whatever follows. -/
def EndsInCode (s : List Char) : Prop := (code.after s).inCode = true

instance (s : List Char) : Decidable (EndsInCode s) := inferInstanceAs (Decidable ((code.after s).inCode = true))

/-- No comment is closed in a text that stands in one. -/
theorem inBlock_of_not_infix {m : CommentMode} (hm : m.inBlock = true) {s : List Char}
    (hs : ¬ ['*', '/'] <:+: s) (hstar : m = star → s.head? ≠ some '/') :
    m.kept s = [] ∧ (m.after s).inBlock = true := by
  induction s generalizing m with
  | nil => exact ⟨rfl, hm⟩
  | cons c s ih =>
      have hrest : ¬ ['*', '/'] <:+: s := fun h => hs (h.trans (List.suffix_cons c s).isInfix)
      have hnext (hc : c = '*') : s.head? ≠ some '/' := by
        intro hhead
        obtain ⟨s', rfl⟩ := List.head?_eq_some_iff.mp hhead
        exact hs ⟨[], s', by rw [hc]; rfl⟩
      have hstep : (m.step c).1 = [] ∧ (m.step c).2 = if c = '*' then star else block := by
        cases m with
        | block => exact ⟨rfl, rfl⟩
        | star =>
            have hc : c ≠ '/' := fun hc => hstar rfl (congrArg some hc)
            exact ⟨rfl, if_neg hc⟩
        | code | dash | slash | quoted _ | line => cases hm
      rw [kept, after_cons, hstep.1, hstep.2, List.nil_append]
      split
      · rename_i hc
        exact ih rfl hrest fun _ => hnext hc
      · exact ih rfl hrest fun h => by cases h

end CommentMode

/-! ### Tokens -/

inductive SqlToken where
  | word (text : List Char)
  /-- A literal or an identifier, by its quote. -/
  | quoted (quote : SqlQuote) (text : List Char)
  | symbol (c : Char)
  deriving DecidableEq

def SqlToken.chars : SqlToken → List Char
  | word text | quoted _ text => text
  | symbol c => [c]

def isWordChar (c : Char) : Bool := c.isAlphanum || c = '_'

/-- Where a text without comments stands. -/
inductive TokenMode where
  | between
  | word (text : List Char)
  | quoted (quote : SqlQuote) (text : List Char)
  /-- Behind a quote that closes the token unless it is doubled. -/
  | closed (quote : SqlQuote) (text : List Char)

namespace TokenMode

/-- A token begins, or a blank is passed over. -/
def start (c : Char) : List SqlToken × TokenMode :=
  if isWordChar c then ([], word [c])
  else
    match quoteOf? c with
    | some quote => ([], quoted quote [])
    | none => if c.isWhitespace then ([], between) else ([.symbol c], between)

def step : TokenMode → Char → List SqlToken × TokenMode
  | between, c => start c
  | word text, c => if isWordChar c then ([], word (text ++ [c])) else (.word text :: (start c).1, (start c).2)
  | quoted quote text, c => ([], if c = quote.char then closed quote text else quoted quote (text ++ [c]))
  | closed quote text, c =>
      if c = quote.char then ([], quoted quote (text ++ [c])) else (.quoted quote text :: (start c).1, (start c).2)

/-- The token a text ends in. -/
def flush : TokenMode → List SqlToken
  | between => []
  | word text => [.word text]
  | quoted quote text | closed quote text => [.quoted quote text]

/-- The tokens of a text without comments, from a mode on. -/
def tokens : TokenMode → List Char → List SqlToken
  | m, [] => m.flush
  | m, c :: s => (m.step c).1 ++ tokens (m.step c).2 s

/-! ### What is kept -/

/-- The characters of a token that has begun. -/
def held (m : TokenMode) : List Char := m.flush.flatMap SqlToken.chars

@[simp] theorem held_between : between.held = [] := rfl

@[simp] theorem held_word (text : List Char) : (word text).held = text := List.append_nil text

@[simp] theorem held_quoted (quote : SqlQuote) (text : List Char) : (quoted quote text).held = text :=
  List.append_nil text

@[simp] theorem held_closed (quote : SqlQuote) (text : List Char) : (closed quote text).held = text :=
  List.append_nil text

section Count

variable {x : Char}

theorem count_quote (hquote : quoteOf? x = none) (quote : SqlQuote) : [quote.char].count x = 0 := by
  rw [List.count_eq_zero, List.mem_singleton]
  rintro rfl
  cases hquote.symm.trans (quoteOf?_eq_some_iff.mpr rfl)

theorem count_start (hquote : quoteOf? x = none) (hblank : x.isWhitespace = false) (c : Char) :
    ((start c).1.flatMap SqlToken.chars).count x + (start c).2.held.count x = [c].count x := by
  unfold start
  split
  · simp
  · split
    · rename_i quote hc
      rw [quoteOf?_eq_some_iff.mp hc, count_quote hquote]
      rfl
    · split
      · rename_i hc
        have hne : x ≠ c := by
          rintro rfl
          cases hblank.symm.trans hc
        rw [List.count_eq_zero.mpr (List.mem_singleton.not.mpr hne)]
        rfl
      · rfl

/-- A step keeps its character, be it in a token that is finished or in the one that has begun. -/
theorem count_step (hquote : quoteOf? x = none) (hblank : x.isWhitespace = false) (m : TokenMode) (c : Char) :
    ((m.step c).1.flatMap SqlToken.chars).count x + (m.step c).2.held.count x = m.held.count x + [c].count x := by
  have hstart := count_start hquote hblank c
  have hbehind : ∀ token : SqlToken, ((token :: (start c).1).flatMap SqlToken.chars).count x + (start c).2.held.count x =
      token.chars.count x + [c].count x := by
    intro token
    rw [List.flatMap_cons, List.count_append, Nat.add_assoc, hstart]
  have hnil : (([] : List SqlToken).flatMap SqlToken.chars).count x = 0 := rfl
  cases m with
  | between =>
      rw [held_between, List.count_nil, Nat.zero_add]
      exact hstart
  | word text =>
      rw [step]
      split
      · rw [hnil, held_word, held_word, List.count_append, Nat.zero_add]
      · rw [held_word]
        exact hbehind (.word text)
  | quoted quote text =>
      rw [step]
      split
      · rename_i hc
        rw [hnil, held_closed, held_quoted, hc, count_quote hquote, Nat.zero_add, Nat.add_zero]
      · rw [hnil, held_quoted, held_quoted, List.count_append, Nat.zero_add]
  | closed quote text =>
      rw [step]
      split
      · rw [hnil, held_quoted, held_closed, List.count_append, Nat.zero_add]
      · rw [held_closed]
        exact hbehind (.quoted quote text)

theorem count_tokens (hquote : quoteOf? x = none) (hblank : x.isWhitespace = false) (m : TokenMode) (s : List Char) :
    ((m.tokens s).flatMap SqlToken.chars).count x = m.held.count x + s.count x := by
  induction s generalizing m with
  | nil => exact (Nat.add_zero _).symm
  | cons c s ih =>
      have hstep := count_step hquote hblank m c
      have hcons : (c :: s).count x = [c].count x + s.count x := by rw [← List.count_append]; rfl
      unfold tokens
      rw [List.flatMap_append, List.count_append, ih, hcons]
      omega

end Count

end TokenMode

/-- The tokens of a text. -/
def sqlTokens (s : List Char) : List SqlToken := TokenMode.between.tokens (CommentMode.code.strip s)

/-! ### Delimiters -/

/-- A character that ends a word and neither opens nor closes anything. -/
def isDelimiter (c : Char) : Bool := !isWordChar c && (quoteOf? c).isNone && c ≠ '-' && c ≠ '/' && c ≠ '*'

/-- What a delimiter is as a token. -/
def delimiterTokens (c : Char) : List SqlToken := if c.isWhitespace then [] else [.symbol c]

theorem isDelimiter_iff {c : Char} :
    isDelimiter c = true ↔ isWordChar c = false ∧ quoteOf? c = none ∧ c ≠ '-' ∧ c ≠ '/' ∧ c ≠ '*' := by
  simp [isDelimiter, and_assoc]

namespace TokenMode

/-- The mode behind a text. -/
def after (m : TokenMode) (s : List Char) : TokenMode := s.foldl (fun m c => (m.step c).2) m

/-- The tokens that are finished in a text. -/
def finished : TokenMode → List Char → List SqlToken
  | _, [] => []
  | m, c :: s => (m.step c).1 ++ finished (m.step c).2 s

theorem tokens_append (m : TokenMode) (s t : List Char) :
    m.tokens (s ++ t) = m.finished s ++ (m.after s).tokens t := by
  induction s generalizing m with
  | nil => rfl
  | cons c s ih => rw [List.cons_append, tokens, ih, finished, List.append_assoc]; rfl

theorem tokens_eq_finished (m : TokenMode) (s : List Char) : m.tokens s = m.finished s ++ (m.after s).flush := by
  have happend := tokens_append m s []
  rw [List.append_nil] at happend
  exact happend

/-- The quote that is open. -/
def openQuote : TokenMode → Option SqlQuote
  | quoted quote _ => some quote
  | between | word _ | closed _ _ => none

theorem start_delimiter {d : Char} (hd : isDelimiter d = true) : start d = (delimiterTokens d, between) := by
  obtain ⟨hword, hquote, -⟩ := isDelimiter_iff.mp hd
  rw [start, hword, if_neg Bool.false_ne_true, hquote, delimiterTokens]
  dsimp only
  split <;> rfl

/-- A delimiter ends the token that has begun. -/
theorem tokens_delimiter {m : TokenMode} (hm : m.openQuote = none) {d : Char} (hd : isDelimiter d = true)
    (s : List Char) : m.tokens (d :: s) = m.flush ++ (delimiterTokens d ++ between.tokens s) := by
  obtain ⟨hword, hquote, -⟩ := isDelimiter_iff.mp hd
  have hstart := start_delimiter hd
  cases m with
  | between => rw [tokens, step, hstart]; rfl
  | word text => rw [tokens, step, hword, if_neg Bool.false_ne_true, hstart]; rfl
  | closed quote text =>
      have hne : d ≠ quote.char := by
        rintro rfl
        cases hquote.symm.trans (quoteOf?_eq_some_iff.mpr rfl)
      rw [tokens, step, if_neg hne, hstart]
      rfl
  | quoted quote text => cases hm

/-- What a character outside quotes comes to. -/
theorem openQuote_step {m : TokenMode} (hm : m.openQuote = none) (c : Char) :
    (m.step c).2.openQuote = quoteOf? c := by
  have hstart : (start c).2.openQuote = quoteOf? c := by
    unfold start
    split
    · rename_i hword
      have hquote : quoteOf? c = none := by
        cases hc : quoteOf? c with
        | none => rfl
        | some quote =>
            rw [quoteOf?_eq_some_iff.mp hc] at hword
            cases quote <;> exact absurd hword (by decide)
      rw [hquote]
      rfl
    · split
      · rename_i quote hc
        rw [hc]
        rfl
      · rename_i hc
        rw [hc]
        split <;> rfl
  cases m with
  | between => exact hstart
  | word text =>
      rw [step]
      split
      · rename_i hword
        have hnone := hstart
        rw [start, hword, if_pos rfl] at hnone
        exact hnone
      · exact hstart
  | closed quote text =>
      rw [step]
      split
      · rename_i hc
        rw [quoteOf?_eq_some_iff.mpr hc]
        rfl
      · exact hstart
  | quoted quote text => cases hm

end TokenMode

namespace CommentMode

/-- The quote that is open, which the tokens keep track of, too. -/
def openQuote : CommentMode → Option SqlQuote
  | quoted quote => some quote
  | code | dash | slash | line | block | star => none

theorem openQuote_stepCode (c : Char) : (stepCode c).2.openQuote = quoteOf? c := by
  unfold stepCode
  split
  · rename_i hc
    rw [hc]
    rfl
  · split
    · rename_i hc
      rw [hc]
      rfl
    · dsimp only
      cases quoteOf? c <;> rfl

theorem openQuote_after_stepCode {τ : TokenMode} (hτ : τ.openQuote = none) (c : Char) :
    (τ.after (stepCode c).1).openQuote = quoteOf? c := by
  unfold stepCode
  split
  · rename_i hc
    rw [hc]
    exact hτ
  · split
    · rename_i hc
      rw [hc]
      exact hτ
    · exact TokenMode.openQuote_step hτ c

/-- The tokens of what is left of a text have a quote open when the text has. -/
theorem openQuote_step {m : CommentMode} {τ : TokenMode} (h : τ.openQuote = m.openQuote) (c : Char) :
    (τ.after (m.step c).1).openQuote = (m.step c).2.openQuote := by
  have hsymbol (d : Char) (hd : quoteOf? d = none) (hτ : τ.openQuote = none) :
      (τ.step d).2.openQuote = none := (TokenMode.openQuote_step hτ d).trans hd
  cases m with
  | code => exact (openQuote_after_stepCode h c).trans (openQuote_stepCode c).symm
  | dash =>
      rw [step]
      split
      · exact hsymbol ' ' rfl h
      · exact (openQuote_after_stepCode (hsymbol '-' rfl h) c).trans (openQuote_stepCode c).symm
  | slash =>
      rw [step]
      split
      · exact hsymbol ' ' rfl h
      · exact (openQuote_after_stepCode (hsymbol '/' rfl h) c).trans (openQuote_stepCode c).symm
  | quoted quote =>
      cases τ with
      | quoted quote' text =>
          cases Option.some.inj h
          show ((TokenMode.quoted quote text).step c).2.openQuote = _
          rw [TokenMode.step, step]
          dsimp only
          split <;> rfl
      | between | word _ | closed _ _ => cases h
  | line =>
      rw [step]
      split
      · rename_i hc
        exact hsymbol c (by rw [hc]; rfl) h
      · exact h
  | block =>
      rw [step]
      dsimp only
      split <;> exact h
  | star =>
      rw [step]
      dsimp only
      split
      · exact h
      · split <;> exact h

theorem openQuote_kept {m : CommentMode} {τ : TokenMode} (h : τ.openQuote = m.openQuote) (s : List Char) :
    (τ.after (m.kept s)).openQuote = (m.after s).openQuote := by
  induction s generalizing m τ with
  | nil => exact h
  | cons c s ih =>
      rw [kept, TokenMode.after, List.foldl_append]
      exact ih (openQuote_step h c)

/-- Outside comments and quotes a delimiter is read as such. -/
theorem step_delimiter {m : CommentMode} (hm : m.inCode = true) {d : Char} (hd : isDelimiter d = true) :
    m.step d = (m.pending ++ [d], code) := by
  obtain ⟨-, hquote, hdash, hslash, hstar⟩ := isDelimiter_iff.mp hd
  have hcode : stepCode d = ([d], code) := by rw [stepCode, if_neg hdash, if_neg hslash, hquote]; rfl
  cases m with
  | code => exact hcode
  | dash => rw [step, if_neg hdash, hcode]; rfl
  | slash => rw [step, if_neg hstar, hcode]; rfl
  | quoted _ | line | block | star => cases hm

end CommentMode

/-- A text that ends in code is read by itself when a delimiter follows. -/
theorem sqlTokens_delimiter {s : List Char} (hs : CommentMode.EndsInCode s) {d : Char} (hd : isDelimiter d = true)
    (t : List Char) : sqlTokens (s ++ d :: t) = sqlTokens s ++ (delimiterTokens d ++ sqlTokens t) := by
  have hpending : (TokenMode.between.after (CommentMode.code.strip s)).openQuote = none := by
    rw [CommentMode.strip_eq_kept, TokenMode.after, List.foldl_append]
    have hkept : (TokenMode.between.after (CommentMode.code.kept s)).openQuote = none := by
      rw [CommentMode.openQuote_kept rfl]
      unfold CommentMode.EndsInCode at hs
      cases hm : CommentMode.code.after s with
      | quoted quote =>
          rw [hm] at hs
          cases hs
      | code | dash | slash | line | block | star => rfl
    cases CommentMode.code.after s with
    | dash => exact TokenMode.openQuote_step hkept '-'
    | slash => exact TokenMode.openQuote_step hkept '/'
    | code | quoted _ | line | block | star => exact hkept
  have hstrip : CommentMode.code.strip (s ++ d :: t) =
      CommentMode.code.strip s ++ d :: CommentMode.code.strip t := by
    rw [CommentMode.strip_append, CommentMode.strip_cons, CommentMode.step_delimiter hs hd,
      CommentMode.strip_eq_kept CommentMode.code s]
    simp only [List.append_assoc, List.singleton_append]
  unfold sqlTokens
  rw [hstrip, TokenMode.tokens_append, TokenMode.tokens_delimiter hpending hd,
    TokenMode.tokens_eq_finished TokenMode.between (CommentMode.code.strip s), List.append_assoc]

theorem sqlTokens_delimiter_cons {d : Char} (hd : isDelimiter d = true) (t : List Char) :
    sqlTokens (d :: t) = delimiterTokens d ++ sqlTokens t :=
  sqlTokens_delimiter (s := []) rfl hd t

example : sqlTokens "a -- it's\n = 'it''s'".toList =
    [.word "a".toList, .symbol '=', .quoted .single "it's".toList] := by decide

end Lib.SqlTokens
