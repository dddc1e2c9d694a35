import Middle.Lib.Quotation
import Middle.Universals.Text

/-! The text matchers and the scanning loop `basic_text_processor`. An iterator into a text is the
number of characters before it; a matcher is given what is left of the text and says how far it
matched. -/

namespace Middle.Universals

/-- How a call of the program ends when it does not return. The exceptions carry what `what()`
returns; `assertion` is a failed `assert` and `undefined` an operation the language leaves undefined
(reading past an end, a dangling pointer, an uninitialised value). -/
inductive Fault where
  | rejectedText (textPos : Nat) (what : Text)
  | malformedText (textPos : Nat) (what : Text)
  | invalidArgument (what : Text)
  | runtimeError (what : Text)
  | logicError (what : Text)
  | prefsError (what : Text)
  | badLexicalCast
  | assertion
  | undefined
  /-- A loop without a bound of its own was still running when the model's fuel was used up. -/
  | outOfFuel
  deriving DecidableEq, Repr

/-- The faults that are a `std::invalid_argument`: the two text errors derive from it. -/
def Fault.isInvalidArgument : Fault → Bool
  | .rejectedText .. | .malformedText .. | .invalidArgument _ => true
  | _ => false

/-- The two exceptions of the text processor itself. -/
def Fault.isTextError : Fault → Bool
  | .rejectedText .. | .malformedText .. => true
  | _ => false

theorem Fault.isInvalidArgument_of_isTextError {e : Fault} (h : e.isTextError = true) :
    e.isInvalidArgument = true := by
  cases e <;> first | rfl | cases h

/-- A sequence of fallible steps returns when each of them does. -/
theorem bind_eq_ok {α β : Type} {x : Except Fault α} {f : α → Except Fault β} {b : β} :
    x >>= f = .ok b ↔ ∃ a, x = .ok a ∧ f a = .ok b := by
  cases x with
  | error e =>
      constructor
      · intro h
        cases h
      · rintro ⟨a, h, -⟩
        cases h
  | ok a =>
      constructor
      · exact fun h => ⟨a, rfl, h⟩
      · rintro ⟨a', h, hf⟩
        cases h
        exact hf

/-- `basic_text_matcher`: `find` is the distance `match` advances, 0 where it does not match. -/
structure TextMatcher where
  find : Text → Except Fault Nat
  what : Text

/-! ### Quotes -/

structure QuoteMatcher where
  quoteC : Char := '\''
  escapeC : Char := '\\'
  escapables : Option Text := none

namespace QuoteMatcher

/-- Whether `c` may stand behind the escape character. -/
def escapable (m : QuoteMatcher) (c : Char) : Bool :=
  c = m.quoteC || c = m.escapeC || m.escapables.all (c ∈ ·)

/-- The loop of `match`, with `pos` characters of the segment behind it. -/
def scan (m : QuoteMatcher) : Nat → Text → Except Fault Nat
  | pos, [] => .error (.malformedText pos "unterminated quote".toList)
  | pos, c :: s =>
      if c = m.escapeC then
        match s with
        | [] => .error (.malformedText (pos + 1) "unterminated escape inside quote".toList)
        | e :: s =>
            if m.escapable e then scan m (pos + 2) s
            else .error (.malformedText (pos + 1) "illegal escape inside quote".toList)
      else if c = m.quoteC then .ok (pos + 1)
      else scan m (pos + 1) s

/-- `basic_quote_matcher`. -/
def matcher (m : QuoteMatcher) : TextMatcher where
  find
    | [] => .ok 0
    | c :: s => if c = m.quoteC then m.scan 1 s else .ok 0
  what := [m.quoteC]

/-- A segment behind its opening quote, up to and with the quote that closes it. -/
inductive Body (m : QuoteMatcher) : Text → Prop
  | close (h : m.quoteC ≠ m.escapeC) : Body m [m.quoteC]
  | escaped {e : Char} {w : Text} (he : m.escapable e) (hw : Body m w) : Body m (m.escapeC :: e :: w)
  | plain {c : Char} {w : Text} (hesc : c ≠ m.escapeC) (hquote : c ≠ m.quoteC) (hw : Body m w) :
      Body m (c :: w)

/-- Where anything may stand behind the escape, a segment is closed where the escaped reading of its quote
closes it. -/
theorem body_iff_escapedBody {m : QuoteMatcher} {Q : Lib.Quotation Char} (hquote : Q.quote = m.quoteC)
    (hescape : Q.escape = m.escapeC) (hall : ∀ c, m.escapable c = true) (w : Text) : m.Body w ↔ Q.EscapedBody w := by
  constructor
  · intro h
    induction h with
    | close =>
        rw [← hquote]
        exact .close
    | escaped he hw ih =>
        rw [← hescape]
        exact .escaped ih
    | plain hesc hne hw ih => exact .other (hescape ▸ hesc) (hquote ▸ hne) ih
  · intro h
    induction h with
    | close =>
        rw [hquote]
        exact .close (hquote ▸ hescape ▸ Q.quote_ne_escape)
    | escaped hw ih =>
        rw [hescape]
        exact .escaped (hall _) ih
    | other hesc hne hw ih => exact .plain (hescape ▸ hesc) (hquote ▸ hne) ih

theorem Body.getLast? {m : QuoteMatcher} {w : Text} (h : m.Body w) : w.getLast? = some m.quoteC := by
  induction h with
  | close => rfl
  | escaped he hw ih =>
      rw [List.getLast?_cons_cons, List.getLast?_cons, ih]
      rfl
  | plain hesc hquote hw ih =>
      rw [List.getLast?_cons, ih]
      rfl

/-- A closed quoted segment, with both its quotes. -/
def Quoted (m : QuoteMatcher) (q : Text) : Prop := ∃ w, q = m.quoteC :: w ∧ m.Body w

theorem scan_of_body {m : QuoteMatcher} {w : Text} (h : m.Body w) (pos : Nat) (rest : Text) :
    m.scan pos (w ++ rest) = .ok (pos + w.length) := by
  induction h generalizing pos with
  | close hne =>
      rw [List.singleton_append, scan.eq_def]
      simp [hne]
  | escaped he hw ih =>
      rw [List.cons_append, List.cons_append, scan, if_pos rfl]
      simp only [he, if_true, ih, List.length_cons]
      congr 1
      omega
  | plain hesc hquote hw ih =>
      rw [List.cons_append, scan.eq_def]
      simp only [hesc, hquote, if_false, ih, List.length_cons]
      congr 1
      omega

theorem body_of_scan {m : QuoteMatcher} {pos n : Nat} {s : Text} (h : m.scan pos s = .ok n) :
    ∃ w rest, s = w ++ rest ∧ m.Body w ∧ n = pos + w.length := by
  fun_induction scan m pos s with
  | case1 => cases h
  | case2 => cases h
  | case3 pos e s he ih =>
      obtain ⟨w, rest, rfl, hw, rfl⟩ := ih h
      refine ⟨m.escapeC :: e :: w, rest, rfl, .escaped he hw, ?_⟩
      simp only [List.length_cons]
      omega
  | case4 => cases h
  | case5 pos s hne =>
      exact ⟨[m.quoteC], s, rfl, .close hne, (Except.ok.inj h).symm⟩
  | case6 pos c s hesc hquote ih =>
      obtain ⟨w, rest, rfl, hw, rfl⟩ := ih h
      refine ⟨c :: w, rest, rfl, .plain hesc hquote hw, ?_⟩
      simp only [List.length_cons]
      omega

theorem find_of_quoted {m : QuoteMatcher} {q : Text} (h : m.Quoted q) (rest : Text) :
    m.matcher.find (q ++ rest) = .ok q.length := by
  obtain ⟨w, rfl, hw⟩ := h
  simp only [matcher, List.cons_append, if_true, scan_of_body hw, List.length_cons, Nat.add_comm]

theorem find_of_ne_quote {m : QuoteMatcher} {c : Char} (h : c ≠ m.quoteC) (s : Text) :
    m.matcher.find (c :: s) = .ok 0 := if_neg h

theorem isTextError_of_find {m : QuoteMatcher} {s : Text} {e : Fault} (h : m.matcher.find s = .error e) :
    e.isTextError = true := by
  have hscan : ∀ pos s, m.scan pos s = .error e → e.isTextError = true := by
    intro pos s h
    fun_induction scan m pos s with
    | case1 | case2 | case4 =>
        cases h
        rfl
    | case3 pos e s he ih => exact ih h
    | case5 => cases h
    | case6 pos c s hesc hquote ih => exact ih h
  simp only [matcher] at h
  split at h
  · cases h
  · split at h
    · exact hscan _ _ h
    · cases h

theorem quoted_of_find {m : QuoteMatcher} {s : Text} {n : Nat}
    (h : m.matcher.find (m.quoteC :: s) = .ok n) :
    ∃ q rest, m.quoteC :: s = q ++ rest ∧ m.Quoted q ∧ n = q.length := by
  simp only [matcher, if_true] at h
  obtain ⟨w, rest, rfl, hw, rfl⟩ := body_of_scan h
  exact ⟨m.quoteC :: w, rest, rfl, ⟨w, rfl, hw⟩, Nat.add_comm _ _⟩

end QuoteMatcher

/-! ### Comments -/

/-- The loop of `basic_block_comment_matcher::match`, with `pos` characters of the comment behind it. -/
def closeComment (closer : Text) : Nat → Text → Except Fault Nat
  | pos, [] =>
      if closer = [] then .ok pos
      else .error (.malformedText pos "unterminated block comment".toList)
  | pos, c :: s =>
      if s.length + 1 < closer.length then
        .error (.malformedText pos "unterminated block comment".toList)
      else if closer <+: c :: s then .ok (pos + closer.length)
      else closeComment closer (pos + 1) s

/-- `basic_block_comment_matcher`. -/
def blockCommentMatcher (opener : Text := "/*".toList) (closer : Text := "*/".toList) :
    TextMatcher where
  find s :=
    if s ≠ [] ∧ opener <+: s then closeComment closer opener.length (s.drop opener.length)
    else .ok 0
  what := opener

/-- `basic_line_comment_matcher`: up to and including the next line end, or all there is. -/
def lineCommentMatcher (opener : Text := "//".toList) : TextMatcher where
  find s :=
    if s ≠ [] ∧ opener <+: s then
      let line := (s.drop opener.length).takeWhile (· ≠ '\n')
      .ok (min (opener.length + line.length + 1) s.length)
    else .ok 0
  what := opener

theorem closeComment_ok {closer s : Text} {pos n : Nat} (h : closeComment closer pos s = .ok n) :
    pos ≤ n := by
  fun_induction closeComment closer pos s with
  | case1 pos => exact (Except.ok.inj h).le
  | case2 => cases h
  | case3 => cases h
  | case4 pos => exact (Nat.le_add_right pos _).trans (Except.ok.inj h).le
  | case5 pos c s _ _ ih => exact (Nat.le_succ pos).trans (ih h)

theorem isTextError_of_blockComment_find {opener closer s : Text} {e : Fault}
    (h : (blockCommentMatcher opener closer).find s = .error e) : e.isTextError = true := by
  have hclose : ∀ pos s, closeComment closer pos s = .error e → e.isTextError = true := by
    intro pos s h
    fun_induction closeComment closer pos s with
    | case1 => cases h
    | case2 | case3 =>
        cases h
        rfl
    | case4 => cases h
    | case5 pos c s _ _ ih => exact ih h
  simp only [blockCommentMatcher] at h
  split at h
  · exact hclose _ _ h
  · cases h

theorem lineComment_find_ok {opener s : Text} {e : Fault} :
    (lineCommentMatcher opener).find s ≠ .error e := by
  simp only [lineCommentMatcher]
  split <;> simp

/-- A block comment is matched exactly where its opener stands. -/
theorem blockCommentMatcher_find_eq_zero_iff {opener closer s : Text} (hopener : opener ≠ []) :
    (blockCommentMatcher opener closer).find s = .ok 0 ↔ ¬ opener <+: s := by
  have hpos := List.length_pos_iff.mpr hopener
  by_cases hs : s ≠ [] ∧ opener <+: s
  · refine iff_of_false (fun h => ?_) (not_not.mpr hs.2)
    simp only [blockCommentMatcher, if_pos hs] at h
    exact absurd (closeComment_ok h) (by omega)
  · refine iff_of_true (if_neg hs) fun h => hs ⟨?_, h⟩
    rintro rfl
    exact hopener (List.prefix_nil.mp h)

theorem lineCommentMatcher_find_eq_zero_iff {opener s : Text} (hopener : opener ≠ []) :
    (lineCommentMatcher opener).find s = .ok 0 ↔ ¬ opener <+: s := by
  have hpos := List.length_pos_iff.mpr hopener
  by_cases hs : s ≠ [] ∧ opener <+: s
  · refine iff_of_false (fun h => ?_) (not_not.mpr hs.2)
    simp only [lineCommentMatcher, if_pos hs] at h
    have hs' := List.length_pos_iff.mpr hs.1
    have := Except.ok.inj h
    omega
  · refine iff_of_true (if_neg hs) fun h => hs ⟨?_, h⟩
    rintro rfl
    exact hopener (List.prefix_nil.mp h)

/-! ### The scanning loop -/

/-- What stood behind `basic_text_match::matcher`: a mask or the application's own matcher. -/
inductive MatchedBy where
  | mask
  | app
  deriving DecidableEq, Repr

/-- `basic_text_match`: the span from the current position; `matchedBy = none` is the null matcher
of a single plain character. -/
structure TextMatch where
  len : Nat
  matchedBy : Option MatchedBy

/-- `basic_process_match_result`, its iterator counted from the current position. -/
structure ProcessMatchResult where
  len : Nat
  atMatchesEnd : Bool

/-- `basic_text_processor` over the state `σ` of a deriving class, which survives a throw. -/
structure TextProcessor (σ : Type) where
  appMatcher : TextMatcher
  maskMatchers : List TextMatcher := []
  rejectMatchers : List TextMatcher := []
  processMatch : Text → TextMatch → EStateM Fault σ ProcessMatchResult
  atTextEnd : Nat → EStateM Fault σ Nat := fun textCend => pure textCend

/-- The first matcher of a list that matches here, and how far. -/
def firstMatch : List TextMatcher → Text → Except Fault (Option (TextMatcher × Nat))
  | [], _ => .ok none
  | m :: ms, s =>
      match m.find s with
      | .error e => .error e
      | .ok n => if n = 0 then firstMatch ms s else .ok (some (m, n))

theorem fault_of_firstMatch {P : Fault → Prop} {ms : List TextMatcher} {s : Text} {e : Fault}
    (hms : ∀ m ∈ ms, m.find s = .error e → P e) (h : firstMatch ms s = .error e) : P e := by
  induction ms with
  | nil => cases h
  | cons m ms ih =>
      rw [firstMatch] at h
      split at h
      · rename_i hfind
        cases h
        exact hms m (by simp) hfind
      · split at h
        · exact ih (fun m hm => hms m (by simp [hm])) h
        · cases h

namespace TextProcessor

variable {σ : Type} (p : TextProcessor σ)

/-- The body of the loop of `process_text` up to its call of `process_match`. -/
def nextMatch (pos : Nat) (s : Text) : Except Fault TextMatch :=
  match firstMatch p.rejectMatchers s with
  | .error e => .error e
  | .ok (some (m, _)) => .error (.rejectedText pos m.what)
  | .ok none =>
      match firstMatch p.maskMatchers s with
      | .error e => .error e
      | .ok (some (_, n)) => .ok ⟨n, some .mask⟩
      | .ok none =>
          match p.appMatcher.find s with
          | .error e => .error e
          | .ok n => .ok (if n = 0 then ⟨1, none⟩ else ⟨n, some .app⟩)

theorem find_of_nextMatch_app {pos : Nat} {s : Text} {m : TextMatch} (h : p.nextMatch pos s = .ok m)
    (happ : m.matchedBy = some .app) : p.appMatcher.find s = .ok m.len := by
  rw [nextMatch] at h
  split at h
  · cases h
  · cases h
  · split at h
    · cases h
    · cases h
      cases happ
    · split at h
      · cases h
      · rename_i n hfind
        cases h
        split at happ
        · cases happ
        · rename_i hn
          rw [if_neg hn]
          exact hfind

/-- The loop of `process_text` from position `pos`, of which the last match has already taken the
next `skip` characters. -/
def processFrom : Nat → Nat → Text → EStateM Fault σ Nat
  | _, pos, [] => p.atTextEnd pos
  | skip + 1, pos, _ :: s => processFrom skip (pos + 1) s
  | 0, pos, c :: s => fun st =>
      match p.nextMatch pos (c :: s) with
      | .error e => .error e st
      | .ok m =>
          match (p.processMatch (c :: s) m).run st with
          | .error e st => .error e st
          | .ok r st =>
              if r.atMatchesEnd then .ok (pos + r.len) st
              else (processFrom (r.len - 1) (pos + 1) s).run st

/-- `basic_text_processor::process_text`. -/
def processText (text : Text) : EStateM Fault σ Nat := p.processFrom 0 0 text

theorem run_processFrom_zero_cons (pos : Nat) (c : Char) (s : Text) (st : σ) :
    (p.processFrom 0 pos (c :: s)).run st =
      match p.nextMatch pos (c :: s) with
      | .error e => .error e st
      | .ok m =>
          match (p.processMatch (c :: s) m).run st with
          | .error e st => .error e st
          | .ok r st =>
              if r.atMatchesEnd then .ok (pos + r.len) st
              else (p.processFrom (r.len - 1) (pos + 1) s).run st := rfl

/-- Characters already taken are dropped, and the loop goes on behind them. -/
theorem processFrom_skip (skip pos : Nat) (s : Text) (h : skip ≤ s.length) :
    p.processFrom skip pos s = p.processFrom 0 (pos + skip) (s.drop skip) := by
  induction s generalizing skip pos with
  | nil =>
      obtain rfl : skip = 0 := Nat.le_zero.mp h
      rfl
  | cons c s ih =>
      cases skip with
      | zero => rfl
      | succ skip =>
          rw [processFrom, ih skip (pos + 1) (Nat.le_of_succ_le_succ h), List.drop_succ_cons]
          congr 1
          omega

/-- What the parts of a processor throw is all its loop throws. -/
theorem fault_of_processFrom {P : Fault → Prop}
    (hnext : ∀ pos c s e, p.nextMatch pos (c :: s) = .error e → P e)
    (hmatch : ∀ pos c s m st e st', p.nextMatch pos (c :: s) = .ok m →
      (p.processMatch (c :: s) m).run st = .error e st' → P e)
    (hend : ∀ pos st e st', (p.atTextEnd pos).run st = .error e st' → P e)
    {skip pos : Nat} {s : Text} {st st' : σ} {e : Fault}
    (h : (p.processFrom skip pos s).run st = .error e st') : P e := by
  induction s generalizing skip pos st with
  | nil =>
      cases skip with
      | zero => exact hend _ _ _ _ h
      | succ skip => exact hend _ _ _ _ h
  | cons c s ih =>
      cases skip with
      | succ skip => exact ih h
      | zero =>
          rw [run_processFrom_zero_cons] at h
          split at h
          · rename_i hfail
            cases h
            exact hnext _ _ _ _ hfail
          · rename_i m hm
            split at h
            · rename_i hfail
              cases h
              exact hmatch _ _ _ _ _ _ _ hm hfail
            · split at h
              · cases h
              · exact ih h

/-- After a match of `len` characters the loop goes on behind them. -/
theorem processFrom_pred {len : Nat} {c : Char} {s : Text} (hpos : 0 < len) (hlen : len ≤ s.length + 1)
    (pos : Nat) :
    p.processFrom (len - 1) (pos + 1) s = p.processFrom 0 (pos + len) ((c :: s).drop len) := by
  obtain ⟨n, rfl⟩ := Nat.exists_eq_succ_of_ne_zero hpos.ne'
  rw [Nat.succ_sub_one, List.drop_succ_cons, processFrom_skip _ _ _ _ (by omega)]
  congr 1
  omega

end TextProcessor

/-- `basic_text_appender::append_text`: the appended text is moved out, which empties it, only when
`process_text` returns. -/
def appendText (p : TextProcessor Text) (text : Text) : EStateM Fault Text (Nat × Text) :=
  fun st =>
    match (p.processText text).run st with
    | .error e st => .error e st
    | .ok pos appended => .ok (pos, appended) []

theorem run_appendText (p : TextProcessor Text) (text st : Text) :
    (appendText p text).run st =
      match (p.processText text).run st with
      | .error e st => .error e st
      | .ok pos appended => .ok (pos, appended) [] := rfl

end Middle.Universals
