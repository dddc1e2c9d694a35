import Middle.Universals.TextProcessor

/-! `basic_macro_args_expander`: one parenthesised, comma separated argument list split into trimmed
tokens by the scanning loop. -/

namespace Middle.Universals

/-- The members of the tokenizer. `groupCnt` is exact: an `unsigned int` counter would only wrap
behind more than `2 ^ 32` open parentheses. -/
structure MacroArgs where
  groupCnt : Nat := 0
  tokens : List Text := []
  deriving DecidableEq, Repr

/-- `std::vector<std::string>::resize`. -/
def resize (n : Nat) (tokens : List Text) : List Text :=
  tokens.take n ++ List.replicate (n - tokens.length) []

/-- Apply `f` to `*tokens.rbegin()`. -/
def modifyBack (f : Text → Text) : List Text → List Text
  | [] => []
  | [t] => [f t]
  | t :: t' :: ts => t :: modifyBack f (t' :: ts)

theorem modifyBack_concat (f : Text → Text) (ts : List Text) (t : Text) :
    modifyBack f (ts ++ [t]) = ts ++ [f t] := by
  induction ts with
  | nil => rfl
  | cons t' ts ih =>
      cases ts with
      | nil => rfl
      | cons t'' ts => rw [List.cons_append, List.cons_append, modifyBack, ← List.cons_append, ih]; rfl

theorem resize_succ (ts : List Text) : resize (ts.length + 1) ts = ts ++ [[]] := by
  simp [resize]

namespace MacroArgs

/-- The span goes to the end of the current token, and the scan goes on behind it. -/
def append (st : MacroArgs) (s : Text) (len : Nat) : Except Fault (MacroArgs × ProcessMatchResult) :=
  .ok ({ st with tokens := modifyBack (· ++ s.take len) st.tokens }, ⟨len, false⟩)

/-- The comma between two arguments. -/
def nextArg (st : MacroArgs) : Except Fault (MacroArgs × ProcessMatchResult) :=
  let tokens := modifyBack trimBlanks st.tokens
  if tokens.getLast? = some [] then .error (.malformedText 0 "empty macro arg".toList)
  else .ok ({ st with tokens := resize (tokens.length + 1) tokens }, ⟨1, false⟩)

/-- The parenthesis that closes the list; `()` has no argument rather than an empty one. -/
def closeArgs (st : MacroArgs) : Except Fault (MacroArgs × ProcessMatchResult) :=
  let tokens := modifyBack trimBlanks st.tokens
  if tokens.getLast? = some [] then
    if 1 < tokens.length then .error (.malformedText 0 "empty macro arg".toList)
    else .ok (⟨0, []⟩, ⟨1, true⟩)
  else .ok (⟨0, tokens⟩, ⟨1, true⟩)

/-- A single plain character inside the list. -/
def plainChar (st : MacroArgs) (s : Text) : Except Fault (MacroArgs × ProcessMatchResult) :=
  match s.head? with
  | some '(' => append { st with groupCnt := st.groupCnt + 1 } s 1
  | some ')' =>
      if st.groupCnt - 1 = 0 then closeArgs st
      else append { st with groupCnt := st.groupCnt - 1 } s 1
  | some ',' => if st.groupCnt = 1 then nextArg st else append st s 1
  | _ => append st s 1

/-- `basic_macro_args_expander::process_match` on the members. What a throw leaves in them is never
read: every expander lives for one call. -/
def processMatch (st : MacroArgs) (s : Text) (m : TextMatch) :
    Except Fault (MacroArgs × ProcessMatchResult) :=
  if m.len = 0 then .error .assertion
  else if st.groupCnt = 0 then
    if m.matchedBy ≠ none then .error .assertion
    else if s.head? ≠ some '(' then
      .error (.malformedText 0 "missing '(' at beginning of macro args".toList)
    else .ok (⟨1, resize 1 st.tokens⟩, ⟨m.len, false⟩)
  -- `rbegin()` of an empty vector
  else if st.tokens = [] then .error .undefined
  else match m.matchedBy with
    | some _ => append st s m.len
    | none => if m.len ≠ 1 then .error .assertion else plainChar st s

theorem processMatch_plain (d : Nat) (done : List Text) (cur s : Text) :
    processMatch ⟨d + 1, done ++ [cur]⟩ s ⟨1, none⟩ = plainChar ⟨d + 1, done ++ [cur]⟩ s := by
  simp [processMatch]

/-- A quoted segment or what the application's matcher takes is appended as it stands. -/
theorem processMatch_of_matched (d : Nat) (done : List Text) (cur s : Text) {by' : MatchedBy} {len : Nat}
    (hlen : len ≠ 0) :
    processMatch ⟨d + 1, done ++ [cur]⟩ s ⟨len, some by'⟩ =
      .ok (⟨d + 1, done ++ [cur ++ s.take len]⟩, ⟨len, false⟩) := by
  simp [processMatch, append, modifyBack_concat, hlen]

/-- `basic_macro_args_expander::at_text_end`. -/
def atTextEnd (textCend : Nat) : EStateM Fault MacroArgs Nat :=
  throw (.malformedText textCend "missing ')' at end of macro args".toList)

/-- A tokenizer with `process_match` given on the members, as the two deriving classes have it. -/
def processor (appMatcher : TextMatcher) (maskMatchers rejectMatchers : List TextMatcher)
    (step : MacroArgs → Text → TextMatch → Except Fault (MacroArgs × ProcessMatchResult)) :
    TextProcessor MacroArgs where
  appMatcher := appMatcher
  maskMatchers := maskMatchers
  rejectMatchers := rejectMatchers
  processMatch s m := fun st =>
    match step st s m with
    | .error e => .error e st
    | .ok (st', r) => .ok r st'
  atTextEnd := atTextEnd

/-- `basic_text_tokenizer::tokenize_text` on a fresh tokenizer: the position reached and the
tokens. -/
def tokenizeText (p : TextProcessor MacroArgs) (text : Text) : Except Fault (Nat × List Text) :=
  match (p.processText text).run {} with
  | .error e _ => .error e
  | .ok pos st => .ok (pos, st.tokens)

theorem tokenizeText_eq_ok {p : TextProcessor MacroArgs} {text : Text} {pos : Nat} {tokens : List Text} :
    tokenizeText p text = .ok (pos, tokens) ↔
      ∃ st, (p.processText text).run {} = .ok pos st ∧ st.tokens = tokens := by
  unfold tokenizeText
  cases (p.processText text).run {} <;> simp

theorem tokenizeText_eq_error {p : TextProcessor MacroArgs} {text : Text} {e : Fault} :
    tokenizeText p text = .error e ↔ ∃ st, (p.processText text).run {} = .error e st := by
  unfold tokenizeText
  cases (p.processText text).run {} <;> simp

section Turn

variable {appMatcher : TextMatcher} {maskMatchers rejectMatchers : List TextMatcher}
  {step : MacroArgs → Text → TextMatch → Except Fault (MacroArgs × ProcessMatchResult)}
  {p : TextProcessor MacroArgs} (hp : p = processor appMatcher maskMatchers rejectMatchers step)

include hp

theorem run_processMatch (s : Text) (m : TextMatch) (st : MacroArgs) :
    (p.processMatch s m).run st = match step st s m with
      | .error e => .error e st
      | .ok (st', r) => .ok r st' := by
  subst hp
  rfl

/-- One turn of the loop: the match found, what `process_match` makes of it, and where it leaves the
scan. -/
theorem processFrom_ok_iff {pos pos' : Nat} {c : Char} {s : Text} {st st' : MacroArgs} :
    (p.processFrom 0 pos (c :: s)).run st = .ok pos' st' ↔
      ∃ m st₁ r, p.nextMatch pos (c :: s) = .ok m ∧ step st (c :: s) m = .ok (st₁, r) ∧
        if r.atMatchesEnd then pos + r.len = pos' ∧ st₁ = st'
        else (p.processFrom (r.len - 1) (pos + 1) s).run st₁ = .ok pos' st' := by
  rw [p.run_processFrom_zero_cons]
  cases hnext : p.nextMatch pos (c :: s) with
  | error e => simp
  | ok m =>
      simp only [run_processMatch hp, Except.ok.injEq, ↓existsAndEq, true_and]
      cases hstep : step st (c :: s) m with
      | error e => simp
      | ok res =>
          obtain ⟨st₁, r⟩ := res
          simp only [Except.ok.injEq, Prod.mk.injEq, ↓existsAndEq, and_true, true_and]
          split <;> simp

/-- A turn of a loop that throws: it throws itself, or it goes on to a turn that does. -/
theorem processFrom_error {pos : Nat} {c : Char} {s : Text} {st st' : MacroArgs} {e : Fault}
    (h : (p.processFrom 0 pos (c :: s)).run st = .error e st') :
    p.nextMatch pos (c :: s) = .error e ∨
      ∃ m, p.nextMatch pos (c :: s) = .ok m ∧
        (step st (c :: s) m = .error e ∨
          ∃ st₁ r, step st (c :: s) m = .ok (st₁, r) ∧ r.atMatchesEnd = false ∧
            (p.processFrom (r.len - 1) (pos + 1) s).run st₁ = .error e st') := by
  rw [p.run_processFrom_zero_cons] at h
  cases hnext : p.nextMatch pos (c :: s) with
  | error e' =>
      rw [hnext] at h
      cases h
      exact .inl rfl
  | ok m =>
      refine .inr ⟨m, rfl, ?_⟩
      simp only [hnext, run_processMatch hp] at h
      cases hstep : step st (c :: s) m with
      | error e' =>
          rw [hstep] at h
          cases h
          exact .inl rfl
      | ok res =>
          obtain ⟨st₁, r⟩ := res
          simp only [hstep] at h
          split at h
          · cases h
          · rename_i hend
            exact .inr ⟨st₁, r, rfl, Bool.eq_false_iff.mpr hend, h⟩

end Turn

end MacroArgs

end Middle.Universals
