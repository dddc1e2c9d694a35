import Middle.NormalDdl.MacroPass

/-! An expander that is used again. What a call has appended before it throws is left in the expander, and
stands in front of what the next call that returns appends. -/

namespace Middle.NormalDdl

open Universals

namespace MacroExpander

variable (rules : DdlDefaultValueRules)

/-- A call of `expand_macro` on an expander with `appendedText`: what the caller gets, and what is left
appended. -/
def call (appendedText macroText : Text) : Except Fault (Option Text) × Text :=
  match (expandMacro rules macroText).run appendedText with
  | .error e appendedText => (.error e, appendedText)
  | .ok text appendedText => (.ok text, appendedText)

/-- What is left appended in an expander behind calls on it. -/
def appendedAfter (hist : List Text) : Text := hist.foldl (fun appendedText t => (call rules appendedText t).2) []

/-- `expand_macro` on an expander that has been called before. -/
def expandAfter (hist : List Text) (macroText : Text) : Except Fault (Option Text) :=
  (call rules (appendedAfter rules hist) macroText).1

/-- A call on a fresh expander throws and leaves `out` appended. -/
def Leaves (text out : Text) : Prop := ∃ e, call rules [] text = (.error e, out)

/-- No call since the last one that returned has thrown with something appended. -/
def NothingLeft (hist : List Text) : Prop :=
  ∀ front text behind, hist = front ++ text :: behind → (∀ t ∈ behind, ∃ out, Leaves rules t out) →
    ∀ out, Leaves rules text out → out = []

/-! ### A run behind appended text -/

/-- A result with `a` in front of what is appended. -/
def prefixed {α : Type} (a : Text) : EStateM.Result Fault Text α → EStateM.Result Fault Text α
  | .error e st => .error e (a ++ st)
  | .ok r st => .ok r (a ++ st)

theorem run_processMatch_append (a b s : Text) (m : TextMatch) :
    ((processor rules).processMatch s m).run (a ++ b) = prefixed a (((processor rules).processMatch s m).run b) := by
  dsimp only [processor, EStateM.run]
  cases expandMatch rules s m with
  | error e => rfl
  | ok res => exact congrArg (EStateM.Result.ok _) (List.append_assoc a b res.1)

/-- The loop reads nothing of what has been appended. -/
theorem run_processFrom_append (a b : Text) (skip pos : Nat) (s : Text) :
    ((processor rules).processFrom skip pos s).run (a ++ b) =
      prefixed a (((processor rules).processFrom skip pos s).run b) := by
  induction s generalizing skip pos b with
  | nil => cases skip <;> rfl
  | cons c s ih =>
      cases skip with
      | succ skip => exact ih b skip (pos + 1)
      | zero =>
          rw [TextProcessor.run_processFrom_zero_cons, TextProcessor.run_processFrom_zero_cons]
          cases (processor rules).nextMatch pos (c :: s) with
          | error e => rfl
          | ok m =>
              dsimp only
              rw [run_processMatch_append]
              cases ((processor rules).processMatch (c :: s) m).run b with
              | error e st => rfl
              | ok r st =>
                  dsimp only [prefixed]
                  by_cases hend : r.atMatchesEnd = true
                  · rw [if_pos hend, if_pos hend]
                  · rw [if_neg hend, if_neg hend]
                    exact ih st (r.len - 1) (pos + 1)

/-- A call throws what it throws on a fresh expander, or returns what that appends behind what stands there. -/
theorem call_eq (a text : Text) :
    (∃ e out, call rules [] text = (.error e, out) ∧ call rules a text = (.error e, a ++ out)) ∨
      ∃ out, ∀ b, call rules b text = (.ok (if b ++ out = text then none else some (b ++ out)), []) := by
  have hrun : ∀ b, ((processor rules).processText text).run b =
      prefixed b (((processor rules).processText text).run []) := by
    intro b
    have h := run_processFrom_append rules b [] 0 0 text
    rw [List.append_nil] at h
    exact h
  cases hproc : ((processor rules).processText text).run [] with
  | error e out =>
      have hcall : ∀ b, call rules b text = (.error e, b ++ out) := by
        intro b
        have hfail : ((processor rules).processText text).run b = .error e (b ++ out) := by
          rw [hrun b, hproc, prefixed]
        simp only [call, expandMacro, EStateM.run_bind, run_appendText, hfail]
      exact .inl ⟨e, out, hcall [], hcall a⟩
  | ok pos out =>
      refine .inr ⟨out, fun b => ?_⟩
      have hok : ((processor rules).processText text).run b = .ok pos (b ++ out) := by
        rw [hrun b, hproc, prefixed]
      simp only [call, expandMacro, EStateM.run_bind, run_appendText, hok, EStateM.run_pure]

theorem expandOnce_eq_call (text : Text) : expandOnce rules text = (call rules [] text).1 := by
  unfold expandOnce call
  cases (expandMacro rules text).run [] <;> rfl

/-! ### Calls one after another -/

variable {rules}

theorem appendedAfter_concat (hist : List Text) (text : Text) :
    appendedAfter rules (hist ++ [text]) = (call rules (appendedAfter rules hist) text).2 := List.foldl_concat ..

/-- Nothing is left behind a call that throws if nothing was left in front of it and it leaves nothing. -/
theorem nothingLeft_concat_iff {hist : List Text} {text out : Text} (h : Leaves rules text out) :
    NothingLeft rules (hist ++ [text]) ↔ NothingLeft rules hist ∧ out = [] := by
  constructor
  · intro hnothing
    refine ⟨fun front t behind heq hthrows => ?_, hnothing hist text [] rfl (fun t ht => absurd ht List.not_mem_nil) out h⟩
    refine hnothing front t (behind ++ [text]) (by rw [heq, List.append_assoc]; rfl) fun t' ht' => ?_
    obtain ht' | ht' := List.mem_append.mp ht'
    · exact hthrows t' ht'
    · obtain rfl := List.mem_singleton.mp ht'
      exact ⟨out, h⟩
  · rintro ⟨hnothing, rfl⟩ front t behind heq hthrows out' hleaves
    obtain rfl | ⟨behind, t', rfl⟩ := behind.eq_nil_or_concat
    · obtain ⟨-, htext⟩ := List.append_inj' heq rfl
      obtain rfl := (List.cons.inj htext).1
      obtain ⟨e, h⟩ := h
      obtain ⟨e', hleaves⟩ := hleaves
      exact (Prod.mk.inj (hleaves.symm.trans h)).2
    · rw [List.concat_eq_append, ← List.cons_append, ← List.append_assoc] at heq
      refine hnothing front t behind (List.append_inj' heq rfl).1 (fun t'' ht'' => hthrows t'' ?_) out' hleaves
      rw [List.concat_eq_append]
      exact List.mem_append_left _ ht''

/-- What is left appended, call by call. -/
theorem appendedAfter_eq_nil_iff (hist : List Text) : appendedAfter rules hist = [] ↔ NothingLeft rules hist := by
  induction hist using List.reverseRecOn with
  | nil =>
      refine iff_of_true rfl fun front text behind heq => ?_
      exact absurd heq.symm (List.append_ne_nil_of_right_ne_nil _ (List.cons_ne_nil _ _))
  | append_singleton hist text ih =>
      rw [appendedAfter_concat]
      obtain ⟨e, out, hfresh, hcall⟩ | ⟨out, hcall⟩ := call_eq rules (appendedAfter rules hist) text
      · rw [hcall, nothingLeft_concat_iff ⟨e, hfresh⟩, ← ih, List.append_eq_nil_iff]
      · rw [hcall]
        refine iff_of_true rfl fun front t behind heq hthrows out' hleaves => ?_
        -- the last call returns
        have hreturns : ∀ out', ¬ Leaves rules text out' := by
          rintro out' ⟨e, h⟩
          cases (Prod.mk.inj ((hcall []).symm.trans h)).1
        obtain rfl | ⟨behind, t', rfl⟩ := behind.eq_nil_or_concat
        · obtain ⟨-, htext⟩ := List.append_inj' heq rfl
          obtain rfl := (List.cons.inj htext).1
          exact absurd hleaves (hreturns out')
        · rw [List.concat_eq_append, ← List.cons_append, ← List.append_assoc] at heq
          obtain rfl : text = t' := (List.cons.inj (List.append_inj' heq rfl).2).1
          obtain ⟨out'', h⟩ := hthrows text (by simp)
          exact absurd h (hreturns out'')

/-- A call on an expander that has been used gives what it gives on a fresh one exactly if nothing has been left
appended, or if it throws. -/
theorem expandAfter_eq_iff (rules : DdlDefaultValueRules) (hist : List Text) (text : Text) :
    expandAfter rules hist text = expandOnce rules text ↔
      NothingLeft rules hist ∨ ∃ e, expandOnce rules text = .error e := by
  rw [← appendedAfter_eq_nil_iff, expandOnce_eq_call, expandAfter]
  obtain ⟨e, out, hfresh, hcall⟩ | ⟨out, hcall⟩ := call_eq rules (appendedAfter rules hist) text
  · rw [hfresh, hcall]
    exact iff_of_true rfl (.inr ⟨e, rfl⟩)
  · rw [hcall, hcall, List.nil_append]
    constructor
    · intro heq
      refine .inl ?_
      split_ifs at heq with h₁ h₂ h₂
      · exact List.append_left_eq_self.mp (h₁.trans h₂.symm)
      · cases heq
      · cases heq
      · exact List.append_left_eq_self.mp (Option.some.inj (Except.ok.inj heq))
    · rintro (hnil | ⟨e, herror⟩)
      · rw [hnil, List.nil_append]
      · cases herror

/-- A quote that is never closed leaves what stands in front of it. -/
theorem expandAfter_ne_unterminated :
    expandAfter ∅ ["x'".toList] "y".toList = .ok (some "xy".toList) ∧ expandOnce ∅ "y".toList = .ok none := by
  decide +kernel

end MacroExpander

end Middle.NormalDdl
