import Middle.NormalDdl.MacroNesting
import Middle.NormalDdl.TableMigrator

/-! Default values with matching parentheses. The loop that takes the parentheses off a default looks at its first and its
last character only; when these always belong together, a balanced default is expanded to a balanced one and whatever
the expander accepts with its parentheses it accepts without. -/

namespace Middle.NormalDdl

open Lib Universals

/-! ### Parentheses dropped -/

theorem exists_enclosed {s : Text} (hlen : 2 < s.length) (hfirst : s.head? = some '(')
    (hlast : s.getLast? = some ')') : ∃ t, s = '(' :: (t ++ [')']) := by
  obtain ⟨s, rfl⟩ := List.head?_eq_some_iff.mp hfirst
  obtain rfl | ⟨t, c, rfl⟩ := s.eq_nil_or_concat
  · cases hlast
  · rw [List.concat_eq_append, ← List.cons_append, List.getLast?_concat] at hlast
    rw [Option.some.inj hlast, List.concat_eq_append]
    exact ⟨t, rfl⟩

/-- What the loop leaves is not enclosed any more, or too short. -/
theorem dropParentheses_eq {n : Nat} {s : Text} (hn : s.length ≤ n) :
    ∃ k, s = sqlParens.enclose k (dropParentheses n s) ∧
      ∀ t, t ≠ [] → dropParentheses n s ≠ '(' :: (t ++ [')']) := by
  induction n generalizing s with
  | zero =>
      obtain rfl := List.length_eq_zero_iff.mp (Nat.le_zero.mp hn)
      exact ⟨0, rfl, fun t ht h => by cases h⟩
  | succ n ih =>
      rw [dropParentheses]
      split
      · rename_i hends
        obtain ⟨hlen, hfirst, hlast⟩ := hends
        obtain ⟨s, rfl⟩ := exists_enclosed hlen hfirst hlast
        have hmiddle : (('(' :: (s ++ [')'])).drop 1).dropLast = s := List.dropLast_concat
        rw [hmiddle]
        obtain ⟨k, hk, hbare⟩ := ih (s := s) (by
          rw [List.length_cons, List.length_append] at hn
          omega)
        refine ⟨k + 1, ?_, hbare⟩
        rw [Brackets.enclose, ← hk]
        rfl
      · rename_i hends
        refine ⟨0, rfl, fun t ht heq => hends ⟨?_, ?_, ?_⟩⟩
        · have hlen := List.length_pos_of_ne_nil ht
          rw [heq, List.length_cons, List.length_append, List.length_singleton]
          omega
        · rw [heq]
          rfl
        · rw [heq, ← List.cons_append, List.getLast?_concat]

variable {rules : DdlDefaultValueRules}

/-- A pass that returns on a text in parentheses returns on the text itself. -/
theorem expandOnce_of_enclose {k : Nat} {s : Text} (hs : BalancedText s) {r : Option Text}
    (h : MacroExpander.expandOnce rules (sqlParens.enclose k s) = .ok r) :
    ∃ out, Expands rules s out ∧ r = if out = s then none else some (sqlParens.enclose k out) := by
  obtain ⟨out, hexp, rfl⟩ := MacroExpander.expands_of_expandOnce rules h
  obtain ⟨out, rfl, hexp'⟩ := exists_of_expands_enclose hs hexp
  refine ⟨out, hexp', ?_⟩
  simp only [(Brackets.enclose_injective k).eq_iff]

section Expansion

variable (hrules : ∀ k rule, rules.find k = some rule → BalancedText rule.macroRhs)

include hrules in
theorem balanced_of_expandOnce {s out : Text} (hs : BalancedText s)
    (h : MacroExpander.expandOnce rules s = .ok (some out)) : BalancedText out := by
  obtain ⟨out', hexp, hout⟩ := MacroExpander.expands_of_expandOnce rules h
  split at hout
  · cases hout
  · cases hout
    exact nests_of_expands hrules hexp hs

include hrules in
/-- What a balanced text is expanded to is balanced. -/
theorem balanced_of_expandAllMacros {fuel : Nat} {s out : Text} (hs : BalancedText s)
    (h : MacroExpander.expandAllMacros rules fuel s = .ok (some out)) : BalancedText out := by
  rw [MacroExpander.expandAllMacros] at h
  split at h
  · cases h
  · cases h
  · rename_i text hpass
    have htext := balanced_of_expandOnce hrules hs hpass
    split at h
    · cases h
      exact htext
    · split at h
      · cases h
      · cases h
      · rename_i hrun
        cases h
        exact Passes.run_of_invariant (fun _ _ => balanced_of_expandOnce hrules) htext hrun

include hrules in
/-- Whatever is accepted in parentheses is accepted without them. -/
theorem expandAllMacros_of_enclose {k fuel : Nat} {s : Text} (hs : BalancedText s) {r : Option Text}
    (h : MacroExpander.expandAllMacros rules fuel (sqlParens.enclose k s) = .ok r) :
    ∃ r', MacroExpander.expandAllMacros rules fuel s = .ok r' := by
  have hpass : ∀ {s r}, BalancedText s → MacroExpander.expandOnce rules (sqlParens.enclose k s) = .ok r →
      (r = none ∧ MacroExpander.expandOnce rules s = .ok none) ∨
        ∃ out, r = some (sqlParens.enclose k out) ∧ MacroExpander.expandOnce rules s = .ok (some out) ∧
          BalancedText out := by
    intro s r hs h
    obtain ⟨out, hexp, rfl⟩ := expandOnce_of_enclose hs h
    have hout := MacroExpander.expandOnce_of_expands hexp
    by_cases hsame : out = s
    · rw [if_pos hsame] at hout
      exact .inl ⟨if_pos hsame, hout⟩
    · rw [if_neg hsame] at hout
      exact .inr ⟨out, if_neg hsame, hout, nests_of_expands hrules hexp hs⟩
  rw [MacroExpander.expandAllMacros] at h ⊢
  split at h
  · cases h
  · rename_i hnone
    obtain ⟨-, hsame⟩ | ⟨out, hout, -⟩ := hpass hs hnone
    · rw [hsame]
      exact ⟨none, rfl⟩
    · cases hout
  · rename_i text hsome
    obtain ⟨hout, -⟩ | ⟨out, hout, hexp, hbalanced⟩ := hpass hs hsome
    · cases hout
    · cases hout
      rw [hexp]
      dsimp only
      split
      · exact ⟨_, rfl⟩
      · rename_i hne
        rw [if_neg (mt (Brackets.enclose_eq_nil k) hne)] at h
        split at h
        · cases h
        · cases h
        · rename_i hrun
          have hrel : BalancedText out ∧ sqlParens.enclose k out = sqlParens.enclose k out := ⟨hbalanced, rfl⟩
          have hreturns : ∃ out', Passes.run (MacroExpander.expandOnce rules) List.isEmpty fuel out = some (.ok out') := by
            refine Passes.run_ok_of_simulates (r := fun a b => BalancedText a ∧ sqlParens.enclose k a = b) ?_ ?_ ?_
              hrel hrun
            · rintro a b ⟨-, rfl⟩ hstop
              exact List.isEmpty_iff.mpr (Brackets.enclose_eq_nil k (List.isEmpty_iff.mp hstop))
            · rintro a b ⟨ha, rfl⟩ hnone
              obtain ⟨-, hsame⟩ | ⟨out, hout, -⟩ := hpass ha hnone
              · exact hsame
              · cases hout
            · rintro a b b' ⟨ha, rfl⟩ hsome
              obtain ⟨hout, -⟩ | ⟨out, hout, hexp, hbalanced⟩ := hpass ha hsome
              · cases hout
              · exact ⟨out, hexp, hbalanced, (Option.some.inj hout).symm⟩
          obtain ⟨out', hout⟩ := hreturns
          rw [hout]
          exact ⟨_, rfl⟩

end Expansion

/-! ### Expanding a default -/

/-- With rules whose right-hand sides are balanced, a balanced default is handed to the expander with only such pairs of
parentheses taken off as belong together, expanded to a balanced one, and accepted if the expander accepts it with its
parentheses, exactly if what equally many opening and closing parentheses enclose is balanced, however many they are. -/
theorem expandDefaultValueMacro_balanced_iff {prefs : DdlTableMigratorPrefs}
    (hrules : ∀ k rule, prefs.defaultValueRules.find k = some rule → BalancedText rule.macroRhs)
    {defaultValue : Text} (hdefault : BalancedText defaultValue) :
    (sqlParens.Peels defaultValue (dropParentheses defaultValue.length defaultValue) ∧
      (∀ fuel newDefaultValue, expandDefaultValueMacro prefs fuel defaultValue = .ok newDefaultValue →
        BalancedText newDefaultValue) ∧
      ∀ fuel r, MacroExpander.expandAllMacros prefs.defaultValueRules fuel defaultValue = .ok r →
        ∃ newDefaultValue, expandDefaultValueMacro prefs fuel defaultValue = .ok newDefaultValue) ↔
      ∀ k s, defaultValue = sqlParens.enclose k s → BalancedText s := by
  obtain ⟨k, hk, hbare⟩ := dropParentheses_eq (le_refl defaultValue.length)
  unfold expandDefaultValueMacro
  generalize dropParentheses defaultValue.length defaultValue = t at hk hbare
  constructor
  · rintro ⟨hpeels, -, -⟩ j s hs
    have ht : BalancedText t := hpeels.balanced hdefault
    rw [hk] at hs
    obtain hlt | hle := Nat.lt_or_ge k j
    · -- the loop goes on as long as there is something in the parentheses
      obtain ⟨i, rfl⟩ := Nat.exists_eq_add_of_lt hlt
      rw [Nat.add_assoc, Brackets.enclose_add] at hs
      have hnil : sqlParens.enclose i s = [] :=
        not_not.mp fun hne => hbare _ hne (Brackets.enclose_injective k hs)
      rw [Brackets.enclose_eq_nil i hnil]
      exact .nil
    · obtain ⟨i, rfl⟩ := Nat.exists_eq_add_of_le hle
      rw [Brackets.enclose_add] at hs
      rw [← Brackets.enclose_injective j hs]
      exact ht.enclose i
  · intro hcond
    have ht := hcond k t hk
    refine ⟨?_, fun fuel newDefaultValue h => ?_, fun fuel r h => ?_⟩
    · rw [hk]
      exact Brackets.peels_enclose ht k
    · dsimp only at h
      split at h
      · cases h
        exact .nil
      · split at h
        · cases h
        · cases h
          exact hdefault
        · rename_i hexpand
          cases h
          exact balanced_of_expandAllMacros hrules ht hexpand
    · rw [hk] at h
      obtain ⟨r', hexpand⟩ := expandAllMacros_of_enclose hrules ht h
      dsimp only
      split
      · exact ⟨_, rfl⟩
      · rw [hexpand]
        cases r' with
        | none => exact ⟨_, rfl⟩
        | some text => exact ⟨_, rfl⟩

/-- One rule, which takes `a` to `x`. -/
def aToXPrefs : DdlTableMigratorPrefs where
  datatypeRules := ∅
  defaultValueRules := ⟨[(UcString.ofText "a".toList, { macroRhs := "x".toList })], List.nodup_singleton _⟩

theorem balanced_aToX (k : UcString) (rule : DdlDefaultValueRule)
    (h : aToXPrefs.defaultValueRules.find k = some rule) : BalancedText rule.macroRhs := by
  obtain ⟨-, rfl⟩ : (k, rule) = (UcString.ofText "a".toList, { macroRhs := "x".toList }) :=
    List.mem_singleton.mp (UnorderedMap.find_eq_some_iff.mp h)
  exact .plain (plain_of_isSpecial (by decide)) .nil

/-- One enclosing pair is dropped, the pair in front is not. -/
theorem expandDefaultValueMacro_balanced_pair :
    ∃ newDefaultValue, expandDefaultValueMacro aToXPrefs 2 "((b)+a)".toList = .ok newDefaultValue ∧
      newDefaultValue = "(b)+x".toList ∧ BalancedText newDefaultValue := by
  have hplain : ∀ {c : Char}, isSpecial c = false → sqlParens.Plain c := plain_of_isSpecial
  have hinner : BalancedText "(b)+a".toList :=
    .opening (.plain (hplain (by decide)) (.closing (.plain (hplain (by decide)) (.plain (hplain (by decide)) .nil))))
  have hdefault : BalancedText "((b)+a)".toList := hinner.enclose 1
  have hpairs : ∀ k s, "((b)+a)".toList = sqlParens.enclose k s → BalancedText s := by
    intro k s h
    cases k with
    | zero =>
        have hs : "((b)+a)".toList = s := h
        rw [← hs]
        exact hdefault
    | succ k =>
        rw [Nat.add_comm, Brackets.enclose_add] at h
        change sqlParens.enclose 1 "(b)+a".toList = _ at h
        have htail : "(b)+a".toList = sqlParens.enclose k s := Brackets.enclose_injective 1 h
        cases k with
        | zero =>
            have hs : "(b)+a".toList = s := htail
            rw [← hs]
            exact hinner
        | succ k =>
            have hlast := congrArg List.getLast? htail
            rw [Brackets.enclose, ← List.cons_append, List.getLast?_concat] at hlast
            cases hlast
  have hbalanced := ((expandDefaultValueMacro_balanced_iff balanced_aToX hdefault).mpr hpairs).2.1
  have hexpand : expandDefaultValueMacro aToXPrefs 2 "((b)+a)".toList = .ok "(b)+x".toList := by decide +kernel
  exact ⟨_, hexpand, rfl, hbalanced 2 _ hexpand⟩

/-- Two pairs side by side are taken for one. -/
theorem expandDefaultValueMacro_unbalanced :
    BalancedText "(a)+(b)".toList ∧
      (∀ k rule, aToXPrefs.defaultValueRules.find k = some rule → BalancedText rule.macroRhs) ∧
      expandDefaultValueMacro aToXPrefs 2 "(a)+(b)".toList = .ok "x)+(b".toList ∧
      ¬ BalancedText "x)+(b".toList := by
  have hplain : ∀ {c : Char}, isSpecial c = false → sqlParens.Plain c := plain_of_isSpecial
  refine ⟨?_, balanced_aToX, by decide +kernel, fun h => ?_⟩
  · refine .opening (.plain (hplain (by decide)) (.closing (.plain (hplain (by decide)) (.opening
      (.plain (hplain (by decide)) (.closing .nil))))))
  · obtain ⟨d, hd, -⟩ := Brackets.nests_closing_iff.mp ((Brackets.nests_plain_iff (hplain (by decide))).mp h)
    cases hd

end Middle.NormalDdl
