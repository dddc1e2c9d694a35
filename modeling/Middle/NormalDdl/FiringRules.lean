import Middle.NormalDdl.ReplacedNames

/-! Which rules can fire. The expander looks up SQL names, so that a rule whose left-hand side is anything else
is never found. -/

namespace Middle.NormalDdl

open Lib Universals

namespace MacroExpander

/-! ### Names in upper case -/

theorem isIdChar_toUpper (c : Char) : isIdChar c.toUpper = isIdChar c := by
  cases hlower : c.isLower with
  | true =>
      have halpha : c.isAlpha = true := by
        rw [Char.isAlpha, hlower, Bool.or_true]
      rw [isIdChar_of_isAlpha halpha, isIdChar_of_isAlpha (c.isAlpha_toUpper_eq_isAlpha.trans halpha)]
  | false => rw [Char.toUpper_eq_of_not_isLower (Bool.eq_false_iff.mp hlower)]

/-- A text that is a name is one in upper case. -/
theorem isName_toUpper {n : Text} (h : IsName n []) : IsName (toUpper n) [] := by
  obtain ⟨c, w, rfl, halpha⟩ := h.head
  refine ⟨⟨c.toUpper, toUpper w, rfl, c.isAlpha_toUpper_eq_isAlpha.trans halpha⟩, fun c' hc' => ?_, h.stop⟩
  obtain ⟨c'', hmem, rfl⟩ := List.mem_map.mp hc'
  rw [isIdChar_toUpper]
  exact h.all c'' hmem

/-- A name in upper case can be written in another way. -/
theorem exists_ne_of_isName {k : UcString} (h : IsName k.str []) :
    ∃ n, n ≠ k.str ∧ UcString.ofText n = k ∧ IsName n [] := by
  obtain ⟨str, upper⟩ := k
  dsimp only at h ⊢
  obtain ⟨c, w, rfl, halpha⟩ := h.head
  obtain ⟨hc, hw⟩ := List.cons.inj upper
  have hupper : c.isUpper = true := by
    rw [← hc, Char.isUpper_toUpper_eq_isAlpha]
    exact halpha
  have hlower : c.toLower.isLower = true := c.isLower_toLower_eq_isAlpha.trans halpha
  have halpha' : c.toLower.isAlpha = true := by
    rw [Char.isAlpha, hlower, Bool.or_true]
  refine ⟨c.toLower :: w, fun heq => ?_, ?_, ⟨⟨c.toLower, w, rfl, halpha'⟩, ?_, h.stop⟩⟩
  · rw [(List.cons.inj heq).1] at hlower
    exact Char.not_isLower_of_isUpper hupper hlower
  · have hstr : toUpper (c.toLower :: w) = c :: w := by
      change c.toLower.toUpper :: w.map Char.toUpper = c :: w
      rw [Char.toUpper_toLower_eq_toUpper, hc, hw]
    unfold UcString.ofText
    simp only [hstr]
  · exact List.forall_mem_cons.mpr ⟨isIdChar_of_isAlpha halpha', (List.forall_mem_cons.mp h.all).2⟩

theorem ofText_str (k : UcString) : UcString.ofText k.str = k := by
  obtain ⟨str, upper⟩ := k
  unfold UcString.ofText
  simp only [upper]

/-! ### Firing -/

variable {rules : DdlDefaultValueRules} {k : UcString} {rule : DdlDefaultValueRule}

/-- There is a text that a pass changes, and in which it puts the right-hand side of a rule, with what becomes
of the arguments, in the place of its left-hand side `k`. -/
def Fires (rules : DdlDefaultValueRules) (k : UcString) (rule : DdlDefaultValueRule) : Prop :=
  ∃ text out pre n list post args, expandOnce rules text = .ok (some out) ∧ text = pre ++ (n ++ (list ++ post)) ∧
    UcString.ofText n = k ∧ Replaces rules text n list post (rule.macroRhs ++ args)

/-- A name that is a left-hand side by itself becomes the right-hand side. -/
theorem fires_of_isName (hfind : rules.find k = some rule) {n : Text} (hn : IsName n []) (hk : UcString.ofText n = k)
    (hne : rule.macroRhs ≠ n) : Fires rules k rule := by
  subst hk
  have hopen : ([] : Text).head? ≠ some '(' := by simp
  have hexpand : expandOnce rules n = .ok (some rule.macroRhs) := by
    have h := expandOnce_of_expands (Expands.replaced hn hfind (.inr hopen) .nil)
    rw [List.append_nil, List.append_nil, if_neg hne] at h
    exact h
  have hmatch : expandMatch rules (n ++ []) ⟨n.length, some .app⟩ = .ok (rule.macroRhs, n.length) := by
    rw [expandMatch_name rules hn, hfind]
    cases hargs : rule.macroArgs with
    | none => simp [hargs]
    | some macroArgs => simp [hargs]
  refine ⟨n, rule.macroRhs, [], n, [], [], [], hexpand, by simp, rfl, [], ?_, nextMatch_name hn 0, by simp [hfind], ?_⟩
  · rw [List.append_nil, List.append_nil]
    exact .refl
  · rw [List.append_nil, List.append_nil, List.append_nil]
    rw [List.append_nil] at hmatch
    exact hmatch

theorem isName_of_fires (h : Fires rules k rule) : IsName k.str [] := by
  obtain ⟨text, out, pre, n, list, post, args, -, -, rfl, out', -, hnext, -⟩ := h
  have hn := isName_of_nextMatch hnext
  exact isName_toUpper ⟨hn.head, hn.all, fun c hc => absurd hc (by simp)⟩

/-- A rule can fire exactly if its left-hand side is an SQL name. -/
theorem fires_iff (hfind : rules.find k = some rule) : Fires rules k rule ↔ IsName k.str [] := by
  constructor
  · exact isName_of_fires
  · intro hk
    by_cases hrhs : rule.macroRhs = k.str
    · obtain ⟨n, hne, hn, hname⟩ := exists_ne_of_isName hk
      exact fires_of_isName hfind hname hn fun heq => hne (heq.symm.trans hrhs)
    · exact fires_of_isName hfind hk (ofText_str k) hrhs

/-- A rule for a name fires. -/
theorem fires_hello :
    Fires helloRules (UcString.ofText "hello".toList) ⟨"there".toList, some ⟨1, "($1)".toList⟩⟩ := by
  have hfind : helloRules.find (UcString.ofText "hello".toList) =
      some ⟨"there".toList, some ⟨1, "($1)".toList⟩⟩ := by decide +kernel
  refine (fires_iff hfind).mpr ⟨⟨'H', "ELLO".toList, by decide +kernel, by decide⟩, ?_, by simp⟩
  have hall : (UcString.ofText "hello".toList).str.all isIdChar = true := by decide +kernel
  exact List.all_eq_true.mp hall

end MacroExpander

end Middle.NormalDdl
