import Middle.MiddleApp.PrefsReader
import Middle.NormalDdl.MacroFaults

/-! When the repeated passes of the macro expander come to an end. Nothing in the expander detects a cycle
of rules. What bounds its passes is a weight of the rules' names under which no rule puts out as much as
it takes: the names of a text are weighed with their right neighbours, because dropping an argument list
can join the end of a right-hand side to the text behind the list. -/

namespace Middle.NormalDdl

open Lib Universals MiddleApp MacroExpander

section Weight

variable (rules : DdlDefaultValueRules) (w : UcString → Nat)

/-- What a whole name weighs: nothing unless a rule has it on its left-hand side. -/
def nameWeight (n : Text) : Nat :=
  if n ≠ [] ∧ (rules.find (UcString.ofText n)).isSome then w (UcString.ofText n) else 0

/-- The weight of all names of a text, quoted or not, read on from the name `cur`. -/
def weightFrom : Text → Text → Nat
  | cur, [] => nameWeight rules w cur
  | cur, c :: s =>
      if cur = [] then if c.isAlpha then weightFrom [c] s else weightFrom [] s
      else if isIdChar c then weightFrom (cur ++ [c]) s
      else nameWeight rules w cur + weightFrom [] s

abbrev weight (s : Text) : Nat := weightFrom rules w [] s

/-- The name a text ends in, which what is put behind it may go on with. -/
def openName : Text → Text → Text
  | cur, [] => cur
  | cur, c :: s =>
      if cur = [] then if c.isAlpha then openName [c] s else openName [] s
      else if isIdChar c then openName (cur ++ [c]) s
      else openName [] s

/-- No name goes on into this text. -/
def StartsOutside (s : Text) : Prop := ∀ c, s.head? = some c → isIdChar c = false

/-- Every rule puts out less than its name weighs, with an argument list no more than the arguments on
top; and where an argument list is dropped, no rule's name begins with the name the right-hand side ends
in and goes on. -/
structure Weighed : Prop where
  rhs : ∀ n rule, rules.find n = some rule → weight rules w rule.macroRhs < w n
  call : ∀ n rule macroArgs tokens rhsArgs, rules.find n = some rule → rule.macroArgs = some macroArgs →
    macroArgs.rewrite ≠ [] → MacroArgsExpander.rewriteMacroArgs macroArgs tokens = .ok rhsArgs →
    weight rules w rule.macroRhs + weight rules w rhsArgs < w n + (tokens.map (weight rules w)).sum
  dropped : ∀ n rule macroArgs, rules.find n = some rule → rule.macroArgs = some macroArgs →
    macroArgs.rewrite = [] → openName [] rule.macroRhs = [] ∨
      ∀ more, more ≠ [] → rules.find (UcString.ofText (openName [] rule.macroRhs ++ more)) = none

variable {rules w}

theorem isAlpha_of_not_isIdChar {c : Char} (h : isIdChar c = false) : c.isAlpha = false := by
  by_contra halpha
  rw [isIdChar_of_isAlpha (by simpa using halpha)] at h
  cases h

theorem nameWeight_nil : nameWeight rules w [] = 0 := by simp [nameWeight]

theorem weight_cons_of_not_isAlpha {c : Char} (h : c.isAlpha = false) (s : Text) :
    weight rules w (c :: s) = weight rules w s := by
  simp [weight, weightFrom, h]

/-- In front of a text that no name goes on into, the current name is complete. -/
theorem weightFrom_stop (cur : Text) {s : Text} (hs : StartsOutside s) :
    weightFrom rules w cur s = nameWeight rules w cur + weight rules w s := by
  cases s with
  | nil => simp [weight, weightFrom, nameWeight_nil]
  | cons c s =>
      have hc := hs c rfl
      by_cases hcur : cur = []
      · rw [hcur, nameWeight_nil, Nat.zero_add]
      · rw [weight_cons_of_not_isAlpha (isAlpha_of_not_isIdChar hc), weightFrom, if_neg hcur, hc]
        rfl

theorem weightFrom_append_idChars {cur n : Text} (hcur : cur ≠ []) (hn : ∀ c ∈ n, isIdChar c = true)
    (s : Text) : weightFrom rules w cur (n ++ s) = weightFrom rules w (cur ++ n) s := by
  induction n generalizing cur with
  | nil => simp
  | cons c n ih =>
      obtain ⟨hc, hn⟩ := List.forall_mem_cons.mp hn
      rw [List.cons_append, weightFrom, if_neg hcur, if_pos hc, ih (by simp) hn, List.append_assoc]
      rfl

theorem weight_name {n s : Text} (hn : IsName n s) :
    weight rules w (n ++ s) = nameWeight rules w n + weight rules w s := by
  obtain ⟨c, n, rfl, halpha⟩ := hn.head
  have hall := (List.forall_mem_cons.mp hn.all).2
  rw [List.cons_append, weight, weightFrom, if_pos rfl, if_pos halpha,
    weightFrom_append_idChars (by simp) hall, weightFrom_stop _ hn.stop]
  rfl

theorem weightFrom_append (cur u : Text) {s : Text} (hs : StartsOutside s) :
    weightFrom rules w cur (u ++ s) = weightFrom rules w cur u + weight rules w s := by
  induction u generalizing cur with
  | nil => exact weightFrom_stop cur hs
  | cons c u ih =>
      rw [List.cons_append, weightFrom, weightFrom]
      split
      · split <;> exact ih _
      · split
        · exact ih _
        · rw [ih, Nat.add_assoc]

theorem weight_append {u s : Text} (hs : StartsOutside s) :
    weight rules w (u ++ s) = weight rules w u + weight rules w s := weightFrom_append [] u hs

theorem startsOutside_cons {c : Char} (h : isIdChar c = false) (s : Text) : StartsOutside (c :: s) := by
  intro c' hc'
  rw [← Option.some.inj hc']
  exact h

theorem weight_singleton {c : Char} (h : isIdChar c = false) : weight rules w [c] = 0 := by
  rw [weight_cons_of_not_isAlpha (isAlpha_of_not_isIdChar h)]
  exact nameWeight_nil

/-- A text that ends outside names is weighed by itself. -/
theorem weight_append_of_last {u : Text} {c : Char} (hu : u.getLast? = some c) (hc : isIdChar c = false)
    (s : Text) : weight rules w (u ++ s) = weight rules w u + weight rules w s := by
  obtain ⟨u, rfl⟩ : ∃ u', u = u' ++ [c] := ⟨u.dropLast, (List.dropLast_append_getLast? c hu).symm⟩
  rw [List.append_assoc, List.singleton_append, weight_append (startsOutside_cons hc s),
    weight_append (startsOutside_cons hc []), weight_singleton hc,
    weight_cons_of_not_isAlpha (isAlpha_of_not_isIdChar hc), Nat.add_zero]

/-- Joining a name to what stands behind it makes no name that weighs more, if no rule's name goes on
where it ends. -/
theorem weightFrom_append_le (cur u s : Text)
    (hopen : openName cur u = [] ∨
      ∀ more, more ≠ [] → rules.find (UcString.ofText (openName cur u ++ more)) = none) :
    weightFrom rules w cur (u ++ s) ≤ weightFrom rules w cur u + weight rules w s := by
  induction u generalizing cur with
  | nil =>
      rw [List.nil_append, weightFrom]
      by_cases hcur : cur = []
      · rw [hcur]
        exact Nat.le_add_left _ _
      · have hsplit : s.takeWhile isIdChar ++ s.dropWhile isIdChar = s := List.takeWhile_append_dropWhile
        have hstop : StartsOutside (s.dropWhile isIdChar) := fun c hc => by
          cases hdrop : s.dropWhile isIdChar with
          | nil => simp [hdrop] at hc
          | cons c' s' =>
              have := List.head_dropWhile_not isIdChar (l := s) (by simp [hdrop])
              simp_all
        have hall : ∀ c ∈ s.takeWhile isIdChar, isIdChar c = true := fun c hc => List.mem_takeWhile_imp hc
        generalize s.takeWhile isIdChar = more at hsplit hall
        generalize s.dropWhile isIdChar = rest at hsplit hstop
        subst hsplit
        rw [weightFrom_append_idChars hcur hall, weightFrom_stop _ hstop, weight_append hstop]
        by_cases hmore : more = []
        · rw [hmore, List.append_nil]
          omega
        · have hnone := hopen.resolve_left hcur more hmore
          rw [openName] at hnone
          have hzero : nameWeight rules w (cur ++ more) = 0 := by simp [nameWeight, hnone]
          omega
  | cons c u ih =>
      rw [openName] at hopen
      rw [List.cons_append, weightFrom, weightFrom]
      split
      · rename_i hcur
        rw [if_pos hcur] at hopen
        split
        · rename_i halpha
          rw [if_pos halpha] at hopen
          exact ih _ hopen
        · rename_i halpha
          rw [if_neg halpha] at hopen
          exact ih _ hopen
      · rename_i hcur
        rw [if_neg hcur] at hopen
        split
        · rename_i hc
          rw [if_pos hc] at hopen
          exact ih _ hopen
        · rename_i hc
          rw [if_neg hc] at hopen
          have := ih _ hopen
          omega

/-! ### Argument lists -/

theorem weight_trimBlanks (a : Text) : weight rules w (trimBlanks a) = weight rules w a := by
  have hblank : ∀ c, isBlank c = true → isIdChar c = false := by
    intro c hc
    obtain rfl | rfl := (isBlank_iff c).mp hc <;> decide
  refine trimBlanks_invariant (fun c a hc => ?_) (fun a c hc => ?_) a
  · rw [weight_cons_of_not_isAlpha (isAlpha_of_not_isIdChar (hblank c hc))]
  · rw [weight_append (startsOutside_cons (hblank c hc) []), weight_singleton (hblank c hc), Nat.add_zero]

theorem weight_parenthesized_append (list s : Text) :
    weight rules w ('(' :: (list ++ [')']) ++ s) =
      weight rules w ('(' :: (list ++ [')'])) + weight rules w s :=
  weight_append_of_last (List.getLast?_concat (l := '(' :: list)) (by decide) s

theorem weight_argListText (as : List Text) :
    weight rules w (argListText as) = (as.map (weight rules w)).sum := by
  have hlist : weight rules w (List.intercalate [','] as) = (as.map (weight rules w)).sum := by
    induction as with
    | nil => exact nameWeight_nil
    | cons a as ih =>
        cases as with
        | nil => simp
        | cons a' as =>
            rw [List.intercalate_cons_cons, List.append_assoc, List.singleton_append,
              weight_append (startsOutside_cons (by decide) _), weight_cons_of_not_isAlpha (by decide), ih]
            rfl
  rw [argListText, weight_cons_of_not_isAlpha (by decide),
    weight_append (startsOutside_cons (by decide) []), weight_singleton (by decide), Nat.add_zero, hlist]

/-! ### One pass -/

/-- A pass that changes a text lowers its weight. -/
theorem weight_of_expands (hrules : Weighed rules w) {s out : Text} (h : Expands rules s out) :
    (out = s ∨ weight rules w out < weight rules w s) ∧ (StartsOutside s → StartsOutside out) := by
  induction h with
  | nil => exact ⟨.inl rfl, id⟩
  | @quoted q s out hq h ih =>
      obtain ⟨c, hlast, hc⟩ := hq.getLast?
      obtain ⟨c', q, rfl, hc'⟩ := hq.exists_cons
      refine ⟨ih.1.imp (congrArg _) fun hlt => ?_, fun _ => startsOutside_cons (isIdChar_of_isQuote hc') _⟩
      rw [weight_append_of_last hlast (isIdChar_of_isQuote hc),
        weight_append_of_last hlast (isIdChar_of_isQuote hc)]
      omega
  | @plain c s out hquote halpha h ih =>
      refine ⟨ih.1.imp (congrArg _) fun hlt => ?_, fun hs c' hc' => hs c' hc'⟩
      rw [weight_cons_of_not_isAlpha halpha, weight_cons_of_not_isAlpha halpha]
      exact hlt
  | @name n s out hn hfind h ih =>
      have hout := ih.2 hn.stop
      obtain ⟨c, n', rfl, halpha⟩ := hn.head
      refine ⟨ih.1.imp (congrArg _) fun hlt => ?_, fun hs => ?_⟩
      · rw [weight_name hn, weight_name ⟨hn.head, hn.all, hout⟩]
        omega
      · exact absurd (hs c rfl) (by simp [isIdChar_of_isAlpha halpha])
  | @replaced n s out rule hn hfind hcall h ih =>
      have hout := ih.2 hn.stop
      obtain ⟨c, n', rfl, halpha⟩ := hn.head
      refine ⟨.inr ?_, fun hs => absurd (hs c rfl) (by simp [isIdChar_of_isAlpha halpha])⟩
      have hlow := hrules.rhs _ rule hfind
      have hname : nameWeight rules w (c :: n') = w (UcString.ofText (c :: n')) := by
        simp [nameWeight, hfind]
      rw [weight_name hn, weight_append hout, hname]
      obtain heq | hlt := ih.1
      · rw [heq]
        omega
      · omega
  | @call n s text out rule macroArgs len hn hfind hargs hopen hcall h ih =>
      obtain ⟨as, tokens, rhsArgs, hs, -, -, htokens, hrewrite, rfl, -⟩ := args_of_expandCall hopen hcall
      generalize s.drop len = rest at hs ih
      subst hs
      obtain ⟨c, n', rfl, halpha⟩ := hn.head
      refine ⟨.inr ?_, fun hs => absurd (hs c rfl) (by simp [isIdChar_of_isAlpha halpha])⟩
      have hname : nameWeight rules w (c :: n') = w (UcString.ofText (c :: n')) := by
        simp [nameWeight, hfind]
      have hlist : weight rules w (argListText as ++ rest) =
          (as.map (weight rules w)).sum + weight rules w rest := by
        rw [← weight_argListText]
        exact weight_parenthesized_append _ rest
      have htokens : (tokens.map (weight rules w)).sum ≤ (as.map (weight rules w)).sum := by
        obtain rfl | rfl := htokens
        · simp only [List.map_map, Function.comp_def, weight_trimBlanks, le_refl]
        · exact Nat.zero_le _
      have hrest : weight rules w out ≤ weight rules w rest := by
        obtain heq | hlt := ih.1
        · rw [heq]
        · exact hlt.le
      rw [weight_name hn, hname, hlist]
      by_cases hempty : macroArgs.rewrite = []
      · have hjoin : weight rules w (rule.macroRhs ++ out) ≤
            weight rules w rule.macroRhs + weight rules w out :=
          weightFrom_append_le [] rule.macroRhs out (hrules.dropped _ rule macroArgs hfind hargs hempty)
        have hlow := hrules.rhs _ rule hfind
        obtain rfl : rhsArgs = [] := by
          rw [MacroArgsExpander.rewriteMacroArgs, if_pos hempty] at hrewrite
          exact (Except.ok.inj hrewrite).symm
        rw [List.append_nil]
        omega
      · have hlow := hrules.call _ rule macroArgs tokens rhsArgs hfind hargs hempty hrewrite
        obtain ⟨list, rfl⟩ : ∃ list, rhsArgs = '(' :: (list ++ [')']) := by
          rw [MacroArgsExpander.rewriteMacroArgs, if_neg hempty] at hrewrite
          split at hrewrite
          · cases hrewrite
          · exact ⟨_, (Except.ok.inj hrewrite).symm⟩
        have hstart : StartsOutside ('(' :: (list ++ [')']) ++ out) := startsOutside_cons (by decide) _
        rw [List.append_assoc, weight_append hstart, weight_parenthesized_append]
        omega

theorem weight_of_step (hrules : Weighed rules w) (s t : Text)
    (h : Passes.Step (expandOnce rules) List.isEmpty s t) : weight rules w t < weight rules w s := by
  obtain ⟨out, hexp, hout⟩ := expands_of_expandOnce rules h.1
  split at hout
  · cases hout
  · rename_i hne
    cases hout
    exact (weight_of_expands hrules hexp).1.resolve_left hne

end Weight

/-! ### All passes -/

variable {rules : DdlDefaultValueRules}

/-- The loop of `expand_all_macros` is the loop of passes with the first pass drawn out of it. -/
theorem expandAllMacros_eq (fuel : Nat) (text : Text)
    (hfault : ∀ s e, expandOnce rules s = .error e → e ≠ .outOfFuel) :
    (expandAllMacros rules fuel text = .error .outOfFuel ↔
      Passes.run (expandOnce rules) List.isEmpty (fuel + 1) text = none) := by
  rw [expandAllMacros, Passes.run]
  split
  · rename_i e hpass
    simp [hpass, hfault text e hpass]
  · rename_i hpass
    simp [hpass]
  · rename_i t hpass
    simp only [hpass]
    by_cases ht : t = []
    · simp [ht]
    · have hempty : t.isEmpty = false := by simpa using ht
      rw [if_neg ht, hempty]
      simp only [Bool.false_eq_true, if_false]
      split
      · rename_i hrun
        simp [hrun]
      · rename_i e hrun
        obtain ⟨s, hs⟩ := Passes.error_of_run hrun
        simp [hrun, hfault s e hs]
      · rename_i hrun
        simp [hrun]

theorem expandOnce_nil : expandOnce rules [] = .ok none := rfl

/-- Preferences with one default value rule `lhs` to `rhs` for each pair. -/
def prefsTree (rules : List (String × String)) : Ptree :=
  .object [
    ("datatype_rules", .object [("", .object [("type_name", .leaf "INT"),
      ("datatype", .object [("type", .leaf "unsized")])])]),
    ("default_value_rules", .object (rules.map fun rule => ("", .object [("macro_lhs", .leaf rule.1),
      ("macro_rhs", .leaf rule.2), ("macro_args", .object [("argcnt", .leaf "0")])])))]

/-- What all passes throw one of them throws, or the fuel was used up. -/
theorem error_of_expandAllMacros {rules : DdlDefaultValueRules} {fuel : Nat} {text : Text} {e : Fault}
    (h : expandAllMacros rules fuel text = .error e) : e = .outOfFuel ∨ ∃ s, expandOnce rules s = .error e := by
  rw [expandAllMacros] at h
  split at h
  · rename_i hpass
    cases h
    exact .inr ⟨_, hpass⟩
  · cases h
  · split at h
    · cases h
    · split at h
      · cases h
        exact .inl rfl
      · rename_i hrun
        cases h
        exact .inr (Passes.error_of_run hrun)
      · cases h

/-- What they return is left alone by a further pass. -/
theorem expandOnce_of_expandAllMacros {rules : DdlDefaultValueRules} {fuel : Nat} {text : Text} {r : Option Text}
    (h : expandAllMacros rules fuel text = .ok r) : expandOnce rules (r.getD text) = .ok none := by
  rw [expandAllMacros] at h
  split at h
  · cases h
  · rename_i hpass
    cases h
    exact hpass
  · split at h
    · rename_i ht
      cases h
      rw [ht]
      exact expandOnce_nil
    · split at h
      · cases h
      · cases h
      · rename_i hrun
        cases h
        obtain hstop | hpass := Passes.pass_of_run hrun
        · rw [List.isEmpty_iff.mp hstop]
          exact expandOnce_nil
        · exact hpass

/-- With rules the reader has accepted, the passes come to an end exactly when one of them throws,
empties the text or changes nothing; what is thrown is `invalid_argument`, or comes from an argument that
is missing or an escaped placeholder; what is returned is left alone by a further pass. Rules that put out
less than they take always come to an end, within as many passes as the text weighs. -/
theorem expandAllMacros_of_accepted {pastEnd : Option (Text × Ptree)} {prefRoot : Ptree}
    {prefs : DdlTableMigratorPrefs} (hread : readTableMigratorPrefs pastEnd prefRoot = .ok prefs)
    (text : Text) :
    ((∃ fuel, expandAllMacros prefs.defaultValueRules fuel text ≠ .error .outOfFuel) ↔
      ∃ last, Relation.ReflTransGen
          (Passes.Step (expandOnce prefs.defaultValueRules) List.isEmpty) text last ∧
        Passes.Halts (expandOnce prefs.defaultValueRules) List.isEmpty last) ∧
    (∀ fuel e, expandAllMacros prefs.defaultValueRules fuel text = .error e →
      e = .outOfFuel ∨ e.isInvalidArgument = true ∨ e = .assertion ∨ e = .undefined) ∧
    (∀ fuel r, expandAllMacros prefs.defaultValueRules fuel text = .ok r →
      expandOnce prefs.defaultValueRules (r.getD text) = .ok none) ∧
    ∀ w, Weighed prefs.defaultValueRules w → ∀ fuel, weight prefs.defaultValueRules w text ≤ fuel →
      expandAllMacros prefs.defaultValueRules fuel text ≠ .error .outOfFuel := by
  have hvalid := validated_of_readTableMigratorPrefs hread
  generalize prefs.defaultValueRules = rules at hvalid
  have hfault : ∀ s e, expandOnce rules s = .error e → PassFault e := fun s e =>
    passFault_of_expandOnce hvalid
  have hfuel : ∀ s e, expandOnce rules s = .error e → e ≠ .outOfFuel := by
    rintro s _ hpass rfl
    obtain h | h | h := hfault s _ hpass <;> cases h
  refine ⟨?_, ?_, ?_, ?_⟩
  · simp only [ne_eq, expandAllMacros_eq _ text hfuel, ← Passes.run_isSome_iff, ← Option.isSome_iff_ne_none]
    constructor
    · rintro ⟨fuel, h⟩
      exact ⟨fuel + 1, h⟩
    · rintro ⟨fuel, h⟩
      cases fuel with
      | zero => cases h
      | succ fuel => exact ⟨fuel, h⟩
  · intro fuel e h
    obtain rfl | ⟨s, hpass⟩ := error_of_expandAllMacros h
    · exact .inl rfl
    · exact .inr (hfault s e hpass)
  · exact fun fuel r => expandOnce_of_expandAllMacros
  · intro w hrules fuel hweight h
    rw [expandAllMacros_eq fuel text hfuel] at h
    have hrun := Passes.run_of_measure (weight rules w) (weight_of_step hrules) (Nat.lt_succ_of_le hweight)
    rw [h] at hrun
    cases hrun

/-- A rule that puts out no name lowers the weight of every text it changes. -/
theorem expandAllMacros_of_accepted_constant :
    ∃ prefs, readTableMigratorPrefs none (prefsTree [("now", "1")]) = .ok prefs ∧
      ∀ fuel, 1 ≤ fuel →
        expandAllMacros prefs.defaultValueRules fuel "now".toList ≠ .error .outOfFuel := by
  refine ⟨_, rfl, fun fuel hfuel => ?_⟩
  refine (expandAllMacros_of_accepted (show readTableMigratorPrefs none (prefsTree [("now", "1")]) =
    .ok _ from rfl) "now".toList).2.2.2 (fun _ => 1) ⟨?_, ?_, ?_⟩ fuel hfuel
  · intro n rule hfind
    obtain ⟨rfl, rfl⟩ : (n, rule) = (UcString.ofText "now".toList, ⟨"1".toList, some ⟨0, []⟩⟩) :=
      List.mem_singleton.mp (UnorderedMap.find_eq_some_iff.mp hfind)
    decide
  · intro n rule macroArgs tokens rhsArgs hfind hargs hrewrite
    obtain ⟨rfl, rfl⟩ : (n, rule) = (UcString.ofText "now".toList, ⟨"1".toList, some ⟨0, []⟩⟩) :=
      List.mem_singleton.mp (UnorderedMap.find_eq_some_iff.mp hfind)
    cases hargs
    exact absurd rfl hrewrite
  · intro n rule macroArgs hfind _ _
    obtain ⟨rfl, rfl⟩ : (n, rule) = (UcString.ofText "now".toList, ⟨"1".toList, some ⟨0, []⟩⟩) :=
      List.mem_singleton.mp (UnorderedMap.find_eq_some_iff.mp hfind)
    exact .inl rfl

/-- Two accepted rules that expand to each other are expanded for ever. -/
theorem expandAllMacros_cyclic :
    ∃ prefs, readTableMigratorPrefs none (prefsTree [("a", "b"), ("b", "a")]) = .ok prefs ∧
      ∀ fuel, expandAllMacros prefs.defaultValueRules fuel "a".toList = .error .outOfFuel := by
  refine ⟨_, rfl, fun fuel => ?_⟩
  generalize hrules : DdlTableMigratorPrefs.defaultValueRules _ = rules
  have hab : expandOnce rules "a".toList = .ok (some "b".toList) := by rw [← hrules]; rfl
  have hba : expandOnce rules "b".toList = .ok (some "a".toList) := by rw [← hrules]; rfl
  rw [expandAllMacros, hab]
  simp only [show "b".toList ≠ [] by decide, if_false]
  rw [Passes.run_eq_none_of_orbit (fun s => s = "a".toList ∨ s = "b".toList) (.inr rfl)]
  rintro _ (rfl | rfl)
  · exact ⟨_, ⟨hab, rfl⟩, .inr rfl⟩
  · exact ⟨_, ⟨hba, rfl⟩, .inl rfl⟩

end Middle.NormalDdl
