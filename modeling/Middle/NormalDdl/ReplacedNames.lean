import Middle.NormalDdl.MacroSplices

/-! Which names a pass of the macro expander replaces. A name is looked for wherever the turn before it ended,
so that it need not be a whole SQL name: one that starts with a digit or an underscore is taken apart. -/

namespace Middle.NormalDdl

open Lib Universals

namespace MacroExpander

variable {rules : DdlDefaultValueRules} {text : Text}

/-- A pass over a text puts `new` in the place of the left-hand side `n` and of `list` behind it, with `post`
behind both. -/
def Replaces (rules : DdlDefaultValueRules) (text n list post new : Text) : Prop :=
  ∃ out, Reaches rules text (n ++ (list ++ post)) out ∧
    (processor rules).nextMatch 0 (n ++ (list ++ post)) = .ok ⟨n.length, some .app⟩ ∧
    (rules.find (UcString.ofText n)).isSome ∧
    expandMatch rules (n ++ (list ++ post)) ⟨n.length, some .app⟩ = .ok (new, (n ++ list).length)

/-- Every left-hand side that is replaced stands in the text as a whole: next to it is no letter, digit or
underscore. -/
def ReplacesWholeNames (rules : DdlDefaultValueRules) (text : Text) : Prop :=
  ∀ pre n list post new, text = pre ++ (n ++ (list ++ post)) → Replaces rules text n list post new →
    (∀ c, pre.getLast? = some c → isIdChar c = false) ∧ ∀ c, (list ++ post).head? = some c → isIdChar c = false

/-- A text is taken apart, up to where `post` is left, into quoted segments, names, calls with their arguments
and single characters. -/
inductive SplitsAt (rules : DdlDefaultValueRules) : Text → Text → Prop
  | refl {post : Text} : SplitsAt rules post post
  | quoted {q s post : Text} (hq : SqlQuoted q) (h : SplitsAt rules s post) : SplitsAt rules (q ++ s) post
  | plain {c : Char} {s post : Text} (hquote : isQuote c = false) (halpha : c.isAlpha = false)
      (h : SplitsAt rules s post) : SplitsAt rules (c :: s) post
  | name {n s post : Text} (hn : IsName n s) (hcall : ∀ rule macroArgs, ¬ IsCall rules n s rule macroArgs)
      (h : SplitsAt rules s post) : SplitsAt rules (n ++ s) post
  | call {n list s post : Text} {rule : DdlDefaultValueRule} {macroArgs : DdlDefaultValueRuleMacroArgs}
      {args : List Text} (hcall : IsCall rules n (list ++ s) rule macroArgs) (hlist : IsArgList args list)
      (h : SplitsAt rules s post) : SplitsAt rules (n ++ (list ++ s)) post

/-- No left-hand side stands right behind a digit or an underscore that is a character by itself. -/
def StartsApart (rules : DdlDefaultValueRules) (text : Text) : Prop :=
  ∀ c n s, SplitsAt rules text (c :: (n ++ s)) → isIdChar c = true → c.isAlpha = false → IsName n s →
    rules.find (UcString.ofText n) = none

/-- What the expander's own matcher takes is a name. -/
theorem isName_of_nextMatch {n s : Text} (h : (processor rules).nextMatch 0 (n ++ s) = .ok ⟨n.length, some .app⟩) :
    IsName n s := by
  cases hs : n ++ s with
  | nil =>
      rw [hs] at h
      have hfound : (.ok ⟨1, none⟩ : Except Fault TextMatch) = .ok ⟨n.length, some .app⟩ := h
      exact absurd (congrArg TextMatch.matchedBy (Except.ok.inj hfound)) (by simp)
  | cons c t =>
      rw [hs] at h
      obtain ⟨-, -, hfound⟩ | ⟨halpha, hfound⟩ | ⟨q, rest, -, -, hfound⟩ := (nextMatch_ok_iff rules 0 c t _).mp h
      · exact absurd (congrArg TextMatch.matchedBy hfound) (by simp)
      · obtain ⟨n', list, hn, heq, hlen⟩ := exists_isName halpha t
        have hlength : n.length = n'.length := (congrArg TextMatch.len hfound).trans hlen
        obtain ⟨rfl, rfl⟩ := List.append_inj (hs.trans heq) hlength
        exact hn
      · exact absurd (congrArg TextMatch.matchedBy hfound) (by simp)

/-- A pass that returns goes on from where it comes to. -/
theorem turn_of_expandOnce {r : Option Text} (h : expandOnce rules text = .ok r) {s out : Text} (hne : s ≠ [])
    (hreach : Reaches rules text s out) :
    ∃ m new len, (processor rules).nextMatch 0 s = .ok m ∧ expandMatch rules s m = .ok (new, len) := by
  obtain ⟨c, s, rfl⟩ := List.exists_cons_of_ne_nil hne
  obtain ⟨pos, hrun⟩ := run_of_turns hreach 0
  rw [expandOnce, run_expandMacro] at h
  cases hproc : ((processor rules).processText text).run [] with
  | error e st =>
      rw [hproc] at h
      cases h
  | ok pos' out' =>
      obtain ⟨m, new, len, hnext, hmatch, -⟩ := (run_turn_iff rules).mp (hrun.symm.trans hproc)
      exact ⟨m, new, len, hnext, hmatch⟩

/-- How far a left-hand side is replaced. -/
theorem exists_list_of_expandMatch {n s new : Text} {rule : DdlDefaultValueRule} {len : Nat} (hn : IsName n s)
    (hfind : rules.find (UcString.ofText n) = some rule)
    (h : expandMatch rules (n ++ s) ⟨n.length, some .app⟩ = .ok (new, len)) :
    ∃ list post, s = list ++ post ∧ len = (n ++ list).length := by
  rw [expandMatch_name rules hn, hfind] at h
  dsimp only at h
  have hname : ∃ list post, s = list ++ post ∧ n.length = (n ++ list).length := ⟨[], s, rfl, by rw [List.append_nil]⟩
  split at h
  · split at h
    · rename_i macroArgs hargs hopen
      split at h
      · cases h
      · rename_i text len' hcall
        cases h
        refine ⟨s.take len', s.drop len', (List.take_append_drop _ _).symm, ?_⟩
        rw [List.length_append, List.length_take, Nat.min_eq_left (length_of_expandCall hopen hcall)]
    · cases h
      exact hname
  · cases h
    exact hname

/-- Where a pass comes to, the text is taken apart. -/
theorem splitsAt_of_reaches {s out : Text} (h : Reaches rules text s out) : SplitsAt rules text s := by
  suffices hsplit : ∀ st : Text × Text, Relation.ReflTransGen (Turn rules) st (s, out) → SplitsAt rules st.1 s from
    hsplit _ h
  intro st hturns
  induction hturns using Relation.ReflTransGen.head_induction_on with
  | refl => exact .refl
  | @head st st' hturn _ ih =>
      obtain ⟨s₁, out₁⟩ := st
      obtain ⟨s₂, out₂⟩ := st'
      dsimp only at ih ⊢
      obtain ⟨q, hq, rfl⟩ | ⟨c, hquote, halpha, rfl⟩ | ⟨n, hn, hcall, rfl⟩ |
        ⟨n, list, rule, macroArgs, new, len, hcall, hexpand, rfl, rfl⟩ := turn_cases hturn
      · exact .quoted hq ih
      · exact .plain hquote halpha ih
      · exact .name hn hcall ih
      · obtain ⟨tokens, rhsArgs, htokens, -⟩ := expandCall_ok_iff.mp hexpand
        obtain ⟨args, list', hlist, -, heq, -⟩ := isArgList_of_tokenizeText hcall.opening htokens
        rw [heq] at hcall ⊢
        exact .call hcall hlist ih

theorem suffix_of_splitsAt {post : Text} (h : SplitsAt rules text post) : post <:+ text := by
  induction h with
  | refl => exact List.suffix_rfl
  | quoted hq h ih => exact ih.trans (List.suffix_append _ _)
  | plain hquote halpha h ih => exact ih.trans (List.suffix_cons _ _)
  | name hn hcall h ih => exact ih.trans (List.suffix_append _ _)
  | call hcall hlist h ih => exact (ih.trans (List.suffix_append _ _)).trans (List.suffix_append _ _)

/-- A pass that returns comes to wherever the text is taken apart. -/
theorem reaches_of_splitsAt {r : Option Text} (h : expandOnce rules text = .ok r) {s post out : Text}
    (hsplit : SplitsAt rules s post) (hreach : Reaches rules text s out) : ∃ out', Reaches rules text post out' := by
  induction hsplit generalizing out with
  | refl => exact ⟨out, hreach⟩
  | quoted hq _ ih => exact ih (reaches_quoted hq hreach)
  | @plain c s post hquote halpha _ ih => exact ih (hreach.tail (turn_plain hquote halpha s out))
  | name hn hcall _ ih =>
      obtain ⟨new, hturn⟩ := turn_name hn hcall out
      exact ih (hreach.tail hturn)
  | @call n list s post rule macroArgs args hcall hlist _ ih =>
      have hne : n ++ (list ++ s) ≠ [] := List.append_ne_nil_of_left_ne_nil hcall.name.ne_nil _
      obtain ⟨m, new, len, hnext, hmatch⟩ := turn_of_expandOnce h hne hreach
      obtain rfl : _ = m := Except.ok.inj ((nextMatch_name hcall.name 0).symm.trans hnext)
      rw [expandMatch_call rules hcall] at hmatch
      cases hexpand : expandCall n rule macroArgs (list ++ s) with
      | error e =>
          rw [hexpand] at hmatch
          cases hmatch
      | ok res =>
          obtain ⟨new', len'⟩ := res
          obtain ⟨tokens, rhsArgs, htokens, -⟩ := expandCall_ok_iff.mp hexpand
          obtain ⟨rfl, -⟩ := Prod.mk.inj (Except.ok.inj ((tokenizeText_of_isArgList hlist s).symm.trans htokens))
          have hturn := turn_call hcall hexpand out
          rw [List.drop_left] at hturn
          exact ih (hreach.tail hturn)

/-- A left-hand side that a pass comes to is replaced if the pass returns. -/
theorem replaces_of_reaches {r : Option Text} (h : expandOnce rules text = .ok r) {n s out : Text}
    {rule : DdlDefaultValueRule} (hreach : Reaches rules text (n ++ s) out) (hn : IsName n s)
    (hfind : rules.find (UcString.ofText n) = some rule) :
    ∃ list post new, s = list ++ post ∧ Replaces rules text n list post new := by
  have hne : n ++ s ≠ [] := List.append_ne_nil_of_left_ne_nil hn.ne_nil s
  obtain ⟨m, new, len, hnext, hmatch⟩ := turn_of_expandOnce h hne hreach
  obtain rfl : _ = m := Except.ok.inj ((nextMatch_name hn 0).symm.trans hnext)
  obtain ⟨list, post, rfl, rfl⟩ := exists_list_of_expandMatch hn hfind hmatch
  refine ⟨list, post, new, rfl, out, hreach, hnext, ?_, hmatch⟩
  rw [hfind]
  rfl

/-- What a turn takes in front of a name ends in no letter, digit or underscore, but for a digit or an
underscore that is taken by itself. -/
theorem getLast?_of_turn {s n post out out' : Text} (hn : IsName n post) (h : Turn rules (s, out) (n ++ post, out')) :
    ∃ taken c, s = taken ++ (n ++ post) ∧ taken.getLast? = some c ∧
      (isIdChar c = true → taken = [c] ∧ c.isAlpha = false) := by
  have hno : ∀ {p : Prop} {c : Char}, isIdChar c = false → isIdChar c = true → p := by
    intro p c hc hc'
    rw [hc] at hc'
    cases hc'
  obtain ⟨q, hq, hs⟩ | ⟨c, hquote, halpha, hs⟩ | ⟨n', hn', -, hs⟩ |
    ⟨n', list, rule, macroArgs, new, len, hcall, hexpand, hs, hs'⟩ := turn_cases h
  · obtain ⟨c, hlast, hc⟩ := hq.getLast?
    exact ⟨q, c, hs, hlast, hno (isIdChar_of_isQuote hc)⟩
  · exact ⟨[c], c, hs, rfl, fun _ => ⟨rfl, halpha⟩⟩
  · -- two names in a row would be one
    obtain ⟨c, w, rfl, halpha⟩ := hn.head
    exact hno (hn'.stop c rfl) (isIdChar_of_isAlpha halpha)
  · obtain ⟨as, -, -, hlist, -⟩ := args_of_expandCall hcall.opening hexpand
    refine ⟨n' ++ argListText as, ')', ?_, ?_, hno (c := ')') (by decide)⟩
    · rw [hs, List.append_assoc, hs', ← hlist]
    · rw [argListText, ← List.cons_append, ← List.append_assoc, List.getLast?_concat]

/-- A pass that returns replaces left-hand sides only where they stand as whole names, exactly if none stands
right behind a digit or an underscore that the pass takes by itself. -/
theorem replacesWholeNames_iff {r : Option Text} (h : expandOnce rules text = .ok r) :
    ReplacesWholeNames rules text ↔ StartsApart rules text := by
  constructor
  · intro hwhole c n s hsplit hc halpha hn
    by_contra hfind
    obtain ⟨rule, hfind⟩ := Option.ne_none_iff_exists'.mp hfind
    obtain ⟨out, hreach⟩ := reaches_of_splitsAt h hsplit .refl
    have hreach' : Reaches rules text (n ++ s) (out ++ [c]) :=
      hreach.tail (turn_plain (isQuote_of_isIdChar hc) halpha (n ++ s) out)
    obtain ⟨list, post, new, rfl, hreplaces⟩ := replaces_of_reaches h hreach' hn hfind
    obtain ⟨pre, htext⟩ := suffix_of_splitsAt hsplit
    have hat : text = (pre ++ [c]) ++ (n ++ (list ++ post)) := by
      rw [← htext, List.append_assoc]
      rfl
    obtain ⟨hbefore, -⟩ := hwhole _ n list post new hat hreplaces
    rw [hbefore c List.getLast?_concat] at hc
    cases hc
  · intro hapart pre n list post new htext hreplaces
    obtain ⟨out, hreach, hnext, hfind, -⟩ := hreplaces
    have hn := isName_of_nextMatch hnext
    refine ⟨fun c hlast => ?_, hn.stop⟩
    obtain heq | ⟨⟨s, out'⟩, hreach', hturn⟩ := Relation.ReflTransGen.cases_tail hreach
    · -- nothing stands in front of the text
      have hnil : pre ++ (n ++ (list ++ post)) = n ++ (list ++ post) := htext.symm.trans (Prod.mk.inj heq).1.symm
      rw [List.append_left_eq_self.mp hnil] at hlast
      cases hlast
    · obtain ⟨taken, c', rfl, htaken, hc'⟩ := getLast?_of_turn hn hturn
      obtain ⟨pre', htext'⟩ := suffix_of_splitsAt (splitsAt_of_reaches hreach')
      have heq : pre ++ (n ++ (list ++ post)) = pre' ++ taken ++ (n ++ (list ++ post)) := by
        rw [← htext, ← htext', List.append_assoc]
      obtain rfl := List.append_cancel_right heq
      rw [List.getLast?_append, htaken] at hlast
      obtain rfl : c' = c := Option.some.inj hlast
      cases hid : isIdChar c' with
      | false => rfl
      | true =>
          obtain ⟨rfl, halpha⟩ := hc' hid
          rw [hapart c' n (list ++ post) (splitsAt_of_reaches hreach') hid halpha hn] at hfind
          cases hfind

/-- A longer name that starts with a letter is looked up as a whole. -/
theorem replacesWholeNames_hello1 :
    expandOnce helloRules "hello1 + hello".toList = .ok (some "hello1 + there".toList) ∧
      ReplacesWholeNames helloRules "hello1 + hello".toList := by
  have hexpand : expandOnce helloRules "hello1 + hello".toList = .ok (some "hello1 + there".toList) := by decide +kernel
  refine ⟨hexpand, (replacesWholeNames_iff hexpand).mpr fun c n s hsplit hc halpha hn => ?_⟩
  obtain ⟨c', w, rfl, halpha'⟩ := hn.head
  have hapart : ∀ t ∈ "hello1 + hello".toList.tails, ∀ c c', t.head? = some c → t.tail.head? = some c' →
      isIdChar c = true → c.isAlpha = false → c'.isAlpha = false := by
    have hall : ("hello1 + hello".toList.tails.all fun t =>
        t.head?.all fun c => t.tail.head?.all fun c' => !isIdChar c || c.isAlpha || !c'.isAlpha) = true := by
      decide +kernel
    intro t ht c c' hc hc' hid hc_alpha
    have := List.all_eq_true.mp hall t ht
    simp only [hc, hc', Option.all_some, hid, hc_alpha, Bool.not_true, Bool.or_self, Bool.false_or] at this
    simpa using this
  rw [hapart _ ((List.mem_tails _ _).mpr (suffix_of_splitsAt hsplit)) c c' rfl rfl hc halpha] at halpha'
  cases halpha'

/-- A name that starts with an underscore is replaced behind it. -/
theorem not_replacesWholeNames_underscore :
    expandOnce helloRules "_hello".toList = .ok (some "_there".toList) ∧
      ¬ ReplacesWholeNames helloRules "_hello".toList := by
  refine ⟨by decide +kernel, fun h => ?_⟩
  have hreach : Reaches helloRules "_hello".toList ("hello".toList ++ ([] ++ [])) ([] ++ ['_']) :=
    .single (turn_plain rfl (by decide) _ _)
  have hname : IsName "hello".toList ([] ++ []) := ⟨⟨'h', "ello".toList, rfl, by decide⟩, List.all_eq_true.mp (by decide), by simp⟩
  have hmatch : expandMatch helloRules "hello".toList ⟨5, some .app⟩ = .ok ("there".toList, 5) := by decide +kernel
  have hreplaces : Replaces helloRules "_hello".toList "hello".toList [] [] "there".toList :=
    ⟨_, hreach, nextMatch_name hname 0, by decide +kernel, hmatch⟩
  exact absurd ((h ['_'] _ _ _ _ rfl hreplaces).1 '_' rfl) (by decide)

end MacroExpander

end Middle.NormalDdl
