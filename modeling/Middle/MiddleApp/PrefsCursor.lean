import Middle.MiddleApp.PrefsReader
import Middle.NormalDdl.MacroValidation

/-! Where reading preferences leaves the children of a node. Some fields are read without asking whether a child
is left; when that is past the last one, the reader neither returns nor throws. -/

namespace Middle.MiddleApp

open Lib Universals NormalDdl

/-! ### Exceptions -/

/-- A call returns, or throws an exception that the loaders catch. -/
def Caught {α : Type} (x : Except Fault α) : Prop := ∀ e, x = .error e → (exceptionWhat e).isSome = true

/-- A call returns, or throws the error of the preferences. -/
def ReturnsOrThrows {α : Type} (x : Except Fault α) : Prop :=
  (∃ a, x = .ok a) ∨ ∃ what, x = .error (.prefsError what)

section Caught

variable {α β : Type}

theorem caught_ok (a : α) : Caught (.ok a : Except Fault α) := by
  intro e h
  cases h

theorem caught_prefsError (what : Text) : Caught (.error (.prefsError what) : Except Fault α) := by
  intro e h
  cases h
  rfl

theorem caught_error_iff {e : Fault} : Caught (.error e : Except Fault α) ↔ (exceptionWhat e).isSome = true := by
  constructor
  · exact fun h => h e rfl
  · intro h e' he'
    cases he'
    exact h

theorem caught_ite {p : Prop} [Decidable p] {x y : Except Fault α} (hx : Caught x) (hy : Caught y) :
    Caught (if p then x else y) := by
  split
  · exact hx
  · exact hy

theorem caught_bind {x : Except Fault α} {f : α → Except Fault β} (hx : Caught x)
    (hf : ∀ a, x = .ok a → Caught (f a)) : Caught (x >>= f) := by
  cases x with
  | error e => exact fun e' h => hx e' (by cases h; rfl)
  | ok a => exact hf a rfl

theorem caught_of_caught_bind {x : Except Fault α} {f : α → Except Fault β} (h : Caught (x >>= f)) : Caught x := by
  cases x with
  | error e => exact fun e' h' => h e' (by cases h'; rfl)
  | ok a => exact caught_ok a

/-- With a rest that is caught anyway. -/
theorem caught_bind_iff {x : Except Fault α} {f : α → Except Fault β} (hf : ∀ a, Caught (f a)) :
    Caught (x >>= f) ↔ Caught x :=
  ⟨caught_of_caught_bind, fun hx => caught_bind hx fun a _ => hf a⟩

theorem ReturnsOrThrows.caught {x : Except Fault α} (h : ReturnsOrThrows x) : Caught x := by
  obtain ⟨a, rfl⟩ | ⟨what, rfl⟩ := h
  · exact caught_ok a
  · exact caught_prefsError what

theorem returnsOrThrows_ok (a : α) : ReturnsOrThrows (.ok a : Except Fault α) := .inl ⟨a, rfl⟩

theorem returnsOrThrows_prefsError (what : Text) : ReturnsOrThrows (.error (.prefsError what) : Except Fault α) :=
  .inr ⟨what, rfl⟩

theorem returnsOrThrows_ite {p : Prop} [Decidable p] {x y : Except Fault α} (hx : ReturnsOrThrows x)
    (hy : ReturnsOrThrows y) : ReturnsOrThrows (if p then x else y) := by
  split
  · exact hx
  · exact hy

theorem returnsOrThrows_bind {x : Except Fault α} {f : α → Except Fault β} (hx : ReturnsOrThrows x)
    (hf : ∀ a, x = .ok a → ReturnsOrThrows (f a)) : ReturnsOrThrows (x >>= f) := by
  obtain ⟨a, rfl⟩ | ⟨what, rfl⟩ := hx
  · exact hf a rfl
  · exact returnsOrThrows_prefsError what

theorem caught_of_validationFault {e : Fault} (h : ValidationFault e) : (exceptionWhat e).isSome = true := by
  rcases h with htext | rfl
  · cases e <;> first | rfl | cases htext
  · rfl

end Caught

/-! ### The cursor -/

namespace PtreeCursor

section AtNode

variable {c : PtreeCursor} {name : Text} {t : Ptree} {rest : List (Text × Ptree)}

theorem deref_eq (h : c.rest = (name, t) :: rest) : c.deref none = .ok (name, t) := by
  unfold deref
  rw [h]
  rfl

theorem atNode_eq (h : c.rest = (name, t) :: rest) : c.atNode = true := by
  unfold atNode
  rw [h]
  rfl

theorem rest_next (h : c.rest = (name, t) :: rest) : c.next.rest = rest := by
  unfold next
  rw [h]
  rfl

theorem returnsOrThrows_name (h : c.rest = (name, t) :: rest) : ReturnsOrThrows (c.name none) := by
  unfold PtreeCursor.name
  rw [deref_eq h]
  exact returnsOrThrows_ok _

theorem returnsOrThrows_checkName (h : c.rest = (name, t) :: rest) (what : String) (expected : Option String) :
    ReturnsOrThrows (c.checkName none what expected) := by
  unfold checkName PtreeCursor.name
  rw [deref_eq h]
  cases expected with
  | none => exact returnsOrThrows_ok ()
  | some expected =>
      dsimp only [bind, Except.bind, pure, Except.pure]
      split
      · exact returnsOrThrows_prefsError _
      · exact returnsOrThrows_ok ()

theorem returnsOrThrows_getChild (h : c.rest = (name, t) :: rest) (expected : Option String) :
    ReturnsOrThrows (c.getChild none expected) := by
  unfold getChild
  apply returnsOrThrows_bind (returnsOrThrows_checkName h _ _)
  intro u _
  rw [deref_eq h]
  dsimp only [bind, Except.bind, pure, Except.pure]
  split
  · exact returnsOrThrows_prefsError _
  · exact returnsOrThrows_ok _

theorem returnsOrThrows_getString (h : c.rest = (name, t) :: rest) (expected : Option String) :
    ReturnsOrThrows (c.getString none expected) := by
  unfold getString
  apply returnsOrThrows_bind (returnsOrThrows_checkName h _ _)
  intro u _
  rw [deref_eq h]
  dsimp only [bind, Except.bind, pure, Except.pure]
  split
  · exact returnsOrThrows_prefsError _
  · exact returnsOrThrows_ok _

theorem returnsOrThrows_getNonemptyString (h : c.rest = (name, t) :: rest) (expected : Option String) :
    ReturnsOrThrows (c.getNonemptyString none expected) := by
  unfold getNonemptyString
  apply returnsOrThrows_bind (returnsOrThrows_getString h _)
  intro value _
  dsimp only [bind, Except.bind, pure, Except.pure]
  split
  · exact returnsOrThrows_prefsError _
  · exact returnsOrThrows_ok _

theorem returnsOrThrows_getInt32 (h : c.rest = (name, t) :: rest) (expected : Option String) (range : Int32Range) :
    ReturnsOrThrows (c.getInt32 none expected range) := by
  unfold getInt32
  apply returnsOrThrows_bind (returnsOrThrows_checkName h _ _)
  intro u _
  rw [deref_eq h]
  dsimp only [bind, Except.bind, pure, Except.pure]
  split
  · exact returnsOrThrows_prefsError _
  · split
    · exact returnsOrThrows_prefsError _
    · split
      · exact returnsOrThrows_prefsError _
      · exact returnsOrThrows_ok _

/-- The child a getter has checked has the expected name. -/
theorem checkName_eq_ok_iff (h : c.rest = (name, t) :: rest) (what expected : String) {u : Unit} :
    c.checkName none what (some expected) = .ok u ↔ name = expected.toList := by
  unfold checkName PtreeCursor.name
  rw [deref_eq h]
  dsimp only [bind, Except.bind, pure, Except.pure]
  split
  · rename_i hne
    exact iff_of_false (fun h => by cases h) hne
  · rename_i heq
    exact iff_of_true rfl (not_not.mp heq)

theorem getString_eq_ok_iff (h : c.rest = (name, t) :: rest) (expected : String) {value : Text} :
    c.getString none (some expected) = .ok value ↔ name = expected.toList ∧ t = .node value [] := by
  unfold getString
  rw [bind_eq_ok]
  simp only [checkName_eq_ok_iff h, deref_eq h]
  dsimp only [bind, Except.bind, pure, Except.pure]
  obtain ⟨data, children⟩ := t
  cases children with
  | nil => simp [Ptree.children, Ptree.data, eq_comm]
  | cons child children => simp [Ptree.children, throw, throwThe, MonadExceptOf.throw]

theorem getNonemptyString_eq_ok_iff (h : c.rest = (name, t) :: rest) (expected : String) {value : Text} :
    c.getNonemptyString none (some expected) = .ok value ↔
      name = expected.toList ∧ t = .node value [] ∧ value ≠ [] := by
  unfold getNonemptyString
  rw [bind_eq_ok]
  constructor
  · rintro ⟨found, hfound, hvalue⟩
    obtain ⟨hname, ht⟩ := (getString_eq_ok_iff h expected).mp hfound
    dsimp only [bind, Except.bind, pure, Except.pure] at hvalue
    split at hvalue
    · cases hvalue
    · rename_i hne
      cases hvalue
      exact ⟨hname, ht, by simpa using hne⟩
  · rintro ⟨hname, ht, hne⟩
    refine ⟨value, (getString_eq_ok_iff h expected).mpr ⟨hname, ht⟩, ?_⟩
    rw [if_neg (by simpa using hne)]
    rfl

theorem getInt32_eq_ok_iff (h : c.rest = (name, t) :: rest) (expected : String) {value : Int32} :
    c.getInt32 none (some expected) .nonNegative = .ok value ↔
      name = expected.toList ∧ t.int32Value = some value ∧ 0 ≤ value := by
  unfold getInt32
  rw [bind_eq_ok]
  simp only [checkName_eq_ok_iff h, deref_eq h]
  dsimp only [bind, Except.bind, pure, Except.pure]
  cases hvalue : t.int32Value with
  | none => simp [throw, throwThe, MonadExceptOf.throw]
  | some found =>
      by_cases hnegative : found < 0
      · have hnot : found = value → ¬ 0 ≤ value := fun heq => Int32.not_le.mpr (heq ▸ hnegative)
        simpa [throw, throwThe, MonadExceptOf.throw, hnegative] using fun _ => hnot
      · have hrange : found = value → 0 ≤ value := fun heq => Int32.not_lt.mp (heq ▸ hnegative)
        simpa [hnegative] using fun _ => hrange

theorem children_of_getChild (h : c.rest = (name, t) :: rest) {expected : Option String} {child : Ptree}
    (hchild : c.getChild none expected = .ok child) : child = t ∧ t.children ≠ [] := by
  unfold getChild at hchild
  rw [bind_eq_ok] at hchild
  obtain ⟨u, -, hchild⟩ := hchild
  rw [deref_eq h] at hchild
  dsimp only [bind, Except.bind, pure, Except.pure] at hchild
  split at hchild
  · cases hchild
  · rename_i hne
    cases hchild
    exact ⟨rfl, by simpa using hne⟩

theorem getChild_eq_ok (h : c.rest = (name, t) :: rest) (hne : t.children ≠ []) : c.getChild none none = .ok t := by
  unfold getChild checkName
  rw [deref_eq h]
  dsimp only [bind, Except.bind, pure, Except.pure]
  rw [if_neg (by simpa using hne)]

theorem name_eq (h : c.rest = (name, t) :: rest) : c.name none = .ok name := by
  unfold PtreeCursor.name
  rw [deref_eq h]
  rfl

end AtNode

section Past

variable {c : PtreeCursor}

theorem atNode_past (h : c.rest = []) : c.atNode = false := by
  unfold atNode
  rw [h]
  rfl

theorem name_past (h : c.rest = []) : c.name none = .error .undefined := by
  unfold PtreeCursor.name deref
  rw [h]
  rfl

theorem getChild_past (h : c.rest = []) (expected : String) : c.getChild none (some expected) = .error .undefined := by
  unfold getChild checkName
  dsimp only
  rw [name_past h]
  rfl

theorem getString_past (h : c.rest = []) (expected : String) :
    c.getString none (some expected) = .error .undefined := by
  unfold getString checkName
  dsimp only
  rw [name_past h]
  rfl

end Past

end PtreeCursor

/-! ### Data types -/

theorem returnsOrThrows_parseDatatypeRuleType (value prefPath : Text) :
    ReturnsOrThrows (parseDatatypeRuleType value prefPath) := by
  unfold parseDatatypeRuleType
  repeat' apply returnsOrThrows_ite (returnsOrThrows_ok _)
  exact returnsOrThrows_prefsError _

theorem returnsOrThrows_parseMapSizeType (value prefPath : Text) :
    ReturnsOrThrows (parseMapSizeType value prefPath) := by
  unfold parseMapSizeType
  repeat' apply returnsOrThrows_ite (returnsOrThrows_ok _)
  exact returnsOrThrows_prefsError _

theorem exists_rest_of_atNode {c : PtreeCursor} (h : c.atNode = true) :
    ∃ name t rest, c.rest = (name, t) :: rest := by
  unfold PtreeCursor.atNode at h
  cases hrest : c.rest with
  | nil =>
      rw [hrest] at h
      cases h
  | cons node rest => exact ⟨node.1, node.2, rest, rfl⟩

theorem returnsOrThrows_parseOptionalInt32 (c : PtreeCursor) (name : String) (default : Int32) :
    ReturnsOrThrows (parseOptionalInt32 none c name default) := by
  unfold parseOptionalInt32
  split
  · exact returnsOrThrows_ok _
  · rename_i hat
    obtain ⟨found, t, rest, hrest⟩ := exists_rest_of_atNode (by simpa using hat)
    apply returnsOrThrows_bind (PtreeCursor.returnsOrThrows_name hrest)
    intro found' _
    split
    · have hvalue := PtreeCursor.returnsOrThrows_getInt32 hrest none .full
      exact returnsOrThrows_bind hvalue fun value _ => returnsOrThrows_ok _
    · exact returnsOrThrows_ok _

/-- Reading a sub-rule asks for a child each time. -/
theorem returnsOrThrows_parseMapSize (t : Ptree) (prefPath : Text) :
    ReturnsOrThrows (parseMapSize none t prefPath) := by
  unfold parseMapSize
  dsimp only
  split
  · exact returnsOrThrows_prefsError _
  · rename_i hat
    obtain ⟨found, t', rest, hrest⟩ := exists_rest_of_atNode (by simpa using hat)
    apply returnsOrThrows_bind (PtreeCursor.returnsOrThrows_getString hrest _)
    intro value _
    apply returnsOrThrows_bind (returnsOrThrows_parseMapSizeType _ _)
    intro mapSizeType _
    apply returnsOrThrows_bind (returnsOrThrows_parseOptionalInt32 _ _ _)
    intro rangeMin _
    apply returnsOrThrows_bind (returnsOrThrows_parseOptionalInt32 _ _ _)
    intro rangeMax _
    apply returnsOrThrows_bind (returnsOrThrows_parseOptionalInt32 _ _ _)
    intro newValue _
    split
    · exact returnsOrThrows_prefsError _
    · exact returnsOrThrows_ok _

theorem returnsOrThrows_parseMapSizesFrom {c : PtreeCursor} {nodes : List (Text × Ptree)} (h : c.rest = nodes) :
    ReturnsOrThrows (parseMapSizesFrom none c nodes) := by
  induction nodes generalizing c with
  | nil => exact returnsOrThrows_ok _
  | cons node nodes ih =>
      unfold parseMapSizesFrom
      apply returnsOrThrows_bind (PtreeCursor.returnsOrThrows_getChild h _)
      intro child _
      apply returnsOrThrows_bind (returnsOrThrows_parseMapSize _ _)
      intro mapSize _
      apply returnsOrThrows_bind (ih (by rw [PtreeCursor.next, h]; rfl))
      intro mapSizes _
      exact returnsOrThrows_ok _

theorem returnsOrThrows_parseMapSizes (t : Ptree) (prefPath : Text) :
    ReturnsOrThrows (parseMapSizes none t prefPath) := by
  unfold parseMapSizes
  dsimp only
  split
  · exact returnsOrThrows_prefsError _
  · apply returnsOrThrows_bind (returnsOrThrows_parseMapSizesFrom rfl)
    intro mapSizes _
    split
    · exact returnsOrThrows_prefsError _
    · exact returnsOrThrows_ok _

/-- The end of `parse_datatype_rule`: the sub-rules are the last field of a rule. -/
def readMapSizes (c : PtreeCursor) (prefPath : Text) (rule : List DdlMapSize → DdlDatatypeRule) :
    Except Fault DdlDatatypeRule := do
  let mapSizesNode ← c.getChild none "map_sizes"
  if c.next.atNode then
    throw (.prefsError ("unexpected node at path ".toList ++ c.next.prefPath))
  return rule (← parseMapSizes none mapSizesNode prefPath)

theorem returnsOrThrows_readMapSizes {c : PtreeCursor} {name : Text} {t : Ptree} {rest : List (Text × Ptree)}
    (h : c.rest = (name, t) :: rest) (prefPath : Text) (rule : List DdlMapSize → DdlDatatypeRule) :
    ReturnsOrThrows (readMapSizes c prefPath rule) := by
  apply returnsOrThrows_bind (PtreeCursor.returnsOrThrows_getChild h _)
  intro mapSizesNode _
  split
  · exact returnsOrThrows_prefsError _
  · exact returnsOrThrows_bind (returnsOrThrows_parseMapSizes _ _) fun mapSizes _ => returnsOrThrows_ok _

theorem returnsOrThrows_parseDatatypeRule {t : Ptree} (h : t.children ≠ []) (prefPath : Text) :
    ReturnsOrThrows (parseDatatypeRule none t prefPath) := by
  obtain ⟨node, rest, hrest⟩ := List.exists_cons_of_ne_nil h
  unfold parseDatatypeRule
  dsimp only
  apply returnsOrThrows_bind (PtreeCursor.returnsOrThrows_getString (c := PtreeCursor.ofTree t prefPath) hrest _)
  intro value _
  apply returnsOrThrows_bind (returnsOrThrows_parseDatatypeRuleType _ _)
  intro datatypeRuleType _
  generalize (PtreeCursor.ofTree t prefPath).next = cursor
  split
  · exact returnsOrThrows_ok _
  · rename_i hat
    obtain ⟨found, t', rest', hrest'⟩ := exists_rest_of_atNode (by simpa using hat)
    apply returnsOrThrows_bind (PtreeCursor.returnsOrThrows_name hrest')
    intro found' _
    split
    · apply returnsOrThrows_bind (PtreeCursor.returnsOrThrows_getNonemptyString hrest' _)
      intro mapName _
      split
      · exact returnsOrThrows_ok _
      · rename_i hat'
        obtain ⟨found'', t'', rest'', hrest''⟩ := exists_rest_of_atNode (by simpa using hat')
        exact returnsOrThrows_readMapSizes hrest'' _ _
    · apply returnsOrThrows_bind (returnsOrThrows_ok _)
      intro mapName _
      exact returnsOrThrows_readMapSizes hrest' _ _

/-- An element with a type name and nothing behind it. -/
def TypeNameOnly (t : Ptree) : Prop :=
  ∃ typeName, typeName ≠ [] ∧ t.children = [("type_name".toList, .node typeName [])]

/-- The data type is read without asking whether there is one. -/
theorem caught_parseTypeNameDatatypeRule_iff (t : Ptree) (prefPath : Text) :
    Caught (parseTypeNameDatatypeRule none t prefPath) ↔ ¬ TypeNameOnly t := by
  constructor
  · rintro hcaught ⟨typeName, hne, hchildren⟩
    have hundefined : parseTypeNameDatatypeRule none t prefPath = .error .undefined := by
      have hfirst : (PtreeCursor.ofTree t prefPath).rest = ("type_name".toList, .node typeName []) :: [] := hchildren
      unfold parseTypeNameDatatypeRule
      dsimp only
      rw [PtreeCursor.atNode_eq hfirst, (PtreeCursor.getNonemptyString_eq_ok_iff hfirst _).mpr ⟨rfl, rfl, hne⟩,
        PtreeCursor.getChild_past (PtreeCursor.rest_next hfirst)]
      rfl
    cases hcaught _ hundefined
  · intro hlong
    unfold parseTypeNameDatatypeRule
    dsimp only
    split
    · exact caught_prefsError _
    · rename_i hat
      obtain ⟨name, t', rest, hrest⟩ := exists_rest_of_atNode (by simpa using hat)
      apply caught_bind (PtreeCursor.returnsOrThrows_getNonemptyString hrest _).caught
      intro typeName htypeName
      obtain ⟨rfl, rfl, hne⟩ := (PtreeCursor.getNonemptyString_eq_ok_iff hrest "type_name").mp htypeName
      cases rest with
      | nil => exact absurd ⟨typeName, hne, hrest⟩ hlong
      | cons node rest =>
          have hnext : (PtreeCursor.ofTree t prefPath).next.rest = (node.1, node.2) :: rest :=
            PtreeCursor.rest_next hrest
          apply caught_bind (PtreeCursor.returnsOrThrows_getChild hnext _).caught
          intro datatypeNode hdatatypeNode
          obtain ⟨rfl, hchildren⟩ := PtreeCursor.children_of_getChild hnext hdatatypeNode
          split
          · exact caught_prefsError _
          · exact caught_bind (returnsOrThrows_parseDatatypeRule hchildren _).caught fun rule _ => caught_ok _

/-! ### Default values -/

/-- The arguments of a rule with a rewrite that trips an assertion when it is validated. -/
def MacroArgsTrip (t : Ptree) : Prop :=
  ∃ argcntNode argcnt rewrite rest, t.children =
      ("argcnt".toList, argcntNode) :: ("rewrite".toList, .node rewrite []) :: rest ∧
    argcntNode.int32Value = some argcnt ∧ 0 ≤ argcnt ∧ rewrite ≠ [] ∧ BeginsMatched argcnt.toInt.toNat rewrite

theorem caught_validateRewrite_iff (macroArgs : DdlDefaultValueRuleMacroArgs) (prefPath : Text) :
    Caught (validateRewrite macroArgs prefPath) ↔ ¬ BeginsMatched macroArgs.argcnt macroArgs.rewrite := by
  unfold validateRewrite
  constructor
  · intro hcaught hbegins
    rw [rewriteMacroArgs_of_beginsMatched hbegins] at hcaught
    cases hcaught _ rfl
  · intro hbegins
    split
    · exact caught_prefsError _
    · exact caught_prefsError _
    · rename_i e _ _ herror
      intro e' he'
      cases he'
      exact caught_of_validationFault (validationFault_of_rewriteMacroArgs hbegins herror)
    · exact caught_ok _

/-- The validation of a rewrite is all that is not caught. -/
theorem caught_parseMacroArgs_iff {t : Ptree} (h : t.children ≠ []) (prefPath : Text) :
    Caught (parseMacroArgs none t prefPath) ↔ ¬ MacroArgsTrip t := by
  unfold parseMacroArgs
  dsimp only
  constructor
  · rintro hcaught ⟨argcntNode, argcnt, rewrite, rest, hchildren, hargcnt, hpos, hne, hbegins⟩
    have hfirst : (PtreeCursor.ofTree t prefPath).rest = ("argcnt".toList, argcntNode) :: _ := hchildren
    have hnext := PtreeCursor.rest_next hfirst
    rw [(PtreeCursor.getInt32_eq_ok_iff hfirst _).mpr ⟨rfl, hargcnt, hpos⟩, PtreeCursor.atNode_eq hnext,
      (PtreeCursor.getNonemptyString_eq_ok_iff hnext _).mpr ⟨rfl, rfl, hne⟩] at hcaught
    change Caught (validateRewrite ⟨argcnt.toInt.toNat, rewrite⟩ prefPath >>= _) at hcaught
    exact (caught_validateRewrite_iff _ _).mp (caught_of_caught_bind hcaught) hbegins
  · intro htrip
    obtain ⟨node, rest, hrest⟩ := List.exists_cons_of_ne_nil h
    have hfirst : (PtreeCursor.ofTree t prefPath).rest = (node.1, node.2) :: rest := hrest
    apply caught_bind (PtreeCursor.returnsOrThrows_getInt32 hfirst _ _).caught
    intro argcnt hargcnt
    split
    · exact caught_ok _
    · rename_i hat
      obtain ⟨name, t', rest', hnext⟩ := exists_rest_of_atNode (by simpa using hat)
      apply caught_bind (PtreeCursor.returnsOrThrows_getNonemptyString hnext _).caught
      intro rewrite hrewrite
      refine caught_bind ((caught_validateRewrite_iff _ _).mpr ?_) fun u _ => caught_ite (caught_ok _)
        (caught_prefsError _)
      intro hbegins
      obtain ⟨hname, hvalue, hpos⟩ := (PtreeCursor.getInt32_eq_ok_iff hfirst _).mp hargcnt
      obtain ⟨rfl, rfl, hne⟩ := (PtreeCursor.getNonemptyString_eq_ok_iff hnext _).mp hrewrite
      refine htrip ⟨node.2, argcnt, rewrite, rest', ?_, hvalue, hpos, hne, hbegins⟩
      rw [hrest, ← (PtreeCursor.rest_next hfirst).symm.trans hnext, ← hname]

/-- An element whose fields end in front of `macro_rhs` or directly behind it. -/
def MacroRuleCutShort (t : Ptree) : Prop :=
  ∃ macroLhs, macroLhs ≠ [] ∧
    (t.children = [("macro_lhs".toList, .node macroLhs [])] ∨
      ∃ macroRhs, t.children = [("macro_lhs".toList, .node macroLhs []), ("macro_rhs".toList, .node macroRhs [])])

/-- An element whose last field are macro arguments that trip an assertion. -/
def MacroRuleTrips (t : Ptree) : Prop :=
  ∃ macroLhs macroRhs macroArgs, macroLhs ≠ [] ∧
    t.children = [("macro_lhs".toList, .node macroLhs []), ("macro_rhs".toList, .node macroRhs []),
      ("macro_args".toList, macroArgs)] ∧ MacroArgsTrip macroArgs

/-- Whether there are arguments is asked of the child behind the right-hand side, which need not be there. -/
theorem not_caught_of_macroRuleCutShort {t : Ptree} (h : MacroRuleCutShort t) (prefPath : Text) :
    ¬ Caught (parseMacroLhsDefaultValueRule none t prefPath) := by
  intro hcaught
  unfold parseMacroLhsDefaultValueRule at hcaught
  dsimp only at hcaught
  obtain ⟨macroLhs, hne, hchildren | ⟨macroRhs, hchildren⟩⟩ := h
  · have hlhs : (PtreeCursor.ofTree t prefPath).rest = ("macro_lhs".toList, .node macroLhs []) :: _ := hchildren
    rw [PtreeCursor.atNode_eq hlhs, (PtreeCursor.getNonemptyString_eq_ok_iff hlhs _).mpr ⟨rfl, rfl, hne⟩,
      PtreeCursor.getString_past (PtreeCursor.rest_next hlhs)] at hcaught
    cases hcaught .undefined rfl
  · have hlhs : (PtreeCursor.ofTree t prefPath).rest = ("macro_lhs".toList, .node macroLhs []) :: _ := hchildren
    have hrhs := PtreeCursor.rest_next hlhs
    rw [PtreeCursor.atNode_eq hlhs, (PtreeCursor.getNonemptyString_eq_ok_iff hlhs _).mpr ⟨rfl, rfl, hne⟩,
      (PtreeCursor.getString_eq_ok_iff hrhs _).mpr ⟨rfl, rfl⟩,
      PtreeCursor.name_past (PtreeCursor.rest_next hrhs)] at hcaught
    cases hcaught .undefined rfl

theorem not_caught_of_macroRuleTrips {t : Ptree} (h : MacroRuleTrips t) (prefPath : Text) :
    ¬ Caught (parseMacroLhsDefaultValueRule none t prefPath) := by
  intro hcaught
  unfold parseMacroLhsDefaultValueRule at hcaught
  dsimp only at hcaught
  obtain ⟨macroLhs, macroRhs, macroArgs, hne, hchildren, htrip⟩ := h
  have hlhs : (PtreeCursor.ofTree t prefPath).rest = ("macro_lhs".toList, .node macroLhs []) :: _ := hchildren
  have hrhs := PtreeCursor.rest_next hlhs
  have hargs := PtreeCursor.rest_next hrhs
  have hargsNode : macroArgs.children ≠ [] := by
    obtain ⟨_, _, _, _, hargsChildren, -⟩ := htrip
    rw [hargsChildren]
    exact List.cons_ne_nil _ _
  rw [PtreeCursor.atNode_eq hlhs, (PtreeCursor.getNonemptyString_eq_ok_iff hlhs _).mpr ⟨rfl, rfl, hne⟩,
    (PtreeCursor.getString_eq_ok_iff hrhs _).mpr ⟨rfl, rfl⟩, PtreeCursor.name_eq hargs,
    PtreeCursor.getChild_eq_ok hargs hargsNode,
    PtreeCursor.atNode_past (PtreeCursor.rest_next hargs)] at hcaught
  change Caught (parseMacroArgs none macroArgs _ >>= _) at hcaught
  exact (caught_parseMacroArgs_iff hargsNode _).mp (caught_of_caught_bind hcaught) htrip

theorem caught_parseMacroLhsDefaultValueRule_iff (t : Ptree) (prefPath : Text) :
    Caught (parseMacroLhsDefaultValueRule none t prefPath) ↔ ¬ (MacroRuleCutShort t ∨ MacroRuleTrips t) := by
  constructor
  · rintro hcaught (hcut | htrips)
    · exact not_caught_of_macroRuleCutShort hcut prefPath hcaught
    · exact not_caught_of_macroRuleTrips htrips prefPath hcaught
  · intro hgood
    obtain ⟨hlong, htrips⟩ := not_or.mp hgood
    unfold parseMacroLhsDefaultValueRule
    dsimp only
    split
    · exact caught_prefsError _
    · rename_i hat
      obtain ⟨name, t', rest, hlhs⟩ := exists_rest_of_atNode (by simpa using hat)
      apply caught_bind (PtreeCursor.returnsOrThrows_getNonemptyString hlhs _).caught
      intro macroLhs hmacroLhs
      obtain ⟨rfl, rfl, hne⟩ := (PtreeCursor.getNonemptyString_eq_ok_iff hlhs _).mp hmacroLhs
      cases rest with
      | nil => exact absurd ⟨macroLhs, hne, .inl hlhs⟩ hlong
      | cons rhsNode rest =>
          have hrhs : (PtreeCursor.ofTree t prefPath).next.rest = (rhsNode.1, rhsNode.2) :: rest :=
            PtreeCursor.rest_next hlhs
          apply caught_bind (PtreeCursor.returnsOrThrows_getString hrhs _).caught
          intro macroRhs hmacroRhs
          obtain ⟨hname, hnode⟩ := (PtreeCursor.getString_eq_ok_iff hrhs _).mp hmacroRhs
          obtain rfl : rhsNode = ("macro_rhs".toList, .node macroRhs []) := Prod.ext hname hnode
          cases rest with
          | nil => exact absurd ⟨macroLhs, hne, .inr ⟨macroRhs, hlhs⟩⟩ hlong
          | cons argsNode rest =>
              have hargs : (PtreeCursor.ofTree t prefPath).next.next.rest = (argsNode.1, argsNode.2) :: rest :=
                PtreeCursor.rest_next hrhs
              have hend := caught_ite (p := (!(PtreeCursor.ofTree t prefPath).next.next.atNode) = true)
                (caught_ok (UcString.ofText macroLhs, ({ macroRhs } : DdlDefaultValueRule)))
                (caught_prefsError ("unexpected node at path ".toList ++
                  (PtreeCursor.ofTree t prefPath).next.next.prefPath))
              apply caught_bind (PtreeCursor.returnsOrThrows_name hargs).caught
              intro argsName hargsName
              split
              · rename_i hmacroArgs
                apply caught_bind (PtreeCursor.returnsOrThrows_getChild hargs _).caught
                intro macroArgsNode hmacroArgsNode
                obtain ⟨rfl, hchildren⟩ := PtreeCursor.children_of_getChild hargs hmacroArgsNode
                split
                · rename_i hlast
                  refine caught_bind ((caught_parseMacroArgs_iff hchildren _).mpr ?_) fun macroArgs _ => caught_ok _
                  intro htrip
                  refine htrips ⟨macroLhs, macroRhs, argsNode.2, hne, ?_, htrip⟩
                  have hargsNode : argsNode.1 = "macro_args".toList := by
                    rw [PtreeCursor.name_eq hargs] at hargsName
                    exact (Except.ok.inj hargsName).trans hmacroArgs
                  obtain rfl : rest = [] := by
                    cases hrest : rest with
                    | nil => rfl
                    | cons node rest' =>
                        rw [hrest] at hargs
                        rw [PtreeCursor.atNode_eq (PtreeCursor.rest_next hargs)] at hlast
                        cases hlast
                  rw [← hargsNode]
                  exact hlhs
                · exact caught_prefsError _
              · exact hend

/-! ### The arrays -/

section Load

variable {ρ : Type} {parse : Ptree → Text → Except Fault (UcString × ρ)} {what : String}

/-- The turn of the loop over an array. -/
theorem loadRulesFrom_cons {c : PtreeCursor} {node : Text × Ptree} {rest nodes : List (Text × Ptree)}
    (hc : c.rest = node :: rest) (rules : UnorderedMap UcString ρ) :
    loadRulesFrom none parse what c rules (node :: nodes) =
      if node.2.children = [] then .error (.prefsError ("unexpected non-node at path ".toList ++ c.prefPath))
      else parse node.2 c.prefPath >>= fun r =>
        if (rules.insert r.1 r.2).2 then loadRulesFrom none parse what c.next (rules.insert r.1 r.2).1 nodes
        else .error (.prefsError ("duplicate map ".toList ++ what.toList ++ " '".toList ++ r.1.str ++
          "' at path ".toList ++ c.prefPath)) := by
  by_cases hchildren : node.2.children = []
  · have hchild : c.getChild none none = .error (.prefsError ("unexpected non-node at path ".toList ++ c.prefPath)) := by
      have hderef : c.deref none = .ok (node.1, node.2) := PtreeCursor.deref_eq hc
      unfold PtreeCursor.getChild PtreeCursor.checkName
      rw [hderef]
      dsimp only [bind, Except.bind, pure, Except.pure]
      rw [if_pos (by simp [hchildren])]
      rfl
    rw [if_pos hchildren, loadRulesFrom, hchild]
    rfl
  · have hchild : c.getChild none none = .ok node.2 := PtreeCursor.getChild_eq_ok hc hchildren
    rw [if_neg hchildren, loadRulesFrom, hchild]
    dsimp only [bind, Except.bind]
    cases parse node.2 c.prefPath with
    | error e => rfl
    | ok r =>
        dsimp only
        cases (rules.insert r.1 r.2).2 with
        | false => rfl
        | true => rfl

variable {Bad : Ptree → Prop}

/-- A loop over elements is caught when none of them is bad that is read, with all in front of it loaded. -/
theorem caught_loadRulesFrom_iff
    (hparse : ∀ t prefPath, t.children ≠ [] → (Caught (parse t prefPath) ↔ ¬ Bad t))
    (hbad : ∀ t, Bad t → t.children ≠ []) {nodes : List (Text × Ptree)} {c : PtreeCursor}
    {rules : UnorderedMap UcString ρ} (hc : c.rest = nodes) :
    Caught (loadRulesFrom none parse what c rules nodes) ↔
      ∀ before node behind, nodes = before ++ node :: behind →
        (∃ loaded, loadRulesFrom none parse what c rules before = .ok loaded) → ¬ Bad node.2 := by
  induction nodes generalizing c rules with
  | nil =>
      refine iff_of_true (caught_ok _) ?_
      intro before node behind hnil
      simp at hnil
  | cons node nodes ih =>
      -- what stands in front is nothing, or begins with the first element
      have hsplit : (∀ before node' behind, node :: nodes = before ++ node' :: behind →
          (∃ loaded, loadRulesFrom none parse what c rules before = .ok loaded) → ¬ Bad node'.2) ↔
          ¬ Bad node.2 ∧ ∀ before node' behind, nodes = before ++ node' :: behind →
            (∃ loaded, loadRulesFrom none parse what c rules (node :: before) = .ok loaded) → ¬ Bad node'.2 := by
        constructor
        · intro h
          refine ⟨h [] node nodes rfl ⟨rules, rfl⟩, ?_⟩
          intro before node' behind hnodes
          exact h (node :: before) node' behind (by rw [hnodes]; rfl)
        · rintro ⟨hfirst, hrest⟩ before node' behind hnodes
          cases before with
          | nil =>
              cases hnodes
              exact fun _ => hfirst
          | cons node'' before =>
              cases hnodes
              exact hrest before node' behind rfl
      rw [hsplit]
      simp only [loadRulesFrom_cons hc]
      by_cases hchildren : node.2.children = []
      · simp only [if_pos hchildren]
        refine iff_of_true (caught_prefsError _) ⟨fun h => hbad _ h hchildren, ?_⟩
        rintro before node' behind - ⟨loaded, hloaded⟩
        cases hloaded
      · simp only [if_neg hchildren]
        have hnode := hparse node.2 c.prefPath hchildren
        cases hrule : parse node.2 c.prefPath with
        | error e =>
            rw [hrule, caught_error_iff] at hnode
            change Caught (.error e : Except Fault (UnorderedMap UcString ρ)) ↔ _
            rw [caught_error_iff, hnode]
            refine (and_iff_left ?_).symm
            rintro before node' behind - ⟨loaded, hloaded⟩
            cases hloaded
        | ok r =>
            rw [hrule] at hnode
            have hgood : ¬ Bad node.2 := hnode.mp (caught_ok r)
            rw [and_iff_right hgood]
            dsimp only [bind, Except.bind]
            cases (rules.insert r.1 r.2).2 with
            | false =>
                refine iff_of_true (caught_prefsError _) ?_
                rintro before node' behind - ⟨loaded, hloaded⟩
                cases hloaded
            | true => exact ih (PtreeCursor.rest_next hc)

/-- A bad element is read from an array: all elements in front of it load. -/
def ReadsBad (parse : Ptree → Text → Except Fault (UcString × ρ)) (Bad : Ptree → Prop) (what prefPath : String)
    (prefRoot : Ptree) : Prop :=
  ∃ prefTree before node behind, prefRoot.child? prefPath.toList = some prefTree ∧
    prefTree.children = before ++ node :: behind ∧
    (∃ loaded, loadRulesFrom none parse what (.ofTree prefTree prefPath.toList true) ∅ before = .ok loaded) ∧
    Bad node.2

/-- The handlers of the loaders turn what they catch into the error of the preferences. -/
theorem returnsOrThrows_handler_iff (msgPrefix : Text) (load : Except Fault (UnorderedMap UcString ρ)) :
    ReturnsOrThrows (match load with
      | .ok rules => .ok rules
      | .error e =>
          match exceptionWhat e with
          | some what => .error (.prefsError (msgPrefix ++ what))
          | none => .error e) ↔ Caught load := by
  cases load with
  | ok rules => exact iff_of_true (.inl ⟨rules, rfl⟩) (caught_ok rules)
  | error e =>
      rw [caught_error_iff]
      dsimp only
      cases hwhat : exceptionWhat e with
      | some what => exact iff_of_true (.inr ⟨_, rfl⟩) rfl
      | none =>
          refine iff_of_false ?_ Bool.false_ne_true
          rintro (⟨rules, hrules⟩ | ⟨what, hthrown⟩)
          · cases hrules
          · cases hthrown
            cases hwhat

theorem returnsOrThrows_loadRulesPrefs_iff
    (hparse : ∀ t prefPath, t.children ≠ [] → (Caught (parse t prefPath) ↔ ¬ Bad t))
    (hbad : ∀ t, Bad t → t.children ≠ []) (what prefPath : String) (noneLoaded msgPrefix : Text) (prefRoot : Ptree) :
    ReturnsOrThrows (loadRulesPrefs none parse what prefPath noneLoaded msgPrefix prefRoot) ↔
      ¬ ReadsBad parse Bad what prefPath prefRoot := by
  unfold loadRulesPrefs
  refine (returnsOrThrows_handler_iff msgPrefix _).trans ?_
  unfold ReadsBad
  cases hchild : prefRoot.child? prefPath.toList with
  | none =>
      refine iff_of_true (caught_prefsError _) ?_
      rintro ⟨prefTree, _, _, _, hsome, -⟩
      cases hsome
  | some prefTree =>
      dsimp only
      by_cases hchildren : prefTree.children = []
      · rw [if_pos (by simp [hchildren])]
        refine iff_of_true (caught_prefsError _) ?_
        rintro ⟨_, before, node, behind, hsome, hsplit, -⟩
        cases hsome
        rw [hchildren] at hsplit
        simp at hsplit
      · have hloop : (PtreeCursor.ofTree prefTree prefPath.toList true).rest = prefTree.children := rfl
        rw [if_neg (by simpa using hchildren), caught_bind_iff, caught_loadRulesFrom_iff hparse hbad rfl, hloop]
        · constructor
          · rintro hgood ⟨_, before, node, behind, hsome, hsplit, hloaded, hnode⟩
            cases hsome
            exact hgood before node behind hsplit hloaded hnode
          · intro hnone before node behind hsplit hloaded hnode
            exact hnone ⟨prefTree, before, node, behind, rfl, hsplit, hloaded, hnode⟩
        · intro rules
          exact caught_ite (caught_prefsError _) (caught_ok _)

end Load

/-! ### The preferences -/

/-- A data type rule is read that ends behind its type name. -/
def ReadsTypeNameOnly (prefRoot : Ptree) : Prop :=
  ReadsBad (parseTypeNameDatatypeRule none) TypeNameOnly "datatype type_name" "datatype_rules" prefRoot

/-- A default value rule is read that ends in front of its right-hand side or directly behind it, or has a
rewrite that begins with a match. -/
def ReadsBadMacroRule (prefRoot : Ptree) : Prop :=
  ReadsBad (parseMacroLhsDefaultValueRule none) (fun t => MacroRuleCutShort t ∨ MacroRuleTrips t)
    "default value macro LHS" "default_value_rules" prefRoot

/-- Reading preferences returns or throws its error exactly when it comes neither to a data type rule without a
data type nor, with all data type rules loaded, to a default value rule of at most two fields or with a rewrite
that trips an assertion. -/
theorem readTableMigratorPrefs_returnsOrThrows_iff (prefRoot : Ptree) :
    ReturnsOrThrows (readTableMigratorPrefs none prefRoot) ↔
      ¬ ReadsTypeNameOnly prefRoot ∧
        ((∃ rules, loadDatatypeRulesPrefs none prefRoot = .ok rules) → ¬ ReadsBadMacroRule prefRoot) := by
  have hdatatypes : ReturnsOrThrows (loadDatatypeRulesPrefs none prefRoot) ↔ ¬ ReadsTypeNameOnly prefRoot := by
    refine returnsOrThrows_loadRulesPrefs_iff (fun t prefPath _ => caught_parseTypeNameDatatypeRule_iff t prefPath)
      ?_ _ _ _ _ _
    rintro t ⟨typeName, -, hchildren⟩
    simp [hchildren]
  have hdefaults : ReturnsOrThrows (loadDefaultValueRulesPrefs none prefRoot) ↔ ¬ ReadsBadMacroRule prefRoot := by
    refine returnsOrThrows_loadRulesPrefs_iff
      (fun t prefPath _ => caught_parseMacroLhsDefaultValueRule_iff t prefPath) ?_ _ _ _ _ _
    rintro t (⟨_, -, hchildren | ⟨_, hchildren⟩⟩ | ⟨_, _, _, -, hchildren, -⟩) <;> simp [hchildren]
  rw [← hdatatypes, ← hdefaults]
  unfold readTableMigratorPrefs
  cases loadDatatypeRulesPrefs none prefRoot with
  | error e =>
      constructor
      · rintro (⟨prefs, hprefs⟩ | ⟨what, hthrown⟩)
        · cases hprefs
        · cases hthrown
          refine ⟨.inr ⟨what, rfl⟩, ?_⟩
          rintro ⟨rules, hrules⟩
          cases hrules
      · rintro ⟨⟨rules, hrules⟩ | ⟨what, hthrown⟩, -⟩
        · cases hrules
        · cases hthrown
          exact .inr ⟨what, rfl⟩
  | ok datatypeRules =>
      have hreturns : ReturnsOrThrows (.ok datatypeRules : Except Fault DdlDatatypeRules) := .inl ⟨_, rfl⟩
      rw [and_iff_right hreturns, forall_prop_of_true ⟨_, rfl⟩]
      cases loadDefaultValueRulesPrefs none prefRoot with
      | error e =>
          constructor
          · rintro (⟨prefs, hprefs⟩ | ⟨what, hthrown⟩)
            · cases hprefs
            · cases hthrown
              exact .inr ⟨what, rfl⟩
          · rintro (⟨rules, hrules⟩ | ⟨what, hthrown⟩)
            · cases hrules
            · cases hthrown
              exact .inr ⟨what, rfl⟩
      | ok defaultValueRules => exact iff_of_true (.inl ⟨_, rfl⟩) (.inl ⟨_, rfl⟩)

/-- Preferences with a data type rule and the default value rule that replaces `hello` by `there`. -/
def helloThereTree : Ptree := .object
  [("datatype_rules", .object [("", .object
      [("type_name", .leaf "INT"), ("datatype", .object [("type", .leaf "unsized")])])]),
    ("default_value_rules", .object [("", .object [("macro_lhs", .leaf "hello"), ("macro_rhs", .leaf "there")])])]

/-- Behind `there` the reader looks for arguments past the last field. -/
theorem readTableMigratorPrefs_helloThere :
    readTableMigratorPrefs none helloThereTree = .error .undefined ∧
      ¬ ReturnsOrThrows (readTableMigratorPrefs none helloThereTree) := by
  have hundefined : readTableMigratorPrefs none helloThereTree = .error .undefined := rfl
  refine ⟨hundefined, ?_⟩
  rw [hundefined]
  rintro (⟨prefs, hprefs⟩ | ⟨what, hthrown⟩)
  · cases hprefs
  · cases hthrown

end Middle.MiddleApp
