import Middle.NormalDdl.Names

/-! The parts of a name. A text is normalised by turning it into lower case where it begins with a letter and
has no other characters than those of parts and single dots in front of them, so that the accessors cut a name
at the dots of the text it is made of. A dot at the end is let through, and the first letter is asked for in
front of the whole name only. -/

namespace Middle.NormalDdl

open Universals

/-- `tolower`. -/
def toLower (s : Text) : Text := s.map Char.toLower

def isPartChar (c : Char) : Bool := c.isAlphanum || c = '_'

def IsPart (s : Text) : Prop := s ≠ [] ∧ ∀ c ∈ s, isPartChar c = true

/-- What `normalize_ddl_name` asks of the characters, behind a dot or not. -/
def normalizable : Bool → Text → Bool
  | _, [] => true
  | prevDot, c :: s => (isPartChar c || c = '.' && !prevDot) && normalizable (c = '.') s

/-! ### Lower case -/

theorem ne_dot_of_isPartChar {c : Char} (h : isPartChar c = true) : c ≠ '.' := by
  rintro rfl
  exact absurd h (by decide)

theorem isPartChar_of_isAlpha {c : Char} (h : c.isAlpha = true) : isPartChar c = true := by
  rw [isPartChar, Char.isAlphanum, h]
  rfl

theorem isPartChar_of_isUpper {c : Char} (h : c.isUpper = true) : isPartChar c = true :=
  isPartChar_of_isAlpha (by rw [Char.isAlpha, h, Bool.true_or])

theorem isPartChar_toLower (c : Char) : isPartChar c.toLower = isPartChar c := by
  by_cases hupper : c.isUpper = true
  · have halpha : c.toLower.isAlpha = true := (toLower_of_isUpper hupper).2
    rw [isPartChar_of_isAlpha halpha, isPartChar_of_isUpper hupper]
  · rw [Char.toLower_eq_of_not_isUpper hupper]

theorem toLower_eq_dot_iff {c : Char} : c.toLower = '.' ↔ c = '.' := by
  by_cases hupper : c.isUpper = true
  · have hpart := isPartChar_of_isUpper hupper
    refine iff_of_false (ne_dot_of_isPartChar ?_) (ne_dot_of_isPartChar hpart)
    rw [isPartChar_toLower, hpart]
  · rw [Char.toLower_eq_of_not_isUpper hupper]

theorem toLower_append (s t : Text) : toLower (s ++ t) = toLower s ++ toLower t := List.map_append

theorem dot_mem_toLower_iff {s : Text} : '.' ∈ toLower s ↔ '.' ∈ s := by
  unfold toLower
  rw [List.mem_map]
  constructor
  · rintro ⟨c, hc, hdot⟩
    exact toLower_eq_dot_iff.mp hdot ▸ hc
  · exact fun h => ⟨'.', h, rfl⟩

/-! ### Normalising -/

theorem normalizable_cons (prevDot : Bool) (c : Char) (s : Text) :
    normalizable prevDot (c :: s) =
      ((isPartChar c || decide (c = '.') && !prevDot) && normalizable (decide (c = '.')) s) := rfl

theorem normalizeFrom_eq (prevDot : Bool) (s : Text) :
    normalizeFrom prevDot s = if normalizable prevDot s then some (toLower s) else none := by
  induction s generalizing prevDot with
  | nil => rfl
  | cons c s ih =>
      have hmap : ∀ (b : Bool) (d : Char), (if b = true then some (toLower s) else none).map (d :: ·) =
          if b = true then some (d :: toLower s) else none := by
        intro b d
        cases b <;> rfl
      unfold normalizeFrom
      rw [normalizable_cons, ih, ih]
      split
      · rename_i hupper
        have hpart := isPartChar_of_isUpper hupper
        rw [hpart, decide_eq_false (ne_dot_of_isPartChar hpart), Bool.true_or, Bool.true_and, hmap]
        rfl
      · rename_i hupper
        have hlower : toLower (c :: s) = c :: toLower s := by
          unfold toLower
          rw [List.map_cons, Char.toLower_eq_of_not_isUpper hupper]
        split
        · rename_i hchar
          have hpart : (isPartChar c || decide (c = '.') && !prevDot) = false := by
            unfold isPartChar
            grind
          rw [hpart, Bool.false_and, if_neg Bool.false_ne_true]
        · rename_i hchar
          have hpart : (isPartChar c || decide (c = '.') && !prevDot) = true := by
            unfold isPartChar
            grind
          rw [hpart, Bool.true_and, hmap, hlower]

theorem normalizeDdlName_eq (s : Text) :
    normalizeDdlName s = if s.head?.any Char.isAlpha && normalizable true s then toLower s else [] := by
  unfold normalizeDdlName
  rw [normalizeFrom_eq]
  cases s.head?.any Char.isAlpha with
  | false => rfl
  | true => cases normalizable true s <;> rfl

theorem normalizable_toLower (prevDot : Bool) (s : Text) : normalizable prevDot (toLower s) = normalizable prevDot s := by
  induction s generalizing prevDot with
  | nil => rfl
  | cons c s ih =>
      have hcons : toLower (c :: s) = c.toLower :: toLower s := rfl
      rw [hcons, normalizable_cons, normalizable_cons, isPartChar_toLower, ih, decide_eq_decide.mpr toLower_eq_dot_iff]

/-- Normalising takes no notice of case. -/
theorem normalizeDdlName_toLower (s : Text) : normalizeDdlName (toLower s) = normalizeDdlName s := by
  have hhead : (toLower s).head?.any Char.isAlpha = s.head?.any Char.isAlpha := by
    cases s with
    | nil => rfl
    | cons c s => exact Char.isAlpha_toLower_eq_isAlpha c
  have hidem : toLower (toLower s) = toLower s := by
    unfold toLower
    rw [List.map_map]
    exact List.map_congr_left fun c _ => Char.toLower_toLower_eq_toLower c
  rw [normalizeDdlName_eq, normalizeDdlName_eq, hhead, normalizable_toLower, hidem]

/-! ### Dots -/

section Dots

variable {s t : Text}

theorem normalizable_of_dotless (h : '.' ∉ s) (prevDot : Bool) :
    normalizable prevDot s = true ↔ ∀ c ∈ s, isPartChar c = true := by
  induction s generalizing prevDot with
  | nil => exact iff_of_true rfl (List.forall_mem_nil _)
  | cons c s ih =>
      rw [List.mem_cons, not_or] at h
      rw [normalizable_cons, decide_eq_false (Ne.symm h.1), Bool.false_and, Bool.or_false, Bool.and_eq_true, ih h.2,
        List.forall_mem_cons]

/-- In front of a dot there is a part, unless there is nothing and no dot either. -/
theorem normalizable_append (h : '.' ∉ s) (prevDot : Bool) :
    normalizable prevDot (s ++ '.' :: t) = true ↔
      (∀ c ∈ s, isPartChar c = true) ∧ (s = [] → prevDot = false) ∧ normalizable true t = true := by
  induction s generalizing prevDot with
  | nil =>
      rw [List.nil_append, normalizable_cons]
      simp [isPartChar]
  | cons c s ih =>
      rw [List.mem_cons, not_or] at h
      rw [List.cons_append, normalizable_cons, decide_eq_false (Ne.symm h.1), Bool.false_and, Bool.or_false,
        Bool.and_eq_true, ih h.2, List.forall_mem_cons]
      simp [and_assoc]

theorem findDot_of_dotless (h : '.' ∉ s) : findDot s = none := by
  unfold findDot
  rw [List.findIdx?_eq_none_iff]
  intro c hc
  rw [decide_eq_false]
  rintro rfl
  exact h hc

theorem findDot_append (h : '.' ∉ s) : findDot (s ++ '.' :: t) = some s.length := by
  have hnone : s.findIdx? (· = '.') = none := findDot_of_dotless h
  unfold findDot
  rw [List.findIdx?_append, hnone, List.findIdx?_cons]
  simp

theorem drop_append_dot (s t : Text) : (s ++ '.' :: t).drop (s.length + 1) = t := by
  rw [← List.drop_drop, List.drop_left]
  rfl

theorem rfindDot_append (h : '.' ∉ t) : rfindDot (s ++ '.' :: t) = some s.length := by
  unfold rfindDot
  rw [List.reverse_append, List.reverse_cons, List.append_assoc, List.singleton_append,
    findDot_append (by rwa [List.mem_reverse])]
  simp

theorem exists_first_dot (h : '.' ∈ s) : ∃ a b, s = a ++ '.' :: b ∧ '.' ∉ a := List.eq_append_cons_of_mem h

end Dots

/-! ### Tables -/

theorem normalizeDdlName_ne_nil {s : Text} (h : normalizeDdlName s ≠ []) :
    s.head?.any Char.isAlpha = true ∧ normalizable true s = true ∧ normalizeDdlName s = toLower s := by
  rw [normalizeDdlName_eq] at h ⊢
  split at h
  · rename_i hand
    rw [if_pos hand]
    rw [Bool.and_eq_true] at hand
    exact ⟨hand.1, hand.2, rfl⟩
  · exact absurd rfl h

section Stname

variable {s t : Text}

/-- The name of a table, from a schema without dots. -/
theorem DdlStname.name_make (hs : '.' ∉ s) (h : (DdlStname.make s t).name ≠ []) :
    (DdlStname.make s t).name = toLower s ++ '.' :: toLower t ∧ IsPart s ∧ normalizable true t = true := by
  obtain ⟨-, hnormalizable, hname⟩ := normalizeDdlName_ne_nil h
  obtain ⟨hchars, hne, ht⟩ := (normalizable_append hs true).mp hnormalizable
  refine ⟨hname.trans (toLower_append _ _), ⟨fun hnil => ?_, hchars⟩, ht⟩
  exact Bool.false_ne_true (hne hnil).symm

theorem DdlStname.accessors_of_name {stname : DdlStname} (hs : '.' ∉ s)
    (h : stname.name = toLower s ++ '.' :: toLower t) :
    stname.schemaName = toLower s ∧ stname.tableName = toLower t := by
  have hdot : findDot stname.name = some (toLower s).length := by
    rw [h]
    exact findDot_append (dot_mem_toLower_iff.not.mpr hs)
  unfold schemaName tableName substr
  rw [hdot, h]
  exact ⟨List.take_left, drop_append_dot _ _⟩

end Stname

section Stcname

variable {s t c : Text}

theorem DdlStcname.name_make (hs : '.' ∉ s) (ht : '.' ∉ t) (h : (DdlStcname.make s t c).name ≠ []) :
    (DdlStcname.make s t c).name = toLower s ++ '.' :: toLower t ++ '.' :: toLower c ∧ IsPart s ∧ IsPart t ∧
      normalizable true c = true := by
  obtain ⟨-, hnormalizable, hname⟩ := normalizeDdlName_ne_nil h
  rw [List.append_assoc, List.cons_append, normalizable_append hs, normalizable_append ht] at hnormalizable
  obtain ⟨hschars, hsne, htchars, htne, hc⟩ := hnormalizable
  refine ⟨hname.trans ?_, ⟨fun hnil => ?_, hschars⟩, ⟨fun hnil => ?_, htchars⟩, hc⟩
  · rw [toLower_append, toLower_append]
    rfl
  · exact Bool.false_ne_true (hsne hnil).symm
  · exact Bool.false_ne_true (htne hnil).symm

theorem DdlStcname.accessors_of_name {stcname : DdlStcname} (hs : '.' ∉ s) (hc : '.' ∉ c)
    (h : stcname.name = toLower s ++ '.' :: toLower t ++ '.' :: toLower c) :
    stcname.schemaName = toLower s ∧ stcname.tableName = toLower t ∧ stcname.columnName = toLower c := by
  have hassoc : toLower s ++ '.' :: toLower t ++ '.' :: toLower c =
      toLower s ++ '.' :: (toLower t ++ '.' :: toLower c) := by rw [List.append_assoc, List.cons_append]
  have hdot : findDot stcname.name = some (toLower s).length := by
    rw [h, hassoc]
    exact findDot_append (dot_mem_toLower_iff.not.mpr hs)
  have hrdot : rfindDot stcname.name = some (toLower s ++ '.' :: toLower t).length := by
    rw [h]
    exact rfindDot_append (dot_mem_toLower_iff.not.mpr hc)
  have hlength : (toLower s ++ '.' :: toLower t).length = (toLower s).length + 1 + (toLower t).length := by
    rw [List.length_append, List.length_cons]
    omega
  refine ⟨?_, ?_, ?_⟩
  · unfold schemaName substr
    rw [hdot, h, hassoc]
    exact List.take_left
  · have hcount : (toLower s).length + 1 + (toLower t).length - (toLower s).length - 1 = (toLower t).length := by omega
    unfold tableName substr
    rw [hdot, hrdot, hlength]
    dsimp only
    rw [if_neg (by omega), hcount]
    dsimp only
    rw [h, hassoc, drop_append_dot]
    exact List.take_left
  · unfold columnName substr
    rw [hrdot, h]
    exact drop_append_dot _ _

end Stcname

end Middle.NormalDdl
