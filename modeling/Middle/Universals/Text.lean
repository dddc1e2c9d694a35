import Mathlib

/-! Text and the character classes of the C locale, with the few `std::string` and Boost operations
the program applies to it, and `basic_uc_string`, text held in upper case. -/

namespace Middle.Universals

/-- `std::string`. A character stands for the code point of its byte: plain string order compares
bytes as unsigned values and the C locale classifies none above 127, as `Char` does. -/
abbrev Text := List Char

/-- `universals::is_blank`. -/
def isBlank (c : Char) : Bool := c = ' ' || c = '\t'

/-- `universals::to_upper`. -/
def toUpper (s : Text) : Text := s.map Char.toUpper

/-- `boost::trim_if(text, is_blank)`. -/
def trimBlanks (s : Text) : Text := (s.dropWhile isBlank).rdropWhile isBlank

/-- The first position from `pos` on at which `needle` stands, `s` being what is left from `pos`. -/
def findAt (needle : Text) : Nat → Text → Option Nat
  | pos, [] => if needle = [] then some pos else none
  | pos, c :: s => if needle <+: c :: s then some pos else findAt needle (pos + 1) s

/-- `std::string::find(needle, pos)`, with `none` for `npos`. -/
def find (s needle : Text) (pos : Nat) : Option Nat :=
  if pos ≤ s.length then findAt needle pos (s.drop pos) else none

/-- What no blank at an end changes, trimming does not change. -/
theorem trimBlanks_invariant {β : Sort*} {f : Text → β} (hcons : ∀ c s, isBlank c = true → f (c :: s) = f s)
    (hconcat : ∀ s c, isBlank c = true → f (s ++ [c]) = f s) (s : Text) : f (trimBlanks s) = f s := by
  have hleft : f (s.dropWhile isBlank) = f s := by
    induction s with
    | nil => rfl
    | cons c s ih =>
        rw [List.dropWhile_cons]
        split
        · rename_i hc
          rw [ih, hcons c s hc]
        · rfl
  rw [trimBlanks, ← hleft]
  induction s.dropWhile isBlank using List.reverseRecOn with
  | nil => rfl
  | append_singleton s c ih =>
      rw [List.rdropWhile_concat]
      split
      · rename_i hc
        rw [ih, hconcat s c hc]
      · rfl

/-! ### What `find` says -/

theorem findAt_le (needle : Text) (pos : Nat) (s : Text) {found : Nat}
    (h : findAt needle pos s = some found) : pos ≤ found := by
  induction s generalizing pos with
  | nil =>
      rw [findAt] at h
      split at h
      · exact (Option.some.inj h).le
      · cases h
  | cons c s ih =>
      rw [findAt] at h
      split at h
      · exact (Option.some.inj h).le
      · exact (Nat.le_succ pos).trans (ih (pos + 1) h)

theorem findAt_eq_self_iff (needle : Text) (pos : Nat) (s : Text) :
    findAt needle pos s = some pos ↔ needle <+: s := by
  cases s with
  | nil => simp [findAt]
  | cons c s =>
      rw [findAt]
      split
      · simpa
      · rename_i hprefix
        refine iff_of_false (fun h => ?_) hprefix
        exact absurd (findAt_le needle (pos + 1) s h) (Nat.not_succ_le_self pos)

theorem findAt_eq_none_iff (needle : Text) (pos : Nat) (s : Text) :
    findAt needle pos s = none ↔ ¬ needle <:+: s := by
  induction s generalizing pos with
  | nil => simp [findAt]
  | cons c s ih =>
      rw [findAt, List.infix_cons_iff]
      split
      · simp [*]
      · simp [*]

/-- `find` from a position reports that very position exactly when the needle stands there. -/
theorem find_eq_self_iff {s needle : Text} {pos : Nat} (hpos : pos ≤ s.length) :
    find s needle pos = some pos ↔ needle <+: s.drop pos := by
  rw [find, if_pos hpos, findAt_eq_self_iff]

theorem find_zero_eq_zero_iff (s needle : Text) : find s needle 0 = some 0 ↔ needle <+: s :=
  find_eq_self_iff (Nat.zero_le _)

theorem find_zero_eq_none_iff (s needle : Text) : find s needle 0 = none ↔ ¬ needle <:+: s := by
  rw [find, if_pos (Nat.zero_le _), findAt_eq_none_iff, List.drop_zero]

/-! ### Upper case text -/

theorem toUpper_idem (s : Text) : toUpper (toUpper s) = toUpper s := by
  simp only [toUpper, List.map_map, Function.comp_def, Char.toUpper_toUpper_eq_toUpper]

/-- `basic_uc_string`. -/
structure UcString where
  str : Text
  upper : toUpper str = str
  deriving DecidableEq

namespace UcString

/-- The converting constructor. -/
def ofText (s : Text) : UcString := ⟨toUpper s, toUpper_idem s⟩

end UcString

end Middle.Universals
