import Mathlib

/-! The nesting of brackets in a list some segments of which are masked, as the quoted ones of a text: what stands in such
a segment opens and closes nothing. -/

namespace Lib

/-- A pair of brackets and the segments that mask them. Where a masked segment starts it is known by its first element,
and how far it goes by what stands there. -/
structure Brackets (α : Type) where
  opening : α
  closing : α
  mask : α → Prop
  Masked : List α → Prop
  opening_ne_closing : opening ≠ closing
  not_mask_opening : ¬ mask opening
  not_mask_closing : ¬ mask closing
  first {q : List α} (hq : Masked q) : ∃ a w, q = a :: w ∧ mask a
  last {q : List α} (hq : Masked q) : ∃ a w, q = w ++ [a] ∧ mask a
  unique {q q' s s' : List α} (hq : Masked q) (hq' : Masked q') (h : q ++ s = q' ++ s') : q = q'

namespace Brackets

variable {α : Type} (B : Brackets α)

/-- An element that is copied as it is: neither a bracket nor the start of a masked segment. -/
structure Plain (a : α) : Prop where
  ne_opening : a ≠ B.opening
  ne_closing : a ≠ B.closing
  not_mask : ¬ B.mask a

/-- `Nests d s e`: begun inside `d` brackets, the list ends inside `e`, and closes none that is not open. -/
inductive Nests : Nat → List α → Nat → Prop
  | nil {d : Nat} : Nests d [] d
  | masked {d e : Nat} {q s : List α} (hq : B.Masked q) (h : Nests d s e) : Nests d (q ++ s) e
  | opening {d e : Nat} {s : List α} (h : Nests (d + 1) s e) : Nests d (B.opening :: s) e
  | closing {d e : Nat} {s : List α} (h : Nests d s e) : Nests (d + 1) (B.closing :: s) e
  | plain {d e : Nat} {a : α} {s : List α} (ha : B.Plain a) (h : Nests d s e) : Nests d (a :: s) e

def Balanced (s : List α) : Prop := B.Nests 0 s 0

variable {B} {d e f : Nat} {a : α} {s t : List α}

theorem Nests.append (hs : B.Nests d s e) (ht : B.Nests e t f) : B.Nests d (s ++ t) f := by
  induction hs with
  | nil => exact ht
  | masked hq h ih =>
      rw [List.append_assoc]
      exact .masked hq (ih ht)
  | opening h ih => exact .opening (ih ht)
  | closing h ih => exact .closing (ih ht)
  | plain ha h ih => exact .plain ha (ih ht)

/-- The same list inside `k` more brackets. -/
theorem Nests.add (h : B.Nests d s e) (k : Nat) : B.Nests (d + k) s (e + k) := by
  induction h with
  | nil => exact .nil
  | masked hq h ih => exact .masked hq ih
  | opening h ih =>
      refine .opening ?_
      rw [Nat.add_right_comm]
      exact ih
  | closing h ih =>
      rw [Nat.add_right_comm]
      exact .closing ih
  | plain ha h ih => exact .plain ha ih

theorem Balanced.nests (h : B.Balanced s) (d : Nat) : B.Nests d s d := by
  have hadd := h.add d
  rw [Nat.zero_add] at hadd
  exact hadd

theorem nests_of_masked {q : List α} (hq : B.Masked q) (d : Nat) : B.Nests d q d := by
  rw [← List.append_nil q]
  exact .masked hq .nil

/-! ### What a list starts with -/

theorem nests_nil_iff : B.Nests d [] e ↔ d = e := by
  constructor
  · intro h
    generalize hs : ([] : List α) = s at h
    cases h with
    | nil => rfl
    | masked hq h =>
        obtain ⟨a, w, rfl, -⟩ := B.first hq
        cases hs
    | opening h | closing h | plain ha h => cases hs
  · rintro rfl
    exact .nil

theorem nests_masked_iff {q : List α} (hq : B.Masked q) : B.Nests d (q ++ s) e ↔ B.Nests d s e := by
  refine ⟨fun h => ?_, .masked hq⟩
  obtain ⟨a, w, hw, ha⟩ := B.first hq
  generalize ht : q ++ s = t at h
  cases h with
  | nil =>
      rw [hw] at ht
      cases ht
  | masked hq' h =>
      obtain rfl := B.unique hq hq' ht
      rw [List.append_cancel_left ht]
      exact h
  | opening h =>
      rw [hw] at ht
      obtain rfl := (List.cons.inj ht).1
      exact absurd ha B.not_mask_opening
  | closing h =>
      rw [hw] at ht
      obtain rfl := (List.cons.inj ht).1
      exact absurd ha B.not_mask_closing
  | plain hplain h =>
      rw [hw] at ht
      obtain rfl := (List.cons.inj ht).1
      exact absurd ha hplain.not_mask

/-- A list that does not start with a masked segment. -/
theorem nests_cons_iff (ha : ¬ B.mask a) :
    B.Nests d (a :: s) e ↔ a = B.opening ∧ B.Nests (d + 1) s e ∨
      a = B.closing ∧ (∃ d', d = d' + 1 ∧ B.Nests d' s e) ∨ B.Plain a ∧ B.Nests d s e := by
  constructor
  · intro h
    generalize ht : a :: s = t at h
    cases h with
    | nil => cases ht
    | masked hq h =>
        obtain ⟨a', w, rfl, ha'⟩ := B.first hq
        obtain rfl := (List.cons.inj ht).1
        exact absurd ha' ha
    | opening h =>
        obtain ⟨rfl, rfl⟩ := List.cons.inj ht
        exact .inl ⟨rfl, h⟩
    | closing h =>
        obtain ⟨rfl, rfl⟩ := List.cons.inj ht
        exact .inr (.inl ⟨rfl, _, rfl, h⟩)
    | plain hplain h =>
        obtain ⟨rfl, rfl⟩ := List.cons.inj ht
        exact .inr (.inr ⟨hplain, h⟩)
  · rintro (⟨rfl, h⟩ | ⟨rfl, d', rfl, h⟩ | ⟨hplain, h⟩)
    · exact .opening h
    · exact .closing h
    · exact .plain hplain h

theorem nests_opening_iff : B.Nests d (B.opening :: s) e ↔ B.Nests (d + 1) s e := by
  rw [nests_cons_iff B.not_mask_opening]
  constructor
  · rintro (⟨-, h⟩ | ⟨heq, -⟩ | ⟨hplain, -⟩)
    · exact h
    · exact absurd heq B.opening_ne_closing
    · exact absurd rfl hplain.ne_opening
  · exact fun h => .inl ⟨rfl, h⟩

theorem nests_closing_iff : B.Nests d (B.closing :: s) e ↔ ∃ d', d = d' + 1 ∧ B.Nests d' s e := by
  rw [nests_cons_iff B.not_mask_closing]
  constructor
  · rintro (⟨heq, -⟩ | ⟨-, h⟩ | ⟨hplain, -⟩)
    · exact absurd heq.symm B.opening_ne_closing
    · exact h
    · exact absurd rfl hplain.ne_closing
  · exact fun h => .inr (.inl ⟨rfl, h⟩)

theorem nests_plain_iff (ha : B.Plain a) : B.Nests d (a :: s) e ↔ B.Nests d s e := by
  rw [nests_cons_iff ha.not_mask]
  constructor
  · rintro (⟨rfl, -⟩ | ⟨rfl, -⟩ | ⟨-, h⟩)
    · exact absurd rfl ha.ne_opening
    · exact absurd rfl ha.ne_closing
    · exact h
  · exact fun h => .inr (.inr ⟨ha, h⟩)

/-- A list goes on behind a nesting as from there. -/
theorem nests_append_iff (hs : B.Nests d s e) : B.Nests d (s ++ t) f ↔ B.Nests e t f := by
  refine ⟨fun h => ?_, hs.append⟩
  induction hs with
  | nil => exact h
  | masked hq _ ih =>
      rw [List.append_assoc] at h
      exact ih ((nests_masked_iff hq).mp h)
  | opening _ ih => exact ih (nests_opening_iff.mp h)
  | closing _ ih =>
      obtain ⟨d', heq, h⟩ := nests_closing_iff.mp h
      obtain rfl := Nat.succ.inj heq
      exact ih h
  | plain ha _ ih => exact ih ((nests_plain_iff ha).mp h)

/-- How deep a list ends is settled by how deep it begins. -/
theorem Nests.unique (h : B.Nests d s e) (h' : B.Nests d s f) : e = f := by
  rw [← List.append_nil s, nests_append_iff h] at h'
  exact nests_nil_iff.mp h'

/-! ### What a list ends with -/

/-- A last element that ends no masked segment stands by itself. -/
theorem Nests.of_concat (ha : ¬ B.mask a) (h : B.Nests d (s ++ [a]) e) :
    ∃ f, B.Nests d s f ∧ B.Nests f [a] e := by
  generalize ht : s ++ [a] = t at h
  induction h generalizing s with
  | nil => exact absurd (List.append_eq_nil_iff.mp ht).2 (List.cons_ne_nil a [])
  | @masked d e q s' hq h ih =>
      obtain ⟨a', w, rfl, ha'⟩ := B.last hq
      obtain rfl | ⟨w', b, rfl⟩ := s'.eq_nil_or_concat
      · rw [List.append_nil] at ht
        obtain rfl : a = a' := (List.cons.inj (List.append_inj_right' ht rfl)).1
        exact absurd ha' ha
      · rw [List.concat_eq_append, ← List.append_assoc] at ht
        obtain ⟨rfl, hb⟩ := List.append_inj' ht rfl
        obtain ⟨f, hs, hlast⟩ := ih (by rw [hb, List.concat_eq_append])
        exact ⟨f, .masked hq hs, hlast⟩
  | opening h ih =>
      obtain ⟨rfl, hb⟩ | ⟨w, rfl, rfl⟩ := List.append_eq_cons_iff.mp ht
      · cases hb
        exact ⟨_, .nil, .opening h⟩
      · obtain ⟨f, hs, hlast⟩ := ih rfl
        exact ⟨f, .opening hs, hlast⟩
  | closing h ih =>
      obtain ⟨rfl, hb⟩ | ⟨w, rfl, rfl⟩ := List.append_eq_cons_iff.mp ht
      · cases hb
        exact ⟨_, .nil, .closing h⟩
      · obtain ⟨f, hs, hlast⟩ := ih rfl
        exact ⟨f, .closing hs, hlast⟩
  | plain hplain h ih =>
      obtain ⟨rfl, hb⟩ | ⟨w, rfl, rfl⟩ := List.append_eq_cons_iff.mp ht
      · cases hb
        exact ⟨_, .nil, .plain hplain h⟩
      · obtain ⟨f, hs, hlast⟩ := ih rfl
        exact ⟨f, .plain hplain hs, hlast⟩

theorem nests_concat_closing_iff : B.Nests d (s ++ [B.closing]) e ↔ B.Nests d s (e + 1) := by
  constructor
  · intro h
    obtain ⟨f, hs, hlast⟩ := h.of_concat B.not_mask_closing
    obtain ⟨f', rfl, hnil⟩ := nests_closing_iff.mp hlast
    rw [← nests_nil_iff.mp hnil]
    exact hs
  · exact fun h => h.append (.closing .nil)

theorem nests_concat_plain_iff (ha : B.Plain a) : B.Nests d (s ++ [a]) e ↔ B.Nests d s e := by
  constructor
  · intro h
    obtain ⟨f, hs, hlast⟩ := h.of_concat ha.not_mask
    rw [← nests_nil_iff.mp ((nests_plain_iff ha).mp hlast)]
    exact hs
  · exact fun h => h.append (.plain ha .nil)

theorem nests_append_closings_iff (k : Nat) :
    B.Nests d (s ++ List.replicate k B.closing) e ↔ B.Nests d s (e + k) := by
  induction k generalizing e with
  | zero => rw [List.replicate_zero, List.append_nil, Nat.add_zero]
  | succ k ih =>
      rw [List.replicate_succ', ← List.append_assoc, nests_concat_closing_iff, ih, Nat.add_assoc, Nat.add_comm 1]

/-! ### Enclosing pairs -/

variable (B) in
/-- A list inside `k` pairs of brackets. -/
def enclose : Nat → List α → List α
  | 0, s => s
  | k + 1, s => B.opening :: (enclose k s ++ [B.closing])

theorem enclose_eq_append (k : Nat) (s : List α) :
    B.enclose k s = List.replicate k B.opening ++ (s ++ List.replicate k B.closing) := by
  induction k with
  | zero => rw [enclose, List.replicate_zero, List.replicate_zero, List.append_nil, List.nil_append]
  | succ k ih =>
      rw [enclose, ih, List.replicate_succ, List.replicate_succ']
      simp only [List.cons_append, List.append_assoc]

theorem enclose_add (j k : Nat) (s : List α) : B.enclose (j + k) s = B.enclose j (B.enclose k s) := by
  induction j with
  | zero => rw [Nat.zero_add, enclose]
  | succ j ih => rw [Nat.succ_add, enclose, enclose, ih]

theorem length_enclose (k : Nat) (s : List α) : (B.enclose k s).length = s.length + 2 * k := by
  induction k with
  | zero => rfl
  | succ k ih =>
      rw [enclose, List.length_cons, List.length_append, ih]
      simp only [List.length_cons, List.length_nil]
      omega

theorem enclose_injective (k : Nat) : Function.Injective (B.enclose k) := by
  intro s t h
  rw [enclose_eq_append, enclose_eq_append] at h
  exact List.append_cancel_right (List.append_cancel_left h)

theorem enclose_eq_nil (k : Nat) (h : B.enclose k s = []) : s = [] := by
  have hlen := length_enclose (B := B) k s
  rw [h, List.length_nil] at hlen
  exact List.length_eq_zero_iff.mp (by omega)

theorem nests_enclose_iff (k : Nat) : B.Nests d (B.enclose k s) e ↔ B.Nests (d + k) s (e + k) := by
  induction k generalizing d e with
  | zero => rfl
  | succ k ih =>
      rw [enclose, nests_opening_iff, nests_concat_closing_iff, ih, Nat.add_assoc, Nat.add_assoc, Nat.add_comm 1]

variable (B) in
/-- Enclosing pairs of brackets that belong together, taken off a list. -/
inductive Peels : List α → List α → Prop
  | refl {s : List α} : Peels s s
  | pair {s t : List α} (hs : B.Balanced s) (h : Peels s t) : Peels (B.opening :: (s ++ [B.closing])) t

theorem Balanced.enclose (h : B.Balanced s) (k : Nat) : B.Balanced (B.enclose k s) := (nests_enclose_iff k).mpr (h.add k)

/-- What pairs are taken off belong together if what they enclose is balanced. -/
theorem peels_enclose (ht : B.Balanced t) (k : Nat) : B.Peels (B.enclose k t) t := by
  induction k with
  | zero => exact .refl
  | succ k ih => exact .pair (ht.enclose k) ih

theorem Peels.balanced (h : B.Peels s t) (hs : B.Balanced s) : B.Balanced t := by
  induction h with
  | refl => exact hs
  | pair hpair h ih => exact ih hpair

end Brackets

end Lib
