import Mathlib

/-! Two runs side by side. They throw the same exception, or they end with related results. Where a result is a list,
the other one may have entries less, and entries in the place of others. -/

namespace Lib

/-! ### Outcomes -/

section Outcomes

variable {φ α β γ δ ι : Type}

/-- The same exception, or results that are related. -/
inductive SideBySide (R : α → β → Prop) : Except φ α → Except φ β → Prop
  | error (e : φ) : SideBySide R (.error e) (.error e)
  | ok {a : α} {b : β} (h : R a b) : SideBySide R (.ok a) (.ok b)

namespace SideBySide

variable {R : α → β → Prop} {S : γ → δ → Prop} {x : Except φ α} {y : Except φ β}

theorem bind {f : α → Except φ γ} {g : β → Except φ δ} (h : SideBySide R x y)
    (hfg : ∀ a b, R a b → SideBySide S (f a) (g b)) : SideBySide S (x >>= f) (y >>= g) := by
  cases h with
  | error e => exact .error e
  | ok hab => exact hfg _ _ hab

theorem map {f : α → γ} {g : β → δ} (h : SideBySide R x y) (hfg : ∀ a b, R a b → S (f a) (g b)) :
    SideBySide S (x.map f) (y.map g) := by
  cases h with
  | error e => exact .error e
  | ok hab => exact .ok (hfg _ _ hab)

/-- Loops whose turns run side by side. -/
theorem foldlM {f : α → ι → Except φ α} {g : β → ι → Except φ β}
    (hturn : ∀ a b i, R a b → SideBySide R (f a i) (g b i)) {a : α} {b : β} (h : R a b) (l : List ι) :
    SideBySide R (l.foldlM f a) (l.foldlM g b) := by
  induction l generalizing a b with
  | nil => exact .ok h
  | cons i l ih =>
      rw [List.foldlM_cons, List.foldlM_cons]
      exact (hturn a b i h).bind fun a' b' h' => ih h'

theorem exists_ok_iff (h : SideBySide R x y) : (∃ b, y = .ok b) ↔ ∃ a, x = .ok a := by
  cases h with
  | error e => simp
  | ok hab => simp

end SideBySide

end Outcomes

/-! ### Lists with entries less -/

section Thinned

variable {α β ι : Type} {dropped : α → Prop} {replaced : α → α → Prop}

/-- From the first list to the second one entries are dropped and replaced. -/
inductive Thinned (dropped : α → Prop) (replaced : α → α → Prop) : List α → List α → Prop
  | nil : Thinned dropped replaced [] []
  | cons {a b : α} {l l' : List α} (h : replaced a b) (hl : Thinned dropped replaced l l') :
      Thinned dropped replaced (a :: l) (b :: l')
  | drop {a : α} {l l' : List α} (h : dropped a) (hl : Thinned dropped replaced l l') :
      Thinned dropped replaced (a :: l) l'

namespace Thinned

theorem refl (h : ∀ a, replaced a a) (l : List α) : Thinned dropped replaced l l := by
  induction l with
  | nil => exact .nil
  | cons a l ih => exact .cons (h a) ih

theorem append {l₁ l₁' l₂ l₂' : List α} (h₁ : Thinned dropped replaced l₁ l₁')
    (h₂ : Thinned dropped replaced l₂ l₂') : Thinned dropped replaced (l₁ ++ l₂) (l₁' ++ l₂') := by
  induction h₁ with
  | nil => exact h₂
  | cons h _ ih => exact .cons h ih
  | drop h _ ih => exact .drop h ih

/-- Entries made from the elements of a list, and others made from those of a sublist. -/
theorem map_of_sublist {l l' : List ι} (hsub : l'.Sublist l) {f g : ι → α} (hdropped : ∀ i, dropped (f i))
    (hreplaced : ∀ i, replaced (f i) (g i)) : Thinned dropped replaced (l.map f) (l'.map g) := by
  induction hsub with
  | slnil => exact .nil
  | cons i _ ih => exact .drop (hdropped i) ih
  | cons_cons i _ ih => exact .cons (hreplaced i) ih

/-- What is read of neither dropped nor replaced entries is the same. -/
theorem filterMap_eq {f : α → Option β} {l l' : List α} (h : Thinned dropped replaced l l')
    (hdropped : ∀ a, dropped a → f a = none) (hreplaced : ∀ a b, replaced a b → f a = f b) :
    l'.filterMap f = l.filterMap f := by
  induction h with
  | nil => rfl
  | cons hab _ ih => rw [List.filterMap_cons, List.filterMap_cons, ← hreplaced _ _ hab, ih]
  | drop ha _ ih => rw [List.filterMap_cons, hdropped _ ha, ih]

end Thinned

end Thinned

end Lib
