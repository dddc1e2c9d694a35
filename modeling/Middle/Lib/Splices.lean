import Mathlib

/-! Lists of which some disjoint parts are replaced and all the others are kept. -/

namespace Lib

/-- A part of a list. -/
inductive Splice (α : Type) where
  | kept (part : List α)
  | replaced (part new : List α)

namespace Splice

variable {α : Type}

def source : Splice α → List α
  | kept part | replaced part _ => part

def target : Splice α → List α
  | kept part => part
  | replaced _ new => new

/-- The list that is made of parts. -/
def sources (splices : List (Splice α)) : List α := splices.flatMap source

/-- What becomes of it. -/
def targets (splices : List (Splice α)) : List α := splices.flatMap target

theorem sources_cons (x : Splice α) (splices : List (Splice α)) :
    sources (x :: splices) = x.source ++ sources splices := List.flatMap_cons

theorem targets_cons (x : Splice α) (splices : List (Splice α)) :
    targets (x :: splices) = x.target ++ targets splices := List.flatMap_cons

theorem sources_append (splices splices' : List (Splice α)) :
    sources (splices ++ splices') = sources splices ++ sources splices' := List.flatMap_append

/-- Without a replaced part the list stays as it is. -/
theorem targets_eq_sources {splices : List (Splice α)} (h : ∀ part new, replaced part new ∉ splices) :
    targets splices = sources splices := by
  induction splices with
  | nil => rfl
  | cons x splices ih =>
      rw [targets_cons, sources_cons, ih fun part new hmem => h part new (List.mem_cons_of_mem x hmem)]
      cases x with
      | kept part => rfl
      | replaced part new => exact absurd List.mem_cons_self (h part new)

end Splice

end Lib
