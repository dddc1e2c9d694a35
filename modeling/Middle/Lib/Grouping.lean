import Mathlib

/-! Texts in lexicographic order, grouped by what stands in front of a separator: when no character is less
than the separator, the groups of a sorted list follow one another. -/

namespace Lib.Grouping

variable {α : Type} [LinearOrder α]

theorem cons_le_cons_iff {c d : α} {s t : List α} : c :: s ≤ d :: t ↔ c < d ∨ c = d ∧ s ≤ t := by
  rw [← not_lt, ← not_lt, List.cons_lt_cons_iff]
  rcases lt_trichotomy c d with h | h | h
  · simp [h, h.not_gt, h.ne']
  · simp [h]
  · simp [h, h.not_gt, h.ne']

theorem nil_le (t : List α) : [] ≤ t := by
  cases t with
  | nil => exact le_rfl
  | cons d t => exact (List.nil_lt_cons d t).le

/-- What stands in front of the separator. -/
def group (sep : α) (s : List α) : List α := s.takeWhile (· ≠ sep)

theorem group_cons_self (sep : α) (s : List α) : group sep (sep :: s) = [] := by simp [group]

theorem group_cons_of_ne {sep c : α} (h : c ≠ sep) (s : List α) : group sep (c :: s) = c :: group sep s := by
  simp [group, h]

/-- The groups stand in the order of the texts. -/
theorem group_le_group {sep : α} {s t : List α} (hs : ∀ c ∈ s, sep ≤ c) (ht : ∀ c ∈ t, sep ≤ c) (h : s ≤ t) :
    group sep s ≤ group sep t := by
  induction s generalizing t with
  | nil => exact nil_le _
  | cons c s ih =>
      cases t with
      | nil => exact absurd (List.nil_lt_cons c s) (not_lt.mpr h)
      | cons d t =>
          rw [List.forall_mem_cons] at hs ht
          by_cases hsep : c = sep
          · rw [hsep, group_cons_self]
            exact nil_le _
          · rw [group_cons_of_ne hsep]
            rcases cons_le_cons_iff.mp h with hlt | ⟨rfl, hle⟩
            · rw [group_cons_of_ne (lt_of_le_of_lt hs.1 hlt).ne']
              exact cons_le_cons_iff.mpr (.inl hlt)
            · rw [group_cons_of_ne hsep]
              exact cons_le_cons_iff.mpr (.inr ⟨rfl, ih hs.2 ht.2 hle⟩)

/-- In a sorted list the group changes to one that has not been there before: what is left over of the groups
when each is kept where it changes is each of them once. -/
theorem destutter_groups {sep : α} {l : List (List α)} (hl : l.Pairwise (· ≤ ·))
    (hsep : ∀ s ∈ l, ∀ c ∈ s, sep ≤ c) :
    (l.map (group sep)).destutter (· ≠ ·) = (l.map (group sep)).dedup := by
  have hsorted : (l.map (group sep)).Pairwise (· ≤ ·) := by
    rw [List.pairwise_map]
    exact hl.imp_of_mem fun hs ht hst => group_le_group (hsep _ hs) (hsep _ ht) hst
  exact hsorted.destutter_eq_dedup

end Lib.Grouping
