import Mathlib

/-! Lists cut into lines by a separator, with what stands behind the last one. -/

namespace Lib.Lines

variable {α : Type} (sep : α)

/-- Lines with a separator behind each of them. -/
def unlines (lines : List (List α)) : List α := lines.flatMap (· ++ [sep])

theorem unlines_cons (line : List α) (lines : List (List α)) :
    unlines sep (line :: lines) = line ++ sep :: unlines sep lines := by
  simp [unlines]

theorem unlines_append (lines lines' : List (List α)) :
    unlines sep (lines ++ lines') = unlines sep lines ++ unlines sep lines' := List.flatMap_append

/-- What stands in front of the first separator, and behind it. -/
theorem append_sep_inj {sep : α} {line line' rest rest' : List α} (h : sep ∉ line) (h' : sep ∉ line') :
    line ++ sep :: rest = line' ++ sep :: rest' ↔ line = line' ∧ rest = rest' := by
  constructor
  · intro heq
    obtain ⟨d, hline', hrest⟩ | ⟨d, hline, hrest⟩ := List.append_eq_append_iff.mp heq
    · cases d with
      | nil =>
          rw [List.append_nil] at hline'
          exact ⟨hline'.symm, (List.cons.inj hrest).2⟩
      | cons a d =>
          obtain ⟨rfl, -⟩ := List.cons.inj hrest
          rw [hline'] at h'
          exact absurd (List.mem_append_right _ List.mem_cons_self) h'
    · cases d with
      | nil =>
          rw [List.append_nil] at hline
          exact ⟨hline, (List.cons.inj hrest).2.symm⟩
      | cons a d =>
          obtain ⟨rfl, -⟩ := List.cons.inj hrest
          rw [hline] at h
          exact absurd (List.mem_append_right _ List.mem_cons_self) h
  · rintro ⟨rfl, rfl⟩
    rfl

/-- Lines are told apart by their text. -/
theorem unlines_inj {sep : α} {lines lines' : List (List α)} (h : ∀ line ∈ lines, sep ∉ line)
    (h' : ∀ line ∈ lines', sep ∉ line) : unlines sep lines = unlines sep lines' ↔ lines = lines' := by
  induction lines generalizing lines' with
  | nil =>
      cases lines' with
      | nil => exact iff_of_true rfl rfl
      | cons line' lines' =>
          rw [unlines_cons]
          exact iff_of_false (List.append_ne_nil_of_right_ne_nil _ (List.cons_ne_nil _ _)).symm
            (List.cons_ne_nil _ _).symm
  | cons line lines ih =>
      obtain ⟨hline, hlines⟩ := List.forall_mem_cons.mp h
      rw [unlines_cons]
      cases lines' with
      | nil => exact iff_of_false (List.append_ne_nil_of_right_ne_nil _ (List.cons_ne_nil _ _)) (List.cons_ne_nil _ _)
      | cons line' lines' =>
          obtain ⟨hline', hlines'⟩ := List.forall_mem_cons.mp h'
          rw [unlines_cons, append_sep_inj hline hline', ih hlines hlines', List.cons.injEq]

variable [DecidableEq α]

/-- The line a list starts with. -/
def firstLine (s : List α) : List α := s.takeWhile (· ≠ sep)

/-- What stands behind the last separator. -/
def lastLine (s : List α) : List α := s.rtakeWhile (· ≠ sep)

variable {sep}

theorem notMem_firstLine (s : List α) : sep ∉ firstLine sep s := by
  intro hmem
  have hne := List.mem_takeWhile_imp hmem
  simp at hne

theorem prefix_firstLine (s : List α) : firstLine sep s <+: s := List.takeWhile_prefix _

theorem exists_eq_firstLine {s : List α} (h : sep ∈ s) : ∃ rest, s = firstLine sep s ++ sep :: rest := by
  induction s with
  | nil => cases h
  | cons a s ih =>
      by_cases ha : a = sep
      · exact ⟨s, by simp [firstLine, ha]⟩
      · obtain ⟨rest, hrest⟩ := ih (List.mem_of_ne_of_mem (Ne.symm ha) h)
        refine ⟨rest, ?_⟩
        have hfirst : firstLine sep (a :: s) = a :: firstLine sep s := by simp [firstLine, ha]
        rw [hfirst, List.cons_append, ← hrest]

/-- A list is its complete lines and what stands behind them. -/
theorem exists_eq_unlines (s : List α) :
    ∃ lines, s = unlines sep lines ++ lastLine sep s ∧ (∀ line ∈ lines, sep ∉ line) ∧
      sep ∉ lastLine sep s := by
  induction s using List.reverseRecOn with
  | nil => exact ⟨[], rfl, by simp, by simp [lastLine]⟩
  | append_singleton s a ih =>
      obtain ⟨lines, hs, hlines, hlast⟩ := ih
      by_cases ha : a = sep
      · have hnil : lastLine sep (s ++ [a]) = [] := by simp [lastLine, ha]
        rw [hnil]
        refine ⟨lines ++ [lastLine sep s], ?_, ?_, List.not_mem_nil⟩
        · rw [unlines_append, unlines_cons, List.append_nil, ha]
          nth_rewrite 1 [hs]
          simp [unlines]
        · rw [List.forall_mem_append]
          exact ⟨hlines, List.forall_mem_singleton.mpr hlast⟩
      · have hconcat : lastLine sep (s ++ [a]) = lastLine sep s ++ [a] := by
          simp [lastLine, ha]
        rw [hconcat]
        refine ⟨lines, ?_, hlines, ?_⟩
        · nth_rewrite 1 [hs]
          rw [List.append_assoc]
        · rw [List.mem_append, not_or, List.mem_singleton]
          exact ⟨hlast, Ne.symm ha⟩

theorem count_unlines {lines : List (List α)} (h : ∀ line ∈ lines, sep ∉ line) :
    (unlines sep lines).count sep = lines.length := by
  induction lines with
  | nil => rfl
  | cons line lines ih =>
      obtain ⟨hline, hlines⟩ := List.forall_mem_cons.mp h
      rw [unlines_cons, List.count_append, List.count_cons_self, ih hlines, List.count_eq_zero.mpr hline,
        Nat.zero_add, List.length_cons]

end Lib.Lines
