import Middle.Lib.UnorderedMap

/-! Maps joined: under a key of both maps stands what an operation makes of the two values. Maps have the same
contents when the same is found in them. -/

namespace Lib.UnorderedMap

variable {κ ν : Type} [DecidableEq κ]

/-- Maps with the same contents have the same entries in some other order. -/
theorem perm_entries_iff {m m' : UnorderedMap κ ν} : m.entries.Perm m'.entries ↔ ∀ k, m.find k = m'.find k := by
  rw [List.perm_ext_iff_of_nodup m.nodup.of_map m'.nodup.of_map]
  constructor
  · intro h k
    apply Option.ext
    intro v
    rw [find_eq_some_iff, find_eq_some_iff, h]
  · intro h e
    have hfind : m.find e.1 = some e.2 ↔ m'.find e.1 = some e.2 := by rw [h]
    rwa [find_eq_some_iff, find_eq_some_iff] at hfind

theorem find_modify (m : UnorderedMap κ ν) (k : κ) (f : ν → ν) (k' : κ) :
    (m.modify k f).find k' = if k' = k then (m.find k').map f else m.find k' := by
  rw [modify, find_mapValues]
  by_cases hk : k' = k
  · simp [hk]
  · simp [hk]

theorem modify_modify (m : UnorderedMap κ ν) (k : κ) (f g : ν → ν) :
    (m.modify k f).modify k g = m.modify k fun v => g (f v) := by
  unfold modify
  rw [mapValues_mapValues]
  apply mapValues_congr
  intro e _
  by_cases hk : e.1 = k
  · simp [hk]
  · simp [hk]

/-- A loop over the entries of a map each of which joins its value with what is under its key. -/
theorem find_foldl_join {f : ν → ν → ν} {step : UnorderedMap κ ν → κ × ν → UnorderedMap κ ν}
    (hstep : ∀ m e k, (step m e).find k =
      if k = e.1 then Option.merge f (m.find k) (some e.2) else m.find k)
    (m that : UnorderedMap κ ν) (k : κ) :
    (that.entries.foldl step m).find k = Option.merge f (m.find k) (that.find k) := by
  obtain ⟨entries, nodup⟩ := that
  simp only [find] at hstep ⊢
  induction entries generalizing m with
  | nil => exact Option.merge_none_right.symm
  | cons e entries ih =>
      rw [List.map_cons, List.nodup_cons] at nodup
      rw [List.foldl_cons, ih (step m e) nodup.2, hstep, lookup_cons_eq]
      by_cases hk : k = e.1
      · have hnone : entries.lookup k = none := by
          rw [List.lookup_eq_none_iff]
          intro e' he'
          rw [bne_iff_ne, hk]
          exact fun h => nodup.1 (h ▸ List.mem_map_of_mem he')
        rw [if_pos hk, if_pos hk, hnone, Option.merge_none_right]
      · rw [if_neg hk, if_neg hk]

end Lib.UnorderedMap
