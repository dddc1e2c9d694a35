import Mathlib

/-! Finite maps as lists of entries with pairwise distinct keys: `std::unordered_map` with one fixed,
arbitrary order of iteration. -/

namespace Lib

/-- A finite map; `entries` stand in the order an iteration visits them. -/
structure UnorderedMap (κ ν : Type) where
  entries : List (κ × ν)
  nodup : (entries.map Prod.fst).Nodup

namespace UnorderedMap

variable {κ ν μ : Type}

def keys (m : UnorderedMap κ ν) : List κ := m.entries.map Prod.fst

/-- Every value replaced through the references an iteration hands out. -/
def mapValues (f : κ → ν → μ) (m : UnorderedMap κ ν) : UnorderedMap κ μ where
  entries := m.entries.map fun e => (e.1, f e.1 e.2)
  nodup := by simpa [List.map_map, Function.comp_def] using m.nodup

instance : EmptyCollection (UnorderedMap κ ν) := ⟨⟨[], List.nodup_nil⟩⟩

@[ext] theorem ext {m m' : UnorderedMap κ ν} (h : m.entries = m'.entries) : m = m' := by
  cases m
  cases m'
  simpa using h

theorem mapValues_congr {f g : κ → ν → μ} {m : UnorderedMap κ ν}
    (h : ∀ e ∈ m.entries, f e.1 e.2 = g e.1 e.2) : m.mapValues f = m.mapValues g := by
  ext1
  apply List.map_congr_left
  intro e he
  rw [h e he]

theorem mapValues_inj_iff {f g : κ → ν → μ} {m : UnorderedMap κ ν} :
    m.mapValues f = m.mapValues g ↔ ∀ e ∈ m.entries, f e.1 e.2 = g e.1 e.2 := by
  constructor
  · intro h e he
    have hentries := congrArg entries h
    exact congrArg Prod.snd (List.map_inj_left.mp hentries e he)
  · exact mapValues_congr

theorem mapValues_eq_self {f : κ → ν → ν} {m : UnorderedMap κ ν}
    (h : ∀ e ∈ m.entries, f e.1 e.2 = e.2) : m.mapValues f = m := by
  ext1
  calc
    m.entries.map (fun e => (e.1, f e.1 e.2)) = m.entries.map id := by
      apply List.map_congr_left
      intro e he
      rw [h e he]
      rfl
    _ = m.entries := List.map_id _

theorem mapValues_mapValues {ξ : Type} (g : κ → μ → ξ) (f : κ → ν → μ) (m : UnorderedMap κ ν) :
    (m.mapValues f).mapValues g = m.mapValues fun k v => g k (f k v) := by
  ext1
  simp [mapValues, Function.comp_def]

variable [DecidableEq κ]

/-- `find`, with `none` for `end()`. -/
def find (m : UnorderedMap κ ν) (k : κ) : Option ν := m.entries.lookup k

theorem lookup_cons_eq (k : κ) (e : κ × ν) (es : List (κ × ν)) :
    (e :: es).lookup k = if k = e.1 then some e.2 else es.lookup k := by
  rw [List.lookup_cons]
  split <;> simp_all

theorem find_eq_none_iff {m : UnorderedMap κ ν} {k : κ} : m.find k = none ↔ k ∉ m.keys := by
  simp only [find, List.lookup_eq_none_iff, keys, List.mem_map, not_exists, not_and, bne_iff_ne]
  exact ⟨fun h e he heq => h e he heq.symm, fun h e he heq => h e he heq.symm⟩

@[simp] theorem find_empty (k : κ) : (∅ : UnorderedMap κ ν).find k = none := rfl

/-- Distinct keys make the first entry under a key the only one. -/
theorem find_eq_some_iff {m : UnorderedMap κ ν} {k : κ} {v : ν} :
    m.find k = some v ↔ (k, v) ∈ m.entries := by
  obtain ⟨entries, nodup⟩ := m
  simp only [find]
  induction entries with
  | nil => simp
  | cons e entries ih =>
      obtain ⟨k', v'⟩ := e
      obtain ⟨hk', nodup⟩ := List.nodup_cons.mp nodup
      by_cases hk : k = k'
      · subst hk
        have habsent : (k, v) ∉ entries := fun h => hk' (List.mem_map.mpr ⟨(k, v), h, rfl⟩)
        simp [lookup_cons_eq, habsent, eq_comm]
      · simp [lookup_cons_eq, hk, ih nodup]

/-- `insert`: an entry under the key is kept, and the second component says whether it was new. -/
def insert (m : UnorderedMap κ ν) (k : κ) (v : ν) : UnorderedMap κ ν × Bool :=
  if h : k ∈ m.keys then (m, false)
  else
    (⟨m.entries ++ [(k, v)], by
      rw [List.map_append, List.nodup_append]
      refine ⟨m.nodup, by simp, ?_⟩
      rintro a ha b hb rfl
      obtain rfl : a = k := by simpa using hb
      exact h ha⟩, true)

theorem insert_of_mem {m : UnorderedMap κ ν} {k : κ} (h : k ∈ m.keys) (v : ν) :
    m.insert k v = (m, false) := dif_pos h

theorem insert_snd (m : UnorderedMap κ ν) (k : κ) (v : ν) : (m.insert k v).2 = true ↔ k ∉ m.keys := by
  rw [insert]
  split <;> simp_all

theorem insert_entries_of_notMem {m : UnorderedMap κ ν} {k : κ} (h : k ∉ m.keys) (v : ν) :
    (m.insert k v).1.entries = m.entries ++ [(k, v)] := by
  rw [insert, dif_neg h]

theorem find_insert (m : UnorderedMap κ ν) (k k' : κ) (v : ν) :
    (m.insert k v).1.find k' = (m.find k').or (if k' = k then some v else none) := by
  by_cases hk : k ∈ m.keys
  · rw [insert_of_mem hk]
    cases hfind : m.find k' with
    | some w => rfl
    | none =>
        have hne : k' ≠ k := by
          rintro rfl
          exact find_eq_none_iff.mp hfind hk
        simp [hne]
  · rw [find, insert_entries_of_notMem hk, List.lookup_append, lookup_cons_eq]
    rfl

/-- The value under a key replaced through the reference `find` returns. -/
def modify (k : κ) (f : ν → ν) (m : UnorderedMap κ ν) : UnorderedMap κ ν :=
  m.mapValues fun k' v => if k' = k then f v else v

theorem find_mapValues (f : κ → ν → μ) (m : UnorderedMap κ ν) (k : κ) :
    (m.mapValues f).find k = (m.find k).map (f k) := by
  obtain ⟨entries, nodup⟩ := m
  simp only [find, mapValues]
  clear nodup
  induction entries with
  | nil => rfl
  | cons e entries ih =>
      rw [List.map_cons, lookup_cons_eq, lookup_cons_eq, ih]
      split
      · rename_i hk
        rw [hk]
        rfl
      · rfl

end UnorderedMap

end Lib
