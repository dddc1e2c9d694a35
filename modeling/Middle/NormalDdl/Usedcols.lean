import Middle.Lib.MapJoin
import Middle.NormalDdl.Names
import Middle.Universals.TextProcessor

/-! The names of tables with their used columns (`ddl_stname_usedcols`): what the operations that fill it leave in
it. Merging is the join of the contents, so the order in which it is done does not matter. -/

namespace Middle.NormalDdl

open Lib Universals

namespace DdlStnameUsedcols

/-- `insert_name`. -/
def insertName (m : DdlStnameUsedcols) (stname : DdlStname) : DdlStnameUsedcols :=
  if (m.find stname).isNone then (m.insert stname ∅).1 else m

/-- `insert_name_usedcol`, which asserts that the table is there. -/
def insertNameUsedcol (m : DdlStnameUsedcols) (stname : DdlStname) (usedcolCname : DdlCname) :
    Except Fault DdlStnameUsedcols :=
  if (m.find stname).isNone then .error .assertion else .ok (m.modify stname (Insert.insert usedcolCname))

/-- The turn of the loop of `merge_into`. -/
def mergeEntry (m : DdlStnameUsedcols) (e : DdlStname × DdlUsedcols) : DdlStnameUsedcols :=
  (m.insertName e.1).modify e.1 (· ∪ e.2)

/-- `merge_into`. -/
def mergeInto (m that : DdlStnameUsedcols) : DdlStnameUsedcols := that.entries.foldl mergeEntry m

theorem find_insertName (m : DdlStnameUsedcols) (stname k : DdlStname) :
    (m.insertName stname).find k = (m.find k).or (if k = stname then some ∅ else none) := by
  unfold insertName
  cases hfind : m.find stname with
  | none => exact UnorderedMap.find_insert m stname k ∅
  | some usedcols =>
      rw [if_neg (by simp)]
      by_cases hk : k = stname
      · rw [hk, hfind]
        rfl
      · rw [if_neg hk, Option.or_none]

theorem find_mergeEntry (m : DdlStnameUsedcols) (e : DdlStname × DdlUsedcols) (k : DdlStname) :
    (m.mergeEntry e).find k =
      if k = e.1 then Option.merge (· ∪ ·) (m.find k) (some e.2) else m.find k := by
  unfold mergeEntry
  rw [UnorderedMap.find_modify, find_insertName]
  by_cases hk : k = e.1
  · rw [if_pos hk, if_pos hk, if_pos hk]
    cases m.find k with
    | none => simp
    | some usedcols => rfl
  · rw [if_neg hk, if_neg hk, if_neg hk, Option.or_none]

theorem find_mergeInto (m that : DdlStnameUsedcols) (k : DdlStname) :
    (m.mergeInto that).find k = Option.merge (· ∪ ·) (m.find k) (that.find k) :=
  UnorderedMap.find_foldl_join find_mergeEntry m that k

/-! ### Merging as a join -/

/-- All of these merged into an empty one. -/
def mergeAll (ms : List DdlStnameUsedcols) : DdlStnameUsedcols := ms.foldl mergeInto ∅

theorem isSome_merge {α : Type} {f : α → α → α} (o o' : Option α) :
    (Option.merge f o o').isSome = (o.isSome || o'.isSome) := by
  cases o with
  | none => simp
  | some a =>
      cases o' with
      | none => rfl
      | some a' => rfl

theorem mem_merge_iff {c : DdlCname} (o o' : Option DdlUsedcols) :
    c ∈ (Option.merge (· ∪ ·) o o').getD ∅ ↔ c ∈ o.getD ∅ ∨ c ∈ o'.getD ∅ := by
  cases o with
  | none => simp
  | some usedcols =>
      cases o' with
      | none => simp
      | some usedcols' => exact Finset.mem_union

/-- A table is named in the merged names when it is in one of them, and its used columns are those it has in any. -/
theorem find_mergeAll (ms : List DdlStnameUsedcols) (k : DdlStname) :
    (((mergeAll ms).find k).isSome ↔ ∃ m ∈ ms, (m.find k).isSome) ∧
      ∀ c, c ∈ ((mergeAll ms).find k).getD ∅ ↔ ∃ m ∈ ms, c ∈ (m.find k).getD ∅ := by
  have hfold : ∀ m₀ : DdlStnameUsedcols,
      (((ms.foldl mergeInto m₀).find k).isSome ↔ (m₀.find k).isSome ∨ ∃ m ∈ ms, (m.find k).isSome) ∧
        ∀ c, c ∈ ((ms.foldl mergeInto m₀).find k).getD ∅ ↔
          c ∈ (m₀.find k).getD ∅ ∨ ∃ m ∈ ms, c ∈ (m.find k).getD ∅ := by
    induction ms with
    | nil => simp
    | cons m ms ih =>
        intro m₀
        obtain ⟨hsome, hmem⟩ := ih (m₀.mergeInto m)
        rw [find_mergeInto] at hsome hmem
        rw [List.foldl_cons, hsome, isSome_merge, Bool.or_eq_true, List.exists_mem_cons_iff, or_assoc]
        refine ⟨Iff.rfl, ?_⟩
        intro c
        rw [hmem, mem_merge_iff, List.exists_mem_cons_iff, or_assoc]
  obtain ⟨hsome, hmem⟩ := hfold ∅
  refine ⟨hsome.trans (or_iff_right (by simp)), ?_⟩
  intro c
  exact (hmem c).trans (or_iff_right (by simp))

/-- The names are the same when the same tables are named, with the same used columns. -/
theorem perm_entries_of_iff {m m' : DdlStnameUsedcols} (htable : ∀ k, (m.find k).isSome ↔ (m'.find k).isSome)
    (husedcol : ∀ k c, c ∈ (m.find k).getD ∅ ↔ c ∈ (m'.find k).getD ∅) : m.entries.Perm m'.entries := by
  rw [UnorderedMap.perm_entries_iff]
  intro k
  have hcols : (m.find k).getD ∅ = (m'.find k).getD ∅ := Finset.ext (husedcol k)
  cases hfind : m.find k with
  | none =>
      cases hfind' : m'.find k with
      | none => rfl
      | some usedcols =>
          have htable := (htable k).mpr (by rw [hfind']; rfl)
          rw [hfind] at htable
          cases htable
  | some usedcols =>
      obtain ⟨usedcols', hfind'⟩ := Option.isSome_iff_exists.mp ((htable k).mp (by rw [hfind]; rfl))
      rw [hfind, hfind'] at hcols
      rw [hfind', show usedcols = usedcols' from hcols]

/-- The order in which names are merged does not matter. -/
theorem mergeAll_perm {ms ms' : List DdlStnameUsedcols} (h : ms.Perm ms') :
    (mergeAll ms).entries.Perm (mergeAll ms').entries := by
  refine perm_entries_of_iff (fun k => ?_) fun k c => ?_
  · rw [(find_mergeAll ms k).1, (find_mergeAll ms' k).1]
    simp only [h.mem_iff]
  · rw [(find_mergeAll ms k).2, (find_mergeAll ms' k).2]
    simp only [h.mem_iff]

end DdlStnameUsedcols

end Middle.NormalDdl
