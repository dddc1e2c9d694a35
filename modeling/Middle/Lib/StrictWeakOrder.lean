import Mathlib

/-! When a comparison built from others is a strict weak order, which is what sorting asks of it: a
comparison by a key first, and a linear comparison in which some pairs are taken the other way round. -/

namespace Lib.StrictWeakOrder

variable {α κ : Type} [LinearOrder κ]

/-- By `key` first, and by `r` where the keys agree. -/
def ByKey (key : α → κ) (r : α → α → Prop) (a b : α) : Prop := key a < key b ∨ key a = key b ∧ r a b

/-- By the order of the values, but with the pairs of `flip` taken the other way round. -/
def Flipped (val : α → κ) (flip : κ → κ → Prop) (a b : α) : Prop :=
  flip (val a) (val b) ∨ ¬ flip (val b) (val a) ∧ val a < val b

variable {key : α → κ} {r : α → α → Prop}

theorem incomparable_byKey_iff {a b : α} :
    (¬ ByKey key r a b ∧ ¬ ByKey key r b a) ↔ key a = key b ∧ ¬ r a b ∧ ¬ r b a := by
  unfold ByKey
  constructor
  · rintro ⟨hab, hba⟩
    rw [not_or] at hab hba
    have hkey : key a = key b := le_antisymm (not_lt.mp hba.1) (not_lt.mp hab.1)
    exact ⟨hkey, fun h => hab.2 ⟨hkey, h⟩, fun h => hba.2 ⟨hkey.symm, h⟩⟩
  · rintro ⟨hkey, hab, hba⟩
    simp [hkey, hab, hba]

/-- A comparison by a key first is a strict weak order when it is one among the elements of each key. -/
theorem isStrictWeakOrder_byKey_iff :
    IsStrictWeakOrder α (ByKey key r) ↔
      ∀ k, IsStrictWeakOrder {a // key a = k} fun a b => r a b := by
  constructor
  · intro h k
    have hfibre : ∀ a b : {a // key a = k}, ByKey key r a b ↔ r a b := by
      intro a b
      have heq : key a = key b := a.2.trans b.2.symm
      simp [ByKey, heq]
    refine { irrefl := ?_, trans := ?_, incomp_trans := ?_ }
    · intro a ha
      exact h.irrefl a ((hfibre a a).mpr ha)
    · intro a b c hab hbc
      exact (hfibre a c).mp (h.trans _ _ _ ((hfibre a b).mpr hab) ((hfibre b c).mpr hbc))
    · intro a b c hab hbc
      have hac := h.incomp_trans a b c (by rwa [hfibre, hfibre]) (by rwa [hfibre, hfibre])
      rwa [hfibre, hfibre] at hac
  · intro h
    refine { irrefl := ?_, trans := ?_, incomp_trans := ?_ }
    · rintro a (hlt | ⟨-, ha⟩)
      · exact lt_irrefl _ hlt
      · exact (h (key a)).irrefl ⟨a, rfl⟩ ha
    · rintro a b c (hab | ⟨hab, hrab⟩) (hbc | ⟨hbc, hrbc⟩)
      · exact .inl (hab.trans hbc)
      · exact .inl (hbc ▸ hab)
      · exact .inl (hab ▸ hbc)
      · exact .inr ⟨hab.trans hbc,
          (h (key c)).trans ⟨a, hab.trans hbc⟩ ⟨b, hbc⟩ ⟨c, rfl⟩ hrab hrbc⟩
    · intro a b c hab hbc
      rw [incomparable_byKey_iff] at hab hbc ⊢
      have hac := hab.1.trans hbc.1
      exact ⟨hac, (h (key c)).incomp_trans ⟨a, hac⟩ ⟨b, hbc.1⟩ ⟨c, rfl⟩ hab.2 hbc.2⟩

variable {val : α → κ} {flip : κ → κ → Prop}

/-- Elements with different values are comparable. -/
theorem flipped_or_of_lt {a b : α} (h : val a < val b) : Flipped val flip a b ∨ Flipped val flip b a := by
  by_cases hflip : flip (val b) (val a)
  · exact .inr (.inl hflip)
  · exact .inl (.inr ⟨hflip, h⟩)

/-- Taking a transitive set of pairs the other way round leaves a strict weak order when no value lies
between those of such a pair without one of its own pairs being taken the other way round. -/
theorem isStrictWeakOrder_flipped_iff (hlt : ∀ x y, flip x y → y < x)
    (htrans : ∀ x y z, flip x y → flip y z → flip x z) :
    IsStrictWeakOrder α (Flipped val flip) ↔
      ∀ a b c, flip (val c) (val a) → val a < val b → val b < val c →
        flip (val b) (val a) ∨ flip (val c) (val b) := by
  have hself : ∀ x, ¬ flip x x := fun x h => lt_irrefl x (hlt x x h)
  have hirrefl : ∀ a b, val a = val b → ¬ Flipped val flip a b := by
    rintro a b hab (h | ⟨-, h⟩)
    · exact hself _ (hab ▸ h)
    · exact h.ne hab
  constructor
  · intro h a b c hca hab hbc
    by_contra hno
    rw [not_or] at hno
    have hstep : Flipped val flip a c :=
      h.trans _ _ _ (.inr ⟨hno.1, hab⟩) (.inr ⟨hno.2, hbc⟩)
    rcases hstep with hac | ⟨hac, -⟩
    · exact lt_asymm (hlt _ _ hac) (hab.trans hbc)
    · exact hac hca
  · intro h
    refine { irrefl := fun a => hirrefl a a rfl, trans := ?_, incomp_trans := ?_ }
    · rintro a b c (hab | ⟨hab, hlab⟩) (hbc | ⟨hbc, hlbc⟩)
      · exact .inl (htrans _ _ _ hab hbc)
      · have hca : ¬ flip (val c) (val a) := fun hca => hbc (htrans _ _ _ hca hab)
        rcases lt_trichotomy (val a) (val c) with hac | hac | hac
        · exact .inr ⟨hca, hac⟩
        · exact absurd (hac ▸ hab) hbc
        · exact .inl ((h b c a hab hlbc hac).resolve_left hbc)
      · have hca : ¬ flip (val c) (val a) := fun hca => hab (htrans _ _ _ hbc hca)
        rcases lt_trichotomy (val a) (val c) with hac | hac | hac
        · exact .inr ⟨hca, hac⟩
        · exact absurd (hac ▸ hbc) hab
        · exact .inl ((h c a b hbc hac hlab).resolve_right hab)
      · by_cases hca : flip (val c) (val a)
        · rcases h a b c hca hlab hlbc with hba | hcb
          · exact absurd hba hab
          · exact absurd hcb hbc
        · exact .inr ⟨hca, hlab.trans hlbc⟩
    · have hval : ∀ a b, (¬ Flipped val flip a b ∧ ¬ Flipped val flip b a) → val a = val b := by
        intro a b hab
        by_contra hne
        rcases lt_or_gt_of_ne hne with hlt | hlt
        · rcases flipped_or_of_lt hlt with h | h
          · exact hab.1 h
          · exact hab.2 h
        · rcases flipped_or_of_lt hlt with h | h
          · exact hab.2 h
          · exact hab.1 h
      intro a b c hab hbc
      have hac := (hval a b hab).trans (hval b c hbc)
      exact ⟨hirrefl a c hac, hirrefl c a hac.symm⟩

end Lib.StrictWeakOrder
