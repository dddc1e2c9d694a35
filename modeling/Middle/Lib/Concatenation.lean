import Mathlib

/-! Texts written one behind the other: when the order they are written in makes no difference, and why it
does where each is a paragraph of lines with an empty line in front of it. -/

namespace Lib.Concatenation

variable {α β γ : Type}

/-- Two texts that can be written in either order. -/
def Exchange (f : α → List β) (a b : α) : Prop := f a ++ f b = f b ++ f a

instance (f : α → List β) : Std.Symm (Exchange f) := ⟨fun _ _ h => h.symm⟩

/-- The order makes no difference exactly when that of any two makes none. -/
theorem flatMap_perm_iff (f : α → List β) (l : List α) :
    (∀ l' : List α, l'.Perm l → l'.flatMap f = l.flatMap f) ↔ l.Pairwise (Exchange f) := by
  constructor
  · intro h
    rw [List.pairwise_iff_forall_sublist]
    intro a b hsublist
    obtain ⟨rest, hperm⟩ := hsublist.exists_perm_append
    have hab := h _ hperm.symm
    have hba := h ([b, a] ++ rest) ((List.Perm.swap a b rest).trans hperm.symm)
    have hboth : (f a ++ f b) ++ rest.flatMap f = (f b ++ f a) ++ rest.flatMap f := by
      simpa using hab.trans hba.symm
    exact List.append_cancel_right hboth
  · intro h l' hperm
    have hpairs : l'.Pairwise (Exchange f) := hperm.symm.pairwise h fun hab => hab.symm
    clear h
    induction hperm with
    | nil => rfl
    | cons a hperm ih =>
        rw [List.flatMap_cons, List.flatMap_cons, ih (List.pairwise_cons.mp hpairs).2]
    | swap a b l =>
        have hba : f b ++ f a = f a ++ f b := (List.pairwise_cons.mp hpairs).1 a List.mem_cons_self
        rw [List.flatMap_cons, List.flatMap_cons, List.flatMap_cons, List.flatMap_cons, ← List.append_assoc,
          ← List.append_assoc, hba]
    | trans hperm₁ hperm₂ ih₁ ih₂ =>
        exact (ih₁ hpairs).trans (ih₂ (hperm₁.pairwise hpairs fun hab => hab.symm))

/-- The same for texts that belong to distinct keys. -/
theorem flatMap_perm_iff_of_nodup (f : α → List β) (key : γ → α) {l : List γ} (hl : (l.map key).Nodup) :
    (∀ l' : List γ, l'.Perm l → (l'.flatMap fun c => f (key c)) = l.flatMap fun c => f (key c)) ↔
      ∀ a ∈ l.map key, ∀ b ∈ l.map key, a ≠ b → Exchange f a b := by
  have hkeys : l.Pairwise (Exchange fun c => f (key c)) ↔ (l.map key).Pairwise (Exchange f) := by
    rw [List.pairwise_map]
    exact Iff.rfl
  rw [flatMap_perm_iff, hkeys]
  constructor
  · intro h a ha b hb hne
    exact h.forall ha hb hne
  · exact hl.pairwise_of_forall_ne

/-- Lines with no empty one among them: a line feed at the end, and no two next to each other. -/
structure IsParagraph (lf : α) (text : List α) : Prop where
  last : text.getLast? = some lf
  chain : text.IsChain fun c d => ¬ (c = lf ∧ d = lf)

variable {lf : α}

theorem isParagraph_line {line : List α} (hline : lf ∉ line) : IsParagraph lf (line ++ [lf]) := by
  refine ⟨List.getLast?_concat, List.Pairwise.isChain ?_⟩
  rw [List.pairwise_append]
  refine ⟨?_, List.pairwise_singleton _ _, ?_⟩
  · apply List.pairwise_of_forall_mem_list
    rintro c hc d - ⟨rfl, -⟩
    exact hline hc
  · rintro c hc d - ⟨rfl, -⟩
    exact hline hc

/-- Lines that are not empty one behind the other. -/
theorem isParagraph_flatMap (f : β → List α) {l : List β} (hl : l ≠ [])
    (hf : ∀ b ∈ l, f b ≠ [] ∧ lf ∉ f b) : IsParagraph lf (l.flatMap fun b => f b ++ [lf]) := by
  induction l with
  | nil => exact absurd rfl hl
  | cons b l ih =>
      rw [List.forall_mem_cons] at hf
      have hline := isParagraph_line hf.1.2
      cases l with
      | nil => simpa using hline
      | cons b' l =>
          obtain ⟨c, line, hb'⟩ := List.exists_cons_of_ne_nil (hf.2 b' List.mem_cons_self).1
          have hc : c ≠ lf := by
            rintro rfl
            exact (hf.2 b' List.mem_cons_self).2 (hb' ▸ List.mem_cons_self)
          have hrest := ih (List.cons_ne_nil _ _) hf.2
          rw [List.flatMap_cons]
          constructor
          · rw [List.getLast?_append_of_ne_nil, hrest.last]
            intro hnil
            rw [hnil] at hrest
            cases hrest.last
          · refine hline.chain.append hrest.chain ?_
            rintro x - y hy ⟨-, rfl⟩
            rw [List.flatMap_cons, hb', List.cons_append, List.cons_append, List.head?_cons] at hy
            exact hc (Option.some.inj hy)

/-- Two paragraphs that can be exchanged are the same. -/
theorem eq_of_exchange {u v : List α} (hu : IsParagraph lf u) (hv : IsParagraph lf v)
    (h : (lf :: u) ++ (lf :: v) = (lf :: v) ++ (lf :: u)) : u = v := by
  -- the longer one would go on with an empty line behind the shorter one
  have hlonger : ∀ {u v d : List α}, IsParagraph lf u → IsParagraph lf v → v = u ++ d →
      lf :: v = d ++ lf :: u → u = v := by
    intro u v d hu hv hsplit htail
    cases d with
    | nil => rw [hsplit, List.append_nil]
    | cons c d =>
        obtain ⟨rfl, -⟩ := List.cons.inj htail
        rw [hsplit] at hv
        exact absurd ⟨rfl, rfl⟩ ((List.isChain_append.mp hv.chain).2.2 _ hu.last _ rfl)
  have htails : u ++ lf :: v = v ++ lf :: u := (List.cons.inj h).2
  obtain ⟨d, hsplit, htail⟩ | ⟨d, hsplit, htail⟩ := List.append_eq_append_iff.mp htails
  · exact hlonger hu hv hsplit htail
  · exact (hlonger hv hu hsplit htail).symm

/-! ### Dropping from the ends -/

/-- What a text is without what is dropped from its front is written from the parts that are left. -/
theorem dropWhile_flatMap {f : α → List β} {p : β → Bool} {b : α → Bool} {l : List α}
    (hdrop : ∀ a ∈ l, b a = true → ∀ x ∈ f a, p x = true)
    (hkeep : ∀ a ∈ l, b a = false → ∃ x s, f a = x :: s ∧ p x = false) :
    (l.flatMap f).dropWhile p = (l.dropWhile b).flatMap f := by
  induction l with
  | nil => rfl
  | cons a l ih =>
      obtain ⟨hdrop₁, hdrop⟩ := List.forall_mem_cons.mp hdrop
      obtain ⟨hkeep₁, hkeep⟩ := List.forall_mem_cons.mp hkeep
      rw [List.flatMap_cons, List.dropWhile_cons]
      cases hb : b a with
      | true =>
          have hnil : (f a).dropWhile p = [] := List.dropWhile_eq_nil_iff.mpr (hdrop₁ hb)
          rw [if_pos rfl, List.dropWhile_append, hnil, ← ih hdrop hkeep]
          rfl
      | false =>
          obtain ⟨x, s, hfa, hx⟩ := hkeep₁ hb
          rw [if_neg (by decide), List.flatMap_cons, hfa, List.cons_append, List.dropWhile_cons, if_neg (by simp [hx])]

/-- The same at the other end. -/
theorem rdropWhile_flatMap {f : α → List β} {p : β → Bool} {b : α → Bool} {l : List α}
    (hdrop : ∀ a ∈ l, b a = true → ∀ x ∈ f a, p x = true)
    (hkeep : ∀ a ∈ l, b a = false → ∃ x s, f a = s ++ [x] ∧ p x = false) :
    (l.flatMap f).rdropWhile p = (l.rdropWhile b).flatMap f := by
  have hreverse : (l.flatMap f).reverse.dropWhile p =
      (l.reverse.dropWhile b).flatMap fun a => (f a).reverse := by
    rw [List.reverse_flatMap]
    refine dropWhile_flatMap ?_ ?_
    · intro a ha hb x hx
      exact hdrop a (List.mem_reverse.mp ha) hb x (List.mem_reverse.mp hx)
    · intro a ha hb
      obtain ⟨x, s, hfa, hx⟩ := hkeep a (List.mem_reverse.mp ha) hb
      exact ⟨x, s.reverse, by rw [Function.comp_apply, hfa, List.reverse_concat], hx⟩
  unfold List.rdropWhile
  rw [hreverse, List.reverse_flatMap]
  simp only [Function.comp_def, List.reverse_reverse]

end Lib.Concatenation
