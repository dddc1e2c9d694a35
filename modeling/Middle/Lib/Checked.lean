import Mathlib

/-! Lists read element by element, by a function that may refuse one. What is refused is the first element that
is; a loop that adds what it reads of each element to a state reads the list first and adds all of it then. -/

namespace Lib

variable {α β φ σ : Type}

theorem bind_eq_ok_iff {x : Except φ α} {f : α → Except φ β} {b : β} :
    x >>= f = .ok b ↔ ∃ a, x = .ok a ∧ f a = .ok b := by
  cases x with
  | error e => simp [bind, Except.bind]
  | ok a => simp [bind, Except.bind]

theorem mapError_eq_ok_iff {ψ : Type} {x : Except φ α} {f : φ → ψ} {a : α} :
    x.mapError f = .ok a ↔ x = .ok a := by
  cases x with
  | error e => simp [Except.mapError]
  | ok a => simp [Except.mapError]

/-- What is thrown, if anything is, satisfies the predicate. -/
def ThrowsOnly (P : φ → Prop) (x : Except φ α) : Prop := ∀ e, x = .error e → P e

section ThrowsOnly

variable {P : φ → Prop}

theorem ThrowsOnly.of_eq_error {x : Except φ α} {e : φ} (h : ThrowsOnly P x) (he : x = .error e) : P e := h e he

theorem throwsOnly_ok (a : α) : ThrowsOnly P (.ok a) := by
  intro e h
  cases h

theorem throwsOnly_error {e : φ} (h : P e) : ThrowsOnly P (.error e : Except φ α) := by
  rintro _ ⟨⟩
  exact h

theorem throwsOnly_ite {p : Prop} [Decidable p] {x y : Except φ α} (hx : ThrowsOnly P x) (hy : ThrowsOnly P y) :
    ThrowsOnly P (if p then x else y) := by
  split
  · exact hx
  · exact hy

theorem throwsOnly_bind {x : Except φ α} {f : α → Except φ β} (hx : ThrowsOnly P x)
    (hf : ∀ a, ThrowsOnly P (f a)) : ThrowsOnly P (x >>= f) := by
  cases x with
  | error e => exact throwsOnly_error (hx.of_eq_error rfl)
  | ok a => exact hf a

end ThrowsOnly

/-- A loop whose turns add what an element is read as. -/
theorem foldlM_eq_mapM {step : σ → α → Except φ σ} {read : α → Except φ β} {add : σ → β → σ}
    (hstep : ∀ st a, step st a = (read a).map (add st)) (l : List α) (st : σ) :
    l.foldlM step st = (l.mapM read).map fun bs => bs.foldl add st := by
  induction l generalizing st with
  | nil => rfl
  | cons a l ih =>
      rw [List.foldlM_cons, List.mapM_cons, hstep]
      cases read a with
      | error e => rfl
      | ok b =>
          change l.foldlM step (add st b) = _
          rw [ih]
          dsimp only [bind, Except.bind]
          cases l.mapM read with
          | error e => rfl
          | ok bs => rfl

theorem mapM_eq_error_iff {f : α → Except φ β} {l : List α} {e : φ} :
    l.mapM f = .error e ↔
      ∃ before a behind, l = before ++ a :: behind ∧ (∀ a' ∈ before, ∃ b, f a' = .ok b) ∧ f a = .error e := by
  induction l with
  | nil => simp [pure, Except.pure]
  | cons a l ih =>
      rw [List.mapM_cons]
      constructor
      · intro h
        cases ha : f a with
        | error e' =>
            rw [ha] at h
            cases h
            exact ⟨[], a, l, rfl, by simp, ha⟩
        | ok b =>
            rw [ha] at h
            cases hl : l.mapM f with
            | ok bs =>
                rw [hl] at h
                cases h
            | error e' =>
                rw [hl] at h
                cases h
                obtain ⟨before, a', behind, rfl, hbefore, ha'⟩ := ih.mp hl
                exact ⟨a :: before, a', behind, rfl, List.forall_mem_cons.mpr ⟨⟨b, ha⟩, hbefore⟩, ha'⟩
      · rintro ⟨before, a', behind, hsplit, hbefore, ha'⟩
        cases before with
        | nil =>
            obtain ⟨rfl, rfl⟩ := List.cons.inj hsplit
            rw [ha']
            rfl
        | cons a₁ before =>
            obtain ⟨rfl, rfl⟩ := List.cons.inj hsplit
            obtain ⟨⟨b, hb⟩, hbefore⟩ := List.forall_mem_cons.mp hbefore
            rw [hb, ih.mpr ⟨before, a', behind, rfl, hbefore, ha'⟩]
            rfl

theorem exists_mapM_eq_ok_iff {f : α → Except φ β} {l : List α} :
    (∃ l', l.mapM f = .ok l') ↔ ∀ a ∈ l, ∃ b, f a = .ok b := by
  induction l with
  | nil => simp [pure, Except.pure]
  | cons a l ih =>
      rw [List.mapM_cons, List.forall_mem_cons, ← ih]
      cases f a with
      | error e => simp [bind, Except.bind]
      | ok b =>
          cases l.mapM f with
          | error e => simp [bind, Except.bind]
          | ok l' => simp [bind, Except.bind, pure, Except.pure]

theorem mapM_eq_ok_map {f : α → Except φ β} {g : α → β} {l : List α} (h : ∀ a ∈ l, f a = .ok (g a)) :
    l.mapM f = .ok (l.map g) := by
  induction l with
  | nil => rfl
  | cons a l ih =>
      rw [List.forall_mem_cons] at h
      rw [List.mapM_cons, h.1, ih h.2]
      rfl

/-- What has been read of the elements of a list is what each of them is read as. -/
theorem exists_mem_iff_of_mapM {f : α → Except φ β} {l : List α} {bs : List β} (h : l.mapM f = .ok bs)
    {P : β → Prop} : (∃ b ∈ bs, P b) ↔ ∃ a ∈ l, ∃ b, f a = .ok b ∧ P b := by
  induction l generalizing bs with
  | nil =>
      cases h
      simp
  | cons a l ih =>
      rw [List.mapM_cons] at h
      cases ha : f a with
      | error e =>
          rw [ha] at h
          cases h
      | ok b =>
          rw [ha] at h
          cases hl : l.mapM f with
          | error e =>
              rw [hl] at h
              cases h
          | ok bs' =>
              rw [hl] at h
              cases h
              simp [ha, ih hl]

end Lib
