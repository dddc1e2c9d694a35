import Mathlib

/-! A loop that repeats one pass over a value until a pass throws, changes nothing, or yields a value
at which the loop stops. Nothing bounds such a loop: it is run on fuel, and what follows says when some
fuel is enough. -/

namespace Lib.Passes

variable {α ε : Type} (pass : α → Except ε (Option α)) (stop : α → Bool)

/-- At most `fuel` passes from `a`; `none` when the loop is still running then. A pass yields `none`
when it changes nothing. -/
def run : Nat → α → Option (Except ε α)
  | 0, _ => none
  | fuel + 1, a =>
      match pass a with
      | .error e => some (.error e)
      | .ok none => some (.ok a)
      | .ok (some b) => if stop b then some (.ok b) else run fuel b

/-- One pass with which the loop goes on. -/
def Step (a b : α) : Prop := pass a = .ok (some b) ∧ stop b = false

/-- The pass from `a` is the last one. -/
def Halts (a : α) : Prop :=
  (∃ e, pass a = .error e) ∨ pass a = .ok none ∨ ∃ b, pass a = .ok (some b) ∧ stop b = true

variable {pass stop}

theorem run_succ_of_step {a b : α} (h : Step pass stop a b) (fuel : Nat) :
    run pass stop (fuel + 1) a = run pass stop fuel b := by
  simp [run, h.1, h.2]

theorem run_one_of_halts {a : α} (h : Halts pass stop a) : (run pass stop 1 a).isSome := by
  obtain ⟨e, h⟩ | h | ⟨b, h, hb⟩ := h
  · simp [run, h]
  · simp [run, h]
  · simp [run, h, hb]

/-- Each value is the last one or has a successor. -/
theorem halts_or_step (a : α) : Halts pass stop a ∨ ∃ b, Step pass stop a b := by
  cases h : pass a with
  | error e => exact .inl (.inl ⟨e, h⟩)
  | ok r =>
      cases r with
      | none => exact .inl (.inr (.inl h))
      | some b =>
          cases hb : stop b with
          | false => exact .inr ⟨b, h, hb⟩
          | true => exact .inl (.inr (.inr ⟨b, h, hb⟩))

/-- Some fuel is enough exactly when the passes lead to a last one. -/
theorem run_isSome_iff {a : α} :
    (∃ fuel, (run pass stop fuel a).isSome) ↔
      ∃ b, Relation.ReflTransGen (Step pass stop) a b ∧ Halts pass stop b := by
  constructor
  · rintro ⟨fuel, h⟩
    induction fuel generalizing a with
    | zero => cases h
    | succ fuel ih =>
        obtain hhalts | ⟨b, hstep⟩ : Halts pass stop a ∨ ∃ b, Step pass stop a b := halts_or_step a
        · exact ⟨a, .refl, hhalts⟩
        · rw [run_succ_of_step hstep] at h
          obtain ⟨c, hreach, hhalts⟩ := ih h
          exact ⟨c, .head hstep hreach, hhalts⟩
  · rintro ⟨b, hreach, hhalts⟩
    induction hreach using Relation.ReflTransGen.head_induction_on with
    | refl => exact ⟨1, run_one_of_halts hhalts⟩
    | head hstep _ ih =>
        obtain ⟨fuel, h⟩ := ih
        exact ⟨fuel + 1, by rw [run_succ_of_step hstep]; exact h⟩

/-- The loop has stopped on a value that is final for it or that one further pass leaves unchanged. -/
theorem pass_of_run {fuel : Nat} {a b : α} (h : run pass stop fuel a = some (.ok b)) :
    stop b = true ∨ pass b = .ok none := by
  induction fuel generalizing a with
  | zero => cases h
  | succ fuel ih =>
      rw [run] at h
      split at h
      · cases h
      · rename_i hpass
        cases h
        exact .inr hpass
      · split at h
        · rename_i hb
          cases h
          exact .inl hb
        · exact ih h

/-- What a pass throws is all the loop can throw. -/
theorem error_of_run {fuel : Nat} {a : α} {e : ε} (h : run pass stop fuel a = some (.error e)) :
    ∃ b, pass b = .error e := by
  induction fuel generalizing a with
  | zero => cases h
  | succ fuel ih =>
      rw [run] at h
      split at h
      · rename_i hpass
        cases h
        exact ⟨a, hpass⟩
      · cases h
      · split at h
        · cases h
        · exact ih h

/-- A loop whose steps lower a measure needs no more fuel than the measure allows. -/
theorem run_of_measure (measure : α → Nat) (hlower : ∀ a b, Step pass stop a b → measure b < measure a)
    {fuel : Nat} {a : α} (hfuel : measure a < fuel) : (run pass stop fuel a).isSome := by
  induction fuel generalizing a with
  | zero => exact absurd hfuel (Nat.not_lt_zero _)
  | succ fuel ih =>
      obtain hhalts | ⟨b, hstep⟩ : Halts pass stop a ∨ ∃ b, Step pass stop a b := halts_or_step a
      · obtain ⟨e, h⟩ | h | ⟨b, h, hb⟩ := hhalts
        · simp [run, h]
        · simp [run, h]
        · simp [run, h, hb]
      · rw [run_succ_of_step hstep]
        exact ih (by have := hlower a b hstep; omega)

/-- A loop beside another one that takes no more passes: where the passes of the second return, those of the first do,
and stop where they stop. -/
theorem run_ok_of_simulates {β : Type} {pass' : β → Except ε (Option β)} {stop' : β → Bool} {r : α → β → Prop}
    (hstop : ∀ a b, r a b → stop' b = true → stop a = true)
    (hnone : ∀ a b, r a b → pass' b = .ok none → pass a = .ok none)
    (hsome : ∀ a b b', r a b → pass' b = .ok (some b') → ∃ a', pass a = .ok (some a') ∧ r a' b')
    {fuel : Nat} {a : α} {b b' : β} (h : r a b) (hrun : run pass' stop' fuel b = some (.ok b')) :
    ∃ a', run pass stop fuel a = some (.ok a') := by
  induction fuel generalizing a b with
  | zero => cases hrun
  | succ fuel ih =>
      rw [run] at hrun ⊢
      split at hrun
      · cases hrun
      · rename_i hpass
        rw [hnone a b h hpass]
        exact ⟨a, rfl⟩
      · rename_i b₁ hpass
        obtain ⟨a₁, hpass₁, h₁⟩ := hsome a b b₁ h hpass
        rw [hpass₁]
        dsimp only
        split
        · exact ⟨a₁, rfl⟩
        · rename_i hgoes
          rw [if_neg (mt (hstop a₁ b₁ h₁) hgoes)] at hrun
          exact ih h₁ hrun

/-- What holds where the loop begins and is kept by every pass holds where it ends. -/
theorem run_of_invariant {inv : α → Prop} (hstep : ∀ a b, inv a → pass a = .ok (some b) → inv b) {fuel : Nat} {a b : α}
    (ha : inv a) (h : run pass stop fuel a = some (.ok b)) : inv b := by
  induction fuel generalizing a with
  | zero => cases h
  | succ fuel ih =>
      rw [run] at h
      split at h
      · cases h
      · cases h
        exact ha
      · rename_i hpass
        split at h
        · cases h
          exact hstep a _ ha hpass
        · exact ih (hstep a _ ha hpass) h

/-- A loop whose steps stay inside an orbit never stops. -/
theorem run_eq_none_of_orbit {a : α} (orbit : α → Prop) (ha : orbit a)
    (horbit : ∀ b, orbit b → ∃ c, Step pass stop b c ∧ orbit c) (fuel : Nat) :
    run pass stop fuel a = none := by
  induction fuel generalizing a with
  | zero => rfl
  | succ fuel ih =>
      obtain ⟨b, hstep, hb⟩ := horbit a ha
      rw [run_succ_of_step hstep]
      exact ih hb

end Lib.Passes
