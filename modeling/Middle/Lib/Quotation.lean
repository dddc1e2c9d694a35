import Mathlib

/-! Lists with quoted segments, and the two ways to put a quote into one: it is doubled, or an escape stands in front of it.
Both readings close a segment at the same quote where the escapes in front of it are even in number. -/

namespace Lib

/-- A quote, the escape of the one reading, and the elements that stand outside the segments. -/
structure Quotation (α : Type) where
  quote : α
  escape : α
  plain : α → Prop
  quote_ne_escape : quote ≠ escape
  not_plain_quote : ¬ plain quote

namespace Quotation

variable {α : Type} (Q : Quotation α)

/-- A literal behind its opening quote, up to and with the quote that closes it. A quote in it is doubled. -/
inductive LiteralBody : List α → Prop
  | close : LiteralBody [Q.quote]
  | doubled {w : List α} (h : LiteralBody w) : LiteralBody (Q.quote :: Q.quote :: w)
  | other {a : α} {w : List α} (ha : a ≠ Q.quote) (h : LiteralBody w) : LiteralBody (a :: w)

def IsLiteral (q : List α) : Prop := ∃ w, q = Q.quote :: w ∧ Q.LiteralBody w

/-- A literal without a quote in it. -/
def IsSegment (q : List α) : Prop := ∃ u, q = Q.quote :: (u ++ [Q.quote]) ∧ Q.quote ∉ u

/-- A list made of literals and plain elements. -/
inductive HasLiterals : List α → Prop
  | nil : HasLiterals []
  | literal {q s : List α} (hq : Q.IsLiteral q) (h : HasLiterals s) : HasLiterals (q ++ s)
  | plain {a : α} {s : List α} (ha : Q.plain a) (h : HasLiterals s) : HasLiterals (a :: s)

/-- What a scan takes at once: a segment or a plain element. -/
def IsPiece (q : List α) : Prop := Q.IsSegment q ∨ ∃ a, q = [a] ∧ Q.plain a

/-- The same segment with escapes: the element behind an escape is never the quote that closes it. -/
inductive EscapedBody : List α → Prop
  | close : EscapedBody [Q.quote]
  | escaped {a : α} {w : List α} (h : EscapedBody w) : EscapedBody (Q.escape :: a :: w)
  | other {a : α} {w : List α} (hescape : a ≠ Q.escape) (hquote : a ≠ Q.quote) (h : EscapedBody w) :
      EscapedBody (a :: w)

section Parity

variable [DecidableEq α]

/-- How many escapes stand at the end, directly in front of what comes behind. -/
def escapesBefore (s : List α) : Nat := (s.reverse.takeWhile (· = Q.escape)).length

/-- In front of every quote that stands inside a literal or closes it, the escapes are even in number. A quote does so where
an odd number of quotes is in front of it. -/
def Paired (s : List α) : Prop :=
  ∀ u v, s = u ++ Q.quote :: v → Odd (u.count Q.quote) → Even (Q.escapesBefore u)

end Parity

variable {Q} {a : α} {q s t u w : List α}

/-! ### Literals -/

theorem IsLiteral.ne_nil (hq : Q.IsLiteral q) : q ≠ [] := by
  obtain ⟨w, rfl, -⟩ := hq
  exact List.cons_ne_nil _ _

theorem IsSegment.isLiteral (hq : Q.IsSegment q) : Q.IsLiteral q := by
  obtain ⟨u, rfl, hu⟩ := hq
  refine ⟨_, rfl, ?_⟩
  induction u with
  | nil => exact .close
  | cons b u ih =>
      obtain ⟨hb, hu⟩ := not_or.mp (mt List.mem_cons.mpr hu)
      exact .other (Ne.symm hb) (ih hu)

theorem eq_of_concat_quote {x v : List α} (hu : Q.quote ∉ u) (h : u ++ [Q.quote] = x ++ Q.quote :: v) : x = u ∧ v = [] := by
  obtain ⟨y, rfl, hy⟩ | ⟨y, rfl, hy⟩ := List.append_eq_append_iff.mp h
  · cases y with
    | nil => exact ⟨List.append_nil _, (List.cons.inj hy).2.symm⟩
    | cons b y => simp at hy
  · cases y with
    | nil => exact ⟨(List.append_nil _).symm, (List.cons.inj hy).2⟩
    | cons b y =>
        rw [(List.cons.inj hy).1] at hu
        exact absurd (List.mem_append_right x List.mem_cons_self) hu

/-- A literal goes to its next quote, and a doubled quote opens it again. -/
theorem IsLiteral.exists_segment (hq : Q.IsLiteral q) :
    ∃ p q', q = p ++ q' ∧ Q.IsSegment p ∧ (q' = [] ∨ Q.IsLiteral q') := by
  obtain ⟨w, rfl, hw⟩ := hq
  induction hw with
  | close => exact ⟨[Q.quote, Q.quote], [], rfl, ⟨[], rfl, List.not_mem_nil⟩, .inl rfl⟩
  | @doubled w h ih =>
      exact ⟨[Q.quote, Q.quote], Q.quote :: w, rfl, ⟨[], rfl, List.not_mem_nil⟩, .inr ⟨w, rfl, h⟩⟩
  | @other a w ha h ih =>
      obtain ⟨p, q', heq, ⟨u, rfl, hu⟩, hq'⟩ := ih
      refine ⟨Q.quote :: (a :: u ++ [Q.quote]), q', ?_, ⟨a :: u, rfl, ?_⟩, hq'⟩
      · rw [(List.cons.inj heq).2]
        rfl
      · rw [List.mem_cons, not_or]
        exact ⟨Ne.symm ha, hu⟩

section Count

variable [DecidableEq α]

theorem odd_count_of_literalBody (h : Q.LiteralBody w) : Odd (w.count Q.quote) := by
  induction h with
  | close => simp
  | doubled h ih =>
      rw [List.count_cons_self, List.count_cons_self, Nat.add_assoc]
      exact ih.add_even even_two
  | other ha h ih =>
      rw [List.count_cons_of_ne ha]
      exact ih

theorem IsLiteral.even_count (hq : Q.IsLiteral q) : Even (q.count Q.quote) := by
  obtain ⟨w, rfl, hw⟩ := hq
  rw [List.count_cons_self]
  exact (odd_count_of_literalBody hw).add_one

/-- Where a literal is cut behind its second quote of a pair, both parts are literals. -/
theorem literalBody_append (h : Q.LiteralBody (s ++ t)) (hcount : Odd (s.count Q.quote)) :
    Q.LiteralBody s ∧ (t = [] ∨ Q.IsLiteral t) := by
  generalize hw : s ++ t = w at h
  induction h generalizing s with
  | close =>
      cases s with
      | nil => exact absurd hcount (by simp)
      | cons b s =>
          obtain ⟨rfl, hnil⟩ := List.cons.inj hw
          obtain ⟨rfl, rfl⟩ := List.append_eq_nil_iff.mp hnil
          exact ⟨.close, .inl rfl⟩
  | @doubled w h ih =>
      match s with
      | [] => exact absurd hcount (by simp)
      | [b] =>
          obtain ⟨hb, ht⟩ : b = Q.quote ∧ t = Q.quote :: w := List.cons.inj hw
          rw [hb, ht]
          exact ⟨.close, .inr ⟨w, rfl, h⟩⟩
      | b :: b' :: s =>
          obtain ⟨hb, hrest⟩ := List.cons.inj hw
          obtain ⟨hb', hrest⟩ := List.cons.inj hrest
          rw [hb, hb'] at hcount ⊢
          rw [List.count_cons_self, List.count_cons_self, Nat.odd_add_one, Nat.odd_add_one, not_not] at hcount
          obtain ⟨hs, ht⟩ := ih hcount hrest
          exact ⟨.doubled hs, ht⟩
  | @other a w ha h ih =>
      cases s with
      | nil => exact absurd hcount (by simp)
      | cons b s =>
          obtain ⟨hb, hrest⟩ := List.cons.inj hw
          rw [hb] at hcount ⊢
          rw [List.count_cons_of_ne ha] at hcount
          obtain ⟨hs, ht⟩ := ih hcount hrest
          exact ⟨.other ha hs, ht⟩

theorem IsLiteral.append_cases (hq : Q.IsLiteral (s ++ t)) (hcount : Even (s.count Q.quote)) :
    s = [] ∨ Q.IsLiteral s ∧ (t = [] ∨ Q.IsLiteral t) := by
  obtain ⟨w, heq, hw⟩ := hq
  cases s with
  | nil => exact .inl rfl
  | cons b s =>
      obtain ⟨rfl, rfl⟩ : b = Q.quote ∧ s ++ t = w := List.cons.inj heq
      rw [List.count_cons_self, Nat.even_add_one, Nat.not_even_iff_odd] at hcount
      obtain ⟨hs, ht⟩ := literalBody_append hw hcount
      exact .inr ⟨⟨s, rfl, hs⟩, ht⟩

end Count

/-! ### Lists with literals -/

theorem ne_quote_of_plain (ha : Q.plain a) : a ≠ Q.quote := by
  rintro rfl
  exact Q.not_plain_quote ha

theorem IsLiteral.hasLiterals (hq : Q.IsLiteral q) : Q.HasLiterals q := by
  rw [← List.append_nil q]
  exact .literal hq .nil

theorem hasLiterals_of_plain (hs : ∀ b ∈ s, Q.plain b) : Q.HasLiterals s := by
  induction s with
  | nil => exact .nil
  | cons b s ih =>
      obtain ⟨hb, hs⟩ := List.forall_mem_cons.mp hs
      exact .plain hb (ih hs)

theorem IsPiece.hasLiterals (hq : Q.IsPiece q) : Q.HasLiterals q := by
  obtain hq | ⟨a, rfl, ha⟩ := hq
  · exact hq.isLiteral.hasLiterals
  · exact .plain ha .nil

theorem HasLiterals.append (hs : Q.HasLiterals s) (ht : Q.HasLiterals t) : Q.HasLiterals (s ++ t) := by
  induction hs with
  | nil => exact ht
  | literal hq h ih =>
      rw [List.append_assoc]
      exact .literal hq ih
  | plain ha h ih => exact .plain ha ih

/-- A list that starts with a quote starts with a segment. -/
theorem HasLiterals.exists_segment (h : Q.HasLiterals (Q.quote :: s)) :
    ∃ p t, Q.quote :: s = p ++ t ∧ Q.IsSegment p ∧ Q.HasLiterals t := by
  generalize ht : Q.quote :: s = t at h
  cases h with
  | nil => cases ht
  | @literal q t hq h =>
      obtain ⟨p, q', rfl, hp, hq'⟩ := hq.exists_segment
      refine ⟨p, q' ++ t, by rw [List.append_assoc], hp, ?_⟩
      obtain rfl | hq' := hq'
      · exact h
      · exact .literal hq' h
  | plain ha h =>
      rw [← (List.cons.inj ht).1] at ha
      exact absurd ha Q.not_plain_quote

theorem HasLiterals.plain_of_ne (h : Q.HasLiterals (a :: s)) (ha : a ≠ Q.quote) : Q.plain a := by
  generalize ht : a :: s = t at h
  cases h with
  | nil => cases ht
  | literal hq h =>
      obtain ⟨w, rfl, -⟩ := hq
      exact absurd (List.cons.inj ht).1 ha
  | plain hb h =>
      rw [(List.cons.inj ht).1]
      exact hb

section Count

variable [DecidableEq α]

theorem HasLiterals.even_count (h : Q.HasLiterals s) : Even (s.count Q.quote) := by
  induction h with
  | nil => exact .zero
  | literal hq h ih =>
      rw [List.count_append]
      exact hq.even_count.add ih
  | plain ha h ih =>
      rw [List.count_cons_of_ne (ne_quote_of_plain ha)]
      exact ih

/-- Behind an even number of quotes no literal is open. -/
theorem HasLiterals.of_append (h : Q.HasLiterals (s ++ t)) (hcount : Even (s.count Q.quote)) :
    Q.HasLiterals s ∧ Q.HasLiterals t := by
  generalize hw : s ++ t = w at h
  induction h generalizing s with
  | nil =>
      obtain ⟨rfl, rfl⟩ := List.append_eq_nil_iff.mp hw
      exact ⟨.nil, .nil⟩
  | @literal q w hq h ih =>
      obtain ⟨x, rfl, rfl⟩ | ⟨x, rfl, rfl⟩ := List.append_eq_append_iff.mp hw
      · obtain rfl | ⟨hs, rfl | hx⟩ := hq.append_cases hcount
        · exact ⟨.nil, .literal hq h⟩
        · exact ⟨hs.hasLiterals, h⟩
        · exact ⟨hs.hasLiterals, .literal hx h⟩
      · rw [List.count_append, Nat.even_add, iff_true_left hq.even_count] at hcount
        obtain ⟨hx, ht⟩ := ih hcount rfl
        exact ⟨.literal hq hx, ht⟩
  | @plain b w hb h ih =>
      cases s with
      | nil =>
          rw [List.nil_append] at hw
          rw [hw]
          exact ⟨.nil, .plain hb h⟩
      | cons b' s =>
          obtain ⟨heq, hrest⟩ := List.cons.inj hw
          rw [heq] at hcount ⊢
          rw [List.count_cons_of_ne (ne_quote_of_plain hb)] at hcount
          obtain ⟨hs, ht⟩ := ih hcount hrest
          exact ⟨.plain hb hs, ht⟩

/-- A piece is not cut where no literal is open. -/
theorem IsPiece.prefix_of_append (hq : Q.IsPiece q) (h : q ++ s = u ++ t) (hne : u ≠ []) (hu : Q.HasLiterals u) :
    ∃ u', u = q ++ u' ∧ s = u' ++ t := by
  obtain ⟨x, rfl, hs⟩ | ⟨x, hx, rfl⟩ := List.append_eq_append_iff.mp h
  · exact ⟨x, rfl, hs⟩
  · obtain ⟨b, u, rfl⟩ := List.exists_cons_of_ne_nil hne
    obtain ⟨w, rfl, hw⟩ | ⟨a, rfl, -⟩ := hq
    · obtain ⟨rfl, hrest⟩ := List.cons.inj hx
      have hcount := hu.even_count
      rw [List.count_cons_self, Nat.even_add_one, Nat.not_even_iff_odd] at hcount
      -- the second quote of the segment is its last element
      obtain ⟨y, z, rfl⟩ := List.append_of_mem (List.count_pos_iff.mp hcount.pos)
      obtain ⟨rfl, hnil⟩ := eq_of_concat_quote hw (hrest.trans (List.append_assoc y _ x))
      obtain ⟨rfl, rfl⟩ := List.append_eq_nil_iff.mp hnil
      exact ⟨[], (List.append_nil _).symm, rfl⟩
    · obtain ⟨rfl, hnil⟩ := List.cons.inj hx
      obtain ⟨rfl, rfl⟩ := List.append_eq_nil_iff.mp hnil.symm
      exact ⟨[], rfl, rfl⟩

theorem HasLiterals.right (h : Q.HasLiterals (s ++ t)) (hs : Q.HasLiterals s) : Q.HasLiterals t :=
  (h.of_append hs.even_count).2

end Count

/-! ### Escapes -/

section Parity

variable [DecidableEq α]

theorem escapesBefore_concat (u : List α) (a : α) :
    Q.escapesBefore (u ++ [a]) = if a = Q.escape then Q.escapesBefore u + 1 else 0 := by
  rw [escapesBefore, List.reverse_append, List.reverse_singleton, List.singleton_append, List.takeWhile_cons]
  by_cases ha : a = Q.escape <;> simp [ha, escapesBefore]

theorem escapesBefore_singleton (a : α) : Q.escapesBefore [a] = if a = Q.escape then 1 else 0 :=
  escapesBefore_concat [] a

/-- What ends in an even number of escapes changes nothing behind it. -/
theorem even_escapesBefore_append (ha : Even (Q.escapesBefore s)) (u : List α) :
    Even (Q.escapesBefore (s ++ u)) ↔ Even (Q.escapesBefore u) := by
  induction u using List.reverseRecOn with
  | nil =>
      rw [List.append_nil]
      exact iff_of_true ha .zero
  | append_singleton u b ih =>
      rw [← List.append_assoc, escapesBefore_concat, escapesBefore_concat]
      split
      · rw [Nat.even_add_one, Nat.even_add_one, ih]
      · rfl

theorem even_escapesBefore_quote (s : List α) : Even (Q.escapesBefore (s ++ [Q.quote])) := by
  rw [escapesBefore_concat, if_neg Q.quote_ne_escape]
  exact .zero

theorem even_escapesBefore_of_mem (hu : Q.quote ∈ u) (s : List α) :
    Even (Q.escapesBefore (s ++ u)) ↔ Even (Q.escapesBefore u) := by
  obtain ⟨x, y, rfl⟩ := List.append_of_mem hu
  rw [List.append_cons, ← List.append_assoc, ← List.append_assoc]
  rw [even_escapesBefore_append (even_escapesBefore_quote (s ++ x)),
    even_escapesBefore_append (even_escapesBefore_quote x)]

theorem mem_of_odd_count (hu : Odd (u.count Q.quote)) : Q.quote ∈ u :=
  List.count_pos_iff.mp hu.pos

theorem paired_of_not_mem (hs : Q.quote ∉ s) : Q.Paired s := by
  rintro u v rfl -
  exact absurd (List.mem_append_right u List.mem_cons_self) hs

/-- The escapes are paired in two parts of a list one by one, where no literal is open between them. -/
theorem paired_append_iff (hcount : Even (s.count Q.quote)) : Q.Paired (s ++ t) ↔ Q.Paired s ∧ Q.Paired t := by
  constructor
  · refine fun h => ⟨fun u v heq hodd => ?_, fun u v heq hodd => ?_⟩
    · refine h u (v ++ t) ?_ hodd
      rw [heq, List.append_assoc, List.cons_append]
    · have hpaired := h (s ++ u) v (by rw [heq, List.append_assoc])
        (by rw [List.count_append]; exact hcount.add_odd hodd)
      exact (even_escapesBefore_of_mem (mem_of_odd_count hodd) s).mp hpaired
  · rintro ⟨hs, ht⟩ u v heq hodd
    obtain ⟨x, rfl, hx⟩ | ⟨x, rfl, hx⟩ := List.append_eq_append_iff.mp heq
    · rw [List.count_append, Nat.odd_add', iff_true_right hcount] at hodd
      exact (even_escapesBefore_of_mem (mem_of_odd_count hodd) s).mpr (ht x v hx hodd)
    · cases x with
      | nil =>
          rw [List.append_nil] at hcount
          exact absurd hcount (Nat.not_even_iff_odd.mpr hodd)
      | cons b x =>
          refine hs u x ?_ hodd
          rw [(List.cons.inj hx).1]

end Parity

/-! ### Both readings -/

theorem not_literalBody_nil : ¬ Q.LiteralBody [] := by
  intro h
  cases h

theorem literalBody_quote_iff :
    Q.LiteralBody (Q.quote :: w) ↔ w = [] ∨ ∃ w', w = Q.quote :: w' ∧ Q.LiteralBody w' := by
  constructor
  · intro h
    generalize ht : Q.quote :: w = t at h
    cases h with
    | close => exact .inl (List.cons.inj ht).2
    | @doubled w' h => exact .inr ⟨w', (List.cons.inj ht).2, h⟩
    | other ha => exact absurd (List.cons.inj ht).1.symm ha
  · rintro (rfl | ⟨w', rfl, h⟩)
    · exact .close
    · exact .doubled h

theorem literalBody_other_iff (ha : a ≠ Q.quote) : Q.LiteralBody (a :: w) ↔ Q.LiteralBody w := by
  constructor
  · intro h
    generalize ht : a :: w = t at h
    cases h with
    | close | doubled => exact absurd (List.cons.inj ht).1 ha
    | other _ h =>
        rw [(List.cons.inj ht).2]
        exact h
  · exact .other ha

theorem not_escapedBody_nil : ¬ Q.EscapedBody [] := by
  intro h
  cases h

theorem escapedBody_quote_iff : Q.EscapedBody (Q.quote :: w) ↔ w = [] := by
  constructor
  · intro h
    generalize ht : Q.quote :: w = t at h
    cases h with
    | close => exact (List.cons.inj ht).2
    | escaped => exact absurd (List.cons.inj ht).1 Q.quote_ne_escape
    | other _ hquote => exact absurd (List.cons.inj ht).1.symm hquote
  · rintro rfl
    exact .close

theorem escapedBody_escape_iff : Q.EscapedBody (Q.escape :: a :: w) ↔ Q.EscapedBody w := by
  constructor
  · intro h
    generalize ht : Q.escape :: a :: w = t at h
    cases h with
    | close => exact absurd (List.cons.inj ht).1.symm Q.quote_ne_escape
    | escaped h =>
        rw [(List.cons.inj (List.cons.inj ht).2).2]
        exact h
    | other hescape => exact absurd (List.cons.inj ht).1.symm hescape
  · exact .escaped

theorem escapedBody_other_iff (hescape : a ≠ Q.escape) (hquote : a ≠ Q.quote) :
    Q.EscapedBody (a :: w) ↔ Q.EscapedBody w := by
  constructor
  · intro h
    generalize ht : a :: w = t at h
    cases h with
    | close => exact absurd (List.cons.inj ht).1 hquote
    | escaped => exact absurd (List.cons.inj ht).1 hescape
    | other _ _ h =>
        rw [(List.cons.inj ht).2]
        exact h
  · exact .other hescape hquote

/-- Where both readings close a segment at its end, there is no quote in it: of a doubled quote that is escaped the second one
closes it for the one, and not for the other. -/
theorem LiteralBody.exists_of_escapedBody (h : Q.LiteralBody w) (hescaped : Q.EscapedBody w) :
    ∃ u, w = u ++ [Q.quote] ∧ Q.quote ∉ u := by
  induction hescaped with
  | close => exact ⟨[], rfl, List.not_mem_nil⟩
  | @escaped b w hw ih =>
      rw [literalBody_other_iff Q.quote_ne_escape.symm] at h
      by_cases hb : b = Q.quote
      · subst hb
        obtain rfl | ⟨w', rfl, hw'⟩ := literalBody_quote_iff.mp h
        · exact absurd hw not_escapedBody_nil
        · rw [escapedBody_quote_iff] at hw
          exact absurd (hw ▸ hw') not_literalBody_nil
      · obtain ⟨u, rfl, hu⟩ := ih ((literalBody_other_iff hb).mp h)
        refine ⟨Q.escape :: b :: u, rfl, ?_⟩
        rw [List.mem_cons, List.mem_cons, not_or, not_or]
        exact ⟨Q.quote_ne_escape, Ne.symm hb, hu⟩
  | @other b w hescape hquote hw ih =>
      obtain ⟨u, rfl, hu⟩ := ih ((literalBody_other_iff hquote).mp h)
      refine ⟨b :: u, rfl, ?_⟩
      rw [List.mem_cons, not_or]
      exact ⟨Ne.symm hquote, hu⟩

section Parity

variable [DecidableEq α]

/-- A segment without a quote in it is closed at its end by the escapes in front of that. -/
theorem escapedBody_iff (hu : Q.quote ∉ u) : Q.EscapedBody (u ++ [Q.quote]) ↔ Even (Q.escapesBefore u) := by
  induction hlen : u.length using Nat.strong_induction_on generalizing u with
  | _ k ih =>
    subst hlen
    cases u with
    | nil => exact iff_of_true .close .zero
    | cons b u =>
        obtain ⟨hb, hrest⟩ := not_or.mp (mt List.mem_cons.mpr hu)
        by_cases hescape : b = Q.escape
        · subst hescape
          cases u with
          | nil =>
              rw [List.singleton_append, escapedBody_escape_iff, escapesBefore_singleton, if_pos rfl]
              exact iff_of_false not_escapedBody_nil (by decide)
          | cons b' u =>
              have heven : Even (Q.escapesBefore [Q.escape, b']) := by
                rw [← List.singleton_append, escapesBefore_concat, escapesBefore_singleton, if_pos rfl]
                split
                · decide
                · exact .zero
              have hrest : Q.quote ∉ u := fun hmem => hrest (List.mem_cons_of_mem b' hmem)
              rw [List.cons_append, List.cons_append, escapedBody_escape_iff,
                ih u.length (by simp only [List.length_cons]; omega) hrest rfl]
              exact (even_escapesBefore_append heven u).symm
        · have heven : Even (Q.escapesBefore [b]) := by
            rw [escapesBefore_singleton, if_neg hescape]
            exact .zero
          rw [List.cons_append, escapedBody_other_iff hescape (Ne.symm hb), ih _ (Nat.lt_succ_self _) hrest rfl]
          exact (even_escapesBefore_append heven u).symm

/-- The escapes in a segment are paired when those in front of its end are. -/
theorem paired_segment_iff (hu : Q.quote ∉ u) :
    Q.Paired (Q.quote :: (u ++ [Q.quote])) ↔ Even (Q.escapesBefore u) := by
  have hfirst : Even (Q.escapesBefore (Q.quote :: u)) ↔ Even (Q.escapesBefore u) :=
    even_escapesBefore_append (even_escapesBefore_quote []) u
  rw [← hfirst]
  constructor
  · refine fun h => h (Q.quote :: u) [] rfl ?_
    rw [List.count_cons_self, List.count_eq_zero_of_not_mem hu]
    exact odd_one
  · intro h x v heq hodd
    cases x with
    | nil => exact absurd hodd (by simp)
    | cons b x =>
        obtain ⟨rfl, hrest⟩ := List.cons.inj heq
        rw [(eq_of_concat_quote hu hrest).1]
        exact h

end Parity

end Quotation

end Lib
