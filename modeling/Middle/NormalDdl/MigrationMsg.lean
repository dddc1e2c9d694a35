import Mathlib
import Middle.Lib.StrictWeakOrder
import Middle.NormalDdl.Names

/-! The messages of a migration and the order they are sorted by (`ddl_stnames_migration_msg`). Messages of
one level, line and name are ordered by their texts, with those of a batch source file next to the same
message without one; the exact sets of messages are given on which this is a strict weak order. -/

namespace Middle.NormalDdl

open Lib Lib.StrictWeakOrder Universals

inductive DdlMigrationMsgLevel where
  | error
  | warning
  | remark
  deriving DecidableEq, Repr

/-- The value the enumeration is compared by. -/
def DdlMigrationMsgLevel.toNat : DdlMigrationMsgLevel → Nat
  | .error => 0
  | .warning => 1
  | .remark => 2

structure DdlMigrationMsg where
  level : DdlMigrationMsgLevel
  msg : Text
  deriving DecidableEq

namespace DdlMigrationMsg

def tableUsedButUndefinedMsg : Text := "table used but undefined".toList

def columnUsedButRejectedMsg : Text := "column used but rejected".toList

def makeFkTargetTableUsedButUndefinedMsg (fkrefStname : Text) : Text :=
  "FK target table ".toList ++ fkrefStname ++ " used but undefined".toList

end DdlMigrationMsg

structure DdlStnamesMigrationMsg where
  lineno : Nat
  stname : DdlStname
  cname : DdlCname
  msg : DdlMigrationMsg
  deriving DecidableEq

namespace DdlStnamesMigrationMsg

def batchSourceFileMsgSuffix : Text := " [batch source file: '".toList

/-- What `operator<` compares last, `find` taking the place of tests for a prefix. -/
def ltText (msg that : Text) : Bool :=
  if find msg that 0 = some 0 ∧ find msg batchSourceFileMsgSuffix that.length = some that.length then true
  else if find that msg 0 = some 0 ∧ find that batchSourceFileMsgSuffix msg.length = some msg.length then
    false
  else if find that batchSourceFileMsgSuffix 0 = none ∧ find msg batchSourceFileMsgSuffix 0 ≠ none then true
  else msg < that

/-- `operator<`. -/
def lt (this that : DdlStnamesMigrationMsg) : Bool :=
  if this.msg.level.toNat < that.msg.level.toNat then true
  else if this.msg.level = that.msg.level then
    if this.lineno < that.lineno then true
    else if this.lineno = that.lineno then
      if this.stname.name < that.stname.name then true
      else if this.stname = that.stname then
        if this.cname.name < that.cname.name then true
        else if this.cname = that.cname then ltText this.msg.msg that.msg.msg
        else false
      else false
    else false
  else false

/-! ### Texts -/

/-- A batch source file is named in the text. -/
def Suffixed (msg : Text) : Prop := batchSourceFileMsgSuffix <:+: msg

/-- `msg` starts with all of `that` and goes on to name a batch source file. -/
def Extends (msg that : Text) : Prop := that ++ batchSourceFileMsgSuffix <+: msg

instance : DecidablePred Suffixed := fun msg =>
  inferInstanceAs (Decidable (batchSourceFileMsgSuffix <:+: msg))

instance : DecidableRel Extends := fun msg that =>
  inferInstanceAs (Decidable (that ++ batchSourceFileMsgSuffix <+: msg))

theorem extends_iff_find (msg that : Text) :
    Extends msg that ↔
      find msg that 0 = some 0 ∧ find msg batchSourceFileMsgSuffix that.length = some that.length := by
  rw [find_zero_eq_zero_iff]
  constructor
  · rintro ⟨rest, rfl⟩
    refine ⟨⟨batchSourceFileMsgSuffix ++ rest, by simp⟩, ?_⟩
    rw [find_eq_self_iff (by simp)]
    simp
  · rintro ⟨⟨rest, rfl⟩, h⟩
    rw [find_eq_self_iff (by simp), List.drop_left] at h
    obtain ⟨rest, rfl⟩ := h
    exact ⟨rest, by simp⟩

theorem suffixed_iff_find (msg : Text) : Suffixed msg ↔ find msg batchSourceFileMsgSuffix 0 ≠ none := by
  rw [Suffixed, Ne, find_zero_eq_none_iff, not_not]

theorem ltText_iff (msg that : Text) :
    ltText msg that = true ↔ Extends msg that ∨
      ¬ Extends that msg ∧ (¬ Suffixed that ∧ Suffixed msg ∨ msg < that) := by
  have hplain : find that batchSourceFileMsgSuffix 0 = none ↔ ¬ Suffixed that := by
    rw [suffixed_iff_find, not_not]
  unfold ltText
  simp only [← extends_iff_find, hplain, ← suffixed_iff_find]
  split
  · simp [*]
  · split
    · simp [*]
    · split
      · simp [*]
      · simp [*]

theorem suffixed_of_extends {msg that : Text} (h : Extends msg that) : Suffixed msg := by
  obtain ⟨rest, rfl⟩ := h
  exact ⟨that, rest, by simp⟩

theorem lt_of_startsWith {s t : Text} (h : s <+: t) (hne : s ≠ t) : s < t := by
  obtain ⟨rest, rfl⟩ := h
  induction s with
  | nil =>
      cases rest with
      | nil => exact absurd rfl hne
      | cons c rest => exact List.nil_lt_cons c rest
  | cons c s ih =>
      refine List.cons_lt_cons_iff.mpr (.inr ⟨rfl, ih ?_⟩)
      intro heq
      exact hne (congrArg (c :: ·) heq)

/-- Between a text and one that starts with it stand only texts that start with it. -/
theorem prefix_of_lt_of_lt {s t u : Text} (h : s <+: u) (hst : s < t) (htu : t < u) : s <+: t := by
  induction s generalizing t u with
  | nil => exact List.nil_prefix
  | cons c s ih =>
      cases t with
      | nil => exact absurd hst (by simp)
      | cons d t =>
          cases u with
          | nil => exact absurd htu (by simp)
          | cons e u =>
              obtain ⟨rfl, hsu⟩ := List.cons_prefix_cons.mp h
              rw [List.cons_lt_cons_iff] at hst htu
              rcases hst with hcd | ⟨rfl, hst⟩
              · rcases htu with hdc | ⟨rfl, -⟩
                · exact absurd hcd (lt_asymm hdc)
                · exact absurd hcd (lt_irrefl _)
              · rcases htu with hcc | ⟨-, htu⟩
                · exact absurd hcc (lt_irrefl _)
                · exact List.cons_prefix_cons.mpr ⟨rfl, ih hsu hst htu⟩

theorem lt_of_extends {msg that : Text} (h : Extends msg that) : that < msg := by
  refine lt_of_startsWith ((List.prefix_append _ _).trans h) ?_
  rintro rfl
  have hlen : (that ++ batchSourceFileMsgSuffix).length ≤ that.length := List.IsPrefix.length_le h
  have hpos : 0 < batchSourceFileMsgSuffix.length := by decide
  rw [List.length_append] at hlen
  omega

theorem extends_trans {s t u : Text} (hst : Extends s t) (htu : Extends t u) : Extends s u :=
  htu.trans ((List.prefix_append _ _).trans hst)

/-! ### The order of texts -/

section Texts

variable {α : Type} (text : α → Text)

/-- Where no text with a batch source file is below one without by accident of their characters, and every
text that goes on where a batch source file is named in another is on the right side of it. -/
structure Sortable : Prop where
  plain : ∀ u v, ¬ Suffixed (text u) → Suffixed (text v) → Extends (text v) (text u) ∨ text v < text u
  nested : ∀ u v w, Suffixed (text u) → Extends (text w) (text u) → text u <+: text v → text u ≠ text v →
    ¬ Extends (text v) (text u) → Extends (text w) (text v) ∨ text w < text v

/-- Texts with a batch source file go first. -/
def hasNoSuffix (a : α) : Bool := !decide (Suffixed (text a))

variable {text}

theorem ltText_iff_byKey (h : Sortable text) (a b : α) :
    ltText (text a) (text b) = true ↔ ByKey (hasNoSuffix text) (Flipped text Extends) a b := by
  rw [ltText_iff]
  unfold ByKey Flipped
  by_cases ha : Suffixed (text a)
  · by_cases hb : Suffixed (text b)
    · simp [hasNoSuffix, ha, hb]
    · have hba : ¬ Extends (text b) (text a) := fun h => hb (suffixed_of_extends h)
      simp [hasNoSuffix, ha, hb, hba]
  · have hab : ¬ Extends (text a) (text b) := fun h => ha (suffixed_of_extends h)
    by_cases hb : Suffixed (text b)
    · have hno : ¬ (¬ Extends (text b) (text a) ∧ text a < text b) := by
        rintro ⟨hba, hlt⟩
        exact lt_asymm hlt ((h.plain a b ha hb).resolve_left hba)
      have hkey : ¬ hasNoSuffix text a < hasNoSuffix text b := by simp [hasNoSuffix, ha, hb]
      have hne : hasNoSuffix text a ≠ hasNoSuffix text b := by simp [hasNoSuffix, ha, hb]
      simp [ha, hab, hno, hkey, hne]
    · simp [hasNoSuffix, ha, hb]

/-- The order of texts is a strict weak order exactly on sortable sets of them. -/
theorem isStrictWeakOrder_ltText_iff :
    IsStrictWeakOrder α (fun a b => ltText (text a) (text b) = true) ↔ Sortable text := by
  constructor
  · intro h
    refine ⟨fun u v hu hv => ?_, fun u v w _ hwu hprefix hne hvu => ?_⟩
    · by_contra hno
      rw [not_or, not_lt] at hno
      have hne : text u ≠ text v := fun heq => hu (heq ▸ hv)
      have huv : ltText (text u) (text v) = true :=
        (ltText_iff _ _).mpr (.inr ⟨hno.1, .inr (lt_of_le_of_ne hno.2 hne)⟩)
      have hvu : ltText (text v) (text u) = true :=
        (ltText_iff _ _).mpr (.inr ⟨fun h => hu (suffixed_of_extends h), .inl ⟨hu, hv⟩⟩)
      exact h.irrefl u (h.trans _ _ _ huv hvu)
    · by_contra hno
      rw [not_or, not_lt] at hno
      have hvw : text v ≠ text w := fun heq => hvu (heq ▸ hwu)
      have hlt : ltText (text u) (text v) = true :=
        (ltText_iff _ _).mpr (.inr ⟨hvu, .inr (lt_of_startsWith hprefix hne)⟩)
      have hlt' : ltText (text v) (text w) = true :=
        (ltText_iff _ _).mpr (.inr ⟨hno.1, .inr (lt_of_le_of_ne hno.2 hvw)⟩)
      rcases (ltText_iff _ _).mp (h.trans _ _ _ hlt hlt') with huw | ⟨hno, -⟩
      · exact lt_asymm (lt_of_extends huw) (lt_of_extends hwu)
      · exact hno hwu
  · intro h
    have heq : (fun a b => ltText (text a) (text b) = true) =
        ByKey (hasNoSuffix text) (Flipped text Extends) := by
      funext a b
      exact propext (ltText_iff_byKey h a b)
    rw [heq, isStrictWeakOrder_byKey_iff]
    intro k
    refine (@isStrictWeakOrder_flipped_iff {a // hasNoSuffix text a = k} Text _ (fun a => text a) Extends
      (fun _ _ => lt_of_extends) fun _ _ _ => extends_trans).mpr ?_
    rintro ⟨u, hu⟩ ⟨v, hv⟩ ⟨w, hw⟩ hwu huv hvw
    by_contra hno
    rw [not_or] at hno
    -- what extends a text names a source file, and so do the others of its class
    have hsuffix : Suffixed (text u) := by
      have hkey := hw.trans hu.symm
      simpa [hasNoSuffix, suffixed_of_extends hwu] using hkey
    have hprefix : text u <+: text v :=
      prefix_of_lt_of_lt ((List.prefix_append _ _).trans hwu) huv hvw
    rcases h.nested u v w hsuffix hwu hprefix huv.ne hno.1 with hwv | hwv
    · exact hno.2 hwv
    · exact lt_asymm hvw hwv

end Texts

/-! ### The order of messages -/

/-- What `operator<` compares before the texts. -/
def key (m : DdlStnamesMigrationMsg) : Nat ×ₗ Nat ×ₗ Text ×ₗ Text :=
  toLex (m.msg.level.toNat, toLex (m.lineno, toLex (m.stname.name, m.cname.name)))

theorem level_toNat_inj {l l' : DdlMigrationMsgLevel} : l.toNat = l'.toNat ↔ l = l' := by
  cases l <;> cases l' <;> decide

theorem key_eq_iff {m m' : DdlStnamesMigrationMsg} : key m = key m' ↔
    m.msg.level = m'.msg.level ∧ m.lineno = m'.lineno ∧ m.stname = m'.stname ∧ m.cname = m'.cname := by
  simp [key, level_toNat_inj, DdlStname.ext_iff, DdlCname.ext_iff]

/-- One key of the comparison. -/
theorem ite_lt_iff {p q : Prop} [Decidable p] [Decidable q] {b : Bool} :
    (if p then true else if q then b else false) = true ↔ p ∨ q ∧ b = true := by
  by_cases hp : p <;> by_cases hq : q <;> simp [hp, hq]

theorem lt_iff_byKey (m m' : DdlStnamesMigrationMsg) :
    m.lt m' = true ↔ ByKey key (fun m m' => ltText m.msg.msg m'.msg.msg = true) m m' := by
  unfold ByKey lt
  rw [key_eq_iff, ite_lt_iff, ite_lt_iff, ite_lt_iff, ite_lt_iff]
  simp only [key, Prod.Lex.toLex_lt_toLex, level_toNat_inj, ← DdlStname.ext_iff]
  tauto

/-- Messages of one level, line and name can be sorted by their texts. -/
def SortableMsgs (msgs : Set DdlStnamesMigrationMsg) : Prop :=
  ∀ k, Sortable fun m : {m : msgs // key m = k} => m.1.1.msg.msg

/-- `operator<` is a strict weak order on a set of messages exactly when their texts are sortable. -/
theorem lt_isStrictWeakOrder_iff (msgs : Set DdlStnamesMigrationMsg) :
    IsStrictWeakOrder msgs (fun m m' => m.1.lt m'.1 = true) ↔ SortableMsgs msgs := by
  have heq : (fun m m' : msgs => m.1.lt m'.1 = true) =
      ByKey (fun m : msgs => key m) fun m m' => ltText m.1.msg.msg m'.1.msg.msg = true := by
    funext m m'
    exact propext (lt_iff_byKey m.1 m'.1)
  rw [heq, isStrictWeakOrder_byKey_iff]
  exact forall_congr' fun k => isStrictWeakOrder_ltText_iff

/-- The message of a target table that no file defines. -/
def undefinedTargetMsg : DdlStnamesMigrationMsg where
  lineno := 0
  stname := .empty
  cname := .empty
  msg := ⟨.warning, DdlMigrationMsg.makeFkTargetTableUsedButUndefinedMsg "dbo.a".toList⟩

/-- The message of a target table that one of the files of a batch does not define. -/
def undefinedBatchTargetMsg : DdlStnamesMigrationMsg where
  lineno := 0
  stname := .empty
  cname := .empty
  msg := ⟨.warning, DdlMigrationMsg.makeFkTargetTableUsedButUndefinedMsg "dbo.b".toList ++
    batchSourceFileMsgSuffix ++ "b.xml']".toList⟩

/-- Each of the two messages is below the other. -/
theorem lt_not_isStrictWeakOrder :
    undefinedTargetMsg.lt undefinedBatchTargetMsg = true ∧
      undefinedBatchTargetMsg.lt undefinedTargetMsg = true ∧
      ¬ IsStrictWeakOrder DdlStnamesMigrationMsg (fun m m' => m.lt m' = true) := by
  have hlt : undefinedTargetMsg.lt undefinedBatchTargetMsg = true := by decide +kernel
  have hgt : undefinedBatchTargetMsg.lt undefinedTargetMsg = true := by decide +kernel
  exact ⟨hlt, hgt, fun h => h.irrefl _ (h.trans _ _ _ hlt hgt)⟩

end DdlStnamesMigrationMsg

end Middle.NormalDdl
